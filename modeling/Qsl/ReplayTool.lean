import Qsl.EventLogDamage
import Qsl.Replay
import Qsl.VerifyReplay

/- The command line tool that recovers, repairs and replays a log. -/
namespace Qsl.ReplayTool

open List
open Decimal (print printInt)
open EventLog FrameScan
open TextLines (Text text)

def errorText : LogError → Text
  | .none => text "ok"
  | .openFailed => text "open-failed"
  | .truncated => text "truncated"
  | .badChecksum => text "bad-checksum"
  | .payloadTooLarge => text "payload-too-large"

def readError (error : LogError) : Text := text "log read error: " ++ errorText error ++ text "\n"

def symbolLine (sym : SymbolSnapshot) : Text :=
  let price := fun best : Option Price => (best.map (fun p => printInt p.toInt)).getD (text "-")
  text "symbol " ++ print sym.symbol.toNat ++ text ": orders=" ++ print sym.orderCount ++
    text " bid=" ++ price sym.bestBid ++ text " ask=" ++ price sym.bestAsk ++ text "\n"

def summary (records events : Nat) (snapshot : EngineSnapshot) : Text :=
  text "records: " ++ print records ++ text "\nreplayed events: " ++ print events ++
    text "\nlast_seq: " ++ print snapshot.lastSeq ++ text "\n" ++
    snapshot.symbols.flatMap symbolLine

def replay (file : Option (List UInt8)) : Exit :=
  let log := readAll file
  if log.error ≠ .none then ⟨1, [], readError log.error⟩
  else
    let (engine, events) := Qsl.replay (.new .baseline) log.records
    ⟨0, summary log.records.length events.length engine.snapshot, []⟩

section Recover

variable {file : List UInt8} {records : List LogRecord} {valid : Nat}

end Recover

end Qsl.ReplayTool
