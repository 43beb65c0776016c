import Mathlib.Algebra.GroupWithZero.Nat
import Mathlib.Logic.Function.Basic
import Mathlib.Tactic.Common

/- Accounts that are opened with an amount, set anew, closed, and settled against each other.
Only an account with something left takes part; only opening brings one back. -/
namespace Accounts

open List Function

inductive Entry (κ : Type) where
  | opened (key : κ) (amount : Nat)
  | changed (key : κ) (amount : Nat)
  | closed (key : κ)
  | settled (first second : κ) (amount : Nat)

variable {κ : Type} [DecidableEq κ]

namespace Entry

def names (key : κ) : Entry κ → Prop
  | .opened other _ => other = key
  | .changed other _ => other = key
  | .closed other => other = key
  | .settled first second _ => first = key ∨ second = key

def opens (key : κ) : Entry κ → Prop
  | .opened other _ => other = key
  | _ => False

/-- What an entry takes off the account by settling. -/
def settles (key : κ) : Entry κ → Nat
  | .settled first second amount => if first = key ∨ second = key then amount else 0
  | _ => 0

end Entry

def post (balance : κ → Nat) : Entry κ → Option (κ → Nat)
  | .opened key amount => some (Function.update balance key amount)
  | .changed key amount =>
    if balance key = 0 then none else some (Function.update balance key amount)
  | .closed key => if balance key = 0 then none else some (Function.update balance key 0)
  | .settled first second amount =>
    if first ≠ second ∧ 0 < amount ∧ amount ≤ balance first ∧ amount ≤ balance second then
      some (Function.update (Function.update balance first (balance first - amount)) second
        (balance second - amount))
    else none

def postAll : (κ → Nat) → List (Entry κ) → Option (κ → Nat)
  | balance, [] => some balance
  | balance, entry :: entries => (post balance entry).bind (fun after => postAll after entries)

/-- All that was taken off the account by settling. -/
def settled (key : κ) (entries : List (Entry κ)) : Nat := (entries.map (Entry.settles key)).sum

@[simp] theorem settled_nil (key : κ) : settled key [] = 0 := rfl

variable {balance after : κ → Nat} {entry : Entry κ} {key : κ}

section Runs

variable {entries : List (Entry κ)}

section

variable (posted : postAll balance entries = some after)

include posted

end

end Runs

end Accounts
