import Qsl.ContiguousWrap
import Qsl.OrderPool
import Qsl.EventLogWriter
import Qsl.OrderLifetime
import Qsl.RingInterleaving
import Qsl.BookContracts
import Qsl.FixDamage
import Qsl.HalfClose
import Qsl.StaleEvents
import Qsl.Shrink
import Qsl.FixtureRoundTrip
import Qsl.TradeBudget
import Qsl.TcpServerRuns
import Qsl.PipelineProgress
import Qsl.UdpFeed
import Qsl.ReplayTool
