import Cmm.Identifier.Extend
import Cmm.Identifier.Start

/-!
# Identifier characters

Reference model of `is_ident_start` and `is_ident_continue`.

* `Identifier.isStart` — a letter in the sense of XID_Start, or the underscore.
* `Identifier.isContinue` — a start character, a digit or mark in the sense of XID_Continue.

Both are decided without the tables on ASCII.
-/

set_option autoImplicit false

namespace Cmm.Identifier

/-- Whether a code point lies in one of the ranges. -/
def within (ranges : List (Nat × Nat)) (code : Nat) : Bool :=
  ranges.any fun (low, high) => low ≤ code && code ≤ high

/-- A character that can begin an identifier. -/
def isStart (c : Char) : Bool :=
  if c.val < 128 then c.isAlpha || c == '_' else within Start.ranges c.toNat

/-- A character that can stand inside an identifier. -/
def isContinue (c : Char) : Bool :=
  isStart c || if c.val < 128 then c.isDigit else within Extend.ranges c.toNat

end Cmm.Identifier
