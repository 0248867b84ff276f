import Marginalia.Number.Binary64

/-!
# Json — numbers as written

A `Numeral` is what a number in a message says, before anyone asks what it is for: digits, a power
of ten, and whether it was written plainly, without fraction or exponent. Plain numerals of 64 bits
are whole numbers; every other numeral, minus zero among them, stands for the double nearest to it.
-/

namespace Marginalia.Json

/-- A number as written: `± digits · 10 ^ scale`. -/
structure Numeral where
  negative : Bool
  digits : Nat
  scale : Int
  plain : Bool
deriving DecidableEq, Repr, Inhabited

/-- What a numeral stands for. -/
inductive Number where
  | whole (n : Int)
  | real (x : Binary64)
deriving DecidableEq, Repr

namespace Numeral

/-- The whole number a plain numeral of 64 bits stands for: unsigned without a sign, and down to
`- 2 ^ 63` with one. -/
def whole? (n : Numeral) : Option Int :=
  if !n.plain then none
  else if n.negative then
    if 0 < n.digits ∧ n.digits ≤ wordBound / 2 then some (-(n.digits : Int)) else none
  else if n.digits < wordBound then some n.digits
  else none

/-- What the numeral stands for; nothing if it is beyond all doubles. -/
def number? (n : Numeral) : Option Number :=
  match n.whole? with
  | some k => some (.whole k)
  | none => (Binary64.ofDecimal? n.negative n.digits n.scale).map .real

end Numeral

end Marginalia.Json
