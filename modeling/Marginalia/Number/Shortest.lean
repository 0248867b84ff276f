import Marginalia.Number.Binary64

/-!
# Number — the shortest decimal of a double

Every double is the nearest one to a whole interval of numbers, and any decimal in that interval
reads back as the double. `shortest` finds one with the fewest digits: on the grid of decimals with
one digit, then two, and so on, it tries the two neighbours of the exact value, and of two that
read back it takes the nearer. Should both be equally near, the caller's `Tie` decides.

All arithmetic is on natural numbers: lengths are counted in units of `2 ^ (-1076)`, a quarter of
the least gap between doubles.
-/

namespace Marginalia.Number

/-- Which of two decimals equally near to a number is written. -/
inductive Tie where
  | toEven
  | up
deriving DecidableEq, Repr

/-- A positive decimal `digits · 10 ^ scale`. -/
structure Decimal where
  digits : Nat
  scale : Int
deriving DecidableEq, Repr

/-- The interval of numbers that round to one double, in units of `2 ^ (-1076)`: the number itself,
its two ends, and whether the ends belong to it. -/
structure Neighbourhood where
  centre : Nat
  low : Nat
  high : Nat
  closed : Bool
deriving Repr

namespace Neighbourhood

/-- The numbers that round to the double of this rank. Below a power of two the gap is half as
wide; an even mantissa wins the ends. -/
def ofRank (rank : Nat) : Neighbourhood :=
  let m := Binary64.mantissa rank
  let unit := twoTo (Binary64.lift rank)
  let below := if m = Binary64.binade ∧ 2 * Binary64.binade ≤ rank then 1 else 2
  { centre := 4 * m * unit
    low := (4 * m - below) * unit
    high := (4 * m + 2) * unit
    closed := m % 2 == 0 }

/-- `c · step` lies in the interval stretched by `factor`. -/
def holds (n : Neighbourhood) (factor step c : Nat) : Bool :=
  if n.closed then n.low * factor ≤ c * step && c * step ≤ n.high * factor
  else n.low * factor < c * step && c * step < n.high * factor

/-- The better of the two decimals `c · 10 ^ scale` next to the centre, among those inside. -/
def onGrid (n : Neighbourhood) (tie : Tie) (scale : Int) : Option Decimal :=
  let factor := tenTo (-scale).toNat
  let step := tenTo scale.toNat * twoTo 1076
  let c := n.centre * factor / step
  let below := n.centre * factor - c * step
  let above := (c + 1) * step - n.centre * factor
  let takeUpper :=
    if below < above then false
    else if above < below then true
    else match tie with
      | .up => true
      | .toEven => c % 2 == 1
  match n.holds factor step c, n.holds factor step (c + 1) with
  | true, true => some ⟨if takeUpper then c + 1 else c, scale⟩
  | true, false => some ⟨c, scale⟩
  | false, true => some ⟨c + 1, scale⟩
  | false, false => none

/-- The first hit on the grids of `count`, `count + 1`, … digits, `more` grids in all. -/
def search (n : Neighbourhood) (tie : Tie) (exponent : Int) : Nat → Nat → Option Decimal
  | 0, _ => none
  | more + 1, count =>
    match n.onGrid tie (exponent - count + 1) with
    | some d => some d
    | none => search n tie exponent more (count + 1)

end Neighbourhood

/-- The power of ten of the first digit of `units · 2 ^ (-1076)`. -/
def leadingPower (units : Nat) : Int :=
  ((Nat.toDigits 10 (units * tenTo 340 / twoTo 1076)).length : Int) - 341

/-- A shortest decimal that reads back as the double of this rank; seventeen digits always
suffice. -/
def shortest (tie : Tie) (rank : Nat) : Decimal :=
  let n := Neighbourhood.ofRank rank
  (n.search tie (leadingPower n.centre) 17 1).getD ⟨0, 0⟩

end Marginalia.Number
