import Marginalia.Number.Word

/-!
# Number — doubles

A `Binary64` is a double-precision number kept as what it means: a sign and a rank. The finite
magnitudes are counted from zero upwards, so the rank of a magnitude is its place in the order of
size; the number itself is `mantissa rank · 2 ^ (lift rank - 1074)`. `nearestRank` goes the other
way: it takes a positive fraction to the rank next to it, a fraction half way between two ranks
going to the even one.

There is one not-a-number, because no text tells two of them apart.
-/

namespace Marginalia

/-- `2 ^ 52`, the number of magnitudes from one power of two up to the next. -/
def Binary64.binade : Nat := 4503599627370496

/-- The rank that would follow the largest finite magnitude. -/
def Binary64.topRank : Nat := 2047 * binade

/-- A double: a signed finite magnitude, a signed infinity, or not a number. -/
inductive Binary64 where
  | finite (negative : Bool) (rank : Fin Binary64.topRank)
  | infinite (negative : Bool)
  | nan
deriving DecidableEq, Repr

namespace Binary64

instance : Inhabited Binary64 := ⟨nan⟩

/-- The whole number that a rank holds before scaling: 53 binary digits, fewer near zero. -/
def mantissa (rank : Nat) : Nat :=
  if rank < binade then rank else binade + rank % binade

/-- How far above `2 ^ (-1074)` the unit of a rank lies, as a power of two. -/
def lift (rank : Nat) : Nat := rank / binade - 1

/-- A positive or negative zero. -/
def zero (negative : Bool) : Binary64 := .finite negative ⟨0, by decide⟩

/-- The largest `e` with `2 ^ e ≤ num / den`, for positive `num` and `den`. -/
def floorLog2 (num den : Nat) : Int :=
  let e : Int := (Nat.log2 num : Int) - (Nat.log2 den : Int)
  if num * twoTo (-e).toNat ≥ den * twoTo e.toNat then e else e - 1

/-- The whole number nearest to `num / den`, the even one of two. -/
def roundHalfEven (num den : Nat) : Nat :=
  let whole := num / den
  let rest := 2 * (num % den)
  if rest < den then whole
  else if den < rest then whole + 1
  else if whole % 2 = 0 then whole else whole + 1

/-- The rank nearest to the positive fraction `num / den`, the even one of two; the rank is
`topRank` or more when the fraction is beyond all finite doubles. -/
def nearestRank (num den : Nat) : Nat :=
  let level := (floorLog2 num den - 52 + 1074).toNat
  level * binade + roundHalfEven (num * twoTo 1074) (den * twoTo level)

/-- The finite double nearest to `± num / den`, if it is not beyond all of them. -/
def nearest? (negative : Bool) (num den : Nat) : Option Binary64 :=
  if num = 0 then some (zero negative)
  else if h : nearestRank num den < topRank then some (.finite negative ⟨nearestRank num den, h⟩)
  else none

/-- Powers of ten past which every nonzero number of so many digits is beyond the doubles, and
below whose opposite it rounds to zero. -/
def scaleReach : Int := 400

/-- The double nearest to `± digits · 10 ^ scale`, if it is not beyond all finite ones. -/
def ofDecimal? (negative : Bool) (digits : Nat) (scale : Int) : Option Binary64 :=
  let size : Int := (Nat.toDigits 10 digits).length + scale
  if digits = 0 then some (zero negative)
  else if scaleReach < size then none
  else if size < -scaleReach then some (zero negative)
  else nearest? negative (digits * tenTo scale.toNat) (tenTo (-scale).toNat)

/-- Equality of numbers: the two zeros are equal, and not-a-number equals nothing. -/
def numericEq : Binary64 → Binary64 → Bool
  | .nan, _ => false
  | _, .nan => false
  | .infinite s, .infinite t => s == t
  | .finite s x, .finite t y => x == y && (s == t || x.val == 0)
  | _, _ => false

end Binary64

end Marginalia
