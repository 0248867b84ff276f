import Marginalia.Number.Shortest

/-!
# Number — doubles as text

Two ways of writing a double share the shortest digits and differ in the rest. A message writes
numbers between `10 ^ (-5)` and `10 ^ 16` with a point and at least one digit after it, and all
others with a signed exponent; the not-finite ones are not numbers there and are written as strings
elsewhere. A view for people always writes all digits out and adds no point to a whole number.
-/

namespace Marginalia.Number

/-- What a way of writing decides beyond the digits. -/
structure Style where
  /-- Which of two equally near decimals is taken. -/
  tie : Tie
  /-- The powers of ten of the first digit that are written without exponent. -/
  positional : Int → Bool
  /-- What follows the digits of a whole number. -/
  afterWhole : List Char

/-- Messages: a point always, and an exponent for the very large and the very small. -/
def messageStyle : Style := ⟨.toEven, fun e => -5 ≤ e && e ≤ 15, ['.', '0']⟩

/-- Views: every digit written out, no point after a whole number. -/
def viewStyle : Style := ⟨.up, fun _ => true, []⟩

/-- The digits of a number without the zeros at its end. -/
def significant (digits : Nat) : List Char :=
  ((Nat.toDigits 10 digits).reverse.dropWhile (· == '0')).reverse

/-- Digits placed around the point, the first one standing for `10 ^ power`. -/
def placePoint (afterWhole digits : List Char) (power : Int) : List Char :=
  if power < 0 then
    '0' :: '.' :: (List.replicate (-power - 1).toNat '0' ++ digits)
  else
    let whole := power.toNat + 1
    if digits.length ≤ whole then
      digits ++ List.replicate (whole - digits.length) '0' ++ afterWhole
    else
      digits.take whole ++ '.' :: digits.drop whole

/-- One digit, a point before the others if there are any, and the signed power of ten. -/
def withExponent (digits : List Char) (power : Int) : List Char :=
  let sign := if power < 0 then '-' else '+'
  let fraction := match digits.drop 1 with
    | [] => []
    | rest => '.' :: rest
  digits.take 1 ++ fraction ++ 'e' :: sign :: Nat.toDigits 10 power.natAbs

/-- The magnitude of a rank as text. -/
def magnitudeText (style : Style) (rank : Nat) : List Char :=
  if rank = 0 then '0' :: style.afterWhole
  else
    let d := shortest style.tie rank
    let power := d.scale + (Nat.toDigits 10 d.digits).length - 1
    let digits := significant d.digits
    if style.positional power then placePoint style.afterWhole digits power
    else withExponent digits power

/-- A finite double as text. -/
def finiteText (style : Style) (negative : Bool) (rank : Nat) : List Char :=
  if negative then '-' :: magnitudeText style rank else magnitudeText style rank

/-- A double as people see it. -/
def viewText : Binary64 → String
  | .finite negative rank => String.ofList (finiteText viewStyle negative rank)
  | .infinite negative => if negative then "-inf" else "inf"
  | .nan => "NaN"

end Marginalia.Number
