/-!
# Number — counts as text

How a person writes a count or an offset: decimal digits, with at most a plus before them.
-/

namespace Marginalia.Number

/-- The digits of a count, without the plus. -/
def unsigned : List Char → List Char
  | '+' :: text => text
  | text => text

/-- The count below `bound` that a text is. -/
def readCount? (bound : Nat) (text : List Char) : Option Nat :=
  let digits := unsigned text
  if !digits.isEmpty && digits.all Char.isDigit then
    let n := Nat.ofDigitChars 10 digits 0
    if n < bound then some n else none
  else none

end Marginalia.Number
