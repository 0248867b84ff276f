/-!
# Number — bounds and powers

The bound of the whole numbers that fit a machine word, the sums and differences of such numbers,
and the powers that the arithmetic on doubles is done with.
-/

namespace Marginalia

/-- `2 ^ 64`, one more than the largest count or offset that a message can hold. -/
def wordBound : Nat := 18446744073709551616

/-- The sum of two machine words, if it is one. -/
def Word.add? (a b : Nat) : Option Nat := if a + b < wordBound then some (a + b) else none

/-- The difference of two machine words, if it is one. -/
def Word.sub? (a b : Nat) : Option Nat := if b ≤ a then some (a - b) else none

/-- The sum of two machine words, held at the largest of them. -/
def Word.addCapped (a b : Nat) : Nat := min (a + b) (wordBound - 1)

/-- Two to the power of `n`. -/
def twoTo (n : Nat) : Nat := Nat.pow 2 n

/-- Ten to the power of `n`. -/
def tenTo (n : Nat) : Nat := Nat.pow 10 n

end Marginalia
