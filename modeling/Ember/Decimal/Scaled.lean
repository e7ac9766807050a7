import Ember.Decimal.Reading

/-!
# Numbers of documents

A document's number is read into a word of 64 bits and a power of ten. The digits from the first
on that does not fit into the word any more are not looked at: before the point each counts as a
factor of ten, behind it for nothing. The double is the word, rounded, then multiplied with the
power of ten or divided by it. As each step rounds, it need not be the double nearest to the text.
-/

namespace Ember.Decimal

/-- Takes digits onto a number as long as it stays below a bound: the number, and the digits from
the first on that would be too much. -/
def takeBelow (bound : Nat) : Nat → List Char → Nat × List Char
  | n, [] => (n, [])
  | n, c :: cs =>
    let next := 10 * n + (c.toNat - '0'.toNat)
    if next < bound then takeBelow bound next cs else (n, c :: cs)

/-- A word times a power of ten. -/
structure Scaled where
  word : Nat
  exponent : Int
deriving DecidableEq, Repr

/-- The double nearest to a power of ten. -/
def powerOfTen (k : Nat) : Float := ofDecimal false 1 k

/-- The exponent of the greatest power of ten that is finite as a double. -/
def greatestPower : Nat := 308

/-- `x / 10 ^ k` in steps by powers that are finite. -/
def shrink (x : Float) (k : Nat) : Float :=
  if k ≤ greatestPower then x / powerOfTen k
  else if x == 0.0 then x
  else shrink (x / powerOfTen greatestPower) (k - greatestPower)
termination_by k
decreasing_by unfold greatestPower at *; omega

namespace Scaled

/-- The number with the digits of `whole` before its point and those of `fraction` behind it. -/
def ofDigits (whole fraction : List Char) : Scaled :=
  let (word, beyond) := takeBelow UInt64.size 0 whole
  let (word, dropped) := takeBelow UInt64.size word fraction
  ⟨word, (beyond.length : Int) - (fraction.length - dropped.length : Nat)⟩

/-- The double, unless it would be infinite. -/
def toFloat? (s : Scaled) : Option Float :=
  let x := ofDecimal false s.word 0
  if s.exponent < 0 then some (shrink x (-s.exponent).toNat)
  else if s.word = 0 then some x
  else if (greatestPower : Int) < s.exponent then none
  else
    let product := x * powerOfTen s.exponent.toNat
    if product.isInf then none else some product

end Scaled

end Ember.Decimal
