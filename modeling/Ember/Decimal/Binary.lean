/-!
# Doubles as exact numbers

A double is a sign and a magnitude; a finite magnitude is `mantissa · 2 ^ exponent`. `decode`
reads a double so, and `ofRatio` goes back: the double nearest to a quotient of naturals, a tie
going to the even mantissa. The remainder of two doubles is computed on the exact values, where
it is always a double again.
-/

namespace Ember.Decimal

inductive Magnitude where
  | finite (mantissa : Nat) (exponent : Int)
  | infinite
  | notANumber
deriving DecidableEq, Repr

structure Binary where
  negative : Bool
  magnitude : Magnitude
deriving DecidableEq, Repr

/-- The power of two with exponent `k`. -/
def pow2 (k : Nat) : Nat := Nat.pow 2 k

/-- The power of ten with exponent `k`. -/
def pow10 (k : Nat) : Nat := Nat.pow 10 k

/-- The leading bit of a mantissa, which a bit pattern leaves out. -/
def hiddenBit : Nat := pow2 52

/-- The exponent of the smallest double. -/
def leastExponent : Int := -1074

def decode (x : Float) : Binary :=
  let bits : Nat := x.toBits.toNat
  let fraction : Nat := bits % hiddenBit
  let field : Nat := bits / hiddenBit % 2048
  let magnitude : Magnitude :=
    if field = 2047 then if fraction = 0 then .infinite else .notANumber
    else if field = 0 then .finite fraction leastExponent
    else .finite (fraction + hiddenBit) (leastExponent + (field - 1 : Nat))
  ⟨decide (pow2 63 ≤ bits), magnitude⟩

def ofBitPattern (negative : Bool) (bits : Nat) : Float :=
  Float.ofBits (if negative then bits + pow2 63 else bits).toUInt64

/-- The bit pattern of an infinity, the least that is no finite magnitude. -/
def infiniteBits : Nat := 2047 * hiddenBit

/-- `n / d` rounded to the nearest integer, a tie to the even one. -/
def divideToEven (n d : Nat) : Nat :=
  let q := n / d
  let r := n % d
  if 2 * r < d || (2 * r == d && q % 2 == 0) then q else q + 1

/-- `n · 2 ^ e` and `d` scaled so that both are naturals. -/
def scaleByPower (n d : Nat) (e : Int) : Nat × Nat :=
  if e < 0 then (n, d * pow2 (-e).toNat) else (n * pow2 e.toNat, d)

/-- The exponent at which `n / d` has 53 binary digits, or the least one. -/
def exponentOf (n d : Nat) : Int :=
  let guess : Int := (n.log2 : Int) - d.log2 - 52
  let (n', d') := scaleByPower n d (-guess)
  max leastExponent (if n' / d' < hiddenBit then guess - 1 else guess)

/-- The double nearest to `± n / d`. -/
def ofRatio (negative : Bool) (n d : Nat) : Float :=
  if n = 0 then ofBitPattern negative 0
  else
    let e := exponentOf n d
    let (n', d') := scaleByPower n d (-e)
    let bits := (e - leastExponent).toNat * hiddenBit + divideToEven n' d'
    ofBitPattern negative (min bits infiniteBits)

/-- The double nearest to `± m · 10 ^ e`. Far outside the range of doubles the power is not
formed: the answer is zero or infinite whatever the digits. -/
def ofDecimal (negative : Bool) (m : Nat) (e : Int) : Float :=
  let digits : Int := (m.log2 : Int) / 3 + 2
  if m = 0 || e + digits < -400 then ofBitPattern negative 0
  else if e > 400 then ofBitPattern negative infiniteBits
  else if e < 0 then ofRatio negative m (pow10 (-e).toNat)
  else ofRatio negative (m * pow10 e.toNat) 1

/-- The double `± m · 2 ^ e`, rounded if it is none. -/
def ofDyadic (negative : Bool) (m : Nat) (e : Int) : Float :=
  let (n, d) := scaleByPower m 1 e
  ofRatio negative n d

/-- The remainder of `x` by `y` with the sign of `x`: what is left of `|x|` after taking away as
many whole `|y|` as fit. -/
def remainder (x y : Float) : Float :=
  match decode x, decode y with
  | ⟨s, .finite m e⟩, ⟨_, .finite n f⟩ =>
    if n = 0 then 0.0 / 0.0
    else
      let g := min e f
      ofDyadic s ((m * pow2 (e - g).toNat) % (n * pow2 (f - g).toNat)) g
  | ⟨_, .finite _ _⟩, ⟨_, .infinite⟩ => x
  | _, _ => 0.0 / 0.0

end Ember.Decimal
