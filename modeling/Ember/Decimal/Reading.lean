import Ember.Decimal.Binary

/-!
# Reading decimals

`readPlain` reads digits with one point inside, the form a program text has. `readFloat` reads
every text that `showFloat` writes: an optional sign, digits with an optional fraction and an
optional exponent, or the words for what is not finite. Both round to the nearest double.
-/

namespace Ember.Decimal

/-- The number that a list of decimal digits stands for. -/
def natOfDigits (cs : List Char) : Nat :=
  cs.foldl (fun n c => 10 * n + (c.toNat - '0'.toNat)) 0

/-- Splits off the leading decimal digits. -/
def spanDigits (cs : List Char) : List Char × List Char :=
  (cs.takeWhile Char.isDigit, cs.dropWhile Char.isDigit)

/-- `digits . digits`, exactly one point, digits on both sides. -/
def readPlain (cs : List Char) : Option Float :=
  let (whole, rest) := spanDigits cs
  match rest with
  | '.' :: tail =>
    let (fraction, rest) := spanDigits tail
    if whole.isEmpty || fraction.isEmpty || !rest.isEmpty then none
    else some (ofDecimal false (natOfDigits (whole ++ fraction)) (-(fraction.length : Int)))
  | _ => none

/-- An optional sign before something. -/
def readSign : List Char → Bool × List Char
  | '-' :: cs => (true, cs)
  | '+' :: cs => (false, cs)
  | cs => (false, cs)

/-- The part from the exponent mark on; nothing stands for exponent zero. -/
def readExponent : List Char → Option Int
  | [] => some 0
  | c :: cs =>
    if c = 'e' || c = 'E' then
      let (negative, cs) := readSign cs
      if cs.isEmpty || !cs.all Char.isDigit then none
      else some (if negative then -(natOfDigits cs : Int) else natOfDigits cs)
    else none

def readFloat (text : String) : Option Float :=
  let (negative, cs) := readSign text.toList
  if cs = "inf".toList then some (ofBitPattern negative infiniteBits)
  else if cs = "NaN".toList then some (0.0 / 0.0)
  else
    let (whole, rest) := spanDigits cs
    let (fraction, rest) := match rest with
      | '.' :: tail => spanDigits tail
      | _ => ([], rest)
    if whole.isEmpty && fraction.isEmpty then none
    else (readExponent rest).map fun e =>
      ofDecimal negative (natOfDigits (whole ++ fraction)) (e - fraction.length)

end Ember.Decimal
