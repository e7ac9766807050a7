import Ember.Decimal.Binary

/-!
# The fewest digits that read back

For a positive double the reals that round to it form an interval around it, whose ends belong to
it when the mantissa is even. `shortest` looks at decimal grids from coarse to fine. On the first
grid with a point in the interval it takes the neighbour of the value that lies in the interval,
the nearer one if both do; a `Tie` says which of two equally near ones. Seventeen digits always
suffice.
-/

namespace Ember.Decimal

/-- Which of two equally near decimals is taken. -/
inductive Tie where
  | away
  | toEven
deriving DecidableEq, Repr

/-- `digits · 10 ^ exponent`, the digits without trailing zeros. -/
structure Digits where
  digits : Nat
  exponent : Int
deriving DecidableEq, Repr

/-- The reals that round to a double: its value and the ends, all as multiples of
`2 ^ (exponent - 2)`. -/
structure Interval where
  low : Nat
  value : Nat
  high : Nat
  exponent : Int
  closed : Bool

def interval (m : Nat) (e : Int) : Interval where
  low := if m = hiddenBit ∧ leastExponent < e then 4 * m - 1 else 4 * m - 2
  value := 4 * m
  high := 4 * m + 2
  exponent := e - 2
  closed := m % 2 = 0

/-- Compares `c · 10 ^ k` with `n · 2 ^ e`. -/
def compareScaled (c : Nat) (k : Int) (n : Nat) (e : Int) : Ordering :=
  let left := c * pow10 k.toNat * pow2 (-e).toNat
  let right := n * pow2 e.toNat * pow10 (-k).toNat
  compare left right

def Interval.contains (i : Interval) (c : Nat) (k : Int) : Bool :=
  let below := compareScaled c k i.low i.exponent
  let above := compareScaled c k i.high i.exponent
  (below == .gt || (i.closed && below == .eq)) && (above == .lt || (i.closed && above == .eq))

/-- The whole part of the value on the grid `10 ^ k`. -/
def Interval.floorOn (i : Interval) (k : Int) : Nat :=
  (i.value * pow2 i.exponent.toNat * pow10 (-k).toNat) / (pow2 (-i.exponent).toNat * pow10 k.toNat)

/-- The point of the grid `10 ^ k` chosen for the value, if the grid has one. -/
def Interval.pointOn? (i : Interval) (tie : Tie) (k : Int) : Option Nat :=
  let c := i.floorOn k
  match i.contains c k, i.contains (c + 1) k with
  | false, false => none
  | true, false => some c
  | false, true => some (c + 1)
  | true, true =>
    -- the midpoint of the two neighbours, against the value
    match compareScaled (2 * c + 1) k (2 * i.value) i.exponent with
    | .gt => some c
    | .lt => some (c + 1)
    | .eq => match tie with
      | .away => some (c + 1)
      | .toEven => some (if c % 2 = 0 then c else c + 1)

/-- Drops trailing zeros; `fuel` bounds their number. -/
def trimZeros : Nat → Nat → Int → Digits
  | 0, c, k => ⟨c, k⟩
  | fuel + 1, c, k => if c ≠ 0 ∧ c % 10 = 0 then trimZeros fuel (c / 10) (k + 1) else ⟨c, k⟩

/-- The number `p` with `10 ^ (p - 1) ≤ value < 10 ^ p`. The binary length gives it up to one. -/
def Interval.decimalLength (i : Interval) : Int :=
  let guess : Int := ((i.value.log2 : Int) + i.exponent) * 30103 / 100000 - 1
  let fits (p : Int) : Bool := compareScaled 1 p i.value i.exponent == .gt
  if fits guess then guess
  else if fits (guess + 1) then guess + 1
  else if fits (guess + 2) then guess + 2
  else guess + 3

/-- The digits of `m · 2 ^ e` for a positive double. -/
def shortest (tie : Tie) (m : Nat) (e : Int) : Digits :=
  let i := interval m e
  let p := i.decimalLength
  let grids := (List.range 17).map fun (n : Nat) => p - 1 - (n : Int)
  let found := grids.findSome? fun k => (i.pointOn? tie k).map fun c => (c, k)
  match found with
  | some (c, k) => trimZeros 20 c k
  | none => ⟨0, 0⟩

end Ember.Decimal
