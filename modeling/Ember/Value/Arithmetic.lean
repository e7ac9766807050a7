import Ember.Decimal.Binary
import Ember.Error

/-!
# Operators on values

Integers have 64 bits, and a result that does not fit is an error. Division is exact division cut
off towards zero, and the remainder goes with it. Where one operand is a double, both are taken as
doubles; dividing by zero is an error for these as well. Texts are joined by `+`, also with numbers
and booleans, and compared in the order of code points.
-/

namespace Ember.Value

/-- The number as a double. -/
def number : Value → Except RuntimeError Float
  | integer n => .ok n.toFloat
  | float x => .ok x
  | v => .error (.typeMismatch .number v)

/-- An exact integer as a value, if it fits. -/
def exact (n : Int) : Except RuntimeError Value :=
  if Int64.minValue.toInt ≤ n ∧ n ≤ Int64.maxValue.toInt then .ok (.integer (Int64.ofInt n)) else .error .overflow

/-- An operation on doubles. The left operand is looked at first. -/
def floatOp (op : Float → Float → Float) (a b : Value) : Except RuntimeError Value := do
  let x ← a.number
  let y ← b.number
  return .float (op x y)

/-- Joins a text with the text of a number or a boolean, or adds numbers. -/
def add (a b : Value) : Except RuntimeError Value :=
  match a, b with
  | integer x, integer y => exact (x.toInt + y.toInt)
  | text x, text y => .ok (text (x ++ y))
  | text x, b => match b.scalarText? with
    | some y => .ok (text (x ++ y))
    | none => floatOp (· + ·) a b
  | a, text y => match a.scalarText? with
    | some x => .ok (text (x ++ y))
    | none => floatOp (· + ·) a b
  | a, b => floatOp (· + ·) a b

def sub (a b : Value) : Except RuntimeError Value :=
  match a, b with
  | integer x, integer y => exact (x.toInt - y.toInt)
  | a, b => floatOp (· - ·) a b

def mul (a b : Value) : Except RuntimeError Value :=
  match a, b with
  | integer x, integer y => exact (x.toInt * y.toInt)
  | a, b => floatOp (· * ·) a b

/-- An operation on doubles whose right operand must not be zero; that one is looked at first. -/
def floatDivision (op : Float → Float → Float) (a b : Value) : Except RuntimeError Value := do
  let y ← b.number
  if y == 0.0 then .error .divisionByZero else floatOp op a b

def div (a b : Value) : Except RuntimeError Value :=
  match a, b with
  | integer x, integer y =>
    if y = 0 then .error .divisionByZero else exact (x.toInt.tdiv y.toInt)
  | a, b => floatDivision (· / ·) a b

/-- The remainder. There is none where the quotient does not fit. -/
def mod (a b : Value) : Except RuntimeError Value :=
  match a, b with
  | integer x, integer y =>
    if y = 0 then .error .divisionByZero
    else do
      let _ ← exact (x.toInt.tdiv y.toInt)
      exact (x.toInt.tmod y.toInt)
  | a, b => floatDivision Decimal.remainder a b

def neg : Value → Except RuntimeError Value
  | integer x => exact (-x.toInt)
  | float x => .ok (float (-x))
  | v => .error (.typeMismatch .number v)

/-- The order of two doubles; there is none with a NaN. -/
def compareFloats (x y : Float) : Except RuntimeError Ordering :=
  if x < y then .ok .lt
  else if x == y then .ok .eq
  else if y < x then .ok .gt
  else .error (.misuse .comparisonWithNaN)

def order (a b : Value) : Except RuntimeError Ordering :=
  match a, b with
  | integer x, integer y => .ok (compare x.toInt y.toInt)
  | text x, text y => .ok (compare x y)
  | a, b => do
    let x ← a.number
    let y ← b.number
    compareFloats x y

def orderTest (test : Ordering → Bool) (a b : Value) : Except RuntimeError Value :=
  (order a b).map fun o => bool (test o)

/-- The value of an operator on two values. -/
def operate (op : Source.Operator) (a b : Value) : Except RuntimeError Value :=
  match op with
  | .add => add a b
  | .sub => sub a b
  | .mul => mul a b
  | .div => div a b
  | .mod => mod a b
  | .eq => .ok (bool (same a b))
  | .ne => .ok (bool (!same a b))
  | .gt => orderTest (· == .gt) a b
  | .lt => orderTest (· == .lt) a b
  | .ge => orderTest (· != .lt) a b
  | .le => orderTest (· != .gt) a b

end Ember.Value
