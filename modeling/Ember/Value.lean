import Ember.Native

/-!
# Values

Values are flat: functions and modules are named by where they stand in the heap, so that two of
them are the same exactly if they are one object.
-/

namespace Ember

structure FunctionId where
  index : Nat
deriving DecidableEq, Repr

structure ModuleId where
  index : Nat
deriving DecidableEq, Repr

inductive Value where
  | nil
  | bool (value : Bool)
  | integer (value : Int64)
  | float (value : Float)
  | text (value : String)
  | function (id : FunctionId)
  | native (function : Native)
  | module (id : ModuleId)

instance : Inhabited Value := ⟨.nil⟩

namespace Value

def typeName : Value → String
  | nil => "nil"
  | bool _ => "bool"
  | integer _ => "int"
  | float _ => "float"
  | text _ => "str"
  | function _ => "function"
  | native _ => "native"
  | module _ => "module"

/-- Does the value count as true in a condition? -/
def truthy : Value → Bool
  | nil => false
  | bool b => b
  | integer n => n ≠ 0
  | float x => !(x == 0.0)
  | text s => !s.isEmpty
  | function _ | native _ | module _ => true

/-- The text of a string. -/
def text? : Value → Option String
  | text s => some s
  | _ => none

/-- Equality as the language has it: an integer equals the double nearest to it. -/
def same : Value → Value → Bool
  | nil, nil => true
  | bool a, bool b => a = b
  | integer a, integer b => a = b
  | float a, float b => a == b
  | integer a, float b | float b, integer a => a.toFloat == b
  | text a, text b => a = b
  | function a, function b => a = b
  | native a, native b => a = b
  | module a, module b => a = b
  | _, _ => false

/-- The module that the value refers to. -/
def module? : Value → Option ModuleId
  | module m => some m
  | _ => none

end Value

end Ember
