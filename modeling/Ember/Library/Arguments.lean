import Ember.Value.Arithmetic

/-!
# Arguments of native functions

A native function looks first at the number of its arguments and then at their types, from left to
right.
-/

namespace Ember.Library

def noArguments (function : String) : List Value → Except RuntimeError Unit
  | [] => .ok ()
  | args => .error (.arity function 0 args.length)

def oneArgument (function : String) : List Value → Except RuntimeError Value
  | [a] => .ok a
  | args => .error (.arity function 1 args.length)

def twoArguments (function : String) : List Value → Except RuntimeError (Value × Value)
  | [a, b] => .ok (a, b)
  | args => .error (.arity function 2 args.length)

def textOf : Value → Except RuntimeError String
  | .text s => .ok s
  | v => .error (.typeMismatch .text v)

def integerOf : Value → Except RuntimeError Int64
  | .integer n => .ok n
  | v => .error (.typeMismatch .integer v)

end Ember.Library
