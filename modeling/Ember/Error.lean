import Ember.Code.Generate
import Ember.Surroundings
import Ember.Value.Text

/-!
# Errors

Why code stops, and why a load fails. Both are causes; the wording is in the functions `message`,
which take the heap because a message can show a value. A load fails because its source does not
compile, because its code stopped, or because the load itself was refused.
-/

namespace Ember

/-- What a value has to be. -/
inductive Wanted where
  | number | integer | text | module | textOrModule
deriving DecidableEq, Repr

def Wanted.label : Wanted → String
  | number => "Number"
  | integer => "Integer"
  | text => "String"
  | module => "Module"
  | textOrModule => "String or Module"

/-- An operation that makes no sense on what it is given. -/
inductive Misuse where
  | returnOutsideFunction
  | moduleGone (function : String)
  | comparisonWithNaN
  | negativeRoot
  | emptyRange (low high : Int64)
  | notOneCharacter
  | timeFormat (format : String)
  | disassembly (cause : Code.CompileError)
  | file (path : String) (cause : FileFault)

def Misuse.message : Misuse → String
  | returnOutsideFunction => "return outside function"
  | moduleGone f => s!"module of function '{f}' no longer exists"
  | comparisonWithNaN => "Comparison with NaN"
  | negativeRoot => "Square root of negative number"
  | emptyRange low high => s!"empty range for randint({low.toInt}, {high.toInt})"
  | notOneCharacter => "wcwidth() expects a single character"
  | timeFormat s => s!"Invalid time format: {s}"
  | disassembly e => e.message
  | file path e => s!"{path}: {e.message}"

/-- Why a load fails although no code is to blame. -/
inductive Refusal where
  | emptyName
  | tooDeep (name : String)
  /-- The module is no longer registered when its code has run. -/
  | notProduced (name : String)
  /-- The host's own reason. -/
  | host (reason : String)

def Refusal.message : Refusal → String
  | emptyName => "Module name must not be empty"
  | tooDeep name => s!"Maximum module load depth exceeded while loading '{name}'"
  | notProduced name => s!"Failed to load module '{name}'"
  | host reason => reason

mutual

/-- Why code stops. -/
inductive RuntimeError where
  | typeMismatch (wanted : Wanted) (value : Value)
  | undefinedName (name : String)
  | divisionByZero
  | overflow
  | arity (function : String) (expected got : Nat)
  | notCallable (value : Value)
  | missingAttribute (owner name : String)
  | raised (value : Value)
  | moduleNotFound (name : String)
  | selfImport (name : String)
  | importFailed (name : String) (cause : LoadError)
  | callDepth
  | stackUnderflow
  | misuse (m : Misuse)

/-- Why a load fails. -/
inductive LoadError where
  | compile (cause : Code.CompileError)
  /-- The code stopped at a line of a file. -/
  | runtime (cause : RuntimeError) (file : String) (line : Nat)
  | refused (cause : Refusal)

end

instance : Inhabited RuntimeError := ⟨.overflow⟩

mutual

def RuntimeError.message (h : Heap) : RuntimeError → String
  | .typeMismatch w v => s!"Type mismatch: expected {w.label}, got {v.shown h}"
  | .undefinedName name => s!"Name '{name}' is not defined"
  | .divisionByZero => "Division by zero"
  | .overflow => "Integer overflow"
  | .arity f expected got => s!"{f}() takes {expected} arguments, got {got}"
  | .notCallable v => s!"Value is not callable: {v.shown h}"
  | .missingAttribute owner name => s!"'{owner}' has no attribute '{name}'"
  | .raised v => v.display h
  | .moduleNotFound name => s!"No module named '{name}'"
  | .selfImport name => s!"Module '{name}' cannot import itself"
  | .importFailed name cause => s!"Import of '{name}' failed: {cause.message h}"
  | .callDepth => "Maximum call depth exceeded"
  | .stackUnderflow => "Stack underflow"
  | .misuse m => s!"Invalid operation: {m.message}"

def LoadError.message (h : Heap) : LoadError → String
  | .compile e => e.message
  | .runtime e file line => s!"{e.message h} (at {file}:{line})"
  | .refused r => r.message

end

namespace LoadError

/-- The kind of failure, as reports name it. -/
def kind : LoadError → String
  | .compile _ => "CompileError"
  | .runtime .. => "RuntimeException"
  | .refused _ => "ImportError"

/-- The kind and the message. -/
def report (h : Heap) (e : LoadError) : String := s!"{e.kind}: {e.message h}"

end LoadError

mutual

/-- The values that an error holds. -/
def RuntimeError.values : RuntimeError → List Value
  | .typeMismatch _ v | .notCallable v | .raised v => [v]
  | .importFailed _ cause => cause.values
  | _ => []

def LoadError.values : LoadError → List Value
  | .runtime e _ _ => e.values
  | .compile _ | .refused _ => []

end

end Ember
