import Ember.Code.Listing
import Ember.Library.Arguments
import Ember.Library.Bundled
import Ember.Library.Calendar
import Ember.Text.Columns

/-!
# What native functions do

Most native functions are a function of their arguments and of the state, which they leave alone.
`print` writes, the random functions move the random state on, and `exec_module` asks for a load,
which only the machine can carry out: an `Outcome` is a value, an error, or such a request.
-/

namespace Ember

/-- How a native function ends. -/
inductive Outcome (H : Type) where
  | value (s : Interpreter H) (v : Value)
  | error (s : Interpreter H) (e : RuntimeError)
  /-- A load of a source text as a module; the value is whether it succeeds. -/
  | load (s : Interpreter H) (source name : String)

namespace Library

/-! ## Texts, types and order -/

def str (h : Heap) (args : List Value) : Except RuntimeError Value := do
  let v ← oneArgument "str" args
  return .text (v.display h)

/-- The number of characters of a text, or of fields of a module. -/
def len (h : Heap) (args : List Value) : Except RuntimeError Value := do
  match ← oneArgument "len" args with
  | .text s => return .integer (Int64.ofNat s.length)
  | .module m => return .integer (Int64.ofNat (h.fields m).size)
  | v => .error (.typeMismatch .textOrModule v)

def type (args : List Value) : Except RuntimeError Value := do
  let v ← oneArgument "type" args
  return .text v.typeName

def isLess (args : List Value) : Except RuntimeError Value := do
  let (a, b) ← twoArguments "lt" args
  Value.orderTest (· == .lt) a b

def hasModule (registry : Table ModuleId) (args : List Value) : Except RuntimeError Value := do
  let v ← oneArgument "has_module" args
  let name ← textOf v
  return .bool (registry.contains name)

/-- The source text and the name of a load. -/
def loadRequest (args : List Value) : Except RuntimeError (String × String) := do
  let (a, b) ← twoArguments "exec_module" args
  let source ← textOf a
  let name ← textOf b
  return (source, name)

def disassemble (h : Heap) (args : List Value) : Except RuntimeError Value := do
  let v ← oneArgument "dis" args
  let source ← textOf v
  match Code.compile source "<dis>" with
  | .ok c => return .text (Code.listing h "<dis>" c)
  | .error e => .error (.misuse (.disassembly e))

/-! ## The outside world -/

def readFile (w : Surroundings) (args : List Value) : Except RuntimeError Value := do
  let v ← oneArgument "read" args
  let path ← textOf v
  match (w.find path).text with
  | .ok s => return .text s
  | .error e => .error (.misuse (.file path e))

def fileExists (w : Surroundings) (args : List Value) : Except RuntimeError Value := do
  let v ← oneArgument "exists" args
  let path ← textOf v
  return .bool (w.find path).exists?

def collect (args : List Value) : Except RuntimeError Value := do
  noArguments "collect" args
  return .integer 0

def collectorEnabled (args : List Value) : Except RuntimeError Value := do
  noArguments "isenabled" args
  return .bool true

/-- The first of the locale's variables that is set to something. -/
def locale (w : Surroundings) (args : List Value) : Except RuntimeError Value := do
  noArguments "getlocale" args
  let set := ["LC_ALL", "LC_CTYPE", "LANG"].filterMap w.environment
  return .text ((set.find? (¬ ·.isEmpty)).getD "C")

/-- No variable has an empty name or one with an equals sign or a zero character. -/
def environmentVariable (w : Surroundings) (args : List Value) : Except RuntimeError Value := do
  let v ← oneArgument "getenv" args
  let name ← textOf v
  if name.isEmpty || name.contains '=' || name.contains '\x00' then return .nil
  match w.environment name with
  | some s => return .text s
  | none => return .nil

def directory (w : Surroundings) (args : List Value) : Except RuntimeError Value := do
  noArguments "getcwd" args
  return .text w.directory

/-- Seconds, with whole microseconds. -/
def time (w : Surroundings) (args : List Value) : Except RuntimeError Value := do
  noArguments "time" args
  return .float ((Float.ofNat (w.now / 1000)) / 1000000.0)

def timeNanos (w : Surroundings) (args : List Value) : Except RuntimeError Value := do
  noArguments "time_ns" args
  Value.exact w.now

def formatTime (w : Surroundings) (args : List Value) : Except RuntimeError Value := do
  let v ← oneArgument "strftime" args
  let format ← textOf v
  match (Moment.ofNanoseconds w.now).format format with
  | some s => return .text s
  | none => .error (.misuse (.timeFormat format))

/-! ## Numbers -/

def floatFunction (name : String) (f : Float → Float) (args : List Value) :
    Except RuntimeError Value := do
  let v ← oneArgument name args
  let x ← v.number
  return .float (f x)

def sqrt (args : List Value) : Except RuntimeError Value := do
  let v ← oneArgument "sqrt" args
  let x ← v.number
  if x < 0.0 then .error (.misuse .negativeRoot) else return .float x.sqrt

def pow (args : List Value) : Except RuntimeError Value := do
  let (a, b) ← twoArguments "pow" args
  let x ← a.number
  let y ← b.number
  return .float (x.pow y)

/-- A double made whole, cut to 64 bits. -/
def wholeFunction (name : String) (f : Float → Float) (args : List Value) :
    Except RuntimeError Value := do
  let v ← oneArgument name args
  let x ← v.number
  return .integer (f x).toInt64

/-- Does the mode of a file say that it is of a kind? -/
def modeTest (name : String) (kind : Int64) (args : List Value) : Except RuntimeError Value := do
  let v ← oneArgument name args
  let mode ← integerOf v
  return .bool (mode &&& fileKind == kind)

/-- One step of the random state, and the number that it gives. -/
def nextRandom (seed : UInt64) : UInt64 × UInt64 :=
  let seed := seed + 0x9e3779b97f4a7c15
  let x := (seed ^^^ (seed >>> 30)) * 0xbf58476d1ce4e5b9
  let x := (x ^^^ (x >>> 27)) * 0x94d049bb133111eb
  (x ^^^ (x >>> 31), seed)

/-- A double from zero up to below one. -/
def unitFloat (x : UInt64) : Float := Float.ofNat (x.toNat / 2048) / 9007199254740992.0

/-- The bounds of a random integer. -/
def randomBounds (args : List Value) : Except RuntimeError (Int64 × Int64) := do
  let (a, b) ← twoArguments "randint" args
  let low ← integerOf a
  let high ← integerOf b
  if high < low then .error (.misuse (.emptyRange low high)) else return (low, high)

/-- A random number brought into a range that is not empty. -/
def intoRange (low high : Int64) (x : UInt64) : Int64 :=
  Int64.ofInt (low.toInt + (x.toNat : Int) % (high.toInt - low.toInt + 1))

/-! ## Columns -/

def width (args : List Value) : Except RuntimeError Value := do
  let v ← oneArgument "wcwidth" args
  let s ← textOf v
  match s.toList with
  | [c] => return .integer (Int64.ofInt (Text.columns c))
  | _ => .error (.misuse .notOneCharacter)

def textWidth (args : List Value) : Except RuntimeError Value := do
  let v ← oneArgument "wcswidth" args
  let s ← textOf v
  return .integer (Int64.ofInt (Text.columnsOf s))

variable {H : Type} [Host H]

/-! ## Output -/

/-- Writes values with blanks between them. -/
def printValues (s : Interpreter H) (out : Stream) : List Value → Interpreter H
  | [] => s
  | [v] => s.print out (v.display s.heap)
  | v :: vs => printValues ((s.print out (v.display s.heap)).printChar out 32) out vs

/-- Writes a line of values to the output stream. What becomes of it has no influence. -/
def print (s : Interpreter H) (args : List Value) : Interpreter H :=
  let out := Host.stdout s.host
  (printValues s out args).printChar out 10

end Library

/-! ## All of them -/

namespace Outcome

variable {H : Type}

/-- A result that leaves the state alone. -/
def ofResult (s : Interpreter H) : Except RuntimeError Value → Outcome H
  | .ok v => value s v
  | .error e => error s e

/-- A result made with the next random number, if the arguments are right. -/
def drawing {α : Type} (s : Interpreter H) (f : α → UInt64 → Value) :
    Except RuntimeError α → Outcome H
  | .ok a =>
    let (x, seed) := Library.nextRandom s.seed
    value { s with seed := seed } (f a x)
  | .error e => error s e

/-- A load, if the arguments are right. -/
def ofRequest (s : Interpreter H) : Except RuntimeError (String × String) → Outcome H
  | .ok (source, name) => load s source name
  | .error e => error s e

end Outcome

namespace Library

variable {H : Type} [Host H]

/-- Carries out a native function. -/
def apply (s : Interpreter H) (f : Native) (args : List Value) : Outcome H :=
  let w := s.surroundings
  match f with
  | .print => .value (print s args) .nil
  | .execModule => .ofRequest s (loadRequest args)
  | .random => .drawing s (fun _ x => .float (unitFloat x)) (noArguments "random" args)
  | .randomInteger => .drawing s (fun r x => .integer (intoRange r.1 r.2 x)) (randomBounds args)
  | .str => .ofResult s (str s.heap args)
  | .len => .ofResult s (len s.heap args)
  | .type => .ofResult s (type args)
  | .hasModule => .ofResult s (hasModule s.registry args)
  | .isLess => .ofResult s (isLess args)
  | .disassemble => .ofResult s (disassemble s.heap args)
  | .readFile => .ofResult s (readFile w args)
  | .fileExists => .ofResult s (fileExists w args)
  | .collect => .ofResult s (collect args)
  | .collectorEnabled => .ofResult s (collectorEnabled args)
  | .locale => .ofResult s (locale w args)
  | .sqrt => .ofResult s (sqrt args)
  | .pow => .ofResult s (pow args)
  | .floor => .ofResult s (wholeFunction "floor" Float.floor args)
  | .ceil => .ofResult s (wholeFunction "ceil" Float.ceil args)
  | .abs => .ofResult s (floatFunction "fabs" Float.abs args)
  | .sin => .ofResult s (floatFunction "sin" Float.sin args)
  | .cos => .ofResult s (floatFunction "cos" Float.cos args)
  | .environmentVariable => .ofResult s (environmentVariable w args)
  | .directory => .ofResult s (directory w args)
  | .isDirectory => .ofResult s (modeTest "S_ISDIR" directoryKind args)
  | .isRegular => .ofResult s (modeTest "S_ISREG" regularKind args)
  | .time | .timer => .ofResult s (time w args)
  | .timeNanos => .ofResult s (timeNanos w args)
  | .formatTime => .ofResult s (formatTime w args)
  | .width => .ofResult s (width args)
  | .textWidth => .ofResult s (textWidth args)

end Library

end Ember
