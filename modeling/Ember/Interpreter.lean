import Ember.Config
import Ember.Error
import Ember.Output.Stream

/-!
# Interpreters

The state that outlives a run: the heap, the registry of modules, the active module, the slot for a
pending error, the stack of operands, the number of loads in progress, the output host and the
settings. `H` is the type of the host; nothing here looks into it.
-/

namespace Ember

/-- Where the source of a module comes from that is imported and not registered. -/
abbrev Resolver := String → Option String

structure Interpreter (H : Type) where
  heap : Heap
  registry : Table ModuleId
  /-- The module of the innermost load in progress. -/
  active : Option ModuleId
  /-- The first error that was recorded and not yet delivered. -/
  pending : Option LoadError
  /-- The operands, the topmost first. -/
  stack : List Value
  loadDepth : Nat
  host : H
  config : Config
  resolver : Option Resolver
  /-- Why the last load failed that gave only a truth value. -/
  lastError : Option LoadError
  surroundings : Surroundings
  /-- The state of the random numbers. -/
  seed : UInt64

namespace Interpreter

variable {H : Type}

/-! ## Operands -/

def push (s : Interpreter H) (v : Value) : Interpreter H := { s with stack := v :: s.stack }

def pop (s : Interpreter H) : Except RuntimeError Value × Interpreter H :=
  match s.stack with
  | [] => (.error .stackUnderflow, s)
  | v :: rest => (.ok v, { s with stack := rest })

/-- The operand that has `distance` operands above it. -/
def peek (s : Interpreter H) (distance : Nat) : Except RuntimeError Value :=
  match s.stack[distance]? with
  | some v => .ok v
  | none => .error .stackUnderflow

/-- Takes off the topmost operands, the lowest of them first; all or none. -/
def popMany (s : Interpreter H) (count : Nat) : Except RuntimeError (List Value) × Interpreter H :=
  if s.stack.length < count then (.error .stackUnderflow, s)
  else (.ok (s.stack.take count).reverse, { s with stack := s.stack.drop count })

/-- Drops all operands above the lowest `height` ones. -/
def truncate (s : Interpreter H) (height : Nat) : Interpreter H :=
  { s with stack := s.stack.drop (s.stack.length - height) }

/-! ## Errors -/

/-- Records an error, unless one is recorded already. -/
def record (s : Interpreter H) (e : LoadError) : Interpreter H :=
  { s with pending := s.pending.or (some e) }

def takeError (s : Interpreter H) : Option LoadError × Interpreter H :=
  (s.pending, { s with pending := none })

/-- Drops operands, and the pending error with them. -/
def reset (s : Interpreter H) (height : Nat) : Interpreter H :=
  { s.truncate height with pending := none }

/-! ## Modules -/

def module? (s : Interpreter H) (name : String) : Option ModuleId := s.registry.get? name

/-- Registers a module, in the place of the one that had the name. -/
def register (s : Interpreter H) (name : String) (m : ModuleId) : Interpreter H :=
  { s with registry := s.registry.set name m }

/-- Puts a name back to what it stood for. -/
def restore (s : Interpreter H) (name : String) : Option ModuleId → Interpreter H
  | some m => s.register name m
  | none => { s with registry := s.registry.erase name }

def setField (s : Interpreter H) (m : ModuleId) (name : String) (v : Value) : Interpreter H :=
  { s with heap := s.heap.setField m name v }

def setFields (s : Interpreter H) (m : ModuleId) (fields : List (String × Value)) : Interpreter H :=
  fields.foldl (fun s f => s.setField m f.1 f.2) s

def newModule (s : Interpreter H) : ModuleId × Interpreter H :=
  let (m, heap) := s.heap.newModule
  (m, { s with heap := heap })

def newFunction (s : Interpreter H) (f : Function) : FunctionId × Interpreter H :=
  let (f, heap) := s.heap.newFunction f
  (f, { s with heap := heap })

/-! ## Output -/

variable [Host H]

def print (s : Interpreter H) (out : Stream) (text : String) : Interpreter H :=
  { s with host := Output.write s.host out text }

def printChar (s : Interpreter H) (out : Stream) (code : Int32) : Interpreter H :=
  { s with host := (Output.writeChar s.host out code).2 }

/-- Writes a failure to the error stream. -/
def report (s : Interpreter H) (e : LoadError) : Interpreter H :=
  let out := Host.stderr s.host
  let s := s.print out (e.report s.heap ++ "\n")
  { s with host := (Host.flush s.host out).2 }

/-- What tracing reports. -/
inductive Event where
  | registered (name : String)
  | loading (name : String)
  | committed (name : String)
  | rolledBack (name : String) (cause : LoadError)

def Event.message (h : Heap) : Event → String
  | registered name => s!"registered builtin {name}"
  | loading name => s!"loading {name}"
  | committed name => s!"committed {name}"
  | rolledBack name cause => s!"rolled back {name}: {cause.message h}"

/-- Writes an event to the error stream if tracing is on. -/
def trace (s : Interpreter H) (e : Event) : Interpreter H :=
  if s.config.traceLoads then s.print (Host.stderr s.host) s!"[ember] {e.message s.heap}\n" else s

/-- The interpreter as one line, without what has no order. -/
def summary (s : Interpreter H) : String :=
  let names := ", ".intercalate (s.registry.names.map Text.quote)
  let c := s.config
  let config := s!"bundle_builtins: {c.bundleBuiltins}, trace_loads: {c.traceLoads}, " ++
    s!"max_load_depth: {c.maxLoadDepth}, max_call_depth: {c.maxCallDepth}"
  s!"Interpreter \x7b modules: [{names}], config: RuntimeConfig \x7b {config} \x7d, " ++
    s!"load_depth: {s.loadDepth}, .. \x7d"

end Interpreter

end Ember
