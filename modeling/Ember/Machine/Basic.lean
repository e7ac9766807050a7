import Ember.Heap.Liveness
import Ember.Interpreter

/-!
# Machines

A machine is an interpreter at work: its state and the activations, the innermost of which runs.
An activation runs a chunk on the fields of a module, its globals; it has a frame for each call in
progress in it. Loading a module is an activation with a load, which holds what is needed to undo
it. A load that code starts suspends that code's activation, so that all loads in progress lie one
above the other, and one step of a machine (`Ember.Machine.Step`) is always a step of the topmost.
-/

namespace Ember

/-- A call in progress: the locals of the function, and where the caller goes on. -/
structure Frame where
  locals : Fields
  /-- The caller's next instruction. -/
  ip : Nat
  /-- The caller's code. -/
  code : Code.Chunk
  /-- The caller's globals. -/
  globals : ModuleId
  /-- The number of operands below the call. -/
  base : Nat

/-- Who asked for a load and gets its outcome. -/
inductive Origin where
  | host
  /-- A call of `exec_module`, which gives a truth value. -/
  | call
  /-- An `import`, which gives the module or fails. -/
  | use
deriving DecidableEq, Repr

/-- A load in progress. -/
structure Load where
  name : String
  module : ModuleId
  /-- What the name stood for before. -/
  previous : Option ModuleId
  /-- The module that was active before. -/
  enclosing : Option ModuleId
  /-- The number of operands before. -/
  base : Nat
  origin : Origin

structure Activation where
  /-- The name of the code's file, for errors. -/
  file : String
  code : Code.Chunk
  /-- The index of the next instruction. -/
  ip : Nat
  globals : ModuleId
  /-- The calls in progress, the innermost first. -/
  frames : List Frame
  load : Option Load

structure Machine (H : Type) where
  state : Interpreter H
  top : Activation
  below : List Activation

/-- How a run ends: with the outcome of a load, or with that of a chunk that no load belongs to. -/
inductive Answer where
  | loaded (r : Except LoadError ModuleId)
  | ran (r : Except LoadError Unit)

/-- A run after some steps. -/
inductive Progress (H : Type) where
  | running (m : Machine H)
  | done (s : Interpreter H) (a : Answer)

namespace Activation

/-- An activation at its first instruction. -/
def start (file : String) (code : Code.Chunk) (globals : ModuleId) (load : Option Load) :
    Activation := ⟨file, code, 0, globals, [], load⟩

/-- The line of the instruction that is being executed. -/
def line (a : Activation) : Nat := a.code.lineAt (a.ip - 1)

/-- An error of the instruction that is being executed. -/
def exception (a : Activation) (e : RuntimeError) : LoadError := .runtime e a.file a.line

/-! ## References -/

def valueNodes (vs : List Value) : List Node := vs.filterMap Value.node?

/-- The objects that a call in progress refers to. -/
def frameNodes (f : Frame) : List Node :=
  .module f.globals :: (valueNodes f.locals.values ++ f.code.nodes)

def loadNodes (l : Load) : List Node :=
  (l.module :: (l.previous.toList ++ l.enclosing.toList)).map .module

def nodes (a : Activation) : List Node :=
  .module a.globals :: (a.code.nodes ++ a.frames.flatMap frameNodes ++
    a.load.toList.flatMap loadNodes)

end Activation

namespace Interpreter

variable {H : Type}

def errorNodes (e : Option LoadError) : List Node :=
  e.toList.flatMap fun e => Activation.valueNodes e.values

/-- The objects that the state refers to. -/
def nodes (s : Interpreter H) : List Node :=
  (s.registry.values ++ s.active.toList).map .module ++ Activation.valueNodes s.stack ++
    errorNodes s.pending ++ errorNodes s.lastError

/-- Is a module alive while these activations are in progress and these values are at hand? Modules
that are registered or run are found without a look at the heap. -/
def alive (s : Interpreter H) (activations : List Activation) (values : List Value) (m : ModuleId) :
    Bool :=
  activations.any (·.globals = m) || s.registry.values.contains m ||
    s.heap.alive (s.nodes ++ activations.flatMap Activation.nodes ++ Activation.valueNodes values) m

end Interpreter

end Ember
