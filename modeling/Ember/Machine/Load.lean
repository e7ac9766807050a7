import Ember.Digest
import Ember.DisplayName
import Ember.Machine.Basic

/-!
# Loads

Loading a source text as a module is a transaction. The module is registered before its code runs,
so that the code can see it. When the code has run without error, is still registered and no error
is pending, the load is committed; otherwise it is rolled back: the name stands for what it stood
for before, operands that are left over are dropped, and the error is delivered, the first recorded
one if there are several. The active module and the number of loads are put back in both cases. A
load that is refused at once changes nothing.
-/

namespace Ember.Interpreter

variable {H : Type} [Host H]

/-- Why a load would be refused at once. -/
def refusal? (s : Interpreter H) (name : String) : Option Refusal :=
  if name.isEmpty then some .emptyName
  else if s.config.maxLoadDepth ≤ s.loadDepth then some (.tooDeep name)
  else none

/-- The fields that a module has before its code runs. -/
def metadata (source name : String) : List (String × Value) :=
  [("__name__", .text name), ("__file__", .text (displayName name)),
   ("__hash__", .text (Digest.ofText source))]

/-- Makes and registers the module, and enters the load. -/
def beginLoad (s : Interpreter H) (source name : String) (origin : Origin) :
    Load × Interpreter H :=
  let s := s.trace (.loading name)
  let enclosing := s.active
  let (m, s) := s.newModule
  let s := s.setFields m (metadata source name)
  let load : Load := ⟨name, m, s.registry.get? name, enclosing, s.stack.length, origin⟩
  (load, { s.register name m with loadDepth := s.loadDepth + 1, active := some m })

/-- Goes back to the enclosing load. -/
def leaveLoad (s : Interpreter H) (l : Load) : Interpreter H :=
  { s with loadDepth := s.loadDepth - 1, active := l.enclosing }

def commit (s : Interpreter H) (l : Load) : Except LoadError ModuleId × Interpreter H :=
  (.ok l.module, s.trace (.committed l.name))

def rollBack (s : Interpreter H) (l : Load) (cause : Option LoadError) :
    Except LoadError ModuleId × Interpreter H :=
  let s := match cause with
    | some e => s.record e
    | none => s
  let e := s.pending.getD (.refused (.notProduced l.name))
  let s := (s.restore l.name l.previous).reset l.base
  (.error e, s.trace (.rolledBack l.name e))

/-- Ends a load whose code has run with an outcome. -/
def endLoad (s : Interpreter H) (l : Load) (outcome : Except LoadError Unit) :
    Except LoadError ModuleId × Interpreter H :=
  let s := s.leaveLoad l
  match outcome with
  | .ok () =>
    if s.module? l.name = some l.module ∧ s.pending.isNone then s.commit l
    else s.rollBack l none
  | .error e => s.rollBack l (some e)

end Ember.Interpreter

namespace Ember.Machine

variable {H : Type} [Host H]

/-- Hands the outcome of a load to who asked for it. Code that imports a module fails with it, and
so do the loads of that code. -/
def deliver (s : Interpreter H) (origin : Origin) (name : String)
    (r : Except LoadError ModuleId) : List Activation → Progress H
  | [] => .done s (.loaded r)
  | a :: below =>
    match origin, r with
    | .use, .ok m => .running ⟨s.push (.module m), a, below⟩
    | .use, .error cause =>
      let e := a.exception (.importFailed name cause)
      match a.load with
      | none => .done s (.ran (.error e))
      | some l =>
        let (r, s) := s.endLoad l (.error e)
        deliver s l.origin l.name r below
    | _, .ok _ => .running ⟨s.push (.bool true), a, below⟩
    | _, .error e => .running ⟨{ s with lastError := some e }.push (.bool false), a, below⟩

/-- Ends an activation whose code has run with an outcome. -/
def finish (s : Interpreter H) (a : Activation) (below : List Activation)
    (outcome : Except LoadError Unit) : Progress H :=
  match a.load with
  | none => .done s (.ran outcome)
  | some l =>
    let (r, s) := s.endLoad l outcome
    deliver s l.origin l.name r below

/-- Starts a load on top of the activations in progress. -/
def load (s : Interpreter H) (source name : String) (origin : Origin)
    (below : List Activation) : Progress H :=
  match s.refusal? name with
  | some r => deliver s origin name (.error (.refused r)) below
  | none =>
    let (l, s) := s.beginLoad source name origin
    match Code.compile source (displayName name) with
    | .error e =>
      let (r, s) := s.endLoad l (.error (.compile e))
      deliver s origin name r below
    | .ok code =>
      .running ⟨s, Activation.start (displayName name) code l.module (some l), below⟩

end Ember.Machine
