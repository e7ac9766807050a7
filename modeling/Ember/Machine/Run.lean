import Ember.Machine.Step

/-!
# Runs

A run repeats steps until the machine is done. Programs need not end, so a run has a number of
steps that it may take, and no answer if these do not suffice; more steps never change an answer
(`run_add`). What a host can ask of an interpreter is a run: loading a source text, running a
chunk, calling a native function.
-/

namespace Ember

variable {H : Type} [Host H]

/-- Repeats steps at most so many times. -/
def Machine.run : Nat → Progress H → Option (Interpreter H × Answer)
  | _, .done s a => some (s, a)
  | 0, .running _ => none
  | fuel + 1, .running m => run fuel m.step

theorem Machine.run_add {fuel more : Nat} {p : Progress H} {r : Interpreter H × Answer}
    (h : run fuel p = some r) : run (fuel + more) p = some r := by
  induction fuel generalizing p with
  | zero =>
    cases p with
    | running => cases h
    | done => simpa [run] using h
  | succ n ih =>
    cases p with
    | running m =>
      rw [Nat.succ_add]
      exact ih h
    | done => simpa [run] using h

namespace Interpreter

/-- Loads a source text as a module. -/
def tryLoad (fuel : Nat) (s : Interpreter H) (source name : String) :
    Option (Interpreter H × Except LoadError ModuleId) :=
  match Machine.run fuel (Machine.load s source name .host []) with
  | some (s, .loaded r) => some (s, r)
  | _ => none

/-- The same with a truth value for the outcome; the error of a failure is kept. -/
def load (fuel : Nat) (s : Interpreter H) (source name : String) :
    Option (Interpreter H × Bool) :=
  (tryLoad fuel s source name).map fun
    | (s, .ok _) => (s, true)
    | (s, .error e) => ({ s with lastError := some e }, false)

/-- Runs a chunk on the fields of a module, outside of any load. -/
def runChunk (fuel : Nat) (s : Interpreter H) (code : Code.Chunk) (globals : ModuleId)
    (file : String) : Option (Interpreter H × Except LoadError Unit) :=
  match Machine.run fuel (.running ⟨s, Activation.start file code globals none, []⟩) with
  | some (s, .ran r) => some (s, r)
  | _ => none

/-- Calls a native function. -/
def callNative (fuel : Nat) (s : Interpreter H) (f : Native) (args : List Value) :
    Option (Interpreter H × Except RuntimeError Value) :=
  match Library.apply s f args with
  | .value s v => some (s, .ok v)
  | .error s e => some (s, .error e)
  | .load s source name => (load fuel s source name).map fun (s, b) => (s, .ok (.bool b))

end Interpreter

end Ember
