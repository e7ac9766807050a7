import Ember.Machine.Step

/-!
# Questions to the surroundings

What the next step of a machine is going to ask the surroundings. A program that runs in a real
environment answers the question before the step, by putting the answer into the surroundings.
-/

namespace Ember.Machine

variable {H : Type}

inductive Question where
  | file (path : String)
  | environment (names : List String)
  | time
deriving DecidableEq, Repr

/-- What a native function is going to ask. -/
def questionOf (f : Native) (args : List Value) : Option Question :=
  match f, args with
  | .readFile, [.text path] | .fileExists, [.text path] => some (.file path)
  | .environmentVariable, [.text name] => some (.environment [name])
  | .locale, _ => some (.environment ["LC_ALL", "LC_CTYPE", "LANG"])
  | .time, _ | .timer, _ | .timeNanos, _ | .formatTime, _ => some .time
  | _, _ => none

/-- What the next step is going to ask. -/
def question? (m : Machine H) : Option Question :=
  match m.top.code[m.top.ip]? with
  | some (.call n, _) =>
    match m.state.stack.drop n with
    | .native f :: _ => questionOf f (m.state.stack.take n).reverse
    | _ => none
  | _ => none

end Ember.Machine
