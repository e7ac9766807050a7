import Ember.Heap.Liveness
import Ember.Library.Functions

/-!
# Values of operators and native functions

Functions and modules are the values that refer to objects. No operator and no native function makes
one of these (`plain_operate`, `Library.plain_apply`): a program comes by them through its constants
and variables, through the fields of modules, and by making functions and importing.
-/

namespace Ember

variable {α : Type}

/-- The value of a result refers to no object. -/
def Plain (r : Except RuntimeError Value) : Prop := ∀ v, r = .ok v → v.node? = none

namespace Plain

theorem ok {v : Value} (hv : v.node? = none) : Plain (.ok v) := by
  intro w h
  cases h
  exact hv

theorem error (e : RuntimeError) : Plain (.error e) := by
  intro v h
  cases h

theorem bind {r : Except RuntimeError α} {f : α → Except RuntimeError Value}
    (hf : ∀ a, Plain (f a)) : Plain (r >>= f) := by
  cases r with
  | error e => exact .error e
  | ok a => exact hf a

theorem map {r : Except RuntimeError α} {f : α → Value} (hf : ∀ a, (f a).node? = none) :
    Plain (r.map f) := by
  cases r with
  | error e => exact .error e
  | ok a => exact .ok (hf a)

end Plain

/-! ## Operators -/

namespace Value

theorem plain_exact (n : Int) : Plain (exact n) := by
  unfold exact
  split
  · exact .ok rfl
  · exact .error _

theorem plain_floatOp (op : Float → Float → Float) (a b : Value) : Plain (floatOp op a b) :=
  .bind fun _ => .bind fun _ => .ok rfl

theorem plain_floatDivision (op : Float → Float → Float) (a b : Value) :
    Plain (floatDivision op a b) := by
  refine .bind fun y => ?_
  split
  · exact .error _
  · exact plain_floatOp op a b

theorem plain_add (a b : Value) : Plain (add a b) := by
  unfold add
  split
  · exact plain_exact _
  · exact .ok rfl
  · split
    · exact .ok rfl
    · exact plain_floatOp _ _ _
  · split
    · exact .ok rfl
    · exact plain_floatOp _ _ _
  · exact plain_floatOp _ _ _

theorem plain_div (a b : Value) : Plain (div a b) := by
  unfold div
  split
  · split
    · exact .error _
    · exact plain_exact _
  · exact plain_floatDivision _ _ _

theorem plain_mod (a b : Value) : Plain (mod a b) := by
  unfold mod
  split
  · split
    · exact .error _
    · exact .bind fun _ => plain_exact _
  · exact plain_floatDivision _ _ _

theorem plain_neg (v : Value) : Plain v.neg := by
  cases v with
  | integer n => exact plain_exact _
  | float x => exact .ok rfl
  | _ => exact .error _

theorem plain_orderTest (test : Ordering → Bool) (a b : Value) : Plain (orderTest test a b) :=
  .map fun _ => rfl

/-- **Operators make no references.** -/
theorem plain_operate (op : Source.Operator) (a b : Value) : Plain (operate op a b) := by
  cases op with
  | add => exact plain_add a b
  | sub =>
    simp only [operate, sub]
    split
    · exact plain_exact _
    · exact plain_floatOp _ _ _
  | mul =>
    simp only [operate, mul]
    split
    · exact plain_exact _
    · exact plain_floatOp _ _ _
  | div => exact plain_div a b
  | mod => exact plain_mod a b
  | eq | ne => exact .ok rfl
  | _ => exact plain_orderTest _ a b

end Value

/-! ## Native functions -/

namespace Library

section Functions

variable (h : Heap) (w : Surroundings) (args : List Value)

theorem plain_len : Plain (len h args) := by
  refine .bind fun v => ?_
  cases v with
  | text s => exact .ok rfl
  | module m => exact .ok rfl
  | _ => exact .error _

theorem plain_disassemble : Plain (disassemble h args) := by
  refine .bind fun v => .bind fun source => ?_
  cases Code.compile source "<dis>" with
  | ok c => exact .ok rfl
  | error e => exact .error _

theorem plain_readFile : Plain (readFile w args) := by
  refine .bind fun v => .bind fun path => ?_
  cases (w.find path).text with
  | ok s => exact .ok rfl
  | error e => exact .error _

theorem plain_environmentVariable : Plain (environmentVariable w args) := by
  refine .bind fun v => .bind fun name => ?_
  split
  · exact .ok rfl
  · cases w.environment name <;> exact .ok rfl

theorem plain_formatTime : Plain (formatTime w args) := by
  refine .bind fun v => .bind fun format => ?_
  cases (Moment.ofNanoseconds w.now).format format with
  | some s => exact .ok rfl
  | none => exact .error _

theorem plain_sqrt : Plain (sqrt args) := by
  refine .bind fun v => .bind fun x => ?_
  split
  · exact .error _
  · exact .ok rfl

theorem plain_width : Plain (width args) := by
  refine .bind fun v => .bind fun s => ?_
  split
  · exact .ok rfl
  · exact .error _

end Functions

end Library

namespace Outcome

variable {H : Type} (s : Interpreter H)

/-- The value of a native function refers to no object. -/
def Plain : Outcome H → Prop
  | value _ v => v.node? = none
  | error .. | load .. => True

theorem plain_ofResult {r : Except RuntimeError Value} (hr : Ember.Plain r) :
    (ofResult s r).Plain := by
  cases r with
  | error e => trivial
  | ok v => exact hr v rfl

theorem plain_drawing {f : α → UInt64 → Value} (r : Except RuntimeError α)
    (hf : ∀ a x, (f a x).node? = none) : (drawing s f r).Plain := by
  cases r with
  | error e => trivial
  | ok a => exact hf a _

theorem plain_ofRequest (r : Except RuntimeError (String × String)) : (ofRequest s r).Plain := by
  cases r <;> trivial

end Outcome

/-- **Native functions make no references.** -/
theorem Library.plain_apply {H : Type} [Host H] (s : Interpreter H) (f : Native)
    (args : List Value) : (apply s f args).Plain := by
  unfold apply
  cases f with
  | print => exact rfl
  | execModule => exact Outcome.plain_ofRequest s _
  | random => exact Outcome.plain_drawing s _ fun _ _ => rfl
  | randomInteger => exact Outcome.plain_drawing s _ fun _ _ => rfl
  | len => exact Outcome.plain_ofResult s (plain_len _ args)
  | isLess => exact Outcome.plain_ofResult s (.bind fun _ => Value.plain_orderTest _ _ _)
  | disassemble => exact Outcome.plain_ofResult s (plain_disassemble _ args)
  | readFile => exact Outcome.plain_ofResult s (plain_readFile _ args)
  | sqrt => exact Outcome.plain_ofResult s (plain_sqrt args)
  | environmentVariable => exact Outcome.plain_ofResult s (plain_environmentVariable _ args)
  | timeNanos => exact Outcome.plain_ofResult s (.bind fun _ => Value.plain_exact _)
  | formatTime => exact Outcome.plain_ofResult s (plain_formatTime _ args)
  | width => exact Outcome.plain_ofResult s (plain_width args)
  | str | type | collect | collectorEnabled | locale | directory | time | timer =>
    exact Outcome.plain_ofResult s (.bind fun _ => .ok rfl)
  | hasModule | fileExists | floor | ceil | abs | sin | cos | isDirectory | isRegular
  | textWidth =>
    exact Outcome.plain_ofResult s (.bind fun _ => .bind fun _ => .ok rfl)
  | pow => exact Outcome.plain_ofResult s (.bind fun _ => .bind fun _ => .bind fun _ => .ok rfl)

end Ember
