import Ember.Library.Functions
import Mathlib.Tactic.SplitIfs

/-!
# Errors of operators and native functions

Two errors are the machine's own: an operand that is missing, and a `return` outside of functions.
No operator and no native function fails with one of these (`sane_operate`, `Library.sane_apply`).
-/

namespace Ember

/-- The errors that only the machine itself raises. -/
def RuntimeError.Internal : RuntimeError → Prop
  | .stackUnderflow | .misuse .returnOutsideFunction => True
  | _ => False

variable {α β : Type}

/-- A failure is not one of the machine's own. -/
def Sane (r : Except RuntimeError α) : Prop := ∀ e, r = .error e → ¬ e.Internal

namespace Sane

theorem ok (a : α) : Sane (.ok a : Except RuntimeError α) := by
  intro e h
  cases h

theorem error {e : RuntimeError} (he : ¬ e.Internal) : Sane (.error e : Except RuntimeError α) := by
  intro e' h
  cases h
  exact he

theorem bind {r : Except RuntimeError α} {f : α → Except RuntimeError β} (hr : Sane r)
    (hf : ∀ a, Sane (f a)) : Sane (r >>= f) := by
  cases r with
  | error e => exact .error (hr e rfl)
  | ok a => exact hf a

theorem map {r : Except RuntimeError α} (f : α → β) (hr : Sane r) : Sane (r.map f) := by
  cases r with
  | error e => exact .error (hr e rfl)
  | ok a => exact .ok _

end Sane

/-! ## Operators -/

namespace Value

theorem sane_number (v : Value) : Sane v.number := by
  cases v with
  | integer n => exact .ok _
  | float x => exact .ok _
  | _ => exact .error id

theorem sane_exact (n : Int) : Sane (exact n) := by
  unfold exact
  split
  · exact .ok _
  · exact .error id

theorem sane_floatOp (op : Float → Float → Float) (a b : Value) : Sane (floatOp op a b) :=
  (sane_number a).bind fun _ => (sane_number b).bind fun _ => .ok _

theorem sane_floatDivision (op : Float → Float → Float) (a b : Value) :
    Sane (floatDivision op a b) := by
  refine (sane_number b).bind fun y => ?_
  split
  · exact .error id
  · exact sane_floatOp op a b

theorem sane_add (a b : Value) : Sane (add a b) := by
  unfold add
  split
  · exact sane_exact _
  · exact .ok _
  · split
    · exact .ok _
    · exact sane_floatOp _ _ _
  · split
    · exact .ok _
    · exact sane_floatOp _ _ _
  · exact sane_floatOp _ _ _

theorem sane_div (a b : Value) : Sane (div a b) := by
  unfold div
  split
  · split
    · exact .error id
    · exact sane_exact _
  · exact sane_floatDivision _ _ _

theorem sane_mod (a b : Value) : Sane (mod a b) := by
  unfold mod
  split
  · split
    · exact .error id
    · exact (sane_exact _).bind fun _ => sane_exact _
  · exact sane_floatDivision _ _ _

theorem sane_neg (v : Value) : Sane v.neg := by
  cases v with
  | integer n => exact sane_exact _
  | float x => exact .ok _
  | _ => exact .error id

theorem sane_orderTest (test : Ordering → Bool) (a b : Value) : Sane (orderTest test a b) := by
  refine .map _ ?_
  unfold order
  split
  · exact .ok _
  · exact .ok _
  · refine (sane_number _).bind fun x => (sane_number _).bind fun y => ?_
    unfold compareFloats
    split_ifs
    · exact .ok _
    · exact .ok _
    · exact .ok _
    · exact .error id

/-- **Operators are sane.** -/
theorem sane_operate (op : Source.Operator) (a b : Value) : Sane (operate op a b) := by
  cases op with
  | add => exact sane_add a b
  | sub =>
    simp only [operate, sub]
    split
    · exact sane_exact _
    · exact sane_floatOp _ _ _
  | mul =>
    simp only [operate, mul]
    split
    · exact sane_exact _
    · exact sane_floatOp _ _ _
  | div => exact sane_div a b
  | mod => exact sane_mod a b
  | eq => exact .ok _
  | ne => exact .ok _
  | _ => exact sane_orderTest _ a b

end Value

/-! ## Native functions -/

namespace Library

section Arguments

variable (function : String)

theorem sane_noArguments (args : List Value) : Sane (noArguments function args) := by
  unfold noArguments
  split
  · exact .ok _
  · exact .error id

theorem sane_oneArgument (args : List Value) : Sane (oneArgument function args) := by
  unfold oneArgument
  split
  · exact .ok _
  · exact .error id

theorem sane_twoArguments (args : List Value) : Sane (twoArguments function args) := by
  unfold twoArguments
  split
  · exact .ok _
  · exact .error id

theorem sane_textOf (v : Value) : Sane (textOf v) := by
  cases v with
  | text s => exact .ok _
  | _ => exact .error id

theorem sane_integerOf (v : Value) : Sane (integerOf v) := by
  cases v with
  | integer n => exact .ok _
  | _ => exact .error id

theorem sane_floatFunction (f : Float → Float) (args : List Value) :
    Sane (floatFunction function f args) :=
  (sane_oneArgument function args).bind fun v => v.sane_number.bind fun _ => .ok _

theorem sane_wholeFunction (f : Float → Float) (args : List Value) :
    Sane (wholeFunction function f args) :=
  (sane_oneArgument function args).bind fun v => v.sane_number.bind fun _ => .ok _

theorem sane_modeTest (kind : Int64) (args : List Value) : Sane (modeTest function kind args) :=
  (sane_oneArgument function args).bind fun v => (sane_integerOf v).bind fun _ => .ok _

end Arguments

section Functions

variable (h : Heap) (w : Surroundings) (args : List Value)

theorem sane_len : Sane (len h args) := by
  refine (sane_oneArgument _ args).bind fun v => ?_
  cases v with
  | text s => exact .ok _
  | module m => exact .ok _
  | _ => exact .error id

theorem sane_isLess : Sane (isLess args) :=
  (sane_twoArguments _ args).bind fun _ => Value.sane_orderTest _ _ _

theorem sane_loadRequest : Sane (loadRequest args) :=
  (sane_twoArguments _ args).bind fun p =>
    (sane_textOf p.1).bind fun _ => (sane_textOf p.2).bind fun _ => .ok _

theorem sane_disassemble : Sane (disassemble h args) := by
  refine (sane_oneArgument _ args).bind fun v => (sane_textOf v).bind fun source => ?_
  cases Code.compile source "<dis>" with
  | ok c => exact .ok _
  | error e => exact .error id

theorem sane_readFile : Sane (readFile w args) := by
  refine (sane_oneArgument _ args).bind fun v => (sane_textOf v).bind fun path => ?_
  cases (w.find path).text with
  | ok s => exact .ok _
  | error e => exact .error id

theorem sane_environmentVariable : Sane (environmentVariable w args) := by
  refine (sane_oneArgument _ args).bind fun v => (sane_textOf v).bind fun name => ?_
  split
  · exact .ok _
  · cases w.environment name <;> exact .ok _

theorem sane_formatTime : Sane (formatTime w args) := by
  refine (sane_oneArgument _ args).bind fun v => (sane_textOf v).bind fun format => ?_
  cases (Moment.ofNanoseconds w.now).format format with
  | some s => exact .ok _
  | none => exact .error id

theorem sane_sqrt : Sane (sqrt args) := by
  refine (sane_oneArgument _ args).bind fun v => v.sane_number.bind fun x => ?_
  split
  · exact .error id
  · exact .ok _

theorem sane_randomBounds : Sane (randomBounds args) := by
  refine (sane_twoArguments _ args).bind fun p => (sane_integerOf p.1).bind fun low =>
    (sane_integerOf p.2).bind fun high => ?_
  split
  · exact .error id
  · exact .ok _

theorem sane_width : Sane (width args) := by
  refine (sane_oneArgument _ args).bind fun v => (sane_textOf v).bind fun s => ?_
  split
  · exact .ok _
  · exact .error id

end Functions

end Library

namespace Outcome

variable {H : Type} (s : Interpreter H)

/-- A native function does not fail with one of the machine's own errors. -/
def Sane : Outcome H → Prop
  | error _ e => ¬ e.Internal
  | value .. | load .. => True

theorem sane_ofResult {r : Except RuntimeError Value} (hr : Ember.Sane r) :
    (ofResult s r).Sane := by
  cases r with
  | error e => exact hr e rfl
  | ok v => trivial

theorem sane_drawing {f : α → UInt64 → Value} {r : Except RuntimeError α} (hr : Ember.Sane r) :
    (drawing s f r).Sane := by
  cases r with
  | error e => exact hr e rfl
  | ok a => trivial

theorem sane_ofRequest {r : Except RuntimeError (String × String)} (hr : Ember.Sane r) :
    (ofRequest s r).Sane := by
  cases r with
  | error e => exact hr e rfl
  | ok p => trivial

end Outcome

/-- **Native functions are sane.** -/
theorem Library.sane_apply {H : Type} [Host H] (s : Interpreter H) (f : Native)
    (args : List Value) : (apply s f args).Sane := by
  unfold apply
  cases f with
  | print => trivial
  | execModule => exact Outcome.sane_ofRequest s (sane_loadRequest args)
  | random => exact Outcome.sane_drawing s (sane_noArguments _ args)
  | randomInteger => exact Outcome.sane_drawing s (sane_randomBounds args)
  | str => exact Outcome.sane_ofResult s ((sane_oneArgument _ args).bind fun _ => .ok _)
  | len => exact Outcome.sane_ofResult s (sane_len _ args)
  | type => exact Outcome.sane_ofResult s ((sane_oneArgument _ args).bind fun _ => .ok _)
  | hasModule =>
    exact Outcome.sane_ofResult s ((sane_oneArgument _ args).bind fun v =>
      (sane_textOf v).bind fun _ => .ok _)
  | isLess => exact Outcome.sane_ofResult s (sane_isLess args)
  | disassemble => exact Outcome.sane_ofResult s (sane_disassemble _ args)
  | readFile => exact Outcome.sane_ofResult s (sane_readFile _ args)
  | fileExists =>
    exact Outcome.sane_ofResult s ((sane_oneArgument _ args).bind fun v =>
      (sane_textOf v).bind fun _ => .ok _)
  | sqrt => exact Outcome.sane_ofResult s (sane_sqrt args)
  | pow =>
    exact Outcome.sane_ofResult s ((sane_twoArguments _ args).bind fun p =>
      p.1.sane_number.bind fun _ => p.2.sane_number.bind fun _ => .ok _)
  | floor | ceil => exact Outcome.sane_ofResult s (sane_wholeFunction _ _ args)
  | abs | sin | cos => exact Outcome.sane_ofResult s (sane_floatFunction _ _ args)
  | environmentVariable => exact Outcome.sane_ofResult s (sane_environmentVariable _ args)
  | isDirectory | isRegular => exact Outcome.sane_ofResult s (sane_modeTest _ _ args)
  | timeNanos =>
    exact Outcome.sane_ofResult s ((sane_noArguments _ args).bind fun _ => Value.sane_exact _)
  | formatTime => exact Outcome.sane_ofResult s (sane_formatTime _ args)
  | width => exact Outcome.sane_ofResult s (sane_width args)
  | textWidth =>
    exact Outcome.sane_ofResult s ((sane_oneArgument _ args).bind fun v =>
      (sane_textOf v).bind fun _ => .ok _)
  | _ => exact Outcome.sane_ofResult s ((sane_noArguments _ args).bind fun _ => .ok _)

end Ember
