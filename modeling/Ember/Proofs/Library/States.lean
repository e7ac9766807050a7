import Ember.Library.Functions

/-!
# What native functions do to the state

A native function may write and may draw random numbers. Nothing else of the state changes, and
none of it when the function fails or asks for a load (`Library.leaves_apply`).
-/

namespace Ember

variable {H : Type}

/-- The states differ in nothing but their hosts and random numbers. -/
def Interpreter.Alike (s t : Interpreter H) : Prop := t = { s with host := t.host, seed := t.seed }

namespace Interpreter.Alike

theorem refl (s : Interpreter H) : s.Alike s := rfl

theorem trans {s t u : Interpreter H} (h₁ : s.Alike t) (h₂ : t.Alike u) : s.Alike u := by
  unfold Alike at h₁ h₂ ⊢
  rw [h₂, h₁]

variable {s t : Interpreter H} (h : s.Alike t)
include h

theorem heap : t.heap = s.heap := by rw [h]
theorem registry : t.registry = s.registry := by rw [h]
theorem active : t.active = s.active := by rw [h]
theorem pending : t.pending = s.pending := by rw [h]
theorem stack : t.stack = s.stack := by rw [h]
theorem loadDepth : t.loadDepth = s.loadDepth := by rw [h]
theorem config : t.config = s.config := by rw [h]

end Interpreter.Alike

namespace Interpreter

section Output

variable (s : Interpreter H) (out : Stream)

theorem alike_host (host : H) : s.Alike { s with host := host } := rfl

variable [Host H]

theorem alike_print (text : String) : s.Alike (s.print out text) := s.alike_host _

theorem alike_printChar (code : Int32) : s.Alike (s.printChar out code) := s.alike_host _

theorem alike_trace (e : Event) : s.Alike (s.trace e) := by
  unfold trace
  split
  · exact s.alike_print _ _
  · exact .refl s

end Output

end Interpreter

/-- What a native function leaves behind. -/
def Outcome.Leaves (s : Interpreter H) : Outcome H → Prop
  | .value t _ => s.Alike t
  | .error t _ => t = s
  | .load t _ _ => t = s

theorem Outcome.leaves_ofResult (s : Interpreter H) (r : Except RuntimeError Value) :
    (Outcome.ofResult s r).Leaves s := by cases r <;> rfl

theorem Outcome.leaves_drawing {α : Type} (s : Interpreter H) (f : α → UInt64 → Value)
    (r : Except RuntimeError α) : (Outcome.drawing s f r).Leaves s := by
  cases r with
  | error => rfl
  | ok a =>
    unfold Outcome.drawing
    generalize Library.nextRandom s.seed = drawn
    rfl

theorem Outcome.leaves_ofRequest (s : Interpreter H) (r : Except RuntimeError (String × String)) :
    (Outcome.ofRequest s r).Leaves s := by cases r <;> rfl

namespace Library

variable [Host H]

theorem alike_printValues (s : Interpreter H) (out : Stream) (vs : List Value) :
    s.Alike (printValues s out vs) := by
  induction vs generalizing s with
  | nil => exact .refl s
  | cons v vs ih =>
    cases vs with
    | nil => exact s.alike_print _ _
    | cons w ws =>
      rw [printValues.eq_3 _ _ _ _ (List.cons_ne_nil w ws)]
      exact ((s.alike_print _ _).trans (Interpreter.alike_printChar _ _ _)).trans (ih _)

theorem alike_print (s : Interpreter H) (args : List Value) : s.Alike (print s args) := by
  unfold print
  exact (alike_printValues s _ args).trans (Interpreter.alike_printChar _ _ _)

/-- **Native functions leave the state alone**, apart from output and random numbers. -/
theorem leaves_apply (s : Interpreter H) (f : Native) (args : List Value) :
    (apply s f args).Leaves s := by
  unfold apply
  cases f with
  | print => exact alike_print s args
  | execModule =>
    generalize loadRequest args = r
    exact Outcome.leaves_ofRequest s r
  | random => exact Outcome.leaves_drawing _ _ _
  | randomInteger => exact Outcome.leaves_drawing _ _ _
  | _ => exact Outcome.leaves_ofResult s _

end Library

end Ember
