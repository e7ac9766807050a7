import Ember.Machine.Load
import Ember.Proofs.Library.States
import Mathlib.Data.List.Basic

/-!
# What loads do to the state

Beginning a load makes one new module, registers it and makes it the active one (`beginLoad_snd`).
Ending a load goes back to the enclosing one (`endLoad_ok`, `endLoad_of_not_kept`): a load that is
committed changes nothing else, and one that is rolled back puts the name back to what it stood for
and drops operands and the pending error.
-/

namespace Ember

/-! ## Fields of modules -/

namespace Heap

variable (h : Heap) (m : ModuleId)

@[simp] theorem functions_setField (name : String) (v : Value) :
    (h.setField m name v).functions = h.functions := rfl

@[simp] theorem size_modules_setField (name : String) (v : Value) :
    (h.setField m name v).modules.size = h.modules.size := by simp [setField]

theorem fields_setField_of_ne {m m' : ModuleId} (hm : m ≠ m') (name : String) (v : Value) :
    (h.setField m name v).fields m' = h.fields m' := by
  have hi : m.index ≠ m'.index := fun he => hm (by cases m; cases m'; cases he; rfl)
  simp [setField, fields, Array.getElem?_modify, hi]

theorem fields_setField_self {m : ModuleId} (hm : m.index < h.modules.size) (name : String)
    (v : Value) : (h.setField m name v).fields m = (h.fields m).set name v := by
  simp [setField, fields, hm, Array.getElem_modify]

/-- A field has the value that has been set, or the one that it had. -/
theorem eq_or_field?_of_setField {m x : ModuleId} {name n : String} {v w : Value}
    (hw : (h.setField m name v).field? x n = some w) : w = v ∨ h.field? x n = some w := by
  rw [field?] at hw
  by_cases hm : m = x
  · subst hm
    by_cases hsize : m.index < h.modules.size
    · rw [fields_setField_self h hsize, Table.get?_set] at hw
      by_cases hn : name = n
      · rw [if_pos hn] at hw
        exact .inl (Option.some.inj hw).symm
      · rw [if_neg hn] at hw
        exact .inr hw
    · have hnone : (h.setField m name v).modules.size ≤ m.index := by simpa using hsize
      rw [fields, Array.getElem?_eq_none hnone] at hw
      cases hw
  · rw [fields_setField_of_ne h hm] at hw
    exact .inr hw

/-- Gives a module several fields. -/
def setFields (fields : List (String × Value)) : Heap :=
  fields.foldl (fun h f => h.setField m f.1 f.2) h

@[simp] theorem functions_setFields (fields : List (String × Value)) :
    (h.setFields m fields).functions = h.functions := by
  unfold setFields
  induction fields generalizing h with
  | nil => rfl
  | cons f fs ih => rw [List.foldl_cons, ih, functions_setField]

@[simp] theorem size_modules_setFields (fields : List (String × Value)) :
    (h.setFields m fields).modules.size = h.modules.size := by
  unfold setFields
  induction fields generalizing h with
  | nil => rfl
  | cons f fs ih => rw [List.foldl_cons, ih, size_modules_setField]

theorem fields_setFields_of_ne {m m' : ModuleId} (hm : m ≠ m') (fields : List (String × Value)) :
    (h.setFields m fields).fields m' = h.fields m' := by
  unfold setFields
  induction fields generalizing h with
  | nil => rfl
  | cons f fs ih => rw [List.foldl_cons, ih, fields_setField_of_ne _ hm]

/-- The module that would be made next. -/
def nextModule : ModuleId := ⟨h.modules.size⟩

theorem newModule_eq : h.newModule = (h.nextModule, { h with modules := h.modules.push .empty }) :=
  rfl

end Heap

namespace Interpreter

variable {H : Type}

theorem refusal?_eq_none_iff {s : Interpreter H} {name : String} :
    s.refusal? name = none ↔ ¬ (name = "" ∨ s.config.maxLoadDepth ≤ s.loadDepth) := by
  rw [← String.isEmpty_iff]
  unfold refusal?
  split_ifs with hname hdepth <;> simp [*]

theorem setFields_eq (s : Interpreter H) (m : ModuleId) (fields : List (String × Value)) :
    s.setFields m fields = { s with heap := s.heap.setFields m fields } := by
  unfold setFields Heap.setFields
  induction fields generalizing s with
  | nil => rfl
  | cons f fs ih => rw [List.foldl_cons, ih]; rfl

/-! ## Tracing -/

section Trace

variable [Host H] (s : Interpreter H) (e : Event)

@[simp] theorem heap_trace : (s.trace e).heap = s.heap := (s.alike_trace e).heap
@[simp] theorem registry_trace : (s.trace e).registry = s.registry := (s.alike_trace e).registry
@[simp] theorem active_trace : (s.trace e).active = s.active := (s.alike_trace e).active
@[simp] theorem pending_trace : (s.trace e).pending = s.pending := (s.alike_trace e).pending
@[simp] theorem stack_trace : (s.trace e).stack = s.stack := (s.alike_trace e).stack
@[simp] theorem loadDepth_trace : (s.trace e).loadDepth = s.loadDepth := (s.alike_trace e).loadDepth
@[simp] theorem config_trace : (s.trace e).config = s.config := (s.alike_trace e).config

@[simp] theorem module?_trace (name : String) : (s.trace e).module? name = s.module? name := by
  simp [module?]

end Trace

/-! ## The beginning of a load -/

section Begin

variable (s : Interpreter H) (source name : String) (origin : Origin)

/-- The heap with the new module. -/
def heapWithNext : Heap :=
  s.heap.newModule.2.setFields s.heap.nextModule (metadata source name)

@[simp] theorem functions_heapWithNext :
    (s.heapWithNext source name).functions = s.heap.functions := by
  simp [heapWithNext, Heap.newModule_eq]

@[simp] theorem size_modules_heapWithNext :
    (s.heapWithNext source name).modules.size = s.heap.modules.size + 1 := by
  simp [heapWithNext, Heap.newModule_eq]

/-- All fields of the new module are texts. -/
theorem eq_text_of_heapWithNext {key : String} {v : Value}
    (hv : (s.heapWithNext source name).field? s.heap.nextModule key = some v) :
    ∃ t, v = .text t := by
  unfold heapWithNext Heap.setFields metadata at hv
  simp only [List.foldl_cons, List.foldl_nil] at hv
  rcases Heap.eq_or_field?_of_setField _ hv with rfl | hv
  · exact ⟨_, rfl⟩
  · rcases Heap.eq_or_field?_of_setField _ hv with rfl | hv
    · exact ⟨_, rfl⟩
    · rcases Heap.eq_or_field?_of_setField _ hv with rfl | hv
      · exact ⟨_, rfl⟩
      · simp [Heap.field?, Heap.fields, Heap.newModule_eq, Heap.nextModule, Table.get?_empty] at hv

theorem fields_heapWithNext {m : ModuleId} (hm : m ≠ s.heap.nextModule) :
    (s.heapWithNext source name).fields m = s.heap.fields m := by
  rw [heapWithNext, Heap.fields_setFields_of_ne _ hm.symm]
  have hi : m.index ≠ s.heap.modules.size := fun he => hm (by cases m; cases he; rfl)
  simp [Heap.newModule_eq, Heap.fields, Array.getElem?_push, hi]

variable [Host H]

theorem beginLoad_fst : (s.beginLoad source name origin).1 =
    ⟨name, s.heap.nextModule, s.registry.get? name, s.active, s.stack.length, origin⟩ := by
  simp [beginLoad, newModule, Heap.newModule_eq, setFields_eq]

theorem beginLoad_snd : (s.beginLoad source name origin).2 =
    { s.trace (.loading name) with
      heap := s.heapWithNext source name
      registry := s.registry.set name s.heap.nextModule
      loadDepth := s.loadDepth + 1
      active := some s.heap.nextModule } := by
  simp [beginLoad, newModule, Heap.newModule_eq, setFields_eq, register, heapWithNext]

@[simp] theorem functions_beginLoad :
    (s.beginLoad source name origin).2.heap.functions = s.heap.functions := by simp [beginLoad_snd]

@[simp] theorem stack_beginLoad : (s.beginLoad source name origin).2.stack = s.stack := by
  simp [beginLoad_snd]

@[simp] theorem config_beginLoad : (s.beginLoad source name origin).2.config = s.config := by
  simp [beginLoad_snd]

@[simp] theorem base_beginLoad : (s.beginLoad source name origin).1.base = s.stack.length := by
  rw [beginLoad_fst]

end Begin

/-! ## The end of a load -/

section End

variable (s : Interpreter H) (l : Load)

/-- Does a load whose code has run without error end well? -/
def Kept : Prop := s.module? l.name = some l.module ∧ s.pending = none

instance : Decidable (s.Kept l) :=
  decidable_of_iff (s.module? l.name = some l.module ∧ s.pending.isNone = true)
    (by rw [Kept, Option.isNone_iff_eq_none])

/-- The error that a load is rolled back with: the first one recorded. -/
def failure (outcome : Except LoadError Unit) : LoadError :=
  match s.pending, outcome with
  | some e, _ => e
  | none, .error e => e
  | none, .ok () => .refused (.notProduced l.name)

/-- The state to which a load is rolled back. -/
def undone : Interpreter H := ((s.leaveLoad l).restore l.name l.previous).reset l.base

@[simp] theorem registry_undone : (s.undone l).registry =
    match l.previous with
    | some m => s.registry.set l.name m
    | none => s.registry.erase l.name := by
  unfold undone
  cases l.previous <;> rfl

@[simp] theorem active_undone : (s.undone l).active = l.enclosing := by
  unfold undone
  cases l.previous <;> rfl

@[simp] theorem loadDepth_undone : (s.undone l).loadDepth = s.loadDepth - 1 := by
  unfold undone
  cases l.previous <;> rfl

@[simp] theorem pending_undone : (s.undone l).pending = none := by
  unfold undone
  cases l.previous <;> rfl

@[simp] theorem stack_undone : (s.undone l).stack = s.stack.drop (s.stack.length - l.base) := by
  unfold undone
  cases l.previous <;> rfl

@[simp] theorem heap_undone : (s.undone l).heap = s.heap := by
  unfold undone
  cases l.previous <;> rfl

@[simp] theorem config_undone : (s.undone l).config = s.config := by
  unfold undone
  cases l.previous <;> rfl

theorem module?_undone : (s.undone l).module? l.name = l.previous := by
  rw [module?, registry_undone]
  cases l.previous with
  | none => rw [Table.get?_erase, if_pos rfl]
  | some m => rw [Table.get?_set, if_pos rfl]

theorem module?_undone_of_ne {name : String} (hn : l.name ≠ name) :
    (s.undone l).module? name = s.module? name := by
  rw [module?, registry_undone]
  cases l.previous with
  | none => rw [Table.get?_erase, if_neg hn]; rfl
  | some m => rw [Table.get?_set, if_neg hn]; rfl

theorem undone_record (e : LoadError) : (s.record e).undone l = s.undone l := by
  unfold undone
  cases l.previous <;> rfl

variable [Host H]

/-- A load that ends well. -/
theorem endLoad_of_kept (h : s.Kept l) : s.endLoad l (.ok ()) =
    (.ok l.module, (s.leaveLoad l).trace (.committed l.name)) := by
  have hk : (s.leaveLoad l).module? l.name = some l.module ∧
      (s.leaveLoad l).pending.isNone = true := ⟨h.1, by simp [leaveLoad, h.2]⟩
  simp only [endLoad, if_pos hk]
  rfl

/-- A load that fails. -/
theorem endLoad_error (e : LoadError) : s.endLoad l (.error e) =
    (.error (s.failure l (.error e)),
      (s.undone l).trace (.rolledBack l.name (s.failure l (.error e)))) := by
  have hf : ((s.leaveLoad l).record e).pending.getD (.refused (.notProduced l.name)) =
      s.failure l (.error e) := by
    unfold failure record leaveLoad
    cases s.pending <;> rfl
  simp only [endLoad, rollBack, hf, ← undone_record s l e]
  rfl

/-- A load whose code has run without error, but that does not end well. -/
theorem endLoad_of_not_kept (h : ¬ s.Kept l) : s.endLoad l (.ok ()) =
    (.error (s.failure l (.ok ())),
      (s.undone l).trace (.rolledBack l.name (s.failure l (.ok ())))) := by
  have hk : ¬ ((s.leaveLoad l).module? l.name = some l.module ∧
      (s.leaveLoad l).pending.isNone = true) := fun hk =>
    h ⟨hk.1, Option.isNone_iff_eq_none.1 hk.2⟩
  have hf : (s.leaveLoad l).pending.getD (.refused (.notProduced l.name)) =
      s.failure l (.ok ()) := by
    unfold failure leaveLoad
    cases s.pending <;> rfl
  simp only [endLoad, if_neg hk, rollBack, hf]
  rfl

/-- **How a load ends**: either it is committed, or it is rolled back. -/
theorem endLoad_cases (outcome : Except LoadError Unit) :
    (outcome = .ok () ∧ s.Kept l ∧ s.endLoad l outcome =
      (.ok l.module, (s.leaveLoad l).trace (.committed l.name))) ∨
    s.endLoad l outcome = (.error (s.failure l outcome),
      (s.undone l).trace (.rolledBack l.name (s.failure l outcome))) := by
  cases outcome with
  | error e => exact .inr (s.endLoad_error l e)
  | ok u =>
    by_cases h : s.Kept l
    · exact .inl ⟨rfl, h, s.endLoad_of_kept l h⟩
    · exact .inr (s.endLoad_of_not_kept l h)

variable {s l}

@[simp] theorem heap_endLoad (outcome : Except LoadError Unit) :
    (s.endLoad l outcome).2.heap = s.heap := by
  rcases s.endLoad_cases l outcome with ⟨-, -, he⟩ | he
  · rw [he, heap_trace]
    rfl
  · rw [he, heap_trace, heap_undone]

@[simp] theorem config_endLoad (outcome : Except LoadError Unit) :
    (s.endLoad l outcome).2.config = s.config := by
  rcases s.endLoad_cases l outcome with ⟨-, -, he⟩ | he
  · rw [he, config_trace]
    rfl
  · rw [he, config_trace, config_undone]

/-- However the code of a load ends, what it has left over is dropped. -/
theorem stack_endLoad {stack : List Value} {outcome : Except LoadError Unit}
    (hl : l.base = stack.length) (hs : stack <:+ s.stack)
    (ho : outcome = .ok () → s.stack = stack) : (s.endLoad l outcome).2.stack = stack := by
  rcases s.endLoad_cases l outcome with ⟨ho', -, he⟩ | he
  · rw [he, stack_trace]
    exact ho ho'
  · rw [he, stack_trace, stack_undone, hl]
    exact (List.suffix_iff_eq_drop.1 hs).symm

end End

end Interpreter

end Ember
