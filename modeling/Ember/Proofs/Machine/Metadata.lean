import Ember.Proofs.Machine.Isolation
import Ember.Proofs.Machine.Transactions
import Mathlib

/-!
# Metadata of modules

**Theorem (`metadata_of_tryLoad`).** After a load that ends well, the name stands for the module of
the load, and its fields `__name__`, `__file__` and `__hash__` are the name, the file name and the
digest of the source, unless the program has given them other values. It can do so, in the body of
the module or by an attribute, since they are fields like all others: `let __name__ := "other"`
loads well, and its module then has another name than the one it is registered under
(`metadata_overwritten`).
-/

namespace Ember

open Machine (Binds Reaches)

variable {H : Type} [Host H]

namespace Interpreter

variable {s s' : Interpreter H} {source name : String} {m : ModuleId} {fuel : Nat}

omit [Host H] in
/-- The new module has its metadata. -/
theorem field?_heapWithNext (s : Interpreter H) {key : String} {v : Value}
    (h : (key, v) ∈ metadata source name) :
    (s.heapWithNext source name).field? s.heap.nextModule key = some v := by
  have hnew : s.heap.nextModule.index < s.heap.newModule.2.modules.size := by
    simp [Heap.newModule_eq, Heap.nextModule]
  simp only [metadata, List.mem_cons, List.not_mem_nil, or_false, Prod.mk.injEq] at h
  unfold heapWithNext Heap.setFields metadata Heap.field?
  simp only [List.foldl_cons, List.foldl_nil, Heap.fields_setField_self,
    Heap.size_modules_setField, hnew, Table.get?_set]
  rcases h with ⟨rfl, rfl⟩ | ⟨rfl, rfl⟩ | ⟨rfl, rfl⟩ <;> simp

/-- A load that ends well was neither refused, nor did its source fail to compile. -/
theorem compiles_of_tryLoad (h : s.tryLoad fuel source name = some (s', .ok m)) :
    s.refusal? name = none ∧ ∃ code, Code.compile source (displayName name) = .ok code := by
  have hrun := Machine.reaches_done_iff.2 ⟨fuel, tryLoad_eq_some.1 h⟩
  cases hr : s.refusal? name with
  | some c =>
    rw [load_of_refusal hr] at hrun
    cases hrun
  | none =>
    refine ⟨rfl, ?_⟩
    cases hc : Code.compile source (displayName name) with
    | ok code => exact ⟨code, rfl⟩
    | error e =>
      obtain ⟨t, cause, hload, -⟩ := load_of_error hr hc
      rw [hload] at hrun
      cases hrun

/-- **Modules that were loaded have the metadata of their source**, except for fields to which the
program has given a value itself. -/
theorem metadata_of_tryLoad (h : s.tryLoad fuel source name = some (s', .ok m)) :
    s'.module? name = some m ∧ ∀ key v, (key, v) ∈ metadata source name →
      s'.heap.field? m key = some v ∨
      ∃ w, Reaches (Machine.load s source name .host []) (.running w) ∧
        Reaches w.step (.done s' (.loaded (.ok m))) ∧
        (Binds (Machine.load s source name .host []) w m key ∨ w.SetsAttribute m key) := by
  have hrun := Machine.reaches_done_iff.2 ⟨fuel, tryLoad_eq_some.1 h⟩
  obtain ⟨hr, code, hc⟩ := compiles_of_tryLoad h
  obtain ⟨hended, -⟩ := tracks_of_reaches hr hrun
  obtain ⟨hm, hname⟩ := hended.ok m rfl
  rw [s.beginLoad_fst] at hm hname
  refine ⟨hname, fun key v hv => ?_⟩
  have hload : Machine.load s source name .host [] = _ := Machine.load_eq_running hr hc
  have hfield : (Machine.load s source name .host []).state.heap.field? m key = some v := by
    rw [hload, hm]
    show (s.beginLoad source name .host).2.heap.field? _ key = some v
    rw [s.beginLoad_snd]
    exact s.field?_heapWithNext hv
  have hsize : m.index < (Machine.load s source name .host []).state.heap.modules.size := by
    rw [hload, hm]
    show _ < (s.beginLoad source name .host).2.heap.modules.size
    rw [s.beginLoad_snd, s.size_modules_heapWithNext]
    exact Nat.lt_succ_self _
  -- The module has the field from the beginning of its load on; only a write can change it.
  rw [← hfield]
  rcases Machine.field?_reaches key hsize hrun with hsame | ⟨w, hw, hdone, hwrites⟩
  · exact .inl hsame
  · exact .inr ⟨w, hw, hdone, hwrites.cases (.load source name) hw⟩

/-- The module of an empty source. -/
theorem metadata_of_tryLoad_empty : ∃ s m, sample.tryLoad 1 "" "a" = some (s, .ok m) ∧
    s.module? "a" = some m ∧ ∀ key v, (key, v) ∈ metadata "" "a" → s.heap.field? m key = some v ∨
      ∃ w, Reaches (Machine.load sample "" "a" .host []) (.running w) ∧
        Reaches w.step (.done s (.loaded (.ok m))) ∧
        (Binds (Machine.load sample "" "a" .host []) w m key ∨ w.SetsAttribute m key) := by
  have hrun : ∃ s m, sample.tryLoad 1 "" "a" = some (s, .ok m) := by
    simp only [tryLoad_eq_some, Machine.load, Code.compile_empty]
    exact ⟨_, _, rfl⟩
  obtain ⟨s, m, h⟩ := hrun
  exact ⟨s, m, h, metadata_of_tryLoad h⟩

/-- A source that gives its module another name. -/
theorem metadata_overwritten : ∃ s m,
    stocked.tryLoad 3 "let __name__ := \"other\"" "main" = some (s, .ok m) ∧
    s.module? "main" = some m ∧ s.heap.field? m "__name__" = some (.text "other") := by
  have hc : Code.compile "let __name__ := \"other\"" (displayName "main") =
      .ok #[(.push (.text "other"), 1), (.store "__name__", 1)] := by cbv
  simp only [tryLoad_eq_some, Machine.load, hc]
  exact ⟨_, _, rfl, rfl, rfl⟩

end Interpreter

end Ember
