import Ember.Proofs.Heap.Reachability
import Mathlib.Logic.Relation

/-!
# Cycles of modules

A module holds another one if a field of it has the other one as its value. Where the code of
functions refers to nothing, as with compiled code, all references between modules are of this kind.
So a module is alive if it can be reached from a root through fields, or from a module that reaches
itself (`Heap.alive_iff`).

A new reference makes a cycle only by closing one: a cycle that was not there before leads through
it (`path_cases`).
-/

namespace Ember

open Relation (ReflTransGen TransGen)

/-! ## Tables -/

namespace Table

variable {α : Type} {name : String} {v : α}

theorem mem_keys_of_look {es : List (String × α)} (h : look name es = some v) :
    name ∈ es.map Prod.fst := by
  induction es with
  | nil => cases h
  | cons e es ih =>
    unfold look at h
    split_ifs at h with hn
    · exact hn ▸ List.mem_cons_self ..
    · exact List.mem_cons_of_mem _ (ih h)

theorem mem_values {t : Table α} : v ∈ t.values ↔ ∃ name, t.get? name = some v := by
  obtain ⟨es, hes⟩ := t
  show v ∈ es.map Prod.snd ↔ ∃ name, look name es = some v
  induction es with
  | nil => simp [look]
  | cons e es ih =>
    obtain ⟨n, a⟩ := e
    obtain ⟨hn, hes⟩ := List.nodup_cons.1 hes
    rw [List.map_cons, List.mem_cons, ih hes]
    constructor
    · rintro (rfl | ⟨name, hname⟩)
      · exact ⟨n, if_pos rfl⟩
      · refine ⟨name, (if_neg ?_).trans hname⟩
        rintro rfl
        exact hn (mem_keys_of_look hname)
    · rintro ⟨name, hname⟩
      unfold look at hname
      split_ifs at hname
      · exact .inl (Option.some.inj hname).symm
      · exact .inr ⟨name, hname⟩

end Table

/-! ## Paths with one more edge -/

section Paths

variable {α : Type} {r r' : α → α → Prop} {y z a b : α}

/-- Where only the edge from `y` to `z` is new, a path is an old one, or it leads from an old path
to `y` over this edge to an old path from `z`. -/
theorem path_cases (hr : ∀ a b, r' a b → r a b ∨ a = y ∧ b = z) (h : TransGen r' a b) :
    TransGen r a b ∨ ReflTransGen r a y ∧ ReflTransGen r z b := by
  induction h with
  | single hab =>
    rcases hr _ _ hab with hab | ⟨rfl, rfl⟩
    · exact .inl (.single hab)
    · exact .inr ⟨.refl, .refl⟩
  | tail _ hbc ih =>
    rcases hr _ _ hbc with hbc | ⟨rfl, rfl⟩
    · rcases ih with hab | ⟨hay, hzb⟩
      · exact .inl (hab.tail hbc)
      · exact .inr ⟨hay, hzb.tail hbc⟩
    · rcases ih with hab | ⟨hay, -⟩
      · exact .inr ⟨hab.to_reflTransGen, .refl⟩
      · exact .inr ⟨hay, .refl⟩

/-- A path to `b` stays where only edges from `b` are gone. -/
theorem path_of_edges_from (hr : ∀ a c, a ≠ b → r a c → r' a c) (h : ReflTransGen r a b) :
    ReflTransGen r' a b := by
  induction h using ReflTransGen.head_induction_on with
  | refl => exact .refl
  | @head a c hac _ ih =>
    by_cases hab : a = b
    · subst hab
      exact .refl
    · exact .head (hr a c hab hac) ih

end Paths

namespace Heap

variable {h : Heap} {x y : ModuleId} {roots : List Node}

/-- A field of the module `x` has the module `y` as its value. -/
def Holds (h : Heap) (x y : ModuleId) : Prop := ∃ name, h.field? x name = some (.module y)

theorem lt_size_of_holds (hxy : h.Holds x y) : x.index < h.modules.size := by
  obtain ⟨name, hname⟩ := hxy
  by_contra hx
  rw [field?, fields, Array.getElem?_eq_none (Nat.le_of_not_lt hx)] at hname
  cases hname

/-- The code of functions refers to nothing. -/
def Bare (h : Heap) : Prop := ∀ f ∈ h.functions, f.code.nodes = []

theorem mem_references : .module y ∈ h.references (.module x) ↔ h.Holds x y := by
  unfold references Holds field?
  simp only [List.mem_filterMap, Table.mem_values]
  constructor
  · rintro ⟨v, ⟨name, hv⟩, hy⟩
    refine ⟨name, hv.trans ?_⟩
    cases v <;> cases hy
    rfl
  · rintro ⟨name, hname⟩
    exact ⟨.module y, ⟨name, hname⟩, rfl⟩

theorem Bare.references (hb : h.Bare) (f : FunctionId) : h.references (.function f) = [] := by
  cases hf : h.function? f with
  | none => simp only [Heap.references, hf]
  | some g =>
    simp only [Heap.references, hf]
    exact hb g (Array.mem_of_getElem? hf)

theorem not_reach_nil {n : Node} : ¬ h.Reach [] n := by
  intro hr
  induction hr with
  | root hr => cases hr
  | step _ _ ih => exact ih

/-- From some objects, a module is reached through fields. -/
theorem Bare.reach_iff (hb : h.Bare) : h.Reach roots (.module x) ↔
    ∃ r, .module r ∈ roots ∧ ReflTransGen h.Holds r x := by
  constructor
  · intro hx
    generalize hn : Node.module x = n at hx
    induction hx generalizing x with
    | root hroot =>
      subst hn
      exact ⟨x, hroot, .refl⟩
    | @step n k _ hk ih =>
      subst hn
      cases n with
      | function f =>
        rw [hb.references] at hk
        cases hk
      | module w =>
        obtain ⟨r, hr, hw⟩ := ih rfl
        exact ⟨r, hr, hw.tail (mem_references.1 hk)⟩
  · rintro ⟨r, hr, hx⟩
    induction hx with
    | refl => exact .root hr
    | tail _ hxy ih => exact .step ih (mem_references.2 hxy)

theorem Bare.reach_singleton (hb : h.Bare) :
    h.Reach [.module y] (.module x) ↔ ReflTransGen h.Holds y x := by
  rw [hb.reach_iff]
  simp

/-- A cycle of references is a cycle of modules. -/
theorem Bare.onCycle_iff (hb : h.Bare) {n : Node} :
    h.onCycle n = true ↔ ∃ y, n = .module y ∧ TransGen h.Holds y y := by
  unfold onCycle
  rw [List.contains_iff_mem, mem_reached]
  cases n with
  | function f =>
    rw [hb.references]
    exact ⟨fun hr => absurd hr not_reach_nil, nofun⟩
  | module y =>
    rw [hb.reach_iff]
    simp only [mem_references, Node.module.injEq, exists_eq_left', TransGen.head'_iff]

/-- **Which modules are alive**: those that can be reached from a root, or from a module that
reaches itself, through fields. -/
theorem Bare.alive_iff (hb : h.Bare) : h.alive roots x = true ↔
    (∃ r, .module r ∈ roots ∧ ReflTransGen h.Holds r x) ∨
      ∃ y, TransGen h.Holds y y ∧ ReflTransGen h.Holds y x := by
  unfold alive
  rw [Bool.or_eq_true, List.contains_iff_mem, mem_reached, hb.reach_iff, List.any_eq_true]
  refine or_congr_right ?_
  simp only [Bool.and_eq_true, List.contains_iff_mem, mem_reached, hb.onCycle_iff]
  constructor
  · rintro ⟨n, -, hx, y, rfl, hy⟩
    exact ⟨y, hy, hb.reach_singleton.1 hx⟩
  · rintro ⟨y, hy, hx⟩
    obtain ⟨z, hz, -⟩ := TransGen.head'_iff.1 hy
    have hnode := mem_nodes_of_references (mem_references.2 hz)
    exact ⟨.module y, hnode, hb.reach_singleton.2 hx, y, rfl, hy⟩

end Heap

end Ember
