import Ember.Machine.Basic
import Mathlib.Data.List.Basic

/-!
# Reachability

The objects that the rounds of `Heap.reached` collect are exactly those that can be reached by
following references (`mem_reached`). The bound on the number of rounds suffices because a round
that finds something new has followed the references of an object on the heap that no earlier round
has looked at.

So which modules are alive depends only on which objects are roots, not on how they are listed
(`alive_congr`), and the modules that the machine finds alive without a look at the heap are alive
by reachability (`Interpreter.alive_eq`).
-/

namespace Ember

namespace Heap

/-- An object that can be reached from some objects by following references. -/
inductive Reach (h : Heap) (start : List Node) : Node → Prop
  | root {n : Node} : n ∈ start → Reach h start n
  | step {n r : Node} : Reach h start n → r ∈ h.references n → Reach h start r

theorem Reach.mono {h : Heap} {start start' : List Node} {n : Node}
    (hs : ∀ n ∈ start, n ∈ start') (hr : h.Reach start n) : h.Reach start' n := by
  induction hr with
  | root hn => exact .root (hs _ hn)
  | step _ hr ih => exact .step ih hr

/-- Only objects on the heap refer to something. -/
theorem mem_nodes_of_references {h : Heap} {n r : Node} (hr : r ∈ h.references n) :
    n ∈ h.nodes := by
  unfold nodes
  cases n with
  | module m =>
    have hm : m.index < h.modules.size := by
      by_contra hm
      simp [references, fields, Array.getElem?_eq_none (Nat.le_of_not_lt hm), Table.values,
        Table.empty] at hr
    exact List.mem_append_left _ (List.mem_map.2 ⟨m.index, List.mem_range.2 hm, rfl⟩)
  | function f =>
    have hf : f.index < h.functions.size := by
      by_contra hf
      simp [references, function?, Array.getElem?_eq_none (Nat.le_of_not_lt hf)] at hr
    exact List.mem_append_right _ (List.mem_map.2 ⟨f.index, List.mem_range.2 hf, rfl⟩)

/-! ## The rounds -/

/-- What a round adds. -/
def found (h : Heap) (seen frontier : List Node) : List Node :=
  ((frontier.flatMap h.references).filter fun n => !seen.contains n).eraseDups

theorem mem_found {h : Heap} {seen frontier : List Node} {n : Node} :
    n ∈ h.found seen frontier ↔ (∃ k ∈ frontier, n ∈ h.references k) ∧ n ∉ seen := by
  simp [found, List.mem_eraseDups]

theorem spread_succ (h : Heap) (fuel : Nat) (seen frontier : List Node) :
    h.spread (fuel + 1) seen frontier =
      if (h.found seen frontier).isEmpty then seen
      else h.spread fuel (seen ++ h.found seen frontier) (h.found seen frontier) := rfl

theorem reach_of_mem_spread {h : Heap} {start : List Node} {n : Node} :
    ∀ {fuel : Nat} {seen frontier : List Node}, (∀ n ∈ seen, h.Reach start n) →
      (∀ n ∈ frontier, h.Reach start n) → n ∈ h.spread fuel seen frontier → h.Reach start n
  | 0, _, _, hs, _, hn => hs n hn
  | fuel + 1, seen, frontier, hs, hf, hn => by
    have hnew : ∀ n ∈ h.found seen frontier, h.Reach start n := fun n hn => by
      obtain ⟨⟨k, hk, hr⟩, -⟩ := mem_found.1 hn
      exact .step (hf k hk) hr
    rw [spread_succ] at hn
    split_ifs at hn with he
    · exact hs n hn
    · refine reach_of_mem_spread (fun n hn => ?_) hnew hn
      rcases List.mem_append.1 hn with hn | hn
      · exact hs n hn
      · exact hnew n hn

/-- The objects on the heap whose references have not been followed yet. -/
def unfollowed (h : Heap) (seen frontier : List Node) : List Node :=
  h.nodes.filter fun n => n ∉ seen ∨ n ∈ frontier

theorem mem_unfollowed {h : Heap} {seen frontier : List Node} {n : Node} :
    n ∈ h.unfollowed seen frontier ↔ n ∈ h.nodes ∧ (n ∉ seen ∨ n ∈ frontier) := by
  simp [unfollowed]

/-- A round that finds something follows the references of an object on the heap. -/
theorem unfollowed_lt {h : Heap} {seen frontier : List Node} (hf : ∀ n ∈ frontier, n ∈ seen)
    (he : (h.found seen frontier).isEmpty = false) :
    (h.unfollowed (seen ++ h.found seen frontier) (h.found seen frontier)).length <
      (h.unfollowed seen frontier).length := by
  obtain ⟨r, hr⟩ : ∃ r, r ∈ h.found seen frontier := by
    cases hl : h.found seen frontier with
    | nil => simp [hl] at he
    | cons r _ => exact ⟨r, List.mem_cons_self ..⟩
  obtain ⟨⟨k, hk, hkr⟩, -⟩ := mem_found.1 hr
  have hfilter : h.unfollowed (seen ++ h.found seen frontier) (h.found seen frontier) =
      (h.unfollowed seen frontier).filter (· ∉ seen) := by
    rw [unfollowed, unfollowed, List.filter_filter]
    refine List.filter_congr fun n _ => ?_
    have hdisjoint : n ∈ h.found seen frontier → n ∉ seen := fun hn => (mem_found.1 hn).2
    by_cases hs : n ∈ seen <;> by_cases hn : n ∈ h.found seen frontier <;> simp_all
  rw [hfilter, List.length_filter_lt_length_iff_exists]
  exact ⟨k, mem_unfollowed.2 ⟨mem_nodes_of_references hkr, .inr hk⟩, by simp [hf k hk]⟩

/-- If there are enough rounds, what is collected is closed under references. -/
theorem closed_spread {h : Heap} {n r : Node} :
    ∀ {fuel : Nat} {seen frontier : List Node}, (∀ n ∈ frontier, n ∈ seen) →
      (∀ n ∈ seen, n ∉ frontier → ∀ r ∈ h.references n, r ∈ seen) →
      (h.unfollowed seen frontier).length ≤ fuel → n ∈ h.spread fuel seen frontier →
      r ∈ h.references n → r ∈ h.spread fuel seen frontier
  | 0, seen, frontier, _, hc, hl, hn, hr => by
    have hnone : n ∉ h.unfollowed seen frontier := by
      rw [List.length_eq_zero_iff.1 (Nat.le_zero.1 hl)]
      exact List.not_mem_nil
    refine hc n hn (fun hf => hnone ?_) r hr
    exact mem_unfollowed.2 ⟨mem_nodes_of_references hr, .inr hf⟩
  | fuel + 1, seen, frontier, hf, hc, hl, hn, hr => by
    rw [spread_succ] at hn ⊢
    split_ifs at hn ⊢ with he
    · by_cases hs : n ∈ frontier
      · by_contra hnot
        have : r ∈ h.found seen frontier := mem_found.2 ⟨⟨n, hs, hr⟩, hnot⟩
        rw [List.isEmpty_iff.1 he] at this
        exact List.not_mem_nil this
      · exact hc n hn hs r hr
    · have hlt := unfollowed_lt hf (Bool.eq_false_iff.2 he)
      refine closed_spread (fun n hn => List.mem_append_right _ hn) (fun k hk hnew r hr => ?_)
        (by omega) hn hr
      have hk : k ∈ seen := (List.mem_append.1 hk).resolve_right hnew
      by_cases hs : k ∈ frontier
      · by_cases hrs : r ∈ seen
        · exact List.mem_append_left _ hrs
        · exact List.mem_append_right _ (mem_found.2 ⟨⟨k, hs, hr⟩, hrs⟩)
      · exact List.mem_append_left _ (hc k hk hs r hr)

theorem subset_spread {h : Heap} {n : Node} :
    ∀ {fuel : Nat} {seen frontier : List Node}, n ∈ seen → n ∈ h.spread fuel seen frontier
  | 0, _, _, hn => hn
  | fuel + 1, seen, frontier, hn => by
    rw [spread_succ]
    split_ifs
    · exact hn
    · exact subset_spread (List.mem_append_left _ hn)

/-- **What is collected is what can be reached.** -/
theorem mem_reached {h : Heap} {start : List Node} {n : Node} :
    n ∈ h.reached start ↔ h.Reach start n := by
  unfold reached
  constructor
  · have hroot : ∀ k ∈ start.eraseDups, h.Reach start k := fun k hk =>
      .root (List.mem_eraseDups.1 hk)
    exact reach_of_mem_spread hroot hroot
  · intro hr
    induction hr with
    | root hn => exact subset_spread (List.mem_eraseDups.2 hn)
    | step _ hr ih =>
      refine closed_spread (fun _ hn => hn) (fun _ hn hnot => absurd hn hnot) ?_ ih hr
      refine Nat.le_trans (List.length_filter_le _ _) ?_
      simp [nodes]

/-! ## Living modules -/

theorem alive_congr {h : Heap} {roots roots' : List Node} (hr : ∀ n, n ∈ roots ↔ n ∈ roots')
    (m : ModuleId) : h.alive roots m = h.alive roots' m := by
  have : (h.reached roots).contains (.module m) = (h.reached roots').contains (.module m) := by
    rw [Bool.eq_iff_iff, List.contains_iff_mem, List.contains_iff_mem, mem_reached, mem_reached]
    exact ⟨.mono fun n => (hr n).1, .mono fun n => (hr n).2⟩
  rw [alive, alive, this]

theorem alive_of_mem {h : Heap} {roots : List Node} {m : ModuleId} (hm : .module m ∈ roots) :
    h.alive roots m = true := by
  rw [alive, Bool.or_eq_true, List.contains_iff_mem]
  exact .inl (mem_reached.2 (.root hm))

end Heap

variable {H : Type}

/-- The modules that are registered or run are alive by reachability, too. -/
theorem Interpreter.alive_eq (s : Interpreter H) (activations : List Activation)
    (values : List Value) (m : ModuleId) : s.alive activations values m =
      s.heap.alive (s.nodes ++ activations.flatMap Activation.nodes ++
        Activation.valueNodes values) m := by
  unfold Interpreter.alive
  by_cases hm : (activations.any (·.globals = m) || s.registry.values.contains m) = true
  · rw [hm, Bool.true_or]
    refine (Heap.alive_of_mem (List.mem_append_left _ ?_)).symm
    rcases Bool.or_eq_true _ _ ▸ hm with hm | hm
    · obtain ⟨a, ha, hg⟩ := List.any_eq_true.1 hm
      rw [decide_eq_true_iff] at hg
      exact List.mem_append_right _
        (List.mem_flatMap.2 ⟨a, ha, hg ▸ List.mem_cons_self ..⟩)
    · rw [List.contains_iff_mem] at hm
      simp [Interpreter.nodes, hm]
  · rw [Bool.eq_false_iff.2 hm, Bool.false_or]

end Ember
