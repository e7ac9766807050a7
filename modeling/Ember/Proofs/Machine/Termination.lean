import Ember.Proofs.Machine.Calls
import Ember.Proofs.Machine.Confinement
import Ember.Proofs.Machine.Transactions
import Ember.Proofs.Samples
import Mathlib

/-!
# Programs without loops come to an end

**Theorem (`tryLoad_terminates`).** If no source that is compiled while a source text is loaded has
a loop, and no function that code can get at has one, then the load comes to an end, well or not,
whatever functions call each other and whatever loads they start.

Code without loops only goes forward. So list how much code each call and each module body in
progress still has before it (`Activation.ranks`), from the outermost to the innermost. A step makes
one of these numbers smaller and changes only what lies further inside, where it may begin calls and
loads; or it ends the innermost ones. Calls and loads nest only as deep as the settings allow, so
the lists have a bounded length, and for these the lexicographic order is well founded.
-/

namespace Ember

open Code (bodyCode)
open Source (LoopFree hasLoopIn)

/-! ## Descent -/

/-- The list loses elements in front, or its first element gets smaller and others come in front of
it. The last elements count most. -/
inductive Falls (old new : List Nat) : Prop
  | ends (pre : List Nat) : pre ≠ [] → (∀ n ∈ pre, 0 < n) → old = pre ++ new → Falls old new
  | goes {rest : List Nat} {n k : Nat} (pre : List Nat) :
    k < n → old = n :: rest → new = pre ++ k :: rest → Falls old new

/-- The list as a vector that starts with the last element. -/
def height (N : Nat) (xs : List Nat) : Lex (Fin N → Nat) :=
  toLex fun i => xs.reverse[i.val]?.getD 0

theorem getElem?_reverse_append {xs ys : List Nat} {j : Nat} (h : j < ys.length) :
    (xs ++ ys).reverse[j]? = ys.reverse[j]? := by
  rw [List.reverse_append, List.getElem?_append_left (by simpa using h)]

theorem getElem?_reverse_append_cons (xs ys : List Nat) (n : Nat) :
    (xs ++ n :: ys).reverse[ys.length]? = some n := by
  rw [getElem?_reverse_append (by simp)]
  simp

theorem Falls.height_lt {N : Nat} {old new : List Nat} (h : Falls old new) (hN : old.length ≤ N) :
    height N new < height N old := by
  have hlt : ∀ (pre : List Nat) {rest : List Nat} {n : Nat}, old = pre ++ n :: rest →
      rest.length < N := by
    rintro pre rest n rfl
    simp only [List.length_append, List.length_cons] at hN
    omega
  cases h with
  | ends pre hpre hpos hold =>
    obtain ⟨init, n, rfl⟩ := (List.eq_nil_or_concat pre).resolve_left hpre
    rw [List.concat_eq_append, List.append_assoc, List.singleton_append] at hold
    refine ⟨⟨new.length, hlt init hold⟩, fun j hj => ?_, ?_⟩
    · have hj : j.val < new.length := hj
      show new.reverse[j.val]?.getD 0 = old.reverse[j.val]?.getD 0
      rw [hold, ← List.singleton_append, ← List.append_assoc, getElem?_reverse_append hj]
    · show new.reverse[new.length]?.getD 0 < old.reverse[new.length]?.getD 0
      rw [hold, getElem?_reverse_append_cons, List.getElem?_eq_none (by simp)]
      exact hpos n (by simp)
  | @goes rest n k pre hk hold hnew =>
    refine ⟨⟨rest.length, hlt [] hold⟩, fun j hj => ?_, ?_⟩
    · have hj : j.val < rest.length := hj
      show new.reverse[j.val]?.getD 0 = old.reverse[j.val]?.getD 0
      rw [hold, hnew, ← List.singleton_append (x := n), ← List.singleton_append (x := k),
        ← List.append_assoc, getElem?_reverse_append hj, getElem?_reverse_append hj]
    · show new.reverse[rest.length]?.getD 0 < old.reverse[rest.length]?.getD 0
      rw [hold, hnew, ← List.nil_append (n :: rest), getElem?_reverse_append_cons,
        getElem?_reverse_append_cons]
      exact hk

/-- What is left of a list whose first element has got smaller. -/
theorem Falls.of_suffix {rest new pre : List Nat} {n k : Nat} (hk : k < n)
    (hrest : ∀ r ∈ rest, 0 < r) (h : k :: rest = pre ++ new) : Falls (n :: rest) new := by
  cases pre with
  | nil => exact .goes [] hk rfl h.symm
  | cons k' pre =>
    obtain ⟨-, hrest'⟩ := List.cons.inj h
    refine .ends (n :: pre) (List.cons_ne_nil n pre) (fun r hr => ?_) (congrArg (n :: ·) hrest')
    rcases List.mem_cons.1 hr with rfl | hr
    · exact Nat.zero_lt_of_lt hk
    · exact hrest r (hrest' ▸ List.mem_append_left new hr)

/-! ## Code before it -/

/-- How much code each call in progress has before it, the innermost first, and how much there is
outside of the calls. -/
def Activation.ranks (a : Activation) : List Nat :=
  (a.code.size - a.ip + 1) :: a.frames.map fun f => f.code.size - f.ip + 1

namespace Machine

variable {H : Type}

def ranksOf (activations : List Activation) : List Nat := activations.flatMap Activation.ranks

/-- How much code each call and each module body has before it, the innermost first. -/
def ranks (m : Machine H) : List Nat := ranksOf (m.top :: m.below)

theorem ranksOf_cons (a : Activation) (below : List Activation) :
    ranksOf (a :: below) = (a.code.size - a.ip + 1) ::
      ((a.frames.map fun f => f.code.size - f.ip + 1) ++ ranksOf below) := rfl

theorem pos_of_mem_ranksOf {activations : List Activation} {n : Nat}
    (h : n ∈ ranksOf activations) : 0 < n := by
  obtain ⟨a, -, hn⟩ := List.mem_flatMap.1 h
  rcases List.mem_cons.1 hn with rfl | hn
  · exact Nat.succ_pos _
  · obtain ⟨f, -, rfl⟩ := List.mem_map.1 hn
    exact Nat.succ_pos _

variable [Host H] {s : Interpreter H} {below : List Activation}

/-- Where a run goes on after a load. -/
theorem ranks_deliver : ∀ {below : List Activation} {s : Interpreter H} {origin : Origin}
    {name : String} {r : Except LoadError ModuleId} {m : Machine H},
    deliver s origin name r below = .running m → ∃ pre, ranksOf below = pre ++ m.ranks
  | [], s, origin, name, r, m, h => by cases h
  | a :: below, s, origin, name, r, m, h => by
    cases origin with
    | host => cases r <;> cases h <;> exact ⟨[], rfl⟩
    | call => cases r <;> cases h <;> exact ⟨[], rfl⟩
    | use =>
      cases r with
      | ok x =>
        cases h
        exact ⟨[], rfl⟩
      | error cause =>
        unfold deliver at h
        cases hl : a.load with
        | none =>
          rw [hl] at h
          cases h
        | some l =>
          rw [hl] at h
          obtain ⟨pre, hpre⟩ := ranks_deliver h
          refine ⟨a.ranks ++ pre, ?_⟩
          rw [List.append_assoc, ← hpre]
          rfl

theorem ranks_finish {a : Activation} {o : Except LoadError Unit} {m : Machine H}
    (h : finish s a below o = .running m) : ∃ pre, ranksOf below = pre ++ m.ranks := by
  unfold finish at h
  cases hl : a.load with
  | none =>
    rw [hl] at h
    cases h
  | some l =>
    rw [hl] at h
    exact ranks_deliver h

/-- A load puts something in front of the list, or it is over at once. -/
theorem ranks_load {source name : String} {origin : Origin} {m : Machine H}
    (h : load s source name origin below = .running m) :
    (∃ n, m.ranks = n :: ranksOf below) ∨ ∃ pre, ranksOf below = pre ++ m.ranks := by
  unfold load at h
  cases hr : s.refusal? name with
  | some c =>
    rw [hr] at h
    exact .inr (ranks_deliver h)
  | none =>
    rw [hr] at h
    dsimp only at h
    cases hc : Code.compile source (displayName name) with
    | error e =>
      rw [hc] at h
      exact .inr (ranks_deliver h)
    | ok code =>
      rw [hc] at h
      cases h
      exact .inl ⟨_, rfl⟩

/-- The list falls when an activation ends. -/
theorem falls_finish {a : Activation} {o : Except LoadError Unit} {m : Machine H}
    (h : finish s a below o = .running m) : Falls (ranksOf (a :: below)) m.ranks := by
  obtain ⟨pre, hpre⟩ := ranks_finish h
  have hold : ranksOf (a :: below) = (a.ranks ++ pre) ++ m.ranks := by
    rw [List.append_assoc, ← hpre]
    rfl
  refine .ends (a.ranks ++ pre) (by simp [Activation.ranks]) (fun n hn => ?_) hold
  have hmem : n ∈ ranksOf (a :: below) := by
    rw [hold]
    exact List.mem_append_left _ hn
  exact pos_of_mem_ranksOf hmem

/-- **A step of code without loops makes the list fall.** -/
theorem falls_step {m m' : Machine H} (hm : m.top.code.Straight) (h : m.step = .running m') :
    Falls m.ranks m'.ranks := by
  cases hi : m.top.code[m.top.ip]? with
  | none =>
    rw [step_eq_finish hi] at h
    exact falls_finish h
  | some x =>
    obtain ⟨i, line⟩ := x
    obtain ⟨hlt, -⟩ := Array.getElem?_eq_some_iff.1 hi
    have hranks : m.ranks = _ := ranksOf_cons m.top m.below
    have hnext : m.top.code.size - (m.top.ip + 1) + 1 < m.top.code.size - m.top.ip + 1 := by omega
    have hacts := acts_execute m.state (jumpTo m.top (m.top.ip + 1)) m.below i
    rw [step_eq hi] at h
    generalize execute m.state (jumpTo m.top (m.top.ip + 1)) m.below i = effect at hacts h
    cases hacts with
    | @drop rest ip _ hip =>
      -- Jumps are the only instructions that do not go on behind themselves, and they go forward.
      cases h
      have hforward : m.top.ip < ip := (hm _ _ _ hi).successors ip hip
      have hless : m.top.code.size - ip + 1 < m.top.code.size - m.top.ip + 1 := by omega
      exact .goes [] hless hranks rfl
    | assign _ _ hf =>
      cases h
      rw [show m.top.frames = _ from hf] at hranks
      exact .goes [] hnext hranks rfl
    | enter =>
      cases h
      exact .goes [_] hnext hranks rfl
    | ret _ _ hf =>
      cases h
      rw [show m.top.frames = _ from hf] at hranks
      exact .ends [_] (List.cons_ne_nil _ _) (by simp) hranks
    | stop => exact falls_finish h
    | load =>
      rcases ranks_load h with ⟨n, hn⟩ | ⟨pre, hpre⟩
      · exact .goes [n] hnext hranks hn
      · -- The load is over at once, and may have ended others with it.
        rw [hranks]
        refine .of_suffix hnext (fun r hr => ?_) hpre
        have hmem : r ∈ ranksOf (m.top :: m.below) := List.mem_cons_of_mem _ hr
        exact pos_of_mem_ranksOf hmem
    | _ =>
      cases h
      exact .goes [] hnext hranks rfl

/-- If the list falls at each step and never gets too long, then the run comes to an end. -/
theorem reaches_done_of_falls (N : Nat) {p : Progress H}
    (hN : ∀ m, Reaches p (.running m) → m.ranks.length ≤ N)
    (hfalls : ∀ m m', Reaches p (.running m) → m.step = .running m' → Falls m.ranks m'.ranks) :
    ∃ s a, Reaches p (.done s a) := by
  have hends : ∀ (x : Lex (Fin N → Nat)) (m : Machine H), height N m.ranks = x →
      Reaches p (.running m) → ∃ s a, Reaches p (.done s a) := by
    intro x
    induction x using WellFoundedLT.induction with
    | ind x ih =>
      rintro m rfl hm
      cases hstep : m.step with
      | done s a => exact ⟨s, a, hm.trans (.of_step hstep)⟩
      | running m' =>
        refine ih _ ((hfalls m m' hm hstep).height_lt (hN m hm)) m' rfl ?_
        exact hm.trans (.of_step hstep)
  cases p with
  | done s a => exact ⟨s, a, .refl _⟩
  | running m => exact hends _ m rfl (.refl _)

/-! ## Depth -/

section Depth

variable {c : Config}

theorem loadDepth_endLoad (s : Interpreter H) (l : Load) (o : Except LoadError Unit) :
    (s.endLoad l o).2.loadDepth = s.loadDepth - 1 := by
  rcases s.endLoad_cases l o with ⟨-, -, he⟩ | he
  · rw [he, Interpreter.loadDepth_trace]
    rfl
  · rw [he, Interpreter.loadDepth_trace, s.loadDepth_undone]

/-- Loads nest only as deep as the settings allow. -/
def Shallow (c : Config) (s : Interpreter H) : Prop :=
  s.config = c ∧ s.loadDepth ≤ c.maxLoadDepth

omit [Host H] in
theorem Shallow.leftBy {t : Interpreter H} {i : Code.Instr} (h : Shallow c s)
    (ht : LeftBy i s t) : Shallow c t :=
  ⟨ht.config.trans h.1, ht.loadDepth ▸ h.2⟩

theorem Shallow.beginLoad {source name : String} {origin : Origin} (h : Shallow c s)
    (hr : s.refusal? name = none) : Shallow c (s.beginLoad source name origin).2 := by
  have hdepth : ¬ s.config.maxLoadDepth ≤ s.loadDepth := fun hd =>
    (Interpreter.refusal?_eq_none_iff.1 hr) (.inr hd)
  rw [h.1] at hdepth
  refine ⟨(s.config_beginLoad source name origin).trans h.1, ?_⟩
  rw [s.beginLoad_snd]
  show s.loadDepth + 1 ≤ c.maxLoadDepth
  omega

theorem Shallow.endLoad (h : Shallow c s) (l : Load) (o : Except LoadError Unit) :
    Shallow c (s.endLoad l o).2 := by
  refine ⟨(Interpreter.config_endLoad o).trans h.1, ?_⟩
  rw [loadDepth_endLoad]
  exact (Nat.sub_le _ _).trans h.2

theorem shallow_invariant (c : Config) :
    Invariant (fun (s : Interpreter H) (_ : List Activation) => Shallow c s) :=
  .of_state (fun s a below i h => h.leftBy (leftBy_execute s a below i)) (fun _ _ _ h => h)
    (fun _ _ _ _ h hr => h.beginLoad hr) fun _ l o h => h.endLoad l o

end Depth

theorem length_ranksOf_le {n : Nat} : ∀ {activations : List Activation},
    (∀ a ∈ activations, a.frames.length ≤ n) →
      (ranksOf activations).length ≤ activations.length * (n + 1)
  | [], _ => Nat.zero_le _
  | a :: below, h => by
    have ha := h a (List.mem_cons_self ..)
    have hbelow := length_ranksOf_le fun b hb => h b (List.mem_cons_of_mem a hb)
    rw [ranksOf_cons, List.length_cons, List.length_append, List.length_map, List.length_cons,
      Nat.succ_mul]
    omega

end Machine

/-! ## Loads -/

namespace Interpreter

open Machine (Calls Confinement Holds Reaches Shallow)

variable {H : Type} [Host H] {s : Interpreter H} {source name : String}

/-- What is started in a run that compiles no loops has no loops. -/
theorem straight_of_starts {p : Progress H}
    (h : ∀ m src a, Reaches p (.running m) → m.Starts src a → LoopFree src)
    (m : Machine H) (src : String) (a : Activation) (hm : Reaches p (.running m))
    (ha : m.Starts src a) : a.code.Straight := by
  have hfree := h m src a hm ha
  obtain ⟨i, line, t, n, origin, code, -, -, -, hc, rfl⟩ := ha
  exact Code.straight_compile hfree hc

/-- All code that runs has no loops. -/
theorem straight_of_reaches (hfunctions : ∀ k f, s.Sees (.function k) →
      s.heap.function? k = some f → ∃ line b, f.code = bodyCode line b ∧ hasLoopIn b = false)
    (hsource : LoopFree source)
    (hsources : ∀ m src a, Reaches (Machine.load s source name .host []) (.running m) →
      m.Starts src a → LoopFree src) {m : Machine H}
    (hm : Reaches (Machine.load s source name .host []) (.running m)) :
    m.top.code.Straight := by
  have hconfined : s.Confined s.scope := Machine.confined_scope fun k f hk hf => by
    obtain ⟨line, b, hb, hloop⟩ := hfunctions k f hk hf
    exact hb ▸ Code.straight_bodyCode line hloop
  have hstart : Holds (Confinement s.scope) (Machine.load s source name .host []) := by
    have hnone : Confinement s.scope s [] := ⟨hconfined, by simp⟩
    refine (Machine.confinement_invariant s.scope).load hnone ?_ ?_
    · intro code hr hc
      exact hnone.begin (Code.straight_compile hsource hc)
    · intro e hr hc
      refine ⟨(hconfined.beginLoad source name .host).endLoad (fun x hx => ?_) _, by simp⟩
      rw [s.beginLoad_fst] at hx
      exact hconfined.registered name x hx
  have hreached := (Machine.confinement_invariant s.scope).reaches hstart hm
    (straight_of_starts hsources)
  exact (hreached.2 m.top (List.mem_cons_self ..)).code

/-- Calls and loads nest only as deep as the settings allow. -/
theorem length_ranks_le (hr : s.refusal? name = none) {m : Machine H}
    (hm : Reaches (Machine.load s source name .host []) (.running m)) :
    m.ranks.length ≤ s.config.maxLoadDepth * (s.config.maxCallDepth + 1) := by
  obtain ⟨hloads, -, hnest⟩ := tracks_of_reaches hr hm
  have hlength : m.loads.length = (m.top :: m.below).length := by
    rw [Machine.loads, Machine.loadsOf, List.filterMap_length_eq_length]
    exact fun a ha => Option.isSome_iff_ne_none.2 (hloads a ha)
  have hdepth : ¬ s.config.maxLoadDepth ≤ s.loadDepth := fun hd =>
    (refusal?_eq_none_iff.1 hr) (.inr hd)
  have hshallow : Shallow s.config m.state := by
    refine (Machine.shallow_invariant s.config).reaches (q := .running m) ?_ hm
    have hstart : Shallow s.config s := ⟨rfl, Nat.le_of_not_le hdepth⟩
    exact (Machine.shallow_invariant s.config).load hstart fun hr code => hstart.beginLoad hr
  have hcalls : ∀ a ∈ m.top :: m.below, a.frames.length ≤ s.config.maxCallDepth := by
    intro a ha
    obtain ⟨code, globals, -, hcalling⟩ := Machine.calls_in_order (.load source name) hm a ha
    rw [← hshallow.1]
    exact hcalling.limit
  have hshort := Machine.length_ranksOf_le hcalls
  have hlimit := hshallow.2
  rw [hnest.depth, hlength] at hlimit
  refine hshort.trans (Nat.mul_le_mul_right _ ?_)
  omega

/-- **Programs without loops come to an end**, however functions call each other and loads nest. -/
theorem tryLoad_terminates
    (hfunctions : ∀ k f, s.Sees (.function k) → s.heap.function? k = some f →
      ∃ line b, f.code = bodyCode line b ∧ hasLoopIn b = false)
    (hsource : LoopFree source)
    (hsources : ∀ m src a, Reaches (Machine.load s source name .host []) (.running m) →
      m.Starts src a → LoopFree src) :
    ∃ fuel s' r, s.tryLoad fuel source name = some (s', r) := by
  cases hr : s.refusal? name with
  | some c =>
    refine ⟨0, s, .error (.refused c), ?_⟩
    rw [tryLoad_eq_some, load_of_refusal hr, Machine.run_done]
  | none =>
    obtain ⟨t, a, hdone⟩ := Machine.reaches_done_of_falls
      (s.config.maxLoadDepth * (s.config.maxCallDepth + 1))
      (fun m hm => length_ranks_le hr hm)
      fun m m' hm hstep => Machine.falls_step
        (straight_of_reaches hfunctions hsource hsources hm) hstep
    have hloaded := tracks_of_reaches hr hdone
    obtain ⟨fuel, hrun⟩ := Machine.reaches_done_iff.1 hdone
    cases a with
    | loaded r => exact ⟨fuel, t, r, tryLoad_eq_some.2 hrun⟩
    | ran r => exact hloaded.elim

/-- A source that imports a module with an empty source. -/
theorem tryLoad_terminates_import : LoopFree "import b" ∧
    ∃ fuel s r, importing.tryLoad fuel "import b" "a" = some (s, r) := by
  have hempty : LoopFree "" := by
    intro file program h
    rw [show Source.Program.parse "" file = .ok [] by cbv] at h
    cases h
    rfl
  have himport : LoopFree "import b" := by
    intro file program h
    rw [show Source.Program.parse "import b" file = .ok [.use 1 "b" none] by cbv] at h
    cases h
    rfl
  have hc : Code.compile "import b" (displayName "a") =
      .ok #[(.use "b", 1), (.store "b", 1)] := by cbv
  refine ⟨himport, tryLoad_terminates ?_ himport ?_⟩
  · intro k f _ hf
    simp [Heap.function?, importing, bare, Heap.empty] at hf
  · intro m src a hm ha
    rw [Machine.load_eq_running (by decide) hc] at hm
    -- The first step loads `b`. The others end that load, give `b` its value and end the first
    -- load.
    cases hm with
    | refl =>
      obtain ⟨i, line, t, n, origin, code, hi, he, -⟩ := ha
      cases hi
      cases he
      exact hempty
    | step hm =>
      rw [Machine.step_eq rfl] at hm
      change Reaches (Machine.load _ "" "b" .use _) _ at hm
      rw [Machine.load_eq_running rfl (Code.compile_empty _)] at hm
      cases hm with
      | refl =>
        obtain ⟨i, line, t, n, origin, code, hi, -⟩ := ha
        cases hi
      | step hm =>
        cases hm with
        | refl =>
          obtain ⟨i, line, t, n, origin, code, hi, he, -⟩ := ha
          cases hi
          cases he
        | step hm =>
          cases hm with
          | refl =>
            obtain ⟨i, line, t, n, origin, code, hi, -⟩ := ha
            cases hi
          | step hm => cases hm

end Interpreter

end Ember
