import Ember.Proofs.Machine.Operands
import Ember.Proofs.Machine.Unread
import Ember.Proofs.Samples

/-!
# Compiled code is safe for the operands

All code works on one stack, also that of nested loads. Still no instruction takes, changes or reads
an operand below the floor of the call or load that it belongs to, a call gives one operand in the
place of the callee and the arguments, and the machine's own errors do not occur (`Safe`). Every
machine that a run of a compiled program comes to is safe in this sense, and a run that is not
stopped by an error ends with the operands that it started with (`safe_of_generate`).

The operands at the start are kept because every level that is in progress lies above them
(`Keeps`). For a call the same is said of the operands below it, as long as its level is in progress
(`Inside`); a step that ends the level leaves one operand more.
-/

namespace Ember.Machine

open Code (Instr blockCode)
open Interpreter (sample sampleProgram)

variable {H : Type}

/-! ## The operands at the start -/

/-- `xs` are the operands that were there at the start. -/
def Keeps (xs : List Value) : Progress H → Prop
  | .running m => Stacked xs.length m ∧ m.state.stack.rtake xs.length = xs
  | .done s (.ran (.error _)) => xs <:+ s.stack
  | .done s _ => s.stack = xs

theorem Ends.keeps {xs ys : List Value} {ls : List Level} {p : Progress H}
    (h : Ends xs.length ls ys p) (hs : ∀ l ∈ ls, xs.length ≤ l.floor)
    (hxs : ys.rtake xs.length = xs) : Keeps xs p := by
  cases p with
  | running m =>
    obtain ⟨hm, ended, l, v, hl, -, -, hv⟩ := h
    have hle : xs.length ≤ l.floor := by
      refine hs l ?_
      rw [hl]
      exact List.mem_append_right _ (List.mem_cons_self ..)
    refine ⟨hm, ?_⟩
    rw [hv, ← List.singleton_append, rtake_append_rtake hle (length_le_of_rtake_eq hxs)]
    exact hxs
  | done s a =>
    unfold Ends at h
    rw [hxs] at h
    rcases a with r | (e | u) <;> exact h

variable [Host H]

/-- A step keeps the operands that were there at the start. -/
theorem Stacked.keeps_step {xs : List Value} {m : Machine H} (h : Stacked xs.length m)
    (hxs : m.state.stack.rtake xs.length = xs) : Keeps xs m.step := by
  cases hi : m.top.code[m.top.ip]? with
  | none => exact (ends_step h hi).keeps (fun l => h.suspended.start_le_of_mem) hxs
  | some x =>
    obtain ⟨i, line⟩ := x
    obtain ⟨hlen, hrest⟩ := h.rtake_drop hi h.suspended.start_le
    rw [hxs] at hrest
    have hmoves := moves_step h hi
    generalize m.step = p at hmoves ⊢
    cases hmoves with
    | on _ hm _ hstack =>
      refine ⟨hm, ?_⟩
      rw [hstack, rtake_append hlen]
      exact hrest
    | begins hm _ hstack =>
      refine ⟨hm, ?_⟩
      rw [hstack]
      exact hrest
    | ends hend =>
      refine hend.keeps ?_ hrest
      intro l hl
      rcases List.mem_cons.1 hl with rfl | hl
      · exact hlen
      · exact h.suspended.start_le_of_mem hl

theorem Keeps.reaches {xs : List Value} {p q : Progress H} (h : Keeps xs p) (hr : Reaches p q) :
    Keeps xs q := by
  induction hr with
  | refl => exact h
  | step _ ih => exact ih (h.1.keeps_step h.2)

/-! ## Calls -/

omit [Host H] in
/-- A list that goes on after one element and after another goes on after one of them later. -/
theorem append_cons_cases {α : Type} {as bs cs ds : List α} {x y : α}
    (h : as ++ x :: bs = cs ++ y :: ds) :
    (y ∈ as ∧ ∃ es, ds = es ++ x :: bs) ∨ (x = y ∧ bs = ds) ∨ ds.length < bs.length := by
  rcases List.append_eq_append_iff.1 h with ⟨es, -, he⟩ | ⟨es, rfl, he⟩
  · cases es with
    | nil => exact .inr (.inl (List.cons.inj he))
    | cons e es =>
      rw [List.cons_append, List.cons.injEq] at he
      refine .inr (.inr ?_)
      rw [he.2, List.length_append, List.length_cons]
      omega
  · cases es with
    | nil => exact .inr (.inl ⟨(List.cons.inj he).1.symm, (List.cons.inj he).2.symm⟩)
    | cons e es =>
      rw [List.cons_append, List.cons.injEq] at he
      exact .inl ⟨List.mem_append_right _ (he.1 ▸ List.mem_cons_self ..), es, he.2⟩

/-- The level `l`, which began above `rest` and the levels `ls`, is in progress, or it has ended
with one operand, or more than it has ended. -/
inductive Inside (l : Level) (ls : List Level) (rest : List Value) (m : Machine H) : Prop
  | during {inner : List Level} : m.levels = inner ++ l :: ls →
    m.state.stack.rtake l.floor = rest → Inside l ls rest m
  | after {v : Value} : m.levels = ls → m.top = l.back → m.below = l.below →
    m.state.stack = v :: rest → Inside l ls rest m
  | lost : m.levels.length < ls.length → Inside l ls rest m

section Inside

variable {start : Nat} {l : Level} {ls inner : List Level} {xs rest : List Value}

omit [Host H] in
theorem Ends.inside {m : Machine H} (h : Ends start (inner ++ l :: ls) xs (.running m))
    (hs : ∀ k ∈ inner, l.floor ≤ k.floor) (hl : l.floor ≤ xs.length)
    (hxs : xs.rtake l.floor = rest) : Inside l ls rest m := by
  obtain ⟨hm, ended, k, v, hk, htop, hbelow, hv⟩ := h
  rcases append_cons_cases hk with ⟨hmem, es, hes⟩ | ⟨rfl, rfl⟩ | hlt
  · refine .during hes ?_
    rw [hv, ← List.singleton_append, rtake_append_rtake (hs k hmem) hl]
    exact hxs
  · rw [hxs] at hv
    exact .after rfl htop hbelow hv
  · exact .lost hlt

/-- What a step does inside of a level. -/
theorem Stacked.inside_step {m m' : Machine H} (h : Stacked start m)
    (hlevels : m.levels = inner ++ l :: ls) (hrest : m.state.stack.rtake l.floor = rest)
    (hm : m.step = .running m') : Stacked start m' ∧ Inside l ls rest m' := by
  have hs := h.suspended
  have hfloor : l.floor ≤ floorOf start m.levels := by
    rw [hlevels] at hs ⊢
    exact Suspended.floor_le inner hs
  rw [hlevels] at hs
  have hinner : ∀ k ∈ inner, l.floor ≤ k.floor := fun k hk => hs.floor_le_of_mem hk
  cases hi : m.top.code[m.top.ip]? with
  | none =>
    have hend := ends_step h hi
    rw [hm, hlevels] at hend
    exact ⟨hend.1, hend.inside hinner (hfloor.trans h.standing.le) hrest⟩
  | some x =>
    obtain ⟨i, line⟩ := x
    obtain ⟨hlen, hdrop⟩ := h.rtake_drop hi hfloor
    rw [hrest] at hdrop
    have hmoves := moves_step h hi
    rw [hm] at hmoves
    cases hmoves with
    | on _ hst hlev hstack =>
      refine ⟨hst, .during (hlev.trans hlevels) ?_⟩
      rw [hstack, rtake_append hlen]
      exact hdrop
    | begins hst hlev hstack =>
      rw [hlevels, ← List.cons_append] at hlev
      exact ⟨hst, .during hlev (hstack ▸ hdrop)⟩
    | ends hend =>
      rw [hlevels, ← List.cons_append] at hend
      refine ⟨hend.1, hend.inside ?_ hlen hdrop⟩
      intro k hk
      rcases List.mem_cons.1 hk with rfl | hk
      · exact hlen
      · exact hinner k hk

/-- Steps lead from one progress to another, and all machines before it have more than `d` calls and
loads in progress. -/
inductive Within (d : Nat) : Progress H → Progress H → Prop
  | refl (p : Progress H) : Within d p p
  | step {m : Machine H} {p : Progress H} :
    d < m.levels.length → Within d m.step p → Within d (.running m) p

theorem Within.inside {p q : Progress H} (hw : Within ls.length p q)
    (h : ∀ m, p = .running m → Stacked start m ∧ Inside l ls rest m) :
    ∀ m, q = .running m → Stacked start m ∧ Inside l ls rest m := by
  induction hw with
  | refl => exact h
  | step hd _ ih =>
    refine ih fun m' hm' => ?_
    obtain ⟨hst, hin⟩ := h _ rfl
    cases hin with
    | during hlevels hrest => exact hst.inside_step hlevels hrest hm'
    | after hlevels =>
      rw [hlevels] at hd
      exact absurd hd (lt_irrefl _)
    | lost hlt => exact absurd hlt hd.asymm

/-- The first step of a call. -/
theorem Stacked.inside_call {m m' : Machine H} (h : Stacked start m) {n line : Nat}
    (hi : m.top.code[m.top.ip]? = some (.call n, line)) (hm : m.step = .running m') :
    Stacked start m' ∧ Inside ⟨(m.state.stack.drop (n + 1)).length,
      jumpTo m.top (m.top.ip + 1), m.below⟩ m.levels (m.state.stack.drop (n + 1)) m' := by
  have hmoves := moves_step h hi
  rw [hm] at hmoves
  have hrest := rtake_eq_self (Nat.le_refl (m.state.stack.drop (n + 1)).length)
  cases hmoves with
  | on hcall => exact absurd rfl (hcall n)
  | begins hst hlev hstack =>
    rw [← List.nil_append (_ :: m.levels)] at hlev
    refine ⟨hst, .during hlev ?_⟩
    rw [hstack]
    exact hrest
  | ends hend =>
    rw [← List.nil_append (_ :: m.levels)] at hend
    exact ⟨hend.1, hend.inside nofun (Nat.le_refl _) hrest⟩

end Inside

/-! ## Safety -/

/-- The number of operands below the code that runs: below its innermost call, else below its load,
else `start`. -/
def floor (start : Nat) (m : Machine H) : Nat :=
  match m.top.frames with
  | f :: _ => f.base
  | [] => (m.top.load.map Load.base).getD start

omit [Host H] in
theorem Stacked.floorOf_levels {start : Nat} {m : Machine H} (h : Stacked start m) :
    floorOf start m.levels = m.floor start := by
  have hb := h.based
  unfold floor levels levelsOf
  cases m.top.frames with
  | cons f frames => rfl
  | nil =>
    cases hl : m.top.load with
    | none => cases m.below <;> rfl
    | some l =>
      rw [hl] at hb
      exact hb.floorOf

/-- What the next step of a machine does not do to the operands, if `start` operands lie below all
of its code. -/
structure Safe (start : Nat) (m : Machine H) : Prop where
  /-- The floor is not below the start. -/
  start_le : start ≤ m.floor start
  /-- The instruction does not take operands below the floor. -/
  takes : ∀ i line, m.top.code[m.top.ip]? = some (i, line) →
    m.floor start + i.takes ≤ m.state.stack.length
  /-- It does not change them. -/
  keeps : ∀ i line, m.top.code[m.top.ip]? = some (i, line) →
    m.state.stack.rtake (m.floor start) <:+
      (execute m.state (jumpTo m.top (m.top.ip + 1)) m.below i).state.stack
  /-- It does not read them: with others in their place, which keep the same objects alive, the step
  is the same. -/
  unread : ∀ t, m.state.AgreesAbove (m.floor start) t →
    AgreesAbove (m.floor start) m.step (step ⟨t, m.top, m.below⟩)
  /-- It does not miss an operand, and it does not return outside of functions. -/
  sane : ∀ i line t e, m.top.code[m.top.ip]? = some (i, line) →
    execute m.state (jumpTo m.top (m.top.ip + 1)) m.below i = .stop t e → ¬ e.Internal
  /-- If it is a call, then the operands below the callee stay as they are while the call is in
  progress, and when it has ended the machine goes on after the instruction, with one operand in the
  place of the callee and the arguments. -/
  calls : ∀ n line m', m.top.code[m.top.ip]? = some (.call n, line) →
    Within m.levels.length m.step (.running m') →
      (m.levels.length < m'.levels.length →
        m.state.stack.drop (n + 1) <:+ m'.state.stack) ∧
      (m'.levels.length = m.levels.length →
        m'.top = jumpTo m.top (m.top.ip + 1) ∧ m'.below = m.below ∧
          ∃ v, m'.state.stack = v :: m.state.stack.drop (n + 1))

theorem Stacked.keeps_execute {start : Nat} {m : Machine H} (h : Stacked start m) {i : Instr}
    {line : Nat} (hi : m.top.code[m.top.ip]? = some (i, line)) :
    m.state.stack.rtake (m.floor start) <:+
      (execute m.state (jumpTo m.top (m.top.ip + 1)) m.below i).state.stack := by
  obtain ⟨hlen, hrest⟩ := h.rtake_drop hi (Nat.le_of_eq h.floorOf_levels.symm)
  have hdoes := h.does hi
  rw [← hrest]
  generalize m.state.stack.drop i.takes = rest at hdoes ⊢
  generalize execute m.state (jumpTo m.top (m.top.ip + 1)) m.below i = effect at hdoes ⊢
  have hlow : rest.rtake (m.floor start) <:+ rest := rtake_suffix _ _
  cases hdoes with
  | next _ _ _ ht => exact hlow.trans (ht ▸ List.suffix_append _ _)
  | given _ ht => exact hlow.trans (ht ▸ List.suffix_cons _ _)
  | enter _ _ ht => exact hlow.trans (ht ▸ List.suffix_refl _)
  | @ret t v f frames _ hf ht =>
    have hfloor : m.floor start = f.base := by
      unfold floor
      rw [show m.top.frames = f :: frames from hf]
    rw [hfloor]
    exact ht ▸ List.suffix_cons _ _
  | stop ht => exact hlow.trans ht
  | load ht => exact hlow.trans (ht ▸ List.suffix_refl _)

theorem Stacked.safe {start : Nat} {m : Machine H} (h : Stacked start m) : m.Safe start where
  start_le := by
    rw [← h.floorOf_levels]
    exact h.suspended.start_le
  takes i line hi := by
    rw [← h.floorOf_levels]
    exact h.takes_le hi
  keeps i line hi := h.keeps_execute hi
  unread t ht := by
    refine agreesAbove_step ht fun i line hi => ?_
    rw [← h.floorOf_levels]
    exact h.takes_le hi
  sane i line t e hi he := by
    have hdoes := h.does hi
    rw [he] at hdoes
    cases hdoes with
    | stop _ hsane => exact hsane
  calls n line m' hi hw := by
    have hin : Stacked start m' ∧ Inside ⟨(m.state.stack.drop (n + 1)).length,
        jumpTo m.top (m.top.ip + 1), m.below⟩ m.levels (m.state.stack.drop (n + 1)) m' :=
      hw.inside (fun _ => h.inside_call hi) m' rfl
    cases hin.2 with
    | during hlevels hrest =>
      refine ⟨fun _ => ?_, fun hl => ?_⟩
      · rw [← hrest]
        exact rtake_suffix _ _
      · rw [hlevels, List.length_append, List.length_cons] at hl
        omega
    | after hlevels htop hbelow hstack =>
      refine ⟨fun hl => ?_, fun _ => ⟨htop, hbelow, _, hstack⟩⟩
      rw [hlevels] at hl
      exact absurd hl (lt_irrefl _)
    | lost hlt => exact ⟨fun hl => absurd hl hlt.asymm, fun hl => absurd hl hlt.ne⟩

omit [Host H] in
/-- A run of the code of a module starts in order. -/
theorem stacked_start {s : Interpreter H} {file : String} {code : Code.Chunk} {heights : Array Nat}
    (globals : ModuleId) {load : Option Load} (hc : code.Leveled false heights)
    (hs : s.heap.Compiled) (hl : ∀ l ∈ load, l.base = s.stack.length) :
    Stacked s.stack.length ⟨s, Activation.start file code globals load, []⟩ := by
  refine ⟨hs, ⟨heights, 0, hc, hc.start, rfl⟩, trivial, ?_⟩
  intro n hn
  obtain ⟨l, hl', rfl⟩ := Option.map_eq_some_iff.1 hn
  exact hl l hl'

/-- **Compiled code is safe for the operands**, in runs from any state whose functions were
compiled, with whatever calls and loads they make. -/
theorem safe_of_generate {s : Interpreter H} {file : String} {p : Source.Program}
    {code : Code.Chunk} (globals : ModuleId) {load : Option Load}
    (hc : Code.generate file p = .ok code) (hs : s.heap.Compiled)
    (hl : ∀ l ∈ load, l.base = s.stack.length) :
    (∀ m, Reaches (.running ⟨s, Activation.start file code globals load, []⟩) (.running m) →
      s.stack <:+ m.state.stack ∧ m.Safe s.stack.length) ∧
    ∀ t a, Reaches (.running ⟨s, Activation.start file code globals load, []⟩) (.done t a) →
      s.stack <:+ t.stack ∧ ((∀ e, a ≠ .ran (.error e)) → t.stack = s.stack) := by
  obtain ⟨heights, hlevel⟩ := Code.leveled_generate hc
  have hstart : Keeps s.stack (.running ⟨s, Activation.start file code globals load, []⟩) :=
    ⟨stacked_start globals hlevel hs hl, rtake_eq_self (Nat.le_refl _)⟩
  constructor
  · intro m hr
    obtain ⟨hm, hstack⟩ := hstart.reaches hr
    refine ⟨?_, hm.safe⟩
    rw [← hstack]
    exact rtake_suffix _ _
  · intro t a hr
    have hend := hstart.reaches hr
    rcases a with r | (e | u)
    · exact ⟨Eq.symm hend ▸ List.suffix_refl _, fun _ => hend⟩
    · exact ⟨hend, fun he => absurd rfl (he e)⟩
    · exact ⟨Eq.symm hend ▸ List.suffix_refl _, fun _ => hend⟩

theorem safe_sampleProgram :
    Code.generate "m" sampleProgram = .ok (blockCode 0 sampleProgram).toArray ∧
    sample.heap.Compiled ∧
    (∀ m, Reaches (.running ⟨sample, Activation.start "m" (blockCode 0 sampleProgram).toArray ⟨0⟩
      none, []⟩) (.running m) → m.Safe sample.stack.length) ∧
    ∃ t, Reaches (.running ⟨sample, Activation.start "m" (blockCode 0 sampleProgram).toArray ⟨0⟩
      none, []⟩) (.done t (.ran (.ok ()))) ∧ t.stack = sample.stack := by
  have hc : Code.generate "m" sampleProgram = .ok (blockCode 0 sampleProgram).toArray := rfl
  have hs : sample.heap.Compiled := nofun
  have hl : ∀ l ∈ (none : Option Load), l.base = sample.stack.length := nofun
  obtain ⟨hsafe, hdone⟩ := safe_of_generate ⟨0⟩ hc hs hl
  refine ⟨hc, hs, fun m hm => (hsafe m hm).2, ?_⟩
  obtain ⟨t, hr⟩ : ∃ t, run 60 (.running ⟨sample, Activation.start "m"
      (blockCode 0 sampleProgram).toArray ⟨0⟩ none, []⟩) = some (t, .ran (.ok ())) := ⟨_, rfl⟩
  exact ⟨t, reaches_done_iff.2 ⟨60, hr⟩, (hdone _ _ (reaches_done_iff.2 ⟨60, hr⟩)).2 nofun⟩

end Ember.Machine
