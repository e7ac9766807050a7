import Ember.Machine.Run
import Mathlib.Data.List.Basic

/-!
# Stretches of runs

A stretch of a run leads from one progress to a later one. A run has an answer exactly if a stretch
leads to it (`reaches_done_iff`), and since machines are deterministic, a run cannot end sooner than
what any of its stretches leads to (`run_eq_none_of_reaches`).
-/

namespace Ember.Machine

variable {H : Type} [Host H]

/-- Some steps lead from one progress to another. -/
inductive Reaches : Progress H → Progress H → Prop
  | refl (p : Progress H) : Reaches p p
  | step {m : Machine H} {p : Progress H} : Reaches m.step p → Reaches (.running m) p

theorem Reaches.trans {p q r : Progress H} (h₁ : Reaches p q) (h₂ : Reaches q r) : Reaches p r := by
  induction h₁ with
  | refl => exact h₂
  | step _ ih => exact .step (ih h₂)

/-- Of two progresses of one run, one comes later. -/
theorem Reaches.total {p q r : Progress H} (hq : Reaches p q) (hr : Reaches p r) :
    Reaches q r ∨ Reaches r q := by
  induction hq with
  | refl => exact .inl hr
  | step hq ih =>
    cases hr with
    | refl => exact .inr (.step hq)
    | step hr => exact ih hr

/-- The last step of a stretch that ends. -/
theorem Reaches.last {p : Progress H} {s : Interpreter H} {a : Answer}
    (h : Reaches p (.done s a)) :
    p = .done s a ∨ ∃ m, Reaches p (.running m) ∧ m.step = .done s a := by
  generalize hq : Progress.done s a = q at h
  induction h with
  | refl =>
    subst hq
    exact .inl rfl
  | @step m _ _ ih =>
    rcases ih hq with hstep | ⟨w, hw, hstep⟩
    · exact .inr ⟨m, .refl _, hstep⟩
    · exact .inr ⟨w, .step hw, hstep⟩

theorem Reaches.of_step {m : Machine H} {p : Progress H} (h : m.step = p) :
    Reaches (.running m) p := .step (h ▸ .refl _)

@[simp] theorem run_done (fuel : Nat) (s : Interpreter H) (a : Answer) :
    run fuel (.done s a) = some (s, a) := by cases fuel <;> rfl

/-- Running on from the end of a stretch gives the answer that running from its start gives. -/
theorem run_of_reaches {p q : Progress H} {fuel : Nat} {r : Interpreter H × Answer}
    (h : Reaches p q) (hr : run fuel p = some r) : run fuel q = some r := by
  induction h generalizing fuel with
  | refl => exact hr
  | step _ ih =>
    cases fuel with
    | zero => cases hr
    | succ n => exact run_add (ih hr)

theorem run_eq_none_of_reaches {p q : Progress H} {fuel : Nat} (h : Reaches p q)
    (hq : run fuel q = none) : run fuel p = none := by
  by_contra hp
  obtain ⟨r, hr⟩ := Option.ne_none_iff_exists'.1 hp
  rw [run_of_reaches h hr] at hq
  cases hq

theorem reaches_done_iff {p : Progress H} {s : Interpreter H} {a : Answer} :
    Reaches p (.done s a) ↔ ∃ fuel, run fuel p = some (s, a) := by
  constructor
  · intro h
    generalize hq : Progress.done s a = q at h
    induction h with
    | refl => exact ⟨0, hq ▸ run_done 0 s a⟩
    | step _ ih =>
      obtain ⟨fuel, hr⟩ := ih hq
      exact ⟨fuel + 1, hr⟩
  · rintro ⟨fuel, hr⟩
    induction fuel generalizing p with
    | zero =>
      cases p with
      | running => cases hr
      | done => cases hr; exact .refl _
    | succ n ih =>
      cases p with
      | running m => exact .step (ih hr)
      | done => cases hr; exact .refl _

/-- The answer of a run is the end of every stretch that ends. -/
theorem run_eq_of_reaches {p : Progress H} {fuel : Nat} {r : Interpreter H × Answer}
    {s : Interpreter H} {a : Answer} (h : Reaches p (.done s a)) (hr : run fuel p = some r) :
    r = (s, a) := by
  have := run_of_reaches h hr
  rw [run_done] at this
  exact (Option.some.inj this).symm

/-! ## Single steps -/

/-- An error of an activation has the line of the instruction that was executed last. -/
theorem exception_eq {a : Activation} {i : Code.Instr} {line : Nat}
    (h : a.code[a.ip - 1]? = some (i, line)) (e : RuntimeError) :
    a.exception e = .runtime e a.file line := by
  rw [Activation.exception, Activation.line, Code.Chunk.lineAt, h]

/-- A step of a machine that has an instruction to execute. -/
theorem step_eq {m : Machine H} {i : Code.Instr} {line : Nat}
    (h : m.top.code[m.top.ip]? = some (i, line)) : m.step =
      match execute m.state (jumpTo m.top (m.top.ip + 1)) m.below i with
      | .next s a => .running ⟨s, a, m.below⟩
      | .stop s e => finish s m.top m.below (.error (.runtime e m.top.file line))
      | .load s source name origin =>
        load s source name origin (jumpTo m.top (m.top.ip + 1) :: m.below) := by
  have hline : ∀ e, (jumpTo m.top (m.top.ip + 1)).exception e = .runtime e m.top.file line :=
    exception_eq h
  unfold step
  rw [h]
  change (match execute m.state (jumpTo m.top (m.top.ip + 1)) m.below i with
    | .next s a => Progress.running ⟨s, a, m.below⟩
    | .stop s e => finish s (jumpTo m.top (m.top.ip + 1)) m.below
        (.error ((jumpTo m.top (m.top.ip + 1)).exception e))
    | .load s source name origin =>
      load s source name origin (jumpTo m.top (m.top.ip + 1) :: m.below)) = _
  simp only [hline]
  rfl

/-- A step of a machine whose code has come to its end. -/
theorem step_eq_finish {m : Machine H} (h : m.top.code[m.top.ip]? = none) :
    m.step = finish m.state m.top m.below (.ok ()) := by
  unfold step
  rw [h]

end Ember.Machine

/-! ## What a host can ask for -/

namespace Ember.Interpreter

variable {H : Type} [Host H] {s s' : Interpreter H} {fuel : Nat}

theorem runChunk_eq_some {code : Code.Chunk} {globals : ModuleId} {file : String}
    {r : Except LoadError Unit} : s.runChunk fuel code globals file = some (s', r) ↔
      Machine.run fuel (.running ⟨s, Activation.start file code globals none, []⟩) =
        some (s', .ran r) := by
  unfold runChunk
  rcases Machine.run fuel _ with _ | ⟨t, a | a⟩ <;> simp

theorem tryLoad_eq_some {source name : String} {r : Except LoadError ModuleId} :
    s.tryLoad fuel source name = some (s', r) ↔
      Machine.run fuel (Machine.load s source name .host []) = some (s', .loaded r) := by
  unfold tryLoad
  rcases Machine.run fuel _ with _ | ⟨t, a | a⟩ <;> simp

end Ember.Interpreter
