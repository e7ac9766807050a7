import Ember.Proofs.Machine.Nest
import Ember.Proofs.Machine.Safety

/-!
# Loading a module is a transaction

Whatever code a load runs, and whatever loads that code starts in turn, a load that the host asks
for changes the interpreter in few ways only (`Interpreter.Transaction`). In particular a load that
fails leaves no trace in the registry under its own name, and under other names there are only
modules of loads that ended well.

The registry, the active module and the number of loads come from the nest of loads (`Tracks`), and
the operands from the levels of calls and loads (`Keeps`).
-/

namespace Ember

open Machine (Keeps Reaches Tracks)

namespace Machine

variable {H : Type} [Host H] {s : Interpreter H} {source name : String}

theorem Tracks.reaches {s₀ : Interpreter H} {done : Set Load} {first : Load} {p q : Progress H}
    (h : Tracks s₀ done first p) (hr : Reaches p q)
    (hc : ∀ m l, Reaches p (.running m) → m.Commits l → l ∈ done) : Tracks s₀ done first q := by
  induction hr with
  | refl => exact h
  | step _ ih =>
    exact ih (h.step fun l hl => hc _ l (.refl _) hl) fun m l hm hl => hc m l (.step hm) hl

/-- A load that the host asks for starts with the operands in order. -/
theorem keeps_load (hs : s.heap.Compiled) : Keeps s.stack (load s source name .host []) := by
  unfold load
  cases s.refusal? name with
  | some r => exact rfl
  | none =>
    have hf := s.functions_beginLoad source name .host
    have hst := s.stack_beginLoad source name .host
    have hbase := s.base_beginLoad source name .host
    generalize s.beginLoad source name .host = begun at hf hst hbase
    obtain ⟨l, t⟩ := begun
    dsimp only at hf hst hbase ⊢
    cases hc : Code.compile source (displayName name) with
    | error e => exact Interpreter.stack_endLoad hbase (hst ▸ List.suffix_refl _) nofun
    | ok code =>
      obtain ⟨heights, hlevel⟩ := Code.leveled_compile hc
      have ht : t.heap.Compiled := by
        intro f hm
        rw [hf] at hm
        exact hs f hm
      rw [← hst]
      refine ⟨stacked_start l.module hlevel ht ?_, rtake_eq_self (Nat.le_refl _)⟩
      intro k hk
      cases hk
      rw [hbase, hst]

end Machine

namespace Interpreter

variable {H : Type} [Host H] {s s' : Interpreter H} {source name : String}
  {r : Except LoadError ModuleId}

/-- The loads that end well while a source text is loaded. -/
def committedIn (s : Interpreter H) (source name : String) : Set Load :=
  {l | ∃ m, Reaches (Machine.load s source name .host []) (.running m) ∧ m.Commits l}

/-- The nest of a load that the host asks for, all along its run. -/
theorem tracks_of_reaches {q : Progress H} (hr : s.refusal? name = none)
    (hq : Reaches (Machine.load s source name .host []) q) :
    Tracks s (s.committedIn source name) (s.beginLoad source name .host).1 q := by
  have htracks : Tracks s (s.committedIn source name) (s.beginLoad source name .host).1
      (Machine.load s source name .host []) :=
    Machine.tracks_load nofun nofun (fun _ => ⟨hr, rfl⟩) (.refl s _)
  exact htracks.reaches hq fun m l hm hl => ⟨m, hm, hl⟩

/-- What loading a source text as a module leaves behind, in the state `s'` and with the
outcome `r`. -/
structure Transaction (s : Interpreter H) (source name : String) (s' : Interpreter H)
    (r : Except LoadError ModuleId) : Prop where
  /-- A load that is refused changes nothing at all. -/
  refused : name = "" ∨ s.config.maxLoadDepth ≤ s.loadDepth →
    s' = s ∧ ∃ cause, r = .error (.refused cause)
  /-- After any other load no error is pending. -/
  pending : ¬ (name = "" ∨ s.config.maxLoadDepth ≤ s.loadDepth) → s'.pending = none
  active : s'.active = s.active
  loadDepth : s'.loadDepth = s.loadDepth
  stack : s'.stack = s.stack
  /-- After a failure the name stands for what it stood for before. -/
  error : ∀ e, r = .error e → s'.module? name = s.module? name
  /-- After success it stands for the module. -/
  ok : ∀ m, r = .ok m → s'.module? name = some m
  /-- Another name stands for what it stood for before, or for the module of a load of that name
  that has ended well in between. -/
  others : ∀ n, n ≠ name → s'.module? n = s.module? n ∨
    ∃ l ∈ s.committedIn source name, l.name = n ∧ s'.module? n = some l.module
  /-- If the source does not compile, then the load fails, all names stand for what they stood for
  before, and the modules that were there have the fields that they had. -/
  uncompiled : ∀ e, Code.compile source (displayName name) = .error e →
    (∃ cause, r = .error cause) ∧ (∀ n, s'.module? n = s.module? n) ∧
      ∀ m, m.index < s.heap.modules.size → s'.heap.fields m = s.heap.fields m

theorem load_of_refusal {c : Refusal} (hc : s.refusal? name = some c) :
    Machine.load s source name .host [] = .done s (.loaded (.error (.refused c))) := by
  unfold Machine.load
  rw [hc]
  rfl

/-- A load that is refused. -/
theorem transaction_of_refusal {c : Refusal} (hc : s.refusal? name = some c) :
    s.Transaction source name s (.error (.refused c)) where
  refused _ := ⟨rfl, c, rfl⟩
  pending h := by
    rw [refusal?_eq_none_iff.2 h] at hc
    cases hc
  active := rfl
  loadDepth := rfl
  stack := rfl
  error _ _ := rfl
  ok := nofun
  others _ _ := .inl rfl
  uncompiled _ _ := ⟨⟨_, rfl⟩, fun _ => rfl, fun _ _ => rfl⟩

/-- A source that does not compile. -/
theorem load_of_error {e : Code.CompileError} (hr : s.refusal? name = none)
    (hc : Code.compile source (displayName name) = .error e) : ∃ t cause,
    Machine.load s source name .host [] = .done t (.loaded (.error cause)) ∧
      ∀ m, m.index < s.heap.modules.size → t.heap.fields m = s.heap.fields m := by
  simp only [Machine.load, hr, hc]
  rw [endLoad_error]
  refine ⟨_, _, rfl, fun m hm => ?_⟩
  rw [heap_trace, heap_undone, s.beginLoad_snd]
  refine s.fields_heapWithNext source name ?_
  rintro rfl
  exact lt_irrefl _ hm

/-- **Loading a module is a transaction.** -/
theorem tryLoad_transaction {fuel : Nat} (hs : s.heap.Compiled)
    (h : s.tryLoad fuel source name = some (s', r)) : s.Transaction source name s' r := by
  have hrun := Machine.reaches_done_iff.2 ⟨fuel, tryLoad_eq_some.1 h⟩
  cases hr : s.refusal? name with
  | some c =>
    rw [load_of_refusal hr] at hrun
    cases hrun
    exact transaction_of_refusal hr
  | none =>
    have htracks : Tracks s (s.committedIn source name) (s.beginLoad source name .host).1
        (Machine.load s source name .host []) :=
      Machine.tracks_load nofun nofun (fun _ => ⟨hr, rfl⟩) (.refl s _)
    obtain ⟨hended, hnest⟩ := htracks.reaches hrun fun m l hm hl => ⟨m, hm, hl⟩
    rw [s.beginLoad_fst] at hended
    refine ⟨fun hn => absurd hn (refusal?_eq_none_iff.1 hr), fun _ => hended.pending,
      hnest.active, hnest.depth, (Machine.keeps_load hs).reaches hrun, hended.error,
      fun m hm => (hended.ok m hm).2, fun n _ => ?_, fun e he => ?_⟩
    · rcases hnest.names n with hn | ⟨l, hl, hname, hm⟩
      · exact .inl hn
      · exact .inr ⟨l, hl.resolve_right List.not_mem_nil, hname, hm⟩
    · obtain ⟨t, cause, hload, hfields⟩ := load_of_error hr he
      rw [hload] at hrun
      cases hrun
      refine ⟨⟨cause, rfl⟩, fun n => ?_, hfields⟩
      rcases hnest.names n with hn | ⟨l, ⟨m, hm, -⟩ | hl, -, -⟩
      · exact hn
      · rw [hload] at hm
        cases hm
      · cases hl

theorem tryLoad_sample : sample.heap.Compiled ∧ ∃ s m,
    sample.tryLoad 1 "" "a" = some (s, .ok m) ∧ s.module? "a" = some m ∧ s.stack = [] := by
  have hs : sample.heap.Compiled := nofun
  have hrun : ∃ s m, sample.tryLoad 1 "" "a" = some (s, .ok m) := by
    simp only [tryLoad_eq_some, Machine.load, Code.compile_empty]
    exact ⟨_, _, rfl⟩
  obtain ⟨s, m, hload⟩ := hrun
  have h := tryLoad_transaction hs hload
  exact ⟨hs, s, m, hload, h.ok m rfl, h.stack⟩

end Interpreter

end Ember
