import Ember.Proofs.Machine.Invariants
import Ember.Proofs.Machine.Sessions

/-!
# Circular imports

**Theorem (`loads_in_order`).** In a run that begins with no load in progress, the number of loads
is what it says, within its limit, and the active module is that of the innermost load. The name of
every load in progress is registered, so an `import` never begins a load of such a name: modules
that import each other do not load each other for ever.

A load that fails takes its name off the registry if the name stood for nothing before. This must
not be the name of an outer load. So the invariant (`InOrder`) speaks of what each load in progress
puts back: a load whose name stood for nothing before has another name than the loads outside of it,
because the names of those were registered when it began.
-/

namespace Ember.Machine

variable {H : Type}

/-- What a host can ask of an interpreter: to load a source text, or to run a chunk. -/
inductive Asked [Host H] (s : Interpreter H) : Progress H → Prop
  | load (source name : String) : Asked s (Machine.load s source name .host [])
  | chunk (file : String) (code : Code.Chunk) (globals : ModuleId) :
    Asked s (.running ⟨s, Activation.start file code globals none, []⟩)

/-! ## The invariant -/

/-- Each load remembers the module that was active outside of it. If its name stood for nothing
before, as with an `import`, then the loads outside of it have other names. -/
def Remembered (s₀ : Interpreter H) : List Load → Prop
  | [] => True
  | l :: ls => l.enclosing = innermost s₀ ls ∧ (l.previous = none → ∀ k ∈ ls, k.name ≠ l.name) ∧
      (l.origin = .use → l.previous = none) ∧ Remembered s₀ ls

/-- The loads `ls` have begun one inside the other since the state `s₀`, and are in progress. -/
structure InOrder (s₀ s : Interpreter H) (ls : List Load) : Prop where
  config : s.config = s₀.config
  depth : s.loadDepth = ls.length
  limit : ls.length ≤ s₀.config.maxLoadDepth
  active : s.active = innermost s₀ ls
  registered : ∀ l ∈ ls, s.module? l.name ≠ none
  remembered : Remembered s₀ ls

/-- Code that no load belongs to is the outermost. -/
def Rooted : List Activation → Prop
  | [] => True
  | a :: below => (a.load = none → below = []) ∧ Rooted below

variable {s₀ s t : Interpreter H} {l : Load} {ls : List Load}

/-- An `import` inside of other loads is of another name than each of them. -/
theorem Remembered.imports : ∀ {ls : List Load}, Remembered s₀ ls →
    ls.Pairwise fun l k => l.origin = .use → l.name ≠ k.name
  | [], _ => .nil
  | _ :: _, ⟨_, hnames, huse, h⟩ =>
    .cons (fun k hk ho hn => hnames (huse ho) k hk hn.symm) h.imports

theorem loadsOf_of_load_eq_none {a : Activation} {below : List Activation}
    (h : Rooted (a :: below)) (ha : a.load = none) : loadsOf (a :: below) = [] := by
  obtain rfl := h.1 ha
  rw [loadsOf, List.filterMap_cons, ha]
  rfl

namespace InOrder

theorem refl (hs : s.loadDepth = 0) : InOrder s s [] :=
  ⟨rfl, hs, Nat.zero_le _, rfl, nofun, trivial⟩

/-- What matters of the state. -/
theorem congr (h : InOrder s₀ s ls) (hr : t.registry = s.registry) (ha : t.active = s.active)
    (hd : t.loadDepth = s.loadDepth) (hc : t.config = s.config) : InOrder s₀ t ls where
  config := hc.trans h.config
  depth := hd.trans h.depth
  limit := h.limit
  active := ha.trans h.active
  registered l hl := by
    rw [Interpreter.module?, hr]
    exact h.registered l hl
  remembered := h.remembered

theorem leftBy (h : InOrder s₀ s ls) {i : Code.Instr} (hi : LeftBy i s t) : InOrder s₀ t ls :=
  h.congr hi.registry hi.active hi.loadDepth hi.config

/-- **Undoing the innermost load leaves the names of the others registered.** -/
theorem undone (h : InOrder s₀ s (l :: ls)) : InOrder s₀ (s.undone l) ls := by
  obtain ⟨henclosing, hnames, -, hremembered⟩ := h.remembered
  refine ⟨(s.config_undone l).trans h.config, ?_, (Nat.le_succ _).trans h.limit, ?_, fun k hk => ?_,
    hremembered⟩
  · rw [s.loadDepth_undone, h.depth, List.length_cons, Nat.add_sub_cancel]
  · rw [s.active_undone]
    exact henclosing
  · by_cases hn : l.name = k.name
    · rw [← hn, s.module?_undone]
      intro hp
      exact hnames hp k hk hn.symm
    · rw [s.module?_undone_of_ne l hn]
      exact h.registered k (List.mem_cons_of_mem l hk)

variable [Host H]

theorem trace (h : InOrder s₀ s ls) (e : Interpreter.Event) : InOrder s₀ (s.trace e) ls :=
  h.congr (s.registry_trace e) (s.active_trace e) (s.loadDepth_trace e) (s.alike_trace e).config

/-- A load begins. -/
theorem beginLoad (h : InOrder s₀ s ls) (source : String) {name : String} {origin : Origin}
    (hr : s.refusal? name = none) (ho : origin = .use → s.module? name = none) :
    InOrder s₀ (s.beginLoad source name origin).2
      ((s.beginLoad source name origin).1 :: ls) := by
  have hdepth : ¬ s.config.maxLoadDepth ≤ s.loadDepth := fun hd =>
    (Interpreter.refusal?_eq_none_iff.1 hr) (.inr hd)
  rw [s.beginLoad_fst, s.beginLoad_snd]
  refine ⟨(s.alike_trace _).config.trans h.config, ?_, ?_, rfl, fun k hk => ?_, h.active,
    fun hp k hk hn => ?_, ho, h.remembered⟩
  · show s.loadDepth + 1 = _
    rw [h.depth, List.length_cons]
  · rw [h.config, h.depth] at hdepth
    rw [List.length_cons]
    omega
  · rw [Interpreter.module?, Table.get?_set]
    by_cases hn : name = k.name
    · rw [if_pos hn]
      exact Option.some_ne_none _
    · rw [if_neg hn]
      rcases List.mem_cons.1 hk with rfl | hk
      · exact absurd rfl hn
      · exact h.registered k hk
  · -- A name that stands for nothing is not that of a load in progress.
    refine h.registered k hk ?_
    rw [hn]
    exact hp

/-- A load ends, well or not. -/
theorem endLoad (h : InOrder s₀ s (l :: ls)) (o : Except LoadError Unit) :
    InOrder s₀ (s.endLoad l o).2 ls := by
  rcases s.endLoad_cases l o with ⟨-, -, he⟩ | he
  · obtain ⟨henclosing, -, -, hremembered⟩ := h.remembered
    have hleft : InOrder s₀ (s.leaveLoad l) ls := by
      refine ⟨h.config, ?_, (Nat.le_succ _).trans h.limit, henclosing,
        fun k hk => h.registered k (List.mem_cons_of_mem l hk), hremembered⟩
      show s.loadDepth - 1 = _
      rw [h.depth, List.length_cons, Nat.add_sub_cancel]
    rw [he]
    exact hleft.trace _
  · rw [he]
    exact h.undone.trace _

end InOrder

/-! ## Runs -/

section Runs

variable [Host H]

/-- Code that no load belongs to stays the outermost. -/
theorem rooted_invariant : Invariant fun (_ : Interpreter H) => Rooted where
  next := by
    intro s t a b below i line h hi he
    have hstays := stays_execute s (jumpTo a (a.ip + 1)) below i
    rw [he] at hstays
    exact ⟨fun hb => h.1 (hstays.symm.trans hb), h.2⟩
  stop h _ _ := h
  asks h _ _ := h
  begins h _ _ _ _ := ⟨nofun, h⟩
  receives h _ _ _ := h
  ends h _ _ := h.2
  stops _ _ := trivial

theorem Asked.rooted {p : Progress H} (h : Asked s p) :
    Holds (fun (_ : Interpreter H) => Rooted) p := by
  cases h with
  | load source name =>
    have hnone : Rooted [] := trivial
    exact rooted_invariant.load hnone fun _ code => ⟨nofun, trivial⟩
  | chunk file code globals => exact ⟨fun _ => rfl, trivial⟩

/-- What holds of the state and of the activations in progress. -/
def Nesting (s₀ s : Interpreter H) (activations : List Activation) : Prop :=
  Rooted activations ∧ InOrder s₀ s (loadsOf activations)

theorem invariant_nesting (s₀ : Interpreter H) : Invariant (Nesting s₀) where
  next := by
    intro s t a b below i line h hi he
    have hleft := leftBy_execute s (jumpTo a (a.ip + 1)) below i
    have hload : b.load = a.load := by
      have hstays := stays_execute s (jumpTo a (a.ip + 1)) below i
      rw [he] at hstays
      exact hstays
    rw [he] at hleft
    refine ⟨rooted_invariant.next h.1 hi he, ?_⟩
    rw [loadsOf_congr hload]
    exact h.2.leftBy hleft
  stop := by
    intro s t a below i line e h hi he
    have hleft := leftBy_execute s (jumpTo a (a.ip + 1)) below i
    rw [he] at hleft
    exact ⟨h.1, h.2.leftBy hleft⟩
  asks := by
    intro s t a below i line source name origin h hi he
    have hleft := leftBy_execute s (jumpTo a (a.ip + 1)) below i
    rw [he] at hleft
    exact ⟨h.1, h.2.leftBy hleft⟩
  begins := by
    intro s t a below i line source name origin h hi he hr code
    have hleft := leftBy_execute s (jumpTo a (a.ip + 1)) below i
    rw [he] at hleft
    refine ⟨rooted_invariant.begins h.1 hi he hr code, ?_⟩
    rw [loadsOf_cons rfl]
    have hinner : InOrder s₀ t (loadsOf (jumpTo a (a.ip + 1) :: below)) := h.2.leftBy hleft
    exact hinner.beginLoad source hr (module?_of_execute he)
  receives := by
    intro s a below h v e _
    exact ⟨h.1, h.2.congr rfl rfl rfl rfl⟩
  ends := by
    intro s a below l h hl o
    have hin := h.2
    rw [loadsOf_cons hl] at hin
    exact ⟨h.1.2, hin.endLoad o⟩
  stops := by
    intro s a below h ha
    have hin := h.2
    rw [loadsOf_of_load_eq_none h.1 ha] at hin
    exact ⟨trivial, hin⟩

theorem Asked.nesting {p : Progress H} (h : Asked s p) (hs : s.loadDepth = 0) :
    Holds (Nesting s) p := by
  have hstart : InOrder s s [] := .refl hs
  cases h with
  | load source name =>
    refine (invariant_nesting s).load ⟨trivial, hstart⟩ fun hr code => ⟨⟨nofun, trivial⟩, ?_⟩
    exact hstart.beginLoad source hr nofun
  | chunk file code globals => exact ⟨⟨fun _ => rfl, trivial⟩, hstart⟩

omit [Host H] in
theorem Holds.inOrder {p : Progress H} (h : Holds (Nesting s) p) : InOrder s p.state p.loads := by
  cases p with
  | running m => exact h.2
  | done t a => exact h.2

/-- **Loads in progress lie in order, and an `import` never begins a load of a name that is being
loaded.** -/
theorem loads_in_order {p q : Progress H} (hs : s.loadDepth = 0) (hp : Asked s p)
    (hq : Reaches p q) :
    q.state.loadDepth = q.loads.length ∧
    q.loads.length ≤ s.config.maxLoadDepth ∧
    q.state.active = innermost s q.loads ∧
    (∀ l ∈ q.loads, ∃ m, q.state.module? l.name = some m) ∧
    (q.loads.Pairwise fun l k => l.origin = .use → l.name ≠ k.name) ∧
    ∀ m name line l, q = .running m → m.top.code[m.top.ip]? = some (.use name, line) →
      m.Begins l → l.name = name ∧ l.origin = .use ∧ ∀ k ∈ m.loads, k.name ≠ name := by
  have h := ((invariant_nesting s).reaches (hp.nesting hs) hq).inOrder
  refine ⟨h.depth, h.limit, h.active, fun l hl => Option.ne_none_iff_exists'.1 (h.registered l hl),
    h.remembered.imports, ?_⟩
  rintro m name line l rfl hi hbegins
  unfold Begins at hbegins
  rw [hi] at hbegins
  dsimp only at hbegins
  cases he : execute m.state (jumpTo m.top (m.top.ip + 1)) m.below (.use name) with
  | next t a =>
    rw [he] at hbegins
    cases hbegins
  | stop t e =>
    rw [he] at hbegins
    cases hbegins
  | load t source n origin =>
    rw [he] at hbegins
    have hasks := asks_execute m.state (jumpTo m.top (m.top.ip + 1)) m.below (.use name)
    rw [he] at hasks
    rcases hasks with ⟨⟨k, hk⟩, -⟩ | ⟨hn, rfl, rfl, hm⟩
    · cases hk
    · cases hn
      obtain ⟨-, rfl⟩ := hbegins
      rw [Interpreter.beginLoad_fst]
      refine ⟨rfl, rfl, fun k hk hkn => h.registered k hk ?_⟩
      rw [hkn]
      exact hm

/-- A chunk that imports `b`, whose source is empty. -/
theorem loads_in_order_import : Interpreter.importing.loadDepth = 0 ∧ ∃ m l,
    Reaches (.running ⟨Interpreter.importing, Activation.start "a" #[(.use "b", 1)] ⟨0⟩ none, []⟩)
      (.running m) ∧ m.loads = [l] ∧ l.name = "b" ∧ m.state.loadDepth = 1 ∧
    ∃ x, m.state.module? "b" = some x := by
  have hs : Interpreter.importing.loadDepth = 0 := rfl
  have hstep : ∃ m l, Machine.step ⟨Interpreter.importing,
      Activation.start "a" #[(.use "b", 1)] ⟨0⟩ none, []⟩ = .running m ∧ m.loads = [l] ∧
      l.name = "b" := by
    rw [step_eq rfl]
    show ∃ m l, Machine.load Interpreter.importing "" "b" .use
      [jumpTo (Activation.start "a" #[(.use "b", 1)] ⟨0⟩ none) 1] = .running m ∧ m.loads = [l] ∧
      l.name = "b"
    simp only [Machine.load, Code.compile_empty]
    exact ⟨_, _, rfl, rfl, rfl⟩
  obtain ⟨m, l, hm, hl, hname⟩ := hstep
  have hreach := Reaches.of_step hm
  obtain ⟨hdepth, -, -, hnames, -⟩ := loads_in_order hs (.chunk "a" _ ⟨0⟩) hreach
  refine ⟨hs, m, l, hreach, hl, hname, ?_, ?_⟩
  · show (Progress.running m).state.loadDepth = 1
    rw [hdepth]
    show m.loads.length = 1
    rw [hl]
    rfl
  · rw [← hname]
    refine hnames l ?_
    show l ∈ m.loads
    rw [hl]
    exact List.mem_singleton_self l

end Runs

end Ember.Machine
