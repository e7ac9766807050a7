import Ember.Proofs.Machine.Effects
import Ember.Proofs.Machine.Runs
import Mathlib.Data.Set.Basic

/-!
# The nest of loads in progress

A load that fails puts its name back to what the name stood for before. That may be the module of
another load of the same name, which is still in progress and may fail in turn. So what names may
stand for is said of all loads in progress at once (`Nest`): a name stands for what it stood for at
the start, for the module of a load that has ended well, or for that of a load in progress; and what
a load in progress puts back is one of these, where only the loads outside of it count.

Every step keeps this (`Tracks.step`), whatever code runs.
-/

namespace Ember.Machine

variable {H : Type}

/-! ## Loads -/

/-- The loads of some activations. -/
def loadsOf (activations : List Activation) : List Load := activations.filterMap Activation.load

/-- The loads in progress, the innermost first. -/
def loads (m : Machine H) : List Load := loadsOf (m.top :: m.below)

theorem loadsOf_congr {a b : Activation} (h : a.load = b.load) (below : List Activation) :
    loadsOf (a :: below) = loadsOf (b :: below) := by
  rw [loadsOf, loadsOf, List.filterMap_cons, List.filterMap_cons, h]

theorem loadsOf_cons {a : Activation} {l : Load} (h : a.load = some l) (below : List Activation) :
    loadsOf (a :: below) = l :: loadsOf below := by
  rw [loadsOf, List.filterMap_cons, h]
  rfl

/-! ## What names stand for -/

/-- A name may stand for what it stood for in `s₀`, for the module of a load of that name in `done`,
or for that of one in progress. -/
def Stands (s₀ : Interpreter H) (done : Set Load) (ls : List Load) (name : String)
    (m : Option ModuleId) : Prop :=
  m = s₀.module? name ∨ ∃ l, (l ∈ done ∨ l ∈ ls) ∧ l.name = name ∧ m = some l.module

/-- The module that is active in the innermost load, or outside of the loads. -/
def innermost (s₀ : Interpreter H) : List Load → Option ModuleId
  | [] => s₀.active
  | l :: _ => some l.module

/-- Each load remembers what its name may stand for, and what was active, outside of it. -/
def Enclosed (s₀ : Interpreter H) (done : Set Load) : List Load → Prop
  | [] => True
  | l :: ls => Stands s₀ done ls l.name l.previous ∧ l.enclosing = innermost s₀ ls ∧
      Enclosed s₀ done ls

/-- In a state with some loads in progress that have begun since the state `s₀`, and where the
loads `done` have ended well, names stand for what they may. -/
structure Nest (s₀ : Interpreter H) (done : Set Load) (s : Interpreter H) (ls : List Load) :
    Prop where
  names : ∀ name, Stands s₀ done ls name (s.module? name)
  enclosed : Enclosed s₀ done ls
  active : s.active = innermost s₀ ls
  depth : s.loadDepth = s₀.loadDepth + ls.length

variable {s₀ s t : Interpreter H} {done done' : Set Load} {l : Load} {ls : List Load}
  {name : String} {m : Option ModuleId}

theorem Stands.mono (h : Stands s₀ done ls name m) (hd : done ⊆ done') :
    Stands s₀ done' ls name m := by
  rcases h with h | ⟨l, hl, hn, hm⟩
  · exact .inl h
  · exact .inr ⟨l, hl.imp_left fun h => hd h, hn, hm⟩

theorem Stands.cons (h : Stands s₀ done ls name m) (l : Load) :
    Stands s₀ done (l :: ls) name m := by
  rcases h with h | ⟨k, hk, hn, hm⟩
  · exact .inl h
  · exact .inr ⟨k, hk.imp_right (List.mem_cons_of_mem l), hn, hm⟩

/-- The module of a load in progress is needed by its own name only. -/
theorem Stands.of_cons_of_ne (h : Stands s₀ done (l :: ls) name m) (hn : l.name ≠ name) :
    Stands s₀ done ls name m := by
  rcases h with h | ⟨k, hk | hk, hname, hm⟩
  · exact .inl h
  · exact .inr ⟨k, .inl hk, hname, hm⟩
  · rcases List.mem_cons.1 hk with rfl | hk
    · exact absurd hname hn
    · exact .inr ⟨k, .inr hk, hname, hm⟩

/-- A load that has ended well may be counted as done. -/
theorem Stands.of_cons_of_mem (h : Stands s₀ done (l :: ls) name m) (hl : l ∈ done) :
    Stands s₀ done ls name m := by
  rcases h with h | ⟨k, hk | hk, hname, hm⟩
  · exact .inl h
  · exact .inr ⟨k, .inl hk, hname, hm⟩
  · rcases List.mem_cons.1 hk with rfl | hk
    · exact .inr ⟨k, .inl hl, hname, hm⟩
    · exact .inr ⟨k, .inr hk, hname, hm⟩

theorem Enclosed.mono (hd : done ⊆ done') : ∀ {ls : List Load}, Enclosed s₀ done ls →
    Enclosed s₀ done' ls
  | [], _ => trivial
  | _ :: _, h => ⟨h.1.mono hd, h.2.1, Enclosed.mono hd h.2.2⟩

namespace Nest

theorem refl (s : Interpreter H) (done : Set Load) : Nest s done s [] :=
  ⟨fun _ => .inl rfl, trivial, rfl, rfl⟩

theorem mono (h : Nest s₀ done s ls) (hd : done ⊆ done') : Nest s₀ done' s ls :=
  ⟨fun name => (h.names name).mono hd, h.enclosed.mono hd, h.active, h.depth⟩

/-- The registry, the active module and the number of loads are all that matters. -/
theorem congr (h : Nest s₀ done s ls) (hr : t.registry = s.registry) (ha : t.active = s.active)
    (hd : t.loadDepth = s.loadDepth) : Nest s₀ done t ls where
  names name := by
    rw [Interpreter.module?, hr]
    exact h.names name
  enclosed := h.enclosed
  active := ha.trans h.active
  depth := hd.trans h.depth

theorem leftBy (h : Nest s₀ done s ls) {i : Code.Instr} (hi : LeftBy i s t) : Nest s₀ done t ls :=
  h.congr hi.registry hi.active hi.loadDepth

theorem undone (h : Nest s₀ done s (l :: ls)) : Nest s₀ done (s.undone l) ls := by
  obtain ⟨hprevious, henclosing, henclosed⟩ := h.enclosed
  refine ⟨fun n => ?_, henclosed, ?_, ?_⟩
  · by_cases hn : l.name = n
    · rw [← hn, s.module?_undone]
      exact hprevious
    · rw [s.module?_undone_of_ne l hn]
      exact (h.names n).of_cons_of_ne hn
  · rw [s.active_undone]
    exact henclosing
  · rw [s.loadDepth_undone, h.depth, List.length_cons]
    omega

variable [Host H]

theorem trace (h : Nest s₀ done s ls) (e : Interpreter.Event) : Nest s₀ done (s.trace e) ls :=
  h.congr (s.registry_trace e) (s.active_trace e) (s.loadDepth_trace e)

/-- A load begins. -/
theorem beginLoad (h : Nest s₀ done s ls) (source name : String) (origin : Origin) :
    Nest s₀ done (s.beginLoad source name origin).2
      ((s.beginLoad source name origin).1 :: ls) := by
  rw [s.beginLoad_fst, s.beginLoad_snd]
  refine ⟨fun n => ?_, ⟨h.names name, h.active, h.enclosed⟩, rfl, ?_⟩
  · rw [Interpreter.module?, Table.get?_set]
    by_cases hn : name = n
    · rw [if_pos hn]
      exact .inr ⟨_, .inr (List.mem_cons_self ..), hn, rfl⟩
    · rw [if_neg hn]
      exact (h.names n).cons _
  · show s.loadDepth + 1 = _
    rw [h.depth, List.length_cons, Nat.add_assoc]

/-- A load ends, well or not. -/
theorem endLoad (h : Nest s₀ done s (l :: ls)) (o : Except LoadError Unit)
    (hl : (s.endLoad l o).1 = .ok l.module → l ∈ done) : Nest s₀ done (s.endLoad l o).2 ls := by
  rcases s.endLoad_cases l o with ⟨rfl, -, he⟩ | he
  · obtain ⟨-, henclosing, henclosed⟩ := h.enclosed
    rw [he] at hl ⊢
    refine Nest.trace (⟨fun n => (h.names n).of_cons_of_mem (hl rfl), henclosed, henclosing, ?_⟩ :
      Nest s₀ done (s.leaveLoad l) ls) _
    show s.loadDepth - 1 = _
    rw [h.depth, List.length_cons]
    omega
  · rw [he]
    exact h.undone.trace _

end Nest

/-! ## Steps -/

variable [Host H]

/-- The next step ends the load `l`, whose code is at its end, with success. -/
def Commits (m : Machine H) (l : Load) : Prop :=
  m.top.load = some l ∧ m.top.code[m.top.ip]? = none ∧
    (m.state.endLoad l (.ok ())).1 = .ok l.module

/-- What a load leaves behind for its own name, and that no error is pending. -/
structure Ended (l : Load) (s : Interpreter H) (r : Except LoadError ModuleId) : Prop where
  pending : s.pending = none
  ok : ∀ m, r = .ok m → m = l.module ∧ s.module? l.name = some m
  error : ∀ e, r = .error e → s.module? l.name = l.previous

theorem ended_endLoad (s : Interpreter H) (l : Load) (o : Except LoadError Unit) :
    Ended l (s.endLoad l o).2 (s.endLoad l o).1 := by
  rcases s.endLoad_cases l o with ⟨-, ⟨hname, hpending⟩, he⟩ | he
  · rw [he]
    refine ⟨?_, fun m hm => ?_, nofun⟩
    · rw [Interpreter.pending_trace]
      exact hpending
    · cases hm
      refine ⟨rfl, ?_⟩
      rw [Interpreter.module?_trace]
      exact hname
  · rw [he]
    refine ⟨?_, nofun, fun e _ => ?_⟩
    · rw [Interpreter.pending_trace, s.pending_undone]
    · rw [Interpreter.module?_trace, s.module?_undone]

/-- The nest of a run of which `first` is the outermost load. -/
def Tracks (s₀ : Interpreter H) (done : Set Load) (first : Load) : Progress H → Prop
  | .running m => (∀ a ∈ m.top :: m.below, a.load ≠ none) ∧ (∀ l ∈ m.loads.getLast?, l = first) ∧
      Nest s₀ done m.state m.loads
  | .done s (.loaded r) => Ended first s r ∧ Nest s₀ done s []
  | .done _ (.ran _) => False

section Tracks

variable {first : Load} {below : List Activation}

omit [Host H] in
theorem Tracks.mono {p : Progress H} (h : Tracks s₀ done first p) (hd : done ⊆ done') :
    Tracks s₀ done' first p := by
  cases p with
  | running m => exact ⟨h.1, h.2.1, h.2.2.mono hd⟩
  | done s a =>
    cases a with
    | loaded r => exact ⟨h.1, h.2.mono hd⟩
    | ran r => exact h

theorem tracks_deliver : ∀ {below : List Activation} {s : Interpreter H} {origin : Origin}
    {name : String} {r : Except LoadError ModuleId}, (∀ a ∈ below, a.load ≠ none) →
    (∀ l ∈ (loadsOf below).getLast?, l = first) → (below = [] → Ended first s r) →
    Nest s₀ done s (loadsOf below) → Tracks s₀ done first (deliver s origin name r below)
  | [], s, origin, name, r, _, _, hend, h => ⟨hend rfl, h⟩
  | a :: below, s, origin, name, r, hload, hfirst, _, h => by
    have hgo : ∀ t : Interpreter H, t.registry = s.registry → t.active = s.active →
        t.loadDepth = s.loadDepth → Tracks s₀ done first (.running ⟨t, a, below⟩) :=
      fun t hr ha hd => ⟨hload, hfirst, h.congr hr ha hd⟩
    cases origin with
    | host => cases r <;> exact hgo _ rfl rfl rfl
    | call => cases r <;> exact hgo _ rfl rfl rfl
    | use =>
      cases r with
      | ok m => exact hgo _ rfl rfl rfl
      | error cause =>
        obtain ⟨l, hl⟩ := Option.ne_none_iff_exists'.1 (hload a (List.mem_cons_self ..))
        rw [loadsOf_cons hl] at hfirst h
        simp only [deliver, hl]
        refine tracks_deliver (fun b hb => hload b (List.mem_cons_of_mem a hb))
          (fun k hk => hfirst k (List.mem_getLast?_cons hk)) (fun hb => ?_) (h.endLoad _ ?_)
        · subst hb
          rw [← hfirst l rfl]
          exact ended_endLoad s l _
        · rw [s.endLoad_error]
          exact nofun

theorem tracks_finish {a : Activation} {o : Except LoadError Unit}
    (hload : ∀ b ∈ a :: below, b.load ≠ none)
    (hfirst : ∀ l ∈ (loadsOf (a :: below)).getLast?, l = first)
    (h : Nest s₀ done s (loadsOf (a :: below)))
    (ho : ∀ l, a.load = some l → (s.endLoad l o).1 = .ok l.module → l ∈ done) :
    Tracks s₀ done first (finish s a below o) := by
  obtain ⟨l, hl⟩ := Option.ne_none_iff_exists'.1 (hload a (List.mem_cons_self ..))
  rw [loadsOf_cons hl] at hfirst h
  simp only [finish, hl]
  refine tracks_deliver (fun b hb => hload b (List.mem_cons_of_mem a hb))
    (fun k hk => hfirst k (List.mem_getLast?_cons hk)) (fun hb => ?_) (h.endLoad _ (ho l hl))
  subst hb
  rw [← hfirst l rfl]
  exact ended_endLoad s l _

/-- A load begins, unless it is refused; with nothing below it, it is the outermost. -/
theorem tracks_load {source : String} {origin : Origin} (hload : ∀ a ∈ below, a.load ≠ none)
    (hfirst : ∀ l ∈ (loadsOf below).getLast?, l = first)
    (hbelow : below = [] →
      s.refusal? name = none ∧ first = (s.beginLoad source name origin).1)
    (h : Nest s₀ done s (loadsOf below)) :
    Tracks s₀ done first (load s source name origin below) := by
  unfold load
  cases hr : s.refusal? name with
  | some r =>
    refine tracks_deliver hload hfirst (fun hb => ?_) h
    rw [(hbelow hb).1] at hr
    cases hr
  | none =>
    have hbegun := h.beginLoad source name origin
    have hb : below = [] → first = (s.beginLoad source name origin).1 := fun hb => (hbelow hb).2
    generalize s.beginLoad source name origin = begun at hbegun hb
    obtain ⟨l, t⟩ := begun
    dsimp only
    cases Code.compile source (displayName name) with
    | error e =>
      refine tracks_deliver hload hfirst (fun hn => hb hn ▸ ended_endLoad t l _)
        (hbegun.endLoad _ ?_)
      rw [t.endLoad_error]
      exact nofun
    | ok code =>
      refine ⟨?_, ?_, hbegun⟩
      · intro a ha
        rcases List.mem_cons.1 ha with rfl | ha
        · exact nofun
        · exact hload a ha
      · intro k hk
        cases below with
        | nil =>
          rw [hb rfl]
          exact (Option.some.inj hk).symm
        | cons b below =>
          obtain ⟨j, hj⟩ := Option.ne_none_iff_exists'.1 (hload b (List.mem_cons_self ..))
          rw [loadsOf_cons hj] at hfirst
          refine hfirst k ?_
          rw [loads, loadsOf_cons rfl, loadsOf_cons hj, List.getLast?_cons_cons] at hk
          exact hk

/-- **A step keeps the nest.** -/
theorem Tracks.step {m : Machine H} (h : Tracks s₀ done first (.running m))
    (hc : ∀ l, m.Commits l → l ∈ done) : Tracks s₀ done first m.step := by
  obtain ⟨hload, hfirst, hnest⟩ := h
  cases hi : m.top.code[m.top.ip]? with
  | none =>
    rw [step_eq_finish hi]
    exact tracks_finish hload hfirst hnest fun l hl ho => hc l ⟨hl, hi, ho⟩
  | some x =>
    obtain ⟨i, line⟩ := x
    have hleft := leftBy_execute m.state (jumpTo m.top (m.top.ip + 1)) m.below i
    have hstays := stays_execute m.state (jumpTo m.top (m.top.ip + 1)) m.below i
    rw [step_eq hi]
    generalize execute m.state (jumpTo m.top (m.top.ip + 1)) m.below i = effect at hleft hstays ⊢
    cases effect with
    | next t a =>
      have hloads : loadsOf (a :: m.below) = m.loads := loadsOf_congr hstays m.below
      refine ⟨?_, ?_, ?_⟩
      · intro b hb
        rcases List.mem_cons.1 hb with rfl | hb
        · rw [show b.load = m.top.load from hstays]
          exact hload m.top (List.mem_cons_self ..)
        · exact hload b (List.mem_cons_of_mem m.top hb)
      · rw [loads, hloads]
        exact hfirst
      · rw [loads, hloads]
        exact hnest.leftBy hleft
    | stop t e =>
      refine tracks_finish hload hfirst (hnest.leftBy hleft) fun l _ => ?_
      rw [t.endLoad_error]
      exact nofun
    | load t source name origin =>
      refine tracks_load (fun b hb => ?_) hfirst nofun (hnest.leftBy hleft)
      rcases List.mem_cons.1 hb with rfl | hb
      · exact hload m.top (List.mem_cons_self ..)
      · exact hload b (List.mem_cons_of_mem m.top hb)

end Tracks

end Ember.Machine
