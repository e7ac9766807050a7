import Ember.Proofs.Machine.Nest
import Ember.Proofs.Samples

/-!
# Sessions

**Theorem (`Session.registered`).** A host that has a new interpreter asks for one load after the
other. At every moment of such a session, the registered modules are modules of the library, modules
of loads that have ended well, and modules of loads in progress, each under the name of its load. A
module whose load has failed is not registered.

The nest of loads says what names stand for (`Session.nested`). That the module of a load that has
failed is none of these other modules is a matter of numbers: each load makes a new module, so
different loads have different modules (`Session.recorded`).
-/

namespace Ember

variable {H : Type}

namespace Progress

def state : Progress H → Interpreter H
  | running m => m.state
  | done s _ => s

/-- The loads in progress. -/
def loads : Progress H → List Load
  | running m => m.loads
  | done .. => []

end Progress

namespace Interpreter

/-- Between two loads a host can do much, but it does not register modules. -/
structure Resumes (s t : Interpreter H) : Prop where
  registry : t.registry = s.registry
  active : t.active = s.active
  loadDepth : t.loadDepth = s.loadDepth
  modules : s.heap.modules.size ≤ t.heap.modules.size

variable [Host H]

/-- The load that a request begins, unless it is refused. -/
def Begins (s : Interpreter H) (source name : String) (origin : Origin) (l : Load) : Prop :=
  s.refusal? name = none ∧ l = (s.beginLoad source name origin).1

end Interpreter

namespace Machine

variable [Host H]

/-- The load that an instruction begins. -/
def Effect.Begins : Effect H → Load → Prop
  | .load s source name origin, l => s.Begins source name origin l
  | .next .., _ | .stop .., _ => False

/-- The next step begins the load `l`, if only to end it at once. -/
def Begins (m : Machine H) (l : Load) : Prop :=
  match m.top.code[m.top.ip]? with
  | none => False
  | some (i, _) => (execute m.state (jumpTo m.top (m.top.ip + 1)) m.below i).Begins l

end Machine

open Machine (Nest Tracks)

variable [Host H]

/-- A session is a sequence of loads that a host asks for, in an interpreter that was `s₀` at the
start. The loads that have begun up to now are recorded, and those of them that have ended well. -/
inductive Session (s₀ : Interpreter H) : Set Load → Set Load → Progress H → Prop
  | first {s : Interpreter H} (source name : String) : s₀.Resumes s →
    Session s₀ {l | s.Begins source name .host l} ∅ (Machine.load s source name .host [])
  | step {begun done : Set Load} {m : Machine H} : Session s₀ begun done (.running m) →
    Session s₀ (begun ∪ {l | m.Begins l}) (done ∪ {l | m.Commits l}) m.step
  | next {begun done : Set Load} {s t : Interpreter H} {a : Answer} (source name : String) :
    Session s₀ begun done (.done s a) → s.Resumes t →
    Session s₀ (begun ∪ {l | t.Begins source name .host l}) done
      (Machine.load t source name .host [])

/-! ## Modules of loads -/

namespace Machine

/-- Where there were `n` modules and the loads `ls` in progress, the loads `new` have begun. -/
structure Grows (n : Nat) (ls : List Load) (new : Set Load) (p : Progress H) : Prop where
  loads : ∀ l ∈ p.loads, l ∈ ls ∨ l ∈ new
  size : n ≤ p.state.heap.modules.size
  modules : ∀ l ∈ new, n ≤ l.module.index ∧ l.module.index < p.state.heap.modules.size
  unique : ∀ l ∈ new, ∀ k ∈ new, l = k

variable {s : Interpreter H} {below : List Activation}

theorem heap_deliver : ∀ {below : List Activation} {s : Interpreter H} {origin : Origin}
    {name : String} {r : Except LoadError ModuleId},
    (deliver s origin name r below).state.heap = s.heap
  | [], _, _, _, _ => rfl
  | a :: below, s, origin, name, r => by
    cases origin with
    | host => cases r <;> rfl
    | call => cases r <;> rfl
    | use =>
      cases r with
      | ok m => rfl
      | error cause =>
        unfold deliver
        cases a.load with
        | none => rfl
        | some l =>
          show (deliver (s.endLoad l (.error (a.exception (.importFailed name cause)))).2 l.origin
            l.name (s.endLoad l (.error (a.exception (.importFailed name cause)))).1
            below).state.heap = s.heap
          rw [heap_deliver, Interpreter.heap_endLoad]

theorem loads_deliver : ∀ {below : List Activation} {s : Interpreter H} {origin : Origin}
    {name : String} {r : Except LoadError ModuleId},
    ∀ l ∈ (deliver s origin name r below).loads, l ∈ loadsOf below
  | [], _, _, _, _, _, hl => nomatch hl
  | a :: below, s, origin, name, r, k, hk => by
    cases origin with
    | host => cases r <;> exact hk
    | call => cases r <;> exact hk
    | use =>
      cases r with
      | ok m => exact hk
      | error cause =>
        unfold deliver at hk
        cases hl : a.load with
        | none =>
          rw [hl] at hk
          cases hk
        | some l =>
          rw [hl] at hk
          rw [loadsOf_cons hl]
          exact List.mem_cons_of_mem l (loads_deliver k hk)

theorem grows_deliver {origin : Origin} {name : String} {r : Except LoadError ModuleId} :
    Grows s.heap.modules.size (loadsOf below) ∅ (deliver s origin name r below) :=
  ⟨fun l hl => .inl (loads_deliver l hl), by rw [heap_deliver], nofun, nofun⟩

theorem grows_finish {a : Activation} {o : Except LoadError Unit} :
    Grows s.heap.modules.size (loadsOf (a :: below)) ∅ (finish s a below o) := by
  unfold finish
  cases hl : a.load with
  | none => exact ⟨nofun, Nat.le_refl _, nofun, nofun⟩
  | some l =>
    rw [loadsOf_cons hl, ← Interpreter.heap_endLoad]
    refine ⟨fun k hk => .inl (List.mem_cons_of_mem l (loads_deliver k hk)), ?_, nofun, nofun⟩
    rw [heap_deliver]

theorem grows_load {source name : String} {origin : Origin} :
    Grows s.heap.modules.size (loadsOf below) {l | s.Begins source name origin l}
      (load s source name origin below) := by
  unfold load
  cases hr : s.refusal? name with
  | some r =>
    have hnone : {l | s.Begins source name origin l} = ∅ := by
      ext l
      simp [Interpreter.Begins, hr]
    rw [hnone]
    exact grows_deliver
  | none =>
    have hsize : (s.beginLoad source name origin).2.heap.modules.size =
        s.heap.modules.size + 1 := by
      rw [s.beginLoad_snd, s.size_modules_heapWithNext]
    have hmodule : (s.beginLoad source name origin).1.module.index = s.heap.modules.size := by
      rw [s.beginLoad_fst]
      rfl
    have hbegins : ∀ l, s.Begins source name origin l ↔ l = (s.beginLoad source name origin).1 :=
      fun l => and_iff_right hr
    generalize s.beginLoad source name origin = begun at *
    obtain ⟨l, t⟩ := begun
    dsimp only at *
    have hgrows : ∀ p : Progress H, p.state.heap = t.heap →
        (∀ k ∈ p.loads, k = l ∨ k ∈ loadsOf below) →
        Grows s.heap.modules.size (loadsOf below) {l | s.Begins source name origin l} p := by
      intro p hp hloads
      refine ⟨fun k hk => (hloads k hk).symm.imp_right (hbegins k).2, ?_, fun k hk => ?_,
        fun j hj k hk => ((hbegins j).1 hj).trans ((hbegins k).1 hk).symm⟩
      · rw [hp, hsize]
        exact Nat.le_succ _
      · rw [(hbegins k).1 hk, hp, hsize, hmodule]
        exact ⟨Nat.le_refl _, Nat.lt_succ_self _⟩
    cases Code.compile source (displayName name) with
    | error e =>
      refine hgrows _ ?_ fun k hk => .inr (loads_deliver k hk)
      rw [heap_deliver, Interpreter.heap_endLoad]
    | ok code => exact hgrows _ rfl fun k hk => List.mem_cons.1 hk

theorem grows_step (m : Machine H) :
    Grows m.state.heap.modules.size m.loads {l | m.Begins l} m.step := by
  unfold Begins
  cases hi : m.top.code[m.top.ip]? with
  | none =>
    rw [step_eq_finish hi]
    exact grows_finish
  | some x =>
    obtain ⟨i, line⟩ := x
    have hsize := (leftBy_execute m.state (jumpTo m.top (m.top.ip + 1)) m.below i).modules
    have hstays := stays_execute m.state (jumpTo m.top (m.top.ip + 1)) m.below i
    rw [step_eq hi]
    dsimp only
    generalize execute m.state (jumpTo m.top (m.top.ip + 1)) m.below i = effect at hsize hstays ⊢
    rw [← hsize]
    cases effect with
    | next t a =>
      have hload : a.load = m.top.load := hstays
      refine ⟨fun l hl => .inl ?_, Nat.le_refl _, nofun, nofun⟩
      rw [loads, ← loadsOf_congr hload m.below]
      exact hl
    | stop t e => exact grows_finish
    | load t source name origin =>
      show Grows t.heap.modules.size (loadsOf (jumpTo m.top (m.top.ip + 1) :: m.below))
        {l | t.Begins source name origin l}
        (load t source name origin (jumpTo m.top (m.top.ip + 1) :: m.below))
      exact grows_load

end Machine

/-! ## The record of a session -/

section

variable {s₀ s t : Interpreter H} {begun done new : Set Load} {ls : List Load} {p q : Progress H}

/-- The loads of a session are different loads of different modules. -/
structure Recorded (s₀ : Interpreter H) (begun done : Set Load) (p : Progress H) : Prop where
  done : done ⊆ begun
  loads : ∀ l ∈ p.loads, l ∈ begun
  modules : ∀ l ∈ begun, s₀.heap.modules.size ≤ l.module.index ∧
    l.module.index < p.state.heap.modules.size
  size : s₀.heap.modules.size ≤ p.state.heap.modules.size
  unique : ∀ l ∈ begun, ∀ k ∈ begun, l.module = k.module → l = k

open Machine (Grows)

omit [Host H] in
theorem Recorded.grows {n : Nat} {done' : Set Load} (h : Recorded s₀ begun done p)
    (hn : p.state.heap.modules.size ≤ n) (hls : ∀ l ∈ ls, l ∈ begun) (hg : Grows n ls new q)
    (hd : done' ⊆ begun) : Recorded s₀ (begun ∪ new) done' q where
  done l hl := .inl (hd hl)
  loads l hl := (hg.loads l hl).imp_left (hls l)
  modules l hl := by
    have hsize := h.size
    have hgrown := hg.size
    rcases hl with hl | hl
    · have hold := h.modules l hl
      omega
    · have hnew := hg.modules l hl
      omega
  size := (h.size.trans hn).trans hg.size
  unique l hl k hk hm := by
    -- An old load has a module that was there before, and a new one has not.
    have hapart : ∀ {l k : Load}, l ∈ begun → k ∈ new → l.module ≠ k.module := by
      intro l k hl hk he
      have hold := h.modules l hl
      have hnew := hg.modules k hk
      rw [he] at hold
      omega
    rcases hl with hl | hl <;> rcases hk with hk | hk
    · exact h.unique l hl k hk hm
    · exact absurd hm (hapart hl hk)
    · exact absurd hm.symm (hapart hk hl)
    · exact hg.unique l hl k hk

/-- A host asks for a load. -/
theorem Recorded.load {a : Answer} {source name : String} (h : Recorded s₀ begun done (.done s a))
    (hs : s.Resumes t) : Recorded s₀ (begun ∪ {l | t.Begins source name .host l}) done
      (Machine.load t source name .host []) := by
  have hgrows : Grows t.heap.modules.size (Machine.loadsOf [])
      {l | t.Begins source name .host l} (Machine.load t source name .host []) :=
    Machine.grows_load
  exact h.grows hs.modules (fun _ hl => absurd hl List.not_mem_nil) hgrows h.done

theorem Session.recorded (h : Session s₀ begun done p) : Recorded s₀ begun done p := by
  induction h with
  | @first s source name hs =>
    have hnone : Recorded s₀ ∅ ∅ (.done s₀ (.ran (.ok ()))) :=
      ⟨Set.Subset.rfl, nofun, nofun, Nat.le_refl _, nofun⟩
    rw [← Set.empty_union {l | s.Begins source name .host l}]
    exact hnone.load hs
  | @step begun done m _ ih =>
    refine ih.grows (Nat.le_refl _) ih.loads (Machine.grows_step m) ?_
    rintro l (hl | ⟨hl, -⟩)
    · exact ih.done hl
    · refine ih.loads l ?_
      show l ∈ Machine.loadsOf (m.top :: m.below)
      rw [Machine.loadsOf_cons hl]
      exact List.mem_cons_self ..
  | next source name _ hs ih => exact ih.load hs

/-! ## What names stand for -/

/-- The registry of a session that is at `p`. -/
inductive Nested (s₀ : Interpreter H) (done : Set Load) : Progress H → Prop
  | tracked {first : Load} {p : Progress H} : Tracks s₀ done first p → Nested s₀ done p
  | idle {s : Interpreter H} {a : Answer} : Nest s₀ done s [] → Nested s₀ done (.done s a)

omit [Host H] in
theorem Nested.nest (h : Nested s₀ done p) : Nest s₀ done p.state p.loads := by
  cases h with
  | idle hn => exact hn
  | tracked ht =>
    cases p with
    | running m => exact ht.2.2
    | done s a =>
      cases a with
      | loaded r => exact ht.2
      | ran r => exact ht.elim

theorem Nested.load {source name : String} (h : Nest s₀ done s []) (hs : s.Resumes t) :
    Nested s₀ done (Machine.load t source name .host []) := by
  have ht : Nest s₀ done t [] := h.congr hs.registry hs.active hs.loadDepth
  cases hr : t.refusal? name with
  | some c =>
    unfold Machine.load
    rw [hr]
    exact .idle ht
  | none => exact .tracked (Machine.tracks_load nofun nofun (fun _ => ⟨hr, rfl⟩) ht)

theorem Session.nested (h : Session s₀ begun done p) : Nested s₀ done p := by
  induction h with
  | first source name hs => exact Nested.load (.refl s₀ ∅) hs
  | @step begun done m _ ih =>
    cases ih with
    | tracked ht => exact .tracked ((ht.mono Set.subset_union_left).step fun l hl => .inr hl)
  | next source name _ hs ih => exact Nested.load ih.nest hs

end

/-! ## New interpreters -/

namespace Interpreter

/-- Only modules that exist are registered. -/
def Known (s : Interpreter H) : Prop :=
  ∀ name m, s.module? name = some m → m.index < s.heap.modules.size

theorem known_register {s : Interpreter H} (h : s.Known) (b : Library.Bundled) :
    (Library.register s b).Known := by
  have hregistry : (Library.register s b).registry = s.registry.set b.name s.heap.nextModule := by
    simp [Library.register, newModule, Heap.newModule_eq, setFields_eq, Interpreter.register]
  have hsize : (Library.register s b).heap.modules.size = s.heap.modules.size + 1 := by
    simp [Library.register, newModule, Heap.newModule_eq, setFields_eq, Interpreter.register]
  intro name m hm
  rw [module?, hregistry, Table.get?_set] at hm
  rw [hsize]
  split_ifs at hm
  · cases hm
    exact Nat.lt_succ_self _
  · exact Nat.lt_succ_of_lt (h name m hm)

theorem known_new (config : Config) (host : H) (resolver : Option Resolver)
    (surroundings : Surroundings) : (new config host resolver surroundings).Known := by
  have hall : ∀ (table : List Library.Bundled) (s : Interpreter H), s.Known →
      (Library.registerAll s table).Known := by
    intro table
    induction table with
    | nil => exact fun s h => h
    | cons b table ih => exact fun s h => ih _ (known_register h b)
  have hbare : (bare config host resolver surroundings).Known := nofun
  unfold new
  dsimp only
  split_ifs
  · exact hall _ _ hbare
  · exact hbare

end Interpreter

theorem Session.reaches {s₀ : Interpreter H} {begun done : Set Load} {p q : Progress H}
    (h : Session s₀ begun done p) (hr : Machine.Reaches p q) :
    ∃ begun' done', Session s₀ begun' done' q := by
  induction hr generalizing begun done with
  | refl => exact ⟨begun, done, h⟩
  | step _ ih => exact ih h.step

/-- **No module whose load failed is left registered.** In a session of a new interpreter, a
registered module is a module of the library, or the module of a load of the same name that has
ended well or is still in progress. Of a load that has ended otherwise, the module is not
registered under any name. -/
theorem Session.registered {config : Config} {host : H} {resolver : Option Resolver}
    {surroundings : Surroundings} {begun done : Set Load} {p : Progress H}
    (h : Session (.new config host resolver surroundings) begun done p) :
    (∀ name m, p.state.module? name = some m →
      (Interpreter.new config host resolver surroundings).module? name = some m ∨
        ∃ l, (l ∈ done ∨ l ∈ p.loads) ∧ l.name = name ∧ l.module = m) ∧
    (∀ l ∈ begun, l ∉ done → l ∉ p.loads → ∀ name, p.state.module? name ≠ some l.module) ∧
    ∀ s a, p = .done s a → ∀ name m, s.module? name = some m →
      (Interpreter.new config host resolver surroundings).module? name = some m ∨
        ∃ l ∈ done, l.name = name ∧ l.module = m := by
  have hnames : ∀ name m, p.state.module? name = some m →
      (Interpreter.new config host resolver surroundings).module? name = some m ∨
        ∃ l, (l ∈ done ∨ l ∈ p.loads) ∧ l.name = name ∧ l.module = m := by
    intro name m hm
    rcases h.nested.nest.names name with hn | ⟨l, hl, hname, hmodule⟩
    · exact .inl (hn.symm.trans hm)
    · exact .inr ⟨l, hl, hname, Option.some.inj (hmodule.symm.trans hm)⟩
  refine ⟨hnames, fun l hl hdone hloads name hm => ?_, ?_⟩
  · have hr := h.recorded
    rcases hnames name l.module hm with hn | ⟨k, hk, -, hmodule⟩
    · have hlow := (hr.modules l hl).1
      have hlt := Interpreter.known_new config host resolver surroundings name l.module hn
      omega
    · have hbegun : k ∈ begun := hk.elim (fun hk => hr.done hk) (hr.loads k)
      obtain rfl := hr.unique k hbegun l hl hmodule
      exact hk.elim hdone hloads
  · rintro s a rfl name m hm
    rcases hnames name m hm with hn | ⟨l, hl | hl, hname, hmodule⟩
    · exact .inl hn
    · exact .inr ⟨l, hl, hname, hmodule⟩
    · cases hl

theorem registered_stocked : ∃ begun done s x,
    Session Interpreter.stocked begun done (.done s (.loaded (.ok x))) ∧
    ∀ name m, s.module? name = some m → Interpreter.stocked.module? name = some m ∨
      ∃ l ∈ done, l.name = name ∧ l.module = m := by
  have hrun : ∃ s x, Machine.run 1 (Machine.load Interpreter.stocked "" "a" .host []) =
      some (s, .loaded (.ok x)) := by
    simp only [Machine.load, Code.compile_empty]
    exact ⟨_, _, rfl⟩
  obtain ⟨s, x, hrun⟩ := hrun
  have hfirst : Session Interpreter.stocked {l | Interpreter.stocked.Begins "" "a" .host l} ∅
      (Machine.load Interpreter.stocked "" "a" .host []) :=
    .first "" "a" ⟨rfl, rfl, rfl, Nat.le_refl _⟩
  obtain ⟨begun, done, h⟩ := hfirst.reaches (Machine.reaches_done_iff.2 ⟨1, hrun⟩)
  exact ⟨begun, done, s, x, h, (Session.registered h).2.2 s _ rfl⟩

end Ember
