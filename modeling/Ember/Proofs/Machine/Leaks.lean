import Mathlib
import Ember.Proofs.Heap.Cycles
import Ember.Proofs.Machine.Isolation
import Ember.Proofs.Machine.Origins
import Ember.Proofs.Machine.Transactions
import Ember.Proofs.Samples

/-!
# What keeps modules alive

**Theorem (`Past.kept`).** A host that has a new interpreter asks for one load after the other. When
no load is in progress, the modules that are alive are those that can be reached from a registered
module, or from one that a kept error shows, and those that can be reached from a cycle. The cycles
go back to steps that have closed them: a step gives a field of a module the module itself as its
value, or another one that the module can be reached from.

There are such steps. An `import` of a module in itself is refused, but an attribute of a module can
be given the module itself, and then it stays alive when nothing else leads to it (`leaked`).

A cycle is followed back through the run. The step that has made the last of its edges has closed it
(`Explained.step`), because the other edges were there before.
-/

namespace Ember

open Machine (Reaches)
open Relation (ReflTransGen TransGen)

variable {H : Type}

/-! ## What modules hold -/

namespace Heap

variable {h : Heap} {x y z : ModuleId}

theorem holds_newModule (hxy : h.newModule.2.Holds x y) : h.Holds x y := by
  obtain ⟨key, hkey⟩ := hxy
  refine ⟨key, ?_⟩
  rw [field?, fields, newModule_eq, Array.getElem?_push] at hkey
  split_ifs at hkey
  · cases hkey
  · exact hkey

theorem holds_setField {name : String} {v : Value} (hxy : (h.setField z name v).Holds x y) :
    h.Holds x y ∨ x = z ∧ v = .module y := by
  obtain ⟨key, hkey⟩ := hxy
  by_cases hx : z = x
  · rcases h.eq_or_field?_of_setField hkey with hv | hkey
    · exact .inr ⟨hx.symm, hv.symm⟩
    · exact .inl ⟨key, hkey⟩
  · rw [field?, h.fields_setField_of_ne hx] at hkey
    exact .inl ⟨key, hkey⟩

/-- Values that refer to nothing make no module hold another one. -/
theorem holds_setFields {fields : List (String × Value)} (hf : ∀ f ∈ fields, f.2.node? = none)
    (hxy : (h.setFields z fields).Holds x y) : h.Holds x y := by
  unfold setFields at hxy
  induction fields generalizing h with
  | nil => exact hxy
  | cons f fs ih =>
    obtain ⟨hfirst, hrest⟩ := List.forall_mem_cons.1 hf
    refine (holds_setField (ih hrest hxy)).resolve_right ?_
    rintro ⟨-, hv⟩
    rw [hv] at hfirst
    cases hfirst

end Heap

theorem Interpreter.holds_heapWithNext {s : Interpreter H} {source name : String} {x y : ModuleId}
    (h : (s.heapWithNext source name).Holds x y) : s.heap.Holds x y := by
  refine Heap.holds_newModule (Heap.holds_setFields ?_ h)
  simp [metadata, Value.node?]

/-! ## One step -/

namespace Machine

/-- The next step gives a field of a module a value. -/
inductive Puts (m : Machine H) (x : ModuleId) (name : String) (v : Value) : Prop
  /-- By a name, outside of calls. -/
  | bind {line : Nat} {rest : List Value} : m.top.code[m.top.ip]? = some (.store name, line) →
    m.state.stack = v :: rest → m.top.frames = [] → m.top.globals = x → Puts m x name v
  /-- By an attribute. -/
  | setAttribute {line : Nat} {rest : List Value} :
    m.top.code[m.top.ip]? = some (.setAttribute name, line) →
    m.state.stack = .module x :: v :: rest → Puts m x name v

/-- It gives one field one value. -/
theorem Puts.unique {m : Machine H} {x x' : ModuleId} {name name' : String} {v v' : Value}
    (h : m.Puts x name v) (h' : m.Puts x' name' v') : x = x' ∧ v = v' := by
  cases h with
  | bind hi hs _ hx =>
    cases h' with
    | bind hi' hs' _ hx' =>
      rw [hs] at hs'
      exact ⟨hx.symm.trans hx', (List.cons.inj hs').1⟩
    | setAttribute hi' =>
      rw [hi] at hi'
      cases hi'
  | setAttribute hi hs =>
    cases h' with
    | bind hi' =>
      rw [hi] at hi'
      cases hi'
    | setAttribute hi' hs' =>
      rw [hs] at hs'
      cases hs'
      exact ⟨rfl, rfl⟩

/-- The next step closes a cycle: a module comes to hold itself, or another one from which it can
be reached. -/
def Closes (m : Machine H) (x : ModuleId) : Prop :=
  x.index < m.state.heap.modules.size ∧
    ∃ name y, m.Puts x name (.module y) ∧ ReflTransGen m.state.heap.Holds y x

section

variable [Host H] {s : Interpreter H} {m : Machine H} {below : List Activation} {x y : ModuleId}

theorem heap_put {name : String} {v : Value} (h : m.Puts x name v) :
    m.step.state.heap = m.state.heap.setField x name v := by
  cases h with
  | bind hi hs hf hx =>
    have hframes : (jumpTo m.top (m.top.ip + 1)).frames = [] := hf
    rw [step_eq hi]
    unfold execute
    simp only [withOne, hs, store, hframes]
    rw [← hx]
    rfl
  | setAttribute hi hs =>
    rw [step_eq hi]
    unfold execute
    simp only [withTwo, withOne, hs]
    rfl

/-- **A step that closes a cycle makes one.** -/
theorem Closes.step (h : m.Closes x) : TransGen m.step.state.heap.Holds x x := by
  obtain ⟨hx, name, y, hput, hpath⟩ := h
  rw [heap_put hput]
  have hedge : (m.state.heap.setField x name (.module y)).Holds x y := by
    refine ⟨name, ?_⟩
    rw [Heap.field?, Heap.fields_setField_self _ hx, Table.get?_set, if_pos rfl]
  refine .head' hedge (path_of_edges_from (fun a c ha hac => ?_) hpath)
  obtain ⟨n, hn⟩ := hac
  refine ⟨n, ?_⟩
  rw [Heap.field?, Heap.fields_setField_of_ne _ ha.symm]
  exact hn

theorem holds_execute {i : Code.Instr} {line : Nat} (hi : m.top.code[m.top.ip]? = some (i, line))
    (h : (execute m.state (jumpTo m.top (m.top.ip + 1)) m.below i).state.heap.Holds x y) :
    m.state.heap.Holds x y ∨ ∃ name, m.Puts x name (.module y) := by
  have hacts := acts_execute m.state (jumpTo m.top (m.top.ip + 1)) m.below i
  generalize execute m.state (jumpTo m.top (m.top.ip + 1)) m.below i = effect at hacts h
  cases hacts with
  | give _ _ _ ht =>
    rw [show (Effect.next _ _ : Effect H).state.heap = _ from ht.heap] at h
    exact .inl h
  | @bind name v rest hname hs hf =>
    rcases Heap.holds_setField h with h | ⟨hx, hv⟩
    · exact .inl h
    · exact .inr ⟨name, .bind (hname ▸ hi) (hv ▸ hs) hf hx.symm⟩
  | @setAttribute name z v rest hname hs =>
    rcases Heap.holds_setField h with h | ⟨hx, hv⟩
    · exact .inl h
    · exact .inr ⟨name, .setAttribute (hname ▸ hi) (hx ▸ hv ▸ hs)⟩
  | _ => exact .inl h

theorem holds_load {source name : String} {origin : Origin}
    (h : (load s source name origin below).state.heap.Holds x y) : s.heap.Holds x y := by
  have hbegun : (s.beginLoad source name origin).2.heap = s.heapWithNext source name := by
    rw [s.beginLoad_snd]
  unfold load at h
  cases hr : s.refusal? name with
  | some r =>
    rw [hr] at h
    dsimp only at h
    rw [heap_deliver] at h
    exact h
  | none =>
    rw [hr] at h
    dsimp only at h
    cases hc : Code.compile source (displayName name) with
    | ok code =>
      rw [hc] at h
      change (s.beginLoad source name origin).2.heap.Holds x y at h
      rw [hbegun] at h
      exact Interpreter.holds_heapWithNext h
    | error e =>
      rw [hc] at h
      dsimp only at h
      rw [heap_deliver, Interpreter.heap_endLoad, hbegun] at h
      exact Interpreter.holds_heapWithNext h

/-- **A step makes a module hold another one only by giving a field this value.** -/
theorem holds_step (h : m.step.state.heap.Holds x y) :
    m.state.heap.Holds x y ∨ ∃ name, m.Puts x name (.module y) := by
  cases hi : m.top.code[m.top.ip]? with
  | none =>
    rw [step_eq_finish hi, heap_finish] at h
    exact .inl h
  | some z =>
    obtain ⟨i, line⟩ := z
    refine holds_execute hi ?_
    rw [step_eq hi] at h
    generalize execute m.state (jumpTo m.top (m.top.ip + 1)) m.below i = effect at h ⊢
    cases effect with
    | next t a => exact h
    | stop t e =>
      dsimp only at h
      rw [heap_finish] at h
      exact h
    | load t source name origin => exact holds_load h

end

/-! ## Cycles -/

/-- Each cycle of fields, also of some fields only, leads through a module that came to close a
cycle in the step of one of these machines. -/
def Explained (passed : Set (Machine H)) (h : Heap) : Prop :=
  ∀ r : ModuleId → ModuleId → Prop, (∀ a b, r a b → h.Holds a b) → ∀ x, TransGen r x x →
    ∃ m ∈ passed, ∃ y, m.Closes y ∧ TransGen r x y ∧ TransGen r y x

namespace Explained

variable {passed passed' : Set (Machine H)} {h h' : Heap}

theorem mono (he : Explained passed h) (hp : passed ⊆ passed')
    (hh : ∀ a b, h'.Holds a b → h.Holds a b) : Explained passed' h' := by
  intro r hr x hx
  obtain ⟨m, hm, hy⟩ := he r (fun a b hab => hh a b (hr a b hab)) x hx
  exact ⟨m, hp hm, hy⟩

theorem of_not_holds (hh : ∀ a b, ¬ h.Holds a b) : Explained passed h := by
  intro r hr x hx
  obtain ⟨y, hy, -⟩ := TransGen.head'_iff.1 hx
  exact absurd (hr x y hy) (hh x y)

variable [Host H]

/-- **A step explains the cycles that it makes.** -/
theorem step {m : Machine H} (he : Explained passed m.state.heap) :
    Explained (passed ∪ {m}) m.step.state.heap := by
  intro r hr x hx
  by_cases hold : ∀ a b, r a b → m.state.heap.Holds a b
  · obtain ⟨m', hm', hy⟩ := he r hold x hx
    exact ⟨m', .inl hm', hy⟩
  · -- The step has made the edge from `y` to `z`. The cycle's other edges were there before.
    push Not at hold
    obtain ⟨y, z, hyz, hnew⟩ := hold
    obtain ⟨name, hput⟩ := (holds_step (hr y z hyz)).resolve_left hnew
    let old := fun a b => r a b ∧ m.state.heap.Holds a b
    have hcases : ∀ a b, r a b → old a b ∨ a = y ∧ b = z := by
      intro a b hab
      rcases holds_step (hr a b hab) with h | ⟨n, hn⟩
      · exact .inl ⟨hab, h⟩
      · obtain ⟨hay, hbz⟩ := hn.unique hput
        exact .inr ⟨hay, Value.module.inj hbz⟩
    have hr' : old ≤ r := fun a b hab => hab.1
    have hh : old ≤ m.state.heap.Holds := fun a b hab => hab.2
    rcases path_cases hcases hx with hcycle | ⟨hxy, hzx⟩
    · obtain ⟨m', hm', w, hw, hxw, hwx⟩ := he old hh x hcycle
      exact ⟨m', .inl hm', w, hw, TransGen.mono hr' _ _ hxw, TransGen.mono hr' _ _ hwx⟩
    · have hpath : ReflTransGen r x y := ReflTransGen.mono hr' _ _ hxy
      have hback : TransGen r y x := .head' hyz (ReflTransGen.mono hr' _ _ hzx)
      have hthere : y.index < m.state.heap.modules.size := by
        rw [← Heap.size_modules_setField _ y name (.module z), ← heap_put hput]
        exact Heap.lt_size_of_holds (hr y z hyz)
      exact ⟨m, .inr rfl, y,
        ⟨hthere, name, z, hput, ReflTransGen.mono hh _ _ (hzx.trans hxy)⟩,
        .trans_right hpath (hback.trans_left hpath), hback⟩

theorem reaches {p q : Progress H} (he : Explained passed p.state.heap) (hr : Reaches p q) :
    Explained (passed ∪ {m | Reaches p (.running m)}) q.state.heap := by
  induction hr generalizing passed with
  | refl => exact he.mono Set.subset_union_left fun _ _ h => h
  | @step m q _ ih =>
    refine (ih he.step).mono ?_ fun _ _ h => h
    rintro m' ((hm' | rfl) | hm')
    · exact .inl hm'
    · exact .inr (.refl _)
    · exact .inr (Reaches.step hm')

end Explained

end Machine

/-! ## Loads one after the other -/

open Machine (Explained)

namespace Interpreter

/-- Between two loads the host leaves modules, operands and pending errors alone. -/
structure Waits (s t : Interpreter H) : Prop where
  heap : t.heap = s.heap
  registry : t.registry = s.registry
  active : t.active = s.active
  pending : t.pending = s.pending
  stack : t.stack = s.stack
  loadDepth : t.loadDepth = s.loadDepth

/-- The state refers to the module. -/
inductive Root (s : Interpreter H) (m : ModuleId) : Prop
  | registered {name : String} : s.module? name = some m → Root s m
  | active : s.active = some m → Root s m
  | operand : .module m ∈ s.stack → Root s m
  /-- An error that is pending, or kept as the last one, holds the module. -/
  | failure {e : LoadError} : s.pending = some e ∨ s.lastError = some e → .module m ∈ e.values →
    Root s m

theorem mem_valueNodes {vs : List Value} {m : ModuleId} :
    .module m ∈ Activation.valueNodes vs ↔ .module m ∈ vs := by
  unfold Activation.valueNodes
  rw [List.mem_filterMap]
  constructor
  · rintro ⟨v, hv, hm⟩
    cases v <;> cases hm
    exact hv
  · exact fun h => ⟨_, h, rfl⟩

theorem mem_errorNodes {e : Option LoadError} {m : ModuleId} :
    .module m ∈ errorNodes e ↔ ∃ cause, e = some cause ∧ .module m ∈ cause.values := by
  unfold errorNodes
  simp only [List.mem_flatMap, Option.mem_toList, mem_valueNodes]

theorem mem_nodes {s : Interpreter H} {m : ModuleId} : .module m ∈ s.nodes ↔ s.Root m := by
  unfold nodes
  simp only [List.mem_append, List.mem_map, Node.module.injEq, exists_eq_right, Table.mem_values,
    Option.mem_toList, mem_valueNodes, mem_errorNodes]
  constructor
  · rintro ((((⟨name, h⟩ | h) | h) | ⟨e, he, h⟩) | ⟨e, he, h⟩)
    · exact .registered h
    · exact .active h
    · exact .operand h
    · exact .failure (.inl he) h
    · exact .failure (.inr he) h
  · rintro (h | h | h | ⟨he | he, h⟩)
    · exact .inl (.inl (.inl (.inl ⟨_, h⟩)))
    · exact .inl (.inl (.inl (.inr h)))
    · exact .inl (.inl (.inr h))
    · exact .inl (.inr ⟨_, he, h⟩)
    · exact .inr ⟨_, he, h⟩

end Interpreter

variable [Host H]

/-- An interpreter that was `s₀` at the start has run loads that a host has asked for, one after the
other; these are the machines that have made a step. -/
inductive Past (s₀ : Interpreter H) : Set (Machine H) → Interpreter H → Prop
  | start : Past s₀ ∅ s₀
  | wait {passed : Set (Machine H)} {s t : Interpreter H} :
    Past s₀ passed s → s.Waits t → Past s₀ passed t
  | load {passed : Set (Machine H)} {s t : Interpreter H} {fuel : Nat} {source name : String}
    {r : Except LoadError ModuleId} : Past s₀ passed s →
    s.tryLoad fuel source name = some (t, r) →
    Past s₀ (passed ∪ {m | Reaches (Machine.load s source name .host []) (.running m)}) t

namespace Interpreter

/-- No load is in progress, and nothing is left over from one. -/
structure Idle (s : Interpreter H) : Prop where
  active : s.active = none
  pending : s.pending = none
  stack : s.stack = []
  loadDepth : s.loadDepth = 0

variable {s t : Interpreter H} {passed : Set (Machine H)} {fuel : Nat} {source name : String}
  {r : Except LoadError ModuleId}

theorem Idle.tryLoad (h : s.Idle) (hs : s.heap.Compiled)
    (hload : s.tryLoad fuel source name = some (t, r)) : t.Idle := by
  have ht := tryLoad_transaction hs hload
  refine ⟨ht.active.trans h.active, ?_, ht.stack.trans h.stack, ht.loadDepth.trans h.loadDepth⟩
  by_cases hr : name = "" ∨ s.config.maxLoadDepth ≤ s.loadDepth
  · rw [(ht.refused hr).1]
    exact h.pending
  · exact ht.pending hr

/-- No module holds another one, there are no functions, and no load is in progress. -/
structure Fresh (s : Interpreter H) : Prop where
  holds : ∀ x y, ¬ s.heap.Holds x y
  functions : s.heap.functions = #[]
  idle : s.Idle

theorem Fresh.register (h : s.Fresh) {b : Library.Bundled} (hb : ∀ f ∈ b.fields, f.2.node? = none) :
    (Library.register s b).Fresh := by
  have hheap : (Library.register s b).heap = (s.heap.newModule.2.setFields s.heap.nextModule
      b.fields).setFields s.heap.nextModule [("__name__", .text b.name), ("__file__", .nil)] := by
    simp [Library.register, newModule, Heap.newModule_eq, setFields_eq, Interpreter.register]
  refine ⟨?_, ?_, ?_⟩
  · intro x y hxy
    have hnames : ∀ f ∈ [("__name__", Value.text b.name), ("__file__", .nil)], f.2.node? = none := by
      simp [Value.node?]
    rw [hheap] at hxy
    have hnew := Heap.holds_setFields hb (Heap.holds_setFields hnames hxy)
    exact h.holds x y (Heap.holds_newModule hnew)
  · rw [hheap]
    simp [Heap.newModule_eq, h.functions]
  · have hidle := h.idle
    constructor <;>
      simp [Library.register, newModule, Heap.newModule_eq, setFields_eq, Interpreter.register,
        hidle.active, hidle.pending, hidle.stack, hidle.loadDepth]

theorem Fresh.registerAll (h : s.Fresh) {table : List Library.Bundled}
    (hb : ∀ b ∈ table, ∀ f ∈ b.fields, f.2.node? = none) :
    (Library.registerAll s table).Fresh := by
  unfold Library.registerAll
  induction table generalizing s with
  | nil => exact h
  | cons b table ih =>
    obtain ⟨hfirst, hrest⟩ := List.forall_mem_cons.1 hb
    exact ih (h.register hfirst) hrest

theorem fresh_new (config : Config) (host : H) (resolver : Option Resolver)
    (surroundings : Surroundings) : (new config host resolver surroundings).Fresh := by
  have hbundled : ∀ b ∈ Library.bundled, ∀ f ∈ b.fields, f.2.node? = none := by
    decide
  have hbare : (bare config host resolver surroundings).Fresh :=
    ⟨fun x y hxy => absurd (Heap.lt_size_of_holds hxy) (Nat.not_lt_zero _), rfl, rfl, rfl, rfl, rfl⟩
  unfold new
  dsimp only
  split_ifs
  · exact hbare.registerAll hbundled
  · exact hbare

end Interpreter

namespace Past

variable {s₀ s : Interpreter H} {passed : Set (Machine H)}

theorem explained (h : Past s₀ passed s) (h₀ : ∀ x y, ¬ s₀.heap.Holds x y) :
    Explained passed s.heap := by
  induction h with
  | start => exact .of_not_holds h₀
  | wait _ hw ih =>
    rw [hw.heap]
    exact ih
  | @load passed s t fuel source name r _ hload ih =>
    have hstart : Explained passed (Machine.load s source name .host []).state.heap :=
      ih.mono Set.Subset.rfl fun _ _ => Machine.holds_load
    exact hstart.reaches (Machine.reaches_done_iff.2 ⟨fuel, Interpreter.tryLoad_eq_some.1 hload⟩)

theorem sourced (h : Past s₀ passed s) (h₀ : s₀.heap.functions = #[]) :
    ∃ texts, s.Sourced texts := by
  induction h with
  | start => exact ⟨_, .of_no_functions h₀⟩
  | wait _ hw ih =>
    obtain ⟨texts, hs⟩ := ih
    refine ⟨texts, ?_, hs.unique, ?_⟩
    · rw [hw.heap]
      exact hs.made
    · rw [hw.heap]
      exact hs.functions
  | @load passed s t fuel source name r _ hload ih =>
    obtain ⟨texts, hs⟩ := ih
    exact ⟨_, Machine.sourced_of_reaches hs
      (Machine.reaches_done_iff.2 ⟨fuel, Interpreter.tryLoad_eq_some.1 hload⟩)⟩

theorem idle (h : Past s₀ passed s) (h₀ : s₀.heap.functions = #[]) (hi : s₀.Idle) : s.Idle := by
  induction h with
  | start => exact hi
  | wait _ hw ih =>
    exact ⟨hw.active.trans ih.active, hw.pending.trans ih.pending, hw.stack.trans ih.stack,
      hw.loadDepth.trans ih.loadDepth⟩
  | load hpast hload ih =>
    obtain ⟨texts, hs⟩ := hpast.sourced h₀
    exact ih.tryLoad hs.compiled hload

/-- **What keeps modules alive** when no load is in progress: registered modules, kept errors, and
cycles that steps have closed. -/
theorem kept {config : Config} {host : H} {resolver : Option Resolver}
    {surroundings : Surroundings}
    (h : Past (.new config host resolver surroundings) passed s) : s.Idle ∧
    (∀ x, s.alive [] [] x = true ↔ (∃ r, s.Root r ∧ ReflTransGen s.heap.Holds r x) ∨
      ∃ y, TransGen s.heap.Holds y y ∧ ReflTransGen s.heap.Holds y x) ∧
    (∀ x, TransGen s.heap.Holds x x → ∃ m ∈ passed, ∃ y, m.Closes y ∧
      TransGen s.heap.Holds x y ∧ TransGen s.heap.Holds y x) ∧
    ∀ m ∈ passed, ∀ x, m.Closes x → TransGen m.step.state.heap.Holds x x := by
  have h₀ := Interpreter.fresh_new config host resolver surroundings
  obtain ⟨texts, hs⟩ := h.sourced h₀.functions
  have hbare : s.heap.Bare := by
    intro f hf
    obtain ⟨line, body, hcode⟩ := hs.compiled f hf
    rw [hcode]
    exact Code.nodes_bodyCode line body
  refine ⟨h.idle h₀.functions h₀.idle, fun x => ?_, fun x hx => ?_, fun m _ x hm => hm.step⟩
  · rw [Interpreter.alive_eq, hbare.alive_iff]
    simp only [List.flatMap_nil, Activation.valueNodes, List.filterMap_nil, List.append_nil,
      Interpreter.mem_nodes]
  · exact h.explained h₀.holds _ (fun a b hab => hab) x hx

/-! ## A cycle that keeps itself -/

/-- A new interpreter without the modules of the library, which knows an empty source for every
module. -/
def blank : Interpreter Capture :=
  .new { Config.default with bundleBuiltins := false } .unlimited (some fun _ => some "")
    (.ofLists [] [] "/" 0)

/-- The first load makes the module `a` hold itself and forgets it, and the second one puts another
module under its name. -/
theorem blank_tryLoad : ∃ s t m n,
    blank.tryLoad 9 "import a\na.x := a\nlet a := nil" "main" = some (s, .ok m) ∧
    s.tryLoad 1 "" "a" = some (t, .ok n) ∧ t.heap.functions = #[] ∧
    t.heap.field? ⟨1⟩ "x" = some (.module ⟨1⟩) ∧
    (t.heap.reached t.nodes).contains (.module ⟨1⟩) = false := by
  have hc : Code.compile "import a\na.x := a\nlet a := nil" (displayName "main") =
      .ok #[(.use "a", 1), (.store "a", 1), (.load "a", 2), (.load "a", 2),
        (.setAttribute "x", 2), (.push .nil, 3), (.store "a", 3)] := by cbv
  simp only [Interpreter.tryLoad_eq_some]
  -- The states are those that the runs lead to.
  apply Exists.intro
  apply Exists.intro
  apply Exists.intro
  apply Exists.intro
  apply And.intro
  · rw [Machine.load_eq_running rfl hc, Machine.run, Machine.step_eq rfl]
    change Machine.run 8 (Machine.load _ "" "a" .use _) = _
    rw [Machine.load_eq_running rfl (Code.compile_empty _)]
    exact rfl
  apply And.intro
  · rw [Machine.load_eq_running rfl (Code.compile_empty _)]
    exact rfl
  · exact ⟨rfl, rfl, rfl⟩

/-- A module that holds itself stays alive when nothing leads to it any more. -/
theorem leaked : ∃ s t m n x,
    blank.tryLoad 9 "import a\na.x := a\nlet a := nil" "main" = some (s, .ok m) ∧
    s.tryLoad 1 "" "a" = some (t, .ok n) ∧ t.heap.Holds x x ∧ t.alive [] [] x = true ∧
    ¬ ∃ r, t.Root r ∧ ReflTransGen t.heap.Holds r x := by
  obtain ⟨s, t, m, n, hfirst, hsecond, hfunctions, hfield, hreached⟩ := blank_tryLoad
  have hbare : t.heap.Bare := by
    intro f hf
    rw [hfunctions] at hf
    simp at hf
  have hcycle : t.heap.Holds ⟨1⟩ ⟨1⟩ := ⟨"x", hfield⟩
  refine ⟨s, t, m, n, ⟨1⟩, hfirst, hsecond, hcycle, ?_, ?_⟩
  · rw [Interpreter.alive_eq]
    exact hbare.alive_iff.2 (.inr ⟨⟨1⟩, .single hcycle, .refl⟩)
  · rintro ⟨r, hr, hpath⟩
    have hmem := Heap.mem_reached.2 (hbare.reach_iff.2 ⟨r, Interpreter.mem_nodes.2 hr, hpath⟩)
    rw [← List.contains_iff_mem, hreached] at hmem
    cases hmem

/-- The module that holds itself goes back to a step. -/
theorem kept_blank : ∃ passed s, Past blank passed s ∧ s.stack = [] ∧
    ∃ m ∈ passed, ∃ y, m.Closes y ∧ TransGen s.heap.Holds y ⟨1⟩ := by
  obtain ⟨s, t, m, n, hfirst, hsecond, -, hfield, -⟩ := blank_tryLoad
  have hpast : Past blank _ t := (Past.start.load hfirst).load hsecond
  obtain ⟨hidle, -, hclosed, -⟩ := kept hpast
  obtain ⟨m, hm, y, hy, -, hback⟩ := hclosed ⟨1⟩ (.single ⟨"x", hfield⟩)
  exact ⟨_, t, hpast, hidle.stack, m, hm, y, hy, hback⟩

end Past

end Ember
