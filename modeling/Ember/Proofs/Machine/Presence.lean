import Ember.Proofs.Heap.Reachability
import Ember.Proofs.Machine.Calls
import Ember.Proofs.Samples

/-!
# Modules at work stay

**Theorem (`present_at_work`).** At every moment of a run, the module whose code runs, the modules
to which calls in progress return, and the modules of loads in progress are alive, whatever their
names stand for by then. So a call of a function that code of one of these modules has made does not
fail for want of the function's module.

A function does not keep its module, and a load can give the module's name to another one. What
keeps a module at work are the activations themselves: an activation refers to its globals, a call
in progress to those of its caller, and a load to its module. By the discipline of calls
(`calls_in_order`) these are the modules that defined the functions that run.
-/

namespace Ember

variable {H : Type}

namespace Machine

/-- Code that is in progress in these activations runs on the fields of the module, or its load is
in progress. -/
inductive AtWork (activations : List Activation) (x : ModuleId) : Prop
  | runs {a : Activation} {c : Code.Chunk × ModuleId} :
    a ∈ activations → c ∈ a.contexts → c.2 = x → AtWork activations x
  | loads {l : Load} : l ∈ loadsOf activations → l.module = x → AtWork activations x

variable {s : Interpreter H} {a : Activation} {activations below : List Activation} {x : ModuleId}

/-! ## What keeps a module -/

theorem mem_nodes_of_context {c : Code.Chunk × ModuleId} (hc : c ∈ a.contexts) :
    .module c.2 ∈ a.nodes := by
  rcases List.mem_cons.1 hc with rfl | hc
  · exact List.mem_cons_self ..
  · obtain ⟨f, hf, rfl⟩ := List.mem_map.1 hc
    have hframe : .module f.globals ∈ Activation.frameNodes f := List.mem_cons_self ..
    exact List.mem_cons_of_mem _ (List.mem_append_left _
      (List.mem_append_right _ (List.mem_flatMap.2 ⟨f, hf, hframe⟩)))

theorem mem_nodes_of_load {l : Load} (hl : a.load = some l) : .module l.module ∈ a.nodes := by
  have hload : .module l.module ∈ Activation.loadNodes l := List.mem_cons_self ..
  refine List.mem_cons_of_mem _ (List.mem_append_right _ ?_)
  rw [hl]
  exact List.mem_flatMap.2 ⟨l, List.mem_singleton_self l, hload⟩

/-- The activations refer to the modules at work. -/
theorem AtWork.mem_nodes (h : AtWork activations x) :
    .module x ∈ activations.flatMap Activation.nodes := by
  cases h with
  | runs ha hc hx => exact List.mem_flatMap.2 ⟨_, ha, hx ▸ mem_nodes_of_context hc⟩
  | loads hl hx =>
    obtain ⟨a, ha, hl⟩ := List.mem_filterMap.1 hl
    exact List.mem_flatMap.2 ⟨a, ha, hx ▸ mem_nodes_of_load hl⟩

/-- **A module at work is alive**, whatever the state is otherwise. -/
theorem AtWork.alive (h : AtWork activations x) (s : Interpreter H) (values : List Value) :
    s.alive activations values x = true := by
  rw [s.alive_eq]
  exact Heap.alive_of_mem (List.mem_append_left _ (List.mem_append_right _ h.mem_nodes))

theorem AtWork.jump (h : AtWork (a :: below) x) (ip : Nat) : AtWork (jumpTo a ip :: below) x := by
  cases h with
  | @runs b c hb hc hx =>
    rcases List.mem_cons.1 hb with rfl | hb
    · exact .runs (List.mem_cons_self ..) (c := c) hc hx
    · exact .runs (List.mem_cons_of_mem _ hb) hc hx
  | loads hl hx => exact .loads hl hx

/-! ## Calls -/

section

variable [Host H] {n : Nat} {k : FunctionId} {f : Function}

/-- The call of a function whose module is at work fails only because of the number of arguments or
of calls. -/
theorem execute_call (hk : s.stack[n]? = some (.function k)) (hf : s.heap.function? k = some f)
    (hx : AtWork (a :: below) f.home) : execute s a below (.call n) =
      let t := { s with stack := s.stack.drop (n + 1) }
      if n ≠ f.params.length then .stop t (.arity f.name f.params.length n)
      else if s.config.maxCallDepth ≤ a.frames.length then .stop t .callDepth
      else .next t (enter t a f (s.stack.take n).reverse) := by
  obtain ⟨hn, hcallee⟩ := List.getElem?_eq_some_iff.1 hk
  have hdrop : s.stack.drop n = .function k :: s.stack.drop (n + 1) := by
    rw [List.drop_eq_getElem_cons hn, hcallee]
  have hpop : s.popMany n = (.ok (s.stack.take n).reverse, { s with stack := s.stack.drop n }) :=
    if_neg (Nat.not_lt_of_lt hn)
  have hlength : (s.stack.take n).reverse.length = n := by
    rw [List.length_reverse, List.length_take_of_le hn.le]
  simp only [execute, hpop, withOne, hdrop, call]
  rw [show Heap.function? _ k = some f from hf]
  simp only [callFunction, hlength, hx.alive, if_true]

/-! ## Functions that a run makes -/

/-- The next step makes the function `k`, which becomes an operand. -/
structure Makes (m : Machine H) (k : FunctionId) : Prop where
  instruction : ∃ name params body line,
    m.top.code[m.top.ip]? = some (.makeFunction name params body, line)
  given : m.step.state.stack.head? = some (.function k)

/-- A function belongs to the module whose code makes it. -/
theorem Makes.function? {m : Machine H} (h : m.Makes k) :
    ∃ f, f.home = m.top.globals ∧ m.step.state.heap.function? k = some f := by
  obtain ⟨⟨name, params, body, line, hi⟩, hgiven⟩ := h
  rw [step_eq hi] at hgiven ⊢
  obtain rfl : k = ⟨m.state.heap.functions.size⟩ := by cases hgiven; rfl
  exact ⟨⟨name, params, body, m.top.globals⟩, rfl, Array.getElem?_push_size⟩

/-! ## Runs -/

variable {p q : Progress H}

theorem precedes_reaches (hr : Reaches p q) : p.state.Precedes q.state :=
  holds_iff.1 ((precedes_invariant p.state).reaches (holds_iff.2 (.refl p.state)) hr)

/-- **A running function never loses its module.** At every moment of a run,

* in each activation, the code of functions runs on the fields of the modules that defined them,
  and outside of calls the body of a module runs;
* all these modules are alive, and so are the modules of the loads in progress;
* a call of a function whose module is one of them does not fail because its module is gone;
* a function that code has made earlier in the run is a function of the module that this code ran
  on. -/
theorem present_at_work (hp : Asked s p) (hq : Reaches p q) :
    (∀ a ∈ q.activations, ∃ code globals calls, Body p a.file a.load code globals ∧
      a.contexts = calls ++ [(code, globals)] ∧
      ∀ c ∈ calls, ∃ k f, q.state.heap.function? k = some f ∧ c = (f.code, f.home)) ∧
    (∀ a ∈ q.activations, ∀ c ∈ a.contexts, ∀ values,
      q.state.alive q.activations values c.2 = true) ∧
    (∀ l ∈ q.loads, ∀ values, q.state.alive q.activations values l.module = true) ∧
    (∀ m n line k f, q = .running m → m.top.code[m.top.ip]? = some (.call n, line) →
      m.state.stack[n]? = some (.function k) → m.state.heap.function? k = some f →
      AtWork q.activations f.home → ∀ t name,
        execute m.state (jumpTo m.top (m.top.ip + 1)) m.below (.call n) ≠
          .stop t (.misuse (.moduleGone name))) ∧
    ∀ w k, Reaches p (.running w) → w.Makes k → Reaches w.step q →
      ∃ f, q.state.heap.function? k = some f ∧ f.home = w.top.globals := by
  refine ⟨fun a ha => ?_, fun a ha c hc => ?_, fun l hl => ?_, ?_, fun w k _ hk hr => ?_⟩
  · obtain ⟨code, globals, hbody, hcalling⟩ := calls_in_order hp hq a ha
    obtain ⟨calls, hcalls, hfunctions⟩ := hcalling.contexts
    exact ⟨code, globals, calls, hbody, hcalls, hfunctions⟩
  · exact (AtWork.runs ha hc rfl).alive q.state
  · have hloads : l ∈ loadsOf q.activations := by
      cases q with
      | running m => exact hl
      | done t r => cases hl
    exact (AtWork.loads hloads rfl).alive q.state
  · rintro m n line k f rfl - hk hf hx t name hstop
    rw [execute_call hk hf (hx.jump _)] at hstop
    dsimp only at hstop
    split_ifs at hstop <;> cases hstop
  · obtain ⟨f, hhome, hf⟩ := hk.function?
    exact ⟨f, (precedes_reaches hr).functions k f hf, hhome⟩

end

/-! ## A module that is replaced while it runs -/

/-- After so many steps the run goes on, from a machine with the property. -/
def Arrives [Host H] (P : Machine H → Prop) : Nat → Progress H → Prop
  | _, .done .. => False
  | 0, .running m => P m
  | steps + 1, .running m => Arrives P steps m.step

theorem Arrives.step [Host H] {P : Machine H → Prop} {steps : Nat} {m : Machine H}
    (h : Arrives P steps m.step) : Arrives P (steps + 1) (.running m) := h

theorem Arrives.reaches [Host H] {P : Machine H → Prop} {steps : Nat} {p : Progress H}
    (h : Arrives P steps p) : ∃ m, Reaches p (.running m) ∧ P m := by
  induction steps generalizing p with
  | zero =>
    cases p with
    | running m => exact ⟨m, .refl _, h⟩
    | done s r => exact h.elim
  | succ steps ih =>
    cases p with
    | running m =>
      obtain ⟨w, hw, hP⟩ := ih h
      exact ⟨w, .step hw, hP⟩
    | done s r => exact h.elim

/-- Code that runs on a module with the name `a` makes a function, loads another module under this
name, and calls the function. -/
theorem present_at_work_reload : ∃ (s : Interpreter Capture) (p : Progress Capture)
    (m : Machine Capture) (f : Function), Asked s p ∧ Reaches p (.running m) ∧
    s.module? "a" = some ⟨0⟩ ∧ m.state.module? "a" = some ⟨1⟩ ∧ m.top.globals = ⟨0⟩ ∧
    m.top.code[m.top.ip]? = some (.call 0, 1) ∧ m.state.stack[0]? = some (.function ⟨0⟩) ∧
    m.state.heap.function? ⟨0⟩ = some f ∧ f.home = ⟨0⟩ ∧
    (∀ values, m.state.alive (m.top :: m.below) values ⟨0⟩ = true) ∧
    ∀ t name, execute m.state (jumpTo m.top (m.top.ip + 1)) m.below (.call 0) ≠
      .stop t (.misuse (.moduleGone name)) := by
  obtain ⟨code, harrives⟩ : ∃ code, Arrives (fun m : Machine Capture =>
      m.state.module? "a" = some ⟨1⟩ ∧ m.top.globals = ⟨0⟩ ∧
      m.top.code[m.top.ip]? = some (.call 0, 1) ∧ m.state.stack[0]? = some (.function ⟨0⟩) ∧
      ∃ f, m.state.heap.function? ⟨0⟩ = some f ∧ f.home = ⟨0⟩) 7
      (.running ⟨Interpreter.sample.register "a" ⟨0⟩, .start "a" code ⟨0⟩ none, []⟩) := by
    refine ⟨#[(.makeFunction "f" [] #[(.push .nil, 1), (.ret, 1)], 1),
      (.push (.native .execModule), 1), (.push (.text ""), 1), (.push (.text "a"), 1),
      (.call 2, 1), (.pop, 1), (.call 0, 1)], ?_⟩
    -- The fifth instruction asks for the load.
    iterate 5 refine Arrives.step ?_
    rw [step_eq rfl]
    change Arrives _ 2 (Machine.load (_ : Interpreter Capture) "" "a" .call _)
    rw [load_eq_running rfl (Code.compile_empty _)]
    iterate 2 refine Arrives.step ?_
    exact ⟨rfl, rfl, rfl, rfl, _, rfl, rfl⟩
  have hp : Asked (Interpreter.sample.register "a" ⟨0⟩) _ := .chunk "a" code ⟨0⟩
  obtain ⟨m, hm, hname, hglobals, hi, hcallee, f, hf, hhome⟩ := harrives.reaches
  obtain ⟨-, halive, -, hcalls, -⟩ := present_at_work hp hm
  have hruns : (m.top.code, m.top.globals) ∈ m.top.contexts := List.mem_cons_self ..
  have hwork : AtWork (m.top :: m.below) f.home :=
    .runs (List.mem_cons_self ..) hruns (hglobals.trans hhome.symm)
  refine ⟨_, _, m, f, hp, hm, rfl, hname, hglobals, hi, hcallee, hf, hhome, ?_,
    hcalls m 0 1 ⟨0⟩ f rfl hi hcallee hf hwork⟩
  rw [← hglobals]
  exact halive m.top (List.mem_cons_self ..) _ hruns

end Machine

end Ember
