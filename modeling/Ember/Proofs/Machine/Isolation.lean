import Ember.Proofs.Code.Owners
import Ember.Proofs.Machine.Calls

/-!
# Fields of modules are isolated

**Theorem (`fields_isolated`).** A module that exists keeps its fields in the rest of a run, with
whatever loads and calls of functions of any module, except where the body of the module itself, in
no call, gives one of its names a value, by an assignment, a definition of a function or an import,
and where code sets an attribute of the module. In particular no such statement in the body of a
function changes the fields of any module.

An instruction stores in the innermost call if there is one, and in the fields of the globals only
outside of calls. By the discipline of calls (`calls_in_order`) the globals are then those that the
activation was started with, and the instruction belongs to a statement of the body of the module.
-/

namespace Ember

open Code (blockCode ownerIn)

variable {H : Type}

/-! ## One instruction -/

namespace Machine

/-- The next step gives a field of a module a value. -/
inductive Writes (m : Machine H) (x : ModuleId) (name : String) : Prop
  /-- By a name, outside of calls. -/
  | bind {line : Nat} : m.top.code[m.top.ip]? = some (.store name, line) →
    m.top.frames = [] → m.top.globals = x → Writes m x name
  /-- By an attribute, of an object that is the module. -/
  | setAttribute {line : Nat} {v : Value} {rest : List Value} :
    m.top.code[m.top.ip]? = some (.setAttribute name, line) →
    m.state.stack = .module x :: v :: rest → Writes m x name

/-- A module has the same fields, or one of them has been given a value by a step of `m`. -/
def Changes (m : Machine H) (x : ModuleId) (h h' : Heap) : Prop :=
  h'.fields x = h.fields x ∨ ∃ name v, m.Writes x name ∧ h'.fields x = (h.fields x).set name v

theorem changes_setField {m : Machine H} {x y : ModuleId} {name : String} {v : Value} {h : Heap}
    (hx : x.index < h.modules.size) (hw : m.Writes y name) :
    m.Changes x h (h.setField y name v) := by
  by_cases he : y = x
  · subst he
    exact .inr ⟨name, v, hw, h.fields_setField_self hx name v⟩
  · exact .inl (h.fields_setField_of_ne he name v)

section

variable [Host H] {s : Interpreter H} {below : List Activation} {x : ModuleId}

theorem changes_execute {m : Machine H} {i : Code.Instr} {line : Nat}
    (hi : m.top.code[m.top.ip]? = some (i, line)) (hx : x.index < m.state.heap.modules.size) :
    m.Changes x m.state.heap
      (execute m.state (jumpTo m.top (m.top.ip + 1)) m.below i).state.heap := by
  have hacts := acts_execute m.state (jumpTo m.top (m.top.ip + 1)) m.below i
  generalize execute m.state (jumpTo m.top (m.top.ip + 1)) m.below i = effect at hacts ⊢
  cases hacts with
  | give _ _ _ ht =>
    refine .inl ?_
    rw [show (Effect.next _ _ : Effect H).state.heap = _ from ht.heap]
  | bind hname _ hf => exact changes_setField hx (.bind (hname ▸ hi) hf rfl)
  | setAttribute hname hs => exact changes_setField hx (.setAttribute (hname ▸ hi) hs)
  | _ => exact .inl rfl

/-! ## One step -/

theorem heap_finish {a : Activation} {o : Except LoadError Unit} :
    (finish s a below o).state.heap = s.heap := by
  unfold finish
  cases a.load with
  | none => rfl
  | some l => exact heap_deliver.trans (Interpreter.heap_endLoad o)

/-- A load makes a module, and leaves the others alone. -/
theorem fields_load (source name : String) (origin : Origin)
    (hx : x.index < s.heap.modules.size) :
    (load s source name origin below).state.heap.fields x = s.heap.fields x := by
  have hnew : x ≠ s.heap.nextModule := by
    rintro rfl
    exact lt_irrefl _ hx
  have hbegun : (s.beginLoad source name origin).2.heap.fields x = s.heap.fields x := by
    rw [s.beginLoad_snd]
    exact s.fields_heapWithNext source name hnew
  unfold load
  cases s.refusal? name with
  | some r => exact congrArg (fun h : Heap => h.fields x) heap_deliver
  | none =>
    dsimp only
    cases Code.compile source (displayName name) with
    | ok code => exact hbegun
    | error e =>
      rw [heap_deliver, Interpreter.heap_endLoad]
      exact hbegun

/-- **What a step does to the fields of a module.** -/
theorem changes_step {m : Machine H} (hx : x.index < m.state.heap.modules.size) :
    m.Changes x m.state.heap m.step.state.heap := by
  cases hi : m.top.code[m.top.ip]? with
  | none =>
    rw [step_eq_finish hi, heap_finish]
    exact .inl rfl
  | some y =>
    obtain ⟨i, line⟩ := y
    have hchanges := changes_execute hi hx
    have hsize := (leftBy_execute m.state (jumpTo m.top (m.top.ip + 1)) m.below i).modules
    rw [step_eq hi]
    generalize execute m.state (jumpTo m.top (m.top.ip + 1)) m.below i = effect at hchanges hsize ⊢
    cases effect with
    | next t a => exact hchanges
    | stop t e =>
      rw [heap_finish]
      exact hchanges
    | load t source name origin =>
      unfold Changes
      rw [fields_load source name origin (hsize.symm ▸ hx)]
      exact hchanges

/-! ## Runs -/

/-- **What a run does to the fields of a module**: it leaves a field alone, or one of its steps
gives it a value. -/
theorem field?_reaches {q r : Progress H} (name : String)
    (hx : x.index < q.state.heap.modules.size) (hr : Reaches q r) :
    r.state.heap.field? x name = q.state.heap.field? x name ∨
      ∃ m, Reaches q (.running m) ∧ Reaches m.step r ∧ m.Writes x name := by
  induction hr with
  | refl => exact .inl rfl
  | @step m r hr ih =>
    have hsize := (grows_step m).size
    rcases ih (lt_of_lt_of_le hx hsize) with hsame | ⟨m', hm, hm', hw⟩
    · rcases changes_step (m := m) hx with hfields | ⟨n, v, hw, hfields⟩
      · refine .inl (hsame.trans ?_)
        rw [Heap.field?, hfields]
        rfl
      · by_cases hn : n = name
        · subst hn
          exact .inr ⟨m, .refl _, hr, hw⟩
        · refine .inl (hsame.trans ?_)
          rw [Heap.field?, hfields, Table.get?_set, if_neg hn]
          rfl
    · exact .inr ⟨m', .step hm, hm', hw⟩

theorem fields_reaches {q r : Progress H} (hx : x.index < q.state.heap.modules.size)
    (hr : Reaches q r) : r.state.heap.fields x = q.state.heap.fields x ∨
      ∃ m name, Reaches q (.running m) ∧ Reaches m.step r ∧ m.Writes x name := by
  induction hr with
  | refl => exact .inl rfl
  | @step m r hr ih =>
    rcases ih (lt_of_lt_of_le hx (grows_step m).size) with hsame | ⟨m', n, hm, hm', hw⟩
    · rcases changes_step (m := m) hx with hfields | ⟨n, v, hw, hfields⟩
      · exact .inl (hsame.trans hfields)
      · exact .inr ⟨m, n, .refl _, hr, hw⟩
    · exact .inr ⟨m', n, .step hm, hm', hw⟩

end

/-! ## Who writes -/

/-- In a run from `p`, the next step of `m` executes an instruction of the body of the module `x`,
in no call, and gives the name a value. If the body comes from a program, then the instruction
belongs to a statement of this program, in none of its functions, that gives the name a value, and
it has the line of this statement. -/
structure Binds (p : Progress H) (m : Machine H) (x : ModuleId) (name : String) : Prop where
  body : Body p m.top.file m.top.load m.top.code x
  outside : m.top.frames = []
  statement : ∃ line, m.top.code[m.top.ip]? = some (.store name, line) ∧
    ∀ program, m.top.code = (blockCode 0 program).toArray →
      ∃ st, ownerIn 0 m.top.ip program = some st ∧ st.line = line ∧ st.binds = some name

/-- The next step of `m` gives an attribute of an object a value, and the object is the module
`x`. -/
def SetsAttribute (m : Machine H) (x : ModuleId) (name : String) : Prop :=
  ∃ line v rest, m.top.code[m.top.ip]? = some (.setAttribute name, line) ∧
    m.state.stack = .module x :: v :: rest

variable [Host H] {s : Interpreter H} {p q r : Progress H} {x : ModuleId} {name : String}

theorem Writes.cases {m : Machine H} (hp : Asked s p) (hm : Reaches p (.running m))
    (hw : m.Writes x name) : Binds p m x name ∨ m.SetsAttribute x name := by
  cases hw with
  | setAttribute hi hs => exact .inr ⟨_, _, _, hi, hs⟩
  | @bind line hi hf hx =>
    obtain ⟨code, globals, hbody, hcalling⟩ := calls_in_order hp hm m.top (List.mem_cons_self ..)
    -- Outside of calls the code that runs is the body that the activation was started with.
    obtain ⟨rfl, rfl⟩ := hcalling.eq_of_nil hf
    refine .inl ⟨hx ▸ hbody, hf, line, hi, fun program hprogram => ?_⟩
    rw [hprogram] at hi
    obtain ⟨st, hst, howned⟩ := (Code.owned_blockCode program 0).toArray hi
    exact ⟨st, hst, (howned.line nofun).symm, howned.store name rfl⟩

/-- **Calls are in order, and fields of modules are isolated.** In every run, the activations in
progress have at most as many calls as the settings allow, each of a function, and outside of calls
they run the body of their module. A field of a module that exists changes only through a statement
in the body of the module itself, or through setting an attribute of the module. While a function
runs, no other instruction than that for attributes changes the fields of any module. -/
theorem fields_isolated (hp : Asked s p) (hq : Reaches p q) :
    (∀ a ∈ q.activations, a.frames.length ≤ s.config.maxCallDepth ∧
      ∃ code globals, Body p a.file a.load code globals ∧
        (a.frames = [] → a.code = code ∧ a.globals = globals) ∧
        ∃ calls, a.contexts = calls ++ [(code, globals)] ∧ calls.length = a.frames.length ∧
          ∀ c ∈ calls, ∃ k f, q.state.heap.function? k = some f ∧ c = (f.code, f.home)) ∧
    (∀ r, Reaches q r → ∀ x, x.index < q.state.heap.modules.size →
      (∀ name, r.state.heap.field? x name ≠ q.state.heap.field? x name →
        ∃ m, Reaches q (.running m) ∧ Reaches m.step r ∧
          (Binds p m x name ∨ m.SetsAttribute x name)) ∧
      (r.state.heap.fields x ≠ q.state.heap.fields x →
        ∃ m name, Reaches q (.running m) ∧ Reaches m.step r ∧
          (Binds p m x name ∨ m.SetsAttribute x name))) ∧
    ∀ m, q = .running m → m.top.frames ≠ [] →
      (∀ name line, m.top.code[m.top.ip]? ≠ some (.setAttribute name, line)) →
        ∀ x, x.index < m.state.heap.modules.size →
          m.step.state.heap.fields x = m.state.heap.fields x := by
  refine ⟨fun a ha => ?_, fun r hr x hx => ⟨fun name hne => ?_, fun hne => ?_⟩, ?_⟩
  · obtain ⟨code, globals, hbody, hcalling⟩ := calls_in_order hp hq a ha
    obtain ⟨calls, hcalls, hfunctions⟩ := hcalling.contexts
    have hlength : calls.length = a.frames.length := by
      have hl := congrArg List.length hcalls
      simpa [Activation.contexts] using hl.symm
    refine ⟨(hp.precedes hq).config ▸ hcalling.limit, code, globals, hbody, hcalling.eq_of_nil,
      calls, hcalls, hlength, hfunctions⟩
  · rcases field?_reaches name hx hr with hsame | ⟨m, hm, hr', hw⟩
    · exact absurd hsame hne
    · exact ⟨m, hm, hr', hw.cases hp (hq.trans hm)⟩
  · rcases fields_reaches hx hr with hsame | ⟨m, name, hm, hr', hw⟩
    · exact absurd hsame hne
    · exact ⟨m, name, hm, hr', hw.cases hp (hq.trans hm)⟩
  · rintro m rfl hframes hset x hx
    rcases changes_step (m := m) hx with hsame | ⟨name, v, hw, -⟩
    · exact hsame
    · cases hw with
      | bind _ hf => exact absurd hf hframes
      | setAttribute hi => exact absurd hi (hset _ _)

/-- The program `x := 1` gives the module on whose fields it runs a field. -/
theorem fields_isolated_assign : ∃ p r : Progress Capture,
    Asked Interpreter.sample p ∧ Reaches p r ∧
    p.state.heap.field? ⟨0⟩ "x" = none ∧ r.state.heap.field? ⟨0⟩ "x" = some (.integer 1) ∧
    ∃ m, Reaches p (.running m) ∧ Reaches m.step r ∧
      (Binds p m ⟨0⟩ "x" ∨ m.SetsAttribute ⟨0⟩ "x") := by
  have hp : Asked Interpreter.sample _ :=
    .chunk "a" (blockCode 0 [.assign 1 "x" (.integer 1)]).toArray ⟨0⟩
  have hrun : ∃ t o, run 3 (.running ⟨Interpreter.sample, Activation.start "a"
      (blockCode 0 [.assign 1 "x" (.integer 1)]).toArray ⟨0⟩ none, []⟩) = some (t, .ran o) ∧
      t.heap.field? ⟨0⟩ "x" = some (.integer 1) := ⟨_, _, rfl, rfl⟩
  obtain ⟨t, o, hrun, hafter⟩ := hrun
  have hr := reaches_done_iff.2 ⟨3, hrun⟩
  have hbefore : Interpreter.sample.heap.field? ⟨0⟩ "x" = none := rfl
  refine ⟨_, _, hp, hr, hbefore, hafter, ?_⟩
  have hchanges := ((fields_isolated hp (.refl _)).2.1 _ hr ⟨0⟩ (by decide)).1 "x"
  refine hchanges ?_
  show t.heap.field? ⟨0⟩ "x" ≠ Interpreter.sample.heap.field? ⟨0⟩ "x"
  rw [hafter, hbefore]
  exact nofun

end Machine

end Ember
