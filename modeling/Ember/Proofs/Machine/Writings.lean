import Ember.Proofs.Machine.Circularity
import Ember.Proofs.Machine.Deliveries

/-!
# What a step writes

**Theorem (`tells_stepLogged`).** All that a step writes, to any host, is what its instruction
prints and, if loads are traced, one message for the load that begins in it and one for each load
that ends in it (`Machine.entries`). The outcome of a load that ends is the one that is handed to
the code outside of it.

The step itself says all this: the instruction what is printed (`host_execute`), the effect of the
instruction whether a load begins, and the log of the step which loads end (`Tells`).
-/

namespace Ember

open Machine (Reaches Rooted loadsOf loadsOf_cons loadsOf_congr)

variable {H : Type}

/-! ## Entries -/

/-- What is written in a run. -/
inductive Entry (H : Type)
  /-- Code prints values, in some state. -/
  | printed (s : Interpreter H) (args : List Value)
  /-- A load begins. -/
  | began (l : Load)
  /-- A load ends. -/
  | ended (c : Completion H)

section

variable [Host H]

/-- What is traced where a load ends. -/
def Completion.message (c : Completion H) : String :=
  match c.result with
  | .ok _ => s!"committed {c.load.name}"
  | .error e => s!"rolled back {c.load.name}: {e.message c.before.heap}"

/-- The outcome of the load is handed to the activations outside of it, and this leads to `q`. -/
def Completion.Delivered (c : Completion H) (q : Progress H) : Prop :=
  ∃ below, q = Machine.deliver c.after c.load.origin c.load.name c.result below

namespace Entry

/-- A line of the trace. -/
def traced (host : H) (message : String) : H :=
  Output.write host (Host.stderr host) s!"[ember] {message}\n"

def write (host : H) : Entry H → H
  | printed s args => (Library.print { s with host := host } args).host
  | began l => traced host s!"loading {l.name}"
  | ended c => traced host c.message

end Entry

end

namespace Entry

/-- The load that begins. -/
def began? : Entry H → Option Load
  | began l => some l
  | printed .. | ended _ => none

/-- The load that ends. -/
def ended? : Entry H → Option Load
  | ended c => some c.load
  | printed .. | began _ => none

end Entry

/-! ## Instructions -/

namespace Outcome

/-- The host is left alone. -/
def Quiet (s : Interpreter H) : Outcome H → Prop
  | value t _ | error t _ | load t _ _ => t.host = s.host

theorem quiet_ofResult (s : Interpreter H) (r : Except RuntimeError Value) :
    (ofResult s r).Quiet s := by cases r <;> rfl

theorem quiet_drawing {α : Type} (s : Interpreter H) (f : α → UInt64 → Value)
    (r : Except RuntimeError α) : (drawing s f r).Quiet s := by cases r <;> rfl

theorem quiet_ofRequest (s : Interpreter H) (r : Except RuntimeError (String × String)) :
    (ofRequest s r).Quiet s := by cases r <;> rfl

end Outcome

/-- Only `print` writes. -/
theorem Library.quiet_apply [Host H] (s : Interpreter H) {f : Native} (hf : f ≠ .print)
    (args : List Value) : (apply s f args).Quiet s := by
  unfold apply
  cases f with
  | print => exact absurd rfl hf
  | execModule => exact Outcome.quiet_ofRequest s _
  | random => exact Outcome.quiet_drawing s _ _
  | randomInteger => exact Outcome.quiet_drawing s _ _
  | _ => exact Outcome.quiet_ofResult s _

namespace Machine

/-- What an instruction prints. -/
def prints (s : Interpreter H) : Code.Instr → List (Entry H)
  | .call n => match s.stack.drop n with
    | .native .print :: rest => [.printed { s with stack := rest } (s.stack.take n).reverse]
    | _ => []
  | _ => []

section

variable {s : Interpreter H}

theorem host_withOne {f : Interpreter H → Value → Effect H}
    (hf : ∀ v rest, (f { s with stack := rest } v).state.host = s.host) :
    (withOne s f).state.host = s.host := by
  unfold withOne
  cases hs : s.stack with
  | nil => rfl
  | cons v rest => exact hf v rest

theorem host_withTwo {f : Interpreter H → Value → Value → Effect H}
    (hf : ∀ v w rest, (f { s with stack := rest } v w).state.host = s.host) :
    (withTwo s f).state.host = s.host :=
  host_withOne fun w _ => host_withOne fun v rest => hf v w rest

theorem host_ofResult (a : Activation) (r : Except RuntimeError Value) :
    (Effect.ofResult s a r).state.host = s.host := by cases r <;> rfl

variable [Host H] {a : Activation} {below : List Activation}

theorem host_callNative {f : Native} (hf : f ≠ .print) (args : List Value) :
    (callNative s a f args).state.host = s.host := by
  unfold callNative
  have hquiet := Library.quiet_apply s hf args
  cases ho : Library.apply s f args <;> rw [ho] at hquiet <;> exact hquiet

theorem host_call {callee : Value} (hc : callee ≠ .native .print) (args : List Value) :
    (call s a below callee args).state.host = s.host := by
  unfold call
  cases callee with
  | function k =>
    dsimp only
    cases s.heap.function? k with
    | none => rfl
    | some f =>
      dsimp only [callFunction]
      split_ifs <;> rfl
  | native f => exact host_callNative (fun hf => hc (congrArg Value.native hf)) args
  | _ => rfl

omit [Host H] in
theorem host_use (name : String) : (use s a name).state.host = s.host := by
  unfold use
  cases s.module? name with
  | some m =>
    dsimp only
    split_ifs <;> rfl
  | none =>
    dsimp only
    cases s.resolver.bind fun r => r name <;> rfl

/-- Only calls write. -/
theorem host_execute_of_not_call {i : Code.Instr} (hi : ∀ n, i ≠ .call n) :
    (execute s a below i).state.host = s.host := by
  unfold execute
  cases i with
  | pop => exact host_withOne fun _ _ => rfl
  | operate op => exact host_withTwo fun _ _ _ => host_ofResult _ _
  | negate => exact host_withOne fun _ _ => host_ofResult _ _
  | invert => exact host_withOne fun _ _ => rfl
  | load name =>
    dsimp only
    cases lookUp s a name <;> rfl
  | store name =>
    refine host_withOne fun v rest => ?_
    unfold store
    cases a.frames <;> rfl
  | getAttribute name => exact host_withOne fun _ _ => host_ofResult _ _
  | setAttribute name =>
    refine host_withTwo fun v object rest => ?_
    cases object <;> rfl
  | jumpIfFalse target => exact host_withOne fun _ _ => rfl
  | call n => exact absurd rfl (hi n)
  | ret =>
    refine host_withOne fun v rest => ?_
    unfold ret
    cases a.frames <;> rfl
  | use name => exact host_use name
  | raise => exact host_withOne fun _ _ => rfl
  | _ => rfl

/-- **What an instruction writes.** -/
theorem host_execute (s : Interpreter H) (a : Activation) (below : List Activation)
    (i : Code.Instr) :
    (execute s a below i).state.host = (prints s i).foldl Entry.write s.host := by
  cases i with
  | call n =>
    dsimp only [execute, Interpreter.popMany, prints]
    by_cases hn : s.stack.length < n
    · rw [if_pos hn, List.drop_eq_nil_of_le hn.le]
      rfl
    · rw [if_neg hn]
      dsimp only [withOne]
      cases s.stack.drop n with
      | nil => rfl
      | cons callee rest =>
        by_cases hc : callee = .native .print
        · subst hc
          rfl
        · dsimp only
          rw [host_call hc]
          split
          · next h => exact absurd (List.cons.inj h).1 hc
          · rfl
  | _ => exact host_execute_of_not_call nofun

end

end Machine

/-! ## Loads -/

section

variable [Host H] {s : Interpreter H}

theorem Interpreter.host_trace (s : Interpreter H) (hs : s.config.traceLoads = true) (e : Event) :
    (s.trace e).host = Entry.traced s.host (e.message s.heap) := by
  rw [trace, if_pos hs, print, Entry.traced]

theorem Interpreter.host_beginLoad (hs : s.config.traceLoads = true) (source name : String)
    (origin : Origin) : (s.beginLoad source name origin).2.host =
      Entry.write s.host (.began (s.beginLoad source name origin).1) := by
  rw [beginLoad_snd, beginLoad_fst, Entry.write]
  exact s.host_trace hs (.loading name)

theorem Completion.host_after {c : Completion H} (hc : c.before.config.traceLoads = true) :
    c.after.host = Entry.write c.before.host (.ended c) := by
  have hundone : (c.before.undone c.load).host = c.before.host := by
    unfold Interpreter.undone
    cases c.load.previous <;> rfl
  have hconfig : (c.before.undone c.load).config.traceLoads = true := by
    rw [Interpreter.config_undone, hc]
  rw [Entry.write]
  unfold after message result
  rcases c.before.endLoad_cases c.load c.outcome with ⟨-, -, he⟩ | he
  · rw [he]
    have htraced := (c.before.leaveLoad c.load).host_trace hc (.committed c.load.name)
    exact htraced.trans (congrArg (Entry.traced c.before.host) rfl)
  · rw [he]
    dsimp only
    rw [Interpreter.host_trace _ hconfig, hundone, Interpreter.heap_undone]
    exact congrArg (Entry.traced c.before.host) rfl

end

namespace Interpreter

variable [Host H]

/-- The load that a request begins, if it is not refused. -/
def beginning (s : Interpreter H) (source name : String) (origin : Origin) : List Load :=
  match s.refusal? name with
  | some _ => []
  | none => [(s.beginLoad source name origin).1]

theorem mem_beginning {s : Interpreter H} {source name : String} {origin : Origin} {l : Load} :
    l ∈ s.beginning source name origin ↔ s.Begins source name origin l := by
  unfold beginning Begins
  cases s.refusal? name <;> simp

end Interpreter

/-! ## Logs -/

namespace Machine

variable [Host H]

/-- What the log of a step says that begins in `s`, where the loads `ls` are in progress: what is
written, if loads are traced, for the loads `new` that begin and for those that end; which loads are
in progress afterwards; and that the outcomes are handed on. -/
structure Tells (s : Interpreter H) (new ls : List Load) (x : Logged H) : Prop where
  host : s.config.traceLoads = true → x.2.state.host =
    (new.map Entry.began ++ x.1.map Entry.ended).foldl Entry.write s.host
  loads : x.1.map Completion.load ++ x.2.loads = new ++ ls
  delivered : ∀ c ∈ x.1, c.Delivered x.2

variable {s : Interpreter H} {a : Activation} {below : List Activation} {ls : List Load}

theorem tells_nil {q : Progress H} (hq : q.state.host = s.host) (hl : q.loads = ls) :
    Tells s [] ls ([], q) :=
  ⟨fun _ => hq, hl, List.forall_mem_nil _⟩

/-- A load ends before those that its end is delivered to. -/
theorem Tells.cons {c : Completion H} (h : Tells c.after [] (loadsOf below)
      (deliverLogged c.after c.load.origin c.load.name c.result below)) :
    Tells c.before [] (c.load :: loadsOf below) (endLogged c below) where
  host hc := by
    have hafter : c.after.config.traceLoads = true := by
      rw [Completion.after, Interpreter.config_endLoad, hc]
    simp only [endLogged, List.map_cons, List.map_nil, List.nil_append, List.foldl_cons,
      ← Completion.host_after hc]
    exact h.host hafter
  loads := congrArg (c.load :: ·) h.loads
  delivered := List.forall_mem_cons.2 ⟨⟨below, snd_deliverLogged ..⟩, h.delivered⟩

theorem tells_deliver : ∀ {below : List Activation} {s : Interpreter H} {origin : Origin}
    {name : String} {r : Except LoadError ModuleId}, Rooted below →
    Tells s [] (loadsOf below) (deliverLogged s origin name r below)
  | [], _, _, _, _, _ => tells_nil rfl rfl
  | a :: below, s, origin, name, r, h => by
    cases origin with
    | host => cases r <;> exact tells_nil rfl rfl
    | call => cases r <;> exact tells_nil rfl rfl
    | use =>
      cases r with
      | ok m => exact tells_nil rfl rfl
      | error cause =>
        cases hl : a.load with
        | none =>
          rw [loadsOf_of_load_eq_none h hl]
          simp only [deliverLogged, deliver, hl]
          exact tells_nil rfl rfl
        | some l =>
          rw [loadsOf_cons hl]
          simp only [deliverLogged, hl]
          exact Tells.cons (c := ⟨s, l, .error (a.exception (.importFailed name cause))⟩)
            (tells_deliver h.2)

theorem tells_end {c : Completion H} (h : Rooted below) :
    Tells c.before [] (c.load :: loadsOf below) (endLogged c below) := .cons (tells_deliver h)

theorem tells_finish {o : Except LoadError Unit} (h : Rooted (a :: below)) :
    Tells s [] (loadsOf (a :: below)) (finishLogged s a below o) := by
  cases hl : a.load with
  | none =>
    rw [loadsOf_of_load_eq_none h hl]
    simp only [finishLogged, finish, hl]
    exact tells_nil rfl rfl
  | some l =>
    rw [loadsOf_cons hl]
    simp only [finishLogged, hl]
    exact tells_end (c := ⟨s, l, o⟩) h.2

theorem tells_load {source name : String} {origin : Origin} (h : Rooted below) :
    Tells s (s.beginning source name origin) (loadsOf below)
      (loadLogged s source name origin below) := by
  unfold loadLogged Interpreter.beginning
  cases hr : s.refusal? name with
  | some r => exact tells_deliver h
  | none =>
    dsimp only
    cases hc : Code.compile source (displayName name) with
    | error e =>
      have hended := tells_end (c := ⟨(s.beginLoad source name origin).2,
        (s.beginLoad source name origin).1, .error (.compile e)⟩) h
      refine ⟨fun hs => ?_, hended.loads, hended.delivered⟩
      have hbegun : (s.beginLoad source name origin).2.config.traceLoads = true := by
        rw [s.config_beginLoad, hs]
      rw [hended.host hbegun, s.host_beginLoad hs, List.map_nil, List.nil_append]
      simp only [List.map_cons, List.map_nil, List.singleton_append, List.foldl_cons]
    | ok code =>
      rw [load_eq_running hr hc]
      exact ⟨fun hs => s.host_beginLoad hs source name origin, rfl, List.forall_mem_nil _⟩

/-! ## Steps -/

/-- The load that an effect begins. -/
def Effect.beginning : Effect H → List Load
  | .load s source name origin => s.beginning source name origin
  | .next .. | .stop .. => []

/-- What the next step prints, and the load that it begins. -/
def opening (m : Machine H) : List (Entry H) × List Load :=
  match m.top.code[m.top.ip]? with
  | none => ([], [])
  | some (i, _) =>
    (prints m.state i, (execute m.state (jumpTo m.top (m.top.ip + 1)) m.below i).beginning)

/-- All that the next step writes if loads are traced. -/
def entries (m : Machine H) : List (Entry H) :=
  m.opening.1 ++ (m.opening.2.map Entry.began ++ m.stepLogged.1.map Entry.ended)

theorem mem_opening {m : Machine H} {l : Load} : l ∈ m.opening.2 ↔ m.Begins l := by
  unfold opening Begins
  cases m.top.code[m.top.ip]? with
  | none => simp
  | some x =>
    dsimp only
    cases execute m.state (jumpTo m.top (m.top.ip + 1)) m.below x.1 with
    | load t source name origin => exact Interpreter.mem_beginning
    | next t a => simp [Effect.beginning, Effect.Begins]
    | stop t e => simp [Effect.beginning, Effect.Begins]

/-- **What a step writes, and which loads are in progress after it.** -/
theorem tells_stepLogged {m : Machine H} (h : Rooted (m.top :: m.below)) :
    (m.state.config.traceLoads = true →
      m.step.state.host = m.entries.foldl Entry.write m.state.host) ∧
    m.stepLogged.1.map Completion.load ++ m.step.loads = m.opening.2 ++ m.loads ∧
    ∀ c ∈ m.stepLogged.1, c.Delivered m.step := by
  -- First the instruction prints; this leads to a state `t`, from which the log tells.
  suffices htells : ∃ t : Interpreter H, t.config = m.state.config ∧
      t.host = m.opening.1.foldl Entry.write m.state.host ∧
      Tells t m.opening.2 m.loads m.stepLogged by
    obtain ⟨t, hconfig, hprints, htells⟩ := htells
    rw [← snd_stepLogged]
    refine ⟨fun hs => ?_, htells.loads, htells.delivered⟩
    rw [entries, List.foldl_append, ← hprints]
    exact htells.host (hconfig ▸ hs)
  have hstays := stays_execute m.state (jumpTo m.top (m.top.ip + 1)) m.below
  have hhost := host_execute m.state (jumpTo m.top (m.top.ip + 1)) m.below
  have hprecedes := Interpreter.Precedes.execute m.state (jumpTo m.top (m.top.ip + 1)) m.below
  have hjump : Rooted (jumpTo m.top (m.top.ip + 1) :: m.below) := h
  unfold stepLogged opening
  cases m.top.code[m.top.ip]? with
  | none => exact ⟨m.state, rfl, rfl, tells_finish h⟩
  | some x =>
    specialize hstays x.1
    specialize hhost x.1
    specialize hprecedes x.1
    dsimp only
    generalize execute m.state (jumpTo m.top (m.top.ip + 1)) m.below x.1 = effect at *
    refine ⟨effect.state, hprecedes.config, hhost, ?_⟩
    cases effect with
    | next t a => exact tells_nil rfl (loadsOf_congr hstays m.below)
    | stop t e => exact tells_finish (s := t) hjump
    | load t source name origin => exact tells_load (s := t) hjump

end Machine

end Ember
