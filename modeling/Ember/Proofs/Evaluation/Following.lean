import Ember.Proofs.Code.Layout
import Ember.Proofs.Evaluation.Balance
import Ember.Proofs.Heap.Reachability
import Ember.Proofs.Machine.Levels
import Ember.Proofs.Machine.Runs

/-!
# Machines that follow an evaluation

A machine is where an evaluation is (`Fits`, `here`) if its topmost activation has the variables and
the globals of the evaluation, and if its callers and its loads hold on to what the evaluation says
that they hold on to. Both then find the same modules alive (`Fits.alive`).

A machine follows an evaluation (`Follows`) if it gets to where the evaluation ends. If the budget
of the evaluation does not suffice, the machine does not come to its end soon either.
-/

namespace Ember

open Machine (Reaches run run_eq_none_of_reaches)

/-! ## Places of machines -/

namespace Activation

/-- The objects that the callers hold on to. -/
def callerNodes : List Frame → List Node
  | [] => []
  | f :: frames => .module f.globals :: (f.code.nodes ++ frames.flatMap frameNodes)

/-- The objects that an activation holds on to, apart from its innermost call. -/
def outerNodes (a : Activation) : List Node :=
  callerNodes a.frames ++ a.load.toList.flatMap loadNodes

end Activation

namespace Evaluation

open Source (Expr Statement Program)
open Code (lined)

variable {H α β : Type}

/-- The sources of the functions on the heap are known. -/
theorem State.Known.body {s : State H} (h : s.Known) {id : FunctionId} {f : Function}
    (hf : s.interpreter.heap.function? id = some f) :
    ∃ b, s.bodies[id.index]? = some b ∧ f.code = b.code := by
  have hm : (s.interpreter.heap.functions.map Function.code)[id.index]? =
      (s.bodies.map Body.code)[id.index]? := by rw [show _ = _ from h]
  rw [Heap.function?] at hf
  rw [Array.getElem?_map, Array.getElem?_map, hf, Option.map_some] at hm
  cases hb : s.bodies[id.index]? with
  | none => rw [hb] at hm; cases hm
  | some b =>
    rw [hb] at hm
    exact ⟨b, rfl, Option.some.inj hm⟩

/-- An activation is where an evaluation is. -/
structure Fits (c : Place) (a : Activation) (below : List Activation) (s : State H) : Prop where
  file : a.file = c.file
  globals : a.globals = c.globals
  depth : a.frames.length = c.depth
  plain : a.code.nodes = []
  kept : ∀ n, n ∈ a.outerNodes ++ below.flatMap Activation.nodes ↔ n ∈ c.kept
  locals : s.locals.isSome = !a.frames.isEmpty
  known : s.Known

/-- The machine at an index, with the variables of an evaluation. -/
def here (a : Activation) (below : List Activation) (ip : Nat) (s : State H) : Progress H :=
  .running ⟨s.interpreter, a.place s.locals ip, below⟩

namespace Fits

variable {c : Place} {a : Activation} {below : List Activation} {s t : State H}

theorem holds {vs : List Value} (h : Fits c a below s) (ht : s.Holds vs t) : Fits c a below t :=
  ⟨h.file, h.globals, h.depth, h.plain, h.kept, by rw [ht.locals]; exact h.locals, ht.known⟩

theorem balanced (h : Fits c a below s) (ht : s.Balanced t) : Fits c a below t :=
  ⟨h.file, h.globals, h.depth, h.plain, h.kept, by rw [ht.locals]; exact h.locals, ht.known⟩

/-- Outside of calls there are no variables, and in a call there are. -/
theorem scope (h : Fits c a below s) : (a.frames = [] ∧ s.locals = none) ∨
    ∃ f frames l, a.frames = f :: frames ∧ s.locals = some l := by
  have hl := h.locals
  cases hf : a.frames with
  | nil =>
    rw [hf] at hl
    exact .inl ⟨rfl, Option.isNone_iff_eq_none.1 (by simpa using hl)⟩
  | cons f frames =>
    rw [hf] at hl
    obtain ⟨l, hl⟩ := Option.isSome_iff_exists.1 hl
    exact .inr ⟨f, frames, l, rfl, hl⟩

/-- The machine holds on to what the evaluation says. -/
theorem mem_kept (h : Fits c a below s) (ip : Nat) (n : Node) :
    n ∈ (a.place s.locals ip :: below).flatMap Activation.nodes ↔ n ∈ s.kept c := by
  have hk := h.kept n
  rw [List.mem_append] at hk
  rw [State.kept, List.mem_cons, List.mem_append, ← hk, ← h.globals, List.flatMap_cons,
    List.mem_append]
  have hp : (a.place s.locals ip).nodes = .module a.globals ::
      ((a.framesWith s.locals).flatMap Activation.frameNodes ++
        a.load.toList.flatMap Activation.loadNodes) := by
    show _ :: (a.code.nodes ++ _ ++ _) = _
    rw [h.plain]
    rfl
  rw [hp, Activation.outerNodes]
  rcases h.scope with ⟨hf, hl⟩ | ⟨f, frames, l, hf, hl⟩
  · simp only [Activation.framesWith, Activation.callerNodes, hf, hl, List.mem_cons,
      List.mem_append, List.flatMap_nil, List.not_mem_nil, Option.elim, Activation.valueNodes,
      List.filterMap_nil]
    tauto
  · simp only [Activation.framesWith, Activation.callerNodes, Activation.frameNodes, hf, hl,
      List.mem_cons, List.mem_append, List.flatMap_cons, Option.elim, Option.getD]
    tauto

/-- The machine finds the same modules alive as the evaluation. -/
theorem alive (h : Fits c a below s) (ip : Nat) (vs : List Value) (m : ModuleId) :
    s.interpreter.alive (a.place s.locals ip :: below) vs m = s.alive c vs m := by
  rw [Interpreter.alive_eq, State.alive]
  refine Heap.alive_congr (fun n => ?_) m
  simp only [List.mem_append, h.mem_kept]

/-- Names stand for the same values. -/
theorem look (h : Fits c a below s) (ip : Nat) (name : String) :
    Machine.lookUp s.interpreter (a.place s.locals ip) name = s.look c name := by
  have hg : (a.place s.locals ip).globals = c.globals := h.globals
  unfold Machine.lookUp State.look
  rw [hg]
  show ((((a.framesWith s.locals).head?.bind fun f => f.locals.get? name).or _).or _) = _
  unfold Activation.framesWith
  rcases h.scope with ⟨hf, hl⟩ | ⟨f, frames, l, hf, hl⟩
  · rw [hf, hl]
    cases s.interpreter.heap.field? c.globals name <;> rfl
  · rw [hf, hl]
    simp only [Option.getD_some, List.head?_cons, Option.bind_some]
    cases l.get? name
    · cases s.interpreter.heap.field? c.globals name <;> rfl
    · rfl

/-- Names get the same values. -/
theorem store (h : Fits c a below s) (ip : Nat) (name : String) (v : Value) :
    Machine.store s.interpreter (a.place s.locals ip) name v =
      ((s.store c name v).interpreter, a.place (s.store c name v).locals ip) := by
  have hg : (a.place s.locals ip).globals = c.globals := h.globals
  unfold Machine.store State.store
  show (match a.framesWith s.locals with | [] => _ | f :: frames => _) = _
  simp only [Activation.place, Activation.framesWith]
  rcases h.scope with ⟨hf, hl⟩ | ⟨f, frames, l, hf, hl⟩
  · rw [hf, hl, ← h.globals]
  · rw [hf, hl]
    rfl

/-- The machine is where the evaluation of a function's body begins. -/
theorem enter (h : Fits c a below s) (ip : Nat) {f : Function} {b : Body} (args : List Value)
    (hb : f.code = b.code) : Fits ⟨c.file, f.home, c.depth + 1, s.kept c⟩
      (Machine.enter s.interpreter (a.place s.locals ip) f args) below
      { s with locals := some (Machine.parameters f.params args) } where
  file := h.file
  globals := rfl
  depth := by
    show (a.framesWith s.locals).length + 1 = c.depth + 1
    rw [← h.depth, Activation.framesWith]
    cases a.frames <;> rfl
  plain := by
    show f.code.nodes = []
    rw [hb]
    exact Code.nodes_bodyCode ..
  kept n := by
    rw [← h.mem_kept ip n, List.flatMap_cons]
    rfl
  locals := rfl
  known := h.known

/-- The machine is where the evaluation of a module's statements begins. -/
theorem start {i : Interpreter H} {bodies : Array Body} {code : Code.Chunk} {kept : List Node}
    (file : String) (l : Load) (hi : State.Known ⟨i, bodies, none⟩)
    (hk : ∀ n, n ∈ below.flatMap Activation.nodes ↔ n ∈ kept) (hc : code.nodes = []) :
    Fits ⟨file, l.module, 0, Activation.loadNodes l ++ kept⟩
      (Activation.start file code l.module (some l)) below ⟨i, bodies, none⟩ where
  file := rfl
  globals := rfl
  depth := rfl
  plain := hc
  kept n := by
    rw [List.mem_append, hk, List.mem_append]
    simp [Activation.outerNodes, Activation.start, Activation.callerNodes]
  locals := rfl
  known := hi

end Fits

/-! ## Following -/

variable [Host H]

/-- From a progress, the machine gets to where an evaluation ends. If the evaluation does not end,
the machine does not end in fewer than `n` steps. -/
def Follows (n : Nat) (p : Progress H) (r : Result H α) (goal : State H → α → Progress H)
    (stop : State H → Fault → Progress H) : Prop :=
  match r with
  | none => ∀ m < n, run m p = none
  | some (s, .ok a) => Reaches p (goal s a)
  | some (s, .error f) => Reaches p (stop s f)

namespace Follows

variable {n : Nat} {p q : Progress H} {r : Result H α} {goal : State H → α → Progress H}
  {stop : State H → Fault → Progress H}

theorem of_reaches (hp : Reaches p q) (h : Follows n q r goal stop) : Follows n p r goal stop := by
  rcases r with _ | ⟨s, e | a⟩
  · exact fun m hm => run_eq_none_of_reaches hp (h m hm)
  · exact hp.trans h
  · exact hp.trans h

/-- A step makes up for a budget of one less. -/
theorem of_step {m : Machine H} (h : Follows n m.step r goal stop) :
    Follows (n + 1) (.running m) r goal stop := by
  rcases r with _ | ⟨s, e | a⟩
  · intro k hk
    cases k with
    | zero => rfl
    | succ k => exact h k (Nat.lt_of_succ_lt_succ hk)
  · exact .step h
  · exact .step h

theorem mono {n' : Nat} (hn : n ≤ n') (h : Follows n' p r goal stop) :
    Follows n p r goal stop := by
  rcases r with _ | ⟨s, e | a⟩
  · exact fun m hm => h m (Nat.lt_of_lt_of_le hm hn)
  · exact h
  · exact h

/-- The machine goes on after success. -/
theorem further {goal' : State H → α → Progress H} (h : Follows n p r goal stop)
    (hg : ∀ s a, Reaches (goal s a) (goal' s a)) : Follows n p r goal' stop := by
  rcases r with _ | ⟨s, e | a⟩
  · exact h
  · exact h
  · exact Reaches.trans h (hg s a)

theorem andThen {f : State H → α → Result H β} {goal' : State H → β → Progress H}
    {ok : State H → α → Prop} {err : State H → Prop} (h : Follows n p r goal stop)
    (hr : r.Post ok err) (hf : ∀ s a, ok s a → Follows n (goal s a) (f s a) goal' stop) :
    Follows n p (r.andThen f) goal' stop := by
  rcases r with _ | ⟨s, e | a⟩
  · exact h
  · exact h
  · exact of_reaches h (hf s a hr)

theorem backTo {locals : Option Fields} {goal' : State H → α → Progress H}
    {stop' : State H → Fault → Progress H} {ok : State H → α → Prop} {err : State H → Prop}
    (h : Follows n p r goal stop) (hr : r.Post ok err)
    (hg : ∀ s a, ok s a → goal s a = goal' { s with locals := locals } a)
    (hs : ∀ s f, stop s f = stop' { s with locals := locals } f) :
    Follows n p (r.backTo locals) goal' stop' := by
  rcases r with _ | ⟨s, e | a⟩
  · exact h
  · show Reaches p (stop' { s with locals := locals } e)
    rw [← hs s e]
    exact h
  · show Reaches p (goal' { s with locals := locals } a)
    rw [← hg s a hr]
    exact h

end Follows

/-! ## Single instructions -/

/-- How an error ends the topmost activation. -/
def halt (a : Activation) (below : List Activation) (s : State H) (f : Fault) : Progress H :=
  Machine.finish s.interpreter a below (.error (f.located a.file))

/-- What follows an instruction that stands before an index. -/
def proceed (a : Activation) (below : List Activation) (ip line : Nat) (s : State H) :
    Machine.Effect H → Progress H
  | .next i b => .running ⟨i, b, below⟩
  | .stop i e => Machine.finish i a below (.error (.runtime e a.file line))
  | .load i source name origin =>
    Machine.load i source name origin (a.place s.locals ip :: below)

section Instructions

variable {n line ip : Nat} {i : Code.Instr} {a : Activation} {below : List Activation}
  {s t : State H} {r : Result H α} {goal : State H → α → Progress H}
  {stop : State H → Fault → Progress H}

theorem step_here (hc : a.code[ip]? = some (i, line)) :
    Machine.step ⟨s.interpreter, a.place s.locals ip, below⟩ = proceed a below (ip + 1) line s
      (Machine.execute s.interpreter (a.place s.locals (ip + 1)) below i) := by
  rw [Machine.step_eq (m := ⟨s.interpreter, a.place s.locals ip, below⟩) hc]
  show (match Machine.execute s.interpreter (a.place s.locals (ip + 1)) below i with
    | .next s b => Progress.running ⟨s, b, below⟩
    | .stop s e => _
    | .load s source name origin => _) = _
  cases Machine.execute s.interpreter (a.place s.locals (ip + 1)) below i <;> rfl

/-- An instruction after which the activation goes on. -/
theorem reaches_of_next {ip' : Nat} (hc : a.code[ip]? = some (i, line))
    (he : Machine.execute s.interpreter (a.place s.locals (ip + 1)) below i =
      .next t.interpreter (a.place t.locals ip')) :
    Reaches (here a below ip s) (here a below ip' t) := by
  refine .of_step ?_
  rw [step_here hc, he]
  rfl

/-- An instruction that stops with an error. -/
theorem reaches_of_stop {e : RuntimeError} (hc : a.code[ip]? = some (i, line))
    (he : Machine.execute s.interpreter (a.place s.locals (ip + 1)) below i =
      .stop t.interpreter e) :
    Reaches (here a below ip s) (halt a below t ⟨e, line⟩) := by
  refine .of_step ?_
  rw [step_here hc, he]
  rfl

/-- An instruction on operands whose result is a value or an error. -/
theorem follows_result {r : Except RuntimeError Value} (hc : a.code[ip]? = some (i, line))
    (he : Machine.execute s.interpreter (a.place s.locals (ip + 1)) below i =
      .ofResult t.interpreter (a.place t.locals (ip + 1)) r) :
    Follows n (here a below ip s) (t.result line r) (fun u v => here a below (ip + 1) (u.hold v))
      (halt a below) := by
  cases r with
  | error e => exact reaches_of_stop hc he
  | ok v => exact reaches_of_next (t := t.hold v) hc he

omit [Host H] in
/-- Two operands lie on the stack. -/
theorem withTwo_push {i : Interpreter H} {f : Interpreter H → Value → Value → Machine.Effect H}
    {x y : Value} {rest : List Value} (hs : i.stack = x :: rest) :
    Machine.withTwo (i.push y) f = f { i with stack := i.stack.drop 1 } x y := by
  simp [Machine.withTwo, Machine.withOne, Interpreter.push, hs]

/-- A value is turned into a boolean. -/
theorem reaches_asBool {x : Value} (hc : Code.Has a.code ip (lined line Code.asBool)) :
    Reaches (here a below ip (s.hold x)) (here a below (ip + 2) (s.hold (.bool x.truthy))) := by
  have h₁ : Reaches (here a below ip (s.hold x))
      (here a below (ip + 1) (s.hold (.bool !x.truthy))) :=
    reaches_of_next hc.head rfl
  refine h₁.trans (reaches_of_next hc.tail.head ?_)
  show Machine.Effect.next (s.interpreter.push (.bool !!x.truthy)) _ = _
  rw [Bool.not_not]
  rfl

theorem reaches_push {v : Value} (hc : a.code[ip]? = some (.push v, line)) :
    Reaches (here a below ip s) (here a below (ip + 1) (s.hold v)) := reaches_of_next hc rfl

theorem reaches_jump {target : Nat} (hc : a.code[ip]? = some (.jump target, line)) :
    Reaches (here a below ip s) (here a below target s) := reaches_of_next hc rfl

theorem reaches_test {target : Nat} {x : Value}
    (hc : a.code[ip]? = some (.jumpIfFalse target, line)) :
    Reaches (here a below ip (s.hold x))
      (here a below (if x.truthy then ip + 1 else target) s) := by
  refine reaches_of_next hc ?_
  show Machine.Effect.next s.interpreter (if x.truthy then _ else _) = _
  split <;> rfl

end Instructions

end Evaluation

end Ember
