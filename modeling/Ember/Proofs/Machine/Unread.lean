import Ember.Proofs.Machine.Effects
import Ember.Proofs.Machine.Runs

/-!
# Operands that are not read

Two states agree above a height if they differ in nothing but the operands below it, and these keep
the same objects alive (`Interpreter.AgreesAbove`). A step that finds its operands above the height
leads agreeing states to agreeing ones and does the same otherwise (`agreesAbove_step`): it cannot
tell what lies below.
-/

namespace Ember

/-- The lists are the same but for the last `n` values or fewer, and these refer to the same
objects. -/
def SameAbove (n : Nat) (xs ys : List Value) : Prop :=
  ∃ top us vs, xs = top ++ us ∧ ys = top ++ vs ∧ us.length ≤ n ∧
    us.map Value.node? = vs.map Value.node?

namespace SameAbove

variable {n : Nat} {xs ys : List Value}

theorem length_eq (h : SameAbove n xs ys) : xs.length = ys.length := by
  obtain ⟨top, us, vs, rfl, rfl, -, hn⟩ := h
  have hl := congrArg List.length hn
  rw [List.length_map, List.length_map] at hl
  rw [List.length_append, List.length_append, hl]

theorem valueNodes_eq (h : SameAbove n xs ys) :
    Activation.valueNodes xs = Activation.valueNodes ys := by
  obtain ⟨top, us, vs, rfl, rfl, -, hn⟩ := h
  have hus : us.filterMap Value.node? = vs.filterMap Value.node? := by
    have hid : ∀ zs : List Value, zs.filterMap Value.node? = (zs.map Value.node?).filterMap id :=
      fun zs => by rw [List.filterMap_map, Function.id_comp]
    rw [hid us, hid vs, hn]
  unfold Activation.valueNodes
  rw [List.filterMap_append, List.filterMap_append, hus]

theorem cons (h : SameAbove n xs ys) (v : Value) : SameAbove n (v :: xs) (v :: ys) := by
  obtain ⟨top, us, vs, rfl, rfl, hl, hn⟩ := h
  exact ⟨v :: top, us, vs, rfl, rfl, hl, hn⟩

theorem drop (h : SameAbove n xs ys) (k : Nat) : SameAbove n (xs.drop k) (ys.drop k) := by
  obtain ⟨top, us, vs, rfl, rfl, hl, hn⟩ := h
  refine ⟨top.drop k, us.drop (k - top.length), vs.drop (k - top.length), List.drop_append,
    List.drop_append, ?_, ?_⟩
  · rw [List.length_drop]
    omega
  · rw [List.map_drop, List.map_drop, hn]

/-- What lies above the height is the same. -/
theorem take_eq (h : SameAbove n xs ys) {k : Nat} (hk : n + k ≤ xs.length) :
    xs.take k = ys.take k := by
  obtain ⟨top, us, vs, rfl, rfl, hl, -⟩ := h
  rw [List.length_append] at hk
  rw [List.take_append_of_le_length (by omega), List.take_append_of_le_length (by omega)]

theorem exists_cons {v : Value} (h : SameAbove n (v :: xs) ys) (hn : n ≤ xs.length) :
    ∃ ys', ys = v :: ys' ∧ SameAbove n xs ys' := by
  have ht := h.take_eq (k := 1) (by rw [List.length_cons]; omega)
  have hd := h.drop 1
  cases ys with
  | nil => cases h.length_eq
  | cons w ys =>
    obtain rfl : v = w := (List.cons.inj ht).1
    exact ⟨ys, rfl, hd⟩

end SameAbove

namespace Interpreter

variable {H : Type}

/-- The states differ in nothing but the operands below a height. -/
def AgreesAbove (n : Nat) (s t : Interpreter H) : Prop :=
  ∃ ys, SameAbove n s.stack ys ∧ t = { s with stack := ys }

namespace AgreesAbove

variable {n : Nat} {s t : Interpreter H}

theorem push (h : s.AgreesAbove n t) (v : Value) : (s.push v).AgreesAbove n (t.push v) := by
  obtain ⟨ys, hys, rfl⟩ := h
  exact ⟨v :: ys, hys.cons v, rfl⟩

theorem truncate (h : s.AgreesAbove n t) (height : Nat) :
    (s.truncate height).AgreesAbove n (t.truncate height) := by
  obtain ⟨ys, hys, rfl⟩ := h
  refine ⟨ys.drop (ys.length - height), ?_, rfl⟩
  rw [← hys.length_eq]
  exact hys.drop _

theorem alive_eq (h : s.AgreesAbove n t) (activations : List Activation) (values : List Value)
    (m : ModuleId) : s.alive activations values m = t.alive activations values m := by
  obtain ⟨ys, hys, rfl⟩ := h
  unfold alive nodes
  rw [hys.valueNodes_eq]

variable [Host H]

theorem print (h : s.AgreesAbove n t) (out : Stream) (text : String) :
    (s.print out text).AgreesAbove n (t.print out text) := by
  obtain ⟨ys, hys, rfl⟩ := h
  unfold Interpreter.print
  dsimp only
  generalize Output.write s.host out text = host
  exact ⟨ys, hys, rfl⟩

theorem printChar (h : s.AgreesAbove n t) (out : Stream) (code : Int32) :
    (s.printChar out code).AgreesAbove n (t.printChar out code) := by
  obtain ⟨ys, hys, rfl⟩ := h
  unfold Interpreter.printChar
  exact ⟨ys, hys, rfl⟩

theorem trace (h : s.AgreesAbove n t) (e : Event) : (s.trace e).AgreesAbove n (t.trace e) := by
  obtain ⟨ys, hys, rfl⟩ := id h
  unfold Interpreter.trace
  dsimp only
  split_ifs
  · exact h.print _ _
  · exact h

end AgreesAbove

end Interpreter

/-! ## Native functions -/

namespace Outcome

variable {H : Type}

/-- The outcomes differ in nothing but the operands below a height. -/
inductive AgreesAbove (n : Nat) : Outcome H → Outcome H → Prop
  | value {s t : Interpreter H} {v : Value} :
    s.AgreesAbove n t → AgreesAbove n (.value s v) (.value t v)
  | error {s t : Interpreter H} {e : RuntimeError} :
    s.AgreesAbove n t → AgreesAbove n (.error s e) (.error t e)
  | load {s t : Interpreter H} {source name : String} :
    s.AgreesAbove n t → AgreesAbove n (.load s source name) (.load t source name)

variable {n : Nat} {s t : Interpreter H}

theorem agreesAbove_ofResult (h : s.AgreesAbove n t) (r : Except RuntimeError Value) :
    AgreesAbove n (ofResult s r) (ofResult t r) := by
  cases r with
  | ok v => exact .value h
  | error e => exact .error h

theorem agreesAbove_ofRequest (h : s.AgreesAbove n t)
    (r : Except RuntimeError (String × String)) :
    AgreesAbove n (ofRequest s r) (ofRequest t r) := by
  cases r with
  | ok p => exact .load h
  | error e => exact .error h

theorem agreesAbove_drawing {α : Type} (h : s.AgreesAbove n t) (f : α → UInt64 → Value)
    (r : Except RuntimeError α) : AgreesAbove n (drawing s f r) (drawing t f r) := by
  cases r with
  | error e => exact .error h
  | ok a =>
    obtain ⟨ys, hys, rfl⟩ := h
    exact .value ⟨ys, hys, rfl⟩

end Outcome

namespace Library

variable {H : Type} [Host H] {n : Nat} {s t : Interpreter H}

theorem agreesAbove_printValues (h : s.AgreesAbove n t) (out : Stream) (vs : List Value) :
    (printValues s out vs).AgreesAbove n (printValues t out vs) := by
  induction vs generalizing s t with
  | nil => exact h
  | cons v vs ih =>
    have hv : (s.print out (v.display s.heap)).AgreesAbove n (t.print out (v.display t.heap)) := by
      obtain ⟨ys, hys, rfl⟩ := id h
      exact h.print out _
    cases vs with
    | nil => exact hv
    | cons w ws =>
      rw [printValues.eq_3 _ _ _ _ (List.cons_ne_nil w ws),
        printValues.eq_3 _ _ _ _ (List.cons_ne_nil w ws)]
      exact ih (hv.printChar out 32)

theorem agreesAbove_print (h : s.AgreesAbove n t) (args : List Value) :
    (print s args).AgreesAbove n (print t args) := by
  obtain ⟨ys, hys, rfl⟩ := id h
  exact (agreesAbove_printValues h _ args).printChar _ 10

theorem agreesAbove_apply (h : s.AgreesAbove n t) (f : Native) (args : List Value) :
    (apply s f args).AgreesAbove n (apply t f args) := by
  have hresult : ∀ r, (Outcome.ofResult s r).AgreesAbove n (Outcome.ofResult t r) :=
    Outcome.agreesAbove_ofResult h
  obtain ⟨ys, hys, rfl⟩ := id h
  unfold apply
  cases f with
  | print => exact .value (agreesAbove_print h args)
  | execModule => exact Outcome.agreesAbove_ofRequest h _
  | random => exact Outcome.agreesAbove_drawing h _ _
  | randomInteger => exact Outcome.agreesAbove_drawing h _ _
  | _ => exact hresult _

end Library

namespace Machine

variable {H : Type}

/-! ## Instructions -/

/-- The effects differ in nothing but the operands below a height. -/
inductive Effect.AgreesAbove (n : Nat) : Effect H → Effect H → Prop
  | next {s t : Interpreter H} {a : Activation} :
    s.AgreesAbove n t → AgreesAbove n (.next s a) (.next t a)
  | stop {s t : Interpreter H} {e : RuntimeError} :
    s.AgreesAbove n t → AgreesAbove n (.stop s e) (.stop t e)
  | load {s t : Interpreter H} {source name : String} {origin : Origin} :
    s.AgreesAbove n t → AgreesAbove n (.load s source name origin) (.load t source name origin)

section Instructions

variable {n : Nat} {s t : Interpreter H}

theorem agreesAbove_withOne {f : Interpreter H → Value → Effect H} (h : s.AgreesAbove n t)
    (hn : n + 1 ≤ s.stack.length)
    (hf : ∀ u w v, u.AgreesAbove n w → u.stack.length + 1 = s.stack.length →
      (f u v).AgreesAbove n (f w v)) : (withOne s f).AgreesAbove n (withOne t f) := by
  obtain ⟨ys, hys, rfl⟩ := h
  unfold withOne
  cases hs : s.stack with
  | nil =>
    rw [hs] at hn
    cases hn
  | cons v rest =>
    rw [hs, List.length_cons] at hn
    rw [hs] at hys
    obtain ⟨zs, rfl, hzs⟩ := hys.exists_cons (Nat.le_of_succ_le_succ hn)
    exact hf _ _ v ⟨zs, hzs, rfl⟩ (by rw [hs]; rfl)

theorem agreesAbove_withTwo {f : Interpreter H → Value → Value → Effect H}
    (h : s.AgreesAbove n t) (hn : n + 2 ≤ s.stack.length)
    (hf : ∀ u w x y, u.AgreesAbove n w → (f u x y).AgreesAbove n (f w x y)) :
    (withTwo s f).AgreesAbove n (withTwo t f) := by
  refine agreesAbove_withOne h (by omega) fun u w y hu hl => ?_
  exact agreesAbove_withOne hu (by omega) fun u w x hu _ => hf u w x y hu

theorem agreesAbove_ofResult (h : s.AgreesAbove n t) (a : Activation)
    (r : Except RuntimeError Value) :
    (Effect.ofResult s a r).AgreesAbove n (Effect.ofResult t a r) := by
  cases r with
  | ok v => exact .next (h.push v)
  | error e => exact .stop h

theorem agreesAbove_callFunction (h : s.AgreesAbove n t) (a : Activation)
    (below : List Activation) (k : FunctionId) (f : Function) (args : List Value) :
    (callFunction s a below k f args).AgreesAbove n (callFunction t a below k f args) := by
  have hlength : s.stack.length = t.stack.length := by
    obtain ⟨ys, hys, rfl⟩ := h
    exact hys.length_eq
  have halive := h.alive_eq (a :: below) (.function k :: args) f.home
  have hdepth : s.config = t.config := by
    obtain ⟨ys, -, rfl⟩ := h
    rfl
  unfold callFunction
  rw [halive, hdepth]
  split_ifs
  · exact .stop h
  · exact .stop h
  · unfold enter
    rw [hlength]
    exact .next h
  · exact .stop h

variable [Host H]

theorem agreesAbove_callNative (h : s.AgreesAbove n t) (a : Activation) (f : Native)
    (args : List Value) : (callNative s a f args).AgreesAbove n (callNative t a f args) := by
  have hf := Library.agreesAbove_apply h f args
  unfold callNative
  generalize Library.apply s f args = o at hf ⊢
  generalize Library.apply t f args = o' at hf ⊢
  cases hf with
  | value hs => exact .next (hs.push _)
  | error hs => exact .stop hs
  | load hs => exact .load hs

theorem agreesAbove_call (h : s.AgreesAbove n t) (a : Activation) (below : List Activation)
    (callee : Value) (args : List Value) :
    (call s a below callee args).AgreesAbove n (call t a below callee args) := by
  cases callee with
  | function k =>
    have hheap : s.heap = t.heap := by
      obtain ⟨ys, -, rfl⟩ := h
      rfl
    simp only [call, hheap]
    cases t.heap.function? k with
    | none => exact .stop h
    | some f => exact agreesAbove_callFunction h a below k f args
  | native f => exact agreesAbove_callNative h a f args
  | _ => exact .stop h

omit [Host H] in
theorem agreesAbove_ret (h : s.AgreesAbove n t) (a : Activation) (v : Value) :
    (ret s a v).AgreesAbove n (ret t a v) := by
  unfold ret
  cases a.frames with
  | nil => exact .stop h
  | cons f frames => exact .next ((h.truncate f.base).push v)

omit [Host H] in
theorem agreesAbove_use (h : s.AgreesAbove n t) (a : Activation) (name : String) :
    (use s a name).AgreesAbove n (use t a name) := by
  have hname : t.module? name = s.module? name := by
    obtain ⟨ys, -, rfl⟩ := h
    rfl
  have hresolver : t.resolver = s.resolver := by
    obtain ⟨ys, -, rfl⟩ := h
    rfl
  unfold use
  rw [hname, hresolver]
  cases s.module? name with
  | some m =>
    dsimp only
    split_ifs
    · exact .stop h
    · exact .next (h.push _)
  | none =>
    dsimp only
    cases s.resolver.bind fun r => r name with
    | none => exact .stop h
    | some source => exact .load h

/-- An instruction that finds its operands above a height does not look below it. -/
theorem agreesAbove_execute (h : s.AgreesAbove n t) (a : Activation) (below : List Activation)
    {i : Code.Instr} (hn : n + i.takes ≤ s.stack.length) :
    (execute s a below i).AgreesAbove n (execute t a below i) := by
  unfold execute
  cases i with
  | push v => exact .next (h.push v)
  | pop => exact agreesAbove_withOne h hn fun _ _ _ hu _ => .next hu
  | operate op => exact agreesAbove_withTwo h hn fun _ _ _ _ hu => agreesAbove_ofResult hu a _
  | negate => exact agreesAbove_withOne h hn fun _ _ _ hu _ => agreesAbove_ofResult hu a _
  | invert => exact agreesAbove_withOne h hn fun _ _ _ hu _ => .next (hu.push _)
  | load name =>
    have hlook : lookUp s a name = lookUp t a name := by
      obtain ⟨ys, -, rfl⟩ := h
      rfl
    dsimp only
    rw [hlook]
    cases lookUp t a name with
    | some v => exact .next (h.push v)
    | none => exact .stop h
  | store name =>
    refine agreesAbove_withOne h hn ?_
    rintro u - v ⟨ys, hys, rfl⟩ -
    unfold store
    cases a.frames with
    | nil => exact .next ⟨ys, hys, rfl⟩
    | cons f frames => exact .next ⟨ys, hys, rfl⟩
  | getAttribute name =>
    refine agreesAbove_withOne h hn ?_
    rintro u - v ⟨ys, hys, rfl⟩ -
    exact agreesAbove_ofResult ⟨ys, hys, rfl⟩ a _
  | setAttribute name =>
    refine agreesAbove_withTwo h hn ?_
    rintro u - x y ⟨ys, hys, rfl⟩
    cases y with
    | module m => exact .next ⟨ys, hys, rfl⟩
    | _ => exact .stop ⟨ys, hys, rfl⟩
  | jump target => exact .next h
  | jumpIfFalse target => exact agreesAbove_withOne h hn fun _ _ _ hu _ => .next hu
  | makeFunction name params body =>
    obtain ⟨ys, hys, rfl⟩ := h
    exact .next ⟨_, hys.cons _, rfl⟩
  | call count =>
    obtain ⟨ys, hys, rfl⟩ := h
    simp only [Code.Instr.takes] at hn
    have hs : ¬ s.stack.length < count := by omega
    have ht : ¬ ys.length < count := hys.length_eq ▸ hs
    have hargs : s.stack.take count = ys.take count := hys.take_eq (by omega)
    simp only [Interpreter.popMany, if_neg hs, if_neg ht, hargs]
    refine agreesAbove_withOne ⟨_, hys.drop count, rfl⟩ ?_
      fun _ _ v hu _ => agreesAbove_call hu a below v _
    rw [List.length_drop]
    omega
  | ret => exact agreesAbove_withOne h hn fun _ _ v hu _ => agreesAbove_ret hu a v
  | use name => exact agreesAbove_use h a name
  | raise => exact agreesAbove_withOne h hn fun _ _ _ hu _ => .stop hu

end Instructions

/-! ## Steps -/

/-- The machines do the same from here on, and differ in nothing but the operands below a height. -/
inductive AgreesAbove (n : Nat) : Progress H → Progress H → Prop
  | running {s t : Interpreter H} {a : Activation} {below : List Activation} :
    s.AgreesAbove n t → AgreesAbove n (.running ⟨s, a, below⟩) (.running ⟨t, a, below⟩)
  | done {s t : Interpreter H} {r : Answer} :
    s.AgreesAbove n t → AgreesAbove n (.done s r) (.done t r)

section Steps

variable [Host H] {n : Nat} {s t : Interpreter H}

theorem agreesAbove_endLoad (h : s.AgreesAbove n t) (l : Load) (o : Except LoadError Unit) :
    (s.endLoad l o).1 = (t.endLoad l o).1 ∧
      (s.endLoad l o).2.AgreesAbove n (t.endLoad l o).2 := by
  have hundone : (s.undone l).AgreesAbove n (t.undone l) := by
    obtain ⟨ys, hys, rfl⟩ := h
    refine ⟨ys.drop (ys.length - l.base), ?_, ?_⟩
    · rw [Interpreter.stack_undone, ← hys.length_eq]
      exact hys.drop _
    · unfold Interpreter.undone
      cases l.previous <;> rfl
  have hleft : (s.leaveLoad l).AgreesAbove n (t.leaveLoad l) := by
    obtain ⟨ys, hys, rfl⟩ := h
    exact ⟨ys, hys, rfl⟩
  have hkept : t.Kept l ↔ s.Kept l := by
    obtain ⟨ys, hys, rfl⟩ := h
    exact Iff.rfl
  have hfail : t.failure l o = s.failure l o := by
    obtain ⟨ys, hys, rfl⟩ := h
    rfl
  cases o with
  | error e =>
    rw [s.endLoad_error, t.endLoad_error, hfail]
    exact ⟨rfl, hundone.trace _⟩
  | ok u =>
    by_cases hk : s.Kept l
    · rw [s.endLoad_of_kept l hk, t.endLoad_of_kept l (hkept.2 hk)]
      exact ⟨rfl, hleft.trace _⟩
    · rw [s.endLoad_of_not_kept l hk, t.endLoad_of_not_kept l (hk ∘ hkept.1), hfail]
      exact ⟨rfl, hundone.trace _⟩

theorem agreesAbove_deliver (origin : Origin) (name : String) (r : Except LoadError ModuleId) :
    ∀ {below : List Activation} {s t : Interpreter H}, s.AgreesAbove n t →
      AgreesAbove n (deliver s origin name r below) (deliver t origin name r below)
  | [], _, _, h => .done h
  | a :: below, s, t, h => by
    have hfailed : ∀ e : LoadError, ({ s with lastError := some e } : Interpreter H).AgreesAbove n
        { t with lastError := some e } := by
      obtain ⟨ys, hys, rfl⟩ := h
      exact fun e => ⟨ys, hys, rfl⟩
    cases origin with
    | host =>
      cases r with
      | ok m => exact .running (h.push _)
      | error e => exact .running ((hfailed e).push _)
    | call =>
      cases r with
      | ok m => exact .running (h.push _)
      | error e => exact .running ((hfailed e).push _)
    | use =>
      cases r with
      | ok m => exact .running (h.push _)
      | error cause =>
        simp only [deliver]
        cases a.load with
        | none => exact .done h
        | some l =>
          obtain ⟨hr, hs⟩ :=
            agreesAbove_endLoad h l (.error (a.exception (.importFailed name cause)))
          dsimp only
          rw [hr]
          exact agreesAbove_deliver _ _ _ hs

theorem agreesAbove_finish (h : s.AgreesAbove n t) (a : Activation) (below : List Activation)
    (o : Except LoadError Unit) : AgreesAbove n (finish s a below o) (finish t a below o) := by
  unfold finish
  cases a.load with
  | none => exact .done h
  | some l =>
    obtain ⟨hr, hs⟩ := agreesAbove_endLoad h l o
    dsimp only
    rw [hr]
    exact agreesAbove_deliver _ _ _ hs

theorem agreesAbove_beginLoad (h : s.AgreesAbove n t) (source name : String) (origin : Origin) :
    (s.beginLoad source name origin).1 = (t.beginLoad source name origin).1 ∧
      (s.beginLoad source name origin).2.AgreesAbove n (t.beginLoad source name origin).2 := by
  obtain ⟨zs, hzs, htrace⟩ := h.trace (.loading name)
  obtain ⟨ys, hys, rfl⟩ := h
  constructor
  · rw [Interpreter.beginLoad_fst, Interpreter.beginLoad_fst, hys.length_eq]
  · rw [Interpreter.beginLoad_snd, Interpreter.beginLoad_snd, htrace]
    exact ⟨zs, hzs, rfl⟩

theorem agreesAbove_load (h : s.AgreesAbove n t) (source name : String) (origin : Origin)
    (below : List Activation) :
    AgreesAbove n (load s source name origin below) (load t source name origin below) := by
  have hrefusal : t.refusal? name = s.refusal? name := by
    obtain ⟨ys, hys, rfl⟩ := h
    rfl
  unfold load
  rw [hrefusal]
  cases s.refusal? name with
  | some r => exact agreesAbove_deliver _ _ _ h
  | none =>
    obtain ⟨hl, hs⟩ := agreesAbove_beginLoad h source name origin
    dsimp only
    rw [hl]
    cases Code.compile source (displayName name) with
    | error e =>
      obtain ⟨hr, hs⟩ := agreesAbove_endLoad hs (t.beginLoad source name origin).1
        (.error (.compile e))
      dsimp only
      rw [hr]
      exact agreesAbove_deliver _ _ _ hs
    | ok code => exact .running hs

/-- **A step does not look at the operands below the ones that it takes.** -/
theorem agreesAbove_step {m : Machine H} (h : m.state.AgreesAbove n t)
    (hn : ∀ i line, m.top.code[m.top.ip]? = some (i, line) →
      n + i.takes ≤ m.state.stack.length) : AgreesAbove n m.step (step ⟨t, m.top, m.below⟩) := by
  cases hi : m.top.code[m.top.ip]? with
  | none =>
    rw [step_eq_finish hi, step_eq_finish (m := ⟨t, m.top, m.below⟩) hi]
    exact agreesAbove_finish h m.top m.below _
  | some x =>
    obtain ⟨i, line⟩ := x
    have he := agreesAbove_execute h (jumpTo m.top (m.top.ip + 1)) m.below (hn i line hi)
    rw [step_eq hi, step_eq (m := ⟨t, m.top, m.below⟩) hi]
    dsimp only
    generalize execute m.state (jumpTo m.top (m.top.ip + 1)) m.below i = e at he ⊢
    generalize execute t (jumpTo m.top (m.top.ip + 1)) m.below i = e' at he ⊢
    cases he with
    | next hs => exact .running hs
    | stop hs => exact agreesAbove_finish hs m.top m.below _
    | load hs => exact agreesAbove_load hs _ _ _ _

end Steps

end Machine

end Ember
