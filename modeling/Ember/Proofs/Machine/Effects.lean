import Ember.Proofs.Code.Heights
import Ember.Proofs.Library.Errors
import Ember.Proofs.Library.States
import Ember.Proofs.Machine.Levels
import Ember.Proofs.Machine.Loads

/-!
# What an instruction does

All that an instruction can do to the operands and to the activation, if it finds the operands that
it takes (`execute_cases`), which instructions ask for a load (`asks_execute`), and what no
instruction does: code stays in the load that it belongs to (`stays_execute`), and only loads change
the registry, the active module, the slot for the pending error and the number of loads
(`leftBy_execute`).
-/

namespace Ember

open Code (Instr bodyCode)

/-- All functions on the heap were compiled. -/
def Heap.Compiled (h : Heap) : Prop := ∀ f ∈ h.functions, ∃ line b, f.code = bodyCode line b

namespace Machine

variable {H : Type}

namespace Effect

/-- The state that an instruction leaves behind. -/
def state : Effect H → Interpreter H
  | next s _ => s
  | stop s _ => s
  | load s .. => s

end Effect

/-! ## Operands -/

/-- What an instruction does to the stack and to the activation; `rest` is what lies below the
operands that it takes. -/
inductive Does (i : Instr) (s : Interpreter H) (a : Activation) (rest : List Value) :
    Effect H → Prop
  /-- The code goes on. -/
  | next {t : Interpreter H} (ys : List Value) {locals : Option Fields} {ip : Nat} :
    (∀ n, i ≠ .call n) → ip ∈ i.successors a.ip → t.stack = ys ++ rest → ys.length = i.gives →
    Does i s a rest (.next t (a.place locals ip))
  /-- A call that is over at once. -/
  | given {n : Nat} {t : Interpreter H} {v : Value} :
    i = .call n → t.stack = v :: rest → Does i s a rest (.next t a)
  /-- A call of a function. -/
  | enter {n : Nat} {t : Interpreter H} {f : Function} {args : List Value} :
    i = .call n → f ∈ s.heap.functions → t.stack = rest →
    Does i s a rest (.next t (enter t a f args))
  | ret {t : Interpreter H} {v : Value} {f : Frame} {frames : List Frame} :
    i = .ret → a.frames = f :: frames → t.stack = v :: rest.rtake f.base →
    Does i s a rest (.next t (a.back f frames))
  | stop {t : Interpreter H} {e : RuntimeError} :
    rest <:+ t.stack → ¬ e.Internal → Does i s a rest (.stop t e)
  | load {t : Interpreter H} {source name : String} {origin : Origin} :
    t.stack = rest → i.gives = 1 → i.successors a.ip = [a.ip] →
    Does i s a rest (.load t source name origin)

section

variable {s : Interpreter H} {a : Activation} {below : List Activation} {rest : List Value}

theorem Does.go {i : Instr} {t : Interpreter H} (ys : List Value) {ip : Nat}
    (hc : ∀ n, i ≠ .call n) (hs : ip ∈ i.successors a.ip) (ht : t.stack = ys ++ rest)
    (hg : ys.length = i.gives) : Does i s a rest (.next t (jumpTo a ip)) := by
  rw [← a.place_none]
  exact .next ys hc hs ht hg

theorem Does.halt {i : Instr} {t : Interpreter H} {e : RuntimeError} (ht : t.stack = rest)
    (he : ¬ e.Internal) : Does i s a rest (.stop t e) := by
  have hrest : rest <:+ t.stack := ht ▸ List.suffix_refl _
  exact .stop hrest he

theorem store_eq (s : Interpreter H) (a : Activation) (name : String) (v : Value) :
    ∃ t locals, store s a name v = (t, a.place locals a.ip) ∧ t.stack = s.stack := by
  unfold store
  cases hf : a.frames with
  | nil =>
    refine ⟨s.setField a.globals name v, none, ?_, rfl⟩
    rw [a.place_none]
    rfl
  | cons f frames =>
    refine ⟨s, some (f.locals.set name v), ?_, rfl⟩
    simp only [Activation.place, Activation.framesWith, hf, Option.getD_some]

theorem does_ofResult {i : Instr} {t : Interpreter H} {r : Except RuntimeError Value}
    (ht : t.stack = rest) (hc : ∀ n, i ≠ .call n) (hs : a.ip ∈ i.successors a.ip)
    (hg : i.gives = 1) (hr : Sane r) : Does i s a rest (.ofResult t a r) := by
  cases r with
  | error e => exact .halt ht (hr e rfl)
  | ok v => exact .go [v] hc hs (congrArg (v :: ·) ht) hg.symm

theorem does_callFunction {n : Nat} {t : Interpreter H} {k : FunctionId} {f : Function}
    {args : List Value} (ht : t.stack = rest) (hf : f ∈ s.heap.functions) :
    Does (.call n) s a rest (callFunction t a below k f args) := by
  unfold callFunction
  split_ifs
  · exact .halt ht id
  · exact .halt ht id
  · exact .enter rfl hf ht
  · exact .halt ht id

theorem does_use {t : Interpreter H} {name : String} (ht : t.stack = rest) :
    Does (.use name) s a rest (use t a name) := by
  unfold use
  split
  · split_ifs
    · exact .halt ht id
    · next m _ _ =>
      exact .go [.module m] (by simp) (List.mem_singleton_self _) (congrArg (_ :: ·) ht) rfl
  · split
    · exact .halt ht id
    · exact .load ht rfl rfl

theorem sane_getAttribute (h : Heap) (object : Value) (name : String) :
    Sane (getAttribute h object name) := by
  unfold getAttribute
  split
  · split
    · exact .ok _
    · exact .error id
  · exact .error id

variable [Host H]

theorem does_callNative {n : Nat} {t : Interpreter H} {f : Native} {args : List Value}
    (ht : t.stack = rest) : Does (.call n) s a rest (callNative t a f args) := by
  unfold callNative
  have hl := Library.leaves_apply t f args
  have hs := Library.sane_apply t f args
  cases ho : Library.apply t f args with
  | value u v =>
    rw [ho] at hl
    refine .given rfl (congrArg (v :: ·) ?_)
    rw [← ht, ← (show t.Alike u from hl).stack]
  | error u e =>
    rw [ho] at hl hs
    obtain rfl : u = t := hl
    exact .halt ht hs
  | load u source name =>
    rw [ho] at hl
    obtain rfl : u = t := hl
    exact .load ht rfl rfl

theorem does_call {n : Nat} {t : Interpreter H} {callee : Value} {args : List Value}
    (ht : t.stack = rest) (hh : t.heap = s.heap) :
    Does (.call n) s a rest (call t a below callee args) := by
  cases callee with
  | function k =>
    simp only [call]
    cases hf : t.heap.function? k with
    | none => exact .halt ht id
    | some f =>
      refine does_callFunction ht ?_
      rw [← hh]
      exact Array.mem_of_getElem? hf
  | native f => exact does_callNative ht
  | _ => exact .halt ht id

/-- **What an instruction can do** that finds its operands. -/
theorem execute_cases {i : Instr} {xs : List Value} (hs : s.stack = xs ++ rest)
    (hx : xs.length = i.takes) (hr : i = .ret → a.frames ≠ []) :
    Does i s a rest (execute s a below i) := by
  cases i with
  | push v =>
    obtain rfl := List.length_eq_zero_iff.1 hx
    exact .go [v] (by simp) (List.mem_singleton_self _) (congrArg (v :: ·) hs) rfl
  | pop =>
    obtain ⟨x, rfl⟩ := List.length_eq_one_iff.1 hx
    simp only [execute, withOne, hs]
    exact .go [] (by simp) (List.mem_singleton_self _) rfl rfl
  | operate op =>
    obtain ⟨y, x, rfl⟩ := List.length_eq_two.1 hx
    simp only [execute, withTwo, withOne, hs, List.cons_append, List.nil_append]
    exact does_ofResult rfl (by simp) (List.mem_singleton_self _) rfl (Value.sane_operate op x y)
  | negate =>
    obtain ⟨x, rfl⟩ := List.length_eq_one_iff.1 hx
    simp only [execute, withOne, hs, List.cons_append, List.nil_append]
    exact does_ofResult rfl (by simp) (List.mem_singleton_self _) rfl (Value.sane_neg x)
  | invert =>
    obtain ⟨x, rfl⟩ := List.length_eq_one_iff.1 hx
    simp only [execute, withOne, hs, List.cons_append, List.nil_append]
    exact .go [_] (by simp) (List.mem_singleton_self _) rfl rfl
  | load name =>
    obtain rfl := List.length_eq_zero_iff.1 hx
    simp only [execute]
    split
    · next v _ =>
      exact .go [v] (by simp) (List.mem_singleton_self _) (congrArg (v :: ·) hs) rfl
    · exact .halt hs id
  | store name =>
    obtain ⟨x, rfl⟩ := List.length_eq_one_iff.1 hx
    simp only [execute, withOne, hs, List.cons_append, List.nil_append]
    obtain ⟨t, locals, hst, ht⟩ := store_eq { s with stack := rest } a name x
    rw [hst]
    exact .next [] (by simp) (List.mem_singleton_self _) ht rfl
  | getAttribute name =>
    obtain ⟨x, rfl⟩ := List.length_eq_one_iff.1 hx
    simp only [execute, withOne, hs, List.cons_append, List.nil_append]
    exact does_ofResult rfl (by simp) (List.mem_singleton_self _) rfl (sane_getAttribute _ _ _)
  | setAttribute name =>
    obtain ⟨y, x, rfl⟩ := List.length_eq_two.1 hx
    simp only [execute, withTwo, withOne, hs, List.cons_append, List.nil_append]
    cases y with
    | module m => exact .go [] (by simp) (List.mem_singleton_self _) rfl rfl
    | _ => exact .halt rfl id
  | jump target =>
    obtain rfl := List.length_eq_zero_iff.1 hx
    exact .go [] (by simp) (List.mem_singleton_self _) hs rfl
  | jumpIfFalse target =>
    obtain ⟨x, rfl⟩ := List.length_eq_one_iff.1 hx
    simp only [execute, withOne, hs, List.cons_append, List.nil_append]
    split_ifs
    · exact .go [] (by simp) (List.mem_cons_self ..) rfl rfl
    · exact .go [] (by simp) (List.mem_cons_of_mem _ (List.mem_singleton_self _)) rfl rfl
  | makeFunction name params body =>
    obtain rfl := List.length_eq_zero_iff.1 hx
    exact .go [_] (by simp) (List.mem_singleton_self _) (congrArg (_ :: ·) hs) rfl
  | call n =>
    have hn : ¬ s.stack.length < n := by
      rw [hs, List.length_append, hx]
      simp only [Instr.takes]
      omega
    obtain ⟨args, callee, rfl⟩ : ∃ args callee, xs = args ++ [callee] :=
      ⟨xs.dropLast, xs.getLast (by simp [← List.length_pos_iff, hx, Instr.takes]),
        (List.dropLast_append_getLast _).symm⟩
    have hl : args.length = n := by simpa [Instr.takes] using hx
    have ht : s.stack.take n = args := by
      rw [hs, List.append_assoc, List.take_append_of_le_length (by omega), List.take_of_length_le]
      omega
    have hd : s.stack.drop n = callee :: rest := by
      rw [hs, List.append_assoc, List.drop_append_of_le_length (by omega), ← hl, List.drop_length]
      rfl
    rw [execute, Interpreter.popMany, if_neg hn, ht]
    simp only [withOne, hd]
    exact does_call rfl rfl
  | ret =>
    obtain ⟨x, rfl⟩ := List.length_eq_one_iff.1 hx
    simp only [execute, withOne, hs, List.cons_append, List.nil_append, ret]
    cases hf : a.frames with
    | nil => exact absurd hf (hr rfl)
    | cons f frames => exact .ret rfl hf rfl
  | use name =>
    obtain rfl := List.length_eq_zero_iff.1 hx
    exact does_use hs
  | raise =>
    obtain ⟨x, rfl⟩ := List.length_eq_one_iff.1 hx
    simp only [execute, withOne, hs, List.cons_append, List.nil_append]
    exact .halt rfl id

end

/-! ## The load that code belongs to -/

/-- If the code goes on, then for the same load. -/
def Effect.Stays (l : Option Load) : Effect H → Prop
  | .next _ a => a.load = l
  | .stop .. | .load .. => True

section Stays

variable {s : Interpreter H} {a : Activation} {l : Option Load}

theorem stays_withOne {f : Interpreter H → Value → Effect H} (hf : ∀ s v, (f s v).Stays l) :
    (withOne s f).Stays l := by
  unfold withOne
  cases s.stack with
  | nil => trivial
  | cons v rest => exact hf _ v

theorem stays_withTwo {f : Interpreter H → Value → Value → Effect H}
    (hf : ∀ s x y, (f s x y).Stays l) : (withTwo s f).Stays l :=
  stays_withOne fun _ y => stays_withOne fun s x => hf s x y

theorem stays_ofResult (s : Interpreter H) (a : Activation) (r : Except RuntimeError Value) :
    (Effect.ofResult s a r).Stays a.load := by
  cases r with
  | ok v => exact rfl
  | error e => trivial

theorem stays_callFunction (s : Interpreter H) (a : Activation) (below : List Activation)
    (k : FunctionId) (f : Function) (args : List Value) :
    (callFunction s a below k f args).Stays a.load := by
  unfold callFunction
  split_ifs
  · trivial
  · trivial
  · exact rfl
  · trivial

theorem stays_use (s : Interpreter H) (a : Activation) (name : String) :
    (use s a name).Stays a.load := by
  unfold use
  split
  · split_ifs
    · trivial
    · exact rfl
  · split <;> trivial

variable [Host H]

theorem stays_call (s : Interpreter H) (a : Activation) (below : List Activation) (callee : Value)
    (args : List Value) : (call s a below callee args).Stays a.load := by
  cases callee with
  | function k =>
    simp only [call]
    cases s.heap.function? k with
    | none => trivial
    | some f => exact stays_callFunction s a below k f args
  | native f =>
    simp only [call, callNative]
    cases Library.apply s f args with
    | value t v => exact rfl
    | error t e => trivial
    | load t source name => trivial
  | _ => trivial

/-- An instruction does not leave the load that its code belongs to. -/
theorem stays_execute (s : Interpreter H) (a : Activation) (below : List Activation)
    (i : Code.Instr) : (execute s a below i).Stays a.load := by
  unfold execute
  cases i with
  | push v => exact rfl
  | pop => exact stays_withOne fun _ _ => rfl
  | operate op => exact stays_withTwo fun _ _ _ => stays_ofResult _ a _
  | negate => exact stays_withOne fun _ _ => stays_ofResult _ a _
  | invert => exact stays_withOne fun _ _ => rfl
  | load name =>
    dsimp only
    cases lookUp s a name with
    | some v => exact rfl
    | none => trivial
  | store name =>
    refine stays_withOne fun t v => ?_
    unfold store
    cases a.frames <;> exact rfl
  | getAttribute name => exact stays_withOne fun _ _ => stays_ofResult _ a _
  | setAttribute name =>
    refine stays_withTwo fun t x y => ?_
    cases y with
    | module m => exact rfl
    | _ => trivial
  | jump target => exact rfl
  | jumpIfFalse target =>
    refine stays_withOne fun t x => ?_
    show Activation.load (if x.truthy = true then a else jumpTo a target) = a.load
    split_ifs <;> rfl
  | makeFunction name params body => exact rfl
  | call count =>
    dsimp only
    rcases s.popMany count with ⟨e | args, t⟩
    · trivial
    · exact stays_withOne fun u v => stays_call u a below v args
  | ret =>
    refine stays_withOne fun t v => ?_
    unfold ret
    cases a.frames with
    | nil => trivial
    | cons f frames => exact rfl
  | use name => exact stays_use s a name
  | raise => exact stays_withOne fun _ _ => trivial

end Stays

/-! ## Requests for loads -/

/-- A load is asked for by `exec_module`, which is called, or by an `import` of a module that is
not registered. -/
def Effect.Asks (i : Instr) (s : Interpreter H) : Effect H → Prop
  | .load t _ name origin => ((∃ n, i = .call n) ∧ origin = .call) ∨
      (i = .use name ∧ origin = .use ∧ t = s ∧ s.module? name = none)
  | .next .. | .stop .. => True

section Asks

variable {i : Instr} {s : Interpreter H}

theorem asks_withOne {t : Interpreter H} {f : Interpreter H → Value → Effect H}
    (hf : ∀ u v, (f u v).Asks i s) : (withOne t f).Asks i s := by
  unfold withOne
  cases t.stack with
  | nil => trivial
  | cons v rest => exact hf _ v

theorem asks_withTwo {t : Interpreter H} {f : Interpreter H → Value → Value → Effect H}
    (hf : ∀ u x y, (f u x y).Asks i s) : (withTwo t f).Asks i s :=
  asks_withOne fun _ y => asks_withOne fun u x => hf u x y

theorem asks_ofResult (t : Interpreter H) (a : Activation) (r : Except RuntimeError Value) :
    (Effect.ofResult t a r).Asks i s := by
  cases r <;> trivial

theorem asks_use (s : Interpreter H) (a : Activation) (name : String) :
    (use s a name).Asks (.use name) s := by
  unfold use
  cases hm : s.module? name with
  | some m =>
    dsimp only
    split_ifs <;> trivial
  | none =>
    dsimp only
    cases s.resolver.bind fun r => r name with
    | none => trivial
    | some source => exact .inr ⟨rfl, rfl, rfl, hm⟩

variable [Host H]

theorem asks_call (t : Interpreter H) (a : Activation) (below : List Activation) (callee : Value)
    (args : List Value) (n : Nat) : (call t a below callee args).Asks (.call n) s := by
  cases callee with
  | function k =>
    simp only [call]
    cases t.heap.function? k with
    | none => trivial
    | some f =>
      simp only [callFunction]
      split_ifs <;> trivial
  | native f =>
    simp only [call, callNative]
    cases Library.apply t f args with
    | value u v => trivial
    | error u e => trivial
    | load u source name => exact .inl ⟨⟨n, rfl⟩, rfl⟩
  | _ => trivial

/-- **Which instructions ask for a load**, and when. -/
theorem asks_execute (s : Interpreter H) (a : Activation) (below : List Activation) (i : Instr) :
    (execute s a below i).Asks i s := by
  unfold execute
  cases i with
  | push v => trivial
  | pop => exact asks_withOne fun _ _ => trivial
  | operate op => exact asks_withTwo fun _ _ _ => asks_ofResult _ a _
  | negate => exact asks_withOne fun _ _ => asks_ofResult _ a _
  | invert => exact asks_withOne fun _ _ => trivial
  | load name =>
    dsimp only
    cases lookUp s a name <;> trivial
  | store name => exact asks_withOne fun _ _ => trivial
  | getAttribute name => exact asks_withOne fun _ _ => asks_ofResult _ a _
  | setAttribute name =>
    refine asks_withTwo fun t x y => ?_
    cases y <;> trivial
  | jump target => trivial
  | jumpIfFalse target => exact asks_withOne fun _ _ => trivial
  | makeFunction name params body => trivial
  | call count =>
    dsimp only
    rcases s.popMany count with ⟨e | args, t⟩
    · trivial
    · exact asks_withOne fun u v => asks_call u a below v args count
  | ret =>
    refine asks_withOne fun t v => ?_
    unfold ret
    cases a.frames <;> trivial
  | use name => exact asks_use s a name
  | raise => exact asks_withOne fun _ _ => trivial

/-- What an `import` asks for is not registered. -/
theorem module?_of_execute {a : Activation} {below : List Activation} {t : Interpreter H}
    {source name : String} {origin : Origin}
    (h : execute s a below i = .load t source name origin) (ho : origin = .use) :
    t.module? name = none := by
  have hasks := asks_execute s a below i
  rw [h] at hasks
  rcases hasks with ⟨-, hcall⟩ | ⟨-, -, rfl, hm⟩
  · rw [hcall] at ho
    cases ho
  · exact hm

end Asks

/-! ## What only loads change -/

/-- What an instruction leaves alone. Functions are made by one kind of instruction only. -/
structure LeftBy (i : Instr) (s t : Interpreter H) : Prop where
  registry : t.registry = s.registry
  active : t.active = s.active
  pending : t.pending = s.pending
  loadDepth : t.loadDepth = s.loadDepth
  config : t.config = s.config
  modules : t.heap.modules.size = s.heap.modules.size
  functions : ∀ f ∈ t.heap.functions,
    f ∈ s.heap.functions ∨ ∃ name params, i = .makeFunction name params f.code

namespace LeftBy

variable {i : Instr} {s t u : Interpreter H}

theorem refl (i : Instr) (s : Interpreter H) : LeftBy i s s :=
  ⟨rfl, rfl, rfl, rfl, rfl, rfl, fun _ => .inl⟩

theorem stack (h : LeftBy i s t) (stack : List Value) : LeftBy i s { t with stack := stack } :=
  ⟨h.registry, h.active, h.pending, h.loadDepth, h.config, h.modules, h.functions⟩

theorem push (h : LeftBy i s t) (v : Value) : LeftBy i s (t.push v) := h.stack _

theorem setField (h : LeftBy i s t) (m : ModuleId) (name : String) (v : Value) :
    LeftBy i s (t.setField m name v) where
  registry := h.registry
  active := h.active
  pending := h.pending
  loadDepth := h.loadDepth
  config := h.config
  modules := by rw [← h.modules]; exact Heap.size_modules_setField ..
  functions := h.functions

theorem alike (h : LeftBy i s t) (hu : t.Alike u) : LeftBy i s u where
  registry := hu.registry.trans h.registry
  active := hu.active.trans h.active
  pending := hu.pending.trans h.pending
  loadDepth := hu.loadDepth.trans h.loadDepth
  config := hu.config.trans h.config
  modules := by rw [hu.heap, h.modules]
  functions := by rw [hu.heap]; exact h.functions

theorem withOne {f : Interpreter H → Value → Effect H} (h : LeftBy i s t)
    (hf : ∀ u v, LeftBy i s u → LeftBy i s (f u v).state) :
    LeftBy i s (Machine.withOne t f).state := by
  unfold Machine.withOne
  cases t.stack with
  | nil => exact h
  | cons v rest => exact hf _ v (h.stack rest)

theorem withTwo {f : Interpreter H → Value → Value → Effect H} (h : LeftBy i s t)
    (hf : ∀ u x y, LeftBy i s u → LeftBy i s (f u x y).state) :
    LeftBy i s (Machine.withTwo t f).state :=
  h.withOne fun _ y hu => hu.withOne fun w x hw => hf w x y hw

theorem ofResult (h : LeftBy i s t) (a : Activation) (r : Except RuntimeError Value) :
    LeftBy i s (Effect.ofResult t a r).state := by
  cases r with
  | error e => exact h
  | ok v => exact h.push v

theorem call [Host H] (h : LeftBy i s t) (a : Activation) (below : List Activation)
    (callee : Value) (args : List Value) :
    LeftBy i s (Machine.call t a below callee args).state := by
  cases callee with
  | function k =>
    simp only [Machine.call]
    cases t.heap.function? k with
    | none => exact h
    | some f =>
      simp only [callFunction]
      split_ifs <;> exact h
  | native f =>
    have hl := Library.leaves_apply t f args
    simp only [Machine.call, callNative]
    cases ho : Library.apply t f args with
    | value u v =>
      rw [ho] at hl
      exact (h.alike hl).push v
    | error u e =>
      rw [ho] at hl
      obtain rfl : u = t := hl
      exact h
    | load u source name =>
      rw [ho] at hl
      obtain rfl : u = t := hl
      exact h
  | _ => exact h

theorem use (h : LeftBy i s t) (a : Activation) (name : String) :
    LeftBy i s (Machine.use t a name).state := by
  unfold Machine.use
  split
  · split_ifs
    · exact h
    · exact h.push _
  · split <;> exact h

end LeftBy

/-- Compiled code makes compiled functions only. -/
theorem LeftBy.compiled {i : Instr} {body : Bool} {s t : Interpreter H} (h : LeftBy i s t)
    (hi : i.Proper body) (hs : s.heap.Compiled) : t.heap.Compiled := by
  intro f hf
  rcases h.functions f hf with hf | ⟨name, params, rfl⟩
  · exact hs f hf
  · exact hi

variable [Host H]

/-- **What no instruction does.** -/
theorem leftBy_execute (s : Interpreter H) (a : Activation) (below : List Activation) (i : Instr) :
    LeftBy i s (execute s a below i).state := by
  have h := LeftBy.refl i s
  unfold execute
  cases i with
  | push v => exact h.push v
  | pop => exact h.withOne fun _ _ hu => hu
  | operate op => exact h.withTwo fun _ _ _ hu => hu.ofResult _ _
  | negate => exact h.withOne fun _ _ hu => hu.ofResult _ _
  | invert => exact h.withOne fun _ _ hu => hu.push _
  | load name =>
    dsimp only
    cases lookUp s a name with
    | some v => exact h.push v
    | none => exact h
  | store name =>
    refine h.withOne fun u v hu => ?_
    unfold store
    cases a.frames with
    | nil => exact hu.setField _ _ _
    | cons f frames => exact hu
  | getAttribute name => exact h.withOne fun _ _ hu => hu.ofResult _ _
  | setAttribute name =>
    refine h.withTwo fun u x y hu => ?_
    cases y with
    | module m => exact hu.setField _ _ _
    | _ => exact hu
  | jump target => exact h
  | jumpIfFalse target => exact h.withOne fun _ _ hu => hu
  | makeFunction name params body =>
    refine LeftBy.push ?_ _
    refine ⟨rfl, rfl, rfl, rfl, rfl, rfl, ?_⟩
    intro f hf
    rcases Array.mem_push.1 hf with hf | rfl
    · exact .inl hf
    · exact .inr ⟨name, params, rfl⟩
  | call n =>
    simp only [Interpreter.popMany]
    split_ifs
    · exact h
    · exact (h.stack _).withOne fun u v hu => hu.call a below v _
  | ret =>
    refine h.withOne fun u v hu => ?_
    unfold ret
    cases a.frames with
    | nil => exact hu
    | cons f frames => exact (hu.stack _).push v
  | use name => exact h.use a name
  | raise => exact h.withOne fun _ _ hu => hu

end Machine

end Ember
