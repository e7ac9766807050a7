import Ember.Proofs.Code.Owners
import Ember.Proofs.Library.Values
import Ember.Proofs.Machine.Effects

/-!
# What an instruction does to the whole state

`Acts` lists all that an instruction can do, whatever operands it finds: to the fields of modules,
to the functions, to the operands, and to the activation. `acts_execute` is the one place where the
instructions are gone through for this; what holds of each of these actions holds of every
instruction.
-/

namespace Ember

open Code (Instr)

namespace Machine

variable {H : Type}

/-- Where the value comes from that an instruction gives. -/
inductive Found (i : Instr) (s : Interpreter H) (a : Activation) : Value → Prop
  /-- It refers to nothing. -/
  | plain {v : Value} : v.node? = none → Found i s a v
  | constant {v : Value} : i = .push v → Found i s a v
  /-- A variable of the innermost call. -/
  | locals {f : Frame} {frames : List Frame} {name : String} {v : Value} :
    a.frames = f :: frames → f.locals.get? name = some v → Found i s a v
  /-- A field of the globals. -/
  | globals {name : String} {v : Value} : s.heap.field? a.globals name = some v → Found i s a v
  /-- A field of a module that is an operand. -/
  | field {m : ModuleId} {name : String} {v : Value} :
    .module m ∈ s.stack → s.heap.field? m name = some v → Found i s a v
  /-- A module that is imported and registered. -/
  | registered {name : String} {m : ModuleId} :
    s.module? name = some m → Found i s a (.module m)

/-- What an instruction does; `rest` is what it leaves of the operands. -/
inductive Acts (i : Instr) (s : Interpreter H) (a : Activation) : Effect H → Prop
  | give {rest : List Value} {v : Value} {t : Interpreter H} :
    rest <:+ s.stack → Found i s a v → a.ip ∈ i.successors a.ip →
    Interpreter.Alike { s with stack := v :: rest } t → Acts i s a (.next t a)
  | drop {rest : List Value} {ip : Nat} :
    rest <:+ s.stack → ip ∈ i.successors a.ip →
    Acts i s a (.next { s with stack := rest } (jumpTo a ip))
  /-- A variable of the innermost call gets a value. -/
  | assign {name : String} {v : Value} {rest : List Value} {f : Frame} {frames : List Frame} :
    i = .store name → s.stack = v :: rest → a.frames = f :: frames →
    Acts i s a (.next { s with stack := rest }
      { a with frames := { f with locals := f.locals.set name v } :: frames })
  /-- A field of the globals gets a value, outside of calls. -/
  | bind {name : String} {v : Value} {rest : List Value} :
    i = .store name → s.stack = v :: rest → a.frames = [] →
    Acts i s a (.next (({ s with stack := rest } : Interpreter H).setField a.globals name v) a)
  | setAttribute {name : String} {m : ModuleId} {v : Value} {rest : List Value} :
    i = .setAttribute name → s.stack = .module m :: v :: rest →
    Acts i s a (.next (({ s with stack := rest } : Interpreter H).setField m name v) a)
  | makeFunction {name : String} {params : List String} {body : Array (Instr × Nat)} :
    i = .makeFunction name params body →
    Acts i s a (.next ((s.newFunction ⟨name, params, body, a.globals⟩).2.push
      (.function (s.newFunction ⟨name, params, body, a.globals⟩).1)) a)
  | enter {n : Nat} {k : FunctionId} {f : Function} {args rest : List Value} :
    i = .call n → s.stack = args.reverse ++ .function k :: rest → s.heap.function? k = some f →
    args.length = f.params.length → a.frames.length < s.config.maxCallDepth →
    Acts i s a (.next { s with stack := rest } (enter { s with stack := rest } a f args))
  | ret {v : Value} {rest : List Value} {f : Frame} {frames : List Frame} :
    i = .ret → s.stack = v :: rest → a.frames = f :: frames →
    Acts i s a (.next ((({ s with stack := rest } : Interpreter H).truncate f.base).push v)
      (a.back f frames))
  | stop {rest : List Value} {e : RuntimeError} :
    rest <:+ s.stack → e.Internal ∨ i.Fails → Acts i s a (.stop { s with stack := rest } e)
  | load {rest : List Value} {source name : String} {origin : Origin} :
    rest <:+ s.stack → a.ip ∈ i.successors a.ip → i.Fails →
    Acts i s a (.load { s with stack := rest } source name origin)

section

variable {i : Instr} {s : Interpreter H} {a : Activation} {below : List Activation}

theorem acts_underflow : Acts i s a (.stop s .stackUnderflow) :=
  .stop (List.suffix_refl _) (.inl trivial)

/-- An instruction that takes an operand misses it, or does something with it. -/
theorem acts_withOne {f : Interpreter H → Value → Effect H}
    (hf : ∀ v rest, s.stack = v :: rest → Acts i s a (f { s with stack := rest } v)) :
    Acts i s a (withOne s f) := by
  unfold withOne
  cases hs : s.stack with
  | nil => exact acts_underflow
  | cons v rest => exact hf v rest hs

theorem acts_withTwo {f : Interpreter H → Value → Value → Effect H}
    (hf : ∀ x y rest, s.stack = y :: x :: rest → Acts i s a (f { s with stack := rest } x y)) :
    Acts i s a (withTwo s f) := by
  refine acts_withOne fun y rest hs => ?_
  unfold withOne
  cases rest with
  | nil =>
    have hrest : [] <:+ s.stack := List.nil_suffix
    exact .stop hrest (.inl trivial)
  | cons x rest => exact hf x y rest hs

theorem acts_ofResult {rest : List Value} {r : Except RuntimeError Value}
    (hs : rest <:+ s.stack) (hr : ∀ v, r = .ok v → Found i s a v) (hi : a.ip ∈ i.successors a.ip)
    (he : i.Fails) : Acts i s a (.ofResult { s with stack := rest } a r) := by
  cases r with
  | error e => exact .stop hs (.inr he)
  | ok v => exact .give hs (hr v rfl) hi (.refl _)

theorem found_of_lookUp {name : String} {v : Value} (h : lookUp s a name = some v) :
    Found i s a v := by
  unfold lookUp at h
  rw [Option.or_eq_some_iff, Option.or_eq_some_iff] at h
  rcases h with (h | ⟨-, h⟩) | ⟨-, h⟩
  · obtain ⟨f, hf, hv⟩ := Option.bind_eq_some_iff.1 h
    obtain ⟨frames, hframes⟩ := List.head?_eq_some_iff.1 hf
    exact .locals hframes hv
  · exact .globals h
  · obtain ⟨f, -, rfl⟩ := Option.map_eq_some_iff.1 h
    exact .plain rfl

theorem found_of_getAttribute {object v : Value} {name : String} (hm : object ∈ s.stack)
    (h : getAttribute s.heap object name = .ok v) : Found i s a v := by
  unfold getAttribute at h
  split at h
  · split at h
    · next hf =>
      cases h
      exact .field hm hf
    · cases h
  · cases h

theorem acts_use (name : String) : Acts (.use name) s a (use s a name) := by
  have hs : s.stack <:+ s.stack := List.suffix_refl _
  unfold use
  cases hm : s.module? name with
  | some m =>
    dsimp only
    split_ifs
    · exact .stop hs (.inr trivial)
    · exact .give hs (.registered hm) (List.mem_singleton_self _) (.refl _)
  | none =>
    dsimp only
    cases s.resolver.bind fun r => r name with
    | none => exact .stop hs (.inr trivial)
    | some source => exact .load hs (List.mem_singleton_self _) trivial

variable [Host H]

theorem acts_callNative {n : Nat} {rest : List Value} (hs : rest <:+ s.stack) (f : Native)
    (args : List Value) : Acts (.call n) s a (callNative { s with stack := rest } a f args) := by
  unfold callNative
  have hleaves := Library.leaves_apply { s with stack := rest } f args
  have hplain := Library.plain_apply { s with stack := rest } f args
  cases ho : Library.apply { s with stack := rest } f args with
  | value t v =>
    rw [ho] at hleaves hplain
    refine .give hs (.plain hplain) (List.mem_singleton_self _) ?_
    show (Interpreter.push { s with stack := rest } v).Alike (t.push v)
    rw [show t = _ from hleaves]
    rfl
  | error t e =>
    rw [ho] at hleaves
    obtain rfl : t = { s with stack := rest } := hleaves
    exact .stop hs (.inr trivial)
  | load t source name =>
    rw [ho] at hleaves
    obtain rfl : t = { s with stack := rest } := hleaves
    exact .load hs (List.mem_singleton_self _) trivial

theorem acts_call {n : Nat} {args rest : List Value} {callee : Value}
    (hs : s.stack = args.reverse ++ callee :: rest) :
    Acts (.call n) s a (call { s with stack := rest } a below callee args) := by
  have hrest : rest <:+ s.stack := ⟨args.reverse ++ [callee], by rw [hs, List.append_assoc]; rfl⟩
  cases callee with
  | function k =>
    simp only [call]
    cases hf : s.heap.function? k with
    | none => exact .stop hrest (.inr trivial)
    | some f =>
      dsimp only [callFunction]
      split_ifs with hargs hdepth halive
      · exact .stop hrest (.inr trivial)
      · exact .stop hrest (.inr trivial)
      · exact .enter rfl hs hf (not_not.1 hargs) (Nat.lt_of_not_le hdepth)
      · exact .stop hrest (.inr trivial)
  | native f => exact acts_callNative hrest f args
  | _ => exact .stop hrest (.inr trivial)

/-- **All that an instruction can do.** -/
theorem acts_execute (s : Interpreter H) (a : Activation) (below : List Activation) (i : Instr) :
    Acts i s a (execute s a below i) := by
  have hall : s.stack <:+ s.stack := List.suffix_refl _
  have hone : ∀ {v rest}, s.stack = v :: rest → rest <:+ s.stack := fun hs => by simp [hs]
  have htwo : ∀ {v w rest}, s.stack = v :: w :: rest → rest <:+ s.stack := fun {v w rest} hs =>
    ⟨[v, w], hs.symm⟩
  unfold execute
  cases i with
  | push v => exact .give hall (.constant rfl) (List.mem_singleton_self _) (.refl _)
  | pop => exact acts_withOne fun v rest hs => .drop (hone hs) (List.mem_singleton_self _)
  | operate op =>
    refine acts_withTwo fun x y rest hs => ?_
    exact acts_ofResult (htwo hs) (fun v hv => .plain (Value.plain_operate op x y v hv))
      (List.mem_singleton_self _) trivial
  | negate =>
    refine acts_withOne fun x rest hs => ?_
    exact acts_ofResult (hone hs) (fun v hv => .plain (Value.plain_neg x v hv))
      (List.mem_singleton_self _) trivial
  | invert =>
    refine acts_withOne fun x rest hs => ?_
    exact .give (hone hs) (.plain rfl) (List.mem_singleton_self _) (.refl _)
  | load name =>
    dsimp only
    cases hv : lookUp s a name with
    | some v => exact .give hall (found_of_lookUp hv) (List.mem_singleton_self _) (.refl _)
    | none => exact .stop hall (.inr trivial)
  | store name =>
    refine acts_withOne fun v rest hs => ?_
    unfold store
    cases hf : a.frames with
    | nil => exact .bind rfl hs hf
    | cons f frames => exact .assign rfl hs hf
  | getAttribute name =>
    refine acts_withOne fun x rest hs => ?_
    have hx : x ∈ s.stack := hs ▸ List.mem_cons_self ..
    exact acts_ofResult (hone hs) (fun v hv => found_of_getAttribute hx hv)
      (List.mem_singleton_self _) trivial
  | setAttribute name =>
    refine acts_withTwo fun v object rest hs => ?_
    cases object with
    | module m => exact .setAttribute rfl hs
    | _ => exact .stop (htwo hs) (.inr trivial)
  | jump target => exact .drop hall (List.mem_singleton_self _)
  | jumpIfFalse target =>
    refine acts_withOne fun x rest hs => ?_
    split_ifs
    · exact .drop (hone hs) (List.mem_cons_self ..)
    · exact .drop (hone hs) (List.mem_cons_of_mem _ (List.mem_singleton_self _))
  | makeFunction name params body => exact .makeFunction rfl
  | call n =>
    simp only [Interpreter.popMany]
    split_ifs with hn
    · exact acts_underflow
    · unfold withOne
      cases hd : s.stack.drop n with
      | nil => exact .stop (hd ▸ List.drop_suffix n s.stack) (.inl trivial)
      | cons callee rest =>
        -- The arguments lie above the callee, the last of them on top.
        refine acts_call ?_
        rw [List.reverse_reverse, ← hd, List.take_append_drop]
  | ret =>
    refine acts_withOne fun v rest hs => ?_
    unfold ret
    cases hf : a.frames with
    | nil => exact .stop (hone hs) (.inl trivial)
    | cons f frames => exact .ret rfl hs hf
  | use name => exact acts_use name
  | raise => exact acts_withOne fun v rest hs => .stop (hone hs) (.inr trivial)

end

end Machine

end Ember
