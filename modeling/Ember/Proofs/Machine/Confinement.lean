import Ember.Proofs.Code.Loops
import Ember.Proofs.Machine.Actions
import Ember.Proofs.Machine.Invariants

/-!
# What code can get at

Code gets at an object through the registry, through its operands and variables, through the fields
of modules that it gets at, and through calling functions, whose code sees the fields of the module
that defined them (`Interpreter.Sees`). It makes no references out of other values. So a set of
objects that is closed in this way, and to which all objects belong that are still to be made,
confines a whole run (`confinement_invariant`). The smallest such set is `Interpreter.scope`.

What this is for here: if no function in the set has a loop in its code, and no source that is
compiled has one, then the code that runs has no loops at any time.
-/

namespace Ember

variable {H : Type}

/-- The objects that code can get at in a state. -/
inductive Interpreter.Sees (s : Interpreter H) : Node → Prop
  | registered {name : String} {m : ModuleId} : s.module? name = some m → s.Sees (.module m)
  | operand {v : Value} {n : Node} : v ∈ s.stack → v.node? = some n → s.Sees n
  | field {m : ModuleId} {name : String} {v : Value} {n : Node} :
    s.Sees (.module m) → s.heap.field? m name = some v → v.node? = some n → s.Sees n
  | home {k : FunctionId} {f : Function} :
    s.Sees (.function k) → s.heap.function? k = some f → s.Sees (.module f.home)

/-- What code can get at in a state, and all objects that are still to be made. -/
def Interpreter.scope (s : Interpreter H) : Set Node :=
  {n | s.Sees n ∨ (∃ m, n = .module m ∧ s.heap.modules.size ≤ m.index) ∨
    ∃ k, n = .function k ∧ s.heap.functions.size ≤ k.index}

variable {G : Set Node}

/-- The object that a value refers to, if any, is in the set. -/
def Value.In (G : Set Node) (v : Value) : Prop := ∀ n, v.node? = some n → n ∈ G

theorem Value.In.of_plain {v : Value} (hv : v.node? = none) : v.In G := by
  intro n hn
  rw [hv] at hn
  cases hn

/-! ## States -/

/-- What code gets at in a state is in the set, and so is all that is still to be made. The
functions in the set have no loops in their code. -/
structure Interpreter.Confined (G : Set Node) (s : Interpreter H) : Prop where
  registered : ∀ name m, s.module? name = some m → .module m ∈ G
  operands : ∀ v ∈ s.stack, v.In G
  fields : ∀ m, .module m ∈ G → ∀ name v, s.heap.field? m name = some v → v.In G
  functions : ∀ k f, .function k ∈ G → s.heap.function? k = some f →
    f.code.Straight ∧ .module f.home ∈ G
  newModules : ∀ m : ModuleId, s.heap.modules.size ≤ m.index → .module m ∈ G
  newFunctions : ∀ k : FunctionId, s.heap.functions.size ≤ k.index → .function k ∈ G

namespace Interpreter.Confined

variable {s t : Interpreter H}

theorem congr (h : s.Confined G) (hr : ∀ name m, t.module? name = some m → .module m ∈ G)
    (hs : ∀ v ∈ t.stack, v.In G) (hh : t.heap = s.heap) : t.Confined G where
  registered := hr
  operands := hs
  fields := by rw [hh]; exact h.fields
  functions := by rw [hh]; exact h.functions
  newModules := by rw [hh]; exact h.newModules
  newFunctions := by rw [hh]; exact h.newFunctions

theorem operands_of_suffix (h : s.Confined G) {rest : List Value} (hs : rest <:+ s.stack) :
    ∀ v ∈ rest, v.In G := fun v hv => h.operands v (hs.subset hv)

theorem push (h : s.Confined G) {rest : List Value} {v : Value} (hs : rest <:+ s.stack)
    (hv : v.In G) : Confined G { s with stack := v :: rest } := by
  refine h.congr h.registered (fun w hw => ?_) rfl
  rcases List.mem_cons.1 hw with rfl | hw
  · exact hv
  · exact h.operands_of_suffix hs w hw

theorem drop (h : s.Confined G) {rest : List Value} (hs : rest <:+ s.stack) :
    Confined G { s with stack := rest } :=
  h.congr h.registered (h.operands_of_suffix hs) rfl

theorem alike (h : s.Confined G) (ht : s.Alike t) : t.Confined G := by
  refine h.congr (fun name m hm => h.registered name m ?_) (ht.stack ▸ h.operands) ht.heap
  rw [← hm, module?, module?, ht.registry]

theorem setField (h : s.Confined G) (m : ModuleId) (name : String) {v : Value} (hv : v.In G) :
    (s.setField m name v).Confined G where
  registered := h.registered
  operands := h.operands
  fields x hx n w hw := by
    rcases s.heap.eq_or_field?_of_setField hw with rfl | hw
    · exact hv
    · exact h.fields x hx n w hw
  functions := h.functions
  newModules x hx := h.newModules x (by simpa [Interpreter.setField] using hx)
  newFunctions := h.newFunctions

theorem newFunction (h : s.Confined G) {f : Function} (hc : f.code.Straight)
    (hg : .module f.home ∈ G) : (s.newFunction f).2.Confined G where
  registered := h.registered
  operands := h.operands
  fields := h.fields
  functions k g hk hg' := by
    have hg' : (s.heap.functions.push f)[k.index]? = some g := hg'
    rw [Array.getElem?_push] at hg'
    split_ifs at hg'
    · cases hg'
      exact ⟨hc, hg⟩
    · exact h.functions k g hk hg'
  newModules := h.newModules
  newFunctions k hk := by
    refine h.newFunctions k (Nat.le_of_succ_le ?_)
    simpa [Interpreter.newFunction, Heap.newFunction] using hk

variable [Host H]

/-- A load begins, of a module that is in the set because it is new. -/
theorem beginLoad (h : s.Confined G) (source name : String) (origin : Origin) :
    (s.beginLoad source name origin).2.Confined G := by
  have hnew : .module s.heap.nextModule ∈ G := h.newModules _ (Nat.le_refl _)
  rw [s.beginLoad_snd]
  refine ⟨fun n m hm => ?_, ?_, fun m hm n v hv => ?_, fun k f hk hf => ?_, fun m hm => ?_,
    fun k hk => ?_⟩
  · rw [module?, Table.get?_set] at hm
    by_cases hn : name = n
    · rw [if_pos hn] at hm
      cases hm
      exact hnew
    · rw [if_neg hn] at hm
      exact h.registered n m hm
  · show ∀ v ∈ (s.trace (.loading name)).stack, v.In G
    rw [s.stack_trace]
    exact h.operands
  · have hv : (s.heapWithNext source name).field? m n = some v := hv
    by_cases he : m = s.heap.nextModule
    · subst he
      obtain ⟨t, rfl⟩ := s.eq_text_of_heapWithNext source name hv
      exact .of_plain rfl
    · rw [Heap.field?, s.fields_heapWithNext source name he] at hv
      exact h.fields m hm n v hv
  · refine h.functions k f hk ?_
    rw [← hf]
    exact congrArg (·[k.index]?) (s.functions_heapWithNext source name).symm
  · have hm : (s.heapWithNext source name).modules.size ≤ m.index := hm
    rw [s.size_modules_heapWithNext] at hm
    exact h.newModules m (Nat.le_of_succ_le hm)
  · refine h.newFunctions k ?_
    rw [← s.functions_heapWithNext source name]
    exact hk

/-- A load ends that puts back a module of the set. -/
theorem endLoad {l : Load} (h : s.Confined G) (hl : ∀ m, l.previous = some m → .module m ∈ G)
    (o : Except LoadError Unit) : (s.endLoad l o).2.Confined G := by
  rcases s.endLoad_cases l o with ⟨-, -, he⟩ | he
  · rw [he]
    have hleft : (s.leaveLoad l).Confined G := h.congr h.registered h.operands rfl
    exact hleft.alike ((s.leaveLoad l).alike_trace _)
  · rw [he]
    refine Confined.alike (h.congr (fun name m hm => ?_) (fun v hv => ?_) (s.heap_undone l))
      ((s.undone l).alike_trace _)
    · by_cases hn : l.name = name
      · subst hn
        rw [s.module?_undone] at hm
        exact hl m hm
      · rw [s.module?_undone_of_ne l hn] at hm
        exact h.registered name m hm
    · rw [s.stack_undone] at hv
      exact h.operands v (List.mem_of_mem_drop hv)

end Interpreter.Confined

/-! ## Activations -/

/-- A call in progress goes back to code without loops, and all that it refers to is in the set. -/
structure Frame.Confined (G : Set Node) (f : Frame) : Prop where
  code : f.code.Straight
  globals : .module f.globals ∈ G
  locals : ∀ name v, f.locals.get? name = some v → v.In G

/-- An activation runs code without loops, and all that it refers to is in the set. -/
structure Activation.Confined (G : Set Node) (a : Activation) : Prop where
  code : a.code.Straight
  globals : .module a.globals ∈ G
  frames : ∀ f ∈ a.frames, f.Confined G
  previous : ∀ l, a.load = some l → ∀ m, l.previous = some m → .module m ∈ G

namespace Machine

/-- What an instruction leaves behind is in the set. -/
def Effect.Confined (G : Set Node) : Effect H → Prop
  | .next s a => s.Confined G ∧ a.Confined G
  | .stop s _ => s.Confined G
  | .load s .. => s.Confined G

variable {s t : Interpreter H} {a b : Activation} {below : List Activation}

theorem in_of_found {i : Code.Instr} {k : Nat} {v : Value} (hs : s.Confined G)
    (ha : a.Confined G) (hi : Code.Straight k i) (hv : Found i s a v) : v.In G := by
  cases hv with
  | plain hv => exact .of_plain hv
  | constant hv => exact .of_plain (hi.constant v hv)
  | locals hf hv => exact (ha.frames _ (hf ▸ List.mem_cons_self ..)).locals _ v hv
  | globals hv => exact hs.fields _ ha.globals _ v hv
  | field hm hv => exact hs.fields _ (hs.operands _ hm _ rfl) _ v hv
  | registered hm =>
    intro n hn
    cases hn
    exact hs.registered _ _ hm

/-- The parameters of a call are its arguments. -/
theorem mem_of_parameters {names : List String} {args : List Value} {name : String} {v : Value}
    (h : (parameters names args).get? name = some v) : v ∈ args := by
  have hall : ∀ (es : List (String × Value)) (t : Table Value),
      (es.foldl (fun t e => t.set e.1 e.2) t).get? name = some v →
        (∃ e ∈ es, e.2 = v) ∨ t.get? name = some v := by
    intro es
    induction es with
    | nil => exact fun t ht => .inr ht
    | cons e es ih =>
      intro t ht
      rcases ih _ ht with ⟨e', he', hv⟩ | ht
      · exact .inl ⟨e', List.mem_cons_of_mem e he', hv⟩
      · rw [Table.get?_set] at ht
        split_ifs at ht
        · exact .inl ⟨e, List.mem_cons_self .., Option.some.inj ht⟩
        · exact .inr ht
  rcases hall _ _ h with ⟨e, he, rfl⟩ | hnone
  · exact (List.of_mem_zip he).2
  · cases hnone

variable [Host H]

/-- **Code without loops does not get out of the set.** -/
theorem confined_execute {i : Code.Instr} {k : Nat} (hs : s.Confined G) (ha : a.Confined G)
    (hi : Code.Straight k i) : (execute s a below i).Confined G := by
  have hacts := acts_execute s a below i
  generalize execute s a below i = effect at hacts ⊢
  cases hacts with
  | give hrest hv _ ht => exact ⟨(hs.push hrest (in_of_found hs ha hi hv)).alike ht, ha⟩
  | drop hrest _ => exact ⟨hs.drop hrest, ⟨ha.code, ha.globals, ha.frames, ha.previous⟩⟩
  | @assign name v rest f frames _ hstack hf =>
    have hrest : rest <:+ s.stack := hstack ▸ List.suffix_cons v rest
    have hv : v.In G := hs.operands v (hstack ▸ List.mem_cons_self ..)
    have hframes := ha.frames
    rw [hf] at hframes
    refine ⟨hs.drop hrest, ha.code, ha.globals, fun g hg => ?_, ha.previous⟩
    rcases List.mem_cons.1 hg with rfl | hg
    · obtain ⟨hcode, hglobals, hlocals⟩ := hframes f (List.mem_cons_self ..)
      refine ⟨hcode, hglobals, fun n w hw => ?_⟩
      rw [Table.get?_set] at hw
      split_ifs at hw
      · cases hw
        exact hv
      · exact hlocals n w hw
    · exact hframes g (List.mem_cons_of_mem f hg)
  | @bind name v rest _ hstack _ =>
    have hrest : rest <:+ s.stack := hstack ▸ List.suffix_cons v rest
    have hv : v.In G := hs.operands v (hstack ▸ List.mem_cons_self ..)
    exact ⟨(hs.drop hrest).setField _ _ hv, ha⟩
  | @setAttribute name m v rest _ hstack =>
    have hrest : rest <:+ s.stack := hstack ▸ ⟨[.module m, v], rfl⟩
    have hv : v.In G := hs.operands v (hstack ▸ List.mem_cons_of_mem _ (List.mem_cons_self ..))
    exact ⟨(hs.drop hrest).setField _ _ hv, ha⟩
  | @makeFunction name params body hmake =>
    obtain ⟨line, b, hbody, hloop⟩ := hi.makeFunction name params body hmake
    have hcode : Code.Chunk.Straight body := hbody ▸ Code.straight_bodyCode line hloop
    have hmade := hs.newFunction (f := ⟨name, params, body, a.globals⟩) hcode ha.globals
    refine ⟨hmade.push (List.suffix_refl _) fun n hn => ?_, ha⟩
    cases hn
    exact hs.newFunctions _ (Nat.le_refl _)
  | @enter n k f args rest _ hstack hf _ _ =>
    have hrest : rest <:+ s.stack := ⟨args.reverse ++ [.function k], by
      rw [hstack, List.append_assoc]
      rfl⟩
    have hmem : ∀ v ∈ args, v.In G := fun v hv => hs.operands v (by simp [hstack, hv])
    -- The function is an operand, so it is in the set, and with it the module that defined it.
    have hk : .function k ∈ G := hs.operands (.function k) (by simp [hstack]) _ rfl
    obtain ⟨hcode, hhome⟩ := hs.functions k f hk hf
    refine ⟨hs.drop hrest, hcode, hhome, fun g hg => ?_, ha.previous⟩
    rcases List.mem_cons.1 hg with rfl | hg
    · exact ⟨ha.code, ha.globals, fun n v hv => hmem v (mem_of_parameters hv)⟩
    · exact ha.frames g hg
  | @ret v rest f frames _ hstack hf =>
    have hrest : rest <:+ s.stack := hstack ▸ List.suffix_cons v rest
    have hv : v.In G := hs.operands v (hstack ▸ List.mem_cons_self ..)
    have hframes := ha.frames
    rw [hf] at hframes
    obtain ⟨hcode, hglobals, -⟩ := hframes f (List.mem_cons_self ..)
    refine ⟨hs.push ((List.drop_suffix _ _).trans hrest) hv, hcode, hglobals, fun g hg => ?_,
      ha.previous⟩
    exact hframes g (List.mem_cons_of_mem f hg)
  | stop hrest => exact hs.drop hrest
  | load hrest => exact hs.drop hrest

/-! ## Runs -/

/-- What holds of the state and of the activations in progress. -/
def Confinement (G : Set Node) (s : Interpreter H) (activations : List Activation) : Prop :=
  s.Confined G ∧ ∀ a ∈ activations, a.Confined G

omit [Host H] in
theorem Confinement.tail (h : Confinement G s (a :: below)) : ∀ b ∈ below, b.Confined G :=
  fun b hb => h.2 b (List.mem_cons_of_mem a hb)

omit [Host H] in
theorem Confinement.jump (h : Confinement G s (a :: below)) (ip : Nat) :
    (jumpTo a ip).Confined G := by
  obtain ⟨hcode, hglobals, hframes, hprevious⟩ := h.2 a (List.mem_cons_self ..)
  exact ⟨hcode, hglobals, hframes, hprevious⟩

theorem Confinement.execute {i : Code.Instr} {line : Nat} (h : Confinement G s (a :: below))
    (hi : a.code[a.ip]? = some (i, line)) :
    (Machine.execute s (jumpTo a (a.ip + 1)) below i).Confined G :=
  confined_execute h.1 (h.jump _) ((h.2 a (List.mem_cons_self ..)).code _ _ _ hi)

/-- The activation that asks for a load is suspended. -/
theorem Confinement.asks {i : Code.Instr} {line : Nat} {source name : String} {origin : Origin}
    (h : Confinement G s (a :: below)) (hi : a.code[a.ip]? = some (i, line))
    (he : Machine.execute s (jumpTo a (a.ip + 1)) below i = .load t source name origin) :
    Confinement G t (jumpTo a (a.ip + 1) :: below) := by
  have hexecute := h.execute hi
  rw [he] at hexecute
  refine ⟨hexecute, fun c hc => ?_⟩
  rcases List.mem_cons.1 hc with rfl | hc
  · exact h.jump _
  · exact h.tail c hc

theorem Confinement.begin {source name : String} {origin : Origin} {code : Code.Chunk}
    (h : Confinement G s below) (hc : code.Straight) :
    Confinement G (s.beginLoad source name origin).2
      (begun s source name origin code :: below) := by
  refine ⟨h.1.beginLoad source name origin, fun b hb => ?_⟩
  rcases List.mem_cons.1 hb with rfl | hb
  · refine ⟨hc, ?_, nofun, fun l hl m hm => ?_⟩
    · show .module (s.beginLoad source name origin).1.module ∈ G
      rw [s.beginLoad_fst]
      exact h.1.newModules _ (Nat.le_refl _)
    · cases hl
      rw [s.beginLoad_fst] at hm
      exact h.1.registered name m hm
  · exact h.2 b hb

/-- **Runs of code without loops do not get out of the set**, as long as what they compile has no
loops. -/
theorem confinement_invariant (G : Set Node) : InvariantIf (fun _ b => b.code.Straight)
    (Confinement G (H := H)) where
  next := by
    intro s t a b below i line h hi he
    have hexecute := h.execute hi
    rw [he] at hexecute
    refine ⟨hexecute.1, fun c hc => ?_⟩
    rcases List.mem_cons.1 hc with rfl | hc
    · exact hexecute.2
    · exact h.tail c hc
  stop := by
    intro s t a below i line e h hi he
    have hexecute := h.execute hi
    rw [he] at hexecute
    exact ⟨hexecute, h.2⟩
  asks h hi he := h.asks hi he
  begins h hi he _ _ hB := (h.asks hi he).begin hB
  fails := by
    intro s t a below i line source name origin e h hi he hr hc
    obtain ⟨ht, hbelow⟩ := h.asks hi he
    refine ⟨(ht.beginLoad source name origin).endLoad (fun m hm => ?_) _, hbelow⟩
    rw [t.beginLoad_fst] at hm
    exact ht.registered name m hm
  receives := by
    intro s a below h v e hv
    have hnext : Interpreter.Confined G { s with lastError := e } :=
      h.1.congr h.1.registered h.1.operands rfl
    refine ⟨hnext.push (List.suffix_refl _) fun n hn => ?_, h.2⟩
    rcases hv with hv | ⟨name, m, hm, rfl⟩
    · rw [hv] at hn
      cases hn
    · cases hn
      exact h.1.registered name m hm
  ends := by
    intro s a below l h hl o
    exact ⟨h.1.endLoad ((h.2 a (List.mem_cons_self ..)).previous l hl) o, h.tail⟩
  stops h _ := ⟨h.1, nofun⟩

/-! ## The objects that a run gets at -/

omit [Host H] in
theorem confined_scope (hf : ∀ k f, s.Sees (.function k) → s.heap.function? k = some f →
    f.code.Straight) : s.Confined s.scope where
  registered name m hm := .inl (.registered hm)
  operands v hv n hn := .inl (.operand hv hn)
  fields := by
    rintro m (hm | ⟨m', hm, hsize⟩ | ⟨k, hk, -⟩) name v hv n hn
    · exact .inl (.field hm hv hn)
    · cases hm
      rw [Heap.field?, Heap.fields, Array.getElem?_eq_none hsize] at hv
      cases hv
    · cases hk
  functions := by
    rintro k f (hk | ⟨m, hm, -⟩ | ⟨k', hk, hsize⟩) hkf
    · exact ⟨hf k f hk hkf, .inl (.home hk hkf)⟩
    · cases hm
    · cases hk
      rw [Heap.function?, Array.getElem?_eq_none hsize] at hkf
      cases hkf
  newModules m hm := .inr (.inl ⟨m, rfl, hm⟩)
  newFunctions k hk := .inr (.inr ⟨k, rfl, hk⟩)

end Machine

end Ember
