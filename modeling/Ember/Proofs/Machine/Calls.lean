import Ember.Proofs.Code.Layout
import Ember.Proofs.Machine.Actions
import Ember.Proofs.Machine.Circularity

/-!
# The discipline of calls

**Theorem (`calls_in_order`).** In every run, each activation in progress has at most as many calls
as the settings allow. The code and the globals of each of these calls are those of a function, and
outside of the calls they are what the activation was started with: the code of the source that its
load has compiled, on the fields of the module that the load has made.

A call puts the caller's code and globals into the frame together, and a return takes them from
there together. So the pairs of code and globals, from the innermost call to the body of the module
(`Activation.contexts`), are a stack on which a call pushes one pair and from which a return takes
one.
-/

namespace Ember

open Code (blockCode readProgram)

variable {H : Type}

/-! ## What is there stays there -/

/-- The settings are the same, and no function is gone. -/
structure Interpreter.Precedes (s t : Interpreter H) : Prop where
  config : t.config = s.config
  functions : ∀ k f, s.heap.function? k = some f → t.heap.function? k = some f

namespace Interpreter.Precedes

variable {s t u : Interpreter H}

theorem of_functions (hc : t.config = s.config) (hf : t.heap.functions = s.heap.functions) :
    s.Precedes t := by
  refine ⟨hc, fun k f h => ?_⟩
  rw [Heap.function?, hf]
  exact h

theorem refl (s : Interpreter H) : s.Precedes s := .of_functions rfl rfl

theorem trans (h₁ : s.Precedes t) (h₂ : t.Precedes u) : s.Precedes u :=
  ⟨h₂.config.trans h₁.config, fun k f h => h₂.functions k f (h₁.functions k f h)⟩

theorem newFunction (s : Interpreter H) (f : Function) : s.Precedes (s.newFunction f).2 := by
  refine ⟨rfl, fun k g h => ?_⟩
  obtain ⟨hlt, -⟩ := Array.getElem?_eq_some_iff.1 h
  show (s.heap.functions.push f)[k.index]? = some g
  rw [Array.getElem?_push_lt hlt, ← Array.getElem?_eq_getElem hlt]
  exact h

variable [Host H]

theorem execute (s : Interpreter H) (a : Activation) (below : List Activation) (i : Code.Instr) :
    s.Precedes (Machine.execute s a below i).state := by
  have hacts := Machine.acts_execute s a below i
  generalize Machine.execute s a below i = effect at hacts ⊢
  cases hacts with
  | give _ _ _ ht => exact .of_functions ht.config (congrArg Heap.functions ht.heap)
  | makeFunction => exact (Precedes.newFunction s _).trans (.of_functions rfl rfl)
  | _ => exact .of_functions rfl rfl

theorem of_execute {s : Interpreter H} {a : Activation} {below : List Activation} {i : Code.Instr}
    {effect : Machine.Effect H} (he : Machine.execute s a below i = effect) :
    s.Precedes effect.state := he ▸ .execute s a below i

theorem beginLoad (s : Interpreter H) (source name : String) (origin : Origin) :
    s.Precedes (s.beginLoad source name origin).2 := .of_functions (by simp) (by simp)

theorem endLoad (s : Interpreter H) (l : Load) (o : Except LoadError Unit) :
    s.Precedes (s.endLoad l o).2 := .of_functions (by simp) (by simp)

end Interpreter.Precedes

/-! ## Code and globals -/

/-- The code and the globals of the calls in progress, the innermost first, and behind these the
code and the globals outside of all calls. -/
def Activation.contexts (a : Activation) : List (Code.Chunk × ModuleId) :=
  (a.code, a.globals) :: a.frames.map fun f => (f.code, f.globals)

namespace Machine

/-- The calls in progress in an activation are calls of functions, not too many, and outside of them
`code` runs on the fields of `globals`. -/
structure Calling (s : Interpreter H) (a : Activation) (code : Code.Chunk) (globals : ModuleId) :
    Prop where
  limit : a.frames.length ≤ s.config.maxCallDepth
  contexts : ∃ calls, a.contexts = calls ++ [(code, globals)] ∧
    ∀ c ∈ calls, ∃ k f, s.heap.function? k = some f ∧ c = (f.code, f.home)

namespace Calling

variable {s t : Interpreter H} {a b : Activation} {code : Code.Chunk} {globals : ModuleId}

theorem start (s : Interpreter H) (file : String) (code : Code.Chunk) (globals : ModuleId)
    (load : Option Load) : Calling s (Activation.start file code globals load) code globals :=
  ⟨Nat.zero_le _, [], rfl, nofun⟩

/-- Outside of calls the activation is where `code` runs. -/
theorem eq_of_nil (h : Calling s a code globals) (hf : a.frames = []) :
    a.code = code ∧ a.globals = globals := by
  obtain ⟨calls, hcalls, -⟩ := h.contexts
  rw [Activation.contexts, hf, List.map_nil] at hcalls
  have hlast := congrArg List.getLast? hcalls
  simpa using hlast

theorem precedes (h : Calling s a code globals) (ht : s.Precedes t) :
    Calling t a code globals := by
  obtain ⟨calls, hcalls, hfunctions⟩ := h.contexts
  refine ⟨ht.config ▸ h.limit, calls, hcalls, fun c hc => ?_⟩
  obtain ⟨k, f, hf, rfl⟩ := hfunctions c hc
  exact ⟨k, f, ht.functions k f hf, rfl⟩

theorem congr (h : Calling s a code globals) (hl : b.frames.length = a.frames.length)
    (hc : b.contexts = a.contexts) : Calling s b code globals :=
  ⟨hl ▸ h.limit, hc ▸ h.contexts⟩

theorem enter {k : FunctionId} {f : Function} (h : Calling s a code globals)
    (hf : s.heap.function? k = some f) (hd : a.frames.length < s.config.maxCallDepth)
    (t : Interpreter H) (args : List Value) : Calling s (enter t a f args) code globals := by
  obtain ⟨calls, hcalls, hfunctions⟩ := h.contexts
  refine ⟨hd, (f.code, f.home) :: calls, congrArg ((f.code, f.home) :: ·) hcalls, fun c hc => ?_⟩
  rcases List.mem_cons.1 hc with rfl | hc
  · exact ⟨k, f, hf, rfl⟩
  · exact hfunctions c hc

theorem back {f : Frame} {frames : List Frame} (h : Calling s a code globals)
    (hf : a.frames = f :: frames) : Calling s (a.back f frames) code globals := by
  obtain ⟨calls, hcalls, hfunctions⟩ := h.contexts
  have hlimit := h.limit
  rw [hf] at hlimit
  rw [Activation.contexts, hf, List.map_cons] at hcalls
  -- There is a call in progress, so the innermost pair is not the last one.
  cases calls with
  | nil => simp at hcalls
  | cons c calls =>
    refine ⟨Nat.le_of_succ_le hlimit, calls, (List.cons.inj hcalls).2, fun d hd => ?_⟩
    exact hfunctions d (List.mem_cons_of_mem c hd)

/-- **Calls and returns keep the discipline**, and so does all other code. -/
theorem execute [Host H] {below : List Activation} {i : Code.Instr}
    (h : Calling s a code globals) (he : Machine.execute s a below i = .next t b) :
    Calling t b code globals := by
  have hprecedes := Interpreter.Precedes.execute s a below i
  have hacts := acts_execute s a below i
  rw [he] at hprecedes hacts
  refine Calling.precedes ?_ hprecedes
  cases hacts with
  | assign _ _ hf =>
    refine h.congr ?_ ?_
    · rw [hf]
      rfl
    · rw [Activation.contexts, Activation.contexts, hf]
      rfl
  | enter _ _ hf _ hd => exact h.enter hf hd _ _
  | ret _ _ hf => exact h.back hf
  | drop => exact h.congr rfl rfl
  | _ => exact h

end Calling

/-! ## What activations are started with -/

/-- An activation that runs the code of the file `file` for a load was started with `code` on the
fields of `globals`, in a run from `p`. -/
inductive Body (p : Progress H) : String → Option Load → Code.Chunk → ModuleId → Prop
  /-- The code of a source, for the module of the load. -/
  | load {source : String} {l : Load} {program : Source.Program} :
    readProgram source (displayName l.name) = .ok program →
    Body p (displayName l.name) (some l) (blockCode 0 program).toArray l.module
  /-- The chunk that the host has asked to run. -/
  | chunk {s : Interpreter H} {file : String} {code : Code.Chunk} {globals : ModuleId} :
    p = .running ⟨s, Activation.start file code globals none, []⟩ → Body p file none code globals

/-- What holds of the activations in progress. -/
def Calls (p : Progress H) (s : Interpreter H) (activations : List Activation) : Prop :=
  ∀ a ∈ activations, ∃ code globals, Body p a.file a.load code globals ∧ Calling s a code globals

variable {p : Progress H} {s t : Interpreter H} {a b : Activation} {below : List Activation}

theorem Calls.nil : Calls p s [] := by
  intro a ha
  cases ha

theorem Calls.precedes {activations : List Activation} (h : Calls p s activations)
    (ht : s.Precedes t) : Calls p t activations := by
  intro a ha
  obtain ⟨code, globals, hbody, hcalling⟩ := h a ha
  exact ⟨code, globals, hbody, hcalling.precedes ht⟩

theorem Calls.tail (h : Calls p s (a :: below)) : Calls p s below :=
  fun b hb => h b (List.mem_cons_of_mem a hb)

theorem Calls.jump (h : Calls p s (a :: below)) (ip : Nat) :
    Calls p s (jumpTo a ip :: below) := by
  intro b hb
  rcases List.mem_cons.1 hb with rfl | hb
  · obtain ⟨code, globals, hbody, hcalling⟩ := h a (List.mem_cons_self ..)
    exact ⟨code, globals, hbody, hcalling.congr rfl rfl⟩
  · exact h.tail b hb

variable [Host H]

theorem Calls.begin {source name : String} {origin : Origin} {code : Code.Chunk}
    (h : Calls p s below) (hc : Code.compile source (displayName name) = .ok code) :
    Calls p (s.beginLoad source name origin).2 (begun s source name origin code :: below) := by
  rw [Code.compile_eq] at hc
  cases hr : readProgram source (displayName name) with
  | error e =>
    rw [hr] at hc
    cases hc
  | ok program =>
    rw [hr] at hc
    cases hc
    intro b hb
    rcases List.mem_cons.1 hb with rfl | hb
    · have hname : (s.beginLoad source name origin).1.name = name := by rw [s.beginLoad_fst]
      refine ⟨_, _, ?_, .start _ _ _ _ _⟩
      have hbody := Body.load (p := p) (l := (s.beginLoad source name origin).1)
        (hname.symm ▸ hr)
      rw [hname] at hbody
      exact hbody
    · exact (h.precedes (.beginLoad s source name origin)) b hb

theorem file_execute {i : Code.Instr} (he : execute s a below i = .next t b) :
    b.file = a.file := by
  have hacts := acts_execute s a below i
  rw [he] at hacts
  cases hacts <;> rfl

theorem calls_invariant (p : Progress H) : InvariantIf (fun _ _ => True) (Calls p) where
  next := by
    intro s t a b below i line h hi he
    have hstays := stays_execute s (jumpTo a (a.ip + 1)) below i
    rw [he] at hstays
    intro c hc
    rcases List.mem_cons.1 hc with rfl | hc
    · obtain ⟨code, globals, hbody, hcalling⟩ := h.jump (a.ip + 1) _ (List.mem_cons_self ..)
      refine ⟨code, globals, ?_, hcalling.execute he⟩
      rw [file_execute he, show c.load = a.load from hstays]
      exact hbody
    · exact h.tail.precedes (.of_execute he) c hc
  stop h hi he := h.precedes (.of_execute he)
  asks h hi he := (h.jump _).precedes (.of_execute he)
  begins h hi he hr hc _ := ((h.jump _).precedes (.of_execute he)).begin hc
  fails h hi he hr hc :=
    ((h.jump _).precedes (.of_execute he)).precedes ((Interpreter.Precedes.beginLoad ..).trans
      (.endLoad ..))
  receives h v e _ := h.precedes (.of_functions rfl rfl)
  ends h hl o := h.tail.precedes (.endLoad _ _ _)
  stops h ha := .nil

/-! ## Runs -/

theorem precedes_invariant (s₀ : Interpreter H) : Invariant (fun s _ => s₀.Precedes s) :=
  .of_state (fun s a below i h => h.trans (.execute s a below i))
    (fun _ _ _ h => h.trans (.of_functions rfl rfl))
    (fun s source name origin h _ => h.trans (.beginLoad s source name origin))
    fun s l o h => h.trans (.endLoad s l o)

end Machine

namespace Progress

/-- The activations in progress. -/
def activations : Progress H → List Activation
  | running m => m.top :: m.below
  | done .. => []

end Progress

namespace Machine

theorem holds_iff {I : Interpreter H → List Activation → Prop} {q : Progress H} :
    Holds I q ↔ I q.state q.activations := by
  cases q <;> rfl

variable [Host H] {p q : Progress H} {s : Interpreter H}

theorem Asked.precedes (hp : Asked s p) (hq : Reaches p q) : s.Precedes q.state := by
  refine holds_iff.1 ((precedes_invariant s).reaches ?_ hq)
  cases hp with
  | load source name =>
    exact (precedes_invariant s).load (.refl s) fun _ _ => .beginLoad s source name .host
  | chunk file code globals => exact .refl s

/-- **Calls are in order**, in every run and in every activation in progress. -/
theorem calls_in_order (hp : Asked s p) (hq : Reaches p q) : Calls p q.state q.activations := by
  refine holds_iff.1 ((calls_invariant p).reaches ?_ hq fun _ _ _ _ _ => trivial)
  cases hp with
  | load source name =>
    refine (calls_invariant _).load .nil ?_ fun e hr hc => .nil
    intro code hr hc
    exact Calls.nil.begin hc
  | chunk file code globals =>
    intro a ha
    obtain rfl := List.mem_singleton.1 ha
    exact ⟨code, globals, .chunk rfl, .start _ _ _ _ _⟩

end Machine

end Ember
