import Ember.Proofs.Machine.Calls
import Ember.Proofs.Machine.Transactions

/-!
# What code was compiled from

Modules are made from source texts, and functions come from the texts of the modules on whose fields
they run (`Interpreter.Sourced`). A run that loads a source text keeps to this, with the texts that
it makes modules from (`Interpreter.TextIn`): all code that runs on the fields of a module was
compiled from the text of this module, and an activation waits for a load at an instruction that can
fail (`traced_invariant`). A module is made from one text only (`TextIn.unique`), since each load
makes a new module.
-/

namespace Ember

open Code (Block blockCode bodyCode ownerIn readProgram)
open Source (Statement)

variable {H : Type}

/-! ## Texts -/

/-- A source text that was loaded under a name, and the module that was made for it. -/
structure Text where
  module : ModuleId
  source : String
  name : String

namespace Text

/-- A block of statements of the text that is compiled to a chunk of its own. -/
def Has (T : Text) (b : List Statement) : Prop :=
  ∃ program, readProgram T.source (displayName T.name) = .ok program ∧ Block program b

/-- The code is that of a block of the text. -/
def Wrote (T : Text) (code : Code.Chunk) : Prop := ∃ b, T.Has b ∧ code.IsOf b

/-- The instruction at the index `k` of the code belongs to this statement of the text. -/
def Owns (T : Text) (code : Code.Chunk) (k : Nat) (st : Statement) : Prop :=
  ∃ b, T.Has b ∧ code.IsOf b ∧ ownerIn 0 k b = some st

/-- The function is defined in the text, and runs on the fields of its module. -/
def Defines (T : Text) (f : Function) : Prop :=
  T.module = f.home ∧ ∃ b k line body, T.Has b ∧
    ownerIn 0 k b = some (.function line f.name f.params body) ∧ f.code = bodyCode line body

variable {T : Text}

theorem Defines.wrote {f : Function} (h : T.Defines f) : T.Wrote f.code := by
  obtain ⟨-, b, k, line, body, ⟨program, hprogram, hb⟩, howner, hcode⟩ := h
  exact ⟨body, ⟨program, hprogram, .body hb howner⟩, .inr ⟨line, hcode⟩⟩

/-- The code of a text makes the functions that the text defines. -/
theorem Wrote.defines {code body : Code.Chunk} {k line : Nat} {name : String}
    {params : List String} (h : T.Wrote code)
    (hk : code[k]? = some (.makeFunction name params body, line)) :
    T.Defines ⟨name, params, body, T.module⟩ := by
  obtain ⟨b, hb, hcode⟩ := h
  obtain ⟨l, b', howner, hbody⟩ := hcode.makeFunction hk
  exact ⟨rfl, b, k, l, b', hb, howner, hbody⟩

theorem wrote_of_compile {code : Code.Chunk}
    (h : Code.compile T.source (displayName T.name) = .ok code) : T.Wrote code := by
  rw [Code.compile_eq] at h
  cases hr : readProgram T.source (displayName T.name) with
  | error e =>
    rw [hr] at h
    cases h
  | ok program =>
    rw [hr] at h
    cases h
    exact ⟨program, ⟨program, hr, .program⟩, .inl rfl⟩

end Text

/-- The texts that modules were made from are among these, and functions come from them. -/
structure Interpreter.Sourced (texts : Text → Prop) (s : Interpreter H) : Prop where
  made : ∀ T, texts T → T.module.index < s.heap.modules.size
  unique : ∀ T U, texts T → texts U → T.module = U.module → T = U
  functions : ∀ k f, s.heap.function? k = some f → ∃ T, texts T ∧ T.Defines f

/-- As long as there are no functions, no texts are needed. -/
theorem Interpreter.Sourced.of_no_functions {s : Interpreter H} (h : s.heap.functions = #[]) :
    s.Sourced fun _ => False := by
  refine ⟨fun _ hT => hT.elim, fun _ _ hT => hT.elim, fun k f hf => ?_⟩
  rw [Heap.function?, h] at hf
  cases hf

theorem Interpreter.Sourced.compiled {texts : Text → Prop} {s : Interpreter H}
    (h : s.Sourced texts) : s.heap.Compiled := by
  intro f hf
  obtain ⟨k, hk, rfl⟩ := Array.getElem_of_mem hf
  obtain ⟨T, -, -, b, -, line, body, -, -, hcode⟩ :=
    h.functions ⟨k⟩ _ (Array.getElem?_eq_getElem hk)
  exact ⟨line, body, hcode⟩

/-! ## Code that runs -/

namespace Machine

/-- An activation has just executed an instruction that can fail. -/
def Failing (a : Activation) : Prop :=
  ∃ i line, 0 < a.ip ∧ a.code[a.ip - 1]? = some (i, line) ∧ i.Fails

/-- What holds of the functions and of the activations in progress: all code that runs on the fields
of a module was compiled from the text of the module. -/
structure Traced (texts : Text → Prop) (s : Interpreter H) (activations : List Activation) :
    Prop where
  functions : ∀ k f, s.heap.function? k = some f → ∃ T, texts T ∧ T.Defines f
  contexts : ∀ a ∈ activations, ∀ c ∈ a.contexts, ∃ T, texts T ∧ T.module = c.2 ∧ T.Wrote c.1
  loads : ∀ a ∈ activations, ∀ l, a.load = some l →
    ∃ T, texts T ∧ T.module = l.module ∧ T.name = l.name
  /-- The activations below wait for the end of a load. -/
  waiting : ∀ a ∈ activations.tail, Failing a

variable {texts : Text → Prop} {s t : Interpreter H} {a b : Activation} {below : List Activation}

namespace Traced

theorem congr {activations : List Activation} (h : Traced texts s activations)
    (ht : t.heap.functions = s.heap.functions) : Traced texts t activations := by
  refine ⟨fun k f hf => h.functions k f ?_, h.contexts, h.loads, h.waiting⟩
  rw [← hf]
  exact congrArg (·[k.index]?) ht.symm

/-- The innermost activation goes on in the same calls. -/
theorem go (h : Traced texts s (a :: below)) (hc : ∀ c ∈ b.contexts, ∃ T, texts T ∧
    T.module = c.2 ∧ T.Wrote c.1) (hl : b.load = a.load) : Traced texts s (b :: below) := by
  refine ⟨h.functions, fun d hd => ?_, fun d hd l hdl => ?_, h.waiting⟩
  · rcases List.mem_cons.1 hd with rfl | hd
    · exact hc
    · exact h.contexts d (List.mem_cons_of_mem a hd)
  · rcases List.mem_cons.1 hd with rfl | hd
    · exact h.loads a (List.mem_cons_self ..) l (hl ▸ hdl)
    · exact h.loads d (List.mem_cons_of_mem a hd) l hdl

theorem jump (h : Traced texts s (a :: below)) (ip : Nat) :
    Traced texts s (jumpTo a ip :: below) := h.go (h.contexts a (List.mem_cons_self ..)) rfl

theorem tail (h : Traced texts s (a :: below)) : Traced texts s below where
  functions := h.functions
  contexts d hd := h.contexts d (List.mem_cons_of_mem a hd)
  loads d hd := h.loads d (List.mem_cons_of_mem a hd)
  waiting d hd := h.waiting d (List.mem_of_mem_tail hd)

/-- The text of the code that runs. -/
theorem text (h : Traced texts s (a :: below)) :
    ∃ T, texts T ∧ T.module = a.globals ∧ T.Wrote a.code :=
  h.contexts a (List.mem_cons_self ..) _ (List.mem_cons_self ..)

variable [Host H]

/-- **Instructions keep code where it comes from**: a function that is made comes from the text of
the code that makes it, and a call runs the code of a function on the fields of its module. -/
theorem next {i : Code.Instr} {line : Nat} (h : Traced texts s (a :: below))
    (hi : a.code[a.ip]? = some (i, line))
    (he : execute s (jumpTo a (a.ip + 1)) below i = .next t b) : Traced texts t (b :: below) := by
  have hacts := acts_execute s (jumpTo a (a.ip + 1)) below i
  have hjump := h.jump (a.ip + 1)
  have hcontexts := hjump.contexts _ (List.mem_cons_self ..)
  rw [he] at hacts
  cases hacts with
  | give _ _ _ ht => exact hjump.congr (congrArg Heap.functions ht.heap)
  | drop => exact (h.jump _).congr rfl
  | assign _ _ hf =>
    refine Traced.congr (hjump.go ?_ rfl) rfl
    rw [Activation.contexts, hf] at hcontexts
    exact hcontexts
  | bind => exact hjump.congr rfl
  | setAttribute => exact hjump.congr rfl
  | @makeFunction name params body hmake =>
    refine ⟨fun k f hf => ?_, hjump.contexts, hjump.loads, hjump.waiting⟩
    have hf : (s.heap.functions.push ⟨name, params, body, a.globals⟩)[k.index]? = some f := hf
    rw [Array.getElem?_push] at hf
    split_ifs at hf
    · cases hf
      -- The new function comes from the text of the code that runs, and shares its module.
      obtain ⟨T, hT, hmodule, hwrote⟩ := h.text
      refine ⟨T, hT, ?_⟩
      rw [← hmodule]
      exact hwrote.defines (hmake ▸ hi)
    · exact h.functions k f hf
  | enter _ _ hf =>
    obtain ⟨T, hT, hdefines⟩ := h.functions _ _ hf
    refine Traced.congr (hjump.go (fun c hc => ?_) rfl) rfl
    rcases List.mem_cons.1 hc with rfl | hc
    · exact ⟨T, hT, hdefines.1, hdefines.wrote⟩
    · exact hcontexts c hc
  | ret _ _ hf =>
    refine Traced.congr (hjump.go (fun c hc => hcontexts c ?_) rfl) rfl
    rw [Activation.contexts, hf]
    exact List.mem_cons_of_mem _ hc

/-- The activation that asks for a load is suspended at an instruction that can fail. -/
theorem asks {i : Code.Instr} {line : Nat} {source name : String} {origin : Origin}
    (h : Traced texts s (a :: below)) (hi : a.code[a.ip]? = some (i, line))
    (he : execute s (jumpTo a (a.ip + 1)) below i = .load t source name origin) :
    Traced texts t (jumpTo a (a.ip + 1) :: below) ∧ Failing (jumpTo a (a.ip + 1)) := by
  have hacts := acts_execute s (jumpTo a (a.ip + 1)) below i
  rw [he] at hacts
  cases hacts with
  | load _ _ hfails => exact ⟨(h.jump _).congr rfl, i, line, Nat.succ_pos _, hi, hfails⟩

theorem begin {source name : String} {origin : Origin} {code : Code.Chunk}
    (h : Traced texts s below) (hwaiting : ∀ a ∈ below, Failing a)
    (hc : Code.compile source (displayName name) = .ok code)
    (hT : texts ⟨(s.beginLoad source name origin).1.module, source, name⟩) :
    Traced texts (s.beginLoad source name origin).2 (begun s source name origin code :: below) := by
  have hnew : Traced texts (s.beginLoad source name origin).2 below := h.congr (by simp)
  refine ⟨hnew.functions, fun d hd => ?_, fun d hd l hl => ?_, hwaiting⟩
  · rcases List.mem_cons.1 hd with rfl | hd
    · intro c hc'
      obtain rfl := List.mem_singleton.1 hc'
      exact ⟨_, hT, rfl, Text.wrote_of_compile hc⟩
    · exact h.contexts d hd
  · rcases List.mem_cons.1 hd with rfl | hd
    · cases hl
      exact ⟨_, hT, rfl, (by rw [s.beginLoad_fst])⟩
    · exact h.loads d hd l hl

end Traced

variable [Host H]

/-- **Runs keep code where it comes from**, if these are all texts that modules are made from. -/
theorem traced_invariant (texts : Text → Prop) : InvariantIf
    (fun source b => ∀ l, b.load = some l → texts ⟨l.module, source, l.name⟩)
    (Traced texts (H := H)) where
  next h hi he := h.next hi he
  stop := by
    intro s t a below i line e h hi he
    have hacts := acts_execute s (jumpTo a (a.ip + 1)) below i
    rw [he] at hacts
    cases hacts with
    | stop => exact h.congr rfl
  asks h hi he := (h.asks hi he).1
  begins := by
    intro s t a below i line source name origin code h hi he hr hc hB
    obtain ⟨hasks, hfailing⟩ := h.asks hi he
    refine hasks.begin (fun d hd => ?_) hc ?_
    · rcases List.mem_cons.1 hd with rfl | hd
      · exact hfailing
      · exact h.waiting d hd
    · have hT := hB _ rfl
      rw [show (t.beginLoad source name origin).1.name = name by rw [t.beginLoad_fst]] at hT
      exact hT
  fails h hi he _ _ := (h.asks hi he).1.congr (by simp)
  receives h v e _ := h.congr rfl
  ends h hl o := h.tail.congr (by simp)
  stops h _ := ⟨h.functions, nofun, nofun, nofun⟩

end Machine

/-! ## The texts of a run -/

open Machine (Reaches)

/-- The texts from before, and those that modules are made from when a source text is loaded. -/
inductive Interpreter.TextIn [Host H] (s : Interpreter H) (source name : String)
    (texts : Text → Prop) : Text → Prop
  | before {T : Text} : texts T → s.TextIn source name texts T
  | loaded : s.refusal? name = none → s.TextIn source name texts ⟨s.heap.nextModule, source, name⟩
  | started {m : Machine H} {src : String} {b : Activation} {l : Load} :
    Reaches (Machine.load s source name .host []) (.running m) → m.Starts src b →
    b.load = some l → s.TextIn source name texts ⟨l.module, src, l.name⟩

namespace Machine

variable [Host H] {p q : Progress H} {m w : Machine H} {src src' : String} {a b : Activation}
  {l k : Load}

/-- The number of modules never falls. -/
theorem size_le_of_reaches (h : Reaches p q) :
    p.state.heap.modules.size ≤ q.state.heap.modules.size := by
  induction h with
  | refl => exact Nat.le_refl _
  | @step m q _ ih => exact (grows_step m).size.trans ih

theorem Starts.unique (ha : m.Starts src a) (hb : m.Starts src' b) : src = src' ∧ a = b := by
  obtain ⟨i, line, t, name, origin, code, hi, he, -, hc, rfl⟩ := ha
  obtain ⟨i', line', t', name', origin', code', hi', he', -, hc', rfl⟩ := hb
  rw [hi] at hi'
  cases hi'
  rw [he] at he'
  cases he'
  rw [hc] at hc'
  cases hc'
  exact ⟨rfl, rfl⟩

theorem Starts.begins (h : m.Starts src a) (hl : a.load = some l) : m.Begins l := by
  obtain ⟨i, line, t, name, origin, code, hi, he, hr, -, rfl⟩ := h
  unfold Begins
  rw [hi]
  dsimp only
  rw [he]
  exact ⟨hr, (Option.some.inj hl).symm⟩

/-- The module of a load is made in the step that starts its code. -/
theorem Starts.module (h : m.Starts src a) (hl : a.load = some l) :
    m.state.heap.modules.size ≤ l.module.index ∧
      l.module.index < m.step.state.heap.modules.size :=
  (grows_step m).modules l (h.begins hl)

/-- In one run, no two texts are started for the same module. -/
theorem Starts.unique_of_reaches (ha : m.Starts src a) (hm : Reaches p (.running m))
    (hw : Reaches p (.running w)) (hb : w.Starts src' b) (hl : a.load = some l)
    (hk : b.load = some k) (he : l.module = k.module) : src = src' ∧ l = k := by
  have hmade := ha.module hl
  have hmade' := hb.module hk
  rw [he] at hmade
  have hsame : ∀ {m w : Machine H}, Reaches (.running m) (.running w) →
      w.state.heap.modules.size < m.step.state.heap.modules.size → m = w := by
    intro m w h hlt
    cases h with
    | refl => rfl
    | step h => exact absurd (size_le_of_reaches h) (Nat.not_le.2 hlt)
  have hmw : m = w := by
    rcases hm.total hw with h | h
    · exact hsame h (hmade'.1.trans_lt hmade.2)
    · exact (hsame h (hmade.1.trans_lt hmade'.2)).symm
  subst hmw
  obtain ⟨rfl, rfl⟩ := ha.unique hb
  rw [hl] at hk
  exact ⟨rfl, Option.some.inj hk⟩

end Machine

namespace Interpreter

open Machine (Grows grows_load loadsOf size_le_of_reaches)

variable [Host H] {s : Interpreter H} {texts : Text → Prop} {source name : String}

/-- When a load runs code, it has made its module. -/
theorem size_of_reaches_load {m : Machine H} (hr : s.refusal? name = none)
    (hm : Reaches (Machine.load s source name .host []) (.running m)) :
    s.heap.modules.size < m.state.heap.modules.size := by
  have hbegins : s.Begins source name .host (s.beginLoad source name .host).1 := ⟨hr, rfl⟩
  have hgrows : Grows _ (loadsOf []) _ (Machine.load s source name .host []) := grows_load
  have hmade := hgrows.modules _ hbegins
  have hsize : _ ≤ m.state.heap.modules.size := size_le_of_reaches hm
  omega

/-- A load that is refused runs no code. -/
theorem refusal?_of_reaches {m : Machine H}
    (hm : Reaches (Machine.load s source name .host []) (.running m)) :
    s.refusal? name = none := by
  cases hr : s.refusal? name with
  | none => rfl
  | some c =>
    rw [load_of_refusal hr] at hm
    cases hm

/-- The modules of the texts that were there before are older than the module of the load, and those
of the texts that are started are younger. -/
theorem TextIn.age (hs : s.Sourced texts) {T : Text} (hT : s.TextIn source name texts T) :
    texts T ∧ T.module.index < s.heap.modules.size ∨
    T = ⟨s.heap.nextModule, source, name⟩ ∧ T.module.index = s.heap.modules.size ∨
    (∃ m src b l, Reaches (Machine.load s source name .host []) (.running m) ∧ m.Starts src b ∧
      b.load = some l ∧ T = ⟨l.module, src, l.name⟩) ∧ s.heap.modules.size < T.module.index := by
  cases hT with
  | before hT => exact .inl ⟨hT, hs.made T hT⟩
  | loaded => exact .inr (.inl ⟨rfl, rfl⟩)
  | started hm hb hl =>
    have hsize := size_of_reaches_load (refusal?_of_reaches hm) hm
    exact .inr (.inr ⟨⟨_, _, _, _, hm, hb, hl, rfl⟩, hsize.trans_le (hb.module hl).1⟩)

/-- **A module is made from one text.** -/
theorem TextIn.unique (hs : s.Sourced texts) {T U : Text} (hT : s.TextIn source name texts T)
    (hU : s.TextIn source name texts U) (he : T.module = U.module) : T = U := by
  have hindex := congrArg ModuleId.index he
  rcases hT.age hs with ⟨hT, hlt⟩ | ⟨hT, hlt⟩ | ⟨⟨m, src, b, l, hm, hb, hl, hT⟩, hlt⟩ <;>
    rcases hU.age hs with ⟨hU, hlt'⟩ | ⟨hU, hlt'⟩ | ⟨⟨w, src', c, k, hw, hc, hk, hU⟩, hlt'⟩
  case inl.inl => exact hs.unique T U hT hU he
  case inr.inl.inr.inl => exact hT.trans hU.symm
  case inr.inr.inr.inr =>
    subst hT hU
    obtain ⟨rfl, rfl⟩ := hb.unique_of_reaches hm hw hc hl hk he
    rfl
  -- Modules of different ages are different.
  all_goals omega

end Interpreter

namespace Machine

variable [Host H] {s : Interpreter H} {texts : Text → Prop} {source name : String}
  {q : Progress H}

/-- **All code of a run comes from its texts.** -/
theorem traced_of_reaches (hs : s.Sourced texts)
    (hq : Reaches (load s source name .host []) q) :
    Traced (s.TextIn source name texts) q.state q.activations := by
  have hnil : Traced (s.TextIn source name texts) s [] := by
    refine ⟨fun k f hf => ?_, nofun, nofun, nofun⟩
    obtain ⟨T, hT, hdefines⟩ := hs.functions k f hf
    exact ⟨T, .before hT, hdefines⟩
  refine holds_iff.1 ((traced_invariant _).reaches ?_ hq ?_)
  · refine (traced_invariant _).load hnil (fun code hr hc => hnil.begin nofun hc ?_) ?_
    · rw [s.beginLoad_fst]
      exact .loaded hr
    · exact fun e _ _ => hnil.congr (by simp)
  · exact fun m src b hm hb l hl => .started hm hb hl

/-- After a load, functions come from the texts of the load and from those from before. -/
theorem sourced_of_reaches {t : Interpreter H} {o : Answer} (hs : s.Sourced texts)
    (h : Reaches (load s source name .host []) (.done t o)) :
    t.Sourced (s.TextIn source name texts) where
  made T hT := by
    have hsize : _ ≤ t.heap.modules.size := size_le_of_reaches h
    have hload : Grows _ (loadsOf []) _ (load s source name .host []) := grows_load
    cases hT with
    | before hT => exact (hs.made T hT).trans_le (hload.size.trans hsize)
    | loaded hr =>
      have hmade := hload.modules (s.beginLoad source name .host).1 ⟨hr, rfl⟩
      rw [s.beginLoad_fst] at hmade
      exact hmade.2.trans_le hsize
    | @started m src b l hm hb hl =>
      refine (hb.module hl).2.trans_le ?_
      rcases hm.total h with h | h
      · cases h with
        | step h => exact size_le_of_reaches h
      · cases h
  unique T U hT hU he := hT.unique hs hU he
  functions := (traced_of_reaches hs h).functions

end Machine

end Ember
