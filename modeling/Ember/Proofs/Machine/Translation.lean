import Ember.Proofs.Machine.Loads
import Ember.Proofs.Machine.Runs

/-!
# Runs under other settings and with other hosts

A translation gives an interpreter another host and other settings. If it commutes with printing and
tracing and does not lower the limits (`Translation.Faithful`), then it commutes with every step
that no limit stops (`translate_step`): nothing that code does depends on the host or on the
settings otherwise. So a run in which no limit stops anything goes over into a run of the translated
interpreter, with the same outcome and with the translated state at its end (`translate_tryLoad`).

A translation that keeps the limits also carries the runs over which a limit stops. Both cases are
proved at once: where a limit is exceeded, the translation has to keep the limits.
-/

namespace Ember

variable {H H₁ H₂ : Type}

/-! ## Limits -/

namespace Machine

/-- A limit stops the instruction: it calls while too many calls are in progress, or it asks for a
load while too many loads are. -/
def Effect.Exceeds : Effect H → Prop
  | .next .. => False
  | .stop _ e => e = .callDepth
  | .load s _ name _ => s.refusal? name = some (.tooDeep name)

/-- A limit stops the next instruction. -/
def Exceeds [Host H] (m : Machine H) : Prop :=
  match m.top.code[m.top.ip]? with
  | none => False
  | some (i, _) => (execute m.state (jumpTo m.top (m.top.ip + 1)) m.below i).Exceeds

end Machine

/-! ## Translations -/

/-- What another interpreter has in the place of its host and of its settings. -/
structure Translation (H₁ H₂ : Type) where
  host : H₁ → H₂
  config : Config → Config

/-- The interpreter with another host and other settings. -/
def Interpreter.translate (T : Translation H₁ H₂) (s : Interpreter H₁) : Interpreter H₂ where
  heap := s.heap
  registry := s.registry
  active := s.active
  pending := s.pending
  stack := s.stack
  loadDepth := s.loadDepth
  host := T.host s.host
  config := T.config s.config
  resolver := s.resolver
  lastError := s.lastError
  surroundings := s.surroundings
  seed := s.seed

namespace Translation

/-- Limits stay what they are. -/
def KeepsLimits (T : Translation H₁ H₂) : Prop :=
  ∀ c, (T.config c).maxLoadDepth = c.maxLoadDepth ∧ (T.config c).maxCallDepth = c.maxCallDepth

/-- Output is translated with its interpreter, and limits do not get smaller. -/
structure Faithful [Host H₁] [Host H₂] (T : Translation H₁ H₂) : Prop where
  print : ∀ (s : Interpreter H₁) (args : List Value),
    (Library.print s args).translate T = Library.print (s.translate T) args
  trace : ∀ (s : Interpreter H₁) (e : Interpreter.Event),
    (s.trace e).translate T = (s.translate T).trace e
  maxLoadDepth : ∀ c, c.maxLoadDepth ≤ (T.config c).maxLoadDepth
  maxCallDepth : ∀ c, c.maxCallDepth ≤ (T.config c).maxCallDepth

end Translation

variable {T : Translation H₁ H₂}

/-! ## Hosts -/

section Hosts

variable [Host H] (h : H) (out : Stream)

/-- A text is offered to the host once, as far as it fits a page. -/
theorem Output.write_eq (text : String) : write h out text =
    (Host.write h (Page.empty.add text.toUTF8).kept 1 (Page.empty.add text.toUTF8).kept.size
      out).2 := by
  unfold write writeParts tryWriteParts
  dsimp only [Page.addAll]
  split_ifs <;> rfl

theorem Output.snd_writeChar (code : Int32) :
    (writeChar h out code).2 = (Host.write h ⟨#[byteOf code]⟩ 1 1 out).2 := by
  unfold writeChar tryWriteChar
  dsimp only
  split_ifs <;> rfl

namespace Interpreter

theorem translate_host (s : Interpreter H₁) (host : H₁) :
    { s with host := host }.translate T = { s.translate T with host := T.host host } := rfl

end Interpreter

variable [Host H₁] [Host H₂]

/-- What the one host is given is given to the other. What they answer may differ. -/
structure Host.Follows (f : H₁ → H₂) : Prop where
  write : ∀ (h : H₁) (bytes : ByteArray) (out : Stream),
    f (Host.write h bytes 1 bytes.size out).2 = (Host.write (f h) bytes 1 bytes.size out).2
  flush : ∀ (h : H₁) (out : Stream), f (Host.flush h out).2 = (Host.flush (f h) out).2
  stdout : ∀ h : H₁, Host.stdout (f h) = Host.stdout h
  stderr : ∀ h : H₁, Host.stderr (f h) = Host.stderr h

namespace Interpreter

variable (hT : Host.Follows T.host) (s : Interpreter H₁)
include hT

theorem translate_print (text : String) :
    (s.print out text).translate T = (s.translate T).print out text := by
  have hhost : (s.translate T).host = T.host s.host := rfl
  unfold print
  rw [translate_host, hhost, Output.write_eq, Output.write_eq, hT.write]

theorem translate_printChar (code : Int32) :
    (s.printChar out code).translate T = (s.translate T).printChar out code := by
  have hhost : (s.translate T).host = T.host s.host := rfl
  have hwrite := hT.write s.host ⟨#[Output.byteOf code]⟩ out
  unfold printChar
  rw [translate_host, hhost, Output.snd_writeChar, Output.snd_writeChar]
  exact congrArg (fun host => { s.translate T with host := host }) hwrite

theorem translate_printValues (vs : List Value) : (Library.printValues s out vs).translate T =
    Library.printValues (s.translate T) out vs := by
  induction vs generalizing s with
  | nil => rfl
  | cons v vs ih =>
    cases vs with
    | nil =>
      rw [Library.printValues.eq_2, Library.printValues.eq_2]
      exact s.translate_print out hT _
    | cons w ws =>
      have hne := List.cons_ne_nil w ws
      rw [Library.printValues.eq_3 _ _ _ _ hne, Library.printValues.eq_3 _ _ _ _ hne, ih,
        translate_printChar _ hT, translate_print _ hT]
      rfl

/-- A failure is reported to the one host as it is to the other. -/
theorem translate_report (e : LoadError) : (s.report e).translate T = (s.translate T).report e := by
  have hhost : (s.translate T).host = T.host s.host := rfl
  have hprint := s.translate_print (Host.stderr s.host) hT (e.report s.heap ++ "\n")
  have hprinted : T.host (s.print (Host.stderr s.host) (e.report s.heap ++ "\n")).host =
      ((s.translate T).print (Host.stderr s.host) (e.report s.heap ++ "\n")).host :=
    congrArg host hprint
  unfold report
  dsimp only
  rw [translate_host, hhost, hT.stderr, hT.flush, hprint, hprinted]
  rfl

end Interpreter

/-- **A translation is faithful** if its hosts are given the same and it neither lowers the limits
nor changes whether loads are traced. -/
theorem Translation.faithful_of_follows (hT : Host.Follows T.host)
    (htrace : ∀ c, (T.config c).traceLoads = c.traceLoads)
    (hloads : ∀ c, c.maxLoadDepth ≤ (T.config c).maxLoadDepth)
    (hcalls : ∀ c, c.maxCallDepth ≤ (T.config c).maxCallDepth) : T.Faithful where
  print s args := by
    have hhost : (s.translate T).host = T.host s.host := rfl
    unfold Library.print
    rw [hhost, hT.stdout, Interpreter.translate_printChar _ hT,
      Interpreter.translate_printValues _ hT]
  trace s e := by
    have hhost : (s.translate T).host = T.host s.host := rfl
    have hconfig : (s.translate T).config.traceLoads = s.config.traceLoads := htrace s.config
    unfold Interpreter.trace
    rw [apply_ite (Interpreter.translate T), s.translate_print _ hT, hhost, hT.stderr, hconfig]
    rfl
  maxLoadDepth := hloads
  maxCallDepth := hcalls

end Hosts

/-! ## Loads -/

namespace Interpreter

section Loads

variable (s : Interpreter H₁)

theorem translate_leaveLoad (l : Load) :
    (s.leaveLoad l).translate T = (s.translate T).leaveLoad l := rfl

theorem translate_undone (l : Load) : (s.undone l).translate T = (s.translate T).undone l := by
  unfold undone
  cases l.previous <;> rfl

variable [Host H₁] [Host H₂] (hT : T.Faithful)
include hT

/-- A load is refused there as it is here, unless it is refused here because of a limit that is
higher there. -/
theorem refusal?_translate (name : String)
    (h : s.refusal? name = some (.tooDeep name) → T.KeepsLimits) :
    (s.translate T).refusal? name = s.refusal? name := by
  unfold refusal? at h ⊢
  by_cases hname : name.isEmpty = true
  · rw [if_pos hname, if_pos hname]
  · rw [if_neg hname] at h ⊢
    rw [if_neg hname]
    by_cases hdepth : s.config.maxLoadDepth ≤ s.loadDepth
    · rw [if_pos hdepth] at h ⊢
      refine if_pos ?_
      show (T.config s.config).maxLoadDepth ≤ s.loadDepth
      rw [(h rfl s.config).1]
      exact hdepth
    · rw [if_neg hdepth]
      exact if_neg fun hd => hdepth (Nat.le_trans (hT.maxLoadDepth s.config) hd)

theorem translate_beginLoad (source name : String) (origin : Origin) :
    (s.translate T).beginLoad source name origin =
      ((s.beginLoad source name origin).1, (s.beginLoad source name origin).2.translate T) := by
  refine Prod.ext ?_ ?_
  · rw [beginLoad_fst, beginLoad_fst]
    rfl
  · have htrace := hT.trace s (.loading name)
    rw [beginLoad_snd, beginLoad_snd, ← htrace]
    rfl

theorem translate_endLoad (l : Load) (o : Except LoadError Unit) :
    (s.translate T).endLoad l o = ((s.endLoad l o).1, (s.endLoad l o).2.translate T) := by
  cases o with
  | error e =>
    rw [endLoad_error, endLoad_error, hT.trace, translate_undone]
    rfl
  | ok u =>
    by_cases h : s.Kept l
    · have htranslated : (s.translate T).Kept l := h
      rw [endLoad_of_kept s l h, endLoad_of_kept _ l htranslated, hT.trace, translate_leaveLoad]
    · have htranslated : ¬ (s.translate T).Kept l := h
      rw [endLoad_of_not_kept s l h, endLoad_of_not_kept _ l htranslated, hT.trace,
        translate_undone]
      rfl

end Loads

end Interpreter

/-! ## Native functions -/

/-- The outcome in the translated interpreter. -/
def Outcome.translate (T : Translation H₁ H₂) : Outcome H₁ → Outcome H₂
  | .value s v => .value (s.translate T) v
  | .error s e => .error (s.translate T) e
  | .load s source name => .load (s.translate T) source name

section Natives

variable (s : Interpreter H₁)

theorem Outcome.translate_ofResult (r : Except RuntimeError Value) :
    (Outcome.ofResult s r).translate T = .ofResult (s.translate T) r := by
  cases r <;> rfl

theorem Outcome.translate_drawing {α : Type} (f : α → UInt64 → Value)
    (r : Except RuntimeError α) :
    (Outcome.drawing s f r).translate T = .drawing (s.translate T) f r := by
  cases r <;> rfl

theorem Outcome.translate_ofRequest (r : Except RuntimeError (String × String)) :
    (Outcome.ofRequest s r).translate T = .ofRequest (s.translate T) r := by
  cases r <;> rfl

theorem Library.translate_apply [Host H₁] [Host H₂] (hT : T.Faithful) (f : Native)
    (args : List Value) : (apply s f args).translate T = apply (s.translate T) f args := by
  unfold apply
  cases f with
  | print => exact congrArg (Outcome.value · .nil) (hT.print s args)
  | execModule => exact Outcome.translate_ofRequest s _
  | random => exact Outcome.translate_drawing s _ _
  | randomInteger => exact Outcome.translate_drawing s _ _
  | _ => exact Outcome.translate_ofResult s _

end Natives

namespace Machine

/-! ## Instructions -/

/-- The effect on the translated interpreter. -/
def Effect.translate (T : Translation H₁ H₂) : Effect H₁ → Effect H₂
  | .next s a => .next (s.translate T) a
  | .stop s e => .stop (s.translate T) e
  | .load s source name origin => .load (s.translate T) source name origin

section Instructions

variable (s : Interpreter H₁) (a : Activation) (below : List Activation)

/-- `P` is what has to hold where a limit is exceeded. -/
theorem translate_withOne {P : Prop} {f : Interpreter H₁ → Value → Effect H₁}
    {g : Interpreter H₂ → Value → Effect H₂}
    (hf : ∀ t v, ((f t v).Exceeds → P) → (f t v).translate T = g (t.translate T) v)
    (h : (withOne s f).Exceeds → P) :
    (withOne s f).translate T = withOne (s.translate T) g := by
  have hstack : (s.translate T).stack = s.stack := rfl
  unfold withOne at h ⊢
  rw [hstack]
  cases hs : s.stack with
  | nil => rfl
  | cons v rest =>
    rw [hs] at h
    exact hf _ v h

theorem translate_withTwo {f : Interpreter H₁ → Value → Value → Effect H₁}
    {g : Interpreter H₂ → Value → Value → Effect H₂}
    (hf : ∀ t x y, (f t x y).translate T = g (t.translate T) x y) :
    (withTwo s f).translate T = withTwo (s.translate T) g :=
  translate_withOne (P := True) s
    (fun t y _ => translate_withOne t (fun u x _ => hf u x y) fun _ => trivial) fun _ => trivial

theorem translate_ofResult (r : Except RuntimeError Value) :
    (Effect.ofResult s a r).translate T = .ofResult (s.translate T) a r := by
  cases r <;> rfl

theorem translate_use (name : String) :
    (use s a name).translate T = use (s.translate T) a name := by
  have hmodule : (s.translate T).module? name = s.module? name := rfl
  have hresolver : (s.translate T).resolver = s.resolver := rfl
  unfold use
  rw [hmodule, hresolver]
  cases s.module? name with
  | some m =>
    dsimp only
    split_ifs <;> rfl
  | none =>
    dsimp only
    cases s.resolver.bind fun r => r name <;> rfl

variable [Host H₁] [Host H₂] (hT : T.Faithful)
include hT

theorem translate_callFunction (k : FunctionId) (f : Function) (args : List Value)
    (h : (callFunction s a below k f args).Exceeds → T.KeepsLimits) :
    (callFunction s a below k f args).translate T =
      callFunction (s.translate T) a below k f args := by
  have halive : (s.translate T).alive (a :: below) (.function k :: args) f.home =
      s.alive (a :: below) (.function k :: args) f.home := rfl
  have hconfig : (s.translate T).config = T.config s.config := rfl
  unfold callFunction at h ⊢
  rw [halive, hconfig]
  by_cases hargs : args.length ≠ f.params.length
  · rw [if_pos hargs, if_pos hargs]
    rfl
  · rw [if_neg hargs] at h ⊢
    rw [if_neg hargs]
    by_cases hdepth : s.config.maxCallDepth ≤ a.frames.length
    · rw [if_pos hdepth] at h ⊢
      rw [(h rfl s.config).2, if_pos hdepth]
      rfl
    · have htranslated : ¬ (T.config s.config).maxCallDepth ≤ a.frames.length := fun hd =>
        hdepth (Nat.le_trans (hT.maxCallDepth s.config) hd)
      rw [if_neg hdepth, if_neg htranslated]
      split_ifs <;> rfl

theorem translate_call (callee : Value) (args : List Value)
    (h : (call s a below callee args).Exceeds → T.KeepsLimits) :
    (call s a below callee args).translate T = call (s.translate T) a below callee args := by
  cases callee with
  | function k =>
    have hfunction : (s.translate T).heap.function? k = s.heap.function? k := rfl
    simp only [call, hfunction] at h ⊢
    cases hf : s.heap.function? k with
    | none => rfl
    | some f =>
      rw [hf] at h
      exact translate_callFunction s a below hT k f args h
  | native f =>
    simp only [call, callNative, ← Library.translate_apply s hT]
    cases Library.apply s f args <;> rfl
  | _ => rfl

/-- **An instruction that no limit stops is translated.** -/
theorem translate_execute (i : Code.Instr)
    (h : (execute s a below i).Exceeds → T.KeepsLimits) :
    (execute s a below i).translate T = execute (s.translate T) a below i := by
  unfold execute at h ⊢
  cases i with
  | push v => rfl
  | pop => exact translate_withOne s (fun _ _ _ => rfl) h
  | operate op => exact translate_withTwo s fun t x y => translate_ofResult t a _
  | negate => exact translate_withOne s (fun t x _ => translate_ofResult t a _) h
  | invert => exact translate_withOne s (fun _ _ _ => rfl) h
  | load name =>
    have hlook : lookUp (s.translate T) a name = lookUp s a name := rfl
    dsimp only
    rw [hlook]
    cases lookUp s a name <;> rfl
  | store name =>
    refine translate_withOne s (fun t v _ => ?_) h
    unfold store
    cases a.frames <;> rfl
  | getAttribute name => exact translate_withOne s (fun t x _ => translate_ofResult t a _) h
  | setAttribute name =>
    refine translate_withTwo s fun t x y => ?_
    cases y <;> rfl
  | jump target => rfl
  | jumpIfFalse target => exact translate_withOne s (fun _ _ _ => rfl) h
  | makeFunction name params body => rfl
  | call count =>
    have hstack : (s.translate T).stack = s.stack := rfl
    simp only [Interpreter.popMany, hstack] at h ⊢
    by_cases hcount : s.stack.length < count
    · rw [if_pos hcount, if_pos hcount]
      rfl
    · rw [if_neg hcount] at h ⊢
      rw [if_neg hcount]
      exact translate_withOne { s with stack := s.stack.drop count }
        (fun t v => translate_call t a below hT v _) h
  | ret =>
    refine translate_withOne s (fun t v _ => ?_) h
    unfold ret
    cases a.frames <;> rfl
  | use name => exact translate_use s a name
  | raise => exact translate_withOne s (fun _ _ _ => rfl) h

end Instructions

end Machine

/-! ## Steps -/

/-- The progress of the translated interpreter. -/
def Progress.translate (T : Translation H₁ H₂) : Progress H₁ → Progress H₂
  | .running m => .running ⟨m.state.translate T, m.top, m.below⟩
  | .done s a => .done (s.translate T) a

namespace Machine

section Steps

variable [Host H₁] [Host H₂] (hT : T.Faithful)
include hT

theorem translate_deliver : ∀ (s : Interpreter H₁) (origin : Origin) (name : String)
    (r : Except LoadError ModuleId) (below : List Activation),
    (deliver s origin name r below).translate T = deliver (s.translate T) origin name r below
  | _, _, _, _, [] => rfl
  | s, origin, name, r, a :: below => by
    cases origin with
    | host => cases r <;> rfl
    | call => cases r <;> rfl
    | use =>
      cases r with
      | ok m => rfl
      | error cause =>
        unfold deliver
        cases a.load with
        | none => rfl
        | some l =>
          dsimp only
          rw [s.translate_endLoad hT, translate_deliver]

theorem translate_finish (s : Interpreter H₁) (a : Activation) (below : List Activation)
    (o : Except LoadError Unit) :
    (finish s a below o).translate T = finish (s.translate T) a below o := by
  unfold finish
  cases a.load with
  | none => rfl
  | some l =>
    dsimp only
    rw [s.translate_endLoad hT, translate_deliver hT]

theorem translate_load (s : Interpreter H₁) (source name : String) (origin : Origin)
    (below : List Activation) (h : s.refusal? name = some (.tooDeep name) → T.KeepsLimits) :
    (load s source name origin below).translate T =
      load (s.translate T) source name origin below := by
  unfold load
  rw [s.refusal?_translate hT name h]
  cases s.refusal? name with
  | some r => exact translate_deliver hT s origin name _ below
  | none =>
    dsimp only
    rw [s.translate_beginLoad hT]
    cases Code.compile source (displayName name) with
    | error e =>
      dsimp only
      rw [Interpreter.translate_endLoad _ hT, translate_deliver hT]
    | ok code => rfl

/-- **A step that no limit stops is translated.** -/
theorem translate_step (m : Machine H₁) (h : m.Exceeds → T.KeepsLimits) :
    m.step.translate T = step ⟨m.state.translate T, m.top, m.below⟩ := by
  unfold Exceeds at h
  cases hi : m.top.code[m.top.ip]? with
  | none =>
    have hi' : (⟨m.state.translate T, m.top, m.below⟩ : Machine H₂).top.code[m.top.ip]? = none := hi
    rw [step_eq_finish hi, step_eq_finish hi', translate_finish hT]
  | some x =>
    obtain ⟨i, line⟩ := x
    have hi' : (⟨m.state.translate T, m.top, m.below⟩ : Machine H₂).top.code[m.top.ip]? =
      some (i, line) := hi
    rw [hi] at h
    rw [step_eq hi, step_eq hi', ← translate_execute _ _ _ hT i h]
    dsimp only at h
    cases he : execute m.state (jumpTo m.top (m.top.ip + 1)) m.below i with
    | next t a => rfl
    | stop t e => exact translate_finish hT t m.top m.below _
    | load t source name origin =>
      rw [he] at h
      exact translate_load hT t source name origin _ h

/-- **A run in which no limit stops a step is translated.** -/
theorem translate_run {p : Progress H₁}
    (h : ∀ m, Reaches p (.running m) → m.Exceeds → T.KeepsLimits) (fuel : Nat) :
    run fuel (p.translate T) = (run fuel p).map fun r => (r.1.translate T, r.2) := by
  induction fuel generalizing p with
  | zero => cases p <;> rfl
  | succ n ih =>
    cases p with
    | done s a => rfl
    | running m =>
      show run n (step ⟨m.state.translate T, m.top, m.below⟩) = _
      rw [← translate_step hT m (h m (.refl _)), ih fun w hw => h w (.step hw)]
      rfl

end Steps

end Machine

namespace Interpreter

variable [Host H₁] [Host H₂] {s : Interpreter H₁} {source name : String}

/-- No limit stops anything while the source text is loaded: neither this load nor one that its code
asks for is refused because too many are in progress, and no call is stopped because too many
are. -/
structure WithinLimits (s : Interpreter H₁) (source name : String) : Prop where
  load : s.refusal? name ≠ some (.tooDeep name)
  steps : ∀ m, Machine.Reaches (Machine.load s source name .host []) (.running m) → ¬ m.Exceeds

/-- **A load is translated**, if the limits are kept or no limit stops anything in it. -/
theorem translate_tryLoad (hT : T.Faithful) (h : s.WithinLimits source name ∨ T.KeepsLimits)
    (fuel : Nat) : (s.translate T).tryLoad fuel source name =
      (s.tryLoad fuel source name).map fun r => (r.1.translate T, r.2) := by
  have hload := Machine.translate_load hT s source name .host [] fun he =>
    h.resolve_left fun hin => hin.load he
  have hrun := Machine.translate_run hT (p := Machine.load s source name .host [])
    (fun m hm he => h.resolve_left fun hin => hin.steps m hm he) fuel
  unfold tryLoad
  rw [← hload, hrun]
  rcases Machine.run fuel (Machine.load s source name .host []) with _ | ⟨t, a | a⟩ <;> rfl

end Interpreter

end Ember
