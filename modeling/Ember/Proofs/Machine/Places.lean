import Ember.Proofs.Machine.Origins
import Ember.Proofs.Samples
import Mathlib

/-!
# Where an exception happened

**Theorem (`exceptions_placed`).** Whatever instruction of a run fails, the line of the exception is
that of the statement that the instruction belongs to, in the source text of the module on whose
fields the code runs. The file is that of the load in progress. Outside of calls, and in calls of
functions of the module that is being loaded, this is the file of the same text; in a call of a
function of another module it is not: the exception then has the file of the one module and a line
of the other (`file_of_other_module`).

The line is right because the code that runs was compiled from the text of its module
(`traced_of_reaches`), and because every instruction that can fail has the line of its statement
(`Chunk.IsOf.owner`).
-/

namespace Ember

open Source (Statement)

variable {H : Type}

namespace Machine

/-! ## Exceptions -/

/-- The errors that the next step of a machine can make, each in an activation. -/
inductive Raises [Host H] (m : Machine H) : Activation → RuntimeError → Prop
  /-- The next instruction stops the code. -/
  | stops {i : Code.Instr} {line : Nat} {t : Interpreter H} {e : RuntimeError} :
    m.top.code[m.top.ip]? = some (i, line) →
    execute m.state (jumpTo m.top (m.top.ip + 1)) m.below i = .stop t e →
    Raises m (jumpTo m.top (m.top.ip + 1)) e
  /-- The next instruction is an `import`, and the load fails at once. -/
  | imports {i : Code.Instr} {line : Nat} {t : Interpreter H} {source name : String}
    {cause : LoadError} : m.top.code[m.top.ip]? = some (i, line) →
    execute m.state (jumpTo m.top (m.top.ip + 1)) m.below i = .load t source name .use →
    Raises m (jumpTo m.top (m.top.ip + 1)) (.importFailed name cause)
  /-- The activation waits for the end of a load. -/
  | waits {a : Activation} {name : String} {cause : LoadError} :
    a ∈ m.below → Raises m a (.importFailed name cause)

/-- Where an error of an activation happens that runs for the load `l`. -/
structure Placed (texts : Text → Prop) (a : Activation) (l : Load) (T : Text) (st : Statement) :
    Prop where
  load : a.load = some l
  text : texts T
  module : T.module = a.globals
  /-- The instruction belongs to the statement, which stands in the text. -/
  owns : T.Owns a.code (a.ip - 1) st
  /-- The file is that of the load, and the line is that of the statement. -/
  exception : ∀ e, a.exception e = .runtime e (displayName l.name) st.line
  /-- Outside of calls, code of the module runs that is being loaded. -/
  outside : a.frames = [] → a.globals = l.module
  /-- While code of this module runs, its text has the name of the load. -/
  name : a.globals = l.module → T.name = l.name

section Runs

variable [Host H] {s : Interpreter H} {texts : Text → Prop} {source name : String}
  {m : Machine H} {a : Activation} {e : RuntimeError}

/-- All activations of a load that the host asks for have loads, the outermost this one. -/
theorem loads_of_reaches (hm : Reaches (load s source name .host []) (.running m)) :
    (∀ a ∈ m.top :: m.below, ∃ l, a.load = some l) ∧
      ∀ a, (m.top :: m.below).getLast? = some a →
        a.load = some (s.beginLoad source name .host).1 := by
  obtain ⟨hloads, hlast, -⟩ :=
    Interpreter.tracks_of_reaches (Interpreter.refusal?_of_reaches hm) hm
  refine ⟨fun a ha => Option.ne_none_iff_exists'.1 (hloads a ha), fun a ha => ?_⟩
  obtain ⟨outer, houter⟩ := List.getLast?_eq_some_iff.1 ha
  have hmem : a ∈ m.top :: m.below := houter ▸ List.mem_append_right _ (List.mem_singleton_self a)
  obtain ⟨l, hl⟩ := Option.ne_none_iff_exists'.1 (hloads a hmem)
  have hlast : l = (s.beginLoad source name .host).1 := by
    refine hlast l ?_
    rw [loads, houter, loadsOf, List.filterMap_append, ← loadsOf, ← loadsOf, loadsOf_cons hl,
      List.getLast?_append]
    rfl
  rw [hl, hlast]

/-- An activation in which the next step can make an error has just executed an instruction that can
fail, and is in the same calls as one in progress. -/
theorem Raises.failing (hs : s.Sourced texts)
    (hm : Reaches (load s source name .host []) (.running m)) (h : m.Raises a e) :
    Failing a ∧ ∃ b ∈ m.top :: m.below, a = jumpTo b a.ip := by
  have htraced := traced_of_reaches hs hm
  cases h with
  | @stops i line _ _ hi he =>
    have hsafe := ((keeps_load hs.compiled).reaches hm).1.safe
    have hacts := acts_execute m.state (jumpTo m.top (m.top.ip + 1)) m.below i
    rw [he] at hacts
    refine ⟨⟨i, line, Nat.succ_pos _, hi, ?_⟩, m.top, List.mem_cons_self .., rfl⟩
    cases hacts with
    | stop _ hfails => exact hfails.resolve_left (hsafe.sane i line _ _ hi he)
  | imports hi he => exact ⟨(htraced.asks hi he).2, m.top, List.mem_cons_self .., rfl⟩
  | waits ha => exact ⟨htraced.waiting a ha, a, List.mem_cons_of_mem _ ha, rfl⟩

/-- What an activation runs for, in a load that the host asks for. -/
theorem Body.load_of_asked {file : String} {code : Code.Chunk} {globals : ModuleId}
    {o : Option Load} (h : Body (Machine.load s source name .host []) file o code globals) :
    ∃ l, o = some l ∧ file = displayName l.name ∧ globals = l.module := by
  cases h with
  | load => exact ⟨_, rfl, rfl, rfl⟩
  | @chunk t file code globals hp =>
    have hm : Reaches (Machine.load s source name .host [])
        (.running ⟨t, Activation.start file code globals none, []⟩) := by
      rw [hp]
      exact .refl _
    obtain ⟨l, hl⟩ := (loads_of_reaches hm).1 _ (List.mem_cons_self ..)
    cases hl

/-- **Every error that a step of a run makes is placed.** -/
theorem Raises.placed (hs : s.Sourced texts)
    (hm : Reaches (Machine.load s source name .host []) (.running m)) (h : m.Raises a e) :
    ∃ l T st, Placed (s.TextIn source name texts) a l T st := by
  obtain ⟨⟨i, line, -, hi, hfails⟩, b, hb, hab⟩ := h.failing hs hm
  have htraced := traced_of_reaches hs hm
  obtain ⟨code, globals, hbody, hcalling⟩ := calls_in_order (.load source name) hm b hb
  obtain ⟨l, hl, hfile, rfl⟩ := hbody.load_of_asked
  obtain ⟨T, hT, hmodule, program, hprogram, hcode⟩ :=
    htraced.contexts b hb _ (List.mem_cons_self ..)
  obtain ⟨U, hU, hmodule', hname⟩ := htraced.loads b hb l hl
  generalize a.ip = ip at hab hi
  subst hab
  obtain ⟨st, howner, hline⟩ := hcode.owner hi hfails
  refine ⟨l, T, st, hl, hT, hmodule, ⟨program, hprogram, hcode, howner⟩, fun e => ?_, fun hf => ?_,
    fun hg => ?_⟩
  · rw [exception_eq hi, hline, show (jumpTo b ip).file = displayName l.name from hfile]
  · exact (hcalling.eq_of_nil hf).2
  · -- The code that runs and the load have a text of the same module, hence the same text.
    rw [hT.unique hs hU ((hmodule.trans hg).trans hmodule'.symm)]
    exact hname

/-! ## The end of a run -/

omit s

variable {s t : Interpreter H} {below : List Activation} {file : String} {line : Nat}

omit [Host H] in
theorem failure_error (hp : s.pending = none) (l : Load) (cause : LoadError) :
    s.failure l (.error cause) = cause := by
  unfold Interpreter.failure
  rw [hp]

/-- An error that is delivered through all activations fails the last of them as well. -/
theorem exception_of_deliver : ∀ {below : List Activation} {s : Interpreter H} {origin : Origin}
    {name : String} {r : Except LoadError ModuleId}, (∀ a ∈ below, ∃ l, a.load = some l) →
    s.pending = none → below ≠ [] →
    deliver s origin name r below = .done t (.loaded (.error (.runtime e file line))) →
    origin = .use ∧ ∃ a n cause, below.getLast? = some a ∧ e = .importFailed n cause ∧
      a.exception e = .runtime e file line ∧ (below.tail = [] → n = name)
  | [], _, _, _, _, _, _, hne, _ => absurd rfl hne
  | a :: below, s, origin, name, r, hloads, hp, _, h => by
    cases origin with
    | host => cases r <;> cases h
    | call => cases r <;> cases h
    | use =>
      cases r with
      | ok m => cases h
      | error cause =>
        refine ⟨rfl, ?_⟩
        obtain ⟨l, hl⟩ := hloads a (List.mem_cons_self ..)
        have hended := (ended_endLoad s l (.error (a.exception (.importFailed name cause)))).pending
        have hfailure : (s.endLoad l (.error (a.exception (.importFailed name cause)))).1 =
            .error (a.exception (.importFailed name cause)) := by
          rw [s.endLoad_error, failure_error hp]
        simp only [deliver, hl] at h
        cases below with
        | nil =>
          rw [hfailure] at h
          cases h
          exact ⟨a, name, cause, rfl, rfl, rfl, fun _ => rfl⟩
        | cons b below =>
          have hbelow := fun c hc => hloads c (List.mem_cons_of_mem a hc)
          obtain ⟨-, c, n, cause', hc, he, hexception, -⟩ :=
            exception_of_deliver hbelow hended (List.cons_ne_nil b below) h
          exact ⟨c, n, cause', hc, he, hexception, fun hb => absurd hb (List.cons_ne_nil b below)⟩

/-- What a run ends with is the error of the code that has ended, or one that it has led to in the
last activation. -/
theorem exception_of_finish {o : Except LoadError Unit}
    (hloads : ∀ b ∈ a :: below, ∃ l, b.load = some l) (hp : s.pending = none)
    (h : finish s a below o = .done t (.loaded (.error (.runtime e file line)))) :
    (below = [] ∧ o = .error (.runtime e file line)) ∨
    ∃ b n cause, below.getLast? = some b ∧ e = .importFailed n cause ∧
      b.exception e = .runtime e file line := by
  obtain ⟨l, hl⟩ := hloads a (List.mem_cons_self ..)
  simp only [finish, hl] at h
  cases below with
  | cons b below =>
    have hbelow := fun c hc => hloads c (List.mem_cons_of_mem a hc)
    have hended := (ended_endLoad s l o).pending
    obtain ⟨-, c, n, cause, hc, he, hexception, -⟩ :=
      exception_of_deliver hbelow hended (List.cons_ne_nil b below) h
    exact .inr ⟨c, n, cause, hc, he, hexception⟩
  | nil =>
    refine .inl ⟨rfl, ?_⟩
    cases o with
    | error cause =>
      rw [s.endLoad_error, failure_error hp] at h
      cases h
      rfl
    | ok u =>
      rcases s.endLoad_cases l (.ok u) with ⟨-, -, he⟩ | he
      · rw [he] at h
        cases h
      · rw [he] at h
        unfold Interpreter.failure at h
        rw [hp] at h
        cases h

/-- A load that ends the run at once fails the code that asks for it. -/
theorem exception_of_load {origin : Origin} (hloads : ∀ b ∈ below, ∃ l, b.load = some l)
    (hp : s.pending = none) (hne : below ≠ [])
    (h : Machine.load s source name origin below =
      .done t (.loaded (.error (.runtime e file line)))) :
    origin = .use ∧ ∃ a n cause, below.getLast? = some a ∧ e = .importFailed n cause ∧
      a.exception e = .runtime e file line ∧ (below.tail = [] → n = name) := by
  unfold Machine.load at h
  cases hr : s.refusal? name with
  | some c =>
    rw [hr] at h
    exact exception_of_deliver hloads hp hne h
  | none =>
    rw [hr] at h
    cases hc : Code.compile source (displayName name) with
    | ok code =>
      rw [hc] at h
      cases h
    | error cause =>
      have hended := ended_endLoad (s.beginLoad source name origin).2
        (s.beginLoad source name origin).1 (.error (.compile cause))
      rw [hc] at h
      exact exception_of_deliver hloads hended.pending hne h

/-- What ends a run is an error of the last activation that the last step has made. -/
theorem exception_of_step (hloads : ∀ b ∈ m.top :: m.below, ∃ l, b.load = some l)
    (hp : m.state.pending = none)
    (h : m.step = .done t (.loaded (.error (.runtime e file line)))) :
    ∃ a, m.Raises a e ∧ a.exception e = .runtime e file line ∧
      ∃ b, (m.top :: m.below).getLast? = some b ∧ a.load = b.load := by
  have hbelow : ∀ {b : Activation} {n : String} {cause : LoadError},
      m.below.getLast? = some b → e = .importFailed n cause → b.exception e = .runtime e file line →
      ∃ a, m.Raises a e ∧ a.exception e = .runtime e file line ∧
        ∃ b, (m.top :: m.below).getLast? = some b ∧ a.load = b.load := by
    intro b n cause hb he hexception
    refine ⟨b, he ▸ .waits (List.mem_of_getLast? hb), hexception, b, ?_, rfl⟩
    rw [List.getLast?_cons, hb]
    rfl
  cases hi : m.top.code[m.top.ip]? with
  | none =>
    rw [step_eq_finish hi] at h
    rcases exception_of_finish hloads hp h with ⟨-, ho⟩ | ⟨b, n, cause, hb, he, hexception⟩
    · cases ho
    · exact hbelow hb he hexception
  | some x =>
    obtain ⟨i, line'⟩ := x
    have hleft := leftBy_execute m.state (jumpTo m.top (m.top.ip + 1)) m.below i
    rw [step_eq hi] at h
    cases hx : execute m.state (jumpTo m.top (m.top.ip + 1)) m.below i with
    | next u a =>
      rw [hx] at h
      cases h
    | stop u e' =>
      rw [hx] at h hleft
      have hpending : u.pending = none := hleft.pending.trans hp
      rcases exception_of_finish hloads hpending h with ⟨hb, ho⟩ | ⟨b, n, cause, hb, he, hexception⟩
      · cases ho
        refine ⟨_, .stops hi hx, exception_eq hi _, m.top, ?_, rfl⟩
        rw [hb]
        rfl
      · exact hbelow hb he hexception
    | load u source n origin =>
      rw [hx] at h hleft
      have hpending : u.pending = none := hleft.pending.trans hp
      have hloads' : ∀ b ∈ jumpTo m.top (m.top.ip + 1) :: m.below, ∃ l, b.load = some l := by
        intro b hb
        rcases List.mem_cons.1 hb with rfl | hb
        · exact hloads m.top (List.mem_cons_self ..)
        · exact hloads b (List.mem_cons_of_mem _ hb)
      obtain ⟨rfl, b, n, cause, hb, he, hexception, hname⟩ :=
        exception_of_load hloads' hpending (List.cons_ne_nil _ _) h
      cases hlast : m.below.getLast? with
      | some c =>
        rw [List.getLast?_cons, hlast] at hb
        cases hb
        exact hbelow hlast he hexception
      | none =>
        -- Nothing lies below, so the code that has asked for the load is the outermost.
        rw [List.getLast?_eq_none_iff] at hlast
        rw [hlast] at hb
        cases hb
        obtain rfl := hname hlast
        refine ⟨_, he ▸ .imports hi hx, hexception, m.top, ?_, rfl⟩
        rw [hlast]
        rfl

/-! ## Runs -/

theorem pending_beginLoad (source name : String) (origin : Origin) (hp : s.pending = none) :
    (s.beginLoad source name origin).2.pending = none := by
  rw [s.beginLoad_snd]
  exact (s.pending_trace _).trans hp

theorem pending_invariant : Invariant (fun (s : Interpreter H) _ => s.pending = none) :=
  .of_state (fun s a below i hp => (leftBy_execute s a below i).pending.trans hp)
    (fun _ _ _ hp => hp) (fun _ source name origin hp _ => pending_beginLoad source name origin hp)
    fun s l o _ => (ended_endLoad s l o).pending

/-- A load that ends at once does not end with an exception. -/
theorem load_ne_exception (hp : s.pending = none) :
    Machine.load s source name .host [] ≠
      .done t (.loaded (.error (.runtime e file line))) := by
  have hpending := pending_beginLoad source name .host hp
  intro h
  unfold Machine.load at h
  cases hr : s.refusal? name with
  | some c =>
    rw [hr] at h
    cases h
  | none =>
    rw [hr] at h
    cases hc : Code.compile source (displayName name) with
    | ok code =>
      rw [hc] at h
      cases h
    | error cause =>
      rw [hc] at h
      simp only [Interpreter.endLoad_error, failure_error hpending] at h
      cases h

/-- **Exceptions have the line of the statement that fails, and the file of the load in progress.**
This holds of every error that a step of a run makes, in the load that the host asks for and in all
loads within it. It holds again of the next load, whose texts are those of this one and its own.
What the load of the host ends with is such an error, in the outermost activation; the file is then
that of the source that was loaded, whatever text the failing instruction comes from. -/
theorem exceptions_placed (hs : s.Sourced texts) :
    (∀ m a e, Reaches (Machine.load s source name .host []) (.running m) → m.Raises a e →
      ∃ l T st, Placed (s.TextIn source name texts) a l T st) ∧
    (∀ t o, Reaches (Machine.load s source name .host []) (.done t o) →
      t.Sourced (s.TextIn source name texts)) ∧
    (s.pending = none → ∀ fuel t e file line,
      s.tryLoad fuel source name = some (t, .error (.runtime e file line)) →
      file = displayName name ∧ ∃ m a T st,
        Reaches (Machine.load s source name .host []) (.running m) ∧
        m.step = .done t (.loaded (.error (.runtime e file line))) ∧ m.Raises a e ∧
        Placed (s.TextIn source name texts) a (s.beginLoad source name .host).1 T st ∧
        line = st.line ∧ (T.module = s.heap.nextModule → T.source = source ∧ T.name = name)) := by
  refine ⟨fun m a e hm h => h.placed hs hm, fun t o h => sourced_of_reaches hs h, ?_⟩
  intro hp fuel t e file line h
  have hrun := reaches_done_iff.2 ⟨fuel, Interpreter.tryLoad_eq_some.1 h⟩
  rcases hrun.last with hload | ⟨m, hm, hstep⟩
  · exact absurd hload (load_ne_exception hp)
  have hpending : m.state.pending = none := by
    refine pending_invariant.reaches (pending_invariant.load hp fun _ _ => ?_) hm
    exact pending_beginLoad source name .host hp
  obtain ⟨hloads, hlast⟩ := loads_of_reaches hm
  obtain ⟨a, hraises, hexception, b, hb, hab⟩ := exception_of_step hloads hpending hstep
  obtain ⟨l, T, st, hplaced⟩ := hraises.placed hs hm
  have hl : l = (s.beginLoad source name .host).1 := by
    have hload := (hplaced.load.symm.trans hab).trans (hlast b hb)
    exact Option.some.inj hload
  subst hl
  have hsame := hexception.symm.trans (hplaced.exception e)
  rw [s.beginLoad_fst] at hsame
  cases hsame
  refine ⟨rfl, m, a, T, st, hm, hstep, hraises, hplaced, rfl, fun hT => ?_⟩
  have hU : s.TextIn source name texts ⟨s.heap.nextModule, source, name⟩ :=
    .loaded (Interpreter.refusal?_of_reaches hm)
  rw [hplaced.text.unique hs hU hT]
  exact ⟨rfl, rfl⟩

end Runs

/-! ## A load that fails -/

/-- A source that raises an error in its second line. -/
theorem exceptions_placed_raise : ∃ t,
    Interpreter.stocked.tryLoad 2 "\nraise 1" "a" =
      some (t, .error (.runtime (.raised (.integer 1)) "<a>" 2)) ∧
    ∃ (m : Machine Capture) (a : Activation) (T : Text) (st : Statement),
      m.Raises a (.raised (.integer 1)) ∧ Placed (Interpreter.stocked.TextIn "\nraise 1"
      "a" fun _ => False) a (Interpreter.stocked.beginLoad "\nraise 1" "a" .host).1 T st ∧
      2 = st.line := by
  have hc : Code.compile "\nraise 1" (displayName "a") =
      .ok #[(.push (.integer 1), 2), (.raise, 2)] := by cbv
  have hrun : ∃ t, Interpreter.stocked.tryLoad 2 "\nraise 1" "a" =
      some (t, .error (.runtime (.raised (.integer 1)) "<a>" 2)) := by
    simp only [Interpreter.tryLoad_eq_some, Machine.load, hc]
    exact ⟨_, rfl⟩
  obtain ⟨t, hrun⟩ := hrun
  have hs : Interpreter.stocked.Sourced fun _ => False := .of_no_functions rfl
  obtain ⟨-, m, a, T, st, -, -, hraises, hplaced, hline, -⟩ :=
    (exceptions_placed hs).2.2 rfl 2 t _ _ _ hrun
  exact ⟨t, hrun, m, a, T, st, hraises, hplaced, hline⟩

/-- A function of another module that fails. The exception has the file of the module that is being
loaded, and a line that no instruction of this module has: it is a line of the other one. -/
theorem file_of_other_module : ∃ t code,
    Interpreter.lending.tryLoad 10 "import lib\nlib.f()" "main" =
      some (t, .error (.runtime (.raised (.text "deep")) "<main>" 4)) ∧
    Code.compile "import lib\nlib.f()" "<main>" = .ok code ∧ ∀ x ∈ code, x.2 ≤ 2 := by
  have hmain : Code.compile "import lib\nlib.f()" (displayName "main") =
      .ok #[(.use "lib", 1), (.store "lib", 1), (.load "lib", 2), (.getAttribute "f", 2),
        (.call 0, 2), (.pop, 2)] := by cbv
  have hlib : Code.compile "\n\nfunc f() \x7b\n raise \"deep\"\n\x7d" (displayName "lib") =
      .ok #[(.makeFunction "f" [] #[(.push (.text "deep"), 4), (.raise, 4), (.push .nil, 4),
        (.ret, 4)], 3), (.store "f", 3)] := by cbv
  have hrun : ∃ t, run 10 (load Interpreter.lending "import lib\nlib.f()" "main" .host []) =
      some (t, .loaded (.error (.runtime (.raised (.text "deep")) "<main>" 4))) := by
    rw [load_eq_running rfl hmain, run, step_eq rfl]
    change ∃ t, run 9 (load _ "\n\nfunc f() \x7b\n raise \"deep\"\n\x7d" "lib" .use _) = _
    rw [load_eq_running rfl hlib]
    exact ⟨_, rfl⟩
  obtain ⟨t, hrun⟩ := hrun
  exact ⟨t, _, Interpreter.tryLoad_eq_some.2 hrun, hmain, by decide⟩

end Machine

end Ember
