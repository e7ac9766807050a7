import Ember.Proofs.Machine.Runs
import Ember.Proofs.Machine.Effects

/-!
# Invariants of runs

What a step does is one of few things: an instruction goes on, stops or asks for a load; a load
begins; a load ends; the activation below gets an outcome. A property of the state and of the
activations in progress that each of these keeps (`Invariant`) holds all along a run
(`Invariant.reaches`), also where a failure ends several loads in one step.

Some properties are kept only as long as the source texts that are loaded have a property in their
turn, as with programs without loops; for these there is `InvariantIf`.
-/

namespace Ember.Machine

variable {H : Type}

/-- The property holds of the state and of the activations in progress; there are none in the
end. -/
def Holds (I : Interpreter H → List Activation → Prop) : Progress H → Prop
  | .running m => I m.state (m.top :: m.below)
  | .done s _ => I s []

variable [Host H]

/-- The activation of a load that has begun. -/
def begun (s : Interpreter H) (source name : String) (origin : Origin) (code : Code.Chunk) :
    Activation :=
  Activation.start (displayName name) code (s.beginLoad source name origin).1.module
    (some (s.beginLoad source name origin).1)

/-- A load whose source compiles. -/
theorem load_eq_running {s : Interpreter H} {source name : String} {origin : Origin}
    {below : List Activation} {code : Code.Chunk} (hr : s.refusal? name = none)
    (hc : Code.compile source (displayName name) = .ok code) :
    load s source name origin below = .running
      ⟨(s.beginLoad source name origin).2, begun s source name origin code, below⟩ := by
  unfold load
  rw [hr, hc]
  rfl

/-- The next step starts the code of a source text: a load begins, and the source compiles. -/
def Starts (m : Machine H) (source : String) (b : Activation) : Prop :=
  ∃ i line t name origin code, m.top.code[m.top.ip]? = some (i, line) ∧
    execute m.state (jumpTo m.top (m.top.ip + 1)) m.below i = .load t source name origin ∧
    t.refusal? name = none ∧ Code.compile source (displayName name) = .ok code ∧
    b = begun t source name origin code

/-- What an activation can get as the outcome of a load: a truth value, or a registered module. -/
def Receivable (s : Interpreter H) (v : Value) : Prop :=
  v.node? = none ∨ ∃ name m, s.module? name = some m ∧ v = .module m

/-- A property that each part of a step keeps in which no load begins. -/
structure Steady (I : Interpreter H → List Activation → Prop) : Prop where
  next : ∀ {s t : Interpreter H} {a b : Activation} {below : List Activation} {i : Code.Instr}
    {line : Nat}, I s (a :: below) → a.code[a.ip]? = some (i, line) →
    execute s (jumpTo a (a.ip + 1)) below i = .next t b → I t (b :: below)
  stop : ∀ {s t : Interpreter H} {a : Activation} {below : List Activation} {i : Code.Instr}
    {line : Nat} {e : RuntimeError}, I s (a :: below) → a.code[a.ip]? = some (i, line) →
    execute s (jumpTo a (a.ip + 1)) below i = .stop t e → I t (a :: below)
  asks : ∀ {s t : Interpreter H} {a : Activation} {below : List Activation} {i : Code.Instr}
    {line : Nat} {source name : String} {origin : Origin}, I s (a :: below) →
    a.code[a.ip]? = some (i, line) →
    execute s (jumpTo a (a.ip + 1)) below i = .load t source name origin →
    I t (jumpTo a (a.ip + 1) :: below)
  /-- The activation gets the outcome of a load as a value. -/
  receives : ∀ {s : Interpreter H} {a : Activation} {below : List Activation},
    I s (a :: below) → ∀ v e, Receivable s v → I ({ s with lastError := e }.push v) (a :: below)
  ends : ∀ {s : Interpreter H} {a : Activation} {below : List Activation} {l : Load},
    I s (a :: below) → a.load = some l → ∀ o, I (s.endLoad l o).2 below
  /-- Nothing goes on after code that no load belongs to. -/
  stops : ∀ {s : Interpreter H} {a : Activation} {below : List Activation},
    I s (a :: below) → a.load = none → I s []

/-- A property that each part of a step keeps. -/
structure Invariant (I : Interpreter H → List Activation → Prop) : Prop extends Steady I where
  begins : ∀ {s t : Interpreter H} {a : Activation} {below : List Activation} {i : Code.Instr}
    {line : Nat} {source name : String} {origin : Origin}, I s (a :: below) →
    a.code[a.ip]? = some (i, line) →
    execute s (jumpTo a (a.ip + 1)) below i = .load t source name origin →
    t.refusal? name = none → ∀ code, I (t.beginLoad source name origin).2
      (begun t source name origin code :: jumpTo a (a.ip + 1) :: below)

/-- A property that each part of a step keeps, as long as the source texts and activations that are
started have the property `B`. -/
structure InvariantIf (B : String → Activation → Prop)
    (I : Interpreter H → List Activation → Prop) : Prop extends Steady I where
  begins : ∀ {s t : Interpreter H} {a : Activation} {below : List Activation} {i : Code.Instr}
    {line : Nat} {source name : String} {origin : Origin} {code : Code.Chunk},
    I s (a :: below) → a.code[a.ip]? = some (i, line) →
    execute s (jumpTo a (a.ip + 1)) below i = .load t source name origin →
    t.refusal? name = none → Code.compile source (displayName name) = .ok code →
    B source (begun t source name origin code) →
    I (t.beginLoad source name origin).2
      (begun t source name origin code :: jumpTo a (a.ip + 1) :: below)
  /-- The source does not compile. -/
  fails : ∀ {s t : Interpreter H} {a : Activation} {below : List Activation} {i : Code.Instr}
    {line : Nat} {source name : String} {origin : Origin} {e : Code.CompileError},
    I s (a :: below) → a.code[a.ip]? = some (i, line) →
    execute s (jumpTo a (a.ip + 1)) below i = .load t source name origin →
    t.refusal? name = none → Code.compile source (displayName name) = .error e →
    I ((t.beginLoad source name origin).2.endLoad (t.beginLoad source name origin).1
      (.error (.compile e))).2 (jumpTo a (a.ip + 1) :: below)

variable {I : Interpreter H → List Activation → Prop} {s : Interpreter H}

namespace Steady

/-- The outcome of a load is a registered module. -/
theorem registered_endLoad (s : Interpreter H) (l : Load) (o : Except LoadError Unit) :
    ∀ m, (s.endLoad l o).1 = .ok m → ∃ name, (s.endLoad l o).2.module? name = some m := by
  intro m h
  rcases s.endLoad_cases l o with ⟨-, ⟨hname, -⟩, he⟩ | he
  · rw [he] at h ⊢
    cases h
    refine ⟨l.name, ?_⟩
    rw [Interpreter.module?_trace]
    exact hname
  · rw [he] at h
    cases h

theorem deliver (hI : Steady I) : ∀ {below : List Activation} {s : Interpreter H}
    (origin : Origin) (name : String) (r : Except LoadError ModuleId), I s below →
    (∀ m, r = .ok m → ∃ n, s.module? n = some m) →
    Holds I (Machine.deliver s origin name r below)
  | [], _, _, _, _, h, _ => h
  | a :: below, s, origin, name, r, h, hr => by
    cases origin with
    | host =>
      cases r with
      | ok m => exact hI.receives h (.bool true) s.lastError (.inl rfl)
      | error e => exact hI.receives h (.bool false) (some e) (.inl rfl)
    | call =>
      cases r with
      | ok m => exact hI.receives h (.bool true) s.lastError (.inl rfl)
      | error e => exact hI.receives h (.bool false) (some e) (.inl rfl)
    | use =>
      cases r with
      | ok m =>
        obtain ⟨n, hn⟩ := hr m rfl
        exact hI.receives h (.module m) s.lastError (.inr ⟨n, m, hn, rfl⟩)
      | error cause =>
        unfold Machine.deliver
        cases hl : a.load with
        | none => exact hI.stops h hl
        | some l =>
          have hended := hI.ends h hl (.error (a.exception (.importFailed name cause)))
          exact hI.deliver l.origin l.name _ hended nofun

theorem finish (hI : Steady I) {a : Activation} {below : List Activation}
    (h : I s (a :: below)) (o : Except LoadError Unit) :
    Holds I (Machine.finish s a below o) := by
  unfold Machine.finish
  cases hl : a.load with
  | none => exact hI.stops h hl
  | some l => exact hI.deliver l.origin l.name _ (hI.ends h hl o) (registered_endLoad s l o)

/-- A load that is refused, one whose source does not compile, and one whose code starts. -/
theorem load (hI : Steady I) {below : List Activation} {source name : String} {origin : Origin}
    (h : I s below)
    (hbegins : ∀ code, s.refusal? name = none → Code.compile source (displayName name) = .ok code →
      I (s.beginLoad source name origin).2 (begun s source name origin code :: below))
    (hfails : ∀ e, s.refusal? name = none → Code.compile source (displayName name) = .error e →
      I ((s.beginLoad source name origin).2.endLoad (s.beginLoad source name origin).1
        (.error (.compile e))).2 below) :
    Holds I (Machine.load s source name origin below) := by
  unfold Machine.load
  cases hr : s.refusal? name with
  | some c => exact hI.deliver origin name _ h nofun
  | none =>
    cases hc : Code.compile source (displayName name) with
    | ok code => exact hbegins code hr hc
    | error e => exact hI.deliver origin name _ (hfails e hr hc) nofun

end Steady

namespace InvariantIf

variable {B : String → Activation → Prop}

/-- **A step keeps the property**, if what it starts is fit for it. -/
theorem step (hI : InvariantIf B I) {m : Machine H} (h : I m.state (m.top :: m.below))
    (hB : ∀ source b, m.Starts source b → B source b) : Holds I m.step := by
  cases hi : m.top.code[m.top.ip]? with
  | none =>
    rw [step_eq_finish hi]
    exact hI.finish h _
  | some x =>
    obtain ⟨i, line⟩ := x
    rw [step_eq hi]
    cases he : execute m.state (jumpTo m.top (m.top.ip + 1)) m.below i with
    | next t a => exact hI.next h hi he
    | stop t e => exact hI.finish (hI.stop h hi he) _
    | load t source name origin =>
      refine hI.load (hI.asks h hi he) (fun code hr hc => ?_) fun e => hI.fails h hi he
      have hstarts : m.Starts source (begun t source name origin code) :=
        ⟨i, line, t, name, origin, code, hi, he, hr, hc, rfl⟩
      exact hI.begins h hi he hr hc (hB _ _ hstarts)

/-- **The property holds all along a run**, if all that is started in it is fit for it. -/
theorem reaches (hI : InvariantIf B I) {p q : Progress H} (hp : Holds I p) (hr : Reaches p q)
    (hB : ∀ m source b, Reaches p (.running m) → m.Starts source b → B source b) :
    Holds I q := by
  induction hr with
  | refl => exact hp
  | step _ ih =>
    refine ih (hI.step hp fun source b => hB _ source b (.refl _)) ?_
    exact fun m source b hm => hB m source b (.step hm)

end InvariantIf

namespace Invariant

/-- A load that is refused, one whose source does not compile, and one whose code starts. -/
theorem load (hI : Invariant I) {below : List Activation} {source name : String}
    {origin : Origin} (h : I s below) (hbegins : s.refusal? name = none → ∀ code,
      I (s.beginLoad source name origin).2 (begun s source name origin code :: below)) :
    Holds I (Machine.load s source name origin below) :=
  hI.toSteady.load h (fun code hr _ => hbegins hr code) fun _ hr _ =>
    hI.ends (hbegins hr #[]) rfl _

/-- A property of the state that instructions keep, and the beginnings and the ends of loads. -/
theorem of_state {P : Interpreter H → Prop}
    (hexecute : ∀ s a below i, P s → P (execute s a below i).state)
    (hreceives : ∀ s v e, P s → P ({ s with lastError := e }.push v))
    (hbegins : ∀ s source name origin, P s → s.refusal? name = none →
      P (s.beginLoad source name origin).2)
    (hends : ∀ s l o, P s → P (s.endLoad l o).2) : Invariant fun s _ => P s where
  next := by
    intro s t a b below i line h hi he
    have hleft := hexecute s (jumpTo a (a.ip + 1)) below i h
    rw [he] at hleft
    exact hleft
  stop := by
    intro s t a below i line e h hi he
    have hleft := hexecute s (jumpTo a (a.ip + 1)) below i h
    rw [he] at hleft
    exact hleft
  asks := by
    intro s t a below i line source name origin h hi he
    have hleft := hexecute s (jumpTo a (a.ip + 1)) below i h
    rw [he] at hleft
    exact hleft
  begins := by
    intro s t a below i line source name origin h hi he hr code
    have hleft := hexecute s (jumpTo a (a.ip + 1)) below i h
    rw [he] at hleft
    exact hbegins t source name origin hleft hr
  receives h v e _ := hreceives _ v e h
  ends h _ o := hends _ _ o h
  stops h _ := h

theorem invariantIf (hI : Invariant I) : InvariantIf (fun _ _ => True) I where
  toSteady := hI.toSteady
  begins h hi he hr _ _ := hI.begins h hi he hr _
  fails h hi he hr _ := hI.ends (hI.begins h hi he hr #[]) rfl _

/-- **An invariant holds all along a run.** -/
theorem reaches (hI : Invariant I) {p q : Progress H} (hp : Holds I p) (hr : Reaches p q) :
    Holds I q :=
  hI.invariantIf.reaches hp hr fun _ _ _ _ _ => trivial

end Invariant

end Ember.Machine
