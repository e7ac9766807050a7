import Mathlib
import Ember.Proofs.Machine.Calls
import Ember.Proofs.Machine.Sessions
import Ember.Proofs.Machine.Transactions
import Ember.Proofs.Samples

/-!
# A recorded error is delivered once

**Theorem (`Record.delivered_once`).** If an error is pending when the host asks for a load, then
the first load to end, be it this one or one within it, fails with that error, whatever its own code
did, and is rolled back. From then on no error is pending, and all other loads end as their own code
has them end (`Completion.own`). If no error is pending at the start, then all loads do.

One step can end several loads, where an `import` fails. So a run is recorded together with the
loads that end in it, in order (`Record`). The record is made by a second definition of a step that
collects them (`stepLogged`), and leads where the step leads (`snd_stepLogged`).

Nothing but the end of a load touches the slot for a pending error, and the end of a load empties
it. So the error that a load finds there when it ends is what the load that ended before has left
(`Passes`).
-/

namespace Ember

open Machine (Reaches loadsOf loadsOf_cons loadsOf_congr)

variable {H : Type}

/-! ## Completions -/

/-- The end of a load: the state in which it ends, and what its own source and code came to. -/
structure Completion (H : Type) where
  before : Interpreter H
  load : Load
  outcome : Except LoadError Unit

namespace Completion

variable [Host H] (c : Completion H)

/-- What the load ends with. -/
def result : Except LoadError ModuleId := (c.before.endLoad c.load c.outcome).1

/-- The state that the load leaves behind. -/
def after : Interpreter H := (c.before.endLoad c.load c.outcome).2

/-- What the load leaves behind and ends with. -/
def final : Interpreter H × Except LoadError ModuleId := (c.after, c.result)

omit [Host H] in
/-- What the load comes to by itself: it fails if its source or its code does, or if its name does
not stand for its module at the end. -/
def own : Except LoadError ModuleId :=
  match c.outcome with
  | .error cause => .error cause
  | .ok () =>
    if c.before.module? c.load.name = some c.load.module then .ok c.load.module
    else .error (.refused (.notProduced c.load.name))

omit [Host H] in
/-- The outcome is that of the load's own source: it does not compile, or its code stops with an
exception in the load's own file, or it runs to its end. -/
inductive Genuine : Prop
  | compile {source : String} {e : Code.CompileError} :
    Code.compile source (displayName c.load.name) = .error e →
    c.outcome = .error (.compile e) → Genuine
  | stop {e : RuntimeError} {line : Nat} :
    c.outcome = .error (.runtime e (displayName c.load.name) line) → Genuine
  | ran : c.outcome = .ok () → Genuine

/-- The load fails with an error and is rolled back. -/
structure FailsWith (e : LoadError) : Prop where
  result : c.result = .error e
  after : c.after = (c.before.undone c.load).trace (.rolledBack c.load.name e)

variable {c}

theorem pending_after : c.after.pending = none :=
  (Machine.ended_endLoad c.before c.load c.outcome).pending

/-- A pending error fails the load. -/
theorem failsWith_of_pending {e : LoadError} (h : c.before.pending = some e) : c.FailsWith e := by
  have hfailure : c.before.failure c.load c.outcome = e := by
    unfold Interpreter.failure
    rw [h]
  rcases c.before.endLoad_cases c.load c.outcome with ⟨-, ⟨-, hpending⟩, -⟩ | he
  · rw [h] at hpending
    cases hpending
  · rw [hfailure] at he
    exact ⟨congrArg Prod.fst he, congrArg Prod.snd he⟩

/-- A load that finds no error pending ends as it does by itself. -/
theorem result_eq_own (h : c.before.pending = none) : c.result = c.own := by
  unfold result own
  cases ho : c.outcome with
  | error cause =>
    rw [c.before.endLoad_error]
    unfold Interpreter.failure
    rw [h]
  | ok u =>
    by_cases hname : c.before.module? c.load.name = some c.load.module
    · rw [c.before.endLoad_of_kept c.load ⟨hname, h⟩]
      exact (if_pos hname).symm
    · rw [c.before.endLoad_of_not_kept c.load fun hk => hname hk.1]
      unfold Interpreter.failure
      rw [h]
      exact (if_neg hname).symm

end Completion

/-! ## Steps that are logged -/

/-- Where a step leads, and the loads that end in it, the innermost first. -/
abbrev Logged (H : Type) := List (Completion H) × Progress H

namespace Machine

variable [Host H]

/-- The outcome of a load is handed to who asked for it. -/
def deliverLogged (s : Interpreter H) (origin : Origin) (name : String)
    (r : Except LoadError ModuleId) : List Activation → Logged H
  | [] => ([], .done s (.loaded r))
  | a :: below =>
    match origin, r with
    | .use, .error cause =>
      match a.load with
      | none => ([], deliver s origin name r (a :: below))
      | some l =>
        let c : Completion H := ⟨s, l, .error (a.exception (.importFailed name cause))⟩
        let rest := deliverLogged c.after l.origin l.name c.result below
        (c :: rest.1, rest.2)
    | _, _ => ([], deliver s origin name r (a :: below))

/-- A load ends, and the loads that fail with it. -/
def endLogged (c : Completion H) (below : List Activation) : Logged H :=
  let rest := deliverLogged c.after c.load.origin c.load.name c.result below
  (c :: rest.1, rest.2)

def finishLogged (s : Interpreter H) (a : Activation) (below : List Activation)
    (outcome : Except LoadError Unit) : Logged H :=
  match a.load with
  | none => ([], finish s a below outcome)
  | some l => endLogged ⟨s, l, outcome⟩ below

def loadLogged (s : Interpreter H) (source name : String) (origin : Origin)
    (below : List Activation) : Logged H :=
  match s.refusal? name with
  | some r => deliverLogged s origin name (.error (.refused r)) below
  | none =>
    match Code.compile source (displayName name) with
    | .error e =>
      endLogged ⟨(s.beginLoad source name origin).2, (s.beginLoad source name origin).1,
        .error (.compile e)⟩ below
    | .ok _ => ([], load s source name origin below)

def stepLogged (m : Machine H) : Logged H :=
  match m.top.code[m.top.ip]? with
  | none => finishLogged m.state m.top m.below (.ok ())
  | some (i, _) =>
    let a := jumpTo m.top (m.top.ip + 1)
    match execute m.state a m.below i with
    | .next s a => ([], .running ⟨s, a, m.below⟩)
    | .stop s e => finishLogged s a m.below (.error (a.exception e))
    | .load s source name origin => loadLogged s source name origin (a :: m.below)

theorem snd_deliverLogged : ∀ (s : Interpreter H) (origin : Origin) (name : String)
    (r : Except LoadError ModuleId) (below : List Activation),
    (deliverLogged s origin name r below).2 = deliver s origin name r below
  | _, _, _, _, [] => rfl
  | s, origin, name, r, a :: below => by
    cases origin with
    | host => cases r <;> rfl
    | call => cases r <;> rfl
    | use =>
      cases r with
      | ok m => rfl
      | error cause =>
        unfold deliverLogged
        cases hl : a.load with
        | none => rfl
        | some l =>
          unfold deliver
          rw [hl]
          exact snd_deliverLogged _ _ _ _ below

theorem snd_finishLogged (s : Interpreter H) (a : Activation) (below : List Activation)
    (o : Except LoadError Unit) : (finishLogged s a below o).2 = finish s a below o := by
  unfold finishLogged
  cases hl : a.load with
  | none => rfl
  | some l =>
    unfold finish
    rw [hl]
    exact snd_deliverLogged _ _ _ _ below

theorem snd_loadLogged (s : Interpreter H) (source name : String) (origin : Origin)
    (below : List Activation) :
    (loadLogged s source name origin below).2 = load s source name origin below := by
  unfold loadLogged load
  cases s.refusal? name with
  | some r => exact snd_deliverLogged _ _ _ _ below
  | none =>
    dsimp only
    cases Code.compile source (displayName name) with
    | error e =>
      refine (snd_deliverLogged _ _ _ _ below).trans ?_
      rfl
    | ok code => rfl

/-- **The log leads where the step leads.** -/
theorem snd_stepLogged (m : Machine H) : m.stepLogged.2 = m.step := by
  unfold stepLogged step
  cases m.top.code[m.top.ip]? with
  | none => exact snd_finishLogged _ _ _ _
  | some x =>
    dsimp only [jumpTo]
    cases execute m.state { m.top with ip := m.top.ip + 1 } m.below x.1 with
    | next t a => rfl
    | stop t e => exact snd_finishLogged _ _ _ _
    | load t source name origin => exact snd_loadLogged _ _ _ _ _

end Machine

/-! ## The slot for a pending error -/

section Passes

variable [Host H]

/-- From a state in which `e` is pending, these loads end one after the other, and then `e'` is
pending: each of the loads finds what the one before has left. -/
def Passes (e : Option LoadError) : List (Completion H) → Option LoadError → Prop
  | [], e' => e' = e
  | c :: cs, e' => c.before.pending = e ∧ Passes c.after.pending cs e'

theorem Passes.append {e e' e'' : Option LoadError} {cs ds : List (Completion H)}
    (h : Passes e cs e') (hd : Passes e' ds e'') : Passes e (cs ++ ds) e'' := by
  induction cs generalizing e with
  | nil =>
    cases h
    exact hd
  | cons c cs ih => exact ⟨h.1, ih h.2⟩

/-- Once no error is pending, all loads find none. -/
theorem Passes.none {e' : Option LoadError} {cs : List (Completion H)} (h : Passes .none cs e') :
    e' = .none ∧ ∀ c ∈ cs, c.before.pending = .none := by
  induction cs with
  | nil => exact ⟨h, List.forall_mem_nil _⟩
  | cons c cs ih =>
    obtain ⟨hc, hcs⟩ := h
    rw [Completion.pending_after] at hcs
    obtain ⟨he, hrest⟩ := ih hcs
    exact ⟨he, List.forall_mem_cons.2 ⟨hc, hrest⟩⟩

end Passes

namespace Machine

variable [Host H]

/-- The activation runs the code of a load, under the name of the load's file. -/
def Named (a : Activation) : Prop := ∃ l, a.load = some l ∧ a.file = displayName l.name

/-- What the log of a step says: where `e` was pending, and the loads `ls` were in progress, the
innermost of them have ended, and the others are in progress still. A run that ends has the outcome
of the load that has ended last. -/
structure Accounts (e : Option LoadError) (ls : List Load) (x : Logged H) : Prop where
  pending : Passes e x.1 x.2.state.pending
  loads : x.1.map Completion.load ++ x.2.loads = ls
  genuine : ∀ c ∈ x.1, c.Genuine
  final : ∀ t r, x.2 = .done t (.loaded r) → ∀ c ∈ x.1.getLast?, c.final = (t, r)

variable {s : Interpreter H} {below : List Activation}

omit [Host H] in
theorem genuine_exception {a : Activation} {l : Load} (s : Interpreter H) (e : RuntimeError)
    (ha : a.file = displayName l.name) : Completion.Genuine ⟨s, l, .error (a.exception e)⟩ :=
  .stop (congrArg (fun file => Except.error (LoadError.runtime e file a.line)) ha)

/-- No load ends. -/
theorem accounts_nil {e : Option LoadError} {ls : List Load} {p : Progress H}
    (hp : p.state.pending = e) (hl : p.loads = ls) : Accounts e ls ([], p) :=
  ⟨hp, hl, List.forall_mem_nil _, fun _ _ _ _ hc => nomatch hc⟩

/-- A run that ends where a load is delivered has the outcome of the load that has ended last. -/
theorem last_deliver {origin : Origin} {name : String} {r r' : Except LoadError ModuleId}
    {t : Interpreter H} (h : (deliverLogged s origin name r below).2 = .done t (.loaded r')) :
    ((deliverLogged s origin name r below).1.getLast?.map Completion.final).getD (s, r) =
      (t, r') := by
  induction below generalizing s origin name r with
  | nil =>
    cases h
    rfl
  | cons a below ih =>
    cases origin with
    | host => cases r <;> cases h
    | call => cases r <;> cases h
    | use =>
      cases r with
      | ok m => cases h
      | error cause =>
        cases hl : a.load with
        | none =>
          simp only [deliverLogged, deliver, hl] at h
          cases h
        | some l =>
          simp only [deliverLogged, hl] at h ⊢
          rw [List.getLast?_cons, Option.map_some, Option.getD_some,
            ← Option.getD_map Completion.final]
          exact ih h

/-- A load ends before those that its end is delivered to. -/
theorem Accounts.cons {c : Completion H} (hc : c.Genuine) (h : Accounts c.after.pending
      (loadsOf below) (deliverLogged c.after c.load.origin c.load.name c.result below)) :
    Accounts c.before.pending (c.load :: loadsOf below) (endLogged c below) := by
  refine ⟨⟨rfl, h.pending⟩, congrArg (c.load :: ·) h.loads,
    List.forall_mem_cons.2 ⟨hc, h.genuine⟩, fun t r hdone d hd => ?_⟩
  have hlast := last_deliver hdone
  rw [endLogged, List.getLast?_cons] at hd
  cases hd
  rw [← hlast]
  exact (Option.getD_map Completion.final c _).symm

theorem accounts_deliver : ∀ {below : List Activation} {s : Interpreter H} {origin : Origin}
    {name : String} {r : Except LoadError ModuleId}, (∀ a ∈ below, Named a) →
    Accounts s.pending (loadsOf below) (deliverLogged s origin name r below)
  | [], _, _, _, _, _ => accounts_nil rfl rfl
  | a :: below, s, origin, name, r, hnamed => by
    cases origin with
    | host => cases r <;> exact accounts_nil rfl rfl
    | call => cases r <;> exact accounts_nil rfl rfl
    | use =>
      cases r with
      | ok m => exact accounts_nil rfl rfl
      | error cause =>
        obtain ⟨l, hl, hfile⟩ := hnamed a (List.mem_cons_self ..)
        rw [loadsOf_cons hl]
        simp only [deliverLogged, hl]
        exact Accounts.cons (genuine_exception s _ hfile)
          (accounts_deliver fun b hb => hnamed b (List.mem_cons_of_mem a hb))

theorem accounts_end {c : Completion H} (hc : c.Genuine) (hnamed : ∀ a ∈ below, Named a) :
    Accounts c.before.pending (c.load :: loadsOf below) (endLogged c below) :=
  .cons hc (accounts_deliver hnamed)

theorem accounts_finish {a : Activation} {o : Except LoadError Unit}
    (hnamed : ∀ b ∈ a :: below, Named b) (ho : o = .ok () ∨ ∃ e, o = .error (a.exception e)) :
    Accounts s.pending (loadsOf (a :: below)) (finishLogged s a below o) := by
  obtain ⟨l, hl, hfile⟩ := hnamed a (List.mem_cons_self ..)
  have hgenuine : Completion.Genuine ⟨s, l, o⟩ := by
    rcases ho with rfl | ⟨e, rfl⟩
    · exact .ran rfl
    · exact genuine_exception s e hfile
  rw [loadsOf_cons hl]
  simp only [finishLogged, hl]
  exact accounts_end hgenuine fun b hb => hnamed b (List.mem_cons_of_mem a hb)

/-- A load that is asked for is in progress if it begins. -/
theorem accounts_load {source name : String} {origin : Origin}
    (hnamed : ∀ a ∈ below, Named a) : ∃ new : List Load,
      (∀ l, s.Begins source name origin l ↔ l ∈ new) ∧
      Accounts s.pending (new ++ loadsOf below) (loadLogged s source name origin below) := by
  unfold loadLogged Interpreter.Begins
  cases hr : s.refusal? name with
  | some r => exact ⟨[], by simp, accounts_deliver hnamed⟩
  | none =>
    refine ⟨[(s.beginLoad source name origin).1], by simp, ?_⟩
    have hpending : (s.beginLoad source name origin).2.pending = s.pending := by
      rw [s.beginLoad_snd]
      exact s.pending_trace _
    rw [← hpending]
    cases hc : Code.compile source (displayName name) with
    | error e =>
      have hname : (s.beginLoad source name origin).1.name = name := by rw [s.beginLoad_fst]
      rw [← hname] at hc
      exact accounts_end (c := ⟨_, _, .error (.compile e)⟩) (.compile hc rfl) hnamed
    | ok code =>
      rw [load_eq_running hr hc]
      exact accounts_nil rfl rfl

theorem accounts_host (s : Interpreter H) (source name : String) : ∃ new : List Load,
    (∀ l, s.Begins source name .host l ↔ l ∈ new) ∧
    Accounts s.pending (new ++ loadsOf []) (loadLogged s source name .host []) :=
  accounts_load nofun

/-- **What a step's log says.** -/
theorem accounts_step {m : Machine H} (hnamed : ∀ a ∈ m.top :: m.below, Named a) :
    ∃ new : List Load, (∀ l, m.Begins l ↔ l ∈ new) ∧
      Accounts m.state.pending (new ++ m.loads) m.stepLogged := by
  have hleft := leftBy_execute m.state (jumpTo m.top (m.top.ip + 1)) m.below
  have hstays := stays_execute m.state (jumpTo m.top (m.top.ip + 1)) m.below
  have hjump : ∀ a ∈ jumpTo m.top (m.top.ip + 1) :: m.below, Named a := by
    intro a ha
    rcases List.mem_cons.1 ha with rfl | ha
    · exact hnamed m.top (List.mem_cons_self ..)
    · exact hnamed a (List.mem_cons_of_mem m.top ha)
  unfold stepLogged Begins
  cases m.top.code[m.top.ip]? with
  | none => exact ⟨[], by simp, accounts_finish hnamed (.inl rfl)⟩
  | some x =>
    specialize hleft x.1
    specialize hstays x.1
    dsimp only
    generalize execute m.state (jumpTo m.top (m.top.ip + 1)) m.below x.1 = effect at hleft hstays ⊢
    rw [← hleft.pending]
    cases effect with
    | next t a =>
      exact ⟨[], by simp [Effect.Begins], accounts_nil rfl (loadsOf_congr hstays m.below)⟩
    | stop t e =>
      have hfinish := accounts_finish (s := t) hjump (.inr ⟨e, rfl⟩)
      exact ⟨[], by simp [Effect.Begins], hfinish⟩
    | load t source name origin => exact accounts_load hjump

/-- Of the loads that end in a run's last step, the last one is the outermost. -/
theorem Accounts.last {e : Option LoadError} {ls : List Load} {x : Logged H} {t : Interpreter H}
    {r : Except LoadError ModuleId} {l : Load} (h : Accounts e ls x)
    (hx : x.2 = .done t (.loaded r)) (hl : ls.getLast? = some l) :
    ∃ c, x.1.getLast? = some c ∧ c.load = l ∧ c.after = t ∧ c.result = r := by
  have hloads := h.loads
  have hnone : x.2.loads = [] := by
    rw [hx]
    rfl
  rw [hnone, List.append_nil] at hloads
  rw [← hloads, List.getLast?_map] at hl
  obtain ⟨c, hc, hcl⟩ := Option.map_eq_some_iff.1 hl
  have hfinal := h.final t r hx c hc
  exact ⟨c, hc, hcl, congrArg Prod.fst hfinal, congrArg Prod.snd hfinal⟩

end Machine

/-! ## Records -/

variable [Host H]

/-- A load that the host asks for, up to some step: the loads that have begun, and those that have
ended, in order. -/
inductive Record (s : Interpreter H) (source name : String) :
    Set Load → List (Completion H) → Progress H → Prop
  | start : Record s source name {l | s.Begins source name .host l}
      (Machine.loadLogged s source name .host []).1 (Machine.load s source name .host [])
  | step {begun : Set Load} {ended : List (Completion H)} {m : Machine H} :
    Record s source name begun ended (.running m) →
    Record s source name (begun ∪ {l | m.Begins l}) (ended ++ m.stepLogged.1) m.step

namespace Record

variable {s t : Interpreter H} {source name : String} {begun : Set Load}
  {ended : List (Completion H)} {p q : Progress H}

theorem reaches (h : Record s source name begun ended q) :
    Reaches (Machine.load s source name .host []) q := by
  induction h with
  | start => exact .refl _
  | step _ ih => exact ih.trans (.of_step rfl)

/-- Every run is recorded. -/
theorem of_reaches (h : Reaches (Machine.load s source name .host []) q) :
    ∃ begun ended, Record s source name begun ended q := by
  suffices hfrom : ∀ {p}, Reaches p q → ∀ {begun ended}, Record s source name begun ended p →
      ∃ begun ended, Record s source name begun ended q from hfrom h .start
  clear h
  intro p hr
  induction hr with
  | refl => exact fun h => ⟨_, _, h⟩
  | step _ ih => exact fun h => ih h.step

/-- All activations run code of loads. -/
theorem named {m : Machine H} (hr : s.refusal? name = none)
    (h : Record s source name begun ended (.running m)) :
    ∀ a ∈ m.top :: m.below, Machine.Named a := by
  obtain ⟨hload, -⟩ := Interpreter.tracks_of_reaches hr h.reaches
  intro a ha
  obtain ⟨l, hl⟩ := Option.ne_none_iff_exists'.1 (hload a ha)
  obtain ⟨code, globals, hbody, -⟩ := Machine.calls_in_order (.load source name) h.reaches a ha
  rw [hl] at hbody
  generalize hfile : a.file = file at hbody
  cases hbody
  exact ⟨l, hl, hfile⟩

/-- **What a record says of pending errors and of loads.** -/
theorem accounts (hr : s.refusal? name = none) (h : Record s source name begun ended q) :
    Passes s.pending ended q.state.pending ∧
      (∀ l, l ∈ begun ↔ l ∈ ended.map Completion.load ∨ l ∈ q.loads) ∧
      ∀ c ∈ ended, c.Genuine := by
  induction h with
  | start =>
    obtain ⟨new, hnew, hpending, hloads, hgenuine⟩ := Machine.accounts_host s source name
    rw [Machine.snd_loadLogged] at hpending hloads
    refine ⟨hpending, fun l => (hnew l).trans ?_, hgenuine⟩
    rw [← List.mem_append, hloads]
    exact (List.append_nil new).symm ▸ Iff.rfl
  | @step begun ended m h ih =>
    obtain ⟨hpending, hbegun, hended⟩ := ih
    obtain ⟨new, hnew, hstep, hloads, hgenuine⟩ := Machine.accounts_step (h.named hr)
    rw [Machine.snd_stepLogged] at hstep hloads
    refine ⟨hpending.append hstep, fun l => ?_, List.forall_mem_append.2 ⟨hended, hgenuine⟩⟩
    have hl : l ∈ m.stepLogged.1.map Completion.load ∨ l ∈ m.step.loads ↔
        m.Begins l ∨ l ∈ m.loads := by
      rw [← List.mem_append, hloads, List.mem_append, hnew]
    rw [List.map_append, List.mem_append, or_assoc, hl]
    exact (or_congr_left (hbegun l)).trans (or_assoc.trans (or_congr_right or_comm))

/-- The run ends with the load that the host has asked for. -/
theorem last {r : Except LoadError ModuleId} (hr : s.refusal? name = none)
    (h : Record s source name begun ended (.done t (.loaded r))) :
    ∃ c, ended.getLast? = some c ∧ c.load = (s.beginLoad source name .host).1 ∧ c.after = t ∧
      c.result = r := by
  generalize hq : Progress.done t (.loaded r) = q at h
  cases h with
  | start =>
    obtain ⟨new, hnew, haccounts⟩ := Machine.accounts_host s source name
    refine haccounts.last ?_ ?_
    · rw [Machine.snd_loadLogged, hq]
    · have hmem : (s.beginLoad source name .host).1 ∈ new := (hnew _).1 ⟨hr, rfl⟩
      obtain ⟨k, hk⟩ := Option.isSome_iff_exists.1
        (List.getLast?_isSome.2 (List.ne_nil_of_mem hmem))
      have hbegins := (hnew k).2 (List.mem_of_getLast? hk)
      rw [show new ++ loadsOf [] = new from List.append_nil new, hk, hbegins.2]
  | @step begun ended m h =>
    obtain ⟨hload, hfirst, -⟩ := Interpreter.tracks_of_reaches hr h.reaches
    obtain ⟨new, -, haccounts⟩ := Machine.accounts_step (h.named hr)
    obtain ⟨l, hl⟩ := Option.ne_none_iff_exists'.1 (hload m.top (List.mem_cons_self ..))
    have hne : m.loads ≠ [] := by
      rw [Machine.loads, loadsOf_cons hl]
      exact List.cons_ne_nil l _
    obtain ⟨k, hk⟩ := Option.isSome_iff_exists.1 (List.getLast?_isSome.2 hne)
    have hlast : (new ++ m.loads).getLast? = some (s.beginLoad source name .host).1 := by
      rw [List.getLast?_append_of_ne_nil new hne, hk, hfirst k hk]
    obtain ⟨c, hc, hcl⟩ := haccounts.last (by rw [Machine.snd_stepLogged, hq]) hlast
    refine ⟨c, ?_, hcl⟩
    rw [List.getLast?_append, hc]
    rfl

/-- **A recorded error is delivered once.** -/
theorem delivered_once (hr : s.refusal? name = none) (h : Record s source name begun ended q) :
    (∀ l, l ∈ begun ↔ l ∈ ended.map Completion.load ∨ l ∈ q.loads) ∧
    (∀ c ∈ ended, c.Genuine) ∧
    (∀ e, s.pending = some e →
      (ended = [] ∧ q.state.pending = some e) ∨
      ∃ first later, ended = first :: later ∧ first.FailsWith e ∧ q.state.pending = none ∧
        ∀ c ∈ later, c.before.pending = none ∧ c.result = c.own) ∧
    (s.pending = none → q.state.pending = none ∧
      ∀ c ∈ ended, c.before.pending = none ∧ c.result = c.own) ∧
    ∀ t r, q = .done t (.loaded r) → ∃ c, ended.getLast? = some c ∧
      c.load = (s.beginLoad source name .host).1 ∧ c.after = t ∧ c.result = r := by
  obtain ⟨hpasses, hbegun, hgenuine⟩ := h.accounts hr
  refine ⟨hbegun, hgenuine, fun e he => ?_, fun hp => ?_, ?_⟩
  · rw [he] at hpasses
    cases ended with
    | nil => exact .inl ⟨rfl, hpasses⟩
    | cons first later =>
      obtain ⟨hfirst, hlater⟩ := hpasses
      rw [Completion.pending_after] at hlater
      obtain ⟨hq, hnone⟩ := hlater.none
      exact .inr ⟨first, later, rfl, Completion.failsWith_of_pending hfirst, hq,
        fun c hc => ⟨hnone c hc, Completion.result_eq_own (hnone c hc)⟩⟩
  · rw [hp] at hpasses
    obtain ⟨hq, hnone⟩ := hpasses.none
    exact ⟨hq, fun c hc => ⟨hnone c hc, Completion.result_eq_own (hnone c hc)⟩⟩
  · rintro t r rfl
    exact h.last hr

/-- A host that has recorded an error, and then asks for a load that imports a module. The load of
that module is the first to end. It fails with the recorded error, although its source is empty, and
the outer one fails with an error of its own, because of the `import`. -/
theorem delivered_once_import : ∃ s : Interpreter Capture, s.refusal? "a" = none ∧
    s.pending = some (.refused (.host "late")) ∧ ∃ begun first later t,
      Record s "import b" "a" begun (first :: later) (.done t (.loaded (.error
        (.runtime (.importFailed "b" (.refused (.host "late"))) "<a>" 1)))) ∧
      first.FailsWith (.refused (.host "late")) ∧ ∀ c ∈ later, c.result = c.own := by
  have hc : Code.compile "import b" (displayName "a") =
      .ok #[(.use "b", 1), (.store "b", 1)] := by cbv
  have hrun : ∃ t, Machine.run 2
      (Machine.load (Interpreter.importing.record (.refused (.host "late"))) "import b" "a" .host
        []) = some (t, .loaded (.error
          (.runtime (.importFailed "b" (.refused (.host "late"))) "<a>" 1))) := by
    rw [Machine.load_eq_running rfl hc, Machine.run, Machine.step_eq rfl]
    change ∃ t, Machine.run 1 (Machine.load _ "" "b" .use _) = _
    rw [Machine.load_eq_running rfl (Code.compile_empty _)]
    exact ⟨_, rfl⟩
  obtain ⟨t, hrun⟩ := hrun
  obtain ⟨begun, ended, h⟩ := of_reaches (Machine.reaches_done_iff.2 ⟨2, hrun⟩)
  refine ⟨Interpreter.importing.record (.refused (.host "late")), rfl, rfl, ?_⟩
  obtain ⟨-, -, honce, -, hlast⟩ := h.delivered_once rfl
  obtain ⟨c, hended, -⟩ := hlast t _ rfl
  rcases honce _ rfl with ⟨rfl, -⟩ | ⟨first, later, rfl, hfails, -, hlater⟩
  · cases hended
  · exact ⟨begun, first, later, t, h, hfails, fun c hc => (hlater c hc).2⟩

end Record

end Ember
