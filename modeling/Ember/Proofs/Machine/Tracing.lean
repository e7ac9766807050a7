import Ember.Proofs.Machine.Writings

/-!
# Traces are nested like brackets

**Theorem (`Chronicle.trace_nested`).** If loads are traced, then a run writes what its code prints,
and between that one message for each load that begins and one for each load that ends, and nothing
else. The messages of a load stand like a pair of brackets around those of the loads within it. The
second one says what the load came to, and a load that is refused writes none.

**Brackets.** Messages that open and close loads lead from one list of loads in progress to another
one (`Brackets`). Each step does (`brackets_entries`), and so a whole run does. If a load that has
begun is not in progress any more, then between its two messages there are only whole loads
(`Brackets.closed`).
-/

namespace Ember

open Machine (Reaches Rooted Holds Asked)

variable {H : Type}

/-! ## Brackets -/

/-- These entries lead from the loads `ls` in progress to `ls'`, the innermost first. A load begins
inside of those in progress, and only the innermost one ends. -/
inductive Brackets : List Load → List (Entry H) → List Load → Prop
  | nil {ls : List Load} : Brackets ls [] ls
  | printed {ls ls' : List Load} {xs : List (Entry H)} {s : Interpreter H} {args : List Value} :
    Brackets ls xs ls' → Brackets ls (.printed s args :: xs) ls'
  | began {ls ls' : List Load} {xs : List (Entry H)} {l : Load} :
    Brackets (l :: ls) xs ls' → Brackets ls (.began l :: xs) ls'
  | ended {ls ls' : List Load} {xs : List (Entry H)} {c : Completion H} :
    Brackets ls xs ls' → Brackets (c.load :: ls) (.ended c :: xs) ls'

/-- Each load that begins ends, and in between only whole loads do. -/
inductive Balanced : List (Entry H) → Prop
  | nil : Balanced []
  | printed {xs : List (Entry H)} {s : Interpreter H} {args : List Value} :
    Balanced xs → Balanced (.printed s args :: xs)
  | load {inner rest : List (Entry H)} {c : Completion H} :
    Balanced inner → Balanced rest → Balanced (.began c.load :: (inner ++ .ended c :: rest))

namespace Brackets

variable {ls ls' ls'' new : List Load} {xs ys : List (Entry H)} {cs : List (Completion H)}

theorem append (h : Brackets ls xs ls') (h' : Brackets ls' ys ls'') :
    Brackets ls (xs ++ ys) ls'' := by
  induction h with
  | nil => exact h'
  | printed _ ih => exact (ih h').printed
  | began _ ih => exact (ih h').began
  | ended _ ih => exact (ih h').ended

theorem of_append {ls ls'' : List Load} : ∀ {xs ys : List (Entry H)}, Brackets ls (xs ++ ys) ls'' →
    ∃ ls', Brackets ls xs ls' ∧ Brackets ls' ys ls''
  | [], _, h => ⟨ls, .nil, h⟩
  | x :: xs, ys, h => by
    cases h with
    | printed h =>
      obtain ⟨ls', h₁, h₂⟩ := h.of_append
      exact ⟨ls', h₁.printed, h₂⟩
    | began h =>
      obtain ⟨ls', h₁, h₂⟩ := h.of_append
      exact ⟨ls', h₁.began, h₂⟩
    | ended h =>
      obtain ⟨ls', h₁, h₂⟩ := h.of_append
      exact ⟨ls', h₁.ended, h₂⟩

/-- What has ended and what is in progress is what was in progress and what has begun. -/
theorem perm (h : Brackets ls xs ls') :
    (xs.filterMap Entry.ended? ++ ls').Perm (xs.filterMap Entry.began? ++ ls) := by
  induction h with
  | nil => exact .refl _
  | printed _ ih => exact ih
  | began _ ih => exact ih.trans List.perm_middle
  | ended _ ih => exact (ih.cons _).trans List.perm_middle.symm

theorem of_ended (cs : List (Completion H)) (ls : List Load) :
    Brackets (cs.map Completion.load ++ ls) (cs.map Entry.ended) ls := by
  induction cs with
  | nil => exact nil
  | cons c cs ih => exact ih.ended

/-- A load begins or none does, and then loads end. -/
theorem of_lists (hnew : new.length ≤ 1) (h : cs.map Completion.load ++ ls' = new ++ ls) :
    Brackets ls (new.map Entry.began ++ cs.map Entry.ended) ls' := by
  have hended := of_ended cs ls'
  rw [h] at hended
  match new, hnew with
  | [], _ => exact hended
  | [l], _ => exact hended.began

/-- **A load that is in progress stays so, or it ends** after whole loads. -/
theorem closed {l : Load} {ls ls' : List Load} {xs : List (Entry H)}
    (h : Brackets (l :: ls) xs ls') :
    (∃ new, ls' = new ++ l :: ls) ∨ ∃ inner c rest, xs = inner ++ .ended c :: rest ∧ c.load = l ∧
      Balanced inner ∧ Brackets ls rest ls' := by
  cases h with
  | nil => exact .inl ⟨[], rfl⟩
  | @printed _ _ xs s args h =>
    rcases h.closed with hopen | ⟨inner, c, rest, rfl, hc, hinner, hrest⟩
    · exact .inl hopen
    · exact .inr ⟨.printed s args :: inner, c, rest, rfl, hc, hinner.printed, hrest⟩
  | @began _ _ xs k h =>
    -- First the load within ends, and then it is as if it had not been.
    rcases h.closed with ⟨new, rfl⟩ | ⟨inner, c, rest, rfl, rfl, hinner, hrest⟩
    · exact .inl ⟨new ++ [k], by rw [List.append_assoc]; rfl⟩
    · rcases hrest.closed with hopen | ⟨inner', d, rest', rfl, hd, hinner', hrest'⟩
      · exact .inl hopen
      · refine .inr ⟨.began c.load :: (inner ++ .ended c :: inner'), d, rest', ?_, hd,
          hinner.load hinner', hrest'⟩
        simp
  | @ended _ _ xs c h => exact .inr ⟨[], c, xs, rfl, rfl, .nil, h⟩
termination_by xs.length

theorem balanced {xs : List (Entry H)} (h : Brackets [] xs []) : Balanced xs := by
  cases h with
  | nil => exact .nil
  | printed h => exact h.balanced.printed
  | began h =>
    rcases h.closed with ⟨new, hnew⟩ | ⟨inner, c, rest, rfl, rfl, hinner, hrest⟩
    · simp at hnew
    · exact hinner.load hrest.balanced
termination_by xs.length

end Brackets

theorem Entry.filterMap_began? (new : List Load) (cs : List (Completion H)) :
    (new.map began ++ cs.map ended).filterMap began? = new := by
  have hended : (cs.map ended).filterMap began? = ([] : List Load) := by
    rw [List.filterMap_map]
    exact List.filterMap_eq_nil_iff.2 fun c _ => rfl
  rw [List.filterMap_append, hended, List.append_nil, List.filterMap_map]
  exact List.filterMap_some

variable [Host H]

namespace Machine

/-! ## Steps -/

variable {s : Interpreter H} {m : Machine H}

theorem length_opening (m : Machine H) : m.opening.2.length ≤ 1 := by
  unfold opening
  cases m.top.code[m.top.ip]? with
  | none => exact Nat.zero_le 1
  | some x =>
    dsimp only
    cases execute m.state (jumpTo m.top (m.top.ip + 1)) m.below x.1 with
    | load t source name origin =>
      dsimp only [Effect.beginning, Interpreter.beginning]
      cases t.refusal? name <;> simp
    | next t a => exact Nat.zero_le 1
    | stop t e => exact Nat.zero_le 1

theorem eq_printed_of_mem_opening {x : Entry H} (hx : x ∈ m.opening.1) :
    ∃ t args, x = .printed t args := by
  unfold opening at hx
  cases hi : m.top.code[m.top.ip]? with
  | none =>
    rw [hi] at hx
    cases hx
  | some y =>
    rw [hi] at hx
    dsimp only [prints] at hx
    split at hx
    · split at hx
      · exact ⟨_, _, List.mem_singleton.1 hx⟩
      · cases hx
    · cases hx

theorem began_mem_entries {l : Load} : .began l ∈ m.entries ↔ m.Begins l := by
  rw [← mem_opening, entries, List.mem_append, List.mem_append, or_iff_right, or_iff_left]
  · simp
  · simp
  · intro hl
    obtain ⟨t, args, hx⟩ := eq_printed_of_mem_opening hl
    cases hx

theorem filterMap_began?_entries (m : Machine H) :
    m.entries.filterMap Entry.began? = m.opening.2 := by
  have hprints : m.opening.1.filterMap Entry.began? = [] := by
    refine List.filterMap_eq_nil_iff.2 fun x hx => ?_
    obtain ⟨t, args, rfl⟩ := eq_printed_of_mem_opening hx
    rfl
  rw [entries, List.filterMap_append, hprints, List.nil_append]
  exact Entry.filterMap_began? _ _

theorem brackets_opening (m : Machine H) (ls : List Load) : Brackets ls m.opening.1 ls := by
  have hprinted : ∀ xs : List (Entry H), (∀ x ∈ xs, ∃ t args, x = .printed t args) →
      Brackets ls xs ls := by
    intro xs hxs
    induction xs with
    | nil => exact .nil
    | cons x xs ih =>
      obtain ⟨⟨t, args, rfl⟩, hrest⟩ := List.forall_mem_cons.1 hxs
      exact (ih hrest).printed
  exact hprinted _ fun x => eq_printed_of_mem_opening

/-- Wherever the loads `ls` are in progress, if those that end in the step are in progress there
or begin in it. -/
theorem brackets_entries {ls ls' : List Load}
    (h : m.stepLogged.1.map Completion.load ++ ls' = m.opening.2 ++ ls) :
    Brackets ls m.entries ls' :=
  (brackets_opening m ls).append (.of_lists (length_opening m) h)

end Machine

/-! ## Chronicles -/

/-- What a host can ask for. -/
inductive Errand
  | load (source name : String)
  | chunk (file : String) (code : Code.Chunk) (globals : ModuleId)

namespace Errand

/-- Where the run starts. -/
def start (s : Interpreter H) : Errand → Progress H
  | load source name => Machine.load s source name .host []
  | chunk file code globals => .running ⟨s, Activation.start file code globals none, []⟩

/-- What is written at the start. -/
def entries (s : Interpreter H) : Errand → List (Entry H)
  | load source name => (s.beginning source name .host).map Entry.began ++
      (Machine.loadLogged s source name .host []).1.map Entry.ended
  | chunk .. => []

theorem asked (s : Interpreter H) (e : Errand) : Asked s (e.start s) := by
  cases e with
  | load source name => exact .load source name
  | chunk file code globals => exact .chunk file code globals

end Errand

/-- All that is written up to some step of a run if loads are traced. -/
inductive Chronicle (s : Interpreter H) (e : Errand) : List (Entry H) → Progress H → Prop
  | start : Chronicle s e (e.entries s) (e.start s)
  | step {xs : List (Entry H)} {m : Machine H} :
    Chronicle s e xs (.running m) → Chronicle s e (xs ++ m.entries) m.step

/-- What a chronicle says. -/
structure Bracketed (s : Interpreter H) (e : Errand) (xs : List (Entry H)) (q : Progress H) :
    Prop where
  /-- The host gets the entries, one after the other, and nothing else. -/
  written : q.state.host = xs.foldl Entry.write s.host
  /-- At every moment, the loads in progress are those that have been opened and not closed. -/
  brackets : Brackets [] xs q.loads
  /-- No load begins twice, and each either ends once or is in progress. -/
  once : (xs.filterMap Entry.began?).Nodup ∧
    (xs.filterMap Entry.ended? ++ q.loads).Perm (xs.filterMap Entry.began?)
  /-- Between the beginning and the end of a load, whole loads begin and end. -/
  closed : ∀ before l after, xs = before ++ .began l :: after → l ∈ q.loads ∨
    ∃ inner c rest, after = inner ++ .ended c :: rest ∧ c.load = l ∧ Balanced inner
  /-- The outcome of a load that has ended was handed to the code outside of it. -/
  delivered : ∀ c, .ended c ∈ xs → ∃ r, c.Delivered r ∧ Reaches (e.start s) r ∧ Reaches r q
  /-- The loads that begin are those that are not refused. -/
  begins : ∀ m, q = .running m → ∀ l, .began l ∈ m.entries ↔ m.Begins l
  /-- Code that asks for a load that is refused ends no load, unless it is an `import`, which fails
  the loads that it belongs to. -/
  refused : ∀ m i line t source name origin cause, q = .running m →
    m.top.code[m.top.ip]? = some (i, line) →
    Machine.execute m.state (Machine.jumpTo m.top (m.top.ip + 1)) m.below i =
      .load t source name origin → t.refusal? name = some cause →
    ∀ x ∈ m.entries, x.began? = none ∧ ∀ l, x.ended? = some l → origin = .use ∧ l ∈ m.loads
  /-- A load that is refused to the host writes nothing. -/
  refusedToHost : ∀ source name cause, e = .load source name → s.refusal? name = some cause →
    xs = [] ∧ q = .done s (.loaded (.error (.refused cause)))
  /-- A load that the host asks for, and that is not refused, begins before all else. -/
  first : ∀ source name, e = .load source name → s.refusal? name = none →
    ∃ rest, xs = .began (s.beginLoad source name .host).1 :: rest
  /-- All that is written in a load that the host asks for is between its two messages. -/
  finished : ∀ source name t r, e = .load source name → s.refusal? name = none →
    q = .done t (.loaded r) → ∃ inner c, c.load = (s.beginLoad source name .host).1 ∧
      xs = .began c.load :: (inner ++ [.ended c]) ∧ Balanced inner ∧ c.after = t ∧ c.result = r

namespace Chronicle

variable {s : Interpreter H} {e : Errand} {xs : List (Entry H)} {q : Progress H}

theorem reaches (h : Chronicle s e xs q) : Reaches (e.start s) q := by
  induction h with
  | start => exact .refl _
  | step _ ih => exact ih.trans (.of_step rfl)

/-- Every run has a chronicle. -/
theorem of_reaches (h : Reaches (e.start s) q) : ∃ xs, Chronicle s e xs q := by
  suffices hfrom : ∀ {p}, Reaches p q → ∀ {xs}, Chronicle s e xs p → ∃ xs, Chronicle s e xs q from
    hfrom h .start
  clear h
  intro p hr
  induction hr with
  | refl => exact fun h => ⟨_, h⟩
  | step _ ih => exact fun h => ih h.step

theorem rooted {m : Machine H} (h : Chronicle s e xs (.running m)) : Rooted (m.top :: m.below) :=
  Machine.rooted_invariant.reaches (e.asked s).rooted h.reaches

/-- What a chronicle begins with. -/
theorem tells_start (s : Interpreter H) (e : Errand) : ∃ new cs, new.length ≤ 1 ∧
    e.entries s = new.map Entry.began ++ cs.map Entry.ended ∧
    Machine.Tells s new [] (cs, e.start s) := by
  cases e with
  | load source name =>
    have htells : Machine.Tells s (s.beginning source name .host) (Machine.loadsOf [])
        (Machine.loadLogged s source name .host []) := Machine.tells_load trivial
    refine ⟨s.beginning source name .host, (Machine.loadLogged s source name .host []).1, ?_, rfl,
      ?_⟩
    · unfold Interpreter.beginning
      cases s.refusal? name <;> simp
    · rw [Errand.start, ← Machine.snd_loadLogged]
      exact htells
  | chunk file code globals => exact ⟨[], [], Nat.zero_le 1, rfl, Machine.tells_nil rfl rfl⟩

theorem traceLoads (hs : s.config.traceLoads = true) (h : Chronicle s e xs q) :
    q.state.config.traceLoads = true := by
  rw [((e.asked s).precedes h.reaches).config, hs]

/-- What is written to the host. -/
theorem written (hs : s.config.traceLoads = true) (h : Chronicle s e xs q) :
    q.state.host = xs.foldl Entry.write s.host := by
  induction h with
  | start =>
    obtain ⟨new, cs, -, hentries, htells⟩ := tells_start s e
    rw [hentries]
    exact htells.host hs
  | step h ih =>
    rw [List.foldl_append, ← ih]
    exact (Machine.tells_stepLogged h.rooted).1 (h.traceLoads hs)

theorem brackets (h : Chronicle s e xs q) : Brackets [] xs q.loads := by
  induction h with
  | start =>
    obtain ⟨new, cs, hnew, hentries, htells⟩ := tells_start s e
    rw [hentries]
    exact .of_lists hnew htells.loads
  | step h ih => exact ih.append (Machine.brackets_entries (Machine.tells_stepLogged h.rooted).2.1)

/-- Each load that begins has a module with a higher number than those before. -/
theorem ordered (h : Chronicle s e xs q) :
    (xs.filterMap Entry.began?).Pairwise (fun l k => l.module.index < k.module.index) ∧
    ∀ l ∈ xs.filterMap Entry.began?, l.module.index < q.state.heap.modules.size := by
  induction h with
  | start =>
    cases e with
    | chunk file code globals => exact ⟨.nil, nofun⟩
    | load source name =>
      rw [Errand.entries, Entry.filterMap_began?]
      have hgrows : Machine.Grows s.heap.modules.size (Machine.loadsOf [])
          {l | s.Begins source name .host l} (Machine.load s source name .host []) :=
        Machine.grows_load
      refine ⟨?_, fun l hl => (hgrows.modules l (Interpreter.mem_beginning.1 hl)).2⟩
      unfold Interpreter.beginning
      cases s.refusal? name with
      | some r => exact .nil
      | none => exact List.pairwise_singleton _ _
  | @step xs m h ih =>
    have hgrows := Machine.grows_step m
    rw [List.filterMap_append, Machine.filterMap_began?_entries]
    have hnew : ∀ l ∈ m.opening.2, m.state.heap.modules.size ≤ l.module.index ∧
        l.module.index < m.step.state.heap.modules.size := fun l hl =>
      hgrows.modules l (Machine.mem_opening.1 hl)
    refine ⟨List.pairwise_append.2 ⟨ih.1, ?_, fun l hl k hk => ?_⟩, fun l hl => ?_⟩
    · match m.opening.2, Machine.length_opening m with
      | [], _ => exact .nil
      | [l], _ => exact List.pairwise_singleton _ _
    · exact lt_of_lt_of_le (ih.2 l hl) (hnew k hk).1
    · rcases List.mem_append.1 hl with hl | hl
      · exact lt_of_lt_of_le (ih.2 l hl) hgrows.size
      · exact (hnew l hl).2

theorem once (h : Chronicle s e xs q) : (xs.filterMap Entry.began?).Nodup ∧
    (xs.filterMap Entry.ended? ++ q.loads).Perm (xs.filterMap Entry.began?) := by
  refine ⟨h.ordered.1.imp fun hlt he => ?_, ?_⟩
  · rw [he] at hlt
    exact lt_irrefl _ hlt
  · have hperm := h.brackets.perm
    rw [List.append_nil] at hperm
    exact hperm

theorem delivered (h : Chronicle s e xs q) {c : Completion H} (hc : .ended c ∈ xs) :
    ∃ r, c.Delivered r ∧ Reaches (e.start s) r ∧ Reaches r q := by
  induction h with
  | start =>
    obtain ⟨new, cs, -, hentries, htells⟩ := tells_start s e
    refine ⟨e.start s, htells.delivered c ?_, .refl _, .refl _⟩
    rw [hentries] at hc
    simpa using hc
  | @step xs m h ih =>
    rcases List.mem_append.1 hc with hc | hc
    · obtain ⟨r, hr, hstart, hreach⟩ := ih hc
      exact ⟨r, hr, hstart, hreach.trans (.of_step rfl)⟩
    · refine ⟨m.step, (Machine.tells_stepLogged h.rooted).2.2 c ?_, h.step.reaches, .refl _⟩
      rcases List.mem_append.1 hc with hc | hc
      · obtain ⟨t, args, hx⟩ := Machine.eq_printed_of_mem_opening hc
        cases hx
      · simpa using hc

/-! ## Refused loads -/

theorem refused {m : Machine H} {i : Code.Instr} {line : Nat} {t : Interpreter H}
    {source name : String} {origin : Origin} {cause : Refusal} (h : Chronicle s e xs (.running m))
    (hi : m.top.code[m.top.ip]? = some (i, line))
    (he : Machine.execute m.state (Machine.jumpTo m.top (m.top.ip + 1)) m.below i =
      .load t source name origin) (hr : t.refusal? name = some cause) :
    ∀ x ∈ m.entries, x.began? = none ∧ ∀ l, x.ended? = some l → origin = .use ∧ l ∈ m.loads := by
  have hopening : m.opening.2 = [] := by
    simp only [Machine.opening, hi, he, Machine.Effect.beginning, Interpreter.beginning, hr]
  have hlogged : m.stepLogged = Machine.deliverLogged t origin name (.error (.refused cause))
      (Machine.jumpTo m.top (m.top.ip + 1) :: m.below) := by
    simp only [Machine.stepLogged, hi, he, Machine.loadLogged, hr]
  have hloads := (Machine.tells_stepLogged h.rooted).2.1
  rw [hopening, List.nil_append] at hloads
  intro x hx
  rw [Machine.entries, hopening, List.map_nil, List.nil_append] at hx
  rcases List.mem_append.1 hx with hx | hx
  · obtain ⟨u, args, rfl⟩ := Machine.eq_printed_of_mem_opening hx
    refine ⟨rfl, fun l hl => ?_⟩
    cases hl
  · obtain ⟨c, hc, rfl⟩ := List.mem_map.1 hx
    refine ⟨rfl, fun l hl => ⟨?_, ?_⟩⟩
    · rw [hlogged] at hc
      cases origin with
      | use => rfl
      | host => cases hc
      | call => cases hc
    · obtain rfl := Option.some.inj hl
      rw [← hloads]
      exact List.mem_append_left _ (List.mem_map_of_mem hc)

theorem refusedToHost {source name : String} {cause : Refusal} (hr : s.refusal? name = some cause)
    (h : Chronicle s (.load source name) xs q) :
    xs = [] ∧ q = .done s (.loaded (.error (.refused cause))) := by
  have hstart : (Errand.load source name).start s =
      .done s (.loaded (.error (.refused cause))) := by
    simp only [Errand.start, Machine.load, hr, Machine.deliver]
  cases h with
  | start =>
    refine ⟨?_, hstart⟩
    simp only [Errand.entries, Interpreter.beginning, Machine.loadLogged, hr,
      Machine.deliverLogged, List.map_nil, List.nil_append]
  | step h =>
    have hreach := h.reaches
    rw [hstart] at hreach
    cases hreach

/-! ## Loads that the host asks for -/

/-- Up to its end, the load `l` is the outermost one in progress, and the first to have begun. It is
the last to end. -/
inductive Inside (l : Load) : List (Entry H) → Progress H → Prop
  | running {m : Machine H} {ls : List Load} {inner : List (Entry H)} :
    m.loads = ls ++ [l] → Brackets [] inner ls → Inside l (.began l :: inner) (.running m)
  | done {c : Completion H} {inner : List (Entry H)} : c.load = l → Balanced inner →
    Inside l (.began l :: (inner ++ [.ended c])) (.done c.after (.loaded c.result))

/-- The outcome of a load that the host has asked for ends the run. -/
theorem Inside.of_delivered {l : Load} {c : Completion H} {t : Interpreter H} {a : Answer}
    (hc : c.load = l) (hl : l.origin = .host) (h : c.Delivered (.done t a)) :
    Progress.done t a = .done c.after (.loaded c.result) := by
  obtain ⟨below, hbelow⟩ := h
  rw [hc, hl] at hbelow
  cases below with
  | nil => exact hbelow
  | cons b below => cases hr : c.result <;> rw [hr] at hbelow <;> cases hbelow

theorem Inside.step {l : Load} {m : Machine H} (h : Inside l xs (.running m))
    (hm : Rooted (m.top :: m.below)) (hl : l.origin = .host)
    (hlast : ∀ w, m.step = .running w → w.loads.getLast? = some l) :
    Inside l (xs ++ m.entries) m.step := by
  obtain ⟨-, hloads, hdelivered⟩ := Machine.tells_stepLogged hm
  cases h with
  | @running _ ls inner hls hinner =>
    rw [hls, ← List.append_assoc] at hloads
    cases hstep : m.step with
    | running w =>
      obtain ⟨ls', hw⟩ := List.getLast?_eq_some_iff.1 (hlast w hstep)
      rw [hstep, show (Progress.running w).loads = ls' ++ [l] from hw, ← List.append_assoc]
        at hloads
      exact .running hw (hinner.append (Machine.brackets_entries (List.append_cancel_right hloads)))
    | done t a =>
      rw [hstep, show (Progress.done t a).loads = [] from rfl, List.append_nil] at hloads
      -- All loads have ended, so `l`, the outermost one, is the last of those in the log.
      obtain ⟨cs, ds, hlogged, hcs, hds⟩ := List.map_eq_append_iff.1 hloads
      obtain ⟨c, rfl, hc⟩ := List.map_eq_singleton_iff.1 hds
      have hmem : c ∈ m.stepLogged.1 := by
        rw [hlogged]
        exact List.mem_append_right _ (List.mem_singleton_self c)
      rw [Inside.of_delivered hc hl (hstep ▸ hdelivered c hmem)]
      have hbefore : Brackets ls (m.opening.1 ++ (m.opening.2.map Entry.began ++ cs.map Entry.ended))
          [] := by
        refine (Machine.brackets_opening m ls).append (.of_lists (Machine.length_opening m) ?_)
        rw [List.append_nil, hcs]
      have hentries : m.entries = (m.opening.1 ++ (m.opening.2.map Entry.began ++
          cs.map Entry.ended)) ++ [.ended c] := by
        rw [Machine.entries, hlogged]
        simp
      rw [hentries, List.cons_append, ← List.append_assoc]
      exact .done hc (hinner.append hbefore).balanced

theorem inside {source name : String} (hr : s.refusal? name = none)
    (h : Chronicle s (.load source name) xs q) :
    Inside (s.beginLoad source name .host).1 xs q := by
  have hhost : (s.beginLoad source name .host).1.origin = .host := by rw [s.beginLoad_fst]
  induction h with
  | start =>
    cases hc : Code.compile source (displayName name) with
    | error cause =>
      simp only [Errand.entries, Errand.start, Interpreter.beginning, Machine.loadLogged,
        Machine.load, hr, hc, Machine.endLogged, Machine.deliverLogged, Machine.deliver]
      exact .done rfl .nil
    | ok code =>
      simp only [Errand.entries, Errand.start, Interpreter.beginning, Machine.loadLogged, hr, hc]
      rw [Machine.load_eq_running hr hc]
      have hnone : Brackets [] ([] : List (Entry H)) [] := .nil
      exact .running rfl hnone
  | @step xs m h ih =>
    refine ih.step h.rooted hhost fun w hw => ?_
    obtain ⟨hload, hfirst, -⟩ := Interpreter.tracks_of_reaches hr (hw ▸ h.step.reaches)
    obtain ⟨l, hl⟩ := Option.ne_none_iff_exists'.1 (hload w.top (List.mem_cons_self ..))
    have hne : w.loads ≠ [] := by
      rw [Machine.loads, Machine.loadsOf_cons hl]
      exact List.cons_ne_nil l _
    obtain ⟨k, hk⟩ := Option.isSome_iff_exists.1 (List.getLast?_isSome.2 hne)
    rw [hk, hfirst k hk]

/-! ## Traces -/

/-- **Traces are nested like brackets.** -/
theorem trace_nested (hs : s.config.traceLoads = true) (h : Chronicle s e xs q) : Bracketed s e xs q where
  written := h.written hs
  brackets := h.brackets
  once := h.once
  closed := by
    rintro before l after rfl
    obtain ⟨ls, -, hafter⟩ := h.brackets.of_append
    cases hafter with
    | began hafter =>
      rcases hafter.closed with ⟨new, hnew⟩ | ⟨inner, c, rest, hrest, hc, hinner, -⟩
      · rw [hnew]
        exact .inl (List.mem_append_right _ (List.mem_cons_self ..))
      · exact .inr ⟨inner, c, rest, hrest, hc, hinner⟩
  delivered _ hc := h.delivered hc
  begins := by
    rintro m rfl l
    exact Machine.began_mem_entries
  refused := by
    rintro m i line t source name origin cause rfl hi he hr
    exact h.refused hi he hr
  refusedToHost := by
    rintro source name cause rfl hr
    exact refusedToHost hr h
  first := by
    rintro source name rfl hr
    cases h.inside hr <;> exact ⟨_, rfl⟩
  finished := by
    rintro source name t r rfl hr rfl
    generalize hl : (s.beginLoad source name .host).1 = l
    have hinside := hl ▸ h.inside hr
    cases hinside with
    | @done c inner hc hinner => exact ⟨inner, c, hc, by rw [hc], hinner, rfl, rfl⟩

/-- A module that imports another one. -/
theorem trace_nested_import : ∃ (s : Interpreter Capture) (xs : List (Entry Capture))
    (t : Interpreter Capture) (m : ModuleId), s.config.traceLoads = true ∧
    Chronicle s (.load "import b" "a") xs (.done t (.loaded (.ok m))) ∧
    ∃ inner c, xs = .began c.load :: (inner ++ [.ended c]) ∧ Balanced inner ∧
      c.message = "committed a" ∧ t.host = xs.foldl Entry.write s.host := by
  have hc : Code.compile "import b" (displayName "a") =
      .ok #[(.use "b", 1), (.store "b", 1)] := by cbv
  obtain ⟨s, hs, hname, hrun⟩ : ∃ s : Interpreter Capture, s.config.traceLoads = true ∧
      s.refusal? "a" = none ∧
      ∃ t m, Machine.run 5 (Machine.load s "import b" "a" .host []) = some (t, .loaded (.ok m)) := by
    refine ⟨{ Interpreter.importing with
      config := { Interpreter.importing.config with traceLoads := true } }, rfl, rfl, ?_⟩
    rw [Machine.load_eq_running rfl hc, Machine.run, Machine.step_eq rfl]
    change ∃ t m, Machine.run 4 (Machine.load _ "" "b" .use _) = _
    rw [Machine.load_eq_running rfl (Code.compile_empty _)]
    exact ⟨_, _, rfl⟩
  obtain ⟨t, m, hrun⟩ := hrun
  have hreaches : Reaches ((Errand.load "import b" "a").start s) _ :=
    Machine.reaches_done_iff.2 ⟨5, hrun⟩
  obtain ⟨xs, h⟩ := of_reaches hreaches
  have htraced := h.trace_nested hs
  obtain ⟨inner, c, hl, hxs, hinner, -, hr⟩ := htraced.finished "import b" "a" t _ rfl hname rfl
  refine ⟨s, xs, t, m, hs, h, inner, c, hxs, hinner, ?_, htraced.written⟩
  unfold Completion.message
  rw [hr, hl, s.beginLoad_fst]
  rfl

end Chronicle

end Ember
