import Ember.Proofs.Evaluation.Simulation
import Ember.Proofs.Samples

/-!
# Evaluation and machines agree

Compiled code does what its program means. Running the chunk of a program and evaluating the program
have the same outcome (`runChunk_iff_program`), and so have loading a source text and evaluating the
load (`tryLoad_iff_load`). The budget of an evaluation and the number of steps of a run are not
related otherwise: one of the two suffices for some number exactly if the other does.
-/

namespace Ember

open Machine (Reaches run run_eq_none_of_reaches reaches_done_iff run_eq_of_reaches)
open Source (Program)
open Code (blockCode strayReturnIn? readProgram)

namespace Evaluation

variable {H : Type} [Host H]

/-! ## Bodies and loads -/

section

variable {n : Nat} {k : Calls H} (hk : k.Sound n) (ho : k.Orderly)
include hk ho

theorem body_follows {c : Place} {b : Body} {a : Activation} {f : Frame} {frames : List Frame}
    {below : List Activation} {s : State H} (h : Fits c a below s) (hf : a.frames = f :: frames)
    (hc : a.code = b.code) (hbase : f.base = s.interpreter.stack.length) :
    Follows (n + 1) (here a below 0 s) (body k n c b s)
      (fun t v => .running ⟨t.interpreter.push v, a.back f frames, below⟩) (halt a below) := by
  obtain ⟨hblock, hend⟩ : Code.Has a.code 0 _ ∧ Code.Has a.code _ _ := by
    rw [hc, Body.code, Code.bodyCode]
    exact Code.Has.append.1 (Code.Has.toArray _)
  have ha : a.frames ≠ [] := by simp [hf]
  -- The operands are those at the start of the call, so the return drops none.
  have hret : ∀ (t : State H) (v : Value), s.Balanced t →
      returned a below t v = .running ⟨t.interpreter.push v, a.back f frames, below⟩ := by
    intro t v ht
    have hs : t.interpreter.truncate f.base = t.interpreter := by
      rw [Interpreter.truncate, hbase, ← ht.stack, Nat.sub_self, List.drop_zero]
    simp only [returned, hf, hs]
  unfold body
  refine (block_follows hk ho b.statements h (fun hn => absurd hn ha) hblock).andThen
    (block_balanced ho n c b.statements h.known) fun t flow ht => ?_
  cases flow with
  | give v =>
    show Reaches (returned a below t v) _
    rw [hret t v ht]
    exact .refl _
  | on =>
    have hb : Reaches (here a below (0 + (blockCode 0 b.statements).length) t)
        (returned a below t .nil) :=
      (reaches_push hend.head).trans (reaches_ret ha hend.tail.head)
    rw [hret t .nil ht] at hb
    exact hb

/-- The code of a module has come to its end, or has stopped. -/
theorem program_follows {c : Place} {p : Program} {a : Activation} {below : List Activation}
    {s : State H} (h : Fits c a below s) (hf : a.frames = []) (hp : strayReturnIn? p = none)
    (hc : a.code = (blockCode 0 p).toArray) :
    match block k n c p s with
    | none => ∀ m < n + 1, run m (here a below 0 s) = none
    | some (t, flow) => Reaches (here a below 0 s)
        (Machine.finish t.interpreter a below (outcome c.file flow)) := by
  have hb := block_follows hk ho p h (fun _ => hp) (hc ▸ Code.Has.toArray _)
  generalize block k n c p s = r at hb
  rcases r with _ | ⟨t, f | flow⟩
  · exact hb
  · rw [← h.file]
    exact hb
  · cases flow with
    | give v =>
      have hb : Reaches _ (returned a below t v) := hb
      simp only [returned, hf] at hb
      exact hb
    | on =>
      have hb : Reaches _ (here a below (0 + (blockCode 0 p).length) t) := hb
      refine hb.trans (.of_step ?_)
      rw [Machine.step_eq_finish]
      · rfl
      · show a.code[0 + (blockCode 0 p).length]? = none
        rw [hc]
        simp

theorem load_follows {kept : List Node} {s : State H} {below : List Activation}
    (source name : String) (origin : Origin) (h : s.Known)
    (hkept : ∀ x, x ∈ below.flatMap Activation.nodes ↔ x ∈ kept) :
    match load k n kept source name origin s with
    | none => ∀ m < n + 1, run m (Machine.load s.interpreter source name origin below) = none
    | some (t, r) => Reaches (Machine.load s.interpreter source name origin below)
        (Machine.deliver t.interpreter origin name r below) := by
  unfold load Machine.load
  cases s.interpreter.refusal? name with
  | some r => exact .refl _
  | none =>
    have hf := s.interpreter.functions_beginLoad source name origin
    have hn : (s.interpreter.beginLoad source name origin).1.name = name ∧
        (s.interpreter.beginLoad source name origin).1.origin = origin := by
      rw [Interpreter.beginLoad_fst]
      exact ⟨rfl, rfl⟩
    simp only [Code.compile_eq]
    generalize s.interpreter.beginLoad source name origin = begun at hf hn
    obtain ⟨l, i⟩ := begun
    cases hp : readProgram source (displayName name) with
    | error e => exact .refl _
    | ok p =>
      have hi : State.Known ⟨i, s.bodies, none⟩ := by
        rw [State.Known, show i.heap.functions = _ from hf]
        exact h
      have hb := program_follows hk ho (.start (displayName name) l hi hkept
        (Code.nodesOfAll_blockCode p 0)) rfl (Code.strayReturnIn?_of_readProgram hp) rfl
      simp only [Except.map]
      revert hb
      cases block k n ⟨displayName name, l.module, 0, Activation.loadNodes l ++ kept⟩ p
        ⟨i, s.bodies, none⟩ with
      | none => exact id
      | some r =>
        obtain ⟨t, flow⟩ := r
        intro hb
        have hb : Reaches _ (Machine.deliver (t.interpreter.endLoad l _).2 l.origin l.name
          (t.interpreter.endLoad l _).1 below) := hb
        rw [hn.1, hn.2] at hb
        exact hb

end

/-- **Machines follow calls and loads.** -/
theorem sound_calls : ∀ n, (calls n : Calls H).Sound n
  | 0 => ⟨fun _ _ _ _ => fun m hm => absurd hm m.not_lt_zero,
      fun _ _ _ _ _ => fun m hm => absurd hm m.not_lt_zero⟩
  | n + 1 => ⟨body_follows (sound_calls n) (orderly_calls n),
      load_follows (sound_calls n) (orderly_calls n)⟩

end Evaluation

/-! ## Runs -/

namespace Interpreter

open Evaluation (State Fits sound_calls orderly_calls program_follows load_follows)

variable {H : Type} [Host H] {s : Interpreter H} {bodies : Array Evaluation.Body}

/-- If what the machine does is known for each budget, then a run has an answer exactly if an
evaluation has a result. -/
theorem exists_run_iff {p : Progress H} {α : Type} {eval : Nat → Option (Interpreter H × α)}
    {answer : α → Answer} (ha : ∀ x y, answer x = answer y → x = y)
    (hnone : ∀ n, eval n = none → run n p = none)
    (hsome : ∀ n s a, eval n = some (s, a) → Reaches p (.done s (answer a)))
    {s : Interpreter H} {a : α} :
    (∃ fuel, run fuel p = some (s, answer a)) ↔ ∃ n, eval n = some (s, a) := by
  constructor
  · rintro ⟨fuel, hr⟩
    cases he : eval fuel with
    | none =>
      rw [hnone fuel he] at hr
      cases hr
    | some x =>
      obtain ⟨hs, hx⟩ := Prod.mk.inj (run_eq_of_reaches (hsome fuel x.1 x.2 he) hr)
      exact ⟨fuel, by rw [he, hs, ha a x.2 hx]⟩
  · rintro ⟨n, he⟩
    exact reaches_done_iff.1 (hsome n s a he)

/-- What the machine that runs a chunk does, for each budget of the evaluation. -/
theorem chunk_follows (file : String) {p : Program} (globals : ModuleId)
    (hp : strayReturnIn? p = none)
    (hb : s.heap.functions.map Function.code = bodies.map Evaluation.Body.code) (n : Nat) :
    match Evaluation.program n s bodies p globals file with
    | none => run n
        (.running ⟨s, Activation.start file (blockCode 0 p).toArray globals none, []⟩) = none
    | some (s', r) => Reaches
        (.running ⟨s, Activation.start file (blockCode 0 p).toArray globals none, []⟩)
        (.done s' (.ran r)) := by
  have hfits : Fits ⟨file, globals, 0, []⟩
      (Activation.start file (blockCode 0 p).toArray globals none) [] ⟨s, bodies, none⟩ :=
    ⟨rfl, rfl, rfl, Code.nodesOfAll_blockCode p 0, fun _ => .rfl, rfl, hb⟩
  have h := program_follows (sound_calls n) (orderly_calls n) hfits rfl hp rfl
  unfold Evaluation.program
  generalize Evaluation.block (H := H) _ n _ p _ = r at h ⊢
  rcases r with _ | ⟨t, flow⟩
  · exact h n n.lt_succ_self
  · exact h

/-- **Running a chunk is evaluating its program.** Whatever the state is, if the functions on its
heap have the code of known sources, the run of the chunk and the evaluation of the program end with
the same state and the same outcome, or neither of them ends. After success, the operands are those
at the start. -/
theorem runChunk_iff_program {file : String} {p : Program} {code : Code.Chunk} (globals : ModuleId)
    (hc : Code.generate file p = .ok code)
    (hb : s.heap.functions.map Function.code = bodies.map Evaluation.Body.code) :
    (∀ s' r, (∃ fuel, s.runChunk fuel code globals file = some (s', r)) ↔
      ∃ budget, Evaluation.program budget s bodies p globals file = some (s', r)) ∧
    ∀ fuel s', s.runChunk fuel code globals file = some (s', .ok ()) → s'.stack = s.stack := by
  obtain ⟨hp, rfl⟩ := Code.generate_eq_ok hc
  have hiff : ∀ s' r, (∃ fuel, s.runChunk fuel (blockCode 0 p).toArray globals file =
      some (s', r)) ↔ ∃ n, Evaluation.program n s bodies p globals file = some (s', r) := by
    intro s' r
    simp only [runChunk_eq_some]
    refine exists_run_iff (fun x y h => Answer.ran.inj h) (fun n hn => ?_) fun n t x hx => ?_
    · have h := chunk_follows file globals hp hb n
      rw [hn] at h
      exact h
    · have h := chunk_follows file globals hp hb n
      rw [hx] at h
      exact h
  refine ⟨hiff, fun fuel s' hr => ?_⟩
  obtain ⟨n, hn⟩ := (hiff s' (.ok ())).1 ⟨fuel, hr⟩
  have hbal := Evaluation.block_balanced (orderly_calls n) n ⟨file, globals, 0, []⟩ p
    (s := ⟨s, bodies, none⟩) hb
  obtain ⟨⟨t, flow⟩, ht, hr⟩ := Option.map_eq_some_iff.1 hn
  rw [ht] at hbal
  cases flow with
  | error f => cases hr
  | ok flow =>
    cases hr
    exact State.Balanced.stack hbal

set_option maxRecDepth 2000 in
theorem runChunk_sampleProgram :
    Code.generate "m" sampleProgram = .ok (blockCode 0 sampleProgram).toArray ∧
    sample.heap.functions.map Function.code = #[].map Evaluation.Body.code ∧
    ∃ fuel s', sample.runChunk fuel (blockCode 0 sampleProgram).toArray ⟨0⟩ "m" =
      some (s', .ok ()) ∧ s'.stack = sample.stack := by
  have hc : Code.generate "m" sampleProgram = .ok (blockCode 0 sampleProgram).toArray := rfl
  have hb : sample.heap.functions.map Function.code = #[].map Evaluation.Body.code := by
    rw [show sample.heap.functions = #[] from rfl, Array.map_empty, Array.map_empty]
  obtain ⟨hiff, hstack⟩ := runChunk_iff_program ⟨0⟩ hc hb
  obtain ⟨fuel, hr⟩ := (hiff _ (.ok ())).2 ⟨5, rfl⟩
  exact ⟨hc, hb, fuel, _, hr, hstack _ _ hr⟩

/-- **Loading a source text is evaluating the load.** -/
theorem tryLoad_iff_load {source name : String}
    (hb : s.heap.functions.map Function.code = bodies.map Evaluation.Body.code)
    {s' : Interpreter H} {r : Except LoadError ModuleId} :
    (∃ fuel, s.tryLoad fuel source name = some (s', r)) ↔
      ∃ budget t, Evaluation.load (Evaluation.calls budget) budget [] source name .host
        ⟨s, bodies, none⟩ = some (t, r) ∧ t.interpreter = s' := by
  have hnil : ∀ x, x ∈ ([] : List Activation).flatMap Activation.nodes ↔ x ∈ [] := fun _ => .rfl
  have hload := fun n => load_follows (s := ⟨s, bodies, none⟩) (sound_calls n) (orderly_calls n)
    source name .host hb hnil
  have hiff : (∃ fuel, s.tryLoad fuel source name = some (s', r)) ↔
      ∃ n, (Evaluation.load (Evaluation.calls n) n [] source name .host
        ⟨s, bodies, none⟩).map (fun x => (x.1.interpreter, x.2)) = some (s', r) := by
    simp only [tryLoad_eq_some]
    refine exists_run_iff (fun x y h => Answer.loaded.inj h) (fun n hn => ?_) fun n t x hx => ?_
    · have h := hload n
      rw [Option.map_eq_none_iff.1 hn] at h
      exact h n n.lt_succ_self
    · have h := hload n
      obtain ⟨⟨t, x⟩, ht, hx⟩ := Option.map_eq_some_iff.1 hx
      cases hx
      rw [ht] at h
      exact h
  rw [hiff]
  refine exists_congr fun n => ?_
  rw [Option.map_eq_some_iff]
  constructor
  · rintro ⟨⟨t, x⟩, ht, hx⟩
    cases hx
    exact ⟨t, ht, rfl⟩
  · rintro ⟨t, ht, rfl⟩
    exact ⟨(t, r), ht, rfl⟩

end Interpreter

end Ember
