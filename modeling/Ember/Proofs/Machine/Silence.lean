import Ember.Proofs.Machine.Translation
import Ember.Proofs.Samples

/-!
# Output has no influence

**Theorem (`tryLoad_same`).** Two interpreters that differ in nothing but their hosts and in whether
loads are traced load a source text in the same way, whatever the hosts do with what is written.

The proof takes the output away. `Interpreter.silent` gives an interpreter a host that ignores all
writes and turns tracing off. This is a translation that keeps the limits (`faithful_silence`), so a
run of either interpreter goes over into a run of the same silent one.
-/

namespace Ember

/-- A host that ignores what is written. -/
structure Mute where

instance : Host Mute where
  write h _ _ _ _ := (0, h)
  flush h _ := (0, h)
  stdout _ := .stdout
  stderr _ := .stderr

variable {H : Type}

/-! ## Silence -/

namespace Interpreter

/-- The interpreter without its output. -/
def silent (s : Interpreter H) : Interpreter Mute where
  heap := s.heap
  registry := s.registry
  active := s.active
  pending := s.pending
  stack := s.stack
  loadDepth := s.loadDepth
  host := ⟨⟩
  config := { s.config with traceLoads := false }
  resolver := s.resolver
  lastError := s.lastError
  surroundings := s.surroundings
  seed := s.seed

theorem silent_host (s : Interpreter H) (host : H) : { s with host := host }.silent = s.silent :=
  rfl

end Interpreter

/-- No output, and no tracing. -/
def Translation.silence (H : Type) : Translation H Mute :=
  ⟨fun _ => ⟨⟩, fun c => { c with traceLoads := false }⟩

section Silence

variable [Host H] (s : Interpreter H)

theorem Library.printValues_eq (out : Stream) (vs : List Value) :
    ∃ host, printValues s out vs = { s with host := host } := by
  induction vs generalizing s with
  | nil => exact ⟨s.host, rfl⟩
  | cons v vs ih =>
    cases vs with
    | nil =>
      rw [printValues.eq_2]
      exact ⟨Output.write s.host out (v.display s.heap), rfl⟩
    | cons w ws =>
      have hfirst : ∃ host, (s.print out (v.display s.heap)).printChar out 32 =
          { s with host := host } := by
        unfold Interpreter.printChar Interpreter.print
        exact ⟨_, rfl⟩
      obtain ⟨first, hfirst⟩ := hfirst
      rw [printValues.eq_3 _ _ _ _ (List.cons_ne_nil w ws), hfirst]
      exact ih { s with host := first }

/-- Printing changes nothing but the host. -/
theorem Library.print_eq (args : List Value) : ∃ host, print s args = { s with host := host } := by
  obtain ⟨host, hvalues⟩ := printValues_eq s (Host.stdout s.host) args
  unfold print
  dsimp only
  rw [hvalues]
  exact ⟨(Output.writeChar host (Host.stdout s.host) 10).2, rfl⟩

/-- An event is traced or not, and a silent interpreter does not trace it. -/
theorem Interpreter.silent_trace (e : Event) : (s.trace e).silent = s.silent.trace e := by
  have hoff : s.silent.config.traceLoads = false := rfl
  have hsilent : s.silent.trace e = s.silent := by
    rw [trace, hoff]
    exact if_neg Bool.false_ne_true
  rw [hsilent, trace]
  split_ifs
  · exact s.silent_host _
  · rfl

theorem faithful_silence : (Translation.silence H).Faithful where
  print s args := by
    obtain ⟨host, hprint⟩ := Library.print_eq s args
    obtain ⟨mute, hmute⟩ := Library.print_eq (s.translate (.silence H)) args
    rw [hprint, hmute]
    rfl
  trace s e := s.silent_trace e
  maxLoadDepth c := Nat.le_refl c.maxLoadDepth
  maxCallDepth c := Nat.le_refl c.maxCallDepth

end Silence

/-! ## Loads -/

namespace Interpreter

theorem silent_tryLoad [Host H] (fuel : Nat) (s : Interpreter H) (source name : String) :
    s.silent.tryLoad fuel source name =
      (s.tryLoad fuel source name).map fun r => (r.1.silent, r.2) :=
  s.translate_tryLoad faithful_silence (.inr fun _ => ⟨rfl, rfl⟩) fuel

variable {H₁ H₂ : Type}

/-- The interpreters differ in nothing but their hosts and in whether loads are traced. -/
structure SameButOutput (s : Interpreter H₁) (t : Interpreter H₂) : Prop where
  heap : s.heap = t.heap
  registry : s.registry = t.registry
  active : s.active = t.active
  pending : s.pending = t.pending
  stack : s.stack = t.stack
  loadDepth : s.loadDepth = t.loadDepth
  config : { s.config with traceLoads := t.config.traceLoads } = t.config
  resolver : s.resolver = t.resolver
  lastError : s.lastError = t.lastError
  surroundings : s.surroundings = t.surroundings
  seed : s.seed = t.seed

theorem sameButOutput_iff {s : Interpreter H₁} {t : Interpreter H₂} :
    s.SameButOutput t ↔ s.silent = t.silent := by
  constructor
  · intro h
    have hconfig : { s.config with traceLoads := false } = { t.config with traceLoads := false } :=
      congrArg (fun c : Config => { c with traceLoads := false }) h.config
    unfold silent
    rw [h.heap, h.registry, h.active, h.pending, h.stack, h.loadDepth, hconfig, h.resolver,
      h.lastError, h.surroundings, h.seed]
  · intro h
    have hconfig : { s.config with traceLoads := false } = { t.config with traceLoads := false } :=
      congrArg Interpreter.config h
    exact {
      heap := congrArg Interpreter.heap h
      registry := congrArg Interpreter.registry h
      active := congrArg Interpreter.active h
      pending := congrArg Interpreter.pending h
      stack := congrArg Interpreter.stack h
      loadDepth := congrArg Interpreter.loadDepth h
      config := congrArg (fun c : Config => { c with traceLoads := t.config.traceLoads }) hconfig
      resolver := congrArg Interpreter.resolver h
      lastError := congrArg Interpreter.lastError h
      surroundings := congrArg Interpreter.surroundings h
      seed := congrArg Interpreter.seed h }

variable [Host H₁] [Host H₂]

/-- **Output has no influence**: after any number of steps, both loads are still going on, or both
have ended with the same outcome and have left the same behind. -/
theorem tryLoad_same {s : Interpreter H₁} {t : Interpreter H₂} (h : s.SameButOutput t)
    (fuel : Nat) (source name : String) :
    Option.Rel (fun x y => x.2 = y.2 ∧ x.1.SameButOutput y.1)
      (s.tryLoad fuel source name) (t.tryLoad fuel source name) := by
  have hsilent : (s.tryLoad fuel source name).map (fun r => (r.1.silent, r.2)) =
      (t.tryLoad fuel source name).map fun r => (r.1.silent, r.2) := by
    rw [← silent_tryLoad, ← silent_tryLoad, sameButOutput_iff.1 h]
  cases hs : s.tryLoad fuel source name with
  | none =>
    cases ht : t.tryLoad fuel source name with
    | none => exact .none
    | some y =>
      rw [hs, ht] at hsilent
      cases hsilent
  | some x =>
    cases ht : t.tryLoad fuel source name with
    | none =>
      rw [hs, ht] at hsilent
      cases hsilent
    | some y =>
      rw [hs, ht] at hsilent
      obtain ⟨hstate, hresult⟩ := Prod.mk.inj (Option.some.inj hsilent)
      exact .some ⟨hresult, sameButOutput_iff.2 hstate⟩

/-- A new interpreter whose host takes nothing, and which traces loads. -/
def refusing : Interpreter Capture :=
  { stocked with host := Capture.limited 0, config := { stocked.config with traceLoads := true } }

theorem tryLoad_same_refusing : stocked.SameButOutput refusing ∧
    ∃ s t m, stocked.tryLoad 1 "" "a" = some (s, .ok m) ∧
      refusing.tryLoad 1 "" "a" = some (t, .ok m) ∧ s.SameButOutput t := by
  have hany : ∀ s : Interpreter Capture, s.SameButOutput
      { s with host := Capture.limited 0, config := { s.config with traceLoads := true } } :=
    fun s => ⟨rfl, rfl, rfl, rfl, rfl, rfl, rfl, rfl, rfl, rfl, rfl⟩
  have h : stocked.SameButOutput refusing := hany stocked
  have hrun : ∃ s m, stocked.tryLoad 1 "" "a" = some (s, .ok m) := by
    simp only [tryLoad_eq_some, Machine.load, Code.compile_empty]
    exact ⟨_, _, rfl⟩
  obtain ⟨s, m, hload⟩ := hrun
  have hsame := tryLoad_same h 1 "" "a"
  rw [hload] at hsame
  cases ht : refusing.tryLoad 1 "" "a" with
  | none =>
    rw [ht] at hsame
    cases hsame
  | some y =>
    obtain ⟨t, r⟩ := y
    rw [ht] at hsame
    obtain ⟨hresult, hstate⟩ : Except.ok m = r ∧ s.SameButOutput t := by
      cases hsame
      assumption
    subst hresult
    exact ⟨h, s, t, m, hload, rfl, hstate⟩

end Interpreter

end Ember
