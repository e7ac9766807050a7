import Mathlib
import Ember.Proofs.Machine.Calls
import Ember.Proofs.Machine.Translation
import Ember.Proofs.Samples

/-!
# Limits only guard

**Theorem (`tryLoad_withLimits`).** If no limit stops anything while a source text is loaded, then
it is loaded in the same way under all limits that are not smaller: after the same number of steps,
with the same outcome, and with the same state left behind.

Raising the limits to certain ones is a translation (`Translation.raising`) that leaves all output
as it is. The limits of an interpreter never change during a run (`config_tryLoad`), so that what it
has raised in the end are the limits it had at the start.

Whether a limit stops anything can be checked by running the load (`Machine.Along`).
-/

namespace Ember

variable {H : Type}

/-- The interpreter with other limits. -/
def Interpreter.withLimits (s : Interpreter H) (loads calls : Nat) : Interpreter H :=
  { s with config := { s.config with maxLoadDepth := loads, maxCallDepth := calls } }

/-- The limits are raised to these where they are lower. -/
def Translation.raising (H : Type) (loads calls : Nat) : Translation H H where
  host := id
  config c :=
    { c with
      maxLoadDepth := max c.maxLoadDepth loads
      maxCallDepth := max c.maxCallDepth calls }

namespace Interpreter

variable {s s' : Interpreter H} {loads calls : Nat}

/-- Limits that are not higher are raised to these. -/
theorem translate_raising (hl : s.config.maxLoadDepth ≤ loads)
    (hc : s.config.maxCallDepth ≤ calls) :
    s.translate (.raising H loads calls) = s.withLimits loads calls := by
  unfold translate Translation.raising withLimits
  dsimp only
  rw [Nat.max_eq_right hl, Nat.max_eq_right hc]
  rfl

variable [Host H] {source name : String} {fuel : Nat} {r : Except LoadError ModuleId}

/-- Nothing that is written depends on the limits. -/
theorem faithful_raising (loads calls : Nat) : (Translation.raising H loads calls).Faithful :=
  Translation.faithful_of_follows ⟨fun _ _ _ => rfl, fun _ _ => rfl, fun _ => rfl, fun _ => rfl⟩
    (fun _ => rfl) (fun c => Nat.le_max_left c.maxLoadDepth loads)
    fun c => Nat.le_max_left c.maxCallDepth calls

/-- A load does not change the settings. -/
theorem config_tryLoad (h : s.tryLoad fuel source name = some (s', r)) : s'.config = s.config :=
  (Machine.Asked.precedes (.load source name)
    (Machine.reaches_done_iff.2 ⟨fuel, tryLoad_eq_some.1 h⟩)).config

/-- **Limits only guard**: a load that they do not stop, neither itself nor anything in it, goes the
same way under all limits that are not smaller. -/
theorem tryLoad_withLimits (hl : s.config.maxLoadDepth ≤ loads)
    (hc : s.config.maxCallDepth ≤ calls) (hin : s.WithinLimits source name) :
    (s.withLimits loads calls).tryLoad fuel source name =
      (s.tryLoad fuel source name).map fun x => (x.1.withLimits loads calls, x.2) := by
  rw [← translate_raising hl hc, s.translate_tryLoad (faithful_raising loads calls) (.inl hin)]
  cases h : s.tryLoad fuel source name with
  | none => rfl
  | some x =>
    have hconfig := config_tryLoad h
    rw [← hconfig] at hl hc
    rw [Option.map_some, Option.map_some, translate_raising hl hc]

end Interpreter

/-! ## A load within its limits -/

namespace Machine

variable [Host H]

/-- The run ends after at most so many steps, and `P` holds of all machines in it. -/
def Along (P : Machine H → Prop) : Nat → Progress H → Prop
  | _, .done .. => True
  | 0, .running _ => False
  | fuel + 1, .running m => P m ∧ Along P fuel m.step

theorem Along.reaches {P : Machine H → Prop} {fuel : Nat} {p : Progress H} {m : Machine H}
    (h : Along P fuel p) (hm : Reaches p (.running m)) : P m := by
  induction fuel generalizing p with
  | zero =>
    cases p with
    | done s a => cases hm
    | running m' => exact h.elim
  | succ n ih =>
    cases hm with
    | refl => exact h.1
    | step hm => exact ih h.2 hm

end Machine

namespace Interpreter

open Machine (Along)

/-- The import of a module and the call of a function of it, which fails. -/
theorem tryLoad_withLimits_lending :
    lending.WithinLimits "import lib\nlib.f()" "main" ∧ ∃ t e,
      lending.tryLoad 10 "import lib\nlib.f()" "main" = some (t, .error e) ∧
      (lending.withLimits 300 2000).tryLoad 10 "import lib\nlib.f()" "main" =
        some (t.withLimits 300 2000, .error e) := by
  have hmain : Code.compile "import lib\nlib.f()" (displayName "main") =
      .ok #[(.use "lib", 1), (.store "lib", 1), (.load "lib", 2), (.getAttribute "f", 2),
        (.call 0, 2), (.pop, 2)] := by cbv
  have hlib : Code.compile "\n\nfunc f() \x7b\n raise \"deep\"\n\x7d" (displayName "lib") =
      .ok #[(.makeFunction "f" [] #[(.push (.text "deep"), 4), (.raise, 4), (.push .nil, 4),
        (.ret, 4)], 3), (.store "f", 3)] := by cbv
  have hin : lending.WithinLimits "import lib\nlib.f()" "main" := by
    have halong : Along (fun m => ¬ m.Exceeds) 12
        (Machine.load lending "import lib\nlib.f()" "main" .host []) := by
      rw [Machine.load_eq_running rfl hmain]
      refine ⟨by rintro ⟨⟩, ?_⟩
      rw [Machine.step_eq rfl]
      change Along _ 11 (Machine.load _ "\n\nfunc f() \x7b\n raise \"deep\"\n\x7d" "lib" .use _)
      rw [Machine.load_eq_running rfl hlib]
      exact ⟨id, id, id, id, id, id, id, id, by rintro ⟨⟩, trivial⟩
    exact ⟨by rintro ⟨⟩, fun m hm => halong.reaches hm⟩
  have hrun : ∃ t, lending.tryLoad 10 "import lib\nlib.f()" "main" =
      some (t, .error (.runtime (.raised (.text "deep")) "<main>" 4)) := by
    simp only [tryLoad_eq_some]
    rw [Machine.load_eq_running rfl hmain, Machine.run, Machine.step_eq rfl]
    change ∃ t, Machine.run 9
      (Machine.load _ "\n\nfunc f() \x7b\n raise \"deep\"\n\x7d" "lib" .use _) = _
    rw [Machine.load_eq_running rfl hlib]
    exact ⟨_, rfl⟩
  obtain ⟨t, hrun⟩ := hrun
  have hloads : lending.config.maxLoadDepth ≤ 300 := by decide
  have hcalls : lending.config.maxCallDepth ≤ 2000 := by decide
  have hmore : (lending.withLimits 300 2000).tryLoad 10 "import lib\nlib.f()" "main" = _ :=
    tryLoad_withLimits hloads hcalls hin
  rw [hrun] at hmore
  exact ⟨hin, t, _, hrun, hmore⟩

end Interpreter

end Ember
