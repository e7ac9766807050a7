import Ember.Proofs.Source.Descent

/-!
# Bounds on what is read

**Theorem (`reading_bounded`).** While a list of tokens is read as a program, at most 100 expression
levels and 100 blocks are open at any call of a rule. A rule that succeeds leaves as many open as it
found, and the depth that it returns is the depth of its tree. In a program that is read no
expression is deeper than 1000, and no more than 100 blocks stand one inside the other.

What holds of the calls is `Called.ready` and `passed_of_run`. What holds of the program follows
from what its tokens write: the limits are part of what it is for tokens to write something, so an
induction on it does (`Laid.bounded`).
-/

namespace Ember.Source

open Ember.Source.Parser

/-- All expressions in a part of a program. -/
def Form.exprs : Form → List Expr
  | statement s | conditional s => s.allExprs
  | block ss | statements ss => exprsOfAll ss

/-- How many blocks nest in a part of a program, a block itself included. -/
def Form.nesting : Form → Nat
  | statement s | conditional s => s.nesting
  | block ss => nestingOfAll ss + 1
  | statements ss => nestingOfAll ss

/-- The part of a program keeps to the limits, with at most so many blocks one inside the other. -/
structure Form.Bounded (m : Nat) (f : Form) : Prop where
  exprs : ∀ e ∈ f.exprs, e.depth ≤ 1000
  nesting : f.nesting ≤ m

/-- **What is written keeps to the limits.** -/
theorem Laid.bounded {m : Nat} {f : Form} {ts : List Token} (h : Laid m f ts) : f.Bounded m := by
  induction h with
  | let_ he | assign _ he | expr he | giveValue he | raise he =>
    exact ⟨List.forall_mem_singleton.2 he.depth, Nat.zero_le _⟩
  | setAttribute ho he =>
    have ho := ho.depth
    rw [Expr.depth_attribute] at ho
    exact ⟨List.forall_mem_cons.2 ⟨Nat.le_of_succ_le ho, List.forall_mem_singleton.2 he.depth⟩,
      Nat.zero_le _⟩
  | give | use | useAs | nil => exact ⟨List.forall_mem_nil _, Nat.zero_le _⟩
  | function _ _ ih | conditional _ _ ih | semicolon _ ih => exact ⟨ih.exprs, ih.nesting⟩
  | block _ ih => exact ⟨ih.exprs, Nat.succ_le_succ ih.nesting⟩
  | loop he _ ih | when he _ ih => exact ⟨List.forall_mem_cons.2 ⟨he.depth, ih.exprs⟩, ih.nesting⟩
  | @choose m _ e body other _ _ _ _ he _ _ ihb iho =>
    have hbody : nestingOfAll body + 1 ≤ m := ihb.nesting
    have hother : nestingOfAll other + 1 ≤ m := iho.nesting
    refine ⟨List.forall_mem_cons.2 ⟨he.depth, List.forall_mem_append.2 ⟨ihb.exprs, iho.exprs⟩⟩, ?_⟩
    show max (nestingOfAll body) (nestingOfAll other) + 1 ≤ m
    omega
  | @elseIf m _ e body s _ _ _ _ _ he _ _ _ ihb ihs =>
    have hbody : nestingOfAll body + 1 ≤ m + 1 := ihb.nesting
    have hs : s.nesting ≤ m := ihs.nesting
    have hexprs : ∀ e ∈ exprsOfAll [s], e.depth ≤ 1000 := by
      rw [exprsOfAll, exprsOfAll, List.append_nil]
      exact ihs.exprs
    refine ⟨List.forall_mem_cons.2 ⟨he.depth, List.forall_mem_append.2 ⟨ihb.exprs, hexprs⟩⟩, ?_⟩
    show max (nestingOfAll body) (max s.nesting 0) + 1 ≤ m + 1
    omega
  | followed _ _ ihs ih | bare _ _ _ ihs ih =>
    exact ⟨List.forall_mem_append.2 ⟨ihs.exprs, ih.exprs⟩, Nat.max_le.2 ⟨ihs.nesting, ih.nesting⟩⟩

theorem bounded_of_ofTokens {ts : List Token} {p : Program} (h : Program.ofTokens? ts = .ok p) :
    (∀ e ∈ exprsOfAll p, e.depth ≤ 1000) ∧ nestingOfAll p ≤ 100 := by
  have hbounded := (ofTokens_eq_ok_iff.1 h).bounded
  exact ⟨hbounded.exprs, hbounded.nesting⟩

/-- **The reading of a program keeps to the limits**, and so does the program that is read. -/
theorem reading_bounded (ts : List Token) :
    (∀ n r c, Called ts n r c →
      c.levels ≤ 100 ∧ c.blocks ≤ 100 ∧
      ∀ p c', r.run n c = .ok (p, c') → p.Exact ∧ c'.levels = c.levels ∧ c'.blocks = c.blocks) ∧
    (∀ c c' : Cursor, (c.enterLevel = .ok c' → c'.levels ≤ 100) ∧
      (c.enterBlock = .ok c' → c'.blocks ≤ 100)) ∧
    ∀ p, Program.ofTokens? ts = .ok p →
      (∀ e ∈ exprsOfAll p, e.depth ≤ 1000) ∧ nestingOfAll p ≤ 100 := by
  refine ⟨fun n r c h => ⟨h.ready.levels, h.ready.blocks, fun p c' hrun => ?_⟩,
    fun c c' => ⟨fun he => ?_, fun he => ?_⟩, fun p => bounded_of_ofTokens⟩
  · obtain ⟨⟨us, rfl, -⟩, hexact⟩ := passed_of_run h.ready.fits hrun
    exact ⟨hexact, rfl, rfl⟩
  · obtain ⟨hl, rfl⟩ := Cursor.enterLevel_eq_ok.1 he
    exact hl
  · obtain ⟨hb, rfl⟩ := Cursor.enterBlock_eq_ok.1 he
    exact hb

/-- A call of a function in a loop. -/
def loopTokens : List Token :=
  [⟨.keyword .while_, ⟨1, 1⟩⟩, ⟨.name "x", ⟨1, 7⟩⟩, ⟨.symbol .openBrace, ⟨1, 9⟩⟩,
    ⟨.name "f", ⟨1, 11⟩⟩, ⟨.symbol .openParen, ⟨1, 12⟩⟩, ⟨.name "x", ⟨1, 13⟩⟩,
    ⟨.symbol .closeParen, ⟨1, 14⟩⟩, ⟨.symbol .closeBrace, ⟨1, 16⟩⟩, ⟨.finish, ⟨1, 17⟩⟩]

def loopProgram : Program :=
  [.loop 1 (.variable "x") [.expr 1 (.call (.variable "f") [.variable "x"])]]

theorem reading_bounded_loop : Program.ofTokens? loopTokens = .ok loopProgram ∧
    (∀ e ∈ exprsOfAll loopProgram, e.depth ≤ 1000) ∧ nestingOfAll loopProgram ≤ 100 ∧
    Called loopTokens (budget 9) (.statements false) (.start loopTokens) ∧
    (Cursor.start loopTokens).levels ≤ 100 := by
  obtain ⟨hcalls, -, hprogram⟩ := reading_bounded loopTokens
  obtain ⟨hexprs, hnesting⟩ := hprogram loopProgram rfl
  have hcall : Called loopTokens _ _ _ := .program
  exact ⟨rfl, hexprs, hnesting, hcall, (hcalls _ _ _ hcall).1⟩

end Ember.Source
