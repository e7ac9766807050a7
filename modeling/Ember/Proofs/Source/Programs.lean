import Ember.Proofs.Source.Statements

/-!
# Reading programs

**Theorem (`ofTokens_eq_ok_iff`).** A list of tokens is read as a program exactly if the tokens in
front of its first end write this program, within the limits on expression levels, on depth and on
blocks.

One half is `statementRules`. The other, `Laid.runs`, is an induction on what is written: in front
of such tokens a rule returns what they write and stops behind them. For a statement this needs that
what follows ends it. With `t` tokens a rule needs at most `20 * t + 2` steps of its budget.
-/

namespace Ember.Source

open Ember.Source.Parser

/-! ## What is written is read -/

/-- The rule for the form reads these tokens off the front of others, as long as the limits and the
budget allow it. -/
def Form.Runs (m : Nat) (ts : List Token) : Form → Prop
  | statement s => ∀ ⦃c : Cursor⦄ ⦃n : Nat⦄, c.levels = 0 → c.blocks + m ≤ maxBlocks →
    c.lexeme.closes ∨ c.lexeme.begins → s.Ends c.token → 20 * ts.length ≤ n →
    bareStatement n (c.before ts) = .ok (s, c)
  | conditional s => ∀ ⦃c : Cursor⦄ ⦃n : Nat⦄, c.levels = 0 → c.blocks + m ≤ maxBlocks →
    c.lexeme ≠ .keyword .else_ → 20 * ts.length ≤ n →
    Parser.conditional n s.line (c.before ts) = .ok (s, c)
  | block body => ∀ ⦃c : Cursor⦄ ⦃n : Nat⦄, c.levels = 0 → c.blocks + m ≤ maxBlocks →
    20 * ts.length ≤ n → Parser.block n (c.before ts) = .ok (body, c)
  | statements ss => ∀ ⦃c : Cursor⦄ ⦃n : Nat⦄ ⦃inner : Bool⦄, c.levels = 0 →
    c.blocks + m ≤ maxBlocks → c.lexeme = .finish ∨ inner ∧ c.lexeme = .symbol .closeBrace →
    20 * ts.length + 2 ≤ n → Parser.statements n inner (c.before ts) = .ok (ss, c)

/-- What stands behind a statement closes it or begins another one, so it is none of the lexemes
that do neither. -/
theorem ne_of_follows {x y : Lexeme} (h : x.closes ∨ x.begins)
    (hy : (y.closes || y.begins) = false) : x ≠ y := by
  rintro rfl
  rw [← Bool.or_eq_true, hy] at h
  cases h

section Runs

variable {m line : Nat} {x y f : String} {xs : List String} {e o : Expr} {s : Statement}
  {ss body other : List Statement} {t : Token} {ts us vs : List Token} {p q r z : Place}

theorem runs_let (he : Expression e ts) : (Form.statement (.assign p.line x e)).Runs m
    (⟨.keyword .let_, p⟩ :: ⟨.name x, q⟩ :: ⟨.symbol .assign, r⟩ :: ts) := by
  intro c n hl _ _ hends hn
  simp only [List.length_cons] at hn
  obtain _ | n := n
  · omega
  have hvalue := he.read (n := n) hl (hends.elim hold_of_closes id) (by omega)
  rw [bareStatement]
  exact bind_eq_ok.2 ⟨_, Cursor.expectName_eq_ok.2 ⟨rfl, rfl⟩,
    bind_eq_ok.2 ⟨_, Cursor.expect_eq_ok.2 ⟨rfl, rfl⟩, bind_eq_ok.2 ⟨_, hvalue, rfl⟩⟩⟩

/-- What an assignment to the target is. -/
def assignment? (line : Nat) (value : Expr) : Expr → Option Statement
  | .variable x => some (.assign line x value)
  | .attribute o x => some (.setAttribute line o x value)
  | _ => none

theorem bareStatement_of_opens {c : Cursor} {n : Nat} (h : t.lexeme.opens) :
    bareStatement (n + 1) (c.before (t :: ts)) =
      expressionStatement n t.place.line (c.before (t :: ts)) := by
  rw [bareStatement]
  dsimp only
  split <;> first | rfl | (rename_i hx; rw [← Cursor.lexeme_before_cons, hx] at h; cases h)

/-- An assignment to a variable or to an attribute. -/
theorem runs_assignment {target : Expr} (ht : Expression target (t :: ts))
    (he : Expression e us) (hs : assignment? t.place.line e target = some s) :
    (Form.statement s).Runs m (t :: ts ++ ⟨.symbol .assign, q⟩ :: us) := by
  intro c n hl _ _ hends hn
  simp only [List.length_cons, List.length_append] at hn
  obtain _ | n := n
  · omega
  have hhold : c.lexeme.hold = 0 := by
    unfold assignment? at hs
    split at hs <;> cases hs <;> exact hends.elim hold_of_closes id
  have htarget := ht.read (c := c.before (⟨.symbol .assign, q⟩ :: us)) (n := n) hl rfl
    (by simp only [List.length_cons]; omega)
  have hvalue := he.read (n := n) hl hhold (by omega)
  rw [← Cursor.before_append] at htarget
  rw [List.cons_append, bareStatement_of_opens ht.opens]
  refine bind_eq_ok.2 ⟨_, htarget, ?_⟩
  refine (if_pos Cursor.sees_before).trans (bind_eq_ok.2 ⟨_, hvalue, ?_⟩)
  unfold assignment? at hs
  split at hs <;> cases hs <;> rfl

theorem runs_expr (he : Expression e (t :: ts)) :
    (Form.statement (.expr t.place.line e)).Runs m (t :: ts) := by
  intro c n hl _ hfollows hends hn
  obtain _ | n := n
  · simp at hn
  have hvalue := he.read (n := n) hl (hends.elim hold_of_closes id) (by omega)
  have hassign : ¬ c.sees .assign := mt Cursor.sees_iff.1 (ne_of_follows hfollows rfl)
  rw [bareStatement_of_opens he.opens]
  refine bind_eq_ok.2 ⟨_, hvalue, ?_⟩
  exact if_neg hassign

theorem runs_give : (Form.statement (.give p.line none)).Runs m [⟨.keyword .return_, p⟩] := by
  intro c n hl _ hfollows hends hn
  obtain _ | n := n
  · simp at hn
  rw [bareStatement]
  exact if_pos (ends_give_iff.2 hends)

theorem runs_giveValue (he : Expression e (t :: ts)) (ht : t.place.line = p.line) :
    (Form.statement (.give p.line (some e))).Runs m (⟨.keyword .return_, p⟩ :: t :: ts) := by
  intro c n hl _ _ hends hn
  simp only [List.length_cons] at hn
  obtain _ | n := n
  · omega
  have hvalue := he.read (n := n) hl (hends.elim hold_of_closes id)
    (by simp only [List.length_cons]; omega)
  rw [bareStatement]
  refine (if_neg (mt ends_give_iff.1 ?_)).trans (bind_eq_ok.2 ⟨_, hvalue, rfl⟩)
  rintro (hcloses | hline)
  · have hbegins : t.lexeme.begins := Lexeme.begins_of_opens he.opens
    exact absurd hcloses (Bool.eq_false_iff.1 (closes_of_begins hbegins))
  · exact hline ht

theorem runs_raise (he : Expression e ts) :
    (Form.statement (.raise p.line e)).Runs m (⟨.keyword .raise, p⟩ :: ts) := by
  intro c n hl _ _ hends hn
  simp only [List.length_cons] at hn
  obtain _ | n := n
  · omega
  have hvalue := he.read (n := n) hl (hends.elim hold_of_closes id) (by omega)
  rw [bareStatement]
  exact bind_eq_ok.2 ⟨_, hvalue, rfl⟩

theorem runs_use (hx : Names .dot xs ts) :
    (Form.statement (.use p.line (".".intercalate xs) none)).Runs m
      (⟨.keyword .import_, p⟩ :: ts) := by
  intro c n _ _ hfollows _ hn
  simp only [List.length_cons] at hn
  obtain _ | n := n
  · omega
  have hpath := hx.path (n := n) (ne_of_follows hfollows rfl) (by omega)
  have has : ¬ c.seesKeyword .as := mt Cursor.seesKeyword_iff.1 (ne_of_follows hfollows rfl)
  rw [bareStatement]
  refine bind_eq_ok.2 ⟨_, hpath, ?_⟩
  exact if_neg has

theorem runs_useAs (hx : Names .dot xs ts) :
    (Form.statement (.use p.line (".".intercalate xs) (some y))).Runs m
      (⟨.keyword .import_, p⟩ :: (ts ++ [⟨.keyword .as, q⟩, ⟨.name y, r⟩])) := by
  intro c n _ _ _ _ hn
  simp only [List.length_cons, List.length_append, List.length_nil] at hn
  obtain _ | n := n
  · omega
  have hpath := hx.path (c := c.before [⟨.keyword .as, q⟩, ⟨.name y, r⟩]) (n := n) nofun
    (by omega)
  rw [← Cursor.before_append] at hpath
  rw [bareStatement]
  refine bind_eq_ok.2 ⟨_, hpath, ?_⟩
  refine (if_pos (Cursor.seesKeyword_iff.2 rfl)).trans ?_
  exact bind_eq_ok.2 ⟨_, Cursor.expectName_eq_ok.2 ⟨rfl, rfl⟩, rfl⟩

theorem Parameters.signature (hx : Parameters xs ts) {c : Cursor} {n : Nat}
    (hn : ts.length ≤ n) :
    signature n (c.before (⟨.name f, q⟩ :: ⟨.symbol .openParen, r⟩ ::
      (ts ++ [⟨.symbol .closeParen, z⟩]))) = .ok ((f, xs), c) := by
  refine bind_eq_ok.2 ⟨_, Cursor.expectName_eq_ok.2 ⟨rfl, rfl⟩, ?_⟩
  refine bind_eq_ok.2 ⟨_, Cursor.expect_eq_ok.2 ⟨rfl, rfl⟩, ?_⟩
  cases hx with
  | none =>
    refine (if_pos (Cursor.sees_iff.2 rfl)).trans (bind_eq_ok.2 ⟨_, rfl, ?_⟩)
    exact bind_eq_ok.2 ⟨_, Cursor.expect_eq_ok.2 ⟨rfl, rfl⟩, rfl⟩
  | some hx hd =>
    have hparams := hx.parameters (c := c.before [⟨.symbol .closeParen, z⟩]) (n := n) hd
      (fun _ _ => List.not_mem_nil) nofun hn
    have hsome : ¬ (c.before (ts ++ [⟨.symbol .closeParen, z⟩])).sees .closeParen := by
      rw [Cursor.sees_iff]
      cases hx <;> nofun
    rw [← Cursor.before_append] at hparams
    refine (if_neg hsome).trans (bind_eq_ok.2 ⟨_, hparams, ?_⟩)
    exact bind_eq_ok.2 ⟨_, Cursor.expect_eq_ok.2 ⟨rfl, rfl⟩, rfl⟩

theorem runs_function (hx : Parameters xs ts) (hb : (Form.block body).Runs m us) :
    (Form.statement (.function p.line f xs body)).Runs m
      (⟨.keyword .func, p⟩ :: ⟨.name f, q⟩ :: ⟨.symbol .openParen, r⟩ ::
        (ts ++ ⟨.symbol .closeParen, z⟩ :: us)) := by
  intro c n hl hm _ _ hn
  simp only [List.length_cons, List.length_append] at hn
  obtain _ | n := n
  · omega
  have hsignature := hx.signature (c := c.before us) (f := f) (q := q) (r := r) (z := z) (n := n)
    (by omega)
  have hbody := hb (n := n) hl hm (by omega)
  rw [← Cursor.before_append] at hsignature
  simp only [List.cons_append, List.append_assoc, List.nil_append] at hsignature
  rw [bareStatement]
  exact bind_eq_ok.2 ⟨_, hsignature, bind_eq_ok.2 ⟨_, hbody, rfl⟩⟩

theorem runs_loop (he : Expression e ts) (hb : (Form.block body).Runs m us)
    (hu : Laid m (.block body) us) :
    (Form.statement (.loop p.line e body)).Runs m (⟨.keyword .while_, p⟩ :: (ts ++ us)) := by
  intro c n hl hm _ _ hn
  simp only [List.length_cons, List.length_append] at hn
  obtain _ | n := n
  · omega
  have hcondition := he.read (c := c.before us) (n := n) hl (by cases hu; rfl) (by omega)
  have hbody := hb (n := n) hl hm (by omega)
  rw [← Cursor.before_append] at hcondition
  rw [bareStatement]
  exact bind_eq_ok.2 ⟨_, hcondition, bind_eq_ok.2 ⟨_, hbody, rfl⟩⟩

theorem runs_conditional (hs : (Form.conditional s).Runs m ts) (hline : s.line = p.line) :
    (Form.statement s).Runs m (⟨.keyword .if_, p⟩ :: ts) := by
  intro c n hl hm hfollows _ hn
  simp only [List.length_cons] at hn
  obtain _ | n := n
  · omega
  have hconditional := hs (n := n) hl hm (ne_of_follows hfollows rfl) (by omega)
  rw [bareStatement]
  rw [hline] at hconditional
  exact hconditional

theorem runs_when (he : Expression e ts) (hb : (Form.block body).Runs m us)
    (hu : Laid m (.block body) us) :
    (Form.conditional (.when line e body)).Runs m (ts ++ us) := by
  intro c n hl hm helse hn
  rw [List.length_append] at hn
  have hlength := he.written.length_pos nofun
  obtain _ | n := n
  · omega
  have hcondition := he.read (c := c.before us) (n := n) hl (by cases hu; rfl) (by omega)
  have hbody := hb (n := n) hl hm (by omega)
  rw [← Cursor.before_append] at hcondition
  rw [Parser.conditional]
  refine bind_eq_ok.2 ⟨_, hcondition, bind_eq_ok.2 ⟨_, hbody, ?_⟩⟩
  exact if_neg (mt Cursor.seesKeyword_iff.1 helse)

theorem runs_choose (he : Expression e ts) (hb : (Form.block body).Runs m us)
    (hu : Laid m (.block body) us) (ho : (Form.block other).Runs m vs)
    (hv : Laid m (.block other) vs) : (Form.conditional (.choose line e body other)).Runs m
      (ts ++ (us ++ ⟨.keyword .else_, p⟩ :: vs)) := by
  intro c n hl hm _ hn
  simp only [List.length_append, List.length_cons] at hn
  obtain _ | n := n
  · omega
  have hcondition := he.read (c := c.before (us ++ ⟨.keyword .else_, p⟩ :: vs)) (n := n) hl
    (by cases hu; rfl) (by omega)
  have hbody := hb (c := c.before (⟨.keyword .else_, p⟩ :: vs)) (n := n) hl hm (by omega)
  have hother := ho (n := n) hl hm (by omega)
  rw [← Cursor.before_append] at hcondition hbody
  rw [Parser.conditional]
  refine bind_eq_ok.2 ⟨_, hcondition, bind_eq_ok.2 ⟨_, hbody, ?_⟩⟩
  refine (if_pos (Cursor.seesKeyword_iff.2 rfl)).trans ?_
  have hif : ¬ (c.before vs).seesKeyword .if_ := by
    rw [Cursor.seesKeyword_iff]
    cases hv
    rintro ⟨⟩
  exact (if_neg hif).trans (bind_eq_ok.2 ⟨_, hother, rfl⟩)

theorem runs_elseIf (he : Expression e ts) (hb : (Form.block body).Runs (m + 1) us)
    (hu : Laid (m + 1) (.block body) us) (hs : (Form.conditional s).Runs m vs)
    (hline : s.line = q.line) : (Form.conditional (.choose line e body [s])).Runs (m + 1)
      (ts ++ (us ++ ⟨.keyword .else_, p⟩ :: ⟨.keyword .if_, q⟩ :: vs)) := by
  intro c n hl hm helse hn
  simp only [List.length_append, List.length_cons] at hn
  obtain _ | n := n
  · omega
  have hcondition := he.read (n := n)
    (c := c.before (us ++ ⟨.keyword .else_, p⟩ :: ⟨.keyword .if_, q⟩ :: vs)) hl
    (by cases hu; rfl) (by omega)
  have hbody := hb (c := c.before (⟨.keyword .else_, p⟩ :: ⟨.keyword .if_, q⟩ :: vs)) (n := n)
    hl hm (by omega)
  have henter : (c.before (⟨.keyword .if_, q⟩ :: vs)).enterBlock = .ok _ :=
    Cursor.enterBlock_eq_ok.2 ⟨by show c.blocks < _; omega, rfl⟩
  have hother := hs (c := { c with blocks := c.blocks + 1 }) (n := n) hl
    (by show c.blocks + 1 + m ≤ _; omega) helse (by omega)
  rw [hline] at hother
  rw [← Cursor.before_append] at hcondition hbody
  rw [Parser.conditional]
  refine bind_eq_ok.2 ⟨_, hcondition, bind_eq_ok.2 ⟨_, hbody, ?_⟩⟩
  refine (if_pos (Cursor.seesKeyword_iff.2 rfl)).trans ?_
  refine (if_pos (Cursor.seesKeyword_iff.2 rfl)).trans ?_
  exact bind_eq_ok.2 ⟨_, henter, bind_eq_ok.2 ⟨_, hother, rfl⟩⟩

theorem runs_block (hb : (Form.statements body).Runs m ts) : (Form.block body).Runs (m + 1)
    (⟨.symbol .openBrace, p⟩ :: (ts ++ [⟨.symbol .closeBrace, q⟩])) := by
  intro c n hl hm hn
  simp only [List.length_append, List.length_cons, List.length_nil] at hn
  obtain _ | n := n
  · omega
  have henter : (c.before (⟨.symbol .openBrace, p⟩ ::
      (ts ++ [⟨.symbol .closeBrace, q⟩]))).enterBlock = .ok _ :=
    Cursor.enterBlock_eq_ok.2 ⟨by show c.blocks < _; omega, rfl⟩
  have hbody : Parser.statements n true (Cursor.before { c with blocks := c.blocks + 1 }
      (ts ++ [⟨.symbol .closeBrace, q⟩])) = .ok (body, Cursor.before
        { c with blocks := c.blocks + 1 } [⟨.symbol .closeBrace, q⟩]) := by
    rw [Cursor.before_append]
    exact hb hl (by show c.blocks + 1 + m ≤ _; omega) (.inr ⟨rfl, rfl⟩) (by omega)
  rw [Parser.block]
  refine bind_eq_ok.2 ⟨_, henter, bind_eq_ok.2 ⟨_, Cursor.expect_eq_ok.2 ⟨rfl, rfl⟩, ?_⟩⟩
  refine bind_eq_ok.2 ⟨_, hbody, bind_eq_ok.2 ⟨_, Cursor.expect_eq_ok.2 ⟨rfl, rfl⟩, ?_⟩⟩
  rfl

theorem statements_semicolon {c : Cursor} {n : Nat} {inner : Bool} (h : c.sees .semicolon) :
    Parser.statements (n + 1) inner c = Parser.statements n inner c.advance := by
  have hend : ¬ (c.atEnd || (inner && c.sees .closeBrace)) := by
    rw [Bool.or_eq_true, Bool.and_eq_true, Cursor.atEnd_iff, Cursor.sees_iff,
      Cursor.sees_iff.1 h]
    simp
  rw [Parser.statements, if_neg hend, if_pos h]

theorem runs_nil : (Form.statements []).Runs m [] := by
  intro c n inner _ _ hstop hn
  obtain _ | n := n
  · omega
  rw [Parser.statements, Cursor.before_nil, if_pos]
  rw [Bool.or_eq_true, Bool.and_eq_true, Cursor.atEnd_iff, Cursor.sees_iff]
  exact hstop

theorem runs_semicolon (hs : (Form.statements ss).Runs m ts) :
    (Form.statements ss).Runs m (⟨.symbol .semicolon, p⟩ :: ts) := by
  intro c n inner hl hm hstop hn
  rw [List.length_cons] at hn
  obtain _ | n := n
  · omega
  rw [statements_semicolon Cursor.sees_before]
  exact hs hl hm hstop (by omega)

/-- A statement in front of others is read if it ends before them. -/
theorem statements_cons (hw : Laid m (.statement s) ts) (h : (Form.statement s).Runs m ts)
    {c c' : Cursor} {n : Nat} {inner : Bool} (hl : c.levels = 0) (hm : c.blocks + m ≤ maxBlocks)
    (hfollows : c.lexeme.closes ∨ c.lexeme.begins) (hends : s.Ends c.token)
    (hn : 20 * ts.length + 1 ≤ n)
    (hss : Parser.statements n inner (c.skip .semicolon) = .ok (ss, c')) :
    Parser.statements (n + 1) inner (c.before ts) = .ok (s :: ss, c') := by
  obtain _ | n := n
  · omega
  have hbare := h (n := n) hl hm hfollows hends (by omega)
  have hstatement : Parser.statement (n + 1) (c.before ts) = .ok (s, c.skip .semicolon) := by
    rw [Parser.statement]
    exact bind_eq_ok.2 ⟨_, hbare, rfl⟩
  obtain ⟨t, us, rfl, hb⟩ := hw.begins
  -- A token with which a statement begins closes nothing.
  have hne : ∀ {x : Lexeme}, x.closes → (c.before (t :: us)).lexeme ≠ x := by
    rintro x hx rfl
    exact absurd hx (Bool.eq_false_iff.1 (closes_of_begins hb))
  have hsemi : ¬ (c.before (t :: us)).sees .semicolon := mt Cursor.sees_iff.1 (hne rfl)
  have hend : ¬ ((c.before (t :: us)).atEnd ||
      (inner && (c.before (t :: us)).sees .closeBrace)) := by
    rw [Bool.or_eq_true, Bool.and_eq_true, Cursor.atEnd_iff, Cursor.sees_iff]
    rintro (hx | ⟨-, hx⟩)
    · exact hne rfl hx
    · exact hne rfl hx
  rw [Parser.statements, if_neg hend, if_neg hsemi]
  exact bind_eq_ok.2 ⟨_, hstatement, bind_eq_ok.2 ⟨_, hss, rfl⟩⟩

theorem runs_followed (hw : Laid m (.statement s) ts) (h : (Form.statement s).Runs m ts)
    (hss : (Form.statements ss).Runs m us) :
    (Form.statements (s :: ss)).Runs m (ts ++ ⟨.symbol .semicolon, p⟩ :: us) := by
  intro c n inner hl hm hstop hn
  rw [List.length_append, List.length_cons] at hn
  obtain _ | n := n
  · omega
  rw [Cursor.before_append]
  refine statements_cons hw h hl hm (.inl rfl) (.inl rfl) (by omega) ?_
  rw [Cursor.skip, if_pos Cursor.sees_before]
  exact hss hl hm hstop (by omega)

theorem runs_bare (hw : Laid m (.statement s) ts) (h : (Form.statement s).Runs m ts)
    (hu : Laid m (.statements ss) us) (hss : (Form.statements ss).Runs m us)
    (hstops : ∀ t ∈ us.head?, s.Stops t) : (Form.statements (s :: ss)).Runs m (ts ++ us) := by
  intro c n inner hl hm hstop hn
  rw [List.length_append] at hn
  have hlength := hw.length_pos
  obtain _ | n := n
  · omega
  have hfollows : ((c.before us).lexeme.closes ∨ (c.before us).lexeme.begins) ∧
      s.Ends (c.before us).token := by
    obtain _ | ⟨t, us⟩ := us
    · have hcloses : c.lexeme.closes := closes_iff.2 (by
        rcases hstop with hx | ⟨-, hx⟩
        · exact .inr (.inr hx)
        · exact .inr (.inl hx))
      exact ⟨.inl hcloses, .inl hcloses⟩
    · refine ⟨?_, .inr (hstops t rfl)⟩
      rcases hu.head rfl with hx | hb
      · exact .inl (closes_iff.2 (.inl hx))
      · exact .inr hb
  rw [Cursor.before_append]
  refine statements_cons hw h hl hm hfollows.1 hfollows.2 (by omega) ?_
  unfold Cursor.skip
  by_cases hsemi : (c.before us).sees .semicolon
  · -- The semicolon belongs to what follows, and is the first thing skipped there.
    have hskip : Parser.statements (n + 1) inner (c.before us) = .ok (ss, c) :=
      hss hl hm hstop (by omega)
    rw [statements_semicolon hsemi] at hskip
    rw [if_pos hsemi]
    exact hskip
  · rw [if_neg hsemi]
    exact hss hl hm hstop (by omega)

end Runs

/-- **What is written is read.** -/
theorem Laid.runs {m : Nat} {f : Form} {ts : List Token} (h : Laid m f ts) : f.Runs m ts := by
  induction h with
  | let_ he => exact runs_let he
  | assign ht he => exact runs_assignment ht he rfl
  | setAttribute ht he => exact runs_assignment ht he rfl
  | expr he => exact runs_expr he
  | give => exact runs_give
  | giveValue he ht => exact runs_giveValue he ht
  | raise he => exact runs_raise he
  | use hx => exact runs_use hx
  | useAs hx => exact runs_useAs hx
  | loop he hb ih => exact runs_loop he ih hb
  | function hx _ ih => exact runs_function hx ih
  | conditional _ hline ih => exact runs_conditional ih hline
  | when he hb ih => exact runs_when he ih hb
  | choose he hb ho ihb iho => exact runs_choose he ihb hb iho ho
  | elseIf he hb _ hline ihb ihs => exact runs_elseIf he ihb hb ihs hline
  | block _ ih => exact runs_block ih
  | nil => exact runs_nil
  | followed hs _ ihs ih => exact runs_followed hs ihs ih
  | bare hs hss hstops ihs ih => exact runs_bare hs ihs hss ih hstops
  | semicolon _ ih => exact runs_semicolon ih

/-- **A program is read exactly if the tokens in front of the first end write it.** -/
theorem ofTokens_eq_ok_iff {ts : List Token} {p : Program} :
    Program.ofTokens? ts = .ok p ↔ Renders p (beforeEnd ts) := by
  constructor
  · intro h
    obtain ⟨c, hc⟩ : ∃ c, Parser.program ts = .ok (p, c) := by
      unfold Program.ofTokens? at h
      split at h <;> cases h
      exact ⟨_, ‹_›⟩
    obtain ⟨⟨us, hus, hlaid⟩, hstop⟩ := (statementRules _).statements rfl hc
    have hend : AtEnd c.rest := by
      intro t ht
      obtain ⟨vs, hvs⟩ := List.head?_eq_some_iff.1 ht
      have hfinish : c.lexeme = .finish := hstop.elim id fun h => absurd h.1 Bool.false_ne_true
      rwa [Cursor.lexeme, Cursor.token, hvs] at hfinish
    have hts : ts = us ++ c.rest := congrArg Cursor.rest hus
    rw [hts, beforeEnd_append hlaid.noEnd hend]
    exact hlaid
  · intro h
    obtain ⟨vs, hvs, hend⟩ := exists_eq_beforeEnd_append ts
    have hfinish : (Cursor.start vs).lexeme = .finish := by
      obtain _ | ⟨t, vs⟩ := vs
      · rfl
      · exact hend t rfl
    have hlength := congrArg List.length hvs
    rw [List.length_append] at hlength
    have hprogram : Parser.statements (budget ts.length) false
        ((Cursor.start vs).before (beforeEnd ts)) = .ok (p, Cursor.start vs) :=
      h.runs rfl (Nat.le_refl 100) (.inl hfinish) (by unfold budget; omega)
    have hstart : Cursor.start ts = (Cursor.start vs).before (beforeEnd ts) :=
      congrArg Cursor.start hvs
    rw [Program.ofTokens?, Parser.program, hstart, hprogram]

/-- The minus groups to the left, and the product binds tighter. -/
example : Program.ofTokens? [⟨.name "x", ⟨2, 1⟩⟩, ⟨.symbol .minus, ⟨2, 3⟩⟩, ⟨.integer 1, ⟨2, 5⟩⟩,
      ⟨.symbol .minus, ⟨2, 7⟩⟩, ⟨.integer 2, ⟨2, 9⟩⟩, ⟨.symbol .star, ⟨2, 11⟩⟩,
      ⟨.name "x", ⟨3, 1⟩⟩, ⟨.symbol .semicolon, ⟨3, 2⟩⟩] =
    .ok [.expr 2 (.binary (.operator .sub)
      (.binary (.operator .sub) (.variable "x") (.integer 1))
      (.binary (.operator .mul) (.integer 2) (.variable "x")))] := rfl

end Ember.Source
