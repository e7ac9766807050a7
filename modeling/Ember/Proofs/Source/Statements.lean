import Ember.Proofs.Source.Expressions

/-!
# What is read as a statement is written

**Theorem (`statementRules`).** A rule for statements or blocks that succeeds has gone past tokens
that write what it returns, within the limits.

A statement ends before a semicolon, before a closing brace, at the end, or before a token that does
not go on with it (`Statement.Ends`). Each rule for a kind of statement leaves the cursor at such a
token, because the rules for expressions go on as far as they can. This is why a statement that no
semicolon follows may stand before the next one. The proof is an induction on the budget, with one
lemma for each rule.
-/

namespace Ember.Source

open Ember.Source.Parser

/-- Does it end any statement that stands before it? -/
def Lexeme.closes : Lexeme → Bool
  | .symbol .semicolon | .symbol .closeBrace | .finish => true
  | _ => false

/-- The statement ends before the token. -/
def Statement.Ends (s : Statement) (t : Token) : Prop := t.lexeme.closes ∨ s.Stops t

theorem closes_iff {x : Lexeme} :
    x.closes ↔ x = .symbol .semicolon ∨ x = .symbol .closeBrace ∨ x = .finish := by
  unfold Lexeme.closes
  split <;> simp_all

theorem hold_of_closes {x : Lexeme} (h : x.closes) : x.hold = 0 := by
  rcases closes_iff.1 h with rfl | rfl | rfl <;> rfl

theorem closes_of_begins {x : Lexeme} (h : x.begins) : x.closes = false := by
  cases x with
  | symbol s => cases s <;> first | rfl | cases h
  | finish => cases h
  | _ => rfl

/-! ## Names -/

section Names

variable {c c' : Cursor} {s : Symbol} {xs seen : List String} {ts : List Token} {n : Nat}

theorem Names.path (h : Names .dot xs ts) (hc : c.lexeme ≠ .symbol .dot) (hn : ts.length ≤ n) :
    path n (c.before ts) = .ok (xs, c) := by
  induction h generalizing n with
  | last =>
    obtain _ | n := n
    · cases hn
    rw [Parser.path]
    refine bind_eq_ok.2 ⟨_, Cursor.expectName_eq_ok.2 ⟨rfl, rfl⟩, ?_⟩
    exact if_neg (mt Cursor.sees_iff.1 hc)
  | more _ ih =>
    obtain _ | n := n
    · cases hn
    rw [Parser.path]
    refine bind_eq_ok.2 ⟨_, Cursor.expectName_eq_ok.2 ⟨rfl, rfl⟩, ?_⟩
    refine (if_pos Cursor.sees_before).trans ?_
    simp only [List.length_cons] at hn
    exact bind_eq_ok.2 ⟨_, ih (by omega), rfl⟩

theorem path_sound (h : path n c = .ok (xs, c')) : ∃ ts, c = c'.before ts ∧ Names .dot xs ts := by
  induction n generalizing c xs with
  | zero => cases h
  | succ n ih =>
    rw [Parser.path] at h
    obtain ⟨⟨x, c₁⟩, hname, h⟩ := bind_eq_ok.1 h
    obtain ⟨hx, rfl⟩ := Cursor.expectName_eq_ok.1 hname
    dsimp only at h
    by_cases hdot : c.advance.sees .dot
    · rw [if_pos hdot] at h
      obtain ⟨⟨ys, c₂⟩, hrest, h⟩ := bind_eq_ok.1 h
      cases h
      obtain ⟨ts, hts, hnames⟩ := ih hrest
      exact ⟨_, Cursor.before_trans (Cursor.before_token hx nofun)
        (Cursor.before_trans (Cursor.before_token (Cursor.sees_iff.1 hdot) nofun) hts),
        .more hnames⟩
    · rw [if_neg hdot] at h
      cases h
      exact ⟨_, Cursor.before_token hx nofun, .last⟩

theorem Names.parameters (h : Names .comma xs ts) (hd : xs.Nodup) (hs : ∀ x ∈ xs, x ∉ seen)
    (hc : c.lexeme ≠ .symbol .comma) (hn : ts.length ≤ n) :
    parameters n seen (c.before ts) = .ok (xs, c) := by
  induction h generalizing n seen with
  | @last x p =>
    obtain _ | n := n
    · cases hn
    have hx : ¬ seen.contains x := mt List.contains_iff_mem.1 (hs x List.mem_cons_self)
    rw [Parser.parameters]
    refine bind_eq_ok.2 ⟨_, Cursor.expectName_eq_ok.2 ⟨rfl, rfl⟩, ?_⟩
    exact (if_neg hx).trans (if_neg (mt Cursor.sees_iff.1 hc))
  | @more x xs ts p q _ ih =>
    obtain _ | n := n
    · cases hn
    have hx : ¬ seen.contains x := mt List.contains_iff_mem.1 (hs x List.mem_cons_self)
    obtain ⟨hnotin, hd⟩ := List.nodup_cons.1 hd
    have hrest : ∀ y ∈ xs, y ∉ x :: seen := by
      intro y hy hmem
      rcases List.mem_cons.1 hmem with rfl | hmem
      · exact hnotin hy
      · exact hs y (List.mem_cons_of_mem x hy) hmem
    simp only [List.length_cons] at hn
    rw [Parser.parameters]
    refine bind_eq_ok.2 ⟨_, Cursor.expectName_eq_ok.2 ⟨rfl, rfl⟩, ?_⟩
    refine (if_neg hx).trans ((if_pos Cursor.sees_before).trans ?_)
    exact bind_eq_ok.2 ⟨_, ih hd hrest (by omega), rfl⟩

theorem parameters_sound (h : parameters n seen c = .ok (xs, c')) :
    ∃ ts, c = c'.before ts ∧ Names .comma xs ts ∧ xs.Nodup ∧ ∀ x ∈ xs, x ∉ seen := by
  induction n generalizing c xs seen with
  | zero => cases h
  | succ n ih =>
    rw [Parser.parameters] at h
    obtain ⟨⟨x, c₁⟩, hname, h⟩ := bind_eq_ok.1 h
    obtain ⟨hx, rfl⟩ := Cursor.expectName_eq_ok.1 hname
    dsimp only at h
    by_cases hseen : seen.contains x
    · rw [if_pos hseen] at h
      cases h
    rw [if_neg hseen] at h
    rw [List.contains_iff_mem] at hseen
    by_cases hcomma : c.advance.sees .comma
    · rw [if_pos hcomma] at h
      obtain ⟨⟨ys, c₂⟩, hrest, h⟩ := bind_eq_ok.1 h
      cases h
      obtain ⟨ts, hts, hnames, hd, hs⟩ := ih hrest
      have hnotin : x ∉ ys := fun hmem => hs x hmem List.mem_cons_self
      refine ⟨_, Cursor.before_trans (Cursor.before_token hx nofun)
        (Cursor.before_trans (Cursor.before_token (Cursor.sees_iff.1 hcomma) nofun) hts),
        .more hnames, List.nodup_cons.2 ⟨hnotin, hd⟩, fun y hy => ?_⟩
      rcases List.mem_cons.1 hy with rfl | hy
      · exact hseen
      · exact fun hmem => hs y hy (List.mem_cons_of_mem x hmem)
    · rw [if_neg hcomma] at h
      cases h
      refine ⟨_, Cursor.before_token hx nofun, .last, by simp, fun y hy => ?_⟩
      rw [List.mem_singleton.1 hy]
      exact hseen

end Names

/-! ## Statements without blocks -/

/-- The tokens between two cursors complete a statement that begins with those in front. -/
def Statement.Found (s : Statement) (front : List Token) (c c' : Cursor) : Prop :=
  ∃ ts, c = c'.before ts ∧ (∀ m, Laid m (.statement s) (front ++ ts)) ∧ s.Ends c'.token

section Simple

variable {c c' : Cursor} {s : Statement} {p : Place} {n : Nat}

theorem ends_give_iff {line : Nat} : (c.sees .closeBrace || c.sees .semicolon || c.atEnd ||
    c.token.place.line ≠ line) ↔ (Statement.give line none).Ends c.token := by
  simp only [Bool.or_eq_true, Cursor.sees_iff, Cursor.atEnd_iff, decide_eq_true_eq,
    Statement.Ends, Statement.Stops, closes_iff, Cursor.lexeme, ne_eq, or_assoc]
  exact or_left_comm

theorem letStatement_sound (hl : c.levels = 0) (h : letStatement n p.line c = .ok (s, c')) :
    s.Found [⟨.keyword .let_, p⟩] c c' := by
  obtain ⟨⟨x, c₁⟩, hname, h⟩ := bind_eq_ok.1 h
  obtain ⟨hx, rfl⟩ := Cursor.expectName_eq_ok.1 hname
  obtain ⟨c₂, hassign, h⟩ := bind_eq_ok.1 h
  obtain ⟨ha, rfl⟩ := Cursor.expect_eq_ok.1 hassign
  obtain ⟨⟨e, c₃⟩, hvalue, h⟩ := bind_eq_ok.1 h
  cases h
  obtain ⟨ts, hts, he, hhold⟩ := expression_sound hvalue hl
  exact ⟨_, Cursor.before_trans (Cursor.before_token hx nofun)
    (Cursor.before_trans (Cursor.before_token ha nofun) hts), fun _ => .let_ he, .inr hhold⟩

theorem returnStatement_sound (hl : c.levels = 0)
    (h : returnStatement n p.line c = .ok (s, c')) : s.Found [⟨.keyword .return_, p⟩] c c' := by
  unfold returnStatement at h
  by_cases hn : c.sees .closeBrace || c.sees .semicolon || c.atEnd || c.token.place.line ≠ p.line
  · rw [if_pos hn] at h
    cases h
    exact ⟨[], rfl, fun _ => .give, ends_give_iff.1 hn⟩
  · rw [if_neg hn] at h
    obtain ⟨⟨e, c₃⟩, hvalue, h⟩ := bind_eq_ok.1 h
    cases h
    obtain ⟨ts, hts, he, hhold⟩ := expression_sound hvalue hl
    obtain ⟨t, ts, rfl, ho⟩ := he.written.opens nofun
    refine ⟨_, hts, fun _ => .giveValue he ?_, .inr hhold⟩
    subst hts
    exact Decidable.not_not.1 fun hline => hn (ends_give_iff.2 (.inr hline))

theorem raiseStatement_sound (hl : c.levels = 0)
    (h : raiseStatement n p.line c = .ok (s, c')) : s.Found [⟨.keyword .raise, p⟩] c c' := by
  obtain ⟨⟨e, c₁⟩, hvalue, h⟩ := bind_eq_ok.1 h
  cases h
  obtain ⟨ts, hts, he, hhold⟩ := expression_sound hvalue hl
  exact ⟨ts, hts, fun _ => .raise he, .inr hhold⟩

theorem importStatement_sound (h : importStatement n p.line c = .ok (s, c')) :
    s.Found [⟨.keyword .import_, p⟩] c c' := by
  obtain ⟨⟨xs, c₁⟩, hpath, h⟩ := bind_eq_ok.1 h
  obtain ⟨ts, hts, hnames⟩ := path_sound hpath
  dsimp only at h
  by_cases has : c₁.seesKeyword .as
  · rw [if_pos has] at h
    obtain ⟨⟨y, c₂⟩, hname, h⟩ := bind_eq_ok.1 h
    obtain ⟨hy, rfl⟩ := Cursor.expectName_eq_ok.1 hname
    cases h
    exact ⟨_, Cursor.before_trans hts (Cursor.before_trans
      (Cursor.before_token (Cursor.seesKeyword_iff.1 has) nofun) (Cursor.before_token hy nofun)),
      fun _ => .useAs hnames, .inr trivial⟩
  · rw [if_neg has] at h
    cases h
    exact ⟨ts, hts, fun _ => .use hnames, .inr trivial⟩

theorem expressionStatement_sound (hl : c.levels = 0)
    (h : expressionStatement n c.token.place.line c = .ok (s, c')) : s.Found [] c c' := by
  obtain ⟨⟨target, c₁⟩, htarget, h⟩ := bind_eq_ok.1 h
  obtain ⟨ts, rfl, he, hhold⟩ := expression_sound htarget hl
  obtain ⟨t, ts, rfl, -⟩ := he.written.opens nofun
  dsimp only at h
  by_cases ha : c₁.sees .assign
  · rw [if_pos ha] at h
    obtain ⟨⟨value, c₂⟩, hvalue, h⟩ := bind_eq_ok.1 h
    obtain ⟨us, hus, hf, hhold⟩ := expression_sound hvalue hl
    have hts := Cursor.before_trans (c := c₁.before (t :: ts)) rfl (Cursor.before_trans
      (Cursor.before_token (Cursor.sees_iff.1 ha) nofun) hus)
    dsimp only at h
    split at h
    · cases h
      exact ⟨_, hts, fun _ => .assign he hf, .inr hhold⟩
    · cases h
      exact ⟨_, hts, fun _ => .setAttribute he hf, .inr hhold⟩
    · cases h
  · rw [if_neg ha] at h
    cases h
    exact ⟨_, rfl, fun _ => .expr he, .inr hhold⟩

end Simple

/-! ## What is read is written -/

/-- The tokens between two cursors write the form. -/
def Form.Found (f : Form) (c c' : Cursor) : Prop :=
  ∃ ts, c = c'.before ts ∧ Laid (maxBlocks - c.blocks) f ts

theorem signature_sound {c c' : Cursor} {n : Nat} {f : String} {xs : List String}
    (h : signature n c = .ok ((f, xs), c')) : ∃ ts q r z, Parameters xs ts ∧
      c = c'.before (⟨.name f, q⟩ :: ⟨.symbol .openParen, r⟩ ::
        (ts ++ [⟨.symbol .closeParen, z⟩])) := by
  obtain ⟨⟨g, c₁⟩, hname, h⟩ := bind_eq_ok.1 h
  obtain ⟨hg, rfl⟩ := Cursor.expectName_eq_ok.1 hname
  obtain ⟨c₂, hopen, h⟩ := bind_eq_ok.1 h
  obtain ⟨ho, rfl⟩ := Cursor.expect_eq_ok.1 hopen
  obtain ⟨ys, c₃, ts, hts, hp, h⟩ : ∃ (ys : List String) (c₃ : Cursor) (ts : List Token),
      c.advance.advance = c₃.before ts ∧ Parameters ys ts ∧
      (do let c ← c₃.expect .closeParen; return ((g, ys), c) : Except Stop (Read _)) =
        .ok ((f, xs), c') := by
    dsimp only at h
    by_cases hnone : c.advance.advance.sees .closeParen
    · rw [if_pos hnone] at h
      exact ⟨_, _, [], rfl, .none, h⟩
    · rw [if_neg hnone] at h
      obtain ⟨⟨ys, c₃⟩, hparams, h⟩ := bind_eq_ok.1 h
      obtain ⟨ts, hts, hnames, hd, -⟩ := parameters_sound hparams
      exact ⟨ys, c₃, ts, hts, .some hnames hd, h⟩
  obtain ⟨c₄, hclose, h⟩ := bind_eq_ok.1 h
  obtain ⟨hc, rfl⟩ := Cursor.expect_eq_ok.1 hclose
  cases h
  exact ⟨ts, _, _, _, hp, Cursor.before_trans (Cursor.before_token hg nofun)
    (Cursor.before_trans (Cursor.before_token ho nofun)
      (Cursor.before_trans hts (Cursor.before_token hc nofun)))⟩

/-- A rule for statements that succeeds has gone past tokens that write what it returns. -/
structure StatementRules (n : Nat) : Prop where
  bareStatement : ∀ {c c' : Cursor} {s : Statement}, c.levels = 0 →
    bareStatement n c = .ok (s, c') → (Form.statement s).Found c c' ∧ s.Ends c'.token
  statement : ∀ {c c' : Cursor} {s : Statement}, c.levels = 0 → statement n c = .ok (s, c') →
    ∃ c₁, (Form.statement s).Found c c₁ ∧ s.Ends c₁.token ∧ c₁.skip .semicolon = c'
  conditional : ∀ {c c' : Cursor} {line : Nat} {s : Statement}, c.levels = 0 →
    conditional n line c = .ok (s, c') →
    (Form.conditional s).Found c c' ∧ s.line = line ∧ ∀ t, s.Stops t
  block : ∀ {c c' : Cursor} {body : List Statement}, c.levels = 0 →
    block n c = .ok (body, c') → (Form.block body).Found c c'
  statements : ∀ {c c' : Cursor} {inner : Bool} {ss : List Statement}, c.levels = 0 →
    statements n inner c = .ok (ss, c') → (Form.statements ss).Found c c' ∧
      (c'.lexeme = .finish ∨ inner ∧ c'.lexeme = .symbol .closeBrace)

namespace StatementRules

variable {n line : Nat} {c c' : Cursor} {s : Statement} {ss body : List Statement} {inner : Bool}

theorem block_succ (ih : StatementRules n) (hl : c.levels = 0)
    (h : Parser.block (n + 1) c = .ok (body, c')) : (Form.block body).Found c c' := by
  rw [Parser.block] at h
  obtain ⟨c₁, he, h⟩ := bind_eq_ok.1 h
  obtain ⟨c₂, hopen, h⟩ := bind_eq_ok.1 h
  obtain ⟨ho, rfl⟩ := Cursor.expect_eq_ok.1 hopen
  obtain ⟨⟨ss, c₃⟩, hbody, h⟩ := bind_eq_ok.1 h
  obtain ⟨c₄, hclose, h⟩ := bind_eq_ok.1 h
  obtain ⟨hc, rfl⟩ := Cursor.expect_eq_ok.1 hclose
  cases h
  have hl : c₁.advance.levels = 0 := by
    obtain ⟨-, rfl⟩ := Cursor.enterBlock_eq_ok.1 he
    exact hl
  obtain ⟨⟨ts, hts, hlaid⟩, -⟩ := ih.statements hl hbody
  obtain ⟨heq, hblocks⟩ := Cursor.before_leaveBlock he (Cursor.before_trans
    (Cursor.before_token ho nofun) (Cursor.before_trans hts (Cursor.before_token hc nofun)))
  refine ⟨_, heq, ?_⟩
  rw [hblocks]
  exact .block hlaid

theorem conditional_succ (ih : StatementRules n) (hl : c.levels = 0)
    (h : Parser.conditional (n + 1) line c = .ok (s, c')) :
    (Form.conditional s).Found c c' ∧ s.line = line ∧ ∀ t, s.Stops t := by
  rw [Parser.conditional] at h
  obtain ⟨⟨e, c₁⟩, hcondition, h₁⟩ := bind_eq_ok.1 h
  obtain ⟨⟨body, c₂⟩, hblock, h₂⟩ := bind_eq_ok.1 h₁
  obtain ⟨ts, rfl, he, -⟩ := expression_sound hcondition hl
  obtain ⟨us, rfl, hbody⟩ := ih.block (c := c₁) hl hblock
  dsimp only at h₂
  by_cases helse : c₂.seesKeyword .else_
  · rw [if_pos helse] at h₂
    have helse := Cursor.before_token (Cursor.seesKeyword_iff.1 helse) nofun
    by_cases hif : c₂.advance.seesKeyword .if_
    · rw [if_pos hif] at h₂
      obtain ⟨c₃, henter, h₃⟩ := bind_eq_ok.1 h₂
      obtain ⟨⟨t, c₄⟩, ht, h₄⟩ := bind_eq_ok.1 h₃
      cases h₄
      have hc₃ : c₃ = { c₂.advance with blocks := c₂.advance.blocks + 1 } :=
        (Cursor.enterBlock_eq_ok.1 henter).2.symm
      have hif : c₃ = c₃.advance.before [⟨.keyword .if_, c₂.advance.token.place⟩] := by
        subst hc₃
        exact Cursor.before_token (Cursor.seesKeyword_iff.1 hif) nofun
      obtain ⟨⟨vs, hvs, ht⟩, hline, -⟩ := ih.conditional (by rw [hc₃]; exact hl) ht
      obtain ⟨hvs, hblocks⟩ := Cursor.before_leaveBlock henter (Cursor.before_trans hif hvs)
      refine ⟨⟨_, Cursor.before_trans rfl (Cursor.before_trans rfl
        (Cursor.before_trans helse hvs)), ?_⟩, rfl, fun _ => trivial⟩
      show Laid (maxBlocks - c₂.advance.blocks) _ _
      have hbody : Laid (maxBlocks - c₂.advance.blocks) _ us := hbody
      rw [hblocks] at hbody ⊢
      exact .elseIf he hbody ht hline
    · rw [if_neg hif] at h₂
      obtain ⟨⟨other, c₃⟩, hother, h₃⟩ := bind_eq_ok.1 h₂
      cases h₃
      obtain ⟨vs, hvs, hother⟩ := ih.block (c := c₂.advance) hl hother
      exact ⟨⟨_, Cursor.before_trans rfl (Cursor.before_trans rfl
        (Cursor.before_trans helse hvs)), .choose he hbody hother⟩, rfl, fun _ => trivial⟩
  · rw [if_neg helse] at h₂
    cases h₂
    exact ⟨⟨_, Cursor.before_trans rfl rfl, .when he hbody⟩, rfl, fun _ => trivial⟩

theorem bareStatement_succ (ih : StatementRules n) (hl : c.levels = 0)
    (h : Parser.bareStatement (n + 1) c = .ok (s, c')) :
    (Form.statement s).Found c c' ∧ s.Ends c'.token := by
  rw [Parser.bareStatement] at h
  have hfound : ∀ {x : Lexeme}, c.lexeme = x → x ≠ .finish →
      s.Found [⟨x, c.token.place⟩] c.advance c' →
      (Form.statement s).Found c c' ∧ s.Ends c'.token := by
    rintro x hx hne ⟨ts, hts, hlaid, hends⟩
    exact ⟨⟨_, Cursor.before_trans (Cursor.before_token hx hne) hts, hlaid _⟩, hends⟩
  dsimp only at h
  split at h
  case h_1 hx => exact hfound hx nofun (letStatement_sound hl h)
  case h_2 hx =>
    obtain ⟨⟨⟨f, xs⟩, c₁⟩, hsignature, h₁⟩ := bind_eq_ok.1 h
    obtain ⟨⟨body, c₂⟩, hblock, h₂⟩ := bind_eq_ok.1 h₁
    cases h₂
    obtain ⟨ts, q, r, z, hparams, hts⟩ := signature_sound hsignature
    have hl₁ : c₁.levels = 0 := (congrArg Cursor.levels hts).symm.trans hl
    have hb : c₁.blocks = c.blocks := (congrArg Cursor.blocks hts).symm
    obtain ⟨us, hus, hbody⟩ := ih.block hl₁ hblock
    rw [hb] at hbody
    refine ⟨⟨_, Cursor.before_trans (Cursor.before_token hx nofun)
      (Cursor.before_trans hts hus), ?_⟩, .inr trivial⟩
    simp only [List.cons_append, List.nil_append, List.append_assoc]
    exact .function hparams hbody
  case h_3 hx =>
    obtain ⟨⟨ts, hts, hlaid⟩, hline, hstops⟩ := ih.conditional (c := c.advance) hl h
    exact ⟨⟨_, Cursor.before_trans (Cursor.before_token hx nofun) hts,
      .conditional hlaid hline⟩, .inr (hstops _)⟩
  case h_4 hx =>
    obtain ⟨⟨e, c₁⟩, hcondition, h₁⟩ := bind_eq_ok.1 h
    obtain ⟨⟨body, c₂⟩, hblock, h₂⟩ := bind_eq_ok.1 h₁
    cases h₂
    obtain ⟨ts, hts, he, -⟩ := expression_sound (c := c.advance) hcondition hl
    have hl₁ : c₁.levels = 0 := (congrArg Cursor.levels hts).symm.trans hl
    have hb : c₁.blocks = c.blocks := (congrArg Cursor.blocks hts).symm
    obtain ⟨us, hus, hbody⟩ := ih.block hl₁ hblock
    rw [hb] at hbody
    have hlaid := Laid.loop (p := c.token.place) he hbody
    exact ⟨⟨_, Cursor.before_trans (Cursor.before_token hx nofun)
      (Cursor.before_trans hts hus), hlaid⟩, .inr trivial⟩
  case h_5 hx => exact hfound hx nofun (returnStatement_sound hl h)
  case h_6 hx => exact hfound hx nofun (importStatement_sound h)
  case h_7 hx => exact hfound hx nofun (raiseStatement_sound hl h)
  case h_8 =>
    obtain ⟨ts, hts, hlaid, hends⟩ := expressionStatement_sound hl h
    exact ⟨⟨ts, hts, hlaid _⟩, hends⟩

theorem statement_succ (ih : StatementRules n) (hl : c.levels = 0)
    (h : Parser.statement (n + 1) c = .ok (s, c')) :
    ∃ c₁, (Form.statement s).Found c c₁ ∧ s.Ends c₁.token ∧ c₁.skip .semicolon = c' := by
  rw [Parser.statement] at h
  obtain ⟨⟨s, c₁⟩, hs, h⟩ := bind_eq_ok.1 h
  cases h
  obtain ⟨hfound, hends⟩ := ih.bareStatement hl hs
  exact ⟨c₁, hfound, hends, rfl⟩

theorem statements_succ (ih : StatementRules n) (hl : c.levels = 0)
    (h : Parser.statements (n + 1) inner c = .ok (ss, c')) : (Form.statements ss).Found c c' ∧
      (c'.lexeme = .finish ∨ inner ∧ c'.lexeme = .symbol .closeBrace) := by
  rw [Parser.statements] at h
  by_cases hend : c.atEnd || (inner && c.sees .closeBrace)
  · rw [if_pos hend] at h
    cases h
    rw [Bool.or_eq_true, Bool.and_eq_true, Cursor.atEnd_iff, Cursor.sees_iff] at hend
    exact ⟨⟨[], rfl, .nil⟩, hend⟩
  rw [if_neg hend] at h
  by_cases hsemi : c.sees .semicolon
  · rw [if_pos hsemi] at h
    obtain ⟨⟨ts, hts, hlaid⟩, hstop⟩ := ih.statements (c := c.advance) hl h
    exact ⟨⟨_, Cursor.before_trans (Cursor.before_token (Cursor.sees_iff.1 hsemi) nofun) hts,
      .semicolon hlaid⟩, hstop⟩
  rw [if_neg hsemi] at h
  obtain ⟨⟨s, c₂⟩, hs, h₁⟩ := bind_eq_ok.1 h
  obtain ⟨⟨rest, c₃⟩, hrest, h₂⟩ := bind_eq_ok.1 h₁
  cases h₂
  obtain ⟨c₁, ⟨ts, rfl, hlaid⟩, hends, rfl⟩ := ih.statement hl hs
  unfold Cursor.skip at hrest
  by_cases hsemi : c₁.sees .semicolon
  · rw [if_pos hsemi] at hrest
    obtain ⟨⟨us, hus, hrest⟩, hstop⟩ := ih.statements (c := c₁.advance) hl hrest
    exact ⟨⟨_, Cursor.before_trans rfl
      (Cursor.before_trans (Cursor.before_token (Cursor.sees_iff.1 hsemi) nofun) hus),
      .followed hlaid hrest⟩, hstop⟩
  · rw [if_neg hsemi] at hrest
    obtain ⟨⟨us, hus, hrest⟩, hstop⟩ := ih.statements (c := c₁) hl hrest
    refine ⟨⟨_, Cursor.before_trans rfl hus, .bare hlaid hrest fun t ht => ?_⟩, hstop⟩
    obtain ⟨vs, rfl⟩ : ∃ vs, us = t :: vs := List.head?_eq_some_iff.1 ht
    subst hus
    -- What follows begins a statement, so it closes nothing.
    rcases hends with hcloses | hstops
    · rcases hrest.head rfl with hx | hb
      · exact absurd (Cursor.sees_iff.2 (show (c'.before (t :: vs)).lexeme = _ from hx)) hsemi
      · exact absurd hcloses (Bool.eq_false_iff.1 (closes_of_begins hb))
    · exact hstops

end StatementRules

theorem statementRules : ∀ n : Nat, StatementRules n
  | 0 => {
      bareStatement := nofun
      statement := nofun
      conditional := nofun
      block := nofun
      statements := nofun }
  | n + 1 =>
    have ih := statementRules n
    { bareStatement := ih.bareStatement_succ
      statement := ih.statement_succ
      conditional := ih.conditional_succ
      block := ih.block_succ
      statements := ih.statements_succ }

end Ember.Source
