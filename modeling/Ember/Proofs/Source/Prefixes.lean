import Ember.Proofs.Source.Cuts

/-!
# Programs that are cut off

**Theorem (`cutOff_of_ofTokens`).** If a list of tokens is read as a program, then reading the front
of it either succeeds, or fails since the text has ended, or fails at the end with one of two faults
that do not say so: a name is missing, or the arguments of a call are and no level is left for them.

The rules for statements are followed through the two lists as those for expressions are
(`Cut.statements`). A statement is never looked for at the cut: a block or a program ends there. The
budget of the shorter list is enough for it, whatever the longer one took (`program_ne_budget`).
-/

namespace Ember.Source

open Ember.Source.Parser

namespace Cut

variable {k : Cut} {m n line : Nat} {c c' c₁ d : Cursor} {us : List Token} {x : String}
  {xs seen : List String} {e : Expr} {s : Statement} {ss body : List Statement} {inner : Bool}

/-! ## Names -/

theorem path_meets (hp : k.Pair us c d) (hrole : us = [] → NameRole.module.follows k.last)
    (h : path n c = .ok (xs, c')) : k.Meets Whatever xs c' (path m d) := by
  induction m generalizing us c c' d n xs with
  | zero => exact .stopped .budget
  | succ m ih =>
    have hopen : AsOpen c c' := by
      obtain ⟨ts, hts, hnames⟩ := path_sound h
      exact .of_passed (.names hnames hts)
    obtain _ | n := n
    · cases h
    rw [path] at h ⊢
    obtain ⟨⟨y, c₁⟩, hname, h⟩ := bind_eq_ok.1 h
    refine hp.bind_name hrole hname fun vs d₁ hp => ?_
    refine hp.branch (hp.look_sees .dot) (hopen.behind (.name hname))
      (fun hc hnext hlast => .map (ih hnext fun hvs => ?_)) h
    rw [← hlast hvs, Cursor.sees_iff.1 hc]
    rfl

theorem parameters_meets (hp : k.Pair us c d)
    (hrole : us = [] → NameRole.parameter.follows k.last)
    (h : parameters n seen c = .ok (xs, c')) :
    k.Meets Whatever xs c' (parameters m seen d) := by
  induction m generalizing us c c' d n xs seen with
  | zero => exact .stopped .budget
  | succ m ih =>
    have hopen : AsOpen c c' := by
      obtain ⟨ts, hts, hnames, -⟩ := parameters_sound h
      exact .of_passed (.names hnames hts)
    obtain _ | n := n
    · cases h
    rw [parameters] at h ⊢
    obtain ⟨⟨y, c₁⟩, hname, h⟩ := bind_eq_ok.1 h
    refine hp.bind_name hrole hname fun vs d₁ hp => ?_
    dsimp only at h ⊢
    by_cases hseen : seen.contains y
    · rw [if_pos hseen] at h
      cases h
    rw [if_neg hseen] at h ⊢
    refine hp.branch (hp.look_sees .comma) (hopen.behind (.name hname))
      (fun hc hnext hlast => .map (ih hnext fun hvs => ?_)) h
    rw [← hlast hvs, Cursor.sees_iff.1 hc]
    rfl

theorem Ended.parameters (h : k.Ended c d) (m : Nat)
    (hrole : NameRole.parameter.follows k.last) : k.Fails (parameters m seen d) := by
  obtain _ | m := m
  · exact ⟨_, rfl, .budget⟩
  · rw [Parser.parameters]
    exact (h.expectName hrole).bind _

theorem signature_meets {f : String × List String} (hp : k.Pair us c d)
    (hrole : us = [] → NameRole.function.follows k.last) (h : signature n c = .ok (f, c')) :
    k.Meets Whatever f c' (signature m d) := by
  obtain ⟨⟨g, c₁⟩, hname, h⟩ := bind_eq_ok.1 h
  obtain ⟨c₂, hopen, h⟩ := bind_eq_ok.1 h
  refine hp.bind_name hrole hname fun _ d₁ hp => hp.bind_expect hopen fun vs d₂ hp hlast => ?_
  dsimp only at h ⊢
  cases hp.sight with
  | ended hvs hend =>
    rw [if_neg (hend.sees _)]
    refine ((hend.parameters m ?_).bind _).meets
    rw [hlast hvs]
    rfl
  | token hvs _ hx _ _ =>
    rw [Cursor.sees_congr hx]
    by_cases hnone : c₂.sees .closeParen
    · rw [if_pos hnone] at h ⊢
      obtain ⟨c₃, hclose, h⟩ :=
        bind_eq_ok.1 (show (do let c ← c₂.expect .closeParen; return ((g, []), c) :
          Except Stop (Read (String × List String))) = .ok (f, c') from h)
      cases h
      exact hp.bind_expect hclose fun _ _ hp _ => .same hp
    · rw [if_neg hnone] at h ⊢
      obtain ⟨⟨ys, c₃⟩, hparams, h⟩ := bind_eq_ok.1 h
      obtain ⟨c₄, hclose, h⟩ := bind_eq_ok.1 h
      cases h
      refine (parameters_meets hp (fun hnil => absurd hnil hvs) hparams).bind (fun _ _ hp => ?_)
        fun _ _ _ hend => ((hend.expect _).bind _).meets
      exact hp.bind_expect hclose fun _ _ hp _ => .same hp

/-! ## Statements without blocks -/

theorem expression_meets (hp : k.Pair us c d) (h : expression n c = .ok (e, c')) :
    k.Meets Whatever e c' (expression m d) := by
  exact .map (f := Prod.fst) ((expressions k m).nested hp) h

theorem letStatement_meets (hp : k.Pair us c d)
    (hrole : us = [] → NameRole.variable.follows k.last)
    (h : letStatement n line c = .ok (s, c')) :
    k.Meets Whatever s c' (letStatement m line d) := by
  obtain ⟨⟨x, c₁⟩, hname, h⟩ := bind_eq_ok.1 h
  obtain ⟨c₂, hassign, h⟩ := bind_eq_ok.1 h
  refine hp.bind_name hrole hname fun _ _ hp => hp.bind_expect hassign fun _ _ hp _ => ?_
  exact .map (f := Statement.assign line x) (expression_meets hp) h

theorem raiseStatement_meets (hp : k.Pair us c d) (h : raiseStatement n line c = .ok (s, c')) :
    k.Meets Whatever s c' (raiseStatement m line d) :=
  .map (f := Statement.raise line) (expression_meets hp) h

theorem returnStatement_meets (hopen : AsOpen c c') (hp : k.Pair us c d)
    (h : returnStatement n line c = .ok (s, c')) :
    k.Meets Whatever s c' (returnStatement m line d) := by
  unfold returnStatement at h ⊢
  cases hp.sight with
  | ended _ hend =>
    rw [if_pos (by simp [hend.atEnd])]
    exact .ended trivial (hend.move hopen)
  | token _ htoken hx _ _ =>
    rw [Cursor.sees_congr hx, Cursor.sees_congr hx, Cursor.atEnd_congr hx, htoken]
    split at h
    · next hnone =>
      cases h
      rw [if_pos hnone]
      exact .same hp
    · next hvalue =>
      rw [if_neg hvalue]
      exact .map (f := fun e => Statement.give line (some e)) (expression_meets hp) h

theorem importStatement_meets (hopen : AsOpen c c') (hp : k.Pair us c d)
    (hrole : us = [] → NameRole.module.follows k.last)
    (h : importStatement n line c = .ok (s, c')) :
    k.Meets Whatever s c' (importStatement m line d) := by
  obtain ⟨⟨xs, c₁⟩, hpath, h⟩ := bind_eq_ok.1 h
  have hopen : AsOpen c₁ c' := by
    obtain ⟨ts, hts, hnames⟩ := path_sound hpath
    exact hopen.behind (.names hnames hts)
  refine (path_meets hp hrole hpath).bind (fun _ _ hp => ?_) fun _ _ _ hend => ?_
  · refine hp.branch (hp.look_seesKeyword .as) hopen (fun has hnext hlast h => ?_) h
    obtain ⟨⟨y, c₂⟩, hname, h⟩ := bind_eq_ok.1 h
    cases h
    refine hnext.bind_name (fun hvs => ?_) hname fun _ _ hp => .same hp
    rw [← hlast hvs, Cursor.seesKeyword_iff.1 has]
    rfl
  · exact hend.branch (Bool.eq_false_iff.2 (hend.seesKeyword .as)) hopen

theorem expressionStatement_meets (hopen : AsOpen c c') (hp : k.Pair us c d)
    (h : expressionStatement n line c = .ok (s, c')) :
    k.Meets Whatever s c' (expressionStatement m line d) := by
  obtain ⟨⟨target, c₁⟩, htarget, h⟩ := bind_eq_ok.1 h
  have hopen : AsOpen c₁ c' := hopen.behind (passed_expression htarget)
  refine (expression_meets hp htarget).bind (fun _ _ hp => ?_) fun _ _ _ hend => ?_
  · refine hp.branch (hp.look_sees .assign) hopen (fun _ hnext _ h => ?_) h
    obtain ⟨⟨e, c₂⟩, hvalue, h⟩ := bind_eq_ok.1 h
    refine (expression_meets hnext hvalue).bind (fun _ _ hp => ?_) fun _ _ _ hend => ?_ <;>
      dsimp only at h ⊢ <;> split at h <;> cases h
    · exact .same hp
    · exact .same hp
    · exact .ended trivial hend
    · exact .ended trivial hend
  · exact hend.branch (Bool.eq_false_iff.2 (hend.sees _)) hopen

/-! ## Statements with blocks -/

/-- How rules for statements answer in the list that is cut, with `m` steps of budget. -/
structure Statements (k : Cut) (m : Nat) : Prop where
  bareStatement : ∀ {us : List Token} {c c' d : Cursor} {n : Nat} {s : Statement}, c.levels = 0 →
    k.Pair us c d → us ≠ [] → bareStatement n c = .ok (s, c') →
    k.Meets Whatever s c' (bareStatement m d)
  statement : ∀ {us : List Token} {c c' d : Cursor} {n : Nat} {s : Statement}, c.levels = 0 →
    k.Pair us c d → us ≠ [] → statement n c = .ok (s, c') → k.Meets Whatever s c' (statement m d)
  conditional : ∀ {us : List Token} {c c' d : Cursor} {n line : Nat} {s : Statement},
    c.levels = 0 → k.Pair us c d → conditional n line c = .ok (s, c') →
    k.Meets Whatever s c' (conditional m line d)
  block : ∀ {us : List Token} {c c' d : Cursor} {n : Nat} {body : List Statement}, c.levels = 0 →
    k.Pair us c d → block n c = .ok (body, c') → k.Meets Whatever body c' (block m d)
  statements : ∀ {us : List Token} {c c' d : Cursor} {n : Nat} {inner : Bool}
    {ss : List Statement}, c.levels = 0 → k.Pair us c d → statements n inner c = .ok (ss, c') →
    k.Meets Whatever ss c' (statements m inner d)

theorem blocks_lt_of_block (h : block n c = .ok (body, c')) : c.blocks < maxBlocks := by
  obtain _ | n := n
  · cases h
  rw [block] at h
  obtain ⟨c₁, henter, -⟩ := bind_eq_ok.1 h
  exact (Cursor.enterBlock_eq_ok.1 henter).1

theorem Ended.block (h : k.Ended c d) (hb : c.blocks < maxBlocks) (m : Nat) :
    k.Fails (Parser.block m d) := by
  obtain _ | m := m
  · exact ⟨_, rfl, .budget⟩
  rw [← h.blocks] at hb
  rw [Parser.block, Cursor.enterBlock_eq_ok.2 ⟨hb, rfl⟩]
  have h : k.Ended { c with blocks := c.blocks + 1 } { d with blocks := d.blocks + 1 } :=
    ⟨h.part, h.levels, congrArg Nat.succ h.blocks⟩
  exact (h.expect _).bind _

theorem Ended.statements (h : k.Ended c d) (m : Nat) (inner : Bool) :
    Parser.statements m inner d = .ok ([], d) ∨ k.Fails (Parser.statements m inner d) := by
  obtain _ | m := m
  · exact .inr ⟨_, rfl, .budget⟩
  · rw [Parser.statements, if_pos (by simp [h.atEnd])]
    exact .inl rfl

theorem passed_statements (hl : c.levels = 0) (h : statements n inner c = .ok (ss, c')) :
    Passed false c c' :=
  (passed_of_run (r := .statements inner) hl (product_eq_ok.2 ⟨_, h, rfl⟩)).1

namespace Statements

theorem block_succ (ih : k.Statements m) (hl : c.levels = 0) (hp : k.Pair us c d)
    (h : Parser.block n c = .ok (body, c')) :
    k.Meets Whatever body c' (Parser.block (m + 1) d) := by
  obtain _ | n := n
  · cases h
  rw [Parser.block] at h ⊢
  obtain ⟨c₁, henter, h⟩ := bind_eq_ok.1 h
  obtain ⟨c₂, hopen, h⟩ := bind_eq_ok.1 h
  obtain ⟨⟨ss, c₃⟩, hbody, h⟩ := bind_eq_ok.1 h
  obtain ⟨c₄, hclose, h⟩ := bind_eq_ok.1 h
  cases h
  have hl : c₂.levels = 0 :=
    (Passed.expect hopen).levels.trans ((levels_of_enterBlock henter).trans hl)
  refine hp.bind_enterBlock henter fun _ hp => hp.bind_expect hopen fun _ _ hp _ => ?_
  refine (ih.statements hl hp hbody).bind (fun _ _ hp => ?_) fun _ _ _ hend => ?_
  · exact hp.bind_expect hclose fun _ _ hp _ => .same hp.leaveBlock
  · exact ((hend.expect _).bind _).meets

theorem statements_succ (ih : k.Statements m) (hl : c.levels = 0) (hp : k.Pair us c d)
    (h : Parser.statements n inner c = .ok (ss, c')) :
    k.Meets Whatever ss c' (Parser.statements (m + 1) inner d) := by
  cases hp.sight with
  | ended _ hend =>
    rw [Parser.statements, if_pos (by simp [hend.atEnd])]
    exact .ended trivial (hend.move (.of_passed (passed_statements hl h)))
  | token hus _ hx hnext _ =>
    obtain _ | n := n
    · cases h
    rw [Parser.statements] at h ⊢
    rw [Cursor.sees_congr hx, Cursor.sees_congr hx, Cursor.atEnd_congr hx]
    by_cases hstop : c.atEnd || (inner && c.sees .closeBrace)
    · rw [if_pos hstop] at h ⊢
      cases h
      exact .same hp
    rw [if_neg hstop] at h ⊢
    by_cases hsemi : c.sees .semicolon
    · rw [if_pos hsemi] at h ⊢
      exact ih.statements (c := c.advance) hl hnext h
    rw [if_neg hsemi] at h ⊢
    obtain ⟨⟨s, c₁⟩, hs, h⟩ := bind_eq_ok.1 h
    have hpassed : Passed true c c₁ :=
      (passed_of_run (r := .statement) hl (product_eq_ok.2 ⟨_, hs, rfl⟩)).1
    have hl₁ : c₁.levels = 0 := hpassed.levels.trans hl
    refine (ih.statement hl hp hus hs).bind (fun _ _ hp => ?_) fun _ d₁ _ hend => ?_
    · exact .map (f := (s :: ·)) (ih.statements hl₁ hp) h
    -- The statement is the last one in front of the cut; there may be more in the whole list.
    · obtain hnone | hfails := hend.statements m inner
      · obtain ⟨⟨rest, c₂⟩, hrest, h⟩ := bind_eq_ok.1 h
        cases h
        dsimp only
        rw [hnone]
        exact .ended trivial (hend.move (.of_passed (passed_statements hl₁ hrest)))
      · exact (hfails.bind _).meets

theorem statement_succ (ih : k.Statements m) (hl : c.levels = 0) (hp : k.Pair us c d)
    (hus : us ≠ []) (h : Parser.statement n c = .ok (s, c')) :
    k.Meets Whatever s c' (Parser.statement (m + 1) d) := by
  obtain _ | n := n
  · cases h
  rw [Parser.statement] at h ⊢
  obtain ⟨⟨s, c₁⟩, hs, h⟩ := bind_eq_ok.1 h
  cases h
  have hpassed : Passed false c₁ (c₁.skip .semicolon) := by
    unfold Cursor.skip
    split
    · exact (Passed.sees ‹_›).lax
    · exact .refl
  refine (ih.bareStatement hl hp hus hs).bind (fun _ d₁ hp => ?_) fun _ d₁ _ hend => ?_
  · have hlook := hp.look_sees .semicolon
    -- Only one of the two runs may see the semicolon.
    dsimp only
    simp only [Cursor.skip] at hpassed ⊢
    generalize c₁.sees .semicolon = p at hlook hpassed
    generalize d₁.sees .semicolon = p' at hlook
    cases hlook with
    | both hnext _ => exact .same hnext
    | neither => exact .same hp
    | cut hend => exact .ended trivial (hend.move (.of_passed hpassed))
  · have hskip : d₁.skip .semicolon = d₁ := if_neg (hend.sees _)
    dsimp only
    rw [hskip]
    exact .ended trivial (hend.move (.of_passed hpassed))

/-- Behind `else`. -/
theorem alternative (ih : k.Statements m) (hl : c.levels = 0) (hp : k.Pair us c d)
    (h : (if c.seesKeyword .if_ then do
        let inner := c.token.place.line
        let c ← c.enterBlock
        let (s, c) ← Parser.conditional n inner c.advance
        return (Statement.choose line e body [s], c.leaveBlock)
      else do
        let (other, c) ← Parser.block n c
        return (Statement.choose line e body other, c)) = .ok (s, c')) :
    k.Meets Whatever s c' (if d.seesKeyword .if_ then do
        let inner := d.token.place.line
        let c ← d.enterBlock
        let (s, c) ← Parser.conditional m inner c.advance
        return (Statement.choose line e body [s], c.leaveBlock)
      else do
        let (other, c) ← Parser.block m d
        return (Statement.choose line e body other, c)) := by
  cases hp.sight with
  | ended _ hend =>
    -- A block or a condition is behind `else`, for which one more block may be open.
    have hb : c.blocks < maxBlocks := by
      by_cases hif : c.seesKeyword .if_
      · rw [if_pos hif] at h
        obtain ⟨c₁, henter, -⟩ := bind_eq_ok.1 h
        exact (Cursor.enterBlock_eq_ok.1 henter).1
      · rw [if_neg hif] at h
        obtain ⟨⟨other, c₁⟩, hother, -⟩ := bind_eq_ok.1 h
        exact blocks_lt_of_block hother
    rw [if_neg (hend.seesKeyword _)]
    exact ((hend.block hb m).bind _).meets
  | token hus htoken hx hnext _ =>
    rw [Cursor.seesKeyword_congr hx, htoken]
    by_cases hif : c.seesKeyword .if_
    · rw [if_pos hif] at h ⊢
      obtain ⟨c₁, henter, h⟩ := bind_eq_ok.1 h
      obtain ⟨⟨t, c₂⟩, ht, h⟩ := bind_eq_ok.1 h
      cases h
      refine hp.bind_enterBlock henter fun d₁ hp => ?_
      cases hp.sight with
      | ended hnil _ => exact absurd hnil hus
      | token _ _ _ hnext _ =>
        have hl : c₁.advance.levels = 0 := (levels_of_enterBlock henter).trans hl
        exact (ih.conditional hl hnext ht).bind (fun _ _ hp => .same hp.leaveBlock)
          fun _ _ _ hend => .ended trivial hend.leaveBlock
    · rw [if_neg hif] at h ⊢
      exact .map (f := Statement.choose line e body) (ih.block hl hp) h

theorem conditional_succ (ih : k.Statements m) (hl : c.levels = 0) (hp : k.Pair us c d)
    (h : Parser.conditional n line c = .ok (s, c')) :
    k.Meets Whatever s c' (Parser.conditional (m + 1) line d) := by
  have hopen : AsOpen c c' :=
    .of_passed (passed_of_run (r := .conditional line) hl (product_eq_ok.2 ⟨_, h, rfl⟩)).1
  obtain _ | n := n
  · cases h
  rw [Parser.conditional] at h ⊢
  obtain ⟨⟨e, c₁⟩, he, h⟩ := bind_eq_ok.1 h
  obtain ⟨⟨body, c₂⟩, hbody, h⟩ := bind_eq_ok.1 h
  have hl₁ : c₁.levels = 0 := (passed_expression he).levels.trans hl
  have hl₂ : c₂.levels = 0 := (passed_block hl₁ hbody).levels.trans hl₁
  have hopen : AsOpen c₂ c' :=
    (hopen.behind (passed_expression he)).behind (passed_block hl₁ hbody)
  refine (expression_meets hp he).bind (fun _ _ hp => ?_) fun _ _ _ hend =>
    ((hend.block (blocks_lt_of_block hbody) m).bind _).meets
  refine (ih.block hl₁ hp hbody).bind (fun _ d₂ hp => ?_) fun _ d₂ _ hend => ?_
  · exact hp.branch (hp.look_seesKeyword .else_) hopen
      (fun _ hnext _ => ih.alternative (c := c₂.advance) hl₂ hnext) h
  · exact hend.branch (Bool.eq_false_iff.2 (hend.seesKeyword _)) hopen

theorem bareStatement_succ (ih : k.Statements m) (hl : c.levels = 0) (hp : k.Pair us c d)
    (hus : us ≠ []) (h : Parser.bareStatement n c = .ok (s, c')) :
    k.Meets Whatever s c' (Parser.bareStatement (m + 1) d) := by
  have hopen : AsOpen c c' :=
    .of_passed (passed_of_run (r := .bareStatement) hl (product_eq_ok.2 ⟨_, h, rfl⟩)).1
  have hopen₁ : AsOpen c.advance c' := ⟨hopen.levels, hopen.blocks⟩
  cases hp.sight with
  | ended hnil _ => exact absurd hnil hus
  | token _ htoken hx hnext hlast =>
    obtain _ | n := n
    · cases h
    rw [Parser.bareStatement] at h ⊢
    dsimp only at h ⊢
    rw [hx, htoken]
    have hrole : ∀ {x : Lexeme} {role : NameRole}, c.lexeme = x → role.follows x → _ = [] →
        role.follows k.last := fun hc hr hvs => by rwa [← hlast hvs, hc]
    split at h
    case h_1 hc => exact letStatement_meets hnext (hrole hc rfl) h
    case h_2 hc =>
      obtain ⟨⟨f, c₁⟩, hsignature, h⟩ := bind_eq_ok.1 h
      obtain ⟨⟨body, c₂⟩, hbody, -⟩ := bind_eq_ok.1 h
      have hl₁ : c₁.levels = 0 := (passed_signature hsignature).levels.trans hl
      refine (signature_meets hnext (hrole hc rfl) hsignature).bind (fun _ _ hp => ?_)
        fun _ _ _ hend => ((hend.block (blocks_lt_of_block hbody) m).bind _).meets
      exact .map (f := Statement.function _ f.1 f.2) (ih.block hl₁ hp) h
    case h_3 hc => exact ih.conditional (c := c.advance) hl hnext h
    case h_4 hc =>
      obtain ⟨⟨e, c₁⟩, he, h⟩ := bind_eq_ok.1 h
      obtain ⟨⟨body, c₂⟩, hbody, -⟩ := bind_eq_ok.1 h
      have hl₁ : c₁.levels = 0 := (passed_expression he).levels.trans hl
      refine (expression_meets hnext he).bind (fun _ _ hp => ?_) fun _ _ _ hend =>
        ((hend.block (blocks_lt_of_block hbody) m).bind _).meets
      exact .map (f := Statement.loop _ e) (ih.block hl₁ hp) h
    case h_5 hc => exact returnStatement_meets hopen₁ hnext h
    case h_6 hc => exact importStatement_meets hopen₁ hnext (hrole hc rfl) h
    case h_7 hc => exact raiseStatement_meets hnext h
    case h_8 => exact expressionStatement_meets hopen hp h

end Statements

theorem statements (k : Cut) : ∀ m : Nat, k.Statements m
  | 0 => {
      bareStatement := fun _ _ _ _ => .stopped .budget
      statement := fun _ _ _ _ => .stopped .budget
      conditional := fun _ _ _ => .stopped .budget
      block := fun _ _ _ => .stopped .budget
      statements := fun _ _ _ => .stopped .budget }
  | m + 1 =>
    have ih := statements k m
    { bareStatement := ih.bareStatement_succ
      statement := ih.statement_succ
      conditional := ih.conditional_succ
      block := ih.block_succ
      statements := ih.statements_succ }

theorem program_meets {p : Program} (hlast : ∀ t ∈ us.getLast?, t.lexeme = k.last)
    (h : Parser.program (us ++ k.behind) = .ok (p, c)) :
    k.Meets Whatever p c (Parser.program (us ++ [k.finish])) := by
  have hp : k.Pair us (.start (us ++ k.behind)) (.start (us ++ [k.finish])) :=
    ⟨rfl, rfl, rfl, rfl, hlast⟩
  exact (statements k _).statements rfl hp h

end Cut

/-! ## Programs -/

/-- What reading may answer where a program is cut off behind some tokens: a program, that the text
has ended, or one of two other faults, both at the end. Behind a lexeme that a name has to follow,
or may, it is that there is no name; and behind an opening parenthesis that there are too many
levels for an argument. -/
inductive CutOff (us : List Token) (place : Place) : Except Fault Program → Prop
  | program {p : Program} : CutOff us place (.ok p)
  | ended : CutOff us place (.error .ended)
  | name {role : NameRole} {t : Token} : us.getLast? = some t → role.follows t.lexeme →
    CutOff us place (.error (.unexpected (.name role) ⟨.finish, place⟩))
  | depth {t : Token} : us.getLast? = some t → t.lexeme = .symbol .openParen →
    CutOff us place (.error (.flaw .expressionDepth place))

/-- **Reading the front of a program succeeds or comes to its end.** -/
theorem cutOff_of_ofTokens {us vs : List Token} {p : Program}
    (h : Program.ofTokens? (us ++ vs) = .ok p) (place : Place) :
    CutOff us place (Program.ofTokens? (us ++ [⟨.finish, place⟩])) := by
  obtain ⟨c, hc⟩ : ∃ c, Parser.program (us ++ vs) = .ok (p, c) := by
    unfold Program.ofTokens? at h
    split at h <;> cases h
    exact ⟨_, ‹_›⟩
  let k : Cut := ⟨vs, place, (us.getLast?.map Token.lexeme).getD .finish⟩
  have hlast : ∀ {x : Lexeme}, k.last = x → x ≠ .finish →
      ∃ t, us.getLast? = some t ∧ t.lexeme = x := by
    rintro x rfl hx
    cases ht : us.getLast? with
    | none => exact absurd (by simp only [k, ht]; rfl) hx
    | some t => exact ⟨t, rfl, by simp only [k, ht]; rfl⟩
  have hmeets : k.Meets Cut.Whatever p c (Parser.program (us ++ [⟨.finish, place⟩])) :=
    Cut.program_meets (fun t ht => by simp only [k, Option.mem_def.1 ht]; rfl) hc
  have hbudget := program_ne_budget (us ++ [⟨.finish, place⟩])
  unfold Program.ofTokens?
  generalize Parser.program _ = x at hmeets hbudget ⊢
  cases hmeets with
  | same | ended => exact .program
  | stopped hallows =>
    cases hallows with
    | budget => exact absurd rfl hbudget
    | ended => exact .ended
    | name hrole =>
      have hne : k.last ≠ .finish := fun hx => by
        rw [hx, NameRole.follows_finish] at hrole
        cases hrole
      obtain ⟨t, ht, hx⟩ := hlast rfl hne
      exact .name ht (hx ▸ hrole)
    | depth hx =>
      obtain ⟨t, ht, hx⟩ := hlast hx (by simp)
      exact .depth ht hx

/-- The tokens of `let x := 1`. -/
def letTokens : List Token :=
  [⟨.keyword .let_, ⟨1, 1⟩⟩, ⟨.name "x", ⟨1, 5⟩⟩, ⟨.symbol .assign, ⟨1, 7⟩⟩, ⟨.integer 1, ⟨1, 10⟩⟩]

theorem cutOff_letTokens :
    Program.ofTokens? (letTokens.take 1 ++ letTokens.drop 1) =
      .ok [.assign 1 "x" (.integer 1)] ∧
    CutOff (letTokens.take 1) ⟨1, 4⟩
      (Program.ofTokens? (letTokens.take 1 ++ [⟨.finish, ⟨1, 4⟩⟩])) := by
  have haccepted : Program.ofTokens? (letTokens.take 1 ++ letTokens.drop 1) =
      .ok [.assign 1 "x" (.integer 1)] := rfl
  exact ⟨haccepted, cutOff_of_ofTokens haccepted ⟨1, 4⟩⟩

/-- Not everything that is cut off is said to have ended: behind `let` there is no name. -/
theorem not_ended_behind_let :
    ¬ ∀ (us vs : List Token) (p : Program), vs ≠ [] → Program.ofTokens? (us ++ vs) = .ok p →
      ∀ place, (∃ q, Program.ofTokens? (us ++ [⟨.finish, place⟩]) = .ok q) ∨
        Program.ofTokens? (us ++ [⟨.finish, place⟩]) = .error .ended := by
  intro h
  obtain ⟨q, hq⟩ | hq := h (letTokens.take 1) (letTokens.drop 1) _ nofun rfl ⟨1, 4⟩
  · cases hq
  · cases hq

-- A call behind 99 parentheses, cut off where its arguments begin: no level is left for one.
example :
    let p : Place := ⟨1, 1⟩
    let us : List Token := List.replicate 99 ⟨.symbol .openParen, p⟩ ++
      [⟨.name "f", p⟩, ⟨.symbol .openParen, p⟩]
    (Program.ofTokens? (us ++ List.replicate 100 ⟨.symbol .closeParen, p⟩)).isOk ∧
    true = match Program.ofTokens? (us ++ [⟨.finish, p⟩]) with
      | .error (.flaw .expressionDepth q) => q == p
      | _ => false := by decide +kernel

end Ember.Source
