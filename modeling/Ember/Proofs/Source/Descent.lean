import Ember.Proofs.Source.Calls

/-!
# The descent of the parser

**Theorem (`passed_of_run`).** A rule that succeeds has gone past tokens, none of them an end, and
the number that it returns is the depth of what it returns.
**Theorem (`Called.ready`).** Wherever a rule is called, no more levels and blocks are open than may
be, and numbers that are said to be depths are.
**Theorem (`run_ne_budget`).** A budget above its weight is enough for a rule.

The last two are inductions, one down the calls and one on the budget, over the same step: the calls
of a rule that is ready are ready, and lighter than the rule (`Rule.Ready.calls`). A call is lighter
if it is made behind a token. If not, its rank is lower: rules that call each other without going
past a token stand in an order.
-/

namespace Ember.Source.Parser

/-! ## Rules that succeed -/

/-- The number that comes with what was read is its depth. -/
def Product.Exact : Product → Prop
  | expr r => r.2 = r.1.depth
  | args r => r.2 = depthOfAll r.1
  | names _ | statement _ | statements _ => True

/-- Is nothing read without a token? -/
def Rule.eats : Rule → Bool
  | chain .. | trail _ | arguments | statements _ => false
  | _ => true

/-- What a rule takes fits: a number that is said to be a depth is one, and no expression is open
where a statement is read. -/
def Rule.Fits (c : Cursor) : Rule → Prop
  | chain _ r | trail r => r.2 = r.1.depth
  | statement | bareStatement | conditional _ | block | statements _ => c.levels = 0
  | _ => True

/-- There are tokens between two cursors, none of them an end, and at least one if `eats` says
so. -/
def Passed (eats : Bool) (c c' : Cursor) : Prop :=
  ∃ ts, c = c'.before ts ∧ NoEnd ts ∧ (eats → ts ≠ [])

section Success

variable {n : Nat} {c c₁ c₂ c' : Cursor} {p : Product} {b : Bool}

theorem product_eq_ok {α : Type} {f : α → Product} {x : Except Stop (Read α)} :
    product f x = .ok (p, c') ↔ ∃ a, x = .ok (a, c') ∧ f a = p := by
  unfold product
  rcases x with s | ⟨a, c⟩
  · exact ⟨nofun, nofun⟩
  · constructor
    · intro h
      cases h
      exact ⟨a, rfl, rfl⟩
    · rintro ⟨_, h, rfl⟩
      cases h
      rfl

namespace Passed

theorem trans {b' : Bool} (h : Passed b c c₁) (h' : Passed b' c₁ c₂) : Passed (b || b') c c₂ := by
  obtain ⟨ts, hts, hn, hb⟩ := h
  obtain ⟨us, hus, hn', hb'⟩ := h'
  refine ⟨ts ++ us, Cursor.before_trans hts hus, noEnd_append.2 ⟨hn, hn'⟩, fun he hnil => ?_⟩
  obtain ⟨rfl, rfl⟩ := List.append_eq_nil_iff.1 hnil
  exact (Bool.or_eq_true_iff.1 he).elim (hb · rfl) (hb' · rfl)

theorem refl : Passed false c c := ⟨[], rfl, noEnd_nil, nofun⟩

theorem lax (h : Passed b c c') : Passed false c c' := by
  obtain ⟨ts, hts, hn, -⟩ := h
  exact ⟨ts, hts, hn, nofun⟩

theorem advance {x : Lexeme} (h : c.lexeme = x) (hx : x ≠ .finish) : Passed true c c.advance :=
  ⟨_, Cursor.before_token h hx, by simp [hx], nofun⟩

theorem keyword {k : Keyword} (h : c.lexeme = .keyword k) : Passed true c c.advance :=
  advance h nofun

theorem sees {s : Symbol} (h : c.sees s) : Passed true c c.advance :=
  advance (Cursor.sees_iff.1 h) nofun

theorem expect {s : Symbol} (h : c.expect s = .ok c') : Passed true c c' := by
  obtain ⟨hs, rfl⟩ := Cursor.expect_eq_ok.1 h
  exact advance hs nofun

theorem name {role : NameRole} {x : String} (h : c.expectName role = .ok (x, c')) :
    Passed true c c' := by
  obtain ⟨hx, rfl⟩ := Cursor.expectName_eq_ok.1 h
  exact advance hx nofun

/-- What stands in front of a token is not the end. -/
theorem lexeme_ne (h : Passed true c c') : c.lexeme ≠ .finish := by
  obtain ⟨_ | ⟨t, ts⟩, rfl, hn, hne⟩ := h
  · exact absurd rfl (hne rfl)
  · exact (noEnd_cons.1 hn).1

theorem phrase {f : Phrase} {d : Nat} (h : f.Found c c' d) (hf : f ≠ .args []) :
    Passed true c c' := by
  obtain ⟨ts, hts, hw⟩ := h.tokens
  exact ⟨ts, hts, hw.noEnd, fun _ => List.ne_nil_of_length_pos (hw.length_pos hf)⟩

theorem form {f : Form} (h : f.Found c c') (hf : ∀ m, ¬ Laid m f []) : Passed true c c' := by
  obtain ⟨ts, hts, hl⟩ := h
  exact ⟨ts, hts, hl.noEnd, fun _ hnil => hf _ (hnil ▸ hl)⟩

theorem names {s : Symbol} {xs : List String} {ts : List Token} (h : Names s xs ts)
    (hts : c = c'.before ts) : Passed true c c' :=
  ⟨ts, hts, h.noEnd, fun _ hnil => by subst hnil; cases h⟩

end Passed

/-- A condition stands in front. -/
theorem not_laid_conditional {m : Nat} {s : Statement} : ¬ Laid m (.conditional s) [] := by
  have hcondition : ∀ {e : Expr} {ts us : List Token}, Expression e ts → ts ++ us = [] → False :=
    fun he hnil => List.ne_nil_of_length_pos (he.written.length_pos nofun)
      (List.append_eq_nil_iff.1 hnil).1
  intro h
  generalize hts : ([] : List Token) = ts at h
  cases h with
  | when he | choose he | elseIf he => exact hcondition he hts.symm

theorem passed_nested {r : Expr × Nat} (h : nested n c = .ok (r, c')) :
    Passed true c c' ∧ r.2 = r.1.depth := by
  obtain ⟨hfound, -⟩ := (expressionRules n).nested h
  exact ⟨.phrase hfound nofun, hfound.depth.symm⟩

theorem passed_primary {r : Expr × Nat} (h : primary n c = .ok (r, c')) :
    Passed true c c' ∧ r.2 = r.1.depth := by
  have hfound := (expressionRules n).primary h
  exact ⟨.phrase hfound nofun, hfound.depth.symm⟩

theorem passed_operand {l : Level} {r : Expr × Nat} (h : operand n l c = .ok (r, c')) :
    Passed true c c' ∧ r.2 = r.1.depth := by
  obtain ⟨hfound, -⟩ := (expressionRules n).operand h
  exact ⟨.phrase hfound Phrase.operand_ne_args, by rw [← hfound.depth, Phrase.depth_operand]⟩

theorem passed_arguments {r : List Expr × Nat} (h : arguments n c = .ok (r, c')) :
    Passed false c c' ∧ r.2 = depthOfAll r.1 := by
  have hfound := (expressionRules n).arguments h
  obtain ⟨ts, hts, hw⟩ := hfound.tokens
  exact ⟨⟨ts, hts, hw.noEnd, nofun⟩, hfound.depth.symm⟩

/-- A chain goes on from what is read so far: the depth grows, and stays the depth if it was. -/
theorem passed_chain {l : Level} {a r : Expr × Nat} (h : chain n l a c = .ok (r, c')) :
    Passed false c c' ∧ a.2 ≤ r.2 ∧ (a.2 = a.1.depth → r.2 = r.1.depth) := by
  induction n generalizing a c with
  | zero => cases h
  | succ n ih =>
    rw [chain] at h
    cases hop : l.op? c.lexeme with
    | none =>
      rw [hop] at h
      cases h
      exact ⟨.refl, Nat.le_refl _, id⟩
    | some op =>
      rw [hop] at h
      obtain ⟨⟨b, c₁⟩, hoperand, h⟩ := bind_eq_ok.1 h
      obtain ⟨d, hd, h⟩ := bind_eq_ok.1 h
      obtain ⟨-, rfl⟩ := Cursor.deeper_eq_ok.1 hd
      obtain ⟨hpassed, hb⟩ := passed_operand hoperand
      obtain ⟨hrest, hle, hr⟩ := ih h
      have hx := BinaryOp.ne_finish (op?_eq_some_iff.1 hop).2
      refine ⟨(((Passed.advance rfl hx).trans hpassed).trans hrest).lax, ?_, fun ha => ?_⟩
      · dsimp only at hle
        omega
      · exact hr (by rw [Expr.depth_binary, ← ha, ← hb])

/-- So do attributes and calls. -/
theorem passed_trail {a r : Expr × Nat} (h : trail n a c = .ok (r, c')) :
    Passed false c c' ∧ a.2 ≤ r.2 ∧ (a.2 = a.1.depth → r.2 = r.1.depth) := by
  induction n generalizing a c with
  | zero => cases h
  | succ n ih =>
    rw [trail] at h
    by_cases hdot : c.sees .dot
    · rw [if_pos hdot] at h
      obtain ⟨⟨x, c₁⟩, hname, h⟩ := bind_eq_ok.1 h
      obtain ⟨d, hd, h⟩ := bind_eq_ok.1 h
      obtain ⟨-, rfl⟩ := Cursor.deeper_eq_ok.1 hd
      obtain ⟨hrest, hle, hr⟩ := ih h
      refine ⟨(((Passed.sees hdot).trans (.name hname)).trans hrest).lax,
        Nat.le_of_succ_le hle, fun ha => ?_⟩
      exact hr (by rw [Expr.depth_attribute, ← ha])
    rw [if_neg hdot] at h
    by_cases hparen : c.sees .openParen
    · rw [if_pos hparen] at h
      obtain ⟨⟨rs, c₁⟩, hargs, h⟩ := bind_eq_ok.1 h
      obtain ⟨c₂, he, h⟩ := bind_eq_ok.1 h
      obtain ⟨d, hd, h⟩ := bind_eq_ok.1 h
      obtain ⟨-, rfl⟩ := Cursor.deeper_eq_ok.1 hd
      obtain ⟨hpassed, hrs⟩ := passed_arguments hargs
      obtain ⟨hrest, hle, hr⟩ := ih h
      have hcall := ((Passed.sees hparen).trans hpassed).trans (.expect he)
      refine ⟨(hcall.trans hrest).lax, ?_, fun ha => ?_⟩
      · dsimp only at hle
        omega
      · exact hr (by rw [Expr.depth_call, ← ha, ← hrs])
    · rw [if_neg hparen] at h
      cases h
      exact ⟨.refl, Nat.le_refl _, id⟩

theorem passed_signature {f : String × List String} (h : signature n c = .ok (f, c')) :
    Passed true c c' := by
  obtain ⟨ts, q, r, z, hparams, hts⟩ := signature_sound h
  exact ⟨_, hts, by simp [hparams.noEnd], fun _ => List.cons_ne_nil _ _⟩

/-- **A rule that succeeds has gone past tokens, and the number that it returns is the depth of what
it returns.** -/
theorem passed_of_run {r : Rule} (hr : r.Fits c) (hrun : r.run n c = .ok (p, c')) :
    Passed r.eats c c' ∧ p.Exact := by
  cases r <;> obtain ⟨a, h, rfl⟩ := product_eq_ok.1 hrun
  case nested => exact passed_nested h
  case level =>
    obtain ⟨hfound, -⟩ := (expressionRules n).level h
    exact ⟨.phrase hfound nofun, hfound.depth.symm⟩
  case operand => exact passed_operand h
  case chain => exact (passed_chain h).imp id fun h => h.2 hr
  case unary =>
    obtain ⟨hfound, -⟩ := (expressionRules n).unary h
    exact ⟨.phrase hfound nofun, hfound.depth.symm⟩
  case trail => exact (passed_trail h).imp id fun h => h.2 hr
  case arguments => exact passed_arguments h
  case someArguments =>
    obtain ⟨hfound, hne⟩ := (expressionRules n).someArguments h
    exact ⟨.phrase hfound (fun he => hne (Phrase.args.inj he)), hfound.depth.symm⟩
  case primary => exact passed_primary h
  case parameters =>
    obtain ⟨ts, hts, hnames, -⟩ := parameters_sound h
    exact ⟨.names hnames hts, trivial⟩
  case path =>
    obtain ⟨ts, hts, hnames⟩ := path_sound h
    exact ⟨.names hnames hts, trivial⟩
  case statement =>
    obtain ⟨c₁, hfound, -, rfl⟩ := (statementRules n).statement hr h
    have hfound := Passed.form hfound nofun
    unfold Cursor.skip
    by_cases hsemi : c₁.sees .semicolon
    · rw [if_pos hsemi]
      exact ⟨hfound.trans (.sees hsemi), trivial⟩
    · rw [if_neg hsemi]
      exact ⟨hfound, trivial⟩
  case bareStatement =>
    obtain ⟨hfound, -⟩ := (statementRules n).bareStatement hr h
    exact ⟨.form hfound nofun, trivial⟩
  case conditional =>
    obtain ⟨hfound, -⟩ := (statementRules n).conditional hr h
    exact ⟨.form hfound fun _ => not_laid_conditional, trivial⟩
  case block => exact ⟨.form ((statementRules n).block hr h) nofun, trivial⟩
  case statements =>
    obtain ⟨⟨ts, hts, hl⟩, -⟩ := (statementRules n).statements hr h
    exact ⟨⟨ts, hts, hl.noEnd, nofun⟩, trivial⟩

end Success

/-! ## Calls stay within the limits and get lighter -/

/-- What holds of rules as they are called. -/
structure Rule.Ready (r : Rule) (c : Cursor) : Prop where
  levels : c.levels ≤ maxLevels
  blocks : c.blocks ≤ maxBlocks
  fits : r.Fits c

/-- How many calls may follow one inside the other before a token is gone past. -/
def Rule.rank : Rule → Nat
  | unary => 1
  | operand l => 2 * (5 - l.rank) + 2
  | level l => 2 * (5 - l.rank) + 3
  | nested => 12
  | someArguments | conditional _ | bareStatement => 13
  | arguments | statement => 14
  | statements _ => 15
  | _ => 0

def Rule.weight (r : Rule) (c : Cursor) : Nat := 20 * c.rest.length + r.rank

theorem Rule.rank_lt (r : Rule) : r.rank < 20 := by
  cases r <;> simp only [rank] <;> omega

/-- The second cursor is within the limits and behind the first, past a token if `b` says so. -/
structure Within (b : Bool) (c₀ c : Cursor) : Prop where
  levels : c.levels ≤ maxLevels
  blocks : c.blocks ≤ maxBlocks
  length : c.rest.length + b.toNat ≤ c₀.rest.length

/-- The calls are ready, and lighter than the rule that makes them. -/
def Lighter (r₀ : Rule) (c₀ : Cursor) (l : List (Rule × Cursor)) : Prop :=
  ∀ x ∈ l, x.1.Ready x.2 ∧ x.1.weight x.2 < r₀.weight c₀

section Calls

variable {n line : Nat} {c₀ c c' : Cursor} {r₀ r : Rule} {l l' : List (Rule × Cursor)} {b b' : Bool}

theorem lighter_nil : Lighter r₀ c₀ [] := nofun

namespace Within

theorem refl (h : r.Ready c) : Within false c c := ⟨h.levels, h.blocks, Nat.le_refl _⟩

theorem passed (h : Within b c₀ c) (hp : Passed b' c c') : Within (b || b') c₀ c' := by
  obtain ⟨ts, rfl, -, hts⟩ := hp
  refine ⟨h.levels, h.blocks, ?_⟩
  have hlength := h.length
  simp only [Cursor.before, List.length_append] at hlength
  cases b' with
  | false =>
    rw [Bool.or_false]
    omega
  | true =>
    have hts := List.length_pos_iff.2 (hts rfl)
    rw [Bool.or_true, Bool.toNat_true]
    omega

theorem enterLevel (h : Within b c₀ c) (he : c.enterLevel = .ok c') : Within b c₀ c' := by
  obtain ⟨hl, rfl⟩ := Cursor.enterLevel_eq_ok.1 he
  exact ⟨hl, h.blocks, h.length⟩

theorem enterBlock (h : Within b c₀ c) (he : c.enterBlock = .ok c') : Within b c₀ c' := by
  obtain ⟨hb, rfl⟩ := Cursor.enterBlock_eq_ok.1 he
  exact ⟨h.levels, hb, h.length⟩

/-- A call is lighter behind a token, or if its rank is lower. -/
theorem lighter (h : Within b c₀ c) (hr : r.Fits c) (hrank : b ∨ r.rank < r₀.rank)
    (hl : Lighter r₀ c₀ l) : Lighter r₀ c₀ ((r, c) :: l) := by
  refine List.forall_mem_cons.2 ⟨⟨⟨h.levels, h.blocks, hr⟩, ?_⟩, hl⟩
  have hlength := h.length
  have hlt := r.rank_lt
  simp only [Rule.weight]
  rcases hrank with rfl | hrank
  · rw [Bool.toNat_true] at hlength
    omega
  · omega

/-- A call behind a token, and no other behind it. -/
theorem last (h : Within true c₀ c) (hr : r.Fits c) : Lighter r₀ c₀ [(r, c)] :=
  h.lighter hr (.inl rfl) lighter_nil

end Within

theorem Lighter.append (h : Lighter r₀ c₀ l) (h' : Lighter r₀ c₀ l') : Lighter r₀ c₀ (l ++ l') :=
  List.forall_mem_append.2 ⟨h, h'⟩

theorem lighter_after {α : Type} {x : Except Stop α} {f : α → List (Rule × Cursor)}
    (h : ∀ a, x = .ok a → Lighter r₀ c₀ (f a)) : Lighter r₀ c₀ (after x f) := by
  cases x with
  | error => exact lighter_nil
  | ok a => exact h a rfl

theorem lighter_read {α : Type} {x : Except Stop (Read α)} {f : Read α → List (Rule × Cursor)}
    (h : ∀ a c, x = .ok (a, c) → Lighter r₀ c₀ (f (a, c))) : Lighter r₀ c₀ (after x f) :=
  lighter_after fun r => h r.1 r.2

theorem Passed.levels (h : Passed b c c') : c'.levels = c.levels := by
  obtain ⟨ts, rfl, -⟩ := h
  rfl

theorem levels_of_enterBlock (h : c.enterBlock = .ok c') : c'.levels = c.levels := by
  obtain ⟨-, rfl⟩ := Cursor.enterBlock_eq_ok.1 h
  rfl

theorem Passed.blocks (h : Passed b c c') : c'.blocks = c.blocks := by
  obtain ⟨ts, rfl, -⟩ := h
  rfl

theorem passed_expression {e : Expr} (h : expression n c = .ok (e, c')) : Passed true c c' := by
  obtain ⟨⟨a, c₁⟩, hnested, h⟩ := bind_eq_ok.1 h
  cases h
  exact (passed_nested hnested).1

theorem passed_block {body : List Statement} (hl : c.levels = 0)
    (h : block n c = .ok (body, c')) : Passed true c c' :=
  .form ((statementRules n).block hl h) nofun

theorem Rule.Ready.statementCalls (h : Rule.bareStatement.Ready c) :
    Lighter .bareStatement c (statementCalls n c) := by
  have hl : c.levels = 0 := h.fits
  have hadvance : ∀ {k : Keyword}, c.lexeme = .keyword k → Within true c c.advance :=
    fun hx => (Within.refl h).passed (.keyword hx)
  unfold Parser.statementCalls
  split
  · next hx =>
    refine lighter_read fun name c₁ hname => lighter_after fun c₂ he => ?_
    exact (((hadvance hx).passed (.name hname)).passed (.expect he)).last trivial
  · next hx =>
    have hfunc := hadvance hx
    refine .append (lighter_read fun name c₁ hname => lighter_after fun c₂ he => ?_)
      (lighter_read fun f c₁ hsignature => ?_)
    · split
      · exact lighter_nil
      · exact ((hfunc.passed (.name hname)).passed (.expect he)).last trivial
    · have hpassed := passed_signature hsignature
      exact (hfunc.passed hpassed).last (hpassed.levels.trans hl)
  · next hx => exact (hadvance hx).last hl
  · next hx =>
    refine (hadvance hx).lighter trivial (.inl rfl) (lighter_read fun e c₁ he => ?_)
    have hpassed := passed_expression he
    exact ((hadvance hx).passed hpassed).last (hpassed.levels.trans hl)
  · next hx =>
    dsimp only
    split
    · exact lighter_nil
    · exact (hadvance hx).last trivial
  · next hx => exact (hadvance hx).last trivial
  · next hx => exact (hadvance hx).last trivial
  · refine (Within.refl h).lighter trivial (.inr (by decide)) (lighter_read fun e c₁ he => ?_)
    dsimp only
    split
    · next ha =>
      exact (((Within.refl h).passed (passed_expression he)).passed (.sees ha)).last trivial
    · exact lighter_nil

/-- **The calls of a rule that is ready are ready**, and they are lighter. -/
theorem Rule.Ready.calls (h : r.Ready c) : Lighter r c (calls n c r) := by
  have hc := Within.refl h
  cases r with
  | nested =>
    refine lighter_after fun c₁ he => ?_
    exact (hc.enterLevel he).lighter trivial (.inr (by decide)) lighter_nil
  | level l =>
    refine hc.lighter trivial (.inr (Nat.lt_succ_self _)) (lighter_read fun left c₁ ho => ?_)
    obtain ⟨hpassed, hd⟩ := passed_operand ho
    exact (hc.passed hpassed).last hd
  | operand l => cases l <;> exact hc.lighter trivial (.inr (by decide)) lighter_nil
  | chain l left =>
    simp only [Parser.calls]
    split
    · exact lighter_nil
    · next op hop =>
      have hx := BinaryOp.ne_finish (op?_eq_some_iff.1 hop).2
      have hright := hc.passed (.advance rfl hx)
      refine hright.lighter trivial (.inl rfl) (lighter_read fun right c₁ ho =>
        lighter_after fun d hd => ?_)
      obtain ⟨hpassed, hdepth⟩ := passed_operand ho
      obtain ⟨-, rfl⟩ := Cursor.deeper_eq_ok.1 hd
      have hleft : left.2 = left.1.depth := h.fits
      exact (hright.passed hpassed).last (by simp [Fits, hleft, hdepth])
  | unary =>
    simp only [Parser.calls]
    split
    · refine hc.lighter trivial (.inr (by decide)) (lighter_read fun a c₁ ha => ?_)
      obtain ⟨hpassed, hd⟩ := passed_primary ha
      exact (hc.passed hpassed).last hd
    · next op hop =>
      have hx := UnaryOp.ne_finish (unaryOp?_eq_some_iff.1 hop)
      refine lighter_after fun c₁ he => ?_
      exact ((hc.passed (.advance rfl hx)).enterLevel he).last trivial
  | trail a =>
    have ha : a.2 = a.1.depth := h.fits
    simp only [Parser.calls]
    split
    · next hdot =>
      refine lighter_read fun x c₁ hname => lighter_after fun d hd => ?_
      obtain ⟨-, rfl⟩ := Cursor.deeper_eq_ok.1 hd
      exact ((hc.passed (.sees hdot)).passed (.name hname)).last (by simp [Fits, ha])
    · split
      · next hparen =>
        have hargs := hc.passed (.sees hparen)
        refine hargs.lighter trivial (.inl rfl) (lighter_read fun args c₁ ho =>
          lighter_after fun c₂ he => lighter_after fun d hd => ?_)
        obtain ⟨hpassed, hdepth⟩ := passed_arguments ho
        obtain ⟨-, rfl⟩ := Cursor.deeper_eq_ok.1 hd
        exact ((hargs.passed hpassed).passed (.expect he)).last (by simp [Fits, ha, hdepth])
      · exact lighter_nil
  | arguments =>
    simp only [Parser.calls]
    split
    · exact lighter_nil
    · exact hc.lighter trivial (.inr (by decide)) lighter_nil
  | someArguments =>
    refine hc.lighter trivial (.inr (by decide)) (lighter_read fun a c₁ ha => ?_)
    obtain ⟨hpassed, -⟩ := passed_nested ha
    dsimp only
    split
    · next hcomma =>
      exact ((hc.passed hpassed).passed (.sees hcomma)).last trivial
    · exact lighter_nil
  | primary =>
    simp only [Parser.calls]
    split
    · exact lighter_nil
    · split
      · next hparen =>
        exact (hc.passed (.sees hparen)).last trivial
      · exact lighter_nil
  | parameters seen =>
    refine lighter_read fun x c₁ hname => ?_
    dsimp only
    split
    · exact lighter_nil
    · split
      · next hcomma =>
        exact ((hc.passed (.name hname)).passed (.sees hcomma)).last trivial
      · exact lighter_nil
  | path =>
    refine lighter_read fun x c₁ hname => ?_
    dsimp only
    split
    · next hdot =>
      exact ((hc.passed (.name hname)).passed (.sees hdot)).last trivial
    · exact lighter_nil
  | statement => exact hc.lighter h.fits (.inr (by decide)) lighter_nil
  | bareStatement => exact h.statementCalls
  | conditional line =>
    have hl : c.levels = 0 := h.fits
    refine hc.lighter trivial (.inr (Nat.lt_succ_self _)) (lighter_read fun e c₁ he => ?_)
    have hcondition := passed_expression he
    have hl₁ : c₁.levels = 0 := hcondition.levels.trans hl
    refine (hc.passed hcondition).lighter hl₁ (.inl rfl) (lighter_read fun body c₂ hbody => ?_)
    have hbody := passed_block hl₁ hbody
    have hl₂ : c₂.levels = 0 := hbody.levels.trans hl₁
    dsimp only
    split
    · next helse =>
      have helse := ((hc.passed hcondition).passed hbody).passed
        (.keyword (Cursor.seesKeyword_iff.1 helse))
      split
      · next hif =>
        refine lighter_after fun c₃ henter => ?_
        have hif : c₃.lexeme = .keyword .if_ := by
          obtain ⟨-, rfl⟩ := Cursor.enterBlock_eq_ok.1 henter
          exact Cursor.seesKeyword_iff.1 hif
        exact ((helse.enterBlock henter).passed (.keyword hif)).last
          ((levels_of_enterBlock henter).trans hl₂)
      · exact helse.last hl₂
    · exact lighter_nil
  | block =>
    refine lighter_after fun c₁ he => lighter_after fun c₂ ho => ?_
    have hl : c₂.levels = 0 := (Passed.expect ho).levels.trans (levels_of_enterBlock he ▸ h.fits)
    exact ((hc.enterBlock he).passed (.expect ho)).last hl
  | statements inner =>
    simp only [Parser.calls]
    split
    · exact lighter_nil
    · split
      · next hsemi =>
        exact (hc.passed (.sees hsemi)).last h.fits
      · refine hc.lighter h.fits (.inr (Nat.lt_succ_self _)) (lighter_read fun s c₁ hs => ?_)
        obtain ⟨hpassed, -⟩ := passed_of_run (r := .statement) h.fits (product_eq_ok.2 ⟨s, hs, rfl⟩)
        exact (hc.passed hpassed).last (hpassed.levels.trans h.fits)

end Calls

/-! ## Whole programs -/

theorem ready_program (ts : List Token) : (Rule.statements false).Ready (.start ts) :=
  ⟨Nat.zero_le _, Nat.zero_le _, rfl⟩

/-- **Rules are ready as they are called.** -/
theorem Called.ready {ts : List Token} {n : Nat} {r : Rule} {c : Cursor} (h : Called ts n r c) :
    r.Ready c := by
  induction h with
  | program => exact ready_program ts
  | call _ hcall ih => exact (ih.calls _ hcall).1

/-- **A budget above its weight is enough for a rule.** -/
theorem run_ne_budget {n : Nat} {r : Rule} {c : Cursor} (h : r.Ready c) (hn : r.weight c < n) :
    r.run n c ≠ .error .budget := by
  induction n generalizing r c with
  | zero => exact absurd hn (Nat.not_lt_zero _)
  | succ n ih =>
    intro hbudget
    obtain ⟨⟨r', c'⟩, hcall, hbudget⟩ := (budget_of_run r).1 hbudget
    obtain ⟨hready, hweight⟩ := h.calls _ hcall
    exact ih hready (Nat.lt_of_lt_of_le hweight (Nat.le_of_lt_succ hn)) hbudget

theorem weight_program (ts : List Token) :
    (Rule.statements false).weight (.start ts) < budget ts.length := by
  simp only [Rule.weight, Rule.rank, budget, Cursor.start]
  omega

/-- **A budget is above the weight of the rule that is called with it.** -/
theorem Called.weight_lt {ts : List Token} {n : Nat} {r : Rule} {c : Cursor}
    (h : Called ts n r c) : r.weight c < n := by
  induction h with
  | program => exact weight_program ts
  | call hcaller hcall ih =>
    obtain ⟨-, hlighter⟩ := hcaller.ready.calls _ hcall
    exact Nat.lt_of_lt_of_le hlighter (Nat.le_of_lt_succ ih)

theorem statements_ne_budget {ts : List Token} {n : Nat} (hn : budget ts.length ≤ n) :
    statements n false (.start ts) ≠ .error .budget := by
  have hrun := run_ne_budget (ready_program ts) (Nat.lt_of_lt_of_le (weight_program ts) hn)
  rwa [Rule.run, Ne, product_eq_budget] at hrun

theorem program_ne_budget (ts : List Token) : program ts ≠ .error .budget :=
  statements_ne_budget (Nat.le_refl _)

end Ember.Source.Parser
