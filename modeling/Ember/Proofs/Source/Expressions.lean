import Ember.Proofs.Source.Cursors

/-!
# Reading expressions

**Theorem (`Written.runs`).** In front of tokens that write a phrase, the phrase's rule returns it
and its depth and stops behind them, if what follows does not go on with the phrase.
**Theorem (`expressionRules`).** A rule that succeeds has gone past tokens that write what it
returns.

The first is an induction on what is written. The rules for chains of operators and for attributes
and calls take what is read so far and go on from there. So for these it says: whatever the rule
answers behind the tokens, the answer in front of them is the same. With `t` tokens, a rule needs at
most `20 * t` steps of its budget. The second is an induction on the budget, with one lemma for each
rule.
-/

namespace Ember.Source

open Ember.Source.Parser

/-! ## What is written is read -/

@[simp] theorem Expr.depth_binary {op : BinaryOp} {a b : Expr} :
    (Expr.binary op a b).depth = max a.depth b.depth + 1 :=
  rfl

@[simp] theorem Expr.depth_unary {op : UnaryOp} {e : Expr} :
    (Expr.unary op e).depth = e.depth + 1 :=
  rfl

@[simp] theorem Expr.depth_attribute {e : Expr} {x : String} :
    (Expr.attribute e x).depth = e.depth + 1 :=
  rfl

@[simp] theorem Expr.depth_call {e : Expr} {es : List Expr} :
    (Expr.call e es).depth = max e.depth (depthOfAll es) + 1 :=
  rfl

theorem Leaf.depth {e : Expr} {x : Lexeme} (h : Leaf e x) : e.depth = 1 := by
  cases h <;> rfl

/-- The rule for the phrase reads these tokens off the front of others that do not go on with it,
as long as the limits and the budget allow it. -/
def Phrase.Runs (n : Nat) (ts : List Token) : Phrase → Prop
  | whole e => ∀ ⦃c : Cursor⦄ ⦃m : Nat⦄, c.levels + n ≤ maxLevels → e.depth ≤ maxDepth →
    c.lexeme.hold = 0 → 20 * ts.length ≤ m + 1 → nested m (c.before ts) = .ok ((e, e.depth), c)
  | binary l e => ∀ ⦃c : Cursor⦄ ⦃m k : Nat⦄ ⦃r : Except Stop (Read (Expr × Nat))⦄,
    c.levels + n ≤ maxLevels → e.depth ≤ maxDepth → c.lexeme.hold ≤ l.rank →
    (∀ i ≥ k, chain i l (e, e.depth) c = r) → 20 * ts.length + k ≤ m + 3 * l.rank →
    level m l (c.before ts) = r
  | unary e => ∀ ⦃c : Cursor⦄ ⦃m : Nat⦄, c.levels + n ≤ maxLevels → e.depth ≤ maxDepth →
    c.lexeme.hold ≤ 5 → 20 * ts.length ≤ m + 17 →
    Parser.unary m (c.before ts) = .ok ((e, e.depth), c)
  | trailed e => ∀ ⦃c : Cursor⦄ ⦃m k : Nat⦄ ⦃r : Except Stop (Read (Expr × Nat))⦄,
    c.levels + n ≤ maxLevels → e.depth ≤ maxDepth → (∀ i ≥ k, trail i (e, e.depth) c = r) →
    20 * ts.length + k ≤ m + 18 → Parser.unary m (c.before ts) = r
  | primary e => ∀ ⦃c : Cursor⦄ ⦃m : Nat⦄, c.levels + n ≤ maxLevels → e.depth ≤ maxDepth →
    20 * ts.length ≤ m + 19 → Parser.primary m (c.before ts) = .ok ((e, e.depth), c)
  | args es => ∀ ⦃c : Cursor⦄ ⦃m : Nat⦄, es ≠ [] → c.levels + n ≤ maxLevels →
    depthOfAll es ≤ maxDepth → c.lexeme = .symbol .closeParen → 20 * ts.length ≤ m →
    someArguments m (c.before ts) = .ok ((es, depthOfAll es), c)

theorem trail_stop {c : Cursor} {r : Expr × Nat} {i : Nat} (h : c.lexeme.hold ≤ 5) (hi : i ≥ 1) :
    trail i r c = .ok (r, c) := by
  obtain ⟨i, rfl⟩ := Nat.exists_eq_add_of_le' hi
  obtain ⟨hdot, hparen⟩ := hold_le_five_iff.1 h
  rw [trail, if_neg (mt Cursor.sees_iff.1 hdot), if_neg (mt Cursor.sees_iff.1 hparen)]

theorem chain_stop {c : Cursor} {l : Level} {r : Expr × Nat} {i : Nat}
    (h : c.lexeme.hold ≠ l.rank) (hi : i ≥ 1) : chain i l r c = .ok (r, c) := by
  obtain ⟨i, rfl⟩ := Nat.exists_eq_add_of_le' hi
  rw [chain, op?_eq_none_iff.2 h]

section Runs

variable {n : Nat} {e f : Expr} {es : List Expr} {ts us : List Token} {x : Lexeme} {y : String}
  {p q : Place}

theorem runs_leaf (h : Leaf e x) : (Phrase.primary e).Runs n [⟨x, p⟩] := by
  intro c m _ _ hm
  obtain _ | m := m
  · simp at hm
  · rw [Parser.primary, Cursor.lexeme_before_cons, leaf?_eq_some_iff.2 h, h.depth]
    rfl

theorem runs_parens (h : (Phrase.whole e).Runs n ts) : (Phrase.primary e).Runs n
    (⟨.symbol .openParen, p⟩ :: (ts ++ [⟨.symbol .closeParen, q⟩])) := by
  intro c m hn hd hm
  simp only [List.length_cons, List.length_append, List.length_nil] at hm
  obtain _ | m := m
  · omega
  have hnested : nested m (c.before (ts ++ [⟨.symbol .closeParen, q⟩])) = .ok ((e, e.depth),
      c.before [⟨.symbol .closeParen, q⟩]) := by
    rw [Cursor.before_append]
    exact h hn hd rfl (by omega)
  rw [Parser.primary]
  exact bind_eq_ok.2 ⟨_, hnested, bind_eq_ok.2 ⟨_, Cursor.expect_eq_ok.2 ⟨rfl, rfl⟩, rfl⟩⟩

theorem runs_primary (hw : Written n (.primary e) ts) (h : (Phrase.primary e).Runs n ts) :
    (Phrase.trailed e).Runs n ts := by
  intro c m k r hn hd hr hm
  have hlength := hw.length_pos nofun
  obtain _ | m := m
  · omega
  have hprimary := h (m := m) hn hd (by omega)
  have hop : unaryOp? (c.before ts).lexeme = none := by
    cases hw with
    | leaf hl => cases hl <;> rfl
    | parens => rfl
  rw [Parser.unary, hop]
  show Parser.primary m (c.before ts) >>= _ = r
  rw [hprimary]
  exact hr m (by omega)

theorem runs_member (h : (Phrase.trailed e).Runs n ts) : (Phrase.trailed (.attribute e y)).Runs n
    (ts ++ [⟨.symbol .dot, p⟩, ⟨.name y, q⟩]) := by
  intro c m k r hn hd hr hm
  rw [Expr.depth_attribute] at hd hr
  simp only [List.length_cons, List.length_append, List.length_nil] at hm
  rw [Cursor.before_append]
  refine h (k := k + 1) hn (by omega) (fun i hi => ?_) (by omega)
  obtain _ | i := i
  · omega
  rw [trail, if_pos Cursor.sees_before]
  show Cursor.deeper c e.depth >>= _ = r
  rw [Cursor.deeper_eq_ok.2 ⟨hd, rfl⟩]
  exact hr i (by omega)

theorem arguments_of_args (hw : Written n (.args es) us) (h : (Phrase.args es).Runs n us)
    {c : Cursor} {m : Nat} (hn : c.levels + n ≤ maxLevels) (hd : depthOfAll es ≤ maxDepth)
    (hc : c.lexeme = .symbol .closeParen) (hm : 20 * us.length + 1 ≤ m) :
    arguments m (c.before us) = .ok ((es, depthOfAll es), c) := by
  obtain _ | m := m
  · omega
  rw [arguments]
  obtain _ | ⟨e, es⟩ := es
  · cases hw
    rw [Cursor.before_nil, if_pos (Cursor.sees_iff.2 hc), depthOfAll]
  · have hsees : ¬ (c.before us).sees .closeParen := by
      obtain ⟨t, us, rfl, ho⟩ := hw.opens nofun
      rw [Cursor.sees_iff, Cursor.lexeme_before_cons]
      intro ht
      rw [ht] at ho
      exact Bool.false_ne_true ho
    rw [if_neg hsees]
    exact h nofun hn hd hc (by omega)

theorem runs_call (h : (Phrase.trailed e).Runs n ts) (hw : Written n (.args es) us)
    (hs : (Phrase.args es).Runs n us) : (Phrase.trailed (.call e es)).Runs n
    (ts ++ ⟨.symbol .openParen, p⟩ :: (us ++ [⟨.symbol .closeParen, q⟩])) := by
  intro c m k r hn hd hr hm
  rw [Expr.depth_call] at hd hr
  simp only [List.length_cons, List.length_append, List.length_nil] at hm
  rw [Cursor.before_append]
  refine h (k := 20 * us.length + k + 2) hn (by omega) (fun i hi => ?_) (by omega)
  obtain _ | i := i
  · omega
  have hargs := arguments_of_args hw hs (c := c.before [⟨.symbol .closeParen, q⟩]) (m := i) hn
    (by omega) rfl (by omega)
  rw [← Cursor.before_append] at hargs
  rw [trail, if_neg (by rw [Cursor.sees_iff, Cursor.lexeme_before_cons]; nofun),
    if_pos Cursor.sees_before]
  show arguments i (c.before (us ++ [⟨.symbol .closeParen, q⟩])) >>= _ = r
  rw [hargs]
  show Cursor.deeper c (max e.depth (depthOfAll es)) >>= _ = r
  rw [Cursor.deeper_eq_ok.2 ⟨hd, rfl⟩]
  exact hr i (by omega)

theorem runs_trailed (h : (Phrase.trailed e).Runs n ts) : (Phrase.unary e).Runs n ts := by
  intro c m hn hd hc hm
  exact h hn hd (fun i hi => trail_stop hc hi) (by omega)

theorem runs_unary {op : UnaryOp} (hx : x ∈ op.spellings) (h : (Phrase.unary e).Runs n ts) :
    (Phrase.unary (.unary op e)).Runs (n + 1) (⟨x, p⟩ :: ts) := by
  intro c m hn hd hc hm
  rw [Expr.depth_unary] at hd
  rw [List.length_cons] at hm
  obtain _ | m := m
  · omega
  have hunary := h (c := { c with levels := c.levels + 1 }) (m := m) (by simp only; omega)
    (by omega) hc (by omega)
  rw [Parser.unary, Cursor.lexeme_before_cons, unaryOp?_eq_some_iff.2 hx]
  have henter : (c.before ts).enterLevel = .ok _ :=
    Cursor.enterLevel_eq_ok.2 ⟨by show c.levels < _; omega, rfl⟩
  refine bind_eq_ok.2 ⟨_, henter, bind_eq_ok.2 ⟨_, hunary, ?_⟩⟩
  rw [Expr.depth_unary]
  exact bind_eq_ok.2 ⟨_, Cursor.deeper_eq_ok.2 ⟨hd, rfl⟩, rfl⟩
theorem runs_lastArg (hw : Written n (.whole e) ts) (h : (Phrase.whole e).Runs n ts) :
    (Phrase.args [e]).Runs n ts := by
  intro c m _ hn hd hc hm
  rw [depthOfAll, depthOfAll, Nat.max_zero] at hd ⊢
  have hlength := hw.length_pos nofun
  obtain _ | m := m
  · omega
  have hnested := h (m := m) hn hd (by rw [hc]; rfl) (by omega)
  rw [someArguments]
  refine bind_eq_ok.2 ⟨_, hnested, ?_⟩
  dsimp only
  rw [if_neg (by rw [Cursor.sees_iff, hc]; nofun)]
  rfl

theorem runs_moreArgs (h : (Phrase.whole e).Runs n ts) (hs : (Phrase.args (f :: es)).Runs n us) :
    (Phrase.args (e :: f :: es)).Runs n (ts ++ ⟨.symbol .comma, p⟩ :: us) := by
  intro c m _ hn hd hc hm
  rw [depthOfAll] at hd ⊢
  rw [List.length_append, List.length_cons] at hm
  obtain _ | m := m
  · omega
  have hnested := h (c := c.before (⟨.symbol .comma, p⟩ :: us)) (m := m) hn (by omega) rfl
    (by omega)
  have hrest := hs (m := m) nofun hn (by omega) hc (by omega)
  rw [someArguments, Cursor.before_append]
  refine bind_eq_ok.2 ⟨_, hnested, ?_⟩
  dsimp only
  rw [if_pos Cursor.sees_before]
  exact bind_eq_ok.2 ⟨_, hrest, rfl⟩

/-- An operand of a level is read, whatever the level is. -/
theorem operand_of_runs {l : Level} (hw : Written n (.operand l e) ts)
    (h : (Phrase.operand l e).Runs n ts) {c : Cursor} {m : Nat}
    (hn : c.levels + n ≤ maxLevels) (hd : e.depth ≤ maxDepth) (hc : c.lexeme.hold ≤ l.rank)
    (hm : 20 * ts.length ≤ m + 3 * l.rank + 1) :
    operand m l (c.before ts) = .ok ((e, e.depth), c) := by
  have hlength := hw.length_pos Phrase.operand_ne_args
  have hrank := l.rank_le_five
  obtain _ | m := m
  · omega
  cases l with
  | product => exact h hn hd hc (by simp only [Level.rank] at hm; omega)
  | _ =>
    -- The chain of the tighter level ends at once: what follows binds less tightly.
    simp only [Level.rank] at hc hm
    refine h hn hd (Nat.le_succ_of_le hc) (fun i hi => chain_stop ?_ hi) ?_ <;>
      simp only [Level.rank] <;> omega

theorem runs_operand {l : Level} (hw : Written n (.operand l e) ts)
    (h : (Phrase.operand l e).Runs n ts) : (Phrase.binary l e).Runs n ts := by
  intro c m k r hn hd hc hr hm
  have hlength := hw.length_pos Phrase.operand_ne_args
  have hrank := l.rank_le_five
  obtain _ | m := m
  · omega
  rw [level, operand_of_runs hw h hn hd hc (by omega)]
  exact hr m (by omega)

theorem runs_binary {op : BinaryOp} (h : (Phrase.binary op.level e).Runs n ts)
    (hx : x ∈ op.spellings) (hw : Written n (.operand op.level f) us)
    (hs : (Phrase.operand op.level f).Runs n us) :
    (Phrase.binary op.level (.binary op e f)).Runs n (ts ++ ⟨x, p⟩ :: us) := by
  intro c m k r hn hd hc hr hm
  rw [Expr.depth_binary] at hd hr
  rw [List.length_append, List.length_cons] at hm
  have hop : op.level.op? x = some op := op?_eq_some_iff.2 ⟨rfl, hx⟩
  -- Behind the left operand the chain finds the operator, reads the right operand and goes on.
  rw [Cursor.before_append]
  refine h (k := 20 * us.length + k + 1) hn (by omega) (Nat.le_of_eq (hold_of_op? hop))
    (fun i hi => ?_) (by omega)
  obtain _ | i := i
  · omega
  have hright := operand_of_runs hw hs (m := i) hn (by omega) hc (by omega)
  rw [chain, Cursor.lexeme_before_cons, hop]
  show operand i op.level (c.before us) >>= _ = r
  rw [hright]
  show Cursor.deeper c (max e.depth f.depth) >>= _ = r
  rw [Cursor.deeper_eq_ok.2 ⟨hd, rfl⟩]
  exact hr i (by omega)

theorem runs_whole (hw : Written n (.binary .either e) ts)
    (h : (Phrase.binary .either e).Runs n ts) : (Phrase.whole e).Runs (n + 1) ts := by
  intro c m hn hd hc hm
  have hlength := hw.length_pos nofun
  obtain _ | m := m
  · omega
  have henter : (c.before ts).enterLevel = .ok _ :=
    Cursor.enterLevel_eq_ok.2 ⟨by show c.levels < _; omega, rfl⟩
  have hc' : ({ c with levels := c.levels + 1 } : Cursor).lexeme.hold = 0 := hc
  have hlevel := h (c := { c with levels := c.levels + 1 }) (m := m) (k := 1)
    (by show c.levels + 1 + n ≤ _; omega) hd (by rw [hc']; exact Nat.zero_le _)
    (fun i hi => chain_stop (by rw [hc']; nofun) hi) (by simp only [Level.rank]; omega)
  rw [nested]
  exact bind_eq_ok.2 ⟨_, henter, bind_eq_ok.2 ⟨_, hlevel, rfl⟩⟩

end Runs

/-- **What is written is read.** -/
theorem Written.runs {n : Nat} {p : Phrase} {ts : List Token} (h : Written n p ts) :
    p.Runs n ts := by
  induction h with
  | leaf h => exact runs_leaf h
  | parens _ ih => exact runs_parens ih
  | primary h ih => exact runs_primary h ih
  | member _ ih => exact runs_member ih
  | call _ h ih ihs => exact runs_call ih h ihs
  | noArgs => exact fun _ _ h => absurd rfl h
  | lastArg h ih => exact runs_lastArg h ih
  | moreArgs _ _ ih ihs => exact runs_moreArgs ih ihs
  | trailed _ ih => exact runs_trailed ih
  | unary hx _ ih => exact runs_unary hx ih
  | operand h ih => exact runs_operand h ih
  | binary _ hx h ih ihs => exact runs_binary ih hx h ihs
  | whole h ih => exact runs_whole h ih

/-! ## What is read is written -/

/-- The depth of the deepest expression of a phrase. -/
def Phrase.depth : Phrase → Nat
  | whole e | binary _ e | unary e | trailed e | primary e => e.depth
  | args es => depthOfAll es

theorem Phrase.depth_operand (l : Level) (e : Expr) : (operand l e).depth = e.depth := by
  cases l <;> rfl

/-- The tokens between two cursors write the phrase, which has the depth `d`. -/
structure Phrase.Found (p : Phrase) (c c' : Cursor) (d : Nat) : Prop where
  tokens : ∃ ts, c = c'.before ts ∧ Written (maxLevels - c.levels) p ts
  depth : p.depth = d
  limit : d ≤ maxDepth

namespace Phrase.Found

variable {c c₀ c₁ c₂ : Cursor} {e f : Expr} {es : List Expr} {d d₁ d₂ : Nat}

theorem leaf (h : Leaf e c.lexeme) : (primary e).Found c c.advance 1 where
  tokens := ⟨_, Cursor.before_token rfl (by intro hf; rw [hf] at h; cases h), .leaf h⟩
  depth := h.depth
  limit := by decide

theorem parens (ho : c.lexeme = .symbol .openParen) (h : (whole e).Found c.advance c₁ d)
    (hc : c₁.lexeme = .symbol .closeParen) : (primary e).Found c c₁.advance d where
  tokens := by
    obtain ⟨ts, hts, hw⟩ := h.tokens
    exact ⟨_, Cursor.before_trans (Cursor.before_token ho nofun)
      (Cursor.before_trans hts (Cursor.before_token hc nofun)), .parens hw⟩
  depth := h.depth
  limit := h.limit

/-- A phrase that is one of another kind too. -/
theorem imp {p q : Phrase} (h : p.Found c c₁ d) (hd : q.depth = p.depth)
    (hw : ∀ ⦃n ts⦄, Written n p ts → Written n q ts) : q.Found c c₁ d where
  tokens := by
    obtain ⟨ts, hts, hp⟩ := h.tokens
    exact ⟨ts, hts, hw hp⟩
  depth := hd.trans h.depth
  limit := h.limit

theorem member {x : String} (h : (trailed e).Found c c₁ d) (ho : c₁.lexeme = .symbol .dot)
    (hx : c₁.advance.lexeme = .name x) (hd : d + 1 ≤ maxDepth) :
    (trailed (.attribute e x)).Found c c₁.advance.advance (d + 1) where
  tokens := by
    obtain ⟨ts, hts, hw⟩ := h.tokens
    exact ⟨_, Cursor.before_trans hts (Cursor.before_trans (Cursor.before_token ho nofun)
      (Cursor.before_token hx nofun)), .member hw⟩
  depth := by rw [← h.depth]; simp only [Phrase.depth, Expr.depth_attribute]
  limit := hd

theorem call (h : (trailed e).Found c c₁ d₁) (ho : c₁.lexeme = .symbol .openParen)
    (hs : (args es).Found c₁.advance c₂ d₂) (hc : c₂.lexeme = .symbol .closeParen)
    (hd : max d₁ d₂ + 1 ≤ maxDepth) :
    (trailed (.call e es)).Found c c₂.advance (max d₁ d₂ + 1) where
  tokens := by
    obtain ⟨ts, rfl, hw⟩ := h.tokens
    obtain ⟨us, hus, hws⟩ := hs.tokens
    exact ⟨_, Cursor.before_trans rfl (Cursor.before_trans (Cursor.before_token ho nofun)
      (Cursor.before_trans hus (Cursor.before_token hc nofun))), .call hw hws⟩
  depth := by rw [← h.depth, ← hs.depth]; simp only [Phrase.depth, Expr.depth_call]
  limit := hd

theorem noArgs : (args []).Found c c 0 where
  tokens := ⟨[], rfl, .noArgs⟩
  depth := by simp only [Phrase.depth, depthOfAll]
  limit := Nat.zero_le _

theorem lastArg (h : (whole e).Found c c₁ d) : (args [e]).Found c c₁ d :=
  h.imp (by simp only [Phrase.depth, depthOfAll, Nat.max_zero]) fun _ _ => .lastArg

theorem moreArgs (h : (whole e).Found c c₁ d₁) (ho : c₁.lexeme = .symbol .comma)
    (hs : (args es).Found c₁.advance c₂ d₂) (hne : es ≠ []) :
    (args (e :: es)).Found c c₂ (max d₁ d₂) where
  tokens := by
    obtain ⟨ts, rfl, hw⟩ := h.tokens
    obtain ⟨us, hus, hws⟩ := hs.tokens
    obtain _ | ⟨f, es⟩ := es
    · exact absurd rfl hne
    · exact ⟨_, Cursor.before_trans rfl (Cursor.before_trans (Cursor.before_token ho nofun) hus),
        .moreArgs hw hws⟩
  depth := by rw [← h.depth, ← hs.depth]; simp only [Phrase.depth, depthOfAll]
  limit := Nat.max_le.2 ⟨h.limit, hs.limit⟩

theorem operator {op : UnaryOp} (hx : c.lexeme ∈ op.spellings)
    (he : c.advance.enterLevel = .ok c₁) (h : (unary e).Found c₁ c₂ d) (hd : d + 1 ≤ maxDepth) :
    (unary (.unary op e)).Found c c₂.leaveLevel (d + 1) where
  tokens := by
    obtain ⟨ts, hts, hw⟩ := h.tokens
    obtain ⟨hts, hlevels⟩ := Cursor.before_leaveLevel he hts
    refine ⟨_, Cursor.before_trans (Cursor.before_token rfl (UnaryOp.ne_finish hx)) hts, ?_⟩
    show Written (maxLevels - c.advance.levels) _ _
    rw [hlevels]
    exact .unary hx hw
  depth := by rw [← h.depth]; simp only [Phrase.depth, Expr.depth_unary]
  limit := hd

theorem binary {op : BinaryOp} (h : (binary op.level e).Found c c₁ d₁)
    (hx : c₁.lexeme ∈ op.spellings) (hs : (operand op.level f).Found c₁.advance c₂ d₂)
    (hd : max d₁ d₂ + 1 ≤ maxDepth) :
    (Phrase.binary op.level (.binary op e f)).Found c c₂ (max d₁ d₂ + 1) where
  tokens := by
    obtain ⟨ts, rfl, hw⟩ := h.tokens
    obtain ⟨us, hus, hws⟩ := hs.tokens
    exact ⟨_, Cursor.before_trans rfl (Cursor.before_trans
      (Cursor.before_token rfl (BinaryOp.ne_finish hx)) hus), .binary hw hx hws⟩
  depth := by
    rw [← h.depth, ← hs.depth, Phrase.depth_operand]
    simp only [Phrase.depth, Expr.depth_binary]
  limit := hd

theorem whole (he : c.enterLevel = .ok c₁) (h : (Phrase.binary .either e).Found c₁ c₂ d) :
    (Phrase.whole e).Found c c₂.leaveLevel d where
  tokens := by
    obtain ⟨ts, hts, hw⟩ := h.tokens
    obtain ⟨hts, hlevels⟩ := Cursor.before_leaveLevel he hts
    exact ⟨ts, hts, by rw [hlevels]; exact .whole hw⟩
  depth := h.depth
  limit := h.limit

end Phrase.Found

/-- A rule for expressions that succeeds has gone past tokens that write what it returns, and what
follows does not go on with it. -/
structure ExpressionRules (n : Nat) : Prop where
  nested : ∀ {c c' : Cursor} {r : Expr × Nat}, nested n c = .ok (r, c') →
    (Phrase.whole r.1).Found c c' r.2 ∧ c'.lexeme.hold = 0
  level : ∀ {c c' : Cursor} {l : Level} {r : Expr × Nat}, level n l c = .ok (r, c') →
    (Phrase.binary l r.1).Found c c' r.2 ∧ c'.lexeme.hold < l.rank
  operand : ∀ {c c' : Cursor} {l : Level} {r : Expr × Nat}, operand n l c = .ok (r, c') →
    (Phrase.operand l r.1).Found c c' r.2 ∧ c'.lexeme.hold ≤ l.rank
  chain : ∀ {c₀ c c' : Cursor} {l : Level} {a r : Expr × Nat},
    (Phrase.binary l a.1).Found c₀ c a.2 → c.lexeme.hold ≤ l.rank →
    chain n l a c = .ok (r, c') → (Phrase.binary l r.1).Found c₀ c' r.2 ∧ c'.lexeme.hold < l.rank
  unary : ∀ {c c' : Cursor} {r : Expr × Nat}, unary n c = .ok (r, c') →
    (Phrase.unary r.1).Found c c' r.2 ∧ c'.lexeme.hold ≤ 5
  trail : ∀ {c₀ c c' : Cursor} {a r : Expr × Nat}, (Phrase.trailed a.1).Found c₀ c a.2 →
    trail n a c = .ok (r, c') → (Phrase.trailed r.1).Found c₀ c' r.2 ∧ c'.lexeme.hold ≤ 5
  arguments : ∀ {c c' : Cursor} {r : List Expr × Nat}, arguments n c = .ok (r, c') →
    (Phrase.args r.1).Found c c' r.2
  someArguments : ∀ {c c' : Cursor} {r : List Expr × Nat}, someArguments n c = .ok (r, c') →
    (Phrase.args r.1).Found c c' r.2 ∧ r.1 ≠ []
  primary : ∀ {c c' : Cursor} {r : Expr × Nat}, primary n c = .ok (r, c') →
    (Phrase.primary r.1).Found c c' r.2

namespace ExpressionRules

variable {n : Nat} {c₀ c c' : Cursor} {l : Level} {a r : Expr × Nat} {rs : List Expr × Nat}

theorem nested_succ (ih : ExpressionRules n) (h : Parser.nested (n + 1) c = .ok (r, c')) :
    (Phrase.whole r.1).Found c c' r.2 ∧ c'.lexeme.hold = 0 := by
  rw [Parser.nested] at h
  obtain ⟨c₁, he, h⟩ := bind_eq_ok.1 h
  obtain ⟨⟨s, c₂⟩, hlevel, h⟩ := bind_eq_ok.1 h
  cases h
  obtain ⟨hfound, hhold⟩ := ih.level hlevel
  exact ⟨hfound.whole he, Nat.lt_one_iff.1 hhold⟩

theorem level_succ (ih : ExpressionRules n) (h : Parser.level (n + 1) l c = .ok (r, c')) :
    (Phrase.binary l r.1).Found c c' r.2 ∧ c'.lexeme.hold < l.rank := by
  rw [Parser.level] at h
  obtain ⟨⟨a, c₁⟩, hoperand, h⟩ := bind_eq_ok.1 h
  obtain ⟨hfound, hhold⟩ := ih.operand hoperand
  exact ih.chain (hfound.imp (Phrase.depth_operand l _).symm fun _ _ => .operand) hhold h

theorem operand_succ (ih : ExpressionRules n) (h : Parser.operand (n + 1) l c = .ok (r, c')) :
    (Phrase.operand l r.1).Found c c' r.2 ∧ c'.lexeme.hold ≤ l.rank := by
  rw [Parser.operand] at h
  cases l with
  | product => exact ih.unary h
  | _ =>
    obtain ⟨hfound, hhold⟩ := ih.level h
    exact ⟨hfound, Nat.le_of_lt_succ hhold⟩

theorem chain_succ (ih : ExpressionRules n) (ha : (Phrase.binary l a.1).Found c₀ c a.2)
    (hc : c.lexeme.hold ≤ l.rank) (h : Parser.chain (n + 1) l a c = .ok (r, c')) :
    (Phrase.binary l r.1).Found c₀ c' r.2 ∧ c'.lexeme.hold < l.rank := by
  rw [Parser.chain] at h
  cases hop : l.op? c.lexeme with
  | none =>
    rw [hop] at h
    cases h
    exact ⟨ha, Nat.lt_of_le_of_ne hc (op?_eq_none_iff.1 hop)⟩
  | some op =>
    rw [hop] at h
    obtain ⟨⟨b, c₁⟩, hoperand, h⟩ := bind_eq_ok.1 h
    obtain ⟨d, hd, h⟩ := bind_eq_ok.1 h
    obtain ⟨hlimit, rfl⟩ := Cursor.deeper_eq_ok.1 hd
    obtain ⟨hfound, hhold⟩ := ih.operand hoperand
    obtain ⟨rfl, hx⟩ := op?_eq_some_iff.1 hop
    exact ih.chain (ha.binary hx hfound hlimit) hhold h

theorem unary_succ (ih : ExpressionRules n) (h : Parser.unary (n + 1) c = .ok (r, c')) :
    (Phrase.unary r.1).Found c c' r.2 ∧ c'.lexeme.hold ≤ 5 := by
  rw [Parser.unary] at h
  cases hop : unaryOp? c.lexeme with
  | none =>
    rw [hop] at h
    obtain ⟨⟨a, c₁⟩, hprimary, h⟩ := bind_eq_ok.1 h
    have hfound := (ih.primary hprimary).imp (q := .trailed a.1) rfl fun _ _ => .primary
    obtain ⟨hfound, hhold⟩ := ih.trail hfound h
    exact ⟨hfound.imp rfl fun _ _ => .trailed, hhold⟩
  | some op =>
    rw [hop] at h
    obtain ⟨c₁, he, h⟩ := bind_eq_ok.1 h
    obtain ⟨⟨a, c₂⟩, hunary, h⟩ := bind_eq_ok.1 h
    obtain ⟨d, hd, h⟩ := bind_eq_ok.1 h
    cases h
    obtain ⟨hlimit, rfl⟩ := Cursor.deeper_eq_ok.1 hd
    obtain ⟨hfound, hhold⟩ := ih.unary hunary
    exact ⟨hfound.operator (unaryOp?_eq_some_iff.1 hop) he hlimit, hhold⟩

theorem trail_succ (ih : ExpressionRules n) (ha : (Phrase.trailed a.1).Found c₀ c a.2)
    (h : Parser.trail (n + 1) a c = .ok (r, c')) :
    (Phrase.trailed r.1).Found c₀ c' r.2 ∧ c'.lexeme.hold ≤ 5 := by
  rw [Parser.trail] at h
  by_cases hdot : c.sees .dot
  · rw [if_pos hdot] at h
    obtain ⟨⟨x, c₁⟩, hname, h⟩ := bind_eq_ok.1 h
    obtain ⟨d, hd, h⟩ := bind_eq_ok.1 h
    obtain ⟨hlimit, rfl⟩ := Cursor.deeper_eq_ok.1 hd
    obtain ⟨hx, rfl⟩ := Cursor.expectName_eq_ok.1 hname
    exact ih.trail (ha.member (Cursor.sees_iff.1 hdot) hx hlimit) h
  rw [if_neg hdot] at h
  by_cases hparen : c.sees .openParen
  · rw [if_pos hparen] at h
    obtain ⟨⟨rs, c₁⟩, hargs, h⟩ := bind_eq_ok.1 h
    obtain ⟨c₂, he, h⟩ := bind_eq_ok.1 h
    obtain ⟨d, hd, h⟩ := bind_eq_ok.1 h
    obtain ⟨hlimit, rfl⟩ := Cursor.deeper_eq_ok.1 hd
    obtain ⟨hclose, rfl⟩ := Cursor.expect_eq_ok.1 he
    exact ih.trail (ha.call (Cursor.sees_iff.1 hparen) (ih.arguments hargs) hclose hlimit) h
  · rw [if_neg hparen] at h
    cases h
    rw [Cursor.sees_iff] at hdot hparen
    exact ⟨ha, hold_le_five_iff.2 ⟨hdot, hparen⟩⟩

theorem arguments_succ (ih : ExpressionRules n) (h : Parser.arguments (n + 1) c = .ok (rs, c')) :
    (Phrase.args rs.1).Found c c' rs.2 := by
  rw [Parser.arguments] at h
  by_cases hclose : c.sees .closeParen
  · rw [if_pos hclose] at h
    cases h
    exact .noArgs
  · rw [if_neg hclose] at h
    exact (ih.someArguments h).1

theorem someArguments_succ (ih : ExpressionRules n)
    (h : Parser.someArguments (n + 1) c = .ok (rs, c')) :
    (Phrase.args rs.1).Found c c' rs.2 ∧ rs.1 ≠ [] := by
  rw [Parser.someArguments] at h
  obtain ⟨⟨a, c₁⟩, hnested, h⟩ := bind_eq_ok.1 h
  have hfound := (ih.nested hnested).1
  dsimp only at h
  by_cases hcomma : c₁.sees .comma
  · rw [if_pos hcomma] at h
    obtain ⟨⟨bs, c₂⟩, hrest, h⟩ := bind_eq_ok.1 h
    cases h
    obtain ⟨hrest, hne⟩ := ih.someArguments hrest
    exact ⟨hfound.moreArgs (Cursor.sees_iff.1 hcomma) hrest hne, nofun⟩
  · rw [if_neg hcomma] at h
    cases h
    exact ⟨hfound.lastArg, nofun⟩

theorem primary_succ (ih : ExpressionRules n) (h : Parser.primary (n + 1) c = .ok (r, c')) :
    (Phrase.primary r.1).Found c c' r.2 := by
  rw [Parser.primary] at h
  cases hleaf : leaf? c.lexeme with
  | some e =>
    rw [hleaf] at h
    cases h
    exact .leaf (leaf?_eq_some_iff.1 hleaf)
  | none =>
    rw [hleaf] at h
    dsimp only at h
    by_cases hparen : c.sees .openParen
    · rw [if_pos hparen] at h
      obtain ⟨⟨a, c₁⟩, hnested, h⟩ := bind_eq_ok.1 h
      obtain ⟨c₂, he, h⟩ := bind_eq_ok.1 h
      cases h
      obtain ⟨hclose, rfl⟩ := Cursor.expect_eq_ok.1 he
      exact .parens (Cursor.sees_iff.1 hparen) (ih.nested hnested).1 hclose
    · rw [if_neg hparen] at h
      by_cases hend : c.atEnd
      · rw [if_pos hend] at h
        cases h
      · rw [if_neg hend] at h
        cases h

end ExpressionRules

/-- **What is read is written.** -/
theorem expressionRules : ∀ n : Nat, ExpressionRules n
  | 0 => {
      nested := nofun
      level := nofun
      operand := nofun
      chain := nofun
      unary := nofun
      trail := nofun
      arguments := nofun
      someArguments := nofun
      primary := nofun }
  | n + 1 =>
    have ih := expressionRules n
    { nested := ih.nested_succ
      level := ih.level_succ
      operand := ih.operand_succ
      chain := ih.chain_succ
      unary := ih.unary_succ
      trail := ih.trail_succ
      arguments := ih.arguments_succ
      someArguments := ih.someArguments_succ
      primary := ih.primary_succ }

/-! ## Whole expressions -/

section Whole

variable {c c' : Cursor} {e : Expr} {ts : List Token} {n : Nat}

theorem Expression.read (h : Expression e ts) (hl : c.levels = 0) (hc : c.lexeme.hold = 0)
    (hn : 20 * ts.length ≤ n + 1) : expression n (c.before ts) = .ok (e, c) := by
  have hnested := h.written.runs (c := c) (m := n) (by rw [hl]; decide) h.depth hc hn
  exact bind_eq_ok.2 ⟨_, hnested, rfl⟩

theorem expression_sound (h : expression n c = .ok (e, c')) (hl : c.levels = 0) :
    ∃ ts, c = c'.before ts ∧ Expression e ts ∧ c'.lexeme.hold = 0 := by
  obtain ⟨⟨r, c₁⟩, hnested, h⟩ := bind_eq_ok.1 h
  cases h
  obtain ⟨hfound, hhold⟩ := (expressionRules n).nested hnested
  obtain ⟨ts, hts, hw⟩ := hfound.tokens
  rw [hl] at hw
  exact ⟨ts, hts, ⟨hw, Nat.le_trans (Nat.le_of_eq hfound.depth) hfound.limit⟩, hhold⟩

end Whole

end Ember.Source
