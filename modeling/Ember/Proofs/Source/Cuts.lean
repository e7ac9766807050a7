import Ember.Proofs.Source.Descent

/-!
# Tokens that are cut off

A list of tokens is cut, and the end put in the stead of what is behind. The same rule is run in
both lists, in front of the same tokens.

**Theorem (`Cut.expressions`).** Where a rule for expressions succeeds in the whole list, it answers
in the list that is cut in one of three ways (`Cut.Meets`): as in the whole list, if it does not
reach the cut; with less, at the cut, if what is missing may be missing; or not at all, for one of
the reasons in `Cut.Allows`.

The two runs take the same steps as long as their cursors form a `Cut.Pair`. Once the second has
come to the cut (`Cut.Ended`) only the first goes on, and the lemmas on `Cut.Ended` say what a rule
answers in front of the end. The limits do not stop the second run alone: it has as many levels and
blocks open, and what it has read is no deeper (`Cut.Shallower`). The one exception is an argument
that is missing; there the level is opened before the end is seen.
-/

namespace Ember.Source

open Ember.Source.Parser

/-- The lexemes behind which a name for the role has to stand, or may. -/
def NameRole.follows : NameRole → Lexeme → Bool
  | .variable, .keyword .let_ | .function, .keyword .func | .parameter, .symbol .openParen
  | .parameter, .symbol .comma | .module, .keyword .import_ | .module, .symbol .dot
  | .newName, .keyword .as | .attribute, .symbol .dot => true
  | _, _ => false

theorem NameRole.follows_finish (role : NameRole) : role.follows .finish = false := by
  cases role <;> rfl

/-- A cut of a list of tokens: those behind it, the place of the end that is put in their stead, and
the last lexeme in front. -/
structure Cut where
  behind : List Token
  place : Place
  last : Lexeme

/-- As many levels and blocks are open at the second of two cursors as at the first. -/
structure AsOpen (c c' : Cursor) : Prop where
  levels : c'.levels = c.levels
  blocks : c'.blocks = c.blocks

theorem AsOpen.of_passed {b : Bool} {c c' : Cursor} (h : Passed b c c') : AsOpen c c' :=
  ⟨h.levels, h.blocks⟩

theorem AsOpen.behind {b : Bool} {c c₁ c' : Cursor} (h : AsOpen c c') (hp : Passed b c c₁) :
    AsOpen c₁ c' :=
  ⟨h.levels.trans hp.levels.symm, h.blocks.trans hp.blocks.symm⟩

namespace Cut

/-- The end that stands in the stead of what is cut off. -/
def finish (k : Cut) : Token := ⟨.finish, k.place⟩

/-- Two cursors in front of the same tokens up to the cut, the second in the list that is cut
there. -/
structure Pair (k : Cut) (us : List Token) (c d : Cursor) : Prop where
  whole : c.rest = us ++ k.behind
  part : d.rest = us ++ [k.finish]
  levels : d.levels = c.levels
  blocks : d.blocks = c.blocks
  last : ∀ t ∈ us.getLast?, t.lexeme = k.last

/-- The second cursor stands at the cut; as much is open as at the first. -/
structure Ended (k : Cut) (c d : Cursor) : Prop where
  part : d.rest = [k.finish]
  levels : d.levels = c.levels
  blocks : d.blocks = c.blocks

/-- Why reading stops at a cut. -/
inductive Allows (k : Cut) : Stop → Prop
  | budget : Allows k .budget
  | ended : Allows k (.fault .ended)
  | name {role : NameRole} : role.follows k.last →
    Allows k (.fault (.unexpected (.name role) k.finish))
  | depth : k.last = .symbol .openParen → Allows k (.fault (.flaw .expressionDepth k.place))

/-- What a rule may answer in the list that is cut where it returns `r` in the whole list, with the
cursor `c` behind it: the same, something less at the cut, or why it stops there. -/
inductive Meets {α : Type} (k : Cut) (R : α → α → Prop) (r : α) (c : Cursor) :
    Except Stop (Read α) → Prop
  | same {us : List Token} {d : Cursor} : k.Pair us c d → Meets k R r c (.ok (r, d))
  | ended {a : α} {d : Cursor} : R a r → k.Ended c d → Meets k R r c (.ok (a, d))
  | stopped {s : Stop} : k.Allows s → Meets k R r c (.error s)

/-- Reading stops at the cut. -/
def Fails {α : Type} (k : Cut) (x : Except Stop α) : Prop := ∃ s, x = .error s ∧ k.Allows s

section

variable {α β : Type} {k : Cut} {R : α → α → Prop} {S : β → β → Prop} {r : α} {q : β}
  {c c' c₁ d d' : Cursor} {us : List Token} {x : Except Stop (Read α)}

theorem Fails.bind {y : Except Stop α} (h : k.Fails y) (f : α → Except Stop β) :
    k.Fails (y >>= f) := by
  obtain ⟨s, rfl, hs⟩ := h
  exact ⟨s, rfl, hs⟩

theorem Fails.meets (h : k.Fails x) : k.Meets R r c x := by
  obtain ⟨s, rfl, hs⟩ := h
  exact .stopped hs

theorem Meets.bind {f : Read α → Except Stop (Read β)} (h : k.Meets R r c₁ x)
    (hsame : ∀ us d, k.Pair us c₁ d → k.Meets S q c (f (r, d)))
    (hended : ∀ a d, R a r → k.Ended c₁ d → k.Meets S q c (f (a, d))) :
    k.Meets S q c (x >>= f) := by
  cases h with
  | same h => exact hsame _ _ h
  | ended hr h => exact hended _ _ hr h
  | stopped h => exact .stopped h

/-! ## At the cut -/

namespace Ended

theorem lexeme (h : k.Ended c d) : d.lexeme = .finish := by
  rw [Cursor.lexeme, Cursor.token, h.part]
  rfl

theorem sees (h : k.Ended c d) (s : Symbol) : ¬ d.sees s := by
  rw [Cursor.sees_iff, h.lexeme]
  nofun

theorem seesKeyword (h : k.Ended c d) (j : Keyword) : ¬ d.seesKeyword j := by
  rw [Cursor.seesKeyword_iff, h.lexeme]
  nofun

theorem atEnd (h : k.Ended c d) : d.atEnd := Cursor.atEnd_iff.2 h.lexeme

theorem expect (h : k.Ended c d) (s : Symbol) : k.Fails (d.expect s) := by
  rw [Cursor.expect, if_neg (h.sees s), if_pos h.atEnd]
  exact ⟨_, rfl, .ended⟩

theorem expectName (h : k.Ended c d) {role : NameRole} (hrole : role.follows k.last) :
    k.Fails (d.expectName role) := by
  have htoken : d.token = k.finish := by rw [Cursor.token, h.part]; rfl
  refine ⟨_, ?_, .name hrole⟩
  rw [Cursor.expectName, h.lexeme, htoken]

theorem flaw (h : k.Ended c d) (f : Flaw) : d.flaw f = .fault (.flaw f k.place) := by
  rw [Cursor.flaw, Cursor.token, h.part]
  rfl

theorem primary (h : k.Ended c d) (m : Nat) : k.Fails (primary m d) := by
  obtain _ | m := m
  · exact ⟨_, rfl, .budget⟩
  rw [Parser.primary, h.lexeme]
  dsimp only [leaf?]
  rw [if_neg (h.sees _), if_pos h.atEnd]
  exact ⟨_, rfl, .ended⟩

theorem unary (h : k.Ended c d) (m : Nat) : k.Fails (unary m d) := by
  obtain _ | m := m
  · exact ⟨_, rfl, .budget⟩
  rw [Parser.unary, h.lexeme]
  exact (h.primary m).bind _

theorem level_operand (h : k.Ended c d) (m : Nat) (l : Level) :
    k.Fails (level m l d) ∧ k.Fails (operand m l d) := by
  induction m generalizing l with
  | zero => exact ⟨⟨_, rfl, .budget⟩, ⟨_, rfl, .budget⟩⟩
  | succ m ih =>
    refine ⟨?_, ?_⟩
    · rw [level]
      exact (ih l).2.bind _
    · rw [operand]
      split
      · exact (ih _).1
      · exact h.unary m

theorem nested (h : k.Ended c d) (m : Nat) (hlast : k.last = .symbol .openParen) :
    k.Fails (nested m d) := by
  obtain _ | m := m
  · exact ⟨_, rfl, .budget⟩
  rw [Parser.nested, Cursor.enterLevel]
  split
  · rw [h.flaw]
    exact ⟨_, rfl, .depth hlast⟩
  · have h : k.Ended { c with levels := c.levels + 1 } { d with levels := d.levels + 1 } :=
      ⟨h.part, congrArg Nat.succ h.levels, h.blocks⟩
    exact (h.level_operand m _).1.bind _

/-- There is no argument at the cut; that no level is left for one may be seen first. -/
theorem arguments (h : k.Ended c d) (m : Nat) (hlast : k.last = .symbol .openParen) :
    k.Fails (arguments m d) := by
  obtain _ | m := m
  · exact ⟨_, rfl, .budget⟩
  rw [Parser.arguments, if_neg (h.sees _)]
  obtain _ | m := m
  · exact ⟨_, rfl, .budget⟩
  rw [Parser.someArguments]
  exact (h.nested m hlast).bind _

theorem leaveLevel (h : k.Ended c d) : k.Ended c.leaveLevel d.leaveLevel where
  part := h.part
  levels := congrArg (· - 1) h.levels
  blocks := h.blocks

theorem leaveBlock (h : k.Ended c d) : k.Ended c.leaveBlock d.leaveBlock where
  part := h.part
  levels := h.levels
  blocks := congrArg (· - 1) h.blocks

theorem move (h : k.Ended c d) (ho : AsOpen c c') : k.Ended c' d where
  part := h.part
  levels := h.levels.trans ho.levels.symm
  blocks := h.blocks.trans ho.blocks.symm

end Ended

/-! ## Steps in front of the cut -/

/-- What two cursors of a pair see: the second one the cut, or both the same token. -/
inductive Sight (k : Cut) (us : List Token) (c d : Cursor) : Prop
  | ended : us = [] → k.Ended c d → Sight k us c d
  | token {vs : List Token} : us ≠ [] → d.token = c.token → d.lexeme = c.lexeme →
    k.Pair vs c.advance d.advance → (vs = [] → c.lexeme = k.last) → Sight k us c d

/-- The answers of two cursors to whether a certain lexeme comes next: it does for both, for none,
or only for the first since it is cut off. -/
inductive Look (k : Cut) (c d : Cursor) : Bool → Bool → Prop
  | both {vs : List Token} : k.Pair vs c.advance d.advance → (vs = [] → c.lexeme = k.last) →
    Look k c d true true
  | neither : Look k c d false false
  | cut : k.Ended c d → Look k c d true false

theorem Look.of_ended {p p' : Bool} (h : k.Ended c d) (hp : p' = false) : k.Look c d p p' := by
  subst hp
  cases p with
  | false => exact .neither
  | true => exact .cut h

theorem Look.of_next {p p' : Bool} {vs : List Token} (hp : p' = p)
    (hnext : k.Pair vs c.advance d.advance) (hlast : vs = [] → c.lexeme = k.last) :
    k.Look c d p p' := by
  subst hp
  cases p' with
  | false => exact .neither
  | true => exact .both hnext hlast

namespace Pair

theorem ended (h : k.Pair [] c d) : k.Ended c d := ⟨h.part, h.levels, h.blocks⟩

theorem sight (h : k.Pair us c d) : k.Sight us c d := by
  obtain _ | ⟨t, vs⟩ := us
  · exact .ended rfl h.ended
  have htoken : d.token = c.token := by
    simp only [Cursor.token, h.whole, h.part]
    rfl
  have hnext : k.Pair vs c.advance d.advance := {
    whole := congrArg List.tail h.whole
    part := congrArg List.tail h.part
    levels := h.levels
    blocks := h.blocks
    last := fun u hu => h.last u (by rw [List.getLast?_cons, hu]; rfl) }
  refine .token (List.cons_ne_nil _ _) htoken (congrArg Token.lexeme htoken) hnext fun hvs => ?_
  subst hvs
  have hc : c.token = t := by rw [Cursor.token, h.whole]; rfl
  rw [Cursor.lexeme, hc]
  exact h.last t rfl

theorem look_sees (h : k.Pair us c d) (s : Symbol) : k.Look c d (c.sees s) (d.sees s) := by
  cases h.sight with
  | ended _ hend => exact .of_ended hend (Bool.eq_false_iff.2 (hend.sees s))
  | token _ _ hx hnext hlast => exact .of_next (Cursor.sees_congr hx s) hnext hlast

theorem look_seesKeyword (h : k.Pair us c d) (j : Keyword) :
    k.Look c d (c.seesKeyword j) (d.seesKeyword j) := by
  cases h.sight with
  | ended _ hend => exact .of_ended hend (Bool.eq_false_iff.2 (hend.seesKeyword j))
  | token _ _ hx hnext hlast => exact .of_next (Cursor.seesKeyword_congr hx j) hnext hlast

theorem leaveLevel (h : k.Pair us c d) : k.Pair us c.leaveLevel d.leaveLevel where
  whole := h.whole
  part := h.part
  levels := congrArg (· - 1) h.levels
  blocks := h.blocks
  last := h.last

theorem leaveBlock (h : k.Pair us c d) : k.Pair us c.leaveBlock d.leaveBlock where
  whole := h.whole
  part := h.part
  levels := h.levels
  blocks := congrArg (· - 1) h.blocks
  last := h.last

theorem bind_enterLevel {f : Cursor → Except Stop (Read β)} (h : k.Pair us c d)
    (hc : c.enterLevel = .ok c₁) (hf : ∀ d, k.Pair us c₁ d → k.Meets S q c' (f d)) :
    k.Meets S q c' (d.enterLevel >>= f) := by
  obtain ⟨hl, rfl⟩ := Cursor.enterLevel_eq_ok.1 hc
  rw [← h.levels] at hl
  rw [Cursor.enterLevel_eq_ok.2 ⟨hl, rfl⟩]
  exact hf _ ⟨h.whole, h.part, congrArg Nat.succ h.levels, h.blocks, h.last⟩

theorem bind_enterBlock {f : Cursor → Except Stop (Read β)} (h : k.Pair us c d)
    (hc : c.enterBlock = .ok c₁) (hf : ∀ d, k.Pair us c₁ d → k.Meets S q c' (f d)) :
    k.Meets S q c' (d.enterBlock >>= f) := by
  obtain ⟨hb, rfl⟩ := Cursor.enterBlock_eq_ok.1 hc
  rw [← h.blocks] at hb
  rw [Cursor.enterBlock_eq_ok.2 ⟨hb, rfl⟩]
  exact hf _ ⟨h.whole, h.part, h.levels, congrArg Nat.succ h.blocks, h.last⟩

theorem bind_expect {s : Symbol} {f : Cursor → Except Stop (Read β)} (h : k.Pair us c d)
    (hc : c.expect s = .ok c₁)
    (hf : ∀ vs d, k.Pair vs c₁ d → (vs = [] → k.last = .symbol s) → k.Meets S q c' (f d)) :
    k.Meets S q c' (d.expect s >>= f) := by
  cases h.sight with
  | ended _ h => exact ((h.expect s).bind f).meets
  | token _ _ hx hnext hlast =>
    obtain ⟨hs, rfl⟩ := Cursor.expect_eq_ok.1 hc
    rw [Cursor.expect_eq_ok.2 ⟨hx.trans hs, rfl⟩]
    exact hf _ _ hnext fun hvs => (hlast hvs).symm.trans hs

theorem bind_name {role : NameRole} {x : String} {f : Read String → Except Stop (Read β)}
    (h : k.Pair us c d) (hrole : us = [] → role.follows k.last)
    (hc : c.expectName role = .ok (x, c₁))
    (hf : ∀ vs d, k.Pair vs c₁ d → k.Meets S q c' (f (x, d))) :
    k.Meets S q c' (d.expectName role >>= f) := by
  cases h.sight with
  | ended hus h => exact ((h.expectName (hrole hus)).bind f).meets
  | token _ _ hx hnext _ =>
    obtain ⟨hs, rfl⟩ := Cursor.expectName_eq_ok.1 hc
    rw [Cursor.expectName_eq_ok.2 ⟨hx.trans hs, rfl⟩]
    exact hf _ _ hnext

end Pair

end

/-! ## Expressions -/

/-- The first of two expressions is not the deeper one. -/
def Shallower (a r : Expr × Nat) : Prop := a.2 ≤ r.2

/-- Whatever the results. -/
def Whatever {α : Type} (_ _ : α) : Prop := True

/-- How rules for expressions answer in the list that is cut, with `m` steps of budget. -/
structure Expressions (k : Cut) (m : Nat) : Prop where
  nested : ∀ {us : List Token} {c c' d : Cursor} {n : Nat} {r : Expr × Nat}, k.Pair us c d →
    nested n c = .ok (r, c') → k.Meets Shallower r c' (nested m d)
  level : ∀ {us : List Token} {c c' d : Cursor} {n : Nat} {l : Level} {r : Expr × Nat},
    k.Pair us c d → level n l c = .ok (r, c') → k.Meets Shallower r c' (level m l d)
  operand : ∀ {us : List Token} {c c' d : Cursor} {n : Nat} {l : Level} {r : Expr × Nat},
    k.Pair us c d → operand n l c = .ok (r, c') → k.Meets Shallower r c' (operand m l d)
  chain : ∀ {us : List Token} {c c' d : Cursor} {n : Nat} {l : Level} {a r : Expr × Nat},
    k.Pair us c d → chain n l a c = .ok (r, c') → k.Meets Shallower r c' (chain m l a d)
  unary : ∀ {us : List Token} {c c' d : Cursor} {n : Nat} {r : Expr × Nat}, k.Pair us c d →
    unary n c = .ok (r, c') → k.Meets Shallower r c' (unary m d)
  trail : ∀ {us : List Token} {c c' d : Cursor} {n : Nat} {a r : Expr × Nat}, k.Pair us c d →
    trail n a c = .ok (r, c') → k.Meets Shallower r c' (trail m a d)
  arguments : ∀ {us : List Token} {c c' d : Cursor} {n : Nat} {r : List Expr × Nat},
    k.Pair us c d → (us = [] → k.last = .symbol .openParen) → arguments n c = .ok (r, c') →
    k.Meets Whatever r c' (arguments m d)
  someArguments : ∀ {us : List Token} {c c' d : Cursor} {n : Nat} {r : List Expr × Nat},
    k.Pair us c d → someArguments n c = .ok (r, c') → k.Meets Whatever r c' (someArguments m d)
  primary : ∀ {us : List Token} {c c' d : Cursor} {n : Nat} {r : Expr × Nat}, k.Pair us c d →
    primary n c = .ok (r, c') → k.Meets Shallower r c' (primary m d)

section

variable {α β : Type} {k : Cut} {m n : Nat} {c c' c₁ d : Cursor} {us : List Token} {l : Level}
  {a r b : Expr × Nat} {rs : List Expr × Nat} {R : α → α → Prop} {q : α}

/-- What is less deep does not break the limit either, wherever it is read. -/
theorem bind_deeper {f : Nat → Except Stop (Read α)} {x z : Nat} (hx : x < maxDepth) (hz : z ≤ x)
    (hf : k.Meets R q c' (f (z + 1))) : k.Meets R q c' (d.deeper z >>= f) := by
  rw [Cursor.deeper_eq_ok.2 ⟨Nat.lt_of_le_of_lt hz hx, rfl⟩]
  exact hf

theorem Ended.chain (h : k.Ended c d) (hb : b.2 ≤ a.2) (hc : Parser.chain n l a c = .ok (r, c')) :
    k.Meets Shallower r c' (Parser.chain m l b d) := by
  obtain ⟨hpassed, hle, -⟩ := passed_chain hc
  obtain _ | m := m
  · exact .stopped .budget
  · rw [Parser.chain, h.lexeme]
    cases l <;> exact .ended (Nat.le_trans hb hle) (h.move (.of_passed hpassed))

theorem Ended.trail (h : k.Ended c d) (hb : b.2 ≤ a.2) (hc : Parser.trail n a c = .ok (r, c')) :
    k.Meets Shallower r c' (Parser.trail m b d) := by
  obtain ⟨hpassed, hle, -⟩ := passed_trail hc
  obtain _ | m := m
  · exact .stopped .budget
  · rw [Parser.trail, if_neg (h.sees _), if_neg (h.sees _)]
    exact .ended (Nat.le_trans hb hle) (h.move (.of_passed hpassed))

/-! ### What may follow -/

theorem Ended.branch {p : Bool} {y : Except Stop (Read α)} {one q : α} (hend : k.Ended c d)
    (hp : p = false) (hopen : AsOpen c c') :
    k.Meets Whatever q c' (if p then y else .ok (one, d)) := by
  subst hp
  exact .ended trivial (hend.move hopen)

theorem Pair.branch {p p' : Bool} {x y : Except Stop (Read α)} {one q : α} (hp : k.Pair us c d)
    (hlook : k.Look c d p p') (hopen : AsOpen c c')
    (hy : ∀ {vs}, p → k.Pair vs c.advance d.advance → (vs = [] → c.lexeme = k.last) →
      x = .ok (q, c') → k.Meets Whatever q c' y)
    (h : (if p then x else .ok (one, c)) = .ok (q, c')) :
    k.Meets Whatever q c' (if p' then y else .ok (one, d)) := by
  cases hlook with
  | both hnext hlast => exact hy rfl hnext hlast h
  | neither =>
    cases h
    exact .same hp
  | cut hend => exact hend.branch rfl hopen

/-- Something is made of what a rule returns. -/
theorem Meets.map {S : β → β → Prop} {x y : Except Stop (Read β)} {f : β → α} {q : α}
    (hy : ∀ {p c₂}, x = .ok (p, c₂) → k.Meets S p c₂ y)
    (h : (do let (p, c) ← x; return (f p, c)) = .ok (q, c')) :
    k.Meets Whatever q c' (do let (p, c) ← y; return (f p, c)) := by
  obtain ⟨⟨p, c₂⟩, hp, h⟩ := bind_eq_ok.1 h
  cases h
  exact (hy hp).bind (fun _ _ hp => .same hp) fun _ _ _ hend => .ended trivial hend

namespace Expressions

theorem nested_succ (ih : k.Expressions m) (hp : k.Pair us c d)
    (h : Parser.nested n c = .ok (r, c')) : k.Meets Shallower r c' (Parser.nested (m + 1) d) := by
  obtain _ | n := n
  · cases h
  rw [Parser.nested] at h ⊢
  obtain ⟨c₁, he, h⟩ := bind_eq_ok.1 h
  obtain ⟨⟨s, c₂⟩, hlevel, h⟩ := bind_eq_ok.1 h
  cases h
  refine hp.bind_enterLevel he fun d₁ hp => ?_
  exact (ih.level hp hlevel).bind (fun _ _ hp => .same hp.leaveLevel)
    fun _ _ ha hend => .ended ha hend.leaveLevel

theorem level_succ (ih : k.Expressions m) (hp : k.Pair us c d)
    (h : Parser.level n l c = .ok (r, c')) : k.Meets Shallower r c' (Parser.level (m + 1) l d) := by
  obtain _ | n := n
  · cases h
  rw [Parser.level] at h ⊢
  obtain ⟨⟨a, c₁⟩, hoperand, h⟩ := bind_eq_ok.1 h
  exact (ih.operand hp hoperand).bind (fun _ _ hp => ih.chain hp h) fun _ _ ha hend =>
    hend.chain ha h

theorem operand_succ (ih : k.Expressions m) (hp : k.Pair us c d)
    (h : Parser.operand n l c = .ok (r, c')) :
    k.Meets Shallower r c' (Parser.operand (m + 1) l d) := by
  obtain _ | n := n
  · cases h
  rw [Parser.operand] at h ⊢
  cases l with
  | product => exact ih.unary hp h
  | _ => exact ih.level hp h

theorem chain_succ (ih : k.Expressions m) (hp : k.Pair us c d)
    (h : Parser.chain n l a c = .ok (r, c')) :
    k.Meets Shallower r c' (Parser.chain (m + 1) l a d) := by
  cases hp.sight with
  | ended _ hend => exact hend.chain (Nat.le_refl _) h
  | token _ _ hx hnext _ =>
    obtain _ | n := n
    · cases h
    rw [Parser.chain] at h ⊢
    rw [hx]
    cases hop : l.op? c.lexeme with
    | none =>
      rw [hop] at h
      cases h
      exact .same hp
    | some op =>
      rw [hop] at h
      obtain ⟨⟨b, c₁⟩, hoperand, h⟩ := bind_eq_ok.1 h
      obtain ⟨e, he, h⟩ := bind_eq_ok.1 h
      obtain ⟨hlimit, rfl⟩ := Cursor.deeper_eq_ok.1 he
      -- With the cut behind the operand, what is read so far is no deeper than in the whole list.
      refine (ih.operand hnext hoperand).bind (fun us d₁ hp => ?_) fun b' d₁ hb hend => ?_
      · exact bind_deeper hlimit (Nat.le_refl _) (ih.chain hp h)
      · have hb : max a.2 b'.2 ≤ max a.2 b.2 := by
          have : b'.2 ≤ b.2 := hb
          omega
        exact bind_deeper hlimit hb (hend.chain (Nat.succ_le_succ hb) h)

theorem unary_succ (ih : k.Expressions m) (hp : k.Pair us c d)
    (h : Parser.unary n c = .ok (r, c')) : k.Meets Shallower r c' (Parser.unary (m + 1) d) := by
  cases hp.sight with
  | ended _ hend => exact (hend.unary _).meets
  | token _ _ hx hnext _ =>
    obtain _ | n := n
    · cases h
    rw [Parser.unary] at h ⊢
    rw [hx]
    cases hop : unaryOp? c.lexeme with
    | none =>
      rw [hop] at h
      obtain ⟨⟨a, c₁⟩, hprimary, h⟩ := bind_eq_ok.1 h
      exact (ih.primary hp hprimary).bind (fun _ _ hp => ih.trail hp h) fun _ _ ha hend =>
        hend.trail ha h
    | some op =>
      rw [hop] at h
      obtain ⟨c₁, he, h⟩ := bind_eq_ok.1 h
      obtain ⟨⟨a, c₂⟩, hunary, h⟩ := bind_eq_ok.1 h
      obtain ⟨e, hd, h⟩ := bind_eq_ok.1 h
      obtain ⟨hlimit, rfl⟩ := Cursor.deeper_eq_ok.1 hd
      cases h
      refine hnext.bind_enterLevel he fun d₁ hp => ?_
      refine (ih.unary hp hunary).bind (fun _ _ hp => ?_) fun _ _ ha hend => ?_
      · exact bind_deeper hlimit (Nat.le_refl _) (.same hp.leaveLevel)
      · exact bind_deeper hlimit ha (.ended (Nat.succ_le_succ ha) hend.leaveLevel)

theorem trail_succ (ih : k.Expressions m) (hp : k.Pair us c d)
    (h : Parser.trail n a c = .ok (r, c')) :
    k.Meets Shallower r c' (Parser.trail (m + 1) a d) := by
  cases hp.sight with
  | ended _ hend => exact hend.trail (Nat.le_refl _) h
  | token _ _ hx hnext hlast =>
    obtain _ | n := n
    · cases h
    rw [Parser.trail] at h ⊢
    rw [Cursor.sees_congr hx, Cursor.sees_congr hx]
    by_cases hdot : c.sees .dot
    · rw [if_pos hdot] at h ⊢
      obtain ⟨⟨x, c₁⟩, hname, h⟩ := bind_eq_ok.1 h
      obtain ⟨e, he, h⟩ := bind_eq_ok.1 h
      obtain ⟨hlimit, rfl⟩ := Cursor.deeper_eq_ok.1 he
      refine hnext.bind_name (fun hvs => ?_) hname fun _ _ hp => ?_
      · rw [← hlast hvs, Cursor.sees_iff.1 hdot]
        rfl
      · exact bind_deeper hlimit (Nat.le_refl _) (ih.trail hp h)
    rw [if_neg hdot] at h ⊢
    by_cases hparen : c.sees .openParen
    · rw [if_pos hparen] at h ⊢
      obtain ⟨⟨rs, c₁⟩, hargs, h⟩ := bind_eq_ok.1 h
      obtain ⟨c₂, hclose, h⟩ := bind_eq_ok.1 h
      obtain ⟨e, he, h⟩ := bind_eq_ok.1 h
      obtain ⟨hlimit, rfl⟩ := Cursor.deeper_eq_ok.1 he
      -- The one place at which there may be no level left for what is missing.
      have hopen := fun hvs => (hlast hvs).symm.trans (Cursor.sees_iff.1 hparen)
      refine (ih.arguments hnext hopen hargs).bind (fun _ _ hp => ?_) fun _ _ _ hend => ?_
      · refine hp.bind_expect hclose fun _ _ hp _ => ?_
        exact bind_deeper hlimit (Nat.le_refl _) (ih.trail hp h)
      · exact ((hend.expect _).bind _).meets
    · rw [if_neg hparen] at h ⊢
      cases h
      exact .same hp

theorem arguments_succ (ih : k.Expressions m) (hp : k.Pair us c d)
    (hopen : us = [] → k.last = .symbol .openParen) (h : Parser.arguments n c = .ok (rs, c')) :
    k.Meets Whatever rs c' (Parser.arguments (m + 1) d) := by
  cases hp.sight with
  | ended hus hend => exact (hend.arguments _ (hopen hus)).meets
  | token _ _ hx _ _ =>
    obtain _ | n := n
    · cases h
    rw [Parser.arguments] at h ⊢
    rw [Cursor.sees_congr hx]
    by_cases hclose : c.sees .closeParen
    · rw [if_pos hclose] at h ⊢
      cases h
      exact .same hp
    · rw [if_neg hclose] at h ⊢
      exact ih.someArguments hp h

theorem someArguments_succ (ih : k.Expressions m) (hp : k.Pair us c d)
    (h : Parser.someArguments n c = .ok (rs, c')) :
    k.Meets Whatever rs c' (Parser.someArguments (m + 1) d) := by
  have hpassed : Passed true c c' :=
    (passed_of_run (r := .someArguments) trivial (product_eq_ok.2 ⟨_, h, rfl⟩)).1
  obtain _ | n := n
  · cases h
  rw [Parser.someArguments] at h ⊢
  obtain ⟨⟨a, c₁⟩, hnested, h⟩ := bind_eq_ok.1 h
  have hopen : AsOpen c₁ c' := (AsOpen.of_passed hpassed).behind (passed_nested hnested).1
  refine (ih.nested hp hnested).bind (fun _ _ hp => ?_) fun _ _ _ hend => ?_
  · let f : List Expr × Nat → List Expr × Nat := fun rs => (a.1 :: rs.1, max a.2 rs.2)
    exact hp.branch (hp.look_sees .comma) hopen
      (fun _ hnext _ => .map (f := f) (ih.someArguments hnext)) h
  · exact hend.branch (Bool.eq_false_iff.2 (hend.sees _)) hopen

theorem primary_succ (ih : k.Expressions m) (hp : k.Pair us c d)
    (h : Parser.primary n c = .ok (r, c')) : k.Meets Shallower r c' (Parser.primary (m + 1) d) := by
  cases hp.sight with
  | ended _ hend => exact (hend.primary _).meets
  | token _ _ hx hnext _ =>
    obtain _ | n := n
    · cases h
    rw [Parser.primary] at h ⊢
    rw [hx]
    cases hleaf : leaf? c.lexeme with
    | some e =>
      rw [hleaf] at h
      cases h
      exact .same hnext
    | none =>
      rw [hleaf] at h
      dsimp only at h ⊢
      rw [Cursor.sees_congr hx]
      by_cases hparen : c.sees .openParen
      · rw [if_pos hparen] at h ⊢
        obtain ⟨⟨a, c₁⟩, hnested, h⟩ := bind_eq_ok.1 h
        obtain ⟨c₂, hclose, h⟩ := bind_eq_ok.1 h
        cases h
        refine (ih.nested hnext hnested).bind (fun _ _ hp => ?_) fun _ _ _ hend => ?_
        · exact hp.bind_expect hclose fun _ _ hp _ => .same hp
        · exact ((hend.expect _).bind _).meets
      · rw [if_neg hparen] at h
        by_cases hend : c.atEnd
        · rw [if_pos hend] at h
          cases h
        · rw [if_neg hend] at h
          cases h

end Expressions

theorem expressions (k : Cut) : ∀ m : Nat, k.Expressions m
  | 0 => {
      nested := fun _ _ => .stopped .budget
      level := fun _ _ => .stopped .budget
      operand := fun _ _ => .stopped .budget
      chain := fun _ _ => .stopped .budget
      unary := fun _ _ => .stopped .budget
      trail := fun _ _ => .stopped .budget
      arguments := fun _ _ _ => .stopped .budget
      someArguments := fun _ _ => .stopped .budget
      primary := fun _ _ => .stopped .budget }
  | m + 1 =>
    have ih := expressions k m
    { nested := ih.nested_succ
      level := ih.level_succ
      operand := ih.operand_succ
      chain := ih.chain_succ
      unary := ih.unary_succ
      trail := ih.trail_succ
      arguments := ih.arguments_succ
      someArguments := ih.someArguments_succ
      primary := ih.primary_succ }

end

end Cut

end Ember.Source
