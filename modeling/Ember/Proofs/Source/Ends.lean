import Ember.Proofs.Source.Descent

/-!
# Where reading ends

**Theorem (`reading_ends`).** A list of tokens is read as a program in finitely many steps. No rule
goes past the first end in the list, and what stands behind this end makes no difference: not
whether it is there, nor what it is. If the end itself is left out, then reading answers as if it
stood at line 0 and column 0.

The same rule is run in two lists that are the same up to an end (`Endings`). As long as their
cursors are `Alike`, the two runs take the same steps, and at the end neither goes on. So they agree
(`Endings.expressions`, `Endings.statements`): they return the same, or fail in the same way, at the
same place or each at its own end. The two runs may have different budgets. One of them
may then use up its budget before the other, but a budget that is large enough is not used up
(`program_ne_budget`); so the theorems also say that more of it makes no difference.
-/

namespace Ember.Source

open Ember.Source.Parser

/-- The faults are the same, but for the place of the end if they are found there. -/
inductive Fault.SameUpToEnd (p q : Place) : Fault → Fault → Prop
  | same (f : Fault) : SameUpToEnd p q f f
  | flaw (f : Flaw) : SameUpToEnd p q (.flaw f p) (.flaw f q)
  | unexpected (x : Expected) :
    SameUpToEnd p q (.unexpected x ⟨.finish, p⟩) (.unexpected x ⟨.finish, q⟩)

/-- The same program is read, or none for the same reason. -/
inductive SameUpToEnd (p q : Place) : Except Fault Program → Except Fault Program → Prop
  | program (x : Program) : SameUpToEnd p q (.ok x) (.ok x)
  | fault {f g : Fault} : f.SameUpToEnd p q g → SameUpToEnd p q (.error f) (.error g)

theorem Fault.SameUpToEnd.eq {p : Place} {f g : Fault} (h : f.SameUpToEnd p p g) : f = g := by
  cases h <;> rfl

theorem SameUpToEnd.eq {p : Place} {x y : Except Fault Program} (h : SameUpToEnd p p x y) :
    x = y := by
  cases h with
  | program => rfl
  | fault h => rw [h.eq]

/-- Two ways in which a list of tokens may go on where it ends. The end need not be there. -/
structure Endings where
  one : List Token
  other : List Token
  place : Place
  otherPlace : Place
  one_ends : one.headD impliedFinish = ⟨.finish, place⟩ := by rfl
  other_ends : other.headD impliedFinish = ⟨.finish, otherPlace⟩ := by rfl

namespace Endings

/-- Two cursors in front of the same tokens, behind which the lists end in the two ways. -/
structure Alike (k : Endings) (c d : Cursor) : Prop where
  tokens : ∃ us, c.rest = us ++ k.one ∧ d.rest = us ++ k.other
  levels : d.levels = c.levels
  blocks : d.blocks = c.blocks

/-- What two runs of a rule have in common: both return, and what they return is related, or both
fail in the same way. Nothing is said of a run that uses up its budget. -/
inductive Agree {α β : Type} (k : Endings) (R : α → β → Prop) : Except Stop α → Except Stop β → Prop
  | ok {a : α} {b : β} : R a b → Agree k R (.ok a) (.ok b)
  | fault {f g : Fault} : f.SameUpToEnd k.place k.otherPlace g →
    Agree k R (.error (.fault f)) (.error (.fault g))
  | spent {y : Except Stop β} : Agree k R (.error .budget) y
  | otherSpent {x : Except Stop α} : Agree k R x (.error .budget)

/-- The same is returned, with cursors that are alike. -/
def Same {α : Type} (k : Endings) (r s : Read α) : Prop := r.1 = s.1 ∧ k.Alike r.2 s.2

variable {α β γ δ : Type} {k : Endings} {R : α → β → Prop} {S : γ → δ → Prop} {c d : Cursor}

theorem Agree.bind {x : Except Stop α} {y : Except Stop β} {f : α → Except Stop γ}
    {g : β → Except Stop δ} (h : k.Agree R x y)
    (hf : ∀ a b, x = .ok a → R a b → k.Agree S (f a) (g b)) : k.Agree S (x >>= f) (y >>= g) := by
  cases h with
  | ok h => exact hf _ _ rfl h
  | fault h => exact .fault h
  | spent => exact .spent
  | otherSpent => exact .otherSpent

theorem Agree.read {x y : Except Stop (Read α)} {f : Read α → Except Stop γ}
    {g : Read α → Except Stop δ} (h : k.Agree k.Same x y)
    (hf : ∀ a c d, x = .ok (a, c) → k.Alike c d → k.Agree S (f (a, c)) (g (a, d))) :
    k.Agree S (x >>= f) (y >>= g) := by
  refine h.bind ?_
  rintro ⟨a, c⟩ ⟨b, d⟩ hx ⟨rfl, hcd⟩
  exact hf _ _ _ hx hcd

/-! ## Small steps -/

namespace Alike

/-- Two cursors that are alike see the same token, and are alike behind it, or both are at the
end. -/
theorem sight (h : k.Alike c d) :
    d.token = c.token ∧ k.Alike c.advance d.advance ∨
      c.token = ⟨.finish, k.place⟩ ∧ d.token = ⟨.finish, k.otherPlace⟩ := by
  obtain ⟨us, hc, hd⟩ := h.tokens
  obtain _ | ⟨t, us⟩ := us
  · right
    rw [Cursor.token, Cursor.token, hc, hd]
    exact ⟨k.one_ends, k.other_ends⟩
  · left
    refine ⟨?_, ⟨us, congrArg List.tail hc, congrArg List.tail hd⟩, h.levels, h.blocks⟩
    simp only [Cursor.token, hc, hd]
    rfl

theorem lexeme (h : k.Alike c d) : d.lexeme = c.lexeme := by
  rcases h.sight with ⟨ht, -⟩ | ⟨hc, hd⟩
  · rw [Cursor.lexeme, ht, Cursor.lexeme]
  · rw [Cursor.lexeme, hd, Cursor.lexeme, hc]

theorem token (h : k.Alike c d) (hx : c.lexeme ≠ .finish) : d.token = c.token := by
  rcases h.sight with ⟨ht, -⟩ | ⟨hc, -⟩
  · exact ht
  · exact absurd (congrArg Token.lexeme hc) hx

theorem advance (h : k.Alike c d) (hx : c.lexeme ≠ .finish) : k.Alike c.advance d.advance := by
  rcases h.sight with ⟨-, hnext⟩ | ⟨hc, -⟩
  · exact hnext
  · exact absurd (congrArg Token.lexeme hc) hx

theorem sees (h : k.Alike c d) (s : Symbol) : d.sees s = c.sees s := Cursor.sees_congr h.lexeme s

theorem seesKeyword (h : k.Alike c d) (j : Keyword) : d.seesKeyword j = c.seesKeyword j :=
  Cursor.seesKeyword_congr h.lexeme j

theorem atEnd (h : k.Alike c d) : d.atEnd = c.atEnd := Cursor.atEnd_congr h.lexeme

theorem behind (h : k.Alike c d) {s : Symbol} (hs : c.sees s) : k.Alike c.advance d.advance :=
  h.advance (by simp [Cursor.sees_iff.1 hs])

theorem behindKeyword (h : k.Alike c d) {j : Keyword} (hj : c.seesKeyword j) :
    k.Alike c.advance d.advance :=
  h.advance (by simp [Cursor.seesKeyword_iff.1 hj])

theorem leaveLevel (h : k.Alike c d) : k.Alike c.leaveLevel d.leaveLevel :=
  ⟨h.tokens, congrArg (· - 1) h.levels, h.blocks⟩

theorem leaveBlock (h : k.Alike c d) : k.Alike c.leaveBlock d.leaveBlock :=
  ⟨h.tokens, h.levels, congrArg (· - 1) h.blocks⟩

theorem skip (h : k.Alike c d) (s : Symbol) : k.Alike (c.skip s) (d.skip s) := by
  unfold Cursor.skip
  rw [h.sees]
  split
  · exact h.behind ‹_›
  · exact h

/-- A flaw at the next token. -/
theorem flaw (h : k.Alike c d) (f : Flaw) :
    k.Agree R (.error (c.flaw f)) (.error (d.flaw f)) := by
  unfold Cursor.flaw
  rcases h.sight with ⟨ht, -⟩ | ⟨hc, hd⟩
  · rw [ht]
    exact .fault (.same _)
  · rw [hc, hd]
    exact .fault (.flaw f)

/-- Another token is expected. -/
theorem unexpected (h : k.Alike c d) (x : Expected) :
    k.Agree R (.error (.fault (.unexpected x c.token)))
      (.error (.fault (.unexpected x d.token))) := by
  rcases h.sight with ⟨ht, -⟩ | ⟨hc, hd⟩
  · rw [ht]
    exact .fault (.same _)
  · rw [hc, hd]
    exact .fault (.unexpected x)

theorem enterLevel (h : k.Alike c d) : k.Agree k.Alike c.enterLevel d.enterLevel := by
  unfold Cursor.enterLevel
  rw [h.levels]
  split
  · exact h.flaw _
  · exact .ok ⟨h.tokens, rfl, h.blocks⟩

theorem enterBlock (h : k.Alike c d) : k.Agree k.Alike c.enterBlock d.enterBlock := by
  unfold Cursor.enterBlock
  rw [h.blocks]
  split
  · exact h.flaw _
  · exact .ok ⟨h.tokens, h.levels, rfl⟩

theorem expect (h : k.Alike c d) (s : Symbol) : k.Agree k.Alike (c.expect s) (d.expect s) := by
  unfold Cursor.expect
  rw [h.sees, h.atEnd]
  split
  · exact .ok (h.behind ‹_›)
  · split
    · exact .fault (.same _)
    · exact h.unexpected _

theorem expectName (h : k.Alike c d) (role : NameRole) :
    k.Agree k.Same (c.expectName role) (d.expectName role) := by
  unfold Cursor.expectName
  rw [h.lexeme]
  split
  · next hx => exact .ok ⟨rfl, h.advance (by simp [hx])⟩
  · exact h.unexpected _

theorem deeper (h : k.Alike c d) (n : Nat) : k.Agree Eq (c.deeper n) (d.deeper n) := by
  unfold Cursor.deeper
  split
  · exact h.flaw _
  · exact .ok rfl

end Alike

/-! ## Expressions -/

/-- Rules for expressions agree in the two lists, with `m` steps of budget in the first. -/
structure Expressions (k : Endings) (m : Nat) : Prop where
  nested : ∀ {c d : Cursor} {n : Nat}, k.Alike c d → k.Agree k.Same (nested m c) (nested n d)
  level : ∀ {c d : Cursor} {n : Nat} {l : Level}, k.Alike c d →
    k.Agree k.Same (level m l c) (level n l d)
  operand : ∀ {c d : Cursor} {n : Nat} {l : Level}, k.Alike c d →
    k.Agree k.Same (operand m l c) (operand n l d)
  chain : ∀ {c d : Cursor} {n : Nat} {l : Level} {r : Expr × Nat}, k.Alike c d →
    k.Agree k.Same (chain m l r c) (chain n l r d)
  unary : ∀ {c d : Cursor} {n : Nat}, k.Alike c d → k.Agree k.Same (unary m c) (unary n d)
  trail : ∀ {c d : Cursor} {n : Nat} {r : Expr × Nat}, k.Alike c d →
    k.Agree k.Same (trail m r c) (trail n r d)
  arguments : ∀ {c d : Cursor} {n : Nat}, k.Alike c d →
    k.Agree k.Same (arguments m c) (arguments n d)
  someArguments : ∀ {c d : Cursor} {n : Nat}, k.Alike c d →
    k.Agree k.Same (someArguments m c) (someArguments n d)
  primary : ∀ {c d : Cursor} {n : Nat}, k.Alike c d → k.Agree k.Same (primary m c) (primary n d)

variable {m n line : Nat} {l : Level} {r : Expr × Nat}

namespace Expressions

theorem nested_succ (ih : k.Expressions m) (h : k.Alike c d) :
    k.Agree k.Same (Parser.nested (m + 1) c) (Parser.nested n d) := by
  obtain _ | n := n
  · exact .otherSpent
  rw [Parser.nested, Parser.nested]
  refine h.enterLevel.bind fun _ _ _ h => (ih.level h).read fun _ _ _ _ h => ?_
  exact .ok ⟨rfl, h.leaveLevel⟩

theorem level_succ (ih : k.Expressions m) (h : k.Alike c d) :
    k.Agree k.Same (Parser.level (m + 1) l c) (Parser.level n l d) := by
  obtain _ | n := n
  · exact .otherSpent
  rw [Parser.level, Parser.level]
  exact (ih.operand h).read fun _ _ _ _ h => ih.chain h

theorem operand_succ (ih : k.Expressions m) (h : k.Alike c d) :
    k.Agree k.Same (Parser.operand (m + 1) l c) (Parser.operand n l d) := by
  obtain _ | n := n
  · exact .otherSpent
  rw [Parser.operand, Parser.operand]
  cases l with
  | product => exact ih.unary h
  | _ => exact ih.level h

theorem chain_succ (ih : k.Expressions m) (h : k.Alike c d) :
    k.Agree k.Same (Parser.chain (m + 1) l r c) (Parser.chain n l r d) := by
  obtain _ | n := n
  · exact .otherSpent
  rw [Parser.chain, Parser.chain, h.lexeme]
  cases hop : l.op? c.lexeme with
  | none => exact .ok ⟨rfl, h⟩
  | some op =>
    have hx := BinaryOp.ne_finish (op?_eq_some_iff.1 hop).2
    refine (ih.operand (h.advance hx)).read fun _ _ _ _ h => (h.deeper _).bind ?_
    rintro depth _ - rfl
    exact ih.chain h

theorem unary_succ (ih : k.Expressions m) (h : k.Alike c d) :
    k.Agree k.Same (Parser.unary (m + 1) c) (Parser.unary n d) := by
  obtain _ | n := n
  · exact .otherSpent
  rw [Parser.unary, Parser.unary, h.lexeme]
  cases hop : unaryOp? c.lexeme with
  | none => exact (ih.primary h).read fun _ _ _ _ h => ih.trail h
  | some op =>
    have hx := UnaryOp.ne_finish (unaryOp?_eq_some_iff.1 hop)
    refine (h.advance hx).enterLevel.bind fun _ _ _ h => (ih.unary h).read fun _ _ _ _ h => ?_
    refine (h.leaveLevel.deeper _).bind ?_
    rintro depth _ - rfl
    exact .ok ⟨rfl, h.leaveLevel⟩

theorem trail_succ (ih : k.Expressions m) (h : k.Alike c d) :
    k.Agree k.Same (Parser.trail (m + 1) r c) (Parser.trail n r d) := by
  obtain _ | n := n
  · exact .otherSpent
  rw [Parser.trail, Parser.trail, h.sees, h.sees]
  split
  · refine ((h.behind ‹_›).expectName _).read fun _ _ _ _ h => (h.deeper _).bind ?_
    rintro depth _ - rfl
    exact ih.trail h
  · split
    · refine (ih.arguments (h.behind ‹_›)).read fun _ _ _ _ h => (h.expect _).bind fun _ _ _ h => ?_
      refine (h.deeper _).bind ?_
      rintro depth _ - rfl
      exact ih.trail h
    · exact .ok ⟨rfl, h⟩

theorem arguments_succ (ih : k.Expressions m) (h : k.Alike c d) :
    k.Agree k.Same (Parser.arguments (m + 1) c) (Parser.arguments n d) := by
  obtain _ | n := n
  · exact .otherSpent
  rw [Parser.arguments, Parser.arguments, h.sees]
  split
  · exact .ok ⟨rfl, h⟩
  · exact ih.someArguments h

theorem someArguments_succ (ih : k.Expressions m) (h : k.Alike c d) :
    k.Agree k.Same (Parser.someArguments (m + 1) c) (Parser.someArguments n d) := by
  obtain _ | n := n
  · exact .otherSpent
  rw [Parser.someArguments, Parser.someArguments]
  refine (ih.nested h).read fun _ _ _ _ h => ?_
  dsimp only
  rw [h.sees]
  split
  · refine (ih.someArguments (h.behind ‹_›)).read fun _ _ _ _ h => ?_
    exact .ok ⟨rfl, h⟩
  · exact .ok ⟨rfl, h⟩

theorem primary_succ (ih : k.Expressions m) (h : k.Alike c d) :
    k.Agree k.Same (Parser.primary (m + 1) c) (Parser.primary n d) := by
  obtain _ | n := n
  · exact .otherSpent
  rw [Parser.primary, Parser.primary, h.lexeme]
  cases hleaf : leaf? c.lexeme with
  | some e =>
    have hx : c.lexeme ≠ .finish := fun hx => by rw [hx] at hleaf; cases hleaf
    exact .ok ⟨rfl, h.advance hx⟩
  | none =>
    dsimp only
    rw [h.sees, h.atEnd]
    split
    · refine (ih.nested (h.behind ‹_›)).read fun _ _ _ _ h => (h.expect _).bind fun _ _ _ h => ?_
      exact .ok ⟨rfl, h⟩
    · split
      · exact .fault (.same _)
      · exact h.flaw _

end Expressions

/-- **Rules for expressions agree**, whatever their budgets. -/
theorem expressions (k : Endings) : ∀ m : Nat, k.Expressions m
  | 0 => {
      nested := fun _ => .spent
      level := fun _ => .spent
      operand := fun _ => .spent
      chain := fun _ => .spent
      unary := fun _ => .spent
      trail := fun _ => .spent
      arguments := fun _ => .spent
      someArguments := fun _ => .spent
      primary := fun _ => .spent }
  | m + 1 =>
    have ih := expressions k m
    { nested := ih.nested_succ
      level := ih.level_succ
      operand := ih.operand_succ
      chain := ih.chain_succ
      unary := ih.unary_succ
      trail := ih.trail_succ
      arguments := ih.arguments_succ
      someArguments := ih.someArguments_succ
      primary := ih.primary_succ }

/-! ## Statements without blocks -/

namespace Alike

theorem path (h : k.Alike c d) : k.Agree k.Same (path m c) (path n d) := by
  induction m generalizing c d n with
  | zero => exact .spent
  | succ m ih =>
    obtain _ | n := n
    · exact .otherSpent
    rw [Parser.path, Parser.path]
    refine (h.expectName _).read fun _ _ _ _ h => ?_
    dsimp only
    rw [h.sees]
    split
    · refine (ih (h.behind ‹_›)).read fun _ _ _ _ h => ?_
      exact .ok ⟨rfl, h⟩
    · exact .ok ⟨rfl, h⟩

theorem parameters {seen : List String} (h : k.Alike c d) :
    k.Agree k.Same (parameters m seen c) (parameters n seen d) := by
  induction m generalizing c d n seen with
  | zero => exact .spent
  | succ m ih =>
    obtain _ | n := n
    · exact .otherSpent
    rw [Parser.parameters, Parser.parameters]
    refine (h.expectName _).read fun x c₁ d₁ hname h₁ => ?_
    dsimp only
    split
    · have hx : c.lexeme ≠ .finish := by simp [(Cursor.expectName_eq_ok.1 hname).1]
      rw [h.token hx]
      exact .fault (.same _)
    · rw [h₁.sees]
      split
      · refine (ih (h₁.behind ‹_›)).read fun _ _ _ _ h => ?_
        exact .ok ⟨rfl, h⟩
      · exact .ok ⟨rfl, h₁⟩

theorem signature (h : k.Alike c d) : k.Agree k.Same (signature m c) (signature n d) := by
  unfold Parser.signature
  refine (h.expectName _).read fun _ _ _ _ h => (h.expect _).bind fun c d _ h => ?_
  dsimp only
  rw [h.sees]
  split
  · refine (h.expect _).bind fun _ _ _ h => ?_
    exact .ok ⟨rfl, h⟩
  · refine h.parameters.read fun _ _ _ _ h => (h.expect _).bind fun _ _ _ h => ?_
    exact .ok ⟨rfl, h⟩

theorem expression (h : k.Alike c d) : k.Agree k.Same (expression m c) (expression n d) := by
  unfold Parser.expression
  refine ((k.expressions m).nested h).read fun _ _ _ _ h => ?_
  exact .ok ⟨rfl, h⟩

theorem letStatement (h : k.Alike c d) :
    k.Agree k.Same (letStatement m line c) (letStatement n line d) := by
  unfold Parser.letStatement
  refine (h.expectName _).read fun _ _ _ _ h => (h.expect _).bind fun _ _ _ h => ?_
  refine h.expression.read fun _ _ _ _ h => ?_
  exact .ok ⟨rfl, h⟩

theorem returnStatement (h : k.Alike c d) :
    k.Agree k.Same (returnStatement m line c) (returnStatement n line d) := by
  have hnone : (d.sees .closeBrace || d.sees .semicolon || d.atEnd || d.token.place.line ≠ line) =
      (c.sees .closeBrace || c.sees .semicolon || c.atEnd || c.token.place.line ≠ line) := by
    rw [h.sees, h.sees, h.atEnd]
    by_cases hx : c.lexeme = .finish
    · simp [Cursor.atEnd_iff.2 hx]
    · rw [h.token hx]
  unfold Parser.returnStatement
  rw [hnone]
  split
  · exact .ok ⟨rfl, h⟩
  · refine h.expression.read fun _ _ _ _ h => ?_
    exact .ok ⟨rfl, h⟩

theorem importStatement (h : k.Alike c d) :
    k.Agree k.Same (importStatement m line c) (importStatement n line d) := by
  unfold Parser.importStatement
  refine h.path.read fun _ _ _ _ h => ?_
  dsimp only
  rw [h.seesKeyword]
  split
  · refine ((h.behindKeyword ‹_›).expectName _).read fun _ _ _ _ h => ?_
    exact .ok ⟨rfl, h⟩
  · exact .ok ⟨rfl, h⟩

theorem raiseStatement (h : k.Alike c d) :
    k.Agree k.Same (raiseStatement m line c) (raiseStatement n line d) := by
  unfold Parser.raiseStatement
  refine h.expression.read fun _ _ _ _ h => ?_
  exact .ok ⟨rfl, h⟩

/-- At the end the lines may differ: there is no expression there. -/
theorem expressionStatement {line' : Nat} (h : k.Alike c d)
    (hline : c.lexeme ≠ .finish → line' = line) :
    k.Agree k.Same (expressionStatement m line c) (expressionStatement n line' d) := by
  unfold Parser.expressionStatement
  refine h.expression.read fun target c₁ d₁ htarget h₁ => ?_
  have hx : c.lexeme ≠ .finish := (passed_expression htarget).lexeme_ne
  obtain rfl := hline hx
  rw [h.token hx]
  dsimp only
  rw [h₁.sees]
  split
  · refine (h₁.behind ‹_›).expression.read fun _ _ _ _ h => ?_
    dsimp only
    split
    · exact .ok ⟨rfl, h⟩
    · exact .ok ⟨rfl, h⟩
    · exact .fault (.same _)
  · exact .ok ⟨rfl, h₁⟩

end Alike

/-! ## Statements with blocks -/

/-- Rules for statements agree in the two lists, with `m` steps of budget in the first. -/
structure Statements (k : Endings) (m : Nat) : Prop where
  statement : ∀ {c d : Cursor} {n : Nat}, k.Alike c d →
    k.Agree k.Same (statement m c) (statement n d)
  bareStatement : ∀ {c d : Cursor} {n : Nat}, k.Alike c d →
    k.Agree k.Same (bareStatement m c) (bareStatement n d)
  conditional : ∀ {c d : Cursor} {n line : Nat}, k.Alike c d →
    k.Agree k.Same (conditional m line c) (conditional n line d)
  block : ∀ {c d : Cursor} {n : Nat}, k.Alike c d → k.Agree k.Same (block m c) (block n d)
  statements : ∀ {c d : Cursor} {n : Nat} {inner : Bool}, k.Alike c d →
    k.Agree k.Same (statements m inner c) (statements n inner d)

namespace Statements

theorem statement_succ (ih : k.Statements m) (h : k.Alike c d) :
    k.Agree k.Same (Parser.statement (m + 1) c) (Parser.statement n d) := by
  obtain _ | n := n
  · exact .otherSpent
  rw [Parser.statement, Parser.statement]
  refine (ih.bareStatement h).read fun _ _ _ _ h => ?_
  exact .ok ⟨rfl, h.skip _⟩

theorem bareStatement_succ (ih : k.Statements m) (h : k.Alike c d) :
    k.Agree k.Same (Parser.bareStatement (m + 1) c) (Parser.bareStatement n d) := by
  obtain _ | n := n
  · exact .otherSpent
  rw [Parser.bareStatement, Parser.bareStatement]
  dsimp only
  rw [h.lexeme]
  have hline : c.lexeme ≠ .finish → d.token.place.line = c.token.place.line := fun hx => by
    rw [h.token hx]
  have hnext : ∀ {j : Keyword}, c.lexeme = .keyword j →
      d.token.place.line = c.token.place.line ∧ k.Alike c.advance d.advance := fun hj =>
    have hx : c.lexeme ≠ .finish := by simp [hj]
    ⟨hline hx, h.advance hx⟩
  generalize d.token.place.line = line' at hline hnext ⊢
  split
  case h_1 hj =>
    obtain ⟨rfl, h⟩ := hnext hj
    exact h.letStatement
  case h_2 hj =>
    obtain ⟨rfl, h⟩ := hnext hj
    refine h.signature.read fun _ _ _ _ h => (ih.block h).read fun _ _ _ _ h => ?_
    exact .ok ⟨rfl, h⟩
  case h_3 hj =>
    obtain ⟨rfl, h⟩ := hnext hj
    exact ih.conditional h
  case h_4 hj =>
    obtain ⟨rfl, h⟩ := hnext hj
    refine h.expression.read fun _ _ _ _ h => (ih.block h).read fun _ _ _ _ h => ?_
    exact .ok ⟨rfl, h⟩
  case h_5 hj =>
    obtain ⟨rfl, h⟩ := hnext hj
    exact h.returnStatement
  case h_6 hj =>
    obtain ⟨rfl, h⟩ := hnext hj
    exact h.importStatement
  case h_7 hj =>
    obtain ⟨rfl, h⟩ := hnext hj
    exact h.raiseStatement
  case h_8 => exact h.expressionStatement hline

theorem conditional_succ (ih : k.Statements m) (h : k.Alike c d) :
    k.Agree k.Same (Parser.conditional (m + 1) line c) (Parser.conditional n line d) := by
  obtain _ | n := n
  · exact .otherSpent
  rw [Parser.conditional, Parser.conditional]
  refine h.expression.read fun _ _ _ _ h => (ih.block h).read fun _ _ _ _ h => ?_
  dsimp only
  rw [h.seesKeyword]
  split
  · have h := h.behindKeyword ‹_›
    rw [h.seesKeyword]
    split
    · next hif =>
      have hx := Cursor.seesKeyword_iff.1 hif
      rw [h.token (by simp [hx])]
      refine h.enterBlock.bind fun c d henter h => ?_
      have hx : c.lexeme = .keyword .if_ := by
        obtain ⟨-, rfl⟩ := Cursor.enterBlock_eq_ok.1 henter
        exact hx
      have h := h.advance (by simp [hx])
      refine (ih.conditional h).read fun _ _ _ _ h => ?_
      exact .ok ⟨rfl, h.leaveBlock⟩
    · refine (ih.block h).read fun _ _ _ _ h => ?_
      exact .ok ⟨rfl, h⟩
  · exact .ok ⟨rfl, h⟩

theorem block_succ (ih : k.Statements m) (h : k.Alike c d) :
    k.Agree k.Same (Parser.block (m + 1) c) (Parser.block n d) := by
  obtain _ | n := n
  · exact .otherSpent
  rw [Parser.block, Parser.block]
  refine h.enterBlock.bind fun _ _ _ h => (h.expect _).bind fun _ _ _ h => ?_
  refine (ih.statements h).read fun _ _ _ _ h => (h.expect _).bind fun _ _ _ h => ?_
  exact .ok ⟨rfl, h.leaveBlock⟩

theorem statements_succ {inner : Bool} (ih : k.Statements m) (h : k.Alike c d) :
    k.Agree k.Same (Parser.statements (m + 1) inner c) (Parser.statements n inner d) := by
  obtain _ | n := n
  · exact .otherSpent
  rw [Parser.statements, Parser.statements, h.atEnd, h.sees, h.sees]
  split
  · exact .ok ⟨rfl, h⟩
  · split
    · exact ih.statements (h.behind ‹_›)
    · refine (ih.statement h).read fun _ _ _ _ h => (ih.statements h).read fun _ _ _ _ h => ?_
      exact .ok ⟨rfl, h⟩

end Statements

/-- **Rules for statements agree**, whatever their budgets. -/
theorem statements (k : Endings) : ∀ m : Nat, k.Statements m
  | 0 => {
      statement := fun _ => .spent
      bareStatement := fun _ => .spent
      conditional := fun _ => .spent
      block := fun _ => .spent
      statements := fun _ => .spent }
  | m + 1 =>
    have ih := statements k m
    { statement := ih.statement_succ
      bareStatement := ih.bareStatement_succ
      conditional := ih.conditional_succ
      block := ih.block_succ
      statements := ih.statements_succ }

/-! ## Programs -/

theorem alike_start (k : Endings) (ts : List Token) :
    k.Alike (.start (ts ++ k.one)) (.start (ts ++ k.other)) :=
  ⟨⟨ts, rfl, rfl⟩, rfl, rfl⟩

/-- **The way in which a list ends makes no difference** but for the place of the end. -/
theorem ofTokens_append (k : Endings) (ts : List Token) :
    SameUpToEnd k.place k.otherPlace (Program.ofTokens? (ts ++ k.one))
      (Program.ofTokens? (ts ++ k.other)) := by
  have hagree : k.Agree k.Same (program (ts ++ k.one)) (program (ts ++ k.other)) :=
    (k.statements _).statements (k.alike_start ts)
  have hone := program_ne_budget (ts ++ k.one)
  have hother := program_ne_budget (ts ++ k.other)
  unfold Program.ofTokens?
  generalize program (ts ++ k.one) = x at hagree hone ⊢
  generalize program (ts ++ k.other) = y at hagree hother ⊢
  cases hagree with
  | @ok a b h =>
    obtain ⟨p, c⟩ := a
    obtain ⟨q, d⟩ := b
    obtain ⟨rfl, -⟩ := h
    exact .program p
  | fault h => exact .fault h
  | spent => exact absurd rfl hone
  | otherSpent => exact absurd rfl hother

/-- The list ends without an end, both times. -/
def absent : Endings where
  one := []
  other := []
  place := ⟨0, 0⟩
  otherPlace := ⟨0, 0⟩

/-- Two runs in one list return the same if neither uses up its budget. -/
theorem Agree.eq {x y : Except Stop (Read α)} (h : absent.Agree absent.Same x y)
    (hx : x ≠ .error .budget) (hy : y ≠ .error .budget) : x = y := by
  cases h with
  | @ok a b h =>
    obtain ⟨p, c⟩ := a
    obtain ⟨q, d⟩ := b
    obtain ⟨rfl, ⟨us, hc, hd⟩, hl, hb⟩ := h
    obtain ⟨rest, levels, blocks⟩ := c
    obtain ⟨rest', levels', blocks'⟩ := d
    obtain rfl : rest = rest' := hc.trans hd.symm
    obtain rfl : levels' = levels := hl
    obtain rfl : blocks' = blocks := hb
    rfl
  | fault h => rw [h.eq]
  | spent => exact absurd rfl hx
  | otherSpent => exact absurd rfl hy

end Endings

/-- **Reading a program ends**, and does so in front of the first end. More budget makes no
difference. The calls of a rule are lighter than the rule; so no rule uses its budget up, and one
that succeeds has gone past tokens of which none is an end. What stands behind the first end makes
no difference, nor whether it stands there at all, but for the place that a fault gives. -/
theorem reading_ends (ts : List Token) :
    Parser.program ts ≠ .error .budget ∧
    (∀ n, budget ts.length ≤ n → statements n false (.start ts) = Parser.program ts) ∧
    (∀ n r c, Called ts n r c →
      (∀ m, ∀ x ∈ calls m c r, x.1.weight x.2 < r.weight c) ∧ r.run n c ≠ .error .budget ∧
      ∀ p c', r.run n c = .ok (p, c') →
        ∃ us, c.rest = us ++ c'.rest ∧ NoEnd us ∧ (r.eats → us ≠ [])) ∧
    ∀ p vs,
      Program.ofTokens? (ts ++ ⟨.finish, p⟩ :: vs) = Program.ofTokens? (ts ++ [⟨.finish, p⟩]) ∧
      SameUpToEnd p ⟨0, 0⟩ (Program.ofTokens? (ts ++ [⟨.finish, p⟩])) (Program.ofTokens? ts) := by
  refine ⟨program_ne_budget ts, fun n hn => ?_,
    fun n r c h => ⟨fun m x hx => ?_, ?_, fun p c' hrun => ?_⟩, fun p vs => ⟨?_, ?_⟩⟩
  · have hagree : Endings.absent.Agree Endings.absent.Same (statements n false (.start ts))
        (Parser.program ts) := by
      refine (Endings.absent.statements n).statements ⟨⟨ts, ?_, ?_⟩, rfl, rfl⟩ <;>
        exact (List.append_nil ts).symm
    exact hagree.eq (statements_ne_budget hn) (program_ne_budget ts)
  · exact (h.ready.calls x hx).2
  · exact run_ne_budget h.ready h.weight_lt
  · obtain ⟨⟨us, rfl, hus⟩, -⟩ := passed_of_run h.ready.fits hrun
    exact ⟨us, rfl, hus⟩
  · let k : Endings := {
      one := ⟨.finish, p⟩ :: vs
      other := [⟨.finish, p⟩]
      place := p
      otherPlace := p }
    exact (k.ofTokens_append ts).eq
  · let k : Endings := {
      one := [⟨.finish, p⟩]
      other := []
      place := p
      otherPlace := ⟨0, 0⟩ }
    have hsame := k.ofTokens_append ts
    rwa [List.append_nil] at hsame

/-- The tokens of `x; let`. -/
def brokenTokens : List Token :=
  [⟨.name "x", ⟨1, 1⟩⟩, ⟨.symbol .semicolon, ⟨1, 2⟩⟩, ⟨.keyword .let_, ⟨1, 4⟩⟩]

theorem reading_ends_broken :
    statements 100 false (.start brokenTokens) = Parser.program brokenTokens ∧
    (∃ us, brokenTokens = us ++ brokenTokens.drop 2 ∧ NoEnd us ∧ us ≠ []) ∧
    Program.ofTokens? (brokenTokens ++ [⟨.finish, ⟨1, 7⟩⟩]) =
      .error (.unexpected (.name .variable) ⟨.finish, ⟨1, 7⟩⟩) ∧
    Program.ofTokens? (brokenTokens ++ ⟨.finish, ⟨1, 7⟩⟩ :: brokenTokens) =
      Program.ofTokens? (brokenTokens ++ [⟨.finish, ⟨1, 7⟩⟩]) ∧
    SameUpToEnd ⟨1, 7⟩ ⟨0, 0⟩ (Program.ofTokens? (brokenTokens ++ [⟨.finish, ⟨1, 7⟩⟩]))
      (.error (.unexpected (.name .variable) ⟨.finish, ⟨0, 0⟩⟩)) := by
  obtain ⟨-, hbudget, hcalls, hend⟩ := reading_ends brokenTokens
  obtain ⟨hrest, hsame⟩ := hend ⟨1, 7⟩ brokenTokens
  have hcall : Called brokenTokens 79 .statement (.start brokenTokens) := .call .program (.head _)
  have hrun : Rule.statement.run 79 (.start brokenTokens) =
      .ok (.statement (.expr 1 (.variable "x")), ⟨brokenTokens.drop 2, 0, 0⟩) := rfl
  obtain ⟨us, hus, hn, hne⟩ := (hcalls _ _ _ hcall).2.2 _ _ hrun
  exact ⟨hbudget 100 (by decide), ⟨us, hus, hn, hne rfl⟩, rfl, hrest, hsame⟩

end Ember.Source
