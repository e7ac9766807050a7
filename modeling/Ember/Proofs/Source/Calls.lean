import Ember.Proofs.Source.Programs

/-!
# The calls of the parser's rules

A run of the parser is a tree of calls. `calls n c r` lists the calls that the rule `r` makes itself
in front of `c`, each with the cursor that it is made with, in the order in which they are made; and
`Called` says which calls there are in a whole run.

**Theorem (`budget_of_run`).** A rule uses up its budget exactly if one of its calls does. So the
lists leave no call out, and none of them is made up: the budget may run out in any of them.
-/

namespace Ember.Source.Parser

/-! ## Rules -/

/-- A rule with what it takes besides the cursor. -/
inductive Rule where
  | nested
  | level (l : Level)
  | operand (l : Level)
  | chain (l : Level) (left : Expr × Nat)
  | unary
  | trail (r : Expr × Nat)
  | arguments
  | someArguments
  | primary
  | parameters (seen : List String)
  | path
  | statement
  | bareStatement
  | conditional (line : Nat)
  | block
  | statements (inner : Bool)

/-- What a rule may return. Expressions come with the number that is said to be their depth. -/
inductive Product where
  | expr (r : Expr × Nat)
  | args (r : List Expr × Nat)
  | names (xs : List String)
  | statement (s : Statement)
  | statements (ss : List Statement)

/-- What a rule returns, as one of the products. -/
def product {α : Type} (f : α → Product) (x : Except Stop (Read α)) : Except Stop (Read Product) :=
  x.map fun r => (f r.1, r.2)

def Rule.run (n : Nat) (c : Cursor) : Rule → Except Stop (Read Product)
  | nested => product .expr (Parser.nested n c)
  | level l => product .expr (Parser.level n l c)
  | operand l => product .expr (Parser.operand n l c)
  | chain l left => product .expr (Parser.chain n l left c)
  | unary => product .expr (Parser.unary n c)
  | trail r => product .expr (Parser.trail n r c)
  | arguments => product .args (Parser.arguments n c)
  | someArguments => product .args (Parser.someArguments n c)
  | primary => product .expr (Parser.primary n c)
  | parameters seen => product .names (Parser.parameters n seen c)
  | path => product .names (Parser.path n c)
  | statement => product .statement (Parser.statement n c)
  | bareStatement => product .statement (Parser.bareStatement n c)
  | conditional line => product .statement (Parser.conditional n line c)
  | block => product .statements (Parser.block n c)
  | statements inner => product .statements (Parser.statements n inner c)

/-! ## Calls -/

/-- The calls behind a step, if it succeeds. -/
def after {α β : Type} (x : Except Stop α) (f : α → List β) : List β :=
  match x with
  | .ok a => f a
  | .error _ => []

@[simp] theorem mem_after {α β : Type} {x : Except Stop α} {f : α → List β} {b : β} :
    b ∈ after x f ↔ ∃ a, x = .ok a ∧ b ∈ f a := by
  cases x <;> simp [after]

/-- The calls of the rule for statements without the semicolon behind them. -/
def statementCalls (n : Nat) (c : Cursor) : List (Rule × Cursor) :=
  match c.lexeme with
  | .keyword .let_ =>
    after (c.advance.expectName .variable) fun (_, c) =>
    after (c.expect .assign) fun c => [(.nested, c)]
  | .keyword .func =>
    (after (c.advance.expectName .function) fun (_, c) =>
      after (c.expect .openParen) fun c =>
      if c.sees .closeParen then [] else [(.parameters [], c)]) ++
    after (signature n c.advance) fun (_, c) => [(.block, c)]
  | .keyword .if_ => [(.conditional c.token.place.line, c.advance)]
  | .keyword .while_ =>
    (.nested, c.advance) :: after (expression n c.advance) fun (_, c) => [(.block, c)]
  | .keyword .return_ =>
    let line := c.token.place.line
    let c := c.advance
    if c.sees .closeBrace || c.sees .semicolon || c.atEnd || c.token.place.line ≠ line then []
    else [(.nested, c)]
  | .keyword .import_ => [(.path, c.advance)]
  | .keyword .raise => [(.nested, c.advance)]
  | _ =>
    (.nested, c) :: after (expression n c) fun (_, c) =>
    if c.sees .assign then [(.nested, c.advance)] else []

/-- The calls that a rule makes with budget `n`, each with the cursor it is made with. -/
def calls (n : Nat) (c : Cursor) : Rule → List (Rule × Cursor)
  | .nested => after c.enterLevel fun c => [(.level .either, c)]
  | .level l =>
    (.operand l, c) :: after (operand n l c) fun (left, c) => [(.chain l left, c)]
  | .operand l =>
    match l.tighter with
    | some l' => [(.level l', c)]
    | none => [(.unary, c)]
  | .chain l left =>
    match l.op? c.lexeme with
    | none => []
    | some op =>
      (.operand l, c.advance) :: after (operand n l c.advance) fun (right, c) =>
      after (c.deeper (max left.2 right.2)) fun depth =>
      [(.chain l (.binary op left.1 right.1, depth), c)]
  | .unary =>
    match unaryOp? c.lexeme with
    | none => (.primary, c) :: after (primary n c) fun (r, c) => [(.trail r, c)]
    | some _ => after c.advance.enterLevel fun c => [(.unary, c)]
  | .trail r =>
    if c.sees .dot then
      after (c.advance.expectName .attribute) fun (name, c) =>
      after (c.deeper r.2) fun depth => [(.trail (.attribute r.1 name, depth), c)]
    else if c.sees .openParen then
      (.arguments, c.advance) :: after (arguments n c.advance) fun (args, c) =>
      after (c.expect .closeParen) fun c =>
      after (c.deeper (max r.2 args.2)) fun depth => [(.trail (.call r.1 args.1, depth), c)]
    else []
  | .arguments => if c.sees .closeParen then [] else [(.someArguments, c)]
  | .someArguments =>
    (.nested, c) :: after (nested n c) fun (_, c) =>
    if c.sees .comma then [(.someArguments, c.advance)] else []
  | .primary =>
    match leaf? c.lexeme with
    | some _ => []
    | none => if c.sees .openParen then [(.nested, c.advance)] else []
  | .parameters seen =>
    after (c.expectName .parameter) fun (name, c) =>
    if seen.contains name then []
    else if c.sees .comma then [(.parameters (name :: seen), c.advance)] else []
  | .path =>
    after (c.expectName .module) fun (_, c) => if c.sees .dot then [(.path, c.advance)] else []
  | .statement => [(.bareStatement, c)]
  | .bareStatement => statementCalls n c
  | .conditional _ =>
    (.nested, c) :: after (expression n c) fun (_, c) =>
    (.block, c) :: after (block n c) fun (_, c) =>
    if c.seesKeyword .else_ then
      let c := c.advance
      if c.seesKeyword .if_ then
        let inner := c.token.place.line
        after c.enterBlock fun c => [(.conditional inner, c.advance)]
      else [(.block, c)]
    else []
  | .block =>
    after c.enterBlock fun c => after (c.expect .openBrace) fun c => [(.statements true, c)]
  | .statements inner =>
    if c.atEnd || (inner && c.sees .closeBrace) then []
    else if c.sees .semicolon then [(.statements inner, c.advance)]
    else (.statement, c) :: after (statement n c) fun (_, c) => [(.statements inner, c)]

/-- The calls that are made in reading a program from a list of tokens, with their budgets. -/
inductive Called (ts : List Token) : Nat → Rule → Cursor → Prop
  | program : Called ts (budget ts.length) (.statements false) (.start ts)
  | call {n : Nat} {r r' : Rule} {c c' : Cursor} : Called ts (n + 1) r c →
    (r', c') ∈ calls n c r → Called ts n r' c'

/-! ## A budget is used up only in calls -/

/-- One of the calls uses up its budget. -/
def Spent (n : Nat) (l : List (Rule × Cursor)) : Prop :=
  ∃ x ∈ l, x.1.run n x.2 = .error .budget

section Budgets

variable {n : Nat} {c : Cursor} {α β : Type} {p : Prop} {l l' : List (Rule × Cursor)}

@[simp] theorem spent_nil : ¬ Spent n [] := by simp [Spent]

@[simp] theorem spent_cons {r : Rule} :
    Spent n ((r, c) :: l) ↔ r.run n c = .error .budget ∨ Spent n l := by
  simp [Spent]

@[simp] theorem spent_append : Spent n (l ++ l') ↔ Spent n l ∨ Spent n l' := by
  simp only [Spent, List.mem_append, or_and_right, exists_or]

@[simp] theorem spent_after {x : Except Stop α} {f : α → List (Rule × Cursor)} :
    Spent n (after x f) ↔ ∃ a, x = .ok a ∧ Spent n (f a) := by
  cases x <;> simp [after]

@[simp] theorem spent_ite [Decidable p] :
    Spent n (if p then l else l') ↔ (p → Spent n l) ∧ (¬ p → Spent n l') := by
  split <;> simp [*]

@[simp] theorem bind_eq_budget {x : Except Stop α} {f : α → Except Stop β} :
    x >>= f = .error .budget ↔ x = .error .budget ∨ ∃ a, x = .ok a ∧ f a = .error .budget := by
  cases x with
  | error s => exact ⟨fun h => .inl (by cases h; rfl), by rintro (h | ⟨_, h, _⟩) <;> cases h; rfl⟩
  | ok a => exact ⟨fun h => .inr ⟨a, rfl, h⟩, by rintro (h | ⟨_, h, h'⟩) <;> cases h; exact h'⟩

@[simp] theorem map_eq_budget {x : Except Stop α} {f : α → β} :
    f <$> x = .error .budget ↔ x = .error .budget := by
  cases x with
  | error s => exact ⟨fun h => by cases h; rfl, fun h => by cases h; rfl⟩
  | ok a => exact ⟨nofun, nofun⟩

@[simp] theorem product_eq_budget {f : α → Product} {x : Except Stop (Read α)} :
    product f x = .error .budget ↔ x = .error .budget :=
  map_eq_budget

@[simp] theorem ite_eq_budget [Decidable p] {x y : Except Stop α} :
    (if p then x else y) = .error .budget ↔
      (p → x = .error .budget) ∧ (¬ p → y = .error .budget) := by
  split <;> simp [*]

@[simp] theorem pure_ne_budget {a : α} : (pure a : Except Stop α) ≠ .error .budget := nofun

@[simp] theorem Cursor.enterLevel_ne_budget : c.enterLevel ≠ .error .budget := by
  simp [enterLevel, flaw]

@[simp] theorem Cursor.enterBlock_ne_budget : c.enterBlock ≠ .error .budget := by
  simp [enterBlock, flaw]

@[simp] theorem Cursor.deeper_ne_budget {d : Nat} : c.deeper d ≠ .error .budget := by
  simp [deeper, flaw]

@[simp] theorem Cursor.expect_ne_budget {s : Symbol} : c.expect s ≠ .error .budget := by
  simp [expect]

@[simp] theorem Cursor.expectName_ne_budget {role : NameRole} :
    c.expectName role ≠ .error .budget := by
  unfold expectName
  split <;> nofun

@[simp] theorem expression_eq_budget :
    expression n c = .error .budget ↔ Rule.nested.run n c = .error .budget := by
  simp [expression, Rule.run]

theorem signature_eq_budget : signature n c = .error .budget ↔
    Spent n (after (c.expectName .function) fun (_, c) =>
      after (c.expect .openParen) fun c =>
      if c.sees .closeParen then [] else [(.parameters [], c)]) := by
  simp [signature, Rule.run]

theorem expressionStatement_eq_budget {line : Nat} :
    expressionStatement n line c = .error .budget ↔
      Spent n ((.nested, c) :: after (expression n c) fun (_, c) =>
        if c.sees .assign then [(.nested, c.advance)] else []) := by
  rcases htarget : expression n c with s | ⟨target, c₁⟩
  · simp [expressionStatement, htarget, ← expression_eq_budget]
  · cases target <;> simp [expressionStatement, htarget, ← expression_eq_budget]

theorem bareStatement_eq_budget :
    bareStatement (n + 1) c = .error .budget ↔ Spent n (statementCalls n c) := by
  cases hx : c.lexeme with
  | keyword k =>
    cases k <;> simp [bareStatement, statementCalls, hx, letStatement, returnStatement,
      importStatement, raiseStatement, expressionStatement_eq_budget, signature_eq_budget, Rule.run]
  | _ => simp [bareStatement, statementCalls, hx, expressionStatement_eq_budget]

/-- **A rule uses up its budget exactly if one of its calls does.** -/
theorem budget_of_run (r : Rule) :
    r.run (n + 1) c = .error .budget ↔ Spent n (calls n c r) := by
  cases r with
  | nested => simp [Rule.run, nested, calls]
  | level l => simp [Rule.run, level, calls]
  | operand l => cases l <;> simp [Rule.run, operand, calls, Level.tighter]
  | chain l left => cases h : l.op? c.lexeme <;> simp [Rule.run, chain, calls, h]
  | unary => cases h : unaryOp? c.lexeme <;> simp [Rule.run, unary, calls, h]
  | trail r => simp [Rule.run, trail, calls]
  | arguments => simp [Rule.run, arguments, calls]
  | someArguments => simp [Rule.run, someArguments, calls]
  | primary => cases h : leaf? c.lexeme <;> simp [Rule.run, primary, calls, h, Cursor.flaw]
  | parameters seen => simp [Rule.run, parameters, calls]
  | path => simp [Rule.run, path, calls]
  | statement => simp [Rule.run, statement, calls]
  | bareStatement => simp [Rule.run, calls, bareStatement_eq_budget]
  | conditional line => simp [Rule.run, conditional, calls]
  | block => simp [Rule.run, block, calls]
  | statements inner => simp [Rule.run, statements, calls]

end Budgets

end Ember.Source.Parser
