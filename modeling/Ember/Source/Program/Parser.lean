import Ember.Source.Program
import Ember.Source.Token.Lexer

/-!
# From tokens to programs

Recursive descent over the grammar

    statement   ::= "let" name ":=" expr | target ":=" expr | expr | "return" expr?
                  | "raise" expr | "import" name ("." name)* ("as" name)?
                  | "func" name "(" names? ")" block | "while" expr block
                  | "if" expr block ("else" (block | if))?
    block       ::= "{" (statement | ";")* "}"
    expr        ::= either of the five levels of left-associative operators, the loosest first
    unary       ::= ("!" | "not" | "-") unary | postfix
    postfix     ::= primary ("." name | "(" exprs? ")")*

A rule takes a cursor, which holds the tokens ahead and the numbers of expression levels and
blocks that are open, and returns what it read with the cursor behind it. Expression rules also
return the depth of their tree, so that long chains are bounded like deep nesting. The rules
recurse on a budget of steps; `Program.ofTokens?` gives one that grows with the number of tokens
and is never used up.
-/

namespace Ember.Source.Parser

/-- The greatest number of expression levels open at once. -/
def maxLevels : Nat := 100

/-- The greatest number of blocks open at once. -/
def maxBlocks : Nat := 100

/-- The greatest depth of an expression. -/
def maxDepth : Nat := 1000

/-- Why a rule does not succeed: the tokens are at fault, or the budget is used up. -/
inductive Stop where
  | fault (f : Fault)
  | budget

/-! ## Cursors -/

structure Cursor where
  rest : List Token
  levels : Nat
  blocks : Nat

/-- What a rule read, and the cursor behind it. -/
abbrev Read (α : Type) := α × Cursor

/-- The end that is understood where a list of tokens has none. -/
def impliedFinish : Token := ⟨.finish, ⟨0, 0⟩⟩

namespace Cursor

def start (tokens : List Token) : Cursor := ⟨tokens, 0, 0⟩

def token (c : Cursor) : Token := c.rest.headD impliedFinish

def lexeme (c : Cursor) : Lexeme := c.token.lexeme

def advance (c : Cursor) : Cursor := { c with rest := c.rest.tail }

/-- Is the next token this symbol? -/
def sees (c : Cursor) (s : Symbol) : Bool :=
  match c.lexeme with
  | .symbol t => t = s
  | _ => false

def seesKeyword (c : Cursor) (k : Keyword) : Bool :=
  match c.lexeme with
  | .keyword j => j = k
  | _ => false

def atEnd (c : Cursor) : Bool :=
  match c.lexeme with
  | .finish => true
  | _ => false

/-- A flaw at the next token. -/
def flaw (c : Cursor) (f : Flaw) : Stop := .fault (.flaw f c.token.place)

def enterLevel (c : Cursor) : Except Stop Cursor :=
  if maxLevels ≤ c.levels then .error (c.flaw .expressionDepth)
  else .ok { c with levels := c.levels + 1 }

def leaveLevel (c : Cursor) : Cursor := { c with levels := c.levels - 1 }

def enterBlock (c : Cursor) : Except Stop Cursor :=
  if maxBlocks ≤ c.blocks then .error (c.flaw .blockDepth)
  else .ok { c with blocks := c.blocks + 1 }

def leaveBlock (c : Cursor) : Cursor := { c with blocks := c.blocks - 1 }

/-- Goes past a symbol that has to stand here. -/
def expect (c : Cursor) (s : Symbol) : Except Stop Cursor :=
  if c.sees s then .ok c.advance
  else if c.atEnd then .error (.fault .ended)
  else .error (.fault (.unexpected (.symbol s) c.token))

/-- Reads a name that has to stand here. -/
def expectName (c : Cursor) (role : NameRole) : Except Stop (Read String) :=
  match c.lexeme with
  | .name n => .ok (n, c.advance)
  | _ => .error (.fault (.unexpected (.name role) c.token))

/-- Goes past a symbol if it stands here. -/
def skip (c : Cursor) (s : Symbol) : Cursor := if c.sees s then c.advance else c

/-- The depth of a node over children of depth `child` at most. -/
def deeper (c : Cursor) (child : Nat) : Except Stop Nat :=
  if maxDepth ≤ child then .error (c.flaw .expressionDepth) else .ok (child + 1)

end Cursor

/-! ## Operators -/

/-- The levels of binary operators, the loosest first. -/
inductive Level where
  | either | both | comparison | sum | product
deriving DecidableEq, Repr

/-- The level of a level's operands; a product's operands are no binary expressions. -/
def Level.tighter : Level → Option Level
  | either => some both
  | both => some comparison
  | comparison => some sum
  | sum => some product
  | product => none

/-- The operator of a level that a lexeme stands for. -/
def Level.op? : Level → Lexeme → Option BinaryOp
  | either, .symbol .either | either, .keyword .or => some .or
  | both, .symbol .both | both, .keyword .and => some .and
  | comparison, .symbol .greater => some (.operator .gt)
  | comparison, .symbol .less => some (.operator .lt)
  | comparison, .symbol .atLeast => some (.operator .ge)
  | comparison, .symbol .atMost => some (.operator .le)
  | comparison, .symbol .equal => some (.operator .eq)
  | comparison, .symbol .notEqual => some (.operator .ne)
  | sum, .symbol .plus => some (.operator .add)
  | sum, .symbol .minus => some (.operator .sub)
  | product, .symbol .star => some (.operator .mul)
  | product, .symbol .slash => some (.operator .div)
  | product, .symbol .percent => some (.operator .mod)
  | _, _ => none

def unaryOp? : Lexeme → Option UnaryOp
  | .symbol .bang | .keyword .not => some .not
  | .symbol .minus => some .neg
  | _ => none

/-- The leaf that a lexeme stands for. -/
def leaf? : Lexeme → Option Expr
  | .integer n => some (.integer n)
  | .float x => some (.float x)
  | .text s => some (.text s)
  | .name s => some (.variable s)
  | .keyword .true_ => some (.bool true)
  | .keyword .false_ => some (.bool false)
  | .keyword .nil => some .nil
  | _ => none

/-! ## Expressions -/

mutual

/-- A whole expression, one level further in. -/
def nested : Nat → Cursor → Except Stop (Read (Expr × Nat))
  | 0, _ => .error .budget
  | n + 1, c => do
    let c ← c.enterLevel
    let (r, c) ← level n .either c
    return (r, c.leaveLevel)

/-- Operands of a level with its operators between them. -/
def level : Nat → Level → Cursor → Except Stop (Read (Expr × Nat))
  | 0, _, _ => .error .budget
  | n + 1, l, c => do
    let (left, c) ← operand n l c
    chain n l left c

def operand : Nat → Level → Cursor → Except Stop (Read (Expr × Nat))
  | 0, _, _ => .error .budget
  | n + 1, l, c =>
    match l.tighter with
    | some l' => level n l' c
    | none => unary n c

/-- The operators of a level that follow `left`, with their right operands. -/
def chain : Nat → Level → Expr × Nat → Cursor → Except Stop (Read (Expr × Nat))
  | 0, _, _, _ => .error .budget
  | n + 1, l, left, c =>
    match l.op? c.lexeme with
    | none => .ok (left, c)
    | some op => do
      let (right, c) ← operand n l c.advance
      let depth ← c.deeper (max left.2 right.2)
      chain n l (.binary op left.1 right.1, depth) c

def unary : Nat → Cursor → Except Stop (Read (Expr × Nat))
  | 0, _ => .error .budget
  | n + 1, c =>
    match unaryOp? c.lexeme with
    | none => do
      let (r, c) ← primary n c
      trail n r c
    | some op => do
      let c ← c.advance.enterLevel
      let (r, c) ← unary n c
      let c := c.leaveLevel
      let depth ← c.deeper r.2
      return ((.unary op r.1, depth), c)

/-- The attributes and calls that follow `r`. -/
def trail : Nat → Expr × Nat → Cursor → Except Stop (Read (Expr × Nat))
  | 0, _, _ => .error .budget
  | n + 1, r, c =>
    if c.sees .dot then do
      let (name, c) ← c.advance.expectName .attribute
      let depth ← c.deeper r.2
      trail n (.attribute r.1 name, depth) c
    else if c.sees .openParen then do
      let (args, c) ← arguments n c.advance
      let c ← c.expect .closeParen
      let depth ← c.deeper (max r.2 args.2)
      trail n (.call r.1 args.1, depth) c
    else .ok (r, c)

/-- The arguments of a call and the depth of the deepest; there may be none. -/
def arguments : Nat → Cursor → Except Stop (Read (List Expr × Nat))
  | 0, _ => .error .budget
  | n + 1, c => if c.sees .closeParen then .ok (([], 0), c) else someArguments n c

/-- One argument, and more after commas. -/
def someArguments : Nat → Cursor → Except Stop (Read (List Expr × Nat))
  | 0, _ => .error .budget
  | n + 1, c => do
    let (r, c) ← nested n c
    if c.sees .comma then do
      let (rs, c) ← someArguments n c.advance
      return ((r.1 :: rs.1, max r.2 rs.2), c)
    else return (([r.1], r.2), c)

def primary : Nat → Cursor → Except Stop (Read (Expr × Nat))
  | 0, _ => .error .budget
  | n + 1, c =>
    match leaf? c.lexeme with
    | some e => .ok ((e, 1), c.advance)
    | none =>
      if c.sees .openParen then do
        let (r, c) ← nested n c.advance
        let c ← c.expect .closeParen
        return (r, c)
      else if c.atEnd then .error (.fault .ended)
      else .error (c.flaw (.noExpression c.lexeme))

end

/-- A whole expression. -/
def expression (n : Nat) (c : Cursor) : Except Stop (Read Expr) := do
  let (r, c) ← nested n c
  return (r.1, c)

/-! ## Statements -/

/-- Parameters up to the closing parenthesis, none of them among `seen`. -/
def parameters : Nat → List String → Cursor → Except Stop (Read (List String))
  | 0, _, _ => .error .budget
  | n + 1, seen, c => do
    let place := c.token.place
    let (name, c) ← c.expectName .parameter
    if seen.contains name then .error (.fault (.flaw (.repeatedParameter name) place))
    else if c.sees .comma then do
      let (names, c) ← parameters n (name :: seen) c.advance
      return (name :: names, c)
    else return ([name], c)

/-- The parts of a module's path. -/
def path : Nat → Cursor → Except Stop (Read (List String))
  | 0, _ => .error .budget
  | n + 1, c => do
    let (name, c) ← c.expectName .module
    if c.sees .dot then do
      let (names, c) ← path n c.advance
      return (name :: names, c)
    else return ([name], c)

/-- Behind `let`. -/
def letStatement (n line : Nat) (c : Cursor) : Except Stop (Read Statement) := do
  let (name, c) ← c.expectName .variable
  let c ← c.expect .assign
  let (value, c) ← expression n c
  return (.assign line name value, c)

/-- Behind `return`. A value has to start on the same line. -/
def returnStatement (n line : Nat) (c : Cursor) : Except Stop (Read Statement) :=
  if c.sees .closeBrace || c.sees .semicolon || c.atEnd || c.token.place.line ≠ line then
    .ok (.give line none, c)
  else do
    let (value, c) ← expression n c
    return (.give line (some value), c)

/-- Behind `import`. -/
def importStatement (n line : Nat) (c : Cursor) : Except Stop (Read Statement) := do
  let (parts, c) ← path n c
  let module := ".".intercalate parts
  if c.seesKeyword .as then do
    let (newName, c) ← c.advance.expectName .newName
    return (.use line module (some newName), c)
  else return (.use line module none, c)

/-- Behind `raise`. -/
def raiseStatement (n line : Nat) (c : Cursor) : Except Stop (Read Statement) := do
  let (value, c) ← expression n c
  return (.raise line value, c)

/-- An expression, or an assignment to a variable or an attribute. -/
def expressionStatement (n line : Nat) (c : Cursor) : Except Stop (Read Statement) := do
  let place := c.token.place
  let (target, c) ← expression n c
  if c.sees .assign then do
    let (value, c) ← expression n c.advance
    match target with
    | .variable name => return (.assign line name value, c)
    | .attribute object name => return (.setAttribute line object name value, c)
    | _ => .error (.fault (.flaw .assignmentTarget place))
  else return (.expr line target, c)

/-- A function's name and parameters, behind `func`. -/
def signature (n : Nat) (c : Cursor) : Except Stop (Read (String × List String)) := do
  let (name, c) ← c.expectName .function
  let c ← c.expect .openParen
  let (params, c) ← if c.sees .closeParen then .ok ([], c) else parameters n [] c
  let c ← c.expect .closeParen
  return ((name, params), c)

mutual

/-- A statement and the semicolon behind it, if there is one. -/
def statement : Nat → Cursor → Except Stop (Read Statement)
  | 0, _ => .error .budget
  | n + 1, c => do
    let (s, c) ← bareStatement n c
    return (s, c.skip .semicolon)

def bareStatement : Nat → Cursor → Except Stop (Read Statement)
  | 0, _ => .error .budget
  | n + 1, c =>
    let line := c.token.place.line
    match c.lexeme with
    | .keyword .let_ => letStatement n line c.advance
    | .keyword .func => do
      let (f, c) ← signature n c.advance
      let (body, c) ← block n c
      return (.function line f.1 f.2 body, c)
    | .keyword .if_ => conditional n line c.advance
    | .keyword .while_ => do
      let (condition, c) ← expression n c.advance
      let (body, c) ← block n c
      return (.loop line condition body, c)
    | .keyword .return_ => returnStatement n line c.advance
    | .keyword .import_ => importStatement n line c.advance
    | .keyword .raise => raiseStatement n line c.advance
    | _ => expressionStatement n line c

/-- Behind `if`. -/
def conditional : Nat → Nat → Cursor → Except Stop (Read Statement)
  | 0, _, _ => .error .budget
  | n + 1, line, c => do
    let (condition, c) ← expression n c
    let (body, c) ← block n c
    if c.seesKeyword .else_ then do
      let c := c.advance
      if c.seesKeyword .if_ then do
        let inner := c.token.place.line
        let c ← c.enterBlock
        let (s, c) ← conditional n inner c.advance
        return (.choose line condition body [s], c.leaveBlock)
      else do
        let (other, c) ← block n c
        return (.choose line condition body other, c)
    else return (.when line condition body, c)

def block : Nat → Cursor → Except Stop (Read (List Statement))
  | 0, _ => .error .budget
  | n + 1, c => do
    let c ← c.enterBlock
    let c ← c.expect .openBrace
    let (body, c) ← statements n true c
    let c ← c.expect .closeBrace
    return (body, c.leaveBlock)

/-- Statements up to the end, or up to a closing brace if they are `inner` ones. -/
def statements : Nat → Bool → Cursor → Except Stop (Read (List Statement))
  | 0, _, _ => .error .budget
  | n + 1, inner, c =>
    if c.atEnd || (inner && c.sees .closeBrace) then .ok ([], c)
    else if c.sees .semicolon then statements n inner c.advance
    else do
      let (s, c) ← statement n c
      let (ss, c) ← statements n inner c
      return (s :: ss, c)

end

/-- Steps enough for `count` tokens: between two tokens there are fewer than twenty rules. -/
def budget (count : Nat) : Nat := 20 * (count + 1)

def program (tokens : List Token) : Except Stop (Read Program) :=
  statements (budget tokens.length) false (Cursor.start tokens)

end Parser

/-- The program that a list of tokens makes up. The end may be left out. -/
def Program.ofTokens? (tokens : List Token) : Except Fault Program :=
  match Parser.program tokens with
  | .ok (p, _) => .ok p
  | .error (.fault f) => .error f
  | .error .budget => .error .ended

/-- Reads a program; `file` is the name that an error carries. -/
def Program.parse (source file : String) : Except ParseError Program :=
  match tokens source with
  | .error f => .error ⟨file, f⟩
  | .ok ts => (Program.ofTokens? ts).mapError (ParseError.mk file)

end Ember.Source
