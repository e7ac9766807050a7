import Ember.Code.Instr
import Ember.Source.Program.Parser

/-!
# From programs to bytecode

Code for an expression leaves its value on the stack, code for a statement leaves the stack as it
was. Both are given the index at which they will stand, so that jumps are absolute from the start
and nothing is patched. An instruction carries the line of its statement, except for the jumps at
the ends of blocks and the closing instructions of a body: these carry the line of the last
statement generated before them (`closing`). A `return` outside all functions is refused, with the
first such line in the order of the text.
-/

namespace Ember.Code

open Source (Expr Statement Operator BinaryOp UnaryOp Program)

/-! ## Expressions -/

/-- Turns the value on the stack into a boolean. -/
def asBool : List Instr := [.invert, .invert]

mutual

/-- The code of an expression that stands at an index. -/
def exprCode (start : Nat) : Expr → List Instr
  | .integer n => [.push (.integer n)]
  | .float x => [.push (.float x)]
  | .text s => [.push (.text s)]
  | .bool b => [.push (.bool b)]
  | .nil => [.push .nil]
  | .variable name => [.load name]
  | .binary (.operator op) l r =>
    let left := exprCode start l
    left ++ exprCode (start + left.length) r ++ [.operate op]
  | .binary .and l r =>
    let left := exprCode start l
    let right := exprCode (start + left.length + 1) r ++ asBool
    let here := start + left.length + 1 + right.length
    left ++ [.jumpIfFalse (here + 1)] ++ right ++ [.jump (here + 2), .push (.bool false)]
  | .binary .or l r =>
    let left := exprCode start l
    let right := exprCode (start + left.length + 3) r ++ asBool
    let here := start + left.length + 3
    left ++ [.jumpIfFalse here, .push (.bool true), .jump (here + right.length)] ++ right
  | .unary .neg e => exprCode start e ++ [.negate]
  | .unary .not e => exprCode start e ++ [.invert]
  | .call f args =>
    let callee := exprCode start f
    callee ++ argsCode (start + callee.length) args ++ [.call args.length]
  | .attribute e name => exprCode start e ++ [.getAttribute name]

/-- The code of expressions one after another. -/
def argsCode (start : Nat) : List Expr → List Instr
  | [] => []
  | e :: es =>
    let first := exprCode start e
    first ++ argsCode (start + first.length) es

end

/-- Instructions of one line. -/
def lined (line : Nat) (code : List Instr) : List (Instr × Nat) := code.map fun i => (i, line)

/-! ## Statements -/

mutual

/-- The line of the last statement that is generated for a statement. -/
def closing : Statement → Nat
  | .when line _ body | .loop line _ body => closingOfAll line body
  | .choose line _ body other => closingOfAll (closingOfAll line body) other
  | .assign line .. | .setAttribute line .. | .give line .. | .expr line .. | .function line ..
  | .use line .. | .raise line .. => line

/-- The line of the last statement of a block, or `line` for an empty one. -/
def closingOfAll (line : Nat) : List Statement → Nat
  | [] => line
  | s :: ss => closingOfAll (closing s) ss

end

mutual

/-- The code of a statement that stands at an index. -/
def statementCode (start : Nat) : Statement → List (Instr × Nat)
  | .assign line name value => lined line (exprCode start value ++ [.store name])
  | .setAttribute line object name value =>
    let first := exprCode start value
    lined line (first ++ exprCode (start + first.length) object ++ [.setAttribute name])
  | .give line none => lined line [.push .nil, .ret]
  | .give line (some value) => lined line (exprCode start value ++ [.ret])
  | .expr line value => lined line (exprCode start value ++ [.pop])
  | .when line condition body =>
    let test := exprCode start condition
    let code := blockCode (start + test.length + 1) body
    lined line (test ++ [.jumpIfFalse (start + test.length + 1 + code.length)]) ++ code
  | .choose line condition body other =>
    let test := exprCode start condition
    let code := blockCode (start + test.length + 1) body
    let middle := start + test.length + 1 + code.length + 1
    let rest := blockCode middle other
    lined line (test ++ [.jumpIfFalse middle]) ++ code ++
      (.jump (middle + rest.length), closingOfAll line body) :: rest
  | .loop line condition body =>
    let test := exprCode start condition
    let code := blockCode (start + test.length + 1) body
    lined line (test ++ [.jumpIfFalse (start + test.length + 1 + code.length + 1)]) ++ code ++
      [(.jump start, closingOfAll line body)]
  | .function line name params body =>
    let code := blockCode 0 body ++ lined (closingOfAll line body) [.push .nil, .ret]
    lined line [.makeFunction name params code.toArray, .store name]
  | .use line module newName =>
    lined line [.use module, .store (newName.getD (Source.lastPart module))]
  | .raise line value => lined line (exprCode start value ++ [.raise])

/-- The code of statements one after another. -/
def blockCode (start : Nat) : List Statement → List (Instr × Nat)
  | [] => []
  | s :: ss =>
    let first := statementCode start s
    first ++ blockCode (start + first.length) ss

end

/-! ## Misplaced returns -/

mutual

/-- The line of the first `return` in a statement that is in no function. -/
def strayReturn? : Statement → Option Nat
  | .give line _ => some line
  | .when _ _ body | .loop _ _ body => strayReturnIn? body
  | .choose _ _ body other => (strayReturnIn? body).or (strayReturnIn? other)
  | .assign .. | .setAttribute .. | .expr .. | .function .. | .use .. | .raise .. => none

def strayReturnIn? : List Statement → Option Nat
  | [] => none
  | s :: ss => (strayReturn? s).or (strayReturnIn? ss)

end

/-! ## Programs -/

inductive CompileError where
  | parse (e : Source.ParseError)
  | returnOutsideFunction (file : String) (line : Nat)

def CompileError.message : CompileError → String
  | parse e => e.message
  | returnOutsideFunction file line => s!"'return' outside function at {file}:{line}"

/-- The chunk of a program; `file` is the name that an error carries. -/
def generate (file : String) (p : Program) : Except CompileError Chunk :=
  match strayReturnIn? p with
  | some line => .error (.returnOutsideFunction file line)
  | none => .ok (blockCode 0 p).toArray

/-- The chunk of a source text. -/
def compile (source file : String) : Except CompileError Chunk :=
  match Program.parse source file with
  | .error e => .error (.parse e)
  | .ok p => generate file p

end Ember.Code
