/-!
# Programs

A program is a list of statements, each with the line on which it starts. `if` has two forms, with
and without an alternative; `else if` is an alternative that holds one `if`. The sizes at the end
are what the limits on nesting speak of: the depth of an expression (a leaf has depth one) and the
number of blocks around a statement.
-/

namespace Ember.Source

/-- The operators that need both operands' values. -/
inductive Operator where
  | add | sub | mul | div | mod | eq | ne | lt | gt | le | ge
deriving DecidableEq, Repr

def Operator.label : Operator → String
  | add => "Add" | sub => "Sub" | mul => "Mul" | div => "Div" | mod => "Mod"
  | eq => "Eq" | ne => "Neq" | lt => "Lt" | gt => "Gt" | le => "Le" | ge => "Ge"

/-- `and` and `or` look at the right operand only if the left one does not decide. -/
inductive BinaryOp where
  | operator (op : Operator)
  | and
  | or
deriving DecidableEq, Repr

def BinaryOp.label : BinaryOp → String
  | operator op => op.label
  | and => "And"
  | or => "Or"

inductive UnaryOp where
  | neg | not
deriving DecidableEq, Repr

def UnaryOp.label : UnaryOp → String
  | neg => "Neg"
  | not => "Not"

inductive Expr where
  | integer (value : Int64)
  | float (value : Float)
  | text (value : String)
  | bool (value : Bool)
  | nil
  | variable (name : String)
  | binary (op : BinaryOp) (left right : Expr)
  | unary (op : UnaryOp) (operand : Expr)
  | call (callee : Expr) (args : List Expr)
  | attribute (object : Expr) (name : String)

inductive Statement where
  /-- Gives a name a value in the innermost scope. -/
  | assign (line : Nat) (name : String) (value : Expr)
  | setAttribute (line : Nat) (object : Expr) (name : String) (value : Expr)
  | give (line : Nat) (value : Option Expr)
  | expr (line : Nat) (value : Expr)
  | when (line : Nat) (condition : Expr) (body : List Statement)
  | choose (line : Nat) (condition : Expr) (body other : List Statement)
  | loop (line : Nat) (condition : Expr) (body : List Statement)
  | function (line : Nat) (name : String) (params : List String) (body : List Statement)
  | use (line : Nat) (module : String) (newName : Option String)
  | raise (line : Nat) (value : Expr)

abbrev Program := List Statement

def Statement.line : Statement → Nat
  | assign l .. | setAttribute l .. | give l .. | expr l .. | when l .. | choose l .. | loop l ..
  | function l .. | use l .. | raise l .. => l

/-- The name under which a module is imported if no other is given: the last part of its path. -/
def lastPart (module : String) : String :=
  String.ofList (module.toList.reverse.takeWhile (· ≠ '.')).reverse

/-! ## Sizes -/

mutual
def Expr.depth : Expr → Nat
  | .binary _ l r => max l.depth r.depth + 1
  | .unary _ e => e.depth + 1
  | .call f args => max f.depth (depthOfAll args) + 1
  | .attribute e _ => e.depth + 1
  | _ => 1

/-- The depth of the deepest of some expressions. -/
def depthOfAll : List Expr → Nat
  | [] => 0
  | e :: es => max e.depth (depthOfAll es)
end

mutual
/-- The number of nodes. -/
def Expr.size : Expr → Nat
  | .binary _ l r => l.size + r.size + 1
  | .unary _ e => e.size + 1
  | .call f args => f.size + sizeOfAll args + 1
  | .attribute e _ => e.size + 1
  | _ => 1

def sizeOfAll : List Expr → Nat
  | [] => 0
  | e :: es => e.size + sizeOfAll es
end

/-- The expressions that stand directly in a statement. -/
def Statement.exprs : Statement → List Expr
  | .assign _ _ e | .expr _ e | .raise _ e | .when _ e _ | .choose _ e _ _ | .loop _ e _ => [e]
  | .setAttribute _ o _ e => [o, e]
  | .give _ e => e.toList
  | .function .. | .use .. => []

mutual
/-- All expressions in a statement, those of its blocks included. -/
def Statement.allExprs : Statement → List Expr
  | .when _ e b | .loop _ e b => e :: exprsOfAll b
  | .choose _ e b o => e :: (exprsOfAll b ++ exprsOfAll o)
  | .function _ _ _ b => exprsOfAll b
  | .assign _ _ e | .expr _ e | .raise _ e => [e]
  | .setAttribute _ o _ e => [o, e]
  | .give _ e => e.toList
  | .use .. => []

def exprsOfAll : List Statement → List Expr
  | [] => []
  | s :: ss => s.allExprs ++ exprsOfAll ss
end

mutual
/-- How many blocks nest in a statement. -/
def Statement.nesting : Statement → Nat
  | .when _ _ b | .loop _ _ b | .function _ _ _ b => nestingOfAll b + 1
  | .choose _ _ b o => max (nestingOfAll b) (nestingOfAll o) + 1
  | _ => 0

def nestingOfAll : List Statement → Nat
  | [] => 0
  | s :: ss => max s.nesting (nestingOfAll ss)
end

end Ember.Source
