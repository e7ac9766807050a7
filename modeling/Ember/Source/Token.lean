import Ember.Decimal.Layout
import Ember.Text.Quoted

/-!
# Tokens

A token is a lexeme and the place of its first character. Lexemes are the literals, the names,
fifteen keywords and twenty-two symbols; a text's last token is its end. Every lexeme has a label,
by which messages speak of it.
-/

namespace Ember.Source

/-- Where a character stands in a text: line and column, both counted from one. -/
structure Place where
  line : Nat
  column : Nat
deriving DecidableEq, Repr

def Place.start : Place := ⟨1, 1⟩

/-- The place after a character. -/
def Place.after (p : Place) (c : Char) : Place :=
  if c = '\n' then ⟨p.line + 1, 1⟩ else ⟨p.line, p.column + 1⟩

/-- The place after a run of characters. -/
def Place.afterAll (p : Place) (cs : List Char) : Place := cs.foldl Place.after p

theorem Place.afterAll_append (p : Place) (cs ds : List Char) :
    p.afterAll (cs ++ ds) = (p.afterAll cs).afterAll ds := List.foldl_append

inductive Keyword where
  | let_ | func | if_ | else_ | while_ | return_ | import_ | as | raise
  | true_ | false_ | nil | and | or | not
deriving DecidableEq, Repr

namespace Keyword

def all : List Keyword :=
  [let_, func, if_, else_, while_, return_, import_, as, raise, true_, false_, nil, and, or, not]

def spelling : Keyword → String
  | let_ => "let" | func => "func" | if_ => "if" | else_ => "else" | while_ => "while"
  | return_ => "return" | import_ => "import" | as => "as" | raise => "raise"
  | true_ => "true" | false_ => "false" | nil => "nil"
  | and => "and" | or => "or" | not => "not"

def label : Keyword → String
  | let_ => "Let" | func => "Func" | if_ => "If" | else_ => "Else" | while_ => "While"
  | return_ => "Return" | import_ => "Import" | as => "As" | raise => "Raise"
  | true_ => "True" | false_ => "False" | nil => "Nil"
  | and => "And" | or => "Or" | not => "Not"

def ofSpelling? (s : String) : Option Keyword := all.find? (·.spelling = s)

theorem mem_all (k : Keyword) : k ∈ all := by cases k <;> decide

end Keyword

inductive Symbol where
  | plus | minus | star | slash | percent | bang
  | assign | equal | notEqual | less | greater | atMost | atLeast | both | either
  | openParen | closeParen | openBrace | closeBrace | comma | dot | semicolon
deriving DecidableEq, Repr

namespace Symbol

def all : List Symbol :=
  [plus, minus, star, slash, percent, bang, assign, equal, notEqual, less, greater, atMost,
   atLeast, both, either, openParen, closeParen, openBrace, closeBrace, comma, dot, semicolon]

def spelling : Symbol → String
  | plus => "+" | minus => "-" | star => "*" | slash => "/" | percent => "%" | bang => "!"
  | assign => ":=" | equal => "==" | notEqual => "!=" | less => "<" | greater => ">"
  | atMost => "<=" | atLeast => ">=" | both => "&&" | either => "||"
  | openParen => "(" | closeParen => ")" | openBrace => "\x7b" | closeBrace => "\x7d"
  | comma => "," | dot => "." | semicolon => ";"

def label : Symbol → String
  | plus => "Plus" | minus => "Minus" | star => "Star" | slash => "Slash" | percent => "Percent"
  | bang => "Bang" | assign => "Assign" | equal => "Eq" | notEqual => "Neq" | less => "Lt"
  | greater => "Gt" | atMost => "Le" | atLeast => "Ge" | both => "AndAnd" | either => "OrOr"
  | openParen => "LParen" | closeParen => "RParen" | openBrace => "LBrace"
  | closeBrace => "RBrace" | comma => "Comma" | dot => "Dot" | semicolon => "Semicolon"

theorem mem_all (s : Symbol) : s ∈ all := by cases s <;> decide

end Symbol

inductive Lexeme where
  | integer (value : Int64)
  | float (value : Float)
  | text (value : String)
  | name (value : String)
  | keyword (k : Keyword)
  | symbol (s : Symbol)
  /-- The end of the text. -/
  | finish

/-- The kind of a lexeme, without what a literal or a name holds. -/
def Lexeme.label : Lexeme → String
  | integer _ => "Integer"
  | float _ => "Float"
  | text _ => "StringLit"
  | name _ => "Identifier"
  | keyword k => k.label
  | symbol s => s.label
  | finish => "Eof"

/-- The lexeme as messages show it. -/
def Lexeme.shown : Lexeme → String
  | integer n => s!"Integer({n.toInt})"
  | float x => s!"Float({Decimal.showFloat x})"
  | text s => s!"StringLit({Text.quote s})"
  | name s => s!"Identifier({Text.quote s})"
  | l => l.label

structure Token where
  lexeme : Lexeme
  place : Place

end Ember.Source
