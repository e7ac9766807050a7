import Ember.Source.Token

/-!
# Faults of a source text

Why a text is no program. A fault is a cause: wrong characters or wrong structure at a place, a
token where another was expected, or the end of the text. `ParseError` adds the file's name and
has the message.
-/

namespace Ember.Source

/-- What is wrong at a place. -/
inductive Flaw where
  | unknownCharacter (c : Char)
  | loneColon
  | loneEquals
  | floatLiteral (spelling : String)
  | integerRange (spelling : String)
  | expressionDepth
  | blockDepth
  | repeatedParameter (name : String)
  | assignmentTarget
  | noExpression (found : Lexeme)

def Flaw.message : Flaw → String
  | unknownCharacter c => s!"Unexpected character: '{c}'"
  | loneColon => "Unexpected ':'. Did you mean ':='?"
  | loneEquals => "Unexpected '='. Did you mean ':=' for assignment or '==' for comparison?"
  | floatLiteral s => s!"Invalid float literal '{s}'"
  | integerRange s => s!"Integer literal '{s}' out of range"
  | expressionDepth => "Expression nested too deeply"
  | blockDepth => "Blocks nested too deeply"
  | repeatedParameter name => s!"Duplicate parameter '{name}'"
  | assignmentTarget => "Invalid assignment target"
  | noExpression found => s!"Expected expression, found {found.shown}"

/-- What a name is needed for. -/
inductive NameRole where
  | variable | function | parameter | module | attribute | newName
deriving DecidableEq, Repr

/-- What was expected in the place of a token. -/
inductive Expected where
  | symbol (s : Symbol)
  | name (role : NameRole)
deriving DecidableEq, Repr

def Expected.shown : Expected → String
  | symbol s => s.label
  | name .variable => "variable name"
  | name .function => "function name"
  | name .parameter => "parameter name"
  | name .module => "module name"
  | name .attribute => "attribute name"
  | name .newName => "alias"

inductive Fault where
  | flaw (flaw : Flaw) (place : Place)
  | unexpected (expected : Expected) (found : Token)
  | ended

structure ParseError where
  file : String
  fault : Fault

def ParseError.message (e : ParseError) : String :=
  match e.fault with
  | .flaw f p => s!"Syntax Error at {e.file}:{p.line}:{p.column}: {f.message}"
  | .unexpected x t =>
    s!"Unexpected token: expected {x.shown}, found {t.lexeme.shown} at {e.file}:{t.place.line}:{t.place.column}"
  | .ended => s!"Unexpected end of file in {e.file}"

end Ember.Source
