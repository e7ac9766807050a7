import Ember.Decimal.Layout
import Ember.Source.Program

/-!
# Programs as documents

A program tree as a data document: records, lists and leaves. A node that holds something is a
record with one field, named for its kind. `Document.pretty` writes a document out, two spaces to
a level and one entry to a line.
-/

namespace Ember.Source

inductive Document where
  | null
  | bool (value : Bool)
  | natural (value : Nat)
  | integer (value : Int64)
  | float (value : Float)
  | text (value : String)
  | list (items : List Document)
  | record (fields : List (String × Document))

namespace Document

/-- A node of a kind. -/
def node (kind : String) (content : Document) : Document := .record [(kind, content)]

def ofOption {α : Type} (f : α → Document) : Option α → Document
  | none => .null
  | some a => f a

end Document

open Document in
mutual

def Expr.document : Expr → Document
  | .integer n => node "Integer" (.integer n)
  | .float x => node "Float" (.float x)
  | .text s => node "Literal" (.text s)
  | .bool b => node "Boolean" (.bool b)
  | .nil => .text "Nil"
  | .variable s => node "Variable" (.text s)
  | .binary op l r =>
    node "Binary" (.record [("op", .text op.label), ("left", l.document), ("right", r.document)])
  | .unary op e => node "Unary" (.record [("op", .text op.label), ("operand", e.document)])
  | .call f args =>
    node "Call" (.record [("callee", f.document), ("args", .list (documentsOf args))])
  | .attribute e s => node "GetAttr" (.record [("object", e.document), ("attr", .text s)])

def documentsOf : List Expr → List Document
  | [] => []
  | e :: es => e.document :: documentsOf es

end

open Document in
mutual

def Statement.document : Statement → Document
  | .assign line name value => at_ line
      (node "Let" (.record [("name", .text name), ("value", value.document)]))
  | .setAttribute line object name value => at_ line
      (node "SetAttr" (.record
        [("object", object.document), ("attr", .text name), ("value", value.document)]))
  | .give line value => at_ line (node "Return" (ofOption Expr.document value))
  | .expr line value => at_ line (node "Expression" value.document)
  | .when line condition body => at_ line
      (node "If" (.record [("condition", condition.document),
        ("then_block", .list (blockDocuments body)), ("else_block", .null)]))
  | .choose line condition body other => at_ line
      (node "If" (.record [("condition", condition.document),
        ("then_block", .list (blockDocuments body)), ("else_block", .list (blockDocuments other))]))
  | .loop line condition body => at_ line
      (node "While" (.record
        [("condition", condition.document), ("body", .list (blockDocuments body))]))
  | .function line name params body => at_ line
      (node "Function" (.record [("name", .text name), ("params", .list (params.map .text)),
        ("body", .list (blockDocuments body))]))
  | .use line module newName => at_ line
      (node "Import" (.record [("name", .text module), ("alias", ofOption .text newName)]))
  | .raise line value => at_ line (node "Raise" value.document)
where
  at_ (line : Nat) (kind : Document) : Document :=
    .record [("line", .natural line), ("kind", kind)]

def blockDocuments : List Statement → List Document
  | [] => []
  | s :: ss => s.document :: blockDocuments ss

end

def Program.document (p : Program) : Document :=
  .record [("statements", .list (blockDocuments p))]

namespace Document

/-! ## Writing -/

/-- Quoted text in a document: controls are escaped, all else stands for itself. -/
def escapeChar (c : Char) : List Char :=
  match c with
  | '"' => ['\\', '"']
  | '\\' => ['\\', '\\']
  | '\n' => ['\\', 'n']
  | '\r' => ['\\', 'r']
  | '\t' => ['\\', 't']
  | '\x08' => ['\\', 'b']
  | '\x0c' => ['\\', 'f']
  | c =>
    if c.toNat < 0x20 then
      ['\\', 'u', '0', '0', Nat.digitChar (c.toNat / 16), Nat.digitChar (c.toNat % 16)]
    else [c]

def quote (s : String) : String :=
  String.ofList ('"' :: (s.toList.flatMap escapeChar ++ ['"']))

def newline (level : Nat) : String := "\n" ++ String.ofList (List.replicate (2 * level) ' ')

/-- Entries between brackets; nothing stands between the brackets of an empty list. -/
def bracket (opening closing : String) (level : Nat) : List String → String
  | [] => opening ++ closing
  | items => opening ++ newline (level + 1) ++ ("," ++ newline (level + 1)).intercalate items ++
      newline level ++ closing

mutual

def pretty (level : Nat) : Document → String
  | .null => "null"
  | .bool b => toString b
  | .natural n => toString n
  | .integer n => toString n.toInt
  | .float x => Decimal.documentFloat x
  | .text s => quote s
  | .list items => bracket "[" "]" level (prettyItems (level + 1) items)
  | .record fields => bracket "\x7b" "\x7d" level (prettyFields (level + 1) fields)

def prettyItems (level : Nat) : List Document → List String
  | [] => []
  | d :: ds => pretty level d :: prettyItems level ds

def prettyFields (level : Nat) : List (String × Document) → List String
  | [] => []
  | (name, d) :: ds => (quote name ++ ": " ++ pretty level d) :: prettyFields level ds

end

end Document

end Ember.Source
