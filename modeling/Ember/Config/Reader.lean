import Ember.Config
import Ember.Decimal.Layout
import Ember.Decimal.Scaled
import Ember.Text.Quoted
import Ember.Text.Utf8

/-!
# Reading a configuration

A configuration is a JSON document: a record with any of the four fields, each at most once, or a
list that gives them in order and may end early. Reading is one pass over the bytes and stops at
the first problem. A problem is of one of three categories: the text is no JSON, it ends early, or
it is JSON so far but not what is wanted. What follows a problem is never looked at, so
`{"x": ` has an unknown field rather than an early end. Bytes are held as characters below 256.
-/

namespace Ember.Config

/-! ## Problems -/

inductive Category where
  | malformed | ended | unfit
deriving DecidableEq, Repr

/-- What a value was, where another was wanted. -/
inductive Actual where
  | null
  | bool (b : Bool)
  | natural (n : Nat)
  | negative (n : Nat)
  | float (x : Float)
  | text (s : String)
  | list
  | record

def Actual.shown : Actual → String
  | null => "null"
  | bool b => s!"boolean `{b}`"
  | natural n => s!"integer `{n}`"
  | negative n => s!"integer `-{n}`"
  | float x => s!"floating point `{Decimal.documentFloat x}`"
  | text s => s!"string {Text.quote s}"
  | list => "sequence"
  | record => "map"

/-- What is wanted in a place. -/
inductive Wanted where
  | flag | limit | whole

def Wanted.shown : Wanted → String
  | flag => "a boolean"
  | limit => "usize"
  | whole => "struct RuntimeConfig"

inductive Problem where
  | endInValue | endInRecord | endInList | endInText
  | noColon | noListEnd | noRecordEnd | noWord | noValue
  | badEscape | badNumber | numberRange | controlCharacter | keyNotText
  | loneSurrogate | cutSurrogate | trailingComma | trailingText
  | wrongType (actual : Actual) (wanted : Wanted)
  | negativeLimit (n : Nat)
  | unknownField (name : String)
  | repeatedField (f : Field)

namespace Problem

def category : Problem → Category
  | endInValue | endInRecord | endInList | endInText => .ended
  | wrongType .. | negativeLimit _ | unknownField _ | repeatedField _ => .unfit
  | _ => .malformed

def message : Problem → String
  | endInValue => "EOF while parsing a value"
  | endInRecord => "EOF while parsing an object"
  | endInList => "EOF while parsing a list"
  | endInText => "EOF while parsing a string"
  | noColon => "expected `:`"
  | noListEnd => "expected `,` or `]`"
  | noRecordEnd => "expected `,` or `\x7d`"
  | noWord => "expected ident"
  | noValue => "expected value"
  | badEscape => "invalid escape"
  | badNumber => "invalid number"
  | numberRange => "number out of range"
  | controlCharacter => "control character (\\u0000-\\u001F) found while parsing a string"
  | keyNotText => "key must be a string"
  | loneSurrogate => "lone leading surrogate in hex escape"
  | cutSurrogate => "unexpected end of hex escape"
  | trailingComma => "trailing comma"
  | trailingText => "trailing characters"
  | wrongType actual wanted => s!"invalid type: {actual.shown}, expected {wanted.shown}"
  | negativeLimit n => s!"invalid value: integer `-{n}`, expected usize"
  | unknownField name =>
    let names := ", ".intercalate (Field.all.map fun f => s!"`{f.name}`")
    s!"unknown field `{name}`, expected one of {names}"
  | repeatedField f => s!"duplicate field `{f.name}`"

end Problem

/-- A problem, and the bytes ahead of where it was noticed. -/
structure Halt where
  problem : Problem
  rest : List Char

/-- What was read, and the bytes ahead. -/
abbrev Read (α : Type) := α × List Char

/-- A problem noticed behind what was read. -/
def halt {α : Type} (p : Problem) (rest : List Char) : Except Halt α := .error ⟨p, rest⟩

/-- A problem noticed at the next byte, which counts as read. -/
def haltAt {α : Type} (p : Problem) (rest : List Char) : Except Halt α := .error ⟨p, rest.tail⟩

/-! ## Leaves -/

def isSpace (c : Char) : Bool := c = ' ' || c = '\n' || c = '\t' || c = '\r'

def skipSpace (cs : List Char) : List Char := cs.dropWhile isSpace

/-- Reads the rest of a word. -/
def word : List Char → List Char → Except Halt (List Char)
  | [], cs => .ok cs
  | _ :: _, [] => halt .endInValue []
  | w :: ws, c :: cs => if c = w then word ws cs else halt .noWord cs

/-- A number without sign: a whole one of 64 bits, or a double. -/
inductive Number where
  | whole (n : Nat)
  | decimal (x : Float)

/-- A double, unless it is out of range. -/
def scaledNumber (s : Decimal.Scaled) (cs : List Char) : Except Halt (Read Number) :=
  match s.toFloat? with
  | none => halt .numberRange cs
  | some x => .ok (.decimal x, cs)

/-- The exponent behind its mark. Its digits are looked at as long as they stay below `2 ^ 31`. If
they do not, the number is out of range there, or it is zero. -/
def exponentPart (s : Decimal.Scaled) (cs : List Char) : Except Halt (Read Number) :=
  let (negative, cs) := Decimal.readSign cs
  match cs with
  | [] => halt .endInValue []
  | c :: rest =>
    if !c.isDigit then halt .badNumber rest
    else
      let (digits, cs) := Decimal.spanDigits cs
      match Decimal.takeBelow (Decimal.pow2 31) 0 digits with
      | (e, []) => scaledNumber ⟨s.word, s.exponent + if negative then -(e : Int) else e⟩ cs
      | (_, _ :: more) =>
        if s.word ≠ 0 ∧ !negative then halt .numberRange (more ++ cs)
        else .ok (.decimal 0.0, cs)

/-- The fraction behind its point. -/
def fractionPart (digits : List Char) (cs : List Char) : Except Halt (Read Number) :=
  let (fraction, cs) := Decimal.spanDigits cs
  if fraction.isEmpty then
    if cs.isEmpty then halt .endInValue [] else haltAt .badNumber cs
  else
    let s := Decimal.Scaled.ofDigits digits fraction
    match cs with
    | c :: rest => if c = 'e' || c = 'E' then exponentPart s rest else scaledNumber s cs
    | [] => scaledNumber s []

/-- A number of digits only: whole if it has 64 bits. -/
def wholeNumber (digits : List Char) (cs : List Char) : Except Halt (Read Number) :=
  let n := Decimal.natOfDigits digits
  if n < UInt64.size then .ok (.whole n, cs)
  else scaledNumber (Decimal.Scaled.ofDigits digits []) cs

/-- A number without its sign. -/
def unsigned : List Char → Except Halt (Read Number)
  | [] => halt .endInValue []
  | c :: cs =>
    if !c.isDigit then halt .badNumber cs
    else
      let (more, rest) := if c = '0' then ([], cs) else Decimal.spanDigits cs
      let digits := c :: more
      match rest with
      | d :: tail =>
        if c = '0' && d.isDigit then haltAt .badNumber rest
        else if d = '.' then fractionPart digits tail
        else if d = 'e' || d = 'E' then exponentPart (Decimal.Scaled.ofDigits digits []) tail
        else wholeNumber digits rest
      | [] => wholeNumber digits []

/-- A number as the value that it is. Minus zero, and negative whole numbers beyond 64 bits, are
doubles. -/
def Number.actual (negative : Bool) : Number → Actual
  | .whole n =>
    if !negative then .natural n
    else if n = 0 || Decimal.pow2 63 < n then .float (Decimal.ofDecimal true n 0)
    else .negative n
  | .decimal x => .float (if negative then -x else x)

/-! ## Text -/

/-- The value of four hexadecimal digits. -/
def hexValue? (cs : List Char) : Option Nat :=
  cs.foldlM (fun n c =>
    if c.isDigit then some (16 * n + (c.toNat - 48))
    else if 'a' ≤ c ∧ c ≤ 'f' then some (16 * n + (c.toNat - 87))
    else if 'A' ≤ c ∧ c ≤ 'F' then some (16 * n + (c.toNat - 55))
    else none) 0

def hex (cs : List Char) : Except Halt (Read Nat) :=
  if cs.length < 4 then halt .endInText []
  else match hexValue? (cs.take 4) with
  | some n => .ok (n, cs.drop 4)
  | none => halt .badEscape (cs.drop 4)

/-- The bytes of a code point, as characters below 256. -/
def bytesOf (n : Nat) : List Char :=
  (Char.ofNat n).toString.toUTF8.data.toList.map fun b => Char.ofNat b.toNat

/-- The second half of a surrogate pair. -/
def lowSurrogate (high : Nat) : List Char → Except Halt (Read (List Char))
  | '\\' :: 'u' :: cs => do
    let (low, cs) ← hex cs
    if low < 0xdc00 || 0xdfff < low then halt .loneSurrogate cs
    else .ok (bytesOf (0x10000 + (high - 0xd800) * 1024 + (low - 0xdc00)), cs)
  | [] | ['\\'] => halt .endInText []
  | '\\' :: _ :: cs => halt .cutSurrogate cs
  | _ :: cs => halt .cutSurrogate cs

/-- What follows a backslash. -/
def escape : List Char → Except Halt (Read (List Char))
  | [] => halt .endInText []
  | 'b' :: cs => .ok (['\x08'], cs)
  | 'f' :: cs => .ok (['\x0c'], cs)
  | 'n' :: cs => .ok (['\n'], cs)
  | 'r' :: cs => .ok (['\r'], cs)
  | 't' :: cs => .ok (['\t'], cs)
  | 'u' :: cs => do
    let (n, cs) ← hex cs
    if 0xdc00 ≤ n && n ≤ 0xdfff then halt .loneSurrogate cs
    else if 0xd800 ≤ n && n ≤ 0xdbff then lowSurrogate n cs
    else .ok (bytesOf n, cs)
  | c :: cs => if c = '"' || c = '\\' || c = '/' then .ok ([c], cs) else halt .badEscape cs

/-- A text behind its opening quote; `fuel` bounds the number of its characters. -/
def textFrom : Nat → List Char → List Char → Except Halt (Read (List Char))
  | 0, _, cs => halt .endInText cs
  | _ + 1, _, [] => halt .endInText []
  | fuel + 1, done, c :: cs =>
    if c = '"' then .ok (done.reverse, cs)
    else if c = '\\' then do
      let (value, cs) ← escape cs
      textFrom fuel (value.reverse ++ done) cs
    else if c.toNat < 0x20 then halt .controlCharacter cs
    else textFrom fuel (c :: done) cs

/-- A text behind its opening quote. -/
def text (cs : List Char) : Except Halt (Read String) := do
  let (bytes, cs) ← textFrom (cs.length + 1) [] cs
  return (Text.Utf8.decodeLossy ⟨(bytes.map fun c => c.toNat.toUInt8).toArray⟩, cs)

/-! ## Values -/

/-- Reads as much of a value as is needed to say that it is not what is wanted. -/
def mismatch {α : Type} (wanted : Wanted) : List Char → Except Halt α
  | [] => halt .endInValue []
  | c :: cs =>
    if c = 'n' then do
      let cs ← word "ull".toList cs
      halt (.wrongType .null wanted) cs
    else if c = 't' then do
      let cs ← word "rue".toList cs
      halt (.wrongType (.bool true) wanted) cs
    else if c = 'f' then do
      let cs ← word "alse".toList cs
      halt (.wrongType (.bool false) wanted) cs
    else if c = '-' then do
      let (n, cs) ← unsigned cs
      halt (.wrongType (n.actual true) wanted) cs
    else if c.isDigit then do
      let (n, cs) ← unsigned (c :: cs)
      halt (.wrongType (n.actual false) wanted) cs
    else if c = '"' then do
      let (s, cs) ← text cs
      halt (.wrongType (.text s) wanted) cs
    else if c = '[' then halt (.wrongType .list wanted) (c :: cs)
    else if c = '\x7b' then halt (.wrongType .record wanted) (c :: cs)
    else halt .noValue cs

def flag (cs : List Char) : Except Halt (Read Bool) :=
  match skipSpace cs with
  | 't' :: rest => do
    let rest ← word "rue".toList rest
    return (true, rest)
  | 'f' :: rest => do
    let rest ← word "alse".toList rest
    return (false, rest)
  | rest => mismatch .flag rest

def limitOf (negative : Bool) (n : Number) (cs : List Char) : Except Halt (Read Nat) :=
  match n.actual negative with
  | .natural k => .ok (k, cs)
  | .negative k => halt (.negativeLimit k) cs
  | a => halt (.wrongType a .limit) cs

def limit (cs : List Char) : Except Halt (Read Nat) :=
  match skipSpace cs with
  | '-' :: rest => do
    let (n, rest) ← unsigned rest
    limitOf true n rest
  | c :: rest =>
    if c.isDigit then do
      let (n, rest) ← unsigned (c :: rest)
      limitOf false n rest
    else mismatch .limit (c :: rest)
  | [] => mismatch .limit []

/-- Reads the value of a field into a configuration. -/
def fieldValue (c : Config) (f : Field) (cs : List Char) : Except Halt (Read Config) :=
  match f with
  | .bundleBuiltins => (flag cs).map fun r => ({ c with bundleBuiltins := r.1 }, r.2)
  | .traceLoads => (flag cs).map fun r => ({ c with traceLoads := r.1 }, r.2)
  | .maxLoadDepth => (limit cs).map fun r => ({ c with maxLoadDepth := r.1 }, r.2)
  | .maxCallDepth => (limit cs).map fun r => ({ c with maxCallDepth := r.1 }, r.2)

/-! ## Whole configurations -/

/-- The fields of a list, in order; `first` says that nothing was read yet. -/
def listFields (c : Config) (first : Bool) : List Field → List Char → Except Halt (Read Config)
  | [], cs =>
    match skipSpace cs with
    | ']' :: rest => .ok (c, rest)
    | ',' :: rest => match skipSpace rest with
      | ']' :: tail => haltAt .trailingComma (']' :: tail)
      | rest => haltAt .trailingText rest
    | [] => halt .endInList []
    | rest => haltAt .trailingText rest
  | f :: fs, cs =>
    match skipSpace cs with
    | ']' :: rest => .ok (c, rest)
    | [] => halt .endInList []
    | d :: rest =>
      if first then do
        let (c, cs) ← fieldValue c f (d :: rest)
        listFields c false fs cs
      else if d = ',' then
        match skipSpace rest with
        | ']' :: tail => haltAt .trailingComma (']' :: tail)
        | [] => halt .endInValue []
        | rest => do
          let (c, cs) ← fieldValue c f rest
          listFields c false fs cs
      else haltAt .noListEnd (d :: rest)

/-- Where a field that must not be there is noticed: behind its name and blanks, and behind the
record if that ends there. -/
def behindName (cs : List Char) : List Char :=
  match skipSpace cs with
  | '\x7d' :: rest => rest
  | rest => rest

/-- A field from its opening quote on: its name, the colon and the value. -/
def recordField (c : Config) (seen : List Field) (cs : List Char) :
    Except Halt (Read (Config × Field)) := do
  let (name, cs) ← text cs
  match Field.all.find? (·.name = name) with
  | none => halt (.unknownField name) (behindName cs)
  | some f =>
    if seen.contains f then halt (.repeatedField f) (behindName cs)
    else match skipSpace cs with
    | ':' :: rest => do
      let (c, cs) ← fieldValue c f rest
      return ((c, f), cs)
    | [] => halt .endInRecord []
    | rest => haltAt .noColon rest

/-- The fields of a record that are not in `seen`. Each field is read at most once, so `fuel` is
more than the number of fields left. -/
def recordFields : Nat → Config → List Field → List Char → Except Halt (Read Config)
  | 0, _, _, cs => haltAt .noRecordEnd cs
  | fuel + 1, c, seen, cs =>
    match skipSpace cs with
    | '\x7d' :: rest => .ok (c, rest)
    | [] => halt .endInRecord []
    | d :: rest =>
      if seen.isEmpty then
        if d = '"' then do
          let ((c, f), cs) ← recordField c seen rest
          recordFields fuel c (f :: seen) cs
        else haltAt .keyNotText (d :: rest)
      else if d = ',' then
        match skipSpace rest with
        | '"' :: rest => do
          let ((c, f), cs) ← recordField c seen rest
          recordFields fuel c (f :: seen) cs
        | '\x7d' :: rest => haltAt .trailingComma ('\x7d' :: rest)
        | [] => halt .endInValue []
        | rest => haltAt .keyNotText rest
      else haltAt .noRecordEnd (d :: rest)

/-- A whole document: a configuration and nothing behind it. -/
def whole (cs : List Char) : Except Halt Config := do
  let (c, cs) ← match skipSpace cs with
    | '[' :: rest => listFields default true Field.all rest
    | '\x7b' :: rest => recordFields 6 default [] rest
    | rest => mismatch .whole rest
  match skipSpace cs with
  | [] => return c
  | rest => haltAt .trailingText rest

/-! ## Errors -/

inductive Error where
  | problem (p : Problem) (line column : Nat)
  | zeroLimit (f : Field)

def Error.message : Error → String
  | problem p line column => s!"JSON Parse Error: {p.message} at line {line} column {column}"
  | zeroLimit f => s!"Invalid configuration: {f.name} must be at least 1"

/-- The line of the last of some bytes and its column, both counted from one; a column of zero
is the start of a line. -/
def lineAndColumn (read : List Char) : Nat × Nat :=
  let lines := read.count '\n'
  let column := (read.reverse.takeWhile (· ≠ '\n')).length
  (lines + 1, column)

def parse (json : String) : Except Error Config :=
  let cs := json.toUTF8.data.toList.map fun b => Char.ofNat b.toNat
  match whole cs with
  | .error ⟨p, rest⟩ =>
    let (line, column) := lineAndColumn (cs.take (cs.length - rest.length))
    .error (.problem p line column)
  | .ok c => match c.zeroLimit? with
    | some f => .error (.zeroLimit f)
    | none => .ok c

end Ember.Config
