/-!
# Streams and hosts

All output goes to a host, which takes runs of bytes for a stream and says how much it took. A host
may refuse or shorten a write, and may say what it likes: nothing in the library depends on its
being honest. On top of the host's one way of writing stand formatted writes, whose text is cut to
a page of 1024 bytes, and writes of one character.
-/

namespace Ember

inductive Stream where
  | stdout
  | stderr
  /-- A stream known to the host only. -/
  | host (handle : Nat)
deriving DecidableEq, Repr

/-- Somewhere to write to. `write h bytes size count s` offers `count` elements of `size` bytes
each and gives the number of whole elements that were taken. -/
class Host (H : Type) where
  write : H → ByteArray → Nat → Nat → Stream → Nat × H
  flush : H → Stream → Int × H
  stdout : H → Stream
  stderr : H → Stream

namespace Output

/-- The number of bytes that one formatted write passes on. -/
def pageSize : Nat := 1024

/-- What is returned for a character that could not be written, and for any failed write. -/
def eof : Int := -1

inductive OutputError where
  /-- A part of the text could not be rendered. -/
  | format
  | shortWrite (requested written : Nat)
deriving DecidableEq, Repr

def OutputError.message : OutputError → String
  | format => "Format error: a value failed to render"
  | shortWrite requested written =>
    s!"Short write: requested {requested} bytes, host wrote {written}"

/-! ## Pages -/

/-- The first bytes of a text that is rendered part by part, and the length of all of it. -/
structure Page where
  kept : ByteArray
  rendered : Nat

namespace Page

def empty : Page := ⟨ByteArray.empty, 0⟩

/-- Adds a part, of which only what fits is kept. -/
def add (p : Page) (part : ByteArray) : Page :=
  ⟨p.kept ++ part.extract 0 (min (pageSize - p.kept.size) part.size), p.rendered + part.size⟩

/-- Renders parts; `none` is a part that fails. -/
def addAll (p : Page) : List (Option String) → Option Page
  | [] => some p
  | none :: _ => none
  | some s :: rest => (p.add s.toUTF8).addAll rest

end Page

/-! ## Writes -/

variable {H : Type} [Host H]

/-- Renders parts and offers the page to the host once. A text that was cut counts in full. -/
def tryWriteParts (h : H) (s : Stream) (parts : List (Option String)) :
    Except OutputError Nat × H :=
  match Page.empty.addAll parts with
  | none => (.error .format, h)
  | some p =>
    let (written, h) := Host.write h p.kept 1 p.kept.size s
    if written < p.kept.size then (.error (.shortWrite p.kept.size written), h)
    else (.ok p.rendered, h)

/-- The greatest length that a write reports. -/
def maxLength : Nat := 0x7fffffff

/-- The same with one number for the outcome. -/
def writeParts (h : H) (s : Stream) (parts : List (Option String)) : Int × H :=
  match tryWriteParts h s parts with
  | (.ok n, h) => (min n maxLength, h)
  | (.error _, h) => (eof, h)

/-- Writes a text and does not ask what became of it. -/
def write (h : H) (s : Stream) (text : String) : H := (writeParts h s [some text]).2

/-- The byte that a character code stands for. -/
def byteOf (code : Int32) : UInt8 := code.toUInt32.toUInt8

/-- Offers the low byte of a code. -/
def tryWriteChar (h : H) (s : Stream) (code : Int32) : Except OutputError Int32 × H :=
  let (written, h) := Host.write h ⟨#[byteOf code]⟩ 1 1 s
  if written = 1 then (.ok code, h) else (.error (.shortWrite 1 written), h)

def writeChar (h : H) (s : Stream) (code : Int32) : Int × H :=
  match tryWriteChar h s code with
  | (.ok code, h) => (code.toInt, h)
  | (.error _, h) => (eof, h)

end Output

end Ember
