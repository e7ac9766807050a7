import Ember.Output.Stream
import Ember.Text.Utf8

/-!
# A host that keeps what it is given

`Capture` stores every write in the order in which it came, so that each stream can be read back.
It may have room for a limited number of bytes in all; then it takes as much as fits. Sizes are
machine words, and the number of bytes asked for is their product modulo `2 ^ 64`.
-/

namespace Ember

structure Capture where
  /-- What was stored, the latest first. -/
  writes : List (Stream × ByteArray)
  /-- The bytes that may still be stored, if there is a limit. -/
  room : Option Nat

namespace Capture

def unlimited : Capture := ⟨[], none⟩

def limited (limit : Nat) : Capture := ⟨[], some limit⟩

/-- Joins byte strings in order. -/
def concat (parts : List ByteArray) : ByteArray := parts.foldl (· ++ ·) ByteArray.empty

/-- All bytes stored for a stream, in order. -/
def bytes (c : Capture) (s : Stream) : ByteArray :=
  concat ((c.writes.reverse.filter (·.1 = s)).map Prod.snd)

def contents (c : Capture) (s : Stream) : String := Text.Utf8.decodeLossy (c.bytes s)

/-- Forgets what was stored; the room that it took stays used. -/
def clear (c : Capture) : Capture := { c with writes := [] }

/-- The number of bytes that `count` elements of `size` bytes ask for. -/
def requested (bytes : ByteArray) (size count : Nat) : Nat :=
  min (size * count % UInt64.size) bytes.size

/-- Stores whole elements as far as there is room. The room is taken before the last, cut element
is dropped. -/
def rawWrite (c : Capture) (bytes : ByteArray) (size count : Nat) (s : Stream) : Nat × Capture :=
  if size = 0 then (0, c)
  else
    let asked := requested bytes size count
    let taken := match c.room with
      | some left => min asked left
      | none => asked
    let stored := taken - taken % size
    (stored / size,
      ⟨(s, bytes.extract 0 stored) :: c.writes, c.room.map (· - taken)⟩)

end Capture

instance : Host Capture where
  write := Capture.rawWrite
  flush c _ := (0, c)
  stdout _ := .stdout
  stderr _ := .stderr

end Ember
