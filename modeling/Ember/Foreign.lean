import Ember.Machine.Run
import Ember.Output.Standard

/-!
# The interface for foreign hosts

What a host written in another language can do through plain functions on numbers and texts that
end with a zero byte. A pointer that may be null is an option. Writing and flushing are functions of
the host, which work on a state of type `S` that belongs to it; until it supplies them, output goes
to the standard host. A failure is a zero, and its cause can be asked for once.
-/

namespace Ember

/-- The functions and the stream handles of a foreign host. -/
structure Callbacks (S : Type) where
  state : S
  write : S → ByteArray → Nat → Nat → Nat → Nat × S
  flush : Option (S → Nat → Int × S)
  stdout : Nat
  stderr : Nat

inductive ForeignHost (S : Type) where
  | standard (h : Standard)
  | callbacks (c : Callbacks S)

namespace Callbacks

variable {S : Type}

def handle (c : Callbacks S) : Stream → Nat
  | .stdout => c.stdout
  | .stderr => c.stderr
  | .host n => n

/-- The host is not asked to read beyond the end of a buffer. -/
def rawWrite (c : Callbacks S) (bytes : ByteArray) (size count : Nat) (s : Stream) :
    Nat × Callbacks S :=
  if bytes.size < size * count then (0, c)
  else
    let (n, state) := c.write c.state bytes size count (c.handle s)
    (n, { c with state := state })

def flushStream (c : Callbacks S) (s : Stream) : Int × Callbacks S :=
  match c.flush with
  | none => (0, c)
  | some f =>
    let (n, state) := f c.state (c.handle s)
    (n, { c with state := state })

end Callbacks

instance {S : Type} : Host (ForeignHost S) where
  write h bytes size count s := match h with
    | .standard h =>
      let (n, h) := Host.write h bytes size count s
      (n, .standard h)
    | .callbacks c =>
      let (n, c) := c.rawWrite bytes size count s
      (n, .callbacks c)
  flush h s := match h with
    | .standard h =>
      let (n, h) := Host.flush h s
      (n, .standard h)
    | .callbacks c =>
      let (n, c) := c.flushStream s
      (n, .callbacks c)
  stdout h := match h with
    | .standard h => Host.stdout h
    | .callbacks c => .host c.stdout
  stderr h := match h with
    | .standard h => Host.stderr h
    | .callbacks c => .host c.stderr

namespace Foreign

variable {S : Type}

/-- An interpreter behind a pointer. -/
abbrev Handle (S : Type) := Option (Interpreter (ForeignHost S))

/-- A text behind a pointer: the bytes up to the first zero. -/
def textBytes (bytes : ByteArray) : ByteArray := ⟨(bytes.data.toList.takeWhile (· ≠ 0)).toArray⟩

/-- Reads a text; `what` names it in the error. -/
def readText (what : String) : Option ByteArray → Except LoadError String
  | none => .error (.refused (.host s!"{what} pointer is null"))
  | some bytes => match Text.Utf8.decode? (textBytes bytes) with
    | .ok s => .ok s
    | .error e => .error (.refused (.host s!"{what} is not valid UTF-8: {e.message}"))

/-- Sends all output to the functions of the host. -/
def setHost (i : Handle S) (c : Option (Callbacks S)) : Int × Handle S :=
  match i, c with
  | some s, some c => (1, some { s with host := .callbacks c })
  | i, _ => (0, i)

/-- Loads a source text as a module. -/
def exec (fuel : Nat) (i : Handle S) (source name : Option ByteArray) : Option (Int × Handle S) :=
  match i with
  | none => some (0, none)
  | some s =>
    let texts := do
      let source ← readText "source" source
      let name ← readText "name" name
      return (source, name)
    match texts with
    | .error e => some (0, some { s with lastError := some e })
    | .ok (source, name) =>
      (s.load fuel source name).map fun (s, b) => (if b then 1 else 0, some s)

/-- Is a module registered? -/
def has (i : Handle S) (name : Option ByteArray) : Int :=
  match i, readText "name" name with
  | some s, .ok name => if s.registry.contains name then 1 else 0
  | _, _ => 0

/-- A text that can be handed out: zero characters are replaced. -/
def handedOut (s : String) : String := s.map fun c => if c = '\x00' then Text.Utf8.replacement else c

/-- Takes the last failure, as its kind and message. -/
def takeLastError (i : Handle S) : Option String × Handle S :=
  match i with
  | none => (none, none)
  | some s => match s.lastError with
    | none => (none, some s)
    | some e => (some (handedOut (e.report s.heap)), some { s with lastError := none })

/-- Flushes a stream of the host. -/
def flush (i : Handle S) (stream : Nat) : Int × Handle S :=
  match i with
  | none => (Output.eof, none)
  | some s =>
    let (n, host) := Host.flush s.host (.host stream)
    (n, some { s with host := host })

end Foreign

end Ember
