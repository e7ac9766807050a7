import Ember.Output.Capture

/-!
# The standard host

The host of a command: the two standard streams take everything, and no other stream exists. What
is written is kept until the command's outer layer passes it on.
-/

namespace Ember

structure Standard where
  pending : Capture

namespace Standard

def new : Standard := ⟨.unlimited⟩

/-- Passes on all that is asked for, a last, cut element included, which is not counted. -/
def rawWrite (h : Standard) (bytes : ByteArray) (size count : Nat) (s : Stream) : Nat × Standard :=
  match s with
  | .host _ => (0, h)
  | s =>
    if size = 0 then (0, h)
    else
      let asked := Capture.requested bytes size count
      (asked / size, ⟨{ h.pending with writes := (s, bytes.extract 0 asked) :: h.pending.writes }⟩)

/-- There is nothing to flush on a stream that does not exist. -/
def flush (h : Standard) : Stream → Int × Standard
  | .host _ => (Output.eof, h)
  | _ => (0, h)

end Standard

instance : Host Standard where
  write := Standard.rawWrite
  flush := Standard.flush
  stdout _ := .stdout
  stderr _ := .stderr

end Ember
