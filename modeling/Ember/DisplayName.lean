/-!
# Display names

The name that stands for a module's file: the module's name between angle brackets, cut to 63
bytes of UTF-8. The cut is made between two characters, at a place that is looked for from byte 63
backwards, so that a character is kept whole or not at all.
-/

namespace Ember

/-- The greatest length of a display name, in bytes. -/
def maxDisplayBytes : Nat := 63

/-- The boundary between characters at byte `n` or, going back byte by byte, before it; `none` if
the search passes below zero. -/
def boundary? (s : String) : Nat → Option s.Pos
  | 0 => if h : (0 : String.Pos.Raw).IsValid s then some ⟨0, h⟩ else none
  | n + 1 =>
    if h : String.Pos.Raw.IsValid s ⟨n + 1⟩ then some ⟨⟨n + 1⟩, h⟩ else boundary? s n

/-- A text begins with a boundary, so that the search stops there at the latest. -/
theorem isSome_boundary? (s : String) (n : Nat) : (boundary? s n).isSome := by
  induction n with
  | zero => simp [boundary?]
  | succ n ih =>
    unfold boundary?
    split
    · rfl
    · exact ih

/-- A text that is cut at the last boundary within `limit` bytes, if it takes more than these. -/
def cutToBytes (limit : Nat) (s : String) : String :=
  if s.utf8ByteSize ≤ limit then s
  else (s.sliceTo ((boundary? s limit).get (isSome_boundary? s limit))).copy

def displayName (name : String) : String := cutToBytes maxDisplayBytes ("<" ++ name ++ ">")

example : displayName "a.b" = "<a.b>" := by decide

example : cutToBytes 4 "añ€b" = "añ" := by decide

end Ember
