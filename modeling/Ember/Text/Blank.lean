/-!
# Blank characters

The characters with Unicode's `White_Space` property. These, and no others, separate tokens
besides comments.
-/

namespace Ember.Text

/-- The ranges of `White_Space`, in increasing order, both ends included. -/
def blankRanges : List (Nat × Nat) :=
  [(0x9, 0xd), (0x20, 0x20), (0x85, 0x85), (0xa0, 0xa0), (0x1680, 0x1680), (0x2000, 0x200a),
   (0x2028, 0x2029), (0x202f, 0x202f), (0x205f, 0x205f), (0x3000, 0x3000)]

def isBlank (c : Char) : Bool :=
  blankRanges.any fun r => r.1 ≤ c.toNat && c.toNat ≤ r.2

theorem isBlank_of_isWhitespace {c : Char} (h : c.isWhitespace) : isBlank c := by
  simp only [Char.isWhitespace, Bool.or_eq_true, decide_eq_true_eq] at h
  rcases h with ((rfl | rfl) | rfl) | rfl <;> decide

theorem isBlank_newline : isBlank '\n' := by decide

example : (blankRanges.map fun r => r.2 - r.1 + 1).sum = 25 := by decide

end Ember.Text
