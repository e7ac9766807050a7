/-!
# Columns

How many columns of a terminal a character takes: none for combining marks and joiners, two for
the wide characters of East Asia and for pictographs, and minus one for a control character,
which has no width.
-/

namespace Ember.Text

def combiningRanges : List (Nat × Nat) := [(0x300, 0x36f), (0x200b, 0x200f), (0xfe00, 0xfe0f)]

def wideRanges : List (Nat × Nat) :=
  [(0x1100, 0x115f), (0x2e80, 0x303e), (0x3041, 0x33ff), (0x3400, 0x4dbf), (0x4e00, 0x9fff),
   (0xa000, 0xa4cf), (0xac00, 0xd7a3), (0xf900, 0xfaff), (0xfe30, 0xfe4f), (0xff00, 0xff60),
   (0xffe0, 0xffe6), (0x1f300, 0x1f64f), (0x1f900, 0x1f9ff), (0x20000, 0x3fffd)]

def within (ranges : List (Nat × Nat)) (n : Nat) : Bool :=
  ranges.any fun r => r.1 ≤ n && n ≤ r.2

def columns (c : Char) : Int :=
  let n := c.toNat
  if n = 0 then 0
  else if n ≤ 0x1f || (0x7f ≤ n && n ≤ 0x9f) then -1
  else if within combiningRanges n then 0
  else if within wideRanges n then 2
  else 1

/-- The columns of a text; minus one if it has a control character. -/
def columnsOf (s : String) : Int :=
  let widths := s.toList.map columns
  if widths.any (· < 0) then -1 else widths.foldl (· + ·) 0

end Ember.Text
