import Ember.DisplayName

/-!
# Cutting a text between two characters

**Theorem (`displayName_longest`).** A display name is the module's name between angle brackets if
this takes at most 63 bytes. Otherwise it is the longest start of that, made of whole characters,
that takes at most 63 bytes, and it takes at least 60. The search for the place of the cut never
passes below zero.

The starts of a text that are made of whole characters end at its boundaries. The search goes back
byte by byte, so it stops at the last boundary (`last_of_boundary?`) and gives the longest start
(`longestStart_of_boundary?`). A character takes at most four bytes; if four or more bytes were left
over, then the next character would fit too (`LongestStart.limit_lt`).
-/

namespace Ember

/-- The longest start of a text, made of whole characters, that takes at most `limit` bytes. -/
structure LongestStart (limit : Nat) (s t : String) : Prop where
  start : ∃ u, s = t ++ u
  size : t.utf8ByteSize ≤ limit
  longest : ∀ r u, s = r ++ u → r.utf8ByteSize ≤ limit → r.utf8ByteSize ≤ t.utf8ByteSize

variable {s t : String} {limit : Nat}

/-- **The search finds the last boundary** that is not behind the byte where it starts. -/
theorem last_of_boundary? {n : Nat} {p : s.Pos} (h : boundary? s n = some p) :
    p.offset.byteIdx ≤ n ∧
      ∀ q : s.Pos, q.offset.byteIdx ≤ n → q.offset.byteIdx ≤ p.offset.byteIdx := by
  induction n with
  | zero =>
    unfold boundary? at h
    split at h <;> cases h
    exact ⟨Nat.le_refl _, fun q hq => hq⟩
  | succ n ih =>
    unfold boundary? at h
    split at h
    · cases h
      exact ⟨Nat.le_refl _, fun q hq => hq⟩
    · next hinside =>
      obtain ⟨hle, hlast⟩ := ih h
      refine ⟨Nat.le_succ_of_le hle, fun q hq => hlast q ?_⟩
      have hne : q.offset.byteIdx ≠ n + 1 := fun heq => hinside (heq ▸ q.isValid)
      omega

theorem longestStart_of_boundary? {p : s.Pos} (h : boundary? s limit = some p) :
    LongestStart limit s (s.sliceTo p).copy ∧
      (s.sliceTo p).copy.utf8ByteSize = p.offset.byteIdx := by
  obtain ⟨hle, hlast⟩ := last_of_boundary? h
  have hsize : p.offset.byteIdx = (s.sliceTo p).copy.utf8ByteSize :=
    congrArg String.Pos.Raw.byteIdx p.splits.offset_eq_rawEndPos
  refine ⟨⟨⟨_, p.splits.eq_append⟩, hsize ▸ hle, fun r u hs hr => ?_⟩, hsize.symm⟩
  -- The end of a start is a boundary.
  have hvalid : r.rawEndPos.IsValid s :=
    String.Pos.Raw.isValid_iff_exists_append.2 ⟨r, u, hs, rfl⟩
  exact hsize ▸ hlast ⟨r.rawEndPos, hvalid⟩ hr

/-- **Fewer than four bytes are left over**, since the next character does not fit. -/
theorem LongestStart.limit_lt (h : LongestStart limit s t) (hs : limit < s.utf8ByteSize) :
    limit < t.utf8ByteSize + 4 := by
  obtain ⟨u, rfl⟩ := h.start
  have hmore : u.startPos ≠ u.endPos := by
    intro hnone
    rw [String.startPos_eq_endPos_iff.1 hnone, String.append_empty] at hs
    exact Nat.not_le.2 hs h.size
  obtain ⟨v, hv⟩ := u.splits_startPos.exists_eq_singleton_append hmore
  generalize u.startPos.get hmore = c at hv
  subst hv
  have hnext := h.longest (t ++ String.singleton c) v String.append_assoc.symm
  rw [String.utf8ByteSize_append, String.utf8ByteSize_singleton] at hnext
  have hpos := c.utf8Size_pos
  have hfour := c.utf8Size_le_four
  omega

/-- **A display name is the longest start that takes at most 63 bytes.** -/
theorem displayName_longest (name : String) :
    let shown := "<" ++ name ++ ">"
    (shown.utf8ByteSize ≤ 63 → displayName name = shown) ∧
    (63 < shown.utf8ByteSize → ∃ p, boundary? shown 63 = some p ∧
      displayName name = (shown.sliceTo p).copy ∧
      (displayName name).utf8ByteSize = p.offset.byteIdx ∧
      60 ≤ p.offset.byteIdx ∧ p.offset.byteIdx ≤ 63 ∧
      LongestStart 63 shown (displayName name)) := by
  intro shown
  refine ⟨fun hfits => if_pos hfits, fun hlong => ?_⟩
  have hstops := Option.some_get (isSome_boundary? shown 63)
  generalize hp : (boundary? shown 63).get _ = p at hstops
  have hname : displayName name = (shown.sliceTo p).copy := by
    rw [← hp]
    exact if_neg (Nat.not_le.2 hlong)
  obtain ⟨hlongest, hsize⟩ := longestStart_of_boundary? hstops.symm
  have hlimit := hlongest.limit_lt hlong
  have hle := hlongest.size
  rw [hsize] at hlimit hle
  refine ⟨p, hstops.symm, hname, hname ▸ hsize, by omega, hle, hname ▸ hlongest⟩

end Ember
