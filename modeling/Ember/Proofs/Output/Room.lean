import Mathlib
import Ember.Proofs.Output.Captures

/-!
# The room of a limited capture

**Theorem (`accounted`).** After any offers to a capture with room for `limit` bytes, the bytes of a
stream are what the offers for it have stored, in order, and the next offer stores as many whole
elements as are asked for, are there and have room. What is stored, what is lost and the room that
is left make up the limit.

Bytes are lost where an offer ends inside an element: room is taken for the piece of it, which is
not stored (`Offer.cut`). So less may be stored in the end than the limit allows (`room_lost`). None
are lost by offers of single bytes, as all of the interpreter's own are.
-/

namespace Ember.Capture

/-- Elements that are offered for a stream. -/
structure Offer where
  bytes : ByteArray
  size : Nat
  count : Nat
  stream : Stream

namespace Offer

/-- The bytes that an offer takes of the room. -/
def taken (o : Offer) (left : Nat) : Nat :=
  if o.size = 0 then 0 else min (requested o.bytes o.size o.count) left

/-- The bytes of an element that is taken in part: they are not stored. -/
def cut (o : Offer) (left : Nat) : Nat := o.taken left % o.size

/-- The numbers of elements that are asked for, are there and have room. The number of bytes that are
asked for is a machine word. -/
def fitting (o : Offer) (left : Nat) : Set Nat :=
  {n | n * o.size ≤ o.size * o.count % 2 ^ 64 ∧ n * o.size ≤ o.bytes.size ∧ n * o.size ≤ left}

/-- The first elements of an offer. -/
def elements (o : Offer) (n : Nat) : ByteArray := o.bytes.extract 0 (n * o.size)

/-- Their bytes, each with the stream. -/
def given (o : Offer) (n : Nat) : List (Stream × UInt8) :=
  (o.elements n).data.toList.map fun b => (o.stream, b)

end Offer

/-- The number of elements that are taken of an offer, and the capture afterwards. -/
def take (c : Capture) (o : Offer) : Nat × Capture := c.rawWrite o.bytes o.size o.count o.stream

/-- Takes offers one after the other. -/
def takeAll (c : Capture) : List Offer → List Nat × Capture
  | [] => ([], c)
  | o :: os =>
    let (n, c) := c.take o
    let (ns, c) := c.takeAll os
    (n :: ns, c)

/-- All bytes that are lost by offers. -/
def cutAll (left : Nat) : List Offer → Nat
  | [] => 0
  | o :: os => o.cut left + cutAll (left - o.taken left) os

/-! ## One offer -/

section

variable {c : Capture} {o : Offer} {left : Nat}

theorem Offer.taken_le (o : Offer) (left : Nat) : o.taken left ≤ left := by
  unfold taken
  split
  · exact Nat.zero_le _
  · exact Nat.min_le_right _ _

/-- What is not cut are whole elements. -/
theorem Offer.elements_add_cut (o : Offer) (left : Nat) :
    o.taken left / o.size * o.size + o.cut left = o.taken left := by
  rw [Nat.mul_comm]
  exact Nat.div_add_mod _ _

theorem Offer.size_elements (o : Offer) (left : Nat) :
    (o.elements (o.taken left / o.size)).size = o.taken left / o.size * o.size := by
  have hle : o.taken left ≤ o.bytes.size := by
    unfold taken requested
    split <;> omega
  have hwhole := o.elements_add_cut left
  rw [elements, ByteArray.size_extract]
  omega

theorem take_of_size_eq_zero (h : o.size = 0) : c.take o = (0, c) := if_pos h

theorem take_of_size_ne_zero (hroom : c.room = some left) (h : o.size ≠ 0) :
    c.take o = (o.taken left / o.size,
      ⟨(o.stream, o.elements (o.taken left / o.size)) :: c.writes,
        some (left - o.taken left)⟩) := by
  have htaken : min (requested o.bytes o.size o.count) left = o.taken left := (if_neg h).symm
  have hstored : o.taken left - o.taken left % o.size = o.taken left / o.size * o.size :=
    Nat.sub_eq_of_eq_add (o.elements_add_cut left).symm
  unfold take rawWrite
  rw [if_neg h, hroom]
  dsimp only [Option.map_some]
  rw [htaken, hstored, Nat.mul_div_cancel _ (Nat.pos_of_ne_zero h)]
  rfl

/-- **What becomes of an offer**: some elements are stored, and the room gets smaller by what is
taken. -/
theorem take_spec (hroom : c.room = some left) (o : Offer) :
    (c.take o).1 = o.taken left / o.size ∧
    (c.take o).2.sequence = c.sequence ++ o.given (o.taken left / o.size) ∧
    (c.take o).2.room = some (left - o.taken left) := by
  by_cases h : o.size = 0
  · have hnone : o.taken left = 0 := if_pos h
    rw [take_of_size_eq_zero h, hnone, hroom, Nat.zero_div]
    simp [Offer.given, Offer.elements]
  · rw [take_of_size_ne_zero hroom h]
    exact ⟨rfl, sequence_cons _ _ _ _, rfl⟩

/-- **An offer stores as many elements as are asked for, are there and have room.** -/
theorem isGreatest_taken (h : o.size ≠ 0) (left : Nat) :
    IsGreatest (o.fitting left) (o.taken left / o.size) := by
  have hfits : ∀ n, n ≤ o.taken left / o.size ↔ n ∈ o.fitting left := by
    intro n
    rw [Nat.le_div_iff_mul_le (Nat.pos_of_ne_zero h), Offer.taken, if_neg h, requested,
      Nat.le_min, Nat.le_min, and_assoc]
    rfl
  exact ⟨(hfits _).1 (Nat.le_refl _), fun n hn => (hfits n).2 hn⟩

/-- Where the number of bytes is no greater than a machine word, it makes no difference that it is
one. -/
theorem Offer.fitting_eq (h : o.size ≠ 0) (hword : o.size * o.count < 2 ^ 64) :
    o.fitting left = {n | n ≤ o.count ∧ n * o.size ≤ o.bytes.size ∧ n * o.size ≤ left} := by
  have hcount : ∀ n, n * o.size ≤ o.size * o.count % 2 ^ 64 ↔ n ≤ o.count := by
    intro n
    rw [Nat.mod_eq_of_lt hword, Nat.mul_comm n]
    exact Nat.mul_le_mul_left_iff (Nat.pos_of_ne_zero h)
  simp only [fitting, hcount]

/-- How a capture with room for `left` bytes answers an offer. -/
structure Answers (c : Capture) (left : Nat) (o : Offer) : Prop where
  stored : (c.take o).2.sequence = c.sequence ++ o.given (c.take o).1
  room : (c.take o).2.room = some (left - o.taken left)
  /-- Elements without bytes are refused. -/
  refused : o.size = 0 → c.take o = (0, c)
  greatest : o.size ≠ 0 → IsGreatest (o.fitting left) (c.take o).1
  asked : o.size ≠ 0 → o.size * o.count < 2 ^ 64 → IsGreatest {n | n ≤ o.count ∧
    n * o.size ≤ o.bytes.size ∧ n * o.size ≤ left} (c.take o).1
  /-- Single bytes are left out only if the room is used up. -/
  shortened : o.size = 1 → o.count < 2 ^ 64 → (c.take o).1 < min o.count o.bytes.size →
    (c.take o).2.room = some 0

theorem answers (hroom : c.room = some left) (o : Offer) : Answers c left o := by
  obtain ⟨hnumber, hstored, hleft⟩ := take_spec hroom o
  have hgreatest : o.size ≠ 0 → IsGreatest (o.fitting left) (c.take o).1 := by
    intro hsize
    rw [hnumber]
    exact isGreatest_taken hsize left
  refine ⟨hnumber ▸ hstored, hleft, take_of_size_eq_zero, hgreatest, ?_, ?_⟩
  · intro hsize hword
    exact Offer.fitting_eq hsize hword ▸ hgreatest hsize
  · intro hone hword hless
    have htaken : o.taken left = min (min o.count o.bytes.size) left := by
      have hcount : o.count % UInt64.size = o.count := Nat.mod_eq_of_lt hword
      rw [Offer.taken, if_neg (by omega), requested, hone, Nat.one_mul, hcount]
    rw [hnumber, hone, Nat.div_one] at hless
    rw [hleft]
    congr 1
    omega

end

/-! ## Offers in sequence -/

theorem takeAll_cons (c : Capture) (o : Offer) (os : List Offer) :
    c.takeAll (o :: os) =
      ((c.take o).1 :: ((c.take o).2.takeAll os).1, ((c.take o).2.takeAll os).2) := rfl

/-- The last offer is answered by the capture that the others leave. -/
theorem takeAll_concat (c : Capture) (os : List Offer) (o : Offer) :
    c.takeAll (os ++ [o]) =
      ((c.takeAll os).1 ++ [((c.takeAll os).2.take o).1], ((c.takeAll os).2.take o).2) := by
  induction os generalizing c with
  | nil => rfl
  | cons p os ih => rw [List.cons_append, takeAll_cons, takeAll_cons, ih, List.cons_append]

theorem length_given (o : Offer) (left : Nat) :
    (o.given (o.taken left / o.size)).length + o.cut left = o.taken left := by
  rw [Offer.given, List.length_map, Array.length_toList, ByteArray.size_data, o.size_elements left,
    o.elements_add_cut left]

theorem takeAll_spec {c : Capture} {left : Nat} (hroom : c.room = some left) (os : List Offer) :
    (c.takeAll os).1.length = os.length ∧
    (c.takeAll os).2.sequence =
      c.sequence ++ (os.zip (c.takeAll os).1).flatMap (fun x => x.1.given x.2) ∧
    ∃ left', (c.takeAll os).2.room = some left' ∧
      (c.takeAll os).2.sequence.length + cutAll left os + left' = c.sequence.length + left := by
  induction os generalizing c left with
  | nil => exact ⟨rfl, by simp [takeAll], left, hroom, by simp [takeAll, cutAll]⟩
  | cons o os ih =>
    obtain ⟨hnumber, hstored, hleft⟩ := take_spec hroom o
    obtain ⟨hlength, hsequence, left', hroom', htotal⟩ := ih hleft
    rw [takeAll_cons]
    dsimp only
    refine ⟨congrArg (· + 1) hlength, ?_, left', hroom', ?_⟩
    · rw [hsequence, hstored, hnumber, List.zip_cons_cons, List.flatMap_cons, List.append_assoc]
    · have hgiven := length_given o left
      have hle := o.taken_le left
      rw [hstored, List.length_append] at htotal
      rw [cutAll]
      omega

/-- The bytes that are given to a stream. -/
theorem given_of_stream (s : Stream) (xs : List (Offer × Nat)) :
    ((xs.flatMap fun x => x.1.given x.2).filter fun x => x.1 = s).map Prod.snd =
      (xs.filter fun x => x.1.stream = s).flatMap fun x => (x.1.elements x.2).data.toList := by
  induction xs with
  | nil => rfl
  | cons x xs ih =>
    rw [List.flatMap_cons, List.filter_append, List.map_append, ih, Offer.given]
    by_cases h : x.1.stream = s
    · simp [h, List.filter_map, Function.comp_def]
    · simp [h, List.filter_map, Function.comp_def]

/-- Nothing is lost of single bytes. -/
theorem cutAll_of_single {os : List Offer} (h : ∀ o ∈ os, o.size = 1) (left : Nat) :
    cutAll left os = 0 := by
  induction os generalizing left with
  | nil => rfl
  | cons o os ih =>
    obtain ⟨ho, hos⟩ := List.forall_mem_cons.1 h
    rw [cutAll, ih hos, Offer.cut, ho, Nat.mod_one]

/-- **All that is offered to a limited capture is accounted for.** -/
theorem accounted (limit : Nat) (os : List Offer) :
    let (ns, c) := takeAll (limited limit) os
    ns.length = os.length ∧
    (∀ s, (c.bytes s).data.toList = ((os.zip ns).filter fun x => x.1.stream = s).flatMap
      fun x => (x.1.elements x.2).data.toList) ∧
    ∃ left, c.room = some left ∧
      c.sequence.length + cutAll limit os + left = limit ∧
      ((∀ o ∈ os, o.size = 1) → c.sequence.length + left = limit) ∧
      ∀ o, takeAll (limited limit) (os ++ [o]) = (ns ++ [(c.take o).1], (c.take o).2) ∧
        Answers c left o := by
  obtain ⟨hlength, hsequence, left, hroom, htotal⟩ := takeAll_spec (c := limited limit) rfl os
  have hnew : (limited limit).sequence = [] := rfl
  rw [hnew, List.nil_append] at hsequence
  rw [hnew, List.length_nil, Nat.zero_add] at htotal
  refine ⟨hlength, fun s => ?_, left, hroom, htotal, fun hsingle => ?_, fun o => ?_⟩
  · rw [toList_bytes, hsequence]
    exact given_of_stream s _
  · rwa [cutAll_of_single hsingle, Nat.add_zero] at htotal
  · exact ⟨takeAll_concat _ os o, answers hroom o⟩

/-- Two elements of three bytes for a capture with room for five bytes. -/
def halfOffer : Offer := ⟨"abcdef".toUTF8, 3, 2, .stdout⟩

/-- One element is stored, and no room is left. -/
theorem room_lost : ¬ ∀ (limit : Nat) (os : List Offer) (left : Nat),
    (takeAll (limited limit) os).2.room = some left →
    (takeAll (limited limit) os).2.sequence.length + left = limit := by
  intro h
  exact absurd (h 5 [halfOffer] 0 rfl) (by decide)

end Ember.Capture
