import Ember.Output.Capture

/-!
# Writes of one character

**Theorem (`one_byte_offered`).** A write of a character offers one byte to the host, in one write:
the code modulo 256. If the host takes it, the write returns the code, and otherwise it returns -1.

So the codes of bytes, from 0 to 255, are returned as the bytes that they are, and then -1 says that
the byte was not taken. Other codes are returned as well, though the byte is another one, and -1 is
returned for the code -1 in any case (`eof_of_taken`).
-/

namespace Ember.Output

/-- **The byte of a code is the code modulo 256.** -/
theorem toNat_byteOf (code : Int32) : ((byteOf code).toNat : Int) = code.toInt % 256 := by
  have hword : code.toInt % (2 ^ 32 : Nat) = code.toUInt32.toNat % (2 ^ 32 : Nat) := by
    rw [show code.toInt = Int.bmod code.toUInt32.toNat (2 ^ 32) from
      BitVec.toInt_eq_toNat_bmod code.toBitVec, Int.bmod_emod]
  rw [byteOf, UInt32.toNat_toUInt8]
  omega

theorem toInt_eq_eof {code : Int32} : code.toInt = -1 ↔ code = -1 := by
  rw [← Int32.toInt_inj]
  rfl

/-- **One byte is offered**, and what is returned tells whether it was taken, as far as the code is
that of a byte. -/
theorem one_byte_offered {H : Type} [Host H] (h : H) (s : Stream) (code : Int32) :
    let (written, after) := Host.write h ⟨#[byteOf code]⟩ 1 1 s
    ((byteOf code).toNat : Int) = code.toInt % 256 ∧
    tryWriteChar h s code =
      (if written = 1 then .ok code else .error (.shortWrite 1 written), after) ∧
    writeChar h s code = (if written = 1 then code.toInt else -1, after) ∧
    ((writeChar h s code).1 = -1 ↔ written ≠ 1 ∨ code = -1) ∧
    (written = 1 →
      ((writeChar h s code).1 = (byteOf code).toNat ↔ 0 ≤ code.toInt ∧ code.toInt ≤ 255)) := by
  rcases hanswer : Host.write h ⟨#[byteOf code]⟩ 1 1 s with ⟨written, after⟩
  have htry : tryWriteChar h s code =
      (if written = 1 then .ok code else .error (.shortWrite 1 written), after) := by
    rw [tryWriteChar, hanswer]
    dsimp only
    split <;> rfl
  have hwrite : writeChar h s code = (if written = 1 then code.toInt else -1, after) := by
    rw [writeChar, htry]
    by_cases htaken : written = 1
    · rw [if_pos htaken, if_pos htaken]
    · rw [if_neg htaken, if_neg htaken]
      rfl
  have hbyte := toNat_byteOf code
  refine ⟨hbyte, htry, hwrite, ?_, fun htaken => ?_⟩
  · rw [hwrite]
    by_cases htaken : written = 1
    · simp [htaken, toInt_eq_eof]
    · simp [htaken]
  · rw [hwrite, if_pos htaken]
    omega

/-- The byte 255 is taken and stored, but what is returned says that it was not. -/
theorem eof_of_taken : ¬ ∀ (c : Capture) (s : Stream) (code : Int32),
    let written := (Host.write c ⟨#[byteOf code]⟩ 1 1 s).1
    ((writeChar c s code).1 = eof ↔ written ≠ 1) ∧
    (written = 1 → (writeChar c s code).1 = (byteOf code).toNat) := by
  intro h
  exact (h .unlimited .stdout (-1)).1.1 rfl rfl

end Ember.Output
