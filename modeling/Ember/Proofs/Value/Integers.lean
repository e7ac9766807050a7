import Mathlib
import Ember.Value.Arithmetic

/-!
# Integer arithmetic

**Theorem (`exact_or_overflow`).** Sums, differences, products, quotients and negations of integers
are exact where they have 64 bits, and overflow where they do not. Quotients are cut off towards
zero. Division and remainder fail by zero, and no other operation does.

The remainder always has 64 bits. It goes with the quotient all the same: where the quotient
overflows, which is for the least integer divided by minus one, there is no remainder either
(`mod_not_exact`).
-/

namespace Ember.Value

/-- The outcomes of an operation whose result is `n` in the integers: this integer, if it has 64
bits, and an overflow otherwise. -/
inductive Exact (n : Int) : Except RuntimeError Value → Prop
  | fits {k : Int64} : k.toInt = n → Exact n (.ok (.integer k))
  | overflow : (∀ k : Int64, k.toInt ≠ n) → Exact n (.error .overflow)

/-! ## Which integers have 64 bits -/

theorem toInt_bounds (k : Int64) : -2 ^ 63 ≤ k.toInt ∧ k.toInt < 2 ^ 63 :=
  ⟨k.le_toInt, k.toInt_lt⟩

theorem exact_of_bounds {n : Int} (h : -2 ^ 63 ≤ n ∧ n < 2 ^ 63) :
    ∃ k : Int64, exact n = .ok (.integer k) ∧ k.toInt = n := by
  have hbounds : Int64.minValue.toInt ≤ n ∧ n ≤ Int64.maxValue.toInt := by
    rw [Int64.toInt_minValue, Int64.toInt_maxValue]
    omega
  exact ⟨Int64.ofInt n, if_pos hbounds, Int64.toInt_ofInt_of_le h.1 h.2⟩

theorem exact_of_not_bounds {n : Int} (h : ¬ (-2 ^ 63 ≤ n ∧ n < 2 ^ 63)) :
    exact n = .error .overflow := by
  refine if_neg ?_
  rw [Int64.toInt_minValue, Int64.toInt_maxValue]
  omega

theorem exact_exact (n : Int) : Exact n (exact n) := by
  by_cases h : -2 ^ 63 ≤ n ∧ n < 2 ^ 63
  · obtain ⟨k, hk, hn⟩ := exact_of_bounds h
    rw [hk]
    exact .fits hn
  · rw [exact_of_not_bounds h]
    refine .overflow fun k hk => h ?_
    rw [← hk]
    exact toInt_bounds k

/-! ## Quotients and remainders -/

section Division

variable {a b : Int64}

theorem toInt_ne_zero (hb : b ≠ 0) : b.toInt ≠ 0 := fun h =>
  hb (Int64.toInt_inj.1 (h.trans Int64.toInt_zero.symm))

/-- Only one quotient has more than 64 bits. -/
theorem bounds_quotient (hb : b ≠ 0) (h : ¬ (a = Int64.minValue ∧ b = -1)) :
    -2 ^ 63 ≤ a.toInt.tdiv b.toInt ∧ a.toInt.tdiv b.toInt < 2 ^ 63 := by
  have ha := toInt_bounds a
  have hzero := toInt_ne_zero hb
  have hsize : (a.toInt.tdiv b.toInt).natAbs = a.toInt.natAbs / b.toInt.natAbs :=
    Int.natAbs_tdiv ..
  -- A divisor other than one and minus one makes the size at most half of what it was.
  by_cases hone : b.toInt.natAbs = 1
  · have hunit : b.toInt = 1 ∨ b.toInt = -1 := by omega
    rcases hunit with hb | hb
    · rw [hb, Int.tdiv_one]
      exact ha
    · have hleast : a.toInt ≠ -2 ^ 63 := fun hmin =>
        h ⟨Int64.toInt_inj.1 hmin, Int64.toInt_inj.1 hb⟩
      rw [hb, Int.tdiv_neg, Int.tdiv_one]
      omega
  · have hhalf : a.toInt.natAbs / b.toInt.natAbs ≤ a.toInt.natAbs / 2 :=
      Nat.div_le_div_left (by omega) (by decide)
    omega

theorem bounds_remainder (a : Int64) (hb : b ≠ 0) :
    -2 ^ 63 ≤ a.toInt.tmod b.toInt ∧ a.toInt.tmod b.toInt < 2 ^ 63 := by
  have hbounds := toInt_bounds b
  have hzero := toInt_ne_zero hb
  have hsize : (a.toInt.tmod b.toInt).natAbs = a.toInt.natAbs % b.toInt.natAbs :=
    Int.natAbs_tmod ..
  have hlt := Nat.mod_lt a.toInt.natAbs (Int.natAbs_pos.2 hzero)
  omega

theorem div_eq (hb : b ≠ 0) :
    div (.integer a) (.integer b) = exact (a.toInt.tdiv b.toInt) := if_neg hb

theorem mod_eq (hb : b ≠ 0) : mod (.integer a) (.integer b) =
    exact (a.toInt.tdiv b.toInt) >>= fun _ => exact (a.toInt.tmod b.toInt) := if_neg hb

/-- Where there is a quotient, there is a remainder. -/
theorem mod_of_quotient (hb : b ≠ 0) (h : ¬ (a = Int64.minValue ∧ b = -1)) :
    ∃ k : Int64, mod (.integer a) (.integer b) = .ok (.integer k) ∧
      k.toInt = a.toInt - b.toInt * a.toInt.tdiv b.toInt := by
  obtain ⟨q, hq, -⟩ := exact_of_bounds (bounds_quotient hb h)
  obtain ⟨k, hk, hn⟩ := exact_of_bounds (bounds_remainder a hb)
  rw [Int.tmod_def] at hn
  refine ⟨k, ?_, hn⟩
  rw [mod_eq hb, hq]
  exact hk

end Division

/-- **Integer arithmetic is exact, or it overflows.** -/
theorem exact_or_overflow (a b : Int64) :
    Exact (a.toInt + b.toInt) (add (.integer a) (.integer b)) ∧
    Exact (a.toInt - b.toInt) (sub (.integer a) (.integer b)) ∧
    Exact (a.toInt * b.toInt) (mul (.integer a) (.integer b)) ∧
    Exact (-a.toInt) (neg (.integer a)) ∧
    (b = 0 → div (.integer a) (.integer b) = .error .divisionByZero ∧
      mod (.integer a) (.integer b) = .error .divisionByZero) ∧
    (b ≠ 0 → Exact (a.toInt.tdiv b.toInt) (div (.integer a) (.integer b)) ∧
      (a = Int64.minValue ∧ b = -1 → mod (.integer a) (.integer b) = .error .overflow) ∧
      (¬ (a = Int64.minValue ∧ b = -1) → ∃ k : Int64,
        mod (.integer a) (.integer b) = .ok (.integer k) ∧
          k.toInt = a.toInt - b.toInt * a.toInt.tdiv b.toInt)) := by
  refine ⟨exact_exact _, exact_exact _, exact_exact _, exact_exact _, fun hb => ?_, fun hb => ?_⟩
  · exact ⟨if_pos hb, if_pos hb⟩
  · refine ⟨?_, ?_, mod_of_quotient hb⟩
    · rw [div_eq hb]
      exact exact_exact _
    · rintro ⟨rfl, rfl⟩
      rfl

/-- The least integer has the remainder zero when it is divided by minus one, but the operation
overflows. -/
theorem mod_not_exact : ¬ Exact
    (Int64.minValue.toInt - (-1 : Int64).toInt * Int64.minValue.toInt.tdiv (-1 : Int64).toInt)
    (mod (.integer Int64.minValue) (.integer (-1))) := by
  have hmod : mod (.integer Int64.minValue) (.integer (-1)) = .error .overflow := rfl
  rw [hmod]
  intro h
  cases h with
  | overflow hnone => exact hnone 0 (by decide)

end Ember.Value
