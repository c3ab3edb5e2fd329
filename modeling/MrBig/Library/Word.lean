import Mathlib.Data.Nat.Bitwise

/-!
# Machine words

Integers as registers of a given width hold them: unsigned (`wrap`) and in two's
complement (`signed`). Masking with a negated power of two clears the low bits
(`and_wrap_neg_two_pow`).
-/

set_option autoImplicit false

namespace Library.Word

/-- The unsigned word that an integer wraps to. -/
def wrap (bits : Nat) (n : Int) : Nat := (n % (2 ^ bits : Nat)).toNat

/-- The two's complement word that an integer wraps to. -/
def signed (bits : Nat) (n : Int) : Int := n.bmod (2 ^ bits)

/-- The two's complement type of that width has the integer. -/
def Fits (bits : Nat) (n : Int) : Prop := signed bits n = n

instance (bits : Nat) (n : Int) : Decidable (Fits bits n) :=
  inferInstanceAs (Decidable (signed bits n = n))

theorem wrap_of_lt {bits n : Nat} (small : n < 2 ^ bits) : wrap bits n = n := by
  unfold wrap
  rw [Int.emod_eq_of_lt (by omega) (by omega), Int.toNat_natCast]

theorem wrap_of_eq {bits n : Nat} {z : Int} (same : z = n) (small : n < 2 ^ bits) :
    wrap bits z = n := by
  rw [same, wrap_of_lt small]

theorem signed_of_abs_le {bits : Nat} {n : Int} (low : -(2 ^ bits : Nat) ≤ n)
    (high : n < (2 ^ bits : Nat)) : signed (bits + 1) n = n := by
  unfold signed
  apply Int.bmod_eq_of_le_mul_two
  · rw [Nat.pow_succ]
    omega
  · rw [Nat.pow_succ]
    omega

theorem fits_iff {bits : Nat} {n : Int} :
    Fits (bits + 1) n ↔ -(2 ^ bits : Nat) ≤ n ∧ n < (2 ^ bits : Nat) := by
  constructor
  · intro fits
    have positive : 0 < 2 ^ (bits + 1) := Nat.two_pow_pos _
    have low := Int.le_bmod (x := n) positive
    have high := Int.bmod_lt (x := n) positive
    unfold Fits signed at fits
    rw [fits, Nat.pow_succ] at low high
    omega
  · intro bounds
    exact signed_of_abs_le bounds.1 bounds.2

/-- The division of C stays below a positive bound where its dividend stays below a multiple. -/
theorem tdiv_lt_iff {a b c : Int} (divisor : 0 < b) (bound : 0 < c) :
    a.tdiv b < c ↔ a < c * b := by
  rcases Int.le_total 0 a with nonneg | negative
  · rw [Int.tdiv_eq_ediv_of_nonneg nonneg, Int.ediv_lt_iff_lt_mul divisor]
  · have quotient : a.tdiv b ≤ 0 := by
      rw [← Int.neg_nonneg, ← Int.neg_tdiv]
      exact Int.tdiv_nonneg (Int.neg_nonneg.mpr negative) (Int.le_of_lt divisor)
    have product := Int.mul_pos bound divisor
    exact iff_of_true (by omega) (by omega)

theorem neg_lt_tdiv_iff {a b c : Int} (divisor : 0 < b) (bound : 0 < c) :
    -c < a.tdiv b ↔ -(c * b) < a := by
  have opposite := tdiv_lt_iff (a := -a) divisor bound
  rw [Int.neg_tdiv] at opposite
  omega

theorem wrap_neg {bits n : Nat} (positive : 0 < n) (small : n ≤ 2 ^ bits) :
    wrap bits (-n) = 2 ^ bits - n := by
  unfold wrap
  rw [← Int.add_emod_right, Int.emod_eq_of_lt (by omega) (by omega)]
  omega

/-- `x & -align` for a power of two clears the bits below it. -/
theorem and_wrap_neg_two_pow {bits k n : Nat} (small : n < 2 ^ bits) (fits : k ≤ bits) :
    n &&& wrap bits (-(2 ^ k : Nat)) = n - n % 2 ^ k := by
  have positive : 0 < 2 ^ k := Nat.two_pow_pos k
  have below : 2 ^ k ≤ 2 ^ bits := Nat.pow_le_pow_right (by omega) fits
  have mask : 2 ^ bits - 2 ^ k = 2 ^ bits - ((2 ^ k - 1) + 1) := by omega
  have split : n - n % 2 ^ k = 2 ^ k * (n / 2 ^ k) := by
    have parts := Nat.div_add_mod n (2 ^ k)
    omega
  rw [wrap_neg positive below, mask, split]
  apply Nat.eq_of_testBit_eq
  intro i
  rw [Nat.testBit_and, Nat.testBit_two_pow_sub_succ (by omega), Nat.testBit_two_pow_mul,
    Nat.testBit_two_pow_sub_one, Nat.testBit_div_two_pow]
  rcases Nat.lt_or_ge i k with low | high
  · simp [low]
  · have position : i - k + k = i := by omega
    simp only [position, high, decide_true, Bool.true_and]
    rcases Nat.lt_or_ge i bits with inside | outside
    · simp [inside, Nat.not_lt.mpr high]
    · have beyond : n < 2 ^ i :=
        Nat.lt_of_lt_of_le small (Nat.pow_le_pow_right (by omega) outside)
      rw [Nat.testBit_lt_two_pow beyond, Bool.false_and]

end Library.Word
