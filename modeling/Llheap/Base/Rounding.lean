import Mathlib.Tactic

/-!
# Rounding and tag bits of machine words

A `w`-bit word is a natural number below `2 ^ w`. Masking with the negated power of two rounds down, and negating on both sides of that rounds up; a word that is a multiple of `2 ^ k` has `k` low bits free for tags. Both are the same fact: bitwise operations act on the quotient and on the remainder by `2 ^ k` separately.
-/

namespace Rounding

variable {k w : ℕ}

theorem and_split (q q' : ℕ) {r r' : ℕ} (hr : r < 2 ^ k) (hr' : r' < 2 ^ k) :
    (2 ^ k * q + r) &&& (2 ^ k * q' + r') = 2 ^ k * (q &&& q') + (r &&& r') := by
  have hand : r &&& r' < 2 ^ k := Nat.and_lt_two_pow r hr'
  apply Nat.eq_of_testBit_eq
  intro i
  rw [Nat.testBit_and, Nat.testBit_two_pow_mul_add q hr, Nat.testBit_two_pow_mul_add q' hr',
    Nat.testBit_two_pow_mul_add _ hand]
  split <;> rw [Nat.testBit_and]

theorem or_split (q q' : ℕ) {r r' : ℕ} (hr : r < 2 ^ k) (hr' : r' < 2 ^ k) :
    (2 ^ k * q + r) ||| (2 ^ k * q' + r') = 2 ^ k * (q ||| q') + (r ||| r') := by
  have hor : r ||| r' < 2 ^ k := Nat.or_lt_two_pow hr hr'
  apply Nat.eq_of_testBit_eq
  intro i
  rw [Nat.testBit_or, Nat.testBit_two_pow_mul_add q hr, Nat.testBit_two_pow_mul_add q' hr',
    Nat.testBit_two_pow_mul_add _ hor]
  split <;> rw [Nat.testBit_or]

/-- Testing tag bits looks at the remainder only. -/
theorem and_low (q : ℕ) {r c : ℕ} (hr : r < 2 ^ k) (hc : c < 2 ^ k) :
    (2 ^ k * q + r) &&& c = r &&& c := by
  have h := and_split q 0 hr hc
  simpa using h

theorem or_low (q : ℕ) {r c : ℕ} (hr : r < 2 ^ k) (hc : c < 2 ^ k) :
    (2 ^ k * q + r) ||| c = 2 ^ k * q + (r ||| c) := by
  have h := or_split q 0 hr hc
  simpa using h

theorem and_high {q r c : ℕ} (hk : k ≤ w) (hq : 2 ^ k * q < 2 ^ w) (hr : r < 2 ^ k)
    (hc : c < 2 ^ k) :
    (2 ^ k * q + r) &&& (2 ^ w - 2 ^ k + c) = 2 ^ k * q + (r &&& c) := by
  have hpow : 2 ^ w = 2 ^ k * 2 ^ (w - k) := by rw [← pow_add, Nat.add_sub_cancel' hk]
  have hquot : q < 2 ^ (w - k) := by
    rw [hpow] at hq
    exact Nat.lt_of_mul_lt_mul_left hq
  have hmaskWord : 2 ^ w - 2 ^ k = 2 ^ k * (2 ^ (w - k) - 1) := by
    rw [hpow, Nat.mul_sub, Nat.mul_one]
  rw [hmaskWord, and_split q _ hr hc, Nat.and_two_pow_sub_one_of_lt_two_pow hquot]

/-- `value & -2^k` rounds down. -/
theorem and_neg_two_pow {v : ℕ} (hk : k < w) (hv : v < 2 ^ w) :
    v &&& (2 ^ w - 2 ^ k) % 2 ^ w = v / 2 ^ k * 2 ^ k := by
  have hpos : 0 < 2 ^ k := Nat.two_pow_pos k
  have hlt : 2 ^ k < 2 ^ w := Nat.pow_lt_pow_right (by decide) hk
  have hdiv : 2 ^ k * (v / 2 ^ k) + v % 2 ^ k = v := Nat.div_add_mod v (2 ^ k)
  have hhigh := and_high (k := k) (w := w) (q := v / 2 ^ k) (c := 0) hk.le (by omega)
    (Nat.mod_lt v hpos) hpos
  rw [Nat.mod_eq_of_lt (by omega), mul_comm (v / 2 ^ k)]
  rwa [hdiv, Nat.add_zero, Nat.and_zero, Nat.add_zero] at hhigh

/-- Negate, round down, negate: the same as rounding up, wrapping at the word size. -/
theorem neg_roundDown_neg {v : ℕ} (hk : k < w) (hv : v < 2 ^ w) :
    (2 ^ w - (2 ^ w - v) % 2 ^ w / 2 ^ k * 2 ^ k) % 2 ^ w = (v + (2 ^ k - 1)) / 2 ^ k * 2 ^ k % 2 ^ w := by
  have hpos : 0 < 2 ^ k := Nat.two_pow_pos k
  have hpow : 2 ^ w = 2 ^ k * 2 ^ (w - k) := by rw [← pow_add, Nat.add_sub_cancel' hk.le]
  rcases Nat.eq_zero_or_pos v with rfl | hvpos
  · have hsmall : (0 + (2 ^ k - 1)) / 2 ^ k = 0 := Nat.div_eq_of_lt (by omega)
    rw [hsmall]
    simp
  generalize hN : 2 ^ (w - k) = N at hpow
  generalize hb : 2 ^ k = b at *
  generalize hW : 2 ^ w = W at *
  subst hpow
  rw [Nat.mod_eq_of_lt (by omega : b * N - v < b * N)]
  obtain ⟨q, r, hr, rfl⟩ : ∃ q r, r < b ∧ v = b * q + r :=
    ⟨v / b, v % b, Nat.mod_lt v hpos, (Nat.div_add_mod v b).symm⟩
  have hqN : q < N := Nat.lt_of_mul_lt_mul_left (a := b) (by omega)
  have hsplit : b * N = b * (N - q - 1) + b * q + b := by
    have : N = (N - q - 1) + q + 1 := by omega
    calc b * N = b * ((N - q - 1) + q + 1) := by rw [← this]
      _ = b * (N - q - 1) + b * q + b := by ring
  rcases Nat.eq_zero_or_pos r with rfl | hrpos
  · have hdown : (b * N - (b * q + 0)) / b = N - q := by
      rw [show b * N - (b * q + 0) = b * (N - q) by rw [Nat.mul_sub]; omega]
      exact Nat.mul_div_cancel_left _ hpos
    have hup : (b * q + 0 + (b - 1)) / b = q := by
      rw [Nat.add_zero, Nat.mul_add_div hpos, Nat.div_eq_of_lt (by omega), Nat.add_zero]
    have hback : (N - q) * b = b * (N - q - 1) + b := by
      have : N - q = (N - q - 1) + 1 := by omega
      rw [this, Nat.add_mul, Nat.one_mul, Nat.mul_comm]
      simp
    rw [hdown, hup, hback, Nat.mul_comm q b]
    congr 1
    omega
  · have hdown : (b * N - (b * q + r)) / b = N - q - 1 := by
      rw [show b * N - (b * q + r) = b * (N - q - 1) + (b - r) by omega, Nat.mul_add_div hpos,
        Nat.div_eq_of_lt (by omega), Nat.add_zero]
    have hup : (b * q + r + (b - 1)) / b = q + 1 := by
      rw [show b * q + r + (b - 1) = b * (q + 1) + (r - 1) by rw [Nat.mul_add]; omega,
        Nat.mul_add_div hpos, Nat.div_eq_of_lt (by omega), Nat.add_zero]
    rw [hdown, hup, Nat.mul_comm (N - q - 1), Nat.add_mul, Nat.one_mul, Nat.mul_comm q]
    congr 1
    omega

/-- The least multiple of `b` that is not below `v`. -/
def roundUp (v b : ℕ) : ℕ := (v + (b - 1)) / b * b

theorem roundUp_bounds {v b : ℕ} (hb : 0 < b) :
    v ≤ (v + (b - 1)) / b * b ∧ (v + (b - 1)) / b * b < v + b := by
  have hdiv := Nat.div_add_mod (v + (b - 1)) b
  have hmod := Nat.mod_lt (v + (b - 1)) hb
  rw [Nat.mul_comm] at hdiv
  omega

/-- Rounding up stays below a multiple exactly if there is a whole step left to it. -/
theorem roundUp_lt_iff {v b c : ℕ} (hb : 0 < b) (hc : b ∣ c) : roundUp v b < c ↔ v + b ≤ c := by
  obtain ⟨hle, hlt⟩ := roundUp_bounds (v := v) hb
  constructor
  · intro hbelow
    obtain ⟨q, rfl⟩ := hc
    have hquot : (v + (b - 1)) / b < q :=
      Nat.lt_of_mul_lt_mul_left (a := b) (by rwa [Nat.mul_comm])
    have hstep : ((v + (b - 1)) / b + 1) * b ≤ q * b := Nat.mul_le_mul_right b hquot
    rw [Nat.add_mul, Nat.one_mul, Nat.mul_comm q] at hstep
    omega
  · exact fun h => hlt.trans_le h

/-! ### Powers of two -/

theorem dvd_of_isPowerOfTwo {a b : ℕ} (ha : a.isPowerOfTwo) (hb : b.isPowerOfTwo) (hle : a ≤ b) : a ∣ b := by
  obtain ⟨d, rfl⟩ := ha
  obtain ⟨e, rfl⟩ := hb
  exact pow_dvd_pow 2 ((Nat.pow_le_pow_iff_right Nat.one_lt_two).mp hle)

/-- A power of two that fits in a word is at most half of what the word holds. -/
theorem le_half_of_isPowerOfTwo {a : ℕ} (ha : a.isPowerOfTwo) (hlt : a < 2 ^ (w + 1)) : a ≤ 2 ^ w := by
  obtain ⟨e, rfl⟩ := ha
  have he := (Nat.pow_lt_pow_iff_right Nat.one_lt_two).mp hlt
  exact Nat.pow_le_pow_right Nat.two_pos (Nat.lt_succ_iff.mp he)

end Rounding
