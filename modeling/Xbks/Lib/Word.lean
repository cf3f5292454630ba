import Mathlib.Data.UInt
import Mathlib.Data.Nat.Bitwise
import Mathlib.Tactic.NormNum
import Mathlib.Tactic.Ring

/-!
# Machine words

Facts about 64-bit words that turn bit masks and shifts into division and remainder, so that
address arithmetic can be finished over the natural numbers.
-/

namespace Word

/-- Clearing the low `k` bits rounds down to a multiple of `2 ^ k`. -/
lemma toNat_and_not_mask (v a : UInt64) {k : ℕ} (hk : k < 64) (ha : a.toNat = 2 ^ k) :
    (v &&& ~~~(a - 1)).toNat = v.toNat / 2 ^ k * 2 ^ k := by
  have hv := v.toNat_lt
  have hp : 2 ^ k < 2 ^ 64 := Nat.pow_lt_pow_right (by norm_num) hk
  have hmask : (~~~(a - 1)).toNat = 2 ^ 64 - 1 - (2 ^ k - 1) := by
    have hle : (1 : UInt64) ≤ a := by
      rw [UInt64.le_iff_toNat_le, ha]
      exact Nat.one_le_two_pow
    rw [UInt64.toNat_not, UInt64.toNat_sub_of_le _ _ hle, ha]
    rfl
  rw [UInt64.toNat_and, hmask]
  apply Nat.eq_of_testBit_eq
  intro i
  rw [Nat.testBit_and, Nat.sub_sub, Nat.add_comm 1, Nat.sub_add_cancel Nat.one_le_two_pow,
    ← Nat.shiftRight_eq_div_pow, ← Nat.shiftLeft_eq, Nat.testBit_shiftLeft,
    Nat.testBit_shiftRight]
  have hsplit : 2 ^ 64 - 2 ^ k = (2 ^ (64 - k) - 1) <<< k := by
    rw [Nat.shiftLeft_eq, Nat.sub_mul, ← pow_add, one_mul, Nat.sub_add_cancel hk.le]
  rw [hsplit, Nat.testBit_shiftLeft, Nat.testBit_two_pow_sub_one]
  by_cases hik : k ≤ i
  · rw [Nat.add_sub_cancel' hik]
    by_cases hi : i < 64
    · simp [hik, show i - k < 64 - k by omega]
    · have : v.toNat.testBit i = false :=
        Nat.testBit_lt_two_pow (hv.trans_le (Nat.pow_le_pow_right (by norm_num) (by omega)))
      simp [this]
  · simp [hik]

/-- A field of `w` bits taken from bit `k` on. -/
lemma toNat_shiftRight_and (v sh mask : UInt64) {k w : ℕ} (hsh : sh.toNat = k) (hk : k < 64)
    (hmask : mask.toNat = 2 ^ w - 1) :
    ((v >>> sh) &&& mask).toNat = v.toNat / 2 ^ k % 2 ^ w := by
  rw [UInt64.toNat_and, UInt64.toNat_shiftRight, hsh, Nat.mod_eq_of_lt hk, hmask,
    Nat.and_two_pow_sub_one_eq_mod, Nat.shiftRight_eq_div_pow]

/-- A mask of `w` ones starting at bit `k`. -/
lemma toNat_and_mid (v mask : UInt64) {k w : ℕ} (hmask : mask.toNat = 2 ^ k * (2 ^ w - 1)) :
    (v &&& mask).toNat = v.toNat / 2 ^ k % 2 ^ w * 2 ^ k := by
  rw [UInt64.toNat_and, hmask]
  apply Nat.eq_of_testBit_eq
  intro i
  rw [Nat.testBit_and, ← Nat.shiftRight_eq_div_pow, ← Nat.shiftLeft_eq, Nat.testBit_shiftLeft,
    Nat.testBit_mod_two_pow, Nat.testBit_shiftRight, Nat.mul_comm, ← Nat.shiftLeft_eq,
    Nat.testBit_shiftLeft, Nat.testBit_two_pow_sub_one]
  by_cases hik : k ≤ i
  · rw [Nat.add_sub_cancel' hik]
    by_cases hi : i - k < w <;> simp [hi, hik]
  · simp [hik]

/-- Disjoint bit fields can be joined by addition. -/
lemma toNat_or_of_lt (u v : UInt64) {k : ℕ} (hu : u.toNat % 2 ^ k = 0) (hv : v.toNat < 2 ^ k) :
    (u ||| v).toNat = u.toNat + v.toNat := by
  have hsplit : u.toNat = 2 ^ k * (u.toNat / 2 ^ k) := by
    have := Nat.div_add_mod u.toNat (2 ^ k)
    omega
  rw [UInt64.toNat_or, hsplit, Nat.two_pow_add_eq_or_of_lt hv]

lemma toNat_or_lt (u v : UInt64) {k : ℕ} (hu : u.toNat < 2 ^ k) (hv : v.toNat < 2 ^ k) :
    (u ||| v).toNat < 2 ^ k := by
  rw [UInt64.toNat_or]
  exact Nat.or_lt_two_pow hu hv

/-- Bits that have been set. -/
lemma or_and_self (u v : UInt64) : (u ||| v) &&& v = v := by
  rw [← UInt64.toBitVec_inj]
  apply BitVec.eq_of_getLsbD_eq
  intro i _
  simpa using Or.inr

lemma or_and (u v w : UInt64) : (u ||| v) &&& w = (u &&& w) ||| (v &&& w) := by
  rw [← UInt64.toBitVec_inj]
  exact BitVec.and_or_distrib_right

lemma toNat_and_one (v : UInt64) : (v &&& 1).toNat = v.toNat % 2 := by
  simp

/-- The lowest bit of a word is set exactly when masking it leaves something. -/
lemma and_one_eq_zero (v : UInt64) : v &&& 1 = 0 ↔ v.toNat % 2 = 0 := by
  rw [← UInt64.toNat_inj, toNat_and_one]
  rfl

lemma toNat_ofNat_of_lt {n : ℕ} (h : n < 2 ^ 64) : (UInt64.ofNat n).toNat = n :=
  UInt64.toNat_ofNat_of_lt' h

lemma toNat_add_of_lt (u v : UInt64) (h : u.toNat + v.toNat < 2 ^ 64) :
    (u + v).toNat = u.toNat + v.toNat := by
  rw [UInt64.toNat_add, Nat.mod_eq_of_lt h]

lemma pos_iff_ne_zero (v : UInt64) : 0 < v.toNat ↔ v ≠ 0 := by
  rw [Nat.pos_iff_ne_zero, ne_eq, ne_eq, ← UInt64.toNat_inj]
  rfl

end Word
