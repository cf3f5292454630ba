import Mathlib.Data.Int.Basic
import Mathlib.Tactic.NormNum
import Xbks.Lib.Checked

/-!
# Signed machine arithmetic

`int32 n` is the result of an operation on signed 32-bit integers whose exact value is `n`: a fault
if it does not fit. Division rounds towards zero and is a fault when the divisor is zero.
-/

namespace Checked

variable {a b n : ℤ}

def InInt32 (n : ℤ) : Prop := -2 ^ 31 ≤ n ∧ n < 2 ^ 31

instance : DecidablePred InInt32 := fun n => inferInstanceAs (Decidable (-2 ^ 31 ≤ n ∧ n < 2 ^ 31))

def int32 (n : ℤ) : Checked ℤ := if InInt32 n then pure n else fault

def quot32 (a b : ℤ) : Checked ℤ := if b = 0 then fault else int32 (a.tdiv b)

def InInt64 (n : ℤ) : Prop := -2 ^ 63 ≤ n ∧ n < 2 ^ 63

instance : DecidablePred InInt64 := fun n => inferInstanceAs (Decidable (-2 ^ 63 ≤ n ∧ n < 2 ^ 63))

def int64 (n : ℤ) : Checked ℤ := if InInt64 n then pure n else fault

def quot64 (a b : ℤ) : Checked ℤ := if b = 0 then fault else int64 (a.tdiv b)

/-- The conversion to 32 bits, which keeps the low ones. -/
def toInt32 (n : ℤ) : ℤ := n.bmod (2 ^ 32)

lemma int32_eq (h : InInt32 n) : int32 n = .ok n := if_pos h

lemma int64_eq (h : InInt64 n) : int64 n = .ok n := if_pos h

lemma quot32_eq (hb : b ≠ 0) (h : InInt32 (a.tdiv b)) : quot32 a b = .ok (a.tdiv b) := by
  rw [quot32, if_neg hb, int32_eq h]

lemma quot64_eq (hb : b ≠ 0) (h : InInt64 (a.tdiv b)) : quot64 a b = .ok (a.tdiv b) := by
  rw [quot64, if_neg hb, int64_eq h]

lemma int32_bind {β : Type} (f : ℤ → Checked β) : int32 n >>= f = if InInt32 n then f n else fault := by
  rw [int32]
  split <;> rfl

/-- A quotient is no larger than the dividend. -/
lemma inInt32_tdiv_pos (hb : 0 < b) (ha : InInt32 a) : InInt32 (a.tdiv b) := by
  have hle := Int.natAbs_tdiv_le_natAbs a b
  rw [InInt32] at ha ⊢
  by_cases hpos : 0 ≤ a
  · omega
  · have hnonpos : a.tdiv b ≤ 0 := by
      rw [← neg_neg a, Int.neg_tdiv]
      have hnonneg := Int.tdiv_nonneg (show 0 ≤ -a by omega) hb.le
      omega
    omega

lemma quot32_pos (hb : 0 < b) (ha : InInt32 a) : quot32 a b = .ok (a.tdiv b) :=
  quot32_eq hb.ne' (inInt32_tdiv_pos hb ha)

lemma answers_int32 : Answers (int32 n) fun m => m = n ∧ InInt32 n :=
  answers_ite (fun h => answers_pure ⟨rfl, h⟩) fun _ => answers_fault

lemma answers_quot32 : Answers (quot32 a b) fun m => m = a.tdiv b ∧ b ≠ 0 := by
  refine answers_ite (fun _ => answers_fault) fun hb => ?_
  exact answers_int32.mono fun m hm => ⟨hm.1, hb⟩

lemma answers_int64 : Answers (int64 n) fun m => m = n :=
  answers_ite (fun _ => answers_pure rfl) fun _ => answers_fault

lemma answers_quot64 : Answers (quot64 a b) fun m => m = a.tdiv b :=
  answers_ite (fun _ => answers_fault) fun _ => answers_int64

lemma int32_ne_refuse (n : ℤ) : int32 n ≠ refuse := by
  rw [int32]
  split <;> nofun

lemma quot64_ne_refuse (a b : ℤ) : quot64 a b ≠ refuse := by
  rw [quot64, int64]
  split
  · nofun
  · split <;> nofun

lemma int64_ne_refuse (n : ℤ) : int64 n ≠ refuse := by
  rw [int64]
  split <;> nofun

lemma toInt32_eq (h : InInt32 n) : toInt32 n = n :=
  Int.bmod_eq_of_le (by rw [InInt32] at h; omega) (by rw [InInt32] at h; omega)

end Checked
