import Mathlib.Order.Interval.Set.Disjoint
import Mathlib.Data.Nat.Basic
import Mathlib.Order.CompletePartialOrder

/-!
# Looking up a number among sorted intervals

A scan over closed intervals that stops at the first one whose start is beyond the number. If the
intervals are disjoint and their ends increase, it finds the interval that contains the number.
-/

namespace Intervals

variable {start stop : ℕ → ℕ} {n c i k : ℕ}

/-- The first `n` intervals are not empty, disjoint, and in the order of their ends. -/
structure Sorted (start stop : ℕ → ℕ) (n : ℕ) : Prop where
  ordered : ∀ i < n, start i ≤ stop i
  increasing : ∀ i j, i < j → j < n → stop i < stop j
  disjoint : ∀ i j, i < j → j < n →
    Disjoint (Set.Icc (start i) (stop i)) (Set.Icc (start j) (stop j))

/-- An interval ends before the next ones start. -/
lemma Sorted.stop_lt_start (h : Sorted start stop n) {i j : ℕ} (hij : i < j) (hj : j < n) :
    stop i < start j := by
  by_contra hle
  have hi : stop i ∈ Set.Icc (start i) (stop i) := ⟨h.ordered i (hij.trans hj), le_rfl⟩
  have hj' : stop i ∈ Set.Icc (start j) (stop j) := ⟨Nat.not_lt.mp hle, (h.increasing i j hij hj).le⟩
  exact Set.disjoint_left.mp (h.disjoint i j hij hj) hi hj'

/-- Scan `k` intervals from the `i`th on. -/
def scan (start stop : ℕ → ℕ) (c : ℕ) : ℕ → ℕ → Option ℕ
  | 0, _ => none
  | k + 1, i => if c < start i then none else if c ≤ stop i then some i else scan start stop c k (i + 1)

lemma scan_of_mem (h : Sorted start stop n) {j : ℕ} (hj : j < n)
    (hc : start j ≤ c ∧ c ≤ stop j) (hij : i ≤ j) (hk : j < i + k) :
    scan start stop c k i = some j := by
  induction k generalizing i with
  | zero => omega
  | succ k ih =>
    rw [scan]
    rcases Nat.eq_or_lt_of_le hij with rfl | hlt
    · rw [if_neg (Nat.not_lt.mpr hc.1), if_pos hc.2]
    · have hstart := h.ordered i (hlt.trans hj)
      have hstop := h.stop_lt_start hlt hj
      rw [if_neg (by omega), if_neg (by omega)]
      exact ih hlt (by omega)

lemma scan_of_forall_not_mem (hc : ∀ j, i ≤ j → j < i + k → ¬(start j ≤ c ∧ c ≤ stop j)) :
    scan start stop c k i = none := by
  induction k generalizing i with
  | zero => rfl
  | succ k ih =>
    rw [scan]
    by_cases hlt : c < start i
    · rw [if_pos hlt]
    · rw [if_neg hlt, if_neg fun hle => hc i le_rfl (by omega) ⟨Nat.not_lt.mp hlt, hle⟩]
      exact ih fun j hij hjk => hc j (by omega) (by omega)

end Intervals
