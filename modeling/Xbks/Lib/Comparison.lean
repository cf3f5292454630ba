import Mathlib.Data.Int.Order.Basic
import Mathlib.Data.List.Lex

/-!
# Answers of comparisons

A comparison in the style of C answers a number whose sign tells how its arguments are ordered. Lists are ordered
as in a dictionary.
-/

/-- The sign of the answer is the order of the arguments. -/
structure Orders {α : Type*} [LT α] (v : ℤ) (left right : α) : Prop where
  lt : v < 0 ↔ left < right
  eq : v = 0 ↔ left = right
  gt : 0 < v ↔ right < left

namespace Orders

variable {α : Type*} [LT α] {v : ℤ} {a b : α} {left right : List α}

lemma nil : Orders 0 ([] : List α) [] :=
  ⟨iff_of_false (lt_irrefl 0) (List.not_lt_nil _), iff_of_true rfl rfl,
    iff_of_false (lt_irrefl 0) (List.not_lt_nil _)⟩

lemma nil_cons (hv : v < 0) : Orders v [] (a :: left) :=
  ⟨iff_of_true hv (List.nil_lt_cons _ _), iff_of_false hv.ne (List.cons_ne_nil _ _).symm,
    iff_of_false hv.not_gt (List.not_lt_nil _)⟩

lemma cons_nil (hv : 0 < v) : Orders v (a :: left) [] :=
  ⟨iff_of_false hv.not_gt (List.not_lt_nil _), iff_of_false hv.ne' (List.cons_ne_nil _ _),
    iff_of_true hv (List.nil_lt_cons _ _)⟩

/-- The first elements differ. -/
lemma of_heads (h : Orders v a b) (hne : a ≠ b) : Orders v (a :: left) (b :: right) where
  lt := by
    rw [h.lt, List.cons_lt_cons_iff, or_iff_left fun hand => hne hand.1]
  eq := by
    rw [h.eq, List.cons.injEq]
    exact iff_of_false hne fun hand => hne hand.1
  gt := by
    rw [h.gt, List.cons_lt_cons_iff, or_iff_left fun hand => hne hand.1.symm]

/-- The first elements are the same. -/
lemma cons (hirrefl : ¬a < a) (h : Orders v left right) : Orders v (a :: left) (a :: right) where
  lt := by
    rw [h.lt, List.cons_lt_cons_iff, or_iff_right hirrefl, and_iff_right rfl]
  eq := by
    rw [h.eq, List.cons.injEq, and_iff_right rfl]
  gt := by
    rw [h.gt, List.cons_lt_cons_iff, or_iff_right hirrefl, and_iff_right rfl]

end Orders
