import Mathlib.Algebra.Group.Even
import Mathlib.Algebra.Group.Nat.Even
import Mathlib.Data.List.Basic
import Mathlib.Order.MinMax

/-!
# Crossings of a horizontal line

An edge between two heights crosses the line at `s` if its lower end is at most `s` and its upper end
above: then just one of its ends is at most `s`. `Joins edges edges' a b` says that the edges in
`edges'` that are not in `edges` lead from height `a` to height `b`, as far as parity can tell. A
closed chain of edges crosses every line an even number of times.
-/

namespace EvenOdd

variable {α ε : Type} [LinearOrder α] {s y₀ y₁ a b c : α}

def Crosses (s y₀ y₁ : α) : Prop := min y₀ y₁ ≤ s ∧ s < max y₀ y₁

instance : Decidable (Crosses s y₀ y₁) := inferInstanceAs (Decidable (_ ∧ _))

lemma crosses_iff : Crosses s y₀ y₁ ↔ ¬(y₀ ≤ s ↔ y₁ ≤ s) := by
  rw [Crosses, min_le_iff, lt_max_iff, ← not_le, ← not_le]
  tauto

variable (start stop : ε → α)

/-- The number of edges that cross the line at `s`. -/
def crossings (edges : List ε) (s : α) : ℕ := edges.countP fun e => Crosses s (start e) (stop e)

def Joins (edges edges' : List ε) (a b : α) : Prop :=
  ∀ s, Even (crossings start stop edges' s) ↔ (Even (crossings start stop edges s) ↔ (a ≤ s ↔ b ≤ s))

variable {start stop} {edges edges' edges'' : List ε}

lemma joins_refl : Joins start stop edges edges a a := fun _ => by simp

lemma Joins.trans (h : Joins start stop edges edges' a b) (h' : Joins start stop edges' edges'' b c) :
    Joins start stop edges edges'' a c := by
  intro s
  rw [h' s, h s]
  tauto

lemma joins_append (e : ε) : Joins start stop edges (edges ++ [e]) (start e) (stop e) := by
  intro s
  rw [crossings, List.countP_append, List.countP_singleton, ← crossings]
  by_cases h : Crosses s (start e) (stop e)
  · rw [if_pos (decide_eq_true h), Nat.even_add_one]
    rw [crosses_iff] at h
    tauto
  · rw [if_neg (mt of_decide_eq_true h), Nat.add_zero]
    rw [crosses_iff] at h
    tauto

/-- A closed chain does not change the parity. -/
lemma Joins.even (h : Joins start stop edges edges' a a) (heven : Even (crossings start stop edges s)) :
    Even (crossings start stop edges' s) :=
  (h s).mpr ⟨fun _ => Iff.rfl, fun _ => heven⟩

end EvenOdd
