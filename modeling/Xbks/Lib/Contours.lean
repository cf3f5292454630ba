import Mathlib.Data.List.Induction
import Mathlib.Order.Basic

/-!
# Contours

A list of points cut into contours by the index of the last point of each. Every point belongs to
one contour, and no contour is empty. Contours are joined by putting the points behind each other
and shifting the indices.
-/

structure Contours (α : Type) where
  points : List α
  ends : List ℕ
  increasing : ends.Pairwise (· < ·)
  covers : ends.getLast?.elim 0 (· + 1) = points.length

namespace Contours

variable {α : Type}

@[ext] lemma ext {c d : Contours α} (hpoints : c.points = d.points) (hends : c.ends = d.ends) :
    c = d := by
  cases c
  cases d
  cases hpoints
  cases hends
  rfl

/-- No contours. -/
def empty : Contours α where
  points := []
  ends := []
  increasing := .nil
  covers := rfl

def map {β : Type} (f : α → β) (c : Contours α) : Contours β where
  points := c.points.map f
  ends := c.ends
  increasing := c.increasing
  covers := by rw [List.length_map, c.covers]

/-- The same contours of other points. -/
def replace {β : Type} (c : Contours α) (points : List β) (h : points.length = c.points.length) :
    Contours β where
  points := points
  ends := c.ends
  increasing := c.increasing
  covers := c.covers.trans h.symm

lemma le_last {ends : List ℕ} (h : ends.Pairwise (· < ·)) {e : ℕ} (he : e ∈ ends) :
    e < ends.getLast?.elim 0 (· + 1) := by
  induction ends using List.reverseRecOn with
  | nil => cases he
  | append_singleton ends last _ =>
    rw [List.pairwise_append] at h
    rw [List.getLast?_concat, Option.elim_some]
    rcases List.mem_append.mp he with he | he
    · exact Nat.lt_succ_of_lt (h.2.2 e he last (List.mem_singleton_self last))
    · rw [List.mem_singleton.mp he]
      exact Nat.lt_succ_self last

lemma end_lt (c : Contours α) {e : ℕ} (he : e ∈ c.ends) : e < c.points.length :=
  (le_last c.increasing he).trans_eq c.covers

/-- The contours of `c` followed by those of `d`. -/
def append (c d : Contours α) : Contours α where
  points := c.points ++ d.points
  ends := c.ends ++ d.ends.map (c.points.length + ·)
  increasing := by
    rw [List.pairwise_append]
    refine ⟨c.increasing, ?_, ?_⟩
    · rw [List.pairwise_map]
      exact d.increasing.imp fun h => by omega
    · intro e he e' he'
      obtain ⟨f, -, rfl⟩ := List.mem_map.mp he'
      have hlt := c.end_lt he
      omega
  covers := by
    have hc := c.covers
    have hd := d.covers
    rw [List.getLast?_append, List.getLast?_map, List.length_append]
    cases h : d.ends.getLast? with
    | none =>
      rw [h] at hd
      simpa [← hd] using hc
    | some last =>
      rw [h] at hd
      simp only [Option.elim_some] at hd
      simp [← hd]
      omega

@[simp] lemma append_points (c d : Contours α) : (c.append d).points = c.points ++ d.points := rfl

@[simp] lemma empty_append (c : Contours α) : empty.append c = c := by
  apply ext
  · rfl
  · simp [append, empty]

lemma append_assoc (c d e : Contours α) : (c.append d).append e = c.append (d.append e) := by
  apply ext
  · exact List.append_assoc _ _ _
  · simp [append, Nat.add_assoc]

/-- All contours of a list, one after the other. -/
def concat (cs : List (Contours α)) : Contours α := cs.foldl append empty

lemma foldl_append (c : Contours α) (cs : List (Contours α)) :
    cs.foldl append c = c.append (concat cs) := by
  induction cs generalizing c with
  | nil =>
    apply ext
    · exact (List.append_nil _).symm
    · exact (List.append_nil _).symm
  | cons d cs ih => rw [concat, List.foldl_cons, List.foldl_cons, ih, empty_append, ih d, append_assoc]

lemma concat_cons (c : Contours α) (cs : List (Contours α)) : concat (c :: cs) = c.append (concat cs) := by
  rw [concat, List.foldl_cons, empty_append, foldl_append]

@[simp] lemma concat_singleton (c : Contours α) : concat [c] = c := empty_append c

/-- There are no points, or the last one ends the last contour. -/
lemma empty_or_last (c : Contours α) :
    c.ends = [] ∧ c.points = [] ∨ c.ends.getLast? = some (c.points.length - 1) := by
  have hcovers := c.covers
  cases hlast : c.ends.getLast? with
  | none =>
    rw [hlast] at hcovers
    exact .inl ⟨List.getLast?_eq_none_iff.mp hlast, List.length_eq_zero_iff.mp hcovers.symm⟩
  | some last =>
    rw [hlast] at hcovers
    right
    rw [← hcovers]
    rfl

/-! ### Ranges -/

/-- The first and the last index of each contour. -/
def rangesFrom : ℕ → List ℕ → List (ℕ × ℕ)
  | _, [] => []
  | start, e :: ends => (start, e) :: rangesFrom (e + 1) ends

def ranges (c : Contours α) : List (ℕ × ℕ) := rangesFrom 0 c.ends

variable {start p : ℕ} {ends : List ℕ}

lemma mem_rangesFrom (h : ends.Pairwise (· < ·)) (hstart : ∀ e ∈ ends, start ≤ e) {r : ℕ × ℕ}
    (hr : r ∈ rangesFrom start ends) : start ≤ r.1 ∧ r.1 ≤ r.2 ∧ r.2 ∈ ends := by
  induction ends generalizing start with
  | nil => cases hr
  | cons e ends ih =>
    rw [List.pairwise_cons] at h
    rw [List.forall_mem_cons] at hstart
    rcases List.mem_cons.mp hr with rfl | hr
    · exact ⟨Nat.le_refl start, hstart.1, List.mem_cons_self⟩
    · obtain ⟨hle, hrange, hmem⟩ := ih h.2 (fun f hf => h.1 f hf) hr
      exact ⟨by omega, hrange, List.mem_cons_of_mem e hmem⟩

/-- No contour contains an index before its start. -/
lemma countP_rangesFrom_before (h : ends.Pairwise (· < ·)) (hstart : ∀ e ∈ ends, start ≤ e)
    (hp : p < start) : (rangesFrom start ends).countP (fun r => r.1 ≤ p ∧ p ≤ r.2) = 0 := by
  rw [List.countP_eq_zero]
  intro r hr
  have hle := (mem_rangesFrom h hstart hr).1
  simp only [decide_eq_true_eq]
  omega

lemma countP_rangesFrom (h : ends.Pairwise (· < ·)) (hstart : ∀ e ∈ ends, start ≤ e) (hp : start ≤ p)
    (hlast : p < ends.getLast?.elim 0 (· + 1)) :
    (rangesFrom start ends).countP (fun r => r.1 ≤ p ∧ p ≤ r.2) = 1 := by
  induction ends generalizing start with
  | nil => simp at hlast
  | cons e ends ih =>
    rw [List.pairwise_cons] at h
    rw [rangesFrom, List.countP_cons]
    by_cases hpe : p ≤ e
    · rw [countP_rangesFrom_before h.2 (fun f hf => h.1 f hf) (by omega)]
      simp [hp, hpe]
    · have hne : ends ≠ [] := by
        rintro rfl
        simp at hlast
        omega
      rw [List.getLast?_cons_of_ne_nil hne] at hlast
      rw [ih h.2 (fun f hf => h.1 f hf) (by omega) hlast]
      simp [hpe]

/-- Every point lies in just one contour. -/
theorem countP_ranges (c : Contours α) (hp : p < c.points.length) :
    c.ranges.countP (fun r => r.1 ≤ p ∧ p ≤ r.2) = 1 :=
  countP_rangesFrom c.increasing (fun _ _ => Nat.zero_le _) (Nat.zero_le p) (hp.trans_eq c.covers.symm)

theorem ranges_bounds (c : Contours α) {r : ℕ × ℕ} (hr : r ∈ c.ranges) :
    r.1 ≤ r.2 ∧ r.2 < c.points.length := by
  obtain ⟨-, hle, hmem⟩ := mem_rangesFrom c.increasing (fun _ _ => Nat.zero_le _) hr
  exact ⟨hle, c.end_lt hmem⟩

/-- The points of a contour. -/
def piece (c : Contours α) (r : ℕ × ℕ) : List α := (c.points.drop r.1).take (r.2 + 1 - r.1)

lemma mem_of_mem_piece (c : Contours α) {r : ℕ × ℕ} {a : α} (h : a ∈ c.piece r) : a ∈ c.points :=
  List.mem_of_mem_drop (List.mem_of_mem_take h)

end Contours
