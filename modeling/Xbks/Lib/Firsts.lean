import Mathlib.Data.List.Basic
import Mathlib.Data.List.Nodup

/-!
# First occurrences

`firsts key [] xs` keeps the elements of `xs` that are the first ones with their key. Elements
without a key are left out. The first argument of the recursion collects what has been passed
already, so the lemmas are about `firsts key before xs` inside the list `before ++ xs`.
-/

namespace Firsts

variable {α κ : Type*} [DecidableEq κ] (key : α → Option κ)

def firsts : List α → List α → List α
  | _, [] => []
  | before, x :: xs =>
    match key x with
    | none => firsts (before ++ [x]) xs
    | some k =>
      if k ∈ before.filterMap key then firsts (before ++ [x]) xs
      else x :: firsts (before ++ [x]) xs

variable {key} {before xs : List α} {x : α} {k : κ}

@[simp] lemma firsts_nil : firsts key before [] = [] := rfl

lemma firsts_none (h : key x = none) :
    firsts key before (x :: xs) = firsts key (before ++ [x]) xs := by
  rw [firsts, h]

lemma firsts_seen (h : key x = some k) (hk : k ∈ before.filterMap key) :
    firsts key before (x :: xs) = firsts key (before ++ [x]) xs := by
  simp only [firsts, h, if_pos hk]

lemma firsts_new (h : key x = some k) (hk : k ∉ before.filterMap key) :
    firsts key before (x :: xs) = x :: firsts key (before ++ [x]) xs := by
  simp only [firsts, h, if_neg hk]

lemma firsts_subset (h : x ∈ firsts key before xs) : x ∈ xs := by
  induction xs generalizing before with
  | nil => exact h
  | cons y xs ih =>
    cases hy : key y with
    | none =>
      rw [firsts_none hy] at h
      exact List.mem_cons_of_mem y (ih h)
    | some k =>
      by_cases hk : k ∈ before.filterMap key
      · rw [firsts_seen hy hk] at h
        exact List.mem_cons_of_mem y (ih h)
      · rw [firsts_new hy hk] at h
        rcases List.mem_cons.mp h with rfl | h
        · exact List.mem_cons_self
        · exact List.mem_cons_of_mem y (ih h)

/-- What is kept is the first element with its key. -/
lemma firsts_split (h : x ∈ firsts key before xs) : ∃ front back k, xs = front ++ x :: back ∧
    key x = some k ∧ k ∉ (before ++ front).filterMap key := by
  induction xs generalizing before with
  | nil => cases h
  | cons y xs ih =>
    -- behind `y`, which is passed
    have hrest : x ∈ firsts key (before ++ [y]) xs → ∃ front back k, y :: xs = front ++ x :: back ∧
        key x = some k ∧ k ∉ (before ++ front).filterMap key := by
      intro h
      obtain ⟨front, back, k, rfl, hkey, hk⟩ := ih h
      rw [List.append_assoc, List.singleton_append] at hk
      exact ⟨y :: front, back, k, rfl, hkey, hk⟩
    cases hy : key y with
    | none =>
      rw [firsts_none hy] at h
      exact hrest h
    | some k =>
      by_cases hk : k ∈ before.filterMap key
      · rw [firsts_seen hy hk] at h
        exact hrest h
      · rw [firsts_new hy hk] at h
        rcases List.mem_cons.mp h with rfl | h
        · exact ⟨[], xs, k, rfl, hy, by rwa [List.append_nil]⟩
        · exact hrest h

lemma length_firsts_le (key : α → Option κ) (before xs : List α) :
    (firsts key before xs).length ≤ xs.length := by
  induction xs generalizing before with
  | nil => simp
  | cons y xs ih =>
    have hrest := ih (before ++ [y])
    cases hy : key y with
    | none =>
      rw [firsts_none hy, List.length_cons]
      omega
    | some k =>
      by_cases hk : k ∈ before.filterMap key
      · rw [firsts_seen hy hk, List.length_cons]
        omega
      · rw [firsts_new hy hk, List.length_cons, List.length_cons]
        omega

/-- Every element that is kept has a key. -/
lemma getElem?_keys (i : ℕ) : ((firsts key before xs).filterMap key)[i]? =
    ((firsts key before xs)[i]?).bind key := by
  induction xs generalizing before i with
  | nil => simp
  | cons y xs ih =>
    cases hy : key y with
    | none =>
      rw [firsts_none hy]
      exact ih i
    | some k =>
      by_cases hk : k ∈ before.filterMap key
      · rw [firsts_seen hy hk]
        exact ih i
      · rw [firsts_new hy hk, List.filterMap_cons_some hy]
        cases i with
        | zero => simp [hy]
        | succ i => simpa using ih i

/-- The keys that occur are those that had not occurred before. -/
lemma mem_keys : k ∈ (firsts key before xs).filterMap key ↔
    k ∈ xs.filterMap key ∧ k ∉ before.filterMap key := by
  induction xs generalizing before with
  | nil => simp
  | cons y xs ih =>
    have hrest : k ∈ (firsts key (before ++ [y]) xs).filterMap key ↔
        k ∈ xs.filterMap key ∧ k ∉ (before ++ [y]).filterMap key := ih
    cases hy : key y with
    | none =>
      rw [firsts_none hy, hrest]
      simp [hy]
    | some k' =>
      by_cases hk : k' ∈ before.filterMap key
      · rw [firsts_seen hy hk, hrest, List.filterMap_append, List.filterMap_cons_some hy,
          List.filterMap_cons_some hy, List.mem_append, List.mem_cons]
        constructor
        · rintro ⟨h, hnot⟩
          exact ⟨List.mem_cons_of_mem k' h, fun hb => hnot (.inl hb)⟩
        · rintro ⟨h, hnot⟩
          have hne : k ≠ k' := fun h => hnot (h ▸ hk)
          refine ⟨(List.mem_cons.mp h).resolve_left hne, ?_⟩
          simp [hnot, hne]
      · rw [firsts_new hy hk, List.filterMap_cons_some hy, List.mem_cons, hrest,
          List.filterMap_append, List.filterMap_cons_some hy, List.filterMap_cons_some hy,
          List.mem_append, List.mem_cons]
        constructor
        · rintro (rfl | ⟨h, hnot⟩)
          · exact ⟨List.mem_cons_self, hk⟩
          · exact ⟨List.mem_cons_of_mem k' h, fun hb => hnot (.inl hb)⟩
        · rintro ⟨h, hnot⟩
          by_cases hne : k = k'
          · exact .inl hne
          · refine .inr ⟨(List.mem_cons.mp h).resolve_left hne, ?_⟩
            simp [hnot, hne]

lemma keys_nodup : ((firsts key before xs).filterMap key).Nodup := by
  induction xs generalizing before with
  | nil => simp
  | cons y xs ih =>
    cases hy : key y with
    | none =>
      rw [firsts_none hy]
      exact ih
    | some k =>
      by_cases hk : k ∈ before.filterMap key
      · rw [firsts_seen hy hk]
        exact ih
      · rw [firsts_new hy hk, List.filterMap_cons_some hy, List.nodup_cons, mem_keys]
        refine ⟨fun h => h.2 ?_, ih⟩
        simp [hy]

/-- A key that does not occur before is found behind. -/
lemma findIdx_of_notMem (hk : k ∉ before.filterMap key) : (before ++ xs).findIdx (key · = some k) =
    before.length + xs.findIdx (key · = some k) := by
  have hnone : before.findIdx (key · = some k) = before.length := by
    refine List.findIdx_eq_length_of_false fun x hx => ?_
    simp only [decide_eq_false_iff_not]
    exact fun h => hk (List.mem_filterMap.mpr ⟨x, hx, h⟩)
  rw [List.findIdx_append, hnone, if_neg (Nat.lt_irrefl _), Nat.add_comm]

/-- Keys are listed in the order in which they occur first. -/
lemma keys_ordered (key : α → Option κ) (before xs : List α) :
    ((firsts key before xs).filterMap key).Pairwise fun k k' =>
    (before ++ xs).findIdx (key · = some k) < (before ++ xs).findIdx (key · = some k') := by
  induction xs generalizing before with
  | nil => simp
  | cons y xs ih =>
    have hrest := ih (before ++ [y])
    rw [List.append_assoc, List.singleton_append] at hrest
    cases hy : key y with
    | none =>
      rw [firsts_none hy]
      exact hrest
    | some k =>
      by_cases hk : k ∈ before.filterMap key
      · rw [firsts_seen hy hk]
        exact hrest
      · rw [firsts_new hy hk, List.filterMap_cons_some hy]
        refine List.pairwise_cons.mpr ⟨fun k' hk' => ?_, hrest⟩
        have hnot : k' ∉ (before ++ [y]).filterMap key := (mem_keys.mp hk').2
        have hbefore : k' ∉ before.filterMap key := fun h => hnot (by simp [h])
        have hne : k ≠ k' := fun h => hnot (by simp [hy, h])
        rw [findIdx_of_notMem hk, findIdx_of_notMem hbefore, List.findIdx_cons, List.findIdx_cons]
        simp [hy, hne]

/-! ### Two searches -/

/-- The first element for which `q` holds is the first one for which `p` holds, if `p` holds for it and
for none before it. -/
lemma find?_eq_some_of_first {α : Type*} {p q : α → Bool} {xs : List α} {f : α} (h : xs.find? q = some f) :
    xs.find? p = some f ↔ p f = true ∧ ∀ a ∈ xs.takeWhile (!q ·), p a = false := by
  induction xs with
  | nil => cases h
  | cons x xs ih =>
    cases hq : q x with
    | true =>
      rw [List.find?_cons_of_pos hq, Option.some_inj] at h
      subst h
      rw [List.takeWhile_cons_of_neg (by simp [hq])]
      constructor
      · intro hfind
        exact ⟨List.find?_some hfind, nofun⟩
      · rintro ⟨hp, -⟩
        exact List.find?_cons_of_pos hp
    | false =>
      rw [List.find?_cons_of_neg (by simp [hq])] at h
      rw [List.takeWhile_cons_of_pos (by simp [hq]), List.forall_mem_cons]
      cases hp : p x with
      | true =>
        rw [List.find?_cons_of_pos hp, Option.some_inj]
        constructor
        · rintro rfl
          rw [List.find?_some h] at hq
          cases hq
        · rintro ⟨-, hfalse, -⟩
          cases hfalse
      | false =>
        rw [List.find?_cons_of_neg (by simp [hp]), ih h]
        simp

end Firsts
