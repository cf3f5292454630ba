import Mathlib.Data.List.Basic
import Mathlib.Data.Set.Basic

/-!
# Partial memory

A memory gives some of the addresses a cell. `store` writes consecutive cells, `load` reads them and
fails when one is missing.
-/

abbrev Memory (β : Type*) := ℕ → Option β

namespace Memory

variable {β : Type*}

def store (m : Memory β) (a : ℕ) (bs : List β) : Memory β :=
  fun x => if a ≤ x ∧ x < a + bs.length then bs[x - a]? else m x

def load (m : Memory β) : ℕ → ℕ → Option (List β)
  | _, 0 => some []
  | a, n + 1 => (m a).bind fun b => (load m (a + 1) n).map (b :: ·)

/-- There are `n` cells from `a` on. -/
def Has (m : Memory β) (a n : ℕ) : Prop := ∀ x, a ≤ x → x < a + n → m x ≠ none

variable {m m' : Memory β} {a x n : ℕ} {b : β} {bs cs : List β}

lemma has_zero : m.Has a 0 := fun _ hge hlt => absurd hlt (by omega)

lemma has_succ : m.Has a (n + 1) ↔ m a ≠ none ∧ m.Has (a + 1) n := by
  constructor
  · intro h
    exact ⟨h a (Nat.le_refl a) (by omega), fun x hx hlt => h x (by omega) (by omega)⟩
  · rintro ⟨hhead, htail⟩ x hx hlt
    by_cases hxa : x = a
    · rw [hxa]
      exact hhead
    · exact htail x (by omega) (by omega)

/-! ### Storing -/

lemma store_outside (h : x < a ∨ a + bs.length ≤ x) : m.store a bs x = m x :=
  if_neg (by omega)

lemma store_inside (h : a ≤ x) (h' : x < a + bs.length) : m.store a bs x = bs[x - a]? :=
  if_pos ⟨h, h'⟩

@[simp] lemma store_nil : m.store a [] = m := by
  funext x
  exact store_outside (by rw [List.length_nil]; omega)

lemma store_singleton : m.store a [b] = Function.update m a (some b) := by
  funext x
  by_cases hx : x = a
  · rw [hx, Function.update_self, store_inside (Nat.le_refl a) (by simp), Nat.sub_self]
    rfl
  · rw [Function.update_of_ne hx]
    exact store_outside (by rw [List.length_singleton]; omega)

lemma store_append : m.store a (bs ++ cs) = (m.store a bs).store (a + bs.length) cs := by
  funext x
  have hlen : (bs ++ cs).length = bs.length + cs.length := List.length_append
  by_cases hlo : x < a
  · rw [store_outside (.inl hlo), store_outside (.inl (by omega)), store_outside (.inl hlo)]
  · by_cases hmid : x < a + bs.length
    · rw [store_inside (by omega) (by omega), store_outside (.inl hmid),
        store_inside (by omega) hmid, List.getElem?_append_left (by omega)]
    · by_cases hhi : x < a + bs.length + cs.length
      · rw [store_inside (by omega) (by omega), store_inside (by omega) hhi,
          List.getElem?_append_right (by omega), Nat.sub_sub]
      · rw [store_outside (.inr (by omega)), store_outside (.inr (by omega)),
          store_outside (.inr (by omega))]

/-- Two stores next to each other, the upper one first. -/
lemma store_append_below : m.store a (bs ++ cs) = (m.store (a + bs.length) cs).store a bs := by
  funext x
  have hlen : (bs ++ cs).length = bs.length + cs.length := List.length_append
  by_cases hlo : x < a
  · rw [store_outside (.inl hlo), store_outside (.inl hlo), store_outside (.inl (by omega))]
  · by_cases hmid : x < a + bs.length
    · rw [store_inside (by omega) (by omega), store_inside (by omega) hmid,
        List.getElem?_append_left (by omega)]
    · have habove : (m.store (a + bs.length) cs).store a bs x = m.store (a + bs.length) cs x :=
        store_outside (.inr (by omega))
      rw [habove]
      by_cases hhi : x < a + bs.length + cs.length
      · rw [store_inside (by omega) (by omega), store_inside (by omega) hhi,
          List.getElem?_append_right (by omega), Nat.sub_sub]
      · rw [store_outside (.inr (by omega)), store_outside (.inr (by omega))]

/-- A store to cells that exist leaves the same cells. -/
lemma store_eq_none_iff (h : m.Has a bs.length) : m.store a bs x = none ↔ m x = none := by
  by_cases hx : a ≤ x ∧ x < a + bs.length
  · rw [store_inside hx.1 hx.2, List.getElem?_eq_none_iff]
    exact ⟨fun hle => absurd hx.2 (by omega), fun hnone => absurd hnone (h x hx.1 hx.2)⟩
  · rw [store_outside (by omega)]

/-! ### Adding cells -/

/-- From `m` to `m'` the addresses in `P`, which had no cell, have got cells with content `z`. -/
structure Added (z : β) (P : Set ℕ) (m m' : Memory β) : Prop where
  fresh : ∀ x ∈ P, m x = none
  filled : ∀ x ∈ P, m' x = some z
  same : ∀ x ∉ P, m' x = m x

variable {z : β} {P Q : Set ℕ} {m'' : Memory β}

lemma Added.empty (z : β) (m : Memory β) : Added z ∅ m m :=
  ⟨fun _ h => absurd h (Set.notMem_empty _), fun _ h => absurd h (Set.notMem_empty _), fun _ _ => rfl⟩

lemma Added.trans (h : Added z P m m') (h' : Added z Q m' m'') : Added z (P ∪ Q) m m'' where
  fresh x hx := by
    by_cases hP : x ∈ P
    · exact h.fresh x hP
    · rw [← h.same x hP]
      exact h'.fresh x (hx.resolve_left hP)
  filled x hx := by
    by_cases hQ : x ∈ Q
    · exact h'.filled x hQ
    · rw [h'.same x hQ]
      exact h.filled x (hx.resolve_right hQ)
  same x hx := by
    rw [Set.mem_union, not_or] at hx
    rw [h'.same x hx.2, h.same x hx.1]

lemma Added.ne_none_iff (h : Added z P m m') (x : ℕ) : m' x ≠ none ↔ x ∈ P ∨ m x ≠ none := by
  by_cases hx : x ∈ P
  · rw [h.filled x hx]
    exact ⟨fun _ => .inl hx, fun _ => Option.some_ne_none z⟩
  · rw [h.same x hx, or_iff_right hx]

/-- Cells with content `z` from `lo` up to `hi`. -/
def fill (m : Memory β) (z : β) (lo hi : ℕ) : Memory β := fun x => if lo ≤ x ∧ x < hi then some z else m x

lemma Added.eq_fill {lo hi : ℕ} (h : Added z P m m') (hP : ∀ x, x ∈ P ↔ lo ≤ x ∧ x < hi) :
    m' = m.fill z lo hi := by
  funext x
  rw [fill]
  split_ifs with hx
  · exact h.filled x ((hP x).mpr hx)
  · exact h.same x (mt (hP x).mp hx)

/-! ### Overwriting cells -/

/-- The memories have the same cells, and differ at most in the `n` cells from `a` on. -/
structure Overwritten (a n : ℕ) (m m' : Memory β) : Prop where
  cells : ∀ x, m' x = none ↔ m x = none
  outside : ∀ x, x < a ∨ a + n ≤ x → m' x = m x

lemma Overwritten.refl (a n : ℕ) (m : Memory β) : Overwritten a n m m :=
  ⟨fun _ => Iff.rfl, fun _ _ => rfl⟩

lemma Overwritten.trans (h : Overwritten a n m m') (h' : Overwritten a n m' m'') : Overwritten a n m m'' where
  cells x := (h'.cells x).trans (h.cells x)
  outside x hx := (h'.outside x hx).trans (h.outside x hx)

lemma overwritten_store {c : ℕ} (h : m.Has c bs.length) (hge : a ≤ c) (hle : c + bs.length ≤ a + n) :
    Overwritten a n m (m.store c bs) where
  cells _ := store_eq_none_iff h
  outside _ hx := store_outside (by omega)

/-! ### Loading -/

lemma load_eq_some_iff : m.load a n = some bs ↔
    bs.length = n ∧ ∀ i < n, m (a + i) = bs[i]? := by
  induction n generalizing a bs with
  | zero => simp [load, eq_comm]
  | succ n ih =>
    rw [load, Option.bind_eq_some_iff]
    constructor
    · rintro ⟨b, hb, h⟩
      obtain ⟨rest, hrest, rfl⟩ := Option.map_eq_some_iff.mp h
      obtain ⟨hlen, hcells⟩ := ih.mp hrest
      refine ⟨by rw [List.length_cons, hlen], fun i hi => ?_⟩
      cases i with
      | zero => exact hb
      | succ i =>
        rw [List.getElem?_cons_succ, ← hcells i (by omega)]
        congr 1
        omega
    · rintro ⟨hlen, hcells⟩
      obtain ⟨b, rest, rfl⟩ := List.exists_cons_of_length_eq_add_one hlen
      refine ⟨b, hcells 0 (by omega), Option.map_eq_some_iff.mpr ⟨rest, ih.mpr ⟨?_, fun i hi => ?_⟩, rfl⟩⟩
      · rw [List.length_cons] at hlen
        omega
      · rw [← List.getElem?_cons_succ (a := b), ← hcells (i + 1) (by omega)]
        congr 1
        omega

/-- What has been stored can be loaded. -/
lemma load_store : (m.store a bs).load a bs.length = some bs := by
  refine load_eq_some_iff.mpr ⟨rfl, fun i hi => ?_⟩
  rw [store_inside (by omega) (by omega), Nat.add_sub_cancel_left]

/-- Storing what is there changes nothing. -/
lemma store_load (h : m.load a n = some bs) : m.store a bs = m := by
  obtain ⟨hlen, hcells⟩ := load_eq_some_iff.mp h
  funext x
  by_cases hx : a ≤ x ∧ x < a + bs.length
  · rw [store_inside hx.1 hx.2, ← hcells (x - a) (by omega), Nat.add_sub_cancel' hx.1]
  · exact store_outside (by omega)

lemma load_congr (h : ∀ x, a ≤ x → x < a + n → m' x = m x) : m'.load a n = m.load a n := by
  induction n generalizing a with
  | zero => rfl
  | succ n ih => rw [load, load, h a (Nat.le_refl a) (by omega), ih fun x hx hlt => h x (by omega) (by omega)]

/-- A part of what can be loaded. -/
lemma load_part (front bs back : List β) (h : m.load a n = some cs) (hcs : cs = front ++ bs ++ back) :
    m.load (a + front.length) bs.length = some bs := by
  obtain ⟨hlen, hcells⟩ := load_eq_some_iff.mp h
  rw [hcs, List.length_append, List.length_append] at hlen
  refine load_eq_some_iff.mpr ⟨rfl, fun i hi => ?_⟩
  rw [Nat.add_assoc, hcells (front.length + i) (by omega), hcs, List.append_assoc,
    List.getElem?_append_right (by omega), Nat.add_sub_cancel_left, List.getElem?_append_left hi]

lemma load_singleton : m.load a 1 = some [b] ↔ m a = some b := by
  cases hb : m a with
  | none => simp [load, hb]
  | some c => simp [load, hb]

end Memory
