import Mathlib.Data.List.Basic

/-!
# Checked computations

A computation that reads bytes and fixed-size arrays answers a value, refuses its input, or commits
a fault: it touches something outside an object, reads a cell that was never written, or has not
ended after the rounds it was allowed. `Safe m Q` says that `m` commits no fault and that its answer,
if there is one, satisfies `Q`. The rules below derive it from the parts of a computation.
-/

inductive Failure
  | fault
  | refused
  deriving DecidableEq, Repr

abbrev Checked := Except Failure

namespace Checked

variable {α β : Type} {m : Checked α} {f : α → Checked β} {P P' : α → Prop} {Q : β → Prop}

def fault : Checked α := .error .fault

def refuse : Checked α := .error .refused

/-- Go on only if the condition holds. -/
def require (c : Bool) : Checked Unit := if c then pure () else refuse

@[simp] lemma ok_bind (a : α) (f : α → Checked β) : (.ok a : Checked α) >>= f = f a := rfl

@[simp] lemma pure_eq_ok (a : α) : (pure a : Checked α) = .ok a := rfl

lemma ok_ne_fault (a : α) : (.ok a : Checked α) ≠ fault := by
  intro h
  cases h

lemma require_bind {c : Bool} (h : c = true) (f : Unit → Checked β) : require c >>= f = f () := by
  rw [h]
  rfl

lemma exists_of_bind_eq_ok {b : β} (h : m >>= f = .ok b) : ∃ a, m = .ok a ∧ f a = .ok b := by
  cases m with
  | ok a => exact ⟨a, rfl, h⟩
  | error e => cases h

structure Safe (m : Checked α) (P : α → Prop) : Prop where
  ne_fault : m ≠ fault
  answer : ∀ a, m = .ok a → P a

lemma safe_pure {a : α} (h : P a) : Safe (pure a : Checked α) P where
  ne_fault := nofun
  answer b hb := by
    cases hb
    exact h

lemma safe_refuse : Safe (refuse : Checked α) P where
  ne_fault := nofun
  answer := nofun

lemma Safe.mono (h : Safe m P) (hP : ∀ a, P a → P' a) : Safe m P' :=
  ⟨h.ne_fault, fun a ha => hP a (h.answer a ha)⟩

lemma Safe.bind (h : Safe m P) (hf : ∀ a, P a → Safe (f a) Q) : Safe (m >>= f) Q := by
  cases m with
  | ok a => exact hf a (h.answer a rfl)
  | error e =>
    cases e with
    | fault => exact absurd rfl h.ne_fault
    | refused => exact safe_refuse

lemma safe_ite {c : Prop} [Decidable c] {t e : Checked α} (ht : c → Safe t P) (he : ¬c → Safe e P) :
    Safe (if c then t else e) P := by
  by_cases h : c
  · rw [if_pos h]
    exact ht h
  · rw [if_neg h]
    exact he h

lemma safe_require (c : Bool) : Safe (require c) fun _ => c = true :=
  safe_ite (fun h => safe_pure h) fun _ => safe_refuse

/-! ### Answers -/

/-- If there is an answer, it satisfies `P`. -/
def Answers (m : Checked α) (P : α → Prop) : Prop := ∀ a, m = .ok a → P a

lemma answers_pure {a : α} (h : P a) : Answers (pure a : Checked α) P := by
  rintro b ⟨⟩
  exact h

lemma answers_refuse : Answers (refuse : Checked α) P := nofun

lemma answers_fault : Answers (fault : Checked α) P := nofun

lemma Answers.mono (h : Answers m P) (hP : ∀ a, P a → P' a) : Answers m P' :=
  fun a ha => hP a (h a ha)

lemma Answers.bind (h : Answers m P) (hf : ∀ a, P a → Answers (f a) Q) : Answers (m >>= f) Q := by
  cases m with
  | ok a => exact hf a (h a rfl)
  | error e => exact nofun

lemma answers_ite {c : Prop} [Decidable c] {t e : Checked α} (ht : c → Answers t P)
    (he : ¬c → Answers e P) : Answers (if c then t else e) P := by
  by_cases h : c
  · rw [if_pos h]
    exact ht h
  · rw [if_neg h]
    exact he h

lemma answers_require (c : Bool) : Answers (require c) fun _ => c = true :=
  answers_ite (fun h => answers_pure h) fun _ => answers_refuse

/-- An answer, whatever it is. -/
lemma answers_trivial (m : Checked α) : Answers m fun a => m = .ok a := fun _ h => h

lemma bind_ne_refuse (hm : m ≠ refuse) (hf : ∀ a, f a ≠ refuse) : m >>= f ≠ refuse := by
  cases m with
  | ok a => exact hf a
  | error e =>
    cases e with
    | fault => nofun
    | refused => exact absurd rfl hm

lemma bind_ne_fault_iff : m >>= f ≠ fault ↔ m ≠ fault ∧ ∀ a, m = .ok a → f a ≠ fault := by
  constructor
  · intro h
    constructor
    · rintro rfl
      exact h rfl
    · rintro a rfl
      exact h
  · rintro ⟨hm, hf⟩
    cases m with
    | ok a => exact hf a rfl
    | error e =>
      cases e with
      | fault => exact absurd rfl hm
      | refused => nofun

/-- Whether there is a fault behind a computation that never refuses. -/
lemma bind_ne_fault_iff_and {q : Prop} (hm : m ≠ refuse) (hf : ∀ a, f a ≠ fault ↔ q) :
    m >>= f ≠ fault ↔ m ≠ fault ∧ q := by
  rw [bind_ne_fault_iff]
  refine and_congr_right fun hfault => ?_
  simp only [hf]
  constructor
  · intro h
    cases m with
    | ok a => exact h a rfl
    | error e =>
      cases e with
      | fault => exact absurd rfl hfault
      | refused => exact absurd rfl hm
  · exact fun h _ _ => h

lemma bind_ne_fault_iff_of_ne_fault (hm : m ≠ fault) : m >>= f ≠ fault ↔ ∀ a, m = .ok a → f a ≠ fault := by
  rw [bind_ne_fault_iff, and_iff_right hm]

lemma require_bind_ne_fault_iff {c : Bool} {f : Unit → Checked β} :
    require c >>= f ≠ fault ↔ (c = true → f () ≠ fault) := by
  cases c with
  | false => exact iff_of_true nofun nofun
  | true =>
    rw [require_bind rfl]
    exact ⟨fun h _ => h, fun h => h rfl⟩

lemma mapM_ne_refuse {xs : List α} (h : ∀ x ∈ xs, f x ≠ refuse) : xs.mapM f ≠ refuse := by
  induction xs with
  | nil => nofun
  | cons x xs ih =>
    rw [List.forall_mem_cons] at h
    rw [List.mapM_cons]
    exact bind_ne_refuse h.1 fun y => bind_ne_refuse (ih h.2) fun ys => nofun

lemma mapM_ne_fault_iff {xs : List α} (h : ∀ x ∈ xs, f x ≠ refuse) :
    xs.mapM f ≠ fault ↔ ∀ x ∈ xs, f x ≠ fault := by
  induction xs with
  | nil => exact iff_of_true nofun nofun
  | cons x xs ih =>
    rw [List.forall_mem_cons] at h
    rw [List.mapM_cons, List.forall_mem_cons, ← ih h.2]
    refine bind_ne_fault_iff_and h.1 fun y => ?_
    rw [bind_ne_fault_iff, and_iff_left fun ys _ => nofun]

/-- Go on with a default when the computation refuses. -/
def orDefault (m : Checked α) (a : α) : Checked α :=
  match m with
  | .ok b => pure b
  | .error .refused => pure a
  | .error .fault => fault

lemma Safe.orDefault {a : α} (h : Safe m P) (ha : P a) : Safe (Checked.orDefault m a) P := by
  match m, h with
  | .ok b, h => exact safe_pure (h.answer b rfl)
  | .error .refused, _ => exact safe_pure ha
  | .error .fault, h => exact absurd rfl h.ne_fault

lemma Answers.orDefault {a : α} (h : Answers m P) (ha : m = refuse → P a) :
    Answers (Checked.orDefault m a) P := by
  match m, h with
  | .ok b, h => exact answers_pure (h b rfl)
  | .error .refused, _ => exact answers_pure (ha rfl)
  | .error .fault, _ => exact answers_fault

lemma answers_mapM {xs : List α} :
    Answers (xs.mapM f) fun ys => List.Forall₂ (fun x y => f x = .ok y) xs ys := by
  induction xs with
  | nil => exact answers_pure .nil
  | cons x xs ih =>
    rw [List.mapM_cons]
    refine (answers_trivial _).bind fun y hy => ?_
    exact ih.bind fun ys hys => answers_pure (.cons hy hys)

lemma Answers.mapM {xs : List α} (h : ∀ x ∈ xs, Answers (f x) Q) :
    Answers (xs.mapM f) fun ys => ys.length = xs.length ∧ ∀ y ∈ ys, Q y := by
  induction xs with
  | nil => exact answers_pure ⟨rfl, List.forall_mem_nil _⟩
  | cons x xs ih =>
    obtain ⟨hx, hxs⟩ := List.forall_mem_cons.mp h
    rw [List.mapM_cons]
    refine hx.bind fun y hy => (ih hxs).bind fun ys hys => answers_pure ⟨?_, List.forall_mem_cons.mpr ⟨hy, hys.2⟩⟩
    rw [List.length_cons, List.length_cons, hys.1]

/-! ### Bytes -/

/-- Byte `i` of an object. -/
def byteAt (bytes : List UInt8) (i : ℕ) : Checked UInt8 := bytes[i]?.elim fault pure

lemma safe_byteAt {bytes : List UInt8} {i : ℕ} (h : i < bytes.length) :
    Safe (byteAt bytes i) fun _ => True := by
  rw [byteAt, List.getElem?_eq_getElem h]
  exact safe_pure trivial

/-- The first of the bytes that are left is the one at the index. -/
lemma byteAt_of_drop {bytes rest : List UInt8} {i : ℕ} {b : UInt8} (h : bytes.drop i = b :: rest) :
    byteAt bytes i = .ok b ∧ bytes.drop (i + 1) = rest := by
  constructor
  · have hget : bytes[i]? = some b := by
      rw [← Nat.add_zero i, ← List.getElem?_drop, h, List.getElem?_cons_zero]
    rw [byteAt, hget]
    rfl
  · rw [← List.drop_drop, h, List.drop_one, List.tail_cons]

lemma byteAt_of_drop_nil {bytes : List UInt8} {i : ℕ} (h : bytes.drop i = []) :
    byteAt bytes i = fault := by
  rw [byteAt, List.getElem?_eq_none (List.drop_eq_nil_iff.mp h)]
  rfl

/-! ### Arrays -/

/-- An array of `n` cells. A cell that has not been written is `none`. -/
abbrev Cells (n : ℕ) (α : Type) := Fin n → Option α

namespace Cells

variable {n : ℕ} {cells : Cells n α} {i k : ℕ}

def get (cells : Cells n α) (i : ℕ) : Checked α :=
  if h : i < n then (cells ⟨i, h⟩).elim fault pure else fault

def set (cells : Cells n α) (i : ℕ) (a : α) : Checked (Cells n α) :=
  if h : i < n then pure (Function.update cells ⟨i, h⟩ (some a)) else fault

/-- The first `k` cells have been written. -/
def Filled (cells : Cells n α) (k : ℕ) : Prop := ∀ i : Fin n, i.val < k → cells i ≠ none

lemma Filled.mono (h : Filled cells k) (hik : i ≤ k) : Filled cells i :=
  fun j hj => h j (Nat.lt_of_lt_of_le hj hik)

lemma filled_zero : Filled cells 0 := fun _ h => absurd h (Nat.not_lt_zero _)

lemma Filled.get (h : Filled cells k) (hi : i < k) (hn : i < n) :
    Safe (Cells.get cells i) fun _ => True := by
  obtain ⟨a, ha⟩ := Option.ne_none_iff_exists'.mp (h ⟨i, hn⟩ hi)
  rw [Cells.get, dif_pos hn, ha]
  exact safe_pure trivial

lemma update_ne_none {j : Fin n} {hn : i < n} {a : α} (h : j.val ≠ i → cells j ≠ none) :
    Function.update cells ⟨i, hn⟩ (some a) j ≠ none := by
  by_cases hji : j = ⟨i, hn⟩
  · rw [hji, Function.update_self]
    exact Option.some_ne_none a
  · rw [Function.update_of_ne hji]
    exact h fun hval => hji (Fin.ext hval)

/-- Cells that were written stay written. -/
lemma Filled.set (h : Filled cells k) (hn : i < n) (a : α) :
    Safe (Cells.set cells i a) fun cells' => Filled cells' k := by
  rw [Cells.set, dif_pos hn]
  exact safe_pure fun j hj => update_ne_none fun _ => h j hj

/-- Write the next cell. -/
lemma Filled.set_next (h : Filled cells i) (hn : i < n) (a : α) :
    Safe (Cells.set cells i a) fun cells' => Filled cells' (i + 1) := by
  rw [Cells.set, dif_pos hn]
  exact safe_pure fun j hj => update_ne_none fun hne => h j (by omega)

/-- What has been written satisfies `P`. -/
def All (P : α → Prop) (cells : Cells n α) : Prop := ∀ i, ∀ a ∈ cells i, P a

lemma All.answers_get (h : All P cells) : Answers (Cells.get cells i) P := by
  rw [Cells.get]
  split
  · rename_i hn
    cases hcell : cells ⟨i, hn⟩ with
    | none => exact answers_fault
    | some a => exact answers_pure (h _ a hcell)
  · exact answers_fault

lemma All.answers_set {a : α} (h : All P cells) (ha : P a) : Answers (Cells.set cells i a) (All P) := by
  rw [Cells.set]
  split
  · refine answers_pure ?_
    intro j b hb
    rw [Function.update_apply] at hb
    split_ifs at hb
    · exact Option.some_inj.mp hb ▸ ha
    · exact h j b hb
  · exact answers_fault

/-- The first cells hold the elements of a list. -/
def Holds (cells : Cells n α) (xs : List α) : Prop :=
  ∀ i : Fin n, i.val < xs.length → cells i = xs[i.val]?

variable {xs : List α}

lemma holds_nil : Holds cells [] := fun _ h => absurd h (Nat.not_lt_zero _)

lemma Holds.get_eq (h : Holds cells xs) (hn : i < n) (hi : i < xs.length) :
    Cells.get cells i = .ok (xs.get ⟨i, hi⟩) := by
  rw [Cells.get, dif_pos hn, h ⟨i, hn⟩ hi, List.getElem?_eq_getElem hi]
  rfl

lemma Holds.all (h : Holds cells xs) (hall : All P cells) (hlen : xs.length ≤ n) : ∀ a ∈ xs, P a := by
  intro a ha
  obtain ⟨i, hi, rfl⟩ := List.mem_iff_getElem.mp ha
  have hcell := h ⟨i, Nat.lt_of_lt_of_le hi hlen⟩ hi
  exact hall _ _ (hcell.trans (List.getElem?_eq_getElem hi))

/-- Write the cell after the ones that are held. -/
lemma Holds.set_next (h : Holds cells xs) (hn : xs.length < n) (a : α) :
    ∃ cells', Cells.set cells xs.length a = .ok cells' ∧ Holds cells' (xs ++ [a]) := by
  refine ⟨Function.update cells ⟨xs.length, hn⟩ (some a), by rw [Cells.set, dif_pos hn]; rfl, ?_⟩
  intro i hi
  rw [List.length_append, List.length_singleton] at hi
  by_cases hlast : i = ⟨xs.length, hn⟩
  · rw [hlast, Function.update_self, List.getElem?_concat_length]
  · have hlt : i.val < xs.length := by
      have hne : i.val ≠ xs.length := fun hval => hlast (Fin.ext hval)
      omega
    rw [Function.update_of_ne hlast, h i hlt, List.getElem?_append_left hlt]

/-- Write a cell among the ones that are held. -/
lemma Holds.set_middle {front back : List α} {a : α} (h : Holds cells (front ++ a :: back))
    (hn : front.length < n) (b : α) :
    ∃ cells', Cells.set cells front.length b = .ok cells' ∧ Holds cells' (front ++ b :: back) := by
  refine ⟨Function.update cells ⟨front.length, hn⟩ (some b), by rw [Cells.set, dif_pos hn]; rfl, ?_⟩
  intro i hi
  by_cases hmiddle : i = ⟨front.length, hn⟩
  · rw [hmiddle, Function.update_self, List.getElem?_append_right (Nat.le_refl _), Nat.sub_self,
      List.getElem?_cons_zero]
  · have hne : i.val ≠ front.length := fun hval => hmiddle (Fin.ext hval)
    rw [Function.update_of_ne hmiddle, h i (by simpa using hi)]
    rcases Nat.lt_or_gt_of_ne hne with hlt | hgt
    · rw [List.getElem?_append_left hlt, List.getElem?_append_left hlt]
    · obtain ⟨k, hk⟩ := Nat.exists_eq_add_of_lt hgt
      rw [hk, Nat.add_assoc, List.getElem?_append_right (Nat.le_add_right _ _),
        List.getElem?_append_right (Nat.le_add_right _ _), Nat.add_sub_cancel_left,
        List.getElem?_cons_succ, List.getElem?_cons_succ]

lemma Holds.answers_get (h : Holds cells xs) (hi : i < xs.length) :
    Answers (Cells.get cells i) fun a => xs[i]? = some a := by
  by_cases hn : i < n
  · rw [h.get_eq hn hi]
    exact answers_pure (List.getElem?_eq_getElem hi)
  · rw [Cells.get, dif_neg hn]
    exact answers_fault

lemma Holds.answers_set_next (h : Holds cells xs) (hi : i = xs.length) (a : α) :
    Answers (Cells.set cells i a) fun cells' => Holds cells' (xs ++ [a]) := by
  by_cases hn : xs.length < n
  · obtain ⟨cells', hset, hholds⟩ := h.set_next hn a
    rw [hi, hset]
    exact answers_pure hholds
  · rw [hi, Cells.set, dif_neg hn]
    exact answers_fault

/-- Cells that have been written hold some list. -/
lemma Filled.exists_holds (h : Filled cells k) (hk : k ≤ n) :
    ∃ xs : List α, xs.length = k ∧ Holds cells xs := by
  induction k with
  | zero => exact ⟨[], rfl, holds_nil⟩
  | succ k ih =>
    obtain ⟨xs, hlen, hholds⟩ := ih (h.mono (Nat.le_succ k)) (Nat.le_of_succ_le hk)
    obtain ⟨a, ha⟩ := Option.ne_none_iff_exists'.mp (h ⟨k, hk⟩ (Nat.lt_succ_self k))
    refine ⟨xs ++ [a], by simp [hlen], ?_⟩
    intro i hi
    rw [List.length_append, List.length_singleton] at hi
    by_cases hlast : i.val = xs.length
    · have hik : i = ⟨k, hk⟩ := Fin.ext (hlast.trans hlen)
      rw [hlast, List.getElem?_concat_length, hik, ha]
    · have hlt : i.val < xs.length := by omega
      rw [hholds i hlt, List.getElem?_append_left hlt]

end Cells

end Checked
