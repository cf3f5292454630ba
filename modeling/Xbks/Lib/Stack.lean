import Xbks.Lib.Word

/-!
# A stack of words

Registers and a memory of 64-bit words with a stack that grows downwards. Registers that have been pushed in
one order and are popped in the other have their values again.
-/

namespace Stack

/-- A memory of words, each at the address of its first byte. Addresses in use differ by multiples of eight. -/
abbrev Words := UInt64 → UInt64

@[ext] structure State (ρ : Type*) where
  reg : ρ → UInt64
  mem : Words

variable {ρ : Type*} [DecidableEq ρ] {m m' : Words} {a b w : UInt64} {ws ws' : List UInt64}

def State.push (sp : ρ) (w : UInt64) (s : State ρ) : State ρ where
  reg := Function.update s.reg sp (s.reg sp - 8)
  mem := Function.update s.mem (s.reg sp - 8) w

/-- The stack pointer moves before the register is written. -/
def State.pop (sp r : ρ) (s : State ρ) : State ρ :=
  { s with reg := Function.update (Function.update s.reg sp (s.reg sp + 8)) r (s.mem (s.reg sp)) }

def State.pushAll (sp : ρ) (rs : List ρ) (s : State ρ) : State ρ :=
  rs.foldl (fun s r => s.push sp (s.reg r)) s

def State.popAll (sp : ρ) (rs : List ρ) (s : State ρ) : State ρ := rs.foldl (fun s r => s.pop sp r) s

/-! ### Words in a row -/

/-- The address of a word in a row of words. -/
def place (a : UInt64) (i : ℕ) : UInt64 := a + 8 * UInt64.ofNat i

@[simp] lemma place_zero (a : UInt64) : place a 0 = a := by simp [place]

lemma place_succ (a : UInt64) (i : ℕ) : place a (i + 1) = place (a + 8) i := by
  rw [place, place, UInt64.ofNat_add, UInt64.mul_add, UInt64.add_assoc, UInt64.add_comm (8 * _)]
  rfl

/-- Fewer than `2 ^ 61` words do not overlap. -/
lemma place_injective {i j : ℕ} (hi : i < 2 ^ 61) (hj : j < 2 ^ 61) (h : place a i = place a j) : i = j := by
  have hmul := congrArg UInt64.toNat (UInt64.add_right_inj a |>.mp h)
  have height : (8 : UInt64).toNat = 8 := rfl
  rw [UInt64.toNat_mul, UInt64.toNat_mul, height, Word.toNat_ofNat_of_lt (by omega),
    Word.toNat_ofNat_of_lt (by omega), Nat.mod_eq_of_lt (by omega), Nat.mod_eq_of_lt (by omega)] at hmul
  omega

/-- The words `ws` lie one after the other from `a` on. -/
def Holds (m : Words) (a : UInt64) (ws : List UInt64) : Prop :=
  ∀ i w, ws[i]? = some w → m (place a i) = w

@[simp] lemma holds_nil : Holds m a [] := fun i w h => by simp at h

lemma holds_cons : Holds m a (w :: ws) ↔ m a = w ∧ Holds m (a + 8) ws := by
  constructor
  · intro h
    refine ⟨?_, fun i v hv => ?_⟩
    · simpa using h 0 w rfl
    · rw [← place_succ]
      exact h (i + 1) v hv
  · rintro ⟨hw, h⟩ i v hv
    cases i with
    | zero =>
      rw [place_zero, hw]
      exact Option.some.inj hv
    | succ i =>
      rw [place_succ]
      exact h i v hv

lemma holds_append : Holds m a (ws ++ ws') ↔ Holds m a ws ∧ Holds m (place a ws.length) ws' := by
  induction ws generalizing a with
  | nil => simp
  | cons w ws ih => rw [List.cons_append, holds_cons, holds_cons, ih, List.length_cons, place_succ, and_assoc]

lemma holds_congr (h : ∀ i < ws.length, m' (place a i) = m (place a i)) (hm : Holds m a ws) : Holds m' a ws := by
  intro i w hw
  rw [h i (List.getElem?_eq_some_iff.mp hw).1]
  exact hm i w hw

/-- A word pushed in front of others. -/
lemma Holds.push (h : Holds m a ws) (hlen : ws.length + 1 < 2 ^ 61) (w : UInt64) :
    Holds (Function.update m (a - 8) w) (a - 8) (w :: ws) := by
  rw [holds_cons, Function.update_self, UInt64.sub_add_cancel]
  refine ⟨rfl, holds_congr (fun i hi => ?_) h⟩
  refine Function.update_of_ne (fun heq => ?_) _ _
  have hplace : place (a - 8) (i + 1) = place (a - 8) 0 := by
    rw [place_succ, UInt64.sub_add_cancel, heq, place_zero]
  exact absurd (place_injective (by omega) (by norm_num) hplace) (Nat.succ_ne_zero i)

/-- One of the words changed. -/
lemma Holds.set {i : ℕ} (h : Holds m a ws) (hlen : ws.length < 2 ^ 61) (hi : i < ws.length) (w : UInt64) :
    Holds (Function.update m (place a i) w) a (ws.set i w) := by
  intro j v hv
  have hj : j < (ws.set i w).length := (List.getElem?_eq_some_iff.mp hv).1
  rw [List.length_set] at hj
  by_cases hij : i = j
  · subst hij
    rw [List.getElem?_set_self hi] at hv
    rw [Function.update_self]
    exact Option.some.inj hv
  · rw [List.getElem?_set_ne hij] at hv
    rw [Function.update_of_ne fun heq => hij (place_injective (by omega) (by omega) heq).symm]
    exact h j v hv

/-- A memory that holds the words. -/
def fill (m : Words) (a : UInt64) : List UInt64 → Words
  | [] => m
  | w :: ws => Function.update (fill m (a + 8) ws) a w

lemma holds_fill (m : Words) (a : UInt64) (hlen : ws.length < 2 ^ 61) : Holds (fill m a ws) a ws := by
  induction ws generalizing a with
  | nil => exact holds_nil
  | cons w ws ih =>
    rw [List.length_cons] at hlen
    have h := (ih (a + 8) (by omega)).push hlen w
    rwa [UInt64.add_sub_cancel] at h

/-! ### Pushing and popping -/

variable {sp r : ρ} {rs : List ρ} {s : State ρ} {reg : ρ → UInt64}

@[simp] lemma push_reg_sp : (s.push sp w).reg sp = s.reg sp - 8 := Function.update_self _ _ _

lemma push_reg_of_ne (h : r ≠ sp) : (s.push sp w).reg r = s.reg r := Function.update_of_ne h _ _

@[simp] lemma pop_reg_sp (h : sp ≠ r) : (s.pop sp r).reg sp = s.reg sp + 8 := by
  show Function.update (Function.update s.reg sp _) r _ sp = _
  rw [Function.update_of_ne h, Function.update_self]

lemma pop_reg_self : (s.pop sp r).reg r = s.mem (s.reg sp) := Function.update_self _ _ _

lemma pop_reg_of_ne {r' : ρ} (h : r' ≠ r) (h' : r' ≠ sp) : (s.pop sp r).reg r' = s.reg r' := by
  show Function.update (Function.update s.reg sp _) r _ r' = _
  rw [Function.update_of_ne h, Function.update_of_ne h']

lemma pushAll_reg (h : sp ∉ rs) : (s.pushAll sp rs).reg =
    Function.update s.reg sp (s.reg sp - 8 * UInt64.ofNat rs.length) := by
  induction rs generalizing s with
  | nil => simp [State.pushAll]
  | cons r rs ih =>
    rw [List.mem_cons, not_or] at h
    rw [State.pushAll, List.foldl_cons]
    refine (ih h.2).trans ?_
    have hnext : s.reg sp - 8 - 8 * UInt64.ofNat rs.length = s.reg sp - 8 * UInt64.ofNat (rs.length + 1) := by
      rw [UInt64.ofNat_add, UInt64.mul_add, sub_sub, add_comm (8 * _)]
      rfl
    rw [push_reg_sp, State.push, Function.update_idem, List.length_cons, hnext]

lemma pushAll_holds (h : sp ∉ rs) (hs : Holds s.mem (s.reg sp) ws) (hlen : rs.length + ws.length < 2 ^ 61) :
    Holds (s.pushAll sp rs).mem ((s.pushAll sp rs).reg sp) ((rs.map s.reg).reverse ++ ws) := by
  induction rs generalizing s ws with
  | nil => exact hs
  | cons r rs ih =>
    rw [List.mem_cons, not_or] at h
    rw [List.length_cons] at hlen
    have hpush : Holds (s.push sp (s.reg r)).mem ((s.push sp (s.reg r)).reg sp) (s.reg r :: ws) := by
      rw [push_reg_sp]
      exact hs.push (by omega) _
    have hmap : rs.map (s.push sp (s.reg r)).reg = rs.map s.reg := by
      refine List.map_congr_left fun r' hr' => Function.update_of_ne ?_ _ _
      rintro rfl
      exact h.2 hr'
    have hrest := ih h.2 hpush (by rw [List.length_cons]; omega)
    rw [hmap] at hrest
    rw [List.map_cons, List.reverse_cons, List.append_assoc]
    exact hrest

@[simp] lemma popAll_mem : (s.popAll sp rs).mem = s.mem := by
  induction rs generalizing s with
  | nil => rfl
  | cons r rs ih => exact ih

/-- Popping the values of registers gives the registers these values. -/
lemma popAll_reg (h : sp ∉ rs) (hs : Holds s.mem (s.reg sp) (rs.map reg)) : (s.popAll sp rs).reg =
    Function.update (fun r => if r ∈ rs then reg r else s.reg r) sp (place (s.reg sp) rs.length) := by
  induction rs generalizing s with
  | nil => simp [State.popAll]
  | cons r rs ih =>
    rw [List.mem_cons, not_or] at h
    rw [List.map_cons, holds_cons] at hs
    have hpop := @ih (s.pop sp r) h.2 (by rw [pop_reg_sp h.1]; exact hs.2)
    rw [State.popAll, List.foldl_cons]
    refine hpop.trans ?_
    rw [pop_reg_sp h.1, List.length_cons, place_succ]
    funext r'
    by_cases hr' : r' = sp
    · rw [hr', Function.update_self, Function.update_self]
    · rw [Function.update_of_ne hr', Function.update_of_ne hr']
      by_cases hmem : r' ∈ rs
      · rw [if_pos hmem, if_pos (List.mem_cons_of_mem r hmem)]
      · rw [if_neg hmem]
        by_cases heq : r' = r
        · rw [heq, pop_reg_self, hs.1, if_pos List.mem_cons_self]
        · rw [pop_reg_of_ne heq hr', if_neg]
          simp [heq, hmem]

end Stack
