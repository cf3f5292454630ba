import Xbks.Lib.Comparison
import Xbks.Text.Strings

/-!
# What the functions on memory and strings do

The copies against a store of the bytes that were there before, also where source and destination overlap, and the
comparisons against the order of the texts.
-/

namespace Xbks

open Checked

variable {m m' : Memory UInt8} {dest src lhs rhs n i : ℕ} {b : UInt8} {bytes rest left right : List UInt8}

lemma loadByte_some {a : ℕ} (h : m a = some b) : loadByte m a = .ok b := by
  rw [loadByte, h]
  rfl

lemma replaceByte_some {a : ℕ} (h : m a ≠ none) : replaceByte m a b = .ok (m.store a [b]) := if_neg h

lemma replaceByte_ok {a : ℕ} (h : replaceByte m a b = .ok m') : m' = m.store a [b] := by
  rw [replaceByte] at h
  split_ifs at h
  · cases h
  · exact (Except.ok.inj h).symm

/-- The first of the bytes that are loaded. -/
lemma load_cons {a : ℕ} (h : m.load a (b :: rest).length = some (b :: rest)) :
    m a = some b ∧ m.load (a + 1) rest.length = some rest := by
  constructor
  · obtain ⟨-, hcells⟩ := Memory.load_eq_some_iff.mp h
    exact hcells 0 (by simp)
  · exact Memory.load_part [b] rest [] h (by simp)

/-! ### Copies -/

lemma memsetFrom_eq {value : UInt8} (hhas : m.Has (dest + i) n) :
    memsetFrom dest value n i m = .ok (m.store (dest + i) (List.replicate n value)) := by
  induction n generalizing i m with
  | zero => rw [List.replicate_zero, Memory.store_nil]; rfl
  | succ n ih =>
    obtain ⟨hdest, hhas⟩ := Memory.has_succ.mp hhas
    have hone : m.Has (dest + i) [value].length := Memory.has_succ.mpr ⟨hdest, Memory.has_zero⟩
    have hhas' : (m.store (dest + i) [value]).Has (dest + (i + 1)) n := by
      intro x hge hlt hnone
      rw [Memory.store_eq_none_iff hone] at hnone
      exact hhas x hge hlt hnone
    rw [memsetFrom, replaceByte_some hdest, ok_bind, ih hhas', List.replicate_succ,
      show value :: List.replicate n value = [value] ++ List.replicate n value from rfl, Memory.store_append]
    rfl

lemma copyByte_eq (hb : m (src + i) = some b) (hdest : m (dest + i) ≠ none) :
    copyByte dest src i m = .ok (m.store (dest + i) [b]) := by
  rw [copyByte, loadByte_some hb, ok_bind, replaceByte_some hdest]

/-- The loop upwards, if no byte is overwritten before it has been read. -/
lemma copyUp_eq (hload : m.load (src + i) bytes.length = some bytes) (hhas : m.Has (dest + i) bytes.length)
    (happart : dest ≤ src ∨ src + i + bytes.length ≤ dest) :
    copyUp dest src bytes.length i m = .ok (m.store (dest + i) bytes) := by
  induction bytes generalizing i m with
  | nil => rw [Memory.store_nil]; rfl
  | cons b rest ih =>
    rw [List.length_cons] at hhas happart
    obtain ⟨hfirst, hload⟩ := load_cons hload
    obtain ⟨hdest, hhas⟩ := Memory.has_succ.mp hhas
    have hone : m.Has (dest + i) [b].length := Memory.has_succ.mpr ⟨hdest, Memory.has_zero⟩
    have hsame : (m.store (dest + i) [b]).load (src + (i + 1)) rest.length = some rest := by
      rw [← hload]
      apply Memory.load_congr
      intro x hge hlt
      apply Memory.store_outside
      rw [List.length_singleton]
      omega
    have hhas' : (m.store (dest + i) [b]).Has (dest + (i + 1)) rest.length := by
      intro x hge hlt hnone
      rw [Memory.store_eq_none_iff hone] at hnone
      exact hhas x hge hlt hnone
    rw [List.length_cons, copyUp, copyByte_eq hfirst hdest, ok_bind, ih hsame hhas' (by omega),
      show b :: rest = [b] ++ rest from rfl, Memory.store_append]
    rfl

/-- The loop downwards. -/
lemma copyDown_eq (hload : m.load src bytes.length = some bytes) (hhas : m.Has dest bytes.length)
    (hle : src ≤ dest) : copyDown dest src bytes.length m = .ok (m.store dest bytes) := by
  induction bytes using List.reverseRecOn generalizing m with
  | nil => rw [Memory.store_nil]; rfl
  | append_singleton front b ih =>
    rw [List.length_append, List.length_singleton] at hload hhas ⊢
    obtain ⟨-, hcells⟩ := Memory.load_eq_some_iff.mp hload
    have hlast : m (src + front.length) = some b := by
      rw [hcells front.length (by omega), List.getElem?_append_right (le_refl _), Nat.sub_self]
      rfl
    have hdest : m (dest + front.length) ≠ none := hhas _ (by omega) (by omega)
    have hone : m.Has (dest + front.length) [b].length := Memory.has_succ.mpr ⟨hdest, Memory.has_zero⟩
    have hsame : (m.store (dest + front.length) [b]).load src front.length = some front := by
      have hfront : m.load src front.length = some front := by
        have := Memory.load_part [] front [b] hload (by simp)
        simpa using this
      rw [← hfront]
      apply Memory.load_congr
      intro x hge hlt
      apply Memory.store_outside
      omega
    have hhas' : (m.store (dest + front.length) [b]).Has dest front.length := by
      intro x hge hlt hnone
      rw [Memory.store_eq_none_iff hone] at hnone
      exact hhas x hge (by omega) hnone
    rw [copyDown, copyByte_eq hlast hdest, ok_bind, ih hsame hhas', Memory.store_append_below]

/-- A loop upwards to a destination behind the source repeats bytes that it has written. -/
lemma copyUp_repeats (hlt : src < dest) (h : copyUp dest src n i m = .ok m') :
    (∀ x < dest + i, m' x = m x) ∧ ∀ j, i ≤ j → j < i + n → m' (dest + j) = m' (src + j) := by
  induction n generalizing i m with
  | zero =>
    cases h
    exact ⟨fun _ _ => rfl, fun j hj hj' => absurd hj (by omega)⟩
  | succ n ih =>
    obtain ⟨m₁, hcopy, h⟩ := exists_of_bind_eq_ok h
    obtain ⟨c, hc, hreplace⟩ := exists_of_bind_eq_ok hcopy
    obtain rfl := replaceByte_ok hreplace
    obtain ⟨hbelow, hrepeats⟩ := ih h
    have hout : ∀ x < dest + i, m.store (dest + i) [c] x = m x := fun x hx => Memory.store_outside (.inl hx)
    constructor
    · intro x hx
      rw [hbelow x (by omega), hout x hx]
    · intro j hj hj'
      by_cases hji : j = i
      · have hread : m (src + i) = some c := by
          rw [loadByte] at hc
          cases hb : m (src + i) with
          | none =>
            rw [hb] at hc
            cases hc
          | some b =>
            rw [hb] at hc
            cases hc
            rfl
        rw [hji, hbelow (dest + i) (by omega), hbelow (src + i) (by omega), hout (src + i) (by omega), hread,
          Memory.store_inside (le_refl _) (by rw [List.length_singleton]; omega), Nat.sub_self]
        rfl
      · exact hrepeats j (by omega) (by omega)

/-- The copy has stored at the destination what was at the source before. -/
def Copies (copy : Memory UInt8 → ℕ → ℕ → ℕ → Checked (Memory UInt8)) (dest src n : ℕ) : Prop :=
  ∀ m bytes, m.load src n = some bytes → m.Has dest n → copy m dest src n = .ok (m.store dest bytes)

lemma copies_memmove (dest src n : ℕ) : Copies memmove dest src n := by
  intro m bytes hload hhas
  obtain ⟨rfl, -⟩ := Memory.load_eq_some_iff.mp hload
  rw [memmove]
  split_ifs with hsame hlt
  · rcases hsame with rfl | hzero
    · rw [Memory.store_load hload]
      rfl
    · rw [List.length_eq_zero_iff.mp hzero, Memory.store_nil]
      rfl
  · exact copyUp_eq hload hhas (.inl hlt.le)
  · exact copyDown_eq hload hhas (by omega)

lemma copies_memcpy (h : dest ≤ src ∨ src + n ≤ dest) : Copies memcpy dest src n := by
  intro m bytes hload hhas
  obtain ⟨rfl, -⟩ := Memory.load_eq_some_iff.mp hload
  exact copyUp_eq hload hhas h

/-- All zeros, but for a one at the start of the source. -/
def oneAt (src : ℕ) : Memory UInt8 := fun x => some (if x = src then 1 else 0)

lemma not_copies_memcpy (hlt : src < dest) (hoverlap : dest < src + n) : ¬Copies memcpy dest src n := by
  intro h
  have hload : (oneAt src).load src n = some ((List.range n).map fun i => if i = 0 then 1 else 0) := by
    refine Memory.load_eq_some_iff.mpr ⟨by simp, fun i hi => ?_⟩
    rw [List.getElem?_map, List.getElem?_range hi, oneAt]
    simp
  have hcopy := h _ _ hload fun _ _ _ => Option.some_ne_none _
  obtain ⟨hbelow, hrepeats⟩ := copyUp_repeats hlt hcopy
  have hbehind : ((oneAt src).store dest ((List.range n).map fun i => if i = 0 then 1 else 0))
      (dest + (dest - src)) = some 0 := by
    rw [Memory.store_inside (by omega) (by rw [List.length_map, List.length_range]; omega), Nat.add_sub_cancel_left,
      List.getElem?_map, List.getElem?_range (by omega), Option.map_some, if_neg (by omega)]
  have hfirst := hrepeats 0 (le_refl 0) (by omega)
  have hsecond := hrepeats (dest - src) (Nat.zero_le _) (by omega)
  rw [Nat.add_zero, Nat.add_zero, hbelow src (by omega), oneAt, if_pos rfl] at hfirst
  rw [Nat.add_sub_cancel' hlt.le, hbehind, hfirst] at hsecond
  exact absurd hsecond (by decide)

/-- `memmove` copies whatever the ranges are, and `memcpy` unless the destination starts inside the source behind its
first byte; `memset` stores the low byte of its value everywhere in the range. -/
theorem copies_iff (dest src n : ℕ) :
    Copies memmove dest src n ∧ (Copies memcpy dest src n ↔ ¬(src < dest ∧ dest < src + n)) ∧
      ∀ (m : Memory UInt8) value, m.Has dest n →
        memset m dest value n = .ok (m.store dest (List.replicate n (UInt8.ofInt value))) := by
  refine ⟨copies_memmove dest src n, ?_, fun m value hhas => memsetFrom_eq hhas⟩
  constructor
  · rintro h ⟨hlt, hoverlap⟩
    exact not_copies_memcpy hlt hoverlap h
  · intro h
    exact copies_memcpy (by omega)

/-! ### Comparisons -/

lemma orders_bytes (a b : UInt8) : Orders (a.toNat - b.toNat : ℤ) a b where
  lt := by
    rw [UInt8.lt_iff_toNat_lt]
    omega
  eq := by
    rw [← UInt8.toNat_inj]
    omega
  gt := by
    rw [UInt8.lt_iff_toNat_lt]
    omega

/-- Texts that differ in their first bytes, one of which may be the end. -/
lemma orders_cText {a b : UInt8} (hne : a ≠ b) :
    Orders (a.toNat - b.toNat : ℤ) (cText (a :: left)) (cText (b :: right)) := by
  by_cases ha : a = 0
  · subst ha
    rw [cText_zero, cText_cons hne.symm]
    exact .nil_cons ((orders_bytes 0 b).lt.mpr (UInt8.pos_iff_ne_zero.mpr hne.symm))
  · by_cases hb : b = 0
    · subst hb
      rw [cText_zero, cText_cons ha]
      exact .cons_nil ((orders_bytes a 0).gt.mpr (UInt8.pos_iff_ne_zero.mpr ha))
    · rw [cText_cons ha, cText_cons hb]
      exact (orders_bytes a b).of_heads hne

lemma memcmpFrom_orders (hleft : m.load (lhs + i) left.length = some left)
    (hright : m.load (rhs + i) right.length = some right) (hlen : left.length = right.length) :
    ∃ v, memcmpFrom m lhs rhs left.length i = .ok v ∧ Orders v left right := by
  induction left generalizing right i with
  | nil =>
    rw [List.length_nil, eq_comm, List.length_eq_zero_iff] at hlen
    subst hlen
    exact ⟨0, rfl, .nil⟩
  | cons a left ih =>
    cases right with
    | nil => cases hlen
    | cons b right =>
      obtain ⟨ha, hleft'⟩ := load_cons hleft
      obtain ⟨hb, hright'⟩ := load_cons hright
      rw [List.length_cons, memcmpFrom, loadByte_some ha, ok_bind, loadByte_some hb, ok_bind]
      by_cases hab : a = b
      · subst hab
        rw [if_neg (not_not.mpr rfl)]
        obtain ⟨v, hv, horders⟩ := ih (i := i + 1) hleft' hright' (by simpa using hlen)
        exact ⟨v, hv, horders.cons (UInt8.lt_irrefl a)⟩
      · rw [if_pos hab]
        exact ⟨_, rfl, (orders_bytes a b).of_heads hab⟩

/-- The bytes reach to the end of a text, or are as many as are compared. -/
def Suffices (n : ℕ) (bytes : List UInt8) : Prop := 0 ∈ bytes ∨ n ≤ bytes.length

lemma Suffices.tail (h : Suffices (n + 1) (b :: rest)) (hb : b ≠ 0) : Suffices n rest := by
  rcases h with hmem | hle
  · exact .inl (List.mem_of_ne_of_mem hb.symm hmem)
  · exact .inr (Nat.le_of_succ_le_succ hle)

lemma Suffices.ne_nil (h : Suffices (n + 1) bytes) : bytes ≠ [] := by
  rintro rfl
  rcases h with hmem | hle
  · exact List.not_mem_nil hmem
  · exact absurd hle (by simp)

lemma strncmpFrom_orders (hleft : m.load (lhs + i) left.length = some left)
    (hright : m.load (rhs + i) right.length = some right) (hl : Suffices n left) (hr : Suffices n right) :
    ∃ v, strncmpFrom m lhs rhs n i = .ok v ∧ Orders v (cText (left.take n)) (cText (right.take n)) := by
  induction n generalizing left right i with
  | zero => exact ⟨0, rfl, .nil⟩
  | succ n ih =>
    cases left with
    | nil => exact absurd rfl hl.ne_nil
    | cons a left =>
      cases right with
      | nil => exact absurd rfl hr.ne_nil
      | cons b right =>
        obtain ⟨ha, hleft'⟩ := load_cons hleft
        obtain ⟨hb, hright'⟩ := load_cons hright
        rw [strncmpFrom, loadByte_some ha, ok_bind, loadByte_some hb, ok_bind, List.take_succ_cons,
          List.take_succ_cons]
        by_cases hab : a = b
        · subst hab
          by_cases hzero : a = 0
          · rw [if_pos (.inr hzero), hzero, cText_zero, cText_zero]
            exact ⟨_, rfl, .nil⟩
          · rw [if_neg (by tauto), cText_cons hzero, cText_cons hzero]
            obtain ⟨v, hv, horders⟩ := ih (i := i + 1) hleft' hright' (hl.tail hzero) (hr.tail hzero)
            exact ⟨v, hv, horders.cons (UInt8.lt_irrefl a)⟩
        · rw [if_pos (.inl hab)]
          exact ⟨_, rfl, orders_cText hab⟩

/-- Up to the end of a text the two loops do the same. -/
lemma strcmpFrom_eq {v : ℤ} (hleft : m.load (lhs + i) left.length = some left) (hend : 0 ∈ left)
    (hlen : left.length ≤ n) (h : strncmpFrom m lhs rhs n i = .ok v) : strcmpFrom m lhs rhs n i = .ok v := by
  induction n generalizing left i with
  | zero =>
    rw [Nat.le_zero, List.length_eq_zero_iff] at hlen
    subst hlen
    exact absurd hend List.not_mem_nil
  | succ n ih =>
    cases left with
    | nil => exact absurd hend List.not_mem_nil
    | cons a left =>
      obtain ⟨ha, hleft⟩ := load_cons hleft
      rw [strncmpFrom, loadByte_some ha, ok_bind] at h
      obtain ⟨b, hb, h⟩ := exists_of_bind_eq_ok h
      rw [strcmpFrom, loadByte_some ha, ok_bind, hb, ok_bind]
      by_cases hstop : a ≠ b ∨ a = 0
      · rw [if_pos hstop] at h
        rw [if_neg (by tauto)]
        exact h
      · rw [if_neg hstop] at h
        rw [if_pos (by tauto)]
        rw [not_or, not_not] at hstop
        exact ih hleft (List.mem_of_ne_of_mem (Ne.symm hstop.2) hend) (Nat.le_of_succ_le_succ hlen) h

lemma strlenFrom_eq (hload : m.load (src + i) bytes.length = some bytes) (hend : 0 ∈ bytes)
    (hlen : bytes.length ≤ n) : strlenFrom m src n i = .ok (i + (cText bytes).length) := by
  induction n generalizing bytes i with
  | zero =>
    rw [Nat.le_zero, List.length_eq_zero_iff] at hlen
    subst hlen
    exact absurd hend List.not_mem_nil
  | succ n ih =>
    cases bytes with
    | nil => exact absurd hend List.not_mem_nil
    | cons b rest =>
      obtain ⟨hb, hload⟩ := load_cons hload
      rw [strlenFrom, loadByte_some hb, ok_bind]
      by_cases hzero : b = 0
      · rw [if_neg (not_not.mpr hzero), hzero, cText_zero]
        rfl
      · rw [if_pos hzero, ih hload (List.mem_of_ne_of_mem (Ne.symm hzero) hend) (Nat.le_of_succ_le_succ hlen),
          cText_cons hzero, List.length_cons]
        congr 1
        omega

/-- The comparisons order texts and memory as a dictionary does, by the unsigned values of the bytes, and read no
further than the ends of the texts and the given number of bytes. -/
theorem comparisons_order (hleft : m.load lhs left.length = some left) (hright : m.load rhs right.length = some right) :
    (left.length = right.length → ∃ v, memcmp m lhs rhs left.length = .ok v ∧ Orders v left right) ∧
    (∀ n, Suffices n left → Suffices n right →
      ∃ v, strncmp m lhs rhs n = .ok v ∧ Orders v (cText (left.take n)) (cText (right.take n))) ∧
    (left.length ≤ addressSpace → right.length ≤ addressSpace → 0 ∈ left → 0 ∈ right →
      strlen m lhs = .ok (cText left).length ∧
      ∃ v, strcmp m lhs rhs = .ok v ∧ Orders v (cText left) (cText right)) := by
  refine ⟨fun hlen => memcmpFrom_orders hleft hright hlen, fun n hl hr => ?_, fun hl hr hzl hzr => ⟨?_, ?_⟩⟩
  · exact strncmpFrom_orders hleft hright hl hr
  · rw [strlen, strlenFrom_eq hleft hzl hl, Nat.zero_add]
  · obtain ⟨v, hv, horders⟩ := strncmpFrom_orders (n := addressSpace) (i := 0) hleft hright (.inl hzl) (.inl hzr)
    rw [List.take_of_length_le hl, List.take_of_length_le hr] at horders
    exact ⟨v, strcmpFrom_eq hleft hzl hl hv, horders⟩

/-- The string "initrd" with one more byte. -/
def initrdString (last : UInt8) : List UInt8 := [105, 110, 105, 116, 114, 100, last, 0]

/-- Two such strings in a memory that holds nothing else. -/
def twoStrings : Memory UInt8 :=
  (Memory.store (fun _ => none) 0 (initrdString 0xe9)).store 8 (initrdString 115)

/-- They differ in their last characters, and that of the first one is greater as an unsigned byte. -/
theorem comparisons_order_small :
    (∃ v, memcmp twoStrings 0 8 8 = .ok v ∧ 0 < v) ∧ strncmp twoStrings 0 8 6 = .ok 0 ∧
    (∃ v, strncmp twoStrings 0 8 20 = .ok v ∧ 0 < v) ∧ strlen twoStrings 0 = .ok 7 ∧
    ∃ v, strcmp twoStrings 0 8 = .ok v ∧ 0 < v := by
  have hleft : twoStrings.load 0 (initrdString 0xe9).length = some (initrdString 0xe9) := by decide
  have hright : twoStrings.load 8 (initrdString 115).length = some (initrdString 115) := by decide
  obtain ⟨hmemcmp, hstrncmp, hends⟩ := comparisons_order hleft hright
  obtain ⟨v, hv, horders⟩ := hmemcmp (by decide)
  obtain ⟨v₁, hv₁, horders₁⟩ := hstrncmp 6 (.inr (by decide)) (.inr (by decide))
  obtain ⟨v₂, hv₂, horders₂⟩ := hstrncmp 20 (.inl (by decide)) (.inl (by decide))
  obtain ⟨hlen, v₃, hv₃, horders₃⟩ := hends (by decide) (by decide) (by decide) (by decide)
  have hequal : v₁ = 0 := horders₁.eq.mpr (by decide)
  exact ⟨⟨v, hv, horders.gt.mpr (by decide)⟩, hequal ▸ hv₁, ⟨v₂, hv₂, horders₂.gt.mpr (by decide)⟩, hlen,
    v₃, hv₃, horders₃.gt.mpr (by decide)⟩

end Xbks
