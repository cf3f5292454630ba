import Mathlib.Data.Nat.Digits.Lemmas
import Mathlib.Data.List.Basic

/-!
# Numerals

The numeral of a number in a base: digits from the most significant one on, written with the
characters of an alphabet. It reads back to the number and has no leading zero.
-/

namespace Numeral

variable {α : Type} {alphabet text : List α} {base n k : ℕ}

/-- The digits of a number, the least significant first. There are none for zero. -/
def lowFirst (alphabet : List α) (base n : ℕ) : List α :=
  (base.digits n).filterMap (alphabet[·]?)

def numeral (alphabet : List α) (base n : ℕ) : List α :=
  if n = 0 then alphabet.take 1 else (lowFirst alphabet base n).reverse

@[simp] lemma lowFirst_zero : lowFirst alphabet base 0 = [] := by
  simp [lowFirst]

lemma lowFirst_pos (hbase : 2 ≤ base) (hn : n ≠ 0) :
    lowFirst alphabet base n =
      (alphabet[n % base]?).toList ++ lowFirst alphabet base (n / base) := by
  rw [lowFirst, Nat.digits_def' (by omega) (by omega), List.filterMap_cons]
  cases alphabet[n % base]? with
  | none => rfl
  | some c => rfl

lemma lowFirst_digit (hbase : 2 ≤ base) : ∀ c ∈ lowFirst alphabet base n, c ∈ alphabet.take base := by
  intro c hc
  obtain ⟨d, hd, hget⟩ := List.mem_filterMap.mp hc
  have hlt : d < base := Nat.digits_lt_base (by omega) hd
  rw [← List.getElem?_take_of_lt hlt] at hget
  exact List.mem_of_getElem? hget

/-- A number below `base ^ k` has at most `k` digits. -/
lemma length_lowFirst_le (hbase : 2 ≤ base) (hn : n < base ^ k) :
    (lowFirst alphabet base n).length ≤ k := by
  calc (lowFirst alphabet base n).length
      ≤ (base.digits n).length := List.length_filterMap_le _ _
    _ ≤ k := (Nat.digits_length_le_iff (by omega) n).mpr hn

section Read

variable [DecidableEq α]

/-- The number that a text of digits stands for. -/
def read (alphabet : List α) (base : ℕ) (text : List α) : ℕ :=
  text.foldl (fun value c => value * base + alphabet.idxOf c) 0

/-- The text is the canonical numeral of a number. -/
structure IsNumeral (alphabet : List α) (base : ℕ) (text : List α) (n : ℕ) : Prop where
  digit : ∀ c ∈ text, c ∈ alphabet.take base
  reads : read alphabet base text = n
  ne_nil : text ≠ []
  leading : 1 < text.length → text.head? ≠ alphabet.head?

lemma read_append_digit (text : List α) (c : α) :
    read alphabet base (text ++ [c]) = read alphabet base text * base + alphabet.idxOf c := by
  simp [read]

variable (hnodup : alphabet.Nodup) (hbase : 2 ≤ base) (hlen : base ≤ alphabet.length)

include hnodup hbase hlen

lemma lowFirst_cons (hn : n ≠ 0) : ∃ c, alphabet[n % base]? = some c ∧
    alphabet.idxOf c = n % base ∧
    lowFirst alphabet base n = c :: lowFirst alphabet base (n / base) := by
  have hlt : n % base < alphabet.length := (Nat.mod_lt _ (by omega)).trans_le hlen
  refine ⟨alphabet[n % base], List.getElem?_eq_getElem hlt, hnodup.idxOf_getElem _ hlt, ?_⟩
  rw [lowFirst_pos hbase hn, List.getElem?_eq_getElem hlt]
  rfl

lemma read_lowFirst : read alphabet base (lowFirst alphabet base n).reverse = n := by
  induction n using Nat.strong_induction_on with
  | h n ih =>
    by_cases hn : n = 0
    · simp [hn, read]
    · obtain ⟨c, -, hc, heq⟩ := lowFirst_cons hnodup hbase hlen hn
      rw [heq, List.reverse_cons, read_append_digit, hc,
        ih (n / base) (Nat.div_lt_self (by omega) (by omega))]
      exact Nat.div_add_mod' n base

/-- The most significant digit is not zero. -/
lemma lowFirst_getLast (hn : n ≠ 0) : (lowFirst alphabet base n).getLast? ≠ alphabet.head? := by
  induction n using Nat.strong_induction_on with
  | h n ih =>
    obtain ⟨c, hget, hc, heq⟩ := lowFirst_cons hnodup hbase hlen hn
    rw [heq]
    by_cases hq : n / base = 0
    · have hlt : n < base := by
        rcases Nat.div_eq_zero_iff.mp hq with h | h
        · omega
        · exact h
      rw [hq, lowFirst_zero, List.getLast?_singleton]
      intro hhead
      rw [List.head?_eq_getElem?, ← hget, Nat.mod_eq_of_lt hlt] at hhead
      exact hn ((List.getElem?_inj (by omega) hnodup).mp hhead)
    · have hne : lowFirst alphabet base (n / base) ≠ [] := by
        obtain ⟨d, -, -, h⟩ := lowFirst_cons hnodup hbase hlen hq
        simp [h]
      rw [List.getLast?_cons_of_ne_nil hne]
      exact ih (n / base) (Nat.div_lt_self (by omega) (by omega)) hq

theorem isNumeral_numeral : IsNumeral alphabet base (numeral alphabet base n) n := by
  by_cases hn : n = 0
  · match alphabet, hlen with
    | [], hlen => simp at hlen; omega
    | c :: rest, _ =>
      have htake : c ∈ (c :: rest).take base := by
        rw [show base = base - 1 + 1 by omega]
        simp
      constructor
      · simpa [numeral, hn] using htake
      · simp [numeral, hn, read]
      · simp [numeral, hn]
      · simp [numeral, hn]
  · rw [numeral, if_neg hn]
    constructor
    · intro c hc
      exact lowFirst_digit hbase c (List.mem_reverse.mp hc)
    · exact read_lowFirst hnodup hbase hlen
    · obtain ⟨c, -, -, h⟩ := lowFirst_cons hnodup hbase hlen hn
      simp [h]
    · intro _
      rw [List.head?_reverse]
      exact lowFirst_getLast hnodup hbase hlen hn

end Read

end Numeral
