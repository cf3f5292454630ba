import Xbks.Text.Expansion

/-!
# The formatter truncates, and where it stops reading

A buffer is given as the bytes that lie there, so that a store behind the capacity of a buffer of
just that size is a fault. The same holds for the format: its last byte is the terminator.
-/

namespace Xbks

open Checked Numeral

/-- The text `n` bytes have room for, with its terminator, in a buffer. -/
def truncated (buffer : List UInt8) (n : ℕ) (text : List UInt8) : List UInt8 :=
  if n = 0 then buffer else text.take (n - 1) ++ 0 :: buffer.drop (min text.length (n - 1) + 1)

variable (strings : BitVec 64 → CText) (args : VaList) {buffer : List UInt8} {n : ℕ}

/-- The end of `xbks_vsnprintf`, after the loop. -/
lemma xbksVsnprintf_of_formatFrom {fmt text : List UInt8} (h : n ≤ buffer.length)
    (hrun : formatFrom strings fmt (fmt.length + 1) 0 ⟨buffer, n, 0⟩ args =
      .ok ((⟨buffer, n, 0⟩ : FormatSink).put text)) :
    xbksVsnprintf strings buffer n fmt args =
      .ok (truncated buffer n text, min text.length int32Max) := by
  have hresult : (if text.length > int32Max then int32Max else text.length) =
      min text.length int32Max := by
    split <;> omega
  rw [xbksVsnprintf, hrun, ok_bind, FormatSink.put_start h, truncated]
  simp only [hresult]
  by_cases hn : n = 0
  · simp [hn]
  · have hlast : (if text.length < n then text.length else n - 1) = (text.take (n - 1)).length := by
      rw [List.length_take]
      split <;> omega
    have hlt : min text.length (n - 1) < buffer.length := by omega
    have hroom : (text.take (n - 1)).length <
        (text.take (n - 1) ++ buffer.drop (min text.length (n - 1))).length := by
      rw [List.length_append, List.length_drop]
      omega
    rw [if_neg hn, if_pos hn, hlast, storeByte, if_pos hroom, List.set_append_right _ _ le_rfl,
      Nat.sub_self, List.drop_eq_getElem_cons hlt, List.set_cons_zero]
    rfl

/-- The text is the decimal numeral of an integer, with a sign if it is negative. -/
def IsSignedNumeral (text : List UInt8) (value : ℤ) : Prop :=
  if value < 0 then
    ∃ digits, text = '-'.toUInt8 :: digits ∧ IsNumeral (digitAlphabet false) 10 digits value.natAbs
  else IsNumeral (digitAlphabet false) 10 text value.natAbs

lemma isSignedNumeral_signedNumeral (value : ℤ) : IsSignedNumeral (signedNumeral value) value := by
  have hdigits := isNumeral_unsignedNumeral (show 2 ≤ 10 by decide) (by decide) false value.natAbs
  rw [IsSignedNumeral, signedNumeral]
  split
  · exact ⟨_, rfl, hdigits⟩
  · exact hdigits

/-- The numerals in an expansion are canonical. With a complete format the formatter stores the
expansion as far as it fits, its terminator and nothing else, and answers the length of the whole. -/
theorem xbksVsnprintf_truncates (tokens : List Token) (h : n ≤ buffer.length) :
    (∀ value, IsSignedNumeral (signedNumeral value) value) ∧
      (∀ uppercase value, IsNumeral (digitAlphabet uppercase) 10 (unsignedNumeral 10 uppercase value) value ∧
        IsNumeral (digitAlphabet uppercase) 16 (unsignedNumeral 16 uppercase value) value) ∧
      xbksVsnprintf strings buffer n (spell tokens ++ [0]) args =
        .ok (truncated buffer n (expansion strings args tokens),
          min (expansion strings args tokens).length int32Max) := by
  have hfits : (⟨buffer, n, 0⟩ : FormatSink).Fits := h
  refine ⟨isSignedNumeral_signedNumeral, ?_, ?_⟩
  · intro uppercase value
    constructor
    · exact isNumeral_unsignedNumeral (by decide) (by decide) uppercase value
    · exact isNumeral_unsignedNumeral (by decide) (by decide) uppercase value
  · apply xbksVsnprintf_of_formatFrom strings args h
    exact formatFrom_complete strings tokens hfits args

/-- The least integer printed into four bytes of six. -/
theorem xbksVsnprintf_truncates_least : 4 ≤ (List.replicate 6 (46 : UInt8)).length ∧
    xbksVsnprintf (fun _ => nullText) (List.replicate 6 46) 4
        (spell [.literal 97 (by decide), .conversion .l 100 (by decide)] ++ [0])
        (fun _ => 0x8000000000000000#64) =
      .ok ([97, 45, 57, 0, 46, 46], 21) := by
  refine ⟨by decide, ?_⟩
  refine ((xbksVsnprintf_truncates (fun _ => nullText) (fun _ => 0x8000000000000000#64) _
    (by decide)).2.2).trans ?_
  decide +kernel

/-- The formatter ends without a read behind the terminator just if the format does not end right
after a length modifier. -/
theorem xbksVsnprintf_reads_format_iff (fmt : CText) (h : n ≤ buffer.length) :
    (∃ result, xbksVsnprintf strings buffer n fmt.bytes args = .ok result) ↔
      ¬EndsInModifier fmt.val := by
  have hfits : (⟨buffer, n, 0⟩ : FormatSink).Fits := h
  obtain ⟨fmt, hnul⟩ := fmt
  rw [CText.bytes]
  constructor
  · rintro ⟨result, hresult⟩ ⟨tokens, modifier, hne, rfl⟩
    rw [List.append_assoc, List.cons_append, xbksVsnprintf,
      formatFrom_modifier strings tokens hfits args hne] at hresult
    cases hresult
  · intro hends
    rcases format_cases fmt hnul with ⟨tokens, rfl⟩ | ⟨tokens, rfl⟩ | hmodifier
    · exact ⟨_, xbksVsnprintf_of_formatFrom strings args h
        (formatFrom_complete strings tokens hfits args)⟩
    · rw [List.append_assoc]
      exact ⟨_, xbksVsnprintf_of_formatFrom strings args h
        (formatFrom_percent strings tokens hfits args)⟩
    · exact absurd hmodifier hends

/-- The format `a%lx%`, which ends in a lone `%`. -/
theorem xbksVsnprintf_reads_format_percent : ∃ result,
    xbksVsnprintf (fun _ => nullText) (List.replicate 6 46) 4
      (CText.bytes ⟨[97, 37, 108, 120, 37], by decide⟩) (fun _ => 255) = .ok result := by
  refine (xbksVsnprintf_reads_format_iff (fun _ => nullText) (fun _ => 255) ⟨[97, 37, 108, 120, 37], by decide⟩
    (by decide)).mpr ?_
  rintro ⟨tokens, modifier, hne, heq⟩
  have hmodifier : ∀ m : Modifier, m ≠ .none → ('%'.toUInt8 :: m.text).getLast? ≠ some 37 := by
    intro m
    cases m <;> decide
  have hlast := congrArg List.getLast? heq
  rw [List.getLast?_append_of_ne_nil _ (List.cons_ne_nil _ _)] at hlast
  exact hmodifier modifier hne hlast.symm

/-- After the format `%l` the byte behind the terminator is read. -/
theorem xbksVsnprintf_reads_past_modifier :
    ¬∀ (fmt : CText) (buffer : List UInt8) (args : VaList), ∃ result,
      xbksVsnprintf (fun _ => nullText) buffer buffer.length fmt.bytes args = .ok result := by
  intro hall
  obtain ⟨result, hresult⟩ := hall ⟨[37, 108], by decide⟩ [1, 1] fun _ => 0
  have hfault : xbksVsnprintf (fun _ => nullText) [1, 1] 2 (CText.bytes ⟨[37, 108], by decide⟩)
      (fun _ => 0) = .error .fault := by
    decide +kernel
  exact absurd (hfault.symm.trans hresult) nofun

end Xbks
