import Xbks.Drivers.FontSafe

/-!
# The numbers in a font

What the big-endian reads of the font answer, as numbers.
-/

namespace Xbks

open Checked

variable {bytes rest : List UInt8} {i : ℕ}

/-- Two bytes, the high one first. -/
def word (hi lo : UInt8) : UInt16 := UInt16.ofNat (hi.toNat * 256 + lo.toNat)

lemma or_eq_word (hi lo : UInt8) : (hi.toUInt16 <<< 8) ||| lo.toUInt16 = word hi lo := by
  apply UInt16.toNat_inj.mp
  have hhi := hi.toNat_lt
  have hlo := lo.toNat_lt
  rw [word, UInt16.toNat_ofNat_of_lt' (show _ < 2 ^ 16 by omega), UInt16.toNat_or,
    UInt16.toNat_shiftLeft, UInt8.toNat_toUInt16, UInt8.toNat_toUInt16]
  change (hi.toNat <<< 8) % 2 ^ 16 ||| lo.toNat = _
  rw [Nat.mod_eq_of_lt (by rw [Nat.shiftLeft_eq]; omega), ← Nat.shiftLeft_add_eq_or_of_lt hlo,
    Nat.shiftLeft_eq]

/-- Four bytes, the highest one first. -/
def dword (b₀ b₁ b₂ b₃ : UInt8) : UInt32 :=
  UInt32.ofNat (((b₀.toNat * 256 + b₁.toNat) * 256 + b₂.toNat) * 256 + b₃.toNat)

lemma or_eq_dword (b₀ b₁ b₂ b₃ : UInt8) :
    (b₀.toUInt32 <<< 24) ||| (b₁.toUInt32 <<< 16) ||| (b₂.toUInt32 <<< 8) ||| b₃.toUInt32 =
      dword b₀ b₁ b₂ b₃ := by
  apply UInt32.toNat_inj.mp
  have h₀ := b₀.toNat_lt
  have h₁ := b₁.toNat_lt
  have h₂ := b₂.toNat_lt
  have h₃ := b₃.toNat_lt
  rw [dword, UInt32.toNat_ofNat_of_lt' (show _ < 2 ^ 32 by omega), UInt32.toNat_or, UInt32.toNat_or,
    UInt32.toNat_or, UInt32.toNat_shiftLeft, UInt32.toNat_shiftLeft, UInt32.toNat_shiftLeft]
  simp only [UInt8.toNat_toUInt32]
  change (b₀.toNat <<< 24) % 2 ^ 32 ||| (b₁.toNat <<< 16) % 2 ^ 32 ||| (b₂.toNat <<< 8) % 2 ^ 32 |||
    b₃.toNat = _
  have hshift : b₀.toNat <<< 24 ||| b₁.toNat <<< 16 ||| b₂.toNat <<< 8 =
      ((b₀.toNat <<< 8 ||| b₁.toNat) <<< 8 ||| b₂.toNat) <<< 8 := by
    simp only [Nat.shiftLeft_or_distrib, ← Nat.shiftLeft_add]
  rw [Nat.mod_eq_of_lt (by rw [Nat.shiftLeft_eq]; omega),
    Nat.mod_eq_of_lt (by rw [Nat.shiftLeft_eq]; omega),
    Nat.mod_eq_of_lt (by rw [Nat.shiftLeft_eq]; omega), hshift,
    ← Nat.shiftLeft_add_eq_or_of_lt h₁, ← Nat.shiftLeft_add_eq_or_of_lt h₂,
    ← Nat.shiftLeft_add_eq_or_of_lt h₃, Nat.shiftLeft_eq, Nat.shiftLeft_eq, Nat.shiftLeft_eq]

/-- The byte at an index, 0 outside. -/
abbrev byteOf (bytes : List UInt8) (i : ℕ) : UInt8 := bytes.getD i 0

/-- The two bytes at an index. -/
def u16At (bytes : List UInt8) (i : ℕ) : UInt16 := word (byteOf bytes i) (byteOf bytes (i + 1))

/-- The four bytes at an index. -/
def u32At (bytes : List UInt8) (i : ℕ) : UInt32 :=
  dword (byteOf bytes i) (byteOf bytes (i + 1)) (byteOf bytes (i + 2)) (byteOf bytes (i + 3))

lemma byteAt_eq (h : i < bytes.length) : byteAt bytes i = .ok (byteOf bytes i) := by
  rw [byteAt, byteOf, List.getD_eq_getElem?_getD, List.getElem?_eq_getElem h]
  rfl

lemma readU16_eq (h : i + 2 ≤ bytes.length) : readU16 bytes i = .ok (u16At bytes i) := by
  rw [readU16, byteAt_eq (by omega), byteAt_eq (by omega), ok_bind, ok_bind, or_eq_word]
  rfl

lemma readS16_eq (h : i + 2 ≤ bytes.length) :
    readS16 bytes i = .ok (wrapInt16 (u16At bytes i).toNat) := by
  rw [readS16, readU16_eq h]
  rfl

lemma readU32_eq (h : i + 4 ≤ bytes.length) : readU32 bytes i = .ok (u32At bytes i) := by
  rw [readU32, byteAt_eq (by omega), byteAt_eq (by omega), byteAt_eq (by omega),
    byteAt_eq (by omega), ok_bind, ok_bind, ok_bind, ok_bind, or_eq_dword]
  rfl

end Xbks
