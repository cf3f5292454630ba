import Xbks.Drivers.FontBytes
import Xbks.Lib.Intervals

/-!
# The character map

`Maps` says which glyph a subtable gives to a character: the one of the segment or group that
contains the character. The lookups find it when the segments or groups are sorted.
-/

namespace Xbks

open Checked Intervals

/-! ### Format 4 -/

namespace Format4

variable (bytes : List UInt8) (t : TtfTable)

def segCount : ℕ := (u16At bytes (t.data + 6)).toNat / 2

def endCode (i : ℕ) : ℕ := (u16At bytes (t.data + endCodes + i * 2)).toNat

def startCode (i : ℕ) : ℕ := (u16At bytes (t.data + startCodes (segCount bytes t) + i * 2)).toNat

def idDelta (i : ℕ) : ℤ := wrapInt16 (u16At bytes (t.data + idDeltas (segCount bytes t) + i * 2)).toNat

def idRangeOffset (i : ℕ) : ℕ :=
  (u16At bytes (t.data + idRangeOffsets (segCount bytes t) + i * 2)).toNat

/-- Where the glyph of a character of segment `i` stands in the subtable. The offset counts from the
segment's own entry of `idRangeOffset`. -/
def glyphPosition (i c : ℕ) : ℕ :=
  idRangeOffsets (segCount bytes t) + i * 2 + idRangeOffset bytes t i + (c - startCode bytes t i) * 2

/-- The glyph that segment `i` gives to a character. -/
def segmentGlyph (i c : ℕ) : ℕ :=
  if idRangeOffset bytes t i = 0 then ((c + idDelta bytes t i) % 65536).toNat
  else if glyphPosition bytes t i c + 2 ≤ t.size ∧
      u16At bytes (t.data + glyphPosition bytes t i c) ≠ 0 then
    (((u16At bytes (t.data + glyphPosition bytes t i c)).toNat + idDelta bytes t i) % 65536).toNat
  else 0

/-- The glyph of a character. -/
inductive Maps (c : ℕ) : ℕ → Prop
  | segment (i : ℕ) (hi : i < segCount bytes t)
      (hc : startCode bytes t i ≤ c ∧ c ≤ endCode bytes t i) : Maps c (segmentGlyph bytes t i c)
  | missing (h : ∀ i < segCount bytes t, ¬(startCode bytes t i ≤ c ∧ c ≤ endCode bytes t i)) : Maps c 0

/-- A subtable of format 4 that holds its four arrays, with sorted segments. -/
structure Wellformed : Prop where
  inside : t.Inside bytes
  format : u16At bytes t.data = 4
  holds : idRangeOffsets (segCount bytes t) + segCount bytes t * 2 ≤ t.size
  sorted : Sorted (startCode bytes t) (endCode bytes t) (segCount bytes t)

end Format4

/-! ### Format 12 -/

namespace Format12

variable (bytes : List UInt8) (t : TtfTable)

def groupCount : ℕ := (u32At bytes (t.data + 12)).toNat

def startChar (i : ℕ) : ℕ := (u32At bytes (t.data + 16 + i * 12)).toNat

def endChar (i : ℕ) : ℕ := (u32At bytes (t.data + 16 + i * 12 + 4)).toNat

def startGlyph (i : ℕ) : ℕ := (u32At bytes (t.data + 16 + i * 12 + 8)).toNat

/-- The glyph of a character. It need not be the index of a glyph. -/
inductive Maps (c : ℕ) : ℕ → Prop
  | group (i : ℕ) (hi : i < groupCount bytes t)
      (hc : startChar bytes t i ≤ c ∧ c ≤ endChar bytes t i) :
      Maps c (startGlyph bytes t i + (c - startChar bytes t i))
  | missing (h : ∀ i < groupCount bytes t, ¬(startChar bytes t i ≤ c ∧ c ≤ endChar bytes t i)) : Maps c 0

/-- A subtable of format 12 that holds its groups, with sorted groups whose glyphs are numbers of 32
bits. -/
structure Wellformed : Prop where
  inside : t.Inside bytes
  format : u16At bytes t.data = 12
  holds : 16 + groupCount bytes t * 12 ≤ t.size
  sorted : Sorted (startChar bytes t) (endChar bytes t) (groupCount bytes t)
  glyphs : ∀ i < groupCount bytes t,
    startGlyph bytes t i + (endChar bytes t i - startChar bytes t i) < 2 ^ 32

end Format12

/-! ### Lookup in format 4 -/

section

variable {bytes : List UInt8} {t : TtfTable} {c : UInt32} {i : ℕ}

section Segments

open Format4

lemma toNat_add_ofInt (c : UInt32) (delta : ℤ) :
    ((c + UInt32.ofInt delta) &&& 0xffff).toUInt16.toNat = ((c.toNat + delta) % 65536).toNat := by
  have hofInt : (UInt32.ofInt delta).toNat = (delta % 2 ^ 32).toNat :=
    UInt32.toNat_ofNat_of_lt' (show _ < 2 ^ 32 by omega)
  rw [UInt32.toNat_toUInt16, UInt32.toNat_and, UInt32.toNat_add, hofInt]
  change (_ &&& (2 ^ 16 - 1)) % 2 ^ 16 = _
  rw [Nat.and_two_pow_sub_one_eq_mod]
  omega

lemma toNat_add_ofInt16 (glyph : UInt16) (delta : ℤ) :
    (glyph + UInt16.ofInt delta).toNat = ((glyph.toNat + delta) % 65536).toNat := by
  have hofInt : (UInt16.ofInt delta).toNat = (delta % 2 ^ 16).toNat :=
    UInt16.toNat_ofNat_of_lt' (show _ < 2 ^ 16 by omega)
  rw [UInt16.toNat_add, hofInt]
  omega

lemma lt_toUInt32_iff {w : UInt16} : c < w.toUInt32 ↔ c.toNat < w.toNat := by
  rw [UInt32.lt_iff_toNat_lt, UInt16.toNat_toUInt32]

lemma toUInt32_lt_iff {w : UInt16} : w.toUInt32 < c ↔ w.toNat < c.toNat := by
  rw [UInt32.lt_iff_toNat_lt, UInt16.toNat_toUInt32]

lemma Format4.Wellformed.reads (h : Wellformed bytes t) (hi : i < segCount bytes t) :
    t.data + endCodes + i * 2 + 2 ≤ bytes.length ∧
      t.data + startCodes (segCount bytes t) + i * 2 + 2 ≤ bytes.length ∧
      t.data + idDeltas (segCount bytes t) + i * 2 + 2 ≤ bytes.length ∧
      t.data + idRangeOffsets (segCount bytes t) + i * 2 + 2 ≤ bytes.length := by
  have hinside : t.data + t.size ≤ bytes.length := h.inside
  have hholds := h.holds
  simp only [idRangeOffsets, idDeltas, startCodes, endCodes] at hholds ⊢
  omega

/-- What the loop answers in the segment that contains the character. -/
lemma cmapFormat4From_segment (h : Wellformed bytes t) (hi : i < segCount bytes t) {remaining : ℕ}
    (hstart : ¬c.toNat < startCode bytes t i) (hend : c.toNat ≤ endCode bytes t i) :
    (cmapFormat4From bytes t (segCount bytes t) c (remaining + 1) i).map UInt16.toNat =
      .ok (segmentGlyph bytes t i c.toNat) := by
  have hinside : t.data + t.size ≤ bytes.length := h.inside
  obtain ⟨hends, hstarts, hdeltas, hoffsets⟩ := h.reads hi
  rw [cmapFormat4From, readU16_eq hends, ok_bind, readU16_eq hstarts, ok_bind,
    if_neg (mt lt_toUInt32_iff.mp hstart), if_neg (mt toUInt32_lt_iff.mp (Nat.not_lt.mpr hend)),
    readS16_eq hdeltas, ok_bind, readU16_eq hoffsets, ok_bind, segmentGlyph]
  by_cases hzero : u16At bytes (t.data + idRangeOffsets (segCount bytes t) + i * 2) = 0
  · have hzero' : idRangeOffset bytes t i = 0 := by
      rw [idRangeOffset, hzero]
      rfl
    rw [if_pos hzero, if_pos hzero']
    exact congrArg Except.ok (toNat_add_ofInt _ _)
  · have hzero' : idRangeOffset bytes t i ≠ 0 := fun hnat =>
      hzero (UInt16.toNat_inj.mp hnat)
    rw [if_neg hzero, if_neg hzero']
    have hglyphPosition : idRangeOffsets (segCount bytes t) + i * 2 +
        (u16At bytes (t.data + idRangeOffsets (segCount bytes t) + i * 2)).toNat +
        (c.toNat - (u16At bytes (t.data + startCodes (segCount bytes t) + i * 2)).toNat) * 2 =
        glyphPosition bytes t i c.toNat := rfl
    rw [hglyphPosition]
    by_cases hposition : glyphPosition bytes t i c.toNat + 2 ≤ t.size
    · rw [if_neg (not_not_intro (rangeIsValid_iff.mpr hposition)), readU16_eq (by omega), ok_bind]
      by_cases hglyph : u16At bytes (t.data + glyphPosition bytes t i c.toNat) = 0
      · have hnone : ¬(glyphPosition bytes t i c.toNat + 2 ≤ t.size ∧
            u16At bytes (t.data + glyphPosition bytes t i c.toNat) ≠ 0) := fun hand => hand.2 hglyph
        rw [if_pos hglyph, if_neg hnone]
        rfl
      · have hsome : glyphPosition bytes t i c.toNat + 2 ≤ t.size ∧
            u16At bytes (t.data + glyphPosition bytes t i c.toNat) ≠ 0 := ⟨hposition, hglyph⟩
        rw [if_neg hglyph, if_pos hsome]
        exact congrArg Except.ok (toNat_add_ofInt16 _ _)
    · have hnone : ¬(glyphPosition bytes t i c.toNat + 2 ≤ t.size ∧
          u16At bytes (t.data + glyphPosition bytes t i c.toNat) ≠ 0) := fun hand => hposition hand.1
      rw [if_pos (mt rangeIsValid_iff.mp hposition), if_neg hnone]
      rfl

/-- The loop is the scan, followed by the glyph of the segment that it finds. -/
lemma cmapFormat4From_eq (h : Wellformed bytes t) {remaining : ℕ}
    (hi : i + remaining = segCount bytes t) :
    (cmapFormat4From bytes t (segCount bytes t) c remaining i).map UInt16.toNat =
      .ok ((scan (startCode bytes t) (endCode bytes t) c.toNat remaining i).elim 0
        (segmentGlyph bytes t · c.toNat)) := by
  induction remaining generalizing i with
  | zero => rfl
  | succ remaining ih =>
    have hlt : i < segCount bytes t := by omega
    obtain ⟨hends, hstarts, -, -⟩ := h.reads hlt
    rw [scan]
    by_cases hstart : c.toNat < startCode bytes t i
    · rw [if_pos hstart, cmapFormat4From, readU16_eq hends, ok_bind, readU16_eq hstarts, ok_bind,
        if_pos (lt_toUInt32_iff.mpr hstart)]
      rfl
    · rw [if_neg hstart]
      by_cases hend : c.toNat ≤ endCode bytes t i
      · rw [if_pos hend]
        exact cmapFormat4From_segment h hlt hstart hend
      · rw [if_neg hend, cmapFormat4From, readU16_eq hends, ok_bind, readU16_eq hstarts, ok_bind,
          if_neg (mt lt_toUInt32_iff.mp hstart), if_pos (toUInt32_lt_iff.mpr (Nat.not_le.mp hend))]
        exact ih (by omega)

lemma cmapFormat4Glyph_eq (h : Wellformed bytes t) {g : ℕ} (hmaps : Maps bytes t c.toNat g) :
    (cmapFormat4Glyph bytes t c).map UInt16.toNat = .ok g := by
  have hinside : t.data + t.size ≤ bytes.length := h.inside
  have hholds := h.holds
  have hsize : 16 ≤ t.size := by
    simp only [idRangeOffsets, idDeltas, startCodes, endCodes] at hholds
    omega
  rw [cmapFormat4Glyph]
  by_cases hlarge : c > 0xffff
  · -- no segment reaches beyond the 16 bits
    rw [if_pos (.inl hlarge)]
    cases hmaps with
    | missing _ => rfl
    | segment i hi hc =>
      have hend : endCode bytes t i < 2 ^ 16 := UInt16.toNat_lt _
      have hc' : 0xffff < c.toNat := UInt32.lt_iff_toNat_lt.mp hlarge
      omega
  · have hsmall : ¬(c > 0xffff ∨ t.size < 16) := by
      rintro (hc | hc)
      · exact hlarge hc
      · omega
    rw [if_neg hsmall, readU16_eq (by omega), ok_bind]
    change (if ¬rangeIsValid t.size (idRangeOffsets (segCount bytes t)) (segCount bytes t * 2) = true
      then (pure 0 : Checked UInt16)
      else cmapFormat4From bytes t (segCount bytes t) c (segCount bytes t) 0).map UInt16.toNat = _
    rw [if_neg (not_not_intro (rangeIsValid_iff.mpr hholds)), cmapFormat4From_eq h (Nat.zero_add _)]
    cases hmaps with
    | segment i hi hc => rw [scan_of_mem h.sorted hi hc (Nat.zero_le _) (by omega), Option.elim_some]
    | missing hc =>
      rw [scan_of_forall_not_mem fun j _ hj => hc j (by omega), Option.elim_none]

end Segments

/-! ### Lookup in format 12 -/

section Groups

open Format12

/-- The glyph that is answered for a number: 0 if it does not fit in 16 bits. -/
def asGlyph (g : ℕ) : ℕ := if g ≤ 65535 then g else 0

lemma toNat_ite (g : UInt32) : (if g ≤ 0xffff then g.toUInt16 else 0).toNat = asGlyph g.toNat := by
  rw [asGlyph]
  by_cases hle : g ≤ 0xffff
  · have hnat : g.toNat ≤ 65535 := UInt32.le_iff_toNat_le.mp hle
    rw [if_pos hle, if_pos hnat, UInt32.toNat_toUInt16, Nat.mod_eq_of_lt (by omega)]
  · have hnat : ¬g.toNat ≤ 65535 := fun h => hle (UInt32.le_iff_toNat_le.mpr h)
    rw [if_neg hle, if_neg hnat]
    rfl

lemma cmapFormat12From_eq (h : Wellformed bytes t) {remaining : ℕ}
    (hi : i + remaining = groupCount bytes t) :
    (cmapFormat12From bytes t c remaining i).map UInt16.toNat =
      .ok ((scan (startChar bytes t) (endChar bytes t) c.toNat remaining i).elim 0
        fun i => asGlyph (startGlyph bytes t i + (c.toNat - startChar bytes t i))) := by
  have hinside : t.data + t.size ≤ bytes.length := h.inside
  have hholds := h.holds
  induction remaining generalizing i with
  | zero => rfl
  | succ remaining ih =>
    have hlt : i < groupCount bytes t := by omega
    have hglyphs := h.glyphs i hlt
    rw [scan, cmapFormat12From, readU32_eq (by omega), ok_bind, readU32_eq (by omega), ok_bind]
    by_cases hstart : c.toNat < startChar bytes t i
    · have hbefore : c < u32At bytes (t.data + 16 + i * 12) := UInt32.lt_iff_toNat_lt.mpr hstart
      rw [if_pos hstart, if_pos hbefore]
      rfl
    · have hnotBefore : ¬c < u32At bytes (t.data + 16 + i * 12) := mt UInt32.lt_iff_toNat_lt.mp hstart
      rw [if_neg hstart, if_neg hnotBefore]
      by_cases hend : c.toNat ≤ endChar bytes t i
      · have hle : c ≤ u32At bytes (t.data + 16 + i * 12 + 4) := UInt32.le_iff_toNat_le.mpr hend
        have hglyph : (u32At bytes (t.data + 16 + i * 12 + 8) + c -
            u32At bytes (t.data + 16 + i * 12)).toNat =
            startGlyph bytes t i + (c.toNat - startChar bytes t i) := by
          have hlt32 := (u32At bytes (t.data + 16 + i * 12)).toNat_lt
          rw [UInt32.toNat_sub, UInt32.toNat_add]
          simp only [startGlyph, startChar, endChar] at hglyphs hstart hend ⊢
          omega
        rw [if_pos hend, if_pos hle, readU32_eq (by omega), ok_bind, Option.elim_some, ← hglyph]
        exact congrArg Except.ok (toNat_ite _)
      · have hnotLe : ¬c ≤ u32At bytes (t.data + 16 + i * 12 + 4) := mt UInt32.le_iff_toNat_le.mp hend
        rw [if_neg hend, if_neg hnotLe]
        exact ih (by omega)

lemma cmapFormat12Glyph_eq (h : Wellformed bytes t) {g : ℕ} (hmaps : Maps bytes t c.toNat g) :
    (cmapFormat12Glyph bytes t c).map UInt16.toNat = .ok (asGlyph g) := by
  have hinside : t.data + t.size ≤ bytes.length := h.inside
  have hholds := h.holds
  rw [cmapFormat12Glyph, if_neg (by omega), readU32_eq (by omega), ok_bind]
  change (if ¬rangeIsValid t.size 16 (groupCount bytes t * 12) = true then (pure 0 : Checked UInt16)
    else cmapFormat12From bytes t c (groupCount bytes t) 0).map UInt16.toNat = _
  rw [if_neg (not_not_intro (rangeIsValid_iff.mpr hholds)), cmapFormat12From_eq h (Nat.zero_add _)]
  cases hmaps with
  | group i hi hc => rw [scan_of_mem h.sorted hi hc (Nat.zero_le _) (by omega), Option.elim_some]
  | missing hc => rw [scan_of_forall_not_mem fun j _ hj => hc j (by omega), Option.elim_none]; rfl

end Groups

/-! ### Both formats -/

lemma Format4.Maps.lt {c g : ℕ} (h : Format4.Maps bytes t c g) : g ≤ 65535 := by
  cases h with
  | missing _ => exact Nat.zero_le _
  | segment i _ _ =>
    rw [Format4.segmentGlyph]
    have hmod : ∀ n : ℤ, (n % 65536).toNat ≤ 65535 := fun n => by omega
    split
    · exact hmod _
    · split
      · exact hmod _
      · exact Nat.zero_le _

/-- Every character has a glyph in a subtable. -/
lemma Format4.exists_maps (bytes : List UInt8) (t : TtfTable) (c : ℕ) : ∃ g, Format4.Maps bytes t c g := by
  by_cases h : ∃ i < Format4.segCount bytes t, Format4.startCode bytes t i ≤ c ∧ c ≤ Format4.endCode bytes t i
  · obtain ⟨i, hi, hc⟩ := h
    exact ⟨_, .segment i hi hc⟩
  · exact ⟨0, .missing fun i hi hc => h ⟨i, hi, hc⟩⟩

variable {font : TtfFont}

lemma glyphForCodepoint_format4 (h : Format4.Wellformed bytes font.cmapSubtable) {g : ℕ}
    (hmaps : Format4.Maps bytes font.cmapSubtable c.toNat g) :
    (glyphForCodepoint bytes font c).map UInt16.toNat = .ok g := by
  have hinside : font.cmapSubtable.data + font.cmapSubtable.size ≤ bytes.length := h.inside
  have hholds := h.holds
  have hsize : 2 ≤ font.cmapSubtable.size := by
    simp only [idRangeOffsets, idDeltas, startCodes, endCodes] at hholds
    omega
  rw [glyphForCodepoint, if_neg (by omega), readU16_eq (by omega), ok_bind, if_pos h.format]
  exact cmapFormat4Glyph_eq h hmaps

lemma glyphForCodepoint_format12 (h : Format12.Wellformed bytes font.cmapSubtable) {g : ℕ}
    (hmaps : Format12.Maps bytes font.cmapSubtable c.toNat g) :
    (glyphForCodepoint bytes font c).map UInt16.toNat = .ok (asGlyph g) := by
  have hinside : font.cmapSubtable.data + font.cmapSubtable.size ≤ bytes.length := h.inside
  have hholds := h.holds
  have hne : u16At bytes font.cmapSubtable.data ≠ 4 := by
    rw [h.format]
    decide
  rw [glyphForCodepoint, if_neg (by omega), readU16_eq (by omega), ok_bind, if_neg hne, if_pos h.format]
  exact cmapFormat12Glyph_eq h hmaps

end

/-- The lookup answers the glyph of the segment or group that contains the character, and 0 if there
is none. So subtables of the two formats that describe the same mapping give equal answers. -/
theorem glyphForCodepoint_correct {bytes₄ bytes₁₂ : List UInt8} {font₄ font₁₂ : TtfFont}
    (h₄ : Format4.Wellformed bytes₄ font₄.cmapSubtable)
    (h₁₂ : Format12.Wellformed bytes₁₂ font₁₂.cmapSubtable) :
    (∀ (c : UInt32) (g : ℕ), Format4.Maps bytes₄ font₄.cmapSubtable c.toNat g →
      (glyphForCodepoint bytes₄ font₄ c).map UInt16.toNat = .ok g) ∧
    (∀ (c : UInt32) (g : ℕ), Format12.Maps bytes₁₂ font₁₂.cmapSubtable c.toNat g →
      (glyphForCodepoint bytes₁₂ font₁₂ c).map UInt16.toNat = .ok (if g ≤ 65535 then g else 0)) ∧
    ((∀ c g : ℕ, c ≤ 0xffff → (Format4.Maps bytes₄ font₄.cmapSubtable c g ↔
        Format12.Maps bytes₁₂ font₁₂.cmapSubtable c g)) →
      ∀ c : UInt32, c ≤ 0xffff →
        (glyphForCodepoint bytes₄ font₄ c).map UInt16.toNat =
          (glyphForCodepoint bytes₁₂ font₁₂ c).map UInt16.toNat) := by
  refine ⟨fun c g hmaps => glyphForCodepoint_format4 h₄ hmaps,
    fun c g hmaps => glyphForCodepoint_format12 h₁₂ hmaps, ?_⟩
  intro hsame c hc
  obtain ⟨g, hg⟩ := Format4.exists_maps bytes₄ font₄.cmapSubtable c.toNat
  have hg' := (hsame c.toNat g (UInt32.le_iff_toNat_le.mp hc)).mp hg
  rw [glyphForCodepoint_format4 h₄ hg, glyphForCodepoint_format12 h₁₂ hg', asGlyph, if_pos hg.lt]

/-- A font of which only the subtable of the character map is given. -/
def fontWithSubtable (t : TtfTable) : TtfFont :=
  { cmap := t, glyf := t, head := t, hhea := t, hmtx := t, loca := t, maxp := t, os2 := t,
    cmapSubtable := t, numGlyphs := 9, numberOfHmetrics := 1, unitsPerEm := 1, ascent := 0,
    descent := 0, lineGap := 0, typoAscent := 0, typoDescent := 0, typoLineGap := 0,
    indexToLocFormat := 0 }

/-- `A` and `B` have the glyphs 7 and 8, from an array behind the segments. -/
def twoSegments : List UInt8 :=
  [0, 4, 0, 36, 0, 0, 0, 4, 0, 0, 0, 0, 0, 0] ++
  [0, 66, 255, 255] ++ [0, 0] ++ [0, 65, 255, 255] ++ [0, 0, 0, 1] ++ [0, 4, 0, 0] ++ [0, 7, 0, 8]

/-- The same mapping in one group. -/
def oneGroup : List UInt8 :=
  [0, 12, 0, 0, 0, 0, 0, 28, 0, 0, 0, 0, 0, 0, 0, 1] ++
  [0, 0, 0, 65, 0, 0, 0, 66, 0, 0, 0, 7]

lemma twoSegments_wellformed : Format4.Wellformed twoSegments ⟨0, 36⟩ where
  inside := show 0 + 36 ≤ twoSegments.length by decide
  format := by decide
  holds := by decide
  sorted := by
    have hcount : Format4.segCount twoSegments ⟨0, 36⟩ = 2 := by decide
    constructor
    · decide
    · intro i j hij hj
      obtain ⟨rfl, rfl⟩ : i = 0 ∧ j = 1 := by omega
      decide
    · intro i j hij hj
      obtain ⟨rfl, rfl⟩ : i = 0 ∧ j = 1 := by omega
      rw [Set.disjoint_left]
      intro c hc hc'
      have hend : Format4.endCode twoSegments ⟨0, 36⟩ 0 = 66 := by decide
      have hstart : Format4.startCode twoSegments ⟨0, 36⟩ 1 = 65535 := by decide
      rw [Set.mem_Icc] at hc hc'
      omega

lemma oneGroup_wellformed : Format12.Wellformed oneGroup ⟨0, 28⟩ where
  inside := show 0 + 28 ≤ oneGroup.length by decide
  format := by decide
  holds := by decide
  sorted := by
    have hcount : Format12.groupCount oneGroup ⟨0, 28⟩ = 1 := by decide
    constructor
    · decide
    · omega
    · omega
  glyphs := by decide

theorem glyphForCodepoint_correct_letter :
    Format4.Wellformed twoSegments (fontWithSubtable ⟨0, 36⟩).cmapSubtable ∧
    Format12.Wellformed oneGroup (fontWithSubtable ⟨0, 28⟩).cmapSubtable ∧
    (glyphForCodepoint twoSegments (fontWithSubtable ⟨0, 36⟩) 66).map UInt16.toNat = .ok 8 ∧
    (glyphForCodepoint oneGroup (fontWithSubtable ⟨0, 28⟩) 66).map UInt16.toNat = .ok 8 := by
  have h₄ : Format4.Wellformed twoSegments (fontWithSubtable ⟨0, 36⟩).cmapSubtable :=
    twoSegments_wellformed
  have h₁₂ : Format12.Wellformed oneGroup (fontWithSubtable ⟨0, 28⟩).cmapSubtable :=
    oneGroup_wellformed
  obtain ⟨hlookup₄, hlookup₁₂, -⟩ := glyphForCodepoint_correct h₄ h₁₂
  refine ⟨h₄, h₁₂, ?_, ?_⟩
  · have hglyph : Format4.segmentGlyph twoSegments ⟨0, 36⟩ 0 66 = 8 := by decide
    rw [hlookup₄ 66 _ (.segment 0 (by decide) (by decide))]
    exact congrArg Except.ok hglyph
  · rw [hlookup₁₂ 66 _ (.group 0 (by decide) (by decide))]
    decide

end Xbks
