import Xbks.Drivers.FontTtf

/-!
# The font parser stays inside the font

One lemma for each function of the parser: it commits no fault, and what it answers is as large as
the functions after it rely on.
-/

namespace Xbks

open Checked

variable {bytes : List UInt8}

/-! ### Numbers -/

variable {i size offset length : ℕ}

lemma rangeIsValid_iff : rangeIsValid size offset length = true ↔ offset + length ≤ size := by
  rw [rangeIsValid, decide_eq_true_eq]
  omega

lemma safe_readU16 (h : i + 2 ≤ bytes.length) : Safe (readU16 bytes i) fun _ => True := by
  refine (safe_byteAt (by omega)).bind fun hi _ => ?_
  refine (safe_byteAt (by omega)).bind fun lo _ => ?_
  exact safe_pure trivial

lemma safe_readS16 (h : i + 2 ≤ bytes.length) : Safe (readS16 bytes i) fun _ => True :=
  (safe_readU16 h).bind fun _ _ => safe_pure trivial

lemma safe_readU32 (h : i + 4 ≤ bytes.length) : Safe (readU32 bytes i) fun _ => True := by
  refine (safe_byteAt (by omega)).bind fun b₀ _ => ?_
  refine (safe_byteAt (by omega)).bind fun b₁ _ => ?_
  refine (safe_byteAt (by omega)).bind fun b₂ _ => ?_
  refine (safe_byteAt (by omega)).bind fun b₃ _ => ?_
  exact safe_pure trivial

/-! ### Tables -/

/-- The table lies in the font. -/
def TtfTable.Inside (bytes : List UInt8) (t : TtfTable) : Prop := t.data + t.size ≤ bytes.length

lemma safe_getTableFrom {tag : UInt32} {remaining : ℕ}
    (h : 12 + (i + remaining) * 16 ≤ bytes.length) :
    Safe (getTableFrom bytes tag remaining i) (TtfTable.Inside bytes) := by
  induction remaining generalizing i with
  | zero => exact safe_refuse
  | succ remaining ih =>
    refine (safe_readU32 (by omega)).bind fun recordTag _ => ?_
    refine (safe_readU32 (by omega)).bind fun offset _ => ?_
    refine (safe_readU32 (by omega)).bind fun length _ => ?_
    refine safe_ite (fun _ => ?_) fun _ => ih (by omega)
    refine (safe_require _).bind fun _ hvalid => safe_pure ?_
    exact rangeIsValid_iff.mp hvalid

lemma safe_getTable (tag : UInt32) : Safe (getTable bytes tag) (TtfTable.Inside bytes) := by
  refine (safe_require _).bind fun _ hheader => ?_
  rw [rangeIsValid_iff] at hheader
  refine (safe_readU16 (by omega)).bind fun tableCount _ => ?_
  refine (safe_require _).bind fun _ hrecords => ?_
  rw [rangeIsValid_iff] at hrecords
  exact safe_getTableFrom (by omega)

variable {cmap : TtfTable}

lemma safe_subtableLength (hcmap : cmap.Inside bytes) (offset : ℕ) :
    Safe (subtableLength bytes cmap offset) fun _ => True := by
  rw [TtfTable.Inside] at hcmap
  refine safe_ite (fun _ => safe_pure trivial) fun hformat => ?_
  rw [not_not, rangeIsValid_iff] at hformat
  refine (safe_readU16 (by omega)).bind fun format _ => ?_
  refine safe_ite (fun _ => ?_) fun _ => ?_
  · refine safe_ite (fun _ => safe_pure trivial) fun hlength => ?_
    rw [not_not, rangeIsValid_iff] at hlength
    exact (safe_readU16 (by omega)).bind fun _ _ => safe_pure trivial
  · refine safe_ite (fun _ => ?_) fun _ => safe_pure trivial
    refine safe_ite (fun _ => safe_pure trivial) fun hlength => ?_
    rw [not_not, rangeIsValid_iff] at hlength
    exact (safe_readU32 (by omega)).bind fun _ _ => safe_pure trivial

lemma safe_selectCmapSubtableFrom {remaining : ℕ} {fallback : Option TtfTable}
    (hcmap : cmap.Inside bytes) (h : 4 + (i + remaining) * 8 ≤ cmap.size)
    (hfallback : ∀ t ∈ fallback, t.Inside bytes) :
    Safe (selectCmapSubtableFrom bytes cmap remaining i fallback) (TtfTable.Inside bytes) := by
  have hinside : cmap.data + cmap.size ≤ bytes.length := hcmap
  induction remaining generalizing i fallback with
  | zero =>
    cases fallback with
    | none => exact safe_refuse
    | some t => exact safe_pure (hfallback t rfl)
  | succ remaining ih =>
    refine (safe_readU16 (by omega)).bind fun platform _ => ?_
    refine (safe_readU16 (by omega)).bind fun encoding _ => ?_
    refine (safe_readU32 (by omega)).bind fun offset _ => ?_
    refine (safe_subtableLength hcmap _).bind fun length _ => ?_
    cases length with
    | none => exact ih (by omega) hfallback
    | some length =>
      refine safe_ite (fun _ => ih (by omega) hfallback) fun hvalid => ?_
      rw [not_not, rangeIsValid_iff] at hvalid
      have hsubtable : TtfTable.Inside bytes ⟨cmap.data + offset.toNat, length⟩ := by
        dsimp only [TtfTable.Inside]
        omega
      refine safe_ite (fun _ => safe_pure hsubtable) fun _ => ih (by omega) fun t ht => ?_
      cases fallback with
      | none =>
        cases ht
        exact hsubtable
      | some fallback =>
        cases ht
        exact hfallback _ rfl

lemma safe_selectCmapSubtable (hcmap : cmap.Inside bytes) :
    Safe (selectCmapSubtable bytes cmap) (TtfTable.Inside bytes) := by
  have hinside : cmap.data + cmap.size ≤ bytes.length := hcmap
  refine (safe_require _).bind fun _ hheader => ?_
  rw [rangeIsValid_iff] at hheader
  refine (safe_readU16 (by omega)).bind fun subtableCount _ => ?_
  refine (safe_require _).bind fun _ hrecords => ?_
  rw [rangeIsValid_iff] at hrecords
  exact safe_selectCmapSubtableFrom hcmap (by omega) nofun

/-- What the functions on an accepted font rely on. -/
structure TtfFont.Valid (bytes : List UInt8) (font : TtfFont) : Prop where
  glyf : font.glyf.Inside bytes
  hmtx : font.hmtx.Inside bytes
  loca : font.loca.Inside bytes
  subtable : font.cmapSubtable.Inside bytes
  metrics : font.numberOfHmetrics ≠ 0
  widths : font.numberOfHmetrics.toNat * 4 ≤ font.hmtx.size
  locations : (font.numGlyphs.toNat + 1) * (if font.indexToLocFormat = 0 then 2 else 4) ≤ font.loca.size

lemma safe_readTypoMetrics {os2 : TtfTable} (h : os2.Inside bytes) :
    Safe (readTypoMetrics bytes os2) fun _ => True := by
  rw [TtfTable.Inside] at h
  refine safe_ite (fun hsize => ?_) fun _ => safe_pure trivial
  refine (safe_readS16 (by omega)).bind fun _ _ => ?_
  refine (safe_readS16 (by omega)).bind fun _ _ => ?_
  exact (safe_readS16 (by omega)).bind fun _ _ => safe_pure trivial

theorem safe_parseTtf (bytes : List UInt8) : Safe (parseTtf bytes) (TtfFont.Valid bytes) := by
  refine (safe_require _).bind fun _ hheader => ?_
  rw [rangeIsValid_iff] at hheader
  refine (safe_readU32 (by omega)).bind fun scalerType _ => ?_
  refine (safe_require _).bind fun _ _ => ?_
  refine (safe_getTable _).bind fun cmap hcmap => ?_
  refine (safe_getTable _).bind fun glyf hglyf => ?_
  refine (safe_getTable _).bind fun head hhead => ?_
  refine (safe_getTable _).bind fun hhea hhhea => ?_
  refine (safe_getTable _).bind fun hmtx hhmtx => ?_
  refine (safe_getTable _).bind fun loca hloca => ?_
  refine (safe_getTable _).bind fun maxp hmaxp => ?_
  refine ((safe_getTable _).orDefault (Nat.zero_le _)).bind fun os2 hos2 => ?_
  refine (safe_require _).bind fun _ hsizes => ?_
  rw [decide_eq_true_eq] at hsizes
  have hhead : head.data + head.size ≤ bytes.length := hhead
  have hhhea : hhea.data + hhea.size ≤ bytes.length := hhhea
  have hmaxp : maxp.data + maxp.size ≤ bytes.length := hmaxp
  refine (safe_readU16 (by omega)).bind fun unitsPerEm _ => ?_
  refine (safe_readS16 (by omega)).bind fun indexToLocFormat _ => ?_
  refine (safe_readS16 (by omega)).bind fun ascent _ => ?_
  refine (safe_readS16 (by omega)).bind fun descent _ => ?_
  refine (safe_readS16 (by omega)).bind fun lineGap _ => ?_
  refine (safe_readU16 (by omega)).bind fun numberOfHmetrics _ => ?_
  refine (safe_readU16 (by omega)).bind fun numGlyphs _ => ?_
  refine (safe_readTypoMetrics hos2).bind fun typo _ => ?_
  refine (safe_require _).bind fun _ hvalues => ?_
  refine (safe_require _).bind fun _ htables => ?_
  rw [decide_eq_true_eq] at hvalues htables
  refine (safe_selectCmapSubtable hcmap).bind fun cmapSubtable hsubtable => ?_
  exact safe_pure
    { glyf := hglyf
      hmtx := hhmtx
      loca := hloca
      subtable := hsubtable
      metrics := hvalues.2.2.1
      widths := htables.2
      locations := htables.1 }

/-! ### Characters -/

variable {subtable : TtfTable} {codepoint : UInt32}

lemma safe_cmapFormat4From {segCount remaining : ℕ} (hsubtable : subtable.Inside bytes)
    (hsize : idRangeOffsets segCount + segCount * 2 ≤ subtable.size) (h : i + remaining ≤ segCount) :
    Safe (cmapFormat4From bytes subtable segCount codepoint remaining i) fun _ => True := by
  have hinside : subtable.data + subtable.size ≤ bytes.length := hsubtable
  have hends : endCodes = 14 := rfl
  have hstarts : startCodes segCount = endCodes + segCount * 2 + 2 := rfl
  have hdeltas : idDeltas segCount = startCodes segCount + segCount * 2 := rfl
  have hoffsets : idRangeOffsets segCount = idDeltas segCount + segCount * 2 := rfl
  induction remaining generalizing i with
  | zero => exact safe_pure trivial
  | succ remaining ih =>
    refine (safe_readU16 (by omega)).bind fun endCode _ => ?_
    refine (safe_readU16 (by omega)).bind fun startCode _ => ?_
    refine safe_ite (fun _ => safe_pure trivial) fun _ => ?_
    refine safe_ite (fun _ => ih (by omega)) fun _ => ?_
    refine (safe_readS16 (by omega)).bind fun delta _ => ?_
    refine (safe_readU16 (by omega)).bind fun rangeOffset _ => ?_
    refine safe_ite (fun _ => safe_pure trivial) fun _ => ?_
    refine safe_ite (fun _ => safe_pure trivial) fun hvalid => ?_
    rw [not_not, rangeIsValid_iff] at hvalid
    exact (safe_readU16 (by omega)).bind fun _ _ => safe_pure trivial

lemma safe_cmapFormat4Glyph (hsubtable : subtable.Inside bytes) (codepoint : UInt32) :
    Safe (cmapFormat4Glyph bytes subtable codepoint) fun _ => True := by
  have hinside : subtable.data + subtable.size ≤ bytes.length := hsubtable
  refine safe_ite (fun _ => safe_pure trivial) fun hsize => ?_
  refine (safe_readU16 (by omega)).bind fun segCountX2 _ => ?_
  refine safe_ite (fun _ => safe_pure trivial) fun hvalid => ?_
  rw [not_not, rangeIsValid_iff] at hvalid
  exact safe_cmapFormat4From hsubtable hvalid (by omega)

lemma safe_cmapFormat12From {remaining : ℕ} (hsubtable : subtable.Inside bytes)
    (h : 16 + (i + remaining) * 12 ≤ subtable.size) :
    Safe (cmapFormat12From bytes subtable codepoint remaining i) fun _ => True := by
  have hinside : subtable.data + subtable.size ≤ bytes.length := hsubtable
  induction remaining generalizing i with
  | zero => exact safe_pure trivial
  | succ remaining ih =>
    refine (safe_readU32 (by omega)).bind fun startChar _ => ?_
    refine (safe_readU32 (by omega)).bind fun endChar _ => ?_
    refine safe_ite (fun _ => safe_pure trivial) fun _ => ?_
    refine safe_ite (fun _ => ?_) fun _ => ih (by omega)
    exact (safe_readU32 (by omega)).bind fun _ _ => safe_pure trivial

lemma safe_cmapFormat12Glyph (hsubtable : subtable.Inside bytes) (codepoint : UInt32) :
    Safe (cmapFormat12Glyph bytes subtable codepoint) fun _ => True := by
  have hinside : subtable.data + subtable.size ≤ bytes.length := hsubtable
  refine safe_ite (fun _ => safe_pure trivial) fun hsize => ?_
  refine (safe_readU32 (by omega)).bind fun groupCount _ => ?_
  refine safe_ite (fun _ => safe_pure trivial) fun hvalid => ?_
  rw [not_not, rangeIsValid_iff] at hvalid
  exact safe_cmapFormat12From hsubtable (by omega)

variable {font : TtfFont}

theorem safe_glyphForCodepoint (hfont : font.Valid bytes) (codepoint : UInt32) :
    Safe (glyphForCodepoint bytes font codepoint) fun _ => True := by
  have hinside : font.cmapSubtable.data + font.cmapSubtable.size ≤ bytes.length := hfont.subtable
  refine safe_ite (fun _ => safe_pure trivial) fun hsize => ?_
  refine (safe_readU16 (by omega)).bind fun format _ => ?_
  refine safe_ite (fun _ => safe_cmapFormat4Glyph hfont.subtable codepoint) fun _ => ?_
  exact safe_ite (fun _ => safe_cmapFormat12Glyph hfont.subtable codepoint) fun _ => safe_pure trivial

/-! ### Glyphs -/

variable {glyph : UInt16}

lemma safe_glyphLocation (hfont : font.Valid bytes) (h : glyph < font.numGlyphs) :
    Safe (glyphLocation bytes font glyph) fun _ => True := by
  have hinside : font.loca.data + font.loca.size ≤ bytes.length := hfont.loca
  have hlocations := hfont.locations
  have hlt := UInt16.lt_iff_toNat_lt.mp h
  refine safe_ite (fun hshort => ?_) fun hlong => ?_
  · rw [if_pos hshort] at hlocations
    refine (safe_readU16 (by omega)).bind fun start _ => ?_
    exact (safe_readU16 (by omega)).bind fun _ _ => safe_pure trivial
  · rw [if_neg hlong] at hlocations
    refine (safe_readU32 (by omega)).bind fun start _ => ?_
    exact (safe_readU32 (by omega)).bind fun _ _ => safe_pure trivial

lemma safe_glyphBounds (hfont : font.Valid bytes) (glyph : UInt16) :
    Safe (glyphBounds bytes font glyph) fun bounds =>
      font.glyf.data + bounds.1 + bounds.2 ≤ bytes.length := by
  have hinside : font.glyf.data + font.glyf.size ≤ bytes.length := hfont.glyf
  refine (safe_require _).bind fun _ hglyph => ?_
  refine (safe_glyphLocation hfont (of_decide_eq_true hglyph)).bind fun location _ => ?_
  refine (safe_require _).bind fun _ hvalid => safe_pure ?_
  rw [decide_eq_true_eq, rangeIsValid_iff] at hvalid
  dsimp only
  omega

lemma safe_glyphAdvance (hfont : font.Valid bytes) (glyph : UInt16) :
    Safe (glyphAdvance bytes font glyph) fun _ => True := by
  have hinside : font.hmtx.data + font.hmtx.size ≤ bytes.length := hfont.hmtx
  have hwidths := hfont.widths
  have hmetrics : font.numberOfHmetrics.toNat ≠ 0 := fun h => hfont.metrics (UInt16.toNat_inj.mp h)
  refine safe_ite (fun hlt => ?_) fun _ => safe_readS16 (by omega)
  rw [UInt16.lt_iff_toNat_lt] at hlt
  exact safe_readS16 (by omega)

/-! ### Outlines -/

/-- The counts are below the capacities, and every cell has been written. -/
structure GlyphOutline.Valid (outline : GlyphOutline) : Prop where
  pointCount : outline.pointCount ≤ 384
  contourCount : outline.contourCount ≤ 64
  points : Cells.Filled outline.points 384
  contours : Cells.Filled outline.contours 64

variable {outline dest src : GlyphOutline} {dx dy : ℤ}

lemma GlyphOutline.valid_zero (advanceWidth : ℤ) :
    GlyphOutline.Valid { GlyphOutline.zero with advanceWidth := advanceWidth } where
  pointCount := Nat.zero_le _
  contourCount := Nat.zero_le _
  points _ _ := Option.some_ne_none _
  contours _ _ := Option.some_ne_none _

lemma safe_appendPoint (h : dest.Valid) (x y : ℤ) (onCurve : Bool) :
    Safe (appendPoint dest x y onCurve) fun dest' => dest'.Valid ∧
      dest'.pointCount = dest.pointCount + 1 ∧ dest'.contourCount = dest.contourCount := by
  refine (safe_require _).bind fun _ hcount => ?_
  rw [decide_eq_true_eq] at hcount
  refine (h.points.set hcount _).bind fun points hpoints => safe_pure ⟨?_, rfl, rfl⟩
  exact { h with pointCount := hcount, points := hpoints }

lemma safe_appendPointsFrom {remaining : ℕ} (hsrc : src.Valid) (hdest : dest.Valid)
    (h : i + remaining ≤ src.pointCount) :
    Safe (appendPointsFrom src dx dy remaining i dest) fun dest' => dest'.Valid ∧
      dest'.contourCount = dest.contourCount := by
  induction remaining generalizing i dest with
  | zero => exact safe_pure ⟨hdest, rfl⟩
  | succ remaining ih =>
    have hcount := hsrc.pointCount
    refine (hsrc.points.get (by omega) (by omega)).bind fun point _ => ?_
    refine (safe_appendPoint hdest _ _ _).bind fun dest₁ hdest₁ => ?_
    refine (ih hdest₁.1 (by omega)).mono fun dest₂ hdest₂ => ⟨hdest₂.1, ?_⟩
    rw [hdest₂.2, hdest₁.2.2]

lemma safe_appendContoursFrom {remaining pointBase : ℕ} (hsrc : src.Valid) (hdest : dest.Valid)
    (h : i + remaining ≤ src.contourCount) (hroom : dest.contourCount + remaining ≤ 64) :
    Safe (appendContoursFrom src pointBase remaining i dest) GlyphOutline.Valid := by
  induction remaining generalizing i dest with
  | zero => exact safe_pure hdest
  | succ remaining ih =>
    have hcount := hsrc.contourCount
    refine (hsrc.contours.get (by omega) (by omega)).bind fun contour _ => ?_
    refine (hdest.contours.set (by omega) _).bind fun contours hcontours => ?_
    refine ih { hdest with contourCount := ?_, contours := hcontours } (by omega) ?_
    · dsimp only
      omega
    · dsimp only
      omega

/-- Only the bounds are changed. -/
lemma appendBounds_eq (dest src : GlyphOutline) (dx dy : ℤ) : ∃ xMin yMin xMax yMax hasBounds,
    appendBounds dest src dx dy =
      { dest with xMin := xMin, yMin := yMin, xMax := xMax, yMax := yMax, hasBounds := hasBounds } := by
  rw [appendBounds]
  by_cases hsrc : ¬src.hasBounds
  · rw [if_pos hsrc]
    exact ⟨_, _, _, _, _, rfl⟩
  · rw [if_neg hsrc]
    by_cases hdest : ¬dest.hasBounds
    · rw [if_pos hdest]
      exact ⟨_, _, _, _, _, rfl⟩
    · rw [if_neg hdest]
      exact ⟨_, _, _, _, _, rfl⟩

lemma GlyphOutline.Valid.appendBounds (h : dest.Valid) (src : GlyphOutline) (dx dy : ℤ) :
    (appendBounds dest src dx dy).Valid := by
  obtain ⟨xMin, yMin, xMax, yMax, hasBounds, heq⟩ := appendBounds_eq dest src dx dy
  rw [heq]
  exact { h with }

lemma safe_appendOutline (hdest : dest.Valid) (hsrc : src.Valid) (dx dy : ℤ) :
    Safe (appendOutline dest src dx dy) GlyphOutline.Valid := by
  refine (safe_require _).bind fun _ hroom => ?_
  rw [decide_eq_true_eq] at hroom
  refine (safe_appendPointsFrom hsrc hdest (by omega)).bind fun dest₁ hdest₁ => ?_
  refine (safe_appendContoursFrom hsrc hdest₁.1 (by omega) ?_).bind fun dest₂ hdest₂ => ?_
  · rw [hdest₁.2]
    exact hroom.2
  · exact safe_pure (hdest₂.appendBounds src dx dy)

/-! ### Simple outlines -/

variable {glyphData glyphSize cursor : ℕ}

lemma safe_readBounds (hfont : font.Valid bytes) (houtline : outline.Valid)
    (h : glyphData + 10 ≤ bytes.length) :
    Safe (readBounds bytes font glyph glyphData outline) GlyphOutline.Valid := by
  refine (safe_readS16 (by omega)).bind fun xMin _ => ?_
  refine (safe_readS16 (by omega)).bind fun yMin _ => ?_
  refine (safe_readS16 (by omega)).bind fun xMax _ => ?_
  refine (safe_readS16 (by omega)).bind fun yMax _ => ?_
  refine (safe_glyphAdvance hfont glyph).bind fun advanceWidth _ => ?_
  exact safe_pure { houtline with }

lemma safe_checkIncreasing {endPoints : Cells 64 UInt16} (h : Cells.Filled endPoints (i + 1))
    (hi : i < 64) : Safe (checkIncreasing endPoints i) fun _ => True := by
  refine safe_ite (fun _ => ?_) fun _ => safe_pure trivial
  refine (h.get (by omega) hi).bind fun point _ => ?_
  refine (h.get (by omega) (by omega)).bind fun previous _ => ?_
  exact (safe_require _).mono fun _ _ => trivial

lemma safe_endPointsFrom {remaining : ℕ} {endPoints : Cells 64 UInt16} {lastPoint : UInt16}
    (hends : Cells.Filled endPoints i) (hcount : i + remaining ≤ 64)
    (h : glyphData + cursor + (i + remaining) * 2 ≤ bytes.length) :
    Safe (endPointsFrom bytes glyphData cursor remaining i endPoints lastPoint) fun ends =>
      Cells.Filled ends.1 (i + remaining) := by
  induction remaining generalizing i endPoints lastPoint with
  | zero => exact safe_pure hends
  | succ remaining ih =>
    refine (safe_readU16 (by omega)).bind fun point _ => ?_
    refine (hends.set_next (by omega) point).bind fun endPoints' hends' => ?_
    refine (safe_checkIncreasing hends' (by omega)).bind fun _ _ => ?_
    refine (hends'.get (by omega) (by omega)).bind fun lastPoint' _ => ?_
    refine (ih hends' (by omega) (by omega)).mono fun ends hends => ?_
    exact hends.mono (by omega)

variable {pointCount flagIndex : ℕ} {flags : Cells 384 UInt8}

lemma safe_repeatFlag {flag : UInt8} {count : ℕ} (hflags : Cells.Filled flags flagIndex)
    (hindex : flagIndex ≤ pointCount) (hcount : pointCount ≤ 384) :
    Safe (repeatFlag pointCount flag count flagIndex flags) fun rest =>
      flagIndex ≤ rest.2.1 ∧ rest.2.1 ≤ pointCount ∧ Cells.Filled rest.2.2 rest.2.1 := by
  induction count generalizing flagIndex flags with
  | zero => exact safe_pure ⟨le_rfl, hindex, hflags⟩
  | succ count ih =>
    refine safe_ite (fun hlt => ?_) fun _ => safe_pure ⟨le_rfl, hindex, hflags⟩
    refine (hflags.set_next (by omega) flag).bind fun flags' hflags' => ?_
    exact (ih hflags' (by omega)).mono fun rest hrest => ⟨by omega, hrest.2⟩

/-- Every round of the loop stores at least one flag. -/
lemma safe_flagsFrom {fuel : ℕ} (hflags : Cells.Filled flags flagIndex)
    (hindex : flagIndex ≤ pointCount) (hcount : pointCount ≤ 384) (hfuel : pointCount - flagIndex < fuel)
    (h : glyphData + glyphSize ≤ bytes.length) :
    Safe (flagsFrom bytes glyphData glyphSize pointCount fuel flagIndex cursor flags) fun rest =>
      Cells.Filled rest.2 pointCount := by
  induction fuel generalizing flagIndex cursor flags with
  | zero => exact absurd hfuel (Nat.not_lt_zero _)
  | succ fuel ih =>
    refine safe_ite (fun hlt => ?_) fun hge => safe_pure (hflags.mono (by omega))
    refine (safe_require _).bind fun _ hvalid => ?_
    rw [rangeIsValid_iff] at hvalid
    refine (safe_byteAt (by omega)).bind fun flag _ => ?_
    refine (hflags.set_next (by omega) flag).bind fun flags₁ hflags₁ => ?_
    refine safe_ite (fun _ => ?_) fun _ => ih hflags₁ (by omega) (by omega)
    refine (safe_require _).bind fun _ hvalid₁ => ?_
    rw [rangeIsValid_iff] at hvalid₁
    refine (safe_byteAt (by omega)).bind fun count _ => ?_
    refine (safe_repeatFlag hflags₁ (by omega) hcount).bind fun rest hrest => ?_
    refine (safe_require _).bind fun _ _ => ?_
    exact ih hrest.2.2 hrest.2.1 (by omega)

lemma safe_readDelta {shortVector sameOrPositive flag : UInt8}
    (h : glyphData + glyphSize ≤ bytes.length) :
    Safe (readDelta bytes glyphData glyphSize shortVector sameOrPositive flag cursor)
      fun _ => True := by
  refine safe_ite (fun _ => ?_) fun _ => safe_ite (fun _ => ?_) fun _ => safe_pure trivial
  · refine (safe_require _).bind fun _ hvalid => ?_
    rw [rangeIsValid_iff] at hvalid
    exact (safe_byteAt (by omega)).bind fun _ _ => safe_pure trivial
  · refine (safe_require _).bind fun _ hvalid => ?_
    rw [rangeIsValid_iff] at hvalid
    exact (safe_readS16 (by omega)).bind fun _ _ => safe_pure trivial

lemma safe_coordinatesFrom {shortVector sameOrPositive : UInt8} {remaining : ℕ} {value : ℤ}
    {store : ℤ → UInt8 → GlyphPoint → GlyphPoint} {points : Cells 384 GlyphPoint}
    (hflags : Cells.Filled flags (i + remaining)) (hpoints : Cells.Filled points 384)
    (hcount : i + remaining ≤ 384) (h : glyphData + glyphSize ≤ bytes.length) :
    Safe (coordinatesFrom bytes glyphData glyphSize shortVector sameOrPositive store flags
      remaining i cursor value points) fun rest => Cells.Filled rest.2 384 := by
  induction remaining generalizing i cursor value points with
  | zero => exact safe_pure hpoints
  | succ remaining ih =>
    refine (hflags.get (by omega) (by omega)).bind fun flag _ => ?_
    refine (safe_readDelta h).bind fun delta _ => ?_
    refine (hpoints.get (by omega) (by omega)).bind fun point _ => ?_
    refine (hpoints.set (by omega) _).bind fun points' hpoints' => ?_
    exact ih (hflags.mono (by omega)) hpoints' (by omega)

lemma safe_copyContoursFrom {remaining : ℕ} {endPoints contours : Cells 64 UInt16}
    (hends : Cells.Filled endPoints (i + remaining)) (hcontours : Cells.Filled contours 64)
    (hcount : i + remaining ≤ 64) :
    Safe (copyContoursFrom endPoints remaining i contours) fun contours' =>
      Cells.Filled contours' 64 := by
  induction remaining generalizing i contours with
  | zero => exact safe_pure hcontours
  | succ remaining ih =>
    refine (hends.get (by omega) (by omega)).bind fun point _ => ?_
    refine (hcontours.set (by omega) point).bind fun contours' hcontours' => ?_
    exact ih (hends.mono (by omega)) hcontours' (by omega)

lemma safe_loadSimpleOutline (hfont : font.Valid bytes) (houtline : outline.Valid)
    (h : glyphData + glyphSize ≤ bytes.length) :
    Safe (loadSimpleOutline bytes font glyph glyphData glyphSize outline) GlyphOutline.Valid := by
  refine (safe_require _).bind fun _ hheader => ?_
  rw [decide_eq_true_eq] at hheader
  refine (safe_readS16 (by omega)).bind fun contourCount _ => ?_
  refine (safe_require _).bind fun _ hcontours => ?_
  rw [decide_eq_true_eq] at hcontours
  have hcontourCount : contourCount.toNat ≤ 64 := Int.toNat_le.mpr hcontours.2
  refine (safe_readBounds hfont houtline (by omega)).bind fun outline₁ houtline₁ => ?_
  refine safe_ite (fun _ => safe_pure houtline₁) fun _ => ?_
  refine (safe_require _).bind fun _ hends => ?_
  rw [rangeIsValid_iff] at hends
  refine (safe_endPointsFrom Cells.filled_zero (by omega) (by omega)).bind fun ends hfilled => ?_
  rw [Nat.zero_add] at hfilled
  refine (safe_require _).bind fun _ hpoints => ?_
  have hpoints : ends.2.toNat + 1 ≤ 384 := of_decide_eq_true hpoints
  refine (safe_require _).bind fun _ hlength => ?_
  rw [rangeIsValid_iff] at hlength
  refine (safe_readU16 (by omega)).bind fun instructionLength _ => ?_
  refine (safe_require _).bind fun _ _ => ?_
  refine (safe_flagsFrom Cells.filled_zero (Nat.zero_le _) hpoints (by omega) h).bind
    fun flags hflags => ?_
  rw [← Nat.zero_add (ends.2.toNat + 1)] at hflags
  refine (safe_coordinatesFrom hflags houtline₁.points (by omega) h).bind fun xs hxs => ?_
  refine (safe_coordinatesFrom hflags hxs (by omega) h).bind fun ys hys => ?_
  rw [← Nat.zero_add contourCount.toNat] at hfilled
  refine (safe_copyContoursFrom hfilled houtline₁.contours (by omega)).bind
    fun contours hcontours' => ?_
  exact safe_pure ⟨hpoints, hcontourCount, hys, hcontours'⟩

/-! ### Composite outlines -/

variable {compFlags : UInt16} {load : UInt16 → Checked GlyphOutline}

lemma safe_readArgs (h : glyphData + glyphSize ≤ bytes.length) :
    Safe (readArgs bytes glyphData glyphSize compFlags cursor) fun args => cursor ≤ args.2.2 := by
  refine safe_ite (fun _ => ?_) fun _ => ?_
  · refine (safe_require _).bind fun _ hvalid => ?_
    rw [rangeIsValid_iff] at hvalid
    refine (safe_readS16 (by omega)).bind fun arg1 _ => ?_
    exact (safe_readS16 (by omega)).bind fun arg2 _ => safe_pure (Nat.le_add_right _ _)
  · refine (safe_require _).bind fun _ hvalid => ?_
    rw [rangeIsValid_iff] at hvalid
    refine (safe_byteAt (by omega)).bind fun arg1 _ => ?_
    exact (safe_byteAt (by omega)).bind fun arg2 _ => safe_pure (Nat.le_add_right _ _)

lemma safe_skipScale : Safe (skipScale glyphSize compFlags cursor) fun cursor' => cursor ≤ cursor' := by
  refine safe_ite (fun _ => ?_) fun _ => safe_ite (fun _ => ?_) fun _ => safe_ite (fun _ => ?_) fun _ => ?_
  · exact (safe_require _).bind fun _ _ => safe_pure (Nat.le_add_right _ _)
  · exact (safe_require _).bind fun _ _ => safe_pure (Nat.le_add_right _ _)
  · exact (safe_require _).bind fun _ _ => safe_pure (Nat.le_add_right _ _)
  · exact safe_pure le_rfl

/-- Every round of the loop moves the cursor, which stays inside the glyph. -/
lemma safe_componentsFrom {fuel : ℕ} (hload : ∀ glyph, Safe (load glyph) GlyphOutline.Valid)
    (houtline : outline.Valid) (hfuel : glyphSize - cursor < fuel)
    (h : glyphData + glyphSize ≤ bytes.length) :
    Safe (componentsFrom bytes load glyphData glyphSize fuel cursor outline) fun last =>
      last.2.2.Valid := by
  induction fuel generalizing cursor outline with
  | zero => exact absurd hfuel (Nat.not_lt_zero _)
  | succ fuel ih =>
    refine (safe_require _).bind fun _ hvalid => ?_
    rw [rangeIsValid_iff] at hvalid
    refine (safe_readU16 (by omega)).bind fun flags _ => ?_
    refine (safe_readU16 (by omega)).bind fun componentGlyph _ => ?_
    refine (safe_readArgs h).bind fun args hargs => ?_
    refine safe_skipScale.bind fun cursor' hcursor' => ?_
    refine (hload componentGlyph).bind fun component hcomponent => ?_
    refine (safe_appendOutline houtline hcomponent _ _).bind fun outline' houtline' => ?_
    exact safe_ite (fun _ => ih houtline' (by omega)) fun _ => safe_pure houtline'

lemma safe_checkInstructions (h : glyphData + glyphSize ≤ bytes.length) :
    Safe (checkInstructions bytes glyphData glyphSize compFlags cursor) fun _ => True := by
  refine safe_ite (fun _ => ?_) fun _ => safe_pure trivial
  refine (safe_require _).bind fun _ hvalid => ?_
  rw [rangeIsValid_iff] at hvalid
  refine (safe_readU16 (by omega)).bind fun _ _ => ?_
  exact (safe_require _).mono fun _ _ => trivial

lemma safe_loadCompositeOutline (hload : ∀ glyph, Safe (load glyph) GlyphOutline.Valid)
    (hfont : font.Valid bytes) (houtline : outline.Valid) (h : glyphData + glyphSize ≤ bytes.length) :
    Safe (loadCompositeOutline bytes load font glyph glyphData glyphSize outline)
      GlyphOutline.Valid := by
  refine (safe_require _).bind fun _ hheader => ?_
  rw [decide_eq_true_eq] at hheader
  refine (safe_readBounds hfont houtline (by omega)).bind fun outline₁ houtline₁ => ?_
  refine (safe_componentsFrom hload houtline₁ (by omega) h).bind fun last hlast => ?_
  exact (safe_checkInstructions h).bind fun _ _ => safe_pure hlast

/-- The recursion is at most ten deep: at depth 9 the function refuses. -/
theorem safe_loadGlyphOutline {fuel depth : ℕ} (hfont : font.Valid bytes) (hfuel : 10 ≤ fuel + depth)
    (hdepth : depth ≤ 9) (glyph : UInt16) :
    Safe (loadGlyphOutline bytes font fuel depth glyph) GlyphOutline.Valid := by
  induction fuel generalizing depth glyph with
  | zero => omega
  | succ fuel ih =>
    refine (safe_require _).bind fun _ hlevel => ?_
    have hlevel : depth ≤ 8 := of_decide_eq_true hlevel
    refine (safe_glyphAdvance hfont glyph).bind fun advanceWidth _ => ?_
    refine (safe_glyphBounds hfont glyph).bind fun bounds hbounds => ?_
    refine safe_ite (fun _ => safe_pure (GlyphOutline.valid_zero advanceWidth)) fun _ => ?_
    refine (safe_require _).bind fun _ hheader => ?_
    rw [decide_eq_true_eq] at hheader
    refine (safe_readS16 (by omega)).bind fun contourCount _ => ?_
    have houtline := GlyphOutline.valid_zero advanceWidth
    refine safe_ite (fun _ => safe_loadSimpleOutline hfont houtline hbounds) fun _ => ?_
    exact safe_loadCompositeOutline (ih (by omega) (by omega)) hfont houtline hbounds

end Xbks
