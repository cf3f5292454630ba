import Xbks.Drivers.FontOutline
import Xbks.Drivers.RasterMetrics

/-!
# How large the numbers of a font are

A coordinate is the sum of at most 384 differences and of the offsets of the nested components, each of
16 bits, and the numbers of the header have 16 bits.
-/

namespace Xbks

open Checked

def InInt16 (n : ℤ) : Prop := -2 ^ 15 ≤ n ∧ n < 2 ^ 15

/-- Both coordinates are at most `b` away from 0. -/
def GlyphPoint.Near (b : ℤ) (p : GlyphPoint) : Prop := (-b ≤ p.x ∧ p.x ≤ b) ∧ -b ≤ p.y ∧ p.y ≤ b

structure GlyphOutline.Small (b : ℤ) (outline : GlyphOutline) : Prop where
  points : Cells.All (GlyphPoint.Near b) outline.points
  yMin : InInt16 outline.yMin
  yMax : InInt16 outline.yMax
  advanceWidth : InInt16 outline.advanceWidth

variable {bytes : List UInt8} {font : TtfFont} {outline dest src : GlyphOutline} {glyph : UInt16}
  {glyphData glyphSize cursor i remaining fuel depth pointCount : ℕ} {dx dy b b' : ℤ}

/-! ### Numbers of 16 bits -/

lemma inInt16_zero : InInt16 0 := ⟨by norm_num, by norm_num⟩

lemma inInt16_wrap (n : ℤ) : InInt16 (wrapInt16 n) := by
  have hle := Int.le_bmod (x := n) (m := 2 ^ 16) (by norm_num)
  have hlt := Int.bmod_lt (x := n) (m := 2 ^ 16) (by norm_num)
  rw [InInt16, wrapInt16]
  constructor
  · simpa using hle
  · simpa using hlt

lemma answers_readS16 : Answers (readS16 bytes i) InInt16 :=
  (answers_trivial _).bind fun _ _ => answers_pure (inInt16_wrap _)

lemma answers_glyphAdvance : Answers (glyphAdvance bytes font glyph) InInt16 :=
  answers_ite (fun _ => answers_readS16) fun _ => answers_readS16

lemma answers_readDelta {shortVector sameOrPositive flag : UInt8} :
    Answers (readDelta bytes glyphData glyphSize shortVector sameOrPositive flag cursor) fun delta =>
      InInt16 delta.1 := by
  refine answers_ite (fun _ => ?_) fun _ => answers_ite (fun _ => ?_) fun _ => ?_
  · refine (answers_require _).bind fun _ _ => ?_
    refine (answers_trivial _).bind fun delta _ => answers_pure ?_
    have hlt := delta.toNat_lt
    rw [InInt16]
    dsimp only
    split <;> omega
  · refine (answers_require _).bind fun _ _ => ?_
    exact answers_readS16.bind fun delta hdelta => answers_pure hdelta
  · exact answers_pure ⟨by norm_num, by norm_num⟩

lemma answers_readArgs {flags : UInt16} :
    Answers (readArgs bytes glyphData glyphSize flags cursor) fun args =>
      InInt16 args.1 ∧ InInt16 args.2.1 := by
  have hbyte : ∀ arg : UInt8, InInt16 arg.toInt8.toInt := by
    intro arg
    have hle := arg.toInt8.le_toInt
    have hlt := arg.toInt8.toInt_lt
    rw [InInt16]
    omega
  refine answers_ite (fun _ => ?_) fun _ => ?_
  · refine (answers_require _).bind fun _ _ => ?_
    refine answers_readS16.bind fun arg1 harg1 => ?_
    exact answers_readS16.bind fun arg2 harg2 => answers_pure ⟨harg1, harg2⟩
  · refine (answers_require _).bind fun _ _ => ?_
    refine (answers_trivial _).bind fun arg1 _ => ?_
    exact (answers_trivial _).bind fun arg2 _ => answers_pure ⟨hbyte arg1, hbyte arg2⟩

lemma answers_componentRecord : Answers (componentRecord bytes glyphData glyphSize cursor) fun record =>
    InInt16 record.2.1.dx ∧ InInt16 record.2.1.dy := by
  refine (answers_require _).bind fun _ _ => ?_
  refine (answers_trivial _).bind fun flags _ => ?_
  refine (answers_trivial _).bind fun componentGlyph _ => ?_
  refine answers_readArgs.bind fun args hargs => ?_
  refine (answers_trivial _).bind fun cursor' _ => answers_pure ?_
  dsimp only
  split
  · exact hargs
  · exact ⟨inInt16_zero, inInt16_zero⟩

/-! ### Simple outlines -/

/-- The value grows by at most 2^15 in each round. -/
lemma answers_coordinatesFrom {shortVector sameOrPositive : UInt8}
    {store : ℤ → UInt8 → GlyphPoint → GlyphPoint} {flags : Cells 384 UInt8} {value : ℤ}
    {points : Cells 384 GlyphPoint}
    (hstore : ∀ v flag p, -b ≤ v ∧ v ≤ b → GlyphPoint.Near b p → (store v flag p).Near b)
    (hpoints : Cells.All (GlyphPoint.Near b) points) (hvalue : -(2 ^ 15 * i) ≤ value ∧ value ≤ 2 ^ 15 * i)
    (hb : 2 ^ 15 * (i + remaining) ≤ b) :
    Answers (coordinatesFrom bytes glyphData glyphSize shortVector sameOrPositive store flags remaining i
      cursor value points) fun last => Cells.All (GlyphPoint.Near b) last.2 := by
  induction remaining generalizing i cursor value points with
  | zero => exact answers_pure hpoints
  | succ remaining ih =>
    refine (answers_trivial _).bind fun flag _ => ?_
    refine answers_readDelta.bind fun delta hdelta => ?_
    refine hpoints.answers_get.bind fun point hpoint => ?_
    rw [InInt16] at hdelta
    push_cast at hb
    have hnext : -(2 ^ 15 * (i + 1 : ℕ)) ≤ value + delta.1 ∧ value + delta.1 ≤ 2 ^ 15 * (i + 1 : ℕ) := by
      push_cast
      omega
    have hstored := hstore (value + delta.1) flag point (by push_cast at hnext; omega) hpoint
    refine (hpoints.answers_set hstored).bind fun points' hpoints' => ?_
    refine ih hpoints' hnext ?_
    push_cast
    omega

lemma answers_xCoordinates {flags : Cells 384 UInt8} {points : Cells 384 GlyphPoint}
    (hpoints : Cells.All (GlyphPoint.Near b) points) (hb : 2 ^ 15 * pointCount ≤ b) :
    Answers (xCoordinates bytes glyphData glyphSize pointCount cursor flags points) fun last =>
      Cells.All (GlyphPoint.Near b) last.2 :=
  answers_coordinatesFrom (fun _ _ _ hv hp => ⟨hv, hp.2⟩) hpoints (by simp) (by simpa using hb)

lemma answers_yCoordinates {flags : Cells 384 UInt8} {points : Cells 384 GlyphPoint}
    (hpoints : Cells.All (GlyphPoint.Near b) points) (hb : 2 ^ 15 * pointCount ≤ b) :
    Answers (yCoordinates bytes glyphData glyphSize pointCount cursor flags points) fun last =>
      Cells.All (GlyphPoint.Near b) last.2 :=
  answers_coordinatesFrom (fun _ _ _ hv hp => ⟨hp.1, hv⟩) hpoints (by simp) (by simpa using hb)

lemma answers_readBounds_small (h : outline.Small b) :
    Answers (readBounds bytes font glyph glyphData outline) (GlyphOutline.Small b) := by
  refine (answers_trivial _).bind fun xMin _ => ?_
  refine answers_readS16.bind fun yMin hyMin => ?_
  refine (answers_trivial _).bind fun xMax _ => ?_
  refine answers_readS16.bind fun yMax hyMax => ?_
  exact answers_glyphAdvance.bind fun advanceWidth hadvance => answers_pure ⟨h.points, hyMin, hyMax, hadvance⟩

lemma answers_loadSimpleOutline_small (h : outline.Small b) (hb : 2 ^ 15 * 384 ≤ b) :
    Answers (loadSimpleOutline bytes font glyph glyphData glyphSize outline) (GlyphOutline.Small b) := by
  refine (answers_require _).bind fun _ _ => ?_
  refine (answers_trivial _).bind fun contourCount _ => ?_
  refine (answers_require _).bind fun _ _ => ?_
  refine (answers_readBounds_small h).bind fun outline₁ h₁ => ?_
  refine answers_ite (fun _ => answers_pure h₁) fun _ => ?_
  refine (answers_require _).bind fun _ _ => ?_
  refine (answers_trivial _).bind fun ends _ => ?_
  refine (answers_require _).bind fun _ hcount => ?_
  rw [decide_eq_true_eq] at hcount
  change ends.2.toNat + 1 ≤ 384 at hcount
  have hroom : 2 ^ 15 * ((ends.2.toNat + 1 : ℕ) : ℤ) ≤ b := by omega
  refine (answers_require _).bind fun _ _ => ?_
  refine (answers_trivial _).bind fun instructionLength _ => ?_
  refine (answers_require _).bind fun _ _ => ?_
  refine (answers_trivial _).bind fun flags _ => ?_
  refine (answers_xCoordinates h₁.points hroom).bind fun xs hxs => ?_
  refine (answers_yCoordinates hxs hroom).bind fun ys hys => ?_
  exact (answers_trivial _).bind fun contours _ => answers_pure ⟨hys, h₁.yMin, h₁.yMax, h₁.advanceWidth⟩

/-! ### Composite outlines -/

lemma answers_appendPointsFrom_small (hdest : dest.Small b) (hsrc : src.Small b') (hdx : InInt16 dx)
    (hdy : InInt16 dy) (hb : b' + 2 ^ 15 ≤ b) :
    Answers (appendPointsFrom src dx dy remaining i dest) (GlyphOutline.Small b) := by
  induction remaining generalizing i dest with
  | zero => exact answers_pure hdest
  | succ remaining ih =>
    refine hsrc.points.answers_get.bind fun point hpoint => ?_
    have hmoved : GlyphPoint.Near b ⟨point.x + dx, point.y + dy, point.onCurve⟩ := by
      rw [GlyphPoint.Near] at hpoint ⊢
      rw [InInt16] at hdx hdy
      dsimp only
      omega
    have hpoint' : Answers (appendPoint dest (point.x + dx) (point.y + dy) point.onCurve)
        (GlyphOutline.Small b) := by
      refine (answers_require _).bind fun _ _ => ?_
      exact (hdest.points.answers_set hmoved).bind fun points hpoints =>
        answers_pure ⟨hpoints, hdest.yMin, hdest.yMax, hdest.advanceWidth⟩
    exact hpoint'.bind fun dest' hdest' => ih hdest'

lemma answers_appendContoursFrom_small {pointBase : ℕ} (hdest : dest.Small b) :
    Answers (appendContoursFrom src pointBase remaining i dest) (GlyphOutline.Small b) := by
  induction remaining generalizing i dest with
  | zero => exact answers_pure hdest
  | succ remaining ih =>
    refine (answers_trivial _).bind fun contour _ => ?_
    refine (answers_trivial _).bind fun contours _ => ?_
    exact ih { hdest with }

lemma appendBounds_small (hdest : dest.Small b) : (appendBounds dest src dx dy).Small b := by
  rw [appendBounds]
  by_cases hsrc : ¬src.hasBounds
  · rw [if_pos hsrc]
    exact hdest
  · rw [if_neg hsrc]
    by_cases hnone : ¬dest.hasBounds
    · rw [if_pos hnone]
      exact ⟨hdest.points, inInt16_wrap _, inInt16_wrap _, hdest.advanceWidth⟩
    · rw [if_neg hnone]
      refine ⟨hdest.points, ?_, ?_, hdest.advanceWidth⟩
      · dsimp only
        split
        · exact inInt16_wrap _
        · exact hdest.yMin
      · dsimp only
        split
        · exact inInt16_wrap _
        · exact hdest.yMax

lemma answers_componentsFrom_small {load : UInt16 → Checked GlyphOutline} (h : outline.Small b)
    (hload : ∀ glyph, Answers (load glyph) (GlyphOutline.Small b')) (hb : b' + 2 ^ 15 ≤ b) :
    Answers (componentsFrom bytes load glyphData glyphSize fuel cursor outline) fun last =>
      last.2.2.Small b := by
  induction fuel generalizing cursor outline with
  | zero => exact answers_fault
  | succ fuel ih =>
    rw [componentsFrom_succ]
    refine answers_componentRecord.bind fun record hrecord => ?_
    refine (hload _).bind fun component hcomponent => ?_
    have happend : Answers (appendOutline outline component record.2.1.dx record.2.1.dy)
        (GlyphOutline.Small b) := by
      refine (answers_require _).bind fun _ _ => ?_
      refine (answers_appendPointsFrom_small h hcomponent hrecord.1 hrecord.2 hb).bind fun dest₁ h₁ => ?_
      exact (answers_appendContoursFrom_small h₁).bind fun dest₂ h₂ => answers_pure (appendBounds_small h₂)
    exact happend.bind fun outline' h' => answers_ite (fun _ => ih h') fun _ => answers_pure h'

/-- A component may be moved by 2^15 at each level. -/
lemma answers_loadGlyphOutline_small :
    Answers (loadGlyphOutline bytes font fuel depth glyph) (GlyphOutline.Small (2 ^ 15 * (384 + fuel))) := by
  induction fuel generalizing depth glyph with
  | zero => exact answers_fault
  | succ fuel ih =>
    push_cast
    refine (answers_require _).bind fun _ _ => ?_
    refine answers_glyphAdvance.bind fun advanceWidth hadvance => ?_
    have hzero : GlyphOutline.Small (2 ^ 15 * (384 + (fuel + 1)))
        { GlyphOutline.zero with advanceWidth := advanceWidth } := by
      refine ⟨?_, ⟨by norm_num [GlyphOutline.zero], by norm_num [GlyphOutline.zero]⟩,
        ⟨by norm_num [GlyphOutline.zero], by norm_num [GlyphOutline.zero]⟩, hadvance⟩
      intro i point hpoint
      rw [← Option.some_inj.mp hpoint, GlyphPoint.Near]
      dsimp only
      omega
    refine (answers_trivial _).bind fun bounds _ => ?_
    refine answers_ite (fun _ => answers_pure hzero) fun _ => ?_
    refine (answers_require _).bind fun _ _ => ?_
    refine (answers_trivial _).bind fun contourCount _ => ?_
    refine answers_ite (fun _ => ?_) fun _ => ?_
    · exact answers_loadSimpleOutline_small hzero (by omega)
    · refine (answers_require _).bind fun _ _ => ?_
      refine (answers_readBounds_small hzero).bind fun outline₁ h₁ => ?_
      refine (answers_componentsFrom_small h₁ (fun glyph => ih) (by omega)).bind fun last hlast => ?_
      exact (answers_trivial _).bind fun _ _ => answers_pure hlast

/-! ### Metrics -/

structure TtfFont.Small (font : TtfFont) : Prop where
  ascent : InInt16 font.ascent
  descent : InInt16 font.descent
  lineGap : InInt16 font.lineGap
  typoAscent : InInt16 font.typoAscent
  typoDescent : InInt16 font.typoDescent
  typoLineGap : InInt16 font.typoLineGap

lemma answers_parseTtf_small : Answers (parseTtf bytes) TtfFont.Small := by
  refine (answers_require _).bind fun _ _ => ?_
  refine (answers_trivial _).bind fun scalerType _ => ?_
  refine (answers_require _).bind fun _ _ => ?_
  refine (answers_trivial _).bind fun cmap _ => ?_
  refine (answers_trivial _).bind fun glyf _ => ?_
  refine (answers_trivial _).bind fun head _ => ?_
  refine (answers_trivial _).bind fun hhea _ => ?_
  refine (answers_trivial _).bind fun hmtx _ => ?_
  refine (answers_trivial _).bind fun loca _ => ?_
  refine (answers_trivial _).bind fun maxp _ => ?_
  refine (answers_trivial _).bind fun os2 _ => ?_
  refine (answers_require _).bind fun _ _ => ?_
  refine (answers_trivial _).bind fun unitsPerEm _ => ?_
  refine (answers_trivial _).bind fun indexToLocFormat _ => ?_
  refine answers_readS16.bind fun ascent hascent => ?_
  refine answers_readS16.bind fun descent hdescent => ?_
  refine answers_readS16.bind fun lineGap hlineGap => ?_
  refine (answers_trivial _).bind fun numberOfHmetrics _ => ?_
  refine (answers_trivial _).bind fun numGlyphs _ => ?_
  have htypo : Answers (readTypoMetrics bytes os2) fun typo =>
      InInt16 typo.1 ∧ InInt16 typo.2.1 ∧ InInt16 typo.2.2 := by
    refine answers_ite (fun _ => ?_) fun _ => answers_pure ⟨inInt16_zero, inInt16_zero, inInt16_zero⟩
    refine answers_readS16.bind fun typoAscent h₁ => ?_
    refine answers_readS16.bind fun typoDescent h₂ => ?_
    exact answers_readS16.bind fun typoLineGap h₃ => answers_pure ⟨h₁, h₂, h₃⟩
  refine htypo.bind fun typo htypo => ?_
  refine (answers_require _).bind fun _ _ => ?_
  refine (answers_require _).bind fun _ _ => ?_
  refine (answers_trivial _).bind fun cmapSubtable _ => answers_pure ?_
  exact ⟨hascent, hdescent, hlineGap, htypo.1, htypo.2.1, htypo.2.2⟩

/-- A number of 16 bits, with or without a sign. -/
def InUnits (n : ℤ) : Prop := -2 ^ 15 ≤ n ∧ n < 2 ^ 16

lemma InInt16.inUnits {n : ℤ} (h : InInt16 n) : InUnits n := by
  rw [InInt16] at h
  rw [InUnits]
  omega

lemma designMetrics_small (h : font.Small) : InUnits (designMetrics font).1 ∧
    InUnits (designMetrics font).2.1 ∧ InInt16 (designMetrics font).2.2 := by
  have hunits : InUnits font.unitsPerEm.toNat := by
    have hlt := font.unitsPerEm.toNat_lt
    rw [InUnits]
    omega
  have htypo : InInt16 (if font.typoAscent ≠ 0 then font.typoAscent else font.ascent) ∧
      InInt16 (if font.typoDescent ≠ 0 then font.typoDescent else font.descent) ∧
      InInt16 (if font.typoLineGap ≠ 0 then font.typoLineGap else font.lineGap) := by
    refine ⟨?_, ?_, ?_⟩
    · split_ifs
      · exact h.typoAscent
      · exact h.ascent
    · split_ifs
      · exact h.typoDescent
      · exact h.descent
    · split_ifs
      · exact h.typoLineGap
      · exact h.lineGap
  rw [designMetrics]
  dsimp only
  by_cases hflat : (if font.typoAscent ≠ 0 then font.typoAscent else font.ascent) ≤
      (if font.typoDescent ≠ 0 then font.typoDescent else font.descent)
  · rw [if_pos hflat]
    dsimp only
    by_cases hdefault : font.ascent ≤ font.descent
    · rw [if_pos hdefault]
      exact ⟨hunits, inInt16_zero.inUnits, inInt16_zero⟩
    · rw [if_neg hdefault]
      exact ⟨h.ascent.inUnits, h.descent.inUnits, h.lineGap⟩
  · rw [if_neg hflat, if_neg hflat]
    exact ⟨htypo.1.inUnits, htypo.2.1.inUnits, htypo.2.2⟩

lemma answers_boundsFrom_small {codepoint : UInt32} {bounds : ℤ × ℤ}
    (h : InUnits bounds.1 ∧ InUnits bounds.2) :
    Answers (boundsFrom bytes font remaining codepoint bounds) fun bounds' =>
      InUnits bounds'.1 ∧ InUnits bounds'.2 := by
  induction remaining generalizing codepoint bounds with
  | zero => exact answers_pure h
  | succ remaining ih =>
    refine (answers_trivial _).bind fun glyph _ => ?_
    refine answers_ite (fun _ => ih h) fun _ => ?_
    have hround : Answers (do
        let outline ← loadGlyphOutline bytes font 10 0 glyph
        return includeOutlineBounds outline bounds) fun bounds' => InUnits bounds'.1 ∧ InUnits bounds'.2 := by
      refine answers_loadGlyphOutline_small.bind fun outline houtline => answers_pure ?_
      rw [includeOutlineBounds]
      split
      · exact h
      · constructor
        · dsimp only
          split
          · exact houtline.yMin.inUnits
          · exact h.1
        · dsimp only
          split
          · exact houtline.yMax.inUnits
          · exact h.2
    exact (hround.orDefault fun _ => h).bind fun bounds' hbounds => ih hbounds

structure FontMetrics.Small (metrics : FontMetrics) : Prop where
  scale : metrics.scale = 24
  originY : metrics.originY = 2
  designSpan : 0 < metrics.designSpan ∧ metrics.designSpan < 2 ^ 18
  designTop : -2 ^ 18 ≤ metrics.designTop ∧ metrics.designTop ≤ 2 ^ 18

lemma answers_buildFontMetrics_small (h : font.Small) :
    Answers (buildFontMetrics bytes font) FontMetrics.Small := by
  refine answers_buildFontMetrics_for.mono fun metrics hmetrics => ?_
  obtain ⟨bounds, hrun, hfor⟩ := hmetrics
  obtain ⟨htop, hbottom, hgap⟩ := designMetrics_small h
  have hstart : InUnits ((designMetrics font).2.1, (designMetrics font).1).1 ∧
      InUnits ((designMetrics font).2.1, (designMetrics font).1).2 := ⟨hbottom, htop⟩
  obtain ⟨hlow, hhigh⟩ := answers_boundsFrom_small hstart bounds hrun
  have hlt := hfor.lt
  have hnonneg := hfor.gap_nonneg
  have hspan := hfor.designSpan
  have hdesignTop := hfor.designTop
  have hlarge : positiveOrDefault (designMetrics font).2.2 0 < 2 ^ 15 := by
    rw [positiveOrDefault]
    split
    · exact hgap.2
    · norm_num
  rw [InUnits] at hlow hhigh
  rw [Int.tdiv_eq_ediv_of_nonneg hnonneg] at hdesignTop
  exact ⟨hfor.scale, hfor.originY, by omega, by omega⟩

end Xbks
