import Xbks.Drivers.FontRange
import Xbks.Drivers.RasterOutline

/-!
# Where points come to lie in the cell

The exact coordinates that `scale_outline_to_cell` computes. Nothing before the last product can
overflow, so it faults exactly when one of them does not fit in 32 bits.
-/

namespace Xbks

open Checked

/-- The rounded quotient of `scale_design`. -/
def exactDesign (value scale span : ℤ) : ℤ :=
  if value ≥ 0 then (value * scale + span.tdiv 2).tdiv span
  else -((-value * scale + span.tdiv 2).tdiv span)

/-- The width of a glyph with the given advance width. -/
def exactWidth (font : TtfFont) (metrics : FontMetrics) (advanceWidth : ℤ) : ℤ :=
  let advance := if advanceWidth ≤ 0 then (font.unitsPerEm.toNat : ℤ).tdiv 2 else advanceWidth
  let width := exactDesign advance metrics.scale metrics.designSpan
  let width := if width ≤ 0 then 1 else width
  if width > ttyFontWidth - 1 then ttyFontWidth - 1 else width

def cellOffset (font : TtfFont) (metrics : FontMetrics) (advanceWidth : ℤ) : ℤ :=
  (ttyFontWidth - exactWidth font metrics advanceWidth).tdiv 2

def cellPoint (metrics : FontMetrics) (offsetX : ℤ) (p : GlyphPoint) : GlyphPoint where
  x := (offsetX + exactDesign p.x metrics.scale metrics.designSpan) * 16
  y := (metrics.originY + exactDesign (metrics.designTop - p.y) metrics.scale metrics.designSpan) * 16
  onCurve := p.onCurve

def GlyphPoint.Fits (p : GlyphPoint) : Prop := InInt32 p.x ∧ InInt32 p.y

variable {font : TtfFont} {metrics : FontMetrics} {source : GlyphOutline} {c : Contours GlyphPoint}
  {value offset : ℤ} {p : GlyphPoint}

/-! ### Coordinates -/

lemma inInt32_of_le {n : ℤ} (h : -2 ^ 30 ≤ n ∧ n ≤ 2 ^ 30) : InInt32 n := by
  rw [InInt32]
  omega

/-- The sum that is divided, and the quotient. -/
lemma quotient_le {span : ℤ} (hvalue : 0 ≤ value ∧ value ≤ 2 ^ 24) (hspan : 0 < span ∧ span < 2 ^ 18) :
    (0 ≤ value * 24 + span.tdiv 2 ∧ value * 24 + span.tdiv 2 ≤ 2 ^ 29) ∧
      0 ≤ (value * 24 + span.tdiv 2).tdiv span ∧ (value * 24 + span.tdiv 2).tdiv span ≤ 2 ^ 29 := by
  have hsum : 0 ≤ value * 24 + span.tdiv 2 ∧ value * 24 + span.tdiv 2 ≤ 2 ^ 29 := by
    rw [Int.tdiv_eq_ediv_of_nonneg hspan.1.le]
    omega
  exact ⟨hsum, Int.tdiv_nonneg hsum.1 hspan.1.le, (Int.tdiv_le_self _ hsum.1).trans hsum.2⟩

lemma scaleDesign_eq (hmetrics : metrics.Small) (hvalue : -2 ^ 24 ≤ value ∧ value ≤ 2 ^ 24) :
    scaleDesign value metrics.scale metrics.designSpan =
      .ok (exactDesign value metrics.scale metrics.designSpan) := by
  have hspan := hmetrics.designSpan
  have hhalf : quot32 metrics.designSpan 2 = .ok (metrics.designSpan.tdiv 2) :=
    quot32_pos (by norm_num) (inInt32_of_le (by omega))
  rw [scaleDesign, exactDesign, hmetrics.scale, hhalf]
  by_cases hpos : value ≥ 0
  · obtain ⟨hsum, -⟩ := quotient_le ⟨hpos, hvalue.2⟩ hspan
    rw [if_pos hpos, if_pos hpos, int32_eq (inInt32_of_le (by omega)), ok_bind, ok_bind,
      int32_eq (inInt32_of_le (by omega)), ok_bind]
    exact quot32_pos hspan.1 (inInt32_of_le (by omega))
  · obtain ⟨hsum, hquotient⟩ := @quotient_le (-value) _ (by omega) hspan
    rw [if_neg hpos, if_neg hpos, int32_eq (inInt32_of_le (by omega)), ok_bind,
      int32_eq (inInt32_of_le (by omega)), ok_bind, ok_bind, int32_eq (inInt32_of_le (by omega)), ok_bind,
      quot32_pos hspan.1 (inInt32_of_le (by omega)), ok_bind]
    exact int32_eq (inInt32_of_le (by omega))

lemma exactDesign_le (hmetrics : metrics.Small) (hvalue : -2 ^ 24 ≤ value ∧ value ≤ 2 ^ 24) :
    -2 ^ 29 ≤ exactDesign value metrics.scale metrics.designSpan ∧
      exactDesign value metrics.scale metrics.designSpan ≤ 2 ^ 29 := by
  rw [exactDesign, hmetrics.scale]
  split_ifs with hpos
  · have hquotient := (quotient_le ⟨hpos, hvalue.2⟩ hmetrics.designSpan).2
    omega
  · have hquotient := (@quotient_le (-value) _ (by omega) hmetrics.designSpan).2
    omega

/-- Only the last product can overflow. -/
lemma scaleCoordinate_eq (hmetrics : metrics.Small) (hvalue : -2 ^ 24 ≤ value ∧ value ≤ 2 ^ 24)
    (hoffset : 0 ≤ offset ∧ offset ≤ 6) : scaleCoordinate metrics offset value =
      int32 ((offset + exactDesign value metrics.scale metrics.designSpan) * 16) := by
  have hle := exactDesign_le hmetrics hvalue
  rw [scaleCoordinate, scaleDesign_eq hmetrics hvalue, ok_bind, int32_eq (inInt32_of_le (by omega)), ok_bind]

instance : DecidablePred GlyphPoint.Fits := fun p => inferInstanceAs (Decidable (InInt32 p.x ∧ InInt32 p.y))

/-- No loaded coordinate is farther away. -/
abbrev farthest : ℤ := 2 ^ 15 * (384 + 10)

lemma scalePoint_eq (hmetrics : metrics.Small) (hoffset : 0 ≤ offset ∧ offset ≤ 6) (hp : p.Near farthest) :
    scalePoint metrics offset p =
      if (cellPoint metrics offset p).Fits then .ok (cellPoint metrics offset p) else fault := by
  simp only [GlyphPoint.Near, farthest] at hp
  have htop := hmetrics.designTop
  have horigin := hmetrics.originY
  have hx : scaleCoordinate metrics offset p.x = int32 (cellPoint metrics offset p).x :=
    scaleCoordinate_eq hmetrics (by omega) hoffset
  have hbelow : int32 (metrics.designTop - p.y) = .ok (metrics.designTop - p.y) :=
    int32_eq (inInt32_of_le (by omega))
  have hy : scaleCoordinate metrics metrics.originY (metrics.designTop - p.y) =
      int32 (cellPoint metrics offset p).y :=
    scaleCoordinate_eq hmetrics (by omega) (by omega)
  simp only [scalePoint, hx, hbelow, hy, ok_bind, int32_bind, ← ite_and]
  rfl

/-! ### Outlines -/

/-- The loop stores the exact points, or meets one that does not fit. -/
lemma scalePointsFrom_cases (hmetrics : metrics.Small) (hoffset : 0 ≤ offset ∧ offset ≤ 6)
    {ps qs : List GlyphPoint} {points : Cells 384 GlyphPoint} {i remaining : ℕ}
    (hps : Cells.Holds source.points ps) (hnear : ∀ p ∈ ps, p.Near farthest) (hlen : ps.length ≤ 384)
    (hqs : Cells.Holds points qs) (hi : i = qs.length) (hend : i + remaining = ps.length) :
    ((∀ p ∈ ps.drop i, (cellPoint metrics offset p).Fits) ∧ ∃ points',
      scalePointsFrom source metrics offset remaining i points = .ok points' ∧
        Cells.Holds points' (qs ++ (ps.drop i).map (cellPoint metrics offset))) ∨
    (¬∀ p ∈ ps.drop i, (cellPoint metrics offset p).Fits) ∧
      scalePointsFrom source metrics offset remaining i points = fault := by
  induction remaining generalizing i points qs with
  | zero =>
    rw [List.drop_eq_nil_of_le (by omega), List.map_nil, List.append_nil]
    exact .inl ⟨nofun, points, rfl, hqs⟩
  | succ remaining ih =>
    subst hi
    have hlt : qs.length < ps.length := by omega
    have hread := hps.get_eq (hlt.trans_le hlen) hlt
    rw [scalePointsFrom, hread, ok_bind, List.get_eq_getElem,
      scalePoint_eq hmetrics hoffset (hnear _ (List.getElem_mem hlt)), List.drop_eq_getElem_cons hlt,
      List.forall_mem_cons]
    by_cases hfits : (cellPoint metrics offset ps[qs.length]).Fits
    · obtain ⟨points', hset, hpoints'⟩ := hqs.set_next (by omega) (cellPoint metrics offset ps[qs.length])
      rw [if_pos hfits, ok_bind, hset, ok_bind, and_iff_right hfits, List.map_cons, List.append_cons]
      exact ih hpoints' (by simp) (by omega)
    · rw [if_neg hfits]
      exact .inr ⟨fun h => hfits h.1, rfl⟩

/-- Contours are copied whatever they are. -/
lemma copyContoursFrom_ok {endPoints contours : Cells 64 UInt16} {es : List UInt16} {i remaining : ℕ}
    (hes : Cells.Holds endPoints es) (hlen : es.length ≤ 64) (hi : i + remaining = es.length) :
    ∃ contours', copyContoursFrom endPoints remaining i contours = .ok contours' := by
  induction remaining generalizing i contours with
  | zero => exact ⟨contours, rfl⟩
  | succ remaining ih =>
    have hlt : i < 64 := by omega
    have hset : Cells.set contours i (es.get ⟨i, by omega⟩) =
        .ok (Function.update contours ⟨i, hlt⟩ (some (es.get ⟨i, by omega⟩))) := by
      rw [Cells.set, dif_pos hlt]
      rfl
    rw [copyContoursFrom, hes.get_eq hlt (by omega), ok_bind, hset, ok_bind]
    exact ih (by omega)

lemma exactWidth_le (font : TtfFont) (metrics : FontMetrics) (advanceWidth : ℤ) :
    1 ≤ exactWidth font metrics advanceWidth ∧ exactWidth font metrics advanceWidth ≤ 12 := by
  rw [exactWidth]
  generalize exactDesign _ metrics.scale metrics.designSpan = width
  have hcell : ttyFontWidth = 13 := rfl
  split_ifs <;> omega

lemma cellOffset_le (font : TtfFont) (metrics : FontMetrics) (advanceWidth : ℤ) :
    0 ≤ cellOffset font metrics advanceWidth ∧ cellOffset font metrics advanceWidth ≤ 6 := by
  have hwidth := exactWidth_le font metrics advanceWidth
  have hcell : ttyFontWidth = 13 := rfl
  rw [cellOffset, Int.tdiv_eq_ediv_of_nonneg (by omega)]
  omega

lemma glyphWidth_eq (hmetrics : metrics.Small) (hadvance : InInt16 source.advanceWidth) :
    glyphWidth font source metrics = .ok (exactWidth font metrics source.advanceWidth) := by
  have hunits := font.unitsPerEm.toNat_lt
  have hhalf : quot32 font.unitsPerEm.toNat 2 = .ok ((font.unitsPerEm.toNat : ℤ).tdiv 2) :=
    quot32_pos (by norm_num) (inInt32_of_le (by omega))
  rw [InInt16] at hadvance
  rw [glyphWidth, exactWidth]
  by_cases hle : source.advanceWidth ≤ 0
  · have hvalue : -2 ^ 24 ≤ (font.unitsPerEm.toNat : ℤ).tdiv 2 ∧ (font.unitsPerEm.toNat : ℤ).tdiv 2 ≤ 2 ^ 24 := by
      rw [Int.tdiv_eq_ediv_of_nonneg (by omega)]
      omega
    rw [if_pos hle, if_pos hle, hhalf, ok_bind]
    dsimp only
    rw [scaleDesign_eq hmetrics hvalue]
    rfl
  · have hvalue : -2 ^ 24 ≤ source.advanceWidth ∧ source.advanceWidth ≤ 2 ^ 24 := by omega
    rw [if_neg hle, if_neg hle, pure_eq_ok, ok_bind]
    dsimp only
    rw [scaleDesign_eq hmetrics hvalue]
    rfl

/-- All points fit and the scaled outline has them, or one does not. -/
lemma scaleOutlineToCell_cases (hmetrics : metrics.Small) (hc : source.Shows c) (hsmall : source.Small farthest) :
    ((∀ p ∈ c.points, (cellPoint metrics (cellOffset font metrics source.advanceWidth) p).Fits) ∧
      ∃ scaled, scaleOutlineToCell font source metrics = .ok scaled ∧
        scaled.Shows (c.map (cellPoint metrics (cellOffset font metrics source.advanceWidth)))) ∨
    (¬∀ p ∈ c.points, (cellPoint metrics (cellOffset font metrics source.advanceWidth) p).Fits) ∧
      scaleOutlineToCell font source metrics = fault := by
  have hwidth := exactWidth_le font metrics source.advanceWidth
  have hcell : ttyFontWidth = 13 := rfl
  have hoffset := cellOffset_le font metrics source.advanceWidth
  have hquot : quot32 (ttyFontWidth - exactWidth font metrics source.advanceWidth) 2 =
      .ok (cellOffset font metrics source.advanceWidth) :=
    quot32_pos (by norm_num) (inInt32_of_le (by omega))
  have hcheck : ¬(metrics.designSpan ≤ 0 ∨ metrics.scale ≤ 0 ∨ source.pointCount > maxGlyphPoints ∨
      source.contourCount > maxGlyphContours) := by
    have hspan := hmetrics.designSpan.1
    have hscale := hmetrics.scale
    have hpoints := hc.pointCount.trans_le hc.pointCount_le
    have hcontours := hc.contourCount.trans_le hc.contourCount_le
    change ¬(_ ∨ _ ∨ source.pointCount > 384 ∨ source.contourCount > 64)
    omega
  have hloop := scalePointsFrom_cases hmetrics hoffset hc.points (hc.points.all hsmall.points hc.pointCount_le)
    hc.pointCount_le (@Cells.holds_nil _ _ GlyphOutline.zero.points) rfl (Nat.zero_add _)
  rw [List.length_nil, List.drop_zero, List.nil_append] at hloop
  have hcount : 0 + source.contourCount = (c.ends.map UInt16.ofNat).length := by
    rw [Nat.zero_add, List.length_map, hc.contourCount]
  rw [scaleOutlineToCell, require_bind (decide_eq_true hcheck), glyphWidth_eq hmetrics hsmall.advanceWidth,
    ok_bind, hquot, ok_bind, hc.pointCount]
  rcases hloop with ⟨hfits, points, hrun, hpoints⟩ | ⟨hfits, hrun⟩
  · obtain ⟨contours, hcopy⟩ := @copyContoursFrom_ok _ GlyphOutline.zero.contours _ _ _ hc.contours
      ((List.length_map _).trans_le hc.contourCount_le) hcount
    have hcontours := answers_copyContoursFrom hc.contours Cells.holds_nil rfl hcount contours hcopy
    rw [hrun, ok_bind, hcopy, ok_bind]
    refine .inl ⟨hfits, _, rfl, ?_⟩
    exact {
      pointCount := (List.length_map _).symm
      contourCount := hc.contourCount
      points := hpoints
      contours := hcontours
      pointCount_le := (List.length_map _).trans_le hc.pointCount_le
      contourCount_le := hc.contourCount_le }
  · rw [hrun]
    exact .inr ⟨hfits, rfl⟩

end Xbks
