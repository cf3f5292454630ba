import Mathlib.Tactic.IntervalCases
import Xbks.Drivers.RasterDrawing
import Xbks.Drivers.RasterScaling
import Xbks.Properties.Filling
import Xbks.Properties.Outlines

/-!
# Overflow in the rasteriser

Points may lie far outside the bounds that decide on the scale. Here is which of their coordinates, curves
and edges no longer fit in 32 bits.
-/

namespace Xbks

open Checked EvenOdd

/-! ### Filling -/

/-- The differences that `point_inside_outline` computes fit. -/
def RasterEdge.Narrow (edge : RasterEdge) : Prop :=
  InInt32 (edge.x₁ - edge.x₀) ∧ InInt32 (edge.y₁ - edge.y₀)

/-- The height of a row of samples. -/
def SampleLine (sampleY : ℤ) : Prop := ∃ y : ℕ, y < 28 ∧ ∃ s ∈ samples, sampleY = y * 16 + s.2

abbrev int32s : Set ℤ := Set.Icc (-2 ^ 31) (2 ^ 31 - 1)

variable {edge : RasterEdge} {edges : List RasterEdge} {sampleX sampleY x y : ℤ}

lemma mem_int32s {n : ℤ} : n ∈ int32s ↔ InInt32 n := by
  rw [Set.mem_Icc, InInt32]
  omega

lemma RasterEdge.Within.downward (h : edge.Within int32s int32s) : edge.downward.Within int32s int32s := by
  rw [RasterEdge.downward]
  split
  · exact ⟨h.2, h.1⟩
  · exact h

lemma edgeIntersection_ne_fault_iff (h : edge.Within int32s int32s) (hlow : edge.y₀ ≤ sampleY)
    (hhigh : sampleY < edge.y₁) : edgeIntersection edge sampleY ≠ fault ↔ edge.Narrow := by
  simp only [RasterEdge.Within, mem_int32s] at h
  constructor
  · intro hrun
    simp only [edgeIntersection, int32_bind] at hrun
    by_contra hnarrow
    rw [RasterEdge.Narrow, not_and_or] at hnarrow
    rcases hnarrow with hx | hy
    · rw [if_neg hx, ite_self] at hrun
      exact hrun rfl
    · rw [if_neg hy, ite_self, ite_self] at hrun
      exact hrun rfl
  · rintro ⟨hwidth, hheight⟩
    have hpart := @part_of_width (sampleY - edge.y₀) (edge.y₁ - edge.y₀) (edge.x₁ - edge.x₀) (by omega)
      (by omega)
    have hquotient := @inInt32_part (sampleY - edge.y₀) (edge.y₁ - edge.y₀) (edge.x₁ - edge.x₀) (by omega)
      (by omega) hwidth
    have hbelow : InInt32 (sampleY - edge.y₀) := by
      rw [InInt32] at hheight ⊢
      omega
    have hproduct : InInt64 ((sampleY - edge.y₀) * (edge.x₁ - edge.x₀)) := by
      rw [InInt32] at hbelow hwidth
      have hmost := mul_le_mul_of_nonneg_left hwidth.2.le (show 0 ≤ sampleY - edge.y₀ by omega)
      have hleast := mul_le_mul_of_nonneg_left hwidth.1 (show 0 ≤ sampleY - edge.y₀ by omega)
      rw [InInt64]
      constructor
      · linarith
      · linarith
    have hwide : InInt64 (((sampleY - edge.y₀) * (edge.x₁ - edge.x₀)).tdiv (edge.y₁ - edge.y₀)) := by
      rw [InInt32] at hquotient
      rw [InInt64]
      omega
    have hresult : InInt32 (edge.x₀ +
        ((sampleY - edge.y₀) * (edge.x₁ - edge.x₀)).tdiv (edge.y₁ - edge.y₀)) := by
      simp only [InInt32] at h ⊢
      omega
    rw [edgeIntersection, int32_eq hbelow, ok_bind, int32_eq hwidth, ok_bind, int32_eq hheight, ok_bind,
      int64_eq hproduct, ok_bind, quot64_eq (by omega) hwide, ok_bind, toInt32_eq hquotient, int32_eq hresult]
    exact ok_ne_fault _

lemma pointInsideFrom_ne_fault_iff (h : ∀ edge ∈ edges, edge.Within int32s int32s) {inside : Bool} :
    pointInsideFrom sampleX sampleY edges inside ≠ fault ↔
      ∀ edge ∈ edges, Crosses sampleY edge.y₀ edge.y₁ → edge.downward.Narrow := by
  induction edges generalizing inside with
  | nil => exact iff_of_true nofun nofun
  | cons edge edges ih =>
    rw [List.forall_mem_cons] at h
    rw [List.forall_mem_cons, pointInsideFrom]
    by_cases hskip : sampleY < edge.downward.y₀ ∨ sampleY ≥ edge.downward.y₁
    · have hnot := (edge.not_crosses_iff sampleY).mp hskip
      rw [if_pos hskip, ih h.2, and_iff_right fun hcross => absurd hcross hnot]
    · have hcrosses := not_not.mp (mt (edge.not_crosses_iff sampleY).mpr hskip)
      rw [if_neg hskip, bind_ne_fault_iff_and (edgeIntersection_ne_refuse _ _) fun x => ih h.2,
        edgeIntersection_ne_fault_iff h.1.downward (by omega) (by omega)]
      exact and_congr_left fun _ => ⟨fun hnarrow _ => hnarrow, fun hnarrow => hnarrow hcrosses⟩

lemma coveredFrom_ne_fault_iff (h : ∀ edge ∈ edges, edge.Within int32s int32s) (hx : 0 ≤ x ∧ x < 13)
    (hy : 0 ≤ y ∧ y < 28) {list : List (ℤ × ℤ)} (hlist : list ⊆ samples) {covered : ℕ} :
    coveredFrom edges x y list covered ≠ fault ↔
      ∀ s ∈ list, ∀ edge ∈ edges, Crosses (y * 16 + s.2) edge.y₀ edge.y₁ → edge.downward.Narrow := by
  have hsmall : ∀ s ∈ samples, (0 ≤ s.1 ∧ s.1 ≤ 16) ∧ 0 ≤ s.2 ∧ s.2 ≤ 16 := by decide
  induction list generalizing covered with
  | nil => exact iff_of_true nofun nofun
  | cons s list ih =>
    obtain ⟨hs, hlist⟩ := List.cons_subset.mp hlist
    have hbounds := hsmall s hs
    rw [List.forall_mem_cons, coveredFrom, int32_eq (inInt32_of_le (by omega)), ok_bind,
      int32_eq (inInt32_of_le (by omega)), ok_bind, int32_eq (inInt32_of_le (by omega)), ok_bind,
      int32_eq (inInt32_of_le (by omega)), ok_bind, pointInsideOutline,
      bind_ne_fault_iff_and (pointInsideFrom_ne_refuse _ _) fun inside => ih hlist,
      pointInsideFrom_ne_fault_iff h]

lemma coveredFrom_ne_refuse {list : List (ℤ × ℤ)} {covered : ℕ} : coveredFrom edges x y list covered ≠ refuse := by
  induction list generalizing covered with
  | nil => nofun
  | cons s list ih =>
    refine bind_ne_refuse (int32_ne_refuse _) fun left => ?_
    refine bind_ne_refuse (int32_ne_refuse _) fun sampleX => ?_
    refine bind_ne_refuse (int32_ne_refuse _) fun top => ?_
    refine bind_ne_refuse (int32_ne_refuse _) fun sampleY => ?_
    exact bind_ne_refuse (pointInsideFrom_ne_refuse _ _) fun inside => ih

/-- The rows of the cell, from the edges. -/
def fillRows (edges : List RasterEdge) : Checked (List (List UInt8)) :=
  (List.range 28).mapM fun y : ℕ => (List.range 13).mapM fun x : ℕ => rasterizeCoverage edges x y

lemma rasterizeCoverage_ne_refuse : rasterizeCoverage edges x y ≠ refuse :=
  bind_ne_refuse coveredFrom_ne_refuse fun _ => nofun

lemma fillRows_ne_refuse : fillRows edges ≠ refuse :=
  mapM_ne_refuse fun _ _ => mapM_ne_refuse fun _ _ => rasterizeCoverage_ne_refuse

/-- The rows are those of the cell, each with the coverage of its pixels. -/
lemma fillRows_spec {rows : List (List UInt8)} (h : fillRows edges = .ok rows) : rows.length = 28 ∧
    ∀ (y : ℕ) (hy : y < rows.length),
      List.Forall₂ (fun (x : ℕ) v => rasterizeCoverage edges x y = .ok v) (List.range 13) rows[y] := by
  have hall := answers_mapM rows h
  have hlength : rows.length = 28 := hall.length_eq.symm
  refine ⟨hlength, fun y hy => ?_⟩
  have hcell := (List.forall₂_iff_get.mp hall).2 y (by rwa [List.length_range, ← hlength]) hy
  rw [List.get_eq_getElem, List.getElem_range] at hcell
  exact answers_mapM _ hcell

lemma fillRows_ne_fault_iff (h : ∀ edge ∈ edges, edge.Within int32s int32s) : fillRows edges ≠ fault ↔
    ∀ edge ∈ edges, ∀ sampleY, SampleLine sampleY → Crosses sampleY edge.y₀ edge.y₁ → edge.downward.Narrow := by
  have hcell : ∀ x ∈ List.range 13, ∀ y ∈ List.range 28, rasterizeCoverage edges x y ≠ fault ↔
      ∀ s ∈ samples, ∀ edge ∈ edges, Crosses (y * 16 + s.2) edge.y₀ edge.y₁ → edge.downward.Narrow := by
    intro x hx y hy
    rw [List.mem_range] at hx hy
    rw [rasterizeCoverage, bind_ne_fault_iff, and_iff_left fun _ _ => nofun]
    exact coveredFrom_ne_fault_iff h (by omega) (by omega) (List.Subset.refl _)
  rw [fillRows, mapM_ne_fault_iff fun y _ => mapM_ne_refuse fun x _ => rasterizeCoverage_ne_refuse]
  simp only [mapM_ne_fault_iff fun x _ => rasterizeCoverage_ne_refuse]
  constructor
  · rintro hrows edge hedge _ ⟨y, hy, s, hs, rfl⟩
    have hmem : y ∈ List.range 28 := List.mem_range.mpr hy
    exact (hcell 0 (by decide) y hmem).mp (hrows y hmem 0 (by decide)) s hs edge hedge
  · intro hedges y hy x hx
    refine (hcell x hx y hy).mpr fun s hs edge hedge => ?_
    exact hedges edge hedge _ ⟨y, List.mem_range.mp hy, s, hs, rfl⟩

/-! ### Glyphs -/

variable {bytes : List UInt8} {font : TtfFont} {metrics : FontMetrics} {codepoint : UInt32}
  {outline : GlyphOutline} {c : Contours GlyphPoint}

/-- The strokes of an outline with the given advance width in the cell. -/
abbrev cellStrokes (font : TtfFont) (metrics : FontMetrics) (advanceWidth : ℤ) (c : Contours GlyphPoint) :
    List Stroke :=
  strokes (c.map (cellPoint metrics (cellOffset font metrics advanceWidth)))

/-- The scaled points fit in 32 bits, and so do the curves and midpoints that are drawn before more than
768 edges are needed. If no more are, those that cross a row of samples are not too long. -/
structure DrawsWithin (font : TtfFont) (metrics : FontMetrics) (advanceWidth : ℤ) (c : Contours GlyphPoint) :
    Prop where
  scaled : ∀ p ∈ c.points, (cellPoint metrics (cellOffset font metrics advanceWidth) p).Fits
  drawn : InOrderWithin Stroke.Fits Stroke.edge maxRasterEdges 0 (cellStrokes font metrics advanceWidth c)
  filled : ((cellStrokes font metrics advanceWidth c).filterMap Stroke.edge).length ≤ maxRasterEdges →
    ∀ edge ∈ (cellStrokes font metrics advanceWidth c).filterMap Stroke.edge, ∀ sampleY, SampleLine sampleY →
      Crosses sampleY edge.y₀ edge.y₁ → edge.downward.Narrow

/-- What is done with the outline of a character is only reached if there is one with points. -/
lemma glyphEdges_bind_ne_fault_iff {β : Type} {f : List RasterEdge → Checked β} (hfont : font.Valid bytes) :
    glyphEdges bytes font metrics codepoint >>= f ≠ fault ↔
      ∀ outline, LoadsCharacter bytes font codepoint outline → outline.pointCount ≠ 0 →
        (do
          let scaled ← scaleOutlineToCell font outline metrics
          let edges ← outlineEdges scaled
          f edges) ≠ fault := by
  have hglyph := (safe_glyphForCodepoint hfont codepoint).ne_fault
  have hload := fun glyph =>
    (safe_loadGlyphOutline hfont (show 10 ≤ 10 + 0 from le_rfl) (Nat.zero_le 9) glyph).ne_fault
  rw [glyphEdges, bind_assoc, bind_ne_fault_iff_of_ne_fault hglyph]
  simp only [bind_assoc, require_bind_ne_fault_iff, bind_ne_fault_iff_of_ne_fault (hload _), decide_eq_true_eq]
  constructor
  · rintro h outline ⟨glyph, hfound, hne, hrun⟩ hcount
    exact h glyph hfound hne outline hrun hcount
  · intro h glyph hfound hne outline hrun hcount
    exact h outline ⟨glyph, hfound, hne, hrun⟩ hcount

/-- Scaling, drawing and filling do not overflow exactly when the exact numbers fit. -/
lemma drawsWithin_iff (hmetrics : metrics.Small) (hc : outline.Shows c) (hsmall : outline.Small farthest) :
    (do
      let scaled ← scaleOutlineToCell font outline metrics
      let edges ← outlineEdges scaled
      fillRows edges) ≠ fault ↔ DrawsWithin font metrics outline.advanceWidth c := by
  rcases @scaleOutlineToCell_cases font metrics outline c hmetrics hc hsmall with
    ⟨hfits, scaled, hrun, hshows⟩ | ⟨hfits, hrun⟩
  · have hbox : ∀ p ∈ (c.map (cellPoint metrics (cellOffset font metrics outline.advanceWidth))).points,
        p.Within int32s int32s := by
      intro q hq
      obtain ⟨p, hp, rfl⟩ := List.mem_map.mp hq
      exact ⟨mem_int32s.mpr (hfits p hp).1, mem_int32s.mpr (hfits p hp).2⟩
    rw [hrun, ok_bind, outlineEdges_eq hshows, collect_bind_ne_fault_iff,
      fillRows_ne_fault_iff (edges_within hbox)]
    constructor
    · rintro ⟨hdrawn, hfilled⟩
      exact ⟨hfits, hdrawn, hfilled⟩
    · intro h
      exact ⟨h.drawn, h.filled⟩
  · rw [hrun]
    exact iff_of_false (fun h => h rfl) fun h => hfits h.scaled

/-! ### Fonts that are not tiny -/

/-- Coordinates that can be added and weighted by up to 64. -/
abbrev inner : Set ℤ := Set.Icc (1 - 2 ^ 25) (2 ^ 25 - 1)

lemma bezierFits_of_inner {i p₀ p₁ p₂ : ℤ} (hlow : 1 ≤ i) (hhigh : i ≤ 8) (h₀ : p₀ ∈ inner)
    (h₁ : p₁ ∈ inner) (h₂ : p₂ ∈ inner) : BezierFits i p₀ p₁ p₂ := by
  rw [Set.mem_Icc] at h₀ h₁ h₂
  simp only [BezierFits, InInt32]
  interval_cases i <;> omega

lemma Stroke.Through.fits {s : Stroke} (h : s.Through inner inner) : s.Fits := by
  have hsum : ∀ {a b : ℤ}, a ∈ inner → b ∈ inner → InInt32 (a + b) := by
    intro a b ha hb
    rw [Set.mem_Icc] at ha hb
    exact inInt32_of_le (by omega)
  cases s with
  | midpoint p q => exact ⟨hsum h.1.1 h.2.1, hsum h.1.2 h.2.2⟩
  | line p q => trivial
  | chord p₀ p₁ p₂ i =>
    obtain ⟨⟨h₀, h₁, h₂⟩, hlow, hhigh⟩ := h
    exact ⟨bezierFits_of_inner hlow hhigh h₀.1 h₁.1 h₂.1, bezierFits_of_inner hlow hhigh h₀.2 h₁.2 h₂.2⟩

lemma RasterEdge.Within.narrow (h : edge.Within inner inner) : edge.downward.Narrow := by
  simp only [RasterEdge.Within, Set.mem_Icc] at h
  rw [RasterEdge.Narrow, RasterEdge.downward]
  split
  · exact ⟨inInt32_of_le (by dsimp only; omega), inInt32_of_le (by dsimp only; omega)⟩
  · exact ⟨inInt32_of_le (by omega), inInt32_of_le (by omega)⟩

lemma exactDesign_of_span {value span : ℤ} (hspan : 160 ≤ span) (hvalue : -13172736 ≤ value ∧ value ≤ 13172736) :
    8 - 2 ^ 21 ≤ exactDesign value 24 span ∧ exactDesign value 24 span ≤ 2 ^ 21 - 8 := by
  have hquotient : ∀ v : ℤ, 0 ≤ v → v ≤ 13172736 →
      0 ≤ (v * 24 + span.tdiv 2).tdiv span ∧ (v * 24 + span.tdiv 2).tdiv span < 2 ^ 21 - 7 := by
    intro v hpos hle
    have hhalf : span.tdiv 2 = span / 2 := Int.tdiv_eq_ediv_of_nonneg (by omega)
    rw [hhalf, Int.tdiv_eq_ediv_of_nonneg (by omega)]
    constructor
    · exact Int.ediv_nonneg (by omega) (by omega)
    · exact Int.ediv_lt_of_lt_mul (by omega) (by omega)
  rw [exactDesign]
  split_ifs with hpos
  · have hle := hquotient value hpos hvalue.2
    omega
  · have hle := hquotient (-value) (by omega) (by omega)
    omega

/-- If the scaled line is at least 160 units high, no outline is too large. -/
lemma drawsWithin_of_span (hmetrics : metrics.Small) (hspan : 160 ≤ metrics.designSpan) {advanceWidth : ℤ}
    (hnear : ∀ p ∈ c.points, p.Near farthest) : DrawsWithin font metrics advanceWidth c := by
  have hbox : ∀ p ∈ c.points,
      (cellPoint metrics (cellOffset font metrics advanceWidth) p).Within inner inner := by
    intro p hp
    have hp' := hnear p hp
    simp only [GlyphPoint.Near, farthest] at hp'
    have htop := hmetrics.designTop
    have hx := @exactDesign_of_span p.x _ hspan (by omega)
    have hy := @exactDesign_of_span (metrics.designTop - p.y) _ hspan (by omega)
    have hoffset := cellOffset_le font metrics advanceWidth
    simp only [GlyphPoint.Within, cellPoint, hmetrics.scale, hmetrics.originY, Set.mem_Icc]
    omega
  have hpoints : ∀ q ∈ (c.map (cellPoint metrics (cellOffset font metrics advanceWidth))).points,
      q.Within inner inner := by
    intro q hq
    obtain ⟨p, hp, rfl⟩ := List.mem_map.mp hq
    exact hbox p hp
  constructor
  · intro p hp
    have hp' := hbox p hp
    simp only [GlyphPoint.Within, Set.mem_Icc] at hp'
    exact ⟨inInt32_of_le (by omega), inInt32_of_le (by omega)⟩
  · intro front s back hstrokes _
    have hs : s ∈ cellStrokes font metrics advanceWidth c := by
      rw [hstrokes]
      exact List.mem_append_right front List.mem_cons_self
    exact (strokes_through hpoints s hs).fits
  · intro _ edge hedge _ _ _
    exact (edges_within hpoints edge hedge).narrow

lemma loaded_small (hparse : parseTtf bytes = .ok font) (hload : LoadsCharacter bytes font codepoint outline) :
    outline.Small farthest ∧ ∃ c, outline.Shows c := by
  obtain ⟨glyph, -, -, hrun⟩ := hload
  have hfont := (safe_parseTtf bytes).answer font hparse
  obtain ⟨c, hc, -⟩ := answers_loadGlyphOutline hfont 10 0 glyph outline hrun
  exact ⟨answers_loadGlyphOutline_small outline hrun, c, hc⟩

lemma rasterizeGlyph_ne_fault_iff_draws (hparse : parseTtf bytes = .ok font)
    (hmetrics : buildFontMetrics bytes font = .ok metrics) :
    rasterizeGlyph bytes font metrics codepoint ≠ fault ↔ codepoint = 32 ∨
      ∀ outline c, LoadsCharacter bytes font codepoint outline → outline.Shows c →
        outline.pointCount ≠ 0 → DrawsWithin font metrics outline.advanceWidth c := by
  have hfont := (safe_parseTtf bytes).answer font hparse
  have hsmall := answers_buildFontMetrics_small (answers_parseTtf_small font hparse) metrics hmetrics
  by_cases hspace : codepoint = 32
  · refine iff_of_true ?_ (.inl hspace)
    rw [rasterizeGlyph, if_pos hspace]
    nofun
  · rw [rasterizeGlyph, if_neg hspace, or_iff_right hspace]
    change glyphEdges bytes font metrics codepoint >>= fillRows ≠ fault ↔ _
    rw [glyphEdges_bind_ne_fault_iff hfont]
    constructor
    · intro h outline c houtline hc hcount
      exact (drawsWithin_iff hsmall hc (loaded_small hparse houtline).1).mp (h outline houtline hcount)
    · intro h outline houtline hcount
      obtain ⟨hnear, c, hc⟩ := loaded_small hparse houtline
      exact (drawsWithin_iff hsmall hc hnear).mpr (h outline c houtline hc hcount)

lemma rasterizeGlyph_ne_fault_of_span (hparse : parseTtf bytes = .ok font)
    (hmetrics : buildFontMetrics bytes font = .ok metrics) (hspan : 160 ≤ metrics.designSpan) :
    rasterizeGlyph bytes font metrics codepoint ≠ fault := by
  have hsmall := answers_buildFontMetrics_small (answers_parseTtf_small font hparse) metrics hmetrics
  refine (rasterizeGlyph_ne_fault_iff_draws hparse hmetrics).mpr (.inr fun outline c houtline hc _ => ?_)
  obtain ⟨hnear, -⟩ := loaded_small hparse houtline
  exact drawsWithin_of_span hsmall hspan (hc.points.all hnear.points hc.pointCount_le)

/-- No operation of the rasteriser overflows or divides by zero exactly when the character is a space, has
no outline with points, or has one whose exact numbers fit. They fit if the scaled line is at least 160 units
high. -/
theorem rasterizeGlyph_ne_fault_iff (hparse : parseTtf bytes = .ok font)
    (hmetrics : buildFontMetrics bytes font = .ok metrics) :
    (rasterizeGlyph bytes font metrics codepoint ≠ fault ↔ codepoint = 32 ∨
      ∀ outline c, LoadsCharacter bytes font codepoint outline → outline.Shows c →
        outline.pointCount ≠ 0 → DrawsWithin font metrics outline.advanceWidth c) ∧
    (160 ≤ metrics.designSpan → rasterizeGlyph bytes font metrics codepoint ≠ fault) :=
  ⟨rasterizeGlyph_ne_fault_iff_draws hparse hmetrics, rasterizeGlyph_ne_fault_of_span hparse hmetrics⟩

/-- The line of this font is 200 units high. -/
theorem rasterizeGlyph_ne_fault_letter : ∃ font metrics, parseTtf twoTriangles = .ok font ∧
    buildFontMetrics twoTriangles font = .ok metrics ∧ rasterizeGlyph twoTriangles font metrics 0x41 ≠ fault := by
  have hrun : (do
      let font ← parseTtf twoTriangles
      let metrics ← buildFontMetrics twoTriangles font
      return decide (160 ≤ metrics.designSpan)) = .ok true := by decide +kernel
  obtain ⟨font, hparse, hrun⟩ := exists_of_bind_eq_ok hrun
  obtain ⟨metrics, hmetrics, hrun⟩ := exists_of_bind_eq_ok hrun
  rw [pure_eq_ok, Except.ok.injEq, decide_eq_true_eq] at hrun
  exact ⟨font, metrics, hparse, hmetrics, (rasterizeGlyph_ne_fault_iff hparse hmetrics).2 hrun⟩

/-- A font whose line is one unit high. The letter `A` is a curve between points 32767 units apart. -/
def wideCurve : List UInt8 :=
  -- the table directory
  [0, 1, 0, 0, 0, 7] ++ List.replicate 6 0 ++
  [0x63, 0x6d, 0x61, 0x70, 0, 0, 0, 0, 0, 0, 0, 254, 0, 0, 0, 40] ++
  [0x67, 0x6c, 0x79, 0x66, 0, 0, 0, 0, 0, 0, 0, 230, 0, 0, 0, 24] ++
  [0x68, 0x65, 0x61, 0x64, 0, 0, 0, 0, 0, 0, 0, 124, 0, 0, 0, 54] ++
  [0x68, 0x68, 0x65, 0x61, 0, 0, 0, 0, 0, 0, 0, 178, 0, 0, 0, 36] ++
  [0x68, 0x6d, 0x74, 0x78, 0, 0, 0, 0, 0, 0, 0, 220, 0, 0, 0, 4] ++
  [0x6c, 0x6f, 0x63, 0x61, 0, 0, 0, 0, 0, 0, 0, 224, 0, 0, 0, 6] ++
  [0x6d, 0x61, 0x78, 0x70, 0, 0, 0, 0, 0, 0, 0, 214, 0, 0, 0, 6] ++
  -- `head`, `hhea` with an ascent of 1, `maxp` and `hmtx`
  List.replicate 18 0 ++ [0, 200] ++ List.replicate 34 0 ++
  List.replicate 5 0 ++ [1] ++ List.replicate 28 0 ++ [0, 1] ++
  [0, 0, 0, 0, 0, 2] ++
  [0, 100, 0, 0] ++
  -- `loca`, and the glyph in `glyf`
  [0, 0, 0, 0, 0, 12] ++
  [0, 1, 0, 0, 0, 0, 127, 255, 0, 0, 0, 2, 0, 0, 0x21, 0x20, 0x21, 127, 255, 127, 255, 127, 255, 0] ++
  -- `cmap`
  [0, 0, 0, 1, 0, 3, 0, 10, 0, 0, 0, 12] ++
  [0, 12, 0, 0, 0, 0, 0, 28, 0, 0, 0, 0, 0, 0, 0, 1] ++
  [0, 0, 0, 65, 0, 0, 0, 65, 0, 0, 0, 1]

/-- The weighted sum of the curve overflows while the glyph is drawn. -/
theorem wideCurve_overflows : ∃ font metrics outline scaled, parseTtf wideCurve = .ok font ∧
    buildFontMetrics wideCurve font = .ok metrics ∧ LoadsCharacter wideCurve font 0x41 outline ∧
    scaleOutlineToCell font outline metrics = .ok scaled ∧ outlineEdges scaled = fault ∧
    rasterizeGlyph wideCurve font metrics 0x41 = fault := by
  have hrun : (do
      let font ← parseTtf wideCurve
      let metrics ← buildFontMetrics wideCurve font
      let glyph ← glyphForCodepoint wideCurve font 0x41
      let outline ← loadGlyphOutline wideCurve font 10 0 glyph
      let scaled ← scaleOutlineToCell font outline metrics
      return decide (glyph ≠ 0 ∧ outlineEdges scaled = fault ∧
        rasterizeGlyph wideCurve font metrics 0x41 = fault)) = .ok true := by decide +kernel
  obtain ⟨font, hparse, hrun⟩ := exists_of_bind_eq_ok hrun
  obtain ⟨metrics, hmetrics, hrun⟩ := exists_of_bind_eq_ok hrun
  obtain ⟨glyph, hglyph, hrun⟩ := exists_of_bind_eq_ok hrun
  obtain ⟨outline, houtline, hrun⟩ := exists_of_bind_eq_ok hrun
  obtain ⟨scaled, hscaled, hrun⟩ := exists_of_bind_eq_ok hrun
  rw [pure_eq_ok, Except.ok.injEq, decide_eq_true_eq] at hrun
  exact ⟨font, metrics, outline, scaled, hparse, hmetrics, ⟨glyph, hglyph, hrun.1, houtline⟩, hscaled,
    hrun.2⟩

end Xbks
