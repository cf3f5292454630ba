import Xbks.Drivers.RasterMetrics
import Xbks.Properties.Overflow

/-!
# No printable character is cropped

The scale is chosen so that the heights of all printable characters lie in the band between the two
empty rows at the top of the cell and the two at its bottom. Drawing does not leave the band.
-/

namespace Xbks

open Checked

/-- The height lies between the empty rows. -/
def InBand (y : ℤ) : Prop := 32 ≤ y ∧ y ≤ 416

variable {metrics : FontMetrics} {bounds : ℤ × ℤ} {gap : ℤ}

/-! ### Scaling -/

/-- A height of at most the whole span is scaled to at most 24 pixels. -/
lemma answers_scaleDesign_le {value span : ℤ} (hvalue : 0 ≤ value) (hle : value ≤ span) (hspan : 0 < span) :
    Answers (scaleDesign value 24 span) fun s => 0 ≤ s ∧ s ≤ 24 := by
  rw [scaleDesign, if_pos hvalue]
  refine answers_int32.bind fun product hproduct => ?_
  refine answers_quot32.bind fun half hhalf => ?_
  refine answers_int32.bind fun sum hsum => ?_
  refine answers_quot32.mono fun s hs => ?_
  have hhalf' : half = span / 2 := by rw [hhalf.1, Int.tdiv_eq_ediv_of_nonneg hspan.le]
  have hsum' : 0 ≤ sum ∧ sum < 25 * span := by
    rw [hsum.1, hproduct.1, hhalf']
    omega
  rw [hs.1, Int.tdiv_eq_ediv_of_nonneg hsum'.1]
  constructor
  · exact Int.ediv_nonneg hsum'.1 hspan.le
  · exact Int.lt_add_one_iff.mp (Int.ediv_lt_of_lt_mul hspan hsum'.2)

lemma answers_scalePoint_inBand (h : metrics.For bounds gap) {offsetX : ℤ} {point : GlyphPoint}
    (hlow : bounds.1 ≤ point.y) (hhigh : point.y ≤ bounds.2) :
    Answers (scalePoint metrics offsetX point) fun point' => InBand point'.y := by
  refine (answers_trivial _).bind fun x _ => ?_
  refine answers_int32.bind fun below hbelow => ?_
  have hgap := h.gap_nonneg
  have hlt := h.lt
  have hhalf : gap.tdiv 2 = gap / 2 := Int.tdiv_eq_ediv_of_nonneg hgap
  have hscaled : Answers (scaleCoordinate metrics metrics.originY below) InBand := by
    rw [scaleCoordinate, h.scale, h.designSpan]
    have hbelow' : 0 ≤ below ∧ below ≤ bounds.2 - bounds.1 + gap := by
      rw [hbelow.1, h.designTop, hhalf]
      omega
    refine (answers_scaleDesign_le hbelow'.1 hbelow'.2 (by omega)).bind fun s hs => ?_
    refine answers_int32.bind fun sum hsum => ?_
    refine answers_int32.mono fun y hy => ?_
    rw [InBand, hy.1, hsum.1, h.originY]
    omega
  exact hscaled.bind fun y hy => answers_pure hy

/-! ### Drawing -/

/-- The ends of the edges lie in the band. -/
def EdgesInBand (edges : List RasterEdge) : Prop := ∀ edge ∈ edges, InBand edge.y₀ ∧ InBand edge.y₁

variable {edges : List RasterEdge} {outline : GlyphOutline}

/-- The edges stay between the points. -/
lemma answers_outlineEdges_inBand {d : Contours GlyphPoint} (hd : outline.Shows d)
    (hband : ∀ p ∈ d.points, InBand p.y) : Answers (outlineEdges outline) EdgesInBand := by
  rw [outlineEdges_eq hd]
  refine answers_collect.mono fun edges hedges => ?_
  have hpoints : ∀ p ∈ d.points, p.Within Set.univ (Set.Icc 32 416) :=
    fun p hp => ⟨Set.mem_univ p.x, hband p hp⟩
  rw [hedges.1, List.nil_append]
  intro edge hedge
  have hwithin := edges_within hpoints edge hedge
  exact ⟨hwithin.1.2, hwithin.2.2⟩

/-! ### Filling -/

/-- The line of the sample is not in the band. -/
def BesideBand (sampleY : ℤ) : Prop := sampleY < 32 ∨ 416 ≤ sampleY

lemma pointInsideFrom_of_beside (h : EdgesInBand edges) {sampleX sampleY : ℤ} (hsample : BesideBand sampleY)
    (inside : Bool) : pointInsideFrom sampleX sampleY edges inside = .ok inside := by
  induction edges with
  | nil => rfl
  | cons edge edges ih =>
    rw [EdgesInBand, List.forall_mem_cons] at h
    have hskip : sampleY < edge.downward.y₀ ∨ sampleY ≥ edge.downward.y₁ := by
      have hedge := h.1
      rw [InBand, InBand] at hedge
      rw [BesideBand] at hsample
      rw [RasterEdge.downward]
      split
      · dsimp only
        omega
      · omega
    rw [pointInsideFrom, if_pos hskip]
    exact ih h.2

lemma answers_rasterizeCoverage_beside (h : EdgesInBand edges) {x y : ℤ}
    (hrow : ∀ sample ∈ samples, BesideBand (y * 16 + sample.2)) :
    Answers (rasterizeCoverage edges x y) fun covered => covered = 0 := by
  have hloop : ∀ rest : List (ℤ × ℤ), (∀ sample ∈ rest, BesideBand (y * 16 + sample.2)) →
      Answers (coveredFrom edges x y rest 0) fun covered => covered = 0 := by
    intro rest
    induction rest with
    | nil => exact fun _ => answers_pure rfl
    | cons sample rest ih =>
      intro hrest
      rw [List.forall_mem_cons] at hrest
      refine (answers_trivial _).bind fun left _ => ?_
      refine (answers_trivial _).bind fun sampleX _ => ?_
      refine answers_int32.bind fun top htop => ?_
      refine answers_int32.bind fun sampleY hsampleY => ?_
      rw [hsampleY.1, htop.1, pointInsideOutline, pointInsideFrom_of_beside h hrest.1, ok_bind]
      exact ih hrest.2
  refine (hloop samples hrow).bind fun covered hcovered => answers_pure ?_
  rw [hcovered]
  rfl

lemma beside_of_mem : ∀ y ∈ ([0, 1, 26, 27] : List ℕ),
    y < 28 ∧ ∀ sample ∈ samples, BesideBand ((y : ℤ) * 16 + sample.2) := by
  unfold BesideBand
  decide

/-- The rows above and below the band are empty. -/
lemma answers_rows_framed (h : EdgesInBand edges) :
    Answers (fillRows edges) fun rows => rows.length = 28 ∧ (∀ row ∈ rows, row.length = 13) ∧
      ∀ y ∈ [0, 1, 26, 27], rows[y]? = some (List.replicate 13 0) := by
  intro rows hrows
  obtain ⟨hlength, hrow⟩ := fillRows_spec hrows
  refine ⟨hlength, ?_, ?_⟩
  · intro row hmem
    obtain ⟨y, hy, rfl⟩ := List.mem_iff_getElem.mp hmem
    exact (hrow y hy).length_eq.symm
  · intro y hy
    have hbeside := beside_of_mem y hy
    have hlt : y < rows.length := hlength ▸ hbeside.1
    rw [List.getElem?_eq_getElem hlt, Option.some.injEq, List.eq_replicate_iff]
    refine ⟨(hrow y hlt).length_eq.symm, ?_⟩
    intro v hv
    obtain ⟨x, hx, rfl⟩ := List.mem_iff_getElem.mp hv
    have hcovered := (List.forall₂_iff_get.mp (hrow y hlt)).2 x ((hrow y hlt).length_eq ▸ hx) hx
    exact answers_rasterizeCoverage_beside h hbeside.2 _ hcovered

/-! ### Characters -/

variable {bytes : List UInt8} {font : TtfFont} {codepoint : UInt32}

/-- Every point of the outline satisfies `P`. -/
def GlyphOutline.AllPoints (outline : GlyphOutline) (P : GlyphPoint → Prop) : Prop :=
  ∀ i : Fin 384, i.val < outline.pointCount → ∀ p ∈ outline.points i, P p

instance (outline : GlyphOutline) (P : GlyphPoint → Prop) [DecidablePred P] :
    Decidable (outline.AllPoints P) :=
  inferInstanceAs (Decidable (∀ i : Fin 384, i.val < outline.pointCount → ∀ p ∈ outline.points i, P p))

lemma GlyphOutline.Shows.allPoints_iff {c : Contours GlyphPoint} (h : outline.Shows c)
    {P : GlyphPoint → Prop} : outline.AllPoints P ↔ ∀ p ∈ c.points, P p := by
  have hle := h.pointCount_le
  constructor
  · intro hall p hp
    obtain ⟨i, hi, rfl⟩ := List.mem_iff_getElem.mp hp
    have hcell := h.points ⟨i, by omega⟩ hi
    exact hall ⟨i, by omega⟩ (h.pointCount ▸ hi) _ (hcell.trans (List.getElem?_eq_getElem hi))
  · intro hall i hi p hp
    rw [h.points i (h.pointCount ▸ hi)] at hp
    exact hall p (List.mem_of_getElem? hp)

/-- The points of the scaled outline lie in the band. -/
lemma answers_scaleOutlineToCell_inBand {c : Contours GlyphPoint} (hmetrics : metrics.For bounds gap)
    (hc : outline.Shows c) (hinside : ∀ p ∈ c.points, bounds.1 ≤ p.y ∧ p.y ≤ bounds.2) :
    Answers (scaleOutlineToCell font outline metrics) fun scaled =>
      ∃ d : Contours GlyphPoint, scaled.Shows d ∧ ∀ q ∈ d.points, InBand q.y := by
  refine (answers_scaleOutlineToCell hc).mono fun scaled hscaled => ?_
  obtain ⟨offsetX, qs, hlen, hshows, hall⟩ := hscaled
  refine ⟨_, hshows, ?_⟩
  intro q hq
  obtain ⟨i, hi, rfl⟩ := List.mem_iff_getElem.mp hq
  have hi' : i < c.points.length := hlen ▸ hi
  have hpoint := (List.forall₂_iff_get.mp hall).2 i hi' hi
  have hp := hinside _ (List.getElem_mem hi')
  exact answers_scalePoint_inBand hmetrics hp.1 hp.2 _ hpoint

/-- If the points of a printable character lie between the bounds that its outline declares, scaling
and drawing keep them in the band, and the two rows at the top and at the bottom of the cell stay
empty. -/
theorem rasterizeGlyph_not_cropped (hparse : parseTtf bytes = .ok font)
    (hmetrics : buildFontMetrics bytes font = .ok metrics) (hlow : 0x21 ≤ codepoint)
    (hhigh : codepoint ≤ 0x7e) (hload : LoadsCharacter bytes font codepoint outline)
    (hinside : outline.AllPoints fun p => outline.yMin ≤ p.y ∧ p.y ≤ outline.yMax) :
    (∀ scaled, scaleOutlineToCell font outline metrics = .ok scaled →
      scaled.AllPoints (fun p => InBand p.y) ∧
        ∀ edges, outlineEdges scaled = .ok edges → EdgesInBand edges) ∧
    ∀ rows, rasterizeGlyph bytes font metrics codepoint = .ok rows →
      rows.length = 28 ∧ (∀ row ∈ rows, row.length = 13) ∧
        ∀ y ∈ [0, 1, 26, 27], rows[y]? = some (List.replicate 13 0) := by
  have hfont := (safe_parseTtf bytes).answer font hparse
  obtain ⟨bounds, gap, hfor, hincludes⟩ := answers_buildFontMetrics metrics hmetrics
  have hge : (0x20 : UInt32) ≤ codepoint := UInt32.le_trans (by decide) hlow
  have hbounds := hincludes codepoint hge hhigh outline hload
  obtain ⟨glyph, hglyph, hne, hrun⟩ := hload
  obtain ⟨c, hc, -⟩ := answers_loadGlyphOutline hfont 10 0 glyph outline hrun
  have hpoints : ∀ p ∈ c.points, bounds.1 ≤ p.y ∧ p.y ≤ bounds.2 := by
    intro p hp
    have hown := hc.allPoints_iff.mp hinside p hp
    have hcount : outline.pointCount ≠ 0 := by
      rw [hc.pointCount]
      exact (List.length_pos_of_mem hp).ne'
    exact ⟨(hbounds hcount).1.trans hown.1, hown.2.trans (hbounds hcount).2⟩
  have hscale : ∀ scaled, scaleOutlineToCell font outline metrics = .ok scaled →
      scaled.AllPoints (fun p => InBand p.y) ∧
        ∀ edges, outlineEdges scaled = .ok edges → EdgesInBand edges := by
    intro scaled hscaled
    obtain ⟨d, hd, hband⟩ := answers_scaleOutlineToCell_inBand hfor hc hpoints scaled hscaled
    exact ⟨hd.allPoints_iff.mpr hband,
      answers_outlineEdges_inBand hd hband⟩
  refine ⟨hscale, ?_⟩
  have hspace : codepoint ≠ 32 := by
    rintro rfl
    exact absurd hlow (by decide)
  have hedges : Answers (glyphEdges bytes font metrics codepoint) EdgesInBand := by
    rw [glyphEdges, hglyph, ok_bind]
    refine (answers_require _).bind fun _ _ => ?_
    rw [hrun, ok_bind]
    refine (answers_require _).bind fun _ _ => ?_
    refine (answers_trivial _).bind fun scaled hscaled => ?_
    exact (hscale scaled hscaled).2
  have hrows : Answers (rasterizeGlyph bytes font metrics codepoint) fun rows =>
      rows.length = 28 ∧ (∀ row ∈ rows, row.length = 13) ∧
        ∀ y ∈ [0, 1, 26, 27], rows[y]? = some (List.replicate 13 0) := by
    rw [rasterizeGlyph, if_neg hspace]
    exact hedges.bind fun edges hband => answers_rows_framed hband
  exact hrows

/-- The letter `A` of this font is composed of two triangles that lie between its bounds. -/
theorem rasterizeGlyph_not_cropped_letter : ∃ font metrics rows,
    rasterizeGlyph twoTriangles font metrics 0x41 = .ok rows ∧ rows.length = 28 ∧
      rows[1]? = some (List.replicate 13 0) ∧ rows[22]? ≠ some (List.replicate 13 0) := by
  have hrun : (do
      let font ← parseTtf twoTriangles
      let metrics ← buildFontMetrics twoTriangles font
      let glyph ← glyphForCodepoint twoTriangles font 0x41
      let outline ← loadGlyphOutline twoTriangles font 10 0 glyph
      let edges ← glyphEdges twoTriangles font metrics 0x41
      let covered ← rasterizeCoverage edges 11 22
      return decide ((glyph ≠ 0 ∧ outline.AllPoints fun p => outline.yMin ≤ p.y ∧ p.y ≤ outline.yMax) ∧
        160 ≤ metrics.designSpan ∧ covered ≠ 0)) = .ok true := by decide +kernel
  obtain ⟨font, hparse, hrun⟩ := exists_of_bind_eq_ok hrun
  obtain ⟨metrics, hmetrics, hrun⟩ := exists_of_bind_eq_ok hrun
  obtain ⟨glyph, hglyph, hrun⟩ := exists_of_bind_eq_ok hrun
  obtain ⟨outline, houtline, hrun⟩ := exists_of_bind_eq_ok hrun
  obtain ⟨edges, hedges, hrun⟩ := exists_of_bind_eq_ok hrun
  obtain ⟨covered, hcovered, hrun⟩ := exists_of_bind_eq_ok hrun
  rw [pure_eq_ok, Except.ok.injEq, decide_eq_true_eq] at hrun
  obtain ⟨hinside, hspan, hne⟩ := hrun
  -- all pixels are computed without a fault, of one of them the value is needed
  have hdraw : rasterizeGlyph twoTriangles font metrics 0x41 = fillRows edges := by
    rw [rasterizeGlyph, if_neg (by decide), hedges, ok_bind, fillRows]
  have hfault := @rasterizeGlyph_ne_fault_of_span _ _ _ 0x41 hparse hmetrics hspan
  rcases hrows : fillRows edges with (_ | _) | rows
  all_goals rw [hrows] at hdraw
  · exact absurd hdraw hfault
  · exact absurd hrows fillRows_ne_refuse
  · have hresult := (rasterizeGlyph_not_cropped hparse hmetrics (by decide) (by decide)
      ⟨glyph, hglyph, hinside.1, houtline⟩ hinside.2).2 rows hdraw
    refine ⟨font, metrics, rows, hdraw, hresult.1, hresult.2.2 1 (by decide), fun hrow => hne ?_⟩
    obtain ⟨hlength, hcells⟩ := fillRows_spec hrows
    rw [List.getElem?_eq_getElem (by omega), Option.some.injEq] at hrow
    have hcell := hcells 22 (by omega)
    rw [hrow] at hcell
    have hzero := (List.forall₂_iff_get.mp hcell).2 11 (by decide) (by decide)
    rw [List.get_eq_getElem, List.getElem_range, List.get_eq_getElem, List.getElem_replicate] at hzero
    exact Except.ok.inj (hcovered.symm.trans hzero)

end Xbks
