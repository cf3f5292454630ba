import Xbks.Drivers.FontBytes
import Xbks.Drivers.RasterOutline

/-!
# Loaded outlines are cut into contours
-/

namespace Xbks

open Checked

variable {bytes : List UInt8} {font : TtfFont} {outline : GlyphOutline} {c : Contours GlyphPoint}

/-- `outline_edges` draws these ranges of points. Each passes the check of `contour_to_edges`, and
every point lies in just one. -/
structure DrawsOnce (outline : GlyphOutline) (ranges : List (ℕ × ℕ)) : Prop where
  draws : outlineEdges outline =
    ranges.foldlM (fun edges r => contourToEdges outline r.1 r.2 edges) []
  check : ∀ r ∈ ranges, ¬(r.1 > r.2 ∨ r.2 ≥ outline.pointCount)
  once : ∀ p < outline.pointCount, ranges.countP (fun r => r.1 ≤ p ∧ p ≤ r.2) = 1

lemma GlyphOutline.Shows.drawsOnce (h : outline.Shows c) : DrawsOnce outline c.ranges where
  draws := h.outlineEdges_eq
  check r hr := by
    have hbounds := c.ranges_bounds hr
    rw [h.pointCount]
    omega
  once p hp := c.countP_ranges (h.pointCount ▸ hp)

/-- A loaded outline represents points cut into contours, and a composite one is assembled from its
components. So drawing it, scaled or not, visits every point in just one contour. -/
theorem loadGlyphOutline_represents (hparse : parseTtf bytes = .ok font) {fuel depth : ℕ}
    {glyph : UInt16} (h : loadGlyphOutline bytes font fuel depth glyph = .ok outline) :
    ∃ c : Contours GlyphPoint, outline.Shows c ∧
      outline.pointCount ≤ 384 ∧ outline.contourCount ≤ 64 ∧ c.ends.Pairwise (· < ·) ∧
      (outline.contourCount = 0 ∧ outline.pointCount = 0 ∨
        c.ends.getLast? = some (outline.pointCount - 1)) ∧
      (∀ glyphData glyphSize, IsComposite bytes font glyph glyphData glyphSize →
        ∃ components parts, ComponentRecords bytes glyphData glyphSize 10 components ∧
          List.Forall₂ (LoadsAs (loadGlyphOutline bytes font (fuel - 1) (depth + 1))) components parts ∧
          c = assemble components parts) ∧
      DrawsOnce outline c.ranges ∧
      ∀ metrics scaled, scaleOutlineToCell font outline metrics = .ok scaled →
        DrawsOnce scaled c.ranges := by
  have hfont := (safe_parseTtf bytes).answer font hparse
  obtain ⟨c, hc, hcomposite⟩ := answers_loadGlyphOutline hfont fuel depth glyph outline h
  refine ⟨c, hc, hc.pointCount.trans_le hc.pointCount_le, hc.contourCount.trans_le hc.contourCount_le,
    c.increasing, ?_, hcomposite, hc.drawsOnce, ?_⟩
  · rw [hc.pointCount, hc.contourCount]
    rcases c.empty_or_last with ⟨hends, hpoints⟩ | hlast
    · rw [hends, hpoints]
      exact .inl ⟨rfl, rfl⟩
    · exact .inr hlast
  · intro metrics scaled hscale
    obtain ⟨offsetX, qs, hlen, hshows, -⟩ := answers_scaleOutlineToCell hc scaled hscale
    exact hshows.drawsOnce

/-- A font with two glyphs: a triangle, and for `A` a composite of two triangles. -/
def twoTriangles : List UInt8 :=
  -- the table directory
  [0, 1, 0, 0, 0, 7] ++ List.replicate 6 0 ++
  [0x63, 0x6d, 0x61, 0x70, 0, 0, 0, 0, 0, 0, 1, 16, 0, 0, 0, 40] ++
  [0x67, 0x6c, 0x79, 0x66, 0, 0, 0, 0, 0, 0, 0, 230, 0, 0, 0, 42] ++
  [0x68, 0x65, 0x61, 0x64, 0, 0, 0, 0, 0, 0, 0, 124, 0, 0, 0, 54] ++
  [0x68, 0x68, 0x65, 0x61, 0, 0, 0, 0, 0, 0, 0, 178, 0, 0, 0, 36] ++
  [0x68, 0x6d, 0x74, 0x78, 0, 0, 0, 0, 0, 0, 0, 220, 0, 0, 0, 4] ++
  [0x6c, 0x6f, 0x63, 0x61, 0, 0, 0, 0, 0, 0, 0, 224, 0, 0, 0, 6] ++
  [0x6d, 0x61, 0x78, 0x70, 0, 0, 0, 0, 0, 0, 0, 214, 0, 0, 0, 6] ++
  -- `head`, `hhea`, `maxp` and `hmtx`
  List.replicate 18 0 ++ [0, 200] ++ List.replicate 34 0 ++
  List.replicate 34 0 ++ [0, 1] ++
  [0, 0, 0, 0, 0, 2] ++
  [0, 100, 0, 0] ++
  -- `loca`, and the two glyphs in `glyf`
  [0, 0, 0, 10, 0, 21] ++
  [0, 1, 0, 0, 0, 0, 0, 100, 0, 100, 0, 2, 0, 0, 0x31, 0x33, 0x27, 100, 50, 100] ++
  [255, 255, 0, 0, 0, 0, 0, 110, 0, 120, 0, 0x22, 0, 0, 0, 0, 0, 0x02, 0, 0, 10, 20] ++
  -- `cmap`
  [0, 0, 0, 1, 0, 3, 0, 10, 0, 0, 0, 12] ++
  [0, 12, 0, 0, 0, 0, 0, 28, 0, 0, 0, 0, 0, 0, 0, 1] ++
  [0, 0, 0, 65, 0, 0, 0, 65, 0, 0, 0, 1]

theorem loadGlyphOutline_represents_twoTriangles : ∃ font outline,
    parseTtf twoTriangles = .ok font ∧ loadGlyphOutline twoTriangles font 10 0 1 = .ok outline ∧
    outline.pointCount = 6 ∧ ∃ c : Contours GlyphPoint, outline.Shows c ∧ DrawsOnce outline c.ranges := by
  have hload : (do
      let font ← parseTtf twoTriangles
      let outline ← loadGlyphOutline twoTriangles font 10 0 1
      return outline.pointCount) = .ok 6 := by decide +kernel
  obtain ⟨font, hparse, hload⟩ := exists_of_bind_eq_ok hload
  obtain ⟨outline, houtline, hcount⟩ := exists_of_bind_eq_ok hload
  obtain ⟨c, hc, -, -, -, -, -, hdraws, -⟩ := loadGlyphOutline_represents hparse houtline
  exact ⟨font, outline, hparse, houtline, Except.ok.inj hcount, c, hc, hdraws⟩

end Xbks
