import Xbks.Drivers.FontOutline
import Xbks.Drivers.Raster

/-!
# Outlines in the cell

`scale_outline_to_cell` moves every point and keeps the contours. `outline_edges` draws the contours
one after the other.
-/

namespace Xbks

open Checked

variable {font : TtfFont} {outline source : GlyphOutline} {c : Contours GlyphPoint}

/-! ### Scaling -/

variable {metrics : FontMetrics} {offsetX : ℤ}

lemma answers_scalePointsFrom {ps qs : List GlyphPoint} {points : Cells 384 GlyphPoint}
    {i remaining : ℕ} (hps : Cells.Holds source.points ps) (hqs : Cells.Holds points qs)
    (hscaled : List.Forall₂ (fun p q => scalePoint metrics offsetX p = .ok q) (ps.take i) qs)
    (hi : i + remaining = ps.length) :
    Answers (scalePointsFrom source metrics offsetX remaining i points) fun points' =>
      ∃ qs', Cells.Holds points' qs' ∧
        List.Forall₂ (fun p q => scalePoint metrics offsetX p = .ok q) ps qs' := by
  induction remaining generalizing i points qs with
  | zero =>
    rw [List.take_of_length_le (by omega)] at hscaled
    exact answers_pure ⟨qs, hqs, hscaled⟩
  | succ remaining ih =>
    have hlt : i < ps.length := by omega
    have hlen : i = qs.length := by
      rw [← hscaled.length_eq, List.length_take]
      omega
    refine (hps.answers_get hlt).bind fun point hpoint => ?_
    rw [List.getElem?_eq_getElem hlt, Option.some_inj] at hpoint
    refine (answers_trivial _).bind fun point' hpoint' => ?_
    refine (hqs.answers_set_next hlen point').bind fun points' hpoints' => ?_
    refine ih hpoints' ?_ (by omega)
    rw [List.take_succ_eq_append_getElem hlt, hpoint]
    exact List.rel_append hscaled (.cons hpoint' .nil)

/-- The scaled outline has the contours of the source, and each point is a scaled one. -/
lemma answers_scaleOutlineToCell (h : source.Shows c) :
    Answers (scaleOutlineToCell font source metrics) fun scaled =>
      ∃ (offsetX : ℤ) (qs : List GlyphPoint) (hlen : qs.length = c.points.length),
        scaled.Shows (c.replace qs hlen) ∧
        List.Forall₂ (fun p q => scalePoint metrics offsetX p = .ok q) c.points qs := by
  refine (answers_require _).bind fun _ _ => ?_
  refine (answers_trivial _).bind fun width _ => ?_
  refine (answers_trivial _).bind fun offsetX _ => ?_
  rw [h.pointCount, h.contourCount]
  refine (answers_scalePointsFrom h.points Cells.holds_nil .nil (Nat.zero_add _)).bind
    fun points hpoints => ?_
  obtain ⟨qs, hqs, hscaled⟩ := hpoints
  refine (answers_copyContoursFrom h.contours Cells.holds_nil rfl
    ((Nat.zero_add _).trans (List.length_map _).symm)).bind fun contours hcontours => answers_pure ?_
  refine ⟨offsetX, qs, hscaled.length_eq.symm, ?_, hscaled⟩
  exact {
    pointCount := hscaled.length_eq
    contourCount := rfl
    points := hqs
    contours := hcontours
    pointCount_le := hscaled.length_eq.symm.trans_le h.pointCount_le
    contourCount_le := h.contourCount_le }

/-! ### Edges -/

lemma outlineEdgesFrom_eq {es : List ℕ} {i remaining start : ℕ} {edges : List RasterEdge}
    (hes : Cells.Holds outline.contours (es.map UInt16.ofNat)) (hbound : ∀ e ∈ es, e < 384)
    (hlen : es.length ≤ 64) (hi : i + remaining = es.length) :
    outlineEdgesFrom outline remaining i start edges =
      (Contours.rangesFrom start (es.drop i)).foldlM
        (fun edges r => contourToEdges outline r.1 r.2 edges) edges := by
  induction remaining generalizing i start edges with
  | zero =>
    rw [List.drop_eq_nil_of_le (by omega)]
    rfl
  | succ remaining ih =>
    have hlt : i < es.length := by omega
    have hread := hes.get_eq (hlt.trans_le hlen) ((List.length_map _).symm ▸ hlt)
    have hstop : (UInt16.ofNat es[i]).toNat = es[i] := by
      have hsmall := hbound _ (List.getElem_mem hlt)
      exact UInt16.toNat_ofNat_of_lt' (show _ < 2 ^ 16 by omega)
    rw [outlineEdgesFrom, hread, ok_bind, List.get_eq_getElem, List.getElem_map, hstop,
      List.drop_eq_getElem_cons hlt, Contours.rangesFrom, List.foldlM_cons]
    exact congrArg _ (funext fun edges => ih (by omega))

/-- The edges of an outline, contour after contour. -/
lemma GlyphOutline.Shows.outlineEdges_eq (h : outline.Shows c) :
    outlineEdges outline = c.ranges.foldlM (fun edges r => contourToEdges outline r.1 r.2 edges) [] := by
  have hbound : ∀ e ∈ c.ends, e < 384 := fun e he => (c.end_lt he).trans_le h.pointCount_le
  rw [outlineEdges, outlineEdgesFrom_eq h.contours hbound h.contourCount_le
    ((Nat.zero_add _).trans h.contourCount), List.drop_zero]
  rfl

end Xbks
