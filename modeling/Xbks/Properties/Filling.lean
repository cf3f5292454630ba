import Mathlib.Tactic.Ring
import Xbks.Drivers.Raster
import Xbks.Lib.EvenOdd

/-!
# Even-odd filling does not leak
-/

namespace Xbks

open Checked EvenOdd

/-! ### The edges of a contour form a closed chain -/

/-- The edges in `edges'` behind `edges` lead from height `a` to height `b`. -/
abbrev Leads (edges edges' : List RasterEdge) (a b : ℤ) : Prop :=
  Joins RasterEdge.y₀ RasterEdge.y₁ edges edges' a b

variable {edges : List RasterEdge}

lemma answers_addEdge (x₀ y₀ x₁ y₁ : ℤ) :
    Answers (addEdge edges x₀ y₀ x₁ y₁) fun edges' => Leads edges edges' y₀ y₁ := by
  refine answers_ite (fun heq => answers_pure ?_) fun _ => ?_
  · rw [heq]
    exact joins_refl
  · refine (answers_require _).bind fun _ _ => answers_pure ?_
    have hedge : Leads edges (edges ++ [⟨x₀, y₀, x₁, y₁⟩]) y₀ y₁ := joins_append _
    exact hedge

lemma answers_quadraticCoordinate (mt t p₀ p₁ p₂ : ℤ) :
    Answers (quadraticCoordinate mt t p₀ p₁ p₂) fun y =>
      y = (mt * mt * p₀ + 2 * mt * t * p₁ + t * t * p₂).tdiv 64 := by
  refine answers_int32.bind fun first hfirst => ?_
  refine answers_int32.bind fun second hsecond => ?_
  refine answers_int32.bind fun partialSum hpartial => ?_
  refine answers_int32.bind fun third hthird => ?_
  refine answers_int32.bind fun sum hsum => ?_
  refine answers_quot32.mono fun y hy => ?_
  rw [hy.1, hsum.1, hpartial.1, hfirst.1, hsecond.1, hthird.1]
  rfl

/-- The last step of a curve ends at its last point. -/
lemma quadratic_last (p₀ p₁ p₂ : ℤ) :
    ((8 - 8) * (8 - 8) * p₀ + 2 * (8 - 8) * 8 * p₁ + 8 * 8 * p₂).tdiv 64 = p₂ := by
  rw [show (8 - 8) * (8 - 8) * p₀ + 2 * (8 - 8) * 8 * p₁ + 8 * 8 * p₂ = 64 * p₂ by ring]
  exact Int.mul_tdiv_cancel_left p₂ (by decide)

lemma answers_quadraticFrom (p₀ p₁ p₂ : GlyphPoint) {remaining : ℕ} {i previousX previousY : ℤ}
    (hi : i + remaining = 8) :
    Answers (quadraticFrom p₀ p₁ p₂ (remaining + 1) i previousX previousY edges) fun edges' =>
      Leads edges edges' previousY p₂.y := by
  induction remaining generalizing i previousX previousY edges with
  | zero =>
    have hlast : i = 8 := by simpa using hi
    refine (answers_trivial _).bind fun x _ => ?_
    refine (answers_quadraticCoordinate _ _ _ _ _).bind fun y hy => ?_
    rw [hlast, quadratic_last] at hy
    refine (answers_addEdge _ _ _ _).bind fun edges' hedges => answers_pure ?_
    rw [← hy]
    exact hedges
  | succ remaining ih =>
    refine (answers_trivial _).bind fun x _ => ?_
    refine (answers_trivial _).bind fun y _ => ?_
    refine (answers_addEdge _ _ _ _).bind fun edges' hedges => ?_
    exact (ih (by push_cast at hi; omega)).mono fun edges'' hedges' => hedges.trans hedges'

lemma answers_addQuadratic (p₀ p₁ p₂ : GlyphPoint) :
    Answers (addQuadratic edges p₀ p₁ p₂) fun edges' => Leads edges edges' p₀.y p₂.y :=
  answers_quadraticFrom p₀ p₁ p₂ (by norm_num)

variable {outline : GlyphOutline} {start stop : ℕ}

/-- The loop goes on from the point that it has reached. -/
lemma answers_contourFrom {fuel index : ℕ} {current : GlyphPoint} :
    Answers (contourFrom outline start stop fuel index current edges) fun drawn =>
      Leads edges drawn.2 current.y drawn.1.y := by
  induction fuel generalizing index current edges with
  | zero => exact answers_fault
  | succ fuel ih =>
    refine answers_ite (fun _ => ?_) fun _ => answers_pure joins_refl
    refine (answers_trivial _).bind fun control _ => ?_
    refine (answers_trivial _).bind fun next _ => ?_
    refine answers_ite (fun _ => ?_) fun _ => answers_ite (fun _ => ?_) fun _ => ?_
    · refine (answers_addEdge _ _ _ _).bind fun edges' hedges => ?_
      exact ih.mono fun drawn hdrawn => hedges.trans hdrawn
    · refine (answers_trivial _).bind fun next' _ => ?_
      refine (answers_addQuadratic _ _ _).bind fun edges' hedges => ?_
      exact ih.mono fun drawn hdrawn => hedges.trans hdrawn
    · refine (answers_addQuadratic _ _ _).bind fun edges' hedges => ?_
      exact ih.mono fun drawn hdrawn => hedges.trans hdrawn

lemma answers_contourToEdges :
    Answers (contourToEdges outline start stop edges) fun edges' => ∃ y, Leads edges edges' y y := by
  refine (answers_require _).bind fun _ _ => ?_
  refine (answers_trivial _).bind fun first _ => ?_
  refine (answers_trivial _).bind fun last _ => ?_
  refine (answers_trivial _).bind fun first' _ => ?_
  refine answers_contourFrom.bind fun drawn hdrawn => ?_
  exact (answers_addEdge _ _ _ _).mono fun edges' hedges => ⟨first'.y, hdrawn.trans hedges⟩

/-- The number of edges that cross a line. -/
abbrev edgeCrossings (edges : List RasterEdge) (sampleY : ℤ) : ℕ :=
  crossings RasterEdge.y₀ RasterEdge.y₁ edges sampleY

lemma answers_outlineEdgesFrom {remaining i : ℕ} (heven : ∀ sampleY, Even (edgeCrossings edges sampleY)) :
    Answers (outlineEdgesFrom outline remaining i start edges) fun edges' =>
      ∀ sampleY, Even (edgeCrossings edges' sampleY) := by
  induction remaining generalizing i start edges with
  | zero => exact answers_pure heven
  | succ remaining ih =>
    refine (answers_trivial _).bind fun stop _ => ?_
    refine answers_contourToEdges.bind fun edges' hclosed => ?_
    obtain ⟨y, hclosed⟩ := hclosed
    exact ih fun sampleY => hclosed.even (heven sampleY)

/-! ### Samples -/

/-- The exact value that `edgeIntersection` computes. -/
def RasterEdge.intersection (edge : RasterEdge) (sampleY : ℤ) : ℤ :=
  edge.x₀ + ((sampleY - edge.y₀) * (edge.x₁ - edge.x₀)).tdiv (edge.y₁ - edge.y₀)

lemma RasterEdge.not_crosses_iff (edge : RasterEdge) (sampleY : ℤ) :
    sampleY < edge.downward.y₀ ∨ sampleY ≥ edge.downward.y₁ ↔ ¬Crosses sampleY edge.y₀ edge.y₁ := by
  rw [Crosses, downward]
  split
  · dsimp only
    omega
  · omega

/-- A part of the width lies between 0 and the width. -/
lemma part_of_width {below height width : ℤ} (hbelow : 0 ≤ below) (hlt : below < height) :
    0 ≤ width ∧ 0 ≤ (below * width).tdiv height ∧ (below * width).tdiv height ≤ width ∨
      width < 0 ∧ width ≤ (below * width).tdiv height ∧ (below * width).tdiv height ≤ 0 := by
  have hle : ((below * width).tdiv height).natAbs ≤ width.natAbs := by
    rw [Int.natAbs_tdiv, Int.natAbs_mul]
    apply Nat.div_le_of_le_mul
    exact Nat.mul_le_mul_right _ (by omega)
  by_cases hpos : 0 ≤ width
  · have hnonneg := Int.tdiv_nonneg (mul_nonneg hbelow hpos) (show 0 ≤ height by omega)
    omega
  · have hnonpos : (below * width).tdiv height ≤ 0 := by
      rw [← neg_neg width, mul_neg, Int.neg_tdiv]
      have hnonneg := Int.tdiv_nonneg (mul_nonneg hbelow (show 0 ≤ -width by omega))
        (show 0 ≤ height by omega)
      omega
    omega

lemma inInt32_part {below height width : ℤ} (hbelow : 0 ≤ below) (hlt : below < height)
    (hwidth : InInt32 width) : InInt32 ((below * width).tdiv height) := by
  have hpart := @part_of_width below height width hbelow hlt
  rw [InInt32] at hwidth ⊢
  omega

lemma answers_edgeIntersection {edge : RasterEdge} {sampleY : ℤ} (hlow : edge.y₀ ≤ sampleY)
    (hhigh : sampleY < edge.y₁) :
    Answers (edgeIntersection edge sampleY) fun x => x = edge.intersection sampleY := by
  refine answers_int32.bind fun below hbelow => ?_
  refine answers_int32.bind fun width hwidth => ?_
  refine answers_int32.bind fun height hheight => ?_
  obtain ⟨rfl, -⟩ := hbelow
  obtain ⟨rfl, hwidth⟩ := hwidth
  obtain ⟨rfl, -⟩ := hheight
  have hquotient := inInt32_part (show 0 ≤ sampleY - edge.y₀ by omega)
    (show sampleY - edge.y₀ < edge.y₁ - edge.y₀ by omega) hwidth
  refine answers_int64.bind fun product hproduct => ?_
  refine answers_quot64.bind fun quotient hvalue => ?_
  refine answers_int32.mono fun x hx => ?_
  rw [hx.1, hvalue, hproduct, toInt32_eq hquotient]
  rfl

variable {sampleX sampleY : ℤ}

/-- A sample to the left of all crossings passes none of them. -/
lemma answers_pointInsideFrom_left {inside : Bool}
    (hleft : ∀ edge ∈ edges, Crosses sampleY edge.y₀ edge.y₁ →
      sampleX < edge.downward.intersection sampleY) :
    Answers (pointInsideFrom sampleX sampleY edges inside) fun result => result = inside := by
  induction edges generalizing inside with
  | nil => exact answers_pure rfl
  | cons edge edges ih =>
    rw [List.forall_mem_cons] at hleft
    refine answers_ite (fun _ => ih hleft.2) fun hcross => ?_
    have hcrosses := not_not.mp (mt (edge.not_crosses_iff sampleY).mpr hcross)
    refine (answers_edgeIntersection (by omega) (by omega)).bind fun x hx => ?_
    rw [if_neg (by rw [hx]; exact Int.not_le.mpr (hleft.1 hcrosses))]
    exact ih hleft.2

/-- A sample that is not to the left of any crossing passes all of them. -/
lemma answers_pointInsideFrom_right {inside : Bool}
    (hright : ∀ edge ∈ edges, Crosses sampleY edge.y₀ edge.y₁ →
      edge.downward.intersection sampleY ≤ sampleX) :
    Answers (pointInsideFrom sampleX sampleY edges inside) fun result =>
      result = (inside ^^ decide (¬Even (edgeCrossings edges sampleY))) := by
  induction edges generalizing inside with
  | nil => exact answers_pure (by simp [edgeCrossings, crossings])
  | cons edge edges ih =>
    rw [List.forall_mem_cons] at hright
    refine answers_ite (fun hskip => ?_) fun hcross => ?_
    · have hnot := (edge.not_crosses_iff sampleY).mp hskip
      refine (ih hright.2).mono fun result hresult => ?_
      rw [hresult, edgeCrossings, edgeCrossings, crossings, crossings, List.countP_cons,
        if_neg (mt of_decide_eq_true hnot), Nat.add_zero]
    · have hcrosses := not_not.mp (mt (edge.not_crosses_iff sampleY).mpr hcross)
      refine (answers_edgeIntersection (by omega) (by omega)).bind fun x hx => ?_
      rw [if_pos (by rw [hx]; exact hright.1 hcrosses)]
      refine (ih hright.2).mono fun result hresult => ?_
      rw [hresult, edgeCrossings, edgeCrossings, crossings, crossings, List.countP_cons,
        if_pos (decide_eq_true hcrosses), ← crossings]
      by_cases heven : Even (crossings RasterEdge.y₀ RasterEdge.y₁ edges sampleY)
      · simp [heven, Nat.even_add_one]
      · simp [heven, Nat.even_add_one]

lemma edgeIntersection_ne_refuse (edge : RasterEdge) (sampleY : ℤ) :
    edgeIntersection edge sampleY ≠ refuse := by
  refine bind_ne_refuse (int32_ne_refuse _) fun _ => ?_
  refine bind_ne_refuse (int32_ne_refuse _) fun _ => ?_
  refine bind_ne_refuse (int32_ne_refuse _) fun _ => ?_
  refine bind_ne_refuse (int64_ne_refuse _) fun _ => ?_
  exact bind_ne_refuse (quot64_ne_refuse _ _) fun _ => int32_ne_refuse _

lemma pointInsideFrom_ne_refuse (edges : List RasterEdge) (inside : Bool) :
    pointInsideFrom sampleX sampleY edges inside ≠ refuse := by
  induction edges generalizing inside with
  | nil => nofun
  | cons edge edges ih =>
    rw [pointInsideFrom]
    split
    · exact ih inside
    · exact bind_ne_refuse (edgeIntersection_ne_refuse _ _) fun x => ih _

/-- Every line crosses the edges of an outline an even number of times. So a sample that is to the
left of all crossings of its line, or of none, is outside, if nothing overflows. -/
theorem outlineEdges_even (h : outlineEdges outline = .ok edges) :
    (∀ sampleY, Even (edgeCrossings edges sampleY)) ∧
      ∀ sampleX sampleY, pointInsideOutline edges sampleX sampleY ≠ fault →
        ((∀ edge ∈ edges, Crosses sampleY edge.y₀ edge.y₁ →
            sampleX < edge.downward.intersection sampleY) ∨
          ∀ edge ∈ edges, Crosses sampleY edge.y₀ edge.y₁ →
            edge.downward.intersection sampleY ≤ sampleX) →
        pointInsideOutline edges sampleX sampleY = .ok false := by
  have heven : ∀ sampleY, Even (edgeCrossings edges sampleY) :=
    answers_outlineEdgesFrom (fun _ => Even.zero) edges h
  refine ⟨heven, ?_⟩
  intro sampleX sampleY hfault houtside
  cases hresult : pointInsideOutline edges sampleX sampleY with
  | error e =>
    cases e with
    | fault => exact absurd hresult hfault
    | refused => exact absurd hresult (pointInsideFrom_ne_refuse edges false)
  | ok inside =>
    rcases houtside with hleft | hright
    · rw [answers_pointInsideFrom_left hleft inside hresult]
    · rw [answers_pointInsideFrom_right hright inside hresult]
      simp [heven sampleY]

/-- A flat triangle whose contour ends off the curve. -/
def triangle : GlyphOutline :=
  { GlyphOutline.zero with
    points := fun i => some (if i = 0 then ⟨0, 32, true⟩ else if i = 1 then ⟨64, 34, true⟩
      else ⟨32, 33, false⟩)
    contours := fun _ => some 2
    pointCount := 3
    contourCount := 1 }

theorem outlineEdges_even_triangle :
    outlineEdges triangle = .ok [⟨0, 32, 64, 34⟩, ⟨64, 34, 56, 33⟩, ⟨32, 33, 24, 32⟩] ∧
    Even (edgeCrossings [⟨0, 32, 64, 34⟩, ⟨64, 34, 56, 33⟩, ⟨32, 33, 24, 32⟩] 33) ∧
    pointInsideOutline [⟨0, 32, 64, 34⟩, ⟨64, 34, 56, 33⟩, ⟨32, 33, 24, 32⟩] 64 33 = .ok false := by
  have hedges : outlineEdges triangle =
      .ok [⟨0, 32, 64, 34⟩, ⟨64, 34, 56, 33⟩, ⟨32, 33, 24, 32⟩] := by decide +kernel
  obtain ⟨heven, houtside⟩ := outlineEdges_even hedges
  exact ⟨hedges, heven 33, houtside 64 33 (by decide +kernel) (.inr (by decide +kernel))⟩

end Xbks
