import Xbks.Drivers.FontOutline
import Xbks.Drivers.Raster

/-!
# The metrics of a font

`build_font_metrics` collects the bounds of all printable characters, so that the scaled height of
each of them fits in the cell.
-/

namespace Xbks

open Checked

variable {bytes : List UInt8} {font : TtfFont} {outline dest src : GlyphOutline} {glyph : UInt16}
  {glyphData glyphSize cursor i remaining fuel depth : ℕ} {dx dy : ℤ}

/-! ### Outlines with points have bounds -/

lemma answers_appendPointsFrom_hasBounds :
    Answers (appendPointsFrom src dx dy remaining i dest) fun dest' => dest'.hasBounds = dest.hasBounds := by
  induction remaining generalizing i dest with
  | zero => exact answers_pure rfl
  | succ remaining ih =>
    refine (answers_trivial _).bind fun point _ => ?_
    have hpoint : Answers (appendPoint dest (point.x + dx) (point.y + dy) point.onCurve) fun dest' =>
        dest'.hasBounds = dest.hasBounds := by
      refine (answers_require _).bind fun _ _ => ?_
      exact (answers_trivial _).bind fun points _ => answers_pure rfl
    exact hpoint.bind fun dest' hdest' => ih.mono fun dest'' h => h.trans hdest'

lemma answers_appendContoursFrom_hasBounds {pointBase : ℕ} :
    Answers (appendContoursFrom src pointBase remaining i dest) fun dest' =>
      dest'.hasBounds = dest.hasBounds := by
  induction remaining generalizing i dest with
  | zero => exact answers_pure rfl
  | succ remaining ih =>
    refine (answers_trivial _).bind fun contour _ => ?_
    refine (answers_trivial _).bind fun contours _ => ?_
    exact ih.mono fun dest' h => h

lemma appendBounds_hasBounds (h : dest.hasBounds = true) :
    (appendBounds dest src dx dy).hasBounds = true := by
  rw [appendBounds]
  by_cases hsrc : ¬src.hasBounds
  · rw [if_pos hsrc]
    exact h
  · rw [if_neg hsrc, if_neg (not_not_intro h)]
    exact h

lemma answers_componentsFrom_hasBounds {load : UInt16 → Checked GlyphOutline}
    (h : outline.hasBounds = true) :
    Answers (componentsFrom bytes load glyphData glyphSize fuel cursor outline) fun last =>
      last.2.2.hasBounds = true := by
  induction fuel generalizing cursor outline with
  | zero => exact answers_fault
  | succ fuel ih =>
    rw [componentsFrom_succ]
    refine (answers_trivial _).bind fun record _ => ?_
    refine (answers_trivial _).bind fun component _ => ?_
    have happend : Answers (appendOutline outline component record.2.1.dx record.2.1.dy) fun outline' =>
        outline'.hasBounds = true := by
      refine (answers_require _).bind fun _ _ => ?_
      refine answers_appendPointsFrom_hasBounds.bind fun dest₁ h₁ => ?_
      refine answers_appendContoursFrom_hasBounds.bind fun dest₂ h₂ => answers_pure ?_
      exact appendBounds_hasBounds (h₂.trans (h₁.trans h))
    exact happend.bind fun outline' h' => answers_ite (fun _ => ih h') fun _ => answers_pure h'

lemma answers_readBounds_hasBounds :
    Answers (readBounds bytes font glyph glyphData outline) fun outline' => outline'.hasBounds = true := by
  refine (answers_trivial _).bind fun xMin _ => ?_
  refine (answers_trivial _).bind fun yMin _ => ?_
  refine (answers_trivial _).bind fun xMax _ => ?_
  refine (answers_trivial _).bind fun yMax _ => ?_
  exact (answers_trivial _).bind fun advanceWidth _ => answers_pure rfl

lemma answers_loadSimpleOutline_hasBounds :
    Answers (loadSimpleOutline bytes font glyph glyphData glyphSize outline) fun outline' =>
      outline'.hasBounds = true := by
  refine (answers_require _).bind fun _ _ => ?_
  refine (answers_trivial _).bind fun contourCount _ => ?_
  refine (answers_require _).bind fun _ _ => ?_
  refine answers_readBounds_hasBounds.bind fun outline₁ h => ?_
  refine answers_ite (fun _ => answers_pure h) fun _ => ?_
  refine (answers_require _).bind fun _ _ => ?_
  refine (answers_trivial _).bind fun ends _ => ?_
  refine (answers_require _).bind fun _ _ => ?_
  refine (answers_require _).bind fun _ _ => ?_
  refine (answers_trivial _).bind fun instructionLength _ => ?_
  refine (answers_require _).bind fun _ _ => ?_
  refine (answers_trivial _).bind fun flags _ => ?_
  refine (answers_trivial _).bind fun xs _ => ?_
  refine (answers_trivial _).bind fun ys _ => ?_
  exact (answers_trivial _).bind fun contours _ => answers_pure h

lemma answers_loadGlyphOutline_hasBounds :
    Answers (loadGlyphOutline bytes font fuel depth glyph) fun outline =>
      outline.pointCount ≠ 0 → outline.hasBounds = true := by
  cases fuel with
  | zero => exact answers_fault
  | succ fuel =>
    refine (answers_require _).bind fun _ _ => ?_
    refine (answers_trivial _).bind fun advanceWidth _ => ?_
    refine (answers_trivial _).bind fun bounds _ => ?_
    refine answers_ite (fun _ => answers_pure fun h => absurd rfl h) fun _ => ?_
    refine (answers_require _).bind fun _ _ => ?_
    refine (answers_trivial _).bind fun contourCount _ => ?_
    refine answers_ite (fun _ => ?_) fun _ => ?_
    · exact answers_loadSimpleOutline_hasBounds.mono fun outline h _ => h
    · refine (answers_require _).bind fun _ _ => ?_
      refine answers_readBounds_hasBounds.bind fun outline₁ h => ?_
      refine (answers_componentsFrom_hasBounds h).bind fun last hlast => ?_
      exact (answers_trivial _).bind fun _ _ => answers_pure fun _ => hlast

/-! ### The bounds of the printable characters -/

/-- The bounds contain those of an outline. -/
def Includes (bounds : ℤ × ℤ) (outline : GlyphOutline) : Prop :=
  outline.pointCount ≠ 0 → bounds.1 ≤ outline.yMin ∧ outline.yMax ≤ bounds.2

/-- The second bounds contain the first ones. -/
def Wider (bounds bounds' : ℤ × ℤ) : Prop := bounds'.1 ≤ bounds.1 ∧ bounds.2 ≤ bounds'.2

lemma Wider.trans {b b' b'' : ℤ × ℤ} (h : Wider b b') (h' : Wider b' b'') : Wider b b'' :=
  ⟨h'.1.trans h.1, h.2.trans h'.2⟩

lemma Includes.mono {b b' : ℤ × ℤ} (h : Includes b outline) (hwider : Wider b b') : Includes b' outline :=
  fun hpoints => ⟨hwider.1.trans (h hpoints).1, (h hpoints).2.trans hwider.2⟩

lemma wider_includeOutlineBounds (outline : GlyphOutline) (bounds : ℤ × ℤ) :
    Wider bounds (includeOutlineBounds outline bounds) := by
  rw [Wider, includeOutlineBounds]
  split
  · exact ⟨le_rfl, le_rfl⟩
  · constructor
    · dsimp only
      split <;> omega
    · dsimp only
      split <;> omega

lemma includes_includeOutlineBounds (h : outline.pointCount ≠ 0 → outline.hasBounds = true)
    (bounds : ℤ × ℤ) : Includes (includeOutlineBounds outline bounds) outline := by
  intro hpoints
  have hskip : ¬(¬outline.hasBounds = true ∨ outline.pointCount = 0) := by
    rintro (hnone | hzero)
    · exact hnone (h hpoints)
    · exact hpoints hzero
  rw [includeOutlineBounds, if_neg hskip]
  constructor
  · dsimp only
    split <;> omega
  · dsimp only
    split <;> omega

/-- The glyph of the character is loaded as the outline. -/
def LoadsCharacter (bytes : List UInt8) (font : TtfFont) (codepoint : UInt32) (outline : GlyphOutline) :
    Prop :=
  ∃ glyph, glyphForCodepoint bytes font codepoint = .ok glyph ∧ glyph ≠ 0 ∧
    loadGlyphOutline bytes font 10 0 glyph = .ok outline

/-- One round of the loop: an outline that cannot be loaded changes nothing. -/
lemma answers_includeGlyph (bounds : ℤ × ℤ) :
    Answers (orDefault
      (do
        let outline ← loadGlyphOutline bytes font 10 0 glyph
        return includeOutlineBounds outline bounds)
      bounds) fun bounds' => Wider bounds bounds' ∧
        ∀ outline, loadGlyphOutline bytes font 10 0 glyph = .ok outline → Includes bounds' outline := by
  refine Answers.orDefault ?_ fun hrefuse => ?_
  · refine (answers_trivial _).bind fun outline houtline => answers_pure ?_
    refine ⟨wider_includeOutlineBounds outline bounds, ?_⟩
    intro outline' houtline'
    rw [houtline, Except.ok.injEq] at houtline'
    subst houtline'
    exact includes_includeOutlineBounds (answers_loadGlyphOutline_hasBounds outline houtline) bounds
  · refine ⟨⟨le_rfl, le_rfl⟩, ?_⟩
    intro outline houtline
    rw [houtline] at hrefuse
    cases hrefuse

lemma add_ofNat_succ (codepoint : UInt32) (k : ℕ) :
    codepoint + UInt32.ofNat (k + 1) = codepoint + 1 + UInt32.ofNat k := by
  rw [UInt32.ofNat_add, UInt32.add_assoc, UInt32.add_comm 1]
  rfl

lemma answers_boundsFrom {codepoint : UInt32} {bounds : ℤ × ℤ} :
    Answers (boundsFrom bytes font remaining codepoint bounds) fun bounds' => Wider bounds bounds' ∧
      ∀ k < remaining, ∀ outline,
        LoadsCharacter bytes font (codepoint + UInt32.ofNat k) outline → Includes bounds' outline := by
  induction remaining generalizing codepoint bounds with
  | zero => exact answers_pure ⟨⟨le_rfl, le_rfl⟩, nofun⟩
  | succ remaining ih =>
    refine (answers_trivial _).bind fun glyph hglyph => ?_
    have hfirst : ∀ outline, LoadsCharacter bytes font (codepoint + UInt32.ofNat 0) outline →
        glyph ≠ 0 ∧ loadGlyphOutline bytes font 10 0 glyph = .ok outline := by
      rintro outline ⟨glyph', hglyph', hne, hload⟩
      rw [show codepoint + UInt32.ofNat 0 = codepoint from UInt32.add_zero codepoint, hglyph,
        Except.ok.injEq] at hglyph'
      subst hglyph'
      exact ⟨hne, hload⟩
    refine answers_ite (fun hzero => ?_) fun hne => ?_
    · refine ih.mono fun bounds' hbounds => ⟨hbounds.1, ?_⟩
      intro k hk outline houtline
      cases k with
      | zero => exact absurd hzero (hfirst outline houtline).1
      | succ k =>
        rw [add_ofNat_succ] at houtline
        exact hbounds.2 k (Nat.lt_of_succ_lt_succ hk) outline houtline
    · refine (answers_includeGlyph bounds).bind fun bounds₁ hbounds₁ => ?_
      refine ih.mono fun bounds' hbounds => ⟨hbounds₁.1.trans hbounds.1, ?_⟩
      intro k hk outline houtline
      cases k with
      | zero => exact (hbounds₁.2 outline (hfirst outline houtline).2).mono hbounds.1
      | succ k =>
        rw [add_ofNat_succ] at houtline
        exact hbounds.2 k (Nat.lt_of_succ_lt_succ hk) outline houtline

/-! ### The scale -/

/-- The metrics for bounds and a line gap that is not negative. -/
structure FontMetrics.For (metrics : FontMetrics) (bounds : ℤ × ℤ) (gap : ℤ) : Prop where
  scale : metrics.scale = 24
  originY : metrics.originY = 2
  designSpan : metrics.designSpan = bounds.2 - bounds.1 + gap
  designTop : metrics.designTop = bounds.2 + gap.tdiv 2
  lt : bounds.1 < bounds.2
  gap_nonneg : 0 ≤ gap

lemma positiveOrDefault_nonneg (value : ℤ) : 0 ≤ positiveOrDefault value 0 := by
  rw [positiveOrDefault]
  split <;> omega

/-- The metrics are those for the bounds that the loop over the characters finds. -/
lemma answers_buildFontMetrics_for :
    Answers (buildFontMetrics bytes font) fun metrics => ∃ bounds,
      boundsFrom bytes font 95 0x20 ((designMetrics font).2.1, (designMetrics font).1) = .ok bounds ∧
        metrics.For bounds (positiveOrDefault (designMetrics font).2.2 0) := by
  refine (answers_trivial _).bind fun bounds hbounds => ?_
  refine (answers_require _).bind fun _ hlt => ?_
  rw [decide_eq_true_eq] at hlt
  refine answers_int32.bind fun height hheight => ?_
  refine answers_int32.bind fun span hspan => ?_
  have hgap := positiveOrDefault_nonneg (designMetrics font).2.2
  rw [if_neg (by rw [hspan.1, hheight.1]; omega)]
  refine (answers_pure (P := fun s => s = span) rfl).bind fun designSpan hdesignSpan => ?_
  refine (answers_require _).bind fun _ _ => ?_
  refine answers_quot32.bind fun halfGap hhalf => ?_
  refine answers_int32.bind fun designTop htop => ?_
  refine answers_quot32.bind fun originY horigin => answers_pure ?_
  refine ⟨bounds, hbounds, ?_⟩
  constructor
  · rfl
  · exact horigin.1
  · exact hdesignSpan.trans (hspan.1.trans (by rw [hheight.1]))
  · exact htop.1.trans (by rw [hhalf.1])
  · omega
  · exact hgap

/-- The metrics of a font fit every printable character. -/
lemma answers_buildFontMetrics :
    Answers (buildFontMetrics bytes font) fun metrics => ∃ bounds gap, metrics.For bounds gap ∧
      ∀ codepoint : UInt32, 0x20 ≤ codepoint → codepoint ≤ 0x7e → ∀ outline,
        LoadsCharacter bytes font codepoint outline → Includes bounds outline := by
  refine answers_buildFontMetrics_for.mono fun metrics hmetrics => ?_
  obtain ⟨bounds, hrun, hfor⟩ := hmetrics
  refine ⟨bounds, _, hfor, ?_⟩
  intro codepoint hlow hhigh outline houtline
  have hle := UInt32.le_iff_toNat_le.mp hlow
  have hge := UInt32.le_iff_toNat_le.mp hhigh
  have hcodepoint : 0x20 + UInt32.ofNat (codepoint.toNat - 32) = codepoint := by
    apply UInt32.toNat_inj.mp
    change 32 ≤ codepoint.toNat at hle
    have hlt := codepoint.toNat_lt
    rw [UInt32.toNat_add, UInt32.toNat_ofNat_of_lt' (show _ < 2 ^ 32 by omega)]
    change (32 + (codepoint.toNat - 32)) % 2 ^ 32 = _
    omega
  rw [← hcodepoint] at houtline
  change codepoint.toNat ≤ 126 at hge
  exact (answers_boundsFrom bounds hrun).2 (codepoint.toNat - 32) (by omega) outline houtline

end Xbks
