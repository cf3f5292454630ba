import Xbks.Drivers.FontSafe
import Xbks.Lib.Contours

/-!
# What the arrays of an outline stand for

An outline in the arrays of `struct glyph_outline` represents points cut into contours. Loading a
glyph keeps this: a simple glyph has increasing ends, and a composite one is the concatenation of
its moved components.
-/

namespace Xbks

open Checked

/-- The outline represents the contours, which fit in its arrays. -/
structure GlyphOutline.Shows (outline : GlyphOutline) (c : Contours GlyphPoint) : Prop where
  pointCount : outline.pointCount = c.points.length
  contourCount : outline.contourCount = c.ends.length
  points : Cells.Holds outline.points c.points
  contours : Cells.Holds outline.contours (c.ends.map UInt16.ofNat)
  pointCount_le : c.points.length ≤ 384
  contourCount_le : c.ends.length ≤ 64

def GlyphPoint.translate (dx dy : ℤ) (point : GlyphPoint) : GlyphPoint :=
  { point with x := point.x + dx, y := point.y + dy }

variable {outline dest src : GlyphOutline} {dx dy : ℤ} {i remaining : ℕ}

lemma GlyphOutline.shows_empty (hpoints : outline.pointCount = 0) (hcontours : outline.contourCount = 0) :
    outline.Shows Contours.empty where
  pointCount := hpoints
  contourCount := hcontours
  points := Cells.holds_nil
  contours := Cells.holds_nil
  pointCount_le := Nat.zero_le _
  contourCount_le := Nat.zero_le _

/-! ### Appending -/

lemma answers_appendPoint {ps : List GlyphPoint} (hps : Cells.Holds dest.points ps)
    (hcount : dest.pointCount = ps.length) (x y : ℤ) (onCurve : Bool) :
    Answers (appendPoint dest x y onCurve) fun dest' =>
      Cells.Holds dest'.points (ps ++ [⟨x, y, onCurve⟩]) ∧ dest'.pointCount = ps.length + 1 ∧
        dest'.contours = dest.contours ∧ dest'.contourCount = dest.contourCount := by
  refine (answers_require _).bind fun _ _ => ?_
  refine (hps.answers_set_next hcount _).bind fun points hpoints => answers_pure ?_
  exact ⟨hpoints, by rw [hcount], rfl, rfl⟩

lemma answers_appendPointsFrom {ps qs : List GlyphPoint} (hqs : Cells.Holds src.points qs)
    (hps : Cells.Holds dest.points ps) (hcount : dest.pointCount = ps.length)
    (hi : i + remaining = qs.length) :
    Answers (appendPointsFrom src dx dy remaining i dest) fun dest' =>
      Cells.Holds dest'.points (ps ++ (qs.drop i).map (GlyphPoint.translate dx dy)) ∧
        dest'.pointCount = ps.length + remaining ∧
        dest'.contours = dest.contours ∧ dest'.contourCount = dest.contourCount := by
  induction remaining generalizing i dest ps with
  | zero =>
    rw [List.drop_eq_nil_of_le (by omega), List.map_nil, List.append_nil]
    exact answers_pure ⟨hps, hcount, rfl, rfl⟩
  | succ remaining ih =>
    have hlt : i < qs.length := by omega
    refine (hqs.answers_get hlt).bind fun point hpoint => ?_
    rw [List.getElem?_eq_getElem hlt, Option.some_inj] at hpoint
    refine (answers_appendPoint hps hcount _ _ _).bind fun dest₁ hdest₁ => ?_
    obtain ⟨hpoints, hcount₁, hcontours, hcontourCount⟩ := hdest₁
    refine (ih hpoints (by rw [hcount₁]; simp) (by omega)).mono fun dest₂ hdest₂ => ?_
    obtain ⟨hpoints₂, hcount₂, hcontours₂, hcontourCount₂⟩ := hdest₂
    refine ⟨?_, ?_, hcontours₂.trans hcontours, hcontourCount₂.trans hcontourCount⟩
    · rw [List.drop_eq_getElem_cons hlt, List.map_cons, hpoint, List.append_cons]
      exact hpoints₂
    · rw [hcount₂, List.length_append, List.length_singleton]
      omega

lemma answers_appendContoursFrom {pointBase : ℕ} {es fs : List ℕ}
    (hfs : Cells.Holds src.contours (fs.map UInt16.ofNat)) (hbound : ∀ f ∈ fs, f < 384)
    (hes : Cells.Holds dest.contours (es.map UInt16.ofNat)) (hcount : dest.contourCount = es.length)
    (hi : i + remaining = fs.length) :
    Answers (appendContoursFrom src pointBase remaining i dest) fun dest' =>
      Cells.Holds dest'.contours ((es ++ (fs.drop i).map (pointBase + ·)).map UInt16.ofNat) ∧
        dest'.contourCount = es.length + remaining ∧
        dest'.points = dest.points ∧ dest'.pointCount = dest.pointCount := by
  induction remaining generalizing i dest es with
  | zero =>
    rw [List.drop_eq_nil_of_le (by omega), List.map_nil, List.append_nil]
    exact answers_pure ⟨hes, hcount, rfl, rfl⟩
  | succ remaining ih =>
    have hlt : i < fs.length := by omega
    refine (hfs.answers_get (by rw [List.length_map]; exact hlt)).bind fun contour hcontour => ?_
    rw [List.getElem?_map, List.getElem?_eq_getElem hlt, Option.map_some, Option.some_inj] at hcontour
    have hcontour' : contour.toNat = fs[i] := by
      have hsmall := hbound _ (List.getElem_mem hlt)
      rw [← hcontour, UInt16.toNat_ofNat_of_lt' (show _ < 2 ^ 16 by omega)]
    refine (hes.answers_set_next (by rw [List.length_map, hcount]) _).bind fun contours hcontours => ?_
    rw [hcontour', ← List.map_singleton, ← List.map_append] at hcontours
    have hnext : Cells.Holds { dest with contours := contours, contourCount := dest.contourCount + 1 }.contours
      ((es ++ [pointBase + fs[i]]).map UInt16.ofNat) := hcontours
    refine (ih hnext (by simp [hcount]) (by omega)).mono fun dest₂ hdest₂ => ?_
    obtain ⟨hcontours₂, hcount₂, hpoints₂, hpointCount₂⟩ := hdest₂
    refine ⟨?_, ?_, hpoints₂, hpointCount₂⟩
    · rw [List.drop_eq_getElem_cons hlt, List.map_cons, List.append_cons]
      exact hcontours₂
    · rw [hcount₂, List.length_append, List.length_singleton]
      omega

/-- The bounds say nothing about the points and contours. -/
lemma GlyphOutline.Shows.appendBounds {c : Contours GlyphPoint} (h : dest.Shows c) (src : GlyphOutline)
    (dx dy : ℤ) : (appendBounds dest src dx dy).Shows c := by
  obtain ⟨xMin, yMin, xMax, yMax, hasBounds, heq⟩ := appendBounds_eq dest src dx dy
  rw [heq]
  exact { h with }

lemma answers_appendOutline {c d : Contours GlyphPoint} (hdest : dest.Shows c) (hsrc : src.Shows d) :
    Answers (appendOutline dest src dx dy) fun dest' =>
      dest'.Shows (c.append (d.map (GlyphPoint.translate dx dy))) := by
  refine (answers_require _).bind fun _ hroom => ?_
  rw [decide_eq_true_eq, hdest.pointCount, hsrc.pointCount, hdest.contourCount,
    hsrc.contourCount] at hroom
  have hbound : ∀ e ∈ d.ends, e < 384 := fun e he => (d.end_lt he).trans_le hsrc.pointCount_le
  rw [hsrc.pointCount, hsrc.contourCount]
  refine (answers_appendPointsFrom hsrc.points hdest.points hdest.pointCount (Nat.zero_add _)).bind
    fun dest₁ hdest₁ => ?_
  obtain ⟨hpoints₁, hpointCount₁, hcontours₁, hcontourCount₁⟩ := hdest₁
  refine (answers_appendContoursFrom hsrc.contours hbound (hcontours₁ ▸ hdest.contours)
    (hcontourCount₁.trans hdest.contourCount) (Nat.zero_add _)).bind fun dest₂ hdest₂ => answers_pure ?_
  obtain ⟨hcontours₂, hcontourCount₂, hpoints₂, hpointCount₂⟩ := hdest₂
  apply GlyphOutline.Shows.appendBounds
  constructor
  · rw [hpointCount₂, hpointCount₁]
    simp [Contours.append, Contours.map]
  · rw [hcontourCount₂]
    simp [Contours.append, Contours.map]
  · rw [hpoints₂]
    exact hpoints₁
  · rw [hdest.pointCount] at hcontours₂
    exact hcontours₂
  · simpa [Contours.append, Contours.map] using hroom.1
  · simpa [Contours.append, Contours.map] using hroom.2

/-! ### Simple outlines -/

variable {bytes : List UInt8} {font : TtfFont} {glyph : UInt16} {glyphData glyphSize cursor : ℕ}

/-- The ends that have been read, and the last of them. -/
structure EndsRead (endPoints : Cells 64 UInt16) (lastPoint : UInt16) (es : List UInt16) : Prop where
  holds : Cells.Holds endPoints es
  increasing : es.Pairwise (· < ·)
  last : es ≠ [] → es.getLast? = some lastPoint

lemma answers_checkIncreasing {endPoints : Cells 64 UInt16} {es : List UInt16} {point : UInt16}
    (h : Cells.Holds endPoints (es ++ [point])) (hi : i = es.length) :
    Answers (checkIncreasing endPoints i) fun _ => ∀ previous, es.getLast? = some previous → previous < point := by
  refine answers_ite (fun hne => ?_) fun hzero => ?_
  · refine (h.answers_get (by simp [hi])).bind fun point' hpoint => ?_
    have hbefore : i - 1 < (es ++ [point]).length := by
      rw [List.length_append, List.length_singleton]
      omega
    refine (h.answers_get hbefore).bind fun previous hprevious => ?_
    refine (answers_require _).mono fun _ hlt previous' hlast => ?_
    rw [hi, List.getElem?_concat_length, Option.some_inj] at hpoint
    rw [List.getLast?_eq_getElem?] at hlast
    rw [List.getElem?_append_left (by omega), hi, hlast, Option.some_inj] at hprevious
    rw [hprevious, hpoint]
    exact of_decide_eq_true hlt
  · refine answers_pure fun previous hlast => ?_
    rw [List.length_eq_zero_iff.mp (hi.symm.trans (not_not.mp hzero))] at hlast
    cases hlast

lemma pairwise_concat {es : List UInt16} {point : UInt16} (h : es.Pairwise (· < ·))
    (hlast : ∀ previous, es.getLast? = some previous → previous < point) :
    (es ++ [point]).Pairwise (· < ·) := by
  rw [List.pairwise_append]
  refine ⟨h, List.pairwise_singleton _ _, ?_⟩
  intro e he p hp
  rw [List.mem_singleton.mp hp]
  rcases List.eq_nil_or_concat es with rfl | ⟨front, previous, rfl⟩
  · cases he
  · rw [List.concat_eq_append] at h he hlast
    have hprevious := hlast previous List.getLast?_concat
    rcases List.mem_append.mp he with he | he
    · have hlt := (List.pairwise_append.mp h).2.2 e he previous (List.mem_singleton_self _)
      rw [UInt16.lt_iff_toNat_lt] at hlt hprevious ⊢
      exact hlt.trans hprevious
    · rw [List.mem_singleton.mp he]
      exact hprevious

lemma answers_endPointsFrom {endPoints : Cells 64 UInt16} {lastPoint : UInt16} {es : List UInt16}
    (h : EndsRead endPoints lastPoint es) (hi : i = es.length) :
    Answers (endPointsFrom bytes glyphData cursor remaining i endPoints lastPoint) fun ends =>
      ∃ es', EndsRead ends.1 ends.2 es' ∧ es'.length = i + remaining := by
  induction remaining generalizing i endPoints lastPoint es with
  | zero => exact answers_pure ⟨es, h, hi.symm⟩
  | succ remaining ih =>
    refine (answers_trivial _).bind fun point _ => ?_
    refine (h.holds.answers_set_next hi point).bind fun endPoints' hends' => ?_
    refine (answers_checkIncreasing hends' hi).bind fun _ hlt => ?_
    refine (hends'.answers_get (by simp [hi])).bind fun lastPoint' hlast => ?_
    rw [hi, List.getElem?_concat_length] at hlast
    have hnext : EndsRead endPoints' lastPoint' (es ++ [point]) := by
      refine ⟨hends', pairwise_concat h.increasing hlt, fun _ => ?_⟩
      exact List.getLast?_concat.trans hlast
    refine (ih hnext (by simp [hi])).mono fun ends hends => ?_
    obtain ⟨es', hread, hlen⟩ := hends
    exact ⟨es', hread, by omega⟩

lemma answers_copyContoursFrom {endPoints contours : Cells 64 UInt16} {es fs : List UInt16}
    (hes : Cells.Holds endPoints es) (hfs : Cells.Holds contours fs) (hfront : fs = es.take i)
    (hi : i + remaining = es.length) :
    Answers (copyContoursFrom endPoints remaining i contours) fun contours' =>
      Cells.Holds contours' es := by
  induction remaining generalizing i contours fs with
  | zero =>
    rw [List.take_of_length_le (by omega)] at hfront
    exact answers_pure (hfront ▸ hfs)
  | succ remaining ih =>
    have hlt : i < es.length := by omega
    have hlen : i = fs.length := by
      rw [hfront, List.length_take]
      omega
    refine (hes.answers_get hlt).bind fun point hpoint => ?_
    refine (hfs.answers_set_next hlen point).bind fun contours' hcontours => ?_
    refine ih hcontours ?_ (by omega)
    rw [List.getElem?_eq_getElem hlt, Option.some_inj] at hpoint
    rw [List.take_succ_eq_append_getElem hlt, hfront, hpoint]

/-- The contours that increasing ends cut the points into. -/
def contoursOf (points : List GlyphPoint) (es : List UInt16) (hincreasing : es.Pairwise (· < ·))
    (hcovers : es.getLast?.elim 0 (·.toNat + 1) = points.length) : Contours GlyphPoint where
  points := points
  ends := es.map UInt16.toNat
  increasing := List.pairwise_map.mpr (hincreasing.imp UInt16.lt_iff_toNat_lt.mp)
  covers := by
    rw [List.getLast?_map, ← hcovers]
    cases es.getLast? <;> rfl

lemma answers_readBounds :
    Answers (readBounds bytes font glyph glyphData outline) fun outline' =>
      outline'.pointCount = outline.pointCount ∧ outline'.contourCount = outline.contourCount ∧
        outline'.points = outline.points ∧ outline'.contours = outline.contours := by
  refine (answers_trivial _).bind fun xMin _ => ?_
  refine (answers_trivial _).bind fun yMin _ => ?_
  refine (answers_trivial _).bind fun xMax _ => ?_
  refine (answers_trivial _).bind fun yMax _ => ?_
  refine (answers_trivial _).bind fun advanceWidth _ => ?_
  exact answers_pure ⟨rfl, rfl, rfl, rfl⟩

/-- The counts and the contours of a simple outline. -/
lemma answers_loadSimpleOutline_ends (hpoints : outline.pointCount = 0)
    (hcontours : outline.contourCount = 0) :
    Answers (loadSimpleOutline bytes font glyph glyphData glyphSize outline) fun outline' =>
      ∃ es : List UInt16, Cells.Holds outline'.contours es ∧ es.Pairwise (· < ·) ∧
        outline'.contourCount = es.length ∧ outline'.pointCount = es.getLast?.elim 0 (·.toNat + 1) := by
  refine (answers_require _).bind fun _ _ => ?_
  refine (answers_trivial _).bind fun contourCount _ => ?_
  refine (answers_require _).bind fun _ hsign => ?_
  rw [decide_eq_true_eq] at hsign
  refine answers_readBounds.bind fun outline₁ houtline₁ => ?_
  refine answers_ite (fun _ => ?_) fun hne => ?_
  · exact answers_pure ⟨[], Cells.holds_nil, .nil, houtline₁.2.1.trans hcontours,
      houtline₁.1.trans hpoints⟩
  refine (answers_require _).bind fun _ _ => ?_
  have hstart : EndsRead (fun _ => none) 0 [] := ⟨Cells.holds_nil, .nil, fun h => absurd rfl h⟩
  refine (answers_endPointsFrom hstart rfl).bind fun ends hends => ?_
  obtain ⟨es, hread, hlen⟩ := hends
  refine (answers_require _).bind fun _ _ => ?_
  refine (answers_require _).bind fun _ _ => ?_
  refine (answers_trivial _).bind fun instructionLength _ => ?_
  refine (answers_require _).bind fun _ _ => ?_
  refine (answers_trivial _).bind fun flags _ => ?_
  refine (answers_trivial _).bind fun xs _ => ?_
  refine (answers_trivial _).bind fun ys _ => ?_
  rw [List.length_nil, Nat.zero_add] at hlen
  refine (answers_copyContoursFrom hread.holds Cells.holds_nil rfl (by omega)).bind
    fun contours hcopied => answers_pure ?_
  have hes : es ≠ [] := by
    rintro rfl
    rw [List.length_nil] at hlen
    omega
  refine ⟨es, hcopied, hread.increasing, hlen.symm, ?_⟩
  rw [hread.last hes]
  rfl

lemma answers_loadSimpleOutline (hfont : font.Valid bytes) (houtline : outline.Valid)
    (hpoints : outline.pointCount = 0) (hcontours : outline.contourCount = 0)
    (h : glyphData + glyphSize ≤ bytes.length) :
    Answers (loadSimpleOutline bytes font glyph glyphData glyphSize outline) fun outline' =>
      ∃ c, outline'.Shows c := by
  intro outline' hrun
  have hvalid := (safe_loadSimpleOutline hfont houtline h).answer outline' hrun
  obtain ⟨es, hes, hincreasing, hcount, hlast⟩ :=
    answers_loadSimpleOutline_ends hpoints hcontours outline' hrun
  have hfilled : Cells.Filled outline'.points outline'.pointCount := hvalid.points.mono hvalid.pointCount
  obtain ⟨ps, hlen, hps⟩ := hfilled.exists_holds hvalid.pointCount
  refine ⟨contoursOf ps es hincreasing (hlast.symm.trans hlen.symm), ?_⟩
  have hmap : (es.map UInt16.toNat).map UInt16.ofNat = es := by
    rw [List.map_map]
    exact List.map_id'' (fun e => UInt16.ofNat_toNat) es
  constructor
  · exact hlen.symm
  · rw [hcount]
    exact (List.length_map _).symm
  · exact hps
  · rw [contoursOf, hmap]
    exact hes
  · exact hlen.trans_le hvalid.pointCount
  · rw [contoursOf, List.length_map, ← hcount]
    exact hvalid.contourCount

/-! ### Composite outlines -/

/-- What a composite glyph says about one of its components. -/
structure Component where
  glyph : UInt16
  dx : ℤ
  dy : ℤ

/-- The record of a component: its flags, the component, and the cursor behind the record. -/
def componentRecord (bytes : List UInt8) (glyphData glyphSize cursor : ℕ) :
    Checked (UInt16 × Component × ℕ) := do
  require (rangeIsValid glyphSize cursor 4)
  let flags ← readU16 bytes (glyphData + cursor)
  let componentGlyph ← readU16 bytes (glyphData + cursor + 2)
  let args ← readArgs bytes glyphData glyphSize flags (cursor + 4)
  let dx := if flags &&& argsAreXyValues ≠ 0 then args.1 else 0
  let dy := if flags &&& argsAreXyValues ≠ 0 then args.2.1 else 0
  let cursor ← skipScale glyphSize flags args.2.2
  return (flags, ⟨componentGlyph, dx, dy⟩, cursor)

/-- The records of the components, up to the first one without the flag that more follow. -/
inductive ComponentRecords (bytes : List UInt8) (glyphData glyphSize : ℕ) : ℕ → List Component → Prop
  | last {cursor cursor' : ℕ} {flags : UInt16} {component : Component}
      (record : componentRecord bytes glyphData glyphSize cursor = .ok (flags, component, cursor'))
      (h : flags &&& moreComponents = 0) :
      ComponentRecords bytes glyphData glyphSize cursor [component]
  | more {cursor cursor' : ℕ} {flags : UInt16} {component : Component} {components : List Component}
      (record : componentRecord bytes glyphData glyphSize cursor = .ok (flags, component, cursor'))
      (h : flags &&& moreComponents ≠ 0)
      (rest : ComponentRecords bytes glyphData glyphSize cursor' components) :
      ComponentRecords bytes glyphData glyphSize cursor (component :: components)

/-- The component is loaded as these contours. -/
def LoadsAs (load : UInt16 → Checked GlyphOutline) (component : Component) (part : Contours GlyphPoint) :
    Prop :=
  ∃ outline, load component.glyph = .ok outline ∧ outline.Shows part

/-- The contours of the components, each moved to its place, one after the other. -/
def assemble (components : List Component) (parts : List (Contours GlyphPoint)) : Contours GlyphPoint :=
  Contours.concat (List.zipWith
    (fun component part => part.map (GlyphPoint.translate component.dx component.dy)) components parts)

variable {load : UInt16 → Checked GlyphOutline}

lemma componentsFrom_succ {fuel : ℕ} :
    componentsFrom bytes load glyphData glyphSize (fuel + 1) cursor outline = (do
      let record ← componentRecord bytes glyphData glyphSize cursor
      let component ← load record.2.1.glyph
      let outline ← appendOutline outline component record.2.1.dx record.2.1.dy
      if record.1 &&& moreComponents ≠ 0 then
        componentsFrom bytes load glyphData glyphSize fuel record.2.2 outline
      else return (record.1, record.2.2, outline)) := by
  simp only [componentsFrom, componentRecord, bind_assoc, pure_bind]

lemma answers_componentsFrom {fuel : ℕ} {c : Contours GlyphPoint}
    (hload : ∀ glyph, Answers (load glyph) fun outline => ∃ part, outline.Shows part)
    (hc : outline.Shows c) :
    Answers (componentsFrom bytes load glyphData glyphSize fuel cursor outline) fun last =>
      ∃ components parts, ComponentRecords bytes glyphData glyphSize cursor components ∧
        List.Forall₂ (LoadsAs load) components parts ∧
        last.2.2.Shows (c.append (assemble components parts)) := by
  induction fuel generalizing cursor outline c with
  | zero => exact answers_fault
  | succ fuel ih =>
    rw [componentsFrom_succ]
    refine (answers_trivial _).bind fun record hrecord => ?_
    refine (answers_trivial _).bind fun component hcomponent => ?_
    obtain ⟨part, hpart⟩ := hload _ component hcomponent
    have hloads : LoadsAs load record.2.1 part := ⟨component, hcomponent, hpart⟩
    refine (answers_appendOutline hc hpart).bind fun outline' houtline' => ?_
    refine answers_ite (fun hmore => ?_) fun hlast => answers_pure ?_
    · refine (ih houtline').mono fun last hlast => ?_
      obtain ⟨components, parts, hrecords, hall, hshows⟩ := hlast
      refine ⟨record.2.1 :: components, part :: parts, .more hrecord hmore hrecords, .cons hloads hall, ?_⟩
      rw [assemble, List.zipWith_cons_cons, Contours.concat_cons, ← Contours.append_assoc]
      exact hshows
    · refine ⟨[record.2.1], [part], .last hrecord (not_not.mp hlast), .cons hloads .nil, ?_⟩
      rw [assemble, List.zipWith_cons_cons, List.zipWith_nil_left, Contours.concat_singleton]
      exact houtline'

lemma answers_loadCompositeOutline
    (hload : ∀ glyph, Answers (load glyph) fun outline => ∃ part, outline.Shows part)
    (hpoints : outline.pointCount = 0) (hcontours : outline.contourCount = 0) :
    Answers (loadCompositeOutline bytes load font glyph glyphData glyphSize outline) fun outline' =>
      ∃ components parts, ComponentRecords bytes glyphData glyphSize 10 components ∧
        List.Forall₂ (LoadsAs load) components parts ∧ outline'.Shows (assemble components parts) := by
  refine (answers_require _).bind fun _ _ => ?_
  refine answers_readBounds.bind fun outline₁ houtline₁ => ?_
  have hempty : outline₁.Shows Contours.empty :=
    GlyphOutline.shows_empty (houtline₁.1.trans hpoints) (houtline₁.2.1.trans hcontours)
  refine (answers_componentsFrom hload hempty).bind fun last hlast => ?_
  refine (answers_trivial _).bind fun _ _ => answers_pure ?_
  obtain ⟨components, parts, hrecords, hall, hshows⟩ := hlast
  rw [Contours.empty_append] at hshows
  exact ⟨components, parts, hrecords, hall, hshows⟩

/-! ### Glyphs -/

/-- The glyph is composite, and its data lie at `glyphData`. -/
structure IsComposite (bytes : List UInt8) (font : TtfFont) (glyph : UInt16) (glyphData glyphSize : ℕ) :
    Prop where
  bounds : ∃ offset, glyphBounds bytes font glyph = .ok (offset, glyphSize) ∧
    glyphData = font.glyf.data + offset
  nonempty : glyphSize ≠ 0
  negative : ∃ contourCount, readS16 bytes glyphData = .ok contourCount ∧ contourCount < 0

/-- What a loaded outline represents. The components are loaded one level deeper. -/
theorem answers_loadGlyphOutline (hfont : font.Valid bytes) (fuel depth : ℕ) (glyph : UInt16) :
    Answers (loadGlyphOutline bytes font fuel depth glyph) fun outline =>
      ∃ c, outline.Shows c ∧ ∀ glyphData glyphSize, IsComposite bytes font glyph glyphData glyphSize →
        ∃ components parts, ComponentRecords bytes glyphData glyphSize 10 components ∧
          List.Forall₂ (LoadsAs (loadGlyphOutline bytes font (fuel - 1) (depth + 1))) components parts ∧
          c = assemble components parts := by
  induction fuel generalizing depth glyph with
  | zero => exact answers_fault
  | succ fuel ih =>
    refine (answers_require _).bind fun _ _ => ?_
    refine (answers_trivial _).bind fun advanceWidth _ => ?_
    refine (answers_trivial _).bind fun bounds hbounds => ?_
    have hinside := (safe_glyphBounds hfont glyph).answer bounds hbounds
    refine answers_ite (fun hzero => answers_pure ?_) fun hne => ?_
    · refine ⟨Contours.empty, GlyphOutline.shows_empty rfl rfl, ?_⟩
      intro glyphData glyphSize hcomposite
      obtain ⟨offset, hoffset, -⟩ := hcomposite.bounds
      rw [hbounds, Except.ok.injEq] at hoffset
      have hsize : bounds.2 = glyphSize := congrArg Prod.snd hoffset
      exact absurd (hsize.symm.trans hzero) hcomposite.nonempty
    · refine (answers_require _).bind fun _ _ => ?_
      refine (answers_trivial _).bind fun contourCount hcontourCount => ?_
      refine answers_ite (fun hsimple => ?_) fun hnegative => ?_
      · refine (answers_loadSimpleOutline hfont (GlyphOutline.valid_zero advanceWidth) rfl rfl
          hinside).mono fun outline houtline => ?_
        obtain ⟨c, hc⟩ := houtline
        refine ⟨c, hc, ?_⟩
        intro glyphData glyphSize hcomposite
        obtain ⟨offset, hoffset, rfl⟩ := hcomposite.bounds
        obtain ⟨count, hcount, hlt⟩ := hcomposite.negative
        rw [hbounds, Except.ok.injEq] at hoffset
        rw [hoffset, hcount, Except.ok.injEq] at hcontourCount
        omega
      · have hload : ∀ glyph, Answers (loadGlyphOutline bytes font fuel (depth + 1) glyph) fun outline =>
            ∃ part, outline.Shows part :=
          fun glyph => (ih (depth + 1) glyph).mono fun outline h => ⟨h.choose, h.choose_spec.1⟩
        refine (answers_loadCompositeOutline hload rfl rfl).mono fun outline houtline => ?_
        obtain ⟨components, parts, hrecords, hall, hshows⟩ := houtline
        refine ⟨_, hshows, ?_⟩
        intro glyphData glyphSize hcomposite
        obtain ⟨offset, hoffset, rfl⟩ := hcomposite.bounds
        rw [hbounds, Except.ok.injEq] at hoffset
        subst hoffset
        exact ⟨components, parts, hrecords, hall, rfl⟩

end Xbks
