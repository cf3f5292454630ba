import Mathlib.Order.Interval.Set.OrdConnected
import Mathlib.Tactic.Linarith
import Mathlib.Tactic.Ring
import Xbks.Drivers.RasterOutline
import Xbks.Lib.Collecting
import Mathlib.Data.Int.ConditionallyCompleteOrder

/-!
# What is drawn

The strokes of an outline in the order in which `contour_to_edges` draws them, with exact numbers: lines,
the eight chords of each curve, and the midpoints between points off the curve. Drawing them is to
collect the edges of those that fit in 32 bits.
-/

namespace Xbks

open Checked

variable {outline : GlyphOutline} {edges : List RasterEdge}

/-- A chord is the one that ends at step `i` of a curve. -/
inductive Stroke
  | midpoint (p q : GlyphPoint)
  | line (p q : GlyphPoint)
  | chord (p₀ p₁ p₂ : GlyphPoint) (i : ℤ)

def exactMidpoint (p q : GlyphPoint) : GlyphPoint := ⟨(p.x + q.x).tdiv 2, (p.y + q.y).tdiv 2, true⟩

/-- The coordinate of a curve at step `i`. -/
def bezier (i p₀ p₁ p₂ : ℤ) : ℤ :=
  ((8 - i) * (8 - i) * p₀ + 2 * (8 - i) * i * p₁ + i * i * p₂).tdiv 64

/-- The products and sums in it fit in 32 bits. -/
def BezierFits (i p₀ p₁ p₂ : ℤ) : Prop :=
  InInt32 ((8 - i) * (8 - i) * p₀) ∧ InInt32 (2 * (8 - i) * i * p₁) ∧
    InInt32 ((8 - i) * (8 - i) * p₀ + 2 * (8 - i) * i * p₁) ∧ InInt32 (i * i * p₂) ∧
    InInt32 ((8 - i) * (8 - i) * p₀ + 2 * (8 - i) * i * p₁ + i * i * p₂)

instance (i p₀ p₁ p₂ : ℤ) : Decidable (BezierFits i p₀ p₁ p₂) :=
  inferInstanceAs (Decidable (InInt32 _ ∧ InInt32 _ ∧ InInt32 _ ∧ InInt32 _ ∧ InInt32 _))

def Stroke.Fits : Stroke → Prop
  | midpoint p q => InInt32 (p.x + q.x) ∧ InInt32 (p.y + q.y)
  | line _ _ => True
  | chord p₀ p₁ p₂ i => BezierFits i p₀.x p₁.x p₂.x ∧ BezierFits i p₀.y p₁.y p₂.y

instance : DecidablePred Stroke.Fits
  | .midpoint p q => inferInstanceAs (Decidable (InInt32 (p.x + q.x) ∧ InInt32 (p.y + q.y)))
  | .line _ _ => inferInstanceAs (Decidable True)
  | .chord p₀ p₁ p₂ i =>
    inferInstanceAs (Decidable (BezierFits i p₀.x p₁.x p₂.x ∧ BezierFits i p₀.y p₁.y p₂.y))

/-- Flat edges are left out. -/
def edgeBetween (x₀ y₀ x₁ y₁ : ℤ) : Option RasterEdge :=
  if y₀ = y₁ then none else some ⟨x₀, y₀, x₁, y₁⟩

def Stroke.edge : Stroke → Option RasterEdge
  | midpoint _ _ => none
  | line p q => edgeBetween p.x p.y q.x q.y
  | chord p₀ p₁ p₂ i =>
    edgeBetween (bezier (i - 1) p₀.x p₁.x p₂.x) (bezier (i - 1) p₀.y p₁.y p₂.y)
      (bezier i p₀.x p₁.x p₂.x) (bezier i p₀.y p₁.y p₂.y)

/-! ### The strokes of a contour -/

/-- The chords from step `i` on. -/
def chordsFrom (p₀ p₁ p₂ : GlyphPoint) : ℕ → ℤ → List Stroke
  | 0, _ => []
  | remaining + 1, i => .chord p₀ p₁ p₂ i :: chordsFrom p₀ p₁ p₂ remaining (i + 1)

def curve (p₀ p₁ p₂ : GlyphPoint) : List Stroke := chordsFrom p₀ p₁ p₂ 8 1

/-- The strokes from `current` through the points of a contour, and back to the point where it
starts. The last of the points is the first one of the contour again. -/
def strokesFrom (first : GlyphPoint) : GlyphPoint → List GlyphPoint → List Stroke
  | current, control :: next :: rest =>
    if control.onCurve then .line current control :: strokesFrom first control (next :: rest)
    else if ¬next.onCurve then
      .midpoint control next :: (curve current control (exactMidpoint control next) ++
        strokesFrom first (exactMidpoint control next) (next :: rest))
    else curve current control next ++ strokesFrom first next rest
  | current, _ => [.line current first]

/-- Where the contour starts. -/
def startPoint (head last : GlyphPoint) : GlyphPoint :=
  if head.onCurve then head else if last.onCurve then last else exactMidpoint last head

def startStrokes (head last : GlyphPoint) : List Stroke :=
  if head.onCurve ∨ last.onCurve then [] else [.midpoint last head]

def contourStrokes : List GlyphPoint → List Stroke
  | [] => []
  | head :: rest =>
    let last := (head :: rest).getLast (List.cons_ne_nil head rest)
    startStrokes head last ++
      strokesFrom (startPoint head last) (startPoint head last) (head :: rest ++ [head])

def strokes (c : Contours GlyphPoint) : List Stroke := c.ranges.flatMap fun r => contourStrokes (c.piece r)

/-! ### Drawing is collecting -/

abbrev draw (strokes : List Stroke) (edges : List RasterEdge) : Checked (List RasterEdge) :=
  collect Stroke.Fits Stroke.edge maxRasterEdges strokes edges

lemma addEdge_eq (x₀ y₀ x₁ y₁ : ℤ) :
    addEdge edges x₀ y₀ x₁ y₁ = collectItem maxRasterEdges edges (edgeBetween x₀ y₀ x₁ y₁) := by
  rw [addEdge, edgeBetween]
  split <;> rfl

lemma draw_line (p q : GlyphPoint) (rest : List Stroke) : draw (.line p q :: rest) edges =
    addEdge edges p.x p.y q.x q.y >>= draw rest := by
  rw [draw, collect_cons, collectStep, if_pos (show (Stroke.line p q).Fits from trivial), addEdge_eq]
  rfl

lemma pointMidpoint_eq (p q : GlyphPoint) : pointMidpoint p q =
    if (Stroke.midpoint p q).Fits then .ok (exactMidpoint p q) else fault := by
  rw [pointMidpoint, int32_bind]
  by_cases hx : InInt32 (p.x + q.x)
  · rw [if_pos hx, quot32_pos (by decide) hx, ok_bind, int32_bind]
    by_cases hy : InInt32 (p.y + q.y)
    · rw [if_pos hy, quot32_pos (by decide) hy, if_pos (show (Stroke.midpoint p q).Fits from ⟨hx, hy⟩)]
      rfl
    · rw [if_neg hy, if_neg (show ¬(Stroke.midpoint p q).Fits from fun h => hy h.2)]
  · rw [if_neg hx, if_neg (show ¬(Stroke.midpoint p q).Fits from fun h => hx h.1)]

lemma draw_midpoint (p q : GlyphPoint) (rest : List Stroke) : draw (.midpoint p q :: rest) edges =
    pointMidpoint p q >>= fun _ => draw rest edges := by
  rw [draw, collect_cons, collectStep, pointMidpoint_eq]
  split <;> rfl

lemma quadraticCoordinate_eq (i p₀ p₁ p₂ : ℤ) : quadraticCoordinate (8 - i) i p₀ p₁ p₂ =
    if BezierFits i p₀ p₁ p₂ then .ok (bezier i p₀ p₁ p₂) else fault := by
  simp only [quadraticCoordinate, int32_bind, ← ite_and]
  by_cases h : BezierFits i p₀ p₁ p₂
  · rw [if_pos h, if_pos (show _ ∧ _ ∧ _ ∧ _ ∧ _ from h)]
    exact quot32_pos (by norm_num) h.2.2.2.2
  · rw [if_neg h, if_neg (show ¬(_ ∧ _ ∧ _ ∧ _ ∧ _) from h)]

lemma draw_chord (p₀ p₁ p₂ : GlyphPoint) (i : ℤ) (rest : List Stroke) :
    draw (.chord p₀ p₁ p₂ i :: rest) edges = (do
      let x ← quadraticCoordinate (8 - i) i p₀.x p₁.x p₂.x
      let y ← quadraticCoordinate (8 - i) i p₀.y p₁.y p₂.y
      let edges ← addEdge edges (bezier (i - 1) p₀.x p₁.x p₂.x) (bezier (i - 1) p₀.y p₁.y p₂.y) x y
      draw rest edges) := by
  rw [draw, collect_cons, collectStep, quadraticCoordinate_eq, quadraticCoordinate_eq]
  by_cases hx : BezierFits i p₀.x p₁.x p₂.x
  · by_cases hy : BezierFits i p₀.y p₁.y p₂.y
    · rw [if_pos (show (Stroke.chord p₀ p₁ p₂ i).Fits from ⟨hx, hy⟩), if_pos hx, if_pos hy, ok_bind,
        ok_bind, addEdge_eq]
      rfl
    · rw [if_neg (show ¬(Stroke.chord p₀ p₁ p₂ i).Fits from fun h => hy h.2), if_pos hx, if_neg hy]
      rfl
  · rw [if_neg (show ¬(Stroke.chord p₀ p₁ p₂ i).Fits from fun h => hx h.1), if_neg hx]
    rfl

lemma bezier_zero (p₀ p₁ p₂ : ℤ) : bezier 0 p₀ p₁ p₂ = p₀ := by
  rw [bezier, show (8 - 0) * (8 - 0) * p₀ + 2 * (8 - 0) * 0 * p₁ + 0 * 0 * p₂ = 64 * p₀ by ring]
  exact Int.mul_tdiv_cancel_left p₀ (by decide)

lemma quadraticFrom_eq (p₀ p₁ p₂ : GlyphPoint) {remaining : ℕ} {i : ℤ} :
    quadraticFrom p₀ p₁ p₂ remaining i (bezier (i - 1) p₀.x p₁.x p₂.x) (bezier (i - 1) p₀.y p₁.y p₂.y)
      edges = draw (chordsFrom p₀ p₁ p₂ remaining i) edges := by
  induction remaining generalizing i edges with
  | zero => rfl
  | succ remaining ih =>
    have hnext : ∀ edges, quadraticFrom p₀ p₁ p₂ remaining (i + 1) (bezier i p₀.x p₁.x p₂.x)
        (bezier i p₀.y p₁.y p₂.y) edges = draw (chordsFrom p₀ p₁ p₂ remaining (i + 1)) edges := by
      intro edges
      have h := @ih edges (i + 1)
      rwa [add_sub_cancel_right] at h
    rw [quadraticFrom, chordsFrom, draw_chord, quadraticCoordinate_eq, quadraticCoordinate_eq]
    by_cases hx : BezierFits i p₀.x p₁.x p₂.x
    · by_cases hy : BezierFits i p₀.y p₁.y p₂.y
      · rw [if_pos hx, if_pos hy]
        simp only [ok_bind, hnext]
      · rw [if_pos hx, if_neg hy]
        rfl
    · rw [if_neg hx]
      rfl

lemma addQuadratic_eq (p₀ p₁ p₂ : GlyphPoint) : addQuadratic edges p₀ p₁ p₂ = draw (curve p₀ p₁ p₂) edges := by
  have h := @quadraticFrom_eq edges p₀ p₁ p₂ 8 1
  rw [sub_self, bezier_zero, bezier_zero] at h
  exact h

/-! ### Contours -/

variable {ps pts : List GlyphPoint} {head first current : GlyphPoint} {start stop fuel k : ℕ}

lemma draw_append (front back : List Stroke) : draw (front ++ back) edges = draw front edges >>= draw back :=
  collect_append

lemma strokesFrom_short {l : List GlyphPoint} (h : l.length ≤ 1) :
    strokesFrom first current l = [.line current first] := by
  match l, h with
  | [], _ => rfl
  | [_], _ => rfl

lemma draw_closing (p q : GlyphPoint) : draw [.line p q] edges = addEdge edges p.x p.y q.x q.y := by
  rw [draw_line]
  exact bind_pure _

/-- The array cells of a contour, with the first one behind the last. -/
structure LoopCells (outline : GlyphOutline) (start stop : ℕ) (pts : List GlyphPoint) (head : GlyphPoint) :
    Prop where
  length : pts.length = stop + 1 - start
  get : ∀ j (hj : j < pts.length), Cells.get outline.points (start + j) = .ok pts[j]
  head : pts.head? = some head

lemma LoopCells.next (h : LoopCells outline start stop pts head) (hk : k < pts.length) :
    ∃ next, Cells.get outline.points (start + (start + k - start + 1) % (stop - start + 1)) = .ok next ∧
      (pts ++ [head]).drop (k + 1) = next :: (pts ++ [head]).drop (k + 2) := by
  have hlen := h.length
  have hlt : k + 1 < (pts ++ [head]).length := by
    rw [List.length_append, List.length_singleton]
    omega
  refine ⟨_, ?_, List.drop_eq_getElem_cons hlt⟩
  rw [Nat.add_sub_cancel_left, show stop - start + 1 = pts.length by omega]
  rcases Nat.lt_or_ge (k + 1) pts.length with hinner | hlast
  · rw [Nat.mod_eq_of_lt hinner, h.get _ hinner, List.getElem_append_left hinner]
  · have hmod : (k + 1) % pts.length = 0 := by
      rw [show k + 1 = pts.length by omega, Nat.mod_self]
    have hfirst : pts[0] = head := by
      rw [← Option.some_inj, ← List.getElem?_eq_getElem, ← List.head?_eq_getElem?]
      exact h.head
    rw [hmod, h.get 0 (by omega), hfirst, List.getElem_append_right hlast, List.getElem_singleton]

/-- From point `k` on, the loop and the edge behind it draw the strokes. -/
lemma contourFrom_eq (h : LoopCells outline start stop pts head) (hpos : 0 < fuel)
    (hfuel : pts.length < fuel + k) :
    (do
      let drawn ← contourFrom outline start stop fuel (start + k) current edges
      addEdge drawn.2 drawn.1.x drawn.1.y first.x first.y) =
        draw (strokesFrom first current ((pts ++ [head]).drop k)) edges := by
  have hlen := h.length
  induction fuel generalizing k current edges with
  | zero => cases hpos
  | succ fuel ih =>
    rw [contourFrom]
    by_cases hk : k < pts.length
    · obtain ⟨next, hget, hnext⟩ := h.next hk
      have hdrop : (pts ++ [head]).drop k = pts[k] :: next :: (pts ++ [head]).drop (k + 2) := by
        have hlt : k < (pts ++ [head]).length := by
          rw [List.length_append]
          omega
        rw [List.drop_eq_getElem_cons hlt, hnext, List.getElem_append_left hk]
      have hstep : ∀ {current edges}, _ := fun {current edges} => @ih edges current (k + 1) (by omega) (by omega)
      have hskip : ∀ {current edges}, _ := fun {current edges} => @ih edges current (k + 2) (by omega) (by omega)
      rw [if_pos (by omega), h.get k hk, ok_bind, hget, ok_bind, hdrop, strokesFrom]
      rw [hnext] at hstep
      split_ifs
      · rw [draw_line, bind_assoc]
        exact congrArg _ (funext fun edges => hstep)
      · rw [draw_append, ← addQuadratic_eq, bind_assoc]
        exact congrArg _ (funext fun edges => hskip)
      · rw [draw_midpoint, draw_append, pointMidpoint_eq]
        split_ifs
        · rw [ok_bind, ok_bind, ← addQuadratic_eq, bind_assoc]
          exact congrArg _ (funext fun edges => hstep)
        · rfl
    · rw [if_neg (by omega), strokesFrom_short, draw_closing]
      · rfl
      · rw [List.length_drop, List.length_append, List.length_singleton]
        omega

/-- Where the contour starts is found with the strokes before the loop. -/
lemma firstPoint_bind {head last : GlyphPoint} {f : GlyphPoint → Checked (List RasterEdge)}
    {rest : List Stroke} (h : f (startPoint head last) = draw rest edges) :
    firstPoint head last >>= f = draw (startStrokes head last ++ rest) edges := by
  rw [firstPoint, startStrokes]
  rw [startPoint] at h
  by_cases hhead : head.onCurve
  · rw [if_pos hhead, if_pos (.inl hhead)]
    rw [if_pos hhead] at h
    exact h
  · rw [if_neg hhead]
    rw [if_neg hhead] at h
    by_cases hlast : last.onCurve
    · rw [if_pos hlast, if_pos (.inr hlast)]
      rw [if_pos hlast] at h
      exact h
    · rw [if_neg hlast, if_neg (by simp [hhead, hlast]), List.singleton_append, draw_midpoint,
        pointMidpoint_eq]
      rw [if_neg hlast] at h
      split_ifs
      · exact h
      · rfl

variable {c : Contours GlyphPoint} {r : ℕ × ℕ}

lemma GlyphOutline.Shows.loopCells (h : outline.Shows c) (hr : r ∈ c.ranges) (hhead : pts.head? = some head)
    (hpts : c.piece r = pts) : LoopCells outline r.1 r.2 pts head := by
  obtain ⟨hle, hlt⟩ := c.ranges_bounds hr
  have hmax := h.pointCount_le
  subst hpts
  have hlen : (c.piece r).length = r.2 + 1 - r.1 := by
    rw [Contours.piece, List.length_take, List.length_drop]
    omega
  refine ⟨hlen, ?_, hhead⟩
  intro j hj
  rw [h.points.get_eq (by omega) (by omega), List.get_eq_getElem]
  simp only [Contours.piece, List.getElem_take, List.getElem_drop]

lemma contourToEdges_eq (h : outline.Shows c) (hr : r ∈ c.ranges) :
    contourToEdges outline r.1 r.2 edges = draw (contourStrokes (c.piece r)) edges := by
  obtain ⟨hle, hlt⟩ := c.ranges_bounds hr
  have hcount := h.pointCount
  cases hpts : c.piece r with
  | nil =>
    have hlen := congrArg List.length hpts
    rw [Contours.piece, List.length_take, List.length_drop, List.length_nil] at hlen
    omega
  | cons head rest =>
    have hloop := h.loopCells hr rfl hpts
    have hlen := hloop.length
    have hfirst := hloop.get 0 (Nat.succ_pos _)
    have hlast := hloop.get rest.length (Nat.lt_succ_self _)
    rw [List.length_cons] at hlen
    rw [show r.1 + rest.length = r.2 by omega] at hlast
    rw [contourToEdges, require_bind (by simp; omega), hlast, contourStrokes]
    rw [Nat.add_zero] at hfirst
    rw [hfirst, ok_bind, ok_bind, List.getLast_eq_getElem]
    have hfuel : (head :: rest).length < r.2 - r.1 + 2 + 0 := by
      rw [List.length_cons]
      omega
    apply firstPoint_bind
    exact contourFrom_eq hloop (Nat.succ_pos _) hfuel

/-- The edges of an outline are those of its strokes. -/
theorem outlineEdges_eq (h : outline.Shows c) : outlineEdges outline = draw (strokes c) [] := by
  rw [h.outlineEdges_eq, strokes]
  have hall : ∀ r ∈ c.ranges, ∀ edges,
      contourToEdges outline r.1 r.2 edges = draw (contourStrokes (c.piece r)) edges :=
    fun r hr edges => contourToEdges_eq h hr
  generalize c.ranges = ranges at hall
  generalize ([] : List RasterEdge) = edges
  induction ranges generalizing edges with
  | nil => rfl
  | cons r ranges ih =>
    rw [List.forall_mem_cons] at hall
    rw [List.foldlM_cons, List.flatMap_cons, draw_append, hall.1]
    exact congrArg _ (funext fun edges => ih hall.2 edges)

/-! ### Where strokes can be -/

/-- The coordinates lie in sets without gaps, such as an interval. -/
def GlyphPoint.Within (xs ys : Set ℤ) (p : GlyphPoint) : Prop := p.x ∈ xs ∧ p.y ∈ ys

def RasterEdge.Within (xs ys : Set ℤ) (edge : RasterEdge) : Prop :=
  (edge.x₀ ∈ xs ∧ edge.y₀ ∈ ys) ∧ edge.x₁ ∈ xs ∧ edge.y₁ ∈ ys

variable {xs ys : Set ℤ} {p q p₀ p₁ p₂ : GlyphPoint} {s : Stroke}

/-- The points that the stroke is given by lie in the box. -/
def Stroke.Through (xs ys : Set ℤ) : Stroke → Prop
  | midpoint p q => p.Within xs ys ∧ q.Within xs ys
  | line p q => p.Within xs ys ∧ q.Within xs ys
  | chord p₀ p₁ p₂ i => (p₀.Within xs ys ∧ p₁.Within xs ys ∧ p₂.Within xs ys) ∧ 1 ≤ i ∧ i ≤ 8

lemma curve_through (h₀ : p₀.Within xs ys) (h₁ : p₁.Within xs ys) (h₂ : p₂.Within xs ys) :
    ∀ s ∈ curve p₀ p₁ p₂, s.Through xs ys := by
  have hchords : ∀ (remaining : ℕ) (i : ℤ), 1 ≤ i → i + remaining = 9 →
      ∀ s ∈ chordsFrom p₀ p₁ p₂ remaining i, s.Through xs ys := by
    intro remaining
    induction remaining with
    | zero =>
      intro i hi hlast s hs
      exact absurd hs List.not_mem_nil
    | succ remaining ih =>
      intro i hi hlast
      push_cast at hlast
      rw [chordsFrom, List.forall_mem_cons]
      exact ⟨⟨⟨h₀, h₁, h₂⟩, hi, by omega⟩, ih (i + 1) (by omega) (by omega)⟩
  exact hchords 8 1 le_rfl (by norm_num)

variable [xs.OrdConnected] [ys.OrdConnected]

lemma tdiv_mem {low high sum n : ℤ} (hlow : low ∈ xs) (hhigh : high ∈ xs) (hn : 0 < n)
    (hle : low * n ≤ sum) (hge : sum ≤ high * n) : sum.tdiv n ∈ xs := by
  apply Set.Icc_subset xs hlow hhigh
  constructor
  · exact Int.le_tdiv_of_mul_le hn hle
  · exact (Int.tdiv_le_tdiv hn hge).trans_eq (Int.mul_tdiv_cancel high hn.ne')

lemma exactMidpoint_within (hp : p.Within xs ys) (hq : q.Within xs ys) :
    (exactMidpoint p q).Within xs ys := by
  have half : ∀ {zs : Set ℤ} [zs.OrdConnected] {a b : ℤ}, a ∈ zs → b ∈ zs → (a + b).tdiv 2 ∈ zs := by
    intro zs _ a b ha hb
    have hlow : min a b ∈ zs := min_rec' (· ∈ zs) ha hb
    have hhigh : max a b ∈ zs := max_rec' (· ∈ zs) ha hb
    exact tdiv_mem hlow hhigh (by norm_num) (by omega) (by omega)
  exact ⟨half hp.1 hq.1, half hp.2 hq.2⟩

/-- The weights of a step are not negative and sum up to 64. -/
lemma bezier_mem {i a b c : ℤ} (hlow : 0 ≤ i) (hhigh : i ≤ 8) (ha : a ∈ xs) (hb : b ∈ xs) (hc : c ∈ xs) :
    bezier i a b c ∈ xs := by
  have hleast : min a (min b c) ∈ xs := min_rec' (· ∈ xs) ha (min_rec' (· ∈ xs) hb hc)
  have hgreatest : max a (max b c) ∈ xs := max_rec' (· ∈ xs) ha (max_rec' (· ∈ xs) hb hc)
  have hfirst : 0 ≤ (8 - i) * (8 - i) := mul_self_nonneg _
  have hsecond : 0 ≤ 2 * (8 - i) * i := mul_nonneg (by omega) hlow
  have hthird : 0 ≤ i * i := mul_self_nonneg i
  apply tdiv_mem hleast hgreatest (by norm_num)
  · have h₀ := mul_le_mul_of_nonneg_left (show min a (min b c) ≤ a by omega) hfirst
    have h₁ := mul_le_mul_of_nonneg_left (show min a (min b c) ≤ b by omega) hsecond
    have h₂ := mul_le_mul_of_nonneg_left (show min a (min b c) ≤ c by omega) hthird
    linarith
  · have h₀ := mul_le_mul_of_nonneg_left (show a ≤ max a (max b c) by omega) hfirst
    have h₁ := mul_le_mul_of_nonneg_left (show b ≤ max a (max b c) by omega) hsecond
    have h₂ := mul_le_mul_of_nonneg_left (show c ≤ max a (max b c) by omega) hthird
    linarith

lemma strokesFrom_through {l : List GlyphPoint} (hfirst : first.Within xs ys)
    (hcurrent : current.Within xs ys) (hl : ∀ p ∈ l, p.Within xs ys) :
    ∀ s ∈ strokesFrom first current l, s.Through xs ys := by
  induction current, l using strokesFrom.induct with
  | case1 current control next rest hcontrol ih =>
    rw [strokesFrom, if_pos hcontrol, List.forall_mem_cons]
    rw [List.forall_mem_cons] at hl
    exact ⟨⟨hcurrent, hl.1⟩, ih hl.1 hl.2⟩
  | case2 current control next rest hcontrol hnext ih =>
    rw [strokesFrom, if_neg hcontrol, if_pos hnext, List.forall_mem_cons, List.forall_mem_append]
    rw [List.forall_mem_cons] at hl
    have hmiddle := exactMidpoint_within hl.1 (hl.2 next List.mem_cons_self)
    exact ⟨⟨hl.1, hl.2 next List.mem_cons_self⟩, curve_through hcurrent hl.1 hmiddle, ih hmiddle hl.2⟩
  | case3 current control next rest hcontrol hnext ih =>
    rw [strokesFrom, if_neg hcontrol, if_neg hnext, List.forall_mem_append]
    rw [List.forall_mem_cons, List.forall_mem_cons] at hl
    exact ⟨curve_through hcurrent hl.1 hl.2.1, ih hl.2.1 hl.2.2⟩
  | case4 l current hshort =>
    have hlen : l.length ≤ 1 := by
      match l with
      | [] => exact Nat.zero_le 1
      | [_] => exact le_rfl
      | control :: next :: rest => exact absurd rfl (hshort control next rest)
    rw [strokesFrom_short hlen, List.forall_mem_singleton]
    exact ⟨hcurrent, hfirst⟩

lemma contourStrokes_through (h : ∀ p ∈ pts, p.Within xs ys) :
    ∀ s ∈ contourStrokes pts, s.Through xs ys := by
  cases pts with
  | nil => exact List.forall_mem_nil _
  | cons head rest =>
    have hhead := h head List.mem_cons_self
    have hlast := h _ (List.getLast_mem (List.cons_ne_nil head rest))
    rw [contourStrokes, List.forall_mem_append]
    constructor
    · rw [startStrokes]
      split_ifs
      · exact List.forall_mem_nil _
      · rw [List.forall_mem_singleton]
        exact ⟨hlast, hhead⟩
    · have hstart : (startPoint head ((head :: rest).getLast (List.cons_ne_nil head rest))).Within xs ys := by
        rw [startPoint]
        split_ifs
        · exact hhead
        · exact hlast
        · exact exactMidpoint_within hlast hhead
      apply strokesFrom_through hstart hstart
      rw [List.forall_mem_append, List.forall_mem_singleton]
      exact ⟨h, hhead⟩

/-- Strokes do not leave a box that the points lie in. -/
lemma strokes_through (h : ∀ p ∈ c.points, p.Within xs ys) : ∀ s ∈ strokes c, s.Through xs ys := by
  intro s hs
  obtain ⟨r, -, hs⟩ := List.mem_flatMap.mp hs
  exact contourStrokes_through (fun p hp => h p (c.mem_of_mem_piece hp)) s hs

lemma Stroke.Through.edge_within (h : s.Through xs ys) : ∀ edge ∈ s.edge, edge.Within xs ys := by
  have hbetween : ∀ {x₀ y₀ x₁ y₁ : ℤ}, x₀ ∈ xs ∧ y₀ ∈ ys → x₁ ∈ xs ∧ y₁ ∈ ys →
      ∀ edge ∈ edgeBetween x₀ y₀ x₁ y₁, edge.Within xs ys := by
    intro x₀ y₀ x₁ y₁ hstart hstop edge hedge
    rw [edgeBetween] at hedge
    split_ifs at hedge
    · cases hedge
    · rw [← Option.some_inj.mp hedge]
      exact ⟨hstart, hstop⟩
  cases s with
  | midpoint p q => exact nofun
  | line p q => exact hbetween h.1 h.2
  | chord p₀ p₁ p₂ i =>
    obtain ⟨⟨h₀, h₁, h₂⟩, hlow, hhigh⟩ := h
    apply hbetween
    · exact ⟨bezier_mem (by omega) (by omega) h₀.1 h₁.1 h₂.1, bezier_mem (by omega) (by omega) h₀.2 h₁.2 h₂.2⟩
    · exact ⟨bezier_mem (by omega) (by omega) h₀.1 h₁.1 h₂.1, bezier_mem (by omega) (by omega) h₀.2 h₁.2 h₂.2⟩

lemma edges_within (h : ∀ p ∈ c.points, p.Within xs ys) :
    ∀ edge ∈ (strokes c).filterMap Stroke.edge, edge.Within xs ys := by
  intro edge hedge
  obtain ⟨s, hs, hedge⟩ := List.mem_filterMap.mp hedge
  exact (strokes_through h s hs).edge_within edge hedge

end Xbks
