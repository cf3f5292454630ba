import Xbks.Drivers.FontTtf
import Xbks.Lib.Int32

/-!
# Drawing glyphs

The second half of `drivers/font_ttf.c`: the metrics of a font, and the outline of a glyph scaled
into the cell of a terminal, cut into edges and filled by the even-odd rule. Signed overflow and
division by zero are faults. Coordinates count sixteenths of a pixel.
-/

namespace Xbks

open Checked

abbrev maxRasterEdges : ℕ := 768
abbrev ttyFontWidth : ℤ := 13
abbrev ttyFontHeight : ℤ := 28

structure FontMetrics where
  scale : ℤ
  designTop : ℤ
  designSpan : ℤ
  originY : ℤ
  deriving DecidableEq

structure RasterEdge where
  x₀ : ℤ
  y₀ : ℤ
  x₁ : ℤ
  y₁ : ℤ
  deriving DecidableEq

def scaleDesign (value scale unitsPerEm : ℤ) : Checked ℤ :=
  if value ≥ 0 then do
    let product ← int32 (value * scale)
    let half ← quot32 unitsPerEm 2
    let sum ← int32 (product + half)
    quot32 sum unitsPerEm
  else do
    let negated ← int32 (-value)
    let product ← int32 (negated * scale)
    let half ← quot32 unitsPerEm 2
    let sum ← int32 (product + half)
    let quotient ← quot32 sum unitsPerEm
    int32 (-quotient)

/-! ### Metrics -/

def positiveOrDefault (value fallback : ℤ) : ℤ := if value > 0 then value else fallback

/-- The bounds `min_y` and `max_y` with those of an outline. -/
def includeOutlineBounds (outline : GlyphOutline) (bounds : ℤ × ℤ) : ℤ × ℤ :=
  if ¬outline.hasBounds ∨ outline.pointCount = 0 then bounds
  else (if outline.yMin < bounds.1 then outline.yMin else bounds.1,
    if outline.yMax > bounds.2 then outline.yMax else bounds.2)

/-- `design_top`, `design_bottom` and `design_gap`. -/
def designMetrics (font : TtfFont) : ℤ × ℤ × ℤ :=
  let typo := (if font.typoAscent ≠ 0 then font.typoAscent else font.ascent,
    if font.typoDescent ≠ 0 then font.typoDescent else font.descent,
    if font.typoLineGap ≠ 0 then font.typoLineGap else font.lineGap)
  let metrics := if typo.1 ≤ typo.2.1 then (font.ascent, font.descent, font.lineGap) else typo
  if metrics.1 ≤ metrics.2.1 then ((font.unitsPerEm.toNat : ℤ), 0, 0) else metrics

variable (bytes : List UInt8)

/-- The loop of `build_font_metrics` over the printable characters. -/
def boundsFrom (font : TtfFont) : ℕ → UInt32 → ℤ × ℤ → Checked (ℤ × ℤ)
  | 0, _, bounds => return bounds
  | remaining + 1, codepoint, bounds => do
    let glyph ← glyphForCodepoint bytes font codepoint
    if glyph = 0 then boundsFrom font remaining (codepoint + 1) bounds
    else do
      let bounds ← orDefault
        (do
          let outline ← loadGlyphOutline bytes font 10 0 glyph
          return includeOutlineBounds outline bounds)
        bounds
      boundsFrom font remaining (codepoint + 1) bounds

def buildFontMetrics (font : TtfFont) : Checked FontMetrics := do
  let design := designMetrics font
  let bounds ← boundsFrom bytes font (0x7e + 1 - 0x20) 0x20 (design.2.1, design.1)
  let minY := bounds.1
  let maxY := bounds.2
  require (¬maxY ≤ minY)
  let targetHeight := ttyFontHeight - 4
  let height ← int32 (maxY - minY)
  let span ← int32 (height + positiveOrDefault design.2.2 0)
  let designSpan ← if span ≤ 0 then int32 (maxY - minY) else pure span
  require (¬(targetHeight ≤ 0 ∨ designSpan ≤ 0))
  let halfGap ← quot32 (positiveOrDefault design.2.2 0) 2
  let designTop ← int32 (maxY + halfGap)
  let originY ← quot32 (ttyFontHeight - targetHeight) 2
  return { scale := targetHeight, designTop, designSpan, originY }

/-! ### Edges -/

def pointMidpoint (lhs rhs : GlyphPoint) : Checked GlyphPoint := do
  let sumX ← int32 (lhs.x + rhs.x)
  let x ← quot32 sumX 2
  let sumY ← int32 (lhs.y + rhs.y)
  let y ← quot32 sumY 2
  return ⟨x, y, true⟩

def addEdge (edges : List RasterEdge) (x₀ y₀ x₁ y₁ : ℤ) : Checked (List RasterEdge) :=
  if y₀ = y₁ then return edges
  else do
    require (edges.length < maxRasterEdges)
    return edges ++ [⟨x₀, y₀, x₁, y₁⟩]

/-- `(mt * mt * p0 + 2 * mt * t * p1 + t * t * p2) / (STEPS * STEPS)`. -/
def quadraticCoordinate (mt t p₀ p₁ p₂ : ℤ) : Checked ℤ := do
  let first ← int32 (mt * mt * p₀)
  let second ← int32 (2 * mt * t * p₁)
  let partialSum ← int32 (first + second)
  let third ← int32 (t * t * p₂)
  let sum ← int32 (partialSum + third)
  quot32 sum (8 * 8)

/-- The loop of `add_quadratic`. -/
def quadraticFrom (p₀ p₁ p₂ : GlyphPoint) :
    ℕ → ℤ → ℤ → ℤ → List RasterEdge → Checked (List RasterEdge)
  | 0, _, _, _, edges => return edges
  | remaining + 1, i, previousX, previousY, edges => do
    let x ← quadraticCoordinate (8 - i) i p₀.x p₁.x p₂.x
    let y ← quadraticCoordinate (8 - i) i p₀.y p₁.y p₂.y
    let edges ← addEdge edges previousX previousY x y
    quadraticFrom p₀ p₁ p₂ remaining (i + 1) x y edges

def addQuadratic (edges : List RasterEdge) (p₀ p₁ p₂ : GlyphPoint) : Checked (List RasterEdge) :=
  quadraticFrom p₀ p₁ p₂ 8 1 p₀.x p₀.y edges

/-- The loop of `contour_to_edges`. Its index grows in every round. -/
def contourFrom (outline : GlyphOutline) (start stop : ℕ) :
    ℕ → ℕ → GlyphPoint → List RasterEdge → Checked (GlyphPoint × List RasterEdge)
  | 0, _, _, _ => fault
  | fuel + 1, index, current, edges =>
    if index ≤ stop then do
      let control ← Cells.get outline.points index
      let next ← Cells.get outline.points (start + (index - start + 1) % (stop - start + 1))
      if control.onCurve then do
        let edges ← addEdge edges current.x current.y control.x control.y
        contourFrom outline start stop fuel (index + 1) control edges
      else if ¬next.onCurve then do
        let next ← pointMidpoint control next
        let edges ← addQuadratic edges current control next
        contourFrom outline start stop fuel (index + 1) next edges
      else do
        let edges ← addQuadratic edges current control next
        contourFrom outline start stop fuel (index + 2) next edges
    else return (current, edges)

/-- The point that a contour starts and ends at. -/
def firstPoint (first last : GlyphPoint) : Checked GlyphPoint :=
  if first.onCurve then return first
  else if last.onCurve then return last
  else pointMidpoint last first

def contourToEdges (outline : GlyphOutline) (start stop : ℕ) (edges : List RasterEdge) :
    Checked (List RasterEdge) := do
  require (¬(start > stop ∨ stop ≥ outline.pointCount))
  let first ← Cells.get outline.points start
  let last ← Cells.get outline.points stop
  let first ← firstPoint first last
  let drawn ← contourFrom outline start stop (stop - start + 2) start first edges
  addEdge drawn.2 drawn.1.x drawn.1.y first.x first.y

/-- The loop of `outline_edges`. -/
def outlineEdgesFrom (outline : GlyphOutline) :
    ℕ → ℕ → ℕ → List RasterEdge → Checked (List RasterEdge)
  | 0, _, _, edges => return edges
  | remaining + 1, i, start, edges => do
    let stop ← Cells.get outline.contours i
    let edges ← contourToEdges outline start stop.toNat edges
    outlineEdgesFrom outline remaining (i + 1) (stop.toNat + 1) edges

def outlineEdges (outline : GlyphOutline) : Checked (List RasterEdge) :=
  outlineEdgesFrom outline outline.contourCount 0 0 []

/-! ### Filling -/

/-- The edge with its upper end first. -/
def RasterEdge.downward (edge : RasterEdge) : RasterEdge :=
  if edge.y₀ > edge.y₁ then ⟨edge.x₁, edge.y₁, edge.x₀, edge.y₀⟩ else edge

/-- Where a downward edge meets the line of the sample. -/
def edgeIntersection (edge : RasterEdge) (sampleY : ℤ) : Checked ℤ := do
  let below ← int32 (sampleY - edge.y₀)
  let width ← int32 (edge.x₁ - edge.x₀)
  let height ← int32 (edge.y₁ - edge.y₀)
  let product ← int64 (below * width)
  let quotient ← quot64 product height
  int32 (edge.x₀ + toInt32 quotient)

/-- The loop of `point_inside_outline`. -/
def pointInsideFrom (sampleX sampleY : ℤ) : List RasterEdge → Bool → Checked Bool
  | [], inside => return inside
  | edge :: edges, inside =>
    let edge := edge.downward
    if sampleY < edge.y₀ ∨ sampleY ≥ edge.y₁ then pointInsideFrom sampleX sampleY edges inside
    else do
      let intersection ← edgeIntersection edge sampleY
      pointInsideFrom sampleX sampleY edges (if sampleX ≥ intersection then !inside else inside)

def pointInsideOutline (edges : List RasterEdge) (sampleX sampleY : ℤ) : Checked Bool :=
  pointInsideFrom sampleX sampleY edges false

def samples : List (ℤ × ℤ) :=
  [(2, 2), (6, 2), (10, 2), (14, 2), (2, 6), (6, 6), (10, 6), (14, 6),
    (2, 10), (6, 10), (10, 10), (14, 10), (2, 14), (6, 14), (10, 14), (14, 14)]

/-- The loop of `rasterize_coverage`. -/
def coveredFrom (edges : List RasterEdge) (x y : ℤ) : List (ℤ × ℤ) → ℕ → Checked ℕ
  | [], covered => return covered
  | sample :: rest, covered => do
    let left ← int32 (x * 16)
    let sampleX ← int32 (left + sample.1)
    let top ← int32 (y * 16)
    let sampleY ← int32 (top + sample.2)
    let inside ← pointInsideOutline edges sampleX sampleY
    coveredFrom edges x y rest (if inside then covered + 1 else covered)

def rasterizeCoverage (edges : List RasterEdge) (x y : ℤ) : Checked UInt8 := do
  let covered ← coveredFrom edges x y samples 0
  return UInt8.ofNat ((covered * 255 + 8) / 16)

/-! ### Glyphs -/

/-- A coordinate in the cell: the offset and the scaled value, in sixteenths. -/
def scaleCoordinate (metrics : FontMetrics) (offset value : ℤ) : Checked ℤ := do
  let scaled ← scaleDesign value metrics.scale metrics.designSpan
  let sum ← int32 (offset + scaled)
  int32 (sum * 16)

def scalePoint (metrics : FontMetrics) (offsetX : ℤ) (point : GlyphPoint) : Checked GlyphPoint := do
  let x ← scaleCoordinate metrics offsetX point.x
  let below ← int32 (metrics.designTop - point.y)
  let y ← scaleCoordinate metrics metrics.originY below
  return ⟨x, y, point.onCurve⟩

/-- The loop of `scale_outline_to_cell` over the points. -/
def scalePointsFrom (source : GlyphOutline) (metrics : FontMetrics) (offsetX : ℤ) :
    ℕ → ℕ → Cells 384 GlyphPoint → Checked (Cells 384 GlyphPoint)
  | 0, _, points => return points
  | remaining + 1, i, points => do
    let point ← Cells.get source.points i
    let point ← scalePoint metrics offsetX point
    let points ← Cells.set points i point
    scalePointsFrom source metrics offsetX remaining (i + 1) points

/-- The width of the glyph in the cell. -/
def glyphWidth (font : TtfFont) (source : GlyphOutline) (metrics : FontMetrics) : Checked ℤ := do
  let advance ← if source.advanceWidth ≤ 0 then quot32 font.unitsPerEm.toNat 2
    else pure source.advanceWidth
  let width ← scaleDesign advance metrics.scale metrics.designSpan
  let width := if width ≤ 0 then 1 else width
  return if width > ttyFontWidth - 1 then ttyFontWidth - 1 else width

def scaleOutlineToCell (font : TtfFont) (source : GlyphOutline) (metrics : FontMetrics) :
    Checked GlyphOutline := do
  require (¬(metrics.designSpan ≤ 0 ∨ metrics.scale ≤ 0 ∨ source.pointCount > maxGlyphPoints ∨
    source.contourCount > maxGlyphContours))
  let width ← glyphWidth font source metrics
  let offsetX ← quot32 (ttyFontWidth - width) 2
  let points ← scalePointsFrom source metrics offsetX source.pointCount 0 GlyphOutline.zero.points
  let contours ← copyContoursFrom source.contours source.contourCount 0 GlyphOutline.zero.contours
  return {
    points, contours, pointCount := source.pointCount, contourCount := source.contourCount
    xMin := source.xMin, yMin := source.yMin, xMax := source.xMax, yMax := source.yMax
    advanceWidth := wrapInt16 width, hasBounds := source.hasBounds }

/-- The edges of a glyph, up to the loop of `rasterize_glyph` that fills the cell. -/
def glyphEdges (font : TtfFont) (metrics : FontMetrics) (codepoint : UInt32) :
    Checked (List RasterEdge) := do
  let glyph ← glyphForCodepoint bytes font codepoint
  require (glyph ≠ 0)
  let outline ← loadGlyphOutline bytes font 10 0 glyph
  require (outline.pointCount ≠ 0)
  let scaled ← scaleOutlineToCell font outline metrics
  outlineEdges scaled

/-- `rasterize_glyph`: the rows of the cell. -/
def rasterizeGlyph (font : TtfFont) (metrics : FontMetrics) (codepoint : UInt32) :
    Checked (List (List UInt8)) :=
  if codepoint = 32 then return List.replicate 28 (List.replicate 13 0)
  else do
    let edges ← glyphEdges bytes font metrics codepoint
    (List.range 28).mapM fun y : ℕ => (List.range 13).mapM fun x : ℕ => rasterizeCoverage edges x y

end Xbks
