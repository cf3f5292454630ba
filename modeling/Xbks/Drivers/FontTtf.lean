import Mathlib.Data.Int.Basic
import Mathlib.Data.UInt
import Xbks.Lib.Checked

/-!
# TrueType fonts

The parser of `drivers/font_ttf.c`: the table directory, the character map and the outlines of
glyphs, simple and composite. A pointer into the font is an offset. A read outside the font, an
array index beyond the capacity and a loop that does not end are faults; `false` is a refusal.
-/

namespace Xbks

open Checked

abbrev tagCmap : UInt32 := 0x636d6170
abbrev tagGlyf : UInt32 := 0x676c7966
abbrev tagHead : UInt32 := 0x68656164
abbrev tagHhea : UInt32 := 0x68686561
abbrev tagHmtx : UInt32 := 0x686d7478
abbrev tagLoca : UInt32 := 0x6c6f6361
abbrev tagMaxp : UInt32 := 0x6d617870
abbrev tagOs2 : UInt32 := 0x4f532f32

abbrev arg1And2AreWords : UInt16 := 0x1
abbrev argsAreXyValues : UInt16 := 0x2
abbrev weHaveAScale : UInt16 := 0x8
abbrev moreComponents : UInt16 := 0x20
abbrev weHaveAnXAndYScale : UInt16 := 0x40
abbrev weHaveATwoByTwo : UInt16 := 0x80
abbrev weHaveInstructions : UInt16 := 0x100

abbrev glyphOnCurve : UInt8 := 0x1
abbrev glyphXShortVector : UInt8 := 0x2
abbrev glyphYShortVector : UInt8 := 0x4
abbrev glyphRepeatFlag : UInt8 := 0x8
abbrev glyphXIsSameOrPositive : UInt8 := 0x10
abbrev glyphYIsSameOrPositive : UInt8 := 0x20

abbrev maxGlyphPoints : ℕ := 384
abbrev maxGlyphContours : ℕ := 64
abbrev maxComponentDepth : ℕ := 8

structure TtfTable where
  data : ℕ
  size : ℕ
  deriving DecidableEq

/-- `struct ttf_font`. The bytes of the font are passed separately. -/
structure TtfFont where
  cmap : TtfTable
  glyf : TtfTable
  head : TtfTable
  hhea : TtfTable
  hmtx : TtfTable
  loca : TtfTable
  maxp : TtfTable
  os2 : TtfTable
  cmapSubtable : TtfTable
  numGlyphs : UInt16
  numberOfHmetrics : UInt16
  unitsPerEm : UInt16
  ascent : ℤ
  descent : ℤ
  lineGap : ℤ
  typoAscent : ℤ
  typoDescent : ℤ
  typoLineGap : ℤ
  indexToLocFormat : ℤ

structure GlyphPoint where
  x : ℤ
  y : ℤ
  onCurve : Bool
  deriving DecidableEq

structure GlyphOutline where
  points : Cells 384 GlyphPoint
  contours : Cells 64 UInt16
  pointCount : ℕ
  contourCount : ℕ
  xMin : ℤ
  yMin : ℤ
  xMax : ℤ
  yMax : ℤ
  advanceWidth : ℤ
  hasBounds : Bool

/-- The outline that `memset` leaves. -/
def GlyphOutline.zero : GlyphOutline :=
  { points := fun _ => some ⟨0, 0, false⟩
    contours := fun _ => some 0
    pointCount := 0
    contourCount := 0
    xMin := 0
    yMin := 0
    xMax := 0
    yMax := 0
    advanceWidth := 0
    hasBounds := false }

/-- The two's complement value of an `int16_t`. -/
def wrapInt16 (n : ℤ) : ℤ := n.bmod (2 ^ 16)

def rangeIsValid (size offset length : ℕ) : Bool := offset ≤ size ∧ length ≤ size - offset

variable (bytes : List UInt8)

def readU16 (data : ℕ) : Checked UInt16 := do
  let hi ← byteAt bytes data
  let lo ← byteAt bytes (data + 1)
  return (hi.toUInt16 <<< 8) ||| lo.toUInt16

def readS16 (data : ℕ) : Checked ℤ := do
  let value ← readU16 bytes data
  return wrapInt16 value.toNat

def readU32 (data : ℕ) : Checked UInt32 := do
  let b₀ ← byteAt bytes data
  let b₁ ← byteAt bytes (data + 1)
  let b₂ ← byteAt bytes (data + 2)
  let b₃ ← byteAt bytes (data + 3)
  return (b₀.toUInt32 <<< 24) ||| (b₁.toUInt32 <<< 16) ||| (b₂.toUInt32 <<< 8) ||| b₃.toUInt32

def tagFromString (tag : ℕ) : Checked UInt32 := readU32 bytes tag

/-! ### Tables -/

/-- The loop of `get_table`. -/
def getTableFrom (tag : UInt32) : ℕ → ℕ → Checked TtfTable
  | 0, _ => refuse
  | remaining + 1, i => do
    let record := 12 + i * 16
    let recordTag ← tagFromString bytes record
    let offset ← readU32 bytes (record + 8)
    let length ← readU32 bytes (record + 12)
    if recordTag = tag then do
      require (rangeIsValid bytes.length offset.toNat length.toNat)
      return ⟨offset.toNat, length.toNat⟩
    else getTableFrom tag remaining (i + 1)

def getTable (tag : UInt32) : Checked TtfTable := do
  require (rangeIsValid bytes.length 0 12)
  let tableCount ← readU16 bytes 4
  require (rangeIsValid bytes.length 12 (tableCount.toNat * 16))
  getTableFrom bytes tag tableCount.toNat 0

/-- The length that the header of the subtable at `offset` gives, unless the format is unknown or
the header is cut off. -/
def subtableLength (cmap : TtfTable) (offset : ℕ) : Checked (Option ℕ) :=
  if ¬rangeIsValid cmap.size offset 2 then return none
  else do
    let format ← readU16 bytes (cmap.data + offset)
    if format = 4 then
      if ¬rangeIsValid cmap.size offset 4 then return none
      else do
        let length ← readU16 bytes (cmap.data + offset + 2)
        return some length.toNat
    else if format = 12 then
      if ¬rangeIsValid cmap.size offset 16 then return none
      else do
        let length ← readU32 bytes (cmap.data + offset + 4)
        return some length.toNat
    else return none

/-- The loop of `select_cmap_subtable`. The first usable subtable is the fallback. -/
def selectCmapSubtableFrom (cmap : TtfTable) : ℕ → ℕ → Option TtfTable → Checked TtfTable
  | 0, _, none => refuse
  | 0, _, some fallback => return fallback
  | remaining + 1, i, fallback => do
    let record := cmap.data + 4 + i * 8
    let platform ← readU16 bytes record
    let encoding ← readU16 bytes (record + 2)
    let offset ← readU32 bytes (record + 4)
    match ← subtableLength bytes cmap offset.toNat with
    | none => selectCmapSubtableFrom cmap remaining (i + 1) fallback
    | some length =>
      if ¬rangeIsValid cmap.size offset.toNat length then
        selectCmapSubtableFrom cmap remaining (i + 1) fallback
      else
        let subtable : TtfTable := ⟨cmap.data + offset.toNat, length⟩
        if platform = 3 ∧ (encoding = 1 ∨ encoding = 10) ∨ platform = 0 then return subtable
        else selectCmapSubtableFrom cmap remaining (i + 1) (some (fallback.getD subtable))

def selectCmapSubtable (cmap : TtfTable) : Checked TtfTable := do
  require (rangeIsValid cmap.size 0 4)
  let subtableCount ← readU16 bytes (cmap.data + 2)
  require (rangeIsValid cmap.size 4 (subtableCount.toNat * 8))
  selectCmapSubtableFrom bytes cmap subtableCount.toNat 0 none

/-- The three values of the table `OS/2`, which are 0 when it is missing or too short. -/
def readTypoMetrics (os2 : TtfTable) : Checked (ℤ × ℤ × ℤ) :=
  if os2.size ≥ 74 then do
    let typoAscent ← readS16 bytes (os2.data + 68)
    let typoDescent ← readS16 bytes (os2.data + 70)
    let typoLineGap ← readS16 bytes (os2.data + 72)
    return (typoAscent, typoDescent, typoLineGap)
  else return (0, 0, 0)

def parseTtf : Checked TtfFont := do
  require (rangeIsValid bytes.length 0 12)
  let scalerType ← readU32 bytes 0
  require (scalerType = 0x00010000 ∨ scalerType = 0x74727565)
  let cmap ← getTable bytes tagCmap
  let glyf ← getTable bytes tagGlyf
  let head ← getTable bytes tagHead
  let hhea ← getTable bytes tagHhea
  let hmtx ← getTable bytes tagHmtx
  let loca ← getTable bytes tagLoca
  let maxp ← getTable bytes tagMaxp
  let os2 ← orDefault (getTable bytes tagOs2) ⟨0, 0⟩
  require (54 ≤ head.size ∧ 36 ≤ hhea.size ∧ 6 ≤ maxp.size)
  let unitsPerEm ← readU16 bytes (head.data + 18)
  let indexToLocFormat ← readS16 bytes (head.data + 50)
  let ascent ← readS16 bytes (hhea.data + 4)
  let descent ← readS16 bytes (hhea.data + 6)
  let lineGap ← readS16 bytes (hhea.data + 8)
  let numberOfHmetrics ← readU16 bytes (hhea.data + 34)
  let numGlyphs ← readU16 bytes (maxp.data + 4)
  let typo ← readTypoMetrics bytes os2
  require (unitsPerEm ≠ 0 ∧ numGlyphs ≠ 0 ∧ numberOfHmetrics ≠ 0 ∧ numberOfHmetrics ≤ numGlyphs ∧
    (indexToLocFormat = 0 ∨ indexToLocFormat = 1))
  let locaEntrySize := if indexToLocFormat = 0 then 2 else 4
  require ((numGlyphs.toNat + 1) * locaEntrySize ≤ loca.size ∧ numberOfHmetrics.toNat * 4 ≤ hmtx.size)
  let cmapSubtable ← selectCmapSubtable bytes cmap
  return {
    cmap, glyf, head, hhea, hmtx, loca, maxp, os2, cmapSubtable, numGlyphs, numberOfHmetrics,
    unitsPerEm, ascent, descent, lineGap, indexToLocFormat
    typoAscent := typo.1, typoDescent := typo.2.1, typoLineGap := typo.2.2 }

/-! ### Characters -/

/-- Where the four arrays of a format 4 subtable start. -/
abbrev endCodes : ℕ := 14
abbrev startCodes (segCount : ℕ) : ℕ := endCodes + segCount * 2 + 2
abbrev idDeltas (segCount : ℕ) : ℕ := startCodes segCount + segCount * 2
abbrev idRangeOffsets (segCount : ℕ) : ℕ := idDeltas segCount + segCount * 2

/-- The loop of `cmap_format4_glyph`. -/
def cmapFormat4From (subtable : TtfTable) (segCount : ℕ) (codepoint : UInt32) :
    ℕ → ℕ → Checked UInt16
  | 0, _ => return 0
  | remaining + 1, i => do
    let endCode ← readU16 bytes (subtable.data + endCodes + i * 2)
    let startCode ← readU16 bytes (subtable.data + startCodes segCount + i * 2)
    if codepoint < startCode.toUInt32 then return 0
    else if codepoint > endCode.toUInt32 then cmapFormat4From subtable segCount codepoint remaining (i + 1)
    else do
      let delta ← readS16 bytes (subtable.data + idDeltas segCount + i * 2)
      let rangeOffset ← readU16 bytes (subtable.data + idRangeOffsets segCount + i * 2)
      if rangeOffset = 0 then return ((codepoint + UInt32.ofInt delta) &&& 0xffff).toUInt16
      else
        let glyphOffset := idRangeOffsets segCount + i * 2 + rangeOffset.toNat +
          (codepoint.toNat - startCode.toNat) * 2
        if ¬rangeIsValid subtable.size glyphOffset 2 then return 0
        else do
          let glyph ← readU16 bytes (subtable.data + glyphOffset)
          return if glyph = 0 then 0 else glyph + UInt16.ofInt delta

def cmapFormat4Glyph (subtable : TtfTable) (codepoint : UInt32) : Checked UInt16 :=
  if codepoint > 0xffff ∨ subtable.size < 16 then return 0
  else do
    let segCountX2 ← readU16 bytes (subtable.data + 6)
    let segCount := segCountX2.toNat / 2
    if ¬rangeIsValid subtable.size (idRangeOffsets segCount) (segCount * 2) then return 0
    else cmapFormat4From bytes subtable segCount codepoint segCount 0

/-- The loop of `cmap_format12_glyph`. -/
def cmapFormat12From (subtable : TtfTable) (codepoint : UInt32) : ℕ → ℕ → Checked UInt16
  | 0, _ => return 0
  | remaining + 1, i => do
    let group := subtable.data + 16 + i * 12
    let startChar ← readU32 bytes group
    let endChar ← readU32 bytes (group + 4)
    if codepoint < startChar then return 0
    else if codepoint ≤ endChar then do
      let startGlyph ← readU32 bytes (group + 8)
      let glyph := startGlyph + codepoint - startChar
      return if glyph ≤ 0xffff then glyph.toUInt16 else 0
    else cmapFormat12From subtable codepoint remaining (i + 1)

def cmapFormat12Glyph (subtable : TtfTable) (codepoint : UInt32) : Checked UInt16 :=
  if subtable.size < 16 then return 0
  else do
    let groupCount ← readU32 bytes (subtable.data + 12)
    if ¬rangeIsValid subtable.size 16 (groupCount.toNat * 12) then return 0
    else cmapFormat12From bytes subtable codepoint groupCount.toNat 0

def glyphForCodepoint (font : TtfFont) (codepoint : UInt32) : Checked UInt16 :=
  if font.cmapSubtable.size < 2 then return 0
  else do
    let format ← readU16 bytes font.cmapSubtable.data
    if format = 4 then cmapFormat4Glyph bytes font.cmapSubtable codepoint
    else if format = 12 then cmapFormat12Glyph bytes font.cmapSubtable codepoint
    else return 0

/-! ### Glyphs -/

/-- Where the table `loca` says that the glyph is. -/
def glyphLocation (font : TtfFont) (glyph : UInt16) : Checked (ℕ × ℕ) :=
  if font.indexToLocFormat = 0 then do
    let start ← readU16 bytes (font.loca.data + glyph.toNat * 2)
    let stop ← readU16 bytes (font.loca.data + glyph.toNat * 2 + 2)
    return (start.toNat * 2, stop.toNat * 2)
  else do
    let start ← readU32 bytes (font.loca.data + glyph.toNat * 4)
    let stop ← readU32 bytes (font.loca.data + glyph.toNat * 4 + 4)
    return (start.toNat, stop.toNat)

/-- The offset and size of the glyph's data in the table `glyf`. -/
def glyphBounds (font : TtfFont) (glyph : UInt16) : Checked (ℕ × ℕ) := do
  require (glyph < font.numGlyphs)
  let location ← glyphLocation bytes font glyph
  require (location.1 ≤ location.2 ∧
    rangeIsValid font.glyf.size location.1 (location.2 - location.1))
  return (location.1, location.2 - location.1)

def glyphAdvance (font : TtfFont) (glyph : UInt16) : Checked ℤ :=
  if glyph < font.numberOfHmetrics then readS16 bytes (font.hmtx.data + glyph.toNat * 4)
  else readS16 bytes (font.hmtx.data + (font.numberOfHmetrics.toNat - 1) * 4)

def appendPoint (outline : GlyphOutline) (x y : ℤ) (onCurve : Bool) : Checked GlyphOutline := do
  require (outline.pointCount < maxGlyphPoints)
  let points ← Cells.set outline.points outline.pointCount ⟨x, y, onCurve⟩
  return { outline with points := points, pointCount := outline.pointCount + 1 }

/-- The first loop of `append_outline`. -/
def appendPointsFrom (src : GlyphOutline) (dx dy : ℤ) : ℕ → ℕ → GlyphOutline → Checked GlyphOutline
  | 0, _, dest => return dest
  | remaining + 1, i, dest => do
    let point ← Cells.get src.points i
    let dest ← appendPoint dest (point.x + dx) (point.y + dy) point.onCurve
    appendPointsFrom src dx dy remaining (i + 1) dest

/-- The second loop of `append_outline`. -/
def appendContoursFrom (src : GlyphOutline) (pointBase : ℕ) :
    ℕ → ℕ → GlyphOutline → Checked GlyphOutline
  | 0, _, dest => return dest
  | remaining + 1, i, dest => do
    let contour ← Cells.get src.contours i
    let contours ← Cells.set dest.contours dest.contourCount (UInt16.ofNat (pointBase + contour.toNat))
    appendContoursFrom src pointBase remaining (i + 1)
      { dest with contours := contours, contourCount := dest.contourCount + 1 }

/-- The bounds that `append_outline` leaves. -/
def appendBounds (dest src : GlyphOutline) (dx dy : ℤ) : GlyphOutline :=
  if ¬src.hasBounds then dest
  else if ¬dest.hasBounds then
    { dest with
      xMin := wrapInt16 (src.xMin + dx)
      xMax := wrapInt16 (src.xMax + dx)
      yMin := wrapInt16 (src.yMin + dy)
      yMax := wrapInt16 (src.yMax + dy)
      hasBounds := true }
  else
    { dest with
      xMin := if src.xMin + dx < dest.xMin then wrapInt16 (src.xMin + dx) else dest.xMin
      xMax := if src.xMax + dx > dest.xMax then wrapInt16 (src.xMax + dx) else dest.xMax
      yMin := if src.yMin + dy < dest.yMin then wrapInt16 (src.yMin + dy) else dest.yMin
      yMax := if src.yMax + dy > dest.yMax then wrapInt16 (src.yMax + dy) else dest.yMax }

def appendOutline (dest src : GlyphOutline) (dx dy : ℤ) : Checked GlyphOutline := do
  let pointBase := dest.pointCount
  require (dest.pointCount + src.pointCount ≤ maxGlyphPoints ∧
    dest.contourCount + src.contourCount ≤ maxGlyphContours)
  let dest ← appendPointsFrom src dx dy src.pointCount 0 dest
  let dest ← appendContoursFrom src pointBase src.contourCount 0 dest
  return appendBounds dest src dx dy

/-! ### Simple outlines -/

/-- The header of a glyph: bounds and advance width. -/
def readBounds (font : TtfFont) (glyph : UInt16) (glyphData : ℕ) (outline : GlyphOutline) :
    Checked GlyphOutline := do
  let xMin ← readS16 bytes (glyphData + 2)
  let yMin ← readS16 bytes (glyphData + 4)
  let xMax ← readS16 bytes (glyphData + 6)
  let yMax ← readS16 bytes (glyphData + 8)
  let advanceWidth ← glyphAdvance bytes font glyph
  return { outline with xMin, yMin, xMax, yMax, advanceWidth, hasBounds := true }

/-- `end_points[i]` is larger than the one before. -/
def checkIncreasing (endPoints : Cells 64 UInt16) (i : ℕ) : Checked Unit :=
  if i ≠ 0 then do
    let point ← Cells.get endPoints i
    let previous ← Cells.get endPoints (i - 1)
    require (previous < point)
  else return ()

/-- The loop that reads the last points of the contours. -/
def endPointsFrom (glyphData cursor : ℕ) :
    ℕ → ℕ → Cells 64 UInt16 → UInt16 → Checked (Cells 64 UInt16 × UInt16)
  | 0, _, endPoints, lastPoint => return (endPoints, lastPoint)
  | remaining + 1, i, endPoints, _ => do
    let point ← readU16 bytes (glyphData + cursor + i * 2)
    let endPoints ← Cells.set endPoints i point
    checkIncreasing endPoints i
    let lastPoint ← Cells.get endPoints i
    endPointsFrom glyphData cursor remaining (i + 1) endPoints lastPoint

/-- The inner loop over the flags: store `flag` until `count` is used up or there are `pointCount`
flags, and answer what is left of `count`. -/
def repeatFlag (pointCount : ℕ) (flag : UInt8) :
    ℕ → ℕ → Cells 384 UInt8 → Checked (ℕ × ℕ × Cells 384 UInt8)
  | 0, flagIndex, flags => return (0, flagIndex, flags)
  | count + 1, flagIndex, flags =>
    if flagIndex < pointCount then do
      let flags ← Cells.set flags flagIndex flag
      repeatFlag pointCount flag count (flagIndex + 1) flags
    else return (count + 1, flagIndex, flags)

/-- The outer loop over the flags. -/
def flagsFrom (glyphData glyphSize pointCount : ℕ) :
    ℕ → ℕ → ℕ → Cells 384 UInt8 → Checked (ℕ × Cells 384 UInt8)
  | 0, _, _, _ => fault
  | fuel + 1, flagIndex, cursor, flags =>
    if flagIndex < pointCount then do
      require (rangeIsValid glyphSize cursor 1)
      let flag ← byteAt bytes (glyphData + cursor)
      let flags ← Cells.set flags flagIndex flag
      if flag &&& glyphRepeatFlag ≠ 0 then do
        require (rangeIsValid glyphSize (cursor + 1) 1)
        let count ← byteAt bytes (glyphData + (cursor + 1))
        let rest ← repeatFlag pointCount flag count.toNat (flagIndex + 1) flags
        require (rest.1 = 0)
        flagsFrom glyphData glyphSize pointCount fuel rest.2.1 (cursor + 2) rest.2.2
      else flagsFrom glyphData glyphSize pointCount fuel (flagIndex + 1) (cursor + 1) flags
    else return (cursor, flags)

/-- The difference to the coordinate of the point before, and the cursor behind it. -/
def readDelta (glyphData glyphSize : ℕ) (shortVector sameOrPositive flag : UInt8) (cursor : ℕ) :
    Checked (ℤ × ℕ) :=
  if flag &&& shortVector ≠ 0 then do
    require (rangeIsValid glyphSize cursor 1)
    let delta ← byteAt bytes (glyphData + cursor)
    return (if flag &&& sameOrPositive ≠ 0 then (delta.toNat : ℤ) else -(delta.toNat : ℤ), cursor + 1)
  else if flag &&& sameOrPositive = 0 then do
    require (rangeIsValid glyphSize cursor 2)
    let delta ← readS16 bytes (glyphData + cursor)
    return (delta, cursor + 2)
  else return (0, cursor)

/-- One of the two loops over the coordinates. `store` says which fields of the point are set. -/
def coordinatesFrom (glyphData glyphSize : ℕ) (shortVector sameOrPositive : UInt8)
    (store : ℤ → UInt8 → GlyphPoint → GlyphPoint) (flags : Cells 384 UInt8) :
    ℕ → ℕ → ℕ → ℤ → Cells 384 GlyphPoint → Checked (ℕ × Cells 384 GlyphPoint)
  | 0, _, cursor, _, points => return (cursor, points)
  | remaining + 1, i, cursor, value, points => do
    let flag ← Cells.get flags i
    let delta ← readDelta bytes glyphData glyphSize shortVector sameOrPositive flag cursor
    let point ← Cells.get points i
    let points ← Cells.set points i (store (value + delta.1) flag point)
    coordinatesFrom glyphData glyphSize shortVector sameOrPositive store flags remaining (i + 1)
      delta.2 (value + delta.1) points

def xCoordinates (glyphData glyphSize pointCount cursor : ℕ) (flags : Cells 384 UInt8)
    (points : Cells 384 GlyphPoint) : Checked (ℕ × Cells 384 GlyphPoint) :=
  coordinatesFrom bytes glyphData glyphSize glyphXShortVector glyphXIsSameOrPositive
    (fun x _ point => { point with x := x }) flags pointCount 0 cursor 0 points

def yCoordinates (glyphData glyphSize pointCount cursor : ℕ) (flags : Cells 384 UInt8)
    (points : Cells 384 GlyphPoint) : Checked (ℕ × Cells 384 GlyphPoint) :=
  coordinatesFrom bytes glyphData glyphSize glyphYShortVector glyphYIsSameOrPositive
    (fun y flag point => { point with y := y, onCurve := flag &&& glyphOnCurve ≠ 0 }) flags
    pointCount 0 cursor 0 points

/-- The last loop of `load_simple_outline`. -/
def copyContoursFrom (endPoints : Cells 64 UInt16) :
    ℕ → ℕ → Cells 64 UInt16 → Checked (Cells 64 UInt16)
  | 0, _, contours => return contours
  | remaining + 1, i, contours => do
    let point ← Cells.get endPoints i
    let contours ← Cells.set contours i point
    copyContoursFrom endPoints remaining (i + 1) contours

def loadSimpleOutline (font : TtfFont) (glyph : UInt16) (glyphData glyphSize : ℕ)
    (outline : GlyphOutline) : Checked GlyphOutline := do
  require (10 ≤ glyphSize)
  let contourCount ← readS16 bytes glyphData
  require (0 ≤ contourCount ∧ contourCount ≤ maxGlyphContours)
  let outline ← readBounds bytes font glyph glyphData outline
  if contourCount = 0 then return outline
  else do
    let contourCount := contourCount.toNat
    let cursor := 10
    require (rangeIsValid glyphSize cursor (contourCount * 2))
    let ends ← endPointsFrom bytes glyphData cursor contourCount 0 (fun _ => none) 0
    let cursor := cursor + contourCount * 2
    let pointCount := ends.2.toNat + 1
    require (pointCount ≤ maxGlyphPoints)
    require (rangeIsValid glyphSize cursor 2)
    let instructionLength ← readU16 bytes (glyphData + cursor)
    let cursor := cursor + 2
    require (rangeIsValid glyphSize cursor instructionLength.toNat)
    let cursor := cursor + instructionLength.toNat
    let flags ← flagsFrom bytes glyphData glyphSize pointCount (pointCount + 1) 0 cursor (fun _ => none)
    let xs ← xCoordinates bytes glyphData glyphSize pointCount flags.1 flags.2 outline.points
    let ys ← yCoordinates bytes glyphData glyphSize pointCount xs.1 flags.2 xs.2
    let contours ← copyContoursFrom ends.1 contourCount 0 outline.contours
    return { outline with points := ys.2, contours, pointCount, contourCount }

/-! ### Composite outlines -/

/-- The two arguments of a component, and the cursor behind them. -/
def readArgs (glyphData glyphSize : ℕ) (flags : UInt16) (cursor : ℕ) : Checked (ℤ × ℤ × ℕ) :=
  if flags &&& arg1And2AreWords ≠ 0 then do
    require (rangeIsValid glyphSize cursor 4)
    let arg1 ← readS16 bytes (glyphData + cursor)
    let arg2 ← readS16 bytes (glyphData + cursor + 2)
    return (arg1, arg2, cursor + 4)
  else do
    require (rangeIsValid glyphSize cursor 2)
    let arg1 ← byteAt bytes (glyphData + cursor)
    let arg2 ← byteAt bytes (glyphData + cursor + 1)
    return (arg1.toInt8.toInt, arg2.toInt8.toInt, cursor + 2)

/-- The cursor behind the scale of a component. -/
def skipScale (glyphSize : ℕ) (flags : UInt16) (cursor : ℕ) : Checked ℕ :=
  if flags &&& weHaveAScale ≠ 0 then do
    require (rangeIsValid glyphSize cursor 2)
    return cursor + 2
  else if flags &&& weHaveAnXAndYScale ≠ 0 then do
    require (rangeIsValid glyphSize cursor 4)
    return cursor + 4
  else if flags &&& weHaveATwoByTwo ≠ 0 then do
    require (rangeIsValid glyphSize cursor 8)
    return cursor + 8
  else return cursor

/-- The loop over the components. `load` is `load_glyph_outline` one level deeper. -/
def componentsFrom (load : UInt16 → Checked GlyphOutline) (glyphData glyphSize : ℕ) :
    ℕ → ℕ → GlyphOutline → Checked (UInt16 × ℕ × GlyphOutline)
  | 0, _, _ => fault
  | fuel + 1, cursor, outline => do
    require (rangeIsValid glyphSize cursor 4)
    let flags ← readU16 bytes (glyphData + cursor)
    let componentGlyph ← readU16 bytes (glyphData + cursor + 2)
    let args ← readArgs bytes glyphData glyphSize flags (cursor + 4)
    let dx := if flags &&& argsAreXyValues ≠ 0 then args.1 else 0
    let dy := if flags &&& argsAreXyValues ≠ 0 then args.2.1 else 0
    let cursor ← skipScale glyphSize flags args.2.2
    let component ← load componentGlyph
    let outline ← appendOutline outline component dx dy
    if flags &&& moreComponents ≠ 0 then componentsFrom load glyphData glyphSize fuel cursor outline
    else return (flags, cursor, outline)

/-- The check of the instructions behind the last component. -/
def checkInstructions (glyphData glyphSize : ℕ) (flags : UInt16) (cursor : ℕ) : Checked Unit :=
  if flags &&& weHaveInstructions ≠ 0 then do
    require (rangeIsValid glyphSize cursor 2)
    let instructionLength ← readU16 bytes (glyphData + cursor)
    require (rangeIsValid glyphSize (cursor + 2) instructionLength.toNat)
  else return ()

def loadCompositeOutline (load : UInt16 → Checked GlyphOutline) (font : TtfFont) (glyph : UInt16)
    (glyphData glyphSize : ℕ) (outline : GlyphOutline) : Checked GlyphOutline := do
  require (10 ≤ glyphSize)
  let outline ← readBounds bytes font glyph glyphData outline
  let last ← componentsFrom bytes load glyphData glyphSize (glyphSize + 1) 10 outline
  checkInstructions bytes glyphData glyphSize last.1 last.2.1
  return last.2.2

/-- `load_glyph_outline`. Its first argument bounds the depth of the recursion. -/
def loadGlyphOutline (font : TtfFont) : ℕ → ℕ → UInt16 → Checked GlyphOutline
  | 0, _, _ => fault
  | fuel + 1, depth, glyph => do
    require (depth ≤ maxComponentDepth)
    let advanceWidth ← glyphAdvance bytes font glyph
    let outline := { GlyphOutline.zero with advanceWidth := advanceWidth }
    let bounds ← glyphBounds bytes font glyph
    if bounds.2 = 0 then return outline
    else do
      let glyphData := font.glyf.data + bounds.1
      require (10 ≤ bounds.2)
      let contourCount ← readS16 bytes glyphData
      if 0 ≤ contourCount then loadSimpleOutline bytes font glyph glyphData bounds.2 outline
      else
        loadCompositeOutline bytes (loadGlyphOutline font fuel (depth + 1)) font glyph glyphData
          bounds.2 outline

end Xbks
