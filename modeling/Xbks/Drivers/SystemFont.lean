import Xbks.Fs.Ramdisk
import Xbks.Drivers.Raster

/-!
# The system font

The choice of the boot module with the font in `drivers/font_ttf.c`, and the loading of its first 256
characters for the terminal.
-/

namespace Xbks

open Checked

def Module.isFont (module : Module) : Bool :=
  let moduleString := module.string.getD []
  let modulePath := module.path.getD []
  moduleString = cstr "system-font" ∨ stringEndsWith modulePath (cstr "/system.ttf") ∨
    stringEndsWith modulePath (cstr "system.ttf")

/-- A response without modules is `none`, a null entry of the module array as well. -/
def findFontModule (modules : Option (List (Option Module))) : Option Module :=
  match modules with
  | none => none
  | some modules => modules.findSome? fun m => m.filter fun m => m.usable && m.isFont

/-- `struct xbks_bitmap_font`. The bitmap of a glyph is the list of its rows. -/
structure BitmapFont where
  alpha : List (List (List UInt8))
  glyphs : ℕ
  width : ℕ
  height : ℕ
  source : CString

/-- A frame two pixels inside the cell. -/
def drawMissingGlyph : List (List UInt8) :=
  (List.range 28).map fun y => (List.range 13).map fun x =>
    if (y = 3 ∨ y = 28 - 4) ∧ 2 ≤ x ∧ x < 13 - 2 ∨ (x = 2 ∨ x = 13 - 3) ∧ 3 ≤ y ∧ y < 28 - 2 then 220 else 0

/-- A character that cannot be drawn gets the frame. -/
def xbksFontLoadSystemTty (kmem : KernelMemory) (modules : Option (List (Option Module))) :
    Checked BitmapFont :=
  match findFontModule modules with
  | none => refuse
  | some module => do
    let bytes := bytesAt kmem module.address module.size.toNat
    let font ← parseTtf bytes
    let metrics ← buildFontMetrics bytes font
    let alpha ← (List.range 256).mapM fun codepoint =>
      orDefault (rasterizeGlyph bytes font metrics (UInt32.ofNat codepoint)) drawMissingGlyph
    return { alpha, glyphs := 256, width := 13, height := 28
             source := module.path.getD (cstr "system-font") }

/-! ### The bitmap -/

/-- The rows fill a cell of the terminal. -/
def FillsCell (rows : List (List UInt8)) : Prop := rows.length = 28 ∧ ∀ row ∈ rows, row.length = 13

lemma drawMissingGlyph_fillsCell : FillsCell drawMissingGlyph := by
  constructor
  · rw [drawMissingGlyph, List.length_map, List.length_range]
  · intro row hrow
    obtain ⟨y, -, rfl⟩ := List.mem_map.mp hrow
    rw [List.length_map, List.length_range]

lemma answers_rasterizeGlyph_fillsCell {bytes : List UInt8} {font : TtfFont} {metrics : FontMetrics}
    {codepoint : UInt32} : Answers (rasterizeGlyph bytes font metrics codepoint) FillsCell := by
  rw [rasterizeGlyph]
  refine answers_ite (fun _ => answers_pure ?_) fun _ => (answers_trivial _).bind fun edges _ => ?_
  · constructor
    · rw [List.length_replicate]
    · intro row hrow
      rw [List.eq_of_mem_replicate hrow, List.length_replicate]
  · have hrow : ∀ y ∈ List.range 28, Answers ((List.range 13).mapM fun x : ℕ => rasterizeCoverage edges x y)
        fun row => row.length = 13 := by
      intro y _
      have hcell : ∀ x ∈ List.range 13, Answers (rasterizeCoverage edges x y) fun _ => True :=
        fun x _ => (answers_trivial _).mono fun _ _ => trivial
      refine (Answers.mapM hcell).mono fun row hrow => ?_
      rw [hrow.1, List.length_range]
    refine (Answers.mapM hrow).mono fun rows hrows => ⟨?_, hrows.2⟩
    rw [hrows.1, List.length_range]

/-- The bitmap has as many cells, and they are as wide and high, as the record says. -/
theorem answers_xbksFontLoadSystemTty (kmem : KernelMemory) (modules : Option (List (Option Module))) :
    Answers (xbksFontLoadSystemTty kmem modules) fun font =>
      font.alpha.length = font.glyphs ∧ ∀ glyph ∈ font.alpha, glyph.length = font.height ∧
        ∀ row ∈ glyph, row.length = font.width := by
  rw [xbksFontLoadSystemTty]
  cases findFontModule modules with
  | none => exact answers_refuse
  | some module =>
    refine (answers_trivial _).bind fun font _ => ?_
    refine (answers_trivial _).bind fun metrics _ => ?_
    have hglyph : ∀ codepoint ∈ List.range 256, Answers
        (orDefault (rasterizeGlyph (bytesAt kmem module.address module.size.toNat) font metrics
          (UInt32.ofNat codepoint)) drawMissingGlyph) FillsCell :=
      fun _ _ => answers_rasterizeGlyph_fillsCell.orDefault fun _ => drawMissingGlyph_fillsCell
    refine (Answers.mapM hglyph).bind fun alpha halpha => answers_pure ⟨?_, halpha.2⟩
    rw [halpha.1, List.length_range]

end Xbks
