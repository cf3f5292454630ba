import Xbks.Drivers.FontSafe

/-!
# The font parser on arbitrary bytes
-/

namespace Xbks

open Checked

/-- For every byte string the parser ends, reads inside the font and indexes inside its arrays. So do
the functions on a font that it accepts, for every character and every glyph. -/
theorem font_parser_safe (bytes : List UInt8) :
    Safe (parseTtf bytes) fun font =>
      (∀ codepoint, Safe (glyphForCodepoint bytes font codepoint) fun _ => True) ∧
      ∀ glyph, Safe (loadGlyphOutline bytes font 10 0 glyph) GlyphOutline.Valid := by
  refine (safe_parseTtf bytes).mono fun font hfont => ?_
  constructor
  · intro codepoint
    exact safe_glyphForCodepoint hfont codepoint
  · intro glyph
    exact safe_loadGlyphOutline hfont (by decide) (by decide) glyph

/-- A font with one glyph, which is a composite of itself. -/
def selfComposite : List UInt8 :=
  -- the table directory
  [0, 1, 0, 0, 0, 7] ++ List.replicate 6 0 ++
  [0x63, 0x6d, 0x61, 0x70, 0, 0, 0, 0, 0, 0, 0, 244, 0, 0, 0, 28] ++
  [0x67, 0x6c, 0x79, 0x66, 0, 0, 0, 0, 0, 0, 0, 228, 0, 0, 0, 16] ++
  [0x68, 0x65, 0x61, 0x64, 0, 0, 0, 0, 0, 0, 0, 124, 0, 0, 0, 54] ++
  [0x68, 0x68, 0x65, 0x61, 0, 0, 0, 0, 0, 0, 0, 178, 0, 0, 0, 36] ++
  [0x68, 0x6d, 0x74, 0x78, 0, 0, 0, 0, 0, 0, 0, 220, 0, 0, 0, 4] ++
  [0x6c, 0x6f, 0x63, 0x61, 0, 0, 0, 0, 0, 0, 0, 224, 0, 0, 0, 4] ++
  [0x6d, 0x61, 0x78, 0x70, 0, 0, 0, 0, 0, 0, 0, 214, 0, 0, 0, 6] ++
  -- `head`, `hhea`, `maxp` and `hmtx`
  List.replicate 18 0 ++ [3, 232] ++ List.replicate 34 0 ++
  List.replicate 34 0 ++ [0, 1] ++
  [0, 0, 0, 0, 0, 1] ++
  [0, 0, 0, 0] ++
  -- `loca` and `glyf`
  [0, 0, 0, 8] ++
  [255, 255] ++ List.replicate 8 0 ++ [0, 0, 0, 0, 0, 0] ++
  -- `cmap`
  [0, 0, 0, 1, 0, 3, 0, 1, 0, 0, 0, 12] ++
  [0, 4, 0, 16] ++ List.replicate 12 0

/-- The font is accepted, and its glyph is refused when the recursion is nine deep. -/
example : (parseTtf selfComposite).isOk ∧
    (do
      let font ← parseTtf selfComposite
      discard <| loadGlyphOutline selfComposite font 10 0 0) = .error .refused := by
  decide +kernel

end Xbks
