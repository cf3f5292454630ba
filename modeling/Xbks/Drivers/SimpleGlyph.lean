import Xbks.Drivers.FontOutline
import Xbks.Drivers.FontBytes

/-!
# Encodings of simple glyphs

The bytes that the format of simple glyphs allows for given contours: each difference of coordinates
is omitted, or written in one or two bytes, and equal flags may be put together in runs.
-/

namespace Xbks

open Checked

/-! ### Differences -/

/-- How the difference to the coordinate before is written. -/
inductive DeltaForm
  | omitted
  | positiveByte
  | negativeByte
  | twoBytes
  deriving DecidableEq

namespace DeltaForm

/-- The form can express the difference. -/
def Fits : DeltaForm → ℤ → Prop
  | omitted, d => d = 0
  | positiveByte, d => 0 ≤ d ∧ d ≤ 255
  | negativeByte, d => -255 ≤ d ∧ d ≤ 0
  | twoBytes, d => -32768 ≤ d ∧ d ≤ 32767

instance : ∀ (form : DeltaForm) (d : ℤ), Decidable (form.Fits d)
  | omitted, d => inferInstanceAs (Decidable (d = 0))
  | positiveByte, d => inferInstanceAs (Decidable (0 ≤ d ∧ d ≤ 255))
  | negativeByte, d => inferInstanceAs (Decidable (-255 ≤ d ∧ d ≤ 0))
  | twoBytes, d => inferInstanceAs (Decidable (-32768 ≤ d ∧ d ≤ 32767))

end DeltaForm

/-- A number of 16 bits, the high byte first. -/
def wordBE (n : ℕ) : List UInt8 := [UInt8.ofNat (n / 256), UInt8.ofNat (n % 256)]

@[simp] lemma length_wordBE (n : ℕ) : (wordBE n).length = 2 := rfl

lemma word_of_wordBE {n : ℕ} (h : n < 65536) :
    word (UInt8.ofNat (n / 256)) (UInt8.ofNat (n % 256)) = UInt16.ofNat n := by
  rw [word, UInt8.toNat_ofNat_of_lt' (show _ < 256 by omega), UInt8.toNat_ofNat_of_lt' (show _ < 256 by omega)]
  rw [Nat.div_add_mod']

namespace DeltaForm

def bytes (d : ℤ) : DeltaForm → List UInt8
  | omitted => []
  | positiveByte => [UInt8.ofNat d.toNat]
  | negativeByte => [UInt8.ofNat (-d).toNat]
  | twoBytes => wordBE (d % 65536).toNat

/-- The two bits of the flag. -/
def bits (shortVector sameOrPositive : UInt8) : DeltaForm → UInt8
  | omitted => sameOrPositive
  | positiveByte => shortVector ||| sameOrPositive
  | negativeByte => shortVector
  | twoBytes => 0

end DeltaForm

/-- The bytes for coordinates behind a previous one. -/
def coordinateBytes : ℤ → List (ℤ × DeltaForm) → List UInt8
  | _, [] => []
  | previous, c :: cs => c.2.bytes (c.1 - previous) ++ coordinateBytes c.1 cs

/-- The forms can express the differences of the coordinates. -/
def FormsFit : ℤ → List (ℤ × DeltaForm) → Prop
  | _, [] => True
  | previous, c :: cs => c.2.Fits (c.1 - previous) ∧ FormsFit c.1 cs

instance : ∀ (previous : ℤ) (cs : List (ℤ × DeltaForm)), Decidable (FormsFit previous cs)
  | _, [] => isTrue trivial
  | previous, c :: cs =>
    have := instDecidableFormsFit c.1 cs
    inferInstanceAs (Decidable (c.2.Fits (c.1 - previous) ∧ FormsFit c.1 cs))

/-! ### Flags -/

/-- A point, how its two differences are written, and the two bits of its flag that mean nothing
here. -/
structure EncodedPoint where
  point : GlyphPoint
  xForm : DeltaForm
  yForm : DeltaForm
  overlap : Bool
  reserved : Bool
  deriving DecidableEq

def flagOf (onCurve overlap reserved : Bool) (xForm yForm : DeltaForm) : UInt8 :=
  (if onCurve then glyphOnCurve else 0) ||| xForm.bits glyphXShortVector glyphXIsSameOrPositive |||
    yForm.bits glyphYShortVector glyphYIsSameOrPositive ||| (if overlap then 0x40 else 0) |||
    (if reserved then 0x80 else 0)

/-- The flag of a point that is not repeated. -/
def EncodedPoint.flag (p : EncodedPoint) : UInt8 :=
  flagOf p.point.onCurve p.overlap p.reserved p.xForm p.yForm

/-- The bytes for a list of flags. Equal flags may be written once, with the number of repetitions. -/
inductive EncodesFlags : List UInt8 → List UInt8 → Prop
  | nil : EncodesFlags [] []
  | single (flag : UInt8) {flags bytes : List UInt8} (h : EncodesFlags flags bytes) :
      EncodesFlags (flag :: flags) (flag :: bytes)
  | run (flag count : UInt8) {flags bytes : List UInt8} (h : EncodesFlags flags bytes) :
      EncodesFlags (List.replicate (count.toNat + 1) flag ++ flags)
        ((flag ||| glyphRepeatFlag) :: count :: bytes)

/-! ### Glyphs -/

/-- A legal encoding of a simple glyph. -/
structure SimpleGlyph where
  contours : Contours EncodedPoint
  bounds : List UInt8
  instructions : List UInt8
  flagBytes : List UInt8
  contours_pos : 0 < contours.ends.length
  contours_le : contours.ends.length ≤ 64
  points_le : contours.points.length ≤ 384
  length_bounds : bounds.length = 8
  instructions_lt : instructions.length < 65536
  encodesFlags : EncodesFlags (contours.points.map EncodedPoint.flag) flagBytes
  xFits : FormsFit 0 (contours.points.map fun p => (p.point.x, p.xForm))
  yFits : FormsFit 0 (contours.points.map fun p => (p.point.y, p.yForm))

namespace SimpleGlyph

variable (g : SimpleGlyph)

def xBytes : List UInt8 := coordinateBytes 0 (g.contours.points.map fun p => (p.point.x, p.xForm))

def yBytes : List UInt8 := coordinateBytes 0 (g.contours.points.map fun p => (p.point.y, p.yForm))

def bytes : List UInt8 :=
  wordBE g.contours.ends.length ++ (g.bounds ++ (g.contours.ends.flatMap wordBE ++
    (wordBE g.instructions.length ++ (g.instructions ++ (g.flagBytes ++ (g.xBytes ++ g.yBytes))))))

end SimpleGlyph

end Xbks
