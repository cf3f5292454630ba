import Mathlib.Data.UInt
import Xbks.Lib.Checked
import Xbks.Lib.Numeral

/-!
# The formatter

`lib/format.c`. The buffer and the format are the bytes that lie there: an access outside them is a
fault. The strings that a `%s` prints lie elsewhere, so storing into the buffer does not change them.
-/

namespace Xbks

open Checked Numeral

/-- A string without its terminator. -/
abbrev CText := { text : List UInt8 // 0 ∉ text }

/-- The bytes of a string in memory. -/
def CText.bytes (text : CText) : List UInt8 := text.val ++ [0]

def ascii (text : String) : List UInt8 := text.toList.map Char.toUInt8

def nullText : CText := ⟨ascii "(null)", by decide⟩

def hexMark : CText := ⟨ascii "0x", by decide⟩

/-- `va_list`: every argument takes eight bytes, an `int` the low half of them. -/
abbrev VaList := ℕ → BitVec 64

namespace VaList

variable (args : VaList)

/-- The arguments after the first. -/
def rest : VaList := fun i => args (i + 1)

def int : ℤ := ((args 0).setWidth 32).toInt

def long : ℤ := (args 0).toInt

def unsignedInt : ℕ := ((args 0).setWidth 32).toNat

def unsignedLong : ℕ := (args 0).toNat

end VaList

structure FormatSink where
  buffer : List UInt8
  capacity : ℕ
  length : ℕ

/-- `buffer[i] = ch`. -/
def storeByte (buffer : List UInt8) (i : ℕ) (ch : UInt8) : Checked (List UInt8) :=
  if i < buffer.length then pure (buffer.set i ch) else fault

def sinkPutc (sink : FormatSink) (ch : UInt8) : Checked FormatSink := do
  let buffer ← if sink.capacity ≠ 0 ∧ sink.length + 1 < sink.capacity
    then storeByte sink.buffer sink.length ch
    else pure sink.buffer
  pure { sink with buffer, length := sink.length + 1 }

/-- `sink_write`, over the bytes from the pointer on. -/
def sinkWrite (sink : FormatSink) : List UInt8 → Checked FormatSink
  | [] => fault
  | ch :: text => if ch = 0 then pure sink else do
    let sink ← sinkPutc sink ch
    sinkWrite sink text

def digitAlphabet (uppercase : Bool) : List UInt8 :=
  if uppercase then ascii "0123456789ABCDEF" else ascii "0123456789abcdef"

/-- The first loop of `sink_write_unsigned`. After 32 rounds `digits` is full. -/
def digitsFrom (alphabet : List UInt8) (base : ℕ) :
    ℕ → ℕ → Cells 32 UInt8 → ℕ → Checked (Cells 32 UInt8 × ℕ)
  | 0, _, _, _ => fault
  | fuel + 1, value, digits, count => if value = 0 then pure (digits, count) else do
    let digit ← byteAt alphabet (value % base)
    let digits ← digits.set count digit
    digitsFrom alphabet base fuel (value / base) digits (count + 1)

/-- The second loop of `sink_write_unsigned`. -/
def putDigits (digits : Cells 32 UInt8) : ℕ → FormatSink → Checked FormatSink
  | 0, sink => pure sink
  | count + 1, sink => do
    let digit ← digits.get count
    let sink ← sinkPutc sink digit
    putDigits digits count sink

def sinkWriteUnsigned (sink : FormatSink) (value base : ℕ) (uppercase : Bool) :
    Checked FormatSink :=
  if value = 0 then sinkPutc sink '0'.toUInt8 else do
    let (digits, count) ← digitsFrom (digitAlphabet uppercase) base 33 value (fun _ => none) 0
    putDigits digits count sink

def sinkWriteSigned (sink : FormatSink) (value : ℤ) : Checked FormatSink :=
  if value < 0 then do
    let sink ← sinkPutc sink '-'.toUInt8
    sinkWriteUnsigned sink ((-(value + 1)).toNat + 1) 10 false
  else sinkWriteUnsigned sink value.toNat 10 false

/-- `long_value` and `long_long_value`, and the index after the modifier. -/
def lengthModifier (fmt : List UInt8) (i : ℕ) : Checked (Bool × Bool × ℕ) := do
  let ch ← byteAt fmt i
  if ch = 'l'.toUInt8 then
    let next ← byteAt fmt (i + 1)
    if next = 'l'.toUInt8 then pure (true, true, i + 2) else pure (true, false, i + 1)
  else if ch = 'z'.toUInt8 then pure (false, true, i + 1)
  else pure (false, false, i)

/-- The cases of the `switch` on the conversion letter. -/
inductive Directive
  | percent
  | string
  | char
  | signed
  | unsigned
  | hex (uppercase : Bool)
  | pointer
  | default

def directive (letter : UInt8) : Directive :=
  match Char.ofUInt8 letter with
  | '%' => .percent
  | 's' => .string
  | 'c' => .char
  | 'd' | 'i' => .signed
  | 'u' => .unsigned
  | 'x' => .hex false
  | 'X' => .hex true
  | 'p' => .pointer
  | _ => .default

section

variable (strings : BitVec 64 → CText)

/-- The `switch` on the conversion letter. -/
def convert (sink : FormatSink) (args : VaList) (longValue longLongValue : Bool) (letter : UInt8) :
    Checked (FormatSink × VaList) :=
  -- on this machine `long` and `long long` are both eight bytes
  let signed := if longLongValue then args.long else if longValue then args.long else args.int
  let unsigned := if longLongValue then args.unsignedLong
    else if longValue then args.unsignedLong else args.unsignedInt
  match directive letter with
  | .percent => do
    let sink ← sinkPutc sink '%'.toUInt8
    pure (sink, args)
  | .string => do
    let sink ← sinkWrite sink (if args 0 ≠ 0 then strings (args 0) else nullText).bytes
    pure (sink, args.rest)
  | .char => do
    let sink ← sinkPutc sink (UInt8.ofBitVec ((args 0).setWidth 8))
    pure (sink, args.rest)
  | .signed => do
    let sink ← sinkWriteSigned sink signed
    pure (sink, args.rest)
  | .unsigned => do
    let sink ← sinkWriteUnsigned sink unsigned 10 false
    pure (sink, args.rest)
  | .hex uppercase => do
    let sink ← sinkWriteUnsigned sink unsigned 16 uppercase
    pure (sink, args.rest)
  | .pointer => do
    let sink ← sinkWrite sink hexMark.bytes
    let sink ← sinkWriteUnsigned sink args.unsignedLong 16 false
    pure (sink, args.rest)
  | .default => do
    let sink ← sinkPutc sink '%'.toUInt8
    let sink ← sinkPutc sink letter
    pure (sink, args)

/-- The loop over the format. Its index grows in every round, so a round for each byte is enough. -/
def formatFrom (fmt : List UInt8) : ℕ → ℕ → FormatSink → VaList → Checked FormatSink
  | 0, _, _, _ => fault
  | fuel + 1, i, sink, args => do
    let ch ← byteAt fmt i
    if ch = 0 then pure sink
    else if ch ≠ '%'.toUInt8 then do
      let sink ← sinkPutc sink ch
      formatFrom fmt fuel (i + 1) sink args
    else do
      let next ← byteAt fmt (i + 1)
      if next = 0 then sinkPutc sink '%'.toUInt8
      else do
        let (longValue, longLongValue, i) ← lengthModifier fmt (i + 1)
        let letter ← byteAt fmt i
        let (sink, args) ← convert strings sink args longValue longLongValue letter
        formatFrom fmt fuel (i + 1) sink args

abbrev int32Max : ℕ := 2 ^ 31 - 1

/-- `xbks_vsnprintf`: the buffer afterwards and the result. -/
def xbksVsnprintf (buffer : List UInt8) (bufferSize : ℕ) (fmt : List UInt8) (args : VaList) :
    Checked (List UInt8 × ℕ) := do
  let sink ← formatFrom strings fmt (fmt.length + 1) 0 ⟨buffer, bufferSize, 0⟩ args
  let buffer ← if bufferSize ≠ 0
    then storeByte sink.buffer (if sink.length < bufferSize then sink.length else bufferSize - 1) 0
    else pure sink.buffer
  pure (buffer, if sink.length > int32Max then int32Max else sink.length)

end

end Xbks
