import Xbks.Fs.Ramdisk

/-!
# The keyboard

The driver of `drivers/keyboard.c` for the bytes of a PS/2 keyboard in scancode set 1, and the part of
`drivers/serial.c` that it reads from. During a call each port is read at most once, so what a call
finds is a function from ports to bytes.
-/

namespace Xbks

/-- What `xbks_inb` answers during a call. -/
abbrev Ports := UInt16 → UInt8

abbrev xbksSerialCom1 : UInt16 := 0x3f8
abbrev serialLineStatus : UInt16 := 5

abbrev ps2DataPort : UInt16 := 0x60
abbrev ps2StatusPort : UInt16 := 0x64
abbrev ps2StatusOutputFull : UInt8 := 1

/-! ### The serial port -/

def serialReceived (ports : Ports) (port : UInt16) : Bool :=
  ports (port + serialLineStatus) &&& 0x01 ≠ 0

/-- `out` is not a null pointer where the keyboard calls it. -/
def xbksSerialReadByte (ports : Ports) (port : UInt16) : Option UInt8 :=
  if ¬serialReceived ports port then none else some (ports port)

/-! ### Characters -/

/-- A table of 128 characters, 0 for a key without one. -/
abbrev ScancodeMap := Fin 128 → UInt8

def normalScancodeMap : ScancodeMap := fun key =>
  ([0, 0x1b] ++ cstr "1234567890-=" ++ [8, 9] ++ cstr "qwertyuiop[]" ++ [10, 0] ++
    cstr "asdfghjkl;'`" ++ [0] ++ cstr "\\zxcvbnm,./" ++ [0, 0, 0] ++ cstr " ").getD key 0

def shiftedScancodeMap : ScancodeMap := fun key =>
  ([0, 0x1b] ++ cstr "!@#$%^&*()_+" ++ [8, 9] ++ cstr "QWERTYUIOP\x7b\x7d" ++ [10, 0] ++
    cstr "ASDFGHJKL:\"~" ++ [0] ++ cstr "|ZXCVBNM<>?" ++ [0, 0, 0] ++ cstr " ").getD key 0

example : normalScancodeMap 0x29 = 96 ∧ shiftedScancodeMap 0x35 = 63 ∧ normalScancodeMap 0x39 = 32 := by
  decide

/-! ### The driver -/

/-- The value of the static variable `shift_pressed` after `xbks_keyboard_init`. -/
def xbksKeyboardInit : Bool := false

/-- The character that is stored in `out`, if any, and the value of `shift_pressed`. -/
def xbksKeyboardReadChar (ports : Ports) (shiftPressed : Bool) : Option UInt8 × Bool :=
  match xbksSerialReadByte ports xbksSerialCom1 with
  | some serialByte => (some (if serialByte = 13 then 10 else serialByte), shiftPressed)
  | none =>
    if ports ps2StatusPort &&& ps2StatusOutputFull = 0 then (none, shiftPressed)
    else
      let scancode := ports ps2DataPort
      let released : Bool := scancode &&& 0x80 ≠ 0
      let key := scancode &&& 0x7f
      if key = 0x2a ∨ key = 0x36 then (none, !released)
      else if h : released = true ∨ 128 ≤ key then (none, shiftPressed)
      else
        have hkey : key.toNat < 128 := UInt8.lt_iff_toNat_lt.mp (UInt8.not_le.mp (not_or.mp h).2)
        let ch := if shiftPressed then shiftedScancodeMap ⟨key.toNat, hkey⟩
          else normalScancodeMap ⟨key.toNat, hkey⟩
        if ch = 0 then (none, shiftPressed) else (some ch, shiftPressed)

/-- The loop waits through the calls that find no character. It goes on with the calls that are left. -/
def xbksKeyboardReadCharBlocking : List Ports → Bool → Option (UInt8 × Bool × List Ports)
  | [], _ => none
  | ports :: calls, shiftPressed =>
    match xbksKeyboardReadChar ports shiftPressed with
    | (some ch, shiftPressed) => some (ch, shiftPressed, calls)
    | (none, shiftPressed) => xbksKeyboardReadCharBlocking calls shiftPressed

end Xbks
