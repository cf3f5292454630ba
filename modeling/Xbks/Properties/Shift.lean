import Xbks.Drivers.Keyboard
import Xbks.Lib.Held

/-!
# The shift keys

One boolean of the driver stands for two keys. It is compared with the keys that are down after the
bytes that the calls have taken from the keyboard.
-/

namespace Xbks

open Held

/-- The byte that a call takes from the keyboard: none if the serial port has one, or if there is none. -/
def Ports.scancode (ports : Ports) : Option UInt8 :=
  if serialReceived ports xbksSerialCom1 = true ∨ ports ps2StatusPort &&& ps2StatusOutputFull = 0 then none
  else some (ports ps2DataPort)

def scancodes (calls : List Ports) : List UInt8 := calls.filterMap Ports.scancode

/-- A byte of set 1 names a key in its low bits, and is that of a release if the high bit is set. -/
def scancodeAction (scancode : UInt8) : Action UInt8 :=
  if scancode &&& 0x80 ≠ 0 then .release (scancode &&& 0x7f) else .press (scancode &&& 0x7f)

def keyActions (calls : List Ports) : List (Action UInt8) := (scancodes calls).map scancodeAction

/-- The left and the right shift key. -/
abbrev shiftKeys : Finset UInt8 := {0x2a, 0x36}

def ShiftDown (calls : List Ports) : Prop := ∃ key ∈ shiftKeys, key ∈ heldAfter (keyActions calls)

instance (calls : List Ports) : Decidable (ShiftDown calls) :=
  inferInstanceAs (Decidable (∃ key ∈ shiftKeys, key ∈ heldAfter (keyActions calls)))

/-- The value of `shift_pressed` after the calls. -/
def shiftAfter (calls : List Ports) : Bool :=
  calls.foldl (fun shiftPressed ports => (xbksKeyboardReadChar ports shiftPressed).2) xbksKeyboardInit

/-- The character of a key. -/
def ScancodeMap.char (map : ScancodeMap) (key : Fin 128) : Option UInt8 :=
  if map key = 0 then none else some (map key)

variable {ports : Ports} {calls : List Ports} {shiftPressed : Bool}

/-! ### One call -/

lemma scancode_eq_some {byte : UInt8} (h : ports.scancode = some byte) :
    xbksSerialReadByte ports xbksSerialCom1 = none ∧ ports ps2StatusPort &&& ps2StatusOutputFull ≠ 0 ∧
      ports ps2DataPort = byte := by
  rw [Ports.scancode] at h
  split_ifs at h with hnone
  obtain ⟨hserial, hfull⟩ := not_or.mp hnone
  refine ⟨?_, hfull, Option.some.inj h⟩
  rw [xbksSerialReadByte, if_pos hserial]

/-- A call changes the flag as the byte says that it takes. -/
lemma xbksKeyboardReadChar_shift : (xbksKeyboardReadChar ports shiftPressed).2 =
    ports.scancode.elim shiftPressed fun byte => (scancodeAction byte).mark shiftKeys shiftPressed := by
  rw [xbksKeyboardReadChar]
  cases hcode : ports.scancode with
  | none =>
    rw [Ports.scancode] at hcode
    split_ifs at hcode with hnone
    rw [xbksSerialReadByte]
    by_cases hserial : serialReceived ports xbksSerialCom1 = true
    · rw [if_neg (not_not_intro hserial)]
      rfl
    · rw [if_pos hserial, if_pos (hnone.resolve_left hserial)]
      rfl
  | some byte =>
    obtain ⟨hserial, hfull, rfl⟩ := scancode_eq_some hcode
    rw [hserial]
    dsimp only [Option.elim_some]
    rw [if_neg hfull, scancodeAction]
    have hshift : ports ps2DataPort &&& 0x7f ∈ shiftKeys ↔
        ports ps2DataPort &&& 0x7f = 0x2a ∨ ports ps2DataPort &&& 0x7f = 0x36 := by
      rw [Finset.mem_insert, Finset.mem_singleton]
    by_cases hkey : ports ps2DataPort &&& 0x7f = 0x2a ∨ ports ps2DataPort &&& 0x7f = 0x36
    · rw [if_pos hkey]
      by_cases hreleased : ports ps2DataPort &&& 0x80 ≠ 0
      · rw [if_pos hreleased, Action.mark, if_pos (hshift.mpr hkey), decide_eq_true hreleased]
        rfl
      · rw [if_neg hreleased, Action.mark, if_pos (hshift.mpr hkey), decide_eq_false hreleased]
        rfl
    · have hmark : ∀ action : Action UInt8, action = .press (ports ps2DataPort &&& 0x7f) ∨
          action = .release (ports ps2DataPort &&& 0x7f) → action.mark shiftKeys shiftPressed = shiftPressed := by
        rintro action (rfl | rfl)
        · exact if_neg fun hmem => hkey (hshift.mp hmem)
        · exact if_neg fun hmem => hkey (hshift.mp hmem)
      rw [if_neg hkey, hmark _ (by split_ifs <;> simp)]
      split_ifs <;> rfl

/-- A press of another key is answered from one of the maps. -/
lemma xbksKeyboardReadChar_press {key : Fin 128} (hcode : ports.scancode = some (UInt8.ofNat key))
    (hkey : UInt8.ofNat key ∉ shiftKeys) : (xbksKeyboardReadChar ports shiftPressed).1 =
      (if shiftPressed then shiftedScancodeMap else normalScancodeMap).char key := by
  obtain ⟨hserial, hfull, hdata⟩ := scancode_eq_some hcode
  have hbits : ∀ key : Fin 128, UInt8.ofNat key &&& 0x80 = 0 ∧ UInt8.ofNat key &&& 0x7f = UInt8.ofNat key ∧
      (UInt8.ofNat key).toNat = key ∧ ¬128 ≤ UInt8.ofNat key := by decide
  obtain ⟨hpress, hlow, hnat, hlt⟩ := hbits key
  rw [Finset.mem_insert, Finset.mem_singleton] at hkey
  have hmap : (if shiftPressed then shiftedScancodeMap else normalScancodeMap) key =
      if shiftPressed then shiftedScancodeMap key else normalScancodeMap key := ite_apply _ _ _ _
  rw [xbksKeyboardReadChar, hserial, ScancodeMap.char, hmap]
  dsimp only
  simp only [if_neg hfull, hdata, hlow, if_neg hkey, hpress, hlt, hnat]
  rw [dif_neg (by simp), apply_ite Prod.fst]

/-! ### Sequences of calls -/

lemma shiftAfter_concat : shiftAfter (calls ++ [ports]) = (xbksKeyboardReadChar ports (shiftAfter calls)).2 :=
  List.foldl_concat _ _ _ _

lemma keyActions_concat :
    keyActions (calls ++ [ports]) = keyActions calls ++ (ports.scancode.map scancodeAction).toList := by
  rw [keyActions, keyActions, scancodes, scancodes, List.filterMap_append, List.map_append]
  cases hcode : ports.scancode with
  | none => simp [hcode]
  | some byte => simp [hcode]

/-- The driver's variable is the flag for the actions of the bytes. -/
lemma shiftAfter_eq (calls : List Ports) : shiftAfter calls = flagAfter shiftKeys (keyActions calls) := by
  induction calls using List.reverseRecOn with
  | nil => rfl
  | append_singleton calls ports ih =>
    rw [shiftAfter_concat, xbksKeyboardReadChar_shift, keyActions_concat, ih]
    cases ports.scancode with
    | none => rw [Option.elim_none, Option.map_none, Option.toList_none, List.append_nil]
    | some byte => rw [Option.elim_some, Option.map_some, Option.toList_some, flagAfter_concat]

lemma shows_iff : Shows shiftKeys (heldAfter (keyActions calls)) (flagAfter shiftKeys (keyActions calls)) ↔
    (shiftAfter calls = true ↔ ShiftDown calls) := by
  rw [shiftAfter_eq, Shows, ShiftDown]

/-- The actions up to some point are those of the calls up to some point. -/
lemma exists_calls_of_actions {front : List (Action UInt8)} (h : front <+: keyActions calls) :
    ∃ calls', calls' <+: calls ∧ front = keyActions calls' := by
  obtain ⟨bytes, hbytes, rfl⟩ := List.prefix_map_iff.mp h
  obtain ⟨calls', hcalls, rfl⟩ := List.prefix_filterMap_iff.mp hbytes
  exact ⟨calls', hcalls, rfl⟩

/-- After every call the variable is set exactly if a shift key is down, and the character of every other
key that is pressed comes from the map for that. -/
structure TracksShift (calls : List Ports) : Prop where
  pressed : ∀ front, front <+: calls → (shiftAfter front = true ↔ ShiftDown front)
  map : ∀ front ports (key : Fin 128), front ++ [ports] <+: calls →
    ports.scancode = some (UInt8.ofNat key) → UInt8.ofNat key ∉ shiftKeys →
    (xbksKeyboardReadChar ports (shiftAfter front)).1 =
      (if ShiftDown front then shiftedScancodeMap else normalScancodeMap).char key

/-- No shift key is released while the other one is down. -/
def ReleasesShiftAlone (calls : List Ports) : Prop :=
  ∀ front action, front ++ [action] <+: keyActions calls → action.Alone shiftKeys (heldAfter front)

/-- Presses and releases of keys in turn, without the byte that announces a key of the extended set. -/
def Typed (bytes : List UInt8) : Prop := 0xe0 ∉ bytes ∧ Alternate ∅ (bytes.map scancodeAction)

/-- The driver knows whether a shift key is down as long as no shift key is released while the other one
is down, whatever the bytes are and whatever is read from the serial port between them. -/
theorem tracksShift_iff (calls : List Ports) : TracksShift calls ↔ ReleasesShiftAlone calls := by
  have hshows : (∀ front, front <+: calls → (shiftAfter front = true ↔ ShiftDown front)) ↔
      ReleasesShiftAlone calls := by
    rw [ReleasesShiftAlone, ← shows_all_iff]
    constructor
    · intro h front hfront
      obtain ⟨calls', hcalls, rfl⟩ := exists_calls_of_actions hfront
      exact shows_iff.mpr (h calls' hcalls)
    · intro h front hfront
      exact shows_iff.mp (h _ ((hfront.filterMap _).map _))
  rw [← hshows]
  constructor
  · intro h
    exact h.pressed
  · intro h
    refine ⟨h, fun front ports key hfront hcode hkey => ?_⟩
    rw [xbksKeyboardReadChar_press hcode hkey]
    have hbefore := h front ((List.prefix_append front [ports]).trans hfront)
    by_cases hdown : ShiftDown front
    · rw [if_pos (hbefore.mpr hdown), if_pos hdown]
    · rw [if_neg fun hpressed => hdown (hbefore.mp hpressed), if_neg hdown]

/-- A call that finds the byte, and nothing at the serial port. -/
def keyCall (byte : UInt8) : Ports := fun port => if port = ps2StatusPort then 1 else
  if port = ps2DataPort then byte else 0

/-- Both shift keys are pressed, and the left one is released: the right one is still down. -/
theorem second_shift_forgotten : scancodes ([0x2a, 0x36, 0xaa].map keyCall) = [0x2a, 0x36, 0xaa] ∧
    Typed [0x2a, 0x36, 0xaa] ∧ ¬TracksShift ([0x2a, 0x36, 0xaa].map keyCall) := by
  refine ⟨by decide, ⟨by decide, by decide⟩, fun h => ?_⟩
  have hlast := h.pressed _ (List.prefix_refl _)
  have hdown : ShiftDown ([0x2a, 0x36, 0xaa].map keyCall) := by decide
  exact absurd (hlast.mpr hdown) (by decide)

/-! ### Waiting for a character -/

/-- The loop answers the character of the first call that finds one, and leaves the variable as the calls
up to it do. -/
theorem xbksKeyboardReadCharBlocking_calls {front rest : List Ports} {ch : UInt8}
    (h : xbksKeyboardReadCharBlocking calls (shiftAfter front) = some (ch, shiftPressed, rest)) :
    ∃ waits ports, calls = waits ++ ports :: rest ∧ shiftPressed = shiftAfter (front ++ waits ++ [ports]) ∧
      (xbksKeyboardReadChar ports (shiftAfter (front ++ waits))).1 = some ch := by
  induction calls generalizing front with
  | nil => cases h
  | cons ports calls ih =>
    rw [xbksKeyboardReadCharBlocking] at h
    rcases hread : xbksKeyboardReadChar ports (shiftAfter front) with ⟨_ | ch', shiftPressed'⟩
    · rw [hread] at h
      have hnext : shiftPressed' = shiftAfter (front ++ [ports]) := by
        rw [shiftAfter_concat, hread]
      rw [hnext] at h
      obtain ⟨waits, last, rfl, hshift, hch⟩ := ih h
      rw [List.append_assoc front, List.singleton_append] at hshift hch
      exact ⟨ports :: waits, last, rfl, hshift, hch⟩
    · rw [hread] at h
      cases h
      refine ⟨[], ports, rfl, ?_, ?_⟩
      · rw [List.append_nil, shiftAfter_concat, hread]
      · rw [List.append_nil, hread]

end Xbks
