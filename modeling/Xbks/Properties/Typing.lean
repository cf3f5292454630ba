import Xbks.Properties.Shell

/-!
# Typing a line

The keys for a text, with a shift key where it is needed, reach the shell as that text, however long it waits between
the bytes of the keyboard; and Enter runs it.
-/

namespace Xbks

open Checked LineEditor Transition

variable {info : BootResponses} {c : Console} {s s' : Shell} {polls : List Ports} {ports : Ports} {text : CString}

/-! ### Keys for characters -/

/-- The key that has a character in a map. -/
def keyFor (map : ScancodeMap) (ch : UInt8) : Option (Fin 128) := (List.finRange 128).find? (map · = ch)

/-- The bytes that the keyboard sends when a character is typed: a press and a release, between those of the left
shift key for the upper characters. -/
def keyStrokes (ch : UInt8) : List UInt8 :=
  match keyFor normalScancodeMap ch with
  | some key => [UInt8.ofNat key, UInt8.ofNat key + 0x80]
  | none =>
    match keyFor shiftedScancodeMap ch with
    | some key => [0x2a, UInt8.ofNat key, UInt8.ofNat key + 0x80, 0xaa]
    | none => []

/-! ### Sequences of calls -/

/-- The characters that some calls find, and the value of `shift_pressed` after them. -/
def readAll : Bool → List Ports → List UInt8 × Bool
  | shiftPressed, [] => ([], shiftPressed)
  | shiftPressed, ports :: calls =>
    let r := readAll (xbksKeyboardReadChar ports shiftPressed).2 calls
    ((xbksKeyboardReadChar ports shiftPressed).1.toList ++ r.1, r.2)

lemma readAll_append (shiftPressed : Bool) (calls calls' : List Ports) : readAll shiftPressed (calls ++ calls') =
    ((readAll shiftPressed calls).1 ++ (readAll (readAll shiftPressed calls).2 calls').1,
      (readAll (readAll shiftPressed calls).2 calls').2) := by
  induction calls generalizing shiftPressed with
  | nil => rfl
  | cons ports calls ih => simp [readAll, ih]

/-- Nothing has come over the serial line. -/
def Idle (ports : Ports) : Prop := serialReceived ports xbksSerialCom1 = false

lemma scancode_keyCall (byte : UInt8) : (keyCall byte).scancode = some byte := by
  have hline : keyCall byte (xbksSerialCom1 + serialLineStatus) = 0 := by
    rw [keyCall, if_neg (by decide), if_neg (by decide)]
  have hserial : serialReceived (keyCall byte) xbksSerialCom1 = false := by
    rw [serialReceived, hline]
    decide
  have hstatus : keyCall byte ps2StatusPort = 1 := rfl
  rw [Ports.scancode, hserial, hstatus, if_neg (by decide)]
  rfl

lemma idle_of_scancode {byte : UInt8} (h : ports.scancode = some byte) : Idle ports := by
  obtain ⟨hserial, -, -⟩ := scancode_eq_some h
  rw [xbksSerialReadByte] at hserial
  split_ifs at hserial with hreceived
  rwa [Bool.not_eq_true] at hreceived

lemma read_idle (h : Idle ports) (shiftPressed : Bool) : xbksKeyboardReadChar ports shiftPressed =
    ports.scancode.elim (none, shiftPressed) fun byte => xbksKeyboardReadChar (keyCall byte) shiftPressed := by
  have hnone : xbksSerialReadByte ports xbksSerialCom1 = none := by
    rw [xbksSerialReadByte, h]
    rfl
  cases hcode : ports.scancode with
  | none =>
    rw [Ports.scancode] at hcode
    split_ifs at hcode with hempty
    have hstatus := hempty.resolve_left (by rw [h]; exact Bool.false_ne_true)
    rw [xbksKeyboardReadChar, hnone]
    dsimp only
    rw [if_pos hstatus]
    rfl
  | some byte =>
    obtain ⟨-, hfull, rfl⟩ := scancode_eq_some hcode
    obtain ⟨hserial, hstatus, hdata⟩ := scancode_eq_some (scancode_keyCall (ports ps2DataPort))
    simp only [Option.elim_some, xbksKeyboardReadChar, hnone, hserial, if_neg hfull, if_neg hstatus, hdata]

/-- Calls between which nothing comes over the serial line find what the bytes of the keyboard say. -/
lemma readAll_idle (h : ∀ ports ∈ polls, Idle ports) (shiftPressed : Bool) :
    readAll shiftPressed polls = readAll shiftPressed ((scancodes polls).map keyCall) := by
  induction polls generalizing shiftPressed with
  | nil => rfl
  | cons ports polls ih =>
    rw [List.forall_mem_cons] at h
    have hscan : scancodes (ports :: polls) = ports.scancode.toList ++ scancodes polls := by
      rw [scancodes, List.filterMap_cons]
      cases ports.scancode <;> rfl
    rw [readAll, read_idle h.1, ih h.2, hscan]
    cases ports.scancode with
    | none => rfl
    | some byte => rfl

/-- A character that has a key. -/
def Printable (ch : UInt8) : Prop := ch ≥ space ∧ ch ≤ tilde

lemma readAll_keyStrokes {ch : UInt8} (h : Printable ch) :
    readAll false ((keyStrokes ch).map keyCall) = ([ch], false) := by
  have hall : ∀ i : Fin 95, readAll false ((keyStrokes (UInt8.ofNat (32 + i))).map keyCall) =
      ([UInt8.ofNat (32 + i)], false) := by decide +kernel
  obtain ⟨hge, hle⟩ := h
  rw [ge_iff_le, UInt8.le_iff_toNat_le] at hge
  rw [UInt8.le_iff_toNat_le] at hle
  have hlow : space.toNat = 32 := rfl
  have hhigh : tilde.toNat = 126 := rfl
  have hch : UInt8.ofNat (32 + (ch.toNat - 32)) = ch := by
    rw [Nat.add_sub_cancel' (by omega), UInt8.ofNat_toNat]
  have hkey := hall ⟨ch.toNat - 32, by omega⟩
  rwa [hch] at hkey

lemma readAll_text (h : ∀ ch ∈ text, Printable ch) :
    readAll false ((text.flatMap keyStrokes).map keyCall) = (text, false) := by
  induction text with
  | nil => rfl
  | cons ch text ih =>
    rw [List.forall_mem_cons] at h
    rw [List.flatMap_cons, List.map_append, readAll_append, readAll_keyStrokes h.1, ih h.2]
    rfl

/-! ### The shell reads what is typed -/

lemma answers_shellKey (info : BootResponses) (s : Shell) (ch : UInt8) :
    Answers (shellKey info s ch) fun s' => s'.shiftPressed = s.shiftPressed := by
  rw [shellKey]
  refine answers_ite (fun _ => ?_) fun _ => answers_ite (fun _ => ?_) fun _ => answers_ite (fun _ => ?_) fun _ => ?_
  · refine (answers_trivial _).bind fun line _ => (answers_trivial _).bind fun name _ =>
      (answers_trivial _).bind fun r _ => ?_
    exact answers_ite (fun _ => answers_pure rfl) fun _ => answers_pure rfl
  · exact answers_ite (fun _ => answers_pure rfl) fun _ => answers_pure rfl
  · exact (answers_trivial _).bind fun line _ => answers_pure rfl
  · exact answers_pure rfl

lemma shellStep_shift (h : shellStep info s ports = some s') :
    s'.shiftPressed = (xbksKeyboardReadChar ports s.shiftPressed).2 := by
  rw [shellStep] at h
  split_ifs at h
  rw [shellPoll] at h
  rcases hread : xbksKeyboardReadChar ports s.shiftPressed with ⟨_ | ch, shiftPressed⟩
  · rw [hread] at h
    cases h
    rfl
  · rw [hread] at h
    dsimp only at h
    rcases hkey : shellKey info { s with shiftPressed := shiftPressed } ch with e | s₁
    · rw [hkey] at h
      cases h
    · rw [hkey] at h
      cases h
      exact answers_shellKey info _ ch _ hkey

/-- The keys that a run has found are those that the driver finds. -/
lemma run_readAll (hrun : ShellRun info s polls s') :
    observed (shellStep info) shellKeys s polls = (readAll s.shiftPressed polls).1.filterMap lineKey ∧
      s'.shiftPressed = (readAll s.shiftPressed polls).2 := by
  induction hrun with
  | nil => exact ⟨rfl, rfl⟩
  | @snoc polls t u ports hrun _ hstep ih =>
    obtain ⟨hkeys, hshift⟩ := ih
    rw [hrun.observed_concat hstep, readAll_append, hkeys, List.filterMap_append, ← hshift, shellKeys]
    refine ⟨congrArg _ ?_, shellStep_shift hstep⟩
    rw [readAll, readAll, List.append_nil]
    dsimp only
    cases (xbksKeyboardReadChar ports t.shiftPressed).1 with
    | none => rfl
    | some ch =>
      rw [Option.bind_some, Option.toList_some, List.filterMap_cons, List.filterMap_nil]
      cases lineKey ch <;> rfl

lemma entered_insert (h : text.length ≤ lineRoom) :
    edited (text.map Key.insert ++ [.enter]) = ⟨[⟨text, text⟩], ⟨[], []⟩⟩ := by
  rw [edited, Session.after_concat, Session.after_insert h]
  rfl

lemma filterMap_lineKey (h : ∀ ch ∈ text, Printable ch) : text.filterMap lineKey = text.map Key.insert := by
  induction text with
  | nil => rfl
  | cons ch text ih =>
    rw [List.forall_mem_cons] at h
    have hkey : lineKey ch = some (.insert ch) := by
      rw [lineKey, if_neg, if_neg, if_pos ⟨h.1.1, h.1.2⟩]
      · rintro rfl
        exact absurd h.1.1 (by decide)
      · rintro rfl
        exact absurd h.1.1 (by decide)
    rw [List.filterMap_cons_some hkey, ih h.2, List.map_cons]

/-- Polls that find characters of a text only keep the shell running. -/
lemma exists_shellRun (info : BootResponses) (c : Console) (h : ∀ ch ∈ (readAll false polls).1, Printable ch) :
    ∃ s, ShellRun info (shellStart c) polls s ∧ s.rebooting = false := by
  induction polls using List.reverseRecOn with
  | nil => exact ⟨shellStart c, .nil, rfl⟩
  | append_singleton polls ports ih =>
    rw [readAll_append, List.forall_mem_append] at h
    obtain ⟨s, hrun, hrunning⟩ := ih h.1
    obtain ⟨s', hstep, -⟩ := inSession_poll (inSession_run hrun) hrunning ports
    have hrun' : ShellRun info (shellStart c) (polls ++ [ports]) s' := .snoc hrun trivial hstep
    refine ⟨s', hrun', ?_⟩
    have hsession := inSession_run hrun'
    obtain ⟨hkeys, -⟩ := run_readAll hrun'
    have hstart : (shellStart c).shiftPressed = false := rfl
    rw [hkeys, hstart, readAll_append, filterMap_lineKey (List.forall_mem_append.mpr h)] at hsession
    rw [Bool.eq_false_iff, ne_eq, hsession.rebooting]
    rintro ⟨e, he, -⟩
    rw [edited, Session.entered_insert] at he
    exact List.not_mem_nil he

/-- A line that is typed and entered is run. -/
theorem typed_line_runs (htext : ∀ ch ∈ text, Printable ch) (hlen : text.length < lineSize)
    (hidle : ∀ ports ∈ polls, Idle ports) (hcodes : scancodes polls = text.flatMap keyStrokes) {enter : Ports}
    (henter : enter.scancode = some 0x1c) : ∃ s, ShellRun info (shellStart c) (polls ++ [enter]) s ∧
      s.console = c.write (banner ++ prompt ++ text ++ [newline] ++ lineOutput info text ++
        if text = cstr "reboot" then [] else prompt) ∧
      (s.rebooting = true ↔ text = cstr "reboot") := by
  have hread : readAll false polls = (text, false) := by
    rw [readAll_idle hidle, hcodes, readAll_text htext]
  have hroom : text.length ≤ lineRoom := Nat.le_of_lt_succ hlen
  have hprintable : ∀ ch ∈ (readAll false polls).1, Printable ch := by
    rw [hread]
    exact htext
  obtain ⟨s, hrun, hrunning⟩ := exists_shellRun info c hprintable
  obtain ⟨hkeys, hshift⟩ := run_readAll hrun
  have hstart : (shellStart c).shiftPressed = false := rfl
  rw [hstart, hread] at hkeys hshift
  obtain ⟨s', hstep, -⟩ := inSession_poll (inSession_run hrun) hrunning enter
  have hnewline : shellKeys s enter = [.enter] := by
    rw [shellKeys, hshift, read_idle (idle_of_scancode henter), henter]
    show ((xbksKeyboardReadChar (keyCall 0x1c) false).1.bind lineKey).toList = [.enter]
    decide
  have hfinal : InSession info c _ s' := inSession_run (.snoc hrun trivial hstep)
  rw [hrun.observed_concat hstep, hkeys, hnewline, filterMap_lineKey htext, entered_insert hroom] at hfinal
  have hreboot : s'.rebooting = true ↔ text = cstr "reboot" := by
    rw [hfinal.rebooting]
    simp
  refine ⟨s', .snoc hrun trivial hstep, ?_, hreboot⟩
  rw [hfinal.console, sessionLog]
  by_cases hname : text = cstr "reboot"
  · rw [hreboot.mpr hname, if_pos rfl, if_pos hname]
    simp [entryLog]
  · rw [Bool.eq_false_iff.mpr fun h => hname (hreboot.mp h), if_neg Bool.false_ne_true, if_neg hname]
    simp [entryLog]

lemma scancodes_keyCall (bytes : List UInt8) : scancodes (bytes.map keyCall) = bytes := by
  induction bytes with
  | nil => rfl
  | cons byte bytes ih =>
    rw [List.map_cons, scancodes, List.filterMap_cons_some (scancode_keyCall byte)]
    exact congrArg (byte :: ·) ih

/-- A line with an upper character is typed, which is no command. -/
theorem typed_line_runs_small : ∃ s, ShellRun ⟨none, none, none⟩ (shellStart {})
    (((cstr "Hi").flatMap keyStrokes).map keyCall ++ [keyCall 0x1c]) s ∧
    s.console.debugcon = banner ++ cstr "xbks> Hi\nunknown command: Hi\nxbks> " := by
  have htext : ∀ ch ∈ cstr "Hi", Printable ch := by
    unfold Printable
    decide +kernel
  have hidle : ∀ ports ∈ ((cstr "Hi").flatMap keyStrokes).map keyCall, Idle ports := by
    intro ports hports
    obtain ⟨byte, -, rfl⟩ := List.mem_map.mp hports
    exact idle_of_scancode (scancode_keyCall byte)
  have hruns : ∃ s, ShellRun ⟨none, none, none⟩ (shellStart {})
      (((cstr "Hi").flatMap keyStrokes).map keyCall ++ [keyCall 0x1c]) s ∧ _ :=
    typed_line_runs htext (by decide) hidle (scancodes_keyCall _) (scancode_keyCall 0x1c)
  obtain ⟨s, hrun, hconsole, -⟩ := hruns
  refine ⟨s, hrun, ?_⟩
  rw [hconsole, Console.write_eq]
  decide +kernel

end Xbks
