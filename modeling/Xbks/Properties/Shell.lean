import Xbks.Lib.Balance
import Xbks.Lib.LineEditor
import Xbks.Properties.ShellOutput
import Xbks.Properties.Shift

/-!
# The shell keeps the line on the terminal

Whatever is typed, the shell has run the lines that a line editor makes of the keys, the console has received what
the editor and the commands send, and so the terminal shows the prompt and the line that Enter is going to run.
-/

namespace Xbks

open Checked LineEditor Transition

variable {info : BootResponses} {c : Console} {s s' : Shell} {t : Session UInt8} {polls : List Ports}

/-! ### What is typed -/

/-- What a character means to the editor. -/
def lineKey (ch : UInt8) : Option (Key UInt8) :=
  if ch = newline then some .enter
  else if ch = backspace then some .erase
  else if ch ≥ space ∧ ch ≤ tilde then some (.insert ch)
  else none

/-- The keys that a poll finds. -/
def shellKeys (s : Shell) (ports : Ports) : List (Key UInt8) :=
  ((xbksKeyboardReadChar ports s.shiftPressed).1.bind lineKey).toList

/-- A poll is the last one if the shell reboots the machine. -/
def shellStep (info : BootResponses) (s : Shell) (ports : Ports) : Option Shell :=
  if s.rebooting then none else (shellPoll info s ports).toOption

abbrev ShellRun (info : BootResponses) (s : Shell) (polls : List Ports) (s' : Shell) : Prop :=
  Transition.Run (shellStep info) (fun _ _ => True) s polls s'

/-- One byte of the line is for its terminator. -/
abbrev lineRoom : ℕ := lineSize - 1

/-- The session of an editor that works as the shell is meant to. -/
def edited (keys : List (Key UInt8)) : Session UInt8 := Session.after lineRoom backspace space keys

/-! ### What is sent -/

def banner : CString := cstr "\nxbks early shell\n" ++ cstr "type 'help' for commands\n"

/-- What the console receives for a line, from its prompt to the next one. -/
def entryLog (info : BootResponses) (e : Entry UInt8) : CString :=
  prompt ++ e.sent ++ [newline] ++ lineOutput info e.text

/-- What the console receives in a session. -/
def sessionLog (info : BootResponses) (t : Session UInt8) (rebooting : Bool) : CString :=
  banner ++ t.entered.flatMap (entryLog info) ++ if rebooting then [] else prompt ++ t.current.sent

/-- The shell is where the session of the editor is. -/
structure InSession (info : BootResponses) (c : Console) (t : Session UInt8) (s : Shell) : Prop where
  rebooting : s.rebooting = true ↔ ∃ e ∈ t.entered, e.text = cstr "reboot"
  console : s.console = c.write (sessionLog info t s.rebooting)
  line : s.rebooting = false → Cells.Holds s.line t.current.text ∧ s.lineLength = t.current.text.length
  room : t.current.text.length ≤ lineRoom
  text : 0 ∉ t.current.text

lemma inSession_start (info : BootResponses) (c : Console) : InSession info c (edited []) (shellStart c) where
  rebooting := iff_of_false Bool.false_ne_true fun ⟨_, he, _⟩ => List.not_mem_nil he
  console := by simp [shellStart, writePrompt, sessionLog, edited, Session.after, banner]
  line _ := ⟨Cells.holds_nil, rfl⟩
  room := Nat.zero_le _
  text := List.not_mem_nil

/-! ### One key -/

lemma holds_front {line : Cells lineSize UInt8} {front back : List UInt8} (h : Cells.Holds line (front ++ back)) :
    Cells.Holds line front := by
  intro i hi
  rw [h i (by rw [List.length_append]; omega), List.getElem?_append_left hi]

lemma lineTextFrom_eq {line : Cells lineSize UInt8} {text : CString} (h : Cells.Holds line (text ++ [0]))
    (htext : 0 ∉ text) (hlen : text.length < lineSize) {fuel i : ℕ} (hi : i ≤ text.length)
    (hfuel : text.length < i + fuel) : lineTextFrom line fuel i = .ok (text.drop i) := by
  induction fuel generalizing i with
  | zero => omega
  | succ fuel ih =>
    have hlast : i < (text ++ [0]).length := by
      rw [List.length_append, List.length_singleton]
      omega
    rw [lineTextFrom, h.get_eq (by omega) hlast, ok_bind, List.get_eq_getElem]
    by_cases hend : i = text.length
    · subst hend
      rw [List.getElem_concat_length rfl, if_pos rfl, List.drop_length]
      rfl
    · have hlt : i < text.length := by omega
      have hne : text[i] ≠ 0 := fun hzero => htext (hzero ▸ List.getElem_mem hlt)
      rw [List.getElem_append_left hlt, if_neg hne, ih (by omega) (by omega), ok_bind, List.drop_eq_getElem_cons hlt]
      rfl

/-- Enter runs the line of the session. -/
lemma inSession_enter (h : InSession info c t s) (hrunning : s.rebooting = false) :
    ∃ s', shellKey info s newline = .ok s' ∧
      InSession info c (t.press lineRoom backspace space .enter) s' := by
  obtain ⟨hholds, hlength⟩ := h.line hrunning
  have hroom : t.current.text.length < lineSize := Nat.lt_of_le_of_lt h.room (by decide)
  obtain ⟨line, hset, hholds'⟩ := hholds.set_next hroom 0
  have htext : lineText line = .ok t.current.text := by
    rw [lineText, lineTextFrom_eq hholds' h.text hroom (Nat.zero_le _) (by omega), List.drop_zero]
  have hbefore : ¬∃ e ∈ t.entered, e.text = cstr "reboot" := by
    rw [← h.rebooting, hrunning]
    exact Bool.false_ne_true
  rw [shellKey, if_pos rfl, hlength, hset, ok_bind, htext, ok_bind, runCommand_eq, ok_bind]
  by_cases hreboot : t.current.text = cstr "reboot"
  · rw [decide_eq_true hreboot]
    dsimp only
    rw [if_pos rfl]
    refine ⟨_, rfl, ?_, ?_, fun hfalse => absurd hfalse (by simp), Nat.zero_le _, List.not_mem_nil⟩
    · exact iff_of_true rfl ⟨t.current, by simp [Session.press], hreboot⟩
    · simp [h.console, hrunning, sessionLog, Session.press, entryLog]
  · rw [decide_eq_false hreboot]
    dsimp only
    rw [if_neg Bool.false_ne_true]
    refine ⟨_, rfl, ?_, ?_, fun _ => ⟨Cells.holds_nil, rfl⟩, Nat.zero_le _, List.not_mem_nil⟩
    · refine iff_of_false (by simp [hrunning]) ?_
      rintro ⟨e, he, htext⟩
      rcases List.mem_append.mp he with he | he
      · exact hbefore ⟨e, he, htext⟩
      · rw [List.mem_singleton.mp he] at htext
        exact hreboot htext
    · simp [h.console, hrunning, sessionLog, Session.press, entryLog, writePrompt]

/-- Backspace erases the last character of the line, if there is one. -/
lemma inSession_erase (h : InSession info c t s) (hrunning : s.rebooting = false) :
    ∃ s', shellKey info s backspace = .ok s' ∧
      InSession info c (t.press lineRoom backspace space .erase) s' := by
  obtain ⟨hholds, hlength⟩ := h.line hrunning
  rw [shellKey, if_neg (by decide), if_pos rfl, Session.press, hlength]
  by_cases hempty : t.current.text.length = 0
  · rw [if_neg (not_not.mpr hempty), if_pos hempty]
    exact ⟨s, rfl, h⟩
  · rw [if_pos hempty, if_neg hempty]
    refine ⟨_, rfl, h.rebooting, ?_, fun _ => ⟨?_, ?_⟩, ?_, ?_⟩
    · simp [h.console, hrunning, sessionLog]
    · have hne : t.current.text ≠ [] := fun hnil => hempty (List.length_eq_zero_iff.mpr hnil)
      rw [← List.dropLast_concat_getLast hne] at hholds
      exact holds_front hholds
    · rw [List.length_dropLast]
    · exact (List.length_dropLast ▸ Nat.sub_le _ _).trans h.room
    · exact fun hzero => h.text (List.mem_of_mem_dropLast hzero)

/-- A printable character is appended to the line if there is room. -/
lemma inSession_insert (h : InSession info c t s) (hrunning : s.rebooting = false) {ch : UInt8} (hge : ch ≥ space)
    (hle : ch ≤ tilde) : ∃ s', shellKey info s ch = .ok s' ∧
      InSession info c (t.press lineRoom backspace space (.insert ch)) s' := by
  obtain ⟨hholds, hlength⟩ := h.line hrunning
  have hcontrol : ch ≠ newline ∧ ch ≠ backspace ∧ ch ≠ 0 := by
    refine ⟨?_, ?_, ?_⟩
    all_goals
      rintro rfl
      exact absurd hge (by decide)
  have hsize : lineRoom + 1 = lineSize := rfl
  rw [shellKey, if_neg hcontrol.1, if_neg hcontrol.2.1, Session.press, hlength]
  by_cases hroom : t.current.text.length < lineRoom
  · obtain ⟨line, hset, hholds'⟩ := hholds.set_next (hroom.trans (by decide)) ch
    rw [if_pos ⟨hge, hle, by omega⟩, hset, ok_bind, if_pos hroom]
    refine ⟨_, rfl, h.rebooting, ?_, fun _ => ⟨hholds', ?_⟩, ?_, ?_⟩
    · simp [h.console, hrunning, sessionLog]
    · rw [List.length_append, List.length_singleton]
    · rw [List.length_append, List.length_singleton]
      exact hroom
    · rw [List.mem_append, List.mem_singleton, not_or]
      exact ⟨h.text, hcontrol.2.2.symm⟩
  · rw [if_neg (fun hand => hroom (by omega)), if_neg hroom]
    exact ⟨s, rfl, h⟩

/-- A character does to the shell what its key does to the session. -/
lemma inSession_key (h : InSession info c t s) (hrunning : s.rebooting = false) (ch : UInt8) :
    ∃ s', shellKey info s ch = .ok s' ∧
      InSession info c ((lineKey ch).elim t (t.press lineRoom backspace space)) s' := by
  rw [lineKey]
  split_ifs with henter herase hprintable
  · rw [henter]
    exact inSession_enter h hrunning
  · rw [herase]
    exact inSession_erase h hrunning
  · exact inSession_insert h hrunning hprintable.1 hprintable.2
  · refine ⟨s, ?_, h⟩
    rw [shellKey, if_neg henter, if_neg herase, if_neg fun hand => hprintable ⟨hand.1, hand.2.1⟩]
    rfl

/-! ### Polls -/

lemma InSession.setShift (h : InSession info c t s) (shiftPressed : Bool) :
    InSession info c t { s with shiftPressed := shiftPressed } :=
  ⟨h.rebooting, h.console, h.line, h.room, h.text⟩

lemma inSession_poll (h : InSession info c t s) (hrunning : s.rebooting = false) (ports : Ports) :
    ∃ s', shellStep info s ports = some s' ∧
      InSession info c ((shellKeys s ports).foldl (Session.press lineRoom backspace space) t) s' := by
  rw [shellStep, hrunning, if_neg Bool.false_ne_true, shellPoll, shellKeys]
  rcases xbksKeyboardReadChar ports s.shiftPressed with ⟨_ | ch, shiftPressed⟩
  · exact ⟨_, rfl, h.setShift shiftPressed⟩
  · obtain ⟨s', hkey, hsession⟩ := inSession_key (h.setShift shiftPressed) hrunning ch
    refine ⟨s', congrArg Except.toOption hkey, ?_⟩
    cases hch : lineKey ch with
    | none =>
      rw [hch] at hsession
      simpa [hch] using hsession
    | some key =>
      rw [hch] at hsession
      simpa [hch] using hsession

lemma edited_append (keys keys' : List (Key UInt8)) :
    edited (keys ++ keys') = keys'.foldl (Session.press lineRoom backspace space) (edited keys) :=
  List.foldl_append

lemma inSession_run (hrun : ShellRun info (shellStart c) polls s) :
    InSession info c (edited (observed (shellStep info) shellKeys (shellStart c) polls)) s := by
  induction hrun with
  | nil => exact inSession_start info c
  | @snoc polls s s' ports hrun _ hstep ih =>
    have hrunning : s.rebooting = false := by
      rw [shellStep] at hstep
      split_ifs at hstep with hreboot
      exact Bool.eq_false_iff.mpr hreboot
    obtain ⟨s₁, hstep₁, hsession⟩ := inSession_poll ih hrunning ports
    obtain rfl : s₁ = s' := Option.some.inj (hstep₁.symm.trans hstep)
    rw [hrun.observed_concat hstep, edited_append]
    exact hsession

/-! ### What is shown -/

lemma mem_shellKeys {s : Shell} {ports : Ports} {ch : UInt8} (h : Key.insert ch ∈ shellKeys s ports) :
    ch ≠ backspace := by
  rw [shellKeys, Option.mem_toList] at h
  obtain ⟨ch', -, hkey⟩ := Option.bind_eq_some_iff.mp h
  rw [lineKey] at hkey
  split_ifs at hkey with henter herase
  · cases hkey
  · cases hkey
  · cases hkey
    exact herase

lemma observed_insert (hrun : ShellRun info (shellStart c) polls s) :
    ∀ ch, Key.insert ch ∈ observed (shellStep info) shellKeys (shellStart c) polls → ch ≠ backspace := by
  induction hrun with
  | nil => exact fun ch hch => absurd hch List.not_mem_nil
  | snoc hrun _ hstep ih =>
    intro ch hch
    rw [hrun.observed_concat hstep, List.mem_append] at hch
    exact hch.elim (ih ch) mem_shellKeys

/-- The terminal shows the prompt and the text, and the cursor is behind it. -/
def OnTerminal (e : Entry UInt8) : Prop := Session.Shown backspace space prompt e

/-- After any polls of the serial port and the keyboard, the console has received the banner, then each line that has
been entered with its prompt and its output, and then the prompt and the line that is being edited. What was sent for
each of them shows the text on the terminal, and it is this text that has been run, or that Enter would run. The shell
goes on with every poll unless it has run `reboot`. -/
theorem shell_of_run (hrun : ShellRun info (shellStart c) polls s) :
    let t := edited (observed (shellStep info) shellKeys (shellStart c) polls)
    s.console = c.write (sessionLog info t s.rebooting) ∧
      (∀ e ∈ t.entered, OnTerminal e) ∧ OnTerminal t.current ∧
      (s.rebooting = true ↔ ∃ e ∈ t.entered, e.text = cstr "reboot") ∧
      (s.rebooting = false → Cells.Holds s.line t.current.text ∧ s.lineLength = t.current.text.length ∧
        ∀ ports, (shellStep info s ports).isSome) := by
  intro t
  have hsession : InSession info c t s := inSession_run hrun
  have hprompt : ∀ ch ∈ prompt, ch ≠ backspace := by decide +kernel
  have hshown : (∀ e ∈ t.entered, OnTerminal e) ∧ OnTerminal t.current :=
    Session.shown_after (by decide) hprompt (observed_insert hrun)
  obtain ⟨hentered, hcurrent⟩ := hshown
  refine ⟨hsession.console, hentered, hcurrent, hsession.rebooting, fun hrunning => ?_⟩
  obtain ⟨hholds, hlength⟩ := hsession.line hrunning
  refine ⟨hholds, hlength, fun ports => ?_⟩
  obtain ⟨s', hstep, -⟩ := inSession_poll hsession hrunning ports
  rw [hstep]
  rfl

/-- A run goes on as long as `reboot` has not been entered. -/
lemma exists_run_of_entered (info : BootResponses) (c : Console) (polls : List Ports)
    (h : ∀ n < polls.length, ∀ e ∈ (edited (observed (shellStep info) shellKeys (shellStart c)
      (polls.take n))).entered, e.text ≠ cstr "reboot") : ∃ s, ShellRun info (shellStart c) polls s := by
  induction polls using List.reverseRecOn with
  | nil => exact ⟨shellStart c, .nil⟩
  | append_singleton polls ports ih =>
    have hlen : (polls ++ [ports]).length = polls.length + 1 := List.length_append
    obtain ⟨s, hrun⟩ := ih fun n hn e he => by
      refine h n (by omega) e ?_
      rwa [List.take_append_of_le_length hn.le]
    have hlast := h polls.length (by omega)
    rw [List.take_left] at hlast
    have hsession := inSession_run hrun
    have hrunning : s.rebooting = false := by
      rw [Bool.eq_false_iff, ne_eq, hsession.rebooting]
      rintro ⟨e, he, htext⟩
      exact hlast e he htext
    obtain ⟨s', hstep, -⟩ := inSession_poll hsession hrunning ports
    exact ⟨s', .snoc hrun trivial hstep⟩

/-- The letter x is typed and erased, and the line with the letter a is entered. -/
theorem shell_of_run_small : ∃ s,
    ShellRun ⟨none, none, none⟩ (shellStart {}) ([0x2d, 0x0e, 0x1e, 0x1c].map keyCall) s ∧
    s.console.debugcon = banner ++ cstr "xbks> x\x08 \x08a\nunknown command: a\nxbks> " := by
  have hseen : observed (shellStep ⟨none, none, none⟩) shellKeys (shellStart {})
      ([0x2d, 0x0e, 0x1e, 0x1c].map keyCall) = [.insert 120, .erase, .insert 97, .enter] := by
    decide +kernel
  obtain ⟨s, hrun⟩ := exists_run_of_entered ⟨none, none, none⟩ {} ([0x2d, 0x0e, 0x1e, 0x1c].map keyCall)
    (by decide +kernel)
  obtain ⟨hconsole, -, -, hrebooting, -⟩ := shell_of_run hrun
  rw [hseen] at hconsole hrebooting
  have hrunning : s.rebooting = false := by
    rw [Bool.eq_false_iff, ne_eq, hrebooting]
    decide +kernel
  refine ⟨s, hrun, ?_⟩
  rw [hconsole, hrunning, Console.write_eq]
  decide +kernel

end Xbks
