import Xbks.Console.Shell
import Xbks.Properties.Formatter

/-!
# What the commands of the shell print

Every line that is entered prints a text that depends on nothing but the line and the answers of the boot loader.
-/

namespace Xbks

open Checked

/-! ### The log -/

lemma cText_append_zero {bytes rest : List UInt8} : cText (bytes ++ 0 :: rest) = cText bytes := by
  induction bytes with
  | nil => exact cText_zero
  | cons b bytes ih =>
    by_cases hb : b = 0
    · rw [hb, List.cons_append, cText_zero, cText_zero]
    · rw [List.cons_append, cText_cons hb, cText_cons hb, ih]

lemma cText_of_notMem {bytes : List UInt8} (h : 0 ∉ bytes) : cText bytes = bytes := by
  induction bytes with
  | nil => rfl
  | cons b bytes ih =>
    rw [List.mem_cons, not_or] at h
    rw [cText_cons (Ne.symm h.1), ih h.2]

/-- A formatted line has one byte less than the buffer at most, and ends before the first 0. -/
lemma xbksLogPrintf_eq (strings : BitVec 64 → CText) (level : LogLevel) (tokens : List Token) (args : VaList)
    (c : Console) : xbksLogPrintf strings level (spell tokens ++ [0]) args c =
      .ok (c.write (logLine level (cText ((expansion strings args tokens).take 511)))) := by
  have hlen : logBufferSize ≤ (List.replicate logBufferSize (0 : UInt8)).length := by rw [List.length_replicate]
  have hprinted := xbksVsnprintf_of_formatFrom strings args hlen
    (formatFrom_complete strings tokens (show (⟨_, logBufferSize, 0⟩ : FormatSink).Fits from hlen) args)
  rw [xbksLogPrintf, hprinted, ok_bind, truncated, if_neg (by decide)]
  dsimp only
  rw [cText_append_zero, xbksLogWrite_eq]
  rfl

/-- A text without conversions as a format. -/
def literals : (text : List UInt8) → (∀ ch ∈ text, ch ≠ 0 ∧ ch ≠ '%'.toUInt8) → List Token
  | [], _ => []
  | ch :: text, h =>
    .literal ch (h ch List.mem_cons_self) :: literals text fun c hc => h c (List.mem_cons_of_mem _ hc)

section

variable {strings : BitVec 64 → CText} {args : VaList} {text : List UInt8} {tokens : List Token}
  {h : ∀ ch ∈ text, ch ≠ 0 ∧ ch ≠ '%'.toUInt8}

lemma expandFrom_literals : expandFrom strings args (literals text h ++ tokens) =
    (text ++ (expandFrom strings args tokens).1, (expandFrom strings args tokens).2) := by
  induction text with
  | nil => rfl
  | cons ch text ih =>
    rw [literals, List.cons_append, expandFrom, Token.expand]
    dsimp only
    rw [ih]
    rfl

lemma expandFrom_cons {token : Token} : expandFrom strings args (token :: tokens) =
    ((token.expand strings args).1 ++ (expandFrom strings (token.expand strings args).2 tokens).1,
      (expandFrom strings (token.expand strings args).2 tokens).2) := rfl

end

/-! ### Commands -/

/-- What `%s` prints. -/
def shownText (text : Option CText) : List UInt8 := (text.getD nullText).val

lemma zero_notMem_shownText (text : Option CText) : 0 ∉ shownText text := (text.getD nullText).property

/-- The `k`-th of the arguments for `%s`. -/
lemma conversionText_textArguments {texts : List (Option CText)} {k : ℕ} (hk : k < texts.length)
    (hlen : texts.length < 2 ^ 64) {h} :
    (Token.conversion .none 's'.toUInt8 h).expand (textAt texts) (fun i => textArguments texts (i + k)) =
      (shownText (texts.get ⟨k, hk⟩), fun i => textArguments texts (i + (k + 1))) := by
  have hstring : directive 's'.toUInt8 = .string := rfl
  have hget : (texts[k]?).join = texts.get ⟨k, hk⟩ := by
    rw [List.getElem?_eq_getElem hk]
    rfl
  have haddress : (BitVec.ofNat 64 (k + 1)).toNat = k + 1 := by
    rw [BitVec.toNat_ofNat, Nat.mod_eq_of_lt (by omega)]
  have hne : BitVec.ofNat 64 (k + 1) ≠ 0 := by
    intro hzero
    rw [hzero] at haddress
    exact absurd haddress (by simp)
  rw [Token.expand, conversionText, hstring]
  dsimp only
  refine Prod.ext ?_ ?_
  · dsimp only
    rw [Nat.zero_add, textArguments, hget, shownText]
    cases htext : texts.get ⟨k, hk⟩ with
    | none => rfl
    | some text =>
      rw [if_pos (show (some text).isSome = true from rfl), if_pos hne, textAt, haddress, Nat.add_sub_cancel, hget,
        htext]
  · funext i
    show textArguments texts (i + 1 + k) = _
    rw [Nat.add_assoc, Nat.add_comm 1 k]

/-- A text that stands for itself in a format. -/
abbrev PlainText := { text : List UInt8 // ∀ ch ∈ text, ch ≠ 0 ∧ ch ≠ '%'.toUInt8 }

/-- A format in which each of some texts is followed by `%s`. -/
def stringTokens (fronts : List PlainText) : List Token :=
  fronts.flatMap fun front => literals front.val front.property ++ [.conversion .none 's'.toUInt8 (by decide)]

/-- What such a format prints. -/
def interleave (fronts : List PlainText) (texts : List (Option CText)) : List UInt8 :=
  (fronts.zipWith (fun front text => front.val ++ shownText text) texts).flatten

lemma expandFrom_stringTokens {fronts : List PlainText} {texts : List (Option CText)} {k : ℕ}
    (hlen : k + fronts.length = texts.length) (hsize : texts.length < 2 ^ 64) :
    (expandFrom (textAt texts) (fun i => textArguments texts (i + k)) (stringTokens fronts)).1 =
      interleave fronts (texts.drop k) := by
  induction fronts generalizing k with
  | nil => simp [stringTokens, expandFrom, interleave]
  | cons front fronts ih =>
    rw [List.length_cons] at hlen
    have hk : k < texts.length := by omega
    rw [stringTokens, List.flatMap_cons, List.append_assoc, expandFrom_literals, List.singleton_append,
      expandFrom_cons, conversionText_textArguments hk hsize]
    dsimp only
    rw [← stringTokens, ih (by omega), interleave, interleave, List.drop_eq_getElem_cons hk, List.zipWith_cons_cons,
      List.flatten_cons, List.append_assoc]
    rfl

lemma zero_notMem_interleave (fronts : List PlainText) (texts : List (Option CText)) :
    0 ∉ interleave fronts texts := by
  induction fronts generalizing texts with
  | nil => exact List.not_mem_nil
  | cons front fronts ih =>
    cases texts with
    | nil => exact List.not_mem_nil
    | cons text texts =>
      rw [interleave, List.zipWith_cons_cons, List.flatten_cons, List.mem_append, List.mem_append]
      rintro ((hfront | htext) | hrest)
      · exact (front.property 0 hfront).1 rfl
      · exact zero_notMem_shownText text htext
      · exact ih texts hrest

lemma logTexts_eq {fronts : List PlainText} {texts : List (Option CText)} {fmt : String}
    (hfmt : ascii fmt = spell (stringTokens fronts)) (hlen : fronts.length = texts.length)
    (hsize : texts.length < 2 ^ 64) (c : Console) :
    logTexts fmt texts c = .ok (c.write (logLine .info ((interleave fronts texts).take 511))) := by
  have hexpand : expansion (textAt texts) (textArguments texts) (stringTokens fronts) = interleave fronts texts :=
    expandFrom_stringTokens (k := 0) (by omega) hsize
  have hzero : 0 ∉ (interleave fronts texts).take 511 :=
    fun hmem => zero_notMem_interleave fronts texts (List.mem_of_mem_take hmem)
  rw [logTexts, hfmt, xbksLogPrintf_eq, hexpand, cText_of_notMem hzero]

def bootloaderFormat : List PlainText := [⟨ascii "bootloader: ", by decide +kernel⟩, ⟨ascii " ", by decide +kernel⟩]

def cmdlineFormat : List PlainText := [⟨ascii "cmdline: ", by decide +kernel⟩]

def memmapFormat : List Token :=
  literals (ascii "memory map has ") (by decide +kernel) ++
    .conversion .ll 'u'.toUInt8 (by decide) :: literals (ascii " entries") (by decide +kernel)

/-- What a command prints. -/
def ShellCommand.output (info : BootResponses) : ShellCommand → CString
  | help => cstr "built-in commands:\n" ++ shellCommands.flatMap fun command =>
      cstr "  " ++ command.name ++ cstr " - " ++ command.summary ++ cstr "\n"
  | .info =>
    let bootloader := info.bootloader.getD (some unknownText, some unknownText)
    logLine .info ((interleave bootloaderFormat [bootloader.1, bootloader.2]).take 511) ++
      logLine .info ((interleave cmdlineFormat [some ((info.cmdline.join).getD emptyText)]).take 511)
  | memmap => info.entryCount.elim (cstr "memory map unavailable\n") fun entryCount =>
      logLine .info (ascii "memory map has " ++ unsignedNumeral 10 false entryCount.toNat ++ ascii " entries")
  | clear => [0x1b, 91, 50, 74, 0x1b, 91, 72]
  | reboot => cstr "rebooting...\n"

/-- What a line prints when it is entered. -/
def lineOutput (info : BootResponses) (line : CString) : CString :=
  if line = [] then []
  else
    match shellCommands.find? (·.name = line) with
    | some command => command.output info
    | none => cstr "unknown command: " ++ line ++ cstr "\n"

variable {info : BootResponses} {c : Console} {s s' : Shell}

lemma commandHelp_eq (info : BootResponses) (c : Console) :
    commandHelp c = c.write (ShellCommand.help.output info) := by
  simp [commandHelp, ShellCommand.output, shellCommands]

lemma commandInfo_eq (info : BootResponses) (c : Console) :
    commandInfo info c = .ok (c.write (ShellCommand.info.output info)) := by
  have hbootloader : ascii "bootloader: %s %s" = spell (stringTokens bootloaderFormat) := by decide +kernel
  have hcmdline : ascii "cmdline: %s" = spell (stringTokens cmdlineFormat) := by decide +kernel
  have hsize : ∀ texts : List (Option CText), texts.length ≤ 2 → texts.length < 2 ^ 64 := by
    intro texts h
    omega
  rw [commandInfo]
  dsimp only
  rw [logTexts_eq hbootloader rfl (hsize _ (by simp)), ok_bind, logTexts_eq hcmdline rfl (hsize _ (by simp)),
    Console.write_write]
  rfl

lemma length_unsignedNumeral_le (n : UInt64) : (unsignedNumeral 10 false n.toNat).length ≤ 20 := by
  have hlt : n.toNat < 10 ^ 20 := n.toNat_lt.trans (by norm_num)
  rw [unsignedNumeral, Numeral.numeral]
  split_ifs
  · rw [List.length_take]
    exact (min_le_left _ _).trans (by norm_num)
  · rw [List.length_reverse]
    exact Numeral.length_lowFirst_le (by norm_num) hlt

lemma zero_notMem_unsignedNumeral (n : ℕ) : 0 ∉ unsignedNumeral 10 false n := by
  intro hzero
  have hnumeral : Numeral.IsNumeral (digitAlphabet false) 10 (unsignedNumeral 10 false n) n :=
    isNumeral_unsignedNumeral (by norm_num) (by norm_num) false n
  exact absurd (hnumeral.digit 0 hzero) (by decide)

lemma commandMemmap_eq (info : BootResponses) (c : Console) :
    commandMemmap info c = .ok (c.write (ShellCommand.memmap.output info)) := by
  rw [commandMemmap, ShellCommand.output]
  cases info.entryCount with
  | none => rfl
  | some n =>
    have hfmt : ascii "memory map has %llu entries" = spell memmapFormat := by decide +kernel
    have hexpand : expansion (fun _ => nullText) (fun _ => n.toBitVec) memmapFormat =
        ascii "memory map has " ++ unsignedNumeral 10 false n.toNat ++ ascii " entries" := by
      have hdirective : directive 'u'.toUInt8 = .unsigned := rfl
      have hend : (expandFrom (fun _ => nullText) (VaList.rest fun _ => n.toBitVec)
          (literals (ascii " entries") (by decide +kernel) ++ [])).1 = ascii " entries" := by
        rw [expandFrom_literals]
        exact List.append_nil _
      rw [List.append_nil] at hend
      rw [expansion, memmapFormat, expandFrom_literals, expandFrom_cons, Token.expand, conversionText, hdirective]
      dsimp only
      rw [hend, List.append_assoc]
      rfl
    have hlen := length_unsignedNumeral_le n
    have hzero := zero_notMem_unsignedNumeral n.toNat
    dsimp only
    rw [hfmt, xbksLogPrintf_eq, hexpand, List.take_of_length_le, cText_of_notMem]
    · rfl
    · rw [List.mem_append, List.mem_append]
      rintro ((h | h) | h)
      · exact absurd h (by decide +kernel)
      · exact hzero h
      · exact absurd h (by decide +kernel)
    · simp [ascii]
      omega

lemma handler_eq (info : BootResponses) (command : ShellCommand) (c : Console) : command.handler info c =
    .ok (c.write (command.output info), decide (command = .reboot)) := by
  cases command with
  | help => rw [ShellCommand.handler, commandHelp_eq info]; rfl
  | info => rw [ShellCommand.handler, commandInfo_eq]; rfl
  | memmap => rw [ShellCommand.handler, commandMemmap_eq]; rfl
  | clear | reboot => rfl

lemma name_injective : Function.Injective ShellCommand.name := by
  have hmem : ∀ command, command ∈ shellCommands := by
    intro command
    cases command <;> decide
  have hnames : ∀ command ∈ shellCommands, ∀ command' ∈ shellCommands,
      command.name = command'.name → command = command' := by decide
  exact fun command command' => hnames command (hmem command) command' (hmem command')

lemma runCommand_eq (info : BootResponses) (line : CString) (c : Console) : runCommand info line c =
    .ok (c.write (lineOutput info line), decide (line = cstr "reboot")) := by
  rw [runCommand, lineOutput]
  by_cases hempty : line = []
  · rw [if_pos hempty, if_pos hempty, hempty]
    exact congrArg (fun c => Except.ok (c, false)) (c.write_nil).symm
  rw [if_neg hempty, if_neg hempty]
  cases hfind : shellCommands.find? (·.name = line) with
  | some command =>
    have hname : command.name = line := by simpa using List.find?_some hfind
    dsimp only
    rw [handler_eq, ← hname]
    exact congrArg (fun b => Except.ok (_, b)) (decide_eq_decide.mpr name_injective.eq_iff.symm)
  | none =>
    have hne : line ≠ cstr "reboot" := by
      rintro rfl
      exact absurd hfind (by decide)
    dsimp only
    rw [Console.write_write, Console.write_write, decide_eq_false hne]
    rfl

end Xbks
