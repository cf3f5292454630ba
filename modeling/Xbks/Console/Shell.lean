import Xbks.Console.Log
import Xbks.Drivers.Keyboard

/-!
# The shell

`kernel/shell.c`. A poll is one call of `xbks_keyboard_read_char`; the loop of the shell waits through the polls that
find no character.
-/

namespace Xbks

open Checked

/-! ### Commands -/

/-- What the commands read of the answers of the boot loader. A null pointer is `none`. -/
structure BootResponses where
  bootloader : Option (Option CText × Option CText)
  cmdline : Option (Option CText)
  entryCount : Option UInt64

inductive ShellCommand
  | help
  | info
  | memmap
  | clear
  | reboot
  deriving DecidableEq, Repr

def ShellCommand.name : ShellCommand → CString
  | help => cstr "help"
  | info => cstr "info"
  | memmap => cstr "memmap"
  | clear => cstr "clear"
  | reboot => cstr "reboot"

def ShellCommand.summary : ShellCommand → CString
  | help => cstr "list built-in commands"
  | info => cstr "print boot protocol state"
  | memmap => cstr "print memory map summary"
  | clear => cstr "clear the terminal"
  | reboot => cstr "reset through the PS/2 controller"

def shellCommands : List ShellCommand := [.help, .info, .memmap, .clear, .reboot]

def prompt : CString := cstr "xbks> "

def writePrompt (c : Console) : Console := c.write prompt

def commandHelp (c : Console) : Console :=
  shellCommands.foldl (fun c command =>
    let c := c.write (cstr "  ")
    let c := c.write command.name
    let c := c.write (cstr " - ")
    let c := c.write command.summary
    c.write (cstr "\n")) (c.write (cstr "built-in commands:\n"))

/-- Arguments for `%s`: the text at address `i + 1` is the `i`-th one. -/
def textArguments (texts : List (Option CText)) : VaList := fun i =>
  if ((texts[i]?).join).isSome then BitVec.ofNat 64 (i + 1) else 0

def textAt (texts : List (Option CText)) (address : BitVec 64) : CText :=
  ((texts[address.toNat - 1]?).join).getD nullText

def logTexts (fmt : String) (texts : List (Option CText)) (c : Console) : Checked Console :=
  xbksLogPrintf (textAt texts) .info (ascii fmt ++ [0]) (textArguments texts) c

def unknownText : CText := ⟨ascii "(unknown)", by decide⟩

def emptyText : CText := ⟨[], by decide⟩

def commandInfo (info : BootResponses) (c : Console) : Checked Console := do
  let (bootloaderName, bootloaderVersion) := info.bootloader.getD (some unknownText, some unknownText)
  let cmdline := (info.cmdline.join).getD emptyText
  let c ← logTexts "bootloader: %s %s" [bootloaderName, bootloaderVersion] c
  logTexts "cmdline: %s" [some cmdline] c

def commandMemmap (info : BootResponses) (c : Console) : Checked Console :=
  match info.entryCount with
  | none => pure (c.write (cstr "memory map unavailable\n"))
  | some entryCount =>
    xbksLogPrintf (fun _ => nullText) .info (ascii "memory map has %llu entries" ++ [0])
      (fun _ => entryCount.toBitVec) c

def commandClear (c : Console) : Console := c.write [0x1b, 91, 50, 74, 0x1b, 91, 72]

/-- It waits for the keyboard controller, resets the machine and never returns. -/
def commandReboot (c : Console) : Console := c.write (cstr "rebooting...\n")

/-- The console after the command, and whether the machine is rebooting. -/
def ShellCommand.handler (info : BootResponses) (c : Console) : ShellCommand → Checked (Console × Bool)
  | help => pure (commandHelp c, false)
  | .info => do return (← commandInfo info c, false)
  | memmap => do return (← commandMemmap info c, false)
  | clear => pure (commandClear c, false)
  | reboot => pure (commandReboot c, true)

/-- `strcmp` answers 0 exactly for equal texts. -/
def runCommand (info : BootResponses) (name : CString) (c : Console) : Checked (Console × Bool) :=
  if name = [] then pure (c, false)
  else
    match shellCommands.find? (·.name = name) with
    | some command => command.handler info c
    | none =>
      let c := c.write (cstr "unknown command: ")
      let c := c.write name
      pure (c.write (cstr "\n"), false)

/-! ### The line -/

/-- `sizeof(line)`. -/
abbrev lineSize : ℕ := 128

abbrev backspace : UInt8 := 8
abbrev space : UInt8 := 32
abbrev tilde : UInt8 := 126

/-- The variables of `xbks_shell_run`, with those of the drivers that it calls. -/
structure Shell where
  line : Cells lineSize UInt8
  lineLength : ℕ
  shiftPressed : Bool
  console : Console
  rebooting : Bool

/-- The text of the line from index `i` on: it ends before the first 0. -/
def lineTextFrom (line : Cells lineSize UInt8) : ℕ → ℕ → Checked CString
  | 0, _ => fault
  | fuel + 1, i => do
    let b ← Cells.get line i
    if b = 0 then pure []
    else do
      let rest ← lineTextFrom line fuel (i + 1)
      pure (b :: rest)

def lineText (line : Cells lineSize UInt8) : Checked CString := lineTextFrom line (lineSize + 1) 0

/-- The shell before the first character is read. Nothing has been stored in the line yet. -/
def shellStart (c : Console) : Shell :=
  let c := c.write (cstr "\nxbks early shell\n")
  let c := c.write (cstr "type 'help' for commands\n")
  { line := fun _ => none
    lineLength := 0
    shiftPressed := xbksKeyboardInit
    console := writePrompt c
    rebooting := false }

/-- The body of the loop for a character. A `char` is signed, so bytes from 128 on are below the space. -/
def shellKey (info : BootResponses) (s : Shell) (ch : UInt8) : Checked Shell :=
  if ch = newline then do
    let c := s.console.write [newline]
    let line ← Cells.set s.line s.lineLength 0
    let name ← lineText line
    let (c, rebooting) ← runCommand info name c
    if rebooting then pure { s with line := line, console := c, rebooting := true }
    else pure { s with line := line, lineLength := 0, console := writePrompt c }
  else if ch = backspace then
    if s.lineLength ≠ 0 then
      pure { s with lineLength := s.lineLength - 1, console := s.console.write [backspace, space, backspace] }
    else pure s
  else if ch ≥ space ∧ ch ≤ tilde ∧ s.lineLength + 1 < lineSize then do
    let line ← Cells.set s.line s.lineLength ch
    pure { s with line := line, lineLength := s.lineLength + 1, console := s.console.write [ch] }
  else pure s

/-- A poll of the keyboard, and what the shell does with a character that it finds. -/
def shellPoll (info : BootResponses) (s : Shell) (ports : Ports) : Checked Shell :=
  match xbksKeyboardReadChar ports s.shiftPressed with
  | (none, shiftPressed) => pure { s with shiftPressed := shiftPressed }
  | (some ch, shiftPressed) => shellKey info { s with shiftPressed := shiftPressed } ch

end Xbks
