import Xbks.Process.Syscall
import Xbks.Text.Expansion
import Xbks.Text.Strings

/-!
# The console and the log

`kernel/log.c`: what the kernel writes goes to the debug port, to the serial line and to the terminal.
-/

namespace Xbks

open Checked

variable {c : Console} {bytes : List UInt8}

/-! ### The console -/

/-- Line ends as terminals expect them. -/
def crlf (bytes : List UInt8) : List UInt8 :=
  bytes.flatMap fun b => if b = newline then [carriageReturn, b] else [b]

@[simp] lemma crlf_nil : crlf [] = [] := rfl

lemma crlf_append (bytes bytes' : List UInt8) : crlf (bytes ++ bytes') = crlf bytes ++ crlf bytes' :=
  List.flatMap_append

/-- `xbks_console_write` of bytes in the memory of the kernel: all bytes to one device after the other. -/
def Console.write (c : Console) (bytes : List UInt8) : Console :=
  let c := bytes.foldl (fun c b => debugconWriteByte b c) c
  let c := bytes.foldl (fun c b => serialWriteByte b c) c
  if c.ttyAvailable then bytes.foldl (fun c b => ttyWriteByte b c) c else c

lemma foldl_debugcon : bytes.foldl (fun c b => debugconWriteByte b c) c =
    { c with debugcon := c.debugcon ++ bytes } := by
  induction bytes generalizing c with
  | nil => simp
  | cons b bytes ih =>
    rw [List.foldl_cons, ih]
    simp [debugconWriteByte]

lemma foldl_serial : bytes.foldl (fun c b => serialWriteByte b c) c =
    { c with serial := c.serial ++ crlf bytes } := by
  induction bytes generalizing c with
  | nil => simp
  | cons b bytes ih =>
    rw [List.foldl_cons, ih]
    simp [serialWriteByte, crlf]

lemma foldl_tty : bytes.foldl (fun c b => ttyWriteByte b c) c = { c with tty := c.tty ++ crlf bytes } := by
  induction bytes generalizing c with
  | nil => simp
  | cons b bytes ih =>
    rw [List.foldl_cons, ih]
    simp [ttyWriteByte, crlf]

lemma Console.write_eq (c : Console) (bytes : List UInt8) : c.write bytes =
    { c with
      debugcon := c.debugcon ++ bytes
      serial := c.serial ++ crlf bytes
      tty := c.tty ++ if c.ttyAvailable then crlf bytes else [] } := by
  rw [Console.write, foldl_debugcon, foldl_serial]
  dsimp only
  cases c.ttyAvailable with
  | false => simp
  | true => simp [foldl_tty]

@[simp] lemma Console.write_nil (c : Console) : c.write [] = c := by
  rw [write_eq, crlf_nil, ite_self, List.append_nil, List.append_nil, List.append_nil]

@[simp] lemma Console.write_write (c : Console) (bytes bytes' : List UInt8) :
    (c.write bytes).write bytes' = c.write (bytes ++ bytes') := by
  rw [write_eq, write_eq, write_eq]
  dsimp only
  rw [crlf_append]
  cases c.ttyAvailable with
  | false => simp
  | true => simp

/-! ### The log -/

inductive LogLevel
  | debug
  | info
  | warn
  | error
  deriving DecidableEq, Repr

def levelName : LogLevel → CString
  | .debug => cstr "debug"
  | .info => cstr "info"
  | .warn => cstr "warn"
  | .error => cstr "error"

def xbksLogWrite (level : LogLevel) (message : CString) (c : Console) : Console :=
  let c := c.write (cstr "[")
  let c := c.write (levelName level)
  let c := c.write (cstr "] ")
  let c := c.write message
  c.write (cstr "\n")

/-- The size of the buffer of `xbks_log_printf`. -/
abbrev logBufferSize : ℕ := 512

/-- Whatever the buffer holds before, it is not read. -/
def xbksLogPrintf (strings : BitVec 64 → CText) (level : LogLevel) (fmt : List UInt8) (args : VaList)
    (c : Console) : Checked Console := do
  let (buffer, _) ← xbksVsnprintf strings (List.replicate logBufferSize 0) logBufferSize fmt args
  pure (xbksLogWrite level (cText buffer) c)

/-- A line of the log. -/
def logLine (level : LogLevel) (message : CString) : CString :=
  cstr "[" ++ levelName level ++ cstr "] " ++ message ++ cstr "\n"

lemma xbksLogWrite_eq (level : LogLevel) (message : CString) (c : Console) :
    xbksLogWrite level message c = c.write (logLine level message) := by
  simp [xbksLogWrite, logLine]

end Xbks
