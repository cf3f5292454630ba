import Xbks.Fs.Ramdisk
import Xbks.Mm.Basic

/-!
# Processes

The process table of `kernel/process.c`, and the state of the kernel as a whole: memory manager,
process table, ramdisk, the `cr3` register and the devices behind the read and write calls.
-/

namespace Xbks

abbrev maxArgs : ℕ := 32
abbrev maxEnv : ℕ := 32
abbrev maxString : ℕ := 256

abbrev userImageMin : UInt64 := 0x10000
abbrev userStackTop : UInt64 := 0x00007fffffffe000
abbrev userStackSize : UInt64 := 16 * 4096

/-- A pointer to a slot of the process table. -/
abbrev Slot := Fin 16

/-- The slot that `current_process` names at the start. -/
abbrev firstSlot : Slot := 0

inductive ProcessState
  | unused
  | running
  | blocked
  | zombie
  deriving DecidableEq, Repr

inductive FdType
  | none
  | stdin
  | stdout
  | stderr
  | file
  | dir
  deriving DecidableEq, Repr

structure ProcessFd where
  type : FdType
  file : RamdiskFile
  offset : UInt64
  deriving DecidableEq

/-- The all-zero descriptor that `memset` leaves. -/
def ProcessFd.zero : ProcessFd := ⟨.none, default, 0⟩

/-- `struct xbks_syscall_frame`: the registers saved by the system-call entry code. -/
structure SyscallFrame where
  r15 : UInt64
  r14 : UInt64
  r13 : UInt64
  r12 : UInt64
  r11 : UInt64
  r10 : UInt64
  r9 : UInt64
  r8 : UInt64
  rbp : UInt64
  rdi : UInt64
  rsi : UInt64
  rdx : UInt64
  rcx : UInt64
  rbx : UInt64
  rax : UInt64
  userRflags : UInt64
  userRip : UInt64
  userRsp : UInt64
  deriving DecidableEq

def SyscallFrame.zero : SyscallFrame :=
  ⟨0, 0, 0, 0, 0, 0, 0, 0, 0, 0, 0, 0, 0, 0, 0, 0, 0, 0⟩

/-- `struct process`. The C type `int` of the process numbers is modelled by integers that
`wrapInt` keeps in 32 bits. -/
structure Process where
  pid : ℤ
  ppid : ℤ
  state : ProcessState
  cr3 : UInt64
  entry : UInt64
  stack : UInt64
  brk : UInt64
  exitStatus : ℤ
  parent : Option Slot
  vforkParent : Option Slot
  savedParentFrame : SyscallFrame
  fds : Fin 16 → ProcessFd

def Process.zero : Process :=
  { pid := 0
    ppid := 0
    state := .unused
    cr3 := 0
    entry := 0
    stack := 0
    brk := 0
    exitStatus := 0
    parent := none
    vforkParent := none
    savedParentFrame := .zero
    fds := fun _ => .zero }

/-- The two's complement value of a 32-bit `int`. -/
def wrapInt (n : ℤ) : ℤ := n.bmod (2 ^ 32)

/-- What has been written to the three console devices. -/
structure Console where
  debugcon : List UInt8 := []
  serial : List UInt8 := []
  tty : List UInt8 := []
  ttyAvailable : Bool := false

/-- The state of the kernel. `keyboard` is the sequence of characters that
`xbks_keyboard_read_char_blocking` is going to return. `currentProcess` is only meaningful once
the first process runs. The last field records, for the proofs, every address that was accessed
through a pointer supplied by the user: its base plus its index, not reduced modulo `2 ^ 64`.

The variables of the kernel and the archive (`kmem`) are kept beside the memory that page tables and programs
are in (`mm.mem`). A segment that wraps around can be copied over them, so steps that execute a program with
one are not those of the code; `StaticStep` has the process table in memory. -/
structure Kernel where
  mm : Mm
  kmem : KernelMemory
  ramdisk : Ramdisk
  cr3 : UInt64
  processes : Slot → Process
  currentProcess : Slot
  nextPid : ℤ
  keyboard : ℕ → UInt8
  console : Console
  accesses : List ℕ := []

/-- The record `current_process` points to. -/
def Kernel.current (k : Kernel) : Process := k.processes k.currentProcess

def Kernel.setProcess (k : Kernel) (slot : Slot) (process : Process) : Kernel :=
  { k with processes := Function.update k.processes slot process }

def Kernel.setCurrent (k : Kernel) (process : Process) : Kernel :=
  k.setProcess k.currentProcess process

/-- A slot that `allocate_process` has just taken. -/
def Process.fresh (pid : ℤ) : Process :=
  { Process.zero with
    pid := pid
    state := .running
    fds := Function.update (Function.update (Function.update (fun _ => ProcessFd.zero)
      0 { ProcessFd.zero with type := .stdin }) 1 { ProcessFd.zero with type := .stdout })
      2 { ProcessFd.zero with type := .stderr } }

/-- The first unused slot. -/
def unusedSlot (processes : Slot → Process) : Option Slot :=
  (List.finRange 16).find? fun i => (processes i).state = .unused

def allocateProcess (k : Kernel) : Option Slot × Kernel :=
  match unusedSlot k.processes with
  | none => (none, k)
  | some i =>
    (some i, { k.setProcess i (.fresh k.nextPid) with nextPid := wrapInt (k.nextPid + 1) })

def allocateFd (process : Process) : Option (Fin 16) :=
  (List.finRange 16).find? fun i => 3 ≤ i.val ∧ (process.fds i).type = .none

end Xbks
