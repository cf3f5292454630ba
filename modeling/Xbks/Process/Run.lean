import Xbks.Lib.Run
import Xbks.Process.Syscall

/-!
# Boot and runs

The state in which the first process starts, and the steps the machine takes from there: system
calls with any register contents, and stores of the running program to its own pages.
-/

namespace Xbks

/-- What the kernel finds at entry. -/
structure BootInfo where
  memory : BootMemory
  kmem : KernelMemory
  modules : Option (List (Option Module))
  keyboard : ℕ → UInt8
  ttyAvailable : Bool

/-- The state after `xbks_mm_init`: the static variables of `process.c` are still zero. The console starts
empty, so it has what is sent from the start of the first process on, without the messages before it. -/
def kernelMain (boot : BootInfo) : Kernel :=
  { mm := mmInit boot.memory
    kmem := boot.kmem
    ramdisk := ⟨0, 0, false⟩
    cr3 := boot.memory.cr3
    processes := fun _ => .zero
    currentProcess := firstSlot
    nextPid := 1
    keyboard := boot.keyboard
    console := { ttyAvailable := boot.ttyAvailable } }

/-- The arguments and environment of the first process. -/
def initArgv : List CString := [cstr "xsh"]
def initEnvp : List CString := [cstr "PATH=/bin:/sbin:/usr/bin"]

def processStartInit (boot : BootInfo) (k : Kernel) : Bool × Kernel :=
  let k := { k with ramdisk := ramdiskInit boot.modules }
  if ¬k.ramdisk.ramdiskAvailable then (false, k)
  else
    match allocateProcess k with
    | (none, k) => (false, k)
    | (some init, k) =>
      match loadProgram k.kmem k.ramdisk k.mm (k.processes init) (cstr "/bin/xsh") initArgv
        initEnvp with
      | (false, _, mm) => (false, { k with mm := mm }.setProcess init .zero)
      | (true, process, mm) =>
        let k := { k with mm := mm }.setProcess init process
        (true, { k with currentProcess := init, cr3 := process.cr3 })

/-- The state in which the first process enters user mode, or in which starting it failed. -/
def started (boot : BootInfo) : Kernel := (processStartInit boot (kernelMain boot)).2

def Starts (boot : BootInfo) : Prop := (processStartInit boot (kernelMain boot)).1 = true

/-- What the running program does next. -/
inductive Event
  | syscall (frame : SyscallFrame)
  | store (address : UInt64) (value : UInt8)

/-- A system call that stops the machine has no successor, nor has a store to an unmapped page or
beyond the user half. -/
def step (k : Kernel) : Event → Option Kernel
  | .syscall frame =>
    match processSyscallDispatch frame k with
    | (.ok _, k) => some k
    | (.error _, _) => none
  | .store address value =>
    if address ≥ userTop then none
    else
      match vmmTranslate k.mm k.cr3 address with
      | none => none
      | some physical => some { k with mm := k.mm.setByte physical value }

/-- Runs of the machine from a state, every step of which satisfies `ok`. -/
abbrev Run (ok : Kernel → Event → Prop) (k : Kernel) (es : List Event) (k' : Kernel) : Prop :=
  Transition.Run step ok k es k'

end Xbks
