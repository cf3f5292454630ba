import Xbks.Process.Effect
import Xbks.Process.Run

/-!
# What a step can do

The inversion of `step`, and the shapes of the states that `vfork`, `exit` and `execve` leave.
-/

namespace Xbks

variable {k k' k₁ : Kernel} {frame : SyscallFrame} {e : Event}

/-! ### vfork -/

/-- The record of a child that `vfork` has completed. -/
def Process.vforked (frame : SyscallFrame) (pid : ℤ) (slot : Slot) (parent : Process)
    (cr3 : UInt64) : Process :=
  { Process.fresh pid with
    ppid := parent.pid
    cr3 := cr3
    entry := parent.entry
    stack := parent.stack
    brk := parent.brk
    parent := some slot
    vforkParent := some slot
    savedParentFrame := { frame with rax := toU64 pid }
    fds := parent.fds }

/-- The state after a `vfork` that took a slot and failed. -/
def Kernel.vforkFailed (k : Kernel) (mm : Mm) : Kernel :=
  { k with mm := mm, nextPid := wrapInt (k.nextPid + 1) }

/-- The state after a `vfork` that succeeded. -/
def Kernel.vforked (k : Kernel) (frame : SyscallFrame) (slot : Slot) (cr3 : UInt64) (mm : Mm) :
    Kernel :=
  { k with
    mm := mm
    processes := Function.update (Function.update k.processes slot
      (.vforked frame k.nextPid k.currentProcess k.current cr3)) k.currentProcess
      { k.current with state := .blocked }
    nextPid := wrapInt (k.nextPid + 1)
    currentProcess := slot
    cr3 := cr3 }

inductive VforkEnds (frame : SyscallFrame) (k : Kernel) :
    Except Stop (UInt64 × SyscallFrame) × Kernel → Prop
  | full (h : unusedSlot k.processes = none) :
      VforkEnds frame k (.ok (negativeErrno .again, frame), k)
  | noFrame {slot : Slot} {mm : Mm} (h : unusedSlot k.processes = some slot)
      (hnew : createKernelMappedPml4 k.mm = (0, mm)) :
      VforkEnds frame k (.ok (negativeErrno .nomem, frame), k.vforkFailed mm)
  | noCopy {slot : Slot} {cr3 : UInt64} {mm mm' : Mm} (h : unusedSlot k.processes = some slot)
      (hnew : createKernelMappedPml4 k.mm = (cr3, mm)) (hcr3 : cr3 ≠ 0)
      (hclone : vmmCloneUserSpace mm k.current.cr3 cr3 userTop = (false, mm')) :
      VforkEnds frame k
        (.ok (negativeErrno .nomem, frame), k.vforkFailed (vmmDestroyUserSpace mm' cr3 userTop))
  | done {slot : Slot} {cr3 : UInt64} {mm mm' : Mm} (h : unusedSlot k.processes = some slot)
      (hnew : createKernelMappedPml4 k.mm = (cr3, mm)) (hcr3 : cr3 ≠ 0)
      (hclone : vmmCloneUserSpace mm k.current.cr3 cr3 userTop = (true, mm')) :
      VforkEnds frame k (.ok (0, frame), k.vforked frame slot cr3 mm')

lemma unusedSlot_some {slot : Slot} {processes : Slot → Process}
    (h : unusedSlot processes = some slot) : (processes slot).state = .unused := by
  simpa using List.find?_some h

/-- A call that finds a slot and gets all frames. -/
lemma syscallVfork_done {slot : Slot} {cr3 : UInt64} {mm mm' : Mm} (frame : SyscallFrame)
    (hslot : unusedSlot k.processes = some slot) (hne : k.currentProcess ≠ slot)
    (hnew : createKernelMappedPml4 k.mm = (cr3, mm)) (hcr3 : cr3 ≠ 0)
    (hclone : vmmCloneUserSpace mm k.current.cr3 cr3 userTop = (true, mm')) :
    syscallVfork frame k = (.ok (0, frame), k.vforked frame slot cr3 mm') := by
  have hclone : vmmCloneUserSpace mm (k.processes k.currentProcess).cr3 cr3 userTop = (true, mm') := hclone
  rw [syscallVfork, allocateProcess, hslot]
  simp only [Kernel.setProcess, hnew, Function.update_self, Function.update_of_ne hne, Function.update_idem,
    if_neg hcr3, hclone]
  rfl

/-- What it does to the slot it took when there are not enough frames for a copy. -/
lemma syscallVfork_nomem {slot : Slot} (frame : SyscallFrame) (hslot : unusedSlot k.processes = some slot)
    (hne : k.currentProcess ≠ slot)
    (hfails : ∀ cr3 mm ok mm', createKernelMappedPml4 k.mm = (cr3, mm) → cr3 ≠ 0 →
      vmmCloneUserSpace mm k.current.cr3 cr3 userTop = (ok, mm') → ok = false) :
    ∃ mm, syscallVfork frame k = (.ok (negativeErrno .nomem, frame),
      { k with
        mm := mm
        processes := Function.update k.processes slot .zero
        nextPid := wrapInt (k.nextPid + 1) }) := by
  rcases hnew : createKernelMappedPml4 k.mm with ⟨cr3, mm⟩
  rcases hclone : vmmCloneUserSpace mm k.current.cr3 cr3 userTop with ⟨ok, mm'⟩
  have hclone' : vmmCloneUserSpace mm (k.processes k.currentProcess).cr3 cr3 userTop = (ok, mm') := hclone
  rw [syscallVfork, allocateProcess, hslot]
  simp only [Kernel.setProcess, hnew, Function.update_self, Function.update_of_ne hne, Function.update_idem]
  by_cases hcr3 : cr3 = 0
  · rw [if_pos hcr3]
    exact ⟨_, rfl⟩
  · have hok := hfails cr3 mm ok mm' hnew hcr3 hclone
    subst hok
    rw [if_neg hcr3, hclone']
    exact ⟨_, rfl⟩

/-- The ways `vfork` can end in a state whose unused slots are all zero. -/
theorem syscallVfork_ends (hcurrent : k.current.state ≠ .unused)
    (hunused : ∀ i, (k.processes i).state = .unused → k.processes i = .zero) :
    VforkEnds frame k (syscallVfork frame k) := by
  rw [syscallVfork, allocateProcess]
  cases hslot : unusedSlot k.processes with
  | none => exact .full hslot
  | some slot =>
    have hstate := unusedSlot_some hslot
    have hne : k.currentProcess ≠ slot := by
      rintro rfl
      exact hcurrent hstate
    have hzero : Function.update k.processes slot .zero = k.processes := by
      rw [← hunused slot hstate, Function.update_eq_self]
    rcases hnew : createKernelMappedPml4 k.mm with ⟨cr3, mm⟩
    simp only [Kernel.setProcess, hnew, Function.update_self, Function.update_of_ne hne,
      Function.update_idem]
    by_cases hcr3 : cr3 = 0
    · subst hcr3
      rw [if_pos rfl, hzero]
      exact .noFrame hslot hnew
    · rw [if_neg hcr3]
      rcases hclone : vmmCloneUserSpace mm (k.processes k.currentProcess).cr3 cr3 userTop with
        ⟨_ | _, mm'⟩
      · simp only [hzero]
        exact .noCopy hslot hnew hcr3 hclone
      · exact .done hslot hnew hcr3 hclone

/-! ### exit and execve -/

/-- The state after the current process has exited to the process in slot `parent`. -/
def Kernel.exited (k : Kernel) (status : UInt64) (parent : Slot) : Kernel :=
  { k with
    processes := Function.update (Function.update k.processes k.currentProcess
      { k.current with exitStatus := (status &&& 0xff).toNat, state := .zombie }) parent
      { k.processes parent with state := .running }
    currentProcess := parent
    cr3 := (k.processes parent).cr3 }

lemma syscallExit_eq {parent : Slot} {status : UInt64} (h : k.current.vforkParent = some parent)
    (hne : parent ≠ k.currentProcess) : syscallExit frame status k =
      (.ok (toU64 k.current.pid, { k.current.savedParentFrame with rax := toU64 k.current.pid }),
        k.exited status parent) := by
  simp only [syscallExit, h, Kernel.setCurrent, Kernel.setProcess, Function.update_of_ne hne,
    Function.update_self, Kernel.exited]

/-- Exit of the first process halts the machine. -/
lemma syscallExit_halt (status : UInt64) (h : k.current.vforkParent = none) :
    (syscallExit frame status k).1 = .error .halt := by
  simp only [syscallExit, h]

/-- The state after the current process has been replaced by the program loaded into `next`. -/
def Kernel.execed (k : Kernel) (next : Process) (mm : Mm) : Kernel :=
  { k with
    mm := mm
    processes := Function.update k.processes k.currentProcess
      { k.current with
        cr3 := next.cr3, entry := next.entry, stack := next.stack, brk := next.brk }
    cr3 := next.cr3 }

inductive ExecEnds (frame : SyscallFrame) (path : CString) (argv envp : List CString) (k : Kernel) :
    (UInt64 × SyscallFrame) × Kernel → Prop
  | failed {next : Process} {mm : Mm}
      (h : loadProgram k.kmem k.ramdisk k.mm { k.current with cr3 := 0 } path argv envp =
        (false, next, mm)) :
      ExecEnds frame path argv envp k ((negativeErrno .noexec, frame), { k with mm := mm })
  | done {next : Process} {mm : Mm}
      (h : loadProgram k.kmem k.ramdisk k.mm { k.current with cr3 := 0 } path argv envp =
        (true, next, mm)) :
      ExecEnds frame path argv envp k ((0, { frame with userRip := next.entry, userRsp := next.stack }),
        k.execed next (vmmDestroyUserSpace mm k.current.cr3 userTop))

theorem execveLoaded_ends (frame : SyscallFrame) (path : CString) (argv envp : List CString)
    (k : Kernel) :
    ExecEnds frame path argv envp k (execveLoaded frame path argv envp k) := by
  rw [execveLoaded]
  rcases h : loadProgram k.kmem k.ramdisk k.mm { k.current with cr3 := 0 } path argv envp with
    ⟨_ | _, next, mm⟩
  · exact .failed h
  · exact .done h

/-! ### Steps -/

/-- What an event can do to the machine. -/
inductive StepCase (k : Kernel) : Event → Kernel → Prop
  | stays {e : Event} {k' : Kernel} (h : Local k k') : StepCase k e k'
  | vfork {frame : SyscallFrame} {r : UInt64 × SyscallFrame} {k' : Kernel}
      (hn : syscallNumber frame.rax = .vfork) (h : syscallVfork frame k = (.ok r, k')) :
      StepCase k (.syscall frame) k'
  | execve {frame : SyscallFrame} {path : CString} {argv envp : List CString} {k₁ : Kernel}
      (hn : syscallNumber frame.rax = .execve) (h : Execs frame path argv envp k k₁) :
      StepCase k (.syscall frame) (execveLoaded frame path argv envp k₁).2
  | wait4 {frame : SyscallFrame} {i : Slot} {k₁ : Kernel}
      (hn : syscallNumber frame.rax = .wait4) (hzombie : zombieChild k frame.rdi = some i)
      (h : Local k k₁) : StepCase k (.syscall frame) (k₁.reap i)
  | exit {frame : SyscallFrame} {r : UInt64 × SyscallFrame} {k' : Kernel}
      (hn : syscallNumber frame.rax = .exit) (h : syscallExit frame frame.rdi k = (.ok r, k')) :
      StepCase k (.syscall frame) k'

/-- A store goes to a mapped page of the user's part. -/
lemma step_store_eq {address : UInt64} {value : UInt8} (h : step k (.store address value) = some k') :
    ∃ physical, address.toNat < 2 ^ 47 ∧ vmmTranslate k.mm k.cr3 address = some physical ∧
      k' = { k with mm := k.mm.setByte physical value } := by
  rw [step] at h
  split_ifs at h with htop
  rw [ge_iff_le, UInt64.not_le, lt_userTop_iff] at htop
  cases ht : vmmTranslate k.mm k.cr3 address with
  | none =>
    rw [ht] at h
    cases h
  | some physical =>
    rw [ht] at h
    cases h
    exact ⟨physical, htop, rfl, rfl⟩

/-- A system call that has a successor returns. -/
lemma step_syscall_ok (h : step k (.syscall frame) = some k') :
    ∃ r, processSyscallDispatch frame k = (.ok r, k') := by
  rw [step] at h
  rcases hd : processSyscallDispatch frame k with ⟨_ | r, k₁⟩
  · rw [hd] at h
    cases h
  · rw [hd] at h
    obtain rfl : k₁ = k' := Option.some.inj h
    exact ⟨r, rfl⟩

theorem step_cases (h : step k e = some k') : StepCase k e k' := by
  cases e with
  | store address value =>
    obtain ⟨physical, htop, ht, rfl⟩ := step_store_eq h
    exact .stays (local_setByte htop ht)
  | syscall frame =>
    obtain ⟨r, hd⟩ := step_syscall_ok h
    have hout := dispatch_outcome frame k
    rw [hd] at hout
    generalize hr : ((.ok r : Except Stop (UInt64 × SyscallFrame)), k') = res at hout
    cases hout with
    | stays hlocal =>
      cases hr
      exact .stays hlocal
    | vfork hn => exact .vfork hn hr.symm
    | execve hn hexecs =>
      cases hr
      exact .execve hn hexecs
    | wait4 hn hzombie hlocal =>
      cases hr
      exact .wait4 hn hzombie hlocal
    | exit hn => exact .exit hn hr.symm

end Xbks
