import Xbks.Properties.ArgumentArrays
import Xbks.Properties.ProgramMemory
import Xbks.Properties.Views

/-!
# Tasks with private memories

What the processes are to each other and to their programs, without page tables and frames: every task has a
memory of its own, one task runs, and those that called `vfork` wait for their children. The machine below has
the same events as the kernel; a step says what becomes of the tasks.
-/

namespace Xbks

/-- A process as programs see it. An exited one has a status. -/
structure Task where
  pid : ℤ
  parent : Option Slot
  status : Option ℤ
  memory : Memory UInt8

/-- The tasks, the one that runs, and the callers of `vfork` that wait, the last one first. -/
structure Tasks where
  task : Slot → Option Task
  current : Slot
  waiting : List Slot
  nextPid : ℤ

namespace Tasks

/-- The memory of the task that runs. -/
def memory (s : Tasks) : Memory UInt8 := (s.task s.current).elim (fun _ => none) Task.memory

def setTask (s : Tasks) (i : Slot) (task : Option Task) : Tasks :=
  { s with task := Function.update s.task i task }

def setMemory (s : Tasks) (m : Memory UInt8) : Tasks :=
  s.setTask s.current ((s.task s.current).map fun t => { t with memory := m })

/-- A slot whose task the running one may wait for. -/
structure Reapable (s : Tasks) (pid : UInt64) (i : Slot) (child : Task) (status : ℤ) : Prop where
  task : s.task i = some child
  status : child.status = some status
  parent : child.parent = some s.current
  pid : pid = 0 - 1 ∨ pid = toU64 child.pid

/-- The strings that `execve` takes from an array in user memory. -/
def Passes (m : Memory UInt8) (limit : ℕ) (address : UInt64) (texts : List CString) : Prop :=
  address = 0 ∧ texts = [] ∨ HoldsStrings m address.toNat texts ∧ texts.length < limit

/-- The system calls that may do nothing but to overwrite their buffer. -/
def Plain (frame : SyscallFrame) : Prop :=
  syscallNumber frame.rax ≠ .brk ∧ syscallNumber frame.rax ≠ .exit

/-- The steps of the tasks. Those that `vfork`, `execve` and `wait4` refuse are among the plain ones. -/
inductive Step (kmem : KernelMemory) (rd : Ramdisk) (s : Tasks) : Event → Tasks → Prop
  | store {address : UInt64} {value : UInt8} (h : s.memory address.toNat ≠ none) :
      Step kmem rd s (.store address value) (s.setMemory (s.memory.store address.toNat [value]))
  | plain {frame : SyscallFrame} {m : Memory UInt8} (hn : Plain frame)
      (h : Memory.Overwritten (outputBuffer frame).1 (outputBuffer frame).2 s.memory m) :
      Step kmem rd s (.syscall frame) (s.setMemory m)
  | brk {frame : SyscallFrame} {m : Memory UInt8} {lo hi : ℕ} (hn : syscallNumber frame.rax = .brk)
      (hlo : lo % 4096 = 0) (hhi : hi % 4096 = 0) (hle : lo ≤ hi) (htop : hi ≤ 0x10000000)
      (h : Memory.Added 0 (Set.Ico lo hi) s.memory m) : Step kmem rd s (.syscall frame) (s.setMemory m)
  | vforkFailed {frame : SyscallFrame} (hn : syscallNumber frame.rax = .vfork) :
      Step kmem rd s (.syscall frame) { s with nextPid := wrapInt (s.nextPid + 1) }
  | vfork {frame : SyscallFrame} {slot : Slot} (hn : syscallNumber frame.rax = .vfork)
      (hslot : s.task slot = none) (hfirst : ∀ j < slot, s.task j ≠ none) :
      Step kmem rd s (.syscall frame)
        { s.setTask slot (some ⟨s.nextPid, some s.current, none, s.memory⟩) with
          current := slot
          waiting := s.current :: s.waiting
          nextPid := wrapInt (s.nextPid + 1) }
  | execve {frame : SyscallFrame} {path : CString} {argv envp : List CString} {file : RamdiskFile}
      {header : ElfHeader} (hn : syscallNumber frame.rax = .execve)
      (hpath : HoldsString s.memory frame.rdi.toNat path) (hargv : Passes s.memory (maxArgs - 1) frame.rsi argv)
      (henvp : Passes s.memory (maxEnv - 1) frame.rdx envp) (hfile : ramdiskFind kmem rd path = some file)
      (hexec : file.executable = true) (hheader : validateElf kmem file = some header) :
      Step kmem rd s (.syscall frame) (s.setMemory (programMemory kmem file header argv envp))
  | exit {frame : SyscallFrame} {t : Task} {parent : Slot} {waiting : List Slot}
      (hn : syscallNumber frame.rax = .exit) (ht : s.task s.current = some t)
      (hwaiting : s.waiting = parent :: waiting) :
      Step kmem rd s (.syscall frame)
        { s.setTask s.current (some { t with status := some (frame.rdi &&& 0xff).toNat }) with
          current := parent
          waiting := waiting }
  | wait4 {frame : SyscallFrame} {i : Slot} {child : Task} {status : ℤ} {m : Memory UInt8}
      (hn : syscallNumber frame.rax = .wait4) (hchild : s.Reapable frame.rdi i child status)
      (hfirst : ∀ j < i, ∀ other status, ¬s.Reapable frame.rdi j other status)
      (hm : frame.rsi = 0 ∧ m = s.memory ∨ frame.rsi ≠ 0 ∧ s.memory.Has frame.rsi.toNat 4 ∧
        m = s.memory.store frame.rsi.toNat (intBytes (status * 256))) :
      Step kmem rd s (.syscall frame) ((s.setMemory m).setTask i none)

/-- One task, in the first slot. -/
def initial (m : Memory UInt8) : Tasks where
  task := Function.update (fun _ => none) firstSlot (some ⟨1, none, none, m⟩)
  current := firstSlot
  waiting := []
  nextPid := 2

lemma initial_first (m : Memory UInt8) : (initial m).task firstSlot = some ⟨1, none, none, m⟩ := by
  simp only [initial, Function.update_self]

lemma initial_other {i : Slot} (m : Memory UInt8) (hi : i ≠ firstSlot) : (initial m).task i = none := by
  simp only [initial, Function.update_of_ne hi]

end Tasks

/-! ### The tasks of the kernel -/

variable {boot : BootInfo} {k k' k₁ : Kernel} {l : List Slot} {i : Slot} {F : List UInt64}
  {frame : SyscallFrame} {e : Event} {mm mm' : Mm} {p p' : Process}

/-- The task that a process is. -/
def Process.task (mm : Mm) (p : Process) : Option Task :=
  if p.state = .unused then none
  else some ⟨p.pid, p.parent, if p.state = .zombie then some p.exitStatus else none, mm.view p.cr3⟩

def Kernel.tasks (k : Kernel) (l : List Slot) : Tasks where
  task i := (k.processes i).task k.mm
  current := k.currentProcess
  waiting := l
  nextPid := k.nextPid

lemma task_unused (h : p.state = .unused) : p.task mm = none := if_pos h

lemma task_used (mm : Mm) (h : p.state ≠ .unused) : p.task mm =
    some ⟨p.pid, p.parent, if p.state = .zombie then some p.exitStatus else none, mm.view p.cr3⟩ := if_neg h

lemma task_eq_none_iff : p.task mm = none ↔ p.state = .unused := by
  rw [Process.task]
  split_ifs with h <;> simp [h]

/-- What a task is made of. -/
lemma task_congr (hpid : p'.pid = p.pid) (hparent : p'.parent = p.parent)
    (hunused : p'.state = .unused ↔ p.state = .unused) (hzombie : p'.state = .zombie ↔ p.state = .zombie)
    (hstatus : p'.exitStatus = p.exitStatus)
    (hview : p.state ≠ .unused → mm'.view p'.cr3 = mm.view p.cr3) : p'.task mm' = p.task mm := by
  by_cases hp : p.state = .unused
  · rw [task_unused hp, task_unused (hunused.mpr hp)]
  · rw [task_used mm hp, task_used mm' (mt hunused.mp hp), hpid, hparent, hstatus, hview hp]
    simp only [hzombie]

lemma Owned.task_kept (h : Owned boot.memory k F) (hkept : Kept i k k')
    (hsame : k'.processes i = k.processes i) : (k'.processes i).task k'.mm = (k.processes i).task k.mm := by
  rw [hsame]
  refine task_congr rfl rfl Iff.rfl Iff.rfl rfl fun hi => ?_
  have hview := hkept.view (h.live i hi)
  rwa [hsame] at hview

/-- Being suspended and being resumed makes no difference to a task. -/
lemma Owned.task_state {state : ProcessState} (h : Owned boot.memory k F) (hkept : Kept i k k')
    (hold : (k.processes i).state = .running ∨ (k.processes i).state = .blocked)
    (hnew : state = .running ∨ state = .blocked)
    (hsame : k'.processes i = { k.processes i with state := state }) :
    (k'.processes i).task k'.mm = (k.processes i).task k.mm := by
  have hview := hkept.view (i := i)
  have hunused : state ≠ .unused ∧ state ≠ .zombie := by
    rcases hnew with rfl | rfl <;> exact ⟨ProcessState.noConfusion, ProcessState.noConfusion⟩
  have hunused' : (k.processes i).state ≠ .unused ∧ (k.processes i).state ≠ .zombie := by
    rcases hold with hi | hi <;> rw [hi] <;> exact ⟨ProcessState.noConfusion, ProcessState.noConfusion⟩
  rw [hsame] at hview ⊢
  exact task_congr rfl rfl (iff_of_false hunused.1 hunused'.1) (iff_of_false hunused.2 hunused'.2) rfl
    fun hi => hview (h.live i hi)

lemma TableInv.current_ne_unused (h : TableInv k l) : k.current.state ≠ .unused := by
  rw [h.current_running]
  exact ProcessState.noConfusion

lemma TableInv.current_task (h : TableInv k l) (hcurrent : k.cr3 = k.current.cr3) :
    (k.tasks l).task k.currentProcess = some ⟨k.current.pid, k.current.parent, none, k.view⟩ := by
  have hstate := h.current_running
  have htask := task_used k.mm h.current_ne_unused
  rw [hstate, if_neg (by decide)] at htask
  rw [Kernel.view, hcurrent]
  exact htask

lemma TableInv.memory_eq (h : TableInv k l) (hcurrent : k.cr3 = k.current.cr3) : (k.tasks l).memory = k.view := by
  rw [Tasks.memory, show (k.tasks l).current = k.currentProcess from rfl, h.current_task hcurrent]
  rfl

/-- The running process may change its own memory; the tasks are otherwise the same. -/
lemma TableInv.setMemory_eq (h : TableInv k l) (howned : Owned boot.memory k F) (hsame : SameTable k k')
    (hcurrent : k'.cr3 = k'.current.cr3) (hkept : ∀ j ≠ k.currentProcess, Kept j k k') :
    k'.tasks l = (k.tasks l).setMemory k'.view := by
  have htask : (k'.tasks l).task = Function.update (k.tasks l).task k.currentProcess
      (((k.tasks l).task k.currentProcess).map fun t => { t with memory := k'.view }) := by
    funext j
    by_cases hj : j = k.currentProcess
    · subst hj
      have hpid := hsame.field Process.pid (fun _ _ _ _ _ _ => rfl) k.currentProcess
      have hparent := hsame.field Process.parent (fun _ _ _ _ _ _ => rfl) k.currentProcess
      have hafter := (hsame.inv h).current_task hcurrent
      rw [Kernel.current, hsame.currentProcess, hpid, hparent] at hafter
      rw [Function.update_self, h.current_task howned.current, Option.map_some]
      exact hafter
    · rw [Function.update_of_ne hj]
      exact howned.task_kept (hkept j hj) (hsame.others j hj)
  rw [Tasks.setMemory, Tasks.setTask]
  rw [show (k.tasks l).current = k.currentProcess from rfl, ← htask]
  rw [Kernel.tasks, Kernel.tasks, hsame.currentProcess, hsame.nextPid]

end Xbks
