import Xbks.Properties.Tasks
import Xbks.Properties.Atomicity
import Xbks.Properties.Files

/-!
# The kernel is a machine of tasks with private memories

Every step of the kernel is a step of the machine of tasks, so that on every run the processes see what they would
see if each had a memory of its own.
-/

namespace Xbks

open Prog (keeps_pure keeps_get_bind)

variable {boot : BootInfo} {k k' k₁ : Kernel} {l : List Slot} {i : Slot} {F : List UInt64}
  {frame : SyscallFrame} {e : Event} {s : Tasks} {m : Memory UInt8} {texts : List CString}

/-! ### Plain system calls -/

/-- The handlers that answer without a change to the table overwrite their buffer at most. -/
lemma plain_dispatch (hbrk : syscallNumber frame.rax ≠ .brk) (hvfork : syscallNumber frame.rax ≠ .vfork)
    (hexecve : syscallNumber frame.rax ≠ .execve) (hwait : syscallNumber frame.rax ≠ .wait4)
    (hexit : syscallNumber frame.rax ≠ .exit) (k : Kernel) :
    Local k (processSyscallDispatch frame k).2 ∧
      Outputs (outputBuffer frame).1 (outputBuffer frame).2 k (processSyscallDispatch frame k).2 := by
  rw [processSyscallDispatch, outputBuffer]
  cases hn : syscallNumber frame.rax with
  | brk => exact absurd hn hbrk
  | vfork => exact absurd hn hvfork
  | execve => exact absurd hn hexecve
  | wait4 => exact absurd hn hwait
  | exit => exact absurd hn hexit
  | read =>
    simp only [withFrame_snd]
    exact ⟨keeps_syscallRead _ _ _ k, outputs_syscallRead _ _ _ k⟩
  | write =>
    simp only [withFrame_snd]
    exact ⟨keeps_syscallWrite _ _ _ k, outputs_syscallWrite _ _ _ k⟩
  | «open» | openat =>
    simp only [withFrame_snd]
    exact ⟨keeps_syscallOpen _ k, outputs_syscallOpen _ k⟩
  | close =>
    simp only [withFrame_snd]
    exact ⟨keeps_syscallClose _ k, outputs_syscallClose _ k⟩
  | lseek =>
    simp only [withFrame_snd]
    exact ⟨keeps_syscallLseek _ _ _ k, outputs_syscallLseek _ _ _ k⟩
  | access =>
    simp only [withFrame_snd]
    exact ⟨keeps_syscallAccess _ k, outputs_syscallAccess _ k⟩
  | getdents64 =>
    simp only [withFrame_snd]
    exact ⟨keeps_syscallGetdents64 _ _ _ k, outputs_syscallGetdents64 _ _ _ k⟩
  | getcwd =>
    simp only [withFrame_snd]
    exact ⟨keeps_syscallGetcwd _ _ k, outputs_syscallGetcwd _ _ k⟩
  | uname =>
    simp only [withFrame_snd]
    exact ⟨keeps_syscallUname _ k, outputs_syscallUname _ k⟩
  | getpid | getppid | getuid | schedYield | unknown => exact ⟨.refl k, .refl _ _ k⟩

/-! ### The arguments of execve -/

lemma Tasks.Passes.bytes_le {limit : ℕ} {address : UInt64} (h : Tasks.Passes m limit address texts)
    (hpos : 0 < limit) : texts.length < limit ∧ stringBytes texts ≤ 256 * texts.length := by
  rcases h with ⟨-, rfl⟩ | ⟨hholds, hlen⟩
  · exact ⟨hpos, Nat.zero_le _⟩
  · refine ⟨hlen, stringBytes_le fun text htext => ?_⟩
    obtain ⟨j, hj, hget⟩ := List.mem_iff_getElem.mp htext
    obtain ⟨value, hpoints⟩ := hholds.strings j text (by rw [List.getElem?_eq_getElem hj, hget])
    exact Nat.lt_succ_iff.mp hpoints.short

/-- A call of `execve` that gets as far as loading the program has read its arguments from the caller's
memory. -/
lemma execve_ends {r : UInt64 × SyscallFrame} (h : syscallExecve frame k = (.ok r, k')) :
    Local k k' ∧ Reads k k' ∨ ∃ path argv envp k₁, Execs frame path argv envp k k₁ ∧
      HoldsString k.view frame.rdi.toNat path ∧ Tasks.Passes k.view (maxArgs - 1) frame.rsi argv ∧
      Tasks.Passes k.view (maxEnv - 1) frame.rdx envp ∧ k' = (execveLoaded frame path argv envp k₁).2 := by
  have hpath := keeps_copyUserString frame.rdi (show maxString ≤ 2 ^ 32 by norm_num) k
  have hpath' := reads_copyUserString maxString frame.rdi k
  have hends := copyUserString_ends (show 0 < maxString by decide) (by norm_num) frame.rdi k
  rw [syscallExecve, Prog.bind_apply] at h
  rcases hr₁ : copyUserString maxString frame.rdi k with ⟨_ | _ | path, k₁⟩
  · rw [hr₁] at h
    cases h
  · rw [hr₁] at h hpath hpath'
    cases h
    exact .inl ⟨hpath, hpath'⟩
  rw [hr₁] at h hpath hpath' hends
  have hstring : HoldsString k.view frame.rdi.toNat path := by
    cases hends with
    | copied _ hholds => exact hholds
  have hargv := keeps_copyUserStringArray frame.rsi (show maxArgs - 1 ≤ 2 ^ 32 by norm_num) k₁
  have hargv' := hpath'.trans (reads_copyUserStringArray (maxArgs - 1) frame.rsi k₁)
  dsimp only at h
  rw [Prog.bind_apply] at h
  rcases hr₂ : copyUserStringArray (maxArgs - 1) frame.rsi k₁ with ⟨_ | _ | argv, k₂⟩
  · rw [hr₂] at h
    cases h
  · rw [hr₂] at h hargv hargv'
    cases h
    exact .inl ⟨hpath.trans hargv, hargv'⟩
  rw [hr₂] at h hargv hargv'
  have henvp := keeps_copyUserStringArray frame.rdx (show maxEnv - 1 ≤ 2 ^ 32 by norm_num) k₂
  have henvp' := hargv'.trans (reads_copyUserStringArray (maxEnv - 1) frame.rdx k₂)
  dsimp only at h
  rw [Prog.bind_apply] at h
  rcases hr₃ : copyUserStringArray (maxEnv - 1) frame.rdx k₂ with ⟨_ | _ | envp, k₃⟩
  · rw [hr₃] at h
    cases h
  · rw [hr₃] at h henvp henvp'
    cases h
    exact .inl ⟨(hpath.trans hargv).trans henvp, henvp'⟩
  rw [hr₃] at h henvp henvp'
  have hpassed₁ := (copiesArray_iff (by norm_num)).mp ⟨k₂, hr₂⟩
  have hpassed₂ := (copiesArray_iff (by norm_num)).mp ⟨k₃, hr₃⟩
  rw [hpath'.view] at hpassed₁
  rw [hargv'.view] at hpassed₂
  refine .inr ⟨path, argv, envp, k₃, ⟨(hpath.trans hargv).trans henvp, henvp', ?_, ?_, ?_⟩, hstring,
    hpassed₁, hpassed₂, (Prod.ext_iff.mp h).2.symm⟩
  · exact stringBytes_copyUserStringArray (by norm_num) hr₂
  · exact stringBytes_copyUserStringArray (by norm_num) hr₃
  · rw [executedFile, hr₁]

/-! ### One step -/

/-- The tasks are those of the kernel, which is in order and has the archive it started with. -/
def Simulates (boot : BootInfo) (k : Kernel) (s : Tasks) : Prop :=
  ∃ l F, TableInv k l ∧ Owned boot.memory k F ∧ k.kmem = boot.kmem ∧ k.ramdisk = boot.ramdisk ∧ s = k.tasks l

/-- The machine of tasks can follow the kernel to a state. -/
def Follows (boot : BootInfo) (s : Tasks) (e : Event) (k' : Kernel) : Prop :=
  ∃ s', Tasks.Step boot.kmem boot.ramdisk s e s' ∧ Simulates boot k' s'

/-- A step that changes nothing but the memory of the running process. -/
lemma simulates_sameTable {F' : List UInt64} (hinv : TableInv k l) (howned : Owned boot.memory k F)
    (hkmem : k'.kmem = boot.kmem) (hramdisk : k'.ramdisk = boot.ramdisk) (hsame : SameTable k k')
    (howned' : Owned boot.memory k' F') (hkept : ∀ j ≠ k.currentProcess, Kept j k k') :
    Simulates boot k' ((k.tasks l).setMemory k'.view) :=
  ⟨l, F', hsame.inv hinv, howned', hkmem, hramdisk, (hinv.setMemory_eq howned hsame howned'.current hkept).symm⟩

lemma simulates_local (hinv : TableInv k l) (howned : Owned boot.memory k F) (hkmem : k.kmem = boot.kmem)
    (hramdisk : k.ramdisk = boot.ramdisk) (h : Local k k') :
    Simulates boot k' ((k.tasks l).setMemory k'.view) := by
  obtain ⟨F', howned', hkept⟩ := howned.local_step hinv h
  exact simulates_sameTable hinv howned (h.kmem.trans hkmem) (h.ramdisk.trans hramdisk) h.sameTable howned' hkept

lemma Owned.intact (h : Owned boot.memory k F) (hinv : TableInv k l) : Intact k := by
  refine ⟨F, h.pool, ?_⟩
  rw [h.current]
  exact h.separate (h.current_ne hinv)

lemma follows_store {address : UInt64} {value : UInt8} (hinv : TableInv k l) (howned : Owned boot.memory k F)
    (hkmem : k.kmem = boot.kmem) (hramdisk : k.ramdisk = boot.ramdisk)
    (h : step k (.store address value) = some k') : Follows boot (k.tasks l) (.store address value) k' := by
  obtain ⟨physical, htop, ht, rfl⟩ := step_store_eq h
  obtain ⟨F', hpool, hsep⟩ := howned.intact hinv
  have hlocal := local_setByte (b := value) htop ht
  have hview : ({ k with mm := k.mm.setByte physical value } : Kernel).view = k.view.store address.toNat [value] :=
    view_setByte hpool hsep htop ht
  have hmapped : k.view address.toNat ≠ none := by
    rw [Kernel.view, view_toNat htop, ht]
    exact Option.some_ne_none _
  have hmemory := hinv.memory_eq howned.current
  refine ⟨_, .store (by rwa [hmemory]), ?_⟩
  rw [hmemory, ← hview]
  exact simulates_local hinv howned hkmem hramdisk hlocal

/-- A system call that overwrites its buffer at most. -/
lemma follows_plain (hinv : TableInv k l) (howned : Owned boot.memory k F) (hkmem : k.kmem = boot.kmem)
    (hramdisk : k.ramdisk = boot.ramdisk) (hn : Tasks.Plain frame) (hlocal : Local k k')
    (h : Outputs (outputBuffer frame).1 (outputBuffer frame).2 k k') :
    Follows boot (k.tasks l) (.syscall frame) k' := by
  refine ⟨_, .plain hn ?_, simulates_local hinv howned hkmem hramdisk hlocal⟩
  rw [hinv.memory_eq howned.current]
  exact h.view (howned.intact hinv)

lemma follows_brk (hinv : TableInv k l) (howned : Owned boot.memory k F) (hkmem : k.kmem = boot.kmem)
    (hramdisk : k.ramdisk = boot.ramdisk) (hn : syscallNumber frame.rax = .brk) {r : UInt64}
    (h : syscallBrk frame.rdi k = (.ok r, k')) : Follows boot (k.tasks l) (.syscall frame) k' := by
  have hlocal := keeps_syscallBrk frame.rdi k
  obtain ⟨lo, hi, hlo, hhi, hle, htop, hadded⟩ :=
    syscallBrk_added howned.pool (howned.separate (howned.current_ne hinv)) frame.rdi
  rw [h] at hlocal hadded
  refine ⟨_, .brk hn hlo hhi hle htop ?_, simulates_local hinv howned hkmem hramdisk hlocal⟩
  rw [hinv.memory_eq howned.current, Kernel.view, Kernel.view, hlocal.cr3, howned.current]
  exact hadded

/-! ### vfork and exit -/

/-- The first unused slot has no task, and the slots before it have one. -/
lemma unusedSlot_first {slot : Slot} (h : unusedSlot k.processes = some slot) :
    (k.processes slot).state = .unused ∧ ∀ j < slot, (k.processes j).state ≠ .unused := by
  rw [unusedSlot, ← Fin.find?_eq_find?_finRange, Fin.find?_eq_some_iff] at h
  refine ⟨of_decide_eq_true h.1, fun j hj => ?_⟩
  exact of_decide_eq_false (h.2 j hj)

/-- The tasks after a `vfork` that succeeded. -/
lemma tasks_vforked {slot : Slot} {cr3 : UInt64} {mm mm' : Mm} {F' : List UInt64} (hinv : TableInv k l)
    (howned : Owned boot.memory k F) (hslot : (k.processes slot).state = .unused)
    (hcopied : Copied k cr3 mm mm' true F F') (hkept : ∀ p ≠ slot, Kept p k (k.vforked frame slot cr3 mm)) :
    (k.vforked frame slot cr3 mm).tasks (k.currentProcess :: l) =
      { (k.tasks l).setTask slot (some ⟨k.nextPid, some k.currentProcess, none, k.view⟩) with
        current := slot
        waiting := k.currentProcess :: l
        nextPid := wrapInt (k.nextPid + 1) } := by
  have hne : slot ≠ k.currentProcess := (hinv.ne_unused List.mem_cons_self hslot).symm
  have htask : ((k.vforked frame slot cr3 mm).tasks (k.currentProcess :: l)).task =
      Function.update (k.tasks l).task slot (some ⟨k.nextPid, some k.currentProcess, none, k.view⟩) := by
    funext j
    by_cases hj : j = slot
    · rw [hj, Function.update_self, Kernel.view, howned.current, ← hcopied.view]
      exact congrArg (Process.task mm) (vforked_slot hne)
    · rw [Function.update_of_ne hj]
      by_cases hcur : j = k.currentProcess
      · subst hcur
        exact howned.task_state (hkept _ hj) (.inl hinv.current_running) (.inr rfl) vforked_parent
      · exact howned.task_kept (hkept j hj) (vforked_other hj hcur)
  rw [Tasks.setTask, ← htask]
  rfl

lemma follows_vfork (hinv : TableInv k l) (howned : Owned boot.memory k F) (hkmem : k.kmem = boot.kmem)
    (hramdisk : k.ramdisk = boot.ramdisk) (hn : syscallNumber frame.rax = .vfork)
    {r : UInt64 × SyscallFrame} (h : syscallVfork frame k = (.ok r, k')) :
    Follows boot (k.tasks l) (.syscall frame) k' := by
  have hends := hinv.vfork_ends frame
  rw [h] at hends
  have hfailed : ∀ mm, Restored k.mm mm F → Follows boot (k.tasks l) (.syscall frame) (k.vforkFailed mm) := by
    intro mm hrestored
    obtain ⟨F', howned', hkept⟩ := howned.vforkFailed_step hrestored
    refine ⟨_, .vforkFailed hn, l, F', hinv.vforkFailed mm, howned', hkmem, hramdisk, ?_⟩
    have htask : ((k.vforkFailed mm).tasks l).task = (k.tasks l).task := by
      funext j
      exact howned.task_kept (hkept j) rfl
    rw [show (k.vforkFailed mm).tasks l = { (k.tasks l) with
      task := ((k.vforkFailed mm).tasks l).task, nextPid := wrapInt (k.nextPid + 1) } from rfl, htask]
    rfl
  cases hends with
  | full =>
    refine follows_plain hinv howned hkmem hramdisk ?_ (.refl k) (.refl _ _ k)
    rw [Tasks.Plain, hn]
    decide
  | noFrame _ hnew => exact hfailed _ (createKernelMappedPml4_zero howned hnew)
  | noCopy _ hnew hcr3 hclone =>
    obtain ⟨F', hcopied⟩ := vfork_copied howned hinv hnew hcr3 hclone
    exact hfailed _ hcopied.restored
  | @done slot cr3 mm mm' hslot hnew hcr3 hclone =>
    obtain ⟨hunused, hfirst⟩ := unusedSlot_first hslot
    obtain ⟨F', howned', hcopied, hkept⟩ := howned.vforked_step frame hinv hunused hnew hcr3 hclone
    refine ⟨_, .vfork hn (task_unused hunused) (fun j hj => mt task_eq_none_iff.mp (hfirst j hj)),
      k.currentProcess :: l, F', hinv.vforked hunused cr3 mm', howned', hkmem, hramdisk, ?_⟩
    rw [tasks_vforked hinv howned hunused hcopied hkept, hinv.memory_eq howned.current]
    rfl

lemma follows_exit (hinv : TableInv k l) (howned : Owned boot.memory k F) (hkmem : k.kmem = boot.kmem)
    (hramdisk : k.ramdisk = boot.ramdisk) (hn : syscallNumber frame.rax = .exit)
    {r : UInt64 × SyscallFrame} (h : syscallExit frame frame.rdi k = (.ok r, k')) :
    Follows boot (k.tasks l) (.syscall frame) k' := by
  obtain ⟨parent, l', rfl, -, hne, rfl, -⟩ := hinv.exit_ok h
  obtain ⟨F', howned', hkept⟩ := howned.exited_step hinv frame.rdi hne
  have hcurrent := hinv.current_task howned.current
  refine ⟨_, .exit hn hcurrent rfl, l', F', hinv.exited frame.rdi, howned', hkmem, hramdisk, ?_⟩
  have htask : ((k.exited frame.rdi parent).tasks l').task = Function.update (k.tasks (parent :: l')).task
      k.currentProcess (some ⟨k.current.pid, k.current.parent, some (frame.rdi &&& 0xff).toNat, k.view⟩) := by
    funext j
    by_cases hj : j = k.currentProcess
    · subst hj
      have hview := (hkept k.currentProcess).view (howned.current_ne hinv)
      have hself := congrArg (Process.task (k.exited frame.rdi parent).mm) (@exited_self k frame.rdi parent hne)
      rw [Function.update_self, Kernel.view, howned.current]
      refine hself.trans ((task_used _ ProcessState.noConfusion).trans ?_)
      rw [exited_self hne] at hview
      exact congrArg (fun m => some (Task.mk k.current.pid k.current.parent _ m)) hview
    · rw [Function.update_of_ne hj]
      by_cases hp : j = parent
      · subst hp
        exact howned.task_state (hkept j) (.inr ((hinv.blocked j).mpr List.mem_cons_self)) (.inl rfl)
          exited_parent
      · exact howned.task_kept (hkept j) (exited_other hp hj)
  rw [Tasks.setTask]
  rw [show (k.exited frame.rdi parent).tasks l' = { (k.tasks (parent :: l')) with
    task := ((k.exited frame.rdi parent).tasks l').task, current := parent, waiting := l' } from rfl, htask]
  rfl

/-! ### execve and wait4 -/

lemma follows_execve (hinv : TableInv k l) (howned : Owned boot.memory k F) (hkmem : k.kmem = boot.kmem)
    (hramdisk : k.ramdisk = boot.ramdisk) (hn : syscallNumber frame.rax = .execve)
    (hok : ∀ file ∈ executedFile k frame, SegmentsFit k.kmem file) {r : UInt64 × SyscallFrame}
    (h : syscallExecve frame k = (.ok r, k')) : Follows boot (k.tasks l) (.syscall frame) k' := by
  have hplain : Tasks.Plain frame := by
    rw [Tasks.Plain, hn]
    decide
  have hbuffer : outputBuffer frame = (0, 0) := by rw [outputBuffer, hn]
  have hmemory := hinv.memory_eq howned.current
  rcases execve_ends h with ⟨hlocal, hreads⟩ | ⟨path, argv, envp, k₁, hexecs, hpath, hargv, henvp, rfl⟩
  · exact follows_plain hinv howned hkmem hramdisk hplain hlocal hreads.outputs
  have howned₁ := howned.reads hexecs.reads
  have hinv₁ := hexecs.isLocal.sameTable.inv hinv
  have hkmem₁ := hexecs.isLocal.kmem.trans hkmem
  have hramdisk₁ := hexecs.isLocal.ramdisk.trans hramdisk
  have htasks : k₁.tasks l = k.tasks l := by
    obtain ⟨accesses, rfl⟩ := hexecs.reads
    rfl
  have hview₁ := hexecs.reads.view
  have hends := execveLoaded_ends frame path argv envp k₁
  have hsame : SameTable k₁ (execveLoaded frame path argv envp k₁).2 := sameTable_execveLoaded frame path argv envp
  generalize execveLoaded frame path argv envp k₁ = r at hends hsame
  cases hends with
  | @failed next mm hload =>
    obtain ⟨F', howned', hkept⟩ := howned₁.unloaded_step (howned₁.load_failed hexecs hok hload)
    have hview : ({ k₁ with mm := mm } : Kernel).view = k.view := by
      have hcurrent := (hkept k₁.currentProcess).view (howned₁.current_ne hinv₁)
      rw [← hview₁, Kernel.view, Kernel.view, howned₁.current]
      exact hcurrent
    have hsim : Simulates boot { k₁ with mm := mm } _ :=
      simulates_sameTable hinv₁ howned₁ hkmem₁ hramdisk₁ hsame howned' fun j _ => hkept j
    rw [htasks] at hsim
    refine ⟨_, .plain hplain ?_, hsim⟩
    rw [hbuffer, hmemory, hview]
    exact .refl 0 0 _
  | @done next mm hload =>
    obtain ⟨file, hfile, hloaded⟩ := howned₁.load_done hexecs hok hload
    rw [← hexecs.isLocal.kmem] at hloaded
    obtain ⟨F₁, F₂, -, hreplaced, -⟩ := execed_exchange howned₁ hinv₁ hloaded
    obtain ⟨F', howned', hkept⟩ := howned₁.execed_step hinv₁ hloaded
    obtain ⟨hargc, hargv'⟩ := hargv.bytes_le (by decide)
    obtain ⟨henvc, henvp'⟩ := henvp.bytes_le (by decide)
    have hfit : ArgumentsFit argv envp :=
      argumentsFit_of_copied (hargc.trans_le (Nat.sub_le _ 1)) (henvc.trans_le (Nat.sub_le _ 1)) hargv' henvp'
    obtain ⟨file', header, hfile', hexec, -, hheader, -, -, -, hmem⟩ :=
      loadProgram_memory hfit howned₁.pool howned₁.kernel_free (hexecs.fits hok) hload
    rw [hkmem₁] at hfile' hheader hmem
    rw [hramdisk₁] at hfile'
    have hview : (k₁.execed next (vmmDestroyUserSpace mm k₁.current.cr3 userTop)).view =
        programMemory boot.kmem file' header argv envp := hreplaced.view.trans hmem
    have hsim : Simulates boot (k₁.execed next (vmmDestroyUserSpace mm k₁.current.cr3 userTop)) _ :=
      simulates_sameTable hinv₁ howned₁ hkmem₁ hramdisk₁ hsame howned' hkept
    rw [htasks, hview] at hsim
    rw [← hmemory] at hpath hargv henvp
    exact ⟨_, .execve hn hpath hargv henvp hfile' hexec hheader, hsim⟩

/-- The process in slot `i` is what `wait4` looks for. -/
def Awaited (k : Kernel) (pid : UInt64) (i : Slot) : Prop :=
  (k.processes i).state = .zombie ∧ (k.processes i).parent = some k.currentProcess ∧
    (pid = 0 - 1 ∨ pid = toU64 (k.processes i).pid)

lemma zombieChild_first {pid : UInt64} (h : zombieChild k pid = some i) :
    Awaited k pid i ∧ ∀ j < i, ¬Awaited k pid j := by
  rw [zombieChild, ← Fin.find?_eq_find?_finRange, Fin.find?_eq_some_iff] at h
  simp only [decide_eq_true_eq, decide_eq_false_iff_not] at h
  exact h

lemma reapable_of_awaited {pid : UInt64} (h : Awaited k pid i) : (k.tasks l).Reapable pid i
    ⟨(k.processes i).pid, (k.processes i).parent, some (k.processes i).exitStatus, k.mm.view (k.processes i).cr3⟩
    (k.processes i).exitStatus := by
  obtain ⟨hz, hparent, hpid⟩ := h
  have hne : (k.processes i).state ≠ .unused := by
    rw [hz]
    exact ProcessState.noConfusion
  have htask := task_used k.mm hne
  rw [if_pos hz] at htask
  exact ⟨htask, rfl, hparent, hpid⟩

lemma awaited_of_reapable {pid : UInt64} {child : Task} {status : ℤ}
    (h : (k.tasks l).Reapable pid i child status) : Awaited k pid i := by
  have htask : (k.processes i).task k.mm = some child := h.task
  have hused : (k.processes i).state ≠ .unused := by
    intro hunused
    rw [task_unused hunused] at htask
    cases htask
  rw [task_used k.mm hused, Option.some.injEq] at htask
  subst htask
  refine ⟨?_, h.parent, h.pid⟩
  by_contra hz
  have hstatus := h.status
  dsimp only at hstatus
  rw [if_neg hz] at hstatus
  cases hstatus

/-- Reaping removes a task. -/
lemma tasks_reap (howned : Owned boot.memory k F) (hkept : ∀ p ≠ i, Kept p k (k.reap i)) :
    (k.reap i).tasks l = (k.tasks l).setTask i none := by
  have htask : ((k.reap i).tasks l).task = Function.update (k.tasks l).task i none := by
    funext j
    by_cases hj : j = i
    · rw [hj, Function.update_self]
      exact (congrArg (Process.task (k.reap i).mm) reap_self).trans (task_unused rfl)
    · rw [Function.update_of_ne hj]
      exact howned.task_kept (hkept j hj) (reap_other hj)
  rw [Tasks.setTask, ← htask]
  rfl

lemma follows_reap {m : Memory UInt8} (hinv : TableInv k l) (howned : Owned boot.memory k F)
    (hkmem : k.kmem = boot.kmem) (hramdisk : k.ramdisk = boot.ramdisk) (hn : syscallNumber frame.rax = .wait4)
    (hzombie : zombieChild k frame.rdi = some i) (hlocal : Local k k₁) (hm : k₁.view = m)
    (hstored : frame.rsi = 0 ∧ m = k.view ∨ frame.rsi ≠ 0 ∧ k.view.Has frame.rsi.toNat 4 ∧
      m = k.view.store frame.rsi.toNat (intBytes ((k.processes i).exitStatus * 256))) :
    Follows boot (k.tasks l) (.syscall frame) (k₁.reap i) := by
  obtain ⟨hawaited, hfirst⟩ := zombieChild_first hzombie
  have hz := hawaited.1
  have hne : i ≠ k.currentProcess := by
    rintro rfl
    exact hinv.notMem_of_zombie hz List.mem_cons_self
  obtain ⟨F₁, howned₁, hkept₁⟩ := howned.local_step hinv hlocal
  have hinv₁ := hlocal.sameTable.inv hinv
  have htasks₁ : k₁.tasks l = (k.tasks l).setMemory m := by
    rw [← hm]
    exact hinv.setMemory_eq howned hlocal.sameTable howned₁.current hkept₁
  have hz₁ : (k₁.processes i).state = .zombie := by
    rw [hlocal.others i hne]
    exact hz
  obtain ⟨F₂, howned₂, hkept₂⟩ := howned₁.reap_step hinv₁ hz₁
  have hmemory := hinv.memory_eq howned.current
  refine ⟨((k.tasks l).setMemory m).setTask i none, .wait4 hn (reapable_of_awaited hawaited) ?_ ?_, l, F₂,
    hinv₁.reap hz₁, howned₂, hlocal.kmem.trans hkmem, hlocal.ramdisk.trans hramdisk, ?_⟩
  · intro j hj other status h
    exact hfirst j hj (awaited_of_reapable h)
  · rw [hmemory]
    exact hstored
  · rw [tasks_reap howned₁ hkept₂, htasks₁]

/-- The address that `wait4` is given for the status cannot be used. -/
def BadStatusAddress (address : UInt64) : Prop := address ≠ 0 ∧ ¬userRangeIsValid address 4 = true

instance (address : UInt64) : Decidable (BadStatusAddress address) := inferInstanceAs (Decidable (_ ∧ _))

/-- A call of `wait4` that returns either does nothing, or stores the status of the process that it removes. -/
lemma syscallWait4_ends {pid address v : UInt64} (hintact : Intact k)
    (h : syscallWait4 pid address k = (.ok v, k')) :
    k' = k ∧ (zombieChild k pid = none ∨ BadStatusAddress address) ∨
      ∃ i k₁, zombieChild k pid = some i ∧ ¬BadStatusAddress address ∧ v = toU64 (k.processes i).pid ∧
        Local k k₁ ∧ k' = k₁.reap i ∧ (address = 0 ∧ k₁.view = k.view ∨ address ≠ 0 ∧ k.view.Has address.toNat 4 ∧
          k₁.view = k.view.store address.toNat (intBytes ((k.processes i).exitStatus * 256))) := by
  rw [syscallWait4, Prog.get_bind_apply] at h
  cases hz : zombieChild k pid with
  | none =>
    simp only [hz] at h
    cases h
    exact .inl ⟨rfl, .inl rfl⟩
  | some i =>
    simp only [hz] at h
    by_cases hbad : address ≠ 0 ∧ ¬userRangeIsValid address 4 = true
    · simp only [if_pos hbad] at h
      cases h
      exact .inl ⟨rfl, .inr hbad⟩
    simp only [if_neg hbad] at h
    by_cases hstatus : address ≠ 0
    · have hvalid : userRangeIsValid address 4 = true := by
        by_contra hno
        exact hbad ⟨hstatus, hno⟩
      have hlen : (intBytes ((k.processes i).exitStatus * 256)).length = 4 := by simp [intBytes, wordBytes]
      have hroom : 0 + (intBytes ((k.processes i).exitStatus * 256)).length ≤ (4 : UInt64).toNat := by
        rw [hlen]
        decide
      have hlocal := keeps_writeUserBytes_of_valid hvalid hroom k
      have hends := writeUserBytes_ends_of_valid hintact hvalid hroom
      simp only [if_pos hstatus] at h
      rw [Prog.bind_apply] at h
      generalize writeUserBytes address 0 (intBytes ((k.processes i).exitStatus * 256)) k = w at hlocal hends h
      cases hends with
      | faults => cases h
      | @done k₁ hhas hstored =>
        rw [hlen] at hhas
        cases h
        exact .inr ⟨i, k₁, rfl, hbad, rfl, hlocal, rfl, .inr ⟨hstatus, hhas, hstored.view⟩⟩
    · simp only [if_neg hstatus] at h
      rw [ne_eq, not_not] at hstatus
      cases h
      exact .inr ⟨i, k, rfl, hbad, rfl, .refl k, rfl, .inl ⟨hstatus, rfl⟩⟩

lemma follows_wait4 (hinv : TableInv k l) (howned : Owned boot.memory k F) (hkmem : k.kmem = boot.kmem)
    (hramdisk : k.ramdisk = boot.ramdisk) (hn : syscallNumber frame.rax = .wait4) {r : UInt64}
    (h : syscallWait4 frame.rdi frame.rsi k = (.ok r, k')) : Follows boot (k.tasks l) (.syscall frame) k' := by
  rcases syscallWait4_ends (howned.intact hinv) h with ⟨rfl, -⟩ | ⟨i, k₁, hz, -, -, hlocal, rfl, hstored⟩
  · refine follows_plain hinv howned hkmem hramdisk ?_ (.refl k') (.refl _ _ k')
    rw [Tasks.Plain, hn]
    decide
  · exact follows_reap hinv howned hkmem hramdisk hn hz hlocal rfl hstored

/-! ### Runs -/

/-- Every step of the kernel is a step of the tasks. -/
lemma follows_step (hinv : TableInv k l) (howned : Owned boot.memory k F) (hkmem : k.kmem = boot.kmem)
    (hramdisk : k.ramdisk = boot.ramdisk) (hok : ExecFits k e) (hstep : step k e = some k') :
    Follows boot (k.tasks l) e k' := by
  cases e with
  | store address value => exact follows_store hinv howned hkmem hramdisk hstep
  | syscall frame =>
    obtain ⟨⟨v, f⟩, hd⟩ := step_syscall_ok hstep
    have hdispatch := hd
    rw [processSyscallDispatch] at hd
    by_cases hbrk : syscallNumber frame.rax = .brk
    · rw [hbrk] at hd
      exact follows_brk hinv howned hkmem hramdisk hbrk (withFrame_ok hd).1
    by_cases hvfork : syscallNumber frame.rax = .vfork
    · rw [hvfork] at hd
      exact follows_vfork hinv howned hkmem hramdisk hvfork hd
    by_cases hexecve : syscallNumber frame.rax = .execve
    · rw [hexecve] at hd
      exact follows_execve hinv howned hkmem hramdisk hexecve (hok hexecve) hd
    by_cases hwait : syscallNumber frame.rax = .wait4
    · rw [hwait] at hd
      exact follows_wait4 hinv howned hkmem hramdisk hwait (withFrame_ok hd).1
    by_cases hexit : syscallNumber frame.rax = .exit
    · rw [hexit] at hd
      exact follows_exit hinv howned hkmem hramdisk hexit hd
    obtain ⟨hlocal, houtputs⟩ := plain_dispatch hbrk hvfork hexecve hwait hexit k
    rw [hdispatch] at hlocal houtputs
    exact follows_plain hinv howned hkmem hramdisk ⟨hbrk, hexit⟩ hlocal houtputs

/-- The first process starts with the memory of its program. -/
lemma simulates_started (hboot : boot.memory.Valid) (hinit : InitFits boot) (hstart : Starts boot) :
    ∃ file header, ramdiskFind boot.kmem boot.ramdisk (cstr "/bin/xsh") = some file ∧
      validateElf boot.kmem file = some header ∧
      Simulates boot (started boot) (.initial (programMemory boot.kmem file header initArgv initEnvp)) := by
  obtain ⟨F, howned, -⟩ := owned_started hboot hinit hstart
  have hinv := tableInv_started hstart
  obtain ⟨next, mm, hload, hstarted⟩ := started_eq hstart
  obtain ⟨F₀, hpool, hperm, hkernel, -⟩ := mmInit_spec hboot
  have hnot : (mmInit boot.memory).kernelCr3Value &&& ~~~0xfff ∉ F₀ := by
    rw [hkernel, mask_idem, hperm.mem_iff]
    exact hboot.kernel_notMem .root
  obtain ⟨file, header, hfile, -, -, hheader, -, -, -, hview⟩ := loadProgram_memory
    (show ArgumentsFit initArgv initEnvp by decide) hpool hnot hinit hload
  obtain ⟨cr3, entry, stack, brk, hnext⟩ := loadProgram_process boot.kmem boot.ramdisk (mmInit boot.memory)
    (.fresh 1) (cstr "/bin/xsh") initArgv initEnvp
  rw [hload] at hnext
  change next = _ at hnext
  refine ⟨file, header, hfile, hheader, [], F, hinv, howned, ?_, ?_, ?_⟩ <;> rw [hstarted]
  · rfl
  · rfl
  · have htask : ((boot.enter next mm).tasks []).task =
        (Tasks.initial (programMemory boot.kmem file header initArgv initEnvp)).task := by
      funext i
      by_cases hi : i = firstSlot
      · subst hi
        have hfirst := congrArg (Process.task mm) (@enter_first boot next mm)
        refine hfirst.trans ?_
        rw [Tasks.initial_first, ← hview, task_used mm (by rw [hnext]; exact ProcessState.noConfusion), hnext]
        rfl
      · have hother := congrArg (Process.task mm) (@enter_other boot next mm i hi)
        rw [Tasks.initial_other _ hi]
        exact hother.trans (task_unused rfl)
    exact congrArg (fun task => Tasks.mk task firstSlot [] 2) htask.symm

/-- On every run the processes see what they would see in a machine of tasks with private memories. -/
theorem tasks_of_run {es : List Event} (hboot : boot.memory.Valid) (hinit : InitFits boot) (hstart : Starts boot)
    (hrun : Run ExecFits (started boot) es k) :
    ∃ file header s, ramdiskFind boot.kmem boot.ramdisk (cstr "/bin/xsh") = some file ∧
      validateElf boot.kmem file = some header ∧
      Transition.Path (Tasks.Step boot.kmem boot.ramdisk)
        (.initial (programMemory boot.kmem file header initArgv initEnvp)) es s ∧
      s.current = k.currentProcess ∧ s.nextPid = k.nextPid ∧ s.memory = k.view ∧
      ∀ i, s.task i = (k.processes i).task k.mm := by
  obtain ⟨file, header, hfile, hheader, hsim⟩ := simulates_started hboot hinit hstart
  obtain ⟨s, hpath, l, F, hinv, howned, -, -, rfl⟩ := hrun.simulates (R := Tasks.Step boot.kmem boot.ramdisk) hsim (by
    rintro t u e b ⟨l, F, hinv, howned, hkmem, hramdisk, rfl⟩ hok hstep
    exact follows_step hinv howned hkmem hramdisk hok hstep)
  exact ⟨file, header, _, hfile, hheader, hpath, rfl, rfl, hinv.memory_eq howned.current, fun _ => rfl⟩

/-- A `vfork` of the first process on the small machine. -/
theorem tasks_of_run_small : ∃ (k : Kernel) (s : Tasks),
    Run ExecFits (started (smallBoot 0x10000)) [.syscall (call 58)] k ∧
    s.current = k.currentProcess ∧ s.memory = k.view ∧ ∀ i, s.task i = (k.processes i).task k.mm := by
  obtain ⟨cr3, mm, F, -, hstep, -⟩ := small_vfork
  have hrun : Run ExecFits (started (smallBoot 0x10000)) [.syscall (call 58)] _ :=
    .snoc .nil (execFits_call (by decide) _) hstep
  obtain ⟨file, header, s, -, -, -, hcurrent, -, hmemory, htask⟩ := tasks_of_run (smallBoot_valid 0x10000)
    smallProgram.initFits smallBoot_starts hrun
  exact ⟨_, s, hrun, hcurrent, hmemory, htask⟩

end Xbks
