import Xbks.Process.Table

/-!
# The first process

The state in which the first process enters user mode, and the process numbers handed out from
there on.
-/

namespace Xbks

variable {boot : BootInfo} {k k' : Kernel} {l : List Slot} {e : Event} {es : List Event}

/-! ### The state after a successful start -/

/-- Loading sets the entry point and the break of a process and nothing else. -/
lemma loadElfIntoProcess_process (kmem : KernelMemory) (s : Mm) (process : Process)
    (file : RamdiskFile) : ∃ entry brk,
      (loadElfIntoProcess kmem s process file).2.1 =
        { process with entry := entry, brk := brk } := by
  simp only [loadElfIntoProcess]
  cases validateElf kmem file with
  | none => exact ⟨process.entry, process.brk, rfl⟩
  | some header =>
    dsimp only
    rcases Loop.forWhile (loadSegment kmem process.cr3 file header)
      (if file.hasHeader = true then s.noteReads 0 64 else s) (List.range header.phnum.toNat) with
      ⟨_ | _, s₁⟩
    · exact ⟨process.entry, process.brk, rfl⟩
    · exact ⟨header.entry, 0x800000, rfl⟩

lemma buildUserStack_process (s : Mm) (process : Process) (argv envp : List CString) :
    ∃ stack, (buildUserStack s process argv envp).2.1 = { process with stack := stack } := by
  rw [buildUserStack]
  rcases mapUserRange s process.cr3 (userStackTop - userStackSize) userStackSize pageWritable with
    ⟨_ | _, s₁⟩
  · exact ⟨process.stack, rfl⟩
  dsimp only
  rcases pushStrings process.cr3 s₁ userStackTop [] envp.reverse with ⟨_ | ⟨stack₂, env⟩, s₂⟩
  · exact ⟨process.stack, rfl⟩
  dsimp only
  rcases pushStrings process.cr3 s₂ stack₂ [] argv.reverse with ⟨_ | ⟨stack₃, args⟩, s₃⟩
  · exact ⟨process.stack, rfl⟩
  dsimp only
  rcases pushWords process.cr3 s₃ (stack₃ &&& ~~~0xf)
    ([0] ++ env.reverse ++ [0] ++ args.reverse ++ [UInt64.ofNat argv.length]) with ⟨_ | stack₄, s₄⟩
  · exact ⟨process.stack, rfl⟩
  · exact ⟨stack₄, rfl⟩

lemma loadProgram_process (kmem : KernelMemory) (rd : Ramdisk) (s : Mm) (process : Process)
    (path : CString) (argv envp : List CString) : ∃ cr3 entry stack brk,
      (loadProgram kmem rd s process path argv envp).2.1 =
        { process with cr3 := cr3, entry := entry, stack := stack, brk := brk } := by
  rw [loadProgram]
  cases ramdiskFind kmem rd path with
  | none => exact ⟨_, _, _, _, rfl⟩
  | some file =>
    dsimp only
    split_ifs
    · exact ⟨_, _, _, _, rfl⟩
    · exact ⟨_, _, _, _, rfl⟩
    · obtain ⟨entry, brk, helf⟩ := loadElfIntoProcess_process kmem (createKernelMappedPml4 s).2
        { process with cr3 := (createKernelMappedPml4 s).1 } file
      rcases hr₁ : loadElfIntoProcess kmem (createKernelMappedPml4 s).2
        { process with cr3 := (createKernelMappedPml4 s).1 } file with ⟨_ | _, process₁, s₁⟩
      · rw [hr₁] at helf
        exact ⟨0, entry, _, brk, by rw [show process₁ = _ from helf]⟩
      · rw [hr₁] at helf
        obtain ⟨stack, hstack⟩ := buildUserStack_process s₁ process₁ argv envp
        dsimp only
        rcases hr₂ : buildUserStack s₁ process₁ argv envp with ⟨_ | _, process₂, s₂⟩
        · rw [hr₂] at hstack
          exact ⟨0, entry, stack, brk, by
            rw [show process₂ = _ from hstack, show process₁ = _ from helf]⟩
        · rw [hr₂] at hstack
          exact ⟨_, entry, stack, brk, by
            rw [show process₂ = _ from hstack, show process₁ = _ from helf]⟩

/-- The root of a loaded program is the first frame that was taken. -/
lemma loadProgram_cr3 {kmem : KernelMemory} {rd : Ramdisk} {s mm : Mm} {process next : Process}
    {path : CString} {argv envp : List CString}
    (h : loadProgram kmem rd s process path argv envp = (true, next, mm)) :
    next.cr3 = (createKernelMappedPml4 s).1 := by
  rw [loadProgram] at h
  cases hfile : ramdiskFind kmem rd path with
  | none =>
    rw [hfile] at h
    cases h
  | some file =>
    simp only [hfile] at h
    split_ifs at h
    · cases h
    · cases h
    · obtain ⟨entry, brk, helf⟩ := loadElfIntoProcess_process kmem (createKernelMappedPml4 s).2
        { process with cr3 := (createKernelMappedPml4 s).1 } file
      rcases hr₁ : loadElfIntoProcess kmem (createKernelMappedPml4 s).2
        { process with cr3 := (createKernelMappedPml4 s).1 } file with ⟨_ | _, process₁, s₁⟩
      · rw [hr₁] at h
        cases h
      · rw [hr₁] at h helf
        obtain ⟨stack, hstack⟩ := buildUserStack_process s₁ process₁ argv envp
        dsimp only at h
        rcases hr₂ : buildUserStack s₁ process₁ argv envp with ⟨_ | _, process₂, s₂⟩
        · rw [hr₂] at h
          cases h
        · rw [hr₂] at h hstack
          cases h
          rw [show next = _ from hstack, show process₁ = _ from helf]

/-- The ramdisk that the kernel finds. -/
def BootInfo.ramdisk (boot : BootInfo) : Ramdisk := ramdiskInit boot.modules

/-- The state in which the first process, loaded into `next`, enters user mode. -/
def BootInfo.enter (boot : BootInfo) (next : Process) (mm : Mm) : Kernel :=
  { kernelMain boot with
    mm := mm
    ramdisk := boot.ramdisk
    cr3 := next.cr3
    processes := Function.update (fun _ => .zero) firstSlot next
    currentProcess := firstSlot
    nextPid := 2 }

lemma unusedSlot_zero : unusedSlot (fun _ => Process.zero) = some 0 := by
  decide

/-- A successful start: the first process has been loaded into the first slot. -/
theorem started_eq (h : Starts boot) : ∃ next mm,
    loadProgram boot.kmem boot.ramdisk (mmInit boot.memory) (.fresh 1) (cstr "/bin/xsh") initArgv
      initEnvp = (true, next, mm) ∧ started boot = boot.enter next mm := by
  rw [Starts, processStartInit] at h
  rw [started, processStartInit]
  have hpid : wrapInt (1 + 1) = 2 := by decide
  simp only [kernelMain, allocateProcess, unusedSlot_zero, Kernel.setProcess,
    Function.update_self, hpid, Function.update_idem] at h ⊢
  split_ifs at h ⊢ with hav
  rcases hr : loadProgram boot.kmem boot.ramdisk (mmInit boot.memory) (.fresh 1)
    (cstr "/bin/xsh") initArgv initEnvp with ⟨_ | _, next, mm⟩
  · simp only [BootInfo.ramdisk] at hr
    rw [hr] at h
    cases h
  · simp only [BootInfo.ramdisk] at hr
    rw [hr]
    exact ⟨next, mm, rfl, rfl⟩

/-- The first process is a fresh one, in which the loader has set four fields. -/
lemma started_fresh (h : Starts boot) : ∃ cr3 entry stack brk mm, started boot =
    boot.enter { Process.fresh 1 with cr3 := cr3, entry := entry, stack := stack, brk := brk } mm := by
  obtain ⟨next, mm, hload, hstart⟩ := started_eq h
  obtain ⟨cr3, entry, stack, brk, hnext⟩ := loadProgram_process boot.kmem boot.ramdisk
    (mmInit boot.memory) (.fresh 1) (cstr "/bin/xsh") initArgv initEnvp
  rw [hload] at hnext
  obtain rfl : next = _ := hnext
  exact ⟨cr3, entry, stack, brk, mm, hstart⟩

lemma enter_first {next : Process} {mm : Mm} : (boot.enter next mm).processes 0 = next := by
  simp [BootInfo.enter]

lemma enter_other {next : Process} {mm : Mm} {i : Slot} (hi : i ≠ 0) :
    (boot.enter next mm).processes i = .zero := by
  simp [BootInfo.enter, hi]

/-- At the start the table holds the first process only. -/
theorem tableInv_started (h : Starts boot) : TableInv (started boot) [] := by
  obtain ⟨cr3, entry, stack, brk, mm, hstart⟩ := started_fresh h
  rw [hstart]
  refine
    { chain := ?_
      nodup := by simp
      running := fun i => ?_
      blocked := fun i => ?_
      parents := ?_
      init := ?_
      unused := ?_ }
  · show ((boot.enter _ mm).processes 0).vforkParent = none
    rw [enter_first]
    rfl
  · show _ ↔ i = 0
    by_cases hi : i = 0
    · rw [hi, enter_first]
      exact ⟨fun _ => rfl, fun _ => rfl⟩
    · rw [enter_other hi]
      exact ⟨fun hs => (by cases hs), fun heq => absurd heq hi⟩
  · by_cases hi : i = 0
    · rw [hi, enter_first]
      exact ⟨fun hs => (by cases hs), fun hmem => (by cases hmem)⟩
    · rw [enter_other hi]
      exact ⟨fun hs => (by cases hs), fun hmem => (by cases hmem)⟩
  · intro i hi p hp
    obtain rfl : i = 0 := List.mem_singleton.mp hi
    rw [enter_first] at hp
    cases hp
  · intro i hi _
    obtain rfl : i = 0 := List.mem_singleton.mp hi
    rw [enter_first]
    rfl
  · intro i hi
    by_cases hi0 : i = 0
    · rw [hi0, enter_first] at hi
      cases hi
    · exact enter_other hi0

/-! ### Process numbers -/

/-- The numbers of the processes in the table. -/
structure PidInv (k : Kernel) : Prop where
  range : ∀ i, (k.processes i).state ≠ .unused →
    1 ≤ (k.processes i).pid ∧ (k.processes i).pid < k.nextPid
  distinct : ∀ i j, (k.processes i).state ≠ .unused → (k.processes j).state ≠ .unused →
    (k.processes i).pid = (k.processes j).pid → i = j

lemma wrapInt_of_lt {n : ℤ} (hpos : 0 ≤ n) (hlt : n < 2 ^ 31) : wrapInt n = n := by
  rw [wrapInt]
  apply Int.bmod_eq_of_le_mul_two
  · omega
  · omega

/-- Only the numbers of the used slots and the counter matter. -/
lemma PidInv.of_same (h : PidInv k) (hnext : k.nextPid ≤ k'.nextPid)
    (hsame : ∀ i, (k'.processes i).state ≠ .unused →
      (k.processes i).state ≠ .unused ∧ (k'.processes i).pid = (k.processes i).pid) :
    PidInv k' where
  range i hi := by
    obtain ⟨hi', hpid⟩ := hsame i hi
    rw [hpid]
    exact ⟨(h.range i hi').1, lt_of_lt_of_le (h.range i hi').2 hnext⟩
  distinct i j hi hj hij := by
    obtain ⟨hi', hpi⟩ := hsame i hi
    obtain ⟨hj', hpj⟩ := hsame j hj
    rw [hpi, hpj] at hij
    exact h.distinct i j hi' hj' hij

lemma PidInv.sameTable (h : PidInv k) (hsame : SameTable k k') : PidInv k' :=
  h.of_same hsame.nextPid.ge fun i hi => by
    rw [hsame.field Process.state fun _ _ _ _ _ _ => rfl] at hi
    exact ⟨hi, hsame.field Process.pid (fun _ _ _ _ _ _ => rfl) i⟩

/-- The child of a `vfork` gets a number that has not been used. -/
lemma PidInv.vforked {slot : Slot} {cr3 : UInt64} {mm : Mm} {frame : SyscallFrame} (h : PidInv k)
    (hinv : TableInv k l) (hslot : (k.processes slot).state = .unused) (hnext : 1 ≤ k.nextPid)
    (hwrap : wrapInt (k.nextPid + 1) = k.nextPid + 1) :
    PidInv (k.vforked frame slot cr3 mm) := by
  have hne : slot ≠ k.currentProcess := by
    rintro rfl
    have hrun := hinv.current_running
    rw [Kernel.current, hslot] at hrun
    cases hrun
  have hnext' : (k.vforked frame slot cr3 mm).nextPid = k.nextPid + 1 := hwrap
  have hchild : ((k.vforked frame slot cr3 mm).processes slot).pid = k.nextPid := by
    rw [vforked_slot hne]
    rfl
  have hother : ∀ i ≠ slot, ((k.vforked frame slot cr3 mm).processes i).state ≠ .unused →
      (k.processes i).state ≠ .unused ∧
        ((k.vforked frame slot cr3 mm).processes i).pid = (k.processes i).pid := by
    intro i hi hused
    refine ⟨?_, k.vforked_field _ _ _ _ Process.pid (fun _ _ => rfl) i hi⟩
    by_cases hcur : i = k.currentProcess
    · rw [hcur, (hinv.running _).mpr rfl]
      exact ProcessState.noConfusion
    · rwa [vforked_other hi hcur] at hused
  constructor
  · intro i hi
    by_cases hislot : i = slot
    · rw [hislot, hchild, hnext']
      omega
    · obtain ⟨hi', hpid⟩ := hother i hislot hi
      have := h.range i hi'
      rw [hpid, hnext']
      omega
  · intro i j hi hj hij
    by_cases hislot : i = slot
    · by_cases hjslot : j = slot
      · rw [hislot, hjslot]
      · obtain ⟨hj', hpj⟩ := hother j hjslot hj
        have := h.range j hj'
        rw [hislot, hchild, hpj] at hij
        omega
    · obtain ⟨hi', hpi⟩ := hother i hislot hi
      by_cases hjslot : j = slot
      · have := h.range i hi'
        rw [hjslot, hchild, hpi] at hij
        omega
      · obtain ⟨hj', hpj⟩ := hother j hjslot hj
        rw [hpi, hpj] at hij
        exact h.distinct i j hi' hj' hij

/-- The event is a call of `vfork`. -/
def Event.isVfork : Event → Bool
  | .syscall frame => syscallNumber frame.rax = .vfork
  | .store _ _ => false

/-- A step takes at most one number, and only `vfork` does. -/
lemma PidInv.step (h : PidInv k) (hinv : TableInv k l) (hnext : 1 ≤ k.nextPid)
    (hbound : e.isVfork = true → k.nextPid + 1 < 2 ^ 31) (hstep : step k e = some k') :
    PidInv k' ∧ 1 ≤ k'.nextPid ∧ k'.nextPid ≤ k.nextPid + (if e.isVfork then 1 else 0) := by
  cases step_cases hstep with
  | stays hlocal =>
    refine ⟨h.sameTable hlocal.sameTable, ?_, ?_⟩
    · rw [hlocal.nextPid]
      exact hnext
    · rw [hlocal.nextPid]
      split_ifs <;> omega
  | @vfork frame r _ hn hvfork =>
    have hv : Event.isVfork (.syscall frame) = true := by simp [Event.isVfork, hn]
    have hwrap := wrapInt_of_lt (n := k.nextPid + 1) (by omega) (hbound hv)
    rw [if_pos hv]
    have hfailed : ∀ mm, PidInv (k.vforkFailed mm) ∧ 1 ≤ (k.vforkFailed mm).nextPid ∧
        (k.vforkFailed mm).nextPid ≤ k.nextPid + 1 := by
      intro mm
      have hn' : (k.vforkFailed mm).nextPid = k.nextPid + 1 := hwrap
      rw [hn']
      refine ⟨h.of_same (by rw [hn']; omega) fun i hi => ⟨hi, rfl⟩, by omega, le_refl _⟩
    have hends := hinv.vfork_ends frame
    rw [hvfork] at hends
    cases hends with
    | full => exact ⟨h, hnext, by omega⟩
    | noFrame => exact hfailed _
    | noCopy => exact hfailed _
    | @done slot cr3 mm mm' hslot =>
      have hn' : (k.vforked frame slot cr3 mm').nextPid = k.nextPid + 1 := hwrap
      rw [hn']
      exact ⟨h.vforked hinv (unusedSlot_some hslot) hnext hwrap, by omega, le_refl _⟩
  | @execve frame path argv envp k₁ hn hexecs =>
    have hsame := hexecs.isLocal.sameTable.trans (sameTable_execveLoaded frame path argv envp)
    rw [hsame.nextPid]
    refine ⟨h.sameTable hsame, hnext, ?_⟩
    split_ifs <;> omega
  | @wait4 frame i k₁ hn hzombie hlocal =>
    have hnext₁ : (k₁.reap i).nextPid = k.nextPid := hlocal.nextPid
    rw [hnext₁]
    refine ⟨(h.sameTable hlocal.sameTable).of_same (le_refl _) fun j hj => ?_, hnext, ?_⟩
    · have hji : j ≠ i := by
        rintro rfl
        rw [reap_self] at hj
        exact hj rfl
      rw [reap_other hji] at hj ⊢
      exact ⟨hj, rfl⟩
    · split_ifs <;> omega
  | @exit frame r _ hn hexit =>
    obtain ⟨parent, l', rfl, -, hne, rfl, -⟩ := hinv.exit_ok hexit
    have hnext₁ : (k.exited frame.rdi parent).nextPid = k.nextPid := rfl
    rw [hnext₁]
    refine ⟨h.of_same (le_refl _) fun i hi => ⟨?_, ?_⟩, hnext, ?_⟩
    · by_cases hip : i = parent
      · rw [hip, (hinv.blocked parent).mpr List.mem_cons_self]
        exact ProcessState.noConfusion
      · by_cases hic : i = k.currentProcess
        · rw [hic, (hinv.running _).mpr rfl]
          exact ProcessState.noConfusion
        · rwa [exited_other hip hic] at hi
    · exact exited_field _ Process.pid (fun _ _ _ => rfl) hne i
    · split_ifs <;> omega

lemma pidInv_started (h : Starts boot) : PidInv (started boot) ∧ (started boot).nextPid = 2 := by
  obtain ⟨cr3, entry, stack, brk, mm, hstart⟩ := started_fresh h
  have hzero : ∀ i, ((started boot).processes i).state ≠ .unused → i = 0 := by
    intro i hi
    by_contra hi0
    rw [hstart, enter_other hi0] at hi
    exact hi rfl
  rw [hstart] at hzero ⊢
  refine ⟨⟨fun i hi => ?_, fun i j hi hj _ => ?_⟩, rfl⟩
  · rw [hzero i hi, enter_first]
    show (1 : ℤ) ≤ 1 ∧ (1 : ℤ) < 2
    omega
  · rw [hzero i hi, hzero j hj]

end Xbks
