import Xbks.Properties.Vfork

/-!
# Failed calls leave no trace

A call of `execve` or `vfork` that fails, at whatever allocation, leaves all processes, their
address spaces and the set of free frames as they were.
-/

namespace Xbks

variable {boot : BootInfo} {es : List Event} {k k' : Kernel} {l : List Slot}
  {frame f : SyscallFrame} {v : UInt64} {F : List UInt64}

/-- Memory is as before, up to the order of the free list. -/
lemma Restored.perm {s s' : Mm} (h : Restored s s' F) :
    ∃ F', Pool s' F' ∧ F'.Perm F ∧ ∀ x ∉ F, s'.mem x = s.mem x := by
  obtain ⟨F', hpool, hF'⟩ := h.pool
  exact ⟨F', hpool, Multiset.coe_eq_coe.mp hF', h.frame⟩

/-- What is left of a failed call: only the next process number, the order of the free list and the
record of accesses may be different. -/
structure Undone (k k' : Kernel) (F : List UInt64) : Prop where
  rest : k' = { k with mm := k'.mm, nextPid := k'.nextPid, accesses := k'.accesses }
  restored : Restored k.mm k'.mm F

lemma Undone.of_reads (h : Reads k k') (hpool : Pool k.mm F) : Undone k k' F := by
  obtain ⟨accesses, rfl⟩ := h
  exact ⟨rfl, .refl hpool⟩

lemma Owned.reads (h : Owned boot.memory k F) (hreads : Reads k k') : Owned boot.memory k' F := by
  obtain ⟨accesses, rfl⟩ := hreads
  exact ⟨h.pool, h.frames, h.nodup, h.isFrame, h.kernel, h.kernelPml4, h.outside, h.upper, h.current,
    h.live⟩

/-- The ways `execve` can fail. -/
lemma undone_execve (howned : Owned boot.memory k F) (hn : syscallNumber frame.rax = .execve)
    (h : processSyscallDispatch frame k = (.ok (v, f), k'))
    (hv : v = negativeErrno .fault ∨ v = negativeErrno .noexec)
    (hfits : ∀ file ∈ executedFile k frame, SegmentsFit k.kmem file) :
    Undone k k' F ∧ f = frame := by
  rw [processSyscallDispatch, hn] at h
  have h : syscallExecve frame k = (.ok (v, f), k') := h
  rcases syscallExecve_cases frame k with ⟨-, hreads, hfault⟩ | ⟨path, argv, envp, k₁, hexecs, heq⟩
  · rw [h] at hreads hfault
    cases hfault _ rfl
    exact ⟨.of_reads hreads howned.pool, rfl⟩
  · rw [h] at heq
    have hends := execveLoaded_ends frame path argv envp k₁
    generalize execveLoaded frame path argv envp k₁ = r at heq hends
    cases hends with
    | failed hload =>
      cases heq
      have hrestored := (howned.reads hexecs.reads).load_failed hexecs hfits hload
      obtain ⟨accesses, rfl⟩ := hexecs.reads
      exact ⟨⟨rfl, hrestored⟩, rfl⟩
    | done hload =>
      cases heq
      rcases hv with hv | hv
      · simp [negativeErrno, Errno.code] at hv
      · simp [negativeErrno, Errno.code] at hv

/-- The ways `vfork` can fail. -/
lemma undone_vfork (hinv : TableInv k l) (howned : Owned boot.memory k F)
    (hn : syscallNumber frame.rax = .vfork)
    (h : processSyscallDispatch frame k = (.ok (v, f), k'))
    (hv : v = negativeErrno .again ∨ v = negativeErrno .nomem) : Undone k k' F ∧ f = frame := by
  rw [processSyscallDispatch, hn] at h
  have hends := hinv.vfork_ends frame
  rw [show syscallVfork frame k = (.ok (v, f), k') from h] at hends
  generalize hr : ((.ok (v, f) : Except Stop (UInt64 × SyscallFrame)), k') = r at hends
  cases hends with
  | full =>
    cases hr
    exact ⟨⟨rfl, .refl howned.pool⟩, rfl⟩
  | noFrame hslot hnew =>
    cases hr
    exact ⟨⟨rfl, createKernelMappedPml4_zero howned hnew⟩, rfl⟩
  | noCopy hslot hnew hcr3 hclone =>
    cases hr
    obtain ⟨_, hcopied⟩ := vfork_copied howned hinv hnew hcr3 hclone
    exact ⟨⟨rfl, hcopied.restored⟩, rfl⟩
  | done =>
    cases hr
    rcases hv with hv | hv
    · simp [negativeErrno, Errno.code] at hv
    · simp [negativeErrno, Errno.code] at hv

/-- The processor translates every address of a kept address space as before. -/
lemma Kept.mmuTranslate {F' : List UInt64} {i : Slot} (h : Kept i k k') (hboot : boot.memory.Valid)
    (howned : Owned boot.memory k F) (howned' : Owned boot.memory k' F')
    (hi : (k.processes i).cr3 ≠ 0) (a : UInt64) :
    mmuTranslate k'.mm (k.processes i).cr3 a = mmuTranslate k.mm (k.processes i).cr3 a := by
  have hmem := h.mem
  rw [liveNodes_of_ne hi] at hmem
  have hkernel : ∀ n t, KernelTable boot.memory.mem (boot.memory.cr3 &&& ~~~0xfff) n t →
      k.mm.mem t = boot.memory.mem t ∧ k'.mm.mem t = boot.memory.mem t := fun n t ht =>
    ⟨howned.outside t (hboot.kernel_notMem ht), howned'.outside t (hboot.kernel_notMem ht)⟩
  refine mmuTranslate_congr (fun x hx => hmem x (Radix.mem_nodes_of_mem_tables hx))
    (fun j hj => ?_) hkernel a
  rw [howned.upper i hi j hj, howned.kernelPml4, (hkernel _ _ .root).1]

/-- A call of `execve` that answers `-EFAULT` or `-ENOEXEC`, or of `vfork` that answers `-EAGAIN` or
`-ENOMEM`, in any state of any run: the frame, every process record, the current process, every
translation and page of every live process and the set of free frames are as before. -/
theorem failed_call_undone (hboot : boot.memory.Valid) (hinit : InitFits boot) (hstart : Starts boot)
    (hrun : Run ExecFits (started boot) es k)
    (h : processSyscallDispatch frame k = (.ok (v, f), k'))
    (hfailed : syscallNumber frame.rax = .execve ∧
        (v = negativeErrno .fault ∨ v = negativeErrno .noexec) ∧
        (∀ file ∈ executedFile k frame, SegmentsFit k.kmem file) ∨
      syscallNumber frame.rax = .vfork ∧ (v = negativeErrno .again ∨ v = negativeErrno .nomem)) :
    f = frame ∧ k'.currentProcess = k.currentProcess ∧ k'.processes = k.processes ∧
      k' = { k with mm := k'.mm, nextPid := k'.nextPid, accesses := k'.accesses } ∧
      (∃ F F', Pool k.mm F ∧ Pool k'.mm F' ∧ F'.Perm F ∧ ∀ x ∉ F, k'.mm.mem x = k.mm.mem x) ∧
      ∀ i, (k.processes i).state ≠ .unused → ∀ a,
        mmuTranslate k'.mm (k.processes i).cr3 a = mmuTranslate k.mm (k.processes i).cr3 a ∧
        (a < userTop → vmmTranslate k'.mm (k.processes i).cr3 a =
            vmmTranslate k.mm (k.processes i).cr3 a ∧
          ∀ physical, vmmTranslate k.mm (k.processes i).cr3 a = some physical →
            k'.mm.byte physical = k.mm.byte physical) := by
  obtain ⟨l, F, hinv, howned⟩ := owned_of_run hboot hinit hstart hrun
  obtain ⟨hundone, hf⟩ : Undone k k' F ∧ f = frame := by
    rcases hfailed with ⟨hn, hv, hfits⟩ | ⟨hn, hv⟩
    · exact undone_execve howned hn h hv hfits
    · exact undone_vfork hinv howned hn h hv
  have hrest := hundone.rest
  have hproc : k'.processes = k.processes := by rw [hrest]
  have hcur : k'.currentProcess = k.currentProcess := by rw [hrest]
  have hcr3 : ∀ j, (k'.processes j).cr3 = (k.processes j).cr3 := fun j => by rw [hproc]
  obtain ⟨F', howned', hkept⟩ := howned.restored_step hundone.restored rfl hcr3
    (by rw [hrest]; exact howned.current) (by rw [hproc]; exact howned.live)
  obtain ⟨F'', hpool'', hperm, hmem⟩ := hundone.restored.perm
  refine ⟨hf, hcur, hproc, hrest, ⟨F, F'', howned.pool, hpool'', hperm, hmem⟩, fun i hi a => ?_⟩
  have hne := howned.live i hi
  refine ⟨(hkept i).mmuTranslate hboot howned howned' hne a, fun ha => ?_⟩
  exact ⟨(hkept i).translate hne ha, fun physical ht => (hkept i).byte hne ha ht⟩

/-! ### A call that fails on the way -/

/-- An ELF file with two segments. The first one is a page at 0x20000; the second one is refused. -/
def partialProgram : List UInt8 := elfHeaderBytes 2 ++ segmentBytes 0 0x20000 176 0x1000 ++ segmentBytes 0 0 0 0

/-- The small machine with this program in its archive. -/
def partialBoot : BootInfo :=
  { smallBoot 0x10000 with
    kmem := fun a => ([archiveHeader "bin/xsh" "00000000170", elfBytes 0x10000 0 0x10000 120 0x1000,
      archiveHeader "p" "00000000260", partialProgram].getD ((a.toNat - 0x1000) / 512) []).getD
        (a.toNat % 512) 0
    modules := some [some ⟨0x1000, 0x800, some (cstr "ramdisk"), none⟩] }

def partialFile : RamdiskFile :=
  { path := cstr "/p", data := 0x1600, size := 176, directory := false, executable := true }

lemma partialSmall : SmallProgram partialBoot 0x10000 where
  available := by decide +kernel
  file := by decide +kernel
  header := by decide +kernel
  segment := by decide +kernel

/-- An archive with the program. -/
abbrev PartialArchived (boot : BootInfo) (path : CString) : Prop :=
  Archived boot path partialFile overwritingHeader ⟨1, 0, 0x20000, 176, 0x1000⟩ ⟨1, 0, 0, 0, 0⟩

lemma partial_archived : PartialArchived partialBoot (cstr "p") where
  found := by decide +kernel
  valid := by decide +kernel
  first := by decide +kernel
  second := by decide +kernel

lemma partialBoot_starts : Starts partialBoot :=
  partialSmall.starts (smallBoot_valid 0x10000) (by
    change 85 < (smallBoot 0x10000).memory.handedFrames.length
    rw [smallBoot_frames]
    norm_num)

variable {path : CString}

/-- Only the first segment is accepted. -/
lemma PartialArchived.loadable (h : PartialArchived boot path) {i : ℕ}
    (hi : Loadable boot.kmem partialFile overwritingHeader i) : i = 0 := by
  have hlt : i < 2 := hi.1
  by_contra hne
  obtain rfl : i = 1 := by omega
  have haccepted := hi.2.2
  rw [h.second] at haccepted
  exact absurd haccepted (by decide)

lemma PartialArchived.fits (h : PartialArchived boot path) : SegmentsFit boot.kmem partialFile := by
  intro header hheader i hload _
  rw [h.valid, Option.some.injEq] at hheader
  subst hheader
  rw [h.loadable hload, h.first, ProgramHeader.Fits]
  decide

lemma PartialArchived.loads (h : PartialArchived boot path) :
    Loads boot.kmem partialFile overwritingHeader [0] where
  index i hi := by
    rw [List.mem_singleton.mp hi]
    decide
  accepted i hi _ := by
    rw [List.mem_singleton.mp hi, h.first]
    decide
  fits i hi _ := by
    rw [List.mem_singleton.mp hi, h.first, ProgramHeader.Fits]
    decide
  apart := List.pairwise_singleton _ 0

lemma PartialArchived.refused (h : PartialArchived boot path) (s : Mm) (process : Process) :
    (loadElfIntoProcess boot.kmem s process partialFile).1 = false := by
  have hsecond : ∀ s, (loadSegment boot.kmem process.cr3 partialFile overwritingHeader s 1).1 = false := by
    intro s
    rw [loadSegment, h.second]
    rfl
  rw [(loadElfIntoProcess_some s process h.valid).1, show List.range overwritingHeader.phnum.toNat = [0, 1] from rfl]
  cases hfirst : (loadSegment boot.kmem process.cr3 partialFile overwritingHeader (s.noteReads 0 64) 0).1 with
  | false =>
    rw [Loop.forWhile_cons_false hfirst]
  | true =>
    rw [Loop.forWhile_cons_true hfirst, Loop.forWhile_cons_false (hsecond _)]

lemma PartialArchived.fails (h : PartialArchived boot path) (s : Mm) (process : Process) : ∃ next mm,
    loadProgram boot.kmem boot.ramdisk s process path [] [] = (false, next, mm) := by
  have hexec : ¬(¬partialFile.executable = true ∨ partialFile.directory = true) := by decide
  rw [loadProgram, h.found]
  simp only [if_neg hexec]
  rcases createKernelMappedPml4 s with ⟨cr3, s₁⟩
  by_cases hcr3 : cr3 = 0
  · simp only [if_pos hcr3]
    exact ⟨_, _, rfl⟩
  · have hrefused := h.refused s₁ { process with cr3 := cr3 }
    simp only [if_neg hcr3]
    rcases hload : loadElfIntoProcess boot.kmem s₁ { process with cr3 := cr3 } partialFile with
      ⟨ok, next, s₂⟩
    rw [hload] at hrefused
    subst hrefused
    exact ⟨_, _, rfl⟩

/-- The first process of this machine stores the path of the program and calls `execve`, which loads the first
segment into a new address space and fails. -/
theorem failed_call_undone_small : ∃ k cr3 s k',
    Run ExecFits (started partialBoot) [.store 0x10000 112, .store 0x10001 0] k ∧
    createKernelMappedPml4 k.mm = (cr3, s) ∧ cr3 ≠ 0 ∧
    (Loop.forWhile (loadSegment k.kmem cr3 partialFile overwritingHeader) s [0]).1 = true ∧
    processSyscallDispatch overwritingCall k = (.ok (negativeErrno .noexec, overwritingCall), k') ∧
    k'.processes = k.processes ∧ ∃ F F', Pool k.mm F ∧ Pool k'.mm F' ∧ F'.Perm F := by
  have hvalid : partialBoot.memory.Valid := smallBoot_valid 0x10000
  have hprogram := partialSmall
  have harchived := partial_archived
  have hinit := hprogram.initFits
  have hstart := partialBoot_starts
  obtain ⟨F₀, howned₀, hlen⟩ := owned_started hvalid hinit hstart
  have hlen := hlen _ hprogram.file
  have hframes : partialBoot.memory.handedFrames.length = 4096 := smallBoot_frames 0x10000
  rw [hprogram.cost, hframes, ← howned₀.pool.toNat_freeFrameCount] at hlen
  have htidy : Tidy partialBoot (started partialBoot) := ⟨[], F₀, tableInv_started hstart, howned₀⟩
  have hhas : (started partialBoot).view.Has 0x10000 2 :=
    fun x hge hlt => hprogram.has hvalid hstart x hge (by omega)
  obtain ⟨k, hrun, hstored, hcount, hpath⟩ := stores_letter .nil htidy.intact hhas (show (112 : UInt8) ≠ 0 by decide)
  have hrun : Run ExecFits (started partialBoot) [.store 0x10000 112, .store 0x10001 0] k := hrun
  obtain ⟨l, F, hinv, howned⟩ := owned_of_run hvalid hinit hstart hrun
  obtain ⟨hkmem, hramdisk⟩ := archive_of_run hstart hrun
  rw [← hcount, howned.pool.toNat_freeFrameCount] at hlen
  -- the first segment is loaded
  rcases createKernelMappedPml4_spec howned.pool howned.kernel_free with ⟨rfl, -⟩ | ⟨q, F₁, s, rfl, hnew, hspace⟩
  · rw [List.length_nil] at hlen
    omega
  have hq : q ≠ 0 := (howned.pool.frames q List.mem_cons_self).ne_zero
  have hbuilt : Built ∅ q k.mm s (q :: F₁) F₁ := hspace.built
  have hcost : ([0].map (segmentCost partialBoot.kmem partialFile overwritingHeader)).sum = 12 := by
    rw [List.map_singleton, List.sum_singleton, segmentCost, harchived.first]
    rfl
  rw [List.length_cons] at hlen
  have hfirst := harchived.loads.loadSegments hspace.pool (hbuilt.separate howned.pool.nodup)
    (fun _ _ _ path _ => hspace.lookup path) (by rw [hcost]; omega)
  -- the second one is refused
  obtain ⟨next, mm, hload⟩ := harchived.fails k.mm { k.current with cr3 := 0 }
  have hexecuted : executedFile k overwritingCall = some partialFile := by
    obtain ⟨k₁, hcopy, -⟩ : ∃ k₁, copyUserString maxString overwritingCall.rdi k = (.ok (some [112]), k₁) ∧
      Reads k k₁ := copyUserString_holds (by norm_num) hpath (by decide) (by decide)
    rw [executedFile, hcopy, hkmem, hramdisk]
    exact harchived.found
  rw [← hkmem, ← hramdisk] at hload
  rw [← hkmem] at hfirst
  obtain ⟨accesses, hcall⟩ := dispatch_overwriting hpath (by decide) hload
  have hfits : ∀ file ∈ executedFile k overwritingCall, SegmentsFit k.kmem file := by
    intro file hfile
    rw [hexecuted] at hfile
    cases hfile
    rw [hkmem]
    exact harchived.fits
  obtain ⟨-, -, hsame, -, ⟨F, F', hpool, hpool', hperm, -⟩, -⟩ := failed_call_undone hvalid hinit hstart hrun hcall
    (.inl ⟨by decide, .inr rfl, hfits⟩)
  exact ⟨k, q, s, _, hrun, hnew, hq, hfirst, hcall, hsame, F, F', hpool, hpool', hperm⟩

end Xbks
