import Xbks.Process.Descriptors
import Xbks.Process.Contents
import Xbks.Properties.Break
import Xbks.Properties.Listing

/-!
# The heap

The pages from the start of the heap to the break are mapped in every process. Only `brk` moves the
break of a process that goes on running its program, and it does so after the pages have been mapped;
`vfork` copies the break with the address space, and `execve` starts with an empty heap.
-/

namespace Xbks

open Prog (keeps_pure keeps_bind keeps_get_bind keeps_modify keeps_ite)

variable {s s' : Mm} {F F' : List UInt64} {p v flags : UInt64} {k k' k₁ : Kernel} {l : List Slot}
  {e : Event} {frame : SyscallFrame} {i : Slot}

/-! ### Handlers that leave the breaks alone -/

def SameBreaks (k k' : Kernel) : Prop := ∀ i, (k'.processes i).brk = (k.processes i).brk

section SameBreaks

variable {α β : Type}

lemma SameBreaks.refl (k : Kernel) : SameBreaks k k := fun _ => rfl

lemma SameBreaks.trans (h : SameBreaks k k₁) (h' : SameBreaks k₁ k') : SameBreaks k k' :=
  fun i => (h' i).trans (h i)

instance : IsPreorder Kernel SameBreaks where
  refl := SameBreaks.refl
  trans _ _ _ h h' := h.trans h'

lemma SameRecords.sameBreaks (h : SameRecords k k') : SameBreaks k k' := by
  intro i
  rw [h.processes]

lemma sameBreaks_setFd (k : Kernel) (i : Fin 16) (fd : ProcessFd) : SameBreaks k (k.setFd i fd) := by
  intro j
  by_cases hj : j = k.currentProcess
  · simp [Kernel.setFd, Kernel.setCurrent, Kernel.setProcess, Kernel.current, hj]
  · simp [Kernel.setFd, Kernel.setCurrent, Kernel.setProcess, hj]

/-- A handler that does not touch the records at all. -/
lemma breaks_of_same {m : KernelM α} (h : Prog.Keeps SameRecords m) : Prog.Keeps SameBreaks m :=
  fun k => (h k).sameBreaks

/-- A handler that changes a descriptor at its end. -/
lemma breaks_setFd (i : Fin 16) (fd : ProcessFd) (a : α) :
    Prog.Keeps SameBreaks (Prog.modify (fun k => k.setFd i fd) >>= fun _ => (pure a : KernelM α)) :=
  keeps_bind (keeps_modify fun k => sameBreaks_setFd k i fd) fun _ => keeps_pure a

lemma breaks_syscallRead (fd bufferAddress count : UInt64) :
    Prog.Keeps SameBreaks (syscallRead fd bufferAddress count) := by
  refine keeps_ite (fun _ => keeps_pure _) fun _ => keeps_get_bind fun k => ?_
  cases fdIndex fd with
  | none => exact keeps_pure _
  | some i =>
    cases htype : (k.current.fds i).type with
    | none | stdout | stderr | dir =>
      simp only [htype]
      exact keeps_pure _
    | stdin =>
      simp only [htype]
      exact breaks_of_same (keeps_bind (same_readKeyboard _ _ _) fun _ => keeps_pure _)
    | file =>
      simp only [htype]
      refine keeps_ite (fun _ => keeps_pure _) fun _ => ?_
      exact keeps_bind (breaks_of_same (same_writeUserBytes _ _ _)) fun _ => breaks_setFd _ _ _

lemma breaks_syscallOpen (pathAddress : UInt64) :
    Prog.Keeps SameBreaks (syscallOpen pathAddress) := by
  refine keeps_get_bind fun k => ?_
  cases allocateFd k.current with
  | none => exact keeps_pure _
  | some i =>
    refine keeps_bind (fun k => (reads_copyUserString _ _ k).sameRecords.sameBreaks) fun path => ?_
    cases path with
    | none => exact keeps_pure _
    | some path =>
      cases hfile : ramdiskFind k.kmem k.ramdisk path with
      | none =>
        simp only [hfile]
        exact keeps_pure _
      | some file =>
        simp only [hfile]
        exact breaks_setFd _ _ _

lemma breaks_syscallClose (fd : UInt64) : Prog.Keeps SameBreaks (syscallClose fd) := by
  refine keeps_get_bind fun k => ?_
  cases fdIndex fd with
  | none => exact keeps_pure _
  | some i => exact keeps_ite (fun _ => keeps_pure _) fun _ => breaks_setFd _ _ _

lemma breaks_syscallLseek (fd offset whence : UInt64) :
    Prog.Keeps SameBreaks (syscallLseek fd offset whence) := by
  intro k
  rcases syscallLseek_cases fd offset whence k with ⟨error, h⟩ | ⟨i, next, -, h⟩
  · rw [h]
    exact SameBreaks.refl k
  · rw [h]
    exact sameBreaks_setFd k i _

lemma breaks_getdentsFrom (i : Fin 16) (buffer count written : UInt64) (fuel : ℕ) :
    Prog.Keeps SameBreaks (getdentsFrom i buffer count fuel written) := by
  induction fuel generalizing written with
  | zero => exact keeps_pure _
  | succ fuel ih =>
    refine keeps_get_bind fun k => ?_
    dsimp only
    cases ramdiskReadDir k.kmem k.ramdisk (k.current.fds i).file.path (k.current.fds i).offset with
    | none => exact keeps_pure _
    | some child =>
      refine keeps_ite (fun _ => keeps_pure _) fun _ => ?_
      refine keeps_bind (breaks_of_same (same_writeUserBytes _ _ _)) fun _ => ?_
      exact keeps_bind (keeps_modify fun k => sameBreaks_setFd k i _) fun _ => ih _

lemma breaks_syscallGetdents64 (fd direntAddress count : UInt64) :
    Prog.Keeps SameBreaks (syscallGetdents64 fd direntAddress count) := by
  refine keeps_get_bind fun k => ?_
  cases fdIndex fd with
  | none => exact keeps_pure _
  | some i =>
    refine keeps_ite (fun _ => keeps_pure _) fun _ => ?_
    exact keeps_ite (fun _ => keeps_pure _) fun _ => breaks_getdentsFrom _ _ _ _ _

/-- The calls that change neither the break nor the program or the number of processes. -/
def IsPlain (number : SyscallNumber) : Prop :=
  number ≠ .brk ∧ number ≠ .vfork ∧ number ≠ .execve ∧ number ≠ .wait4 ∧ number ≠ .exit

lemma breaks_withFrame {handler : KernelM UInt64} (h : Prog.Keeps SameBreaks handler) :
    Prog.Keeps SameBreaks (withFrame frame handler) :=
  keeps_bind h fun _ => keeps_pure _

theorem breaks_dispatch (h : IsPlain (syscallNumber frame.rax)) :
    Prog.Keeps SameBreaks (processSyscallDispatch frame) := by
  obtain ⟨hbrk, hvfork, hexecve, hwait4, hexit⟩ := h
  rw [processSyscallDispatch]
  cases hn : syscallNumber frame.rax with
  | read => exact breaks_withFrame (breaks_syscallRead _ _ _)
  | write => exact breaks_withFrame (breaks_of_same (same_syscallWrite _ _ _))
  | «open» | openat => exact breaks_withFrame (breaks_syscallOpen _)
  | close => exact breaks_withFrame (breaks_syscallClose _)
  | lseek => exact breaks_withFrame (breaks_syscallLseek _ _ _)
  | access => exact breaks_withFrame (breaks_of_same (same_syscallAccess _))
  | getdents64 => exact breaks_withFrame (breaks_syscallGetdents64 _ _ _)
  | getcwd => exact breaks_withFrame (breaks_of_same (same_syscallGetcwd _ _))
  | uname => exact breaks_withFrame (breaks_of_same (same_syscallUname _))
  | getpid | getppid => exact breaks_withFrame (keeps_get_bind fun _ => keeps_pure _)
  | getuid | schedYield | unknown => exact breaks_withFrame (keeps_pure _)
  | brk => exact absurd hn hbrk
  | vfork => exact absurd hn hvfork
  | execve => exact absurd hn hexecve
  | wait4 => exact absurd hn hwait4
  | exit => exact absurd hn hexit

end SameBreaks

/-! ### Pages of the heap -/

/-- The page at `v` is mapped for the user to write. -/
def WritablePage (s : Mm) (p v : UInt64) : Prop :=
  ∃ e, s.lookup 4 p (pathOf v) = some e ∧ e &&& (pageUser ||| pageWritable) = pageUser ||| pageWritable

/-- The break of a process is in the range of the heap, and the pages up to it are mapped. -/
structure HeapOf (s : Mm) (process : Process) : Prop where
  low : 0x800000 ≤ process.brk.toNat
  high : process.brk.toNat < 0x10000000
  backed : ∀ v : UInt64, v.toNat % 4096 = 0 → 0x800000 ≤ v.toNat →
    v.toNat < (alignUp process.brk pageSize).toNat → WritablePage s process.cr3 v

/-- Every process has a heap. -/
def HeapBacked (k : Kernel) : Prop :=
  ∀ i, (k.processes i).cr3 ≠ 0 → HeapOf k.mm (k.processes i)

lemma Growth.writablePage {A : Set (List (Fin 512))} (h : Growth A p s s' F F')
    (hv : WritablePage s p v) : WritablePage s' p v := by
  obtain ⟨e, he, hbits⟩ := hv
  exact ⟨e, h.kept _ e he, hbits⟩

/-- A heap without pages. -/
lemma HeapOf.empty {process : Process} (h : process.brk = 0x800000) : HeapOf s process := by
  refine ⟨?_, ?_, fun v hal hge hlt => ?_⟩
  · rw [h]
    decide
  · rw [h]
    decide
  · rw [h, show (alignUp 0x800000 pageSize).toNat = 0x800000 from rfl] at hlt
    omega

/-- The break and the mapped pages are all that matters. -/
lemma HeapOf.mono {process process' : Process} (h : HeapOf s process)
    (hbrk : process'.brk = process.brk)
    (hpages : ∀ v, WritablePage s process.cr3 v → WritablePage s' process'.cr3 v) :
    HeapOf s' process' where
  low := by rw [hbrk]; exact h.low
  high := by rw [hbrk]; exact h.high
  backed v hal hge hlt := by
    rw [hbrk] at hlt
    exact hpages v (h.backed v hal hge hlt)

/-- Mapping a page with user access. -/
lemma mapUserPage_writable (hpool : Pool s F) (hsep : Separate s 4 p F) (hv : UserPage v)
    (h : (mapUserPage s p v pageWritable).1 = true) :
    WritablePage (mapUserPage s p v pageWritable).2 p v := by
  rw [mapUserPage_eq] at h ⊢
  obtain ⟨q, page, F', hmap, hnew⟩ := mapNew_spec (fun _ => zeroPage) hpool hsep
    (lowerHalf_of_lt hv.lt) hv.aligned (show (pageWritable ||| pageUser).toNat < 4096 by decide)
  refine ⟨_, by rw [hmap.lookup, if_pos ⟨h, rfl⟩], ?_⟩
  rw [UInt64.or_assoc, UInt64.or_comm (pageWritable ||| pageUser), ← UInt64.or_assoc,
    UInt64.or_comm pageWritable]
  exact Word.or_and_self _ _

/-- The loop of `syscall_brk`. -/
lemma mapUserPages_writable {pages : List UInt64} (hpool : Pool s F) (hsep : Separate s 4 p F)
    (hpages : ∀ v ∈ pages, UserPage v)
    (h : Loop.forWhile (fun s page => mapUserPage s p page pageWritable) s pages = (true, s')) :
    ∀ v ∈ pages, WritablePage s' p v := by
  have hflags : (pageWritable ||| pageUser).toNat < 4096 := by decide
  induction pages generalizing s F with
  | nil => simp
  | cons v vs ih =>
    obtain ⟨hv, hvs⟩ := List.forall_mem_cons.mp hpages
    obtain ⟨F₁, h₁, -⟩ := mapUserPage_spec hpool hsep hv hflags
    cases hr : (mapUserPage s p v pageWritable).1 with
    | false =>
      rw [Loop.forWhile_cons_false hr] at h
      cases h
    | true =>
      rw [Loop.forWhile_cons_true hr] at h
      have hsep₁ := h₁.toConserved.separate hsep
      refine List.forall_mem_cons.mpr ⟨?_, ih h₁.pool hsep₁ hvs h⟩
      obtain ⟨F₂, h₂⟩ := mapUserPages_spec pageWritable h₁.pool hsep₁ hvs hflags
      rw [h] at h₂
      exact h₂.toGrowth.writablePage (mapUserPage_writable hpool hsep hv hr)

/-- A copy of a page has the same access bits. -/
lemma CopyOf.writablePage {e e' : UInt64} (h : CopyOf s s' e e')
    (hbits : e &&& (pageUser ||| pageWritable) = pageUser ||| pageWritable) :
    e' &&& (pageUser ||| pageWritable) = pageUser ||| pageWritable := by
  have hlow : ∀ x : UInt64, clonePageFlags x &&& (pageUser ||| pageWritable) =
      x &&& (pageUser ||| pageWritable) := by
    intro x
    rw [clonePageFlags, UInt64.and_assoc]
    rfl
  rw [← hlow, h.flags, hlow, hbits]

/-! ### Steps -/

section Steps

variable {boot : BootMemory}

/-- A process whose address space and break have been kept. -/
lemma HeapOf.kept (h : HeapOf k.mm (k.processes i)) (hkept : Kept i k k')
    (hi : (k.processes i).cr3 ≠ 0) (hbrk : (k'.processes i).brk = (k.processes i).brk) :
    HeapOf k'.mm (k'.processes i) := by
  refine h.mono hbrk fun v hv => ?_
  rw [WritablePage, hkept.lookup hi]
  exact hv

/-- One process has got a new heap, the others have been kept. -/
lemma HeapBacked.update (h : HeapBacked k) (hkept : ∀ j ≠ i, Kept j k k')
    (hbrk : ∀ j ≠ i, (k'.processes j).brk = (k.processes j).brk)
    (hself : (k'.processes i).cr3 ≠ 0 → HeapOf k'.mm (k'.processes i)) : HeapBacked k' :=
  forall_live h hkept (fun j hj hne hheap => hheap.kept (hkept j hj) hne (hbrk j hj)) hself

lemma HeapBacked.kept (h : HeapBacked k) (hkept : ∀ j, Kept j k k') (hbrk : SameBreaks k k') :
    HeapBacked k' := by
  refine h.update (i := k.currentProcess) (fun j _ => hkept j) (fun j _ => hbrk j) fun hne => ?_
  rw [(hkept _).cr3] at hne
  exact (h _ hne).kept (hkept _) hne (hbrk _)

/-- A step inside the process that does not move the break. -/
lemma HeapBacked.local_step (h : HeapBacked k) (howned : Owned boot k F) (hinv : TableInv k l)
    (hlocal : Local k k') (hbrk : SameBreaks k k') : HeapBacked k' := by
  obtain ⟨F', hex, hg⟩ := hlocal.exchange howned hinv
  refine h.update (fun j hj => hex.kept howned hj) (fun j _ => hbrk j) fun hne => ?_
  have hcr3 := hlocal.cr3_field k.currentProcess
  rw [hcr3] at hne
  refine (h _ hne).mono (hbrk _) fun v hv => ?_
  rw [hcr3]
  exact hg.writablePage hv

/-- The pages below the new break were below the old one, or have been mapped. -/
lemma HeapBacked.brk_step (h : HeapBacked k) (howned : Owned boot k F) (hinv : TableInv k l)
    (r : UInt64) : HeapBacked (syscallBrk r k).2 := by
  by_cases hrefused : Refused k r
  · rw [syscallBrk_refused hrefused]
    exact h
  have hne : (k.processes k.currentProcess).cr3 ≠ 0 := howned.current_ne hinv
  have hcur : HeapOf k.mm k.current := h k.currentProcess hne
  have hlocal := keeps_syscallBrk r k
  obtain ⟨F', hex, hg⟩ := hlocal.exchange howned hinv
  refine h.update (fun j hj => hex.kept howned hj) (fun j hj => by rw [hlocal.others j hj]) fun _ => ?_
  rw [syscallBrk_loop hrefused] at hg ⊢
  rcases hr : Loop.forWhile (fun s page => mapUserPage s k.current.cr3 page pageWritable) k.mm
    (breakPages k r) with ⟨_ | _, mm⟩
  · rw [hr] at hg
    exact hcur.mono rfl fun v hv => hg.writablePage hv
  · rw [hr] at hg
    have hself : ({ k with mm := mm }.setCurrent { k.current with brk := r }).processes
        k.currentProcess = { k.current with brk := r } := by
      simp [Kernel.setCurrent, Kernel.setProcess]
    dsimp only
    rw [hself]
    obtain ⟨hle, hlt⟩ := not_refused hrefused
    refine ⟨hcur.low.trans hle, hlt, fun v hal hge hv => ?_⟩
    by_cases hold : v.toNat < (alignUp k.current.brk pageSize).toNat
    · exact hg.writablePage (hcur.backed v hal hge hold)
    · refine mapUserPages_writable howned.pool (howned.separate hne)
        (fun v hv => breakPages_userPage hrefused hv) hr v ?_
      have hold' := toNat_alignUp (v := k.current.brk) (by omega)
      have hnew := toNat_alignUp (v := r) (by omega)
      dsimp only at hv
      rw [breakPages, mem_pagesBetween (by omega) (by omega)]
      omega

lemma HeapBacked.vfork_step {r : UInt64 × SyscallFrame} (h : HeapBacked k) (howned : Owned boot k F)
    (hinv : TableInv k l) (hvfork : syscallVfork frame k = (.ok r, k')) : HeapBacked k' := by
  have hends := hinv.vfork_ends frame
  rw [hvfork] at hends
  cases hends with
  | full => exact h
  | noFrame hslot hnew =>
    obtain ⟨_, -, hkept⟩ := howned.vforkFailed_step (createKernelMappedPml4_zero howned hnew)
    exact h.kept hkept fun _ => rfl
  | noCopy hslot hnew hcr3 hclone =>
    obtain ⟨_, hcopied⟩ := vfork_copied howned hinv hnew hcr3 hclone
    obtain ⟨_, -, hkept⟩ := howned.vforkFailed_step hcopied.restored
    exact h.kept hkept fun _ => rfl
  | @done slot cr3 _ mm' hslot hnew hcr3 hclone =>
    have hunused := unusedSlot_some hslot
    have hne : slot ≠ k.currentProcess := (hinv.ne_unused List.mem_cons_self hunused).symm
    obtain ⟨_, -, hcopied, hkept⟩ := howned.vforked_step frame hinv hunused hnew hcr3 hclone
    refine h.update hkept (k.vforked_field frame slot cr3 mm' Process.brk fun _ _ => rfl) fun _ => ?_
    rw [vforked_slot hne]
    refine (h k.currentProcess (howned.current_ne hinv)).mono rfl fun v hv => ?_
    obtain ⟨e, he, hbits⟩ := hv
    have hcopy := hcopied.pages rfl (pathOf v)
    rw [show k.mm.lookup 4 k.current.cr3 (pathOf v) = some e from he] at hcopy
    generalize hcopied' : mm'.lookup 4 cr3 (pathOf v) = e' at hcopy
    cases hcopy with
    | some hcopy => exact ⟨_, hcopied', hcopy.writablePage hbits⟩

/-- A new program has a heap without pages. -/
lemma HeapBacked.execve_step {path : CString} {argv envp : List CString} (h : HeapBacked k)
    (howned : Owned boot k F) (hinv : TableInv k l) (hexecs : Execs frame path argv envp k k₁)
    (hok : ∀ file ∈ executedFile k frame, SegmentsFit k.kmem file) :
    HeapBacked (execveLoaded frame path argv envp k₁).2 := by
  have h₁ := h.local_step howned hinv hexecs.isLocal hexecs.reads.sameRecords.sameBreaks
  obtain ⟨F₁, howned₁, -⟩ := howned.local_step hinv hexecs.isLocal
  have hinv₁ := hexecs.isLocal.sameTable.inv hinv
  have hends := execveLoaded_ends frame path argv envp k₁
  generalize execveLoaded frame path argv envp k₁ = r at hends
  cases hends with
  | failed hload =>
    obtain ⟨_, -, hkept⟩ := howned₁.unloaded_step (howned₁.load_failed hexecs hok hload)
    exact h₁.kept hkept fun _ => rfl
  | @done next mm hload =>
    obtain ⟨file, -, hloaded⟩ := howned₁.load_done hexecs hok hload
    rw [← hexecs.isLocal.kmem] at hloaded
    obtain ⟨_, -, hkept⟩ := howned₁.execed_step hinv₁ hloaded
    refine h₁.update hkept (fun j hj => ?_) fun _ => .empty ?_
    · simp [Kernel.execed, hj]
    · obtain ⟨header, stack, -, hnext, -⟩ := hloaded.process
      have hbrk : next.brk = 0x800000 := by rw [hnext]
      simp [Kernel.execed, hbrk]

lemma HeapBacked.wait4_step (h : HeapBacked k) (howned : Owned boot k F) (hinv : TableInv k l)
    (pid statusAddress : UInt64) : HeapBacked (syscallWait4 pid statusAddress k).2 := by
  obtain ⟨k₁, hlocal, hsame, hend⟩ := syscallWait4_records pid statusAddress k
  have h₁ := h.local_step howned hinv hlocal hsame.sameBreaks
  rcases hend with hend | ⟨i, hzombie, hend⟩
  · rw [hend]
    exact h₁
  · obtain ⟨_, howned₁, -⟩ := howned.local_step hinv hlocal
    have hz : (k₁.processes i).state = .zombie := by
      rw [hsame.processes]
      exact (zombieChild_some hzombie).1
    obtain ⟨_, -, hkept⟩ := howned₁.reap_step (hlocal.sameTable.inv hinv) hz
    rw [hend]
    refine h₁.update hkept (fun j hj => by rw [reap_other hj]) fun hne => ?_
    rw [reap_self] at hne
    exact absurd rfl hne

lemma HeapBacked.exit_step {r : UInt64 × SyscallFrame} (h : HeapBacked k) (howned : Owned boot k F)
    (hinv : TableInv k l) (hexit : syscallExit frame frame.rdi k = (.ok r, k')) : HeapBacked k' := by
  obtain ⟨parent, l', rfl, -, hne, rfl, -⟩ := hinv.exit_ok hexit
  obtain ⟨_, -, hkept⟩ := howned.exited_step hinv frame.rdi hne
  exact h.kept hkept (exited_field frame.rdi Process.brk (fun _ _ _ => rfl) hne)

/-- A system call that stays in the process and leaves the break alone. -/
lemma HeapBacked.plain_step (h : HeapBacked k) (howned : Owned boot k F) (hinv : TableInv k l)
    (hplain : IsPlain (syscallNumber frame.rax)) : HeapBacked (processSyscallDispatch frame k).2 := by
  have hbrk := breaks_dispatch hplain k
  obtain ⟨-, hvfork, hexecve, hwait4, hexit⟩ := hplain
  have hout := dispatch_outcome frame k
  generalize processSyscallDispatch frame k = r at hbrk hout
  cases hout with
  | stays hlocal => exact h.local_step howned hinv hlocal hbrk
  | vfork hn => exact absurd hn hvfork
  | execve hn => exact absurd hn hexecve
  | wait4 hn => exact absurd hn hwait4
  | exit hn => exact absurd hn hexit

theorem HeapBacked.step (h : HeapBacked k) (howned : Owned boot k F) (hinv : TableInv k l)
    (hok : ExecFits k e) (hstep : step k e = some k') : HeapBacked k' := by
  cases e with
  | store address value =>
    obtain ⟨physical, htop, ht, rfl⟩ := step_store_eq hstep
    exact h.local_step howned hinv (local_setByte htop ht) fun _ => rfl
  | syscall frame =>
    obtain ⟨r, hd⟩ := step_syscall_ok hstep
    by_cases hplain : IsPlain (syscallNumber frame.rax)
    · have hheap := h.plain_step howned hinv hplain
      rwa [hd] at hheap
    have hsnd : ∀ handler, withFrame frame handler k = (.ok r, k') → (handler k).2 = k' := by
      intro handler hhandler
      rw [← withFrame_snd frame, hhandler]
    rw [processSyscallDispatch] at hd
    cases hn : syscallNumber frame.rax with
    | brk =>
      rw [hn] at hd
      rw [← hsnd _ hd]
      exact h.brk_step howned hinv _
    | vfork =>
      rw [hn] at hd
      exact h.vfork_step howned hinv hd
    | execve =>
      rw [hn] at hd
      dsimp only at hd
      rcases syscallExecve_cases frame k with ⟨hlocal, hreads, -⟩ | ⟨path, argv, envp, k₂, hexecs, heq⟩
      · rw [hd] at hlocal hreads
        exact h.local_step howned hinv hlocal hreads.sameRecords.sameBreaks
      · rw [hd] at heq
        cases heq
        exact h.execve_step howned hinv hexecs (hok hn)
    | wait4 =>
      rw [hn] at hd
      rw [← hsnd _ hd]
      exact h.wait4_step howned hinv _ _
    | exit =>
      rw [hn] at hd
      exact h.exit_step howned hinv hd
    | _ => exact absurd ⟨by simp [hn], by simp [hn], by simp [hn], by simp [hn], by simp [hn]⟩ hplain

/-- What an address space that has been kept shows its process. -/
lemma Kept.view (h : Kept i k k') (hi : (k.processes i).cr3 ≠ 0) :
    k'.mm.view (k'.processes i).cr3 = k.mm.view (k.processes i).cr3 := by
  funext a
  by_cases ha : a < 2 ^ 47
  · obtain ⟨x, rfl⟩ : ∃ x : UInt64, a = x.toNat :=
      ⟨UInt64.ofNat a, (Word.toNat_ofNat_of_lt (by omega)).symm⟩
    rw [view_eq_map ha, view_eq_map ha, h.lookup hi]
    cases he : k.mm.lookup 4 (k.processes i).cr3 (pathOf x) with
    | none => rfl
    | some e =>
      obtain ⟨j, b, hb, hleaf⟩ := Radix.lookup_leaf he
      obtain ⟨-, -, rfl⟩ := userNext_eq_some hb
      have hmem := h.mem
      rw [liveNodes_of_ne hi] at hmem
      rw [Option.map_some, Option.map_some, hmem _ (Radix.mem_nodes_of_mem_leaves hleaf)]
  · rw [Mm.view, Mm.view, if_neg ha, if_neg ha]

/-- After the break has been moved to `r` the new pages hold zeros, and every byte that was mapped before
is as it was, in this process and in the others. -/
structure BreakGrown (k k' : Kernel) (r : UInt64) : Prop where
  brk : k'.current.brk = r
  added : Memory.Added 0 (Set.Ico (alignUp k.current.brk pageSize).toNat (alignUp r pageSize).toNat)
    (k.mm.view k.current.cr3) (k'.mm.view k'.current.cr3)
  others : ∀ i ≠ k.currentProcess, (k.processes i).cr3 ≠ 0 →
    k'.mm.view (k'.processes i).cr3 = k.mm.view (k.processes i).cr3

/-- There are no pages between the break and itself. -/
lemma breakPages_self : breakPages k k.current.brk = [] := by
  simp [breakPages, pagesBetween]

lemma breakGrown {r : UInt64} (howned : Owned boot k F) (hinv : TableInv k l)
    (hbrk : syscallBrk r k = (.ok r, k')) : BreakGrown k k' r := by
  have hlocal := keeps_syscallBrk r k
  obtain ⟨F', hex, -⟩ := hlocal.exchange howned hinv
  have hothers : ∀ i ≠ k.currentProcess, (k.processes i).cr3 ≠ 0 →
      k'.mm.view (k'.processes i).cr3 = k.mm.view (k.processes i).cr3 := by
    intro i hi hcr3
    rw [hbrk] at hex
    exact (hex.kept howned hi).view hcr3
  by_cases hrefused : Refused k r
  · rw [syscallBrk_refused hrefused] at hbrk
    cases hbrk
    refine ⟨rfl, ?_, hothers⟩
    rw [Set.Ico_self]
    exact .empty 0 _
  · have hne : (k.processes k.currentProcess).cr3 ≠ 0 := howned.current_ne hinv
    have hpages : ∀ v ∈ breakPages k r, UserPage v := fun v hv => breakPages_userPage hrefused hv
    rw [syscallBrk_loop hrefused] at hbrk
    rcases hr : Loop.forWhile (fun s page => mapUserPage s k.current.cr3 page pageWritable) k.mm
      (breakPages k r) with ⟨_ | _, mm⟩
    · rw [hr] at hbrk
      cases hbrk
      rw [breakPages_self] at hr
      cases hr
    · rw [hr] at hbrk
      cases hbrk
      have hadded := mapUserPages_added howned.pool (howned.separate hne) hpages (by decide) hr
      obtain ⟨hle, hlt⟩ := not_refused hrefused
      have hold := toNat_alignUp (v := k.current.brk) (by omega)
      have hnew := toNat_alignUp (v := r) (by omega)
      rw [breakPages, pagesBetween_addresses (by omega) (by omega)] at hadded
      have hself : ({ k with mm := mm }.setCurrent { k.current with brk := r }).current =
          { k.current with brk := r } := by
        simp [Kernel.setCurrent, Kernel.setProcess, Kernel.current]
      refine ⟨by rw [hself], ?_, hothers⟩
      rw [hself]
      exact hadded

end Steps

/-! ### Runs -/

section Runs

variable {boot : BootInfo} {es : List Event}

lemma heapBacked_started (hboot : boot.memory.Valid) (hinit : InitFits boot) (hstart : Starts boot) :
    HeapBacked (started boot) := by
  obtain ⟨next, mm, file, F, hstarted, -, -, -, hloaded⟩ := started_loaded hboot hinit hstart
  obtain ⟨header, stack, -, hnext, -⟩ := hloaded.process
  rw [hstarted]
  intro i hi
  by_cases hzero : i = 0
  · rw [hzero, enter_first]
    refine .empty ?_
    rw [hnext]
  · rw [enter_other hzero] at hi
    exact absurd rfl hi

/-- In every state of every run in which no program with a wrapping segment is executed, each process
has its heap mapped up to the break, and moving the break forward adds pages of zeros and changes nothing
else. -/
theorem heap_backed (hboot : boot.memory.Valid) (hinit : InitFits boot) (hstart : Starts boot)
    (hrun : Run ExecFits (started boot) es k) :
    HeapBacked k ∧ ∀ r k', syscallBrk r k = (.ok r, k') → BreakGrown k k' r := by
  refine ⟨?_, fun r k' hbrk => ?_⟩
  · refine hrun.invariant_run (heapBacked_started hboot hinit hstart) fun hrun hheap hok hstep => ?_
    obtain ⟨l, F, hinv, howned⟩ := owned_of_run hboot hinit hstart hrun
    exact hheap.step howned hinv hok hstep
  · obtain ⟨l, F, hinv, howned⟩ := owned_of_run hboot hinit hstart hrun
    exact breakGrown howned hinv hbrk

/-- The root of the first process is the first frame that is handed out. -/
lemma started_cr3 (hstart : Starts boot) :
    (started boot).current.cr3 = (createKernelMappedPml4 (mmInit boot.memory)).1 := by
  obtain ⟨next, mm, hload, hstarted⟩ := started_eq hstart
  have hfirst : (boot.enter next mm).current = next := enter_first
  rw [hstarted, hfirst]
  exact loadProgram_cr3 hload

/-- The first process of the small machine, with a page of heap. -/
theorem heap_backed_small : ∃ k, Run ExecFits (started (smallBoot 0x10000)) [brkCall 0x801000] k ∧
    WritablePage k.mm k.current.cr3 0x800000 := by
  obtain ⟨k, hcall, -, -⟩ := smallProgram.takes_page (smallBoot_valid _) smallBoot_starts
    (by rw [smallBoot_frames]; norm_num)
  have hrun : Run ExecFits (started (smallBoot 0x10000)) [brkCall 0x801000] k :=
    .snoc .nil (execFits_brkCall _ _) (step_brk hcall)
  obtain ⟨-, hgrown⟩ := heap_backed (smallBoot_valid _) smallProgram.initFits smallBoot_starts .nil
  obtain ⟨hheap, -⟩ := heap_backed (smallBoot_valid _) smallProgram.initFits smallBoot_starts hrun
  obtain ⟨l, F, hinv, howned⟩ := owned_of_run (smallBoot_valid _) smallProgram.initFits smallBoot_starts hrun
  refine ⟨k, hrun, (hheap k.currentProcess (howned.current_ne hinv)).backed 0x800000 (by decide) (by decide) ?_⟩
  change _ < (alignUp k.current.brk pageSize).toNat
  rw [(hgrown _ _ hcall).brk]
  decide

end Runs

/-! ### A program that writes to the page tables of its caller -/

/-- Kernel tables with a direct map of the first 2 MiB. -/
def directTables (table : UInt64) (i : Fin 512) : UInt64 :=
  if table = 0x9000 then if i.val = 256 then 0xa003 else 0
  else if table = 0xa000 then if i.val = 0 then 0xb003 else 0
  else if table = 0xb000 then if i.val = 0 then 0xc003 else 0
  else if table = 0xc000 then UInt64.ofNat (4096 * i) ||| 3
  else 0

/-- The part of a header in an archive that is not 0. -/
def archiveHeader (name size : String) : List UInt8 :=
  textField 100 name ++ (textField 24 "0000755" ++ (textField 12 size ++
    (List.replicate 20 0 ++ textField 1 "0")))

/-- An ELF file with two segments. The first one is a byte at the place where the direct map has frame
0x17f000, and its end wraps around to 0x10000; the second one is refused. -/
def overwritingProgram : List UInt8 :=
  [0x7f, 0x45, 0x4c, 0x46, 2, 1] ++ List.replicate 10 0 ++ littleEndian 2 2 ++ littleEndian 2 62 ++
    littleEndian 4 1 ++ littleEndian 8 0x10000 ++ littleEndian 8 64 ++ List.replicate 14 0 ++
    littleEndian 2 56 ++ littleEndian 2 2 ++ List.replicate 6 0 ++
    littleEndian 4 1 ++ littleEndian 4 7 ++ littleEndian 8 6 ++ littleEndian 8 0xffff80000017f000 ++
    littleEndian 8 0 ++ littleEndian 8 1 ++ littleEndian 8 0x7fffffe91000 ++ littleEndian 8 4096 ++
    littleEndian 4 1 ++ List.replicate 52 0

/-- 128 frames, and an archive with the program of the small machine and the overwriting one. -/
def directBoot : BootInfo :=
  { memory :=
      { mem := directTables
        cr3 := 0x9000
        hhdm := some 0xffff800000000000
        memmap := some [⟨0x100000, 0x80000, true⟩] }
    kmem := fun a => ([archiveHeader "bin/xsh" "00000000170", elfBytes 0x10000 0 0x10000 120 0x1000,
      archiveHeader "w" "00000000260", overwritingProgram].getD ((a.toNat - 0x1000) / 512) []).getD
        (a.toNat % 512) 0
    modules := some [some ⟨0x1000, 0x800, some (cstr "ramdisk"), none⟩]
    keyboard := fun _ => 0
    ttyAvailable := false }

def overwritingFile : RamdiskFile :=
  { path := cstr "/w", data := 0x1600, size := 176, directory := false, executable := true }

def overwritingHeader : ElfHeader :=
  { ident := [0x7f, 0x45, 0x4c, 0x46, 2, 1], machine := 62, entry := 0x10000, phoff := 64,
    phentsize := 56, phnum := 2 }

lemma directProgram : SmallProgram directBoot 0x10000 where
  available := by decide +kernel
  file := by decide +kernel
  header := by decide +kernel
  segment := by decide +kernel

/-- The archive has the file under the path, and the headers of its first two segments are these. -/
structure Archived (boot : BootInfo) (path : CString) (file : RamdiskFile) (header : ElfHeader)
    (first second : ProgramHeader) : Prop where
  found : ramdiskFind boot.kmem boot.ramdisk path = some file
  valid : validateElf boot.kmem file = some header
  first : programHeader boot.kmem file header 0 = first
  second : programHeader boot.kmem file header 1 = second

lemma overwriting_archived : Archived directBoot (cstr "w") overwritingFile overwritingHeader
    ⟨1, 6, 0xffff80000017f000, 1, 0x7fffffe91000⟩ ⟨1, 0, 0, 0, 0⟩ where
  found := by decide +kernel
  valid := by decide +kernel
  first := by decide +kernel
  second := by decide +kernel

lemma overwriting_byte : fileByte directBoot.kmem overwritingFile 6 = 0 := by
  decide

/-- How many frames the machine has, and which one the first process gets as its root. -/
lemma directBoot_frames : directBoot.memory.handedFrames.length = 128 ∧
    (createKernelMappedPml4 (mmInit directBoot.memory)).1 = 0x17f000 := by
  decide +kernel

/-- The tables of the direct map, from the root down. -/
lemma directTables_level {n : ℕ} {t : UInt64} (ht : KernelTable directTables 0x9000 n t) :
    n = 4 ∧ t = 0x9000 ∨ n = 3 ∧ t = 0xa000 ∨ n = 2 ∧ t = 0xb000 ∨ n = 1 ∧ t = 0xc000 := by
  induction ht with
  | root => exact .inl ⟨rfl, rfl⟩
  | @child n t i _ _ hpresent _ ih =>
    rcases ih with ⟨hn, rfl⟩ | ⟨hn, rfl⟩ | ⟨hn, rfl⟩ | ⟨hn, rfl⟩
    · have hentry : directTables 0x9000 i = if i.val = 256 then 0xa003 else 0 := rfl
      rw [hentry] at hpresent ⊢
      split_ifs at hpresent ⊢
      · exact .inr (.inl ⟨by omega, by decide⟩)
      · exact absurd rfl hpresent
    · have hentry : directTables 0xa000 i = if i.val = 0 then 0xb003 else 0 := rfl
      rw [hentry] at hpresent ⊢
      split_ifs at hpresent ⊢
      · exact .inr (.inr (.inl ⟨by omega, by decide⟩))
      · exact absurd rfl hpresent
    · have hentry : directTables 0xb000 i = if i.val = 0 then 0xc003 else 0 := rfl
      rw [hentry] at hpresent ⊢
      split_ifs at hpresent ⊢
      · exact .inr (.inr (.inr ⟨by omega, by decide⟩))
      · exact absurd rfl hpresent
    · omega

lemma directBoot_valid : directBoot.memory.Valid := by
  refine ⟨?_, ?_, ?_, ?_⟩
  · rintro entries ⟨⟩
    simp
  · rintro entries ⟨⟩ m hm -
    rw [List.mem_singleton.mp hm]
    decide
  · rintro offset ⟨⟩ entries ⟨⟩ m hm -
    rw [List.mem_singleton.mp hm]
    decide
  · rintro entries ⟨⟩ m hm - n t ht ⟨hge, -⟩
    rw [List.mem_singleton.mp hm] at hge
    rcases directTables_level ht with ⟨-, rfl⟩ | ⟨-, rfl⟩ | ⟨-, rfl⟩ | ⟨-, rfl⟩ <;>
      exact absurd hge (by decide)

lemma directBoot_starts : Starts directBoot :=
  directProgram.starts directBoot_valid (by rw [directBoot_frames.1]; norm_num)

/-- The direct map leads to the frame. -/
lemma direct_translate (hroot : ∀ i : Fin 512, 256 ≤ i.val → s.mem p i = directTables 0x9000 i)
    (ha : s.mem 0xa000 = directTables 0xa000) (hb : s.mem 0xb000 = directTables 0xb000)
    (hc : s.mem 0xc000 = directTables 0xc000) :
    vmmTranslate s p 0xffff80000017f000 = some 0x17f000 := by
  have hentry : ∀ {t : UInt64} {i : Fin 512} {e : UInt64}, s.mem t i = e → e &&& pagePresent ≠ 0 →
      presentEntry s t i = some e := by
    rintro t i e rfl he
    rw [presentEntry, if_neg he]
  have h₁ : presentEntry s p (tableIndex 0xffff80000017f000 39) = some 0xa003 :=
    hentry (hroot 256 (by decide)) (by decide)
  have h₂ : presentEntry s (pageTableFromEntry 0xa003) (tableIndex 0xffff80000017f000 30) = some 0xb003 :=
    hentry (show s.mem 0xa000 0 = 0xb003 by rw [ha]; rfl) (by decide)
  have h₃ : presentEntry s (pageTableFromEntry 0xb003) (tableIndex 0xffff80000017f000 21) = some 0xc003 :=
    hentry (show s.mem 0xb000 0 = 0xc003 by rw [hb]; rfl) (by decide)
  have h₄ : presentEntry s (pageTableFromEntry 0xc003) (tableIndex 0xffff80000017f000 12) = some 0x17f003 :=
    hentry (show s.mem 0xc000 383 = 0x17f003 by rw [hc]; decide) (by decide)
  simp only [vmmTranslate, Option.bind_eq_bind, h₁, Option.bind_some, h₂, h₃, h₄]
  decide

/-- A segment of one byte is copied to where its address leads. -/
lemma writeProcessMemory_one (src : ℕ → UInt8) (first : ℕ) {physical : UInt64}
    (h : vmmTranslate s p v = some physical) : ∃ copies, writeProcessMemory s p v src first 1 =
      (true, { s.setByte physical (src first) with copies := copies }) := by
  have hzero : ∀ x : UInt64, x + UInt64.ofNat 0 = x := fun x => UInt64.add_zero x
  have hchunk : min (4096 - (v &&& (pageSize - 1)).toNat) (1 - 0) = 1 := by
    rw [pageOffset_toNat]
    omega
  rw [writeProcessMemory, writeProcessMemoryFrom, if_pos Nat.zero_lt_one]
  simp only [hzero, h, hchunk, writeProcessMemoryFrom, copyChunk, Nat.add_zero]
  exact ⟨_, rfl⟩

/-- Loading the program sets a byte of the frame to 0 and fails. -/
lemma overwriting_load (process : Process)
    (h : vmmTranslate s process.cr3 0xffff80000017f000 = some 0x17f000) : ∃ copies reads,
      loadElfIntoProcess directBoot.kmem s process overwritingFile =
        (false, process, { s.setByte 0x17f000 0 with copies := copies, reads := reads }) := by
  have harchived := overwriting_archived
  have hpages : ∀ s, mapUserRange s process.cr3 0xffff80000017f000 0x7fffffe91000 pageWritable =
      (true, s) := by
    intro s
    rw [mapUserRange, show pagesBetween (alignDown 0xffff80000017f000 pageSize)
      (alignUp (0xffff80000017f000 + 0x7fffffe91000) pageSize) = [] by decide, Loop.forWhile_nil]
  have hload : ∀ s, vmmTranslate s process.cr3 0xffff80000017f000 = some 0x17f000 → ∃ copies reads,
      loadSegment directBoot.kmem process.cr3 overwritingFile overwritingHeader s 0 =
        (true, { s.setByte 0x17f000 0 with copies := copies, reads := reads }) := by
    intro s hs
    obtain ⟨copies, hwrite⟩ := @writeProcessMemory_one (s.noteReads (overwritingHeader.phoff.toNat + 56 * 0) 56)
      process.cr3 0xffff80000017f000 (fileByte directBoot.kmem overwritingFile) 6 0x17f000 hs
    rw [overwriting_byte] at hwrite
    have haccepted : (⟨1, 6, 0xffff80000017f000, 1, 0x7fffffe91000⟩ : ProgramHeader).isAccepted
        overwritingFile.size = true := by
      decide
    rw [loadSegment, harchived.first]
    simp only [ne_eq, not_true_eq_false, if_false, haccepted, if_true, hpages]
    exact ⟨copies, _, hwrite⟩
  have hrefuse : ∀ s, ∃ reads, loadSegment directBoot.kmem process.cr3 overwritingFile overwritingHeader s 1 =
      (false, { s with reads := reads }) := by
    intro s
    rw [loadSegment, harchived.second]
    exact ⟨_, rfl⟩
  obtain ⟨copies, reads, hzero⟩ := hload (s.noteReads 0 64) h
  obtain ⟨reads', hone⟩ := hrefuse { s.setByte 0x17f000 0 with copies := copies, reads := reads }
  have hrange : List.range overwritingHeader.phnum.toNat = [0, 1] := by decide
  have hheader : overwritingFile.hasHeader = true := by decide
  refine ⟨copies, reads', ?_⟩
  simp only [loadElfIntoProcess, harchived.valid, hheader, if_true, hrange]
  rw [Loop.forWhile_cons_true (by rw [hzero]), hzero]
  have hset : ({ (s.noteReads 0 64).setByte 0x17f000 0 with copies := copies, reads := reads } : Mm) =
      { s.setByte 0x17f000 0 with copies := copies, reads := reads } := rfl
  rw [hset, Loop.forWhile_cons_false (by rw [hone]), hone]

lemma setByteOfWord_zero (w : UInt64) : setByteOfWord w 0 0 &&& pagePresent = 0 := by
  have hclear : setByteOfWord w 0 0 = w &&& ~~~0xff := UInt64.or_zero
  rw [hclear, UInt64.and_assoc, show (~~~0xff : UInt64) &&& pagePresent = 0 by decide, UInt64.and_zero]

/-- When the frame is the root of the current process, its first entry is gone after the attempt to load
the program. -/
lemma overwriting_fails (howned : Owned directBoot.memory k F) (hinv : TableInv k l)
    (hcr3 : k.current.cr3 = 0x17f000) (hfree : k.mm.freeFrameCount ≠ 0) (process : Process) :
    ∃ next mm, loadProgram directBoot.kmem directBoot.ramdisk k.mm process (cstr "w") [] [] =
      (false, next, mm) ∧ mm.mem 0x17f000 0 &&& pagePresent = 0 := by
  rcases createKernelMappedPml4_spec howned.pool howned.kernel_free with
    ⟨rfl, -⟩ | ⟨q, F₁, s₁, rfl, hnew, hq⟩
  · rw [← Word.pos_iff_ne_zero, howned.pool.toNat_freeFrameCount] at hfree
    exact absurd hfree (lt_irrefl 0)
  have hq0 : q ≠ 0 := (howned.pool.frames q List.mem_cons_self).ne_zero
  have hroot : (0x17f000 : UInt64) ∉ q :: F₁ := by
    have hsep := howned.separate (i := k.currentProcess) (howned.current_ne hinv)
    rw [show (k.processes k.currentProcess).cr3 = 0x17f000 from hcr3] at hsep
    exact hsep.notMem Radix.self_mem_nodes
  rw [List.mem_cons, not_or] at hroot
  -- the kernel's tables are where they were at boot
  have hlow : ∀ x : UInt64, x.toNat < 0x100000 → x ∉ directBoot.memory.handedFrames := by
    intro x hlt hx
    obtain ⟨-, -, -, entries, hentries, m, hm, -, -, hge, -⟩ := directBoot_valid.mem_handedFrames hx
    cases hentries
    rw [List.mem_singleton.mp hm] at hge
    change 0x100000 ≤ x.toNat at hge
    omega
  have hkernel : ∀ x : UInt64, x ∉ directBoot.memory.handedFrames → s₁.mem x = directTables x := by
    intro x hx
    rw [hq.frame x (fun h => hx (h ▸ howned.free_mem List.mem_cons_self)), howned.outside x hx]
    rfl
  have hupper : ∀ i : Fin 512, 256 ≤ i.val → s₁.mem q i = directTables 0x9000 i := by
    intro i hi
    have hpml4 : k.mm.kernelCr3Value &&& ~~~0xfff = 0x9000 := howned.kernelPml4
    rw [hq.upper i hi, hpml4, howned.outside 0x9000 (hlow _ (by decide))]
    rfl
  have hmapped := direct_translate hupper (hkernel _ (hlow _ (by decide))) (hkernel _ (hlow _ (by decide)))
    (hkernel _ (hlow _ (by decide)))
  obtain ⟨copies, reads, hload⟩ := overwriting_load { process with cr3 := q } hmapped
  have hset : alignDown 0x17f000 pageSize = 0x17f000 := by decide
  have hmem : ∀ x ≠ (0x17f000 : UInt64), (s₁.setByte 0x17f000 0).mem x = s₁.mem x := by
    intro x hx
    exact setByte_mem_of_ne (by rwa [hset])
  have hentry : (s₁.setByte 0x17f000 0).mem 0x17f000 0 = setByteOfWord (s₁.mem 0x17f000 0) 0 0 := by
    change (s₁.setEntry (alignDown 0x17f000 pageSize) _ _).mem 0x17f000 0 = _
    rw [hset, setEntry_mem_self]
    exact Function.update_self _ _ _
  -- the new address space is torn down again, which does not touch the frame
  generalize hs₂ : ({ s₁.setByte 0x17f000 0 with copies := copies, reads := reads } : Mm) = s₂ at hload
  have hmem₂ : s₂.mem = (s₁.setByte 0x17f000 0).mem := by rw [← hs₂]
  have hnodes : s₂.nodes 4 q = {q} := by
    rw [← hq.nodes]
    refine Radix.collect_congr fun x hx => ?_
    have hxq := Radix.mem_nodes_of_mem_tables hx
    rw [show Radix.nodes userNext s₁.mem 4 q = {q} from hq.nodes, Multiset.mem_singleton] at hxq
    rw [hmem₂, hxq, hmem q (Ne.symm hroot.1)]
  have hpool : Pool s₂ F₁ := by
    refine hq.pool.congr (fun f hf => ?_) (by rw [← hs₂]; rfl) (by rw [← hs₂]; rfl) (by rw [← hs₂]; rfl)
    rw [hmem₂, hmem f fun h => hroot.2 (h ▸ hf)]
  have hsep : Separate s₂ 4 q F₁ := by
    rw [Separate, hnodes, Multiset.singleton_add, Multiset.cons_coe]
    exact Multiset.coe_nodup.mpr howned.pool.nodup
  obtain ⟨_, -, -, -, -, hframe⟩ := vmmDestroyUserSpace_spec hq0 hpool hsep fun x hx => by
    rw [hnodes, Multiset.mem_singleton] at hx
    rw [hx, ← hs₂]
    change IsFrame s₁.hhdmOffsetValue q
    rw [hq.hhdm]
    exact howned.pool.frames q List.mem_cons_self
  have hexec : ¬(¬overwritingFile.executable = true ∨ overwritingFile.directory = true) := by decide
  refine ⟨{ process with cr3 := 0 }, vmmDestroyUserSpace s₂ q userTop, ?_, ?_⟩
  · have harchived := overwriting_archived
    rw [loadProgram, harchived.found]
    simp only [if_neg hexec, hnew, if_neg hq0, hload]
  · rw [hframe _ (by rw [hnodes, Multiset.mem_singleton]; exact hroot.1), hmem₂, hentry]
    exact setByteOfWord_zero _

/-- The call `execve("w", NULL, NULL)`, with the path at 0x10000. -/
def overwritingCall : SyscallFrame := { call 59 with rdi := 0x10000 }

lemma execveLoaded_failed {path : CString} {argv envp : List CString} {next : Process} {mm : Mm}
    (h : loadProgram k.kmem k.ramdisk k.mm { k.current with cr3 := 0 } path argv envp =
      (false, next, mm)) :
    execveLoaded frame path argv envp k = ((negativeErrno .noexec, frame), { k with mm := mm }) := by
  rw [execveLoaded, h]

/-- The call of a program that could not be loaded. -/
lemma dispatch_overwriting {path : CString} {next : Process} {mm : Mm} (hpath : HoldsString k.view 0x10000 path)
    (hlen : path.length < 256)
    (hload : loadProgram k.kmem k.ramdisk k.mm { k.current with cr3 := 0 } path [] [] = (false, next, mm)) :
    ∃ accesses, processSyscallDispatch overwritingCall k =
      (.ok (negativeErrno .noexec, overwritingCall), { k with mm := mm, accesses := accesses }) := by
  have hcopy : ∃ k₁, copyUserString maxString overwritingCall.rdi k = (.ok (some path), k₁) ∧ Reads k k₁ :=
    copyUserString_holds (by norm_num) hpath hlen (by decide)
  obtain ⟨k₁, hcopy, hreads⟩ := hcopy
  have hargs : ∀ n k, copyUserStringArray n overwritingCall.rsi k = (.ok (some []), k) := fun _ _ => rfl
  have henv : ∀ n k, copyUserStringArray n overwritingCall.rdx k = (.ok (some []), k) := fun _ _ => rfl
  have hload₁ : loadProgram k₁.kmem k₁.ramdisk k₁.mm { k₁.current with cr3 := 0 } path [] [] =
      (false, next, mm) := by
    obtain ⟨accesses, rfl⟩ := hreads
    exact hload
  have hexec : syscallExecve overwritingCall k =
      (.ok (negativeErrno .noexec, overwritingCall), { k₁ with mm := mm }) := by
    rw [syscallExecve, Prog.bind_ok hcopy]
    dsimp only
    rw [Prog.bind_ok (hargs _ _)]
    dsimp only
    rw [Prog.bind_ok (henv _ _)]
    dsimp only
    rw [execveLoaded_failed hload₁]
  obtain ⟨accesses, rfl⟩ := hreads
  refine ⟨accesses, ?_⟩
  have hn : syscallNumber overwritingCall.rax = .execve := by decide
  rw [processSyscallDispatch, hn]
  dsimp only
  rw [hexec]

lemma step_overwriting (howned : Owned directBoot.memory k F) (hinv : TableInv k l)
    (hkmem : k.kmem = directBoot.kmem) (hramdisk : k.ramdisk = directBoot.ramdisk)
    (hcr3 : k.current.cr3 = 0x17f000) (hfree : k.mm.freeFrameCount ≠ 0)
    (hpath : HoldsString k.view 0x10000 (cstr "w")) :
    ∃ mm accesses, step k (.syscall overwritingCall) = some { k with mm := mm, accesses := accesses } ∧
      mm.mem 0x17f000 0 &&& pagePresent = 0 := by
  obtain ⟨next, mm, hload, hclear⟩ := overwriting_fails howned hinv hcr3 hfree { k.current with cr3 := 0 }
  rw [← hkmem, ← hramdisk] at hload
  obtain ⟨accesses, hcall⟩ := dispatch_overwriting hpath (by decide) hload
  refine ⟨mm, accesses, ?_, hclear⟩
  rw [Xbks.step, hcall]

/-- An entry of the root that is not present. -/
lemma lookup_of_absent {i : Fin 512} {is : List (Fin 512)} (h : s.mem p i &&& pagePresent = 0) :
    s.lookup 4 p (i :: is) = none := by
  have hnext : userNext 3 i (s.mem p i) = none := by
    rw [userNext]
    split_ifs
    · rfl
    · rfl
  rw [Mm.lookup, Radix.lookup_succ, hnext]
  rfl

/-- What the first process has done before it executes the overwriting program: it has a page of heap,
and the path of the program is in its memory. -/
structure Prepared (k : Kernel) : Prop where
  brk : k.current.brk = 0x801000
  cr3 : k.current.cr3 = 0x17f000
  free : k.mm.freeFrameCount ≠ 0
  path : HoldsString k.view 0x10000 (cstr "w")

/-- The page of heap. -/
lemma direct_grows : ∃ k, Run ExecFits (started directBoot) [brkCall 0x801000] k ∧
    k.current.brk = 0x801000 ∧ k.current.cr3 = 0x17f000 ∧ k.mm.freeFrameCount ≠ 0 ∧
    k.view.Has 0x10000 2 := by
  have hvalid := directBoot_valid
  have hinit := directProgram.initFits
  have hstart := directBoot_starts
  obtain ⟨k, hcall, hroot, hfree⟩ := directProgram.takes_page hvalid hstart (by rw [directBoot_frames.1]; norm_num)
  have hrun : Run ExecFits (started directBoot) [brkCall 0x801000] k :=
    .snoc .nil (execFits_brkCall _ _) (step_brk hcall)
  obtain ⟨l₀, F₀, hinv₀, howned₀⟩ := owned_of_run hvalid hinit hstart .nil
  obtain ⟨l, F, hinv, howned⟩ := owned_of_run hvalid hinit hstart hrun
  have hgrown := breakGrown howned₀ hinv₀ hcall
  refine ⟨k, hrun, hgrown.brk, ?_, hfree, fun x hge hlt => ?_⟩
  · rw [hroot, started_cr3 hstart, directBoot_frames.2]
  · have hbefore := directProgram.has hvalid hstart x hge (by omega)
    rw [Kernel.view, howned₀.current] at hbefore
    rw [Kernel.view, howned.current, hgrown.added.same x ?_]
    · exact hbefore
    · rw [(directProgram.space hvalid hstart).1, Set.mem_Ico,
        show (alignUp 0x800000 pageSize).toNat = 0x800000 from rfl]
      omega

/-- The path is written behind it. -/
lemma direct_prepared : ∃ k, Run ExecFits (started directBoot)
    [brkCall 0x801000, .store 0x10000 119, .store 0x10001 0] k ∧ Prepared k := by
  obtain ⟨k₁, hrun₁, hbrk, hcr3, hfree, hhas⟩ := direct_grows
  have htidy : Tidy directBoot k₁ :=
    owned_of_run directBoot_valid directProgram.initFits directBoot_starts hrun₁
  obtain ⟨k₂, hrun₂, hstored, hcount, hpath⟩ := stores_letter hrun₁ htidy.intact hhas
    (show (119 : UInt8) ≠ 0 by decide)
  refine ⟨k₂, hrun₂, ?_, ?_, ?_, hpath⟩
  · rw [hstored.current, hbrk]
  · rw [hstored.current, hcr3]
  · rw [hcount]
    exact hfree

/-- The first process takes a page of heap, writes the path of the overwriting program to its memory and
executes it. The call fails, and the page of the heap is not mapped any more. -/
theorem heap_unmapped : directBoot.memory.Valid ∧ InitFits directBoot ∧ Starts directBoot ∧ ∃ k,
    Run (fun _ _ => True) (started directBoot) [brkCall 0x801000, .store 0x10000 119, .store 0x10001 0,
      .syscall overwritingCall] k ∧
    k.current.brk = 0x801000 ∧ vmmTranslate k.mm k.current.cr3 0x800000 = none ∧ ¬HeapBacked k := by
  have hvalid := directBoot_valid
  have hinit := directProgram.initFits
  have hstart := directBoot_starts
  refine ⟨hvalid, hinit, hstart, ?_⟩
  obtain ⟨k, hrun, hbrk, hcr3, hfree, hpath⟩ := direct_prepared
  obtain ⟨l, F, hinv, howned⟩ := owned_of_run hvalid hinit hstart hrun
  obtain ⟨hkmem, hramdisk⟩ := archive_of_run hstart hrun
  obtain ⟨mm, accesses, hstep, hclear⟩ := step_overwriting howned hinv hkmem hramdisk hcr3 hfree hpath
  have hlookup : mm.lookup 4 0x17f000 (pathOf 0x800000) = none := lookup_of_absent hclear
  refine ⟨_, (hrun.mono fun _ _ _ => trivial).snoc trivial hstep, hbrk, ?_, fun hheap => ?_⟩
  · change vmmTranslate mm k.current.cr3 _ = _
    rw [hcr3, vmmTranslate_eq (lowerHalf_of_lt (by decide)), hlookup]
    rfl
  · obtain ⟨e, he, -⟩ := (hheap k.currentProcess (howned.current_ne hinv)).backed 0x800000 (by decide)
      (by decide) (by
        change _ < (alignUp k.current.brk pageSize).toNat
        rw [hbrk]
        decide)
    have he : mm.lookup 4 k.current.cr3 (pathOf 0x800000) = some e := he
    rw [hcr3, hlookup] at he
    cases he

end Xbks
