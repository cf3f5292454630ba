import Xbks.Properties.Break
import Xbks.Properties.FrameOwnership

/-!
# Where the kernel returns to

`sysretq` takes the address of the next user instruction from the frame of the system call: behind the
instruction that made the call, at the entry of a new program, or where a parent called `vfork`. These
addresses are the user's as long as every executed program has its entry on one of its own pages and
leaves the last user page alone; the loader checks neither.
-/

namespace Xbks

variable {k k' k₁ : Kernel} {F : List UInt64} {l : List Slot} {e : Event} {frame : SyscallFrame}
  {i : Slot}

/-! ### One program -/

/-- The last page below the user limit. -/
abbrev lastUserPage : UInt64 := 0x7ffffffff000

/-- The address is the user's, and its page is mapped. -/
structure UserEntry (s : Mm) (p address : UInt64) : Prop where
  ge : userImageMin ≤ address
  lt : address < userTop
  mapped : vmmTranslate s p address ≠ none

/-- The header of a file of which the loader refuses nothing. -/
def Accepted (kmem : KernelMemory) (file : RamdiskFile) (header : ElfHeader) : Prop :=
  validateElf kmem file = some header ∧ NoneRefused kmem file header (List.range header.phnum.toNat)

/-- If the loader refuses nothing of the file, its entry lies on a page of a segment or of the stack, and
no segment reaches into the last user page. -/
structure EntersUser (kmem : KernelMemory) (file : RamdiskFile) : Prop where
  entry : ∀ header, Accepted kmem file header → header.entry.toNat < 2 ^ 47 ∧
    ((∃ i, Loadable kmem file header i ∧ (programHeader kmem file header i).Reaches header.entry) ∨
      stackBottom ≤ header.entry.toNat ∧ header.entry.toNat < stackTop)
  below : ∀ header, Accepted kmem file header → ∀ i, Loadable kmem file header i →
    (programHeader kmem file header i).vaddr.toNat + (programHeader kmem file header i).memsz.toNat ≤
      2 ^ 47 - 4096

section Program

variable {kmem : KernelMemory} {file : RamdiskFile} {header : ElfHeader} {process next : Process}
  {s s' : Mm} {p v : UInt64}

/-- Exactly the programs that enter their own pages and leave the last page alone start at a user
address and do not map the last page. -/
lemma ProgramLoaded.enters_iff (h : ProgramLoaded kmem file process next s s' F)
    (hfits : SegmentsFit kmem file) :
    UserEntry s' next.cr3 next.entry ∧ s'.lookup 4 next.cr3 (pathOf lastUserPage) = none ↔
      EntersUser kmem file := by
  obtain ⟨header, stack, hheader, hnext, hsegments, -⟩ := h.process
  have hentry : next.entry = header.entry := by rw [hnext]
  have hlast : lastUserPage.toNat = 2 ^ 47 - 4096 := rfl
  have htop : stackTop ≤ 2 ^ 47 - 4096 := by decide
  have hpage := @ProgramLoaded.mapped_iff lastUserPage s s' F kmem file header process next h hfits hheader
    (by decide)
  have haccepted : Accepted kmem file header := ⟨hheader, fun i hi htype =>
    (hsegments i (List.mem_range.mp hi) htype).1.2.2⟩
  have huniq : ∀ header', Accepted kmem file header' → header' = header := by
    rintro header' ⟨hheader', -⟩
    rw [hheader] at hheader'
    exact (Option.some.inj hheader').symm
  constructor
  · rintro ⟨⟨hge, hlt, hmapped⟩, hnone⟩
    rw [hentry] at hge hlt hmapped
    rw [lt_userTop_iff] at hlt
    refine ⟨fun header' hheader' => ?_, fun header' hheader' i hload => ?_⟩
    · rw [huniq header' hheader']
      rw [ne_eq, translate_eq_none_iff (lowerHalf_of_lt hlt)] at hmapped
      exact ⟨hlt, (h.mapped_iff hfits hheader hlt).mp hmapped⟩
    · rw [huniq header' hheader'] at hload ⊢
      by_contra hover
      refine hpage.mpr (.inl ⟨i, hload, ?_, ?_⟩) hnone
      · have hbound := (h.bounds hfits hheader hload).2
        omega
      · omega
  · rintro ⟨hin, hbelow⟩
    obtain ⟨hlt, hin⟩ := hin header haccepted
    refine ⟨⟨?_, ?_, ?_⟩, ?_⟩
    · rw [hentry, userImageMin_le_iff]
      rcases hin with ⟨i, hload, hreaches⟩ | ⟨hge, -⟩
      · have hbound := (h.bounds hfits hheader hload).1
        have hpages := hreaches.1
        omega
      · have hbottom : 65536 ≤ stackBottom := by decide
        omega
    · rw [hentry, lt_userTop_iff]
      exact hlt
    · rw [hentry, ne_eq, translate_eq_none_iff (lowerHalf_of_lt hlt)]
      exact (h.mapped_iff hfits hheader hlt).mpr hin
    · by_contra hmapped
      rcases hpage.mp hmapped with ⟨i, hload, hreaches⟩ | ⟨-, hlt⟩
      · have hover := hbelow header haccepted i hload
        have hreach := hreaches.2
        omega
      · omega

end Program

/-! ### Steps -/

/-- The system call was made by an instruction of two bytes on a mapped page of the user. -/
def FromUser (k : Kernel) (frame : SyscallFrame) : Prop :=
  ∃ address : UInt64, address < userTop ∧ vmmTranslate k.mm k.cr3 address ≠ none ∧
    frame.userRip = address + 2

/-- System calls come from the user, and the executed programs enter their own pages and leave the last
page alone. -/
def Enters (k : Kernel) : Event → Prop
  | .syscall frame => FromUser k frame ∧ (syscallNumber frame.rax = .execve →
      ∀ file ∈ executedFile k frame, SegmentsFit k.kmem file ∧ EntersUser k.kmem file)
  | .store _ _ => True

lemma Enters.execFits (h : Enters k e) : ExecFits k e := by
  cases e with
  | store => exact trivial
  | syscall frame => exact fun hn file hfile => (h.2 hn file hfile).1

/-- No process has the last page, and every frame that a `vfork` has saved returns to the user. -/
structure ReturnsUser (k : Kernel) : Prop where
  last : ∀ i, (k.processes i).cr3 ≠ 0 →
    k.mm.lookup 4 (k.processes i).cr3 (pathOf lastUserPage) = none
  saved : ∀ i, (k.processes i).savedParentFrame.userRip < userTop

/-- The addresses of the last page. -/
lemma ReturnsUser.translate {v : UInt64} (h : ReturnsUser k) (hi : (k.processes i).cr3 ≠ 0)
    (hge : lastUserPage ≤ v) (hlt : v < userTop) : vmmTranslate k.mm (k.processes i).cr3 v = none := by
  have hlast : lastUserPage.toNat = 2 ^ 47 - 4096 := rfl
  rw [lt_userTop_iff] at hlt
  rw [UInt64.le_iff_toNat_le, hlast] at hge
  have hpath : pathOf v = pathOf lastUserPage := by
    rw [pathOf_eq_iff, hlast]
    omega
  rw [translate_eq_none_iff (lowerHalf_of_lt hlt), hpath]
  exact h.last i hi

section Steps

variable {boot : BootMemory}

/-- The instruction behind a system call. -/
lemma ReturnsUser.fromUser (h : ReturnsUser k) (howned : Owned boot k F) (hinv : TableInv k l)
    (hfrom : FromUser k frame) : frame.userRip < userTop := by
  obtain ⟨address, hlt, hmapped, hrip⟩ := hfrom
  have hnot : ¬lastUserPage ≤ address := by
    intro hge
    rw [howned.current] at hmapped
    exact hmapped (h.translate (i := k.currentProcess) (howned.current_ne hinv) hge hlt)
  have hlast : lastUserPage.toNat = 2 ^ 47 - 4096 := rfl
  rw [UInt64.le_iff_toNat_le, hlast] at hnot
  have htwo : (address + 2).toNat = address.toNat + 2 :=
    Word.toNat_add_of_lt address 2 (show address.toNat + 2 < 2 ^ 64 by omega)
  rw [hrip, lt_userTop_iff, htwo]
  omega

/-- One address space is new, the others have been kept. -/
lemma ReturnsUser.update (h : ReturnsUser k) (hkept : ∀ j ≠ i, Kept j k k')
    (hself : (k'.processes i).cr3 ≠ 0 →
      k'.mm.lookup 4 (k'.processes i).cr3 (pathOf lastUserPage) = none)
    (hsaved : ∀ j, (k'.processes j).savedParentFrame.userRip < userTop) : ReturnsUser k' := by
  refine ⟨forall_live (Q := fun s process => s.lookup 4 process.cr3 (pathOf lastUserPage) = none) h.last hkept
    (fun j hj hne hlast => ?_) hself, hsaved⟩
  rw [(hkept j hj).lookup hne]
  exact hlast

lemma ReturnsUser.kept (h : ReturnsUser k) (hkept : ∀ j, Kept j k k')
    (hsaved : ∀ j, (k'.processes j).savedParentFrame = (k.processes j).savedParentFrame) :
    ReturnsUser k' := by
  refine h.update (i := k.currentProcess) (fun j _ => hkept j) (fun hne => ?_) fun j => ?_
  · rw [(hkept _).cr3] at hne
    rw [(hkept _).lookup hne]
    exact h.last _ hne
  · rw [hsaved]
    exact h.saved j

/-- The pages that `brk` maps are below the last one. -/
lemma lastUserPage_notMem_heapPaths : pathOf lastUserPage ∉ heapPaths := by
  rw [heapPaths, pathOf_mem_pathsOf_iff (by decide) (by decide)]
  decide

lemma ReturnsUser.local_step (h : ReturnsUser k) (howned : Owned boot k F) (hinv : TableInv k l)
    (hlocal : Local k k') : ReturnsUser k' := by
  obtain ⟨F', hex, hg⟩ := hlocal.exchange howned hinv
  refine h.update (fun j hj => hex.kept howned hj) (fun _ => ?_) fun j => ?_
  · rw [hlocal.cr3_field]
    by_contra hmapped
    obtain ⟨e, he⟩ := Option.ne_none_iff_exists'.mp hmapped
    rcases hg.only _ e he with hold | hnew
    · have hnone := h.last k.currentProcess (howned.current_ne hinv)
      rw [show k.mm.lookup 4 (k.processes k.currentProcess).cr3 _ = some e from hold] at hnone
      cases hnone
    · exact lastUserPage_notMem_heapPaths hnew
  · rw [hlocal.sameTable.field Process.savedParentFrame fun _ _ _ _ _ _ => rfl]
    exact h.saved j

lemma ReturnsUser.vfork_step {r : UInt64 × SyscallFrame} (h : ReturnsUser k) (howned : Owned boot k F)
    (hinv : TableInv k l) (hrip : frame.userRip < userTop)
    (hvfork : syscallVfork frame k = (.ok r, k')) : ReturnsUser k' := by
  have hends := hinv.vfork_ends frame
  rw [hvfork] at hends
  cases hends with
  | full => exact h
  | noFrame hslot hnew =>
    obtain ⟨_, -, hkept⟩ := howned.vforkFailed_step (createKernelMappedPml4_zero howned hnew)
    exact h.kept hkept fun _ => rfl
  | noCopy hslot hnew hcr3 hclone =>
    obtain ⟨_, hcopied⟩ := vfork_copied howned hinv hnew hcr3 hclone
    obtain ⟨_, -, hkept⟩ := howned.vforkFailed_step hcopied.restored
    exact h.kept hkept fun _ => rfl
  | @done slot cr3 _ mm' hslot hnew hcr3 hclone =>
    have hunused := unusedSlot_some hslot
    have hne : slot ≠ k.currentProcess := (hinv.ne_unused List.mem_cons_self hunused).symm
    obtain ⟨_, -, hcopied, hkept⟩ := howned.vforked_step frame hinv hunused hnew hcr3 hclone
    refine h.update hkept (fun _ => ?_) fun j => ?_
    · rw [vforked_slot hne]
      -- the child has the pages of its parent
      have hcopy := hcopied.pages rfl (pathOf lastUserPage)
      have hnone : k.mm.lookup 4 k.current.cr3 (pathOf lastUserPage) = none :=
        h.last k.currentProcess (howned.current_ne hinv)
      rw [hnone] at hcopy
      change mm'.lookup 4 cr3 _ = none
      generalize mm'.lookup 4 cr3 (pathOf lastUserPage) = e at hcopy
      cases hcopy
      rfl
    · by_cases hj : j = slot
      · rw [hj, vforked_slot hne]
        exact hrip
      · rw [k.vforked_field frame slot cr3 mm' Process.savedParentFrame (fun _ _ => rfl) j hj]
        exact h.saved j

lemma vfork_frame {r : UInt64 × SyscallFrame} (hinv : TableInv k l)
    (hvfork : syscallVfork frame k = (.ok r, k')) : r.2 = frame := by
  have hends := hinv.vfork_ends frame
  rw [hvfork] at hends
  cases hends with
  | full | noFrame | noCopy | done => rfl

/-- A program that has been loaded, after the one that it replaces has been taken down. -/
lemma execed_enters {file : RamdiskFile} {next : Process} {mm : Mm} (howned : Owned boot k F)
    (hinv : TableInv k l) (hfile : SegmentsFit k.kmem file ∧ EntersUser k.kmem file)
    (hloaded : ProgramLoaded k.kmem file { k.current with cr3 := 0 } next k.mm mm F) :
    UserEntry (vmmDestroyUserSpace mm k.current.cr3 userTop) next.cr3 next.entry ∧
      (vmmDestroyUserSpace mm k.current.cr3 userTop).lookup 4 next.cr3 (pathOf lastUserPage) = none := by
  obtain ⟨⟨hge, hlt, hmapped⟩, hnone⟩ := (hloaded.enters_iff hfile.1).mpr hfile.2
  obtain ⟨_, _, -, hrep, -⟩ := execed_exchange howned hinv hloaded
  have hlow := lowerHalf_of_lt (lt_userTop_iff.mp hlt)
  rw [ne_eq, translate_eq_none_iff hlow] at hmapped
  refine ⟨⟨hge, hlt, ?_⟩, ?_⟩
  · rw [ne_eq, translate_eq_none_iff hlow, hrep.lookup]
    exact hmapped
  · rw [hrep.lookup]
    exact hnone

/-- What a system call answers: the processor goes on at a user address, after a successful `execve` at
the entry of the new program. -/
structure Returned (frame : SyscallFrame) (r : UInt64 × SyscallFrame) (k' : Kernel) : Prop where
  rip : r.2.userRip < userTop
  entry : syscallNumber frame.rax = .execve → r.1 = 0 → r.2.userRip = k'.current.entry ∧
    UserEntry k'.mm k'.current.cr3 k'.current.entry

lemma ReturnsUser.execve_step {path : CString} {argv envp : List CString} (h : ReturnsUser k)
    (howned : Owned boot k F) (hinv : TableInv k l) (hrip : frame.userRip < userTop)
    (hexecs : Execs frame path argv envp k k₁)
    (hok : ∀ file ∈ executedFile k frame, SegmentsFit k.kmem file ∧ EntersUser k.kmem file) :
    ReturnsUser (execveLoaded frame path argv envp k₁).2 ∧
      Returned frame (execveLoaded frame path argv envp k₁).1 (execveLoaded frame path argv envp k₁).2 := by
  have h₁ := h.local_step howned hinv hexecs.isLocal
  obtain ⟨F₁, howned₁, -⟩ := howned.local_step hinv hexecs.isLocal
  have hinv₁ := hexecs.isLocal.sameTable.inv hinv
  have hfits : ∀ file ∈ executedFile k frame, SegmentsFit k.kmem file := fun file hfile => (hok file hfile).1
  have hends := execveLoaded_ends frame path argv envp k₁
  generalize execveLoaded frame path argv envp k₁ = r at hends
  cases hends with
  | failed hload =>
    obtain ⟨_, -, hkept⟩ := howned₁.unloaded_step (howned₁.load_failed hexecs hfits hload)
    refine ⟨h₁.kept hkept fun _ => rfl, hrip, fun _ hzero => ?_⟩
    exact absurd hzero (show negativeErrno .noexec ≠ 0 by decide)
  | @done next mm hload =>
    obtain ⟨file, hfile, hloaded⟩ := howned₁.load_done hexecs hfits hload
    have hgood := hok file hfile
    rw [← hexecs.isLocal.kmem] at hloaded hgood
    obtain ⟨_, -, hkept⟩ := howned₁.execed_step hinv₁ hloaded
    obtain ⟨hentry, hlast⟩ := execed_enters howned₁ hinv₁ hgood hloaded
    have hself : (k₁.execed next (vmmDestroyUserSpace mm k₁.current.cr3 userTop)).current =
        { k₁.current with cr3 := next.cr3, entry := next.entry, stack := next.stack, brk := next.brk } := by
      simp [Kernel.execed, Kernel.current]
    refine ⟨h₁.update hkept (fun _ => ?_) fun j => ?_, hentry.lt, fun _ _ => ?_⟩
    · have hcr3 : (k₁.execed next (vmmDestroyUserSpace mm k₁.current.cr3 userTop)).current.cr3 = next.cr3 := by
        rw [hself]
      rw [← hcr3] at hlast
      exact hlast
    · rw [execed_field Process.savedParentFrame fun _ _ _ _ _ => rfl]
      exact h₁.saved j
    · rw [hself]
      exact ⟨rfl, hentry⟩

lemma ReturnsUser.wait4_step (h : ReturnsUser k) (howned : Owned boot k F) (hinv : TableInv k l)
    {pid : UInt64} (hzombie : zombieChild k pid = some i) (hlocal : Local k k₁) :
    ReturnsUser (k₁.reap i) := by
  have h₁ := h.local_step howned hinv hlocal
  obtain ⟨_, howned₁, -⟩ := howned.local_step hinv hlocal
  have hz : (k₁.processes i).state = .zombie := by
    rw [hlocal.sameTable.field Process.state fun _ _ _ _ _ _ => rfl]
    exact (zombieChild_some hzombie).1
  obtain ⟨_, -, hkept⟩ := howned₁.reap_step (hlocal.sameTable.inv hinv) hz
  refine h₁.update hkept (fun hne => ?_) fun j => ?_
  · rw [reap_self] at hne
    exact absurd rfl hne
  · by_cases hj : j = i
    · rw [hj, reap_self]
      decide
    · rw [reap_other hj]
      exact h₁.saved j

lemma ReturnsUser.exit_step {r : UInt64 × SyscallFrame} (h : ReturnsUser k) (howned : Owned boot k F)
    (hinv : TableInv k l) (hexit : syscallExit frame frame.rdi k = (.ok r, k')) :
    ReturnsUser k' ∧ r.2.userRip < userTop := by
  obtain ⟨parent, l', rfl, -, hne, rfl, rfl⟩ := hinv.exit_ok hexit
  obtain ⟨_, -, hkept⟩ := howned.exited_step hinv frame.rdi hne
  exact ⟨h.kept hkept (exited_field frame.rdi Process.savedParentFrame (fun _ _ _ => rfl) hne),
    h.saved k.currentProcess⟩

/-- Every system call keeps the invariant and goes on at a user address. -/
theorem ReturnsUser.dispatch {r : UInt64 × SyscallFrame} (h : ReturnsUser k) (howned : Owned boot k F)
    (hinv : TableInv k l) (hok : Enters k (.syscall frame))
    (hd : processSyscallDispatch frame k = (.ok r, k')) : ReturnsUser k' ∧ Returned frame r k' := by
  obtain ⟨hfrom, hfiles⟩ := hok
  have hrip := h.fromUser howned hinv hfrom
  by_cases hn : syscallNumber frame.rax = .execve
  · rw [processSyscallDispatch, hn] at hd
    dsimp only at hd
    rcases syscallExecve_cases frame k with ⟨hlocal, -, hfault⟩ | ⟨path, argv, envp, k₁, hexecs, heq⟩
    · rw [hd] at hlocal hfault
      obtain rfl := hfault r rfl
      refine ⟨h.local_step howned hinv hlocal, hrip, fun _ hzero => ?_⟩
      exact absurd hzero (show negativeErrno .fault ≠ 0 by decide)
    · rw [hd] at heq
      cases heq
      exact h.execve_step howned hinv hrip hexecs (hfiles hn)
  · have hout := dispatch_outcome frame k
    rw [hd] at hout
    generalize hr : ((.ok r : Except Stop (UInt64 × SyscallFrame)), k') = res at hout
    suffices hall : ReturnsUser k' ∧ r.2.userRip < userTop from
      ⟨hall.1, hall.2, fun hexecve => absurd hexecve hn⟩
    cases hout with
    | stays hlocal hframe =>
      cases hr
      refine ⟨h.local_step howned hinv hlocal, ?_⟩
      rw [hframe r.1 r.2 rfl]
      exact hrip
    | vfork =>
      refine ⟨h.vfork_step howned hinv hrip hr.symm, ?_⟩
      rw [vfork_frame hinv hr.symm]
      exact hrip
    | execve hexecve => exact absurd hexecve hn
    | wait4 _ hzombie hlocal =>
      cases hr
      exact ⟨h.wait4_step howned hinv hzombie hlocal, hrip⟩
    | exit => exact h.exit_step howned hinv hr.symm

theorem ReturnsUser.step (h : ReturnsUser k) (howned : Owned boot k F) (hinv : TableInv k l)
    (hok : Enters k e) (hstep : step k e = some k') : ReturnsUser k' := by
  cases e with
  | store address value =>
    cases step_cases hstep with
    | stays hlocal => exact h.local_step howned hinv hlocal
  | syscall frame =>
    obtain ⟨r, hd⟩ := step_syscall_ok hstep
    exact (h.dispatch howned hinv hok hd).1

end Steps

/-! ### Runs -/

section Runs

variable {boot : BootInfo} {es : List Event}

/-- The first program enters its own pages and leaves the last page alone. -/
def InitEnters (boot : BootInfo) : Prop :=
  ∀ file, ramdiskFind boot.kmem boot.ramdisk (cstr "/bin/xsh") = some file → EntersUser boot.kmem file

/-- The first process starts at a user address exactly if its program enters its own pages, given that it
leaves the last page alone. -/
lemma started_enters_iff (hboot : boot.memory.Valid) (hinit : InitFits boot) (hstart : Starts boot) :
    UserEntry (started boot).mm (started boot).current.cr3 (started boot).current.entry ∧
        (started boot).mm.lookup 4 (started boot).current.cr3 (pathOf lastUserPage) = none ↔
      InitEnters boot := by
  obtain ⟨next, mm, file, F, hstarted, hfile, -, -, hloaded⟩ := started_loaded hboot hinit hstart
  have hcurrent : (boot.enter next mm).current = next := enter_first
  have hmm : (boot.enter next mm).mm = mm := rfl
  rw [hstarted, hcurrent, hmm, hloaded.enters_iff (hinit file hfile)]
  constructor
  · intro henters file' hfile'
    rw [hfile, Option.some.injEq] at hfile'
    exact hfile' ▸ henters
  · exact fun henters => henters file hfile

lemma returnsUser_started (hstart : Starts boot)
    (hlast : (started boot).mm.lookup 4 (started boot).current.cr3 (pathOf lastUserPage) = none) :
    ReturnsUser (started boot) := by
  obtain ⟨cr3, entry, stack, brk, mm, hstarted⟩ := started_fresh hstart
  rw [hstarted] at hlast ⊢
  refine ⟨fun i hi => ?_, fun i => ?_⟩
  · by_cases hzero : i = 0
    · rw [hzero]
      exact hlast
    · rw [enter_other hzero] at hi
      exact absurd rfl hi
  · by_cases hzero : i = 0
    · rw [hzero, enter_first]
      exact show (0 : UInt64) < userTop by decide
    · rw [enter_other hzero]
      decide

/-- In every run whose programs enter their own pages and leave the last page alone, the first process
starts at a user address, no process has the last page, and every system call goes on at a user
address. -/
theorem returns_to_user (hboot : boot.memory.Valid) (hinit : InitFits boot) (henters : InitEnters boot)
    (hstart : Starts boot) (hrun : Run Enters (started boot) es k) :
    UserEntry (started boot).mm (started boot).current.cr3 (started boot).current.entry ∧
      (∀ i, (k.processes i).cr3 ≠ 0 → ∀ v, lastUserPage ≤ v → v < userTop →
        vmmTranslate k.mm (k.processes i).cr3 v = none) ∧
      ∀ frame r k', Enters k (.syscall frame) → processSyscallDispatch frame k = (.ok r, k') →
        Returned frame r k' := by
  obtain ⟨hentry, hlast⟩ := (started_enters_iff hboot hinit hstart).mpr henters
  have howns : ∀ {es k}, Run Enters (started boot) es k → ∃ l F, TableInv k l ∧ Owned boot.memory k F :=
    fun hrun => owned_of_run hboot hinit hstart (hrun.mono fun _ _ hok => hok.execFits)
  have hreturns : ReturnsUser k := by
    refine hrun.invariant_run (returnsUser_started hstart hlast) fun hrun hreturns hok hstep => ?_
    obtain ⟨l, F, hinv, howned⟩ := howns hrun
    exact hreturns.step howned hinv hok hstep
  refine ⟨hentry, fun i hi v => hreturns.translate hi, fun frame r k' hok hd => ?_⟩
  obtain ⟨l, F, hinv, howned⟩ := howns hrun
  exact (hreturns.dispatch howned hinv hok hd).2

/-- The program of a small machine, with an entry on its page. -/
lemma SmallProgram.enters {entry : UInt64} (h : SmallProgram boot entry)
    (hentry : entry.toNat / 4096 = 16) : InitEnters boot := by
  intro file hfile
  rw [h.file, Option.some.injEq] at hfile
  subst hfile
  have hvaddr : (0x10000 : UInt64).toNat = 65536 := rfl
  have hmemsz : (0x1000 : UInt64).toNat = 4096 := rfl
  refine ⟨?_, ?_⟩
  · rintro header ⟨hheader, -⟩
    rw [h.header, Option.some.injEq] at hheader
    subst hheader
    change entry.toNat < 2 ^ 47 ∧ _
    refine ⟨by omega, .inl ⟨0, h.loadable, ?_⟩⟩
    rw [h.segment]
    change 65536 / 4096 ≤ entry.toNat / 4096 ∧ entry.toNat / 4096 * 4096 < 65536 + 4096
    omega
  · rintro header ⟨hheader, -⟩ i hi
    rw [h.header, Option.some.injEq] at hheader
    subst hheader
    rw [SmallProgram.index hi.1, h.segment]
    decide

/-- The call `getpid` at the address 0x10000. -/
def getpidCall : SyscallFrame := { call 39 with userRip := 0x10002 }

lemma getpid_returns (k : Kernel) :
    processSyscallDispatch getpidCall k = (.ok (toU64 k.current.pid, getpidCall), k) := by
  have hn : syscallNumber getpidCall.rax = .getpid := by decide
  rw [processSyscallDispatch, hn]
  rfl

lemma SmallProgram.getpid {entry : UInt64} (h : SmallProgram boot entry) (hboot : boot.memory.Valid)
    (hstart : Starts boot) : Enters (started boot) (.syscall getpidCall) := by
  refine ⟨⟨0x10000, by decide, ?_, rfl⟩, fun hn => ?_⟩
  · obtain ⟨F, howned, -⟩ := owned_started hboot h.initFits hstart
    obtain ⟨-, -, hmapped⟩ := h.space hboot hstart
    rw [howned.current, ne_eq, translate_eq_none_iff (lowerHalf_of_lt (by decide))]
    exact (hmapped 0x10000 (by decide)).mpr (.inl rfl)
  · exact absurd (show syscallNumber 39 = .execve from hn) (by decide)

/-- The first process of the small machine asks for its number. -/
theorem returns_to_user_small :
    UserEntry (started (smallBoot 0x10000)).mm (started (smallBoot 0x10000)).current.cr3
        (started (smallBoot 0x10000)).current.entry ∧
      ∃ r k, processSyscallDispatch getpidCall (started (smallBoot 0x10000)) = (.ok r, k) ∧
        Returned getpidCall r k := by
  have hboot := smallBoot_valid 0x10000
  have hstart := smallBoot_starts
  obtain ⟨hentry, -, hreturned⟩ := returns_to_user hboot smallProgram.initFits
    (smallProgram.enters (by decide)) hstart .nil
  have hcall := getpid_returns (started (smallBoot 0x10000))
  exact ⟨hentry, _, _, hcall, hreturned _ _ _ (smallProgram.getpid hboot hstart) hcall⟩

lemma strayProgram : SmallProgram (smallBoot 0x800000000000) 0x800000000000 where
  available := by decide +kernel
  file := by decide +kernel
  header := by decide +kernel
  segment := by decide +kernel

/-- A program whose entry is the first address above the user's part is started there. -/
theorem entry_outside_user : (smallBoot 0x800000000000).memory.Valid ∧
    InitFits (smallBoot 0x800000000000) ∧ Starts (smallBoot 0x800000000000) ∧
    (started (smallBoot 0x800000000000)).current.entry = userTop ∧
    ¬UserEntry (started (smallBoot 0x800000000000)).mm (started (smallBoot 0x800000000000)).current.cr3
      (started (smallBoot 0x800000000000)).current.entry := by
  have hboot := smallBoot_valid 0x800000000000
  have hstart := strayProgram.starts hboot (by rw [smallBoot_frames]; norm_num)
  obtain ⟨-, hentry, -⟩ := strayProgram.space hboot hstart
  refine ⟨hboot, strayProgram.initFits, hstart, hentry, fun huser => ?_⟩
  have hlt := huser.lt
  rw [hentry] at hlt
  exact absurd hlt (by decide)

end Runs

end Xbks
