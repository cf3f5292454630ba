import Xbks.Process.Storing
import Xbks.Properties.FrameOwnership

/-!
# Files

The descriptors of every process in every state of every run, and what the calls on them do: `open`
takes the lowest free descriptor, `lseek` moves the offset, and `read` delivers the bytes of the file
from the offset on.
-/

namespace Xbks

variable {boot : BootInfo} {ok : Kernel → Event → Prop} {es : List Event} {k k' : Kernel} {p : Slot}
  {i : Fin 16}

/-! ### Descriptors -/

lemma fdTable_fresh {kmem : KernelMemory} {rd : Ramdisk} (pid : ℤ) :
    FdTable kmem rd (Process.fresh pid).fds := by
  refine ⟨rfl, rfl, rfl, fun i hi => .inl ?_⟩
  have h0 : i ≠ 0 := by rintro rfl; exact absurd hi (by decide)
  have h1 : i ≠ 1 := by rintro rfl; exact absurd hi (by decide)
  have h2 : i ≠ 2 := by rintro rfl; exact absurd hi (by decide)
  simp [Process.fresh, h0, h1, h2, ProcessFd.zero]

lemma fdInv_started (hstart : Starts boot) : FdInv (started boot) := by
  obtain ⟨cr3, entry, stack, brk, mm, heq⟩ := started_fresh hstart
  rw [heq]
  intro p hp
  by_cases hp0 : p = 0
  · rw [hp0, enter_first]
    exact fdTable_fresh 1
  · rw [enter_other hp0] at hp
    exact absurd rfl hp

theorem fdInv_of_run (hstart : Starts boot) (hrun : Run ok (started boot) es k) : FdInv k := by
  have h : ∃ l, TableInv k l ∧ FdInv k := by
    refine hrun.invariant (P := fun k => ∃ l, TableInv k l ∧ FdInv k) ?_ ?_
    · exact ⟨[], tableInv_started hstart, fdInv_started hstart⟩
    · rintro k k' e ⟨l, hinv, hfds⟩ _ hstep
      obtain ⟨l', hinv'⟩ := hinv.step hstep
      exact ⟨l', hinv', hfds.step hinv hstep⟩
  obtain ⟨_, _, hfds⟩ := h
  exact hfds

/-- The archive never changes. -/
lemma archive_step {l : List Slot} {e : Event} (hinv : TableInv k l) (hstep : step k e = some k') :
    k'.kmem = k.kmem ∧ k'.ramdisk = k.ramdisk := by
  cases step_cases hstep with
  | stays hlocal => exact ⟨hlocal.kmem, hlocal.ramdisk⟩
  | @vfork frame _ _ _ hvfork =>
    have hends := hinv.vfork_ends frame
    rw [hvfork] at hends
    cases hends with
    | full | noFrame | noCopy | done => exact ⟨rfl, rfl⟩
  | @execve frame path argv envp k₁ _ hexecs =>
    have hends := execveLoaded_ends frame path argv envp k₁
    generalize execveLoaded frame path argv envp k₁ = r at hends
    cases hends with
    | failed | done => exact ⟨hexecs.isLocal.kmem, hexecs.isLocal.ramdisk⟩
  | wait4 _ _ hlocal => exact ⟨hlocal.kmem, hlocal.ramdisk⟩
  | exit _ hexit =>
    obtain ⟨parent, l', rfl, -, -, rfl, -⟩ := hinv.exit_ok hexit
    exact ⟨rfl, rfl⟩

lemma archive_of_run (hstart : Starts boot) (hrun : Run ok (started boot) es k) :
    k.kmem = boot.kmem ∧ k.ramdisk = boot.ramdisk := by
  have h : ∃ l, TableInv k l ∧ k.kmem = boot.kmem ∧ k.ramdisk = boot.ramdisk := by
    refine hrun.invariant
      (P := fun k => ∃ l, TableInv k l ∧ k.kmem = boot.kmem ∧ k.ramdisk = boot.ramdisk) ?_ ?_
    · obtain ⟨next, mm, -, heq⟩ := started_eq hstart
      refine ⟨[], tableInv_started hstart, ?_⟩
      rw [heq]
      exact ⟨rfl, rfl⟩
    · rintro k k' e ⟨l, hinv, hkmem, hramdisk⟩ _ hstep
      obtain ⟨l', hinv'⟩ := hinv.step hstep
      obtain ⟨hkmem', hramdisk'⟩ := archive_step hinv hstep
      exact ⟨l', hinv', hkmem'.trans hkmem, hramdisk'.trans hramdisk⟩
  obtain ⟨_, _, harchive⟩ := h
  exact harchive

/-- Standard descriptors, then free ones, files inside the archive and directories. -/
structure DescriptorsOk (rd : Ramdisk) (fds : Fin 16 → ProcessFd) : Prop where
  stdin : (fds 0).type = .stdin
  stdout : (fds 1).type = .stdout
  stderr : (fds 2).type = .stderr
  rest : ∀ i : Fin 16, 3 ≤ i.val → (fds i).type = .none ∨
    (fds i).type = .file ∧ InArchive rd (fds i).file.data (fds i).file.size ∨ (fds i).type = .dir

lemma FdTable.descriptorsOk {kmem : KernelMemory} {rd : Ramdisk} {fds : Fin 16 → ProcessFd}
    (hsize : rd.Fits) (h : FdTable kmem rd fds) : DescriptorsOk rd fds := by
  refine ⟨h.stdin, h.stdout, h.stderr, fun i hi => ?_⟩
  rcases h.opened i hi with hnone | ⟨path, hfind, htype⟩
  · exact .inl hnone
  · right
    cases hdir : (fds i).file.directory with
    | true =>
      rw [hdir] at htype
      exact .inr htype
    | false =>
      rw [hdir] at htype
      refine .inl ⟨htype, (ramdiskFind_cases hsize hfind).resolve_left fun himplicit => ?_⟩
      rw [himplicit] at hdir
      cases hdir

/-! ### Calls on a descriptor -/

lemma fdIndex_ofNat (i : Fin 16) : fdIndex (UInt64.ofNat i) = some i := by
  have hi := i.isLt
  have hval : (UInt64.ofNat i).toNat = i := Word.toNat_ofNat_of_lt (by omega)
  rw [fdIndex, dif_pos (by omega)]
  exact congrArg some (Fin.ext hval)

/-- The number of bytes that a read of `count` bytes delivers. -/
def available (fd : ProcessFd) (count : UInt64) : ℕ :=
  if fd.offset < fd.file.size then min count.toNat (fd.file.size.toNat - fd.offset.toNat) else 0

/-- The bytes of the file from the offset on. -/
def fileBytes (kmem : KernelMemory) (fd : ProcessFd) (n : ℕ) : List UInt8 :=
  bytesAt kmem (fd.file.data + fd.offset) n

variable {fd : ProcessFd} {address count : UInt64}

lemma available_le (fd : ProcessFd) (count : UInt64) : available fd count ≤ count.toNat := by
  rw [available]
  split_ifs
  · exact min_le_left _ _
  · exact Nat.zero_le _

@[simp] lemma length_fileBytes (kmem : KernelMemory) (n : ℕ) : (fileBytes kmem fd n).length = n := by
  simp [fileBytes]

@[simp] lemma toNat_available (fd : ProcessFd) (count : UInt64) :
    (UInt64.ofNat (available fd count)).toNat = available fd count := by
  have hle := available_le fd count
  have hlt := count.toNat_lt
  exact Word.toNat_ofNat_of_lt (by omega)

/-- The number that the code computes. -/
lemma ofNat_available (hlt : fd.offset < fd.file.size) : UInt64.ofNat (available fd count) =
    if count < fd.file.size - fd.offset then count else fd.file.size - fd.offset := by
  have hsub : (fd.file.size - fd.offset).toNat = fd.file.size.toNat - fd.offset.toNat :=
    UInt64.toNat_sub_of_le _ _ (UInt64.le_of_lt hlt)
  rw [available, if_pos hlt]
  by_cases hcount : count < fd.file.size - fd.offset
  · rw [if_pos hcount]
    rw [UInt64.lt_iff_toNat_lt, hsub] at hcount
    rw [min_eq_left hcount.le, UInt64.ofNat_toNat]
  · rw [if_neg hcount]
    rw [UInt64.lt_iff_toNat_lt, hsub] at hcount
    rw [min_eq_right (not_lt.mp hcount), ← hsub, UInt64.ofNat_toNat]

/-- A read of a file stores the bytes from the offset on and moves the offset behind them. -/
lemma syscallRead_file (htype : (k.current.fds i).type = .file)
    (hvalid : userRangeIsValid address count = true) :
    syscallRead (UInt64.ofNat i) address count k =
      ((do
        writeUserBytes address 0
          (fileBytes k.kmem (k.current.fds i) (available (k.current.fds i) count))
        Prog.modify fun k' => k'.setFd i
          ((k.current.fds i).advance (available (k.current.fds i) count))
        return UInt64.ofNat (available (k.current.fds i) count) : KernelM UInt64) k) := by
  rw [syscallRead, if_neg (not_not.mpr hvalid), Prog.get_bind_apply, fdIndex_ofNat]
  by_cases hend : (k.current.fds i).offset ≥ (k.current.fds i).file.size
  · have hzero : available (k.current.fds i) count = 0 := if_neg (UInt64.not_lt.mpr hend)
    simp only [htype, if_pos hend, hzero, advance_zero]
    show _ = (Except.ok (UInt64.ofNat 0), k.setFd i (k.current.fds i))
    rw [setFd_self]
    rfl
  · have hlt : (k.current.fds i).offset < (k.current.fds i).file.size := UInt64.not_le.mp hend
    simp only [htype, if_neg hend, ← ofNat_available hlt, toNat_available, ProcessFd.advance, fileBytes]

/-- A read returns the number of bytes that are available exactly when the buffer has room for them in
mapped pages. -/
lemma syscallRead_ends (hintact : Intact k) (htype : (k.current.fds i).type = .file)
    (hvalid : userRangeIsValid address count = true) :
    (k.view.Has address.toNat (available (k.current.fds i) count) →
      ∃ k', syscallRead (UInt64.ofNat i) address count k =
          (.ok (UInt64.ofNat (available (k.current.fds i) count)), k') ∧
        k'.view = k.view.store address.toNat
          (fileBytes k.kmem (k.current.fds i) (available (k.current.fds i) count)) ∧
        k'.processes = (k.setFd i
          ((k.current.fds i).advance (available (k.current.fds i) count))).processes) ∧
    (¬k.view.Has address.toNat (available (k.current.fds i) count) →
      ∃ a k', syscallRead (UInt64.ofNat i) address count k = (.error (.pageFault a), k')) := by
  have hends : StoreEnds k (address.toNat + 0)
      (fileBytes k.kmem (k.current.fds i) (available (k.current.fds i) count))
      (writeUserBytes address 0
        (fileBytes k.kmem (k.current.fds i) (available (k.current.fds i) count)) k) :=
    writeUserBytes_ends_of_valid hintact hvalid
      (by rw [length_fileBytes, Nat.zero_add]; exact available_le _ _)
  rw [syscallRead_file htype hvalid, Prog.bind_apply]
  rw [Nat.add_zero] at hends
  generalize writeUserBytes address 0 _ k = r at hends
  cases hends with
  | @done k₁ hhas hstored =>
    rw [length_fileBytes] at hhas
    refine ⟨fun _ => ⟨_, rfl, ?_, ?_⟩, fun hno => absurd hhas hno⟩
    · exact hstored.view
    · obtain ⟨mm, accesses, rfl⟩ := hstored.same
      rfl
  | faults hhas =>
    rw [length_fileBytes] at hhas
    exact ⟨fun hall => absurd hall hhas, fun _ => ⟨_, _, rfl⟩⟩

/-- How `lseek` moves the offset. -/
lemma syscallLseek_file {offset whence next : UInt64} (htype : (k.current.fds i).type = .file)
    (hnext : whence = 0 ∧ next = offset ∨ whence = 1 ∧ next = (k.current.fds i).offset + offset ∨
      whence = 2 ∧ next = (k.current.fds i).file.size + offset) :
    syscallLseek (UInt64.ofNat i) offset whence k =
      (.ok next, k.setFd i { k.current.fds i with offset := next }) := by
  rw [syscallLseek, Prog.get_bind_apply, fdIndex_ofNat]
  rcases hnext with ⟨rfl, rfl⟩ | ⟨rfl, rfl⟩ | ⟨rfl, rfl⟩
  · simp [htype]
  · simp [htype]
  · simp [htype]

/-- The lowest free descriptor behind the standard ones. -/
structure LowestFree (k : Kernel) (i : Fin 16) : Prop where
  ge : 3 ≤ i.val
  free : (k.current.fds i).type = .none
  lowest : ∀ j : Fin 16, 3 ≤ j.val → j < i → (k.current.fds j).type ≠ .none

/-- The descriptor of a file that has just been opened. -/
def RamdiskFile.opened (file : RamdiskFile) : ProcessFd :=
  ⟨if file.directory then .dir else .file, file, 0⟩

inductive OpenEnds (k : Kernel) (pathAddress : UInt64) : Except Stop UInt64 × Kernel → Prop
  | refused {error : Errno} {k' : Kernel} (h : SameRecords k k') :
      OpenEnds k pathAddress (.ok (negativeErrno error), k')
  | opened {i : Fin 16} {path : CString} {file : RamdiskFile} {k₁ : Kernel} (hi : LowestFree k i)
      (hpath : HoldsString k.view pathAddress.toNat path)
      (hfile : ramdiskFind k.kmem k.ramdisk path = some file) (hreads : Reads k k₁) :
      OpenEnds k pathAddress (.ok (UInt64.ofNat i), k₁.setFd i file.opened)
  | faults {address : UInt64} {k' : Kernel} : OpenEnds k pathAddress (.error (.pageFault address), k')

lemma syscallOpen_ends (pathAddress : UInt64) (k : Kernel) :
    OpenEnds k pathAddress (syscallOpen pathAddress k) := by
  rw [syscallOpen, Prog.get_bind_apply]
  cases hfd : allocateFd k.current with
  | none => exact .refused (.refl k)
  | some i =>
    obtain ⟨hge, hfree, hlowest⟩ := allocateFd_some hfd
    have hends := copyUserString_ends (k := k) (show 0 < maxString by norm_num) (by norm_num) pathAddress
    dsimp only
    rw [Prog.bind_apply]
    generalize copyUserString maxString pathAddress k = r at hends
    cases hends with
    | faults => exact .faults
    | refused _ _ hreads => exact .refused hreads.sameRecords
    | @copied path k₁ _ hpath _ hreads =>
      cases hfile : ramdiskFind k.kmem k.ramdisk path with
      | none =>
        simp only [hfile]
        exact .refused hreads.sameRecords
      | some file =>
        simp only [hfile]
        exact .opened ⟨hge, hfree, hlowest⟩ hpath hfile hreads

/-- A path that names something is opened when a descriptor is free. -/
lemma syscallOpen_holds {pathAddress : UInt64} {path : CString} {file : RamdiskFile}
    (hge : 65536 ≤ pathAddress.toNat) (hpath : HoldsString k.view pathAddress.toNat path)
    (hlen : path.length < 256) (hfile : ramdiskFind k.kmem k.ramdisk path = some file)
    (hfree : ∃ j : Fin 16, 3 ≤ j.val ∧ (k.current.fds j).type = .none) :
    ∃ i k₁, LowestFree k i ∧ Reads k k₁ ∧
      syscallOpen pathAddress k = (.ok (UInt64.ofNat i), k₁.setFd i file.opened) := by
  obtain ⟨k₁, hcopy, hreads⟩ := copyUserString_holds (show maxString ≤ 2 ^ 32 by norm_num) hpath hlen hge
  rw [syscallOpen, Prog.get_bind_apply]
  cases hfd : allocateFd k.current with
  | none =>
    obtain ⟨j, hj, hnone⟩ := hfree
    rw [allocateFd, List.find?_eq_none] at hfd
    exact absurd (decide_eq_true ⟨hj, hnone⟩) (hfd j (List.mem_finRange j))
  | some i =>
    obtain ⟨hge, hfree, hlowest⟩ := allocateFd_some hfd
    refine ⟨i, k₁, ⟨hge, hfree, hlowest⟩, hreads, ?_⟩
    dsimp only
    rw [Prog.bind_ok hcopy]
    simp only [hfile]
    rfl

/-! ### Sequences of calls -/

lemma Tidy.intact (h : Tidy boot k) : Intact k := by
  obtain ⟨l, F, hinv, howned⟩ := h
  refine ⟨F, howned.pool, ?_⟩
  rw [howned.current]
  exact howned.separate (howned.current_ne hinv)

/-- A call with a buffer, and the states around it. -/
structure Call where
  before : Kernel
  address : UInt64
  count : UInt64
  result : UInt64
  after : Kernel

/-- What the program finds in its buffer after the call. -/
def Call.delivered (c : Call) : Option (List UInt8) :=
  c.after.view.load c.address.toNat c.result.toNat

/-- Calls of the process in slot `p` on its descriptor `i`, with other steps of the machine between
them that leave the descriptor as it is. -/
inductive Calls (ok : Kernel → Event → Prop) (p : Slot) (i : Fin 16) (number : UInt64) :
    Kernel → List Call → Kernel → Prop
  | done (k : Kernel) : Calls ok p i number k [] k
  | other {k k₁ k' : Kernel} {e : Event} {cs : List Call} (hok : ok k e)
      (hstep : step k e = some k₁) (hsame : (k₁.processes p).fds i = (k.processes p).fds i)
      (h : Calls ok p i number k₁ cs k') : Calls ok p i number k cs k'
  | call {k k₁ k' : Kernel} {frame : SyscallFrame} {r : UInt64 × SyscallFrame} {cs : List Call}
      (hnumber : frame.rax = number) (hfd : frame.rdi = UInt64.ofNat i) (hp : k.currentProcess = p)
      (hvalid : userRangeIsValid frame.rsi frame.rdx = true)
      (hcall : processSyscallDispatch frame k = (.ok r, k₁)) (h : Calls ok p i number k₁ cs k') :
      Calls ok p i number k (⟨k, frame.rsi, frame.rdx, r.1, k₁⟩ :: cs) k'

lemma Tidy.call {frame : SyscallFrame} {r : UInt64 × SyscallFrame} (h : Tidy boot k)
    (hn : syscallNumber frame.rax ≠ .execve) (hcall : processSyscallDispatch frame k = (.ok r, k')) :
    Tidy boot k' ∧ k'.kmem = k.kmem ∧ k'.ramdisk = k.ramdisk := by
  have hstep : Xbks.step k (.syscall frame) = some k' := by rw [Xbks.step, hcall]
  have hok : ExecFits k (.syscall frame) := fun hexec => absurd hexec hn
  obtain ⟨l, F, hinv, howned⟩ := id h
  exact ⟨h.step hok hstep, archive_step hinv hstep⟩

lemma fileBytes_add (kmem : KernelMemory) (fd : ProcessFd) (m n : ℕ) :
    fileBytes kmem fd (m + n) = fileBytes kmem fd m ++ fileBytes kmem (fd.advance m) n := by
  rw [fileBytes, bytesAt_add, UInt64.add_assoc]
  rfl

lemma toNat_advance {n : ℕ} (hle : fd.offset.toNat ≤ fd.file.size.toNat)
    (hn : n ≤ fd.file.size.toNat - fd.offset.toNat) :
    (fd.advance n).offset.toNat = fd.offset.toNat + n := by
  have hlt := fd.file.size.toNat_lt
  exact toNat_add_ofNat (by omega)

lemma available_le_rest (fd : ProcessFd) (count : UInt64) :
    available fd count ≤ fd.file.size.toNat - fd.offset.toNat := by
  rw [available]
  split_ifs
  · exact min_le_right _ _
  · exact Nat.zero_le _

/-- The bytes that consecutive reads have delivered. -/
def totalRead (cs : List Call) : ℕ := (cs.map fun c => c.result.toNat).sum

/-- Consecutive reads deliver the file piece by piece. -/
lemma reads_concatenate {cs : List Call} (h : Calls ExecFits p i 0 k cs k') (htidy : Tidy boot k)
    (hfd : (k.processes p).fds i = fd) (htype : fd.type = .file) :
    ∃ parts : List (List UInt8), cs.map Call.delivered = parts.map some ∧
      parts.flatten = fileBytes k.kmem fd (totalRead cs) ∧
      (k'.processes p).fds i = fd.advance (totalRead cs) ∧
      (fd.offset.toNat ≤ fd.file.size.toNat →
        fd.offset.toNat + totalRead cs ≤ fd.file.size.toNat) := by
  induction h generalizing fd with
  | done k => exact ⟨[], rfl, rfl, by rw [hfd]; exact (advance_zero fd).symm, fun h => h⟩
  | @other k k₁ k' e cs hok hstep hsame h ih =>
    obtain ⟨l, F, hinv, howned⟩ := id htidy
    rw [← (archive_step hinv hstep).1]
    exact ih (htidy.step hok hstep) (hsame.trans hfd) htype
  | @call k k₁ k' frame r cs hnumber hindex hp hvalid hcall h ih =>
    have hn : syscallNumber frame.rax = .read := by rw [hnumber]; rfl
    obtain ⟨htidy₁, hkmem, -⟩ := htidy.call (by rw [hn]; exact SyscallNumber.noConfusion) hcall
    have hcurrent : k.current.fds i = fd := by
      rw [← hfd, ← hp]
      rfl
    -- the call is a read that returned
    rw [processSyscallDispatch, hn] at hcall
    obtain ⟨hread, -⟩ := withFrame_ok hcall
    rw [hindex] at hread
    obtain ⟨hreturns, hfaults⟩ := syscallRead_ends htidy.intact (hcurrent ▸ htype) hvalid
    have hhas : k.view.Has frame.rsi.toNat (available (k.current.fds i) frame.rdx) := by
      by_contra hno
      obtain ⟨a, k₂, hfault⟩ := hfaults hno
      rw [hfault] at hread
      cases hread
    obtain ⟨k₂, hread', hview, hprocesses⟩ := hreturns hhas
    rw [hread'] at hread
    obtain ⟨hok, rfl⟩ := Prod.mk.inj hread
    have hresult : UInt64.ofNat (available (k.current.fds i) frame.rdx) = r.1 := Except.ok.inj hok
    rw [hcurrent] at hresult hview hprocesses
    have hfd₁ : (k₂.processes p).fds i = fd.advance (available fd frame.rdx) := by
      have hcur := congrArg Process.fds (setFd_current k i (fd.advance (available fd frame.rdx)))
      rw [Kernel.current] at hcur
      rw [hprocesses, ← hp]
      exact (congrFun hcur i).trans (Function.update_self _ _ _)
    obtain ⟨parts, hparts, hflat, hlast, hrest⟩ := ih htidy₁ hfd₁ htype
    have htotal : totalRead (⟨k, frame.rsi, frame.rdx, r.1, k₂⟩ :: cs) =
        available fd frame.rdx + totalRead cs := by
      rw [totalRead, List.map_cons, List.sum_cons, ← hresult, toNat_available]
      rfl
    refine ⟨fileBytes k.kmem fd (available fd frame.rdx) :: parts, ?_, ?_, ?_, ?_⟩
    · have hload : Call.delivered ⟨k, frame.rsi, frame.rdx, r.1, k₂⟩ =
          some (fileBytes k.kmem fd (available fd frame.rdx)) := by
        rw [Call.delivered]
        dsimp only
        rw [← hresult, toNat_available, hview]
        nth_rewrite 2 [← length_fileBytes k.kmem (available fd frame.rdx)]
        exact Memory.load_store
      rw [List.map_cons, List.map_cons, hload, hparts]
    · rw [List.flatten_cons, hflat, htotal, fileBytes_add, hkmem]
    · rw [hlast, htotal, advance_advance]
    · intro hle
      have hstep := available_le_rest fd frame.rdx
      have hnext := toNat_advance hle hstep
      rw [htotal]
      rw [hnext] at hrest
      have hsize : (fd.advance (available fd frame.rdx)).file.size = fd.file.size := rfl
      rw [hsize] at hrest
      have := hrest (by omega)
      omega

/-! ### Runs -/

/-- `open` is a system call. -/
lemma step_open (h : syscallOpen address k = (.ok r, k')) : ∃ e, ExecFits k e ∧ step k e = some k' := by
  have hn : syscallNumber 2 = .open := rfl
  refine ⟨.syscall { SyscallFrame.zero with rax := 2, rdi := address }, fun hexec => ?_, ?_⟩
  · exact absurd (hn.symm.trans hexec) (by decide)
  · rw [step, processSyscallDispatch]
    simp only [hn, withFrame, Prog.bind_ok h]
    rfl

lemma negativeErrno_ne_ofNat (error : Errno) (i : Fin 16) : negativeErrno error ≠ UInt64.ofNat i := by
  intro h
  have hi : (UInt64.ofNat i).toNat = i := Word.toNat_ofNat_of_lt (by omega)
  rw [← h] at hi
  have hlarge : 16 ≤ (negativeErrno error).toNat := by
    cases error <;> decide
  omega

/-- `open` fails without an effect on the table, or takes the lowest free descriptor and no other; and it
does not fail when a descriptor is free and the path names something. -/
structure OpensLowest (k : Kernel) : Prop where
  answer : ∀ address r k', syscallOpen address k = (.ok r, k') →
    (k'.processes = k.processes ∧ ∃ error, r = negativeErrno error) ∨
    ∃ (i : Fin 16) (file : RamdiskFile), r = UInt64.ofNat i ∧ LowestFree k i ∧
      k'.processes = (k.setFd i file.opened).processes
  opens : ∀ address path file, 65536 ≤ address.toNat → HoldsString k.view address.toNat path →
    path.length < 256 → ramdiskFind k.kmem k.ramdisk path = some file →
    (∃ j : Fin 16, 3 ≤ j.val ∧ (k.current.fds j).type = .none) →
    ∃ (i : Fin 16) (k' : Kernel), syscallOpen address k = (.ok (UInt64.ofNat i), k') ∧ LowestFree k i ∧
      k'.processes = (k.setFd i (RamdiskFile.opened file)).processes

/-- `lseek` on a file moves its offset, modulo `2 ^ 64`, and nothing else. -/
def SeeksFiles (k : Kernel) : Prop :=
  ∀ i offset whence next, (k.current.fds i).type = .file →
    (whence = 0 ∧ next = offset ∨ whence = 1 ∧ next = (k.current.fds i).offset + offset ∨
      whence = 2 ∧ next = (k.current.fds i).file.size + offset) →
    syscallLseek (UInt64.ofNat i) offset whence k =
      (.ok next, k.setFd i { k.current.fds i with offset := next })

/-- A read of a file stores the bytes between its offset and the end, as far as they are asked for, answers
their number and moves the offset behind them. -/
def StoresFiles (k : Kernel) : Prop :=
  ∀ i address count, (k.current.fds i).type = .file → userRangeIsValid address count = true →
    (available (k.current.fds i) count = 0 ∨ (k.current.fds i).offset.toNat +
      available (k.current.fds i) count ≤ (k.current.fds i).file.size.toNat) ∧
    syscallRead (UInt64.ofNat i) address count k =
      ((do
        writeUserBytes address 0
          (fileBytes k.kmem (k.current.fds i) (available (k.current.fds i) count))
        Prog.modify fun k' => k'.setFd i
          ((k.current.fds i).advance (available (k.current.fds i) count))
        return UInt64.ofNat (available (k.current.fds i) count) : KernelM UInt64) k)

/-- When the buffer is mapped the read returns, and the program finds exactly these bytes in it and
nothing else changed. -/
def DeliversFiles (k : Kernel) : Prop :=
  ∀ i address count, (k.current.fds i).type = .file → userRangeIsValid address count = true →
    k.view.Has address.toNat (available (k.current.fds i) count) →
    ∃ k', syscallRead (UInt64.ofNat i) address count k =
        (.ok (UInt64.ofNat (available (k.current.fds i) count)), k') ∧
      k'.view = k.view.store address.toNat
        (fileBytes k.kmem (k.current.fds i) (available (k.current.fds i) count)) ∧
      k'.processes = (k.setFd i
        ((k.current.fds i).advance (available (k.current.fds i) count))).processes

/-- Whatever happens between them, reads without a move of the offset deliver consecutive pieces of the
file. -/
def ReadsConcatenate (k : Kernel) : Prop :=
  ∀ p i cs k', Calls ExecFits p i 0 k cs k' → ((k.processes p).fds i).type = .file →
    ∃ parts : List (List UInt8), cs.map Call.delivered = parts.map some ∧
      parts.flatten = fileBytes k.kmem ((k.processes p).fds i) (totalRead cs) ∧
      (k'.processes p).fds i = ((k.processes p).fds i).advance (totalRead cs) ∧
      (((k.processes p).fds i).offset.toNat ≤ ((k.processes p).fds i).file.size.toNat →
        ((k.processes p).fds i).offset.toNat + totalRead cs ≤
          ((k.processes p).fds i).file.size.toNat)

lemma opensLowest (k : Kernel) : OpensLowest k where
  answer address r k' h := by
    have hends := syscallOpen_ends address k
    rw [h] at hends
    generalize hr : ((.ok r : Except Stop UInt64), k') = res at hends
    cases hends with
    | @refused error _ hsame =>
      obtain ⟨hok, rfl⟩ := Prod.mk.inj hr
      exact .inl ⟨hsame.processes, error, Except.ok.inj hok⟩
    | @opened i path file k₁ hi _ _ hreads =>
      obtain ⟨hok, rfl⟩ := Prod.mk.inj hr
      obtain ⟨accesses, rfl⟩ := hreads
      exact .inr ⟨i, file, Except.ok.inj hok, hi, rfl⟩
    | faults => cases hr
  opens address path file hge hpath hlen hfile hfree := by
    obtain ⟨i, k₁, hi, hreads, hopen⟩ := syscallOpen_holds hge hpath hlen hfile hfree
    obtain ⟨accesses, rfl⟩ := hreads
    exact ⟨i, _, hopen, hi, rfl⟩

lemma storesFiles (k : Kernel) : StoresFiles k := by
  intro i address count htype hvalid
  refine ⟨?_, syscallRead_file htype hvalid⟩
  have hle := available_le_rest (k.current.fds i) count
  by_cases hzero : available (k.current.fds i) count = 0
  · exact .inl hzero
  · exact .inr (by omega)

lemma started_free (hstart : Starts boot) : ((started boot).current.fds 3).type = .none := by
  obtain ⟨cr3, entry, stack, brk, mm, heq⟩ := started_fresh hstart
  rw [heq, Kernel.current]
  show (((boot.enter _ mm).processes 0).fds 3).type = .none
  rw [enter_first]
  rfl

/-- The program of the small machine has written a path to its page and opened what it names. -/
structure SmallOpened (text : CString) (file : RamdiskFile) (k k₁ : Kernel) (i : Fin 16) : Prop where
  run : ∃ es, Run ExecFits (started (smallBoot 0x10000)) es k
  path : HoldsString k.view 0x10000 text
  has : k.view.Has 0x10000 0x1000
  process : k.currentProcess = 0
  free : (k.current.fds 3).type = .none
  opens : syscallOpen 0x10000 k = (.ok (UInt64.ofNat i), k₁)
  fd : k₁.current.fds i = file.opened
  view : k₁.view = k.view
  same : k₁.currentProcess = 0

lemma small_opened {text : CString} {file : RamdiskFile} (hlen : text.length < 256) (hnonzero : 0 ∉ text)
    (hfile : ramdiskFind (smallBoot 0x10000).kmem (smallBoot 0x10000).ramdisk text = some file) :
    ∃ k k₁ i, SmallOpened text file k k₁ i := by
  have htidy : Tidy (smallBoot 0x10000) (started (smallBoot 0x10000)) :=
    owned_of_run (smallBoot_valid _) smallProgram.initFits smallBoot_starts .nil
  obtain ⟨es, k, hrun, hpath, hhas, hcurrent, hprocess⟩ :=
    writes_string .nil htidy.intact small_has (by omega) hnonzero
  obtain ⟨hkmem, hramdisk⟩ := archive_of_run smallBoot_starts hrun
  have hfree : (k.current.fds 3).type = .none := by
    rw [hcurrent]
    exact started_free smallBoot_starts
  have hzero : k.currentProcess = 0 := by
    rw [hprocess]
    exact started_current smallBoot_starts
  have haddress : (0x10000 : UInt64).toNat = 0x10000 := rfl
  have hpath' := hpath
  rw [← haddress] at hpath'
  rw [← hkmem, ← hramdisk] at hfile
  obtain ⟨i, k₀, -, hreads, hopen⟩ := syscallOpen_holds (by decide) hpath' hlen hfile ⟨3, by decide, hfree⟩
  exact ⟨k, _, i, ⟨es, hrun⟩, hpath, hhas, hzero, hfree, hopen, setFd_fds _ _ _, hreads.view,
    hreads.sameRecords.currentProcess.trans hzero⟩

/-- In every state of every run in which no program with a wrapping segment is executed the descriptors of every
process are in order, `open`, `lseek` and `read` do what they are for, and the bytes that a read delivers are
what the program finds in its buffer. -/
theorem files_of_run (hboot : boot.memory.Valid) (hinit : InitFits boot) (hstart : Starts boot)
    (hsize : boot.ramdisk.Fits) (hrun : Run ExecFits (started boot) es k) :
    (∀ p, (k.processes p).state ≠ .unused → DescriptorsOk boot.ramdisk (k.processes p).fds) ∧
    OpensLowest k ∧ SeeksFiles k ∧ StoresFiles k ∧ DeliversFiles k ∧ ReadsConcatenate k := by
  obtain ⟨-, hramdisk⟩ := archive_of_run hstart hrun
  have htidy : Tidy boot k := owned_of_run hboot hinit hstart hrun
  refine ⟨fun p hp => ?_, opensLowest k, ?_, storesFiles k, ?_, ?_⟩
  · have hfds := fdInv_of_run hstart hrun p hp
    rw [hramdisk] at hfds
    exact hfds.descriptorsOk hsize
  · intro i offset whence next htype hnext
    exact syscallLseek_file htype hnext
  · intro i address count htype hvalid hhas
    exact (syscallRead_ends htidy.intact htype hvalid).1 hhas
  · intro p i cs k' hcalls htype
    exact reads_concatenate hcalls htidy rfl htype

/-- The program of the small machine opens its own file, moves the offset to 100 and reads what is left. -/
theorem files_of_run_small : ∃ (k k₁ k₂ k₃ : Kernel) (i : Fin 16),
    (∃ es, Run ExecFits (started (smallBoot 0x10000)) es k) ∧
    syscallOpen 0x10000 k = (.ok (UInt64.ofNat i), k₁) ∧ LowestFree k i ∧
    syscallLseek (UInt64.ofNat i) 100 0 k₁ = (.ok 100, k₂) ∧
    syscallRead (UInt64.ofNat i) 0x10000 32 k₂ = (.ok 20, k₃) ∧
    k₃.view.load 0x10000 20 = some (bytesAt (smallBoot 0x10000).kmem (0x1200 + 100) 20) ∧
    ((k₃.processes 0).fds i).offset = 120 := by
  have hvalid := smallBoot_valid 0x10000
  have hinit := smallProgram.initFits
  have hstart := smallBoot_starts
  have hsize : (smallBoot 0x10000).ramdisk.Fits :=
    show (smallBoot 0x10000).ramdisk.ramdiskSize.toNat < 2 ^ 64 - 1024 by decide +kernel
  obtain ⟨k, k₁, i, hopened⟩ := small_opened (show (cstr "/bin/xsh").length < 256 by decide) (by decide)
    smallProgram.file
  obtain ⟨es, hrun⟩ := hopened.run
  have hfd := hopened.fd
  have hview := hopened.view
  have hhas := hopened.has
  -- the call of `open`
  have hlowest : LowestFree k i := by
    obtain ⟨-, hopens, -⟩ := files_of_run hvalid hinit hstart hsize hrun
    rcases hopens.answer _ _ _ hopened.opens with ⟨-, error, herror⟩ | ⟨j, -, hj, hlowest, -⟩
    · exact absurd herror.symm (negativeErrno_ne_ofNat error i)
    · have hindex := congrArg fdIndex hj
      rw [fdIndex_ofNat, fdIndex_ofNat, Option.some.injEq] at hindex
      rw [hindex]
      exact hlowest
  obtain ⟨e, hok, hstep⟩ := step_open hopened.opens
  have hrun₁ := hrun.snoc hok hstep
  -- the call of `lseek`
  obtain ⟨-, -, hseeks, -⟩ := files_of_run hvalid hinit hstart hsize hrun₁
  have hseek := hseeks i 100 0 100 (by rw [hfd]; rfl) (.inl ⟨rfl, rfl⟩)
  have hstep₁ : step k₁ (.syscall { call 8 with rdi := UInt64.ofNat i, rsi := 100 }) =
      some (k₁.setFd i { k₁.current.fds i with offset := 100 }) := by
    have hn : syscallNumber 8 = .lseek := rfl
    have hrdx : (call 8).rdx = 0 := rfl
    have hrax : (call 8).rax = 8 := rfl
    rw [step, processSyscallDispatch]
    simp only [hrax, hn, hrdx, withFrame, Prog.bind_ok hseek]
    rfl
  have hrun₂ := hrun₁.snoc
    (show ExecFits k₁ (.syscall { call 8 with rdi := UInt64.ofNat i, rsi := 100 }) from fun hexec =>
      absurd (show syscallNumber 8 = .execve from hexec) (by decide)) hstep₁
  have hfd₂ := setFd_fds k₁ i { k₁.current.fds i with offset := 100 }
  have hview₂ : (k₁.setFd i { k₁.current.fds i with offset := 100 }).view = k.view := hview
  have hcurrent₂ : (k₁.setFd i { k₁.current.fds i with offset := 100 }).currentProcess = 0 := hopened.same
  generalize k₁.setFd i { k₁.current.fds i with offset := 100 } = k₂ at *
  rw [hfd] at hfd₂
  -- the call of `read`
  obtain ⟨-, -, -, -, hdelivers, -⟩ := files_of_run hvalid hinit hstart hsize hrun₂
  obtain ⟨hkmem, -⟩ := archive_of_run hstart hrun₂
  have havailable : available (k₂.current.fds i) 32 = 20 := by
    rw [hfd₂]
    decide
  have htype : (k₂.current.fds i).type = .file := by
    rw [hfd₂]
    rfl
  have hmapped : k₂.view.Has (0x10000 : UInt64).toNat 20 := by
    rw [hview₂]
    exact fun x hge hlt => hhas x hge (hlt.trans (by decide))
  rw [← havailable] at hmapped
  obtain ⟨k₃, hread, hstored, hprocesses⟩ := hdelivers i 0x10000 32 htype (by decide) hmapped
  rw [havailable, hfd₂, hkmem] at hstored
  rw [havailable] at hread hprocesses
  refine ⟨k, k₁, k₂, k₃, i, ⟨es, hrun⟩, hopened.opens, hlowest, hseek, hread, ?_, ?_⟩
  · rw [hstored]
    exact Memory.load_store
  · have hmoved := setFd_fds k₂ i ((k₂.current.fds i).advance 20)
    rw [Kernel.current, show (k₂.setFd i _).currentProcess = 0 from hcurrent₂, ← hprocesses] at hmoved
    rw [hmoved, hfd₂]
    rfl

end Xbks
