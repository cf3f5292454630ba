import Xbks.Fs.Archive
import Xbks.Process.Table
import Xbks.Process.View

/-!
# Descriptors

The first three descriptors of a process are its standard ones, and every other descriptor in use
was found in the archive. Most of a handler does not touch the process table; `SameRecords` says so,
and the handlers that change a descriptor do it in one place.
-/

namespace Xbks

open Prog (keeps_pure keeps_bind keeps_get_bind keeps_modify keeps_ite)

variable {k k' k₁ : Kernel} {l : List Slot} {e : Event} {frame : SyscallFrame}

/-! ### Programs that leave the process table alone -/

structure SameRecords (k k' : Kernel) : Prop where
  kmem : k'.kmem = k.kmem
  ramdisk : k'.ramdisk = k.ramdisk
  currentProcess : k'.currentProcess = k.currentProcess
  processes : k'.processes = k.processes

lemma SameRecords.refl (k : Kernel) : SameRecords k k := ⟨rfl, rfl, rfl, rfl⟩

lemma SameRecords.trans (h : SameRecords k k₁) (h' : SameRecords k₁ k') : SameRecords k k' where
  kmem := h'.kmem.trans h.kmem
  ramdisk := h'.ramdisk.trans h.ramdisk
  currentProcess := h'.currentProcess.trans h.currentProcess
  processes := h'.processes.trans h.processes

lemma SameRecords.current (h : SameRecords k k') : k'.current = k.current := by
  rw [Kernel.current, h.currentProcess, h.processes]
  rfl

lemma Reads.sameRecords (h : Reads k k') : SameRecords k k' := by
  obtain ⟨accesses, rfl⟩ := h
  exact ⟨rfl, rfl, rfl, rfl⟩

instance : IsPreorder Kernel SameRecords where
  refl := SameRecords.refl
  trans _ _ _ h h' := h.trans h'

section SameRecords

variable {α β : Type}

lemma same_readUser (base : UInt64) (index : ℕ) : Prog.Keeps SameRecords (readUser base index) :=
  fun k => (reads_readUser base index k).sameRecords

lemma same_writeUser (base : UInt64) (index : ℕ) (b : UInt8) :
    Prog.Keeps SameRecords (writeUser base index b) := by
  refine keeps_bind (fun k => ?_) fun _ => keeps_modify fun k => ⟨rfl, rfl, rfl, rfl⟩
  simp only [userPhysical]
  split_ifs
  · exact ⟨rfl, rfl, rfl, rfl⟩
  · cases vmmTranslate k.mm k.cr3 (base + UInt64.ofNat index) with
    | none => exact ⟨rfl, rfl, rfl, rfl⟩
    | some physical => exact ⟨rfl, rfl, rfl, rfl⟩

lemma same_writeUserBytes (base : UInt64) (index : ℕ) (bytes : List UInt8) :
    Prog.Keeps SameRecords (writeUserBytes base index bytes) := by
  induction bytes generalizing index with
  | nil => exact keeps_pure ()
  | cons b rest ih => exact keeps_bind (same_writeUser base index b) fun _ => ih (index + 1)

lemma same_readKeyboard (buffer : UInt64) (remaining i : ℕ) :
    Prog.Keeps SameRecords (readKeyboard buffer remaining i) := by
  induction remaining generalizing i with
  | zero => exact keeps_pure ()
  | succ remaining ih =>
    refine keeps_bind (keeps_get_bind fun _ => keeps_bind ?_ fun _ => keeps_pure _) fun c => ?_
    · exact keeps_modify fun k => ⟨rfl, rfl, rfl, rfl⟩
    · exact keeps_bind (same_writeUser buffer i c) fun _ => ih (i + 1)

lemma same_forUserBytes (data : UInt64) (device : UInt8 → Console → Console) (remaining i : ℕ) :
    Prog.Keeps SameRecords (forUserBytes data device remaining i) := by
  induction remaining generalizing i with
  | zero => exact keeps_pure ()
  | succ remaining ih =>
    refine keeps_bind (same_readUser data i) fun b => ?_
    refine keeps_bind (keeps_modify fun k => ⟨rfl, rfl, rfl, rfl⟩) fun _ => ?_
    exact ih (i + 1)

lemma same_writeUnameFields (buffer : UInt64) (field : ℕ) (texts : List CString) :
    Prog.Keeps SameRecords (writeUnameFields buffer field texts) := by
  induction texts generalizing field with
  | nil => exact keeps_pure ()
  | cons text rest ih => exact keeps_bind (same_writeUserBytes _ _ _) fun _ => ih (field + 1)

lemma same_syscallWrite (fd bufferAddress count : UInt64) :
    Prog.Keeps SameRecords (syscallWrite fd bufferAddress count) := by
  refine keeps_ite (fun _ => keeps_pure _) fun _ => ?_
  refine keeps_ite (fun _ => keeps_pure _) fun _ => ?_
  refine keeps_bind (keeps_bind (same_forUserBytes _ _ _ _) fun _ => ?_) fun _ => keeps_pure _
  refine keeps_bind (same_forUserBytes _ _ _ _) fun _ => keeps_get_bind fun k => ?_
  exact keeps_ite (fun _ => same_forUserBytes _ _ _ _) fun _ => keeps_pure _

lemma same_syscallAccess (pathAddress : UInt64) :
    Prog.Keeps SameRecords (syscallAccess pathAddress) := by
  refine keeps_bind (fun k => (reads_copyUserString _ _ k).sameRecords) fun path => ?_
  cases path with
  | none => exact keeps_pure _
  | some path => exact keeps_get_bind fun _ => keeps_pure _

lemma same_syscallGetcwd (bufferAddress size : UInt64) :
    Prog.Keeps SameRecords (syscallGetcwd bufferAddress size) := by
  refine keeps_ite (fun _ => keeps_pure _) fun _ => ?_
  refine keeps_ite (fun _ => keeps_pure _) fun _ => ?_
  exact keeps_bind (same_writeUserBytes _ _ _) fun _ => keeps_pure _

lemma same_syscallUname (bufferAddress : UInt64) :
    Prog.Keeps SameRecords (syscallUname bufferAddress) := by
  refine keeps_ite (fun _ => keeps_pure _) fun _ => ?_
  exact keeps_bind (same_writeUnameFields _ _ _) fun _ => keeps_pure _

end SameRecords

/-! ### Tables of descriptors -/

variable {kmem : KernelMemory} {rd : Ramdisk} {fds : Fin 16 → ProcessFd} {i : Fin 16}

/-- The descriptor is free, or was opened. -/
def Opened (kmem : KernelMemory) (rd : Ramdisk) (fd : ProcessFd) : Prop :=
  fd.type = .none ∨ ∃ path, ramdiskFind kmem rd path = some fd.file ∧
    fd.type = if fd.file.directory then .dir else .file

structure FdTable (kmem : KernelMemory) (rd : Ramdisk) (fds : Fin 16 → ProcessFd) : Prop where
  stdin : (fds 0).type = .stdin
  stdout : (fds 1).type = .stdout
  stderr : (fds 2).type = .stderr
  opened : ∀ i : Fin 16, 3 ≤ i.val → Opened kmem rd (fds i)

/-- Changing a descriptor other than the standard ones. -/
lemma FdTable.update (h : FdTable kmem rd fds) (hi : 3 ≤ i.val) {fd : ProcessFd}
    (hfd : Opened kmem rd fd) : FdTable kmem rd (Function.update fds i fd) := by
  have hlow : ∀ j : Fin 16, j.val < 3 → Function.update fds i fd j = fds j := fun j hj =>
    Function.update_of_ne (by rintro rfl; omega) _ _
  refine ⟨?_, ?_, ?_, fun j hj => ?_⟩
  · rw [hlow 0 (by decide)]
    exact h.stdin
  · rw [hlow 1 (by decide)]
    exact h.stdout
  · rw [hlow 2 (by decide)]
    exact h.stderr
  · by_cases hji : j = i
    · rw [hji, Function.update_self]
      exact hfd
    · rw [Function.update_of_ne hji]
      exact h.opened j hj

lemma FdTable.three_le (h : FdTable kmem rd fds) (hi : (fds i).type = .file ∨ (fds i).type = .dir) :
    3 ≤ i.val := by
  by_contra hlt
  have hcases : i = 0 ∨ i = 1 ∨ i = 2 := by
    rw [Fin.ext_iff, Fin.ext_iff, Fin.ext_iff]
    have h0 : ((0 : Fin 16) : ℕ) = 0 := rfl
    have h1 : ((1 : Fin 16) : ℕ) = 1 := rfl
    have h2 : ((2 : Fin 16) : ℕ) = 2 := rfl
    omega
  rcases hcases with rfl | rfl | rfl
  · rw [h.stdin] at hi
    simp at hi
  · rw [h.stdout] at hi
    simp at hi
  · rw [h.stderr] at hi
    simp at hi

/-- Moving the offset of an open file or directory. -/
lemma FdTable.seek {type : FdType} (h : FdTable kmem rd fds) (htype : (fds i).type = type)
    (hopen : type = .file ∨ type = .dir) (offset : UInt64) :
    FdTable kmem rd (Function.update fds i ⟨type, (fds i).file, offset⟩) := by
  subst htype
  exact h.update (h.three_le hopen) (h.opened i (h.three_le hopen))

/-- What a system call does to the descriptors of the calling process keeps them in order. -/
structure Serves (k k' : Kernel) : Prop where
  kmem : k'.kmem = k.kmem
  ramdisk : k'.ramdisk = k.ramdisk
  fds : FdTable k.kmem k.ramdisk k.current.fds → FdTable k.kmem k.ramdisk k'.current.fds

lemma SameRecords.serves (h : SameRecords k k') : Serves k k' :=
  ⟨h.kmem, h.ramdisk, fun hfds => by rw [h.current]; exact hfds⟩

lemma Serves.trans (h : Serves k k₁) (h' : Serves k₁ k') : Serves k k' where
  kmem := h'.kmem.trans h.kmem
  ramdisk := h'.ramdisk.trans h.ramdisk
  fds hfds := by
    have hnext := h'.fds
    rw [h.kmem, h.ramdisk] at hnext
    exact hnext (h.fds hfds)

@[simp] lemma setFd_current (k : Kernel) (i : Fin 16) (fd : ProcessFd) : (k.setFd i fd).current =
    { k.current with fds := Function.update k.current.fds i fd } := by
  simp [Kernel.setFd, Kernel.setCurrent, Kernel.setProcess, Kernel.current]

lemma setFd_fds (k : Kernel) (i : Fin 16) (fd : ProcessFd) : (k.setFd i fd).current.fds i = fd := by
  rw [setFd_current]
  exact Function.update_self _ _ _

@[simp] lemma setFd_self (k : Kernel) (i : Fin 16) : k.setFd i (k.current.fds i) = k := by
  simp [Kernel.setFd, Kernel.setCurrent, Kernel.setProcess, Kernel.current]

@[simp] lemma setFd_setFd (k : Kernel) (i : Fin 16) (fd fd' : ProcessFd) :
    (k.setFd i fd).setFd i fd' = k.setFd i fd' := by
  simp [Kernel.setFd, Kernel.setCurrent, Kernel.setProcess, Kernel.current]

/-- The descriptor behind `n` bytes of a file or `n` entries of a directory. -/
def ProcessFd.advance (fd : ProcessFd) (n : ℕ) : ProcessFd :=
  { fd with offset := fd.offset + UInt64.ofNat n }

@[simp] lemma advance_zero (fd : ProcessFd) : fd.advance 0 = fd := by
  rw [ProcessFd.advance, show UInt64.ofNat 0 = 0 from rfl, UInt64.add_zero]

lemma advance_advance (fd : ProcessFd) (m n : ℕ) : (fd.advance m).advance n = fd.advance (m + n) := by
  rw [ProcessFd.advance, ProcessFd.advance, ProcessFd.advance, UInt64.ofNat_add, UInt64.add_assoc]

/-- Changing a descriptor after steps that leave the table alone. -/
lemma SameRecords.setFd (h : SameRecords k k₁) {fd : ProcessFd}
    (hfd : FdTable k.kmem k.ramdisk k.current.fds →
      FdTable k.kmem k.ramdisk (Function.update k.current.fds i fd)) : Serves k (k₁.setFd i fd) where
  kmem := h.kmem
  ramdisk := h.ramdisk
  fds hfds := by
    rw [setFd_current, h.current]
    exact hfd hfds

/-- A handler that changes a descriptor at its end. -/
lemma serves_bind_setFd {α β : Type} {m : KernelM α} {fd : ProcessFd} {v : β}
    (hm : Prog.Keeps SameRecords m) (hfd : FdTable k.kmem k.ramdisk k.current.fds →
      FdTable k.kmem k.ramdisk (Function.update k.current.fds i fd)) :
    Serves k ((m >>= fun _ => Prog.modify (fun k => k.setFd i fd) >>= fun _ =>
      (pure v : KernelM β)) k).2 := by
  have hsame := hm k
  rw [Prog.bind_apply]
  generalize m k = r at hsame
  rcases r with ⟨_ | a, k₁⟩
  · exact hsame.serves
  · exact hsame.setFd hfd

/-! ### Handlers -/

lemma serves_syscallRead (fd bufferAddress count : UInt64) (k : Kernel) :
    Serves k (syscallRead fd bufferAddress count k).2 := by
  rw [syscallRead]
  by_cases hvalid : ¬userRangeIsValid bufferAddress count = true
  · rw [if_pos hvalid]
    exact (SameRecords.refl k).serves
  rw [if_neg hvalid, Prog.get_bind_apply]
  cases fdIndex fd with
  | none => exact (SameRecords.refl k).serves
  | some i =>
    cases htype : (k.current.fds i).type with
    | none | stdout | stderr | dir =>
      simp only [htype]
      exact (SameRecords.refl k).serves
    | stdin =>
      simp only [htype]
      exact (keeps_bind (same_readKeyboard _ _ _) (fun _ => keeps_pure _) k).serves
    | file =>
      simp only [htype]
      by_cases hoffset : (k.current.fds i).offset ≥ (k.current.fds i).file.size
      · rw [if_pos hoffset]
        exact (SameRecords.refl k).serves
      · rw [if_neg hoffset]
        exact serves_bind_setFd (same_writeUserBytes _ _ _) fun hfds => hfds.seek htype (.inl rfl) _

lemma allocateFd_some {process : Process} (h : allocateFd process = some i) :
    3 ≤ i.val ∧ (process.fds i).type = .none ∧
      ∀ j : Fin 16, 3 ≤ j.val → j < i → (process.fds j).type ≠ .none := by
  rw [allocateFd, List.find?_eq_some_iff_getElem] at h
  obtain ⟨hi, n, hn, hget, hbefore⟩ := h
  have hn16 : n < 16 := by simpa using hn
  have hval : n = i.val := by
    rw [← hget, List.getElem_finRange]
    rfl
  rw [decide_eq_true_eq] at hi
  refine ⟨hi.1, hi.2, fun j hj hlt hnone => ?_⟩
  have hlt : j.val < n := by
    rw [hval]
    exact hlt
  have hno := hbefore j.val hlt
  rw [List.getElem_finRange] at hno
  simp [hj, hnone] at hno

lemma serves_syscallOpen (pathAddress : UInt64) (k : Kernel) :
    Serves k (syscallOpen pathAddress k).2 := by
  rw [syscallOpen, Prog.get_bind_apply]
  cases hfd : allocateFd k.current with
  | none => exact (SameRecords.refl k).serves
  | some i =>
    have hsame := (reads_copyUserString maxString pathAddress k).sameRecords
    dsimp only
    rw [Prog.bind_apply]
    generalize copyUserString maxString pathAddress k = r at hsame
    rcases r with ⟨_ | _ | path, k₁⟩
    · exact hsame.serves
    · exact hsame.serves
    · cases hfile : ramdiskFind k.kmem k.ramdisk path with
      | none =>
        simp only [hfile]
        exact hsame.serves
      | some file =>
        simp only [hfile]
        refine hsame.setFd fun hfds => hfds.update (allocateFd_some hfd).1 (.inr ⟨path, hfile, rfl⟩)

lemma serves_syscallClose (fd : UInt64) (k : Kernel) : Serves k (syscallClose fd k).2 := by
  rw [syscallClose, Prog.get_bind_apply]
  cases hi : fdIndex fd with
  | none => exact (SameRecords.refl k).serves
  | some i =>
    by_cases hbad : fd ≤ 2 ∨ (k.current.fds i).type = .none
    · simp only [if_pos hbad]
      exact (SameRecords.refl k).serves
    · simp only [if_neg hbad]
      refine (SameRecords.refl k).setFd fun hfds => hfds.update ?_ (.inl rfl)
      rw [not_or, UInt64.not_le, UInt64.lt_iff_toNat_lt] at hbad
      rw [fdIndex] at hi
      split_ifs at hi with hlt
      cases hi
      exact hbad.1

lemma serves_syscallLseek (fd offset whence : UInt64) (k : Kernel) :
    Serves k (syscallLseek fd offset whence k).2 := by
  rcases syscallLseek_cases fd offset whence k with ⟨error, h⟩ | ⟨i, next, htype, h⟩
  · rw [h]
    exact (SameRecords.refl k).serves
  · rw [h]
    exact (SameRecords.refl k).setFd fun hfds => hfds.seek rfl (.inl htype) next

lemma serves_getdentsFrom {buffer count written : UInt64} {fuel : ℕ}
    (htype : (k.current.fds i).type = .dir) :
    Serves k (getdentsFrom i buffer count fuel written k).2 := by
  induction fuel generalizing k written with
  | zero => exact (SameRecords.refl k).serves
  | succ fuel ih =>
    rw [getdentsFrom, Prog.get_bind_apply]
    cases ramdiskReadDir k.kmem k.ramdisk (k.current.fds i).file.path (k.current.fds i).offset with
    | none => exact (SameRecords.refl k).serves
    | some child =>
      dsimp only
      by_cases hroom : written + direntReclen (lastComponent child.path) > count
      · rw [if_pos hroom]
        exact (SameRecords.refl k).serves
      · rw [if_neg hroom, Prog.bind_apply]
        have hsame := same_writeUserBytes buffer written.toNat (direntBytes (k.current.fds i).offset
          (direntReclen (lastComponent child.path)) child.directory (lastComponent child.path)) k
        generalize writeUserBytes buffer written.toNat _ k = r at hsame
        rcases r with ⟨_ | _, k₁⟩
        · exact hsame.serves
        · have hset : Serves k (k₁.setFd i { k.current.fds i with
              offset := (k.current.fds i).offset + 1 }) :=
            hsame.setFd fun hfds => hfds.seek rfl (.inr htype) _
          refine hset.trans (ih ?_)
          rw [setFd_current]
          dsimp only
          rw [Function.update_self]
          exact htype

lemma serves_syscallGetdents64 (fd direntAddress count : UInt64) (k : Kernel) :
    Serves k (syscallGetdents64 fd direntAddress count k).2 := by
  rw [syscallGetdents64, Prog.get_bind_apply]
  cases fdIndex fd with
  | none => exact (SameRecords.refl k).serves
  | some i =>
    by_cases htype : (k.current.fds i).type ≠ .dir
    · simp only [if_pos htype]
      exact (SameRecords.refl k).serves
    · simp only [if_neg htype]
      by_cases hvalid : ¬userRangeIsValid direntAddress count = true
      · rw [if_pos hvalid]
        exact (SameRecords.refl k).serves
      · rw [if_neg hvalid]
        exact serves_getdentsFrom (not_not.mp htype)

lemma serves_syscallBrk (requestedBreak : UInt64) (k : Kernel) :
    Serves k (syscallBrk requestedBreak k).2 := by
  simp only [syscallBrk]
  split_ifs
  · exact (SameRecords.refl k).serves
  · exact (SameRecords.refl k).serves
  · split
    · exact ⟨rfl, rfl, id⟩
    · refine ⟨rfl, rfl, fun hfds => ?_⟩
      simpa [Kernel.setCurrent, Kernel.setProcess, Kernel.current] using hfds

/-! ### Steps -/

/-- The descriptors of every process in use are in order. -/
def FdInv (k : Kernel) : Prop :=
  ∀ p, (k.processes p).state ≠ .unused → FdTable k.kmem k.ramdisk (k.processes p).fds

lemma FdInv.local_step (h : FdInv k) (hlocal : Local k k') (hserves : Serves k k') : FdInv k' := by
  intro p hp
  rw [hlocal.sameTable.field Process.state fun _ _ _ _ _ _ => rfl] at hp
  rw [hserves.kmem, hserves.ramdisk]
  by_cases hcur : p = k.currentProcess
  · have hfds := hserves.fds (h _ (hcur ▸ hp))
    rw [Kernel.current, hlocal.currentProcess] at hfds
    rw [hcur]
    exact hfds
  · rw [hlocal.others p hcur]
    exact h p hp

/-- Descriptors that come from processes in use. -/
lemma FdInv.of_fds (h : FdInv k) (hkmem : k'.kmem = k.kmem) (hramdisk : k'.ramdisk = k.ramdisk)
    (hfds : ∀ p, (k'.processes p).state ≠ .unused →
      ∃ q, (k.processes q).state ≠ .unused ∧ (k'.processes p).fds = (k.processes q).fds) :
    FdInv k' := by
  intro p hp
  obtain ⟨q, hq, heq⟩ := hfds p hp
  rw [hkmem, hramdisk, heq]
  exact h q hq

lemma FdInv.sameRecords (h : FdInv k) (hsame : SameRecords k k') : FdInv k' :=
  h.of_fds hsame.kmem hsame.ramdisk fun p hp => by
    rw [hsame.processes] at hp ⊢
    exact ⟨p, hp, rfl⟩

/-- `wait4` leaves the records alone, or reaps the zombie it found after storing the status. -/
lemma syscallWait4_records (pid statusAddress : UInt64) (k : Kernel) : ∃ k₁, Local k k₁ ∧
    SameRecords k k₁ ∧ ((syscallWait4 pid statusAddress k).2 = k₁ ∨
      ∃ i, zombieChild k pid = some i ∧ (syscallWait4 pid statusAddress k).2 = k₁.reap i) := by
  rw [syscallWait4, Prog.get_bind_apply]
  cases hz : zombieChild k pid with
  | none => exact ⟨k, .refl k, .refl k, .inl rfl⟩
  | some i =>
    by_cases hbad : statusAddress ≠ 0 ∧ ¬userRangeIsValid statusAddress 4 = true
    · simp only [if_pos hbad]
      exact ⟨k, .refl k, .refl k, .inl rfl⟩
    simp only [if_neg hbad]
    by_cases hstatus : statusAddress ≠ 0
    · have hvalid : userRangeIsValid statusAddress 4 = true := by
        by_contra h
        exact hbad ⟨hstatus, h⟩
      have hlocal : Prog.Keeps Local (writeUserBytes statusAddress 0
          (intBytes ((k.processes i).exitStatus * 256))) :=
        keeps_writeUserBytes_of_valid hvalid (by simp [intBytes, wordBytes])
      have hlocal := hlocal k
      have hsame := same_writeUserBytes statusAddress 0
        (intBytes ((k.processes i).exitStatus * 256)) k
      simp only [if_pos hstatus]
      rw [Prog.bind_apply]
      generalize writeUserBytes statusAddress 0 _ k = r at hlocal hsame
      rcases r with ⟨_ | _, k₁⟩
      · exact ⟨k₁, hlocal, hsame, .inl rfl⟩
      · exact ⟨k₁, hlocal, hsame, .inr ⟨i, rfl, rfl⟩⟩
    · simp only [if_neg hstatus]
      exact ⟨k, .refl k, .refl k, .inr ⟨i, rfl, rfl⟩⟩

lemma FdInv.reap (h : FdInv k) (i : Slot) : FdInv (k.reap i) := by
  refine h.of_fds rfl rfl fun p hp => ⟨p, ?_⟩
  by_cases hpi : p = i
  · rw [hpi, reap_self] at hp
    exact absurd rfl hp
  · rw [reap_other hpi] at hp ⊢
    exact ⟨hp, rfl⟩

lemma FdInv.vfork {r : UInt64 × SyscallFrame} (h : FdInv k) (hinv : TableInv k l)
    (hvfork : syscallVfork frame k = (.ok r, k')) : FdInv k' := by
  have hends := hinv.vfork_ends frame
  have hrunning : (k.processes k.currentProcess).state ≠ .unused := by
    rw [(hinv.running _).mpr rfl]
    exact ProcessState.noConfusion
  rw [hvfork] at hends
  cases hends with
  | full => exact h
  | noFrame | noCopy => exact h
  | @done slot cr3 _ mm' hslot =>
    have hne : slot ≠ k.currentProcess := by
      rintro rfl
      exact hrunning (unusedSlot_some hslot)
    refine h.of_fds rfl rfl fun p hp => ?_
    by_cases hpslot : p = slot
    · rw [hpslot, vforked_slot hne]
      exact ⟨k.currentProcess, hrunning, rfl⟩
    · have hfds := k.vforked_field frame slot cr3 mm' Process.fds (fun _ _ => rfl) p hpslot
      refine ⟨p, ?_, hfds⟩
      by_cases hpcur : p = k.currentProcess
      · rw [hpcur]
        exact hrunning
      · rwa [vforked_other hpslot hpcur] at hp

lemma FdInv.execve {path : CString} {argv envp : List CString} (h : FdInv k)
    (hexecs : Execs frame path argv envp k k₁) :
    FdInv (execveLoaded frame path argv envp k₁).2 := by
  have h₁ := h.sameRecords hexecs.reads.sameRecords
  have hends := execveLoaded_ends frame path argv envp k₁
  generalize execveLoaded frame path argv envp k₁ = r at hends
  cases hends with
  | failed => exact h₁
  | done =>
    refine h₁.of_fds rfl rfl fun p hp => ⟨p, ?_, ?_⟩
    · rwa [execed_field Process.state fun _ _ _ _ _ => rfl] at hp
    · exact execed_field Process.fds (fun _ _ _ _ _ => rfl) p

lemma FdInv.exit {r : UInt64 × SyscallFrame} (h : FdInv k) (hinv : TableInv k l)
    (hexit : syscallExit frame frame.rdi k = (.ok r, k')) : FdInv k' := by
  obtain ⟨parent, l', rfl, -, hne, rfl, -⟩ := hinv.exit_ok hexit
  have hfds := exited_field frame.rdi Process.fds (fun _ _ _ => rfl) hne
  refine h.of_fds rfl rfl fun p hp => ⟨p, ?_, hfds p⟩
  by_cases hpp : p = parent
  · rw [hpp, (hinv.blocked parent).mpr List.mem_cons_self]
    exact ProcessState.noConfusion
  · by_cases hpc : p = k.currentProcess
    · rw [hpc, (hinv.running _).mpr rfl]
      exact ProcessState.noConfusion
    · rwa [exited_other hpp hpc] at hp

/-- A handler that stays inside the process. -/
lemma FdInv.withFrame {handler : KernelM UInt64} {r : UInt64 × SyscallFrame} (h : FdInv k)
    (hlocal : Local k (handler k).2) (hserves : Serves k (handler k).2)
    (hok : Xbks.withFrame frame handler k = (.ok r, k')) : FdInv k' := by
  have hsnd := withFrame_snd frame handler k
  rw [hok] at hsnd
  rw [← hsnd] at hlocal hserves
  exact h.local_step hlocal hserves

theorem FdInv.step (h : FdInv k) (hinv : TableInv k l) (hstep : step k e = some k') : FdInv k' := by
  have hsame : ∀ {handler : KernelM UInt64}, Prog.Keeps SameRecords handler →
      Serves k (handler k).2 := fun hm => (hm k).serves
  cases e with
  | store address value =>
    obtain ⟨physical, -, -, rfl⟩ := step_store_eq hstep
    exact h
  | syscall frame =>
    obtain ⟨r, hd⟩ := step_syscall_ok hstep
    rw [processSyscallDispatch] at hd
    cases hn : syscallNumber frame.rax with
    | read =>
      rw [hn] at hd
      exact h.withFrame (keeps_syscallRead _ _ _ k) (serves_syscallRead _ _ _ k) hd
    | write =>
      rw [hn] at hd
      exact h.withFrame (keeps_syscallWrite _ _ _ k) (hsame (same_syscallWrite _ _ _)) hd
    | «open» | openat =>
      rw [hn] at hd
      exact h.withFrame (keeps_syscallOpen _ k) (serves_syscallOpen _ k) hd
    | close =>
      rw [hn] at hd
      exact h.withFrame (keeps_syscallClose _ k) (serves_syscallClose _ k) hd
    | lseek =>
      rw [hn] at hd
      exact h.withFrame (keeps_syscallLseek _ _ _ k) (serves_syscallLseek _ _ _ k) hd
    | access =>
      rw [hn] at hd
      exact h.withFrame (keeps_syscallAccess _ k) (hsame (same_syscallAccess _)) hd
    | getdents64 =>
      rw [hn] at hd
      exact h.withFrame (keeps_syscallGetdents64 _ _ _ k) (serves_syscallGetdents64 _ _ _ k) hd
    | brk =>
      rw [hn] at hd
      exact h.withFrame (keeps_syscallBrk _ k) (serves_syscallBrk _ k) hd
    | getcwd =>
      rw [hn] at hd
      exact h.withFrame (keeps_syscallGetcwd _ _ k) (hsame (same_syscallGetcwd _ _)) hd
    | uname =>
      rw [hn] at hd
      exact h.withFrame (keeps_syscallUname _ k) (hsame (same_syscallUname _)) hd
    | getpid | getppid =>
      rw [hn] at hd
      exact h.withFrame (keeps_get_bind (fun _ => keeps_pure _) k)
        (hsame (keeps_get_bind fun _ => keeps_pure _)) hd
    | getuid | schedYield | unknown =>
      rw [hn] at hd
      exact h.withFrame (keeps_pure _ k) (hsame (keeps_pure _)) hd
    | vfork =>
      rw [hn] at hd
      exact h.vfork hinv hd
    | exit =>
      rw [hn] at hd
      exact h.exit hinv hd
    | execve =>
      rw [hn] at hd
      dsimp only at hd
      rcases syscallExecve_cases frame k with ⟨-, hreads, -⟩ | ⟨path, argv, envp, k₂, hexecs, heq⟩
      · rw [hd] at hreads
        exact h.sameRecords hreads.sameRecords
      · rw [hd] at heq
        cases heq
        exact h.execve hexecs
    | wait4 =>
      rw [hn] at hd
      dsimp only at hd
      have hsnd := withFrame_snd frame (syscallWait4 frame.rdi frame.rsi) k
      rw [hd] at hsnd
      obtain ⟨k₂, -, hsame, hend | ⟨i, -, hend⟩⟩ := syscallWait4_records frame.rdi frame.rsi k
      · rw [hend] at hsnd
        rw [show k' = k₂ from hsnd]
        exact h.sameRecords hsame
      · rw [hend] at hsnd
        rw [show k' = k₂.reap i from hsnd]
        exact (h.sameRecords hsame).reap i

end Xbks
