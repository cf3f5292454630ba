import Mathlib.Data.Stream.Init
import Xbks.Console.Log
import Xbks.Process.Descriptors
import Xbks.Process.Outputs

/-!
# The devices behind the system calls

A `write` sends the bytes of its buffer to the console, and a `read` from the standard input takes characters
from the keyboard. All other system calls leave the devices alone; `SameDevices` says so.
-/

namespace Xbks

open Prog (keeps_pure keeps_bind keeps_get_bind keeps_modify keeps_ite)

variable {k k' k'' : Kernel} {base count : UInt64} {a n index : ℕ} {bytes : List UInt8}
  {frame : SyscallFrame} {e : Event}

/-! ### The console -/

/-- The loop over the user's buffer, when it returns, has handed each byte of it to the device. -/
lemma forUserBytes_ok {data : UInt64} {device : UInt8 → Console → Console} {i : ℕ}
    (hin : ∀ j < n, InUser data (i + j)) (h : forUserBytes data device n i k = (.ok (), k')) :
    ∃ bytes accesses, k.view.load (data.toNat + i) n = some bytes ∧
      k' = { k with console := bytes.foldl (fun c b => device b c) k.console, accesses := accesses } := by
  induction n generalizing i k with
  | zero =>
    obtain rfl : k = k' := congrArg Prod.snd h
    exact ⟨[], k.accesses, rfl, rfl⟩
  | succ n ih =>
    have hfirst : InUser data i := hin 0 (Nat.succ_pos n)
    rw [forUserBytes, Prog.bind_apply] at h
    cases hb : k.view (data.toNat + i) with
    | none =>
      rw [readUser_none hfirst hb] at h
      cases h
    | some b =>
      rw [readUser_some hfirst hb] at h
      obtain ⟨bytes, accesses, hload, rfl⟩ := ih (fun j hj => by
        have := hin (j + 1) (by omega)
        rwa [← Nat.add_assoc, Nat.add_right_comm] at this) h
      refine ⟨b :: bytes, accesses, ?_, rfl⟩
      rw [Memory.load, hb, Option.bind_some]
      exact Option.map_eq_some_iff.mpr ⟨bytes, hload, rfl⟩

/-- A `write` that returns has written the bytes of its buffer. -/
lemma consoleWrite_ok (hvalid : userRangeIsValid base count = true)
    (h : consoleWrite base count k = (.ok (), k')) : ∃ bytes accesses,
      k.view.load base.toNat count.toNat = some bytes ∧
      k' = { k with console := k.console.write bytes, accesses := accesses } := by
  have hin : ∀ j < count.toNat, InUser base (0 + j) := by
    intro j hj
    rw [zero_add]
    exact inUser_of_valid hvalid hj
  rw [consoleWrite] at h
  obtain ⟨_, k₁, h₁, h⟩ := Prog.bind_eq_ok h
  obtain ⟨bytes, accesses, hload, rfl⟩ := forUserBytes_ok hin h₁
  obtain ⟨_, k₂, h₂, h⟩ := Prog.bind_eq_ok h
  obtain ⟨bytes₂, accesses₂, hload₂, rfl⟩ := forUserBytes_ok hin h₂
  obtain rfl : bytes = bytes₂ := Option.some.inj (hload.symm.trans hload₂)
  rw [Prog.get_bind_apply] at h
  rw [add_zero] at hload
  refine ⟨bytes, k'.accesses, hload, ?_⟩
  rw [Console.write]
  dsimp only at h ⊢
  split_ifs at h ⊢ with htty
  · obtain ⟨bytes₃, accesses₃, hload₃, rfl⟩ := forUserBytes_ok hin h
    rw [add_zero] at hload₃
    obtain rfl : bytes = bytes₃ := Option.some.inj (hload.symm.trans hload₃)
    rfl
  · cases h
    rfl

/-! ### The keyboard -/

def Kernel.setKeyboard (k : Kernel) (f : ℕ → UInt8) : Kernel := { k with keyboard := f }

/-- Stores do not depend on the keyboard. -/
lemma Stored.setKeyboard (h : Stored k k' a bytes) (f : ℕ → UInt8) :
    Stored (k.setKeyboard f) (k'.setKeyboard f) a bytes where
  same := by
    obtain ⟨mm, accesses, rfl⟩ := h.same
    exact ⟨mm, accesses, rfl⟩
  view := h.view
  intact := h.intact

lemma Stored.keyboard (h : Stored k k' a bytes) : k'.keyboard = k.keyboard := by
  obtain ⟨mm, accesses, rfl⟩ := h.same
  rfl

lemma keyboardReadCharBlocking_eq (k : Kernel) : keyboardReadCharBlocking k =
    (.ok (k.keyboard 0), k.setKeyboard (Stream'.tail k.keyboard)) := rfl

/-- The loop that fills a buffer from the keyboard, when it returns, has stored the next characters. -/
lemma readKeyboard_ok (hintact : Intact k) (hin : ∀ j < n, InUser base (index + j))
    (h : readKeyboard base n index k = (.ok (), k')) :
    Stored (k.setKeyboard (Stream'.drop n k.keyboard)) k' (base.toNat + index) (Stream'.take n k.keyboard) := by
  induction n generalizing k index with
  | zero =>
    obtain rfl : k = k' := congrArg Prod.snd h
    exact .nil hintact _
  | succ n ih =>
    have hfirst : InUser base index := hin 0 (Nat.succ_pos n)
    rw [readKeyboard, Prog.bind_ok (keyboardReadCharBlocking_eq k)] at h
    obtain ⟨u, k₂, hwrite, h⟩ := Prog.bind_eq_ok h
    have hmapped : (k.setKeyboard (Stream'.tail k.keyboard)).view (base.toNat + index) ≠ none := by
      intro hb
      rw [writeUser_none hfirst hb] at hwrite
      cases hwrite
    obtain ⟨k₃, hwrite', hstored⟩ := writeUser_some (k := k.setKeyboard (Stream'.tail k.keyboard)) hintact hfirst
      hmapped (k.keyboard 0)
    obtain rfl : k₃ = k₂ := congrArg Prod.snd (hwrite'.symm.trans hwrite)
    have hrest := ih hstored.intact (fun j hj => by
      have := hin (j + 1) (by omega)
      rwa [← Nat.add_assoc, Nat.add_right_comm] at this) h
    rw [hstored.keyboard] at hrest
    exact (hstored.setKeyboard _).append hrest

/-! ### Calls that leave the devices alone -/

structure SameDevices (k k' : Kernel) : Prop where
  keyboard : k'.keyboard = k.keyboard
  console : k'.console = k.console

lemma SameDevices.refl (k : Kernel) : SameDevices k k := ⟨rfl, rfl⟩

lemma SameDevices.trans (h : SameDevices k k') (h' : SameDevices k' k'') : SameDevices k k'' :=
  ⟨h'.keyboard.trans h.keyboard, h'.console.trans h.console⟩

instance : IsPreorder Kernel SameDevices where
  refl := SameDevices.refl
  trans _ _ _ h h' := h.trans h'

lemma Reads.sameDevices (h : Reads k k') : SameDevices k k' := by
  obtain ⟨accesses, rfl⟩ := h
  exact ⟨rfl, rfl⟩

lemma devices_writeUser (base : UInt64) (index : ℕ) (b : UInt8) :
    Prog.Keeps SameDevices (writeUser base index b) := by
  refine keeps_bind (fun k => ?_) fun _ => keeps_modify fun k => ⟨rfl, rfl⟩
  simp only [userPhysical]
  split_ifs
  · exact ⟨rfl, rfl⟩
  · cases vmmTranslate k.mm k.cr3 (base + UInt64.ofNat index) with
    | none => exact ⟨rfl, rfl⟩
    | some physical => exact ⟨rfl, rfl⟩

lemma devices_writeUserBytes (base : UInt64) (index : ℕ) (bytes : List UInt8) :
    Prog.Keeps SameDevices (writeUserBytes base index bytes) := by
  induction bytes generalizing index with
  | nil => exact keeps_pure ()
  | cons b rest ih => exact keeps_bind (devices_writeUser base index b) fun _ => ih (index + 1)

lemma devices_copyUserString (capacity : ℕ) (source : UInt64) :
    Prog.Keeps SameDevices (copyUserString capacity source) :=
  fun k => (reads_copyUserString capacity source k).sameDevices

lemma devices_setFd (i : Fin 16) (fd : ProcessFd) :
    Prog.Keeps SameDevices (Prog.modify fun k => k.setFd i fd : KernelM Unit) :=
  keeps_modify fun _ => ⟨rfl, rfl⟩

/-- A read that is not from the standard input. -/
lemma devices_syscallRead {fd : UInt64} (count : UInt64)
    (h : ∀ i, fdIndex fd = some i → (k.current.fds i).type ≠ .stdin) :
    SameDevices k (syscallRead fd base count k).2 := by
  rw [syscallRead]
  by_cases hvalid : ¬userRangeIsValid base count = true
  · rw [if_pos hvalid]
    exact .refl k
  rw [if_neg hvalid, Prog.get_bind_apply]
  cases hfd : fdIndex fd with
  | none => exact .refl k
  | some i =>
    cases htype : (k.current.fds i).type with
    | none | stdout | stderr | dir =>
      simp only [htype]
      exact .refl k
    | stdin => exact absurd htype (h i hfd)
    | file =>
      simp only [htype]
      exact keeps_ite (fun _ => keeps_pure _) (fun _ => keeps_bind (devices_writeUserBytes _ _ _) fun _ =>
        keeps_bind (devices_setFd i _) fun _ => keeps_pure _) k

lemma devices_syscallOpen (pathAddress : UInt64) : Prog.Keeps SameDevices (syscallOpen pathAddress) := by
  refine keeps_get_bind fun k => ?_
  cases allocateFd k.current with
  | none => exact keeps_pure _
  | some fd =>
    refine keeps_bind (devices_copyUserString _ _) fun path => ?_
    cases path with
    | none => exact keeps_pure _
    | some path =>
      cases hfile : ramdiskFind k.kmem k.ramdisk path with
      | none =>
        simp only [hfile]
        exact keeps_pure _
      | some file =>
        simp only [hfile]
        exact keeps_bind (devices_setFd fd _) fun _ => keeps_pure _

lemma devices_syscallClose (fd : UInt64) : Prog.Keeps SameDevices (syscallClose fd) := by
  refine keeps_get_bind fun k => ?_
  cases fdIndex fd with
  | none => exact keeps_pure _
  | some i => exact keeps_ite (fun _ => keeps_pure _) fun _ => keeps_bind (devices_setFd i _) fun _ => keeps_pure _

lemma devices_syscallLseek (fd offset whence : UInt64) :
    Prog.Keeps SameDevices (syscallLseek fd offset whence) := by
  intro k
  rcases syscallLseek_cases fd offset whence k with ⟨error, h⟩ | ⟨i, next, -, h⟩
  · rw [h]
    exact .refl k
  · rw [h]
    exact ⟨rfl, rfl⟩

lemma devices_getdentsFrom {i : Fin 16} {written : UInt64} {fuel : ℕ} :
    Prog.Keeps SameDevices (getdentsFrom i base count fuel written) := by
  induction fuel generalizing written with
  | zero => exact keeps_pure _
  | succ fuel ih =>
    refine keeps_get_bind fun k => ?_
    dsimp only
    cases hdir : ramdiskReadDir k.kmem k.ramdisk (k.current.fds i).file.path (k.current.fds i).offset with
    | none => exact keeps_pure _
    | some child =>
      refine keeps_ite (fun _ => keeps_pure _) fun _ => ?_
      exact keeps_bind (devices_writeUserBytes _ _ _) fun _ => keeps_bind (devices_setFd i _) fun _ => ih

lemma devices_syscallGetdents64 (fd direntAddress count : UInt64) :
    Prog.Keeps SameDevices (syscallGetdents64 fd direntAddress count) := by
  refine keeps_get_bind fun k => ?_
  cases fdIndex fd with
  | none => exact keeps_pure _
  | some i =>
    exact keeps_ite (fun _ => keeps_pure _) fun _ => keeps_ite (fun _ => keeps_pure _) fun _ =>
      devices_getdentsFrom

lemma devices_syscallAccess (pathAddress : UInt64) :
    Prog.Keeps SameDevices (syscallAccess pathAddress) := by
  refine keeps_bind (devices_copyUserString _ _) fun path => ?_
  cases path with
  | none => exact keeps_pure _
  | some path => exact keeps_get_bind fun _ => keeps_pure _

lemma devices_syscallGetcwd (bufferAddress size : UInt64) :
    Prog.Keeps SameDevices (syscallGetcwd bufferAddress size) :=
  keeps_ite (fun _ => keeps_pure _) fun _ => keeps_ite (fun _ => keeps_pure _) fun _ =>
    keeps_bind (devices_writeUserBytes _ _ _) fun _ => keeps_pure _

lemma devices_writeUnameFields (field : ℕ) (texts : List CString) :
    Prog.Keeps SameDevices (writeUnameFields base field texts) := by
  induction texts generalizing field with
  | nil => exact keeps_pure ()
  | cons text rest ih => exact keeps_bind (devices_writeUserBytes _ _ _) fun _ => ih (field + 1)

lemma devices_syscallUname (bufferAddress : UInt64) : Prog.Keeps SameDevices (syscallUname bufferAddress) :=
  keeps_ite (fun _ => keeps_pure _) fun _ =>
    keeps_bind (devices_writeUnameFields 0 unameFields) fun _ => keeps_pure _

lemma devices_syscallBrk (requestedBreak : UInt64) : Prog.Keeps SameDevices (syscallBrk requestedBreak) := by
  intro k
  rw [syscallBrk]
  dsimp only
  split_ifs
  · exact .refl k
  · exact .refl k
  · rcases Loop.forWhile (fun s page => mapUserPage s k.current.cr3 page pageWritable) k.mm
      (pagesBetween (alignUp k.current.brk pageSize) (alignUp requestedBreak pageSize)) with ⟨_ | _, mm⟩
    · exact ⟨rfl, rfl⟩
    · exact ⟨rfl, rfl⟩

lemma devices_withFrame {handler : KernelM UInt64} (h : SameDevices k (handler k).2) :
    SameDevices k (withFrame frame handler k).2 := by
  rw [withFrame, Prog.bind_apply]
  rcases hr : handler k with ⟨_ | r, k₁⟩
  · rw [hr] at h
    exact h
  · rw [hr] at h
    exact h

lemma devices_syscallVfork (frame : SyscallFrame) : Prog.Keeps SameDevices (syscallVfork frame) := by
  intro k
  rw [syscallVfork, allocateProcess]
  cases unusedSlot k.processes with
  | none => exact .refl k
  | some slot =>
    dsimp only [Kernel.setProcess]
    rcases createKernelMappedPml4 k.mm with ⟨cr3, mm⟩
    dsimp only
    split_ifs
    · exact ⟨rfl, rfl⟩
    · split
      · exact ⟨rfl, rfl⟩
      · exact ⟨rfl, rfl⟩

lemma devices_syscallExecve (frame : SyscallFrame) : Prog.Keeps SameDevices (syscallExecve frame) := by
  intro k
  rcases syscallExecve_cases frame k with ⟨-, hreads, -⟩ | ⟨path, argv, envp, k₁, hexecs, hr⟩
  · exact hreads.sameDevices
  · rw [hr]
    have hends := execveLoaded_ends frame path argv envp k₁
    generalize execveLoaded frame path argv envp k₁ = r at hends
    cases hends with
    | failed h => exact hexecs.reads.sameDevices.trans ⟨rfl, rfl⟩
    | done h => exact hexecs.reads.sameDevices.trans ⟨rfl, rfl⟩

lemma devices_syscallWait4 (pid statusAddress : UInt64) :
    Prog.Keeps SameDevices (syscallWait4 pid statusAddress) := by
  refine keeps_get_bind fun k => ?_
  cases zombieChild k pid with
  | none => exact keeps_pure _
  | some i =>
    have hreap : Prog.Keeps SameDevices (do
        Prog.modify fun k =>
          { k with mm := vmmDestroyUserSpace k.mm (k.processes i).cr3 userTop }.setProcess i .zero
        return toU64 (k.processes i).pid : KernelM UInt64) :=
      keeps_bind (keeps_modify fun k => ⟨rfl, rfl⟩) fun _ => keeps_pure _
    refine keeps_ite (fun _ => keeps_pure _) fun _ => ?_
    exact keeps_ite (fun _ => keeps_bind (devices_writeUserBytes _ _ _) fun _ => hreap) fun _ => hreap

lemma devices_syscallExit (frame : SyscallFrame) (status : UInt64) :
    Prog.Keeps SameDevices (syscallExit frame status) := by
  intro k
  rw [syscallExit]
  dsimp only
  split
  · exact ⟨rfl, rfl⟩
  · exact ⟨rfl, rfl⟩

/-- Only descriptor 0 reads from the keyboard. -/
lemma FdTable.eq_zero {kmem : KernelMemory} {rd : Ramdisk} {fds : Fin 16 → ProcessFd} {fd : UInt64} {i : Fin 16}
    (h : FdTable kmem rd fds) (hi : fdIndex fd = some i) (htype : (fds i).type = .stdin) : fd = 0 := by
  rw [fdIndex] at hi
  split_ifs at hi with hlt
  cases hi
  by_contra hne
  have hval : fd.toNat ≠ 0 := fun hz => hne (UInt64.toNat_inj.mp hz)
  by_cases h1 : fd.toNat = 1
  · have hone := h.stdout
    simp only [h1] at htype
    rw [show (⟨1, by omega⟩ : Fin 16) = 1 from rfl, hone] at htype
    cases htype
  by_cases h2 : fd.toNat = 2
  · have htwo := h.stderr
    simp only [h2] at htype
    rw [show (⟨2, by omega⟩ : Fin 16) = 2 from rfl, htwo] at htype
    cases htype
  rcases h.opened ⟨fd.toNat, hlt⟩ (by dsimp only; omega) with hnone | ⟨path, -, hopen⟩
  · rw [hnone] at htype
    cases htype
  · rw [hopen] at htype
    split_ifs at htype

/-- A call other than a write and a read from the standard input leaves the devices alone. -/
lemma devices_dispatch (hfds : FdTable k.kmem k.ramdisk k.current.fds) (hwrite : syscallNumber frame.rax ≠ .write)
    (hread : ¬(syscallNumber frame.rax = .read ∧ frame.rdi = 0)) :
    SameDevices k (processSyscallDispatch frame k).2 := by
  rw [processSyscallDispatch]
  cases hn : syscallNumber frame.rax with
  | read =>
    exact devices_withFrame (devices_syscallRead _ fun i hi htype => hread ⟨hn, hfds.eq_zero hi htype⟩)
  | write => exact absurd hn hwrite
  | «open» => exact devices_withFrame (devices_syscallOpen _ k)
  | openat => exact devices_withFrame (devices_syscallOpen _ k)
  | close => exact devices_withFrame (devices_syscallClose _ k)
  | lseek => exact devices_withFrame (devices_syscallLseek _ _ _ k)
  | access => exact devices_withFrame (devices_syscallAccess _ k)
  | getdents64 => exact devices_withFrame (devices_syscallGetdents64 _ _ _ k)
  | brk => exact devices_withFrame (devices_syscallBrk _ k)
  | getcwd => exact devices_withFrame (devices_syscallGetcwd _ _ k)
  | uname => exact devices_withFrame (devices_syscallUname _ k)
  | vfork => exact devices_syscallVfork frame k
  | execve => exact devices_syscallExecve frame k
  | wait4 => exact devices_withFrame (devices_syscallWait4 _ _ k)
  | exit => exact devices_syscallExit frame _ k
  | getpid | getppid | getuid | schedYield | unknown => exact .refl k

/-! ### What the devices see -/

def WritesConsole (frame : SyscallFrame) : Prop :=
  syscallNumber frame.rax = .write ∧ (frame.rdi = 1 ∨ frame.rdi = 2) ∧ userRangeIsValid frame.rsi frame.rdx = true

def ReadsKeyboard (frame : SyscallFrame) : Prop :=
  syscallNumber frame.rax = .read ∧ frame.rdi = 0 ∧ userRangeIsValid frame.rsi frame.rdx = true

instance (frame : SyscallFrame) : Decidable (WritesConsole frame) := inferInstanceAs (Decidable (_ ∧ _))

instance (frame : SyscallFrame) : Decidable (ReadsKeyboard frame) := inferInstanceAs (Decidable (_ ∧ _))

/-- What a call writes to the console: the bytes of its buffer. -/
def written (k : Kernel) : Event → List UInt8
  | .syscall frame =>
    if WritesConsole frame then (k.view.load frame.rsi.toNat frame.rdx.toNat).getD [] else []
  | .store _ _ => []

/-- What a call takes from the keyboard: as many characters as its buffer has room for. -/
def typed (k : Kernel) : Event → List UInt8
  | .syscall frame => if ReadsKeyboard frame then Stream'.take frame.rdx.toNat k.keyboard else []
  | .store _ _ => []

/-- Between two states the bytes have been written to the console. -/
structure Wrote (bytes : List UInt8) (k k' : Kernel) : Prop where
  debugcon : k'.console.debugcon = k.console.debugcon ++ bytes
  serial : k'.console.serial = k.console.serial ++ crlf bytes
  tty : k'.console.tty = k.console.tty ++ if k.console.ttyAvailable then crlf bytes else []
  ttyAvailable : k'.console.ttyAvailable = k.console.ttyAvailable

/-- Between two states the characters have been taken from the keyboard. -/
def Took (chars : List UInt8) (k k' : Kernel) : Prop :=
  k.keyboard = Stream'.appendStream' chars k'.keyboard

lemma Wrote.append {bytes' : List UInt8} (h : Wrote bytes k k') (h' : Wrote bytes' k' k'') :
    Wrote (bytes ++ bytes') k k'' where
  debugcon := by rw [h'.debugcon, h.debugcon, List.append_assoc]
  serial := by rw [h'.serial, h.serial, crlf_append, List.append_assoc]
  tty := by
    rw [h'.tty, h.tty, h.ttyAvailable, crlf_append, List.append_assoc]
    cases k.console.ttyAvailable with
    | false => simp
    | true => simp
  ttyAvailable := h'.ttyAvailable.trans h.ttyAvailable

lemma Took.append {chars chars' : List UInt8} (h : Took chars k k') (h' : Took chars' k' k'') :
    Took (chars ++ chars') k k'' := by
  rw [Took, h'] at h
  exact h.trans (Stream'.append_append_stream chars chars' k''.keyboard).symm

lemma wrote_nil (h : k'.console = k.console) : Wrote [] k k' where
  debugcon := by rw [h, List.append_nil]
  serial := by rw [h, crlf_nil, List.append_nil]
  tty := by rw [h, crlf_nil, ite_self, List.append_nil]
  ttyAvailable := by rw [h]

lemma took_nil (h : k'.keyboard = k.keyboard) : Took [] k k' := h.symm

/-- What a system call that returns has done with the devices. -/
structure Talks (frame : SyscallFrame) (k k' : Kernel) : Prop where
  wrote : Wrote (written k (.syscall frame)) k k'
  took : Took (typed k (.syscall frame)) k k'
  load : WritesConsole frame →
    k.view.load frame.rsi.toNat frame.rdx.toNat = some (written k (.syscall frame))
  view : ReadsKeyboard frame → k'.view = k.view.store frame.rsi.toNat (typed k (.syscall frame))

lemma SameDevices.talks (h : SameDevices k k') (hwrite : ¬WritesConsole frame) (hread : ¬ReadsKeyboard frame) :
    Talks frame k k' where
  wrote := by
    rw [written, if_neg hwrite]
    exact wrote_nil h.console
  took := by
    rw [typed, if_neg hread]
    exact took_nil h.keyboard
  load hwrites := absurd hwrites hwrite
  view hreads := absurd hreads hread

lemma talks_write {v : UInt64} (hn : syscallNumber frame.rax = .write)
    (h : syscallWrite frame.rdi frame.rsi frame.rdx k = (.ok v, k')) : Talks frame k k' := by
  have hread : ¬ReadsKeyboard frame := by
    rintro ⟨hn', -⟩
    rw [hn] at hn'
    cases hn'
  rw [syscallWrite] at h
  by_cases hfd : frame.rdi ≠ 1 ∧ frame.rdi ≠ 2
  · rw [if_pos hfd] at h
    cases h
    refine (SameDevices.refl k).talks ?_ hread
    rintro ⟨-, h1 | h2, -⟩
    · exact hfd.1 h1
    · exact hfd.2 h2
  rw [if_neg hfd] at h
  by_cases hvalid : ¬userRangeIsValid frame.rsi frame.rdx = true
  · rw [if_pos hvalid] at h
    cases h
    exact (SameDevices.refl k).talks (fun hwrites => hvalid hwrites.2.2) hread
  rw [if_neg hvalid] at h
  rw [not_not] at hvalid
  obtain ⟨u, k₁, hwrite, h⟩ := Prog.bind_eq_ok h
  cases h
  obtain ⟨bytes, accesses, hload, rfl⟩ := consoleWrite_ok hvalid hwrite
  have hwrites : WritesConsole frame := ⟨hn, by tauto, hvalid⟩
  have hwritten : written k (.syscall frame) = bytes := by
    rw [written, if_pos hwrites, hload]
    rfl
  refine ⟨?_, ?_, fun _ => by rw [hload, hwritten], fun hreads => absurd hreads hread⟩
  · rw [hwritten, Console.write_eq]
    exact ⟨rfl, rfl, rfl, rfl⟩
  · rw [typed, if_neg hread]
    exact took_nil rfl

lemma talks_read {v : UInt64} (hintact : Intact k) (hfds : FdTable k.kmem k.ramdisk k.current.fds)
    (hreads : ReadsKeyboard frame) (h : syscallRead frame.rdi frame.rsi frame.rdx k = (.ok v, k')) :
    Talks frame k k' := by
  obtain ⟨hn, hfd, hvalid⟩ := hreads
  have hwrite : ¬WritesConsole frame := by
    rintro ⟨hn', -⟩
    rw [hn] at hn'
    cases hn'
  have hindex : fdIndex 0 = some 0 := rfl
  rw [syscallRead, if_neg (not_not.mpr hvalid), Prog.get_bind_apply, hfd, hindex] at h
  simp only [hfds.stdin] at h
  obtain ⟨u, k₁, hread, h⟩ := Prog.bind_eq_ok h
  cases h
  have hstored := readKeyboard_ok hintact (fun j hj => by
    rw [zero_add]
    exact inUser_of_valid hvalid hj) hread
  have htyped : typed k (.syscall frame) = Stream'.take frame.rdx.toNat k.keyboard := if_pos ⟨hn, hfd, hvalid⟩
  refine ⟨?_, ?_, fun hwrites => absurd hwrites hwrite, fun _ => ?_⟩
  · rw [written, if_neg hwrite]
    obtain ⟨mm, accesses, rfl⟩ := hstored.same
    exact wrote_nil rfl
  · rw [htyped, Took, hstored.keyboard]
    exact (Stream'.append_take_drop frame.rdx.toNat k.keyboard).symm
  · rw [htyped, hstored.view, add_zero]
    rfl

/-- What any system call that returns has done with the devices. -/
theorem dispatch_talks {r : UInt64 × SyscallFrame} (hintact : Intact k)
    (hfds : FdTable k.kmem k.ramdisk k.current.fds) (h : processSyscallDispatch frame k = (.ok r, k')) :
    Talks frame k k' := by
  by_cases hwrite : syscallNumber frame.rax = .write
  · rw [processSyscallDispatch, hwrite] at h
    exact talks_write hwrite (withFrame_ok h).1
  by_cases hread : ReadsKeyboard frame
  · rw [processSyscallDispatch, hread.1] at h
    exact talks_read hintact hfds hread (withFrame_ok h).1
  by_cases hzero : syscallNumber frame.rax = .read ∧ frame.rdi = 0
  · have hinvalid : ¬userRangeIsValid frame.rsi frame.rdx = true := fun hvalid => hread ⟨hzero.1, hzero.2, hvalid⟩
    rw [processSyscallDispatch, hzero.1, syscallRead, if_pos hinvalid] at h
    cases h
    exact (SameDevices.refl k).talks (fun hwrites => hwrite hwrites.1) hread
  · have hdevices := devices_dispatch hfds hwrite hzero
    rw [h] at hdevices
    exact hdevices.talks (fun hwrites => hwrite hwrites.1) hread

end Xbks
