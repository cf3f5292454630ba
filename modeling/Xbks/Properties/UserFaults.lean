import Xbks.Properties.Listing

/-!
# Unmapped pointers

The kernel checks the range of the pointers in the registers of a system call, but not whether there
are pages behind them, and it has no page-fault handler. So a pointer that passes the range check is
followed whether it is mapped or not. This is said here exactly: for which states and registers a
system call treats its pointers as it should.
-/

namespace Xbks

variable {boot : BootInfo} {es : List Event} {m : Memory UInt8} {k k' : Kernel} {frame : SyscallFrame}
  {reaches : Prop} {args : List Argument} {r : UInt64}

/-! ### What is expected -/

/-- What the registers of a system call point to. -/
def arguments (frame : SyscallFrame) : List Argument :=
  match syscallNumber frame.rax with
  | .read | .write | .getdents64 => [.buffer frame.rsi frame.rdx]
  | .open => [.string frame.rdi]
  | .openat => [.string frame.rsi]
  | .access => [.string (if frame.rdi = atFdcwd then frame.rsi else frame.rdi)]
  | .getcwd => [.buffer frame.rdi 2]
  | .uname => [.buffer frame.rdi (6 * 65)]
  | .wait4 => if frame.rsi = 0 then [] else [.buffer frame.rsi 4]
  | .execve => [.string frame.rdi, .strings frame.rsi (maxArgs - 1), .strings frame.rdx (maxEnv - 1)]
  | _ => []

/-- What a system call answers. An access to a page that is not mapped is a page fault. -/
def answer (frame : SyscallFrame) (k : Kernel) : Except Stop UInt64 :=
  (processSyscallDispatch frame k).1.map Prod.fst

/-- Every address that the call follows is mapped, and when an argument touches an unmapped page the call
fails with `EFAULT`. -/
structure PointerSafe (k : Kernel) (frame : SyscallFrame) : Prop where
  mapped : ∀ address, answer frame k ≠ .error (.pageFault address)
  refuses : (∃ arg ∈ arguments frame, arg.Touches k.view) → answer frame k = .ok (negativeErrno .fault)

/-! ### When it is so -/

/-- What a handler checks before it looks at its pointers. -/
def Reaches (k : Kernel) (frame : SyscallFrame) : Prop :=
  match syscallNumber frame.rax with
  | .write => frame.rdi = 1 ∨ frame.rdi = 2
  | .open | .openat => allocateFd k.current ≠ none
  | .getdents64 => ∃ i, fdIndex frame.rdi = some i ∧ (k.current.fds i).type = .dir
  | .getcwd => 2 ≤ frame.rsi
  | .wait4 => zombieChild k frame.rdi ≠ none
  | _ => True

/-- All arguments are mapped, or the handler gets to them and refuses one, those before it being mapped. -/
def PointersOk (k : Kernel) (frame : SyscallFrame) : Prop :=
  (∀ arg ∈ arguments frame, ¬arg.Touches k.view) ∨
  Reaches k frame ∧ FirstRefused k.view (arguments frame)

/-- How a handler deals with its arguments. -/
inductive Handles (m : Memory UInt8) (reaches : Prop) (args : List Argument) : Except Stop UInt64 → Prop
  | clean {r : Except Stop UInt64} (hmapped : ∀ arg ∈ args, ¬arg.Touches m)
      (hr : ∀ address, r ≠ .error (.pageFault address)) : Handles m reaches args r
  | refused (hreaches : reaches) (h : FirstRefused m args) :
      Handles m reaches args (.ok (negativeErrno .fault))
  | answers {r : UInt64} (hno : ¬(reaches ∧ FirstRefused m args)) (hr : r ≠ negativeErrno .fault) :
      Handles m reaches args (.ok r)
  | faults {stop : Stop} (hno : ¬(reaches ∧ FirstRefused m args)) (h : ∃ arg ∈ args, arg.Touches m) :
      Handles m reaches args (.error stop)

lemma Handles.returned (hmapped : ∀ arg ∈ args, ¬arg.Touches m) : Handles m reaches args (.ok r) := by
  refine .clean hmapped fun address h => ?_
  cases h

lemma Handles.pointerSafe_iff (h : Handles k.view (Reaches k frame) (arguments frame) (answer frame k)) :
    PointerSafe k frame ↔ PointersOk k frame := by
  have hiff : ∀ r, Handles k.view (Reaches k frame) (arguments frame) r →
      ((∀ address, r ≠ .error (.pageFault address)) ∧
        ((∃ arg ∈ arguments frame, arg.Touches k.view) → r = .ok (negativeErrno .fault)) ↔
        PointersOk k frame) := by
    intro r h
    rw [PointersOk]
    cases h with
    | clean hmapped hr =>
      refine ⟨fun _ => .inl hmapped, fun _ => ⟨hr, ?_⟩⟩
      rintro ⟨arg, harg, htouches⟩
      exact absurd htouches (hmapped arg harg)
    | refused hreaches hrefused =>
      refine ⟨fun _ => .inr ⟨hreaches, hrefused⟩, fun _ => ⟨fun address heq => ?_, fun _ => rfl⟩⟩
      cases heq
    | answers hno hr =>
      constructor
      · rintro ⟨-, hrefuses⟩
        refine .inl fun arg harg htouches => hr ?_
        exact Except.ok.inj (hrefuses ⟨arg, harg, htouches⟩)
      · rintro (hmapped | hrefused)
        · refine ⟨fun address heq => ?_, fun ⟨arg, harg, htouches⟩ => absurd htouches (hmapped arg harg)⟩
          cases heq
        · exact absurd hrefused hno
    | faults hno htouches =>
      constructor
      · rintro ⟨-, hrefuses⟩
        cases hrefuses htouches
      · rintro (hmapped | hrefused)
        · obtain ⟨arg, harg, htouches⟩ := htouches
          exact absurd htouches (hmapped arg harg)
        · exact absurd hrefused hno
  rw [← hiff _ h]
  exact ⟨fun hsafe => ⟨hsafe.mapped, hsafe.refuses⟩, fun hsafe => ⟨hsafe.1, hsafe.2⟩⟩

/-! ### Answers -/

lemma negativeErrno_ne_fault {error : Errno} (h : error ≠ .fault) :
    negativeErrno error ≠ negativeErrno .fault := by
  cases error with
  | fault => exact absurd rfl h
  | _ => decide

lemma ne_fault_of_le (h : r.toNat ≤ 2 ^ 47) : r ≠ negativeErrno .fault := by
  rintro rfl
  revert h
  decide

/-! ### Buffers -/

lemma firstRefused_buffer {address count : UInt64} :
    FirstRefused m [.buffer address count] ↔ userRangeIsValid address count = false := by
  simp [FirstRefused, Argument.Refused]

/-- A handler with one buffer, which is served by a program that returns when the buffer is mapped. -/
lemma Handles.of_buffer {address count : UInt64} {handler : KernelM UInt64} (hintact : Intact k)
    (hearly : ¬reaches → ∃ r, (handler k).1 = .ok r ∧ r ≠ negativeErrno .fault)
    (hinvalid : reaches → userRangeIsValid address count = false →
      (handler k).1 = .ok (negativeErrno .fault))
    (hserved : reaches → userRangeIsValid address count = true → ∃ p : KernelM UInt64,
      handler k = p k ∧ Prog.Answers (· ≠ negativeErrno .fault) p ∧
      Prog.Returns (Mapped address.toNat count.toNat) p) :
    Handles k.view reaches [.buffer address count] (handler k).1 := by
  by_cases hreaches : reaches
  · cases hvalid : userRangeIsValid address count with
    | false =>
      rw [hinvalid hreaches hvalid]
      exact .refused hreaches (firstRefused_buffer.mpr hvalid)
    | true =>
      have hno : ¬(reaches ∧ FirstRefused k.view [.buffer address count]) := by
        rintro ⟨-, hrefused⟩
        rw [firstRefused_buffer, hvalid] at hrefused
        cases hrefused
      obtain ⟨p, hp, hanswers, hreturns⟩ := hserved hreaches hvalid
      rw [hp]
      rcases hr : p k with ⟨stop | r, k'⟩
      · refine .faults hno ⟨_, List.mem_singleton_self _, fun hhas => ?_⟩
        obtain ⟨r, k'', hok, -⟩ := hreturns k ⟨hintact, hhas⟩
        rw [hr] at hok
        cases hok
      · exact .answers hno (hanswers k r k' hr)
  · obtain ⟨r, hr, hne⟩ := hearly hreaches
    rw [hr]
    exact .answers (fun h => hreaches h.1) hne

/-- The number of bytes that a read of a file asks for. -/
lemma toNat_available_le {count available : UInt64} :
    (if count < available then count else available).toNat ≤ count.toNat := by
  split_ifs with h
  · exact le_refl _
  · rw [UInt64.not_lt, UInt64.le_iff_toNat_le] at h
    exact h

lemma answers_syscallRead {fd address count : UInt64} (hvalid : userRangeIsValid address count = true) :
    Prog.Answers (· ≠ negativeErrno .fault) (syscallRead fd address count) := by
  have hcount := toNat_le_of_valid hvalid
  have herrno : ∀ {error}, error ≠ Errno.fault →
      Prog.Answers (· ≠ negativeErrno .fault) (return negativeErrno error : KernelM UInt64) :=
    fun h => Prog.answers_pure (negativeErrno_ne_fault h)
  rw [syscallRead, if_neg (not_not.mpr hvalid)]
  refine Prog.answers_bind fun k => ?_
  cases fdIndex fd with
  | none => exact herrno (by decide)
  | some i =>
    dsimp only
    cases (k.current.fds i).type with
    | none => exact herrno (by decide)
    | stdin => exact Prog.answers_bind fun _ => Prog.answers_pure (ne_fault_of_le hcount)
    | stdout | stderr | dir => exact herrno (by decide)
    | file =>
      refine Prog.answers_ite (fun _ => Prog.answers_pure (by decide)) fun _ => ?_
      refine Prog.answers_bind fun _ => Prog.answers_bind fun _ => Prog.answers_pure ?_
      exact ne_fault_of_le (toNat_available_le.trans hcount)

lemma returns_syscallRead {fd address count : UInt64} (hvalid : userRangeIsValid address count = true) :
    Prog.Returns (Mapped address.toNat count.toNat) (syscallRead fd address count) := by
  rw [syscallRead, if_neg (not_not.mpr hvalid)]
  refine Prog.returns_bind Prog.returns_get fun k => ?_
  cases fdIndex fd with
  | none => exact Prog.returns_pure _
  | some i =>
    dsimp only
    cases (k.current.fds i).type with
    | none | stdout | stderr | dir => exact Prog.returns_pure _
    | stdin =>
      exact Prog.returns_bind (returns_readKeyboard hvalid (by omega)) fun _ => Prog.returns_pure _
    | file =>
      refine Prog.returns_ite (fun _ => Prog.returns_pure _) fun _ => ?_
      refine Prog.returns_bind (returns_writeUserBytes hvalid ?_) fun _ => ?_
      · rw [length_bytesAt, Nat.zero_add]
        exact toNat_available_le
      · exact Prog.returns_bind (Prog.returns_modify fun _ hk => hk.congr rfl rfl) fun _ =>
          Prog.returns_pure _

lemma handles_syscallRead (hintact : Intact k) (fd address count : UInt64) :
    Handles k.view True [.buffer address count] (syscallRead fd address count k).1 := by
  refine .of_buffer hintact (fun h => absurd trivial h) (fun _ hvalid => ?_) fun _ hvalid => ?_
  · rw [syscallRead, if_pos (by rw [hvalid]; decide)]
    rfl
  · exact ⟨_, rfl, answers_syscallRead hvalid, returns_syscallRead hvalid⟩

lemma handles_syscallWrite (hintact : Intact k) (fd address count : UInt64) :
    Handles k.view (fd = 1 ∨ fd = 2) [.buffer address count] (syscallWrite fd address count k).1 := by
  have hopen : fd = 1 ∨ fd = 2 → ¬(fd ≠ 1 ∧ fd ≠ 2) := by
    rintro (rfl | rfl) ⟨h₁, h₂⟩
    · exact h₁ rfl
    · exact h₂ rfl
  rw [syscallWrite]
  refine .of_buffer hintact (fun hno => ?_) (fun hfd hvalid => ?_) fun hfd hvalid => ?_
  · rw [if_pos (not_or.mp hno)]
    exact ⟨_, rfl, negativeErrno_ne_fault (by decide)⟩
  · rw [if_neg (hopen hfd), if_pos (by rw [hvalid]; decide)]
    rfl
  · refine ⟨_, by rw [if_neg (hopen hfd), if_neg (not_not.mpr hvalid)], ?_, ?_⟩
    · exact Prog.answers_bind fun _ => Prog.answers_pure (ne_fault_of_le (toNat_le_of_valid hvalid))
    · exact Prog.returns_bind (returns_consoleWrite hvalid) fun _ => Prog.returns_pure _

lemma handles_syscallGetdents64 (hintact : Intact k) (fd address count : UInt64) :
    Handles k.view (∃ i, fdIndex fd = some i ∧ (k.current.fds i).type = .dir) [.buffer address count]
      (syscallGetdents64 fd address count k).1 := by
  rw [syscallGetdents64, Prog.get_bind_apply]
  refine .of_buffer hintact (fun hno => ?_) (fun hdir hvalid => ?_) fun hdir hvalid => ?_
  · cases hfd : fdIndex fd with
    | none => exact ⟨_, rfl, negativeErrno_ne_fault (by decide)⟩
    | some i =>
      have htype : (k.current.fds i).type ≠ .dir := fun htype => hno ⟨i, hfd, htype⟩
      dsimp only
      rw [if_pos htype]
      exact ⟨_, rfl, negativeErrno_ne_fault (by decide)⟩
  · obtain ⟨i, hfd, htype⟩ := hdir
    simp only [hfd]
    rw [if_neg (not_not.mpr htype), if_pos (by rw [hvalid]; decide)]
    rfl
  · obtain ⟨i, hfd, htype⟩ := hdir
    have hcount := toNat_le_of_valid hvalid
    refine ⟨getdentsFrom i address count (count.toNat + 1) 0, ?_, ?_, ?_⟩
    · simp only [hfd]
      rw [if_neg (not_not.mpr htype), if_neg (not_not.mpr hvalid)]
    · intro k r k' h
      exact ne_fault_of_le ((answers_getdentsFrom (Nat.zero_le _) k r k' h).trans hcount)
    · exact returns_getdentsFrom hvalid (Nat.zero_le _)

lemma handles_syscallGetcwd (hintact : Intact k) (address size : UInt64) :
    Handles k.view (2 ≤ size) [.buffer address 2] (syscallGetcwd address size k).1 := by
  rw [syscallGetcwd]
  refine .of_buffer hintact (fun hno => ?_) (fun hsize hvalid => ?_) fun hsize hvalid => ?_
  · rw [if_pos (UInt64.not_le.mp hno)]
    exact ⟨_, rfl, negativeErrno_ne_fault (by decide)⟩
  · rw [if_neg (UInt64.not_lt.mpr hsize), if_pos (by rw [hvalid]; decide)]
    rfl
  · refine ⟨_, by rw [if_neg (UInt64.not_lt.mpr hsize), if_neg (not_not.mpr hvalid)], ?_, ?_⟩
    · refine Prog.answers_bind fun _ => Prog.answers_pure (ne_fault_of_le ?_)
      have hin := inUser_of_valid hvalid (i := 0) (by decide)
      exact hin.2.le
    · exact Prog.returns_bind (returns_writeUserBytes hvalid (by decide)) fun _ => Prog.returns_pure _

lemma handles_syscallUname (hintact : Intact k) (address : UInt64) :
    Handles k.view True [.buffer address (6 * 65)] (syscallUname address k).1 := by
  rw [syscallUname]
  refine .of_buffer hintact (fun h => absurd trivial h) (fun _ hvalid => ?_) fun _ hvalid => ?_
  · rw [if_pos (by rw [hvalid]; decide)]
    rfl
  · refine ⟨_, by rw [if_neg (not_not.mpr hvalid)], ?_, ?_⟩
    · exact Prog.answers_bind fun _ => Prog.answers_pure (by decide)
    · exact Prog.returns_bind (returns_writeUnameFields hvalid (by decide) (by decide)) fun _ =>
        Prog.returns_pure _

lemma handles_syscallWait4 (hintact : Intact k) (pid address : UInt64) :
    Handles k.view (zombieChild k pid ≠ none) (if address = 0 then [] else [.buffer address 4])
      (syscallWait4 pid address k).1 := by
  have hnil : ∀ arg ∈ ([] : List Argument), ¬arg.Touches k.view := fun arg harg =>
    absurd harg List.not_mem_nil
  rw [syscallWait4, Prog.get_bind_apply]
  cases hzombie : zombieChild k pid with
  | none =>
    by_cases hzero : address = 0
    · rw [if_pos hzero]
      exact .returned hnil
    · exact .answers (fun h => h.1 rfl) (negativeErrno_ne_fault (by decide))
  | some i =>
    dsimp only
    by_cases hzero : address = 0
    · rw [if_pos hzero, if_neg fun h => h.1 hzero, if_neg (not_not.mpr hzero)]
      exact .returned hnil
    · rw [if_neg hzero]
      cases hvalid : userRangeIsValid address 4 with
      | false =>
        rw [if_pos ⟨hzero, by decide⟩]
        exact .refused (Option.some_ne_none i) (firstRefused_buffer.mpr hvalid)
      | true =>
        have hno : ¬(some i ≠ none ∧ FirstRefused k.view [.buffer address 4]) := by
          rintro ⟨-, hrefused⟩
          rw [firstRefused_buffer, hvalid] at hrefused
          cases hrefused
        have hlen : (intBytes ((k.processes i).exitStatus * 256)).length = 4 := by
          simp [intBytes, wordBytes]
        have hends : StoreEnds k (address.toNat + 0) (intBytes ((k.processes i).exitStatus * 256))
            (writeUserBytes address 0 (intBytes ((k.processes i).exitStatus * 256)) k) :=
          writeUserBytes_ends_of_valid hintact hvalid (by rw [hlen]; decide)
        rw [if_neg fun h => h.2 rfl, if_pos hzero, Prog.bind_apply]
        generalize writeUserBytes address 0 _ k = r at hends
        cases hends with
        | done hhas =>
          rw [hlen, Nat.add_zero] at hhas
          refine .returned fun arg harg => ?_
          rw [List.mem_singleton.mp harg]
          exact not_not.mpr hhas
        | faults hhas =>
          rw [hlen, Nat.add_zero] at hhas
          exact .faults hno ⟨_, List.mem_singleton_self _, hhas⟩

/-! ### Strings -/

lemma firstRefused_string {address : UInt64} :
    FirstRefused m [.string address] ↔ StringRefused m address := by
  simp [FirstRefused, Argument.Refused]

/-- A handler that copies a string and then returns. -/
lemma Handles.of_string {address : UInt64} {f : CString → KernelM UInt64} (hreaches : reaches)
    (hf : ∀ path k', ∃ r, (f path k').1 = .ok r) :
    Handles k.view reaches [.string address] ((do
      match ← copyUserString maxString address with
      | none => return negativeErrno .fault
      | some path => f path : KernelM UInt64) k).1 := by
  have hends := copyUserString_copies address k
  rw [Prog.bind_apply]
  generalize copyUserString maxString address k = r at hends
  cases hends with
  | @copied path k' hmapped =>
    obtain ⟨r, hr⟩ := hf path k'
    dsimp only
    rw [hr]
    refine .returned fun arg harg => ?_
    rw [List.mem_singleton.mp harg]
    exact hmapped
  | refused h => exact .refused hreaches (firstRefused_string.mpr h)
  | faults h hfits =>
    exact .faults (fun h => hfits (firstRefused_string.mp h.2)) ⟨_, List.mem_singleton_self _, h⟩

lemma handles_syscallAccess (address : UInt64) (k : Kernel) :
    Handles k.view True [.string address] (syscallAccess address k).1 :=
  .of_string trivial fun _ _ => ⟨_, rfl⟩

lemma handles_syscallOpen (address : UInt64) (k : Kernel) :
    Handles k.view (allocateFd k.current ≠ none) [.string address] (syscallOpen address k).1 := by
  rw [syscallOpen, Prog.get_bind_apply]
  cases allocateFd k.current with
  | none => exact .answers (fun h => h.1 rfl) (negativeErrno_ne_fault (by decide))
  | some fd =>
    refine .of_string (Option.some_ne_none fd) fun path k' => ?_
    cases ramdiskFind k.kmem k.ramdisk path with
    | none => exact ⟨_, rfl⟩
    | some file => exact ⟨_, rfl⟩

/-- `execve` copies the path, the arguments and the environment in this order. -/
lemma handles_syscallExecve (frame : SyscallFrame) (k : Kernel) :
    Handles k.view True
      [.string frame.rdi, .strings frame.rsi (maxArgs - 1), .strings frame.rdx (maxEnv - 1)]
      ((syscallExecve frame k).1.map Prod.fst) := by
  have hpath := copyUserString_copies frame.rdi k
  rw [syscallExecve, Prog.bind_apply]
  generalize copyUserString maxString frame.rdi k = r at hpath
  cases hpath with
  | refused h => exact .refused trivial (.inl h)
  | faults h hfits =>
    refine .faults ?_ ⟨_, List.mem_cons_self, h⟩
    rintro ⟨-, hrefused | ⟨hmapped, -⟩⟩
    · exact hfits hrefused
    · exact hmapped h
  | @copied path k₁ hmapped hfits hreads =>
    have hargv := copyUserStringArray_copies frame.rsi (show maxArgs - 1 ≤ 2 ^ 32 by norm_num) k₁
    rw [hreads.view] at hargv
    dsimp only
    rw [Prog.bind_apply]
    generalize copyUserStringArray (maxArgs - 1) frame.rsi k₁ = r at hargv
    cases hargv with
    | refused h => exact .refused trivial (.inr ⟨hmapped, .inl h⟩)
    | faults h hfits₁ =>
      refine .faults ?_ ⟨_, List.mem_cons_of_mem _ List.mem_cons_self, h⟩
      rintro ⟨-, hrefused | ⟨-, hrefused | ⟨hmapped₁, -⟩⟩⟩
      · exact hfits hrefused
      · exact hfits₁ hrefused
      · exact hmapped₁ h
    | @copied argv k₂ hmapped₁ hfits₁ hreads₁ =>
      have henvp := copyUserStringArray_copies frame.rdx (show maxEnv - 1 ≤ 2 ^ 32 by norm_num) k₂
      rw [hreads₁.view, hreads.view] at henvp
      dsimp only
      rw [Prog.bind_apply]
      generalize copyUserStringArray (maxEnv - 1) frame.rdx k₂ = r at henvp
      cases henvp with
      | refused h => exact .refused trivial (.inr ⟨hmapped, .inr ⟨hmapped₁, .inl h⟩⟩)
      | faults h hfits₂ =>
        refine .faults ?_ ⟨_, List.mem_cons_of_mem _ (List.mem_cons_of_mem _ List.mem_cons_self), h⟩
        rintro ⟨-, hrefused | ⟨-, hrefused | ⟨-, hrefused | ⟨hmapped₂, -⟩⟩⟩⟩
        · exact hfits hrefused
        · exact hfits₁ hrefused
        · exact hfits₂ hrefused
        · exact hmapped₂ h
      | copied hmapped₂ =>
        refine .returned ?_
        simp only [List.forall_mem_cons, List.not_mem_nil, false_imp_iff, implies_true, and_true]
        exact ⟨hmapped, hmapped₁, hmapped₂⟩

/-! ### All system calls -/

lemma answer_withFrame (frame : SyscallFrame) (handler : KernelM UInt64) (k : Kernel) :
    (withFrame frame handler k).1.map Prod.fst = (handler k).1 := by
  rw [withFrame, Prog.bind_apply]
  rcases handler k with ⟨_ | r, k'⟩
  · rfl
  · rfl

lemma Handles.of_nil {r : Except Stop UInt64} (hr : ∀ address, r ≠ .error (.pageFault address)) :
    Handles m reaches [] r :=
  .clean (fun _ harg => absurd harg List.not_mem_nil) hr

/-- A handler without arguments that returns. -/
lemma Handles.of_returns {handler : KernelM UInt64} (h : Prog.Returns (fun _ => True) handler) :
    Handles m reaches [] (handler k).1 := by
  obtain ⟨r, k', hr, -⟩ := h k trivial
  rw [hr]
  exact .returned fun _ harg => absurd harg List.not_mem_nil

lemma returns_syscallClose (fd : UInt64) : Prog.Returns (fun _ => True) (syscallClose fd) := by
  refine Prog.returns_bind Prog.returns_get fun k => ?_
  cases fdIndex fd with
  | none => exact Prog.returns_pure _
  | some i =>
    refine Prog.returns_ite (fun _ => Prog.returns_pure _) fun _ => ?_
    exact Prog.returns_bind (Prog.returns_modify fun _ h => h) fun _ => Prog.returns_pure _

lemma returns_syscallLseek (fd offset whence : UInt64) :
    Prog.Returns (fun _ => True) (syscallLseek fd offset whence) := by
  intro k _
  rcases syscallLseek_cases fd offset whence k with ⟨error, h⟩ | ⟨i, next, -, h⟩
  · exact ⟨_, _, h, trivial⟩
  · exact ⟨_, _, h, trivial⟩

lemma returns_syscallBrk (requestedBreak : UInt64) :
    Prog.Returns (fun _ => True) (syscallBrk requestedBreak) := by
  intro k _
  rw [syscallBrk]
  dsimp only
  split_ifs
  · exact ⟨_, _, rfl, trivial⟩
  · exact ⟨_, _, rfl, trivial⟩
  · split
    · exact ⟨_, _, rfl, trivial⟩
    · exact ⟨_, _, rfl, trivial⟩

lemma returns_syscallVfork (frame : SyscallFrame) :
    Prog.Returns (fun _ => True) (syscallVfork frame) := by
  intro k _
  rw [syscallVfork, allocateProcess]
  cases unusedSlot k.processes with
  | none => exact ⟨_, _, rfl, trivial⟩
  | some slot =>
    dsimp only
    split_ifs
    · exact ⟨_, _, rfl, trivial⟩
    · split
      · exact ⟨_, _, rfl, trivial⟩
      · exact ⟨_, _, rfl, trivial⟩

/-- `exit` may stop the machine, but not with a page fault. -/
lemma syscallExit_answer (frame : SyscallFrame) (status : UInt64) (k : Kernel) (address : UInt64) :
    (syscallExit frame status k).1.map Prod.fst ≠ .error (.pageFault address) := by
  rw [syscallExit]
  dsimp only
  split
  · exact fun h => Stop.noConfusion (Except.error.inj h)
  · rintro ⟨⟩

theorem handles_dispatch (hintact : Intact k) (frame : SyscallFrame) :
    Handles k.view (Reaches k frame) (arguments frame) (answer frame k) := by
  rw [Reaches, arguments, answer, processSyscallDispatch]
  cases syscallNumber frame.rax with
  | read =>
    rw [answer_withFrame]
    exact handles_syscallRead hintact _ _ _
  | write =>
    rw [answer_withFrame]
    exact handles_syscallWrite hintact _ _ _
  | «open» | openat =>
    rw [answer_withFrame]
    exact handles_syscallOpen _ k
  | access =>
    rw [answer_withFrame]
    exact handles_syscallAccess _ k
  | getdents64 =>
    rw [answer_withFrame]
    exact handles_syscallGetdents64 hintact _ _ _
  | getcwd =>
    rw [answer_withFrame]
    exact handles_syscallGetcwd hintact _ _
  | uname =>
    rw [answer_withFrame]
    exact handles_syscallUname hintact _
  | wait4 =>
    rw [answer_withFrame]
    exact handles_syscallWait4 hintact _ _
  | execve => exact handles_syscallExecve frame k
  | close =>
    rw [answer_withFrame]
    exact .of_returns (returns_syscallClose _)
  | lseek =>
    rw [answer_withFrame]
    exact .of_returns (returns_syscallLseek _ _ _)
  | brk =>
    rw [answer_withFrame]
    exact .of_returns (returns_syscallBrk _)
  | getpid | getppid =>
    rw [answer_withFrame]
    exact .of_returns (Prog.returns_bind Prog.returns_get fun _ => Prog.returns_pure _)
  | getuid | schedYield | unknown =>
    rw [answer_withFrame]
    exact .of_returns (Prog.returns_pure _)
  | vfork =>
    obtain ⟨r, k', hr, -⟩ := returns_syscallVfork frame k trivial
    dsimp only
    rw [hr]
    exact .of_nil fun address h => by cases h
  | exit => exact .of_nil (syscallExit_answer frame frame.rdi k)

/-! ### Runs -/

/-- In every state of every run in which no program with a segment that wraps around has been executed: a
system call treats its pointers as expected exactly when they are all mapped, or when it refuses one by its
range before it follows any that is not mapped. -/
theorem pointerSafe_iff_of_run (hboot : boot.memory.Valid) (hinit : InitFits boot) (hstart : Starts boot)
    (hrun : Run ExecFits (started boot) es k) (frame : SyscallFrame) :
    PointerSafe k frame ↔ PointersOk k frame := by
  have htidy : Tidy boot k := owned_of_run hboot hinit hstart hrun
  exact (handles_dispatch htidy.intact frame).pointerSafe_iff

/-- A call of `uname`. -/
def unameCall (address : UInt64) : SyscallFrame := { SyscallFrame.zero with rax := 63, rdi := address }

lemma arguments_unameCall (address : UInt64) : arguments (unameCall address) = [.buffer address (6 * 65)] := by
  have hn : syscallNumber (unameCall address).rax = .uname := rfl
  rw [arguments, hn]
  rfl

/-- The program of the small machine asks for the name of the system in a page it has. -/
theorem pointerSafe_small : PointerSafe (started (smallBoot 0x10000)) (unameCall 0x10000) := by
  refine (pointerSafe_iff_of_run (smallBoot_valid _) smallProgram.initFits smallBoot_starts .nil _).mpr
    (.inl fun arg harg => ?_)
  rw [arguments_unameCall] at harg
  rw [List.mem_singleton.mp harg]
  refine not_not.mpr fun x hge hlt => ?_
  have hsize : (6 * 65 : UInt64).toNat = 390 := rfl
  have haddress : (0x10000 : UInt64).toNat = 0x10000 := rfl
  exact small_has x (by omega) (by omega)

/-- `uname` stores its first byte without a look at the page tables. -/
lemma syscallUname_faults {address : UInt64} (hvalid : userRangeIsValid address (6 * 65) = true)
    (hnone : k.view address.toNat = none) :
    answer (unameCall address) k = .error (.pageFault address) := by
  have hin := inUser_of_valid hvalid (i := 0) (by decide)
  have hn : syscallNumber (unameCall address).rax = .uname := rfl
  have hfields : unameFields = (88 :: cstr "iaobaiOS") :: unameFields.tail := rfl
  have hfirst : ∀ rest, writeUserBytes address 0 (88 :: rest) k =
      (.error (.pageFault (address + UInt64.ofNat 0)), k.noteAccess (address.toNat + 0)) :=
    fun rest => Prog.bind_error (writeUser_none hin hnone 88)
  rw [answer, processSyscallDispatch, hn]
  dsimp only
  rw [answer_withFrame]
  have haddress : (unameCall address).rdi = address := rfl
  rw [haddress, syscallUname, if_neg (not_not.mpr hvalid), hfields, writeUnameFields, List.cons_append,
    Nat.mul_zero, Prog.bind_error (Prog.bind_error (hfirst _)), show UInt64.ofNat 0 = 0 from rfl,
    UInt64.add_zero]

/-- The program of the small machine asks for the name of the system in a page it does not have: the
address is not mapped, and the kernel follows it. -/
theorem unmapped_pointer_followed : Run ExecFits (started (smallBoot 0x10000)) [] (started (smallBoot 0x10000)) ∧
    (Argument.buffer 0x20000 (6 * 65)).Touches (started (smallBoot 0x10000)).view ∧
    answer (unameCall 0x20000) (started (smallBoot 0x10000)) = .error (.pageFault 0x20000) ∧
    ¬PointerSafe (started (smallBoot 0x10000)) (unameCall 0x20000) := by
  have hnone : (started (smallBoot 0x10000)).view (0x20000 : UInt64).toNat = none := by
    obtain ⟨-, -, hspace⟩ := smallProgram.space (smallBoot_valid _) smallBoot_starts
    obtain ⟨F, howned, -⟩ := owned_started (smallBoot_valid 0x10000) smallProgram.initFits smallBoot_starts
    have hmapped := hspace 0x20000 (by decide)
    rw [← howned.current, ne_eq, ← view_eq_none_iff (by decide)] at hmapped
    by_contra hview
    have := hmapped.mp hview
    revert this
    decide
  have hfault := syscallUname_faults (by decide) hnone
  refine ⟨.nil, fun hhas => ?_, hfault, fun hsafe => hsafe.mapped _ hfault⟩
  exact hhas _ (le_refl _) (by decide) hnone

end Xbks
