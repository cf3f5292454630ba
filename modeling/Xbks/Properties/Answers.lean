import Xbks.Properties.UserFaults

/-!
# What the file calls answer

A system call answers a non-negative result or a negative error number. `lseek` computes its target
modulo `2 ^ 64` and does not look at it, `getdents64` answers 0 both at the end of the directory and when
the next record does not fit, and `access` and `faccessat` share an arm of the dispatcher that guesses
where the path is. For each of them it is said here exactly when the answer is what it should be.
-/

namespace Xbks

variable {boot : BootInfo} {ok : Kernel → Event → Prop} {es : List Event} {k k' : Kernel} {i : Fin 16}
  {address count offset whence r : UInt64}

/-- The error numbers of `uapi/errno.h`. -/
def errnoCodes : List ℕ :=
  [1, 2, 3, 4, 5, 6, 7, 8, 9, 10, 11, 12, 13, 14, 16, 17, 18, 19, 20, 21, 22, 23, 24, 25, 26, 27, 28, 29,
    30, 31, 32, 34, 36, 38, 39, 40, 95]

/-- The answer is a negative error number. -/
def IsErrno (r : UInt64) : Prop := ∃ e ∈ errnoCodes, r = 0 - UInt64.ofNat e

lemma isErrno_negativeErrno (error : Errno) : IsErrno (negativeErrno error) :=
  ⟨error.code, by cases error <;> decide, rfl⟩

lemma IsErrno.ge (h : IsErrno r) : 2 ^ 63 ≤ r.toNat := by
  obtain ⟨e, he, rfl⟩ := h
  have hall : ∀ e ∈ errnoCodes, 2 ^ 63 ≤ (0 - UInt64.ofNat e).toNat := by decide
  exact hall e he

/-! ### `lseek` -/

/-- The value of a word as an `int64_t`. -/
def signed (w : UInt64) : ℤ := w.toBitVec.toInt

/-- From where `lseek` counts. -/
def seekBase (fd : ProcessFd) (whence : UInt64) : Option ℕ :=
  if whence = 0 then some 0
  else if whence = 1 then some fd.offset.toNat
  else if whence = 2 then some fd.file.size.toNat
  else none

/-- `lseek` fails and leaves the offset alone, or answers the exact sum, which is not negative as a signed
number and becomes the offset. -/
def SeeksExactly (k : Kernel) (i : Fin 16) (offset whence : UInt64) : Prop :=
  ∃ r k', syscallLseek (UInt64.ofNat i) offset whence k = (.ok r, k') ∧
    (IsErrno r ∧ (k'.current.fds i).offset = (k.current.fds i).offset ∨
      r.toNat < 2 ^ 63 ∧ (∃ base, seekBase (k.current.fds i) whence = some base ∧
        (r.toNat : ℤ) = base + signed offset) ∧ (k'.current.fds i).offset = r)

/-- There is no such base, or the sum is in range; or the offset has already been moved to a value that
reads as an error number and is not moved again. -/
def SeekOk (fd : ProcessFd) (offset whence : UInt64) : Prop :=
  ∀ base, seekBase fd whence = some base →
    (0 ≤ base + signed offset ∧ base + signed offset < 2 ^ 63) ∨
    IsErrno fd.offset ∧ (base + signed offset) % 2 ^ 64 = fd.offset.toNat

/-- The sum of the source, modulo `2 ^ 64`. -/
lemma toNat_add_signed (base offset : UInt64) :
    ((base + offset).toNat : ℤ) = (base.toNat + signed offset) % 2 ^ 64 := by
  have hb := base.toNat_lt
  have ho := offset.toNat_lt
  have hsigned : signed offset = if 2 * offset.toNat < 2 ^ 64 then (offset.toNat : ℤ)
      else (offset.toNat : ℤ) - (2 ^ 64 : ℕ) := BitVec.toInt_eq_toNat_cond offset.toBitVec
  rw [UInt64.toNat_add, hsigned]
  split_ifs <;> omega

lemma syscallLseek_base (offset : UInt64) {base : ℕ} (htype : (k.current.fds i).type = .file)
    (hbase : seekBase (k.current.fds i) whence = some base) : ∃ next : UInt64,
    (next.toNat : ℤ) = (base + signed offset) % 2 ^ 64 ∧
    syscallLseek (UInt64.ofNat i) offset whence k =
      (.ok next, k.setFd i { k.current.fds i with offset := next }) := by
  rw [seekBase] at hbase
  by_cases h0 : whence = 0
  · rw [if_pos h0, Option.some.injEq] at hbase
    subst hbase
    have hsum := toNat_add_signed 0 offset
    rw [UInt64.zero_add] at hsum
    exact ⟨offset, hsum, syscallLseek_file htype (.inl ⟨h0, rfl⟩)⟩
  · rw [if_neg h0] at hbase
    by_cases h1 : whence = 1
    · rw [if_pos h1, Option.some.injEq] at hbase
      subst hbase
      exact ⟨_, toNat_add_signed _ offset, syscallLseek_file htype (.inr (.inl ⟨h1, rfl⟩))⟩
    · rw [if_neg h1] at hbase
      by_cases h2 : whence = 2
      · rw [if_pos h2, Option.some.injEq] at hbase
        subst hbase
        exact ⟨_, toNat_add_signed _ offset, syscallLseek_file htype (.inr (.inr ⟨h2, rfl⟩))⟩
      · rw [if_neg h2] at hbase
        cases hbase

lemma syscallLseek_inval (htype : (k.current.fds i).type = .file)
    (hbase : seekBase (k.current.fds i) whence = none) :
    syscallLseek (UInt64.ofNat i) offset whence k = (.ok (negativeErrno .inval), k) := by
  rw [seekBase] at hbase
  split_ifs at hbase with h0 h1 h2
  rw [syscallLseek, Prog.get_bind_apply, fdIndex_ofNat]
  simp only [htype, h0, h1, h2, ne_eq, not_true_eq_false, if_false]
  rfl

/-- In every state, `lseek` on a file keeps to the rules of the answers exactly when its target is in
range. -/
theorem seeksExactly_iff (htype : (k.current.fds i).type = .file) :
    SeeksExactly k i offset whence ↔ SeekOk (k.current.fds i) offset whence := by
  cases hbase : seekBase (k.current.fds i) whence with
  | none =>
    refine ⟨fun _ base h => ?_, fun _ => ⟨_, _, syscallLseek_inval htype hbase, .inl ⟨?_, rfl⟩⟩⟩
    · rw [hbase] at h
      cases h
    · exact isErrno_negativeErrno _
  | some base =>
    obtain ⟨next, hnext, hseek⟩ := syscallLseek_base offset htype hbase
    have hfd : ((k.setFd i { k.current.fds i with offset := next }).current.fds i).offset = next := by
      rw [setFd_fds]
    constructor
    · rintro ⟨r, k', h, hr⟩ base' hbase'
      rw [hbase, Option.some.injEq] at hbase'
      subst hbase'
      rw [hseek] at h
      obtain ⟨hok, rfl⟩ := Prod.mk.inj h
      cases hok
      rw [hfd] at hr
      rcases hr with ⟨herrno, hsame⟩ | ⟨hlt, ⟨base', hbase', hexact⟩, -⟩
      · rw [← hsame]
        exact .inr ⟨herrno, hnext.symm⟩
      · rw [hbase, Option.some.injEq] at hbase'
        subst hbase'
        exact .inl (by omega)
    · intro hok
      refine ⟨next, _, hseek, ?_⟩
      rw [hfd]
      rcases hok base hbase with ⟨hge, hlt⟩ | ⟨herrno, hsame⟩
      · rw [Int.emod_eq_of_lt hge (by omega)] at hnext
        exact .inr ⟨by omega, ⟨base, hbase, hnext⟩, rfl⟩
      · obtain rfl : next = (k.current.fds i).offset := by
          rw [← UInt64.toNat_inj]
          omega
        exact .inl ⟨herrno, rfl⟩

/-- The program of the small machine has opened its own file. -/
lemma small_file : ∃ es k i, Run ExecFits (started (smallBoot 0x10000)) es k ∧
    k.current.fds i = smallFile.opened := by
  obtain ⟨k, k₁, i, hopened⟩ := small_opened (by decide) (by decide) smallProgram.file
  obtain ⟨es, hrun⟩ := hopened.run
  obtain ⟨e, hok, hstep⟩ := step_open hopened.opens
  exact ⟨_, k₁, i, hrun.snoc hok hstep, hopened.fd⟩

/-- A move to the end of the file. -/
theorem seeksExactly_small : ∃ es k i, Run ExecFits (started (smallBoot 0x10000)) es k ∧
    (k.current.fds i).type = .file ∧ SeeksExactly k i 0 2 := by
  obtain ⟨es, k, i, hrun, hfd⟩ := small_file
  have htype : (k.current.fds i).type = .file := by
    rw [hfd]
    rfl
  refine ⟨es, k, i, hrun, htype, (seeksExactly_iff htype).mpr ?_⟩
  rw [hfd]
  rintro base ⟨⟩
  exact .inl (by decide)

/-- A move to a negative offset is not refused. -/
theorem negative_offset_accepted : ∃ es k i, Run ExecFits (started (smallBoot 0x10000)) es k ∧
    (k.current.fds i).type = .file ∧ ¬SeeksExactly k i 0x8000000000000000 0 := by
  obtain ⟨es, k, i, hrun, hfd⟩ := small_file
  have htype : (k.current.fds i).type = .file := by
    rw [hfd]
    rfl
  refine ⟨es, k, i, hrun, htype, ?_⟩
  rintro ⟨r, k', h, hr⟩
  rw [syscallLseek_file htype (.inl ⟨rfl, rfl⟩)] at h
  obtain ⟨hok, rfl⟩ := Prod.mk.inj h
  cases hok
  rw [setFd_fds, hfd] at hr
  rcases hr with ⟨-, hsame⟩ | ⟨hlt, -, -⟩
  · exact absurd hsame (by decide)
  · exact absurd hlt (by decide)

/-! ### `getdents64` -/

/-- The child that comes next on a descriptor. -/
def nextChild (k : Kernel) (fd : ProcessFd) : Option RamdiskFile :=
  ramdiskReadDir k.kmem k.ramdisk fd.file.path fd.offset

/-- `getdents64` answers 0 only at the end, and an error when the next record does not fit. -/
structure EndsAtEnd (k : Kernel) (i : Fin 16) (address count : UInt64) : Prop where
  zero : ∀ k', syscallGetdents64 (UInt64.ofNat i) address count k = (.ok 0, k') →
    nextChild k (k.current.fds i) = none
  small : ∀ child, nextChild k (k.current.fds i) = some child →
    count.toNat < (direntReclen (lastComponent child.path)).toNat →
    ∃ r k', syscallGetdents64 (UInt64.ofNat i) address count k = (.ok r, k') ∧ IsErrno r ∧
      (k'.current.fds i).offset = (k.current.fds i).offset

/-- Without room for the next record, 0 is answered. -/
lemma syscallGetdents64_small {child : RamdiskFile} (htype : (k.current.fds i).type = .dir)
    (hvalid : userRangeIsValid address count = true) (hchild : nextChild k (k.current.fds i) = some child)
    (hsmall : count.toNat < (direntReclen (lastComponent child.path)).toNat) :
    syscallGetdents64 (UInt64.ofNat i) address count k = (.ok 0, k) := by
  rw [nextChild] at hchild
  rw [syscallGetdents64_eq htype hvalid, getdentsFrom, Prog.get_bind_apply]
  simp only [hchild, UInt64.zero_add, gt_iff_lt, UInt64.lt_iff_toNat_lt, hsmall, if_true]
  rfl

/-- A record takes up room. -/
lemma eq_nil_of_direntsSize {ds : List Dirent} (hds : ∀ d ∈ ds, 20 + d.name.length ≤ d.reclen.toNat)
    (h : direntsSize ds = 0) : ds = [] := by
  cases ds with
  | nil => rfl
  | cons d ds =>
    have hd := hds d List.mem_cons_self
    rw [direntsSize_cons] at h
    omega

/-- With room for the next record, 0 is answered at the end. -/
lemma syscallGetdents64_zero (htype : (k.current.fds i).type = .dir)
    (hvalid : userRangeIsValid address count = true)
    (h : syscallGetdents64 (UInt64.ofNat i) address count k = (.ok 0, k'))
    (hroom : ∀ child, nextChild k (k.current.fds i) = some child →
      (direntReclen (lastComponent child.path)).toNat ≤ count.toNat) :
    nextChild k (k.current.fds i) = none := by
  have hcount := toNat_le_of_valid hvalid
  obtain ⟨hlisted, hfits⟩ := nextDirents_spec k (k.current.fds i) hcount
  have hinside := hlisted.inside
  have hends := syscallGetdents64_ends htype hvalid
  have hstops := nextDirents_stops k (k.current.fds i) hcount
  rw [h] at hends
  clear hlisted
  generalize nextDirents k (k.current.fds i) count = ds at hends hinside hfits hstops
  generalize storeDirents address 0 ds k = stored at hends
  generalize hres : ((.ok 0 : Except Stop UInt64), k') = result at hends
  cases hends with
  | stops => cases hres
  | done k₁ =>
    obtain ⟨hzero, -⟩ := Prod.mk.inj hres
    have hsize : (UInt64.ofNat (direntsSize ds)).toNat = direntsSize ds :=
      Word.toNat_ofNat_of_lt (by omega)
    rw [UInt64.zero_add] at hzero
    rw [← Except.ok.inj hzero] at hsize
    obtain rfl := eq_nil_of_direntsSize hinside hsize.symm
    rw [List.length_nil, show UInt64.ofNat 0 = 0 from rfl, UInt64.add_zero] at hstops
    cases hchild : nextChild k (k.current.fds i) with
    | none => rfl
    | some child =>
      have hlt := hstops child hchild
      have hle := hroom child hchild
      rw [direntsSize_nil] at hlt
      omega

/-- In every state, `getdents64` on a directory reports its end as it should exactly when there is room for
the next record. -/
theorem endsAtEnd_iff (htype : (k.current.fds i).type = .dir)
    (hvalid : userRangeIsValid address count = true) :
    EndsAtEnd k i address count ↔ ∀ child, nextChild k (k.current.fds i) = some child →
      (direntReclen (lastComponent child.path)).toNat ≤ count.toNat := by
  constructor
  · intro h child hchild
    by_contra hroom
    obtain ⟨r, k', hcall, herrno, -⟩ := h.small child hchild (by omega)
    rw [syscallGetdents64_small htype hvalid hchild (by omega)] at hcall
    obtain ⟨hok, -⟩ := Prod.mk.inj hcall
    cases hok
    exact absurd herrno.ge (by decide)
  · intro hroom
    refine ⟨fun k' h => syscallGetdents64_zero htype hvalid h hroom, fun child hchild hsmall => ?_⟩
    have hle := hroom child hchild
    omega

/-- The program of the small machine has opened the root, which has a child. -/
lemma small_directory : ∃ es k i child, Run ExecFits (started (smallBoot 0x10000)) es k ∧
    (k.current.fds i).type = .dir ∧ nextChild k (k.current.fds i) = some child ∧
    child.path.length < 256 := by
  obtain ⟨k, k₁, i, hopened⟩ := small_opened (by decide) (by decide) small_root
  obtain ⟨es, hrun⟩ := hopened.run
  obtain ⟨e, hok, hstep⟩ := step_open hopened.opens
  have hrun₁ := hrun.snoc hok hstep
  obtain ⟨hkmem, hramdisk⟩ := archive_of_run smallBoot_starts hrun₁
  obtain ⟨child, hchild⟩ := Option.isSome_iff_exists.mp small_child
  have hlen := length_ramdiskReadDir_lt hchild
  refine ⟨_, k₁, i, child, hrun₁, ?_, ?_, hlen⟩
  · rw [hopened.fd]
    rfl
  · rw [nextChild, hopened.fd, hkmem, hramdisk]
    exact hchild

/-- A call with room for every record. -/
theorem endsAtEnd_small : ∃ es k i, Run ExecFits (started (smallBoot 0x10000)) es k ∧
    (k.current.fds i).type = .dir ∧ EndsAtEnd k i 0x10000 0x1000 := by
  obtain ⟨es, k, i, child, hrun, hdir, hchild, hlen⟩ := small_directory
  have hvalid : userRangeIsValid 0x10000 0x1000 = true := by decide
  refine ⟨es, k, i, hrun, hdir, (endsAtEnd_iff hdir hvalid).mpr fun child' hchild' => ?_⟩
  rw [hchild, Option.some.injEq] at hchild'
  subst hchild'
  have hname := length_lastComponent_le child.path
  have hbounds := direntReclen_bounds (lastComponent child.path) (by omega)
  have hcount : (0x1000 : UInt64).toNat = 0x1000 := rfl
  omega

/-- With a buffer of eight bytes the end of the root is reported before its first child. -/
theorem end_reported_early : ∃ es k i, Run ExecFits (started (smallBoot 0x10000)) es k ∧
    (k.current.fds i).type = .dir ∧ ¬EndsAtEnd k i 0x10000 8 := by
  obtain ⟨es, k, i, child, hrun, hdir, hchild, hlen⟩ := small_directory
  have hvalid : userRangeIsValid 0x10000 8 = true := by decide
  have hname := length_lastComponent_le child.path
  have hbounds := direntReclen_bounds (lastComponent child.path) (by omega)
  have hcount : (8 : UInt64).toNat = 8 := rfl
  refine ⟨es, k, i, hrun, hdir, fun h => ?_⟩
  have hnone := h.zero k (syscallGetdents64_small hdir hvalid hchild (by omega))
  rw [hchild] at hnone
  cases hnone

/-! ### `access` and `open` -/

/-- A path that the kernel can copy. -/
structure PathAt (k : Kernel) (address : UInt64) (path : CString) : Prop where
  low : 65536 ≤ address.toNat
  holds : HoldsString k.view address.toNat path
  short : path.length < maxString

/-- What becomes of a path. -/
inductive Fate
  | found
  | missing
  | refused
  | unmapped
  deriving DecidableEq

/-- The fate of the path at an address, by the memory of the process and the archive. -/
def HasFate (k : Kernel) (address : UInt64) : Fate → Prop
  | .found => ∃ path file, PathAt k address path ∧ ramdiskFind k.kmem k.ramdisk path = some file
  | .missing => ∃ path, PathAt k address path ∧ ramdiskFind k.kmem k.ramdisk path = none
  | .refused => StringRefused k.view address
  | .unmapped => StringTouches k.view address.toNat ∧ ¬StringRefused k.view address

/-- Both paths name something, or both name nothing, or both are refused. -/
def SameFate (k : Kernel) (address address' : UInt64) : Prop :=
  ∃ fate, fate ≠ .unmapped ∧ HasFate k address fate ∧ HasFate k address' fate

lemma PathAt.copies {path : CString} (h : PathAt k address path) :
    ¬StringTouches k.view address.toNat ∧ ¬StringRefused k.view address := by
  obtain ⟨k₁, hcopy, -⟩ := copyUserString_holds (show maxString ≤ 2 ^ 32 by norm_num) h.holds h.short h.low
  have hends := copyUserString_copies address k
  rw [hcopy] at hends
  generalize hr : ((.ok (some path) : Except Stop (Option CString)), k₁) = r at hends
  cases hends with
  | copied hmapped hfits _ => exact ⟨hmapped, hfits⟩
  | refused => cases hr
  | faults => cases hr

lemma HasFate.unique {fate fate' : Fate} (h : HasFate k address fate) (h' : HasFate k address fate') :
    fate = fate' := by
  have hpath : ∀ {path path' : CString}, PathAt k address path → PathAt k address path' → path = path' :=
    fun hp hp' => hp.holds.unique hp'.holds
  cases fate with
  | found =>
    obtain ⟨path, file, hat, hfile⟩ := h
    cases fate' with
    | found => rfl
    | missing =>
      obtain ⟨path', hat', hnone⟩ := h'
      rw [hpath hat hat', hnone] at hfile
      cases hfile
    | refused => exact absurd h' hat.copies.2
    | unmapped => exact absurd h'.1 hat.copies.1
  | missing =>
    obtain ⟨path, hat, hnone⟩ := h
    cases fate' with
    | found =>
      obtain ⟨path', file, hat', hfile⟩ := h'
      rw [hpath hat' hat, hnone] at hfile
      cases hfile
    | missing => rfl
    | refused => exact absurd h' hat.copies.2
    | unmapped => exact absurd h'.1 hat.copies.1
  | refused =>
    cases fate' with
    | found =>
      obtain ⟨path', file, hat', -⟩ := h'
      exact absurd h hat'.copies.2
    | missing =>
      obtain ⟨path', hat', -⟩ := h'
      exact absurd h hat'.copies.2
    | refused => rfl
    | unmapped => exact absurd h h'.2
  | unmapped =>
    cases fate' with
    | found =>
      obtain ⟨path', file, hat', -⟩ := h'
      exact absurd h.1 hat'.copies.1
    | missing =>
      obtain ⟨path', hat', -⟩ := h'
      exact absurd h.1 hat'.copies.1
    | refused => exact absurd h' h.2
    | unmapped => rfl

/-- What `access` answers for a path. -/
inductive AccessAnswers : Fate → Except Stop UInt64 → Prop
  | found : AccessAnswers .found (.ok 0)
  | missing : AccessAnswers .missing (.ok (negativeErrno .noent))
  | refused : AccessAnswers .refused (.ok (negativeErrno .fault))
  | unmapped (stop : Stop) : AccessAnswers .unmapped (.error stop)

/-- What `open` answers for a path when a descriptor is free. -/
inductive OpenAnswers : Fate → Except Stop UInt64 → Prop
  | found (i : Fin 16) : OpenAnswers .found (.ok (UInt64.ofNat i))
  | missing : OpenAnswers .missing (.ok (negativeErrno .noent))
  | refused : OpenAnswers .refused (.ok (negativeErrno .fault))
  | unmapped (stop : Stop) : OpenAnswers .unmapped (.error stop)

/-- Every path has a fate, which decides the answers of both calls. -/
lemma path_fate (address : UInt64) (hfree : allocateFd k.current ≠ none) : ∃ fate,
    HasFate k address fate ∧ AccessAnswers fate (syscallAccess address k).1 ∧
    OpenAnswers fate (syscallOpen address k).1 := by
  obtain ⟨j, hj⟩ := Option.ne_none_iff_exists'.mp hfree
  have hends := copyUserString_ends (k := k) (show 0 < maxString by norm_num) (by norm_num) address
  have hcopies := copyUserString_copies address k
  rw [syscallAccess, syscallOpen, Prog.get_bind_apply, hj]
  dsimp only
  rw [Prog.bind_apply, Prog.bind_apply]
  generalize copyUserString maxString address k = r at hends hcopies
  cases hends with
  | @copied path k₁ hlow hpath hlen hreads =>
    have hat : PathAt k address path := ⟨hlow, hpath, hlen⟩
    obtain ⟨accesses, rfl⟩ := hreads
    cases hfile : ramdiskFind k.kmem k.ramdisk path with
    | none =>
      refine ⟨.missing, ⟨path, hat, hfile⟩, ?_, ?_⟩
      · simp only [Prog.get_bind_apply, hfile]
        exact .missing
      · simp only [hfile]
        exact .missing
    | some file =>
      refine ⟨.found, ⟨path, file, hat, hfile⟩, ?_, ?_⟩
      · simp only [Prog.get_bind_apply, hfile]
        exact .found
      · simp only [hfile]
        exact .found j
  | refused =>
    cases hcopies with
    | refused h _ => exact ⟨.refused, h, .refused, .refused⟩
  | @faults n a k₁ =>
    cases hcopies with
    | faults h hfits => exact ⟨.unmapped, ⟨h, hfits⟩, .unmapped _, .unmapped _⟩

/-- `open` answers a descriptor where `access` answers 0, and otherwise both answer the same error. -/
def Agree (opens accesses : Except Stop UInt64) : Prop :=
  (accesses = .ok 0 ∧ ∃ i : Fin 16, opens = .ok (UInt64.ofNat i)) ∨
  ∃ error, IsErrno error ∧ accesses = .ok error ∧ opens = .ok error

lemma agree_iff_fate {fate fate' : Fate} {opens accesses : Except Stop UInt64} (ho : OpenAnswers fate opens)
    (ha : AccessAnswers fate' accesses) : Agree opens accesses ↔ fate = fate' ∧ fate ≠ .unmapped := by
  have hzero : ∀ e, IsErrno e → e ≠ 0 := by
    rintro e he rfl
    exact absurd he.ge (by decide)
  have hfd : ∀ (e : UInt64) (i : Fin 16), IsErrno e → e ≠ UInt64.ofNat i := by
    rintro e i he rfl
    have hi : (UInt64.ofNat i).toNat = i := Word.toNat_ofNat_of_lt (by omega)
    have hge := he.ge
    omega
  have hne : negativeErrno .noent ≠ negativeErrno .fault := by decide
  constructor
  · rintro (⟨rfl, i, rfl⟩ | ⟨e, he, rfl, rfl⟩)
    · generalize ha' : (.ok 0 : Except Stop UInt64) = a at ha
      generalize ho' : (.ok (UInt64.ofNat i) : Except Stop UInt64) = o at ho
      cases ha with
      | missing => exact absurd (Except.ok.inj ha').symm (hzero _ (isErrno_negativeErrno _))
      | refused => exact absurd (Except.ok.inj ha').symm (hzero _ (isErrno_negativeErrno _))
      | unmapped => cases ha'
      | found =>
        cases ho with
        | found => exact ⟨rfl, Fate.noConfusion⟩
        | missing => exact absurd (Except.ok.inj ho').symm (hfd _ i (isErrno_negativeErrno _))
        | refused => exact absurd (Except.ok.inj ho').symm (hfd _ i (isErrno_negativeErrno _))
        | unmapped => cases ho'
    · generalize ha' : (.ok e : Except Stop UInt64) = a at ha
      generalize ho' : (.ok e : Except Stop UInt64) = o at ho
      cases ha with
      | found => exact absurd (Except.ok.inj ha') (hzero e he)
      | unmapped => cases ha'
      | missing =>
        cases ho with
        | found i => exact absurd (Except.ok.inj ho') (hfd e i he)
        | missing => exact ⟨rfl, Fate.noConfusion⟩
        | refused => exact absurd ((Except.ok.inj ha').symm.trans (Except.ok.inj ho')) hne
        | unmapped => cases ho'
      | refused =>
        cases ho with
        | found i => exact absurd (Except.ok.inj ho') (hfd e i he)
        | missing => exact absurd ((Except.ok.inj ho').symm.trans (Except.ok.inj ha')) hne
        | refused => exact ⟨rfl, Fate.noConfusion⟩
        | unmapped => cases ho'
  · rintro ⟨rfl, hmapped⟩
    cases ho with
    | found i =>
      cases ha
      exact .inl ⟨rfl, i, rfl⟩
    | missing =>
      cases ha
      exact .inr ⟨_, isErrno_negativeErrno _, rfl, rfl⟩
    | refused =>
      cases ha
      exact .inr ⟨_, isErrno_negativeErrno _, rfl, rfl⟩
    | unmapped => exact absurd rfl hmapped

lemma agree_iff (hfree : allocateFd k.current ≠ none) (path path' : UInt64) :
    Agree (syscallOpen path k).1 (syscallAccess path' k).1 ↔ SameFate k path path' := by
  obtain ⟨fate, hfate, -, hopen⟩ := path_fate path hfree
  obtain ⟨fate', hfate', haccess, -⟩ := path_fate path' hfree
  rw [agree_iff_fate hopen haccess]
  constructor
  · rintro ⟨rfl, hmapped⟩
    exact ⟨fate, hmapped, hfate, hfate'⟩
  · rintro ⟨fate'', hmapped, h, h'⟩
    obtain rfl := hfate.unique h
    exact ⟨(hfate'.unique h').symm, hmapped⟩

/-- Where `access` and `faccessat` look for the path. -/
def accessPath (frame : SyscallFrame) : UInt64 := if frame.rdi = atFdcwd then frame.rsi else frame.rdi

lemma answer_open {frame : SyscallFrame} (h : syscallNumber frame.rax = .open) :
    answer frame k = (syscallOpen frame.rdi k).1 := by
  rw [answer, processSyscallDispatch, h]
  exact answer_withFrame _ _ _

lemma answer_openat {frame : SyscallFrame} (h : syscallNumber frame.rax = .openat) :
    answer frame k = (syscallOpen frame.rsi k).1 := by
  rw [answer, processSyscallDispatch, h]
  exact answer_withFrame _ _ _

lemma answer_access {frame : SyscallFrame} (h : syscallNumber frame.rax = .access) :
    answer frame k = (syscallAccess (accessPath frame) k).1 := by
  rw [answer, processSyscallDispatch, h]
  exact answer_withFrame _ _ _

/-- `faccessat` (269) agrees with `openat` (257). -/
def FaccessatAgrees (k : Kernel) (frame : SyscallFrame) : Prop :=
  Agree (answer { frame with rax := 257 } k) (answer { frame with rax := 269 } k)

/-- `access` (21) agrees with `open` (2). -/
def AccessAgrees (k : Kernel) (frame : SyscallFrame) : Prop :=
  Agree (answer { frame with rax := 2 } k) (answer { frame with rax := 21 } k)

lemma faccessatAgrees_iff (hfree : allocateFd k.current ≠ none) (frame : SyscallFrame) :
    FaccessatAgrees k frame ↔ SameFate k frame.rsi (accessPath frame) := by
  rw [FaccessatAgrees, answer_openat rfl, answer_access rfl]
  exact agree_iff hfree _ _

lemma accessAgrees_iff (hfree : allocateFd k.current ≠ none) (frame : SyscallFrame) :
    AccessAgrees k frame ↔ SameFate k frame.rdi (accessPath frame) := by
  rw [AccessAgrees, answer_open rfl, answer_access rfl]
  exact agree_iff hfree _ _

/-- In every state with a free descriptor and for all registers: the calls agree exactly when the path that
`access` looks at, which is the one in `rsi` if `rdi` is `AT_FDCWD` and the one in `rdi` otherwise, has the
same fate as the one that `open` looks at. -/
theorem access_agrees_iff (hfree : allocateFd k.current ≠ none) (frame : SyscallFrame) :
    (FaccessatAgrees k frame ↔ SameFate k frame.rsi (accessPath frame)) ∧
    (AccessAgrees k frame ↔ SameFate k frame.rdi (accessPath frame)) :=
  ⟨faccessatAgrees_iff hfree frame, accessAgrees_iff hfree frame⟩

/-- The program of the small machine has written the path of the root. -/
lemma small_path : ∃ es k, Run ExecFits (started (smallBoot 0x10000)) es k ∧
    allocateFd k.current ≠ none ∧ HasFate k 0x10000 .found := by
  obtain ⟨k, k₁, i, hopened⟩ := small_opened (by decide) (by decide) small_root
  obtain ⟨es, hrun⟩ := hopened.run
  obtain ⟨hkmem, hramdisk⟩ := archive_of_run smallBoot_starts hrun
  refine ⟨es, k, hrun, fun hnone => ?_, [slash], implicitDirectory [], ⟨by decide, hopened.path, by decide⟩, ?_⟩
  · rw [allocateFd, List.find?_eq_none] at hnone
    exact hnone 3 (List.mem_finRange 3) (decide_eq_true ⟨by decide, hopened.free⟩)
  · rw [hkmem, hramdisk]
    exact small_root

/-- With `AT_FDCWD` the calls agree on the root. -/
theorem access_agrees_small : ∃ es k, Run ExecFits (started (smallBoot 0x10000)) es k ∧
    FaccessatAgrees k { SyscallFrame.zero with rdi := atFdcwd, rsi := 0x10000 } := by
  obtain ⟨es, k, hrun, hfree, hfate⟩ := small_path
  refine ⟨es, k, hrun, (access_agrees_iff hfree _).1.mpr ⟨.found, Fate.noConfusion, hfate, ?_⟩⟩
  exact hfate

/-- With any other directory, here descriptor 3, `faccessat` takes its number for the path. -/
theorem descriptor_taken_for_path : ∃ es k, Run ExecFits (started (smallBoot 0x10000)) es k ∧
    allocateFd k.current ≠ none ∧
    ¬FaccessatAgrees k { SyscallFrame.zero with rdi := 3, rsi := 0x10000 } := by
  obtain ⟨es, k, hrun, hfree, hfate⟩ := small_path
  refine ⟨es, k, hrun, hfree, fun h => ?_⟩
  obtain ⟨fate, -, hfound, hrefused⟩ := (faccessatAgrees_iff hfree _).mp h
  obtain rfl := hfate.unique hfound
  have hthree : HasFate k 3 .refused :=
    ⟨0, by decide, fun j hj => absurd hj (Nat.not_lt_zero j), .inr fun hin => absurd hin.1 (by decide)⟩
  exact absurd (hthree.unique hrefused) Fate.noConfusion

end Xbks
