import Xbks.Process.Load
import Xbks.Process.Syscall

/-!
# What a system call can do

Most system calls stay inside the calling process: they change its break and its descriptors, grow
its address space below the heap limit and follow pointers into the user's part. `Local` says so,
and each handler is shown to keep it. `dispatch_outcome` sorts every system call into these and the
four that change the process table or replace an address space.
-/

namespace Xbks

open Prog (keeps_pure keeps_bind keeps_get keeps_get_bind keeps_modify keeps_ite)

/-- The paths to the pages that `brk` can map. -/
def heapPaths : Set (List (Fin 512)) := pathsOf 0 0x10000000

/-- The effect of a system call that stays inside the calling process. -/
structure Local (k k' : Kernel) : Prop where
  kmem : k'.kmem = k.kmem
  ramdisk : k'.ramdisk = k.ramdisk
  cr3 : k'.cr3 = k.cr3
  currentProcess : k'.currentProcess = k.currentProcess
  nextPid : k'.nextPid = k.nextPid
  others : ∀ i ≠ k.currentProcess, k'.processes i = k.processes i
  self : k'.current = { k.current with brk := k'.current.brk, fds := k'.current.fds }
  grows : k.cr3 = k.current.cr3 → Grows heapPaths k.cr3 k.mm k'.mm
  accesses : ∃ new, k'.accesses = k.accesses ++ new ∧ ∀ a ∈ new, 65536 ≤ a ∧ a < 2 ^ 47

variable {k k' k'' : Kernel}

lemma Local.refl (k : Kernel) : Local k k where
  kmem := rfl
  ramdisk := rfl
  cr3 := rfl
  currentProcess := rfl
  nextPid := rfl
  others _ _ := rfl
  self := rfl
  grows _ := .refl _
  accesses := ⟨[], by simp⟩

lemma Local.trans (h : Local k k') (h' : Local k' k'') : Local k k'' where
  kmem := h'.kmem.trans h.kmem
  ramdisk := h'.ramdisk.trans h.ramdisk
  cr3 := h'.cr3.trans h.cr3
  currentProcess := h'.currentProcess.trans h.currentProcess
  nextPid := h'.nextPid.trans h.nextPid
  others i hi := (h'.others i (by rw [h.currentProcess]; exact hi)).trans (h.others i hi)
  self := by
    rw [h'.self, h.self]
  grows hcr3 := by
    have hcr3' : k'.cr3 = k'.current.cr3 := by rw [h.cr3, h.self, hcr3]
    have hg := h'.grows hcr3'
    rw [h.cr3] at hg
    exact (h.grows hcr3).trans hg
  accesses := by
    obtain ⟨new, hnew, hin⟩ := h.accesses
    obtain ⟨new', hnew', hin'⟩ := h'.accesses
    refine ⟨new ++ new', by rw [hnew', hnew, List.append_assoc], fun a ha => ?_⟩
    exact (List.mem_append.mp ha).elim (hin a) (hin' a)

/-- Changing a descriptor. -/
lemma local_setFd (k : Kernel) (i : Fin 16) (fd : ProcessFd) : Local k (k.setFd i fd) where
  kmem := rfl
  ramdisk := rfl
  cr3 := rfl
  currentProcess := rfl
  nextPid := rfl
  others j hj := by simp [Kernel.setFd, Kernel.setCurrent, Kernel.setProcess, hj]
  self := by simp [Kernel.setFd, Kernel.setCurrent, Kernel.setProcess, Kernel.current]
  grows _ := .refl _
  accesses := ⟨[], by simp [Kernel.setFd, Kernel.setCurrent, Kernel.setProcess]⟩

lemma local_keyboard (k : Kernel) (keyboard : ℕ → UInt8) :
    Local k { k with keyboard := keyboard } :=
  { Local.refl k with }

lemma local_console (k : Kernel) (console : Console) : Local k { k with console := console } :=
  { Local.refl k with }

instance : IsPreorder Kernel Local where
  refl := Local.refl
  trans _ _ _ h h' := h.trans h'

/-! ### User memory -/

variable {base : UInt64} {index : ℕ}

/-- Byte `index` behind the pointer `base` is in the user's part. -/
def InUser (base : UInt64) (index : ℕ) : Prop :=
  65536 ≤ base.toNat + index ∧ base.toNat + index < 2 ^ 47

lemma InUser.toNat (h : InUser base index) :
    (base + UInt64.ofNat index).toNat = base.toNat + index :=
  toNat_add_ofNat (h.2.trans (by norm_num))

/-- The state in which an access has been noted. -/
def Kernel.noteAccess (k : Kernel) (a : ℕ) : Kernel := { k with accesses := k.accesses ++ [a] }

lemma local_noteAccess {a : ℕ} (h : 65536 ≤ a ∧ a < 2 ^ 47) : Local k (k.noteAccess a) :=
  { Local.refl k with accesses := ⟨[a], rfl, by simpa using h⟩ }

/-- In the user's part, an access either finds a page or stops with a page fault. -/
lemma userPhysical_eq (h : InUser base index) (k : Kernel) :
    userPhysical base index k =
      match vmmTranslate k.mm k.cr3 (base + UInt64.ofNat index) with
      | none => (.error (.pageFault (base + UInt64.ofNat index)),
          k.noteAccess (base.toNat + index))
      | some physical => (.ok physical, k.noteAccess (base.toNat + index)) := by
  have hlt : ¬base + UInt64.ofNat index ≥ userTop := by
    rw [ge_iff_le, UInt64.not_le, lt_userTop_iff, h.toNat]
    exact h.2
  simp only [userPhysical, if_neg hlt]
  rfl

lemma keeps_userPhysical (h : InUser base index) : Prog.Keeps Local (userPhysical base index) := by
  intro k
  rw [userPhysical_eq h]
  cases vmmTranslate k.mm k.cr3 (base + UInt64.ofNat index) with
  | none => exact local_noteAccess h
  | some physical => exact local_noteAccess h

lemma keeps_readUser (h : InUser base index) : Prog.Keeps Local (readUser base index) :=
  keeps_bind (keeps_userPhysical h) fun _ => keeps_get_bind fun _ => keeps_pure _

/-- Writing to a byte of a mapped page is local. -/
lemma local_setByte {v physical : UInt64} {b : UInt8} (hv : v.toNat < 2 ^ 47)
    (ht : vmmTranslate k.mm k.cr3 v = some physical) :
    Local k { k with mm := k.mm.setByte physical b } :=
  { Local.refl k with grows := fun _ F hpool hsep => ⟨F, .setByte hpool hsep hv ht b⟩ }

lemma keeps_writeUser (h : InUser base index) (value : UInt8) :
    Prog.Keeps Local (writeUser base index value) := by
  intro k
  rw [writeUser, Prog.bind_apply, userPhysical_eq h]
  cases ht : vmmTranslate k.mm k.cr3 (base + UInt64.ofNat index) with
  | none => exact local_noteAccess h
  | some physical =>
    refine (local_noteAccess h).trans (local_setByte (v := base + UInt64.ofNat index) ?_ ht)
    rw [h.toNat]
    exact h.2

lemma keeps_writeUserBytes {bytes : List UInt8} (hge : 65536 ≤ base.toNat + index)
    (hlt : base.toNat + index + bytes.length ≤ 2 ^ 47) :
    Prog.Keeps Local (writeUserBytes base index bytes) := by
  induction bytes generalizing index with
  | nil => exact keeps_pure ()
  | cons b rest ih =>
    rw [List.length_cons] at hlt
    exact keeps_bind (keeps_writeUser ⟨by omega, by omega⟩ b) fun _ => ih (by omega) (by omega)

lemma keeps_readUserBytes {count : ℕ} (hge : 65536 ≤ base.toNat + index)
    (hlt : base.toNat + index + count ≤ 2 ^ 47) :
    Prog.Keeps Local (readUserBytes base index count) := by
  induction count generalizing index with
  | zero => exact keeps_pure []
  | succ count ih =>
    refine keeps_bind (keeps_readUser ⟨by omega, by omega⟩) fun _ => ?_
    exact keeps_bind (ih (by omega) (by omega)) fun _ => keeps_pure _

/-! ### Strings -/

variable {source : UInt64}

lemma userRangeIsValid_add {n : ℕ} {length : UInt64} (hlen : length ≠ 0)
    (hno : source.toNat + n < 2 ^ 64) :
    userRangeIsValid (source + UInt64.ofNat n) length = true ↔
      65536 ≤ source.toNat + n ∧ source.toNat + n + length.toNat ≤ 2 ^ 47 := by
  rw [userRangeIsValid_iff hlen, toNat_add_ofNat hno]

lemma keeps_copyUserStringFrom {remaining i : ℕ} {dest : CString}
    (hno : source.toNat + i + remaining < 2 ^ 64) :
    Prog.Keeps Local (copyUserStringFrom source remaining i dest) := by
  induction remaining generalizing i dest with
  | zero => exact keeps_pure none
  | succ remaining ih =>
    refine keeps_ite (fun hvalid => ?_) fun _ => keeps_pure none
    rw [userRangeIsValid_add (by decide) (by omega)] at hvalid
    have hone : (1 : UInt64).toNat = 1 := rfl
    refine keeps_bind (keeps_readUser ⟨hvalid.1, by omega⟩) fun c => ?_
    exact keeps_ite (fun _ => keeps_pure _) fun _ => ih (by omega)

lemma keeps_copyUserString (source : UInt64) {capacity : ℕ} (hcap : capacity ≤ 2 ^ 32) :
    Prog.Keeps Local (copyUserString capacity source) := by
  refine keeps_ite (fun _ => keeps_pure none) fun h => ?_
  rw [not_or, not_not, userRangeIsValid_iff (by decide)] at h
  exact keeps_copyUserStringFrom (by omega)

lemma keeps_copyUserStringArrayFrom {userValues : UInt64} {remaining count : ℕ}
    {strings : List CString} (hcount : count + remaining ≤ 2 ^ 32)
    (hlt : count = 0 ∨ userValues.toNat < 2 ^ 47) :
    Prog.Keeps Local (copyUserStringArrayFrom userValues remaining count strings) := by
  induction remaining generalizing count strings with
  | zero => exact keeps_pure none
  | succ remaining ih =>
    refine keeps_ite (fun hvalid => ?_) fun _ => keeps_pure none
    have hno : userValues.toNat + 8 * count < 2 ^ 64 := by
      have := userValues.toNat_lt
      omega
    rw [userRangeIsValid_add (by decide) hno] at hvalid
    have height : (8 : UInt64).toNat = 8 := rfl
    refine keeps_bind (keeps_readUserBytes hvalid.1 (by omega)) fun bytes => ?_
    refine keeps_ite (fun _ => keeps_pure _) fun _ => ?_
    refine keeps_bind (keeps_copyUserString _ (by norm_num)) fun text => ?_
    cases text with
    | none => exact keeps_pure none
    | some text => exact ih (by omega) (.inr (by omega))

lemma keeps_copyUserStringArray (userValues : UInt64) {maxStrings : ℕ}
    (hmax : maxStrings ≤ 2 ^ 32) : Prog.Keeps Local (copyUserStringArray maxStrings userValues) :=
  keeps_ite (fun _ => keeps_pure _) fun _ =>
    keeps_copyUserStringArrayFrom (by omega) (.inl rfl)

/-- A copied string fits into its buffer. -/
lemma length_copyUserStringFrom {remaining i : ℕ} {dest text : CString}
    (h : copyUserStringFrom source remaining i dest k = (.ok (some text), k')) :
    text.length < dest.length + remaining := by
  induction remaining generalizing i dest k with
  | zero => cases h
  | succ remaining ih =>
    rw [copyUserStringFrom] at h
    split_ifs at h with hvalid
    · rw [Prog.bind_apply] at h
      rcases hr : readUser source i k with ⟨_ | c, k₁⟩
      · rw [hr] at h
        cases h
      · rw [hr] at h
        dsimp only at h
        split_ifs at h with hc
        · cases h
          omega
        · have := ih h
          rw [List.length_append, List.length_singleton] at this
          omega
    · cases h

lemma length_copyUserString {capacity : ℕ} {text : CString}
    (h : copyUserString capacity source k = (.ok (some text), k')) : text.length < capacity := by
  rw [copyUserString] at h
  split_ifs at h with hc
  · cases h
  · simpa using length_copyUserStringFrom h

/-- The copied strings take at most 256 bytes each. -/
lemma stringBytes_copyUserStringArrayFrom {userValues : UInt64} {remaining count : ℕ}
    {strings texts : List CString}
    (h : copyUserStringArrayFrom userValues remaining count strings k = (.ok (some texts), k')) :
    stringBytes texts ≤ stringBytes strings + 256 * remaining := by
  induction remaining generalizing count strings k with
  | zero => cases h
  | succ remaining ih =>
    rw [copyUserStringArrayFrom] at h
    split_ifs at h with hvalid
    · rw [Prog.bind_apply] at h
      rcases hr : readUserBytes userValues (8 * count) 8 k with ⟨_ | bytes, k₁⟩
      · rw [hr] at h
        cases h
      · rw [hr] at h
        dsimp only at h
        split_ifs at h with hv
        · cases h
          omega
        · rw [Prog.bind_apply] at h
          rcases hs : copyUserString maxString (wordOfBytes bytes) k₁ with ⟨_ | _ | text, k₂⟩
          · rw [hs] at h
            cases h
          · rw [hs] at h
            cases h
          · rw [hs] at h
            have hlen : text.length < 256 := length_copyUserString hs
            have := ih h
            simp only [stringBytes, List.map_append, List.sum_append, List.map_cons, List.map_nil,
              List.sum_cons, List.sum_nil] at this ⊢
            omega
    · cases h

lemma stringBytes_copyUserStringArray {userValues : UInt64} {maxStrings : ℕ}
    {texts : List CString} (hmax : maxStrings < 2 ^ 32)
    (h : copyUserStringArray maxStrings userValues k = (.ok (some texts), k')) :
    stringBytes texts < 2 ^ 64 := by
  rw [copyUserStringArray] at h
  split_ifs at h with hc
  · cases h
    simp [stringBytes]
  · have := stringBytes_copyUserStringArrayFrom h
    simp only [stringBytes, List.map_nil, List.sum_nil] at this ⊢
    omega

/-! ### Reading -/

/-- Only the record of accesses is different. -/
def Reads (k k' : Kernel) : Prop := ∃ accesses, k' = { k with accesses := accesses }

lemma Reads.refl (k : Kernel) : Reads k k := ⟨k.accesses, rfl⟩

lemma Reads.trans (h : Reads k k') (h' : Reads k' k'') : Reads k k'' := by
  obtain ⟨a, rfl⟩ := h
  obtain ⟨a', rfl⟩ := h'
  exact ⟨a', rfl⟩

instance : IsPreorder Kernel Reads where
  refl := Reads.refl
  trans _ _ _ h h' := h.trans h'

section Reads

variable {α β : Type}

lemma reads_readUser (base : UInt64) (index : ℕ) : Prog.Keeps Reads (readUser base index) := by
  refine keeps_bind (fun k => ?_) fun _ => keeps_get_bind fun _ => keeps_pure _
  simp only [userPhysical]
  split_ifs
  · exact ⟨_, rfl⟩
  · cases vmmTranslate k.mm k.cr3 (base + UInt64.ofNat index) with
    | none => exact ⟨_, rfl⟩
    | some physical => exact ⟨_, rfl⟩

lemma reads_readUserBytes (base : UInt64) (index count : ℕ) :
    Prog.Keeps Reads (readUserBytes base index count) := by
  induction count generalizing index with
  | zero => exact keeps_pure []
  | succ count ih =>
    refine keeps_bind (reads_readUser base index) fun _ => ?_
    exact keeps_bind (ih (index + 1)) fun _ => keeps_pure _

lemma reads_copyUserStringFrom (source : UInt64) (remaining i : ℕ) (dest : CString) :
    Prog.Keeps Reads (copyUserStringFrom source remaining i dest) := by
  induction remaining generalizing i dest with
  | zero => exact keeps_pure none
  | succ remaining ih =>
    rw [copyUserStringFrom]
    split_ifs
    · refine keeps_bind (reads_readUser source i) fun c => ?_
      split_ifs
      · exact keeps_pure _
      · exact ih (i + 1) _
    · exact keeps_pure none

lemma reads_copyUserString (capacity : ℕ) (source : UInt64) :
    Prog.Keeps Reads (copyUserString capacity source) := by
  rw [copyUserString]
  split_ifs
  · exact keeps_pure none
  · exact reads_copyUserStringFrom source capacity 0 []

lemma reads_copyUserStringArrayFrom (userValues : UInt64) (remaining count : ℕ)
    (strings : List CString) :
    Prog.Keeps Reads (copyUserStringArrayFrom userValues remaining count strings) := by
  induction remaining generalizing count strings with
  | zero => exact keeps_pure none
  | succ remaining ih =>
    rw [copyUserStringArrayFrom]
    split_ifs
    · refine keeps_bind (reads_readUserBytes userValues (8 * count) 8) fun bytes => ?_
      dsimp only
      split_ifs
      · exact keeps_pure _
      · refine keeps_bind (reads_copyUserString maxString _) fun text => ?_
        cases text with
        | none => exact keeps_pure none
        | some text => exact ih (count + 1) _
    · exact keeps_pure none

lemma reads_copyUserStringArray (maxStrings : ℕ) (userValues : UInt64) :
    Prog.Keeps Reads (copyUserStringArray maxStrings userValues) := by
  rw [copyUserStringArray]
  split_ifs
  · exact keeps_pure _
  · exact reads_copyUserStringArrayFrom userValues maxStrings 0 []

end Reads

/-! ### Handlers -/

/-- A buffer that passed the range check: all its bytes are in the user's part. -/
lemma inUser_of_valid {address length : UInt64} (h : userRangeIsValid address length = true)
    {i : ℕ} (hi : i < length.toNat) : InUser address i := by
  have hne : length ≠ 0 := by
    rintro rfl
    exact absurd hi (by simp)
  rw [userRangeIsValid_iff hne] at h
  exact ⟨by omega, by omega⟩

lemma toNat_le_of_valid {address length : UInt64} (h : userRangeIsValid address length = true) :
    length.toNat ≤ 2 ^ 47 := by
  by_cases hz : length = 0
  · rw [hz]
    exact Nat.zero_le _
  · rw [userRangeIsValid_iff hz] at h
    omega

lemma keeps_writeUserBytes_of_valid {address length : UInt64} {bytes : List UInt8}
    (h : userRangeIsValid address length = true) (hlen : index + bytes.length ≤ length.toNat) :
    Prog.Keeps Local (writeUserBytes address index bytes) := by
  cases bytes with
  | nil => exact keeps_pure ()
  | cons b rest =>
    rw [List.length_cons] at hlen
    obtain ⟨hge, -⟩ := inUser_of_valid h (i := index) (by omega)
    obtain ⟨-, hlt⟩ := inUser_of_valid h (i := index + rest.length) (by omega)
    refine keeps_writeUserBytes hge ?_
    rw [List.length_cons]
    omega

lemma keeps_readKeyboard {buffer : UInt64} {remaining i : ℕ}
    (h : ∀ j, i ≤ j → j < i + remaining → InUser buffer j) :
    Prog.Keeps Local (readKeyboard buffer remaining i) := by
  induction remaining generalizing i with
  | zero => exact keeps_pure ()
  | succ remaining ih =>
    refine keeps_bind (keeps_get_bind fun _ => keeps_bind ?_ fun _ => keeps_pure _) fun c => ?_
    · exact keeps_modify fun k => local_keyboard k _
    · refine keeps_bind (keeps_writeUser (h i (le_refl i) (by omega)) c) fun _ => ?_
      exact ih fun j hj hj' => h j (by omega) (by omega)

lemma keeps_syscallRead (fd bufferAddress count : UInt64) :
    Prog.Keeps Local (syscallRead fd bufferAddress count) := by
  refine keeps_ite (fun _ => keeps_pure _) fun hvalid => keeps_get_bind fun k => ?_
  rw [not_not] at hvalid
  cases fdIndex fd with
  | none => exact keeps_pure _
  | some i =>
    cases htype : (k.current.fds i).type with
    | none | stdout | stderr | dir =>
      simp only [htype]
      exact keeps_pure _
    | stdin =>
      simp only [htype]
      refine keeps_bind (keeps_readKeyboard fun j _ hj => ?_) fun _ => keeps_pure _
      exact inUser_of_valid hvalid (by omega)
    | file =>
      simp only [htype]
      refine keeps_ite (fun _ => keeps_pure _) fun _ => ?_
      refine keeps_bind (keeps_writeUserBytes_of_valid hvalid ?_) fun _ =>
        keeps_bind (keeps_modify fun k => local_setFd k i _) fun _ => keeps_pure _
      simp only [bytesAt, List.length_map, List.length_range, zero_add]
      split_ifs with hlt
      · exact le_refl _
      · rwa [UInt64.not_lt, UInt64.le_iff_toNat_le] at hlt

lemma keeps_forUserBytes {data : UInt64} {device : UInt8 → Console → Console} {remaining i : ℕ}
    (h : ∀ j, i ≤ j → j < i + remaining → InUser data j) :
    Prog.Keeps Local (forUserBytes data device remaining i) := by
  induction remaining generalizing i with
  | zero => exact keeps_pure ()
  | succ remaining ih =>
    refine keeps_bind (keeps_readUser (h i (le_refl i) (by omega))) fun b => ?_
    refine keeps_bind (keeps_modify fun k => local_console k _) fun _ => ?_
    exact ih fun j hj hj' => h j (by omega) (by omega)

lemma keeps_syscallWrite (fd bufferAddress count : UInt64) :
    Prog.Keeps Local (syscallWrite fd bufferAddress count) := by
  refine keeps_ite (fun _ => keeps_pure _) fun _ => ?_
  refine keeps_ite (fun _ => keeps_pure _) fun hvalid => ?_
  rw [not_not] at hvalid
  have hbytes : ∀ device, Prog.Keeps Local (forUserBytes bufferAddress device count.toNat 0) :=
    fun device => keeps_forUserBytes fun j _ hj => inUser_of_valid hvalid (by omega)
  refine keeps_bind (keeps_bind (hbytes _) fun _ => keeps_bind (hbytes _) fun _ => ?_)
    fun _ => keeps_pure _
  exact keeps_get_bind fun k => keeps_ite (fun _ => hbytes _) fun _ => keeps_pure _

lemma keeps_syscallOpen (pathAddress : UInt64) : Prog.Keeps Local (syscallOpen pathAddress) := by
  refine keeps_get_bind fun k => ?_
  cases allocateFd k.current with
  | none => exact keeps_pure _
  | some fd =>
    refine keeps_bind (keeps_copyUserString _ (by norm_num)) fun path => ?_
    cases path with
    | none => exact keeps_pure _
    | some path =>
      cases hfile : ramdiskFind k.kmem k.ramdisk path with
      | none =>
        simp only [hfile]
        exact keeps_pure _
      | some file =>
        simp only [hfile]
        exact keeps_bind (keeps_modify fun k => local_setFd k fd _) fun _ => keeps_pure _

lemma keeps_syscallClose (fd : UInt64) : Prog.Keeps Local (syscallClose fd) := by
  refine keeps_get_bind fun k => ?_
  cases fdIndex fd with
  | none => exact keeps_pure _
  | some i =>
    refine keeps_ite (fun _ => keeps_pure _) fun _ => ?_
    exact keeps_bind (keeps_modify fun k => local_setFd k i _) fun _ => keeps_pure _

/-- A seek answers an error, or moves the offset of an open file. -/
lemma syscallLseek_cases (fd offset whence : UInt64) (k : Kernel) :
    (∃ error, syscallLseek fd offset whence k = (.ok (negativeErrno error), k)) ∨
      ∃ i next, (k.current.fds i).type = .file ∧
        syscallLseek fd offset whence k = (.ok next, k.setFd i { k.current.fds i with offset := next }) := by
  rw [syscallLseek, Prog.get_bind_apply]
  cases fdIndex fd with
  | none => exact .inl ⟨.badf, rfl⟩
  | some i =>
    by_cases htype : (k.current.fds i).type ≠ .file
    · simp only [if_pos htype]
      exact .inl ⟨.badf, rfl⟩
    · simp only [if_neg htype]
      generalize (if whence = 0 then some offset
        else if whence = 1 then some ((k.current.fds i).offset + offset)
        else if whence = 2 then some ((k.current.fds i).file.size + offset)
        else none) = next
      cases next with
      | none => exact .inl ⟨.inval, rfl⟩
      | some next => exact .inr ⟨i, next, not_not.mp htype, rfl⟩

lemma keeps_syscallLseek (fd offset whence : UInt64) :
    Prog.Keeps Local (syscallLseek fd offset whence) := by
  intro k
  rcases syscallLseek_cases fd offset whence k with ⟨error, h⟩ | ⟨i, next, -, h⟩
  · rw [h]
    exact Local.refl k
  · rw [h]
    exact local_setFd k i _

lemma length_lastComponent_le (path : CString) : (lastComponent path).length ≤ path.length := by
  rw [lastComponent, List.length_reverse, ← @List.length_reverse _ path]
  exact (List.takeWhile_sublist _).length_le

lemma length_direntBytes (offset reclen : UInt64) (directory : Bool) (name : CString) :
    (direntBytes offset reclen directory name).length = 20 + name.length := by
  simp [direntBytes, wordBytes]
  omega

/-- A directory record has room for its header and name. -/
lemma direntReclen_bounds (name : CString) (h : name.length < 256) :
    20 + name.length ≤ (direntReclen name).toNat ∧ (direntReclen name).toNat ≤ 288 := by
  have hsize : (UInt64.ofNat (name.length + 1)).toNat = name.length + 1 :=
    Word.toNat_ofNat_of_lt (by omega)
  have h24 : direntSize.toNat = 24 := rfl
  have hsum : (direntSize + UInt64.ofNat (name.length + 1)).toNat = 25 + name.length := by
    rw [Word.toNat_add_of_lt _ _ (by omega)]
    omega
  have hup : (direntSize + UInt64.ofNat (name.length + 1) + 8 - 1).toNat = 32 + name.length := by
    rw [add_sub_assoc]
    have h7 : ((8 : UInt64) - 1).toNat = 7 := rfl
    rw [Word.toNat_add_of_lt _ _ (by omega)]
    omega
  rw [direntReclen, alignUp, Word.toNat_and_not_mask _ 8 (k := 3) (by norm_num) rfl, hup]
  omega

lemma keeps_getdentsFrom {i : Fin 16} {buffer count written : UInt64} {fuel : ℕ}
    (h : userRangeIsValid buffer count = true) (hw : written.toNat ≤ count.toNat) :
    Prog.Keeps Local (getdentsFrom i buffer count fuel written) := by
  induction fuel generalizing written with
  | zero => exact keeps_pure _
  | succ fuel ih =>
    refine keeps_get_bind fun k => ?_
    dsimp only
    cases hdir : ramdiskReadDir k.kmem k.ramdisk (k.current.fds i).file.path
      (k.current.fds i).offset with
    | none => exact keeps_pure _
    | some child =>
      have hname := length_lastComponent_le child.path
      have hpath := length_ramdiskReadDir_lt hdir
      obtain ⟨hge, hle⟩ := direntReclen_bounds (lastComponent child.path) (by omega)
      refine keeps_ite (fun _ => keeps_pure _) fun hroom => ?_
      -- the sum does not wrap: the buffer ends below the user limit
      have hcount := toNat_le_of_valid h
      have hsum : (written + direntReclen (lastComponent child.path)).toNat =
          written.toNat + (direntReclen (lastComponent child.path)).toNat :=
        Word.toNat_add_of_lt _ _ (by omega)
      rw [gt_iff_lt, UInt64.not_lt, UInt64.le_iff_toNat_le, hsum] at hroom
      refine keeps_bind (keeps_writeUserBytes_of_valid h ?_) fun _ => ?_
      · rw [length_direntBytes]
        omega
      · exact keeps_bind (keeps_modify fun k => local_setFd k i _) fun _ => ih (by omega)

lemma keeps_syscallGetdents64 (fd direntAddress count : UInt64) :
    Prog.Keeps Local (syscallGetdents64 fd direntAddress count) := by
  refine keeps_get_bind fun k => ?_
  cases fdIndex fd with
  | none => exact keeps_pure _
  | some i =>
    refine keeps_ite (fun _ => keeps_pure _) fun _ => ?_
    refine keeps_ite (fun _ => keeps_pure _) fun hvalid => ?_
    exact keeps_getdentsFrom (not_not.mp hvalid) (Nat.zero_le _)

lemma keeps_syscallAccess (pathAddress : UInt64) :
    Prog.Keeps Local (syscallAccess pathAddress) := by
  refine keeps_bind (keeps_copyUserString _ (by norm_num)) fun path => ?_
  cases path with
  | none => exact keeps_pure _
  | some path => exact keeps_get_bind fun _ => keeps_pure _

lemma keeps_syscallGetcwd (bufferAddress size : UInt64) :
    Prog.Keeps Local (syscallGetcwd bufferAddress size) := by
  refine keeps_ite (fun _ => keeps_pure _) fun _ => ?_
  refine keeps_ite (fun _ => keeps_pure _) fun hvalid => ?_
  exact keeps_bind (keeps_writeUserBytes_of_valid (not_not.mp hvalid) (by decide))
    fun _ => keeps_pure _

lemma keeps_writeUnameFields {buffer : UInt64} {field : ℕ} {texts : List CString}
    (h : userRangeIsValid buffer (6 * 65) = true) (hfields : field + texts.length ≤ 6)
    (htexts : ∀ text ∈ texts, text.length < 65) :
    Prog.Keeps Local (writeUnameFields buffer field texts) := by
  induction texts generalizing field with
  | nil => exact keeps_pure ()
  | cons text rest ih =>
    rw [List.length_cons] at hfields
    have htext := htexts text List.mem_cons_self
    have hlen : ((6 : UInt64) * 65).toNat = 390 := rfl
    refine keeps_bind (keeps_writeUserBytes_of_valid h ?_) fun _ =>
      ih (by omega) fun text htext => htexts text (List.mem_cons_of_mem _ htext)
    rw [List.length_append, List.length_singleton, hlen]
    omega

lemma keeps_syscallUname (bufferAddress : UInt64) :
    Prog.Keeps Local (syscallUname bufferAddress) := by
  refine keeps_ite (fun _ => keeps_pure _) fun hvalid => ?_
  refine keeps_bind (keeps_writeUnameFields (not_not.mp hvalid) (by decide) ?_)
    fun _ => keeps_pure _
  decide

/-- The pages that `brk` maps lie below the heap limit. -/
lemma brk_pages {brk requestedBreak x : UInt64} (hle : brk.toNat ≤ requestedBreak.toNat)
    (hlt : requestedBreak.toNat < 0x10000000)
    (hx : x ∈ pagesBetween (alignUp brk pageSize) (alignUp requestedBreak pageSize)) :
    UserPage x ∧ x.toNat < 0x10000000 := by
  have hold := toNat_alignUp (v := brk) (by omega)
  have hnew := toNat_alignUp (v := requestedBreak) (by omega)
  rw [mem_pagesBetween (by omega) (by omega)] at hx
  exact ⟨⟨hx.1, by omega⟩, by omega⟩

lemma keeps_syscallBrk (requestedBreak : UInt64) :
    Prog.Keeps Local (syscallBrk requestedBreak) := by
  intro k
  simp only [syscallBrk]
  split_ifs with hzero hbad
  · exact .refl k
  · exact .refl k
  · rw [not_or, UInt64.not_lt, ge_iff_le, UInt64.not_le, UInt64.le_iff_toNat_le,
      UInt64.lt_iff_toNat_lt] at hbad
    have hpages := fun x hx => brk_pages (x := x) hbad.1 hbad.2 hx
    have hgrows : k.cr3 = k.current.cr3 → Grows heapPaths k.cr3 k.mm
        (Loop.forWhile (fun s page => mapUserPage s k.current.cr3 page pageWritable) k.mm
          (pagesBetween (alignUp k.current.brk pageSize) (alignUp requestedBreak pageSize))).2 := by
      intro hcr3 F hpool hsep
      rw [hcr3] at hsep ⊢
      obtain ⟨F', hmap⟩ := mapUserPages_spec pageWritable hpool hsep
        (fun x hx => (hpages x hx).1) (by decide)
      refine ⟨F', hmap.toGrowth.mono ?_⟩
      rintro path ⟨x, hx, rfl⟩
      exact ⟨x, (hpages x hx).1.aligned, by omega, (hpages x hx).2, rfl⟩
    rcases hr : Loop.forWhile (fun s page => mapUserPage s k.current.cr3 page pageWritable) k.mm
      (pagesBetween (alignUp k.current.brk pageSize) (alignUp requestedBreak pageSize)) with
      ⟨_ | _, mm⟩
    · rw [hr] at hgrows
      exact { Local.refl k with grows := hgrows }
    · rw [hr] at hgrows
      exact
        { Local.refl k with
          others := fun i hi => by simp [Kernel.setCurrent, Kernel.setProcess, hi]
          self := by simp [Kernel.setCurrent, Kernel.setProcess, Kernel.current]
          grows := hgrows }

/-! ### Sorting the system calls -/

lemma withFrame_snd (frame : SyscallFrame) (handler : KernelM UInt64) (k : Kernel) :
    (withFrame frame handler k).2 = (handler k).2 := by
  rw [withFrame, Prog.bind_apply]
  rcases handler k with ⟨_ | _, k₁⟩
  · rfl
  · rfl

lemma withFrame_ok {frame frame' : SyscallFrame} {handler : KernelM UInt64} {result : UInt64}
    (h : withFrame frame handler k = (.ok (result, frame'), k')) :
    handler k = (.ok result, k') ∧ frame' = frame := by
  rw [withFrame, Prog.bind_apply] at h
  rcases hr : handler k with ⟨_ | r, k₁⟩
  · rw [hr] at h
    cases h
  · rw [hr] at h
    cases h
    exact ⟨rfl, rfl⟩

/-- The file that an `execve` call names. -/
def executedFile (k : Kernel) (frame : SyscallFrame) : Option RamdiskFile :=
  match copyUserString maxString frame.rdi k with
  | (.ok (some path), _) => ramdiskFind k.kmem k.ramdisk path
  | _ => none

/-- A call of `execve` that got as far as loading the program. -/
structure Execs (frame : SyscallFrame) (path : CString) (argv envp : List CString)
    (k k₁ : Kernel) : Prop where
  isLocal : Local k k₁
  reads : Reads k k₁
  argv : stringBytes argv < 2 ^ 64
  envp : stringBytes envp < 2 ^ 64
  file : executedFile k frame = ramdiskFind k.kmem k.ramdisk path

/-- `execve` either ends before anything is loaded, or loads a program. -/
lemma syscallExecve_cases (frame : SyscallFrame) (k : Kernel) :
    (Local k (syscallExecve frame k).2 ∧ Reads k (syscallExecve frame k).2 ∧
        ∀ r, (syscallExecve frame k).1 = .ok r → r = (negativeErrno .fault, frame)) ∨
      ∃ path argv envp k₁, Execs frame path argv envp k k₁ ∧
        syscallExecve frame k =
          (.ok (execveLoaded frame path argv envp k₁).1, (execveLoaded frame path argv envp k₁).2) := by
  have hpath := keeps_copyUserString frame.rdi (show maxString ≤ 2 ^ 32 by norm_num) k
  have hpath' := reads_copyUserString maxString frame.rdi k
  rw [syscallExecve, Prog.bind_apply]
  rcases hr₁ : copyUserString maxString frame.rdi k with ⟨_ | _ | path, k₁⟩
  · rw [hr₁] at hpath hpath'
    exact .inl ⟨hpath, hpath', by simp⟩
  · rw [hr₁] at hpath hpath'
    exact .inl ⟨hpath, hpath', by simp⟩
  rw [hr₁] at hpath hpath'
  have hargv := keeps_copyUserStringArray frame.rsi (show maxArgs - 1 ≤ 2 ^ 32 by norm_num) k₁
  have hargv' := hpath'.trans (reads_copyUserStringArray (maxArgs - 1) frame.rsi k₁)
  dsimp only
  rw [Prog.bind_apply]
  rcases hr₂ : copyUserStringArray (maxArgs - 1) frame.rsi k₁ with ⟨_ | _ | argv, k₂⟩
  · rw [hr₂] at hargv hargv'
    exact .inl ⟨hpath.trans hargv, hargv', by simp⟩
  · rw [hr₂] at hargv hargv'
    exact .inl ⟨hpath.trans hargv, hargv', by simp⟩
  rw [hr₂] at hargv hargv'
  have henvp := keeps_copyUserStringArray frame.rdx (show maxEnv - 1 ≤ 2 ^ 32 by norm_num) k₂
  have henvp' := hargv'.trans (reads_copyUserStringArray (maxEnv - 1) frame.rdx k₂)
  dsimp only
  rw [Prog.bind_apply]
  rcases hr₃ : copyUserStringArray (maxEnv - 1) frame.rdx k₂ with ⟨_ | _ | envp, k₃⟩
  · rw [hr₃] at henvp henvp'
    exact .inl ⟨(hpath.trans hargv).trans henvp, henvp', by simp⟩
  · rw [hr₃] at henvp henvp'
    exact .inl ⟨(hpath.trans hargv).trans henvp, henvp', by simp⟩
  rw [hr₃] at henvp henvp'
  refine .inr ⟨path, argv, envp, k₃, ⟨(hpath.trans hargv).trans henvp, henvp', ?_, ?_, ?_⟩, rfl⟩
  · exact stringBytes_copyUserStringArray (by norm_num) hr₂
  · exact stringBytes_copyUserStringArray (by norm_num) hr₃
  · rw [executedFile, hr₁]

/-- The state in which the zombie in slot `i` has been reaped. -/
def Kernel.reap (k : Kernel) (i : Slot) : Kernel :=
  { k with mm := vmmDestroyUserSpace k.mm (k.processes i).cr3 userTop }.setProcess i .zero

/-- `wait4` either reaps nothing, or reaps the zombie it found after storing the status. -/
lemma syscallWait4_cases (pid statusAddress : UInt64) (k : Kernel) :
    (Local k (syscallWait4 pid statusAddress k).2 ∧ ∀ v, (syscallWait4 pid statusAddress k).1 = .ok v →
        v = negativeErrno .child ∨ v = negativeErrno .fault) ∨
      ∃ i k₁, zombieChild k pid = some i ∧ Local k k₁ ∧
        syscallWait4 pid statusAddress k = (.ok (toU64 (k.processes i).pid), k₁.reap i) := by
  rw [syscallWait4, Prog.get_bind_apply]
  cases hz : zombieChild k pid with
  | none => exact .inl ⟨.refl k, fun v hv => .inl (Except.ok.inj hv).symm⟩
  | some i =>
    by_cases hbad : statusAddress ≠ 0 ∧ ¬userRangeIsValid statusAddress 4 = true
    · simp only [if_pos hbad]
      exact .inl ⟨.refl k, fun v hv => .inr (Except.ok.inj hv).symm⟩
    simp only [if_neg hbad]
    by_cases hstatus : statusAddress ≠ 0
    · have hvalid : userRangeIsValid statusAddress 4 = true := by
        by_contra h
        exact hbad ⟨hstatus, h⟩
      have hwrite : Prog.Keeps Local (writeUserBytes statusAddress 0
          (intBytes ((k.processes i).exitStatus * 256))) :=
        keeps_writeUserBytes_of_valid hvalid (by simp [intBytes, wordBytes])
      have hwrite := hwrite k
      simp only [if_pos hstatus]
      rw [Prog.bind_apply]
      rcases hr : writeUserBytes statusAddress 0 (intBytes ((k.processes i).exitStatus * 256)) k
        with ⟨_ | _, k₁⟩
      · rw [hr] at hwrite
        exact .inl ⟨hwrite, by simp⟩
      · rw [hr] at hwrite
        exact .inr ⟨i, k₁, rfl, hwrite, rfl⟩
    · simp only [if_neg hstatus]
      exact .inr ⟨i, k, rfl, .refl k, rfl⟩

/-- How a system call can end. The first case covers all calls that stay inside the process, whether
they answer or stop the machine. -/
inductive Outcome (frame : SyscallFrame) (k : Kernel) :
    Except Stop (UInt64 × SyscallFrame) × Kernel → Prop
  | stays {r : Except Stop (UInt64 × SyscallFrame)} {k' : Kernel} (h : Local k k')
      (hframe : ∀ v f, r = .ok (v, f) → f = frame) : Outcome frame k (r, k')
  | vfork (h : syscallNumber frame.rax = .vfork) : Outcome frame k (syscallVfork frame k)
  | execve {path : CString} {argv envp : List CString} {k₁ : Kernel}
      (h : syscallNumber frame.rax = .execve) (hexecs : Execs frame path argv envp k k₁) :
      Outcome frame k
        (.ok (execveLoaded frame path argv envp k₁).1, (execveLoaded frame path argv envp k₁).2)
  | wait4 {i : Slot} {k₁ : Kernel} (h : syscallNumber frame.rax = .wait4)
      (hzombie : zombieChild k frame.rdi = some i) (hlocal : Local k k₁) :
      Outcome frame k (.ok (toU64 (k.processes i).pid, frame), k₁.reap i)
  | exit (h : syscallNumber frame.rax = .exit) : Outcome frame k (syscallExit frame frame.rdi k)

/-- A handler that keeps `Local` in this state and leaves the frame alone. -/
lemma outcome_withFrame {frame : SyscallFrame} {handler : KernelM UInt64}
    (h : Local k (handler k).2) : Outcome frame k (withFrame frame handler k) := by
  rw [← withFrame_snd frame] at h
  rcases hr : withFrame frame handler k with ⟨r, k'⟩
  rw [hr] at h
  refine .stays h fun v f hok => ?_
  rw [hok] at hr
  exact (withFrame_ok hr).2

/-- Every system call is one of these. -/
theorem dispatch_outcome (frame : SyscallFrame) (k : Kernel) :
    Outcome frame k (processSyscallDispatch frame k) := by
  rw [processSyscallDispatch]
  cases hn : syscallNumber frame.rax with
  | read => exact outcome_withFrame (keeps_syscallRead _ _ _ k)
  | write => exact outcome_withFrame (keeps_syscallWrite _ _ _ k)
  | «open» => exact outcome_withFrame (keeps_syscallOpen _ k)
  | openat => exact outcome_withFrame (keeps_syscallOpen _ k)
  | close => exact outcome_withFrame (keeps_syscallClose _ k)
  | lseek => exact outcome_withFrame (keeps_syscallLseek _ _ _ k)
  | access => exact outcome_withFrame (keeps_syscallAccess _ k)
  | getdents64 => exact outcome_withFrame (keeps_syscallGetdents64 _ _ _ k)
  | brk => exact outcome_withFrame (keeps_syscallBrk _ k)
  | getcwd => exact outcome_withFrame (keeps_syscallGetcwd _ _ k)
  | uname => exact outcome_withFrame (keeps_syscallUname _ k)
  | getpid => exact outcome_withFrame (keeps_get_bind (fun _ => keeps_pure _) k)
  | getppid => exact outcome_withFrame (keeps_get_bind (fun _ => keeps_pure _) k)
  | getuid => exact outcome_withFrame (keeps_pure _ k)
  | schedYield => exact outcome_withFrame (keeps_pure _ k)
  | unknown => exact outcome_withFrame (keeps_pure _ k)
  | vfork => exact .vfork hn
  | exit => exact .exit hn
  | execve =>
    rcases syscallExecve_cases frame k with ⟨hlocal, -, hfault⟩ | ⟨path, argv, envp, k₁, hexecs, heq⟩
    · dsimp only
      rcases hr : syscallExecve frame k with ⟨r, k'⟩
      rw [hr] at hlocal hfault
      refine .stays hlocal fun v f hok => ?_
      cases hfault _ hok
      rfl
    · dsimp only
      rw [heq]
      exact .execve hn hexecs
  | wait4 =>
    rcases syscallWait4_cases frame.rdi frame.rsi k with ⟨hlocal, -⟩ | ⟨i, k₁, hzombie, hlocal, heq⟩
    · exact outcome_withFrame hlocal
    · have heq' : withFrame frame (syscallWait4 frame.rdi frame.rsi) k =
          (.ok (toU64 (k.processes i).pid, frame), k₁.reap i) := by
        rw [withFrame, Prog.bind_ok heq]
        rfl
      dsimp only
      rw [heq']
      exact .wait4 hn hzombie hlocal

end Xbks
