import Xbks.Process.Arguments

/-!
# What a system call overwrites

A handler stores to the buffer that the user supplied, and nowhere else in the memory of the process.
`Outputs` says so for a part of a system call, and is derived for the handlers from their parts.
-/

namespace Xbks

open Prog (keeps_pure keeps_bind keeps_get keeps_get_bind keeps_modify keeps_ite)

variable {k k' k'' : Kernel} {base count : UInt64} {a n index : ℕ}

/-- In an address space that is intact, only the `n` bytes from `a` on have been overwritten. -/
structure Outputs (a n : ℕ) (k k' : Kernel) : Prop where
  cr3 : k'.cr3 = k.cr3
  intact : Intact k → Intact k'
  view : Intact k → Memory.Overwritten a n k.view k'.view

lemma Outputs.refl (a n : ℕ) (k : Kernel) : Outputs a n k k := ⟨rfl, id, fun _ => .refl a n k.view⟩

lemma Outputs.trans (h : Outputs a n k k') (h' : Outputs a n k' k'') : Outputs a n k k'' where
  cr3 := h'.cr3.trans h.cr3
  intact hintact := h'.intact (h.intact hintact)
  view hintact := (h.view hintact).trans (h'.view (h.intact hintact))

instance (a n : ℕ) : IsPreorder Kernel (Outputs a n) where
  refl := Outputs.refl a n
  trans _ _ _ h h' := h.trans h'

/-- Changes outside the memory. -/
lemma outputs_of_same (hmm : k'.mm = k.mm) (hcr3 : k'.cr3 = k.cr3) : Outputs a n k k' := by
  refine ⟨hcr3, fun h => ?_, fun _ => ?_⟩
  · rw [Intact, hmm, hcr3]
    exact h
  · rw [Kernel.view, Kernel.view, hmm, hcr3]
    exact .refl a n _

lemma Reads.outputs (h : Reads k k') : Outputs a n k k' := by
  obtain ⟨accesses, rfl⟩ := h
  exact outputs_of_same rfl rfl

/-! ### User memory -/

lemma outputs_writeUser (h : InUser base index) (hge : a ≤ base.toNat + index)
    (hlt : base.toNat + index < a + n) (b : UInt8) : Prog.Keeps (Outputs a n) (writeUser base index b) := by
  intro k
  cases hb : k.view (base.toNat + index) with
  | none =>
    rw [writeUser_none h hb]
    exact (reads_noteAccess k _).outputs
  | some c =>
    have hne : k.view (base.toNat + index) ≠ none := by
      rw [hb]
      exact Option.some_ne_none c
    have hcr3 : (writeUser base index b k).2.cr3 = k.cr3 := by
      rw [writeUser, Prog.bind_apply, userPhysical_eq h]
      cases vmmTranslate k.mm k.cr3 (base + UInt64.ofNat index) <;> rfl
    refine ⟨hcr3, fun hintact => ?_, fun hintact => ?_⟩
    · obtain ⟨k', hwrite, hstored⟩ := writeUser_some hintact h hne b
      rw [hwrite]
      exact hstored.intact
    · obtain ⟨k', hwrite, hstored⟩ := writeUser_some hintact h hne b
      rw [hwrite, hstored.view]
      refine Memory.overwritten_store (Memory.has_succ.mpr ⟨hne, Memory.has_zero⟩) hge ?_
      rw [List.length_singleton]
      omega

lemma outputs_writeUserBytes {bytes : List UInt8} (h : userRangeIsValid base count = true)
    (hlen : index + bytes.length ≤ count.toNat) :
    Prog.Keeps (Outputs base.toNat count.toNat) (writeUserBytes base index bytes) := by
  induction bytes generalizing index with
  | nil => exact keeps_pure ()
  | cons b rest ih =>
    rw [List.length_cons] at hlen
    have hin := inUser_of_valid h (i := index) (by omega)
    exact keeps_bind (outputs_writeUser hin (by omega) (by omega) b) fun _ => ih (by omega)

lemma outputs_readKeyboard {remaining : ℕ} (h : userRangeIsValid base count = true)
    (hlen : index + remaining ≤ count.toNat) :
    Prog.Keeps (Outputs base.toNat count.toNat) (readKeyboard base remaining index) := by
  induction remaining generalizing index with
  | zero => exact keeps_pure ()
  | succ remaining ih =>
    have hin := inUser_of_valid h (i := index) (by omega)
    refine keeps_bind (keeps_get_bind fun _ => keeps_bind ?_ fun _ => keeps_pure _) fun c => ?_
    · exact keeps_modify fun k => outputs_of_same rfl rfl
    · exact keeps_bind (outputs_writeUser hin (by omega) (by omega) c) fun _ => ih (by omega)

lemma outputs_copyUserString (capacity : ℕ) (source : UInt64) :
    Prog.Keeps (Outputs a n) (copyUserString capacity source) :=
  fun k => (reads_copyUserString capacity source k).outputs

/-! ### Handlers -/

lemma outputs_setFd (k : Kernel) (i : Fin 16) (fd : ProcessFd) : Outputs a n k (k.setFd i fd) :=
  outputs_of_same rfl rfl

lemma outputs_syscallRead (fd bufferAddress count : UInt64) :
    Prog.Keeps (Outputs bufferAddress.toNat count.toNat) (syscallRead fd bufferAddress count) := by
  refine keeps_ite (fun _ => keeps_pure _) fun hvalid => keeps_get_bind fun k => ?_
  rw [not_not] at hvalid
  cases fdIndex fd with
  | none => exact keeps_pure _
  | some i =>
    cases htype : (k.current.fds i).type with
    | none | stdout | stderr | dir =>
      simp only [htype]
      exact keeps_pure _
    | stdin =>
      simp only [htype]
      exact keeps_bind (outputs_readKeyboard hvalid (by omega)) fun _ => keeps_pure _
    | file =>
      simp only [htype]
      refine keeps_ite (fun _ => keeps_pure _) fun _ => ?_
      refine keeps_bind (outputs_writeUserBytes hvalid ?_) fun _ =>
        keeps_bind (keeps_modify fun k => outputs_setFd k i _) fun _ => keeps_pure _
      simp only [bytesAt, List.length_map, List.length_range, zero_add]
      split_ifs with hlt
      · exact le_refl _
      · rwa [UInt64.not_lt, UInt64.le_iff_toNat_le] at hlt

lemma outputs_forUserBytes (data : UInt64) (device : UInt8 → Console → Console) (remaining i : ℕ) :
    Prog.Keeps (Outputs a n) (forUserBytes data device remaining i) := by
  induction remaining generalizing i with
  | zero => exact keeps_pure ()
  | succ remaining ih =>
    refine keeps_bind (fun k => (reads_readUser data i k).outputs) fun b => ?_
    exact keeps_bind (keeps_modify fun k => outputs_of_same rfl rfl) fun _ => ih (i + 1)

lemma outputs_syscallWrite (fd bufferAddress count : UInt64) :
    Prog.Keeps (Outputs a n) (syscallWrite fd bufferAddress count) := by
  refine keeps_ite (fun _ => keeps_pure _) fun _ => keeps_ite (fun _ => keeps_pure _) fun _ => ?_
  refine keeps_bind (keeps_bind (outputs_forUserBytes _ _ _ _) fun _ =>
    keeps_bind (outputs_forUserBytes _ _ _ _) fun _ => ?_) fun _ => keeps_pure _
  exact keeps_get_bind fun k => keeps_ite (fun _ => outputs_forUserBytes _ _ _ _) fun _ => keeps_pure _

lemma outputs_syscallOpen (pathAddress : UInt64) : Prog.Keeps (Outputs a n) (syscallOpen pathAddress) := by
  refine keeps_get_bind fun k => ?_
  cases allocateFd k.current with
  | none => exact keeps_pure _
  | some fd =>
    refine keeps_bind (outputs_copyUserString _ _) fun path => ?_
    cases path with
    | none => exact keeps_pure _
    | some path =>
      cases hfile : ramdiskFind k.kmem k.ramdisk path with
      | none =>
        simp only [hfile]
        exact keeps_pure _
      | some file =>
        simp only [hfile]
        exact keeps_bind (keeps_modify fun k => outputs_setFd k fd _) fun _ => keeps_pure _

lemma outputs_syscallClose (fd : UInt64) : Prog.Keeps (Outputs a n) (syscallClose fd) := by
  refine keeps_get_bind fun k => ?_
  cases fdIndex fd with
  | none => exact keeps_pure _
  | some i =>
    refine keeps_ite (fun _ => keeps_pure _) fun _ => ?_
    exact keeps_bind (keeps_modify fun k => outputs_setFd k i _) fun _ => keeps_pure _

lemma outputs_syscallLseek (fd offset whence : UInt64) :
    Prog.Keeps (Outputs a n) (syscallLseek fd offset whence) := by
  intro k
  rcases syscallLseek_cases fd offset whence k with ⟨error, h⟩ | ⟨i, next, -, h⟩
  · rw [h]
    exact .refl a n k
  · rw [h]
    exact outputs_setFd k i _

lemma outputs_getdentsFrom {i : Fin 16} {written : UInt64} {fuel : ℕ}
    (h : userRangeIsValid base count = true) (hw : written.toNat ≤ count.toNat) :
    Prog.Keeps (Outputs base.toNat count.toNat) (getdentsFrom i base count fuel written) := by
  induction fuel generalizing written with
  | zero => exact keeps_pure _
  | succ fuel ih =>
    refine keeps_get_bind fun k => ?_
    dsimp only
    cases hdir : ramdiskReadDir k.kmem k.ramdisk (k.current.fds i).file.path
      (k.current.fds i).offset with
    | none => exact keeps_pure _
    | some child =>
      have hname := length_lastComponent_le child.path
      have hpath := length_ramdiskReadDir_lt hdir
      obtain ⟨hge, hle⟩ := direntReclen_bounds (lastComponent child.path) (by omega)
      refine keeps_ite (fun _ => keeps_pure _) fun hroom => ?_
      have hcount := toNat_le_of_valid h
      have hsum : (written + direntReclen (lastComponent child.path)).toNat =
          written.toNat + (direntReclen (lastComponent child.path)).toNat :=
        Word.toNat_add_of_lt _ _ (by omega)
      rw [gt_iff_lt, UInt64.not_lt, UInt64.le_iff_toNat_le, hsum] at hroom
      refine keeps_bind (outputs_writeUserBytes h ?_) fun _ => ?_
      · rw [length_direntBytes]
        omega
      · exact keeps_bind (keeps_modify fun k => outputs_setFd k i _) fun _ => ih (by omega)

lemma outputs_syscallGetdents64 (fd direntAddress count : UInt64) :
    Prog.Keeps (Outputs direntAddress.toNat count.toNat) (syscallGetdents64 fd direntAddress count) := by
  refine keeps_get_bind fun k => ?_
  cases fdIndex fd with
  | none => exact keeps_pure _
  | some i =>
    refine keeps_ite (fun _ => keeps_pure _) fun _ => keeps_ite (fun _ => keeps_pure _) fun hvalid => ?_
    exact outputs_getdentsFrom (not_not.mp hvalid) (Nat.zero_le _)

lemma outputs_syscallAccess (pathAddress : UInt64) :
    Prog.Keeps (Outputs a n) (syscallAccess pathAddress) := by
  refine keeps_bind (outputs_copyUserString _ _) fun path => ?_
  cases path with
  | none => exact keeps_pure _
  | some path => exact keeps_get_bind fun _ => keeps_pure _

lemma outputs_syscallGetcwd (bufferAddress size : UInt64) :
    Prog.Keeps (Outputs bufferAddress.toNat 2) (syscallGetcwd bufferAddress size) := by
  refine keeps_ite (fun _ => keeps_pure _) fun _ => keeps_ite (fun _ => keeps_pure _) fun hvalid => ?_
  have hbytes : Prog.Keeps (Outputs bufferAddress.toNat (2 : UInt64).toNat)
      (writeUserBytes bufferAddress 0 [slash, 0]) := outputs_writeUserBytes (not_not.mp hvalid) (by decide)
  exact keeps_bind hbytes fun _ => keeps_pure _

lemma outputs_writeUnameFields {field : ℕ} {texts : List CString}
    (h : userRangeIsValid base (6 * 65) = true) (hfields : field + texts.length ≤ 6)
    (htexts : ∀ text ∈ texts, text.length < 65) :
    Prog.Keeps (Outputs base.toNat 390) (writeUnameFields base field texts) := by
  induction texts generalizing field with
  | nil => exact keeps_pure ()
  | cons text rest ih =>
    rw [List.length_cons] at hfields
    obtain ⟨htext, hrest⟩ := List.forall_mem_cons.mp htexts
    have hlen : ((6 : UInt64) * 65).toNat = 390 := rfl
    have hbytes : Prog.Keeps (Outputs base.toNat ((6 : UInt64) * 65).toNat)
        (writeUserBytes base (65 * field) (text ++ [0])) := by
      refine outputs_writeUserBytes h ?_
      rw [List.length_append, List.length_singleton, hlen]
      omega
    exact keeps_bind hbytes fun _ => ih (by omega) hrest

lemma outputs_syscallUname (bufferAddress : UInt64) :
    Prog.Keeps (Outputs bufferAddress.toNat 390) (syscallUname bufferAddress) := by
  refine keeps_ite (fun _ => keeps_pure _) fun hvalid => ?_
  refine keeps_bind (outputs_writeUnameFields (not_not.mp hvalid) (by decide) (by decide)) fun _ =>
    keeps_pure _

/-- The user's buffer that a system call is to fill: its address and its length. The status that `wait4` stores
is not among them. -/
def outputBuffer (frame : SyscallFrame) : ℕ × ℕ :=
  match syscallNumber frame.rax with
  | .read | .getdents64 => (frame.rsi.toNat, frame.rdx.toNat)
  | .getcwd => (frame.rdi.toNat, 2)
  | .uname => (frame.rdi.toNat, 390)
  | _ => (0, 0)

end Xbks
