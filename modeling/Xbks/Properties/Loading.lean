import Xbks.Process.Boot
import Xbks.Process.Record

/-!
# What loading a program reads and writes

The segments of a program are copied byte by byte from the file into the new address space. As long
as no sum of two header fields wraps around, every byte comes from the file and goes to a page that
was mapped for the segment. The checks of the loader do not notice a sum that wraps around, and then
bytes come from outside the file, or go through the kernel's part of the page tables.
-/

namespace Xbks

variable {kmem kmem' : KernelMemory} {file : RamdiskFile} {header : ElfHeader} {s s' s'' s₁ : Mm}
  {F : List UInt64} {p : UInt64} {R : ℕ → Prop} {Q : Copy → Prop}

/-! ### Where the bytes come from -/

/-- Neither the table of program headers nor an accepted segment wraps around in the file. -/
def OffsetsFit (kmem : KernelMemory) (file : RamdiskFile) : Prop :=
  ∀ header, validateElf kmem file = some header →
    header.phoff.toNat + 56 * header.phnum.toNat < 2 ^ 64 ∧
    ∀ i, Loadable kmem file header i → NoneRefused kmem file header (List.range i) →
      (programHeader kmem file header i).offset.toNat +
        (programHeader kmem file header i).filesz.toNat < 2 ^ 64

/-- The check of the table of program headers, when it does not wrap around. -/
lemma ElfHeader.isValid_bound {size : UInt64} (h : header.isValid size = true)
    (hfits : header.phoff.toNat + 56 * header.phnum.toNat < 2 ^ 64) :
    header.phoff.toNat + 56 * header.phnum.toNat ≤ size.toNat := by
  simp only [ElfHeader.isValid, decide_eq_true_eq] at h
  obtain ⟨-, -, -, -, -, hend⟩ := h
  have hnum : header.phnum.toUInt64.toNat = header.phnum.toNat := rfl
  have hlt := header.phnum.toNat_lt
  have hmul : (header.phnum.toUInt64 * phdrSize).toNat = 56 * header.phnum.toNat := by
    have hsize : phdrSize.toNat = 56 := rfl
    rw [UInt64.toNat_mul, hnum, hsize]
    omega
  rw [gt_iff_lt, UInt64.not_lt, UInt64.le_iff_toNat_le,
    Word.toNat_add_of_lt _ _ (by rw [hmul]; exact hfits), hmul] at hend
  exact hend

/-- The check of a segment's place in the file, when it does not wrap around. -/
lemma ProgramHeader.isAccepted_bound {phdr : ProgramHeader} {size : UInt64}
    (h : phdr.isAccepted size = true) (hfits : phdr.offset.toNat + phdr.filesz.toNat < 2 ^ 64) :
    phdr.offset.toNat + phdr.filesz.toNat ≤ size.toNat := by
  simp only [ProgramHeader.isAccepted, not_or, decide_eq_true_eq] at h
  obtain ⟨-, hend, -⟩ := h
  rw [gt_iff_lt, UInt64.not_lt, UInt64.le_iff_toNat_le, Word.toNat_add_of_lt _ _ hfits] at hend
  exact hend

lemma RamdiskFile.size_of_hasHeader (h : file.hasHeader = true) : 64 ≤ file.size.toNat := by
  simp only [RamdiskFile.hasHeader, not_or, decide_eq_true_eq] at h
  have hsize : ehdrSize.toNat = 64 := rfl
  rw [UInt64.not_lt, UInt64.le_iff_toNat_le, hsize] at h
  exact h.2.2

/-- In an iteration that is reached, the bytes of the header and of the segment it describes, if that
is accepted, are in the file. -/
lemma OffsetsFit.inFile {i : ℕ} {before after : List ℕ} (h : OffsetsFit kmem file)
    (hval : validateElf kmem file = some header)
    (heq : List.range header.phnum.toNat = before ++ i :: after)
    (hbefore : NoneRefused kmem file header before) :
    header.phoff.toNat + 56 * i + 56 ≤ file.size.toNat ∧
      ((programHeader kmem file header i).type = 1 →
        (programHeader kmem file header i).isAccepted file.size = true →
        (programHeader kmem file header i).offset.toNat +
          (programHeader kmem file header i).filesz.toNat ≤ file.size.toNat) := by
  obtain ⟨htable, hsegment⟩ := h header hval
  have hbound := ElfHeader.isValid_bound (validateElf_some hval).2.2 htable
  have hi : i < header.phnum.toNat := by
    rw [← List.mem_range, heq]
    exact List.mem_append.mpr (.inr List.mem_cons_self)
  refine ⟨by omega, fun htype hacc => ?_⟩
  refine ProgramHeader.isAccepted_bound hacc (hsegment i ⟨hi, htype, hacc⟩ fun j hj => ?_)
  exact hbefore j (mem_before_of_range heq (List.mem_range.mp hj))

/-- When no offset wraps around, the result depends on the bytes of the file only. -/
lemma OffsetsFit.congr (h : OffsetsFit kmem file) (s : Mm) (process : Process)
    (hsame : SameBytes kmem kmem' file 0 file.size.toNat) :
    loadElfIntoProcess kmem' s process file = loadElfIntoProcess kmem s process file := by
  have hval : validateElf kmem' file = validateElf kmem file := by
    rw [validateElf, validateElf]
    split_ifs with hheader
    · have hsize := RamdiskFile.size_of_hasHeader hheader
      dsimp only
      rw [(hsame.sub (le_refl 0) (by omega)).header_eq]
    · rfl
  simp only [loadElfIntoProcess, hval]
  cases hval : validateElf kmem file with
  | none => rfl
  | some header =>
    dsimp only
    have hloop : Loop.forWhile (loadSegment kmem' process.cr3 file header)
        (if file.hasHeader = true then s.noteReads 0 64 else s) (List.range header.phnum.toNat) =
      Loop.forWhile (loadSegment kmem process.cr3 file header)
        (if file.hasHeader = true then s.noteReads 0 64 else s) (List.range header.phnum.toNat) := by
      refine Loop.forWhile_congr (fun _ _ => loadSegment_accepted)
        fun s before i after heq hbefore => ?_
      obtain ⟨hread, hcopy⟩ := h.inFile hval heq hbefore
      refine SameBytes.loadSegment_eq (hsame.sub (Nat.zero_le _) (by omega)) fun htype hacc => ?_
      exact hsame.sub (Nat.zero_le _) (by have := hcopy htype hacc; omega)
    rw [hloop]

end Xbks
