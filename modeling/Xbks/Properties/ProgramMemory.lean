import Xbks.Properties.InitialStack
import Xbks.Properties.ProgramImage

/-!
# The memory of a new program

What the loader makes of a file and of the strings that the program is given, as a function of them alone: the
segments one after the other, then the stack. A successful `loadProgram` leaves exactly this memory, wherever
in the machine the frames and the tables came from.
-/

namespace Xbks

variable {kmem : KernelMemory} {file : RamdiskFile} {header : ElfHeader} {p : UInt64} {s s' : Mm}
  {F : List UInt64} {m : Memory UInt8} {i : ℕ} {is : List ℕ} {argv envp : List CString}

/-- One more segment: zeros on its pages, and then the bytes of the file. -/
def addSegment (kmem : KernelMemory) (file : RamdiskFile) (phdr : ProgramHeader) (m : Memory UInt8) :
    Memory UInt8 :=
  if phdr.type = 1 then
    (m.fill 0 (phdr.vaddr.toNat / 4096 * 4096) ((phdr.vaddr.toNat + phdr.memsz.toNat + 4095) / 4096 * 4096)).store
      phdr.vaddr.toNat (sourceBytes (fileByte kmem file) phdr.offset.toNat phdr.filesz.toNat)
  else m

/-- The segments with the given numbers, in their order. -/
def addSegments (kmem : KernelMemory) (file : RamdiskFile) (header : ElfHeader) (is : List ℕ)
    (m : Memory UInt8) : Memory UInt8 :=
  is.foldl (fun m i => addSegment kmem file (programHeader kmem file header i) m) m

/-- The memory with which a program starts. -/
def programMemory (kmem : KernelMemory) (file : RamdiskFile) (header : ElfHeader) (argv envp : List CString) :
    Memory UInt8 :=
  addStack argv envp (addSegments kmem file header (List.range header.phnum.toNat) fun _ => none)

/-! ### Segments -/

lemma loadSegment_memory (hpool : Pool s F) (hsep : Separate s 4 p F)
    (hfits : (programHeader kmem file header i).type = 1 →
      (programHeader kmem file header i).isAccepted file.size = true → (programHeader kmem file header i).Fits)
    (h : loadSegment kmem p file header s i = (true, s')) :
    s'.view p = addSegment kmem file (programHeader kmem file header i) (s.view p) := by
  have hnote := noteReads_growth (A := ∅) (p := p) hpool (header.phoff.toNat + 56 * i) 56
  have hview : (s.noteReads (header.phoff.toNat + 56 * i) 56).view p = s.view p := rfl
  have hyes : (loadSegment kmem p file header s i).1 = true := by rw [h]
  have hacc := loadSegment_accepted hyes
  simp only [loadSegment] at h
  generalize s.noteReads (header.phoff.toNat + 56 * i) 56 = s₁ at *
  have hsep₁ := hnote.toConserved.separate hsep
  generalize programHeader kmem file header i = phdr at *
  rw [addSegment]
  by_cases htype : phdr.type = 1
  · rw [if_pos htype]
    have hacc := hacc htype
    obtain ⟨hge, hlt, hsz⟩ := ProgramHeader.bounds hacc (hfits htype hacc)
    simp only [htype, hacc, ne_eq, not_true_eq_false, if_false, if_true] at h
    rcases hr : mapUserRange s₁ p phdr.vaddr phdr.memsz pageWritable with ⟨_ | _, s₂⟩
    · rw [hr] at h
      cases h
    · rw [hr] at h
      obtain ⟨F₂, hmap, -⟩ := mapUserRange_spec pageWritable hlt hnote.pool hsep₁ (by decide)
      rw [hr] at hmap
      have hadded := mapUserRange_added hlt hnote.pool hsep₁ (by decide) hr
      rw [writeProcessMemory_view hge (by omega) hmap.pool (hmap.toConserved.separate hsep₁) h,
        hadded.eq_fill fun _ => Set.mem_Ico, hview]
  · rw [if_neg htype]
    simp only [htype, ne_eq, not_false_eq_true, if_true] at h
    cases h
    exact hview

lemma loadSegments_memory (his : ∀ i ∈ is, i < header.phnum.toNat) (hpool : Pool s F) (hsep : Separate s 4 p F)
    (hfits : ∀ before i after, is = before ++ i :: after → NoneRefused kmem file header before →
      Loadable kmem file header i → (programHeader kmem file header i).Fits)
    (h : Loop.forWhile (loadSegment kmem p file header) s is = (true, s')) :
    s'.view p = addSegments kmem file header is (s.view p) := by
  induction is generalizing s F with
  | nil =>
    cases h
    rfl
  | cons i is ih =>
    obtain ⟨hi, hrest⟩ := List.forall_mem_cons.mp his
    have hfits₁ := hfits [] i is rfl (by simp [NoneRefused])
    obtain ⟨F₁, hg, -⟩ := loadSegment_spec hi hpool hsep hfits₁
    rcases hr : loadSegment kmem p file header s i with ⟨_ | _, s₁⟩
    · have hno : (loadSegment kmem p file header s i).1 = false := by rw [hr]
      rw [Loop.forWhile_cons_false hno] at h
      cases h
    · have hyes : (loadSegment kmem p file header s i).1 = true := by rw [hr]
      rw [Loop.forWhile_cons_true hyes, hr] at h
      rw [hr] at hg
      have hview := loadSegment_memory hpool hsep (fun htype hacc => hfits₁ ⟨hi, htype, hacc⟩) hr
      have hlater : ∀ before j after, is = before ++ j :: after → NoneRefused kmem file header before →
          Loadable kmem file header j → (programHeader kmem file header j).Fits := by
        intro before j after heq hbefore
        refine hfits (i :: before) j after (by rw [heq, List.cons_append]) fun l hl htype => ?_
        rcases List.mem_cons.mp hl with rfl | hl
        · exact loadSegment_accepted hyes htype
        · exact hbefore l hl htype
      rw [ih hrest hg.pool (hg.toConserved.separate hsep) hlater h, hview]
      rfl

lemma loadElf_memory {process process' : Process} (hpool : Pool s F) (hsep : Separate s 4 process.cr3 F)
    (hfits : SegmentsFit kmem file) (h : loadElfIntoProcess kmem s process file = (true, process', s')) :
    ∃ header, validateElf kmem file = some header ∧
      process' = { process with entry := header.entry, brk := 0x800000 } ∧
      s'.view process.cr3 =
        addSegments kmem file header (List.range header.phnum.toNat) (s.view process.cr3) := by
  obtain ⟨F', -, hloaded, -⟩ := loadElfIntoProcess_spec process hpool hsep hfits
  rw [h] at hloaded
  obtain ⟨header, hval, hprocess, -⟩ := (hloaded rfl).header
  obtain ⟨hfst, hsnd⟩ := loadElfIntoProcess_some s process hval
  rw [h] at hfst hsnd
  have hnote : Growth (∅ : Set (List (Fin 512))) process.cr3 s (s.noteReads 0 64) F F :=
    noteReads_growth hpool 0 64
  have hbefore : ∀ before i after, List.range header.phnum.toNat = before ++ i :: after →
      NoneRefused kmem file header before → Loadable kmem file header i →
      (programHeader kmem file header i).Fits := by
    intro before i after heq hnone hload
    exact hfits header hval i hload fun j hj => hnone j (mem_before_of_range heq (List.mem_range.mp hj))
  have hloop : Loop.forWhile (loadSegment kmem process.cr3 file header) (s.noteReads 0 64)
      (List.range header.phnum.toNat) = (true, s') := Prod.ext hfst.symm hsnd.symm
  have hview := loadSegments_memory (fun i hi => List.mem_range.mp hi) hnote.pool
    (hnote.toConserved.separate hsep) hbefore hloop
  exact ⟨header, hval, hprocess, hview⟩

/-! ### Programs -/

/-- An address space without a page. -/
lemma NewSpace.view (h : NewSpace p s s' F) : s'.view p = fun _ => none := by
  funext a
  by_cases ha : a < 2 ^ 47
  · have hv : (UInt64.ofNat a).toNat = a := Word.toNat_ofNat_of_lt (by omega)
    rw [← hv, view_eq_none_iff (by omega)]
    exact h.lookup _
  · exact if_neg ha

/-- What a successful `loadProgram` has made: a process at the entry of the program, whose memory depends on
the file and the strings only. -/
theorem loadProgram_memory {rd : Ramdisk} {process process' : Process} {path : CString}
    (hfit : ArgumentsFit argv envp) (hpool : Pool s F) (hkernel : s.kernelCr3Value &&& ~~~0xfff ∉ F)
    (hfits : ∀ file, ramdiskFind kmem rd path = some file → SegmentsFit kmem file)
    (h : loadProgram kmem rd s process path argv envp = (true, process', s')) :
    ∃ file header, ramdiskFind kmem rd path = some file ∧ file.executable = true ∧ file.directory = false ∧
      validateElf kmem file = some header ∧ process'.entry = header.entry ∧
      process'.stack.toNat = stackPointer argv envp ∧ process'.brk = 0x800000 ∧
      s'.view process'.cr3 = programMemory kmem file header argv envp := by
  rw [loadProgram] at h
  cases hfile : ramdiskFind kmem rd path with
  | none =>
    simp only [hfile] at h
    cases h
  | some file =>
    simp only [hfile] at h
    by_cases hexec : ¬file.executable = true ∨ file.directory = true
    · simp only [if_pos hexec] at h
      cases h
    simp only [if_neg hexec] at h
    rcases createKernelMappedPml4_spec hpool hkernel with ⟨rfl, hnew⟩ | ⟨q, F₁, s₁, rfl, hnew, hq⟩
    · simp only [hnew, if_true] at h
      cases h
    have hq0 : q ≠ 0 := (hpool.frames q List.mem_cons_self).ne_zero
    have hbuilt : Built (imagePaths kmem file) q s s₁ (q :: F₁) F₁ := hq.built
    have hsep₁ := hbuilt.separate hpool.nodup
    simp only [hnew, if_neg hq0] at h
    obtain ⟨F₂, h₂, -⟩ := loadElfIntoProcess_spec { process with cr3 := q } hq.pool hsep₁ (hfits file hfile)
    rcases hr₂ : loadElfIntoProcess kmem s₁ { process with cr3 := q } file with ⟨_ | _, process₂, s₂⟩
    · rw [hr₂] at h
      cases h
    rw [hr₂] at h h₂
    obtain ⟨header, hval, hprocess₂, hview₂⟩ := loadElf_memory hq.pool hsep₁ (hfits file hfile) hr₂
    dsimp only at h
    have hcr3 : process₂.cr3 = q := by rw [hprocess₂]
    have hentry : process₂.entry = header.entry := by rw [hprocess₂]
    have hbrk : process₂.brk = 0x800000 := by rw [hprocess₂]
    have hsep₂ : Separate s₂ 4 process₂.cr3 F₂ := by
      rw [hcr3]
      exact h₂.toConserved.separate hsep₁
    rcases hr₃ : buildUserStack s₂ process₂ argv envp with ⟨_ | _, process₃, s₃⟩
    · rw [hr₃] at h
      cases h
    rw [hr₃] at h
    cases h
    obtain ⟨t⟩ := buildUserStack_stages hr₃
    obtain ⟨hstack, hview₃⟩ := t.memory hfit h₂.pool hsep₂
    have hcr3' : process'.cr3 = process₂.cr3 := by rw [t.result]
    have hentry' : process'.entry = process₂.entry := by rw [t.result]
    have hbrk' : process'.brk = process₂.brk := by rw [t.result]
    rw [not_or, not_not, Bool.not_eq_true] at hexec
    refine ⟨file, header, rfl, hexec.1, hexec.2, hval, hentry'.trans hentry, hstack, hbrk'.trans hbrk, ?_⟩
    rw [hcr3', hview₃, hcr3, hview₂, hq.view]
    rfl

end Xbks
