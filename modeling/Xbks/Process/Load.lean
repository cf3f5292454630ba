import Xbks.Process.Image

/-!
# Loading a program

Every step of `loadProgram` grows the new address space and nothing else, provided no loadable
segment of the file ends beyond `2 ^ 64`. When it fails, all frames are back on the free list.
-/

namespace Xbks

variable {A : Set (List (Fin 512))} {p v : UInt64} {s s' : Mm} {F F' : List UInt64}

/-! ### Copying into the address space -/

/-- One iteration of `write_process_memory`: a chunk that stays on its page. -/
lemma copyChunk_growth {src : ℕ → UInt8} {physical : UInt64} {first chunk : ℕ} (hpool : Pool s F)
    (hsep : Separate s 4 p F) (hge : 65536 ≤ v.toNat) (hlt : v.toNat + chunk ≤ 2 ^ 47)
    (hpage : v.toNat % 4096 + chunk ≤ 4096) (ht : vmmTranslate s p v = some physical)
    (hpos : 0 < chunk) : Growth A p s (copyChunk src s v physical first chunk) F F := by
  have hbyte : ∀ k < chunk, vmmTranslate s p (v + UInt64.ofNat k) =
      some (physical + UInt64.ofNat k) ∧
      alignDown (physical + UInt64.ofNat k) pageSize = alignDown physical pageSize ∧
      alignDown physical pageSize ∈ s.leaves 4 p := fun k hk =>
    translate_add (by omega) (by omega) ht
  obtain ⟨hmem, hhead, hcount, hhdm, hkernel, -, hcopies⟩ :=
    copyChunk_spec (s := s) src v first fun k hk => (hbyte k hk).2.1
  refine .of_leaf hpool hsep (hbyte 0 hpos).2.2 hmem hhead hcount hhdm hkernel ⟨_, hcopies, ?_⟩
  intro c hc
  obtain ⟨k, hk, rfl⟩ := List.mem_map.mp hc
  rw [List.mem_range] at hk
  have hsum : (v + UInt64.ofNat k).toNat = v.toNat + k := toNat_add_ofNat (by omega)
  refine ⟨?_, ?_, (hbyte k hk).1⟩
  · rw [userImageMin_le_iff, hsum]
    omega
  · rw [lt_userTop_iff, hsum]
    omega

/-- The loop of `write_process_memory` over a range of user addresses. It succeeds when they are
all mapped. -/
lemma writeProcessMemoryFrom_spec {src : ℕ → UInt8} {first size fuel written : ℕ}
    (hge : 65536 ≤ v.toNat) (hlt : v.toNat + size ≤ 2 ^ 47) (hpool : Pool s F)
    (hsep : Separate s 4 p F) (hfuel : size ≤ written + fuel) :
    Growth A p s (writeProcessMemoryFrom src p v first size fuel s written).2 F F ∧
      ((∀ a : UInt64, v.toNat ≤ a.toNat → a.toNat < v.toNat + size →
        s.lookup 4 p (pathOf a) ≠ none) →
        (writeProcessMemoryFrom src p v first size fuel s written).1 = true) := by
  induction fuel generalizing s written with
  | zero => exact ⟨.refl hpool, fun _ => rfl⟩
  | succ fuel ih =>
    rw [writeProcessMemoryFrom]
    by_cases hw : written < size
    · have haddr : (v + UInt64.ofNat written).toNat = v.toNat + written :=
        toNat_add_ofNat (by omega)
      have hoff : ((v + UInt64.ofNat written) &&& (pageSize - 1)).toNat =
          (v + UInt64.ofNat written).toNat % 4096 := pageOffset_toNat
      simp only [if_pos hw, hoff]
      generalize v + UInt64.ofNat written = address at *
      set chunk := min (4096 - address.toNat % 4096) (size - written) with hchunk
      cases ht : vmmTranslate s p address with
      | none =>
        refine ⟨.refl hpool, fun hmapped => ?_⟩
        rw [vmmTranslate_eq (lowerHalf_of_lt (by omega)), Option.map_eq_none_iff] at ht
        exact absurd ht (hmapped address (by omega) (by omega))
      | some physical =>
        have hstep : Growth A p s (copyChunk src s address physical (first + written) chunk) F F :=
          copyChunk_growth hpool hsep (by omega) (by omega) (by omega) ht (by omega)
        obtain ⟨hrest, hok⟩ := ih hstep.pool (hstep.toConserved.separate hsep)
          (show size ≤ written + chunk + fuel by omega)
        refine ⟨hstep.trans hrest, fun hmapped => hok fun a ha ha' => ?_⟩
        obtain ⟨e, he⟩ := Option.ne_none_iff_exists'.mp (hmapped a ha ha')
        rw [hstep.kept _ e he]
        exact Option.some_ne_none e
    · rw [if_neg hw]
      exact ⟨.refl hpool, fun _ => rfl⟩

theorem writeProcessMemory_spec (src : ℕ → UInt8) (first : ℕ) {size : ℕ} (hge : 65536 ≤ v.toNat)
    (hlt : v.toNat + size ≤ 2 ^ 47) (hpool : Pool s F) (hsep : Separate s 4 p F) :
    Growth A p s (writeProcessMemory s p v src first size).2 F F ∧
      ((∀ a : UInt64, v.toNat ≤ a.toNat → a.toNat < v.toNat + size →
        s.lookup 4 p (pathOf a) ≠ none) → (writeProcessMemory s p v src first size).1 = true) :=
  writeProcessMemoryFrom_spec hge hlt hpool hsep (by omega)

/-! ### Segments -/

variable {kmem : KernelMemory} {file : RamdiskFile} {header : ElfHeader}

/-- The addresses of the segment do not wrap around. -/
def ProgramHeader.Fits (phdr : ProgramHeader) : Prop :=
  phdr.vaddr.toNat + phdr.memsz.toNat < 2 ^ 64

/-- The file's header number `i` describes a segment that the loader accepts. -/
def Loadable (kmem : KernelMemory) (file : RamdiskFile) (header : ElfHeader) (i : ℕ) : Prop :=
  i < header.phnum.toNat ∧ (programHeader kmem file header i).type = 1 ∧
    (programHeader kmem file header i).isAccepted file.size = true

/-- No segment with a number in `js` is refused. -/
def NoneRefused (kmem : KernelMemory) (file : RamdiskFile) (header : ElfHeader) (js : List ℕ) :
    Prop :=
  ∀ j ∈ js, (programHeader kmem file header j).type = 1 →
    (programHeader kmem file header j).isAccepted file.size = true

/-- No segment that the loader accepts, having accepted those before it, wraps around. -/
def SegmentsFit (kmem : KernelMemory) (file : RamdiskFile) : Prop :=
  ∀ header, validateElf kmem file = some header → ∀ i, Loadable kmem file header i →
    NoneRefused kmem file header (List.range i) → (programHeader kmem file header i).Fits

/-- The paths to the pages of segment `i`. -/
def segmentPaths (kmem : KernelMemory) (file : RamdiskFile) (header : ElfHeader) (i : ℕ) :
    Set (List (Fin 512)) :=
  pathsOf (programHeader kmem file header i).vaddr.toNat
    ((programHeader kmem file header i).vaddr.toNat +
      (programHeader kmem file header i).memsz.toNat)

/-- The address lies on a page of the segment. -/
def ProgramHeader.Reaches (phdr : ProgramHeader) (address : UInt64) : Prop :=
  phdr.vaddr.toNat / 4096 ≤ address.toNat / 4096 ∧
    address.toNat / 4096 * 4096 < phdr.vaddr.toNat + phdr.memsz.toNat

/-- The paths to the pages of the accepted segments. -/
def loadablePaths (kmem : KernelMemory) (file : RamdiskFile) (header : ElfHeader) :
    Set (List (Fin 512)) :=
  {path | ∃ i, Loadable kmem file header i ∧ path ∈ segmentPaths kmem file header i}

/-- A bound on the frames needed to map segment `i`. -/
def segmentCost (kmem : KernelMemory) (file : RamdiskFile) (header : ElfHeader) (i : ℕ) : ℕ :=
  4 * ((programHeader kmem file header i).memsz.toNat / 4096 + 2)

/-- The loader's checks as statements about numbers, for a segment that does not wrap. -/
lemma ProgramHeader.bounds {phdr : ProgramHeader} {size : UInt64} (hacc : phdr.isAccepted size = true)
    (hfits : phdr.Fits) : 65536 ≤ phdr.vaddr.toNat ∧
      phdr.vaddr.toNat + phdr.memsz.toNat < 2 ^ 47 ∧ phdr.filesz.toNat ≤ phdr.memsz.toNat := by
  simp only [ProgramHeader.isAccepted, gt_iff_lt, ge_iff_le, not_or, decide_eq_true_eq] at hacc
  obtain ⟨hsz, -, hmin, htop⟩ := hacc
  have hsum : (phdr.vaddr + phdr.memsz).toNat = phdr.vaddr.toNat + phdr.memsz.toNat :=
    Word.toNat_add_of_lt _ _ hfits
  rw [UInt64.not_lt, UInt64.le_iff_toNat_le] at hsz
  rw [UInt64.not_lt, userImageMin_le_iff] at hmin
  rw [UInt64.not_le, lt_userTop_iff, hsum] at htop
  exact ⟨hmin, htop, hsz⟩

/-- Noting which bytes were read is invisible to the address space. -/
lemma noteReads_growth (hpool : Pool s F) (first length : ℕ) :
    Growth A p s (s.noteReads first length) F F where
  pool := hpool.congr (fun _ _ => rfl) rfl rfl rfl
  hhdm := rfl
  kernelCr3 := rfl
  nodes := rfl
  frame _ _ _ := rfl
  upper _ _ := rfl
  kept _ _ he := he
  only _ _ he := .inl he
  log := ⟨[], by simp [Mm.noteReads]⟩

/-- Header `i`, if it describes a loadable segment, was accepted and its pages are mapped. -/
def SegmentMapped (kmem : KernelMemory) (file : RamdiskFile) (header : ElfHeader) (p : UInt64)
    (s : Mm) (i : ℕ) : Prop :=
  (programHeader kmem file header i).type = 1 → Loadable kmem file header i ∧
    ∀ path ∈ segmentPaths kmem file header i, s.lookup 4 p path ≠ none

/-- The iteration that loads segment `i`. -/
lemma loadSegment_spec {i : ℕ} (hi : i < header.phnum.toNat) (hpool : Pool s F)
    (hsep : Separate s 4 p F)
    (hfits : Loadable kmem file header i → (programHeader kmem file header i).Fits) :
    ∃ F', Growth {path | Loadable kmem file header i ∧ path ∈ segmentPaths kmem file header i} p s
        (loadSegment kmem p file header s i).2 F F' ∧
      ((loadSegment kmem p file header s i).1 = true →
        SegmentMapped kmem file header p (loadSegment kmem p file header s i).2 i) ∧
      F.length ≤ F'.length + segmentCost kmem file header i := by
  set A := {path | Loadable kmem file header i ∧ path ∈ segmentPaths kmem file header i} with hA
  have hnote := noteReads_growth (A := A) (p := p) hpool (header.phoff.toNat + 56 * i) 56
  simp only [loadSegment]
  generalize s.noteReads (header.phoff.toNat + 56 * i) 56 = s₁ at *
  have hsep₁ := hnote.toConserved.separate hsep
  by_cases htype : (programHeader kmem file header i).type = 1
  · by_cases hacc : (programHeader kmem file header i).isAccepted file.size = true
    · have hload : Loadable kmem file header i := ⟨hi, htype, hacc⟩
      obtain ⟨hge, hlt, hsz⟩ := ProgramHeader.bounds hacc (hfits hload)
      obtain ⟨F₂, hmap, hdone, hused⟩ := mapUserRange_spec pageWritable hlt hnote.pool hsep₁
        (by decide)
      have hmap := hmap.mono (B := A) fun path hpath => ⟨hload, hpath⟩
      simp only [htype, hacc, ne_eq, not_true_eq_false, if_false, if_true]
      rcases hr : mapUserRange s₁ p (programHeader kmem file header i).vaddr
        (programHeader kmem file header i).memsz pageWritable with ⟨_ | _, s₂⟩
      · rw [hr] at hmap
        exact ⟨F₂, hnote.trans hmap, by simp, hused⟩
      · rw [hr] at hmap hdone
        have hsep₂ := hmap.toConserved.separate hsep₁
        obtain ⟨hwrite, -⟩ := writeProcessMemory_spec (A := A)
          (fileByte kmem file) (programHeader kmem file header i).offset.toNat hge
          (show _ + (programHeader kmem file header i).filesz.toNat ≤ 2 ^ 47 by omega) hmap.pool hsep₂
        refine ⟨F₂, (hnote.trans hmap).trans hwrite, fun _ _ => ⟨hload, fun path hpath => ?_⟩, hused⟩
        obtain ⟨e, he⟩ := Option.ne_none_iff_exists'.mp (hdone rfl path hpath)
        rw [hwrite.kept _ e he]
        exact Option.some_ne_none e
    · simp only [htype, hacc, ne_eq, not_true_eq_false, if_false]
      exact ⟨F, hnote, by simp, by omega⟩
  · simp only [htype, ne_eq, not_false_eq_true, if_true]
    exact ⟨F, hnote, fun _ h => absurd h htype, by omega⟩

/-- An accepted segment is loaded when its pages are free and there are enough frames. -/
lemma loadSegment_ok {i : ℕ} (hpool : Pool s F) (hsep : Separate s 4 p F)
    (hload : Loadable kmem file header i)
    (hfits : (programHeader kmem file header i).Fits)
    (hnone : ∀ path ∈ segmentPaths kmem file header i, s.lookup 4 p path = none)
    (hlen : segmentCost kmem file header i < F.length) :
    (loadSegment kmem p file header s i).1 = true := by
  obtain ⟨-, htype, hacc⟩ := hload
  obtain ⟨hge, hlt, hsz⟩ := ProgramHeader.bounds hacc hfits
  have hnote := noteReads_growth (A := ∅) (p := p) hpool (header.phoff.toNat + 56 * i) 56
  have hnone₁ : ∀ path ∈ segmentPaths kmem file header i,
      (s.noteReads (header.phoff.toNat + 56 * i) 56).lookup 4 p path = none := hnone
  simp only [loadSegment]
  generalize s.noteReads (header.phoff.toNat + 56 * i) 56 = s₁ at *
  have hsep₁ := hnote.toConserved.separate hsep
  have hok := mapUserRange_ok pageWritable hlt hnote.pool hsep₁ (by decide) hnone₁ hlen
  obtain ⟨F₂, hmap, hdone, -⟩ := mapUserRange_spec pageWritable hlt hnote.pool hsep₁
    (by decide)
  simp only [htype, hacc, ne_eq, not_true_eq_false, if_false, if_true]
  rcases hr : mapUserRange s₁ p (programHeader kmem file header i).vaddr
    (programHeader kmem file header i).memsz pageWritable with ⟨_ | _, s₂⟩
  · rw [hr] at hok
    cases hok
  · rw [hr] at hmap hdone
    refine (writeProcessMemory_spec (A := ∅) _ _ hge (by omega) hmap.pool
      (hmap.toConserved.separate hsep₁)).2 fun a ha ha' => hdone rfl _ ?_
    exact pathOf_mem_pathsOf (by omega) (by omega)

lemma Growth.lookup_ne_none {path : List (Fin 512)} (h : Growth A p s s' F F')
    (hne : s.lookup 4 p path ≠ none) : s'.lookup 4 p path ≠ none := by
  obtain ⟨e, he⟩ := Option.ne_none_iff_exists'.mp hne
  rw [h.kept path e he]
  exact Option.some_ne_none e

lemma SegmentMapped.mono {i : ℕ} (h : SegmentMapped kmem file header p s i)
    (hg : Growth A p s s' F F') : SegmentMapped kmem file header p s' i := fun htype =>
  ⟨(h htype).1, fun path hpath => hg.lookup_ne_none ((h htype).2 path hpath)⟩

/-- The iteration for an accepted segment whose pages could be mapped. -/
lemma loadSegment_of_mapped {i : ℕ} {s' : Mm} (htype : (programHeader kmem file header i).type = 1)
    (hacc : (programHeader kmem file header i).isAccepted file.size = true)
    (hmap : mapUserRange (s.noteReads (header.phoff.toNat + 56 * i) 56) p (programHeader kmem file header i).vaddr
      (programHeader kmem file header i).memsz pageWritable = (true, s')) :
    loadSegment kmem p file header s i =
      writeProcessMemory s' p (programHeader kmem file header i).vaddr (fileByte kmem file)
        (programHeader kmem file header i).offset.toNat (programHeader kmem file header i).filesz.toNat := by
  simp only [loadSegment, htype, ne_eq, not_true_eq_false, if_false, hacc, if_true, hmap]

lemma loadSegment_accepted {i : ℕ} (h : (loadSegment kmem p file header s i).1 = true)
    (htype : (programHeader kmem file header i).type = 1) :
    (programHeader kmem file header i).isAccepted file.size = true := by
  simp only [loadSegment, htype, ne_eq, not_true_eq_false, if_false] at h
  split_ifs at h with hacc
  exact hacc

/-- The loop over the program headers. An iteration is reached when no segment before it was
refused. -/
lemma loadSegments_spec {is : List ℕ} (his : ∀ i ∈ is, i < header.phnum.toNat) (hpool : Pool s F)
    (hsep : Separate s 4 p F)
    (hfits : ∀ before i after, is = before ++ i :: after →
      NoneRefused kmem file header before → Loadable kmem file header i →
      (programHeader kmem file header i).Fits) :
    ∃ F', Growth (loadablePaths kmem file header) p s
        (Loop.forWhile (loadSegment kmem p file header) s is).2 F F' ∧
      ((Loop.forWhile (loadSegment kmem p file header) s is).1 = true → ∀ i ∈ is,
        SegmentMapped kmem file header p
          (Loop.forWhile (loadSegment kmem p file header) s is).2 i) ∧
      F.length ≤ F'.length + (is.map (segmentCost kmem file header)).sum := by
  induction is generalizing s F with
  | nil => exact ⟨F, .refl hpool, by simp, by simp⟩
  | cons i is ih =>
    obtain ⟨F₁, h₁, hmapped₁, hused₁⟩ := loadSegment_spec (his i List.mem_cons_self) hpool hsep
      (hfits [] i is rfl (by simp [NoneRefused]))
    have h₁ := h₁.mono (B := loadablePaths kmem file header) fun path hpath => ⟨i, hpath⟩
    rw [List.map_cons, List.sum_cons]
    cases hr : (loadSegment kmem p file header s i).1 with
    | false =>
      rw [Loop.forWhile_cons_false hr]
      exact ⟨F₁, h₁, by simp, by omega⟩
    | true =>
      rw [Loop.forWhile_cons_true hr]
      obtain ⟨F₂, h₂, hmapped₂, hused₂⟩ := ih (fun j hj => his j (List.mem_cons_of_mem i hj)) h₁.pool
        (h₁.toConserved.separate hsep) fun before j after heq hbefore => by
          refine hfits (i :: before) j after (by rw [heq, List.cons_append]) fun l hl htype => ?_
          rcases List.mem_cons.mp hl with rfl | hl
          · exact loadSegment_accepted hr htype
          · exact hbefore l hl htype
      refine ⟨F₂, h₁.trans h₂, fun hok j hj => ?_, by omega⟩
      rcases List.mem_cons.mp hj with rfl | hj
      · exact (hmapped₁ hr).mono h₂
      · exact hmapped₂ hok j hj

/-- The paths to the pages of the file's accepted segments. -/
def elfPaths (kmem : KernelMemory) (file : RamdiskFile) : Set (List (Fin 512)) :=
  {path | ∃ header, validateElf kmem file = some header ∧ path ∈ loadablePaths kmem file header}

/-- A bound on the frames needed to map the segments of the file. -/
def elfCost (kmem : KernelMemory) (file : RamdiskFile) : ℕ :=
  (validateElf kmem file).elim 0 fun header =>
    ((List.range header.phnum.toNat).map (segmentCost kmem file header)).sum

/-- What a successful `loadElfIntoProcess` has made of the process. -/
structure ElfLoaded (kmem : KernelMemory) (file : RamdiskFile) (process process' : Process)
    (s : Mm) : Prop where
  header : ∃ header, validateElf kmem file = some header ∧
    process' = { process with entry := header.entry, brk := 0x800000 } ∧
    ∀ i < header.phnum.toNat, SegmentMapped kmem file header process.cr3 s i

/-- A file whose header is read and accepted. -/
lemma validateElf_some (h : validateElf kmem file = some header) :
    file.hasHeader = true ∧ header = ElfHeader.read kmem file.data ∧
      header.isValid file.size = true := by
  rw [validateElf] at h
  split_ifs at h with hheader
  dsimp only at h
  split_ifs at h with hvalid
  cases h
  exact ⟨hheader, rfl, hvalid⟩

/-- Loading a file with a valid header is the loop over its program headers. -/
lemma loadElfIntoProcess_some (s : Mm) (process : Process)
    (h : validateElf kmem file = some header) :
    (loadElfIntoProcess kmem s process file).1 = (Loop.forWhile
        (loadSegment kmem process.cr3 file header) (s.noteReads 0 64)
        (List.range header.phnum.toNat)).1 ∧
      (loadElfIntoProcess kmem s process file).2.2 = (Loop.forWhile
        (loadSegment kmem process.cr3 file header) (s.noteReads 0 64)
        (List.range header.phnum.toNat)).2 := by
  simp only [loadElfIntoProcess, h, if_pos (validateElf_some h).1]
  rcases Loop.forWhile (loadSegment kmem process.cr3 file header) (s.noteReads 0 64)
    (List.range header.phnum.toNat) with ⟨_ | _, s₁⟩
  · exact ⟨rfl, rfl⟩
  · exact ⟨rfl, rfl⟩

/-- In a range, the smaller numbers stand before. -/
lemma mem_before_of_range {n i j : ℕ} {before after : List ℕ}
    (h : List.range n = before ++ i :: after) (hj : j < i) : j ∈ before := by
  have hsorted : (before ++ i :: after).Pairwise (· < ·) := h ▸ List.pairwise_lt_range
  have hi : i ∈ List.range n := by
    rw [h]
    exact List.mem_append.mpr (.inr List.mem_cons_self)
  have hmem : j ∈ before ++ i :: after := by
    rw [← h, List.mem_range]
    exact hj.trans (List.mem_range.mp hi)
  rcases List.mem_append.mp hmem with hmem | hmem
  · exact hmem
  · obtain ⟨-, hsorted, -⟩ := List.pairwise_append.mp hsorted
    rcases List.mem_cons.mp hmem with rfl | hmem
    · exact absurd hj (lt_irrefl j)
    · exact absurd ((List.pairwise_cons.mp hsorted).1 j hmem) (not_lt.mpr hj.le)

theorem loadElfIntoProcess_spec (process : Process) (hpool : Pool s F)
    (hsep : Separate s 4 process.cr3 F) (hfits : SegmentsFit kmem file) :
    ∃ F', Growth (elfPaths kmem file) process.cr3 s
        (loadElfIntoProcess kmem s process file).2.2 F F' ∧
      ((loadElfIntoProcess kmem s process file).1 = true →
        ElfLoaded kmem file process (loadElfIntoProcess kmem s process file).2.1
          (loadElfIntoProcess kmem s process file).2.2) ∧
      ((loadElfIntoProcess kmem s process file).1 = false →
        (loadElfIntoProcess kmem s process file).2.1 = process) ∧
      F.length ≤ F'.length + elfCost kmem file := by
  have hnote : Growth (elfPaths kmem file) process.cr3 s
      (if file.hasHeader then s.noteReads 0 64 else s) F F := by
    split_ifs
    · exact noteReads_growth hpool 0 64
    · exact .refl hpool
  simp only [loadElfIntoProcess]
  generalize (if file.hasHeader = true then s.noteReads 0 64 else s) = s₁ at *
  cases hval : validateElf kmem file with
  | none => exact ⟨F, hnote, by simp, by simp, by omega⟩
  | some header =>
    have hcost : elfCost kmem file =
        ((List.range header.phnum.toNat).map (segmentCost kmem file header)).sum := by
      rw [elfCost, hval]
      rfl
    have his : ∀ i ∈ List.range header.phnum.toNat, i < header.phnum.toNat :=
      fun i hi => List.mem_range.mp hi
    obtain ⟨F₂, h₂, hmapped, hused⟩ := loadSegments_spec his hnote.pool (hnote.toConserved.separate hsep)
      fun before i after heq hbefore hload => hfits header hval i hload fun j hj =>
        hbefore j (mem_before_of_range heq (List.mem_range.mp hj))
    have hsub : loadablePaths kmem file header ⊆ elfPaths kmem file := fun path hpath =>
      ⟨header, hval, hpath⟩
    have h₂ := h₂.mono hsub
    rcases hr : Loop.forWhile (loadSegment kmem process.cr3 file header) s₁
      (List.range header.phnum.toNat) with ⟨_ | _, s₂⟩
    · rw [hr] at h₂
      simp only [hr]
      exact ⟨F₂, hnote.trans h₂, by simp, by simp, by omega⟩
    · rw [hr] at h₂ hmapped
      simp only [hr]
      refine ⟨F₂, hnote.trans h₂, fun _ => ⟨header, hval, rfl, fun i hi => ?_⟩, by simp, by omega⟩
      exact hmapped rfl i (List.mem_range.mpr hi)

/-! ### The stack -/

/-- The first address of the stack and the address behind it. -/
abbrev stackBottom : ℕ := 0x7ffffffee000
abbrev stackTop : ℕ := 0x7fffffffe000

lemma userRangeIsValid_iff {address length : UInt64} (hlen : length ≠ 0) :
    userRangeIsValid address length = true ↔
      65536 ≤ address.toNat ∧ address.toNat + length.toNat ≤ 2 ^ 47 := by
  have hpos := (Word.pos_iff_ne_zero length).mpr hlen
  have hone : (1 : UInt64).toNat = 1 := rfl
  have hlen1 : (length - 1).toNat = length.toNat - 1 := by
    rw [UInt64.toNat_sub_of_le _ _ (by rw [UInt64.le_iff_toNat_le]; omega), hone]
  rw [userRangeIsValid, if_neg hlen]
  by_cases hr : address < userImageMin ∨ address ≥ userTop
  · rw [if_pos hr]
    rw [UInt64.lt_iff_toNat_lt, ge_iff_le, UInt64.le_iff_toNat_le] at hr
    have h₁ : userImageMin.toNat = 65536 := rfl
    have h₂ : userTop.toNat = 2 ^ 47 := rfl
    simp only [Bool.false_eq_true, false_iff, not_and]
    omega
  · rw [if_neg hr, decide_eq_true_eq]
    rw [not_or, UInt64.not_lt, userImageMin_le_iff, ge_iff_le, UInt64.not_le, lt_userTop_iff] at hr
    have hsub : (userTop - address).toNat = 2 ^ 47 - address.toNat :=
      UInt64.toNat_sub_of_le _ _ (by rw [UInt64.le_iff_toNat_le, toNat_userTop]; omega)
    rw [UInt64.lt_iff_toNat_lt, hlen1, hsub]
    omega

/-- The addresses from the bottom of the stack up to `stack` are mapped. -/
def StackMapped (p : UInt64) (s : Mm) (stack : UInt64) : Prop :=
  stack.toNat ≤ stackTop ∧ ∀ a : UInt64, stackBottom ≤ a.toNat → a.toNat < stack.toNat →
    s.lookup 4 p (pathOf a) ≠ none

lemma StackMapped.mono {stack : UInt64} (h : StackMapped p s stack) (hg : Growth A p s s' F F') :
    StackMapped p s' stack :=
  ⟨h.1, fun a ha ha' => hg.lookup_ne_none (h.2 a ha ha')⟩

lemma StackMapped.sub {stack : UInt64} {n : ℕ} (h : StackMapped p s stack)
    (hn : stackBottom + n ≤ stack.toNat) :
    (stack - UInt64.ofNat n).toNat = stack.toNat - n ∧ StackMapped p s (stack - UInt64.ofNat n) := by
  have htop := h.1
  have hlt := stack.toNat_lt
  have hofNat : (UInt64.ofNat n).toNat = n := Word.toNat_ofNat_of_lt (by omega)
  have hsub : (stack - UInt64.ofNat n).toNat = stack.toNat - n := by
    rw [UInt64.toNat_sub_of_le _ _ (by rw [UInt64.le_iff_toNat_le]; omega), hofNat]
  refine ⟨hsub, by omega, fun a ha ha' => h.2 a ha (by omega)⟩

/-- Pushing bytes writes to mapped user pages, and succeeds when there is room. -/
lemma pushBytes_spec (stack : UInt64) {data : List UInt8} (hdata : data.length < 2 ^ 64)
    (hpool : Pool s F) (hsep : Separate s 4 p F) :
    Growth A p s (pushBytes s p stack data).2 F F ∧
      (StackMapped p s stack → stackBottom + data.length ≤ stack.toNat →
        (pushBytes s p stack data).1 = some (stack - UInt64.ofNat data.length)) := by
  have hlen : (UInt64.ofNat data.length).toNat = data.length := Word.toNat_ofNat_of_lt hdata
  rw [pushBytes]
  by_cases hcheck : data.length ≠ 0 ∧
      ¬userRangeIsValid (stack - UInt64.ofNat data.length) (UInt64.ofNat data.length) = true
  · simp only [if_pos hcheck]
    refine ⟨.refl hpool, fun hstack hroom => ?_⟩
    obtain ⟨hsub, -⟩ := hstack.sub hroom
    have htop := hstack.1
    have hne : UInt64.ofNat data.length ≠ 0 := by
      rw [← Word.pos_iff_ne_zero, hlen]
      omega
    rw [userRangeIsValid_iff hne] at hcheck
    have hbottom : stackBottom = 0x7ffffffee000 := rfl
    have htop' : stackTop = 0x7fffffffe000 := rfl
    omega
  · simp only [if_neg hcheck]
    by_cases hzero : data.length = 0
    · simp only [hzero]
      exact ⟨.refl hpool, fun _ _ => rfl⟩
    · have hne : UInt64.ofNat data.length ≠ 0 := by
        rw [← Word.pos_iff_ne_zero, hlen]
        omega
      have hvalid : userRangeIsValid (stack - UInt64.ofNat data.length)
          (UInt64.ofNat data.length) = true := by
        by_contra h
        exact hcheck ⟨hzero, h⟩
      rw [userRangeIsValid_iff hne, hlen] at hvalid
      obtain ⟨hwrite, hok⟩ := writeProcessMemory_spec (A := A) (byteOfList data) 0 hvalid.1 hvalid.2 hpool hsep
      rcases hr : writeProcessMemory s p (stack - UInt64.ofNat data.length) (byteOfList data) 0
        data.length with ⟨_ | _, s₁⟩
      · rw [hr] at hwrite hok
        refine ⟨hwrite, fun hstack hroom => ?_⟩
        obtain ⟨hsub, -⟩ := hstack.sub hroom
        have hfalse := hok fun a ha ha' => hstack.2 a (by omega) (by omega)
        cases hfalse
      · rw [hr] at hwrite
        exact ⟨hwrite, fun _ _ => rfl⟩

/-- The number of bytes that strings take on the stack. -/
def stringBytes (strings : List CString) : ℕ := (strings.map fun text => text.length + 1).sum

lemma pushStrings_spec (stack : UInt64) (addresses : List UInt64) {strings : List CString}
    (hlen : stringBytes strings < 2 ^ 64) (hpool : Pool s F) (hsep : Separate s 4 p F) :
    Growth A p s (pushStrings p s stack addresses strings).2 F F ∧
      (StackMapped p s stack → stackBottom + stringBytes strings ≤ stack.toNat →
        ∃ stack' addresses', (pushStrings p s stack addresses strings).1 =
          some (stack', addresses') ∧ StackMapped p s stack' ∧
          stack'.toNat = stack.toNat - stringBytes strings ∧
          addresses'.length = addresses.length + strings.length) := by
  induction strings generalizing s stack addresses with
  | nil => exact ⟨.refl hpool, fun h _ => ⟨stack, addresses, rfl, h, rfl, rfl⟩⟩
  | cons text rest ih =>
    have hsum : stringBytes (text :: rest) = (text ++ [0]).length + stringBytes rest := by
      simp [stringBytes]
    obtain ⟨hpush, hok⟩ := pushBytes_spec (A := A) stack
      (show (text ++ [0]).length < 2 ^ 64 by omega) hpool hsep
    rw [pushStrings]
    rcases hr : pushBytes s p stack (text ++ [0]) with ⟨_ | stack₁, s₁⟩
    · rw [hr] at hpush hok
      refine ⟨hpush, fun hstack hroom => ?_⟩
      have hsome := hok hstack (by omega)
      cases hsome
    · rw [hr] at hpush hok
      obtain ⟨hrest, hok'⟩ := ih stack₁ (stack₁ :: addresses) (by omega) hpush.pool (hpush.toConserved.separate hsep)
      refine ⟨hpush.trans hrest, fun hstack hroom => ?_⟩
      have hsome := hok hstack (by omega)
      obtain ⟨hsub, hstack₁⟩ := hstack.sub (n := (text ++ [0]).length) (by omega)
      simp only [Option.some.injEq] at hsome
      subst hsome
      obtain ⟨stack', addresses', heq, -, hto, hcount⟩ := hok' (hstack₁.mono hpush) (by omega)
      refine ⟨stack', addresses', heq, ?_, by omega, ?_⟩
      · exact ⟨by have := hstack.1; omega, fun a ha ha' => hstack.2 a ha (by omega)⟩
      · simp only [List.length_cons] at hcount ⊢
        omega

lemma pushWords_spec (stack : UInt64) (words : List UInt64) (hpool : Pool s F)
    (hsep : Separate s 4 p F) : Growth A p s (pushWords p s stack words).2 F F ∧
      (StackMapped p s stack → stackBottom + 8 * words.length ≤ stack.toNat →
        ∃ stack', (pushWords p s stack words).1 = some stack') := by
  induction words generalizing s stack with
  | nil => exact ⟨.refl hpool, fun _ _ => ⟨stack, rfl⟩⟩
  | cons value rest ih =>
    have height : (wordBytes value).length = 8 := by simp [wordBytes]
    obtain ⟨hpush, hok⟩ := pushBytes_spec (A := A) stack
      (show (wordBytes value).length < 2 ^ 64 by omega) hpool hsep
    rw [pushWords, pushU64]
    rcases hr : pushBytes s p stack (wordBytes value) with ⟨_ | stack₁, s₁⟩
    · rw [hr] at hpush hok
      refine ⟨hpush, fun hstack hroom => ?_⟩
      rw [List.length_cons] at hroom
      have hsome := hok hstack (by omega)
      cases hsome
    · rw [hr] at hpush hok
      obtain ⟨hrest, hok'⟩ := ih stack₁ hpush.pool
        (hpush.toConserved.separate hsep)
      refine ⟨hpush.trans hrest, fun hstack hroom => ?_⟩
      rw [List.length_cons] at hroom
      have hsome := hok hstack (by omega)
      obtain ⟨hsub, hstack₁⟩ := hstack.sub (n := (wordBytes value).length) (by omega)
      simp only [Option.some.injEq] at hsome
      subst hsome
      exact hok' (hstack₁.mono hpush) (by omega)

/-- The paths to the pages of the stack. -/
def stackPaths : Set (List (Fin 512)) := pathsOf stackBottom stackTop

/-- What a successful `buildUserStack` leaves: the stack is mapped, only the pointer is new. -/
structure StackBuilt (process process' : Process) (s : Mm) : Prop where
  only : ∃ stack, process' = { process with stack := stack }
  mapped : ∀ a : UInt64, stackBottom ≤ a.toNat → a.toNat < stackTop →
    s.lookup 4 process.cr3 (pathOf a) ≠ none

lemma toNat_stackRange : (userStackTop - userStackSize).toNat = stackBottom ∧
    userStackSize.toNat = 65536 ∧ userStackTop.toNat = stackTop := ⟨rfl, rfl, rfl⟩

theorem buildUserStack_spec (process : Process) {argv envp : List CString}
    (hargv : stringBytes argv < 2 ^ 64) (henvp : stringBytes envp < 2 ^ 64) (hpool : Pool s F)
    (hsep : Separate s 4 process.cr3 F) :
    ∃ F', Growth stackPaths process.cr3 s (buildUserStack s process argv envp).2.2 F F' ∧
      ((buildUserStack s process argv envp).1 = true →
        StackBuilt process (buildUserStack s process argv envp).2.1
          (buildUserStack s process argv envp).2.2) ∧
      ((buildUserStack s process argv envp).1 = false →
        (buildUserStack s process argv envp).2.1 = process) ∧
      F.length ≤ F'.length + 72 := by
  obtain ⟨hbase, hsize, -⟩ := toNat_stackRange
  have hbytes : ∀ strings : List CString, stringBytes strings.reverse = stringBytes strings := by
    intro strings
    rw [stringBytes, List.map_reverse, List.sum_reverse]
    rfl
  have hroom : (userStackTop - userStackSize).toNat + userStackSize.toNat < 2 ^ 47 := by decide
  obtain ⟨F₁, h₁, hdone, hused⟩ := mapUserRange_spec pageWritable hroom hpool hsep (by decide)
  rw [hbase, hsize] at h₁ hdone
  have hsep₁ := h₁.toConserved.separate hsep
  rw [buildUserStack]
  rcases hr₁ : mapUserRange s process.cr3 (userStackTop - userStackSize) userStackSize pageWritable
    with ⟨_ | _, s₁⟩
  · rw [hr₁] at h₁
    exact ⟨F₁, h₁, by simp, by simp, hused⟩
  rw [hr₁] at h₁ hdone hsep₁
  obtain ⟨h₂, -⟩ := pushStrings_spec (A := stackPaths) userStackTop []
    (show stringBytes envp.reverse < 2 ^ 64 by rw [hbytes]; exact henvp) h₁.pool hsep₁
  have hsep₂ := h₂.toConserved.separate hsep₁
  rcases hr₂ : pushStrings process.cr3 s₁ userStackTop [] envp.reverse with ⟨_ | ⟨stack₂, env⟩, s₂⟩
  · rw [hr₂] at h₂
    simp only [hr₂]
    exact ⟨F₁, h₁.trans h₂, by simp, by simp, hused⟩
  rw [hr₂] at h₂ hsep₂
  obtain ⟨h₃, -⟩ := pushStrings_spec (A := stackPaths) stack₂ []
    (show stringBytes argv.reverse < 2 ^ 64 by rw [hbytes]; exact hargv) h₂.pool hsep₂
  have hsep₃ := h₃.toConserved.separate hsep₂
  rcases hr₃ : pushStrings process.cr3 s₂ stack₂ [] argv.reverse with ⟨_ | ⟨stack₃, args⟩, s₃⟩
  · rw [hr₃] at h₃
    simp only [hr₂, hr₃]
    exact ⟨F₁, (h₁.trans h₂).trans h₃, by simp, by simp, hused⟩
  rw [hr₃] at h₃ hsep₃
  obtain ⟨h₄, -⟩ := pushWords_spec (A := stackPaths) (stack₃ &&& ~~~0xf)
    ([0] ++ env.reverse ++ [0] ++ args.reverse ++ [UInt64.ofNat argv.length]) h₃.pool hsep₃
  simp only [hr₂, hr₃]
  rcases hr₄ : pushWords process.cr3 s₃ (stack₃ &&& ~~~0xf)
    ([0] ++ env.reverse ++ [0] ++ args.reverse ++ [UInt64.ofNat argv.length]) with ⟨_ | stack₄, s₄⟩
  · rw [hr₄] at h₄
    exact ⟨F₁, ((h₁.trans h₂).trans h₃).trans h₄, by simp, by simp, hused⟩
  · rw [hr₄] at h₄
    have hafter := (h₂.trans h₃).trans h₄
    refine ⟨F₁, h₁.trans hafter, fun _ => ⟨⟨stack₄, rfl⟩, fun a ha ha' => ?_⟩, by simp, hused⟩
    have htop : stackBottom + 65536 = stackTop := rfl
    exact hafter.lookup_ne_none (hdone rfl _ (pathOf_mem_pathsOf (by omega) (by omega)))

/-! ### The whole program -/

/-- The paths that loading the file can map. -/
def imagePaths (kmem : KernelMemory) (file : RamdiskFile) : Set (List (Fin 512)) :=
  elfPaths kmem file ∪ stackPaths

/-- A new address space `p` has been made from the free frames `F`, of which `F'` are left. -/
structure Built (A : Set (List (Fin 512))) (p : UInt64) (s s' : Mm) (F F' : List UInt64) : Prop where
  pool : Pool s' F'
  hhdm : s'.hhdmOffsetValue = s.hhdmOffsetValue
  kernelCr3 : s'.kernelCr3Value = s.kernelCr3Value
  root : p ∈ F
  nodes : s'.nodes 4 p + (F' : Multiset UInt64) = (F : Multiset UInt64)
  frame : ∀ x ∉ F, s'.mem x = s.mem x
  upper : ∀ i : Fin 512, 256 ≤ i.val → s'.mem p i = s.mem (s.kernelCr3Value &&& ~~~0xfff) i
  only : ∀ path e, s'.lookup 4 p path = some e → path ∈ A

/-- The free frames are as before, up to their order, and the others have not been touched. -/
structure Restored (s s' : Mm) (F : List UInt64) : Prop where
  pool : ∃ F', Pool s' F' ∧ (F' : Multiset UInt64) = (F : Multiset UInt64)
  hhdm : s'.hhdmOffsetValue = s.hhdmOffsetValue
  kernelCr3 : s'.kernelCr3Value = s.kernelCr3Value
  frame : ∀ x ∉ F, s'.mem x = s.mem x

lemma Restored.refl (h : Pool s F) : Restored s s F :=
  ⟨⟨F, h, rfl⟩, rfl, rfl, fun _ _ => rfl⟩

lemma NewSpace.built (h : NewSpace p s s' F) : Built A p s s' (p :: F) F where
  pool := h.pool
  hhdm := h.hhdm
  kernelCr3 := h.kernelCr3
  root := List.mem_cons_self
  nodes := by rw [h.nodes, Multiset.singleton_add, Multiset.cons_coe]
  frame x hx := h.frame x fun hxp => hx (hxp ▸ List.mem_cons_self)
  upper := h.upper
  only path e he := by rw [h.lookup] at he; cases he

lemma Built.separate (h : Built A p s s' F F') (hnd : F.Nodup) : Separate s' 4 p F' := by
  rw [Separate, h.nodes]
  exact hnd

/-- The frames of a new address space come from the free list. -/
lemma Built.mem_free (h : Built A p s s' F F') {x : UInt64} (hx : x ∈ s'.nodes 4 p) : x ∈ F := by
  have hmem : x ∈ s'.nodes 4 p + (F' : Multiset UInt64) := Multiset.mem_add.mpr (.inl hx)
  rw [h.nodes] at hmem
  exact Multiset.mem_coe.mp hmem

lemma Built.isFrame (h : Built A p s s' F F') (hpool : Pool s F) {x : UInt64}
    (hx : x ∈ s'.nodes 4 p) : IsFrame s'.hhdmOffsetValue x := by
  rw [h.hhdm]
  exact hpool.frames x (h.mem_free hx)

/-- More frames may be moved to a new address space. -/
lemma Built.conserve {B : Set (List (Fin 512))} {s'' : Mm} {F'' : List UInt64}
    (h : Built A p s s' F F') (hc : Conserved p s' s'' F' F'')
    (honly : ∀ path e, s''.lookup 4 p path = some e → path ∈ B) : Built B p s s'' F F'' where
  pool := hc.pool
  hhdm := hc.hhdm.trans h.hhdm
  kernelCr3 := hc.kernelCr3.trans h.kernelCr3
  root := h.root
  nodes := hc.nodes.trans h.nodes
  frame x hx := by
    have hmem : x ∉ s'.nodes 4 p + (F' : Multiset UInt64) := by
      rw [h.nodes]
      exact fun hx' => hx (Multiset.mem_coe.mp hx')
    rw [Multiset.mem_add, Multiset.mem_coe, not_or] at hmem
    rw [hc.frame x hmem.1 hmem.2, h.frame x hx]
  upper i hi := (hc.upper i hi).trans (h.upper i hi)
  only := honly

/-- A new address space may grow further. -/
lemma Built.grow {s'' : Mm} {F'' : List UInt64} (h : Built A p s s' F F')
    (hg : Growth A p s' s'' F' F'') : Built A p s s'' F F'' :=
  h.conserve hg.toConserved fun path e he => (hg.only path e he).elim (h.only path e) id

/-- Tearing a new address space down again restores the free frames. -/
lemma Built.destroy (h : Built A p s s' F F') (hpool : Pool s F) :
    Restored s (vmmDestroyUserSpace s' p userTop) F := by
  have hp := (hpool.frames p h.root).ne_zero
  obtain ⟨F'', hpool'', hF'', hhdm, hkernel, hframe⟩ :=
    vmmDestroyUserSpace_spec hp h.pool (h.separate hpool.nodup) fun x hx => h.isFrame hpool hx
  refine ⟨⟨F'', hpool'', hF''.trans h.nodes⟩, hhdm.trans h.hhdm, hkernel.trans h.kernelCr3, ?_⟩
  intro x hx
  rw [hframe x fun hx' => hx (h.mem_free hx'), h.frame x hx]

/-- Tearing down another address space `q` after a new one has been built. -/
structure Replaced (p q : UInt64) (s s' s'' : Mm) (F F'' : List UInt64) : Prop where
  pool : Pool s'' F''
  hhdm : s''.hhdmOffsetValue = s.hhdmOffsetValue
  kernelCr3 : s''.kernelCr3Value = s.kernelCr3Value
  nodes : (F'' : Multiset UInt64) + s''.nodes 4 p = (F : Multiset UInt64) + s.nodes 4 q
  frame : ∀ x, x ∉ F → x ∉ s.nodes 4 q → s''.mem x = s.mem x
  upper : ∀ i : Fin 512, 256 ≤ i.val → s''.mem p i = s.mem (s.kernelCr3Value &&& ~~~0xfff) i
  lookup : ∀ path, s''.lookup 4 p path = s'.lookup 4 p path
  image : ∀ x ∈ s'.nodes 4 p, s''.mem x = s'.mem x

lemma Built.replace {q : UInt64} (h : Built A p s s' F F') (hq : q ≠ 0) (hsep : Separate s 4 q F)
    (hframes : ∀ x ∈ s.nodes 4 q, IsFrame s.hhdmOffsetValue x) :
    ∃ F'', Replaced p q s s' (vmmDestroyUserSpace s' q userTop) F F'' := by
  have hmem : ∀ x ∈ s.nodes 4 q, s'.mem x = s.mem x := fun x hx => h.frame x (hsep.notMem hx)
  have hnodes : s'.nodes 4 q = s.nodes 4 q :=
    Radix.collect_congr fun x hx => hmem x (Radix.mem_nodes_of_mem_tables hx)
  have hsep' : Separate s' 4 q F' := by
    rw [Separate, hnodes]
    refine Multiset.nodup_of_le (add_le_add_right ?_ _) hsep
    rw [← h.nodes]
    exact Multiset.le_add_left _ _
  obtain ⟨F'', hpool, hF'', hhdm, hkernel, hframe⟩ := vmmDestroyUserSpace_spec hq h.pool hsep'
    fun x hx => by
      rw [h.hhdm]
      exact hframes x (hnodes ▸ hx)
  rw [hnodes] at hF''
  -- the new tree consists of formerly free frames, so it survives
  have hnew : ∀ x ∈ s'.nodes 4 p, (vmmDestroyUserSpace s' q userTop).mem x = s'.mem x := by
    intro x hx
    refine hframe x fun hxq => ?_
    rw [hnodes] at hxq
    exact hsep.notMem hxq (h.mem_free hx)
  have htab : ∀ x ∈ s'.tables 4 p, (vmmDestroyUserSpace s' q userTop).mem x = s'.mem x :=
    fun x hx => hnew x (Radix.mem_nodes_of_mem_tables hx)
  refine ⟨F'', ?_⟩
  generalize vmmDestroyUserSpace s' q userTop = s'' at *
  have hsame : s''.nodes 4 p = s'.nodes 4 p := Radix.collect_congr htab
  refine
    { pool := hpool
      hhdm := hhdm.trans h.hhdm
      kernelCr3 := hkernel.trans h.kernelCr3
      nodes := ?_
      frame := fun x hxF hxq => ?_
      upper := fun i hi => ?_
      lookup := Radix.lookup_congr htab
      image := hnew }
  · rw [hF'', hsame, ← h.nodes]
    abel
  · rw [hframe x (by rwa [hnodes]), h.frame x hxF]
  · rw [hnew p Radix.self_mem_nodes]
    exact h.upper i hi

/-- A bound on the frames that loading the file needs: the PML4, the segments and the stack. -/
def programCost (kmem : KernelMemory) (file : RamdiskFile) : ℕ := elfCost kmem file + 73

/-- What a successful `loadProgram` answers. -/
structure ProgramLoaded (kmem : KernelMemory) (file : RamdiskFile) (process process' : Process)
    (s s' : Mm) (F : List UInt64) : Prop where
  built : ∃ F', Built (imagePaths kmem file) process'.cr3 s s' F F' ∧
    F.length ≤ F'.length + programCost kmem file
  process : ∃ header stack, validateElf kmem file = some header ∧
    process' = { process with
      cr3 := process'.cr3, entry := header.entry, brk := 0x800000, stack := stack } ∧
    (∀ i < header.phnum.toNat, SegmentMapped kmem file header process'.cr3 s' i) ∧
    ∀ a : UInt64, stackBottom ≤ a.toNat → a.toNat < stackTop →
      s'.lookup 4 process'.cr3 (pathOf a) ≠ none

section ProgramLoaded

variable {process next : Process}

/-- The loader has accepted every segment of a program that has been loaded. -/
lemma ProgramLoaded.bounds {i : ℕ} (h : ProgramLoaded kmem file process next s s' F)
    (hfits : SegmentsFit kmem file) (hheader : validateElf kmem file = some header)
    (hload : Loadable kmem file header i) : 65536 ≤ (programHeader kmem file header i).vaddr.toNat ∧
      (programHeader kmem file header i).vaddr.toNat + (programHeader kmem file header i).memsz.toNat <
        2 ^ 47 := by
  obtain ⟨header', stack, hheader', -, hsegments, -⟩ := h.process
  obtain rfl : header' = header := by
    rw [hheader] at hheader'
    exact (Option.some.inj hheader').symm
  have hnone : NoneRefused kmem file header' (List.range i) := by
    intro j hj htype
    exact (hsegments j ((List.mem_range.mp hj).trans hload.1) htype).1.2.2
  obtain ⟨hge, hlt, -⟩ := ProgramHeader.bounds hload.2.2 (hfits header' hheader i hload hnone)
  exact ⟨hge, hlt⟩

/-- The pages of a loaded program are those of its segments and of its stack. -/
lemma ProgramLoaded.mapped_iff (h : ProgramLoaded kmem file process next s s' F)
    (hfits : SegmentsFit kmem file) (hheader : validateElf kmem file = some header)
    (hv : v.toNat < 2 ^ 47) : s'.lookup 4 next.cr3 (pathOf v) ≠ none ↔
      (∃ i, Loadable kmem file header i ∧ (programHeader kmem file header i).Reaches v) ∨
        stackBottom ≤ v.toNat ∧ v.toNat < stackTop := by
  have hpath : ∀ i, Loadable kmem file header i →
      (pathOf v ∈ segmentPaths kmem file header i ↔ (programHeader kmem file header i).Reaches v) :=
    fun i hload => pathOf_mem_pathsOf_iff (h.bounds hfits hheader hload).2.le hv
  obtain ⟨header', stack, hheader', -, hsegments, hstack⟩ := h.process
  obtain rfl : header' = header := by
    rw [hheader] at hheader'
    exact (Option.some.inj hheader').symm
  constructor
  · intro hmapped
    obtain ⟨e, he⟩ := Option.ne_none_iff_exists'.mp hmapped
    obtain ⟨F', hbuilt, -⟩ := h.built
    rcases hbuilt.only _ e he with ⟨header₁, hheader₁, i, hload, hi⟩ | hmem
    · rw [hheader, Option.some.injEq] at hheader₁
      subst hheader₁
      exact .inl ⟨i, hload, (hpath i hload).mp hi⟩
    · rw [stackPaths, pathOf_mem_pathsOf_iff (by decide) hv] at hmem
      have hbottom : stackBottom % 4096 = 0 := rfl
      have htop : stackTop % 4096 = 0 := rfl
      omega
  · rintro (⟨i, hload, hreaches⟩ | ⟨hge, hlt⟩)
    · exact (hsegments i hload.1 hload.2.1).2 _ ((hpath i hload).mpr hreaches)
    · exact hstack v hge hlt

end ProgramLoaded

/-- `loadProgram` either leaves the free frames as they were or builds the file's image. -/
theorem loadProgram_spec {rd : Ramdisk} (process : Process) {path : CString}
    {argv envp : List CString} (hargv : stringBytes argv < 2 ^ 64)
    (henvp : stringBytes envp < 2 ^ 64) (hpool : Pool s F)
    (hkernel : s.kernelCr3Value &&& ~~~0xfff ∉ F)
    (hfits : ∀ file, ramdiskFind kmem rd path = some file → SegmentsFit kmem file) :
    ((loadProgram kmem rd s process path argv envp).1 = false ∧
        Restored s (loadProgram kmem rd s process path argv envp).2.2 F) ∨
      (loadProgram kmem rd s process path argv envp).1 = true ∧
        ∃ file, ramdiskFind kmem rd path = some file ∧
          ProgramLoaded kmem file process (loadProgram kmem rd s process path argv envp).2.1 s
            (loadProgram kmem rd s process path argv envp).2.2 F := by
  rw [loadProgram]
  cases hfile : ramdiskFind kmem rd path with
  | none => exact .inl ⟨rfl, .refl hpool⟩
  | some file =>
    by_cases hexec : ¬file.executable = true ∨ file.directory = true
    · simp only [if_pos hexec]
      exact .inl ⟨trivial, .refl hpool⟩
    simp only [if_neg hexec]
    rcases createKernelMappedPml4_spec hpool hkernel with ⟨rfl, hnew⟩ | ⟨q, F₁, s₁, rfl, hnew, hq⟩
    · simp only [hnew, if_true]
      exact .inl ⟨trivial, .refl hpool⟩
    have hq0 : q ≠ 0 := (hpool.frames q List.mem_cons_self).ne_zero
    have hbuilt : Built (imagePaths kmem file) q s s₁ (q :: F₁) F₁ := hq.built
    simp only [hnew, if_neg hq0]
    obtain ⟨F₂, h₂, htrue₂, hfalse₂, hused₂⟩ := loadElfIntoProcess_spec { process with cr3 := q } hq.pool
      (hbuilt.separate hpool.nodup) (hfits file hfile)
    have hbuilt₂ := hbuilt.grow (h₂.mono (B := imagePaths kmem file) Set.subset_union_left)
    rcases hr₂ : loadElfIntoProcess kmem s₁ { process with cr3 := q } file with ⟨_ | _, process₂, s₂⟩
    · rw [hr₂] at hbuilt₂ hfalse₂
      obtain rfl : process₂ = { process with cr3 := q } := hfalse₂ rfl
      exact .inl ⟨rfl, hbuilt₂.destroy hpool⟩
    rw [hr₂] at hbuilt₂ htrue₂
    obtain ⟨header, hval, rfl, hseg⟩ := (htrue₂ rfl).header
    obtain ⟨F₃, h₃, htrue₃, hfalse₃, hused₃⟩ := buildUserStack_spec
      { process with cr3 := q, entry := header.entry, brk := 0x800000 } hargv henvp
      hbuilt₂.pool (hbuilt₂.separate hpool.nodup)
    have hbuilt₃ := hbuilt₂.grow (h₃.mono (B := imagePaths kmem file) Set.subset_union_right)
    dsimp only
    rcases hr₃ : buildUserStack s₂ { process with cr3 := q, entry := header.entry, brk := 0x800000 }
      argv envp with ⟨_ | _, process₃, s₃⟩
    · rw [hr₃] at hbuilt₃ hfalse₃
      obtain rfl := hfalse₃ rfl
      exact .inl ⟨rfl, hbuilt₃.destroy hpool⟩
    · rw [hr₃] at hbuilt₃ htrue₃ h₃
      obtain ⟨⟨stack, rfl⟩, hstack⟩ := htrue₃ rfl
      refine .inr ⟨rfl, file, rfl, ⟨F₃, hbuilt₃, ?_⟩, header, stack, hval, rfl, fun i hi => ?_, hstack⟩
      · rw [List.length_cons, programCost]
        omega
      · exact (hseg i hi).mono h₃

end Xbks
