import Xbks.Process.Boot
import Xbks.Process.Contents

/-!
# The image of a program

A program whose segments are within bounds is loaded exactly: the pages of its segments are mapped and no
others, they hold the bytes of the file and zeros everywhere else. Loading succeeds exactly when no two
segments have a page in common, provided there are enough frames.
-/

namespace Xbks

variable {kmem : KernelMemory} {file : RamdiskFile} {header : ElfHeader} {p : UInt64} {s s' : Mm}
  {F : List UInt64} {m m' : Memory UInt8} {i : ℕ} {done is : List ℕ}

/-! ### Segments -/

/-- The bounds of a segment, over the natural numbers. -/
structure ProgramHeader.InBounds (phdr : ProgramHeader) (size : UInt64) : Prop where
  filesz : phdr.filesz.toNat ≤ phdr.memsz.toNat
  offset : phdr.offset.toNat + phdr.filesz.toNat ≤ size.toNat
  low : 65536 ≤ phdr.vaddr.toNat
  high : phdr.vaddr.toNat + phdr.memsz.toNat < 2 ^ 47

lemma ProgramHeader.InBounds.isAccepted {phdr : ProgramHeader} {size : UInt64} (h : phdr.InBounds size) :
    phdr.isAccepted size = true := by
  have hsize := size.toNat_lt
  have hfilesz := h.filesz
  have hoffset := h.offset
  have hhigh := h.high
  have hend : (phdr.offset + phdr.filesz).toNat = phdr.offset.toNat + phdr.filesz.toNat :=
    Word.toNat_add_of_lt _ _ (by omega)
  have htop : (phdr.vaddr + phdr.memsz).toNat = phdr.vaddr.toNat + phdr.memsz.toNat :=
    Word.toNat_add_of_lt _ _ (by omega)
  simp only [ProgramHeader.isAccepted, gt_iff_lt, ge_iff_le, not_or, decide_eq_true_eq]
  refine ⟨?_, ?_, ?_, ?_⟩
  · rw [UInt64.not_lt, UInt64.le_iff_toNat_le]
    exact hfilesz
  · rw [UInt64.not_lt, UInt64.le_iff_toNat_le, hend]
    exact hoffset
  · rw [UInt64.not_lt, userImageMin_le_iff]
    exact h.low
  · rw [UInt64.not_le, lt_userTop_iff, htop]
    exact hhigh

/-- Header `i` describes a segment that is to be loaded. -/
def IsSegment (kmem : KernelMemory) (file : RamdiskFile) (header : ElfHeader) (i : ℕ) : Prop :=
  (programHeader kmem file header i).type = 1

/-- The addresses of the pages of segment `i`. -/
def segmentSpan (kmem : KernelMemory) (file : RamdiskFile) (header : ElfHeader) (i : ℕ) : Set ℕ :=
  pageSpan (programHeader kmem file header i).vaddr.toNat
    ((programHeader kmem file header i).vaddr.toNat + (programHeader kmem file header i).memsz.toNat)

/-- The addresses of the bytes of segment `i` that come from the file. -/
def fileSpan (kmem : KernelMemory) (file : RamdiskFile) (header : ElfHeader) (i : ℕ) : Set ℕ :=
  Set.Ico (programHeader kmem file header i).vaddr.toNat
    ((programHeader kmem file header i).vaddr.toNat + (programHeader kmem file header i).filesz.toNat)

/-- No two of the segments have a page in common. -/
def SpansApart (kmem : KernelMemory) (file : RamdiskFile) (header : ElfHeader) (is : List ℕ) : Prop :=
  is.Pairwise fun i j => IsSegment kmem file header i → IsSegment kmem file header j →
    Disjoint (segmentSpan kmem file header i) (segmentSpan kmem file header j)

/-- The memory is the image of the segments with these numbers. -/
structure ImageOf (kmem : KernelMemory) (file : RamdiskFile) (header : ElfHeader) (is : List ℕ)
    (m : Memory UInt8) : Prop where
  mapped : ∀ a, m a ≠ none ↔ ∃ i ∈ is, IsSegment kmem file header i ∧ a ∈ segmentSpan kmem file header i
  bytes : ∀ i ∈ is, IsSegment kmem file header i →
    ∀ k < (programHeader kmem file header i).filesz.toNat,
      m ((programHeader kmem file header i).vaddr.toNat + k) =
        some (fileByte kmem file ((programHeader kmem file header i).offset.toNat + k))
  zeros : ∀ a, m a ≠ none → (∀ i ∈ is, IsSegment kmem file header i → a ∉ fileSpan kmem file header i) →
    m a = some 0

lemma ImageOf.nil (h : ∀ a, m a = none) : ImageOf kmem file header [] m where
  mapped a := by simp [h a]
  bytes i hi := absurd hi List.not_mem_nil
  zeros a ha := absurd (h a) ha

/-- A header of another type changes nothing. -/
lemma ImageOf.skip (h : ImageOf kmem file header done m) (hi : ¬IsSegment kmem file header i) :
    ImageOf kmem file header (done ++ [i]) m := by
  have hiff : ∀ j, (j ∈ done ++ [i] ∧ IsSegment kmem file header j) ↔
      (j ∈ done ∧ IsSegment kmem file header j) := by
    intro j
    rw [List.mem_append, List.mem_singleton]
    constructor
    · rintro ⟨hj | rfl, hseg⟩
      · exact ⟨hj, hseg⟩
      · exact absurd hseg hi
    · rintro ⟨hj, hseg⟩
      exact ⟨.inl hj, hseg⟩
  refine ⟨fun a => (h.mapped a).trans ?_, fun j hj hseg => ?_, fun a ha hout => ?_⟩
  · simp only [← and_assoc, hiff]
  · exact h.bytes j ((hiff j).mp ⟨hj, hseg⟩).1 hseg
  · exact h.zeros a ha fun j hj hseg => hout j (List.mem_append_left _ hj) hseg

lemma mem_segmentSpan_of_mem_fileSpan {a : ℕ} (hb : (programHeader kmem file header i).InBounds file.size)
    (ha : a ∈ fileSpan kmem file header i) : a ∈ segmentSpan kmem file header i := by
  have hsz := hb.filesz
  rw [fileSpan, Set.mem_Ico] at ha
  rw [segmentSpan, pageSpan, Set.mem_Ico]
  omega

/-- The pages of one more segment, with its bytes. -/
lemma ImageOf.load (h : ImageOf kmem file header done m) (hseg : IsSegment kmem file header i)
    (hb : (programHeader kmem file header i).InBounds file.size)
    (hadded : Memory.Added 0 (segmentSpan kmem file header i) m m') :
    ImageOf kmem file header (done ++ [i]) (m'.store (programHeader kmem file header i).vaddr.toNat
      (sourceBytes (fileByte kmem file) (programHeader kmem file header i).offset.toNat
        (programHeader kmem file header i).filesz.toNat)) := by
  set phdr := programHeader kmem file header i with hphdr
  have hlen := length_sourceBytes (fileByte kmem file) phdr.offset.toNat phdr.filesz.toNat
  have hinside : ∀ a, a ∈ fileSpan kmem file header i ↔
      phdr.vaddr.toNat ≤ a ∧ a < phdr.vaddr.toNat + phdr.filesz.toNat := fun a => Set.mem_Ico
  have hfile : ∀ k < phdr.filesz.toNat, m'.store phdr.vaddr.toNat
      (sourceBytes (fileByte kmem file) phdr.offset.toNat phdr.filesz.toNat) (phdr.vaddr.toNat + k) =
        some (fileByte kmem file (phdr.offset.toNat + k)) := by
    intro k hk
    rw [Memory.store_inside (by omega) (by omega), Nat.add_sub_cancel_left]
    simp [sourceBytes, hk]
  have houtside : ∀ a, a ∉ fileSpan kmem file header i → m'.store phdr.vaddr.toNat
      (sourceBytes (fileByte kmem file) phdr.offset.toNat phdr.filesz.toNat) a = m' a := by
    intro a ha
    rw [hinside] at ha
    exact Memory.store_outside (by omega)
  have hcells : ∀ a, m'.store phdr.vaddr.toNat
      (sourceBytes (fileByte kmem file) phdr.offset.toNat phdr.filesz.toNat) a ≠ none ↔ m' a ≠ none := by
    intro a
    rw [ne_eq, Memory.store_eq_none_iff]
    intro x hge hlt
    rw [hlen] at hlt
    rw [hadded.filled x (mem_segmentSpan_of_mem_fileSpan hb ((hinside x).mpr ⟨hge, hlt⟩))]
    exact Option.some_ne_none 0
  refine ⟨fun a => ?_, fun j hj hseg' k hk => ?_, fun a ha hout => ?_⟩
  · rw [hcells, hadded.ne_none_iff, h.mapped]
    constructor
    · rintro (ha | ⟨j, hj, hjseg, ha⟩)
      · exact ⟨i, by simp, hseg, ha⟩
      · exact ⟨j, by simp [hj], hjseg, ha⟩
    · rintro ⟨j, hj, hjseg, ha⟩
      rcases List.mem_append.mp hj with hj | hj
      · exact .inr ⟨j, hj, hjseg, ha⟩
      · rw [List.mem_singleton] at hj
        exact .inl (hj ▸ ha)
  · rcases List.mem_append.mp hj with hj | hj
    · -- the earlier segment has none of the new pages
      have hbyte := h.bytes j hj hseg' k hk
      have hold : (programHeader kmem file header j).vaddr.toNat + k ∉ segmentSpan kmem file header i := by
        intro ha
        rw [hadded.fresh _ ha] at hbyte
        cases hbyte
      rw [houtside _ fun ha => hold (mem_segmentSpan_of_mem_fileSpan hb ha), hadded.same _ hold]
      exact hbyte
    · rw [List.mem_singleton] at hj
      subst hj
      exact hfile k hk
  · have hnot := hout i (by simp) hseg
    rw [hcells] at ha
    rw [houtside a hnot]
    by_cases hspan : a ∈ segmentSpan kmem file header i
    · exact hadded.filled a hspan
    · rw [hadded.same a hspan] at ha ⊢
      exact h.zeros a ha fun j hj hjseg => hout j (List.mem_append_left _ hj) hjseg

/-! ### The loop -/

/-- Header `i`, if it describes a segment, describes one within bounds. -/
def HeaderOk (kmem : KernelMemory) (file : RamdiskFile) (header : ElfHeader) (i : ℕ) : Prop :=
  IsSegment kmem file header i → (programHeader kmem file header i).InBounds file.size

lemma HeaderOk.fits (h : HeaderOk kmem file header i) (hload : Loadable kmem file header i) :
    (programHeader kmem file header i).Fits := by
  have hhigh := (h hload.2.1).high
  rw [ProgramHeader.Fits]
  omega

/-- What an iteration does to the image. -/
lemma loadSegment_image (hok : HeaderOk kmem file header i) (hpool : Pool s F) (hsep : Separate s 4 p F)
    (himage : ImageOf kmem file header done (s.view p))
    (h : loadSegment kmem p file header s i = (true, s')) :
    ImageOf kmem file header (done ++ [i]) (s'.view p) ∧
    (IsSegment kmem file header i → ∀ a ∈ segmentSpan kmem file header i, s.view p a = none) := by
  have hnote := noteReads_growth (A := ∅) (p := p) hpool (header.phoff.toNat + 56 * i) 56
  have hview : (s.noteReads (header.phoff.toNat + 56 * i) 56).view p = s.view p := rfl
  simp only [loadSegment] at h
  generalize s.noteReads (header.phoff.toNat + 56 * i) 56 = s₁ at *
  have hsep₁ := hnote.toConserved.separate hsep
  by_cases htype : IsSegment kmem file header i
  · have hb := hok htype
    have htype' : (programHeader kmem file header i).type = 1 := htype
    simp only [htype', hb.isAccepted, ne_eq, not_true_eq_false, if_false, if_true] at h
    rcases hr : mapUserRange s₁ p (programHeader kmem file header i).vaddr
      (programHeader kmem file header i).memsz pageWritable with ⟨_ | _, s₂⟩
    · rw [hr] at h
      cases h
    · rw [hr] at h
      dsimp only at h
      have hadded : Memory.Added 0 (segmentSpan kmem file header i) (s₁.view p) (s₂.view p) :=
        mapUserRange_added hb.high hnote.pool hsep₁ (by decide) hr
      obtain ⟨F₂, hmap, -⟩ := mapUserRange_spec pageWritable hb.high hnote.pool hsep₁ (by decide)
      rw [hr] at hmap
      have hfilesz := hb.filesz
      have hhigh := hb.high
      rw [hview] at hadded
      rw [writeProcessMemory_view hb.low (by omega) hmap.pool (hmap.toConserved.separate hsep₁) h]
      exact ⟨himage.load htype hb hadded, fun _ => hadded.fresh⟩
  · have htype' : ¬(programHeader kmem file header i).type = 1 := htype
    simp only [htype', ne_eq, not_false_eq_true, if_true] at h
    cases h
    rw [hview]
    exact ⟨himage.skip htype, fun hseg => absurd hseg htype⟩

lemma loadSegments_image (hok : ∀ i ∈ is, HeaderOk kmem file header i)
    (his : ∀ i ∈ is, i < header.phnum.toNat) (hpool : Pool s F) (hsep : Separate s 4 p F)
    (himage : ImageOf kmem file header done (s.view p)) (hapart : SpansApart kmem file header done)
    (h : Loop.forWhile (loadSegment kmem p file header) s is = (true, s')) :
    ImageOf kmem file header (done ++ is) (s'.view p) ∧ SpansApart kmem file header (done ++ is) := by
  induction is generalizing s F done with
  | nil =>
    cases h
    rw [List.append_nil]
    exact ⟨himage, hapart⟩
  | cons i is ih =>
    obtain ⟨hi, hrest⟩ := List.forall_mem_cons.mp hok
    obtain ⟨hlt, hrest'⟩ := List.forall_mem_cons.mp his
    obtain ⟨F₁, hg, -⟩ := loadSegment_spec hlt hpool hsep hi.fits
    rcases hr : loadSegment kmem p file header s i with ⟨_ | _, s₁⟩
    · have hno : (loadSegment kmem p file header s i).1 = false := by rw [hr]
      rw [Loop.forWhile_cons_false hno] at h
      cases h
    · have hyes : (loadSegment kmem p file header s i).1 = true := by rw [hr]
      rw [Loop.forWhile_cons_true hyes, hr] at h
      rw [hr] at hg
      obtain ⟨himage₁, hfresh⟩ := loadSegment_image hi hpool hsep himage hr
      have hapart₁ : SpansApart kmem file header (done ++ [i]) := by
        rw [SpansApart, List.pairwise_append]
        refine ⟨hapart, List.pairwise_singleton _ i, fun j hj l hl hjseg hlseg => ?_⟩
        rw [List.mem_singleton] at hl
        subst hl
        rw [Set.disjoint_left]
        intro a ha ha'
        exact (himage.mapped a).mpr ⟨j, hj, hjseg, ha⟩ (hfresh hlseg a ha')
      obtain ⟨himage', hapart'⟩ := ih hrest hrest' hg.pool (hg.toConserved.separate hsep) himage₁ hapart₁ h
      rw [List.append_assoc] at himage' hapart'
      exact ⟨himage', hapart'⟩

/-- A bound on the frames that header `i` needs: those of its pages and of their tables. -/
def headerCost (kmem : KernelMemory) (file : RamdiskFile) (header : ElfHeader) (i : ℕ) : ℕ :=
  if (programHeader kmem file header i).type = 1 then segmentCost kmem file header i else 0

/-- An iteration succeeds when none of the segment's pages is mapped, and needs no more frames than that. -/
lemma loadSegment_enough (hi : i < header.phnum.toNat) (hok : HeaderOk kmem file header i) (hpool : Pool s F)
    (hsep : Separate s 4 p F)
    (hfree : IsSegment kmem file header i → ∀ a ∈ segmentSpan kmem file header i, s.view p a = none)
    (hlen : headerCost kmem file header i < F.length) : ∃ s' F', Pool s' F' ∧ Separate s' 4 p F' ∧
    loadSegment kmem p file header s i = (true, s') ∧
    F.length ≤ F'.length + headerCost kmem file header i := by
  by_cases htype : IsSegment kmem file header i
  · have hb := hok htype
    have hhigh := hb.high
    have hload : Loadable kmem file header i := ⟨hi, htype, hb.isAccepted⟩
    have htype' : (programHeader kmem file header i).type = 1 := htype
    rw [headerCost, if_pos htype'] at hlen ⊢
    have hnone : ∀ path ∈ segmentPaths kmem file header i, s.lookup 4 p path = none := by
      rintro path ⟨v, hal, hge, hlt, rfl⟩
      rw [← view_eq_none_iff (by omega)]
      refine hfree htype v.toNat ?_
      rw [segmentSpan, pageSpan, Set.mem_Ico]
      omega
    obtain ⟨F', hg, -, hused⟩ := loadSegment_spec hi hpool hsep hok.fits
    exact ⟨_, F', hg.pool, hg.toConserved.separate hsep,
      Prod.ext (loadSegment_ok hpool hsep hload (hok.fits hload) hnone hlen) rfl, hused⟩
  · have hnote := noteReads_growth (A := ∅) (p := p) hpool (header.phoff.toNat + 56 * i) 56
    have htype' : (programHeader kmem file header i).type ≠ 1 := htype
    refine ⟨_, F, hnote.pool, hnote.toConserved.separate hsep, ?_, by omega⟩
    simp only [loadSegment, if_pos htype']

/-- The loop succeeds when no two segments have a page in common. -/
lemma loadSegments_enough (hok : ∀ i ∈ is, HeaderOk kmem file header i)
    (his : ∀ i ∈ is, i < header.phnum.toNat) (hpool : Pool s F) (hsep : Separate s 4 p F)
    (himage : ImageOf kmem file header done (s.view p)) (hapart : SpansApart kmem file header (done ++ is))
    (hlen : (is.map (headerCost kmem file header)).sum < F.length) :
    (Loop.forWhile (loadSegment kmem p file header) s is).1 = true := by
  induction is generalizing s F done with
  | nil => rfl
  | cons i is ih =>
    obtain ⟨hi, hrest⟩ := List.forall_mem_cons.mp hok
    obtain ⟨hlt, hrest'⟩ := List.forall_mem_cons.mp his
    rw [List.map_cons, List.sum_cons] at hlen
    have hfree : IsSegment kmem file header i → ∀ a ∈ segmentSpan kmem file header i, s.view p a = none := by
      intro hseg a ha
      by_contra hsome
      obtain ⟨j, hj, hjseg, ha'⟩ := (himage.mapped a).mp hsome
      obtain ⟨-, -, hcross⟩ := List.pairwise_append.mp hapart
      exact Set.disjoint_left.mp (hcross j hj i List.mem_cons_self hjseg hseg) ha' ha
    obtain ⟨s₁, F₁, hpool₁, hsep₁, hload, hused⟩ := loadSegment_enough hlt hi hpool hsep hfree (by omega)
    obtain ⟨himage₁, -⟩ := loadSegment_image hi hpool hsep himage hload
    have hyes : (loadSegment kmem p file header s i).1 = true := by rw [hload]
    rw [Loop.forWhile_cons_true hyes, hload]
    refine ih hrest hrest' hpool₁ hsep₁ himage₁ ?_ (by omega)
    rw [List.append_assoc]
    exact hapart

/-! ### Programs -/

lemma spansApart_range {n : ℕ} : SpansApart kmem file header (List.range n) ↔
    ∀ i < n, ∀ j < n, i ≠ j → IsSegment kmem file header i → IsSegment kmem file header j →
      Disjoint (segmentSpan kmem file header i) (segmentSpan kmem file header j) := by
  rw [SpansApart, List.pairwise_iff_getElem]
  simp only [List.length_range, List.getElem_range]
  constructor
  · intro h i hi j hj hne hiseg hjseg
    rcases Nat.lt_or_gt_of_ne hne with hlt | hgt
    · exact h i j hi hj hlt hiseg hjseg
    · exact (h j i hj hi hgt hjseg hiseg).symm
  · intro h i j hi hj hlt
    exact h i hi j hj (Nat.ne_of_lt hlt)

/-- Enough frames for all segments. -/
def imageCost (kmem : KernelMemory) (file : RamdiskFile) (header : ElfHeader) : ℕ :=
  ((List.range header.phnum.toNat).map (headerCost kmem file header)).sum

/-- Loading a file whose segments are within bounds into an empty address space: after a success the memory
is exactly the image of the file, and with enough frames it succeeds exactly when no two segments have a page
in common. -/
theorem loadElf_image (process : Process) (hval : validateElf kmem file = some header)
    (hok : ∀ i < header.phnum.toNat, HeaderOk kmem file header i) (hpool : Pool s F)
    (hsep : Separate s 4 process.cr3 F) (hempty : ∀ a, s.view process.cr3 a = none) :
    ((loadElfIntoProcess kmem s process file).1 = true →
      ImageOf kmem file header (List.range header.phnum.toNat)
        ((loadElfIntoProcess kmem s process file).2.2.view process.cr3)) ∧
    (imageCost kmem file header < F.length →
      ((loadElfIntoProcess kmem s process file).1 = true ↔
        ∀ i < header.phnum.toNat, ∀ j < header.phnum.toNat, i ≠ j → IsSegment kmem file header i →
          IsSegment kmem file header j →
          Disjoint (segmentSpan kmem file header i) (segmentSpan kmem file header j))) := by
  have his : ∀ i ∈ List.range header.phnum.toNat, i < header.phnum.toNat := fun i hi => List.mem_range.mp hi
  have hok' : ∀ i ∈ List.range header.phnum.toNat, HeaderOk kmem file header i := fun i hi => hok i (his i hi)
  have hnote : Growth (∅ : Set (List (Fin 512))) process.cr3 s (s.noteReads 0 64) F F :=
    noteReads_growth hpool 0 64
  have hsep₁ := hnote.toConserved.separate hsep
  obtain ⟨hfst, hsnd⟩ := loadElfIntoProcess_some s process hval
  have hloaded : (loadElfIntoProcess kmem s process file).1 = true →
      ImageOf kmem file header (List.range header.phnum.toNat)
        ((loadElfIntoProcess kmem s process file).2.2.view process.cr3) ∧
      SpansApart kmem file header (List.range header.phnum.toNat) := by
    intro htrue
    rw [hfst] at htrue
    rw [hsnd]
    have hloop := loadSegments_image hok' his hnote.pool hsep₁ (.nil hempty) List.Pairwise.nil
      (Prod.ext htrue rfl)
    rwa [List.nil_append] at hloop
  refine ⟨fun htrue => (hloaded htrue).1, fun hframes => ?_⟩
  rw [← spansApart_range]
  refine ⟨fun htrue => (hloaded htrue).2, fun hapart => ?_⟩
  rw [hfst]
  exact loadSegments_enough hok' his hnote.pool hsep₁ (.nil hempty) hapart hframes

/-- An ELF file with two segments. The first one is a page; the second one starts before the end of a page, and
more than a page of zeros follows its 16 bytes. -/
def pairProgram : List UInt8 :=
  elfHeaderBytes 2 ++ segmentBytes 0 0x10000 176 0x1000 ++ segmentBytes 176 0x20ff8 16 0x1018 ++
    (List.range 16).map UInt8.ofNat

def pairMemory : KernelMemory := fun a => pairProgram.getD (a.toNat - 0x1000) 0

def pairFile : RamdiskFile :=
  { path := cstr "/pair", data := 0x1000, size := 192, directory := false, executable := true }

def pairHeader : ElfHeader :=
  { ident := [0x7f, 0x45, 0x4c, 0x46, 2, 1], machine := 62, entry := 0x10000, phoff := 64,
    phentsize := 56, phnum := 2 }

lemma pair_segments :
    programHeader pairMemory pairFile pairHeader 0 = ⟨1, 0, 0x10000, 176, 0x1000⟩ ∧
    programHeader pairMemory pairFile pairHeader 1 = ⟨1, 176, 0x20ff8, 16, 0x1018⟩ := by
  decide +kernel

lemma pair_index {i : ℕ} (h : i < pairHeader.phnum.toNat) : i = 0 ∨ i = 1 := by
  have hnum : pairHeader.phnum.toNat = 2 := rfl
  omega

lemma pair_apart : Disjoint (segmentSpan pairMemory pairFile pairHeader 0)
    (segmentSpan pairMemory pairFile pairHeader 1) := by
  obtain ⟨hfirst, hsecond⟩ := pair_segments
  have hvaddr : (0x10000 : UInt64).toNat = 0x10000 := rfl
  have hvaddr' : (0x20ff8 : UInt64).toNat = 0x20ff8 := rfl
  have hmemsz : (0x1000 : UInt64).toNat = 0x1000 := rfl
  rw [Set.disjoint_left]
  intro a ha ha'
  rw [segmentSpan, hfirst, pageSpan, Set.mem_Ico] at ha
  rw [segmentSpan, hsecond, pageSpan, Set.mem_Ico] at ha'
  dsimp only at ha ha'
  omega

/-- Both segments are loaded into an empty address space, and the bytes of the second one are followed by zeros
in its last pages. -/
theorem loadElf_image_small : ∃ process s,
    createKernelMappedPml4 (mmInit (smallBoot 0x10000).memory) = (Process.cr3 process, s) ∧
    (loadElfIntoProcess pairMemory s process pairFile).1 = true ∧
    ImageOf pairMemory pairFile pairHeader [0, 1]
      ((loadElfIntoProcess pairMemory s process pairFile).2.2.view process.cr3) := by
  obtain ⟨process, s, F, hnew, hpool, hsep, hlookup, hlen⟩ := smallBoot_new 0x10000
  obtain ⟨hfirst, hsecond⟩ := pair_segments
  have hempty : ∀ a, s.view process.cr3 a = none := by
    intro a
    by_cases ha : a < 2 ^ 47
    · have hv : (UInt64.ofNat a).toNat = a := Word.toNat_ofNat_of_lt (by omega)
      rw [← hv, view_eq_none_iff (by omega)]
      exact hlookup _
    · exact if_neg ha
  have hok : ∀ i < pairHeader.phnum.toNat, HeaderOk pairMemory pairFile pairHeader i := by
    intro i hi _
    rcases pair_index hi with rfl | rfl
    · rw [hfirst]
      exact ⟨by decide, by decide, by decide, by decide⟩
    · rw [hsecond]
      exact ⟨by decide, by decide, by decide, by decide⟩
  have hcost : imageCost pairMemory pairFile pairHeader = 24 := by
    show ([0, 1].map (headerCost pairMemory pairFile pairHeader)).sum = 24
    rw [List.map_cons, List.map_singleton, List.sum_cons, List.sum_singleton, headerCost, headerCost, segmentCost,
      segmentCost, hfirst, hsecond]
    rfl
  have hval : validateElf pairMemory pairFile = some pairHeader := by decide +kernel
  obtain ⟨himage, hiff⟩ := loadElf_image process hval hok hpool hsep hempty
  have htrue := (hiff (by omega)).mpr fun i hi j hj hne _ _ => by
    rcases pair_index hi with rfl | rfl <;> rcases pair_index hj with rfl | rfl
    · exact absurd rfl hne
    · exact pair_apart
    · exact pair_apart.symm
    · exact absurd rfl hne
  exact ⟨process, s, hnew, htrue, himage htrue⟩

end Xbks
