import Xbks.Process.Statics
import Xbks.Properties.Heap

/-!
# Programs that overwrite the process table

A segment whose end wraps around is copied through the kernel's half of the page tables, and nothing keeps it
from the process table. When the program cannot be loaded its `execve` changes nothing else.
-/

namespace Xbks

variable {s : Mm} {k k' : Kernel} {F : List UInt64} {l : List Slot} {p v x : UInt64} {first : ℕ}
  {words : List UInt64}

/-! ### Words copied over memory -/

/-- Memory in which the words from index `first` of frame `x` on have been replaced. -/
def overwritten (mem : UInt64 → Page) (x : UInt64) (first : ℕ) (words : List UInt64) : UInt64 → Page :=
  fun frame index =>
    if frame = x ∧ first ≤ index.val then words.getD (index - first) (mem frame index) else mem frame index

lemma overwritten_of_ne {mem : UInt64 → Page} {y : UInt64} (h : y ≠ x) :
    overwritten mem x first words y = mem y := by
  funext j
  exact if_neg fun hx => h hx.1

/-- The bytes of a word determine it. -/
lemma word_ext {w w' : UInt64} (h : ∀ n < 8, byteOfWord w n = byteOfWord w' n) : w = w' := by
  rw [← wordOfBytes_wordBytes w, ← wordOfBytes_wordBytes w', wordBytes, wordBytes,
    List.map_congr_left fun n hn => h n (List.mem_range.mp hn)]

/-- A byte of the word at an index of a frame. -/
lemma byte_of_index (s : Mm) (hx : x.toNat % 4096 = 0) (j : Fin 512) {n : ℕ} (hn : n < 8) :
    s.byte (x + UInt64.ofNat (8 * j + n)) = byteOfWord (s.mem x j) n := by
  have hj := j.isLt
  have hlt := x.toNat_lt
  have hsum : (x + UInt64.ofNat (8 * j + n)).toNat = x.toNat + (8 * j + n) := toNat_add_ofNat (by omega)
  have hframe : alignDown (x + UInt64.ofNat (8 * j + n)) pageSize = x := by
    rw [← UInt64.toNat_inj, toNat_alignDown, hsum]
    omega
  have hindex : wordIndex (x + UInt64.ofNat (8 * j + n)) = j := by
    rw [wordIndex, hsum, Fin.ext_iff, Fin.val_ofNat]
    omega
  rw [Mm.byte, hframe, hindex, hsum]
  congr 1
  omega

/-- The bytes after `memcpy`. -/
lemma byte_copyChunk (src : ℕ → UInt8) (address : UInt64) (start : ℕ) {physical : UInt64} (y : UInt64) {n : ℕ}
    (hfits : physical.toNat + n ≤ 2 ^ 64) :
    (copyChunk src s address physical start n).byte y =
      if physical.toNat ≤ y.toNat ∧ y.toNat < physical.toNat + n then
        src (start + (y.toNat - physical.toNat)) else s.byte y := by
  induction n with
  | zero => rw [if_neg (by omega), copyChunk]
  | succ n ih =>
    have hsum : (physical + UInt64.ofNat n).toNat = physical.toNat + n := toNat_add_ofNat (by omega)
    have hlast : (copyChunk src s address physical start (n + 1)).byte y =
        ((copyChunk src s address physical start n).setByte (physical + UInt64.ofNat n) (src (start + n))).byte
          y := rfl
    rw [hlast, byte_setByte, ih (by omega)]
    by_cases hy : y = physical + UInt64.ofNat n
    · have hval : y.toNat = physical.toNat + n := by rw [hy, hsum]
      rw [if_pos hy, if_pos (by omega), hval, Nat.add_sub_cancel_left]
    · have hval : y.toNat ≠ physical.toNat + n := fun h => hy (UInt64.toNat_inj.mp (h.trans hsum.symm))
      rw [if_neg hy]
      exact if_congr (by omega) rfl rfl

/-- Words that are copied over the words of a frame. -/
lemma copyChunk_words {src : ℕ → UInt8} {start : ℕ} (address : UInt64) (hx : x.toNat % 4096 = 0)
    (hfirst : first < 512) (hfits : first + words.length ≤ 512)
    (hsrc : ∀ i < words.length, ∀ n < 8, src (start + (8 * i + n)) = byteOfWord (words.getD i 0) n) :
    (copyChunk src s address (x + UInt64.ofNat (8 * first)) start (8 * words.length)).mem =
      overwritten s.mem x first words := by
  have hlt := x.toNat_lt
  have hphys : (x + UInt64.ofNat (8 * first)).toNat = x.toNat + 8 * first := toNat_add_ofNat (by omega)
  funext y j
  have hj := j.isLt
  by_cases hy : y = x
  · rw [hy]
    apply word_ext
    intro n hn
    have haddr : (x + UInt64.ofNat (8 * j + n)).toNat = x.toNat + (8 * j + n) := toNat_add_ofNat (by omega)
    rw [← byte_of_index _ hx j hn, byte_copyChunk src address start _ (by omega), haddr, hphys, overwritten]
    by_cases hin : first ≤ j.val ∧ j.val < first + words.length
    · have hoff : x.toNat + (8 * j + n) - (x.toNat + 8 * first) = 8 * (j - first) + n := by omega
      have hindex : j - first < words.length := by omega
      rw [if_pos (by omega), if_pos ⟨rfl, hin.1⟩, hoff, hsrc _ hindex n hn,
        List.getD_eq_getElem _ _ hindex, List.getD_eq_getElem _ _ hindex]
    · rw [if_neg (by omega), byte_of_index _ hx j hn]
      by_cases hge : first ≤ j.val
      · rw [if_pos ⟨rfl, hge⟩, List.getD_eq_default _ _ (by omega)]
      · rw [if_neg fun h => hge h.2]
  · have hpage : ∀ i < 8 * words.length,
        alignDown (x + UInt64.ofNat (8 * first) + UInt64.ofNat i) pageSize = x := by
      intro i hi
      rw [← UInt64.toNat_inj, toNat_alignDown, toNat_add_ofNat (by omega), hphys]
      omega
    rw [(copyChunk_spec src address start hpage).1 y hy, overwritten_of_ne hy]

/-! ### Loading -/

variable {kmem : KernelMemory} {file : RamdiskFile} {header : ElfHeader}

/-- A file with two segments. The first one is copied to address `v` from index 176 of the file on, and its
end wraps around to 0x10000, so that no page is mapped for it; the second one is refused. -/
structure Wrapping (kmem : KernelMemory) (file : RamdiskFile) (header : ElfHeader) (v : UInt64)
    (words : List UInt64) : Prop where
  valid : validateElf kmem file = some header
  count : header.phnum = 2
  segment : programHeader kmem file header 0 = ⟨1, 176, v, UInt64.ofNat (8 * words.length), 0x10000 - v⟩
  accepted : (⟨1, 176, v, UInt64.ofNat (8 * words.length), 0x10000 - v⟩ : ProgramHeader).isAccepted file.size = true
  pages : pagesBetween (alignDown v pageSize) (alignUp (v + (0x10000 - v)) pageSize) = []
  refused : programHeader kmem file header 1 = ⟨1, 0, 0, 0, 0⟩
  bytes : ∀ i < words.length, ∀ n < 8, fileByte kmem file (176 + (8 * i + n)) = byteOfWord (words.getD i 0) n

/-- Where the words go: index `first` of frame `x`, with room for all of them. -/
structure Target (v x : UInt64) (first : ℕ) (words : List UInt64) : Prop where
  frame : x.toNat % 4096 = 0
  offset : v.toNat % 4096 = 8 * first
  pos : 0 < words.length
  fits : first + words.length ≤ 512

/-- The words are copied in one piece. -/
lemma copyChunk_target {src : ℕ → UInt8} {start : ℕ} (htarget : Target v x first words)
    (hsrc : ∀ i < words.length, ∀ n < 8, src (start + (8 * i + n)) = byteOfWord (words.getD i 0) n) :
    ∃ copies, copyChunk src s v (x + UInt64.ofNat (8 * first)) start (8 * words.length) =
      { s with mem := overwritten s.mem x first words, copies := copies } := by
  obtain ⟨hx, hoffset, hpos, hfits⟩ := htarget
  have hpage : ∀ i < 8 * words.length,
      alignDown (x + UInt64.ofNat (8 * first) + UInt64.ofNat i) pageSize = x := by
    intro i hi
    have hlt := x.toNat_lt
    have hphys : (x + UInt64.ofNat (8 * first)).toNat = x.toNat + 8 * first := toNat_add_ofNat (by omega)
    rw [← UInt64.toNat_inj, toNat_alignDown, toNat_add_ofNat (by omega), hphys]
    omega
  have hmem := @copyChunk_words s x first words src start v hx (by omega) hfits hsrc
  obtain ⟨-, hhead, hcount, hhdm, hkernel, hreads, -⟩ := @copyChunk_spec s src v start _ _ _ hpage
  generalize copyChunk src s v (x + UInt64.ofNat (8 * first)) start (8 * words.length) = s' at *
  refine ⟨s'.copies, ?_⟩
  rw [← hmem, ← hhead, ← hcount, ← hhdm, ← hkernel, ← hreads]

lemma writeProcessMemory_words {src : ℕ → UInt8} {start : ℕ} (htarget : Target v x first words)
    (hsrc : ∀ i < words.length, ∀ n < 8, src (start + (8 * i + n)) = byteOfWord (words.getD i 0) n)
    (h : vmmTranslate s p v = some (x + UInt64.ofNat (8 * first))) : ∃ copies,
      writeProcessMemory s p v src start (8 * words.length) =
        (true, { s with mem := overwritten s.mem x first words, copies := copies }) := by
  obtain ⟨copies, hcopy⟩ := @copyChunk_target s v x first words src start htarget hsrc
  obtain ⟨-, hoffset, hpos, hfits⟩ := htarget
  have hzero : v + UInt64.ofNat 0 = v := UInt64.add_zero v
  have hchunk : min (4096 - (v &&& (pageSize - 1)).toNat) (8 * words.length - 0) = 8 * words.length := by
    rw [pageOffset_toNat]
    omega
  refine ⟨copies, ?_⟩
  rw [← hcopy]
  obtain ⟨n, hn⟩ : ∃ n, 8 * words.length = n + 1 := ⟨8 * words.length - 1, by omega⟩
  rw [hn] at hchunk ⊢
  rw [writeProcessMemory, writeProcessMemoryFrom, if_pos n.succ_pos]
  simp only [hzero, h, hchunk, Nat.add_zero, Nat.zero_add]
  generalize copyChunk src s v (x + UInt64.ofNat (8 * first)) start (n + 1) = s'
  -- the loop ends when all bytes have been copied
  cases n with
  | zero => rfl
  | succ n => rw [writeProcessMemoryFrom, if_neg (lt_irrefl _)]

/-- Loading the program overwrites the words and fails. -/
lemma Wrapping.load (h : Wrapping kmem file header v words) (htarget : Target v x first words)
    (process : Process) (hmap : vmmTranslate s process.cr3 v = some (x + UInt64.ofNat (8 * first))) :
    ∃ copies reads, loadElfIntoProcess kmem s process file =
      (false, process, { s with mem := overwritten s.mem x first words, copies := copies, reads := reads }) := by
  have hpages : ∀ s, mapUserRange s process.cr3 v (0x10000 - v) pageWritable = (true, s) := by
    intro s
    rw [mapUserRange, h.pages, Loop.forWhile_nil]
  have hsize : (UInt64.ofNat (8 * words.length)).toNat = 8 * words.length :=
    Word.toNat_ofNat_of_lt (by have := htarget.fits; omega)
  have hfirst : ∀ s : Mm, vmmTranslate s process.cr3 v = some (x + UInt64.ofNat (8 * first)) → ∃ copies reads,
      loadSegment kmem process.cr3 file header s 0 =
        (true, { s with mem := overwritten s.mem x first words, copies := copies, reads := reads }) := by
    intro s hs
    obtain ⟨copies, hwrite⟩ := @writeProcessMemory_words (s.noteReads (header.phoff.toNat + 56 * 0) 56)
      process.cr3 v x first words (fileByte kmem file) 176 htarget h.bytes hs
    have hvaddr : (programHeader kmem file header 0).vaddr = v := by rw [h.segment]
    have hmemsz : (programHeader kmem file header 0).memsz = 0x10000 - v := by rw [h.segment]
    have hfilesz : (programHeader kmem file header 0).filesz = UInt64.ofNat (8 * words.length) := by rw [h.segment]
    have hoffset : (programHeader kmem file header 0).offset = 176 := by rw [h.segment]
    rw [loadSegment_of_mapped (by rw [h.segment]) (by rw [h.segment, h.accepted])
      (by rw [hvaddr, hmemsz, hpages]), hvaddr, hfilesz, hoffset, hsize]
    exact ⟨copies, _, hwrite⟩
  have hsecond : ∀ s, ∃ reads, loadSegment kmem process.cr3 file header s 1 =
      (false, { s with reads := reads }) := by
    intro s
    rw [loadSegment, h.refused]
    exact ⟨_, rfl⟩
  have hrange : List.range header.phnum.toNat = [0, 1] := by
    rw [h.count]
    rfl
  have hstart : ∃ reads, (if file.hasHeader = true then s.noteReads 0 64 else s) = { s with reads := reads } := by
    split_ifs
    · exact ⟨_, rfl⟩
    · exact ⟨_, rfl⟩
  obtain ⟨reads, hstart⟩ := hstart
  obtain ⟨copies, reads₁, hzero⟩ := hfirst { s with reads := reads } hmap
  obtain ⟨reads₂, hone⟩ :=
    hsecond { s with mem := overwritten s.mem x first words, copies := copies, reads := reads₁ }
  refine ⟨copies, reads₂, ?_⟩
  simp only [loadElfIntoProcess, hstart, h.valid, hrange]
  rw [Loop.forWhile_cons_true (by rw [hzero]), hzero]
  dsimp only
  rw [Loop.forWhile_cons_false (by rw [hone]), hone]

variable {boot : BootInfo} {t : TableLayout} {path : CString}

/-- A new root, after the words of a frame that is not handed out have been overwritten. -/
lemma NewSpace.overwritten {q : UInt64} {s₁ : Mm} {F₁ : List UInt64} {copies : List Copy} {reads : List ℕ}
    (h : NewSpace q s s₁ F₁) (hx : x ∉ q :: F₁) (hkernel : s.kernelCr3Value &&& ~~~0xfff ≠ x) :
    Built ∅ q { s with mem := overwritten s.mem x first words }
      { s₁ with mem := overwritten s₁.mem x first words, copies := copies, reads := reads } (q :: F₁) F₁ := by
  have hqx : q ≠ x := fun hq => hx (hq ▸ List.mem_cons_self)
  have htables : ∀ y ∈ s₁.tables 4 q, Xbks.overwritten s₁.mem x first words y = s₁.mem y := by
    intro y hy
    have hyq := Radix.mem_nodes_of_mem_tables hy
    rw [show Radix.nodes userNext s₁.mem 4 q = {q} from h.nodes, Multiset.mem_singleton] at hyq
    rw [hyq, overwritten_of_ne hqx]
  exact
    { pool := h.pool.congr (fun f hf => by
        have hfx : f ≠ x := fun hfx => hx (hfx ▸ List.mem_cons_of_mem q hf)
        exact congrFun (overwritten_of_ne hfx) 0) rfl rfl rfl
      hhdm := h.hhdm
      kernelCr3 := h.kernelCr3
      root := List.mem_cons_self
      nodes := by
        have hnodes : Radix.nodes userNext (Xbks.overwritten s₁.mem x first words) 4 q = {q} :=
          (Radix.collect_congr htables).trans h.nodes
        exact (congrArg (· + (F₁ : Multiset UInt64)) hnodes).trans
          (by rw [Multiset.singleton_add, Multiset.cons_coe])
      frame := by
        intro y hy
        have hyq : y ≠ q := fun hyq => hy (hyq ▸ List.mem_cons_self)
        funext j
        simp only [Xbks.overwritten, h.frame y hyq]
      upper := by
        intro i hi
        change Xbks.overwritten s₁.mem x first words q i =
          Xbks.overwritten s.mem x first words (s.kernelCr3Value &&& ~~~0xfff) i
        rw [overwritten_of_ne hqx, overwritten_of_ne hkernel]
        exact h.upper i hi
      only := by
        intro path e he
        have hlookup := Radix.lookup_congr htables path
        have hnone : s₁.lookup 4 q path = none := h.lookup path
        rw [Mm.lookup] at he hnone
        rw [hlookup, hnone] at he
        cases he }

/-- A call that executes the program leaves the words overwritten, and all frames where they were. -/
lemma Wrapping.fails (h : Wrapping k.kmem file header v words) (htarget : Target v x first words)
    (howned : Owned boot.memory k F) (hfree : k.mm.freeFrameCount ≠ 0) (hx : x ∉ boot.memory.handedFrames)
    (hkernel : k.mm.kernelPml4 ≠ x) (hfile : ramdiskFind k.kmem k.ramdisk path = some file)
    (hexec : file.executable = true ∧ file.directory = false)
    (hmap : ∀ s q, (∀ i : Fin 512, 256 ≤ i.val → s.mem q i = k.mm.mem k.mm.kernelPml4 i) →
      (∀ y ∉ boot.memory.handedFrames, s.mem y = k.mm.mem y) →
      vmmTranslate s q v = some (x + UInt64.ofNat (8 * first))) (process : Process) :
    ∃ next mm, loadProgram k.kmem k.ramdisk k.mm process path [] [] = (false, next, mm) ∧
      Restored (k.withMem (overwritten k.mm.mem x first words)).mm mm F := by
  rcases createKernelMappedPml4_spec howned.pool howned.kernel_free with
    ⟨rfl, -⟩ | ⟨q, F₁, s₁, rfl, hnew, hq⟩
  · rw [← Word.pos_iff_ne_zero, howned.pool.toNat_freeFrameCount] at hfree
    exact absurd hfree (lt_irrefl 0)
  have hq0 : q ≠ 0 := (howned.pool.frames q List.mem_cons_self).ne_zero
  have hxF : x ∉ q :: F₁ := fun hxF => hx (howned.free_mem hxF)
  have hmapped := hmap s₁ q hq.upper fun y hy =>
    hq.frame y fun hyq => hy (hyq ▸ howned.free_mem List.mem_cons_self)
  obtain ⟨copies, reads, hload⟩ := h.load htarget { process with cr3 := q } hmapped
  have hbuilt : Built ∅ q (k.withMem (overwritten k.mm.mem x first words)).mm
      { s₁ with mem := overwritten s₁.mem x first words, copies := copies, reads := reads } (q :: F₁) F₁ :=
    hq.overwritten hxF hkernel
  have hpool : Pool (k.withMem (overwritten k.mm.mem x first words)).mm (q :: F₁) := by
    refine howned.pool.congr (fun f hf => ?_) rfl rfl rfl
    have hfx : f ≠ x := fun hfx => hxF (hfx ▸ hf)
    exact congrFun (overwritten_of_ne hfx) 0
  refine ⟨{ process with cr3 := 0 }, _, ?_, hbuilt.destroy hpool⟩
  have hrun : ¬(¬file.executable = true ∨ file.directory = true) := by simp [hexec.1, hexec.2]
  rw [loadProgram, hfile]
  simp only [if_neg hrun, hnew, if_neg hq0, hload]

/-! ### Reading the table again -/

/-- The words go to a record of the table, from its word `j₀` on. -/
structure Hits (t : TableLayout) (x : UInt64) (first : ℕ) (words : List UInt64) (slot : Slot) (j₀ : ℕ) : Prop where
  address : x.toNat + 8 * first = t.physical.toNat + (recordSize * slot + 8 * j₀)
  fits : j₀ + words.length ≤ 9

/-- Word `j` of the record after the words have been copied over it. -/
def TableLayout.headAfter (t : TableLayout) (p : Process) (words : List UInt64) (j₀ j : ℕ) : UInt64 :=
  if j₀ ≤ j ∧ j < j₀ + words.length then words.getD (j - j₀) 0 else (t.head p).getD j 0

section Reread

variable {slot : Slot} {j₀ : ℕ} {mm : Mm}

/-- The words of the table after a segment has been copied over one of its records. -/
lemma Laid.word_overwritten (h : Laid boot t k) (happart : t.Apart boot.memory)
    (hhits : Hits t x first words slot j₀) (htarget : Target v x first words)
    (hmm : ∀ y ∉ boot.memory.handedFrames, mm.mem y = overwritten k.mm.mem x first words y) (i : Slot) (j : Fin 9) :
    t.word mm i j = if i = slot then t.headAfter (k.processes i) words j₀ j else t.word k.mm i j := by
  have hlt := x.toNat_lt
  have hj := j.isLt
  have hframe := htarget.frame
  have hroom := htarget.fits
  have haddress := hhits.address
  have hfits := hhits.fits
  have haddr := happart.toNat_address i j
  have hold := h.word happart i j
  have hnot := happart.notMem i j
  rw [TableLayout.word] at hold
  rw [TableLayout.word, TableLayout.word]
  generalize t.physical + UInt64.ofNat (recordSize * i + 8 * j) = address at *
  have hdown := toNat_alignDown address
  have hindex : (wordIndex address).val = address.toNat % 4096 / 8 := by
    rw [wordIndex, Fin.val_ofNat]
    omega
  rw [hmm _ hnot, overwritten, hold]
  simp only [recordSize] at haddr haddress
  have haligned := happart.aligned
  by_cases hin : alignDown address pageSize = x ∧ first ≤ (wordIndex address).val ∧
      (wordIndex address).val < first + words.length
  · obtain ⟨hx, hge, hless⟩ := hin
    have hdown : x.toNat = address.toNat / 4096 * 4096 := by rw [← hx, hdown]
    have hi : i = slot := by
      rw [Fin.ext_iff]
      omega
    have hoffset : (wordIndex address).val - first = j - j₀ := by
      rw [hi] at haddr
      omega
    rw [if_pos ⟨hx, hge⟩, if_pos hi, TableLayout.headAfter, if_pos (by rw [hi] at haddr; omega), hoffset,
      List.getD_eq_getElem _ _ (by omega), List.getD_eq_getElem _ _ (by omega)]
  · have hkeep : (if alignDown address pageSize = x ∧ first ≤ (wordIndex address).val then
        words.getD ((wordIndex address).val - first) ((t.head (k.processes i)).getD j 0)
        else (t.head (k.processes i)).getD j 0) = (t.head (k.processes i)).getD j 0 := by
      split_ifs with hx
      · exact List.getD_eq_default _ _ (by
          by_contra hless
          exact hin ⟨hx.1, hx.2, by omega⟩)
      · rfl
    rw [hkeep]
    split_ifs with hi
    · rw [TableLayout.headAfter, if_neg]
      rintro ⟨hge, hless⟩
      rw [hi] at haddr
      refine hin ⟨?_, by omega, by omega⟩
      rw [← UInt64.toNat_inj, hdown]
      omega
    · rfl

/-- Only the words of the table have been overwritten. -/
lemma rest_overwritten (hhits : Hits t x first words slot j₀)
    (hmm : ∀ y ∉ boot.memory.handedFrames, mm.mem y = overwritten k.mm.mem x first words y) (y : UInt64)
    (hy : y ∉ boot.memory.handedFrames) (j : Fin 512) (hnone : t.wordAt k.processes y j = none) :
    mm.mem y j = k.mm.mem y j := by
  rw [hmm y hy, overwritten]
  split_ifs with hin
  · obtain ⟨rfl, hge⟩ := hin
    by_cases hlt : j.val < first + words.length
    · have hfits := hhits.fits
      have haddress := hhits.address
      have hword := @TableLayout.wordAt_eq t k.processes y j slot
        ⟨j₀ + (j - first), by omega⟩ (by
          change y.toNat + 8 * j = t.physical.toNat + (recordSize * slot + 8 * (j₀ + (j - first)))
          omega)
      rw [hnone] at hword
      cases hword
    · rw [List.getD_eq_default _ _ (by omega)]
  · rfl

/-- An `execve` whose program has overwritten words of one record and could not be loaded. -/
lemma Laid.overwrites {frame f : SyscallFrame} {accesses : List ℕ} {record : Process} (h : Laid boot t k)
    (happart : t.Apart boot.memory) (hhits : Hits t x first words slot j₀) (htarget : Target v x first words)
    (hmm : ∀ y ∉ boot.memory.handedFrames, mm.mem y = overwritten k.mm.mem x first words y)
    (hn : syscallNumber frame.rax = .execve)
    (hcall : processSyscallDispatch frame k =
      (.ok (negativeErrno .noexec, f), { k with mm := mm, accesses := accesses }))
    (hrecord : (k.processes slot).ofHead t (t.headAfter (k.processes slot) words j₀) = some record)
    (hchange : ∃ j : Fin 9, t.headAfter (k.processes slot) words j₀ j ≠ (t.head (k.processes slot)).getD j 0) :
    StaticStep boot t k (.syscall frame)
      { k with mm := mm, accesses := accesses, processes := Function.update k.processes slot record } := by
  refine .overwrites hn hcall (rest_overwritten hhits hmm) fun i => ?_
  have hword := h.word_overwritten happart hhits htarget hmm i
  change t.reread k.mm mm i (k.processes i) = _
  by_cases hi : i = slot
  · subst hi
    obtain ⟨j, hj⟩ := hchange
    have hnew : ∀ j : Fin 9, t.word mm i j = t.headAfter (k.processes i) words j₀ j := fun j => by
      rw [hword j, if_pos rfl]
    have hdiffers : ¬∀ j : Fin 9, t.word mm i j = t.word k.mm i j := fun hsame => hj (by
      rw [← hnew j, hsame j, h.word happart i j])
    rw [TableLayout.reread, if_neg hdiffers, ofHead_congr hnew, hrecord]
    exact congrArg some (Function.update_self i record k.processes).symm
  · rw [TableLayout.reread, if_pos fun j => by rw [hword j, if_neg hi]]
    exact congrArg some (Function.update_of_ne hi record k.processes).symm

end Reread

end Xbks
