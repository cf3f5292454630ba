import Xbks.Properties.Overwriting
import Xbks.Properties.Reaping
import Xbks.Properties.Vfork
import Xbks.Properties.Views

/-!
# Forged process records

A machine whose process table is in memory, and two programs that overwrite one of its records: one marks the
record of the first process as unused, the other makes a zombie of an unused record. Either is executed once,
and what the other claims about processes promise does not hold any more.
-/

namespace Xbks

variable {boot : BootInfo} {t : TableLayout} {s : Mm} {k k' : Kernel} {F : List UInt64} {l : List Slot}
  {p v x : UInt64} {first : ℕ} {words : List UInt64} {file : RamdiskFile} {header : ElfHeader} {path : CString}

/-! ### The machine -/

/-- Kernel tables with a direct map of the first 2 MiB, and with the kernel's image, which starts at 0x10000,
at the address it is linked for. -/
def imageTables (table : UInt64) (i : Fin 512) : UInt64 :=
  if table = 0x9000 then if i.val = 256 then 0xa003 else if i.val = 511 then 0xd003 else 0
  else if table = 0xa000 then if i.val = 0 then 0xb003 else 0
  else if table = 0xb000 then if i.val = 0 then 0xc003 else 0
  else if table = 0xc000 then UInt64.ofNat (4096 * i) ||| 3
  else if table = 0xd000 then if i.val = 510 then 0xe003 else 0
  else if table = 0xe000 then if i.val = 0 then 0xf003 else 0
  else if table = 0xf000 then if i.val < 48 then UInt64.ofNat (0x10000 + 4096 * i) ||| 3 else 0
  else 0

/-- An ELF file whose first segment is the given words, for address `v`, and ends at 0x10000 after wrapping
around; the second one is refused. -/
def wrappingProgram (v : ℕ) (words : List UInt64) : List UInt8 :=
  elfHeaderBytes 2 ++ segmentBytes 176 v (8 * words.length) (2 ^ 64 + 0x10000 - v) ++ segmentBytes 0 0 0 0 ++
    words.flatMap wordBytes

/-- The process table, at its place in the kernel's image. -/
def imageLayout : TableLayout := ⟨0x20000, 0xffffffff80010000⟩

/-- The state of a record: unused. -/
def unusedWords : List UInt64 := [0]

/-- The words of a record from its state on: a zombie whose address space is that of the first process, and
whose parent is in slot 1. -/
def forgedWords : List UInt64 := [3, 0x1ff000, 0, 0, 0, 0, 0xffffffff80011358]

/-- 448 frames behind the kernel's image, and an archive with the program of the small machine and two
that overwrite the state of slot 0 and the record of slot 2. -/
def imageBoot : BootInfo :=
  { memory :=
      { mem := imageTables
        cr3 := 0x9000
        hhdm := some 0xffff800000000000
        memmap := some [⟨0x10000, 0x30000, false⟩, ⟨0x40000, 0x1c0000, true⟩] }
    kmem := fun a => ([archiveHeader "bin/xsh" "00000000170", elfBytes 0x10000 0 0x10000 120 0x1000,
      archiveHeader "u" "00000000270", wrappingProgram 0xffff800000020008 unusedWords,
      archiveHeader "z" "00000000350", wrappingProgram 0xffff8000000226b8 forgedWords].getD
        ((a.toNat - 0x1000) / 512) []).getD (a.toNat % 512) 0
    modules := some [some ⟨0x1000, 0xc00, some (cstr "ramdisk"), none⟩]
    keyboard := fun _ => 0
    ttyAvailable := false }

def unusedFile : RamdiskFile :=
  { path := cstr "/u", data := 0x1600, size := 184, directory := false, executable := true }

def forgedFile : RamdiskFile :=
  { path := cstr "/z", data := 0x1a00, size := 232, directory := false, executable := true }

lemma imageProgram : SmallProgram imageBoot 0x10000 where
  available := by decide +kernel
  file := by decide +kernel
  header := by decide +kernel
  segment := by decide +kernel

/-- The archive has under the path a program that overwrites words of the process table. -/
structure Overwriter (path : CString) (file : RamdiskFile) (v : UInt64) (words : List UInt64) : Prop
    extends Wrapping imageBoot.kmem file overwritingHeader v words where
  found : ramdiskFind imageBoot.kmem imageBoot.ramdisk path = some file

lemma unused_overwriter : Overwriter (cstr "u") unusedFile 0xffff800000020008 unusedWords where
  valid := by decide +kernel
  count := rfl
  segment := by decide +kernel
  accepted := by decide +kernel
  pages := by decide +kernel
  refused := by decide +kernel
  bytes := by decide +kernel
  found := by decide +kernel

lemma forged_overwriter : Overwriter (cstr "z") forgedFile 0xffff8000000226b8 forgedWords where
  valid := by decide +kernel
  count := rfl
  segment := by decide +kernel
  accepted := by decide +kernel
  pages := by decide +kernel
  refused := by decide +kernel
  bytes := by decide +kernel
  found := by decide +kernel

/-- How many frames the machine has, and which one the first process gets as its root. -/
lemma imageBoot_frames : imageBoot.memory.handedFrames.length = 448 ∧
    (createKernelMappedPml4 (mmInit imageBoot.memory)).1 = 0x1ff000 := by
  decide +kernel

/-- The tables of the kernel, from the root down. -/
lemma imageTables_level {n : ℕ} {t : UInt64} (ht : KernelTable imageTables 0x9000 n t) :
    n = 4 ∧ t = 0x9000 ∨ n = 3 ∧ (t = 0xa000 ∨ t = 0xd000) ∨ n = 2 ∧ (t = 0xb000 ∨ t = 0xe000) ∨
      n = 1 ∧ (t = 0xc000 ∨ t = 0xf000) := by
  induction ht with
  | root => exact .inl ⟨rfl, rfl⟩
  | @child n t i _ _ hpresent _ ih =>
    rcases ih with ⟨hn, rfl⟩ | ⟨hn, rfl | rfl⟩ | ⟨hn, rfl | rfl⟩ | ⟨hn, -⟩
    · have hentry : imageTables 0x9000 i = if i.val = 256 then 0xa003 else if i.val = 511 then 0xd003 else 0 := rfl
      rw [hentry] at hpresent ⊢
      split_ifs at hpresent ⊢
      · exact .inr (.inl ⟨by omega, .inl (by decide)⟩)
      · exact .inr (.inl ⟨by omega, .inr (by decide)⟩)
      · exact absurd rfl hpresent
    · have hentry : imageTables 0xa000 i = if i.val = 0 then 0xb003 else 0 := rfl
      rw [hentry] at hpresent ⊢
      split_ifs at hpresent ⊢
      · exact .inr (.inr (.inl ⟨by omega, .inl (by decide)⟩))
      · exact absurd rfl hpresent
    · have hentry : imageTables 0xd000 i = if i.val = 510 then 0xe003 else 0 := rfl
      rw [hentry] at hpresent ⊢
      split_ifs at hpresent ⊢
      · exact .inr (.inr (.inl ⟨by omega, .inr (by decide)⟩))
      · exact absurd rfl hpresent
    · have hentry : imageTables 0xb000 i = if i.val = 0 then 0xc003 else 0 := rfl
      rw [hentry] at hpresent ⊢
      split_ifs at hpresent ⊢
      · exact .inr (.inr (.inr ⟨by omega, .inl (by decide)⟩))
      · exact absurd rfl hpresent
    · have hentry : imageTables 0xe000 i = if i.val = 0 then 0xf003 else 0 := rfl
      rw [hentry] at hpresent ⊢
      split_ifs at hpresent ⊢
      · exact .inr (.inr (.inr ⟨by omega, .inr (by decide)⟩))
      · exact absurd rfl hpresent
    · omega

lemma imageTables_lt {n : ℕ} {t : UInt64} (ht : KernelTable imageTables 0x9000 n t) : t.toNat < 0x10000 := by
  rcases imageTables_level ht with ⟨-, rfl⟩ | ⟨-, rfl | rfl⟩ | ⟨-, rfl | rfl⟩ | ⟨-, rfl | rfl⟩ <;> decide

lemma imageBoot_valid : imageBoot.memory.Valid := by
  have husable : ∀ entries ∈ imageBoot.memory.memmap, ∀ m ∈ entries, m.usable = true →
      m = ⟨0x40000, 0x1c0000, true⟩ := by
    rintro entries ⟨⟩ m hm hu
    rcases List.mem_cons.mp hm with rfl | hm
    · cases hu
    · exact List.mem_singleton.mp hm
  refine ⟨?_, ?_, ?_, ?_⟩
  · rintro entries ⟨⟩
    refine List.pairwise_pair.mpr fun hu => ?_
    cases hu
  · intro entries hentries m hm hu
    rw [husable entries hentries m hm hu]
    decide
  · rintro offset ⟨⟩ entries hentries m hm hu
    rw [husable entries hentries m hm hu]
    decide
  · rintro entries hentries m hm hu n t ht ⟨hge, -⟩
    have hlt := imageTables_lt ht
    rw [husable entries hentries m hm hu] at hge
    change 0x40000 ≤ t.toNat at hge
    omega

/-- A frame that is handed out lies behind the kernel's image. -/
lemma imageBoot_ge {y : UInt64} (hy : y ∈ imageBoot.memory.handedFrames) : 0x40000 ≤ y.toNat := by
  obtain ⟨-, -, -, entries, hentries, m, hm, hu, -, hge, -⟩ := imageBoot_valid.mem_handedFrames hy
  cases hentries
  rcases List.mem_cons.mp hm with rfl | hm
  · cases hu
  · rw [List.mem_singleton.mp hm] at hge
    exact hge

lemma imageBoot_starts : Starts imageBoot :=
  imageProgram.starts imageBoot_valid (by rw [imageBoot_frames.1]; norm_num)

lemma imageLayout_apart : imageLayout.Apart imageBoot.memory where
  aligned := by decide
  fits := by decide
  frames y hy := by
    have hge := imageBoot_ge hy
    right
    change 0x20000 + 79232 ≤ y.toNat
    omega
  tables n y hy := by
    have hlt := imageTables_lt hy
    left
    change y.toNat + 4096 ≤ 0x20000
    omega

/-- The direct map leads to the frames of the image. -/
lemma image_translate {i : Fin 512} (hroot : ∀ i : Fin 512, 256 ≤ i.val → s.mem p i = imageTables 0x9000 i)
    (htables : ∀ y : UInt64, y.toNat < 0x10000 → s.mem y = imageTables y)
    (h39 : tableIndex v 39 = 256) (h30 : tableIndex v 30 = 0) (h21 : tableIndex v 21 = 0)
    (h12 : tableIndex v 12 = i) :
    vmmTranslate s p v = some ((UInt64.ofNat (4096 * i) ||| 3) &&& addressMask ||| v &&& (pageSize - 1)) := by
  have hentry : ∀ {t : UInt64} {i : Fin 512} {e : UInt64}, s.mem t i = e → e &&& pagePresent ≠ 0 →
      presentEntry s t i = some e := by
    rintro t i e rfl he
    rw [presentEntry, if_neg he]
  have hpresent : ∀ i : Fin 512, (UInt64.ofNat (4096 * i) ||| 3) &&& pagePresent ≠ 0 := by
    intro i
    have hdistrib : (UInt64.ofNat (4096 * i) ||| 3) &&& pagePresent =
        UInt64.ofNat (4096 * i) &&& pagePresent ||| 3 &&& pagePresent :=
      UInt64.toBitVec_inj.mp BitVec.and_or_distrib_right
    rw [hdistrib, Ne, UInt64.or_eq_zero_iff, not_and_or]
    exact .inr (by decide)
  have h₁ : presentEntry s p 256 = some 0xa003 := hentry (hroot 256 (by decide)) (by decide)
  have h₂ : presentEntry s (pageTableFromEntry 0xa003) 0 = some 0xb003 :=
    hentry (show s.mem 0xa000 0 = 0xb003 by rw [htables _ (by decide)]; rfl) (by decide)
  have h₃ : presentEntry s (pageTableFromEntry 0xb003) 0 = some 0xc003 :=
    hentry (show s.mem 0xb000 0 = 0xc003 by rw [htables _ (by decide)]; rfl) (by decide)
  have h₄ : presentEntry s (pageTableFromEntry 0xc003) i = some (UInt64.ofNat (4096 * i) ||| 3) :=
    hentry (show s.mem 0xc000 i = _ by rw [htables _ (by decide)]; rfl) (hpresent i)
  simp only [vmmTranslate, Option.bind_eq_bind, h39, h30, h21, h12, h₁, Option.bind_some, h₂, h₃, h₄]
  rfl

/-! ### Executing the programs -/

/-- What holds before the machine executes one of the programs. -/
structure Ready (path : CString) (k : Kernel) : Prop where
  laid : Laid imageBoot imageLayout k
  kmem : k.kmem = imageBoot.kmem
  ramdisk : k.ramdisk = imageBoot.ramdisk
  free : k.mm.freeFrameCount ≠ 0
  path : HoldsString k.view 0x10000 path

lemma Ready.execve (h : Ready path k) {mem : UInt64 → Page}
    (howned : Owned (imageBoot.withMem mem).memory k F)
    (hover : Overwriter path file v words) (htarget : Target v x first words)
    (hexec : file.executable = true ∧ file.directory = false) (hlen : path.length < 256)
    (hx : 0x10000 ≤ x.toNat ∧ x.toNat < 0x40000)
    (hmap : ∀ s p, (∀ i : Fin 512, 256 ≤ i.val → s.mem p i = imageTables 0x9000 i) →
      (∀ y : UInt64, y.toNat < 0x10000 → s.mem y = imageTables y) →
      vmmTranslate s p v = some (x + UInt64.ofNat (8 * first))) :
    ∃ mm accesses F', processSyscallDispatch overwritingCall k =
        (.ok (negativeErrno .noexec, overwritingCall), { k with mm := mm, accesses := accesses }) ∧
      (∀ y ∉ imageBoot.memory.handedFrames, mm.mem y = overwritten k.mm.mem x first words y) ∧
      Owned (imageBoot.withMem (overwritten k.mm.mem x first words)).memory
        { k with mm := mm, accesses := accesses } F' ∧ F'.length = F.length ∧
      ∀ i, Kept i k { k with mm := mm, accesses := accesses } := by
  have hlow : ∀ y : UInt64, y.toNat < 0x10000 → k.mm.mem y = imageTables y := by
    intro y hy
    refine h.laid.rest y (fun hy' => ?_) (.inl ?_)
    · have hge := imageBoot_ge hy'
      omega
    · change y.toNat + 4096 ≤ 0x20000
      omega
  have hpml4 : k.mm.kernelPml4 = 0x9000 :=
    howned.kernelPml4.trans (show (0x9000 : UInt64) &&& ~~~0xfff = 0x9000 by decide)
  have hhanded : x ∉ imageBoot.memory.handedFrames := fun hx' => by
    have hge := imageBoot_ge hx'
    omega
  have hkernel : k.mm.kernelPml4 ≠ x := by
    rintro rfl
    rw [hpml4] at hx
    exact absurd hx.1 (by decide)
  have hw := hover.toWrapping
  have hfile := hover.found
  rw [← h.kmem] at hw hfile
  rw [← h.ramdisk] at hfile
  obtain ⟨next, mm, hload, hrestored⟩ := hw.fails htarget howned h.free hhanded hkernel hfile hexec
    (fun s q hupper hsame => hmap s q (fun i hi => by
      rw [hupper i hi, hpml4, hlow _ (by decide)]) fun y hy => by
      rw [hsame y fun hy' => by
        have hge := imageBoot_ge hy'
        omega, hlow y hy]) { k.current with cr3 := 0 }
  obtain ⟨accesses, hcall⟩ := dispatch_overwriting h.path hlen hload
  -- the frames have the owners they had
  have hremap : Owned (imageBoot.withMem (overwritten k.mm.mem x first words)).memory
      (k.withMem (overwritten k.mm.mem x first words)) F :=
    howned.remap (fun y hy => overwritten_of_ne fun hyx => hhanded (hyx ▸ hy)) (overwritten_of_ne hkernel)
  obtain ⟨F', howned', hkept⟩ := @Owned.restored_step _ _ _ { k with mm := mm, accesses := accesses } _ hremap
    hrestored rfl (fun _ => rfl) howned.current howned.live
  obtain ⟨F'', hpool, hF''⟩ := hrestored.pool
  have hlength := congrArg Multiset.card hF''
  rw [Multiset.coe_card, Multiset.coe_card] at hlength
  refine ⟨mm, accesses, F', hcall, fun y hy => ?_, howned', ?_, fun i => ?_⟩
  · exact hrestored.frame y fun hyF => hy (howned.free_mem hyF)
  · rw [howned'.pool.unique hpool, hlength]
  · have hfirst : Kept i k (k.withMem (overwritten k.mm.mem x first words)) :=
      { cr3 := rfl
        mem := fun y hy => overwritten_of_ne fun hyx => hhanded (hyx ▸ howned.live_mem hy) }
    exact hfirst.trans (hkept i)

/-! ### Runs up to the call -/

lemma Laid.intact (h : Laid boot t k) : Intact k := by
  obtain ⟨mem, l, F, hinv, howned⟩ := h.owned
  have htidy : Tidy (boot.withMem mem) k := ⟨l, F, hinv, howned⟩
  exact htidy.intact

/-- Putting the table into memory does not change what the processes see. -/
lemma view_place {mem : UInt64 → Page} (happart : t.Apart boot.memory)
    (howned : Owned (boot.withMem mem).memory k F) (hinv : TableInv k l) : (t.place k).view = k.view := by
  have hview := (kept_place happart howned rfl k.currentProcess).view (howned.current_ne hinv)
  have hcr3 : k.cr3 = (k.processes k.currentProcess).cr3 := howned.current
  rw [Kernel.view, Kernel.view, hcr3]
  change (t.place k).mm.view k.cr3 = _
  rw [hcr3]
  exact hview

lemma place_same (t : TableLayout) (k : Kernel) : (∃ mm, t.place k = { k with mm := mm }) ∧
    (t.place k).mm.freeFrameCount = k.mm.freeFrameCount :=
  ⟨⟨_, rfl⟩, rfl⟩

lemma Stored.after {k₀ : Kernel} {a : ℕ} {bytes : List UInt8} (h : Stored k₀ k' a bytes)
    (hsame : ∃ mm, k₀ = { k with mm := mm }) :
    ∃ mm accesses, k' = { k with mm := mm, accesses := accesses } := by
  obtain ⟨mm, rfl⟩ := hsame
  exact h.same

/-- A store of the program, and the words of the table after it. -/
lemma Laid.store {a : UInt64} (h : Laid boot t k) (happart : t.Apart boot.memory) (ha : a.toNat < 2 ^ 47)
    (hmapped : k.view a.toNat ≠ none) (b : UInt8) :
    ∃ k', StaticStep boot t k (.store a b) k' ∧ Laid boot t k' ∧ Stored k k' a.toNat [b] ∧
      k'.mm.freeFrameCount = k.mm.freeFrameCount := by
  have hok : ExecFits k (.store a b) := trivial
  obtain ⟨k', hstep, hstored⟩ := step_store h.intact ha hmapped b
  obtain ⟨hsame, hlaid⟩ := h.step happart hok hstep
  obtain ⟨mem, l, F, hinv, howned⟩ := h.owned
  obtain ⟨F', howned', -⟩ := howned.step hinv hok hstep
  obtain ⟨l', hinv'⟩ := hinv.step hstep
  have hview := (view_place happart howned' hinv').trans hstored.view
  have hcount := step_store_frames hstep
  refine ⟨t.place k', .keeps hstep hsame, hlaid, ⟨?_, hview, hlaid.intact⟩, hcount⟩
  obtain ⟨mm, accesses, rfl⟩ := hstored.same
  exact ⟨_, accesses, rfl⟩

/-- What holds when the first process of the machine has written a path of one letter to its memory. -/
structure Lettered (c : UInt8) (k : Kernel) : Prop where
  laid : Laid imageBoot imageLayout k
  same : ∃ mm accesses, k = { started imageBoot with mm := mm, accesses := accesses }
  frames : 363 ≤ k.mm.freeFrameCount.toNat
  path : HoldsString k.view 0x10000 [c]
  code : k.view.Has 0x10000 0x1000
  stack : k.view.Has 0x7fffffffd000 1
  heap : ∀ x, 0x800000 ≤ x → x < 0xffff000 → k.view x = none

lemma same_fields {k₀ : Kernel} (h : ∃ mm accesses, k = { k₀ with mm := mm, accesses := accesses }) :
    k.processes = k₀.processes ∧ k.currentProcess = k₀.currentProcess ∧ k.kmem = k₀.kmem ∧
      k.ramdisk = k₀.ramdisk ∧ k.nextPid = k₀.nextPid := by
  obtain ⟨mm, accesses, rfl⟩ := h
  exact ⟨rfl, rfl, rfl, rfl, rfl⟩

lemma Lettered.ready {c : UInt8} (h : Lettered c k) : Ready [c] k := by
  obtain ⟨hkmem, hramdisk⟩ := archive_of_run imageBoot_starts
    (show Run (fun _ _ => True) (started imageBoot) [] (started imageBoot) from .nil)
  obtain ⟨-, -, hkmem', hramdisk', -⟩ := same_fields h.same
  have hframes := h.frames
  refine ⟨h.laid, hkmem'.trans hkmem, hramdisk'.trans hramdisk, ?_, h.path⟩
  rw [← Word.pos_iff_ne_zero]
  omega

lemma image_typed {c : UInt8} (hc : c ≠ 0) :
    ∃ k, StaticRun imageBoot imageLayout [.store 0x10000 c, .store 0x10001 0] k ∧ Lettered c k := by
  have hvalid := imageBoot_valid
  have hstart := imageBoot_starts
  obtain ⟨F, howned, hlen⟩ := owned_started hvalid imageProgram.initFits hstart
  have hlen := hlen _ imageProgram.file
  rw [imageProgram.cost, imageBoot_frames.1, ← howned.pool.toNat_freeFrameCount] at hlen
  have hinv := tableInv_started hstart
  have howned' : Owned (imageBoot.withMem imageBoot.memory.mem).memory (started imageBoot) F := howned
  have hlaid := laid_place imageLayout_apart hinv howned' fun x hx _ => howned.outside x hx
  have hhas : (imageLayout.place (started imageBoot)).view.Has 0x10000 0x1000 := by
    rw [view_place imageLayout_apart howned' hinv]
    exact imageProgram.has hvalid hstart
  have hstack : (imageLayout.place (started imageBoot)).view.Has 0x7fffffffd000 1 := fun x hge hlt => by
    rw [view_place imageLayout_apart howned' hinv]
    refine (imageProgram.mapped_iff hvalid hstart (by omega)).mpr (.inr ?_)
    simp only [stackBottom, stackTop]
    omega
  have hheap : ∀ x, 0x800000 ≤ x → x < 0xffff000 → (imageLayout.place (started imageBoot)).view x = none := by
    intro x hge hlt
    rw [view_place imageLayout_apart howned' hinv]
    by_contra hmapped
    have hpage := (imageProgram.mapped_iff hvalid hstart (by omega)).mp hmapped
    simp only [stackBottom, stackTop] at hpage
    omega
  obtain ⟨hsame, hcount⟩ := place_same imageLayout (started imageBoot)
  have hrun : StaticRun imageBoot imageLayout [] (imageLayout.place (started imageBoot)) := .nil
  generalize imageLayout.place (started imageBoot) = k₀ at *
  obtain ⟨k₁, hstep₁, hlaid₁, hstored₁, hcount₁⟩ := hlaid.store imageLayout_apart
    (show (0x10000 : UInt64).toNat < 2 ^ 47 by decide) (hhas 0x10000 (le_refl _) (by omega)) c
  have hone : k₀.view.Has (0x10000 : UInt64).toNat [c].length := fun x hge hlt => hhas x hge (hlt.trans (by
    change 0x10000 + 1 < 0x10000 + 0x1000
    norm_num))
  have hhas₁ : k₁.view.Has 0x10000 0x1000 := (hstored₁.has_iff hone).mpr hhas
  obtain ⟨k₂, hstep₂, hlaid₂, hstored₂, hcount₂⟩ := hlaid₁.store imageLayout_apart
    (show (0x10001 : UInt64).toNat < 2 ^ 47 by decide) (hhas₁ 0x10001 (by omega) (by omega)) 0
  have hstored : Stored k₀ k₂ 0x10000 [c, 0] := hstored₁.append hstored₂
  have htwo : k₀.view.Has 0x10000 [c, 0].length := fun x hge hlt => hhas x hge (hlt.trans (by
    change 0x10000 + 2 < 0x10000 + 0x1000
    norm_num))
  refine ⟨k₂, (hrun.snoc hstep₁).snoc hstep₂, hlaid₂, hstored.after hsame, ?_, ?_, (hstored.has_iff htwo).mpr hhas,
    (hstored.has_iff htwo).mpr hstack, fun x hge hlt => ?_⟩
  · rw [hcount₂, hcount₁, hcount]
    omega
  · have hload : k₂.view.load 0x10000 2 = some ([c] ++ [0]) := by
      rw [hstored.view]
      exact Memory.load_store
    refine holdsString_of_load ?_ hload
    rw [List.mem_singleton]
    exact hc.symm
  · rw [hstored.view, Memory.store_eq_none_iff htwo]
    exact hheap x hge hlt

/-! ### A forged zombie -/

/-- The record that the forged words make of an unused one. -/
def forgedRecord : Process :=
  { Process.zero with state := .zombie, cr3 := 0x1ff000, parent := some ⟨1, by decide⟩ }

lemma forged_record : Process.zero.ofHead imageLayout (imageLayout.headAfter .zero forgedWords 1) =
    some forgedRecord := by
  have hstate : ProcessState.ofCode (imageLayout.headAfter .zero forgedWords 1 1) = some .zombie := by
    decide +kernel
  have hparent : imageLayout.slotOf (imageLayout.headAfter .zero forgedWords 1 7) = some (some 1) := by
    decide +kernel
  have hvfork : imageLayout.slotOf (imageLayout.headAfter .zero forgedWords 1 8) = some none := by
    decide +kernel
  have hpid : wrapInt (imageLayout.headAfter .zero forgedWords 1 0).toNat = 0 ∧
      wrapInt ((imageLayout.headAfter .zero forgedWords 1 0).toNat / 2 ^ 32 : ℕ) = 0 ∧
      wrapInt (imageLayout.headAfter .zero forgedWords 1 6).toNat = 0 := by
    decide +kernel
  rw [Process.ofHead, hstate, hparent, hvfork]
  obtain ⟨h0, h1, h6⟩ := hpid
  simp only [Option.bind_eq_bind, Option.bind_some, h0, h1, h6]
  rfl

lemma forged_hits : Hits imageLayout 0x22000 215 forgedWords 2 1 where
  address := by decide
  fits := by decide

lemma forged_target : Target 0xffff8000000226b8 0x22000 215 forgedWords where
  frame := by decide
  offset := by decide
  pos := by decide
  fits := by decide

/-- The slots behind the first one. -/
lemma started_zero {i : Slot} (hstart : Starts boot) (hi : i ≠ 0) : (started boot).processes i = .zero :=
  (tableInv_started hstart).unused i (by rw [started_state hstart, if_neg hi])

/-- The root of the first process. -/
lemma image_cr3 : (started imageBoot).current.cr3 = 0x1ff000 := by
  rw [started_cr3 imageBoot_starts, imageBoot_frames.2]

/-- What the machine is like after the program, apart from the record that has been overwritten. -/
structure Damaged (k₀ : Kernel) (l : List Slot) (F : List UInt64) : Prop where
  inv : TableInv k₀ l
  owned : ∃ mem, Owned (imageBoot.withMem mem).memory k₀ F
  frames : 363 ≤ F.length
  first : k₀.currentProcess = 0
  states : ∀ i, (k₀.processes i).state = if i = 0 then .running else .unused
  cr3 : (k₀.processes 0).cr3 = 0x1ff000
  stack : vmmTranslate k₀.mm 0x1ff000 0x7fffffffd000 ≠ none

/-- The first process executes the program. -/
lemma forged_step (h : Lettered 122 k) : ∃ k₀ l F,
    StaticStep imageBoot imageLayout k (.syscall overwritingCall) (k₀.setProcess 2 forgedRecord) ∧
    Damaged k₀ l F := by
  obtain ⟨mem, l, F, hinv, howned⟩ := h.laid.owned
  obtain ⟨hprocesses, hcurrent, -⟩ := same_fields h.same
  have hframes := h.frames
  rw [howned.pool.toNat_freeFrameCount] at hframes
  obtain ⟨mm, accesses, F', hcall, hmm, howned', hlength, hkept⟩ := h.ready.execve howned forged_overwriter
    forged_target ⟨rfl, rfl⟩ (by decide) (by decide) fun s p hroot htables =>
      image_translate hroot htables (i := 34) (by decide) (by decide) (by decide) (by decide)
  have hzero : k.processes 2 = .zero := by
    rw [hprocesses]
    exact started_zero imageBoot_starts (by decide)
  have hcur : k.currentProcess = 0 := hcurrent.trans (started_current imageBoot_starts)
  have hcr3 : (k.processes 0).cr3 = 0x1ff000 := by
    have hroot := image_cr3
    rw [Kernel.current, started_current imageBoot_starts] at hroot
    rw [hprocesses]
    exact hroot
  refine ⟨{ k with mm := mm, accesses := accesses }, l, F', ?_,
    ⟨hinv.of_table rfl rfl, ⟨_, howned'⟩, by omega, hcur, ?_, hcr3, ?_⟩⟩
  · refine h.laid.overwrites imageLayout_apart forged_hits forged_target hmm (by decide) hcall ?_ ?_
    · rw [hzero]
      exact forged_record
    · rw [hzero]
      exact ⟨1, by decide +kernel⟩
  · change ∀ i, (k.processes i).state = _
    rw [hprocesses]
    exact started_state imageBoot_starts
  · have hstack := h.stack (0x7fffffffd000 : UInt64).toNat (le_refl _) (by decide)
    rw [Kernel.view, howned.current, Kernel.current, hcur, hcr3, ne_eq, view_toNat (by decide),
      Option.map_eq_none_iff] at hstack
    have htranslate := (hkept 0).translate (a := 0x7fffffffd000) (by rw [hcr3]; decide) (by decide)
    rw [hcr3] at htranslate
    rw [htranslate]
    exact hstack

lemma setProcess_self (k : Kernel) (i : Slot) (record : Process) :
    (k.setProcess i record).processes i = record := by
  simp [Kernel.setProcess]

lemma setProcess_other {i j : Slot} (record : Process) (hj : j ≠ i) :
    (k.setProcess i record).processes j = k.processes j := by
  simp [Kernel.setProcess, hj]

/-- The table does not have its shape: the process number of a slot that is in use is 0. -/
theorem forged_zombie : imageBoot.memory.Valid ∧ InitFits imageBoot ∧ Starts imageBoot ∧
    imageLayout.Apart imageBoot.memory ∧ ∃ k,
      StaticRun imageBoot imageLayout [.store 0x10000 122, .store 0x10001 0, .syscall overwritingCall] k ∧
      ¬TableShape k := by
  refine ⟨imageBoot_valid, imageProgram.initFits, imageBoot_starts, imageLayout_apart, ?_⟩
  obtain ⟨k, hrun, htyped⟩ := @image_typed 122 (by decide)
  obtain ⟨k₀, l, F, hstep, -⟩ := forged_step htyped
  refine ⟨_, hrun.snoc hstep, fun hshape => ?_⟩
  have hzombie := hshape.range 2
  rw [setProcess_self] at hzombie
  exact absurd (hzombie ProcessState.noConfusion).1 (by decide)

/-- And its standard descriptors are closed. -/
theorem forged_descriptors : imageBoot.memory.Valid ∧ InitFits imageBoot ∧ Starts imageBoot ∧
    imageLayout.Apart imageBoot.memory ∧ ∃ k,
      StaticRun imageBoot imageLayout [.store 0x10000 122, .store 0x10001 0, .syscall overwritingCall] k ∧
      ¬∀ p, (k.processes p).state ≠ .unused → DescriptorsOk imageBoot.ramdisk (k.processes p).fds := by
  refine ⟨imageBoot_valid, imageProgram.initFits, imageBoot_starts, imageLayout_apart, ?_⟩
  obtain ⟨k, hrun, htyped⟩ := @image_typed 122 (by decide)
  obtain ⟨k₀, l, F, hstep, -⟩ := forged_step htyped
  refine ⟨_, hrun.snoc hstep, fun hfds => ?_⟩
  have hzombie := hfds 2
  rw [setProcess_self] at hzombie
  have hstdin := (hzombie ProcessState.noConfusion).stdin
  cases hstdin

/-! ### An address space that is torn down while its owner waits -/

/-- An entry of the root, other than the first one, leads nowhere when the address space has been torn down. -/
lemma destroyed_entry {i : Fin 512} (hi : i ≠ 0) (hp : p ≠ 0) (hpool : Pool s F) (hsep : Separate s 4 p F)
    (hframes : ∀ y ∈ s.nodes 4 p, IsFrame s.hhdmOffsetValue y) :
    userNext 3 i ((vmmDestroyUserSpace s p userTop).mem p i) = none := by
  obtain ⟨F₁, h₁⟩ := clearsBelow_root p s F hpool hsep hframes
  have hframe := hframes p Radix.self_mem_nodes
  rw [← h₁.hhdm] at hframe
  rw [vmmDestroyUserSpace_eq hp, pmmFreeFrame_eq hframe]
  have hempty := h₁.empty
  generalize destroyLevels p s = s₁ at *
  have hentry : (s₁.put p).mem p i = s₁.mem p i := by
    change (s₁.setEntry p 0 s₁.freeFrames).mem p i = _
    rw [setEntry_mem_self, Function.update_of_ne hi]
  rw [hentry]
  cases hnext : userNext 3 i (s₁.mem p i) with
  | none => rfl
  | some b =>
    have hmem : b ∈ s₁.nodes 4 p := Radix.mem_nodes_of_child hnext Radix.self_mem_nodes
    have hnodup : (s₁.nodes 4 p).Nodup := by
      rw [hempty]
      exact Multiset.nodup_singleton p
    have hroot := Radix.root_notMem_child hnodup hnext
    rw [hempty, Multiset.mem_singleton] at hmem
    rw [hmem] at hroot
    exact absurd Radix.self_mem_nodes hroot

section Forged

variable {k₀ : Kernel} {mem : UInt64 → Page}

lemma setProcess_current {i : Slot} (record : Process) (hi : k.currentProcess ≠ i) :
    (k.setProcess i record).current = k.current :=
  setProcess_other record hi

/-- A slot that takes no part in a `vfork`. -/
lemma vforked_setProcess {frame : SyscallFrame} {i slot : Slot} {cr3 : UInt64} {mm : Mm} {record : Process}
    (hslot : i ≠ slot) (hcur : i ≠ k.currentProcess) :
    (k.setProcess i record).vforked frame slot cr3 mm = (k.vforked frame slot cr3 mm).setProcess i record := by
  have hprocesses : ((k.setProcess i record).vforked frame slot cr3 mm).processes =
      ((k.vforked frame slot cr3 mm).setProcess i record).processes := by
    rw [Kernel.vforked, setProcess_current record hcur.symm]
    simp only [Kernel.setProcess, Kernel.vforked]
    rw [Function.update_comm hslot, Function.update_comm hcur]
  exact congrArg (fun processes => { k.vforked frame slot cr3 mm with processes := processes }) hprocesses

/-- There are enough frames for a child of the first process. -/
lemma image_copies (hinv : TableInv k₀ l) (howned : Owned (imageBoot.withMem mem).memory k₀ F)
    (hlen : 363 ≤ F.length) (hunused : (k₀.processes 1).state = .unused) :
    ∃ cr3 mm mm' F', createKernelMappedPml4 k₀.mm = (cr3, mm) ∧ cr3 ≠ 0 ∧
      vmmCloneUserSpace mm k₀.current.cr3 cr3 userTop = (true, mm') ∧
      Owned (imageBoot.withMem mem).memory (k₀.vforked (call 58) 1 cr3 mm') F' ∧ 0 < F'.length ∧
      Kept 0 k₀ (k₀.vforked (call 58) 1 cr3 mm') ∧ (k₀.vforked (call 58) 1 cr3 mm').view = k₀.view := by
  have hframes := howned.frames_le hinv
  have hhanded : (imageBoot.withMem mem).memory.handedFrames.length = 448 := imageBoot_frames.1
  have hleaves : (k₀.mm.leaves 4 k₀.current.cr3).card ≤ k₀.frames := card_leaves_le _ _
  obtain ⟨cr3, mm, mm', hnew, hcr3, hclone⟩ := vfork_copies howned hinv (by omega)
  obtain ⟨F', howned', hcopied, hkept⟩ := howned.vforked_step (call 58) hinv hunused hnew hcr3 hclone
  have hused := hcopied.used rfl
  exact ⟨cr3, mm, mm', F', hnew, hcr3, hclone, howned', by omega, hkept 0 (by decide),
    vforked_view howned hinv hnew hcr3 hclone⟩

/-- The first process calls `vfork` with a forged record in slot 2. -/
lemma forged_vfork (hinv : TableInv k₀ l) (howned : Owned (imageBoot.withMem mem).memory k₀ F)
    (hlen : 363 ≤ F.length) (hcur : k₀.currentProcess = 0)
    (hstates : ∀ i, (k₀.processes i).state = if i = 0 then .running else .unused) :
    ∃ cr3 mm F', processSyscallDispatch (call 58) (k₀.setProcess 2 forgedRecord) =
        (.ok (0, call 58), (k₀.vforked (call 58) 1 cr3 mm).setProcess 2 forgedRecord) ∧
      Owned (imageBoot.withMem mem).memory (k₀.vforked (call 58) 1 cr3 mm) F' ∧
      Kept 0 k₀ (k₀.vforked (call 58) 1 cr3 mm) := by
  obtain ⟨cr3, mm, mm', F', hnew, hcr3, hclone, howned', -, hkept, -⟩ :=
    image_copies hinv howned hlen (hstates 1)
  refine ⟨cr3, mm', F', ?_, howned', hkept⟩
  have hne : k₀.currentProcess ≠ 2 := by
    rw [hcur]
    decide
  have hslot : unusedSlot (k₀.setProcess 2 forgedRecord).processes = some 1 := by
    have hforged : ∀ i, ((k₀.setProcess 2 forgedRecord).processes i).state =
        if i = 2 then .zombie else if i = 0 then .running else .unused := by
      intro i
      by_cases hi : i = 2
      · rw [hi, setProcess_self]
        rfl
      · rw [setProcess_other forgedRecord hi, hstates, if_neg hi]
    rw [unusedSlot_eq hforged]
    decide
  have hn : syscallNumber (call 58).rax = .vfork := by decide
  rw [processSyscallDispatch, hn, ← vforked_setProcess (by decide) hne.symm]
  refine syscallVfork_done (call 58) hslot ?_ hnew hcr3 ?_
  · change k₀.currentProcess ≠ 1
    rw [hcur]
    decide
  · rw [setProcess_current forgedRecord hne]
    exact hclone

/-- Its child waits for any child, and the forged record is the one that is found. -/
lemma forged_wait (howned : Owned (imageBoot.withMem mem).memory k₀ F) (hcur : k₀.currentProcess = 1)
    (hstates : ∀ i, (k₀.processes i).state ≠ .zombie) (hcr3 : (k₀.processes 0).cr3 = 0x1ff000) :
    ∃ k₁, step (k₀.setProcess 2 forgedRecord) (.syscall waitAny) = some k₁ ∧
      (∀ x ∉ imageBoot.memory.handedFrames, k₁.mm.mem x = k₀.mm.mem x) ∧
      userNext 3 255 (k₁.mm.mem 0x1ff000 255) = none ∧ k₁.currentProcess = 1 ∧
      ∀ i ≠ 2, k₁.processes i = k₀.processes i := by
  have hne : (k₀.processes 0).cr3 ≠ 0 := by
    rw [hcr3]
    decide
  have hsome : zombieChild (k₀.setProcess 2 forgedRecord) (0 - 1) = some 2 := by
    have hother : ∀ i ≠ 2, ((k₀.setProcess 2 forgedRecord).processes i).state ≠ .zombie := by
      intro i hi
      rw [setProcess_other forgedRecord hi]
      exact hstates i
    have hself : (k₀.setProcess 2 forgedRecord).processes 2 = forgedRecord := setProcess_self k₀ 2 forgedRecord
    have hparent : forgedRecord.parent = some (k₀.setProcess 2 forgedRecord).currentProcess := congrArg some hcur.symm
    have hfin : List.finRange 16 = 0 :: 1 :: 2 :: [3, 4, 5, 6, 7, 8, 9, 10, 11, 12, 13, 14, 15] := rfl
    rw [zombieChild, hfin, List.find?_cons_of_neg (by simp [hother 0 (by decide)]),
      List.find?_cons_of_neg (by simp [hother 1 (by decide)]), List.find?_cons_of_pos]
    rw [hself, decide_eq_true_eq]
    exact ⟨rfl, hparent, .inl rfl⟩
  have hcr3' : ((k₀.setProcess 2 forgedRecord).processes 2).cr3 = (k₀.processes 0).cr3 := by
    rw [setProcess_self, hcr3]
    rfl
  have htree := howned.separate hne
  obtain ⟨-, -, -, -, -, hframe⟩ := vmmDestroyUserSpace_spec hne howned.pool htree fun x hx =>
    howned.tree_isFrame hne hx
  have hentry := destroyed_entry (i := 255) (by decide) hne howned.pool htree fun x hx => howned.tree_isFrame hne hx
  refine ⟨_, step_waitAny hsome, fun x hx => ?_, ?_, hcur, fun i hi => ?_⟩
  · rw [Kernel.reap, hcr3']
    refine hframe x fun hmem => hx (howned.live_mem (i := 0) ?_)
    rw [liveNodes_of_ne hne]
    exact hmem
  · rw [Kernel.reap, hcr3', ← hcr3]
    exact hentry
  · rw [reap_other hi, setProcess_other forgedRecord hi]

end Forged

/-- When the child exits, the first process goes on without its stack. -/
theorem forged_parent : imageBoot.memory.Valid ∧ InitFits imageBoot ∧ Starts imageBoot ∧
    imageLayout.Apart imageBoot.memory ∧ ∃ k k₀ k₁ k₂ f pid,
      StaticRun imageBoot imageLayout [.store 0x10000 122, .store 0x10001 0, .syscall overwritingCall] k ∧
      processSyscallDispatch (call 58) k = (.ok (0, call 58), k₀) ∧
      StaticStep imageBoot imageLayout k (.syscall (call 58)) (imageLayout.place k₀) ∧
      StaticStep imageBoot imageLayout (imageLayout.place k₀) (.syscall waitAny) k₁ ∧
      k₁.currentProcess = k₀.currentProcess ∧ processSyscallDispatch (call 60) k₁ = (.ok (pid, f), k₂) ∧
      k₂.currentProcess = k.currentProcess ∧ vmmTranslate k.mm k.current.cr3 0x7fffffffd000 ≠ none ∧
      vmmTranslate k₂.mm k.current.cr3 0x7fffffffd000 = none := by
  refine ⟨imageBoot_valid, imageProgram.initFits, imageBoot_starts, imageLayout_apart, ?_⟩
  obtain ⟨k, hrun, htyped⟩ := @image_typed 122 (by decide)
  obtain ⟨kd, l, F, hstep, hd⟩ := forged_step htyped
  obtain ⟨mem, howned⟩ := hd.owned
  obtain ⟨cr3, mm, F', hcall, howned', hkept⟩ := forged_vfork hd.inv howned hd.frames hd.first hd.states
  have hne : (1 : Slot) ≠ kd.currentProcess := by
    rw [hd.first]
    decide
  have hchild := vforked_child (call 58) hne cr3 mm
  have hstates := @vforked_state kd (call 58) 1 cr3 mm hne
  rw [hd.first] at hchild hstates
  have hcur : (kd.vforked (call 58) 1 cr3 mm).currentProcess = 1 := rfl
  have hsame : ∀ x ∉ imageBoot.memory.handedFrames, (kd.vforked (call 58) 1 cr3 mm).mm.mem x = kd.mm.mem x :=
    fun x hx => (howned'.outside x hx).trans (howned.outside x hx).symm
  generalize kd.vforked (call 58) 1 cr3 mm = kv at *
  have hcr3 : (kv.processes 0).cr3 = 0x1ff000 := hkept.cr3.trans hd.cr3
  have hnone : ∀ i, (kv.processes i).state ≠ .zombie := by
    intro i
    rw [hstates, hd.states]
    split_ifs <;> exact ProcessState.noConfusion
  have howned₁ := howned'.place imageLayout_apart (show (kv.setProcess 2 forgedRecord).mm = kv.mm from rfl)
  have hvfork : StaticStep imageBoot imageLayout (kd.setProcess 2 forgedRecord) (.syscall (call 58))
      (imageLayout.place (kv.setProcess 2 forgedRecord)) := .keeps (by rw [step, hcall]) hsame
  obtain ⟨kw, hwait, hsame₁, hentry, hcurw, hother⟩ := forged_wait howned₁ hcur hnone hcr3
  -- the child exits
  have hcurrent : (imageLayout.place kw).current = kv.processes 1 := by
    change kw.processes kw.currentProcess = _
    rw [hcurw]
    exact hother 1 (by decide)
  have hparent : (imageLayout.place kw).current.vforkParent = some 0 := by
    rw [hcurrent]
    exact hchild.2
  have hne : 0 ≠ (imageLayout.place kw).currentProcess := by
    change 0 ≠ kw.currentProcess
    rw [hcurw]
    decide
  have hexit : processSyscallDispatch (call 60) (imageLayout.place kw) = _ :=
    @syscallExit_eq _ (call 60) 0 0 hparent hne
  refine ⟨kd.setProcess 2 forgedRecord, kv.setProcess 2 forgedRecord, imageLayout.place kw, _, _, _,
    hrun.snoc hstep, hcall, hvfork, .keeps hwait hsame₁, hcurw.trans hcur.symm, hexit, hd.first.symm, ?_, ?_⟩
  · rw [setProcess_current forgedRecord (by rw [hd.first]; decide), Kernel.current, hd.first, hd.cr3]
    exact hd.stack
  · rw [setProcess_current forgedRecord (by rw [hd.first]; decide), Kernel.current, hd.first, hd.cr3]
    have hhanded : 0x1ff000 ∈ imageBoot.memory.handedFrames := by
      refine howned'.live_mem (i := 0) ?_
      rw [liveNodes_of_ne (by rw [hcr3]; decide), hcr3]
      exact Radix.self_mem_nodes
    have hmem : (imageLayout.place kw).mm.mem 0x1ff000 = kw.mm.mem 0x1ff000 :=
      TableLayout.place_mem_of_avoids (imageLayout_apart.frames _ hhanded)
    change vmmTranslate (imageLayout.place kw).mm _ _ = none
    rw [vmmTranslate_eq (lowerHalf_of_lt (by decide)), Option.map_eq_none_iff]
    change (userNext 3 255 ((imageLayout.place kw).mm.mem 0x1ff000 255)).bind _ = none
    rw [hmem, hentry]
    rfl

/-! ### A parent whose record is wiped -/

lemma unused_hits : Hits imageLayout 0x20000 1 unusedWords 0 1 where
  address := by decide
  fits := by decide

lemma unused_target : Target 0xffff800000020008 0x20000 1 unusedWords where
  frame := by decide
  offset := by decide
  pos := by decide
  fits := by decide

lemma slotOf_pointer (p : Option Slot) : imageLayout.slotOf (imageLayout.pointer p) = some p := by
  revert p
  decide +kernel

/-- Only the state of the record is read as something else. -/
lemma unused_record (p : Process) : ∃ record,
    p.ofHead imageLayout (imageLayout.headAfter p unusedWords 1) = some record ∧ record.state = .unused ∧
      record.cr3 = p.cr3 := by
  have hstate : ProcessState.ofCode (imageLayout.headAfter p unusedWords 1 1) = some .unused := by
    change ProcessState.ofCode 0 = some .unused
    decide
  have hparent : imageLayout.slotOf (imageLayout.headAfter p unusedWords 1 7) = some p.parent := slotOf_pointer p.parent
  have hvfork : imageLayout.slotOf (imageLayout.headAfter p unusedWords 1 8) = some p.vforkParent :=
    slotOf_pointer p.vforkParent
  rw [Process.ofHead, hstate, hparent, hvfork]
  exact ⟨_, rfl, rfl, rfl⟩

/-- What holds of the child of the first process before it executes the program. -/
structure ImageChild (k : Kernel) : Prop where
  ready : Ready [117] k
  process : k.currentProcess = 1
  parent : k.current.vforkParent = some 0
  first : (k.processes 0).state = .blocked ∧ (k.processes 0).cr3 = 0x1ff000
  brk : k.current.brk = 0x800000
  code : k.view.Has 0x10000 0x1000
  heap : ∀ x, 0x800000 ≤ x → x < 0xffff000 → k.view x = none

lemma image_child (h : Lettered 117 k) :
    ∃ k₁, StaticStep imageBoot imageLayout k (.syscall (call 58)) k₁ ∧ ImageChild k₁ := by
  obtain ⟨mem, l, F, hinv, howned⟩ := h.laid.owned
  obtain ⟨hprocesses, hcurrent, -⟩ := same_fields h.same
  have hframes := h.frames
  rw [howned.pool.toNat_freeFrameCount] at hframes
  have hcur : k.currentProcess = 0 := hcurrent.trans (started_current imageBoot_starts)
  have hstates : ∀ i, (k.processes i).state = if i = 0 then .running else .unused := by
    rw [hprocesses]
    exact started_state imageBoot_starts
  have hfields : k.current.brk = 0x800000 ∧ k.current.cr3 = 0x1ff000 := by
    have hbrk := (imageProgram.space imageBoot_valid imageBoot_starts).1
    have hroot := image_cr3
    rw [Kernel.current] at hbrk hroot
    rw [Kernel.current, hprocesses, hcurrent]
    exact ⟨hbrk, hroot⟩
  obtain ⟨cr3, mm, mm', F', hnew, hcr3, hclone, howned', hfree, -, hview⟩ :=
    image_copies hinv howned hframes (hstates 1)
  have hslot : unusedSlot k.processes = some 1 := by
    rw [unusedSlot_eq hstates]
    decide
  have hne : (1 : Slot) ≠ k.currentProcess := by
    rw [hcur]
    decide
  have hstep : step k (.syscall (call 58)) = some (k.vforked (call 58) 1 cr3 mm') := by
    have hn : syscallNumber (call 58).rax = .vfork := by decide
    rw [step, processSyscallDispatch, hn]
    dsimp only
    rw [syscallVfork_done (call 58) hslot hne.symm hnew hcr3 hclone]
  obtain ⟨hsame, hlaid⟩ := h.laid.step imageLayout_apart (execFits_call (by decide) k) hstep
  have hinv' : TableInv (k.vforked (call 58) 1 cr3 mm') (k.currentProcess :: l) := hinv.vforked (hstates 1) cr3 mm'
  have hplaced := (view_place imageLayout_apart howned' hinv').trans hview
  have hchild := (vforked_child (call 58) hne cr3 mm').2
  have hparent := @vforked_parent k (call 58) 1 cr3 mm'
  have hcount := howned'.pool.toNat_freeFrameCount
  rw [hcur] at hchild hparent
  have hready := h.ready
  refine ⟨_, .keeps hstep hsame, ⟨hlaid, hready.kmem, hready.ramdisk, ?_, ?_⟩, rfl, hchild, ?_, ?_, ?_, ?_⟩
  · rw [← Word.pos_iff_ne_zero]
    exact hcount ▸ hfree
  · rw [hplaced]
    exact h.path
  · change ((k.vforked (call 58) 1 cr3 mm').processes 0).state = _ ∧
      ((k.vforked (call 58) 1 cr3 mm').processes 0).cr3 = _
    rw [hparent]
    exact ⟨rfl, hfields.2⟩
  · change ((k.vforked (call 58) 1 cr3 mm').processes 1).brk = _
    rw [vforked_slot hne]
    exact hfields.1
  · rw [hplaced]
    exact h.code
  · rw [hplaced]
    exact h.heap

/-- What the machine is like after the program, apart from the record of the first process. -/
structure Orphaned (k₀ : Kernel) (l : List Slot) (F : List UInt64) : Prop where
  inv : TableInv k₀ l
  owned : ∃ mem, Owned (imageBoot.withMem mem).memory k₀ F
  process : k₀.currentProcess = 1
  parent : k₀.current.vforkParent = some 0
  brk : k₀.current.brk = 0x800000
  code : k₀.view.Has 0x10000 0x1000
  heap : ∀ x, 0x800000 ≤ x → x < 0xffff000 → k₀.view x = none

/-- The child executes the program. -/
lemma unused_step (h : ImageChild k) : ∃ k₀ l F record,
    StaticStep imageBoot imageLayout k (.syscall overwritingCall) (k₀.setProcess 0 record) ∧
    record.state = .unused ∧ record.cr3 = 0x1ff000 ∧ Orphaned k₀ l F := by
  obtain ⟨mem, l, F, hinv, howned⟩ := h.ready.laid.owned
  obtain ⟨record, hrecord, hstate, hcr3⟩ := unused_record (k.processes 0)
  obtain ⟨mm, accesses, F', hcall, hmm, howned', -, hkept⟩ := h.ready.execve howned unused_overwriter
    unused_target ⟨rfl, rfl⟩ (by decide) (by decide) fun s p hroot htables =>
      image_translate hroot htables (i := 32) (by decide) (by decide) (by decide) (by decide)
  have hview : ({ k with mm := mm, accesses := accesses } : Kernel).view = k.view := by
    have hkept := (hkept k.currentProcess).view (howned.current_ne hinv)
    have hroot : k.cr3 = (k.processes k.currentProcess).cr3 := howned.current
    rw [Kernel.view, Kernel.view, hroot]
    exact hkept
  refine ⟨{ k with mm := mm, accesses := accesses }, l, F', record, ?_, hstate, hcr3.trans h.first.2,
    ⟨hinv.of_table rfl rfl, ⟨_, howned'⟩, h.process, h.parent, h.brk, ?_, ?_⟩⟩
  · refine h.ready.laid.overwrites imageLayout_apart unused_hits unused_target hmm (by decide) hcall hrecord ⟨1, ?_⟩
    change 0 ≠ (k.processes 0).state.code
    rw [h.first.1]
    decide
  · rw [hview]
    exact h.code
  · rw [hview]
    exact h.heap

section Starved

variable {k₀ : Kernel} {record : Process}

lemma breakPages_setProcess {i : Slot} (record : Process) (hi : k.currentProcess ≠ i) (r : UInt64) :
    breakPages (k.setProcess i record) r = breakPages k r := by
  rw [breakPages, breakPages, setProcess_current record hi]

lemma breakLoop_setProcess {i : Slot} (record : Process) (hi : k.currentProcess ≠ i) (r : UInt64) :
    breakLoop (k.setProcess i record) r = breakLoop k r := by
  rw [breakLoop, breakLoop, breakPages_setProcess record hi, setProcess_current record hi]
  rfl

/-- The child asks for more heap than there are frames. -/
lemma orphan_brk (record : Process) (h : Orphaned k₀ l F) : ∃ mm F',
    StaticStep imageBoot imageLayout (k₀.setProcess 0 record) (brkCall 0xffff000)
      (imageLayout.place ({ k₀ with mm := mm }.setProcess 0 record)) ∧
    (∃ mem, Owned (imageBoot.withMem mem).memory { k₀ with mm := mm } F') ∧ F'.length ≤ 1 ∧
    mm.lookup 4 k₀.current.cr3 (pathOf 0x10000) ≠ none := by
  obtain ⟨mem, howned⟩ := h.owned
  have hview : ∀ v : UInt64, v.toNat < 2 ^ 47 →
      (k₀.view v.toNat = none ↔ vmmTranslate k₀.mm k₀.current.cr3 v = none) := fun v hv => by
    rw [Kernel.view, howned.current, view_toNat hv, Option.map_eq_none_iff]
  have hne : k₀.currentProcess ≠ 0 := by
    rw [h.process]
    decide
  have happart := howned.apart h.inv
  have hrefused : ¬Refused k₀ 0xffff000 := by
    rw [Refused, h.brk]
    decide
  have hpages : breakPages k₀ 0xffff000 = pagesBetween 0x800000 0xffff000 := by
    rw [breakPages, h.brk]
    rfl
  have hnone : ∀ v ∈ breakPages k₀ 0xffff000, vmmTranslate k₀.mm k₀.current.cr3 v = none := by
    intro v hv
    rw [hpages, mem_pagesBetween (by decide) (by decide)] at hv
    obtain ⟨-, hge, hlt⟩ := hv
    have hge : 0x800000 ≤ v.toNat := hge
    have hlt : v.toNat < 0xffff000 := hlt
    exact (hview v (by omega)).mp (h.heap v.toNat hge hlt)
  have hmany : F.length < (breakPages k₀ 0xffff000).length := by
    have hframes := howned.frames_le h.inv
    have hhanded : (imageBoot.withMem mem).memory.handedFrames.length = 448 := imageBoot_frames.1
    have hcount : ((0xffff000 : UInt64).toNat - (0x800000 : UInt64).toNat) / 4096 = 63487 := by decide
    rw [hpages, pagesBetween, hcount, List.length_map, List.length_range]
    omega
  obtain ⟨hbrk, hkept, hexhausted⟩ := syscallBrk_exhausted happart hrefused hnone hmany
  obtain ⟨F', howned', -⟩ := howned.step h.inv (execFits_brkCall _ _) (step_brk hbrk)
  have hcode := h.code (0x10000 : UInt64).toNat (le_refl _) (by decide)
  rw [ne_eq, hview _ (by decide), translate_eq_none_iff (lowerHalf_of_lt (by decide))] at hcode
  refine ⟨(breakLoop k₀ 0xffff000).2, F', ?_, ⟨mem, howned'⟩, hexhausted F' howned'.pool, hkept _ hcode⟩
  -- the loop does not look at the other record
  have hsame : ∀ x ∉ imageBoot.memory.handedFrames, (breakLoop k₀ 0xffff000).2.mem x = k₀.mm.mem x :=
    fun x hx => (howned'.outside x hx).trans (howned.outside x hx).symm
  have hcurrent := setProcess_current record hne
  have happart' : Apart (k₀.setProcess 0 record) F := by
    rw [Apart, hcurrent]
    exact happart
  obtain ⟨hbrk', -⟩ := syscallBrk_exhausted happart' (by rw [Refused, hcurrent]; exact hrefused)
    (by rw [breakPages_setProcess record hne, hcurrent]; exact hnone)
    (by rw [breakPages_setProcess record hne]; exact hmany)
  rw [breakLoop_setProcess record hne] at hbrk'
  exact .keeps (step_brk hbrk') hsame

/-- Then the copy that its `vfork` makes of it cannot be completed. -/
lemma orphan_vfork {mem : UInt64 → Page} (hinv : TableInv k₀ l) (howned : Owned (imageBoot.withMem mem).memory k₀ F)
    (hlen : F.length ≤ 1) (hcode : k₀.mm.lookup 4 k₀.current.cr3 (pathOf 0x10000) ≠ none) (hcur : k₀.currentProcess ≠ 0)
    (hstate : record.state = .unused) :
    ∃ k₁, processSyscallDispatch (call 58) (k₀.setProcess 0 record) = (.ok (negativeErrno .nomem, call 58), k₁) ∧
      k₁.processes 0 = .zero := by
  have hslot : unusedSlot (k₀.setProcess 0 record).processes = some 0 := by
    have hfin : List.finRange 16 = 0 :: [1, 2, 3, 4, 5, 6, 7, 8, 9, 10, 11, 12, 13, 14, 15] := rfl
    rw [unusedSlot, hfin, List.find?_cons_of_pos]
    rw [setProcess_self, decide_eq_true_eq]
    exact hstate
  obtain ⟨mm, hvfork⟩ := syscallVfork_nomem (k := k₀.setProcess 0 record) (call 58) hslot hcur
    fun cr3 mm ok mm' hnew hcr3 hclone => by
      rw [setProcess_current record hcur] at hclone
      exact vfork_starved howned hinv hlen hcode hnew hcr3 hclone
  have hdispatch : processSyscallDispatch (call 58) (k₀.setProcess 0 record) =
      syscallVfork (call 58) (k₀.setProcess 0 record) := by
    rw [processSyscallDispatch, show syscallNumber (call 58).rax = .vfork by decide]
  exact ⟨_, hdispatch.trans hvfork, setProcess_self (k₀.setProcess 0 record) 0 .zero⟩

end Starved

/-- The child's parent has no address space any more after a `vfork` that fails. -/
theorem orphaned_parent : imageBoot.memory.Valid ∧ InitFits imageBoot ∧ Starts imageBoot ∧
    imageLayout.Apart imageBoot.memory ∧ ∃ k k',
      StaticRun imageBoot imageLayout [.store 0x10000 117, .store 0x10001 0, .syscall (call 58),
        .syscall overwritingCall, brkCall 0xffff000] k ∧
      processSyscallDispatch (call 58) k = (.ok (negativeErrno .nomem, call 58), k') ∧
      k.current.vforkParent = some 0 ∧ (k.processes 0).cr3 = 0x1ff000 ∧ (k'.processes 0).cr3 = 0 := by
  refine ⟨imageBoot_valid, imageProgram.initFits, imageBoot_starts, imageLayout_apart, ?_⟩
  obtain ⟨k, hrun, htyped⟩ := @image_typed 117 (by decide)
  obtain ⟨k₁, hvfork, hchild⟩ := image_child htyped
  obtain ⟨k₂, l, F, record, hexecve, hstate, hcr3, horphaned⟩ := unused_step hchild
  obtain ⟨mm, F', hbrk, ⟨mem, howned⟩, hlen, hcode⟩ := orphan_brk record horphaned
  have hne : k₂.currentProcess ≠ 0 := by
    rw [horphaned.process]
    decide
  have hroot : ({ k₂ with mm := mm } : Kernel).current.cr3 ≠ 0 := howned.current_ne (horphaned.inv.of_table rfl rfl)
  have hmm : ({ k₂ with mm := mm }.setProcess 0 record : Kernel).mm = ({ k₂ with mm := mm } : Kernel).mm := rfl
  have hkept := (kept_place imageLayout_apart howned hmm k₂.currentProcess).lookup hroot (pathOf 0x10000)
  have hinv : TableInv ({ k₂ with mm := mm }.withMem
      (imageLayout.place ({ k₂ with mm := mm }.setProcess 0 record)).mm.mem) l := horphaned.inv.of_table rfl rfl
  obtain ⟨k', hcall, hzero⟩ := orphan_vfork hinv (howned.place imageLayout_apart hmm) hlen
    (fun hnone => hcode (hkept.symm.trans hnone)) hne hstate
  refine ⟨_, k', (((hrun.snoc hvfork).snoc hexecve).snoc hbrk), hcall, ?_, ?_, ?_⟩
  · exact (congrArg Process.vforkParent (setProcess_current record hne)).trans horphaned.parent
  · exact (congrArg Process.cr3 (setProcess_self k₂ 0 record)).trans hcr3
  · rw [hzero]
    rfl

end Xbks
