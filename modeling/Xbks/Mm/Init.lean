import Mathlib.Data.List.Perm.Basic
import Xbks.Mm.Clone

/-!
# Initialisation and new address spaces

The frames that `mmInit` hands to the allocator, and the address space that
`createKernelMappedPml4` builds from one of them.
-/

namespace Xbks

variable {s s' : Mm} {F F' : List UInt64} {start stop x q : UInt64}

/-! ### Ranges of pages -/

lemma toNat_pageAt {i : ℕ} (hi : i < (stop.toNat - start.toNat) / 4096) :
    (start + UInt64.ofNat (4096 * i)).toNat = start.toNat + 4096 * i := by
  have hstop := stop.toNat_lt
  have hofNat : (UInt64.ofNat (4096 * i)).toNat = 4096 * i :=
    Word.toNat_ofNat_of_lt (by omega)
  rw [Word.toNat_add_of_lt _ _ (by omega), hofNat]

/-- The pages between two page-aligned addresses. -/
lemma mem_pagesBetween (hstart : start.toNat % 4096 = 0) (hstop : stop.toNat % 4096 = 0) :
    x ∈ pagesBetween start stop ↔
      x.toNat % 4096 = 0 ∧ start.toNat ≤ x.toNat ∧ x.toNat < stop.toNat := by
  simp only [pagesBetween, List.mem_map, List.mem_range]
  constructor
  · rintro ⟨i, hi, rfl⟩
    rw [toNat_pageAt hi]
    omega
  · rintro ⟨hx, hge, hlt⟩
    have hi : (x.toNat - start.toNat) / 4096 < (stop.toNat - start.toNat) / 4096 := by omega
    refine ⟨(x.toNat - start.toNat) / 4096, hi, ?_⟩
    rw [← UInt64.toNat_inj, toNat_pageAt hi]
    omega

lemma nodup_pagesBetween (start stop : UInt64) : (pagesBetween start stop).Nodup := by
  refine List.Nodup.map_on ?_ List.nodup_range
  intro i hi j hj hij
  rw [List.mem_range] at hi hj
  have h := congrArg UInt64.toNat hij
  rw [toNat_pageAt hi, toNat_pageAt hj] at h
  omega

/-! ### The memory map -/

/-- The frames that `addUsableRange` passes to the allocator for an entry of the memory map. -/
def MemmapEntry.frames (entry : MemmapEntry) : List UInt64 :=
  if entry.usable then
    pagesBetween (alignUp entry.base pageSize) (alignDown (entry.base + entry.length) pageSize)
  else []

/-- The non-zero frames handed to the allocator. -/
def BootMemory.handedFrames (boot : BootMemory) : List UInt64 :=
  match boot.hhdm, boot.memmap with
  | some _, some entries => (entries.flatMap MemmapEntry.frames).filter (· ≠ 0)
  | _, _ => []

/-- The address belongs to the entry's range. -/
def MemmapEntry.Covers (entry : MemmapEntry) (address : UInt64) : Prop :=
  entry.base.toNat ≤ address.toNat ∧ address.toNat < entry.base.toNat + entry.length.toNat

/-- Frame `t` is a table of height `n` that the processor reads to translate a kernel address. The
bit 0x80 of an entry below the PML4 makes it map a large page instead of pointing to a table. -/
inductive KernelTable (mem : UInt64 → Page) (pml4 : UInt64) : ℕ → UInt64 → Prop
  | root : KernelTable mem pml4 4 pml4
  | child {n : ℕ} {t : UInt64} {i : Fin 512} (h : KernelTable mem pml4 (n + 2) t)
      (hi : n = 2 → 256 ≤ i.val) (hpresent : mem t i &&& pagePresent ≠ 0)
      (hsmall : n ≠ 2 → mem t i &&& 0x80 = 0) :
      KernelTable mem pml4 (n + 1) (pageTableFromEntry (mem t i))

/-- What the boot loader guarantees about the memory it reports: usable ranges are disjoint, are
physical addresses of at most 52 bits, do not wrap in the direct map either, and hold no page
table of the kernel. -/
structure BootMemory.Valid (boot : BootMemory) : Prop where
  disjoint : ∀ entries ∈ boot.memmap, entries.Pairwise fun a b =>
    a.usable = true → b.usable = true → ∀ x, a.Covers x → ¬b.Covers x
  physical : ∀ entries ∈ boot.memmap, ∀ entry ∈ entries, entry.usable = true →
    entry.base.toNat + entry.length.toNat ≤ 2 ^ 52
  direct : ∀ offset ∈ boot.hhdm, ∀ entries ∈ boot.memmap, ∀ entry ∈ entries, entry.usable = true →
    entry.base.toNat + entry.length.toNat + offset.toNat ≤ 2 ^ 64
  kernel : ∀ entries ∈ boot.memmap, ∀ entry ∈ entries, entry.usable = true →
    ∀ n t, KernelTable boot.mem (boot.cr3 &&& ~~~0xfff) n t → ¬entry.Covers t

/-- A frame taken from an entry lies in its range. -/
lemma MemmapEntry.mem_frames {entry : MemmapEntry}
    (hphys : entry.usable = true → entry.base.toNat + entry.length.toNat ≤ 2 ^ 52)
    (hx : x ∈ entry.frames) : entry.usable = true ∧ x.toNat % 4096 = 0 ∧
      entry.base.toNat ≤ x.toNat ∧ x.toNat + 4096 ≤ entry.base.toNat + entry.length.toNat := by
  rw [MemmapEntry.frames] at hx
  split_ifs at hx with husable
  · have hle := hphys husable
    have hsum : (entry.base + entry.length).toNat = entry.base.toNat + entry.length.toNat :=
      Word.toNat_add_of_lt _ _ (by omega)
    have hup := toNat_alignUp (v := entry.base) (by omega)
    have hdown := toNat_alignDown (entry.base + entry.length)
    rw [hsum] at hdown
    rw [mem_pagesBetween (by omega) (by omega)] at hx
    exact ⟨husable, by omega⟩
  · simp at hx

section Valid

variable {boot : BootMemory} (hboot : boot.Valid)
include hboot

lemma BootMemory.Valid.mem_handedFrames (hx : x ∈ boot.handedFrames) :
    x ≠ 0 ∧ ∃ offset ∈ boot.hhdm, ∃ entries ∈ boot.memmap, ∃ entry ∈ entries,
      entry.usable = true ∧ x.toNat % 4096 = 0 ∧ entry.base.toNat ≤ x.toNat ∧
        x.toNat + 4096 ≤ entry.base.toNat + entry.length.toNat := by
  rw [BootMemory.handedFrames] at hx
  split at hx
  · next offset entries hoffset hentries =>
    rw [List.mem_filter, List.mem_flatMap] at hx
    obtain ⟨⟨entry, hentry, hx⟩, hne⟩ := hx
    have h := MemmapEntry.mem_frames (hboot.physical entries hentries entry hentry) hx
    exact ⟨by simpa using hne, offset, hoffset, entries, hentries, entry, hentry, h⟩
  · simp at hx

/-- What is handed to the allocator are frames. -/
lemma BootMemory.Valid.isFrame {offset : UInt64} (hoffset : offset ∈ boot.hhdm)
    (hx : x ∈ boot.handedFrames) : IsFrame offset x := by
  obtain ⟨hne, offset', hoffset', entries, hentries, entry, hentry, husable, hal, hge, hle⟩ :=
    hboot.mem_handedFrames hx
  have hphys := hboot.physical entries hentries entry hentry husable
  have hdirect := hboot.direct offset hoffset entries hentries entry hentry husable
  have hsum : (x + offset).toNat = x.toNat + offset.toNat := Word.toNat_add_of_lt _ _ (by omega)
  have hpos := (Word.pos_iff_ne_zero x).mpr hne
  refine ⟨hal, hne, by omega, ?_⟩
  rw [← Word.pos_iff_ne_zero, hsum]
  omega

lemma BootMemory.Valid.nodup_handedFrames : boot.handedFrames.Nodup := by
  rw [BootMemory.handedFrames]
  split
  · next offset entries hoffset hentries =>
    refine List.Nodup.filter _ ?_
    rw [List.nodup_flatMap]
    constructor
    · intro entry _
      rw [MemmapEntry.frames]
      split_ifs
      · exact nodup_pagesBetween _ _
      · exact List.nodup_nil
    · have hphys := hboot.physical entries hentries
      refine (hboot.disjoint entries hentries).imp_of_mem ?_
      intro a b ha hb hab x hxa hxb
      obtain ⟨hua, -, hga, hla⟩ := MemmapEntry.mem_frames (hphys a ha) hxa
      obtain ⟨hub, -, hgb, hlb⟩ := MemmapEntry.mem_frames (hphys b hb) hxb
      exact hab hua hub x ⟨hga, by omega⟩ ⟨hgb, by omega⟩
  · exact List.nodup_nil

/-- No page table of the kernel is handed to the allocator. -/
lemma BootMemory.Valid.kernel_notMem {n : ℕ} {t : UInt64}
    (ht : KernelTable boot.mem (boot.cr3 &&& ~~~0xfff) n t) : t ∉ boot.handedFrames := by
  intro h
  obtain ⟨-, -, -, entries, hentries, entry, hentry, husable, -, hge, hle⟩ :=
    hboot.mem_handedFrames h
  exact hboot.kernel entries hentries entry hentry husable n t ht ⟨hge, by omega⟩

/-- After initialisation the handed frames are free, and all others are as they were. -/
theorem mmInit_spec : ∃ F, Pool (mmInit boot) F ∧ F.Perm boot.handedFrames ∧
    (mmInit boot).kernelCr3Value = boot.cr3 &&& ~~~0xfff ∧
    ∀ x ∉ boot.handedFrames, (mmInit boot).mem x = boot.mem x := by
  have hnd := hboot.nodup_handedFrames
  have hframes : ∀ offset ∈ boot.hhdm, ∀ x ∈ boot.handedFrames, IsFrame offset x :=
    fun _ hoffset _ hx => hboot.isFrame hoffset hx
  rw [BootMemory.handedFrames, mmInit]
  rw [BootMemory.handedFrames] at hnd
  simp only [BootMemory.handedFrames] at hframes
  match hoffset : boot.hhdm, hentries : boot.memmap with
  | none, _ | some _, none =>
    refine ⟨[], ?_, List.Perm.refl _, rfl, fun _ _ => rfl⟩
    exact ⟨rfl, rfl, by simp, List.nodup_nil⟩
  | some offset, some entries =>
    simp only [hoffset, hentries] at hnd hframes
    set s₀ : Mm :=
      { mem := boot.mem, hhdmOffsetValue := offset, kernelCr3Value := boot.cr3 &&& ~~~0xfff,
        freeFrames := 0, freeFrameCount := 0 } with hs₀
    have hempty : Pool s₀ [] := ⟨rfl, rfl, by simp, List.nodup_nil⟩
    have hfold : entries.foldl (fun s entry =>
        if entry.usable then addUsableRange s entry.base entry.length else s) s₀ =
        ((entries.flatMap MemmapEntry.frames).filter (· ≠ 0)).foldl pmmFreeFrame s₀ := by
      rw [List.foldl_filter, List.foldl_flatMap]
      congr 1
      funext s entry
      have hbody : (fun s x => if decide (x ≠ 0) = true then pmmFreeFrame s x else s) =
          pmmFreeFrame := by
        funext s x
        by_cases hx : x = 0
        · simp [hx, pmmFreeFrame_zero]
        · simp [hx]
      rw [hbody, MemmapEntry.frames]
      split_ifs
      · rfl
      · rfl
    obtain ⟨hpool, -, hcr3, hmem⟩ := hempty.free_all (by simpa using hnd)
      (hframes offset rfl)
    rw [← hfold] at hpool hcr3 hmem
    refine ⟨_, hpool, ?_, hcr3, hmem⟩
    rw [List.append_nil]
    exact List.reverse_perm _

end Valid

/-! ### Translation by the processor -/

/-- The walk of the processor through the page tables: the height at which it ends and the entry it
ends with. -/
def mmuWalk (mem : UInt64 → Page) : ℕ → UInt64 → List (Fin 512) → Option (ℕ × UInt64)
  | n + 1, t, i :: is =>
    if mem t i &&& pagePresent = 0 then none
    else if n = 0 ∨ n ≠ 3 ∧ mem t i &&& 0x80 ≠ 0 then some (n, mem t i)
    else mmuWalk mem n (pageTableFromEntry (mem t i)) is
  | _, _, _ => none

/-- The physical address of a virtual one, in a page of 4 KiB, 2 MiB or 1 GiB. -/
def mmuTranslate (s : Mm) (cr3 virtualAddress : UInt64) : Option UInt64 :=
  (mmuWalk s.mem 4 cr3 (pathOf virtualAddress)).map fun r =>
    let size := 4096 * 512 ^ r.1
    UInt64.ofNat (((r.2 &&& addressMask).toNat / size) * size + virtualAddress.toNat % size)

/-- A walk depends only on the tables it goes through, here those in `P`. -/
lemma mmuWalk_congr {m m' : UInt64 → Page} {P : ℕ → UInt64 → Prop}
    (hsame : ∀ n t, P (n + 1) t → m' t = m t)
    (hchild : ∀ n t i, n < 2 → P (n + 2) t → m t i &&& pagePresent ≠ 0 → m t i &&& 0x80 = 0 →
      P (n + 1) (pageTableFromEntry (m t i))) :
    ∀ {n : ℕ} {t : UInt64} (path : List (Fin 512)), n ≤ 3 → P n t →
      mmuWalk m' n t path = mmuWalk m n t path
  | 0, _, _, _, _ => by simp [mmuWalk]
  | _ + 1, _, [], _, _ => by simp [mmuWalk]
  | 1, t, i :: is, _, h => by
    rw [mmuWalk, mmuWalk, hsame 0 t h]
    split_ifs
    · rfl
    · rfl
    · simp [mmuWalk]
  | n + 2, t, i :: is, hn, h => by
    rw [mmuWalk, mmuWalk, hsame (n + 1) t h]
    split_ifs with hpresent hlarge
    · rfl
    · rfl
    · rw [not_or, not_and, not_not] at hlarge
      exact mmuWalk_congr hsame hchild is (by omega)
        (hchild n t i (by omega) h hpresent (hlarge.2 (by omega)))

/-- One level of the walk, from the PML4. -/
lemma mmuWalk_root {m m' : UInt64 → Page} {t : UInt64} {i : Fin 512} {is : List (Fin 512)}
    (hroot : m' t i = m t i)
    (hrest : m t i &&& pagePresent ≠ 0 → mmuWalk m' 3 (pageTableFromEntry (m t i)) is =
      mmuWalk m 3 (pageTableFromEntry (m t i)) is) :
    mmuWalk m' 4 t (i :: is) = mmuWalk m 4 t (i :: is) := by
  rw [mmuWalk, mmuWalk, hroot]
  split_ifs with hpresent hlarge
  · rfl
  · rfl
  · exact hrest hpresent

/-- Two memories that agree on the tables of a user's tree and on those of the kernel translate
every address alike. -/
theorem mmuTranslate_congr {p pml4 : UInt64} {m : UInt64 → Page}
    (huser : ∀ x ∈ s.tables 4 p, s'.mem x = s.mem x)
    (hupper : ∀ i : Fin 512, 256 ≤ i.val → s.mem p i = m pml4 i)
    (hkernel : ∀ n t, KernelTable m pml4 n t → s.mem t = m t ∧ s'.mem t = m t) (v : UInt64) :
    mmuTranslate s' p v = mmuTranslate s p v := by
  have hroot : s'.mem p = s.mem p := huser p Radix.self_mem_tables
  have hwalk : mmuWalk s'.mem 4 p (pathOf v) = mmuWalk s.mem 4 p (pathOf v) := by
    refine mmuWalk_root (by rw [hroot]) fun hpresent => ?_
    by_cases hv : (tableIndex v 39).val < 256
    · -- below a slot of the lower half: the tables of the user
      have hsel : Selected 3 (tableIndex v 39) := by
        rintro ⟨-, hge⟩
        omega
      refine mmuWalk_congr (P := fun n t => ∀ x ∈ s.tables n t, s'.mem x = s.mem x)
        (fun n t h => h t Radix.self_mem_tables) (fun n t i hn h hp _ x hx => ?_) _ (le_refl 3) ?_
      · refine h x (Radix.mem_tables_of_child (userNext_of_present ?_ hp) hx)
        rintro ⟨hn', -⟩
        omega
      · exact fun x hx => huser x (Radix.mem_tables_of_child (userNext_of_present hsel hpresent) hx)
    · -- below a slot of the upper half: the tables of the kernel
      have hi : 256 ≤ (tableIndex v 39).val := not_lt.mp hv
      refine mmuWalk_congr (P := KernelTable m pml4) (fun n t h => ?_) (fun n t i hn h hp hs => ?_)
        _ (le_refl 3) ?_
      · rw [(hkernel _ t h).1, (hkernel _ t h).2]
      · rw [(hkernel _ t h).1] at hp hs ⊢
        exact .child h (fun h2 => absurd h2 (by omega)) hp fun _ => hs
      · rw [hupper _ hi] at hpresent ⊢
        exact .child (n := 2) .root (fun _ => hi) hpresent fun h => absurd rfl h
  rw [mmuTranslate, hwalk, mmuTranslate]

/-! ### A new address space -/

/-- The address space behind `q` is empty and nothing but `q` has changed. -/
structure EmptySpace (q : UInt64) (s s' : Mm) (F' : List UInt64) : Prop where
  pool : Pool s' F'
  hhdm : s'.hhdmOffsetValue = s.hhdmOffsetValue
  kernelCr3 : s'.kernelCr3Value = s.kernelCr3Value
  frame : ∀ x ≠ q, s'.mem x = s.mem x
  nodes : s'.nodes 4 q = {q}
  lookup : ∀ path, s'.lookup 4 q path = none

/-- The address space behind `q` is empty, its upper half is the kernel's, and nothing but `q` has
changed. -/
structure NewSpace (q : UInt64) (s s' : Mm) (F' : List UInt64) : Prop extends EmptySpace q s s' F' where
  upper : ∀ i : Fin 512, 256 ≤ i.val → s'.mem q i = s.mem (s.kernelCr3Value &&& ~~~0xfff) i

lemma userNext_of_lower {page : Page} (h : ∀ i : Fin 512, ¬256 ≤ i.val → page i = 0) (i : Fin 512) :
    userNext 3 i (page i) = none := by
  by_cases hi : 256 ≤ i.val
  · rw [userNext, if_pos ⟨rfl, hi⟩]
  · rw [h i hi, userNext_zero]

/-- `createKernelMappedPml4` takes the first free frame, if there is one. -/
lemma createKernelMappedPml4_cases (hpool : Pool s F) :
    (F = [] ∧ createKernelMappedPml4 s = (0, s)) ∨
      ∃ q F' s', F = q :: F' ∧ createKernelMappedPml4 s = (q, s') ∧ EmptySpace q s s' F' ∧
        (s.kernelCr3Value &&& ~~~0xfff ≠ q → NewSpace q s s' F') := by
  match F, hpool with
  | [], hpool => exact .inl ⟨rfl, by simp [createKernelMappedPml4, hpool.alloc_nil]⟩
  | q :: F', hpool =>
    right
    have hq := hpool.frames q List.mem_cons_self
    have hqF : q ∉ F' := (List.nodup_cons.mp hpool.nodup).1
    refine ⟨q, F', (s.take q).setPage q fun i => if 256 ≤ i.val then
      (s.take q).mem ((s.take q).kernelCr3Value &&& ~~~0xfff) i else (s.take q).mem q i, rfl,
      by simp only [createKernelMappedPml4, hpool.alloc_cons, if_neg hq.ne_zero], ?_⟩
    have hzero : ∀ i : Fin 512, ¬256 ≤ i.val → (if 256 ≤ i.val then
        (s.take q).mem ((s.take q).kernelCr3Value &&& ~~~0xfff) i else (s.take q).mem q i) = 0 := by
      intro i hi
      rw [if_neg hi, take_mem, Function.update_self]
      rfl
    have hempty : EmptySpace q s ((s.take q).setPage q fun i => if 256 ≤ i.val then
        (s.take q).mem ((s.take q).kernelCr3Value &&& ~~~0xfff) i else (s.take q).mem q i) F' := by
      refine
        { pool := hpool.take.setPage hqF
          hhdm := rfl
          kernelCr3 := rfl
          frame := fun x hx => ?_
          nodes := ?_
          lookup := fun path => ?_ }
      · rw [setPage_mem_of_ne hx, take_mem, Function.update_of_ne hx]
      · apply Radix.nodes_of_all_none
        intro i
        rw [setPage_mem_self]
        exact userNext_of_lower hzero i
      · match path with
        | [] => exact Radix.lookup_nil
        | i :: is =>
          rw [Mm.lookup, Radix.lookup_succ, setPage_mem_self, userNext_of_lower hzero i]
          rfl
    refine ⟨hempty, fun hkq => ⟨hempty, fun i hi => ?_⟩⟩
    rw [setPage_mem_self, if_pos hi, take_mem, take_kernelCr3, Function.update_of_ne hkq]

/-- The kernel's PML4 is not a free frame, so its upper half is what the new one gets. -/
theorem createKernelMappedPml4_spec (hpool : Pool s F)
    (hkernel : s.kernelCr3Value &&& ~~~0xfff ∉ F) :
    (F = [] ∧ createKernelMappedPml4 s = (0, s)) ∨
      ∃ q F' s', F = q :: F' ∧ createKernelMappedPml4 s = (q, s') ∧ NewSpace q s s' F' := by
  rcases createKernelMappedPml4_cases hpool with h | ⟨q, F', s', rfl, hnew, -, hspace⟩
  · exact .inl h
  · exact .inr ⟨q, F', s', rfl, hnew, hspace fun h => hkernel (h ▸ List.mem_cons_self)⟩

end Xbks
