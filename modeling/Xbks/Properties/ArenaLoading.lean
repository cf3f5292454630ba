import Mathlib.Order.Bounds.Basic
import Xbks.Fs.Elf
import Xbks.Process.Record

/-!
# The arena loader is exact and atomic

The first loop leaves bounds from which the checks of the second one follow, so that nothing is
written unless the whole image is loaded.
-/

namespace Xbks

variable {m m' m'' : ArenaMemory} {address arenaBase arenaSize a : UInt64} {n : ℕ}

/-! ### Ranges of addresses -/

/-- One of the `n` addresses from `address` on. -/
def InRange (address : UInt64) (n : ℕ) (a : UInt64) : Prop := ∃ i < n, a = address + UInt64.ofNat i

lemma InRange.mono {k : ℕ} (h : InRange address n a) (hle : n ≤ k) : InRange address k a := by
  obtain ⟨i, hi, rfl⟩ := h
  exact ⟨i, by omega, rfl⟩

/-- The part of a range that starts at an offset. -/
lemma InRange.offset {offset : UInt64} {k : ℕ} (h : InRange (address + offset) n a)
    (hle : offset.toNat + n ≤ k) : InRange address k a := by
  obtain ⟨i, hi, rfl⟩ := h
  refine ⟨offset.toNat + i, by omega, ?_⟩
  rw [UInt64.ofNat_add, UInt64.ofNat_toNat, UInt64.add_assoc]

lemma mem_addresses : a ∈ (List.range n).map (fun i => address + UInt64.ofNat i) ↔ InRange address n a := by
  rw [List.mem_map]
  constructor
  · rintro ⟨i, hi, rfl⟩
    exact ⟨i, List.mem_range.mp hi, rfl⟩
  · rintro ⟨i, hi, rfl⟩
    exact ⟨i, List.mem_range.mpr hi, rfl⟩

lemma offset_inj {i j : ℕ} (hi : i < 2 ^ 64) (hj : j < 2 ^ 64)
    (h : address + UInt64.ofNat i = address + UInt64.ofNat j) : i = j := by
  have hsame : UInt64.ofNat i = UInt64.ofNat j := UInt64.add_right_inj _ |>.mp h
  rw [← UInt64.toNat_ofNat_of_lt' hi, hsame, UInt64.toNat_ofNat_of_lt' hj]

/-! ### Accesses -/

/-- From `m` to `m'` only addresses in `R` are read, and only addresses in `W` are written. -/
structure Touches (R W : UInt64 → Prop) (m m' : ArenaMemory) : Prop where
  reads : ∃ as, m'.reads = m.reads ++ as ∧ ∀ a ∈ as, R a
  writes : ∃ as, m'.writes = m.writes ++ as ∧ ∀ a ∈ as, W a
  bytes : ∀ a, ¬W a → m'.bytes a = m.bytes a

namespace Touches

variable {R W R' W' : UInt64 → Prop}

lemma refl (m : ArenaMemory) : Touches R W m m where
  reads := ⟨[], (List.append_nil _).symm, nofun⟩
  writes := ⟨[], (List.append_nil _).symm, nofun⟩
  bytes _ _ := rfl

lemma trans (h : Touches R W m m') (h' : Touches R W m' m'') : Touches R W m m'' where
  reads := by
    obtain ⟨as, heq, has⟩ := h.reads
    obtain ⟨as', heq', has'⟩ := h'.reads
    refine ⟨as ++ as', by rw [heq', heq, List.append_assoc], ?_⟩
    exact List.forall_mem_append.mpr ⟨has, has'⟩
  writes := by
    obtain ⟨as, heq, has⟩ := h.writes
    obtain ⟨as', heq', has'⟩ := h'.writes
    refine ⟨as ++ as', by rw [heq', heq, List.append_assoc], ?_⟩
    exact List.forall_mem_append.mpr ⟨has, has'⟩
  bytes a ha := (h'.bytes a ha).trans (h.bytes a ha)

lemma mono (h : Touches R W m m') (hR : ∀ a, R a → R' a) (hW : ∀ a, W a → W' a) : Touches R' W' m m' where
  reads := h.reads.imp fun _ has => ⟨has.1, fun a ha => hR a (has.2 a ha)⟩
  writes := h.writes.imp fun _ has => ⟨has.1, fun a ha => hW a (has.2 a ha)⟩
  bytes a ha := h.bytes a fun hmem => ha (hW a hmem)

lemma noteReads (m : ArenaMemory) (address : UInt64) (n : ℕ) :
    Touches (InRange address n) W m (m.noteReads address n) where
  reads := ⟨_, rfl, fun _ ha => mem_addresses.mp ha⟩
  writes := ⟨[], (List.append_nil _).symm, nofun⟩
  bytes _ _ := rfl

lemma put (m : ArenaMemory) (address : UInt64) (b : UInt8) :
    Touches R (· = address) m (m.put address b) where
  reads := ⟨[], (List.append_nil _).symm, nofun⟩
  writes := ⟨[address], rfl, fun _ ha => List.mem_singleton.mp ha⟩
  bytes _ ha := Function.update_of_ne ha _ _

/-- Nothing is written. -/
lemma unwritten (h : Touches R (fun _ => False) m m') : m'.bytes = m.bytes ∧ m'.writes = m.writes := by
  obtain ⟨as, heq, has⟩ := h.writes
  refine ⟨funext fun a => h.bytes a fun hf => hf, ?_⟩
  rw [heq, List.eq_nil_iff_forall_not_mem.mpr has, List.append_nil]

end Touches

@[simp] lemma ArenaMemory.put_bytes (m : ArenaMemory) (address : UInt64) (b : UInt8) :
    (m.put address b).bytes = Function.update m.bytes address b := rfl

/-! ### `memset` and `memcpy` -/

lemma touches_memset (m : ArenaMemory) (dest : UInt64) (value : UInt8) (n : ℕ) :
    Touches (fun _ => False) (InRange dest n) m (m.memset dest value n) := by
  induction n with
  | zero => exact Touches.refl m
  | succ n ih =>
    rw [ArenaMemory.memset, List.range_succ, List.foldl_append]
    refine (ih.mono (fun _ h => h) fun _ h => h.mono (Nat.le_succ n)).trans ?_
    refine (Touches.put _ _ _).mono (fun _ h => h) ?_
    rintro a rfl
    exact ⟨n, Nat.lt_succ_self n, rfl⟩

lemma memset_bytes (m : ArenaMemory) (dest : UInt64) (value : UInt8) {i : ℕ} (hi : i < n) :
    (m.memset dest value n).bytes (dest + UInt64.ofNat i) = value := by
  induction n with
  | zero => cases hi
  | succ n ih =>
    rw [ArenaMemory.memset, List.range_succ, List.foldl_append, List.foldl_cons, List.foldl_nil,
      ArenaMemory.put_bytes]
    by_cases hlast : dest + UInt64.ofNat i = dest + UInt64.ofNat n
    · rw [hlast, Function.update_self]
    · rw [Function.update_of_ne hlast]
      refine ih ((Nat.lt_succ_iff_lt_or_eq.mp hi).resolve_right ?_)
      rintro rfl
      exact hlast rfl

/-- No byte of the source is one of the destination. -/
def SourceApart (src : UInt64) (k : ℕ) (dest : UInt64) (n : ℕ) : Prop :=
  ∀ a, InRange src k a → ¬InRange dest n a

lemma touches_memcpy (m : ArenaMemory) (dest src : UInt64) (n : ℕ) :
    Touches (InRange src n) (InRange dest n) m (m.memcpy dest src n) := by
  induction n with
  | zero => exact Touches.refl m
  | succ n ih =>
    rw [ArenaMemory.memcpy, List.range_succ, List.foldl_append]
    refine (ih.mono (fun _ h => h.mono (Nat.le_succ n)) fun _ h => h.mono (Nat.le_succ n)).trans ?_
    have hread : ∀ a, InRange (src + UInt64.ofNat n) 1 a → InRange src (n + 1) a := by
      rintro a ⟨i, hi, rfl⟩
      rw [Nat.lt_one_iff.mp hi]
      exact ⟨n, Nat.lt_succ_self n, UInt64.add_zero _⟩
    refine ((Touches.noteReads _ _ _).mono hread fun _ h => h).trans ?_
    refine (Touches.put _ _ _).mono (fun _ h => h) ?_
    rintro a rfl
    exact ⟨n, Nat.lt_succ_self n, rfl⟩

lemma memcpy_bytes (m : ArenaMemory) {dest src : UInt64} (hapart : SourceApart src n dest n) (hn : n ≤ 2 ^ 64)
    {i : ℕ} (hi : i < n) :
    (m.memcpy dest src n).bytes (dest + UInt64.ofNat i) = m.bytes (src + UInt64.ofNat i) := by
  induction n with
  | zero => cases hi
  | succ n ih =>
    have hapart' : SourceApart src n dest n :=
      fun a ha hdest => hapart a (ha.mono (Nat.le_succ n)) (hdest.mono (Nat.le_succ n))
    rw [ArenaMemory.memcpy, List.range_succ, List.foldl_append, List.foldl_cons, List.foldl_nil,
      ArenaMemory.put_bytes]
    rcases Nat.lt_succ_iff_lt_or_eq.mp hi with hlt | rfl
    · have hne : dest + UInt64.ofNat i ≠ dest + UInt64.ofNat n :=
        fun h => Nat.ne_of_lt hlt (offset_inj (by omega) (by omega) h)
      rw [Function.update_of_ne hne]
      exact ih hapart' (by omega) hlt
    · rw [Function.update_self]
      refine (touches_memcpy m dest src i).bytes _ fun hdest => ?_
      exact hapart _ ⟨i, hi, rfl⟩ (hdest.mono (Nat.le_succ i))

/-! ### The header -/

lemma addOverflowsU64_iff (lhs rhs : UInt64) :
    addOverflowsU64 lhs rhs = true ↔ 2 ^ 64 ≤ lhs.toNat + rhs.toNat := by
  have hlhs := lhs.toNat_lt
  have hrhs := rhs.toNat_lt
  have hle : lhs ≤ uint64Max := by
    rw [UInt64.le_iff_toNat_le]
    change lhs.toNat ≤ 2 ^ 64 - 1
    omega
  rw [addOverflowsU64, decide_eq_true_eq, UInt64.lt_iff_toNat_lt, UInt64.toNat_sub_of_le _ _ hle]
  change 2 ^ 64 - 1 - lhs.toNat < rhs.toNat ↔ _
  omega

/-- The checks say that the table of program headers lies in the file. -/
lemma table_in_file {phoff size : UInt64} {phnum : UInt16}
    (hphnum : ¬phnum.toUInt64 > (uint64Max - phoff) / phdrSize)
    (hend : ¬phoff + phnum.toUInt64 * phdrSize > size) :
    phoff.toNat + 56 * phnum.toNat ≤ size.toNat := by
  have hlt := phnum.toNat_lt
  have hphofflt := phoff.toNat_lt
  have hle : phoff ≤ uint64Max := by
    rw [UInt64.le_iff_toNat_le]
    change phoff.toNat ≤ 2 ^ 64 - 1
    omega
  rw [gt_iff_lt, UInt64.not_lt, UInt64.le_iff_toNat_le] at hphnum hend
  rw [UInt64.toNat_div, UInt64.toNat_sub_of_le _ _ hle, UInt16.toNat_toUInt64] at hphnum
  change phnum.toNat ≤ (2 ^ 64 - 1 - phoff.toNat) / 56 at hphnum
  rw [UInt64.toNat_add, UInt64.toNat_mul, UInt16.toNat_toUInt64] at hend
  change (phoff.toNat + phnum.toNat * 56 % 2 ^ 64) % 2 ^ 64 ≤ size.toNat at hend
  omega

variable {file : RamdiskFile} {header : Elf64Ehdr}

/-- One of the addresses of the file. -/
abbrev InFile (file : RamdiskFile) : UInt64 → Prop := InRange file.data file.size.toNat

/-- The table of program headers lies in the file. -/
def TableInFile (file : RamdiskFile) (header : Elf64Ehdr) : Prop :=
  header.phoff.toNat + 56 * header.phnum.toNat ≤ file.size.toNat

/-- No address. -/
abbrev Nowhere : UInt64 → Prop := fun _ => False

lemma touches_validateElfHeader (m : ArenaMemory) (file : RamdiskFile) :
    Touches (InFile file) Nowhere m (validateElfHeader m (some file)).2 := by
  rw [validateElfHeader]
  by_cases hfile : file.data = 0 ∨ file.directory = true ∨ file.size < ehdrSize
  · rw [if_pos hfile]
    exact Touches.refl m
  · rw [if_neg hfile]
    have hsize : 64 ≤ file.size.toNat := by
      rw [not_or, not_or, UInt64.not_lt, UInt64.le_iff_toNat_le] at hfile
      exact hfile.2.2
    have hread : Touches (InFile file) Nowhere m (m.noteReads file.data 64) :=
      (Touches.noteReads m file.data 64).mono (fun _ h => h.mono hsize) fun _ h => h
    dsimp only
    split
    · exact hread
    · split
      · exact hread
      · exact hread

lemma validateElfHeader_some {m : ArenaMemory} {file file' : RamdiskFile}
    (h : (validateElfHeader m (some file)).1 = some (file', header)) :
    file' = file ∧ TableInFile file header ∧ header = Elf64Ehdr.read m.bytes file.data := by
  rw [validateElfHeader] at h
  by_cases hfile : file.data = 0 ∨ file.directory = true ∨ file.size < ehdrSize
  · rw [if_pos hfile] at h
    cases h
  · rw [if_neg hfile] at h
    dsimp only at h
    split at h
    · cases h
    · split at h
      · cases h
      · rename_i htable
        rw [not_or, not_or] at htable
        simp only [Option.some.injEq, Prod.mk.injEq] at h
        obtain ⟨rfl, rfl⟩ := h
        exact ⟨rfl, table_in_file htable.2.1 htable.2.2, rfl⟩

/-! ### The first loop -/

/-- A program header lies in the table. -/
lemma phdr_in_file (htable : TableInFile file header) {i : ℕ} (hi : i < header.phnum.toNat)
    (h : InRange (phdrAddress file header i) 56 a) : InFile file a := by
  have hsize := file.size.toNat_lt
  rw [TableInFile] at htable
  have hindex : (UInt64.ofNat (56 * i)).toNat = 56 * i := UInt64.toNat_ofNat_of_lt' (show _ < 2 ^ 64 by omega)
  have haddress : phdrAddress file header i = file.data + (header.phoff + UInt64.ofNat (56 * i)) :=
    UInt64.add_assoc _ _ _
  rw [haddress] at h
  apply h.offset
  rw [UInt64.toNat_add, hindex]
  omega

/-- The headers of the segments among those with the given numbers. -/
def loadHeaders (kmem : KernelMemory) (file : RamdiskFile) (header : Elf64Ehdr) (xs : List ℕ) :
    List ProgramHeader :=
  (xs.map fun i => ProgramHeader.read kmem (phdrAddress file header i)).filter (·.type = 1)

variable {kmem : KernelMemory} {xs : List ℕ} {x : ℕ}

lemma loadHeaders_cons_of_ne (h : (ProgramHeader.read kmem (phdrAddress file header x)).type ≠ 1) :
    loadHeaders kmem file header (x :: xs) = loadHeaders kmem file header xs := by
  simp [loadHeaders, h]

lemma loadHeaders_cons_of_eq (h : (ProgramHeader.read kmem (phdrAddress file header x)).type = 1) :
    loadHeaders kmem file header (x :: xs) =
      ProgramHeader.read kmem (phdrAddress file header x) :: loadHeaders kmem file header xs := by
  simp [loadHeaders, h]

lemma fits_iff {phdr : ProgramHeader} {size : UInt64} : phdr.fits size = true ↔
    phdr.filesz.toNat ≤ phdr.memsz.toNat ∧ phdr.offset.toNat + phdr.filesz.toNat ≤ size.toNat ∧
      phdr.vaddr.toNat + phdr.memsz.toNat < 2 ^ 64 := by
  have hsize := size.toNat_lt
  rw [ProgramHeader.fits, decide_eq_true_eq, not_or, not_or, not_or, addOverflowsU64_iff, addOverflowsU64_iff,
    UInt64.not_lt, gt_iff_lt, UInt64.not_lt, UInt64.le_iff_toNat_le, UInt64.le_iff_toNat_le, UInt64.toNat_add]
  omega

/-- The range is that of the segments scanned so far, which have passed the checks. -/
structure Scanned (size : UInt64) (phdrs : List ProgramHeader) (range : LoadRange) : Prop where
  fits : ∀ p ∈ phdrs, p.fits size
  low : ∀ p ∈ phdrs, range.minVaddr.toNat ≤ p.vaddr.toNat
  high : ∀ p ∈ phdrs, p.vaddr.toNat + p.memsz.toNat ≤ range.maxVaddr.toNat
  lowest : range.minVaddr = uint64Max ∨ ∃ p ∈ phdrs, p.vaddr.toNat = range.minVaddr.toNat
  highest : range.maxVaddr = 0 ∨ ∃ p ∈ phdrs, p.vaddr.toNat + p.memsz.toNat = range.maxVaddr.toNat
  found : range.found = true → phdrs ≠ []

lemma scanned_nil (size : UInt64) : Scanned size [] ⟨uint64Max, 0, false⟩ where
  fits := nofun
  low := nofun
  high := nofun
  lowest := .inl rfl
  highest := .inl rfl
  found := nofun

lemma Scanned.include {size : UInt64} {phdrs : List ProgramHeader} {range : LoadRange}
    (h : Scanned size phdrs range) {phdr : ProgramHeader} (hfits : phdr.fits size) :
    Scanned size (phdrs ++ [phdr]) (range.include phdr) := by
  have hend : (phdr.vaddr + phdr.memsz).toNat = phdr.vaddr.toNat + phdr.memsz.toNat := by
    rw [UInt64.toNat_add, Nat.mod_eq_of_lt (fits_iff.mp hfits).2.2]
  have hlow : (range.include phdr).minVaddr.toNat ≤ range.minVaddr.toNat ∧
      (range.include phdr).minVaddr.toNat ≤ phdr.vaddr.toNat := by
    dsimp only [LoadRange.include]
    split
    · rename_i hlt
      rw [UInt64.lt_iff_toNat_lt] at hlt
      omega
    · rename_i hge
      rw [UInt64.not_lt, UInt64.le_iff_toNat_le] at hge
      omega
  have hhigh : range.maxVaddr.toNat ≤ (range.include phdr).maxVaddr.toNat ∧
      phdr.vaddr.toNat + phdr.memsz.toNat ≤ (range.include phdr).maxVaddr.toNat := by
    dsimp only [LoadRange.include]
    split
    · rename_i hgt
      rw [gt_iff_lt, UInt64.lt_iff_toNat_lt] at hgt
      omega
    · rename_i hle
      rw [gt_iff_lt, UInt64.not_lt, UInt64.le_iff_toNat_le] at hle
      omega
  constructor
  · rw [List.forall_mem_append, List.forall_mem_singleton]
    exact ⟨h.fits, hfits⟩
  · rw [List.forall_mem_append, List.forall_mem_singleton]
    exact ⟨fun p hp => hlow.1.trans (h.low p hp), hlow.2⟩
  · rw [List.forall_mem_append, List.forall_mem_singleton]
    exact ⟨fun p hp => (h.high p hp).trans hhigh.1, hhigh.2⟩
  · dsimp only [LoadRange.include]
    split
    · exact .inr ⟨phdr, List.mem_append_right _ (List.mem_singleton_self phdr), rfl⟩
    · exact h.lowest.imp_right fun ⟨p, hp, heq⟩ => ⟨p, List.mem_append_left _ hp, heq⟩
  · dsimp only [LoadRange.include]
    split
    · exact .inr ⟨phdr, List.mem_append_right _ (List.mem_singleton_self phdr), hend.symm⟩
    · exact h.highest.imp_right fun ⟨p, hp, heq⟩ => ⟨p, List.mem_append_left _ hp, heq⟩
  · intro _
    exact List.append_ne_nil_of_right_ne_nil _ (List.cons_ne_nil _ _)

/-- The first loop reads the table only. -/
lemma touches_scan (htable : TableInFile file header) (s : ArenaMemory × LoadRange)
    (hxs : ∀ i ∈ xs, i < header.phnum.toNat) :
    Touches (InFile file) Nowhere s.1 (Loop.forWhile (scanSegment file header) s xs).2.1 := by
  refine Loop.forWhile_rel (R := fun s t : ArenaMemory × LoadRange => Touches (InFile file) Nowhere s.1 t.1)
    (fun s => Touches.refl s.1) (fun h h' => h.trans h') ?_
  intro s i hi
  have hread : Touches (InFile file) Nowhere s.1 (s.1.noteReads (phdrAddress file header i) 56) :=
    (Touches.noteReads _ _ _).mono (fun _ h => phdr_in_file htable (hxs i hi) h) fun _ h => h
  rw [scanSegment]
  split
  · exact hread
  · split
    · exact hread
    · exact hread

/-- What an iteration that goes on does. -/
lemma scanSegment_cases {s : ArenaMemory × LoadRange} (h : (scanSegment file header s x).1 = true) :
    let phdr := ProgramHeader.read s.1.bytes (phdrAddress file header x)
    let m := s.1.noteReads (phdrAddress file header x) 56
    (phdr.type ≠ 1 ∧ (scanSegment file header s x).2 = (m, s.2)) ∨
      (phdr.type = 1 ∧ phdr.fits file.size ∧ (scanSegment file header s x).2 = (m, s.2.include phdr)) := by
  intro phdr m
  rw [scanSegment] at h ⊢
  by_cases htype : phdr.type ≠ 1
  · rw [if_pos htype]
    exact .inl ⟨htype, rfl⟩
  · rw [if_neg htype] at h ⊢
    by_cases hfits : ¬phdr.fits file.size = true
    · rw [if_pos hfits] at h
      cases h
    · rw [if_neg hfits]
      exact .inr ⟨not_not.mp htype, not_not.mp hfits, rfl⟩

/-- If the first loop goes through, its range is that of all segments. -/
lemma scanned_scan (header : Elf64Ehdr) (xs : List ℕ) {s : ArenaMemory × LoadRange}
    {phdrs : List ProgramHeader} (h : Scanned file.size phdrs s.2)
    (htrue : (Loop.forWhile (scanSegment file header) s xs).1 = true) :
    Scanned file.size (phdrs ++ loadHeaders s.1.bytes file header xs)
      (Loop.forWhile (scanSegment file header) s xs).2.2 := by
  induction xs generalizing s phdrs with
  | nil =>
    rw [loadHeaders, List.map_nil, List.filter_nil, List.append_nil]
    exact h
  | cons i xs ih =>
    cases hbody : (scanSegment file header s i).1 with
    | false =>
      rw [Loop.forWhile_cons_false hbody] at htrue
      cases htrue
    | true =>
      rw [Loop.forWhile_cons_true hbody] at htrue ⊢
      rcases scanSegment_cases hbody with ⟨htype, heq⟩ | ⟨htype, hfits, heq⟩
      · rw [heq] at htrue ⊢
        rw [loadHeaders_cons_of_ne htype]
        exact ih (s := (s.1.noteReads (phdrAddress file header i) 56, s.2)) h htrue
      · rw [heq] at htrue ⊢
        rw [loadHeaders_cons_of_eq htype, List.append_cons]
        exact ih (h.include hfits) htrue

/-! ### The second loop -/

/-- Zeros. -/
def zeros (n : ℕ) : Memory UInt8 := fun x => if x < n then some 0 else none

/-- The image with the file's bytes of a segment at its place. -/
def storeSegment (kmem : KernelMemory) (file : RamdiskFile) (minVaddr : UInt64) (image : Memory UInt8)
    (phdr : ProgramHeader) : Memory UInt8 :=
  image.store (phdr.vaddr.toNat - minVaddr.toNat)
    (bytesAt kmem (file.data + phdr.offset) phdr.filesz.toNat)

/-- The arena holds the image. -/
def HoldsImage (bytes : KernelMemory) (arenaBase : UInt64) (n : ℕ) (image : Memory UInt8) : Prop :=
  ∀ j < n, image j = some (bytes (arenaBase + UInt64.ofNat j))

/-- The segments that the second loop copies lie between the bounds, and these fit the arena. -/
structure Copyable (file : RamdiskFile) (minVaddr arenaSize : UInt64) (phdr : ProgramHeader) : Prop where
  filesz : phdr.filesz.toNat ≤ phdr.memsz.toNat
  offset : phdr.offset.toNat + phdr.filesz.toNat ≤ file.size.toNat
  low : minVaddr.toNat ≤ phdr.vaddr.toNat
  high : phdr.vaddr.toNat - minVaddr.toNat + phdr.memsz.toNat ≤ arenaSize.toNat

variable {minVaddr : UInt64} {phdr : ProgramHeader} {image : Memory UInt8}

/-- The check of the second loop passes. -/
lemma Copyable.check (h : Copyable file minVaddr arenaSize phdr) :
    (phdr.vaddr - minVaddr).toNat = phdr.vaddr.toNat - minVaddr.toNat ∧
      ¬(phdr.vaddr - minVaddr > arenaSize ∨ phdr.memsz > arenaSize - (phdr.vaddr - minVaddr)) := by
  obtain ⟨-, -, hlow, hhigh⟩ := h
  have hrelative : (phdr.vaddr - minVaddr).toNat = phdr.vaddr.toNat - minVaddr.toNat :=
    UInt64.toNat_sub_of_le _ _ (UInt64.le_iff_toNat_le.mpr hlow)
  have hle : phdr.vaddr - minVaddr ≤ arenaSize := by
    rw [UInt64.le_iff_toNat_le, hrelative]
    omega
  refine ⟨hrelative, ?_⟩
  rw [not_or, gt_iff_lt, gt_iff_lt, UInt64.not_lt, UInt64.not_lt]
  refine ⟨hle, ?_⟩
  rw [UInt64.le_iff_toNat_le, UInt64.toNat_sub_of_le _ _ hle, hrelative]
  omega

/-- Copying a segment updates the image. -/
lemma holdsImage_memcpy {m : ArenaMemory} (h : Copyable file minVaddr arenaSize phdr)
    (hapart : SourceApart file.data file.size.toNat arenaBase arenaSize.toNat)
    (hsame : ∀ a, InFile file a → m.bytes a = kmem a)
    (himage : HoldsImage m.bytes arenaBase arenaSize.toNat image) :
    HoldsImage (m.memcpy (arenaBase + (phdr.vaddr - minVaddr)) (file.data + phdr.offset)
        phdr.filesz.toNat).bytes arenaBase arenaSize.toNat (storeSegment kmem file minVaddr image phdr) := by
  obtain ⟨hrelative, -⟩ := h.check
  obtain ⟨hfilesz, hoffset, hlow, hhigh⟩ := h
  have hlt := arenaSize.toNat_lt
  have hsource : ∀ a, InRange (file.data + phdr.offset) phdr.filesz.toNat a → InFile file a :=
    fun a ha => ha.offset hoffset
  have hdest : ∀ a, InRange (arenaBase + (phdr.vaddr - minVaddr)) phdr.filesz.toNat a →
      InRange arenaBase arenaSize.toNat a := fun a ha => ha.offset (by omega)
  have haddress : ∀ i, arenaBase + (phdr.vaddr - minVaddr) + UInt64.ofNat i =
      arenaBase + UInt64.ofNat (phdr.vaddr.toNat - minVaddr.toNat + i) := by
    intro i
    rw [UInt64.add_assoc, UInt64.ofNat_add, ← hrelative, UInt64.ofNat_toNat]
  intro j hj
  rw [storeSegment]
  by_cases hinside : phdr.vaddr.toNat - minVaddr.toNat ≤ j ∧
      j < phdr.vaddr.toNat - minVaddr.toNat + phdr.filesz.toNat
  · obtain ⟨i, rfl⟩ := Nat.exists_eq_add_of_le hinside.1
    have hi : i < phdr.filesz.toNat := by omega
    rw [Memory.store_inside hinside.1 (by simpa using hi), ← haddress,
      memcpy_bytes m (fun a ha hin => hapart a (hsource a ha) (hdest a hin)) (by omega) hi,
      hsame _ (hsource _ ⟨i, hi, rfl⟩), Nat.add_sub_cancel_left]
    simp [bytesAt, hi]
  · have hbeside : ¬InRange (arenaBase + (phdr.vaddr - minVaddr)) phdr.filesz.toNat
        (arenaBase + UInt64.ofNat j) := by
      rintro ⟨i, hi, heq⟩
      rw [haddress] at heq
      have hji := offset_inj (by omega) (by omega) heq
      omega
    rw [Memory.store_outside (by rw [length_bytesAt]; omega), (touches_memcpy _ _ _ _).bytes _ hbeside]
    exact himage j hj

/-- The program headers are those of the file. -/
lemma read_eq (htable : TableInFile file header) (hx : x < header.phnum.toNat)
    {bytes : KernelMemory} (hsame : ∀ a, InFile file a → bytes a = kmem a) :
    ProgramHeader.read bytes (phdrAddress file header x) =
      ProgramHeader.read kmem (phdrAddress file header x) := by
  have hbytes : SameBytes kmem bytes file (header.phoff.toNat + 56 * x) 56 := by
    intro n _ hn
    rw [TableInFile] at htable
    exact hsame _ ⟨n, by omega, rfl⟩
  exact hbytes.programHeader_eq

/-- The second loop goes through, and copies the segments. -/
lemma copied {m : ArenaMemory} (htable : TableInFile file header) (hxs : ∀ i ∈ xs, i < header.phnum.toNat)
    (hapart : SourceApart file.data file.size.toNat arenaBase arenaSize.toNat)
    (hcopyable : ∀ p ∈ loadHeaders kmem file header xs, Copyable file minVaddr arenaSize p)
    (hsame : ∀ a, InFile file a → m.bytes a = kmem a)
    (himage : HoldsImage m.bytes arenaBase arenaSize.toNat image) :
    ∃ m', Loop.forWhile (copySegment file header arenaBase arenaSize minVaddr) m xs = (true, m') ∧
      Touches (InFile file) (InRange arenaBase arenaSize.toNat) m m' ∧
      HoldsImage m'.bytes arenaBase arenaSize.toNat
        ((loadHeaders kmem file header xs).foldl (storeSegment kmem file minVaddr) image) := by
  induction xs generalizing m image with
  | nil => exact ⟨m, rfl, Touches.refl m, himage⟩
  | cons i xs ih =>
    rw [List.forall_mem_cons] at hxs
    have hread := read_eq htable hxs.1 hsame
    have hnote : Touches (InFile file) (InRange arenaBase arenaSize.toNat) m
        (m.noteReads (phdrAddress file header i) 56) :=
      (Touches.noteReads _ _ _).mono (fun _ h => phdr_in_file htable hxs.1 h) fun _ h => h
    by_cases htype : (ProgramHeader.read kmem (phdrAddress file header i)).type ≠ 1
    · rw [loadHeaders_cons_of_ne htype] at hcopyable ⊢
      have hbody : copySegment file header arenaBase arenaSize minVaddr m i =
          (true, m.noteReads (phdrAddress file header i) 56) := by
        rw [copySegment, hread, if_pos htype]
      obtain ⟨m', hloop, htouches, hholds⟩ := ih (m := m.noteReads _ 56) hxs.2 hcopyable hsame himage
      refine ⟨m', ?_, hnote.trans htouches, hholds⟩
      rw [Loop.forWhile_cons_true (by rw [hbody]), hbody]
      exact hloop
    · rw [loadHeaders_cons_of_eq (not_not.mp htype)] at hcopyable ⊢
      rw [List.forall_mem_cons] at hcopyable
      generalize ProgramHeader.read kmem (phdrAddress file header i) = phdr at *
      have hsegment := hcopyable.1
      have hrelative := hsegment.check.1
      have hfilesz := hsegment.filesz
      have hhigh := hsegment.high
      have hcopy := (touches_memcpy (m.noteReads (phdrAddress file header i) 56)
        (arenaBase + (phdr.vaddr - minVaddr)) (file.data + phdr.offset) phdr.filesz.toNat).mono
        (fun _ h => h.offset hsegment.offset) fun _ h => h.offset (k := arenaSize.toNat) (by omega)
      have hholds := holdsImage_memcpy (m := m.noteReads (phdrAddress file header i) 56) hsegment hapart hsame
        himage
      have hbody : copySegment file header arenaBase arenaSize minVaddr m i =
          (true, (m.noteReads (phdrAddress file header i) 56).memcpy (arenaBase + (phdr.vaddr - minVaddr))
            (file.data + phdr.offset) phdr.filesz.toNat) := by
        rw [copySegment, hread, if_neg htype]
        dsimp only
        rw [if_neg hsegment.check.2]
      obtain ⟨m', hloop, htouches, himage'⟩ := ih hxs.2 hcopyable.2
        (fun a ha => (hcopy.bytes a (hapart a ha)).trans (hsame a ha)) hholds
      refine ⟨m', ?_, (hnote.trans hcopy).trans htouches, himage'⟩
      rw [Loop.forWhile_cons_true (by rw [hbody]), hbody]
      exact hloop

/-! ### The loader -/

/-- The lowest and the highest address of the segments, from a range that was found. -/
lemma Scanned.bounds {size : UInt64} {phdrs : List ProgramHeader} {range : LoadRange}
    (h : Scanned size phdrs range) (hfound : range.found = true) :
    IsLeast {v | ∃ p ∈ phdrs, p.vaddr.toNat = v} range.minVaddr.toNat ∧
      IsGreatest {v | ∃ p ∈ phdrs, p.vaddr.toNat + p.memsz.toNat = v} range.maxVaddr.toNat := by
  obtain ⟨p, hp⟩ := List.exists_mem_of_ne_nil _ (h.found hfound)
  constructor
  · constructor
    · rcases h.lowest with hmax | hlowest
      · refine ⟨p, hp, ?_⟩
        have hlow := h.low p hp
        have hlt := p.vaddr.toNat_lt
        rw [hmax] at hlow ⊢
        change 2 ^ 64 - 1 ≤ p.vaddr.toNat at hlow
        change p.vaddr.toNat = 2 ^ 64 - 1
        omega
      · exact hlowest
    · rintro v ⟨q, hq, rfl⟩
      exact h.low q hq
  · constructor
    · rcases h.highest with hzero | hhighest
      · refine ⟨p, hp, ?_⟩
        have hhigh := h.high p hp
        rw [hzero] at hhigh ⊢
        exact Nat.le_zero.mp hhigh
      · exact hhighest
    · rintro v ⟨q, hq, rfl⟩
      exact h.high q hq

/-- The result of loading a file: its image lies in the arena, and the arena holds zeros, overwritten
by the segments in the order of their headers. -/
structure LoadedImage (m m' : ArenaMemory) (file : RamdiskFile) (arenaBase arenaSize : UInt64)
    (image : ElfImage) (header : Elf64Ehdr) (minVaddr : UInt64) (phdrs : List ProgramHeader) : Prop where
  header_eq : header = Elf64Ehdr.read m.bytes file.data
  phdrs_eq : phdrs = loadHeaders m.bytes file header (List.range header.phnum.toNat)
  lowest : IsLeast {v | ∃ p ∈ phdrs, p.vaddr.toNat = v} minVaddr.toNat
  highest : IsGreatest {v | ∃ p ∈ phdrs, p.vaddr.toNat + p.memsz.toNat = v}
    (minVaddr.toNat + image.size.toNat)
  base : image.base = arenaBase
  entry : image.entry = arenaBase + (header.entry - minVaddr)
  entry_inside : arenaBase.toNat ≤ image.entry.toNat ∧
    image.entry.toNat < arenaBase.toNat + image.size.toNat
  size_le : image.size ≤ arenaSize
  arena : HoldsImage m'.bytes arenaBase arenaSize.toNat
    (phdrs.foldl (storeSegment m.bytes file minVaddr) (zeros arenaSize.toNat))

/-- What is found in the first loop can be copied in the second one. -/
lemma Scanned.copyable {phdrs : List ProgramHeader} {range : LoadRange} (h : Scanned file.size phdrs range)
    (hsize : range.maxVaddr.toNat - range.minVaddr.toNat ≤ arenaSize.toNat) :
    ∀ p ∈ phdrs, Copyable file range.minVaddr arenaSize p := by
  intro p hp
  have hfits := fits_iff.mp (h.fits p hp)
  have hlow := h.low p hp
  have hhigh := h.high p hp
  exact ⟨hfits.1, hfits.2.1, hlow, by omega⟩

/-- The last part of the loader, behind the checks. -/
lemma copySegments_exact {f : RamdiskFile} {m₁ : ArenaMemory} {range : LoadRange} (h : TableInFile f header)
    (hwrap : arenaBase.toNat + arenaSize.toNat ≤ 2 ^ 64)
    (hapart : SourceApart f.data f.size.toNat arenaBase arenaSize.toNat) (hm : m₁.bytes = m.bytes)
    (htouches : Touches (InFile f) (fun _ => False) m m₁) (hheader : header = Elf64Ehdr.read m.bytes f.data)
    (hscanned : Scanned f.size (loadHeaders m.bytes f header (List.range header.phnum.toNat)) range)
    (hfound : range.found = true) (hle : range.minVaddr ≤ range.maxVaddr)
    (hsize : range.maxVaddr - range.minVaddr ≤ arenaSize)
    (hentry : range.minVaddr ≤ header.entry ∧ header.entry < range.maxVaddr) :
    ∃ m', Loop.forWhile (copySegment f header arenaBase arenaSize range.minVaddr)
        (m₁.memset arenaBase 0 arenaSize.toNat) (List.range header.phnum.toNat) = (true, m') ∧
      LoadedImage m m' f arenaBase arenaSize
        ⟨arenaBase + (header.entry - range.minVaddr), arenaBase, range.maxVaddr - range.minVaddr⟩ header
        range.minVaddr (loadHeaders m.bytes f header (List.range header.phnum.toNat)) ∧
      Touches (InFile f) (InRange arenaBase arenaSize.toNat) m m' := by
  have hspan : (range.maxVaddr - range.minVaddr).toNat = range.maxVaddr.toNat - range.minVaddr.toNat :=
    UInt64.toNat_sub_of_le _ _ hle
  rw [UInt64.le_iff_toNat_le] at hle
  have hsize' := UInt64.le_iff_toNat_le.mp hsize
  rw [hspan] at hsize'
  have hmemset := touches_memset m₁ arenaBase 0 arenaSize.toNat
  have hsame : ∀ a, InFile f a → (m₁.memset arenaBase 0 arenaSize.toNat).bytes a = m.bytes a := by
    intro a ha
    rw [hmemset.bytes a (hapart a ha), hm]
  have hzeros : HoldsImage (m₁.memset arenaBase 0 arenaSize.toNat).bytes arenaBase arenaSize.toNat
      (zeros arenaSize.toNat) := by
    intro j hj
    rw [memset_bytes m₁ arenaBase 0 hj, zeros, if_pos hj]
  obtain ⟨m', hloop, hcopy, himage⟩ := copied h (fun i hi => List.mem_range.mp hi) hapart
    (hscanned.copyable hsize') hsame hzeros
  refine ⟨m', hloop, ?_, ?_⟩
  · obtain ⟨hleast, hgreatest⟩ := hscanned.bounds hfound
    have hoffset : (header.entry - range.minVaddr).toNat = header.entry.toNat - range.minVaddr.toNat :=
      UInt64.toNat_sub_of_le _ _ hentry.1
    have hlow := UInt64.le_iff_toNat_le.mp hentry.1
    have hhigh := UInt64.lt_iff_toNat_lt.mp hentry.2
    have haddress : (arenaBase + (header.entry - range.minVaddr)).toNat =
        arenaBase.toNat + (header.entry.toNat - range.minVaddr.toNat) := by
      rw [UInt64.toNat_add, hoffset, Nat.mod_eq_of_lt (by omega)]
    constructor
    · exact hheader
    · rfl
    · exact hleast
    · rw [hspan, Nat.add_sub_cancel' hle]
      exact hgreatest
    · rfl
    · rfl
    · rw [haddress, hspan]
      omega
    · exact hsize
    · exact himage
  · have hbefore : Touches (InFile f) (InRange arenaBase arenaSize.toNat) m m₁ :=
      htouches.mono (fun _ h => h) fun _ h => h.elim
    exact (hbefore.trans (hmemset.mono (fun _ h => h.elim) fun _ h => h)).trans hcopy

/-- The loader refuses and writes nothing, or it loads the whole image. -/
lemma xbksElfLoadImage_cases (m : ArenaMemory) (file : Option RamdiskFile) (out : Option ElfImage)
    (hwrap : arenaBase.toNat + arenaSize.toNat ≤ 2 ^ 64)
    (hapart : ∀ f, file = some f → SourceApart f.data f.size.toNat arenaBase arenaSize.toNat) :
    (∃ m', xbksElfLoadImage m file arenaBase arenaSize out = (false, out, m') ∧
      m'.bytes = m.bytes ∧ m'.writes = m.writes) ∨
    ∃ m' f header image minVaddr phdrs, file = some f ∧
      xbksElfLoadImage m file arenaBase arenaSize out = (true, some image, m') ∧
      LoadedImage m m' f arenaBase arenaSize image header minVaddr phdrs ∧
      Touches (InFile f) (InRange arenaBase arenaSize.toNat) m m' := by
  rw [xbksElfLoadImage]
  by_cases hnull : out = none ∨ arenaBase = 0 ∨ arenaSize = 0
  · rw [if_pos hnull]
    exact .inl ⟨m, rfl, rfl, rfl⟩
  rw [if_neg hnull]
  obtain _ | f := file
  · exact .inl ⟨m, rfl, rfl, rfl⟩
  have hvalidate := touches_validateElfHeader m f
  rcases hresult : validateElfHeader m (some f) with ⟨_ | ⟨f', header⟩, m₁⟩
  · rw [hresult] at hvalidate
    exact .inl ⟨m₁, rfl, hvalidate.unwritten⟩
  obtain ⟨rfl, htable, hheader⟩ := validateElfHeader_some (congrArg Prod.fst hresult)
  rw [hresult] at hvalidate
  have hscan := hvalidate.trans
    (touches_scan htable (m₁, ⟨uint64Max, 0, false⟩) fun i hi => List.mem_range.mp hi)
  have hscanned := scanned_scan header (List.range header.phnum.toNat)
    (s := (m₁, ⟨uint64Max, 0, false⟩)) (scanned_nil f'.size)
  have hm₁ : m₁.bytes = m.bytes := hvalidate.unwritten.1
  rcases hloop : Loop.forWhile (scanSegment f' header) (m₁, ⟨uint64Max, 0, false⟩)
    (List.range header.phnum.toNat) with ⟨_ | _, m₂, range⟩
  · rw [hloop] at hscan
    refine .inl ⟨m₂, ?_, hscan.unwritten⟩
    dsimp only
    rw [hloop]
  · rw [hloop] at hscan hscanned
    have hscanned := hscanned rfl
    rw [List.nil_append, hm₁] at hscanned
    dsimp only at hscan hscanned ⊢
    rw [hloop]
    dsimp only
    by_cases hbounds : ¬range.found = true ∨ range.maxVaddr < range.minVaddr ∨
        range.maxVaddr - range.minVaddr > arenaSize
    · rw [if_pos hbounds]
      exact .inl ⟨m₂, rfl, hscan.unwritten⟩
    rw [if_neg hbounds]
    by_cases hentry : header.entry < range.minVaddr ∨ header.entry ≥ range.maxVaddr
    · rw [if_pos hentry]
      exact .inl ⟨m₂, rfl, hscan.unwritten⟩
    rw [if_neg hentry]
    rw [not_or, not_or, not_not, UInt64.not_lt, gt_iff_lt, UInt64.not_lt] at hbounds
    rw [not_or, UInt64.not_lt, ge_iff_le, UInt64.not_le] at hentry
    obtain ⟨m', hcopy, hloaded, htouches⟩ := copySegments_exact htable hwrap (hapart f' rfl)
      hscan.unwritten.1 hscan hheader hscanned hbounds.1 hbounds.2.1 hbounds.2.2 hentry
    rw [hcopy]
    exact .inr ⟨m', f', header, _, _, _, rfl, rfl, hloaded, htouches⟩

/-- The loader answers `true` after loading the whole image, and touches nothing else; or it answers
`false` and writes nothing. -/
theorem xbksElfLoadImage_exact (m : ArenaMemory) (file : Option RamdiskFile) (out : Option ElfImage)
    (hwrap : arenaBase.toNat + arenaSize.toNat ≤ 2 ^ 64)
    (hapart : ∀ f, file = some f → SourceApart f.data f.size.toNat arenaBase arenaSize.toNat)
    {out' : Option ElfImage} {m' : ArenaMemory} :
    (xbksElfLoadImage m file arenaBase arenaSize out = (true, out', m') →
      ∃ f header image minVaddr phdrs, file = some f ∧ out' = some image ∧
        LoadedImage m m' f arenaBase arenaSize image header minVaddr phdrs ∧
        Touches (InFile f) (InRange arenaBase arenaSize.toNat) m m') ∧
    (xbksElfLoadImage m file arenaBase arenaSize out = (false, out', m') →
      out' = out ∧ m'.bytes = m.bytes ∧ m'.writes = m.writes) := by
  rcases xbksElfLoadImage_cases m file out hwrap hapart with
    ⟨m₁, hrun, hbytes, hwrites⟩ | ⟨m₁, f, header, image, minVaddr, phdrs, hfile, hrun, hloaded, htouches⟩
  · rw [hrun]
    refine ⟨nofun, fun h => ?_⟩
    cases h
    exact ⟨rfl, hbytes, hwrites⟩
  · rw [hrun]
    refine ⟨fun h => ?_, nofun⟩
    cases h
    exact ⟨f, header, image, minVaddr, phdrs, hfile, rfl, hloaded, htouches⟩

/-- An executable with one segment: two bytes, and four bytes of memory at 0x10000. -/
def smallElf : List UInt8 :=
  [0x7f, 0x45, 0x4c, 0x46, 2, 1] ++ List.replicate 10 0 ++ [2, 0, 62, 0, 1, 0, 0, 0] ++
  [1, 0, 1, 0, 0, 0, 0, 0] ++ [64, 0, 0, 0, 0, 0, 0, 0] ++ List.replicate 12 0 ++
  [64, 0, 56, 0, 1, 0] ++ List.replicate 6 0 ++
  -- the program header
  [1, 0, 0, 0, 5, 0, 0, 0] ++ [120, 0, 0, 0, 0, 0, 0, 0] ++ [0, 0, 1, 0, 0, 0, 0, 0] ++
  List.replicate 8 0 ++ [2, 0, 0, 0, 0, 0, 0, 0] ++ [4, 0, 0, 0, 0, 0, 0, 0] ++ List.replicate 8 0 ++
  [0x90, 0xc3]

def arenaFile : RamdiskFile :=
  { path := [], data := 0x1000, size := 122, directory := false, executable := true }

/-- Memory with the executable at 0x1000, and ones elsewhere. -/
def smallArena : ArenaMemory :=
  { bytes := fun a => smallElf.getD (a - 0x1000).toNat 1, reads := [], writes := [] }

theorem xbksElfLoadImage_exact_small : ∃ m' header minVaddr phdrs,
    LoadedImage smallArena m' arenaFile 0x4000 8 ⟨0x4001, 0x4000, 4⟩ header minVaddr phdrs := by
  have happ : ∀ f, some arenaFile = some f → SourceApart f.data f.size.toNat 0x4000 (8 : UInt64).toNat := by
    rintro f ⟨⟩ a ⟨i, hi, rfl⟩ ⟨j, hj, heq⟩
    have hnat := congrArg UInt64.toNat heq
    change i < 122 at hi
    change j < 8 at hj
    rw [UInt64.toNat_add, UInt64.toNat_add, UInt64.toNat_ofNat_of_lt' (show _ < 2 ^ 64 by omega),
      UInt64.toNat_ofNat_of_lt' (show _ < 2 ^ 64 by omega)] at hnat
    change (0x1000 + i) % 2 ^ 64 = (0x4000 + j) % 2 ^ 64 at hnat
    omega
  rcases hrun : xbksElfLoadImage smallArena (some arenaFile) 0x4000 8 (some ⟨0, 0, 0⟩) with ⟨ok, out', m'⟩
  have hresult : (xbksElfLoadImage smallArena (some arenaFile) 0x4000 8 (some ⟨0, 0, 0⟩)).1 = true ∧
      (xbksElfLoadImage smallArena (some arenaFile) 0x4000 8 (some ⟨0, 0, 0⟩)).2.1 =
        some ⟨0x4001, 0x4000, 4⟩ := by decide +kernel
  rw [hrun] at hresult
  obtain ⟨rfl, rfl⟩ := hresult
  obtain ⟨f, header, image, minVaddr, phdrs, hfile, himage, hloaded, -⟩ :=
    (xbksElfLoadImage_exact smallArena (some arenaFile) (some ⟨0, 0, 0⟩) (by decide) happ).1 hrun
  cases hfile
  cases himage
  exact ⟨m', header, minVaddr, phdrs, hloaded⟩

end Xbks
