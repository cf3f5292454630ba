import Xbks.Fs.Archive
import Xbks.Process.Arguments
import Xbks.Process.Descriptors

/-!
# Directory records

The records that `getdents64` leaves in the buffer of a program, and how the program walks over them:
from the start of one record to the next by `d_reclen`, without looking at the bytes between them.
-/

namespace Xbks

/-- `struct linux_dirent64`. -/
structure Dirent where
  ino : UInt64
  off : UInt64
  reclen : UInt64
  type : UInt8
  name : CString
  deriving DecidableEq

/-- The record for the child with number `index` of a directory. -/
def direntOf (index : UInt64) (child : RamdiskFile) : Dirent where
  ino := index + 1
  off := index + 1
  reclen := direntReclen (lastComponent child.path)
  type := if child.directory then 4 else 8
  name := lastComponent child.path

def Dirent.bytes (d : Dirent) : List UInt8 :=
  wordBytes d.ino ++ wordBytes d.off ++ (wordBytes d.reclen).take 2 ++ [d.type] ++ d.name ++ [0]

/-- The length of a record is a multiple of 8 and fits into its field, and the name ends inside the
record. -/
structure Dirent.WellFormed (d : Dirent) : Prop where
  aligned : d.reclen.toNat % 8 = 0
  fits : d.reclen.toNat < 2 ^ 16
  inside : 20 + d.name.length ≤ d.reclen.toNat
  nonzero : 0 ∉ d.name

def direntsSize (ds : List Dirent) : ℕ := (ds.map fun d => d.reclen.toNat).sum

/-! ### Walking over a buffer -/

/-- The string at `a`, if it ends within `n` bytes. -/
def readName (m : Memory UInt8) : ℕ → ℕ → Option CString
  | _, 0 => none
  | a, n + 1 => (m a).bind fun c => if c = 0 then some [] else (readName m (a + 1) n).map (c :: ·)

def readDirent (m : Memory UInt8) (a : ℕ) : Option Dirent := do
  let ino ← m.load a 8
  let off ← m.load (a + 8) 8
  let reclen ← m.load (a + 16) 2
  let type ← m (a + 18)
  let name ← readName m (a + 19) ((wordOfBytes reclen).toNat - 19)
  return ⟨wordOfBytes ino, wordOfBytes off, wordOfBytes reclen, type, name⟩

/-- The records in the `n` bytes from `a` on, unless the last one is not complete. A record takes at
least one byte, so `n` steps are enough. -/
def walkDirents (m : Memory UInt8) : ℕ → ℕ → ℕ → Option (List Dirent)
  | _, _, 0 => some []
  | 0, _, _ + 1 => none
  | fuel + 1, a, n + 1 => do
    let d ← readDirent m a
    if d.reclen.toNat ≤ n + 1 then
      let ds ← walkDirents m fuel (a + d.reclen.toNat) (n + 1 - d.reclen.toNat)
      return d :: ds
    else none

/-- A memory with records in it from `a` on. -/
def placeDirents (m : Memory UInt8) : ℕ → List Dirent → Memory UInt8
  | _, [] => m
  | a, d :: ds => placeDirents (m.store a d.bytes) (a + d.reclen.toNat) ds

variable {m : Memory UInt8} {a x : ℕ} {d : Dirent} {ds : List Dirent}

@[simp] lemma direntsSize_nil : direntsSize [] = 0 := rfl

@[simp] lemma direntsSize_cons : direntsSize (d :: ds) = d.reclen.toNat + direntsSize ds := rfl

@[simp] lemma length_wordBytes (v : UInt64) : (wordBytes v).length = 8 := by
  simp [wordBytes]

lemma Dirent.length_bytes (d : Dirent) : d.bytes.length = 20 + d.name.length := by
  simp [Dirent.bytes]
  omega

/-! ### Words -/

lemma toNat_byteOfWord (v : UInt64) {n : ℕ} (hn : n < 8) :
    (byteOfWord v n).toNat = v.toNat / 2 ^ (8 * n) % 256 := by
  have hshift : (UInt64.ofNat (8 * n)).toNat = 8 * n := Word.toNat_ofNat_of_lt (by omega)
  have hmod : 8 * n % 64 = 8 * n := Nat.mod_eq_of_lt (by omega)
  rw [byteOfWord, UInt64.toNat_toUInt8, UInt64.toNat_shiftRight, hshift, hmod,
    Nat.shiftRight_eq_div_pow]

/-- One byte more below the others. -/
lemma toNat_wordOfBytes_cons (b : UInt8) {rest : List UInt8} (h : (wordOfBytes rest).toNat < 2 ^ 56) :
    (wordOfBytes (b :: rest)).toNat = b.toNat + 256 * (wordOfBytes rest).toNat := by
  have hcons : wordOfBytes (b :: rest) = wordOfBytes rest <<< 8 ||| b.toUInt64 := rfl
  have hshift : (wordOfBytes rest <<< 8).toNat = 256 * (wordOfBytes rest).toNat := by
    have h8 : (8 : UInt64).toNat % 64 = 8 := rfl
    rw [UInt64.toNat_shiftLeft, h8, Nat.shiftLeft_eq, Nat.mod_eq_of_lt (by omega), Nat.mul_comm]
  have hb := b.toNat_lt
  rw [hcons, Word.toNat_or_of_lt (k := 8) _ _ (by omega) (by simpa using hb), hshift,
    UInt8.toNat_toUInt64]
  omega

/-- The value of some of the bytes of a word. -/
lemma toNat_wordOfBytes (v : UInt64) {n : ℕ} : ∀ j, j + n ≤ 8 →
    (wordOfBytes ((List.range' j n).map (byteOfWord v))).toNat = v.toNat / 2 ^ (8 * j) % 2 ^ (8 * n) := by
  induction n with
  | zero =>
    intro j _
    rw [List.range'_zero, List.map_nil, Nat.mul_zero, Nat.pow_zero, Nat.mod_one]
    rfl
  | succ n ih =>
    intro j hj
    have hrest := ih (j + 1) (by omega)
    have hlt : v.toNat / 2 ^ (8 * (j + 1)) % 2 ^ (8 * n) < 2 ^ 56 :=
      (Nat.mod_lt _ (Nat.two_pow_pos _)).trans_le (Nat.pow_le_pow_right (by norm_num) (by omega))
    have hdiv : v.toNat / 2 ^ (8 * (j + 1)) = v.toNat / 2 ^ (8 * j) / 256 := by
      rw [Nat.div_div_eq_div_mul, Nat.mul_succ, Nat.pow_add]
    have hpow : 2 ^ (8 * (n + 1)) = 256 * 2 ^ (8 * n) := by
      rw [Nat.mul_succ, Nat.pow_add, Nat.mul_comm]
    rw [List.range'_succ, List.map_cons, toNat_wordOfBytes_cons _ (by rw [hrest]; exact hlt),
      toNat_byteOfWord v (by omega), hrest, hdiv, hpow, Nat.mod_mul]

lemma wordOfBytes_wordBytes (v : UInt64) : wordOfBytes (wordBytes v) = v := by
  have h := toNat_wordOfBytes v (n := 8) 0 (by omega)
  rw [← UInt64.toNat_inj]
  rw [Nat.mul_zero, Nat.pow_zero, Nat.div_one, Nat.mod_eq_of_lt v.toNat_lt, ← List.range_eq_range'] at h
  exact h

lemma wordOfBytes_take (v : UInt64) (hv : v.toNat < 2 ^ 16) : wordOfBytes ((wordBytes v).take 2) = v := by
  have h := toNat_wordOfBytes v (n := 2) 0 (by omega)
  rw [← UInt64.toNat_inj]
  rw [Nat.mul_zero, Nat.pow_zero, Nat.div_one, Nat.mod_eq_of_lt (by omega)] at h
  exact h

/-! ### Records that have been stored -/

lemma readName_eq {name : CString} {n : ℕ} (h : HoldsString m a name) (hlen : name.length < n) :
    readName m a n = some name := by
  induction n generalizing a name with
  | zero => omega
  | succ n ih =>
    rw [readName]
    cases name with
    | nil =>
      have hend : m a = some 0 := h.ended
      rw [hend, Option.bind_some, if_pos rfl]
    | cons c rest =>
      obtain ⟨hc, hrest⟩ := not_or.mp (fun hmem => h.nonzero (List.mem_cons.mpr hmem))
      have hhead : m a = some c := h.bytes 0 (Nat.succ_pos _)
      have htail : HoldsString m (a + 1) rest := by
        refine ⟨fun i hi => ?_, hrest, ?_⟩
        · have hcell := h.bytes (i + 1) (Nat.succ_lt_succ hi)
          rw [List.getElem?_cons_succ] at hcell
          rw [← hcell, Nat.add_assoc, Nat.add_comm 1]
        · have hend := h.ended
          rw [List.length_cons] at hend
          rw [← hend, Nat.add_assoc, Nat.add_comm 1]
      rw [List.length_cons] at hlen
      rw [hhead, Option.bind_some, if_neg fun h => hc h.symm, ih htail (by omega), Option.map_some]

lemma holdsString_of_load {name : CString} {n : ℕ} (hnonzero : 0 ∉ name)
    (h : m.load a n = some (name ++ [0])) : HoldsString m a name := by
  obtain ⟨hlen, hcells⟩ := Memory.load_eq_some_iff.mp h
  rw [List.length_append, List.length_singleton] at hlen
  refine ⟨fun i hi => ?_, hnonzero, ?_⟩
  · rw [hcells i (by omega), List.getElem?_append_left hi]
  · rw [hcells name.length (by omega), List.getElem?_concat_length]

/-- A record that lies in memory is read back. -/
lemma readDirent_eq (hd : d.WellFormed) (h : m.load a d.bytes.length = some d.bytes) :
    readDirent m a = some d := by
  have hino : m.load a 8 = some (wordBytes d.ino) := by
    have hpart := Memory.load_part [] (wordBytes d.ino)
      (wordBytes d.off ++ (wordBytes d.reclen).take 2 ++ [d.type] ++ d.name ++ [0]) h
      (by simp [Dirent.bytes])
    simpa using hpart
  have hoff : m.load (a + 8) 8 = some (wordBytes d.off) := by
    have hpart := Memory.load_part (wordBytes d.ino) (wordBytes d.off)
      ((wordBytes d.reclen).take 2 ++ [d.type] ++ d.name ++ [0]) h (by simp [Dirent.bytes])
    simpa using hpart
  have hreclen : m.load (a + 16) 2 = some ((wordBytes d.reclen).take 2) := by
    have hpart := Memory.load_part (wordBytes d.ino ++ wordBytes d.off) ((wordBytes d.reclen).take 2)
      ([d.type] ++ d.name ++ [0]) h (by simp [Dirent.bytes])
    simpa using hpart
  have htype : m (a + 18) = some d.type := by
    have hpart := Memory.load_part (wordBytes d.ino ++ wordBytes d.off ++ (wordBytes d.reclen).take 2)
      [d.type] (d.name ++ [0]) h (by simp [Dirent.bytes])
    rw [← Memory.load_singleton]
    simpa using hpart
  have hname : m.load (a + 19) (d.name.length + 1) = some (d.name ++ [0]) := by
    have hpart := Memory.load_part
      (wordBytes d.ino ++ wordBytes d.off ++ (wordBytes d.reclen).take 2 ++ [d.type]) (d.name ++ [0]) [] h
      (by simp [Dirent.bytes])
    simpa using hpart
  have hread : readName m (a + 19) (d.reclen.toNat - 19) = some d.name := by
    have hinside := hd.inside
    exact readName_eq (holdsString_of_load hd.nonzero hname) (by omega)
  rw [readDirent, hino, hoff, hreclen, htype]
  simp only [Option.bind_eq_bind, Option.bind_some, wordOfBytes_wordBytes, wordOfBytes_take _ hd.fits,
    hread]
  rfl

lemma placeDirents_below (hx : x < a) : placeDirents m a ds x = m x := by
  induction ds generalizing m a with
  | nil => rfl
  | cons d ds ih =>
    rw [placeDirents, ih (by omega)]
    exact Memory.store_outside (.inl hx)

/-- Records take no place behind their end. -/
lemma placeDirents_above (hds : ∀ d ∈ ds, d.WellFormed) (hx : a + direntsSize ds ≤ x) :
    placeDirents m a ds x = m x := by
  induction ds generalizing m a with
  | nil => rfl
  | cons d ds ih =>
    obtain ⟨hd, hds⟩ := List.forall_mem_cons.mp hds
    have hinside := hd.inside
    rw [direntsSize_cons] at hx
    rw [placeDirents, ih hds (by omega)]
    refine Memory.store_outside (.inr ?_)
    rw [Dirent.length_bytes]
    omega

/-- A program that walks over records finds them all. -/
lemma walkDirents_place {fuel : ℕ} (hds : ∀ d ∈ ds, d.WellFormed) (hfuel : direntsSize ds ≤ fuel) :
    walkDirents (placeDirents m a ds) fuel a (direntsSize ds) = some ds := by
  induction ds generalizing m a fuel with
  | nil =>
    rw [direntsSize_nil]
    cases fuel with
    | zero => rfl
    | succ fuel => rfl
  | cons d ds ih =>
    obtain ⟨hd, hds⟩ := List.forall_mem_cons.mp hds
    have hinside := hd.inside
    rw [direntsSize_cons] at hfuel ⊢
    obtain ⟨fuel, rfl⟩ : ∃ f, fuel = f + 1 := ⟨fuel - 1, by omega⟩
    obtain ⟨n, hn⟩ : ∃ n, d.reclen.toNat + direntsSize ds = n + 1 :=
      ⟨d.reclen.toNat + direntsSize ds - 1, by omega⟩
    -- the records behind this one do not touch it
    have hload : (placeDirents m a (d :: ds)).load a d.bytes.length = some d.bytes := by
      rw [placeDirents, ← Memory.load_store (m := m) (a := a)]
      refine Memory.load_congr fun x hge hlt => placeDirents_below ?_
      rw [Dirent.length_bytes] at hlt
      omega
    have hrest : walkDirents (placeDirents m a (d :: ds)) fuel (a + d.reclen.toNat)
        (n + 1 - d.reclen.toNat) = some ds := by
      rw [← hn, Nat.add_sub_cancel_left, placeDirents]
      exact ih hds (by omega)
    rw [hn, walkDirents, readDirent_eq hd hload]
    simp only [Option.bind_eq_bind, Option.bind_some]
    rw [if_pos (by omega), hrest]
    rfl

/-! ### The records of a call -/

/-- The records that a call with room for `count` bytes stores from `written` on. -/
def direntsFrom (kmem : KernelMemory) (rd : Ramdisk) (path : CString) (count : UInt64) :
    ℕ → UInt64 → UInt64 → List Dirent
  | 0, _, _ => []
  | fuel + 1, index, written =>
    match ramdiskReadDir kmem rd path index with
    | none => []
    | some child =>
      if written + direntReclen (lastComponent child.path) > count then []
      else direntOf index child :: direntsFrom kmem rd path count fuel (index + 1)
        (written + direntReclen (lastComponent child.path))

/-- The stores of a call. -/
def storeDirents (buffer : UInt64) : ℕ → List Dirent → KernelM Unit
  | _, [] => return ()
  | written, d :: ds => do
    writeUserBytes buffer written d.bytes
    storeDirents buffer (written + d.reclen.toNat) ds

variable {kmem : KernelMemory} {rd : Ramdisk} {path : CString} {count index written : UInt64} {fuel : ℕ}

/-- One record for each number, in order. -/
def Listed (kmem : KernelMemory) (rd : Ramdisk) (path : CString) (index : UInt64) (ds : List Dirent) :
    Prop :=
  ∀ j < ds.length, ∃ child, ramdiskReadDir kmem rd path (index + UInt64.ofNat j) = some child ∧
    ds[j]? = some (direntOf (index + UInt64.ofNat j) child)

lemma Listed.append {ds ds' : List Dirent} (h : Listed kmem rd path index ds)
    (h' : Listed kmem rd path (index + UInt64.ofNat ds.length) ds') :
    Listed kmem rd path index (ds ++ ds') := by
  intro j hj
  by_cases hlt : j < ds.length
  · rw [List.getElem?_append_left hlt]
    exact h j hlt
  · rw [List.length_append] at hj
    have hnext := h' (j - ds.length) (by omega)
    rw [UInt64.add_assoc, ← UInt64.ofNat_add, Nat.add_sub_cancel' (by omega)] at hnext
    rw [List.getElem?_append_right (by omega)]
    exact hnext

lemma direntReclen_aligned (name : CString) : (direntReclen name).toNat % 8 = 0 := by
  rw [direntReclen, alignUp, Word.toNat_and_not_mask _ 8 (k := 3) (by norm_num) rfl]
  omega

/-- The name of a child ends inside its record. -/
lemma direntOf_inside {child : RamdiskFile} (h : ramdiskReadDir kmem rd path index = some child) :
    20 + (direntOf index child).name.length ≤ (direntOf index child).reclen.toNat := by
  have hname := length_lastComponent_le child.path
  have hlen := length_ramdiskReadDir_lt h
  exact (direntReclen_bounds (lastComponent child.path) (by omega)).1

/-- The record of a child is complete. -/
lemma wellFormed_direntOf {child : RamdiskFile} (hpath : 0 ∉ path)
    (h : ramdiskReadDir kmem rd path index = some child) : (direntOf index child).WellFormed := by
  have hname := length_lastComponent_le child.path
  have hlen := length_ramdiskReadDir_lt h
  obtain ⟨-, hle⟩ := direntReclen_bounds (lastComponent child.path) (by omega)
  refine ⟨direntReclen_aligned _, hle.trans_lt (by norm_num), direntOf_inside h, fun hzero => ?_⟩
  refine notMem_ramdiskReadDir hpath h ?_
  rw [direntOf, lastComponent, List.mem_reverse] at hzero
  exact List.mem_reverse.mp ((List.takeWhile_sublist _).subset hzero)

lemma Listed.mem (h : Listed kmem rd path index ds) (hd : d ∈ ds) :
    ∃ j child, ramdiskReadDir kmem rd path j = some child ∧ d = direntOf j child := by
  obtain ⟨j, hj, rfl⟩ := List.getElem_of_mem hd
  obtain ⟨child, hchild, hrecord⟩ := h j hj
  rw [List.getElem?_eq_getElem hj, Option.some.injEq] at hrecord
  exact ⟨_, child, hchild, hrecord⟩

lemma Listed.wellFormed (h : Listed kmem rd path index ds) (hpath : 0 ∉ path) :
    ∀ d ∈ ds, d.WellFormed := by
  intro d hd
  obtain ⟨j, child, hchild, rfl⟩ := h.mem hd
  exact wellFormed_direntOf hpath hchild

lemma Listed.inside (h : Listed kmem rd path index ds) :
    ∀ d ∈ ds, 20 + d.name.length ≤ d.reclen.toNat := by
  intro d hd
  obtain ⟨j, child, hchild, rfl⟩ := h.mem hd
  exact direntOf_inside hchild

/-- What is left of a buffer after one more record. -/
lemma toNat_add_direntReclen {child : RamdiskFile} (hcount : count.toNat ≤ 2 ^ 47)
    (hw : written.toNat ≤ count.toNat) (h : ramdiskReadDir kmem rd path index = some child) :
    (written + direntReclen (lastComponent child.path)).toNat =
      written.toNat + (direntOf index child).reclen.toNat := by
  have hname := length_lastComponent_le child.path
  have hlen := length_ramdiskReadDir_lt h
  obtain ⟨-, hle⟩ := direntReclen_bounds (lastComponent child.path) (by omega)
  exact Word.toNat_add_of_lt _ _ (by omega)

/-- The records of a call follow each other and fit. -/
lemma direntsFrom_spec (hcount : count.toNat ≤ 2 ^ 47) (hw : written.toNat ≤ count.toNat) :
    Listed kmem rd path index (direntsFrom kmem rd path count fuel index written) ∧
    written.toNat + direntsSize (direntsFrom kmem rd path count fuel index written) ≤ count.toNat := by
  have hnil : ∀ index : UInt64, Listed kmem rd path index [] := fun _ j hj => absurd hj (Nat.not_lt_zero j)
  induction fuel generalizing index written with
  | zero => exact ⟨hnil index, hw⟩
  | succ fuel ih =>
    rw [direntsFrom]
    cases hchild : ramdiskReadDir kmem rd path index with
    | none => exact ⟨hnil index, hw⟩
    | some child =>
      have hsum := toNat_add_direntReclen hcount hw hchild
      dsimp only
      by_cases hroom : written + direntReclen (lastComponent child.path) > count
      · rw [if_pos hroom]
        exact ⟨hnil index, hw⟩
      · rw [if_neg hroom]
        rw [gt_iff_lt, UInt64.not_lt, UInt64.le_iff_toNat_le] at hroom
        obtain ⟨hlisted, hsize⟩ := @ih (index + 1) _ hroom
        have hone : Listed kmem rd path index [direntOf index child] := by
          intro j hj
          obtain rfl : j = 0 := by simpa using hj
          exact ⟨child, by simpa using hchild, by simp⟩
        refine ⟨hone.append hlisted, ?_⟩
        rw [direntsSize_cons]
        omega

/-- A call goes on until there is no child left or no room for it. -/
lemma direntsFrom_stops (hcount : count.toNat ≤ 2 ^ 47) (hw : written.toNat ≤ count.toNat)
    (hfuel : count.toNat - written.toNat < fuel) :
    ∀ child, ramdiskReadDir kmem rd path
        (index + UInt64.ofNat (direntsFrom kmem rd path count fuel index written).length) = some child →
      count.toNat < written.toNat + direntsSize (direntsFrom kmem rd path count fuel index written) +
        (direntReclen (lastComponent child.path)).toNat := by
  induction fuel generalizing index written with
  | zero => omega
  | succ fuel ih =>
    rw [direntsFrom]
    cases hchild : ramdiskReadDir kmem rd path index with
    | none =>
      intro child h
      rw [List.length_nil, show UInt64.ofNat 0 = 0 from rfl, UInt64.add_zero, hchild] at h
      cases h
    | some child =>
      have hsum := toNat_add_direntReclen hcount hw hchild
      dsimp only
      by_cases hroom : written + direntReclen (lastComponent child.path) > count
      · rw [if_pos hroom]
        intro child' h
        rw [List.length_nil, show UInt64.ofNat 0 = 0 from rfl, UInt64.add_zero, hchild] at h
        cases h
        rw [gt_iff_lt, UInt64.lt_iff_toNat_lt] at hroom
        rw [direntsSize_nil]
        exact hsum ▸ hroom
      · rw [if_neg hroom]
        rw [gt_iff_lt, UInt64.not_lt, UInt64.le_iff_toNat_le] at hroom
        have hpos := direntOf_inside hchild
        intro child' h
        rw [List.length_cons, Nat.add_comm, UInt64.ofNat_add, ← UInt64.add_assoc] at h
        have hnext := @ih (index + 1) _ hroom (by omega) child' h
        rw [direntsSize_cons]
        omega

/-! ### The loop -/

variable {k k' : Kernel} {i : Fin 16} {buffer : UInt64}

/-- Stores do not look at the descriptors. -/
lemma writeUser_commutes (i : Fin 16) (fd : ProcessFd) (j : ℕ) (b : UInt8) :
    Prog.Commutes (fun k => k.setFd i fd) (writeUser buffer j b) := by
  have hphysical : Prog.Commutes (fun k => k.setFd i fd) (userPhysical buffer j) := by
    intro k
    rw [userPhysical, userPhysical]
    dsimp only [Kernel.setFd, Kernel.setCurrent, Kernel.setProcess]
    split_ifs
    · rfl
    · cases vmmTranslate k.mm k.cr3 (buffer + UInt64.ofNat j) with
      | none => rfl
      | some physical => rfl
  exact Prog.commutes_bind hphysical fun physical k => rfl

lemma writeUserBytes_commutes (i : Fin 16) (fd : ProcessFd) (bytes : List UInt8) (j : ℕ) :
    Prog.Commutes (fun k => k.setFd i fd) (writeUserBytes buffer j bytes) := by
  induction bytes generalizing j with
  | nil => exact Prog.commutes_pure _
  | cons b rest ih => exact Prog.commutes_bind (writeUser_commutes i fd j b) fun _ => ih (j + 1)

lemma storeDirents_commutes (i : Fin 16) (fd : ProcessFd) (ds : List Dirent) (j : ℕ) :
    Prog.Commutes (fun k => k.setFd i fd) (storeDirents buffer j ds) := by
  induction ds generalizing j with
  | nil => exact Prog.commutes_pure _
  | cons d ds ih =>
    exact Prog.commutes_bind (writeUserBytes_commutes i fd d.bytes j) fun _ => ih (j + d.reclen.toNat)

/-- How a call ends, after its stores have ended. -/
inductive GetdentsEnds (k : Kernel) (i : Fin 16) (written : UInt64) (ds : List Dirent) :
    Except Stop Unit × Kernel → Except Stop UInt64 × Kernel → Prop
  | done (k₁ : Kernel) : GetdentsEnds k i written ds (.ok (), k₁)
      (.ok (written + UInt64.ofNat (direntsSize ds)),
        k₁.setFd i ((k.current.fds i).advance ds.length))
  | stops (stop : Stop) (k₁ k₂ : Kernel) : GetdentsEnds k i written ds (.error stop, k₁) (.error stop, k₂)

/-- A call that is over at once. -/
lemma GetdentsEnds.nil (k : Kernel) (i : Fin 16) (written : UInt64) :
    GetdentsEnds k i written [] (.ok (), k) (.ok written, k) := by
  have h : GetdentsEnds k i written [] (.ok (), k)
      (.ok (written + UInt64.ofNat (direntsSize [])), k.setFd i ((k.current.fds i).advance 0)) := .done k
  rwa [direntsSize_nil, show UInt64.ofNat 0 = 0 from rfl, UInt64.add_zero, advance_zero, setFd_self] at h

/-- One more record in front. -/
lemma GetdentsEnds.cons (k' : Kernel) {r : Except Stop Unit × Kernel}
    {r' : Except Stop UInt64 × Kernel}
    (h : GetdentsEnds (k'.setFd i ((k.current.fds i).advance 1)) i (written + d.reclen) ds
      (r.1, r.2.setFd i ((k.current.fds i).advance 1)) r') :
    GetdentsEnds k i written (d :: ds) r r' := by
  obtain ⟨r, k₁⟩ := r
  generalize hr : (r, k₁.setFd i ((k.current.fds i).advance 1)) = r₀ at h
  cases h with
  | stops stop k₁ k₂ =>
    obtain ⟨rfl, -⟩ := Prod.mk.inj hr
    exact .stops stop _ k₂
  | done k₂ =>
    obtain ⟨rfl, rfl⟩ := Prod.mk.inj hr
    have hfd : ((k'.setFd i ((k.current.fds i).advance 1)).current.fds i).advance ds.length =
        (k.current.fds i).advance (d :: ds).length := by
      rw [setFd_fds, List.length_cons, Nat.add_comm, advance_advance]
    have hsize : written + d.reclen + UInt64.ofNat (direntsSize ds) =
        written + UInt64.ofNat (direntsSize (d :: ds)) := by
      rw [direntsSize_cons, UInt64.ofNat_add, UInt64.ofNat_toNat, UInt64.add_assoc]
    rw [hfd, hsize, setFd_setFd]
    exact .done k₁

/-- The loop stores the records of the call and moves the descriptor behind them. -/
lemma getdentsFrom_ends (hcount : count.toNat ≤ 2 ^ 47) (hw : written.toNat ≤ count.toNat)
    (hds : direntsFrom k.kmem k.ramdisk (k.current.fds i).file.path count fuel (k.current.fds i).offset
      written = ds) :
    GetdentsEnds k i written ds (storeDirents buffer written.toNat ds k)
      (getdentsFrom i buffer count fuel written k) := by
  induction fuel generalizing k written ds with
  | zero =>
    obtain rfl : [] = ds := hds
    exact .nil k i written
  | succ fuel ih =>
    rw [direntsFrom] at hds
    rw [getdentsFrom, Prog.get_bind_apply]
    cases hchild : ramdiskReadDir k.kmem k.ramdisk (k.current.fds i).file.path
      (k.current.fds i).offset with
    | none =>
      rw [hchild] at hds
      obtain rfl : [] = ds := hds
      exact .nil k i written
    | some child =>
      rw [hchild] at hds
      dsimp only at hds ⊢
      have hsum := toNat_add_direntReclen hcount hw hchild
      by_cases hroom : written + direntReclen (lastComponent child.path) > count
      · rw [if_pos hroom] at hds ⊢
        obtain rfl : [] = ds := hds
        exact .nil k i written
      · rw [if_neg hroom] at hds ⊢
        rw [gt_iff_lt, UInt64.not_lt, UInt64.le_iff_toNat_le] at hroom
        obtain rfl := hds
        have hbytes : direntBytes (k.current.fds i).offset (direntReclen (lastComponent child.path))
            child.directory (lastComponent child.path) =
          (direntOf (k.current.fds i).offset child).bytes := rfl
        have hsame := same_writeUserBytes buffer written.toNat
          (direntOf (k.current.fds i).offset child).bytes k
        rw [hbytes, storeDirents]
        rcases hwrite : writeUserBytes buffer written.toNat
          (direntOf (k.current.fds i).offset child).bytes k with ⟨stop | _, k₁⟩
        · rw [Prog.bind_error hwrite, Prog.bind_error hwrite]
          exact .stops stop k₁ k₁
        · rw [hwrite] at hsame
          rw [Prog.bind_ok hwrite, Prog.bind_ok hwrite, Prog.modify_bind_apply, ← hsum]
          refine .cons k₁ ?_
          rw [← storeDirents_commutes]
          refine ih hroom ?_
          rw [setFd_fds]
          exact congrArg₂ (direntsFrom · · _ _ _ _ _) hsame.kmem hsame.ramdisk

lemma same_storeDirents (buffer : UInt64) (ds : List Dirent) (j : ℕ) :
    Prog.Keeps SameRecords (storeDirents buffer j ds) := by
  induction ds generalizing j with
  | nil => exact Prog.keeps_pure _
  | cons d ds ih => exact Prog.keeps_bind (same_writeUserBytes _ _ _) fun _ => ih _

/-- In an address space that is intact the records are what the program finds in its buffer. -/
lemma storeDirents_view {j : ℕ} (hintact : Intact k) (hvalid : userRangeIsValid buffer count = true)
    (hds : ∀ d ∈ ds, 20 + d.name.length ≤ d.reclen.toNat) (hfits : j + direntsSize ds ≤ count.toNat)
    (h : storeDirents buffer j ds k = (.ok (), k')) :
    k'.view = placeDirents k.view (buffer.toNat + j) ds := by
  induction ds generalizing k j with
  | nil =>
    cases h
    rfl
  | cons d ds ih =>
    obtain ⟨hinside, hds⟩ := List.forall_mem_cons.mp hds
    have hlen := d.length_bytes
    rw [direntsSize_cons] at hfits
    have hends : StoreEnds k (buffer.toNat + j) d.bytes (writeUserBytes buffer j d.bytes k) :=
      writeUserBytes_ends_of_valid hintact hvalid (by omega)
    rw [storeDirents, Prog.bind_apply] at h
    generalize writeUserBytes buffer j d.bytes k = r at hends h
    cases hends with
    | faults hhas => cases h
    | done hhas hstored =>
      rw [ih hstored.intact hds (by omega) h, hstored.view, placeDirents, Nat.add_assoc]

/-- A call whose buffer is mapped returns. -/
lemma returns_getdentsFrom (hvalid : userRangeIsValid buffer count = true)
    (hw : written.toNat ≤ count.toNat) :
    Prog.Returns (Mapped buffer.toNat count.toNat) (getdentsFrom i buffer count fuel written) := by
  induction fuel generalizing written with
  | zero => exact Prog.returns_pure _
  | succ fuel ih =>
    refine Prog.returns_bind Prog.returns_get fun k => ?_
    dsimp only
    cases hchild : ramdiskReadDir k.kmem k.ramdisk (k.current.fds i).file.path
      (k.current.fds i).offset with
    | none => exact Prog.returns_pure _
    | some child =>
      have hsum := toNat_add_direntReclen (toNat_le_of_valid hvalid) hw hchild
      have hinside := direntOf_inside hchild
      refine Prog.returns_ite (fun _ => Prog.returns_pure _) fun hroom => ?_
      rw [gt_iff_lt, UInt64.not_lt, UInt64.le_iff_toNat_le] at hroom
      refine Prog.returns_bind (returns_writeUserBytes hvalid ?_) fun _ => ?_
      · have hlen := length_direntBytes (k.current.fds i).offset (direntReclen (lastComponent child.path))
          child.directory (lastComponent child.path)
        have hname : (direntOf (k.current.fds i).offset child).name = lastComponent child.path := rfl
        rw [hname] at hinside
        omega
      · exact Prog.returns_bind (Prog.returns_modify fun _ hk => hk.congr rfl rfl) fun _ => ih hroom

lemma answers_getdentsFrom (hw : written.toNat ≤ count.toNat) :
    Prog.Answers (fun r : UInt64 => r.toNat ≤ count.toNat) (getdentsFrom i buffer count fuel written) := by
  induction fuel generalizing written with
  | zero => exact Prog.answers_pure hw
  | succ fuel ih =>
    refine Prog.answers_bind fun k => ?_
    dsimp only
    cases hchild : ramdiskReadDir k.kmem k.ramdisk (k.current.fds i).file.path
      (k.current.fds i).offset with
    | none => exact Prog.answers_pure hw
    | some child =>
      refine Prog.answers_ite (fun _ => Prog.answers_pure hw) fun hroom => ?_
      rw [gt_iff_lt, UInt64.not_lt, UInt64.le_iff_toNat_le] at hroom
      exact Prog.answers_bind fun _ => Prog.answers_bind fun _ => ih hroom

end Xbks
