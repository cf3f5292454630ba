import Xbks.Fs.Archive

/-!
# Ustar archives

An encoder for ustar archives, and what the walks of `ramdisk.c` read back from an archive that it
wrote.
-/

namespace Xbks

/-! ### Octal numbers -/

/-- The last `count` octal digits of a number. -/
def octalDigits : ℕ → ℕ → List UInt8
  | 0, _ => []
  | count + 1, n => octalDigits count (n / 8) ++ [48 + UInt8.ofNat (n % 8)]

@[simp] lemma length_octalDigits (count n : ℕ) : (octalDigits count n).length = count := by
  induction count generalizing n with
  | zero => rfl
  | succ count ih => simp [octalDigits, ih]

lemma isDigit_of_mem_octalDigits {count n : ℕ} {c : UInt8} (h : c ∈ octalDigits count n) :
    48 ≤ c ∧ c ≤ 55 := by
  induction count generalizing n with
  | zero => cases h
  | succ count ih =>
    rw [octalDigits, List.mem_append, List.mem_singleton] at h
    obtain h | rfl := h
    · exact ih h
    · have hdigit : ∀ d < 8, 48 ≤ 48 + UInt8.ofNat d ∧ 48 + UInt8.ofNat d ≤ 55 := by decide
      exact hdigit _ (Nat.mod_lt n (by norm_num))

/-- One digit more: `parse_octal` shifts what it has read by three bits. -/
lemma shift_add_digit (n : ℕ) : (UInt64.ofNat (n / 8) <<< 3) +
    ((48 + UInt8.ofNat (n % 8)) - 48 : UInt8).toUInt64 = UInt64.ofNat n := by
  have hdigit : ∀ d < 8, ((48 + UInt8.ofNat d) - 48 : UInt8).toUInt64 = UInt64.ofNat d := by decide
  have hshift : UInt64.ofNat (n / 8) <<< 3 = UInt64.ofNat (n / 8 * 8) := by
    rw [← UInt64.toNat_inj, UInt64.toNat_shiftLeft]
    simp [Nat.shiftLeft_eq]
  rw [hdigit _ (Nat.mod_lt n (by norm_num)), hshift, ← UInt64.ofNat_add]
  congr 1
  omega

lemma foldl_octalDigits {count n : ℕ} (h : n < 8 ^ count) :
    (octalDigits count n).foldl (fun (value : UInt64) c => (value <<< 3) + (c - 48).toUInt64) 0 =
      UInt64.ofNat n := by
  induction count generalizing n with
  | zero =>
    rw [pow_zero, Nat.lt_one_iff] at h
    rw [h]
    rfl
  | succ count ih =>
    have hlt : n / 8 < 8 ^ count := by
      rw [pow_succ] at h
      omega
    rw [octalDigits, List.foldl_append, ih hlt]
    exact shift_add_digit n

/-- Blanks behind the digits, which may be missing, end the number. -/
lemma parseOctal_octalDigits {count n : ℕ} {tail : List UInt8} (h : n < 8 ^ count)
    (htail : ∀ c ∈ tail, c = 32 ∨ c = 0) : parseOctal (octalDigits count n ++ tail) = UInt64.ofNat n := by
  have hdigits : ∀ c ∈ octalDigits count n, decide (48 ≤ c ∧ c ≤ 55) = true :=
    fun c hc => decide_eq_true (isDigit_of_mem_octalDigits hc)
  have hend : tail.takeWhile (fun c => decide (48 ≤ c ∧ c ≤ 55)) = [] := by
    cases tail with
    | nil => rfl
    | cons c rest =>
      refine List.takeWhile_cons_of_neg ?_
      obtain rfl | rfl := htail c List.mem_cons_self <;> decide
  have hread : ((octalDigits count n ++ tail).dropWhile fun c => c = 32 ∨ c = 0).takeWhile
      (fun c => 48 ≤ c ∧ c ≤ 55) = octalDigits count n := by
    cases hcase : octalDigits count n with
    | nil =>
      rw [List.nil_append, List.dropWhile_eq_nil_iff.mpr (fun c hc => decide_eq_true (htail c hc))]
      rfl
    | cons c rest =>
      have hc := isDigit_of_mem_octalDigits (hcase ▸ List.mem_cons_self : c ∈ octalDigits count n)
      have hblank : ¬decide (c = 32 ∨ c = 0) = true := by
        rw [decide_eq_true_eq]
        rintro (rfl | rfl)
        · exact absurd hc.1 (by decide)
        · exact absurd hc.1 (by decide)
      rw [List.cons_append, List.dropWhile_cons_of_neg (p := fun c => decide (c = 32 ∨ c = 0)) hblank,
        ← List.cons_append, ← hcase, List.takeWhile_append_of_pos hdigits, hend, List.append_nil]
  rw [parseOctal, hread, foldl_octalDigits h]

/-! ### The encoder -/

/-- A text in a field that is filled up with NULs. -/
def nulPadded (width : ℕ) (text : CString) : List UInt8 :=
  text ++ List.replicate (width - text.length) 0

@[simp] lemma length_nulPadded {width : ℕ} {text : CString} (h : text.length ≤ width) :
    (nulPadded width text).length = width := by
  rw [nulPadded, List.length_append, List.length_replicate]
  omega

/-- The NULs need not be there. -/
lemma takeWhile_nulPadded {width : ℕ} {text : CString} (h : 0 ∉ text) :
    (nulPadded width text).takeWhile (· ≠ 0) = text := by
  have htext : ∀ c ∈ text, decide (c ≠ 0) = true := fun c hc =>
    decide_eq_true fun h0 => h (h0 ▸ hc)
  rw [nulPadded, List.takeWhile_append_of_pos htext, List.takeWhile_replicate]
  simp

/-- What an archive says about a file or a directory. -/
structure Member where
  path : CString
  mode : ℕ
  directory : Bool
  content : List UInt8
  nonempty : path ≠ []
  normal : NormalPath path
  text : 0 ∉ path
  empty : directory = true → content = []

/-- A member with the way its header is written. The path may stand behind `./` or `/` and, for a
directory, before a slash, and it is split at a slash when it is too long for the name. The
numbers are padded with zeros and end with blanks. The other fields are not looked at. -/
structure UstarEntry extends Member where
  lead : CString
  trail : CString
  front : CString
  name : CString
  modeTail : List UInt8
  owner : List UInt8
  sizeTail : List UInt8
  stamp : List UInt8
  link : List UInt8
  padding : List UInt8
  lead_cases : lead = [] ∨ lead = [dot, slash] ∨ lead = [slash] := by decide
  trail_cases : trail = [] ∨ directory = true ∧ trail = [slash] := by decide
  length_le : (lead ++ path ++ trail).length ≤ 254 := by decide
  split : front = [] ∧ name = lead ++ path ++ trail ∨ front ++ slash :: name = lead ++ path ++ trail := by decide
  length_front : front.length ≤ tarPrefixSize := by decide
  name_nonempty : name ≠ [] := by decide
  length_name : name.length ≤ tarNameSize := by decide
  modeTail_blank : ∀ c ∈ modeTail, c = 32 ∨ c = 0 := by simp
  length_modeTail : modeTail.length ≤ 8 := by decide
  mode_lt : mode < 8 ^ (8 - modeTail.length) := by decide
  sizeTail_blank : ∀ c ∈ sizeTail, c = 32 ∨ c = 0 := by simp
  length_sizeTail : sizeTail.length ≤ 12 := by decide
  size_lt : content.length < 8 ^ (12 - sizeTail.length) := by decide
  length_owner : owner.length = 16 := by exact List.length_replicate
  length_stamp : stamp.length = 20 := by exact List.length_replicate
  length_link : link.length = 188 := by exact List.length_replicate
  length_padding : padding.length = 12 := by exact List.length_replicate

namespace UstarEntry

variable (e : UstarEntry)

/-- The path as it is stored. -/
def stored : CString := e.lead ++ e.path ++ e.trail

def header : List UInt8 :=
  nulPadded tarNameSize e.name ++ ((octalDigits (8 - e.modeTail.length) e.mode ++ e.modeTail) ++ (e.owner ++
    ((octalDigits (12 - e.sizeTail.length) e.content.length ++ e.sizeTail) ++ (e.stamp ++
      ([if e.directory then 53 else 48] ++ (e.link ++ (nulPadded tarPrefixSize e.front ++ e.padding)))))))

/-- The header, and the content filled up to whole blocks. -/
def blocks : List UInt8 :=
  e.header ++ (e.content ++ List.replicate ((e.content.length + 511) / 512 * 512 - e.content.length) 0)

end UstarEntry

def ustarArchive (es : List UstarEntry) : List UInt8 :=
  es.flatMap UstarEntry.blocks ++ List.replicate 1024 0

/-! ### Reading it back -/

/-- The bytes stand in memory from `address` on. -/
def Stores (kmem : KernelMemory) (address : UInt64) (bytes : List UInt8) : Prop :=
  bytesAt kmem address bytes.length = bytes

variable {kmem : KernelMemory} {rd : Ramdisk} {address offset : UInt64}

lemma Stores.append {xs ys : List UInt8} (h : Stores kmem address (xs ++ ys)) {n : ℕ}
    (hn : xs.length = n) : Stores kmem address xs ∧ Stores kmem (address + UInt64.ofNat n) ys := by
  rw [Stores, List.length_append, bytesAt_add] at h
  rw [← hn]
  exact List.append_inj h (length_bytesAt _)

/-- A memory that is made from the bytes. -/
lemma stores_getD {bytes : List UInt8} (h : bytes.length < 2 ^ 64) :
    Stores (fun a => bytes.getD (a - address).toNat 0) address bytes := by
  refine List.ext_getElem (length_bytesAt _) fun i hi hi' => ?_
  have hmod : i % 18446744073709551616 = i := Nat.mod_eq_of_lt (by omega)
  simp [bytesAt, hmod, hi']

lemma Stores.bytesAt_eq {xs : List UInt8} (h : Stores kmem address xs) {n : ℕ} (hn : xs.length = n) :
    bytesAt kmem address n = xs := by
  rw [← hn]
  exact h

lemma Stores.singleton {c : UInt8} (h : Stores kmem address [c]) : kmem address = c := by
  have h : kmem (address + 0) = c := List.head_eq_of_cons_eq h
  rwa [add_zero] at h

namespace UstarEntry

variable {e : UstarEntry}

lemma zero_notMem_stored : 0 ∉ e.stored := by
  have hlead : 0 ∉ e.lead := by
    obtain h | h | h := e.lead_cases <;> rw [h] <;> decide
  have htrail : 0 ∉ e.trail := by
    obtain h | ⟨-, h⟩ := e.trail_cases <;> rw [h] <;> decide
  have htext := e.text
  simp [stored, hlead, htrail, htext]

lemma zero_notMem_name : 0 ∉ e.name := by
  have hstored := e.zero_notMem_stored
  obtain ⟨-, h⟩ | h := e.split
  · rwa [h]
  · intro hmem
    rw [stored, ← h] at hstored
    exact hstored (List.mem_append_right _ (List.mem_cons_of_mem _ hmem))

lemma zero_notMem_front : 0 ∉ e.front := by
  have hstored := e.zero_notMem_stored
  obtain ⟨h, -⟩ | h := e.split
  · rw [h]
    exact List.not_mem_nil
  · intro hmem
    rw [stored, ← h] at hstored
    exact hstored (List.mem_append_left _ hmem)

lemma length_mode : (octalDigits (8 - e.modeTail.length) e.mode ++ e.modeTail).length = 8 := by
  have := e.length_modeTail
  rw [List.length_append, length_octalDigits]
  omega

lemma length_size :
    (octalDigits (12 - e.sizeTail.length) e.content.length ++ e.sizeTail).length = 12 := by
  have := e.length_sizeTail
  rw [List.length_append, length_octalDigits]
  omega

lemma length_header : e.header.length = 512 := by
  have h₁ := e.length_mode
  have h₂ := e.length_size
  rw [List.length_append] at h₁ h₂
  simp only [header, List.length_append, length_nulPadded e.length_name, length_nulPadded e.length_front,
    e.length_owner, e.length_stamp, e.length_link, e.length_padding, List.length_singleton, tarNameSize, tarPrefixSize]
  omega

/-- The fields of a header that `ramdisk.c` reads. -/
structure HeaderAt (kmem : KernelMemory) (address : UInt64) (e : UstarEntry) : Prop where
  name : headerName kmem address = e.name
  mode : parseOctal (headerMode kmem address) = UInt64.ofNat e.mode
  size : parseOctal (headerSize kmem address) = UInt64.ofNat e.content.length
  typeflag : headerTypeflag kmem address = if e.directory then 53 else 48
  front : headerPrefix kmem address = e.front

lemma headerAt_of_stores (h : Stores kmem address e.header) : HeaderAt kmem address e := by
  obtain ⟨hname, h⟩ := h.append (length_nulPadded e.length_name)
  obtain ⟨hmode, h⟩ := h.append e.length_mode
  obtain ⟨-, h⟩ := h.append e.length_owner
  obtain ⟨hsize, h⟩ := h.append e.length_size
  obtain ⟨-, h⟩ := h.append e.length_stamp
  obtain ⟨htype, h⟩ := h.append rfl
  obtain ⟨-, h⟩ := h.append e.length_link
  obtain ⟨hfront, -⟩ := h.append (length_nulPadded e.length_front)
  simp only [add_assoc] at hsize htype hfront
  refine ⟨?_, ?_, ?_, ?_, ?_⟩
  · rw [headerName, boundedString, hname.bytesAt_eq (length_nulPadded e.length_name)]
    exact takeWhile_nulPadded e.zero_notMem_name
  · have hbytes : headerMode kmem address = _ := hmode.bytesAt_eq e.length_mode
    rw [hbytes]
    exact parseOctal_octalDigits e.mode_lt e.modeTail_blank
  · have hbytes : headerSize kmem address = _ := hsize.bytesAt_eq e.length_size
    rw [hbytes]
    exact parseOctal_octalDigits e.size_lt e.sizeTail_blank
  · exact htype.singleton
  · have hbytes : bytesAt kmem (address + 345) tarPrefixSize = _ :=
      hfront.bytesAt_eq (length_nulPadded e.length_front)
    rw [headerPrefix, boundedString, hbytes]
    exact takeWhile_nulPadded e.zero_notMem_front

end UstarEntry

/-! ### Paths -/

lemma skipLeading_slash (path : CString) : skipLeading (slash :: path) = skipLeading path := rfl

lemma skipLeading_slashes (n : ℕ) (path : CString) :
    skipLeading (List.replicate n slash ++ path) = skipLeading path := by
  induction n with
  | zero => rfl
  | succ n ih =>
    rw [List.replicate_succ, List.cons_append, skipLeading_slash]
    exact ih

lemma skipLeading_lead {lead : CString} (h : lead = [] ∨ lead = [dot, slash] ∨ lead = [slash])
    (path : CString) : skipLeading (lead ++ path) = skipLeading path := by
  obtain rfl | rfl | rfl := h
  · rfl
  · rfl
  · rfl

lemma skipLeading_append {path : CString} (h : skipLeading path = path) (hne : path ≠ [])
    (rest : CString) : skipLeading (path ++ rest) = path ++ rest := by
  cases path with
  | nil => exact absurd rfl hne
  | cons c path =>
    rw [skipLeading_eq_self_iff] at h
    rw [List.cons_append, skipLeading_eq_self_iff]
    refine ⟨h.1, fun hdot => h.2 ⟨hdot.1, ?_⟩⟩
    cases path with
    | nil => exact .inr rfl
    | cons c' path => simpa using hdot.2

lemma rdropWhile_slashes (path : CString) (n : ℕ) :
    (path ++ List.replicate n slash).rdropWhile (· = slash) = path.rdropWhile (· = slash) := by
  induction n with
  | zero => rw [List.replicate_zero, List.append_nil]
  | succ n ih =>
    rw [List.replicate_succ', ← List.append_assoc, List.rdropWhile_concat_pos _ _ _ (by simp)]
    exact ih

/-- Slashes around a path and a leading `./` do not matter. -/
lemma NormalPath.normalizePath_around {path lead : CString} (h : NormalPath path) (hne : path ≠ [])
    (hlead : lead = [] ∨ lead = [dot, slash] ∨ lead = [slash]) (m n : ℕ) :
    normalizePath (List.replicate m slash ++ (lead ++ path ++ List.replicate n slash))
      ramdiskPathSize = path := by
  have hskip : skipLeading (List.replicate m slash ++ (lead ++ path ++ List.replicate n slash)) =
      path ++ List.replicate n slash := by
    rw [skipLeading_slashes, List.append_assoc, skipLeading_lead hlead, skipLeading_append h.leading hne]
  rw [Xbks.normalizePath_eq, hskip, List.take_append, List.take_of_length_le h.length,
    List.take_replicate, rdropWhile_slashes]
  have hpath := h.normalizePath_eq
  rwa [Xbks.normalizePath_eq, h.leading, List.take_of_length_le h.length] at hpath

namespace UstarEntry

variable {e : UstarEntry}

lemma trail_eq : ∃ n, e.trail = List.replicate n slash := by
  obtain h | ⟨-, h⟩ := e.trail_cases
  · exact ⟨0, h⟩
  · exact ⟨1, h⟩

lemma normalizePath_stored : normalizePath e.stored ramdiskPathSize = e.path := by
  obtain ⟨n, hn⟩ := e.trail_eq
  rw [stored, hn]
  exact e.normal.normalizePath_around e.nonempty e.lead_cases 0 n

/-- Nothing is cut off when the prefix and the name are put together. -/
lemma normalizePath_combined : normalizePath (combinedPath e.front e.name) ramdiskPathSize = e.path := by
  have hname : e.name.length ≤ 100 := e.length_name
  have hfront : e.front.length ≤ 155 := e.length_front
  have hlen := e.length_le
  have hsize : ramdiskPathSize = 256 := rfl
  rw [← normalizePath_stored]
  by_cases hnil : e.front = []
  · have hcombined : combinedPath e.front e.name = e.name := by
      rw [combinedPath, combinedPrefix, if_neg (not_not.mpr hnil), List.nil_append, copyBytes]
      exact List.take_of_length_le (by
        rw [List.length_nil]
        omega)
    rw [hcombined]
    obtain ⟨-, h⟩ | h := e.split
    · rw [h]
      rfl
    · rw [hnil, List.nil_append] at h
      rw [stored, ← h]
      rfl
  · obtain ⟨h, -⟩ | h := e.split
    · exact absurd h hnil
    · rw [← h, List.length_append, List.length_cons] at hlen
      have hfits : copyBytes ramdiskPathSize e.front = e.front := List.take_of_length_le (by omega)
      have hcombined : combinedPath e.front e.name = e.front ++ slash :: e.name := by
        rw [combinedPath, combinedPrefix, if_pos hnil, hfits, if_pos (by omega), copyBytes,
          List.length_append, List.length_singleton, List.take_of_length_le (by omega),
          List.append_assoc, List.singleton_append]
      rw [hcombined, h]
      rfl

lemma HeaderAt.tarPath_eq (h : HeaderAt kmem address e) : tarPath kmem address = some e.path := by
  rw [Xbks.tarPath_eq, h.name, h.front, normalizePath_combined, if_neg e.name_nonempty,
    if_neg e.nonempty]

/-! ### The walk -/

lemma length_blocks : e.blocks.length = 512 + (e.content.length + 511) / 512 * 512 := by
  rw [blocks, List.length_append, List.length_append, length_header, List.length_replicate]
  omega

lemma blockIsZero_eq (h : Stores kmem address e.header) : blockIsZero kmem address = false := by
  rw [blockIsZero, h.bytesAt_eq length_header, List.all_eq_false]
  obtain ⟨c, name, hname⟩ := List.exists_cons_of_ne_nil e.name_nonempty
  have hc : c ∈ e.name := hname ▸ List.mem_cons_self
  refine ⟨c, ?_, ?_⟩
  · rw [header, nulPadded, List.append_assoc]
    exact List.mem_append_left _ hc
  · intro h0
    rw [decide_eq_true_eq] at h0
    exact e.zero_notMem_name (h0 ▸ hc)

/-- What the walk finds at the place where an entry is stored. -/
structure FoundAt (kmem : KernelMemory) (rd : Ramdisk) (t : TarEntry) (e : UstarEntry) : Prop where
  header : HeaderAt kmem t.header e
  size : t.fileSize.toNat = e.content.length
  content : Stores kmem (rd.ramdiskData + t.dataOffset) e.content

/-- The walk stops at the entry and goes on behind its blocks. -/
lemma entriesFrom_blocks {rest : List UInt8} (fuel : ℕ)
    (h : Stores kmem (rd.ramdiskData + offset) (e.blocks ++ rest))
    (hsize : offset.toNat + (e.blocks ++ rest).length = rd.ramdiskSize.toNat) :
    ∃ t, FoundAt kmem rd t e ∧ entriesFrom kmem rd (fuel + 1) offset =
      t :: entriesFrom kmem rd fuel (offset + UInt64.ofNat e.blocks.length) := by
  have hlt := rd.ramdiskSize.toNat_lt
  have hlen := e.length_blocks
  rw [List.length_append] at hsize
  obtain ⟨hblocks, -⟩ := h.append rfl
  obtain ⟨hheader, hdata⟩ := hblocks.append length_header
  obtain ⟨hcontent, -⟩ := hdata.append rfl
  have hat := headerAt_of_stores hheader
  have hcount : (UInt64.ofNat e.content.length).toNat = e.content.length :=
    Word.toNat_ofNat_of_lt (by omega)
  have hdataOffset : (offset + tarBlockSize).toNat = offset.toNat + 512 := by
    refine Word.toNat_add_of_lt offset tarBlockSize ?_
    rw [show tarBlockSize.toNat = 512 from rfl]
    omega
  have hle : offset + tarBlockSize ≤ rd.ramdiskSize := by
    rw [UInt64.le_iff_toNat_le]
    omega
  have hentry : entryAt kmem rd offset =
      some (rd.ramdiskData + offset, offset + tarBlockSize, UInt64.ofNat e.content.length) := by
    have hroom : ¬(offset + tarBlockSize > rd.ramdiskSize ∨
        parseOctal (headerSize kmem (rd.ramdiskData + offset)) >
          rd.ramdiskSize - (offset + tarBlockSize)) := by
      rw [hat.size, not_or, gt_iff_lt, gt_iff_lt, UInt64.not_lt, UInt64.not_lt]
      refine ⟨hle, ?_⟩
      rw [UInt64.le_iff_toNat_le, UInt64.toNat_sub_of_le _ _ hle, hcount]
      omega
    unfold entryAt
    rw [if_pos hle, if_neg (by rw [blockIsZero_eq hheader]; exact Bool.false_ne_true), if_neg hroom,
      hat.size]
  have hnext : TarEntry.next ⟨offset, rd.ramdiskData + offset, offset + tarBlockSize,
      UInt64.ofNat e.content.length⟩ = offset + UInt64.ofNat e.blocks.length := by
    have halign := toNat_alignToTarBlock (v := UInt64.ofNat e.content.length) (by omega)
    have hblock : (UInt64.ofNat e.blocks.length).toNat = e.blocks.length :=
      Word.toNat_ofNat_of_lt (by omega)
    rw [hcount] at halign
    dsimp only [TarEntry.next]
    rw [← UInt64.toNat_inj,
      Word.toNat_add_of_lt (offset + tarBlockSize) (alignToTarBlock _) (by omega),
      Word.toNat_add_of_lt offset (UInt64.ofNat _) (by omega)]
    omega
  refine ⟨⟨offset, rd.ramdiskData + offset, offset + tarBlockSize, UInt64.ofNat e.content.length⟩,
    ⟨hat, hcount, ?_⟩, ?_⟩
  · dsimp only
    rw [← add_assoc]
    exact hcontent
  · rw [entriesFrom_some hentry, hnext]

end UstarEntry

/-- With different paths in the archive, the first entry that has the path is the right one. -/
lemma find?_ustarArchive {es : List UstarEntry} {fuel : ℕ} (offset : UInt64)
    (hdistinct : (es.map fun e => e.path).Nodup)
    (h : Stores kmem (rd.ramdiskData + offset) (ustarArchive es))
    (hsize : offset.toNat + (ustarArchive es).length = rd.ramdiskSize.toNat)
    (hfuel : es.length ≤ fuel) {e : UstarEntry} (he : e ∈ es) :
    ∃ t, (entriesFrom kmem rd fuel offset).find? (fun t => tarPath kmem t.header = some e.path) = some t ∧
      UstarEntry.FoundAt kmem rd t e := by
  induction es generalizing offset fuel with
  | nil => cases he
  | cons e₀ es ih =>
    obtain ⟨fuel, rfl⟩ : ∃ n, fuel = n + 1 := ⟨fuel - 1, by rw [List.length_cons] at hfuel; omega⟩
    have hcons : ustarArchive (e₀ :: es) = e₀.blocks ++ ustarArchive es := by
      rw [ustarArchive, List.flatMap_cons, List.append_assoc, ustarArchive]
    rw [hcons] at h hsize
    rw [List.map_cons, List.nodup_cons] at hdistinct
    obtain ⟨t, hfound, hwalk⟩ := UstarEntry.entriesFrom_blocks fuel h hsize
    rw [hwalk, List.find?_cons, hfound.header.tarPath_eq]
    by_cases heq : e₀.path = e.path
    · obtain rfl | hmem := List.mem_cons.mp he
      · exact ⟨t, by simp, hfound⟩
      · exact absurd (List.mem_map.mpr ⟨e, hmem, heq.symm⟩) hdistinct.1
    · have hmem : e ∈ es := by
        obtain rfl | hmem := List.mem_cons.mp he
        · exact absurd rfl heq
        · exact hmem
      have hstores := (h.append rfl).2
      rw [add_assoc] at hstores
      rw [List.length_append] at hsize
      have hlt := rd.ramdiskSize.toNat_lt
      have hblock : (UInt64.ofNat e₀.blocks.length).toNat = e₀.blocks.length :=
        Word.toNat_ofNat_of_lt (by omega)
      have hoffset := Word.toNat_add_of_lt offset (UInt64.ofNat e₀.blocks.length) (by omega)
      have hrest := ih _ hdistinct.2 hstores (by omega) (Nat.le_of_succ_le_succ hfuel) hmem
      simpa [heq] using hrest

end Xbks
