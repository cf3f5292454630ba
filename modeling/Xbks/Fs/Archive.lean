import Xbks.Fs.Path
import Xbks.Lib.Firsts
import Xbks.Lib.Word

/-!
# The archive as a list of entries

The walks of `find_header`, `child_seen_before` and `xbks_ramdisk_read_dir` visit the same entries
in the same order. Here the entries are a list, and the walks become searches in it.
-/

namespace Xbks

/-- An entry of the archive: where it starts, its header, and where its data are. -/
structure TarEntry where
  offset : UInt64
  header : UInt64
  dataOffset : UInt64
  fileSize : UInt64

def TarEntry.next (e : TarEntry) : UInt64 := e.dataOffset + alignToTarBlock e.fileSize

/-- The entries that a walk visits from `offset` on. -/
def entriesFrom (kmem : KernelMemory) (rd : Ramdisk) : ℕ → UInt64 → List TarEntry
  | 0, _ => []
  | fuel + 1, offset =>
    match entryAt kmem rd offset with
    | none => []
    | some (header, dataOffset, fileSize) =>
      let e : TarEntry := ⟨offset, header, dataOffset, fileSize⟩
      e :: entriesFrom kmem rd fuel e.next

def entries (kmem : KernelMemory) (rd : Ramdisk) : List TarEntry :=
  entriesFrom kmem rd (walkLimit rd) 0

/-- The size leaves room for the offsets behind the last entry. -/
def Ramdisk.Fits (rd : Ramdisk) : Prop := rd.ramdiskSize.toNat < 2 ^ 64 - 1024

variable {kmem : KernelMemory} {rd : Ramdisk} {offset : UInt64} {e : TarEntry} {fuel : ℕ}

/-! ### Where entries are -/

lemma toNat_alignToTarBlock {v : UInt64} (h : v.toNat + 512 ≤ 2 ^ 64) :
    (alignToTarBlock v).toNat = (v.toNat + 511) / 512 * 512 := by
  have hsum : (v + tarBlockSize - 1).toNat = v.toNat + 511 := by
    rw [add_sub_assoc]
    exact Word.toNat_add_of_lt v 511 (by
      rw [show (511 : UInt64).toNat = 511 from rfl]
      omega)
  rw [alignToTarBlock, Word.toNat_and_not_mask _ 512 (k := 9) (by norm_num) rfl, hsum]
  norm_num

/-- An entry lies in the archive with its header and its data. -/
structure TarEntry.Inside (rd : Ramdisk) (e : TarEntry) : Prop where
  header : e.header = rd.ramdiskData + e.offset
  dataOffset : e.dataOffset.toNat = e.offset.toNat + 512
  block : e.offset.toNat + 512 ≤ rd.ramdiskSize.toNat
  data : e.dataOffset.toNat + e.fileSize.toNat ≤ rd.ramdiskSize.toNat
  next : e.next.toNat = e.dataOffset.toNat + (e.fileSize.toNat + 511) / 512 * 512

lemma entryAt_some {header dataOffset fileSize : UInt64}
    (h : entryAt kmem rd offset = some (header, dataOffset, fileSize)) :
    offset + tarBlockSize ≤ rd.ramdiskSize ∧ header = rd.ramdiskData + offset ∧
      dataOffset = offset + tarBlockSize ∧ dataOffset ≤ rd.ramdiskSize ∧
      fileSize ≤ rd.ramdiskSize - dataOffset ∧ fileSize = parseOctal (headerSize kmem header) := by
  unfold entryAt at h
  by_cases hblock : offset + tarBlockSize ≤ rd.ramdiskSize
  · rw [if_pos hblock] at h
    cases hzero : blockIsZero kmem (rd.ramdiskData + offset) with
    | true =>
      rw [if_pos hzero] at h
      cases h
    | false =>
      rw [if_neg (by rw [hzero]; exact Bool.false_ne_true)] at h
      by_cases hdata : offset + tarBlockSize > rd.ramdiskSize ∨
          parseOctal (headerSize kmem (rd.ramdiskData + offset)) >
            rd.ramdiskSize - (offset + tarBlockSize)
      · rw [if_pos hdata] at h
        cases h
      · rw [if_neg hdata, Option.some.injEq, Prod.mk.injEq, Prod.mk.injEq] at h
        obtain ⟨rfl, rfl, rfl⟩ := h
        rw [not_or, gt_iff_lt, gt_iff_lt, UInt64.not_lt, UInt64.not_lt] at hdata
        exact ⟨hblock, rfl, rfl, hdata.1, hdata.2, rfl⟩
  · rw [if_neg hblock] at h
    cases h

lemma TarEntry.Inside.of_entryAt {header dataOffset fileSize : UInt64} (hsize : rd.Fits)
    (hoffset : offset.toNat ≤ rd.ramdiskSize.toNat + 511)
    (h : entryAt kmem rd offset = some (header, dataOffset, fileSize)) :
    TarEntry.Inside rd ⟨offset, header, dataOffset, fileSize⟩ := by
  rw [Ramdisk.Fits] at hsize
  obtain ⟨hblock, rfl, rfl, hdata, hfile, -⟩ := entryAt_some h
  have hsum : (offset + tarBlockSize).toNat = offset.toNat + 512 := by
    refine Word.toNat_add_of_lt offset tarBlockSize ?_
    rw [show tarBlockSize.toNat = 512 from rfl]
    omega
  rw [UInt64.le_iff_toNat_le, UInt64.toNat_sub_of_le _ _ hdata] at hfile
  rw [UInt64.le_iff_toNat_le] at hdata
  refine ⟨rfl, hsum, by dsimp only; omega, by dsimp only; omega, ?_⟩
  have halign := toNat_alignToTarBlock (v := fileSize) (by omega)
  dsimp only [TarEntry.next]
  rw [Word.toNat_add_of_lt _ _ (by rw [halign]; omega), halign]

lemma TarEntry.Inside.next_le (h : e.Inside rd) :
    e.offset.toNat + 512 ≤ e.next.toNat ∧ e.next.toNat ≤ rd.ramdiskSize.toNat + 511 := by
  have h₁ := h.dataOffset
  have h₂ := h.next
  have h₃ := h.data
  omega

/-! ### The list of entries -/

lemma entriesFrom_none (h : entryAt kmem rd offset = none) : entriesFrom kmem rd fuel offset = [] := by
  cases fuel with
  | zero => rfl
  | succ fuel => simp only [entriesFrom, h]

lemma entriesFrom_some {header dataOffset fileSize : UInt64}
    (h : entryAt kmem rd offset = some (header, dataOffset, fileSize)) :
    entriesFrom kmem rd (fuel + 1) offset =
      ⟨offset, header, dataOffset, fileSize⟩ :: entriesFrom kmem rd fuel
        (TarEntry.next ⟨offset, header, dataOffset, fileSize⟩) := by
  simp only [entriesFrom, h]

/-- Every entry of a walk is in the archive, at or behind the start of the walk. -/
lemma inside_of_mem_entriesFrom (hsize : rd.Fits)
    (hoffset : offset.toNat ≤ rd.ramdiskSize.toNat + 511) (he : e ∈ entriesFrom kmem rd fuel offset) :
    e.Inside rd ∧ offset.toNat ≤ e.offset.toNat := by
  induction fuel generalizing offset with
  | zero => cases he
  | succ fuel ih =>
    cases hentry : entryAt kmem rd offset with
    | none =>
      rw [entriesFrom_none hentry] at he
      cases he
    | some entry =>
      obtain ⟨header, dataOffset, fileSize⟩ := entry
      have hin := TarEntry.Inside.of_entryAt hsize hoffset hentry
      rw [entriesFrom_some hentry] at he
      rcases List.mem_cons.mp he with rfl | he
      · exact ⟨hin, le_refl _⟩
      · obtain ⟨hle, hnext⟩ := hin.next_le
        obtain ⟨hein, hge⟩ := ih hnext he
        refine ⟨hein, le_trans ?_ hge⟩
        exact (Nat.le_add_right _ _).trans hle

lemma inside_of_mem_entries (hsize : rd.Fits) (he : e ∈ entries kmem rd) : e.Inside rd :=
  (inside_of_mem_entriesFrom hsize (Nat.zero_le _) he).1

/-- Entries are visited in the order of their offsets. -/
lemma entriesFrom_sorted (hsize : rd.Fits) (hoffset : offset.toNat ≤ rd.ramdiskSize.toNat + 511) :
    (entriesFrom kmem rd fuel offset).Pairwise fun e e' => e.offset < e'.offset := by
  induction fuel generalizing offset with
  | zero => exact .nil
  | succ fuel ih =>
    cases hentry : entryAt kmem rd offset with
    | none =>
      rw [entriesFrom_none hentry]
      exact .nil
    | some entry =>
      obtain ⟨header, dataOffset, fileSize⟩ := entry
      obtain ⟨hle, hnext⟩ := (TarEntry.Inside.of_entryAt hsize hoffset hentry).next_le
      rw [entriesFrom_some hentry]
      refine List.pairwise_cons.mpr ⟨fun e he => ?_, ih hnext⟩
      have hge := (inside_of_mem_entriesFrom hsize hnext he).2
      rw [UInt64.lt_iff_toNat_lt]
      exact lt_of_lt_of_le (by dsimp only at hle ⊢; omega) hge

lemma length_entriesFrom_le : (entriesFrom kmem rd fuel offset).length ≤ fuel := by
  induction fuel generalizing offset with
  | zero => exact le_refl _
  | succ fuel ih =>
    cases hentry : entryAt kmem rd offset with
    | none =>
      rw [entriesFrom_none hentry]
      exact Nat.zero_le _
    | some entry =>
      obtain ⟨header, dataOffset, fileSize⟩ := entry
      rw [entriesFrom_some hentry, List.length_cons]
      exact Nat.succ_le_succ ih

/-! ### Looking up a path -/

/-- The entry has the path `p` or lies below it. -/
def TarEntry.under (kmem : KernelMemory) (p : CString) (e : TarEntry) : Bool :=
  match tarPath kmem e.header with
  | none => false
  | some path => path = p ∨ (p ++ [slash]).isPrefixOf path

lemma under_iff {p : CString} : e.under kmem p = true ↔
    ∃ path, tarPath kmem e.header = some path ∧ (path = p ∨ p ++ [slash] <+: path) := by
  rw [TarEntry.under]
  cases tarPath kmem e.header with
  | none => simp
  | some path => simp

/-- `find_header` answers the first entry with the path, or whether there is one below it. -/
lemma findHeaderFrom_eq {p : CString} (hp : p ≠ []) (before : Bool) :
    findHeaderFrom kmem rd p fuel offset before =
      match (entriesFrom kmem rd fuel offset).find? fun e => tarPath kmem e.header = some p with
      | some e => .inl (fillFile kmem e.header p (rd.ramdiskData + e.dataOffset) e.fileSize)
      | none => .inr (before || (entriesFrom kmem rd fuel offset).any (TarEntry.under kmem p)) := by
  induction fuel generalizing offset before with
  | zero => simp [findHeaderFrom, entriesFrom]
  | succ fuel ih =>
    cases hentry : entryAt kmem rd offset with
    | none => simp [findHeaderFrom, hentry, entriesFrom_none hentry]
    | some entry =>
      obtain ⟨header, dataOffset, fileSize⟩ := entry
      rw [entriesFrom_some hentry]
      simp only [findHeaderFrom, hentry, List.find?_cons, List.any_cons, TarEntry.under]
      cases hpath : tarPath kmem header with
      | none =>
        simp only [ih]
        rfl
      | some path =>
        by_cases heq : path = p
        · simp [heq]
        · simp only [ih, heq, hp, if_false, Option.some.injEq, decide_false, ne_eq, not_false_iff,
            decide_true, Bool.true_and, false_or, Bool.decide_eq_true, Bool.or_assoc]
          rfl

lemma findHeader_inr {p : CString} {below : Bool} (hp : p ≠ [])
    (h : findHeader kmem rd p = .inr below) : below = (entries kmem rd).any (TarEntry.under kmem p) := by
  rw [findHeader, findHeaderFrom_eq hp, Bool.false_or] at h
  split at h
  · cases h
  · exact (Sum.inr.inj h).symm

/-- A path is found exactly when some entry has it or lies below it. -/
lemma ramdiskFind_isSome {p : CString} (hnorm : normalizePath p ramdiskPathSize = p) (hp : p ≠ []) :
    (ramdiskFind kmem rd p).isSome = (rd.ramdiskAvailable && (entries kmem rd).any (TarEntry.under kmem p)) := by
  rw [ramdiskFind]
  cases rd.ramdiskAvailable with
  | false => rfl
  | true =>
    simp only [if_true, hnorm, if_neg hp, Bool.true_and]
    cases hfind : findHeader kmem rd p with
    | inl file =>
      rw [findHeader, findHeaderFrom_eq hp] at hfind
      split at hfind
      · rename_i e he
        have hmem := List.mem_of_find?_eq_some he
        have hpath : tarPath kmem e.header = some p := by simpa using List.find?_some he
        have hany : (entries kmem rd).any (TarEntry.under kmem p) = true :=
          List.any_eq_true.mpr ⟨e, hmem, under_iff.mpr ⟨p, hpath, .inl rfl⟩⟩
        rw [hany]
        rfl
      · cases hfind
    | inr below =>
      rw [← findHeader_inr hp hfind]
      cases below <;> rfl

/-- The first entry with a path is what is found. -/
lemma ramdiskFind_first {p q : CString} (havailable : rd.ramdiskAvailable = true)
    (hq : normalizePath q ramdiskPathSize = p) (hp : p ≠ [])
    (he : (entries kmem rd).find? (fun e => tarPath kmem e.header = some p) = some e) :
    ramdiskFind kmem rd q =
      some (fillFile kmem e.header p (rd.ramdiskData + e.dataOffset) e.fileSize) := by
  have hfind := @findHeaderFrom_eq kmem rd 0 (walkLimit rd) p hp false
  rw [← entries, he] at hfind
  simp only [ramdiskFind, havailable, if_true, hq, if_neg hp, findHeader, hfind]

/-- Without one, the path is a directory if entries lie below it. -/
lemma ramdiskFind_none {p q : CString} (havailable : rd.ramdiskAvailable = true)
    (hq : normalizePath q ramdiskPathSize = p) (hp : p ≠ [])
    (hnone : (entries kmem rd).find? (fun e => tarPath kmem e.header = some p) = none) :
    ramdiskFind kmem rd q =
      if (entries kmem rd).any (TarEntry.under kmem p) then some (implicitDirectory p) else none := by
  have hfind := @findHeaderFrom_eq kmem rd 0 (walkLimit rd) p hp false
  rw [← entries, hnone] at hfind
  simp only [ramdiskFind, havailable, if_true, hq, if_neg hp, findHeader, hfind, Bool.false_or]
  cases (entries kmem rd).any (TarEntry.under kmem p) <;> rfl

lemma ramdiskFind_below {p q : CString} (havailable : rd.ramdiskAvailable = true)
    (hq : normalizePath q ramdiskPathSize = p) (hp : p ≠ [])
    (hnone : (entries kmem rd).find? (fun e => tarPath kmem e.header = some p) = none)
    (he : e ∈ entries kmem rd) (hunder : e.under kmem p = true) :
    ramdiskFind kmem rd q = some (implicitDirectory p) := by
  rw [ramdiskFind_none havailable hq hp hnone, if_pos (List.any_eq_true.mpr ⟨e, he, hunder⟩)]

/-! ### Listing a directory -/

/-- The name of the child of `d` that an entry lies in. -/
def TarEntry.child (kmem : KernelMemory) (d : CString) (e : TarEntry) : Option CString :=
  ((tarPath kmem e.header).bind (childNameForDirectory · d)).map Prod.fst

/-- What `xbks_ramdisk_read_dir` answers at an entry. -/
def childFile (kmem : KernelMemory) (rd : Ramdisk) (d : CString) (e : TarEntry) :
    Option RamdiskFile :=
  (tarPath kmem e.header).bind fun entryPath =>
    (childNameForDirectory entryPath d).map fun child =>
      let directory := child.2 || headerIsDirectory kmem e.header entryPath
      { path := makePublicPath (childPath d child.1) ramdiskPathSize
        data := if child.2 then 0 else rd.ramdiskData + e.dataOffset
        size := if child.2 then 0 else e.fileSize
        directory := directory
        executable := !directory && parseOctal (headerMode kmem e.header) &&& 0o111 ≠ 0 }

lemma childSeenBeforeFrom_eq {d c : CString} {current : UInt64} :
    childSeenBeforeFrom kmem rd d c current fuel offset =
      ((entriesFrom kmem rd fuel offset).takeWhile fun e => e.offset < current).any
        fun e => e.child kmem d = some c := by
  induction fuel generalizing offset with
  | zero => rfl
  | succ fuel ih =>
    rw [childSeenBeforeFrom]
    by_cases hlt : offset < current
    · cases hentry : entryAt kmem rd offset with
      | none => simp [hlt, entriesFrom_none hentry]
      | some entry =>
        obtain ⟨header, dataOffset, fileSize⟩ := entry
        rw [entriesFrom_some hentry]
        simp only [hlt, if_true, List.takeWhile_cons, decide_true, List.any_cons]
        rw [← ih]
        have hchild : TarEntry.child kmem d ⟨offset, header, dataOffset, fileSize⟩ =
          ((tarPath kmem header).bind (childNameForDirectory · d)).map Prod.fst := rfl
        cases hbind : (tarPath kmem header).bind (childNameForDirectory · d) with
        | none =>
          rw [hbind] at hchild
          simp [hchild, TarEntry.next]
        | some child =>
          rw [hbind] at hchild
          by_cases hc : child.1 = c
          · simp [hchild, hc]
          · simp [hchild, hc, TarEntry.next]
    · rw [if_neg hlt]
      cases hentry : entryAt kmem rd offset with
      | none => simp [entriesFrom_none hentry]
      | some entry =>
        obtain ⟨header, dataOffset, fileSize⟩ := entry
        rw [entriesFrom_some hentry]
        simp [hlt]

/-- At an entry of the archive `child_seen_before` looks at the entries before it. -/
lemma childSeenBefore_iff {d c : CString} {before after : List TarEntry} (hsize : rd.Fits)
    (h : entries kmem rd = before ++ e :: after) :
    childSeenBefore kmem rd d c e.offset = true ↔ c ∈ before.filterMap (TarEntry.child kmem d) := by
  have hsorted : (entries kmem rd).Pairwise fun e e' => e.offset < e'.offset :=
    entriesFrom_sorted hsize (Nat.zero_le _)
  have hbefore : (entries kmem rd).takeWhile (fun x => x.offset < e.offset) = before := by
    rw [h] at hsorted ⊢
    have hall : ∀ x ∈ before, decide (x.offset < e.offset) = true := fun x hx =>
      decide_eq_true ((List.pairwise_append.mp hsorted).2.2 x hx e List.mem_cons_self)
    rw [List.takeWhile_append_of_pos hall, List.takeWhile_cons_of_neg (by simp), List.append_nil]
  rw [childSeenBefore, childSeenBeforeFrom_eq]
  rw [entries] at hbefore
  rw [hbefore, List.any_eq_true, List.mem_filterMap]
  simp only [decide_eq_true_eq]

/-- `xbks_ramdisk_read_dir` counts the entries that are the first ones with their child. -/
lemma readDirFrom_eq {d : CString} {index current : UInt64} {before : List TarEntry} (hsize : rd.Fits)
    (h : entries kmem rd = before ++ entriesFrom kmem rd fuel offset)
    (hle : current.toNat ≤ index.toNat) (hfuel : current.toNat + fuel < 2 ^ 64) :
    readDirFrom kmem rd d index fuel offset current =
      ((Firsts.firsts (TarEntry.child kmem d) before
        (entriesFrom kmem rd fuel offset))[index.toNat - current.toNat]?).bind
          (childFile kmem rd d) := by
  induction fuel generalizing offset current before with
  | zero => simp [readDirFrom, entriesFrom]
  | succ fuel ih =>
    cases hentry : entryAt kmem rd offset with
    | none => simp [readDirFrom, hentry, entriesFrom_none hentry]
    | some entry =>
      obtain ⟨header, dataOffset, fileSize⟩ := entry
      rw [entriesFrom_some hentry] at h ⊢
      set e : TarEntry := ⟨offset, header, dataOffset, fileSize⟩ with he
      have hrest : entries kmem rd = before ++ [e] ++ entriesFrom kmem rd fuel e.next := by
        rw [h, List.append_assoc, List.singleton_append]
      have hskip := ih hrest hle (by omega)
      simp only [readDirFrom, hentry]
      cases hpath : tarPath kmem header with
      | none =>
        have hnone : e.child kmem d = none := by simp [TarEntry.child, he, hpath]
        rw [Firsts.firsts_none hnone]
        exact hskip
      | some entryPath =>
        cases hchild : childNameForDirectory entryPath d with
        | none =>
          have hnone : e.child kmem d = none := by simp [TarEntry.child, he, hpath, hchild]
          simp only [hchild]
          rw [Firsts.firsts_none hnone]
          exact hskip
        | some child =>
          obtain ⟨childName, nested⟩ := child
          have hsome : e.child kmem d = some childName := by simp [TarEntry.child, he, hpath, hchild]
          have hseen := childSeenBefore_iff (d := d) (c := childName) hsize h
          simp only [hchild]
          by_cases hin : childName ∈ before.filterMap (TarEntry.child kmem d)
          · rw [if_pos (hseen.mpr hin), Firsts.firsts_seen hsome hin]
            exact hskip
          · rw [if_neg (fun h => hin (hseen.mp h)), Firsts.firsts_new hsome hin]
            by_cases hindex : current = index
            · simp [hindex, childFile, he, hpath, hchild]
            · have hlt : current.toNat < index.toNat := by
                rw [← UInt64.toNat_inj] at hindex
                omega
              have hsucc : (current + 1).toNat = current.toNat + 1 :=
                Word.toNat_add_of_lt current 1 (by rw [UInt64.toNat_one]; omega)
              have hstep := @ih e.next (current + 1) (before ++ [e]) hrest (by omega) (by omega)
              rw [if_neg hindex, show index.toNat - current.toNat =
                index.toNat - (current + 1).toNat + 1 by omega, List.getElem?_cons_succ]
              exact hstep

/-- The children of a directory, each with the first entry that lies in it. -/
def children (kmem : KernelMemory) (rd : Ramdisk) (d : CString) : List TarEntry :=
  Firsts.firsts (TarEntry.child kmem d) [] (entries kmem rd)

lemma ramdiskReadDir_eq {d : CString} {index : UInt64} (hsize : rd.Fits)
    (hnorm : normalizePath d ramdiskPathSize = d) (havailable : rd.ramdiskAvailable = true) :
    ramdiskReadDir kmem rd d index =
      ((children kmem rd d)[index.toNat]?).bind (childFile kmem rd d) := by
  have hlimit : walkLimit rd < 2 ^ 64 := by
    have := rd.ramdiskSize.toNat_lt
    rw [walkLimit]
    omega
  rw [ramdiskReadDir, if_pos havailable, hnorm]
  exact readDirFrom_eq hsize rfl (Nat.zero_le _) (by simpa using hlimit)

/-! ### Data -/

/-- The bytes from `data` on, `size` of them, are bytes of the archive. -/
def InArchive (rd : Ramdisk) (data size : UInt64) : Prop :=
  ∃ start : UInt64, data = rd.ramdiskData + start ∧ start.toNat + size.toNat ≤ rd.ramdiskSize.toNat

lemma TarEntry.Inside.inArchive (h : e.Inside rd) :
    InArchive rd (rd.ramdiskData + e.dataOffset) e.fileSize := ⟨e.dataOffset, rfl, h.data⟩

/-- What is found is a directory that no entry describes, or an entry with its data. -/
lemma ramdiskFind_some {p : CString} {file : RamdiskFile} (h : ramdiskFind kmem rd p = some file) :
    file = implicitDirectory (normalizePath p ramdiskPathSize) ∨
    ∃ e ∈ entries kmem rd, file = fillFile kmem e.header (normalizePath p ramdiskPathSize)
      (rd.ramdiskData + e.dataOffset) e.fileSize := by
  rw [ramdiskFind] at h
  cases havailable : rd.ramdiskAvailable with
  | false =>
    rw [havailable] at h
    cases h
  | true =>
    simp only [havailable, if_true] at h
    by_cases hnil : normalizePath p ramdiskPathSize = []
    · rw [if_pos hnil] at h
      exact .inl (Option.some.inj h).symm
    · rw [if_neg hnil] at h
      cases hfind : findHeader kmem rd (normalizePath p ramdiskPathSize) with
      | inl found =>
        rw [hfind] at h
        rw [findHeader, findHeaderFrom_eq hnil] at hfind
        split at hfind
        · rename_i e he
          cases h
          exact .inr ⟨e, List.mem_of_find?_eq_some he, (Sum.inl.inj hfind).symm⟩
        · cases hfind
      | inr below =>
        rw [hfind] at h
        cases below with
        | true => exact .inl (Option.some.inj h).symm
        | false => cases h

lemma ramdiskFind_cases {p : CString} {file : RamdiskFile} (hsize : rd.Fits)
    (h : ramdiskFind kmem rd p = some file) :
    file = implicitDirectory (normalizePath p ramdiskPathSize) ∨ InArchive rd file.data file.size := by
  refine (ramdiskFind_some h).imp id ?_
  rintro ⟨e, he, rfl⟩
  exact (inside_of_mem_entries hsize he).inArchive

lemma ramdiskFind_path {p : CString} {file : RamdiskFile} (h : ramdiskFind kmem rd p = some file) :
    file.path = makePublicPath (normalizePath p ramdiskPathSize) ramdiskPathSize := by
  rcases ramdiskFind_some h with rfl | ⟨e, -, rfl⟩
  · rfl
  · rfl

/-- The path of a file that has been found names the same place. -/
lemma normalizePath_ramdiskFind {p : CString} {file : RamdiskFile} (hlen : p.length ≤ 254)
    (h : ramdiskFind kmem rd p = some file) :
    normalizePath file.path ramdiskPathSize = normalizePath p ramdiskPathSize := by
  have hnormal := normalPath_normalizePath p
  have hshort : (normalizePath p ramdiskPathSize).length ≤ 254 := by
    rw [normalizePath_eq]
    have hskip := length_skipLeading_le p
    have hdrop := (List.rdropWhile_prefix (· = slash) (l := (skipLeading p).take 255)).length_le
    rw [List.length_take] at hdrop
    omega
  rw [ramdiskFind_path h, makePublicPath_eq hshort, normalizePath_slash, hnormal.normalizePath_eq]

lemma ramdiskFind_inArchive {p : CString} {file : RamdiskFile} (hsize : rd.Fits)
    (h : ramdiskFind kmem rd p = some file) (hdata : file.data ≠ 0) : InArchive rd file.data file.size := by
  refine (ramdiskFind_cases hsize h).resolve_left ?_
  rintro rfl
  exact hdata rfl

lemma ramdiskReadDir_congr {p q : CString}
    (h : normalizePath p ramdiskPathSize = normalizePath q ramdiskPathSize) (index : UInt64) :
    ramdiskReadDir kmem rd p index = ramdiskReadDir kmem rd q index := by
  rw [ramdiskReadDir, ramdiskReadDir, h]

lemma ramdiskReadDir_available {p : CString} {index : UInt64} {file : RamdiskFile}
    (h : ramdiskReadDir kmem rd p index = some file) : rd.ramdiskAvailable = true := by
  by_contra hno
  rw [ramdiskReadDir, if_neg hno] at h
  cases h

lemma ramdiskReadDir_some {p : CString} {index : UInt64} {file : RamdiskFile} (hsize : rd.Fits)
    (h : ramdiskReadDir kmem rd p index = some file) :
    ∃ e, (children kmem rd (normalizePath p ramdiskPathSize))[index.toNat]? = some e ∧
      childFile kmem rd (normalizePath p ramdiskPathSize) e = some file := by
  have hnormal := (normalPath_normalizePath p).normalizePath_eq
  have havailable := ramdiskReadDir_available h
  rw [← ramdiskReadDir_congr hnormal, ramdiskReadDir_eq hsize hnormal havailable] at h
  exact Option.bind_eq_some_iff.mp h

lemma ramdiskReadDir_inArchive {p : CString} {index : UInt64} {file : RamdiskFile} (hsize : rd.Fits)
    (h : ramdiskReadDir kmem rd p index = some file) (hdata : file.data ≠ 0) :
    InArchive rd file.data file.size := by
  obtain ⟨e, he, hfile⟩ := ramdiskReadDir_some hsize h
  have hin := inside_of_mem_entries hsize (Firsts.firsts_subset (List.mem_of_getElem? he))
  rw [childFile, Option.bind_eq_some_iff] at hfile
  obtain ⟨path, -, hfile⟩ := hfile
  obtain ⟨⟨name, nested⟩, -, rfl⟩ := Option.map_eq_some_iff.mp hfile
  cases nested with
  | true => exact absurd rfl hdata
  | false => exact hin.inArchive

/-- A directory has fewer children than there are words. -/
lemma ramdiskReadDir_index_lt {p : CString} {index : UInt64} {file : RamdiskFile} (hsize : rd.Fits)
    (h : ramdiskReadDir kmem rd p index = some file) : index.toNat < 2 ^ 64 - 1 := by
  obtain ⟨e, he, -⟩ := ramdiskReadDir_some hsize h
  have hlt := (List.getElem?_eq_some_iff.mp he).1
  have hfirsts : (children kmem rd (normalizePath p ramdiskPathSize)).length ≤ (entries kmem rd).length :=
    Firsts.length_firsts_le _ _ _
  have hentries : (entries kmem rd).length ≤ walkLimit rd := length_entriesFrom_le
  have hsize := rd.ramdiskSize.toNat_lt
  rw [walkLimit] at hentries
  omega

end Xbks
