import Xbks.Fs.LongPath
import Xbks.Properties.Records

/-!
# Long paths are truncated

When the lookup of a full path that an entry has answers that entry, and a path that leads to it again.
-/

namespace Xbks

variable {kmem : KernelMemory} {rd : Ramdisk} {p q : CString} {e e' : TarEntry} {r : RamdiskFile}

/-- The entry is the first one with the full path. -/
def TarEntry.FirstWith (kmem : KernelMemory) (rd : Ramdisk) (q : CString) (e : TarEntry) : Prop :=
  (entries kmem rd).find? (fun e => e.fullPath kmem = some q) = some e

/-- The entries before the first one with the full path. -/
def entriesBefore (kmem : KernelMemory) (rd : Ramdisk) (q : CString) : List TarEntry :=
  (entries kmem rd).takeWhile fun e => !decide (e.fullPath kmem = some q)

/-- The file is that of the entry. -/
def TarEntry.IsFile (kmem : KernelMemory) (rd : Ramdisk) (e : TarEntry) (r : RamdiskFile) : Prop :=
  ∃ path, r = fillFile kmem e.header path (rd.ramdiskData + e.dataOffset) e.fileSize

/-- If the path is found, then as the first entry with it, and the path that is answered leads there
again. -/
def Unconfused (kmem : KernelMemory) (rd : Ramdisk) (q : CString) : Prop :=
  ∀ r, ramdiskFind kmem rd (slash :: q) = some r →
    ∃ e : TarEntry, e.FirstWith kmem rd q ∧ e.IsFile kmem rd r ∧
      ∃ r', ramdiskFind kmem rd r.path = some r' ∧ e.IsFile kmem rd r'

/-- The archive ends before the last address. -/
def Ramdisk.Placed (rd : Ramdisk) : Prop := rd.ramdiskData.toNat + rd.ramdiskSize.toNat < 2 ^ 64

/-! ### Files tell entries apart -/

lemma data_ne_zero (hsize : rd.Fits) (hplaced : rd.Placed) (he : e ∈ entries kmem rd) :
    rd.ramdiskData + e.dataOffset ≠ 0 := by
  intro hzero
  have hinside := inside_of_mem_entries hsize he
  have hdata := hinside.data
  have hoffset := hinside.dataOffset
  rw [Ramdisk.Placed] at hplaced
  have hnat := congrArg UInt64.toNat hzero
  rw [UInt64.toNat_add] at hnat
  change (rd.ramdiskData.toNat + e.dataOffset.toNat) % 2 ^ 64 = 0 at hnat
  omega

lemma eq_of_data (hsize : rd.Fits) (he : e ∈ entries kmem rd) (he' : e' ∈ entries kmem rd)
    (h : rd.ramdiskData + e.dataOffset = rd.ramdiskData + e'.dataOffset) : e = e' := by
  have hdata : e.dataOffset = e'.dataOffset := UInt64.add_right_inj _ |>.mp h
  have hoffset := (inside_of_mem_entries hsize he).dataOffset
  have hoffset' := (inside_of_mem_entries hsize he').dataOffset
  rw [hdata] at hoffset
  have hsorted := List.pairwise_iff_getElem.mp
    (@entriesFrom_sorted kmem rd 0 (walkLimit rd) hsize (Nat.zero_le _))
  obtain ⟨i, hi, rfl⟩ := List.mem_iff_getElem.mp he
  obtain ⟨j, hj, rfl⟩ := List.mem_iff_getElem.mp he'
  rcases Nat.lt_trichotomy i j with hij | rfl | hji
  · have hlt := UInt64.lt_iff_toNat_lt.mp (hsorted i j hi hj hij)
    exact absurd hlt (by change ¬(entries kmem rd)[i].offset.toNat < (entries kmem rd)[j].offset.toNat; omega)
  · rfl
  · have hlt := UInt64.lt_iff_toNat_lt.mp (hsorted j i hj hi hji)
    exact absurd hlt (by change ¬(entries kmem rd)[j].offset.toNat < (entries kmem rd)[i].offset.toNat; omega)

lemma TarEntry.FirstWith.mem (h : e.FirstWith kmem rd q) : e ∈ entries kmem rd := List.mem_of_find?_eq_some h

lemma TarEntry.FirstWith.fullPath_eq (h : e.FirstWith kmem rd q) : e.fullPath kmem = some q := by
  simpa using List.find?_some h

/-- An entry whose file is found is the first one with the path that was looked up. -/
lemma TarEntry.IsFile.firstAt (h : e.IsFile kmem rd r) (hsize : rd.Fits) (hplaced : rd.Placed)
    (havailable : rd.ramdiskAvailable = true) (he : e ∈ entries kmem rd)
    (hfind : ramdiskFind kmem rd p = some r) :
    e.FirstAt kmem rd (normalizePath p ramdiskPathSize) := by
  obtain ⟨path, rfl⟩ := h
  have hdata := data_ne_zero hsize hplaced he
  have hne : normalizePath p ramdiskPathSize ≠ [] := by
    intro hnil
    simp only [ramdiskFind, havailable, if_true, hnil] at hfind
    exact hdata (congrArg RamdiskFile.data (Option.some.inj hfind)).symm
  cases hfirst : (entries kmem rd).find? (fun e => tarPath kmem e.header =
      some (normalizePath p ramdiskPathSize)) with
  | none =>
    rw [ramdiskFind_none havailable rfl hne hfirst] at hfind
    split_ifs at hfind
    exact absurd (congrArg RamdiskFile.data (Option.some.inj hfind)).symm hdata
  | some e' =>
    rw [ramdiskFind_first havailable rfl hne hfirst, Option.some_inj] at hfind
    have heq : e' = e := eq_of_data hsize (List.mem_of_find?_eq_some hfirst) he
      (congrArg RamdiskFile.data hfind)
    rw [TarEntry.FirstAt, ← heq]
    exact hfirst

/-! ### What the lookup does -/

lemma length_normalizePath_take (t : CString) :
    (normalizePath (slash :: t.take 254) ramdiskPathSize).length ≤ 254 := by
  rw [normalizePath_slash, normalizePath_eq]
  have hdrop := (List.rdropWhile_prefix (· = slash) ((skipLeading (t.take 254)).take 255)).length_le
  have hskip := length_skipLeading_le (t.take 254)
  rw [List.length_take] at hdrop hskip
  omega

/-- The lookup fails, or the first entry with the full path is the first one with the path that is
looked for, which leaves room for the slash in front of it. -/
lemma unconfused_iff (hsize : rd.Fits) (hplaced : rd.Placed) (havailable : rd.ramdiskAvailable = true)
    {t : CString} (ht : normalizePath (slash :: q) ramdiskPathSize = t) (hne : t ≠ []) :
    Unconfused kmem rd q ↔ ramdiskFind kmem rd (slash :: q) = none ∨
      ∃ e : TarEntry, e.FirstWith kmem rd q ∧ e.FirstAt kmem rd t ∧ t.length ≤ 254 := by
  have hnormal : NormalPath t := ht ▸ normalPath_normalizePath _
  constructor
  · intro h
    cases hfind : ramdiskFind kmem rd (slash :: q) with
    | none => exact .inl rfl
    | some r =>
      obtain ⟨e, hfirst, hfile, r', hfind', hfile'⟩ := h r hfind
      have hat := hfile.firstAt hsize hplaced havailable hfirst.mem hfind
      have hat' := hfile'.firstAt hsize hplaced havailable hfirst.mem hfind'
      rw [ramdiskFind_path hfind, ht, makePublicPath, if_neg hne] at hat'
      rw [ht] at hat
      have heq := Option.some.inj (hat.tarPath_eq.symm.trans hat'.tarPath_eq)
      refine .inr ⟨e, hfirst, hat, ?_⟩
      rw [heq]
      exact length_normalizePath_take t
  · rintro (hnone | ⟨e, hfirst, hat, hlen⟩) r hfind
    · rw [hnone] at hfind
      cases hfind
    · rw [ramdiskFind_first havailable ht hne hat, Option.some_inj] at hfind
      subst hfind
      refine ⟨e, hfirst, ⟨t, rfl⟩, _, ?_, ⟨t, rfl⟩⟩
      refine ramdiskFind_first havailable ?_ hne hat
      change normalizePath (makePublicPath t ramdiskPathSize) ramdiskPathSize = t
      rw [makePublicPath_eq hlen, normalizePath_slash, hnormal.normalizePath_eq]

/-- The lookup fails if no entry has the path or lies below it. -/
lemma ramdiskFind_eq_none_iff (havailable : rd.ramdiskAvailable = true) {t : CString}
    (ht : normalizePath (slash :: q) ramdiskPathSize = t) (hne : t ≠ []) :
    ramdiskFind kmem rd (slash :: q) = none ↔
      ∀ e ∈ entries kmem rd, ∀ p, e.cutPath kmem = some p → p ≠ t ∧ ¬t ++ [slash] <+: p := by
  have hsome : ramdiskFind kmem rd (slash :: q) = none ↔ ∀ e ∈ entries kmem rd, e.under kmem t = false := by
    cases hfirst : (entries kmem rd).find? (fun e => tarPath kmem e.header = some t) with
    | some e =>
      rw [ramdiskFind_first havailable ht hne hfirst]
      have hpath : tarPath kmem e.header = some t := by simpa using List.find?_some hfirst
      have hunder : e.under kmem t = true := under_iff.mpr ⟨t, hpath, .inl rfl⟩
      constructor
      · intro h
        cases h
      · intro h
        rw [h e (List.mem_of_find?_eq_some hfirst)] at hunder
        cases hunder
    | none =>
      rw [ramdiskFind_none havailable ht hne hfirst]
      have hany := List.any_eq_false (p := TarEntry.under kmem t) (l := entries kmem rd)
      simp only [Bool.not_eq_true] at hany
      rw [← hany]
      cases (entries kmem rd).any (TarEntry.under kmem t) <;> simp
  rw [hsome]
  refine forall_congr' fun e => forall_congr' fun _ => ?_
  rw [← Bool.not_eq_true, under_iff]
  constructor
  · intro h p hcut
    have hno : p ≠ [] → ¬(p = t ∨ t ++ [slash] <+: p) := fun hp hunder =>
      h ⟨p, tarPath_eq_some_iff.mpr ⟨hcut, hp⟩, hunder⟩
    constructor
    · rintro rfl
      exact hno hne (.inl rfl)
    · intro hbelow
      refine hno ?_ (.inr hbelow)
      rintro rfl
      exact absurd (List.prefix_nil.mp hbelow) (by simp)
  · rintro h ⟨p, hpath, hunder⟩
    obtain ⟨hcut, -⟩ := tarPath_eq_some_iff.mp hpath
    obtain ⟨hdiff, hbelow⟩ := h p hcut
    exact hunder.elim hdiff hbelow

/-! ### When it is right -/

/-- The first entry with a path of at most 254 characters has lost none of them, and no entry before it
has lost a character and is left with this path. -/
structure KeptWhole (kmem : KernelMemory) (rd : Ramdisk) (q : CString) : Prop where
  length : q.length ≤ 254
  first : ∀ e : TarEntry, e.FirstWith kmem rd q → ¬e.Cut kmem
  before : ∀ e ∈ entriesBefore kmem rd q, e.Cut kmem → e.cutPath kmem ≠ some q

/-- The path has 256 characters, but a slash is the last that is kept, and no entry before the first one
is left with the same path. -/
structure KeptDirectory (kmem : KernelMemory) (rd : Ramdisk) (q : CString) : Prop where
  length : q.length = 256
  slash : q[254]? = some slash
  before : ∀ e ∈ entriesBefore kmem rd q, e.cutPath kmem ≠ some (wholePath (q.take 255))

/-- No entry is left with the path that is looked for, or with one below it. -/
def Lost (kmem : KernelMemory) (rd : Ramdisk) (q : CString) : Prop :=
  ∀ e ∈ entries kmem rd, ∀ p, e.cutPath kmem = some p →
    p ≠ wholePath (q.take 255) ∧ ¬wholePath (q.take 255) ++ [slash] <+: p

lemma fullPath_of_before (he : e ∈ entriesBefore kmem rd q) : e.fullPath kmem ≠ some q := by
  simpa using List.mem_takeWhile_imp he

/-- The first entry with the full path is the first one with the path that is looked for. -/
lemma firstAt_iff (hfirst : e.FirstWith kmem rd q) {t : CString} (hne : t ≠ []) : e.FirstAt kmem rd t ↔
    e.cutPath kmem = some t ∧ ∀ e' ∈ entriesBefore kmem rd q, e'.cutPath kmem ≠ some t := by
  rw [TarEntry.FirstAt, Firsts.find?_eq_some_of_first hfirst]
  simp only [decide_eq_true_eq, decide_eq_false_iff_not, tarPath_eq_some_iff, hne, ne_eq, not_false_iff,
    and_true]
  rfl

lemma keptWhole_iff (hfirst : e.FirstWith kmem rd q) (hne : q ≠ []) :
    KeptWhole kmem rd q ↔ e.FirstAt kmem rd q ∧ q.length ≤ 254 := by
  rw [firstAt_iff hfirst hne]
  constructor
  · rintro ⟨hlen, hkept, hbefore⟩
    refine ⟨⟨?_, ?_⟩, hlen⟩
    · rw [cutPath_of_not_cut (hkept e hfirst)]
      exact hfirst.fullPath_eq
    · intro e' he'
      by_cases hcut : e'.Cut kmem
      · exact hbefore e' he' hcut
      · rw [cutPath_of_not_cut hcut]
        exact fullPath_of_before he'
  · rintro ⟨⟨hkept, hbefore⟩, hlen⟩
    constructor
    · exact hlen
    · intro e' hfirst' hcut
      obtain rfl : e' = e := Option.some.inj (hfirst'.symm.trans hfirst)
      exact absurd (hcut.length_lt hfirst'.fullPath_eq hne hkept) (Nat.lt_irrefl _)
    · intro e' he' _
      exact hbefore e' he'

lemma keptDirectory_iff (hfirst : e.FirstWith kmem rd q) (hne : q ≠ []) (hlen : q.length = 256) :
    KeptDirectory kmem rd q ↔
      e.FirstAt kmem rd (wholePath (q.take 255)) ∧ (wholePath (q.take 255)).length ≤ 254 := by
  obtain ⟨hwhole, -⟩ := fullPath_whole hfirst.fullPath_eq
  rw [firstAt_iff hfirst (wholePath_ne_nil hwhole hne), length_wholePath_take hwhole hlen]
  constructor
  · rintro ⟨-, hslash, hbefore⟩
    exact ⟨⟨cutPath_of_length hfirst.fullPath_eq hlen, hbefore⟩, hslash⟩
  · rintro ⟨⟨-, hbefore⟩, hslash⟩
    exact ⟨hlen, hslash, hbefore⟩

/-- The first entry with the full path is what is found exactly when the path is kept. -/
lemma kept_iff (hfirst : e.FirstWith kmem rd q) (hne : q ≠ []) :
    KeptWhole kmem rd q ∨ KeptDirectory kmem rd q ↔
      e.FirstAt kmem rd (wholePath (q.take 255)) ∧ (wholePath (q.take 255)).length ≤ 254 := by
  obtain ⟨hwhole, hlen⟩ := fullPath_whole hfirst.fullPath_eq
  by_cases hlong : q.length = 256
  · rw [← keptDirectory_iff hfirst hne hlong, or_iff_right]
    intro hkept
    have hshort := hkept.length
    omega
  · rw [wholePath_of_length_le hwhole (by omega), ← keptWhole_iff hfirst hne, or_iff_left]
    exact fun hkept => hlong hkept.length

/-- The root is found as a directory without data. -/
lemma not_unconfused_nil (hsize : rd.Fits) (hplaced : rd.Placed)
    (havailable : rd.ramdiskAvailable = true) : ¬Unconfused kmem rd [] := by
  intro h
  have hroot : ramdiskFind kmem rd [slash] = some (implicitDirectory []) := by
    simp only [ramdiskFind, havailable, if_true]
    rfl
  obtain ⟨e, hfirst, hfile, -⟩ := h _ hroot
  exact absurd rfl (hfile.firstAt hsize hplaced havailable hfirst.mem hroot |>.tarPath_eq |>
    tarPath_normal |>.2)

/-- The entry with a full path is found, and found again, exactly when the path and the paths before it
are kept, or when nothing is found. -/
theorem ramdiskFind_long_iff (hsize : rd.Fits) (hplaced : rd.Placed)
    (havailable : rd.ramdiskAvailable = true) (hq : ∃ e ∈ entries kmem rd, e.fullPath kmem = some q) :
    Unconfused kmem rd q ↔
      q ≠ [] ∧ (KeptWhole kmem rd q ∨ KeptDirectory kmem rd q ∨ Lost kmem rd q) := by
  obtain ⟨e, hfirst⟩ : ∃ e : TarEntry, e.FirstWith kmem rd q := by
    obtain ⟨e', he', hpath⟩ := hq
    exact Option.isSome_iff_exists.mp (List.find?_isSome.mpr ⟨e', he', decide_eq_true hpath⟩)
  by_cases hne : q = []
  · subst hne
    exact iff_of_false (not_unconfused_nil hsize hplaced havailable) fun h => h.1 rfl
  · obtain ⟨hwhole, -⟩ := fullPath_whole hfirst.fullPath_eq
    have ht := normalizePath_query hwhole
    have htne := wholePath_ne_nil hwhole hne
    have hunique : (∃ e : TarEntry, e.FirstWith kmem rd q ∧ e.FirstAt kmem rd (wholePath (q.take 255)) ∧
        (wholePath (q.take 255)).length ≤ 254) ↔
          e.FirstAt kmem rd (wholePath (q.take 255)) ∧ (wholePath (q.take 255)).length ≤ 254 := by
      constructor
      · rintro ⟨e', hfirst', h⟩
        obtain rfl : e' = e := Option.some.inj (hfirst'.symm.trans hfirst)
        exact h
      · intro h
        exact ⟨e, hfirst, h⟩
    rw [unconfused_iff hsize hplaced havailable ht htne, hunique, ← kept_iff hfirst hne,
      ramdiskFind_eq_none_iff havailable ht htne, or_comm, or_assoc]
    exact (and_iff_right hne).symm

/-- Kernel memory with the headers of two empty files at 0x1000. Their paths have 256 characters, and
only the last one tells them apart. -/
def longMemory : KernelMemory := fun a =>
  let i := (a.toNat - 0x1000) % 512
  if i < 99 then 98
  else if i = 99 then if a < 0x1200 then 99 else 100
  else if 124 ≤ i ∧ i < 135 ∨ i = 156 then 48
  else if 345 ≤ i ∧ i < 500 then 97
  else 0

def longRamdisk : Ramdisk := ⟨0x1000, 0x400, true⟩

def longPath (last : UInt8) : CString :=
  List.replicate 155 97 ++ slash :: (List.replicate 99 98 ++ [last])

/-- Kernel memory with two empty files whose paths are as long as they can be: one of 254 characters, and one of
256 whose last but one is a slash. -/
def limitMemory : KernelMemory := fun a =>
  let i := (a.toNat - 0x1000) % 512
  if a < 0x1200 ∧ (i = 98 ∨ i = 99) then 0
  else if 0x1200 ≤ a ∧ i < 98 then 100
  else if 0x1200 ≤ a ∧ i = 98 then slash
  else longMemory a

def limitPath : CString := List.replicate 155 97 ++ slash :: List.replicate 98 98

def limitDirectory : CString := List.replicate 155 97 ++ slash :: (List.replicate 98 100 ++ [slash, 100])

/-- Both files are found with their own data. -/
theorem long_small :
    (Unconfused limitMemory longRamdisk limitPath ∧ limitPath.length = 254 ∧
      (ramdiskFind limitMemory longRamdisk (slash :: limitPath)).map RamdiskFile.data = some 0x1200) ∧
    Unconfused limitMemory longRamdisk limitDirectory ∧ limitDirectory.length = 256 ∧
      (ramdiskFind limitMemory longRamdisk (slash :: limitDirectory)).map RamdiskFile.data = some 0x1400 := by
  have hsize : longRamdisk.Fits := show longRamdisk.ramdiskSize.toNat < 2 ^ 64 - 1024 by decide
  have hplaced : longRamdisk.Placed :=
    show longRamdisk.ramdiskData.toNat + longRamdisk.ramdiskSize.toNat < 2 ^ 64 by decide
  have hentry : ∃ e ∈ entries limitMemory longRamdisk, e.fullPath limitMemory = some limitPath := by
    decide +kernel
  have hentry' : ∃ e ∈ entries limitMemory longRamdisk, e.fullPath limitMemory = some limitDirectory := by
    decide +kernel
  have hbefore : ∀ e ∈ entriesBefore limitMemory longRamdisk limitPath, False := by decide +kernel
  have hfirst : ∀ e ∈ entries limitMemory longRamdisk, e.fullPath limitMemory = some limitPath →
      (storedPath limitMemory e.header).length ≠ 256 := by decide +kernel
  have hbefore' : ∀ e ∈ entriesBefore limitMemory longRamdisk limitDirectory,
      e.cutPath limitMemory ≠ some (wholePath (limitDirectory.take 255)) := by decide +kernel
  refine ⟨⟨?_, by decide +kernel, by decide +kernel⟩, ?_, by decide +kernel, by decide +kernel⟩
  · refine (ramdiskFind_long_iff hsize hplaced rfl hentry).mpr ⟨by decide, .inl ⟨by decide +kernel, ?_, ?_⟩⟩
    · intro e he hcut
      exact hfirst e he.mem he.fullPath_eq hcut.1
    · intro e he
      exact absurd (hbefore e he) id
  · exact (ramdiskFind_long_iff hsize hplaced rfl hentry').mpr
      ⟨by decide, .inr (.inl ⟨by decide +kernel, by decide +kernel, hbefore'⟩)⟩

/-- The path of the second file finds the first one, and the path that is answered finds nothing. -/
theorem long_confused :
    (∃ e ∈ entries longMemory longRamdisk, e.fullPath longMemory = some (longPath 100)) ∧
    (∃ r, ramdiskFind longMemory longRamdisk (slash :: longPath 100) = some r ∧ r.data = 0x1200 ∧
      ramdiskFind longMemory longRamdisk r.path = none) ∧
    ¬Unconfused longMemory longRamdisk (longPath 100) := by
  have hfind : (ramdiskFind longMemory longRamdisk (slash :: longPath 100)).map RamdiskFile.data =
      some 0x1200 := by decide +kernel
  have hagain : ((ramdiskFind longMemory longRamdisk (slash :: longPath 100)).bind fun r =>
      ramdiskFind longMemory longRamdisk r.path).isNone = true := by decide +kernel
  obtain ⟨r, hr, hdata⟩ := Option.map_eq_some_iff.mp hfind
  rw [hr, Option.bind_some, Option.isNone_iff_eq_none] at hagain
  refine ⟨by decide +kernel, ⟨r, hr, hdata, hagain⟩, ?_⟩
  intro h
  obtain ⟨e, -, -, r', hr', -⟩ := h r hr
  rw [hagain] at hr'
  cases hr'

end Xbks
