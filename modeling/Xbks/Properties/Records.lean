import Xbks.Properties.Answers
import Xbks.Properties.Directory

/-!
# Records of the archive

The record that a listing gives for a file and the one that a lookup of its path gives, and which
entries of the archive are taken for directories.
-/

namespace Xbks

variable {kmem : KernelMemory} {rd : Ramdisk} {d p path c : CString} {e : TarEntry} {i : UInt64}
  {r file : RamdiskFile}

/-! ### Listing and lookup -/

/-- Nothing lies below an entry that is not a directory. -/
def FilesAreLeaves (kmem : KernelMemory) (rd : Ramdisk) : Prop :=
  ∀ e ∈ entries kmem rd, ∀ e' ∈ entries kmem rd, ∀ path path', tarPath kmem e.header = some path →
    tarPath kmem e'.header = some path' → headerTypeflag kmem e.header ≠ 53 →
    ¬path ++ [slash] <+: path'

lemma filesAreLeaves_iff : FilesAreLeaves kmem rd ↔
    ∀ e ∈ entries kmem rd, ∀ e' ∈ entries kmem rd, headerTypeflag kmem e.header ≠ 53 →
      ((tarPath kmem e.header).all fun path => (tarPath kmem e'.header).all fun path' =>
        !(path ++ [slash]).isPrefixOf path') = true := by
  refine forall_congr' fun e => forall_congr' fun _ => forall_congr' fun e' => forall_congr' fun _ => ?_
  cases tarPath kmem e.header with
  | none => simp
  | some path => cases tarPath kmem e'.header <;> simp [← List.isPrefixOf_iff_prefix]

/-- Two records of one file. What a directory holds as data does not matter. -/
structure SameFile (file r : RamdiskFile) : Prop where
  path : file.path = r.path
  directory : file.directory = r.directory
  contents : r.directory = false →
    file.data = r.data ∧ file.size = r.size ∧ file.executable = r.executable

/-- What an entry is listed as: the child that it is, or a directory that it lies below. -/
inductive ListedAs (kmem : KernelMemory) (rd : Ramdisk) (d : CString) (e : TarEntry) (c : CString)
    (r : RamdiskFile) : Prop
  | itself (hpath : tarPath kmem e.header = some (joinPath d c))
      (hdirectory : r.directory = decide (headerTypeflag kmem e.header = 53))
      (hdata : r.data = rd.ramdiskData + e.dataOffset) (hsize : r.size = e.fileSize)
      (hexecutable : r.directory = false →
        r.executable = decide (parseOctal (headerMode kmem e.header) &&& 0o111 ≠ 0))
  | above {path : CString} (hpath : tarPath kmem e.header = some path)
      (hbelow : joinPath d c ++ [slash] <+: path) (hdirectory : r.directory = true)

lemma childFile_listed (h : childFile kmem rd d e = some r) : ∃ c, e.child kmem d = some c ∧
    r.path = makePublicPath (childPath d c) ramdiskPathSize ∧ ListedAs kmem rd d e c r := by
  rw [childFile, Option.bind_eq_some_iff] at h
  obtain ⟨path, hpath, h⟩ := h
  obtain ⟨⟨c, nested⟩, hchild, rfl⟩ := Option.map_eq_some_iff.mp h
  have hnormal := (tarPath_normal hpath).1
  have hnested := childNameForDirectory_nested hchild hnormal.length
  refine ⟨c, by rw [TarEntry.child, hpath, Option.bind_some, hchild, Option.map_some], rfl, ?_⟩
  cases nested with
  | true => exact .above hpath hnested rfl
  | false =>
    obtain rfl : path = joinPath d c := hnested
    have hdirectory : headerIsDirectory kmem e.header (joinPath d c) =
        decide (headerTypeflag kmem e.header = 53) := headerIsDirectory_eq hnormal
    refine .itself hpath ?_ rfl rfl ?_
    · rw [← hdirectory]
      rfl
    · intro hfile
      replace hfile : headerIsDirectory kmem e.header (joinPath d c) = false := hfile
      simp only [hfile, Bool.false_or, Bool.not_false, Bool.true_and]

/-- The path of a child is normalised, and short where those of the entries are. -/
lemma ListedAs.normal (hfit : PathsFit kmem rd) (hd : NormalPath d) (he : e ∈ entries kmem rd)
    (hchild : e.child kmem d = some c) (h : ListedAs kmem rd d e c r) :
    NormalPath (joinPath d c) ∧ joinPath d c ≠ [] ∧ (joinPath d c).length ≤ 254 := by
  obtain ⟨hc, hslash, -⟩ := (TarEntry.child_iff hfit he).mp hchild
  cases h with
  | itself hpath =>
    obtain ⟨hnormal, hne⟩ := tarPath_normal hpath
    exact ⟨hnormal, hne, hfit e he _ hpath⟩
  | @above path hpath hbelow =>
    obtain ⟨hnormal, -⟩ := tarPath_normal hpath
    have hlen : (joinPath d c).length ≤ 254 := by
      have hle := hbelow.length_le
      have hpathlen := hfit e he path hpath
      rw [List.length_append] at hle
      omega
    refine ⟨hd.join hc hslash ?_ hlen, ?_, hlen⟩
    · rintro rfl rfl
      obtain ⟨rest, rfl⟩ := hbelow
      exact (skipLeading_eq_self_iff.mp hnormal.leading).2 ⟨rfl, .inl rfl⟩
    · rw [joinPath]
      split_ifs
      · exact hc
      · simp

/-- The first entry that lies in a child is also the first one with its path. -/
lemma first_of_child {front back : List TarEntry} (hentries : entries kmem rd = front ++ e :: back)
    (hchild : e.child kmem d = some c) (hfirst : c ∉ front.filterMap (TarEntry.child kmem d))
    (hpath : tarPath kmem e.header = some (joinPath d c)) :
    (entries kmem rd).find? (fun e => tarPath kmem e.header = some (joinPath d c)) = some e := by
  have hnone : front.find? (fun e => tarPath kmem e.header = some (joinPath d c)) = none := by
    refine List.find?_eq_none.mpr fun e' he' hsame => hfirst ?_
    refine List.mem_filterMap.mpr ⟨e', he', ?_⟩
    rw [TarEntry.child, of_decide_eq_true hsame, ← hpath]
    exact hchild
  rw [hentries, List.find?_append, hnone, Option.none_or]
  exact List.find?_cons_of_pos (decide_eq_true hpath)

/-- Whatever a listing gives is found under its path, as the same file. -/
theorem listed_found (hsize : rd.Fits) (hfit : PathsFit kmem rd) (hleaves : FilesAreLeaves kmem rd)
    (h : ramdiskReadDir kmem rd d i = some r) :
    ∃ file, ramdiskFind kmem rd r.path = some file ∧ SameFile file r := by
  have havailable : rd.ramdiskAvailable = true := ramdiskReadDir_available h
  obtain ⟨e, hat, hfile⟩ := ramdiskReadDir_some hsize h
  have hd := normalPath_normalizePath d
  generalize normalizePath d ramdiskPathSize = d at hat hfile hd
  obtain ⟨front, back, c, hentries, hchild, hfirst⟩ := Firsts.firsts_split (List.mem_of_getElem? hat)
  have he : e ∈ entries kmem rd := by
    rw [hentries]
    exact List.mem_append_right front List.mem_cons_self
  obtain ⟨c', hchild', hrpath, hlisted⟩ := childFile_listed hfile
  obtain rfl : c = c' := Option.some.inj (hchild.symm.trans hchild')
  obtain ⟨hnormal, hne, hlen⟩ := hlisted.normal hfit hd he hchild
  rw [childPath_eq hlen] at hrpath
  have hquery : normalizePath r.path ramdiskPathSize = joinPath d c := by
    rw [hrpath, makePublicPath_eq hlen, normalizePath_slash, hnormal.normalizePath_eq]
  have hdirectory : ∀ header, headerIsDirectory kmem header (joinPath d c) =
      decide (headerTypeflag kmem header = 53) := fun _ => headerIsDirectory_eq hnormal
  cases hlisted with
  | itself hpath hrdirectory hdata hfilesize hexecutable =>
    refine ⟨_, ramdiskFind_first havailable hquery hne (first_of_child hentries hchild hfirst hpath), ?_⟩
    exact ⟨hrpath.symm, (hdirectory _).trans hrdirectory.symm,
      fun hno => ⟨hdata.symm, hfilesize.symm, (hexecutable hno).symm⟩⟩
  | @above path hpath hbelow hrdirectory =>
    have hno : r.directory ≠ false := by rw [hrdirectory]; exact Bool.noConfusion
    cases hfind : (entries kmem rd).find? fun e => tarPath kmem e.header = some (joinPath d c) with
    | some e' =>
      refine ⟨_, ramdiskFind_first havailable hquery hne hfind, ?_⟩
      have hmem := List.mem_of_find?_eq_some hfind
      have hpath' : tarPath kmem e'.header = some (joinPath d c) := by simpa using List.find?_some hfind
      have htype : headerTypeflag kmem e'.header = 53 := by
        by_contra htype
        exact hleaves e' hmem e he _ path hpath' hpath htype hbelow
      refine ⟨hrpath.symm, ?_, fun h => absurd h hno⟩
      rw [hrdirectory]
      exact (hdirectory _).trans (decide_eq_true htype)
    | none =>
      have hunder : e.under kmem (joinPath d c) = true := under_iff.mpr ⟨path, hpath, .inr hbelow⟩
      refine ⟨_, ramdiskFind_below havailable hquery hne hfind he hunder, ?_⟩
      exact ⟨hrpath.symm, hrdirectory.symm, fun h => absurd h hno⟩

/-- The file in the directory `bin` of a small archive. -/
theorem listed_found_small : ∃ file,
    ramdiskFind (smallBoot 0x10000).kmem (smallBoot 0x10000).ramdisk (cstr "/bin/xsh") = some file ∧
    SameFile file smallFile := by
  have hfit : PathsFit (smallBoot 0x10000).kmem (smallBoot 0x10000).ramdisk :=
    pathsFit_iff.mpr (by decide +kernel)
  have hleaves : FilesAreLeaves (smallBoot 0x10000).kmem (smallBoot 0x10000).ramdisk :=
    filesAreLeaves_iff.mpr (by decide +kernel)
  have hread : ramdiskReadDir (smallBoot 0x10000).kmem (smallBoot 0x10000).ramdisk (cstr "./bin//") 0 =
      some smallFile := by decide +kernel
  exact listed_found
    (show (smallBoot 0x10000).ramdisk.ramdiskSize.toNat < 2 ^ 64 - 1024 by decide +kernel) hfit hleaves
    hread

/-! ### Entries of directories -/

/-- The type of the entry or the slash at the end of its name says that it is a directory. -/
def TarEntry.SaysDirectory (kmem : KernelMemory) (e : TarEntry) : Prop :=
  headerTypeflag kmem e.header = 53 ∨ (headerName kmem e.header).getLast? = some slash

/-- The entry is the first one with its path. -/
def TarEntry.FirstAt (kmem : KernelMemory) (rd : Ramdisk) (path : CString) (e : TarEntry) : Prop :=
  (entries kmem rd).find? (fun e => tarPath kmem e.header = some path) = some e

/-- Lookup, listing and `open` take the entry for a directory. -/
structure Recognised (kmem : KernelMemory) (rd : Ramdisk) (e : TarEntry) : Prop where
  found : ∀ path p, e.FirstAt kmem rd path → normalizePath p ramdiskPathSize = path →
    ∃ file, ramdiskFind kmem rd p = some file ∧ file.directory = true
  listed : ∀ d (i : UInt64) r,
    (children kmem rd (normalizePath d ramdiskPathSize))[i.toNat]? = some e →
    ramdiskReadDir kmem rd d i = some r → r.directory = true
  opened : ∀ path p (k : Kernel) address r k', e.FirstAt kmem rd path →
    normalizePath p ramdiskPathSize = path → k.kmem = kmem → k.ramdisk = rd → PathAt k address p →
    syscallOpen address k = (.ok r, k') →
    IsErrno r ∨ ∃ i : Fin 16, r = UInt64.ofNat i ∧ (k'.current.fds i).type = .dir

lemma TarEntry.FirstAt.tarPath_eq (h : e.FirstAt kmem rd path) : tarPath kmem e.header = some path := by
  simpa using List.find?_some h

/-- What is found at the path of the first entry that has it. -/
lemma TarEntry.FirstAt.found (h : e.FirstAt kmem rd path) (havailable : rd.ramdiskAvailable = true)
    (hp : normalizePath p ramdiskPathSize = path) : ∃ file, ramdiskFind kmem rd p = some file ∧
      file.directory = decide (headerTypeflag kmem e.header = 53) := by
  obtain ⟨hnormal, hne⟩ := tarPath_normal h.tarPath_eq
  exact ⟨_, ramdiskFind_first havailable hp hne h, headerIsDirectory_eq hnormal⟩

/-- A directory is opened as one. -/
lemma syscallOpen_directory {k k' : Kernel} {address r : UInt64} (hat : PathAt k address p)
    (hfile : ramdiskFind k.kmem k.ramdisk p = some file) (hdirectory : file.directory = true)
    (h : syscallOpen address k = (.ok r, k')) :
    IsErrno r ∨ ∃ i : Fin 16, r = UInt64.ofNat i ∧ (k'.current.fds i).type = .dir := by
  have hends := syscallOpen_ends address k
  rw [h] at hends
  generalize hr : ((.ok r : Except Stop UInt64), k') = res at hends
  cases hends with
  | @refused error k'' hsame =>
    obtain ⟨hok, -⟩ := Prod.mk.inj hr
    rw [Except.ok.inj hok]
    exact .inl (isErrno_negativeErrno error)
  | @opened i p' file' k₁ hi hpath hfile' hreads =>
    obtain ⟨hok, rfl⟩ := Prod.mk.inj hr
    obtain rfl : p = p' := hat.holds.unique hpath
    obtain rfl : file = file' := Option.some.inj (hfile.symm.trans hfile')
    refine .inr ⟨i, Except.ok.inj hok, ?_⟩
    rw [setFd_fds, RamdiskFile.opened, hdirectory]
    rfl
  | faults => cases hr

/-- The slash at the end of a name is gone when the entry is asked for it, so that its type alone
decides. -/
lemma Recognised.typeflag (h : Recognised kmem rd e) (havailable : rd.ramdiskAvailable = true)
    (hfirst : e.FirstAt kmem rd path) : headerTypeflag kmem e.header = 53 := by
  have hnormal := (tarPath_normal hfirst.tarPath_eq).1.normalizePath_eq
  obtain ⟨file, hfile, hdirectory⟩ := h.found path path hfirst hnormal
  obtain ⟨file', hfile', htype⟩ := hfirst.found havailable hnormal
  obtain rfl : file = file' := Option.some.inj (hfile.symm.trans hfile')
  rw [hdirectory] at htype
  exact of_decide_eq_true htype.symm

/-- The type is enough, and nothing is asked of an entry that is hidden by one before it. -/
lemma Recognised.of_typeflag (hsize : rd.Fits) (havailable : rd.ramdiskAvailable = true)
    (h : ∀ path, e.FirstAt kmem rd path → headerTypeflag kmem e.header = 53) :
    Recognised kmem rd e := by
  have hfound : ∀ path p, e.FirstAt kmem rd path → normalizePath p ramdiskPathSize = path →
      ∃ file, ramdiskFind kmem rd p = some file ∧ file.directory = true := by
    intro path p hfirst hp
    obtain ⟨file, hfile, hdirectory⟩ := hfirst.found havailable hp
    exact ⟨file, hfile, hdirectory.trans (decide_eq_true (h path hfirst))⟩
  constructor
  · exact hfound
  · intro d i r hat hread
    obtain ⟨e', hat', hfile⟩ := ramdiskReadDir_some hsize hread
    obtain rfl : e = e' := Option.some.inj (hat.symm.trans hat')
    obtain ⟨front, back, c, hentries, hchild, hfirst⟩ :=
      Firsts.firsts_split (List.mem_of_getElem? hat)
    obtain ⟨c', hchild', -, hlisted⟩ := childFile_listed hfile
    obtain rfl : c = c' := Option.some.inj (hchild.symm.trans hchild')
    cases hlisted with
    | itself hpath hdirectory =>
      have htype := h _ (first_of_child hentries hchild hfirst hpath)
      exact hdirectory.trans (decide_eq_true htype)
    | above _ _ hdirectory => exact hdirectory
  · intro path p k address r k' hfirst hp hkmem hramdisk hat hopen
    obtain ⟨file, hfile, hdirectory⟩ := hfound path p hfirst hp
    rw [← hkmem, ← hramdisk] at hfile
    exact syscallOpen_directory hat hfile hdirectory hopen

/-- A directory entry is recognised exactly when its type says what it is, or when it is hidden by an
entry with the same path before it. -/
theorem recognised_iff (hsize : rd.Fits) (havailable : rd.ramdiskAvailable = true) :
    (e.SaysDirectory kmem → Recognised kmem rd e) ↔
      headerTypeflag kmem e.header = 53 ∨ (headerName kmem e.header).getLast? ≠ some slash ∨
      ¬∃ path, e.FirstAt kmem rd path := by
  constructor
  · intro h
    by_cases hslash : (headerName kmem e.header).getLast? = some slash
    · by_cases hfirst : ∃ path, e.FirstAt kmem rd path
      · obtain ⟨path, hfirst⟩ := hfirst
        exact .inl ((h (.inr hslash)).typeflag havailable hfirst)
      · exact .inr (.inr hfirst)
    · exact .inr (.inl hslash)
  · intro h hsays
    refine .of_typeflag hsize havailable ?_
    intro path hfirst
    rcases h with htype | hslash | hnone
    · exact htype
    · exact hsays.resolve_right hslash
    · exact absurd ⟨path, hfirst⟩ hnone

/-- Kernel memory with the header of an entry `bin/` of the given type at 0x1000. -/
def directoryMemory (typeflag : String) : KernelMemory := fun a =>
  (textField 100 "bin/" ++ textField 24 "0000755" ++ textField 12 "00000000000" ++
    List.replicate 20 0 ++ textField 1 typeflag ++ List.replicate 355 0).getD (a.toNat - 0x1000) 0

def directoryRamdisk : Ramdisk := ⟨0x1000, 0x200, true⟩

def directoryEntry : TarEntry := ⟨0, 0x1000, 0x200, 0⟩

/-- A directory with the type of a directory. -/
theorem recognised_small : Recognised (directoryMemory "5") directoryRamdisk directoryEntry := by
  have htype : headerTypeflag (directoryMemory "5") directoryEntry.header = 53 := by decide +kernel
  have hsize : directoryRamdisk.Fits :=
    show directoryRamdisk.ramdiskSize.toNat < 2 ^ 64 - 1024 by decide
  exact (recognised_iff hsize rfl).mpr (.inl htype) (.inl htype)

/-- A directory by its name alone, with the type of a file, is taken for a file. -/
theorem slash_not_recognised :
    directoryEntry.FirstAt (directoryMemory "0") directoryRamdisk (cstr "bin") ∧
    (headerName (directoryMemory "0") directoryEntry.header).getLast? = some slash ∧
    ramdiskFind (directoryMemory "0") directoryRamdisk (cstr "/bin/") =
      some ⟨cstr "/bin", 0x1200, 0, false, true⟩ ∧
    ¬Recognised (directoryMemory "0") directoryRamdisk directoryEntry := by
  have hentry : entryAt (directoryMemory "0") directoryRamdisk 0 = some (0x1000, 0x200, 0) := by
    decide +kernel
  have hfirst : directoryEntry.FirstAt (directoryMemory "0") directoryRamdisk (cstr "bin") := by
    rw [TarEntry.FirstAt, entries, show walkLimit directoryRamdisk = 1 + 1 from rfl,
      entriesFrom_some hentry]
    exact List.find?_cons_of_pos (by decide +kernel)
  refine ⟨hfirst, by decide +kernel, by decide +kernel, ?_⟩
  intro h
  exact absurd (h.typeflag rfl hfirst) (by decide +kernel)

end Xbks
