import Xbks.Fs.Ustar

/-!
# Tar archives, written and read

Looking up the path of an entry in a ustar archive gives back what the entry was made from.
-/

namespace Xbks

variable {kmem : KernelMemory} {rd : Ramdisk} {es : List UstarEntry} {e : UstarEntry}

lemma length_le_walkLimit (h : rd.ramdiskSize.toNat = (ustarArchive es).length) :
    es.length ≤ walkLimit rd := by
  have hlen : ∀ es : List UstarEntry, 512 * es.length ≤ (es.flatMap UstarEntry.blocks).length := by
    intro es
    induction es with
    | nil => simp
    | cons e es ih =>
      have := e.length_blocks
      rw [List.flatMap_cons, List.length_append, List.length_cons]
      omega
  have := hlen es
  rw [ustarArchive, List.length_append] at h
  rw [walkLimit]
  omega

lemma executable_eq {mode : ℕ} (h : mode < 8 ^ 8) :
    decide (UInt64.ofNat mode &&& 0o111 ≠ 0) = decide (mode &&& 0o111 ≠ 0) := by
  have hmode : (UInt64.ofNat mode &&& 0o111).toNat = mode &&& 0o111 := by
    rw [UInt64.toNat_and, Word.toNat_ofNat_of_lt (by omega)]
    rfl
  rw [decide_eq_decide, ← hmode, not_iff_not, ← UInt64.toNat_inj]
  rfl

/-- Looking up an entry by its path, or by its path as it is stored, with any number of slashes
around it. -/
theorem ustar_round_trip (hdistinct : (es.map fun e => e.path).Nodup) (havailable : rd.ramdiskAvailable = true)
    (hsize : rd.ramdiskSize.toNat = (ustarArchive es).length)
    (hstores : Stores kmem rd.ramdiskData (ustarArchive es)) (he : e ∈ es) {q : CString}
    (hq : q = e.path ∨ q = e.stored) (m n : ℕ) :
    ∃ file, ramdiskFind kmem rd (List.replicate m slash ++ (q ++ List.replicate n slash)) = some file ∧
      file.path = slash :: e.path ∧
      file.size.toNat = e.content.length ∧ bytesAt kmem file.data e.content.length = e.content ∧
      file.directory = e.directory ∧ file.executable = decide (e.mode &&& 0o111 ≠ 0) := by
  have hnorm : normalizePath (List.replicate m slash ++ (q ++ List.replicate n slash))
      ramdiskPathSize = e.path := by
    obtain rfl | rfl := hq
    · exact e.normal.normalizePath_around e.nonempty (.inl rfl) m n
    · obtain ⟨k, hk⟩ := e.trail_eq
      rw [UstarEntry.stored, hk, List.append_assoc, List.replicate_append_replicate]
      exact e.normal.normalizePath_around e.nonempty e.lead_cases m (k + n)
  have hlen : e.path.length ≤ 254 := by
    have := e.length_le
    rw [List.length_append, List.length_append] at this
    omega
  have hmode : e.mode < 8 ^ 8 :=
    lt_of_lt_of_le e.mode_lt (Nat.pow_le_pow_right (by norm_num) (Nat.sub_le _ _))
  obtain ⟨t, hfind, hfound⟩ := find?_ustarArchive 0 hdistinct (by rwa [add_zero])
    (by rw [hsize, UInt64.toNat_zero, Nat.zero_add]) (length_le_walkLimit hsize) he
  have hheader : findHeader kmem rd e.path =
      .inl (fillFile kmem t.header e.path (rd.ramdiskData + t.dataOffset) t.fileSize) := by
    rw [findHeader, findHeaderFrom_eq e.nonempty, hfind]
  refine ⟨_, by rw [ramdiskFind, if_pos havailable, hnorm, if_neg e.nonempty, hheader], ?_, ?_, ?_, ?_, ?_⟩
  · exact makePublicPath_eq hlen
  · exact hfound.size
  · exact hfound.content
  · have htrailing := e.normal.trailing
    rw [fillFile, headerIsDirectory, hfound.header.typeflag]
    cases e.directory with
    | true => rfl
    | false => simp [htrailing]
  · rw [fillFile, hfound.header.mode]
    exact executable_eq hmode

/-- The directory `bin`, stored as `./bin/`. -/
def binDirectory : UstarEntry where
  path := cstr "bin"
  mode := 0o755
  directory := true
  content := []
  nonempty := by decide
  normal := ⟨by decide, by decide, by decide⟩
  text := by decide
  empty := fun _ => rfl
  lead := cstr "./"
  trail := cstr "/"
  front := []
  name := cstr "./bin/"
  modeTail := [32, 0]
  owner := List.replicate 16 48
  sizeTail := [32]
  stamp := List.replicate 20 48
  link := List.replicate 188 0
  padding := List.replicate 12 0

/-- The file `bin/xsh`, with `bin` in the prefix field. -/
def xshFile : UstarEntry where
  path := cstr "bin/xsh"
  mode := 0o644
  directory := false
  content := cstr "echo"
  nonempty := by decide
  normal := ⟨by decide, by decide, by decide⟩
  text := by decide
  empty := by decide
  lead := []
  trail := []
  front := cstr "bin"
  name := cstr "xsh"
  modeTail := [0]
  owner := List.replicate 16 48
  sizeTail := [0]
  stamp := List.replicate 20 48
  link := List.replicate 188 0
  padding := List.replicate 12 0

/-- The file is found behind the directory. -/
theorem ustar_round_trip_small :
    ∃ kmem : KernelMemory, ∃ rd : Ramdisk, ∃ file, ramdiskFind kmem rd (cstr "//bin/xsh/") = some file ∧
      file.path = cstr "/bin/xsh" ∧ bytesAt kmem file.data 4 = cstr "echo" := by
  have hlen : (ustarArchive [binDirectory, xshFile]).length = 2560 := by decide +kernel
  have hsize : (⟨0x1000, 2560, true⟩ : Ramdisk).ramdiskSize.toNat =
      (ustarArchive [binDirectory, xshFile]).length := hlen.symm
  have hmem : xshFile ∈ [binDirectory, xshFile] := List.mem_cons_of_mem _ List.mem_cons_self
  obtain ⟨file, hfile, hpath, -, hcontent, -⟩ := ustar_round_trip (by decide) rfl hsize
    (stores_getD (by omega)) hmem (.inl rfl) 2 1
  exact ⟨_, _, file, hfile, hpath, hcontent⟩

end Xbks
