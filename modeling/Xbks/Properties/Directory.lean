import Xbks.Fs.Archive
import Xbks.Fs.Path
import Xbks.Process.Boot

/-!
# Directory listing and lookup

The two ways to ask the ramdisk what is in a directory agree, whatever the archive contains.
-/

namespace Xbks

variable {kmem : KernelMemory} {rd : Ramdisk} {d c : CString} {e : TarEntry}

/-- The paths of all entries fit into their buffers when a slash is put in front. -/
def PathsFit (kmem : KernelMemory) (rd : Ramdisk) : Prop :=
  ∀ e ∈ entries kmem rd, ∀ path, tarPath kmem e.header = some path → path.length ≤ 254

lemma pathsFit_iff : PathsFit kmem rd ↔
    ∀ e ∈ entries kmem rd, ((tarPath kmem e.header).all fun path => path.length ≤ 254) = true := by
  refine forall_congr' fun e => forall_congr' fun _ => ?_
  cases tarPath kmem e.header <;> simp

lemma lastComponent_join (hslash : slash ∉ c) : lastComponent (slash :: joinPath d c) = c := by
  have hsplit : ∃ front, slash :: joinPath d c = front ++ slash :: c := by
    rw [joinPath]
    split_ifs
    · exact ⟨[], rfl⟩
    · exact ⟨slash :: d, rfl⟩
  obtain ⟨front, hfront⟩ := hsplit
  have hall : ∀ b ∈ c.reverse, decide (b ≠ slash) = true := by
    intro b hb
    refine decide_eq_true ?_
    rintro rfl
    exact hslash (List.mem_reverse.mp hb)
  rw [hfront, lastComponent, List.reverse_append, List.reverse_cons, List.append_assoc,
    List.takeWhile_append_of_pos hall, List.singleton_append,
    List.takeWhile_cons_of_neg (by simp), List.append_nil, List.reverse_reverse]

/-- The entries of a child are those under its path. -/
lemma TarEntry.child_iff (hfit : PathsFit kmem rd) (he : e ∈ entries kmem rd) :
    e.child kmem d = some c ↔ c ≠ [] ∧ slash ∉ c ∧ e.under kmem (joinPath d c) = true := by
  rw [under_iff, TarEntry.child]
  cases hpath : tarPath kmem e.header with
  | none => simp
  | some path =>
    have hlen := hfit e he path hpath
    rw [Option.bind_some, childNameForDirectory_iff (by omega)]
    simp

/-- What is listed at an entry is named after its child. -/
lemma childFile_name (hfit : PathsFit kmem rd) (he : e ∈ entries kmem rd) :
    (childFile kmem rd d e).map (fun file => lastComponent file.path) = e.child kmem d := by
  cases hchild : e.child kmem d with
  | none =>
    rw [TarEntry.child, Option.map_eq_none_iff] at hchild
    rw [childFile, Option.map_eq_none_iff]
    cases hpath : tarPath kmem e.header with
    | none => rfl
    | some path =>
      rw [hpath, Option.bind_some] at hchild
      rw [Option.bind_some, hchild]
      rfl
  | some c =>
    obtain ⟨-, hslash, hunder⟩ := (TarEntry.child_iff hfit he).mp hchild
    obtain ⟨path, hpath, hbelow⟩ := under_iff.mp hunder
    have hlen : (joinPath d c).length ≤ 254 := by
      have hpathlen := hfit e he path hpath
      rcases hbelow with rfl | hfront
      · exact hpathlen
      · have := hfront.length_le
        rw [List.length_append] at this
        omega
    rw [TarEntry.child, hpath, Option.bind_some, Option.map_eq_some_iff] at hchild
    obtain ⟨⟨name, nested⟩, hname, rfl⟩ := hchild
    rw [childFile, hpath, Option.bind_some, hname, Option.map_some, Option.map_some,
      childPath_eq hlen, makePublicPath_eq hlen, lastComponent_join hslash]

/-- Listing agrees with lookup: `xbks_ramdisk_read_dir` answers the names of a list, in order, without
repetition; a name is in the list exactly when `xbks_ramdisk_find` finds it in the directory; and the
names are in the order in which the archive mentions them first. -/
theorem listing_agrees (hsize : rd.Fits) (hfit : PathsFit kmem rd)
    (hd : normalizePath d ramdiskPathSize = d) : ∃ names : List CString,
    (∀ i : UInt64, (ramdiskReadDir kmem rd d i).map (fun file => lastComponent file.path) =
      names[i.toNat]?) ∧
    names.length < 2 ^ 64 ∧ names.Nodup ∧
    (∀ c, c ≠ [] → slash ∉ c → (d = [] → c ≠ [dot]) → (joinPath d c).length ≤ 254 →
      (c ∈ names ↔ (ramdiskFind kmem rd (joinPath d c)).isSome = true)) ∧
    names.Pairwise fun c c' =>
      (entries kmem rd).findIdx (TarEntry.under kmem (joinPath d c)) <
        (entries kmem rd).findIdx (TarEntry.under kmem (joinPath d c')) := by
  have hnormal : NormalPath d := hd ▸ normalPath_normalizePath d
  cases havailable : rd.ramdiskAvailable with
  | false =>
    refine ⟨[], fun i => ?_, by simp, List.nodup_nil, fun c _ _ _ _ => ?_, .nil⟩
    · simp [ramdiskReadDir, havailable]
    · simp [ramdiskFind, havailable]
  | true =>
    have hkeys : ∀ c, c ∈ (children kmem rd d).filterMap (TarEntry.child kmem d) ↔
        ∃ e ∈ entries kmem rd, e.child kmem d = some c := by
      intro c
      rw [children, Firsts.mem_keys, List.mem_filterMap]
      simp
    refine ⟨(children kmem rd d).filterMap (TarEntry.child kmem d), fun i => ?_, ?_,
      Firsts.keys_nodup, fun c hc hslash hroot hlen => ?_, ?_⟩
    · rw [ramdiskReadDir_eq hsize hd havailable, children, Firsts.getElem?_keys]
      cases hi : (Firsts.firsts (TarEntry.child kmem d) [] (entries kmem rd))[i.toNat]? with
      | none => rfl
      | some e =>
        exact childFile_name hfit (Firsts.firsts_subset (List.mem_of_getElem? hi))
    · have h₁ := List.length_filterMap_le (TarEntry.child kmem d) (children kmem rd d)
      have h₂ := Firsts.length_firsts_le (TarEntry.child kmem d) [] (entries kmem rd)
      have h₃ : (entries kmem rd).length ≤ walkLimit rd := length_entriesFrom_le
      have h₄ := rd.ramdiskSize.toNat_lt
      rw [walkLimit] at h₃
      rw [children] at h₁ ⊢
      omega
    · have hne : joinPath d c ≠ [] := by
        rw [joinPath]
        split_ifs
        · exact hc
        · simp
      rw [hkeys, ramdiskFind_isSome (hnormal.join hc hslash hroot hlen).normalizePath_eq hne,
        havailable, Bool.true_and, List.any_eq_true]
      refine exists_congr fun e => and_congr_right fun he => ?_
      rw [TarEntry.child_iff hfit he]
      exact ⟨fun h => h.2.2, fun h => ⟨hc, hslash, h⟩⟩
    · have hordered := Firsts.keys_ordered (TarEntry.child kmem d) [] (entries kmem rd)
      rw [List.nil_append] at hordered
      refine hordered.imp_of_mem fun {c c'} hc hc' hlt => ?_
      have hidx : ∀ c ∈ (children kmem rd d).filterMap (TarEntry.child kmem d),
          (entries kmem rd).findIdx (TarEntry.under kmem (joinPath d c)) =
            (entries kmem rd).findIdx (fun e => e.child kmem d = some c) := by
        intro c hc
        obtain ⟨e, he, hchild⟩ := (hkeys c).mp hc
        obtain ⟨hne, hslash, -⟩ := (TarEntry.child_iff hfit he).mp hchild
        refine le_antisymm ?_ ?_
        · refine List.findIdx_le_findIdx fun e he h => ?_
          exact ((TarEntry.child_iff hfit he).mp (of_decide_eq_true h)).2.2
        · refine List.findIdx_le_findIdx fun e he h => decide_eq_true ?_
          exact (TarEntry.child_iff hfit he).mpr ⟨hne, hslash, h⟩
      rw [hidx c hc, hidx c' hc']
      exact hlt

/-- The directory `bin` of a small archive. -/
theorem listing_agrees_small : ∃ names : List CString, cstr "xsh" ∈ names ∧ names.Nodup := by
  have hfit : PathsFit (smallBoot 0x10000).kmem (smallBoot 0x10000).ramdisk :=
    pathsFit_iff.mpr (by decide +kernel)
  obtain ⟨names, -, -, hnodup, hmem, -⟩ := listing_agrees (d := cstr "bin")
    (show (smallBoot 0x10000).ramdisk.ramdiskSize.toNat < 2 ^ 64 - 1024 by decide +kernel) hfit
    (by decide +kernel)
  refine ⟨names, (hmem (cstr "xsh") ?_ ?_ ?_ ?_).mpr ?_, hnodup⟩
  all_goals decide +kernel

end Xbks
