import Mathlib.Data.List.DropRight
import Xbks.Fs.Ramdisk

/-!
# Paths

What `normalize_path` leaves of a path, and how the path of a directory and the name of a child are
put together and taken apart again.
-/

namespace Xbks

variable {path d c : CString}

/-! ### Normalised paths -/

/-- No leading slash or `.` component, no trailing slash, and short enough for a buffer. -/
structure NormalPath (path : CString) : Prop where
  leading : skipLeading path = path
  length : path.length ≤ 255
  trailing : path.getLast? ≠ some slash

lemma skipLeading_cons (a : UInt8) (rest : CString) : skipLeading (a :: rest) =
    if a = slash then skipLeading rest
    else if a = dot ∧ (rest.head? = some slash ∨ rest = []) then skipLeading rest
    else a :: rest := rfl

lemma length_skipLeading_le : ∀ path : CString, (skipLeading path).length ≤ path.length
  | [] => le_refl _
  | a :: rest => by
    have ih := length_skipLeading_le rest
    rw [skipLeading_cons, List.length_cons]
    split_ifs
    · omega
    · omega
    · rw [List.length_cons]

lemma skipLeading_idem : ∀ path : CString, skipLeading (skipLeading path) = skipLeading path
  | [] => rfl
  | a :: rest => by
    have ih := skipLeading_idem rest
    rw [skipLeading_cons]
    split_ifs with hslash hdot
    · exact ih
    · exact ih
    · rw [skipLeading_cons, if_neg hslash, if_neg hdot]

lemma skipLeading_eq_self_iff {a : UInt8} {rest : CString} : skipLeading (a :: rest) = a :: rest ↔
    a ≠ slash ∧ ¬(a = dot ∧ (rest.head? = some slash ∨ rest = [])) := by
  have hlen := length_skipLeading_le rest
  rw [skipLeading_cons]
  constructor
  · intro h
    split_ifs at h with hslash hdot
    · rw [h, List.length_cons] at hlen
      omega
    · rw [h, List.length_cons] at hlen
      omega
    · exact ⟨hslash, hdot⟩
  · rintro ⟨hslash, hdot⟩
    rw [if_neg hslash, if_neg hdot]

lemma normalizePath_eq (path : CString) : normalizePath path ramdiskPathSize =
    ((skipLeading path).take 255).rdropWhile (· = slash) := rfl

lemma NormalPath.normalizePath_eq (h : NormalPath path) : normalizePath path ramdiskPathSize = path := by
  rw [Xbks.normalizePath_eq, h.leading, List.take_of_length_le h.length, List.rdropWhile_eq_self_iff]
  intro hne hlast
  rw [decide_eq_true_eq] at hlast
  exact h.trailing (by rw [List.getLast?_eq_some_getLast hne, hlast])

lemma normalizePath_slash (path : CString) :
    normalizePath (slash :: path) ramdiskPathSize = normalizePath path ramdiskPathSize := by
  rw [normalizePath_eq, normalizePath_eq, skipLeading_cons, if_pos rfl]

/-- A normalised start survives when characters behind the second one and slashes at the end are
dropped: the second character of a path that starts with a dot decides. -/
lemma skipLeading_of_take {x y s : CString} {n : ℕ} (hx : skipLeading x = x) (hs : x.take (n + 2) = y ++ s)
    (hall : ∀ b ∈ s, b = slash) : skipLeading y = y := by
  match y, hs with
  | [], _ => rfl
  | a :: rest, hs =>
    match x, hx with
    | [], _ => simp at hs
    | b :: tail, hx =>
      obtain ⟨hslash, hdot⟩ := skipLeading_eq_self_iff.mp hx
      rw [List.take_succ_cons, List.cons_append, List.cons.injEq] at hs
      obtain ⟨rfl, hs⟩ := hs
      refine skipLeading_eq_self_iff.mpr ⟨hslash, fun ⟨ha, hrest⟩ => hdot ⟨ha, ?_⟩⟩
      match tail, rest, hs with
      | [], _, _ => exact .inr rfl
      | t :: ts, [], hs =>
        have ht : t ∈ s := by
          rw [← List.nil_append s, ← hs, List.take_succ_cons]
          exact List.mem_cons_self
        exact .inl (by rw [List.head?_cons, hall t ht])
      | t :: ts, r :: rs, hs =>
        rw [List.take_succ_cons, List.cons_append, List.cons.injEq] at hs
        rw [hs.1]
        refine hrest.imp id ?_
        rintro ⟨⟩

/-- What is left when the slashes at the end are dropped. -/
lemma rdropWhile_slash (x : CString) :
    (∃ s, x = x.rdropWhile (· = slash) ++ s ∧ ∀ b ∈ s, b = slash) ∧
      (x.rdropWhile (· = slash)).getLast? ≠ some slash := by
  constructor
  · exact ⟨x.rtakeWhile (· = slash), List.rdropWhile_append_rtakeWhile.symm,
      fun b hb => by simpa using List.mem_rtakeWhile_imp hb⟩
  · intro h
    have hlast := List.rdropWhile_last_not (· = slash) x
    generalize x.rdropWhile (· = slash) = y at *
    have hne : y ≠ [] := by
      rintro rfl
      simp at h
    rw [List.getLast?_eq_some_getLast hne, Option.some.injEq] at h
    exact hlast hne (decide_eq_true h)

lemma normalPath_normalizePath (path : CString) : NormalPath (normalizePath path ramdiskPathSize) := by
  rw [normalizePath_eq]
  obtain ⟨⟨s, hs, hall⟩, hlast⟩ := rdropWhile_slash ((skipLeading path).take 255)
  constructor
  · exact skipLeading_of_take (skipLeading_idem path) hs hall
  · have hlen := congrArg List.length hs
    rw [List.length_append, List.length_take] at hlen
    omega
  · exact hlast

/-! ### Children -/

/-- The path of the child `c` of the directory `d`. -/
def joinPath (d c : CString) : CString := if d = [] then c else d ++ slash :: c

lemma NormalPath.join (hd : NormalPath d) (hc : c ≠ []) (hslash : slash ∉ c)
    (hroot : d = [] → c ≠ [dot]) (hlen : (joinPath d c).length ≤ 254) : NormalPath (joinPath d c) := by
  have hlast : c.getLast? ≠ some slash := fun h => hslash (List.mem_of_getLast? h)
  rw [joinPath] at hlen ⊢
  split_ifs at hlen ⊢ with hnil
  · refine ⟨?_, by omega, hlast⟩
    match c, hc with
    | a :: rest, _ =>
      rw [List.mem_cons, not_or] at hslash
      refine skipLeading_eq_self_iff.mpr ⟨fun h => hslash.1 h.symm, ?_⟩
      rintro ⟨rfl, h | rfl⟩
      · exact hslash.2 (List.mem_of_head? h)
      · exact hroot hnil rfl
  · refine ⟨?_, by omega, ?_⟩
    · have hlead := hd.leading
      match d, hnil with
      | a :: rest, _ =>
        obtain ⟨ha, hdot⟩ := skipLeading_eq_self_iff.mp hlead
        rw [List.cons_append]
        refine skipLeading_eq_self_iff.mpr ⟨ha, fun ⟨hadot, h⟩ => hdot ⟨hadot, ?_⟩⟩
        match rest, h with
        | [], _ => exact .inr rfl
        | r :: rs, h =>
          refine h.imp id ?_
          rintro ⟨⟩
    · rw [List.getLast?_append_of_ne_nil _ (List.cons_ne_nil _ _), List.getLast?_cons]
      obtain ⟨l, hl⟩ := Option.ne_none_iff_exists'.mp (List.getLast?_eq_none_iff.not.mpr hc)
      rw [hl] at hlast ⊢
      exact hlast

/-- What is in front of the first slash is the whole path or followed by that slash. -/
lemma takeWhile_slash (r : CString) : slash ∉ r.takeWhile (· ≠ slash) ∧
    (r = r.takeWhile (· ≠ slash) ∨ r.takeWhile (· ≠ slash) ++ [slash] <+: r) := by
  refine ⟨fun h => by simpa using List.mem_takeWhile_imp h, ?_⟩
  induction r with
  | nil => exact .inl rfl
  | cons b rest ih =>
    by_cases hb : b = slash
    · right
      rw [List.takeWhile_cons_of_neg (by simpa using hb), hb]
      exact ⟨rest, rfl⟩
    · rw [List.takeWhile_cons_of_pos (by simpa using hb)]
      refine ih.imp (fun h => ?_) fun h => ?_
      · exact congrArg (b :: ·) h
      · exact List.cons_prefix_cons.mpr ⟨rfl, h⟩

lemma takeWhile_slash_iff {r : CString} : r.takeWhile (· ≠ slash) = c ↔
    slash ∉ c ∧ (r = c ∨ c ++ [slash] <+: r) := by
  constructor
  · rintro rfl
    exact takeWhile_slash r
  · rintro ⟨hslash, h⟩
    have hall : ∀ b ∈ c, decide (b ≠ slash) = true := by
      intro b hb
      refine decide_eq_true ?_
      rintro rfl
      exact hslash hb
    rcases h with rfl | ⟨rest, rfl⟩
    · exact List.takeWhile_eq_self_iff.mpr hall
    · rw [List.append_assoc, List.takeWhile_append_of_pos hall, List.singleton_append,
        List.takeWhile_cons_of_neg (by simp), List.append_nil]

/-- An entry lies in the child `c` of `d` when its path is that of the child or goes on below it. -/
lemma childNameForDirectory_iff (hlen : path.length ≤ 255) :
    (childNameForDirectory path d).map Prod.fst = some c ↔
      c ≠ [] ∧ slash ∉ c ∧ (path = joinPath d c ∨ joinPath d c ++ [slash] <+: path) := by
  -- the child of the part of the path that is relative to the directory
  have hchild : ∀ (r : CString) (nested : Bool), r.length ≤ 255 →
      (Option.map Prod.fst (if r.takeWhile (· ≠ slash) = [] then none
        else some (copyBytes ramdiskPathSize (r.takeWhile (· ≠ slash)), nested)) = some c ↔
      c ≠ [] ∧ slash ∉ c ∧ (r = c ∨ c ++ [slash] <+: r)) := by
    intro r nested hr
    have hcopy : copyBytes ramdiskPathSize (r.takeWhile (· ≠ slash)) = r.takeWhile (· ≠ slash) :=
      List.take_of_length_le ((List.takeWhile_prefix _).length_le.trans hr)
    rw [hcopy, ← takeWhile_slash_iff]
    split_ifs with hnil
    · simp only [Option.map_none, reduceCtorEq, false_iff, not_and]
      intro hne heq
      exact hne (heq ▸ hnil)
    · simp only [Option.map_some, Option.some.injEq]
      constructor
      · rintro rfl
        exact ⟨hnil, rfl⟩
      · exact fun h => h.2
  rw [childNameForDirectory, joinPath]
  by_cases hd : d = []
  · simp only [hd, if_true]
    exact hchild path _ hlen
  · simp only [hd, if_false]
    by_cases hpre : d ++ [slash] <+: path
    · rw [if_pos (List.isPrefixOf_iff_prefix.mpr hpre)]
      obtain ⟨r, rfl⟩ := hpre
      have hdrop : (d ++ [slash] ++ r).drop (d.length + 1) = r := by
        rw [show d.length + 1 = (d ++ [slash]).length by simp, List.drop_left]
      have hr : r.length ≤ 255 := by
        rw [List.length_append] at hlen
        omega
      simp only [hdrop]
      rw [hchild r _ hr, List.append_assoc, List.append_assoc, List.singleton_append,
        List.append_right_inj, List.cons.injEq, List.cons_append, List.prefix_append_right_inj,
        List.cons_prefix_cons]
      simp only [true_and]
    · have hnot : ¬(d ++ [slash]).isPrefixOf path = true := fun h =>
        hpre (List.isPrefixOf_iff_prefix.mp h)
      rw [if_neg hnot]
      simp only [Option.map_none, reduceCtorEq, false_iff, not_and]
      rintro - - (rfl | ⟨rest, rfl⟩)
      · exact hpre ⟨c, by simp⟩
      · exact hpre ⟨c ++ slash :: rest, by simp⟩

/-- The flag says whether the entry lies below the child. -/
lemma childNameForDirectory_nested {nested : Bool}
    (h : childNameForDirectory path d = some (c, nested)) (hlen : path.length ≤ 255) :
    if nested then joinPath d c ++ [slash] <+: path else path = joinPath d c := by
  -- the part of the path that is relative to the directory
  have hchild : ∀ r : CString, r.length ≤ 255 → (if r.takeWhile (· ≠ slash) = [] then none
      else some (copyBytes ramdiskPathSize (r.takeWhile (· ≠ slash)),
        decide (r[(r.takeWhile (· ≠ slash)).length]? = some slash))) = some (c, nested) →
      if nested then c ++ [slash] <+: r else r = c := by
    intro r hr h
    have hcopy : copyBytes ramdiskPathSize (r.takeWhile (· ≠ slash)) = r.takeWhile (· ≠ slash) :=
      List.take_of_length_le ((List.takeWhile_prefix _).length_le.trans hr)
    rw [hcopy] at h
    split_ifs at h
    obtain ⟨hc, hnested⟩ := Prod.mk.inj (Option.some.inj h)
    rcases (takeWhile_slash_iff.mp hc).2 with heq | ⟨rest, hrest⟩
    · have hend : r[(r.takeWhile (· ≠ slash)).length]? = none := by
        rw [hc, ← heq, List.getElem?_eq_none_iff]
      rw [hend] at hnested
      subst hnested
      exact heq
    · have hat : r[(r.takeWhile (· ≠ slash)).length]? = some slash := by
        rw [hc, ← hrest, List.append_assoc, List.getElem?_append_right (le_refl _), Nat.sub_self]
        rfl
      rw [hat] at hnested
      subst hnested
      exact ⟨rest, hrest⟩
  rw [childNameForDirectory] at h
  rw [joinPath]
  by_cases hd : d = []
  · simp only [hd, if_true] at h ⊢
    exact hchild path hlen h
  · simp only [hd, if_false] at h ⊢
    by_cases hpre : d ++ [slash] <+: path
    · rw [if_pos (List.isPrefixOf_iff_prefix.mpr hpre)] at h
      obtain ⟨r, rfl⟩ := hpre
      rw [show d.length + 1 = (d ++ [slash]).length by simp, List.drop_left] at h
      rw [List.length_append] at hlen
      have hr := hchild r (by omega) h
      cases nested with
      | true =>
        obtain ⟨rest, hrest⟩ := hr
        refine ⟨rest, ?_⟩
        rw [← hrest]
        simp
      | false =>
        rw [show r = c from hr]
        simp
    · rw [if_neg (fun h => hpre (List.isPrefixOf_iff_prefix.mp h))] at h
      cases h

/-- The buffers for the path of a child are long enough. -/
lemma childPath_eq (hlen : (joinPath d c).length ≤ 254) : childPath d c = joinPath d c := by
  have hsize : ramdiskPathSize = 256 := rfl
  rw [joinPath] at hlen ⊢
  rw [childPath]
  split_ifs at hlen ⊢ with hd
  · exact List.take_of_length_le (by omega)
  · rw [List.length_append, List.length_cons] at hlen
    have hstart : copyBytes ramdiskPathSize d = d := List.take_of_length_le (by omega)
    simp only [hstart]
    rw [if_pos (by omega)]
    have hrest : copyBytes (ramdiskPathSize - (d ++ [slash]).length) c = c := by
      refine List.take_of_length_le ?_
      rw [List.length_append, List.length_singleton]
      omega
    rw [hrest, List.append_assoc, List.singleton_append]

lemma makePublicPath_eq (hlen : path.length ≤ 254) :
    makePublicPath path ramdiskPathSize = slash :: path := by
  have hsize : ramdiskPathSize = 256 := rfl
  rw [makePublicPath]
  split_ifs with h
  · rw [h]
    rfl
  · rw [copyBytes, List.take_of_length_le (by omega)]

/-! ### The path of an entry -/

/-- What `tar_path` has put together before the name. -/
def combinedPrefix (headPrefix : CString) : CString :=
  if headPrefix ≠ [] then
    if (copyBytes ramdiskPathSize headPrefix).length + 1 < ramdiskPathSize then
      copyBytes ramdiskPathSize headPrefix ++ [slash]
    else copyBytes ramdiskPathSize headPrefix
  else []

/-- The path of an entry before it is normalised. -/
def combinedPath (headPrefix name : CString) : CString :=
  combinedPrefix headPrefix ++ copyBytes (ramdiskPathSize - (combinedPrefix headPrefix).length) name

lemma tarPath_eq (kmem : KernelMemory) (header : UInt64) : tarPath kmem header =
    if headerName kmem header = [] then none
    else if normalizePath (combinedPath (headerPrefix kmem header) (headerName kmem header))
      ramdiskPathSize = [] then none
    else some (normalizePath (combinedPath (headerPrefix kmem header) (headerName kmem header))
      ramdiskPathSize) := by
  unfold tarPath
  rfl

/-- The path of an entry is normalised, so that no slash at the end of the name is left. -/
lemma tarPath_normal {kmem : KernelMemory} {header : UInt64} (h : tarPath kmem header = some path) :
    NormalPath path ∧ path ≠ [] := by
  rw [tarPath_eq] at h
  split_ifs at h with hname hnil
  cases h
  exact ⟨normalPath_normalizePath _, hnil⟩

lemma headerIsDirectory_eq {kmem : KernelMemory} {header : UInt64} (h : NormalPath path) :
    headerIsDirectory kmem header path = decide (headerTypeflag kmem header = 53) := by
  rw [headerIsDirectory]
  simp only [h.trailing, or_false]

/-! ### Characters -/

lemma skipLeading_subset : ∀ path : CString, skipLeading path ⊆ path
  | [] => List.Subset.refl _
  | a :: rest => by
    have ih := skipLeading_subset rest
    rw [skipLeading_cons]
    split_ifs
    · exact List.subset_cons_of_subset a ih
    · exact List.subset_cons_of_subset a ih
    · exact List.Subset.refl _

lemma copyBytes_subset (capacity : ℕ) (src : CString) : copyBytes capacity src ⊆ src :=
  List.take_subset _ _

lemma normalizePath_subset (path : CString) (capacity : ℕ) : normalizePath path capacity ⊆ path := by
  intro a ha
  rw [normalizePath, List.mem_reverse] at ha
  have htake := (List.dropWhile_sublist _).subset ha
  rw [List.mem_reverse] at htake
  exact skipLeading_subset path (List.take_subset _ _ htake)

variable {kmem : KernelMemory} {rd : Ramdisk}

lemma notMem_boundedString (address : UInt64) (limit : ℕ) : 0 ∉ boundedString kmem address limit := by
  intro h
  simpa using List.mem_takeWhile_imp h

lemma mem_makePublicPath {a : UInt8} {capacity : ℕ} (h : a ∈ makePublicPath path capacity) :
    a = slash ∨ a ∈ path := by
  rw [makePublicPath] at h
  split_ifs at h
  · exact .inl (List.mem_singleton.mp (copyBytes_subset _ _ h))
  · exact (List.mem_cons.mp h).imp id fun ha => copyBytes_subset _ _ ha

lemma mem_childPath {a : UInt8} (h : a ∈ childPath d c) : a = slash ∨ a ∈ d ∨ a ∈ c := by
  rw [childPath] at h
  dsimp only at h
  split_ifs at h
  · exact .inr (.inr (copyBytes_subset _ _ h))
  · simp only [List.mem_append, List.mem_singleton] at h
    rcases h with (h | h) | h
    · exact .inr (.inl (copyBytes_subset _ _ h))
    · exact .inl h
    · exact .inr (.inr (copyBytes_subset _ _ h))
  · rw [List.mem_append] at h
    rcases h with h | h
    · exact .inr (.inl (copyBytes_subset _ _ h))
    · exact .inr (.inr (copyBytes_subset _ _ h))

lemma mem_combinedPath {a : UInt8} {headPrefix name : CString} (h : a ∈ combinedPath headPrefix name) :
    a = slash ∨ a ∈ headPrefix ∨ a ∈ name := by
  rw [combinedPath, List.mem_append] at h
  rcases h with h | h
  · rw [combinedPrefix] at h
    split_ifs at h
    · rw [List.mem_append, List.mem_singleton] at h
      exact h.elim (fun h => .inr (.inl (copyBytes_subset _ _ h))) .inl
    · exact .inr (.inl (copyBytes_subset _ _ h))
    · cases h
  · exact .inr (.inr (copyBytes_subset _ _ h))

/-- No path out of the archive has a NUL. -/
lemma notMem_tarPath {header : UInt64} (h : tarPath kmem header = some path) : 0 ∉ path := by
  rw [tarPath_eq] at h
  split_ifs at h
  cases h
  intro hzero
  rcases mem_combinedPath (normalizePath_subset _ _ hzero) with h | h | h
  · exact absurd h (by decide)
  · exact notMem_boundedString _ _ h
  · exact notMem_boundedString _ _ h

lemma childNameForDirectory_subset {nested : Bool} (h : childNameForDirectory path d = some (c, nested)) :
    c ⊆ path := by
  -- the part of the path that is relative to the directory
  have hchild : ∀ r ⊆ path, (if r.takeWhile (· ≠ slash) = [] then none
      else some (copyBytes ramdiskPathSize (r.takeWhile (· ≠ slash)),
        decide (r[(r.takeWhile (· ≠ slash)).length]? = some slash))) = some (c, nested) → c ⊆ path := by
    intro r hr h
    split_ifs at h
    cases h
    intro a ha
    exact hr ((List.takeWhile_sublist _).subset (copyBytes_subset _ _ ha))
  rw [childNameForDirectory] at h
  by_cases hd : d = []
  · simp only [hd, if_true] at h
    exact hchild path (List.Subset.refl _) h
  · simp only [hd, if_false] at h
    by_cases hpre : (d ++ [slash]).isPrefixOf path = true
    · simp only [hpre, if_true] at h
      exact hchild _ (List.drop_subset _ _) h
    · simp only [hpre] at h
      cases h

lemma notMem_ramdiskReadDir {index : UInt64} {file : RamdiskFile} (hpath : 0 ∉ path)
    (h : ramdiskReadDir kmem rd path index = some file) : 0 ∉ file.path := by
  rw [ramdiskReadDir] at h
  split_ifs at h
  obtain ⟨header, entryPath, childName, nested, hentry, hchild, hfile⟩ := readDirFrom_path h
  rw [hfile]
  intro hzero
  rcases mem_makePublicPath hzero with h | h
  · exact absurd h (by decide)
  · rcases mem_childPath h with h | h | h
    · exact absurd h (by decide)
    · exact hpath (normalizePath_subset _ _ h)
    · exact notMem_tarPath hentry (childNameForDirectory_subset hchild h)

end Xbks
