import Xbks.Fs.Archive

/-!
# Long paths

A ustar header stores up to 256 characters of a path, the buffers of `tar_path` and `find_header` keep
255 of them. The whole path of an entry is compared with what is left of it.
-/

namespace Xbks

variable {kmem : KernelMemory} {rd : Ramdisk} {path q : CString} {e : TarEntry}

/-- The path without the characters that normalisation drops, however long it is. -/
def wholePath (path : CString) : CString := (skipLeading path).rdropWhile (· = slash)

/-- The prefix of a header, a slash and the name. -/
def storedPath (kmem : KernelMemory) (header : UInt64) : CString :=
  if headerPrefix kmem header = [] then headerName kmem header
  else headerPrefix kmem header ++ slash :: headerName kmem header

/-- The full path of an entry. -/
def TarEntry.fullPath (kmem : KernelMemory) (e : TarEntry) : Option CString :=
  if headerName kmem e.header = [] then none else some (wholePath (storedPath kmem e.header))

/-- The path that the first 255 stored characters give. -/
def TarEntry.cutPath (kmem : KernelMemory) (e : TarEntry) : Option CString :=
  if headerName kmem e.header = [] then none
  else some (wholePath ((storedPath kmem e.header).take 255))

/-- The last of 256 stored characters belongs to the path. -/
def TarEntry.Cut (kmem : KernelMemory) (e : TarEntry) : Prop :=
  (storedPath kmem e.header).length = 256 ∧ (storedPath kmem e.header).getLast? ≠ some slash

/-! ### Whole paths -/

/-- A path that normalisation leaves as it is. -/
structure WholePath (path : CString) : Prop where
  leading : skipLeading path = path
  trailing : path.getLast? ≠ some slash

lemma wholePath_wholePath (path : CString) : WholePath (wholePath path) := by
  obtain ⟨⟨s, hs, hall⟩, hlast⟩ := rdropWhile_slash (skipLeading path)
  constructor
  · refine skipLeading_of_take (n := (skipLeading path).length) (skipLeading_idem path) ?_ hall
    rw [List.take_of_length_le (Nat.le_add_right _ 2)]
    exact hs
  · exact hlast

lemma rdropWhile_eq_self (h : path.getLast? ≠ some slash) : path.rdropWhile (· = slash) = path := by
  rw [List.rdropWhile_eq_self_iff]
  intro hne hlast
  rw [decide_eq_true_eq] at hlast
  exact h (by rw [List.getLast?_eq_some_getLast hne, hlast])

lemma skipLeading_suffix : ∀ path : CString, skipLeading path <:+ path
  | [] => List.suffix_rfl
  | a :: rest => by
    have ih := skipLeading_suffix rest
    rw [skipLeading_cons]
    split_ifs
    · exact ih.trans (List.suffix_cons a rest)
    · exact ih.trans (List.suffix_cons a rest)
    · exact List.suffix_rfl

lemma length_wholePath_le (path : CString) : (wholePath path).length ≤ (skipLeading path).length :=
  (List.rdropWhile_prefix _ _).length_le

/-- A path that normalisation does not shorten is left as it is. -/
lemma eq_of_length_wholePath (path : CString) (h : (wholePath path).length = path.length) :
    wholePath path = path := by
  have hle := length_wholePath_le path
  have hle' := length_skipLeading_le path
  have hskip : skipLeading path = path := (skipLeading_suffix path).eq_of_length (by omega)
  have hdrop : wholePath path <+: skipLeading path := List.rdropWhile_prefix _ _
  rw [hdrop.eq_of_length (by omega), hskip]

lemma skipLeading_concat_slash : ∀ path : CString,
    skipLeading (path ++ [slash]) = if skipLeading path = [] then [] else skipLeading path ++ [slash]
  | [] => rfl
  | a :: rest => by
    have ih := skipLeading_concat_slash rest
    have hhead : (rest ++ [slash]).head? = some slash ∨ rest ++ [slash] = [] ↔
        rest.head? = some slash ∨ rest = [] := by
      cases rest <;> simp
    rw [List.cons_append, skipLeading_cons, skipLeading_cons]
    by_cases hslash : a = slash
    · rw [if_pos hslash, if_pos hslash]
      exact ih
    · rw [if_neg hslash, if_neg hslash]
      by_cases hdot : a = dot ∧ (rest.head? = some slash ∨ rest = [])
      · rw [if_pos hdot, if_pos ⟨hdot.1, hhead.mpr hdot.2⟩]
        exact ih
      · rw [if_neg hdot, if_neg fun h => hdot ⟨h.1, hhead.mp h.2⟩, if_neg (List.cons_ne_nil a rest)]
        rfl

/-- A slash at the end is dropped. -/
lemma wholePath_concat_slash (path : CString) : wholePath (path ++ [slash]) = wholePath path := by
  rw [wholePath, wholePath, skipLeading_concat_slash]
  split_ifs with h
  · rw [h]
  · exact List.rdropWhile_concat_pos _ _ _ (decide_eq_true rfl)

/-- Any other character at the end stays there, if anything does. -/
lemma skipLeading_concat {c : UInt8} (hc : c ≠ slash) : ∀ path : CString,
    skipLeading (path ++ [c]) = [] ∨
      ∃ s, skipLeading (path ++ [c]) = s ++ [c] ∧ (skipLeading path).length ≤ s.length
  | [] => by
    rw [List.nil_append, skipLeading_cons, if_neg hc]
    split_ifs
    · exact .inl rfl
    · exact .inr ⟨[], rfl, le_rfl⟩
  | a :: rest => by
    have ih := skipLeading_concat hc rest
    rw [List.cons_append, skipLeading_cons, skipLeading_cons]
    by_cases hslash : a = slash
    · rw [if_pos hslash, if_pos hslash]
      exact ih
    · rw [if_neg hslash, if_neg hslash]
      by_cases hhead : a = dot ∧ ((rest ++ [c]).head? = some slash ∨ rest ++ [c] = [])
      · have hrest : rest.head? = some slash := by
          obtain _ | ⟨r, rest⟩ := rest
          · simp [hc] at hhead
          · simpa using hhead.2
        rw [if_pos hhead, if_pos ⟨hhead.1, .inl hrest⟩]
        exact ih
      · rw [if_neg hhead]
        refine .inr ⟨a :: rest, rfl, ?_⟩
        have hle := length_skipLeading_le rest
        split_ifs
        · rw [List.length_cons]
          omega
        · exact le_rfl

/-- Without a last character that belongs to it, a path gets shorter. -/
lemma length_wholePath_concat {c : UInt8} (hc : c ≠ slash) (hne : wholePath (path ++ [c]) ≠ []) :
    (wholePath path).length < (wholePath (path ++ [c])).length := by
  rcases skipLeading_concat hc path with hnil | ⟨s, hs, hle⟩
  · rw [wholePath, hnil] at hne
    exact absurd rfl hne
  · have hkept : wholePath (path ++ [c]) = s ++ [c] := by
      rw [wholePath, hs]
      exact rdropWhile_eq_self (by simpa using hc)
    have hshort := length_wholePath_le path
    rw [hkept, List.length_append, List.length_singleton]
    omega

/-! ### The path of an entry -/

lemma length_boundedString_le (address : UInt64) (limit : ℕ) :
    (boundedString kmem address limit).length ≤ limit := by
  have hle := (List.takeWhile_sublist (· ≠ 0) (l := bytesAt kmem address limit)).length_le
  rw [length_bytesAt] at hle
  exact hle

lemma length_storedPath_le (kmem : KernelMemory) (header : UInt64) : (storedPath kmem header).length ≤ 256 := by
  have hname : (headerName kmem header).length ≤ 100 := length_boundedString_le _ _
  have hlead : (headerPrefix kmem header).length ≤ 155 := length_boundedString_le _ _
  rw [storedPath]
  split_ifs
  · omega
  · rw [List.length_append, List.length_cons]
    omega

/-- The buffer of `tar_path` keeps the first 255 stored characters. -/
lemma combinedPath_eq (header : UInt64) :
    combinedPath (headerPrefix kmem header) (headerName kmem header) = (storedPath kmem header).take 255 := by
  have hlead : (headerPrefix kmem header).length ≤ 155 := length_boundedString_le _ _
  rw [combinedPath, combinedPrefix, storedPath]
  by_cases hnil : headerPrefix kmem header = []
  · rw [if_neg (not_not_intro hnil), if_pos hnil]
    rfl
  · have hcopy : copyBytes ramdiskPathSize (headerPrefix kmem header) = headerPrefix kmem header :=
      List.take_of_length_le (by change _ ≤ 255; omega)
    have hstart : (headerPrefix kmem header ++ [slash]).take 255 = headerPrefix kmem header ++ [slash] := by
      apply List.take_of_length_le
      rw [List.length_append, List.length_singleton]
      omega
    have hroom : ramdiskPathSize - (headerPrefix kmem header ++ [slash]).length - 1 =
        255 - (headerPrefix kmem header ++ [slash]).length := Nat.sub_right_comm _ _ _
    rw [if_pos hnil, if_neg hnil, hcopy, if_pos (by change _ < 256; omega),
      List.append_cons (headerPrefix kmem header) slash (headerName kmem header), List.take_append, hstart, copyBytes,
      hroom]

lemma normalizePath_take (path : CString) :
    normalizePath (path.take 255) ramdiskPathSize = wholePath (path.take 255) := by
  have hskip := length_skipLeading_le (path.take 255)
  rw [List.length_take] at hskip
  rw [normalizePath_eq, List.take_of_length_le (by omega), wholePath]

/-- What `tar_path` answers. -/
lemma tarPath_eq_some_iff {p : CString} :
    tarPath kmem e.header = some p ↔ e.cutPath kmem = some p ∧ p ≠ [] := by
  rw [tarPath_eq, TarEntry.cutPath, combinedPath_eq, normalizePath_take]
  by_cases hname : headerName kmem e.header = []
  · rw [if_pos hname, if_pos hname]
    simp
  · rw [if_neg hname, if_neg hname]
    by_cases hnil : wholePath ((storedPath kmem e.header).take 255) = []
    · rw [if_pos hnil, hnil]
      simp [eq_comm]
    · rw [if_neg hnil]
      simp only [Option.some_inj]
      exact ⟨fun h => ⟨h, h ▸ hnil⟩, fun h => h.1⟩

lemma fullPath_eq_some (h : e.fullPath kmem = some q) :
    headerName kmem e.header ≠ [] ∧ q = wholePath (storedPath kmem e.header) := by
  rw [TarEntry.fullPath] at h
  split_ifs at h with hname
  exact ⟨hname, (Option.some.inj h).symm⟩

lemma fullPath_whole (h : e.fullPath kmem = some q) : WholePath q ∧ q.length ≤ 256 := by
  obtain ⟨-, rfl⟩ := fullPath_eq_some h
  refine ⟨wholePath_wholePath _, ?_⟩
  have hle := length_wholePath_le (storedPath kmem e.header)
  have hskip := length_skipLeading_le (storedPath kmem e.header)
  have hstored := length_storedPath_le kmem e.header
  omega

/-- If the last stored character does not matter, the whole path is kept. -/
lemma cutPath_of_not_cut (h : ¬e.Cut kmem) : e.cutPath kmem = e.fullPath kmem := by
  have hkept : wholePath ((storedPath kmem e.header).take 255) = wholePath (storedPath kmem e.header) := by
    have hle := length_storedPath_le kmem e.header
    by_cases hlen : (storedPath kmem e.header).length = 256
    · rw [TarEntry.Cut, not_and, not_not] at h
      obtain ⟨front, hfront⟩ := List.getLast?_eq_some_iff.mp (h hlen)
      rw [hfront, List.length_append, List.length_singleton] at hlen
      rw [hfront, List.take_left' (by omega), wholePath_concat_slash]
    · rw [List.take_of_length_le (by omega)]
  rw [TarEntry.cutPath, TarEntry.fullPath, hkept]

/-- Otherwise less is kept. -/
lemma TarEntry.Cut.length_lt (h : e.Cut kmem) (hfull : e.fullPath kmem = some q) (hne : q ≠ []) {p : CString}
    (hcut : e.cutPath kmem = some p) : p.length < q.length := by
  obtain ⟨hname, rfl⟩ := fullPath_eq_some hfull
  rw [TarEntry.cutPath, if_neg hname, Option.some_inj] at hcut
  subst hcut
  obtain ⟨hlen, hlast⟩ := h
  rcases List.eq_nil_or_concat (storedPath kmem e.header) with hnil | ⟨front, c, hfront⟩
  · rw [hnil] at hlen
    cases hlen
  · rw [List.concat_eq_append] at hfront
    rw [hfront, List.length_append, List.length_singleton] at hlen
    rw [hfront, List.getLast?_concat, ne_eq, Option.some_inj] at hlast
    rw [hfront] at hne ⊢
    rw [List.take_left' (by omega)]
    exact length_wholePath_concat hlast hne

/-- A path of 256 characters is stored as it is. -/
lemma cutPath_of_length (h : e.fullPath kmem = some q) (hlen : q.length = 256) :
    e.cutPath kmem = some (wholePath (q.take 255)) := by
  obtain ⟨hname, rfl⟩ := fullPath_eq_some h
  have hstored := length_storedPath_le kmem e.header
  have hle := length_wholePath_le (storedPath kmem e.header)
  have hskip := length_skipLeading_le (storedPath kmem e.header)
  rw [eq_of_length_wholePath (storedPath kmem e.header) (by omega), TarEntry.cutPath, if_neg hname]

/-! ### The path that is looked up -/

lemma skipLeading_take (h : WholePath q) : skipLeading (q.take 255) = q.take 255 :=
  skipLeading_of_take (n := 253) (s := []) h.leading (List.append_nil _).symm nofun

/-- The path that `xbks_ramdisk_find` looks for. -/
lemma normalizePath_query (h : WholePath q) :
    normalizePath (slash :: q) ramdiskPathSize = wholePath (q.take 255) := by
  rw [normalizePath_slash, normalizePath_eq, h.leading, wholePath, skipLeading_take h]

lemma wholePath_of_length_le (h : WholePath q) (hlen : q.length ≤ 255) : wholePath (q.take 255) = q := by
  rw [List.take_of_length_le hlen, wholePath, h.leading]
  exact rdropWhile_eq_self h.trailing

lemma wholePath_ne_nil (h : WholePath q) (hne : q ≠ []) : wholePath (q.take 255) ≠ [] := by
  intro hnil
  obtain ⟨a, rest, rfl⟩ := List.exists_cons_of_ne_nil hne
  obtain ⟨⟨s, hs, hall⟩, -⟩ := rdropWhile_slash ((a :: rest).take 255)
  rw [wholePath, skipLeading_take h] at hnil
  rw [hnil, List.nil_append, List.take_succ_cons] at hs
  have ha := hall a (hs ▸ List.mem_cons_self)
  exact (skipLeading_eq_self_iff.mp h.leading).1 ha

/-- A path of 256 characters leaves one of at most 254 if its last but one is a slash. -/
lemma length_wholePath_take (h : WholePath q) (hlen : q.length = 256) :
    (wholePath (q.take 255)).length ≤ 254 ↔ q[254]? = some slash := by
  have hlt : 254 < q.length := by omega
  have htake : q.take 255 = q.take 254 ++ [q[254]] := List.take_succ_eq_append_getElem hlt
  have hfront : (q.take 254).length = 254 := by
    rw [List.length_take]
    omega
  rw [wholePath, skipLeading_take h, htake, List.getElem?_eq_getElem hlt, Option.some_inj]
  by_cases hc : q[254] = slash
  · have hdrop : (q.take 254 ++ [slash]).rdropWhile (· = slash) = (q.take 254).rdropWhile (· = slash) :=
      List.rdropWhile_concat_pos _ _ _ (decide_eq_true rfl)
    rw [hc, hdrop]
    have hle := (List.rdropWhile_prefix (· = slash) (q.take 254)).length_le
    exact ⟨fun _ => rfl, fun _ => hle.trans_eq hfront⟩
  · have hlast : (q.take 254 ++ [q[254]]).getLast? ≠ some slash := by
      rw [List.getLast?_concat, ne_eq, Option.some_inj]
      exact hc
    rw [rdropWhile_eq_self hlast, List.length_append, hfront, List.length_singleton]
    exact ⟨fun hle => absurd hle (by decide), fun heq => absurd heq hc⟩

end Xbks
