import Xbks.Mm.Missing
import Xbks.Process.Boot

/-!
# Page tables as maps

What mapping a page, copying an address space and tearing one down mean for the translation of
addresses and for the frames involved.
-/

namespace Xbks

variable {s s' : Mm} {F F' : List UInt64} {n : ℕ} {p t q v flags e : UInt64}

/-! ### The upper half -/

/-- The tables that a translation can go through below the upper half of `p`. -/
inductive UpperTable (s : Mm) (p : UInt64) : ℕ → UInt64 → Prop
  | first {i : Fin 512} (hi : 256 ≤ i.val) (hpresent : s.mem p i &&& pagePresent ≠ 0) :
      UpperTable s p 3 (pageTableFromEntry (s.mem p i))
  | next {n : ℕ} {t : UInt64} {i : Fin 512} (h : UpperTable s p (n + 2) t)
      (hpresent : s.mem t i &&& pagePresent ≠ 0) :
      UpperTable s p (n + 1) (pageTableFromEntry (s.mem t i))

/-- An entry that is read in both memories leads to the same continuation. -/
lemma presentEntry_bind_congr {i : Fin 512} {f f' : UInt64 → Option UInt64}
    (hentry : s'.mem t i = s.mem t i)
    (hrest : s.mem t i &&& pagePresent ≠ 0 → f' (s.mem t i) = f (s.mem t i)) :
    (presentEntry s' t i).bind f' = (presentEntry s t i).bind f := by
  rw [presentEntry, presentEntry, hentry]
  split_ifs with hpresent
  · rfl
  · exact hrest hpresent

/-- Translations of the upper half depend on the tables below it only. -/
lemma vmmTranslate_upper (hroot : ∀ i : Fin 512, 256 ≤ i.val → s'.mem p i = s.mem p i)
    (htables : ∀ n t, UpperTable s p n t → s'.mem t = s.mem t) (hv : ¬LowerHalf v) :
    vmmTranslate s' p v = vmmTranslate s p v := by
  have hi : 256 ≤ (tableIndex v 39).val := not_lt.mp hv
  refine presentEntry_bind_congr (hroot _ hi) fun h₁ => ?_
  have ht₁ := UpperTable.first hi h₁
  refine presentEntry_bind_congr (by rw [htables _ _ ht₁]) fun h₂ => ?_
  have ht₂ := ht₁.next h₂
  refine presentEntry_bind_congr (by rw [htables _ _ ht₂]) fun h₃ => ?_
  have ht₃ := ht₂.next h₃
  exact presentEntry_bind_congr (by rw [htables _ _ ht₃]) fun _ => rfl

/-- The same tables are below the upper half of `p` in both memories. -/
lemma UpperTable.congr (hroot : ∀ i : Fin 512, 256 ≤ i.val → s'.mem p i = s.mem p i)
    (htables : ∀ n t, UpperTable s p n t → s'.mem t = s.mem t) (h : UpperTable s' p n t) :
    UpperTable s p n t := by
  induction h with
  | first hi hpresent =>
    rw [hroot _ hi] at hpresent ⊢
    exact .first hi hpresent
  | next _ hpresent ih =>
    rw [htables _ _ ih] at hpresent ⊢
    exact ih.next hpresent

/-- No frame is used twice by the tree of `p`, the tables below its upper half and the free list. -/
structure TreeWellFormed (s : Mm) (p : UInt64) (F : List UInt64) : Prop where
  pool : Pool s F
  separate : Separate s 4 p F
  upper : ∀ n t, UpperTable s p n t → t ∉ s.nodes 4 p ∧ t ∉ F

/-! ### Mapping a page -/

/-- An address of the page that the entry made of `q` and `flags` maps. -/
lemma translate_leafEntry {k : ℕ} (hlookup : s.lookup 4 p (pathOf v) = some (q ||| flags ||| pagePresent))
    (hv : v.toNat % 4096 = 0) (hlt : v.toNat < 2 ^ 47) (hq : q.toNat % 4096 = 0)
    (hq52 : q.toNat < 2 ^ 52) (hflags : flags.toNat < 4096) (hk : k < 4096) :
    vmmTranslate s p (v + UInt64.ofNat k) = some (q + UInt64.ofNat k) := by
  have hsum : (v + UInt64.ofNat k).toNat = v.toNat + k := toNat_add_ofNat (by omega)
  have hpath : pathOf (v + UInt64.ofNat k) = pathOf v := by
    rw [pathOf_eq_iff, hsum]
    omega
  have hoff : ((v + UInt64.ofNat k) &&& (pageSize - 1)).toNat = k := by
    rw [pageOffset_toNat, hsum]
    omega
  have hframe : (q ||| flags ||| pagePresent) &&& addressMask = q := by
    rw [UInt64.or_assoc]
    exact pageTableFromEntry_or hq hq52 (or_odd hflags).1
  rw [vmmTranslate_eq (lowerHalf_of_lt (by omega)), hpath, hlookup, Option.map_some, hframe,
    Option.some.injEq, ← UInt64.toNat_inj, Word.toNat_or_of_lt (k := 12) _ _ hq (by omega), hoff,
    toNat_add_ofNat (by omega)]

/-- Mapping a page: when it succeeds the page, and nothing else, is translated anew; when it fails
every address is translated as before. It fails exactly when the page is mapped already or a missing
table could not be allocated. The tree stays well-formed in both cases. -/
theorem map_then_translate (hwf : TreeWellFormed s p F) (hv : v.toNat % 4096 = 0)
    (hlt : v.toNat < 2 ^ 47) (hq : q.toNat % 4096 = 0) (hq52 : q.toNat < 2 ^ 52)
    (hqtree : q ∉ s.nodes 4 p) (hqupper : ∀ n t, UpperTable s p n t → t ≠ q) (hqfree : q ∉ F)
    (hflags : flags.toNat < 4096) :
    ((vmmMapPage s p v q flags).1 = true →
      (∀ k < 4096, vmmTranslate (vmmMapPage s p v q flags).2 p (v + UInt64.ofNat k) =
        some (q + UInt64.ofNat k)) ∧
      ∀ a : UInt64, a.toNat < 2 ^ 47 → a.toNat / 4096 ≠ v.toNat / 4096 →
        vmmTranslate (vmmMapPage s p v q flags).2 p a = vmmTranslate s p a) ∧
    ((vmmMapPage s p v q flags).1 = false →
      ∀ a, vmmTranslate (vmmMapPage s p v q flags).2 p a = vmmTranslate s p a) ∧
    ((vmmMapPage s p v q flags).1 = false ↔
      vmmTranslate s p v ≠ none ∨ F.length < s.missingTables 4 p (pathOf v)) ∧
    ∃ F', TreeWellFormed (vmmMapPage s p v q flags).2 p F' := by
  have hlow := lowerHalf_of_lt hlt
  have hpath := pathSelected_pathOf hlow
  have he : ∀ i, userNext 0 i (q ||| flags ||| pagePresent) = some q := by
    intro i
    rw [UInt64.or_assoc]
    exact userNext_or hq hq52 (or_odd hflags).1 (or_odd hflags).2 (by simp [Selected])
  have hiff := mapBelow_false_iff (e := q ||| flags ||| pagePresent) hwf.pool hwf.separate hpath hflags
  obtain ⟨F', hmap⟩ := mapBelow_spec hwf.pool hwf.separate hpath hflags he
  rw [← vmmMapPage_eq (pageOffset_eq_zero.mpr hv) (pageOffset_eq_zero.mpr hq)] at hiff hmap
  generalize vmmMapPage s p v q flags = r at *
  -- what is below the upper half stays as it is
  have hroot : ∀ i : Fin 512, 256 ≤ i.val → r.2.mem p i = s.mem p i := by
    intro i hi
    refine hmap.slots i fun h => ?_
    simp only [pathOf, List.head?_cons, Option.some.injEq] at h
    rw [LowerHalf, h] at hlow
    omega
  have htables : ∀ n t, UpperTable s p n t → r.2.mem t = s.mem t := by
    intro n t ht
    obtain ⟨hnodes, hfree⟩ := hwf.upper n t ht
    exact hmap.frame t (fun h => hnodes (Radix.mem_nodes_of_mem_tables h)) hfree
  refine ⟨fun hok => ⟨fun k hk => ?_, fun a ha hne => ?_⟩, fun hok a => ?_, ?_, F', ?_⟩
  · exact translate_leafEntry (by rw [hmap.lookup, if_pos ⟨hok, rfl⟩]) hv hlt hq hq52 hflags hk
  · have hother : pathOf a ≠ pathOf v := by
      rw [ne_eq, pathOf_eq_iff]
      omega
    have ha := lowerHalf_of_lt ha
    rw [vmmTranslate_eq ha, vmmTranslate_eq ha, hmap.lookup, if_neg fun h => hother h.2]
  · by_cases ha : LowerHalf a
    · rw [vmmTranslate_eq ha, vmmTranslate_eq ha, hmap.lookup, if_neg (by simp [hok])]
    · exact vmmTranslate_upper hroot htables ha
  · rw [hiff, vmmTranslate_eq hlow, ne_eq, ne_eq, Option.map_eq_none_iff]
  · have hmem : ∀ x, x ∈ r.2.nodes 4 p + (F' : Multiset UInt64) → x ∈ s.nodes 4 p ∨ x ∈ F ∨ x = q := by
      intro x hx
      rw [hmap.nodes, Multiset.mem_add, Multiset.mem_add, Multiset.mem_coe] at hx
      rcases hx with (hx | hx) | hx
      · exact .inl hx
      · exact .inr (.inl hx)
      · split_ifs at hx
        · exact .inr (.inr (Multiset.mem_singleton.mp hx))
        · simp at hx
    refine ⟨hmap.pool, ?_, fun n t ht => ?_⟩
    · rw [Separate, hmap.nodes]
      split_ifs
      · rw [Multiset.nodup_add]
        refine ⟨hwf.separate, Multiset.nodup_singleton q, ?_⟩
        rw [Multiset.disjoint_singleton, Multiset.mem_add, Multiset.mem_coe, not_or]
        exact ⟨hqtree, hqfree⟩
      · rw [add_zero]
        exact hwf.separate
    · have ht := ht.congr hroot htables
      obtain ⟨hnodes, hfree⟩ := hwf.upper n t ht
      have hnot : t ∉ r.2.nodes 4 p + (F' : Multiset UInt64) := by
        intro h
        rcases hmem t h with h | h | h
        · exact hnodes h
        · exact hfree h
        · exact hqupper n t ht h
      rw [Multiset.mem_add, Multiset.mem_coe, not_or] at hnot
      exact hnot

/-- A new address space on the small machine, below whose upper half there is nothing. -/
lemma smallBoot_tree : ∃ q F s₁, createKernelMappedPml4 (mmInit (smallBoot 0).memory) = (q, s₁) ∧
    q ≠ 0 ∧ NewSpace q (mmInit (smallBoot 0).memory) s₁ F ∧ TreeWellFormed s₁ q F ∧
    (∀ n t, ¬UpperTable s₁ q n t) ∧ F.length = 4095 ∧
    ∀ x ∈ q :: F, 0x100000 ≤ x.toNat ∧ IsFrame s₁.hhdmOffsetValue x := by
  obtain ⟨q, F, s₁, hnew, hq, hpool, hnot, hspace, hge, hzero⟩ := smallBoot_space 0
  have hkernel : (mmInit (smallBoot 0).memory).kernelCr3Value &&& ~~~0xfff = 0x9000 := by
    obtain ⟨-, -, -, hkernel, -⟩ := mmInit_spec (smallBoot_valid 0)
    rw [hkernel]
    rfl
  have hnone : ∀ n t, ¬UpperTable s₁ q n t := by
    intro n t ht
    induction ht with
    | first hi hpresent =>
      rw [hspace.upper _ hi, hkernel, hzero 0x9000 (by decide)] at hpresent
      simp [zeroPage] at hpresent
    | next _ _ ih => exact ih
  have hbuilt : Built ∅ q (mmInit (smallBoot 0).memory) s₁ (q :: F) F := hspace.built
  have hlen : F.length = 4095 := by
    obtain ⟨F', hpool', hperm, -⟩ := mmInit_spec (smallBoot_valid 0)
    have hlen := hperm.length_eq
    rw [smallBoot_frames, ← hpool.unique hpool', List.length_cons] at hlen
    omega
  refine ⟨q, F, s₁, hnew, hq, hspace, ⟨hspace.pool, hbuilt.separate hpool.nodup, ?_⟩, hnone, hlen, ?_⟩
  · exact fun n t ht => absurd ht (hnone n t)
  · rw [hspace.hhdm]
    exact fun x hx => ⟨hge x hx, hpool.frames x hx⟩

/-- Frame 0x5000, which is not handed out, is mapped at 0x10000. -/
theorem map_then_translate_small : ∃ s p F, TreeWellFormed s p F ∧
    ∃ F', TreeWellFormed (vmmMapPage s p 0x10000 0x5000 7).2 p F' := by
  obtain ⟨p, F, s, -, -, hspace, hwf, hnone, -, hge⟩ := smallBoot_tree
  have hnot : (0x5000 : UInt64) ∉ p :: F := fun h => absurd (hge _ h).1 (by decide)
  rw [List.mem_cons, not_or] at hnot
  have htree : (0x5000 : UInt64) ∉ s.nodes 4 p := by
    rw [hspace.nodes, Multiset.mem_singleton]
    exact hnot.1
  have hupper : ∀ n t, UpperTable s p n t → t ≠ 0x5000 := fun n t ht => absurd ht (hnone n t)
  have hafter := (map_then_translate hwf (show (0x10000 : UInt64).toNat % 4096 = 0 by decide)
    (by decide) (by decide) (by decide) htree hupper hnot.2 (show (7 : UInt64).toNat < 4096 by decide)).2.2.2
  exact ⟨s, p, F, hwf, hafter⟩

/-! ### Copying an address space -/

/-- A new root is in neither the source's tree nor the rest of the free list. -/
lemma EmptySpace.source {src dst : UInt64} {s₀ : Mm} (hempty : EmptySpace dst s s₀ F)
    (hsep : Separate s 4 src (dst :: F)) : (∀ x ∈ s.tables 4 src, s₀.mem x = s.mem x) ∧
      (s₀.nodes 4 src + (s₀.nodes 4 dst + (F : Multiset UInt64))).Nodup := by
  have hsrc : ∀ x ∈ s.tables 4 src, s₀.mem x = s.mem x := fun x hx => hempty.frame x fun hxq =>
    hsep.notMem (Radix.mem_nodes_of_mem_tables hx) (hxq ▸ List.mem_cons_self)
  refine ⟨hsrc, ?_⟩
  rw [hempty.nodes, Multiset.singleton_add, Multiset.cons_coe, Mm.nodes, Radix.nodes,
    Radix.collect_congr hsrc]
  exact hsep

/-- Copying an address space into a new one. When it succeeds the two map the same user addresses,
to different frames with the same flags and content, and the source is as it was. It fails only
when the free list is used up: the one frame that may be left was taken for the page that could not
be mapped, and given back. -/
theorem clone_copies_space {src dst : UInt64} {s₀ : Mm} {ok : Bool} (hpool : Pool s F)
    (hsep : Separate s 4 src F) (hnew : createKernelMappedPml4 s = (dst, s₀)) (hdst : dst ≠ 0)
    (hclone : vmmCloneUserSpace s₀ src dst userTop = (ok, s')) :
    (ok = true →
      (∀ a < userTop, (vmmTranslate s' dst a ≠ none ↔ vmmTranslate s₀ src a ≠ none) ∧
        Option.Rel (CopyOf s₀ s') (s₀.lookup 4 src (pathOf a)) (s'.lookup 4 dst (pathOf a))) ∧
      (∃ F', Pool s' F' ∧ (s'.nodes 4 src + (s'.nodes 4 dst + (F' : Multiset UInt64))).Nodup) ∧
      (s'.nodes 4 src = s₀.nodes 4 src ∧ ∀ x ∈ s₀.nodes 4 src, s'.mem x = s₀.mem x) ∧
      ∀ i : Fin 512, 256 ≤ i.val → s'.mem src i = s₀.mem src i ∧ s'.mem dst i = s₀.mem dst i) ∧
    (ok = false → ∃ F', Pool s' F' ∧ F'.length ≤ 1) := by
  rcases createKernelMappedPml4_cases hpool with ⟨-, hzero⟩ | ⟨q, F₁, s₁, rfl, hq, hempty, -⟩
  · rw [hzero] at hnew
    cases hnew
    exact absurd rfl hdst
  rw [hq] at hnew
  cases hnew
  obtain ⟨-, hall⟩ := hempty.source hsep
  obtain ⟨F', hcons, htrue, -, hfalse⟩ := vmmCloneUserSpace_spec hall hempty.pool hempty.lookup
  rw [hclone] at hcons htrue hfalse
  -- neither the new tree nor the free list has a frame of the source
  have hkept : ∀ x ∈ s₀.nodes 4 src, s'.mem x = s₀.mem x := by
    intro x hx
    have hnot := Multiset.disjoint_left.mp (Multiset.nodup_add.mp hall).2.2 hx
    rw [Multiset.mem_add, Multiset.mem_coe, not_or] at hnot
    exact hcons.frame x hnot.1 hnot.2
  have hnodes : s'.nodes 4 src = s₀.nodes 4 src :=
    Radix.collect_congr fun x hx => hkept x (Radix.mem_nodes_of_mem_tables hx)
  refine ⟨fun hok => ⟨fun a ha => ?_, ⟨F', hcons.pool, ?_⟩, ⟨hnodes, hkept⟩, fun i hi => ⟨?_, ?_⟩⟩,
    fun hok => ⟨F', hcons.pool, (hfalse hok).2⟩⟩
  · have hlow : LowerHalf a := lowerHalf_of_lt (UInt64.lt_iff_toNat_lt.mp ha)
    have hcopy := htrue hok (pathOf a)
    refine ⟨?_, hcopy⟩
    rw [vmmTranslate_eq hlow, vmmTranslate_eq hlow, ne_eq, ne_eq, Option.map_eq_none_iff,
      Option.map_eq_none_iff]
    generalize s₀.lookup 4 src (pathOf a) = e, s'.lookup 4 dst (pathOf a) = e' at *
    cases hcopy <;> simp
  · rw [hnodes, hcons.nodes]
    exact hall
  · rw [hkept src Radix.self_mem_nodes]
  · exact hcons.upper i hi

/-- An address space with one page, at 0x10000. -/
lemma smallBoot_page : ∃ p F s, Pool s F ∧ Separate s 4 p F ∧
    s.lookup 4 p (pathOf 0x10000) ≠ none ∧ (s.nodes 4 p).card ≤ 5 ∧ 4091 ≤ F.length ∧
    ∀ x ∈ s.nodes 4 p, IsFrame s.hhdmOffsetValue x := by
  obtain ⟨p, F, s, -, -, hspace, hwf, -, hlen, hframes⟩ := smallBoot_tree
  obtain ⟨q, page, F', hmap, -⟩ := mapNew_spec (fun _ => zeroPage) hwf.pool hwf.separate
    (lowerHalf_of_lt (show (0x10000 : UInt64).toNat < 2 ^ 47 by decide)) (by decide)
    (show (7 : UInt64).toNat < 4096 by decide)
  have hok : (mapNew s p 0x10000 7 fun _ => zeroPage).1 = true := by
    by_contra hno
    rcases hmap.stuck (Bool.eq_false_iff.mpr hno) with h | h
    · exact h (hspace.lookup _)
    · omega
  have hcard := congrArg Multiset.card hmap.nodes
  have hused := hmap.used
  rw [Multiset.card_add, Multiset.card_add, hspace.nodes, Multiset.card_singleton, Multiset.coe_card,
    Multiset.coe_card] at hcard
  refine ⟨p, F', _, hmap.pool, hmap.toConserved.separate hwf.separate, ?_, by omega, by omega, ?_⟩
  · rw [hmap.lookup, if_pos ⟨hok, rfl⟩]
    exact Option.some_ne_none _
  · intro x hx
    have hin := Multiset.mem_of_le (Multiset.le_add_right _ (F' : Multiset UInt64)) hx
    rw [hmap.nodes, hspace.nodes, Multiset.singleton_add, Multiset.cons_coe, Multiset.mem_coe] at hin
    rw [hmap.hhdm]
    exact (hframes x hin).2

theorem clone_copies_space_small : ∃ s src F dst s₀ s', Pool s F ∧ Separate s 4 src F ∧
    createKernelMappedPml4 s = (dst, s₀) ∧ dst ≠ 0 ∧
    vmmCloneUserSpace s₀ src dst userTop = (true, s') ∧ vmmTranslate s' dst 0x10000 ≠ none := by
  obtain ⟨src, F, s, hpool, hsep, hpage, hcard, hlen, -⟩ := smallBoot_page
  rcases createKernelMappedPml4_cases hpool with ⟨rfl, -⟩ | ⟨dst, F₁, s₀, rfl, hnew, hempty, -⟩
  · simp at hlen
  have hdst : dst ≠ 0 := (hpool.frames dst List.mem_cons_self).ne_zero
  obtain ⟨hsrc, hall⟩ := hempty.source hsep
  rcases hclone : vmmCloneUserSpace s₀ src dst userTop with ⟨ok, s'⟩
  obtain ⟨htrue, -⟩ := clone_copies_space hpool hsep hnew hdst hclone
  obtain ⟨F', -, -, -, hfalse⟩ := vmmCloneUserSpace_spec hall hempty.pool hempty.lookup
  rw [hclone] at hfalse
  have hok : ok = true := by
    by_contra hno
    have hfew := (hfalse (Bool.eq_false_iff.mpr hno)).1
    have hleaves : (s₀.leaves 4 src).card ≤ (s.nodes 4 src).card := by
      rw [Mm.leaves, Radix.leaves, Radix.collect_congr hsrc, Mm.nodes, Radix.nodes_eq_add]
      exact Multiset.card_le_card (Multiset.le_add_left _ _)
    rw [List.length_cons] at hlen
    omega
  subst hok
  refine ⟨s, src, _, dst, s₀, s', hpool, hsep, hnew, hdst, hclone, ?_⟩
  have hlow : LowerHalf 0x10000 := lowerHalf_of_lt (show (0x10000 : UInt64).toNat < 2 ^ 47 by decide)
  rw [((htrue rfl).1 0x10000 (by decide)).1, vmmTranslate_eq hlow, ne_eq, Option.map_eq_none_iff,
    Mm.lookup, Radix.lookup_congr hsrc]
  exact hpage

/-! ### Tearing an address space down -/

/-- Tearing an address space down frees its tables, its pages and the PML4 frame, each once, and
nothing else. No frame is read after it was freed, and no other frame is written. -/
theorem destroy_frees_tree (hp : p ≠ 0) (hpool : Pool s F) (hsep : Separate s 4 p F)
    (hframes : ∀ x ∈ s.nodes 4 p, IsFrame s.hhdmOffsetValue x) :
    (∃ F', Pool (vmmDestroyUserSpace s p userTop) F' ∧ F'.Nodup ∧
      (F' : Multiset UInt64) = s.nodes 4 p + (F : Multiset UInt64)) ∧
    (vmmDestroyUserSpace s p userTop).freeFrameCount =
      s.freeFrameCount + UInt64.ofNat (s.nodes 4 p).card ∧
    ((vmmDestroyTrace s p userTop).1 = vmmDestroyUserSpace s p userTop ∧
      NoReadAfterFree (vmmDestroyTrace s p userTop).2) ∧
    ∀ x ∉ s.nodes 4 p, (vmmDestroyUserSpace s p userTop).mem x = s.mem x := by
  obtain ⟨F', hpool', hF', -, -, hrest⟩ := vmmDestroyUserSpace_spec hp hpool hsep hframes
  refine ⟨⟨F', hpool', hpool'.nodup, hF'⟩, ?_, ⟨vmmDestroyTrace_fst userTop, ?_⟩, hrest⟩
  · have hcard := congrArg Multiset.card hF'
    rw [Multiset.card_add, Multiset.coe_card, Multiset.coe_card] at hcard
    rw [hpool'.count, hpool.count, hcard, UInt64.ofNat_add, add_comm]
  · exact vmmDestroyTrace_order hpool hsep hframes

theorem destroy_frees_tree_small : ∃ s p F, Pool s F ∧ s.lookup 4 p (pathOf 0x10000) ≠ none ∧
    NoReadAfterFree (vmmDestroyTrace s p userTop).2 := by
  obtain ⟨p, F, s, hpool, hsep, hpage, -, -, hframes⟩ := smallBoot_page
  have hp : p ≠ 0 := (hframes p Radix.self_mem_nodes).ne_zero
  exact ⟨s, p, F, hpool, hpage, (destroy_frees_tree hp hpool hsep hframes).2.2.1.2⟩

end Xbks
