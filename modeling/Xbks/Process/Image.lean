import Xbks.Mm.Init
import Xbks.Process.Loader

/-!
# What the loader does to an address space

`Grows A p s s'` is what mapping pages and copying bytes into mapped pages have in common: frames
move from the free list to the tree of `p`, mapped pages stay mapped, new pages lie on the paths in
`A`, and everything copied went to mapped user pages. It is kept by every step of the program
loader as long as no segment's end wraps around.
-/

namespace Xbks

variable {A B : Set (List (Fin 512))} {p v flags : UInt64} {s s' s'' : Mm} {F F' F'' : List UInt64}

/-! ### The relation -/

/-- The copied byte went to where `p` maps its address, inside the user's part. -/
structure InImage (p : UInt64) (s : Mm) (c : Copy) : Prop where
  ge : userImageMin ≤ c.address
  lt : c.address < userTop
  mapped : vmmTranslate s p c.address = some c.physical

structure Growth (A : Set (List (Fin 512))) (p : UInt64) (s s' : Mm) (F F' : List UInt64) :
    Prop extends Conserved p s s' F F' where
  kept : ∀ path e, s.lookup 4 p path = some e → s'.lookup 4 p path = some e
  only : ∀ path e, s'.lookup 4 p path = some e → s.lookup 4 p path = some e ∨ path ∈ A
  log : ∃ new, s'.copies = s.copies ++ new ∧ ∀ c ∈ new, InImage p s' c

def Grows (A : Set (List (Fin 512))) (p : UInt64) (s s' : Mm) : Prop :=
  ∀ F, Pool s F → Separate s 4 p F → ∃ F', Growth A p s s' F F'

lemma toNat_userTop : userTop.toNat = 2 ^ 47 := rfl

lemma lt_userTop_iff : v < userTop ↔ v.toNat < 2 ^ 47 := UInt64.lt_iff_toNat_lt

lemma userImageMin_le_iff : userImageMin ≤ v ↔ 65536 ≤ v.toNat := UInt64.le_iff_toNat_le

/-- Mapped addresses of the lower half keep their translation. -/
lemma Growth.translate (h : Growth A p s s' F F') {physical : UInt64} (hv : LowerHalf v)
    (ht : vmmTranslate s p v = some physical) : vmmTranslate s' p v = some physical := by
  rw [vmmTranslate_eq hv, Option.map_eq_some_iff] at ht ⊢
  obtain ⟨e, he, hphys⟩ := ht
  exact ⟨e, h.kept _ e he, hphys⟩

lemma InImage.mono {c : Copy} (h : Growth A p s s' F F') (hc : InImage p s c) : InImage p s' c :=
  ⟨hc.ge, hc.lt, h.translate (lowerHalf_of_lt (lt_userTop_iff.mp hc.lt)) hc.mapped⟩

lemma Growth.refl (h : Pool s F) : Growth A p s s F F where
  toConserved := .refl h
  kept _ _ he := he
  only _ _ he := .inl he
  log := ⟨[], by simp⟩

lemma Growth.trans (h : Growth A p s s' F F') (h' : Growth A p s' s'' F' F'') :
    Growth A p s s'' F F'' where
  toConserved := h.toConserved.trans h'.toConserved
  kept path e he := h'.kept path e (h.kept path e he)
  only path e he := (h'.only path e he).elim (h.only path e) .inr
  log := by
    obtain ⟨new, hnew, hin⟩ := h.log
    obtain ⟨new', hnew', hin'⟩ := h'.log
    refine ⟨new ++ new', by rw [hnew', hnew, List.append_assoc], fun c hc => ?_⟩
    rcases List.mem_append.mp hc with hc | hc
    · exact (hin c hc).mono h'
    · exact hin' c hc

lemma Growth.mono (h : Growth A p s s' F F') (hAB : A ⊆ B) : Growth B p s s' F F' where
  toConserved := h.toConserved
  kept := h.kept
  only path e he := (h.only path e he).imp id fun hA => hAB hA
  log := h.log

lemma Grows.refl (s : Mm) : Grows A p s s := fun F hpool _ => ⟨F, .refl hpool⟩

lemma Grows.trans (h : Grows A p s s') (h' : Grows A p s' s'') : Grows A p s s'' := by
  intro F hpool hsep
  obtain ⟨F', hF'⟩ := h F hpool hsep
  obtain ⟨F'', hF''⟩ := h' F' hF'.pool (hF'.separate hsep)
  exact ⟨F'', hF'.trans hF''⟩

/-! ### The record of reads and copies -/

/-- Nothing was added to the record of what the loader reads and copies. -/
structure SameLog (s s' : Mm) : Prop where
  copies : s'.copies = s.copies
  reads : s'.reads = s.reads

lemma SameLog.refl (s : Mm) : SameLog s s := ⟨rfl, rfl⟩

lemma SameLog.trans (h : SameLog s s') (h' : SameLog s' s'') : SameLog s s'' :=
  ⟨h'.copies.trans h.copies, h'.reads.trans h.reads⟩

lemma sameLog_setPage (frame : UInt64) (page : Page) : SameLog s (s.setPage frame page) :=
  ⟨rfl, rfl⟩

lemma sameLog_alloc (s : Mm) : SameLog s (pmmAllocFrame s).2 := by
  rw [pmmAllocFrame]
  split_ifs <;> exact ⟨rfl, rfl⟩

lemma sameLog_free (s : Mm) (frame : UInt64) : SameLog s (pmmFreeFrame s frame) := by
  rw [pmmFreeFrame]
  split_ifs <;> exact ⟨rfl, rfl⟩

lemma sameLog_ensure (s : Mm) (table : UInt64) (i : Fin 512) (flags : UInt64) :
    SameLog s (ensureNextTable s table i flags).2 := by
  have halloc := sameLog_alloc s
  rw [ensureNextTable]
  split_ifs
  · rcases h : pmmAllocFrame s with ⟨frame, s₁⟩
    rw [h] at halloc
    by_cases hframe : frame = 0
    · simpa [hframe] using halloc
    · simp only [if_neg hframe]
      exact halloc.trans (sameLog_setPage _ _)
  · exact .refl s

lemma sameLog_mapPage (s : Mm) (p v q flags : UInt64) : SameLog s (vmmMapPage s p v q flags).2 := by
  simp only [vmmMapPage]
  split_ifs
  · exact .refl s
  · have h₁ := sameLog_ensure s p (tableIndex v 39) flags
    rcases he₁ : ensureNextTable s p (tableIndex v 39) flags with ⟨_ | pdpt, s₁⟩
    · rwa [he₁] at h₁
    rw [he₁] at h₁
    have h₂ := h₁.trans (sameLog_ensure s₁ pdpt (tableIndex v 30) flags)
    rcases he₂ : ensureNextTable s₁ pdpt (tableIndex v 30) flags with ⟨_ | pd, s₂⟩
    · rw [he₂] at h₂
      simpa [he₂] using h₂
    rw [he₂] at h₂
    have h₃ := h₂.trans (sameLog_ensure s₂ pd (tableIndex v 21) flags)
    rcases he₃ : ensureNextTable s₂ pd (tableIndex v 21) flags with ⟨_ | pt, s₃⟩
    · rw [he₃] at h₃
      simpa [he₂, he₃] using h₃
    rw [he₃] at h₃
    simp only [he₂, he₃]
    split_ifs
    · exact h₃
    · exact h₃.trans (sameLog_setPage _ _)

lemma sameLog_mapNew (s : Mm) (p v flags : UInt64) (content : Mm → Page) :
    SameLog s (mapNew s p v flags content).2 := by
  have halloc := sameLog_alloc s
  rw [mapNew]
  rcases h : pmmAllocFrame s with ⟨q, s₁⟩
  rw [h] at halloc
  by_cases hq : q = 0
  · simpa [hq] using halloc
  · have hmap := (halloc.trans (sameLog_setPage q (content s₁))).trans
      (sameLog_mapPage (s₁.setPage q (content s₁)) p v q flags)
    simp only [if_neg hq, mapOrFree]
    rcases hm : vmmMapPage (s₁.setPage q (content s₁)) p v q flags with ⟨_ | _, s₂⟩
    · rw [hm] at hmap
      exact hmap.trans (sameLog_free s₂ q)
    · rwa [hm] at hmap

/-! ### Mapping pages -/

lemma mapUserPage_eq (s : Mm) (p v flags : UInt64) :
    mapUserPage s p v flags = mapNew s p v (flags ||| pageUser) fun _ => zeroPage := by
  have hzero : (pmmAllocFrame s).1 ≠ 0 →
      (pmmAllocFrame s).2.setPage (pmmAllocFrame s).1 zeroPage = (pmmAllocFrame s).2 := by
    intro hne
    rw [pmmAllocFrame] at hne ⊢
    split_ifs at hne ⊢ with hfree
    · exact absurd rfl hne
    · simp [Mm.setPage]
  rw [mapUserPage, mapNew]
  rcases h : pmmAllocFrame s with ⟨q, s₁⟩
  rw [h] at hzero
  by_cases hq : q = 0
  · simp [hq]
  · simp only [if_neg hq]
    exact congrArg (fun t => mapOrFree t p v q (flags ||| pageUser)) (hzero hq).symm

/-- The addresses that `mapUserPage` can be called with. -/
structure UserPage (v : UInt64) : Prop where
  aligned : v.toNat % 4096 = 0
  lt : v.toNat < 2 ^ 47

/-- What a loop over `mapUserPage` achieves, in the pages it has gone through. -/
structure MapsPages (ok : Bool) (p : UInt64) (pages : List UInt64) (s s' : Mm)
    (F F' : List UInt64) : Prop extends Growth {path | ∃ v ∈ pages, path = pathOf v} p s s' F F' where
  done : ok = true → ∀ v ∈ pages, s'.lookup 4 p (pathOf v) ≠ none
  content : ∀ path e, s.lookup 4 p path = some e →
    s'.mem (pageTableFromEntry e) = s.mem (pageTableFromEntry e)
  used : F.length ≤ F'.length + 4 * pages.length

lemma mapUserPage_spec (hpool : Pool s F) (hsep : Separate s 4 p F) (hv : UserPage v)
    (hflags : (flags ||| pageUser).toNat < 4096) :
    ∃ F', MapsPages (mapUserPage s p v flags).1 p [v] s (mapUserPage s p v flags).2 F F' ∧
      ((mapUserPage s p v flags).1 = false → s.lookup 4 p (pathOf v) ≠ none ∨ F.length ≤ 4) := by
  have hlog := sameLog_mapNew s p v (flags ||| pageUser) fun _ => zeroPage
  rw [mapUserPage_eq]
  obtain ⟨q, page, F', hmap, -⟩ := mapNew_spec (fun _ => zeroPage) hpool hsep
    (lowerHalf_of_lt hv.lt) hv.aligned hflags
  generalize mapNew s p v (flags ||| pageUser) (fun _ => zeroPage) = r at *
  refine ⟨F',
    { toConserved := hmap.toConserved
      kept := fun path e he => ?_
      only := fun path e he => ?_
      log := ⟨[], by rw [hlog.copies, List.append_nil], by simp⟩
      done := fun hok w hw => ?_
      content := fun path e he => ?_
      used := hmap.used }, hmap.stuck⟩
  · rw [hmap.lookup, if_neg]
    · exact he
    · rintro ⟨hok, rfl⟩
      rw [hmap.fresh hok] at he
      cases he
  · rw [hmap.lookup] at he
    split_ifs at he with hpath
    · exact .inr ⟨v, List.mem_cons_self, hpath.2⟩
    · exact .inl he
  · rw [List.mem_singleton] at hw
    rw [hw, hmap.lookup, if_pos ⟨hok, rfl⟩]
    exact Option.some_ne_none _
  · obtain ⟨i, b, hb, hleaf⟩ := Radix.lookup_leaf he
    obtain ⟨-, -, rfl⟩ := userNext_eq_some hb
    exact hmap.tables _ (Radix.notMem_tables_of_mem_leaves hsep.nodes hleaf)
      (hsep.notMem (Radix.mem_nodes_of_mem_leaves hleaf))

/-- The loop of `mapUserRange` and `syscallBrk`. -/
lemma mapUserPages_spec {pages : List UInt64} (flags : UInt64) (hpool : Pool s F) (hsep : Separate s 4 p F)
    (hpages : ∀ v ∈ pages, UserPage v) (hflags : (flags ||| pageUser).toNat < 4096) :
    ∃ F', MapsPages (Loop.forWhile (fun s page => mapUserPage s p page flags) s pages).1 p pages s
      (Loop.forWhile (fun s page => mapUserPage s p page flags) s pages).2 F F' := by
  induction pages generalizing s F with
  | nil => exact ⟨F, .refl hpool, by simp, fun _ _ _ => rfl, by simp⟩
  | cons v vs ih =>
    obtain ⟨F₁, h₁, -⟩ := mapUserPage_spec hpool hsep (hpages v List.mem_cons_self) hflags
    have hsub : {path | ∃ w ∈ [v], path = pathOf w} ⊆ {path | ∃ w ∈ v :: vs, path = pathOf w} := by
      rintro path ⟨w, hw, rfl⟩
      exact ⟨w, List.mem_cons.mpr (.inl (List.mem_singleton.mp hw)), rfl⟩
    have hlen : F.length ≤ F₁.length + 4 := h₁.used
    cases hr : (mapUserPage s p v flags).1 with
    | false =>
      rw [Loop.forWhile_cons_false hr]
      refine ⟨F₁, h₁.toGrowth.mono hsub, by simp, h₁.content, ?_⟩
      rw [List.length_cons]
      omega
    | true =>
      rw [Loop.forWhile_cons_true hr]
      obtain ⟨F₂, h₂⟩ := ih h₁.pool (h₁.toConserved.separate hsep)
        fun w hw => hpages w (List.mem_cons_of_mem v hw)
      have hsub' : {path | ∃ w ∈ vs, path = pathOf w} ⊆
          {path | ∃ w ∈ v :: vs, path = pathOf w} := by
        rintro path ⟨w, hw, rfl⟩
        exact ⟨w, List.mem_cons_of_mem v hw, rfl⟩
      refine ⟨F₂, (h₁.toGrowth.mono hsub).trans (h₂.toGrowth.mono hsub'), fun hok w hw => ?_, ?_, ?_⟩
      · rcases List.mem_cons.mp hw with rfl | hw
        · obtain ⟨e, he⟩ := Option.ne_none_iff_exists'.mp (h₁.done hr w List.mem_cons_self)
          rw [h₂.kept _ e he]
          exact Option.some_ne_none e
        · exact h₂.done hok w hw
      · intro path e he
        rw [h₂.content path e (h₁.kept path e he), h₁.content path e he]
      · have := h₂.used
        rw [List.length_cons]
        omega

/-- The loop succeeds when none of the pages is mapped and there are enough frames. -/
lemma mapUserPages_ok {pages : List UInt64} (hpool : Pool s F) (hsep : Separate s 4 p F)
    (hpages : ∀ v ∈ pages, UserPage v) (hflags : (flags ||| pageUser).toNat < 4096)
    (hnd : pages.Nodup) (hnone : ∀ v ∈ pages, s.lookup 4 p (pathOf v) = none)
    (hlen : 4 * pages.length < F.length) :
    (Loop.forWhile (fun s page => mapUserPage s p page flags) s pages).1 = true := by
  induction pages generalizing s F with
  | nil => rfl
  | cons v vs ih =>
    have hv := hpages v List.mem_cons_self
    rw [List.length_cons] at hlen
    obtain ⟨F₁, h₁, hstuck⟩ := mapUserPage_spec hpool hsep hv hflags
    have hused : F.length ≤ F₁.length + 4 := h₁.used
    have hok : (mapUserPage s p v flags).1 = true := by
      by_contra hno
      rcases hstuck (Bool.eq_false_iff.mpr hno) with h | h
      · exact h (hnone v List.mem_cons_self)
      · omega
    rw [Loop.forWhile_cons_true hok]
    refine ih h₁.pool (h₁.toConserved.separate hsep)
      (fun w hw => hpages w (List.mem_cons_of_mem v hw)) (List.nodup_cons.mp hnd).2 ?_ (by omega)
    intro w hw
    have hw' := hpages w (List.mem_cons_of_mem v hw)
    by_contra hsome
    obtain ⟨e, he⟩ := Option.ne_none_iff_exists'.mp hsome
    rcases h₁.only _ e he with h | ⟨x, hx, hpath⟩
    · rw [hnone w (List.mem_cons_of_mem v hw)] at h
      cases h
    · rw [List.mem_singleton.mp hx, pathOf_eq_iff] at hpath
      have hwv : w = v := by
        rw [← UInt64.toNat_inj]
        have h₂ := hv.aligned
        have h₃ := hv.lt
        have h₄ := hw'.aligned
        have h₅ := hw'.lt
        omega
      exact (List.nodup_cons.mp hnd).1 (hwv ▸ hw)

/-- The paths to the pages that meet an interval of addresses. -/
def pathsOf (lo hi : ℕ) : Set (List (Fin 512)) :=
  {path | ∃ v : UInt64, v.toNat % 4096 = 0 ∧ lo / 4096 * 4096 ≤ v.toNat ∧ v.toNat < hi ∧
    path = pathOf v}

/-- The pages of a range that does not wrap and ends below the user limit. -/
lemma mem_mapUserRange_pages {base size x : UInt64} (h : base.toNat + size.toNat < 2 ^ 47)
    (hx : x ∈ pagesBetween (alignDown base pageSize) (alignUp (base + size) pageSize)) :
    UserPage x ∧ base.toNat / 4096 * 4096 ≤ x.toNat ∧ x.toNat < base.toNat + size.toNat := by
  have hsum : (base + size).toNat = base.toNat + size.toNat := Word.toNat_add_of_lt _ _ (by omega)
  have hdown := toNat_alignDown base
  have hup := toNat_alignUp (v := base + size) (by omega)
  rw [mem_pagesBetween (by omega) (by omega)] at hx
  exact ⟨⟨hx.1, by omega⟩, by omega⟩

lemma length_mapUserRange_pages {base size : UInt64} (h : base.toNat + size.toNat < 2 ^ 47) :
    (pagesBetween (alignDown base pageSize) (alignUp (base + size) pageSize)).length ≤
      size.toNat / 4096 + 2 := by
  have hsum : (base + size).toNat = base.toNat + size.toNat := Word.toNat_add_of_lt _ _ (by omega)
  have hdown := toNat_alignDown base
  have hup := toNat_alignUp (v := base + size) (by omega)
  simp only [pagesBetween, List.length_map, List.length_range]
  omega

/-- Every address of an interval lies on one of its pages. -/
lemma pathOf_mem_pathsOf {lo hi : ℕ} {a : UInt64} (hge : lo / 4096 ≤ a.toNat / 4096)
    (hlt : a.toNat / 4096 * 4096 < hi) : pathOf a ∈ pathsOf lo hi := by
  have hpage := toNat_alignDown a
  refine ⟨alignDown a pageSize, by omega, by omega, by omega, ?_⟩
  rw [pathOf_eq_iff]
  omega

/-- The page of an address of the user's part is among the pages of an interval. -/
lemma pathOf_mem_pathsOf_iff {lo hi : ℕ} (hhi : hi ≤ 2 ^ 47) (hv : v.toNat < 2 ^ 47) :
    pathOf v ∈ pathsOf lo hi ↔ lo / 4096 ≤ v.toNat / 4096 ∧ v.toNat / 4096 * 4096 < hi := by
  constructor
  · rintro ⟨w, hal, hge, hlt, hpath⟩
    rw [pathOf_eq_iff] at hpath
    omega
  · rintro ⟨hge, hlt⟩
    exact pathOf_mem_pathsOf hge hlt

/-- The pages of a range are those that `mapUserRange` maps. -/
lemma mem_pages_of_mem_pathsOf {base size : UInt64} {path : List (Fin 512)}
    (h : base.toNat + size.toNat < 2 ^ 47)
    (hpath : path ∈ pathsOf base.toNat (base.toNat + size.toNat)) :
    ∃ x ∈ pagesBetween (alignDown base pageSize) (alignUp (base + size) pageSize),
      path = pathOf x := by
  obtain ⟨x, hal, hge, hlt, rfl⟩ := hpath
  have hsum : (base + size).toNat = base.toNat + size.toNat := Word.toNat_add_of_lt _ _ (by omega)
  have hdown := toNat_alignDown base
  have hup := toNat_alignUp (v := base + size) (by omega)
  refine ⟨x, ?_, rfl⟩
  rw [mem_pagesBetween (by omega) (by omega)]
  omega

/-- What `mapUserRange` does to a range below the user limit. -/
theorem mapUserRange_spec {base size : UInt64} (flags : UInt64) (h : base.toNat + size.toNat < 2 ^ 47)
    (hpool : Pool s F) (hsep : Separate s 4 p F) (hflags : (flags ||| pageUser).toNat < 4096) :
    ∃ F', Growth (pathsOf base.toNat (base.toNat + size.toNat)) p s
        (mapUserRange s p base size flags).2 F F' ∧
      ((mapUserRange s p base size flags).1 = true →
        ∀ path ∈ pathsOf base.toNat (base.toNat + size.toNat),
          (mapUserRange s p base size flags).2.lookup 4 p path ≠ none) ∧
      F.length ≤ F'.length + 4 * (size.toNat / 4096 + 2) := by
  obtain ⟨F', hmap⟩ := mapUserPages_spec flags hpool hsep
    (fun x hx => (mem_mapUserRange_pages h hx).1) hflags
  refine ⟨F', hmap.toGrowth.mono ?_, fun hok path hpath => ?_, hmap.used.trans ?_⟩
  · rintro path ⟨x, hx, rfl⟩
    obtain ⟨hpage, hle, hlt⟩ := mem_mapUserRange_pages h hx
    exact ⟨x, hpage.aligned, hle, hlt, rfl⟩
  · obtain ⟨x, hx, rfl⟩ := mem_pages_of_mem_pathsOf h hpath
    exact hmap.done hok x hx
  · have := length_mapUserRange_pages h
    omega

lemma mapUserRange_ok {base size : UInt64} (flags : UInt64) (h : base.toNat + size.toNat < 2 ^ 47)
    (hpool : Pool s F) (hsep : Separate s 4 p F) (hflags : (flags ||| pageUser).toNat < 4096)
    (hnone : ∀ path ∈ pathsOf base.toNat (base.toNat + size.toNat), s.lookup 4 p path = none)
    (hlen : 4 * (size.toNat / 4096 + 2) < F.length) : (mapUserRange s p base size flags).1 = true := by
  refine mapUserPages_ok hpool hsep (fun x hx => (mem_mapUserRange_pages h hx).1) hflags
    (nodup_pagesBetween _ _) (fun x hx => ?_) ?_
  · obtain ⟨hpage, hle, hlt⟩ := mem_mapUserRange_pages h hx
    exact hnone _ ⟨x, hpage.aligned, hle, hlt, rfl⟩
  · have := length_mapUserRange_pages h
    omega

/-! ### Writing to mapped pages -/

/-- Changing the content of a mapped page changes neither the tree nor the free list. -/
lemma Growth.of_leaf {x₀ : UInt64} (hpool : Pool s F) (hsep : Separate s 4 p F)
    (hleaf : x₀ ∈ s.leaves 4 p) (hmem : ∀ x ≠ x₀, s'.mem x = s.mem x)
    (hhead : s'.freeFrames = s.freeFrames) (hcount : s'.freeFrameCount = s.freeFrameCount)
    (hhdm : s'.hhdmOffsetValue = s.hhdmOffsetValue)
    (hkernel : s'.kernelCr3Value = s.kernelCr3Value)
    (hlog : ∃ new, s'.copies = s.copies ++ new ∧ ∀ c ∈ new, InImage p s c) :
    Growth A p s s' F F := by
  have hnodes : x₀ ∈ s.nodes 4 p := Radix.mem_nodes_of_mem_leaves hleaf
  have htab : ∀ x ∈ s.tables 4 p, s'.mem x = s.mem x := by
    intro x hx
    refine hmem x ?_
    rintro rfl
    exact Radix.notMem_tables_of_mem_leaves hsep.nodes hleaf hx
  have hlookup : ∀ path, s'.lookup 4 p path = s.lookup 4 p path := Radix.lookup_congr htab
  have hsame : s'.nodes 4 p = s.nodes 4 p := Radix.collect_congr htab
  refine
    { pool := hpool.congr (fun f hf => ?_) hhead hcount hhdm
      hhdm := hhdm
      kernelCr3 := hkernel
      nodes := by rw [hsame]
      frame := fun x hx _ => ?_
      upper := fun i _ => by rw [htab p Radix.self_mem_tables]
      kept := fun path e he => by rw [hlookup, he]
      only := fun path e he => .inl (by rw [← hlookup, he])
      log := ?_ }
  · rw [hmem]
    rintro rfl
    exact hsep.notMem hnodes hf
  · rw [hmem]
    rintro rfl
    exact hx hnodes
  · obtain ⟨new, hnew, hin⟩ := hlog
    refine ⟨new, hnew, fun c hc => ⟨(hin c hc).ge, (hin c hc).lt, ?_⟩⟩
    have hlow := lowerHalf_of_lt (lt_userTop_iff.mp (hin c hc).lt)
    rw [vmmTranslate_eq hlow, hlookup, ← vmmTranslate_eq hlow]
    exact (hin c hc).mapped

lemma toNat_pageTableFromEntry (e : UInt64) : (pageTableFromEntry e).toNat % 4096 = 0 := by
  rw [pageTableFromEntry, Word.toNat_and_mid e addressMask (k := 12) (w := 40) rfl]
  omega

/-- A translated address and the leaf it lies in. -/
lemma translate_leaf {physical : UInt64} (hv : LowerHalf v)
    (h : vmmTranslate s p v = some physical) : ∃ e, s.lookup 4 p (pathOf v) = some e ∧
      physical.toNat = (pageTableFromEntry e).toNat + v.toNat % 4096 ∧
      pageTableFromEntry e ∈ s.leaves 4 p := by
  rw [vmmTranslate_eq hv, Option.map_eq_some_iff] at h
  obtain ⟨e, he, rfl⟩ := h
  obtain ⟨i, b, hb, hleaf⟩ := Radix.lookup_leaf he
  obtain ⟨-, -, rfl⟩ := userNext_eq_some hb
  refine ⟨e, he, ?_, hleaf⟩
  have hoff : (v &&& (pageSize - 1)).toNat = v.toNat % 4096 := pageOffset_toNat
  rw [← pageTableFromEntry, Word.toNat_or_of_lt (k := 12) _ _ (toNat_pageTableFromEntry e)
    (by omega), hoff]

lemma toNat_add_ofNat {w : UInt64} {k : ℕ} (h : w.toNat + k < 2 ^ 64) :
    (w + UInt64.ofNat k).toNat = w.toNat + k := by
  have hk : (UInt64.ofNat k).toNat = k := Word.toNat_ofNat_of_lt (by omega)
  rw [Word.toNat_add_of_lt _ _ (by omega), hk]

/-- Within a page translation is addition. -/
lemma translate_add {physical : UInt64} {k : ℕ} (hv : v.toNat + k < 2 ^ 47)
    (hk : v.toNat % 4096 + k < 4096) (h : vmmTranslate s p v = some physical) :
    vmmTranslate s p (v + UInt64.ofNat k) = some (physical + UInt64.ofNat k) ∧
      alignDown (physical + UInt64.ofNat k) pageSize = alignDown physical pageSize ∧
      alignDown physical pageSize ∈ s.leaves 4 p := by
  have hlow := lowerHalf_of_lt (v := v) (by omega)
  have hsum : (v + UInt64.ofNat k).toNat = v.toNat + k := toNat_add_ofNat (by omega)
  obtain ⟨e, he, hphys, hleaf⟩ := translate_leaf hlow h
  have hal := toNat_pageTableFromEntry e
  have hlt := (pageTableFromEntry e).toNat_lt
  have hpsum : (physical + UInt64.ofNat k).toNat = physical.toNat + k :=
    toNat_add_ofNat (by omega)
  have hdown : alignDown physical pageSize = pageTableFromEntry e := by
    rw [← UInt64.toNat_inj, toNat_alignDown]
    omega
  refine ⟨?_, ?_, by rw [hdown]; exact hleaf⟩
  · have hpath : pathOf (v + UInt64.ofNat k) = pathOf v := by
      rw [pathOf_eq_iff, hsum]
      omega
    have hoff : ((v + UInt64.ofNat k) &&& (pageSize - 1)).toNat = (v.toNat + k) % 4096 := by
      rw [pageOffset_toNat, hsum]
    rw [vmmTranslate_eq (lowerHalf_of_lt (by omega)), hpath, he, Option.map_some,
      ← pageTableFromEntry, Option.some.injEq, ← UInt64.toNat_inj,
      Word.toNat_or_of_lt (k := 12) _ _ hal (by omega), hoff, hpsum]
    omega
  · rw [hdown, ← UInt64.toNat_inj, toNat_alignDown]
    omega

lemma setByte_mem_of_ne {x physical : UInt64} {b : UInt8} (h : x ≠ alignDown physical pageSize) :
    (s.setByte physical b).mem x = s.mem x :=
  setEntry_mem_of_ne h

/-- Writing a byte of a mapped page. -/
lemma Growth.setByte {physical : UInt64} (hpool : Pool s F) (hsep : Separate s 4 p F)
    (hv : v.toNat < 2 ^ 47) (ht : vmmTranslate s p v = some physical) (b : UInt8) :
    Growth A p s (s.setByte physical b) F F := by
  obtain ⟨-, -, hleaf⟩ := translate_add (k := 0) (by omega) (by omega) ht
  exact .of_leaf hpool hsep hleaf (fun x hx => setByte_mem_of_ne hx) rfl rfl rfl rfl ⟨[], by
    simp [Mm.setByte, Mm.setEntry, Mm.setPage]⟩

/-- The effect of `memcpy` within one page. -/
lemma copyChunk_spec (src : ℕ → UInt8) (address : UInt64) (first : ℕ) {physical x₀ : UInt64}
    {chunk : ℕ} (h : ∀ k < chunk, alignDown (physical + UInt64.ofNat k) pageSize = x₀) :
    let s' := copyChunk src s address physical first chunk
    (∀ x ≠ x₀, s'.mem x = s.mem x) ∧ s'.freeFrames = s.freeFrames ∧
      s'.freeFrameCount = s.freeFrameCount ∧ s'.hhdmOffsetValue = s.hhdmOffsetValue ∧
      s'.kernelCr3Value = s.kernelCr3Value ∧ s'.reads = s.reads ∧
      s'.copies = s.copies ++ (List.range chunk).map fun k =>
        ⟨address + UInt64.ofNat k, physical + UInt64.ofNat k, first + k⟩ := by
  induction chunk with
  | zero => simp [copyChunk]
  | succ chunk ih =>
    obtain ⟨hmem, hhead, hcount, hhdm, hkernel, hreads, hcopies⟩ :=
      ih fun k hk => h k (Nat.lt_succ_of_lt hk)
    refine ⟨fun x hx => ?_, hhead, hcount, hhdm, hkernel, hreads, ?_⟩
    · have hx' : x ≠ alignDown (physical + UInt64.ofNat chunk) pageSize := by
        rw [h chunk (Nat.lt_succ_self chunk)]
        exact hx
      exact (setByte_mem_of_ne hx').trans (hmem x hx)
    · simp only [copyChunk, hcopies, List.range_succ, List.map_append, List.map_cons, List.map_nil,
        List.append_assoc]

end Xbks
