import Xbks.Process.Load
import Xbks.Process.View

/-!
# What loading leaves in the memory of a process

Mapping pages adds zeros to the memory that a process sees, and copying into its pages through the page
tables stores bytes in it. From these two the content of the program image and of the stack follow
without looking at page tables again.
-/

namespace Xbks

variable {p v flags : UInt64} {s s' : Mm} {F F' : List UInt64}

/-! ### Adding pages -/

/-- The byte of a mapped page. -/
lemma view_eq_map (hv : v.toNat < 2 ^ 47) : s.view p v.toNat = (s.lookup 4 p (pathOf v)).map fun e =>
    byteOfWord (s.mem (pageTableFromEntry e) (wordIndex v)) (v.toNat % 8) := by
  rw [view_toNat hv]
  cases ht : vmmTranslate s p v with
  | none =>
    rw [vmmTranslate_eq (lowerHalf_of_lt hv), Option.map_eq_none_iff] at ht
    rw [ht]
    rfl
  | some physical =>
    obtain ⟨e, he, hphys, -⟩ := translate_leaf (lowerHalf_of_lt hv) ht
    have hal := toNat_pageTableFromEntry e
    have hdown : alignDown physical pageSize = pageTableFromEntry e := by
      rw [← UInt64.toNat_inj, toNat_alignDown]
      omega
    have hword : wordIndex physical = wordIndex v := by
      rw [wordIndex, wordIndex]
      congr 1
      omega
    rw [he, Option.map_some, Option.map_some, Mm.byte, hdown, hword]
    congr 2
    omega

/-- The addresses of a page. -/
def pageOf (v : UInt64) : Set ℕ := {a | a / 4096 = v.toNat / 4096}

lemma mem_pageOf {a : ℕ} : a ∈ pageOf v ↔ a / 4096 = v.toNat / 4096 := Iff.rfl

lemma byteOfWord_zeroPage (i : Fin 512) (j : ℕ) : byteOfWord (zeroPage i) j = 0 := by
  simp [zeroPage, byteOfWord]

/-- Mapping a page adds zeros. -/
lemma mapUserPage_added (hpool : Pool s F) (hsep : Separate s 4 p F) (hv : UserPage v)
    (hflags : (flags ||| pageUser).toNat < 4096) (h : mapUserPage s p v flags = (true, s')) :
    Memory.Added 0 (pageOf v) (s.view p) (s'.view p) := by
  have hal := hv.aligned
  have hlt := hv.lt
  rw [mapUserPage_eq] at h
  obtain ⟨q, page, F', hmap, hnew⟩ := mapNew_spec (fun _ => zeroPage) hpool hsep
    (lowerHalf_of_lt hlt) hal hflags
  rw [h] at hmap hnew
  obtain ⟨hq, rfl⟩ := hnew rfl
  have hframe : pageTableFromEntry (q ||| (flags ||| pageUser) ||| pagePresent) = q := by
    have hnext := userNext_leafEntry (s := s) (n := 0) (i := 0) (hpool.frames q hq) hflags (by simp [Selected])
    exact (userNext_eq_some hnext).2.2.symm
  have haddr : ∀ a, a < 2 ^ 47 → ∃ w : UInt64, w.toNat = a := fun a ha =>
    ⟨UInt64.ofNat a, Word.toNat_ofNat_of_lt (by omega)⟩
  have hpath : ∀ w : UInt64, w.toNat < 2 ^ 47 → (pathOf w = pathOf v ↔ w.toNat ∈ pageOf v) := by
    intro w hw
    rw [pathOf_eq_iff, mem_pageOf]
    omega
  refine ⟨fun a ha => ?_, fun a ha => ?_, fun a ha => ?_⟩
  · obtain ⟨w, rfl⟩ := haddr a (by rw [mem_pageOf] at ha; omega)
    have hw : w.toNat < 2 ^ 47 := by rw [mem_pageOf] at ha; omega
    rw [view_eq_none_iff hw, (hpath w hw).mpr ha]
    exact hmap.fresh rfl
  · obtain ⟨w, rfl⟩ := haddr a (by rw [mem_pageOf] at ha; omega)
    have hw : w.toNat < 2 ^ 47 := by rw [mem_pageOf] at ha; omega
    rw [view_eq_map hw, hmap.lookup, if_pos ⟨rfl, (hpath w hw).mpr ha⟩, Option.map_some, hframe,
      hmap.content rfl, byteOfWord_zeroPage]
  · by_cases hlt' : a < 2 ^ 47
    · obtain ⟨w, rfl⟩ := haddr a hlt'
      have hne : pathOf w ≠ pathOf v := fun heq => ha ((hpath w hlt').mp heq)
      rw [view_eq_map hlt', view_eq_map hlt', hmap.lookup, if_neg fun h => hne h.2]
      cases he : s.lookup 4 p (pathOf w) with
      | none => rfl
      | some e =>
        obtain ⟨i, b, hb, hleaf⟩ := Radix.lookup_leaf he
        obtain ⟨-, -, rfl⟩ := userNext_eq_some hb
        rw [Option.map_some, Option.map_some, hmap.tables _ (Radix.notMem_tables_of_mem_leaves hsep.nodes hleaf)
          (hsep.notMem (Radix.mem_nodes_of_mem_leaves hleaf))]
    · rw [Mm.view, Mm.view, if_neg hlt', if_neg hlt']

lemma mapUserPages_added {pages : List UInt64} (hpool : Pool s F) (hsep : Separate s 4 p F)
    (hpages : ∀ v ∈ pages, UserPage v) (hflags : (flags ||| pageUser).toNat < 4096)
    (h : Loop.forWhile (fun s page => mapUserPage s p page flags) s pages = (true, s')) :
    Memory.Added 0 {a | ∃ v ∈ pages, a ∈ pageOf v} (s.view p) (s'.view p) := by
  induction pages generalizing s F with
  | nil =>
    cases h
    have hnone : {a | ∃ v ∈ ([] : List UInt64), a ∈ pageOf v} = ∅ := by simp
    rw [hnone]
    exact .empty 0 _
  | cons v vs ih =>
    obtain ⟨hv, hvs⟩ := List.forall_mem_cons.mp hpages
    obtain ⟨F₁, h₁, -⟩ := mapUserPage_spec hpool hsep hv hflags
    rcases hr : mapUserPage s p v flags with ⟨_ | _, s₁⟩
    · have hno : (mapUserPage s p v flags).1 = false := by rw [hr]
      rw [Loop.forWhile_cons_false hno] at h
      cases h
    · have hyes : (mapUserPage s p v flags).1 = true := by rw [hr]
      rw [Loop.forWhile_cons_true hyes, hr] at h
      rw [hr] at h₁
      have hrest := ih h₁.pool (h₁.toConserved.separate hsep) hvs h
      have hunion : {a | ∃ w ∈ v :: vs, a ∈ pageOf w} = pageOf v ∪ {a | ∃ w ∈ vs, a ∈ pageOf w} := by
        ext a
        simp
      rw [hunion]
      exact (mapUserPage_added hpool hsep hv hflags hr).trans hrest

/-- The addresses of the pages that meet an interval, from its start rounded down to its end rounded up. -/
def pageSpan (lo hi : ℕ) : Set ℕ := Set.Ico (lo / 4096 * 4096) ((hi + 4095) / 4096 * 4096)

/-- The addresses of the pages between two page boundaries. -/
lemma pagesBetween_addresses {start stop : UInt64} (hstart : start.toNat % 4096 = 0)
    (hstop : stop.toNat % 4096 = 0) :
    {a | ∃ v ∈ pagesBetween start stop, a ∈ pageOf v} = Set.Ico start.toNat stop.toNat := by
  have hlt := stop.toNat_lt
  ext a
  rw [Set.mem_Ico]
  constructor
  · rintro ⟨v, hv, ha⟩
    rw [mem_pagesBetween hstart hstop] at hv
    rw [mem_pageOf] at ha
    omega
  · intro ha
    have hpage : (UInt64.ofNat (a / 4096 * 4096)).toNat = a / 4096 * 4096 :=
      Word.toNat_ofNat_of_lt (by omega)
    refine ⟨UInt64.ofNat (a / 4096 * 4096), ?_, by rw [mem_pageOf]; omega⟩
    rw [mem_pagesBetween hstart hstop]
    omega

lemma mapUserRange_added {base size : UInt64} (hno : base.toNat + size.toNat < 2 ^ 47) (hpool : Pool s F)
    (hsep : Separate s 4 p F) (hflags : (flags ||| pageUser).toNat < 4096)
    (h : mapUserRange s p base size flags = (true, s')) :
    Memory.Added 0 (pageSpan base.toNat (base.toNat + size.toNat)) (s.view p) (s'.view p) := by
  have hsum : (base + size).toNat = base.toNat + size.toNat := Word.toNat_add_of_lt _ _ (by omega)
  have hdown := toNat_alignDown base
  have hup := toNat_alignUp (v := base + size) (by omega)
  have hspan := @pagesBetween_addresses (alignDown base pageSize) (alignUp (base + size) pageSize)
    (by omega) (by omega)
  rw [hdown, hup, hsum] at hspan
  rw [pageSpan, ← hspan]
  exact mapUserPages_added hpool hsep (fun x hx => (mem_mapUserRange_pages hno hx).1) hflags h

/-! ### Copying -/

/-- The `size` source bytes from `first` on. -/
def sourceBytes (src : ℕ → UInt8) (first size : ℕ) : List UInt8 :=
  (List.range size).map fun j => src (first + j)

@[simp] lemma length_sourceBytes (src : ℕ → UInt8) (first size : ℕ) :
    (sourceBytes src first size).length = size := by
  simp [sourceBytes]

lemma sourceBytes_add (src : ℕ → UInt8) (first m n : ℕ) :
    sourceBytes src first (m + n) = sourceBytes src first m ++ sourceBytes src (first + m) n := by
  simp only [sourceBytes, List.range_add, List.map_append, List.map_map]
  congr 1
  refine List.map_congr_left fun j _ => ?_
  rw [Function.comp_apply, Nat.add_assoc]

/-- A chunk that stays on its page. -/
lemma copyChunk_view {src : ℕ → UInt8} {physical : UInt64} {first chunk : ℕ} (hpool : Pool s F)
    (hsep : Separate s 4 p F) (hge : 65536 ≤ v.toNat) (hlt : v.toNat + chunk ≤ 2 ^ 47)
    (hpage : v.toNat % 4096 + chunk ≤ 4096) (ht : vmmTranslate s p v = some physical) :
    (copyChunk src s v physical first chunk).view p =
      (s.view p).store v.toNat (sourceBytes src first chunk) := by
  induction chunk with
  | zero =>
    rw [copyChunk, sourceBytes, List.range_zero, List.map_nil, Memory.store_nil]
  | succ chunk ih =>
    have hprev := ih (by omega) (by omega)
    obtain ⟨htranslate, -, -⟩ := translate_add (k := chunk) (by omega) (by omega) ht
    have hsum : (v + UInt64.ofNat chunk).toNat = v.toNat + chunk := toNat_add_ofNat (by omega)
    -- the chunk so far has changed neither the tree nor the free list
    have hg : Growth ∅ p s (copyChunk src s v physical first chunk) F F := by
      cases chunk with
      | zero => exact .refl hpool
      | succ n => exact copyChunk_growth hpool hsep hge (by omega) (by omega) ht (Nat.succ_pos n)
    have htranslate' := hg.translate (lowerHalf_of_lt (by omega)) htranslate
    have hbyte := view_setByte (b := src (first + chunk)) hg.pool (hg.separate hsep) (by omega) htranslate'
    rw [hsum, hprev] at hbyte
    have hone : sourceBytes src (first + chunk) 1 = [src (first + chunk)] := rfl
    rw [sourceBytes_add, hone, Memory.store_append, length_sourceBytes, ← hbyte]
    rfl

lemma writeProcessMemoryFrom_view {src : ℕ → UInt8} {first size fuel written : ℕ}
    (hge : 65536 ≤ v.toNat) (hlt : v.toNat + size ≤ 2 ^ 47) (hpool : Pool s F) (hsep : Separate s 4 p F)
    (hfuel : size ≤ written + fuel) (hw : written ≤ size)
    (h : writeProcessMemoryFrom src p v first size fuel s written = (true, s')) :
    s'.view p = (s.view p).store (v.toNat + written) (sourceBytes src (first + written) (size - written)) := by
  have hnil : ∀ n, written = size → s.view p =
      (s.view p).store n (sourceBytes src (first + written) (size - written)) := by
    intro n heq
    rw [heq, Nat.sub_self, sourceBytes, List.range_zero, List.map_nil, Memory.store_nil]
  induction fuel generalizing s written with
  | zero =>
    cases h
    exact hnil _ (by omega)
  | succ fuel ih =>
    rw [writeProcessMemoryFrom] at h
    by_cases hless : written < size
    · have haddr : (v + UInt64.ofNat written).toNat = v.toNat + written := toNat_add_ofNat (by omega)
      have hoff : ((v + UInt64.ofNat written) &&& (pageSize - 1)).toNat =
          (v + UInt64.ofNat written).toNat % 4096 := pageOffset_toNat
      simp only [if_pos hless, hoff] at h
      generalize v + UInt64.ofNat written = address at *
      generalize hchunk : min (4096 - address.toNat % 4096) (size - written) = chunk at h
      cases ht : vmmTranslate s p address with
      | none =>
        rw [ht] at h
        cases h
      | some physical =>
        rw [ht] at h
        dsimp only at h
        have hstep : Growth ∅ p s (copyChunk src s address physical (first + written) chunk) F F :=
          copyChunk_growth hpool hsep (by omega) (by omega) (by omega) ht (by omega)
        have hcopy : (copyChunk src s address physical (first + written) chunk).view p =
            (s.view p).store address.toNat (sourceBytes src (first + written) chunk) :=
          copyChunk_view hpool hsep (by omega) (by omega) (by omega) ht
        have hrest := ih hstep.pool (hstep.separate hsep) (by omega) (by omega) h fun n heq => by
          rw [heq, Nat.sub_self, sourceBytes, List.range_zero, List.map_nil, Memory.store_nil]
        have hsplit : size - written = chunk + (size - (written + chunk)) := by omega
        rw [hrest, hcopy, haddr, hsplit, sourceBytes_add, Memory.store_append, length_sourceBytes,
          Nat.add_assoc, Nat.add_assoc]
    · rw [if_neg hless] at h
      cases h
      exact hnil _ (by omega)

/-- A successful copy is a store. -/
lemma writeProcessMemory_view {src : ℕ → UInt8} {first size : ℕ} (hge : 65536 ≤ v.toNat)
    (hlt : v.toNat + size ≤ 2 ^ 47) (hpool : Pool s F) (hsep : Separate s 4 p F)
    (h : writeProcessMemory s p v src first size = (true, s')) :
    s'.view p = (s.view p).store v.toNat (sourceBytes src first size) := by
  have hview := writeProcessMemoryFrom_view hge hlt hpool hsep (by omega) (Nat.zero_le size) h
  rwa [Nat.add_zero, Nat.add_zero, Nat.sub_zero] at hview

end Xbks
