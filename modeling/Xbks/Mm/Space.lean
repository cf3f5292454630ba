import Xbks.Mm.Map

/-!
# User address spaces

The address space behind a PML4 frame: translation of lower-half addresses as a lookup in its tree,
and the relation `Conserves` between memory states that move frames between one tree and the free
list and leave everything else alone.
-/

namespace Xbks

variable {s s' s'' : Mm} {F F' F'' : List UInt64} {p v w : UInt64}

/-! ### Addresses -/

/-- The address is translated through the lower half of a PML4. -/
def LowerHalf (v : UInt64) : Prop := (tableIndex v 39).val < 256

lemma tableIndex_val (sh : UInt64) {k : ℕ} (hsh : sh.toNat = k) (hk : k < 64) :
    (tableIndex v sh).val = v.toNat / 2 ^ k % 512 := by
  have h := Word.toNat_shiftRight_and v sh 0x1ff (w := 9) hsh hk (by decide)
  rw [tableIndex, Fin.val_ofNat, h]
  omega

lemma pageOffset_toNat : (v &&& (pageSize - 1)).toNat = v.toNat % 4096 := by
  have h := Word.toNat_and_mid v (pageSize - 1) (k := 0) (w := 12) (by decide)
  simpa using h

lemma pageOffset_eq_zero : v &&& (pageSize - 1) = 0 ↔ v.toNat % 4096 = 0 := by
  rw [← UInt64.toNat_inj, pageOffset_toNat]
  rfl

lemma lowerHalf_of_lt (h : v.toNat < 2 ^ 47) : LowerHalf v := by
  rw [LowerHalf, tableIndex_val 39 (k := 39) rfl (by norm_num)]
  omega

lemma pathSelected_pathOf (h : LowerHalf v) : PathSelected 4 (pathOf v) := by
  refine ⟨?_, ?_, ?_, ?_, trivial⟩
  · rintro ⟨-, hge⟩
    exact absurd h (by rw [LowerHalf]; omega)
  all_goals
    rintro ⟨hn, -⟩
    exact absurd hn (by decide)

/-- Two addresses take the same path exactly when bits 12 to 47 agree. -/
lemma pathOf_eq_iff : pathOf v = pathOf w ↔ v.toNat / 4096 % 2 ^ 36 = w.toNat / 4096 % 2 ^ 36 := by
  have h₁ := @tableIndex_val v 39 39 rfl (by norm_num)
  have h₂ := @tableIndex_val v 30 30 rfl (by norm_num)
  have h₃ := @tableIndex_val v 21 21 rfl (by norm_num)
  have h₄ := @tableIndex_val v 12 12 rfl (by norm_num)
  have g₁ := @tableIndex_val w 39 39 rfl (by norm_num)
  have g₂ := @tableIndex_val w 30 30 rfl (by norm_num)
  have g₃ := @tableIndex_val w 21 21 rfl (by norm_num)
  have g₄ := @tableIndex_val w 12 12 rfl (by norm_num)
  simp only [pathOf, List.cons.injEq, and_true, Fin.ext_iff]
  rw [h₁, h₂, h₃, h₄, g₁, g₂, g₃, g₄]
  omega

lemma toNat_shiftLeft_index {m : ℕ} (i : Fin 512) (sh : UInt64) (hsh : sh.toNat = m)
    (hm : m ≤ 55) : (UInt64.ofNat i <<< sh).toNat = i.val * 2 ^ m := by
  have hlt : i.val * 2 ^ m < 2 ^ 64 := by
    calc i.val * 2 ^ m < 2 ^ 9 * 2 ^ m := Nat.mul_lt_mul_of_pos_right i.isLt (Nat.two_pow_pos m)
      _ = 2 ^ (9 + m) := (Nat.pow_add 2 9 m).symm
      _ ≤ 2 ^ 64 := Nat.pow_le_pow_right (by norm_num) (by omega)
  rw [UInt64.toNat_shiftLeft, hsh, Nat.mod_eq_of_lt (show m < 64 by omega),
    Word.toNat_ofNat_of_lt (i.isLt.trans (by norm_num)), Nat.shiftLeft_eq, Nat.mod_eq_of_lt hlt]

lemma toNat_joinIndices (i j k l : Fin 512) : (joinIndices i j k l).toNat =
    i.val * 2 ^ 39 + j.val * 2 ^ 30 + k.val * 2 ^ 21 + l.val * 2 ^ 12 := by
  have hi := toNat_shiftLeft_index i 39 (m := 39) rfl (by norm_num)
  have hj := toNat_shiftLeft_index j 30 (m := 30) rfl (by norm_num)
  have hk := toNat_shiftLeft_index k 21 (m := 21) rfl (by norm_num)
  have hl := toNat_shiftLeft_index l 12 (m := 12) rfl (by norm_num)
  have h₁ := Word.toNat_or_of_lt (k := 39) (UInt64.ofNat i <<< 39) (UInt64.ofNat j <<< 30)
    (by omega) (by omega)
  have h₂ := Word.toNat_or_of_lt (k := 30)
    ((UInt64.ofNat i <<< 39) ||| (UInt64.ofNat j <<< 30)) (UInt64.ofNat k <<< 21)
    (by omega) (by omega)
  have h₃ := Word.toNat_or_of_lt (k := 21)
    ((UInt64.ofNat i <<< 39) ||| (UInt64.ofNat j <<< 30) ||| (UInt64.ofNat k <<< 21))
    (UInt64.ofNat l <<< 12) (by omega) (by omega)
  rw [joinIndices, h₃, h₂, h₁, hi, hj, hk, hl]

lemma joinIndices_aligned (i j k l : Fin 512) : (joinIndices i j k l).toNat % 4096 = 0 := by
  rw [toNat_joinIndices]
  omega

/-- The indices of an address put together from indices. -/
lemma pathOf_joinIndices (i j k l : Fin 512) : pathOf (joinIndices i j k l) = [i, j, k, l] := by
  have h := toNat_joinIndices i j k l
  have hi := @tableIndex_val (joinIndices i j k l) 39 39 rfl (by norm_num)
  have hj := @tableIndex_val (joinIndices i j k l) 30 30 rfl (by norm_num)
  have hk := @tableIndex_val (joinIndices i j k l) 21 21 rfl (by norm_num)
  have hl := @tableIndex_val (joinIndices i j k l) 12 12 rfl (by norm_num)
  simp only [pathOf, List.cons.injEq, and_true, Fin.ext_iff]
  omega

lemma joinIndices_lt {i : Fin 512} (hi : i.val < 256) (j k l : Fin 512) :
    (joinIndices i j k l).toNat < 2 ^ 47 := by
  rw [toNat_joinIndices]
  omega

/-! ### Translation -/

/-- One level of `vmmTranslate`: decode the entry and go on in the table it points to. -/
lemma translate_succ {n : ℕ} {t : UInt64} {i : Fin 512} {is : List (Fin 512)} {g : UInt64 → UInt64}
    (f : UInt64 → Option UInt64) (hsel : Selected (n + 1) i)
    (hf : ∀ b, f b = (s.lookup (n + 1) b is).map g) :
    ((presentEntry s t i).bind fun e => f (pageTableFromEntry e)) =
      (s.lookup (n + 2) t (i :: is)).map g := by
  rw [Mm.lookup, Radix.lookup_succ, presentEntry]
  split_ifs with hp
  · rw [(userNext_eq_none_iff hsel).mpr hp]
    rfl
  · rw [userNext_of_present hsel hp]
    exact hf _

lemma translate_one {t : UInt64} {i : Fin 512} {g : UInt64 → UInt64} (hsel : Selected 0 i) :
    ((presentEntry s t i).bind fun e => some (g e)) = (s.lookup 1 t [i]).map g := by
  rw [Mm.lookup, Radix.lookup_one, presentEntry]
  split_ifs with hp
  · rw [(userNext_eq_none_iff hsel).mpr hp]
    rfl
  · rw [userNext_of_present hsel hp]
    rfl

/-- In the lower half `vmmTranslate` reads the entry that the tree holds for the address. -/
theorem vmmTranslate_eq (h : LowerHalf v) : vmmTranslate s p v =
    (s.lookup 4 p (pathOf v)).map fun e => (e &&& addressMask) ||| (v &&& (pageSize - 1)) := by
  obtain ⟨hsel₁, hsel₂, hsel₃, hsel₄, -⟩ := pathSelected_pathOf h
  exact
    translate_succ (fun pdpt => (presentEntry s pdpt (tableIndex v 30)).bind fun e =>
      (presentEntry s (pageTableFromEntry e) (tableIndex v 21)).bind fun e =>
        (presentEntry s (pageTableFromEntry e) (tableIndex v 12)).bind fun e => some _) hsel₁ fun _ =>
    translate_succ (fun pd => (presentEntry s pd (tableIndex v 21)).bind fun e =>
      (presentEntry s (pageTableFromEntry e) (tableIndex v 12)).bind fun e => some _) hsel₂ fun _ =>
    translate_succ (fun pt => (presentEntry s pt (tableIndex v 12)).bind fun e => some _) hsel₃ fun _ =>
    translate_one hsel₄

/-! ### Moving frames between a tree and the free list -/

/-- From `s` with free list `F` to `s'` with free list `F'`, frames have only been moved between the
free list and the tree of `p`; all other frames and the upper half of `p` are as before. -/
structure Conserved (p : UInt64) (s s' : Mm) (F F' : List UInt64) : Prop where
  pool : Pool s' F'
  hhdm : s'.hhdmOffsetValue = s.hhdmOffsetValue
  kernelCr3 : s'.kernelCr3Value = s.kernelCr3Value
  nodes : s'.nodes 4 p + (F' : Multiset UInt64) = s.nodes 4 p + (F : Multiset UInt64)
  frame : ∀ x, x ∉ s.nodes 4 p → x ∉ F → s'.mem x = s.mem x
  upper : ∀ i : Fin 512, 256 ≤ i.val → s'.mem p i = s.mem p i

def Conserves (p : UInt64) (s s' : Mm) : Prop :=
  ∀ F, Pool s F → Separate s 4 p F → ∃ F', Conserved p s s' F F'

lemma Conserved.refl (h : Pool s F) : Conserved p s s F F :=
  ⟨h, rfl, rfl, rfl, fun _ _ _ => rfl, fun _ _ => rfl⟩

lemma Conserved.trans (h : Conserved p s s' F F') (h' : Conserved p s' s'' F' F'') :
    Conserved p s s'' F F'' where
  pool := h'.pool
  hhdm := h'.hhdm.trans h.hhdm
  kernelCr3 := h'.kernelCr3.trans h.kernelCr3
  nodes := h'.nodes.trans h.nodes
  frame := by
    intro x hx hxF
    have hmem : x ∉ s'.nodes 4 p + (F' : Multiset UInt64) := by
      rw [h.nodes, Multiset.mem_add, Multiset.mem_coe, not_or]
      exact ⟨hx, hxF⟩
    rw [Multiset.mem_add, Multiset.mem_coe, not_or] at hmem
    rw [h'.frame x hmem.1 hmem.2, h.frame x hx hxF]
  upper := fun i hi => (h'.upper i hi).trans (h.upper i hi)

lemma Conserved.separate (h : Conserved p s s' F F') (hsep : Separate s 4 p F) :
    Separate s' 4 p F' :=
  hsep.of_eq h.nodes

lemma Conserves.refl (s : Mm) : Conserves p s s := fun F hpool _ => ⟨F, .refl hpool⟩

lemma Conserves.trans (h : Conserves p s s') (h' : Conserves p s' s'') : Conserves p s s'' := by
  intro F hpool hsep
  obtain ⟨F', hF'⟩ := h F hpool hsep
  obtain ⟨F'', hF''⟩ := h' F' hF'.pool (hF'.separate hsep)
  exact ⟨F'', hF'.trans hF''⟩

/-! ### Mapping a frame fresh from the allocator -/

/-- Map the frame `q`, which has just been allocated, and give it back when that fails. -/
def mapOrFree (s : Mm) (p v q flags : UInt64) : Bool × Mm :=
  match vmmMapPage s p v q flags with
  | (true, s) => (true, s)
  | (false, s) => (false, pmmFreeFrame s q)

/-- The effect of allocating `q`, filling it with `page` and mapping it at `v` with `mapOrFree`. -/
structure FreshMap (ok : Bool) (p v q flags : UInt64) (page : Page) (s s' : Mm)
    (F F' : List UInt64) : Prop extends Conserved p s s' F F' where
  lookup : ∀ path, s'.lookup 4 p path =
    if ok = true ∧ path = pathOf v then some (q ||| flags ||| pagePresent) else s.lookup 4 p path
  tables : ∀ x, x ∉ s.tables 4 p → x ∉ F → s'.mem x = s.mem x
  content : ok = true → s'.mem q = page
  used : F.length ≤ F'.length + 4
  fresh : ok = true → s.lookup 4 p (pathOf v) = none
  stuck : ok = false → s.lookup 4 p (pathOf v) ≠ none ∨ F.length ≤ 4
  exhausted : ok = false → s.lookup 4 p (pathOf v) ≠ none ∨ F'.length ≤ 1

variable {q flags : UInt64}

/-- Taking a frame off the free list and writing to it does not change a tree it is not in. -/
lemma take_setPage_tables (page : Page) (hsep : Separate s 4 p (q :: F)) :
    ∀ x ∈ s.tables 4 p, ((s.take q).setPage q page).mem x = s.mem x := by
  intro x hx
  have hxq : x ≠ q := by
    rintro rfl
    exact hsep.notMem (Radix.mem_nodes_of_mem_tables hx) List.mem_cons_self
  rw [setPage_mem_of_ne hxq, take_mem, Function.update_of_ne hxq]

lemma take_setPage_nodes (page : Page) (hsep : Separate s 4 p (q :: F)) :
    ((s.take q).setPage q page).nodes 4 p = s.nodes 4 p :=
  Radix.collect_congr (take_setPage_tables page hsep)

lemma take_setPage_separate (page : Page) (hsep : Separate s 4 p (q :: F)) :
    Separate ((s.take q).setPage q page) 4 p F := by
  rw [Separate, take_setPage_nodes page hsep]
  refine Multiset.nodup_of_le (add_le_add_right ?_ _) hsep
  exact Multiset.coe_le.mpr (List.sublist_cons_self q F).subperm

section Taken

variable {page : Page} {ok : Bool} {s₂ : Mm}

lemma take_setPage_mem {x : UInt64} (hx : x ≠ q) : ((s.take q).setPage q page).mem x = s.mem x := by
  rw [setPage_mem_of_ne hx, take_mem, Function.update_of_ne hx]

/-- Mapping an address of the lower half does not touch the upper half of the PML4. -/
lemma MapEffect.upper (h : MapEffect ok 4 p (pathOf v) (q ||| flags ||| pagePresent) q F F'
    ((s.take q).setPage q page) s₂) (hsep : Separate s 4 p (q :: F)) (hv : LowerHalf v) :
    ∀ i : Fin 512, 256 ≤ i.val → s₂.mem p i = s.mem p i := by
  intro i hi
  have hpq : p ≠ q := fun h => hsep.notMem_of_free List.mem_cons_self (h ▸ Radix.self_mem_nodes)
  rw [h.slots i, take_setPage_mem hpq]
  intro hhead
  have hindex : (tableIndex v 39).val = i.val := by
    simp only [pathOf, List.head?_cons, Option.some.injEq] at hhead
    rw [hhead]
  exact absurd hv (by rw [LowerHalf]; omega)

lemma MapEffect.outside (h : MapEffect ok 4 p (pathOf v) (q ||| flags ||| pagePresent) q F F'
    ((s.take q).setPage q page) s₂) (hsep : Separate s 4 p (q :: F)) {x : UInt64}
    (hx : x ∉ s.tables 4 p) (hxF : x ∉ q :: F) : s₂.mem x = s.mem x := by
  have htables : ((s.take q).setPage q page).tables 4 p = s.tables 4 p :=
    Radix.collect_congr (take_setPage_tables page hsep)
  rw [List.mem_cons, not_or] at hxF
  rw [h.frame x (by rwa [htables]) hxF.2, take_setPage_mem hxF.1]

/-- The frame has been mapped. -/
lemma MapEffect.freshMap_true (h : MapEffect true 4 p (pathOf v) (q ||| flags ||| pagePresent) q F F'
    ((s.take q).setPage q page) s₂) (hpool : Pool s (q :: F)) (hsep : Separate s 4 p (q :: F))
    (hv : LowerHalf v) : FreshMap true p v q flags page s s₂ (q :: F) F' := by
  have htab := take_setPage_tables page hsep
  have hlookup : ∀ path, ((s.take q).setPage q page).lookup 4 p path = s.lookup 4 p path :=
    Radix.lookup_congr htab
  refine
    { pool := h.pool
      hhdm := h.hhdm
      kernelCr3 := h.kernelCr3
      nodes := ?_
      frame := fun x hx => h.outside hsep (fun hin => hx (Radix.mem_nodes_of_mem_tables hin))
      upper := h.upper hsep hv
      lookup := fun path => by rw [h.lookup, hlookup]
      tables := fun x => h.outside hsep
      content := fun _ => ?_
      used := h.used
      fresh := fun _ => by rw [← hlookup]; exact h.fresh rfl
      stuck := by simp
      exhausted := by simp }
  · rw [h.nodes, take_setPage_nodes page hsep, if_pos rfl, ← Multiset.cons_coe, ← Multiset.singleton_add]
    abel
  · have hqt : q ∉ ((s.take q).setPage q page).tables 4 p := by
      intro hin
      have hnode := Radix.mem_nodes_of_mem_tables hin
      rw [show Radix.nodes userNext ((s.take q).setPage q page).mem 4 p = s.nodes 4 p from
        take_setPage_nodes page hsep] at hnode
      exact hsep.notMem_of_free List.mem_cons_self hnode
    rw [h.frame q hqt (List.nodup_cons.mp hpool.nodup).1, setPage_mem_self]

/-- The frame could not be mapped, and goes back to the free list. -/
lemma MapEffect.freshMap_false (h : MapEffect false 4 p (pathOf v) (q ||| flags ||| pagePresent) q F F'
    ((s.take q).setPage q page) s₂) (hpool : Pool s (q :: F)) (hsep : Separate s 4 p (q :: F))
    (hv : LowerHalf v) : FreshMap false p v q flags page s (s₂.put q) (q :: F) (q :: F') := by
  have hqF := (List.nodup_cons.mp hpool.nodup).1
  have hq₂ : IsFrame s₂.hhdmOffsetValue q := by
    rw [h.hhdm]
    exact hpool.frames q List.mem_cons_self
  have hpq : p ≠ q := fun h => hsep.notMem_of_free List.mem_cons_self (h ▸ Radix.self_mem_nodes)
  have htab := take_setPage_tables page hsep
  have hlookup₁ : ∀ path, ((s.take q).setPage q page).lookup 4 p path = s.lookup 4 p path :=
    Radix.lookup_congr htab
  have hnodes : s₂.nodes 4 p + (F' : Multiset UInt64) = s.nodes 4 p + (F : Multiset UInt64) := by
    have hnodes := h.nodes
    rwa [take_setPage_nodes page hsep, if_neg (by simp), add_zero] at hnodes
  -- the tree does not reach the frame, so putting it back changes nothing there
  have hqn₂ : q ∉ s₂.nodes 4 p := by
    have hin : q ∉ s₂.nodes 4 p + (F' : Multiset UInt64) := by
      rw [hnodes]
      simp [hsep.notMem_of_free List.mem_cons_self, hqF]
    exact fun h => hin (Multiset.mem_add.mpr (.inl h))
  have hput : ∀ x ∈ s₂.tables 4 p, (s₂.put q).mem x = s₂.mem x := by
    intro x hx
    refine put_mem_of_ne ?_
    rintro rfl
    exact hqn₂ (Radix.mem_nodes_of_mem_tables hx)
  have hnodes₂ : (s₂.put q).nodes 4 p = s₂.nodes 4 p := Radix.collect_congr hput
  have hlookup₂ : ∀ path, (s₂.put q).lookup 4 p path = s₂.lookup 4 p path := Radix.lookup_congr hput
  have hframe : ∀ x, x ∉ s.tables 4 p → x ∉ q :: F → (s₂.put q).mem x = s.mem x := by
    intro x hx hxF
    have hxq : x ≠ q := fun h => hxF (h ▸ List.mem_cons_self)
    rw [put_mem_of_ne hxq, h.outside hsep hx hxF]
  have hused := h.used
  refine
    { pool := h.pool.put hq₂ fun hin => hqF (h.free q hin)
      hhdm := h.hhdm
      kernelCr3 := h.kernelCr3
      nodes := ?_
      frame := fun x hx hxF => hframe x (fun h => hx (Radix.mem_nodes_of_mem_tables h)) hxF
      upper := fun i hi => by rw [put_mem_of_ne hpq]; exact h.upper hsep hv i hi
      lookup := fun path => by simpa [hlookup₁] using (hlookup₂ path).trans (h.lookup path)
      tables := hframe
      content := by simp
      used := by simp only [List.length_cons] at hused ⊢; omega
      fresh := by simp
      stuck := fun _ => ?_
      exhausted := fun _ => ?_ }
  · rw [hnodes₂, ← Multiset.cons_coe, ← Multiset.cons_coe, Multiset.add_cons, Multiset.add_cons, hnodes]
  · rw [← hlookup₁]
    refine (h.stuck rfl).imp id fun h => ?_
    rw [h] at hused
    simpa using hused
  · rw [← hlookup₁]
    refine (h.stuck rfl).imp id fun h => ?_
    rw [h, List.length_singleton]

end Taken

lemma freshMap_spec (page : Page) (hpool : Pool s (q :: F)) (hsep : Separate s 4 p (q :: F))
    (hv : LowerHalf v) (hal : v.toNat % 4096 = 0) (hflags : flags.toNat < 4096) :
    ∃ F', FreshMap (mapOrFree ((s.take q).setPage q page) p v q flags).1 p v q flags page s
      (mapOrFree ((s.take q).setPage q page) p v q flags).2 (q :: F) F' := by
  have hq := hpool.frames q List.mem_cons_self
  have hqF := (List.nodup_cons.mp hpool.nodup).1
  have he : ∀ i, userNext 0 i (q ||| flags ||| pagePresent) = some q := fun i =>
    userNext_leafEntry (s := s) hq hflags (by simp [Selected])
  obtain ⟨F', hmap⟩ := mapBelow_spec (hpool.take.setPage hqF) (take_setPage_separate page hsep)
    (pathSelected_pathOf hv) hflags he
  rw [← vmmMapPage_eq (pageOffset_eq_zero.mpr hal) (pageOffset_eq_zero.mpr hq.aligned)] at hmap
  rw [mapOrFree]
  rcases hr : vmmMapPage ((s.take q).setPage q page) p v q flags with ⟨ok, s₂⟩
  rw [hr] at hmap
  cases ok with
  | true => exact ⟨F', hmap.freshMap_true hpool hsep hv⟩
  | false =>
    have hq₂ : IsFrame s₂.hhdmOffsetValue q := by
      rw [hmap.hhdm]
      exact hq
    dsimp only
    rw [pmmFreeFrame_eq hq₂]
    exact ⟨q :: F', hmap.freshMap_false hpool hsep hv⟩

/-- Allocate a frame, fill it and map it. -/
def mapNew (s : Mm) (p v flags : UInt64) (content : Mm → Page) : Bool × Mm :=
  match pmmAllocFrame s with
  | (q, s) => if q = 0 then (false, s) else mapOrFree (s.setPage q (content s)) p v q flags

/-- The effect of `mapNew`. Nothing happens when no frame is left. -/
theorem mapNew_spec (content : Mm → Page) (hpool : Pool s F) (hsep : Separate s 4 p F)
    (hv : LowerHalf v) (hal : v.toNat % 4096 = 0) (hflags : flags.toNat < 4096) :
    ∃ q page F', FreshMap (mapNew s p v flags content).1 p v q flags page s
      (mapNew s p v flags content).2 F F' ∧
      ((mapNew s p v flags content).1 = true → q ∈ F ∧ page = content (s.take q)) := by
  match F, hpool, hsep with
  | [], hpool, _ =>
    have hnew : mapNew s p v flags content = (false, s) := by simp [mapNew, hpool.alloc_nil]
    rw [hnew]
    refine ⟨0, zeroPage, [], ?_, by simp⟩
    exact
      { toConserved := .refl hpool
        lookup := by simp
        tables := fun _ _ _ => rfl
        content := by simp
        used := by simp
        fresh := by simp
        stuck := fun _ => .inr (by simp)
        exhausted := fun _ => .inr (by simp) }
  | q :: F, hpool, hsep =>
    have hq := hpool.frames q List.mem_cons_self
    have hnew : mapNew s p v flags content =
        mapOrFree ((s.take q).setPage q (content (s.take q))) p v q flags := by
      simp [mapNew, hpool.alloc_cons, hq.ne_zero]
    rw [hnew]
    obtain ⟨F', h⟩ := freshMap_spec (content (s.take q)) hpool hsep hv hal hflags
    exact ⟨q, _, F', h, fun _ => ⟨List.mem_cons_self, rfl⟩⟩

end Xbks
