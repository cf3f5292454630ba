import Mathlib.Data.Option.Basic
import Mathlib.Data.Set.Insert
import Xbks.Mm.Destroy

/-!
# Copying an address space

`vmmCloneUserSpace` gives the destination a fresh frame for every page of the source, with the same
flags and content. `Cloning` describes the state in the middle of its loops: the pages on the paths
in `done` have been copied. The four loops have one shape and are covered by one lemma.
-/

namespace Xbks

/-- The entry `e'` in `s` shows what the entry `e` showed in `s₀`. -/
structure CopyOf (s₀ s : Mm) (e e' : UInt64) : Prop where
  flags : clonePageFlags e' = clonePageFlags e
  content : s.mem (pageTableFromEntry e') = s₀.mem (pageTableFromEntry e)

/-- The pages of `src` on the paths in `done`, `count` of them present, have been copied to `dst`. -/
structure Cloning (src dst : UInt64) (s₀ : Mm) (F₀ : List UInt64) (done : Set (List (Fin 512)))
    (count : ℕ) (s : Mm) (F : List UInt64) : Prop extends Conserved dst s₀ s F₀ F where
  copied : ∀ path ∈ done, Option.Rel (CopyOf s₀ s) (s₀.lookup 4 src path) (s.lookup 4 dst path)
  rest : ∀ path ∉ done, s.lookup 4 dst path = none
  used : F₀.length ≤ F.length + 4 * count

/-- How a loop of `vmmCloneUserSpace` ends that was to copy the paths in `done`. -/
def CloneEnds (src dst : UInt64) (s₀ : Mm) (F₀ : List UInt64) (done : Set (List (Fin 512)))
    (count : ℕ) (r : Bool × Mm) : Prop :=
  ∃ F, Conserved dst s₀ r.2 F₀ F ∧ (r.1 = true → Cloning src dst s₀ F₀ done count r.2 F) ∧
    (r.1 = false → F₀.length ≤ 4 * count ∧ F.length ≤ 1)

/-- A loop below the prefix `pre` of a path copies everything there, `cost` pages at most. -/
def Clones (src dst : UInt64) (s₀ : Mm) (F₀ : List UInt64) (pre : List (Fin 512)) (cost : ℕ)
    (body : Mm → Bool × Mm) : Prop :=
  ∀ done count s F, Cloning src dst s₀ F₀ done count s F → (∀ path ∈ done, ¬pre <+: path) →
    CloneEnds src dst s₀ F₀ (done ∪ {path | pre <+: path}) (count + cost) (body s)

variable {src dst : UInt64} {s₀ s : Mm} {F₀ F : List UInt64} {done done' : Set (List (Fin 512))}
  {count n : ℕ} {pre : List (Fin 512)} {t : UInt64}

/-- Paths that lead nowhere in the source need no copying. -/
lemma Cloning.skip (h : Cloning src dst s₀ F₀ done count s F) (hsub : done ⊆ done')
    (hnone : ∀ path ∈ done', path ∉ done → s₀.lookup 4 src path = none) :
    Cloning src dst s₀ F₀ done' count s F where
  toConserved := h.toConserved
  copied := by
    intro path hpath
    by_cases hd : path ∈ done
    · exact h.copied path hd
    · rw [hnone path hpath hd, h.rest path hd]
      exact .none
  rest := fun path hpath => h.rest path fun hd => hpath (hsub hd)
  used := h.used

section

variable (hsep : (s₀.nodes 4 src + (s₀.nodes 4 dst + (F₀ : Multiset UInt64))).Nodup)
include hsep

/-- The source's frames are not touched. -/
lemma Cloning.source_unchanged (h : Cloning src dst s₀ F₀ done count s F) {x : UInt64}
    (hx : x ∈ s₀.nodes 4 src) : s.mem x = s₀.mem x := by
  have hnot := Multiset.disjoint_left.mp (Multiset.nodup_add.mp hsep).2.2 hx
  rw [Multiset.mem_add, Multiset.mem_coe, not_or] at hnot
  exact h.frame x hnot.1 hnot.2

lemma Cloning.separate (h : Cloning src dst s₀ F₀ done count s F) : Separate s 4 dst F :=
  h.toConserved.separate (Multiset.nodup_add.mp hsep).2.1

end

/-! ### One page -/

lemma clonePageFlags_lt (e : UInt64) : (clonePageFlags e).toNat < 4096 := by
  have h := Word.toNat_and_mid e 0xfff (k := 0) (w := 12) (by decide)
  simp only [pow_zero, Nat.div_one, mul_one] at h
  rw [clonePageFlags, h]
  omega

lemma toNat_clonePageFlags (e : UInt64) : (clonePageFlags e).toNat = e.toNat % 4096 := by
  have h := Word.toNat_and_mid e 0xfff (k := 0) (w := 12) (by decide)
  simpa [clonePageFlags] using h

/-- Setting the present bit of an odd number changes nothing. -/
lemma or_pagePresent {e : UInt64} (h : e.toNat % 2 = 1) : e ||| pagePresent = e := by
  rw [← UInt64.toNat_inj, UInt64.toNat_or]
  apply Nat.eq_of_testBit_eq
  intro i
  rw [Nat.testBit_or, show pagePresent.toNat = 1 from rfl]
  cases i with
  | zero => simp [Nat.testBit_zero, h]
  | succ i => simp [Nat.testBit_succ]

/-- The flags of the entry that a copy gets. -/
lemma clonePageFlags_copy {q e : UInt64} (hq : q.toNat % 4096 = 0)
    (he : e &&& pagePresent ≠ 0) :
    clonePageFlags (q ||| clonePageFlags e ||| pagePresent) = clonePageFlags e := by
  have hodd : e.toNat % 2 = 1 := by
    rw [ne_eq, Word.and_one_eq_zero] at he
    omega
  have hflags := toNat_clonePageFlags e
  rw [UInt64.or_assoc, or_pagePresent (by omega), ← UInt64.toNat_inj, toNat_clonePageFlags,
    Word.toNat_or_of_lt (k := 12) _ _ hq (clonePageFlags_lt e)]
  omega

/-- The number of pages below slot `i` of a table of height `n + 1`. -/
def slotCost (s₀ : Mm) (n : ℕ) (t : UInt64) (i : Fin 512) : ℕ :=
  (userNext n i (s₀.mem t i)).elim 0 fun b => (s₀.leaves n b).card

lemma prefix_index_unique {pre path : List (Fin 512)} {i j : Fin 512} (hi : pre ++ [i] <+: path)
    (hj : pre ++ [j] <+: path) : i = j := by
  have h := List.prefix_of_prefix_length_le hi hj (by simp)
  have h := List.IsPrefix.eq_of_length h (by simp)
  simpa using h

/-- Below the user limit the innermost loop is a loop over entries as well. -/
lemma forWhile_clonePage {i : Fin 512} (hi : i.val < 256) (j k : Fin 512) (pt : UInt64) (s : Mm) :
    Loop.forWhile (clonePage dst userTop i j k pt) s (List.finRange 512) =
      forPresent pt (List.finRange 512) (fun l _ s =>
        mapNew s dst (joinIndices i j k l) (clonePageFlags (s.mem pt l)) fun s₁ =>
          s₁.mem (pageTableFromEntry (s.mem pt l))) s := by
  have hbody : clonePage dst userTop i j k pt = fun s l =>
      if s.mem pt l &&& pagePresent = 0 then (true, s)
      else mapNew s dst (joinIndices i j k l) (clonePageFlags (s.mem pt l)) fun s₁ =>
        s₁.mem (pageTableFromEntry (s.mem pt l)) := by
    funext s l
    have hlt : ¬joinIndices i j k l ≥ userTop := by
      rw [ge_iff_le, UInt64.not_le, UInt64.lt_iff_toNat_lt]
      exact joinIndices_lt hi j k l
    simp only [clonePage, if_neg hlt, mapNew, mapOrFree]
    rfl
  rw [hbody]
  rfl

section

variable (hsep : (s₀.nodes 4 src + (s₀.nodes 4 dst + (F₀ : Multiset UInt64))).Nodup)
include hsep

/-- A page copied earlier stays as it is when another one is mapped. -/
lemma Cloning.copied_of_map {ok : Bool} {v q flags : UInt64} {page : Page} {s' : Mm}
    {F' : List UInt64} (h : Cloning src dst s₀ F₀ done count s F)
    (hmap : FreshMap ok dst v q flags page s s' F F') {path : List (Fin 512)} (hpath : path ∈ done)
    (hne : path ≠ pathOf v) :
    Option.Rel (CopyOf s₀ s') (s₀.lookup 4 src path) (s'.lookup 4 dst path) := by
  rw [hmap.lookup, if_neg fun h => hne h.2]
  have hcopy := h.copied path hpath
  cases hd : s.lookup 4 dst path with
  | none =>
    rw [hd] at hcopy
    cases hs : s₀.lookup 4 src path with
    | none => exact .none
    | some e => rw [hs] at hcopy; cases hcopy
  | some e' =>
    obtain ⟨i, b, hb, hleaf⟩ := Radix.lookup_leaf hd
    obtain ⟨-, -, rfl⟩ := userNext_eq_some hb
    have hsep' := h.separate hsep
    have hmem : s'.mem (pageTableFromEntry e') = s.mem (pageTableFromEntry e') :=
      hmap.tables _ (Radix.notMem_tables_of_mem_leaves hsep'.nodes hleaf)
        (hsep'.notMem (Radix.mem_nodes_of_mem_leaves hleaf))
    rw [hd] at hcopy
    cases hs : s₀.lookup 4 src path with
    | none => rw [hs] at hcopy; cases hcopy
    | some e =>
      rw [hs] at hcopy
      cases hcopy with
      | some hcopy => exact .some ⟨hcopy.flags, hmem.trans hcopy.content⟩

/-- The innermost step: a fresh frame with the content of the source's page is mapped. -/
lemma clones_page {v pt : UInt64} {l : Fin 512} (hv : LowerHalf v) (hal : v.toNat % 4096 = 0)
    (hpt : pt ∈ s₀.nodes 4 src) (he : s₀.lookup 4 src (pathOf v) = some (s₀.mem pt l)) :
    Clones src dst s₀ F₀ (pathOf v) 1 fun s =>
      mapNew s dst v (clonePageFlags (s.mem pt l)) fun s₁ =>
        s₁.mem (pageTableFromEntry (s.mem pt l)) := by
  intro done count s F h hnew
  have hsep' := h.separate hsep
  have hvdone : pathOf v ∉ done := fun hd => hnew _ hd (List.prefix_refl _)
  have hent : s.mem pt l = s₀.mem pt l := by rw [h.source_unchanged hsep hpt]
  obtain ⟨i, b, hb, hleaf⟩ := Radix.lookup_leaf he
  obtain ⟨-, hpres, rfl⟩ := userNext_eq_some hb
  have hleafn : pageTableFromEntry (s₀.mem pt l) ∈ s₀.nodes 4 src :=
    Radix.mem_nodes_of_mem_leaves hleaf
  simp only [hent]
  obtain ⟨q, page, F', hmap, hq⟩ := mapNew_spec
    (fun s₁ => s₁.mem (pageTableFromEntry (s₀.mem pt l))) h.pool hsep' hv hal
    (clonePageFlags_lt (s₀.mem pt l))
  generalize hr : mapNew s dst v (clonePageFlags (s₀.mem pt l)) (fun s₁ =>
    s₁.mem (pageTableFromEntry (s₀.mem pt l))) = r at *
  refine ⟨F', h.toConserved.trans hmap.toConserved, fun hok => ?_, fun hok => ?_⟩
  · obtain ⟨hqF, hpage⟩ := hq hok
    have hqframe := h.pool.frames q hqF
    refine ⟨h.toConserved.trans hmap.toConserved, fun path hpath => ?_, fun path hpath => ?_, ?_⟩
    · by_cases hpv : path = pathOf v
      · subst hpv
        rw [he, hmap.lookup, if_pos ⟨hok, rfl⟩]
        refine .some ⟨clonePageFlags_copy hqframe.aligned hpres, ?_⟩
        have hdec := userNext_leafEntry (n := 0) (i := l) hqframe
          (clonePageFlags_lt (s₀.mem pt l)) (by simp [Selected])
        obtain ⟨-, -, hdec⟩ := userNext_eq_some hdec
        have hne : pageTableFromEntry (s₀.mem pt l) ≠ q := by
          intro heq
          have hnot := Multiset.disjoint_left.mp (Multiset.nodup_add.mp hsep).2.2 hleafn
          rw [← h.nodes, heq] at hnot
          exact hnot (Multiset.mem_add.mpr (.inr (Multiset.mem_coe.mpr hqF)))
        rw [← hdec, hmap.content hok, hpage, take_mem, Function.update_of_ne hne,
          h.source_unchanged hsep hleafn]
      · rcases hpath with hpath | hpath
        · exact h.copied_of_map hsep hmap hpath hpv
        · -- a longer path leads nowhere
          have hd : path ∉ done := fun hd => hnew path hd hpath
          rw [hmap.lookup, if_neg fun h => hpv h.2, h.rest path hd]
          cases hs : s₀.lookup 4 src path with
          | none => exact .none
          | some e =>
            have hlen := Radix.length_of_lookup hs
            exact absurd (List.IsPrefix.eq_of_length hpath (by rw [hlen]; rfl)).symm hpv
    · rw [Set.mem_union, not_or] at hpath
      have hpv : path ≠ pathOf v := by
        rintro rfl
        exact hpath.2 (List.prefix_refl _)
      rw [hmap.lookup, if_neg fun h => hpv h.2, h.rest path hpath.1]
    · have h₁ := h.used
      have h₂ := hmap.used
      omega
  · have h₁ := h.used
    have h₂ := (hmap.stuck hok).resolve_left fun hne => hne (h.rest _ hvdone)
    have h₃ := (hmap.exhausted hok).resolve_left fun hne => hne (h.rest _ hvdone)
    exact ⟨by omega, h₃⟩

/-! ### The loops -/

variable {indices : List (Fin 512)} {body : Fin 512 → UInt64 → Mm → Bool × Mm}

/-- The loop over some slots of a table of height `n + 1`, by induction on the slots. -/
lemma forPresent_ends (ht : t ∈ s₀.nodes 4 src)
    (hlink : ∀ path, s₀.lookup 4 src (pre ++ path) = s₀.lookup (n + 1) t path)
    (hsel : ∀ i ∈ indices, Selected n i) (hnd : indices.Nodup)
    (hbody : ∀ i ∈ indices, ∀ b, userNext n i (s₀.mem t i) = some b →
      Clones src dst s₀ F₀ (pre ++ [i]) (s₀.leaves n b).card (body i b))
    (h : Cloning src dst s₀ F₀ done count s F)
    (hnew : ∀ path ∈ done, ∀ i ∈ indices, ¬pre ++ [i] <+: path) :
    CloneEnds src dst s₀ F₀ (done ∪ {path | ∃ i ∈ indices, pre ++ [i] <+: path})
      (count + (indices.map (slotCost s₀ n t)).sum) (forPresent t indices body s) := by
  induction indices generalizing done count s F with
  | nil =>
    refine ⟨F, h.toConserved, fun _ => ?_, fun hf => absurd hf (by simp [forPresent])⟩
    simpa [forPresent] using h
  | cons i is ih =>
    obtain ⟨his, hnd⟩ := List.nodup_cons.mp hnd
    have hseli := hsel i List.mem_cons_self
    have hmem : s.mem t i = s₀.mem t i := by rw [h.source_unchanged hsep ht]
    have hset : done ∪ {path | ∃ j ∈ i :: is, pre ++ [j] <+: path} =
        done ∪ {path | pre ++ [i] <+: path} ∪ {path | ∃ j ∈ is, pre ++ [j] <+: path} := by
      ext path
      simp [or_assoc]
    have hnew₁ : ∀ path ∈ done ∪ {path | pre ++ [i] <+: path}, ∀ j ∈ is, ¬pre ++ [j] <+: path := by
      rintro path (hd | hi) j hj hpre
      · exact hnew path hd j (List.mem_cons_of_mem i hj) hpre
      · exact his (prefix_index_unique hi hpre ▸ hj)
    have hrest := fun {done count s F} => @ih done count s F
      (fun j hj => hsel j (List.mem_cons_of_mem i hj)) hnd
      fun j hj => hbody j (List.mem_cons_of_mem i hj)
    rw [hset, List.map_cons, List.sum_cons, ← add_assoc]
    by_cases hp : s.mem t i &&& pagePresent = 0
    · have hnone : userNext n i (s₀.mem t i) = none := by
        rw [← hmem]
        exact (userNext_eq_none_iff hseli).mpr hp
      have hloop : forPresent t (i :: is) body s = forPresent t is body s := by
        simp [forPresent, Loop.forWhile, hp]
      rw [hloop, slotCost, hnone, Option.elim_none, add_zero]
      refine hrest (h.skip Set.subset_union_left ?_) hnew₁
      rintro path (hd | ⟨rest, rfl⟩) hd'
      · exact absurd hd hd'
      · rw [List.append_assoc, hlink]
        cases n with
        | zero =>
          cases rest with
          | nil => simp [hnone]
          | cons j rest => rfl
        | succ n => simp [hnone]
    · have hb : userNext n i (s₀.mem t i) = some (pageTableFromEntry (s.mem t i)) := by
        rw [← hmem]
        exact userNext_of_present hseli hp
      have hcost : slotCost s₀ n t i = (s₀.leaves n (pageTableFromEntry (s.mem t i))).card := by
        rw [slotCost, hb, Option.elim_some]
      obtain ⟨F₁, hcons, htrue, hfalse⟩ := hbody i List.mem_cons_self _ hb _ _ _ _ h
        fun path hd => hnew path hd i List.mem_cons_self
      rw [hcost]
      rcases hr : body i (pageTableFromEntry (s.mem t i)) s with ⟨ok, s₁⟩
      rw [hr] at hcons htrue hfalse
      cases ok with
      | true =>
        have hloop : forPresent t (i :: is) body s = forPresent t is body s₁ := by
          simp [forPresent, Loop.forWhile, hp, hr]
        rw [hloop]
        exact hrest (htrue rfl) hnew₁
      | false =>
        have hloop : forPresent t (i :: is) body s = (false, s₁) := by
          simp [forPresent, Loop.forWhile, hp, hr]
        rw [hloop]
        obtain ⟨hfew, hlast⟩ := hfalse rfl
        refine ⟨F₁, hcons, by simp, fun _ => ⟨hfew.trans ?_, hlast⟩⟩
        omega

/-- The loop over all slots of a table of height `n + 1`. -/
lemma forPresent_clones (ht : t ∈ s₀.nodes 4 src)
    (hlink : ∀ path, s₀.lookup 4 src (pre ++ path) = s₀.lookup (n + 1) t path)
    (hsel : ∀ i, i ∈ indices ↔ Selected n i) (hnd : indices.Nodup)
    (hbody : ∀ i ∈ indices, ∀ b, userNext n i (s₀.mem t i) = some b →
      Clones src dst s₀ F₀ (pre ++ [i]) (s₀.leaves n b).card (body i b)) :
    Clones src dst s₀ F₀ pre (s₀.leaves (n + 1) t).card (forPresent t indices body) := by
  intro done count s F h hnew
  have hnew' : ∀ path ∈ done, ∀ i ∈ indices, ¬pre ++ [i] <+: path := fun path hd i _ hpre =>
    hnew path hd ((List.prefix_append pre [i]).trans hpre)
  have hcost : (indices.map (slotCost s₀ n t)).sum ≤ (s₀.leaves (n + 1) t).card := by
    rw [Radix.card_leaves_succ, ← List.sum_toFinset _ hnd]
    exact Finset.sum_le_univ_sum_of_nonneg fun _ => Nat.zero_le _
  obtain ⟨F₁, hcons, htrue, hfalse⟩ :=
    forPresent_ends hsep ht hlink (fun i hi => (hsel i).mp hi) hnd hbody h hnew'
  refine ⟨F₁, hcons, fun hok => ?_, fun hok => ⟨(hfalse hok).1.trans (by omega), (hfalse hok).2⟩⟩
  have hc : Cloning src dst s₀ F₀ (done ∪ {path | pre <+: path}) _ _ F₁ := (htrue hok).skip ?_ ?_
  · exact ⟨hc.toConserved, hc.copied, hc.rest, hc.used.trans (by omega)⟩
  · refine Set.union_subset_union_right done ?_
    rintro path ⟨i, -, hpre⟩
    exact (List.prefix_append pre [i]).trans hpre
  · rintro path (hd | ⟨rest, rfl⟩) hnot
    · exact absurd (Or.inl hd) hnot
    · rw [hlink]
      cases rest with
      | nil => exact Radix.lookup_nil
      | cons i is =>
        have hi : i ∉ indices := by
          intro hi
          refine hnot (.inr ⟨i, hi, ?_⟩)
          exact ⟨is, by simp⟩
        have hnone : userNext n i (s₀.mem t i) = none := by
          have hsel' : n = 3 ∧ 256 ≤ i.val := not_not.mp fun hs => hi ((hsel i).mpr hs)
          rw [userNext, if_pos hsel']
        cases n with
        | zero =>
          cases is with
          | nil => simp [hnone]
          | cons j is => rfl
        | succ n => simp [hnone]

/-- The innermost loop, below a page table. -/
lemma clones_pt {i j k : Fin 512} (hi : i.val < 256) {pt : UInt64} (ht : pt ∈ s₀.nodes 4 src)
    (hlink : ∀ path, s₀.lookup 4 src ([i, j, k] ++ path) = s₀.lookup 1 pt path) :
    Clones src dst s₀ F₀ [i, j, k] (s₀.leaves 1 pt).card fun s =>
      Loop.forWhile (clonePage dst userTop i j k pt) s (List.finRange 512) := by
  simp only [forWhile_clonePage hi]
  refine forPresent_clones hsep ht hlink (fun l => ?_) (List.nodup_finRange 512) fun l _ b hb => ?_
  · simp [Selected]
  · have hpath : [i, j, k] ++ [l] = pathOf (joinIndices i j k l) := (pathOf_joinIndices i j k l).symm
    have hcard : (s₀.leaves 0 b).card = 1 := by simp
    rw [hpath, hcard]
    refine clones_page hsep (lowerHalf_of_lt (joinIndices_lt hi j k l)) (joinIndices_aligned i j k l)
      ht ?_
    rw [← hpath, hlink, Mm.lookup, Radix.lookup_one, hb]
    rfl

/-- The three outer loops. -/
lemma clones_root : Clones src dst s₀ F₀ [] (s₀.leaves 4 src).card fun s =>
    vmmCloneUserSpace s src dst userTop := by
  refine forPresent_clones hsep (n := 3) Radix.self_mem_nodes (fun _ => rfl)
    (fun _ => mem_lowerIndices_iff) nodup_lowerIndices fun i hi pdpt hpdpt => ?_
  have hpdpt' : pdpt ∈ s₀.nodes 4 src := Radix.mem_nodes_of_child hpdpt Radix.self_mem_nodes
  refine forPresent_clones hsep (n := 2) hpdpt' (fun path => ?_) (fun j => ?_)
    (List.nodup_finRange 512) fun j _ pd hpd => ?_
  · exact (Radix.lookup_succ path).trans (by rw [hpdpt]; rfl)
  · simp [Selected]
  have hpd' : pd ∈ s₀.nodes 4 src :=
    Radix.mem_nodes_of_child hpdpt (Radix.mem_nodes_of_child hpd Radix.self_mem_nodes)
  refine forPresent_clones hsep (n := 1) hpd' (fun path => ?_) (fun k => ?_)
    (List.nodup_finRange 512) fun k _ pt hpt => ?_
  · refine (Radix.lookup_succ (j :: path)).trans ?_
    rw [hpdpt]
    exact (Radix.lookup_succ path).trans (by rw [hpd]; rfl)
  · simp [Selected]
  refine clones_pt hsep (mem_lowerIndices.mp hi) ?_ fun path => ?_
  · exact Radix.mem_nodes_of_child hpdpt
      (Radix.mem_nodes_of_child hpd (Radix.mem_nodes_of_child hpt Radix.self_mem_nodes))
  · refine (Radix.lookup_succ (j :: k :: path)).trans ?_
    rw [hpdpt]
    refine (Radix.lookup_succ (k :: path)).trans ?_
    rw [hpd]
    exact (Radix.lookup_succ path).trans (by rw [hpt]; rfl)

/-- Cloning into an empty address space moves frames from the free list to the destination and
nothing else. When it succeeds every page has been copied; it fails only for want of frames. -/
theorem vmmCloneUserSpace_spec (hpool : Pool s₀ F₀) (hempty : ∀ path, s₀.lookup 4 dst path = none) :
    ∃ F, Conserved dst s₀ (vmmCloneUserSpace s₀ src dst userTop).2 F₀ F ∧
      ((vmmCloneUserSpace s₀ src dst userTop).1 = true →
        ∀ path, Option.Rel (CopyOf s₀ (vmmCloneUserSpace s₀ src dst userTop).2)
          (s₀.lookup 4 src path) ((vmmCloneUserSpace s₀ src dst userTop).2.lookup 4 dst path)) ∧
      ((vmmCloneUserSpace s₀ src dst userTop).1 = true →
        F₀.length ≤ F.length + 4 * (s₀.leaves 4 src).card) ∧
      ((vmmCloneUserSpace s₀ src dst userTop).1 = false →
        F₀.length ≤ 4 * (s₀.leaves 4 src).card ∧ F.length ≤ 1) := by
  have hstart : Cloning src dst s₀ F₀ ∅ 0 s₀ F₀ :=
    ⟨.refl hpool, by simp, fun path _ => hempty path, by simp⟩
  have hends := clones_root hsep ∅ 0 s₀ F₀ hstart (by simp)
  beta_reduce at hends
  generalize vmmCloneUserSpace s₀ src dst userTop = r at *
  obtain ⟨F, hcons, htrue, hfalse⟩ := hends
  refine ⟨F, hcons, fun hok path => (htrue hok).copied path (by simp), fun hok => ?_, fun hok => ?_⟩
  · simpa using (htrue hok).used
  · simpa using hfalse hok

end

end Xbks
