import Xbks.Mm.Space

/-!
# Tearing down an address space

`vmmDestroyUserSpace` moves every frame of a tree to the free list. The loops over the four levels
have one shape, so one lemma, `destroyEntries_spec`, is applied three times; the innermost loop is
the case in which there is nothing below an entry to tear down.
-/

namespace Xbks

variable {s s' : Mm} {F F' : List UInt64} {n : ℕ} {t b p : UInt64} {i : Fin 512}

/-- Everything below the root `t` of a tree of height `n` has been moved to the free list. -/
structure Cleared (n : ℕ) (t : UInt64) (s s' : Mm) (F F' : List UInt64) : Prop where
  pool : Pool s' F'
  hhdm : s'.hhdmOffsetValue = s.hhdmOffsetValue
  kernelCr3 : s'.kernelCr3Value = s.kernelCr3Value
  nodes : s'.nodes n t + (F' : Multiset UInt64) = s.nodes n t + (F : Multiset UInt64)
  empty : s'.nodes n t = {t}
  frame : ∀ x ∉ s.nodes n t, s'.mem x = s.mem x

/-- The loop over the entries of a table of height `n + 1`, after some iterations. -/
structure Clearing (n : ℕ) (t : UInt64) (s s' : Mm) (F F' : List UInt64) : Prop where
  pool : Pool s' F'
  hhdm : s'.hhdmOffsetValue = s.hhdmOffsetValue
  kernelCr3 : s'.kernelCr3Value = s.kernelCr3Value
  nodes : s'.nodes (n + 1) t + (F' : Multiset UInt64) = s.nodes (n + 1) t + (F : Multiset UInt64)
  shrinks : s'.nodes (n + 1) t ≤ s.nodes (n + 1) t
  frame : ∀ x ∉ s.nodes (n + 1) t, s'.mem x = s.mem x
  keeps : ∀ j, userNext n j (s.mem t j) = none → userNext n j (s'.mem t j) = none

lemma Clearing.refl (h : Pool s F) : Clearing n t s s F F :=
  ⟨h, rfl, rfl, rfl, le_refl _, fun _ _ => rfl, fun _ hj => hj⟩

lemma Clearing.trans {s'' : Mm} {F'' : List UInt64} (h : Clearing n t s s' F F')
    (h' : Clearing n t s' s'' F' F'') : Clearing n t s s'' F F'' where
  pool := h'.pool
  hhdm := h'.hhdm.trans h.hhdm
  kernelCr3 := h'.kernelCr3.trans h.kernelCr3
  nodes := h'.nodes.trans h.nodes
  shrinks := h'.shrinks.trans h.shrinks
  frame := fun x hx => by
    rw [h'.frame x fun h'' => hx (Multiset.mem_of_le h.shrinks h''), h.frame x hx]
  keeps := fun j hj => h'.keeps j (h.keeps j hj)

/-- What tearing down below one entry has to achieve: the body of the loop, at the table `b`. -/
def ClearsBelow (n : ℕ) (body : UInt64 → Mm → Mm) : Prop :=
  ∀ (b : UInt64) (s : Mm) (F : List UInt64), Pool s F → Separate s n b F →
    (∀ x ∈ s.nodes n b, IsFrame s.hhdmOffsetValue x) → ∃ F', Cleared n b s (body b s) F F'

/-- Nothing is below a leaf. -/
lemma clearsBelow_zero : ClearsBelow 0 fun _ s => s := by
  intro b s F hpool _ _
  exact ⟨F, hpool, rfl, rfl, rfl, by simp, fun _ _ => rfl⟩

/-- One iteration: tear down what entry `i` points to, then free and clear the entry. -/
lemma clearing_entry {body : UInt64 → Mm → Mm} (hbody : ClearsBelow n body) (hpool : Pool s F)
    (hsep : Separate s (n + 1) t F)
    (hframes : ∀ x ∈ s.nodes (n + 1) t, IsFrame s.hhdmOffsetValue x) (hsel : Selected n i)
    (hp : s.mem t i &&& pagePresent ≠ 0) :
    ∃ s₁ F', body (pageTableFromEntry (s.mem t i)) s = s₁ ∧
      Clearing n t s ((pmmFreeFrame s₁ (s₁.mem t i &&& addressMask)).setEntry t i 0) F F' ∧
      ((pmmFreeFrame s₁ (s₁.mem t i &&& addressMask)).setEntry t i 0).mem t i = 0 ∧
      s₁.mem t i &&& addressMask = pageTableFromEntry (s.mem t i) ∧
      ((pmmFreeFrame s₁ (s₁.mem t i &&& addressMask)).setEntry t i 0).nodes (n + 1) t +
        s.nodes n (pageTableFromEntry (s.mem t i)) = s.nodes (n + 1) t := by
  set b := pageTableFromEntry (s.mem t i) with hb
  have hchild : userNext n i (s.mem t i) = some b := userNext_of_present hsel hp
  have hbn : b ∈ s.nodes (n + 1) t := Radix.mem_nodes_of_child hchild Radix.self_mem_nodes
  have htb : t ∉ s.nodes n b := Radix.root_notMem_child hsep.nodes hchild
  have htneb : t ≠ b := fun h => htb (h ▸ Radix.self_mem_nodes)
  obtain ⟨F₁, h₁⟩ := hbody b s F hpool (hsep.child hchild)
    fun x hx => hframes x (Radix.mem_nodes_of_child hchild hx)
  set s₁ := body b s
  have ht₁ : s₁.mem t = s.mem t := h₁.frame t htb
  have hfree : s₁.mem t i &&& addressMask = b := by rw [ht₁, hb, pageTableFromEntry]
  have hbframe : IsFrame s₁.hhdmOffsetValue b := by
    rw [h₁.hhdm]
    exact hframes b hbn
  -- the subtree's frames and the old free list make up the new free list
  have hlist : ({b} : Multiset UInt64) + (F₁ : Multiset UInt64) =
      s.nodes n b + (F : Multiset UInt64) := by
    rw [← h₁.empty, h₁.nodes]
  have hbF₁ : b ∉ F₁ := by
    have hnd := hsep.child hchild
    rw [Separate, ← hlist, Multiset.singleton_add, Multiset.nodup_cons] at hnd
    simpa using hnd.1
  have htF₁ : t ∉ b :: F₁ := by
    intro h
    have hmem : t ∈ s.nodes n b + (F : Multiset UInt64) := by
      rw [← hlist, Multiset.singleton_add, Multiset.cons_coe]
      exact Multiset.mem_coe.mpr h
    rcases Multiset.mem_add.mp hmem with h | h
    · exact htb h
    · exact hsep.notMem Radix.self_mem_nodes (Multiset.mem_coe.mp h)
  set s₂ := (s₁.put b).setEntry t i 0 with hs₂
  have hmemt : s₂.mem t = Function.update (s.mem t) i 0 := by
    rw [hs₂, setEntry_mem_self, put_mem_of_ne htneb, ht₁]
  have hmem : ∀ x, x ∉ s.nodes n b → x ≠ t → s₂.mem x = s.mem x := by
    intro x hx hxt
    have hxb : x ≠ b := fun h => hx (h ▸ Radix.self_mem_nodes)
    rw [hs₂, setEntry_mem_of_ne hxt, put_mem_of_ne hxb, h₁.frame x hx]
  have hslots : ∀ j ≠ i, s₂.mem t j = s.mem t j := by
    intro j hj
    rw [hmemt, Function.update_of_ne hj]
  have hentry : s₂.mem t i = 0 := by rw [hmemt, Function.update_self]
  have hrep : s₂.nodes (n + 1) t + s.nodes n b = s.nodes (n + 1) t := by
    have hsub := Radix.siblings_unchanged s₂.mem hsep.nodes hchild
      fun x hx hxt _ => hmem x hx hxt
    have h := Radix.collect_replace (t := fun a => ({a} : Multiset UInt64)) (l := fun a => {a})
      hslots hsub
    rwa [hchild, hentry, userNext_zero, Option.elim_some, Option.elim_none, add_zero] at h
  refine ⟨s₁, b :: F₁, rfl, ?_⟩
  rw [hfree, pmmFreeFrame_eq hbframe]
  refine ⟨?_, hentry, rfl, hrep⟩
  refine
    { pool := (h₁.pool.put hbframe hbF₁).setEntry htF₁
      hhdm := h₁.hhdm
      kernelCr3 := h₁.kernelCr3
      nodes := ?_
      shrinks := ?_
      frame := ?_
      keeps := ?_ }
  · rw [← Multiset.cons_coe, ← Multiset.singleton_add, hlist, ← add_assoc, hrep]
  · rw [← hrep]
    exact Multiset.le_add_right _ _
  · intro x hx
    exact hmem x (fun h => hx (Radix.mem_nodes_of_child hchild h))
      fun h => hx (h ▸ Radix.self_mem_nodes)
  · intro j hj
    by_cases hji : j = i
    · rw [hji, hentry, userNext_zero]
    · rw [hslots j hji, hj]

/-- The loop over the entries of a table of height `n + 1`. -/
lemma clearing_entries {body : Fin 512 → UInt64 → Mm → Mm} {indices : List (Fin 512)}
    (hbody : ∀ i ∈ indices, ClearsBelow n (body i)) (hsel : ∀ i ∈ indices, Selected n i)
    (hpool : Pool s F) (hsep : Separate s (n + 1) t F)
    (hframes : ∀ x ∈ s.nodes (n + 1) t, IsFrame s.hhdmOffsetValue x) :
    ∃ F', Clearing n t s (destroyEntries t indices body s) F F' ∧
      ∀ i ∈ indices, userNext n i ((destroyEntries t indices body s).mem t i) = none := by
  induction indices generalizing s F with
  | nil => exact ⟨F, .refl hpool, by simp⟩
  | cons i is ih =>
    obtain ⟨s₁, F₁, h₁, hnone, hs₁⟩ : ∃ s₁ F₁, Clearing n t s s₁ F F₁ ∧
        userNext n i (s₁.mem t i) = none ∧
        destroyEntries t (i :: is) body s = destroyEntries t is body s₁ := by
      by_cases hp : s.mem t i &&& pagePresent = 0
      · refine ⟨s, F, .refl hpool, ?_, ?_⟩
        · exact (userNext_eq_none_iff (hsel i List.mem_cons_self)).mpr hp
        · simp [destroyEntries, hp]
      · obtain ⟨s₁, F₁, hb, hc, hentry, -⟩ := clearing_entry (hbody i List.mem_cons_self) hpool hsep
          hframes (hsel i List.mem_cons_self) hp
        refine ⟨_, F₁, hc, ?_, ?_⟩
        · rw [hentry, userNext_zero]
        · simp only [destroyEntries, List.foldl_cons, if_neg hp, hb]
    have hframes₁ : ∀ x ∈ s₁.nodes (n + 1) t, IsFrame s₁.hhdmOffsetValue x := by
      intro x hx
      rw [h₁.hhdm]
      exact hframes x (Multiset.mem_of_le h₁.shrinks hx)
    obtain ⟨F₂, h₂, hnone₂⟩ := ih (fun j hj => hbody j (List.mem_cons_of_mem i hj))
      (fun j hj => hsel j (List.mem_cons_of_mem i hj)) h₁.pool (hsep.of_eq h₁.nodes) hframes₁
    rw [hs₁]
    refine ⟨F₂, h₁.trans h₂, fun j hj => ?_⟩
    rcases List.mem_cons.mp hj with rfl | hj
    · exact h₂.keeps j hnone
    · exact hnone₂ j hj

/-- Tearing down a table whose listed entries are all that the tree uses. -/
lemma destroyEntries_spec (body : Fin 512 → UInt64 → Mm → Mm) (indices : List (Fin 512))
    (hbody : ∀ i ∈ indices, ClearsBelow n (body i)) (hsel : ∀ i ∈ indices, Selected n i)
    (hall : ∀ i ∉ indices, ¬Selected n i) :
    ClearsBelow (n + 1) fun t => destroyEntries t indices body := by
  intro t s F hpool hsep hframes
  obtain ⟨F', h, hnone⟩ := clearing_entries hbody hsel hpool hsep hframes
  refine ⟨F', h.pool, h.hhdm, h.kernelCr3, h.nodes, ?_, h.frame⟩
  apply Radix.nodes_of_all_none
  intro i
  by_cases hi : i ∈ indices
  · exact hnone i hi
  · have hi : n = 3 ∧ 256 ≤ i.val := not_not.mp (hall i hi)
    rw [userNext, if_pos hi]

/-! ### The four levels -/

lemma mem_lowerIndices : i ∈ lowerIndices ↔ i.val < 256 := by
  rw [lowerIndices, List.mem_take_iff_getElem]
  constructor
  · rintro ⟨j, hj, rfl⟩
    have hj : j < 256 := by simpa using hj
    simpa using hj
  · intro hi
    exact ⟨i.val, by simpa using hi, by simp⟩

lemma mem_lowerIndices_iff : i ∈ lowerIndices ↔ Selected 3 i := by
  rw [mem_lowerIndices]
  simp [Selected]

lemma nodup_lowerIndices : lowerIndices.Nodup :=
  (List.nodup_finRange 512).sublist (List.take_sublist 256 _)

/-- Below the user limit the innermost loop is a loop over entries with nothing below them. -/
lemma foldl_destroyPage {i : Fin 512} (hi : i.val < 256) (j k : Fin 512) (pt : UInt64) (s : Mm) :
    (List.finRange 512).foldl (destroyPage userTop i j k pt) s =
      destroyEntries pt (List.finRange 512) (fun _ _ s => s) s := by
  have hbody : destroyPage userTop i j k pt = fun s l =>
      if s.mem pt l &&& pagePresent = 0 then s
      else (pmmFreeFrame s (s.mem pt l &&& addressMask)).setEntry pt l 0 := by
    funext s l
    have hlt : joinIndices i j k l < userTop := by
      rw [UInt64.lt_iff_toNat_lt]
      exact joinIndices_lt hi j k l
    simp only [destroyPage, if_pos hlt]
  rw [hbody]
  rfl

lemma selected_of_lt (h : n < 3) (i : Fin 512) : Selected n i := by
  rintro ⟨hn, -⟩
  omega

/-- The loops of `vmmDestroyUserSpace`, without freeing the PML4 frame itself. -/
def destroyLevels (p : UInt64) (s : Mm) : Mm :=
  destroyEntries p lowerIndices (fun i pdpt =>
    destroyEntries pdpt (List.finRange 512) fun j pd =>
      destroyEntries pd (List.finRange 512) fun k pt s =>
        (List.finRange 512).foldl (destroyPage userTop i j k pt) s) s

lemma vmmDestroyUserSpace_eq (hp : p ≠ 0) :
    vmmDestroyUserSpace s p userTop = pmmFreeFrame (destroyLevels p s) p := by
  rw [vmmDestroyUserSpace, if_neg hp]
  rfl

lemma clearsBelow_pt {i : Fin 512} (hi : i.val < 256) (j k : Fin 512) :
    ClearsBelow 1 fun pt s => (List.finRange 512).foldl (destroyPage userTop i j k pt) s := by
  have h := destroyEntries_spec (n := 0) (fun _ _ s => s) (List.finRange 512)
    (fun _ _ => clearsBelow_zero) (fun i _ => selected_of_lt (by norm_num) i) (by simp)
  simpa only [foldl_destroyPage hi] using h

lemma clearsBelow_root : ClearsBelow 4 destroyLevels := by
  refine destroyEntries_spec (n := 3) (fun i pdpt =>
    destroyEntries pdpt (List.finRange 512) fun j pd =>
      destroyEntries pd (List.finRange 512) fun k pt s =>
        (List.finRange 512).foldl (destroyPage userTop i j k pt) s) _ (fun i hi => ?_) ?_ ?_
  · refine destroyEntries_spec _ _ (fun j _ => ?_) (fun j _ => selected_of_lt (by norm_num) j) (by simp)
    refine destroyEntries_spec _ _ (fun k _ => ?_) (fun k _ => selected_of_lt (by norm_num) k) (by simp)
    exact clearsBelow_pt (mem_lowerIndices.mp hi) j k
  · exact fun i hi => mem_lowerIndices_iff.mp hi
  · exact fun i hi => mem_lowerIndices_iff.not.mp hi

/-- Tearing down an address space adds exactly the frames of its tree to the free list. -/
theorem vmmDestroyUserSpace_spec (hp : p ≠ 0) (hpool : Pool s F) (hsep : Separate s 4 p F)
    (hframes : ∀ x ∈ s.nodes 4 p, IsFrame s.hhdmOffsetValue x) :
    ∃ F', Pool (vmmDestroyUserSpace s p userTop) F' ∧
      (F' : Multiset UInt64) = s.nodes 4 p + (F : Multiset UInt64) ∧
      (vmmDestroyUserSpace s p userTop).hhdmOffsetValue = s.hhdmOffsetValue ∧
      (vmmDestroyUserSpace s p userTop).kernelCr3Value = s.kernelCr3Value ∧
      ∀ x ∉ s.nodes 4 p, (vmmDestroyUserSpace s p userTop).mem x = s.mem x := by
  obtain ⟨F₁, h₁⟩ := clearsBelow_root p s F hpool hsep hframes
  have hlist : ({p} : Multiset UInt64) + (F₁ : Multiset UInt64) = s.nodes 4 p + (F : Multiset UInt64) := by
    rw [← h₁.empty, h₁.nodes]
  have hpF₁ : p ∉ F₁ := by
    rw [Separate, ← hlist, Multiset.singleton_add, Multiset.nodup_cons] at hsep
    simpa using hsep.1
  have hpframe := hframes p Radix.self_mem_nodes
  rw [← h₁.hhdm] at hpframe
  rw [vmmDestroyUserSpace_eq hp, pmmFreeFrame_eq hpframe]
  generalize destroyLevels p s = s₁ at *
  refine ⟨p :: F₁, h₁.pool.put hpframe hpF₁, ?_, h₁.hhdm, h₁.kernelCr3, fun x hx => ?_⟩
  · rw [← Multiset.cons_coe, ← Multiset.singleton_add, hlist]
  · have hxp : x ≠ p := fun h => hx (h ▸ Radix.self_mem_nodes)
    rw [put_mem_of_ne hxp, h₁.frame x hx]

/-! ### The order of reads and frees -/

/-- What happens to a frame while an address space is torn down. -/
inductive Touch
  | read (frame : UInt64)
  | freed (frame : UInt64)

/-- The state after a loop, with what its iterations did to frames. -/
def traceLoop (step : Mm → Fin 512 → Mm × List Touch) : List (Fin 512) → Mm → Mm × List Touch
  | [], s => (s, [])
  | i :: is, s =>
    let r := traceLoop step is (step s i).1
    (r.1, (step s i).2 ++ r.2)

/-- `destroyPage` with the frames it touches. -/
def destroyPageTrace (userTop : UInt64) (i j k : Fin 512) (pt : UInt64) (s : Mm) (l : Fin 512) :
    Mm × List Touch :=
  let entry := s.mem pt l
  if entry &&& pagePresent = 0 then (s, [.read pt])
  else if joinIndices i j k l < userTop then
    ((pmmFreeFrame s (entry &&& addressMask)).setEntry pt l 0,
      [.read pt, .freed (entry &&& addressMask)])
  else (s, [.read pt])

/-- One iteration of `destroyEntries` with the frames it touches. -/
def destroyEntryTrace (table : UInt64) (body : Fin 512 → UInt64 → Mm → Mm × List Touch) (s : Mm)
    (i : Fin 512) : Mm × List Touch :=
  if s.mem table i &&& pagePresent = 0 then (s, [.read table])
  else
    let below := body i (pageTableFromEntry (s.mem table i)) s
    let frame := below.1.mem table i &&& addressMask
    ((pmmFreeFrame below.1 frame).setEntry table i 0,
      .read table :: (below.2 ++ [.read table, .freed frame]))

def destroyEntriesTrace (table : UInt64) (indices : List (Fin 512))
    (body : Fin 512 → UInt64 → Mm → Mm × List Touch) : Mm → Mm × List Touch :=
  traceLoop (destroyEntryTrace table body) indices

/-- The loops of `vmmDestroyTrace`. -/
def destroyLevelsTrace (userTop p : UInt64) : Mm → Mm × List Touch :=
  destroyEntriesTrace p lowerIndices fun i pdpt =>
    destroyEntriesTrace pdpt (List.finRange 512) fun j pd =>
      destroyEntriesTrace pd (List.finRange 512) fun k pt =>
        traceLoop (destroyPageTrace userTop i j k pt) (List.finRange 512)

/-- `vmmDestroyUserSpace` with the frames it touches. -/
def vmmDestroyTrace (s : Mm) (pml4Frame userTop : UInt64) : Mm × List Touch :=
  if pml4Frame = 0 then (s, [])
  else
    let r := destroyLevelsTrace userTop pml4Frame s
    (pmmFreeFrame r.1 pml4Frame, r.2 ++ [.freed pml4Frame])

lemma traceLoop_fst {step : Mm → Fin 512 → Mm × List Touch} {step' : Mm → Fin 512 → Mm}
    (h : ∀ s i, (step s i).1 = step' s i) (indices : List (Fin 512)) (s : Mm) :
    (traceLoop step indices s).1 = indices.foldl step' s := by
  induction indices generalizing s with
  | nil => rfl
  | cons i is ih => rw [List.foldl_cons, ← h, ← ih, traceLoop]

lemma destroyEntriesTrace_fst {body : Fin 512 → UInt64 → Mm → Mm × List Touch}
    {body' : Fin 512 → UInt64 → Mm → Mm} (h : ∀ i b s, (body i b s).1 = body' i b s)
    (indices : List (Fin 512)) (s : Mm) :
    (destroyEntriesTrace t indices body s).1 = destroyEntries t indices body' s := by
  refine traceLoop_fst (fun s i => ?_) indices s
  rw [destroyEntryTrace]
  split_ifs with hp
  · rfl
  · simp only [h]

/-- The trace is one of what the code does. -/
lemma vmmDestroyTrace_fst (userTop : UInt64) :
    (vmmDestroyTrace s p userTop).1 = vmmDestroyUserSpace s p userTop := by
  rw [vmmDestroyTrace, vmmDestroyUserSpace]
  split_ifs with hp
  · rfl
  · refine congrArg (pmmFreeFrame · p) ?_
    refine destroyEntriesTrace_fst (fun i pdpt s => ?_) _ s
    refine destroyEntriesTrace_fst (fun j pd s => ?_) _ s
    refine destroyEntriesTrace_fst (fun k pt s => ?_) _ s
    refine traceLoop_fst (fun s l => ?_) _ s
    rw [destroyPageTrace, destroyPage]
    split_ifs <;> rfl

/-- No frame is read after it has been freed. -/
def NoReadAfterFree (log : List Touch) : Prop :=
  log.Pairwise fun first second => ∀ x, first = .freed x → second ≠ .read x

/-- What a part of the walk below `t` touches: it reads frames of the tree only, and what it frees
is not in the tree afterwards. -/
structure Visits (n : ℕ) (t : UInt64) (s s' : Mm) (log : List Touch) : Prop where
  shrinks : s'.nodes n t ≤ s.nodes n t
  reads : ∀ x, .read x ∈ log → x ∈ s.nodes n t
  frees : ∀ x, .freed x ∈ log → x ∈ s.nodes n t ∧ x ∉ s'.nodes n t
  order : NoReadAfterFree log

lemma Visits.refl : Visits n t s s [] :=
  ⟨le_refl _, by simp, by simp, .nil⟩

lemma Visits.trans {s'' : Mm} {log log' : List Touch} (h : Visits n t s s' log)
    (h' : Visits n t s' s'' log') : Visits n t s s'' (log ++ log') where
  shrinks := h'.shrinks.trans h.shrinks
  reads := by
    intro x hx
    rcases List.mem_append.mp hx with hx | hx
    · exact h.reads x hx
    · exact Multiset.mem_of_le h.shrinks (h'.reads x hx)
  frees := by
    intro x hx
    rcases List.mem_append.mp hx with hx | hx
    · obtain ⟨hin, hout⟩ := h.frees x hx
      exact ⟨hin, fun hx => hout (Multiset.mem_of_le h'.shrinks hx)⟩
    · obtain ⟨hin, hout⟩ := h'.frees x hx
      exact ⟨Multiset.mem_of_le h.shrinks hin, hout⟩
  order := by
    refine List.pairwise_append.mpr ⟨h.order, h'.order, ?_⟩
    rintro first hfirst second hsecond x rfl rfl
    exact (h.frees x hfirst).2 (h'.reads x hsecond)

lemma Visits.sublist {log log' : List Touch} (h : Visits n t s s' log) (hsub : log'.Sublist log) :
    Visits n t s s' log' where
  shrinks := h.shrinks
  reads := fun x hx => h.reads x (hsub.subset hx)
  frees := fun x hx => h.frees x (hsub.subset hx)
  order := h.order.sublist hsub

/-- What the traced body of a loop has to do at the table `b`. -/
structure TidyBelow (n : ℕ) (body : UInt64 → Mm → Mm × List Touch) : Prop where
  clears : ClearsBelow n fun b s => (body b s).1
  visits : ∀ (b : UInt64) (s : Mm) (F : List UInt64), Pool s F → Separate s n b F →
    (∀ x ∈ s.nodes n b, IsFrame s.hhdmOffsetValue x) → Visits n b s (body b s).1 (body b s).2

lemma tidyBelow_zero : TidyBelow 0 fun _ s => (s, []) :=
  ⟨clearsBelow_zero, fun _ _ _ _ _ _ => .refl⟩

/-- One iteration reads the table itself and what the body reads below it. -/
lemma visits_entry (body : Fin 512 → UInt64 → Mm → Mm × List Touch) (hbody : TidyBelow n (body i))
    (hpool : Pool s F) (hsep : Separate s (n + 1) t F)
    (hframes : ∀ x ∈ s.nodes (n + 1) t, IsFrame s.hhdmOffsetValue x) (hsel : Selected n i) :
    ∃ F', Clearing n t s (destroyEntryTrace t body s i).1 F F' ∧
      Visits (n + 1) t s (destroyEntryTrace t body s i).1 (destroyEntryTrace t body s i).2 := by
  by_cases hp : s.mem t i &&& pagePresent = 0
  · rw [destroyEntryTrace, if_pos hp]
    refine ⟨F, .refl hpool, le_refl _, fun x hx => ?_, by simp, List.pairwise_singleton _ _⟩
    simp only [List.mem_singleton, Touch.read.injEq] at hx
    rw [hx]
    exact Radix.self_mem_nodes
  · rw [destroyEntryTrace, if_neg hp]
    have hchild : userNext n i (s.mem t i) = some (pageTableFromEntry (s.mem t i)) :=
      userNext_of_present hsel hp
    obtain ⟨s₁, F₁, hb, hc, -, hfree, hrep⟩ := clearing_entry hbody.clears hpool hsep hframes hsel hp
    have hbelow := hbody.visits (pageTableFromEntry (s.mem t i)) s F hpool (hsep.child hchild)
      fun x hx => hframes x (Radix.mem_nodes_of_child hchild hx)
    have htb := Radix.root_notMem_child hsep.nodes hchild
    simp only [hb] at hbelow ⊢
    generalize hlog : (body i (pageTableFromEntry (s.mem t i)) s).2 = log at *
    generalize hs₂ : (pmmFreeFrame s₁ (s₁.mem t i &&& addressMask)).setEntry t i 0 = s₂ at *
    -- a frame of the subtree is not in the tree any more
    have hgone : ∀ x ∈ s.nodes n (pageTableFromEntry (s.mem t i)),
        x ∈ s.nodes (n + 1) t ∧ x ∉ s₂.nodes (n + 1) t := by
      intro x hx
      have hnd := hsep.nodes
      rw [← hrep] at hnd
      refine ⟨Radix.mem_nodes_of_child hchild hx, fun hx' => ?_⟩
      exact Multiset.disjoint_left.mp (Multiset.nodup_add.mp hnd).2.2 hx' hx
    refine ⟨F₁, hc, hc.shrinks, fun x hx => ?_, fun x hx => ?_, ?_⟩
    · simp only [List.mem_cons, List.mem_append, Touch.read.injEq, reduceCtorEq, List.not_mem_nil,
        or_false] at hx
      rcases hx with rfl | hx | rfl
      · exact Radix.self_mem_nodes
      · exact (hgone x (hbelow.reads x hx)).1
      · exact Radix.self_mem_nodes
    · simp only [List.mem_cons, List.mem_append, Touch.freed.injEq, reduceCtorEq, List.not_mem_nil,
        or_false, false_or] at hx
      rcases hx with hx | rfl
      · exact hgone x (hbelow.frees x hx).1
      · rw [hfree]
        exact hgone _ Radix.self_mem_nodes
    · refine List.pairwise_cons.mpr ⟨by simp, List.pairwise_append.mpr ⟨hbelow.order, by simp, ?_⟩⟩
      rintro first hfirst second hsecond x rfl rfl
      simp only [List.mem_cons, Touch.read.injEq, reduceCtorEq, List.not_mem_nil, or_false] at hsecond
      exact htb (hsecond ▸ (hbelow.frees x hfirst).1)

/-- The loop over the entries of a table. -/
lemma visits_loop {step : Mm → Fin 512 → Mm × List Touch} {indices : List (Fin 512)}
    (hstep : ∀ i ∈ indices, ∀ s F, Pool s F → Separate s (n + 1) t F →
      (∀ x ∈ s.nodes (n + 1) t, IsFrame s.hhdmOffsetValue x) →
      ∃ F', Clearing n t s (step s i).1 F F' ∧ Visits (n + 1) t s (step s i).1 (step s i).2)
    (hpool : Pool s F) (hsep : Separate s (n + 1) t F)
    (hframes : ∀ x ∈ s.nodes (n + 1) t, IsFrame s.hhdmOffsetValue x) :
    Visits (n + 1) t s (traceLoop step indices s).1 (traceLoop step indices s).2 := by
  induction indices generalizing s F with
  | nil => exact .refl
  | cons i is ih =>
    obtain ⟨F₁, hc, hv⟩ := hstep i List.mem_cons_self s F hpool hsep hframes
    refine hv.trans (ih (fun j hj => hstep j (List.mem_cons_of_mem i hj)) hc.pool
      (hsep.of_eq hc.nodes) fun x hx => ?_)
    rw [hc.hhdm]
    exact hframes x (Multiset.mem_of_le hc.shrinks hx)

lemma destroyEntriesTrace_spec {body : Fin 512 → UInt64 → Mm → Mm × List Touch}
    {indices : List (Fin 512)} (hbody : ∀ i ∈ indices, TidyBelow n (body i))
    (hsel : ∀ i ∈ indices, Selected n i) (hall : ∀ i ∉ indices, ¬Selected n i) :
    TidyBelow (n + 1) fun t => destroyEntriesTrace t indices body where
  clears := by
    have h := destroyEntries_spec (fun i b s => (body i b s).1) indices
      (fun i hi => (hbody i hi).clears) hsel hall
    simpa only [destroyEntriesTrace_fst fun _ _ _ => rfl] using h
  visits := fun t s F hpool hsep hframes => visits_loop
    (fun i hi s F hpool hsep hframes => visits_entry body (hbody i hi) hpool hsep hframes (hsel i hi))
    hpool hsep hframes

/-- The innermost loop, which reads an entry only once. -/
lemma tidyBelow_pt {i : Fin 512} (hi : i.val < 256) (j k : Fin 512) :
    TidyBelow 1 fun pt => traceLoop (destroyPageTrace userTop i j k pt) (List.finRange 512) where
  clears := by
    have h := clearsBelow_pt hi j k
    have hfst : ∀ pt s, (traceLoop (destroyPageTrace userTop i j k pt) (List.finRange 512) s).1 =
        (List.finRange 512).foldl (destroyPage userTop i j k pt) s := by
      intro pt s
      refine traceLoop_fst (fun s l => ?_) _ s
      rw [destroyPageTrace, destroyPage]
      split_ifs <;> rfl
    simpa only [hfst] using h
  visits := by
    intro pt s F hpool hsep hframes
    refine visits_loop (fun l _ s F hpool hsep hframes => ?_) hpool hsep hframes
    obtain ⟨F', hc, hv⟩ := visits_entry (fun _ _ s => (s, [])) tidyBelow_zero hpool hsep hframes
      (selected_of_lt (by norm_num) l)
    have hlt : joinIndices i j k l < userTop := by
      rw [UInt64.lt_iff_toNat_lt]
      exact joinIndices_lt hi j k l
    rw [destroyEntryTrace] at hc hv
    rw [destroyPageTrace]
    by_cases hp : s.mem pt l &&& pagePresent = 0
    · rw [if_pos hp] at hc hv ⊢
      exact ⟨F', hc, hv⟩
    · rw [if_neg hp] at hc hv ⊢
      rw [if_pos hlt]
      exact ⟨F', hc, hv.sublist (.cons_cons _ (.cons _ (.refl _)))⟩

/-- Tearing down an address space never reads a frame it has freed. -/
theorem vmmDestroyTrace_order (hpool : Pool s F) (hsep : Separate s 4 p F)
    (hframes : ∀ x ∈ s.nodes 4 p, IsFrame s.hhdmOffsetValue x) :
    NoReadAfterFree (vmmDestroyTrace s p userTop).2 := by
  have htidy : TidyBelow 4 (destroyLevelsTrace userTop) := by
    refine destroyEntriesTrace_spec (fun i hi => ?_) ?_ ?_
    · refine destroyEntriesTrace_spec (fun j _ => ?_) (fun j _ => selected_of_lt (by norm_num) j) (by simp)
      refine destroyEntriesTrace_spec (fun k _ => ?_) (fun k _ => selected_of_lt (by norm_num) k) (by simp)
      exact tidyBelow_pt (mem_lowerIndices.mp hi) j k
    · exact fun i hi => mem_lowerIndices_iff.mp hi
    · exact fun i hi => mem_lowerIndices_iff.not.mp hi
  have hvisits := htidy.visits p s F hpool hsep hframes
  rw [vmmDestroyTrace]
  split_ifs
  · exact .nil
  · exact List.pairwise_append.mpr ⟨hvisits.order, List.pairwise_singleton _ _, by simp⟩

end Xbks
