import Mathlib.Algebra.BigOperators.Fin
import Xbks.Process.Table

/-!
# Ownership of frames

`Owned boot k F`: the frames handed to the allocator are the free ones, `F`, together with those
of the page-table trees of the processes, each once. A step that touches one process exchanges
frames between its tree and the free list, which `Owned.exchange` shows to be enough. The address
spaces of the other processes are `Kept`.
-/

namespace Xbks

variable {boot : BootMemory} {F F' : List UInt64} {k k' k₁ : Kernel} {l : List Slot} {e : Event}
  {frame : SyscallFrame}

/-- The frames of the address space of a process. -/
def liveNodes (mm : Mm) (process : Process) : Multiset UInt64 :=
  if process.cr3 = 0 then 0 else mm.nodes 4 process.cr3

/-- The PML4 frame that the kernel booted with. -/
def Mm.kernelPml4 (s : Mm) : UInt64 := s.kernelCr3Value &&& ~~~0xfff

structure Owned (boot : BootMemory) (k : Kernel) (F : List UInt64) : Prop where
  pool : Pool k.mm F
  frames : (F : Multiset UInt64) + ∑ i, liveNodes k.mm (k.processes i) = (boot.handedFrames : Multiset UInt64)
  nodup : boot.handedFrames.Nodup
  isFrame : ∀ x ∈ boot.handedFrames, IsFrame k.mm.hhdmOffsetValue x
  kernel : k.mm.kernelPml4 ∉ boot.handedFrames
  kernelPml4 : k.mm.kernelPml4 = boot.cr3 &&& ~~~0xfff
  outside : ∀ x ∉ boot.handedFrames, k.mm.mem x = boot.mem x
  upper : ∀ i, (k.processes i).cr3 ≠ 0 → ∀ j : Fin 512, 256 ≤ j.val →
    k.mm.mem (k.processes i).cr3 j = k.mm.mem k.mm.kernelPml4 j
  current : k.cr3 = k.current.cr3
  live : ∀ i, (k.processes i).state ≠ .unused → (k.processes i).cr3 ≠ 0

lemma liveNodes_of_ne {mm : Mm} {process : Process} (h : process.cr3 ≠ 0) :
    liveNodes mm process = mm.nodes 4 process.cr3 := if_neg h

lemma liveNodes_of_eq {mm : Mm} {process : Process} (h : process.cr3 = 0) :
    liveNodes mm process = 0 := if_pos h

/-! ### Who owns what -/

/-- The frames handed out, with the share of slot `i` set apart. -/
lemma Owned.split (h : Owned boot k F) (i : Slot) :
    (boot.handedFrames : Multiset UInt64) = (F : Multiset UInt64) + liveNodes k.mm (k.processes i) +
      ∑ j ∈ Finset.univ.erase i, liveNodes k.mm (k.processes j) := by
  rw [← h.frames, ← Finset.add_sum_erase _ _ (Finset.mem_univ i), add_assoc]

lemma Owned.nodup_split (h : Owned boot k F) (i : Slot) :
    ((F : Multiset UInt64) + liveNodes k.mm (k.processes i) +
      ∑ j ∈ Finset.univ.erase i, liveNodes k.mm (k.processes j)).Nodup := by
  rw [← h.split i]
  exact Multiset.coe_nodup.mpr h.nodup

/-- The tree of a process and the free list share no frame. -/
lemma Owned.separate (h : Owned boot k F) {i : Slot} (hi : (k.processes i).cr3 ≠ 0) :
    Separate k.mm 4 (k.processes i).cr3 F := by
  have hnd := (Multiset.nodup_add.mp (h.nodup_split i)).1
  rw [liveNodes_of_ne hi, add_comm] at hnd
  exact hnd

/-- Different processes share no frame, and none of them has a free one. -/
lemma Owned.disjoint (h : Owned boot k F) {i j : Slot} (hij : j ≠ i) {x : UInt64}
    (hx : x ∈ liveNodes k.mm (k.processes j)) : x ∉ F ∧ x ∉ liveNodes k.mm (k.processes i) := by
  have hdis := (Multiset.nodup_add.mp (h.nodup_split i)).2.2
  have hmem : x ∈ ∑ j ∈ Finset.univ.erase i, liveNodes k.mm (k.processes j) :=
    Multiset.mem_sum.mpr ⟨j, Finset.mem_erase.mpr ⟨hij, Finset.mem_univ j⟩, hx⟩
  have hnot := Multiset.disjoint_right.mp hdis hmem
  rwa [Multiset.mem_add, Multiset.mem_coe, not_or] at hnot

lemma Owned.free_mem (h : Owned boot k F) {x : UInt64} (hx : x ∈ F) : x ∈ boot.handedFrames := by
  rw [← Multiset.mem_coe, ← h.frames]
  exact Multiset.mem_add.mpr (.inl (Multiset.mem_coe.mpr hx))

lemma Owned.live_mem (h : Owned boot k F) {i : Slot} {x : UInt64}
    (hx : x ∈ liveNodes k.mm (k.processes i)) : x ∈ boot.handedFrames := by
  rw [← Multiset.mem_coe, h.split i]
  exact Multiset.mem_add.mpr (.inl (Multiset.mem_add.mpr (.inr hx)))

lemma Owned.kernel_free (h : Owned boot k F) : k.mm.kernelCr3Value &&& ~~~0xfff ∉ F :=
  fun hx => h.kernel (h.free_mem hx)

lemma Owned.tree_isFrame (h : Owned boot k F) {i : Slot} (hi : (k.processes i).cr3 ≠ 0)
    {x : UInt64} (hx : x ∈ k.mm.nodes 4 (k.processes i).cr3) : IsFrame k.mm.hhdmOffsetValue x :=
  h.isFrame x (h.live_mem (i := i) (by rw [liveNodes_of_ne hi]; exact hx))

/-! ### Exchanging frames between one process and the free list -/

/-- A change confined to the free frames and the frames of slot `i`. -/
structure Exchange (k k' : Kernel) (i : Slot) (F F' : List UInt64) : Prop where
  pool : Pool k'.mm F'
  hhdm : k'.mm.hhdmOffsetValue = k.mm.hhdmOffsetValue
  kernelCr3 : k'.mm.kernelCr3Value = k.mm.kernelCr3Value
  others : ∀ j ≠ i, (k'.processes j).cr3 = (k.processes j).cr3
  mem : ∀ x, x ∉ F → x ∉ liveNodes k.mm (k.processes i) → k'.mm.mem x = k.mm.mem x
  frames : (F' : Multiset UInt64) + liveNodes k'.mm (k'.processes i) =
    (F : Multiset UInt64) + liveNodes k.mm (k.processes i)
  upper : (k'.processes i).cr3 ≠ 0 → ∀ j : Fin 512, 256 ≤ j.val →
    k'.mm.mem (k'.processes i).cr3 j = k.mm.mem k.mm.kernelPml4 j

/-- The address space in slot `p` has not been touched. -/
structure Kept (p : Slot) (k k' : Kernel) : Prop where
  cr3 : (k'.processes p).cr3 = (k.processes p).cr3
  mem : ∀ x ∈ liveNodes k.mm (k.processes p), k'.mm.mem x = k.mm.mem x

section Kept

variable {p : Slot}

lemma Kept.nodes (h : Kept p k k') :
    liveNodes k'.mm (k'.processes p) = liveNodes k.mm (k.processes p) := by
  have hmem := h.mem
  by_cases hp : (k.processes p).cr3 = 0
  · rw [liveNodes_of_eq hp, liveNodes_of_eq (by rw [h.cr3, hp])]
  · rw [liveNodes_of_ne hp] at hmem ⊢
    rw [liveNodes_of_ne (by rw [h.cr3]; exact hp), h.cr3]
    exact Radix.collect_congr fun x hx => hmem x (Radix.mem_nodes_of_mem_tables hx)

lemma Kept.refl (p : Slot) (k : Kernel) : Kept p k k := ⟨rfl, fun _ _ => rfl⟩

lemma Kept.trans (h : Kept p k k₁) (h' : Kept p k₁ k') : Kept p k k' where
  cr3 := h'.cr3.trans h.cr3
  mem x hx := (h'.mem x (by rw [h.nodes]; exact hx)).trans (h.mem x hx)

/-- The pages of the address space are mapped as before. -/
lemma Kept.lookup (h : Kept p k k') (hp : (k.processes p).cr3 ≠ 0) (path : List (Fin 512)) :
    k'.mm.lookup 4 (k'.processes p).cr3 path = k.mm.lookup 4 (k.processes p).cr3 path := by
  have hmem := h.mem
  rw [liveNodes_of_ne hp] at hmem
  rw [h.cr3]
  exact Radix.lookup_congr (fun x hx => hmem x (Radix.mem_nodes_of_mem_tables hx)) path

/-- What held of every live process still does, if it holds of one process and the others have been kept. -/
lemma forall_live {Q : Mm → Process → Prop}
    (h : ∀ j, (k.processes j).cr3 ≠ 0 → Q k.mm (k.processes j)) (hkept : ∀ j ≠ p, Kept j k k')
    (hQ : ∀ j ≠ p, (k.processes j).cr3 ≠ 0 → Q k.mm (k.processes j) → Q k'.mm (k'.processes j))
    (hself : (k'.processes p).cr3 ≠ 0 → Q k'.mm (k'.processes p)) :
    ∀ j, (k'.processes j).cr3 ≠ 0 → Q k'.mm (k'.processes j) := by
  intro j hj
  by_cases hjp : j = p
  · rw [hjp] at hj ⊢
    exact hself hj
  · have hne : (k.processes j).cr3 ≠ 0 := by rwa [(hkept j hjp).cr3] at hj
    exact hQ j hjp hne (h j hne)

end Kept

/-- The trees of the other processes are not touched. -/
lemma Exchange.kept {i j : Slot} (hex : Exchange k k' i F F') (h : Owned boot k F) (hij : j ≠ i) :
    Kept j k k' where
  cr3 := hex.others j hij
  mem x hx := hex.mem x (h.disjoint hij hx).1 (h.disjoint hij hx).2

lemma Exchange.kernelPml4 {i : Slot} (hex : Exchange k k' i F F') :
    k'.mm.kernelPml4 = k.mm.kernelPml4 := by
  rw [Mm.kernelPml4, hex.kernelCr3]
  rfl

/-- The kernel's PML4 is not touched. -/
lemma Exchange.kernel_mem {i : Slot} (hex : Exchange k k' i F F') (h : Owned boot k F) :
    k'.mm.mem k.mm.kernelPml4 = k.mm.mem k.mm.kernelPml4 :=
  hex.mem _ (fun hx => h.kernel (h.free_mem hx)) fun hx => h.kernel (h.live_mem hx)

theorem Owned.exchange {i : Slot} (h : Owned boot k F) (hex : Exchange k k' i F F')
    (hcurrent : k'.cr3 = k'.current.cr3)
    (hlive : ∀ j, (k'.processes j).state ≠ .unused → (k'.processes j).cr3 ≠ 0) :
    Owned boot k' F' where
  pool := hex.pool
  frames := by
    have hrest : ∑ j ∈ Finset.univ.erase i, liveNodes k'.mm (k'.processes j) =
        ∑ j ∈ Finset.univ.erase i, liveNodes k.mm (k.processes j) :=
      Finset.sum_congr rfl fun j hj => (hex.kept h (Finset.ne_of_mem_erase hj)).nodes
    rw [h.split i, ← hex.frames, ← hrest, add_assoc,
      Finset.add_sum_erase _ (fun j => liveNodes k'.mm (k'.processes j)) (Finset.mem_univ i)]
  nodup := h.nodup
  isFrame := by
    rw [hex.hhdm]
    exact h.isFrame
  kernel := by
    rw [hex.kernelPml4]
    exact h.kernel
  kernelPml4 := hex.kernelPml4.trans h.kernelPml4
  outside x hx := by
    rw [hex.mem x (fun hF => hx (h.free_mem hF)) fun hl => hx (h.live_mem hl), h.outside x hx]
  upper := by
    intro j hj n hn
    rw [hex.kernelPml4, hex.kernel_mem h]
    by_cases hij : j = i
    · rw [hij] at hj ⊢
      exact hex.upper hj n hn
    · rw [hex.others j hij] at hj ⊢
      have hroot : (k.processes j).cr3 ∈ liveNodes k.mm (k.processes j) := by
        rw [liveNodes_of_ne hj]
        exact Radix.self_mem_nodes
      rw [(hex.kept h hij).mem _ hroot]
      exact h.upper j hj n hn
  current := hcurrent
  live := hlive

/-! ### Steps -/

/-- The cr3 of the current process is not 0. -/
lemma Owned.current_ne (h : Owned boot k F) (hinv : TableInv k l) : k.current.cr3 ≠ 0 :=
  h.live _ (by rw [(hinv.running _).mpr rfl]; exact ProcessState.noConfusion)

lemma Local.cr3_field (h : Local k k') (i : Slot) :
    (k'.processes i).cr3 = (k.processes i).cr3 := by
  by_cases hi : i = k.currentProcess
  · have hself := congrArg Process.cr3 h.self
    rw [Kernel.current, h.currentProcess] at hself
    rw [hi]
    exact hself
  · rw [h.others i hi]

/-- The frames a local step moves. -/
lemma Local.exchange (hlocal : Local k k') (h : Owned boot k F) (hinv : TableInv k l) :
    ∃ F', Exchange k k' k.currentProcess F F' ∧ Growth heapPaths k.current.cr3 k.mm k'.mm F F' := by
  have hne := h.current_ne hinv
  obtain ⟨F', hg⟩ := hlocal.grows h.current F h.pool (by rw [h.current]; exact h.separate hne)
  rw [h.current] at hg
  have hcr3 : (k'.processes k.currentProcess).cr3 = k.current.cr3 := hlocal.cr3_field _
  have hlive : liveNodes k.mm (k.processes k.currentProcess) = k.mm.nodes 4 k.current.cr3 :=
    liveNodes_of_ne hne
  refine ⟨F', ⟨hg.pool, hg.hhdm, hg.kernelCr3, fun j _ => hlocal.cr3_field j, ?_, ?_, ?_⟩, hg⟩
  · intro x hxF hx
    rw [hlive] at hx
    exact hg.frame x hx hxF
  · rw [hlive, liveNodes_of_ne (by rw [hcr3]; exact hne), hcr3, add_comm, hg.nodes, add_comm]
  · intro _ j hj
    rw [hcr3, hg.upper j hj]
    exact h.upper _ hne j hj

lemma Owned.local_step (h : Owned boot k F) (hinv : TableInv k l) (hlocal : Local k k') :
    ∃ F', Owned boot k' F' ∧ ∀ p ≠ k.currentProcess, Kept p k k' := by
  obtain ⟨F', hex, -⟩ := hlocal.exchange h hinv
  refine ⟨F', h.exchange hex ?_ fun j hj => ?_, fun p hp => hex.kept h hp⟩
  · rw [hlocal.cr3, h.current, hlocal.self]
  · rw [hlocal.sameTable.field Process.state fun _ _ _ _ _ _ => rfl] at hj
    rw [hlocal.cr3_field]
    exact h.live j hj

/-- Memory as it was, up to the order of the free list, keeps every address space. -/
lemma Restored.kept {s' : Mm} (hr : Restored k.mm s' F) (h : Owned boot k F) (hmm : k'.mm = s')
    (hcr3 : ∀ j, (k'.processes j).cr3 = (k.processes j).cr3) (p : Slot) : Kept p k k' where
  cr3 := hcr3 p
  mem x hx := by
    rw [hmm]
    refine hr.frame x fun hxF => ?_
    have hnd := (Multiset.nodup_add.mp (h.nodup_split p)).1
    exact Multiset.disjoint_left.mp (Multiset.nodup_add.mp hnd).2.2 (Multiset.mem_coe.mpr hxF) hx

lemma Owned.restored_step {s' : Mm} (h : Owned boot k F) (hr : Restored k.mm s' F)
    (hmm : k'.mm = s') (hcr3 : ∀ j, (k'.processes j).cr3 = (k.processes j).cr3)
    (hcurrent : k'.cr3 = k'.current.cr3)
    (hlive : ∀ j, (k'.processes j).state ≠ .unused → (k'.processes j).cr3 ≠ 0) :
    ∃ F', Owned boot k' F' ∧ ∀ p, Kept p k k' := by
  obtain ⟨F', hpool, hF'⟩ := hr.pool
  have hkept := hr.kept h hmm hcr3
  subst hmm
  have hex : Exchange k k' 0 F F' := by
    refine ⟨hpool, hr.hhdm, hr.kernelCr3, fun j _ => hcr3 j, fun x hx _ => hr.frame x hx, ?_, ?_⟩
    · rw [hF', (hkept 0).nodes]
    · intro hne j hj
      rw [hcr3] at hne ⊢
      have hroot : (k.processes 0).cr3 ∈ liveNodes k.mm (k.processes 0) := by
        rw [liveNodes_of_ne hne]
        exact Radix.self_mem_nodes
      rw [(hkept 0).mem _ hroot]
      exact h.upper 0 hne j hj
  exact ⟨F', h.exchange hex hcurrent hlive, hkept⟩

/-- What `vfork` does to memory once it has a slot. -/
structure Copied (k : Kernel) (cr3 : UInt64) (mm mm' : Mm) (ok : Bool) (F F' : List UInt64) :
    Prop where
  built : ok = true → Built {path | k.mm.lookup 4 k.current.cr3 path ≠ none} cr3 k.mm mm F F'
  pages : ok = true → ∀ path, Option.Rel (CopyOf k.mm mm) (k.mm.lookup 4 k.current.cr3 path)
    (mm.lookup 4 cr3 path)
  restored : Restored k.mm mm' F
  used : ok = true → F.length ≤ F'.length + 4 * (k.mm.leaves 4 k.current.cr3).card + 1
  stuck : ok = false → F.length ≤ 4 * (k.mm.leaves 4 k.current.cr3).card + 1

lemma createKernelMappedPml4_zero {mm : Mm} (h : Owned boot k F)
    (hnew : createKernelMappedPml4 k.mm = (0, mm)) : Restored k.mm mm F := by
  rcases createKernelMappedPml4_spec h.pool h.kernel_free with ⟨rfl, hzero⟩ | ⟨q, F', s', rfl, hq, -⟩
  · rw [hzero] at hnew
    cases hnew
    exact .refl h.pool
  · rw [hq] at hnew
    cases hnew
    exact absurd rfl (h.pool.frames 0 List.mem_cons_self).ne_zero

/-- Copying the current address space into a new one. The last state is the one after tearing the
copy down again. -/
lemma vfork_copied {cr3 : UInt64} {mm mm' : Mm} {ok : Bool} (h : Owned boot k F)
    (hinv : TableInv k l) (hnew : createKernelMappedPml4 k.mm = (cr3, mm)) (hcr3 : cr3 ≠ 0)
    (hclone : vmmCloneUserSpace mm k.current.cr3 cr3 userTop = (ok, mm')) :
    ∃ F', Copied k cr3 mm' (vmmDestroyUserSpace mm' cr3 userTop) ok F F' := by
  have hne := h.current_ne hinv
  have hsep := h.separate (i := k.currentProcess) hne
  rcases createKernelMappedPml4_spec h.pool h.kernel_free with ⟨rfl, hzero⟩ | ⟨q, F₁, s', rfl, hq, hspace⟩
  · rw [hzero] at hnew
    cases hnew
    exact absurd rfl hcr3
  rw [hq] at hnew
  cases hnew
  -- the source tree is not touched by the new root
  have hsrc : ∀ x ∈ k.mm.nodes 4 k.current.cr3, mm.mem x = k.mm.mem x := fun x hx =>
    hspace.frame x fun hxq => hsep.notMem hx (hxq ▸ List.mem_cons_self)
  have htab : ∀ x ∈ k.mm.tables 4 k.current.cr3, mm.mem x = k.mm.mem x := fun x hx =>
    hsrc x (Radix.mem_nodes_of_mem_tables hx)
  have hnodes : mm.nodes 4 k.current.cr3 = k.mm.nodes 4 k.current.cr3 := Radix.collect_congr htab
  have hleaves : mm.leaves 4 k.current.cr3 = k.mm.leaves 4 k.current.cr3 := Radix.collect_congr htab
  have hlookup : ∀ path, mm.lookup 4 k.current.cr3 path = k.mm.lookup 4 k.current.cr3 path :=
    Radix.lookup_congr htab
  have hbuilt : Built {path | k.mm.lookup 4 k.current.cr3 path ≠ none} cr3 k.mm mm (cr3 :: F₁) F₁ :=
    hspace.built
  have hall : (mm.nodes 4 k.current.cr3 + (mm.nodes 4 cr3 + (F₁ : Multiset UInt64))).Nodup := by
    rw [hbuilt.nodes, hnodes]
    exact hsep
  obtain ⟨F₂, hcons, htrue, hused, hfalse⟩ := vmmCloneUserSpace_spec hall hspace.pool hspace.lookup
  rw [hclone] at hcons htrue hused hfalse
  have hrel : ok = true → ∀ path, Option.Rel (CopyOf k.mm mm') (k.mm.lookup 4 k.current.cr3 path)
      (mm'.lookup 4 cr3 path) := by
    intro hok path
    have hcopy := htrue hok path
    rw [hlookup] at hcopy
    cases hs : k.mm.lookup 4 k.current.cr3 path with
    | none =>
      rw [hs] at hcopy
      cases hd : mm'.lookup 4 cr3 path with
      | none => exact .none
      | some e' => rw [hd] at hcopy; cases hcopy
    | some e =>
      rw [hs] at hcopy
      cases hd : mm'.lookup 4 cr3 path with
      | none => rw [hd] at hcopy; cases hcopy
      | some e' =>
        rw [hd] at hcopy
        cases hcopy with
        | some hcopy =>
          obtain ⟨i, b, hb, hleaf⟩ := Radix.lookup_leaf hs
          obtain ⟨-, -, rfl⟩ := userNext_eq_some hb
          exact .some ⟨hcopy.flags, hcopy.content.trans
            (hsrc _ (Radix.mem_nodes_of_mem_leaves hleaf))⟩
  have hbuilt' := hbuilt.conserve (B := Set.univ) hcons fun _ _ _ => trivial
  refine ⟨F₂, fun hok => ?_, hrel, hbuilt'.destroy h.pool, fun hok => ?_, fun hok => ?_⟩
  · refine hbuilt.conserve hcons fun path e he hnone => ?_
    have hcopy := hrel hok path
    rw [hnone, he] at hcopy
    cases hcopy
  · have := hused hok
    rw [hleaves] at this
    rw [List.length_cons]
    omega
  · have := (hfalse hok).1
    rw [hleaves] at this
    rw [List.length_cons]
    omega

/-- The frames of a new process. -/
lemma Built.exchange {A : Set (List (Fin 512))} {cr3 : UInt64} {slot : Slot}
    (hb : Built A cr3 k.mm k'.mm F F') (hslot : (k.processes slot).cr3 = 0)
    (hcr3 : (k'.processes slot).cr3 = cr3) (hne : cr3 ≠ 0)
    (hothers : ∀ j ≠ slot, (k'.processes j).cr3 = (k.processes j).cr3) :
    Exchange k k' slot F F' where
  pool := hb.pool
  hhdm := hb.hhdm
  kernelCr3 := hb.kernelCr3
  others := hothers
  mem x hx _ := hb.frame x hx
  frames := by
    rw [liveNodes_of_eq hslot, liveNodes_of_ne (by rw [hcr3]; exact hne), hcr3, add_comm, hb.nodes,
      add_zero]
  upper _ j hj := by
    rw [hcr3]
    exact hb.upper j hj

/-- The frames of a process whose address space has been replaced. -/
lemma Replaced.exchange {s' : Mm} {cr3 : UInt64} {i : Slot} (k' : Kernel)
    (hr : Replaced cr3 (k.processes i).cr3 k.mm s' k'.mm F F') (hi : (k.processes i).cr3 ≠ 0)
    (hcr3 : (k'.processes i).cr3 = cr3) (hne : cr3 ≠ 0)
    (hothers : ∀ j ≠ i, (k'.processes j).cr3 = (k.processes j).cr3) :
    Exchange k k' i F F' where
  pool := hr.pool
  hhdm := hr.hhdm
  kernelCr3 := hr.kernelCr3
  others := hothers
  mem x hxF hx := by
    rw [liveNodes_of_ne hi] at hx
    exact hr.frame x hxF hx
  frames := by
    rw [liveNodes_of_ne hi, liveNodes_of_ne (by rw [hcr3]; exact hne), hcr3, hr.nodes]
  upper _ j hj := by
    rw [hcr3]
    exact hr.upper j hj

/-- The frames of a process that has been reaped. -/
lemma reap_exchange {i : Slot} (h : Owned boot k F) (hi : (k.processes i).cr3 ≠ 0) :
    ∃ F', Exchange k (k.reap i) i F F' := by
  obtain ⟨F', hpool, hF', hhdm, hkernel, hframe⟩ := vmmDestroyUserSpace_spec hi h.pool
    (h.separate hi) fun x hx => h.tree_isFrame hi hx
  have hself : ((k.reap i).processes i).cr3 = 0 := by
    rw [reap_self]
    rfl
  refine ⟨F', hpool, hhdm, hkernel, fun j hj => by rw [reap_other hj], fun x _ hx => ?_, ?_, ?_⟩
  · rw [liveNodes_of_ne hi] at hx
    exact hframe x hx
  · rw [liveNodes_of_eq hself, liveNodes_of_ne hi, hF', add_zero, add_comm]
  · intro hne
    exact absurd hself hne

/-- The program that an `execve` event names, if any, has no segment that wraps around. -/
def ExecFits (k : Kernel) : Event → Prop
  | .syscall frame => syscallNumber frame.rax = .execve →
      ∀ file ∈ executedFile k frame, SegmentsFit k.kmem file
  | .store _ _ => True

section Load

variable {path : CString} {argv envp : List CString} {next : Process} {mm : Mm}

lemma Execs.fits (hexecs : Execs frame path argv envp k k₁)
    (hok : ∀ file ∈ executedFile k frame, SegmentsFit k.kmem file) :
    ∀ file, ramdiskFind k₁.kmem k₁.ramdisk path = some file → SegmentsFit k₁.kmem file := by
  intro file hfile
  rw [hexecs.isLocal.kmem, hexecs.isLocal.ramdisk, ← hexecs.file] at hfile
  rw [hexecs.isLocal.kmem]
  exact hok file hfile

/-- An `execve` that fails to load the program gives all frames back. -/
lemma Owned.load_failed (h : Owned boot k₁ F) (hexecs : Execs frame path argv envp k k₁)
    (hok : ∀ file ∈ executedFile k frame, SegmentsFit k.kmem file)
    (hload : loadProgram k₁.kmem k₁.ramdisk k₁.mm { k₁.current with cr3 := 0 } path argv envp =
      (false, next, mm)) : Restored k₁.mm mm F := by
  rcases loadProgram_spec { k₁.current with cr3 := 0 } hexecs.argv hexecs.envp h.pool
    h.kernel_free (hexecs.fits hok) with ⟨-, hr⟩ | ⟨htrue, -⟩
  · rw [hload] at hr
    exact hr
  · rw [hload] at htrue
    cases htrue

lemma Owned.load_done (h : Owned boot k₁ F) (hexecs : Execs frame path argv envp k k₁)
    (hok : ∀ file ∈ executedFile k frame, SegmentsFit k.kmem file)
    (hload : loadProgram k₁.kmem k₁.ramdisk k₁.mm { k₁.current with cr3 := 0 } path argv envp =
      (true, next, mm)) : ∃ file, executedFile k frame = some file ∧
        ProgramLoaded k.kmem file { k₁.current with cr3 := 0 } next k₁.mm mm F := by
  rcases loadProgram_spec { k₁.current with cr3 := 0 } hexecs.argv hexecs.envp h.pool
    h.kernel_free (hexecs.fits hok) with ⟨hfalse, -⟩ | ⟨-, file, hfile, hloaded⟩
  · rw [hload] at hfalse
    cases hfalse
  · rw [hload, hexecs.isLocal.kmem] at hloaded
    refine ⟨file, ?_, hloaded⟩
    rw [hexecs.file, ← hexecs.isLocal.kmem, ← hexecs.isLocal.ramdisk, hfile]

end Load

/-- The frames that an `execve` which succeeds exchanges. -/
lemma execed_exchange {file : RamdiskFile} {next : Process} {mm : Mm} (h : Owned boot k F)
    (hinv : TableInv k l)
    (hloaded : ProgramLoaded k.kmem file { k.current with cr3 := 0 } next k.mm mm F) :
    ∃ F' F'', Built (imagePaths k.kmem file) next.cr3 k.mm mm F F' ∧
      Replaced next.cr3 k.current.cr3 k.mm mm (vmmDestroyUserSpace mm k.current.cr3 userTop) F F'' ∧
      Exchange k (k.execed next (vmmDestroyUserSpace mm k.current.cr3 userTop)) k.currentProcess
        F F'' := by
  have hne := h.current_ne hinv
  obtain ⟨F', hbuilt, -⟩ := hloaded.built
  obtain ⟨F'', hrep⟩ := hbuilt.replace hne (h.separate (i := k.currentProcess) hne)
    fun x hx => h.tree_isFrame (i := k.currentProcess) hne hx
  refine ⟨F', F'', hbuilt, hrep, hrep.exchange
    (k.execed next (vmmDestroyUserSpace mm k.current.cr3 userTop)) hne ?_ ?_ ?_⟩
  · simp [Kernel.execed]
  · exact (h.pool.frames _ hbuilt.root).ne_zero
  · intro j hj
    simp [Kernel.execed, hj]

/-- A program that could not be loaded. -/
lemma Owned.unloaded_step {mm : Mm} (h : Owned boot k F) (hr : Restored k.mm mm F) :
    ∃ F', Owned boot { k with mm := mm } F' ∧ ∀ p, Kept p k { k with mm := mm } :=
  h.restored_step hr rfl (fun _ => rfl) h.current h.live

lemma Owned.vforkFailed_step {mm : Mm} (h : Owned boot k F) (hr : Restored k.mm mm F) :
    ∃ F', Owned boot (k.vforkFailed mm) F' ∧ ∀ p, Kept p k (k.vforkFailed mm) :=
  h.restored_step hr rfl (fun _ => rfl) h.current h.live

/-- The child's frames come from the free list; the parent's address space is kept. -/
lemma Owned.vforked_step {slot : Slot} {cr3 : UInt64} {mm mm' : Mm} (h : Owned boot k F)
    (frame : SyscallFrame) (hinv : TableInv k l) (hslot : (k.processes slot).state = .unused)
    (hnew : createKernelMappedPml4 k.mm = (cr3, mm)) (hcr3 : cr3 ≠ 0)
    (hclone : vmmCloneUserSpace mm k.current.cr3 cr3 userTop = (true, mm')) :
    ∃ F', Owned boot (k.vforked frame slot cr3 mm') F' ∧
      Copied k cr3 mm' (vmmDestroyUserSpace mm' cr3 userTop) true F F' ∧
      ∀ p ≠ slot, Kept p k (k.vforked frame slot cr3 mm') := by
  obtain ⟨F', hcopied⟩ := vfork_copied h hinv hnew hcr3 hclone
  have hne : slot ≠ k.currentProcess := by
    rintro rfl
    rw [(hinv.running _).mpr rfl] at hslot
    cases hslot
  have hchild : ((k.vforked frame slot cr3 mm').processes slot).cr3 = cr3 := by
    rw [vforked_slot hne]
    rfl
  have hother := k.vforked_field frame slot cr3 mm' Process.cr3 fun _ _ => rfl
  have hex : Exchange k (k.vforked frame slot cr3 mm') slot F F' := by
    refine Built.exchange (hcopied.built rfl) ?_ hchild hcr3 hother
    rw [hinv.unused slot hslot]
    rfl
  refine ⟨F', h.exchange hex hchild.symm fun j hj => ?_, hcopied, fun p hp => hex.kept h hp⟩
  by_cases hjslot : j = slot
  · rw [hjslot, hchild]
    exact hcr3
  · rw [hother j hjslot]
    by_cases hjcur : j = k.currentProcess
    · rw [hjcur]
      exact h.current_ne hinv
    · rw [vforked_other hjslot hjcur] at hj
      exact h.live j hj

lemma Owned.execed_step {file : RamdiskFile} {next : Process} {mm : Mm} (h : Owned boot k F)
    (hinv : TableInv k l)
    (hloaded : ProgramLoaded k.kmem file { k.current with cr3 := 0 } next k.mm mm F) :
    ∃ F', Owned boot (k.execed next (vmmDestroyUserSpace mm k.current.cr3 userTop)) F' ∧
      ∀ p ≠ k.currentProcess,
        Kept p k (k.execed next (vmmDestroyUserSpace mm k.current.cr3 userTop)) := by
  obtain ⟨_, F', hbuilt, -, hex⟩ := execed_exchange h hinv hloaded
  have hself : ((k.execed next (vmmDestroyUserSpace mm k.current.cr3 userTop)).processes
      k.currentProcess).cr3 = next.cr3 := by
    simp [Kernel.execed]
  refine ⟨F', h.exchange hex hself.symm fun j hj => ?_, fun p hp => hex.kept h hp⟩
  by_cases hjcur : j = k.currentProcess
  · rw [hjcur, hself]
    exact (h.pool.frames _ hbuilt.root).ne_zero
  · rw [hex.others j hjcur]
    have hsame : (k.execed next (vmmDestroyUserSpace mm k.current.cr3 userTop)).processes j =
        k.processes j := by
      simp [Kernel.execed, hjcur]
    rw [hsame] at hj
    exact h.live j hj

lemma Owned.reap_step {i : Slot} (h : Owned boot k F) (hinv : TableInv k l)
    (hz : (k.processes i).state = .zombie) :
    ∃ F', Owned boot (k.reap i) F' ∧ ∀ p ≠ i, Kept p k (k.reap i) := by
  have hlive : (k.processes i).cr3 ≠ 0 := h.live i (by rw [hz]; exact ProcessState.noConfusion)
  have hcur : k.currentProcess ≠ i := fun heq =>
    hinv.notMem_of_zombie hz (heq ▸ List.mem_cons_self)
  obtain ⟨F', hex⟩ := reap_exchange h hlive
  refine ⟨F', h.exchange hex ?_ fun j hj => ?_, fun p hp => hex.kept h hp⟩
  · show k.cr3 = ((k.reap i).processes k.currentProcess).cr3
    rw [reap_other hcur]
    exact h.current
  · have hji : j ≠ i := by
      rintro rfl
      rw [reap_self] at hj
      exact hj rfl
    rw [reap_other hji] at hj ⊢
    exact h.live j hj

lemma Owned.exited_step {parent : Slot} (h : Owned boot k F) (hinv : TableInv k (parent :: l))
    (status : UInt64) (hne : parent ≠ k.currentProcess) :
    ∃ F', Owned boot (k.exited status parent) F' ∧ ∀ p, Kept p k (k.exited status parent) := by
  have hcr3 := exited_field status Process.cr3 (fun _ _ _ => rfl) hne
  refine h.restored_step (.refl h.pool) rfl hcr3 (hcr3 parent).symm fun j hj => ?_
  rw [hcr3]
  by_cases hjp : j = parent
  · rw [hjp]
    refine h.live _ ?_
    rw [(hinv.blocked parent).mpr List.mem_cons_self]
    exact ProcessState.noConfusion
  · by_cases hjc : j = k.currentProcess
    · rw [hjc]
      exact h.current_ne hinv
    · rw [exited_other hjp hjc] at hj
      exact h.live j hj

/-- Every step keeps every frame in exactly one place, and the address spaces of the blocked
processes as they are. -/
theorem Owned.step (h : Owned boot k F) (hinv : TableInv k l) (hok : ExecFits k e)
    (hstep : step k e = some k') : ∃ F', Owned boot k' F' ∧ ∀ p ∈ l, Kept p k k' := by
  have hcur : ∀ p ∈ l, p ≠ k.currentProcess := fun p hp heq =>
    (List.nodup_cons.mp hinv.nodup).1 (heq ▸ hp)
  cases step_cases hstep with
  | stays hlocal =>
    obtain ⟨F', h', hkept⟩ := h.local_step hinv hlocal
    exact ⟨F', h', fun p hp => hkept p (hcur p hp)⟩
  | @vfork frame r _ hn hvfork =>
    have hends := hinv.vfork_ends frame
    rw [hvfork] at hends
    cases hends with
    | full => exact ⟨F, h, fun p _ => .refl p k⟩
    | noFrame hslot hnew =>
      obtain ⟨F', h', hkept⟩ := h.vforkFailed_step (createKernelMappedPml4_zero h hnew)
      exact ⟨F', h', fun p _ => hkept p⟩
    | noCopy hslot hnew hcr3 hclone =>
      obtain ⟨_, hcopied⟩ := vfork_copied h hinv hnew hcr3 hclone
      obtain ⟨F', h', hkept⟩ := h.vforkFailed_step hcopied.restored
      exact ⟨F', h', fun p _ => hkept p⟩
    | done hslot hnew hcr3 hclone =>
      have hunused := unusedSlot_some hslot
      obtain ⟨F', h', -, hkept⟩ := h.vforked_step frame hinv hunused hnew hcr3 hclone
      refine ⟨F', h', fun p hp => hkept p ?_⟩
      rintro rfl
      rw [(hinv.blocked p).mpr hp] at hunused
      cases hunused
  | @execve frame path argv envp k₁ hn hexecs =>
    obtain ⟨F₁, h₁, hkept₁⟩ := h.local_step hinv hexecs.isLocal
    have hinv₁ := hexecs.isLocal.sameTable.inv hinv
    have hends := execveLoaded_ends frame path argv envp k₁
    generalize execveLoaded frame path argv envp k₁ = r at hends
    cases hends with
    | failed hload =>
      obtain ⟨F', h', hkept⟩ := h₁.unloaded_step (h₁.load_failed hexecs (hok hn) hload)
      exact ⟨F', h', fun p hp => (hkept₁ p (hcur p hp)).trans (hkept p)⟩
    | done hload =>
      obtain ⟨file, -, hloaded⟩ := h₁.load_done hexecs (hok hn) hload
      rw [← hexecs.isLocal.kmem] at hloaded
      obtain ⟨F', h', hkept⟩ := h₁.execed_step hinv₁ hloaded
      refine ⟨F', h', fun p hp => (hkept₁ p (hcur p hp)).trans (hkept p ?_)⟩
      rw [hexecs.isLocal.currentProcess]
      exact hcur p hp
  | @wait4 frame i k₁ hn hzombie hlocal =>
    obtain ⟨F₁, h₁, hkept₁⟩ := h.local_step hinv hlocal
    have hinv₁ := hlocal.sameTable.inv hinv
    have hz : (k₁.processes i).state = .zombie := by
      rw [hlocal.sameTable.field Process.state fun _ _ _ _ _ _ => rfl]
      exact (zombieChild_some hzombie).1
    obtain ⟨F', h', hkept⟩ := h₁.reap_step hinv₁ hz
    refine ⟨F', h', fun p hp => (hkept₁ p (hcur p hp)).trans (hkept p ?_)⟩
    rintro rfl
    exact hinv₁.notMem_of_zombie hz (List.mem_cons_of_mem _ hp)
  | @exit frame r _ hn hexit =>
    obtain ⟨parent, l', rfl, -, hne, rfl, -⟩ := hinv.exit_ok hexit
    obtain ⟨F', h', hkept⟩ := h.exited_step hinv frame.rdi hne
    exact ⟨F', h', fun p _ => hkept p⟩

end Xbks
