import Mathlib.Data.Finset.Card
import Xbks.Lib.Linked
import Xbks.Mm.Basic

/-!
# The frame allocator

`Pool s F` says that the free list threaded through the frames of `s` is `F`. Allocation pops the
head of the list and clears it, freeing pushes a frame.
-/

namespace Xbks

/-- A frame address that survives being stored in a page-table entry and whose address in the
direct map is not the null pointer. -/
structure IsFrame (hhdm frame : UInt64) : Prop where
  aligned : frame.toNat % 4096 = 0
  ne_zero : frame ≠ 0
  lt : frame.toNat < 2 ^ 52
  visible : frame + hhdm ≠ 0

structure Pool (s : Mm) (F : List UInt64) : Prop where
  threaded : Linked.Threaded 0 (physToVirt s) (fun f => s.mem f 0) s.freeFrames F
  count : s.freeFrameCount = UInt64.ofNat F.length
  frames : ∀ f ∈ F, IsFrame s.hhdmOffsetValue f
  nodup : F.Nodup

variable {s s' : Mm} {F : List UInt64} {f : UInt64}

lemma toNat_alignDown (v : UInt64) : (alignDown v pageSize).toNat = v.toNat / 4096 * 4096 :=
  Word.toNat_and_not_mask v 4096 (k := 12) (by norm_num) rfl

lemma alignDown_of_aligned {v : UInt64} (h : v.toNat % 4096 = 0) : alignDown v pageSize = v := by
  rw [← UInt64.toNat_inj, toNat_alignDown]
  omega

lemma toNat_alignUp {v : UInt64} (h : v.toNat + 4096 ≤ 2 ^ 64) :
    (alignUp v pageSize).toNat = (v.toNat + 4095) / 4096 * 4096 := by
  have hsum : (v + pageSize - 1).toNat = v.toNat + 4095 := by
    rw [add_sub_assoc]
    exact Word.toNat_add_of_lt v 4095 (by
      rw [show (4095 : UInt64).toNat = 4095 from rfl]
      omega)
  rw [alignUp, Word.toNat_and_not_mask _ 4096 (k := 12) (by norm_num) rfl, hsum]
  norm_num

lemma physToVirt_injective (s : Mm) : Function.Injective (physToVirt s) := by
  intro f g h
  exact add_right_cancel h

/-- The free list is determined by memory. -/
lemma Pool.unique {G : List UInt64} (h : Pool s F) (h' : Pool s G) : F = G :=
  h.threaded.unique (physToVirt_injective s) h'.threaded

/-- There are fewer frames than addresses, so the counter does not wrap around. -/
lemma Pool.toNat_freeFrameCount (h : Pool s F) : s.freeFrameCount.toNat = F.length := by
  have hsub : (F.map UInt64.toNat).toFinset ⊆ Finset.range (2 ^ 52) := by
    intro n hn
    rw [List.mem_toFinset, List.mem_map] at hn
    obtain ⟨f, hf, rfl⟩ := hn
    exact Finset.mem_range.mpr (h.frames f hf).lt
  have hnd : (F.map UInt64.toNat).Nodup :=
    h.nodup.map fun _ _ hab => UInt64.toNat_inj.mp hab
  have hcard := Finset.card_le_card hsub
  rw [List.toFinset_card_of_nodup hnd, List.length_map, Finset.card_range] at hcard
  rw [h.count, Word.toNat_ofNat_of_lt (by omega)]

/-- Only the first words of the free frames and the allocator's variables matter. -/
lemma Pool.congr (h : Pool s F) (hmem : ∀ f ∈ F, s'.mem f 0 = s.mem f 0)
    (hhead : s'.freeFrames = s.freeFrames) (hcount : s'.freeFrameCount = s.freeFrameCount)
    (hhdm : s'.hhdmOffsetValue = s.hhdmOffsetValue) : Pool s' F where
  threaded := by
    have hptr : physToVirt s' = physToVirt s := by
      funext f
      simp [physToVirt, hhdm]
    rw [hhead, hptr]
    exact h.threaded.congr hmem
  count := hcount.trans h.count
  frames := by
    rw [hhdm]
    exact h.frames
  nodup := h.nodup

/-! ### Allocation -/

@[simp] lemma take_mem : (s.take f).mem = Function.update s.mem f zeroPage := rfl

@[simp] lemma take_hhdm : (s.take f).hhdmOffsetValue = s.hhdmOffsetValue := rfl

@[simp] lemma take_kernelCr3 : (s.take f).kernelCr3Value = s.kernelCr3Value := rfl

lemma Pool.alloc_nil (h : Pool s []) : pmmAllocFrame s = (0, s) := by
  have hnull : s.freeFrames = 0 := h.threaded
  simp [pmmAllocFrame, hnull]

lemma Pool.alloc_cons (h : Pool s (f :: F)) : pmmAllocFrame s = (f, s.take f) := by
  obtain ⟨hne, hf, -⟩ := h.threaded
  have hphys : virtToPhys s s.freeFrames = f := by
    rw [hf, virtToPhys, physToVirt, add_sub_cancel_right]
  simp [pmmAllocFrame, hne, hphys, Mm.take]

lemma Pool.take (h : Pool s (f :: F)) : Pool (s.take f) F where
  threaded := by
    have hf := (List.nodup_cons.mp h.nodup).1
    refine h.threaded.2.2.congr fun g hg => ?_
    rw [take_mem, Function.update_of_ne]
    rintro rfl
    exact hf hg
  count := by
    show s.freeFrameCount - 1 = _
    rw [h.count, List.length_cons, UInt64.ofNat_add]
    exact add_sub_cancel_right _ _
  frames := fun g hg => h.frames g (List.mem_cons_of_mem f hg)
  nodup := (List.nodup_cons.mp h.nodup).2

/-! ### Freeing -/

lemma put_mem_of_ne {g : UInt64} (h : g ≠ f) : (s.put f).mem g = s.mem g :=
  Function.update_of_ne h _ _

@[simp] lemma put_hhdm : (s.put f).hhdmOffsetValue = s.hhdmOffsetValue := rfl

@[simp] lemma put_kernelCr3 : (s.put f).kernelCr3Value = s.kernelCr3Value := rfl

lemma pmmFreeFrame_eq (hf : IsFrame s.hhdmOffsetValue f) : pmmFreeFrame s f = s.put f := by
  simp [pmmFreeFrame, Mm.put, hf.ne_zero, alignDown_of_aligned hf.aligned]

lemma Pool.put (h : Pool s F) (hf : IsFrame s.hhdmOffsetValue f) (hfresh : f ∉ F) :
    Pool (s.put f) (f :: F) where
  threaded := by
    refine ⟨hf.visible, rfl, ?_⟩
    have hlink : (s.put f).mem f 0 = s.freeFrames := by
      simp [Mm.put, Mm.setEntry, Mm.setPage]
    show Linked.Threaded 0 (physToVirt s) (fun g => (s.put f).mem g 0) ((s.put f).mem f 0) F
    rw [hlink]
    refine h.threaded.congr fun g hg => ?_
    rw [put_mem_of_ne]
    rintro rfl
    exact hfresh hg
  count := by
    show s.freeFrameCount + 1 = _
    rw [h.count, List.length_cons, UInt64.ofNat_add]
    rfl
  frames := by
    intro g hg
    rcases List.mem_cons.mp hg with rfl | hg
    · exact hf
    · exact h.frames g hg
  nodup := List.nodup_cons.mpr ⟨hfresh, h.nodup⟩

/-! ### The initial free list -/

lemma pmmFreeFrame_zero : pmmFreeFrame s 0 = s := by
  simp [pmmFreeFrame]

/-- Freeing a list of distinct frames that are not free yet puts them all on the free list. -/
lemma Pool.free_all {fs : List UInt64} (h : Pool s F) (hnd : (fs ++ F).Nodup)
    (hfs : ∀ f ∈ fs, IsFrame s.hhdmOffsetValue f) :
    Pool (fs.foldl pmmFreeFrame s) (fs.reverse ++ F) ∧
      (fs.foldl pmmFreeFrame s).hhdmOffsetValue = s.hhdmOffsetValue ∧
      (fs.foldl pmmFreeFrame s).kernelCr3Value = s.kernelCr3Value ∧
      ∀ g ∉ fs, (fs.foldl pmmFreeFrame s).mem g = s.mem g := by
  induction fs generalizing s F with
  | nil => exact ⟨h, rfl, rfl, fun _ _ => rfl⟩
  | cons f fs ih =>
    have hf := hfs f List.mem_cons_self
    rw [List.cons_append, List.nodup_cons, List.mem_append, not_or] at hnd
    obtain ⟨⟨hf₁, hf₂⟩, hnd⟩ := hnd
    have hnd' : (fs ++ f :: F).Nodup := by
      rw [List.nodup_middle, List.nodup_cons, List.mem_append, not_or]
      exact ⟨⟨hf₁, hf₂⟩, hnd⟩
    rw [List.foldl_cons, pmmFreeFrame_eq hf]
    obtain ⟨hpool, hhdm, hcr3, hmem⟩ := ih (h.put hf hf₂) hnd'
      fun g hg => hfs g (List.mem_cons_of_mem f hg)
    refine ⟨?_, hhdm, hcr3, fun g hg => ?_⟩
    · rw [List.reverse_cons, List.append_assoc]
      exact hpool
    · rw [List.mem_cons, not_or] at hg
      rw [hmem g hg.2, put_mem_of_ne hg.1]

end Xbks
