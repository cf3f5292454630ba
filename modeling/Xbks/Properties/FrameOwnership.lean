import Xbks.Properties.ProcessTable

/-!
# Every frame is in exactly one place

From the state that `mmInit` builds, through any run, the frames handed to the allocator are either
free or in the page-table tree of one process.
-/

namespace Xbks

variable {boot : BootInfo} {ok : Kernel → Event → Prop} {es : List Event} {k : Kernel}
  {F : List UInt64}

/-- Every frame has one owner and the table is in order. -/
def Tidy (boot : BootInfo) (k : Kernel) : Prop := ∃ l F, TableInv k l ∧ Owned boot.memory k F

lemma Tidy.step {k' : Kernel} {e : Event} (h : Tidy boot k) (hok : ExecFits k e) (hstep : step k e = some k') :
    Tidy boot k' := by
  obtain ⟨l, F, hinv, howned⟩ := h
  obtain ⟨l', hinv'⟩ := hinv.step hstep
  obtain ⟨F', howned', -⟩ := howned.step hinv hok hstep
  exact ⟨l', F', hinv', howned'⟩

/-- Ownership is kept on every run whose programs have no segment that wraps around. -/
theorem owned_of_run (hboot : boot.memory.Valid) (hinit : InitFits boot) (hstart : Starts boot)
    (hrun : Run ExecFits (started boot) es k) :
    ∃ l F, TableInv k l ∧ Owned boot.memory k F := by
  refine hrun.invariant (P := Tidy boot) ?_ fun htidy hok hstep => htidy.step hok hstep
  obtain ⟨F, howned, -⟩ := owned_started hboot hinit hstart
  exact ⟨[], F, tableInv_started hstart, howned⟩

/-- In every state of every run each frame handed to the allocator is exactly once in exactly one
place: on the free list or in the page-table tree of one process. The free counter counts the free
list, the number of frames is constant, and live address spaces share the kernel's upper half. -/
theorem frame_ownership (hboot : boot.memory.Valid) (hinit : InitFits boot)
    (hstart : Starts boot) (hrun : Run ExecFits (started boot) es k) :
    ∃ F, Pool k.mm F ∧
      (∀ x ∈ boot.memory.handedFrames,
        F.count x + ∑ i, (liveNodes k.mm (k.processes i)).count x = 1) ∧
      (F : Multiset UInt64) + ∑ i, liveNodes k.mm (k.processes i) =
        (boot.memory.handedFrames : Multiset UInt64) ∧
      k.mm.freeFrameCount.toNat = F.length ∧
      k.mm.freeFrameCount.toNat + ∑ i, (liveNodes k.mm (k.processes i)).card =
        boot.memory.handedFrames.length ∧
      ∀ i, (k.processes i).cr3 ≠ 0 → ∀ j : Fin 512, 256 ≤ j.val →
        k.mm.mem (k.processes i).cr3 j = boot.memory.mem (boot.memory.cr3 &&& ~~~0xfff) j := by
  obtain ⟨l, F, hinv, howned⟩ := owned_of_run hboot hinit hstart hrun
  have hcount : k.mm.freeFrameCount.toNat = F.length := howned.pool.toNat_freeFrameCount
  refine ⟨F, howned.pool, fun x hx => ?_, howned.frames, hcount, ?_, fun i hi j hj => ?_⟩
  · have hone := Multiset.count_eq_one_of_mem (Multiset.coe_nodup.mpr howned.nodup)
      (Multiset.mem_coe.mpr hx)
    rw [← howned.frames, Multiset.count_add, Multiset.coe_count, Multiset.count_sum'] at hone
    exact hone
  · have hcard := congrArg Multiset.card howned.frames
    rw [Multiset.card_add, Multiset.coe_card, Multiset.card_sum, Multiset.coe_card] at hcard
    rw [hcount, hcard]
  · rw [howned.upper i hi j hj, howned.kernelPml4, howned.outside]
    exact hboot.kernel_notMem .root

/-- The 4096 frames of the small machine after its first process has called `vfork`. -/
theorem frame_ownership_small : ∃ k,
    Run ExecFits (started (smallBoot 0x10000)) [.syscall (call 58)] k ∧
      k.mm.freeFrameCount.toNat + ∑ i, (liveNodes k.mm (k.processes i)).card = 4096 := by
  obtain ⟨cr3, mm, F, -, hstep, -⟩ := small_vfork
  have hrun : Run ExecFits (started (smallBoot 0x10000)) [.syscall (call 58)] _ :=
    .snoc .nil (execFits_call (by decide) _) hstep
  obtain ⟨F', -, -, -, -, hcount, -⟩ := frame_ownership (smallBoot_valid 0x10000)
    smallProgram.initFits smallBoot_starts hrun
  rw [smallBoot_frames] at hcount
  exact ⟨_, hrun, hcount⟩

end Xbks
