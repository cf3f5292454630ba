import Xbks.Properties.Views

/-!
# vfork suspends the parent

After a `vfork` the child runs in a copy of the parent's address space until it exits. Whatever it
and its descendants do, the parent is resumed with the frame, the record and the memory it had.
-/

namespace Xbks

variable {boot : BootInfo} {es es' : List Event} {k₀ k k' : Kernel} {l : List Slot} {e : Event}
  {p c : Slot} {frame saved : SyscallFrame} {pid : ℤ} {F : List UInt64}

/-- In state `k` the process in slot `p` waits for its child in slot `c`, and has been since `k₀`. -/
structure Suspended (k₀ : Kernel) (p c : Slot) (saved : SyscallFrame) (pid : ℤ) (k : Kernel)
    (l : List Slot) : Prop where
  inv : TableInv k l
  chain : ∃ pre post, k.currentProcess :: l = pre ++ c :: p :: post
  record : k.processes p = { k₀.processes p with state := .blocked }
  saved : (k.processes c).savedParentFrame = saved
  pid : (k.processes c).pid = pid
  kept : Kept p k₀ k

lemma Suspended.child_mem (h : Suspended k₀ p c saved pid k l) : c ∈ k.currentProcess :: l := by
  obtain ⟨pre, post, hchain⟩ := h.chain
  simp [hchain]

lemma Suspended.parent_mem (h : Suspended k₀ p c saved pid k l) : p ∈ l := by
  obtain ⟨pre, post, hchain⟩ := h.chain
  cases pre with
  | nil =>
    cases hchain
    exact List.mem_cons_self
  | cons i pre =>
    cases hchain
    simp

/-- Every step but the child's own exit keeps the parent suspended. -/
lemma Suspended.step (h : Suspended k₀ p c saved pid k l) (howned : Owned boot.memory k F)
    (hok : ExecFits k e) (hexit : k.currentProcess = c → e.isExit = false)
    (hstep : step k e = some k') : ∃ l', Suspended k₀ p c saved pid k' l' := by
  obtain ⟨F', -, hkept⟩ := howned.step h.inv hok hstep
  obtain ⟨l', htable⟩ := h.inv.tableStep hstep
  obtain ⟨pre, post, hchain⟩ := h.chain
  have hp := h.parent_mem
  have hchain' : ∃ pre post, k'.currentProcess :: l' = pre ++ c :: p :: post := by
    rcases htable.chain with hsame | ⟨slot, hpush⟩ | ⟨hpop, he⟩
    · exact ⟨pre, post, hsame.trans hchain⟩
    · exact ⟨slot :: pre, post, by rw [hpush, hchain, List.cons_append]⟩
    · -- the process that exits is not the child
      cases pre with
      | nil =>
        have hcur : k.currentProcess = c := (List.cons.inj hchain).1
        rw [hexit hcur] at he
        cases he
      | cons i pre =>
        exact ⟨pre, post, hpop.trans (List.cons.inj hchain).2⟩
  -- the parent does not become current: it stands behind the child
  have hne : p ≠ k'.currentProcess := by
    obtain ⟨pre', post', hchain'⟩ := hchain'
    have hnd := htable.inv.nodup
    rw [hchain'] at hnd
    cases pre' with
    | nil =>
      rw [(List.cons.inj hchain').1]
      rintro rfl
      simp at hnd
    | cons i pre' =>
      rw [(List.cons.inj hchain').1]
      rintro rfl
      simp at hnd
  refine ⟨l', htable.inv, hchain', ?_, ?_, ?_, h.kept.trans (hkept p hp)⟩
  · rw [htable.blocked p hp hne, h.record]
  · rw [htable.saved c h.child_mem, h.saved]
  · rw [htable.pid c h.child_mem, h.pid]

/-- A successful `vfork`, which answers 0 to the child, suspends the caller. -/
lemma suspended_vfork {f : SyscallFrame} (hinv : TableInv k l) (howned : Owned boot.memory k F)
    (hn : syscallNumber frame.rax = .vfork)
    (h : processSyscallDispatch frame k = (.ok (0, f), k')) :
    ∃ F' saved, Owned boot.memory k' F' ∧ { saved with rax := toU64 k'.current.pid } =
        { frame with rax := toU64 k'.current.pid } ∧
      Suspended k k.currentProcess k'.currentProcess saved k'.current.pid k'
        (k.currentProcess :: l) := by
  rw [processSyscallDispatch, hn] at h
  have hends := hinv.vfork_ends frame
  rw [show syscallVfork frame k = (.ok (0, f), k') from h] at hends
  generalize hr : ((.ok (0, f) : Except Stop (UInt64 × SyscallFrame)), k') = r at hends
  cases hends with
  | full => simp [negativeErrno, Errno.code] at hr
  | noFrame => simp [negativeErrno, Errno.code] at hr
  | noCopy => simp [negativeErrno, Errno.code] at hr
  | @done slot cr3 mm mm' hslot hnew hcr3 hclone =>
    cases hr
    have hunused := unusedSlot_some hslot
    have hne : k.currentProcess ≠ slot := hinv.ne_unused List.mem_cons_self hunused
    obtain ⟨F', howned', -, hkept⟩ := howned.vforked_step frame hinv hunused hnew hcr3 hclone
    have hchild : (k.vforked frame slot cr3 mm').current =
        .vforked frame k.nextPid k.currentProcess k.current cr3 := vforked_slot hne.symm
    refine ⟨F', (Process.vforked frame k.nextPid k.currentProcess k.current cr3).savedParentFrame,
      howned', rfl, ?_⟩
    exact
      { inv := hinv.vforked hunused cr3 mm'
        chain := ⟨[], l, rfl⟩
        record := vforked_parent
        saved := congrArg Process.savedParentFrame hchild
        pid := rfl
        kept := hkept _ hne }

/-- The content of every page mapped by an address space that has been kept. -/
lemma Kept.byte {a physical : UInt64} (h : Kept p k k') (hp : (k.processes p).cr3 ≠ 0)
    (ha : a < userTop) (ht : vmmTranslate k.mm (k.processes p).cr3 a = some physical) :
    k'.mm.byte physical = k.mm.byte physical := by
  rw [lt_userTop_iff] at ha
  obtain ⟨-, -, hleaf⟩ := translate_add (k := 0) (by omega) (by omega) ht
  have hmem := h.mem
  rw [liveNodes_of_ne hp] at hmem
  rw [Mm.byte, hmem _ (Radix.mem_nodes_of_mem_leaves hleaf), Mm.byte]

lemma Kept.translate {a : UInt64} (h : Kept p k k') (hp : (k.processes p).cr3 ≠ 0)
    (ha : a < userTop) : vmmTranslate k'.mm (k.processes p).cr3 a =
      vmmTranslate k.mm (k.processes p).cr3 a := by
  have hlow := lowerHalf_of_lt (lt_userTop_iff.mp ha)
  have hlookup := h.lookup hp
  rw [h.cr3] at hlookup
  rw [vmmTranslate_eq hlow, vmmTranslate_eq hlow, hlookup]

/-- When a child of `vfork` exits, after any run of its own and its descendants' steps, its parent
continues with the frame it called `vfork` with, the child's process number in `rax`, and its
record, page tables and memory as they were. -/
theorem vfork_resumes {f exitFrame : SyscallFrame} {k₁ : Kernel} (hboot : boot.memory.Valid)
    (hinit : InitFits boot) (hstart : Starts boot) (hrun : Run ExecFits (started boot) es k)
    (hvfork : syscallNumber frame.rax = .vfork)
    (hchild : processSyscallDispatch frame k = (.ok (0, f), k₀))
    (hrun' : Run (fun k e => ExecFits k e ∧
      (k.currentProcess = k₀.currentProcess → e.isExit = false)) k₀ es' k₁)
    (hcurrent : k₁.currentProcess = k₀.currentProcess)
    (hexit : syscallNumber exitFrame.rax = .exit) :
    ∃ k₂, processSyscallDispatch exitFrame k₁ =
        (.ok (toU64 k₀.current.pid, { frame with rax := toU64 k₀.current.pid }), k₂) ∧
      k₂.currentProcess = k.currentProcess ∧ k₂.current = k.current ∧ k₂.current.state = .running ∧
      k₂.cr3 = k.current.cr3 ∧
      ∀ a < userTop, vmmTranslate k₂.mm k.current.cr3 a = vmmTranslate k.mm k.current.cr3 a ∧
        ∀ physical, vmmTranslate k.mm k.current.cr3 a = some physical →
          k₂.mm.byte physical = k.mm.byte physical := by
  obtain ⟨l, F, hinv, howned⟩ := owned_of_run hboot hinit hstart hrun
  have hne := howned.current_ne hinv
  obtain ⟨F₀, saved, howned₀, hsaved, hsusp₀⟩ := suspended_vfork hinv howned hvfork hchild
  have hinvariant : ∃ l F, Owned boot.memory k₁ F ∧
      Suspended k k.currentProcess k₀.currentProcess saved k₀.current.pid k₁ l := by
    refine hrun'.invariant (P := fun k₁ => ∃ l F, Owned boot.memory k₁ F ∧
      Suspended k k.currentProcess k₀.currentProcess saved k₀.current.pid k₁ l) ?_ ?_
    · exact ⟨_, F₀, howned₀, hsusp₀⟩
    · rintro k' k'' e ⟨l', F', howned', hsusp'⟩ ⟨hok, hno⟩ hstep
      obtain ⟨F'', howned'', -⟩ := howned'.step hsusp'.inv hok hstep
      obtain ⟨l'', hsusp''⟩ := hsusp'.step howned' hok hno hstep
      exact ⟨l'', F'', howned'', hsusp''⟩
  obtain ⟨l₁, F₁, howned₁, hsusp⟩ := hinvariant
  -- the child is the current process, so the parent is the next of the chain
  obtain ⟨l', hl'⟩ : ∃ l', l₁ = k.currentProcess :: l' := by
    obtain ⟨pre, post, hchain⟩ := hsusp.chain
    cases pre with
    | nil => exact ⟨post, (List.cons.inj hchain).2⟩
    | cons i pre =>
      have hnd := hsusp.inv.nodup
      rw [hchain, ← (List.cons.inj hchain).1, hcurrent] at hnd
      simp at hnd
  subst hl'
  have hparent : k₁.current.vforkParent = some k.currentProcess := hsusp.inv.chain.2.1
  have hpne : k.currentProcess ≠ k₁.currentProcess := hsusp.inv.ne_current List.mem_cons_self
  have hpid : k₁.current.pid = k₀.current.pid := by
    rw [Kernel.current, hcurrent]
    exact hsusp.pid
  have hframe : k₁.current.savedParentFrame = saved := by
    rw [Kernel.current, hcurrent]
    exact hsusp.saved
  have hkept : Kept k.currentProcess k (k₁.exited exitFrame.rdi k.currentProcess) := by
    obtain ⟨-, -, hkept⟩ := howned₁.exited_step hsusp.inv exitFrame.rdi hpne
    exact hsusp.kept.trans (hkept _)
  have hself : (k₁.exited exitFrame.rdi k.currentProcess).current = k.current := by
    show (k₁.exited exitFrame.rdi k.currentProcess).processes k.currentProcess = k.current
    rw [exited_parent, hsusp.record, ← hinv.current_running]
    rfl
  refine ⟨k₁.exited exitFrame.rdi k.currentProcess, ?_, rfl, hself, ?_, ?_, fun a ha => ?_⟩
  · rw [processSyscallDispatch, hexit]
    dsimp only
    rw [syscallExit_eq hparent hpne, hpid, hframe, hsaved]
  · rw [hself]
    exact hinv.current_running
  · show (k₁.processes k.currentProcess).cr3 = k.current.cr3
    rw [hsusp.record]
    rfl
  · exact ⟨hkept.translate hne ha, fun physical ht => hkept.byte hne ha ht⟩

/-- The first process stores 7 at 0x10000 and calls `vfork`. Its child stores 9 there and exits, and the first
process finds 7. -/
theorem vfork_resumes_small : ∃ k k₀ k₁ k₂,
    Run ExecFits (started (smallBoot 0x10000)) [.store 0x10000 7] k ∧
    processSyscallDispatch (call 58) k = (.ok (0, call 58), k₀) ∧ Run ExecFits k₀ [.store 0x10000 9] k₁ ∧
    processSyscallDispatch (call 60) k₁ =
      (.ok (toU64 k₀.current.pid, { call 58 with rax := toU64 k₀.current.pid }), k₂) ∧
    k₂.current = k.current ∧ k.view 0x10000 = some 7 ∧ k₁.view 0x10000 = some 9 ∧ k₂.view 0x10000 = some 7 := by
  have hvalid := smallBoot_valid 0x10000
  have hinit := smallProgram.initFits
  have hstart := smallBoot_starts
  have hstates := started_state hstart
  have hcur := started_current hstart
  have hhas : (started (smallBoot 0x10000)).view.Has 0x10000 1 := fun x hge hlt => small_has x hge (by omega)
  obtain ⟨F₀, howned₀, hlen⟩ := owned_started hvalid hinit hstart
  have hlen := hlen _ smallProgram.file
  rw [smallProgram.cost, smallBoot_frames, ← howned₀.pool.toNat_freeFrameCount] at hlen
  have htidy : Tidy (smallBoot 0x10000) (started (smallBoot 0x10000)) := ⟨[], F₀, tableInv_started hstart, howned₀⟩
  -- the first process stores a byte
  obtain ⟨k, hstep, hstored⟩ := step_store (a := 0x10000) htidy.intact (by decide)
    (hhas 0x10000 (le_refl _) (by norm_num)) 7
  have hrun : Run ExecFits (started (smallBoot 0x10000)) [.store 0x10000 7] k := .snoc .nil trivial hstep
  obtain ⟨l, F, hinv, howned⟩ := owned_of_run hvalid hinit hstart hrun
  rw [← step_store_frames hstep, howned.pool.toNat_freeFrameCount] at hlen
  rw [← hstored.processes] at hstates
  rw [← hstored.currentProcess] at hcur
  have hhas := (hstored.has_iff hhas).mpr hhas
  have hseven : k.view 0x10000 = some 7 := by
    rw [hstored.view]
    exact Memory.store_inside (le_refl _) (by decide)
  -- its child stores another one
  have hframes := howned.frames_le hinv
  rw [smallBoot_frames] at hframes
  obtain ⟨cr3, mm, mm', hnew, hcr3, hclone⟩ := vfork_copies howned hinv (by omega)
  have hslot : unusedSlot k.processes = some 1 := by
    rw [unusedSlot_eq hstates]
    decide
  have hne : k.currentProcess ≠ 1 := by
    rw [hcur]
    decide
  have hvfork := syscallVfork_done (call 58) hslot hne hnew hcr3 hclone
  have hcall : processSyscallDispatch (call 58) k = (.ok (0, call 58), k.vforked (call 58) 1 cr3 mm') := by
    rw [processSyscallDispatch, show syscallNumber (call 58).rax = .vfork by decide]
    exact hvfork
  have hview := @vforked_view _ _ _ _ (call 58) 1 _ _ _ howned hinv hnew hcr3 hclone
  have htidy : Tidy (smallBoot 0x10000) (k.vforked (call 58) 1 cr3 mm') := by
    obtain ⟨F', howned', -⟩ := howned.vforked_step (call 58) hinv (hstates 1) hnew hcr3 hclone
    exact ⟨_, F', hinv.vforked (hstates 1) cr3 mm', howned'⟩
  generalize k.vforked (call 58) 1 cr3 mm' = k₀ at *
  obtain ⟨k₁, hstep₁, hstored₁⟩ := step_store (a := 0x10000) htidy.intact (by decide)
    (by rw [hview]; exact hhas 0x10000 (le_refl _) (by norm_num)) 9
  have hrun₁ : Run (fun k e => ExecFits k e ∧ (k.currentProcess = k₀.currentProcess → e.isExit = false)) k₀
      [.store 0x10000 9] k₁ := .snoc .nil ⟨trivial, fun _ => rfl⟩ hstep₁
  obtain ⟨k₂, hexit, -, hself, -, hroot, hmem⟩ := vfork_resumes hvalid hinit hstart hrun (by decide) hcall hrun₁
    hstored₁.currentProcess (show syscallNumber (call 60).rax = .exit by decide)
  refine ⟨k, k₀, k₁, k₂, hrun, hcall, .snoc .nil trivial hstep₁, hexit, hself, hseven, ?_, ?_⟩
  · rw [hstored₁.view]
    exact Memory.store_inside (le_refl _) (by decide)
  · obtain ⟨htranslate, hbyte⟩ := hmem 0x10000 (by decide)
    have hparent : k.view 0x10000 = (vmmTranslate k.mm k.current.cr3 0x10000).map k.mm.byte := by
      rw [← howned.current]
      exact view_toNat (v := 0x10000) (by decide)
    have hresumed : k₂.view 0x10000 = (vmmTranslate k₂.mm k.current.cr3 0x10000).map k₂.mm.byte := by
      rw [← hroot]
      exact view_toNat (v := 0x10000) (by decide)
    rw [hresumed, htranslate]
    rw [hparent] at hseven
    obtain ⟨physical, hphysical, hvalue⟩ := Option.map_eq_some_iff.mp hseven
    rw [hphysical, Option.map_some, hbyte physical hphysical, hvalue]

end Xbks
