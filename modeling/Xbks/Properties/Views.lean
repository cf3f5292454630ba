import Xbks.Process.Outputs
import Xbks.Properties.Heap

/-!
# When a memory stays the same

The memory of a process is what its page tables show. It survives every change of the machine that keeps the
translations and the pages they lead to, and `vfork` gives the child the same one. `brk` adds zeros to it, also
when it fails on the way.
-/

namespace Xbks

variable {boot : BootMemory} {s s' : Mm} {p q : UInt64} {F F' : List UInt64} {k k' : Kernel} {i : Slot}

/-- Address spaces whose pages are copies of each other show the same memory. -/
lemma view_of_copies (h : ∀ path, Option.Rel (CopyOf s s') (s.lookup 4 p path) (s'.lookup 4 q path)) :
    s'.view q = s.view p := by
  funext a
  by_cases ha : a < 2 ^ 47
  · have hv : (UInt64.ofNat a).toNat = a := Word.toNat_ofNat_of_lt (by omega)
    rw [← hv, view_eq_map (by omega), view_eq_map (by omega)]
    have hpath := h (pathOf (UInt64.ofNat a))
    generalize s.lookup 4 p (pathOf (UInt64.ofNat a)) = e at *
    generalize s'.lookup 4 q (pathOf (UInt64.ofNat a)) = e' at *
    cases hpath with
    | none => rfl
    | some hcopy => rw [Option.map_some, Option.map_some, hcopy.content]
  · rw [Mm.view, Mm.view, if_neg ha, if_neg ha]

/-- Keeping the translations and the pages. -/
lemma view_of_same (hlookup : ∀ path, s'.lookup 4 p path = s.lookup 4 p path)
    (hcontent : ∀ path e, s.lookup 4 p path = some e →
      s'.mem (pageTableFromEntry e) = s.mem (pageTableFromEntry e)) : s'.view p = s.view p := by
  apply view_of_copies
  intro path
  rw [hlookup]
  cases he : s.lookup 4 p path with
  | none => exact .none
  | some e => exact .some ⟨rfl, hcontent path e he⟩

/-- The frame of a page belongs to the address space. -/
lemma lookup_frame_mem {path : List (Fin 512)} {e : UInt64} (h : s.lookup 4 p path = some e) :
    pageTableFromEntry e ∈ s.nodes 4 p := by
  obtain ⟨i, b, hb, hleaf⟩ := Radix.lookup_leaf h
  obtain ⟨-, -, rfl⟩ := userNext_eq_some hb
  exact Radix.mem_nodes_of_mem_leaves hleaf

lemma Replaced.view {s'' : Mm} (h : Replaced p q s s' s'' F F') : s''.view p = s'.view p :=
  view_of_same h.lookup fun _ _ he => h.image _ (lookup_frame_mem he)

lemma Copied.view {cr3 : UInt64} (h : Copied k cr3 s s' true F F') : s.view cr3 = k.mm.view k.current.cr3 :=
  view_of_copies (h.pages rfl)

/-- A child of `vfork` sees the memory of its parent. -/
lemma vforked_view {l : List Slot} {frame : SyscallFrame} {slot : Slot} {cr3 : UInt64} {mm mm' : Mm}
    (howned : Owned boot k F) (hinv : TableInv k l) (hnew : createKernelMappedPml4 k.mm = (cr3, mm))
    (hcr3 : cr3 ≠ 0) (hclone : vmmCloneUserSpace mm k.current.cr3 cr3 userTop = (true, mm')) :
    (k.vforked frame slot cr3 mm').view = k.view := by
  obtain ⟨F', hcopied⟩ := vfork_copied howned hinv hnew hcr3 hclone
  rw [Kernel.view, Kernel.view, howned.current]
  exact hcopied.view

/-! ### Mapping pages -/

/-- A page that cannot be mapped leaves the memory alone. -/
lemma mapUserPage_refused {v flags : UInt64} (hpool : Pool s F) (hsep : Separate s 4 p F) (hv : UserPage v)
    (hflags : (flags ||| pageUser).toNat < 4096) (h : (mapUserPage s p v flags).1 = false) :
    (mapUserPage s p v flags).2.view p = s.view p := by
  obtain ⟨F₁, h₁, -⟩ := mapUserPage_spec hpool hsep hv hflags
  exact view_of_same (mapUserPage_false hpool hsep hv hflags h) h₁.content

/-- Whether or not the loop succeeds, it has added the pages up to some point. -/
lemma mapUserPages_some {pages : List UInt64} {flags : UInt64} (hpool : Pool s F) (hsep : Separate s 4 p F)
    (hpages : ∀ v ∈ pages, UserPage v) (hflags : (flags ||| pageUser).toNat < 4096) : ∃ n,
    Memory.Added 0 {a | ∃ v ∈ pages.take n, a ∈ pageOf v} (s.view p)
      ((Loop.forWhile (fun s page => mapUserPage s p page flags) s pages).2.view p) := by
  have hnone : {a | ∃ v ∈ ([] : List UInt64), a ∈ pageOf v} = ∅ := by simp
  induction pages generalizing s F with
  | nil =>
    refine ⟨0, ?_⟩
    rw [List.take_nil, hnone]
    exact .empty 0 _
  | cons v vs ih =>
    obtain ⟨hv, hvs⟩ := List.forall_mem_cons.mp hpages
    cases hr : (mapUserPage s p v flags).1 with
    | false =>
      refine ⟨0, ?_⟩
      rw [Loop.forWhile_cons_false hr, List.take_zero, hnone, mapUserPage_refused hpool hsep hv hflags hr]
      exact .empty 0 _
    | true =>
      obtain ⟨F₁, h₁, -⟩ := mapUserPage_spec hpool hsep hv hflags
      obtain ⟨n, hrest⟩ := ih h₁.pool (h₁.toConserved.separate hsep) hvs
      have hhead := mapUserPage_added hpool hsep hv hflags (Prod.ext hr rfl)
      have hunion : {a | ∃ w ∈ (v :: vs).take (n + 1), a ∈ pageOf w} =
          pageOf v ∪ {a | ∃ w ∈ vs.take n, a ∈ pageOf w} := by
        ext a
        simp
      refine ⟨n + 1, ?_⟩
      rw [Loop.forWhile_cons_true hr, hunion]
      exact hhead.trans hrest

/-- The first pages up to a page boundary. -/
lemma take_pagesBetween {start stop : UInt64} (n : ℕ) (hle : start.toNat ≤ stop.toNat) :
    ∃ mid : UInt64, (pagesBetween start stop).take n = pagesBetween start mid ∧
      mid.toNat % 4096 = start.toNat % 4096 ∧ start.toNat ≤ mid.toNat ∧ mid.toNat ≤ stop.toNat := by
  have hstop := stop.toNat_lt
  have hcount : min n ((stop.toNat - start.toNat) / 4096) ≤ (stop.toNat - start.toNat) / 4096 :=
    Nat.min_le_right _ _
  have hmid : (start + UInt64.ofNat (4096 * min n ((stop.toNat - start.toNat) / 4096))).toNat =
      start.toNat + 4096 * min n ((stop.toNat - start.toNat) / 4096) := toNat_add_ofNat (by omega)
  refine ⟨start + UInt64.ofNat (4096 * min n ((stop.toNat - start.toNat) / 4096)), ?_, by omega, by omega,
    by omega⟩
  rw [pagesBetween, ← List.map_take, List.take_range, pagesBetween, hmid, Nat.add_sub_cancel_left,
    Nat.mul_div_cancel_left _ (by decide)]

/-- Whatever `brk` answers, it has added whole pages of zeros, if any, at the end of the heap. -/
lemma syscallBrk_added {F : List UInt64} (hpool : Pool k.mm F) (hsep : Separate k.mm 4 k.current.cr3 F)
    (r : UInt64) : ∃ lo hi, lo % 4096 = 0 ∧ hi % 4096 = 0 ∧ lo ≤ hi ∧ hi ≤ 0x10000000 ∧
      Memory.Added 0 (Set.Ico lo hi) (k.mm.view k.current.cr3) ((syscallBrk r k).2.mm.view k.current.cr3) := by
  by_cases hr : Refused k r
  · refine ⟨0, 0, rfl, rfl, le_rfl, Nat.zero_le _, ?_⟩
    rw [syscallBrk_refused hr, Set.Ico_self]
    exact .empty 0 _
  · have hmm : (syscallBrk r k).2.mm = (Loop.forWhile
        (fun s page => mapUserPage s k.current.cr3 page pageWritable) k.mm (breakPages k r)).2 := by
      rw [syscallBrk_loop hr]
      rcases Loop.forWhile (fun s page => mapUserPage s k.current.cr3 page pageWritable) k.mm
        (breakPages k r) with ⟨_ | _, mm⟩
      · rfl
      · rfl
    obtain ⟨hle, hlt⟩ := not_refused hr
    have hstart := toNat_alignUp (v := k.current.brk) (by omega)
    have hstop := toNat_alignUp (v := r) (by omega)
    obtain ⟨n, hadded⟩ := mapUserPages_some hpool hsep (fun v hv => breakPages_userPage hr hv)
      (show (pageWritable ||| pageUser).toNat < 4096 by decide)
    obtain ⟨mid, hpages, hmod, hge, hle'⟩ :=
      @take_pagesBetween (alignUp k.current.brk pageSize) (alignUp r pageSize) n (by omega)
    rw [breakPages, hpages, pagesBetween_addresses (by omega) (by omega)] at hadded
    rw [hmm]
    exact ⟨_, _, by omega, by omega, hge, by omega, hadded⟩

end Xbks
