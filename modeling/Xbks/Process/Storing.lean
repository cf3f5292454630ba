import Xbks.Process.Boot
import Xbks.Process.Dirent

/-!
# What a program stores

Stores of a program to pages it has, and the strings that it leaves there for system calls.
-/

namespace Xbks

variable {boot : BootInfo} {es : List Event} {k k' : Kernel}

/-- A store of the program to a page it has. -/
lemma step_store {a : UInt64} (hintact : Intact k) (ha : a.toNat < 2 ^ 47) (hmapped : k.view a.toNat ≠ none)
    (b : UInt8) : ∃ k', step k (.store a b) = some k' ∧ Stored k k' a.toNat [b] := by
  obtain ⟨F, hpool, hsep⟩ := hintact
  have hmapped' : (vmmTranslate k.mm k.cr3 a).map k.mm.byte ≠ none := by
    rw [← view_toNat ha]
    exact hmapped
  rw [ne_eq, Option.map_eq_none_iff] at hmapped'
  obtain ⟨physical, ht⟩ := Option.ne_none_iff_exists'.mp hmapped'
  have hbelow : ¬a ≥ userTop := by
    rw [ge_iff_le, UInt64.not_le, UInt64.lt_iff_toNat_lt]
    exact ha
  refine ⟨{ k with mm := k.mm.setByte physical b }, ?_, ⟨_, _, rfl⟩, view_setByte hpool hsep ha ht, ?_⟩
  · rw [step, if_neg hbelow, ht]
  · have hg : Growth ∅ k.cr3 k.mm (k.mm.setByte physical b) F F := .setByte hpool hsep ha ht b
    exact ⟨F, hg.pool, hg.separate hsep⟩

/-- A store changes the content of a page and nothing else. -/
lemma step_store_frames {a : UInt64} {b : UInt8} (h : step k (.store a b) = some k') :
    k'.mm.freeFrameCount = k.mm.freeFrameCount := by
  obtain ⟨physical, -, -, rfl⟩ := step_store_eq h
  rfl

/-- A program stores bytes in pages it has. -/
lemma run_stores {s : Kernel} {bytes : List UInt8} {a : ℕ} (hrun : Run ExecFits s es k) (hintact : Intact k)
    (hhas : k.view.Has a bytes.length) :
    ∃ es' k', Run ExecFits s es' k' ∧ Stored k k' a bytes := by
  induction bytes generalizing es k a with
  | nil => exact ⟨es, k, hrun, .nil hintact a⟩
  | cons b rest ih =>
    obtain ⟨hfirst, hrest⟩ := Memory.has_succ.mp hhas
    have hlt : a < 2 ^ 47 := by
      by_contra hlt
      exact hfirst (if_neg hlt)
    have ha : (UInt64.ofNat a).toNat = a := Word.toNat_ofNat_of_lt (by omega)
    have hone : k.view.Has a [b].length := Memory.has_succ.mpr ⟨hfirst, Memory.has_zero⟩
    rw [← ha] at hfirst
    obtain ⟨k₁, hstep, hstored⟩ := step_store hintact (by omega) hfirst b
    rw [ha] at hstored
    have hok : ExecFits k (.store (UInt64.ofNat a) b) := trivial
    obtain ⟨es', k', hrun', hstored'⟩ := ih (hrun.snoc hok hstep) hstored.intact
      ((hstored.has_iff hone).mpr hrest)
    exact ⟨es', k', hrun', hstored.append hstored'⟩

/-- A program that has the page at `0x10000` writes a string to it. -/
lemma writes_string {text : CString} (hrun : Run ExecFits (started boot) es k) (hintact : Intact k)
    (hmapped : k.view.Has 0x10000 0x1000) (hlen : text.length < 0x1000) (hnonzero : 0 ∉ text) :
    ∃ es' k', Run ExecFits (started boot) es' k' ∧ HoldsString k'.view 0x10000 text ∧
      k'.view.Has 0x10000 0x1000 ∧ k'.current = k.current ∧ k'.currentProcess = k.currentProcess := by
  have hhas : k.view.Has 0x10000 (text ++ [0]).length := by
    intro x hge hlt
    rw [List.length_append, List.length_singleton] at hlt
    exact hmapped x hge (by omega)
  obtain ⟨es', k', hrun', hstored⟩ := run_stores hrun hintact hhas
  have hload : k'.view.load 0x10000 (text ++ [0]).length = some (text ++ [0]) := by
    rw [hstored.view]
    exact Memory.load_store
  refine ⟨es', k', hrun', holdsString_of_load hnonzero hload, (hstored.has_iff hhas).mpr hmapped,
    hstored.current, hstored.currentProcess⟩

/-- A program stores a path of one letter. -/
lemma stores_letter {c : UInt8} (hrun : Run ExecFits (started boot) es k) (hintact : Intact k)
    (hhas : k.view.Has 0x10000 2) (hc : c ≠ 0) :
    ∃ k', Run ExecFits (started boot) (es ++ [.store 0x10000 c, .store 0x10001 0]) k' ∧
      Stored k k' 0x10000 [c, 0] ∧ k'.mm.freeFrameCount = k.mm.freeFrameCount ∧
      HoldsString k'.view 0x10000 [c] := by
  obtain ⟨k₁, hstep₁, hstored₁⟩ := step_store hintact (show (0x10000 : UInt64).toNat < 2 ^ 47 by decide)
    (hhas 0x10000 (le_refl _) (by omega)) c
  have hone : k.view.Has (0x10000 : UInt64).toNat [c].length :=
    fun x hge hlt => hhas x hge (hlt.trans (show 0x10000 + 1 < 0x10000 + 2 by norm_num))
  have hhas₁ : k₁.view.Has 0x10000 2 := (hstored₁.has_iff hone).mpr hhas
  obtain ⟨k₂, hstep₂, hstored₂⟩ := step_store hstored₁.intact (show (0x10001 : UInt64).toNat < 2 ^ 47 by decide)
    (hhas₁ 0x10001 (by omega) (by omega)) 0
  have hstored : Stored k k₂ 0x10000 [c, 0] := hstored₁.append hstored₂
  have hrun₁ := hrun.snoc (show ExecFits k (.store 0x10000 c) from trivial) hstep₁
  have hrun₂ := hrun₁.snoc (show ExecFits k₁ (.store 0x10001 0) from trivial) hstep₂
  rw [List.append_assoc] at hrun₂
  refine ⟨k₂, hrun₂, hstored, (step_store_frames hstep₂).trans (step_store_frames hstep₁), ?_⟩
  have hload : k₂.view.load 0x10000 2 = some ([c] ++ [0]) := by
    rw [hstored.view]
    exact Memory.load_store
  refine holdsString_of_load ?_ hload
  rw [List.mem_singleton]
  exact hc.symm

/-! ### The pages of a small program -/

/-- The pages of the program of a small machine: its segment and its stack. -/
lemma SmallProgram.mapped_iff {entry : UInt64} (h : SmallProgram boot entry) (hboot : boot.memory.Valid)
    (hstart : Starts boot) {x : ℕ} (hx : x < 2 ^ 47) :
    (started boot).view x ≠ none ↔ x / 4096 = 16 ∨ stackBottom ≤ x ∧ x < stackTop := by
  obtain ⟨-, -, hspace⟩ := h.space hboot hstart
  obtain ⟨F, howned, -⟩ := owned_started hboot h.initFits hstart
  have hto : (UInt64.ofNat x).toNat = x := Word.toNat_ofNat_of_lt (by omega)
  have hbelow : (UInt64.ofNat x).toNat < 2 ^ 47 := by omega
  have hlookup := hspace (UInt64.ofNat x) hbelow
  rw [← howned.current, ne_eq, ← view_eq_none_iff hbelow, hto] at hlookup
  exact hlookup

lemma SmallProgram.has {entry : UInt64} (h : SmallProgram boot entry) (hboot : boot.memory.Valid)
    (hstart : Starts boot) : (started boot).view.Has 0x10000 0x1000 := fun x hge hlt =>
  (h.mapped_iff hboot hstart (by omega)).mpr (.inl (by omega))

lemma small_has : (started (smallBoot 0x10000)).view.Has 0x10000 0x1000 :=
  smallProgram.has (smallBoot_valid _) smallBoot_starts

end Xbks
