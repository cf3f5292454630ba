import Xbks.Lib.Radix
import Xbks.Mm.Pmm

/-!
# User page tables as radix trees

A PML4 frame is the root of a tree of height 4 over its lower 256 slots. `vmmMapPage` walks from
the root to a page table, filling in missing tables; `mapBelow` is the same walk started at a
table of any height, which is what the induction goes over.
-/

namespace Xbks

/-- Decoding of an entry whose target has height `n`. The upper half of a PML4 is shared with the
kernel and does not belong to the user's tree. -/
def userNext (n : ℕ) (i : Fin 512) (e : UInt64) : Option UInt64 :=
  if n = 3 ∧ 256 ≤ i.val then none
  else if e &&& pagePresent = 0 then none
  else some (pageTableFromEntry e)

abbrev Mm.nodes (s : Mm) (n : ℕ) (t : UInt64) : Multiset UInt64 := Radix.nodes userNext s.mem n t

abbrev Mm.tables (s : Mm) (n : ℕ) (t : UInt64) : Multiset UInt64 := Radix.tables userNext s.mem n t

abbrev Mm.leaves (s : Mm) (n : ℕ) (t : UInt64) : Multiset UInt64 := Radix.leaves userNext s.mem n t

abbrev Mm.lookup (s : Mm) (n : ℕ) (t : UInt64) (path : List (Fin 512)) : Option UInt64 :=
  Radix.lookup userNext s.mem n t path

/-- Slot `i` of a table of height `n + 1` belongs to the user's tree. -/
def Selected (n : ℕ) (i : Fin 512) : Prop := ¬(n = 3 ∧ 256 ≤ i.val)

variable {s s' : Mm} {F F' : List UInt64} {n : ℕ} {t b f flags e : UInt64} {i : Fin 512}

/-! ### Entries -/

lemma pageTableFromEntry_or (hf : f.toNat % 4096 = 0) (hlt : f.toNat < 2 ^ 52)
    (hflags : flags.toNat < 4096) : pageTableFromEntry (f ||| flags) = f := by
  rw [← UInt64.toNat_inj, pageTableFromEntry, Word.toNat_and_mid _ addressMask (k := 12) (w := 40) rfl,
    Word.toNat_or_of_lt (k := 12) _ _ hf hflags]
  omega

lemma present_or (hf : f.toNat % 4096 = 0) (hflags : flags.toNat < 4096)
    (hodd : flags.toNat % 2 = 1) : (f ||| flags) &&& pagePresent ≠ 0 := by
  rw [ne_eq, Word.and_one_eq_zero, Word.toNat_or_of_lt (k := 12) _ _ hf hflags]
  omega

lemma or_odd (hflags : flags.toNat < 4096) :
    (flags ||| pagePresent).toNat < 4096 ∧ (flags ||| pagePresent).toNat % 2 = 1 := by
  refine ⟨Word.toNat_or_lt (k := 12) _ _ hflags (by decide), ?_⟩
  rw [UInt64.toNat_or, Nat.or_mod_two_eq_one]
  exact .inr rfl

/-- An entry made of a frame address and flags with the present bit decodes to the frame. -/
lemma userNext_or (hf : f.toNat % 4096 = 0) (hlt : f.toNat < 2 ^ 52) (hflags : flags.toNat < 4096)
    (hodd : flags.toNat % 2 = 1) (hsel : Selected n i) : userNext n i (f ||| flags) = some f := by
  have hsel : ¬(n = 3 ∧ 256 ≤ i.val) := hsel
  rw [userNext, if_neg hsel, if_neg (present_or hf hflags hodd), pageTableFromEntry_or hf hlt hflags]

lemma userNext_leafEntry (hf : IsFrame s.hhdmOffsetValue f) (hflags : flags.toNat < 4096)
    (hsel : Selected n i) : userNext n i (f ||| flags ||| pagePresent) = some f := by
  obtain ⟨hlt, hodd⟩ := or_odd hflags
  rw [UInt64.or_assoc]
  exact userNext_or hf.aligned hf.lt hlt hodd hsel

lemma userNext_tableEntry (hf : IsFrame s.hhdmOffsetValue f) (hflags : flags.toNat < 4096)
    (hsel : Selected n i) :
    userNext n i (f ||| flags ||| pagePresent ||| pageWritable ||| pageUser) = some f := by
  obtain ⟨hlt, -⟩ := or_odd hflags
  have hcomm : flags ||| pagePresent ||| pageWritable ||| pageUser =
      flags ||| (pageWritable ||| pageUser) ||| pagePresent := by
    simp only [UInt64.or_assoc]
    rfl
  have h₁ := Word.toNat_or_lt (k := 12) flags (pageWritable ||| pageUser) hflags (by decide)
  obtain ⟨h₂, hodd⟩ := or_odd h₁
  rw [UInt64.or_assoc f, UInt64.or_assoc f, UInt64.or_assoc f, hcomm]
  exact userNext_or hf.aligned hf.lt h₂ hodd hsel

lemma userNext_eq_none_iff (hsel : Selected n i) :
    userNext n i e = none ↔ e &&& pagePresent = 0 := by
  have hsel : ¬(n = 3 ∧ 256 ≤ i.val) := hsel
  rw [userNext, if_neg hsel]
  split_ifs with h <;> simp [h]

lemma userNext_of_present (hsel : Selected n i) (he : e &&& pagePresent ≠ 0) :
    userNext n i e = some (pageTableFromEntry e) := by
  have hsel : ¬(n = 3 ∧ 256 ≤ i.val) := hsel
  rw [userNext, if_neg hsel, if_neg he]

lemma userNext_eq_some (h : userNext n i e = some b) :
    Selected n i ∧ e &&& pagePresent ≠ 0 ∧ b = pageTableFromEntry e := by
  rw [userNext] at h
  split_ifs at h with hsel hp
  exact ⟨hsel, hp, (Option.some.inj h).symm⟩

lemma userNext_zero : userNext n i 0 = none := by
  simp [userNext]

/-! ### Writing one entry -/

@[simp] lemma setEntry_mem_self : (s.setEntry t i e).mem t = Function.update (s.mem t) i e := by
  simp [Mm.setEntry, Mm.setPage]

lemma setEntry_mem_of_ne {x : UInt64} (h : x ≠ t) : (s.setEntry t i e).mem x = s.mem x := by
  simp [Mm.setEntry, Mm.setPage, Function.update_of_ne h]

lemma setPage_mem_of_ne {x : UInt64} {page : Page} (h : x ≠ t) :
    (s.setPage t page).mem x = s.mem x := by
  simp [Mm.setPage, Function.update_of_ne h]

@[simp] lemma setPage_mem_self {page : Page} : (s.setPage t page).mem t = page := by
  simp [Mm.setPage]

lemma Pool.setPage {page : Page} (h : Pool s F) (ht : t ∉ F) : Pool (s.setPage t page) F :=
  h.congr (fun f hf => by
    rw [setPage_mem_of_ne]
    rintro rfl
    exact ht hf) rfl rfl rfl

lemma Pool.setEntry (h : Pool s F) (ht : t ∉ F) : Pool (s.setEntry t i e) F :=
  h.setPage ht

/-- A table that has just been cleared maps nothing. -/
lemma nodes_zeroPage (h : s.mem t = zeroPage) : s.nodes (n + 1) t = {t} := by
  apply Radix.nodes_of_all_none
  intro i
  rw [h]
  exact userNext_zero

lemma lookup_zeroPage (h : s.mem t = zeroPage) (path : List (Fin 512)) :
    s.lookup (n + 1) t path = none := by
  match n, path with
  | 0, [] | n + 1, [] => exact Radix.lookup_nil
  | 0, _ :: _ :: _ => rfl
  | 0, [i] => simp [h, zeroPage, userNext_zero]
  | n + 1, i :: is => simp [h, zeroPage, userNext_zero]

end Xbks
