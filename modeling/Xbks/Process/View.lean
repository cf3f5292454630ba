import Xbks.Lib.Memory
import Xbks.Process.Effect

/-!
# What a process sees

An address space as the process sees it: a partial memory over its part of the addresses. As long as
no frame of its tree is used twice, writing a byte of a mapped page changes this memory at one
address, and nothing else. The accesses of the system calls are loads and stores of this memory.
-/

namespace Xbks

variable {p v w physical : UInt64} {s : Mm} {F : List UInt64} {b : UInt8}

/-! ### Bytes of words -/

lemma getLsbD_ones {n : ℕ} : (255#64).getLsbD n = decide (n < 8) :=
  Nat.testBit_two_pow_sub_one 8 n

lemma byteOfWord_setByteOfWord (w : UInt64) {k j : ℕ} (hk : k < 8) (hj : j < 8) (b : UInt8) :
    byteOfWord (setByteOfWord w k b) j = if j = k then b else byteOfWord w j := by
  have hmod : ∀ n < 8, 8 * n % 18446744073709551616 % 64 = 8 * n := by omega
  rw [← UInt8.toBitVec_inj]
  apply BitVec.eq_of_getLsbD_eq
  intro i hi
  have hin : 8 * j + i < 64 := by omega
  by_cases hjk : j = k
  · subst hjk
    simp [byteOfWord, setByteOfWord, hmod j hj, getLsbD_ones, hi, hin]
  · rcases Nat.lt_or_gt_of_ne hjk with hlt | hgt
    · have hbelow : 8 * j + i < 8 * k := by omega
      simp [byteOfWord, setByteOfWord, hmod j hj, hmod k hk, hjk, hi, hin, hbelow]
    · have habove : ¬8 * j + i < 8 * k := by omega
      have hbit : b.toBitVec.getLsbD (8 * j + i - 8 * k) = false := BitVec.getLsbD_of_ge _ _ (by omega)
      simp only [byteOfWord, setByteOfWord, hjk, if_false]
      simp [hmod j hj, hmod k hk, hi, hin, habove, hbit]
      intro _
      rw [← BitVec.getLsbD_eq_getElem, getLsbD_ones]
      exact decide_eq_false (by omega)

/-- Writing a byte of physical memory changes that byte. -/
lemma byte_setByte (s : Mm) (x y : UInt64) (b : UInt8) :
    (s.setByte x b).byte y = if y = x then b else s.byte y := by
  by_cases hframe : alignDown y pageSize = alignDown x pageSize
  · have hmem : (s.setByte x b).mem (alignDown x pageSize) =
        Function.update (s.mem (alignDown x pageSize)) (wordIndex x)
          (setByteOfWord (s.mem (alignDown x pageSize) (wordIndex x)) (x.toNat % 8) b) :=
      setEntry_mem_self
    rw [Mm.byte, hframe, hmem]
    by_cases hword : wordIndex y = wordIndex x
    · have heq : y = x ↔ y.toNat % 8 = x.toNat % 8 := by
        rw [← UInt64.toNat_inj] at hframe ⊢
        rw [toNat_alignDown, toNat_alignDown] at hframe
        rw [wordIndex, wordIndex, Fin.ext_iff, Fin.val_ofNat, Fin.val_ofNat] at hword
        omega
      rw [hword, Function.update_self,
        byteOfWord_setByteOfWord _ (Nat.mod_lt _ (by norm_num)) (Nat.mod_lt _ (by norm_num)),
        Mm.byte, hframe, hword]
      simp only [heq]
    · have hne : y ≠ x := fun h => hword (by rw [h])
      rw [Function.update_of_ne hword, if_neg hne, Mm.byte, hframe]
  · have hne : y ≠ x := fun h => hframe (by rw [h])
    rw [if_neg hne, Mm.byte, Mm.byte, setByte_mem_of_ne hframe]

/-! ### Translation -/

/-- No two addresses of a process are translated to the same physical address. -/
lemma translate_injective (hnd : (s.nodes 4 p).Nodup) (hv : v.toNat < 2 ^ 47) (hw : w.toNat < 2 ^ 47)
    (h : vmmTranslate s p v = some physical) (h' : vmmTranslate s p w = some physical) : v = w := by
  obtain ⟨e, he, hphys, -⟩ := translate_leaf (lowerHalf_of_lt hv) h
  obtain ⟨e', he', hphys', -⟩ := translate_leaf (lowerHalf_of_lt hw) h'
  have hal := toNat_pageTableFromEntry e
  have hal' := toNat_pageTableFromEntry e'
  have hleaf : pageTableFromEntry e = pageTableFromEntry e' := by
    rw [← UInt64.toNat_inj]
    omega
  obtain ⟨i, c, hc, hdescend⟩ := Radix.lookup_descend he
  obtain ⟨i', c', hc', hdescend'⟩ := Radix.lookup_descend he'
  obtain ⟨-, -, rfl⟩ := userNext_eq_some hc
  obtain ⟨-, -, rfl⟩ := userNext_eq_some hc'
  rw [← hleaf] at hdescend'
  have hpath := Radix.descend_injective hnd hdescend hdescend'
  rw [pathOf_eq_iff] at hpath
  rw [← UInt64.toNat_inj]
  rw [hleaf] at hphys
  omega

/-! ### The view -/

/-- The bytes that the user's part of an address space holds. -/
def Mm.view (s : Mm) (p : UInt64) : Memory UInt8 := fun a =>
  if a < 2 ^ 47 then (vmmTranslate s p (UInt64.ofNat a)).map s.byte else none

lemma view_toNat (hv : v.toNat < 2 ^ 47) : s.view p v.toNat = (vmmTranslate s p v).map s.byte := by
  rw [Mm.view, if_pos hv, UInt64.ofNat_toNat]

lemma view_eq_none_iff (hv : v.toNat < 2 ^ 47) :
    s.view p v.toNat = none ↔ s.lookup 4 p (pathOf v) = none := by
  rw [view_toNat hv, Option.map_eq_none_iff, vmmTranslate_eq (lowerHalf_of_lt hv), Option.map_eq_none_iff]

/-- Writing to a mapped page is a store of one byte. -/
lemma view_setByte (hpool : Pool s F) (hsep : Separate s 4 p F) (hv : v.toNat < 2 ^ 47)
    (ht : vmmTranslate s p v = some physical) :
    (s.setByte physical b).view p = (s.view p).store v.toNat [b] := by
  have hg : Growth ∅ p s (s.setByte physical b) F F := .setByte hpool hsep hv ht b
  have hsame : ∀ x : UInt64, x.toNat < 2 ^ 47 →
      vmmTranslate (s.setByte physical b) p x = vmmTranslate s p x := by
    intro x hx
    have hlow := lowerHalf_of_lt hx
    rw [vmmTranslate_eq hlow, vmmTranslate_eq hlow]
    congr 1
    cases hl : s.lookup 4 p (pathOf x) with
    | some e => exact hg.kept _ e hl
    | none =>
      cases hl' : (s.setByte physical b).lookup 4 p (pathOf x) with
      | none => rfl
      | some e =>
        rcases hg.only _ e hl' with h | h
        · rw [hl] at h
          cases h
        · exact absurd h (Set.notMem_empty _)
  rw [Memory.store_singleton]
  funext a
  by_cases ha : a < 2 ^ 47
  · obtain ⟨x, rfl⟩ : ∃ x : UInt64, a = x.toNat :=
      ⟨UInt64.ofNat a, (Word.toNat_ofNat_of_lt (by omega)).symm⟩
    rw [view_toNat ha, hsame x ha]
    by_cases hx : x = v
    · rw [hx, ht, Function.update_self, Option.map_some, byte_setByte, if_pos rfl]
    · rw [Function.update_of_ne (fun h => hx (UInt64.toNat_inj.mp h)), view_toNat ha]
      cases hxt : vmmTranslate s p x with
      | none => rfl
      | some y =>
        have hy : y ≠ physical := by
          rintro rfl
          exact hx (translate_injective hsep.nodes ha hv hxt ht)
        rw [Option.map_some, Option.map_some, byte_setByte, if_neg hy]
  · have hne : a ≠ v.toNat := by omega
    rw [Function.update_of_ne hne, Mm.view, Mm.view, if_neg ha, if_neg ha]

/-! ### Accesses -/

variable {k k' k'' : Kernel} {base : UInt64} {index a : ℕ} {bytes : List UInt8}

/-- The memory of the current process. -/
def Kernel.view (k : Kernel) : Memory UInt8 := k.mm.view k.cr3

/-- No frame of the current address space is used twice, and none of them is free. -/
def Intact (k : Kernel) : Prop := ∃ F, Pool k.mm F ∧ Separate k.mm 4 k.cr3 F

/-- Bytes have been stored in the memory of the current process, and nothing else has changed. -/
structure Stored (k k' : Kernel) (a : ℕ) (bytes : List UInt8) : Prop where
  same : ∃ mm accesses, k' = { k with mm := mm, accesses := accesses }
  view : k'.view = k.view.store a bytes
  intact : Intact k'

lemma Stored.nil (h : Intact k) (a : ℕ) : Stored k k a [] :=
  ⟨⟨k.mm, k.accesses, rfl⟩, Memory.store_nil.symm, h⟩

lemma Stored.append {bytes' : List UInt8} (h : Stored k k' a bytes)
    (h' : Stored k' k'' (a + bytes.length) bytes') : Stored k k'' a (bytes ++ bytes') where
  same := by
    obtain ⟨mm, accesses, rfl⟩ := h.same
    obtain ⟨mm', accesses', rfl⟩ := h'.same
    exact ⟨mm', accesses', rfl⟩
  view := by rw [h'.view, h.view, Memory.store_append]
  intact := h'.intact

lemma Stored.processes (h : Stored k k' a bytes) : k'.processes = k.processes := by
  obtain ⟨mm, accesses, rfl⟩ := h.same
  rfl

lemma Stored.currentProcess (h : Stored k k' a bytes) : k'.currentProcess = k.currentProcess := by
  obtain ⟨mm, accesses, rfl⟩ := h.same
  rfl

lemma Stored.current (h : Stored k k' a bytes) : k'.current = k.current := by
  obtain ⟨mm, accesses, rfl⟩ := h.same
  rfl

lemma Reads.view (h : Reads k k') : k'.view = k.view := by
  obtain ⟨accesses, rfl⟩ := h
  rfl

lemma view_eq (h : InUser base index) : k.view (base.toNat + index) =
    (vmmTranslate k.mm k.cr3 (base + UInt64.ofNat index)).map k.mm.byte := by
  rw [← h.toNat]
  exact view_toNat (by rw [h.toNat]; exact h.2)

lemma readUser_some {b : UInt8} (h : InUser base index) (hb : k.view (base.toNat + index) = some b) :
    readUser base index k = (.ok b, k.noteAccess (base.toNat + index)) := by
  rw [view_eq h, Option.map_eq_some_iff] at hb
  obtain ⟨physical, ht, rfl⟩ := hb
  rw [readUser, Prog.bind_apply, userPhysical_eq h, ht]
  rfl

lemma readUser_none (h : InUser base index) (hb : k.view (base.toNat + index) = none) :
    readUser base index k =
      (.error (.pageFault (base + UInt64.ofNat index)), k.noteAccess (base.toNat + index)) := by
  rw [view_eq h, Option.map_eq_none_iff] at hb
  rw [readUser, Prog.bind_apply, userPhysical_eq h, hb]

lemma writeUser_some (hintact : Intact k) (h : InUser base index)
    (hb : k.view (base.toNat + index) ≠ none) (b : UInt8) :
    ∃ k', writeUser base index b k = (.ok (), k') ∧ Stored k k' (base.toNat + index) [b] := by
  obtain ⟨F, hpool, hsep⟩ := hintact
  rw [view_eq h, ne_eq, Option.map_eq_none_iff] at hb
  obtain ⟨physical, ht⟩ := Option.ne_none_iff_exists'.mp hb
  have hlt : (base + UInt64.ofNat index).toNat < 2 ^ 47 := by
    rw [h.toNat]
    exact h.2
  refine ⟨{ k.noteAccess (base.toNat + index) with mm := k.mm.setByte physical b }, ?_, ?_, ?_, ?_⟩
  · rw [writeUser, Prog.bind_apply, userPhysical_eq h, ht]
    rfl
  · exact ⟨_, _, rfl⟩
  · have hview := view_setByte (b := b) hpool hsep hlt ht
    rw [h.toNat] at hview
    exact hview
  · have hg : Growth ∅ k.cr3 k.mm (k.mm.setByte physical b) F F := .setByte hpool hsep hlt ht b
    exact ⟨F, hg.pool, hg.separate hsep⟩

lemma writeUser_none (h : InUser base index) (hb : k.view (base.toNat + index) = none) (b : UInt8) :
    writeUser base index b k =
      (.error (.pageFault (base + UInt64.ofNat index)), k.noteAccess (base.toNat + index)) := by
  rw [view_eq h, Option.map_eq_none_iff] at hb
  rw [writeUser, Prog.bind_apply, userPhysical_eq h, hb]

/-! ### Ranges -/

/-- A store either finds all its bytes or stops with a page fault. -/
inductive StoreEnds (k : Kernel) (a : ℕ) (bytes : List UInt8) : Except Stop Unit × Kernel → Prop
  | done {k' : Kernel} (hhas : k.view.Has a bytes.length) (h : Stored k k' a bytes) :
      StoreEnds k a bytes (.ok (), k')
  | faults {address : UInt64} {k' : Kernel} (hhas : ¬k.view.Has a bytes.length) :
      StoreEnds k a bytes (.error (.pageFault address), k')

lemma Stored.has_iff (h : Stored k k' a bytes) (hhas : k.view.Has a bytes.length) {x n : ℕ} :
    k'.view.Has x n ↔ k.view.Has x n := by
  rw [h.view]
  refine forall_congr' fun y => forall_congr' fun _ => forall_congr' fun _ => ?_
  rw [ne_eq, ne_eq, Memory.store_eq_none_iff hhas]

/-- One byte more in front of a store. -/
lemma StoreEnds.cons {b : UInt8} {rest : List UInt8} {m : KernelM Unit} (hintact : Intact k)
    (h : InUser base index)
    (hrest : ∀ k', Stored k k' (base.toNat + index) [b] →
      StoreEnds k' (base.toNat + (index + 1)) rest (m k')) :
    StoreEnds k (base.toNat + index) (b :: rest) ((writeUser base index b >>= fun _ => m) k) := by
  by_cases hb : k.view (base.toNat + index) = none
  · rw [Prog.bind_error (writeUser_none h hb b)]
    refine .faults fun hhas => ?_
    exact hhas _ (le_refl _) (by rw [List.length_cons]; omega) hb
  · obtain ⟨k', hwrite, hstored⟩ := writeUser_some hintact h hb b
    have hone : k.view.Has (base.toNat + index) [b].length := by
      rw [List.length_singleton, Memory.has_succ]
      exact ⟨hb, Memory.has_zero⟩
    have hends := hrest k' hstored
    rw [Prog.bind_ok hwrite]
    generalize m k' = r at hends
    cases hends with
    | done hhas hstored' =>
      rw [hstored.has_iff hone] at hhas
      exact .done (Memory.has_succ.mpr ⟨hb, hhas⟩) (hstored.append hstored')
    | faults hhas =>
      rw [hstored.has_iff hone] at hhas
      exact .faults fun hall => hhas (Memory.has_succ.mp hall).2

lemma writeUserBytes_ends (hintact : Intact k) (hge : 65536 ≤ base.toNat + index)
    (hlt : base.toNat + index + bytes.length ≤ 2 ^ 47) :
    StoreEnds k (base.toNat + index) bytes (writeUserBytes base index bytes k) := by
  induction bytes generalizing k index with
  | nil => exact .done Memory.has_zero (.nil hintact _)
  | cons b rest ih =>
    rw [List.length_cons] at hlt
    refine .cons hintact ⟨hge, by omega⟩ fun k' hstored => ?_
    exact ih hstored.intact (by omega) (by omega)

/-- A store into a buffer that passed the range check. -/
lemma writeUserBytes_ends_of_valid {count : UInt64} (hintact : Intact k)
    (hvalid : userRangeIsValid base count = true) (hlen : index + bytes.length ≤ count.toNat) :
    StoreEnds k (base.toNat + index) bytes (writeUserBytes base index bytes k) := by
  cases bytes with
  | nil => exact .done Memory.has_zero (.nil hintact _)
  | cons b rest =>
    rw [List.length_cons] at hlen
    obtain ⟨hge, -⟩ := inUser_of_valid hvalid (i := index) (by omega)
    obtain ⟨-, hlt⟩ := inUser_of_valid hvalid (i := index + rest.length) (by omega)
    refine writeUserBytes_ends hintact hge ?_
    rw [List.length_cons]
    omega

/-- A load either finds all its bytes or stops with a page fault. -/
inductive LoadEnds (k : Kernel) (a n : ℕ) : Except Stop (List UInt8) × Kernel → Prop
  | done {bytes : List UInt8} {k' : Kernel} (h : k.view.load a n = some bytes) (hreads : Reads k k') :
      LoadEnds k a n (.ok bytes, k')
  | faults {address : UInt64} {k' : Kernel} (h : k.view.load a n = none) :
      LoadEnds k a n (.error (.pageFault address), k')

lemma reads_noteAccess (k : Kernel) (a : ℕ) : Reads k (k.noteAccess a) := ⟨_, rfl⟩

lemma readUserBytes_ends {n : ℕ} (hge : 65536 ≤ base.toNat + index)
    (hlt : base.toNat + index + n ≤ 2 ^ 47) :
    LoadEnds k (base.toNat + index) n (readUserBytes base index n k) := by
  induction n generalizing k index with
  | zero => exact .done rfl (.refl k)
  | succ n ih =>
    have hin : InUser base index := ⟨hge, by omega⟩
    rw [readUserBytes]
    cases hb : k.view (base.toNat + index) with
    | none =>
      rw [Prog.bind_error (readUser_none hin hb)]
      exact .faults (by rw [Memory.load, hb]; rfl)
    | some b =>
      rw [Prog.bind_ok (readUser_some hin hb), Prog.bind_apply]
      have hreads := reads_noteAccess k (base.toNat + index)
      have hends : LoadEnds (k.noteAccess (base.toNat + index)) (base.toNat + (index + 1)) n
          (readUserBytes base (index + 1) n (k.noteAccess (base.toNat + index))) :=
        ih (by omega) (by omega)
      have hload : k.view.load (base.toNat + index) (n + 1) =
          ((k.noteAccess (base.toNat + index)).view.load (base.toNat + (index + 1)) n).map (b :: ·) := by
        rw [Memory.load, hb, hreads.view]
        rfl
      generalize readUserBytes base (index + 1) n (k.noteAccess (base.toNat + index)) = r at hends
      cases hends with
      | done h hreads' => exact .done (by rw [hload, h]; rfl) (hreads.trans hreads')
      | faults h => exact .faults (by rw [hload, h]; rfl)

/-! ### Strings -/

/-- The first `n` bytes from `a` on are there and are not 0. -/
def Unended (m : Memory UInt8) (a n : ℕ) : Prop := ∀ i < n, ∃ c ≠ 0, m (a + i) = some c

/-- The memory holds a string, ended by a 0. -/
structure HoldsString (m : Memory UInt8) (a : ℕ) (text : CString) : Prop where
  bytes : ∀ i < text.length, m (a + i) = text[i]?
  nonzero : 0 ∉ text
  ended : m (a + text.length) = some 0

lemma unended_of_bytes {m : Memory UInt8} {text : CString}
    (hbytes : ∀ i < text.length, m (a + i) = text[i]?) (hnonzero : 0 ∉ text) :
    Unended m a text.length := by
  intro i hi
  refine ⟨text[i], fun hzero => hnonzero (hzero ▸ List.getElem_mem hi), ?_⟩
  rw [hbytes i hi, List.getElem?_eq_getElem hi]

lemma HoldsString.unended {m : Memory UInt8} {text : CString} (h : HoldsString m a text) :
    Unended m a text.length := unended_of_bytes h.bytes h.nonzero

/-- A string ends where it ends. -/
lemma Unended.le {m : Memory UInt8} {text : CString} {n : ℕ} (hn : Unended m a n)
    (h : HoldsString m a text) : n ≤ text.length := by
  by_contra hlt
  obtain ⟨c, hc, hcell⟩ := hn text.length (by omega)
  rw [h.ended] at hcell
  exact hc (Option.some.inj hcell).symm

lemma HoldsString.unique {m : Memory UInt8} {text text' : CString} (h : HoldsString m a text)
    (h' : HoldsString m a text') : text = text' := by
  have hlen : text.length = text'.length := le_antisymm (h.unended.le h') (h'.unended.le h)
  refine List.ext_getElem? fun i => ?_
  by_cases hi : i < text.length
  · rw [← h.bytes i hi, h'.bytes i (by omega)]
  · rw [List.getElem?_eq_none (by omega), List.getElem?_eq_none (by omega)]

/-- How copying a string from the user ends: with its end, at the first byte that is not in the
user's part or does not fit, or at the first byte that is not mapped. -/
inductive StringEnds (k : Kernel) (source : UInt64) (capacity : ℕ) :
    Except Stop (Option CString) × Kernel → Prop
  | copied {text : CString} {k' : Kernel} (hlow : 65536 ≤ source.toNat)
      (h : HoldsString k.view source.toNat text) (hlen : text.length < capacity) (hreads : Reads k k') :
      StringEnds k source capacity (.ok (some text), k')
  | refused {n : ℕ} {k' : Kernel} (h : Unended k.view source.toNat n)
      (hend : n = capacity ∨ n < capacity ∧ ¬InUser source n) (hreads : Reads k k') :
      StringEnds k source capacity (.ok none, k')
  | faults {n : ℕ} {address : UInt64} {k' : Kernel} (hlow : 65536 ≤ source.toNat)
      (h : Unended k.view source.toNat n) (hn : n < capacity) (hin : InUser source n)
      (hnone : k.view (source.toNat + n) = none) :
      StringEnds k source capacity (.error (.pageFault address), k')

variable {source : UInt64} {capacity : ℕ}

lemma StringEnds.of_reads {r : Except Stop (Option CString) × Kernel} (hreads : Reads k k')
    (h : StringEnds k' source capacity r) : StringEnds k source capacity r := by
  cases h with
  | copied hlow h hlen hreads' => exact .copied hlow (hreads.view ▸ h) hlen (hreads.trans hreads')
  | refused h hend hreads' => exact .refused (hreads.view ▸ h) hend (hreads.trans hreads')
  | faults hlow h hn hin hnone =>
    exact .faults hlow (hreads.view ▸ h) hn hin (hreads.view ▸ hnone)

lemma copyUserStringFrom_ends {remaining : ℕ} {dest : CString} (hlow : 65536 ≤ source.toNat)
    (hno : source.toNat + dest.length + remaining < 2 ^ 64)
    (hbytes : ∀ j < dest.length, k.view (source.toNat + j) = dest[j]?) (hnonzero : 0 ∉ dest) :
    StringEnds k source (dest.length + remaining)
      (copyUserStringFrom source remaining dest.length dest k) := by
  induction remaining generalizing k dest with
  | zero => exact .refused (unended_of_bytes hbytes hnonzero) (.inl rfl) (.refl k)
  | succ remaining ih =>
    have hunended := unended_of_bytes hbytes hnonzero
    rw [copyUserStringFrom]
    have hvalid : userRangeIsValid (source + UInt64.ofNat dest.length) 1 = true ↔
        65536 ≤ source.toNat + dest.length ∧ source.toNat + dest.length + 1 ≤ 2 ^ 47 :=
      userRangeIsValid_add (by decide) (by omega)
    by_cases hin : InUser source dest.length
    · have hlt := hin.2
      rw [if_pos (hvalid.mpr ⟨hin.1, by omega⟩)]
      cases hb : k.view (source.toNat + dest.length) with
      | none =>
        rw [Prog.bind_error (readUser_none hin hb)]
        exact .faults hlow hunended (by omega) hin hb
      | some c =>
        rw [Prog.bind_ok (readUser_some hin hb)]
        have hreads := reads_noteAccess k (source.toNat + dest.length)
        by_cases hc : c = 0
        · rw [if_pos hc]
          exact .copied hlow ⟨hbytes, hnonzero, hc ▸ hb⟩ (by omega) hreads
        · rw [if_neg hc]
          have hlen : (dest ++ [c]).length = dest.length + 1 := by simp
          have hcells : ∀ j < (dest ++ [c]).length,
              (k.noteAccess (source.toNat + dest.length)).view (source.toNat + j) = (dest ++ [c])[j]? := by
            intro j hj
            rw [hreads.view]
            by_cases hjd : j < dest.length
            · rw [List.getElem?_append_left hjd]
              exact hbytes j hjd
            · obtain rfl : j = dest.length := by omega
              rw [hb, List.getElem?_concat_length]
          have hne : 0 ∉ dest ++ [c] := by
            rw [List.mem_append, List.mem_singleton, not_or]
            exact ⟨hnonzero, fun h => hc h.symm⟩
          have hends : StringEnds (k.noteAccess (source.toNat + dest.length)) source
              ((dest ++ [c]).length + remaining) (copyUserStringFrom source remaining
                (dest ++ [c]).length (dest ++ [c]) (k.noteAccess (source.toNat + dest.length))) :=
            ih (by omega) hcells hne
          rw [hlen, Nat.add_assoc, Nat.add_comm 1] at hends
          exact hends.of_reads hreads
    · rw [if_neg fun h => hin ⟨(hvalid.mp h).1, by have := (hvalid.mp h).2; omega⟩]
      exact .refused hunended (.inr ⟨by omega, hin⟩) (.refl k)

lemma copyUserString_ends (hpos : 0 < capacity) (hcap : capacity ≤ 2 ^ 32) (source : UInt64) (k : Kernel) :
    StringEnds k source capacity (copyUserString capacity source k) := by
  rw [copyUserString]
  have hvalid : userRangeIsValid source 1 = true ↔
      65536 ≤ source.toNat ∧ source.toNat + 1 ≤ 2 ^ 47 := userRangeIsValid_iff (by decide)
  by_cases h : capacity = 0 ∨ ¬userRangeIsValid source 1 = true
  · rw [if_pos h]
    refine .refused (n := 0) (fun i hi => absurd hi (by omega)) (.inr ⟨hpos, fun hin => ?_⟩) (.refl k)
    rcases h with h | h
    · omega
    · exact h (hvalid.mpr ⟨hin.1, by have := hin.2; omega⟩)
  · rw [if_neg h]
    rw [not_or, not_not, hvalid] at h
    have hends : StringEnds k source (([] : CString).length + capacity)
        (copyUserStringFrom source capacity ([] : CString).length [] k) :=
      copyUserStringFrom_ends h.2.1 (by rw [List.length_nil]; omega) (fun j hj => absurd hj (by simp))
        List.not_mem_nil
    rwa [List.length_nil, Nat.zero_add] at hends

/-- A string that fits and lies in the user's part is copied. -/
lemma copyUserString_holds {text : CString} (hcap : capacity ≤ 2 ^ 32)
    (h : HoldsString k.view source.toNat text) (hlen : text.length < capacity)
    (hge : 65536 ≤ source.toNat) :
    ∃ k', copyUserString capacity source k = (.ok (some text), k') ∧ Reads k k' := by
  have hin : ∀ n ≤ text.length, k.view (source.toNat + n) ≠ none ∧ InUser source n := by
    intro n hn
    have hcell : k.view (source.toNat + n) ≠ none := by
      by_cases heq : n = text.length
      · rw [heq, h.ended]
        exact Option.some_ne_none _
      · rw [h.bytes n (by omega), List.getElem?_eq_getElem (by omega)]
        exact Option.some_ne_none _
    refine ⟨hcell, by omega, ?_⟩
    by_contra hlt
    exact hcell (if_neg hlt)
  have hends := copyUserString_ends (by omega) hcap source k
  generalize copyUserString capacity source k = r at hends
  cases hends with
  | copied _ h' _ hreads =>
    cases h.unique h'
    exact ⟨_, rfl, hreads⟩
  | refused h' hend _ =>
    have hn := h'.le h
    rcases hend with rfl | ⟨-, hout⟩
    · omega
    · exact absurd (hin _ hn).2 hout
  | faults _ h' _ _ hnone => exact absurd hnone (hin _ (h'.le h)).1

end Xbks
