import Xbks.Process.Load

/-!
# What the loader reads and copies

Two fields of the memory manager's state record which bytes of the file the loader has read and
which it has copied, from where and to where. Here stands what each part of the loader adds to the
record, and that it depends on nothing else of the file.
-/

namespace Xbks

variable {kmem kmem' : KernelMemory} {file : RamdiskFile} {header : ElfHeader} {s s' s'' : Mm}
  {p : UInt64} {R : ℕ → Prop} {Q : Copy → Prop}

/-! ### What may be added -/

/-- Between `s` and `s'` the loader has read indices of the file in `R` and made copies in `Q`. -/
structure Logged (R : ℕ → Prop) (Q : Copy → Prop) (s s' : Mm) : Prop where
  reads : ∃ new, s'.reads = s.reads ++ new ∧ ∀ n ∈ new, R n
  copies : ∃ new, s'.copies = s.copies ++ new ∧ ∀ c ∈ new, Q c

lemma SameLog.logged (h : SameLog s s') : Logged R Q s s' :=
  ⟨⟨[], by rw [h.reads, List.append_nil], by simp⟩, [], by rw [h.copies, List.append_nil], by simp⟩

lemma Logged.refl (s : Mm) : Logged R Q s s := (SameLog.refl s).logged

lemma Logged.trans (h : Logged R Q s s') (h' : Logged R Q s' s'') : Logged R Q s s'' := by
  obtain ⟨⟨reads, hreads, hr⟩, copies, hcopies, hc⟩ := h
  obtain ⟨⟨reads', hreads', hr'⟩, copies', hcopies', hc'⟩ := h'
  refine ⟨⟨reads ++ reads', by rw [hreads', hreads, List.append_assoc], ?_⟩,
    copies ++ copies', by rw [hcopies', hcopies, List.append_assoc], ?_⟩
  · intro n hn
    exact (List.mem_append.mp hn).elim (hr n) (hr' n)
  · intro c hc₀
    exact (List.mem_append.mp hc₀).elim (hc c) (hc' c)

/-- What holds of the whole record holds of its parts. -/
lemma Logged.split {R₁ R₂ : ℕ → Prop} {Q₁ Q₂ : Copy → Prop} (h : Logged R Q s s'')
    (h₁ : Logged R₁ Q₁ s s') (h₂ : Logged R₂ Q₂ s' s'') : Logged R Q s s' ∧ Logged R Q s' s'' := by
  obtain ⟨⟨reads, hreads, hr⟩, copies, hcopies, hc⟩ := h
  obtain ⟨⟨reads₁, hreads₁, -⟩, copies₁, hcopies₁, -⟩ := h₁
  obtain ⟨⟨reads₂, hreads₂, -⟩, copies₂, hcopies₂, -⟩ := h₂
  obtain rfl : reads = reads₁ ++ reads₂ := by
    rw [hreads₂, hreads₁, List.append_assoc] at hreads
    exact (List.append_cancel_left hreads).symm
  obtain rfl : copies = copies₁ ++ copies₂ := by
    rw [hcopies₂, hcopies₁, List.append_assoc] at hcopies
    exact (List.append_cancel_left hcopies).symm
  constructor
  · exact ⟨⟨reads₁, hreads₁, fun n hn => hr n (List.mem_append.mpr (.inl hn))⟩, copies₁, hcopies₁,
      fun c hc' => hc c (List.mem_append.mpr (.inl hc'))⟩
  · exact ⟨⟨reads₂, hreads₂, fun n hn => hr n (List.mem_append.mpr (.inr hn))⟩, copies₂, hcopies₂,
      fun c hc' => hc c (List.mem_append.mpr (.inr hc'))⟩

lemma logged_noteReads {first length : ℕ} (h : ∀ n, first ≤ n → n < first + length → R n) :
    Logged R Q s (s.noteReads first length) := by
  refine ⟨⟨List.range' first length, rfl, fun n hn => ?_⟩, [], by simp [Mm.noteReads], by simp⟩
  rw [List.mem_range'_1] at hn
  exact h n hn.1 hn.2

lemma logged_copyChunk {src : ℕ → UInt8} {address physical : UInt64} {first chunk : ℕ}
    (h : ∀ c : Copy, first ≤ c.source → c.source < first + chunk → Q c) :
    Logged R Q s (copyChunk src s address physical first chunk) := by
  induction chunk with
  | zero => exact .refl s
  | succ chunk ih =>
    refine (ih fun c hc hlt => h c hc (by omega)).trans ⟨⟨[], ?_, by simp⟩, _, rfl, ?_⟩
    · exact (List.append_nil _).symm
    · intro c hc
      rw [List.mem_singleton.mp hc]
      exact h _ (Nat.le_add_right first chunk) (Nat.lt_succ_self (first + chunk))

lemma logged_writeProcessMemoryFrom {src : ℕ → UInt8} {v : UInt64} {first size fuel written : ℕ}
    (h : ∀ c : Copy, first ≤ c.source → c.source < first + size → Q c) :
    Logged R Q s (writeProcessMemoryFrom src p v first size fuel s written).2 := by
  induction fuel generalizing s written with
  | zero => exact .refl s
  | succ fuel ih =>
    simp only [writeProcessMemoryFrom]
    split_ifs with hw
    · cases vmmTranslate s p (v + UInt64.ofNat written) with
      | none => exact .refl s
      | some physical =>
        refine .trans (logged_copyChunk fun c hc hlt => h c (by omega) ?_) ih
        omega
    · exact .refl s

lemma logged_mapUserRange (s : Mm) (p base size flags : UInt64) :
    Logged R Q s (mapUserRange s p base size flags).2 := by
  refine SameLog.logged ?_
  refine Loop.forWhile_rel SameLog.refl (fun h h' => h.trans h') fun s page _ => ?_
  rw [mapUserPage_eq]
  exact sameLog_mapNew _ _ _ _ _

/-- A chunk is recorded byte by byte. -/
lemma Logged.copied {src : ℕ → UInt8} {address physical : UInt64} {first chunk k : ℕ}
    (h : Logged R Q s (copyChunk src s address physical first chunk)) (hk : k < chunk) :
    Q ⟨address + UInt64.ofNat k, physical + UInt64.ofNat k, first + k⟩ := by
  induction chunk with
  | zero => omega
  | succ chunk ih =>
    have hbefore : Logged (fun _ => True) (fun _ => True) s
        (copyChunk src s address physical first chunk) := logged_copyChunk fun _ _ _ => trivial
    have hlast : Logged (fun _ => True) (fun _ => True)
        (copyChunk src s address physical first chunk)
        (copyChunk src s address physical first (chunk + 1)) :=
      ⟨⟨[], (List.append_nil _).symm, by simp⟩, _, rfl, fun _ _ => trivial⟩
    obtain ⟨hinit, hlast⟩ := h.split hbefore hlast
    by_cases hlt : k < chunk
    · exact ih hinit hlt
    · obtain rfl : k = chunk := by omega
      obtain ⟨new, hnew, hQ⟩ := hlast.copies
      obtain rfl := List.append_cancel_left hnew
      exact hQ _ (List.mem_singleton.mpr rfl)

/-- A copy that succeeds has copied every byte. -/
lemma Logged.written {src : ℕ → UInt8} {v : UInt64} {first size fuel written n : ℕ}
    (h : Logged R (fun c => R c.source) s
      (writeProcessMemoryFrom src p v first size fuel s written).2)
    (hok : (writeProcessMemoryFrom src p v first size fuel s written).1 = true)
    (hfuel : size ≤ written + fuel) (hn : first + written ≤ n) (hlt : n < first + size) : R n := by
  induction fuel generalizing s written with
  | zero => omega
  | succ fuel ih =>
    have hw : written < size := by omega
    simp only [writeProcessMemoryFrom, if_pos hw] at h hok
    have hoff : ((v + UInt64.ofNat written) &&& (pageSize - 1)).toNat =
        (v + UInt64.ofNat written).toNat % 4096 := pageOffset_toNat
    rw [hoff] at h hok
    cases ht : vmmTranslate s p (v + UInt64.ofNat written) with
    | none =>
      rw [ht] at hok
      cases hok
    | some physical =>
      rw [ht] at h hok
      dsimp only at h hok
      set chunk := min (4096 - (v + UInt64.ofNat written).toNat % 4096) (size - written) with hchunk
      have hnow : Logged (fun _ => True) (fun _ => True) s
          (copyChunk src s (v + UInt64.ofNat written) physical (first + written) chunk) :=
        logged_copyChunk fun _ _ _ => trivial
      obtain ⟨hfirst, hrest⟩ := h.split hnow (logged_writeProcessMemoryFrom (R := fun _ => True)
        (Q := fun _ => True) fun _ _ _ => trivial)
      by_cases hlast : n < first + written + chunk
      · have hR := hfirst.copied (k := n - (first + written)) (by omega)
        have heq : first + written + (n - (first + written)) = n := by omega
        simpa only [heq] using hR
      · exact ih hrest hok (by omega) (by omega)

/-- An iteration that succeeds has read all of the header, and all of the segment. -/
lemma Logged.segment {i : ℕ}
    (h : Logged R (fun c => R c.source) s (loadSegment kmem p file header s i).2)
    (hok : (loadSegment kmem p file header s i).1 = true) :
    R (header.phoff.toNat + 56 * i + 55) ∧
      ((programHeader kmem file header i).type = 1 → ∀ n,
        (programHeader kmem file header i).offset.toNat ≤ n →
        n < (programHeader kmem file header i).offset.toNat +
          (programHeader kmem file header i).filesz.toNat → R n) := by
  have hnote : Logged (fun _ => True) (fun _ => True) s
      (s.noteReads (header.phoff.toNat + 56 * i) 56) := logged_noteReads fun _ _ _ => trivial
  have hlast : header.phoff.toNat + 56 * i + 55 ∈
      List.range' (header.phoff.toNat + 56 * i) 56 := by
    rw [List.mem_range'_1]
    omega
  have hread : Logged R (fun c => R c.source) s (s.noteReads (header.phoff.toNat + 56 * i) 56) →
      R (header.phoff.toNat + 56 * i + 55) := by
    intro h
    obtain ⟨new, hnew, hR⟩ := h.reads
    obtain rfl := List.append_cancel_left hnew
    exact hR _ hlast
  simp only [loadSegment] at h hok
  generalize s.noteReads (header.phoff.toNat + 56 * i) 56 = s₁ at *
  split_ifs at h hok with htype hacc
  · exact ⟨hread h, fun h => absurd h htype⟩
  · have hmap := logged_mapUserRange (R := fun _ => True) (Q := fun _ => True) s₁ p
      (programHeader kmem file header i).vaddr (programHeader kmem file header i).memsz pageWritable
    rcases hr : mapUserRange s₁ p (programHeader kmem file header i).vaddr
      (programHeader kmem file header i).memsz pageWritable with ⟨_ | _, s₂⟩
    · rw [hr] at hok
      cases hok
    · rw [hr] at h hok hmap
      obtain ⟨hbefore, hwrite⟩ := h.split (hnote.trans hmap) (logged_writeProcessMemoryFrom
        (R := fun _ => True) (Q := fun _ => True) fun _ _ _ => trivial)
      obtain ⟨hfirst, -⟩ := hbefore.split hnote hmap
      refine ⟨hread hfirst, fun _ n hn hlt => ?_⟩
      exact hwrite.written hok (by omega) hn hlt

/-- The two memories have the same file bytes from index `n` on, `count` of them. -/
def SameBytes (kmem kmem' : KernelMemory) (file : RamdiskFile) (n count : ℕ) : Prop :=
  ∀ m, n ≤ m → m < n + count → fileByte kmem' file m = fileByte kmem file m

lemma SameBytes.sub {n count m count' : ℕ} (h : SameBytes kmem kmem' file n count) (hn : n ≤ m)
    (hcount : m + count' ≤ n + count) : SameBytes kmem kmem' file m count' :=
  fun x hx hlt => h x (by omega) (by omega)

/-- The address of byte `n`, as pointer arithmetic computes it. -/
lemma data_add (file : RamdiskFile) (n m : ℕ) :
    file.data + UInt64.ofNat n + UInt64.ofNat m = file.data + UInt64.ofNat (n + m) := by
  rw [UInt64.add_assoc, ← UInt64.ofNat_add]

lemma SameBytes.read16_eq {n : ℕ} (h : SameBytes kmem kmem' file n 2) :
    read16 kmem' (file.data + UInt64.ofNat n) = read16 kmem (file.data + UInt64.ofNat n) := by
  have h₀ : kmem' (file.data + UInt64.ofNat n) = kmem (file.data + UInt64.ofNat n) :=
    h n (le_refl n) (by omega)
  have h₁ : kmem' (file.data + UInt64.ofNat (n + 1)) = kmem (file.data + UInt64.ofNat (n + 1)) :=
    h (n + 1) (by omega) (by omega)
  have hone : (1 : UInt64) = UInt64.ofNat 1 := rfl
  rw [read16, read16, hone, data_add, h₀, h₁]

lemma SameBytes.read32_eq {n : ℕ} (h : SameBytes kmem kmem' file n 4) :
    read32 kmem' (file.data + UInt64.ofNat n) = read32 kmem (file.data + UInt64.ofNat n) := by
  have htwo : (2 : UInt64) = UInt64.ofNat 2 := rfl
  rw [read32, read32, htwo, data_add, (h.sub (le_refl n) (by omega)).read16_eq,
    (h.sub (show n ≤ n + 2 by omega) (by omega)).read16_eq]

lemma SameBytes.read64_eq {n : ℕ} (h : SameBytes kmem kmem' file n 8) :
    read64 kmem' (file.data + UInt64.ofNat n) = read64 kmem (file.data + UInt64.ofNat n) := by
  have hfour : (4 : UInt64) = UInt64.ofNat 4 := rfl
  rw [read64, read64, hfour, data_add, (h.sub (le_refl n) (by omega)).read32_eq,
    (h.sub (show n ≤ n + 4 by omega) (by omega)).read32_eq]

/-- The header depends on the first 64 bytes. -/
lemma SameBytes.header_eq (h : SameBytes kmem kmem' file 0 64) :
    ElfHeader.read kmem' file.data = ElfHeader.read kmem file.data := by
  have hident : bytesAt kmem' file.data 6 = bytesAt kmem file.data 6 :=
    List.map_congr_left fun n hn => h n (Nat.zero_le n) (by rw [List.mem_range] at hn; omega)
  have hmachine := (h.sub (show 0 ≤ 18 by omega) (by omega)).read16_eq
  have hentry := (h.sub (show 0 ≤ 24 by omega) (by omega)).read64_eq
  have hphoff := (h.sub (show 0 ≤ 32 by omega) (by omega)).read64_eq
  have hphentsize := (h.sub (show 0 ≤ 54 by omega) (by omega)).read16_eq
  have hphnum := (h.sub (show 0 ≤ 56 by omega) (by omega)).read16_eq
  rw [ElfHeader.read, ElfHeader.read, ElfHeader.mk.injEq]
  exact ⟨hident, hmachine, hentry, hphoff, hphentsize, hphnum⟩

/-- A program header depends on its 56 bytes. -/
lemma SameBytes.programHeader_eq {i : ℕ}
    (h : SameBytes kmem kmem' file (header.phoff.toNat + 56 * i) 56) :
    programHeader kmem' file header i = programHeader kmem file header i := by
  have haddress : file.data + header.phoff + UInt64.ofNat (56 * i) =
      file.data + UInt64.ofNat (header.phoff.toNat + 56 * i) := by
    rw [← data_add, UInt64.ofNat_toNat]
  have hfield : ∀ m, m + 8 ≤ 56 →
      read64 kmem' (file.data + UInt64.ofNat (header.phoff.toNat + 56 * i) + UInt64.ofNat m) =
        read64 kmem (file.data + UInt64.ofNat (header.phoff.toNat + 56 * i) + UInt64.ofNat m) := by
    intro m hm
    rw [data_add]
    exact (h.sub (by omega) (by omega)).read64_eq
  rw [programHeader, programHeader, haddress, ProgramHeader.read, ProgramHeader.read,
    ProgramHeader.mk.injEq]
  refine ⟨(h.sub (le_refl _) (by omega)).read32_eq, ?_, ?_, ?_, ?_⟩
  · exact hfield 8 (by omega)
  · exact hfield 16 (by omega)
  · exact hfield 32 (by omega)
  · exact hfield 40 (by omega)

lemma copyChunk_congr {src src' : ℕ → UInt8} {address physical : UInt64} {first chunk : ℕ}
    (h : ∀ n, first ≤ n → n < first + chunk → src' n = src n) :
    copyChunk src' s address physical first chunk = copyChunk src s address physical first chunk := by
  induction chunk with
  | zero => rfl
  | succ chunk ih =>
    simp only [copyChunk]
    rw [ih fun n hn hlt => h n hn (by omega), h (first + chunk) (by omega) (by omega)]

lemma writeProcessMemoryFrom_congr {src src' : ℕ → UInt8} {v : UInt64}
    {first size fuel written : ℕ} (h : ∀ n, first ≤ n → n < first + size → src' n = src n) :
    writeProcessMemoryFrom src' p v first size fuel s written =
      writeProcessMemoryFrom src p v first size fuel s written := by
  induction fuel generalizing s written with
  | zero => rfl
  | succ fuel ih =>
    simp only [writeProcessMemoryFrom]
    split_ifs with hw
    · cases vmmTranslate s p (v + UInt64.ofNat written) with
      | none => rfl
      | some physical =>
        dsimp only
        rw [copyChunk_congr fun n hn hlt => h n (by omega) (by omega), ih]
    · rfl

/-- What an iteration of the loader does depends on the bytes it reads and copies. -/
lemma SameBytes.loadSegment_eq {i : ℕ}
    (h : SameBytes kmem kmem' file (header.phoff.toNat + 56 * i) 56)
    (hcopy : (programHeader kmem file header i).type = 1 →
      (programHeader kmem file header i).isAccepted file.size = true →
      SameBytes kmem kmem' file (programHeader kmem file header i).offset.toNat
        (programHeader kmem file header i).filesz.toNat) :
    loadSegment kmem' p file header s i = loadSegment kmem p file header s i := by
  simp only [loadSegment, h.programHeader_eq]
  split_ifs with htype hacc
  · rfl
  · rcases mapUserRange _ p _ _ pageWritable with ⟨_ | _, s₁⟩
    · rfl
    · exact writeProcessMemoryFrom_congr (hcopy (not_not.mp htype) hacc)
  · rfl

end Xbks
