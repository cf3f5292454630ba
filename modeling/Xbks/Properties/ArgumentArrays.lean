import Xbks.Properties.InitialStack
import Xbks.Properties.Listing

/-!
# Arrays of strings

The arguments and the environment of `execve` are arrays of pointers to strings, ended by a null
pointer. Which of them `copy_user_string_array` copies.
-/

namespace Xbks

variable {k k' : Kernel} {m : Memory UInt8} {a i : ℕ} {texts done : List CString} {text : CString}
  {userValues : UInt64}

/-- A pointer in the array points to a string that fits into its buffer. -/
structure PointsTo (m : Memory UInt8) (a : ℕ) (text : CString) (value : UInt64) : Prop where
  word : wordAt m a = some value
  low : 65536 ≤ value.toNat
  holds : HoldsString m value.toNat text
  short : text.length < maxString

/-- The array at `a` holds the strings, and then a null pointer. -/
structure HoldsStrings (m : Memory UInt8) (a : ℕ) (texts : List CString) : Prop where
  low : 65536 ≤ a
  high : a + 8 * texts.length + 8 ≤ 2 ^ 47
  strings : ∀ i text, texts[i]? = some text → ∃ value, PointsTo m (a + 8 * i) text value
  ended : wordAt m (a + 8 * texts.length) = some 0

lemma PointsTo.ne_zero {value : UInt64} (h : PointsTo m a text value) : value ≠ 0 := by
  rintro rfl
  exact absurd h.low (by decide)

/-- An array does not end before the strings that are known. -/
lemma HoldsStrings.length_le (h : HoldsStrings m a texts)
    (hdone : ∀ i text, done[i]? = some text → ∃ value, PointsTo m (a + 8 * i) text value) :
    done.length ≤ texts.length := by
  by_contra hlt
  obtain ⟨value, hvalue⟩ := hdone texts.length _ (List.getElem?_eq_getElem (by omega))
  have hzero : value = 0 := Option.some.inj (hvalue.word.symm.trans h.ended)
  exact hvalue.ne_zero hzero

lemma HoldsStrings.unique {texts' : List CString} (h : HoldsStrings m a texts)
    (h' : HoldsStrings m a texts') : texts = texts' := by
  have hlen : texts.length = texts'.length := le_antisymm (h'.length_le h.strings) (h.length_le h'.strings)
  refine List.ext_getElem hlen fun i hi hi' => ?_
  obtain ⟨value, hvalue⟩ := h.strings i _ (List.getElem?_eq_getElem hi)
  obtain ⟨value', hvalue'⟩ := h'.strings i _ (List.getElem?_eq_getElem hi')
  obtain rfl : value = value' := Option.some.inj (hvalue.word.symm.trans hvalue'.word)
  exact hvalue.holds.unique hvalue'.holds

lemma HoldsStrings.word_ne_none (h : HoldsStrings m a texts) (hi : i ≤ texts.length) :
    wordAt m (a + 8 * i) ≠ none := by
  by_cases heq : i = texts.length
  · rw [heq, h.ended]
    exact Option.some_ne_none _
  · obtain ⟨value, hvalue⟩ := h.strings i _ (List.getElem?_eq_getElem (by omega))
    rw [hvalue.word]
    exact Option.some_ne_none _

lemma HoldsStrings.pointer {value : UInt64} (h : HoldsStrings m a texts) (hi : i ≤ texts.length)
    (hword : wordAt m (a + 8 * i) = some value) (hne : value ≠ 0) :
    ∃ text, PointsTo m (a + 8 * i) text value := by
  by_cases heq : i = texts.length
  · rw [heq, h.ended] at hword
    exact absurd (Option.some.inj hword).symm hne
  · obtain ⟨value', hvalue⟩ := h.strings i _ (List.getElem?_eq_getElem (by omega))
    obtain rfl : value' = value := Option.some.inj (hvalue.word.symm.trans hword)
    exact ⟨_, hvalue⟩

/-- A string of the array can be copied. -/
lemma HoldsStrings.copies {value : UInt64} {k₁ : Kernel} (h : HoldsStrings k.view a texts)
    (hi : i ≤ texts.length) (hword : wordAt k.view (a + 8 * i) = some value) (hne : value ≠ 0)
    (hreads : Reads k k₁) : ∃ text k₂, copyUserString maxString value k₁ = (.ok (some text), k₂) := by
  obtain ⟨text, hpoints⟩ := h.pointer hi hword hne
  rw [← hreads.view] at hpoints
  obtain ⟨k₂, hcopy, -⟩ := copyUserString_holds (by norm_num) hpoints.holds hpoints.short hpoints.low
  exact ⟨text, k₂, hcopy⟩

/-- One string more. -/
lemma strings_concat {text : CString} {value : UInt64}
    (hdone : ∀ i text, done[i]? = some text → ∃ value, PointsTo m (a + 8 * i) text value)
    (h : PointsTo m (a + 8 * done.length) text value) :
    ∀ i text', (done ++ [text])[i]? = some text' → ∃ value, PointsTo m (a + 8 * i) text' value := by
  intro i text' hi
  rcases Nat.lt_trichotomy i done.length with hlt | rfl | hgt
  · rw [List.getElem?_append_left hlt] at hi
    exact hdone i text' hi
  · rw [List.getElem?_concat_length] at hi
    cases hi
    exact ⟨_, h⟩
  · rw [List.getElem?_eq_none (by rw [List.length_append, List.length_singleton]; omega)] at hi
    cases hi

/-- How copying an array ends: with all its strings, or without an answer or with a refusal, and then
there is no array or it does not have fewer strings than the limit. -/
inductive ArrayEnds (k : Kernel) (a limit : ℕ) : Except Stop (Option (List CString)) × Kernel → Prop
  | copied {texts : List CString} {k' : Kernel} (h : HoldsStrings k.view a texts)
      (hlen : texts.length < limit) (hreads : Reads k k') : ArrayEnds k a limit (.ok (some texts), k')
  | refused {k' : Kernel} (h : ∀ texts, HoldsStrings k.view a texts → limit ≤ texts.length) :
      ArrayEnds k a limit (.ok none, k')
  | faults {stop : Stop} {k' : Kernel}
      (h : ∀ texts, HoldsStrings k.view a texts → limit ≤ texts.length) :
      ArrayEnds k a limit (.error stop, k')

lemma ArrayEnds.of_reads {limit : ℕ} {r : Except Stop (Option (List CString)) × Kernel}
    (hreads : Reads k k') (h : ArrayEnds k' a limit r) : ArrayEnds k a limit r := by
  cases h with
  | copied h hlen hreads' => exact .copied (hreads.view ▸ h) hlen (hreads.trans hreads')
  | refused h => exact .refused (hreads.view ▸ h)
  | faults h => exact .faults (hreads.view ▸ h)

lemma copyUserStringArrayFrom_ends {remaining : ℕ} (hcount : done.length + remaining ≤ 2 ^ 32)
    (hrange : done.length = 0 ∨ 65536 ≤ userValues.toNat ∧ userValues.toNat < 2 ^ 47)
    (hdone : ∀ i text, done[i]? = some text →
      ∃ value, PointsTo k.view (userValues.toNat + 8 * i) text value) :
    ArrayEnds k userValues.toNat (done.length + remaining)
      (copyUserStringArrayFrom userValues remaining done.length done k) := by
  induction remaining generalizing k done with
  | zero => exact .refused fun texts h => h.length_le hdone
  | succ remaining ih =>
    have hno : userValues.toNat + 8 * done.length < 2 ^ 64 := by
      have := userValues.toNat_lt
      omega
    have hvalid : userRangeIsValid (userValues + UInt64.ofNat (8 * done.length)) 8 = true ↔
        65536 ≤ userValues.toNat + 8 * done.length ∧
          userValues.toNat + 8 * done.length + 8 ≤ 2 ^ 47 :=
      userRangeIsValid_add (by decide) hno
    rw [copyUserStringArrayFrom]
    by_cases hin : 65536 ≤ userValues.toNat + 8 * done.length ∧
        userValues.toNat + 8 * done.length + 8 ≤ 2 ^ 47
    · rw [if_pos (hvalid.mpr hin), Prog.bind_apply]
      have hends : LoadEnds k (userValues.toNat + 8 * done.length) 8
          (readUserBytes userValues (8 * done.length) 8 k) := readUserBytes_ends hin.1 hin.2
      generalize readUserBytes userValues (8 * done.length) 8 k = r at hends
      cases hends with
      | faults hload =>
        refine .faults fun texts h => absurd ?_ (h.word_ne_none (h.length_le hdone))
        rw [wordAt, hload, Option.map_none]
      | @done bytes k₁ hload hreads =>
        have hword : wordAt k.view (userValues.toNat + 8 * done.length) = some (wordOfBytes bytes) := by
          rw [wordAt, hload, Option.map_some]
        dsimp only
        by_cases hzero : wordOfBytes bytes = 0
        · rw [if_pos hzero]
          rw [hzero] at hword
          exact .copied ⟨by omega, hin.2, hdone, hword⟩ (by omega) hreads
        · rw [if_neg hzero, Prog.bind_apply]
          -- an array has one string more, and it can be copied
          have hcopies := fun texts (h : HoldsStrings k.view userValues.toNat texts) =>
            h.copies (h.length_le hdone) hword hzero hreads
          have hstring := copyUserString_ends (show 0 < maxString by norm_num) (by norm_num)
            (wordOfBytes bytes) k₁
          generalize copyUserString maxString (wordOfBytes bytes) k₁ = r at hstring hcopies
          cases hstring with
          | faults =>
            refine .faults fun texts h => ?_
            obtain ⟨text, k₂, hcopy⟩ := hcopies texts h
            cases hcopy
          | refused =>
            refine .refused fun texts h => ?_
            obtain ⟨text, k₂, hcopy⟩ := hcopies texts h
            cases hcopy
          | @copied text k₂ hlow hstring hlen hreads' =>
            have hreads₂ := hreads.trans hreads'
            rw [hreads.view] at hstring
            have hdone' := strings_concat hdone ⟨hword, hlow, hstring, hlen⟩
            rw [← hreads₂.view] at hdone'
            have hends : ArrayEnds k₂ userValues.toNat ((done ++ [text]).length + remaining)
                (copyUserStringArrayFrom userValues remaining (done ++ [text]).length (done ++ [text])
                  k₂) := by
              have hlength : (done ++ [text]).length = done.length + 1 := by simp
              exact ih (by omega) (.inr ⟨by omega, by omega⟩) hdone'
            rw [List.length_append, List.length_singleton, Nat.add_assoc, Nat.add_comm 1] at hends
            exact hends.of_reads hreads₂
    · rw [if_neg (mt hvalid.mp hin)]
      refine .refused fun texts h => absurd ?_ hin
      have hle := h.length_le hdone
      have hlow := h.low
      have hhigh := h.high
      omega

/-- The array is copied, with these strings. -/
def CopiesArray (k : Kernel) (limit : ℕ) (userValues : UInt64) (texts : List CString) : Prop :=
  ∃ k', copyUserStringArray limit userValues k = (.ok (some texts), k')

/-- A null pointer is copied as an empty array, any other array when it has fewer strings than the
limit. -/
lemma copiesArray_iff {limit : ℕ} (hlimit : limit ≤ 2 ^ 32) : CopiesArray k limit userValues texts ↔
    userValues = 0 ∧ texts = [] ∨ HoldsStrings k.view userValues.toNat texts ∧ texts.length < limit := by
  by_cases hzero : userValues = 0
  · have hnone : ¬HoldsStrings k.view userValues.toNat texts := by
      rw [hzero]
      exact fun h => absurd h.low (by decide)
    rw [CopiesArray, copyUserStringArray, if_pos hzero]
    constructor
    · rintro ⟨k', hcopy⟩
      cases hcopy
      exact .inl ⟨hzero, rfl⟩
    · rintro (⟨-, rfl⟩ | ⟨h, -⟩)
      · exact ⟨k, rfl⟩
      · exact absurd h hnone
  · have hends : ArrayEnds k userValues.toNat (([] : List CString).length + limit)
        (copyUserStringArrayFrom userValues limit ([] : List CString).length [] k) := by
      apply copyUserStringArrayFrom_ends
      · rwa [List.length_nil, Nat.zero_add]
      · exact .inl rfl
      · intro i text hi
        cases hi
    rw [List.length_nil, Nat.zero_add] at hends
    rw [CopiesArray, copyUserStringArray, if_neg hzero]
    generalize copyUserStringArrayFrom userValues limit 0 [] k = r at hends
    constructor
    · rintro ⟨k', rfl⟩
      cases hends with
      | copied h hlen => exact .inr ⟨h, hlen⟩
    · rintro (⟨h, -⟩ | ⟨h, hlen⟩)
      · exact absurd h hzero
      · cases hends with
        | @copied texts' k' h' =>
          have hunique : texts' = texts := h'.unique h
          exact ⟨k', by rw [hunique]⟩
        | refused hno => exact absurd hlen (Nat.not_lt.mpr (hno _ h))
        | faults hno => exact absurd hlen (Nat.not_lt.mpr (hno _ h))

/-- Exactly the arrays of at most as many strings as the limit says are copied. -/
def AcceptsUpTo (k : Kernel) (limit : ℕ) (userValues : UInt64) : Prop :=
  ∀ texts, CopiesArray k limit userValues texts ↔
    userValues = 0 ∧ texts = [] ∨ HoldsStrings k.view userValues.toNat texts ∧ texts.length ≤ limit

/-- The loop ends before it looks at the pointer behind as many strings as the limit says: an array with
so many strings is refused, and all others are treated as they should be. -/
theorem acceptsUpTo_iff {limit : ℕ} (hlimit : limit < 2 ^ 31) : AcceptsUpTo k limit userValues ↔
    ¬∃ texts, HoldsStrings k.view userValues.toNat texts ∧ texts.length = limit := by
  constructor
  · rintro h ⟨texts, hholds, hlen⟩
    have hcopies := (h texts).mpr (.inr ⟨hholds, hlen.le⟩)
    rcases (copiesArray_iff (by omega)).mp hcopies with ⟨hzero, -⟩ | ⟨-, hlt⟩
    · rw [hzero] at hholds
      exact absurd hholds.low (by decide)
    · omega
  · intro hno texts
    rw [copiesArray_iff (by omega)]
    refine or_congr_right (and_congr_right fun hholds => ?_)
    constructor
    · exact fun h => h.le
    · exact fun h => lt_of_le_of_ne h fun hlen => hno ⟨texts, hholds, hlen⟩

/-! ### Arrays of the small machine -/

/-- An array whose pointers all point to a zero. -/
lemma holdsStrings_replicate {n : ℕ} {value : UInt64} (hlow : 65536 ≤ a) (hhigh : a + 8 * n + 8 ≤ 2 ^ 47)
    (hvalue : 65536 ≤ value.toNat) (hzero : m value.toNat = some 0)
    (hload : m.load a (8 * (List.replicate n value ++ [0]).length) =
      some (wordBlock (List.replicate n value ++ [0]))) :
    HoldsStrings m a (List.replicate n []) := by
  have hlen : (List.replicate n value ++ [0]).length = n + 1 := by simp
  have hword : ∀ i < n + 1, wordAt m (a + 8 * i) = (List.replicate n value ++ [0])[i]? :=
    fun i hi => words_of_block hload (by omega)
  refine ⟨hlow, by rwa [List.length_replicate], ?_, ?_⟩
  · intro i text hi
    obtain ⟨hlt, rfl⟩ : i < n ∧ [] = text := by
      rw [List.getElem?_replicate] at hi
      split_ifs at hi with hlt
      exact ⟨hlt, Option.some.inj hi⟩
    refine ⟨value, ?_, hvalue, ⟨fun i hi => absurd hi (Nat.not_lt_zero i), List.not_mem_nil, hzero⟩,
      by decide⟩
    rw [hword i (by omega), List.getElem?_append_left (by rwa [List.length_replicate]),
      List.getElem?_replicate, if_pos hlt]
  · rw [List.length_replicate, hword n (by omega), List.getElem?_append_right (by simp)]
    simp

/-- The program of the small machine has written an array of empty strings to its page. -/
lemma small_array {n : ℕ} (hn : n < 512) : ∃ es k, Run ExecFits (started (smallBoot 0x10000)) es k ∧
    HoldsStrings k.view 0x10000 (List.replicate n []) := by
  have htidy : Tidy (smallBoot 0x10000) (started (smallBoot 0x10000)) :=
    owned_of_run (smallBoot_valid _) smallProgram.initFits smallBoot_starts .nil
  -- the strings end where the array does
  have hvalue : (UInt64.ofNat (0x10000 + 8 * n)).toNat = 0x10000 + 8 * n :=
    Word.toNat_ofNat_of_lt (by omega)
  generalize UInt64.ofNat (0x10000 + 8 * n) = value at hvalue
  have hlen : (wordBlock (List.replicate n value ++ [0])).length =
      8 * (List.replicate n value ++ [0]).length := length_wordBlock _
  have hhas : (started (smallBoot 0x10000)).view.Has 0x10000
      (wordBlock (List.replicate n value ++ [0])).length := by
    intro x hge hlt
    rw [hlen, List.length_append, List.length_replicate, List.length_singleton] at hlt
    exact small_has x hge (by omega)
  obtain ⟨es, k, hrun, hstored⟩ := run_stores .nil htidy.intact hhas
  have hload : k.view.load 0x10000 (8 * (List.replicate n value ++ [0]).length) =
      some (wordBlock (List.replicate n value ++ [0])) := by
    rw [hstored.view, ← hlen]
    exact Memory.load_store
  have hzero : k.view value.toNat = some 0 := by
    have hblock : wordBlock (List.replicate n value ++ [0]) =
        wordBlock (List.replicate n value) ++ wordBytes 0 ++ [] := by
      simp [wordBlock]
    have hlast := Memory.load_part _ _ _ hload hblock
    rw [length_wordBlock, List.length_replicate] at hlast
    rw [hvalue]
    exact (Memory.load_eq_some_iff.mp hlast).2 0 (by decide)
  exact ⟨es, k, hrun, holdsStrings_replicate (le_refl _) (by omega) (by omega) hzero hload⟩

/-- `execve` leaves room for 31 arguments and a null pointer. With 30 arguments it is enough. -/
theorem acceptsUpTo_small : ∃ es k, Run ExecFits (started (smallBoot 0x10000)) es k ∧
    HoldsStrings k.view 0x10000 (List.replicate 30 []) ∧ AcceptsUpTo k (maxArgs - 1) 0x10000 := by
  obtain ⟨es, k, hrun, hholds⟩ := small_array (show 30 < 512 by norm_num)
  refine ⟨es, k, hrun, hholds, (acceptsUpTo_iff (by decide)).mpr ?_⟩
  rintro ⟨texts, hholds', hlen⟩
  have hle := hholds.length_le hholds'.strings
  rw [List.length_replicate, hlen] at hle
  exact absurd hle (by decide)

/-- 31 arguments are refused. -/
theorem full_array_refused : ∃ es k, Run ExecFits (started (smallBoot 0x10000)) es k ∧
    HoldsStrings k.view 0x10000 (List.replicate (maxArgs - 1) []) ∧
    (¬∃ texts, CopiesArray k (maxArgs - 1) 0x10000 texts) ∧ ¬AcceptsUpTo k (maxArgs - 1) 0x10000 := by
  obtain ⟨es, k, hrun, hholds⟩ := small_array (show maxArgs - 1 < 512 by decide)
  have hrefused : ¬∃ texts, CopiesArray k (maxArgs - 1) 0x10000 texts := by
    rintro ⟨texts, hcopies⟩
    rcases (copiesArray_iff (by decide)).mp hcopies with ⟨hzero, -⟩ | ⟨hholds', hlen⟩
    · exact absurd hzero (by decide)
    · have hle := hholds'.length_le hholds.strings
      rw [List.length_replicate] at hle
      omega
  refine ⟨es, k, hrun, hholds, hrefused, ?_⟩
  intro h
  refine hrefused ⟨_, (h _).mpr (.inr ⟨hholds, ?_⟩)⟩
  rw [List.length_replicate]

end Xbks
