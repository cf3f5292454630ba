import Xbks.Fs.Bytes

/-!
# Bytes and strings

The functions on bytes never fail, and what they leave in their buffers is what the functions on
strings compute. `Spells text s` says that the bytes of `text` are the characters of `s` and a NUL.
-/

namespace Xbks.Bytes

variable {text path lhs rhs src : Source} {s t pre bytes : CString} {b out dest : Buffer} {fuel i : ℕ}

/-! ### Sources -/

@[simp] lemma from_apply (start : ℕ) : text.from start i = text (start + i) := rfl

@[simp] lemma from_from (start start' : ℕ) : (text.from start).from start' = text.from (start + start') := by
  funext i
  simp [Nat.add_assoc]

@[simp] lemma from_zero : text.from 0 = text := by
  funext i
  simp

/-- The bytes can be read from the start of `text`. -/
def Covers (text : Source) (bytes : List UInt8) : Prop :=
  ∀ i < bytes.length, text i = bytes[i]?

structure Spells (text : Source) (s : CString) : Prop where
  covers : Covers text (s ++ [0])
  nonzero : 0 ∉ s

lemma covers_nil : Covers text [] := fun _ hi => absurd hi (Nat.not_lt_zero _)

lemma covers_cons {c : UInt8} : Covers text (c :: bytes) ↔ text 0 = some c ∧ Covers (text.from 1) bytes := by
  constructor
  · intro h
    refine ⟨h 0 (Nat.zero_lt_succ _), fun i hi => ?_⟩
    have := h (i + 1) (Nat.succ_lt_succ hi)
    rwa [List.getElem?_cons_succ, Nat.add_comm] at this
  · rintro ⟨hc, hrest⟩ i hi
    cases i with
    | zero => exact hc
    | succ i =>
      have := hrest i (Nat.lt_of_succ_lt_succ hi)
      rwa [from_apply, Nat.add_comm] at this

lemma Covers.of_prefix {bytes' : List UInt8} (h : Covers text bytes) (hp : bytes' <+: bytes) :
    Covers text bytes' := by
  obtain ⟨rest, rfl⟩ := hp
  intro i hi
  rw [h i (by rw [List.length_append]; omega), List.getElem?_append_left hi]

/-- What is left of the bytes behind a prefix. -/
lemma Covers.drop {bytes' rest : List UInt8} (h : Covers text (bytes' ++ rest)) :
    Covers (text.from bytes'.length) rest := by
  intro i hi
  have := h (bytes'.length + i) (by rw [List.length_append]; omega)
  rwa [List.getElem?_append_right (Nat.le_add_right _ _), Nat.add_sub_cancel_left] at this

lemma spells_nil : Spells text [] ↔ text 0 = some 0 := by
  constructor
  · exact fun h => (covers_cons.mp h.covers).1
  · exact fun h => ⟨covers_cons.mpr ⟨h, covers_nil⟩, List.not_mem_nil⟩

lemma spells_cons {c : UInt8} : Spells text (c :: s) ↔ text 0 = some c ∧ c ≠ 0 ∧ Spells (text.from 1) s := by
  constructor
  · rintro ⟨hcovers, hnonzero⟩
    rw [List.mem_cons, not_or] at hnonzero
    obtain ⟨hc, hrest⟩ := covers_cons.mp hcovers
    exact ⟨hc, fun h => hnonzero.1 h.symm, hrest, hnonzero.2⟩
  · rintro ⟨hc, hne, hrest⟩
    refine ⟨covers_cons.mpr ⟨hc, hrest.covers⟩, ?_⟩
    rw [List.mem_cons, not_or]
    exact ⟨fun h => hne h.symm, hrest.nonzero⟩

lemma Spells.drop (h : Spells text (s ++ t)) : Spells (text.from s.length) t := by
  refine ⟨?_, fun ht => h.nonzero (List.mem_append_right s ht)⟩
  have := h.covers
  rw [List.append_assoc] at this
  exact this.drop

lemma Spells.chars (h : Spells text s) : Covers text s := h.covers.of_prefix (List.prefix_append s [0])

lemma spells_textOf (h : 0 ∉ s) : Spells (textOf s) s := ⟨fun _ _ => rfl, h⟩

/-- The buffer holds the string. -/
abbrev Holds (b : Buffer) (s : CString) : Prop := Spells b.read s

lemma Holds.length_lt (h : Holds b s) : s.length < ramdiskPathSize := by
  have hlast := h.covers s.length (by simp)
  rw [Buffer.read] at hlast
  by_contra hge
  rw [if_neg hge] at hlast
  simp at hlast

/-! ### Reading -/

lemma strlenFrom_eq (h : Spells (text.from i) s) (hfuel : s.length < fuel) :
    strlenFrom text fuel i = some (i + s.length) := by
  induction s generalizing i fuel with
  | nil =>
    obtain ⟨fuel, rfl⟩ := Nat.exists_eq_add_of_lt hfuel
    have h0 : text i = some 0 := spells_nil.mp h
    simp [strlenFrom, h0]
  | cons c s ih =>
    obtain ⟨hc, hne, hrest⟩ := spells_cons.mp h
    have hc : text i = some c := hc
    rw [from_from] at hrest
    cases fuel with
    | zero => cases hfuel
    | succ fuel =>
      rw [List.length_cons] at hfuel ⊢
      simp only [strlenFrom, hc, Option.bind_eq_bind, Option.bind_some, if_pos hne]
      rw [ih hrest (by omega), Nat.add_assoc, Nat.add_comm 1]

lemma strlen_eq (h : Holds b s) : strlen b = some s.length := by
  rw [strlen, strlenFrom_eq (s := s) (by simpa using h) h.length_lt, Nat.zero_add]

lemma strcmpFrom_eq (hl : Spells (lhs.from i) s) (hr : Spells (rhs.from i) t) (hfuel : s.length < fuel) :
    strcmpFrom lhs rhs fuel i = some (decide (s = t)) := by
  induction s generalizing i fuel t with
  | nil =>
    cases fuel with
    | zero => cases hfuel
    | succ fuel =>
      have hl : lhs i = some 0 := spells_nil.mp hl
      cases t with
      | nil =>
        have hr : rhs i = some 0 := spells_nil.mp hr
        simp [strcmpFrom, hl, hr]
      | cons d t =>
        obtain ⟨hd, hne, -⟩ := spells_cons.mp hr
        have hd : rhs i = some d := hd
        simp [strcmpFrom, hl, hd, hne.symm]
  | cons c s ih =>
    obtain ⟨hc, hne, hrest⟩ := spells_cons.mp hl
    have hc : lhs i = some c := hc
    cases fuel with
    | zero => cases hfuel
    | succ fuel =>
      rw [List.length_cons] at hfuel
      cases t with
      | nil =>
        have hr : rhs i = some 0 := spells_nil.mp hr
        simp [strcmpFrom, hc, hr, hne]
      | cons d t =>
        obtain ⟨hd, -, hrest'⟩ := spells_cons.mp hr
        have hd : rhs i = some d := hd
        rw [from_from] at hrest hrest'
        by_cases hcd : c = d
        · have hstep := ih hrest hrest' (show s.length < fuel by omega)
          simp [strcmpFrom, hc, hd, ← hcd, hne, hstep]
        · simp [strcmpFrom, hc, hd, hcd]

lemma strcmp_eq {b' : Buffer} (hl : Holds b s) (hr : Holds b' t) : strcmp b b' = some (decide (s = t)) :=
  strcmpFrom_eq (by simpa using hl) (by simpa using hr) hl.length_lt

lemma strncmpFrom_eq (hl : Spells (lhs.from i) s) (hr : Spells (rhs.from i) t) :
    strncmpFrom lhs rhs t.length i = some (decide (t <+: s)) := by
  induction t generalizing i s with
  | nil => simp [strncmpFrom]
  | cons d t ih =>
    obtain ⟨hd, hne, hrest'⟩ := spells_cons.mp hr
    have hd : rhs i = some d := hd
    rw [List.length_cons]
    cases s with
    | nil =>
      have hl : lhs i = some 0 := spells_nil.mp hl
      simp [strncmpFrom, hl, hd, hne.symm]
    | cons c s =>
      obtain ⟨hc, hcne, hrest⟩ := spells_cons.mp hl
      have hc : lhs i = some c := hc
      rw [from_from] at hrest hrest'
      by_cases hcd : c = d
      · simp [strncmpFrom, hc, hd, ← hcd, hcne, ih hrest hrest']
      · simp [strncmpFrom, hc, hd, hcd, Ne.symm hcd]

lemma startsBelow_eq {b' : Buffer} (hl : Holds b s) (hr : Holds b' t) :
    startsBelow b b' t.length = some ((t ++ [slash]).isPrefixOf s) := by
  have hcmp : strncmp b b' t.length = some (decide (t <+: s)) :=
    strncmpFrom_eq (by simpa using hl) (by simpa using hr)
  simp only [startsBelow, hcmp, Option.bind_eq_bind, Option.bind_some]
  by_cases hpre : t <+: s
  · obtain ⟨rest, rfl⟩ := hpre
    have hrest := hl.drop
    have hpre' : (t ++ [slash]).isPrefixOf (t ++ rest) = decide ([slash] <+: rest) := by
      rw [Bool.eq_iff_iff, List.isPrefixOf_iff_prefix, decide_eq_true_eq, List.prefix_append_right_inj]
    rw [if_pos (by simp), hpre']
    cases rest with
    | nil =>
      have h0 : b.read (t.length + 0) = some 0 := spells_nil.mp hrest
      rw [Nat.add_zero] at h0
      simp [h0, show (0 : UInt8) ≠ slash by decide]
    | cons c rest =>
      have hc : b.read (t.length + 0) = some c := (spells_cons.mp hrest).1
      rw [Nat.add_zero] at hc
      simp [hc, eq_comm]
  · have hnot : (t ++ [slash]).isPrefixOf s = false := by
      rw [Bool.eq_false_iff, ne_eq, List.isPrefixOf_iff_prefix]
      exact fun h => hpre ((List.prefix_append t [slash]).trans h)
    simp [hpre, hnot]

/-! ### Fields of a header -/

lemma scan_eq {p : UInt8 → Bool} (h : Covers (text.from i) bytes) :
    scan text p bytes.length i = some (i + (bytes.takeWhile p).length) := by
  induction bytes generalizing i with
  | nil => rfl
  | cons c bytes ih =>
    obtain ⟨hc, hrest⟩ := covers_cons.mp h
    have hc : text i = some c := hc
    rw [from_from] at hrest
    rw [List.length_cons]
    cases hp : p c with
    | false => simp [scan, hc, hp]
    | true =>
      simp only [scan, hc, Option.bind_eq_bind, Option.bind_some, hp, if_true, ih hrest,
        List.takeWhile_cons_of_pos hp, List.length_cons]
      rw [Nat.add_assoc, Nat.add_comm 1]

lemma boundedStrlen_eq (h : Covers text bytes) :
    boundedStrlen text bytes.length = some (bytes.takeWhile (· ≠ 0)).length := by
  rw [boundedStrlen, scan_eq (by simpa using h), Nat.zero_add]

lemma blockIsZeroFrom_eq (h : Covers (text.from i) bytes) :
    blockIsZeroFrom text bytes.length i = some (bytes.all (· = 0)) := by
  induction bytes generalizing i with
  | nil => rfl
  | cons c bytes ih =>
    obtain ⟨hc, hrest⟩ := covers_cons.mp h
    have hc : text i = some c := hc
    rw [from_from] at hrest
    rw [List.length_cons]
    by_cases hzero : c = 0
    · simp [blockIsZeroFrom, hc, hzero, ih hrest]
    · simp [blockIsZeroFrom, hc, hzero]

lemma octalFrom_eq (h : Covers (text.from i) bytes) (value : UInt64) :
    octalFrom text bytes.length i value =
      some ((bytes.takeWhile fun c => 48 ≤ c ∧ c ≤ 55).foldl
        (fun (value : UInt64) (c : UInt8) => (value <<< 3) + (c - 48).toUInt64) value) := by
  induction bytes generalizing i value with
  | nil => rfl
  | cons c bytes ih =>
    obtain ⟨hc, hrest⟩ := covers_cons.mp h
    have hc : text i = some c := hc
    rw [from_from] at hrest
    rw [List.length_cons]
    by_cases hdigit : 48 ≤ c ∧ c ≤ 55
    · have hnot : ¬(c < 48 ∨ c > 55) := by
        rw [not_or, gt_iff_lt, UInt8.not_lt, UInt8.not_lt]
        exact hdigit
      simp only [octalFrom, hc, Option.bind_eq_bind, Option.bind_some, if_neg hnot, ih hrest]
      rw [List.takeWhile_cons_of_pos (by simpa using hdigit), List.foldl_cons]
    · have hstop : c < 48 ∨ c > 55 := by
        rw [gt_iff_lt, ← UInt8.not_le, ← UInt8.not_le, ← not_and_or]
        exact hdigit
      simp only [octalFrom, hc, Option.bind_eq_bind, Option.bind_some, if_pos hstop]
      rw [List.takeWhile_cons_of_neg (by simpa using hdigit), List.foldl_nil]

lemma parseOctal_eq (h : Covers text bytes) :
    parseOctal text bytes.length = some (Xbks.parseOctal bytes) := by
  have hsplit : bytes = bytes.takeWhile (fun c => c = 32 ∨ c = 0) ++
      bytes.dropWhile (fun c => c = 32 ∨ c = 0) := List.takeWhile_append_dropWhile.symm
  have hlen := congrArg List.length hsplit
  rw [List.length_append] at hlen
  have hrest : Covers (text.from (bytes.takeWhile (fun c => c = 32 ∨ c = 0)).length)
      (bytes.dropWhile (fun c => c = 32 ∨ c = 0)) := by
    rw [hsplit] at h
    exact h.drop
  rw [parseOctal, scan_eq (by simpa using h), Nat.zero_add]
  simp only [Option.bind_eq_bind, Option.bind_some]
  rw [show bytes.length - (bytes.takeWhile (fun c => c = 32 ∨ c = 0)).length =
    (bytes.dropWhile (fun c => c = 32 ∨ c = 0)).length by omega, octalFrom_eq hrest]
  rfl

/-! ### Copying -/

/-- The buffer starts with these bytes. -/
abbrev Starts (b : Buffer) (pre : List UInt8) : Prop := Covers (fun i => some (b i)) pre

lemma write_eq {v : UInt8} (h : i < ramdiskPathSize) : out.write i v = some (Function.update out i v) :=
  if_pos h

lemma Starts.write {v : UInt8} (h : Starts b pre) : Starts (Function.update b pre.length v) (pre ++ [v]) := by
  intro j hj
  rw [List.length_append, List.length_singleton] at hj
  dsimp only
  by_cases hlt : j < pre.length
  · rw [Function.update_of_ne (by omega), List.getElem?_append_left hlt]
    exact h j hlt
  · have heq : j = pre.length := by omega
    rw [heq, Function.update_self, List.getElem?_concat_length]

/-- A NUL behind the characters makes a string of them. -/
lemma Starts.holds (h : Starts b (s ++ [0])) (hnonzero : 0 ∉ s) (hlen : s.length < ramdiskPathSize) :
    Holds b s := by
  refine ⟨fun j hj => ?_, hnonzero⟩
  have hcap : j < ramdiskPathSize := by
    rw [List.length_append, List.length_singleton] at hj
    omega
  rw [Buffer.read, if_pos hcap]
  exact h j hj

lemma Holds.starts (h : Holds b s) : Starts b (s ++ [0]) := by
  intro j hj
  have hcap : j < ramdiskPathSize := by
    have := h.length_lt
    rw [List.length_append, List.length_singleton] at hj
    omega
  have := h.covers j hj
  rwa [Buffer.read, if_pos hcap] at this

lemma Holds.nul (h : Holds b s) : b s.length = 0 := by
  have := h.starts s.length (by simp)
  simpa using this

lemma Holds.terminated (h : Holds b s) : b.terminated = some b :=
  if_pos ⟨s.length, h.length_lt, h.nul⟩

/-- Write the NUL behind what has been written. -/
lemma Starts.finish (h : Starts b s) (hnonzero : 0 ∉ s) (hlen : s.length < ramdiskPathSize) :
    ∃ b', b.write s.length 0 = some b' ∧ b'.terminated = some b' ∧ Holds b' s := by
  have hholds := h.write (v := 0).holds hnonzero hlen
  exact ⟨_, write_eq hlen, hholds.terminated, hholds⟩

lemma copyFrom_eq {start : ℕ} (h : Covers (src.from i) bytes) (hstart : Starts dest pre)
    (hpre : pre.length = start + i) (hlen : pre.length + bytes.length ≤ ramdiskPathSize) :
    ∃ dest', copyFrom src start bytes.length i dest = some dest' ∧ Starts dest' (pre ++ bytes) := by
  induction bytes generalizing i dest pre with
  | nil => exact ⟨dest, rfl, by rwa [List.append_nil]⟩
  | cons c bytes ih =>
    obtain ⟨hc, hrest⟩ := covers_cons.mp h
    have hc : src i = some c := hc
    rw [from_from] at hrest
    rw [List.length_cons] at hlen
    obtain ⟨dest', hcopy, hdest⟩ := ih hrest (hstart.write (v := c))
      (by rw [List.length_append, List.length_singleton]; omega)
      (by rw [List.length_append, List.length_singleton]; omega)
    refine ⟨dest', ?_, by rwa [List.append_assoc, List.singleton_append] at hdest⟩
    rw [List.length_cons, copyFrom, hc, ← hpre]
    simp only [Option.bind_eq_bind, Option.bind_some]
    rw [write_eq (by omega), Option.bind_some]
    exact hcopy

/-- `copy_bytes` behind the characters that are in the buffer already. -/
lemma copyBytes_spec (h : Covers src s) (hstart : Starts dest pre) (hs : 0 ∉ s) (hpre : 0 ∉ pre)
    (hlen : pre.length < ramdiskPathSize) :
    ∃ dest', copyBytes dest pre.length (ramdiskPathSize - pre.length) src s.length = some dest' ∧
      Holds dest' (pre ++ Xbks.copyBytes (ramdiskPathSize - pre.length) s) := by
  have hcap : ramdiskPathSize - pre.length ≠ 0 := by omega
  set copied := Xbks.copyBytes (ramdiskPathSize - pre.length) s with hcopied
  have hcount : (if s.length ≥ ramdiskPathSize - pre.length then ramdiskPathSize - pre.length - 1
      else s.length) = copied.length := by
    rw [hcopied, Xbks.copyBytes, List.length_take]
    split_ifs <;> omega
  have hfront : copied <+: s := List.take_prefix _ s
  have hbound : pre.length + copied.length < ramdiskPathSize := by
    have : copied.length ≤ ramdiskPathSize - pre.length - 1 := length_copyBytes_le _ s
    omega
  obtain ⟨dest₁, hcopy, hdest₁⟩ := copyFrom_eq (i := 0) (by simpa using h.of_prefix hfront) hstart
    (Nat.add_zero _).symm (by omega)
  have hnonzero : 0 ∉ pre ++ copied := by
    rw [List.mem_append, not_or]
    exact ⟨hpre, fun h => hs (hfront.subset h)⟩
  obtain ⟨dest₂, hwrite, hterminated, hholds⟩ := hdest₁.finish hnonzero
    (by rw [List.length_append]; exact hbound)
  refine ⟨dest₂, ?_, hholds⟩
  rw [copyBytes, if_neg hcap, hcount]
  simp only [hcopy, Option.bind_eq_bind, Option.bind_some]
  rw [← List.length_append, hwrite, Option.bind_some, hterminated]

/-- `copy_bytes` from the start of a buffer. -/
lemma copyBytes_zero_spec (h : Covers src s) (hs : 0 ∉ s) (dest : Buffer) :
    ∃ dest', copyBytes dest 0 ramdiskPathSize src s.length = some dest' ∧
      Holds dest' (Xbks.copyBytes ramdiskPathSize s) := by
  have hnil : Starts dest [] := covers_nil
  exact copyBytes_spec h hnil hs List.not_mem_nil (by decide)

/-! ### Normalising -/

lemma skipSlashes_eq (h : Spells (path.from i) s) (hfuel : s.length < fuel) :
    ∃ j, skipSlashes path fuel i = some j ∧ Spells (path.from j) (s.dropWhile (· = slash)) := by
  induction s generalizing i fuel with
  | nil =>
    cases fuel with
    | zero => cases hfuel
    | succ fuel =>
      have h0 : path i = some 0 := spells_nil.mp h
      refine ⟨i, ?_, h⟩
      simp [skipSlashes, h0, show (0 : UInt8) ≠ slash by decide]
  | cons c s ih =>
    cases fuel with
    | zero => cases hfuel
    | succ fuel =>
      obtain ⟨hc, -, hrest⟩ := spells_cons.mp h
      have hc : path i = some c := hc
      rw [from_from] at hrest
      rw [List.length_cons] at hfuel
      by_cases hslash : c = slash
      · obtain ⟨j, hj, hspells⟩ := ih hrest (show s.length < fuel by omega)
        refine ⟨j, ?_, ?_⟩
        · simpa [skipSlashes, hc, hslash] using hj
        · rwa [List.dropWhile_cons_of_pos (by simpa using hslash)]
      · refine ⟨i, ?_, ?_⟩
        · simp [skipSlashes, hc, hslash]
        · rwa [List.dropWhile_cons_of_neg (by simpa using hslash)]

lemma skipLeading_dropWhile (s : CString) : skipLeading (s.dropWhile (· = slash)) = skipLeading s := by
  induction s with
  | nil => rfl
  | cons c s ih =>
    by_cases hslash : c = slash
    · rw [List.dropWhile_cons_of_pos (by simpa using hslash), ih, skipLeading_cons, if_pos hslash]
    · rw [List.dropWhile_cons_of_neg (by simpa using hslash)]

lemma head?_dropWhile_slash (s : CString) : (s.dropWhile (· = slash)).head? ≠ some slash := by
  induction s with
  | nil => simp
  | cons c s ih =>
    by_cases hslash : c = slash
    · rwa [List.dropWhile_cons_of_pos (by simpa using hslash)]
    · rw [List.dropWhile_cons_of_neg (by simpa using hslash), List.head?_cons]
      exact fun h => hslash (Option.some.inj h)

/-- The loop over `.` components, started where there is no slash. -/
lemma skipDots_eq (h : Spells (path.from i) s) (hhead : s.head? ≠ some slash) (hfuel : s.length < fuel) :
    ∃ j, skipDots path fuel i = some j ∧ Spells (path.from j) (skipLeading s) := by
  induction fuel generalizing i s with
  | zero => cases hfuel
  | succ fuel ih =>
    cases s with
    | nil =>
      have h0 : path i = some 0 := spells_nil.mp h
      refine ⟨i, ?_, h⟩
      simp [skipDots, h0, show (0 : UInt8) ≠ dot by decide]
    | cons c s =>
      obtain ⟨hc, -, hrest⟩ := spells_cons.mp h
      have hc : path i = some c := hc
      rw [from_from] at hrest
      rw [List.length_cons] at hfuel
      have hslash : c ≠ slash := fun h => hhead (by rw [h]; rfl)
      -- the byte behind the dot
      obtain ⟨next, hnext, hiff⟩ : ∃ next, path (i + 1) = some next ∧
          (next = slash ∨ next = 0 ↔ s.head? = some slash ∨ s = []) := by
        cases s with
        | nil => exact ⟨0, spells_nil.mp hrest, by simp⟩
        | cons d s =>
          obtain ⟨hd, hne, -⟩ := spells_cons.mp hrest
          exact ⟨d, hd, by simp [hne]⟩
      rw [skipLeading_cons, if_neg hslash]
      by_cases hdot : c = dot ∧ (s.head? = some slash ∨ s = [])
      · obtain ⟨k, hk, hspells⟩ := skipSlashes_eq hrest (show s.length < fuel + 1 by omega)
        have hlen := (List.dropWhile_suffix (l := s) fun b => decide (b = slash)).length_le
        obtain ⟨j, hj, hspells⟩ := ih hspells (head?_dropWhile_slash s) (by omega)
        refine ⟨j, ?_, ?_⟩
        · simp only [skipDots, hc, hnext, Option.bind_eq_bind, Option.bind_some, if_pos hdot.1,
            if_pos (hiff.mpr hdot.2), hk]
          exact hj
        · rwa [if_pos hdot, ← skipLeading_dropWhile]
      · rw [if_neg hdot]
        refine ⟨i, ?_, h⟩
        by_cases hc' : c = dot
        · have hstop : ¬(next = slash ∨ next = 0) := fun h => hdot ⟨hc', hiff.mp h⟩
          simp only [skipDots, hc, hnext, Option.bind_eq_bind, Option.bind_some, if_pos hc', if_neg hstop]
        · simp only [skipDots, hc, Option.bind_eq_bind, Option.bind_some, if_neg hc']

lemma copyPath_eq (room : ℕ) (h : Spells (path.from i) s) (hstart : Starts out pre)
    (hlen : pre.length + room ≤ ramdiskPathSize) :
    ∃ out', copyPath path room i pre.length out = some ((pre ++ s.take room).length, out') ∧
      Starts out' (pre ++ s.take room) := by
  induction room generalizing i s pre out with
  | zero =>
    obtain ⟨c, hc⟩ : ∃ c, path i = some c := by
      cases s with
      | nil => exact ⟨0, spells_nil.mp h⟩
      | cons c s => exact ⟨c, (spells_cons.mp h).1⟩
    refine ⟨out, ?_, ?_⟩
    · simp [copyPath, hc]
    · simpa using hstart
  | succ room ih =>
    cases s with
    | nil =>
      have h0 : path i = some 0 := spells_nil.mp h
      refine ⟨out, ?_, ?_⟩
      · simp [copyPath, h0]
      · simpa using hstart
    | cons c s =>
      obtain ⟨hc, hne, hrest⟩ := spells_cons.mp h
      have hc : path i = some c := hc
      rw [from_from] at hrest
      obtain ⟨out', hout, hstart'⟩ := ih hrest (hstart.write (v := c))
        (by rw [List.length_append, List.length_singleton]; omega)
      rw [List.append_assoc, List.singleton_append] at hout hstart'
      refine ⟨out', ?_, hstart'⟩
      simp only [copyPath, hc, Option.bind_eq_bind, Option.bind_some, if_neg hne]
      rw [write_eq (by omega), Option.bind_some]
      rw [List.length_append, List.length_singleton] at hout
      exact hout

lemma trimSlashes_eq (h : Starts out t) (hlen : t.length ≤ ramdiskPathSize) :
    trimSlashes out t.length = some (t.rdropWhile (· = slash)).length := by
  induction t using List.reverseRecOn with
  | nil => rfl
  | append_singleton t c ih =>
    have hc : out t.length = c := by
      have := h t.length (by simp)
      simpa using this
    rw [List.length_append, List.length_singleton] at hlen ⊢
    have hread : out.read t.length = some c := by
      rw [Buffer.read, if_pos (by omega), hc]
    by_cases hslash : c = slash
    · rw [List.rdropWhile_concat_pos _ _ _ (by simpa using hslash)]
      simp only [trimSlashes, hread, Option.bind_eq_bind, Option.bind_some, if_pos hslash]
      exact ih (h.of_prefix (List.prefix_append t [c])) (by omega)
    · rw [List.rdropWhile_concat_neg _ _ _ (by simpa using hslash)]
      simp [trimSlashes, hread, hslash]

lemma mem_of_mem_skipLeading {c : UInt8} (h : c ∈ skipLeading s) : c ∈ s := by
  induction s with
  | nil => exact h
  | cons d s ih =>
    rw [skipLeading_cons] at h
    split_ifs at h
    · exact List.mem_cons_of_mem d (ih h)
    · exact List.mem_cons_of_mem d (ih h)
    · exact h

/-- `normalize_path` leaves the normalised path in the buffer. -/
theorem normalizePath_spec (h : Spells path s) (hfuel : s.length < fuel) (out : Buffer) :
    ∃ out', normalizePath fuel path out = some out' ∧
      Holds out' (Xbks.normalizePath s ramdiskPathSize) := by
  obtain ⟨i, hi, hspells₁⟩ := skipSlashes_eq (i := 0) (by simpa using h) hfuel
  have hlen := (List.dropWhile_suffix (l := s) fun b => decide (b = slash)).length_le
  obtain ⟨j, hj, hspells₂⟩ := skipDots_eq hspells₁ (head?_dropWhile_slash s) (hlen.trans_lt hfuel)
  rw [skipLeading_dropWhile] at hspells₂
  have hnil : Starts out [] := covers_nil
  obtain ⟨out₁, hcopy, hstart⟩ := copyPath_eq (ramdiskPathSize - 1) hspells₂ hnil (by decide)
  rw [List.nil_append] at hcopy hstart
  have htake : ((skipLeading s).take (ramdiskPathSize - 1)).length ≤ ramdiskPathSize - 1 :=
    List.length_take_le _ _
  have htrim := trimSlashes_eq hstart (htake.trans (by decide))
  have hfront := List.rdropWhile_prefix (fun b => decide (b = slash))
    ((skipLeading s).take (ramdiskPathSize - 1))
  have hnonzero : 0 ∉ ((skipLeading s).take (ramdiskPathSize - 1)).rdropWhile (· = slash) := fun h0 =>
    h.nonzero (mem_of_mem_skipLeading (List.mem_of_mem_take (hfront.subset h0)))
  obtain ⟨out₂, hwrite, hterminated, hholds⟩ := Starts.finish (hstart.of_prefix hfront) hnonzero
    (lt_of_le_of_lt (hfront.length_le.trans htake) (by decide))
  refine ⟨out₂, ?_, hholds⟩
  rw [List.length_nil] at hcopy
  simp only [normalizePath, hi, hj, hcopy, htrim, hwrite, hterminated, Option.bind_eq_bind,
    Option.bind_some]

lemma holds_head (h : Holds b s) : ∃ c, b.read 0 = some c ∧ (c = 0 ↔ s = []) := by
  cases s with
  | nil => exact ⟨0, spells_nil.mp h, by simp⟩
  | cons c s =>
    obtain ⟨hc, hne, -⟩ := spells_cons.mp h
    exact ⟨c, hc, by simp [hne]⟩

theorem makePublicPath_spec (h : Holds b s) (out : Buffer) :
    ∃ out', makePublicPath b out = some out' ∧ Holds out' (Xbks.makePublicPath s ramdiskPathSize) := by
  obtain ⟨c, hc, hzero⟩ := holds_head h
  rw [Xbks.makePublicPath]
  by_cases hs : s = []
  · have hslash : Spells (textOf [slash]) [slash] := spells_textOf (by decide)
    obtain ⟨out', hcopy, hholds⟩ := copyBytes_zero_spec hslash.chars hslash.nonzero out
    refine ⟨out', ?_, by rwa [if_pos hs]⟩
    simp only [makePublicPath, hc, Option.bind_eq_bind, Option.bind_some, if_pos (hzero.mpr hs)]
    exact hcopy
  · have hnil : Starts out [] := covers_nil
    have hstart : Starts (Function.update out 0 slash) [slash] := hnil.write
    obtain ⟨out', hcopy, hholds⟩ := copyBytes_spec h.chars hstart h.nonzero (by decide) (by decide)
    refine ⟨out', ?_, by rwa [if_neg hs]⟩
    simp only [makePublicPath, hc, Option.bind_eq_bind, Option.bind_some, if_neg fun h => hs (hzero.mp h),
      strlen_eq h]
    rw [write_eq (by decide), Option.bind_some]
    exact hcopy

/-! ### Tar headers -/

variable {kmem : KernelMemory} {rd : Ramdisk} {offset : UInt64}

/-- The bytes of a header that is inside the archive. -/
lemma archiveFrom_covers (kmem : KernelMemory) (hblock : offset.toNat + 512 ≤ rd.ramdiskSize.toNat)
    (field : UInt64) {n : ℕ} (hn : field.toNat + n ≤ 512) :
    Covers ((archiveFrom kmem rd offset).from field.toNat)
      (bytesAt kmem (rd.ramdiskData + offset + field) n) := by
  intro i hi
  rw [bytesAt, List.length_map, List.length_range] at hi
  have hsize := rd.ramdiskSize.toNat_lt
  have hpos : (offset + UInt64.ofNat (field.toNat + i)).toNat = offset.toNat + (field.toNat + i) := by
    rw [Word.toNat_add_of_lt, Word.toNat_ofNat_of_lt (by omega)]
    rw [Word.toNat_ofNat_of_lt (by omega)]
    omega
  have hlt : offset + UInt64.ofNat (field.toNat + i) < rd.ramdiskSize := by
    rw [UInt64.lt_iff_toNat_lt, hpos]
    omega
  have hsum : rd.ramdiskData + (offset + UInt64.ofNat (field.toNat + i)) =
      rd.ramdiskData + offset + field + UInt64.ofNat i := by
    rw [UInt64.ofNat_add, UInt64.ofNat_toNat]
    ac_rfl
  simp only [from_apply, archiveFrom, if_pos hlt, hsum, bytesAt]
  rw [List.getElem?_map, List.getElem?_range hi, Option.map_some]

/-- A bounded string and its length. -/
lemma boundedString_covers {address : UInt64} {n : ℕ} (h : Covers text (bytesAt kmem address n)) :
    Covers text (boundedString kmem address n) ∧ 0 ∉ boundedString kmem address n ∧
      boundedStrlen text n = some (boundedString kmem address n).length := by
  refine ⟨h.of_prefix (List.takeWhile_prefix _), fun h0 => ?_, ?_⟩
  · simpa using List.mem_takeWhile_imp h0
  · have := boundedStrlen_eq h
    rwa [length_bytesAt] at this

lemma tarPrefix_spec {header : Source} (h : Covers (header.from 345) s) (hs : 0 ∉ s) (combined : Buffer) :
    ∃ combined', tarPrefix header combined s.length = some (combined', (combinedPrefix s).length) ∧
      Starts combined' (combinedPrefix s) ∧ 0 ∉ combinedPrefix s ∧
      (combinedPrefix s).length < ramdiskPathSize := by
  by_cases hnil : s = []
  · refine ⟨Function.update combined 0 0, ?_, ?_⟩
    · simp [tarPrefix, hnil, combinedPrefix, Buffer.write]
    · simp [hnil, combinedPrefix, covers_nil]
  · have hne : s.length ≠ 0 := fun h => hnil (List.length_eq_zero_iff.mp h)
    obtain ⟨c₁, hcopy, hholds⟩ := copyBytes_zero_spec h hs combined
    have hstart : Starts c₁ (Xbks.copyBytes ramdiskPathSize s) :=
      hholds.starts.of_prefix (List.prefix_append _ _)
    have hlt := hholds.length_lt
    have hnonzero := hholds.nonzero
    simp only [tarPrefix, if_pos hne, hcopy, strlen_eq hholds, Option.bind_eq_bind, Option.bind_some,
      combinedPrefix, if_pos hnil, ne_eq]
    generalize Xbks.copyBytes ramdiskPathSize s = start at *
    by_cases hroom : start.length + 1 < ramdiskPathSize
    · have hwrite := hstart.write (v := slash)
      have hwrite' := hwrite.write (v := 0)
      rw [List.length_append, List.length_singleton] at hwrite'
      simp only [if_pos hroom, write_eq hlt, write_eq hroom, Option.bind_some]
      refine ⟨_, ?_, Covers.of_prefix hwrite' (List.prefix_append _ _), ?_, ?_⟩
      · rw [List.length_append, List.length_singleton]
      · rw [List.mem_append, not_or]
        exact ⟨hnonzero, by decide⟩
      · rw [List.length_append, List.length_singleton]
        exact hroom
    · simp only [if_neg hroom]
      exact ⟨c₁, rfl, hstart, hnonzero, hlt⟩

/-- A found path is in the buffer. -/
def HoldsPath : Bool × Buffer → Option CString → Prop
  | (false, _), none => True
  | (true, b), some path => Holds b path
  | _, _ => False

lemma headerPrefix_covers (kmem : KernelMemory) (hblock : offset.toNat + 512 ≤ rd.ramdiskSize.toNat) :
    Covers ((archiveFrom kmem rd offset).from 345) (headerPrefix kmem (rd.ramdiskData + offset)) ∧
      0 ∉ headerPrefix kmem (rd.ramdiskData + offset) ∧
      boundedStrlen ((archiveFrom kmem rd offset).from 345) tarPrefixSize =
        some (headerPrefix kmem (rd.ramdiskData + offset)).length :=
  boundedString_covers (archiveFrom_covers kmem hblock 345 (by decide))

lemma headerName_covers (kmem : KernelMemory) (hblock : offset.toNat + 512 ≤ rd.ramdiskSize.toNat) :
    Covers (archiveFrom kmem rd offset) (headerName kmem (rd.ramdiskData + offset)) ∧
      0 ∉ headerName kmem (rd.ramdiskData + offset) ∧
      boundedStrlen (archiveFrom kmem rd offset) tarNameSize =
        some (headerName kmem (rd.ramdiskData + offset)).length := by
  have hbytes : Covers (archiveFrom kmem rd offset) (bytesAt kmem (rd.ramdiskData + offset) 100) := by
    have h := archiveFrom_covers kmem hblock 0 (show (0 : UInt64).toNat + 100 ≤ 512 by decide)
    rwa [add_zero, show (0 : UInt64).toNat = 0 from rfl, from_zero] at h
  exact boundedString_covers hbytes

theorem tarPath_spec (kmem : KernelMemory) (hblock : offset.toNat + 512 ≤ rd.ramdiskSize.toNat)
    (combined out : Buffer) : ∃ r, tarPath (archiveFrom kmem rd offset) combined out = some r ∧
      HoldsPath r (Xbks.tarPath kmem (rd.ramdiskData + offset)) := by
  obtain ⟨hfront, hfrontzero, hfrontlen⟩ := headerPrefix_covers kmem hblock
  obtain ⟨hname, hname0, hnamelen⟩ := headerName_covers kmem hblock
  rw [tarPath_eq]
  generalize headerPrefix kmem (rd.ramdiskData + offset) = q at *
  generalize headerName kmem (rd.ramdiskData + offset) = name at *
  simp only [tarPath, hfrontlen, hnamelen, Option.bind_eq_bind, Option.bind_some]
  by_cases hnil : name = []
  · simp [hnil, HoldsPath]
  · have hne : name.length ≠ 0 := fun h => hnil (List.length_eq_zero_iff.mp h)
    obtain ⟨c₁, hpre, hstart, hpre0, hprelen⟩ := tarPrefix_spec hfront hfrontzero combined
    obtain ⟨c₂, hcopy, hholds⟩ := copyBytes_spec hname hstart hname0 hpre0 hprelen
    obtain ⟨out', hnorm, hholds'⟩ := normalizePath_spec hholds hholds.length_lt out
    obtain ⟨c, hc, hzero⟩ := holds_head hholds'
    simp only [if_neg hne, if_neg hnil, hpre, hcopy, hnorm, hc, Option.bind_some]
    refine ⟨_, rfl, ?_⟩
    by_cases hempty : Xbks.normalizePath (combinedPath q name) ramdiskPathSize = []
    · simp [hempty, hzero.mpr hempty, HoldsPath]
    · have hcne : c ≠ 0 := fun h => hempty (hzero.mp h)
      rw [if_neg hempty, decide_eq_true hcne]
      exact hholds'

lemma headerIsDirectory_eq (hblock : offset.toNat + 512 ≤ rd.ramdiskSize.toNat) (h : Holds b s) :
    headerIsDirectory (archiveFrom kmem rd offset) b =
      some (Xbks.headerIsDirectory kmem (rd.ramdiskData + offset) s) := by
  have hflag : archiveFrom kmem rd offset 156 = some (headerTypeflag kmem (rd.ramdiskData + offset)) := by
    have := archiveFrom_covers kmem hblock 156 (show (156 : UInt64).toNat + 1 ≤ 512 by decide) 0
      (by rw [length_bytesAt]; exact Nat.zero_lt_one)
    simpa [bytesAt, headerTypeflag] using this
  rw [Xbks.headerIsDirectory]
  generalize headerTypeflag kmem (rd.ramdiskData + offset) = flag at *
  simp only [headerIsDirectory, strlen_eq h, hflag, Option.bind_eq_bind, Option.bind_some]
  by_cases hfive : flag = 53
  · simp [hfive]
  · cases s using List.reverseRecOn with
    | nil => simp [hfive]
    | append_singleton s c =>
      have hc := h.chars s.length (by simp)
      rw [List.getElem?_concat_length] at hc
      simp [hfive, hc]

lemma headerMode_eq (hblock : offset.toNat + 512 ≤ rd.ramdiskSize.toNat) :
    parseOctal ((archiveFrom kmem rd offset).from 100) 8 =
      some (Xbks.parseOctal (headerMode kmem (rd.ramdiskData + offset))) := by
  have h := parseOctal_eq (archiveFrom_covers kmem hblock 100
    (show (100 : UInt64).toNat + 8 ≤ 512 by decide))
  rwa [length_bytesAt] at h

/-- The record holds the file. -/
structure HoldsFile (f : File) (file : RamdiskFile) : Prop where
  path : Holds f.path file.path
  data : f.data = file.data
  size : f.size = file.size
  directory : f.directory = file.directory
  executable : f.executable = file.executable

lemma fillFile_spec (kmem : KernelMemory) (data size : UInt64) (hblock : offset.toNat + 512 ≤ rd.ramdiskSize.toNat)
    (h : Holds b s) (out : File) :
    ∃ f, fillFile (archiveFrom kmem rd offset) b data size out = some f ∧
      HoldsFile f (Xbks.fillFile kmem (rd.ramdiskData + offset) s data size) := by
  obtain ⟨path, hpath, hholds⟩ := makePublicPath_spec h out.path
  refine ⟨⟨path, data, size, Xbks.headerIsDirectory kmem (rd.ramdiskData + offset) s,
    decide (Xbks.parseOctal (headerMode kmem (rd.ramdiskData + offset)) &&& 0o111 ≠ 0)⟩, ?_,
    hholds, rfl, rfl, rfl, rfl⟩
  · simp only [fillFile, headerMode_eq hblock, hpath, headerIsDirectory_eq hblock h, Option.bind_eq_bind,
      Option.bind_some]

/-! ### Walks -/

lemma entryAt_eq (hsize : rd.Fits) (hoffset : offset.toNat ≤ rd.ramdiskSize.toNat + 511) :
    entryAt kmem rd offset = some ((Xbks.entryAt kmem rd offset).map Prod.snd) := by
  by_cases hblock : offset + tarBlockSize ≤ rd.ramdiskSize
  · have hblock' : offset.toNat + 512 ≤ rd.ramdiskSize.toNat := by
      rw [Ramdisk.Fits] at hsize
      rw [UInt64.le_iff_toNat_le, Word.toNat_add_of_lt] at hblock
      · exact hblock
      · rw [show tarBlockSize.toNat = 512 from rfl]
        omega
    have hzero : blockIsZero (archiveFrom kmem rd offset) =
        some (Xbks.blockIsZero kmem (rd.ramdiskData + offset)) := by
      have h := archiveFrom_covers kmem hblock' 0 (show (0 : UInt64).toNat + 512 ≤ 512 by decide)
      have h := blockIsZeroFrom_eq (i := 0) (by simpa using h)
      rwa [length_bytesAt] at h
    have hsizeField : parseOctal ((archiveFrom kmem rd offset).from 124) 12 =
        some (Xbks.parseOctal (headerSize kmem (rd.ramdiskData + offset))) := by
      have h := parseOctal_eq (archiveFrom_covers kmem hblock' 124
        (show (124 : UInt64).toNat + 12 ≤ 512 by decide))
      rwa [length_bytesAt] at h
    rw [entryAt, if_pos hblock]
    simp only [hzero, hsizeField, Option.bind_eq_bind, Option.bind_some]
    unfold Xbks.entryAt
    rw [if_pos hblock]
    cases hz : Xbks.blockIsZero kmem (rd.ramdiskData + offset) with
    | true =>
      rw [if_pos hz, if_pos rfl]
      rfl
    | false =>
      have hnot : ¬Xbks.blockIsZero kmem (rd.ramdiskData + offset) = true := by
        rw [hz]
        exact Bool.false_ne_true
      rw [if_neg hnot, if_neg Bool.false_ne_true]
      by_cases hdata : offset + tarBlockSize > rd.ramdiskSize ∨
          Xbks.parseOctal (headerSize kmem (rd.ramdiskData + offset)) >
            rd.ramdiskSize - (offset + tarBlockSize)
      · rw [if_pos hdata, if_pos hdata]
        rfl
      · rw [if_neg hdata, if_neg hdata]
        rfl
  · rw [entryAt, if_neg hblock]
    unfold Xbks.entryAt
    rw [if_neg hblock]
    rfl

lemma isBelow_eq {b' : Buffer} (hl : Holds b s) (hr : Holds b' t) :
    isBelow b b' = some (decide (t ≠ []) && (t ++ [slash]).isPrefixOf s) := by
  rw [isBelow, strlen_eq hr]
  simp only [Option.bind_eq_bind, Option.bind_some]
  by_cases hnil : t = []
  · simp [hnil]
  · have hne : t.length ≠ 0 := fun h => hnil (List.length_eq_zero_iff.mp h)
    rw [if_pos hne, decide_eq_true hnil, Bool.true_and]
    exact startsBelow_eq hl hr

/-- The answers of the two versions of `find_header`. -/
inductive HoldsFound : File ⊕ Bool → RamdiskFile ⊕ Bool → Prop
  | file {f : File} {file : RamdiskFile} (h : HoldsFile f file) : HoldsFound (.inl f) (.inl file)
  | directory (below : Bool) : HoldsFound (.inr below) (.inr below)

/-- There is fuel left for the rounds that a walk can still make. -/
structure Enough (rd : Ramdisk) (fuel : ℕ) (offset : UInt64) : Prop where
  bound : offset.toNat ≤ rd.ramdiskSize.toNat + 511
  pos : 0 < fuel
  blocks : rd.ramdiskSize.toNat < offset.toNat + 512 * fuel

lemma enough_start : Enough rd (walkLimit rd) 0 := by
  refine ⟨Nat.zero_le _, Nat.succ_pos _, ?_⟩
  rw [walkLimit, UInt64.toNat_zero]
  omega

/-- At an entry one round is done and the walk goes on at the next entry. -/
lemma Enough.next {header dataOffset fileSize : UInt64} (hsize : rd.Fits) (h : Enough rd (fuel + 1) offset)
    (hentry : Xbks.entryAt kmem rd offset = some (header, dataOffset, fileSize)) :
    header = rd.ramdiskData + offset ∧ offset.toNat + 512 ≤ rd.ramdiskSize.toNat ∧
      Enough rd fuel (dataOffset + alignToTarBlock fileSize) := by
  have hin := TarEntry.Inside.of_entryAt hsize h.bound hentry
  obtain ⟨hstep, hnext⟩ := hin.next_le
  have hblock := hin.block
  have hblocks := h.blocks
  dsimp only [TarEntry.next] at hstep hnext hblock
  exact ⟨hin.header, hblock, hnext, by omega, by omega⟩

theorem findHeaderFrom_spec (kmem : KernelMemory) (hsize : rd.Fits) (h : Holds b s) (junk : Buffer) (out : File)
    (hfuel : Enough rd fuel offset) (before : Bool) :
    ∃ r, findHeaderFrom kmem rd junk b out fuel offset before = some r ∧
      HoldsFound r (Xbks.findHeaderFrom kmem rd s fuel offset before) := by
  induction fuel generalizing offset before with
  | zero => exact absurd hfuel.pos (Nat.lt_irrefl 0)
  | succ fuel ih =>
    rw [findHeaderFrom, entryAt_eq hsize hfuel.bound, Xbks.findHeaderFrom]
    cases hentry : Xbks.entryAt kmem rd offset with
    | none => exact ⟨_, rfl, .directory before⟩
    | some entry =>
      obtain ⟨header, dataOffset, fileSize⟩ := entry
      obtain ⟨rfl, hblock, hnext⟩ := hfuel.next hsize hentry
      obtain ⟨⟨found, path⟩, htar, hpath⟩ := tarPath_spec kmem hblock junk junk
      simp only [Option.map_some, Option.bind_eq_bind, Option.bind_some, htar]
      cases hlist : Xbks.tarPath kmem (rd.ramdiskData + offset) with
      | none =>
        rw [hlist] at hpath
        cases found with
        | true => exact absurd hpath id
        | false => exact ih hnext before
      | some p =>
        rw [hlist] at hpath
        cases found with
        | false => exact absurd hpath id
        | true =>
          have hpath : Holds path p := hpath
          simp only [if_true, strcmp_eq hpath h, Option.bind_some]
          by_cases heq : p = s
          · obtain ⟨f, hfill, hholds⟩ := fillFile_spec kmem (rd.ramdiskData + dataOffset) fileSize
              hblock hpath out
            simp only [heq, decide_true, if_true, hfill, Option.bind_some]
            exact ⟨_, rfl, .file (heq ▸ hholds)⟩
          · simp only [heq, decide_false, Bool.false_eq_true, if_false, isBelow_eq hpath h, Option.bind_some]
            exact ih hnext _

/-! ### Children -/

lemma componentLength_eq (h : Spells (text.from i) s) (hfuel : s.length < fuel) :
    componentLength text fuel i = some (i + (s.takeWhile (· ≠ slash)).length) := by
  induction s generalizing i fuel with
  | nil =>
    cases fuel with
    | zero => cases hfuel
    | succ fuel =>
      have h0 : text i = some 0 := spells_nil.mp h
      simp [componentLength, h0]
  | cons c s ih =>
    cases fuel with
    | zero => cases hfuel
    | succ fuel =>
      obtain ⟨hc, hne, hrest⟩ := spells_cons.mp h
      have hc : text i = some c := hc
      rw [from_from] at hrest
      rw [List.length_cons] at hfuel
      by_cases hslash : c = slash
      · simp [componentLength, hc, hslash]
      · rw [List.takeWhile_cons_of_pos (by simpa using hslash), List.length_cons]
        simp only [componentLength, hc, Option.bind_eq_bind, Option.bind_some, ne_eq, hne, hslash,
          not_false_iff, and_self, if_true]
        rw [ih hrest (by omega), Nat.add_assoc, Nat.add_comm 1]

/-- The byte at an index of a string, or the NUL behind it. -/
lemma Spells.slash_at (h : Spells text s) (hi : i ≤ s.length) :
    ∃ c, text i = some c ∧ (c = slash ↔ s[i]? = some slash) := by
  have hread := h.covers i (by rw [List.length_append, List.length_singleton]; omega)
  rcases Nat.lt_or_eq_of_le hi with hlt | rfl
  · rw [List.getElem?_append_left hlt, List.getElem?_eq_getElem hlt] at hread
    exact ⟨s[i], hread, by rw [List.getElem?_eq_getElem hlt, Option.some.injEq]⟩
  · rw [List.getElem?_concat_length] at hread
    exact ⟨0, hread, by simp [show (0 : UInt8) ≠ slash by decide]⟩

/-- The answers of the two versions of `child_name_for_directory`. -/
inductive HoldsChild : Option (Buffer × Bool) → Option (CString × Bool) → Prop
  | none : HoldsChild none none
  | some {b : Buffer} {s : CString} (nested : Bool) (h : Holds b s) :
      HoldsChild (some (b, nested)) (some (s, nested))

/-- The child in the part of the path that is relative to the directory. -/
lemma relativeChild_spec (h : Spells text s) (hlen : s.length < ramdiskPathSize) (childName : Buffer) :
    ∃ r, relativeChild text childName = some r ∧
      HoldsChild r (if s.takeWhile (· ≠ slash) = [] then none
        else some (Xbks.copyBytes ramdiskPathSize (s.takeWhile (· ≠ slash)),
          decide (s[(s.takeWhile (· ≠ slash)).length]? = some slash))) := by
  have hcomp := componentLength_eq (i := 0) (by simpa using h) hlen
  rw [Nat.zero_add] at hcomp
  have hfront : s.takeWhile (· ≠ slash) <+: s := List.takeWhile_prefix _
  have hcovers := h.chars.of_prefix hfront
  have hnonzero : 0 ∉ s.takeWhile (· ≠ slash) := fun h0 => h.nonzero (hfront.subset h0)
  obtain ⟨c, hc, hslash⟩ := h.slash_at hfront.length_le
  cases s with
  | nil =>
    have h0 : text 0 = some 0 := spells_nil.mp h
    exact ⟨none, by simp [relativeChild, h0], by simpa using HoldsChild.none⟩
  | cons a s =>
    obtain ⟨ha, hne, -⟩ := spells_cons.mp h
    generalize (a :: s).takeWhile (· ≠ slash) = child at *
    simp only [relativeChild, ha, hne, if_false, hcomp, Option.bind_eq_bind, Option.bind_some]
    by_cases hnil : child = []
    · rw [if_pos (by rw [hnil]; rfl), if_pos hnil]
      exact ⟨none, rfl, .none⟩
    · have hlen : child.length ≠ 0 := fun h => hnil (List.length_eq_zero_iff.mp h)
      obtain ⟨b', hcopy, hholds⟩ := copyBytes_zero_spec hcovers hnonzero childName
      rw [if_neg hlen, if_neg hnil]
      simp only [hcopy, hc, Option.bind_some]
      refine ⟨_, rfl, ?_⟩
      rw [decide_eq_decide.mpr hslash]
      exact .some _ hholds

theorem childNameForDirectory_spec {b' : Buffer} (h : Holds b s) (hd : Holds b' t) (childName : Buffer) :
    ∃ r, childNameForDirectory b b' childName = some r ∧
      HoldsChild r (Xbks.childNameForDirectory s t) := by
  have hlt := h.length_lt
  rw [childNameForDirectory, Xbks.childNameForDirectory, strlen_eq hd]
  simp only [Option.bind_eq_bind, Option.bind_some]
  by_cases hnil : t = []
  · have hlen : ¬t.length ≠ 0 := by simp [hnil]
    simp only [if_neg hlen, if_pos hnil]
    exact relativeChild_spec h hlt childName
  · have hlen : t.length ≠ 0 := fun h => hnil (List.length_eq_zero_iff.mp h)
    simp only [if_pos hlen, if_neg hnil, startsBelow_eq h hd, Option.bind_some]
    by_cases hpre : t ++ [slash] <+: s
    · have hpre' := List.isPrefixOf_iff_prefix.mpr hpre
      obtain ⟨rest, rfl⟩ := hpre
      have hrel := h.drop
      rw [List.length_append] at hlt
      have hlength : (t ++ [slash]).length = t.length + 1 := by simp
      rw [hlength] at hrel
      have hdrop : (t ++ [slash] ++ rest).drop (t.length + 1) = rest := by
        rw [← hlength, List.drop_left]
      simp only [hpre', if_true, hdrop]
      exact relativeChild_spec hrel (by omega) childName
    · have hpre' : ¬(t ++ [slash]).isPrefixOf s = true := fun h =>
        hpre (List.isPrefixOf_iff_prefix.mp h)
      simp only [if_neg hpre']
      exact ⟨none, rfl, .none⟩

/-- The path of an entry and its child, as two strings. -/
inductive HoldsEntry : Option (Buffer × Buffer × Bool) → Option (CString × CString × Bool) → Prop
  | none : HoldsEntry none none
  | some {b b' : Buffer} {s t : CString} (nested : Bool) (h : Holds b s) (h' : Holds b' t) :
      HoldsEntry (some (b, b', nested)) (some (s, t, nested))

theorem entryChild_spec (kmem : KernelMemory) (hblock : offset.toNat + 512 ≤ rd.ramdiskSize.toNat)
    (h : Holds b t) (junk : Buffer) : ∃ r, entryChild kmem rd junk b offset = some r ∧
      HoldsEntry r ((Xbks.tarPath kmem (rd.ramdiskData + offset)).bind fun path =>
        (Xbks.childNameForDirectory path t).map fun child => (path, child.1, child.2)) := by
  obtain ⟨⟨found, path⟩, htar, hpath⟩ := tarPath_spec kmem hblock junk junk
  simp only [entryChild, htar, Option.bind_eq_bind, Option.bind_some]
  cases hlist : Xbks.tarPath kmem (rd.ramdiskData + offset) with
  | none =>
    rw [hlist] at hpath
    cases found with
    | true => exact absurd hpath id
    | false => exact ⟨none, rfl, .none⟩
  | some p =>
    rw [hlist] at hpath
    cases found with
    | false => exact absurd hpath id
    | true =>
      have hpath : Holds path p := hpath
      obtain ⟨r, hr, hchild⟩ := childNameForDirectory_spec hpath h junk
      simp only [if_true, hr, Option.bind_some]
      generalize Xbks.childNameForDirectory p t = child at *
      refine ⟨_, rfl, ?_⟩
      cases hchild with
      | none => exact .none
      | some nested hholds => exact .some nested hpath hholds

theorem childSeenBeforeFrom_spec {b' : Buffer} {current : UInt64} (hsize : rd.Fits) (h : Holds b t)
    (hc : Holds b' s) (junk : Buffer) (hfuel : Enough rd fuel offset) :
    childSeenBeforeFrom kmem rd junk b b' current fuel offset =
      some (Xbks.childSeenBeforeFrom kmem rd t s current fuel offset) := by
  induction fuel generalizing offset with
  | zero => exact absurd hfuel.pos (Nat.lt_irrefl 0)
  | succ fuel ih =>
    rw [childSeenBeforeFrom, Xbks.childSeenBeforeFrom]
    by_cases hlt : offset < current
    · rw [if_pos hlt, if_pos hlt, entryAt_eq hsize hfuel.bound]
      cases hentry : Xbks.entryAt kmem rd offset with
      | none => rfl
      | some entry =>
        obtain ⟨header, dataOffset, fileSize⟩ := entry
        obtain ⟨rfl, hblock, hnext⟩ := hfuel.next hsize hentry
        obtain ⟨r, hr, hchild⟩ := entryChild_spec kmem hblock h junk
        simp only [Option.map_some, Option.bind_eq_bind, Option.bind_some, hr]
        cases hpath : Xbks.tarPath kmem (rd.ramdiskData + offset) with
        | none =>
          rw [hpath, Option.bind_none] at hchild
          cases hchild
          exact ih hnext
        | some p =>
          rw [hpath, Option.bind_some] at hchild
          simp only [Option.bind_some]
          cases hname : Xbks.childNameForDirectory p t with
          | none =>
            rw [hname] at hchild
            cases hchild
            exact ih hnext
          | some child =>
            rw [hname] at hchild
            cases hchild with
            | some nested hentryPath hholds =>
              simp only [strcmp_eq hholds hc, Option.bind_some]
              by_cases heq : child.1 = s
              · simp [heq]
              · simp only [heq, decide_false, Bool.false_eq_true, if_false]
                exact ih hnext
    · rw [if_neg hlt, if_neg hlt]

/-! ### The record of a child -/

/-- Put a slash behind a string when there is room. -/
lemma appendSlash_spec (h : Holds b s) : ∃ b', appendSlash b = some b' ∧
    Holds b' (if s.length + 1 < ramdiskPathSize then s ++ [slash] else s) := by
  have hlt := h.length_lt
  simp only [appendSlash, strlen_eq h, Option.bind_eq_bind, Option.bind_some]
  by_cases hroom : s.length + 1 < ramdiskPathSize
  · have hstart : Starts b s := h.starts.of_prefix (List.prefix_append _ _)
    have hwrite := (hstart.write (v := slash)).write (v := 0)
    rw [List.length_append, List.length_singleton] at hwrite
    simp only [if_pos hroom, write_eq hlt, write_eq hroom, Option.bind_some]
    refine ⟨_, rfl, Starts.holds hwrite ?_ ?_⟩
    · rw [List.mem_append, not_or]
      exact ⟨h.nonzero, by decide⟩
    · rw [List.length_append, List.length_singleton]
      exact hroom
  · simp only [if_neg hroom]
    exact ⟨b, rfl, h⟩

lemma childPath_spec {b' : Buffer} (h : Holds b s) (h' : Holds b' t) (junk : Buffer) :
    ∃ path, childPath junk b b' = some path ∧ Holds path (Xbks.childPath s t) := by
  obtain ⟨c, hc, hzero⟩ := holds_head h
  simp only [childPath, hc, Option.bind_eq_bind, Option.bind_some, Xbks.childPath]
  by_cases hnil : s = []
  · obtain ⟨path, hcopy, hholds⟩ := copyBytes_zero_spec h'.chars h'.nonzero junk
    simp only [if_pos (hzero.mpr hnil), if_pos hnil, strlen_eq h', Option.bind_some]
    exact ⟨path, hcopy, hholds⟩
  · obtain ⟨p₁, hcopy, hholds⟩ := copyBytes_zero_spec h.chars h.nonzero junk
    obtain ⟨p₂, happend, hholds₂⟩ := appendSlash_spec hholds
    have hstart := hholds₂.starts.of_prefix (List.prefix_append _ _)
    obtain ⟨p₃, hcopy₃, hholds₃⟩ := copyBytes_spec h'.chars hstart h'.nonzero hholds₂.nonzero
      hholds₂.length_lt
    simp only [if_neg fun h => hnil (hzero.mp h), if_neg hnil, strlen_eq h, strlen_eq h', hcopy, happend,
      strlen_eq hholds₂, Option.bind_some]
    exact ⟨p₃, hcopy₃, hholds₃⟩

lemma childFlags_eq (hblock : offset.toNat + 512 ≤ rd.ramdiskSize.toNat) (h : Holds b s) (nested : Bool) :
    childFlags (archiveFrom kmem rd offset) b nested =
      some (nested || Xbks.headerIsDirectory kmem (rd.ramdiskData + offset) s,
        !(nested || Xbks.headerIsDirectory kmem (rd.ramdiskData + offset) s) &&
          decide (Xbks.parseOctal (headerMode kmem (rd.ramdiskData + offset)) &&& 0o111 ≠ 0)) := by
  cases nested with
  | true => rfl
  | false =>
    simp only [childFlags, Bool.false_eq_true, if_false, headerIsDirectory_eq hblock h,
      headerMode_eq hblock, Option.bind_eq_bind, Option.bind_some, Bool.false_or]
    cases Xbks.headerIsDirectory kmem (rd.ramdiskData + offset) s <;> rfl

/-- The answers of the two versions of the interface. -/
inductive HoldsAnswer : Option File → Option RamdiskFile → Prop
  | none : HoldsAnswer none none
  | some {f : File} {file : RamdiskFile} (h : HoldsFile f file) : HoldsAnswer (some f) (some file)

theorem readDirFrom_spec {index current : UInt64} (hsize : rd.Fits) (h : Holds b s) (junk : Buffer)
    (out : File) (hfuel : Enough rd fuel offset) :
    ∃ r, readDirFrom kmem rd junk b index out fuel offset current = some r ∧
      HoldsAnswer r (Xbks.readDirFrom kmem rd s index fuel offset current) := by
  induction fuel generalizing offset current with
  | zero => exact absurd hfuel.pos (Nat.lt_irrefl 0)
  | succ fuel ih =>
    rw [readDirFrom, entryAt_eq hsize hfuel.bound, Xbks.readDirFrom]
    cases hentry : Xbks.entryAt kmem rd offset with
    | none => exact ⟨_, rfl, .none⟩
    | some entry =>
      obtain ⟨header, dataOffset, fileSize⟩ := entry
      obtain ⟨rfl, hblock, hnext⟩ := hfuel.next hsize hentry
      obtain ⟨r, hr, hchild⟩ := entryChild_spec kmem hblock h junk
      simp only [Option.map_some, Option.bind_eq_bind, Option.bind_some, hr]
      cases hpath : Xbks.tarPath kmem (rd.ramdiskData + offset) with
      | none =>
        rw [hpath, Option.bind_none] at hchild
        cases hchild
        exact ih hnext
      | some p =>
        rw [hpath, Option.bind_some] at hchild
        cases hname : Xbks.childNameForDirectory p s with
        | none =>
          rw [hname] at hchild
          cases hchild
          simp only [hname]
          exact ih hnext
        | some child =>
          obtain ⟨name, nested⟩ := child
          rw [hname] at hchild
          cases hchild with
          | some _ hentryPath hholds =>
            have hseen : childSeenBeforeFrom kmem rd junk b _ offset (walkLimit rd) 0 =
                some (childSeenBefore kmem rd s name offset) :=
              childSeenBeforeFrom_spec hsize h hholds junk enough_start
            simp only [hname, hseen, Option.bind_some]
            by_cases hbefore : childSeenBefore kmem rd s name offset = true
            · simp only [if_pos hbefore]
              exact ih hnext
            · simp only [if_neg hbefore]
              by_cases hindex : current = index
              · obtain ⟨path₁, hpath₁, hholds₁⟩ := childPath_spec h hholds junk
                obtain ⟨path₂, hpath₂, hholds₂⟩ := makePublicPath_spec hholds₁ out.path
                simp only [if_pos hindex, hpath₁, hpath₂, childFlags_eq hblock hentryPath, Option.bind_some]
                exact ⟨_, rfl, .some ⟨hholds₂, rfl, rfl, rfl, rfl⟩⟩
              · simp only [if_neg hindex]
                exact ih hnext

/-! ### The interface -/

lemma implicitDirectory_spec (h : Holds b s) (out : File) : ∃ f, implicitDirectory b out = some f ∧
    HoldsFile f (Xbks.implicitDirectory s) := by
  obtain ⟨path, hpath, hholds⟩ := makePublicPath_spec h out.path
  simp only [implicitDirectory, hpath, Option.bind_eq_bind, Option.bind_some]
  exact ⟨_, rfl, hholds, rfl, rfl, rfl, rfl⟩

/-- `xbks_ramdisk_find` on bytes does what it does on strings. -/
theorem ramdiskFind_spec (kmem : KernelMemory) (hsize : rd.Fits) (hs : 0 ∉ s) (junk : Buffer) (out : File) :
    ∃ r, ramdiskFind kmem rd junk s out = some r ∧ HoldsAnswer r (Xbks.ramdiskFind kmem rd s) := by
  rw [ramdiskFind, Xbks.ramdiskFind]
  cases rd.ramdiskAvailable with
  | false => exact ⟨none, rfl, .none⟩
  | true =>
    obtain ⟨b, hnorm, hholds⟩ := normalizePath_spec (spells_textOf hs) (Nat.lt_succ_self _) junk
    obtain ⟨c, hc, hzero⟩ := holds_head hholds
    obtain ⟨f, himplicit, hdirectory⟩ := implicitDirectory_spec hholds out
    simp only [if_true, hnorm, hc, Option.bind_eq_bind, Option.bind_some]
    by_cases hnil : Xbks.normalizePath s ramdiskPathSize = []
    · simp only [if_pos (hzero.mpr hnil), if_pos hnil, himplicit, Option.bind_some]
      exact ⟨_, rfl, .some hdirectory⟩
    · obtain ⟨r, hr, hfound⟩ := findHeaderFrom_spec kmem hsize hholds junk out enough_start false
      simp only [if_neg fun h => hnil (hzero.mp h), if_neg hnil, hr, Option.bind_some, findHeader]
      generalize Xbks.findHeaderFrom kmem rd (Xbks.normalizePath s ramdiskPathSize) (walkLimit rd) 0 false = x at *
      cases hfound with
      | file hfile => exact ⟨_, rfl, .some hfile⟩
      | directory below =>
        cases below with
        | false => exact ⟨_, rfl, .none⟩
        | true =>
          simp only [himplicit, Option.bind_some]
          exact ⟨_, rfl, .some hdirectory⟩

theorem ramdiskReadDir_spec (kmem : KernelMemory) (hsize : rd.Fits) (hs : 0 ∉ s) (index : UInt64)
    (junk : Buffer) (out : File) :
    ∃ r, ramdiskReadDir kmem rd junk s index out = some r ∧
      HoldsAnswer r (Xbks.ramdiskReadDir kmem rd s index) := by
  rw [ramdiskReadDir, Xbks.ramdiskReadDir]
  cases rd.ramdiskAvailable with
  | false => exact ⟨none, rfl, .none⟩
  | true =>
    obtain ⟨b, hnorm, hholds⟩ := normalizePath_spec (spells_textOf hs) (Nat.lt_succ_self _) junk
    simp only [if_true, hnorm, Option.bind_eq_bind, Option.bind_some]
    exact readDirFrom_spec hsize hholds junk out enough_start

end Xbks.Bytes
