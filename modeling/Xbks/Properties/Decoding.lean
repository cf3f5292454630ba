import Xbks.Drivers.SimpleGlyph
import Xbks.Properties.Outlines

/-!
# Decoding simple glyphs

`load_simple_outline` reads every legal encoding of a simple glyph back to its points and contours.
-/

namespace Xbks

open Checked

variable {bytes : List UInt8} {font : TtfFont} {glyph : UInt16} {outline : GlyphOutline}
  {glyphData glyphSize cursor i : ℕ}

/-! ### The bytes of a glyph -/

/-- The data of the glyph goes on with a piece at the cursor. -/
structure GoesOn (bytes : List UInt8) (glyphData glyphSize cursor : ℕ) (piece : List UInt8) : Prop where
  inside : cursor + piece.length ≤ glyphSize
  starts : piece <+: bytes.drop (glyphData + cursor)

namespace GoesOn

variable {piece rest : List UInt8} {b hi lo : UInt8}

lemma append (h : GoesOn bytes glyphData glyphSize cursor (piece ++ rest)) :
    GoesOn bytes glyphData glyphSize cursor piece ∧
      GoesOn bytes glyphData glyphSize (cursor + piece.length) rest := by
  obtain ⟨hinside, tail, htail⟩ := h
  rw [List.length_append] at hinside
  constructor
  · refine ⟨by omega, rest ++ tail, ?_⟩
    rw [← List.append_assoc, htail]
  · refine ⟨by omega, tail, ?_⟩
    rw [← Nat.add_assoc, ← List.drop_drop, ← htail, List.append_assoc, List.drop_left]

lemma valid (h : GoesOn bytes glyphData glyphSize cursor piece) {length : ℕ}
    (hlength : length ≤ piece.length) : rangeIsValid glyphSize cursor length = true := by
  have hinside := h.inside
  rw [rangeIsValid_iff]
  omega

lemma byteAt_eq (h : GoesOn bytes glyphData glyphSize cursor (b :: rest)) :
    byteAt bytes (glyphData + cursor) = .ok b := by
  obtain ⟨tail, htail⟩ := h.starts
  exact (byteAt_of_drop htail.symm).1

lemma tail (h : GoesOn bytes glyphData glyphSize cursor (b :: rest)) :
    GoesOn bytes glyphData glyphSize (cursor + 1) rest := by
  have h' : GoesOn bytes glyphData glyphSize cursor ([b] ++ rest) := h
  exact h'.append.2

lemma readU16_eq (h : GoesOn bytes glyphData glyphSize cursor (hi :: lo :: rest)) :
    readU16 bytes (glyphData + cursor) = .ok (word hi lo) := by
  rw [readU16, h.byteAt_eq, ok_bind, Nat.add_assoc, h.tail.byteAt_eq, ok_bind, or_eq_word]
  rfl

lemma readU16_wordBE {n : ℕ} (hn : n < 65536)
    (h : GoesOn bytes glyphData glyphSize cursor (wordBE n ++ rest)) :
    readU16 bytes (glyphData + cursor) = .ok (UInt16.ofNat n) := by
  rw [← word_of_wordBE hn]
  exact readU16_eq h

lemma readS16_wordBE {n : ℕ} (hn : n < 65536)
    (h : GoesOn bytes glyphData glyphSize cursor (wordBE n ++ rest)) :
    readS16 bytes (glyphData + cursor) = .ok (wrapInt16 n) := by
  rw [readS16, readU16_wordBE hn h, ok_bind, UInt16.toNat_ofNat_of_lt' hn]
  rfl

end GoesOn

/-! ### Ends -/

lemma checkIncreasing_eq {endPoints : Cells 64 UInt16} {es : List UInt16} {point : UInt16}
    (h : Cells.Holds endPoints (es ++ [point])) (hlen : es.length < 64)
    (hincreasing : (es ++ [point]).Pairwise (· < ·)) :
    checkIncreasing endPoints es.length = .ok () := by
  rw [checkIncreasing]
  by_cases hzero : es.length = 0
  · rw [if_neg (not_not_intro hzero)]
    rfl
  · have hprevious : es.length - 1 < es.length := by omega
    have hlt := (List.pairwise_append.mp hincreasing).2.2 _ (List.getElem_mem hprevious) point
      (List.mem_singleton_self point)
    have hbefore : es.length - 1 < (es ++ [point]).length := by
      rw [List.length_append]
      exact Nat.lt_add_right _ hprevious
    rw [if_pos hzero, h.get_eq hlen (by simp), h.get_eq (by omega) hbefore, ok_bind, ok_bind]
    simp only [List.get_eq_getElem, List.getElem_concat_length, List.getElem_append_left hprevious]
    rw [require, if_pos (decide_eq_true hlt)]
    rfl

/-- The loop reads the ends that are left. -/
lemma endPointsFrom_eq {endPoints : Cells 64 UInt16} {read : List UInt16} {ends : List ℕ}
    (lastPoint : UInt16) (h : Cells.Holds endPoints read) (hlen : read.length + ends.length ≤ 64)
    (hlt : ∀ e ∈ ends, e < 65536)
    (hincreasing : (read ++ ends.map UInt16.ofNat).Pairwise (· < ·))
    (hdata : GoesOn bytes glyphData glyphSize (cursor + read.length * 2) (ends.flatMap wordBE)) :
    ∃ endPoints', endPointsFrom bytes glyphData cursor ends.length read.length endPoints lastPoint =
        .ok (endPoints', (ends.map UInt16.ofNat).getLastD lastPoint) ∧
      Cells.Holds endPoints' (read ++ ends.map UInt16.ofNat) := by
  induction ends generalizing endPoints lastPoint read with
  | nil => exact ⟨endPoints, rfl, by rwa [List.map_nil, List.append_nil]⟩
  | cons e ends ih =>
    rw [List.forall_mem_cons] at hlt
    rw [List.length_cons] at hlen
    rw [List.map_cons, List.append_cons] at hincreasing
    rw [List.flatMap_cons] at hdata
    obtain ⟨endPoints₁, hset, hholds⟩ := h.set_next (by omega) (UInt16.ofNat e)
    have hcheck := checkIncreasing_eq hholds (by omega) (List.pairwise_append.mp hincreasing).1
    have hget := hholds.get_eq (i := read.length) (by omega) (by simp)
    have hlength : (read ++ [UInt16.ofNat e]).length = read.length + 1 := by simp
    obtain ⟨endPoints', hrun, hends⟩ := ih (UInt16.ofNat e) hholds (by omega) hlt.2
      hincreasing (by
        rw [hlength, Nat.add_mul, Nat.one_mul, ← Nat.add_assoc]
        exact hdata.append.2)
    refine ⟨endPoints', ?_, by rwa [List.map_cons, List.append_cons]⟩
    rw [List.length_cons, endPointsFrom, Nat.add_assoc, hdata.readU16_wordBE hlt.1, ok_bind, hset, ok_bind,
      hcheck, ok_bind, hget, ok_bind]
    simp only [List.get_eq_getElem, List.getElem_concat_length]
    rw [hlength] at hrun
    rw [hrun, List.map_cons, List.getLastD_cons]

lemma copyContoursFrom_eq {endPoints contours : Cells 64 UInt16} {front back : List UInt16}
    (h : Cells.Holds endPoints (front ++ back)) (hfront : Cells.Holds contours front)
    (hlen : front.length + back.length ≤ 64) :
    ∃ contours', copyContoursFrom endPoints back.length front.length contours = .ok contours' ∧
      Cells.Holds contours' (front ++ back) := by
  induction back generalizing contours front with
  | nil => exact ⟨contours, rfl, by rwa [List.append_nil]⟩
  | cons e back ih =>
    rw [List.length_cons] at hlen
    obtain ⟨contours₁, hset, hholds⟩ := hfront.set_next (by omega) e
    have hget := h.get_eq (i := front.length) (by omega) (by simp)
    rw [List.append_cons] at h
    obtain ⟨contours', hrun, hends⟩ := ih h hholds (by simp; omega)
    refine ⟨contours', ?_, by rwa [List.append_cons]⟩
    rw [List.length_append, List.length_singleton] at hrun
    rw [List.length_cons, copyContoursFrom, hget, ok_bind]
    simp only [List.get_eq_getElem, List.getElem_append_right le_rfl, Nat.sub_self, List.getElem_cons_zero]
    rw [hset, ok_bind, hrun]

/-! ### Flags -/

/-- The flags without the bit that says that they are repeated. -/
def plainFlags (flags : List UInt8) : List UInt8 := flags.map (· &&& 0xf7)

lemma repeatFlag_eq {pointCount : ℕ} {flags : Cells 384 UInt8} {front : List UInt8} (flag : UInt8)
    (count : ℕ) (h : Cells.Holds flags front) (hcount : front.length + count ≤ pointCount) (hroom : pointCount ≤ 384) :
    ∃ flags', repeatFlag pointCount flag count front.length flags =
        .ok (0, front.length + count, flags') ∧
      Cells.Holds flags' (front ++ List.replicate count flag) := by
  induction count generalizing flags front with
  | zero => exact ⟨flags, rfl, by rwa [List.replicate_zero, List.append_nil]⟩
  | succ count ih =>
    obtain ⟨flags₁, hset, hholds⟩ := h.set_next (by omega) flag
    obtain ⟨flags', hrun, hflags⟩ := ih hholds (by simp; omega)
    refine ⟨flags', ?_, by rwa [List.replicate_succ, List.append_cons]⟩
    rw [List.length_append, List.length_singleton] at hrun
    rw [repeatFlag, if_pos (by omega), hset, ok_bind, hrun, Nat.add_assoc, Nat.add_comm 1 count]

lemma plain_of_repeat {flag : UInt8} (h : flag &&& 0xf7 = flag) :
    flag &&& glyphRepeatFlag = 0 ∧ (flag ||| glyphRepeatFlag) &&& glyphRepeatFlag ≠ 0 ∧
      (flag ||| glyphRepeatFlag) &&& 0xf7 = flag := by
  have hall : ∀ n < 256, UInt8.ofNat n &&& 0xf7 = UInt8.ofNat n →
      UInt8.ofNat n &&& glyphRepeatFlag = 0 ∧
        (UInt8.ofNat n ||| glyphRepeatFlag) &&& glyphRepeatFlag ≠ 0 ∧
        (UInt8.ofNat n ||| glyphRepeatFlag) &&& 0xf7 = UInt8.ofNat n := by decide +kernel
  have hflag := hall flag.toNat flag.toNat_lt
  rw [UInt8.ofNat_toNat] at hflag
  exact hflag h

/-- The loop expands the runs. -/
lemma flagsFrom_eq {pointCount : ℕ} {flags : Cells 384 UInt8} {front left bs : List UInt8} (fuel : ℕ)
    (henc : EncodesFlags left bs) (hplain : plainFlags left = left) (h : Cells.Holds flags front)
    (hcount : front.length + left.length = pointCount) (hroom : pointCount ≤ 384)
    (hfuel : left.length < fuel) (hdata : GoesOn bytes glyphData glyphSize cursor bs) :
    ∃ flags' stored, flagsFrom bytes glyphData glyphSize pointCount fuel front.length cursor flags =
        .ok (cursor + bs.length, flags') ∧
      Cells.Holds flags' (front ++ stored) ∧ plainFlags stored = left := by
  induction henc generalizing front fuel cursor flags with
  | nil =>
    obtain ⟨fuel, rfl⟩ := Nat.exists_eq_add_one_of_ne_zero (Nat.ne_zero_of_lt hfuel)
    refine ⟨flags, [], ?_, by rwa [List.append_nil], rfl⟩
    rw [List.length_nil] at hcount
    rw [flagsFrom, if_neg (by omega)]
    rfl
  | @single flag left bs _ ih =>
    obtain ⟨fuel, rfl⟩ := Nat.exists_eq_add_one_of_ne_zero (Nat.ne_zero_of_lt hfuel)
    rw [plainFlags, List.map_cons, List.cons.injEq] at hplain
    rw [List.length_cons] at hcount hfuel
    obtain ⟨flags₁, hset, hholds⟩ := h.set_next (by omega) flag
    obtain ⟨flags', stored, hrun, hflags, hstored⟩ := ih fuel hplain.2 hholds (by simp; omega)
      (Nat.lt_of_succ_lt_succ hfuel) hdata.tail
    refine ⟨flags', flag :: stored, ?_, by rwa [List.append_cons], ?_⟩
    · rw [List.length_append, List.length_singleton] at hrun
      rw [flagsFrom, if_pos (by omega), hdata.valid (by simp), hdata.byteAt_eq]
      rw [require, if_pos rfl, pure_eq_ok, ok_bind, ok_bind, hset, ok_bind,
        if_neg (not_not_intro (plain_of_repeat hplain.1).1), hrun, List.length_cons, Nat.add_assoc,
        Nat.add_comm 1]
    · rw [plainFlags, List.map_cons, hplain.1]
      exact congrArg (flag :: ·) hstored
  | @run flag count left bs _ ih =>
    obtain ⟨fuel, rfl⟩ := Nat.exists_eq_add_one_of_ne_zero (Nat.ne_zero_of_lt hfuel)
    rw [plainFlags, List.map_append, List.map_replicate] at hplain
    obtain ⟨hflag, hleft⟩ := List.append_inj hplain (by simp)
    rw [List.replicate_succ, List.replicate_succ, List.cons.injEq] at hflag
    obtain ⟨hzero, hne, hand⟩ := plain_of_repeat hflag.1
    rw [List.length_append, List.length_replicate] at hcount hfuel
    obtain ⟨flags₁, hset, hholds₁⟩ := h.set_next (by omega) (flag ||| glyphRepeatFlag)
    obtain ⟨flags₂, hrepeat, hholds₂⟩ := repeatFlag_eq (flag ||| glyphRepeatFlag) count.toNat hholds₁
      (by simp; omega) hroom
    obtain ⟨flags', stored, hrun, hflags, hstored⟩ := ih fuel hleft hholds₂ (by simp; omega)
      (show left.length < fuel by omega) hdata.tail.tail
    refine ⟨flags', List.replicate (count.toNat + 1) (flag ||| glyphRepeatFlag) ++ stored, ?_, ?_, ?_⟩
    · rw [List.length_append, List.length_singleton] at hrepeat
      rw [flagsFrom, if_pos (by omega), hdata.valid (by simp), hdata.byteAt_eq]
      rw [require, if_pos rfl, pure_eq_ok, ok_bind, ok_bind, hset, ok_bind, if_pos hne,
        hdata.tail.valid (by simp), hdata.tail.byteAt_eq]
      rw [require, if_pos rfl, pure_eq_ok, ok_bind, ok_bind, hrepeat, ok_bind, require,
        if_pos (by rfl), pure_eq_ok, ok_bind]
      simp only [List.length_append, List.length_singleton, List.length_replicate] at hrun
      rw [hrun, List.length_cons, List.length_cons, Nat.add_assoc cursor (1 + 1), Nat.add_comm (1 + 1)]
    · rwa [List.replicate_succ, ← List.append_assoc, List.append_cons]
    · rw [plainFlags, List.map_append, List.map_replicate, hand]
      exact congrArg (List.replicate (count.toNat + 1) flag ++ ·) hstored

/-! ### Coordinates -/

/-- The two bits of the flag name the form. -/
structure HasForm (shortVector sameOrPositive flag : UInt8) (form : DeltaForm) : Prop where
  short : flag &&& shortVector ≠ 0 ↔ form = .positiveByte ∨ form = .negativeByte
  same : flag &&& sameOrPositive ≠ 0 ↔ form = .omitted ∨ form = .positiveByte

lemma wrapInt16_emod {d : ℤ} (h : -32768 ≤ d ∧ d ≤ 32767) : wrapInt16 ((d % 65536).toNat : ℕ) = d := by
  rw [wrapInt16, Int.toNat_of_nonneg (by omega), Int.bmod_def]
  omega

variable {shortVector sameOrPositive flag : UInt8} {form : DeltaForm} {d : ℤ}

lemma readDelta_eq (h : HasForm shortVector sameOrPositive flag form) (hfits : form.Fits d)
    {rest : List UInt8} (hdata : GoesOn bytes glyphData glyphSize cursor (form.bytes d ++ rest)) :
    readDelta bytes glyphData glyphSize shortVector sameOrPositive flag cursor =
      .ok (d, cursor + (form.bytes d).length) := by
  obtain ⟨hshort, hsame⟩ := h
  cases form with
  | omitted =>
    rw [readDelta, if_neg (by simp [hshort]), if_neg (hsame.mpr (.inl rfl))]
    rw [show d = 0 from hfits]
    rfl
  | positiveByte =>
    rw [readDelta, if_pos (hshort.mpr (.inl rfl)), hdata.valid (by simp [DeltaForm.bytes]), hdata.byteAt_eq,
      require, if_pos rfl, pure_eq_ok, ok_bind, ok_bind, if_pos (hsame.mpr (.inr rfl)),
      UInt8.toNat_ofNat_of_lt' (show _ < 256 by have := hfits.2; omega), Int.toNat_of_nonneg hfits.1]
    rfl
  | negativeByte =>
    obtain ⟨hlow, hhigh⟩ := hfits
    rw [readDelta, if_pos (hshort.mpr (.inr rfl)), hdata.valid (by simp [DeltaForm.bytes]), hdata.byteAt_eq,
      require, if_pos rfl, pure_eq_ok, ok_bind, ok_bind, if_neg (by simp [hsame]),
      UInt8.toNat_ofNat_of_lt' (show _ < 256 by omega), Int.toNat_of_nonneg (by omega), neg_neg]
    rfl
  | twoBytes =>
    have hzero : flag &&& sameOrPositive = 0 := by
      by_contra hne
      simpa using hsame.mp hne
    rw [readDelta, if_neg (by simp [hshort]), if_pos hzero, hdata.valid (by simp [DeltaForm.bytes]),
      require, if_pos rfl, pure_eq_ok, ok_bind, hdata.readS16_wordBE (by omega), ok_bind,
      wrapInt16_emod hfits]
    rfl

/-- One of the two loops over the coordinates: it stores the coordinates in the points. -/
lemma coordinatesFrom_eq {store : ℤ → UInt8 → GlyphPoint → GlyphPoint} {flags : Cells 384 UInt8}
    {points : Cells 384 GlyphPoint} {flagsFront flagsBack : List UInt8} {cs : List (ℤ × DeltaForm)}
    {front back : List GlyphPoint} {previous : ℤ}
    (hflags : Cells.Holds flags (flagsFront ++ flagsBack)) (hfront : flagsFront.length = front.length)
    (hpoints : Cells.Holds points (front ++ back)) (hback : back.length = cs.length)
    (hroom : front.length + back.length ≤ 384)
    (hforms : List.Forall₂ (fun flag c => HasForm shortVector sameOrPositive flag c.2) flagsBack cs)
    (hfits : FormsFit previous cs)
    {rest : List UInt8} (hdata : GoesOn bytes glyphData glyphSize cursor (coordinateBytes previous cs ++ rest)) :
    ∃ points', coordinatesFrom bytes glyphData glyphSize shortVector sameOrPositive store flags cs.length
        front.length cursor previous points = .ok (cursor + (coordinateBytes previous cs).length, points') ∧
      Cells.Holds points' (front ++ List.zipWith (fun c q => store c.1.1 c.2 q) (cs.zip flagsBack) back) := by
  induction hforms generalizing points flagsFront front back previous cursor with
  | nil =>
    rw [List.length_nil, List.length_eq_zero_iff] at hback
    subst hback
    exact ⟨points, rfl, hpoints⟩
  | @cons flag c flagsBack cs hform hforms ih =>
    obtain _ | ⟨q, back⟩ := back
    · cases hback
    rw [List.length_cons, List.length_cons, Nat.add_right_cancel_iff] at hback
    rw [List.length_cons] at hroom
    rw [coordinateBytes, List.append_assoc] at hdata
    have hflag := hflags.get_eq (i := front.length) (by omega) (by simp [hfront])
    have hpoint := hpoints.get_eq (i := front.length) (by omega) (by simp)
    have hdelta := readDelta_eq hform hfits.1 hdata
    obtain ⟨points₁, hset, hholds⟩ := hpoints.set_middle (by omega) (store c.1 flag q)
    rw [List.append_cons] at hflags hholds
    obtain ⟨points', hrun, hpoints'⟩ := ih hflags (by simp [hfront]) hholds hback (by simp; omega) hfits.2
      hdata.append.2
    refine ⟨points', ?_, ?_⟩
    · simp only [List.length_append, List.length_singleton] at hrun
      rw [List.length_cons, coordinatesFrom, hflag, ok_bind]
      simp only [List.get_eq_getElem, List.getElem_append_right hfront.le, hfront, Nat.sub_self,
        List.getElem_cons_zero]
      rw [hdelta, ok_bind, hpoint, ok_bind]
      simp only [List.get_eq_getElem, List.getElem_append_right le_rfl, Nat.sub_self,
        List.getElem_cons_zero, add_sub_cancel]
      rw [hset, ok_bind, hrun, coordinateBytes, List.length_append, Nat.add_assoc]
    · rwa [List.zip_cons_cons, List.zipWith_cons_cons, List.append_cons]

/-- The whole loop. -/
lemma coordinates_eq (store : ℤ → UInt8 → GlyphPoint → GlyphPoint) {flags : Cells 384 UInt8}
    {points : Cells 384 GlyphPoint} {stored : List UInt8} {cs : List (ℤ × DeltaForm)}
    {old : List GlyphPoint} (hflags : Cells.Holds flags stored) (hpoints : Cells.Holds points old)
    (hlen : old.length = cs.length) (hroom : old.length ≤ 384)
    (hforms : List.Forall₂ (fun flag c => HasForm shortVector sameOrPositive flag c.2) stored cs)
    (hfits : FormsFit 0 cs)
    {rest : List UInt8} (hdata : GoesOn bytes glyphData glyphSize cursor (coordinateBytes 0 cs ++ rest)) :
    ∃ points', coordinatesFrom bytes glyphData glyphSize shortVector sameOrPositive store flags cs.length 0
        cursor 0 points = .ok (cursor + (coordinateBytes 0 cs).length, points') ∧
      Cells.Holds points' (List.zipWith (fun c q => store c.1.1 c.2 q) (cs.zip stored) old) := by
  have hflags' : Cells.Holds flags ([] ++ stored) := hflags
  have hpoints' : Cells.Holds points ([] ++ old) := hpoints
  exact coordinatesFrom_eq hflags' rfl hpoints' hlen (by rwa [List.length_nil, Nat.zero_add]) hforms hfits hdata

/-! ### Points -/

lemma flagOf_and (onCurve overlap reserved : Bool) (xForm yForm : DeltaForm) :
    flagOf onCurve overlap reserved xForm yForm &&& 0x12 = xForm.bits 0x2 0x10 ∧
      flagOf onCurve overlap reserved xForm yForm &&& 0x24 = yForm.bits 0x4 0x20 ∧
      flagOf onCurve overlap reserved xForm yForm &&& 0x1 = (if onCurve then 1 else 0) ∧
      flagOf onCurve overlap reserved xForm yForm &&& 0xf7 = flagOf onCurve overlap reserved xForm yForm := by
  cases xForm <;> cases yForm <;> revert onCurve overlap reserved <;> decide

/-- A mask within another one. -/
lemma and_within {flag mask within : UInt8} (h : mask &&& within = within) :
    flag &&& within = (flag &&& mask) &&& within := by
  rw [UInt8.and_assoc, h]

/-- The flag that is stored for a point may have the bit for repetitions. -/
def StoredFor (flag : UInt8) (p : EncodedPoint) : Prop := flag &&& 0xf7 = p.flag

namespace StoredFor

variable {p : EncodedPoint}

lemma xForm (h : StoredFor flag p) : HasForm glyphXShortVector glyphXIsSameOrPositive flag p.xForm := by
  have hbits : flag &&& 0x12 = p.xForm.bits 0x2 0x10 := by
    rw [and_within (show (0xf7 : UInt8) &&& 0x12 = 0x12 by decide), h]
    exact (flagOf_and _ _ _ _ _).1
  constructor
  · rw [and_within (show (0x12 : UInt8) &&& 0x2 = 0x2 by decide), hbits]
    cases p.xForm <;> decide
  · rw [and_within (show (0x12 : UInt8) &&& 0x10 = 0x10 by decide), hbits]
    cases p.xForm <;> decide

lemma yForm (h : StoredFor flag p) : HasForm glyphYShortVector glyphYIsSameOrPositive flag p.yForm := by
  have hbits : flag &&& 0x24 = p.yForm.bits 0x4 0x20 := by
    rw [and_within (show (0xf7 : UInt8) &&& 0x24 = 0x24 by decide), h]
    exact (flagOf_and _ _ _ _ _).2.1
  constructor
  · rw [and_within (show (0x24 : UInt8) &&& 0x4 = 0x4 by decide), hbits]
    cases p.yForm <;> decide
  · rw [and_within (show (0x24 : UInt8) &&& 0x20 = 0x20 by decide), hbits]
    cases p.yForm <;> decide

lemma onCurve (h : StoredFor flag p) : decide (flag &&& glyphOnCurve ≠ 0) = p.point.onCurve := by
  have hbit : flag &&& 0x1 = if p.point.onCurve then 1 else 0 := by
    rw [and_within (show (0xf7 : UInt8) &&& 0x1 = 0x1 by decide), h]
    exact (flagOf_and _ _ _ _ _).2.2.1
  rw [hbit]
  cases p.point.onCurve <;> decide

end StoredFor

lemma plainFlags_flags (ps : List EncodedPoint) :
    plainFlags (ps.map EncodedPoint.flag) = ps.map EncodedPoint.flag := by
  rw [plainFlags, List.map_map]
  apply List.map_congr_left
  intro p _
  exact (flagOf_and _ _ _ _ _).2.2.2

lemma storedFor_of_plainFlags {stored : List UInt8} {ps : List EncodedPoint}
    (h : plainFlags stored = ps.map EncodedPoint.flag) : List.Forall₂ StoredFor stored ps := by
  induction ps generalizing stored with
  | nil =>
    rw [List.map_nil, plainFlags, List.map_eq_nil_iff] at h
    subst h
    exact .nil
  | cons p ps ih =>
    rw [List.map_cons, plainFlags, List.map_eq_cons_iff] at h
    obtain ⟨flag, rest, rfl, hflag, hrest⟩ := h
    exact .cons hflag (ih hrest)

/-- The two loops over the coordinates store the points. -/
lemma points_stored {stored : List UInt8} {ps : List EncodedPoint} {old : List GlyphPoint}
    (hstored : List.Forall₂ StoredFor stored ps) (hlen : old.length = ps.length) :
    List.zipWith (fun (c : (ℤ × DeltaForm) × UInt8) (q : GlyphPoint) =>
        { q with y := c.1.1, onCurve := decide (c.2 &&& glyphOnCurve ≠ 0) })
      ((ps.map fun p => (p.point.y, p.yForm)).zip stored)
      (List.zipWith (fun (c : (ℤ × DeltaForm) × UInt8) (q : GlyphPoint) => { q with x := c.1.1 })
        ((ps.map fun p => (p.point.x, p.xForm)).zip stored) old) = ps.map EncodedPoint.point := by
  induction hstored generalizing old with
  | nil => rfl
  | @cons flag p stored ps hflag _ ih =>
    obtain _ | ⟨q, old⟩ := old
    · cases hlen
    rw [List.length_cons, List.length_cons, Nat.add_right_cancel_iff] at hlen
    simp only [List.map_cons, List.zip_cons_cons, List.zipWith_cons_cons, ih hlen, hflag.onCurve]

/-! ### Glyphs -/

/-- All contours whose differences have 16 bits can be encoded. -/
theorem exists_simpleGlyph (c : Contours GlyphPoint) (hpos : 0 < c.ends.length) (hle : c.ends.length ≤ 64)
    (hroom : c.points.length ≤ 384) (hx : FormsFit 0 (c.points.map fun p => (p.x, .twoBytes)))
    (hy : FormsFit 0 (c.points.map fun p => (p.y, .twoBytes))) :
    ∃ g : SimpleGlyph, g.contours.map EncodedPoint.point = c := by
  have hsingle : ∀ flags : List UInt8, EncodesFlags flags flags := by
    intro flags
    induction flags with
    | nil => exact .nil
    | cons flag flags ih => exact .single flag ih
  refine ⟨{
    contours := c.map fun p => ⟨p, .twoBytes, .twoBytes, false, false⟩
    bounds := List.replicate 8 0
    instructions := []
    flagBytes := _
    contours_pos := hpos
    contours_le := hle
    points_le := by rwa [Contours.map, List.length_map]
    length_bounds := rfl
    instructions_lt := by decide
    encodesFlags := hsingle _
    xFits := by rwa [Contours.map, List.map_map]
    yFits := by rwa [Contours.map, List.map_map] }, ?_⟩
  apply Contours.ext
  · change (c.points.map _).map _ = c.points
    rw [List.map_map]
    exact List.map_id _
  · rfl

lemma glyphAdvance_eq (hfont : font.Valid bytes) (glyph : UInt16) :
    ∃ advance, glyphAdvance bytes font glyph = .ok advance := by
  have hinside : font.hmtx.data + font.hmtx.size ≤ bytes.length := hfont.hmtx
  have hwidths := hfont.widths
  have hmetrics : font.numberOfHmetrics.toNat ≠ 0 := fun h => hfont.metrics (UInt16.toNat_inj.mp h)
  rw [glyphAdvance]
  by_cases hlt : glyph < font.numberOfHmetrics
  · rw [if_pos hlt]
    rw [UInt16.lt_iff_toNat_lt] at hlt
    exact ⟨_, readS16_eq (by omega)⟩
  · rw [if_neg hlt]
    exact ⟨_, readS16_eq (by omega)⟩

lemma readBounds_eq (hfont : font.Valid bytes) (glyph : UInt16) (outline : GlyphOutline)
    (hlen : glyphData + 10 ≤ bytes.length) :
    ∃ outline', readBounds bytes font glyph glyphData outline = .ok outline' ∧
      outline'.points = outline.points := by
  obtain ⟨advance, hadvance⟩ := glyphAdvance_eq hfont glyph
  rw [readBounds, readS16_eq (by omega), readS16_eq (by omega), readS16_eq (by omega),
    readS16_eq (by omega), hadvance]
  exact ⟨_, rfl, rfl⟩

lemma length_flatMap_wordBE (ns : List ℕ) : (ns.flatMap wordBE).length = ns.length * 2 := by
  induction ns with
  | nil => rfl
  | cons n ns ih => rw [List.flatMap_cons, List.length_append, ih, length_wordBE, List.length_cons]; omega

namespace SimpleGlyph

variable (g : SimpleGlyph)

lemma end_lt {e : ℕ} (he : e ∈ g.contours.ends) : e < 65536 := by
  have hlt := g.contours.end_lt he
  have hle := g.points_le
  omega

lemma increasing : (g.contours.ends.map UInt16.ofNat).Pairwise (· < ·) := by
  rw [List.pairwise_map]
  refine g.contours.increasing.imp_of_mem ?_
  intro a b ha hb hlt
  rw [UInt16.lt_iff_toNat_lt, UInt16.toNat_ofNat_of_lt' (g.end_lt ha), UInt16.toNat_ofNat_of_lt' (g.end_lt hb)]
  exact hlt

/-- The last end is the index of the last point. -/
lemma last_end : ((g.contours.ends.map UInt16.ofNat).getLastD 0).toNat + 1 = g.contours.points.length ∧
    g.contours.ends.getLast? = some (g.contours.points.length - 1) := by
  rcases g.contours.empty_or_last with ⟨hends, -⟩ | hlast
  · have hpos := g.contours_pos
    rw [hends] at hpos
    cases hpos
  · have hlt := g.contours.end_lt (List.mem_of_getLast? hlast)
    have hle := g.points_le
    rw [List.getLastD_eq_getLast?, List.getLast?_map, hlast, Option.map_some, Option.getD_some,
      UInt16.toNat_ofNat_of_lt' (show _ < 65536 by omega)]
    exact ⟨by omega, rfl⟩

end SimpleGlyph

/-- The loops over the flags and the coordinates. -/
lemma points_eq (g : SimpleGlyph) {points : Cells 384 GlyphPoint} (hpoints : Cells.Filled points 384)
    (hdata : GoesOn bytes glyphData glyphSize cursor (g.flagBytes ++ (g.xBytes ++ g.yBytes))) :
    ∃ flags xs ys, flagsFrom bytes glyphData glyphSize g.contours.points.length
        (g.contours.points.length + 1) 0 cursor (fun _ => none) = .ok flags ∧
      xCoordinates bytes glyphData glyphSize g.contours.points.length flags.1 flags.2 points = .ok xs ∧
      yCoordinates bytes glyphData glyphSize g.contours.points.length xs.1 flags.2 xs.2 = .ok ys ∧
      Cells.Holds ys.2 (g.contours.points.map EncodedPoint.point) := by
  obtain ⟨hflagBytes, hxy⟩ := hdata.append
  have hy : GoesOn bytes glyphData glyphSize (cursor + g.flagBytes.length + g.xBytes.length)
      (g.yBytes ++ []) := by
    rw [List.append_nil]
    exact hxy.append.2
  obtain ⟨old, hold, hholds⟩ := (hpoints.mono g.points_le).exists_holds g.points_le
  have hnone : Cells.Holds (fun _ : Fin 384 => (none : Option UInt8)) [] := Cells.holds_nil
  obtain ⟨flags, stored, hflags, hflagCells, hplain⟩ := flagsFrom_eq
    (g.contours.points.length + 1) g.encodesFlags (plainFlags_flags _) hnone (by simp) g.points_le (by simp)
    hflagBytes
  have hstored := storedFor_of_plainFlags hplain
  obtain ⟨xs, hx, hxCells⟩ := coordinates_eq (fun x _ point => { point with x := x }) hflagCells hholds
    (by simpa using hold) (hold.trans_le g.points_le)
    (List.forall₂_map_right_iff.mpr (hstored.imp fun flag p h => h.xForm)) g.xFits hxy
  obtain ⟨ys, hy, hyCells⟩ := coordinates_eq
    (fun y flag point => { point with y := y, onCurve := flag &&& glyphOnCurve ≠ 0 }) hflagCells hxCells
    (by simp [hstored.length_eq, hold]) (by simp [hstored.length_eq, hold, g.points_le])
    (List.forall₂_map_right_iff.mpr (hstored.imp fun flag p h => h.yForm)) g.yFits hy
  rw [List.length_map] at hx hy
  refine ⟨_, _, _, hflags, hx, hy, ?_⟩
  rw [← points_stored hstored hold]
  exact hyCells

/-- Where the parts of the encoding lie. -/
structure Parts (g : SimpleGlyph) (bytes : List UInt8) (glyphData glyphSize : ℕ) : Prop where
  header : 10 ≤ glyphSize ∧ glyphData + 10 ≤ bytes.length
  count : readS16 bytes glyphData = .ok (g.contours.ends.length : ℤ)
  ends : GoesOn bytes glyphData glyphSize 10 (g.contours.ends.flatMap wordBE)
  instructionLength : GoesOn bytes glyphData glyphSize (10 + g.contours.ends.length * 2)
    (wordBE g.instructions.length)
  instructions : GoesOn bytes glyphData glyphSize (10 + g.contours.ends.length * 2 + 2) g.instructions
  rest : GoesOn bytes glyphData glyphSize
    (10 + g.contours.ends.length * 2 + 2 + g.instructions.length) (g.flagBytes ++ (g.xBytes ++ g.yBytes))

lemma GoesOn.parts {g : SimpleGlyph} (h : GoesOn bytes glyphData glyphSize 0 g.bytes) :
    Parts g bytes glyphData glyphSize := by
  have hpos := g.contours_pos
  have hle := g.contours_le
  have hlength := g.length_bounds
  have hcount := h.readS16_wordBE (by omega)
  obtain ⟨-, hdata⟩ := h.append.2.append
  rw [length_wordBE, hlength] at hdata
  obtain ⟨hends, hdata₁⟩ := hdata.append
  rw [length_flatMap_wordBE] at hdata₁
  obtain ⟨hinstructionLength, hdata₂⟩ := hdata₁.append
  obtain ⟨hinstructions, hrest⟩ := hdata₂.append
  constructor
  · have hinside := hdata₁.inside
    have hstarts := h.starts.length_le
    rw [List.length_drop, SimpleGlyph.bytes, List.length_append, List.length_append, List.length_append,
      length_wordBE, hlength, length_flatMap_wordBE] at hstarts
    omega
  · have hwrap : wrapInt16 (g.contours.ends.length : ℤ) = g.contours.ends.length := by
      rw [wrapInt16, Int.bmod_def]
      omega
    rw [hwrap] at hcount
    exact hcount
  · exact hends
  · exact hinstructionLength
  · exact hinstructions
  · exact hrest

/-- Every legal encoding of a simple glyph is read back: the points, the contours, and the count. -/
theorem loadSimpleOutline_decodes (hparse : parseTtf bytes = .ok font) (g : SimpleGlyph)
    (hdata : GoesOn bytes glyphData glyphSize 0 g.bytes) (houtline : outline.Valid) :
    ∃ outline', loadSimpleOutline bytes font glyph glyphData glyphSize outline = .ok outline' ∧
      outline'.Shows (g.contours.map EncodedPoint.point) ∧
      g.contours.ends.getLast? = some (outline'.pointCount - 1) := by
  have hfont := (safe_parseTtf bytes).answer font hparse
  obtain ⟨hheader, hcount, hends, hinstructionLength, hinstructions, hrest⟩ := hdata.parts
  have hpos := g.contours_pos
  have hle := g.contours_le
  obtain ⟨outline₁, hbounds, hpoints₁⟩ := readBounds_eq hfont glyph outline hheader.2
  have hnone : Cells.Holds (fun _ : Fin 64 => (none : Option UInt16)) [] := Cells.holds_nil
  obtain ⟨ends, hendPoints, hendCells⟩ := endPointsFrom_eq 0 hnone (by simpa using hle)
    (fun e he => g.end_lt he) g.increasing hends
  have hstart : Cells.Holds outline₁.contours [] := Cells.holds_nil
  obtain ⟨contours, hcopy, hcopied⟩ := copyContoursFrom_eq hendCells hstart (by simpa using hle)
  obtain ⟨flags, xs, ys, hflags, hx, hy, hcells⟩ := points_eq g (hpoints₁ ▸ houtline.points) hrest
  refine ⟨{ outline₁ with
    points := ys.2, contours, pointCount := g.contours.points.length
    contourCount := g.contours.ends.length }, ?_, ?_, ?_⟩
  · have hword : (wordBE g.instructions.length) ++ [] = wordBE g.instructions.length := List.append_nil _
    have hlength := (hword.symm ▸ hinstructionLength).readU16_wordBE g.instructions_lt
    rw [List.length_map] at hcopy
    rw [List.length_nil] at hcopy hendPoints
    rw [loadSimpleOutline, require_bind (decide_eq_true hheader.1), hcount, ok_bind,
      require_bind (decide_eq_true ⟨by omega, by exact_mod_cast hle⟩), hbounds, ok_bind, if_neg (by omega)]
    simp only [Int.toNat_natCast]
    rw [require_bind (hends.valid (length_flatMap_wordBE _).ge), hendPoints, ok_bind, g.last_end.1,
      require_bind (decide_eq_true g.points_le), require_bind (hinstructionLength.valid (Nat.le_refl 2)),
      hlength, ok_bind, UInt16.toNat_ofNat_of_lt' g.instructions_lt, require_bind (hinstructions.valid le_rfl),
      hflags, ok_bind, hx, ok_bind, hy, ok_bind, hcopy]
    rfl
  · exact ⟨(List.length_map _).symm, rfl, hcells, hcopied, by simpa [Contours.map] using g.points_le, hle⟩
  · exact g.last_end.2

/-- The first glyph of the font: the triangle. -/
def triangleGlyph : SimpleGlyph where
  contours :=
    { points := [⟨⟨0, 0, true⟩, .omitted, .omitted, false, false⟩,
        ⟨⟨100, 0, true⟩, .positiveByte, .omitted, false, false⟩,
        ⟨⟨50, 100, true⟩, .negativeByte, .positiveByte, false, false⟩]
      ends := [2]
      increasing := List.pairwise_singleton _ _
      covers := rfl }
  bounds := [0, 0, 0, 0, 0, 100, 0, 100]
  instructions := []
  flagBytes := [0x31, 0x33, 0x27]
  contours_pos := by decide
  contours_le := by decide
  points_le := by decide
  length_bounds := rfl
  instructions_lt := by decide
  encodesFlags := .single _ (.single _ (.single _ .nil))
  xFits := by decide
  yFits := by decide

theorem loadSimpleOutline_decodes_triangle : ∃ font outline,
    parseTtf twoTriangles = .ok font ∧
    loadSimpleOutline twoTriangles font 0 230 20 GlyphOutline.zero = .ok outline ∧
    outline.Shows (triangleGlyph.contours.map EncodedPoint.point) := by
  cases hparse : parseTtf twoTriangles with
  | error e =>
    have hok : (parseTtf twoTriangles).isOk := by decide +kernel
    rw [hparse] at hok
    cases hok
  | ok font =>
    have hdata : GoesOn twoTriangles 230 20 0 triangleGlyph.bytes := ⟨by decide, by decide +kernel⟩
    obtain ⟨outline, hrun, hshows, -⟩ := loadSimpleOutline_decodes hparse triangleGlyph hdata
      (GlyphOutline.valid_zero 0)
    exact ⟨font, outline, rfl, hrun, hshows⟩

end Xbks
