import Xbks.Text.Format

/-!
# What the formatter prints

A format is a sequence of tokens: characters that stand for themselves, and conversions. `expansion`
is the text that they stand for together with the arguments. The loops of the formatter put this text
into the sink.
-/

namespace Xbks

open Checked Numeral

/-! ### Tokens -/

inductive Modifier
  | none
  | l
  | ll
  | z
  deriving DecidableEq

namespace Modifier

def text : Modifier → List UInt8
  | none => []
  | l => ['l'.toUInt8]
  | ll => ['l'.toUInt8, 'l'.toUInt8]
  | z => ['z'.toUInt8]

def longValue : Modifier → Bool
  | l | ll => true
  | none | z => false

def longLongValue : Modifier → Bool
  | ll | z => true
  | none | l => false

/-- The letter does not lengthen the modifier. -/
def Ends : Modifier → UInt8 → Prop
  | none, letter => letter ≠ 'l'.toUInt8 ∧ letter ≠ 'z'.toUInt8
  | l, letter => letter ≠ 'l'.toUInt8
  | ll, _ | z, _ => True

instance : DecidableRel Ends
  | none, letter => inferInstanceAs (Decidable (letter ≠ 'l'.toUInt8 ∧ letter ≠ 'z'.toUInt8))
  | l, letter => inferInstanceAs (Decidable (letter ≠ 'l'.toUInt8))
  | ll, _ | z, _ => .isTrue trivial

end Modifier

inductive Token
  | literal (ch : UInt8) (h : ch ≠ 0 ∧ ch ≠ '%'.toUInt8)
  | conversion (modifier : Modifier) (letter : UInt8)
    (h : letter ≠ 0 ∧ modifier.Ends letter)

def Token.text : Token → List UInt8
  | literal ch _ => [ch]
  | conversion modifier letter _ => '%'.toUInt8 :: (modifier.text ++ [letter])

/-- The format in which the tokens stand one after the other. -/
def spell (tokens : List Token) : List UInt8 := tokens.flatMap Token.text

/-! ### Their expansion -/

def unsignedNumeral (base : ℕ) (uppercase : Bool) (n : ℕ) : List UInt8 :=
  numeral (digitAlphabet uppercase) base n

def signedNumeral (n : ℤ) : List UInt8 :=
  if n < 0 then '-'.toUInt8 :: unsignedNumeral 10 false n.natAbs else unsignedNumeral 10 false n.natAbs

section

variable (strings : BitVec 64 → CText)

/-- What a conversion prints, and the arguments after it. -/
def conversionText (args : VaList) (modifier : Modifier) (letter : UInt8) : List UInt8 × VaList :=
  let signed := if modifier = .none then args.int else args.long
  let unsigned := if modifier = .none then args.unsignedInt else args.unsignedLong
  match directive letter with
  | .percent => (['%'.toUInt8], args)
  | .string => (if args 0 ≠ 0 then (strings (args 0)).val else ascii "(null)", args.rest)
  | .char => ([UInt8.ofBitVec ((args 0).setWidth 8)], args.rest)
  | .signed => (signedNumeral signed, args.rest)
  | .unsigned => (unsignedNumeral 10 false unsigned, args.rest)
  | .hex uppercase => (unsignedNumeral 16 uppercase unsigned, args.rest)
  | .pointer => (ascii "0x" ++ unsignedNumeral 16 false args.unsignedLong, args.rest)
  | .default => (['%'.toUInt8, letter], args)

def Token.expand (args : VaList) : Token → List UInt8 × VaList
  | literal ch _ => ([ch], args)
  | conversion modifier letter _ => conversionText strings args modifier letter

/-- What the tokens print, and the arguments after them. -/
def expandFrom : VaList → List Token → List UInt8 × VaList
  | args, [] => ([], args)
  | args, token :: tokens =>
    let (text, args) := token.expand strings args
    let (texts, args) := expandFrom args tokens
    (text ++ texts, args)

def expansion (args : VaList) (tokens : List Token) : List UInt8 := (expandFrom strings args tokens).1

end

/-! ### Numerals are canonical -/

lemma digitAlphabet_nodup (uppercase : Bool) : (digitAlphabet uppercase).Nodup := by
  cases uppercase <;> decide

lemma length_digitAlphabet (uppercase : Bool) : (digitAlphabet uppercase).length = 16 := by
  cases uppercase <;> rfl

lemma isNumeral_unsignedNumeral {base : ℕ} (hbase : 2 ≤ base) (hle : base ≤ 16) (uppercase : Bool)
    (n : ℕ) : IsNumeral (digitAlphabet uppercase) base (unsignedNumeral base uppercase n) n :=
  isNumeral_numeral (digitAlphabet_nodup uppercase) hbase
    (hle.trans_eq (length_digitAlphabet uppercase).symm)

/-! ### The sink -/

namespace FormatSink

variable {sink : FormatSink} {text : List UInt8} {ch : UInt8}

/-- The sink after one more character. -/
def putByte (sink : FormatSink) (ch : UInt8) : FormatSink where
  buffer := if sink.length + 1 < sink.capacity then sink.buffer.set sink.length ch else sink.buffer
  capacity := sink.capacity
  length := sink.length + 1

/-- The sink after a text. -/
def put (sink : FormatSink) (text : List UInt8) : FormatSink := text.foldl putByte sink

/-- The buffer has room for what the capacity promises. -/
def Fits (sink : FormatSink) : Prop := sink.capacity ≤ sink.buffer.length

@[simp] lemma put_nil : sink.put [] = sink := rfl

@[simp] lemma put_cons : sink.put (ch :: text) = (sink.putByte ch).put text := rfl

@[simp] lemma put_append (text' : List UInt8) : sink.put (text ++ text') = (sink.put text).put text' :=
  List.foldl_append

lemma Fits.putByte (h : sink.Fits) : (sink.putByte ch).Fits := by
  rw [Fits, FormatSink.putByte]
  split
  · rw [List.length_set]
    exact h
  · exact h

lemma Fits.put (h : sink.Fits) (text : List UInt8) : (sink.put text).Fits := by
  induction text generalizing sink with
  | nil => exact h
  | cons ch text ih => exact ih h.putByte

/-- An empty sink after a text holds as much of it as fits before the last byte. -/
lemma put_start {buffer : List UInt8} {n : ℕ} (h : n ≤ buffer.length) (text : List UInt8) :
    (⟨buffer, n, 0⟩ : FormatSink).put text =
      ⟨text.take (n - 1) ++ buffer.drop (min text.length (n - 1)), n, text.length⟩ := by
  induction text using List.reverseRecOn with
  | nil => simp
  | append_singleton text ch ih =>
    rw [put_append, ih, put_cons, put_nil, putByte, List.length_append, List.length_singleton]
    by_cases hroom : text.length + 1 < n
    · have hlt : text.length < buffer.length := by omega
      rw [if_pos hroom, List.take_of_length_le (by omega), List.take_of_length_le (by simp; omega),
        Nat.min_eq_left (by omega), Nat.min_eq_left (by omega), List.set_append_right _ _ le_rfl,
        Nat.sub_self, List.drop_eq_getElem_cons hlt, List.set_cons_zero, List.append_assoc,
        List.singleton_append]
    · rw [if_neg hroom, List.take_append_of_le_length (by omega), Nat.min_eq_right (by omega),
        Nat.min_eq_right (by omega)]

end FormatSink

/-! ### The functions of the sink -/

variable {sink : FormatSink}

lemma sinkPutc_eq (h : sink.Fits) (ch : UInt8) : sinkPutc sink ch = .ok (sink.put [ch]) := by
  rw [sinkPutc, FormatSink.put_cons, FormatSink.put_nil, FormatSink.putByte]
  by_cases hroom : sink.length + 1 < sink.capacity
  · have hlt : sink.length < sink.buffer.length := by
      have hfits : sink.capacity ≤ sink.buffer.length := h
      omega
    rw [if_pos ⟨by omega, hroom⟩, storeByte, if_pos hlt, if_pos hroom]
    rfl
  · rw [if_neg (fun hand => hroom hand.2), if_neg hroom]
    rfl

lemma sinkWrite_eq (h : sink.Fits) (text : CText) :
    sinkWrite sink text.bytes = .ok (sink.put text.val) := by
  obtain ⟨text, htext⟩ := text
  rw [CText.bytes]
  induction text generalizing sink with
  | nil => rfl
  | cons ch text ih =>
    rw [List.mem_cons, not_or] at htext
    rw [List.cons_append, sinkWrite, if_neg (Ne.symm htext.1), sinkPutc_eq h]
    exact ih h.putByte htext.2

lemma putDigits_eq {digits : Cells 32 UInt8} {ds : List UInt8} (hdigits : digits.Holds ds)
    (hlen : ds.length ≤ 32) {count : ℕ} (hcount : count ≤ ds.length) (h : sink.Fits) :
    putDigits digits count sink = .ok (sink.put (ds.take count).reverse) := by
  induction count generalizing sink with
  | zero => rfl
  | succ count ih =>
    have hlt : count < ds.length := hcount
    rw [putDigits, hdigits.get_eq (hlt.trans_le hlen) hlt, List.take_succ_eq_append_getElem hlt,
      List.reverse_append, FormatSink.put_append]
    change (sinkPutc sink (ds.get ⟨count, hlt⟩) >>= fun sink => putDigits digits count sink) = _
    rw [sinkPutc_eq h]
    exact ih (by omega) h.putByte

section Digits

variable {alphabet : List UInt8} {base : ℕ} (hnodup : alphabet.Nodup) (hbase : 2 ≤ base)
  (hbaseLe : base ≤ alphabet.length)

include hnodup hbase hbaseLe

lemma digitsFrom_eq {fuel value : ℕ} {digits : Cells 32 UInt8} {ds : List UInt8}
    (hdigits : digits.Holds ds) (hfuel : (lowFirst alphabet base value).length < fuel)
    (hlen : ds.length + (lowFirst alphabet base value).length ≤ 32) :
    ∃ digits' : Cells 32 UInt8, digits'.Holds (ds ++ lowFirst alphabet base value) ∧
      digitsFrom alphabet base fuel value digits ds.length =
        .ok (digits', (ds ++ lowFirst alphabet base value).length) := by
  induction fuel generalizing value digits ds with
  | zero => exact absurd hfuel (Nat.not_lt_zero _)
  | succ fuel ih =>
    by_cases hvalue : value = 0
    · rw [hvalue, lowFirst_zero, List.append_nil]
      exact ⟨digits, hdigits, by rw [digitsFrom, if_pos rfl]; rfl⟩
    · obtain ⟨c, hget, -, heq⟩ := lowFirst_cons hnodup hbase hbaseLe hvalue
      rw [heq, List.length_cons] at hfuel hlen
      obtain ⟨next, hset, hnext⟩ := hdigits.set_next (by omega) c
      have hrest : (ds ++ [c]).length + (lowFirst alphabet base (value / base)).length ≤ 32 := by
        rw [List.length_append, List.length_singleton]
        omega
      obtain ⟨digits', hholds, hrun⟩ := ih hnext (Nat.lt_of_succ_lt_succ hfuel) hrest
      rw [← List.append_cons, ← heq] at hholds hrun
      rw [List.length_append, List.length_singleton] at hrun
      refine ⟨digits', hholds, ?_⟩
      rw [digitsFrom, if_neg hvalue, byteAt, hget]
      change (digits.set ds.length c >>= fun digits =>
        digitsFrom alphabet base fuel (value / base) digits (ds.length + 1)) = _
      rw [hset]
      exact hrun

end Digits

lemma sinkWriteUnsigned_eq (h : sink.Fits) {value base : ℕ} (hvalue : value < 2 ^ 64)
    (hbase : 10 ≤ base) (hle : base ≤ 16) (uppercase : Bool) :
    sinkWriteUnsigned sink value base uppercase =
      .ok (sink.put (unsignedNumeral base uppercase value)) := by
  rw [sinkWriteUnsigned, unsignedNumeral, numeral]
  by_cases hzero : value = 0
  · rw [if_pos hzero, if_pos hzero, sinkPutc_eq h]
    cases uppercase <;> rfl
  · rw [if_neg hzero, if_neg hzero]
    have hlen : (lowFirst (digitAlphabet uppercase) base value).length ≤ 20 := by
      apply length_lowFirst_le (by omega)
      calc value < 2 ^ 64 := hvalue
        _ ≤ 10 ^ 20 := by norm_num
        _ ≤ base ^ 20 := Nat.pow_le_pow_left hbase 20
    have hempty : Cells.Holds (fun _ : Fin 32 => none) ([] : List UInt8) := Cells.holds_nil
    have hfuel : (lowFirst (digitAlphabet uppercase) base value).length < 33 := by omega
    obtain ⟨digits, hdigits, hrun⟩ := digitsFrom_eq (digitAlphabet_nodup uppercase)
      (show 2 ≤ base by omega) (hle.trans_eq (length_digitAlphabet uppercase).symm) hempty hfuel
      (by rw [List.length_nil]; omega)
    rw [List.nil_append] at hdigits hrun
    rw [List.length_nil] at hrun
    rw [hrun]
    have hput := putDigits_eq hdigits (by omega) le_rfl h
    rw [List.take_length] at hput
    exact hput

lemma sinkWriteSigned_eq (h : sink.Fits) {value : ℤ} (hlow : -2 ^ 63 ≤ value) (hhigh : value < 2 ^ 63) :
    sinkWriteSigned sink value = .ok (sink.put (signedNumeral value)) := by
  rw [sinkWriteSigned, signedNumeral]
  by_cases hneg : value < 0
  · have habs : (-(value + 1)).toNat + 1 = value.natAbs := by omega
    rw [if_pos hneg, if_pos hneg, sinkPutc_eq h, habs]
    exact sinkWriteUnsigned_eq (h.put _) (by omega) le_rfl (by omega) false
  · have habs : value.toNat = value.natAbs := by omega
    rw [if_neg hneg, if_neg hneg, habs]
    exact sinkWriteUnsigned_eq h (by omega) le_rfl (by omega) false

/-! ### The conversions -/

section Arguments

variable (args : VaList) (modifier : Modifier)

lemma signed_bounds : -2 ^ 63 ≤ (if modifier = .none then args.int else args.long) ∧
    (if modifier = .none then args.int else args.long) < 2 ^ 63 := by
  have hint := BitVec.le_toInt ((args 0).setWidth 32)
  have hint' := BitVec.toInt_lt (x := (args 0).setWidth 32)
  have hlong := BitVec.le_toInt (args 0)
  have hlong' := BitVec.toInt_lt (x := args 0)
  rw [VaList.int, VaList.long]
  split <;> constructor <;> omega

lemma unsigned_lt : (if modifier = .none then args.unsignedInt else args.unsignedLong) < 2 ^ 64 := by
  have hint := ((args 0).setWidth 32).isLt
  have hlong := (args 0).isLt
  rw [VaList.unsignedInt, VaList.unsignedLong]
  split <;> omega

end Arguments

variable (strings : BitVec 64 → CText)

lemma convert_eq (h : sink.Fits) (args : VaList) (modifier : Modifier) (letter : UInt8) :
    convert strings sink args modifier.longValue modifier.longLongValue letter =
      .ok (sink.put (conversionText strings args modifier letter).1,
        (conversionText strings args modifier letter).2) := by
  have hsigned : (if modifier.longLongValue then args.long
      else if modifier.longValue then args.long else args.int) =
      if modifier = .none then args.int else args.long := by
    cases modifier <;> simp [Modifier.longValue, Modifier.longLongValue]
  have hunsigned : (if modifier.longLongValue then args.unsignedLong
      else if modifier.longValue then args.unsignedLong else args.unsignedInt) =
      if modifier = .none then args.unsignedInt else args.unsignedLong := by
    cases modifier <;> simp [Modifier.longValue, Modifier.longLongValue]
  have hbounds := signed_bounds args modifier
  have hlt := unsigned_lt args modifier
  rw [convert, conversionText, hsigned, hunsigned]
  cases directive letter with
  | percent =>
    simp only [sinkPutc_eq h, ok_bind, pure_eq_ok]
  | string =>
    simp only [sinkWrite_eq h, ok_bind, pure_eq_ok]
    split <;> rfl
  | char =>
    simp only [sinkPutc_eq h, ok_bind, pure_eq_ok]
  | signed =>
    simp only [sinkWriteSigned_eq h hbounds.1 hbounds.2, ok_bind, pure_eq_ok]
  | unsigned =>
    simp only [sinkWriteUnsigned_eq h hlt le_rfl (show 10 ≤ 16 by decide), ok_bind, pure_eq_ok]
  | hex uppercase =>
    simp only [sinkWriteUnsigned_eq h hlt (show 10 ≤ 16 by decide) le_rfl, ok_bind, pure_eq_ok]
  | pointer =>
    have hpointer : args.unsignedLong < 2 ^ 64 := (args 0).isLt
    have hrest := sinkWriteUnsigned_eq (h.put hexMark.val) hpointer (show 10 ≤ 16 by decide) le_rfl false
    simp only [sinkWrite_eq h, hrest, ok_bind, pure_eq_ok, FormatSink.put_append]
    rfl
  | default =>
    have hrest := sinkPutc_eq (h.put ['%'.toUInt8]) letter
    simp only [sinkPutc_eq h, hrest, ok_bind, pure_eq_ok, ← FormatSink.put_append,
      List.singleton_append]

/-! ### The loop over the format -/

variable {fmt rest : List UInt8} {i : ℕ}

lemma lengthModifier_eq {modifier : Modifier} {letter : UInt8}
    (hfmt : fmt.drop i = modifier.text ++ letter :: rest) (hends : modifier.Ends letter) :
    lengthModifier fmt i =
        .ok (modifier.longValue, modifier.longLongValue, i + modifier.text.length) ∧
      fmt.drop (i + modifier.text.length) = letter :: rest := by
  cases modifier with
  | none =>
    obtain ⟨hread, -⟩ := byteAt_of_drop hfmt
    refine ⟨?_, hfmt⟩
    rw [lengthModifier, hread, ok_bind, if_neg hends.1, if_neg hends.2]
    rfl
  | l =>
    obtain ⟨hread, hrest⟩ := byteAt_of_drop hfmt
    obtain ⟨hnext, -⟩ := byteAt_of_drop hrest
    refine ⟨?_, hrest⟩
    rw [lengthModifier, hread, ok_bind, if_pos rfl, hnext, ok_bind, if_neg hends]
    rfl
  | ll =>
    obtain ⟨hread, hrest⟩ := byteAt_of_drop hfmt
    obtain ⟨hnext, hrest'⟩ := byteAt_of_drop hrest
    refine ⟨?_, hrest'⟩
    rw [lengthModifier, hread, ok_bind, if_pos rfl, hnext, ok_bind, if_pos rfl]
    rfl
  | z =>
    obtain ⟨hread, hrest⟩ := byteAt_of_drop hfmt
    refine ⟨?_, hrest⟩
    rw [lengthModifier, hread, ok_bind, if_neg (by decide), if_pos rfl]
    rfl

/-- A round that reaches the `switch`. -/
lemma formatFrom_conversion (fuel : ℕ) (h : sink.Fits) (args : VaList) {modifier : Modifier}
    {letter : UInt8} (hfmt : fmt.drop i = '%'.toUInt8 :: (modifier.text ++ letter :: rest))
    (hends : modifier.Ends letter) (hmore : modifier.text ++ [letter] ≠ [0]) :
    formatFrom strings fmt (fuel + 1) i sink args =
        formatFrom strings fmt fuel (i + (1 + modifier.text.length + 1))
          (sink.put (conversionText strings args modifier letter).1)
          (conversionText strings args modifier letter).2 ∧
      fmt.drop (i + (1 + modifier.text.length + 1)) = rest := by
  obtain ⟨hread, hrest⟩ := byteAt_of_drop hfmt
  obtain ⟨next, hnext, hne⟩ : ∃ next, byteAt fmt (i + 1) = .ok next ∧ next ≠ 0 := by
    cases modifier with
    | none =>
      refine ⟨letter, (byteAt_of_drop hrest).1, ?_⟩
      intro hzero
      rw [hzero] at hmore
      exact hmore rfl
    | l | ll | z => exact ⟨_, (byteAt_of_drop hrest).1, by decide⟩
  obtain ⟨hmodifier, hletter⟩ := lengthModifier_eq hrest hends
  obtain ⟨hswitch, hend⟩ := byteAt_of_drop hletter
  have hindex : i + (1 + modifier.text.length + 1) = i + 1 + modifier.text.length + 1 := by omega
  rw [hindex]
  refine ⟨?_, hend⟩
  rw [formatFrom, hread, ok_bind, if_neg (by decide), if_neg (not_not_intro rfl), hnext, ok_bind,
    if_neg hne, hmodifier, ok_bind]
  simp only [hswitch, convert_eq strings h, ok_bind]

lemma formatFrom_token (fuel : ℕ) (h : sink.Fits) (args : VaList) (token : Token)
    (hfmt : fmt.drop i = token.text ++ rest) :
    formatFrom strings fmt (fuel + 1) i sink args =
        formatFrom strings fmt fuel (i + token.text.length)
          (sink.put (token.expand strings args).1) (token.expand strings args).2 ∧
      fmt.drop (i + token.text.length) = rest := by
  cases token with
  | literal ch hch =>
    obtain ⟨hread, hrest⟩ := byteAt_of_drop hfmt
    refine ⟨?_, hrest⟩
    rw [formatFrom, hread, ok_bind, if_neg hch.1, if_pos hch.2, sinkPutc_eq h]
    rfl
  | conversion modifier letter hletter =>
    have hlen : (Token.conversion modifier letter hletter).text.length = 1 + modifier.text.length + 1 := by
      simp [Token.text]
      omega
    rw [hlen]
    apply formatFrom_conversion strings fuel h args
    · rw [hfmt]
      simp [Token.text]
    · exact hletter.2
    · intro hzero
      have hmem : letter ∈ [0] := hzero ▸ List.mem_append_right _ (List.mem_singleton_self letter)
      exact hletter.1 (List.mem_singleton.mp hmem)

lemma formatFrom_tokens {fuel : ℕ} (h : sink.Fits) (args : VaList) (tokens : List Token)
    (hfmt : fmt.drop i = spell tokens ++ rest) :
    formatFrom strings fmt (tokens.length + fuel) i sink args =
        formatFrom strings fmt fuel (i + (spell tokens).length)
          (sink.put (expandFrom strings args tokens).1) (expandFrom strings args tokens).2 ∧
      fmt.drop (i + (spell tokens).length) = rest := by
  induction tokens generalizing i sink args with
  | nil =>
    rw [List.length_nil, Nat.zero_add]
    exact ⟨rfl, hfmt⟩
  | cons token tokens ih =>
    rw [spell, List.flatMap_cons, List.append_assoc] at hfmt
    obtain ⟨hround, hnext⟩ := formatFrom_token strings (tokens.length + fuel) h args token hfmt
    obtain ⟨hrun, hrest⟩ := ih (h.put (token.expand strings args).1) (token.expand strings args).2 hnext
    rw [spell, List.flatMap_cons, List.length_append, ← Nat.add_assoc]
    refine ⟨?_, hrest⟩
    rw [List.length_cons, Nat.add_right_comm, hround, hrun, expandFrom, FormatSink.put_append]
    rfl

lemma length_tokens_le (tokens : List Token) : tokens.length ≤ (spell tokens).length := by
  induction tokens with
  | nil => exact le_rfl
  | cons token tokens ih =>
    have hpos : 1 ≤ token.text.length := by
      cases token <;> simp [Token.text]
    rw [spell, List.flatMap_cons, List.length_append, List.length_cons, Nat.add_comm]
    exact Nat.add_le_add hpos ih

/-! ### How a format ends -/

/-- The conversion after a `%`: nothing, only a modifier, or a complete one. -/
lemma conversion_cases (text : List UInt8) (hnul : 0 ∉ text) :
    text = [] ∨ (∃ modifier : Modifier, modifier ≠ .none ∧ text = modifier.text) ∨
      ∃ (modifier : Modifier) (letter : UInt8) (rest : List UInt8),
        letter ≠ 0 ∧ modifier.Ends letter ∧ text = modifier.text ++ letter :: rest := by
  have hne : ∀ ch ∈ text, ch ≠ 0 := fun ch hch hzero => hnul (hzero ▸ hch)
  match text with
  | [] => exact .inl rfl
  | first :: text =>
    have hfirst : first ≠ 0 := hne first List.mem_cons_self
    by_cases hl : first = 'l'.toUInt8
    · subst hl
      match text with
      | [] => exact .inr (.inl ⟨.l, nofun, rfl⟩)
      | second :: text =>
        by_cases hll : second = 'l'.toUInt8
        · subst hll
          match text with
          | [] => exact .inr (.inl ⟨.ll, nofun, rfl⟩)
          | letter :: text =>
            exact .inr (.inr ⟨.ll, letter, text, hne letter (by simp), trivial, rfl⟩)
        · exact .inr (.inr ⟨.l, second, text, hne second (by simp), hll, rfl⟩)
    · by_cases hz : first = 'z'.toUInt8
      · subst hz
        match text with
        | [] => exact .inr (.inl ⟨.z, nofun, rfl⟩)
        | letter :: text => exact .inr (.inr ⟨.z, letter, text, hne letter (by simp), trivial, rfl⟩)
      · exact .inr (.inr ⟨.none, first, text, hfirst, ⟨hl, hz⟩, rfl⟩)

/-- The format ends in the middle of a conversion, right after a length modifier. -/
def EndsInModifier (fmt : List UInt8) : Prop :=
  ∃ (tokens : List Token) (modifier : Modifier),
    modifier ≠ .none ∧ fmt = spell tokens ++ '%'.toUInt8 :: modifier.text

lemma EndsInModifier.cons {fmt : List UInt8} (token : Token) (h : EndsInModifier fmt) :
    EndsInModifier (token.text ++ fmt) := by
  obtain ⟨tokens, modifier, hne, rfl⟩ := h
  refine ⟨token :: tokens, modifier, hne, ?_⟩
  rw [spell, spell, List.flatMap_cons, List.append_assoc]

/-- A format is complete, or it ends with a lone `%`, or right after a modifier. -/
lemma format_cases (fmt : List UInt8) (hnul : 0 ∉ fmt) :
    (∃ tokens, fmt = spell tokens) ∨ (∃ tokens, fmt = spell tokens ++ ['%'.toUInt8]) ∨
      EndsInModifier fmt := by
  induction hlen : fmt.length using Nat.strong_induction_on generalizing fmt with
  | h k ih =>
    -- what is left after the first token is covered by the induction
    have hcons : ∀ (token : Token) (rest : List UInt8), fmt = token.text ++ rest →
        0 < token.text.length → (∃ tokens, fmt = spell tokens) ∨
          (∃ tokens, fmt = spell tokens ++ ['%'.toUInt8]) ∨ EndsInModifier fmt := by
      intro token rest hfmt hpos
      have hlt : rest.length < k := by
        rw [← hlen, hfmt, List.length_append]
        omega
      have hrest : 0 ∉ rest := fun h => hnul (hfmt ▸ List.mem_append_right _ h)
      rcases ih rest.length hlt rest hrest rfl with ⟨tokens, rfl⟩ | ⟨tokens, rfl⟩ | hends
      · exact .inl ⟨token :: tokens, hfmt⟩
      · refine .inr (.inl ⟨token :: tokens, ?_⟩)
        rw [hfmt, spell, spell, List.flatMap_cons, List.append_assoc]
      · exact .inr (.inr (hfmt ▸ hends.cons token))
    match fmt with
    | [] => exact .inl ⟨[], rfl⟩
    | ch :: text =>
      rw [List.mem_cons, not_or] at hnul
      by_cases hch : ch = '%'.toUInt8
      · subst hch
        rcases conversion_cases text hnul.2 with rfl | ⟨modifier, hne, rfl⟩ |
          ⟨modifier, letter, rest, hletter, hends, rfl⟩
        · exact .inr (.inl ⟨[], rfl⟩)
        · exact .inr (.inr ⟨[], modifier, hne, rfl⟩)
        · apply hcons (.conversion modifier letter ⟨hletter, hends⟩) rest
          · simp [Token.text]
          · simp [Token.text]
      · exact hcons (.literal ch ⟨Ne.symm hnul.1, hch⟩) text rfl Nat.one_pos

/-! ### The whole format -/

variable (tokens : List Token)

/-- The sink and the arguments when the tokens are done, and the bytes that are left then. -/
lemma formatFrom_spell (h : sink.Fits) (args : VaList) (rest : List UInt8) {k : ℕ}
    (hk : k ≤ rest.length) :
    ∃ fuel, formatFrom strings (spell tokens ++ rest) ((spell tokens ++ rest).length + 1) 0 sink args =
        formatFrom strings (spell tokens ++ rest) (fuel + 1 + k) (spell tokens).length
          (sink.put (expansion strings args tokens)) (expandFrom strings args tokens).2 ∧
      (spell tokens ++ rest).drop (spell tokens).length = rest := by
  have hle := length_tokens_le tokens
  have hrounds : (spell tokens ++ rest).length + 1 =
      tokens.length + ((spell tokens).length - tokens.length + (rest.length - k) + 1 + k) := by
    rw [List.length_append]
    omega
  have hfmt : (spell tokens ++ rest).drop 0 = spell tokens ++ rest := List.drop_zero
  refine ⟨(spell tokens).length - tokens.length + (rest.length - k), ?_, List.drop_left⟩
  rw [hrounds, (formatFrom_tokens strings h args tokens hfmt).1, Nat.zero_add]
  rfl

lemma formatFrom_complete (h : sink.Fits) (args : VaList) :
    formatFrom strings (spell tokens ++ [0]) ((spell tokens ++ [0]).length + 1) 0 sink args =
      .ok (sink.put (expansion strings args tokens)) := by
  obtain ⟨fuel, hrun, hend⟩ := formatFrom_spell strings tokens h args [0] (Nat.zero_le _)
  rw [hrun, Nat.add_zero, formatFrom, (byteAt_of_drop hend).1, ok_bind, if_pos rfl]
  rfl

lemma formatFrom_percent (h : sink.Fits) (args : VaList) :
    formatFrom strings (spell tokens ++ ['%'.toUInt8, 0])
        ((spell tokens ++ ['%'.toUInt8, 0]).length + 1) 0 sink args =
      .ok (sink.put (expansion strings args tokens ++ ['%'.toUInt8])) := by
  obtain ⟨fuel, hrun, hend⟩ :=
    formatFrom_spell strings tokens h args ['%'.toUInt8, 0] (Nat.zero_le _)
  obtain ⟨hread, hrest⟩ := byteAt_of_drop hend
  rw [hrun, Nat.add_zero, formatFrom, hread, ok_bind, if_neg (by decide), if_neg (not_not_intro rfl),
    (byteAt_of_drop hrest).1, ok_bind, if_pos rfl, sinkPutc_eq (h.put _), FormatSink.put_append]

/-- After a modifier the terminator is taken for the conversion letter, and the loop goes on behind
it. -/
lemma formatFrom_modifier (h : sink.Fits) (args : VaList) {modifier : Modifier}
    (hne : modifier ≠ .none) :
    formatFrom strings (spell tokens ++ '%'.toUInt8 :: (modifier.text ++ [0]))
        ((spell tokens ++ '%'.toUInt8 :: (modifier.text ++ [0])).length + 1) 0 sink args = fault := by
  obtain ⟨fuel, hrun, hend⟩ := formatFrom_spell strings tokens h args
    ('%'.toUInt8 :: (modifier.text ++ [0])) (Nat.le_add_left 1 _)
  have hends : modifier.Ends 0 := by
    cases modifier <;> simp [Modifier.Ends] <;> decide
  have hmore : modifier.text ++ [0] ≠ [0] := by
    cases modifier with
    | none => exact absurd rfl hne
    | l | ll | z => simp [Modifier.text]
  obtain ⟨hround, hrest⟩ := formatFrom_conversion strings (fuel + 1) (h.put _) _ hend hends hmore
  rw [hrun, hround, formatFrom, byteAt_of_drop_nil hrest]
  rfl

end Xbks
