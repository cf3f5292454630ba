import Xbks.Process.View

/-!
# Arguments in user memory

The buffers, strings and arrays of strings that the registers of a system call point to. An argument
touches an unmapped page when one of its bytes is not in the memory of the process. The range check of
the kernel refuses some of the arguments, and copying a string or an array stops at the first byte
that is not mapped.
-/

namespace Xbks

variable {m : Memory UInt8} {k k' : Kernel} {source : UInt64} {a n : ℕ}

/-- What a register points to. -/
inductive Argument
  | buffer (address length : UInt64)
  | string (address : UInt64)
  | strings (address : UInt64) (limit : ℕ)

/-! ### Unmapped pages -/

/-- One of the bytes up to the end of the string is not mapped. -/
def StringTouches (m : Memory UInt8) (a : ℕ) : Prop :=
  ∃ n < maxString, Unended m a n ∧ m (a + n) = none

/-- One of the pointers up to the null pointer at the end is not mapped, or a string is not. -/
def ArrayTouches (m : Memory UInt8) : ℕ → ℕ → Prop
  | 0, _ => False
  | remaining + 1, a =>
    match m.load a 8 with
    | none => True
    | some bytes => wordOfBytes bytes ≠ 0 ∧
      (StringTouches m (wordOfBytes bytes).toNat ∨ ArrayTouches m remaining (a + 8))

def Argument.Touches (m : Memory UInt8) : Argument → Prop
  | .buffer address length => ¬m.Has address.toNat length.toNat
  | .string address => StringTouches m address.toNat
  | .strings address limit => address ≠ 0 ∧ ArrayTouches m limit address.toNat

/-! ### What the kernel refuses -/

/-- The string is too long, or goes on outside the user's part. -/
def StringRefused (m : Memory UInt8) (source : UInt64) : Prop :=
  ∃ n ≤ maxString, Unended m source.toNat n ∧ (n = maxString ∨ ¬InUser source n)

/-- The array has too many strings, or goes on outside the user's part, or one of its strings is
refused, and everything before that is mapped. -/
def ArrayRefused (m : Memory UInt8) : ℕ → ℕ → Prop
  | 0, _ => True
  | remaining + 1, a =>
    if 65536 ≤ a ∧ a + 8 ≤ 2 ^ 47 then
      match m.load a 8 with
      | none => False
      | some bytes => wordOfBytes bytes ≠ 0 ∧ (StringRefused m (wordOfBytes bytes) ∨
        ¬StringTouches m (wordOfBytes bytes).toNat ∧ ArrayRefused m remaining (a + 8))
    else True

def Argument.Refused (m : Memory UInt8) : Argument → Prop
  | .buffer address length => userRangeIsValid address length = false
  | .string address => StringRefused m address
  | .strings address limit => address ≠ 0 ∧ ArrayRefused m limit address.toNat

/-- One of the arguments is refused, and those before it are mapped. -/
def FirstRefused (m : Memory UInt8) : List Argument → Prop
  | [] => False
  | arg :: rest => arg.Refused m ∨ ¬arg.Touches m ∧ FirstRefused m rest

/-! ### Copying -/

/-- How copying an argument ends. -/
inductive CopyEnds {α : Type} (k : Kernel) (touches refused : Prop) :
    Except Stop (Option α) × Kernel → Prop
  | copied {value : α} {k' : Kernel} (hmapped : ¬touches) (hfits : ¬refused) (hreads : Reads k k') :
      CopyEnds k touches refused (.ok (some value), k')
  | refused {k' : Kernel} (h : refused) (hreads : Reads k k') : CopyEnds k touches refused (.ok none, k')
  | faults {stop : Stop} {k' : Kernel} (h : touches) (hfits : ¬refused) :
      CopyEnds k touches refused (.error stop, k')

/-- A string that is not refused in the user's part below `n`. -/
lemma not_stringRefused (hlow : 65536 ≤ source.toNat) (hn : n < maxString) (hlt : source.toNat + n < 2 ^ 47)
    (hle : ∀ j, Unended m source.toNat j → j ≤ n) : ¬StringRefused m source := by
  rintro ⟨j, -, hunended, rfl | hout⟩
  · have := hle _ hunended
    omega
  · have := hle _ hunended
    exact hout ⟨by omega, by omega⟩

lemma copyUserString_copies (source : UInt64) (k : Kernel) :
    CopyEnds k (StringTouches k.view source.toNat) (StringRefused k.view source)
      (copyUserString maxString source k) := by
  have hends := copyUserString_ends (k := k) (show 0 < maxString by norm_num) (by norm_num) source
  generalize copyUserString maxString source k = r at hends
  cases hends with
  | @copied text k' hlow h hlen hreads =>
    have hlt : source.toNat + text.length < 2 ^ 47 := by
      by_contra hout
      have hnone : k.view (source.toNat + text.length) = none := if_neg hout
      rw [h.ended] at hnone
      cases hnone
    refine .copied ?_ (not_stringRefused hlow hlen hlt fun j hj => hj.le h) hreads
    rintro ⟨n, -, hunended, hnone⟩
    have hle := hunended.le h
    by_cases heq : n = text.length
    · rw [heq, h.ended] at hnone
      cases hnone
    · rw [h.bytes n (by omega), List.getElem?_eq_getElem (by omega)] at hnone
      cases hnone
  | @refused n k' h hend hreads =>
    refine .refused ⟨n, ?_, h, hend.imp id And.right⟩ hreads
    rcases hend with rfl | ⟨hlt, -⟩
    · exact le_refl _
    · exact hlt.le
  | @faults n address k' hlow h hn hin hnone =>
    refine .faults ⟨n, hn, h, hnone⟩ (not_stringRefused hlow hn hin.2 fun j hj => ?_)
    by_contra hlt
    obtain ⟨c, -, hc⟩ := hj n (by omega)
    rw [hnone] at hc
    cases hc

lemma CopyEnds.of_reads {α : Type} {touches refused touches' refused' : Prop}
    {r : Except Stop (Option α) × Kernel} (hreads : Reads k k') (h : CopyEnds k' touches' refused' r)
    (ht : touches ↔ touches') (hr : refused ↔ refused') : CopyEnds k touches refused r := by
  cases h with
  | copied hmapped hfits hreads' =>
    exact .copied (mt ht.mp hmapped) (mt hr.mp hfits) (hreads.trans hreads')
  | refused h hreads' => exact .refused (hr.mpr h) (hreads.trans hreads')
  | faults h hfits => exact .faults (ht.mpr h) (mt hr.mp hfits)

section Array

variable {remaining : ℕ} {bytes : List UInt8}

lemma arrayTouches_some (remaining : ℕ) (h : m.load a 8 = some bytes) : ArrayTouches m (remaining + 1) a ↔
    wordOfBytes bytes ≠ 0 ∧
      (StringTouches m (wordOfBytes bytes).toNat ∨ ArrayTouches m remaining (a + 8)) := by
  rw [ArrayTouches, h]

lemma arrayRefused_some (remaining : ℕ) (hin : 65536 ≤ a ∧ a + 8 ≤ 2 ^ 47) (h : m.load a 8 = some bytes) :
    ArrayRefused m (remaining + 1) a ↔ wordOfBytes bytes ≠ 0 ∧ (StringRefused m (wordOfBytes bytes) ∨
      ¬StringTouches m (wordOfBytes bytes).toNat ∧ ArrayRefused m remaining (a + 8)) := by
  rw [ArrayRefused, if_pos hin, h]

lemma copyUserStringArrayFrom_copies {userValues : UInt64} {count : ℕ} {strings : List CString}
    (hcount : count + remaining ≤ 2 ^ 32) (hlt : count = 0 ∨ userValues.toNat < 2 ^ 47) :
    CopyEnds k (ArrayTouches k.view remaining (userValues.toNat + 8 * count))
      (ArrayRefused k.view remaining (userValues.toNat + 8 * count))
      (copyUserStringArrayFrom userValues remaining count strings k) := by
  induction remaining generalizing k count strings with
  | zero => exact .refused trivial (.refl k)
  | succ remaining ih =>
    have hno : userValues.toNat + 8 * count < 2 ^ 64 := by
      have := userValues.toNat_lt
      omega
    have hvalid : userRangeIsValid (userValues + UInt64.ofNat (8 * count)) 8 = true ↔
        65536 ≤ userValues.toNat + 8 * count ∧ userValues.toNat + 8 * count + 8 ≤ 2 ^ 47 :=
      userRangeIsValid_add (by decide) hno
    rw [copyUserStringArrayFrom]
    by_cases hin : 65536 ≤ userValues.toNat + 8 * count ∧ userValues.toNat + 8 * count + 8 ≤ 2 ^ 47
    · rw [if_pos (hvalid.mpr hin), Prog.bind_apply]
      have hends : LoadEnds k (userValues.toNat + 8 * count) 8 (readUserBytes userValues (8 * count) 8 k) :=
        readUserBytes_ends hin.1 hin.2
      generalize readUserBytes userValues (8 * count) 8 k = r at hends
      cases hends with
      | faults h =>
        refine .faults ?_ fun hrefused => ?_
        · rw [ArrayTouches, h]
          trivial
        · rw [ArrayRefused, if_pos hin, h] at hrefused
          exact hrefused
      | @done bytes k₁ h hreads =>
        have htouches := arrayTouches_some remaining h
        have hrefused := arrayRefused_some remaining hin h
        dsimp only
        by_cases hzero : wordOfBytes bytes = 0
        · rw [if_pos hzero]
          exact .copied (fun ht => (htouches.mp ht).1 hzero) (fun hr => (hrefused.mp hr).1 hzero) hreads
        · rw [if_neg hzero, Prog.bind_apply]
          have hstring := copyUserString_copies (wordOfBytes bytes) k₁
          rw [hreads.view] at hstring
          generalize copyUserString maxString (wordOfBytes bytes) k₁ = r at hstring
          cases hstring with
          | faults h hfits =>
            refine .faults (htouches.mpr ⟨hzero, .inl h⟩) fun hr => ?_
            exact (hrefused.mp hr).2.elim hfits fun hrest => hrest.1 h
          | refused h hreads' => exact .refused (hrefused.mpr ⟨hzero, .inl h⟩) (hreads.trans hreads')
          | @copied text k₂ hmapped hfits hreads' =>
            have hnext : userValues.toNat + 8 * count + 8 = userValues.toNat + 8 * (count + 1) := by omega
            rw [hnext] at htouches hrefused
            refine .of_reads (hreads.trans hreads') (ih (by omega) (.inr (by omega))) ?_ ?_
            · rw [(hreads.trans hreads').view, htouches]
              simp only [hzero, hmapped, ne_eq, not_false_eq_true, true_and, false_or]
            · rw [(hreads.trans hreads').view, hrefused]
              simp only [hzero, hmapped, hfits, ne_eq, not_false_eq_true, true_and, false_or]
    · rw [if_neg (mt hvalid.mp hin)]
      refine .refused ?_ (.refl k)
      rw [ArrayRefused, if_neg hin]
      trivial

lemma copyUserStringArray_copies (userValues : UInt64) {limit : ℕ} (hlimit : limit ≤ 2 ^ 32) (k : Kernel) :
    CopyEnds k ((Argument.strings userValues limit).Touches k.view)
      ((Argument.strings userValues limit).Refused k.view) (copyUserStringArray limit userValues k) := by
  rw [copyUserStringArray]
  by_cases hzero : userValues = 0
  · rw [if_pos hzero]
    exact .copied (fun h => h.1 hzero) (fun h => h.1 hzero) (.refl k)
  · rw [if_neg hzero]
    have hends : CopyEnds k (ArrayTouches k.view limit (userValues.toNat + 8 * 0))
        (ArrayRefused k.view limit (userValues.toNat + 8 * 0))
        (copyUserStringArrayFrom userValues limit 0 [] k) :=
      copyUserStringArrayFrom_copies (by omega) (.inl rfl)
    refine .of_reads (.refl k) hends ?_ ?_
    · exact and_iff_right hzero
    · exact and_iff_right hzero

end Array

/-! ### Buffers -/

/-- The address space is intact, and the `n` bytes from `a` on are mapped. -/
def Mapped (a n : ℕ) (k : Kernel) : Prop := Intact k ∧ k.view.Has a n

section Buffer

variable {base : UInt64} {index : ℕ}

/-- Changes outside the memory. -/
lemma Mapped.congr (h : Mapped a n k) (hmm : k'.mm = k.mm) (hcr3 : k'.cr3 = k.cr3) : Mapped a n k' := by
  rw [Mapped, Intact, Kernel.view, hmm, hcr3]
  exact h

lemma Mapped.mapped (h : Mapped a n k) (hge : a ≤ base.toNat + index) (hlt : base.toNat + index < a + n) :
    k.view (base.toNat + index) ≠ none := h.2 _ hge hlt

lemma returns_writeUser (hin : InUser base index) (hge : a ≤ base.toNat + index)
    (hlt : base.toNat + index < a + n) (b : UInt8) : Prog.Returns (Mapped a n) (writeUser base index b) := by
  intro k hk
  have hbyte := hk.mapped hge hlt
  obtain ⟨k', hwrite, hstored⟩ := writeUser_some hk.1 hin hbyte b
  refine ⟨(), k', hwrite, hstored.intact, ?_⟩
  rw [hstored.has_iff (Memory.has_succ.mpr ⟨hbyte, Memory.has_zero⟩)]
  exact hk.2

lemma returns_readUser (hin : InUser base index) (hge : a ≤ base.toNat + index)
    (hlt : base.toNat + index < a + n) : Prog.Returns (Mapped a n) (readUser base index) := by
  intro k hk
  obtain ⟨b, hb⟩ := Option.ne_none_iff_exists'.mp (hk.mapped hge hlt)
  exact ⟨b, _, readUser_some hin hb, hk.congr rfl rfl⟩

variable {count : UInt64}

/-- A byte of a buffer that passed the range check. -/
lemma returns_writeUser_of_valid (hvalid : userRangeIsValid base count = true) (hi : index < count.toNat)
    (b : UInt8) : Prog.Returns (Mapped base.toNat count.toNat) (writeUser base index b) :=
  returns_writeUser (inUser_of_valid hvalid hi) (by omega) (by omega) b

lemma returns_writeUserBytes (hvalid : userRangeIsValid base count = true) {bytes : List UInt8}
    (hlen : index + bytes.length ≤ count.toNat) :
    Prog.Returns (Mapped base.toNat count.toNat) (writeUserBytes base index bytes) := by
  induction bytes generalizing index with
  | nil => exact Prog.returns_pure _
  | cons b rest ih =>
    rw [List.length_cons] at hlen
    exact Prog.returns_bind (returns_writeUser_of_valid hvalid (by omega) b) fun _ => ih (by omega)

lemma returns_readKeyboard (hvalid : userRangeIsValid base count = true) {remaining : ℕ}
    (hlen : index + remaining ≤ count.toNat) :
    Prog.Returns (Mapped base.toNat count.toNat) (readKeyboard base remaining index) := by
  have hkey : Prog.Returns (Mapped base.toNat count.toNat) keyboardReadCharBlocking :=
    Prog.returns_bind Prog.returns_get fun _ =>
      Prog.returns_bind (Prog.returns_modify fun _ hk => hk.congr rfl rfl) fun _ => Prog.returns_pure _
  induction remaining generalizing index with
  | zero => exact Prog.returns_pure _
  | succ remaining ih =>
    refine Prog.returns_bind hkey fun c => ?_
    exact Prog.returns_bind (returns_writeUser_of_valid hvalid (by omega) c) fun _ => ih (by omega)

lemma returns_forUserBytes (hvalid : userRangeIsValid base count = true)
    (device : UInt8 → Console → Console) {remaining : ℕ} (hlen : index + remaining ≤ count.toNat) :
    Prog.Returns (Mapped base.toNat count.toNat) (forUserBytes base device remaining index) := by
  induction remaining generalizing index with
  | zero => exact Prog.returns_pure _
  | succ remaining ih =>
    have hin := inUser_of_valid hvalid (i := index) (by omega)
    refine Prog.returns_bind (returns_readUser hin (by omega) (by omega)) fun b => ?_
    exact Prog.returns_bind (Prog.returns_modify fun _ hk => hk.congr rfl rfl) fun _ => ih (by omega)

lemma returns_consoleWrite (hvalid : userRangeIsValid base count = true) :
    Prog.Returns (Mapped base.toNat count.toNat) (consoleWrite base count) := by
  have hall : ∀ device, Prog.Returns (Mapped base.toNat count.toNat)
      (forUserBytes base device count.toNat 0) := fun device =>
    returns_forUserBytes hvalid device (by omega)
  refine Prog.returns_bind (hall _) fun _ => Prog.returns_bind (hall _) fun _ => ?_
  exact Prog.returns_bind Prog.returns_get fun k =>
    Prog.returns_ite (fun _ => hall _) fun _ => Prog.returns_pure _

lemma returns_writeUnameFields (hvalid : userRangeIsValid base (6 * 65) = true) {field : ℕ}
    {texts : List CString} (hfields : field + texts.length ≤ 6) (hshort : ∀ text ∈ texts, text.length < 65) :
    Prog.Returns (Mapped base.toNat (6 * 65 : UInt64).toNat) (writeUnameFields base field texts) := by
  induction texts generalizing field with
  | nil => exact Prog.returns_pure _
  | cons text rest ih =>
    obtain ⟨htext, hrest⟩ := List.forall_mem_cons.mp hshort
    rw [List.length_cons] at hfields
    have hsize : (6 * 65 : UInt64).toNat = 390 := rfl
    refine Prog.returns_bind (returns_writeUserBytes hvalid ?_) fun _ => ih (by omega) hrest
    rw [List.length_append, List.length_singleton]
    omega

end Buffer

end Xbks
