import Mathlib.Data.UInt
import Xbks.Lib.Checked
import Xbks.Lib.Memory

/-!
# Memory and strings

`lib/string.c` over a memory in which only some addresses hold a byte. An access to any other address is a fault.
-/

namespace Xbks

open Checked

variable {b : UInt8} {rest : List UInt8}

def loadByte (m : Memory UInt8) (a : ℕ) : Checked UInt8 := (m a).elim fault pure

def replaceByte (m : Memory UInt8) (a : ℕ) (b : UInt8) : Checked (Memory UInt8) :=
  if m a = none then fault else pure (m.store a [b])

/-! ### Memory -/

/-- The loop of `memset` from index `i` on. -/
def memsetFrom (dest : ℕ) (value : UInt8) : ℕ → ℕ → Memory UInt8 → Checked (Memory UInt8)
  | 0, _, m => pure m
  | remaining + 1, i, m => do
    let m ← replaceByte m (dest + i) value
    memsetFrom dest value remaining (i + 1) m

/-- The value is an `int` of which the low byte counts. -/
def memset (m : Memory UInt8) (dest : ℕ) (value : ℤ) (count : ℕ) : Checked (Memory UInt8) :=
  memsetFrom dest (UInt8.ofInt value) count 0 m

/-- `out[i] = in[i]`. -/
def copyByte (dest src i : ℕ) (m : Memory UInt8) : Checked (Memory UInt8) := do
  let b ← loadByte m (src + i)
  replaceByte m (dest + i) b

/-- The loop that copies from index `i` upwards. -/
def copyUp (dest src : ℕ) : ℕ → ℕ → Memory UInt8 → Checked (Memory UInt8)
  | 0, _, m => pure m
  | remaining + 1, i, m => do
    let m ← copyByte dest src i m
    copyUp dest src remaining (i + 1) m

/-- The loop that copies downwards the bytes below index `i`. -/
def copyDown (dest src : ℕ) : ℕ → Memory UInt8 → Checked (Memory UInt8)
  | 0, m => pure m
  | i + 1, m => do
    let m ← copyByte dest src i m
    copyDown dest src i m

def memcpy (m : Memory UInt8) (dest src count : ℕ) : Checked (Memory UInt8) := copyUp dest src count 0 m

def memmove (m : Memory UInt8) (dest src count : ℕ) : Checked (Memory UInt8) :=
  if dest = src ∨ count = 0 then pure m
  else if dest < src then copyUp dest src count 0 m
  else copyDown dest src count m

/-- The loop of `memcmp` from index `i` on. -/
def memcmpFrom (m : Memory UInt8) (lhs rhs : ℕ) : ℕ → ℕ → Checked ℤ
  | 0, _ => pure 0
  | remaining + 1, i => do
    let left ← loadByte m (lhs + i)
    let right ← loadByte m (rhs + i)
    if left ≠ right then pure (left.toNat - right.toNat) else memcmpFrom m lhs rhs remaining (i + 1)

def memcmp (m : Memory UInt8) (lhs rhs count : ℕ) : Checked ℤ := memcmpFrom m lhs rhs count 0

/-! ### Strings -/

/-- The text in some bytes: it ends before the first 0. -/
def cText (bytes : List UInt8) : List UInt8 := bytes.takeWhile (· ≠ 0)

lemma cText_zero : cText (0 :: rest) = [] := List.takeWhile_cons_of_neg (by decide)

lemma cText_cons (h : b ≠ 0) : cText (b :: rest) = b :: cText rest :=
  List.takeWhile_cons_of_pos (decide_eq_true h)

/-- No object has more bytes than there are addresses. -/
abbrev addressSpace : ℕ := 2 ^ 64

/-- The loop of `strlen`. -/
def strlenFrom (m : Memory UInt8) (text : ℕ) : ℕ → ℕ → Checked ℕ
  | 0, _ => fault
  | fuel + 1, length => do
    let b ← loadByte m (text + length)
    if b ≠ 0 then strlenFrom m text fuel (length + 1) else pure length

def strlen (m : Memory UInt8) (text : ℕ) : Checked ℕ := strlenFrom m text addressSpace 0

/-- The loop of `strcmp` with both pointers moved by `i`. -/
def strcmpFrom (m : Memory UInt8) (lhs rhs : ℕ) : ℕ → ℕ → Checked ℤ
  | 0, _ => fault
  | fuel + 1, i => do
    let left ← loadByte m (lhs + i)
    let right ← loadByte m (rhs + i)
    if left ≠ 0 ∧ left = right then strcmpFrom m lhs rhs fuel (i + 1) else pure (left.toNat - right.toNat)

def strcmp (m : Memory UInt8) (lhs rhs : ℕ) : Checked ℤ := strcmpFrom m lhs rhs addressSpace 0

/-- The loop of `strncmp` from index `i` on. -/
def strncmpFrom (m : Memory UInt8) (lhs rhs : ℕ) : ℕ → ℕ → Checked ℤ
  | 0, _ => pure 0
  | remaining + 1, i => do
    let left ← loadByte m (lhs + i)
    let right ← loadByte m (rhs + i)
    if left ≠ right ∨ left = 0 then pure (left.toNat - right.toNat)
    else strncmpFrom m lhs rhs remaining (i + 1)

def strncmp (m : Memory UInt8) (lhs rhs count : ℕ) : Checked ℤ := strncmpFrom m lhs rhs count 0

end Xbks
