import Xbks.Lib.Prog
import Xbks.Process.Loader

/-!
# Access to user memory

System calls run in the address space of the calling process and follow the pointers it supplied.
Every byte goes through the page tables in `cr3`. There is no page-fault handler, so an access to
an unmapped page stops the machine, and so does, in the model, an access beyond the user half.
-/

namespace Xbks

/-- Why a system call does not return. -/
inductive Stop
  | pageFault (address : UInt64)
  | wild (address : UInt64)
  | halt
  deriving DecidableEq, Repr

abbrev KernelM := Prog Kernel Stop

/-- The physical address behind byte `index` of what the user pointer `base` points to. -/
def userPhysical (base : UInt64) (index : ℕ) : KernelM UInt64 := fun k =>
  let address := base + UInt64.ofNat index
  let k := { k with accesses := k.accesses ++ [base.toNat + index] }
  if address ≥ userTop then (.error (.wild address), k)
  else
    match vmmTranslate k.mm k.cr3 address with
    | none => (.error (.pageFault address), k)
    | some physical => (.ok physical, k)

def readUser (base : UInt64) (index : ℕ) : KernelM UInt8 := do
  let physical ← userPhysical base index
  let k ← Prog.get
  return k.mm.byte physical

def writeUser (base : UInt64) (index : ℕ) (value : UInt8) : KernelM Unit := do
  let physical ← userPhysical base index
  Prog.modify fun k => { k with mm := k.mm.setByte physical value }

/-- Store consecutive bytes from `index` on. -/
def writeUserBytes (base : UInt64) : ℕ → List UInt8 → KernelM Unit
  | _, [] => return ()
  | index, b :: rest => do
    writeUser base index b
    writeUserBytes base (index + 1) rest

/-- Load `count` consecutive bytes from `index` on. -/
def readUserBytes (base : UInt64) : ℕ → ℕ → KernelM (List UInt8)
  | _, 0 => return []
  | index, count + 1 => do
    let b ← readUser base index
    let rest ← readUserBytes base (index + 1) count
    return b :: rest

/-- The little-endian value of eight bytes. -/
def wordOfBytes (bytes : List UInt8) : UInt64 :=
  bytes.foldr (fun b value => (value <<< 8) ||| b.toUInt64) 0

/-! ### Strings -/

/-- The loop of `copy_user_string` at index `i`, with the characters copied so far. -/
def copyUserStringFrom (source : UInt64) : ℕ → ℕ → CString → KernelM (Option CString)
  | 0, _, _ => return none
  | remaining + 1, i, dest =>
    if userRangeIsValid (source + UInt64.ofNat i) 1 then do
      let c ← readUser source i
      if c = 0 then return some dest
      else copyUserStringFrom source remaining (i + 1) (dest ++ [c])
    else return none

def copyUserString (capacity : ℕ) (source : UInt64) : KernelM (Option CString) :=
  if capacity = 0 ∨ ¬userRangeIsValid source 1 then return none
  else copyUserStringFrom source capacity 0 []

/-- The loop of `copy_user_string_array` with the strings copied so far. -/
def copyUserStringArrayFrom (userValues : UInt64) : ℕ → ℕ → List CString →
    KernelM (Option (List CString))
  | 0, _, _ => return none
  | remaining + 1, count, strings =>
    if userRangeIsValid (userValues + UInt64.ofNat (8 * count)) 8 then do
      let bytes ← readUserBytes userValues (8 * count) 8
      let value := wordOfBytes bytes
      if value = 0 then return some strings
      else do
        match ← copyUserString maxString value with
        | none => return none
        | some text =>
          copyUserStringArrayFrom userValues remaining (count + 1) (strings ++ [text])
    else return none

def copyUserStringArray (maxStrings : ℕ) (userValues : UInt64) :
    KernelM (Option (List CString)) :=
  if userValues = 0 then return some []
  else copyUserStringArrayFrom userValues maxStrings 0 []

end Xbks
