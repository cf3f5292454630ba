import Mathlib.Data.UInt
import Mathlib.Data.List.FinRange
import Mathlib.Logic.Function.Basic
import Xbks.Lib.Loop
import Xbks.Lib.Word

/-!
# The memory manager

The physical frame allocator and the four-level page tables of `mm/mm.c`. Physical memory is a
function from the address of a frame to its 512 words. All frames are reached through the direct
map, so a pointer obtained from `physToVirt` is represented by the physical address it stands for;
only the links of the free list are stored as virtual addresses, as in the source.
-/

namespace Xbks

abbrev pageSize : UInt64 := 4096
abbrev userTop : UInt64 := 0x0000800000000000

abbrev pagePresent : UInt64 := 1
abbrev pageWritable : UInt64 := 2
abbrev pageUser : UInt64 := 4

/-- The bits of an entry that hold the address of a frame. -/
abbrev addressMask : UInt64 := 0x000ffffffffff000

/-- The content of a frame as 512 words. -/
abbrev Page := Fin 512 → UInt64

def zeroPage : Page := fun _ => 0

/-- One byte copied by `writeProcessMemory`: where it went and which source byte it was. -/
structure Copy where
  address : UInt64
  physical : UInt64
  source : ℕ
  deriving DecidableEq

/-- The static variables of `mm.c` and the memory they manage. The last two fields are a record
kept for the proofs: which file bytes the program loader has read and what it has copied. -/
structure Mm where
  mem : UInt64 → Page
  hhdmOffsetValue : UInt64
  kernelCr3Value : UInt64
  freeFrames : UInt64
  freeFrameCount : UInt64
  reads : List ℕ := []
  copies : List Copy := []

def alignUp (value alignment : UInt64) : UInt64 :=
  (value + alignment - 1) &&& ~~~(alignment - 1)

def alignDown (value alignment : UInt64) : UInt64 :=
  value &&& ~~~(alignment - 1)

def physToVirt (s : Mm) (physicalAddress : UInt64) : UInt64 :=
  physicalAddress + s.hhdmOffsetValue

def virtToPhys (s : Mm) (virtualAddress : UInt64) : UInt64 :=
  virtualAddress - s.hhdmOffsetValue

/-! ### Access to frames -/

def Mm.setPage (s : Mm) (frame : UInt64) (page : Page) : Mm :=
  { s with mem := Function.update s.mem frame page }

def Mm.setEntry (s : Mm) (frame : UInt64) (index : Fin 512) (entry : UInt64) : Mm :=
  s.setPage frame (Function.update (s.mem frame) index entry)

/-- Byte `k` of a word, counted from the least significant one. -/
def byteOfWord (w : UInt64) (k : ℕ) : UInt8 :=
  (w >>> UInt64.ofNat (8 * k)).toUInt8

/-- Replace byte `k` of a word. -/
def setByteOfWord (w : UInt64) (k : ℕ) (b : UInt8) : UInt64 :=
  (w &&& ~~~(0xff <<< UInt64.ofNat (8 * k))) ||| (b.toUInt64 <<< UInt64.ofNat (8 * k))

def wordIndex (physical : UInt64) : Fin 512 :=
  Fin.ofNat 512 (physical.toNat % 4096 / 8)

/-- The byte at a physical address. -/
def Mm.byte (s : Mm) (physical : UInt64) : UInt8 :=
  byteOfWord (s.mem (alignDown physical pageSize) (wordIndex physical)) (physical.toNat % 8)

def Mm.setByte (s : Mm) (physical : UInt64) (b : UInt8) : Mm :=
  let frame := alignDown physical pageSize
  s.setEntry frame (wordIndex physical)
    (setByteOfWord (s.mem frame (wordIndex physical)) (physical.toNat % 8) b)

/-! ### Physical frames -/

/-- The state after `frame` has been taken from the head of the free list. -/
def Mm.take (s : Mm) (frame : UInt64) : Mm :=
  { s with
    mem := Function.update s.mem frame zeroPage
    freeFrames := s.mem frame 0
    freeFrameCount := s.freeFrameCount - 1 }

/-- The state after `frame` has been put at the head of the free list. -/
def Mm.put (s : Mm) (frame : UInt64) : Mm :=
  { s.setEntry frame 0 s.freeFrames with
    freeFrames := physToVirt s frame
    freeFrameCount := s.freeFrameCount + 1 }

/-- Answers 0 when no frame is left. -/
def pmmAllocFrame (s : Mm) : UInt64 × Mm :=
  if s.freeFrames = 0 then (0, s)
  else
    let physical := virtToPhys s s.freeFrames
    (physical, { s with
      mem := Function.update s.mem physical zeroPage
      freeFrames := s.mem physical 0
      freeFrameCount := s.freeFrameCount - 1 })

def pmmFreeFrame (s : Mm) (frame : UInt64) : Mm :=
  if frame = 0 then s
  else
    let node := alignDown frame pageSize
    { s.setEntry node 0 s.freeFrames with
      freeFrames := physToVirt s node
      freeFrameCount := s.freeFrameCount + 1 }

/-- The page addresses visited by `for (page = start; page < stop; page += XBKS_PAGE_SIZE)` when
both bounds are page aligned. -/
def pagesBetween (start stop : UInt64) : List UInt64 :=
  (List.range ((stop.toNat - start.toNat) / 4096)).map fun i => start + UInt64.ofNat (4096 * i)

def addUsableRange (s : Mm) (base length : UInt64) : Mm :=
  let start := alignUp base pageSize
  let stop := alignDown (base + length) pageSize
  (pagesBetween start stop).foldl pmmFreeFrame s

/-! ### Page tables -/

/-- The loop over 256..511 reads and writes one index at a time, so it is a single update. -/
def createKernelMappedPml4 (s : Mm) : UInt64 × Mm :=
  match pmmAllocFrame s with
  | (pml4Frame, s) =>
    if pml4Frame = 0 then (0, s)
    else
      let kernelPml4 := s.mem (s.kernelCr3Value &&& ~~~0xfff)
      (pml4Frame, s.setPage pml4Frame fun i =>
        if 256 ≤ i.val then kernelPml4 i else s.mem pml4Frame i)

def pageTableFromEntry (entry : UInt64) : UInt64 :=
  entry &&& addressMask

def ensureNextTable (s : Mm) (table : UInt64) (index : Fin 512) (flags : UInt64) :
    Option UInt64 × Mm :=
  if s.mem table index &&& pagePresent = 0 then
    match pmmAllocFrame s with
    | (frame, s) =>
      if frame = 0 then (none, s)
      else
        let s := s.setEntry table index
          (frame ||| flags ||| pagePresent ||| pageWritable ||| pageUser)
        (some (pageTableFromEntry (s.mem table index)), s)
  else (some (pageTableFromEntry (s.mem table index)), s)

/-- `(virtual_address >> shift) & 0x1ff`. -/
def tableIndex (virtualAddress shift : UInt64) : Fin 512 :=
  Fin.ofNat 512 ((virtualAddress >>> shift) &&& 0x1ff).toNat

def vmmMapPage (s : Mm) (pml4Frame virtualAddress physicalAddress flags : UInt64) : Bool × Mm :=
  let pml4Index := tableIndex virtualAddress 39
  let pdptIndex := tableIndex virtualAddress 30
  let pdIndex := tableIndex virtualAddress 21
  let ptIndex := tableIndex virtualAddress 12
  if virtualAddress &&& (pageSize - 1) ≠ 0 ∨ physicalAddress &&& (pageSize - 1) ≠ 0 then
    (false, s)
  else
    match ensureNextTable s pml4Frame pml4Index flags with
    | (none, s) => (false, s)
    | (some pdpt, s) =>
      match ensureNextTable s pdpt pdptIndex flags with
      | (none, s) => (false, s)
      | (some pd, s) =>
        match ensureNextTable s pd pdIndex flags with
        | (none, s) => (false, s)
        | (some pt, s) =>
          if s.mem pt ptIndex &&& pagePresent ≠ 0 then (false, s)
          else (true, s.setEntry pt ptIndex (physicalAddress ||| flags ||| pagePresent))

/-- The entry at an index of a table when its present bit is set. -/
def presentEntry (s : Mm) (table : UInt64) (index : Fin 512) : Option UInt64 :=
  if s.mem table index &&& pagePresent = 0 then none else some (s.mem table index)

def vmmTranslate (s : Mm) (pml4Frame virtualAddress : UInt64) : Option UInt64 := do
  let pml4Entry ← presentEntry s pml4Frame (tableIndex virtualAddress 39)
  let pdptEntry ← presentEntry s (pageTableFromEntry pml4Entry) (tableIndex virtualAddress 30)
  let pdEntry ← presentEntry s (pageTableFromEntry pdptEntry) (tableIndex virtualAddress 21)
  let ptEntry ← presentEntry s (pageTableFromEntry pdEntry) (tableIndex virtualAddress 12)
  return (ptEntry &&& addressMask) ||| (virtualAddress &&& (pageSize - 1))

/-! ### Copying and tearing down a user address space -/

def clonePageFlags (sourceEntry : UInt64) : UInt64 :=
  sourceEntry &&& 0xfff

/-- The virtual address put together from the four table indices. -/
def joinIndices (pml4Index pdptIndex pdIndex ptIndex : Fin 512) : UInt64 :=
  (UInt64.ofNat pml4Index <<< 39) ||| (UInt64.ofNat pdptIndex <<< 30) |||
    (UInt64.ofNat pdIndex <<< 21) ||| (UInt64.ofNat ptIndex <<< 12)

/-- The lower half of a PML4. -/
def lowerIndices : List (Fin 512) :=
  (List.finRange 512).take 256

/-- The body of the innermost loop of `xbks_vmm_clone_user_space`. -/
def clonePage (destPml4Frame userTop : UInt64) (i j k : Fin 512) (sourcePt : UInt64) (s : Mm)
    (l : Fin 512) : Bool × Mm :=
  let sourceEntry := s.mem sourcePt l
  if sourceEntry &&& pagePresent = 0 then (true, s)
  else
    let virtualAddress := joinIndices i j k l
    if virtualAddress ≥ userTop then (true, s)
    else
      let sourcePhysical := sourceEntry &&& addressMask
      match pmmAllocFrame s with
      | (destPhysical, s) =>
        if destPhysical = 0 then (false, s)
        else
          let s := s.setPage destPhysical (s.mem sourcePhysical)
          match vmmMapPage s destPml4Frame virtualAddress destPhysical
            (clonePageFlags sourceEntry) with
          | (true, s) => (true, s)
          | (false, s) => (false, pmmFreeFrame s destPhysical)

/-- Run `body` on every table that a present entry of `table` points to. -/
def forPresent (table : UInt64) (indices : List (Fin 512))
    (body : Fin 512 → UInt64 → Mm → Bool × Mm) (s : Mm) : Bool × Mm :=
  Loop.forWhile (fun s i =>
    if s.mem table i &&& pagePresent = 0 then (true, s)
    else body i (pageTableFromEntry (s.mem table i)) s) s indices

def vmmCloneUserSpace (s : Mm) (sourcePml4Frame destPml4Frame userTop : UInt64) : Bool × Mm :=
  forPresent sourcePml4Frame lowerIndices (fun i sourcePdpt =>
    forPresent sourcePdpt (List.finRange 512) fun j sourcePd =>
      forPresent sourcePd (List.finRange 512) fun k sourcePt s =>
        Loop.forWhile (clonePage destPml4Frame userTop i j k sourcePt) s (List.finRange 512)) s

/-- The body of the innermost loop of `xbks_vmm_destroy_user_space`. -/
def destroyPage (userTop : UInt64) (i j k : Fin 512) (pt : UInt64) (s : Mm) (l : Fin 512) : Mm :=
  let entry := s.mem pt l
  if entry &&& pagePresent = 0 then s
  else if joinIndices i j k l < userTop then
    (pmmFreeFrame s (entry &&& addressMask)).setEntry pt l 0
  else s

/-- Tear down what every present entry of `table` points to, then free and clear the entry. -/
def destroyEntries (table : UInt64) (indices : List (Fin 512))
    (body : Fin 512 → UInt64 → Mm → Mm) (s : Mm) : Mm :=
  indices.foldl (fun s i =>
    if s.mem table i &&& pagePresent = 0 then s
    else
      let s := body i (pageTableFromEntry (s.mem table i)) s
      (pmmFreeFrame s (s.mem table i &&& addressMask)).setEntry table i 0) s

def vmmDestroyUserSpace (s : Mm) (pml4Frame userTop : UInt64) : Mm :=
  if pml4Frame = 0 then s
  else
    let s := destroyEntries pml4Frame lowerIndices (fun i pdpt =>
      destroyEntries pdpt (List.finRange 512) fun j pd =>
        destroyEntries pd (List.finRange 512) fun k pt s =>
          (List.finRange 512).foldl (destroyPage userTop i j k pt) s) s
    pmmFreeFrame s pml4Frame

/-! ### Initialisation -/

/-- An entry of the boot loader's memory map; only its type `usable` is looked at. -/
structure MemmapEntry where
  base : UInt64
  length : UInt64
  usable : Bool

/-- What the boot loader reports: the offset of the direct map, the memory map, the value of
`cr3` and the content of memory at entry. A missing response is `none`. -/
structure BootMemory where
  mem : UInt64 → Page
  cr3 : UInt64
  hhdm : Option UInt64
  memmap : Option (List MemmapEntry)

def mmInit (boot : BootMemory) : Mm :=
  let s : Mm :=
    { mem := boot.mem, hhdmOffsetValue := 0, kernelCr3Value := boot.cr3 &&& ~~~0xfff,
      freeFrames := 0, freeFrameCount := 0 }
  match boot.hhdm, boot.memmap with
  | none, _ => s
  | some offset, none => { s with hhdmOffsetValue := offset }
  | some offset, some entries =>
    entries.foldl (fun s entry => if entry.usable then addUsableRange s entry.base entry.length else s)
      { s with hhdmOffsetValue := offset }

end Xbks
