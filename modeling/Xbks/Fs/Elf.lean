import Xbks.Lib.Memory
import Xbks.Process.Loader

/-!
# The arena loader

`fs/elf.c` loads an ELF file into an arena of kernel memory: one pass over the program headers checks
them and finds the lowest and the highest address, a second one copies the segments. The addresses
that are read and written are recorded. The file does not lie in the arena, so its header stays as it
was read.
-/

namespace Xbks

/-- Kernel memory, and the addresses read and written so far. -/
structure ArenaMemory where
  bytes : KernelMemory
  reads : List UInt64
  writes : List UInt64

namespace ArenaMemory

variable (m : ArenaMemory)

def noteReads (address : UInt64) (n : ℕ) : ArenaMemory :=
  { m with reads := m.reads ++ (List.range n).map fun i => address + UInt64.ofNat i }

def put (address : UInt64) (b : UInt8) : ArenaMemory :=
  { m with bytes := Function.update m.bytes address b, writes := m.writes ++ [address] }

def memset (dest : UInt64) (value : UInt8) (count : ℕ) : ArenaMemory :=
  (List.range count).foldl (fun m i => m.put (dest + UInt64.ofNat i) value) m

def memcpy (dest src : UInt64) (count : ℕ) : ArenaMemory :=
  (List.range count).foldl (fun m i =>
    (m.noteReads (src + UInt64.ofNat i) 1).put (dest + UInt64.ofNat i) (m.bytes (src + UInt64.ofNat i))) m

end ArenaMemory

/-- `struct xbks_elf_image`. -/
structure ElfImage where
  entry : UInt64
  base : UInt64
  size : UInt64
  deriving DecidableEq

/-- The header with the field `e_type`, which `kernel/process.c` does not look at. -/
structure Elf64Ehdr extends ElfHeader where
  type : UInt16
  deriving DecidableEq

def Elf64Ehdr.read (kmem : KernelMemory) (address : UInt64) : Elf64Ehdr :=
  { ElfHeader.read kmem address with type := read16 kmem (address + 16) }

abbrev uint64Max : UInt64 := 0xffffffffffffffff

def addOverflowsU64 (lhs rhs : UInt64) : Bool := uint64Max - lhs < rhs

def validateElfHeader (m : ArenaMemory) (file : Option RamdiskFile) :
    Option (RamdiskFile × Elf64Ehdr) × ArenaMemory :=
  match file with
  | none => (none, m)
  | some file =>
    if file.data = 0 ∨ file.directory ∨ file.size < ehdrSize then (none, m)
    else
      let header := Elf64Ehdr.read m.bytes file.data
      let m := m.noteReads file.data 64
      if header.ident ≠ [0x7f, 0x45, 0x4c, 0x46, 2, 1] ∨ (header.type ≠ 2 ∧ header.type ≠ 3) ∨
          header.machine ≠ 62 ∨ header.phentsize ≠ 56 ∨ header.phnum = 0 then (none, m)
      else if header.phoff > file.size ∨
          header.phnum.toUInt64 > (uint64Max - header.phoff) / phdrSize ∨
          header.phoff + header.phnum.toUInt64 * phdrSize > file.size then (none, m)
      else (some (file, header), m)

/-- `min_vaddr`, `max_vaddr` and `found_load_segment`. -/
structure LoadRange where
  minVaddr : UInt64
  maxVaddr : UInt64
  found : Bool
  deriving DecidableEq

section

variable (file : RamdiskFile) (header : Elf64Ehdr)

def phdrAddress (i : ℕ) : UInt64 := file.data + header.phoff + UInt64.ofNat (56 * i)

/-- The checks of the first loop on a segment. -/
def ProgramHeader.fits (phdr : ProgramHeader) (size : UInt64) : Bool :=
  ¬(phdr.memsz < phdr.filesz ∨ addOverflowsU64 phdr.offset phdr.filesz ∨
    phdr.offset + phdr.filesz > size ∨ addOverflowsU64 phdr.vaddr phdr.memsz)

/-- The range with that of a segment. -/
def LoadRange.include (range : LoadRange) (phdr : ProgramHeader) : LoadRange :=
  { minVaddr := if phdr.vaddr < range.minVaddr then phdr.vaddr else range.minVaddr
    maxVaddr := if phdr.vaddr + phdr.memsz > range.maxVaddr then phdr.vaddr + phdr.memsz
      else range.maxVaddr
    found := true }

/-- The body of the first loop. -/
def scanSegment (s : ArenaMemory × LoadRange) (i : ℕ) : Bool × ArenaMemory × LoadRange :=
  let phdr := ProgramHeader.read s.1.bytes (phdrAddress file header i)
  let m := s.1.noteReads (phdrAddress file header i) 56
  if phdr.type ≠ 1 then (true, m, s.2)
  else if ¬phdr.fits file.size then (false, m, s.2)
  else (true, m, s.2.include phdr)

/-- The body of the second loop. -/
def copySegment (arenaBase arenaSize minVaddr : UInt64) (m : ArenaMemory) (i : ℕ) :
    Bool × ArenaMemory :=
  let phdr := ProgramHeader.read m.bytes (phdrAddress file header i)
  let m := m.noteReads (phdrAddress file header i) 56
  if phdr.type ≠ 1 then (true, m)
  else
    let relativeVaddr := phdr.vaddr - minVaddr
    if relativeVaddr > arenaSize ∨ phdr.memsz > arenaSize - relativeVaddr then (false, m)
    else (true, m.memcpy (arenaBase + relativeVaddr) (file.data + phdr.offset) phdr.filesz.toNat)

end

/-- `out` is `none` for a null pointer. -/
def xbksElfLoadImage (m : ArenaMemory) (file : Option RamdiskFile) (arenaBase arenaSize : UInt64)
    (out : Option ElfImage) : Bool × Option ElfImage × ArenaMemory :=
  if out = none ∨ arenaBase = 0 ∨ arenaSize = 0 then (false, out, m)
  else
    match validateElfHeader m file with
    | (none, m) => (false, out, m)
    | (some (file, header), m) =>
      match Loop.forWhile (scanSegment file header) (m, ⟨uint64Max, 0, false⟩)
        (List.range header.phnum.toNat) with
      | (false, m, _) => (false, out, m)
      | (true, m, range) =>
        if ¬range.found ∨ range.maxVaddr < range.minVaddr ∨
            range.maxVaddr - range.minVaddr > arenaSize then (false, out, m)
        else if header.entry < range.minVaddr ∨ header.entry ≥ range.maxVaddr then (false, out, m)
        else
          let m := m.memset arenaBase 0 arenaSize.toNat
          match Loop.forWhile (copySegment file header arenaBase arenaSize range.minVaddr) m
            (List.range header.phnum.toNat) with
          | (false, m) => (false, out, m)
          | (true, m) =>
            (true, some
              { entry := arenaBase + (header.entry - range.minVaddr)
                base := arenaBase
                size := range.maxVaddr - range.minVaddr }, m)

end Xbks
