import Xbks.Process.Basic

/-!
# The program loader

The part of `kernel/process.c` that builds the address space of a program: mapping user pages,
copying segments and arguments into them through the page tables, and checking ELF headers.
-/

namespace Xbks

/-! ### User pages -/

def userRangeIsValid (address length : UInt64) : Bool :=
  if length = 0 then true
  else if address < userImageMin ∨ address ≥ userTop then false
  else length - 1 < userTop - address

def mapUserPage (s : Mm) (cr3 virtualAddress flags : UInt64) : Bool × Mm :=
  match pmmAllocFrame s with
  | (frame, s) =>
    if frame = 0 then (false, s)
    else
      match vmmMapPage s cr3 virtualAddress frame (flags ||| pageUser) with
      | (true, s) => (true, s)
      | (false, s) => (false, pmmFreeFrame s frame)

def mapUserRange (s : Mm) (cr3 base size flags : UInt64) : Bool × Mm :=
  let start := alignDown base pageSize
  let stop := alignUp (base + size) pageSize
  Loop.forWhile (fun s page => mapUserPage s cr3 page flags) s (pagesBetween start stop)

/-- `memcpy` of `chunk` bytes from the source bytes starting at index `first` to the physical
address `physical`, which `address` translates to. -/
def copyChunk (src : ℕ → UInt8) (s : Mm) (address physical : UInt64) (first : ℕ) : ℕ → Mm
  | 0 => s
  | chunk + 1 =>
    let s := copyChunk src s address physical first chunk
    let k := UInt64.ofNat chunk
    { s.setByte (physical + k) (src (first + chunk)) with
      copies := s.copies ++ [⟨address + k, physical + k, first + chunk⟩] }

/-- The loop of `write_process_memory`. Every iteration copies at least one byte, so `size`
iterations are enough; `first` is the index of the first source byte. -/
def writeProcessMemoryFrom (src : ℕ → UInt8) (cr3 virtualAddress : UInt64) (first size : ℕ) :
    ℕ → Mm → ℕ → Bool × Mm
  | 0, s, _ => (true, s)
  | fuel + 1, s, written =>
    if written < size then
      let address := virtualAddress + UInt64.ofNat written
      let pageOffset := (address &&& (pageSize - 1)).toNat
      let chunk := min (4096 - pageOffset) (size - written)
      match vmmTranslate s cr3 address with
      | none => (false, s)
      | some physical =>
        writeProcessMemoryFrom src cr3 virtualAddress first size fuel
          (copyChunk src s address physical (first + written) chunk) (written + chunk)
    else (true, s)

def writeProcessMemory (s : Mm) (cr3 virtualAddress : UInt64) (src : ℕ → UInt8) (first size : ℕ) :
    Bool × Mm :=
  writeProcessMemoryFrom src cr3 virtualAddress first size size s 0

/-! ### ELF files -/

variable (kmem : KernelMemory)

def read16 (address : UInt64) : UInt16 :=
  (kmem address).toUInt16 ||| (kmem (address + 1)).toUInt16 <<< 8

def read32 (address : UInt64) : UInt32 :=
  (read16 kmem address).toUInt32 ||| (read16 kmem (address + 2)).toUInt32 <<< 16

def read64 (address : UInt64) : UInt64 :=
  (read32 kmem address).toUInt64 ||| (read32 kmem (address + 4)).toUInt64 <<< 32

/-- The fields of `struct elf64_ehdr` that are used. -/
structure ElfHeader where
  ident : List UInt8
  machine : UInt16
  entry : UInt64
  phoff : UInt64
  phentsize : UInt16
  phnum : UInt16
  deriving DecidableEq

def ElfHeader.read (address : UInt64) : ElfHeader :=
  { ident := bytesAt kmem address 6
    machine := read16 kmem (address + 18)
    entry := read64 kmem (address + 24)
    phoff := read64 kmem (address + 32)
    phentsize := read16 kmem (address + 54)
    phnum := read16 kmem (address + 56) }

/-- The fields of `struct elf64_phdr` that are used. -/
structure ProgramHeader where
  type : UInt32
  offset : UInt64
  vaddr : UInt64
  filesz : UInt64
  memsz : UInt64
  deriving DecidableEq

def ProgramHeader.read (address : UInt64) : ProgramHeader :=
  { type := read32 kmem address
    offset := read64 kmem (address + 8)
    vaddr := read64 kmem (address + 16)
    filesz := read64 kmem (address + 32)
    memsz := read64 kmem (address + 40) }

abbrev ehdrSize : UInt64 := 64
abbrev phdrSize : UInt64 := 56

/-- The checks of `validate_elf` on the header itself. -/
def ElfHeader.isValid (header : ElfHeader) (size : UInt64) : Bool :=
  header.ident = [0x7f, 0x45, 0x4c, 0x46, 2, 1] ∧
    header.machine = 62 ∧
    header.phentsize = 56 ∧
    header.phnum ≠ 0 ∧
    ¬header.phoff > size ∧
    ¬header.phoff + header.phnum.toUInt64 * phdrSize > size

/-- The file is large enough for its header to be read. -/
def RamdiskFile.hasHeader (file : RamdiskFile) : Bool :=
  ¬(file.directory ∨ file.data = 0 ∨ file.size < ehdrSize)

def validateElf (file : RamdiskFile) : Option ElfHeader :=
  if ¬file.hasHeader then none
  else
    let header := ElfHeader.read kmem file.data
    if header.isValid file.size then some header else none

/-- The checks of `load_elf_into_process` on a segment, in wrapping 64-bit arithmetic. -/
def ProgramHeader.isAccepted (phdr : ProgramHeader) (size : UInt64) : Bool :=
  ¬(phdr.memsz < phdr.filesz ∨ phdr.offset + phdr.filesz > size ∨ phdr.vaddr < userImageMin ∨
    phdr.vaddr + phdr.memsz ≥ userTop)

/-- Byte `n` after the start of the file's data. -/
def fileByte (file : RamdiskFile) (n : ℕ) : UInt8 :=
  kmem (file.data + UInt64.ofNat n)

/-- Remember that the file bytes `first .. first + length` were read. -/
def Mm.noteReads (s : Mm) (first length : ℕ) : Mm :=
  { s with reads := s.reads ++ List.range' first length }

/-- The program header with number `i`. -/
def programHeader (file : RamdiskFile) (header : ElfHeader) (i : ℕ) : ProgramHeader :=
  ProgramHeader.read kmem (file.data + header.phoff + UInt64.ofNat (56 * i))

/-- The body of the loop over the program headers. Copying changes neither `kmem` nor `file`, which holds of
the code as long as no segment wraps around. -/
def loadSegment (cr3 : UInt64) (file : RamdiskFile) (header : ElfHeader) (s : Mm) (i : ℕ) :
    Bool × Mm :=
  let s := s.noteReads (header.phoff.toNat + 56 * i) 56
  let phdr := programHeader kmem file header i
  if phdr.type ≠ 1 then (true, s)
  else if phdr.isAccepted file.size then
    match mapUserRange s cr3 phdr.vaddr phdr.memsz pageWritable with
    | (false, s) => (false, s)
    | (true, s) =>
      writeProcessMemory s cr3 phdr.vaddr (fileByte kmem file) phdr.offset.toNat phdr.filesz.toNat
  else (false, s)

def loadElfIntoProcess (s : Mm) (process : Process) (file : RamdiskFile) : Bool × Process × Mm :=
  let s := if file.hasHeader then s.noteReads 0 64 else s
  match validateElf kmem file with
  | none => (false, process, s)
  | some header =>
    match Loop.forWhile (loadSegment kmem process.cr3 file header) s
      (List.range header.phnum.toNat) with
    | (false, s) => (false, process, s)
    | (true, s) => (true, { process with entry := header.entry, brk := 0x800000 }, s)

/-! ### The initial stack -/

/-- Byte `i` of a list, 0 behind its end. -/
def byteOfList (data : List UInt8) (i : ℕ) : UInt8 := data.getD i 0

/-- The new stack pointer, when the bytes could be pushed. -/
def pushBytes (s : Mm) (cr3 stack : UInt64) (data : List UInt8) : Option UInt64 × Mm :=
  let size := data.length
  let stack := stack - UInt64.ofNat size
  if size ≠ 0 ∧ ¬userRangeIsValid stack (UInt64.ofNat size) then (none, s)
  else
    match writeProcessMemory s cr3 stack (byteOfList data) 0 size with
    | (false, s) => (none, s)
    | (true, s) => (some stack, s)

/-- The eight bytes of a word in memory order. -/
def wordBytes (value : UInt64) : List UInt8 := (List.range 8).map (byteOfWord value)

def pushU64 (s : Mm) (cr3 stack value : UInt64) : Option UInt64 × Mm :=
  pushBytes s cr3 stack (wordBytes value)

/-- Push NUL-terminated strings one after another; answers the stack pointer and the addresses in
the reverse order of pushing, the last pushed first. -/
def pushStrings (cr3 : UInt64) : Mm → UInt64 → List UInt64 → List CString →
    Option (UInt64 × List UInt64) × Mm
  | s, stack, addresses, [] => (some (stack, addresses), s)
  | s, stack, addresses, text :: rest =>
    match pushBytes s cr3 stack (text ++ [0]) with
    | (none, s) => (none, s)
    | (some stack, s) => pushStrings cr3 s stack (stack :: addresses) rest

def pushWords (cr3 : UInt64) : Mm → UInt64 → List UInt64 → Option UInt64 × Mm
  | s, stack, [] => (some stack, s)
  | s, stack, value :: rest =>
    match pushU64 s cr3 stack value with
    | (none, s) => (none, s)
    | (some stack, s) => pushWords cr3 s stack rest

/-- The loops run from the last string to the first, so the arrays are pushed reversed. -/
def buildUserStack (s : Mm) (process : Process) (argv envp : List CString) :
    Bool × Process × Mm :=
  match mapUserRange s process.cr3 (userStackTop - userStackSize) userStackSize pageWritable with
  | (false, s) => (false, process, s)
  | (true, s) =>
    match pushStrings process.cr3 s userStackTop [] envp.reverse with
    | (none, s) => (false, process, s)
    | (some (stack, envAddresses), s) =>
      match pushStrings process.cr3 s stack [] argv.reverse with
      | (none, s) => (false, process, s)
      | (some (stack, argvAddresses), s) =>
        let stack := stack &&& ~~~0xf
        match pushWords process.cr3 s stack
          ([0] ++ envAddresses.reverse ++ [0] ++ argvAddresses.reverse ++
            [UInt64.ofNat argv.length]) with
        | (none, s) => (false, process, s)
        | (some stack, s) => (true, { process with stack := stack }, s)

def loadProgram (rd : Ramdisk) (s : Mm) (process : Process) (path : CString)
    (argv envp : List CString) : Bool × Process × Mm :=
  match ramdiskFind kmem rd path with
  | none => (false, process, s)
  | some file =>
    if ¬file.executable ∨ file.directory then (false, process, s)
    else
      match createKernelMappedPml4 s with
      | (cr3, s) =>
        let process := { process with cr3 := cr3 }
        if cr3 = 0 then (false, process, s)
        else
          match loadElfIntoProcess kmem s process file with
          | (true, process, s) =>
            match buildUserStack s process argv envp with
            | (true, process, s) => (true, process, s)
            | (false, process, s) =>
              (false, { process with cr3 := 0 }, vmmDestroyUserSpace s process.cr3 userTop)
          | (false, process, s) =>
            (false, { process with cr3 := 0 }, vmmDestroyUserSpace s process.cr3 userTop)

end Xbks
