import Xbks.Fs.Archive
import Xbks.Fs.Path

/-!
# The ramdisk, byte by byte

The functions of `fs/ramdisk.c` on the level of single bytes: paths are kept in buffers of 256 bytes
and end with a NUL, and the archive is read one byte at a time. Reading the archive outside its
size, writing outside a buffer, leaving a buffer without a NUL and a loop that does not end make a
function fail.
-/

namespace Xbks.Bytes

/-- Bytes that can be read at some indices. -/
abbrev Source := ℕ → Option UInt8

/-- A pointer into the bytes. -/
def Source.from (text : Source) (start : ℕ) : Source := fun i => text (start + i)

/-- An array of `RAMDISK_PATH_SIZE` bytes. -/
abbrev Buffer := ℕ → UInt8

def Buffer.read (b : Buffer) : Source := fun i => if i < ramdiskPathSize then some (b i) else none

def Buffer.write (b : Buffer) (i : ℕ) (value : UInt8) : Option Buffer :=
  if i < ramdiskPathSize then some (Function.update b i value) else none

/-- A buffer has to hold a string when the function that fills it returns. -/
def Buffer.terminated (b : Buffer) : Option Buffer :=
  if ∃ i < ramdiskPathSize, b i = 0 then some b else none

/-- A string with the NUL behind it. -/
def textOf (s : CString) : Source := fun i => (s ++ [0])[i]?

/-- The archive from `offset` on. -/
def archiveFrom (kmem : KernelMemory) (rd : Ramdisk) (offset : UInt64) : Source := fun i =>
  let position := offset + UInt64.ofNat i
  if position < rd.ramdiskSize then some (kmem (rd.ramdiskData + position)) else none

/-! ### Strings -/

/-- The first index, among the next `limit` ones, whose byte does not satisfy `p`. -/
def scan (text : Source) (p : UInt8 → Bool) : ℕ → ℕ → Option ℕ
  | 0, i => some i
  | limit + 1, i => do
    let c ← text i
    if p c then scan text p limit (i + 1) else some i

def boundedStrlen (text : Source) (limit : ℕ) : Option ℕ :=
  scan text (· ≠ 0) limit 0

def strlenFrom (text : Source) : ℕ → ℕ → Option ℕ
  | 0, _ => none
  | fuel + 1, i => do
    let c ← text i
    if c ≠ 0 then strlenFrom text fuel (i + 1) else some i

/-- All strings whose length is taken are in buffers. -/
def strlen (b : Buffer) : Option ℕ := strlenFrom b.read ramdiskPathSize 0

/-- Whether `strcmp` answers 0. -/
def strcmpFrom (lhs rhs : Source) : ℕ → ℕ → Option Bool
  | 0, _ => none
  | fuel + 1, i => do
    let l ← lhs i
    let r ← rhs i
    if l ≠ 0 ∧ l = r then strcmpFrom lhs rhs fuel (i + 1) else some (decide (l = r))

def strcmp (lhs rhs : Buffer) : Option Bool := strcmpFrom lhs.read rhs.read ramdiskPathSize 0

/-- Whether `strncmp` answers 0. -/
def strncmpFrom (lhs rhs : Source) : ℕ → ℕ → Option Bool
  | 0, _ => some true
  | count + 1, i => do
    let l ← lhs i
    let r ← rhs i
    if l ≠ r ∨ l = 0 then some (decide (l = r)) else strncmpFrom lhs rhs count (i + 1)

def strncmp (lhs rhs : Buffer) (count : ℕ) : Option Bool := strncmpFrom lhs.read rhs.read count 0

def blockIsZeroFrom (bytes : Source) : ℕ → ℕ → Option Bool
  | 0, _ => some true
  | remaining + 1, i => do
    let c ← bytes i
    if c ≠ 0 then some false else blockIsZeroFrom bytes remaining (i + 1)

def blockIsZero (bytes : Source) : Option Bool := blockIsZeroFrom bytes 512 0

/-- The second loop of `parse_octal`. -/
def octalFrom (text : Source) : ℕ → ℕ → UInt64 → Option UInt64
  | 0, _, value => some value
  | remaining + 1, i, value => do
    let c ← text i
    if c < 48 ∨ c > 55 then some value
    else octalFrom text remaining (i + 1) ((value <<< 3) + (c - 48).toUInt64)

def parseOctal (text : Source) (limit : ℕ) : Option UInt64 := do
  let i ← scan text (fun c => c = 32 ∨ c = 0) limit 0
  octalFrom text (limit - i) i 0

/-! ### Filling buffers -/

/-- Copy the bytes from index `i` on to `dest[start + i]`. -/
def copyFrom (src : Source) (start : ℕ) : ℕ → ℕ → Buffer → Option Buffer
  | 0, _, dest => some dest
  | remaining + 1, i, dest => do
    let c ← src i
    let dest ← dest.write (start + i) c
    copyFrom src start remaining (i + 1) dest

/-- `copy_bytes` to the bytes of `dest` from `start` on. -/
def copyBytes (dest : Buffer) (start capacity : ℕ) (src : Source) (length : ℕ) : Option Buffer :=
  if capacity = 0 then some dest
  else do
    let count := if length ≥ capacity then capacity - 1 else length
    let dest ← copyFrom src start count 0 dest
    let dest ← dest.write (start + count) 0
    dest.terminated

/-- The first index from `i` on that is not a slash. -/
def skipSlashes (path : Source) : ℕ → ℕ → Option ℕ
  | 0, _ => none
  | fuel + 1, i => do
    let c ← path i
    if c = slash then skipSlashes path fuel (i + 1) else some i

/-- The loop over leading `.` components. -/
def skipDots (path : Source) : ℕ → ℕ → Option ℕ
  | 0, _ => none
  | fuel + 1, i => do
    let c ← path i
    if c = dot then do
      let next ← path (i + 1)
      if next = slash ∨ next = 0 then do
        let i ← skipSlashes path (fuel + 1) (i + 1)
        skipDots path fuel i
      else some i
    else some i

/-- The loop that copies the path, with the characters still allowed. -/
def copyPath (path : Source) : ℕ → ℕ → ℕ → Buffer → Option (ℕ × Buffer)
  | 0, i, outputLength, out => do
    let _ ← path i
    some (outputLength, out)
  | room + 1, i, outputLength, out => do
    let c ← path i
    if c = 0 then some (outputLength, out)
    else do
      let out ← out.write outputLength c
      copyPath path room (i + 1) (outputLength + 1) out

/-- The loop over trailing slashes. -/
def trimSlashes (out : Buffer) : ℕ → Option ℕ
  | 0 => some 0
  | length + 1 => do
    let c ← out.read length
    if c = slash then trimSlashes out length else some (length + 1)

/-- `normalize_path` into a buffer; `fuel` bounds the loops over leading slashes and dots. -/
def normalizePath (fuel : ℕ) (path : Source) (out : Buffer) : Option Buffer := do
  let i ← skipSlashes path fuel 0
  let i ← skipDots path fuel i
  let (outputLength, out) ← copyPath path (ramdiskPathSize - 1) i 0 out
  let outputLength ← trimSlashes out outputLength
  let out ← out.write outputLength 0
  out.terminated

def makePublicPath (normalized out : Buffer) : Option Buffer := do
  let c ← normalized.read 0
  if c = 0 then copyBytes out 0 ramdiskPathSize (textOf [slash]) 1
  else do
    let out ← out.write 0 slash
    let length ← strlen normalized
    copyBytes out 1 (ramdiskPathSize - 1) normalized.read length

/-! ### Tar headers -/

/-- The state of `tar_path` after the prefix: the combined path and the offset of the name. -/
def tarPrefix (header : Source) (combined : Buffer) (prefixLength : ℕ) : Option (Buffer × ℕ) :=
  if prefixLength ≠ 0 then do
    let combined ← copyBytes combined 0 ramdiskPathSize (header.from 345) prefixLength
    let offset ← strlen combined
    if offset + 1 < ramdiskPathSize then do
      let combined ← combined.write offset slash
      let combined ← combined.write (offset + 1) 0
      some (combined, offset + 1)
    else some (combined, offset)
  else do
    let combined ← combined.write 0 0
    some (combined, 0)

/-- `tar_path`; the two buffers are the local one and the caller's. -/
def tarPath (header : Source) (combined out : Buffer) : Option (Bool × Buffer) := do
  let prefixLength ← boundedStrlen (header.from 345) tarPrefixSize
  let nameLength ← boundedStrlen header tarNameSize
  if nameLength = 0 then some (false, out)
  else do
    let (combined, offset) ← tarPrefix header combined prefixLength
    let combined ← copyBytes combined offset (ramdiskPathSize - offset) header nameLength
    let out ← normalizePath ramdiskPathSize combined.read out
    let c ← out.read 0
    some (decide (c ≠ 0), out)

def headerIsDirectory (header : Source) (normalizedPath : Buffer) : Option Bool := do
  let length ← strlen normalizedPath
  let typeflag ← header 156
  if typeflag = 53 then some true
  else if length ≠ 0 then do
    let c ← normalizedPath.read (length - 1)
    some (decide (c = slash))
  else some false

/-- `struct xbks_ramdisk_file` with its array for the path. -/
structure File where
  path : Buffer
  data : UInt64
  size : UInt64
  directory : Bool
  executable : Bool

def fillFile (header : Source) (normalizedPath : Buffer) (data size : UInt64) (out : File) :
    Option File := do
  let mode ← parseOctal (header.from 100) 8
  let path ← makePublicPath normalizedPath out.path
  let directory ← headerIsDirectory header normalizedPath
  some ⟨path, data, size, directory, decide (mode &&& 0o111 ≠ 0)⟩

/-! ### Walking the archive -/

section

variable (kmem : KernelMemory) (rd : Ramdisk) (junk : Buffer)

/-- The beginning of every round of a walk: the data offset and the size of the entry at `offset`. -/
def entryAt (offset : UInt64) : Option (Option (UInt64 × UInt64)) :=
  if offset + tarBlockSize ≤ rd.ramdiskSize then do
    let header := archiveFrom kmem rd offset
    let zero ← blockIsZero header
    if zero then some none
    else do
      let fileSize ← parseOctal (header.from 124) 12
      let dataOffset := offset + tarBlockSize
      if dataOffset > rd.ramdiskSize ∨ fileSize > rd.ramdiskSize - dataOffset then some none
      else some (some (dataOffset, fileSize))
  else some none

/-- Whether `path` starts with the `length` characters of `query` and a slash. -/
def startsBelow (path query : Buffer) (length : ℕ) : Option Bool := do
  let same ← strncmp path query length
  if same then do
    let c ← path.read length
    some (decide (c = slash))
  else some false

def isBelow (path query : Buffer) : Option Bool := do
  let queryLength ← strlen query
  if queryLength ≠ 0 then startsBelow path query queryLength else some false

/-- `find_header`. Local arrays hold `junk` before they are filled. -/
def findHeaderFrom (normalizedPath : Buffer) (out : File) :
    ℕ → UInt64 → Bool → Option (File ⊕ Bool)
  | 0, _, _ => none
  | fuel + 1, offset, directoryPrefix => do
    let entry ← entryAt kmem rd offset
    match entry with
    | none => some (.inr directoryPrefix)
    | some (dataOffset, fileSize) => do
      let header := archiveFrom kmem rd offset
      let (found, path) ← tarPath header junk junk
      let next := dataOffset + alignToTarBlock fileSize
      if found then do
        let same ← strcmp path normalizedPath
        if same then do
          let file ← fillFile header path (rd.ramdiskData + dataOffset) fileSize out
          some (.inl file)
        else do
          let below ← isBelow path normalizedPath
          findHeaderFrom normalizedPath out fuel next (directoryPrefix || below)
      else findHeaderFrom normalizedPath out fuel next directoryPrefix

/-- The length of the first component of `relative`. -/
def componentLength (relative : Source) : ℕ → ℕ → Option ℕ
  | 0, _ => none
  | fuel + 1, i => do
    let c ← relative i
    if c ≠ 0 ∧ c ≠ slash then componentLength relative fuel (i + 1) else some i

/-- `child_name_for_directory` once it is known where the part relative to the directory starts. -/
def relativeChild (relative : Source) (childName : Buffer) : Option (Option (Buffer × Bool)) := do
  let first ← relative 0
  if first = 0 then some none
  else do
    let childLength ← componentLength relative ramdiskPathSize 0
    if childLength = 0 then some none
    else do
      let childName ← copyBytes childName 0 ramdiskPathSize relative childLength
      let c ← relative childLength
      some (some (childName, decide (c = slash)))

/-- `child_name_for_directory`: the filled buffer and whether the entry is below the child. -/
def childNameForDirectory (entryPath directoryPath childName : Buffer) :
    Option (Option (Buffer × Bool)) := do
  let directoryLength ← strlen directoryPath
  if directoryLength ≠ 0 then do
    let below ← startsBelow entryPath directoryPath directoryLength
    if below then relativeChild (entryPath.read.from (directoryLength + 1)) childName else some none
  else relativeChild entryPath.read childName

/-- The path of the entry at `offset` and its child in the directory. -/
def entryChild (directoryPath : Buffer) (offset : UInt64) :
    Option (Option (Buffer × Buffer × Bool)) := do
  let (found, path) ← tarPath (archiveFrom kmem rd offset) junk junk
  if found then do
    let child ← childNameForDirectory path directoryPath junk
    some (child.map fun child => (path, child.1, child.2))
  else some none

def childSeenBeforeFrom (directoryPath childName : Buffer) (currentOffset : UInt64) :
    ℕ → UInt64 → Option Bool
  | 0, _ => none
  | fuel + 1, offset =>
    if offset < currentOffset then do
      let entry ← entryAt kmem rd offset
      match entry with
      | none => some false
      | some (dataOffset, fileSize) => do
        let next := dataOffset + alignToTarBlock fileSize
        let child ← entryChild kmem rd junk directoryPath offset
        match child with
        | none => childSeenBeforeFrom directoryPath childName currentOffset fuel next
        | some (_, previousChild, _) => do
          let same ← strcmp previousChild childName
          if same then some true
          else childSeenBeforeFrom directoryPath childName currentOffset fuel next
    else some false

/-- Put a slash behind the string when there is room. -/
def appendSlash (path : Buffer) : Option Buffer := do
  let length ← strlen path
  if length + 1 < ramdiskPathSize then do
    let path ← path.write length slash
    path.write (length + 1) 0
  else some path

/-- The path of a child, put together in the local array `childPath`. -/
def childPath (normalized childName : Buffer) : Option Buffer := do
  let c ← normalized.read 0
  if c = 0 then do
    let length ← strlen childName
    copyBytes junk 0 ramdiskPathSize childName.read length
  else do
    let length ← strlen normalized
    let path ← copyBytes junk 0 ramdiskPathSize normalized.read length
    let path ← appendSlash path
    let start ← strlen path
    let nameLength ← strlen childName
    copyBytes path start (ramdiskPathSize - start) childName.read nameLength

/-- The flags of a child: a directory, and executable otherwise if its header says so. -/
def childFlags (header : Source) (entryPath : Buffer) (nested : Bool) : Option (Bool × Bool) :=
  if nested then some (true, false)
  else do
    let isDirectory ← headerIsDirectory header entryPath
    if isDirectory then some (true, false)
    else do
      let mode ← parseOctal (header.from 100) 8
      some (false, decide (mode &&& 0o111 ≠ 0))

def readDirFrom (normalized : Buffer) (index : UInt64) (out : File) :
    ℕ → UInt64 → UInt64 → Option (Option File)
  | 0, _, _ => none
  | fuel + 1, offset, currentIndex => do
    let entry ← entryAt kmem rd offset
    match entry with
    | none => some none
    | some (dataOffset, fileSize) => do
      let next := dataOffset + alignToTarBlock fileSize
      let header := archiveFrom kmem rd offset
      let child ← entryChild kmem rd junk normalized offset
      match child with
      | none => readDirFrom normalized index out fuel next currentIndex
      | some (entryPath, childName, nested) => do
        let seen ← childSeenBeforeFrom kmem rd junk normalized childName offset (walkLimit rd) 0
        if seen then readDirFrom normalized index out fuel next currentIndex
        else if currentIndex = index then do
          let path ← childPath junk normalized childName
          let path ← makePublicPath path out.path
          let (isDirectory, executable) ← childFlags header entryPath nested
          some (some
            { path := path
              data := if nested then 0 else rd.ramdiskData + dataOffset
              size := if nested then 0 else fileSize
              directory := isDirectory
              executable := executable })
        else readDirFrom normalized index out fuel next (currentIndex + 1)

/-! ### The interface -/

def implicitDirectory (normalized : Buffer) (out : File) : Option File := do
  let path ← makePublicPath normalized out.path
  some ⟨path, 0, 0, true, false⟩

/-- `xbks_ramdisk_find` with the caller's record `out`. -/
def ramdiskFind (path : CString) (out : File) : Option (Option File) :=
  if rd.ramdiskAvailable then do
    let normalized ← normalizePath (path.length + 1) (textOf path) junk
    let c ← normalized.read 0
    if c = 0 then do
      let file ← implicitDirectory normalized out
      some (some file)
    else do
      let found ← findHeaderFrom kmem rd junk normalized out (walkLimit rd) 0 false
      match found with
      | .inl file => some (some file)
      | .inr true => do
        let file ← implicitDirectory normalized out
        some (some file)
      | .inr false => some none
  else some none

def ramdiskReadDir (path : CString) (index : UInt64) (out : File) : Option (Option File) :=
  if rd.ramdiskAvailable then do
    let normalized ← normalizePath (path.length + 1) (textOf path) junk
    readDirFrom kmem rd junk normalized index out (walkLimit rd) 0 0
  else some none

end

end Xbks.Bytes
