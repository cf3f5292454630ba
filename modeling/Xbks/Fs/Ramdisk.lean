import Mathlib.Data.UInt
import Mathlib.Data.List.Basic

/-!
# The ramdisk

Lookup and directory listing in the tar archive of `fs/ramdisk.c`. The archive is read out of
kernel memory, a function from 64-bit addresses to bytes. A C string in a buffer of 256 bytes is
the list of its characters without the terminating NUL.
-/

namespace Xbks

abbrev KernelMemory := UInt64 → UInt8

abbrev CString := List UInt8

abbrev slash : UInt8 := 47
abbrev dot : UInt8 := 46

/-- The characters of an ASCII string literal. -/
def cstr (text : String) : CString := text.toList.map fun c => UInt8.ofNat c.toNat

abbrev tarBlockSize : UInt64 := 512
abbrev tarNameSize : ℕ := 100
abbrev tarPrefixSize : ℕ := 155
abbrev ramdiskPathSize : ℕ := 256

/-- `struct xbks_ramdisk_file`. A null `data` pointer is 0. -/
structure RamdiskFile where
  path : CString
  data : UInt64
  size : UInt64
  directory : Bool
  executable : Bool
  deriving DecidableEq

instance : Inhabited RamdiskFile := ⟨⟨[], 0, 0, false, false⟩⟩

/-- The static variables of `ramdisk.c`. -/
structure Ramdisk where
  ramdiskData : UInt64
  ramdiskSize : UInt64
  ramdiskAvailable : Bool

variable (kmem : KernelMemory)

/-- `length` bytes of kernel memory from `address` on. -/
def bytesAt (address : UInt64) (length : ℕ) : List UInt8 :=
  (List.range length).map fun i => kmem (address + UInt64.ofNat i)

/-- A character array of which `bounded_strlen` characters are used. -/
def boundedString (address : UInt64) (limit : ℕ) : CString :=
  (bytesAt kmem address limit).takeWhile (· ≠ 0)

def blockIsZero (address : UInt64) : Bool :=
  (bytesAt kmem address 512).all (· = 0)

def parseOctal (text : List UInt8) : UInt64 :=
  ((text.dropWhile fun c => c = 32 ∨ c = 0).takeWhile fun c => 48 ≤ c ∧ c ≤ 55).foldl
    (fun value c => (value <<< 3) + (c - 48).toUInt64) 0

def alignToTarBlock (value : UInt64) : UInt64 :=
  (value + tarBlockSize - 1) &&& ~~~(tarBlockSize - 1)

def stringEndsWith (text suffix : CString) : Bool :=
  suffix.isSuffixOf text

/-- The string left in a buffer of the given capacity. -/
def copyBytes (capacity : ℕ) (src : CString) : CString :=
  src.take (capacity - 1)

/-- The two loops at the start of `normalize_path`: leading slashes, and leading `.` components
with the slashes behind them, are skipped. -/
def skipLeading : CString → CString
  | [] => []
  | c :: rest =>
    if c = slash then skipLeading rest
    else if c = dot ∧ (rest.head? = some slash ∨ rest = []) then skipLeading rest
    else c :: rest

def normalizePath (path : CString) (capacity : ℕ) : CString :=
  ((skipLeading path).take (capacity - 1)).reverse.dropWhile (· = slash) |>.reverse

def makePublicPath (normalized : CString) (capacity : ℕ) : CString :=
  if normalized = [] then copyBytes capacity [slash]
  else slash :: copyBytes (capacity - 1) normalized

/-! ### Tar headers -/

/-- The fields of a tar header that are used, at their offsets in the block. -/
def headerName (header : UInt64) : CString := boundedString kmem header tarNameSize
def headerMode (header : UInt64) : List UInt8 := bytesAt kmem (header + 100) 8
def headerSize (header : UInt64) : List UInt8 := bytesAt kmem (header + 124) 12
def headerTypeflag (header : UInt64) : UInt8 := kmem (header + 156)
def headerPrefix (header : UInt64) : CString := boundedString kmem (header + 345) tarPrefixSize

/-- The normalised path of an entry, unless it is empty. -/
def tarPath (header : UInt64) : Option CString :=
  let headPrefix := headerPrefix kmem header
  let name := headerName kmem header
  if name = [] then none
  else
    let combined :=
      if headPrefix ≠ [] then
        let start := copyBytes ramdiskPathSize headPrefix
        if start.length + 1 < ramdiskPathSize then start ++ [slash] else start
      else []
    let combined := combined ++ copyBytes (ramdiskPathSize - combined.length) name
    let out := normalizePath combined ramdiskPathSize
    if out = [] then none else some out

def headerIsDirectory (header : UInt64) (normalizedPath : CString) : Bool :=
  headerTypeflag kmem header = 53 ∨ normalizedPath.getLast? = some slash

def fillFile (header : UInt64) (normalizedPath : CString) (data size : UInt64) : RamdiskFile :=
  { path := makePublicPath normalizedPath ramdiskPathSize
    data := data
    size := size
    directory := headerIsDirectory kmem header normalizedPath
    executable := parseOctal (headerMode kmem header) &&& 0o111 ≠ 0 }

/-! ### Walking the archive -/

variable (rd : Ramdisk)

/-- The header, data offset and size of the entry at `offset`, when the walk goes on there. -/
def entryAt (offset : UInt64) : Option (UInt64 × UInt64 × UInt64) :=
  if offset + tarBlockSize ≤ rd.ramdiskSize then
    let header := rd.ramdiskData + offset
    if blockIsZero kmem header then none
    else
      let fileSize := parseOctal (headerSize kmem header)
      let dataOffset := offset + tarBlockSize
      if dataOffset > rd.ramdiskSize ∨ fileSize > rd.ramdiskSize - dataOffset then none
      else some (header, dataOffset, fileSize)
  else none

-- unification must not start to read the archive
attribute [irreducible] tarPath entryAt

/-- The number of blocks bounds the number of entries on a walk. -/
def walkLimit : ℕ := rd.ramdiskSize.toNat / 512 + 1

/-- `find_header`: the file, or whether some entry lies below the path. -/
def findHeaderFrom (normalizedPath : CString) : ℕ → UInt64 → Bool → RamdiskFile ⊕ Bool
  | 0, _, directoryPrefix => .inr directoryPrefix
  | fuel + 1, offset, directoryPrefix =>
    match entryAt kmem rd offset with
    | none => .inr directoryPrefix
    | some (header, dataOffset, fileSize) =>
      let offset := dataOffset + alignToTarBlock fileSize
      match tarPath kmem header with
      | none => findHeaderFrom normalizedPath fuel offset directoryPrefix
      | some path =>
        if path = normalizedPath then
          .inl (fillFile kmem header path (rd.ramdiskData + dataOffset) fileSize)
        else
          findHeaderFrom normalizedPath fuel offset
            (directoryPrefix || (normalizedPath ≠ [] && (normalizedPath ++ [slash]).isPrefixOf path))

def findHeader (normalizedPath : CString) : RamdiskFile ⊕ Bool :=
  findHeaderFrom kmem rd normalizedPath (walkLimit rd) 0 false

/-- The child of `directoryPath` that an entry lies in, and whether the entry is below it. -/
def childNameForDirectory (entryPath directoryPath : CString) : Option (CString × Bool) :=
  let relative :=
    if directoryPath = [] then some entryPath
    else if (directoryPath ++ [slash]).isPrefixOf entryPath then
      some (entryPath.drop (directoryPath.length + 1))
    else none
  match relative with
  | none => none
  | some relative =>
    let child := relative.takeWhile (· ≠ slash)
    if child = [] then none
    else some (copyBytes ramdiskPathSize child, relative[child.length]? = some slash)

def childSeenBeforeFrom (directoryPath childName : CString) (currentOffset : UInt64) :
    ℕ → UInt64 → Bool
  | 0, _ => false
  | fuel + 1, offset =>
    if offset < currentOffset then
      match entryAt kmem rd offset with
      | none => false
      | some (header, dataOffset, fileSize) =>
        match (tarPath kmem header).bind (childNameForDirectory · directoryPath) with
        | some (previousChild, _) =>
          if previousChild = childName then true
          else childSeenBeforeFrom directoryPath childName currentOffset fuel
            (dataOffset + alignToTarBlock fileSize)
        | none =>
          childSeenBeforeFrom directoryPath childName currentOffset fuel
            (dataOffset + alignToTarBlock fileSize)
    else false

def childSeenBefore (directoryPath childName : CString) (currentOffset : UInt64) : Bool :=
  childSeenBeforeFrom kmem rd directoryPath childName currentOffset (walkLimit rd) 0

/-- The path of a child, put together in a buffer of 256 characters. -/
def childPath (normalized childName : CString) : CString :=
  if normalized = [] then copyBytes ramdiskPathSize childName
  else
    let start := copyBytes ramdiskPathSize normalized
    let start := if start.length + 1 < ramdiskPathSize then start ++ [slash] else start
    start ++ copyBytes (ramdiskPathSize - start.length) childName

def readDirFrom (normalized : CString) (index : UInt64) : ℕ → UInt64 → UInt64 → Option RamdiskFile
  | 0, _, _ => none
  | fuel + 1, offset, currentIndex =>
    match entryAt kmem rd offset with
    | none => none
    | some (header, dataOffset, fileSize) =>
      let next := dataOffset + alignToTarBlock fileSize
      match tarPath kmem header with
      | none => readDirFrom normalized index fuel next currentIndex
      | some entryPath =>
        match childNameForDirectory entryPath normalized with
        | none => readDirFrom normalized index fuel next currentIndex
        | some (childName, nested) =>
          if childSeenBefore kmem rd normalized childName offset then
            readDirFrom normalized index fuel next currentIndex
          else if currentIndex = index then
            let directory := nested || headerIsDirectory kmem header entryPath
            some
              { path := makePublicPath (childPath normalized childName) ramdiskPathSize
                data := if nested then 0 else rd.ramdiskData + dataOffset
                size := if nested then 0 else fileSize
                directory := directory
                executable := !directory && parseOctal (headerMode kmem header) &&& 0o111 ≠ 0 }
          else readDirFrom normalized index fuel next (currentIndex + 1)

/-! ### The interface -/

/-- A directory that no archive entry describes. -/
def implicitDirectory (normalized : CString) : RamdiskFile :=
  { path := makePublicPath normalized ramdiskPathSize
    data := 0
    size := 0
    directory := true
    executable := false }

def ramdiskFind (path : CString) : Option RamdiskFile :=
  if rd.ramdiskAvailable then
    let normalized := normalizePath path ramdiskPathSize
    if normalized = [] then some (implicitDirectory normalized)
    else
      match findHeader kmem rd normalized with
      | .inl file => some file
      | .inr true => some (implicitDirectory normalized)
      | .inr false => none
  else none

def ramdiskReadDir (path : CString) (index : UInt64) : Option RamdiskFile :=
  if rd.ramdiskAvailable then
    readDirFrom kmem rd (normalizePath path ramdiskPathSize) index (walkLimit rd) 0 0
  else none


/-! ### Lengths -/

section Length

variable {kmem : KernelMemory} {rd : Ramdisk} {address : UInt64}

@[simp] lemma length_bytesAt (n : ℕ) : (bytesAt kmem address n).length = n := by
  simp [bytesAt]

lemma bytesAt_add (m n : ℕ) : bytesAt kmem address (m + n) =
    bytesAt kmem address m ++ bytesAt kmem (address + UInt64.ofNat m) n := by
  simp only [bytesAt, List.range_add, List.map_append, List.map_map]
  congr 1
  refine List.map_congr_left fun i _ => ?_
  rw [Function.comp_apply, UInt64.ofNat_add, add_assoc]

lemma length_copyBytes_le (capacity : ℕ) (src : CString) :
    (copyBytes capacity src).length ≤ capacity - 1 := by
  rw [copyBytes, List.length_take]
  exact min_le_left _ _

/-- A public path fits into its buffer of 256 characters. -/
lemma length_makePublicPath_lt (normalized : CString) :
    (makePublicPath normalized ramdiskPathSize).length < 256 := by
  have hsize : ramdiskPathSize = 256 := rfl
  rw [makePublicPath]
  split_ifs
  · have := length_copyBytes_le ramdiskPathSize [slash]
    omega
  · have := length_copyBytes_le (ramdiskPathSize - 1) normalized
    rw [List.length_cons]
    omega

/-- The path of a child comes from its directory and from an entry of the archive. -/
lemma readDirFrom_path {normalized : CString} {index offset currentIndex : UInt64} {fuel : ℕ}
    {file : RamdiskFile}
    (h : readDirFrom kmem rd normalized index fuel offset currentIndex = some file) :
    ∃ header entryPath childName nested, tarPath kmem header = some entryPath ∧
      childNameForDirectory entryPath normalized = some (childName, nested) ∧
      file.path = makePublicPath (childPath normalized childName) ramdiskPathSize := by
  induction fuel generalizing offset currentIndex with
  | zero => simp [readDirFrom] at h
  | succ fuel ih =>
    rw [readDirFrom] at h
    cases hentry : entryAt kmem rd offset with
    | none => simp [hentry] at h
    | some entry =>
      obtain ⟨header, dataOffset, fileSize⟩ := entry
      simp only [hentry] at h
      cases hpath : tarPath kmem header with
      | none =>
        simp only [hpath] at h
        exact ih h
      | some entryPath =>
        simp only [hpath] at h
        cases hchild : childNameForDirectory entryPath normalized with
        | none =>
          simp only [hchild] at h
          exact ih h
        | some child =>
          obtain ⟨childName, nested⟩ := child
          simp only [hchild] at h
          split_ifs at h with hseen hindex hnested
          · exact ih h
          · cases h
            exact ⟨header, entryPath, childName, nested, hpath, hchild, rfl⟩
          · cases h
            exact ⟨header, entryPath, childName, nested, hpath, hchild, rfl⟩
          · exact ih h

lemma length_ramdiskReadDir_lt {path : CString} {index : UInt64} {file : RamdiskFile}
    (h : ramdiskReadDir kmem rd path index = some file) : file.path.length < 256 := by
  rw [ramdiskReadDir] at h
  split_ifs at h
  obtain ⟨-, -, childName, -, -, -, hpath⟩ := readDirFrom_path h
  rw [hpath]
  exact length_makePublicPath_lt _

end Length

/-! ### Choosing the module -/

/-- `struct limine_file`, as far as it is used. A missing string is a null pointer. -/
structure Module where
  address : UInt64
  size : UInt64
  string : Option CString
  path : Option CString

def Module.usable (module : Module) : Bool :=
  module.address ≠ 0 ∧ module.size ≠ 0

def Module.isRamdisk (module : Module) : Bool :=
  let moduleString := module.string.getD []
  let modulePath := module.path.getD []
  moduleString = cstr "ramdisk" ∨ stringEndsWith modulePath (cstr "/ramdisk.tar") ∨
    stringEndsWith modulePath (cstr "ramdisk.tar")

/-- A response without modules is `none`, a null entry of the module array as well. -/
def ramdiskInit (modules : Option (List (Option Module))) : Ramdisk :=
  let unavailable : Ramdisk := ⟨0, 0, false⟩
  match modules with
  | none => unavailable
  | some modules =>
    match modules.findSome? fun m => m.filter fun m => m.usable && m.isRamdisk with
    | some m => ⟨m.address, m.size, true⟩
    | none =>
      match modules with
      | [some m] => if m.usable then ⟨m.address, m.size, true⟩ else unavailable
      | _ => unavailable

end Xbks
