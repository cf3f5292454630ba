import Xbks.Process.UserMemory

/-!
# System calls

The handlers of `kernel/process.c` and their dispatcher. A handler answers the value for `rax`;
those that take the frame also answer the frame they leave.
-/

namespace Xbks

inductive Errno
  | noent
  | noexec
  | badf
  | child
  | again
  | nomem
  | fault
  | isdir
  | inval
  | mfile
  | range
  | nosys
  deriving DecidableEq, Repr

def Errno.code : Errno → ℕ
  | .noent => 2
  | .noexec => 8
  | .badf => 9
  | .child => 10
  | .again => 11
  | .nomem => 12
  | .fault => 14
  | .isdir => 21
  | .inval => 22
  | .mfile => 24
  | .range => 34
  | .nosys => 38

def negativeErrno (error : Errno) : UInt64 := 0 - UInt64.ofNat error.code

/-- The descriptor number as an index of the table, when it is below `MAX_FDS`. -/
def fdIndex (fd : UInt64) : Option (Fin 16) :=
  if h : fd.toNat < 16 then some ⟨fd.toNat, h⟩ else none

/-- Change a descriptor of the current process. -/
def Kernel.setFd (k : Kernel) (i : Fin 16) (fd : ProcessFd) : Kernel :=
  k.setCurrent { k.current with fds := Function.update k.current.fds i fd }

/-! ### Files -/

/-- `xbks_keyboard_read_char_blocking`. -/
def keyboardReadCharBlocking : KernelM UInt8 := do
  let k ← Prog.get
  Prog.modify fun k => { k with keyboard := fun n => k.keyboard (n + 1) }
  return k.keyboard 0

/-- Fill the buffer from the keyboard, from index `i` on. -/
def readKeyboard (buffer : UInt64) : ℕ → ℕ → KernelM Unit
  | 0, _ => return ()
  | remaining + 1, i => do
    let c ← keyboardReadCharBlocking
    writeUser buffer i c
    readKeyboard buffer remaining (i + 1)

def syscallRead (fd bufferAddress count : UInt64) : KernelM UInt64 :=
  if ¬userRangeIsValid bufferAddress count then return negativeErrno .fault
  else do
    let k ← Prog.get
    match fdIndex fd with
    | none => return negativeErrno .badf
    | some i =>
      let file := k.current.fds i
      match file.type with
      | .none => return negativeErrno .badf
      | .stdin => do
        readKeyboard bufferAddress count.toNat 0
        return count
      | .file =>
        if file.offset ≥ file.file.size then return 0
        else do
          let available := file.file.size - file.offset
          let available := if count < available then count else available
          writeUserBytes bufferAddress 0
            (bytesAt k.kmem (file.file.data + file.offset) available.toNat)
          Prog.modify fun k => k.setFd i { file with offset := file.offset + available }
          return available
      | _ => return negativeErrno .isdir

abbrev newline : UInt8 := 10
abbrev carriageReturn : UInt8 := 13

/-- Read the bytes of the user's buffer one by one and hand each to a device. -/
def forUserBytes (data : UInt64) (device : UInt8 → Console → Console) : ℕ → ℕ → KernelM Unit
  | 0, _ => return ()
  | remaining + 1, i => do
    let b ← readUser data i
    Prog.modify fun k => { k with console := device b k.console }
    forUserBytes data device remaining (i + 1)

def debugconWriteByte (b : UInt8) (c : Console) : Console :=
  { c with debugcon := c.debugcon ++ [b] }

def serialWriteByte (b : UInt8) (c : Console) : Console :=
  { c with serial := c.serial ++ if b = newline then [carriageReturn, b] else [b] }

def ttyWriteByte (b : UInt8) (c : Console) : Console :=
  { c with tty := c.tty ++ if b = newline then [carriageReturn, b] else [b] }

def consoleWrite (data length : UInt64) : KernelM Unit := do
  forUserBytes data debugconWriteByte length.toNat 0
  forUserBytes data serialWriteByte length.toNat 0
  let k ← Prog.get
  if k.console.ttyAvailable then forUserBytes data ttyWriteByte length.toNat 0

def syscallWrite (fd bufferAddress count : UInt64) : KernelM UInt64 :=
  if fd ≠ 1 ∧ fd ≠ 2 then return negativeErrno .badf
  else if ¬userRangeIsValid bufferAddress count then return negativeErrno .fault
  else do
    consoleWrite bufferAddress count
    return count

def syscallOpen (pathAddress : UInt64) : KernelM UInt64 := do
  let k ← Prog.get
  match allocateFd k.current with
  | none => return negativeErrno .mfile
  | some fd =>
    match ← copyUserString maxString pathAddress with
    | none => return negativeErrno .fault
    | some path =>
      match ramdiskFind k.kmem k.ramdisk path with
      | none => return negativeErrno .noent
      | some file =>
        Prog.modify fun k =>
          k.setFd fd { type := if file.directory then .dir else .file, file := file, offset := 0 }
        return UInt64.ofNat fd

def syscallClose (fd : UInt64) : KernelM UInt64 := do
  let k ← Prog.get
  match fdIndex fd with
  | none => return negativeErrno .badf
  | some i =>
    if fd ≤ 2 ∨ (k.current.fds i).type = .none then return negativeErrno .badf
    else do
      Prog.modify fun k => k.setFd i .zero
      return 0

def syscallLseek (fd offset whence : UInt64) : KernelM UInt64 := do
  let k ← Prog.get
  match fdIndex fd with
  | none => return negativeErrno .badf
  | some i =>
    let file := k.current.fds i
    if file.type ≠ .file then return negativeErrno .badf
    else
      let nextOffset :=
        if whence = 0 then some offset
        else if whence = 1 then some (file.offset + offset)
        else if whence = 2 then some (file.file.size + offset)
        else none
      match nextOffset with
      | none => return negativeErrno .inval
      | some nextOffset => do
        Prog.modify fun k => k.setFd i { file with offset := nextOffset }
        return nextOffset

/-- The part of a path behind its last slash. -/
def lastComponent (path : CString) : CString :=
  (path.reverse.takeWhile (· ≠ slash)).reverse

/-- `sizeof(struct linux_dirent64)`; the name starts at offset 19. -/
abbrev direntSize : UInt64 := 24

def direntReclen (name : CString) : UInt64 :=
  alignUp (direntSize + UInt64.ofNat (name.length + 1)) 8

/-- The bytes of a directory record up to the end of its name. -/
def direntBytes (offset : UInt64) (reclen : UInt64) (directory : Bool) (name : CString) :
    List UInt8 :=
  wordBytes (offset + 1) ++ wordBytes (offset + 1) ++ (wordBytes reclen).take 2 ++
    [if directory then 4 else 8] ++ name ++ [0]

/-- The loop of `syscall_getdents64`. A record takes at least one byte, so `count + 1` iterations
are enough. -/
def getdentsFrom (i : Fin 16) (buffer count : UInt64) : ℕ → UInt64 → KernelM UInt64
  | 0, written => return written
  | fuel + 1, written => do
    let k ← Prog.get
    let directory := k.current.fds i
    match ramdiskReadDir k.kmem k.ramdisk directory.file.path directory.offset with
    | none => return written
    | some child =>
      let name := lastComponent child.path
      let reclen := direntReclen name
      if written + reclen > count then return written
      else do
        writeUserBytes buffer written.toNat
          (direntBytes directory.offset reclen child.directory name)
        Prog.modify fun k => k.setFd i { directory with offset := directory.offset + 1 }
        getdentsFrom i buffer count fuel (written + reclen)

def syscallGetdents64 (fd direntAddress count : UInt64) : KernelM UInt64 := do
  let k ← Prog.get
  match fdIndex fd with
  | none => return negativeErrno .badf
  | some i =>
    if (k.current.fds i).type ≠ .dir then return negativeErrno .badf
    else if ¬userRangeIsValid direntAddress count then return negativeErrno .fault
    else getdentsFrom i direntAddress count (count.toNat + 1) 0

def syscallAccess (pathAddress : UInt64) : KernelM UInt64 := do
  match ← copyUserString maxString pathAddress with
  | none => return negativeErrno .fault
  | some path =>
    let k ← Prog.get
    return if (ramdiskFind k.kmem k.ramdisk path).isSome then 0 else negativeErrno .noent

def syscallGetcwd (bufferAddress size : UInt64) : KernelM UInt64 :=
  if size < 2 then return negativeErrno .range
  else if ¬userRangeIsValid bufferAddress 2 then return negativeErrno .fault
  else do
    writeUserBytes bufferAddress 0 [slash, 0]
    return bufferAddress

/-- The fields of `struct xbks_uname`, each of 65 characters. -/
def unameFields : List CString :=
  [cstr "XiaobaiOS", cstr "localhost", cstr "0.1.0", cstr "xbks ring3", cstr "x86_64",
    cstr "localdomain"]

def writeUnameFields (buffer : UInt64) : ℕ → List CString → KernelM Unit
  | _, [] => return ()
  | field, text :: rest => do
    writeUserBytes buffer (65 * field) (text ++ [0])
    writeUnameFields buffer (field + 1) rest

def syscallUname (bufferAddress : UInt64) : KernelM UInt64 :=
  if ¬userRangeIsValid bufferAddress (6 * 65) then return negativeErrno .fault
  else do
    writeUnameFields bufferAddress 0 unameFields
    return 0

/-! ### Memory and processes -/

def syscallBrk (requestedBreak : UInt64) : KernelM UInt64 := fun k =>
  let process := k.current
  if requestedBreak = 0 then (.ok process.brk, k)
  else if requestedBreak < process.brk ∨ requestedBreak ≥ 0x10000000 then (.ok process.brk, k)
  else
    let oldEnd := alignUp process.brk pageSize
    let newEnd := alignUp requestedBreak pageSize
    match Loop.forWhile (fun s page => mapUserPage s process.cr3 page pageWritable) k.mm
      (pagesBetween oldEnd newEnd) with
    | (false, mm) => (.ok process.brk, { k with mm := mm })
    | (true, mm) =>
      (.ok requestedBreak, { k with mm := mm }.setCurrent { process with brk := requestedBreak })

/-- The part of `syscall_execve` after the arguments have been copied. -/
def execveLoaded (frame : SyscallFrame) (path : CString) (argv envp : List CString) (k : Kernel) :
    (UInt64 × SyscallFrame) × Kernel :=
  let next := { k.current with cr3 := 0 }
  match loadProgram k.kmem k.ramdisk k.mm next path argv envp with
  | (false, _, mm) => ((negativeErrno .noexec, frame), { k with mm := mm })
  | (true, next, mm) =>
    let oldCr3 := k.current.cr3
    let k := { k with mm := mm }.setCurrent
      { k.current with cr3 := next.cr3, entry := next.entry, stack := next.stack, brk := next.brk }
    let k := { k with
      cr3 := next.cr3
      mm := vmmDestroyUserSpace k.mm oldCr3 userTop }
    ((0, { frame with userRip := next.entry, userRsp := next.stack }), k)

def syscallExecve (frame : SyscallFrame) : KernelM (UInt64 × SyscallFrame) := do
  match ← copyUserString maxString frame.rdi with
  | none => return (negativeErrno .fault, frame)
  | some path =>
    match ← copyUserStringArray (maxArgs - 1) frame.rsi with
    | none => return (negativeErrno .fault, frame)
    | some argv =>
      match ← copyUserStringArray (maxEnv - 1) frame.rdx with
      | none => return (negativeErrno .fault, frame)
      | some envp => fun k =>
        let r := execveLoaded frame path argv envp k
        (.ok r.1, r.2)

/-- The value of an `int` converted to `uint64_t`. -/
def toU64 (n : ℤ) : UInt64 := UInt64.ofInt n

def syscallVfork (frame : SyscallFrame) : KernelM (UInt64 × SyscallFrame) := fun k =>
  let parent := k.currentProcess
  match allocateProcess k with
  | (none, k) => (.ok (negativeErrno .again, frame), k)
  | (some slot, k) =>
    let child := { k.processes slot with
      ppid := (k.processes parent).pid
      parent := some parent
      vforkParent := some parent }
    match createKernelMappedPml4 k.mm with
    | (cr3, mm) =>
      let k := { k with mm := mm }.setProcess slot { child with cr3 := cr3 }
      if cr3 = 0 then (.ok (negativeErrno .nomem, frame), k.setProcess slot .zero)
      else
        match vmmCloneUserSpace k.mm (k.processes parent).cr3 cr3 userTop with
        | (false, mm) =>
          let k := { k with mm := vmmDestroyUserSpace mm cr3 userTop }
          (.ok (negativeErrno .nomem, frame), k.setProcess slot .zero)
        | (true, mm) =>
          let p := k.processes parent
          let k := { k with mm := mm }.setProcess slot
            { child with
              cr3 := cr3
              entry := p.entry
              stack := p.stack
              brk := p.brk
              savedParentFrame := { frame with rax := toU64 child.pid }
              fds := p.fds }
          let k := k.setProcess parent { k.processes parent with state := .blocked }
          (.ok (0, frame), { k with currentProcess := slot, cr3 := cr3 })

/-- The slot that `syscall_wait4` looks at: the first zombie child that matches. -/
def zombieChild (k : Kernel) (pid : UInt64) : Option Slot :=
  (List.finRange 16).find? fun i =>
    (k.processes i).state = .zombie ∧ (k.processes i).parent = some k.currentProcess ∧
      (pid = 0 - 1 ∨ pid = toU64 (k.processes i).pid)

/-- The four bytes of an `int` in memory order. -/
def intBytes (n : ℤ) : List UInt8 := (wordBytes (toU64 n)).take 4

def syscallWait4 (pid statusAddress : UInt64) : KernelM UInt64 := do
  let k ← Prog.get
  match zombieChild k pid with
  | none => return negativeErrno .child
  | some i =>
    if statusAddress ≠ 0 ∧ ¬userRangeIsValid statusAddress 4 then return negativeErrno .fault
    else do
      if statusAddress ≠ 0 then
        writeUserBytes statusAddress 0 (intBytes ((k.processes i).exitStatus * 256))
      Prog.modify fun k =>
        { k with mm := vmmDestroyUserSpace k.mm (k.processes i).cr3 userTop }.setProcess i .zero
      return toU64 (k.processes i).pid

def syscallExit (_frame : SyscallFrame) (status : UInt64) : KernelM (UInt64 × SyscallFrame) := fun k =>
  let process := { k.current with exitStatus := (status &&& 0xff).toNat, state := .zombie }
  let k := k.setCurrent process
  match process.vforkParent with
  | none => (.error .halt, k)
  | some parent =>
    let frame := { process.savedParentFrame with rax := toU64 process.pid }
    let k := k.setProcess parent { k.processes parent with state := .running }
    (.ok (toU64 process.pid, frame),
      { k with currentProcess := parent, cr3 := (k.processes parent).cr3 })

/-! ### The dispatcher -/

inductive SyscallNumber
  | read
  | write
  | open
  | openat
  | close
  | lseek
  | access
  | getdents64
  | brk
  | getcwd
  | uname
  | getpid
  | getppid
  | getuid
  | vfork
  | execve
  | wait4
  | exit
  | schedYield
  | unknown
  deriving DecidableEq, Repr

/-- The case of the dispatcher's `switch` that a value of `rax` selects. -/
def syscallNumber (rax : UInt64) : SyscallNumber :=
  if rax = 0 then .read
  else if rax = 1 then .write
  else if rax = 2 then .open
  else if rax = 257 then .openat
  else if rax = 3 then .close
  else if rax = 8 then .lseek
  else if rax = 21 ∨ rax = 269 then .access
  else if rax = 217 then .getdents64
  else if rax = 12 then .brk
  else if rax = 79 then .getcwd
  else if rax = 63 then .uname
  else if rax = 39 ∨ rax = 186 then .getpid
  else if rax = 110 then .getppid
  else if rax = 102 ∨ rax = 104 ∨ rax = 107 ∨ rax = 108 then .getuid
  else if rax = 58 then .vfork
  else if rax = 59 then .execve
  else if rax = 61 then .wait4
  else if rax = 60 ∨ rax = 231 then .exit
  else if rax = 24 then .schedYield
  else .unknown

/-- `AT_FDCWD` as an unsigned argument. -/
abbrev atFdcwd : UInt64 := 0 - 100

/-- Handlers that do not touch the frame. -/
def withFrame (frame : SyscallFrame) (handler : KernelM UInt64) :
    KernelM (UInt64 × SyscallFrame) := do
  let result ← handler
  return (result, frame)

def processSyscallDispatch (frame : SyscallFrame) : KernelM (UInt64 × SyscallFrame) :=
  match syscallNumber frame.rax with
  | .read => withFrame frame (syscallRead frame.rdi frame.rsi frame.rdx)
  | .write => withFrame frame (syscallWrite frame.rdi frame.rsi frame.rdx)
  | .open => withFrame frame (syscallOpen frame.rdi)
  | .openat => withFrame frame (syscallOpen frame.rsi)
  | .close => withFrame frame (syscallClose frame.rdi)
  | .lseek => withFrame frame (syscallLseek frame.rdi frame.rsi frame.rdx)
  | .access =>
    withFrame frame (syscallAccess (if frame.rdi = atFdcwd then frame.rsi else frame.rdi))
  | .getdents64 => withFrame frame (syscallGetdents64 frame.rdi frame.rsi frame.rdx)
  | .brk => withFrame frame (syscallBrk frame.rdi)
  | .getcwd => withFrame frame (syscallGetcwd frame.rdi frame.rsi)
  | .uname => withFrame frame (syscallUname frame.rdi)
  | .getpid => withFrame frame do
    let k ← Prog.get
    return toU64 k.current.pid
  | .getppid => withFrame frame do
    let k ← Prog.get
    return toU64 k.current.ppid
  | .getuid => withFrame frame (return 0)
  | .vfork => syscallVfork frame
  | .execve => syscallExecve frame
  | .wait4 => withFrame frame (syscallWait4 frame.rdi frame.rsi)
  | .exit => syscallExit frame frame.rdi
  | .schedYield => withFrame frame (return 0)
  | .unknown => withFrame frame (return negativeErrno .nosys)

end Xbks
