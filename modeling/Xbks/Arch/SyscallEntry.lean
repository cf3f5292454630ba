import Xbks.Arch.Cpu
import Xbks.Process.Run

/-!
# Entry to and return from the kernel

`syscall_entry.S` and `user_entry.S` with the registers that `syscall.c` sets for them. The code saves the
registers of the program in a `struct xbks_syscall_frame` on a stack of its own, hands it to the C function that
dispatches the call, and loads the registers from the frame that the function leaves.
-/

namespace Xbks

abbrev eferSyscallEnable : UInt64 := (1 : UInt64) <<< 0
abbrev rflagsInterruptEnable : UInt64 := (1 : UInt64) <<< 9
abbrev rflagsDirectionFlag : UInt64 := (1 : UInt64) <<< 10

/-- `xbks_syscall_init`. The argument is the address of `xbks_x86_64_syscall_entry`. -/
def syscallInit (entry : UInt64) (m : Msrs) : Msrs where
  efer := m.efer ||| eferSyscallEnable
  lstar := entry
  star := ((0x08 : UInt64) <<< 32) ||| ((0x18 : UInt64) <<< 48)
  fmask := rflagsInterruptEnable ||| rflagsDirectionFlag

/-- The processor has the registers that `xbks_syscall_init` sets. -/
def Configured (entry : UInt64) (m : Msrs) : Prop := ∃ m₀, m = syscallInit entry m₀

/-! ### The frame in memory -/

/-- The words of a frame, the first field at the lowest address. -/
def SyscallFrame.words (f : SyscallFrame) : List UInt64 :=
  [f.r15, f.r14, f.r13, f.r12, f.r11, f.r10, f.r9, f.r8, f.rbp, f.rdi, f.rsi, f.rdx, f.rcx, f.rbx, f.rax,
    f.userRflags, f.userRip, f.userRsp]

/-- The frame at an address. -/
def frameAt (m : Stack.Words) (a : UInt64) : SyscallFrame where
  r15 := m a
  r14 := m (a + 8)
  r13 := m (a + 16)
  r12 := m (a + 24)
  r11 := m (a + 32)
  r10 := m (a + 40)
  r9 := m (a + 48)
  r8 := m (a + 56)
  rbp := m (a + 64)
  rdi := m (a + 72)
  rsi := m (a + 80)
  rdx := m (a + 88)
  rcx := m (a + 96)
  rbx := m (a + 104)
  rax := m (a + 112)
  userRflags := m (a + 120)
  userRip := m (a + 128)
  userRsp := m (a + 136)

/-! ### The code -/

/-- Where `xbks_syscall_stack_top` is, from the address of `xbks_syscall_saved_user_rsp`: behind the saved word,
aligned to sixteen bytes, and the stack. -/
def stackTopSymbol (saved : UInt64) : UInt64 := saved + 16 + 16384

/-- `xbks_x86_64_syscall_entry`, from the address of `xbks_syscall_saved_user_rsp`. -/
def syscallEntry (saved : UInt64) : List Instruction :=
  [ .movToSymbol .rsp saved,
    .lea (stackTopSymbol saved) .rsp,
    .pushSymbol saved,
    .push .rcx,
    .push .r11,
    .push .rax,
    .push .rbx,
    .push .rcx,
    .push .rdx,
    .push .rsi,
    .push .rdi,
    .push .rbp,
    .push .r8,
    .push .r9,
    .push .r10,
    .push .r11,
    .push .r12,
    .push .r13,
    .push .r14,
    .push .r15,
    .mov .rsp .rdi,
    .call,
    .movToStack .rax 112,
    .pop .r15,
    .pop .r14,
    .pop .r13,
    .pop .r12,
    .pop .r11,
    .pop .r10,
    .pop .r9,
    .pop .r8,
    .pop .rbp,
    .pop .rdi,
    .pop .rsi,
    .pop .rdx,
    .pop .rcx,
    .pop .rbx,
    .pop .rax,
    .pop .r11,
    .pop .rcx,
    .pop .rsp,
    .sysretq ]

/-- `xbks_x86_64_enter_user`. -/
def enterUser : List Instruction :=
  [ .mov .rsi .rsp,
    .movImmediate 0x202 .r11,
    .mov .rdi .rcx,
    .xor .rax .rax,
    .xor .rbx .rbx,
    .xor .rdx .rdx,
    .xor .rsi .rsi,
    .xor .rdi .rdi,
    .xor .rbp .rbp,
    .xor .r8 .r8,
    .xor .r9 .r9,
    .xor .r10 .r10,
    .xor .r12 .r12,
    .xor .r13 .r13,
    .xor .r14 .r14,
    .xor .r15 .r15,
    .sysretq ]

/-! ### The machine -/

/-- The processor and what the C code works on. -/
structure Machine where
  cpu : Cpu
  kernel : Kernel

/-- The registers that a C function keeps, the stack pointer among them. -/
def calleeSaved : List Register := [.rbx, .rbp, .rsp, .r12, .r13, .r14, .r15]

/-- A call of `xbks_syscall_dispatch` with the address of a frame in `rdi`, as its calling convention has it: the
stack is aligned, and apart from the result, the frame and the registers that a function keeps, the registers
and the memory are left in any state. -/
structure Dispatches (m m' : Machine) : Prop where
  aligned : (m.cpu.reg .rsp).toNat % 16 = 0
  result : processSyscallDispatch (frameAt m.cpu.mem (m.cpu.reg .rdi)) m.kernel =
    (.ok (m'.cpu.reg .rax, frameAt m'.cpu.mem (m.cpu.reg .rdi)), m'.kernel)
  kept : ∀ r ∈ calleeSaved, m'.cpu.reg r = m.cpu.reg r
  cs : m'.cpu.cs = m.cpu.cs
  msrs : m'.cpu.msrs = m.cpu.msrs

/-- What the execution of instructions leads to. The only function they call is the dispatcher. -/
inductive Executes : List Instruction → Machine → Machine → Prop
  | nil (m : Machine) : Executes [] m m
  | plain {i : Instruction} {is : List Instruction} {m m' : Machine} {c : Cpu} (h : i.exec m.cpu = some c)
      (hrest : Executes is ⟨c, m.kernel⟩ m') : Executes (i :: is) m m'
  | call {is : List Instruction} {m m₁ m' : Machine} (h : Dispatches m m₁) (hrest : Executes is m₁ m') :
      Executes (.call :: is) m m'

/-- The whole of a system call, from the instruction `syscall` until the program runs again. -/
def SystemCall (entry saved : UInt64) (m m' : Machine) : Prop :=
  ∃ c, m.cpu.syscall = some c ∧ c.rip = entry ∧ Executes (syscallEntry saved) ⟨c, m.kernel⟩ m'

/-- The flags that no instruction of a program changes: the interrupt flag and the privilege level of port
access. -/
abbrev systemFlags : UInt64 := 0x3200

/-- What the program that runs does next: change its registers, store a byte or call the kernel. -/
inductive Machine.Action
  | compute (u : Context)
  | store (address : UInt64) (value : UInt8)
  | syscall

def Cpu.setContext (c : Cpu) (u : Context) : Cpu :=
  { c with reg := u.reg, rip := u.rip, rflags := u.rflags, cs := u.cs, ss := u.ss }

/-- The steps of the machine while a program runs. -/
inductive Machine.Step (entry saved : UInt64) : Machine → Action → Machine → Prop
  | compute {m : Machine} {u : Context} (hcs : u.cs = m.cpu.cs) (hss : u.ss = m.cpu.ss)
      (hflags : u.rflags &&& systemFlags = m.cpu.rflags &&& systemFlags) :
      Step entry saved m (.compute u) ⟨m.cpu.setContext u, m.kernel⟩
  | store {m : Machine} {address : UInt64} {value : UInt8} {k : Kernel}
      (h : step m.kernel (.store address value) = some k) :
      Step entry saved m (.store address value) ⟨m.cpu, k⟩
  | syscall {m m' : Machine} (h : SystemCall entry saved m m') : Step entry saved m .syscall m'

/-- The machine starts the first process: the kernel, in its own privilege level and with the registers set by
`xbks_syscall_init`, calls `xbks_x86_64_enter_user` with the entry and the stack of the process. -/
structure Machine.Begins (boot : BootInfo) (entry : UInt64) (m : Machine) : Prop where
  starts : Starts boot
  enters : ∃ c, c.context.privilege = 0 ∧ Configured entry c.msrs ∧
    c.reg .rdi = (started boot).current.entry ∧ c.reg .rsi = (started boot).current.stack ∧
    Executes enterUser ⟨c, started boot⟩ m

end Xbks
