import Xbks.Lib.Stack

/-!
# The processor

The registers of an x86_64 processor and the instructions that the assembly files of the kernel consist of.
The arithmetic flags are left out: no instruction here depends on them, and `sysretq` loads them all.
-/

namespace Xbks

inductive Register
  | rax
  | rbx
  | rcx
  | rdx
  | rsi
  | rdi
  | rbp
  | rsp
  | r8
  | r9
  | r10
  | r11
  | r12
  | r13
  | r14
  | r15
  deriving DecidableEq, Repr

/-- The model-specific registers of the system-call instructions. -/
structure Msrs where
  efer : UInt64
  star : UInt64
  lstar : UInt64
  fmask : UInt64
  deriving DecidableEq

/-- The memory is that of the kernel; the program's own is part of the state of the kernel. -/
@[ext] structure Cpu extends Stack.State Register where
  rip : UInt64
  rflags : UInt64
  cs : UInt16
  ss : UInt16
  msrs : Msrs

/-- What a program sees of the processor. -/
@[ext] structure Context where
  reg : Register → UInt64
  rip : UInt64
  rflags : UInt64
  cs : UInt16
  ss : UInt16

def Cpu.context (c : Cpu) : Context := ⟨c.reg, c.rip, c.rflags, c.cs, c.ss⟩

/-- The current privilege level. -/
def Context.privilege (u : Context) : UInt16 := u.cs &&& 3

/-- The addresses whose upper bits are all equal. -/
def Canonical (a : UInt64) : Prop := a.toNat < 2 ^ 47 ∨ 2 ^ 64 - 2 ^ 47 ≤ a.toNat

instance (a : UInt64) : Decidable (Canonical a) := inferInstanceAs (Decidable (_ ∨ _))

/-- The flags that `sysretq` takes from `r11`. The bit that it sets is always one. -/
abbrev sysretFlags : UInt64 := 0x3c7fd7

def loadedFlags (flags : UInt64) : UInt64 := (flags &&& sysretFlags) ||| 2

def Msrs.syscallEnabled (m : Msrs) : Prop := m.efer &&& 1 ≠ 0

instance (m : Msrs) : Decidable m.syscallEnabled := inferInstanceAs (Decidable (_ ≠ _))

/-- The instruction `syscall`, two bytes long, at `rip`. -/
def Cpu.syscall (c : Cpu) : Option Cpu :=
  if c.msrs.syscallEnabled then
    some { c with
      reg := Function.update (Function.update c.reg .rcx (c.rip + 2)) .r11 c.rflags
      rip := c.msrs.lstar
      rflags := c.rflags &&& ~~~c.msrs.fmask
      cs := (c.msrs.star >>> 32).toUInt16 &&& 0xfffc
      ss := (c.msrs.star >>> 32).toUInt16 + 8 }
  else none

/-- The instruction `sysretq`, which faults at a return address that is not canonical. -/
def Cpu.sysretq (c : Cpu) : Option Cpu :=
  if c.msrs.syscallEnabled ∧ c.context.privilege = 0 ∧ Canonical (c.reg .rcx) then
    some { c with
      rip := c.reg .rcx
      rflags := loadedFlags (c.reg .r11)
      cs := ((c.msrs.star >>> 48).toUInt16 + 16) ||| 3
      ss := ((c.msrs.star >>> 48).toUInt16 + 8) ||| 3 }
  else none

/-- The instructions of the assembly files. A symbol stands for its address. -/
inductive Instruction
  | movToSymbol (source : Register) (symbol : UInt64)
  | movToStack (source : Register) (offset : UInt64)
  | lea (symbol : UInt64) (target : Register)
  | mov (source target : Register)
  | movImmediate (value : UInt64) (target : Register)
  | xor (source target : Register)
  | pushSymbol (symbol : UInt64)
  | push (source : Register)
  | pop (target : Register)
  | sysretq
  | call
  deriving DecidableEq

/-- Change a register. -/
def Cpu.set (c : Cpu) (r : Register) (value : UInt64) : Cpu :=
  { c with reg := Function.update c.reg r value }

/-- Change a word of the memory. -/
def Cpu.setWord (c : Cpu) (a value : UInt64) : Cpu := { c with mem := Function.update c.mem a value }

@[simp] lemma Cpu.set_reg_self (c : Cpu) (r : Register) (v : UInt64) : (c.set r v).reg r = v :=
  Function.update_self _ _ _

lemma Cpu.set_reg_of_ne (c : Cpu) {r r' : Register} (v : UInt64) (h : r' ≠ r) : (c.set r v).reg r' = c.reg r' :=
  Function.update_of_ne h _ _

@[simp] lemma Cpu.set_mem (c : Cpu) (r : Register) (v : UInt64) : (c.set r v).mem = c.mem := rfl

@[simp] lemma Cpu.setWord_reg (c : Cpu) (a v : UInt64) : (c.setWord a v).reg = c.reg := rfl

@[simp] lemma Cpu.setWord_mem_self (c : Cpu) (a v : UInt64) : (c.setWord a v).mem a = v :=
  Function.update_self _ _ _

/-- Everything but the call of a function. -/
def Instruction.exec : Instruction → Cpu → Option Cpu
  | .movToSymbol source symbol, c => some (c.setWord symbol (c.reg source))
  | .movToStack source offset, c => some (c.setWord (c.reg .rsp + offset) (c.reg source))
  | .lea symbol target, c => some (c.set target symbol)
  | .mov source target, c => some (c.set target (c.reg source))
  | .movImmediate value target, c => some (c.set target value)
  | .xor source target, c => some (c.set target (c.reg target ^^^ c.reg source))
  | .pushSymbol symbol, c => some { c with toState := c.push .rsp (c.mem symbol) }
  | .push source, c => some { c with toState := c.push .rsp (c.reg source) }
  | .pop target, c => some { c with toState := c.pop .rsp target }
  | .sysretq, c => c.sysretq
  | .call, _ => none

/-! ### Straight code -/

/-- Execute instructions one after the other. -/
def Cpu.run : List Instruction → Cpu → Option Cpu
  | [], c => some c
  | i :: is, c => (i.exec c).bind (Cpu.run is)

variable {c c' : Cpu} {is is' : List Instruction} {rs : List Register} {reg : Register → UInt64}

lemma Cpu.run_append : Cpu.run (is ++ is') c = (Cpu.run is c).bind (Cpu.run is') := by
  induction is generalizing c with
  | nil => rfl
  | cons i is ih =>
    rw [List.cons_append, Cpu.run, Cpu.run]
    cases i.exec c with
    | none => rfl
    | some c₁ => exact ih

lemma Cpu.run_push : Cpu.run (rs.map .push) c = some { c with toState := c.pushAll .rsp rs } := by
  induction rs generalizing c with
  | nil => rfl
  | cons r rs ih => exact ih

lemma Cpu.run_pop : Cpu.run (rs.map .pop) c = some { c with toState := c.popAll .rsp rs } := by
  induction rs generalizing c with
  | nil => rfl
  | cons r rs ih => exact ih

end Xbks
