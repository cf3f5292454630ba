import Xbks.Arch.SyscallEntry
import Xbks.Process.Boot

/-!
# What a system call does to the registers

From the instruction `syscall` to the return of `sysretq`, the machine does exactly what the dispatcher does to the
frame that consists of the registers of the program.
-/

namespace Xbks

open Stack (Holds holds_cons holds_append)

variable {c c' : Cpu} {k k' : Kernel} {m m' : Machine} {is is' : List Instruction} {f : SyscallFrame}
  {a v entry saved : UInt64}

/-! ### Frames -/

/-- The frame of a call that a program makes with these registers. `syscall` has put the address of the next
instruction into `rcx` and the flags into `r11`. -/
def Context.frame (u : Context) : SyscallFrame where
  r15 := u.reg .r15
  r14 := u.reg .r14
  r13 := u.reg .r13
  r12 := u.reg .r12
  r11 := u.rflags
  r10 := u.reg .r10
  r9 := u.reg .r9
  r8 := u.reg .r8
  rbp := u.reg .rbp
  rdi := u.reg .rdi
  rsi := u.reg .rsi
  rdx := u.reg .rdx
  rcx := u.rip + 2
  rbx := u.reg .rbx
  rax := u.reg .rax
  userRflags := u.rflags
  userRip := u.rip + 2
  userRsp := u.reg .rsp

/-- The registers of a frame. -/
def SyscallFrame.register (f : SyscallFrame) : Register → UInt64
  | .rax => f.rax
  | .rbx => f.rbx
  | .rcx => f.rcx
  | .rdx => f.rdx
  | .rsi => f.rsi
  | .rdi => f.rdi
  | .rbp => f.rbp
  | .rsp => f.userRsp
  | .r8 => f.r8
  | .r9 => f.r9
  | .r10 => f.r10
  | .r11 => f.r11
  | .r12 => f.r12
  | .r13 => f.r13
  | .r14 => f.r14
  | .r15 => f.r15

/-- The selectors of the program's segments. -/
abbrev userCode : UInt16 := 0x2b
abbrev userData : UInt16 := 0x23

/-- How a program goes on when its call has left a frame and returns a value. -/
def SyscallFrame.resume (f : SyscallFrame) (v : UInt64) : Context where
  reg := Function.update (Function.update (Function.update f.register .rax v) .rcx f.userRip) .r11 f.userRflags
  rip := f.userRip
  rflags := loadedFlags f.userRflags
  cs := userCode
  ss := userData

/-- The registers that the entry code pushes, and those that it pops before the last three. -/
def pushedRegisters : List Register :=
  [.rcx, .r11, .rax, .rbx, .rcx, .rdx, .rsi, .rdi, .rbp, .r8, .r9, .r10, .r11, .r12, .r13, .r14, .r15]

def poppedRegisters : List Register :=
  [.r15, .r14, .r13, .r12, .r11, .r10, .r9, .r8, .rbp, .rdi, .rsi, .rdx, .rcx, .rbx, .rax]

lemma frameAt_eq_iff {m : Stack.Words} : frameAt m a = f ↔ Holds m a f.words := by
  cases f
  simp [frameAt, SyscallFrame.words, holds_cons, UInt64.add_assoc]

/-! ### Straight code -/

lemma executes_append (h : Instruction.call ∉ is) : Executes (is ++ is') m m' ↔
    ∃ c, Cpu.run is m.cpu = some c ∧ Executes is' ⟨c, m.kernel⟩ m' := by
  induction is generalizing m with
  | nil =>
    constructor
    · intro hrest
      exact ⟨m.cpu, rfl, hrest⟩
    · rintro ⟨c, hc, hrest⟩
      cases hc
      exact hrest
  | cons i is ih =>
    rw [List.mem_cons, not_or] at h
    constructor
    · intro hexec
      cases hexec with
      | call => exact absurd rfl h.1
      | plain hi hrest =>
        obtain ⟨c, hc, hrest⟩ := (ih h.2).mp hrest
        exact ⟨c, by rw [Cpu.run, hi]; exact hc, hrest⟩
    · rintro ⟨c, hc, hrest⟩
      obtain ⟨c₁, hi, hc⟩ := Option.bind_eq_some_iff.mp hc
      exact .plain hi ((ih h.2).mpr ⟨c, hc, hrest⟩)

lemma executes_call : Executes (.call :: is) m m' ↔ ∃ m₁, Dispatches m m₁ ∧ Executes is m₁ m' := by
  constructor
  · intro h
    cases h with
    | plain hi => cases hi
    | call hd hrest => exact ⟨_, hd, hrest⟩
  · rintro ⟨m₁, hd, hrest⟩
    exact .call hd hrest

lemma executes_straight (h : Instruction.call ∉ is) : Executes is m m' ↔
    ∃ c, Cpu.run is m.cpu = some c ∧ m' = ⟨c, m.kernel⟩ := by
  rw [← List.append_nil is, executes_append h, List.append_nil]
  constructor
  · rintro ⟨c, hc, hrest⟩
    cases hrest
    exact ⟨c, hc, rfl⟩
  · rintro ⟨c, hc, rfl⟩
    exact ⟨c, hc, .nil _⟩

/-! ### The code around the call -/

/-- The code of the entry, in the parts that the proofs treat. -/
lemma syscallEntry_eq (saved : UInt64) : syscallEntry saved =
    ([.movToSymbol .rsp saved, .lea (stackTopSymbol saved) .rsp, .pushSymbol saved] ++
      pushedRegisters.map .push ++ [.mov .rsp .rdi]) ++ .call ::
    ([.movToStack .rax 112] ++ poppedRegisters.map .pop ++ [.pop .r11, .pop .rcx, .pop .rsp, .sysretq]) := rfl

/-- The processor on the stack of the entry code, with the stack pointer of the program as the first word. -/
def Cpu.onStack (c : Cpu) (saved top : UInt64) : Cpu :=
  { c with toState := Stack.State.push .rsp (c.reg .rsp) ((c.setWord saved (c.reg .rsp)).set .rsp top).toState }

lemma run_onStack (c : Cpu) (saved top : UInt64) :
    Cpu.run [.movToSymbol .rsp saved, .lea top .rsp, .pushSymbol saved] c = some (c.onStack saved top) := by
  simp only [Cpu.run, Instruction.exec, Option.bind_some, Cpu.set_mem, Cpu.setWord_mem_self]
  rfl

lemma onStack_rsp (c : Cpu) (saved top : UInt64) : (c.onStack saved top).reg .rsp = top - 8 := by
  rw [Cpu.onStack, Stack.push_reg_sp, Cpu.set_reg_self]

lemma onStack_holds (c : Cpu) (saved top : UInt64) :
    Holds (c.onStack saved top).mem ((c.onStack saved top).reg .rsp) [c.reg .rsp] := by
  rw [onStack_rsp, Cpu.onStack, Stack.State.push, Cpu.set_reg_self]
  exact Stack.holds_nil.push (by rw [List.length_nil]; norm_num) _

lemma onStack_map (c : Cpu) (saved top : UInt64) :
    pushedRegisters.map (c.onStack saved top).reg = pushedRegisters.map c.reg := by
  refine List.map_congr_left fun r hr => ?_
  have hne : r ≠ .rsp := by
    rintro rfl
    exact absurd hr (by decide)
  rw [Cpu.onStack, Stack.push_reg_of_ne hne, Cpu.set_reg_of_ne _ _ hne, Cpu.setWord_reg]

/-- Before the call, the registers that the program had when it executed `syscall` are a frame on the stack. -/
lemma run_prologue (c : Cpu) (saved top : UInt64) : ∃ c',
    Cpu.run ([.movToSymbol .rsp saved, .lea top .rsp, .pushSymbol saved] ++ pushedRegisters.map .push ++
      [.mov .rsp .rdi]) c = some c' ∧
    c'.reg .rsp = top - 144 ∧ c'.reg .rdi = c'.reg .rsp ∧
    Holds c'.mem (c'.reg .rsp) ((pushedRegisters.map c.reg).reverse ++ [c.reg .rsp]) ∧
    c'.cs = c.cs ∧ c'.msrs = c.msrs := by
  have hrsp : Register.rsp ∉ pushedRegisters := by decide
  have hne : Register.rsp ≠ .rdi := by decide
  have hlen : pushedRegisters.length + [c.reg .rsp].length < 2 ^ 61 := by
    rw [List.length_singleton]
    exact Nat.lt_of_le_of_lt (show pushedRegisters.length + 1 ≤ 18 by decide) (by norm_num)
  have hholds := Stack.pushAll_holds hrsp (onStack_holds c saved top) hlen
  have hreg := congrFun (Stack.pushAll_reg (s := (c.onStack saved top).toState) hrsp) .rsp
  rw [Function.update_self, onStack_rsp, sub_sub] at hreg
  rw [onStack_map] at hholds
  generalize hc' : ({ c.onStack saved top with
    toState := (c.onStack saved top).pushAll .rsp pushedRegisters } : Cpu) = c'
  have hstate : (c.onStack saved top).pushAll .rsp pushedRegisters = c'.toState := by rw [← hc']
  rw [hstate] at hholds hreg
  refine ⟨c'.set .rdi (c'.reg .rsp), ?_, ?_, ?_, ?_, ?_, ?_⟩
  · rw [Cpu.run_append, Cpu.run_append, run_onStack, Option.bind_some, Cpu.run_push, Option.bind_some, hc']
    rfl
  · rw [Cpu.set_reg_of_ne _ _ hne]
    exact hreg
  · rw [Cpu.set_reg_of_ne _ _ hne, Cpu.set_reg_self]
  · rw [Cpu.set_reg_of_ne _ _ hne]
    exact hholds
  · rw [← hc']
    rfl
  · rw [← hc']
    rfl

/-- The frame that the entry code builds, from the registers behind `syscall`. -/
lemma words_of_syscall (h : c.syscall = some c') :
    (pushedRegisters.map c'.reg).reverse ++ [c'.reg .rsp] = c.context.frame.words := by
  rw [Cpu.syscall] at h
  split_ifs at h
  cases h
  rfl

/-- The frame with the result of the call in place of `rax`, as the registers that are popped. -/
lemma words_popped (f : SyscallFrame) (v : UInt64) : f.words.set 14 v =
    poppedRegisters.map (Function.update f.register .rax v) ++ [f.userRflags, f.userRip, f.userRsp] := rfl

/-- The three words on top of the stack go to the flags, the return address and the stack pointer. -/
lemma pop_last {s : Stack.State Register} {w₀ w₁ w₂ : UInt64}
    (h : Holds s.mem (s.reg .rsp) [w₀, w₁, w₂]) :
    (((s.pop .rsp .r11).pop .rsp .rcx).pop .rsp .rsp).reg =
      Function.update (Function.update (Function.update s.reg .r11 w₀) .rcx w₁) .rsp w₂ := by
  rw [holds_cons, holds_cons, holds_cons] at h
  obtain ⟨h₀, h₁, h₂, -⟩ := h
  funext r
  cases r <;> simp [Stack.State.pop, Function.update, h₀, h₁, h₂]

/-- After the call, the registers are loaded from the frame. -/
lemma run_epilogue (h : Holds c.mem (c.reg .rsp) f.words) : ∃ c' : Cpu,
    Cpu.run ([.movToStack .rax 112] ++ poppedRegisters.map .pop ++ [.pop .r11, .pop .rcx, .pop .rsp, .sysretq]) c =
      c'.sysretq ∧
    c'.reg = (f.resume (c.reg .rax)).reg ∧ c'.cs = c.cs ∧ c'.msrs = c.msrs := by
  have hlen : f.words.length = 18 := rfl
  have hset := h.set (i := 14) (by rw [hlen]; norm_num) (by rw [hlen]; norm_num) (c.reg .rax)
  rw [words_popped, holds_append, List.length_map] at hset
  generalize hc₁ : c.setWord (Stack.place (c.reg .rsp) 14) (c.reg .rax) = c₁
  have hstore : Cpu.run [.movToStack .rax 112] c = some c₁ := by
    rw [← hc₁]
    rfl
  have hmem : c₁.mem = Function.update c.mem (Stack.place (c.reg .rsp) 14) (c.reg .rax) := by
    rw [← hc₁]
    rfl
  have hreg₁ : c₁.reg = c.reg := by rw [← hc₁, Cpu.setWord_reg]
  rw [← hmem, ← hreg₁] at hset
  have hreg := Stack.popAll_reg (show Register.rsp ∉ poppedRegisters by decide) hset.1
  have htop : Holds (c₁.popAll .rsp poppedRegisters).mem ((c₁.popAll .rsp poppedRegisters).reg .rsp)
      [f.userRflags, f.userRip, f.userRsp] := by
    rw [Stack.popAll_mem, hreg, Function.update_self]
    exact hset.2
  have hlast := pop_last htop
  rw [hreg, hreg₁] at hlast
  refine ⟨{ c₁ with toState := (((c₁.popAll .rsp poppedRegisters).pop .rsp .r11).pop .rsp .rcx).pop .rsp .rsp },
    ?_, hlast.trans ?_, ?_, ?_⟩
  · rw [Cpu.run_append, Cpu.run_append, hstore, Option.bind_some, Cpu.run_pop, Option.bind_some]
    simp only [Cpu.run, Instruction.exec, Option.bind_some, Option.bind_fun_some]
  · funext r
    cases r <;> simp [poppedRegisters, SyscallFrame.resume, SyscallFrame.register, Function.update]
  · rw [← hc₁]
    rfl
  · rw [← hc₁]
    rfl

/-! ### The instructions of the processor -/

lemma Configured.enabled {m : Msrs} (h : Configured entry m) : m.syscallEnabled := by
  obtain ⟨m₀, rfl⟩ := h
  show (m₀.efer ||| eferSyscallEnable) &&& 1 ≠ 0
  rw [show eferSyscallEnable = 1 from rfl, Word.or_and_self]
  decide

lemma Configured.star {m : Msrs} (h : Configured entry m) :
    m.star = ((0x08 : UInt64) <<< 32) ||| ((0x18 : UInt64) <<< 48) := by
  obtain ⟨m₀, rfl⟩ := h
  rfl

/-- `syscall` enters the kernel at the entry code, in the privilege level of the kernel. -/
lemma syscall_configured (h : Configured entry c.msrs) : ∃ c', c.syscall = some c' ∧ c'.rip = entry ∧
    c'.context.privilege = 0 ∧ c'.msrs = c.msrs := by
  refine ⟨_, if_pos h.enabled, ?_, ?_, rfl⟩
  · obtain ⟨m₀, hm⟩ := h
    show c.msrs.lstar = entry
    rw [hm]
    rfl
  · show ((c.msrs.star >>> 32).toUInt16 &&& 0xfffc) &&& 3 = 0
    rw [h.star]
    decide

/-- `sysretq` leaves the kernel for a canonical address, and only for one. -/
lemma sysretq_iff (h : Configured entry c.msrs) (hkernel : c.context.privilege = 0)
    (hreg : c.reg = (f.resume v).reg) : c.sysretq = some c' ↔
      Canonical f.userRip ∧ c'.context = f.resume v ∧ c'.mem = c.mem ∧ c'.msrs = c.msrs := by
  have hrcx : c.reg .rcx = f.userRip := by
    rw [hreg]
    rfl
  have hr11 : c.reg .r11 = f.userRflags := by
    rw [hreg]
    rfl
  have hcs : ((c.msrs.star >>> 48).toUInt16 + 16) ||| 3 = userCode := by
    rw [h.star]
    decide
  have hss : ((c.msrs.star >>> 48).toUInt16 + 8) ||| 3 = userData := by
    rw [h.star]
    decide
  rw [Cpu.sysretq, hrcx, hr11, hcs, hss]
  by_cases hcan : Canonical f.userRip
  · rw [if_pos ⟨h.enabled, hkernel, hcan⟩]
    constructor
    · intro hc'
      cases hc'
      refine ⟨hcan, ?_, rfl, rfl⟩
      rw [Cpu.context, hreg]
      rfl
    · rintro ⟨-, hcontext, hmem, hmsrs⟩
      have hreg' : c'.reg = c.reg := (congrArg Context.reg hcontext).trans hreg.symm
      refine congrArg some (Cpu.ext hreg'.symm hmem.symm ?_ ?_ ?_ ?_ hmsrs.symm)
      · exact (congrArg Context.rip hcontext).symm
      · exact (congrArg Context.rflags hcontext).symm
      · exact (congrArg Context.cs hcontext).symm
      · exact (congrArg Context.ss hcontext).symm
  · rw [if_neg fun hall => hcan hall.2.2]
    constructor
    · intro hc'
      cases hc'
    · rintro ⟨hcan', -⟩
      exact absurd hcan' hcan

lemma exists_sysretq (h : Configured entry c.msrs) (hkernel : c.context.privilege = 0)
    (hreg : c.reg = (f.resume v).reg) (hcan : Canonical f.userRip) :
    ∃ c', c.sysretq = some c' ∧ c'.context = f.resume v ∧ c'.msrs = c.msrs :=
  ⟨{ c.setContext (f.resume v) with msrs := c.msrs }, (sysretq_iff h hkernel hreg).mpr ⟨hcan, rfl, rfl, rfl⟩, rfl,
    rfl⟩

/-! ### The whole path -/

/-- The stack is aligned when the dispatcher is called. -/
lemma stack_aligned (h : saved.toNat % 16 = 0) : (stackTopSymbol saved - 144).toNat % 16 = 0 := by
  have hsub : stackTopSymbol saved - 144 = saved + 16256 := by
    rw [stackTopSymbol, sub_eq_iff_eq_add, add_assoc, add_assoc]
    rfl
  have hlow : (16256 : UInt64).toNat = 16256 := rfl
  rw [hsub, UInt64.toNat_add, hlow]
  omega

lemma executes_syscallEntry : Executes (syscallEntry saved) m m' ↔ ∃ c₂ m₃ c₄, Cpu.run
    ([.movToSymbol .rsp saved, .lea (stackTopSymbol saved) .rsp, .pushSymbol saved] ++ pushedRegisters.map .push ++
      [.mov .rsp .rdi]) m.cpu = some c₂ ∧ Dispatches ⟨c₂, m.kernel⟩ m₃ ∧ Cpu.run ([.movToStack .rax 112] ++
        poppedRegisters.map .pop ++ [.pop .r11, .pop .rcx, .pop .rsp, .sysretq]) m₃.cpu = some c₄ ∧
      m' = ⟨c₄, m₃.kernel⟩ := by
  rw [syscallEntry_eq, executes_append (by simp [pushedRegisters])]
  constructor
  · rintro ⟨c₂, hc₂, hrest⟩
    obtain ⟨m₃, hdispatches, hrest⟩ := executes_call.mp hrest
    obtain ⟨c₄, hc₄, hm'⟩ := (executes_straight (by decide)).mp hrest
    exact ⟨c₂, m₃, c₄, hc₂, hdispatches, hc₄, hm'⟩
  · rintro ⟨c₂, m₃, c₄, hc₂, hdispatches, hc₄, hm'⟩
    exact ⟨c₂, hc₂, executes_call.mpr ⟨m₃, hdispatches, (executes_straight (by decide)).mpr ⟨c₄, hc₄, hm'⟩⟩⟩

/-- Before the call of the dispatcher and after it, the processor is in the kernel's privilege level and the frame is
on top of the stack. -/
lemma syscall_prologue (h : Configured entry c.msrs) : ∃ c₁ c₂, c.syscall = some c₁ ∧ c₁.rip = entry ∧ Cpu.run
    ([.movToSymbol .rsp saved, .lea (stackTopSymbol saved) .rsp, .pushSymbol saved] ++ pushedRegisters.map .push ++
      [.mov .rsp .rdi]) c₁ = some c₂ ∧ c₂.reg .rsp = stackTopSymbol saved - 144 ∧ c₂.reg .rdi = c₂.reg .rsp ∧
    frameAt c₂.mem (c₂.reg .rsp) = c.context.frame ∧ ∀ m₃, Dispatches ⟨c₂, k⟩ m₃ → m₃.cpu.msrs = c.msrs ∧
      m₃.cpu.context.privilege = 0 ∧
      frameAt m₃.cpu.mem (m₃.cpu.reg .rsp) = frameAt m₃.cpu.mem (c₂.reg .rsp) := by
  obtain ⟨c₁, hsyscall, hrip, hkernel, hmsrs₁⟩ := syscall_configured h
  obtain ⟨c₂, hprologue, hrsp, hrdi, hframe, hcs₂, hmsrs₂⟩ := run_prologue c₁ saved (stackTopSymbol saved)
  rw [words_of_syscall hsyscall, ← frameAt_eq_iff] at hframe
  refine ⟨c₁, c₂, hsyscall, hrip, hprologue, hrsp, hrdi, hframe, fun m₃ hdispatches => ⟨?_, ?_, ?_⟩⟩
  · exact hdispatches.msrs.trans (hmsrs₂.trans hmsrs₁)
  · rw [Context.privilege, Cpu.context, hdispatches.cs, hcs₂]
    exact hkernel
  · rw [hdispatches.kept .rsp (by decide)]

/-- After a system call the program goes on with the registers of the frame that the dispatcher leaves for the frame of
its registers. -/
lemma SystemCall.dispatch (h : SystemCall entry saved m m') (hconf : Configured entry m.cpu.msrs) :
    ∃ v f, processSyscallDispatch m.cpu.context.frame m.kernel = (.ok (v, f), m'.kernel) ∧
      Canonical f.userRip ∧ m'.cpu.context = f.resume v ∧ m'.cpu.msrs = m.cpu.msrs := by
  obtain ⟨c₁, c₂, hsyscall, -, hprologue, -, hrdi, hframe, hreturned⟩ :=
    @syscall_prologue m.cpu m.kernel entry saved hconf
  obtain ⟨c₁', hsyscall', -, hexec⟩ := h
  obtain rfl : c₁' = c₁ := Option.some.inj (hsyscall'.symm.trans hsyscall)
  obtain ⟨c₂', m₃, c₄, hc₂, hdispatches, hc₄, rfl⟩ := executes_syscallEntry.mp hexec
  obtain rfl : c₂' = c₂ := Option.some.inj (hc₂.symm.trans hprologue)
  obtain ⟨hmsrs₃, hkernel₃, hframe₃⟩ := hreturned m₃ hdispatches
  have hresult := hdispatches.result
  dsimp only at hresult
  rw [hrdi, hframe, ← hframe₃] at hresult
  obtain ⟨c₅, hrun, hreg, hcs, hmsrs⟩ := run_epilogue (frameAt_eq_iff.mp rfl)
  rw [hrun] at hc₄
  have hkernel₅ : c₅.context.privilege = 0 := by
    rw [Context.privilege, Cpu.context, hcs]
    exact hkernel₃
  obtain ⟨hcan, hcontext, -, hmsrs₄⟩ := (sysretq_iff (by rwa [hmsrs, hmsrs₃]) hkernel₅ hreg).mp hc₄
  exact ⟨_, _, hresult, hcan, hcontext, hmsrs₄.trans (hmsrs.trans hmsrs₃)⟩

/-- If the dispatcher returns with a canonical address, so does the system call. -/
lemma systemCall_of_dispatch (hconf : Configured entry c.msrs) (haligned : saved.toNat % 16 = 0)
    (hdispatch : processSyscallDispatch c.context.frame k = (.ok (v, f), k')) (hcan : Canonical f.userRip) :
    ∃ c', SystemCall entry saved ⟨c, k⟩ ⟨c', k'⟩ ∧ c'.context = f.resume v ∧ c'.msrs = c.msrs := by
  obtain ⟨c₁, c₂, hsyscall, hrip, hprologue, hrsp, hrdi, hframe, hreturned⟩ :=
    @syscall_prologue c k entry saved hconf
  let c₃ : Cpu := { c₂ with
    reg := Function.update c₂.reg .rax v
    mem := Stack.fill c₂.mem (c₂.reg .rsp) f.words }
  have hlen : f.words.length < 2 ^ 61 := Nat.lt_of_le_of_lt (show f.words.length ≤ 18 from le_rfl) (by norm_num)
  have hframe₃ : frameAt c₃.mem (c₂.reg .rsp) = f := frameAt_eq_iff.mpr (Stack.holds_fill _ _ hlen)
  have hrax : c₃.reg .rax = v := by
    show Function.update c₂.reg .rax v .rax = v
    rw [Function.update_self]
  have hdispatches : Dispatches ⟨c₂, k⟩ ⟨c₃, k'⟩ := by
    refine ⟨?_, ?_, fun r hr => ?_, rfl, rfl⟩
    · show (c₂.reg .rsp).toNat % 16 = 0
      rw [hrsp]
      exact stack_aligned haligned
    · dsimp only
      rw [hrdi, hframe, hframe₃, hrax]
      exact hdispatch
    · refine Function.update_of_ne ?_ _ _
      rintro rfl
      exact absurd hr (by decide)
  obtain ⟨hmsrs₃, hkernel₃, hrsp₃⟩ := hreturned _ hdispatches
  obtain ⟨c₅, hrun, hreg, hcs, hmsrs⟩ := run_epilogue (frameAt_eq_iff.mp (hrsp₃.trans hframe₃))
  have hkernel₅ : c₅.context.privilege = 0 := by
    rw [Context.privilege, Cpu.context, hcs]
    exact hkernel₃
  rw [hrax] at hreg
  obtain ⟨c', hsysretq, hcontext, hmsrs'⟩ := exists_sysretq (by rwa [hmsrs, hmsrs₃]) hkernel₅ hreg hcan
  exact ⟨c', ⟨c₁, hsyscall, hrip, executes_syscallEntry.mpr
    ⟨c₂, _, c', hprologue, hdispatches, hrun.trans hsysretq, rfl⟩⟩, hcontext, hmsrs'.trans (hmsrs.trans hmsrs₃)⟩

/-- What a system call leads to: the dispatcher returns for the frame of the program's registers, and the program
goes on with the registers of the frame that the dispatcher leaves. -/
theorem systemCall_iff {u : Context} (h : Configured entry c.msrs) (haligned : saved.toNat % 16 = 0) :
    (∃ c', SystemCall entry saved ⟨c, k⟩ ⟨c', k'⟩ ∧ c'.context = u) ↔
      ∃ v f, processSyscallDispatch c.context.frame k = (.ok (v, f), k') ∧ Canonical f.userRip ∧
        u = f.resume v := by
  constructor
  · rintro ⟨c', hcall, hu⟩
    obtain ⟨v, f, hdispatch, hcan, hcontext, -⟩ := hcall.dispatch h
    exact ⟨v, f, hdispatch, hcan, hu.symm.trans hcontext⟩
  · rintro ⟨v, f, hdispatch, hcan, rfl⟩
    obtain ⟨c', hcall, hcontext, -⟩ := systemCall_of_dispatch h haligned hdispatch hcan
    exact ⟨c', hcall, hcontext⟩

/-- A processor that is about to call the kernel. -/
def callingCpu (number rip entry : UInt64) : Cpu where
  reg := Function.update (fun _ => 0) .rax number
  mem := fun _ => 0
  rip := rip
  rflags := 0x202
  cs := userCode
  ss := userData
  msrs := syscallInit entry ⟨0, 0, 0, 0⟩

lemma dispatch_getpid (hn : syscallNumber f.rax = .getpid) (k : Kernel) :
    processSyscallDispatch f k = (.ok (toU64 k.current.pid, f), k) := by
  rw [processSyscallDispatch, hn]
  rfl

/-- The first process of the small machine asks for its number. -/
theorem systemCall_iff_small : ∃ c', SystemCall 0 0 ⟨callingCpu 39 0x10000 0, started (smallBoot 0x10000)⟩
    ⟨c', started (smallBoot 0x10000)⟩ ∧ c'.context = (callingCpu 39 0x10000 0).context.frame.resume
      (toU64 (started (smallBoot 0x10000)).current.pid) := by
  have hconf : Configured 0 (callingCpu 39 0x10000 0).msrs := ⟨⟨0, 0, 0, 0⟩, rfl⟩
  have haligned : (0 : UInt64).toNat % 16 = 0 := by decide
  have hnumber : syscallNumber (callingCpu 39 0x10000 0).context.frame.rax = .getpid := by decide
  have hcan : Canonical (callingCpu 39 0x10000 0).context.frame.userRip := by decide
  exact (systemCall_iff hconf haligned).mpr ⟨_, _, dispatch_getpid hnumber _, hcan, rfl⟩

end Xbks
