import Xbks.Properties.SyscallPath
import Xbks.Properties.Vfork
import Xbks.Properties.UserReturn
import Xbks.Properties.Views

/-!
# Programs and the registers they get back

Runs of the machine with its registers. Each step is one of the kernel's runs or leaves the kernel alone, programs
always run in user mode, and an exit resumes the context of the `vfork` that it belongs to.
-/

namespace Xbks

open Transition (Path)

variable {boot : BootInfo} {entry saved : UInt64} {m₀ m m' : Machine} {actions : List Machine.Action}
  {a : Machine.Action} {c p : Slot} {k k' : Kernel} {l : List Slot} {F : List UInt64}
  {frame f : SyscallFrame} {v : UInt64} {e : Event}

/-! ### The flags of a frame -/

/-- The processor runs a program, with interrupts on and without access to the ports. -/
structure UserMode (entry : UInt64) (c : Cpu) : Prop where
  msrs : Configured entry c.msrs
  cs : c.cs = userCode
  ss : c.ss = userData
  flags : c.rflags &&& systemFlags = rflagsInterruptEnable

lemma loadedFlags_system (flags : UInt64) : loadedFlags flags &&& systemFlags = flags &&& systemFlags := by
  have hmask : sysretFlags &&& systemFlags = systemFlags := by decide
  have htwo : (2 : UInt64) &&& systemFlags = 0 := by decide
  rw [loadedFlags, Word.or_and, UInt64.and_assoc, hmask, htwo, UInt64.or_zero]

/-- Only an exit returns with other flags than the call was made with. -/
lemma dispatch_userRflags (hinv : TableInv k l) (hn : syscallNumber frame.rax ≠ .exit)
    (h : processSyscallDispatch frame k = (.ok (v, f), k')) : f.userRflags = frame.userRflags := by
  have hout := dispatch_outcome frame k
  rw [h] at hout
  generalize hr : ((.ok (v, f) : Except Stop (UInt64 × SyscallFrame)), k') = r at hout
  cases hout with
  | stays _ hframe =>
    cases hr
    rw [hframe v f rfl]
  | vfork =>
    have hframe := vfork_frame hinv hr.symm
    exact congrArg SyscallFrame.userRflags hframe
  | @execve path argv envp k₁ _ hexecs =>
    have hends := execveLoaded_ends frame path argv envp k₁
    generalize execveLoaded frame path argv envp k₁ = r at hends hr
    cases hends with
    | failed | done =>
      cases hr
      rfl
  | wait4 =>
    cases hr
    rfl
  | exit hexit => exact absurd hexit hn

/-! ### The table -/

/-- What a step does to the chain of the current process and those that wait for it. -/
inductive ChainStep (k : Kernel) (l : List Slot) (e : Event) (k' : Kernel) : Prop
  | same (hinv : TableInv k' l) (hcurrent : k'.currentProcess = k.currentProcess) (he : e.isExit = false)
  | push {frame f : SyscallFrame} (heq : e = .syscall frame) (hn : syscallNumber frame.rax = .vfork)
      (h : processSyscallDispatch frame k = (.ok (0, f), k')) (hinv : TableInv k' (k.currentProcess :: l))
  | pop {parent : Slot} {l' : List Slot} (hl : l = parent :: l') (hcurrent : k'.currentProcess = parent)
      (hinv : TableInv k' l')

lemma chainStep_of_step (h : TableInv k l) (hstep : step k e = some k') : ChainStep k l e k' := by
  cases e with
  | store address value =>
    obtain ⟨physical, htop, ht, rfl⟩ := step_store_eq hstep
    exact .same ((local_setByte htop ht).sameTable.inv h) rfl rfl
  | syscall frame =>
    obtain ⟨r, hd⟩ := step_syscall_ok hstep
    by_cases hexit : syscallNumber frame.rax = .exit
    · rw [processSyscallDispatch, hexit] at hd
      obtain ⟨parent, l', rfl, -, -, rfl, -⟩ := h.exit_ok hd
      exact .pop rfl rfl (h.exited frame.rdi)
    have he : (Event.syscall frame).isExit = false := by simp [Event.isExit, hexit]
    cases step_cases hstep with
    | stays hlocal => exact .same (hlocal.sameTable.inv h) hlocal.currentProcess he
    | @vfork _ r' _ hn hvfork =>
      have hends := h.vfork_ends frame
      rw [hvfork] at hends
      have hdispatch : processSyscallDispatch frame k = (.ok r', k') := by
        rw [processSyscallDispatch, hn]
        exact hvfork
      cases hends with
      | full => exact .same h rfl he
      | noFrame => exact .same (h.vforkFailed _) rfl he
      | noCopy => exact .same (h.vforkFailed _) rfl he
      | done hslot => exact .push rfl hn hdispatch (h.vforked (unusedSlot_some hslot) _ _)
    | @execve _ path argv envp _ _ hexecs =>
      have hsame := hexecs.isLocal.sameTable.trans (sameTable_execveLoaded frame path argv envp)
      exact .same (hsame.inv h) hsame.currentProcess he
    | wait4 _ hzombie hlocal =>
      have hz := (zombieChild_some hzombie).1
      rw [← hlocal.sameTable.field Process.state fun _ _ _ _ _ _ => rfl] at hz
      exact .same ((hlocal.sameTable.inv h).reap hz) hlocal.currentProcess he
    | exit hn => exact absurd hn hexit

/-! ### Runs of the machine -/

/-- A step of the machine in which `execve` does not load a program with a segment that wraps around. -/
def Admitted (entry saved : UInt64) (m : Machine) (a : Machine.Action) (m' : Machine) : Prop :=
  Machine.Step entry saved m a m' ∧ (a = .syscall → ExecFits m.kernel (.syscall m.cpu.context.frame))

/-- A `vfork` that has answered 0: the child runs on with the registers of the call. -/
structure Vforks (entry saved : UInt64) (u w : Machine) : Prop where
  number : syscallNumber (u.cpu.reg .rax) = .vfork
  call : SystemCall entry saved u w
  context : w.cpu.context = u.cpu.context.frame.resume 0

/-- The run has gone through a `vfork` from `u` to `w`. -/
structure Passed (entry saved : UInt64) (m₀ m : Machine) (actions : List Machine.Action) (u w : Machine) : Prop where
  before : ∃ before after, actions = before ++ .syscall :: after ∧ Path (Admitted entry saved) m₀ before u ∧
    Path (Admitted entry saved) w after m
  vforks : Vforks entry saved u w

/-- The process in slot `p` has called `vfork` in the run, and waits since then for its child in slot `c`. -/
def Awaits (entry saved : UInt64) (m₀ m : Machine) (actions : List Machine.Action) (c p : Slot) : Prop :=
  ∃ u w f l, Passed entry saved m₀ m actions u w ∧ UserMode entry u.cpu ∧ u.kernel.currentProcess = p ∧
    w.kernel.currentProcess = c ∧ u.kernel.current.state = .running ∧ u.kernel.cr3 = u.kernel.current.cr3 ∧
    u.kernel.current.cr3 ≠ 0 ∧ Suspended u.kernel p c f w.kernel.current.pid m.kernel l ∧
    { f with rax := 0 } = { u.cpu.context.frame with rax := 0 }

/-- The state that a run of the machine has reached. -/
structure Reached (boot : BootInfo) (entry saved : UInt64) (m₀ m : Machine) (actions : List Machine.Action) : Prop where
  mode : UserMode entry m.cpu
  run : ∃ es, Run ExecFits (started boot) es m.kernel
  chain : ∃ l F, TableInv m.kernel l ∧ Owned boot.memory m.kernel F ∧
    (m.kernel.currentProcess :: l).IsChain (Awaits entry saved m₀ m actions)

lemma Awaits.step (h : Awaits entry saved m₀ m actions c p) (hstep : Admitted entry saved m a m')
    (hsuspended : ∀ {k₀ f pid l}, Suspended k₀ p c f pid m.kernel l → ∃ l', Suspended k₀ p c f pid m'.kernel l') :
    Awaits entry saved m₀ m' (actions ++ [a]) c p := by
  obtain ⟨u, w, f, l, ⟨⟨before, after, hactions, hbefore, hafter⟩, hvforks⟩, hmode, hp, hc, hrunning, hcr3, hne,
    hsusp, hf⟩ := h
  obtain ⟨l', hsusp'⟩ := hsuspended hsusp
  refine ⟨u, w, f, l', ⟨⟨before, after ++ [a], ?_, hbefore, hafter.snoc hstep⟩, hvforks⟩, hmode, hp, hc, hrunning,
    hcr3, hne, hsusp', hf⟩
  rw [hactions, List.append_assoc]
  rfl

/-- What an exit goes back to. -/
structure Resumes (u w m : Machine) (v : UInt64) (f : SyscallFrame) (k' : Kernel) : Prop where
  value : v = toU64 m.kernel.current.pid
  child : w.kernel.currentProcess = m.kernel.currentProcess
  pid : w.kernel.current.pid = m.kernel.current.pid
  frame : { f with rax := 0 } = { u.cpu.context.frame with rax := 0 }
  currentProcess : k'.currentProcess = u.kernel.currentProcess
  current : k'.current = u.kernel.current
  view : k'.view = u.kernel.view

lemma Awaits.exit (h : Awaits entry saved m₀ m actions m.kernel.currentProcess p)
    (howned : Owned boot.memory m.kernel F) (hn : syscallNumber frame.rax = .exit)
    (hd : processSyscallDispatch frame m.kernel = (.ok (v, f), k')) :
    ∃ u w, Passed entry saved m₀ m actions u w ∧ UserMode entry u.cpu ∧ Resumes u w m v f k' := by
  obtain ⟨u, w, g, l, hpassed, hmode, rfl, hc, hrunning, hcr3, hne, hsusp, hg⟩ := h
  rw [processSyscallDispatch, hn] at hd
  obtain ⟨parent, l', rfl, hvfork, hpne, rfl, hr⟩ := hsusp.inv.exit_ok hd
  cases hr
  -- the process that waits for the current one is the next of the chain
  obtain rfl : parent = u.kernel.currentProcess := by
    obtain ⟨pre, post, hchain⟩ := hsusp.chain
    cases pre with
    | nil => exact (List.cons.inj (List.cons.inj hchain).2).1
    | cons i pre =>
      have hnd := hsusp.inv.nodup
      rw [hchain, ← (List.cons.inj hchain).1] at hnd
      simp at hnd
  obtain ⟨-, -, hkept⟩ := howned.exited_step hsusp.inv frame.rdi hpne
  have hkept := hsusp.kept.trans (hkept u.kernel.currentProcess)
  have hself : (m.kernel.exited frame.rdi u.kernel.currentProcess).current = u.kernel.current := by
    show (m.kernel.exited frame.rdi u.kernel.currentProcess).processes u.kernel.currentProcess = u.kernel.current
    rw [exited_parent, hsusp.record, ← hrunning]
    rfl
  have hframe : m.kernel.current.savedParentFrame = g := hsusp.saved
  refine ⟨u, w, hpassed, hmode, rfl, hc, hsusp.pid.symm, ?_, rfl, hself, ?_⟩
  · rw [← hg, ← hframe]
  · have hview := hkept.view hne
    rw [Kernel.view, Kernel.view, hcr3]
    refine Eq.trans ?_ hview
    rw [exited_parent]
    rfl

/-- The result of the call takes the place of `rax`. -/
lemma resume_congr {g : SyscallFrame} (v : UInt64) (h : { f with rax := 0 } = { g with rax := 0 }) :
    f.resume v = g.resume v := by
  have hrax : ∀ g : SyscallFrame, g.resume v = ({ g with rax := 0 } : SyscallFrame).resume v := by
    intro g
    refine Context.ext (funext fun r => ?_) rfl rfl rfl rfl
    cases r <;> rfl
  rw [hrax f, h, ← hrax g]

lemma userMode_resume (hmsrs : Configured entry m.cpu.msrs) (hcontext : m.cpu.context = f.resume v)
    (hflags : f.userRflags &&& systemFlags = rflagsInterruptEnable) : UserMode entry m.cpu := by
  refine ⟨hmsrs, congrArg Context.cs hcontext, congrArg Context.ss hcontext, ?_⟩
  have hrflags : m.cpu.rflags = loadedFlags f.userRflags := congrArg Context.rflags hcontext
  rw [hrflags, loadedFlags_system, hflags]

/-! ### One step -/

lemma SystemCall.step (h : SystemCall entry saved m m') (hconf : Configured entry m.cpu.msrs) :
    step m.kernel (.syscall m.cpu.context.frame) = some m'.kernel := by
  obtain ⟨v, f, hd, -⟩ := h.dispatch hconf
  rw [Xbks.step, hd]

/-- The caller of a `vfork` waits from then on. -/
lemma awaits_vfork (hinv : TableInv m.kernel l) (howned : Owned boot.memory m.kernel F)
    (hmode : UserMode entry m.cpu) (hrun : Path (Admitted entry saved) m₀ actions m)
    (hcall : SystemCall entry saved m m') (hn : syscallNumber m.cpu.context.frame.rax = .vfork)
    (h : processSyscallDispatch m.cpu.context.frame m.kernel = (.ok (0, f), m'.kernel)) :
    Awaits entry saved m₀ m' (actions ++ [.syscall]) m'.kernel.currentProcess m.kernel.currentProcess := by
  obtain ⟨F', g, -, hg, hsusp⟩ := suspended_vfork hinv howned hn h
  obtain ⟨v, f', hd, -, hcontext, -⟩ := hcall.dispatch hmode.msrs
  rw [h] at hd
  cases hd
  rw [processSyscallDispatch, hn] at h
  obtain rfl : f = m.cpu.context.frame := vfork_frame (r := (0, f)) hinv h
  refine ⟨m, m', g, _, ⟨⟨actions, [], rfl, hrun, .nil⟩, hn, hcall, hcontext⟩, hmode, rfl, rfl,
    hinv.current_running, howned.current, howned.current_ne hinv, hsusp, ?_⟩
  exact congrArg (fun g : SyscallFrame => { g with rax := 0 }) hg

/-- A step that the kernel takes part in keeps the waiting processes waiting. -/
lemma Reached.chain_step (h : Reached boot entry saved m₀ m actions)
    (hrun : Path (Admitted entry saved) m₀ actions m) (hstep : Admitted entry saved m a m')
    (hkernel : step m.kernel e = some m'.kernel) (hok : ExecFits m.kernel e)
    (hevent : ∀ frame, e = .syscall frame → frame = m.cpu.context.frame ∧ a = .syscall ∧
      SystemCall entry saved m m') :
    ∃ l F, TableInv m'.kernel l ∧ Owned boot.memory m'.kernel F ∧
      (m'.kernel.currentProcess :: l).IsChain (Awaits entry saved m₀ m' (actions ++ [a])) := by
  obtain ⟨l, F, hinv, howned, hchain⟩ := h.chain
  obtain ⟨F', howned', -⟩ := howned.step hinv hok hkernel
  have hawaits : ∀ c p, (m.kernel.currentProcess = c → e.isExit = false) →
      Awaits entry saved m₀ m actions c p → Awaits entry saved m₀ m' (actions ++ [a]) c p := by
    intro c p hexit hwait
    exact hwait.step hstep fun hsusp => hsusp.step howned hok hexit hkernel
  cases chainStep_of_step hinv hkernel with
  | same hinv' hcurrent he =>
    refine ⟨l, F', hinv', howned', ?_⟩
    rw [hcurrent]
    exact hchain.imp fun c p => hawaits c p fun _ => he
  | @push frame f heq hn hd hinv' =>
    obtain ⟨rfl, rfl, hcall⟩ := hevent frame heq
    have he : e.isExit = false := by
      rw [heq, Event.isExit, hn]
      rfl
    refine ⟨_, F', hinv', howned', List.IsChain.cons_cons ?_ (hchain.imp fun c p => hawaits c p fun _ => he)⟩
    exact awaits_vfork hinv howned h.mode hrun hcall hn hd
  | @pop parent l' hl hcurrent hinv' =>
    subst hl
    refine ⟨l', F', hinv', howned', ?_⟩
    rw [hcurrent]
    refine hchain.tail.imp_of_mem_imp fun c p hc _ => hawaits c p fun heq => ?_
    exact absurd heq.symm (hinv.ne_current hc)

lemma Reached.mode_syscall (h : Reached boot entry saved m₀ m actions) (hcall : SystemCall entry saved m m') :
    UserMode entry m'.cpu := by
  obtain ⟨l, F, hinv, howned, hchain⟩ := h.chain
  obtain ⟨v, f, hd, -, hcontext, hmsrs⟩ := hcall.dispatch h.mode.msrs
  refine userMode_resume (by rw [hmsrs]; exact h.mode.msrs) hcontext ?_
  by_cases hn : syscallNumber m.cpu.context.frame.rax = .exit
  · have hexit := hd
    rw [processSyscallDispatch, hn] at hexit
    obtain ⟨parent, l', rfl, -⟩ := hinv.exit_ok hexit
    obtain ⟨u, w, -, hmode, hresumes⟩ := (List.isChain_cons_cons.mp hchain).1.exit howned hn hd
    have hflags : f.userRflags = u.cpu.rflags := congrArg SyscallFrame.userRflags hresumes.frame
    rw [hflags]
    exact hmode.flags
  · rw [dispatch_userRflags hinv hn hd]
    exact h.mode.flags

lemma Reached.step (h : Reached boot entry saved m₀ m actions) (hrun : Path (Admitted entry saved) m₀ actions m)
    (hstep : Admitted entry saved m a m') : Reached boot entry saved m₀ m' (actions ++ [a]) := by
  obtain ⟨es, hes⟩ := h.run
  obtain ⟨hmachine, hok⟩ := hstep
  cases hmachine with
  | @compute u hcs hss hflags =>
    refine ⟨⟨h.mode.msrs, hcs.trans h.mode.cs, hss.trans h.mode.ss, hflags.trans h.mode.flags⟩, h.run, ?_⟩
    obtain ⟨l, F, hinv, howned, hchain⟩ := h.chain
    refine ⟨l, F, hinv, howned, hchain.imp fun c p hwait => ?_⟩
    exact hwait.step ⟨.compute hcs hss hflags, hok⟩ fun hsusp => ⟨_, hsusp⟩
  | @store address value k hkernel =>
    have hfits : ExecFits m.kernel (.store address value) := trivial
    refine ⟨h.mode, ⟨es ++ [.store address value], hes.snoc hfits hkernel⟩, ?_⟩
    refine h.chain_step hrun ⟨.store hkernel, hok⟩ hkernel trivial fun frame heq => ?_
    cases heq
  | syscall hcall =>
    have hkernel := hcall.step h.mode.msrs
    refine ⟨h.mode_syscall hcall, ⟨es ++ [.syscall m.cpu.context.frame], hes.snoc (hok rfl) hkernel⟩, ?_⟩
    refine h.chain_step hrun ⟨.syscall hcall, hok⟩ hkernel (hok rfl) fun frame heq => ?_
    cases heq
    exact ⟨rfl, rfl, hcall⟩

/-! ### The start -/

/-- The first process starts as if it returned from a call with this frame. -/
def startFrame (rip rsp : UInt64) : SyscallFrame :=
  { SyscallFrame.zero with userRip := rip, userRsp := rsp, userRflags := 0x202 }

/-- The code of `xbks_x86_64_enter_user` before its last instruction. -/
def clearRegisters : List Instruction :=
  [.mov .rsi .rsp, .movImmediate 0x202 .r11, .mov .rdi .rcx] ++
    [Register.rax, .rbx, .rdx, .rsi, .rdi, .rbp, .r8, .r9, .r10, .r12, .r13, .r14, .r15].map fun r => .xor r r

lemma run_xor {rs : List Register} {c : Cpu} : ∃ c', Cpu.run (rs.map fun r => .xor r r) c = some c' ∧
    (c'.reg = fun r => if r ∈ rs then 0 else c.reg r) ∧ c'.cs = c.cs ∧ c'.msrs = c.msrs := by
  induction rs generalizing c with
  | nil => exact ⟨c, rfl, by simp, rfl, rfl⟩
  | cons r rs ih =>
    obtain ⟨c', hrun, hreg, hcs, hmsrs⟩ := @ih (c.set r (c.reg r ^^^ c.reg r))
    refine ⟨c', hrun, ?_, hcs, hmsrs⟩
    rw [hreg]
    funext r'
    by_cases hr' : r' = r
    · rw [hr', Cpu.set_reg_self, UInt64.xor_self, ite_self, if_pos List.mem_cons_self]
    · rw [Cpu.set_reg_of_ne _ _ hr']
      simp [hr']

lemma run_clearRegisters (c : Cpu) : ∃ c', Cpu.run clearRegisters c = some c' ∧
    c'.reg = ((startFrame (c.reg .rdi) (c.reg .rsi)).resume 0).reg ∧ c'.cs = c.cs ∧ c'.msrs = c.msrs := by
  let c₁ : Cpu := ((c.set .rsp (c.reg .rsi)).set .r11 0x202).set .rcx (c.reg .rdi)
  have hmoves : Cpu.run [.mov .rsi .rsp, .movImmediate 0x202 .r11, .mov .rdi .rcx] c = some c₁ := by
    simp only [Cpu.run, Instruction.exec, Option.bind_some]
    rw [Cpu.set_reg_of_ne _ _ (by decide), Cpu.set_reg_of_ne _ _ (by decide)]
  obtain ⟨c', hrun, hreg, hcs, hmsrs⟩ := @run_xor
    [.rax, .rbx, .rdx, .rsi, .rdi, .rbp, .r8, .r9, .r10, .r12, .r13, .r14, .r15] c₁
  refine ⟨c', ?_, ?_, hcs, hmsrs⟩
  · rw [clearRegisters, Cpu.run_append, hmoves, Option.bind_some, hrun]
  · rw [hreg]
    funext r
    cases r <;> simp [SyscallFrame.resume, SyscallFrame.register, startFrame, SyscallFrame.zero, Cpu.set, c₁]

lemma executes_enterUser {c : Cpu} (hconf : Configured entry c.msrs) (hkernel : c.context.privilege = 0)
    (h : Executes enterUser ⟨c, k⟩ m) : m.kernel = k ∧ m.cpu.msrs = c.msrs ∧
      m.cpu.context = (startFrame (c.reg .rdi) (c.reg .rsi)).resume 0 := by
  obtain ⟨c', hrun, rfl⟩ := (executes_straight (by decide)).mp h
  obtain ⟨c₁, hclear, hreg, hcs, hmsrs⟩ := run_clearRegisters c
  rw [show enterUser = clearRegisters ++ [.sysretq] from rfl, Cpu.run_append, hclear, Option.bind_some] at hrun
  have hsysretq : c₁.sysretq = some c' := by
    simpa only [Cpu.run, Instruction.exec, Option.bind_fun_some] using hrun
  have hkernel₁ : c₁.context.privilege = 0 := by
    rw [Context.privilege, Cpu.context, hcs]
    exact hkernel
  obtain ⟨-, hcontext, -, hmsrs'⟩ := (sysretq_iff (by rwa [hmsrs]) hkernel₁ hreg).mp hsysretq
  exact ⟨rfl, hmsrs'.trans hmsrs, hcontext⟩

lemma reached_begins (hboot : boot.memory.Valid) (hinit : InitFits boot) (h : Machine.Begins boot entry m) :
    Reached boot entry saved m m [] := by
  obtain ⟨hstart, c, hkernel, hconf, -, -, hexec⟩ := h
  obtain ⟨hm, hmsrs, hcontext⟩ := executes_enterUser hconf hkernel hexec
  obtain ⟨F, howned, -⟩ := owned_started hboot hinit hstart
  have hflags : (0x202 : UInt64) &&& systemFlags = rflagsInterruptEnable := by decide
  refine ⟨userMode_resume (by rwa [hmsrs]) hcontext hflags, ⟨[], ?_⟩, [], F, ?_, ?_, ?_⟩
  · rw [hm]
    exact .nil
  · rw [hm]
    exact tableInv_started hstart
  · rw [hm]
    exact howned
  · exact List.isChain_singleton _

lemma reached_of_run (hboot : boot.memory.Valid) (hinit : InitFits boot) (h : Machine.Begins boot entry m₀)
    (hrun : Path (Admitted entry saved) m₀ actions m) : Reached boot entry saved m₀ m actions := by
  induction hrun with
  | nil => exact reached_begins hboot hinit h
  | snoc hrun hstep ih => exact ih.step hrun hstep

lemma exists_begins (hstart : Starts boot) (hcan : Canonical (started boot).current.entry) (entry : UInt64) :
    ∃ m, Machine.Begins boot entry m ∧ m.kernel = started boot := by
  let c : Cpu :=
    { reg := Function.update (Function.update (fun _ => 0) .rdi (started boot).current.entry) .rsi
        (started boot).current.stack
      mem := fun _ => 0
      rip := 0
      rflags := 2
      cs := 0x08
      ss := 0x10
      msrs := syscallInit entry ⟨0, 0, 0, 0⟩ }
  have hconf : Configured entry c.msrs := ⟨⟨0, 0, 0, 0⟩, rfl⟩
  obtain ⟨c₁, hclear, hreg, hcs, hmsrs⟩ := run_clearRegisters c
  have hkernel : c₁.context.privilege = 0 := by
    rw [Context.privilege, Cpu.context, hcs]
    show (0x08 : UInt16) &&& 3 = 0
    decide
  obtain ⟨c', hsysretq, -⟩ := exists_sysretq (by rwa [hmsrs]) hkernel hreg hcan
  have hrun : Cpu.run enterUser c = some c' := by
    rw [show enterUser = clearRegisters ++ [.sysretq] from rfl, Cpu.run_append, hclear, Option.bind_some]
    simp only [Cpu.run, Instruction.exec, Option.bind_fun_some]
    exact hsysretq
  refine ⟨⟨c', started boot⟩, ⟨hstart, c, ?_, hconf, rfl, rfl,
    (executes_straight (by decide)).mpr ⟨c', hrun, rfl⟩⟩, rfl⟩
  show (0x08 : UInt16) &&& 3 = 0
  decide

/-! ### Runs -/

/-- Whatever the programs do, they run in user mode with interrupts on and without access to the ports, and the
state of the kernel is one of its own runs. -/
theorem userMode_of_run (hboot : boot.memory.Valid) (hinit : InitFits boot) (h : Machine.Begins boot entry m₀)
    (hrun : Path (Admitted entry saved) m₀ actions m) :
    m.cpu.context.privilege = 3 ∧ m.cpu.ss = userData ∧ m.cpu.rflags &&& systemFlags = rflagsInterruptEnable ∧
      ∃ es, Run ExecFits (started boot) es m.kernel := by
  have hreached := reached_of_run hboot hinit h hrun
  refine ⟨?_, hreached.mode.ss, hreached.mode.flags, hreached.run⟩
  rw [Context.privilege, Cpu.context, hreached.mode.cs]
  show userCode &&& 3 = 3
  decide

/-- An exit that returns goes back to the `vfork` that made the process: in the run there was a state `u` with a call
of `vfork` whose child, which went on in `w` with the same registers but for 0 in `rax`, is the process that exits
now. Its parent goes on with the registers of `u`, with the number of the child in `rax`, and has its record and its
memory as in `u`. -/
theorem exit_resumes (hboot : boot.memory.Valid) (hinit : InitFits boot) (h : Machine.Begins boot entry m₀)
    (hrun : Path (Admitted entry saved) m₀ actions m) (hn : syscallNumber (m.cpu.reg .rax) = .exit)
    (hcall : SystemCall entry saved m m') : ∃ u w, Passed entry saved m₀ m actions u w ∧
      w.kernel.currentProcess = m.kernel.currentProcess ∧ w.kernel.current.pid = m.kernel.current.pid ∧
      m'.cpu.context = u.cpu.context.frame.resume (toU64 m.kernel.current.pid) ∧
      m'.kernel.currentProcess = u.kernel.currentProcess ∧ m'.kernel.current = u.kernel.current ∧
      m'.kernel.view = u.kernel.view := by
  have hreached := reached_of_run hboot hinit h hrun
  obtain ⟨l, F, hinv, howned, hchain⟩ := hreached.chain
  obtain ⟨v, f, hd, -, hcontext, -⟩ := hcall.dispatch hreached.mode.msrs
  have hnumber : syscallNumber m.cpu.context.frame.rax = .exit := hn
  have hexit := hd
  rw [processSyscallDispatch, hnumber] at hexit
  obtain ⟨parent, l', rfl, -⟩ := hinv.exit_ok hexit
  obtain ⟨u, w, hpassed, -, hresumes⟩ := (List.isChain_cons_cons.mp hchain).1.exit howned hnumber hd
  refine ⟨u, w, hpassed, hresumes.child, hresumes.pid, ?_, hresumes.currentProcess, hresumes.current, hresumes.view⟩
  rw [hcontext, ← hresumes.value]
  exact resume_congr v hresumes.frame

/-! ### A run on the small machine -/

/-- A program can put any values into `rax` and `rip`. -/
lemma exists_compute (m : Machine) (n rip : UInt64) : ∃ a m', Admitted entry saved m a m' ∧
    m'.cpu.reg .rax = n ∧ m'.cpu.rip = rip ∧ m'.kernel = m.kernel := by
  refine ⟨.compute { m.cpu.context with reg := Function.update m.cpu.reg .rax n, rip := rip }, _,
    ⟨.compute rfl rfl rfl, Machine.Action.noConfusion⟩, ?_, rfl, rfl⟩
  show Function.update m.cpu.reg .rax n .rax = n
  rw [Function.update_self]

/-- The child of a `vfork` can exit. -/
lemma exit_vforked {slot : Slot} {cr3 : UInt64} {mm : Mm} (hne : slot ≠ k.currentProcess)
    (hn : syscallNumber frame.rax = .exit) : ∃ k', processSyscallDispatch frame (k.vforked f slot cr3 mm) =
      (.ok (toU64 k.nextPid, { f with rax := toU64 k.nextPid }), k') := by
  have hslot : (k.vforked f slot cr3 mm).current = .vforked f k.nextPid k.currentProcess k.current cr3 :=
    vforked_slot hne
  have hexit := @syscallExit_eq (k.vforked f slot cr3 mm) frame _ frame.rdi (congrArg Process.vforkParent hslot)
    hne.symm
  rw [hslot] at hexit
  refine ⟨(k.vforked f slot cr3 mm).exited frame.rdi k.currentProcess, ?_⟩
  rw [processSyscallDispatch, hn]
  exact hexit

/-- The first process of the small machine can call `vfork` with any registers. -/
lemma small_vforks (frame : SyscallFrame) : ∃ cr3 mm, syscallVfork frame (started (smallBoot 0x10000)) =
    (.ok (0, frame), (started (smallBoot 0x10000)).vforked frame 1 cr3 mm) := by
  have hinv := tableInv_started smallBoot_starts
  obtain ⟨F, howned, hlen⟩ := owned_started (smallBoot_valid 0x10000) smallProgram.initFits smallBoot_starts
  have hlen := hlen _ smallProgram.file
  have hframes := howned.frames_le hinv
  rw [smallProgram.cost, smallBoot_frames] at hlen
  rw [smallBoot_frames] at hframes
  have hslot : unusedSlot (started (smallBoot 0x10000)).processes = some 1 := by
    rw [unusedSlot_eq (started_state smallBoot_starts)]
    decide
  obtain ⟨cr3, mm, F', hvfork, -⟩ := vfork_ok frame howned hinv hslot (by omega)
  exact ⟨cr3, mm, hvfork⟩

lemma small_begins : ∃ m, Machine.Begins (smallBoot 0x10000) 0 m ∧ m.kernel = started (smallBoot 0x10000) := by
  obtain ⟨-, hentry, -⟩ := smallProgram.space (smallBoot_valid _) smallBoot_starts
  refine exists_begins smallBoot_starts ?_ 0
  rw [hentry]
  decide

/-- The first process of the small machine computes and calls `vfork`, and its child computes and exits. -/
lemma small_exits : ∃ m₀ a₁ a₃ m m', Machine.Begins (smallBoot 0x10000) 0 m₀ ∧
    Path (Admitted 0 0) m₀ [a₁, .syscall, a₃] m ∧ syscallNumber (m.cpu.reg .rax) = .exit ∧
    SystemCall 0 0 m m' := by
  obtain ⟨m₀, hbegins, hkernel₀⟩ := small_begins
  have hreached := @reached_begins _ 0 0 _ (smallBoot_valid _) smallProgram.initFits hbegins
  obtain ⟨a₁, m₁, hstep₁, hrax₁, hrip₁, hkernel₁⟩ := @exists_compute 0 0 m₀ 58 0x10000
  have hreached₁ := hreached.step .nil hstep₁
  have hrun₁ : Path (Admitted 0 0) m₀ [a₁] m₁ := .snoc .nil hstep₁
  have hnumber₁ : syscallNumber m₁.cpu.context.frame.rax = .vfork := by
    show syscallNumber (m₁.cpu.reg .rax) = .vfork
    rw [hrax₁]
    decide
  have hcan₁ : Canonical m₁.cpu.context.frame.userRip := by
    show Canonical (m₁.cpu.rip + 2)
    rw [hrip₁]
    decide
  have haligned : (0 : UInt64).toNat % 16 = 0 := by decide
  obtain ⟨cr3, mm, hvfork⟩ := small_vforks m₁.cpu.context.frame
  rw [← hkernel₀, ← hkernel₁] at hvfork
  obtain ⟨hdispatch₁, -⟩ := step_vfork hnumber₁ hvfork
  obtain ⟨c₂, hcall₁, -, -⟩ := systemCall_of_dispatch hreached₁.mode.msrs haligned hdispatch₁ hcan₁
  have hstep₂ : Admitted 0 0 m₁ .syscall ⟨c₂, _⟩ :=
    ⟨.syscall hcall₁, fun _ hexec => absurd (hnumber₁.symm.trans hexec) (by decide)⟩
  have hreached₂ := hreached₁.step hrun₁ hstep₂
  obtain ⟨a₃, m₃, hstep₃, hrax₃, -, hkernel₃⟩ := @exists_compute 0 0 ⟨c₂, _⟩ 60 0x10000
  have hrun₂ := hrun₁.snoc hstep₂
  have hreached₃ := hreached₂.step hrun₂ hstep₃
  have hnumber₃ : syscallNumber m₃.cpu.context.frame.rax = .exit := by
    show syscallNumber (m₃.cpu.reg .rax) = .exit
    rw [hrax₃]
    decide
  have hne : (1 : Slot) ≠ m₁.kernel.currentProcess := by
    rw [hkernel₁, hkernel₀, started_current smallBoot_starts]
    decide
  obtain ⟨k', hdispatch₃⟩ := @exit_vforked m₁.kernel m₃.cpu.context.frame m₁.cpu.context.frame 1 cr3 mm hne hnumber₃
  rw [← show m₃.kernel = m₁.kernel.vforked m₁.cpu.context.frame 1 cr3 mm from hkernel₃] at hdispatch₃
  obtain ⟨c₄, hcall₃, -⟩ := systemCall_of_dispatch hreached₃.mode.msrs haligned hdispatch₃ hcan₁
  exact ⟨m₀, a₁, a₃, m₃, _, hbegins, hrun₂.snoc hstep₃, hnumber₃, hcall₃⟩

/-- Programs on the small machine run in user mode, also when a child has exited. -/
theorem userMode_of_run_small : ∃ m₀ a₁ a₃ m, Machine.Begins (smallBoot 0x10000) 0 m₀ ∧
    Path (Admitted 0 0) m₀ [a₁, .syscall, a₃, .syscall] m ∧ m.cpu.context.privilege = 3 ∧
    m.cpu.rflags &&& systemFlags = rflagsInterruptEnable := by
  obtain ⟨m₀, a₁, a₃, m, m', hbegins, hrun, hnumber, hcall⟩ := small_exits
  have hstep : Admitted 0 0 m .syscall m' :=
    ⟨.syscall hcall, fun _ hexec => absurd (hnumber.symm.trans hexec) (by decide)⟩
  obtain ⟨hmode, -, hflags, -⟩ := userMode_of_run (smallBoot_valid _) smallProgram.initFits hbegins
    (hrun.snoc hstep)
  exact ⟨m₀, a₁, a₃, m', hbegins, hrun.snoc hstep, hmode, hflags⟩

/-- The first process of the small machine calls `vfork`, and its child exits. -/
theorem exit_resumes_small : ∃ m₀ m m' actions u w, Machine.Begins (smallBoot 0x10000) 0 m₀ ∧
    Passed 0 0 m₀ m actions u w ∧ SystemCall 0 0 m m' ∧
    m'.cpu.context = u.cpu.context.frame.resume (toU64 m.kernel.current.pid) := by
  obtain ⟨m₀, _, _, m, m', hbegins, hrun, hnumber, hcall⟩ := small_exits
  obtain ⟨u, w, hpassed, -, -, hcontext, -⟩ := exit_resumes (smallBoot_valid _) smallProgram.initFits hbegins
    hrun hnumber hcall
  exact ⟨m₀, m, m', _, u, w, hbegins, hpassed, hcall, hcontext⟩

end Xbks
