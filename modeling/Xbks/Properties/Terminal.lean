import Xbks.Lib.Balance
import Xbks.Process.Devices
import Xbks.Properties.Listing
import Xbks.Properties.UserFaults

/-!
# The terminal

What the programs of a run have written is what the devices have received, in the order of the calls and from
whichever process, and what they have read is what has been typed. No byte is lost, repeated or made up, also across
`vfork`, `execve` and `exit`.
-/

namespace Xbks

variable {boot : BootInfo} {k k' : Kernel} {es : List Event} {e : Event} {frame : SyscallFrame}

/-- The state of a run in which the devices can be accounted for. -/
def Sound (boot : BootInfo) (k : Kernel) : Prop := Tidy boot k ∧ FdInv k

lemma Sound.step (h : Sound boot k) (hok : ExecFits k e) (hstep : step k e = some k') : Sound boot k' := by
  obtain ⟨l, F, hinv, -⟩ := id h.1
  exact ⟨h.1.step hok hstep, h.2.step hinv hstep⟩

lemma Sound.talks {r : UInt64 × SyscallFrame} (h : Sound boot k)
    (hd : processSyscallDispatch frame k = (.ok r, k')) : Talks frame k k' := by
  obtain ⟨l, F, hinv, -⟩ := id h.1
  refine dispatch_talks h.1.intact (h.2 k.currentProcess ?_) hd
  rw [show (k.processes k.currentProcess).state = .running from hinv.current_running]
  exact ProcessState.noConfusion

lemma sound_of_run (hboot : boot.memory.Valid) (hinit : InitFits boot) (hstart : Starts boot)
    (hrun : Run ExecFits (started boot) es k) : Sound boot k :=
  ⟨owned_of_run hboot hinit hstart hrun, fdInv_of_run hstart hrun⟩

lemma wrote_step (h : Sound boot k) (hstep : step k e = some k') : Wrote (written k e) k k' := by
  cases e with
  | store address value =>
    obtain ⟨physical, -, -, rfl⟩ := step_store_eq hstep
    exact wrote_nil rfl
  | syscall frame =>
    obtain ⟨r, hd⟩ := step_syscall_ok hstep
    exact (h.talks hd).wrote

lemma took_step (h : Sound boot k) (hstep : step k e = some k') : Took (typed k e) k k' := by
  cases e with
  | store address value =>
    obtain ⟨physical, -, -, rfl⟩ := step_store_eq hstep
    exact took_nil rfl
  | syscall frame =>
    obtain ⟨r, hd⟩ := step_syscall_ok hstep
    exact (h.talks hd).took

/-- Starting the first process does not use the devices. -/
lemma started_devices (hstart : Starts boot) : (started boot).console = { ttyAvailable := boot.ttyAvailable } ∧
    (started boot).keyboard = boot.keyboard := by
  obtain ⟨cr3, entry, stack, brk, mm, heq⟩ := started_fresh hstart
  rw [heq]
  exact ⟨rfl, rfl⟩

/-- Over every run the devices have received what was written, in order, and the characters that were read are the
first ones of the keyboard. A write has found its whole buffer in memory, and a read changes the memory of the caller
by storing the characters to its buffer. -/
theorem terminal_of_run (hboot : boot.memory.Valid) (hinit : InitFits boot) (hstart : Starts boot)
    (hrun : Run ExecFits (started boot) es k) :
    (k.console.debugcon = Transition.observed step written (started boot) es ∧
      k.console.serial = crlf (Transition.observed step written (started boot) es) ∧
      k.console.tty =
        if boot.ttyAvailable then crlf (Transition.observed step written (started boot) es) else []) ∧
    boot.keyboard = Stream'.appendStream' (Transition.observed step typed (started boot) es) k.keyboard ∧
    ∀ frame r k', processSyscallDispatch frame k = (.ok r, k') →
      (WritesConsole frame →
        k.view.load frame.rsi.toNat frame.rdx.toNat = some (written k (.syscall frame))) ∧
      (ReadsKeyboard frame → k'.view = k.view.store frame.rsi.toNat (typed k (.syscall frame))) := by
  have hsound : Sound boot (started boot) := sound_of_run hboot hinit hstart .nil
  have hwrote : Wrote (Transition.observed step written (started boot) es) (started boot) k :=
    hrun.follows hsound Sound.step (fun _ => wrote_nil rfl) Wrote.append fun h _ hstep => wrote_step h hstep
  have htook : Took (Transition.observed step typed (started boot) es) (started boot) k :=
    hrun.follows hsound Sound.step (fun _ => took_nil rfl) Took.append fun h _ hstep => took_step h hstep
  obtain ⟨hconsole, hkeyboard⟩ := started_devices hstart
  refine ⟨⟨?_, ?_, ?_⟩, ?_, fun frame r k' hd => ?_⟩
  · rw [hwrote.debugcon, hconsole]
    rfl
  · rw [hwrote.serial, hconsole]
    rfl
  · rw [hwrote.tty, hconsole]
    rfl
  · rw [Took, hkeyboard] at htook
    exact htook
  · have htalks := (sound_of_run hboot hinit hstart hrun).talks hd
    exact ⟨htalks.load, htalks.view⟩

section Echo

/-- Read a character from the keyboard to the start of the program's page. -/
def readCall : SyscallFrame := { call 0 with rsi := 0x10000, rdx := 1 }

/-- Write it to the console. -/
def echoCall : SyscallFrame := { call 1 with rdi := 1, rsi := 0x10000, rdx := 1 }

lemma dispatch_handled {handler : KernelM UInt64} {v : UInt64}
    (hhandler : processSyscallDispatch frame = withFrame frame handler) (h : handler k = (.ok v, k')) :
    processSyscallDispatch frame k = (.ok (v, frame), k') := by
  rw [hhandler, withFrame, Prog.bind_ok h]
  rfl

lemma dispatch_readCall (hintact : Intact k) (hhas : k.view.Has 0x10000 1) : ∃ v k',
    processSyscallDispatch readCall k = (.ok (v, readCall), k') ∧ Mapped (0x10000 : UInt64).toNat 1 k' := by
  have hn : syscallNumber readCall.rax = .read := by decide
  have hreturns : Prog.Returns (Mapped readCall.rsi.toNat readCall.rdx.toNat)
      (syscallRead readCall.rdi readCall.rsi readCall.rdx) := returns_syscallRead (by decide)
  obtain ⟨v, k', hread, hmapped⟩ := hreturns k ⟨hintact, hhas⟩
  exact ⟨v, k', dispatch_handled (by rw [processSyscallDispatch, hn]) hread, hmapped⟩

lemma dispatch_echoCall (hmapped : Mapped (0x10000 : UInt64).toNat 1 k) : ∃ v k',
    processSyscallDispatch echoCall k = (.ok (v, echoCall), k') := by
  have hn : syscallNumber echoCall.rax = .write := by decide
  have hreturns : Prog.Returns (Mapped echoCall.rsi.toNat echoCall.rdx.toNat)
      (consoleWrite echoCall.rsi echoCall.rdx) := returns_consoleWrite (by decide)
  obtain ⟨u, k', hwrite, -⟩ := hreturns k hmapped
  have hcall : syscallWrite echoCall.rdi echoCall.rsi echoCall.rdx k = (.ok echoCall.rdx, k') := by
    rw [syscallWrite, if_neg (by decide), if_neg (by decide), Prog.bind_ok hwrite]
    rfl
  exact ⟨_, k', dispatch_handled (by rw [processSyscallDispatch, hn]) hcall⟩

lemma typed_readCall (k : Kernel) : typed k (.syscall readCall) = [k.keyboard 0] := rfl

lemma written_readCall (k : Kernel) : written k (.syscall readCall) = [] := by rw [written, if_neg (by decide)]

/-- The first process reads a character and writes it. -/
theorem terminal_of_run_small : ∃ k, Run ExecFits (started (smallBoot 0x10000))
    [.syscall readCall, .syscall echoCall] k ∧ k.console.debugcon = [(smallBoot 0x10000).keyboard 0] := by
  have htidy : Tidy (smallBoot 0x10000) (started (smallBoot 0x10000)) :=
    owned_of_run (smallBoot_valid 0x10000) smallProgram.initFits smallBoot_starts .nil
  obtain ⟨v, k₁, hread, hmapped⟩ := dispatch_readCall htidy.intact fun x hge hlt =>
    small_has x hge (hlt.trans (by decide))
  obtain ⟨v', k₂, hecho⟩ := dispatch_echoCall hmapped
  have hstep₁ : step (started (smallBoot 0x10000)) (.syscall readCall) = some k₁ := by rw [step, hread]
  have hstep₂ : step k₁ (.syscall echoCall) = some k₂ := by rw [step, hecho]
  have hrun₁ : Run ExecFits (started (smallBoot 0x10000)) [.syscall readCall] k₁ :=
    .snoc .nil (fun hexec => absurd hexec (by decide)) hstep₁
  have hrun : Run ExecFits (started (smallBoot 0x10000)) ([.syscall readCall] ++ [.syscall echoCall]) k₂ :=
    hrun₁.snoc (fun hexec => absurd hexec (by decide)) hstep₂
  obtain ⟨⟨hlog, -, -⟩, -, -⟩ :=
    terminal_of_run (smallBoot_valid 0x10000) smallProgram.initFits smallBoot_starts hrun
  obtain ⟨-, hkeyboard, hcalls⟩ :=
    terminal_of_run (smallBoot_valid 0x10000) smallProgram.initFits smallBoot_starts .nil
  have hview := (hcalls readCall _ k₁ hread).2 (by decide)
  have hload : k₁.view.load echoCall.rsi.toNat echoCall.rdx.toNat =
      some [(started (smallBoot 0x10000)).keyboard 0] := by
    rw [hview, typed_readCall]
    exact Memory.load_store
  have hwritten : written k₁ (.syscall echoCall) = [(started (smallBoot 0x10000)).keyboard 0] := by
    rw [written, if_pos (by decide), hload]
    rfl
  have hfirst : Transition.observed step written (started (smallBoot 0x10000)) [.syscall readCall] = [] := by
    rw [Transition.observed, written_readCall, hstep₁]
    rfl
  have hsame : (smallBoot 0x10000).keyboard = (started (smallBoot 0x10000)).keyboard :=
    hkeyboard.trans (Stream'.nil_append_stream _)
  have hkey : (smallBoot 0x10000).keyboard 0 = (started (smallBoot 0x10000)).keyboard 0 := congrFun hsame 0
  refine ⟨k₂, hrun, ?_⟩
  rw [hlog, hrun₁.observed_concat hstep₂, hfirst, hwritten, hkey, List.nil_append]

end Echo

end Xbks
