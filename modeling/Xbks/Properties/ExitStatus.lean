import Xbks.Lib.Balance
import Xbks.Properties.Simulation

/-!
# Exit statuses

A process that exits leaves its number and its status in the table until `wait4` collects them. Over every run what
has been left is what has been collected and what still waits in the table, so that no status is lost, changed or
collected twice; and a call that collects one hands it to the caller.
-/

namespace Xbks

variable {boot : BootInfo} {ok : Kernel → Event → Prop} {k k' : Kernel} {l : List Slot} {i : Slot}
  {frame : SyscallFrame} {e : Event} {es : List Event} {p p' : Process}

/-- What a process that exits leaves behind: its number and its status. -/
def exiting (k : Kernel) : Event → List (ℤ × ℤ)
  | .syscall frame =>
    if syscallNumber frame.rax = .exit then [(k.current.pid, ((frame.rdi &&& 0xff).toNat : ℤ))] else []
  | .store _ _ => []

/-- What a call of `wait4` collects. -/
def collecting (k : Kernel) : Event → List (ℤ × ℤ)
  | .syscall frame =>
    if syscallNumber frame.rax = .wait4 ∧ ¬BadStatusAddress frame.rsi then
      (zombieChild k frame.rdi).toList.map fun i => ((k.processes i).pid, (k.processes i).exitStatus)
    else []
  | .store _ _ => []

lemma exiting_other (k : Kernel) (h : syscallNumber frame.rax ≠ .exit) : exiting k (.syscall frame) = [] := by
  rw [exiting, if_neg h]

lemma collecting_other (k : Kernel) (h : syscallNumber frame.rax ≠ .wait4) :
    collecting k (.syscall frame) = [] := by
  rw [collecting, if_neg fun hcollects => h hcollects.1]

/-- What a slot of the table holds for a parent. -/
def Process.pending (p : Process) : Multiset (ℤ × ℤ) :=
  if p.state = .zombie then {(p.pid, p.exitStatus)} else 0

def Kernel.pending (k : Kernel) : Multiset (ℤ × ℤ) := ∑ i, (k.processes i).pending

lemma pending_zombie (h : p.state = .zombie) : p.pending = {(p.pid, p.exitStatus)} := if_pos h

lemma pending_none (h : p.state ≠ .zombie) : p.pending = 0 := if_neg h

lemma pending_congr (h : ∀ i, (k'.processes i).pending = (k.processes i).pending) : k'.pending = k.pending :=
  Finset.sum_congr rfl fun i _ => h i

/-- One slot has changed. -/
lemma pending_replace (h : ∀ j ≠ i, (k'.processes j).pending = (k.processes j).pending) :
    k'.pending + (k.processes i).pending = k.pending + (k'.processes i).pending := by
  have hrest : ∑ j ∈ Finset.univ.erase i, (k'.processes j).pending =
      ∑ j ∈ Finset.univ.erase i, (k.processes j).pending :=
    Finset.sum_congr rfl fun j hj => h j (Finset.ne_of_mem_erase hj)
  rw [Kernel.pending, Kernel.pending, ← Finset.add_sum_erase _ _ (Finset.mem_univ i),
    ← Finset.add_sum_erase (a := i) _ (fun j => (k.processes j).pending) (Finset.mem_univ i), hrest]
  abel

lemma SameTable.pending (h : SameTable k k') : k'.pending = k.pending := by
  apply pending_congr
  intro i
  have hstate := h.field Process.state (fun _ _ _ _ _ _ => rfl) i
  have hpid := h.field Process.pid (fun _ _ _ _ _ _ => rfl) i
  have hstatus := h.field Process.exitStatus (fun _ _ _ _ _ _ => rfl) i
  rw [Process.pending, Process.pending, hstate, hpid, hstatus]

/-! ### One step -/

lemma pending_exited {parent : Slot} (hinv : TableInv k (parent :: l)) (hne : parent ≠ k.currentProcess)
    (status : UInt64) : (k.exited status parent).pending =
      k.pending + {(k.current.pid, ((status &&& 0xff).toNat : ℤ))} := by
  have hrunning : k.current.state ≠ .zombie := by
    rw [hinv.current_running]
    exact ProcessState.noConfusion
  have hblocked : (k.processes parent).state ≠ .zombie := by
    rw [(hinv.blocked parent).mpr List.mem_cons_self]
    exact ProcessState.noConfusion
  have hreplace : (k.exited status parent).pending + (k.processes k.currentProcess).pending =
      k.pending + ((k.exited status parent).processes k.currentProcess).pending := by
    apply pending_replace
    intro j hj
    by_cases hp : j = parent
    · rw [hp, exited_parent, pending_none hblocked]
      exact pending_none ProcessState.noConfusion
    · rw [exited_other hp hj]
  rw [exited_self hne, show (k.processes k.currentProcess).pending = 0 from pending_none hrunning,
    add_zero] at hreplace
  exact hreplace

lemma pending_reap (hz : (k.processes i).state = .zombie) :
    (k.reap i).pending + {((k.processes i).pid, (k.processes i).exitStatus)} = k.pending := by
  have hreplace : (k.reap i).pending + (k.processes i).pending = k.pending + ((k.reap i).processes i).pending :=
    pending_replace fun j hj => by rw [reap_other hj]
  rw [reap_self, pending_zombie hz, show Process.zero.pending = 0 from pending_none ProcessState.noConfusion,
    add_zero] at hreplace
  exact hreplace

/-- The state after a `wait4` that collects shows the memory that it has stored the status to. -/
lemma view_reap {F : List UInt64} (hinv : TableInv k l) (howned : Owned boot.memory k F)
    (hz : (k.processes i).state = .zombie) : (k.reap i).view = k.view := by
  have hne : k.currentProcess ≠ i := by
    rintro rfl
    exact hinv.notMem_of_zombie hz List.mem_cons_self
  obtain ⟨F', howned', hkept⟩ := howned.reap_step hinv hz
  have hview := (hkept k.currentProcess hne).view (howned.current_ne hinv)
  rw [Kernel.view, Kernel.view, howned'.current, howned.current]
  exact hview

lemma pending_vforked {slot : Slot} {cr3 : UInt64} {mm : Mm} (hinv : TableInv k l)
    (hslot : (k.processes slot).state = .unused) : (k.vforked frame slot cr3 mm).pending = k.pending := by
  have hne : slot ≠ k.currentProcess := (hinv.ne_unused List.mem_cons_self hslot).symm
  apply pending_congr
  intro i
  by_cases hi : i = slot
  · rw [hi, vforked_slot hne, pending_none (p := k.processes slot) (by rw [hslot]; exact ProcessState.noConfusion)]
    exact pending_none ProcessState.noConfusion
  · by_cases hcur : i = k.currentProcess
    · have hrunning : (k.processes k.currentProcess).state ≠ .zombie := by
        rw [show (k.processes k.currentProcess).state = .running from hinv.current_running]
        exact ProcessState.noConfusion
      rw [hcur, vforked_parent, pending_none hrunning]
      exact pending_none ProcessState.noConfusion
    · rw [vforked_other hi hcur]

/-- A step adds what is left to the table, and removes what is collected. -/
lemma pending_step (hinv : TableInv k l) (hintact : Intact k) (hstep : step k e = some k') :
    k'.pending + (collecting k e : Multiset (ℤ × ℤ)) = k.pending + (exiting k e : Multiset (ℤ × ℤ)) := by
  cases e with
  | store address value =>
    obtain ⟨physical, -, -, rfl⟩ := step_store_eq hstep
    rfl
  | syscall frame =>
    obtain ⟨⟨v, f⟩, hd⟩ := step_syscall_ok hstep
    by_cases hexit : syscallNumber frame.rax = .exit
    · rw [collecting_other k (by rw [hexit]; exact SyscallNumber.noConfusion), exiting, if_pos hexit]
      rw [processSyscallDispatch, hexit] at hd
      obtain ⟨parent, l', rfl, -, hne, rfl, -⟩ := hinv.exit_ok hd
      rw [pending_exited hinv hne]
      exact add_zero _
    rw [exiting_other k hexit]
    by_cases hwait : syscallNumber frame.rax = .wait4
    · rw [processSyscallDispatch, hwait] at hd
      rcases syscallWait4_ends hintact (withFrame_ok hd).1 with
        ⟨rfl, hrefused⟩ | ⟨i, k₁, hz, hgood, -, hlocal, rfl, -⟩
      · have hnone : collecting k' (.syscall frame) = [] := by
          rw [collecting]
          rcases hrefused with hz | hbad
          · rw [hz]
            exact ite_self _
          · exact if_neg fun h => h.2 hbad
        rw [hnone]
      · obtain ⟨hzombie, -⟩ := zombieChild_some hz
        have hne : i ≠ k.currentProcess := by
          rintro rfl
          exact hinv.notMem_of_zombie hzombie List.mem_cons_self
        have hsame := hlocal.others i hne
        have hreap := pending_reap (k := k₁) (i := i) (by rw [hsame]; exact hzombie)
        rw [collecting, if_pos ⟨hwait, hgood⟩, hz]
        rw [hsame, hlocal.sameTable.pending] at hreap
        exact hreap.trans (add_zero _).symm
    rw [collecting_other k hwait, Multiset.coe_nil, add_zero, add_zero]
    cases step_cases hstep with
    | stays hlocal => exact hlocal.sameTable.pending
    | exit hn => exact absurd hn hexit
    | wait4 hn => exact absurd hn hwait
    | @execve _ path argv envp k₁ _ hexecs =>
      exact (hexecs.isLocal.sameTable.trans (sameTable_execveLoaded frame path argv envp)).pending
    | vfork _ hvfork =>
      have hends := hinv.vfork_ends frame
      rw [hvfork] at hends
      cases hends with
      | full | noFrame | noCopy => rfl
      | done hslot => exact pending_vforked hinv (unusedSlot_some hslot)

/-! ### Runs -/

lemma pending_started (hstart : Starts boot) : (started boot).pending = 0 := by
  rw [Kernel.pending]
  refine Finset.sum_eq_zero fun i _ => pending_none ?_
  rw [started_state hstart]
  split_ifs
  · exact ProcessState.noConfusion
  · exact ProcessState.noConfusion

/-- Over every run, what the processes that exited have left is what has been collected and what is still in the
table. A call that collects something answers the process number, and the caller finds the status in the second
byte of the number at the address it gave. -/
theorem exit_statuses (hboot : boot.memory.Valid) (hinit : InitFits boot) (hstart : Starts boot)
    (hrun : Run ExecFits (started boot) es k) :
    k.pending + (Transition.observed step collecting (started boot) es : Multiset (ℤ × ℤ)) =
        (Transition.observed step exiting (started boot) es : Multiset (ℤ × ℤ)) ∧
      ∀ frame r k', processSyscallDispatch frame k = (.ok r, k') → ∀ c ∈ collecting k (.syscall frame),
        r.1 = toU64 c.1 ∧
        (frame.rsi ≠ 0 → k'.view.load frame.rsi.toNat 4 = some (intBytes (c.2 * 256))) := by
  have hcalls : ∀ {k k' : Kernel}, Tidy boot k → ∀ {frame r}, processSyscallDispatch frame k = (.ok r, k') →
      ∀ c ∈ collecting k (.syscall frame), r.1 = toU64 c.1 ∧
        (frame.rsi ≠ 0 → k'.view.load frame.rsi.toNat 4 = some (intBytes (c.2 * 256))) := by
    rintro k k' ⟨l, F, hinv, howned⟩ frame ⟨v, f⟩ hd c hc
    rw [collecting] at hc
    split_ifs at hc with hcollects
    · obtain ⟨hwait, hgood⟩ := hcollects
      obtain ⟨i, hi, rfl⟩ := List.mem_map.mp hc
      rw [Option.mem_toList] at hi
      rw [processSyscallDispatch, hwait] at hd
      rcases syscallWait4_ends (howned.intact hinv) (withFrame_ok hd).1 with
        ⟨-, hnone | hbad⟩ | ⟨j, k₁, hz, -, hv, hlocal, rfl, hstored⟩
      · rw [hi] at hnone
        cases hnone
      · exact absurd hbad hgood
      · obtain rfl : i = j := Option.some.inj (hi.symm.trans hz)
        refine ⟨hv, fun hne => ?_⟩
        obtain ⟨-, -, hview⟩ := hstored.resolve_left fun h => hne h.1
        have hzombie := (zombieChild_some hz).1
        have hother : i ≠ k.currentProcess := by
          rintro rfl
          exact hinv.notMem_of_zombie hzombie List.mem_cons_self
        obtain ⟨F₁, howned₁, -⟩ := howned.local_step hinv hlocal
        have hlen : (intBytes ((k.processes i).exitStatus * 256)).length = 4 := by simp [intBytes, wordBytes]
        rw [view_reap (hlocal.sameTable.inv hinv) howned₁ (by rw [hlocal.others i hother]; exact hzombie), hview,
          ← hlen]
        exact Memory.load_store
    · cases hc
  have htidy : Tidy boot (started boot) := owned_of_run hboot hinit hstart .nil
  refine ⟨?_, fun frame r k' hd => hcalls (owned_of_run hboot hinit hstart hrun) hd⟩
  have hbalance := hrun.balance Kernel.pending exiting collecting htidy (fun h hok hstep => h.step hok hstep)
    fun h _ hstep => by
      obtain ⟨l, F, hinv, howned⟩ := h
      exact pending_step hinv (howned.intact hinv) hstep
  rwa [pending_started hstart, zero_add] at hbalance

section Child

variable {slot : Slot} {cr3 status : UInt64} {mm : Mm}

lemma exit_number : syscallNumber (call 60).rax = .exit := by decide

lemma step_child_exit (hne : slot ≠ k.currentProcess) :
    step (k.vforked frame slot cr3 mm) (.syscall { call 60 with rdi := status }) =
      some ((k.vforked frame slot cr3 mm).exited status k.currentProcess) :=
  step_exit exit_number (congrArg Process.vforkParent (vforked_slot hne)) hne.symm

lemma exiting_child (hne : slot ≠ k.currentProcess) :
    exiting (k.vforked frame slot cr3 mm) (.syscall { call 60 with rdi := status }) =
      [(k.nextPid, ((status &&& 0xff).toNat : ℤ))] := by
  have hpid : (k.vforked frame slot cr3 mm).current.pid = k.nextPid :=
    congrArg Process.pid (vforked_slot hne)
  rw [exiting, if_pos exit_number, hpid]

end Child

/-- A child of the first process exits with the status 7, which then waits in the table. -/
theorem exit_statuses_small : ∃ k, Run ExecFits (started (smallBoot 0x10000))
    [.syscall (call 58), .syscall { call 60 with rdi := 7 }] k ∧ k.pending = {(2, 7)} := by
  obtain ⟨cr3, mm, F, -, hstep, -⟩ := small_vfork
  have hne : (1 : Slot) ≠ (started (smallBoot 0x10000)).currentProcess := by
    rw [started_current smallBoot_starts]
    decide
  have hexit : step ((started (smallBoot 0x10000)).vforked (call 58) 1 cr3 mm)
      (.syscall { call 60 with rdi := 7 }) = some (((started (smallBoot 0x10000)).vforked (call 58) 1 cr3 mm).exited 7
        (started (smallBoot 0x10000)).currentProcess) := step_child_exit hne
  have hrun₁ : Run ExecFits (started (smallBoot 0x10000)) [.syscall (call 58)] _ :=
    .snoc .nil (execFits_call (by decide) _) hstep
  have hrun : Run ExecFits (started (smallBoot 0x10000))
      ([.syscall (call 58)] ++ [.syscall { call 60 with rdi := 7 }]) _ :=
    .snoc hrun₁ (fun hexec => absurd hexec (by decide)) hexit
  obtain ⟨hbalance, -⟩ := exit_statuses (smallBoot_valid 0x10000) smallProgram.initFits smallBoot_starts hrun
  rw [hrun₁.observed_concat hexit, hrun₁.observed_concat hexit, exiting_child hne,
    (pidInv_started smallBoot_starts).2, collecting_other _ (by decide), Transition.observed, Transition.observed,
    hstep, collecting_other _ (by decide), exiting_other _ (by decide)] at hbalance
  exact ⟨_, hrun, by simpa [Transition.observed] using hbalance⟩

end Xbks
