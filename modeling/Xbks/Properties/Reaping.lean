import Xbks.Properties.ProcessTable

/-!
# Zombies and their parents

A process that exits becomes a zombie until its parent waits for it. Nothing keeps a parent from
exiting, and being reaped itself, before it has waited for its children; then they point to a slot
that is unused or has been taken by another process. When every process waits for its children
before it exits, each zombie stays reapable by the process that created it.
-/

namespace Xbks

variable {boot : BootInfo} {es : List Event} {k k' : Kernel} {l : List Slot} {e : Event}
  {frame : SyscallFrame}

/-- The process in this slot has not exited. -/
def Process.Alive (process : Process) : Prop :=
  process.state = .running ∨ process.state = .blocked

/-- Every zombie points to the live process that created it. -/
def Reapable (k : Kernel) : Prop :=
  ∀ z, (k.processes z).state = .zombie → ∃ p, (k.processes z).parent = some p ∧
    (k.processes p).Alive ∧ (k.processes p).pid = (k.processes z).ppid

/-- A process that exits has no zombie child left. -/
def ReapsFirst (k : Kernel) : Event → Prop
  | .syscall frame => syscallNumber frame.rax = .exit → ∀ z, (k.processes z).state = .zombie →
      (k.processes z).parent ≠ some k.currentProcess
  | .store _ _ => True

/-! ### Steps -/

lemma Reapable.sameTable (h : Reapable k) (hsame : SameTable k k') : Reapable k' := by
  have hstate := hsame.field Process.state fun _ _ _ _ _ _ => rfl
  have hparent := hsame.field Process.parent fun _ _ _ _ _ _ => rfl
  have hpid := hsame.field Process.pid fun _ _ _ _ _ _ => rfl
  have hppid := hsame.field Process.ppid fun _ _ _ _ _ _ => rfl
  intro z hz
  rw [hstate] at hz
  obtain ⟨p, hp, halive, heq⟩ := h z hz
  refine ⟨p, by rw [hparent, hp], ?_, by rw [hpid, hppid, heq]⟩
  rw [Process.Alive, hstate]
  exact halive

lemma Process.Alive.ne_unused {process : Process} (h : process.Alive) : process.state ≠ .unused := by
  rcases h with h | h
  · rw [h]
    exact ProcessState.noConfusion
  · rw [h]
    exact ProcessState.noConfusion

lemma Reapable.vforked {slot : Slot} (h : Reapable k) (hinv : TableInv k l)
    (hslot : (k.processes slot).state = .unused) (frame : SyscallFrame) (cr3 : UInt64) (mm : Mm) :
    Reapable (k.vforked frame slot cr3 mm) := by
  have hne : slot ≠ k.currentProcess := by
    rintro rfl
    rw [(hinv.running _).mpr rfl] at hslot
    cases hslot
  intro z hz
  have hzslot : z ≠ slot := by
    rintro rfl
    rw [vforked_slot hne] at hz
    cases hz
  have hzcur : z ≠ k.currentProcess := by
    rintro rfl
    rw [vforked_parent] at hz
    cases hz
  rw [vforked_other hzslot hzcur] at hz ⊢
  obtain ⟨p, hp, halive, hpid⟩ := h z hz
  refine ⟨p, hp, ?_⟩
  have hpslot : p ≠ slot := by
    rintro rfl
    exact halive.ne_unused hslot
  by_cases hpcur : p = k.currentProcess
  · rw [hpcur] at hpid ⊢
    rw [vforked_parent]
    exact ⟨.inr rfl, hpid⟩
  · rw [vforked_other hpslot hpcur]
    exact ⟨halive, hpid⟩

lemma Reapable.reap {i : Slot} (h : Reapable k) (hi : (k.processes i).state = .zombie) :
    Reapable (k.reap i) := by
  intro z hz
  have hzi : z ≠ i := by
    rintro rfl
    rw [reap_self] at hz
    cases hz
  rw [reap_other hzi] at hz ⊢
  obtain ⟨p, hp, halive, hpid⟩ := h z hz
  -- a live process is not the one reaped
  have hpi : p ≠ i := by
    rintro rfl
    rcases halive with halive | halive
    · rw [hi] at halive
      cases halive
    · rw [hi] at halive
      cases halive
  refine ⟨p, hp, ?_⟩
  rw [reap_other hpi]
  exact ⟨halive, hpid⟩

lemma Reapable.exited {parent : Slot} (h : Reapable k) (hinv : TableInv k (parent :: l))
    (hparent : k.current.vforkParent = some parent) (hne : parent ≠ k.currentProcess)
    (hfirst : ∀ z, (k.processes z).state = .zombie →
      (k.processes z).parent ≠ some k.currentProcess) (status : UInt64) :
    Reapable (k.exited status parent) := by
  have hpid := exited_field status Process.pid (fun _ _ _ => rfl) hne
  intro z hz
  by_cases hzcur : z = k.currentProcess
  · obtain ⟨hp, hppid⟩ := hinv.parents k.currentProcess List.mem_cons_self parent hparent
    rw [hzcur, exited_self hne]
    refine ⟨parent, hp, ?_, by rw [hpid]; exact hppid.symm⟩
    rw [exited_parent]
    exact .inl rfl
  · have hzparent : z ≠ parent := by
      rintro rfl
      rw [exited_parent] at hz
      cases hz
    rw [exited_other hzparent hzcur] at hz ⊢
    obtain ⟨p, hp, halive, heq⟩ := h z hz
    refine ⟨p, hp, ?_, by rw [hpid, heq]⟩
    have hpcur : p ≠ k.currentProcess := by
      rintro rfl
      exact hfirst z hz hp
    by_cases hpp : p = parent
    · rw [hpp, exited_parent]
      exact .inl rfl
    · rw [exited_other hpp hpcur]
      exact halive

/-- Zombies stay reapable as long as every process waits for its children before it exits. -/
lemma Reapable.step (h : Reapable k) (hinv : TableInv k l) (hok : ReapsFirst k e)
    (hstep : step k e = some k') : Reapable k' := by
  cases step_cases hstep with
  | stays hlocal => exact h.sameTable hlocal.sameTable
  | @vfork frame r _ hn hvfork =>
    have hends := hinv.vfork_ends frame
    rw [hvfork] at hends
    cases hends with
    | full => exact h
    | noFrame => exact h
    | noCopy => exact h
    | done hslot => exact h.vforked hinv (unusedSlot_some hslot) _ _ _
  | execve hn hexecs =>
    exact h.sameTable (hexecs.isLocal.sameTable.trans (sameTable_execveLoaded _ _ _ _))
  | wait4 hn hzombie hlocal =>
    refine (h.sameTable hlocal.sameTable).reap ?_
    rw [hlocal.sameTable.field Process.state fun _ _ _ _ _ _ => rfl]
    exact (zombieChild_some hzombie).1
  | exit hn hexit =>
    obtain ⟨parent, l', rfl, hparent, hne, rfl, -⟩ := hinv.exit_ok hexit
    exact h.exited hinv hparent hne (hok hn) _

lemma reapable_started (hstart : Starts boot) : Reapable (started boot) := by
  have hinv := tableInv_started hstart
  obtain ⟨next, mm, -, hstarted⟩ := started_eq hstart
  intro z hz
  have hnot := hinv.notMem_of_zombie hz
  rw [hstarted] at hz hnot
  have hz0 : z ≠ 0 := fun heq => hnot (heq ▸ List.mem_cons_self)
  rw [enter_other hz0] at hz
  cases hz

theorem reapable_of_run (hstart : Starts boot) (hrun : Run ReapsFirst (started boot) es k) :
    Reapable k := by
  have h : (∃ l, TableInv k l) ∧ Reapable k := by
    refine hrun.invariant (P := fun k => (∃ l, TableInv k l) ∧ Reapable k) ?_ ?_
    · exact ⟨⟨[], tableInv_started hstart⟩, reapable_started hstart⟩
    · rintro k k' e ⟨⟨l, hinv⟩, h⟩ hok hstep
      exact ⟨hinv.step hstep, h.step hinv hok hstep⟩
  exact h.2

/-! ### wait4 -/

/-- The zombie in slot `i` has been reaped by its parent, which got its process number. -/
structure Reaped (k : Kernel) (i : Slot) (v : UInt64) (k' : Kernel) : Prop where
  zombie : (k.processes i).state = .zombie
  parent : (k.processes i).parent = some k.currentProcess
  gone : k'.processes i = .zero
  pid : v = toU64 (k.processes i).pid

/-- A call of `wait4` that answers neither `-ECHILD` nor `-EFAULT` has reaped a child. -/
lemma wait4_reaped {v : UInt64} {f : SyscallFrame} (hn : syscallNumber frame.rax = .wait4)
    (h : processSyscallDispatch frame k = (.ok (v, f), k')) (hchild : v ≠ negativeErrno .child)
    (hfault : v ≠ negativeErrno .fault) : ∃ i, Reaped k i v k' := by
  rw [processSyscallDispatch, hn] at h
  obtain ⟨hwait, -⟩ := withFrame_ok h
  rcases syscallWait4_cases frame.rdi frame.rsi k with ⟨-, herr⟩ | ⟨i, k₁, hzombie, -, heq⟩
  · rw [hwait] at herr
    rcases herr v rfl with hv | hv
    · exact absurd hv hchild
    · exact absurd hv hfault
  · rw [heq] at hwait
    cases hwait
    obtain ⟨hz, hp⟩ := zombieChild_some hzombie
    exact ⟨i, hz, hp, reap_self, rfl⟩

/-- The call `wait4(-1, 0)`. -/
def waitAny : SyscallFrame := { SyscallFrame.zero with rax := 61, rdi := 0 - 1 }

lemma step_waitAny {i : Slot} (h : zombieChild k (0 - 1) = some i) :
    step k (.syscall waitAny) = some (k.reap i) := by
  have hn : syscallNumber waitAny.rax = .wait4 := by decide
  have hwait : syscallWait4 waitAny.rdi waitAny.rsi k = (.ok (toU64 (k.processes i).pid), k.reap i) := by
    have hrdi : waitAny.rdi = 0 - 1 := rfl
    have hrsi : waitAny.rsi = 0 := rfl
    simp only [syscallWait4, Prog.get_bind_apply, hrdi, hrsi, h]
    rfl
  rw [step, processSyscallDispatch, hn]
  dsimp only
  rw [withFrame, Prog.bind_ok hwait]
  rfl

/-- The zombie children of the current process. -/
def zombieChildren (k : Kernel) : Finset Slot :=
  Finset.univ.filter fun i =>
    (k.processes i).state = .zombie ∧ (k.processes i).parent = some k.currentProcess

/-- Calling `wait4(-1, 0)` often enough reaps every zombie child of the current process. -/
theorem wait_reaps {z : Slot} (hz : z ∈ zombieChildren k) :
    ∃ n k', Run (fun _ _ => True) k (List.replicate n (.syscall waitAny)) k' ∧
      k'.processes z = .zero := by
  -- each call makes one zombie child disappear
  induction hcard : (zombieChildren k).card using Nat.strong_induction_on generalizing k with
  | _ m ih =>
    have hz' := (Finset.mem_filter.mp hz).2
    have hsome : (zombieChild k (0 - 1)).isSome := by
      rw [zombieChild, List.find?_isSome]
      exact ⟨z, List.mem_finRange z, by simp [hz'.1, hz'.2]⟩
    obtain ⟨i, hi⟩ := Option.isSome_iff_exists.mp hsome
    have hfirst : Run (fun _ _ => True) k [.syscall waitAny] (k.reap i) :=
      .snoc .nil trivial (step_waitAny hi)
    by_cases hiz : z = i
    · refine ⟨1, k.reap i, hfirst, ?_⟩
      rw [hiz, reap_self]
    · have hsub : zombieChildren (k.reap i) ⊆ (zombieChildren k).erase i := by
        intro j hj
        have hj' := (Finset.mem_filter.mp hj).2
        have hji : j ≠ i := by
          rintro rfl
          rw [reap_self] at hj'
          cases hj'.1
        rw [reap_other hji] at hj'
        exact Finset.mem_erase.mpr ⟨hji, Finset.mem_filter.mpr ⟨Finset.mem_univ j, hj'⟩⟩
      have hmem : i ∈ zombieChildren k :=
        Finset.mem_filter.mpr ⟨Finset.mem_univ i, zombieChild_some hi⟩
      have hless : (zombieChildren (k.reap i)).card < m := by
        rw [← hcard]
        exact (Finset.card_le_card hsub).trans_lt (Finset.card_erase_lt_of_mem hmem)
      have hznext : z ∈ zombieChildren (k.reap i) := by
        refine Finset.mem_filter.mpr ⟨Finset.mem_univ z, ?_⟩
        rw [reap_other hiz]
        exact hz'
      obtain ⟨n, k', hrun, hgone⟩ := ih _ hless hznext rfl
      exact ⟨n + 1, k', hfirst.trans hrun, hgone⟩

/-- When the processes before `p` on the chain exit, `p` becomes the current process. The processes
that are not on the chain are left alone. -/
lemma TableInv.exits_to {p : Slot} (h : TableInv k l) (hp : p ∈ k.currentProcess :: l) :
    ∃ n k', Run (fun _ _ => True) k (List.replicate n (.syscall (call 60))) k' ∧
      k'.currentProcess = p ∧ (k'.processes p).pid = (k.processes p).pid ∧
      ∀ i ∉ k.currentProcess :: l, k'.processes i = k.processes i := by
  induction l generalizing k with
  | nil =>
    rw [List.mem_singleton] at hp
    exact ⟨0, k, .nil, hp.symm, rfl, fun i _ => rfl⟩
  | cons parent l ih =>
    rcases List.mem_cons.mp hp with rfl | hp
    · exact ⟨0, k, .nil, rfl, rfl, fun i _ => rfl⟩
    · have hparent : k.current.vforkParent = some parent := h.chain.2.1
      have hne : parent ≠ k.currentProcess := h.ne_current List.mem_cons_self
      have hexit : Run (fun _ _ => True) k [.syscall (call 60)] (k.exited 0 parent) :=
        .snoc .nil trivial (step_exit (by decide) hparent hne)
      obtain ⟨n, k', hrun, hcur, hpid, hother⟩ := ih (h.exited 0) hp
      refine ⟨n + 1, k', hexit.trans hrun, hcur, ?_, fun i hi => ?_⟩
      · rw [hpid, exited_field 0 Process.pid (fun _ _ _ => rfl) hne]
      · obtain ⟨hicur, hi⟩ := List.ne_and_not_mem_of_not_mem_cons hi
        rw [hother i hi, exited_other (List.ne_of_not_mem_cons hi) hicur]

/-- A live process is on the chain. -/
lemma TableInv.alive_mem {i : Slot} (h : TableInv k l) (hi : (k.processes i).Alive) :
    i ∈ k.currentProcess :: l := by
  rcases hi with hi | hi
  · rw [(h.running i).mp hi]
    exact List.mem_cons_self
  · exact List.mem_cons_of_mem _ ((h.blocked i).mp hi)

/-- In every run in which no program with a wrapping segment is executed and no process exits before it has
waited for its zombie children, every zombie points to the live process that created it, `wait4` reaps children
of the caller only, and every zombie can still be reaped by its parent: the processes that run on the parent's
behalf exit, and the parent waits. What is said of the first program is not needed for the proof, as the model
keeps the table apart from memory. -/
theorem zombies_reapable (_hinit : InitFits boot) (hstart : Starts boot)
    (hrun : Run (fun k e => ExecFits k e ∧ ReapsFirst k e) (started boot) es k) :
    (∀ z, (k.processes z).state = .zombie → ∃ p, (k.processes z).parent = some p ∧
      (k.processes p).state ≠ .unused ∧ (k.processes p).pid = (k.processes z).ppid) ∧
    (∀ frame v f k', syscallNumber frame.rax = .wait4 →
      processSyscallDispatch frame k = (.ok (v, f), k') → v ≠ negativeErrno .child →
      v ≠ negativeErrno .fault → ∃ i, (k.processes i).state = .zombie ∧
        v = toU64 (k.processes i).pid ∧ (k.processes i).ppid = k.current.pid ∧
        (k'.processes i).state = .unused) ∧
    ∀ z, (k.processes z).state = .zombie → ∃ n k₁ m k₂,
      Run (fun _ _ => True) k (List.replicate n (.syscall (call 60))) k₁ ∧
      k₁.current.pid = (k.processes z).ppid ∧ k₁.processes z = k.processes z ∧
      Run (fun _ _ => True) k₁ (List.replicate m (.syscall waitAny)) k₂ ∧
      (k₂.processes z).state = .unused := by
  have hrun : Run ReapsFirst (started boot) es k := hrun.mono fun _ _ hok => hok.2
  have h := reapable_of_run hstart hrun
  obtain ⟨l, hinv⟩ := tableInv_of_run hstart hrun
  refine ⟨fun z hz => ?_, fun frame v f k' hn hd hchild hfault => ?_, fun z hz => ?_⟩
  · obtain ⟨p, hp, halive, hpid⟩ := h z hz
    exact ⟨p, hp, halive.ne_unused, hpid⟩
  · obtain ⟨i, hi⟩ := wait4_reaped hn hd hchild hfault
    obtain ⟨p, hp, -, hpid⟩ := h i hi.zombie
    rw [hi.parent] at hp
    cases hp
    refine ⟨i, hi.zombie, hi.pid, hpid.symm, ?_⟩
    rw [hi.gone]
    rfl
  · obtain ⟨p, hp, halive, hpid⟩ := h z hz
    obtain ⟨n, k₁, hexits, hcur, hpid₁, hother⟩ := hinv.exits_to (hinv.alive_mem halive)
    have hsame := hother z (hinv.notMem_of_zombie hz)
    have hz₁ : z ∈ zombieChildren k₁ := by
      refine Finset.mem_filter.mpr ⟨Finset.mem_univ z, ?_⟩
      rw [hsame, hcur]
      exact ⟨hz, hp⟩
    obtain ⟨m, k₂, hwaits, hgone⟩ := wait_reaps hz₁
    refine ⟨n, k₁, m, k₂, hexits, ?_, hsame, hwaits, ?_⟩
    · rw [Kernel.current, hcur, hpid₁, hpid]
    · rw [hgone]
      rfl

/-! ### The small machine -/

lemma zombieChild_second (h₀ : (k.processes 0).state ≠ .zombie) (h₁ : (k.processes 1).state = .zombie)
    (hp : (k.processes 1).parent = some k.currentProcess) : zombieChild k (0 - 1) = some 1 := by
  have hlist : List.finRange 16 = 0 :: 1 :: (List.finRange 16).drop 2 := by decide
  rw [zombieChild, hlist, List.find?_cons_of_neg (by simp [h₀]),
    List.find?_cons_of_pos (by simp [h₁, hp])]

/-- What the exit of a child changes. -/
lemma call_exit {parent : Slot} (hparent : k.current.vforkParent = some parent)
    (hne : parent ≠ k.currentProcess) : ∃ k', step k (.syscall (call 60)) = some k' ∧
      k'.currentProcess = parent ∧ (k'.processes parent).state = .running ∧
      (k'.processes k.currentProcess).state = .zombie ∧
      (∀ i, i ≠ parent → i ≠ k.currentProcess → k'.processes i = k.processes i) ∧
      ∀ i, (k'.processes i).parent = (k.processes i).parent ∧
        (k'.processes i).vforkParent = (k.processes i).vforkParent := by
  refine ⟨_, step_exit (by decide) hparent hne, rfl, ?_, ?_, fun i hp hcur => exited_other hp hcur,
    ?_⟩
  · rw [exited_parent]
  · rw [exited_self hne]
  · intro i
    constructor
    · exact exited_field _ Process.parent (fun _ _ _ => rfl) hne i
    · exact exited_field _ Process.vforkParent (fun _ _ _ => rfl) hne i

/-- What a `vfork` that took a slot has written to it. -/
lemma vforked_child {slot : Slot} (frame : SyscallFrame) (hne : slot ≠ k.currentProcess)
    (cr3 : UInt64) (mm : Mm) :
    ((k.vforked frame slot cr3 mm).processes slot).parent = some k.currentProcess ∧
      ((k.vforked frame slot cr3 mm).processes slot).vforkParent = some k.currentProcess := by
  rw [vforked_slot hne]
  exact ⟨rfl, rfl⟩

/-- The child that `vfork` made exits. -/
lemma vforked_exit {slot : Slot} (hne : slot ≠ k.currentProcess) (cr3 : UInt64) (mm : Mm) :
    ∃ k', step (k.vforked frame slot cr3 mm) (.syscall (call 60)) = some k' ∧
      (k'.processes slot).state = .zombie := by
  obtain ⟨k', hexit, -, -, hz, -⟩ := call_exit (vforked_child frame hne cr3 mm).2 hne.symm
  exact ⟨k', hexit, hz⟩

/-- After the first child of the first process has exited, the first process can reap it. -/
theorem zombies_reapable_small : ∃ k,
    Run (fun k e => ExecFits k e ∧ ReapsFirst k e) (started (smallBoot 0x10000))
        [.syscall (call 58), .syscall (call 60)] k ∧
      (k.processes 1).state = .zombie ∧ ∃ n k₁ m k₂,
      Run (fun _ _ => True) k (List.replicate n (.syscall (call 60))) k₁ ∧
      Run (fun _ _ => True) k₁ (List.replicate m (.syscall waitAny)) k₂ ∧
      (k₂.processes 1).state = .unused := by
  have hne : (1 : Slot) ≠ (started (smallBoot 0x10000)).currentProcess := by
    rw [started_current smallBoot_starts]
    decide
  obtain ⟨cr3, mm, F, -, hstep, -⟩ := small_vfork
  obtain ⟨k', hexit, hz⟩ := vforked_exit hne cr3 mm
  have hfirst : ReapsFirst ((started (smallBoot 0x10000)).vforked (call 58) 1 cr3 mm)
      (.syscall (call 60)) := by
    intro _ z hz
    rw [small_states] at hz
    split_ifs at hz
  have hrun : Run (fun k e => ExecFits k e ∧ ReapsFirst k e) (started (smallBoot 0x10000))
      [.syscall (call 58), .syscall (call 60)] k' :=
    .snoc (.snoc .nil ⟨execFits_call (by decide) _, fun hn => absurd hn (by decide)⟩ hstep)
      ⟨execFits_call (by decide) _, hfirst⟩ hexit
  obtain ⟨-, -, hreap⟩ := zombies_reapable smallProgram.initFits smallBoot_starts hrun
  obtain ⟨n, k₁, m, k₂, hexits, -, -, hwaits, hgone⟩ := hreap 1 hz
  exact ⟨k', hrun, hz, n, k₁, m, k₂, hexits, hwaits, hgone⟩

/-- The child in slot 1 has a child in slot 2 that exits; then it exits itself without having
waited and is reaped. -/
lemma vforked_orphans (hcur : k.currentProcess = 2)
    (h₁ : (k.processes 1).parent = some 0 ∧ (k.processes 1).vforkParent = some 0)
    (h₂ : (k.processes 2).parent = some 1 ∧ (k.processes 2).vforkParent = some 1) :
    ∃ k', Run (fun _ _ => True) k [.syscall (call 60), .syscall (call 60), .syscall waitAny] k' ∧
      (k'.processes 2).state = .zombie ∧ (k'.processes 2).parent = some 1 ∧
      k'.processes 1 = .zero := by
  have hvfork₂ : k.current.vforkParent = some 1 := by rw [Kernel.current, hcur, h₂.2]
  obtain ⟨k₁, hstep₁, hcur₁, -, hz₂, -, hsame₁⟩ := call_exit hvfork₂ (by rw [hcur]; decide)
  rw [hcur] at hz₂
  have hvfork₁ : k₁.current.vforkParent = some 0 := by
    rw [Kernel.current, hcur₁, (hsame₁ 1).2, h₁.2]
  obtain ⟨k₂, hstep₂, hcur₂, hrun₂, hz₁, hother₂, hsame₂⟩ := call_exit hvfork₁ (by rw [hcur₁]; decide)
  rw [hcur₁] at hz₁ hother₂
  have hchild : zombieChild k₂ (0 - 1) = some 1 := by
    refine zombieChild_second (by rw [hrun₂]; exact ProcessState.noConfusion) hz₁ ?_
    rw [(hsame₂ 1).1, (hsame₁ 1).1, h₁.1, hcur₂]
  have hgrand : (k₂.reap 1).processes 2 = k₁.processes 2 := by
    rw [reap_other (by decide), hother₂ 2 (by decide) (by decide)]
  refine ⟨k₂.reap 1, ?_, ?_, ?_, reap_self⟩
  · exact .snoc (.snoc (.snoc .nil trivial hstep₁) trivial hstep₂) trivial (step_waitAny hchild)
  · rw [hgrand, hz₂]
  · rw [hgrand, (hsame₁ 2).1, h₂.1]

/-- A child calls `vfork` in turn and its own child exits; then the child exits without having
waited and is reaped. The parent of the remaining zombie is an unused slot. -/
theorem orphaned_zombie : ∃ k,
    Run (fun _ _ => True) (started (smallBoot 0x10000)) [.syscall (call 58), .syscall (call 58),
      .syscall (call 60), .syscall (call 60), .syscall waitAny] k ∧
      ∃ z, (k.processes z).state = .zombie ∧ ¬∃ p, (k.processes z).parent = some p ∧
        (k.processes p).state ≠ .unused ∧ (k.processes p).pid = (k.processes z).ppid := by
  have hcur := started_current smallBoot_starts
  have hne : (1 : Slot) ≠ (started (smallBoot 0x10000)).currentProcess := by
    rw [hcur]
    decide
  obtain ⟨cr3, mm, F, -, hstep, howned, hlen, hframes⟩ := small_vfork
  obtain ⟨l, hinv⟩ := (tableInv_started smallBoot_starts).step hstep
  obtain ⟨hparent, hvfork⟩ := vforked_child (call 58) hne cr3 mm
  have hstates : ∀ i, (((started (smallBoot 0x10000)).vforked (call 58) 1 cr3 mm).processes i).state =
      if i = 1 then .running else if i = 0 then .blocked else .unused := small_states
  rw [hcur] at hparent hvfork
  have hcur₁ : ((started (smallBoot 0x10000)).vforked (call 58) 1 cr3 mm).currentProcess = 1 := rfl
  generalize (started (smallBoot 0x10000)).vforked (call 58) 1 cr3 mm = k₁ at *
  have hslot : unusedSlot k₁.processes = some 2 := by
    rw [unusedSlot_eq hstates]
    decide
  obtain ⟨cr3', mm', F', hok, -⟩ := vfork_ok (call 58) howned hinv hslot (by omega)
  obtain ⟨-, hstep₂⟩ := step_vfork (by decide) hok
  have hne₂ : (2 : Slot) ≠ k₁.currentProcess := by
    rw [hcur₁]
    decide
  have hfield : ∀ {α : Type} (f : Process → α) (hf : ∀ p state, f { p with state := state } = f p),
      f ((k₁.vforked (call 58) 2 cr3' mm').processes 1) = f (k₁.processes 1) :=
    fun f hf => k₁.vforked_field (call 58) 2 cr3' mm' f hf 1 (by decide)
  have hgrand := vforked_child (call 58) hne₂ cr3' mm'
  rw [hcur₁] at hgrand
  obtain ⟨k', hrun, hz, hp, hgone⟩ := vforked_orphans (k := k₁.vforked (call 58) 2 cr3' mm') rfl
    ⟨(hfield Process.parent fun _ _ => rfl).trans hparent,
      (hfield Process.vforkParent fun _ _ => rfl).trans hvfork⟩ hgrand
  refine ⟨k', ?_, 2, hz, ?_⟩
  · exact (Transition.Run.snoc (.snoc .nil trivial hstep) trivial hstep₂).trans hrun
  · rintro ⟨p, hp', hused, -⟩
    rw [hp] at hp'
    cases hp'
    rw [hgone] at hused
    exact hused rfl

end Xbks
