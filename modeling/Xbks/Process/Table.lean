import Xbks.Process.Step

/-!
# The process table

The invariant of the process table: the current process is the only one running, its chain of
`vfork` parents leads to the first process and consists of the blocked ones, and unused slots are
all zero. It does not depend on memory.
-/

namespace Xbks

variable {k k' k₁ : Kernel} {l : List Slot} {frame : SyscallFrame} {e : Event}

/-- Following `vforkParent` from slot `i` visits the slots `l`, the last of which has no
`vforkParent`. -/
def Ancestors (k : Kernel) (i : Slot) (l : List Slot) : Prop :=
  Linked.Threaded none some (fun j => (k.processes j).vforkParent) (k.processes i).vforkParent l

/-- The slots `l` are the ancestors of the current process. -/
structure TableInv (k : Kernel) (l : List Slot) : Prop where
  chain : Ancestors k k.currentProcess l
  nodup : (k.currentProcess :: l).Nodup
  running : ∀ i, (k.processes i).state = .running ↔ i = k.currentProcess
  blocked : ∀ i, (k.processes i).state = .blocked ↔ i ∈ l
  parents : ∀ i ∈ k.currentProcess :: l, ∀ p, (k.processes i).vforkParent = some p →
    (k.processes i).parent = some p ∧ (k.processes i).ppid = (k.processes p).pid
  init : ∀ i ∈ k.currentProcess :: l, (k.processes i).vforkParent = none → (k.processes i).pid = 1
  unused : ∀ i, (k.processes i).state = .unused → k.processes i = .zero

/-! ### Steps that keep the table -/

/-- The table is the same but for what a process may change about itself. -/
structure SameTable (k k' : Kernel) : Prop where
  currentProcess : k'.currentProcess = k.currentProcess
  nextPid : k'.nextPid = k.nextPid
  others : ∀ i ≠ k.currentProcess, k'.processes i = k.processes i
  self : k'.current = { k.current with
    cr3 := k'.current.cr3, entry := k'.current.entry, stack := k'.current.stack,
    brk := k'.current.brk, fds := k'.current.fds }

lemma Local.sameTable (h : Local k k') : SameTable k k' where
  currentProcess := h.currentProcess
  nextPid := h.nextPid
  others := h.others
  self := by rw [h.self]

lemma SameTable.trans {k'' : Kernel} (h : SameTable k k') (h' : SameTable k' k'') :
    SameTable k k'' where
  currentProcess := h'.currentProcess.trans h.currentProcess
  nextPid := h'.nextPid.trans h.nextPid
  others i hi := (h'.others i (by rw [h.currentProcess]; exact hi)).trans (h.others i hi)
  self := by rw [h'.self, h.self]

/-- A field that a process cannot change about itself is the same in every slot. -/
lemma SameTable.field {α : Type} (h : SameTable k k') (f : Process → α)
    (hf : ∀ p cr3 entry stack brk fds, f { p with
      cr3 := cr3, entry := entry, stack := stack, brk := brk, fds := fds } = f p) (i : Slot) :
    f (k'.processes i) = f (k.processes i) := by
  by_cases hi : i = k.currentProcess
  · subst hi
    have hself := congrArg f h.self
    rw [Kernel.current, h.currentProcess] at hself
    exact hself.trans (hf _ _ _ _ _ _)
  · rw [h.others i hi]

lemma SameTable.inv (h : SameTable k k') (hinv : TableInv k l) : TableInv k' l := by
  have hstate := h.field Process.state fun _ _ _ _ _ _ => rfl
  have hvfork := h.field Process.vforkParent fun _ _ _ _ _ _ => rfl
  have hparent := h.field Process.parent fun _ _ _ _ _ _ => rfl
  have hpid := h.field Process.pid fun _ _ _ _ _ _ => rfl
  have hppid := h.field Process.ppid fun _ _ _ _ _ _ => rfl
  refine
    { chain := ?_
      nodup := by rw [h.currentProcess]; exact hinv.nodup
      running := fun i => by rw [hstate, h.currentProcess]; exact hinv.running i
      blocked := fun i => by rw [hstate]; exact hinv.blocked i
      parents := ?_
      init := ?_
      unused := ?_ }
  · rw [Ancestors, h.currentProcess, hvfork]
    exact hinv.chain.congr fun i _ => hvfork i
  · intro i hi p hp
    rw [h.currentProcess] at hi
    rw [hvfork] at hp
    rw [hparent, hppid, hpid]
    exact hinv.parents i hi p hp
  · intro i hi hnone
    rw [h.currentProcess] at hi
    rw [hvfork] at hnone
    rw [hpid]
    exact hinv.init i hi hnone
  · intro i hi
    rw [hstate] at hi
    have hne : i ≠ k.currentProcess := by
      rintro rfl
      rw [(hinv.running _).mpr rfl] at hi
      cases hi
    rw [h.others i hne]
    exact hinv.unused i hi

lemma sameTable_execveLoaded (frame : SyscallFrame) (path : CString) (argv envp : List CString) :
    SameTable k (execveLoaded frame path argv envp k).2 := by
  have hends := execveLoaded_ends frame path argv envp k
  generalize execveLoaded frame path argv envp k = r at hends
  cases hends with
  | failed h => exact ⟨rfl, rfl, fun _ _ => rfl, rfl⟩
  | done h =>
    refine ⟨rfl, rfl, fun i hi => ?_, ?_⟩
    · exact Function.update_of_ne hi _ _
    · simp [Kernel.execed, Kernel.current]

/-- A field that `execve` does not replace. -/
lemma execed_field {α : Type} {next : Process} {mm : Mm} (f : Process → α)
    (hf : ∀ p cr3 entry stack brk,
      f { p with cr3 := cr3, entry := entry, stack := stack, brk := brk } = f p) (p : Slot) :
    f ((k.execed next mm).processes p) = f (k.processes p) := by
  by_cases hp : p = k.currentProcess
  · have hself : (k.execed next mm).processes p = { k.current with
        cr3 := next.cr3, entry := next.entry, stack := next.stack, brk := next.brk } := by
      simp [Kernel.execed, hp]
    rw [hself, hf, hp]
    rfl
  · have hother : (k.execed next mm).processes p = k.processes p := by
      simp [Kernel.execed, hp]
    rw [hother]

/-! ### vfork, exit and wait4 -/

lemma TableInv.current_running (h : TableInv k l) : k.current.state = .running :=
  (h.running _).mpr rfl

/-- The `vfork` parents of the chain are on the chain. -/
lemma TableInv.parent_mem (h : TableInv k l) :
    ∀ i ∈ k.currentProcess :: l, ∀ p, (k.processes i).vforkParent = some p → p ∈ l := by
  intro i hi p hp
  have hchain : Linked.Threaded none some (fun j => (k.processes j).vforkParent)
      (k.processes k.currentProcess).vforkParent l := h.chain
  rcases List.mem_cons.mp hi with rfl | hi
  · rw [hp] at hchain
    exact hchain.mem_of_ptr (Option.some_injective _) (Option.some_ne_none p)
  · exact hchain.mem_of_link (Option.some_injective _) hi hp (Option.some_ne_none p)

lemma TableInv.vfork_ends (h : TableInv k l) (frame : SyscallFrame) :
    VforkEnds frame k (syscallVfork frame k) :=
  syscallVfork_ends (by rw [h.current_running]; exact ProcessState.noConfusion) h.unused

/-- A `vfork` that fails leaves the table as it was. -/
lemma TableInv.vforkFailed (h : TableInv k l) (mm : Mm) : TableInv (k.vforkFailed mm) l :=
  ⟨h.chain, h.nodup, h.running, h.blocked, h.parents, h.init, h.unused⟩

section Vforked

variable {slot : Slot} {cr3 : UInt64} {mm : Mm}

lemma vforked_slot (hne : slot ≠ k.currentProcess) :
    (k.vforked frame slot cr3 mm).processes slot =
      .vforked frame k.nextPid k.currentProcess k.current cr3 := by
  simp [Kernel.vforked, hne]

lemma vforked_parent : (k.vforked frame slot cr3 mm).processes k.currentProcess =
    { k.current with state := .blocked } := by
  simp [Kernel.vforked]

lemma vforked_other {i : Slot} (hslot : i ≠ slot) (hcur : i ≠ k.currentProcess) :
    (k.vforked frame slot cr3 mm).processes i = k.processes i := by
  simp [Kernel.vforked, hslot, hcur]

/-- Only the new slot and the state of the parent are different after a `vfork`. -/
lemma Kernel.vforked_field {α : Type} (k : Kernel) (frame : SyscallFrame) (slot : Slot)
    (cr3 : UInt64) (mm : Mm) (f : Process → α) (hf : ∀ p state, f { p with state := state } = f p)
    (i : Slot) (hslot : i ≠ slot) :
    f ((k.vforked frame slot cr3 mm).processes i) = f (k.processes i) := by
  by_cases hcur : i = k.currentProcess
  · rw [hcur, vforked_parent, hf]
    rfl
  · rw [vforked_other hslot hcur]

end Vforked

/-- The child becomes the head of the chain. -/
lemma TableInv.vforked {slot : Slot} (h : TableInv k l) (hslot : (k.processes slot).state = .unused)
    (cr3 : UInt64) (mm : Mm) :
    TableInv (k.vforked frame slot cr3 mm) (k.currentProcess :: l) := by
  have hnot : slot ∉ k.currentProcess :: l := by
    intro hmem
    rcases List.mem_cons.mp hmem with rfl | hmem
    · rw [(h.running _).mpr rfl] at hslot
      cases hslot
    · rw [(h.blocked _).mpr hmem] at hslot
      cases hslot
  have hne : slot ≠ k.currentProcess := fun heq => hnot (heq ▸ List.mem_cons_self)
  have hchild : (k.vforked frame slot cr3 mm).processes slot =
      .vforked frame k.nextPid k.currentProcess k.current cr3 := vforked_slot hne
  have hmem_ne : ∀ i ∈ k.currentProcess :: l, i ≠ slot := fun i hi heq => hnot (heq ▸ hi)
  have hvfork := k.vforked_field frame slot cr3 mm Process.vforkParent fun _ _ => rfl
  have hpid := k.vforked_field frame slot cr3 mm Process.pid fun _ _ => rfl
  have hppid := k.vforked_field frame slot cr3 mm Process.ppid fun _ _ => rfl
  have hparent := k.vforked_field frame slot cr3 mm Process.parent fun _ _ => rfl
  refine
    { chain := ?_
      nodup := List.nodup_cons.mpr ⟨hnot, h.nodup⟩
      running := fun i => ?_
      blocked := fun i => ?_
      parents := ?_
      init := ?_
      unused := ?_ }
  · show Linked.Threaded none some _ ((k.vforked frame slot cr3 mm).processes slot).vforkParent _
    rw [hchild]
    refine ⟨Option.some_ne_none _, rfl, ?_⟩
    show Linked.Threaded none some _
      ((k.vforked frame slot cr3 mm).processes k.currentProcess).vforkParent l
    rw [hvfork _ hne.symm]
    exact h.chain.congr fun i hi => hvfork i (hmem_ne i (List.mem_cons_of_mem _ hi))
  · by_cases hi : i = slot
    · rw [hi, hchild]
      exact ⟨fun _ => rfl, fun _ => rfl⟩
    · by_cases hcur : i = k.currentProcess
      · rw [hcur, vforked_parent]
        exact ⟨fun hs => (by cases hs), fun heq => absurd heq hne.symm⟩
      · rw [vforked_other hi hcur, h.running]
        exact ⟨fun heq => absurd heq hcur, fun heq => absurd heq hi⟩
  · by_cases hi : i = slot
    · rw [hi, hchild]
      exact ⟨fun hs => (by cases hs), fun hmem => absurd hmem hnot⟩
    · by_cases hcur : i = k.currentProcess
      · rw [hcur, vforked_parent]
        exact ⟨fun _ => List.mem_cons_self, fun _ => rfl⟩
      · rw [vforked_other hi hcur, h.blocked, List.mem_cons, or_iff_right hcur]
  · intro i hi p hp
    rcases List.mem_cons.mp hi with hi | hi
    · have hi : i = slot := hi
      rw [hi, hchild] at hp ⊢
      obtain rfl : k.currentProcess = p := Option.some.inj hp
      rw [hpid _ hne.symm]
      exact ⟨rfl, rfl⟩
    · have hislot := hmem_ne i hi
      rw [hvfork i hislot] at hp
      obtain ⟨h₁, h₂⟩ := h.parents i hi p hp
      have hp_mem : p ≠ slot :=
        hmem_ne p (List.mem_cons_of_mem _ (h.parent_mem i hi p hp))
      rw [hparent i hislot, hppid i hislot, hpid p hp_mem]
      exact ⟨h₁, h₂⟩
  · intro i hi hnone
    rcases List.mem_cons.mp hi with hi | hi
    · have hi : i = slot := hi
      rw [hi, hchild] at hnone
      cases hnone
    · have hislot := hmem_ne i hi
      rw [hvfork i hislot] at hnone
      rw [hpid i hislot]
      exact h.init i hi hnone
  · intro i hi
    by_cases hislot : i = slot
    · rw [hislot, hchild] at hi
      cases hi
    · by_cases hcur : i = k.currentProcess
      · rw [hcur, vforked_parent] at hi
        cases hi
      · rw [vforked_other hislot hcur] at hi ⊢
        exact h.unused i hi

section Exited

variable {status : UInt64} {parent : Slot}

lemma exited_parent : (k.exited status parent).processes parent =
    { k.processes parent with state := .running } := by
  simp [Kernel.exited]

lemma exited_self (hne : parent ≠ k.currentProcess) :
    (k.exited status parent).processes k.currentProcess =
      { k.current with exitStatus := (status &&& 0xff).toNat, state := .zombie } := by
  simp [Kernel.exited, hne.symm]

lemma exited_other {i : Slot} (hparent : i ≠ parent) (hcur : i ≠ k.currentProcess) :
    (k.exited status parent).processes i = k.processes i := by
  simp [Kernel.exited, hparent, hcur]

/-- An exit changes the states of two processes and the exit status of one. -/
lemma exited_field {α : Type} (status : UInt64) (f : Process → α)
    (hf : ∀ p state exitStatus, f { p with state := state, exitStatus := exitStatus } = f p)
    (hne : parent ≠ k.currentProcess) (i : Slot) :
    f ((k.exited status parent).processes i) = f (k.processes i) := by
  by_cases hi : i = parent
  · rw [hi, exited_parent]
    exact hf (k.processes parent) .running (k.processes parent).exitStatus
  · by_cases hcur : i = k.currentProcess
    · rw [hcur, exited_self hne, hf]
      rfl
    · rw [exited_other hi hcur]

end Exited

/-- The parent of the current process, when there is one, is the head of the chain. -/
lemma TableInv.chain_cons {parent : Slot} (h : TableInv k l)
    (hparent : k.current.vforkParent = some parent) : ∃ l', l = parent :: l' := by
  have hchain : Linked.Threaded none some (fun j => (k.processes j).vforkParent)
      k.current.vforkParent l := h.chain
  cases l with
  | nil =>
    rw [hparent] at hchain
    cases hchain
  | cons i l' =>
    rw [hparent] at hchain
    cases hchain.2.1
    exact ⟨l', rfl⟩

/-- After an exit the chain starts at the parent. -/
lemma TableInv.exited {parent : Slot} (h : TableInv k (parent :: l)) (status : UInt64) :
    TableInv (k.exited status parent) l := by
  obtain ⟨hcur, hnd⟩ := List.nodup_cons.mp h.nodup
  have hne : parent ≠ k.currentProcess := fun heq => hcur (heq ▸ List.mem_cons_self)
  have hvfork := exited_field status Process.vforkParent (fun _ _ _ => rfl) hne
  have hpid := exited_field status Process.pid (fun _ _ _ => rfl) hne
  have hppid := exited_field status Process.ppid (fun _ _ _ => rfl) hne
  have hpar := exited_field status Process.parent (fun _ _ _ => rfl) hne
  refine
    { chain := ?_
      nodup := hnd
      running := fun i => ?_
      blocked := fun i => ?_
      parents := ?_
      init := ?_
      unused := ?_ }
  · show Linked.Threaded none some _
      ((k.exited status parent).processes parent).vforkParent l
    rw [hvfork]
    exact h.chain.2.2.congr fun i _ => hvfork i
  · show _ ↔ i = parent
    by_cases hi : i = parent
    · rw [hi, exited_parent]
      exact ⟨fun _ => rfl, fun _ => rfl⟩
    · by_cases hic : i = k.currentProcess
      · rw [hic, exited_self hne]
        exact ⟨fun hs => (by cases hs), fun heq => absurd heq hne.symm⟩
      · rw [exited_other hi hic, h.running]
        exact ⟨fun heq => absurd heq hic, fun heq => absurd heq hi⟩
  · by_cases hi : i = parent
    · rw [hi, exited_parent]
      exact ⟨fun hs => (by cases hs), fun hmem => absurd hmem (List.nodup_cons.mp hnd).1⟩
    · by_cases hic : i = k.currentProcess
      · rw [hic, exited_self hne]
        exact ⟨fun hs => (by cases hs), fun hmem => absurd (List.mem_cons_of_mem _ hmem) hcur⟩
      · rw [exited_other hi hic, h.blocked, List.mem_cons, or_iff_right hi]
  · intro i hi p hp
    rw [hvfork] at hp
    rw [hpar, hppid, hpid]
    exact h.parents i (List.mem_cons_of_mem _ hi) p hp
  · intro i hi hnone
    rw [hvfork] at hnone
    rw [hpid]
    exact h.init i (List.mem_cons_of_mem _ hi) hnone
  · intro i hi
    by_cases hip : i = parent
    · rw [hip, exited_parent] at hi
      cases hi
    · by_cases hic : i = k.currentProcess
      · rw [hic, exited_self hne] at hi
        cases hi
      · rw [exited_other hip hic] at hi ⊢
        exact h.unused i hi

lemma reap_self {i : Slot} : (k.reap i).processes i = .zero := by
  simp [Kernel.reap, Kernel.setProcess]

lemma reap_other {i j : Slot} (hj : j ≠ i) : (k.reap i).processes j = k.processes j := by
  simp [Kernel.reap, Kernel.setProcess, hj]

lemma TableInv.notMem_of_zombie {i : Slot} (h : TableInv k l)
    (hz : (k.processes i).state = .zombie) : i ∉ k.currentProcess :: l := by
  intro hmem
  rcases List.mem_cons.mp hmem with rfl | hmem
  · rw [(h.running _).mpr rfl] at hz
    cases hz
  · rw [(h.blocked _).mpr hmem] at hz
    cases hz

/-- A zombie is not on the chain, so reaping it does not touch the chain. -/
lemma TableInv.reap {i : Slot} (h : TableInv k l) (hz : (k.processes i).state = .zombie) :
    TableInv (k.reap i) l := by
  have hnot := h.notMem_of_zombie hz
  have hother : ∀ j ∈ k.currentProcess :: l, (k.reap i).processes j = k.processes j :=
    fun j hj => reap_other fun heq => hnot (heq ▸ hj)
  have hcurrent := hother k.currentProcess List.mem_cons_self
  refine
    { chain := ?_
      nodup := h.nodup
      running := fun j => ?_
      blocked := fun j => ?_
      parents := ?_
      init := ?_
      unused := ?_ }
  · show Linked.Threaded none some _ ((k.reap i).processes k.currentProcess).vforkParent l
    rw [hcurrent]
    exact h.chain.congr fun j hj =>
      congrArg Process.vforkParent (hother j (List.mem_cons_of_mem _ hj))
  · by_cases hj : j = i
    · rw [hj, reap_self]
      exact ⟨fun hs => (by cases hs), fun heq => absurd (heq ▸ List.mem_cons_self) hnot⟩
    · rw [reap_other hj]
      exact h.running j
  · by_cases hj : j = i
    · rw [hj, reap_self]
      exact ⟨fun hs => (by cases hs), fun hmem => absurd (List.mem_cons_of_mem _ hmem) hnot⟩
    · rw [reap_other hj]
      exact h.blocked j
  · intro j hj p hp
    rw [hother j hj] at hp ⊢
    rw [hother p (List.mem_cons_of_mem _ (h.parent_mem j hj p hp))]
    exact h.parents j hj p hp
  · intro j hj hnone
    rw [hother j hj] at hnone ⊢
    exact h.init j hj hnone
  · intro j hj
    by_cases hji : j = i
    · rw [hji, reap_self]
    · rw [reap_other hji] at hj ⊢
      exact h.unused j hj

lemma zombieChild_some {i : Slot} {pid : UInt64} (h : zombieChild k pid = some i) :
    (k.processes i).state = .zombie ∧ (k.processes i).parent = some k.currentProcess := by
  have hfind := List.find?_some h
  simp only [decide_eq_true_eq] at hfind
  exact ⟨hfind.1, hfind.2.1⟩

/-- The exits that do not halt the machine. -/
lemma TableInv.exit_ok {r : UInt64 × SyscallFrame} (h : TableInv k l)
    (hexit : syscallExit frame frame.rdi k = (.ok r, k')) :
    ∃ parent l', l = parent :: l' ∧ k.current.vforkParent = some parent ∧
      parent ≠ k.currentProcess ∧ k' = k.exited frame.rdi parent ∧
      r = (toU64 k.current.pid, { k.current.savedParentFrame with rax := toU64 k.current.pid }) := by
  cases hparent : k.current.vforkParent with
  | none =>
    have hhalt : (syscallExit frame frame.rdi k).1 = .error .halt := syscallExit_halt _ hparent
    rw [hexit] at hhalt
    cases hhalt
  | some parent =>
    obtain ⟨l', rfl⟩ := h.chain_cons hparent
    have hne : parent ≠ k.currentProcess := fun heq =>
      (List.nodup_cons.mp h.nodup).1 (heq ▸ List.mem_cons_self)
    rw [syscallExit_eq hparent hne] at hexit
    cases hexit
    exact ⟨parent, l', rfl, rfl, hne, rfl, rfl⟩

/-- The event is a call of `exit`. -/
def Event.isExit : Event → Bool
  | .syscall frame => syscallNumber frame.rax = .exit
  | .store _ _ => false

/-- How a step changes the chain of the current process and its ancestors: it stays, gets a child in
front, or loses its first process. The records of the blocked processes are not touched. -/
structure TableStep (k : Kernel) (l : List Slot) (e : Event) (k' : Kernel) (l' : List Slot) :
    Prop where
  inv : TableInv k' l'
  chain : k'.currentProcess :: l' = k.currentProcess :: l ∨
    (∃ slot, k'.currentProcess :: l' = slot :: k.currentProcess :: l) ∨
    k'.currentProcess :: l' = l ∧ e.isExit = true
  blocked : ∀ i ∈ l, i ≠ k'.currentProcess → k'.processes i = k.processes i
  pid : ∀ i ∈ k.currentProcess :: l, (k'.processes i).pid = (k.processes i).pid
  saved : ∀ i ∈ k.currentProcess :: l,
    (k'.processes i).savedParentFrame = (k.processes i).savedParentFrame

lemma TableInv.ne_current {i : Slot} (h : TableInv k l) (hi : i ∈ l) : i ≠ k.currentProcess :=
  fun heq => (List.nodup_cons.mp h.nodup).1 (heq ▸ hi)

lemma TableInv.ne_unused {i slot : Slot} (h : TableInv k l) (hi : i ∈ k.currentProcess :: l)
    (hslot : (k.processes slot).state = .unused) : i ≠ slot := by
  rintro rfl
  rcases List.mem_cons.mp hi with rfl | hi
  · rw [(h.running _).mpr rfl] at hslot
    cases hslot
  · rw [(h.blocked _).mpr hi] at hslot
    cases hslot

lemma SameTable.tableStep (h : SameTable k k') (hinv : TableInv k l) : TableStep k l e k' l where
  inv := h.inv hinv
  chain := .inl (by rw [h.currentProcess])
  blocked i hi _ := h.others i (hinv.ne_current hi)
  pid i _ := h.field Process.pid (fun _ _ _ _ _ _ => rfl) i
  saved i _ := h.field Process.savedParentFrame (fun _ _ _ _ _ _ => rfl) i

lemma TableInv.vforkFailed_step (h : TableInv k l) (mm : Mm) :
    TableStep k l e (k.vforkFailed mm) l where
  inv := h.vforkFailed mm
  chain := .inl rfl
  blocked _ _ _ := rfl
  pid _ _ := rfl
  saved _ _ := rfl

lemma TableInv.vforked_step {slot : Slot} (h : TableInv k l)
    (hslot : (k.processes slot).state = .unused) (cr3 : UInt64) (mm : Mm) :
    TableStep k l e (k.vforked frame slot cr3 mm) (k.currentProcess :: l) where
  inv := h.vforked hslot cr3 mm
  chain := .inr (.inl ⟨slot, rfl⟩)
  blocked _ hi _ :=
    vforked_other (h.ne_unused (List.mem_cons_of_mem _ hi) hslot) (h.ne_current hi)
  pid i hi := k.vforked_field _ _ _ _ Process.pid (fun _ _ => rfl) i (h.ne_unused hi hslot)
  saved i hi :=
    k.vforked_field _ _ _ _ Process.savedParentFrame (fun _ _ => rfl) i (h.ne_unused hi hslot)

lemma TableInv.reap_step {i : Slot} (h : TableInv k l) (hz : (k.processes i).state = .zombie) :
    TableStep k l e (k.reap i) l := by
  have hother : ∀ j ∈ k.currentProcess :: l, (k.reap i).processes j = k.processes j :=
    fun j hj => reap_other fun heq => h.notMem_of_zombie hz (heq ▸ hj)
  exact
    { inv := h.reap hz
      chain := .inl rfl
      blocked := fun j hj _ => hother j (List.mem_cons_of_mem _ hj)
      pid := fun j hj => by rw [hother j hj]
      saved := fun j hj => by rw [hother j hj] }

lemma TableInv.exited_step {parent : Slot} (h : TableInv k (parent :: l)) (status : UInt64)
    (hexit : e.isExit = true) : TableStep k (parent :: l) e (k.exited status parent) l := by
  have hne : parent ≠ k.currentProcess := h.ne_current List.mem_cons_self
  exact
    { inv := h.exited status
      chain := .inr (.inr ⟨rfl, hexit⟩)
      blocked := fun i hi hip => exited_other hip (h.ne_current hi)
      pid := fun i _ => exited_field status Process.pid (fun _ _ _ => rfl) hne i
      saved := fun i _ => exited_field status Process.savedParentFrame (fun _ _ _ => rfl) hne i }

lemma TableStep.of_sameTable {k₁ : Kernel} {l' : List Slot} (hsame : SameTable k k₁)
    (hinv : TableInv k l) (h : TableStep k₁ l e k' l') : TableStep k l e k' l' where
  inv := h.inv
  chain := by
    rw [← hsame.currentProcess]
    exact h.chain
  blocked i hi hne := (h.blocked i hi hne).trans (hsame.others i (hinv.ne_current hi))
  pid i hi := (h.pid i (by rw [hsame.currentProcess]; exact hi)).trans
    (hsame.field Process.pid (fun _ _ _ _ _ _ => rfl) i)
  saved i hi := (h.saved i (by rw [hsame.currentProcess]; exact hi)).trans
    (hsame.field Process.savedParentFrame (fun _ _ _ _ _ _ => rfl) i)

/-- Every step keeps the shape of the table. -/
theorem TableInv.tableStep (h : TableInv k l) (hstep : step k e = some k') :
    ∃ l', TableStep k l e k' l' := by
  cases step_cases hstep with
  | stays hlocal => exact ⟨l, hlocal.sameTable.tableStep h⟩
  | @vfork frame r _ hn hvfork =>
    have hends := h.vfork_ends frame
    rw [hvfork] at hends
    cases hends with
    | full => exact ⟨l, (Local.refl k).sameTable.tableStep h⟩
    | noFrame => exact ⟨l, h.vforkFailed_step _⟩
    | noCopy => exact ⟨l, h.vforkFailed_step _⟩
    | done hslot => exact ⟨_, h.vforked_step (unusedSlot_some hslot) _ _⟩
  | execve hn hexecs =>
    exact ⟨l, (hexecs.isLocal.sameTable.trans (sameTable_execveLoaded _ _ _ _)).tableStep h⟩
  | wait4 hn hzombie hlocal =>
    have hsame := hlocal.sameTable
    refine ⟨l, .of_sameTable hsame h ((hsame.inv h).reap_step ?_)⟩
    rw [hsame.field Process.state fun _ _ _ _ _ _ => rfl]
    exact (zombieChild_some hzombie).1
  | @exit frame r _ hn hexit =>
    obtain ⟨parent, l', rfl, -, -, rfl, -⟩ := h.exit_ok hexit
    exact ⟨l', h.exited_step _ (by simp [Event.isExit, hn])⟩

theorem TableInv.step (h : TableInv k l) (hstep : step k e = some k') : ∃ l', TableInv k' l' := by
  obtain ⟨l', hl'⟩ := h.tableStep hstep
  exact ⟨l', hl'.inv⟩

end Xbks
