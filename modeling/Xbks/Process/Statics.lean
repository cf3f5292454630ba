import Xbks.Process.Boot

/-!
# The process table in memory

`Kernel` keeps the process table beside the memory of the machine. In the program it is a static array, so
its records are memory too: a segment that wraps around can be copied over them. `StaticStep` moves the
machine with the first words of every record in memory. As long as no program with such a segment is
executed the two machines agree (`staticStep_iff`).
-/

namespace Xbks

variable {boot : BootInfo} {t : TableLayout} {k k' k₁ : Kernel} {e : Event} {es : List Event}
  {F : List UInt64} {l : List Slot}

/-! ### Records as words -/

/-- `sizeof(struct process)`. -/
abbrev recordSize : ℕ := 4952

/-- The size of the process table. -/
abbrev tableSize : ℕ := 79232

/-- Where the process table is: its physical address, and the one that pointers to it are made from. -/
structure TableLayout where
  physical : UInt64
  link : UInt64

def ProcessState.code : ProcessState → UInt64
  | .unused => 0
  | .running => 1
  | .blocked => 2
  | .zombie => 3

def TableLayout.pointer (t : TableLayout) : Option Slot → UInt64
  | none => 0
  | some i => t.link + UInt64.ofNat (recordSize * i)

/-- The 32 bits of an `int`. -/
def intWord (n : ℤ) : UInt64 := toU64 n &&& 0xffffffff

/-- The words of a record in front of the saved frame. -/
def TableLayout.head (t : TableLayout) (p : Process) : List UInt64 :=
  [intWord p.pid ||| intWord p.ppid <<< 32, p.state.code, p.cr3, p.entry, p.stack, p.brk, intWord p.exitStatus,
    t.pointer p.parent, t.pointer p.vforkParent]

/-- The `enum` in the lower half of a word. -/
def ProcessState.ofCode (w : UInt64) : Option ProcessState :=
  [.unused, .running, .blocked, .zombie].find? fun state => state.code = w &&& 0xffffffff

def TableLayout.slotOf (t : TableLayout) (w : UInt64) : Option (Option Slot) :=
  (none :: (List.finRange 16).map some).find? fun p => t.pointer p = w

/-- The record that has the words `w` in front of the saved frame; none if a state or a pointer is not one
that the model knows. -/
def Process.ofHead (t : TableLayout) (w : ℕ → UInt64) (p : Process) : Option Process := do
  let state ← ProcessState.ofCode (w 1)
  let parent ← t.slotOf (w 7)
  let vforkParent ← t.slotOf (w 8)
  return { p with
    pid := wrapInt (w 0).toNat
    ppid := wrapInt ((w 0).toNat / 2 ^ 32 : ℕ)
    state := state
    cr3 := w 2
    entry := w 3
    stack := w 4
    brk := w 5
    exitStatus := wrapInt (w 6).toNat
    parent := parent
    vforkParent := vforkParent }

/-- Nine words are read. -/
lemma ofHead_congr {p : Process} {w w' : ℕ → UInt64} (h : ∀ j : Fin 9, w j = w' j) :
    p.ofHead t w = p.ofHead t w' := by
  have h0 : w 0 = w' 0 := h 0
  have h1 : w 1 = w' 1 := h 1
  have h2 : w 2 = w' 2 := h 2
  have h3 : w 3 = w' 3 := h 3
  have h4 : w 4 = w' 4 := h 4
  have h5 : w 5 = w' 5 := h 5
  have h6 : w 6 = w' 6 := h 6
  have h7 : w 7 = w' 7 := h 7
  have h8 : w 8 = w' 8 := h 8
  rw [Process.ofHead, Process.ofHead, h0, h1, h2, h3, h4, h5, h6, h7, h8]

/-! ### The table in memory -/

/-- The word of the table that lies at an index of a frame. -/
def TableLayout.wordAt (t : TableLayout) (processes : Slot → Process) (frame : UInt64) (index : Fin 512) :
    Option UInt64 :=
  let offset := frame.toNat + 8 * index - t.physical.toNat
  if h : t.physical.toNat ≤ frame.toNat + 8 * index ∧ offset / recordSize < 16 then
    (t.head (processes ⟨offset / recordSize, h.2⟩))[offset % recordSize / 8]?
  else none

def Kernel.withMem (k : Kernel) (mem : UInt64 → Page) : Kernel :=
  { k with mm := { k.mm with mem := mem } }

/-- The machine with the words of the table in its memory. -/
def TableLayout.place (t : TableLayout) (k : Kernel) : Kernel :=
  k.withMem fun frame index => (t.wordAt k.processes frame index).getD (k.mm.mem frame index)

/-- Word `j` of the record in slot `i`, as memory has it. -/
def TableLayout.word (t : TableLayout) (s : Mm) (i : Slot) (j : ℕ) : UInt64 :=
  let physical := t.physical + UInt64.ofNat (recordSize * i + 8 * j)
  s.mem (alignDown physical pageSize) (wordIndex physical)

/-- The record after memory has changed from `s` to `s'`. -/
def TableLayout.reread (t : TableLayout) (s s' : Mm) (i : Slot) (p : Process) : Option Process :=
  if ∀ j : Fin 9, t.word s' i j = t.word s i j then some p else p.ofHead t (t.word s' i)

/-- The steps of the machine with its table in memory. Either the step leaves all memory alone that the
allocator does not hand out, and the words of the table are what it has assigned to them. Or it is an
`execve` whose program could not be loaded, which assigns nothing to the table, and the segments copied
before it was given up have overwritten the words of the table and nothing else of that memory. What the
code does after other stores to its own memory is left out. -/
inductive StaticStep (boot : BootInfo) (t : TableLayout) : Kernel → Event → Kernel → Prop
  | keeps {k k' : Kernel} {e : Event} (hstep : step k e = some k')
      (hsame : ∀ x ∉ boot.memory.handedFrames, k'.mm.mem x = k.mm.mem x) : StaticStep boot t k e (t.place k')
  | overwrites {k k' : Kernel} {frame f : SyscallFrame} {processes : Slot → Process}
      (hn : syscallNumber frame.rax = .execve)
      (hcall : processSyscallDispatch frame k = (.ok (negativeErrno .noexec, f), k'))
      (hrest : ∀ x ∉ boot.memory.handedFrames, ∀ j, t.wordAt k.processes x j = none →
        k'.mm.mem x j = k.mm.mem x j)
      (hread : ∀ i, t.reread k.mm k'.mm i (k'.processes i) = some (processes i)) :
      StaticStep boot t k (.syscall frame) { k' with processes := processes }

/-- Runs of this machine from the state in which the first process starts. -/
abbrev StaticRun (boot : BootInfo) (t : TableLayout) (es : List Event) (k : Kernel) : Prop :=
  Transition.Path (StaticStep boot t) (t.place (started boot)) es k

/-- Those in which no program with a wrapping segment is executed. -/
abbrev FittingRun (boot : BootInfo) (t : TableLayout) (es : List Event) (k : Kernel) : Prop :=
  Transition.Path (fun k e k' => ExecFits k e ∧ StaticStep boot t k e k') (t.place (started boot)) es k

/-! ### Memory apart from the table -/

/-- A frame that holds no part of the table. -/
def TableLayout.Avoids (t : TableLayout) (x : UInt64) : Prop :=
  x.toNat + 4096 ≤ t.physical.toNat ∨ t.physical.toNat + tableSize ≤ x.toNat

/-- The memory of the table is not handed out, and no page table of the kernel lies there. -/
structure TableLayout.Apart (t : TableLayout) (boot : BootMemory) : Prop where
  aligned : t.physical.toNat % 8 = 0
  fits : t.physical.toNat + tableSize < 2 ^ 64
  frames : ∀ x ∈ boot.handedFrames, t.Avoids x
  tables : ∀ n x, KernelTable boot.mem (boot.cr3 &&& ~~~0xfff) n x → t.Avoids x

lemma TableLayout.wordAt_of_avoids {processes : Slot → Process} {x : UInt64} (h : t.Avoids x)
    (j : Fin 512) : t.wordAt processes x j = none := by
  rw [wordAt]
  apply dif_neg
  rintro ⟨hge, hlt⟩
  have hj := j.isLt
  have hoff : x.toNat + 8 * j - t.physical.toNat < tableSize := (Nat.div_lt_iff_lt_mul (by norm_num)).mp hlt
  rcases h with h | h
  · omega
  · simp only [tableSize] at h hoff
    omega

lemma TableLayout.place_mem_of_avoids {x : UInt64} (h : t.Avoids x) : (t.place k).mm.mem x = k.mm.mem x := by
  funext j
  change (t.wordAt k.processes x j).getD _ = _
  rw [wordAt_of_avoids h]
  rfl

lemma TableLayout.place_place (t : TableLayout) (k : Kernel) : t.place (t.place k) = t.place k := by
  have hmem : (t.place (t.place k)).mm.mem = (t.place k).mm.mem := by
    funext x j
    change (t.wordAt k.processes x j).getD ((t.wordAt k.processes x j).getD _) =
      (t.wordAt k.processes x j).getD _
    cases t.wordAt k.processes x j with
    | none => rfl
    | some w => rfl
  exact congrArg (t.place k).withMem hmem

/-! ### Ownership -/

/-- The boot information with other memory. -/
def BootInfo.withMem (boot : BootInfo) (mem : UInt64 → Page) : BootInfo :=
  { boot with memory := { boot.memory with mem := mem } }

/-- Frames are owned as before when memory changes that is not handed out. -/
lemma Owned.remap {mem : UInt64 → Page} (h : Owned boot.memory k F)
    (hframes : ∀ x ∈ boot.memory.handedFrames, mem x = k.mm.mem x)
    (hkernel : mem k.mm.kernelPml4 = k.mm.mem k.mm.kernelPml4) :
    Owned (boot.withMem mem).memory (k.withMem mem) F := by
  have hkept : ∀ i, Kept i k (k.withMem mem) := fun i =>
    { cr3 := rfl
      mem := fun x hx => hframes x (h.live_mem hx) }
  exact
    { pool := h.pool.congr (fun f hf => congrFun (hframes f (h.free_mem hf)) 0) rfl rfl rfl
      frames := by
        rw [Finset.sum_congr rfl fun i _ => (hkept i).nodes]
        exact h.frames
      nodup := h.nodup
      isFrame := h.isFrame
      kernel := h.kernel
      kernelPml4 := h.kernelPml4
      outside := fun _ _ => rfl
      upper := by
        intro i hne j hj
        have hi : (k.processes i).cr3 ≠ 0 := hne
        have hroot : (k.processes i).cr3 ∈ liveNodes k.mm (k.processes i) := by
          rw [liveNodes_of_ne hi]
          exact Radix.self_mem_nodes
        change mem (k.processes i).cr3 j = mem k.mm.kernelPml4 j
        rw [hkernel, hframes _ (h.live_mem hroot)]
        exact h.upper i hi j hj
      current := h.current
      live := h.live }

lemma TableInv.of_table (h : TableInv k l) (hprocesses : k'.processes = k.processes)
    (hcurrent : k'.currentProcess = k.currentProcess) : TableInv k' l :=
  SameTable.inv
    { currentProcess := hcurrent
      nextPid := rfl
      others := fun i _ => by rw [hprocesses]
      self := by rw [Kernel.current, Kernel.current, hprocesses, hcurrent] }
    (k := { k with nextPid := k'.nextPid }) ⟨h.chain, h.nodup, h.running, h.blocked, h.parents, h.init, h.unused⟩

/-- The table has its shape, every frame has one owner, and the words of the table are in memory. The kernel's
other memory is as it was at boot. -/
structure Laid (boot : BootInfo) (t : TableLayout) (k : Kernel) : Prop where
  owned : ∃ mem l F, TableInv k l ∧ Owned (boot.withMem mem).memory k F
  rest : ∀ x ∉ boot.memory.handedFrames, t.Avoids x → k.mm.mem x = boot.memory.mem x
  placed : t.place k = k

/-- No address space changes when the table is put into memory, whatever its records are. -/
lemma kept_place {mem : UInt64 → Page} (happart : t.Apart boot.memory)
    (howned : Owned (boot.withMem mem).memory k F) (hmm : k₁.mm = k.mm) (i : Slot) :
    Kept i k (k.withMem (t.place k₁).mm.mem) where
  cr3 := rfl
  mem x hx := by
    have hplaced : (t.place k₁).mm.mem x = k₁.mm.mem x :=
      TableLayout.place_mem_of_avoids (happart.frames x (howned.live_mem hx))
    rw [hmm] at hplaced
    exact hplaced

lemma Owned.place {mem : UInt64 → Page} (happart : t.Apart boot.memory)
    (howned : Owned (boot.withMem mem).memory k F) (hmm : k₁.mm = k.mm) :
    Owned (boot.withMem (t.place k₁).mm.mem).memory (k.withMem (t.place k₁).mm.mem) F := by
  refine howned.remap (fun x hx => ?_) ?_
  · rw [TableLayout.place_mem_of_avoids (happart.frames x hx), hmm]
  · have hpml4 : k.mm.kernelPml4 = boot.memory.cr3 &&& ~~~0xfff := howned.kernelPml4
    rw [hpml4, TableLayout.place_mem_of_avoids (happart.tables 4 _ .root), hmm]

/-- Putting the table into memory. -/
lemma laid_place {mem : UInt64 → Page} (happart : t.Apart boot.memory) (hinv : TableInv k l)
    (howned : Owned (boot.withMem mem).memory k F)
    (hrest : ∀ x ∉ boot.memory.handedFrames, t.Avoids x → k.mm.mem x = boot.memory.mem x) :
    Laid boot t (t.place k) where
  owned := ⟨(t.place k).mm.mem, l, F, hinv.of_table rfl rfl, howned.place happart rfl⟩
  rest x hx havoids := by
    rw [TableLayout.place_mem_of_avoids havoids]
    exact hrest x hx havoids
  placed := t.place_place k

/-- A step in which no program with a wrapping segment is executed does not write to other memory. -/
lemma Laid.step (h : Laid boot t k) (happart : t.Apart boot.memory) (hok : ExecFits k e)
    (hstep : step k e = some k') :
    (∀ x ∉ boot.memory.handedFrames, k'.mm.mem x = k.mm.mem x) ∧ Laid boot t (t.place k') := by
  obtain ⟨mem, l, F, hinv, howned⟩ := h.owned
  obtain ⟨F', howned', -⟩ := howned.step hinv hok hstep
  obtain ⟨l', hinv'⟩ := hinv.step hstep
  have hsame : ∀ x ∉ boot.memory.handedFrames, k'.mm.mem x = k.mm.mem x := fun x hx =>
    (howned'.outside x hx).trans (howned.outside x hx).symm
  refine ⟨hsame, laid_place happart hinv' howned' fun x hx havoids => ?_⟩
  rw [hsame x hx]
  exact h.rest x hx havoids

/-! ### The two machines -/

/-- Where a word of a record is. -/
lemma TableLayout.Apart.toNat_address (happart : t.Apart boot.memory) (i : Slot) (j : Fin 9) :
    (t.physical + UInt64.ofNat (recordSize * i + 8 * j)).toNat =
      t.physical.toNat + (recordSize * i + 8 * j) := by
  have hfits := happart.fits
  refine toNat_add_ofNat ?_
  simp only [recordSize, tableSize] at hfits ⊢
  omega

lemma TableLayout.Apart.notMem (happart : t.Apart boot.memory) (i : Slot) (j : Fin 9) :
    alignDown (t.physical + UInt64.ofNat (recordSize * i + 8 * j)) pageSize ∉ boot.memory.handedFrames := by
  have hdown := toNat_alignDown (t.physical + UInt64.ofNat (recordSize * i + 8 * j))
  rw [happart.toNat_address i j] at hdown
  intro hhanded
  have havoids := happart.frames _ hhanded
  simp only [Avoids, hdown, recordSize, tableSize] at havoids
  omega

lemma TableLayout.Apart.word_eq {s s' : Mm} (happart : t.Apart boot.memory)
    (hsame : ∀ x ∉ boot.memory.handedFrames, s'.mem x = s.mem x) (i : Slot) (j : Fin 9) :
    t.word s' i j = t.word s i j := by
  rw [word, word, hsame _ (happart.notMem i j)]

/-- The word of the table at the address of word `j` of slot `i`. -/
lemma TableLayout.wordAt_eq {processes : Slot → Process} {frame : UInt64} {index : Fin 512} (i : Slot) (j : Fin 9)
    (h : frame.toNat + 8 * index = t.physical.toNat + (recordSize * i + 8 * j)) :
    t.wordAt processes frame index = some ((t.head (processes i)).getD j 0) := by
  have hj := j.isLt
  have hoffset : frame.toNat + 8 * index - t.physical.toNat = recordSize * i + 8 * j := by omega
  have hslot : (recordSize * i + 8 * j) / recordSize = i := by
    rw [Nat.mul_add_div (by norm_num), Nat.div_eq_of_lt (by simp only [recordSize]; omega), Nat.add_zero]
  have hword : (recordSize * i + 8 * j) % recordSize / 8 = j := by
    rw [Nat.mul_add_mod, Nat.mod_eq_of_lt (by simp only [recordSize]; omega), Nat.mul_div_cancel_left _ (by norm_num)]
  have hlength : j.val < (t.head (processes i)).length := hj
  rw [wordAt]
  simp only [hoffset, hslot, hword]
  rw [dif_pos ⟨by omega, i.isLt⟩, List.getElem?_eq_getElem hlength, List.getD_eq_getElem _ _ hlength]

/-- The words in memory are those of the records. -/
lemma Laid.word (h : Laid boot t k) (happart : t.Apart boot.memory) (i : Slot) (j : Fin 9) :
    t.word k.mm i j = (t.head (k.processes i)).getD j 0 := by
  have haligned := happart.aligned
  have haddr := happart.toNat_address i j
  rw [TableLayout.word]
  generalize t.physical + UInt64.ofNat (recordSize * i + 8 * j) = address at *
  have hdown := toNat_alignDown address
  have hindex : (wordIndex address).val = address.toNat % 4096 / 8 := by
    rw [wordIndex, Fin.val_ofNat]
    omega
  have hplaced := congrFun (congrFun (congrArg (fun k => k.mm.mem) h.placed) (alignDown address pageSize))
    (wordIndex address)
  refine hplaced.symm.trans ?_
  change (t.wordAt k.processes _ _).getD _ = _
  rw [TableLayout.wordAt_eq i j (by
    rw [hdown, hindex]
    simp only [recordSize] at haddr ⊢
    omega)]
  rfl

/-- An `execve` whose program could not be loaded leaves the table alone. -/
lemma execve_processes {frame f : SyscallFrame} (hn : syscallNumber frame.rax = .execve)
    (hcall : processSyscallDispatch frame k = (.ok (negativeErrno .noexec, f), k')) :
    k'.processes = k.processes := by
  rw [processSyscallDispatch, hn] at hcall
  have hcall : syscallExecve frame k = (.ok (negativeErrno .noexec, f), k') := hcall
  rcases syscallExecve_cases frame k with ⟨-, hreads, -⟩ | ⟨path, argv, envp, k₁, hexecs, heq⟩
  · rw [hcall] at hreads
    obtain ⟨accesses, rfl⟩ := hreads
    rfl
  · rw [hcall] at heq
    have hends := execveLoaded_ends frame path argv envp k₁
    generalize execveLoaded frame path argv envp k₁ = r at heq hends
    cases hends with
    | failed =>
      cases heq
      obtain ⟨accesses, rfl⟩ := hexecs.reads
      rfl
    | done =>
      injection heq with hanswer
      simp [negativeErrno, Errno.code] at hanswer

/-- When no program with a wrapping segment is executed, the machine with its table in memory takes the
steps of the machine that keeps the table apart. -/
theorem staticStep_iff (h : Laid boot t k) (happart : t.Apart boot.memory) (hok : ExecFits k e) :
    StaticStep boot t k e k' ↔ ∃ k₁, step k e = some k₁ ∧ k' = t.place k₁ := by
  constructor
  · intro hstatic
    cases hstatic with
    | keeps hstep => exact ⟨_, hstep, rfl⟩
    | @overwrites k' frame f processes hn hcall hrest hread =>
      have hstep : step k (.syscall frame) = some k' := by rw [step, hcall]
      obtain ⟨hsame, -⟩ := h.step happart hok hstep
      have hprocesses : processes = k'.processes := by
        funext i
        have hi := hread i
        rw [TableLayout.reread, if_pos fun j => happart.word_eq hsame i j] at hi
        exact (Option.some.inj hi).symm
      refine ⟨k', hstep, ?_⟩
      -- the words of the table are in memory already
      have hmem : (t.place k').mm.mem = k'.mm.mem := by
        funext x j
        by_cases hx : t.Avoids x
        · rw [TableLayout.place_mem_of_avoids hx]
        · have hsame := hsame x fun hhanded => hx (happart.frames x hhanded)
          have hplaced := congrFun (congrFun (congrArg (fun k => k.mm.mem) h.placed) x) j
          change (t.wordAt k.processes x j).getD (k.mm.mem x j) = k.mm.mem x j at hplaced
          change (t.wordAt k'.processes x j).getD (k'.mm.mem x j) = k'.mm.mem x j
          rw [execve_processes hn hcall, hsame, hplaced]
      rw [hprocesses]
      exact (congrArg k'.withMem hmem).symm
  · rintro ⟨k₁, hstep, rfl⟩
    exact .keeps hstep (h.step happart hok hstep).1

/-- On runs without such programs the table keeps its shape, and the words in memory are its records. -/
theorem laid_of_run (hboot : boot.memory.Valid) (happart : t.Apart boot.memory) (hinit : InitFits boot)
    (hstart : Starts boot)
    (hrun : FittingRun boot t es k) : Laid boot t k := by
  induction hrun with
  | nil =>
    obtain ⟨F, howned, -⟩ := owned_started hboot hinit hstart
    have howned : Owned (boot.withMem boot.memory.mem).memory (started boot) F := howned
    exact laid_place happart (tableInv_started hstart) howned fun x hx _ => howned.outside x hx
  | snoc _ hstep ih =>
    obtain ⟨hok, hstatic⟩ := hstep
    obtain ⟨k₁, hstep, rfl⟩ := (staticStep_iff ih happart hok).mp hstatic
    exact (ih.step happart hok hstep).2

end Xbks
