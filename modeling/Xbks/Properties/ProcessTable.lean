import Xbks.Process.Statics

/-!
# The life of processes

The shape of the process table in every state of every run.
-/

namespace Xbks

variable {boot : BootInfo} {ok : Kernel → Event → Prop} {es : List Event} {k : Kernel}

/-- The table keeps its shape on every run. -/
theorem tableInv_of_run (hstart : Starts boot) (hrun : Run ok (started boot) es k) :
    ∃ l, TableInv k l :=
  hrun.invariant (P := fun k => ∃ l, TableInv k l) ⟨[], tableInv_started hstart⟩
    fun ⟨_, h⟩ _ hstep => h.step hstep

/-- The table has its shape, and as long as process numbers do not wrap around they are distinct. -/
structure Counted (es : List Event) (k : Kernel) : Prop where
  table : ∃ l, TableInv k l
  pids : es.countP Event.isVfork + 1 < 2 ^ 31 - 1 →
    PidInv k ∧ 1 ≤ k.nextPid ∧ k.nextPid ≤ es.countP Event.isVfork + 2

lemma counted_started (hstart : Starts boot) : Counted [] (started boot) where
  table := ⟨[], tableInv_started hstart⟩
  pids _ := by
    obtain ⟨hpid, hnext⟩ := pidInv_started hstart
    rw [hnext]
    exact ⟨hpid, by norm_num, by simp⟩

lemma Counted.step {e : Event} {k' : Kernel} (h : Counted es k) (hstep : step k e = some k') :
    Counted (es ++ [e]) k' := by
  obtain ⟨l, hinv⟩ := h.table
  refine ⟨hinv.step hstep, fun hcount => ?_⟩
  rw [List.countP_append, List.countP_cons, List.countP_nil] at hcount ⊢
  obtain ⟨hpid, hge, hle⟩ := h.pids (by omega)
  obtain ⟨hpid', hge', hle'⟩ := hpid.step hinv hge (fun hv => by rw [if_pos hv] at hcount; omega) hstep
  refine ⟨hpid', hge', ?_⟩
  split_ifs at hle' ⊢ with hv
  · push_cast
    omega
  · push_cast
    omega

lemma counted_of_run (hstart : Starts boot) (hrun : Run ok (started boot) es k) : Counted es k := by
  induction hrun with
  | nil => exact counted_started hstart
  | snoc _ _ hstep ih => exact ih.step hstep

lemma Counted.place (h : Counted es k) (t : TableLayout) : Counted es (t.place k) where
  table := h.table.imp fun _ hinv => hinv.of_table rfl rfl
  pids hcount := by
    obtain ⟨hpid, hnext⟩ := h.pids hcount
    exact ⟨⟨hpid.range, hpid.distinct⟩, hnext⟩

/-- The same with the table in memory. -/
lemma counted_of_static {t : TableLayout} (hboot : boot.memory.Valid) (happart : t.Apart boot.memory)
    (hinit : InitFits boot) (hstart : Starts boot) (hrun : FittingRun boot t es k) : Counted es k := by
  induction hrun with
  | nil => exact (counted_started hstart).place t
  | snoc hrun hstep ih =>
    obtain ⟨hok, hstatic⟩ := hstep
    obtain ⟨k₁, hstep, rfl⟩ := (staticStep_iff (laid_of_run hboot happart hinit hstart hrun) happart hok).mp hstatic
    exact (ih.step hstep).place t

/-- The current process is the only one running, its chain of `vfork` parents ends in the first process and
visits exactly the blocked ones, all others are unused or zombies, and process numbers are distinct. -/
structure TableShape (k : Kernel) : Prop where
  running : ∀ i, (k.processes i).state = .running ↔ i = k.currentProcess
  chain : ∃ l, Ancestors k k.currentProcess l ∧ (k.currentProcess :: l).Nodup ∧
    (∃ init, (k.currentProcess :: l).getLast? = some init ∧ (k.processes init).vforkParent = none ∧
      (k.processes init).pid = 1) ∧
    (∀ i, (k.processes i).state = .blocked ↔ i ∈ l) ∧
    (∀ i ∈ k.currentProcess :: l, ∀ p, (k.processes i).vforkParent = some p →
      (k.processes i).parent = some p ∧ (k.processes i).ppid = (k.processes p).pid) ∧
    ∀ i ∉ k.currentProcess :: l, (k.processes i).state = .unused ∨ (k.processes i).state = .zombie
  range : ∀ i, (k.processes i).state ≠ .unused → 1 ≤ (k.processes i).pid ∧ (k.processes i).pid < k.nextPid
  distinct : ∀ i j, (k.processes i).state ≠ .unused → (k.processes j).state ≠ .unused →
    (k.processes i).pid = (k.processes j).pid → i = j

lemma Counted.shape (h : Counted es k) (hcount : es.countP Event.isVfork + 1 < 2 ^ 31 - 1) : TableShape k := by
  obtain ⟨l, hinv⟩ := h.table
  obtain ⟨hpid, -, -⟩ := h.pids hcount
  refine ⟨hinv.running, ⟨l, hinv.chain, hinv.nodup, ?_, hinv.blocked, hinv.parents, ?_⟩,
    hpid.range, hpid.distinct⟩
  · obtain ⟨init, hlast⟩ : ∃ init, (k.currentProcess :: l).getLast? = some init :=
      ⟨_, List.getLast?_eq_some_getLast (List.cons_ne_nil _ _)⟩
    have hmem : init ∈ k.currentProcess :: l := List.mem_of_getLast? hlast
    -- the chain with its first pointer made explicit
    have hchain : Linked.Threaded none some (fun j => (k.processes j).vforkParent)
        (some k.currentProcess) (k.currentProcess :: l) :=
      ⟨Option.some_ne_none _, rfl, hinv.chain⟩
    have hnone := hchain.link_getLast hlast
    exact ⟨init, hlast, hnone, hinv.init init hmem hnone⟩
  · intro i hi
    rw [List.mem_cons, not_or] at hi
    cases hs : (k.processes i).state with
    | unused => exact .inl rfl
    | zombie => exact .inr rfl
    | running => exact absurd ((hinv.running i).mp hs) hi.1
    | blocked => exact absurd ((hinv.blocked i).mp hs) hi.2

/-- In every state of every run in which no program with a wrapping segment is executed the table has its
shape, also when the table is a part of the memory of the machine. -/
theorem processTable_shape (hboot : boot.memory.Valid) (hinit : InitFits boot) (hstart : Starts boot)
    (hcount : es.countP Event.isVfork + 1 < 2 ^ 31 - 1) :
    (Run ExecFits (started boot) es k → TableShape k) ∧
      ∀ t : TableLayout, t.Apart boot.memory → FittingRun boot t es k → TableShape k :=
  ⟨fun hrun => (counted_of_run hstart hrun).shape hcount, fun _ happart hrun =>
    (counted_of_static hboot happart hinit hstart hrun).shape hcount⟩

/-- The shape of the table after the first process of the small machine has called `vfork`. -/
theorem processTable_shape_small : ∃ k, Run ExecFits (started (smallBoot 0x10000)) [.syscall (call 58)] k ∧
    TableShape k ∧ (k.processes 0).state = .blocked ∧ k.currentProcess = 1 := by
  obtain ⟨cr3, mm, F, -, hstep, -⟩ := small_vfork
  have hrun : Run ExecFits (started (smallBoot 0x10000)) [.syscall (call 58)] _ :=
    .snoc .nil (execFits_call (by decide) _) hstep
  obtain ⟨hshape, -⟩ := processTable_shape (k := (started (smallBoot 0x10000)).vforked (call 58) 1 cr3 mm)
    (smallBoot_valid _) smallProgram.initFits smallBoot_starts
    (show [Event.syscall (call 58)].countP Event.isVfork + 1 < 2 ^ 31 - 1 by decide)
  exact ⟨_, hrun, hshape hrun, small_states 0, rfl⟩

end Xbks
