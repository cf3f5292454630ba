import Xbks.Process.Ownership
import Xbks.Process.Start
import Mathlib.Order.CompletePartialOrder

/-!
# Booting

The ownership of frames when the first process enters user mode, and that it does so: loading a
well-formed program and `vfork` succeed when there are enough free frames. At the end stands a
small machine that starts.
-/

namespace Xbks

variable {boot : BootInfo} {kmem : KernelMemory} {file : RamdiskFile} {header : ElfHeader} {p : UInt64} {s : Mm}
  {F F' : List UInt64}

/-! ### The first process -/

/-- The first program has no segment that wraps around. -/
def InitFits (boot : BootInfo) : Prop :=
  ∀ file, ramdiskFind boot.kmem boot.ramdisk (cstr "/bin/xsh") = some file →
    SegmentsFit boot.kmem file

lemma mask_idem (v : UInt64) : v &&& ~~~0xfff &&& ~~~0xfff = v &&& ~~~0xfff := by
  rw [UInt64.and_assoc, UInt64.and_self]

/-- The state before the first process is loaded. -/
lemma mmInit_kernelPml4 (hboot : boot.memory.Valid) :
    (mmInit boot.memory).kernelPml4 = boot.memory.cr3 &&& ~~~0xfff := by
  obtain ⟨-, -, -, hkernel, -⟩ := mmInit_spec hboot
  rw [Mm.kernelPml4, hkernel, mask_idem]

/-- What the first program was loaded into. -/
theorem started_loaded (hboot : boot.memory.Valid) (hinit : InitFits boot) (hstart : Starts boot) :
    ∃ next mm file F, started boot = boot.enter next mm ∧
      ramdiskFind boot.kmem boot.ramdisk (cstr "/bin/xsh") = some file ∧
      Pool (mmInit boot.memory) F ∧ F.Perm boot.memory.handedFrames ∧
      ProgramLoaded boot.kmem file (.fresh 1) next (mmInit boot.memory) mm F := by
  obtain ⟨next, mm, hload, hstarted⟩ := started_eq hstart
  obtain ⟨F, hpool, hperm, hkernel, -⟩ := mmInit_spec hboot
  have hnot : (mmInit boot.memory).kernelCr3Value &&& ~~~0xfff ∉ F := by
    rw [hkernel, mask_idem, hperm.mem_iff]
    exact hboot.kernel_notMem .root
  rcases loadProgram_spec (.fresh 1) (show stringBytes initArgv < 2 ^ 64 by decide)
    (show stringBytes initEnvp < 2 ^ 64 by decide) hpool hnot hinit with ⟨hfalse, -⟩ | ⟨-, file, hfile, hloaded⟩
  · rw [hload] at hfalse
    cases hfalse
  · rw [hload] at hloaded
    exact ⟨next, mm, file, F, hstarted, hfile, hpool, hperm, hloaded⟩

/-- The first process has what it needs, everything else is free. -/
theorem owned_started (hboot : boot.memory.Valid) (hinit : InitFits boot) (hstart : Starts boot) :
    ∃ F, Owned boot.memory (started boot) F ∧
      ∀ file, ramdiskFind boot.kmem boot.ramdisk (cstr "/bin/xsh") = some file →
        boot.memory.handedFrames.length ≤ F.length + programCost boot.kmem file := by
  obtain ⟨next, mm, file, F, hstarted, hfile, hpool, hperm, ⟨⟨F', hbuilt, hused⟩, -⟩⟩ :=
    started_loaded hboot hinit hstart
  obtain ⟨F₀, -, hperm₀, -, houtside⟩ := mmInit_spec hboot
  have hne : next.cr3 ≠ 0 := (hpool.frames _ hbuilt.root).ne_zero
  have hpml4 : mm.kernelPml4 = (mmInit boot.memory).kernelPml4 := by
    rw [Mm.kernelPml4, hbuilt.kernelCr3]
    rfl
  have hkernel : mm.kernelPml4 ∉ boot.memory.handedFrames := by
    rw [hpml4, mmInit_kernelPml4 hboot]
    exact hboot.kernel_notMem .root
  have hfirst : ∀ i, (boot.enter next mm).processes i = if i = 0 then next else .zero := by
    intro i
    split_ifs with hi
    · rw [hi, enter_first]
    · exact enter_other hi
  have hlen : ∀ file, ramdiskFind boot.kmem boot.ramdisk (cstr "/bin/xsh") = some file →
      boot.memory.handedFrames.length ≤ F'.length + programCost boot.kmem file := by
    intro file' hfile'
    rw [hfile] at hfile'
    cases hfile'
    rw [← hperm.length_eq]
    exact hused
  rw [hstarted]
  refine ⟨F',
    { pool := hbuilt.pool
      frames := ?_
      nodup := hboot.nodup_handedFrames
      isFrame := ?_
      kernel := hkernel
      kernelPml4 := hpml4.trans (mmInit_kernelPml4 hboot)
      outside := ?_
      upper := ?_
      current := ?_
      live := ?_ }, hlen⟩
  · have hsum : ∑ i, liveNodes mm ((boot.enter next mm).processes i) = mm.nodes 4 next.cr3 := by
      rw [Finset.sum_eq_single (0 : Slot)]
      · rw [enter_first, liveNodes_of_ne hne]
      · intro i _ hi
        rw [enter_other hi]
        exact liveNodes_of_eq rfl
      · exact fun h => absurd (Finset.mem_univ _) h
    show (F' : Multiset UInt64) + ∑ i, liveNodes mm ((boot.enter next mm).processes i) = _
    rw [hsum, add_comm, hbuilt.nodes]
    exact Multiset.coe_eq_coe.mpr hperm
  · intro x hx
    show IsFrame mm.hhdmOffsetValue x
    rw [hbuilt.hhdm]
    exact hpool.frames x (hperm.mem_iff.mpr hx)
  · intro x hx
    show mm.mem x = _
    rw [hbuilt.frame x (fun hF => hx (hperm.mem_iff.mp hF)), houtside x hx]
  · intro i hi j hj
    rw [hfirst] at hi ⊢
    split_ifs at hi ⊢ with hi0
    · show mm.mem next.cr3 j = mm.mem mm.kernelPml4 j
      rw [hbuilt.upper j hj, hpml4, Mm.kernelPml4,
        hbuilt.frame _ (fun hF => hkernel (by rw [hpml4]; exact hperm.mem_iff.mp hF))]
    · exact absurd rfl hi
  · show next.cr3 = ((boot.enter next mm).processes 0).cr3
    rw [enter_first]
  · intro i hi
    rw [hfirst] at hi ⊢
    split_ifs at hi ⊢ with hi0
    · exact hne
    · exact absurd rfl hi

/-! ### Loading -/

/-- The segments with these numbers are acceptable, do not wrap around and lie on different pages. -/
structure Loads (kmem : KernelMemory) (file : RamdiskFile) (header : ElfHeader) (is : List ℕ) :
    Prop where
  index : ∀ i ∈ is, i < header.phnum.toNat
  accepted : NoneRefused kmem file header is
  fits : ∀ i ∈ is, Loadable kmem file header i → (programHeader kmem file header i).Fits
  apart : is.Pairwise fun i j => Loadable kmem file header i → Loadable kmem file header j →
    Disjoint (segmentPaths kmem file header i) (segmentPaths kmem file header j)

lemma Loads.tail {i : ℕ} {is : List ℕ} (h : Loads kmem file header (i :: is)) :
    Loads kmem file header is where
  index j hj := h.index j (List.mem_cons_of_mem i hj)
  accepted j hj := h.accepted j (List.mem_cons_of_mem i hj)
  fits j hj := h.fits j (List.mem_cons_of_mem i hj)
  apart := (List.pairwise_cons.mp h.apart).2

/-- The loop over the program headers goes through when the pages are free. -/
lemma Loads.loadSegments {is : List ℕ} (h : Loads kmem file header is) (hpool : Pool s F)
    (hsep : Separate s 4 p F)
    (hnone : ∀ i ∈ is, Loadable kmem file header i →
      ∀ path ∈ segmentPaths kmem file header i, s.lookup 4 p path = none)
    (hlen : (is.map (segmentCost kmem file header)).sum < F.length) :
    (Loop.forWhile (loadSegment kmem p file header) s is).1 = true := by
  induction is generalizing s F with
  | nil => rfl
  | cons i is ih =>
    rw [List.map_cons, List.sum_cons] at hlen
    have hi := h.index i List.mem_cons_self
    obtain ⟨F₁, h₁, -, hused₁⟩ := loadSegment_spec hi hpool hsep (h.fits i List.mem_cons_self)
    have hok : (loadSegment kmem p file header s i).1 = true := by
      by_cases htype : (programHeader kmem file header i).type = 1
      · have hload : Loadable kmem file header i :=
          ⟨hi, htype, h.accepted i List.mem_cons_self htype⟩
        exact loadSegment_ok hpool hsep hload (h.fits i List.mem_cons_self hload)
          (hnone i List.mem_cons_self hload) (by omega)
      · simp [loadSegment, htype]
    rw [Loop.forWhile_cons_true hok]
    refine ih h.tail h₁.pool (h₁.toConserved.separate hsep) (fun j hj hload path hpath => ?_)
      (by omega)
    -- what has been mapped belongs to an earlier segment
    by_contra hsome
    obtain ⟨e, he⟩ := Option.ne_none_iff_exists'.mp hsome
    rcases h₁.only path e he with hold | ⟨hload', hpath'⟩
    · rw [hnone j (List.mem_cons_of_mem i hj) hload path hpath] at hold
      cases hold
    · exact Set.disjoint_left.mp ((List.pairwise_cons.mp h.apart).1 j hj hload' hload) hpath' hpath

lemma Loads.loadElf (h : Loads kmem file header (List.range header.phnum.toNat))
    (hval : validateElf kmem file = some header) (process : Process) (hpool : Pool s F)
    (hsep : Separate s 4 process.cr3 F) (hempty : ∀ path, s.lookup 4 process.cr3 path = none)
    (hlen : elfCost kmem file < F.length) : (loadElfIntoProcess kmem s process file).1 = true := by
  have hnote : Growth (∅ : Set (List (Fin 512))) process.cr3 s (s.noteReads 0 64) F F :=
    noteReads_growth hpool 0 64
  have hcost : elfCost kmem file =
      ((List.range header.phnum.toNat).map (segmentCost kmem file header)).sum := by
    rw [elfCost, hval]
    rfl
  rw [(loadElfIntoProcess_some s process hval).1]
  exact h.loadSegments hnote.pool (hnote.toConserved.separate hsep)
    (fun i _ _ path _ => hempty path) (by omega)

/-- All segments of the file can be loaded, and none has a page of the stack. -/
structure WellFormed (kmem : KernelMemory) (file : RamdiskFile) (header : ElfHeader) : Prop where
  valid : validateElf kmem file = some header
  loads : Loads kmem file header (List.range header.phnum.toNat)
  stack : ∀ i, Loadable kmem file header i →
    Disjoint (segmentPaths kmem file header i) stackPaths

lemma WellFormed.segmentsFit (h : WellFormed kmem file header) : SegmentsFit kmem file := by
  intro header' hval i hi _
  rw [h.valid] at hval
  cases hval
  exact h.loads.fits i (List.mem_range.mpr hi.1) hi

/-- The strings and the arrays that point to them fit on the stack. -/
def ArgumentsFit (argv envp : List CString) : Prop :=
  stringBytes envp + stringBytes argv + 8 * (envp.length + argv.length + 3) + 16 ≤ 65536

instance (argv envp : List CString) : Decidable (ArgumentsFit argv envp) :=
  inferInstanceAs (Decidable (_ ≤ _))

/-- Strings that a handler has copied fit on the stack. -/
lemma argumentsFit_of_copied (hargc : argv.length < maxArgs) (henvc : envp.length < maxEnv)
    (hargv : stringBytes argv ≤ 256 * argv.length) (henvp : stringBytes envp ≤ 256 * envp.length) :
    ArgumentsFit argv envp := by
  rw [maxArgs] at hargc
  rw [maxEnv] at henvc
  rw [ArgumentsFit]
  omega

lemma stringBytes_reverse (strings : List CString) :
    stringBytes strings.reverse = stringBytes strings := by
  rw [stringBytes, List.map_reverse, List.sum_reverse]
  rfl

lemma toNat_align16 (stack : UInt64) : (stack &&& ~~~0xf).toNat = stack.toNat / 16 * 16 := by
  have h := Word.toNat_and_not_mask stack 16 (k := 4) (by norm_num) rfl
  simpa using h

lemma buildUserStack_ok {process : Process} {argv envp : List CString}
    (hfit : ArgumentsFit argv envp) (hpool : Pool s F) (hsep : Separate s 4 process.cr3 F)
    (hnone : ∀ path ∈ stackPaths, s.lookup 4 process.cr3 path = none) (hlen : 72 < F.length) :
    (buildUserStack s process argv envp).1 = true := by
  obtain ⟨hbase, hsize, htop⟩ := toNat_stackRange
  have hsum : stackBottom + 65536 = stackTop := rfl
  have hfit' : stringBytes envp + stringBytes argv + 8 * (envp.length + argv.length + 3) + 16 ≤
      65536 := hfit
  have hroom : (userStackTop - userStackSize).toNat + userStackSize.toNat < 2 ^ 47 := by decide
  have hok := mapUserRange_ok pageWritable hroom hpool hsep (by decide) hnone hlen
  obtain ⟨F₁, h₁, hdone, -⟩ := mapUserRange_spec pageWritable hroom hpool hsep (by decide)
  rw [buildUserStack]
  rcases hr₁ : mapUserRange s process.cr3 (userStackTop - userStackSize) userStackSize pageWritable
    with ⟨_ | _, s₁⟩
  · rw [hr₁] at hok
    cases hok
  rw [hr₁] at h₁ hdone
  have hsep₁ := h₁.toConserved.separate hsep
  have hstack₁ : StackMapped process.cr3 s₁ userStackTop := by
    refine ⟨le_of_eq htop, fun a ha ha' => hdone rfl _ (pathOf_mem_pathsOf ?_ ?_)⟩
    · rw [hbase]
      omega
    · rw [hbase, hsize]
      omega
  -- the strings of the environment
  obtain ⟨h₂, hok₂⟩ := pushStrings_spec (A := stackPaths) userStackTop []
    (show stringBytes envp.reverse < 2 ^ 64 by rw [stringBytes_reverse]; omega) h₁.pool hsep₁
  have hsep₂ := h₂.toConserved.separate hsep₁
  obtain ⟨stack₂, env, heq₂, hstack₂, hto₂, henv⟩ := hok₂ hstack₁ (by
    rw [stringBytes_reverse]
    omega)
  rcases hr₂ : pushStrings process.cr3 s₁ userStackTop [] envp.reverse with ⟨r₂, s₂⟩
  rw [hr₂] at h₂ hsep₂ heq₂
  obtain rfl : r₂ = some (stack₂, env) := heq₂
  -- the arguments
  rw [stringBytes_reverse, htop] at hto₂
  obtain ⟨h₃, hok₃⟩ := pushStrings_spec (A := stackPaths) stack₂ []
    (show stringBytes argv.reverse < 2 ^ 64 by rw [stringBytes_reverse]; omega) h₂.pool hsep₂
  have hsep₃ := h₃.toConserved.separate hsep₂
  obtain ⟨stack₃, args, heq₃, hstack₃, hto₃, hargs⟩ := hok₃ (hstack₂.mono h₂) (by
    rw [stringBytes_reverse]
    omega)
  simp only [hr₂]
  rcases hr₃ : pushStrings process.cr3 s₂ stack₂ [] argv.reverse with ⟨r₃, s₃⟩
  rw [hr₃] at h₃ hsep₃ heq₃
  obtain rfl : r₃ = some (stack₃, args) := heq₃
  -- the two arrays and the number of arguments, below an aligned address
  rw [stringBytes_reverse] at hto₃
  have halign := toNat_align16 stack₃
  have hstack₄ : StackMapped process.cr3 s₃ (stack₃ &&& ~~~0xf) := by
    have hmono := hstack₃.mono h₃
    exact ⟨by have := hmono.1; omega, fun a ha ha' => hmono.2 a ha (by omega)⟩
  obtain ⟨-, hok₄⟩ := pushWords_spec (A := stackPaths) (stack₃ &&& ~~~0xf)
    ([0] ++ env.reverse ++ [0] ++ args.reverse ++ [UInt64.ofNat argv.length]) h₃.pool hsep₃
  obtain ⟨stack₄, heq₄⟩ := hok₄ hstack₄ (by
    simp only [List.length_append, List.length_cons, List.length_nil, List.length_reverse] at henv hargs ⊢
    omega)
  dsimp only
  rcases hr₄ : pushWords process.cr3 s₃ (stack₃ &&& ~~~0xf)
    ([0] ++ env.reverse ++ [0] ++ args.reverse ++ [UInt64.ofNat argv.length]) with ⟨r₄, s₄⟩
  rw [hr₄] at heq₄
  obtain rfl : r₄ = some stack₄ := heq₄
  rfl

/-- A well-formed program is loaded when there are enough frames. -/
theorem loadProgram_ok {rd : Ramdisk} (process : Process) {path : CString}
    {argv envp : List CString} (hfile : ramdiskFind kmem rd path = some file)
    (hexec : file.executable = true) (hdir : file.directory = false)
    (hwf : WellFormed kmem file header) (hfit : ArgumentsFit argv envp) (hpool : Pool s F)
    (hkernel : s.kernelCr3Value &&& ~~~0xfff ∉ F) (hlen : programCost kmem file < F.length) :
    (loadProgram kmem rd s process path argv envp).1 = true := by
  rw [programCost] at hlen
  have hno : ¬(¬file.executable = true ∨ file.directory = true) := by simp [hexec, hdir]
  rw [loadProgram, hfile]
  simp only [if_neg hno]
  rcases createKernelMappedPml4_spec hpool hkernel with ⟨rfl, -⟩ | ⟨q, F₁, s₁, rfl, hnew, hq⟩
  · simp at hlen
  have hq0 : q ≠ 0 := (hpool.frames q List.mem_cons_self).ne_zero
  have hbuilt : Built (imagePaths kmem file) q s s₁ (q :: F₁) F₁ := hq.built
  have hsep₁ := hbuilt.separate hpool.nodup
  rw [List.length_cons] at hlen
  simp only [hnew, if_neg hq0]
  obtain ⟨F₂, h₂, htrue₂, -, hused₂⟩ := loadElfIntoProcess_spec { process with cr3 := q } hq.pool
    hsep₁ hwf.segmentsFit
  have hok₂ := hwf.loads.loadElf hwf.valid { process with cr3 := q } hq.pool hsep₁ hq.lookup (by omega)
  rcases hr₂ : loadElfIntoProcess kmem s₁ { process with cr3 := q } file with ⟨_ | _, process₂, s₂⟩
  · rw [hr₂] at hok₂
    cases hok₂
  rw [hr₂] at h₂ htrue₂
  obtain ⟨header', hval, rfl, -⟩ := (htrue₂ rfl).header
  have hok₃ : (buildUserStack s₂ { process with cr3 := q, entry := header'.entry, brk := 0x800000 }
      argv envp).1 = true := by
    refine buildUserStack_ok hfit h₂.pool (h₂.toConserved.separate hsep₁) (fun path hpath => ?_)
      (by omega)
    by_contra hsome
    obtain ⟨e, he⟩ := Option.ne_none_iff_exists'.mp hsome
    rcases h₂.only path e he with hold | ⟨header'', hval'', i, hload, hpath'⟩
    · rw [hq.lookup] at hold
      cases hold
    · rw [hwf.valid] at hval''
      cases hval''
      exact Set.disjoint_left.mp (hwf.stack i hload) hpath' hpath
  dsimp only
  rcases hr₃ : buildUserStack s₂ { process with cr3 := q, entry := header'.entry, brk := 0x800000 }
    argv envp with ⟨_ | _, process₃, s₃⟩
  · rw [hr₃] at hok₃
    cases hok₃
  · rfl

/-- The first process starts when its program is well-formed and there are enough frames. -/
theorem starts_of_enough (hboot : boot.memory.Valid)
    (havailable : boot.ramdisk.ramdiskAvailable = true)
    (hfile : ramdiskFind boot.kmem boot.ramdisk (cstr "/bin/xsh") = some file)
    (hexec : file.executable = true) (hdir : file.directory = false)
    (hwf : WellFormed boot.kmem file header)
    (hlen : programCost boot.kmem file < boot.memory.handedFrames.length) : Starts boot := by
  obtain ⟨F, hpool, hperm, hkernel, -⟩ := mmInit_spec hboot
  have hnot : (mmInit boot.memory).kernelCr3Value &&& ~~~0xfff ∉ F := by
    rw [hkernel, mask_idem, hperm.mem_iff]
    exact hboot.kernel_notMem .root
  have hfit : ArgumentsFit initArgv initEnvp := by decide
  have hok := loadProgram_ok (.fresh 1) hfile hexec hdir hwf hfit hpool hnot
    (by rw [hperm.length_eq]; exact hlen)
  rw [Starts, processStartInit]
  simp only [kernelMain, allocateProcess, unusedSlot_zero, Kernel.setProcess, Function.update_self]
  rw [if_neg (by simpa [BootInfo.ramdisk] using havailable)]
  rcases hr : loadProgram boot.kmem boot.ramdisk (mmInit boot.memory) (.fresh 1)
    (cstr "/bin/xsh") initArgv initEnvp with ⟨_ | _, next, mm⟩
  · rw [hr] at hok
    cases hok
  · simp only [BootInfo.ramdisk] at hr
    rw [hr]

/-! ### vfork -/

variable {k : Kernel} {l : List Slot}

/-- The number of frames of the current address space. -/
def Kernel.frames (k : Kernel) : ℕ := (k.mm.nodes 4 k.current.cr3).card

lemma card_leaves_le (s : Mm) (p : UInt64) : (s.leaves 4 p).card ≤ (s.nodes 4 p).card := by
  rw [Mm.nodes, Radix.nodes_eq_add, Multiset.card_add]
  exact Nat.le_add_left _ _

/-- The current address space and the free list are parts of what was handed out. -/
lemma Owned.frames_le (h : Owned boot.memory k F) (hinv : TableInv k l) :
    k.frames + F.length ≤ boot.memory.handedFrames.length := by
  have hcard := congrArg Multiset.card (h.split k.currentProcess)
  have hne : (k.processes k.currentProcess).cr3 ≠ 0 := h.current_ne hinv
  rw [liveNodes_of_ne hne, Multiset.card_add, Multiset.card_add, Multiset.coe_card,
    Multiset.coe_card] at hcard
  have hframes : k.frames = (k.mm.nodes 4 (k.processes k.currentProcess).cr3).card := rfl
  omega

/-- The copy that `vfork` makes, when there are enough frames for it. -/
lemma vfork_copies (h : Owned boot.memory k F) (hinv : TableInv k l) (hlen : 4 * k.frames + 1 < F.length) :
    ∃ cr3 mm mm', createKernelMappedPml4 k.mm = (cr3, mm) ∧ cr3 ≠ 0 ∧
      vmmCloneUserSpace mm k.current.cr3 cr3 userTop = (true, mm') := by
  have hle : (k.mm.leaves 4 k.current.cr3).card ≤ k.frames := card_leaves_le _ _
  rcases createKernelMappedPml4_spec h.pool h.kernel_free with ⟨rfl, -⟩ | ⟨q, F₁, s₁, rfl, hnew, -⟩
  · simp at hlen
  have hq : q ≠ 0 := (h.pool.frames q List.mem_cons_self).ne_zero
  rcases hclone : vmmCloneUserSpace s₁ k.current.cr3 q userTop with ⟨_ | _, mm'⟩
  · obtain ⟨F', hcopied⟩ := vfork_copied h hinv hnew hq hclone
    have hstuck := hcopied.stuck rfl
    omega
  · exact ⟨q, s₁, mm', hnew, hq, hclone⟩

/-- The root of the copy and one of its pages take a frame each. -/
lemma vfork_starved {path : List (Fin 512)} {cr3 : UInt64} {mm mm' : Mm} {ok : Bool} (h : Owned boot.memory k F)
    (hinv : TableInv k l) (hlen : F.length ≤ 1) (hmapped : k.mm.lookup 4 k.current.cr3 path ≠ none)
    (hnew : createKernelMappedPml4 k.mm = (cr3, mm)) (hcr3 : cr3 ≠ 0)
    (hclone : vmmCloneUserSpace mm k.current.cr3 cr3 userTop = (ok, mm')) : ok = false := by
  obtain ⟨F', hcopied⟩ := vfork_copied h hinv hnew hcr3 hclone
  cases ok with
  | false => rfl
  | true =>
    obtain ⟨e, he⟩ := Option.ne_none_iff_exists'.mp hmapped
    have hpage := hcopied.pages rfl path
    cases hcopy : mm'.lookup 4 cr3 path with
    | none =>
      rw [he, hcopy] at hpage
      cases hpage
    | some e' =>
      obtain ⟨-, b, -, hleaf⟩ := Radix.lookup_leaf hcopy
      have hleaves : 0 < (mm'.leaves 4 cr3).card := Multiset.card_pos_iff_exists_mem.mpr ⟨b, hleaf⟩
      have htables : 0 < (mm'.tables 4 cr3).card :=
        Multiset.card_pos_iff_exists_mem.mpr ⟨cr3, Radix.self_mem_tables⟩
      have hsum : (mm'.nodes 4 cr3).card = (mm'.tables 4 cr3).card + (mm'.leaves 4 cr3).card := by
        rw [Mm.nodes, Radix.nodes_eq_add, Multiset.card_add]
      have hnodes := congrArg Multiset.card (hcopied.built rfl).nodes
      rw [Multiset.card_add, Multiset.coe_card, Multiset.coe_card] at hnodes
      omega

/-- `vfork` succeeds when there is a slot and there are enough frames for a copy. -/
theorem vfork_ok {slot : Slot} (frame : SyscallFrame) (h : Owned boot.memory k F) (hinv : TableInv k l)
    (hslot : unusedSlot k.processes = some slot) (hlen : 4 * k.frames + 1 < F.length) :
    ∃ cr3 mm F', syscallVfork frame k = (.ok (0, frame), k.vforked frame slot cr3 mm) ∧
      Owned boot.memory (k.vforked frame slot cr3 mm) F' ∧ F.length ≤ F'.length + 4 * k.frames + 1 ∧
      (k.vforked frame slot cr3 mm).frames ≤ 4 * k.frames + 1 := by
  have hle : (k.mm.leaves 4 k.current.cr3).card ≤ k.frames := card_leaves_le _ _
  have hunused := unusedSlot_some hslot
  have hne : slot ≠ k.currentProcess := (hinv.ne_unused List.mem_cons_self hunused).symm
  obtain ⟨cr3, mm, mm', hnew, hcr3, hclone⟩ := vfork_copies h hinv hlen
  obtain ⟨F', howned, hcopied, -⟩ := h.vforked_step frame hinv hunused hnew hcr3 hclone
  have hused := hcopied.used rfl
  have hchild : (k.vforked frame slot cr3 mm').frames = (mm'.nodes 4 cr3).card := by
    show (mm'.nodes 4 ((k.vforked frame slot cr3 mm').processes slot).cr3).card = _
    rw [vforked_slot hne]
    rfl
  have hnodes := congrArg Multiset.card (hcopied.built rfl).nodes
  rw [Multiset.card_add, Multiset.coe_card, Multiset.coe_card, ← hchild] at hnodes
  exact ⟨cr3, mm', F', syscallVfork_done frame hslot hne.symm hnew hcr3 hclone, howned, by omega, by omega⟩

/-- The unused slot is found by looking at the states only. -/
lemma unusedSlot_eq {processes : Slot → Process} {state : Slot → ProcessState}
    (h : ∀ i, (processes i).state = state i) :
    unusedSlot processes = (List.finRange 16).find? fun i => state i = .unused := by
  rw [unusedSlot]
  congr 1
  funext i
  rw [h]

lemma started_state (hstart : Starts boot) (i : Slot) :
    ((started boot).processes i).state = if i = 0 then .running else .unused := by
  have hinv := tableInv_started hstart
  obtain ⟨next, mm, -, hstarted⟩ := started_eq hstart
  rw [hstarted] at hinv ⊢
  split_ifs with hi
  · exact (hinv.running i).mpr hi
  · rw [enter_other hi]
    rfl

lemma vforked_state {frame : SyscallFrame} {slot : Slot} {cr3 : UInt64} {mm : Mm}
    (hne : slot ≠ k.currentProcess) (i : Slot) :
    ((k.vforked frame slot cr3 mm).processes i).state =
      if i = slot then .running
      else if i = k.currentProcess then .blocked else (k.processes i).state := by
  split_ifs with hslot hcur
  · rw [hslot, vforked_slot hne]
    rfl
  · rw [hcur, vforked_parent]
  · rw [vforked_other hslot hcur]

/-- A step that is a successful call of `vfork`. -/
lemma step_vfork {frame : SyscallFrame} {k' : Kernel} (hn : syscallNumber frame.rax = .vfork)
    (h : syscallVfork frame k = (.ok (0, frame), k')) :
    processSyscallDispatch frame k = (.ok (0, frame), k') ∧
      step k (.syscall frame) = some k' := by
  have hdispatch : processSyscallDispatch frame k = (.ok (0, frame), k') := by
    rw [processSyscallDispatch, hn]
    exact h
  refine ⟨hdispatch, ?_⟩
  rw [step, hdispatch]

/-- A step that is a call of `exit` by a process with a parent. -/
lemma step_exit {frame : SyscallFrame} {parent : Slot} (hn : syscallNumber frame.rax = .exit)
    (h : k.current.vforkParent = some parent) (hne : parent ≠ k.currentProcess) :
    step k (.syscall frame) = some (k.exited frame.rdi parent) := by
  have hexit : processSyscallDispatch frame k = syscallExit frame frame.rdi k := by
    rw [processSyscallDispatch, hn]
  rw [step, hexit, syscallExit_eq h hne]

/-! ### A small machine -/

/-- The bytes of a number, least significant first. -/
def littleEndian (count n : ℕ) : List UInt8 :=
  (List.range count).map fun i => UInt8.ofNat (n / 256 ^ i)

/-- An ELF file of 120 bytes with one program header. -/
def elfBytes (entry offset vaddr filesz memsz : ℕ) : List UInt8 :=
  [0x7f, 0x45, 0x4c, 0x46, 2, 1] ++ List.replicate 10 0 ++ littleEndian 2 2 ++ littleEndian 2 62 ++
    littleEndian 4 1 ++ littleEndian 8 entry ++ littleEndian 8 64 ++ List.replicate 14 0 ++
    littleEndian 2 56 ++ littleEndian 2 1 ++ List.replicate 6 0 ++
    littleEndian 4 1 ++ littleEndian 4 7 ++ littleEndian 8 offset ++ littleEndian 8 vaddr ++
    littleEndian 8 vaddr ++ littleEndian 8 filesz ++ littleEndian 8 memsz ++ littleEndian 8 4096

/-- An ELF header, for `count` program headers right behind it. -/
def elfHeaderBytes (count : ℕ) : List UInt8 :=
  [0x7f, 0x45, 0x4c, 0x46, 2, 1] ++ List.replicate 10 0 ++ littleEndian 2 2 ++ littleEndian 2 62 ++
    littleEndian 4 1 ++ littleEndian 8 0x10000 ++ littleEndian 8 64 ++ List.replicate 14 0 ++
    littleEndian 2 56 ++ littleEndian 2 count ++ List.replicate 6 0

/-- The program header of a segment. -/
def segmentBytes (offset vaddr filesz memsz : ℕ) : List UInt8 :=
  littleEndian 4 1 ++ littleEndian 4 7 ++ littleEndian 8 offset ++ littleEndian 8 vaddr ++
    littleEndian 8 vaddr ++ littleEndian 8 filesz ++ littleEndian 8 memsz ++ littleEndian 8 4096

/-- A text in a field of fixed width. -/
def textField (width : ℕ) (text : String) : List UInt8 :=
  cstr text ++ List.replicate (width - text.length) 0

/-- A tar archive with the program `bin/xsh` of 120 bytes. -/
def archiveBytes (contents : List UInt8) : List UInt8 :=
  textField 100 "bin/xsh" ++ textField 24 "0000755" ++ textField 12 "00000000170" ++
    List.replicate 20 0 ++ textField 1 "0" ++ List.replicate 355 0 ++ contents

/-- 16 MiB of memory, and a program with one page at 0x10000. -/
def smallBoot (entry : ℕ) : BootInfo :=
  { memory :=
      { mem := fun _ => zeroPage
        cr3 := 0x9000
        hhdm := some 0xffff800000000000
        memmap := some [⟨0x100000, 0x1000000, true⟩] }
    kmem := fun a => (archiveBytes (elfBytes entry 0 0x10000 120 0x1000)).getD (a.toNat - 0x1000) 0
    modules := some [some ⟨0x1000, 0x400, some (cstr "ramdisk"), none⟩]
    keyboard := fun _ => 0
    ttyAvailable := false }

def smallFile : RamdiskFile :=
  { path := cstr "/bin/xsh", data := 0x1200, size := 120, directory := false, executable := true }

def smallHeader (entry : UInt64) : ElfHeader :=
  { ident := [0x7f, 0x45, 0x4c, 0x46, 2, 1], machine := 62, entry := entry, phoff := 64,
    phentsize := 56, phnum := 1 }

/-- What is read from the archive. -/
structure SmallProgram (boot : BootInfo) (entry : UInt64) : Prop where
  available : boot.ramdisk.ramdiskAvailable = true
  file : ramdiskFind boot.kmem boot.ramdisk (cstr "/bin/xsh") = some smallFile
  header : validateElf boot.kmem smallFile = some (smallHeader entry)
  segment : programHeader boot.kmem smallFile (smallHeader entry) 0 = ⟨1, 0, 0x10000, 120, 0x1000⟩

lemma smallProgram : SmallProgram (smallBoot 0x10000) 0x10000 where
  available := by decide +kernel
  file := by decide +kernel
  header := by decide +kernel
  segment := by decide +kernel

lemma smallBoot_valid (entry : ℕ) : (smallBoot entry).memory.Valid := by
  have hroot : ∀ n t, KernelTable (fun _ => zeroPage) (0x9000 &&& ~~~0xfff) n t →
      t = 0x9000 &&& ~~~0xfff := by
    intro n t ht
    cases ht with
    | root => rfl
    | child _ _ hpresent => simp [zeroPage] at hpresent
  refine ⟨?_, ?_, ?_, ?_⟩
  · rintro entries ⟨⟩
    simp
  · rintro entries ⟨⟩ m hm -
    rw [List.mem_singleton.mp hm]
    decide
  · rintro offset ⟨⟩ entries ⟨⟩ m hm -
    rw [List.mem_singleton.mp hm]
    decide
  · rintro entries ⟨⟩ m hm - n t ht ⟨hge, -⟩
    rw [List.mem_singleton.mp hm, hroot n t ht] at hge
    revert hge
    decide

lemma smallBoot_frames (entry : ℕ) : (smallBoot entry).memory.handedFrames.length = 4096 := by
  have hne : ∀ x ∈ pagesBetween 0x100000 0x1100000, decide (x ≠ 0) = true := by
    intro x hx
    rw [mem_pagesBetween (by decide) (by decide)] at hx
    have hpos : (0x100000 : UInt64).toNat = 0x100000 := rfl
    rw [decide_eq_true_eq, ← Word.pos_iff_ne_zero]
    omega
  have hframes : (smallBoot entry).memory.handedFrames = pagesBetween 0x100000 0x1100000 := by
    have hup : alignUp 0x100000 pageSize = 0x100000 := by decide
    have hdown : alignDown (0x100000 + 0x1000000) pageSize = 0x1100000 := by decide
    simp only [BootMemory.handedFrames, smallBoot, List.flatMap_singleton, MemmapEntry.frames,
      if_true, hup, hdown]
    exact List.filter_eq_self.mpr hne
  rw [hframes, pagesBetween, List.length_map, List.length_range]
  decide

/-- A new address space on the small machine. -/
lemma smallBoot_space (entry : ℕ) : ∃ q F s₁,
    createKernelMappedPml4 (mmInit (smallBoot entry).memory) = (q, s₁) ∧ q ≠ 0 ∧
      Pool (mmInit (smallBoot entry).memory) (q :: F) ∧
      (mmInit (smallBoot entry).memory).kernelCr3Value &&& ~~~0xfff ∉ q :: F ∧
      NewSpace q (mmInit (smallBoot entry).memory) s₁ F ∧
      (∀ x ∈ q :: F, 0x100000 ≤ x.toNat) ∧
      ∀ x, x.toNat < 0x100000 → (mmInit (smallBoot entry).memory).mem x = zeroPage := by
  have hvalid := smallBoot_valid entry
  obtain ⟨F, hpool, hperm, hkernel, hmem⟩ := mmInit_spec hvalid
  have hge : ∀ x ∈ (smallBoot entry).memory.handedFrames, 0x100000 ≤ x.toNat := by
    intro x hx
    obtain ⟨-, -, -, entries, hentries, m, hm, -, -, hge, -⟩ := hvalid.mem_handedFrames hx
    cases hentries
    rw [List.mem_singleton.mp hm] at hge
    exact hge
  have hnot : (mmInit (smallBoot entry).memory).kernelCr3Value &&& ~~~0xfff ∉ F := by
    rw [hkernel, mask_idem, hperm.mem_iff]
    exact hvalid.kernel_notMem .root
  have hlow : ∀ x, x.toNat < 0x100000 → (mmInit (smallBoot entry).memory).mem x = zeroPage := by
    intro x hx
    exact hmem x fun h => absurd (hge x h) (not_le.mpr hx)
  rcases createKernelMappedPml4_spec hpool hnot with ⟨rfl, -⟩ | ⟨q, F₁, s₁, rfl, hnew, hq⟩
  · have hlen := hperm.length_eq
    rw [smallBoot_frames] at hlen
    cases hlen
  · exact ⟨q, F₁, s₁, hnew, (hpool.frames q List.mem_cons_self).ne_zero, hpool, hnot, hq,
      fun x hx => hge x (hperm.mem_iff.mp hx), hlow⟩

/-- A new address space on the small machine, with most of the frames still free. -/
lemma smallBoot_new (entry : ℕ) : ∃ (process : Process) (s : Mm) (F : List UInt64),
    createKernelMappedPml4 (mmInit (smallBoot entry).memory) = (process.cr3, s) ∧ Pool s F ∧
    Separate s 4 process.cr3 F ∧ (∀ path, s.lookup 4 process.cr3 path = none) ∧ F.length = 4095 := by
  obtain ⟨q, F, s, hnew, -, hpool, -, hspace, -⟩ := smallBoot_space entry
  have hbuilt : Built ∅ q (mmInit (smallBoot entry).memory) s (q :: F) F := hspace.built
  obtain ⟨G, hpool', hperm, -⟩ := mmInit_spec (smallBoot_valid entry)
  have hlen := hperm.length_eq
  rw [smallBoot_frames, ← hpool.unique hpool', List.length_cons] at hlen
  exact ⟨{ Process.fresh 1 with cr3 := q }, s, F, hnew, hspace.pool, hbuilt.separate hpool.nodup, hspace.lookup,
    by omega⟩

/-- Pages of different intervals. -/
lemma pathsOf_disjoint {lo hi lo' hi' : ℕ} (h : hi ≤ lo' / 4096 * 4096) (hlt : hi' ≤ 2 ^ 47) :
    Disjoint (pathsOf lo hi) (pathsOf lo' hi') := by
  rw [Set.disjoint_left]
  rintro path ⟨v, hv, -, hvlt, rfl⟩ ⟨w, hw, hwge, hwlt, hpath⟩
  rw [pathOf_eq_iff] at hpath
  omega

section SmallProgram

variable {entry : UInt64}

lemma SmallProgram.index {i : ℕ} (hi : i < (smallHeader entry).phnum.toNat) : i = 0 := by
  have hone : (smallHeader entry).phnum.toNat = 1 := rfl
  omega

lemma SmallProgram.loadable (h : SmallProgram boot entry) :
    Loadable boot.kmem smallFile (smallHeader entry) 0 := by
  refine ⟨Nat.zero_lt_one, ?_, ?_⟩
  · rw [h.segment]
  · rw [h.segment]
    decide

lemma SmallProgram.wellFormed (h : SmallProgram boot entry) :
    WellFormed boot.kmem smallFile (smallHeader entry) where
  valid := h.header
  loads :=
    { index := fun i hi => List.mem_range.mp hi
      accepted := fun i hi _ => by
        rw [SmallProgram.index (List.mem_range.mp hi), h.segment]
        decide
      fits := fun i hi _ => by
        rw [SmallProgram.index (List.mem_range.mp hi), h.segment, ProgramHeader.Fits]
        decide
      apart := List.pairwise_singleton _ 0 }
  stack i hi := by
    rw [SmallProgram.index hi.1, segmentPaths, h.segment]
    exact pathsOf_disjoint (by decide) (by decide)

lemma SmallProgram.loadCost (h : SmallProgram boot entry) : elfCost boot.kmem smallFile = 12 := by
  rw [elfCost, h.header]
  show ([0].map (segmentCost boot.kmem smallFile (smallHeader entry))).sum = 12
  rw [List.map_singleton, List.sum_singleton, segmentCost, h.segment]
  rfl

lemma SmallProgram.cost (h : SmallProgram boot entry) : programCost boot.kmem smallFile = 85 := by
  rw [programCost, h.loadCost]

lemma SmallProgram.initFits (h : SmallProgram boot entry) : InitFits boot := by
  intro file hfile
  rw [h.file] at hfile
  cases hfile
  exact h.wellFormed.segmentsFit

theorem SmallProgram.starts (h : SmallProgram boot entry) (hboot : boot.memory.Valid)
    (hframes : 85 < boot.memory.handedFrames.length) : Starts boot := by
  refine starts_of_enough hboot h.available h.file rfl rfl h.wellFormed ?_
  rw [h.cost]
  exact hframes

end SmallProgram

theorem smallBoot_starts : Starts (smallBoot 0x10000) :=
  smallProgram.starts (smallBoot_valid _) (by rw [smallBoot_frames]; norm_num)

/-- A system call whose other registers are 0. -/
def call (number : UInt64) : SyscallFrame := { SyscallFrame.zero with rax := number }

lemma execFits_call {number : UInt64} (h : syscallNumber number ≠ .execve) (k : Kernel) :
    ExecFits k (.syscall (call number)) :=
  fun hn => absurd hn h

/-- What the first process of the small machine starts with. -/
theorem SmallProgram.space {entry : UInt64} (h : SmallProgram boot entry) (hboot : boot.memory.Valid)
    (hstart : Starts boot) : (started boot).current.brk = 0x800000 ∧
      (started boot).current.entry = entry ∧
      ∀ a : UInt64, a.toNat < 2 ^ 47 →
        ((started boot).mm.lookup 4 (started boot).current.cr3 (pathOf a) ≠ none ↔
          a.toNat / 4096 = 16 ∨ stackBottom ≤ a.toNat ∧ a.toNat < stackTop) := by
  obtain ⟨next, mm, file, F, hstarted, hfile, -, -, hloaded⟩ := started_loaded hboot h.initFits hstart
  have hfits := h.initFits file hfile
  rw [h.file, Option.some.injEq] at hfile
  subst hfile
  obtain ⟨header, stack, hheader, hnext, -⟩ := hloaded.process
  rw [h.header, Option.some.injEq] at hheader
  subst hheader
  have hcurrent : (boot.enter next mm).current = next := enter_first
  have hmm : (boot.enter next mm).mm = mm := rfl
  rw [hstarted, hcurrent, hmm]
  refine ⟨by rw [hnext], by rw [hnext]; rfl, fun a ha => ?_⟩
  rw [hloaded.mapped_iff hfits h.header ha]
  refine or_congr_left ⟨?_, fun hpage => ⟨0, h.loadable, ?_⟩⟩
  · rintro ⟨i, hload, hreaches⟩
    rw [SmallProgram.index hload.1, h.segment] at hreaches
    obtain ⟨hge, hlt⟩ : 0x10000 / 4096 ≤ a.toNat / 4096 ∧ a.toNat / 4096 * 4096 < 0x10000 + 0x1000 := hreaches
    omega
  · rw [h.segment]
    change 0x10000 / 4096 ≤ a.toNat / 4096 ∧ a.toNat / 4096 * 4096 < 0x10000 + 0x1000
    omega

lemma started_current (hstart : Starts boot) : (started boot).currentProcess = 0 := by
  obtain ⟨next, mm, -, hstarted⟩ := started_eq hstart
  rw [hstarted]
  rfl

/-- The states after the first `vfork`. -/
lemma small_states {cr3 : UInt64} {mm : Mm} (i : Slot) :
    (((started (smallBoot 0x10000)).vforked (call 58) 1 cr3 mm).processes i).state =
      if i = 1 then .running else if i = 0 then .blocked else .unused := by
  have hcur := started_current smallBoot_starts
  rw [vforked_state (by rw [hcur]; decide), hcur, started_state smallBoot_starts]
  split_ifs <;> rfl

/-- The first process of the small machine and its child, which both got the frames they need. -/
theorem small_vfork : ∃ cr3 mm F, processSyscallDispatch (call 58) (started (smallBoot 0x10000)) =
      (.ok (0, call 58), (started (smallBoot 0x10000)).vforked (call 58) 1 cr3 mm) ∧
    step (started (smallBoot 0x10000)) (.syscall (call 58)) =
      some ((started (smallBoot 0x10000)).vforked (call 58) 1 cr3 mm) ∧
    Owned (smallBoot 0x10000).memory
      ((started (smallBoot 0x10000)).vforked (call 58) 1 cr3 mm) F ∧ 3670 ≤ F.length ∧
    ((started (smallBoot 0x10000)).vforked (call 58) 1 cr3 mm).frames ≤ 341 := by
  have hinv := tableInv_started smallBoot_starts
  obtain ⟨F, howned, hlen⟩ := owned_started (smallBoot_valid 0x10000) smallProgram.initFits
    smallBoot_starts
  have hlen := hlen _ smallProgram.file
  have hframes := howned.frames_le hinv
  rw [smallProgram.cost, smallBoot_frames] at hlen
  rw [smallBoot_frames] at hframes
  have hslot : unusedSlot (started (smallBoot 0x10000)).processes = some 1 := by
    rw [unusedSlot_eq (started_state smallBoot_starts)]
    decide
  obtain ⟨cr3, mm, F', hvfork, howned', hlen', hframes'⟩ := vfork_ok (call 58) howned hinv hslot
    (by omega)
  obtain ⟨hdispatch, hstep⟩ := step_vfork (by decide) hvfork
  exact ⟨cr3, mm, F', hdispatch, hstep, howned', by omega, by omega⟩

end Xbks
