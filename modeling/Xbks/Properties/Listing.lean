import Xbks.Process.Dirent
import Xbks.Properties.Files

/-!
# Listing a directory

Calls of `getdents64` on one descriptor, whatever happens between them, deliver the children of the
directory one after the other: none is left out and none comes twice, wherever the buffers end.
-/

namespace Xbks

variable {boot : BootInfo} {ok : Kernel → Event → Prop} {es : List Event} {k k' : Kernel} {p : Slot}
  {i : Fin 16} {address count r : UInt64} {c : Call} {ds : List Dirent}

/-! ### One call -/

/-- What a call does: it stores complete records at the start of its buffer, which take up as many bytes
as it returns, and moves the descriptor behind them. Whatever the memory has held before, walking over
the buffer gives the records, and nothing outside the buffer has changed. A child that is left for the
next call would not have fitted. -/
structure Lists (i : Fin 16) (c : Call) (ds : List Dirent) : Prop where
  valid : userRangeIsValid c.address c.count = true
  stores : ∃ k, storeDirents c.address 0 ds c.before = (.ok (), k) ∧
    c.after = k.setFd i ((c.before.current.fds i).advance ds.length)
  total : c.result.toNat = direntsSize ds
  fits : c.result.toNat ≤ c.count.toNat
  complete : ∀ d ∈ ds, d.WellFormed
  walk : ∀ m, walkDirents (placeDirents m c.address.toNat ds) c.result.toNat c.address.toNat
    c.result.toNat = some ds
  outside : ∀ m x, x < c.address.toNat ∨ c.address.toNat + c.count.toNat ≤ x →
    placeDirents m c.address.toNat ds x = m x
  full : ∀ child, ramdiskReadDir c.before.kmem c.before.ramdisk (c.before.current.fds i).file.path
      ((c.before.current.fds i).offset + UInt64.ofNat ds.length) = some child →
    c.count.toNat < c.result.toNat + (direntReclen (lastComponent child.path)).toNat

/-- The records of a call are what the program finds in its memory after it. -/
structure Sees (c : Call) (ds : List Dirent) : Prop where
  walk : walkDirents c.after.view c.result.toNat c.address.toNat c.result.toNat = some ds
  outside : ∀ x, x < c.address.toNat ∨ c.address.toNat + c.count.toNat ≤ x →
    c.after.view x = c.before.view x

lemma Lists.sees (h : Lists i c ds) (hintact : Intact c.before) : Sees c ds := by
  obtain ⟨k, hstores, hafter⟩ := h.stores
  have hfits : 0 + direntsSize ds ≤ c.count.toNat := by
    rw [Nat.zero_add, ← h.total]
    exact h.fits
  have hplaced : k.view = placeDirents c.before.view c.address.toNat ds :=
    storeDirents_view hintact h.valid (fun d hd => (h.complete d hd).inside) hfits hstores
  have hview : c.after.view = placeDirents c.before.view c.address.toNat ds := by
    rw [hafter, ← hplaced]
    rfl
  constructor
  · rw [hview]
    exact h.walk _
  · intro x hx
    rw [hview]
    exact h.outside _ x hx

lemma Lists.descriptor (h : Lists i c ds) : (c.after.processes c.before.currentProcess).fds i =
    (c.before.current.fds i).advance ds.length := by
  obtain ⟨k, hstores, hafter⟩ := h.stores
  have hsame := same_storeDirents c.address ds 0 c.before
  rw [hstores] at hsame
  have hcurrent : k.currentProcess = c.before.currentProcess := hsame.currentProcess
  rw [hafter, ← hcurrent]
  exact setFd_fds k i _

lemma syscallGetdents64_eq (htype : (k.current.fds i).type = .dir)
    (hvalid : userRangeIsValid address count = true) :
    syscallGetdents64 (UInt64.ofNat i) address count k =
      getdentsFrom i address count (count.toNat + 1) 0 k := by
  rw [syscallGetdents64, Prog.get_bind_apply, fdIndex_ofNat]
  simp only [htype, hvalid, ne_eq, not_true_eq_false, if_false]

/-- The records of the next call. -/
def nextDirents (k : Kernel) (fd : ProcessFd) (count : UInt64) : List Dirent :=
  direntsFrom k.kmem k.ramdisk fd.file.path count (count.toNat + 1) fd.offset 0

lemma nextDirents_spec (k : Kernel) (fd : ProcessFd) (hcount : count.toNat ≤ 2 ^ 47) :
    Listed k.kmem k.ramdisk fd.file.path fd.offset (nextDirents k fd count) ∧
    direntsSize (nextDirents k fd count) ≤ count.toNat := by
  rw [← Nat.zero_add (direntsSize _)]
  exact direntsFrom_spec hcount (Nat.zero_le _)

lemma nextDirents_stops (k : Kernel) (fd : ProcessFd) (hcount : count.toNat ≤ 2 ^ 47) :
    ∀ child, ramdiskReadDir k.kmem k.ramdisk fd.file.path
        (fd.offset + UInt64.ofNat (nextDirents k fd count).length) = some child →
      count.toNat < direntsSize (nextDirents k fd count) +
        (direntReclen (lastComponent child.path)).toNat := by
  rw [← Nat.zero_add (direntsSize _)]
  exact direntsFrom_stops hcount (Nat.zero_le _) (Nat.lt_succ_self _)

lemma syscallGetdents64_ends (htype : (k.current.fds i).type = .dir)
    (hvalid : userRangeIsValid address count = true) :
    GetdentsEnds k i 0 (nextDirents k (k.current.fds i) count)
      (storeDirents address 0 (nextDirents k (k.current.fds i) count) k)
      (syscallGetdents64 (UInt64.ofNat i) address count k) := by
  rw [syscallGetdents64_eq htype hvalid]
  exact getdentsFrom_ends (toNat_le_of_valid hvalid) (Nat.zero_le _) rfl

lemma syscallGetdents64_lists (htype : (k.current.fds i).type = .dir)
    (hpath : 0 ∉ (k.current.fds i).file.path) (hvalid : userRangeIsValid address count = true)
    (h : syscallGetdents64 (UInt64.ofNat i) address count k = (.ok r, k')) :
    Lists i ⟨k, address, count, r, k'⟩ (nextDirents k (k.current.fds i) count) := by
  have hcount := toNat_le_of_valid hvalid
  obtain ⟨hlisted, hfits⟩ := nextDirents_spec k (k.current.fds i) hcount
  have hcomplete := hlisted.wellFormed hpath
  have hends := syscallGetdents64_ends htype hvalid
  have hstops := nextDirents_stops k (k.current.fds i) hcount
  rw [h] at hends
  clear hlisted
  generalize nextDirents k (k.current.fds i) count = ds at hends hcomplete hfits hstops ⊢
  generalize hstores : storeDirents address 0 ds k = stored at hends
  generalize hres : (Except.ok r, k') = result at hends
  cases hends with
  | stops => cases hres
  | done k₁ =>
    obtain ⟨hr, rfl⟩ := Prod.mk.inj hres
    have hresult : r.toNat = direntsSize ds := by
      rw [Except.ok.inj hr, UInt64.zero_add]
      exact Word.toNat_ofNat_of_lt (by omega)
    rw [← hresult] at hfits hstops
    refine ⟨hvalid, ⟨k₁, hstores, rfl⟩, hresult, hfits, hcomplete, fun m => ?_, fun m x hx => ?_, hstops⟩
    · dsimp only
      rw [hresult]
      exact walkDirents_place hcomplete (le_refl _)
    · rcases hx with hlt | hge
      · exact placeDirents_below hlt
      · exact placeDirents_above hcomplete (by dsimp only at hge ⊢; omega)

lemma syscallGetdents64_returns (hintact : Intact k) (htype : (k.current.fds i).type = .dir)
    (hvalid : userRangeIsValid address count = true) (hhas : k.view.Has address.toNat count.toNat) :
    ∃ r k', syscallGetdents64 (UInt64.ofNat i) address count k = (.ok r, k') := by
  rw [syscallGetdents64_eq htype hvalid]
  have hzero : (0 : UInt64).toNat ≤ count.toNat := Nat.zero_le _
  obtain ⟨r, k', hreturns, -⟩ := returns_getdentsFrom hvalid hzero k ⟨hintact, hhas⟩
  exact ⟨r, k', hreturns⟩

/-! ### Sequences of calls -/

/-- The records of all calls together are the children from the offset on. -/
lemma listing_concatenates {l : List Slot} {fd : ProcessFd} {cs : List Call}
    (h : Calls ok p i 217 k cs k') (hinv : TableInv k l) (hfd : (k.processes p).fds i = fd)
    (htype : fd.type = .dir) (hpath : 0 ∉ fd.file.path) :
    ∃ lists : List (List Dirent), List.Forall₂ (Lists i) cs lists ∧
      Listed k.kmem k.ramdisk fd.file.path fd.offset lists.flatten ∧
      (k'.processes p).fds i = fd.advance lists.flatten.length := by
  induction h generalizing fd l with
  | done k =>
    refine ⟨[], .nil, fun j hj => absurd hj (Nat.not_lt_zero j), ?_⟩
    rw [hfd]
    exact (advance_zero fd).symm
  | @other k k₁ k' e cs hok hstep hsame h ih =>
    obtain ⟨l', hinv'⟩ := hinv.step hstep
    obtain ⟨hkmem, hramdisk⟩ := archive_step hinv hstep
    rw [← hkmem, ← hramdisk]
    exact ih hinv' (hsame.trans hfd) htype hpath
  | @call k k₁ k' frame r cs hnumber hindex hp hvalid hcall h ih =>
    have hstep : step k (.syscall frame) = some k₁ := by rw [step, hcall]
    obtain ⟨l', hinv'⟩ := hinv.step hstep
    obtain ⟨hkmem, hramdisk⟩ := archive_step hinv hstep
    have hcurrent : k.current.fds i = fd := by
      rw [← hfd, ← hp]
      rfl
    have hn : syscallNumber frame.rax = .getdents64 := by rw [hnumber]; rfl
    rw [processSyscallDispatch, hn] at hcall
    obtain ⟨hlist, -⟩ := withFrame_ok hcall
    rw [hindex] at hlist
    have hlists := syscallGetdents64_lists (hcurrent ▸ htype) (hcurrent ▸ hpath) hvalid hlist
    rw [hcurrent] at hlists
    obtain ⟨hlisted, -⟩ := nextDirents_spec k fd (toNat_le_of_valid hvalid)
    -- the descriptor behind the records of this call
    have hfd₁ : (k₁.processes p).fds i = fd.advance (nextDirents k fd frame.rdx).length := by
      have hdescriptor := hlists.descriptor
      dsimp only at hdescriptor
      rw [hp, hcurrent] at hdescriptor
      exact hdescriptor
    obtain ⟨lists, hall, hrest, hlast⟩ := ih hinv' hfd₁ htype hpath
    refine ⟨nextDirents k fd frame.rdx :: lists, .cons hlists hall, ?_, ?_⟩
    · rw [hkmem, hramdisk] at hrest
      exact hlisted.append hrest
    · rw [hlast, advance_advance, List.flatten_cons, List.length_append]

lemma Calls.tidy {number : UInt64} {cs : List Call} (h : Calls ExecFits p i number k cs k')
    (hnumber : syscallNumber number ≠ .execve) (htidy : Tidy boot k) :
    (∀ c ∈ cs, Tidy boot c.before) ∧ Tidy boot k' := by
  induction h with
  | done k => exact ⟨fun c hc => absurd hc List.not_mem_nil, htidy⟩
  | other hok hstep _ _ ih => exact ih (htidy.step hok hstep)
  | call hn _ _ _ hcall _ ih =>
    obtain ⟨htidy', -⟩ := htidy.call (hn ▸ hnumber) hcall
    obtain ⟨hall, hlast⟩ := ih htidy'
    exact ⟨List.forall_mem_cons.mpr ⟨htidy, hall⟩, hlast⟩

/-! ### Opening the directory -/

/-- The descriptor that `open` answers for a directory lists the children of its path from the first on. -/
lemma syscallOpen_listed {path : CString} (hpath : HoldsString k.view address.toNat path)
    (hlen : path.length ≤ 254) (h : syscallOpen address k = (.ok (UInt64.ofNat i), k')) :
    0 ∉ (k'.current.fds i).file.path ∧ (k'.current.fds i).offset = 0 ∧
    k'.currentProcess = k.currentProcess ∧
    ∀ index, ramdiskReadDir k.kmem k.ramdisk (k'.current.fds i).file.path index =
      ramdiskReadDir k.kmem k.ramdisk path index := by
  have hends := syscallOpen_ends address k
  rw [h] at hends
  generalize hres : (Except.ok (UInt64.ofNat i), k') = result at hends
  cases hends with
  | faults => cases hres
  | refused =>
    obtain ⟨hr, -⟩ := Prod.mk.inj hres
    exact absurd (Except.ok.inj hr).symm (negativeErrno_ne_ofNat _ i)
  | @opened j path' file k₁ hj hpath' hfile hreads =>
    obtain ⟨hr, rfl⟩ := Prod.mk.inj hres
    obtain rfl : path = path' := hpath.unique hpath'
    obtain rfl : i = j := by
      have hij := congrArg fdIndex (Except.ok.inj hr)
      rw [fdIndex_ofNat, fdIndex_ofNat] at hij
      exact Option.some.inj hij
    rw [setFd_fds]
    refine ⟨fun hzero => ?_, rfl, hreads.sameRecords.currentProcess, fun index => ?_⟩
    · rw [RamdiskFile.opened, ramdiskFind_path hfile] at hzero
      rcases mem_makePublicPath hzero with hslash | hzero
      · exact absurd hslash (by decide)
      · exact hpath.nonzero (normalizePath_subset _ _ hzero)
    · exact ramdiskReadDir_congr (normalizePath_ramdiskFind hlen hfile) index

/-! ### Runs -/

lemma Listed.length_lt {kmem : KernelMemory} {rd : Ramdisk} {path : CString} (hsize : rd.Fits)
    (h : Listed kmem rd path 0 ds) : ds.length < 2 ^ 64 := by
  by_contra hlarge
  obtain ⟨child, hchild, -⟩ := h (2 ^ 64 - 1) (by omega)
  have hlt := ramdiskReadDir_index_lt hsize hchild
  rw [UInt64.zero_add, Word.toNat_ofNat_of_lt (by norm_num)] at hlt
  omega

/-- In every state of every run in which no program with a wrapping segment is executed, after a directory has
been opened: calls of `getdents64` on its descriptor, with any buffers that pass the range check and with
anything between them that leaves the descriptor alone, store the records of its children from the first on,
as many as the offset says. This is what the program finds in its buffers, and a call with a mapped buffer
returns. -/
theorem listing_of_run {path : CString} {k₁ k₂ : Kernel} {cs : List Call} (hboot : boot.memory.Valid)
    (hinit : InitFits boot) (hstart : Starts boot) (hsize : boot.ramdisk.Fits)
    (hrun : Run ExecFits (started boot) es k)
    (hpath : HoldsString k.view address.toNat path) (hlen : path.length ≤ 254)
    (hopen : syscallOpen address k = (.ok (UInt64.ofNat i), k₁)) (hdir : (k₁.current.fds i).type = .dir)
    (hcalls : Calls ExecFits k.currentProcess i 217 k₁ cs k₂) :
    ∃ lists : List (List Dirent), List.Forall₂ (Lists i) cs lists ∧
      Listed boot.kmem boot.ramdisk path 0 lists.flatten ∧
      ((k₂.processes k.currentProcess).fds i).offset.toNat = lists.flatten.length ∧
      List.Forall₂ Sees cs lists ∧
      ∀ frame : SyscallFrame, frame.rax = 217 → frame.rdi = UInt64.ofNat i →
        k₂.currentProcess = k.currentProcess → userRangeIsValid frame.rsi frame.rdx = true →
        k₂.view.Has frame.rsi.toNat frame.rdx.toNat →
        ∃ r k₃, processSyscallDispatch frame k₂ = (.ok r, k₃) := by
  obtain ⟨e, hok, hstep⟩ := step_open hopen
  obtain ⟨hnonzero, hoffset, hcurrent, hsame⟩ := syscallOpen_listed hpath hlen hopen
  have hrun₁ := hrun.snoc hok hstep
  obtain ⟨hkmem, hramdisk⟩ := archive_of_run hstart hrun₁
  obtain ⟨hkmem', hramdisk'⟩ := archive_of_run hstart hrun
  obtain ⟨l, hinv⟩ := tableInv_of_run hstart hrun₁
  have hfd : (k₁.processes k.currentProcess).fds i = k₁.current.fds i := by
    rw [← hcurrent]
    rfl
  obtain ⟨lists, hlists, hlisted, hlast⟩ := listing_concatenates hcalls hinv hfd hdir hnonzero
  have hall : Listed boot.kmem boot.ramdisk path 0 lists.flatten := by
    rw [← hkmem', ← hramdisk']
    intro j hj
    obtain ⟨child, hchild, hrecord⟩ := hlisted j hj
    rw [hoffset] at hchild hrecord
    rw [hkmem, hramdisk, ← hkmem', ← hramdisk', hsame] at hchild
    exact ⟨child, hchild, hrecord⟩
  have htidy : Tidy boot k₁ := owned_of_run hboot hinit hstart hrun₁
  obtain ⟨hbefore, hafter⟩ := hcalls.tidy (by decide) htidy
  refine ⟨lists, hlists, hall, ?_, ?_, ?_⟩
  · rw [hlast, ProcessFd.advance, hoffset]
    dsimp only
    rw [UInt64.zero_add]
    exact Word.toNat_ofNat_of_lt (hall.length_lt hsize)
  · rw [List.forall₂_iff_zip] at hlists ⊢
    refine ⟨hlists.1, fun hmem => ?_⟩
    exact (hlists.2 hmem).sees (hbefore _ (List.of_mem_zip hmem).1).intact
  · intro frame hnumber hindex hp hvalid hhas
    have hcur : k₂.current.fds i = (k₁.current.fds i).advance lists.flatten.length := by
      rw [← hlast, ← hp]
      rfl
    have hn : syscallNumber frame.rax = .getdents64 := by rw [hnumber]; rfl
    have hdir' : (k₂.current.fds i).type = .dir := by rw [hcur]; exact hdir
    obtain ⟨r, k₃, hreturns⟩ := syscallGetdents64_returns hafter.intact hdir' hvalid hhas
    refine ⟨(r, frame), k₃, ?_⟩
    rw [processSyscallDispatch, hn]
    simp only [hindex, withFrame, Prog.bind_ok hreturns]
    rfl

/-! ### The small machine -/

lemma small_child : (ramdiskReadDir (smallBoot 0x10000).kmem (smallBoot 0x10000).ramdisk [slash] 0).isSome =
    true := by
  decide +kernel

lemma small_root : ramdiskFind (smallBoot 0x10000).kmem (smallBoot 0x10000).ramdisk [slash] =
    some (implicitDirectory []) := by
  rw [ramdiskFind, if_pos smallProgram.available]
  rfl

/-- The program of the small machine lists the root. -/
theorem listing_of_run_small : ∃ (k₁ k₂ : Kernel) (i : Fin 16) (c : Call) (ds : List Dirent),
    Calls ExecFits 0 i 217 k₁ [c] k₂ ∧ Lists i c ds ∧ Sees c ds ∧ ds ≠ [] ∧
    Listed (smallBoot 0x10000).kmem (smallBoot 0x10000).ramdisk [slash] 0 ds := by
  have hsize : (smallBoot 0x10000).ramdisk.Fits :=
    show (smallBoot 0x10000).ramdisk.ramdiskSize.toNat < 2 ^ 64 - 1024 by decide +kernel
  obtain ⟨k, k₁, i, hopened⟩ := small_opened (by decide) (by decide) small_root
  obtain ⟨es, hrun⟩ := hopened.run
  have hroot : HoldsString k.view (0x10000 : UInt64).toNat [slash] := hopened.path
  have hopen := hopened.opens
  have hfd := hopened.fd
  have hcurrent₁ : k₁.currentProcess = k.currentProcess := hopened.same.trans hopened.process.symm
  have hdir : (k₁.current.fds i).type = .dir := by
    rw [hfd]
    rfl
  have hlen : [slash].length ≤ 254 := by decide
  have hvalid : userRangeIsValid 0x10000 0x1000 = true := by decide
  -- a call with a mapped buffer returns, and it is a sequence of calls
  obtain ⟨_, -, -, -, -, hreturns⟩ := listing_of_run (smallBoot_valid _) smallProgram.initFits smallBoot_starts
    hsize hrun hroot hlen hopen hdir (.done k₁)
  obtain ⟨r, k₂, hcall⟩ := hreturns
    { SyscallFrame.zero with rax := 217, rdi := UInt64.ofNat i, rsi := 0x10000, rdx := 0x1000 } rfl rfl hcurrent₁
    hvalid (by rw [hopened.view]; exact hopened.has)
  have hcalls : Calls ExecFits k.currentProcess i 217 k₁ [⟨k₁, 0x10000, 0x1000, r.1, k₂⟩] k₂ :=
    .call rfl rfl hcurrent₁ hvalid hcall (.done k₂)
  obtain ⟨lists, hlists, hlisted, -, hsees, -⟩ := listing_of_run (smallBoot_valid _) smallProgram.initFits
    smallBoot_starts hsize hrun hroot hlen hopen hdir hcalls
  cases hlists with
  | @cons _ ds _ _ hlist hnil =>
    cases hnil
    cases hsees with
    | cons hsee _ =>
      rw [List.flatten_cons, List.flatten_nil, List.append_nil] at hlisted
      refine ⟨k₁, k₂, i, _, ds, hopened.process ▸ hcalls, hlist, hsee, ?_, hlisted⟩
      -- the first record would have fitted
      rintro rfl
      have htotal := hlist.total
      have hfull := hlist.full
      dsimp only at htotal hfull
      obtain ⟨e, hok, hstep⟩ := step_open hopen
      obtain ⟨hkmem₁, hramdisk₁⟩ := archive_of_run smallBoot_starts (hrun.snoc hok hstep)
      obtain ⟨child, hchild⟩ := Option.isSome_iff_exists.mp small_child
      rw [hfd, hkmem₁, hramdisk₁] at hfull
      have hroom := hfull child hchild
      have hname := length_lastComponent_le child.path
      have hpath := length_ramdiskReadDir_lt hchild
      have hbounds := direntReclen_bounds (lastComponent child.path) (by omega)
      rw [direntsSize_nil] at htotal
      have hcount : (0x1000 : UInt64).toNat = 0x1000 := rfl
      omega

end Xbks
