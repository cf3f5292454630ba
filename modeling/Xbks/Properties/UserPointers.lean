import Xbks.Process.Step

/-!
# Pointers supplied by the user

What the kernel does with the pointers in the registers of a system call: every address it follows
lies in the user's part.
-/

namespace Xbks

variable {k k' : Kernel} {frame : SyscallFrame}

/-! ### The range of the addresses followed -/

lemma accesses_vfork (frame : SyscallFrame) (k : Kernel) :
    (syscallVfork frame k).2.accesses = k.accesses := by
  rw [syscallVfork, allocateProcess]
  cases unusedSlot k.processes with
  | none => rfl
  | some slot =>
    dsimp only [Kernel.setProcess]
    split_ifs with hcr3
    · rfl
    · split
      · rfl
      · rfl

lemma accesses_exit (frame : SyscallFrame) (status : UInt64) (k : Kernel) :
    (syscallExit frame status k).2.accesses = k.accesses := by
  rw [syscallExit]
  dsimp only [Kernel.setCurrent, Kernel.setProcess]
  split
  · rfl
  · rfl

lemma accesses_execveLoaded (path : CString) (argv envp : List CString) :
    (execveLoaded frame path argv envp k).2.accesses = k.accesses := by
  have hends := execveLoaded_ends frame path argv envp k
  generalize execveLoaded frame path argv envp k = r at hends
  cases hends with
  | failed => rfl
  | done => rfl

/-- Whatever the registers hold, every address that a system call reads or writes through a pointer
supplied by the user lies in the user's part, computed without wrapping around. -/
theorem accesses_in_user (frame : SyscallFrame) (k : Kernel) :
    ∃ new, (processSyscallDispatch frame k).2.accesses = k.accesses ++ new ∧
      ∀ a ∈ new, userImageMin.toNat ≤ a ∧ a < userTop.toNat := by
  have hout := dispatch_outcome frame k
  generalize processSyscallDispatch frame k = r at hout
  cases hout with
  | stays hlocal => exact hlocal.accesses
  | vfork => exact ⟨[], by rw [accesses_vfork, List.append_nil], by simp⟩
  | execve _ hexecs =>
    obtain ⟨new, hnew, hin⟩ := hexecs.isLocal.accesses
    exact ⟨new, (accesses_execveLoaded _ _ _).trans hnew, hin⟩
  | wait4 _ _ hlocal =>
    obtain ⟨new, hnew, hin⟩ := hlocal.accesses
    exact ⟨new, hnew, hin⟩
  | exit => exact ⟨[], by rw [accesses_exit, List.append_nil], by simp⟩

end Xbks
