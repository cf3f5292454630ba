import Xbks.Fs.BytesSound
import Xbks.Process.Boot

/-!
# Safety of the ramdisk

Whatever the archive contains, looking up a path and listing a directory stay inside the archive and
inside their buffers.
-/

namespace Xbks

variable (kmem : KernelMemory) (rd : Ramdisk) (path : CString)

open Bytes in
/-- Lookup and listing on bytes do not fail: their loops end, they read the archive only below its
size, they write below 256 in every buffer and leave a NUL in it. They answer what the functions on
strings answer, and the data of an answer lie in the archive. -/
theorem ramdisk_safe (hsize : rd.ramdiskSize.toNat < 2 ^ 64 - 1024) (hpath : 0 ∉ path) (index : UInt64)
    (junk : Buffer) (out : File) :
    (∃ r, Bytes.ramdiskFind kmem rd junk path out = some r ∧
      HoldsAnswer r (ramdiskFind kmem rd path) ∧
      ∀ f, r = some f → (∃ i < 256, f.path i = 0) ∧ (f.data ≠ 0 → InArchive rd f.data f.size)) ∧
    ∃ r, Bytes.ramdiskReadDir kmem rd junk path index out = some r ∧
      HoldsAnswer r (ramdiskReadDir kmem rd path index) ∧
      ∀ f, r = some f → (∃ i < 256, f.path i = 0) ∧ (f.data ≠ 0 → InArchive rd f.data f.size) := by
  have hanswer : ∀ {r answer}, HoldsAnswer r answer →
      (∀ file : RamdiskFile, answer = some file → file.data ≠ 0 → InArchive rd file.data file.size) →
      ∀ f, r = some f → (∃ i < 256, f.path i = 0) ∧ (f.data ≠ 0 → InArchive rd f.data f.size) := by
    rintro r answer h hin f rfl
    cases h with
    | @some f file hfile =>
      refine ⟨⟨file.path.length, hfile.path.length_lt, hfile.path.nul⟩, ?_⟩
      rw [hfile.data, hfile.size]
      exact hin _ rfl
  obtain ⟨r, hr, hfind⟩ := ramdiskFind_spec kmem hsize hpath junk out
  obtain ⟨r', hr', hread⟩ := ramdiskReadDir_spec kmem hsize hpath index junk out
  exact ⟨⟨r, hr, hfind, hanswer hfind fun _ => ramdiskFind_inArchive hsize⟩,
    r', hr', hread, hanswer hread fun _ => ramdiskReadDir_inArchive hsize⟩

open Bytes in
/-- Looking up a file of a small archive, with all buffers full of `A`. -/
theorem ramdisk_safe_small : ∃ f,
    Bytes.ramdiskFind (smallBoot 0x10000).kmem (smallBoot 0x10000).ramdisk (fun _ => 65)
      (cstr "//bin/xsh") ⟨fun _ => 65, 0, 0, false, false⟩ = some (some f) ∧
    InArchive (smallBoot 0x10000).ramdisk f.data f.size := by
  obtain ⟨⟨r, hr, hholds, hin⟩, -⟩ := ramdisk_safe (smallBoot 0x10000).kmem
    (smallBoot 0x10000).ramdisk (cstr "//bin/xsh") (by decide +kernel) (by decide +kernel) 0
    (fun _ => 65) ⟨fun _ => 65, 0, 0, false, false⟩
  have hfile : ramdiskFind (smallBoot 0x10000).kmem (smallBoot 0x10000).ramdisk (cstr "//bin/xsh") =
      some smallFile := by decide +kernel
  rw [hfile] at hholds
  cases hholds with
  | some hf =>
    refine ⟨_, hr, (hin _ rfl).2 ?_⟩
    rw [hf.data]
    decide

end Xbks
