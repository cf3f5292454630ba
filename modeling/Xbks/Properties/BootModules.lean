import Xbks.Drivers.SystemFont

/-!
# The boot modules

Two scans choose among the modules of the boot loader, one for the ramdisk and one for the system font.
If no module is named as the ramdisk, and there is only one, it is taken for the ramdisk.
-/

namespace Xbks

variable {entries : List (Option Module)} {modules : Option (List (Option Module))} {m r : Module}

/-! ### Scanning the modules -/

section Scan

variable {p : Module → Bool}

lemma scan_eq_some (h : (entries.findSome? fun m => m.filter p) = some m) : some m ∈ entries ∧ p m = true := by
  obtain ⟨entry, hmem, hentry⟩ := List.exists_of_findSome?_eq_some h
  obtain ⟨rfl, hp⟩ := Option.filter_eq_some_iff.mp hentry
  exact ⟨hmem, hp⟩

lemma exists_scan (hmem : some m ∈ entries) (hp : p m = true) :
    ∃ r, (entries.findSome? fun m => m.filter p) = some r := by
  rw [← Option.isSome_iff_exists, List.findSome?_isSome_iff]
  exact ⟨some m, hmem, Option.isSome_iff_exists.mpr ⟨m, Option.filter_eq_some_iff.mpr ⟨rfl, hp⟩⟩⟩

end Scan

lemma findFontModule_eq_some (h : findFontModule modules = some m) : m.usable = true ∧ m.isFont = true := by
  cases modules with
  | none => cases h
  | some entries => exact Bool.and_eq_true_iff.mp (scan_eq_some h).2

lemma findFontModule_only (husable : m.usable = true) (hfont : m.isFont = true) :
    findFontModule (some [some m]) = some m := by
  rw [findFontModule, List.findSome?_singleton, Option.filter_some, if_pos]
  exact Bool.and_eq_true_iff.mpr ⟨husable, hfont⟩

/-! ### The module that is taken for the ramdisk -/

/-- The module of a response with a single one. -/
def onlyModule : List (Option Module) → Option Module
  | [some m] => if m.usable then some m else none
  | _ => none

def ramdiskModule (modules : Option (List (Option Module))) : Option Module :=
  modules.bind fun entries =>
    (entries.findSome? fun m => m.filter fun m => m.usable && m.isRamdisk).or (onlyModule entries)

/-- The ramdisk is the contents of this module, and missing if there is none. -/
lemma ramdiskInit_eq (modules : Option (List (Option Module))) :
    ramdiskInit modules = (ramdiskModule modules).elim ⟨0, 0, false⟩ fun m => ⟨m.address, m.size, true⟩ := by
  cases modules with
  | none => rfl
  | some entries =>
    rw [ramdiskModule, Option.bind_some]
    unfold ramdiskInit
    dsimp only
    cases entries.findSome? fun m => m.filter fun m => m.usable && m.isRamdisk with
    | some m => rfl
    | none =>
      rw [Option.none_or]
      dsimp only
      split
      · rw [onlyModule]
        split_ifs <;> rfl
      · rename_i hmany
        rw [onlyModule]
        · rfl
        · exact hmany

lemma onlyModule_eq_some (h : onlyModule entries = some m) : m.usable = true ∧ entries = [some m] := by
  rw [onlyModule.eq_def] at h
  split at h
  · split_ifs at h with husable
    cases h
    exact ⟨husable, rfl⟩
  · cases h

lemma ramdiskModule_only (h : ¬m.isRamdisk = true) (husable : m.usable = true) :
    ramdiskModule (some [some m]) = some m := by
  have hscan : ([some m].findSome? fun m => m.filter fun m => m.usable && m.isRamdisk) = none := by
    rw [List.findSome?_singleton, Option.filter_some, if_neg]
    exact fun hm => h (Bool.and_eq_true_iff.mp hm).2
  rw [ramdiskModule, Option.bind_some, hscan, Option.none_or]
  exact if_pos husable

lemma ramdiskModule_named (hmem : some m ∈ modules.getD []) (husable : m.usable = true)
    (hm : m.isRamdisk = true) : ∃ r, ramdiskModule modules = some r ∧ r.isRamdisk = true := by
  cases modules with
  | none => cases hmem
  | some entries =>
    have hmem : some m ∈ entries := hmem
    have hboth : (m.usable && m.isRamdisk) = true := Bool.and_eq_true_iff.mpr ⟨husable, hm⟩
    obtain ⟨r, hscan⟩ := exists_scan (p := fun m => m.usable && m.isRamdisk) hmem hboth
    refine ⟨r, ?_, (Bool.and_eq_true_iff.mp (scan_eq_some hscan).2).2⟩
    rw [ramdiskModule, Option.bind_some, hscan, Option.some_or]

/-- The module is named as the ramdisk, or it is the only one. -/
lemma ramdiskModule_cases (h : ramdiskModule modules = some r) :
    r.isRamdisk = true ∧ some r ∈ modules.getD [] ∨ modules = some [some r] := by
  obtain ⟨entries, rfl, h⟩ := Option.bind_eq_some_iff.mp h
  rcases Option.or_eq_some_iff.mp h with hscan | ⟨-, honly⟩
  · obtain ⟨hmem, hm⟩ := scan_eq_some hscan
    exact .inl ⟨(Bool.and_eq_true_iff.mp hm).2, hmem⟩
  · rw [(onlyModule_eq_some honly).2]
    exact .inr rfl

/-! ### Two modules -/

/-- The ramdisk and the font are different modules, and a usable module that is named as the ramdisk is not
passed over for another one. -/
structure ModulesApart (modules : Option (List (Option Module))) : Prop where
  apart : ∀ r f, ramdiskModule modules = some r → findFontModule modules = some f → r ≠ f
  named : ∀ m, some m ∈ modules.getD [] → m.usable = true → m.isRamdisk = true →
    ∃ r, ramdiskModule modules = some r ∧ r.isRamdisk = true ∧ ramdiskInit modules = ⟨r.address, r.size, true⟩

/-- If no module has both names, the modules are confused exactly when the font is the only one. -/
theorem modulesApart_iff
    (hnames : ∀ m, some m ∈ modules.getD [] → ¬(m.isRamdisk = true ∧ m.isFont = true)) :
    ModulesApart modules ↔ ¬∃ m, modules = some [some m] ∧ m.usable = true ∧ m.isFont = true := by
  constructor
  · rintro h ⟨m, rfl, husable, hfont⟩
    have hramdisk : ¬m.isRamdisk = true := fun hm => hnames m (List.mem_singleton_self _) ⟨hm, hfont⟩
    exact h.apart m m (ramdiskModule_only hramdisk husable) (findFontModule_only husable hfont) rfl
  · intro honly
    constructor
    · rintro r _ hr hf rfl
      obtain ⟨husable, hfont⟩ := findFontModule_eq_some hf
      rcases ramdiskModule_cases hr with ⟨hramdisk, hmem⟩ | rfl
      · exact hnames r hmem ⟨hramdisk, hfont⟩
      · exact honly ⟨r, rfl, husable, hfont⟩
    · intro m hmem husable hm
      obtain ⟨r, hr, hramdisk⟩ := ramdiskModule_named hmem husable hm
      refine ⟨r, hr, hramdisk, ?_⟩
      rw [ramdiskInit_eq, hr]
      rfl

/-- The module that the build adds for `RAMDISK`. -/
def ramdiskTar : Module := ⟨0x100000, 0x2800, some (cstr "ramdisk"), some (cstr "/boot/ramdisk.tar")⟩

/-- The module that the build adds for `SYSTEM_FONT`. -/
def systemTtf : Module := ⟨0x200000, 0x10000, some (cstr "system-font"), some (cstr "/boot/system.ttf")⟩

/-- With both modules there is no confusion. -/
theorem modulesApart_both : ModulesApart (some [some ramdiskTar, some systemTtf]) := by
  refine (modulesApart_iff ?_).mpr ?_
  · intro m hmem hboth
    rcases List.mem_pair.mp hmem with hm | hm
    · obtain rfl := Option.some.inj hm
      exact absurd hboth.2 (by decide)
    · obtain rfl := Option.some.inj hm
      exact absurd hboth.1 (by decide)
  · rintro ⟨m, hm, -⟩
    cases hm

/-- Without a ramdisk the font is taken for it. -/
theorem only_font_confused :
    (∀ m, some m ∈ [some systemTtf] → ¬(m.isRamdisk = true ∧ m.isFont = true)) ∧
      ¬ModulesApart (some [some systemTtf]) := by
  have husable : systemTtf.usable = true := by decide
  have hfont : systemTtf.isFont = true := by decide
  have hramdisk : ¬systemTtf.isRamdisk = true := by decide
  constructor
  · intro m hmem hboth
    obtain rfl : m = systemTtf := Option.some.inj (List.mem_singleton.mp hmem)
    exact hramdisk hboth.1
  · intro h
    exact h.apart _ _ (ramdiskModule_only hramdisk husable) (findFontModule_only husable hfont) rfl

end Xbks
