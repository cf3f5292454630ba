import Xbks.Mm.Missing
import Xbks.Properties.FrameOwnership

/-!
# Moving the break

`syscall_brk` maps the pages up to the new break one after the other and returns at the first that
cannot be mapped, without unmapping the ones before it.
-/

namespace Xbks

variable {s s' : Mm} {F F' : List UInt64} {p v flags : UInt64}

/-! ### Mapping pages -/

/-- The frames that mapping pages one after the other takes, where `missing` counts the missing tables
of an address. The tables that one page needs are there for the next. -/
def framesNeeded (missing : UInt64 → ℕ) : List UInt64 → ℕ
  | [] => 0
  | v :: vs => 1 + missing v +
      framesNeeded (fun w => min (missing w) (3 - shared (pathOf v) (pathOf w))) vs

lemma framesNeeded_mono {m m' : UInt64 → ℕ} {pages : List UInt64} (h : ∀ v ∈ pages, m v ≤ m' v) :
    framesNeeded m pages ≤ framesNeeded m' pages := by
  induction pages generalizing m m' with
  | nil => exact le_refl _
  | cons v vs ih =>
    have hv := h v List.mem_cons_self
    have hvs := @ih (fun w => min (m w) (3 - shared (pathOf v) (pathOf w)))
      (fun w => min (m' w) (3 - shared (pathOf v) (pathOf w)))
      fun w hw => min_le_min_right _ (h w (List.mem_cons_of_mem v hw))
    rw [framesNeeded, framesNeeded]
    omega

lemma framesNeeded_congr {m m' : UInt64 → ℕ} {pages : List UInt64} (h : ∀ v ∈ pages, m v = m' v) :
    framesNeeded m pages = framesNeeded m' pages :=
  le_antisymm (framesNeeded_mono fun v hv => (h v hv).le) (framesNeeded_mono fun v hv => (h v hv).ge)

/-- Every page takes a frame. -/
lemma length_le_framesNeeded (m : UInt64 → ℕ) (pages : List UInt64) :
    pages.length ≤ framesNeeded m pages := by
  induction pages generalizing m with
  | nil => exact le_refl _
  | cons v vs ih =>
    have := ih fun w => min (m w) (3 - shared (pathOf v) (pathOf w))
    rw [framesNeeded, List.length_cons]
    omega

def Mm.missing (s : Mm) (p v : UInt64) : ℕ := s.missingTables 4 p (pathOf v)

lemma mapUserPage_tabled (hpool : Pool s F) (hsep : Separate s 4 p F) (hv : UserPage v)
    (hflags : (flags ||| pageUser).toNat < 4096) (hpool' : Pool (mapUserPage s p v flags).2 F') :
    Tabled (mapUserPage s p v flags).1 p v s (mapUserPage s p v flags).2 F F' := by
  rw [mapUserPage_eq] at hpool' ⊢
  exact mapNew_tabled _ hpool hsep (lowerHalf_of_lt hv.lt) hv.aligned hflags hpool'

/-- Different pages have different paths. -/
lemma UserPage.pathOf_ne {w : UInt64} (hv : UserPage v) (hw : UserPage w) (hne : w ≠ v) :
    pathOf w ≠ pathOf v := by
  rw [ne_eq, pathOf_eq_iff]
  intro h
  refine hne ?_
  rw [← UInt64.toNat_inj]
  have h₁ := hv.aligned
  have h₂ := hv.lt
  have h₃ := hw.aligned
  have h₄ := hw.lt
  omega

/-- Mapping a page does not map another one. -/
lemma MapsPages.lookup_of_ne {ok : Bool} {w : UInt64} (h : MapsPages ok p [v] s s' F F')
    (hv : UserPage v) (hw : UserPage w) (hne : w ≠ v) :
    s'.lookup 4 p (pathOf w) = s.lookup 4 p (pathOf w) := by
  cases hlookup : s.lookup 4 p (pathOf w) with
  | some e => exact h.kept _ e hlookup
  | none =>
    by_contra hsome
    obtain ⟨e, he⟩ := Option.ne_none_iff_exists'.mp hsome
    rcases h.only _ e he with h | ⟨x, hx, hpath⟩
    · rw [hlookup] at h
      cases h
    · rw [List.mem_singleton.mp hx] at hpath
      exact hv.pathOf_ne hw hne hpath

/-- The loop of `syscall_brk` gets to its end exactly when none of the pages is mapped and there are
enough frames. -/
theorem mapUserPages_true_iff {pages : List UInt64} (hpool : Pool s F) (hsep : Separate s 4 p F)
    (hpages : ∀ v ∈ pages, UserPage v) (hnd : pages.Nodup)
    (hflags : (flags ||| pageUser).toNat < 4096) :
    (Loop.forWhile (fun s page => mapUserPage s p page flags) s pages).1 = true ↔
      (∀ v ∈ pages, s.lookup 4 p (pathOf v) = none) ∧ framesNeeded (s.missing p) pages ≤ F.length := by
  induction pages generalizing s F with
  | nil => simp [framesNeeded]
  | cons v vs ih =>
    have hv := hpages v List.mem_cons_self
    have hvs := fun w hw => hpages w (List.mem_cons_of_mem v hw)
    rw [List.nodup_cons] at hnd
    obtain ⟨F₁, h₁, -⟩ := mapUserPage_spec hpool hsep hv hflags
    have htab := mapUserPage_tabled hpool hsep hv hflags h₁.pool
    rw [framesNeeded, List.forall_mem_cons]
    cases hr : (mapUserPage s p v flags).1 with
    | false =>
      have hno : ¬(s.lookup 4 p (pathOf v) = none ∧ s.missing p v < F.length) := by
        intro h
        rw [htab.iff.mpr h] at hr
        cases hr
      rw [Loop.forWhile_cons_false hr]
      refine ⟨fun h => absurd h Bool.false_ne_true, fun h => absurd ⟨h.1.1, ?_⟩ hno⟩
      omega
    | true =>
      rw [hr] at htab h₁
      have hused := htab.used rfl
      have hlookup : ∀ w ∈ vs, (mapUserPage s p v flags).2.lookup 4 p (pathOf w) =
          s.lookup 4 p (pathOf w) := by
        intro w hw
        refine h₁.lookup_of_ne hv (hvs w hw) ?_
        rintro rfl
        exact hnd.1 hw
      have hmissing : framesNeeded ((mapUserPage s p v flags).2.missing p) vs =
          framesNeeded (fun w => min (s.missing p w) (3 - shared (pathOf v) (pathOf w))) vs :=
        framesNeeded_congr fun w hw => htab.eq rfl w (lowerHalf_of_lt (hvs w hw).lt)
      rw [Loop.forWhile_cons_true hr, ih h₁.pool (h₁.toConserved.separate hsep) hvs hnd.2, hmissing]
      have hfirst := (htab.iff.mp rfl).1
      change F₁.length + 1 + s.missing p v = F.length at hused
      constructor
      · rintro ⟨hnone, hlen⟩
        exact ⟨⟨hfirst, fun w hw => (hlookup w hw).symm.trans (hnone w hw)⟩, by omega⟩
      · rintro ⟨⟨-, hnone⟩, hlen⟩
        exact ⟨fun w hw => (hlookup w hw).trans (hnone w hw), by omega⟩

/-- A page that cannot be mapped leaves all translations alone. -/
lemma mapUserPage_false (hpool : Pool s F) (hsep : Separate s 4 p F) (hv : UserPage v)
    (hflags : (flags ||| pageUser).toNat < 4096) (h : (mapUserPage s p v flags).1 = false)
    (path : List (Fin 512)) : (mapUserPage s p v flags).2.lookup 4 p path = s.lookup 4 p path := by
  rw [mapUserPage_eq] at h ⊢
  obtain ⟨q, page, F', hmap, -⟩ := mapNew_spec (fun _ => zeroPage) hpool hsep
    (lowerHalf_of_lt hv.lt) hv.aligned hflags
  rw [hmap.lookup, if_neg (by simp [h])]

/-- A page that could be mapped is not when there is no frame left, or only one. -/
lemma mapUserPage_exhausted (hpool : Pool s F) (hsep : Separate s 4 p F) (hv : UserPage v)
    (hflags : (flags ||| pageUser).toNat < 4096) (hnone : s.lookup 4 p (pathOf v) = none)
    (h : (mapUserPage s p v flags).1 = false) (hpool' : Pool (mapUserPage s p v flags).2 F') :
    F'.length ≤ 1 := by
  rw [mapUserPage_eq] at h hpool'
  obtain ⟨q, page, F₁, hmap, -⟩ := mapNew_spec (fun _ => zeroPage) hpool hsep
    (lowerHalf_of_lt hv.lt) hv.aligned hflags
  rw [hpool'.unique hmap.pool]
  exact (hmap.exhausted h).resolve_left fun hne => hne hnone

/-- When none of the pages is mapped, the loop takes all frames before it gives up. -/
lemma mapUserPages_exhausted {pages : List UInt64} (hpool : Pool s F) (hsep : Separate s 4 p F)
    (hpages : ∀ v ∈ pages, UserPage v) (hnd : pages.Nodup) (hflags : (flags ||| pageUser).toNat < 4096)
    (hnone : ∀ v ∈ pages, s.lookup 4 p (pathOf v) = none)
    (h : (Loop.forWhile (fun s page => mapUserPage s p page flags) s pages).1 = false)
    (hpool' : Pool (Loop.forWhile (fun s page => mapUserPage s p page flags) s pages).2 F') :
    F'.length ≤ 1 := by
  induction pages generalizing s F with
  | nil => cases h
  | cons v vs ih =>
    have hv := hpages v List.mem_cons_self
    have hvs := fun w hw => hpages w (List.mem_cons_of_mem v hw)
    rw [List.nodup_cons] at hnd
    obtain ⟨F₁, h₁, -⟩ := mapUserPage_spec hpool hsep hv hflags
    cases hr : (mapUserPage s p v flags).1 with
    | false =>
      rw [Loop.forWhile_cons_false hr] at hpool'
      exact mapUserPage_exhausted hpool hsep hv hflags (hnone v List.mem_cons_self) hr hpool'
    | true =>
      rw [Loop.forWhile_cons_true hr] at h hpool'
      refine ih h₁.pool (h₁.toConserved.separate hsep) hvs hnd.2 (fun w hw => ?_) h hpool'
      have hne : w ≠ v := by
        rintro rfl
        exact hnd.1 hw
      rw [h₁.lookup_of_ne hv (hvs w hw) hne]
      exact hnone w (List.mem_cons_of_mem v hw)

/-! ### The system call -/

variable {k k' k₂ : Kernel} {r : UInt64}

/-- The pages between the break and the requested one. -/
def breakPages (k : Kernel) (r : UInt64) : List UInt64 :=
  pagesBetween (alignUp k.current.brk pageSize) (alignUp r pageSize)

/-- The requests for which no page is mapped. -/
def Refused (k : Kernel) (r : UInt64) : Prop :=
  r = 0 ∨ r < k.current.brk ∨ r ≥ 0x10000000

/-- The page is not mapped, and there are frames for it and for the tables that are missing. -/
def CanMap (k : Kernel) (v : UInt64) : Prop :=
  vmmTranslate k.mm k.current.cr3 v = none ∧
    k.mm.missing k.current.cr3 v < k.mm.freeFrameCount.toNat

/-- No page up to the requested break is mapped, and there are frames for all of them. -/
def CanMapAll (k : Kernel) (r : UInt64) : Prop :=
  (∀ v ∈ breakPages k r, vmmTranslate k.mm k.current.cr3 v = none) ∧
    framesNeeded (k.mm.missing k.current.cr3) (breakPages k r) ≤ k.mm.freeFrameCount.toNat

/-- The request is refused, or all pages can be mapped, or already the first one cannot. -/
def BreakFits (k : Kernel) (r : UInt64) : Prop :=
  Refused k r ∨ CanMapAll k r ∨ ∀ v ∈ (breakPages k r).head?, ¬CanMap k v

lemma canMapAll_of_canMap {v : UInt64} (hpages : breakPages k r = [v]) (h : CanMap k v) : CanMapAll k r := by
  obtain ⟨hnone, hframes⟩ := h
  rw [CanMapAll, hpages]
  refine ⟨fun w hw => ?_, ?_⟩
  · rw [List.mem_singleton.mp hw]
    exact hnone
  · rw [framesNeeded, framesNeeded]
    omega

lemma syscallBrk_refused (h : Refused k r) : syscallBrk r k = (.ok k.current.brk, k) := by
  rw [syscallBrk]
  by_cases hzero : r = 0
  · rw [if_pos hzero]
  · rw [if_neg hzero, if_pos (h.resolve_left hzero)]

lemma syscallBrk_loop (h : ¬Refused k r) : syscallBrk r k =
    match Loop.forWhile (fun s page => mapUserPage s k.current.cr3 page pageWritable) k.mm
      (breakPages k r) with
    | (false, mm) => (.ok k.current.brk, { k with mm := mm })
    | (true, mm) => (.ok r, { k with mm := mm }.setCurrent { k.current with brk := r }) := by
  rw [Refused, not_or] at h
  rw [syscallBrk, if_neg h.1, if_neg h.2]
  rfl

lemma not_refused (h : ¬Refused k r) : k.current.brk.toNat ≤ r.toNat ∧ r.toNat < 0x10000000 := by
  rw [Refused, not_or, not_or, UInt64.not_lt, ge_iff_le, UInt64.not_le, UInt64.le_iff_toNat_le,
    UInt64.lt_iff_toNat_lt] at h
  exact h.2

lemma breakPages_userPage (h : ¬Refused k r) (hv : v ∈ breakPages k r) : UserPage v :=
  (brk_pages (not_refused h).1 (not_refused h).2 hv).1

/-- Whether a page is mapped can be seen from the tree. -/
lemma translate_eq_none_iff (hv : LowerHalf v) :
    vmmTranslate s p v = none ↔ s.lookup 4 p (pathOf v) = none := by
  rw [vmmTranslate_eq hv, Option.map_eq_none_iff]

/-- The address space of the current process is apart from the free list. -/
def Apart (k : Kernel) (F : List UInt64) : Prop :=
  Pool k.mm F ∧ Separate k.mm 4 k.current.cr3 F

lemma loop_true_iff (happart : Apart k F) (h : ¬Refused k r) :
    (Loop.forWhile (fun s page => mapUserPage s k.current.cr3 page pageWritable) k.mm
      (breakPages k r)).1 = true ↔ CanMapAll k r := by
  rw [mapUserPages_true_iff happart.1 happart.2 (fun v hv => breakPages_userPage h hv)
    (nodup_pagesBetween _ _) (by decide), CanMapAll, happart.1.toNat_freeFrameCount]
  refine and_congr_left fun _ => forall₂_congr fun v hv => ?_
  exact (translate_eq_none_iff (lowerHalf_of_lt (breakPages_userPage h hv).lt)).symm

/-- When the break is moved to where it was asked to be. -/
lemma syscallBrk_ok_iff (happart : Apart k F) :
    (syscallBrk r k).1 = .ok r ↔ k.current.brk = r ∨ ¬Refused k r ∧ CanMapAll k r := by
  by_cases h : Refused k r
  · rw [syscallBrk_refused h, Except.ok.injEq]
    exact ⟨.inl, fun hor => hor.resolve_right fun hno => hno.1 h⟩
  · have hloop := loop_true_iff happart h
    rw [syscallBrk_loop h]
    rcases hr : Loop.forWhile (fun s page => mapUserPage s k.current.cr3 page pageWritable) k.mm
      (breakPages k r) with ⟨ok, mm⟩
    rw [hr] at hloop
    cases ok with
    | true => exact ⟨fun _ => .inr ⟨h, hloop.mp rfl⟩, fun _ => rfl⟩
    | false =>
      rw [Except.ok.injEq]
      refine ⟨.inl, fun hor => hor.resolve_right fun hno => ?_⟩
      exact absurd (hloop.mpr hno.2) Bool.false_ne_true

/-- A later state: the break and the tables of the process are as `k'` left them, and there are at least
as many free frames as in `k`. -/
structure Later (k k' k₂ : Kernel) : Prop where
  brk : k₂.current.brk = k'.current.brk
  cr3 : k₂.current.cr3 = k'.current.cr3
  tables : ∀ x ∈ k'.mm.tables 4 k'.current.cr3, k₂.mm.mem x = k'.mm.mem x
  apart : ∃ F, Apart k₂ F
  frames : k.mm.freeFrameCount ≤ k₂.mm.freeFrameCount

/-- What a failed call has to leave as it was: the break, the set of mapped pages, and the requests that
can be met once there are as many frames as before. -/
structure BreakKept (k k' : Kernel) : Prop where
  brk : k'.current.brk = k.current.brk
  mapped : ∀ a < userTop, (vmmTranslate k'.mm k'.current.cr3 a).isSome =
    (vmmTranslate k.mm k.current.cr3 a).isSome
  later : ∀ k₂ r, Later k k' k₂ → (syscallBrk r k).1 = .ok r → (syscallBrk r k₂).1 = .ok r

/-- Translations and break are as before and no table is gone. -/
lemma BreakKept.of_lookup (happart : Apart k F) (hcr3 : k'.current.cr3 = k.current.cr3)
    (hbrk : k'.current.brk = k.current.brk)
    (hlookup : ∀ path, k'.mm.lookup 4 k.current.cr3 path = k.mm.lookup 4 k.current.cr3 path)
    (hmissing : ∀ v, LowerHalf v → k'.mm.missing k.current.cr3 v ≤ k.mm.missing k.current.cr3 v) :
    BreakKept k k' where
  brk := hbrk
  mapped a ha := by
    have hlow := lowerHalf_of_lt (lt_userTop_iff.mp ha)
    rw [hcr3, vmmTranslate_eq hlow, vmmTranslate_eq hlow, hlookup]
  later k₂ r hlater hok := by
    obtain ⟨F₂, happart₂⟩ := hlater.apart
    have hbrk₂ := hlater.brk.trans hbrk
    have htables := hlater.tables
    have hframes := UInt64.le_iff_toNat_le.mp hlater.frames
    rw [hcr3] at htables
    have hpages : breakPages k₂ r = breakPages k r := by rw [breakPages, hbrk₂, breakPages]
    rw [syscallBrk_ok_iff happart] at hok
    rw [syscallBrk_ok_iff happart₂, hbrk₂]
    refine hok.imp id fun ⟨hrefused, hall⟩ => ⟨by rwa [Refused, hbrk₂], ?_⟩
    rw [CanMapAll, hpages, hlater.cr3, hcr3]
    refine ⟨fun v hv => ?_, ?_⟩
    · have hlow := lowerHalf_of_lt (breakPages_userPage hrefused hv).lt
      have hnone := hall.1 v hv
      rw [translate_eq_none_iff hlow] at hnone ⊢
      exact (Radix.lookup_congr htables _).trans ((hlookup _).trans hnone)
    · refine (framesNeeded_mono fun v hv => ?_).trans (hall.2.trans hframes)
      have hlow := lowerHalf_of_lt (breakPages_userPage hrefused hv).lt
      rw [Mm.missing, missingTables_congr htables]
      exact hmissing v hlow

/-- A call of `brk` that answers something else than the request changes nothing. -/
def BreakUndone (k : Kernel) (r : UInt64) : Prop :=
  ∀ v k', syscallBrk r k = (.ok v, k') → v ≠ r → BreakKept k k'

/-- If the first page can be mapped, it stays mapped when a later one cannot. -/
lemma first_page_stays (happart : Apart k F) (h : ¬Refused k r) (hall : ¬CanMapAll k r)
    (hv : v ∈ (breakPages k r).head?) (hcan : CanMap k v) :
    ∃ k', syscallBrk r k = (.ok k.current.brk, k') ∧ k.current.brk ≠ r ∧
      k'.current = k.current ∧ vmmTranslate k'.mm k.current.cr3 v ≠ none := by
  obtain ⟨vs, hpages⟩ : ∃ vs, breakPages k r = v :: vs := List.head?_eq_some_iff.mp hv
  have hmem : v ∈ breakPages k r := hpages ▸ List.mem_cons_self
  have huser := breakPages_userPage h hmem
  have hlow := lowerHalf_of_lt huser.lt
  have hne : k.current.brk ≠ r := by
    intro heq
    simp [breakPages, heq, pagesBetween] at hmem
  have hflags : (pageWritable ||| pageUser).toNat < 4096 := by decide
  obtain ⟨F₁, h₁, -⟩ := mapUserPage_spec happart.1 happart.2 huser hflags
  have htab := mapUserPage_tabled happart.1 happart.2 huser hflags h₁.pool
  have hok : (mapUserPage k.mm k.current.cr3 v pageWritable).1 = true := by
    rw [CanMap, translate_eq_none_iff hlow, happart.1.toNat_freeFrameCount] at hcan
    exact htab.iff.mpr hcan
  have hloop := loop_true_iff happart h
  rw [syscallBrk_loop h]
  obtain ⟨F₂, h₂⟩ := mapUserPages_spec pageWritable h₁.pool (h₁.toConserved.separate happart.2)
    (fun w hw => breakPages_userPage h (hpages ▸ List.mem_cons_of_mem v hw)) hflags
  rw [hpages, Loop.forWhile_cons_true hok] at hloop ⊢
  rcases hr : Loop.forWhile (fun s page => mapUserPage s k.current.cr3 page pageWritable)
    (mapUserPage k.mm k.current.cr3 v pageWritable).2 vs with ⟨ok, mm⟩
  rw [hr] at hloop h₂
  cases ok with
  | true => exact absurd (hloop.mp rfl) hall
  | false =>
    refine ⟨_, rfl, hne, rfl, ?_⟩
    obtain ⟨e, he⟩ := Option.ne_none_iff_exists'.mp (h₁.done hok v List.mem_cons_self)
    rw [ne_eq, translate_eq_none_iff hlow, h₂.kept _ e he]
    exact Option.some_ne_none e

/-- The loop of `syscall_brk`. -/
def breakLoop (k : Kernel) (r : UInt64) : Bool × Mm :=
  Loop.forWhile (fun s page => mapUserPage s k.current.cr3 page pageWritable) k.mm (breakPages k r)

/-- Asking for more unmapped pages than there are frames leaves no frame, or one. -/
lemma syscallBrk_exhausted (happart : Apart k F) (h : ¬Refused k r)
    (hnone : ∀ v ∈ breakPages k r, vmmTranslate k.mm k.current.cr3 v = none)
    (hmany : F.length < (breakPages k r).length) :
    syscallBrk r k = (.ok k.current.brk, { k with mm := (breakLoop k r).2 }) ∧
      (∀ path, k.mm.lookup 4 k.current.cr3 path ≠ none → (breakLoop k r).2.lookup 4 k.current.cr3 path ≠ none) ∧
      ∀ F', Pool (breakLoop k r).2 F' → F'.length ≤ 1 := by
  have hall : ¬CanMapAll k r := by
    intro hall
    have hneeded := (length_le_framesNeeded _ _).trans hall.2
    rw [happart.1.toNat_freeFrameCount] at hneeded
    omega
  have huser := fun v (hv : v ∈ breakPages k r) => breakPages_userPage h hv
  have hfails := mt (loop_true_iff happart h).mp hall
  rw [Bool.not_eq_true] at hfails
  obtain ⟨F₁, h₁⟩ := mapUserPages_spec pageWritable happart.1 happart.2 huser (by decide)
  have hexhausted := fun F' (hpool' : Pool (breakLoop k r).2 F') => mapUserPages_exhausted happart.1 happart.2
    huser (nodup_pagesBetween _ _) (by decide)
    (fun v hv => (translate_eq_none_iff (lowerHalf_of_lt (huser v hv).lt)).mp (hnone v hv)) hfails hpool'
  refine ⟨?_, fun path hpath => ?_, hexhausted⟩
  · rw [syscallBrk_loop h, breakLoop]
    generalize Loop.forWhile (fun s page => mapUserPage s k.current.cr3 page pageWritable) k.mm
      (breakPages k r) = loop at hfails ⊢
    rcases loop with ⟨ok, mm⟩
    subst hfails
    rfl
  · obtain ⟨e, he⟩ := Option.ne_none_iff_exists'.mp hpath
    rw [breakLoop, h₁.kept path e he]
    exact Option.some_ne_none e

/-- If the first page cannot be mapped, nothing is. -/
lemma first_page_fails (happart : Apart k F) (h : ¬Refused k r) {vs : List UInt64}
    (hpages : breakPages k r = v :: vs) (hcan : ¬CanMap k v) :
    ∃ k', syscallBrk r k = (.ok k.current.brk, k') ∧ BreakKept k k' := by
  have huser := breakPages_userPage h (hpages ▸ List.mem_cons_self : v ∈ breakPages k r)
  have hlow := lowerHalf_of_lt huser.lt
  have hflags : (pageWritable ||| pageUser).toNat < 4096 := by decide
  obtain ⟨F₁, h₁, -⟩ := mapUserPage_spec happart.1 happart.2 huser hflags
  have htab := mapUserPage_tabled happart.1 happart.2 huser hflags h₁.pool
  have hfails : (mapUserPage k.mm k.current.cr3 v pageWritable).1 = false := by
    rw [CanMap, translate_eq_none_iff hlow, happart.1.toNat_freeFrameCount] at hcan
    exact Bool.eq_false_iff.mpr fun hok => hcan (htab.iff.mp hok)
  rw [syscallBrk_loop h, hpages, Loop.forWhile_cons_false hfails]
  refine ⟨_, rfl, .of_lookup happart rfl rfl (fun path => ?_) htab.le⟩
  exact mapUserPage_false happart.1 happart.2 huser hflags hfails path

/-- A failed call changes nothing exactly when it does not get past a first page. -/
lemma breakUndone_iff (happart : Apart k F) : BreakUndone k r ↔ BreakFits k r := by
  constructor
  · intro hundone
    by_contra hfits
    rw [BreakFits, not_or, not_or] at hfits
    obtain ⟨hrefused, hall, hfirst⟩ := hfits
    push Not at hfirst
    obtain ⟨v, hv, hcan⟩ := hfirst
    obtain ⟨k', hbrk, hne, hcurrent, hmapped⟩ := first_page_stays happart hrefused hall hv hcan
    have hmem : v ∈ breakPages k r := List.mem_of_mem_head? hv
    have hkept := (hundone _ k' hbrk hne).mapped v
      (lt_userTop_iff.mpr (breakPages_userPage hrefused hmem).lt)
    rw [hcurrent, hcan.1] at hkept
    exact hmapped (Option.isSome_eq_false_iff.mp hkept |> Option.isNone_iff_eq_none.mp)
  · intro hfits v k' hbrk hne
    by_cases hrefused : Refused k r
    · rw [syscallBrk_refused hrefused] at hbrk
      cases hbrk
      exact .of_lookup happart rfl rfl (fun _ => rfl) fun _ _ => le_refl _
    · have hall : ¬CanMapAll k r := by
        intro hall
        have hok := (syscallBrk_ok_iff happart).mpr (.inr ⟨hrefused, hall⟩)
        rw [hbrk] at hok
        exact hne (Except.ok.inj hok)
      have hfirst := (hfits.resolve_left hrefused).resolve_left hall
      cases hpages : breakPages k r with
      | nil => exact absurd ⟨by simp [hpages], by simp [hpages, framesNeeded]⟩ hall
      | cons v₀ vs =>
        rw [hpages] at hfirst
        obtain ⟨k₁, hbrk₁, hkept⟩ := first_page_fails happart hrefused hpages (hfirst v₀ rfl)
        rw [hbrk₁] at hbrk
        cases hbrk
        exact hkept

/-! ### Runs -/

variable {boot : BootInfo} {es : List Event} {l : List Slot}

lemma Owned.apart (h : Owned boot.memory k F) (hinv : TableInv k l) : Apart k F :=
  ⟨h.pool, h.separate (h.current_ne hinv)⟩

/-- In every state of every run, a call of `brk` that fails leaves the break and the mapped pages as they
were exactly when it is refused, or can map all pages, or cannot map the first one. -/
theorem break_undone_iff (hboot : boot.memory.Valid) (hinit : InitFits boot) (hstart : Starts boot)
    (hrun : Run ExecFits (started boot) es k) (r : UInt64) : BreakUndone k r ↔ BreakFits k r := by
  obtain ⟨l, F, hinv, howned⟩ := owned_of_run hboot hinit hstart hrun
  exact breakUndone_iff (howned.apart hinv)

/-- When the first program has been started, free frames are left. -/
lemma SmallProgram.started_apart {entry : UInt64} (h : SmallProgram boot entry) (hboot : boot.memory.Valid)
    (hstart : Starts boot) (hframes : 100 < boot.memory.handedFrames.length) :
    ∃ F, Apart (started boot) F ∧ 15 < F.length := by
  obtain ⟨F, howned, hlen⟩ := owned_started hboot h.initFits hstart
  have hlen := hlen smallFile h.file
  rw [h.cost] at hlen
  exact ⟨F, howned.apart (tableInv_started hstart), by omega⟩

/-- The first page of the heap can be mapped when the first program has been started. -/
lemma SmallProgram.canMap {entry : UInt64} (h : SmallProgram boot entry) (hboot : boot.memory.Valid)
    (hstart : Starts boot) (hframes : 100 < boot.memory.handedFrames.length) :
    CanMap (started boot) 0x800000 := by
  obtain ⟨-, -, hmapped⟩ := h.space hboot hstart
  obtain ⟨F, happart, hlen⟩ := h.started_apart hboot hstart hframes
  generalize started boot = k at *
  have hmissing : k.mm.missing k.current.cr3 0x800000 ≤ 3 := missingTables_le _ _ _ _
  rw [CanMap, happart.1.toNat_freeFrameCount, translate_eq_none_iff (lowerHalf_of_lt (by decide))]
  refine ⟨?_, by omega⟩
  by_contra hno
  rcases (hmapped 0x800000 (by decide)).mp hno with h | h
  · exact absurd h (by decide)
  · exact absurd h (by decide)

/-- The call `brk(r)`. -/
def brkCall (r : UInt64) : Event := .syscall { call 12 with rdi := r }

lemma execFits_brkCall (k : Kernel) (r : UInt64) : ExecFits k (brkCall r) :=
  fun hn => absurd (show syscallNumber 12 = .execve from hn) (by decide)

lemma step_brk {r v : UInt64} (h : syscallBrk r k = (.ok v, k')) : step k (brkCall r) = some k' := by
  have hn : syscallNumber ({ call 12 with rdi := r } : SyscallFrame).rax = .brk :=
    show syscallNumber 12 = .brk by decide
  have hdispatch : processSyscallDispatch { call 12 with rdi := r } k =
      (.ok (v, { call 12 with rdi := r }), k') := by
    rw [processSyscallDispatch, hn]
    dsimp only
    rw [withFrame, Prog.bind_ok h]
    rfl
  rw [brkCall, Xbks.step, hdispatch]

/-- The first process of a small machine takes one page of heap. -/
lemma SmallProgram.takes_page {entry : UInt64} (h : SmallProgram boot entry) (hboot : boot.memory.Valid)
    (hstart : Starts boot) (hframes : 100 < boot.memory.handedFrames.length) :
    ∃ k, syscallBrk 0x801000 (started boot) = (.ok 0x801000, k) ∧
      k.current.cr3 = (started boot).current.cr3 ∧ k.mm.freeFrameCount ≠ 0 := by
  obtain ⟨hbrk, -, -⟩ := h.space hboot hstart
  have hcan := h.canMap hboot hstart hframes
  obtain ⟨F, happart, hlen⟩ := h.started_apart hboot hstart hframes
  generalize started boot = k at *
  have hrefused : ¬Refused k 0x801000 := by
    rw [Refused, hbrk]
    decide
  have hpages : breakPages k 0x801000 = [0x800000] := by
    rw [breakPages, hbrk]
    decide
  have hloop := (loop_true_iff happart hrefused).mpr (canMapAll_of_canMap hpages hcan)
  obtain ⟨F', hmaps⟩ := mapUserPages_spec pageWritable happart.1 happart.2
    (fun v hv => breakPages_userPage hrefused hv) (by decide)
  have hused := hmaps.used
  rw [hpages, List.length_singleton] at hused
  rw [syscallBrk_loop hrefused]
  rw [hpages] at hloop hmaps ⊢
  rcases hr : Loop.forWhile (fun s page => mapUserPage s k.current.cr3 page pageWritable) k.mm
    [0x800000] with ⟨_ | _, mm⟩
  · rw [hr] at hloop
    cases hloop
  · rw [hr] at hmaps
    refine ⟨_, rfl, ?_, ?_⟩
    · simp [Kernel.setCurrent, Kernel.setProcess, Kernel.current]
    rw [← Word.pos_iff_ne_zero]
    change 0 < mm.freeFrameCount.toNat
    rw [hmaps.pool.toNat_freeFrameCount]
    omega

/-- In 16 MiB of memory the first process asks for almost 256 MiB. -/
lemma small_exhausts : ∃ k', syscallBrk 0xffff000 (started (smallBoot 0x10000)) = (.ok 0x800000, k') ∧
    k'.current = (started (smallBoot 0x10000)).current ∧
    vmmTranslate (started (smallBoot 0x10000)).mm (started (smallBoot 0x10000)).current.cr3 0x800000 = none ∧
    vmmTranslate k'.mm k'.current.cr3 0x800000 ≠ none := by
  obtain ⟨hbrk, -, -⟩ := smallProgram.space (smallBoot_valid _) smallBoot_starts
  have hcan := smallProgram.canMap (smallBoot_valid _) smallBoot_starts (by rw [smallBoot_frames]; norm_num)
  obtain ⟨F, howned, -⟩ := owned_started (smallBoot_valid 0x10000) smallProgram.initFits
    smallBoot_starts
  have happart := howned.apart (tableInv_started smallBoot_starts)
  have hle : F.length ≤ 4096 := by
    have hcard := congrArg Multiset.card howned.frames
    rw [Multiset.card_add, Multiset.coe_card, Multiset.coe_card, smallBoot_frames] at hcard
    omega
  generalize started (smallBoot 0x10000) = k at *
  have hrefused : ¬Refused k 0xffff000 := by
    rw [Refused, hbrk]
    decide
  have hpages : breakPages k 0xffff000 = pagesBetween 0x800000 0xffff000 := by
    rw [breakPages, hbrk]
    rfl
  have hcount : ((0xffff000 : UInt64).toNat - (0x800000 : UInt64).toNat) / 4096 = 63487 := by decide
  have hall : ¬CanMapAll k 0xffff000 := by
    intro hall
    have hneeded := (length_le_framesNeeded _ _).trans hall.2
    rw [hpages, happart.1.toNat_freeFrameCount, pagesBetween, hcount, List.length_map,
      List.length_range] at hneeded
    omega
  have hfirst : (0x800000 : UInt64) ∈ (breakPages k 0xffff000).head? := by
    rw [hpages, pagesBetween, hcount, List.head?_map, List.head?_range]
    rfl
  obtain ⟨k', hcall, -, hcurrent, hstays⟩ := first_page_stays happart hrefused hall hfirst hcan
  rw [hbrk] at hcall
  rw [← hcurrent] at hstays
  exact ⟨k', hcall, hcurrent, hcan.1, hstays⟩

/-- The first process takes a page of heap. When it has asked for too much instead, the same request fails
and leaves everything as it was. -/
theorem break_undone_small : ∃ k₁ k₂ k₃,
    syscallBrk 0x801000 (started (smallBoot 0x10000)) = (.ok 0x801000, k₁) ∧
    BreakUndone (started (smallBoot 0x10000)) 0x801000 ∧
    Run ExecFits (started (smallBoot 0x10000)) [brkCall 0xffff000] k₂ ∧
    syscallBrk 0x801000 k₂ = (.ok 0x800000, k₃) ∧ BreakUndone k₂ 0x801000 ∧ BreakKept k₂ k₃ := by
  have hvalid := smallBoot_valid 0x10000
  have hinit := smallProgram.initFits
  have hframes : 100 < (smallBoot 0x10000).memory.handedFrames.length := by
    rw [smallBoot_frames]
    norm_num
  obtain ⟨hbrk, -, -⟩ := smallProgram.space hvalid smallBoot_starts
  -- a page that can be mapped
  obtain ⟨k₁, htakes, -, -⟩ := smallProgram.takes_page hvalid smallBoot_starts hframes
  have hcan := smallProgram.canMap hvalid smallBoot_starts hframes
  have hpages : breakPages (started (smallBoot 0x10000)) 0x801000 = [0x800000] := by
    rw [breakPages, hbrk]
    decide
  have hgrows : BreakFits (started (smallBoot 0x10000)) 0x801000 :=
    .inr (.inl (canMapAll_of_canMap hpages hcan))
  -- a page that has been mapped already
  obtain ⟨k₂, hcall, hcurrent, -, hstays⟩ := small_exhausts
  have hrun : Run ExecFits (started (smallBoot 0x10000)) [brkCall 0xffff000] k₂ :=
    .snoc .nil (execFits_brkCall _ _) (step_brk hcall)
  obtain ⟨l, F, hinv, howned⟩ := owned_of_run hvalid hinit smallBoot_starts hrun
  have happart := howned.apart hinv
  have hbrk₂ : k₂.current.brk = 0x800000 := hcurrent ▸ hbrk
  have hpages₂ : breakPages k₂ 0x801000 = [0x800000] := by
    rw [breakPages, hbrk₂]
    decide
  have hrefused : ¬Refused k₂ 0x801000 := by
    rw [Refused, hbrk₂]
    decide
  have hno : ¬CanMap k₂ 0x800000 := fun hcan => hstays hcan.1
  have hfails : BreakFits k₂ 0x801000 := by
    refine .inr (.inr fun v hv => ?_)
    rw [hpages₂, List.head?_cons, Option.mem_some_iff] at hv
    rwa [← hv]
  obtain ⟨k₃, hfailed, hkept⟩ := first_page_fails happart hrefused hpages₂ hno
  rw [hbrk₂] at hfailed
  exact ⟨k₁, k₂, k₃, htakes, (break_undone_iff hvalid hinit smallBoot_starts .nil _).mpr hgrows, hrun, hfailed,
    (break_undone_iff hvalid hinit smallBoot_starts hrun _).mpr hfails, hkept⟩

/-- The page at 0x800000 is not mapped before that call, but after it, although the call answers the old
break. -/
theorem break_leaves_pages : ∃ k', syscallBrk 0xffff000 (started (smallBoot 0x10000)) =
      (.ok 0x800000, k') ∧
    vmmTranslate (started (smallBoot 0x10000)).mm (started (smallBoot 0x10000)).current.cr3
      0x800000 = none ∧
    vmmTranslate k'.mm (started (smallBoot 0x10000)).current.cr3 0x800000 ≠ none ∧
    ¬BreakUndone (started (smallBoot 0x10000)) 0xffff000 := by
  obtain ⟨k', hcall, hcurrent, hnone, hstays⟩ := small_exhausts
  refine ⟨k', hcall, hnone, hcurrent ▸ hstays, fun hundone => ?_⟩
  have hkept := (hundone _ k' hcall (by decide)).mapped 0x800000 (by decide)
  rw [hnone] at hkept
  exact hstays (Option.isSome_eq_false_iff.mp hkept |> Option.isNone_iff_eq_none.mp)

end Xbks
