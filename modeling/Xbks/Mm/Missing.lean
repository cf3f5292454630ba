import Xbks.Mm.Space

/-!
# Missing tables

A walk to a page takes one frame for every table that is missing on its path. Afterwards the tables
are there for all paths that start in the same way.
-/

namespace Xbks

variable {s s' : Mm} {F F' : List UInt64} {n : ℕ} {t e q flags : UInt64}

/-- The number of tables that are missing on a path. -/
def Mm.missingTables (s : Mm) : ℕ → UInt64 → List (Fin 512) → ℕ
  | n + 2, t, i :: is =>
    match userNext (n + 1) i (s.mem t i) with
    | none => n + 1
    | some b => s.missingTables (n + 1) b is
  | _, _, _ => 0

lemma missingTables_one (path : List (Fin 512)) : s.missingTables 1 t path = 0 := by
  cases path <;> rfl

lemma missingTables_zeroPage {path : List (Fin 512)} (h : s.mem t = zeroPage)
    (hpath : PathSelected (n + 1) path) : s.missingTables (n + 1) t path = n := by
  cases n with
  | zero => rfl
  | succ n =>
    obtain ⟨i, is, rfl, -, -⟩ := hpath.exists_cons
    have hnone : userNext (n + 1) i (s.mem t i) = none := by
      rw [h]
      exact userNext_zero
    rw [Mm.missingTables, hnone]

/-- A walk fails when its page is mapped already or there are fewer frames than missing tables. -/
lemma mapBelow_false_iff {path : List (Fin 512)} (hpool : Pool s F)
    (hsep : Separate s (n + 1) t F) (hpath : PathSelected (n + 1) path) (hflags : flags.toNat < 4096) :
    (mapBelow flags e (n + 1) s t path).1 = false ↔
      s.lookup (n + 1) t path ≠ none ∨ F.length < s.missingTables (n + 1) t path := by
  induction n generalizing s F t path with
  | zero =>
    obtain ⟨i, rfl, hsel⟩ := hpath.exists_singleton
    have hnone := userNext_eq_none_iff (e := s.mem t i) hsel
    rw [mapBelow, Mm.lookup, Radix.lookup_one, missingTables_one]
    by_cases hp : s.mem t i &&& pagePresent = 0
    · simp [hp, hnone.mpr hp]
    · simp [hp, userNext_of_present hsel hp]
  | succ n ih =>
    obtain ⟨i, is, rfl, hsel, his⟩ := hpath.exists_cons
    rw [Mm.lookup, Radix.lookup_succ]
    by_cases hp : s.mem t i &&& pagePresent = 0
    · have hnone := (userNext_eq_none_iff hsel).mpr hp
      rw [hnone, Option.bind_none, Mm.missingTables, hnone]
      cases F with
      | nil => simp [mapBelow, ensureNextTable, hp, hpool.alloc_nil]
      | cons f F =>
        -- the new table is empty, so all tables below it are missing
        obtain ⟨e', hens, hfill⟩ := ensureNextTable_cons hpool hsep hsel hflags hp
        have htf : f ≠ t := by
          rintro rfl
          exact hsep.notMem Radix.self_mem_nodes List.mem_cons_self
        have hzero : ((s.take f).setEntry t i e').mem f = zeroPage := by
          rw [setEntry_mem_of_ne htf, take_mem, Function.update_self]
        have hmap : mapBelow flags e (n + 2) s t (i :: is) =
            mapBelow flags e (n + 1) ((s.take f).setEntry t i e') f is := by
          simp [mapBelow, hens]
        rw [hmap, ih hfill.pool ((hsep.of_eq hfill.nodes).child hfill.child) his,
          missingTables_zeroPage hzero his, List.length_cons]
        simp [lookup_zeroPage hzero]
    · have hb := userNext_of_present hsel hp
      have hmap : mapBelow flags e (n + 2) s t (i :: is) =
          mapBelow flags e (n + 1) s (pageTableFromEntry (s.mem t i)) is := by
        simp [mapBelow, ensureNextTable, hp]
      rw [hmap, hb, Option.bind_some, Mm.missingTables, hb]
      exact ih hpool (hsep.child hb) his

lemma missingTables_le (s : Mm) (n : ℕ) (t : UInt64) (path : List (Fin 512)) :
    s.missingTables (n + 1) t path ≤ n := by
  induction n generalizing t path with
  | zero => exact (missingTables_one path).le
  | succ n ih =>
    match path with
    | [] => exact Nat.zero_le _
    | i :: is =>
      rw [Mm.missingTables]
      cases userNext (n + 1) i (s.mem t i) with
      | none => exact le_refl _
      | some b => exact (ih b is).trans (Nat.le_succ n)

lemma missingTables_congr {path : List (Fin 512)} (h : ∀ x ∈ s.tables (n + 1) t, s'.mem x = s.mem x) :
    s'.missingTables (n + 1) t path = s.missingTables (n + 1) t path := by
  induction n generalizing t path with
  | zero => rw [missingTables_one, missingTables_one]
  | succ n ih =>
    match path with
    | [] => rfl
    | i :: is =>
      rw [Mm.missingTables, Mm.missingTables, h t Radix.self_mem_tables]
      cases hb : userNext (n + 1) i (s.mem t i) with
      | none => rfl
      | some b => exact ih fun x hx => h x (Radix.mem_tables_of_child hb hx)

/-- Only the slot that a path starts with and what is below it matter. -/
lemma missingTables_of_ne {i j : Fin 512} (hji : j ≠ i) (hne : ∀ j ≠ i, s'.mem t j = s.mem t j)
    (hsub : ∀ j ≠ i, ∀ b, userNext (n + 1) j (s.mem t j) = some b →
      ∀ x ∈ s.tables (n + 1) b, s'.mem x = s.mem x) (is : List (Fin 512)) :
    s'.missingTables (n + 2) t (j :: is) = s.missingTables (n + 2) t (j :: is) := by
  rw [Mm.missingTables, Mm.missingTables, hne j hji]
  cases hb : userNext (n + 1) j (s.mem t j) with
  | none => rfl
  | some b => exact missingTables_congr (hsub j hji b hb)

/-! ### After a walk -/

/-- How many indices two paths have in common at their start. -/
def shared : List (Fin 512) → List (Fin 512) → ℕ
  | i :: is, j :: js => if i = j then shared is js + 1 else 0
  | _, _ => 0

lemma shared_cons_self (i : Fin 512) (is js : List (Fin 512)) :
    shared (i :: is) (i :: js) = shared is js + 1 := if_pos rfl

lemma shared_cons_of_ne {i j : Fin 512} (h : i ≠ j) (is js : List (Fin 512)) :
    shared (i :: is) (j :: js) = 0 := if_neg h

/-- A walk that fills the slot `i` of `t`, seen from the other slots. -/
lemma missingTables_fill {f : UInt64} {i j : Fin 512} (hsep : Separate s (n + 2) t (f :: F))
    (hji : j ≠ i) (is : List (Fin 512)) :
    ((s.take f).setEntry t i e).missingTables (n + 2) t (j :: is) =
      s.missingTables (n + 2) t (j :: is) := by
  have hft : t ≠ f := by
    rintro rfl
    exact hsep.notMem Radix.self_mem_nodes List.mem_cons_self
  refine missingTables_of_ne hji (fun j hj => ?_) (fun j _ b hb x hx => ?_) is
  · rw [setEntry_mem_self, Function.update_of_ne hj, take_mem, Function.update_of_ne hft]
  · have hxb := Radix.mem_nodes_of_mem_tables hx
    have hxt : x ≠ t := by
      rintro rfl
      exact Radix.root_notMem_child hsep.nodes hb hxb
    have hxf : x ≠ f := by
      rintro rfl
      exact hsep.notMem (Radix.mem_nodes_of_child hb hxb) List.mem_cons_self
    rw [setEntry_mem_of_ne hxt, take_mem, Function.update_of_ne hxf]

/-- The first step of a walk, with what is missing below the slot it goes through. -/
lemma mapBelow_enter {i : Fin 512} (is : List (Fin 512)) (hpool : Pool s F)
    (hsep : Separate s (n + 2) t F) (hsel : Selected (n + 1) i) (hflags : flags.toNat < 4096) :
    (F = [] ∧ mapBelow flags e (n + 2) s t (i :: is) = (false, s)) ∨
      ∃ b s₁ F₁, Ensured n t i b F F₁ s s₁ ∧
        mapBelow flags e (n + 2) s t (i :: is) = mapBelow flags e (n + 1) s₁ b is ∧
        (∀ js, PathSelected (n + 1) js → s₁.missingTables (n + 1) b js =
          min (s.missingTables (n + 2) t (i :: js)) n) ∧
        (∀ j ≠ i, ∀ js, s₁.missingTables (n + 2) t (j :: js) = s.missingTables (n + 2) t (j :: js)) ∧
        ∀ js, PathSelected (n + 1) js →
          F₁.length + s.missingTables (n + 2) t (i :: js) =
            F.length + s₁.missingTables (n + 1) b js := by
  by_cases hp : s.mem t i &&& pagePresent = 0
  · have hnone := (userNext_eq_none_iff hsel).mpr hp
    match F, hpool, hsep with
    | [], hpool, _ =>
      left
      exact ⟨rfl, by simp [mapBelow, ensureNextTable, hp, hpool.alloc_nil]⟩
    | f :: F, hpool, hsep =>
      right
      obtain ⟨e', hens, hfill⟩ := ensureNextTable_cons hpool hsep hsel hflags hp
      have hft : f ≠ t := by
        rintro rfl
        exact hsep.notMem Radix.self_mem_nodes List.mem_cons_self
      have hzero : ((s.take f).setEntry t i e').mem f = zeroPage := by
        rw [setEntry_mem_of_ne hft, take_mem, Function.update_self]
      refine ⟨f, _, F, hfill, by simp [mapBelow, hens], fun js hjs => ?_,
        fun j hj js => missingTables_fill hsep hj js, fun js hjs => ?_⟩
      · rw [missingTables_zeroPage hzero hjs, Mm.missingTables, hnone]
        simp
      · rw [missingTables_zeroPage hzero hjs, Mm.missingTables, hnone, List.length_cons]
        dsimp only
        omega
  · right
    have hb := userNext_of_present hsel hp
    have hsame : ∀ js, s.missingTables (n + 2) t (i :: js) =
        s.missingTables (n + 1) (pageTableFromEntry (s.mem t i)) js := by
      intro js
      rw [Mm.missingTables, hb]
    refine ⟨_, s, F, .refl hpool hb, by simp [mapBelow, ensureNextTable, hp], fun js _ => ?_,
      fun _ _ _ => rfl, fun js _ => by rw [hsame]⟩
    rw [hsame, min_eq_left (missingTables_le s n _ js)]

/-- A walk adds tables only, and a successful one adds those on its path. -/
lemma mapBelow_missing {path w : List (Fin 512)} (hpool : Pool s F) (hsep : Separate s (n + 1) t F)
    (hpath : PathSelected (n + 1) path) (hw : PathSelected (n + 1) w) (hflags : flags.toNat < 4096)
    (he : ∀ i, userNext 0 i e = some q) :
    (mapBelow flags e (n + 1) s t path).2.missingTables (n + 1) t w ≤ s.missingTables (n + 1) t w ∧
      ((mapBelow flags e (n + 1) s t path).1 = true →
        (mapBelow flags e (n + 1) s t path).2.missingTables (n + 1) t w =
          min (s.missingTables (n + 1) t w) (n - shared path w)) := by
  induction n generalizing s F t path w with
  | zero => simp [missingTables_one]
  | succ n ih =>
    obtain ⟨i, is, rfl, hsel, his⟩ := hpath.exists_cons
    obtain ⟨j, js, rfl, -, hjs⟩ := hw.exists_cons
    rcases mapBelow_enter (e := e) is hpool hsep hsel hflags with
      ⟨-, hmap⟩ | ⟨b, s₁, F₁, hens, hmap, hbelow, hother, -⟩
    · rw [hmap]
      exact ⟨le_refl _, by simp⟩
    · rw [hmap]
      have hsep₁ : Separate s₁ (n + 2) t F₁ := hsep.of_eq hens.nodes
      obtain ⟨F₂, heffect⟩ := mapBelow_spec hens.pool (hsep₁.child hens.child) his hflags he
      have hframe : ∀ x ∉ s₁.nodes (n + 1) b, x ∈ s₁.nodes (n + 2) t →
          (mapBelow flags e (n + 1) s₁ b is).2.mem x = s₁.mem x := by
        intro x hxb hxt
        exact heffect.frame x (fun h => hxb (Radix.mem_nodes_of_mem_tables h)) (hsep₁.notMem hxt)
      have hroot := hframe t (Radix.root_notMem_child hsep₁.nodes hens.child) Radix.self_mem_nodes
      by_cases hj : j = i
      · subst hj
        obtain ⟨hle, hok⟩ := ih hens.pool (hsep₁.child hens.child) his hjs
        have hdown : (mapBelow flags e (n + 1) s₁ b is).2.missingTables (n + 2) t (j :: js) =
            (mapBelow flags e (n + 1) s₁ b is).2.missingTables (n + 1) b js := by
          rw [Mm.missingTables, hroot, hens.child]
        rw [hbelow js hjs] at hle hok
        rw [hdown, shared_cons_self]
        refine ⟨hle.trans (min_le_left _ _), fun h => ?_⟩
        rw [hok h]
        change min (min (s.missingTables (n + 2) t (j :: js)) n) _ =
          min (s.missingTables (n + 2) t (j :: js)) _
        omega
      · have hsub := Radix.siblings_unchanged _ hsep₁.nodes hens.child
          fun x hx _ hmem => hframe x hx hmem
        rw [missingTables_of_ne hj (fun j _ => congrFun hroot j) hsub js, hother j hj js,
          shared_cons_of_ne (Ne.symm hj), Nat.sub_zero, min_eq_left (missingTables_le s (n + 1) t _)]
        exact ⟨le_refl _, fun _ => rfl⟩

/-- A successful walk takes one frame for every missing table. -/
lemma mapBelow_used {path : List (Fin 512)} (hpool : Pool s F) (hsep : Separate s (n + 1) t F)
    (hpath : PathSelected (n + 1) path) (hflags : flags.toNat < 4096)
    (hok : (mapBelow flags e (n + 1) s t path).1 = true)
    (hpool' : Pool (mapBelow flags e (n + 1) s t path).2 F') :
    F'.length + s.missingTables (n + 1) t path = F.length := by
  induction n generalizing s F t path with
  | zero =>
    obtain ⟨i, rfl, hsel⟩ := hpath.exists_singleton
    rw [mapBelow] at hok hpool'
    split_ifs at hok hpool' with hp
    have htF : t ∉ F := hsep.notMem Radix.self_mem_nodes
    rw [hpool'.unique (hpool.setEntry htF), missingTables_one, Nat.add_zero]
  | succ n ih =>
    obtain ⟨i, is, rfl, hsel, his⟩ := hpath.exists_cons
    rcases mapBelow_enter (e := e) is hpool hsep hsel hflags with
      ⟨-, hmap⟩ | ⟨b, s₁, F₁, hens, hmap, -, -, hcount⟩
    · rw [hmap] at hok
      cases hok
    · rw [hmap] at hok hpool'
      have hbelow := ih hens.pool ((hsep.of_eq hens.nodes).child hens.child) his hok hpool'
      have := hcount is his
      change F'.length + s.missingTables (n + 2) t (i :: is) = F.length
      omega

/-! ### Mapping a new page -/

variable {p v : UInt64}

/-- When mapping a new page at `v` succeeds, and what it does to the tables. -/
structure Tabled (ok : Bool) (p v : UInt64) (s s' : Mm) (F F' : List UInt64) : Prop where
  iff : ok = true ↔ s.lookup 4 p (pathOf v) = none ∧ s.missingTables 4 p (pathOf v) < F.length
  le : ∀ w, LowerHalf w → s'.missingTables 4 p (pathOf w) ≤ s.missingTables 4 p (pathOf w)
  eq : ok = true → ∀ w, LowerHalf w → s'.missingTables 4 p (pathOf w) =
    min (s.missingTables 4 p (pathOf w)) (3 - shared (pathOf v) (pathOf w))
  used : ok = true → F'.length + 1 + s.missingTables 4 p (pathOf v) = F.length

/-- Freeing a frame outside a tree leaves the tree alone. -/
lemma missingTables_free {path : List (Fin 512)} (hf : IsFrame s.hhdmOffsetValue q)
    (hq : q ∉ s.nodes 4 p) : (pmmFreeFrame s q).missingTables 4 p path = s.missingTables 4 p path := by
  refine missingTables_congr fun x hx => ?_
  rw [pmmFreeFrame_eq hf]
  refine put_mem_of_ne ?_
  rintro rfl
  exact hq (Radix.mem_nodes_of_mem_tables hx)

lemma mapNew_tabled (content : Mm → Page) (hpool : Pool s F) (hsep : Separate s 4 p F)
    (hv : LowerHalf v) (hal : v.toNat % 4096 = 0) (hflags : flags.toNat < 4096)
    (hpool' : Pool (mapNew s p v flags content).2 F') :
    Tabled (mapNew s p v flags content).1 p v s (mapNew s p v flags content).2 F F' := by
  match F, hpool, hsep with
  | [], hpool, _ =>
    have hnew : mapNew s p v flags content = (false, s) := by simp [mapNew, hpool.alloc_nil]
    rw [hnew]
    exact ⟨by simp, fun _ _ => le_refl _, by simp, by simp⟩
  | q :: F, hpool, hsep =>
    have hq := hpool.frames q List.mem_cons_self
    have hqF := (List.nodup_cons.mp hpool.nodup).1
    have hqp : q ∉ s.nodes 4 p := hsep.notMem_of_free List.mem_cons_self
    have hnew : mapNew s p v flags content =
        mapOrFree ((s.take q).setPage q (content (s.take q))) p v q flags := by
      simp [mapNew, hpool.alloc_cons, hq.ne_zero]
    rw [hnew] at hpool' ⊢
    have htab := take_setPage_tables (content (s.take q)) hsep
    have hpool₁ : Pool ((s.take q).setPage q (content (s.take q))) F := hpool.take.setPage hqF
    set s₁ := (s.take q).setPage q (content (s.take q))
    have hnodes₁ : s₁.nodes 4 p = s.nodes 4 p := take_setPage_nodes _ hsep
    have hlookup₁ : s₁.lookup 4 p (pathOf v) = s.lookup 4 p (pathOf v) := Radix.lookup_congr htab _
    have hmissing₁ : ∀ path, s₁.missingTables 4 p path = s.missingTables 4 p path :=
      fun _ => missingTables_congr htab
    have hsep₁ : Separate s₁ 4 p F := take_setPage_separate _ hsep
    have he : ∀ i, userNext 0 i (q ||| flags ||| pagePresent) = some q := fun i =>
      userNext_leafEntry (s := s) hq hflags (by simp [Selected])
    have hpath := pathSelected_pathOf hv
    have hfalse := mapBelow_false_iff (e := q ||| flags ||| pagePresent) hpool₁ hsep₁ hpath hflags
    have hmissing := fun w (hw : LowerHalf w) =>
      mapBelow_missing hpool₁ hsep₁ hpath (pathSelected_pathOf hw) hflags he
    have hused := @mapBelow_used s₁ F F' 3 p (q ||| flags ||| pagePresent) flags _ hpool₁ hsep₁ hpath
      hflags
    obtain ⟨F₂, hmap⟩ := mapBelow_spec hpool₁ hsep₁ hpath hflags he
    rw [← vmmMapPage_eq (pageOffset_eq_zero.mpr hal) (pageOffset_eq_zero.mpr hq.aligned)] at hfalse hused hmap
    simp only [← vmmMapPage_eq (pageOffset_eq_zero.mpr hal) (pageOffset_eq_zero.mpr hq.aligned),
      hmissing₁] at hmissing
    rw [hlookup₁, hmissing₁] at hfalse
    rw [mapOrFree] at hpool' ⊢
    rcases hr : vmmMapPage s₁ p v q flags with ⟨ok, s₂⟩
    rw [hr] at hfalse hmissing hused hmap hpool'
    cases ok with
    | true =>
      refine ⟨?_, fun w hw => (hmissing w hw).1, fun _ w hw => (hmissing w hw).2 rfl, fun _ => ?_⟩
      · have hno := mt hfalse.mpr (by simp)
        rw [not_or, not_not, not_lt] at hno
        rw [List.length_cons, Nat.lt_succ_iff]
        exact ⟨fun _ => hno, fun _ => rfl⟩
      · have := hused rfl hpool'
        rw [hmissing₁] at this
        rw [List.length_cons]
        omega
    | false =>
      have hqn₂ : q ∉ s₂.nodes 4 p := by
        have hin : q ∉ s₂.nodes 4 p + (F₂ : Multiset UInt64) := by
          rw [hmap.nodes, hnodes₁]
          simp [hqp, hqF]
        exact fun h => hin (Multiset.mem_add.mpr (.inl h))
      have hq₂ : IsFrame s₂.hhdmOffsetValue q := by
        rw [hmap.hhdm]
        exact hq
      refine ⟨?_, fun w hw => ?_, by simp, by simp⟩
      · have hyes := hfalse.mp rfl
        rw [List.length_cons, Nat.lt_succ_iff]
        refine ⟨fun h => absurd h Bool.false_ne_true, fun h => ?_⟩
        rcases hyes with hmapped | hfew
        · exact absurd h.1 hmapped
        · exact absurd h.2 (not_le.mpr hfew)
      · dsimp only
        rw [missingTables_free hq₂ hqn₂]
        exact (hmissing w hw).1

end Xbks
