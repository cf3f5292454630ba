import Xbks.Mm.Tree

/-!
# Mapping a page

The effect of `ensureNextTable` and `vmmMapPage` on the frames of a tree, on what it maps and on
the rest of memory, whether or not the allocator runs out on the way.
-/

namespace Xbks

variable {s s' : Mm} {F F' : List UInt64} {n : ℕ} {t b q flags e : UInt64} {i : Fin 512}

/-- No frame is used twice by a tree and the free list together. -/
def Separate (s : Mm) (n : ℕ) (t : UInt64) (F : List UInt64) : Prop :=
  (s.nodes n t + (F : Multiset UInt64)).Nodup

lemma Separate.nodes (h : Separate s n t F) : (s.nodes n t).Nodup :=
  (Multiset.nodup_add.mp h).1

lemma Separate.notMem (h : Separate s n t F) {x : UInt64} (hx : x ∈ s.nodes n t) : x ∉ F := by
  intro hF
  exact Multiset.disjoint_left.mp (Multiset.nodup_add.mp h).2.2 hx (Multiset.mem_coe.mpr hF)

lemma Separate.notMem_of_free (h : Separate s n t F) {x : UInt64} (hx : x ∈ F) :
    x ∉ s.nodes n t :=
  fun hn => h.notMem hn hx

lemma Separate.of_eq (h : Separate s n t F)
    (heq : s'.nodes n t + (F' : Multiset UInt64) = s.nodes n t + (F : Multiset UInt64)) :
    Separate s' n t F' := by
  rw [Separate, heq]
  exact h

/-- A subtree and the free list are separate too. -/
lemma Separate.child (h : Separate s (n + 1) t F) (hb : userNext n i (s.mem t i) = some b) :
    Separate s n b F :=
  Multiset.nodup_of_le (add_le_add_left (Radix.collect_child_le hb) _) h

/-! ### One level -/

/-- What `ensureNextTable` achieves at slot `i` of a table `t` of height `n + 2` when it answers
the table `b`. -/
structure Ensured (n : ℕ) (t : UInt64) (i : Fin 512) (b : UInt64) (F F' : List UInt64)
    (s s' : Mm) : Prop where
  pool : Pool s' F'
  hhdm : s'.hhdmOffsetValue = s.hhdmOffsetValue
  kernelCr3 : s'.kernelCr3Value = s.kernelCr3Value
  child : userNext (n + 1) i (s'.mem t i) = some b
  nodes : s'.nodes (n + 2) t + (F' : Multiset UInt64) = s.nodes (n + 2) t + (F : Multiset UInt64)
  lookup : ∀ path, s'.lookup (n + 2) t path = s.lookup (n + 2) t path
  tables : ∀ x, x ∉ F → x ∈ s'.tables (n + 2) t → x ∈ s.tables (n + 2) t
  frame : ∀ x, x ≠ t → x ∉ F → s'.mem x = s.mem x
  slots : ∀ j ≠ i, s'.mem t j = s.mem t j
  used : F.length ≤ F'.length + 1
  free : ∀ x ∈ F', x ∈ F

/-- The entry was there already. -/
lemma Ensured.refl (hpool : Pool s F) (hb : userNext (n + 1) i (s.mem t i) = some b) :
    Ensured n t i b F F s s where
  pool := hpool
  hhdm := rfl
  kernelCr3 := rfl
  child := hb
  nodes := rfl
  lookup _ := rfl
  tables _ _ hx := hx
  frame _ _ _ := rfl
  slots _ _ := rfl
  used := Nat.le_succ _
  free _ hx := hx

/-- Put the freshly cleared frame `f` into an empty slot. -/
lemma Ensured.fill {f : UInt64} (hpool : Pool s (f :: F)) (hsep : Separate s (n + 2) t (f :: F))
    (hsel : Selected (n + 1) i) (hnone : userNext (n + 1) i (s.mem t i) = none)
    (he : userNext (n + 1) i e = some f) :
    Ensured n t i f (f :: F) F s ((s.take f).setEntry t i e) := by
  have htF : t ∉ f :: F := hsep.notMem Radix.self_mem_nodes
  have htf : f ≠ t := by
    rintro rfl
    exact htF List.mem_cons_self
  have hmemt : ((s.take f).setEntry t i e).mem t = Function.update (s.mem t) i e := by
    rw [setEntry_mem_self, take_mem, Function.update_of_ne htf.symm]
  have hmemf : ((s.take f).setEntry t i e).mem f = zeroPage := by
    rw [setEntry_mem_of_ne htf, take_mem, Function.update_self]
  have hframe : ∀ x, x ≠ t → x ≠ f → ((s.take f).setEntry t i e).mem x = s.mem x := by
    intro x hxt hxf
    rw [setEntry_mem_of_ne hxt, take_mem, Function.update_of_ne hxf]
  have hslots : ∀ j ≠ i, ((s.take f).setEntry t i e).mem t j = s.mem t j := by
    intro j hj
    rw [hmemt, Function.update_of_ne hj]
  -- the subtrees below the other slots contain neither `t` nor the free frame `f`
  have hsub : ∀ j ≠ i, ∀ c, userNext (n + 1) j (s.mem t j) = some c →
      ∀ x ∈ s.tables (n + 1) c, ((s.take f).setEntry t i e).mem x = s.mem x := by
    intro j _ c hc x hx
    have hxc := Radix.mem_nodes_of_mem_tables hx
    refine hframe x ?_ ?_
    · rintro rfl
      exact Radix.root_notMem_child hsep.nodes hc hxc
    · rintro rfl
      exact hsep.notMem (Radix.mem_nodes_of_child hc hxc) List.mem_cons_self
  have hchild : userNext (n + 1) i (((s.take f).setEntry t i e).mem t i) = some f := by
    rw [hmemt, Function.update_self, he]
  have hzero := nodes_zeroPage (n := n) hmemf
  have hnodes : ((s.take f).setEntry t i e).nodes (n + 2) t = s.nodes (n + 2) t + {f} := by
    have hrep := Radix.collect_replace (t := fun a => ({a} : Multiset UInt64)) (l := fun a => {a})
      hslots hsub
    rw [hnone, hchild, Option.elim_none, Option.elim_some, add_zero] at hrep
    exact hrep.trans (congrArg _ hzero)
  have htables : ((s.take f).setEntry t i e).tables (n + 2) t =
      s.tables (n + 2) t + ((s.take f).setEntry t i e).tables (n + 1) f := by
    have hrep := Radix.collect_replace (t := fun a => ({a} : Multiset UInt64)) (l := fun _ => 0)
      hslots hsub
    rwa [hnone, hchild, Option.elim_none, Option.elim_some, add_zero] at hrep
  refine
    { pool := hpool.take.setEntry fun h => htF (List.mem_cons_of_mem f h)
      hhdm := rfl
      kernelCr3 := rfl
      child := hchild
      nodes := ?_
      lookup := ?_
      tables := ?_
      frame := fun x hxt hxF => hframe x hxt fun h => hxF (h ▸ List.mem_cons_self)
      slots := hslots
      used := le_refl _
      free := fun x hx => List.mem_cons_of_mem f hx }
  · rw [hnodes, add_assoc, Multiset.singleton_add, Multiset.cons_coe]
  · intro path
    match path with
    | [] => rw [Mm.lookup, Mm.lookup, Radix.lookup_nil, Radix.lookup_nil]
    | j :: is =>
      by_cases hj : j = i
      · subst hj
        rw [Mm.lookup, Mm.lookup, Radix.lookup_succ, Radix.lookup_succ, hchild, hnone,
          Option.bind_some, Option.bind_none]
        exact lookup_zeroPage hmemf is
      · exact Radix.lookup_replace_of_ne hj hslots hsub is
  · intro x hxF hx
    rw [htables, Multiset.mem_add] at hx
    refine hx.resolve_right fun hx => hxF ?_
    have hxf : x ∈ ((s.take f).setEntry t i e).nodes (n + 1) f := Radix.mem_nodes_of_mem_tables hx
    rw [hzero, Multiset.mem_singleton] at hxf
    exact hxf ▸ List.mem_cons_self

/-- An empty slot is filled with the first free frame. -/
lemma ensureNextTable_cons {f : UInt64} (hpool : Pool s (f :: F))
    (hsep : Separate s (n + 2) t (f :: F)) (hsel : Selected (n + 1) i) (hflags : flags.toNat < 4096)
    (hp : s.mem t i &&& pagePresent = 0) :
    ∃ e, ensureNextTable s t i flags = (some f, (s.take f).setEntry t i e) ∧
      Ensured n t i f (f :: F) F s ((s.take f).setEntry t i e) := by
  have hf := hpool.frames f List.mem_cons_self
  have he := userNext_tableEntry (n := n + 1) hf hflags hsel
  have henter := Ensured.fill hpool hsep hsel ((userNext_eq_none_iff hsel).mpr hp) he
  obtain ⟨-, -, hb⟩ := userNext_eq_some henter.child
  refine ⟨_, ?_, henter⟩
  simp only [ensureNextTable, if_pos hp, hpool.alloc_cons, if_neg hf.ne_zero]
  rw [← hb]

/-- `ensureNextTable` answers a table unless the slot is empty and no frame is left. -/
lemma ensureNextTable_spec (hpool : Pool s F) (hsep : Separate s (n + 2) t F)
    (hsel : Selected (n + 1) i) (hflags : flags.toNat < 4096) :
    (F = [] ∧ userNext (n + 1) i (s.mem t i) = none ∧ ensureNextTable s t i flags = (none, s)) ∨
      ∃ b s' F', ensureNextTable s t i flags = (some b, s') ∧ Ensured n t i b F F' s s' := by
  by_cases hp : s.mem t i &&& pagePresent = 0
  · have hnone := (userNext_eq_none_iff hsel).mpr hp
    match F, hpool, hsep with
    | [], hpool, _ =>
      left
      exact ⟨rfl, hnone, by simp [ensureNextTable, hp, hpool.alloc_nil]⟩
    | f :: F, hpool, hsep =>
      right
      obtain ⟨e, hens, henter⟩ := ensureNextTable_cons hpool hsep hsel hflags hp
      exact ⟨f, _, F, hens, henter⟩
  · right
    have hb := userNext_of_present hsel hp
    exact ⟨_, s, F, by simp [ensureNextTable, hp], .refl hpool hb⟩

/-! ### The whole walk -/

/-- `vmmMapPage` continued from a table of height `n`: write `entry` at the end of the path,
filling in missing tables. -/
def mapBelow (flags entry : UInt64) : ℕ → Mm → UInt64 → List (Fin 512) → Bool × Mm
  | 1, s, pt, [i] =>
    if s.mem pt i &&& pagePresent ≠ 0 then (false, s) else (true, s.setEntry pt i entry)
  | n + 2, s, table, i :: is =>
    match ensureNextTable s table i flags with
    | (none, s) => (false, s)
    | (some b, s) => mapBelow flags entry (n + 1) s b is
  | _, s, _, _ => (false, s)

/-- The four table indices of an address. -/
def pathOf (virtualAddress : UInt64) : List (Fin 512) :=
  [tableIndex virtualAddress 39, tableIndex virtualAddress 30, tableIndex virtualAddress 21,
    tableIndex virtualAddress 12]

lemma vmmMapPage_eq {p v q : UInt64} (hv : v &&& (pageSize - 1) = 0)
    (hq : q &&& (pageSize - 1) = 0) :
    vmmMapPage s p v q flags = mapBelow flags (q ||| flags ||| pagePresent) 4 s p (pathOf v) := by
  have hal : ¬(v &&& (pageSize - 1) ≠ 0 ∨ q &&& (pageSize - 1) ≠ 0) := by simp [hv, hq]
  rw [vmmMapPage, if_neg hal]
  rfl

/-- Every index of a path from a table of height `n` belongs to the user's tree. -/
def PathSelected : ℕ → List (Fin 512) → Prop
  | n + 1, i :: is => Selected n i ∧ PathSelected n is
  | 0, [] => True
  | _, _ => False

lemma PathSelected.exists_cons {path : List (Fin 512)} (h : PathSelected (n + 1) path) :
    ∃ i is, path = i :: is ∧ Selected n i ∧ PathSelected n is := by
  cases path with
  | nil => exact h.elim
  | cons i is => exact ⟨i, is, rfl, h⟩

lemma PathSelected.exists_singleton {path : List (Fin 512)} (h : PathSelected 1 path) :
    ∃ i, path = [i] ∧ Selected 0 i := by
  obtain ⟨i, is, rfl, hsel, his⟩ := h.exists_cons
  cases is with
  | nil => exact ⟨i, rfl, hsel⟩
  | cons j is => exact his.elim

/-- The effect of `mapBelow` answering `ok`: `path` now ends in the entry `e`, which points to `q`,
or nothing is mapped that was not mapped before. -/
structure MapEffect (ok : Bool) (n : ℕ) (t : UInt64) (path : List (Fin 512)) (e q : UInt64)
    (F F' : List UInt64) (s s' : Mm) : Prop where
  pool : Pool s' F'
  hhdm : s'.hhdmOffsetValue = s.hhdmOffsetValue
  kernelCr3 : s'.kernelCr3Value = s.kernelCr3Value
  nodes : s'.nodes n t + (F' : Multiset UInt64) =
    s.nodes n t + (F : Multiset UInt64) + (if ok then {q} else 0)
  lookup : ∀ is, s'.lookup n t is = if ok = true ∧ is = path then some e else s.lookup n t is
  frame : ∀ x, x ∉ s.tables n t → x ∉ F → s'.mem x = s.mem x
  slots : ∀ j, path.head? ≠ some j → s'.mem t j = s.mem t j
  used : F.length + 1 ≤ F'.length + n
  free : ∀ x ∈ F', x ∈ F
  fresh : ok = true → s.lookup n t path = none
  stuck : ok = false → s.lookup n t path ≠ none ∨ F' = []

/-- The page table itself: its entry is written if it was empty. -/
lemma mapBelow_one (hpool : Pool s F) (hsep : Separate s 1 t F) (hsel : Selected 0 i)
    (he : userNext 0 i e = some q) :
    MapEffect (mapBelow flags e 1 s t [i]).1 1 t [i] e q F F s (mapBelow flags e 1 s t [i]).2 := by
  have htF : t ∉ F := hsep.notMem Radix.self_mem_nodes
  by_cases hp : s.mem t i &&& pagePresent = 0
  · have hnone := (userNext_eq_none_iff hsel).mpr hp
    have hslots : ∀ j ≠ i, (s.setEntry t i e).mem t j = s.mem t j := by
      intro j hj
      rw [setEntry_mem_self, Function.update_of_ne hj]
    have hchild : userNext 0 i ((s.setEntry t i e).mem t i) = some q := by
      rw [setEntry_mem_self, Function.update_self, he]
    have hsub : ∀ j ≠ i, ∀ c, userNext 0 j (s.mem t j) = some c →
        ∀ x ∈ s.tables 0 c, (s.setEntry t i e).mem x = s.mem x := by
      intro j _ c _ x hx
      simp at hx
    have hnodes : (s.setEntry t i e).nodes 1 t = s.nodes 1 t + {q} := by
      have hrep := Radix.collect_replace (t := fun a => ({a} : Multiset UInt64)) (l := fun a => {a})
        hslots hsub
      rw [hnone, hchild, Option.elim_none, Option.elim_some, add_zero, Radix.collect_zero] at hrep
      exact hrep
    have hmap : mapBelow flags e 1 s t [i] = (true, s.setEntry t i e) := by simp [mapBelow, hp]
    rw [hmap]
    refine
      { pool := hpool.setEntry htF
        hhdm := rfl
        kernelCr3 := rfl
        nodes := ?_
        lookup := ?_
        frame := ?_
        slots := fun j hj => hslots j fun h => hj (by simp [h])
        used := le_refl _
        free := fun _ hx => hx
        fresh := fun _ => by simp [hnone]
        stuck := by simp }
    · rw [hnodes, if_pos rfl]
      abel
    · intro is
      match is with
      | [] => simp [Radix.lookup_nil]
      | _ :: _ :: _ => simp [Radix.lookup]
      | [j] =>
        by_cases hj : j = i
        · subst hj
          simp [he]
        · simp [Radix.lookup_replace_of_ne hj hslots hsub, hj]
    · intro x hx _
      rw [setEntry_mem_of_ne]
      rintro rfl
      exact hx Radix.self_mem_tables
  · have hmap : mapBelow flags e 1 s t [i] = (false, s) := by simp [mapBelow, hp]
    have hsome := userNext_of_present hsel hp
    rw [hmap]
    exact
      { pool := hpool
        hhdm := rfl
        kernelCr3 := rfl
        nodes := by simp
        lookup := by simp
        frame := fun _ _ _ => rfl
        slots := fun _ _ => rfl
        used := le_refl _
        free := fun _ hx => hx
        fresh := by simp
        stuck := fun _ => .inl (by simp [hsome]) }

/-- One level up: a walk that succeeds or fails below slot `i` does so from `t` as well. -/
lemma MapEffect.up {ok : Bool} {path : List (Fin 512)} {s₁ s₂ : Mm} {F₁ F₂ : List UInt64}
    (hsep : Separate s (n + 2) t F) (hens : Ensured n t i b F F₁ s s₁)
    (hmap : MapEffect ok (n + 1) b path e q F₁ F₂ s₁ s₂) :
    MapEffect ok (n + 2) t (i :: path) e q F F₂ s s₂ := by
  have hsep₁ : Separate s₁ (n + 2) t F₁ := hsep.of_eq hens.nodes
  have htb : t ∉ s₁.nodes (n + 1) b := Radix.root_notMem_child hsep₁.nodes hens.child
  have htF₁ : t ∉ F₁ := hsep₁.notMem Radix.self_mem_nodes
  have hbelow : ∀ x ∉ s₁.nodes (n + 1) b, x ∈ s₁.nodes (n + 2) t → s₂.mem x = s₁.mem x := by
    intro x hxb hxt
    exact hmap.frame x (fun h => hxb (Radix.mem_nodes_of_mem_tables h)) (hsep₁.notMem hxt)
  have hroot : s₂.mem t = s₁.mem t := hbelow t htb Radix.self_mem_nodes
  have hnodes : s₂.nodes (n + 2) t + s₁.nodes (n + 1) b = s₁.nodes (n + 2) t + s₂.nodes (n + 1) b :=
    Radix.nodes_of_below hsep₁.nodes hens.child hbelow
  have hlookup : ∀ is, s.lookup (n + 2) t (i :: is) = s₁.lookup (n + 1) b is := by
    intro is
    rw [← hens.lookup, Mm.lookup, Radix.lookup_succ, hens.child, Option.bind_some]
  refine
    { pool := hmap.pool
      hhdm := hmap.hhdm.trans hens.hhdm
      kernelCr3 := hmap.kernelCr3.trans hens.kernelCr3
      nodes := ?_
      lookup := ?_
      frame := ?_
      slots := ?_
      used := by have := hens.used; have := hmap.used; omega
      free := fun x hx => hens.free x (hmap.free x hx)
      fresh := fun h => (hlookup path).trans (hmap.fresh h)
      stuck := fun h => by rw [hlookup]; exact hmap.stuck h }
  · have h₁ := hens.nodes
    have h₂ := hmap.nodes
    apply add_right_cancel (b := s₁.nodes (n + 1) b)
    calc s₂.nodes (n + 2) t + F₂ + s₁.nodes (n + 1) b
        = s₂.nodes (n + 2) t + s₁.nodes (n + 1) b + F₂ := by abel
      _ = s₁.nodes (n + 2) t + (s₂.nodes (n + 1) b + F₂) := by rw [hnodes]; abel
      _ = s₁.nodes (n + 2) t + F₁ + s₁.nodes (n + 1) b + (if ok then {q} else 0) := by
        rw [h₂]; abel
      _ = _ := by rw [h₁]; abel
  · intro is
    match is with
    | [] => simp [Radix.lookup_nil]
    | j :: is =>
      by_cases hj : j = i
      · subst hj
        rw [hlookup, Mm.lookup, Radix.lookup_succ, hroot, hens.child, Option.bind_some]
        simpa using hmap.lookup is
      · rw [if_neg (by simp [hj]), ← hens.lookup]
        exact Radix.lookup_of_below hsep₁.nodes hens.child hbelow hj is
  · intro x hxt hxF
    have hne : x ≠ t := fun h => hxt (h ▸ Radix.self_mem_tables)
    rw [← hens.frame x hne hxF]
    refine hmap.frame x (fun h => hxt (hens.tables x hxF ?_)) fun h => hxF (hens.free x h)
    exact Radix.mem_tables_of_child hens.child h
  · intro j hj
    rw [hroot]
    exact hens.slots j fun h => hj (by simp [h])

/-- The walk from a table of any height, by induction on the height. -/
theorem mapBelow_spec {path : List (Fin 512)} (hpool : Pool s F) (hsep : Separate s (n + 1) t F)
    (hpath : PathSelected (n + 1) path) (hflags : flags.toNat < 4096)
    (he : ∀ i, userNext 0 i e = some q) :
    ∃ F', MapEffect (mapBelow flags e (n + 1) s t path).1 (n + 1) t path e q F F' s
      (mapBelow flags e (n + 1) s t path).2 := by
  induction n generalizing s F t path with
  | zero =>
    obtain ⟨i, rfl, hsel⟩ := hpath.exists_singleton
    exact ⟨F, mapBelow_one hpool hsep hsel (he i)⟩
  | succ n ih =>
    obtain ⟨i, is, rfl, hsel, his⟩ := hpath.exists_cons
    rcases ensureNextTable_spec hpool hsep hsel hflags with
      ⟨rfl, hnone, hens⟩ | ⟨b, s₁, F₁, hens, hspec⟩
    · have hmap : mapBelow flags e (n + 2) s t (i :: is) = (false, s) := by
        simp [mapBelow, hens]
      rw [hmap]
      exact ⟨[],
        { pool := hpool
          hhdm := rfl
          kernelCr3 := rfl
          nodes := by simp
          lookup := by simp
          frame := fun _ _ _ => rfl
          slots := fun _ _ => rfl
          used := by simp
          free := fun _ hx => hx
          fresh := by simp
          stuck := fun _ => .inr rfl }⟩
    · have hmap : mapBelow flags e (n + 2) s t (i :: is) = mapBelow flags e (n + 1) s₁ b is := by
        simp [mapBelow, hens]
      rw [hmap]
      have hsep₁ := (hsep.of_eq hspec.nodes).child hspec.child
      obtain ⟨F₂, hF₂⟩ := ih hspec.pool hsep₁ his
      exact ⟨F₂, .up hsep hspec hF₂⟩

end Xbks
