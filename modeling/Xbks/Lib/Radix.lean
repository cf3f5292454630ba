import Mathlib.Algebra.BigOperators.Group.Finset.Basic
import Mathlib.Algebra.Order.BigOperators.Group.Finset
import Mathlib.Algebra.Order.Group.Multiset
import Mathlib.Data.Multiset.OrderedMonoid
import Mathlib.Data.Multiset.UnionInter
import Mathlib.Tactic.Abel

/-!
# Radix trees laid out in memory

A memory `m : A → I → E` gives every address a table of entries. A tree of height `n` rooted at
`a` is what one reaches from `a` by decoding entries `n` times with `next`: the addresses reached
in fewer than `n` steps are tables, those reached in exactly `n` steps are leaves. Decoding may
depend on the height of the child and on the index, so a tree may use only some of the slots of
its root.

The lemmas say how the frames and the entries of a tree depend on memory (`collect_congr`,
`lookup_congr`), and what happens when everything below one slot of a table is exchanged
(`collect_replace`, `lookup_replace`).
-/

namespace Radix

variable {A I E M : Type*} (next : ℕ → I → E → Option A)

/-- The last entry on a path of `n` indices, when every entry on the way decodes. -/
def lookup (m : A → I → E) : ℕ → A → List I → Option E
  | 1, a, [i] => (next 0 i (m a i)).map fun _ => m a i
  | n + 2, a, i :: is => (next (n + 1) i (m a i)).bind fun b => lookup m (n + 1) b is
  | _, _, _ => none

/-- The address that a path of `n` indices leads to. -/
def descend (m : A → I → E) : ℕ → A → List I → Option A
  | 0, a, [] => some a
  | n + 1, a, i :: is => (next n i (m a i)).bind fun b => descend m n b is
  | _, _, _ => none

section

variable {next} {m : A → I → E} {n : ℕ} {a : A} {i : I}

lemma descend_succ (is : List I) : descend next m (n + 1) a (i :: is) =
    (next n i (m a i)).bind fun b => descend next m n b is := rfl

@[simp] lemma lookup_one : lookup next m 1 a [i] = (next 0 i (m a i)).map fun _ => m a i := rfl

@[simp] lemma lookup_succ (is : List I) : lookup next m (n + 2) a (i :: is) =
    (next (n + 1) i (m a i)).bind fun b => lookup next m (n + 1) b is := rfl

lemma lookup_nil : lookup next m n a [] = none := by
  match n with
  | 0 | 1 | n + 2 => rfl

/-- Only paths as long as the tree is high lead to an entry. -/
lemma length_of_lookup : ∀ {n : ℕ} {a : A} {is : List I} {e : E},
    lookup next m n a is = some e → is.length = n
  | 0, _, _, _, h | 1, _, [], _, h | _ + 2, _, [], _, h => by simp [lookup] at h
  | 1, _, [_], _, _ => rfl
  | 1, _, _ :: _ :: _, _, h => by simp [lookup] at h
  | n + 2, _, i :: is, _, h => by
    rw [lookup_succ, Option.bind_eq_some_iff] at h
    obtain ⟨b, -, h⟩ := h
    rw [List.length_cons, length_of_lookup h]

end

variable [Fintype I] [AddCommMonoid M]

/-- Sum `t` over the tables and `l` over the leaves of the tree of height `n` rooted at `a`. -/
def collect (t l : A → M) (m : A → I → E) : ℕ → A → M
  | 0, a => l a
  | n + 1, a => t a + ∑ i, (next n i (m a i)).elim 0 (collect t l m n)

/-- All frames of a tree, with multiplicity. -/
abbrev nodes (m : A → I → E) : ℕ → A → Multiset A :=
  collect next (fun a => {a}) (fun a => {a}) m

/-- The frames of a tree that are read when it is walked. -/
abbrev tables (m : A → I → E) : ℕ → A → Multiset A :=
  collect next (fun a => {a}) (fun _ => 0) m

/-- The frames a tree maps. -/
abbrev leaves (m : A → I → E) : ℕ → A → Multiset A :=
  collect next (fun _ => 0) (fun a => {a}) m

variable {next} {t l : A → M} {m m' : A → I → E} {n : ℕ} {a b : A} {i : I}

@[simp] lemma collect_zero : collect next t l m 0 a = l a := rfl

lemma collect_succ :
    collect next t l m (n + 1) a = t a + ∑ i, (next n i (m a i)).elim 0 (collect next t l m n) :=
  rfl

-- the sum over all slots must never be unfolded by unification
attribute [irreducible] collect

/-! ### Membership -/

lemma self_mem_tables : a ∈ tables next m (n + 1) a := by
  simp [collect_succ]

lemma self_mem_nodes : a ∈ nodes next m n a := by
  cases n with
  | zero => simp
  | succ n => simp [collect_succ]

/-- A child's share of the sum at its parent. -/
lemma collect_child_le {t l : A → Multiset A} (h : next n i (m a i) = some b) :
    collect next t l m n b ≤ collect next t l m (n + 1) a := by
  rw [collect_succ]
  refine le_trans ?_ (Multiset.le_add_left _ _)
  refine le_trans ?_ (Finset.single_le_sum (fun _ _ => Multiset.zero_le _) (Finset.mem_univ i))
  simp [h]

lemma mem_nodes_of_child {x : A} (h : next n i (m a i) = some b) (hx : x ∈ nodes next m n b) :
    x ∈ nodes next m (n + 1) a :=
  Multiset.mem_of_le (collect_child_le h) hx

lemma mem_tables_of_child {x : A} (h : next n i (m a i) = some b) (hx : x ∈ tables next m n b) :
    x ∈ tables next m (n + 1) a :=
  Multiset.mem_of_le (collect_child_le h) hx

lemma collect_add {t t' l l' : A → M} :
    collect next (fun a => t a + t' a) (fun a => l a + l' a) m n a =
      collect next t l m n a + collect next t' l' m n a := by
  induction n generalizing a with
  | zero => simp
  | succ n ih =>
    simp only [collect_succ]
    rw [add_add_add_comm, ← Finset.sum_add_distrib]
    congr 1
    refine Finset.sum_congr rfl fun i _ => ?_
    cases next n i (m a i) with
    | none => simp
    | some b => exact ih

/-- A tree consists of its tables and its leaves. -/
lemma nodes_eq_add : nodes next m n a = tables next m n a + leaves next m n a := by
  rw [nodes, tables, leaves, ← collect_add]
  simp

lemma tables_le_nodes : tables next m n a ≤ nodes next m n a := by
  rw [nodes_eq_add]
  exact Multiset.le_add_right _ _

lemma mem_nodes_of_mem_tables {x : A} (hx : x ∈ tables next m n a) : x ∈ nodes next m n a :=
  Multiset.mem_of_le tables_le_nodes hx

lemma mem_nodes_of_mem_leaves {x : A} (hx : x ∈ leaves next m n a) : x ∈ nodes next m n a := by
  rw [nodes_eq_add]
  exact Multiset.mem_add.mpr (.inr hx)

/-- The number of pages a tree maps, slot by slot. -/
lemma card_leaves_succ : (leaves next m (n + 1) a).card =
    ∑ i, (next n i (m a i)).elim 0 fun b => (leaves next m n b).card := by
  rw [leaves, collect_succ, zero_add, Multiset.card_sum]
  refine Finset.sum_congr rfl fun i _ => ?_
  cases next n i (m a i) with
  | none => rfl
  | some b => rfl

/-- In a tree without sharing no frame is both a table and a leaf. -/
lemma notMem_tables_of_mem_leaves (hnd : (nodes next m n a).Nodup) {x : A}
    (hx : x ∈ leaves next m n a) : x ∉ tables next m n a := by
  rw [nodes_eq_add, Multiset.nodup_add] at hnd
  exact fun ht => Multiset.disjoint_left.mp hnd.2.2 ht hx

/-! ### Dependence on memory -/

/-- A tree is determined by the content of its tables. -/
lemma collect_congr (h : ∀ x ∈ tables next m n a, m' x = m x) :
    collect next t l m' n a = collect next t l m n a := by
  induction n generalizing a with
  | zero => simp
  | succ n ih =>
    rw [collect_succ, collect_succ, h a self_mem_tables]
    congr 1
    refine Finset.sum_congr rfl fun i _ => ?_
    cases hb : next n i (m a i) with
    | none => rfl
    | some b => exact ih fun x hx => h x (mem_tables_of_child hb hx)

lemma lookup_congr : ∀ {n : ℕ} {a : A} (_ : ∀ x ∈ tables next m n a, m' x = m x) (is : List I),
    lookup next m' n a is = lookup next m n a is
  | 0, _, _, _ => rfl
  | 1, _, _, [] | _ + 2, _, _, [] => rfl
  | 1, _, _, _ :: _ :: _ => rfl
  | 1, a, h, [i] => by simp [h a self_mem_tables]
  | n + 2, a, h, i :: is => by
    rw [lookup_succ, lookup_succ, h a self_mem_tables]
    cases hb : next (n + 1) i (m a i) with
    | none => rfl
    | some b => exact lookup_congr (fun x hx => h x (mem_tables_of_child hb hx)) is

/-! ### Changing what is below one slot -/

/-- Exchange everything below slot `i` of `a`, leaving the other slots and their subtrees. -/
lemma collect_replace (hne : ∀ j ≠ i, m' a j = m a j)
    (hsub : ∀ j ≠ i, ∀ b, next n j (m a j) = some b → ∀ x ∈ tables next m n b, m' x = m x) :
    collect next t l m' (n + 1) a + (next n i (m a i)).elim 0 (collect next t l m n) =
      collect next t l m (n + 1) a + (next n i (m' a i)).elim 0 (collect next t l m' n) := by
  classical
  rw [collect_succ, collect_succ, ← Finset.add_sum_erase _ _ (Finset.mem_univ i),
    ← Finset.add_sum_erase (a := i) _ (fun i => (next n i (m a i)).elim 0 _) (Finset.mem_univ i)]
  have hrest : ∑ j ∈ Finset.univ.erase i, (next n j (m' a j)).elim 0 (collect next t l m' n) =
      ∑ j ∈ Finset.univ.erase i, (next n j (m a j)).elim 0 (collect next t l m n) := by
    refine Finset.sum_congr rfl fun j hj => ?_
    have hji := Finset.ne_of_mem_erase hj
    rw [hne j hji]
    cases hb : next n j (m a j) with
    | none => rfl
    | some b => exact collect_congr (hsub j hji b hb)
  rw [hrest]
  abel

lemma lookup_replace_of_ne {j : I} (hji : j ≠ i) (hne : ∀ j ≠ i, m' a j = m a j)
    (hsub : ∀ j ≠ i, ∀ b, next n j (m a j) = some b → ∀ x ∈ tables next m n b, m' x = m x)
    (is : List I) : lookup next m' (n + 1) a (j :: is) = lookup next m (n + 1) a (j :: is) := by
  match n, is with
  | 0, [] => rw [lookup_one, lookup_one, hne j hji]
  | 0, _ :: _ => rfl
  | n + 1, is =>
    rw [lookup_succ, lookup_succ, hne j hji]
    cases hb : next (n + 1) j (m a j) with
    | none => rfl
    | some b => exact lookup_congr (hsub j hji b hb) is

/-! ### Trees without sharing -/

/-- The frames of a tree, with one slot of the root set apart. -/
lemma nodes_eq_child_add (h : next n i (m a i) = some b) :
    ∃ rest, nodes next m (n + 1) a = nodes next m n b + ({a} + rest) ∧
      ∀ j ≠ i, ∀ c, next n j (m a j) = some c → nodes next m n c ≤ rest := by
  classical
  refine ⟨∑ j ∈ Finset.univ.erase i, (next n j (m a j)).elim 0 (nodes next m n), ?_, ?_⟩
  · rw [nodes, collect_succ, ← Finset.add_sum_erase _ _ (Finset.mem_univ i), h]
    simp only [Option.elim_some]
    abel
  · intro j hj c hc
    refine le_trans ?_ (Finset.single_le_sum (fun _ _ => Multiset.zero_le _)
      (Finset.mem_erase.mpr ⟨hj, Finset.mem_univ j⟩))
    simp [hc]

lemma child_nodup (hnd : (nodes next m (n + 1) a).Nodup) (h : next n i (m a i) = some b) :
    (nodes next m n b).Nodup :=
  Multiset.nodup_of_le (collect_child_le h) hnd

lemma root_notMem_child (hnd : (nodes next m (n + 1) a).Nodup) (h : next n i (m a i) = some b) :
    a ∉ nodes next m n b := by
  obtain ⟨rest, hrest, -⟩ := nodes_eq_child_add h
  rw [hrest, Multiset.nodup_add] at hnd
  exact fun ha => Multiset.disjoint_left.mp hnd.2.2 ha (by simp)

lemma children_disjoint (hnd : (nodes next m (n + 1) a).Nodup) {j : I} (hji : j ≠ i) {c : A}
    (h : next n i (m a i) = some b) (hc : next n j (m a j) = some c) :
    ∀ x ∈ nodes next m n c, x ∉ nodes next m n b := by
  obtain ⟨rest, hrest, hle⟩ := nodes_eq_child_add h
  rw [hrest, Multiset.nodup_add] at hnd
  intro x hx hxb
  exact Multiset.disjoint_left.mp hnd.2.2 hxb
    (Multiset.mem_add.mpr (.inr (Multiset.mem_of_le (hle j hji c hc) hx)))

/-- A change confined to the frames below slot `i` leaves the other slots' subtrees alone. -/
lemma siblings_unchanged (m' : A → I → E) (hnd : (nodes next m (n + 1) a).Nodup)
    (h : next n i (m a i) = some b) (hframe : ∀ x ∉ nodes next m n b, x ≠ a →
      x ∈ nodes next m (n + 1) a → m' x = m x) :
    ∀ j ≠ i, ∀ c, next n j (m a j) = some c → ∀ x ∈ tables next m n c, m' x = m x := by
  intro j hj c hc x hx
  have hxc := mem_nodes_of_mem_tables hx
  refine hframe x (children_disjoint hnd hj h hc x hxc) ?_ (mem_nodes_of_child hc hxc)
  rintro rfl
  exact root_notMem_child hnd hc hxc

/-- A change confined to the subtree at slot `i` exchanges that subtree's frames. -/
lemma nodes_of_below (hnd : (nodes next m (n + 1) a).Nodup) (h : next n i (m a i) = some b)
    (hframe : ∀ x ∉ nodes next m n b, x ∈ nodes next m (n + 1) a → m' x = m x) :
    nodes next m' (n + 1) a + nodes next m n b = nodes next m (n + 1) a + nodes next m' n b := by
  have hroot : m' a = m a := hframe a (root_notMem_child hnd h) self_mem_nodes
  have hsub := siblings_unchanged m' hnd h fun x hx _ hmem => hframe x hx hmem
  have hrep := collect_replace (t := fun a => ({a} : Multiset A)) (l := fun a => {a})
    (fun j _ => congrFun hroot j) hsub
  simpa [hroot, h] using hrep

/-- A change confined to the subtree at slot `i` is not seen through the other slots. -/
lemma lookup_of_below (hnd : (nodes next m (n + 1) a).Nodup) (h : next n i (m a i) = some b)
    (hframe : ∀ x ∉ nodes next m n b, x ∈ nodes next m (n + 1) a → m' x = m x) {j : I}
    (hji : j ≠ i) (is : List I) :
    lookup next m' (n + 1) a (j :: is) = lookup next m (n + 1) a (j :: is) := by
  have hroot : m' a = m a := hframe a (root_notMem_child hnd h) self_mem_nodes
  exact lookup_replace_of_ne hji (fun j _ => congrFun hroot j)
    (siblings_unchanged m' hnd h fun x hx _ hmem => hframe x hx hmem) is

/-- A tree whose root decodes to nothing is just its root. -/
lemma nodes_of_all_none (h : ∀ i, next n i (m a i) = none) : nodes next m (n + 1) a = {a} := by
  rw [nodes, collect_succ]
  simp [h]

/-! ### Leaves -/

omit [Fintype I] in
/-- The entry found by `lookup` decodes to where the path leads. -/
lemma lookup_descend : ∀ {n : ℕ} {a : A} {e : E} {is : List I}
    (_ : lookup next m (n + 1) a is = some e),
    ∃ i b, next 0 i e = some b ∧ descend next m (n + 1) a is = some b
  | 0, _, _, [], h | _ + 1, _, _, [], h => by simp [lookup_nil] at h
  | 0, _, _, _ :: _ :: _, h => by simp [lookup] at h
  | 0, a, e, [i], h => by
    rw [lookup_one, Option.map_eq_some_iff] at h
    obtain ⟨b, hb, rfl⟩ := h
    exact ⟨i, b, hb, by rw [descend_succ, hb]; rfl⟩
  | n + 1, a, e, i :: is, h => by
    rw [lookup_succ, Option.bind_eq_some_iff] at h
    obtain ⟨c, hc, h⟩ := h
    obtain ⟨j, b, hb, hdescend⟩ := lookup_descend h
    exact ⟨j, b, hb, by rw [descend_succ, hc]; exact hdescend⟩

lemma descend_mem_leaves {is : List I} (h : descend next m n a is = some b) :
    b ∈ leaves next m n a := by
  induction n generalizing a is with
  | zero =>
    cases is with
    | nil =>
      cases h
      simp
    | cons i is => cases h
  | succ n ih =>
    cases is with
    | nil => cases h
    | cons i is =>
      rw [descend_succ, Option.bind_eq_some_iff] at h
      obtain ⟨c, hc, h⟩ := h
      exact Multiset.mem_of_le (collect_child_le hc) (ih h)

/-- The entry found by `lookup` decodes to a leaf of the tree. -/
lemma lookup_leaf {e : E} {is : List I} (h : lookup next m (n + 1) a is = some e) :
    ∃ i b, next 0 i e = some b ∧ b ∈ leaves next m (n + 1) a := by
  obtain ⟨i, b, hb, hdescend⟩ := lookup_descend h
  exact ⟨i, b, hb, descend_mem_leaves hdescend⟩

/-- In a tree without sharing different paths lead to different leaves. -/
lemma descend_injective {is js : List I} (hnd : (nodes next m n a).Nodup)
    (h : descend next m n a is = some b) (h' : descend next m n a js = some b) : is = js := by
  induction n generalizing a is js with
  | zero =>
    cases is with
    | nil =>
      cases js with
      | nil => rfl
      | cons j js => cases h'
    | cons i is => cases h
  | succ n ih =>
    cases is with
    | nil => cases h
    | cons i is =>
      cases js with
      | nil => cases h'
      | cons j js =>
        rw [descend_succ, Option.bind_eq_some_iff] at h h'
        obtain ⟨c, hc, h⟩ := h
        obtain ⟨c', hc', h'⟩ := h'
        by_cases hij : i = j
        · subst hij
          rw [hc] at hc'
          cases hc'
          rw [ih (child_nodup hnd hc) h h']
        · have hb := mem_nodes_of_mem_leaves (descend_mem_leaves h)
          have hb' := mem_nodes_of_mem_leaves (descend_mem_leaves h')
          exact absurd hb' (children_disjoint hnd hij hc' hc b hb)

end Radix
