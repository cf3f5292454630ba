import Mathlib.Data.List.Basic

/-!
# Intrusive singly linked lists

`Threaded null ptr link p l` says that following the links stored in the nodes, starting from the
pointer `p`, visits exactly the nodes of `l` in order and then meets the null pointer. Nodes and
pointers are different types: `ptr` gives the pointer to a node.
-/

namespace Linked

variable {A P : Type*} {null : P} {ptr : A → P} {link link' : A → P} {p : P} {l l' : List A}

def Threaded (null : P) (ptr : A → P) (link : A → P) : P → List A → Prop
  | p, [] => p = null
  | p, a :: l => p ≠ null ∧ p = ptr a ∧ Threaded null ptr link (link a) l

@[simp] lemma threaded_nil : Threaded null ptr link p [] ↔ p = null := Iff.rfl

@[simp] lemma threaded_cons {a : A} : Threaded null ptr link p (a :: l) ↔
    p ≠ null ∧ p = ptr a ∧ Threaded null ptr link (link a) l := Iff.rfl

/-- Only the links of the listed nodes matter. -/
lemma Threaded.congr (h : Threaded null ptr link p l) (hlink : ∀ a ∈ l, link' a = link a) :
    Threaded null ptr link' p l := by
  induction l generalizing p with
  | nil => exact h
  | cons a l ih =>
    obtain ⟨hp, ha, hl⟩ := h
    refine ⟨hp, ha, ?_⟩
    rw [hlink a List.mem_cons_self]
    exact ih hl fun b hb => hlink b (List.mem_cons_of_mem a hb)

/-- Memory determines the list. -/
lemma Threaded.unique (hptr : Function.Injective ptr) (h : Threaded null ptr link p l)
    (h' : Threaded null ptr link p l') : l = l' := by
  induction l generalizing p l' with
  | nil =>
    cases l' with
    | nil => rfl
    | cons b l' => exact absurd h h'.1
  | cons a l ih =>
    cases l' with
    | nil => exact absurd h' h.1
    | cons b l' =>
      obtain ⟨-, ha, hl⟩ := h
      obtain ⟨-, hb, hl'⟩ := h'
      obtain rfl := hptr (ha.symm.trans hb)
      rw [ih hl hl']

/-- What a non-null pointer at the start of a list points to is in the list. -/
lemma Threaded.mem_of_ptr (hptr : Function.Injective ptr) {b : A}
    (h : Threaded null ptr link (ptr b) l) (hb : ptr b ≠ null) : b ∈ l := by
  cases l with
  | nil => exact absurd h hb
  | cons a l =>
    obtain rfl := hptr h.2.1
    exact List.mem_cons_self

/-- The links of the listed nodes lead back into the list. -/
lemma Threaded.mem_of_link (hptr : Function.Injective ptr) {a b : A}
    (h : Threaded null ptr link p l) (ha : a ∈ l) (hlink : link a = ptr b) (hb : ptr b ≠ null) :
    b ∈ l := by
  induction l generalizing p with
  | nil => cases ha
  | cons c l ih =>
    obtain ⟨-, -, hl⟩ := h
    apply List.mem_cons_of_mem
    rcases List.mem_cons.mp ha with rfl | ha
    · rw [hlink] at hl
      exact hl.mem_of_ptr hptr hb
    · exact ih hl ha

/-- The last node links to nothing. -/
lemma Threaded.link_getLast (h : Threaded null ptr link p l) {a : A}
    (ha : l.getLast? = some a) : link a = null := by
  induction l generalizing p with
  | nil => cases ha
  | cons b l ih =>
    obtain ⟨-, -, hl⟩ := h
    cases l with
    | nil =>
      cases ha
      exact hl
    | cons c l => exact ih hl (by rwa [List.getLast?_cons_cons] at ha)

end Linked
