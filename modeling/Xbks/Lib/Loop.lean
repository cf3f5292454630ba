import Mathlib.Logic.Relation

/-!
# Loops

`for` loops over an explicit state. `forWhile` is a loop whose body can leave the enclosing
function with `false`; a loop that always runs to its end is a `List.foldl`. The rules carry a
reflexive and transitive relation, or an invariant, from one iteration to the whole loop.
-/

namespace Loop

variable {σ ι : Type*}

/-- Run `body` over the list; stop with `false` at the first iteration that answers `false`. -/
def forWhile (body : σ → ι → Bool × σ) : σ → List ι → Bool × σ
  | s, [] => (true, s)
  | s, x :: xs =>
    match body s x with
    | (true, s) => forWhile body s xs
    | (false, s) => (false, s)

variable {body : σ → ι → Bool × σ} {s : σ} {x : ι} {xs : List ι}

@[simp] lemma forWhile_nil : forWhile body s [] = (true, s) := rfl

lemma forWhile_cons_true (h : (body s x).1 = true) :
    forWhile body s (x :: xs) = forWhile body (body s x).2 xs := by
  rcases hb : body s x with ⟨ok, t⟩
  simp only [hb] at h
  simp [forWhile, hb, h]

lemma forWhile_cons_false (h : (body s x).1 = false) :
    forWhile body s (x :: xs) = (false, (body s x).2) := by
  rcases hb : body s x with ⟨ok, t⟩
  simp only [hb] at h
  simp [forWhile, hb, h]

/-- Two loops are the same when their bodies agree on the iterations reached. Those before answered
`true`, which `P` records. -/
lemma forWhile_congr {body' : σ → ι → Bool × σ} {P : ι → Prop}
    (hP : ∀ s x, (body s x).1 = true → P x)
    (h : ∀ s before x after, xs = before ++ x :: after → (∀ y ∈ before, P y) →
      body' s x = body s x) : forWhile body' s xs = forWhile body s xs := by
  induction xs generalizing s with
  | nil => rfl
  | cons x xs ih =>
    rw [forWhile, forWhile, h s [] x xs rfl (by simp)]
    rcases hb : body s x with ⟨_ | _, t⟩
    · rfl
    · refine ih fun s before y after heq hbefore => ?_
      refine h s (x :: before) y after (by rw [heq, List.cons_append]) fun z hz => ?_
      rcases List.mem_cons.mp hz with rfl | hz
      · exact hP _ _ (by rw [hb])
      · exact hbefore z hz

/-- A preorder kept by every iteration that is reached is kept by the loop. -/
lemma forWhile_rel_reached {R : σ → σ → Prop} {P : ι → Prop} (hrefl : ∀ s, R s s)
    (htrans : ∀ {s t u}, R s t → R t u → R s u) (hP : ∀ s x, (body s x).1 = true → P x)
    (hbody : ∀ s before x after, xs = before ++ x :: after → (∀ y ∈ before, P y) →
      R s (body s x).2) : R s (forWhile body s xs).2 := by
  induction xs generalizing s with
  | nil => exact hrefl s
  | cons x xs ih =>
    have hx := hbody s [] x xs rfl (by simp)
    cases h : (body s x).1 with
    | true =>
      rw [forWhile_cons_true h]
      refine htrans hx (ih fun s before y after heq hbefore => ?_)
      refine hbody s (x :: before) y after (by rw [heq, List.cons_append]) fun z hz => ?_
      rcases List.mem_cons.mp hz with rfl | hz
      · exact hP _ _ h
      · exact hbefore z hz
    | false =>
      rw [forWhile_cons_false h]
      exact hx

/-- A preorder kept by every iteration is kept by the loop. -/
lemma forWhile_rel {R : σ → σ → Prop} (hrefl : ∀ s, R s s)
    (htrans : ∀ {s t u}, R s t → R t u → R s u) (hbody : ∀ s, ∀ x ∈ xs, R s (body s x).2) :
    R s (forWhile body s xs).2 := by
  refine forWhile_rel_reached (P := fun _ => True) hrefl htrans (fun _ _ _ => trivial) ?_
  intro s before x after heq _
  exact hbody s x (by rw [heq]; exact List.mem_append.mpr (.inr List.mem_cons_self))

end Loop
