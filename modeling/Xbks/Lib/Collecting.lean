import Xbks.Lib.Checked

/-!
# Collecting items

Tasks are taken one after the other. A task that is not in order is a fault, and one that is may add an
item to a list that holds at most `n` of them: the computation refuses to add more. So a task is only
looked at if the tasks before it have not overfilled the list.
-/

namespace Checked

variable {σ β : Type} (inOrder : σ → Prop) (item : σ → Option β) (n : ℕ)

/-- With `count` items to begin with, the tasks that are looked at are in order. -/
def InOrderWithin (count : ℕ) (tasks : List σ) : Prop :=
  ∀ front s back, tasks = front ++ s :: back → count + (front.filterMap item).length ≤ n → inOrder s

variable {inOrder item n} {count : ℕ} {tasks : List σ} {items : List β} {s : σ}

lemma filterMap_cons_toList : (s :: tasks).filterMap item = (item s).toList ++ tasks.filterMap item := by
  cases h : item s with
  | none => exact List.filterMap_cons_none h
  | some b => exact List.filterMap_cons_some h

lemma inOrderWithin_nil : InOrderWithin inOrder item n count [] := by
  intro front s back htasks
  simp at htasks

lemma inOrderWithin_cons : InOrderWithin inOrder item n count (s :: tasks) ↔
    (count ≤ n → inOrder s) ∧ InOrderWithin inOrder item n (count + (item s).toList.length) tasks := by
  constructor
  · intro h
    constructor
    · exact h [] s tasks rfl
    · rintro front s' back rfl hroom
      refine h (s :: front) s' back rfl ?_
      rw [filterMap_cons_toList, List.length_append, ← Nat.add_assoc]
      exact hroom
  · rintro ⟨hfirst, hrest⟩ front s' back htasks hroom
    cases front with
    | nil =>
      obtain ⟨rfl, -⟩ := List.cons_eq_cons.mp htasks
      exact hfirst hroom
    | cons s'' front =>
      rw [List.cons_append, List.cons_eq_cons] at htasks
      obtain ⟨rfl, htasks⟩ := htasks
      refine hrest front s' back htasks ?_
      rw [filterMap_cons_toList, List.length_append, ← Nat.add_assoc] at hroom
      exact hroom

/-- Once the list is overfull, no task is looked at. -/
lemma inOrderWithin_of_lt (h : n < count) : InOrderWithin inOrder item n count tasks := by
  intro front s back _ hroom
  omega

/-- If there is room for all items, all tasks are looked at. -/
lemma InOrderWithin.forall (h : InOrderWithin inOrder item n count tasks)
    (hroom : count + (tasks.filterMap item).length ≤ n) : ∀ s ∈ tasks, inOrder s := by
  intro s hs
  obtain ⟨front, back, rfl⟩ := List.append_of_mem hs
  refine h front s back rfl ?_
  rw [List.filterMap_append, List.length_append] at hroom
  omega

/-! ### Running the tasks -/

variable (item n) in
/-- Add an item if there is one, and room for it. -/
def collectItem (items : List β) : Option β → Checked (List β)
  | none => pure items
  | some b => do
    require (items.length < n)
    return items ++ [b]

variable (inOrder item n) [DecidablePred inOrder]

def collectStep (items : List β) (s : σ) : Checked (List β) :=
  if inOrder s then collectItem n items (item s) else fault

def collect (tasks : List σ) (items : List β) : Checked (List β) :=
  tasks.foldlM (collectStep inOrder item n) items

variable {inOrder item n}

lemma collect_cons : collect inOrder item n (s :: tasks) items =
    collectStep inOrder item n items s >>= collect inOrder item n tasks :=
  List.foldlM_cons

lemma collect_append {tasks' : List σ} : collect inOrder item n (tasks ++ tasks') items =
    collect inOrder item n tasks items >>= collect inOrder item n tasks' :=
  List.foldlM_append

/-- What is collected. -/
lemma answers_collect : Answers (collect inOrder item n tasks items) fun items' =>
    items' = items ++ tasks.filterMap item ∧ (items.length ≤ n → items'.length ≤ n) := by
  induction tasks generalizing items with
  | nil => exact answers_pure ⟨(List.append_nil items).symm, id⟩
  | cons s tasks ih =>
    have hstep : Answers (collectStep inOrder item n items s) fun items' =>
        items' = items ++ (item s).toList ∧ (items.length ≤ n → items'.length ≤ n) := by
      refine answers_ite (fun _ => ?_) fun _ => answers_fault
      cases item s with
      | none => exact answers_pure ⟨(List.append_nil items).symm, id⟩
      | some b =>
        refine (answers_require _).bind fun _ hroom => answers_pure ⟨rfl, fun _ => ?_⟩
        rw [decide_eq_true_eq] at hroom
        rw [List.length_append]
        exact hroom
    rw [collect_cons]
    refine hstep.bind fun items₁ h₁ => ih.mono fun items₂ h₂ => ⟨?_, fun hlen => h₂.2 (h₁.2 hlen)⟩
    rw [h₂.1, h₁.1, filterMap_cons_toList, List.append_assoc]

/-- The computation faults exactly when a task that it looks at is not in order. -/
lemma collect_ne_fault_iff (hcount : items.length ≤ n) :
    collect inOrder item n tasks items ≠ fault ↔ InOrderWithin inOrder item n items.length tasks := by
  induction tasks generalizing items with
  | nil => exact iff_of_true nofun inOrderWithin_nil
  | cons s tasks ih =>
    rw [collect_cons, inOrderWithin_cons, collectStep]
    by_cases hs : inOrder s
    · rw [if_pos hs, and_iff_right fun _ => hs]
      cases item s with
      | none => exact ih hcount
      | some b =>
        rw [collectItem, Option.toList_some, List.length_singleton]
        by_cases hroom : items.length < n
        · have hlen : (items ++ [b]).length = items.length + 1 := List.length_append
          rw [require_bind (decide_eq_true hroom), pure_eq_ok, ok_bind, ih (hlen ▸ hroom), hlen]
        · refine iff_of_true ?_ (inOrderWithin_of_lt (by omega))
          rw [require, if_neg (by simpa using hroom)]
          nofun
    · rw [if_neg hs]
      exact iff_of_false (fun h => h rfl) fun h => hs (h.1 hcount)

/-- If there is room for all items, they are collected. -/
lemma collect_eq_ok (horder : ∀ s ∈ tasks, inOrder s)
    (hroom : items.length + (tasks.filterMap item).length ≤ n) :
    collect inOrder item n tasks items = .ok (items ++ tasks.filterMap item) := by
  induction tasks generalizing items with
  | nil =>
    rw [List.filterMap_nil, List.append_nil]
    rfl
  | cons s tasks ih =>
    rw [List.forall_mem_cons] at horder
    rw [filterMap_cons_toList, List.length_append, ← Nat.add_assoc] at hroom
    have hstep : collectStep inOrder item n items s = .ok (items ++ (item s).toList) := by
      rw [collectStep, if_pos horder.1]
      cases hitem : item s with
      | none => exact congrArg _ (List.append_nil items).symm
      | some b =>
        rw [hitem, Option.toList_some, List.length_singleton] at hroom
        rw [collectItem, require_bind (decide_eq_true (by omega))]
        rfl
    rw [collect_cons, hstep, ok_bind, ih horder.2 (by rwa [List.length_append]), filterMap_cons_toList,
      List.append_assoc]

/-- What is done with the items is only reached if there is room for all of them. -/
lemma collect_bind_ne_fault_iff {γ : Type} {f : List β → Checked γ} :
    collect inOrder item n tasks [] >>= f ≠ fault ↔ InOrderWithin inOrder item n 0 tasks ∧
      ((tasks.filterMap item).length ≤ n → f (tasks.filterMap item) ≠ fault) := by
  rw [bind_ne_fault_iff, collect_ne_fault_iff (Nat.zero_le n), List.length_nil]
  refine and_congr_right fun horder => ?_
  constructor
  · intro h hroom
    have hzero : 0 + (tasks.filterMap item).length ≤ n := (Nat.zero_add _).symm ▸ hroom
    exact h _ (collect_eq_ok (horder.forall hzero) hzero)
  · intro h items hitems
    obtain ⟨rfl, hlen⟩ := answers_collect items hitems
    exact h (hlen (Nat.zero_le n))

end Checked
