import Mathlib.Data.Finset.Insert
import Mathlib.Data.Finset.Erase
import Mathlib.Data.List.Induction

/-!
# Keys that are held

Some of the keys of a keyboard are watched by a single flag: a press of a watched key sets it, and a
release of one clears it. The flag shows whether a watched key is held as long as no watched key is
released while another one is held.
-/

namespace Held

inductive Action (κ : Type*)
  | press (key : κ)
  | release (key : κ)

variable {κ : Type*} [DecidableEq κ] {watched held : Finset κ} {flag : Bool} {action : Action κ}
  {actions : List (Action κ)}

namespace Action

/-- The keys that are held after the action. -/
def hold (held : Finset κ) : Action κ → Finset κ
  | press key => insert key held
  | release key => held.erase key

/-- The flag after the action. -/
def mark (watched : Finset κ) (flag : Bool) : Action κ → Bool
  | press key => if key ∈ watched then true else flag
  | release key => if key ∈ watched then false else flag

/-- A key that is not held can be pressed, and one that is held can be released. -/
def Possible (held : Finset κ) : Action κ → Prop
  | press key => key ∉ held
  | release key => key ∈ held

instance : Decidable (action.Possible held) :=
  match action with
  | press key => inferInstanceAs (Decidable (key ∉ held))
  | release key => inferInstanceAs (Decidable (key ∈ held))

/-- No watched key is released while another one is held. -/
def Alone (watched held : Finset κ) : Action κ → Prop
  | press _ => True
  | release key => key ∈ watched → ∀ other ∈ watched, other ∈ held → other = key

end Action

/-- The flag is set if and only if a watched key is held. -/
def Shows (watched held : Finset κ) (flag : Bool) : Prop := flag = true ↔ ∃ key ∈ watched, key ∈ held

lemma shows_action_iff (h : Shows watched held flag) :
    Shows watched (action.hold held) (action.mark watched flag) ↔ action.Alone watched held := by
  cases action with
  | press key =>
    refine iff_of_true ?_ trivial
    rw [Shows] at h ⊢
    rw [Action.hold, Action.mark]
    by_cases hkey : key ∈ watched
    · rw [if_pos hkey]
      exact iff_of_true rfl ⟨key, hkey, Finset.mem_insert_self key held⟩
    · rw [if_neg hkey, h]
      constructor
      · rintro ⟨other, hother, hheld⟩
        exact ⟨other, hother, Finset.mem_insert_of_mem hheld⟩
      · rintro ⟨other, hother, hheld⟩
        refine ⟨other, hother, Finset.mem_of_mem_insert_of_ne hheld ?_⟩
        rintro rfl
        exact hkey hother
  | release key =>
    rw [Shows] at h ⊢
    rw [Action.hold, Action.mark, Action.Alone]
    by_cases hkey : key ∈ watched
    · rw [if_pos hkey]
      constructor
      · intro hflag _ other hother hheld
        by_contra hne
        exact absurd (hflag.mpr ⟨other, hother, Finset.mem_erase.mpr ⟨hne, hheld⟩⟩) Bool.false_ne_true
      · intro halone
        refine iff_of_false Bool.false_ne_true ?_
        rintro ⟨other, hother, hheld⟩
        obtain ⟨hne, hheld⟩ := Finset.mem_erase.mp hheld
        exact hne (halone hkey other hother hheld)
    · rw [if_neg hkey, h]
      refine iff_of_true ?_ fun hmem => absurd hmem hkey
      constructor
      · rintro ⟨other, hother, hheld⟩
        refine ⟨other, hother, Finset.mem_erase.mpr ⟨?_, hheld⟩⟩
        rintro rfl
        exact hkey hother
      · rintro ⟨other, hother, hheld⟩
        exact ⟨other, hother, Finset.mem_of_mem_erase hheld⟩

/-! ### Sequences of actions -/

def heldAfter (actions : List (Action κ)) : Finset κ := actions.foldl Action.hold ∅

def flagAfter (watched : Finset κ) (actions : List (Action κ)) : Bool :=
  actions.foldl (Action.mark watched) false

/-- The presses and releases of each key alternate. -/
def Alternate (held : Finset κ) : List (Action κ) → Prop
  | [] => True
  | action :: actions => action.Possible held ∧ Alternate (action.hold held) actions

instance decidableAlternate : (held : Finset κ) → (actions : List (Action κ)) → Decidable (Alternate held actions)
  | _, [] => inferInstanceAs (Decidable True)
  | held, action :: actions =>
    have := decidableAlternate (action.hold held) actions
    inferInstanceAs (Decidable (action.Possible held ∧ Alternate (action.hold held) actions))

@[simp] lemma heldAfter_concat : heldAfter (actions ++ [action]) = action.hold (heldAfter actions) :=
  List.foldl_concat _ _ _ _

@[simp] lemma flagAfter_concat :
    flagAfter watched (actions ++ [action]) = action.mark watched (flagAfter watched actions) :=
  List.foldl_concat _ _ _ _

lemma shows_nil : Shows watched (heldAfter []) (flagAfter watched []) :=
  iff_of_false Bool.false_ne_true fun ⟨_, _, hheld⟩ => Finset.notMem_empty _ hheld

/-- After every action the flag shows whether a watched key is held, exactly when every watched key is
released alone. -/
theorem shows_all_iff :
    (∀ front, front <+: actions → Shows watched (heldAfter front) (flagAfter watched front)) ↔
      ∀ front action, front ++ [action] <+: actions → action.Alone watched (heldAfter front) := by
  constructor
  · intro h front action hfront
    have hbefore := h front ((List.prefix_append front [action]).trans hfront)
    have hafter := h (front ++ [action]) hfront
    rw [heldAfter_concat, flagAfter_concat] at hafter
    exact (shows_action_iff hbefore).mp hafter
  · intro h front
    induction front using List.reverseRecOn with
    | nil =>
      intro _
      exact shows_nil
    | append_singleton front action ih =>
      intro hfront
      have hbefore := ih ((List.prefix_append front [action]).trans hfront)
      rw [heldAfter_concat, flagAfter_concat]
      exact (shows_action_iff hbefore).mpr (h front action hfront)

end Held
