import Mathlib.Data.List.Basic

/-!
# Runs of a transition system

`Run step ok s es t`: from `s` the events `es` lead to `t`, every step being taken in a state and
with an event that satisfy `ok`. A step may be impossible (`none`), in which case the run ends
before it.
-/

namespace Transition

variable {σ ε : Type*} {step : σ → ε → Option σ} {ok : σ → ε → Prop}

inductive Run (step : σ → ε → Option σ) (ok : σ → ε → Prop) (s : σ) : List ε → σ → Prop
  | nil : Run step ok s [] s
  | snoc {es : List ε} {t u : σ} {e : ε} (h : Run step ok s es t) (hok : ok t e)
      (hstep : step t e = some u) : Run step ok s (es ++ [e]) u

/-- What holds at the start and is kept by every admitted step holds in every state reached. -/
lemma Run.invariant {P : σ → Prop} {s t : σ} {es : List ε} (h : Run step ok s es t) (hs : P s)
    (hstep : ∀ {t u e}, P t → ok t e → step t e = some u → P u) : P t := by
  induction h with
  | nil => exact hs
  | snoc _ hok he ih => exact hstep ih hok he

/-- The same with what is known of the runs up to each state. -/
lemma Run.invariant_run {P : σ → Prop} {s t : σ} {es : List ε} (h : Run step ok s es t) (hs : P s)
    (hstep : ∀ {t u e es}, Run step ok s es t → P t → ok t e → step t e = some u → P u) : P t := by
  induction h with
  | nil => exact hs
  | snoc hrun hok he ih => exact hstep hrun ih hok he

lemma Run.mono {ok' : σ → ε → Prop} {s t : σ} {es : List ε} (h : Run step ok s es t)
    (hok : ∀ t e, ok t e → ok' t e) : Run step ok' s es t := by
  induction h with
  | nil => exact .nil
  | snoc _ h he ih => exact .snoc ih (hok _ _ h) he

lemma Run.trans {s t u : σ} {es es' : List ε} (h : Run step ok s es t)
    (h' : Run step ok t es' u) : Run step ok s (es ++ es') u := by
  induction h' with
  | nil => simpa using h
  | snoc _ hok he ih =>
    rw [← List.append_assoc]
    exact .snoc ih hok he

/-! ### Simulation -/

/-- Runs of a machine whose steps are a relation. -/
inductive Path {α : Type*} (R : α → ε → α → Prop) (a : α) : List ε → α → Prop
  | nil : Path R a [] a
  | snoc {es : List ε} {b c : α} {e : ε} (h : Path R a es b) (hstep : R b e c) : Path R a (es ++ [e]) c

/-- If every admitted step from a state is matched by a step of an abstract machine from any state that the
relation `sim` allows for it, then every run is matched by a run. -/
lemma Run.simulates {α : Type*} {R : α → ε → α → Prop} {sim : σ → α → Prop} {s t : σ} {a : α} {es : List ε}
    (h : Run step ok s es t) (hs : sim s a)
    (hstep : ∀ {t u e b}, sim t b → ok t e → step t e = some u → ∃ c, R b e c ∧ sim u c) :
    ∃ b, Path R a es b ∧ sim t b := by
  induction h with
  | nil => exact ⟨a, .nil, hs⟩
  | snoc _ hok he ih =>
    obtain ⟨b, hpath, hb⟩ := ih
    obtain ⟨c, hR, hc⟩ := hstep hb hok he
    exact ⟨c, .snoc hpath hR, hc⟩

end Transition
