import Mathlib.Algebra.Order.Group.Multiset
import Xbks.Lib.Run

/-!
# Balance over runs

What is seen at the steps of a run is collected in a list. A stock that grows at every step by what comes in and
shrinks by what goes out balances over the whole run: nothing is lost and nothing is counted twice.
-/

namespace Transition

variable {σ ε β : Type*} {step : σ → ε → Option σ} {ok : σ → ε → Prop} {see : σ → ε → List β}
  {s t u : σ} {es : List ε}

/-- What is seen at the steps of a run, in their order. -/
def observed (step : σ → ε → Option σ) (see : σ → ε → List β) (s : σ) : List ε → List β
  | [] => []
  | e :: es => see s e ++ (step s e).elim [] fun t => observed step see t es

/-- What is seen after a run has been taken. -/
lemma Run.observed_append (h : Run step ok s es t) (es' : List ε) :
    observed step see s (es ++ es') = observed step see s es ++ observed step see t es' := by
  induction h generalizing es' with
  | nil => rfl
  | snoc h hok he ih => simp [ih, observed, he]

lemma Run.observed_concat {e : ε} (h : Run step ok s es t) (he : step t e = some u) :
    observed step see s (es ++ [e]) = observed step see s es ++ see t e := by
  rw [h.observed_append, observed, he, Option.elim_some, observed, List.append_nil]

/-- A relation between states that follows what is seen, and composes, follows what is seen over a run. -/
lemma Run.follows {P : σ → Prop} {R : List β → σ → σ → Prop} (h : Run step ok s es t) (hs : P s)
    (hP : ∀ {t u e}, P t → ok t e → step t e = some u → P u) (hrefl : ∀ s, R [] s s)
    (htrans : ∀ {l l' s t u}, R l s t → R l' t u → R (l ++ l') s u)
    (hstep : ∀ {t u e}, P t → ok t e → step t e = some u → R (see t e) t u) :
    R (observed step see s es) s t := by
  induction h with
  | nil => exact hrefl s
  | snoc h hok he ih =>
    rw [h.observed_concat he]
    exact htrans ih (hstep (h.invariant hs hP) hok he)

/-- If at every step the stock changes by what comes in and goes out, then so it does over a run. -/
lemma Run.balance {P : σ → Prop} (stock : σ → Multiset β) (see out : σ → ε → List β) (h : Run step ok s es t)
    (hs : P s) (hP : ∀ {t u e}, P t → ok t e → step t e = some u → P u)
    (hstep : ∀ {t u e}, P t → ok t e → step t e = some u →
      stock u + (out t e : Multiset β) = stock t + (see t e : Multiset β)) :
    stock t + (observed step out s es : Multiset β) = stock s + (observed step see s es : Multiset β) := by
  induction h with
  | nil => rfl
  | @snoc es t u e h hok he ih =>
    have hlast := hstep (h.invariant hs hP) hok he
    rw [h.observed_concat he, h.observed_concat he, ← Multiset.coe_add, ← Multiset.coe_add]
    calc stock u + ((observed step out s es : Multiset β) + (out t e : Multiset β))
        = stock u + (out t e : Multiset β) + (observed step out s es : Multiset β) := by
          rw [add_comm (observed step out s es : Multiset β), add_assoc]
      _ = stock t + (observed step out s es : Multiset β) + (see t e : Multiset β) := by
          rw [hlast, add_right_comm]
      _ = stock s + ((observed step see s es : Multiset β) + (see t e : Multiset β)) := by
          rw [ih, add_assoc]

end Transition
