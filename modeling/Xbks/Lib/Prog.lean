import Mathlib.Order.Defs.Unbundled

/-!
# Programs that can stop

A program over a state `σ` either answers a value or stops for a reason `ε`; the state it leaves
is known in both cases. `Keeps R p` says that `p` moves the state along the relation `R`, however
it ends, and the rules below derive it from the parts of a program.
-/

def Prog (σ ε α : Type) : Type := σ → Except ε α × σ

namespace Prog

variable {σ ε α β : Type}

def pure (a : α) : Prog σ ε α := fun s => (.ok a, s)

def bind (p : Prog σ ε α) (f : α → Prog σ ε β) : Prog σ ε β := fun s =>
  match p s with
  | (.ok a, s) => f a s
  | (.error e, s) => (.error e, s)

instance : Monad (Prog σ ε) where
  pure := Prog.pure
  bind := Prog.bind

def get : Prog σ ε σ := fun s => (.ok s, s)

def modify (f : σ → σ) : Prog σ ε Unit := fun s => (.ok (), f s)

def stop (e : ε) : Prog σ ε α := fun s => (.error e, s)

@[simp] lemma pure_apply (a : α) (s : σ) : (Pure.pure a : Prog σ ε α) s = (.ok a, s) := rfl

@[simp] lemma get_apply (s : σ) : (get : Prog σ ε σ) s = (.ok s, s) := rfl

@[simp] lemma modify_apply (f : σ → σ) (s : σ) : (modify f : Prog σ ε Unit) s = (.ok (), f s) := rfl

@[simp] lemma stop_apply (e : ε) (s : σ) : (stop e : Prog σ ε α) s = (.error e, s) := rfl

lemma bind_apply (p : Prog σ ε α) (f : α → Prog σ ε β) (s : σ) :
    (p >>= f) s = match p s with
      | (.ok a, s) => f a s
      | (.error e, s) => (.error e, s) := rfl

lemma bind_ok {p : Prog σ ε α} {f : α → Prog σ ε β} {s t : σ} {a : α} (h : p s = (.ok a, t)) :
    (p >>= f) s = f a t := by
  rw [bind_apply, h]

lemma bind_error {p : Prog σ ε α} {f : α → Prog σ ε β} {s t : σ} {e : ε}
    (h : p s = (.error e, t)) : (p >>= f) s = (.error e, t) := by
  rw [bind_apply, h]

lemma bind_eq_ok {p : Prog σ ε α} {f : α → Prog σ ε β} {s u : σ} {b : β}
    (h : (p >>= f) s = (.ok b, u)) : ∃ a t, p s = (.ok a, t) ∧ f a t = (.ok b, u) := by
  rw [bind_apply] at h
  rcases hp : p s with ⟨e | a, t⟩
  · rw [hp] at h
    cases h
  · rw [hp] at h
    exact ⟨a, t, rfl, h⟩

@[simp] lemma get_bind_apply (f : σ → Prog σ ε β) (s : σ) : (get >>= f) s = f s s := rfl

@[simp] lemma modify_bind_apply (g : σ → σ) (f : Unit → Prog σ ε β) (s : σ) :
    (modify g >>= f) s = f () (g s) := rfl

@[simp] lemma pure_bind_apply (a : α) (f : α → Prog σ ε β) (s : σ) :
    ((Pure.pure a : Prog σ ε α) >>= f) s = f a s := rfl

/-! ### Relations kept by programs -/

def Keeps (R : σ → σ → Prop) (p : Prog σ ε α) : Prop := ∀ s, R s (p s).2

section Keeps

variable {R : σ → σ → Prop}

lemma keeps_pure [Std.Refl R] (a : α) : Keeps R (Pure.pure a : Prog σ ε α) := fun s => Std.Refl.refl s

lemma keeps_get [Std.Refl R] : Keeps R (get : Prog σ ε σ) := fun s => Std.Refl.refl s

lemma keeps_modify {f : σ → σ} (h : ∀ s, R s (f s)) : Keeps R (modify f : Prog σ ε Unit) := h

lemma keeps_bind [IsTrans σ R] {p : Prog σ ε α} {f : α → Prog σ ε β} (hp : Keeps R p)
    (hf : ∀ a, Keeps R (f a)) : Keeps R (p >>= f) := by
  intro s
  have h := hp s
  rw [bind_apply]
  rcases hps : p s with ⟨r, t⟩
  rw [hps] at h
  cases r with
  | error e => exact h
  | ok a => exact IsTrans.trans _ _ _ h (hf a t)

lemma keeps_get_bind [IsPreorder σ R] {f : σ → Prog σ ε β} (hf : ∀ s, Keeps R (f s)) :
    Keeps R (get >>= f) :=
  keeps_bind keeps_get hf

lemma keeps_ite {c : Prop} [Decidable c] {p q : Prog σ ε α} (hp : c → Keeps R p)
    (hq : ¬c → Keeps R q) : Keeps R (if c then p else q) := by
  by_cases h : c
  · rw [if_pos h]
    exact hp h
  · rw [if_neg h]
    exact hq h

end Keeps

/-! ### Programs that return -/

/-- In a state with `P` the program returns, and `P` still holds. -/
def Returns (P : σ → Prop) (p : Prog σ ε α) : Prop := ∀ s, P s → ∃ a t, p s = (.ok a, t) ∧ P t

section Returns

variable {P : σ → Prop}

lemma returns_pure (a : α) : Returns P (Pure.pure a : Prog σ ε α) := fun s hs => ⟨a, s, rfl, hs⟩

lemma returns_get : Returns P (get : Prog σ ε σ) := fun s hs => ⟨s, s, rfl, hs⟩

lemma returns_modify {g : σ → σ} (h : ∀ s, P s → P (g s)) : Returns P (modify g : Prog σ ε Unit) :=
  fun s hs => ⟨(), g s, rfl, h s hs⟩

lemma returns_bind {p : Prog σ ε α} {f : α → Prog σ ε β} (hp : Returns P p)
    (hf : ∀ a, Returns P (f a)) : Returns P (p >>= f) := by
  intro s hs
  obtain ⟨a, t, hpt, ht⟩ := hp s hs
  rw [bind_ok hpt]
  exact hf a t ht

lemma returns_ite {c : Prop} [Decidable c] {p q : Prog σ ε α} (hp : c → Returns P p)
    (hq : ¬c → Returns P q) : Returns P (if c then p else q) := by
  by_cases h : c
  · rw [if_pos h]
    exact hp h
  · rw [if_neg h]
    exact hq h

end Returns

/-- Whenever the program returns, its answer satisfies `Q`. -/
def Answers (Q : α → Prop) (p : Prog σ ε α) : Prop := ∀ s a t, p s = (.ok a, t) → Q a

section Answers

lemma answers_pure {Q : α → Prop} {a : α} (h : Q a) : Answers Q (Pure.pure a : Prog σ ε α) := by
  rintro s _ t ⟨⟩
  exact h

lemma answers_bind {Q : β → Prop} {p : Prog σ ε α} {f : α → Prog σ ε β} (hf : ∀ a, Answers Q (f a)) :
    Answers Q (p >>= f) := by
  intro s b t h
  rcases hp : p s with ⟨e | a, s₁⟩
  · rw [bind_error hp] at h
    cases h
  · rw [bind_ok hp] at h
    exact hf a s₁ b t h

lemma answers_ite {Q : α → Prop} {c : Prop} [Decidable c] {p q : Prog σ ε α} (hp : c → Answers Q p)
    (hq : ¬c → Answers Q q) : Answers Q (if c then p else q) := by
  by_cases h : c
  · rw [if_pos h]
    exact hp h
  · rw [if_neg h]
    exact hq h

end Answers

/-! ### Updates that a program does not see -/

/-- It makes no difference to the program whether the update is made before it or after it. -/
def Commutes (g : σ → σ) (p : Prog σ ε α) : Prop := ∀ s, p (g s) = ((p s).1, g (p s).2)

section Commutes

variable {g : σ → σ}

lemma commutes_pure (a : α) : Commutes g (Pure.pure a : Prog σ ε α) := fun _ => rfl

lemma commutes_bind {p : Prog σ ε α} {f : α → Prog σ ε β} (hp : Commutes g p)
    (hf : ∀ a, Commutes g (f a)) : Commutes g (p >>= f) := by
  intro s
  rw [bind_apply, bind_apply, hp s]
  rcases p s with ⟨_ | a, t⟩
  · rfl
  · exact hf a t

end Commutes

end Prog
