import Mathlib

/-!
# Turns: computations that change a state and may throw

A throw keeps the state reached so far, as an exception does in an imperative
language, and a handler goes on from there.

* `Turn` — the monad, with `throw`, `tryCatch`, `get` and `modify`;
* `Turn.Ensures` — a postcondition for each of the two endings, with one rule for
  each construct (`ensures_bind`, `ensures_tryCatch`, …), the rule of consequence
  `Ensures.mono`, and what it says of one execution (`Ensures.of_ok`, `Ensures.of_error`).
-/

/-- A computation over a state: it returns or throws, and leaves a state either way. -/
def Turn (σ ε α : Type) : Type := σ → Except ε α × σ

namespace Turn

variable {σ ε α β : Type}

variable {a : α} {returns : α → σ → Prop} {throws : ε → σ → Prop} {e : ε} {t : σ}

instance : Monad (Turn σ ε) where
  pure a := fun s => (.ok a, s)
  bind x f := fun s =>
    match x s with
    | (.ok a, t) => f a t
    | (.error e, t) => (.error e, t)

instance : MonadExceptOf ε (Turn σ ε) where
  throw e := fun s => (.error e, s)
  tryCatch x handler := fun s =>
    match x s with
    | (.ok a, t) => (.ok a, t)
    | (.error e, t) => handler e t

instance : MonadStateOf σ (Turn σ ε) where
  get := fun s => (.ok s, s)
  set t := fun _ => (.ok (), t)
  modifyGet f := fun s => (.ok (f s).1, (f s).2)

/-- Started in a state, the computation returns with one postcondition or throws with another. -/
def Ensures (x : Turn σ ε α) (s : σ) (returns : α → σ → Prop) (throws : ε → σ → Prop) : Prop :=
  match x s with
  | (.ok a, t) => returns a t
  | (.error e, t) => throws e t

variable {x : Turn σ ε α} {f : α → Turn σ ε β} {s : σ}

@[simp] theorem ensures_pure :
    Ensures (pure a : Turn σ ε α) s returns throws ↔ returns a s := Iff.rfl

@[simp] theorem ensures_bind {returns : β → σ → Prop} :
    Ensures (x >>= f) s returns throws ↔
      Ensures x s (fun a t => Ensures (f a) t returns throws) throws := by
  show (match (match x s with
    | (.ok a, t) => f a t
    | (.error e, t) => (.error e, t)) with
    | (.ok b, t) => returns b t
    | (.error e, t) => throws e t) ↔ _
  unfold Ensures
  rcases x s with ⟨_ | _, _⟩ <;> exact Iff.rfl

@[simp] theorem ensures_throw :
    Ensures (throw e : Turn σ ε α) s returns throws ↔ throws e s := Iff.rfl

@[simp] theorem ensures_tryCatch {handler : ε → Turn σ ε α} :
    Ensures (tryCatch x handler) s returns throws ↔
      Ensures x s returns (fun e t => Ensures (handler e) t returns throws) := by
  show (match (match x s with
    | (.ok a, t) => (Except.ok a, t)
    | (.error e, t) => handler e t) with
    | (.ok a, t) => returns a t
    | (.error e, t) => throws e t) ↔ _
  unfold Ensures
  rcases x s with ⟨_ | _, _⟩ <;> exact Iff.rfl

@[simp] theorem ensures_get {returns : σ → σ → Prop} :
    Ensures (get : Turn σ ε σ) s returns throws ↔ returns s s := Iff.rfl

@[simp] theorem ensures_modify {g : σ → σ} {returns : PUnit → σ → Prop} :
    Ensures (modify g : Turn σ ε PUnit) s returns throws ↔ returns ⟨⟩ (g s) := Iff.rfl

/-- The rule of consequence. -/
theorem Ensures.mono {returns' : α → σ → Prop} {throws' : ε → σ → Prop}
    (h : Ensures x s returns throws) (hreturns : ∀ a t, returns a t → returns' a t)
    (hthrows : ∀ e t, throws e t → throws' e t) : Ensures x s returns' throws' := by
  unfold Ensures at h ⊢
  split at h
  · exact hreturns _ _ h
  · exact hthrows _ _ h

theorem Ensures.of_ok (h : Ensures x s returns throws) (hx : x s = (.ok a, t)) : returns a t := by
  unfold Ensures at h
  rwa [hx] at h

theorem Ensures.of_error (h : Ensures x s returns throws) (hx : x s = (.error e, t)) : throws e t := by
  unfold Ensures at h
  rwa [hx] at h

theorem bind_of_ok (hx : x s = (.ok a, t)) : (x >>= f) s = f a t := by
  show (match x s with
    | (.ok a, t) => f a t
    | (.error e, t) => (Except.error e, t)) = _
  rw [hx]

theorem bind_of_error (hx : x s = (.error e, t)) :
    (x >>= f) s = (.error e, t) := by
  show (match x s with
    | (.ok a, t) => f a t
    | (.error e, t) => (Except.error e, t)) = _
  rw [hx]

end Turn
