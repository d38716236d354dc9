import Mathlib

/-!
# Peeling `Except` computations apart

The rewriting rules by which a proof follows an `Except` computation: what a
bind does to a value, to an error, and what a successful bind was made of.
-/

namespace Except

universe u v

variable {ε : Type u} {α β : Type v}

@[simp] theorem ok_bind (a : α) (f : α → Except ε β) : (Except.ok a >>= f) = f a := rfl

@[simp] theorem error_bind (e : ε) (f : α → Except ε β) :
    ((Except.error e : Except ε α) >>= f) = .error e := rfl

@[simp] theorem pure_eq_ok (a : α) : (pure a : Except ε α) = .ok a := rfl

/-- A bind succeeds exactly when both of its halves do. -/
theorem bind_eq_ok {x : Except ε α} {f : α → Except ε β} {r : β} :
    (x >>= f) = .ok r ↔ ∃ a, x = .ok a ∧ f a = .ok r := by
  cases x with
  | error | ok => simp

theorem map_eq_ok {x : Except ε α} {f : α → β} {r : β} :
    x.map f = .ok r ↔ ∃ a, x = .ok a ∧ f a = r := by
  cases x with
  | error | ok => simp [Except.map]

/-- A traversal of calls that all succeed succeeds, and collects each result. -/
theorem exists_mapM_eq_ok {f : α → Except ε β} {items : List α}
    (h : ∀ item ∈ items, ∃ result, f item = .ok result) :
    ∃ results, items.mapM f = .ok results ∧
      ∀ item ∈ items, ∃ result ∈ results, f item = .ok result := by
  induction items with
  | nil => exact ⟨[], rfl, by simp⟩
  | cons item rest ih =>
    obtain ⟨result, hresult⟩ := h item List.mem_cons_self
    obtain ⟨results, hresults, hmem⟩ := ih fun i hi => h i (List.mem_cons_of_mem _ hi)
    refine ⟨result :: results, by simp [List.mapM_cons, hresult, hresults], ?_⟩
    intro found hfound
    rcases List.mem_cons.1 hfound with rfl | hrest
    · exact ⟨result, List.mem_cons_self, hresult⟩
    · obtain ⟨other, hother, heq⟩ := hmem found hrest
      exact ⟨other, List.mem_cons_of_mem _ hother, heq⟩

end Except
