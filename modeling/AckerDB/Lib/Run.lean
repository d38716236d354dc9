import Mathlib

/-!
# Runs of a partial step function

A machine is a step function that may refuse an event.  A *guarded* run is one
in which every step satisfies a condition on the state before it and the event;
with the guard `fun _ _ => True` it is any run.

* `Reachable.induct` — what holds initially and is kept by every guarded step holds in
  every state a guarded run reaches;
* `reachable_of_run` — an executed list of events is a run.
-/

namespace Run

universe u v

variable {σ : Type u} {ε : Type v}

/-- Execute a list of events. -/
def run (step : σ → ε → Option σ) (s : σ) : List ε → Option σ
  | [] => some s
  | e :: rest => (step s e).bind fun t => run step t rest

/-- The states a guarded run reaches from a start state. -/
inductive Reachable (step : σ → ε → Option σ) (guard : σ → ε → Prop) (start : σ) : σ → Prop
  | refl : Reachable step guard start start
  | step {s t : σ} {e : ε} : Reachable step guard start s → guard s e → step s e = some t →
      Reachable step guard start t

variable {step : σ → ε → Option σ} {guard : σ → ε → Prop} {start s t : σ}

/-- **The invariant rule.** -/
theorem Reachable.induct {inv : σ → Prop} (hreach : Reachable step guard start t)
    (hstart : inv start)
    (hstep : ∀ s e t, Reachable step guard start s → inv s → guard s e → step s e = some t → inv t) :
    inv t := by
  induction hreach with
  | refl => exact hstart
  | step hreach hguard hnext ih => exact hstep _ _ _ hreach ih hguard hnext

/-- Every step of the execution satisfies the guard. -/
def Guarded (step : σ → ε → Option σ) (guard : σ → ε → Prop) : σ → List ε → Prop
  | _, [] => True
  | s, e :: rest => guard s e ∧ ∀ t, step s e = some t → Guarded step guard t rest

variable {events : List ε}

theorem Reachable.run (hreach : Reachable step guard start s) (hguard : Guarded step guard s events)
    (hrun : run step s events = some t) :
    Reachable step guard start t := by
  induction events generalizing s with
  | nil =>
    cases hrun
    exact hreach
  | cons e rest ih =>
    rw [Run.run, Option.bind_eq_some_iff] at hrun
    obtain ⟨next, hnext, hrest⟩ := hrun
    exact ih (hreach.step hguard.1 hnext) (hguard.2 next hnext) hrest

theorem guarded_of_forall (h : ∀ e ∈ events, ∀ s, guard s e) (s : σ) :
    Guarded step guard s events := by
  induction events generalizing s with
  | nil => trivial
  | cons e rest ih =>
    refine ⟨h e List.mem_cons_self s, fun t _ => ih ?_ t⟩
    exact fun other hother => h other (List.mem_cons_of_mem e hother)

/-- Check every step of an execution. -/
def checks (step : σ → ε → Option σ) (check : σ → ε → Bool) : σ → List ε → Bool
  | _, [] => true
  | s, e :: rest => check s e && (step s e).all fun t => checks step check t rest

theorem guarded_of_checks {check : σ → ε → Bool} (h : ∀ s e, check s e = true → guard s e)
    (hchecks : checks step check s events = true) :
    Guarded step guard s events := by
  induction events generalizing s with
  | nil => trivial
  | cons e rest ih =>
    simp only [checks, Bool.and_eq_true] at hchecks
    refine ⟨h s e hchecks.1, fun t ht => ih ?_⟩
    rw [ht] at hchecks
    exact hchecks.2

/-- An executed list of events is a run. -/
theorem reachable_of_run (hrun : run step start events = some t) :
    Reachable step (fun _ _ => True) start t :=
  Reachable.refl.run (guarded_of_forall (fun _ _ _ => trivial) start) hrun

end Run
