import Mathlib

/-!
# Strong Kleene truth values

The truth values of SQL conditions: `some b` is a determined value and `none`
is *unknown*.  Every connective is read through `Holds`, "is determined and
true", which is what a `WHERE` clause asks of a row.

* `holds_and`, `holds_or`, `holds_all`, `holds_any` — the connectives commute with
  `Holds`; negation does not, and no law is stated for it.
-/

/-- A three-valued truth value. -/
abbrev Kleene := Option Bool

namespace Kleene

/-- The condition is determined and true. -/
def Holds (a : Kleene) : Prop := a = some true

instance (a : Kleene) : Decidable (Holds a) := inferInstanceAs (Decidable (a = some true))

/-- Negation; the negation of unknown is unknown. -/
def not : Kleene → Kleene
  | some b => some (!b)
  | none => none

/-- Conjunction; false absorbs unknown. -/
def and : Kleene → Kleene → Kleene
  | some false, _ => some false
  | _, some false => some false
  | some true, some true => some true
  | _, _ => none

/-- Disjunction; true absorbs unknown. -/
def or : Kleene → Kleene → Kleene
  | some true, _ => some true
  | _, some true => some true
  | some false, some false => some false
  | _, _ => none

/-- The conjunction of a list; the empty conjunction is true. -/
def all : List Kleene → Kleene
  | [] => some true
  | a :: rest => and a (all rest)

/-- The disjunction of a list; the empty disjunction is false. -/
def any : List Kleene → Kleene
  | [] => some false
  | a :: rest => or a (any rest)

@[simp] theorem holds_some (b : Bool) : Holds (some b) ↔ b = true := by
  simp [Holds]

@[simp] theorem holds_none : ¬ Holds none := by
  simp [Holds]

@[simp] theorem holds_and (a b : Kleene) : Holds (and a b) ↔ Holds a ∧ Holds b := by
  rcases a with _ | (_ | _) <;> rcases b with _ | (_ | _) <;> simp [and, Holds]

@[simp] theorem holds_or (a b : Kleene) : Holds (or a b) ↔ Holds a ∨ Holds b := by
  rcases a with _ | (_ | _) <;> rcases b with _ | (_ | _) <;> simp [or, Holds]

@[simp] theorem holds_all (as : List Kleene) : Holds (all as) ↔ ∀ a ∈ as, Holds a := by
  induction as with
  | nil => simp [all]
  | cons a rest ih => simp [all, ih]

@[simp] theorem holds_any (as : List Kleene) : Holds (any as) ↔ ∃ a ∈ as, Holds a := by
  induction as with
  | nil => simp [any]
  | cons a rest ih => simp [any, ih]

/-! ## The two monoids -/

variable (a : Kleene)

@[simp] theorem true_and : and (some true) a = a := by
  rcases a with _ | (_ | _) <;> rfl

@[simp] theorem and_true : and a (some true) = a := by
  rcases a with _ | (_ | _) <;> rfl

@[simp] theorem false_and : and (some false) a = some false := rfl

@[simp] theorem and_false : and a (some false) = some false := by
  rcases a with _ | (_ | _) <;> rfl

@[simp] theorem false_or : or (some false) a = a := by
  rcases a with _ | (_ | _) <;> rfl

@[simp] theorem or_false : or a (some false) = a := by
  rcases a with _ | (_ | _) <;> rfl

@[simp] theorem true_or : or (some true) a = some true := rfl

@[simp] theorem or_true : or a (some true) = some true := by
  rcases a with _ | (_ | _) <;> rfl

theorem and_assoc (a b c : Kleene) : and (and a b) c = and a (and b c) := by
  rcases a with _ | (_ | _) <;> rcases b with _ | (_ | _) <;> rcases c with _ | (_ | _) <;> rfl

theorem or_assoc (a b c : Kleene) : or (or a b) c = or a (or b c) := by
  rcases a with _ | (_ | _) <;> rcases b with _ | (_ | _) <;> rcases c with _ | (_ | _) <;> rfl

end Kleene
