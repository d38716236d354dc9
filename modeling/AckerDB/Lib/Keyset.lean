import Mathlib

/-!
# Sorting by several keys, and resuming after an element

A list of terms, each a key into a linear order with a direction, compares two elements by the
first key they differ on.  When no two elements of a list agree on every key, sorting it is strict,
and what comes after one of its elements can be found again by comparison alone.

* `Keyset.Before` — strictly before, term by term;
* `Keyset.orderBy` — the sorted list; `filter_orderBy` — a condition may be applied before or after;
* `Keyset.filter_before` — what a strictly sorted list holds after one of its elements.
-/

/-- The direction of a term. -/
inductive Direction where
  | asc | desc
  deriving DecidableEq

namespace Keyset

open List

/-- A key to sort by. -/
structure Term (α κ : Type*) where
  key : α → κ
  direction : Direction

variable {α κ : Type*} [LinearOrder κ]

/-- The first element comes before the second on this key. -/
def Term.Before (term : Term α κ) (a b : α) : Prop :=
  match term.direction with
  | .asc => term.key a < term.key b
  | .desc => term.key b < term.key a

instance (term : Term α κ) (a b : α) : Decidable (term.Before a b) := by
  unfold Term.Before
  split <;> infer_instance

/-- The first element comes before the second on the first key they differ on. -/
def Before : List (Term α κ) → α → α → Prop
  | [], _, _ => False
  | term :: rest, a, b => term.Before a b ∨ (term.key a = term.key b ∧ Before rest a b)

instance decidableBefore : ∀ (terms : List (Term α κ)) (a b : α), Decidable (Before terms a b)
  | [], _, _ => inferInstanceAs (Decidable False)
  | _ :: rest, a, b =>
    have := decidableBefore rest a b
    inferInstanceAs (Decidable (_ ∨ (_ ∧ _)))

section

variable (terms : List (Term α κ))

/-- The elements agree on every key. -/
def Tied (a b : α) : Prop := ∀ term ∈ terms, term.key a = term.key b

/-! ## A strict weak order -/

theorem Term.before_irrefl (term : Term α κ) {a b : α} (h : term.key a = term.key b) :
    ¬ term.Before a b := by
  unfold Term.Before
  split <;> simp [h]

theorem Term.before_trans {term : Term α κ} {a b c : α} (hab : term.Before a b)
    (hbc : term.Before b c) : term.Before a c := by
  unfold Term.Before at *
  split at hab <;> simp_all
  · exact hab.trans hbc
  · exact hbc.trans hab

theorem Term.before_congr_left {term : Term α κ} {a b c : α} (h : term.key a = term.key b) :
    term.Before a c ↔ term.Before b c := by
  unfold Term.Before
  rw [h]

theorem Term.before_congr_right {term : Term α κ} {a b c : α} (h : term.key b = term.key c) :
    term.Before a b ↔ term.Before a c := by
  unfold Term.Before
  rw [h]

theorem Term.before_trichotomy (term : Term α κ) (a b : α) :
    term.Before a b ∨ term.key a = term.key b ∨ term.Before b a := by
  unfold Term.Before
  split
  · exact lt_trichotomy _ _
  rcases lt_trichotomy (term.key a) (term.key b) with h | h | h
  · exact .inr (.inr h)
  · exact .inr (.inl h)
  · exact .inl h

theorem before_irrefl (a : α) : ¬ Before terms a a := by
  induction terms with
  | nil => exact id
  | cons term rest ih =>
    rintro (h | ⟨-, h⟩)
    · exact term.before_irrefl rfl h
    · exact ih h

theorem before_trans {terms : List (Term α κ)} {a b c : α} (hab : Before terms a b)
    (hbc : Before terms b c) : Before terms a c := by
  induction terms with
  | nil => exact hab
  | cons term rest ih =>
    rcases hab with hab | ⟨heqab, hab⟩
    · rcases hbc with hbc | ⟨heqbc, -⟩
      · exact .inl (Term.before_trans hab hbc)
      · exact .inl ((Term.before_congr_right heqbc).1 hab)
    · rcases hbc with hbc | ⟨heqbc, hbc⟩
      · exact .inl ((Term.before_congr_left heqab).2 hbc)
      · exact .inr ⟨heqab.trans heqbc, ih hab hbc⟩

theorem before_asymm {terms : List (Term α κ)} {a b : α} (hab : Before terms a b) :
    ¬ Before terms b a :=
  fun hba => before_irrefl terms a (before_trans hab hba)

theorem before_trichotomy (a b : α) :
    Before terms a b ∨ Tied terms a b ∨ Before terms b a := by
  induction terms with
  | nil => exact .inr (.inl fun _ h => by cases h)
  | cons term rest ih =>
    rcases term.before_trichotomy a b with h | heq | h
    · exact .inl (.inl h)
    · rcases ih with h | htied | h
      · exact .inl (.inr ⟨heq, h⟩)
      · exact .inr (.inl (forall_mem_cons.2 ⟨heq, htied⟩))
      · exact .inr (.inr (.inr ⟨heq.symm, h⟩))
    · exact .inr (.inr (.inl h))

theorem before_congr_left {terms : List (Term α κ)} {a b c : α} (h : Tied terms a b) :
    Before terms a c ↔ Before terms b c := by
  induction terms with
  | nil => exact Iff.rfl
  | cons term rest ih =>
    have heq := h term mem_cons_self
    have hrest := ih fun t ht => h t (mem_cons_of_mem _ ht)
    rw [Before, Before, Term.before_congr_left heq, heq, hrest]

/-! ## Sorting -/

/-- Not after: the order a sort sorts by. -/
def NotAfter (a b : α) : Prop := ¬ Before terms b a

end

instance (terms : List (Term α κ)) : DecidableRel (NotAfter terms) :=
  fun a b => inferInstanceAs (Decidable (¬ Before terms b a))

instance (terms : List (Term α κ)) : Std.Total (NotAfter terms) where
  total a b := by
    by_cases h : Before terms b a
    · exact .inr (before_asymm h)
    · exact .inl h

theorem before_or_before {terms : List (Term α κ)} {a c : α} (h : Before terms c a) (b : α) :
    Before terms c b ∨ Before terms b a := by
  rcases before_trichotomy terms c b with hcb | htied | hbc
  · exact .inl hcb
  · exact .inr ((before_congr_left htied).1 h)
  · exact .inr (before_trans hbc h)

instance (terms : List (Term α κ)) : IsTrans α (NotAfter terms) where
  trans _ b _ hab hbc hca := (before_or_before hca b).elim hbc hab

/-- The sorted list. -/
def orderBy (terms : List (Term α κ)) (rows : List α) : List α :=
  rows.insertionSort (NotAfter terms)

theorem orderBy_perm (terms : List (Term α κ)) (rows : List α) : (orderBy terms rows).Perm rows :=
  perm_insertionSort _ rows

variable {terms : List (Term α κ)}

@[simp] theorem mem_orderBy {rows : List α} {a : α} :
    a ∈ orderBy terms rows ↔ a ∈ rows :=
  (orderBy_perm terms rows).mem_iff

/-- No two elements of the list agree on every key. -/
def Distinguished (terms : List (Term α κ)) (rows : List α) : Prop :=
  rows.Pairwise fun a b => ¬ Tied terms a b

omit [LinearOrder κ] in
theorem Distinguished.filter {rows : List α}
    (h : Distinguished terms rows) (p : α → Bool) : Distinguished terms (rows.filter p) :=
  Pairwise.sublist filter_sublist h

/-- **Sorting distinguished elements is strict.** -/
theorem orderBy_pairwise {rows : List α}
    (h : Distinguished terms rows) : (orderBy terms rows).Pairwise (Before terms) := by
  have hsorted : (orderBy terms rows).Pairwise (NotAfter terms) :=
    pairwise_insertionSort _ rows
  have hsymm : ∀ {a b : α}, ¬ Tied terms a b → ¬ Tied terms b a :=
    fun hab hba => hab fun t ht => (hba t ht).symm
  have hdistinct : (orderBy terms rows).Pairwise fun a b => ¬ Tied terms a b :=
    ((orderBy_perm terms rows).pairwise_iff hsymm).2 h
  refine Pairwise.imp ?_ (hsorted.and hdistinct)
  rintro a b ⟨hnot, htied⟩
  rcases before_trichotomy terms a b with hab | hab | hba
  · exact hab
  · exact absurd hab htied
  · exact absurd hba hnot

/-- Two strictly sorted lists of the same elements are the same list. -/
theorem eq_of_perm {as bs : List α} (hperm : as.Perm bs)
    (has : as.Pairwise (Before terms)) (hbs : bs.Pairwise (Before terms)) : as = bs :=
  hperm.eq_of_pairwise (fun _ _ _ _ hab hba => absurd hba (before_asymm hab)) has hbs

/-- A condition may be applied before the sort or after it. -/
theorem filter_orderBy {rows : List α} (h : Distinguished terms rows)
    (p : α → Bool) : orderBy terms (rows.filter p) = (orderBy terms rows).filter p := by
  have hperm := (orderBy_perm terms (rows.filter p)).trans ((orderBy_perm terms rows).filter p).symm
  have hleft := orderBy_pairwise (h.filter p)
  have hright := (orderBy_pairwise h).sublist (filter_sublist (p := p))
  exact eq_of_perm hperm hleft hright

/-- **What comes after an element of a strictly sorted list** is what compares so. -/
theorem filter_before {before after : List α} {pivot : α}
    (h : (before ++ pivot :: after).Pairwise (Before terms)) :
    (before ++ pivot :: after).filter (fun a => decide (Before terms pivot a)) = after := by
  rw [pairwise_append, pairwise_cons] at h
  obtain ⟨-, ⟨hafter, -⟩, hbefore⟩ := h
  have hdrop : before.filter (fun a => decide (Before terms pivot a)) = [] := by
    rw [filter_eq_nil_iff]
    intro a ha
    simpa using before_asymm (hbefore a ha pivot mem_cons_self)
  have hkeep : after.filter (fun a => decide (Before terms pivot a)) = after := by
    rw [filter_eq_self]
    intro a ha
    simpa using hafter a ha
  simp [filter_append, hdrop, hkeep, before_irrefl]

end Keyset
