import AckerDB.Auth.Delegation

/-!
# What a change of the vault reaches

A write of the vault reports token ids; whoever holds one of these is told.  An Identity whose
credential is not among them holds what it held before.

* `Kept` — an Identity is granted the same, whatever the resolver and the accounts are;
* `Reached` — the token id of an Identity's credential was reported;
* `perform_kept` — after every write, one or the other.
-/

namespace AckerDB.CredentialVault

variable {options : VaultOptions} {v w u : CredentialVault} {reached : List TokenId}

variable {identity : Nat} {tokenId : TokenId} {change : CredentialRow → CredentialRow}
  {row : CredentialRow} {e : Event} {allowed : CredentialVault → Option Nat → Prop}

/-! ## One change -/

/-- The Identity is granted the same, whatever the resolver and the accounts are. -/
def Kept (v w : CredentialVault) (identity : Nat) : Prop :=
  ∀ vocabulary resolve accounts,
    { v with accounts }.effectiveGrant vocabulary resolve identity =
      { w with accounts }.effectiveGrant vocabulary resolve identity

/-- The Identity's credential is among the reported. -/
def Reached (v : CredentialVault) (reached : List TokenId) (identity : Nat) : Prop :=
  ∃ row, v.credentialOf identity = some row ∧ row.tokenId ∈ reached

/-- The two rows issue alike. -/
def Agree (v w : CredentialVault) (identity : Nat) : Prop :=
  (v.credentialOf identity).map (fun row => (row.parentIdentity, row.scopes)) =
    (w.credentialOf identity).map fun row => (row.parentIdentity, row.scopes)

theorem Kept.refl (v : CredentialVault) (identity : Nat) : Kept v v identity :=
  fun _ _ _ => rfl

theorem Kept.trans (h : Kept v w identity) (h' : Kept w u identity) :
    Kept v u identity :=
  fun vocabulary resolve accounts =>
    (h vocabulary resolve accounts).trans (h' vocabulary resolve accounts)

theorem Sound.withAccounts (h : Sound v) (accounts : List (ExternalAccount × Nat)) :
    Sound { v with accounts } :=
  have hlinked : Change (fun _ _ => True) v { v with accounts } := .linked v accounts
  hlinked.sound h

/-- Rows that issue alike, under a parent that is granted the same. -/
theorem kept_of_agree (hv : Sound v) (hw : Sound w) (hagree : Agree v w identity)
    (hparent : ∀ row ∈ v.rows, row.identity = identity → ∀ parent,
      row.parentIdentity = some parent → Kept v w parent) : Kept v w identity := by
  intro vocabulary resolve accounts
  have hv' := hv.withAccounts accounts
  have hw' := hw.withAccounts accounts
  cases hrow : v.credentialOf identity with
  | none =>
    have hother : w.credentialOf identity = none := by
      rw [Agree, hrow] at hagree
      simpa using hagree.symm
    have hroot : ({ v with accounts } : CredentialVault).credentialOf identity = none := hrow
    have hroot' : ({ w with accounts } : CredentialVault).credentialOf identity = none := hother
    rw [effectiveGrant_root hroot, effectiveGrant_root hroot']
    rfl
  | some row =>
    obtain ⟨other, hother, hsame⟩ : ∃ other, w.credentialOf identity = some other ∧
        (other.parentIdentity, other.scopes) = (row.parentIdentity, row.scopes) := by
      rw [Agree, hrow] at hagree
      exact Option.map_eq_some_iff.1 hagree.symm
    obtain ⟨hsameParent, hsameScopes⟩ := Prod.mk.inj hsame
    obtain ⟨hmem, hidentity⟩ := mem_of_credentialOf hrow
    obtain ⟨hmem', hidentity'⟩ := mem_of_credentialOf hother
    cases hissuer : row.parentIdentity with
    | none =>
      have hleft := @Sound.effectiveGrant_standalone _ vocabulary resolve hv' row hmem hissuer
      have hright := @Sound.effectiveGrant_standalone _ vocabulary resolve hw' other hmem'
        (hsameParent.trans hissuer)
      rw [hidentity] at hleft
      rw [hidentity'] at hright
      rw [hleft, hright, hsameScopes]
    | some parent =>
      have hleft := @Sound.effectiveGrant_child _ vocabulary resolve hv' row hmem _ hissuer
      have hright := @Sound.effectiveGrant_child _ vocabulary resolve hw' other hmem' _
        (hsameParent.trans hissuer)
      rw [hidentity] at hleft
      rw [hidentity'] at hright
      rw [hleft, hright, hsameScopes,
        hparent row hmem hidentity parent hissuer vocabulary resolve accounts]

/-- **The induction up the chain.**  If every row that no longer issues alike is reported, and so
is everything below a reported credential, an Identity that is not reported is granted the same. -/
theorem kept_or_reached (hv : Sound v) (hw : Sound w)
    (hagree : ∀ identity ≤ v.identities, Agree v w identity ∨ Reached v reached identity)
    (hclosed : ∀ row ∈ v.rows, ∀ parent, row.parentIdentity = some parent →
      Reached v reached parent → row.tokenId ∈ reached) :
    ∀ identity ≤ v.identities, Kept v w identity ∨ Reached v reached identity := by
  intro identity
  induction identity using Nat.strong_induction_on with
  | _ identity ih =>
    intro hbound
    rcases hagree identity hbound with hsame | hreached
    · by_cases hdone : Reached v reached identity
      · exact .inr hdone
      refine .inl (kept_of_agree hv hw hsame ?_)
      rintro row hrow rfl parent hparent
      have holder := (hv.older row hrow parent hparent).2
      rcases ih parent holder (by omega) with hkept | hreached
      · exact hkept
      · refine absurd ⟨row, hv.credentialOf hrow, ?_⟩ hdone
        exact hclosed row hrow parent hparent hreached
    · exact .inr hreached

/-! ## The rows after a write -/

theorem credentialOf_resolveIdentity (account : ExternalAccount) (identity : Nat) :
    (v.resolveIdentity account).1.credentialOf identity = v.credentialOf identity := by
  unfold resolveIdentity
  split <;> rfl

theorem credentialOf_insertRow {row : Nat → CredentialRow} (hidentity : ∀ i, (row i).identity = i)
    (hbound : identity ≤ v.identities) :
    (v.insertRow row).credentialOf identity = v.credentialOf identity := by
  have hnew : ¬(row (v.identities + 1)).identity = identity := by
    rw [hidentity]
    omega
  simp [credentialOf, insertRow, List.find?_append, hnew]

theorem credentialOf_patchRow (hidentity : ∀ row, (change row).identity = row.identity)
    (identity : Nat) :
    (v.patchRow tokenId change).credentialOf identity =
      (v.credentialOf identity).map fun row =>
        if row.tokenId = tokenId then change row else row := by
  rw [credentialOf, patchRow, List.find?_map]
  congr 2
  funext row
  simp only [Function.comp_apply]
  split
  · rw [hidentity]
  · rfl

theorem credentialOf_deleteRows (hv : Sound v) (tokenIds : List TokenId) (identity : Nat) :
    (v.deleteRows tokenIds).credentialOf identity =
      (v.credentialOf identity).filter fun row => row.tokenId ∉ tokenIds := by
  cases hrow : (v.deleteRows tokenIds).credentialOf identity with
  | some =>
    obtain ⟨hmem, rfl⟩ := mem_of_credentialOf hrow
    obtain ⟨hmem, hkept⟩ := mem_deleteRows.1 hmem
    simp [hv.credentialOf hmem, hkept, Option.filter]
  | none =>
    cases hold : v.credentialOf identity with
    | none => rfl
    | some old =>
      obtain ⟨hmem, rfl⟩ := mem_of_credentialOf hold
      by_cases hgone : old.tokenId ∈ tokenIds
      · simp [hgone, Option.filter]
      · have hstay := List.find?_eq_none.1 hrow old (mem_deleteRows.2 ⟨hmem, hgone⟩)
        simp at hstay

/-! ## The writes -/

/-- Nothing is reported, and every row issues as it did. -/
theorem kept_of_agree_all (hv : Sound v) (hw : Sound w)
    (hagree : ∀ identity ≤ v.identities, Agree v w identity) (hbound : identity ≤ v.identities) :
    Kept v w identity := by
  have hclosed : ∀ row ∈ v.rows, ∀ parent, row.parentIdentity = some parent →
      Reached v [] parent → row.tokenId ∈ ([] : List TokenId) := by
    rintro row - parent - ⟨_, -, hmem⟩
    cases hmem
  have hdone := kept_or_reached hv hw (fun identity hbound => .inl (hagree identity hbound)) hclosed
  rcases hdone identity hbound with hkept | ⟨_, -, hmem⟩
  · exact hkept
  · cases hmem

theorem kept_insertRow (hv : Sound v) {row : Nat → CredentialRow} (hw : Sound (v.insertRow row))
    (hidentity : ∀ i, (row i).identity = i) (hbound : identity ≤ v.identities) :
    Kept v (v.insertRow row) identity := by
  refine kept_of_agree_all hv hw ?_ hbound
  intro identity hbound
  rw [Agree, credentialOf_insertRow hidentity hbound]

/-- A patch that keeps what a row issues. -/
theorem kept_patchRow (hv : Sound v) (hw : Sound (v.patchRow tokenId change))
    (hidentity : ∀ row, (change row).identity = row.identity)
    (hparent : ∀ row, (change row).parentIdentity = row.parentIdentity)
    (hscopes : ∀ row ∈ v.rows, row.tokenId = tokenId → (change row).scopes = row.scopes)
    (hbound : identity ≤ v.identities) :
    Kept v (v.patchRow tokenId change) identity := by
  refine kept_of_agree_all hv hw ?_ hbound
  intro identity _
  rw [Agree, credentialOf_patchRow hidentity, Option.map_map]
  cases hrow : v.credentialOf identity with
  | none => rfl
  | some row =>
    simp only [Option.map_some, Function.comp_apply]
    split
    · rename_i htoken
      rw [hparent, hscopes row (mem_of_credentialOf hrow).1 htoken]
    · rfl

theorem self_mem_lineage (hrow : row ∈ v.rows) :
    row.tokenId ∈ v.lineage row.tokenId := by
  refine List.mem_map.2 ⟨row, subset_descend _ row ?_, rfl⟩
  simpa using hrow

theorem kept_revoke (hv : Sound v) {parent : Option Nat}
    (h : v.revoke parent tokenId = .ok (w, reached)) (hbound : identity ≤ v.identities) :
    Kept v w identity ∨ Reached v reached identity := by
  have hchange : Change (fun _ _ => True) v w := revoke_change h
  have hw := hchange.sound hv
  obtain ⟨rfl, rfl⟩ := revoke_inv h
  refine kept_or_reached hv hw ?_ ?_ identity hbound
  · intro identity _
    cases hrow : v.credentialOf identity with
    | none =>
      left
      rw [Agree, credentialOf_deleteRows hv, hrow]
      rfl
    | some row =>
      by_cases hgone : row.tokenId ∈ v.lineage tokenId
      · exact .inr ⟨row, hrow, hgone⟩
      · rw [Agree, credentialOf_deleteRows hv, hrow]
        simp [hgone, Option.filter]
  · rintro row hrow parent hparent ⟨above, habove, hmem⟩
    obtain ⟨hissuer, rfl⟩ := mem_of_credentialOf habove
    exact hv.lineage_closed hissuer hmem (mem_children.2 ⟨hrow, hparent⟩)

/-- A patch of the grant leaves the tree as it is. -/
theorem mem_rescoped (tokenId : TokenId) (hidentity : ∀ row, (change row).identity = row.identity)
    (hparent : ∀ row, (change row).parentIdentity = row.parentIdentity)
    (htoken : ∀ row, (change row).tokenId = row.tokenId) (hrow : row ∈ v.rows) :
    ∃ new ∈ (v.patchRow tokenId change).rows,
      new.tokenId = row.tokenId ∧ new.identity = row.identity ∧
        new.parentIdentity = row.parentIdentity := by
  refine ⟨_, List.mem_map.2 ⟨row, hrow, rfl⟩, ?_⟩
  split
  · exact ⟨htoken row, hidentity row, hparent row⟩
  · exact ⟨rfl, rfl, rfl⟩

/-- A patch of the grant, if everything below it is reported. -/
theorem kept_rescope (hv : Sound v) (hw : Sound (v.patchRow tokenId change))
    (hidentity : ∀ row, (change row).identity = row.identity)
    (hparent : ∀ row, (change row).parentIdentity = row.parentIdentity)
    (htoken : ∀ row, (change row).tokenId = row.tokenId) (hbound : identity ≤ v.identities) :
    Kept v (v.patchRow tokenId change) identity ∨
      Reached v ((v.patchRow tokenId change).lineage tokenId) identity := by
  refine kept_or_reached hv hw ?_ ?_ identity hbound
  · intro identity _
    cases hrow : v.credentialOf identity with
    | none =>
      left
      rw [Agree, credentialOf_patchRow hidentity, hrow]
      rfl
    | some row =>
      by_cases hsame : row.tokenId = tokenId
      · obtain ⟨new, hnew, hnewToken, -⟩ :=
          mem_rescoped tokenId hidentity hparent htoken (mem_of_credentialOf hrow).1
        have hself := self_mem_lineage hnew
        rw [hnewToken] at hself
        exact .inr ⟨row, hrow, hsame ▸ hself⟩
      · rw [Agree, credentialOf_patchRow hidentity, hrow]
        simp [hsame]
  rintro row hrow parent hissuer ⟨above, habove, hmem⟩
  obtain ⟨hupper, rfl⟩ := mem_of_credentialOf habove
  obtain ⟨new, hnew, hnewToken, -, hnewParent⟩ :=
    mem_rescoped tokenId hidentity hparent htoken hrow
  obtain ⟨upper, hupper, hupperToken, hupperIdentity, -⟩ :=
    mem_rescoped tokenId hidentity hparent htoken hupper
  rw [← hnewToken]
  rw [← hupperToken] at hmem
  refine hw.lineage_closed hupper hmem (mem_children.2 ⟨hnew, ?_⟩)
  rw [hnewParent, hupperIdentity, hissuer]

theorem kept_updateScopes (hv : Sound v) {parent : Option Nat} {value : List String} {now : ℚ}
    (h : v.updateScopes options parent tokenId value now = .ok (w, reached))
    (hbound : identity ≤ v.identities) : Kept v w identity ∨ Reached v reached identity := by
  have hchange : Change (fun _ _ => True) v w := updateScopes_change h
  have hw := hchange.sound hv
  obtain ⟨scopes, old, howned, rfl, rfl⟩ := updateScopes_inv h
  split
  · -- the grant is the one that was stored
    rename_i hsame
    left
    refine kept_patchRow hv hw (fun _ => rfl) (fun _ => rfl) ?_ hbound
    intro row hrow htoken
    have hfound := List.find?_some howned
    simp only [decide_eq_true_eq] at hfound
    rw [hv.eq_of_token hrow (List.mem_of_find?_eq_some howned) (htoken.trans hfound.1.symm)]
    exact hsame.symm
  · exact kept_rescope hv hw (fun _ => rfl) (fun _ => rfl) (fun _ => rfl) hbound

/-- Two writes after each other; the second finds no credential the first did not leave. -/
theorem kept_trans {others : List TokenId} (hfirst : Kept v w identity ∨ Reached v reached identity)
    (hsecond : Kept w u identity ∨ Reached w others identity)
    (hback : ∀ row, w.credentialOf identity = some row → v.credentialOf identity = some row) :
    Kept v u identity ∨ Reached v (reached ++ others) identity := by
  rcases hfirst with hkept | ⟨row, hrow, hmem⟩
  · rcases hsecond with hkept' | ⟨row, hrow, hmem⟩
    · exact .inl (hkept.trans hkept')
    · exact .inr ⟨row, hback row hrow, List.mem_append_right _ hmem⟩
  · exact .inr ⟨row, hrow, List.mem_append_left _ hmem⟩

theorem kept_revokeAll (hv : Sound v) {rows : List CredentialRow}
    (h : v.revokeAll rows = .ok (w, reached)) (hbound : identity ≤ v.identities) :
    (Kept v w identity ∨ Reached v reached identity) ∧ w.identities = v.identities := by
  induction rows generalizing v reached with
  | nil =>
    cases h
    exact ⟨.inl (Kept.refl _ _), rfl⟩
  | cons _ _ ih =>
    obtain ⟨⟨next, ids⟩, hfirst, h⟩ := Except.bind_eq_ok.1 h
    obtain ⟨⟨last, others⟩, hrest, h⟩ := Except.bind_eq_ok.1 h
    cases h
    have hchange : Change (fun _ _ => True) v next := revoke_change hfirst
    have hkept := kept_revoke hv hfirst hbound
    obtain ⟨rfl, rfl⟩ := revoke_inv hfirst
    obtain ⟨hothers, hsame⟩ := ih (hchange.sound hv) hrest hbound
    refine ⟨kept_trans hkept hothers ?_, hsame⟩
    intro found hfound
    obtain ⟨hmem, rfl⟩ := mem_of_credentialOf hfound
    exact hv.credentialOf (mem_deleteRows.1 hmem).1

/-- The events that leave the accounts of every Identity as they are. -/
def Event.keepsAccounts : Event → Bool
  | .attach _ _ | .detach _ _ => false
  | _ => true

/-- **What a write does not report, it leaves as it was.** -/
theorem perform_kept (hv : Sound v) (haccounts : e.keepsAccounts = true)
    (h : perform options v e = .ok (w, reached)) (hbound : identity ≤ v.identities) :
    Kept v w identity ∨ Reached v reached identity := by
  have hchanges : Changes (fun _ _ => True) v w :=
    perform_changes (fun _ => trivial) (fun _ _ => trivial) h
  have hw := Changes.sound hchanges hv
  cases perform_op h with
  | provisioned =>
    refine .inl (kept_of_agree_all hv hw ?_ hbound)
    intro identity _
    rw [Agree, credentialOf_resolveIdentity]
  | attached | detached => cases haccounts
  | created _ hcreated => exact .inl (kept_insertRow hv hw hcreated.identity_eq hbound)
  | updated hupdate =>
    obtain ⟨newName, newMetadata, rfl⟩ := update_inv hupdate
    exact .inl (kept_patchRow hv hw (fun _ => rfl) (fun _ => rfl) (fun _ _ _ => rfl) hbound)
  | rescoped hupdate => exact kept_updateScopes hv hupdate hbound
  | revoked hrevoke => exact kept_revoke hv hrevoke hbound
  | rotated hrevoked hcreated =>
    have hmiddle : Changes (fun _ _ => True) v _ := revokeAll_changes hrevoked
    obtain ⟨hkept, hsame⟩ := kept_revokeAll hv hrevoked hbound
    refine hkept.imp_left fun hkept => hkept.trans ?_
    exact kept_insertRow (Changes.sound hmiddle hv) hw hcreated.identity_eq (hsame ▸ hbound)

/-! ## What else a write leaves -/

theorem Change.grows (h : Change allowed v w) :
    v.identities ≤ w.identities := by
  cases h with
  | provisioned | issued => exact Nat.le_succ _
  | linked | amended | revoked => exact le_rfl

/-- No credential appears under an Identity that exists. -/
theorem Change.back (h : Change allowed v w) (hv : Sound v) (hbound : identity ≤ v.identities)
    (hrow : w.credentialOf identity = some row) :
    ∃ old, v.credentialOf identity = some old ∧ old.tokenId = row.tokenId := by
  cases h with
  | provisioned | linked => exact ⟨row, hrow, rfl⟩
  | issued _ _ _ _ _ hidentity =>
    rw [credentialOf_insertRow hidentity hbound] at hrow
    exact ⟨row, hrow, rfl⟩
  | amended _ _ hidentity _ htoken =>
    rw [credentialOf_patchRow hidentity, Option.map_eq_some_iff] at hrow
    obtain ⟨old, hold, rfl⟩ := hrow
    refine ⟨old, hold, ?_⟩
    split
    · exact (htoken old).symm
    · rfl
  | revoked =>
    rw [credentialOf_deleteRows hv, Option.filter_eq_some_iff] at hrow
    exact ⟨row, hrow.1, rfl⟩

theorem Changes.back (h : Changes allowed v w) (hv : Sound v) :
    v.identities ≤ w.identities ∧ ∀ identity ≤ v.identities, ∀ row,
      w.credentialOf identity = some row →
        ∃ old, v.credentialOf identity = some old ∧ old.tokenId = row.tokenId := by
  induction h with
  | refl => exact ⟨le_rfl, fun _ _ row hrow => ⟨row, hrow, rfl⟩⟩
  | tail hchanges hchange ih =>
    obtain ⟨hgrows, hback⟩ := ih
    refine ⟨hgrows.trans hchange.grows, fun identity hbound row hrow => ?_⟩
    obtain ⟨old, hold, htoken⟩ :=
      hchange.back (Changes.sound hchanges hv) (hbound.trans hgrows) hrow
    obtain ⟨oldest, holdest, htoken'⟩ := hback identity hbound old hold
    exact ⟨oldest, holdest, htoken'.trans htoken⟩

theorem accounts_revokeAll {rows : List CredentialRow} (h : v.revokeAll rows = .ok (w, reached)) :
    w.accounts = v.accounts := by
  induction rows generalizing v reached with
  | nil =>
    cases h
    rfl
  | cons _ _ ih =>
    obtain ⟨⟨next, ids⟩, hfirst, h⟩ := Except.bind_eq_ok.1 h
    obtain ⟨⟨last, others⟩, hrest, h⟩ := Except.bind_eq_ok.1 h
    cases h
    obtain ⟨rfl, rfl⟩ := revoke_inv hfirst
    have hsame := ih hrest
    exact hsame

theorem accounts_resolveIdentity (account : ExternalAccount) (hbound : identity ≤ v.identities) :
    (v.resolveIdentity account).1.accountsForIdentity identity =
      v.accountsForIdentity identity := by
  unfold resolveIdentity
  split
  · rfl
  · have hnew : ¬v.identities + 1 = identity := by omega
    simp [accountsForIdentity, hnew]

/-- The accounts of an Identity that exists are those it had. -/
theorem perform_accounts (haccounts : e.keepsAccounts = true)
    (h : perform options v e = .ok (w, reached)) (hbound : identity ≤ v.identities) :
    w.accountsForIdentity identity = v.accountsForIdentity identity := by
  cases perform_op h with
  | provisioned account => exact accounts_resolveIdentity account hbound
  | attached | detached => cases haccounts
  | created => rfl
  | updated hupdate =>
    obtain ⟨newName, newMetadata, rfl⟩ := update_inv hupdate
    rfl
  | rescoped hupdate =>
    obtain ⟨_, _, -, rfl, -⟩ := updateScopes_inv hupdate
    rfl
  | revoked hrevoke =>
    obtain ⟨rfl, rfl⟩ := revoke_inv hrevoke
    rfl
  | rotated hrevoked =>
    have hsame := accounts_revokeAll hrevoked
    rw [accountsForIdentity, accountsForIdentity, insertRow, hsame]

/-- What a write leaves, and what it reports. -/
structure Written (v w : CredentialVault) (reached : List TokenId) : Prop where
  sound : Sound w
  grows : v.identities ≤ w.identities
  accounts : ∀ identity ≤ v.identities,
    w.accountsForIdentity identity = v.accountsForIdentity identity
  back : ∀ identity ≤ v.identities, ∀ row, w.credentialOf identity = some row →
    ∃ old, v.credentialOf identity = some old ∧ old.tokenId = row.tokenId
  kept : ∀ identity ≤ v.identities, Kept v w identity ∨ Reached v reached identity

/-- **Every write that leaves the accounts alone is `Written`.** -/
theorem perform_written (hv : Sound v) (haccounts : e.keepsAccounts = true)
    (h : perform options v e = .ok (w, reached)) : Written v w reached := by
  have hchanges : Changes (fun _ _ => True) v w :=
    perform_changes (fun _ => trivial) (fun _ _ => trivial) h
  obtain ⟨hgrows, hback⟩ := Changes.back hchanges hv
  exact
    { sound := Changes.sound hchanges hv
      grows := hgrows
      accounts := fun identity hbound => perform_accounts haccounts h hbound
      back := hback
      kept := fun identity hbound => perform_kept hv haccounts h hbound }

/-! ## The resolver and the accounts -/

section Resolver

variable {vocabulary : List String} {resolve other : Nat → Except Thrown (List String)}

/-- Only the accounts of the Identities up to one's own are asked for. -/
theorem Sound.effectiveGrant_accounts (h : Sound v) {accounts : List (ExternalAccount × Nat)}
    (identity : Nat) (hsame : ∀ i ≤ identity,
      ({ v with accounts } : CredentialVault).accountsForIdentity i = v.accountsForIdentity i) :
    { v with accounts }.effectiveGrant vocabulary resolve identity =
      v.effectiveGrant vocabulary resolve identity := by
  have h' := h.withAccounts accounts
  induction identity using h.chain_induct with
  | hroot identity hnone =>
    have hnone' : ({ v with accounts } : CredentialVault).credentialOf identity = none := hnone
    rw [effectiveGrant_root hnone, effectiveGrant_root hnone', hsame identity le_rfl]
  | hstandalone _ hrow hparent =>
    rw [h.effectiveGrant_standalone hrow hparent, h'.effectiveGrant_standalone hrow hparent]
  | hchild row hrow parent hparent ih =>
    have holder := (h.older row hrow parent hparent).2
    rw [h.effectiveGrant_child hrow hparent, h'.effectiveGrant_child hrow hparent,
      ih fun i hi => hsame i (by omega)]

/-- Resolvers that differ at one Identity: a grant is the same, or derives from its accounts. -/
theorem Sound.effectiveGrant_resolver (h : Sound v) {changed : Nat}
    (hsame : ∀ i, i ≠ changed → resolve i = other i) (identity : Nat) :
    v.effectiveGrant vocabulary resolve identity = v.effectiveGrant vocabulary other identity ∨
      ∀ grant, v.effectiveGrant vocabulary resolve identity = some (.ok grant) →
        grant.derivedFrom = v.accountsForIdentity changed := by
  induction identity using h.chain_induct with
  | hroot identity hnone =>
    by_cases hchanged : identity = changed
    · right
      intro grant hgrant
      rw [effectiveGrant_root hnone, Option.some_inj] at hgrant
      obtain ⟨patterns, -, rfl⟩ := Except.map_eq_ok.1 hgrant
      rw [hchanged]
    · left
      rw [effectiveGrant_root hnone, effectiveGrant_root hnone, hsame identity hchanged]
  | hstandalone _ hrow hparent =>
    left
    rw [h.effectiveGrant_standalone hrow hparent, h.effectiveGrant_standalone hrow hparent]
  | hchild _ hrow _ hparent ih =>
    rcases ih with ih | ih
    · left
      rw [h.effectiveGrant_child hrow hparent, h.effectiveGrant_child hrow hparent, ih]
    right
    intro grant hgrant
    rw [h.effectiveGrant_child hrow hparent, Option.map_eq_some_iff] at hgrant
    obtain ⟨result, hresult, hgrant⟩ := hgrant
    obtain ⟨above, rfl, rfl⟩ := Except.map_eq_ok.1 hgrant
    exact ih above hresult

end Resolver

end AckerDB.CredentialVault
