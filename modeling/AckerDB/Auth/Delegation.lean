import AckerDB.Lib.Run
import AckerDB.Auth.CredentialVault

/-!
# Delegation

The vault under any sequence of operations.  A revocation takes everything below the credential
with it, but a creation only asks whether the parent's Identity exists, and an Identity outlives its
credential.

* `Event`, `step` — the machine;
* `Change` — what one operation does to the vault;
* `Sound`, `Delegated` — what every operation keeps, and what it keeps if no credential is created
  under a revoked one;
* `effectiveGrant_root`, `effectiveGrant_standalone`, `effectiveGrant_child` — the walk, without
  its fuel.
-/

namespace AckerDB.CredentialVault

open Except List

variable {tokenId : TokenId} {now : ℚ} {mint : Mint} {reached revoked : List TokenId} {e : Event}
  {row child : CredentialRow} {level : List CredentialRow}

/-! ## The machine -/

/-- One operation of the vault or of the accounts. -/
inductive Event where
  | resolveIdentity (account : ExternalAccount)
  | attach (identity : Nat) (account : ExternalAccount)
  | detach (identity : Nat) (account : ExternalAccount)
  | create (principal : UserPrincipal) (input : CredentialCreateInput) (now : ℚ) (mint : Mint)
  | update (principal : UserPrincipal) (tokenId : TokenId) (input : CredentialUpdateInput)
      (now : ℚ)
  | updateScopes (principal : UserPrincipal) (tokenId : TokenId) (scopes : List String) (now : ℚ)
  | revoke (principal : UserPrincipal) (tokenId : TokenId)
  | rotate (principal : UserPrincipal) (name : String) (now : ℚ) (mint : Mint)
  | systemCreate (parent : Option Nat) (input : CredentialCreateInput) (now : ℚ)
      (mint : Mint)
  | systemUpdateScopes (parent : Option Nat) (tokenId : TokenId) (scopes : List String)
      (now : ℚ)
  | systemRevoke (parent : Option Nat) (tokenId : TokenId)

/-- An operation, with the token ids whose holders it invalidates. -/
def perform (options : VaultOptions) (v : CredentialVault) :
    Event → Except Thrown (CredentialVault × List TokenId)
  | .resolveIdentity account => .ok ((v.resolveIdentity account).1, [])
  | .attach identity account => .ok ((v.attachIdentityAccount identity account).1, [])
  | .detach identity account => .ok (v.detachIdentityAccount identity account, [])
  | .create principal input now mint =>
    (v.createAs options principal input now mint).map fun (v, _) => (v, [])
  | .update principal tokenId input now =>
    (v.update options (some principal.identity) tokenId input now).map fun v => (v, [])
  | .updateScopes principal tokenId scopes now =>
    v.updateScopesAs options principal tokenId scopes now
  | .revoke principal tokenId => v.revoke (some principal.identity) tokenId
  | .rotate principal name now mint =>
    (v.rotate options principal name now mint).map fun (v, _, revoked) => (v, revoked)
  | .systemCreate parent input now mint =>
    (v.systemCreate options parent input now mint).map fun (v, _) => (v, [])
  | .systemUpdateScopes parent tokenId scopes now =>
    v.systemUpdateScopes options parent tokenId scopes now
  | .systemRevoke parent tokenId => v.revoke parent tokenId

/-- A transaction that throws is rolled back. -/
def step (options : VaultOptions) (v : CredentialVault) (e : Event) : Option CredentialVault :=
  (perform options v e).toOption.map Prod.fst

/-- The parent a creation names. -/
def Event.parent : Event → Option (Option Nat)
  | .create principal _ _ _ => some (some principal.identity)
  | .systemCreate parent _ _ _ => some parent
  | _ => none

/-- The vaults any run reaches. -/
abbrev Reachable (options : VaultOptions) : CredentialVault → Prop :=
  Run.Reachable (step options) (fun _ _ => True) {}

/-! ## What an operation does -/

/-- What one operation does, where `allowed` is asked for every parent. -/
inductive Change (allowed : CredentialVault → Option Nat → Prop) :
    CredentialVault → CredentialVault → Prop where
  | provisioned (v : CredentialVault) (accounts : List (ExternalAccount × Nat)) :
      Change allowed v { v with identities := v.identities + 1, accounts }
  | linked (v : CredentialVault) (accounts : List (ExternalAccount × Nat)) :
      Change allowed v { v with accounts }
  | issued (v : CredentialVault) (row : Nat → CredentialRow) (parent : Option Nat)
      (tokenId : TokenId) (hparent : ∀ p ∈ parent, v.hasIdentity p = true)
      (hallowed : allowed v parent) (hidentity : ∀ i, (row i).identity = i)
      (hrow : ∀ i, (row i).parentIdentity = parent) (htoken : ∀ i, (row i).tokenId = tokenId)
      (hfresh : ∀ other ∈ v.rows, other.tokenId ≠ tokenId) : Change allowed v (v.insertRow row)
  | amended (v : CredentialVault) (tokenId : TokenId) (change : CredentialRow → CredentialRow)
      (hidentity : ∀ row, (change row).identity = row.identity)
      (hparent : ∀ row, (change row).parentIdentity = row.parentIdentity)
      (htoken : ∀ row, (change row).tokenId = row.tokenId) :
      Change allowed v (v.patchRow tokenId change)
  | revoked (v : CredentialVault) (tokenId : TokenId) :
      Change allowed v (v.deleteRows (v.lineage tokenId))

/-- What an operation does is a sequence of changes. -/
abbrev Changes (allowed : CredentialVault → Option Nat → Prop) :
    CredentialVault → CredentialVault → Prop :=
  Relation.ReflTransGen (Change allowed)

variable {options : VaultOptions} {v w : CredentialVault}
  {allowed : CredentialVault → Option Nat → Prop}
variable {identity : Nat}

theorem requireIdentity_ok (h : v.requireIdentity identity = .ok ()) :
    v.hasIdentity identity = true := by
  unfold requireIdentity at h
  split at h
  · assumption
  · cases h

theorem byToken_eq_none (h : ¬(v.byToken tokenId).isSome = true) :
    ∀ other ∈ v.rows, other.tokenId ≠ tokenId := by
  intro other hother htoken
  apply h
  rw [byToken, find?_isSome]
  exact ⟨other, hother, by simpa using htoken⟩

/-- What a creation stored. -/
structure Created (options : VaultOptions) (v : CredentialVault) (parent : Option Nat)
    (mint : Mint) (row : Nat → CredentialRow) : Prop where
  parent_exists : ∀ p ∈ parent, v.hasIdentity p = true
  fresh : ∀ other ∈ v.rows, other.tokenId ≠ mint.id
  identity_eq : ∀ i, (row i).identity = i
  parent_eq : ∀ i, (row i).parentIdentity = parent
  token_eq : ∀ i, (row i).tokenId = mint.id
  digest_eq : ∀ i, (row i).secretDigest = options.digest mint.secret

variable {input : CredentialUpdateInput} {created : CreatedCredential} {value : List String}

section

variable {parent : Option Nat}

theorem create_inv {input : CredentialCreateInput}
    (h : v.create options parent input now mint = .ok (w, created)) :
    ∃ row, Created options v parent mint row ∧ w = v.insertRow row ∧
      created = ⟨row (v.identities + 1), credentialToken mint.id mint.secret⟩ := by
  obtain ⟨name, -, h⟩ := bind_eq_ok.1 h
  obtain ⟨metadata, -, h⟩ := bind_eq_ok.1 h
  obtain ⟨scopes, -, h⟩ := bind_eq_ok.1 h
  obtain ⟨⟨⟩, -, h⟩ := bind_eq_ok.1 h
  obtain ⟨⟨⟩, hparent, h⟩ := bind_eq_ok.1 h
  split_ifs at h with _ hfresh
  cases h
  refine ⟨_, ⟨?_, byToken_eq_none hfresh, ?_, ?_, ?_, ?_⟩, rfl, rfl⟩
  · rintro p hp
    cases hp
    exact requireIdentity_ok hparent
  all_goals exact fun _ => rfl

theorem Created.change {row : Nat → CredentialRow}
    (h : Created options v parent mint row) (hallowed : allowed v parent) :
    Change allowed v (v.insertRow row) :=
  .issued v row parent mint.id h.parent_exists hallowed h.identity_eq h.parent_eq h.token_eq h.fresh

theorem update_inv (h : v.update options parent tokenId input now = .ok w) :
    ∃ name : Option String, ∃ metadata : Option Json, w = v.patchRow tokenId fun row =>
      { row with
        name := name.getD row.name
        metadata := metadata.getD row.metadata
        updatedAt := now } := by
  unfold update at h
  split at h
  · cases h
  obtain ⟨name, -, h⟩ := bind_eq_ok.1 h
  obtain ⟨metadata, -, h⟩ := bind_eq_ok.1 h
  obtain ⟨⟨⟩, -, h⟩ := bind_eq_ok.1 h
  split at h
  · cases h
  · obtain ⟨⟨⟩, -, h⟩ := bind_eq_ok.1 h
    cases h
    exact ⟨name, metadata, rfl⟩

theorem update_change (h : v.update options parent tokenId input now = .ok w) :
    Change allowed v w := by
  obtain ⟨name, metadata, rfl⟩ := update_inv h
  exact .amended v tokenId _ (fun _ => rfl) (fun _ => rfl) (fun _ => rfl)

theorem updateScopes_inv (h : v.updateScopes options parent tokenId value now = .ok (w, reached)) :
    ∃ scopes row, v.owned parent tokenId = some row ∧
      w = v.patchRow tokenId (fun row => { row with scopes, updatedAt := now }) ∧
      reached = if row.scopes = scopes then [] else w.lineage tokenId := by
  obtain ⟨scopes, -, h⟩ := bind_eq_ok.1 h
  cases howned : v.owned parent tokenId with
  | none =>
    rw [howned] at h
    cases h
  | some row =>
    rw [howned] at h
    obtain ⟨⟨⟩, -, h⟩ := bind_eq_ok.1 h
    cases h
    exact ⟨scopes, row, rfl, rfl, rfl⟩

theorem updateScopes_change
    (h : v.updateScopes options parent tokenId value now = .ok (w, reached)) :
    Change allowed v w := by
  obtain ⟨scopes, row, -, rfl, -⟩ := updateScopes_inv h
  exact .amended v tokenId _ (fun _ => rfl) (fun _ => rfl) (fun _ => rfl)

theorem revoke_inv (h : v.revoke parent tokenId = .ok (w, revoked)) :
    revoked = v.lineage tokenId ∧ w = v.deleteRows revoked := by
  unfold revoke at h
  split at h
  · cases h
  · cases h
    exact ⟨rfl, rfl⟩

theorem revoke_change (h : v.revoke parent tokenId = .ok (w, revoked)) :
    Change allowed v w := by
  obtain ⟨rfl, rfl⟩ := revoke_inv h
  exact .revoked v tokenId

end

theorem revokeAll_changes {rows : List CredentialRow} (h : v.revokeAll rows = .ok (w, revoked)) :
    Changes allowed v w := by
  induction rows generalizing v revoked with
  | nil =>
    cases h
    exact .refl
  | cons _ _ ih =>
    obtain ⟨⟨next, ids⟩, hfirst, h⟩ := bind_eq_ok.1 h
    obtain ⟨⟨last, others⟩, hrest, h⟩ := bind_eq_ok.1 h
    cases h
    exact .head (revoke_change hfirst) (ih hrest)

theorem rotate_inv {principal : UserPrincipal} {name : String}
    (h : v.rotate options principal name now mint = .ok (w, created, revoked)) :
    ∃ middle, v.revokeAll v.listAdministrative = .ok (middle, revoked) ∧
      middle.create options none { name, scopes := some administrativeGrant } now mint =
        .ok (w, created) := by
  unfold rotate at h
  dsimp only at h
  split at h
  · obtain ⟨⟨middle, ids⟩, hrevoked, h⟩ := bind_eq_ok.1 h
    obtain ⟨⟨last, made⟩, hcreated, h⟩ := bind_eq_ok.1 h
    cases h
    exact ⟨middle, hrevoked, hcreated⟩
  · cases h

theorem resolveIdentity_changes (account : ExternalAccount) :
    Changes allowed v (v.resolveIdentity account).1 := by
  unfold resolveIdentity
  split
  · exact .refl
  · exact .single (.provisioned v _)

theorem attachIdentityAccount_changes (identity : Nat) (account : ExternalAccount) :
    Changes allowed v (v.attachIdentityAccount identity account).1 := by
  unfold attachIdentityAccount
  split
  · exact .refl
  · exact .single (.linked v _)

theorem detachIdentityAccount_changes (identity : Nat) (account : ExternalAccount) :
    Changes allowed v (v.detachIdentityAccount identity account) := by
  unfold detachIdentityAccount
  split
  · exact .single (.linked v _)
  · exact .refl

/-- What an operation did, by the vault's own writes, and what it reports. -/
inductive Op (options : VaultOptions) (v : CredentialVault) :
    Event → CredentialVault → List TokenId → Prop where
  | provisioned (account : ExternalAccount) :
      Op options v (.resolveIdentity account) (v.resolveIdentity account).1 []
  | attached (identity : Nat) (account : ExternalAccount) :
      Op options v (.attach identity account) (v.attachIdentityAccount identity account).1 []
  | detached (identity : Nat) (account : ExternalAccount) :
      Op options v (.detach identity account) (v.detachIdentityAccount identity account) []
  | created {e : Event} {parent : Option Nat} {mint : Mint} {row : Nat → CredentialRow}
      (hparent : e.parent = some parent) (hcreated : Created options v parent mint row) :
      Op options v e (v.insertRow row) []
  | updated {e : Event} {w : CredentialVault} {parent : Option Nat} {tokenId : TokenId}
      {input : CredentialUpdateInput} {now : ℚ}
      (h : v.update options parent tokenId input now = .ok w) : Op options v e w []
  | rescoped {e : Event} {w : CredentialVault} {parent : Option Nat} {tokenId : TokenId}
      {value : List String} {now : ℚ} {reached : List TokenId}
      (h : v.updateScopes options parent tokenId value now = .ok (w, reached)) :
      Op options v e w reached
  | revoked {e : Event} {w : CredentialVault} {parent : Option Nat} {tokenId : TokenId}
      {reached : List TokenId} (h : v.revoke parent tokenId = .ok (w, reached)) :
      Op options v e w reached
  | rotated {e : Event} {middle : CredentialVault} {reached : List TokenId} {mint : Mint}
      {row : Nat → CredentialRow}
      (hrevoked : v.revokeAll v.listAdministrative = .ok (middle, reached))
      (hcreated : Created options middle none mint row) :
      Op options v e (middle.insertRow row) reached

theorem op_created {parent : Option Nat} {input : CredentialCreateInput}
    (hparent : e.parent = some parent)
    (h : (v.create options parent input now mint).map (fun (v, _) => (v, [])) =
      .ok (w, reached)) : Op options v e w reached := by
  obtain ⟨⟨next, created⟩, hcreate, heq⟩ := map_eq_ok.1 h
  cases heq
  obtain ⟨row, hcreated, rfl, -⟩ := create_inv hcreate
  exact .created hparent hcreated

theorem perform_op (h : perform options v e = .ok (w, reached)) : Op options v e w reached := by
  cases e with
  | resolveIdentity account =>
    cases h
    exact .provisioned account
  | attach identity account =>
    cases h
    exact .attached identity account
  | detach identity account =>
    cases h
    exact .detached identity account
  | create | systemCreate =>
    obtain ⟨result, hcreate, heq⟩ := map_eq_ok.1 h
    obtain ⟨⟨⟩, -, hcreate⟩ := bind_eq_ok.1 hcreate
    exact op_created rfl (map_eq_ok.2 ⟨result, hcreate, heq⟩)
  | update =>
    obtain ⟨next, hupdate, heq⟩ := map_eq_ok.1 h
    cases heq
    exact .updated hupdate
  | updateScopes | systemUpdateScopes =>
    obtain ⟨⟨⟩, -, hupdate⟩ := bind_eq_ok.1 h
    exact .rescoped hupdate
  | revoke | systemRevoke => exact .revoked h
  | rotate =>
    obtain ⟨⟨next, created, revoked⟩, hrotate, heq⟩ := map_eq_ok.1 h
    cases heq
    obtain ⟨middle, hrevoked, hcreate⟩ := rotate_inv hrotate
    obtain ⟨row, hcreated, rfl, -⟩ := create_inv hcreate
    exact .rotated hrevoked hcreated

/-- **Every operation is made of changes**, and names at most one parent for what it issues. -/
theorem perform_changes (hroot : ∀ u, allowed u none)
    (hparent : ∀ parent ∈ e.parent, allowed v parent) (h : perform options v e = .ok (w, reached)) :
    Changes allowed v w := by
  cases perform_op h with
  | provisioned account => exact resolveIdentity_changes account
  | attached identity account => exact attachIdentityAccount_changes identity account
  | detached identity account => exact detachIdentityAccount_changes identity account
  | created hnamed hcreated => exact .single (hcreated.change (hparent _ hnamed))
  | updated hupdate => exact .single (update_change hupdate)
  | rescoped hupdate => exact .single (updateScopes_change hupdate)
  | revoked hrevoke => exact .single (revoke_change hrevoke)
  | rotated hrevoked hcreated =>
    exact (revokeAll_changes hrevoked).tail (hcreated.change (hroot _))

theorem step_changes (hroot : ∀ u, allowed u none) (hparent : ∀ parent ∈ e.parent, allowed v parent)
    (h : step options v e = some w) :
    Changes allowed v w := by
  unfold step at h
  cases hperform : perform options v e with
  | error =>
    rw [hperform] at h
    cases h
  | ok =>
    rw [hperform] at h
    cases h
    exact perform_changes hroot hparent hperform

/-! ## The delegation tree -/

/-- What every vault is. -/
structure Sound (v : CredentialVault) : Prop where
  bounded : ∀ row ∈ v.rows, 0 < row.identity ∧ row.identity ≤ v.identities
  older : ∀ row ∈ v.rows, ∀ parent ∈ row.parentIdentity, 0 < parent ∧ parent < row.identity
  identities_nodup : (v.rows.map CredentialRow.identity).Nodup
  tokens_nodup : (v.rows.map CredentialRow.tokenId).Nodup
  rows_held : ∀ row ∈ v.rows, row.identity ∈ v.held
  held_bounded : ∀ identity ∈ v.held, identity ≤ v.identities

theorem mem_of_credentialOf (h : v.credentialOf identity = some row) :
    row ∈ v.rows ∧ row.identity = identity :=
  ⟨mem_of_find?_eq_some h, by simpa using find?_some h⟩

theorem Sound.credentialOf (h : Sound v) (hrow : row ∈ v.rows) :
    v.credentialOf row.identity = some row := by
  cases hfind : v.credentialOf row.identity with
  | none =>
    have hnone := find?_eq_none.1 hfind row hrow
    simp at hnone
  | some =>
    obtain ⟨hfound, hidentity⟩ := mem_of_credentialOf hfind
    rw [inj_on_of_nodup_map h.identities_nodup hfound hrow hidentity]

theorem Sound.eq_of_token (h : Sound v) {a b : CredentialRow} (ha : a ∈ v.rows) (hb : b ∈ v.rows)
    (htoken : a.tokenId = b.tokenId) : a = b :=
  inj_on_of_nodup_map h.tokens_nodup ha hb htoken

theorem mem_children :
    child ∈ v.children row ↔ child ∈ v.rows ∧ child.parentIdentity = some row.identity := by
  simp [children]

theorem descend_subset {fuel : Nat} (hlevel : ∀ row ∈ level, row ∈ v.rows) :
    ∀ row ∈ v.descend fuel level, row ∈ v.rows := by
  induction fuel generalizing level with
  | zero => exact hlevel
  | succ _ ih =>
    intro row hrow
    rcases mem_append.1 hrow with hrow | hrow
    · exact hlevel row hrow
    refine ih ?_ row hrow
    intro child hchild
    obtain ⟨_, -, hchild⟩ := mem_flatMap.1 hchild
    exact (mem_children.1 hchild).1

theorem subset_descend (fuel : Nat) :
    ∀ row ∈ level, row ∈ v.descend fuel level := by
  cases fuel with
  | zero => exact fun _ hrow => hrow
  | succ => exact fun _ hrow => mem_append_left _ hrow

/-- Enough levels are closed under issuing: an Identity is above the one that issued it. -/
theorem Sound.descend_closed (h : Sound v) {fuel : Nat}
    (hlevel : ∀ row ∈ level, row ∈ v.rows ∧ v.identities < row.identity + fuel)
    (hrow : row ∈ v.descend fuel level) (hchild : child ∈ v.children row) :
    child ∈ v.descend fuel level := by
  induction fuel generalizing level with
  | zero =>
    obtain ⟨hmem, hlarge⟩ := hlevel row hrow
    have := (h.bounded row hmem).2
    omega
  | succ fuel ih =>
    rcases mem_append.1 hrow with hrow | hrow
    · refine mem_append_right _ (subset_descend fuel child ?_)
      exact mem_flatMap.2 ⟨row, hrow, hchild⟩
    refine mem_append_right _ (ih ?_ hrow)
    intro other hother
    obtain ⟨above, habove, hother⟩ := mem_flatMap.1 hother
    obtain ⟨hmem, hparent⟩ := mem_children.1 hother
    have holder := h.older other hmem above.identity hparent
    have hlarge := (hlevel above habove).2
    exact ⟨hmem, by omega⟩

/-- **A lineage is closed under issuing.** -/
theorem Sound.lineage_closed (h : Sound v) (hrow : row ∈ v.rows)
    (hin : row.tokenId ∈ v.lineage tokenId) (hchild : child ∈ v.children row) :
    child.tokenId ∈ v.lineage tokenId := by
  have hroots : ∀ root ∈ v.rows.filter (fun row => row.tokenId = tokenId),
      root ∈ v.rows ∧ v.identities < root.identity + v.identities := by
    intro root hroot
    have hmem := (mem_filter.1 hroot).1
    have hpositive := (h.bounded root hmem).1
    exact ⟨hmem, by omega⟩
  obtain ⟨found, hfound, htoken⟩ := mem_map.1 hin
  have hsame : found = row :=
    have hfound := descend_subset (fun root hroot => (hroots root hroot).1) found hfound
    h.eq_of_token hfound hrow htoken
  rw [hsame] at hfound
  exact mem_map.2 ⟨child, h.descend_closed hroots hfound hchild, rfl⟩

/-! ## What every operation keeps -/

theorem mem_insertRow {row : Nat → CredentialRow} {other : CredentialRow} :
    other ∈ (v.insertRow row).rows ↔ other ∈ v.rows ∨ other = row (v.identities + 1) := by
  simp [insertRow]

theorem mem_deleteRows {tokenIds : List TokenId} :
    row ∈ (v.deleteRows tokenIds).rows ↔ row ∈ v.rows ∧ row.tokenId ∉ tokenIds := by
  simp [deleteRows]

/-- A field a patch keeps. -/
theorem map_patchRow {α : Type} {change : CredentialRow → CredentialRow} (field : CredentialRow → α)
    (hkeep : ∀ row, field (change row) = field row) :
    (v.patchRow tokenId change).rows.map field = v.rows.map field := by
  simp only [patchRow, map_map]
  apply map_congr_left
  intro row _
  simp only [Function.comp_apply]
  split
  · exact hkeep row
  · rfl

theorem mem_patchRow {change : CredentialRow → CredentialRow}
    (h : row ∈ (v.patchRow tokenId change).rows) :
    ∃ old ∈ v.rows, row = change old ∨ row = old := by
  obtain ⟨old, hold, rfl⟩ := mem_map.1 h
  refine ⟨old, hold, ?_⟩
  split
  · exact .inl rfl
  · exact .inr rfl

theorem Change.sound (hchange : Change allowed v w) (h : Sound v) : Sound w := by
  cases hchange with
  | provisioned =>
    refine { h with bounded := ?_, held_bounded := ?_ }
    · exact fun row hrow => ⟨(h.bounded row hrow).1, Nat.le_succ_of_le (h.bounded row hrow).2⟩
    · exact fun identity hheld => Nat.le_succ_of_le (h.held_bounded identity hheld)
  | linked =>
    exact { h with }
  | issued _ _ _ hparent _ hidentity hrow htoken hfresh =>
    have hnew : ∀ other ∈ v.rows, other.identity ≠ v.identities + 1 := by
      intro other hother heq
      have := (h.bounded other hother).2
      omega
    refine ⟨?_, ?_, ?_, ?_, ?_, ?_⟩
    · intro other hother
      rcases mem_insertRow.1 hother with hother | rfl
      · exact ⟨(h.bounded other hother).1, Nat.le_succ_of_le (h.bounded other hother).2⟩
      · rw [hidentity]
        exact ⟨Nat.succ_pos _, le_rfl⟩
    · intro other hother p hp
      rcases mem_insertRow.1 hother with hother | rfl
      · exact h.older other hother p hp
      rw [hrow] at hp
      have hexists := hparent p hp
      simp only [hasIdentity, decide_eq_true_eq] at hexists
      rw [hidentity]
      omega
    · simp only [insertRow, map_append, map_cons, map_nil, hidentity]
      refine nodup_append.2 ⟨h.identities_nodup, nodup_singleton _, ?_⟩
      rintro a ha b hb rfl
      obtain ⟨other, hother, rfl⟩ := mem_map.1 ha
      exact hnew other hother (mem_singleton.1 hb)
    · simp only [insertRow, map_append, map_cons, map_nil, htoken]
      refine nodup_append.2 ⟨h.tokens_nodup, nodup_singleton _, ?_⟩
      rintro a ha b hb rfl
      obtain ⟨other, hother, rfl⟩ := mem_map.1 ha
      exact hfresh other hother (mem_singleton.1 hb)
    · intro other hother
      rcases mem_insertRow.1 hother with hother | rfl
      · exact mem_cons_of_mem _ (h.rows_held other hother)
      · rw [hidentity]
        exact mem_cons_self
    · intro identity hheld
      rcases mem_cons.1 hheld with rfl | hheld
      · exact le_rfl
      · exact Nat.le_succ_of_le (h.held_bounded identity hheld)
  | amended tokenId change hidentity hparent htoken =>
    have hold : ∀ row ∈ (v.patchRow tokenId change).rows, ∃ old ∈ v.rows,
        row.identity = old.identity ∧ row.parentIdentity = old.parentIdentity := by
      intro row hrow
      obtain ⟨old, hold, rfl | rfl⟩ := mem_patchRow hrow
      · exact ⟨old, hold, hidentity old, hparent old⟩
      · exact ⟨row, hold, rfl, rfl⟩
    refine ⟨?_, ?_, ?_, ?_, ?_, h.held_bounded⟩
    · intro row hrow
      obtain ⟨old, hold, hsame, -⟩ := hold row hrow
      rw [hsame]
      exact h.bounded old hold
    · intro row hrow
      obtain ⟨old, hold, hsame, hparent⟩ := hold row hrow
      rw [hsame, hparent]
      exact h.older old hold
    · rw [map_patchRow CredentialRow.identity hidentity]
      exact h.identities_nodup
    · rw [map_patchRow CredentialRow.tokenId htoken]
      exact h.tokens_nodup
    · intro row hrow
      obtain ⟨old, hold, hsame, -⟩ := hold row hrow
      rw [hsame]
      exact h.rows_held old hold
  | revoked tokenId =>
    have hkept : (v.deleteRows (v.lineage tokenId)).rows.Sublist v.rows := filter_sublist
    refine ⟨?_, ?_, ?_, ?_, ?_, h.held_bounded⟩
    · exact fun row hrow => h.bounded row (hkept.subset hrow)
    · exact fun row hrow => h.older row (hkept.subset hrow)
    · exact h.identities_nodup.sublist (hkept.map _)
    · exact h.tokens_nodup.sublist (hkept.map _)
    · exact fun row hrow => h.rows_held row (hkept.subset hrow)

theorem Changes.sound (hchanges : Changes allowed v w) (h : Sound v) : Sound w := by
  induction hchanges with
  | refl => exact h
  | tail _ hchange ih => exact hchange.sound ih

theorem sound_empty : Sound {} := by
  constructor <;> simp

theorem Reachable.sound {guard : CredentialVault → Event → Prop}
    (h : Run.Reachable (step options) guard {} v) : Sound v := by
  induction h with
  | refl => exact sound_empty
  | step _ _ hstep ih =>
    have hchanges : Changes (fun _ _ => True) _ _ :=
      step_changes (fun _ => trivial) (fun _ _ => trivial) hstep
    exact Changes.sound hchanges ih

/-! ## Orphans -/

/-- A parent that is no credential's Identity, or a live one's. -/
def Delegable (v : CredentialVault) (parent : Option Nat) : Prop :=
  ∀ identity ∈ parent, (∃ row ∈ v.rows, row.identity = identity) ∨ identity ∉ v.held

instance (v : CredentialVault) (parent : Option Nat) : Decidable (Delegable v parent) :=
  match parent with
  | none => .isTrue (by simp [Delegable])
  | some identity => decidable_of_iff
      ((∃ row ∈ v.rows, row.identity = identity) ∨ identity ∉ v.held) (by simp [Delegable])

/-- No credential was issued by a revoked one. -/
def Delegated (v : CredentialVault) : Prop := ∀ row ∈ v.rows, Delegable v row.parentIdentity

/-- A credential is created under no parent, a live credential, or an Identity that never held
one. -/
def Delegates (v : CredentialVault) (e : Event) : Prop := ∀ parent ∈ e.parent, Delegable v parent

instance (v : CredentialVault) (e : Event) : Decidable (Delegates v e) :=
  inferInstanceAs (Decidable (∀ parent ∈ e.parent, Delegable v parent))

theorem Change.delegated (hchange : Change Delegable v w) (hsound : Sound v) (h : Delegated v) :
    Delegated w := by
  cases hchange with
  | provisioned | linked => exact h
  | issued row parent _ hparent hallowed _ hrow =>
    -- the new Identity is above every Identity that could have been a parent
    have hkeep : ∀ p, v.hasIdentity p = true →
        ((∃ other ∈ v.rows, other.identity = p) ∨ p ∉ v.held) →
        (∃ other ∈ (v.insertRow row).rows, other.identity = p) ∨
          p ∉ (v.insertRow row).held := by
      rintro p hp (⟨other, hother, rfl⟩ | hnever)
      · exact .inl ⟨other, mem_insertRow.2 (.inl hother), rfl⟩
      refine .inr fun hheld => ?_
      rcases mem_cons.1 hheld with rfl | hheld
      · simp [hasIdentity] at hp
      · exact hnever hheld
    intro other hother p hp
    rcases mem_insertRow.1 hother with hother | rfl
    · refine hkeep p ?_ (h other hother p hp)
      have holder := hsound.older other hother p hp
      have hbounded := (hsound.bounded other hother).2
      simp only [hasIdentity, decide_eq_true_eq]
      omega
    · rw [hrow] at hp
      exact hkeep p (hparent p hp) (hallowed p hp)
  | amended tokenId change hidentity hparent =>
    intro row hrow p hp
    obtain ⟨old, hold, hsame⟩ := mem_patchRow hrow
    have hp : p ∈ old.parentIdentity := by
      rcases hsame with rfl | rfl
      · rwa [hparent] at hp
      · exact hp
    rcases h old hold p hp with ⟨above, habove, rfl⟩ | hnever
    · refine .inl ?_
      have hmem : above.identity ∈ (v.patchRow tokenId change).rows.map
          CredentialRow.identity := by
        rw [map_patchRow CredentialRow.identity hidentity]
        exact mem_map_of_mem habove
      obtain ⟨found, hfound, hidentity⟩ := mem_map.1 hmem
      exact ⟨found, hfound, hidentity⟩
    · exact .inr hnever
  | revoked =>
    intro row hrow p hp
    obtain ⟨hmem, hkept⟩ := mem_deleteRows.1 hrow
    rcases h row hmem p hp with ⟨above, habove, rfl⟩ | hnever
    · refine .inl ⟨above, mem_deleteRows.2 ⟨habove, fun hrevoked => hkept ?_⟩, rfl⟩
      exact hsound.lineage_closed habove hrevoked (mem_children.2 ⟨hmem, hp⟩)
    · exact .inr hnever

theorem Changes.delegated (hchanges : Changes Delegable v w) (hsound : Sound v)
    (h : Delegated v) : Sound w ∧ Delegated w := by
  induction hchanges with
  | refl => exact ⟨hsound, h⟩
  | tail _ hchange ih => exact ⟨hchange.sound ih.1, hchange.delegated ih.1 ih.2⟩

theorem Delegates.delegated (h : Run.Reachable (step options) Delegates {} v) : Delegated v := by
  induction h with
  | refl =>
    intro row hrow
    cases hrow
  | step hreach hguard hstep ih =>
    have hchanges := step_changes (by simp [Delegable]) hguard hstep
    exact (Changes.delegated hchanges (Reachable.sound hreach) ih).2

/-! ## The walk -/

variable {row : CredentialRow} {grant : EffectiveGrant}

section Walk

variable {vocabulary : List String} {resolve : Nat → Except Thrown (List String)}

/-- The walk does not depend on its fuel, once there is enough of it. -/
theorem Sound.grantWalk_eq (h : Sound v) {fuel other : Nat} (hfuel : identity < fuel)
    (hother : identity < other) :
    v.grantWalk vocabulary resolve fuel identity =
      v.grantWalk vocabulary resolve other identity := by
  induction identity using Nat.strong_induction_on generalizing fuel other with
  | _ identity ih =>
    obtain ⟨fuel, rfl⟩ := Nat.exists_eq_add_of_lt hfuel
    obtain ⟨other, rfl⟩ := Nat.exists_eq_add_of_lt hother
    simp only [grantWalk]
    cases hrow : v.credentialOf identity with
    | none => rfl
    | some row =>
      cases hparent : row.parentIdentity with
      | none => simp only [hparent]
      | some parent =>
        obtain ⟨hmem, rfl⟩ := mem_of_credentialOf hrow
        have holder := (h.older row hmem parent hparent).2
        have habove := ih parent holder (show parent < row.identity + fuel by omega)
          (show parent < row.identity + other by omega)
        simp only [hparent, habove]

theorem effectiveGrant_root (hnone : v.credentialOf identity = none) :
    v.effectiveGrant vocabulary resolve identity = some ((resolve identity).map fun patterns =>
      ⟨expandScopeGrant patterns vocabulary, v.accountsForIdentity identity⟩) := by
  simp [effectiveGrant, grantWalk, hnone]

theorem Sound.effectiveGrant_standalone (h : Sound v) {row : CredentialRow} (hrow : row ∈ v.rows)
    (hparent : row.parentIdentity = none) :
    v.effectiveGrant vocabulary resolve row.identity =
      some (.ok ⟨expandScopeGrant row.scopes.1 vocabulary, []⟩) := by
  simp [effectiveGrant, grantWalk, h.credentialOf hrow, hparent]

theorem Sound.effectiveGrant_child (h : Sound v) {row : CredentialRow} (hrow : row ∈ v.rows)
    {parent : Nat} (hparent : row.parentIdentity = some parent) :
    v.effectiveGrant vocabulary resolve row.identity =
      (v.effectiveGrant vocabulary resolve parent).map fun result => result.map fun above =>
        ⟨effectiveChildScopes (expandScopeGrant row.scopes.1 vocabulary) above.scopes,
          above.derivedFrom⟩ := by
  have holder := (h.older row hrow parent hparent).2
  have habove : v.grantWalk vocabulary resolve (parent + 1) parent =
      v.grantWalk vocabulary resolve row.identity parent :=
    h.grantWalk_eq (Nat.lt_succ_self parent) holder
  rw [effectiveGrant, effectiveGrant, habove]
  simp only [grantWalk, h.credentialOf hrow, hparent]

/-- **Induction up the chain**: from an Identity that is no credential, or from a credential
without a parent, to everything issued below. -/
theorem Sound.chain_induct (h : Sound v) {motive : Nat → Prop}
    (hroot : ∀ identity, v.credentialOf identity = none → motive identity)
    (hstandalone : ∀ row ∈ v.rows, row.parentIdentity = none → motive row.identity)
    (hchild : ∀ row ∈ v.rows, ∀ parent, row.parentIdentity = some parent → motive parent →
      motive row.identity)
    (identity : Nat) : motive identity := by
  induction identity using Nat.strong_induction_on with
  | _ identity ih =>
    cases hrow : v.credentialOf identity with
    | none => exact hroot identity hrow
    | some row =>
      obtain ⟨hmem, rfl⟩ := mem_of_credentialOf hrow
      cases hparent : row.parentIdentity with
      | none => exact hstandalone row hmem hparent
      | some parent =>
        exact hchild row hmem parent hparent (ih parent (h.older row hmem parent hparent).2)

/-- The walk comes to an end. -/
theorem Sound.effectiveGrant_isSome (h : Sound v) (identity : Nat) :
    (v.effectiveGrant vocabulary resolve identity).isSome = true := by
  induction identity using h.chain_induct with
  | hroot _ hnone => rw [effectiveGrant_root hnone, Option.isSome_some]
  | hstandalone _ hrow hparent =>
    rw [h.effectiveGrant_standalone hrow hparent, Option.isSome_some]
  | hchild _ hrow _ hparent ih =>
    rw [h.effectiveGrant_child hrow hparent, Option.isSome_map, ih]

/-- `a` issued `c`. -/
def Issued (v : CredentialVault) (c a : CredentialRow) : Prop :=
  a ∈ v.rows ∧ c.parentIdentity = some a.identity

/-- The credentials on the chain that issued one, itself included. -/
abbrev Above (v : CredentialVault) : CredentialRow → CredentialRow → Prop :=
  Relation.ReflTransGen (Issued v)

theorem effectiveChildScopes_subset (child above : List String) :
    ∀ scope ∈ effectiveChildScopes child above, scope ∈ child ∧ scope ∈ above := by
  intro scope hscope
  simpa [effectiveChildScopes] using hscope

theorem Sound.effectiveGrant_stored (h : Sound v) (hrow : row ∈ v.rows)
    (hgrant : v.effectiveGrant vocabulary resolve row.identity = some (.ok grant)) :
    grant.scopes ⊆ expandScopeGrant row.scopes.1 vocabulary := by
  intro scope hscope
  cases hparent : row.parentIdentity with
  | none =>
    rw [h.effectiveGrant_standalone hrow hparent] at hgrant
    cases hgrant
    exact hscope
  | some =>
    rw [h.effectiveGrant_child hrow hparent, Option.map_eq_some_iff] at hgrant
    obtain ⟨result, -, hgrant⟩ := hgrant
    obtain ⟨above, -, rfl⟩ := map_eq_ok.1 hgrant
    exact (effectiveChildScopes_subset _ _ scope hscope).1

/-- **A grant is within the stored grant of every credential above.** -/
theorem Sound.effectiveGrant_above (h : Sound v) {above : CredentialRow} (hrow : row ∈ v.rows)
    (habove : Above v row above)
    (hgrant : v.effectiveGrant vocabulary resolve row.identity = some (.ok grant)) :
    grant.scopes ⊆ expandScopeGrant above.scopes.1 vocabulary := by
  induction habove using Relation.ReflTransGen.head_induction_on generalizing grant with
  | refl => exact h.effectiveGrant_stored hrow hgrant
  | head hissued _ ih =>
    rw [h.effectiveGrant_child hrow hissued.2, Option.map_eq_some_iff] at hgrant
    obtain ⟨result, hresult, hgrant⟩ := hgrant
    obtain ⟨upper, rfl, rfl⟩ := map_eq_ok.1 hgrant
    exact fun scope hscope =>
      ih hissued.1 hresult (effectiveChildScopes_subset _ _ scope hscope).2

/-- If nothing was issued by a revoked credential, what the resolver answers for a revoked
credential's Identity makes no difference. -/
theorem Sound.effectiveGrant_congr (h : Sound v) (hdelegated : Delegated v)
    {other : Nat → Except Thrown (List String)}
    (hsame : ∀ identity ∉ v.held, resolve identity = other identity) (hrow : row ∈ v.rows) :
    v.effectiveGrant vocabulary resolve row.identity =
      v.effectiveGrant vocabulary other row.identity := by
  have hchain : ∀ identity, Delegable v (some identity) →
      v.effectiveGrant vocabulary resolve identity =
        v.effectiveGrant vocabulary other identity := by
    intro identity
    induction identity using h.chain_induct with
    | hroot identity hnone =>
      intro hdelegable
      rcases hdelegable identity rfl with ⟨row, hrow, rfl⟩ | hnever
      · rw [h.credentialOf hrow] at hnone
        cases hnone
      · rw [effectiveGrant_root hnone, effectiveGrant_root hnone, hsame identity hnever]
    | hstandalone _ hrow hparent =>
      intro _
      rw [h.effectiveGrant_standalone hrow hparent, h.effectiveGrant_standalone hrow hparent]
    | hchild row hrow _ hparent ih =>
      intro _
      rw [h.effectiveGrant_child hrow hparent, h.effectiveGrant_child hrow hparent, ih ?_]
      rw [← hparent]
      exact hdelegated row hrow
  refine hchain row.identity ?_
  rintro identity ⟨⟩
  exact .inl ⟨row, hrow, rfl⟩

end Walk

/-! ## Runs of a small application -/

/-- A token id of one letter. -/
def sameId (c : Char) (h : isTokenChar c = true) : TokenId :=
  ⟨replicate 22 c, by simp, by simp [h]⟩

/-- A secret of one letter. -/
def sameSecret (c : Char) (h : isTokenChar c = true) : TokenSecret :=
  ⟨replicate 43 c, by simp, by simp [h]⟩

/-- A minted token. -/
def mintA : Mint := ⟨sameId 'a' rfl, sameSecret 'a' rfl⟩

/-- Options of a small application. -/
def notesOptions : VaultOptions where
  limits := ⟨8, 64, 64⟩
  vocabulary := "notes" :: adminScopes
  digest _ := ⟨replicate 32 0, by simp⟩
  jsonBytes _ := 2

/-- A standalone credential, and a delegate of it. -/
def delegateRun : List Event :=
  [.systemCreate none { name := "agent", scopes := some ["*"] } 0
      mintA,
    .systemCreate (some 1) { name := "helper", scopes := some ["notes"] } 0
      ⟨sameId 'b' rfl, sameSecret 'b' rfl⟩]

/-- The credential is revoked before the delegate is created. -/
def orphanRun : List Event :=
  [.systemCreate none { name := "agent", scopes := some ["*"] } 0
      mintA,
    .systemRevoke none mintA.id,
    .systemCreate (some 1) { name := "helper", scopes := some ["notes"] } 0
      ⟨sameId 'b' rfl, sameSecret 'b' rfl⟩]

/-- The credentials with their parents, and the Identities that held one. -/
def chains (v : CredentialVault) : List (Nat × Option Nat) × List Nat :=
  (v.rows.map fun row => (row.identity, row.parentIdentity), v.held)

/-- What the second credential is granted if the resolver answers for the first Identity. -/
def grantsUnder (granted : List String) (v : CredentialVault) : Option (List String) :=
  match v.effectiveGrant notesOptions.vocabulary
      (fun identity => .ok (if identity = 1 then granted else [])) 2 with
  | some (.ok grant) => some grant.scopes
  | _ => none

theorem delegateRun_chains : (Run.run (step notesOptions) {} delegateRun).map chains =
    some ([(1, none), (2, some 1)], [2, 1]) := by
  decide +kernel

theorem delegateRun_guarded : Run.Guarded (step notesOptions) Delegates {} delegateRun := by
  have hchecks : Run.checks (step notesOptions) (fun v e => decide (Delegates v e)) {}
      delegateRun = true := by
    decide +kernel
  exact Run.guarded_of_checks (fun _ _ => of_decide_eq_true) hchecks

theorem orphanRun_chains : (Run.run (step notesOptions) {} orphanRun).map (fun v =>
    (chains v, grantsUnder ["notes"] v, grantsUnder [] v)) =
      some (([(2, some 1)], [2, 1]), some ["notes"], some []) := by
  decide +kernel

/-! ## No orphans -/

/-- **No orphan delegation.**  If no credential is created under a revoked one, every credential's
parent is nobody, a live credential or an Identity that never held one; what it is granted is within
the stored grant of every credential on the chain that issued it, and the resolver's answer for the
Identity of a revoked credential is never part of it. -/
theorem no_orphan_delegation (options : VaultOptions) (v : CredentialVault)
    (h : Run.Reachable (step options) Delegates {} v) :
    (∀ row ∈ v.rows, Delegable v row.parentIdentity) ∧
      (∀ row ∈ v.rows, ∀ vocabulary resolve,
        (v.effectiveGrant vocabulary resolve row.identity).isSome = true ∧
        (∀ grant, v.effectiveGrant vocabulary resolve row.identity = some (.ok grant) →
          ∀ above, Above v row above →
            grant.scopes ⊆ expandScopeGrant above.scopes.1 vocabulary) ∧
        ∀ other : Nat → Except Thrown (List String),
          (∀ identity ∉ v.held, resolve identity = other identity) →
          v.effectiveGrant vocabulary resolve row.identity =
            v.effectiveGrant vocabulary other row.identity) := by
  have hsound := Reachable.sound h
  have hdelegated := Delegates.delegated h
  refine ⟨hdelegated, fun row hrow vocabulary resolve => ⟨?_, ?_, ?_⟩⟩
  · exact hsound.effectiveGrant_isSome row.identity
  · exact fun grant hgrant above habove => hsound.effectiveGrant_above hrow habove hgrant
  · exact fun other hsame => hsound.effectiveGrant_congr hdelegated hsame hrow

theorem no_orphan_delegation_delegate : ∃ v, Run.run (step notesOptions) {} delegateRun = some v ∧
    chains v = ([(1, none), (2, some 1)], [2, 1]) ∧
      ∀ row ∈ v.rows, Delegable v row.parentIdentity := by
  obtain ⟨v, hrun, hchains⟩ := Option.map_eq_some_iff.1 delegateRun_chains
  have hreach := Run.Reachable.refl.run delegateRun_guarded hrun
  exact ⟨v, hrun, hchains, (no_orphan_delegation notesOptions v hreach).1⟩

/-- The Identity of a revoked credential is accepted as a parent, and the application's resolver
then decides what the orphan may do. -/
theorem revoked_parent_is_accepted : ∃ v, Reachable notesOptions v ∧
    ∃ row ∈ v.rows, ¬Delegable v row.parentIdentity ∧
      ∃ resolve other : Nat → Except Thrown (List String),
        (∀ identity ∉ v.held, resolve identity = other identity) ∧
        v.effectiveGrant notesOptions.vocabulary resolve row.identity ≠
          v.effectiveGrant notesOptions.vocabulary other row.identity := by
  obtain ⟨v, hrun, hview⟩ := Option.map_eq_some_iff.1 orphanRun_chains
  simp only [Prod.mk.injEq, chains] at hview
  obtain ⟨⟨hrows, hheld⟩, hnotes, hnone⟩ := hview
  obtain ⟨row, hsingle, hrow⟩ := map_eq_singleton_iff.1 hrows
  simp only [Prod.mk.injEq] at hrow
  refine ⟨v, Run.reachable_of_run hrun, row, by simp [hsingle], ?_,
    fun identity => .ok (if identity = 1 then ["notes"] else []),
    fun identity => .ok (if identity = 1 then [] else []), ?_, ?_⟩
  · intro hdelegable
    rcases hdelegable 1 hrow.2 with ⟨other, hother, hone⟩ | hnever
    · rw [hsingle, mem_singleton] at hother
      rw [hother, hrow.1] at hone
      cases hone
    · simp [hheld] at hnever
  · intro identity hidentity
    have hne : identity ≠ 1 := by
      rintro rfl
      simp [hheld] at hidentity
    simp [hne]
  intro heq
  rw [hrow.1] at heq
  simp only [grantsUnder] at hnotes hnone
  rw [heq, hnone] at hnotes
  simp at hnotes

end AckerDB.CredentialVault
