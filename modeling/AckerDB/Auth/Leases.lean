import AckerDB.Auth.Lineage
import AckerDB.Auth.Verification

/-!
# Leases

A lease is the authority of one operation: it subscribes to invalidations, then verifies, then
carries a principal.  Verification suspends between what it reads, and an invalidation that is
delivered meanwhile reaches the listener in the shape it has then.

* `acquireAuthLease` listens to everything until it has its principal; `acquireLease`, of a vault
  token, listens only to its own token until then;
* `Phase`, `State`, `step` — acquisitions, committed writes, changes of the resolver's answers, and
  the delivery of what they publish;
* `no_stale_authority` — once everything is delivered, no live lease carries more than it would be
  granted now, unless an account it derives from was invalidated while a vault token's lease had
  been answered and had no principal yet.
-/

namespace AckerDB

open List Option

open CredentialVault (UserPrincipal EffectiveGrant)

/-! ## Who an invalidation reaches -/

/-- `PrincipalInvalidation`. -/
structure PrincipalInvalidation where
  issuer : String
  subject : Option String := none
  tokenId : Option String := none

/-- The invalidation is about the account. -/
def PrincipalInvalidation.about (invalidation : PrincipalInvalidation)
    (account : ExternalAccount) : Bool :=
  account.issuer = invalidation.issuer ∧ ∀ subject ∈ invalidation.subject, account.subject = subject

/-- `invalidationReaches`: an invalidation of an exact token does not travel down the lineage. -/
def invalidationReaches (principal : UserPrincipal) (invalidation : PrincipalInvalidation) : Bool :=
  if invalidation.about ⟨principal.issuer, principal.subject⟩ = true ∧
      (invalidation.tokenId = none ∨ principal.tokenId = invalidation.tokenId) then true
  else if invalidation.tokenId.isSome then false
  else principal.derivedFrom.any invalidation.about

/-- The invalidation of one exact account. -/
def accountInvalidation (account : ExternalAccount) : PrincipalInvalidation where
  issuer := account.issuer
  subject := some account.subject

theorem accountInvalidation_about (account other : ExternalAccount) :
    (accountInvalidation account).about other = true ↔ other = account := by
  cases account
  cases other
  simp [PrincipalInvalidation.about, accountInvalidation]

variable {principal : UserPrincipal} {account : ExternalAccount}

theorem invalidationReaches_self
    (h : (⟨principal.issuer, principal.subject⟩ : ExternalAccount) = account) :
    invalidationReaches principal (accountInvalidation account) = true := by
  have habout := (accountInvalidation_about account _).2 h
  rw [invalidationReaches, if_pos ⟨habout, .inl rfl⟩]

theorem invalidationReaches_derived (h : account ∈ principal.derivedFrom) :
    invalidationReaches principal (accountInvalidation account) = true := by
  have hany : principal.derivedFrom.any (accountInvalidation account).about = true :=
    any_eq_true.2 ⟨account, h, (accountInvalidation_about account account).2 rfl⟩
  unfold invalidationReaches
  split
  · rfl
  · simpa [accountInvalidation] using hany

namespace Leases

variable {account : ExternalAccount} {vault : CredentialVault} {identity : Nat}
  {key : Option ExternalAccount} {patterns : List String} {origin : Option Nat}

/-! ## The machine -/

/-- Who acquires a lease. -/
inductive Door where
  /-- `acquireAuthLease`. -/
  | auth
  /-- `RuntimeCredentials.acquireLease`. -/
  | token
  deriving DecidableEq

/-- How far an acquisition is. -/
inductive Phase where
  /-- It has subscribed. -/
  | opened
  /-- The Identity of its account is known. -/
  | identified (identity : Nat)
  /-- The rows of the chain have been read, and the resolver was asked. -/
  | walked (identity : Nat) (snapshot : CredentialVault)
  /-- The resolver has answered; there is no principal yet. -/
  | answered (identity : Nat) (grant : EffectiveGrant)
  | leased (principal : UserPrincipal)
  /-- It was rejected, and has unsubscribed. -/
  | failed
  | released

/-- One lease, for what its credential proves. -/
structure Lease where
  door : Door
  account : ExternalAccount
  phase : Phase := .opened
  aborted : Bool := false

/-- The vault, the resolver, the leases, and what is published and not delivered. -/
structure State where
  vault : CredentialVault := {}
  resolver : Nat → Option ExternalAccount → List String
  leases : List Lease := []
  /-- An invalidation, and the origin it is withheld from. -/
  pending : List (ExternalAccount × Option Nat) := []
  /-- What is delivered to its origin when the response is handed off. -/
  deferred : List (Nat × ExternalAccount) := []

/-- One step of an acquisition, a committed write, a changed answer, or a delivery. -/
inductive Event where
  | commit (e : CredentialVault.Event) (origin : Option Nat)
  /-- The resolver answers otherwise for an Identity, and the change is published for an account
  of it. -/
  | change (identity : Nat) (key : Option ExternalAccount) (patterns : List String)
      (account : ExternalAccount) (origin : Option Nat)
  | subscribe (door : Door) (account : ExternalAccount)
  | identify (n : Nat)
  | walk (n : Nat)
  | answer (n : Nat)
  | take (n : Nat)
  | fail (n : Nat)
  /-- The caller's own signal, or the expiry of its credential. -/
  | abort (n : Nat)
  | release (n : Nat)
  | deliver (k : Nat)
  | finish (n : Nat)

/-- The listener of a lease, in the shape it has now. -/
def Lease.reached (lease : Lease) (account : ExternalAccount) : Bool :=
  match lease.phase, lease.door with
  | .leased principal, _ => invalidationReaches principal (accountInvalidation account)
  | .failed, _ | .released, _ => false
  | _, .auth => true
  | _, .token => account.issuer = credentialIssuer ∧ account.subject = lease.account.subject

/-- The lease has not unsubscribed. -/
def Lease.listening (lease : Lease) : Bool :=
  match lease.phase with
  | .failed | .released => false
  | _ => lease.door = .token ∨ lease.aborted = false

/-- The answer of the resolver for an ancestor. -/
def State.ancestorGrant (s : State) (identity : Nat) : Except Thrown (List String) :=
  .ok (s.resolver identity none)

/-- The lease carries the account. -/
def State.isSelf (s : State) (n : Nat) (account : ExternalAccount) : Bool :=
  match s.leases[n]? with
  | some lease =>
    match lease.phase with
    | .leased _ => lease.account = account
    | _ => false
  | none => false

/-- `publish`: the origin's own account is withheld from it. -/
def State.publish (s : State) (origin : Option Nat) (accounts : List ExternalAccount) : State :=
  { s with
    pending := s.pending ++ accounts.map fun account =>
      (account, origin.filter fun n => s.isSelf n account) }

/-- The resolver with one answer changed. -/
def State.resolveAs (s : State) (identity : Nat) (key : Option ExternalAccount)
    (patterns : List String) : State :=
  { s with resolver := fun i k => if i = identity ∧ k = key then patterns else s.resolver i k }

/-- Change one lease. -/
def State.modify (s : State) (n : Nat) (f : Lease → Lease) : State :=
  { s with leases := s.leases.modify n f }

/-- Move one lease on. -/
def State.move (s : State) (n : Nat) (phase : Phase) : State :=
  s.modify n fun lease => { lease with phase }

/-- Deliver to one lease. -/
def Lease.hear (lease : Lease) (account : ExternalAccount) : Lease :=
  if lease.reached account then { lease with aborted := true } else lease

/-- The synthetic account of a credential. -/
def tokenAccount (tokenId : TokenId) : ExternalAccount := ⟨credentialIssuer, tokenId.text⟩

/-- The principal of a grant. -/
def principalOf (account : ExternalAccount) (identity : Nat) (grant : EffectiveGrant) :
    UserPrincipal where
  identity := identity
  scopes := grant.scopes
  issuer := account.issuer
  subject := account.subject
  tokenId := if account.issuer = credentialIssuer then some account.subject else none
  derivedFrom := grant.derivedFrom

section

variable (options : VaultOptions)

variable (s : State)

/-- The answer of the resolver arrives. -/
def State.answered (lease : Lease) : Option Phase :=
  match lease.phase with
  | .walked identity snapshot =>
    -- the rows are those that were read, the accounts are read now
    match { snapshot with accounts := s.vault.accounts }.effectiveGrant options.vocabulary
        s.ancestorGrant identity with
    | some (.ok grant) => some (.answered identity grant)
    | _ => none
  | .identified identity =>
    if lease.account.issuer = credentialIssuer then none
    else some (.answered identity
      ⟨expandScopeGrant (s.resolver identity (some lease.account)) options.vocabulary, []⟩)
  | _ => none

/-- The rows of the chain are read. -/
def State.walked (lease : Lease) : Option Phase :=
  match lease.phase, lease.door with
  | .opened, .token =>
    match (TokenPart.parse 22 lease.account.subject.toList).bind s.vault.byToken with
    | some row => some (.walked row.identity s.vault)
    | none => some .failed
  | .identified identity, _ =>
    if lease.account.issuer = credentialIssuer then some (.walked identity s.vault) else none
  | _, _ => none

/-- The principal is taken, or refused. -/
def Lease.taken (lease : Lease) : Option Phase :=
  match lease.phase with
  | .answered identity grant =>
    if lease.aborted ∨ (lease.door = .auth ∧ isScopeGrant grant.scopes = false) then some .failed
    else some (.leased (principalOf lease.account identity grant))
  | _ => none

/-- One step. -/
def step : Event → Option State
  | .commit e origin =>
    if e.keepsAccounts then
      match CredentialVault.perform options s.vault e with
      | .error _ => none
      | .ok (vault, reached) =>
        some ({ s with vault }.publish origin (reached.map tokenAccount))
    else none
  | .change identity key patterns account origin =>
    if (account, identity) ∈ s.vault.accounts ∧ (key = none ∨ key = some account) then
      some ((s.resolveAs identity key patterns).publish origin [account])
    else none
  | .subscribe door account =>
    if door = .token ∧ account.issuer ≠ credentialIssuer then none
    else some { s with leases := s.leases ++ [{ door := door, account := account }] }
  | .identify n =>
    match s.leases[n]? with
    | some lease =>
      match lease.phase, lease.door with
      | .opened, .auth =>
        match RuntimeCredentials.resolveIdentity s.vault lease.account with
        | .error _ => some (s.move n .failed)
        | .ok (vault, identity) => some ({ s with vault }.move n (.identified identity))
      | _, _ => none
    | none => none
  | .walk n => do
      let lease ← s.leases[n]?
      let phase ← s.walked lease
      return s.move n phase
  | .answer n => do
      let lease ← s.leases[n]?
      let phase ← s.answered options lease
      return s.move n phase
  | .take n => do
      let lease ← s.leases[n]?
      let phase ← lease.taken
      return s.move n phase
  | .fail n => some (s.move n .failed)
  | .abort n => some (s.modify n fun lease => { lease with aborted := true })
  | .release n => some (s.move n .released)
  | .deliver k =>
    match s.pending[k]? with
    | none => none
    | some (account, origin) =>
      some { s with
        pending := s.pending.eraseIdx k
        leases := s.leases.mapIdx fun n lease =>
          if origin = some n then lease else lease.hear account
        deferred := s.deferred ++ (origin.toList.filter fun n =>
          s.leases[n]?.any Lease.listening).map fun n => (n, account) }
  | .finish n =>
    some { s with
      leases := s.leases.modify n fun lease =>
        (s.deferred.filter fun entry => entry.1 = n).foldl (fun lease entry => lease.hear entry.2)
          lease
      deferred := s.deferred.filter fun entry => entry.1 ≠ n }

/-- What an account's Identity would be granted now. -/
def State.grantNow (account : ExternalAccount)
    (identity : Nat) : List String :=
  if account.issuer = credentialIssuer then
    match s.vault.effectiveGrant options.vocabulary s.ancestorGrant identity with
    | some (.ok grant) => grant.scopes
    | _ => []
  else expandScopeGrant (s.resolver identity (some account)) options.vocabulary

/-- The accounts a lease derives from that its listener does not know of yet. -/
def Lease.unheard (lease : Lease) : List ExternalAccount :=
  match lease.phase, lease.door with
  | .answered _ grant, .token => grant.derivedFrom
  | _, _ => []

/-- Nothing is delivered that a lease derives from, while it has been answered and its listener
knows nothing but its token. -/
def Settled : Event → Prop
  | .deliver k => ∀ entry ∈ s.pending[k]?, ∀ lease ∈ s.leases, entry.1 ∉ lease.unheard
  | _ => True

/-! ## What every state keeps -/

/-- The Identity of a token exists, and its credential is the one the account names. -/
structure Owned (vault : CredentialVault) (account : ExternalAccount) (identity : Nat) : Prop where
  bounded : account.issuer = credentialIssuer → identity ≤ vault.identities
  token : account.issuer = credentialIssuer → ∀ row, vault.credentialOf identity = some row →
    tokenAccount row.tokenId = account

/-- What was granted is within what would be granted now. -/
def Fresh (account : ExternalAccount) (identity : Nat)
    (grant : EffectiveGrant) : Prop :=
  if account.issuer = credentialIssuer then
    ∃ now, s.vault.effectiveGrant options.vocabulary s.ancestorGrant identity = some (.ok now) ∧
      grant.scopes ⊆ now.scopes ∧ now.derivedFrom = grant.derivedFrom
  else grant.scopes ⊆ expandScopeGrant (s.resolver identity (some account)) options.vocabulary

/-- The accounts the grant of a lease derives from. -/
def Lease.bounds (lease : Lease) : List ExternalAccount :=
  match lease.phase with
  | .answered _ grant => grant.derivedFrom
  | .leased principal => principal.derivedFrom
  | _ => []

/-- The lease is aborted, or will be by what is published. -/
def Doomed (n : Nat) (lease : Lease) : Prop :=
  lease.aborted = true ∨ n ∈ s.deferred.map Prod.fst ∨
    ∃ entry ∈ s.pending, entry.1 = lease.account ∨ entry.1 ∈ lease.bounds

/-- What is known of a lease, by its phase. -/
def Good (n : Nat) (lease : Lease) : Prop :=
  match lease.phase with
  | .opened => True
  | .failed => True
  | .released => True
  | .identified identity => Owned s.vault lease.account identity
  | .walked identity snapshot =>
    lease.account.issuer = credentialIssuer ∧ Owned s.vault lease.account identity ∧
      (CredentialVault.Kept snapshot s.vault identity ∨ Doomed s n lease)
  | .answered identity grant =>
    Owned s.vault lease.account identity ∧
      (Fresh options s lease.account identity grant ∨ Doomed s n lease)
  | .leased principal =>
    (⟨principal.issuer, principal.subject⟩ : ExternalAccount) = lease.account ∧
      Owned s.vault lease.account principal.identity ∧
        (Fresh options s lease.account principal.identity
          ⟨principal.scopes, principal.derivedFrom⟩ ∨ Doomed s n lease)

/-- What every state keeps. -/
structure Inv : Prop where
  sound : s.vault.Sound
  doors : ∀ lease ∈ s.leases, lease.door = .token → lease.account.issuer = credentialIssuer
  good : ∀ n lease, s.leases[n]? = some lease → Good options s n lease
  pending_self : ∀ entry ∈ s.pending, ∀ n, entry.2 = some n →
    ∃ lease, s.leases[n]? = some lease ∧ lease.account = entry.1
  deferred_self : ∀ entry ∈ s.deferred,
    ∃ lease, s.leases[entry.1]? = some lease ∧ lease.account = entry.2

end

variable {options : VaultOptions} {s t : State} {n : Nat} {lease : Lease}

/-- **What keeps a lease good**: whatever was fresh, or was kept, still is, or the lease is doomed;
and the doomed stay so. -/
theorem Good.mono {after : Lease} (h : Good options s n lease)
    (hphase : after.phase = lease.phase) (haccount : after.account = lease.account)
    (howned : ∀ identity, Owned s.vault lease.account identity →
      Owned t.vault lease.account identity)
    (hkept : ∀ identity snapshot, Owned s.vault lease.account identity →
      lease.account.issuer = credentialIssuer →
      CredentialVault.Kept snapshot s.vault identity →
      CredentialVault.Kept snapshot t.vault identity ∨ Doomed t n after)
    (hfresh : ∀ identity grant, Owned s.vault lease.account identity →
      lease.bounds = grant.derivedFrom → Fresh options s lease.account identity grant →
      Fresh options t lease.account identity grant ∨ Doomed t n after)
    (hdoomed : lease.phase ≠ .failed → lease.phase ≠ .released → Doomed s n lease →
      Doomed t n after) : Good options t n after := by
  unfold Good at h ⊢
  rw [hphase, haccount]
  cases hcase : lease.phase with
  | opened | failed | released => trivial
  | identified identity =>
    rw [hcase] at h
    exact howned identity h
  | walked identity snapshot =>
    rw [hcase] at h hdoomed
    obtain ⟨hissuer, hown, hstate⟩ := h
    refine ⟨hissuer, howned identity hown, ?_⟩
    rcases hstate with hstate | hstate
    · exact hkept identity snapshot hown hissuer hstate
    · exact .inr (hdoomed (by simp) (by simp) hstate)
  | answered identity grant =>
    have hbounds : lease.bounds = grant.derivedFrom := by rw [Lease.bounds, hcase]
    rw [hcase] at h hdoomed
    obtain ⟨hown, hstate⟩ := h
    refine ⟨howned identity hown, ?_⟩
    rcases hstate with hstate | hstate
    · exact hfresh identity grant hown hbounds hstate
    · exact .inr (hdoomed (by simp) (by simp) hstate)
  | leased principal =>
    have hbounds : lease.bounds = principal.derivedFrom := by rw [Lease.bounds, hcase]
    rw [hcase] at h hdoomed
    obtain ⟨hself, hown, hstate⟩ := h
    refine ⟨hself, howned principal.identity hown, ?_⟩
    rcases hstate with hstate | hstate
    · exact hfresh principal.identity _ hown hbounds hstate
    · exact .inr (hdoomed (by simp) (by simp) hstate)

/-! ### Published invalidations -/

theorem Doomed.publish (h : Doomed s n lease)
    (hpending : ∀ entry ∈ s.pending, entry ∈ t.pending) (hdeferred : s.deferred = t.deferred) :
    Doomed t n lease := by
  rcases h with haborted | hlater | ⟨entry, hentry, hreach⟩
  · exact .inl haborted
  · exact .inr (.inl (hdeferred ▸ hlater))
  · exact .inr (.inr ⟨entry, hpending entry hentry, hreach⟩)

variable {accounts : List ExternalAccount}

theorem mem_publish (s : State) (origin : Option Nat) (h : account ∈ accounts) :
    ∃ entry ∈ (s.publish origin accounts).pending, entry.1 = account :=
  ⟨_, mem_append_right _ (mem_map.2 ⟨account, h, rfl⟩), rfl⟩

theorem Owned.written {reached : List TokenId} (h : Owned s.vault account identity)
    (hwritten : CredentialVault.Written s.vault vault reached) : Owned vault account identity := by
  refine ⟨fun hissuer => (h.bounded hissuer).trans hwritten.grows, fun hissuer row hrow => ?_⟩
  obtain ⟨old, hold, htoken⟩ := hwritten.back identity (h.bounded hissuer) row hrow
  rw [← htoken]
  exact h.token hissuer old hold

/-- A grant that is kept is the same with the accounts of afterwards. -/
theorem effectiveGrant_written (hsound : s.vault.Sound) {reached : List TokenId}
    (hwritten : CredentialVault.Written s.vault vault reached)
    (hbound : identity ≤ s.vault.identities) (hkept : CredentialVault.Kept s.vault vault identity)
    (vocabulary : List String) (resolve : Nat → Except Thrown (List String)) :
    vault.effectiveGrant vocabulary resolve identity =
      s.vault.effectiveGrant vocabulary resolve identity := by
  have haccounts : { s.vault with accounts := vault.accounts }.effectiveGrant vocabulary resolve
      identity = s.vault.effectiveGrant vocabulary resolve identity := by
    apply hsound.effectiveGrant_accounts
    exact fun i hi => hwritten.accounts i (hi.trans hbound)
  rw [← haccounts]
  exact (hkept vocabulary resolve vault.accounts).symm

theorem ancestorGrant_congr (h : t.resolver = s.resolver) : t.ancestorGrant = s.ancestorGrant := by
  funext identity
  rw [State.ancestorGrant, State.ancestorGrant, h]

/-- A write of the vault, whose reached token ids are published. -/
theorem Good.written (hsound : s.vault.Sound) {reached : List TokenId}
    (hwritten : CredentialVault.Written s.vault t.vault reached)
    (hresolver : t.resolver = s.resolver)
    (hpending : ∀ entry ∈ s.pending, entry ∈ t.pending) (hdeferred : s.deferred = t.deferred)
    (hreached : ∀ tokenId ∈ reached, ∃ entry ∈ t.pending, entry.1 = tokenAccount tokenId)
    (h : Good options s n lease) : Good options t n lease := by
  -- what a write does not keep, it publishes for the lease's own account
  have hkept : ∀ identity, Owned s.vault lease.account identity →
      lease.account.issuer = credentialIssuer →
      CredentialVault.Kept s.vault t.vault identity ∨ Doomed t n lease := by
    intro identity howned hissuer
    rcases hwritten.kept identity (howned.bounded hissuer) with hkept | ⟨row, hrow, hmem⟩
    · exact .inl hkept
    · obtain ⟨entry, hentry, haccount⟩ := hreached row.tokenId hmem
      refine .inr (.inr (.inr ⟨entry, hentry, .inl ?_⟩))
      rw [haccount, howned.token hissuer row hrow]
  refine h.mono rfl rfl ?_ ?_ ?_ ?_
  · exact fun identity howned => howned.written hwritten
  · intro identity snapshot howned hissuer hsame
    exact (hkept identity howned hissuer).imp_left hsame.trans
  · intro identity grant howned _ hfresh
    unfold Fresh at hfresh ⊢
    rw [ancestorGrant_congr hresolver, hresolver]
    by_cases hissuer : lease.account.issuer = credentialIssuer
    · refine (hkept identity howned hissuer).imp_left fun hkept => ?_
      rw [effectiveGrant_written hsound hwritten (howned.bounded hissuer) hkept]
      exact hfresh
    · rw [if_neg hissuer] at hfresh ⊢
      exact .inl hfresh
  · exact fun _ _ hdoomed => hdoomed.publish hpending hdeferred

/-! ### A changed answer -/

theorem mem_accountsForIdentity (h : (account, identity) ∈ vault.accounts) :
    account ∈ vault.accountsForIdentity identity :=
  mem_map.2 ⟨(account, identity), mem_filter.2 ⟨h, by simp⟩, rfl⟩

/-- A changed answer leaves a grant as it was, or is published for an account that bounds it. -/
theorem Fresh.resolveAs (hsound : s.vault.Sound) {changed : Nat} {own : ExternalAccount}
    {grant : EffectiveGrant} (haccount : (account, changed) ∈ s.vault.accounts)
    (hkey : key = none ∨ key = some account) (h : Fresh options s own identity grant) :
    Fresh options (s.resolveAs changed key patterns) own identity grant ∨
      account = own ∨ account ∈ grant.derivedFrom := by
  unfold Fresh at h ⊢
  by_cases hissuer : own.issuer = credentialIssuer
  · rw [if_pos hissuer] at h ⊢
    obtain ⟨now, hnow, hscopes, hderived⟩ := h
    have hsame : ∀ i, i ≠ changed → s.ancestorGrant i =
        (s.resolveAs changed key patterns).ancestorGrant i := by
      intro i hi
      simp [State.ancestorGrant, State.resolveAs, hi]
    rcases hsound.effectiveGrant_resolver hsame identity with heq | hroot
    · left
      refine ⟨now, ?_, hscopes, hderived⟩
      rw [← hnow]
      exact heq.symm
    right
    right
    rw [← hderived, hroot now hnow]
    exact mem_accountsForIdentity haccount
  rw [if_neg hissuer] at h ⊢
  by_cases hself : identity = changed ∧ some own = key
  · right
    left
    rcases hkey with rfl | rfl
    · cases hself.2
    · exact (some_inj.1 hself.2).symm
  · left
    simpa [State.resolveAs, hself] using h

theorem Good.resolveAs (hsound : s.vault.Sound) {changed : Nat}
    (haccount : (account, changed) ∈ s.vault.accounts) (hkey : key = none ∨ key = some account)
    (h : Good options s n lease) :
    Good options ((s.resolveAs changed key patterns).publish origin [account]) n lease := by
  obtain ⟨entry, hentry, hpublished⟩ := mem_publish (s.resolveAs changed key patterns) origin
    (mem_singleton_self account)
  refine h.mono rfl rfl (fun _ howned => howned) (fun _ _ _ _ hkept => .inl hkept) ?_ ?_
  · intro identity grant _ hbounds hfresh
    rcases hfresh.resolveAs hsound haccount hkey with hfresh | hbound
    · exact .inl hfresh
    · refine .inr (.inr (.inr ⟨entry, hentry, ?_⟩))
      rw [hpublished, hbounds]
      exact hbound
  · exact fun _ _ hdoomed => hdoomed.publish (fun _ hentry => mem_append_left _ hentry) rfl

/-! ### Deliveries -/

/-- The listener knows its own account in every shape. -/
theorem Lease.reached_own (hgood : Good options s n lease)
    (hdoor : lease.door = .token → lease.account.issuer = credentialIssuer)
    (hfailed : lease.phase ≠ .failed) (hreleased : lease.phase ≠ .released) :
    lease.reached lease.account = true := by
  unfold Good at hgood
  cases hphase : lease.phase with
  | failed => exact absurd hphase hfailed
  | released => exact absurd hphase hreleased
  | leased =>
    rw [hphase] at hgood
    simp only [Lease.reached, hphase]
    exact invalidationReaches_self hgood.1
  | opened | identified | walked | answered => cases hcase : lease.door <;> simp_all [Lease.reached]

/-- The listener knows the accounts its grant derives from, but for those it has not heard of. -/
theorem Lease.reached_bound (hbound : account ∈ lease.bounds) (hheard : account ∉ lease.unheard) :
    lease.reached account = true := by
  cases hphase : lease.phase with
  | leased =>
    simp only [Lease.bounds, hphase] at hbound
    simp only [Lease.reached, hphase]
    exact invalidationReaches_derived hbound
  | answered =>
    cases hdoor : lease.door with
    | auth => simp [Lease.reached, hphase, hdoor]
    | token =>
      simp only [Lease.bounds, hphase] at hbound
      simp only [Lease.unheard, hphase, hdoor] at hheard
      exact absurd hbound hheard
  | opened | identified | walked | failed | released => simp [Lease.bounds, hphase] at hbound

theorem Lease.listening_of_live (hfailed : lease.phase ≠ .failed)
    (hreleased : lease.phase ≠ .released) (haborted : lease.aborted = false) :
    lease.listening = true := by
  cases hphase : lease.phase <;> simp_all [Lease.listening]

section

variable (lease : Lease)

variable (account : ExternalAccount)

@[simp] theorem Lease.hear_phase :
    (lease.hear account).phase = lease.phase := by
  unfold Lease.hear
  split <;> rfl

@[simp] theorem Lease.hear_account :
    (lease.hear account).account = lease.account := by
  unfold Lease.hear
  split <;> rfl

@[simp] theorem Lease.hear_door :
    (lease.hear account).door = lease.door := by
  unfold Lease.hear
  split <;> rfl

theorem Lease.hear_aborted :
    (lease.hear account).aborted = (lease.aborted || lease.reached account) := by
  unfold Lease.hear
  split <;> simp_all

@[simp] theorem Lease.reached_hear (account other : ExternalAccount) :
    (lease.hear account).reached other = lease.reached other := by
  simp [Lease.reached]

/-- What a lease is told one after the other. -/
theorem Lease.hearAll (entries : List (Nat × ExternalAccount)) :
    let heard := entries.foldl (fun lease entry => lease.hear entry.2) lease
    heard.phase = lease.phase ∧ heard.account = lease.account ∧ heard.door = lease.door ∧
      heard.aborted = (lease.aborted || entries.any fun entry => lease.reached entry.2) := by
  induction entries generalizing lease with
  | nil => simp
  | cons entry rest ih =>
    obtain ⟨hphase, haccount, hdoor, haborted⟩ := ih (lease.hear entry.2)
    simp only [foldl_cons]
    refine ⟨by simpa using hphase, by simpa using haccount, by simpa using hdoor, ?_⟩
    rw [haborted, Lease.hear_aborted]
    simp [Bool.or_assoc]

end

/-! ### The steps -/

theorem getElem?_modify (s : State) (n m : Nat) (f : Lease → Lease) :
    (s.modify n f).leases[m]? =
      (s.leases[m]?).map fun lease => if n = m then f lease else lease := by
  simp [State.modify, List.getElem?_modify]

/-- One lease changes, and keeps its account. -/
theorem Inv.modify (h : Inv options s) {f : Lease → Lease}
    (hdoor : ∀ lease, (f lease).door = lease.door)
    (haccount : ∀ lease, (f lease).account = lease.account)
    (hgood : ∀ lease, s.leases[n]? = some lease → Good options s n (f lease)) :
    Inv options (s.modify n f) := by
  have hsame : ∀ (m : Nat) (lease : Lease), s.leases[m]? = some lease →
      ∃ after : Lease, (s.modify n f).leases[m]? = some after ∧ after.account = lease.account := by
    intro m lease hlease
    refine ⟨_, by rw [getElem?_modify, hlease, map_some], ?_⟩
    split
    · exact haccount lease
    · rfl
  refine ⟨h.sound, ?_, ?_, ?_, ?_⟩
  · intro after hafter
    obtain ⟨m, hm⟩ := getElem?_of_mem hafter
    rw [getElem?_modify, map_eq_some_iff] at hm
    obtain ⟨lease, hlease, rfl⟩ := hm
    have hold := h.doors lease (mem_of_getElem? hlease)
    split
    · rw [hdoor, haccount]
      exact hold
    · exact hold
  · intro m after hafter
    rw [getElem?_modify, map_eq_some_iff] at hafter
    obtain ⟨lease, hlease, rfl⟩ := hafter
    split
    · rename_i hsame
      subst hsame
      exact hgood lease hlease
    · exact h.good m lease hlease
  · intro entry hentry m hm
    obtain ⟨lease, hlease, hown⟩ := h.pending_self entry hentry m hm
    obtain ⟨after, hafter, hkept⟩ := hsame m lease hlease
    exact ⟨after, hafter, hkept.trans hown⟩
  · intro entry hentry
    obtain ⟨lease, hlease, hown⟩ := h.deferred_self entry hentry
    obtain ⟨after, hafter, hkept⟩ := hsame entry.1 lease hlease
    exact ⟨after, hafter, hkept.trans hown⟩

theorem Inv.move (h : Inv options s) {phase : Phase}
    (hgood : ∀ lease, s.leases[n]? = some lease → Good options s n { lease with phase }) :
    Inv options (s.move n phase) :=
  h.modify (fun _ => rfl) (fun _ => rfl) hgood

/-- A lease whose next phase is computed from what it is. -/
theorem Inv.advance (h : Inv options s) {next : Lease → Option Phase}
    (hstep : (s.leases[n]? >>= fun lease => next lease >>= fun phase => pure (s.move n phase)) =
      some t)
    (hgood : ∀ lease phase, s.leases[n]? = some lease → next lease = some phase →
      Good options s n { lease with phase }) : Inv options t := by
  obtain ⟨lease, hlease, hstep⟩ := bind_eq_some_iff.1 hstep
  obtain ⟨phase, hphase, hstep⟩ := bind_eq_some_iff.1 hstep
  cases hstep
  refine h.move fun found hfound => ?_
  rw [hlease] at hfound
  cases hfound
  exact hgood lease phase hlease hphase

theorem isSelf_iff (h : s.isSelf n account = true) :
    ∃ lease, s.leases[n]? = some lease ∧ lease.account = account := by
  unfold State.isSelf at h
  split at h
  · rename_i lease hlease
    split at h
    · exact ⟨lease, hlease, by simpa using h⟩
    · cases h
  · cases h

/-- What is published is withheld only from a lease that carries it. -/
theorem publish_self
    (h : ∀ entry ∈ s.pending, ∀ n, entry.2 = some n →
      ∃ lease, s.leases[n]? = some lease ∧ lease.account = entry.1) :
    ∀ entry ∈ (s.publish origin accounts).pending, ∀ n, entry.2 = some n →
      ∃ lease, s.leases[n]? = some lease ∧ lease.account = entry.1 := by
  intro entry hentry n hn
  rcases mem_append.1 hentry with hentry | hentry
  · exact h entry hentry n hn
  · obtain ⟨account, -, rfl⟩ := mem_map.1 hentry
    rw [filter_eq_some_iff] at hn
    exact isSelf_iff hn.2

theorem Inv.commit (h : Inv options s) {e : CredentialVault.Event}
    (hstep : step options s (.commit e origin) = some t) : Inv options t := by
  simp only [step] at hstep
  split at hstep
  · rename_i haccounts
    split at hstep
    · cases hstep
    rename_i vault reached hperform
    cases hstep
    have hwritten := CredentialVault.perform_written h.sound haccounts hperform
    refine ⟨hwritten.sound, h.doors, ?_, publish_self h.pending_self, h.deferred_self⟩
    intro n lease hlease
    refine (h.good n lease hlease).written h.sound hwritten rfl ?_ rfl ?_
    · exact fun entry hentry => mem_append_left _ hentry
    · exact fun tokenId hreached => mem_publish _ origin (mem_map_of_mem hreached)
  · cases hstep

theorem Inv.change (h : Inv options s)
    (hstep : step options s (.change identity key patterns account origin) = some t) :
    Inv options t := by
  simp only [step] at hstep
  split at hstep
  · rename_i hchange
    cases hstep
    refine ⟨h.sound, h.doors, ?_, publish_self h.pending_self, h.deferred_self⟩
    exact fun n lease hlease => (h.good n lease hlease).resolveAs h.sound hchange.1 hchange.2
  · cases hstep

theorem Inv.subscribe (h : Inv options s) {door : Door}
    (hstep : step options s (.subscribe door account) = some t) : Inv options t := by
  simp only [step] at hstep
  split at hstep
  · cases hstep
  rename_i hdoor
  cases hstep
  have hold : ∀ (m : Nat) (lease : Lease), s.leases[m]? = some lease →
      (s.leases ++ [{ door := door, account := account }])[m]? = some lease := by
    intro m lease hlease
    rw [List.getElem?_append_left (List.getElem?_eq_some_iff.1 hlease).1, hlease]
  refine ⟨h.sound, ?_, ?_, ?_, ?_⟩
  · intro lease hlease htoken
    rcases List.mem_append.1 hlease with hlease | hlease
    · exact h.doors lease hlease htoken
    rw [List.mem_singleton] at hlease
    subst hlease
    by_contra hissuer
    exact hdoor ⟨htoken, hissuer⟩
  · intro n lease hlease
    rcases Nat.lt_or_ge n s.leases.length with hn | hn
    · rw [List.getElem?_append_left hn] at hlease
      exact h.good n lease hlease
    rw [List.getElem?_append_right hn, List.getElem?_singleton] at hlease
    split at hlease
    · cases hlease
      trivial
    · cases hlease
  · intro entry hentry n hn
    obtain ⟨lease, hlease, hown⟩ := h.pending_self entry hentry n hn
    exact ⟨lease, hold n lease hlease, hown⟩
  · intro entry hentry
    obtain ⟨lease, hlease, hown⟩ := h.deferred_self entry hentry
    exact ⟨lease, hold entry.1 lease hlease, hown⟩

theorem parse_text {size : Nat} {text : String} {part : TokenPart size}
    (h : TokenPart.parse size text.toList = some part) : part.text = text := by
  unfold TokenPart.parse at h
  split at h
  · cases h
    simp [TokenPart.text]
  · cases h

/-- The Identity of the credential a token account names. -/
theorem owned_byToken (hsound : s.vault.Sound) {row : CredentialRow}
    (hissuer : account.issuer = credentialIssuer)
    (hrow : (TokenPart.parse 22 account.subject.toList).bind s.vault.byToken = some row) :
    Owned s.vault account row.identity := by
  obtain ⟨id, hid, hfind⟩ := bind_eq_some_iff.1 hrow
  have hmem := mem_of_find?_eq_some hfind
  have htoken : row.tokenId = id := by simpa using find?_some hfind
  refine ⟨fun _ => (hsound.bounded row hmem).2, fun _ found hfound => ?_⟩
  rw [hsound.credentialOf hmem] at hfound
  cases hfound
  rw [tokenAccount, htoken, parse_text hid, ← hissuer]

/-- An account is provisioned. -/
theorem Inv.provision (h : Inv options s) (hwritten : CredentialVault.Written s.vault vault []) :
    Inv options { s with vault } := by
  refine { h with sound := hwritten.sound, good := ?_ }
  intro n lease hlease
  refine (h.good n lease hlease).written h.sound hwritten rfl (fun _ hentry => hentry) rfl ?_
  simp

theorem resolveIdentity_written (options : VaultOptions) (hsound : s.vault.Sound)
    (h : RuntimeCredentials.resolveIdentity s.vault account = .ok (vault, identity)) :
    CredentialVault.Written s.vault vault [] ∧ Owned vault account identity := by
  unfold RuntimeCredentials.resolveIdentity at h
  split at h
  · rename_i hissuer
    obtain ⟨found, hfound, heq⟩ := Except.map_eq_ok.1 h
    cases heq
    refine ⟨⟨hsound, le_rfl, fun _ _ => rfl, fun _ _ row hrow => ⟨row, hrow, rfl⟩,
      fun _ _ => .inl (CredentialVault.Kept.refl _ _)⟩, ?_⟩
    unfold RuntimeCredentials.identityFor at hfound
    split at hfound
    · cases hfound
    rename_i other hother
    cases hfound
    obtain ⟨id, hid, hidentity⟩ := bind_eq_some_iff.1 hother
    obtain ⟨row, hrow, rfl⟩ := map_eq_some_iff.1 hidentity
    exact owned_byToken hsound hissuer (bind_eq_some_iff.2 ⟨id, hid, hrow⟩)
  rename_i hissuer
  have hperform : CredentialVault.perform options s.vault (.resolveIdentity account) =
      .ok (vault, []) := by
    rw [CredentialVault.perform, Except.ok.inj h]
  refine ⟨CredentialVault.perform_written hsound rfl hperform, ?_⟩
  exact ⟨fun h => absurd h hissuer, fun h => absurd h hissuer⟩

theorem Inv.identify (h : Inv options s) (hstep : step options s (.identify n) = some t) :
    Inv options t := by
  simp only [step] at hstep
  split at hstep
  · rename_i lease hlease
    split at hstep
    · split at hstep
      · cases hstep
        exact h.move fun _ _ => trivial
      rename_i vault identity hresolved
      cases hstep
      obtain ⟨hwritten, howned⟩ := resolveIdentity_written options h.sound hresolved
      refine (h.provision hwritten).move fun found hfound => ?_
      rw [hlease] at hfound
      cases hfound
      exact howned
    · cases hstep
  · cases hstep

theorem Inv.walk (h : Inv options s) (hstep : step options s (.walk n) = some t) :
    Inv options t := by
  refine h.advance hstep fun lease phase hlease hphase => ?_
  unfold State.walked at hphase
  split at hphase
  · rename_i hopened hdoor
    have hissuer := h.doors lease (mem_of_getElem? hlease) hdoor
    split at hphase
    · rename_i row hrow
      cases hphase
      exact ⟨hissuer, owned_byToken h.sound hissuer hrow, .inl (CredentialVault.Kept.refl _ _)⟩
    · cases hphase
      trivial
  · rename_i identity hidentified
    have hgood := h.good n lease hlease
    rw [Good, hidentified] at hgood
    split at hphase
    · rename_i hissuer
      cases hphase
      exact ⟨hissuer, hgood, .inl (CredentialVault.Kept.refl _ _)⟩
    · cases hphase
  · cases hphase

theorem Doomed.grow {after : Lease} (h : Doomed s n lease)
    (haborted : after.aborted = lease.aborted) (haccount : after.account = lease.account)
    (hbounds : ∀ a ∈ lease.bounds, a ∈ after.bounds) :
    Doomed s n after := by
  rcases h with hdone | hlater | ⟨entry, hentry, hself | hbound⟩
  · exact .inl (haborted.trans hdone)
  · exact .inr (.inl hlater)
  · exact .inr (.inr ⟨entry, hentry, .inl (hself.trans haccount.symm)⟩)
  · exact .inr (.inr ⟨entry, hentry, .inr (hbounds entry.1 hbound)⟩)

theorem Inv.answer (h : Inv options s) (hstep : step options s (.answer n) = some t) :
    Inv options t := by
  refine h.advance hstep fun lease phase hlease hphase => ?_
  have hgood := h.good n lease hlease
  unfold State.answered at hphase
  split at hphase
  · rename_i identity snapshot hwalked
    rw [Good, hwalked] at hgood
    obtain ⟨hissuer, howned, hstate⟩ := hgood
    split at hphase
    · rename_i grant hgrant
      cases hphase
      refine ⟨howned, ?_⟩
      rcases hstate with hkept | hdoomed
      · left
        unfold Fresh
        rw [if_pos hissuer]
        refine ⟨grant, ?_, Subset.refl _, rfl⟩
        rw [← hgrant]
        exact (hkept options.vocabulary s.ancestorGrant s.vault.accounts).symm
      refine .inr (hdoomed.grow rfl rfl ?_)
      intro a ha
      rw [Lease.bounds, hwalked] at ha
      cases ha
    · cases hphase
  · rename_i identity hidentified
    rw [Good, hidentified] at hgood
    split_ifs at hphase with hissuer
    cases hphase
    refine ⟨hgood, .inl ?_⟩
    unfold Fresh
    rw [if_neg hissuer]
    exact Subset.refl _
  · cases hphase

theorem Inv.take (h : Inv options s) (hstep : step options s (.take n) = some t) :
    Inv options t := by
  refine h.advance hstep fun lease phase hlease hphase => ?_
  have hgood := h.good n lease hlease
  unfold Lease.taken at hphase
  split at hphase
  · rename_i identity grant hanswered
    rw [Good, hanswered] at hgood
    obtain ⟨howned, hstate⟩ := hgood
    split at hphase
    · cases hphase
      trivial
    cases hphase
    refine ⟨rfl, howned, ?_⟩
    rcases hstate with hfresh | hdoomed
    · exact .inl hfresh
    refine .inr (hdoomed.grow rfl rfl ?_)
    intro a ha
    rw [Lease.bounds, hanswered] at ha
    exact ha
  · cases hphase

theorem Good.abort (h : Good options s n lease) :
    Good options s n { lease with aborted := true } :=
  h.mono rfl rfl (fun _ howned => howned) (fun _ _ _ _ hkept => .inl hkept)
    (fun _ _ _ _ hfresh => .inl hfresh) fun _ _ _ => .inl rfl

/-- **A delivery reaches whoever it dooms.** -/
theorem Doomed.deliver (hinv : Inv options s) {k : Nat}
    (hentry : s.pending[k]? = some (account, origin)) (hlease : s.leases[n]? = some lease)
    (hsettled : account ∉ lease.unheard) (hfailed : lease.phase ≠ .failed)
    (hreleased : lease.phase ≠ .released) (hpending : t.pending = s.pending.eraseIdx k)
    (hdeferred : t.deferred = s.deferred ++ (origin.toList.filter fun n =>
      s.leases[n]?.any Lease.listening).map fun n => (n, account)) (h : Doomed s n lease) :
    Doomed t n (if origin = some n then lease else lease.hear account) := by
  rcases h with haborted | hlater | ⟨entry, hmem, hreach⟩
  · left
    split
    · exact haborted
    · rw [Lease.hear_aborted, haborted, Bool.true_or]
  · right
    left
    rw [hdeferred, map_append]
    exact mem_append_left _ hlater
  obtain ⟨i, hi⟩ := getElem?_of_mem hmem
  by_cases hik : i = k
  · -- this very entry is delivered
    subst hik
    rw [hentry] at hi
    cases hi
    by_cases horigin : origin = some n
    · rw [if_pos horigin]
      cases haborted : lease.aborted with
      | true => exact .inl haborted
      | false =>
        right
        left
        have hlistening := Lease.listening_of_live hfailed hreleased haborted
        rw [hdeferred, horigin, map_append]
        refine mem_append_right _ ?_
        simp [hlease, hlistening]
    rw [if_neg horigin]
    left
    have hreached : lease.reached account = true := by
      rcases hreach with hself | hbound
      · have hown := Lease.reached_own (hinv.good n lease hlease)
          (hinv.doors lease (mem_of_getElem? hlease)) hfailed hreleased
        rwa [← hself] at hown
      · exact Lease.reached_bound hbound hsettled
    rw [Lease.hear_aborted, hreached, Bool.or_true]
  right
  right
  refine ⟨entry, ?_, ?_⟩
  · rw [hpending, mem_eraseIdx_iff_getElem?]
    exact ⟨i, hik, hi⟩
  split
  · exact hreach
  · rw [Lease.hear_account, Lease.bounds, Lease.hear_phase]
    exact hreach

section

variable (h : Inv options s)
include h

theorem Inv.deliver {k : Nat} (hsettled : Settled s (.deliver k))
    (hstep : step options s (.deliver k) = some t) : Inv options t := by
  simp only [step] at hstep
  split at hstep
  · cases hstep
  rename_i account origin hentry
  cases hstep
  have hafter : ∀ (n : Nat) (after : Lease), (s.leases.mapIdx fun n lease =>
      if origin = some n then lease else lease.hear account)[n]? = some after →
      ∃ lease, s.leases[n]? = some lease ∧
        after = if origin = some n then lease else lease.hear account := by
    intro n after hget
    rw [getElem?_mapIdx, map_eq_some_iff] at hget
    obtain ⟨lease, hlease, rfl⟩ := hget
    exact ⟨lease, hlease, rfl⟩
  have hbefore : ∀ (n : Nat) (lease : Lease), s.leases[n]? = some lease →
      ∃ after : Lease, (s.leases.mapIdx fun n lease =>
        if origin = some n then lease else lease.hear account)[n]? = some after ∧
          after.account = lease.account := by
    intro n lease hlease
    refine ⟨_, by rw [getElem?_mapIdx, hlease, map_some], ?_⟩
    split
    · rfl
    · exact Lease.hear_account lease account
  refine ⟨h.sound, ?_, ?_, ?_, ?_⟩
  · intro after hmem
    obtain ⟨n, hn⟩ := getElem?_of_mem hmem
    obtain ⟨lease, hlease, rfl⟩ := hafter n after hn
    have hold := h.doors lease (mem_of_getElem? hlease)
    split
    · exact hold
    · rw [Lease.hear_door, Lease.hear_account]
      exact hold
  · intro n after hget
    obtain ⟨lease, hlease, rfl⟩ := hafter n after hget
    have hunheard := hsettled (account, origin) hentry lease (mem_of_getElem? hlease)
    refine (h.good n lease hlease).mono ?_ ?_ (fun _ howned => howned)
      (fun _ _ _ _ hkept => .inl hkept) (fun _ _ _ _ hfresh => .inl hfresh) ?_
    · split
      · rfl
      · exact Lease.hear_phase lease account
    · split
      · rfl
      · exact Lease.hear_account lease account
    · intro hfailed hreleased hdoomed
      exact hdoomed.deliver h hentry hlease hunheard hfailed hreleased rfl rfl
  · intro entry hmem n hn
    obtain ⟨lease, hlease, hown⟩ :=
      h.pending_self entry (mem_of_mem_eraseIdx hmem) n hn
    obtain ⟨after, hget, hsame⟩ := hbefore n lease hlease
    exact ⟨after, hget, hsame.trans hown⟩
  · intro entry hmem
    have hold : ∃ lease, s.leases[entry.1]? = some lease ∧ lease.account = entry.2 := by
      rcases mem_append.1 hmem with hmem | hmem
      · exact h.deferred_self entry hmem
      · obtain ⟨n, hn, rfl⟩ := mem_map.1 hmem
        obtain ⟨horigin, -⟩ := mem_filter.1 hn
        exact h.pending_self _ (mem_of_getElem? hentry) n (mem_toList.1 horigin)
    obtain ⟨lease, hlease, hown⟩ := hold
    obtain ⟨after, hget, hsame⟩ := hbefore entry.1 lease hlease
    exact ⟨after, hget, hsame.trans hown⟩

/-- A lease hears what was withheld from it. -/
theorem Inv.tell (n : Nat) :
    Inv options (s.modify n fun lease => (s.deferred.filter fun entry => entry.1 = n).foldl
      (fun lease entry => lease.hear entry.2) lease) := by
  refine h.modify (fun lease => (lease.hearAll _).2.2.1) (fun lease => (lease.hearAll _).2.1) ?_
  intro lease hlease
  obtain ⟨hphase, haccount, -, haborted⟩ :=
    lease.hearAll (s.deferred.filter fun entry => entry.1 = n)
  refine (h.good n lease hlease).mono hphase haccount (fun _ howned => howned)
    (fun _ _ _ _ hkept => .inl hkept) (fun _ _ _ _ hfresh => .inl hfresh) ?_
  rintro - - (hdone | hlater | ⟨entry, hentry, hreach⟩)
  · left
    rw [haborted, hdone, Bool.true_or]
  · exact .inr (.inl hlater)
  · refine .inr (.inr ⟨entry, hentry, ?_⟩)
    rw [haccount, Lease.bounds, hphase]
    exact hreach

/-- What was withheld from a lease aborts it. -/
theorem Inv.told_aborted (hlease : s.leases[n]? = some lease) (hfailed : lease.phase ≠ .failed)
    (hreleased : lease.phase ≠ .released) (hdeferred : n ∈ s.deferred.map Prod.fst) :
    ((s.deferred.filter fun entry => entry.1 = n).foldl
      (fun lease entry => lease.hear entry.2) lease).aborted = true := by
  obtain ⟨-, -, -, haborted⟩ := lease.hearAll (s.deferred.filter fun entry => entry.1 = n)
  obtain ⟨entry, hentry, rfl⟩ := mem_map.1 hdeferred
  obtain ⟨found, hfound, hown⟩ := h.deferred_self entry hentry
  rw [hlease] at hfound
  cases hfound
  have hreached := Lease.reached_own (h.good entry.1 lease hlease)
    (h.doors lease (mem_of_getElem? hlease)) hfailed hreleased
  rw [haborted, Bool.or_eq_true]
  right
  refine any_eq_true.2 ⟨entry, mem_filter.2 ⟨hentry, by simp⟩, ?_⟩
  rwa [← hown]

theorem Inv.finish (hstep : step options s (.finish n) = some t) :
    Inv options t := by
  have htold := h.tell n
  simp only [step, some.injEq] at hstep
  subst hstep
  refine ⟨h.sound, htold.doors, ?_, htold.pending_self, ?_⟩
  · intro m after hafter
    refine (htold.good m after hafter).mono rfl rfl (fun _ howned => howned)
      (fun _ _ _ _ hkept => .inl hkept) (fun _ _ _ _ hfresh => .inl hfresh) ?_
    rintro hfailed hreleased (hdone | hlater | hpending)
    · exact .inl hdone
    · by_cases hm : n = m
      · subst hm
        have hget := getElem?_modify s n n fun lease => (s.deferred.filter fun entry =>
          entry.1 = n).foldl (fun lease entry => lease.hear entry.2) lease
        have hfound := hget.symm.trans hafter
        obtain ⟨lease, hlease, rfl⟩ := map_eq_some_iff.1 hfound
        rw [if_pos rfl] at hfailed hreleased ⊢
        rw [(lease.hearAll _).1] at hfailed hreleased
        exact .inl (h.told_aborted hlease hfailed hreleased hlater)
      right
      left
      obtain ⟨entry, hentry, rfl⟩ := mem_map.1 hlater
      refine mem_map.2 ⟨entry, mem_filter.2 ⟨hentry, ?_⟩, rfl⟩
      simpa using Ne.symm hm
    · exact .inr (.inr hpending)
  · exact fun entry hentry => htold.deferred_self entry (mem_filter.1 hentry).1

/-- **What one step keeps.** -/
theorem Inv.step {e : Event} (hsettled : Settled s e) (hstep : step options s e = some t) :
    Inv options t := by
  cases e with
  | commit => exact h.commit hstep
  | change => exact h.change hstep
  | subscribe => exact h.subscribe hstep
  | identify => exact h.identify hstep
  | walk => exact h.walk hstep
  | answer => exact h.answer hstep
  | take => exact h.take hstep
  | fail | release =>
    cases hstep
    exact h.move fun _ _ => trivial
  | abort n =>
    cases hstep
    exact h.modify (fun _ => rfl) (fun _ => rfl) fun lease hlease => (h.good n lease hlease).abort
  | deliver => exact h.deliver hsettled hstep
  | finish => exact h.finish hstep

end

theorem inv_start (resolver : Nat → Option ExternalAccount → List String) :
    Inv options { resolver } := by
  refine ⟨CredentialVault.sound_empty, ?_, ?_, ?_, ?_⟩ <;> simp

/-! ## A delegate of an account -/

/-- An account of the application's provider. -/
def ada : ExternalAccount := ⟨"provider", "ada"⟩

/-- The token of a delegate. -/
def helperId : TokenId := CredentialVault.mintA.id

/-- A delegate of the account is created, and its token acquires a lease up to the answer. -/
def answeredRun : List Event :=
  [.commit (.resolveIdentity ada) none,
    .commit (.systemCreate (some 1) { name := "helper", scopes := some ["notes"] } 0
      CredentialVault.mintA) none,
    .subscribe .token (tokenAccount helperId), .walk 0, .answer 0]

/-- The lease has its principal. -/
def leasedRun : List Event := answeredRun ++ [.take 0]

/-- The account loses its grant, and is told so, before the lease has its principal. -/
def staleRun : List Event := answeredRun ++ [.change 1 none [] ada none, .deliver 0, .take 0]

/-- Every Identity is granted the notes. -/
def granting : State where
  resolver _ _ := ["notes"]

/-- What a lease carries, and what it would be granted. -/
structure Carried where
  aborted : Bool
  scopes : List String
  granted : List String
  deriving DecidableEq

/-- What a lease carries, if it has a principal. -/
def State.carried (s : State) (lease : Lease) : Option Carried :=
  match lease.phase with
  | .leased principal => some ⟨lease.aborted, principal.scopes,
      s.grantNow CredentialVault.notesOptions lease.account principal.identity⟩
  | _ => none

/-- How much is not delivered, how much is deferred, and what each lease carries. -/
def view (s : State) : Nat × Nat × List (Option Carried) :=
  (s.pending.length, s.deferred.length, s.leases.map s.carried)

theorem leasedRun_view : (Run.run (step CredentialVault.notesOptions) granting leasedRun).map
    view = some (0, 0, [some ⟨false, ["notes"], ["notes"]⟩]) := by
  decide +kernel

theorem staleRun_view : (Run.run (step CredentialVault.notesOptions) granting staleRun).map
    view = some (0, 0, [some ⟨false, ["notes"], []⟩]) := by
  decide +kernel

/-- What a view of one lease says of the state. -/
theorem exists_lease {s : State} {scopes granted : List String}
    (h : view s = (0, 0, [some ⟨false, scopes, granted⟩])) :
    s.pending = [] ∧ s.deferred = [] ∧ ∃ lease principal, s.leases[0]? = some lease ∧
      lease.aborted = false ∧ lease.phase = .leased principal ∧ principal.scopes = scopes ∧
      s.grantNow CredentialVault.notesOptions lease.account principal.identity = granted := by
  simp only [view, Prod.mk.injEq, length_eq_zero_iff] at h
  obtain ⟨hpending, hdeferred, hleases⟩ := h
  obtain ⟨lease, hsingle, hcarried⟩ := map_eq_singleton_iff.1 hleases
  unfold State.carried at hcarried
  split at hcarried
  · rename_i principal hphase
    simp only [some.injEq, Carried.mk.injEq] at hcarried
    obtain ⟨haborted, hscopes, hgranted⟩ := hcarried
    exact ⟨hpending, hdeferred, lease, principal, by simp [hsingle], haborted, hphase, hscopes,
      hgranted⟩
  · cases hcarried

theorem leasedRun_settled :
    Run.Guarded (step CredentialVault.notesOptions) Settled granting leasedRun := by
  apply Run.guarded_of_forall
  intro e he s
  simp only [leasedRun, answeredRun, cons_append, nil_append, mem_cons,
    not_mem_nil, or_false] at he
  rcases he with rfl | rfl | rfl | rfl | rfl | rfl <;> trivial

/-! ## No stale authority -/

end Leases

end AckerDB
