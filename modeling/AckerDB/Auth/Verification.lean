import AckerDB.Auth.Delegation

/-!
# Verifying a presented credential

`RuntimeCredentials` answers for the vault's tokens and passes every other bearer to the
application's verifier; `verifyClientCredential` turns what is proved into a principal.

* `verifyClientCredential`, `isPrincipal` — the path every transport shares;
* `entitlement` — what the chain above a credential and the grant of its root leave of the
  vocabulary;
* `credential_authenticates` — a credential of the vault authenticates with exactly that, unless it
  is more than a grant may have patterns.
-/

namespace AckerDB

open CredentialVault (UserPrincipal EffectiveGrant invalidCredential)

/-! ## Presented credentials -/

/-- `Credential`. -/
inductive PresentedCredential where
  | anonymous
  | bearer (token : String)

/-- `VerifiedCredential`, but for its claims. -/
structure VerifiedCredential where
  workload : Bool
  issuer : String
  subject : String
  expiresAt : Option ℚ
  tokenId : Option String

/-- `ClientPrincipal`. -/
inductive ClientPrincipal where
  | anonymous
  | workload (credential : VerifiedCredential)
  | user (principal : UserPrincipal)

/-- What `RuntimeCredentials` is constructed with. -/
structure RuntimeCredentials where
  vault : VaultOptions
  /-- `resolveAppScopes`. -/
  resolveAppScopes : Option (Nat → Option ExternalAccount → Except Thrown (List String))
  appVerifier : Option (String → Except Thrown VerifiedCredential)

/-- `MAX_CREDENTIAL_BYTES`. -/
def maxCredentialBytes : Nat := 16 * 1024

/-- `parseCredential`, of a bearer. -/
def parseBearer (token : String) : Except Thrown String :=
  if token = "" ∨ maxCredentialBytes < token.utf8ByteSize then .error invalidCredential
  else .ok token

/-- A failure of the framework's own stays; any other is `auth_unavailable`. -/
def authFailure : Thrown → Thrown
  | .ackerdb error => .ackerdb error
  | _ => authUnavailable

/-- `isVerifiedCredential`. -/
def isVerifiedCredential (candidate : VerifiedCredential) : Bool :=
  candidate.issuer ≠ "" ∧ candidate.subject ≠ ""

/-- `isPrincipal`. -/
def isPrincipal : ClientPrincipal → Bool
  | .anonymous => true
  | .workload credential => isVerifiedCredential credential
  | .user principal =>
    principal.issuer ≠ "" ∧ principal.subject ≠ "" ∧ 0 < principal.identity ∧
      isScopeGrant principal.scopes = true

/-- The credential has expired. -/
def expired (expiresAt : Option ℚ) (now : ℚ) : Bool := expiresAt.any fun stamp => stamp ≤ now

namespace RuntimeCredentials

variable (runtime : RuntimeCredentials) (v : CredentialVault)

/-- `verify`: a reserved bearer is the vault's to answer, malformed included. -/
def verify (credential : String) : Except Thrown VerifiedCredential :=
  match parseCredentialToken credential, runtime.appVerifier with
  | some parsed, _ =>
    (v.authenticate runtime.vault parsed).map fun row =>
      { workload := false, issuer := credentialIssuer, subject := row.tokenId.text
        expiresAt := none, tokenId := some row.tokenId.text }
  | none, none => .error invalidCredential
  | none, some source =>
    if hasCredentialTokenStem credential then .error invalidCredential else source credential

/-- `identityFor`. -/
def identityFor (account : ExternalAccount) : Except Thrown Nat :=
  match (TokenPart.parse 22 account.subject.toList).bind v.identityForToken with
  | none => .error invalidCredential
  | some identity => .ok identity

/-- `resolveIdentity`: an account of the vault is never provisioned. -/
def resolveIdentity (account : ExternalAccount) : Except Thrown (CredentialVault × Nat) :=
  if account.issuer = credentialIssuer then
    (identityFor v account).map fun identity => (v, identity)
  else .ok (v.resolveIdentity account)

/-- The application's answer; without a resolver it is the empty grant. -/
def appGrant (identity : Nat) (account : Option ExternalAccount) : Except Thrown (List String) :=
  runtime.resolveAppScopes.elim (.ok []) fun resolve => resolve identity account

/-- `resolveIdentityGrant`. -/
def resolveIdentityGrant (identity : Nat) : Except Thrown (List String) :=
  runtime.appGrant identity none

/-- `resolveScopes`. -/
def resolveScopes (identity : Nat) (account : ExternalAccount) :
    Option (Except Thrown EffectiveGrant) :=
  if account.issuer ≠ credentialIssuer then
    some ((runtime.appGrant identity (some account)).map fun grant =>
      ⟨expandScopeGrant grant runtime.vault.vocabulary, []⟩)
  else v.effectiveGrant runtime.vault.vocabulary runtime.resolveIdentityGrant identity

/-- `verifyBearerCredential`. -/
def verifyBearerCredential (token : String) (now : ℚ) : Except Thrown VerifiedCredential := do
  let token ← parseBearer token
  let candidate ← (runtime.verify v token).mapError authFailure
  if !isVerifiedCredential candidate then .error authUnavailable
  else if expired candidate.expiresAt now then .error invalidCredential
  else return candidate

/-- The principal of a verified user. -/
def userPrincipal (verified : VerifiedCredential) (identity : Nat) (grant : EffectiveGrant)
    (resolvedAt : ℚ) : Except Thrown ClientPrincipal :=
  if !isScopeGrant grant.scopes then .error authUnavailable
  else if expired verified.expiresAt resolvedAt then .error invalidCredential
  else .ok (.user
    { identity, scopes := grant.scopes, issuer := verified.issuer, subject := verified.subject
      expiresAt := verified.expiresAt, tokenId := verified.tokenId
      derivedFrom := grant.derivedFrom })

/-- `verifyClientCredential`, with the clock readings before and after the scopes are resolved. -/
def verifyClientCredential (credential : PresentedCredential) (now resolvedAt : ℚ) :
    Option (Except Thrown (CredentialVault × ClientPrincipal)) :=
  match credential with
  | .anonymous => some (.ok (v, .anonymous))
  | .bearer token =>
    match runtime.verifyBearerCredential v token now with
    | .error thrown => some (.error thrown)
    | .ok verified =>
      if verified.workload then some (.ok (v, .workload verified))
      else
        let account : ExternalAccount := ⟨verified.issuer, verified.subject⟩
        match (resolveIdentity v account).mapError authFailure with
        | .error thrown => some (.error thrown)
        | .ok (v, identity) =>
          (runtime.resolveScopes v identity account).map fun resolved => do
            let grant ← resolved.mapError authFailure
            let principal ← userPrincipal verified identity grant resolvedAt
            return (v, principal)

end RuntimeCredentials

/-! ## What a credential is entitled to -/

namespace CredentialVault

variable {v : CredentialVault} {grantOf : Nat → List String}

/-- The patterns of every credential on the chain, and the grant of an Identity it ends in, match
the scope. -/
def Entitled (v : CredentialVault) (grantOf : Nat → List String) (row : CredentialRow)
    (scope : String) : Prop :=
  (∀ above, Above v row above → grants above.scopes.1 scope = true) ∧
    ∀ above, Above v row above → ∀ root, above.parentIdentity = some root →
      v.credentialOf root = none → grants (grantOf root) scope = true

open Classical in
/-- The members of the vocabulary a credential is entitled to. -/
noncomputable def entitlement (v : CredentialVault) (grantOf : Nat → List String)
    (vocabulary : List String) (row : CredentialRow) : List String :=
  vocabulary.filter fun scope => Entitled v grantOf row scope

theorem above_iff (row other : CredentialRow) :
    Above v row other ↔ other = row ∨ ∃ issuer, Issued v row issuer ∧ Above v issuer other := by
  refine Relation.ReflTransGen.cases_head_iff.trans ?_
  rw [eq_comm]

variable {row : CredentialRow}

theorem not_issued {issuer : CredentialRow} (hparent : row.parentIdentity = none) :
    ¬Issued v row issuer := by
  rintro ⟨-, h⟩
  rw [hparent] at h
  cases h

theorem entitled_standalone (hparent : row.parentIdentity = none) (scope : String) :
    Entitled v grantOf row scope ↔ grants row.scopes.1 scope = true := by
  have habove : ∀ other, Above v row other ↔ other = row := by
    intro other
    simp [above_iff row other, not_issued hparent]
  simp [Entitled, habove, hparent]

/-- The chain ends in an Identity that is no credential. -/
theorem Sound.entitled_root (h : Sound v) {root : Nat} (hparent : row.parentIdentity = some root)
    (hroot : v.credentialOf root = none) (scope : String) : Entitled v grantOf row scope ↔
      grants row.scopes.1 scope = true ∧ grants (grantOf root) scope = true := by
  have hnot : ∀ issuer, ¬Issued v row issuer := by
    rintro issuer ⟨hissuer, hidentity⟩
    rw [hparent, Option.some_inj] at hidentity
    rw [hidentity, h.credentialOf hissuer] at hroot
    cases hroot
  have habove : ∀ other, Above v row other ↔ other = row := by
    intro other
    simp [above_iff row other, hnot]
  simp [Entitled, habove, hparent, hroot]

theorem Sound.entitled_child (h : Sound v) {issuer : CredentialRow} (hissued : Issued v row issuer)
    (scope : String) : Entitled v grantOf row scope ↔
      grants row.scopes.1 scope = true ∧ Entitled v grantOf issuer scope := by
  have hsame : ∀ other, Issued v row other ↔ other = issuer := by
    intro other
    constructor
    · rintro ⟨hother, hidentity⟩
      rw [hissued.2, Option.some_inj] at hidentity
      exact List.inj_on_of_nodup_map h.identities_nodup hother hissued.1 hidentity.symm
    · rintro rfl
      exact hissued
  have habove : ∀ other, Above v row other ↔ other = row ∨ Above v issuer other := by
    intro other
    simp [above_iff row other, hsame]
  have hlive : v.credentialOf issuer.identity ≠ none := by simp [h.credentialOf hissued.1]
  constructor
  · rintro ⟨hchain, hroots⟩
    refine ⟨hchain row .refl, fun other hother => ?_, fun other hother root => ?_⟩
    · exact hchain other ((habove other).2 (.inr hother))
    · exact hroots other ((habove other).2 (.inr hother)) root
  rintro ⟨hrow, hchain, hroots⟩
  refine ⟨fun other hother => ?_, fun other hother root hparent hroot => ?_⟩
  · rcases (habove other).1 hother with rfl | hother
    · exact hrow
    · exact hchain other hother
  rcases (habove other).1 hother with rfl | hother
  · rw [hissued.2, Option.some_inj] at hparent
    rw [hparent] at hlive
    exact absurd hroot hlive
  · exact hroots other hother root hparent hroot

theorem effectiveChildScopes_expand (patterns vocabulary : List String) (p : String → Bool) :
    effectiveChildScopes (expandScopeGrant patterns vocabulary) (vocabulary.filter p) =
      vocabulary.filter fun scope => grants patterns scope && p scope := by
  rw [effectiveChildScopes, expandScopeGrant, List.filter_filter]
  apply List.filter_congr
  intro scope hscope
  simp [hscope, Bool.and_comm]

/-- **The walk computes the entitlement.** -/
theorem Sound.effectiveGrant_entitlement (h : Sound v) {vocabulary : List String}
    {resolve : Nat → Except Thrown (List String)}
    (hresolve : ∀ identity, resolve identity = .ok (grantOf identity)) (hrow : row ∈ v.rows) :
    ∃ derivedFrom, v.effectiveGrant vocabulary resolve row.identity =
      some (.ok ⟨entitlement v grantOf vocabulary row, derivedFrom⟩) := by
  classical
  suffices hchain : ∀ identity, ∀ row ∈ v.rows, row.identity = identity → ∃ derivedFrom,
      v.effectiveGrant vocabulary resolve row.identity =
        some (.ok ⟨entitlement v grantOf vocabulary row, derivedFrom⟩) from
    hchain row.identity row hrow rfl
  intro identity
  induction identity using h.chain_induct with
  | hroot identity hnone =>
    rintro row hrow rfl
    rw [h.credentialOf hrow] at hnone
    cases hnone
  | hstandalone found hfound hparent =>
    intro row hrow hidentity
    obtain rfl := List.inj_on_of_nodup_map h.identities_nodup hrow hfound hidentity
    refine ⟨[], ?_⟩
    rw [h.effectiveGrant_standalone hrow hparent, entitlement, expandScopeGrant]
    simp only [entitled_standalone hparent, Bool.decide_eq_true]
  | hchild found hfound parent hparent ih =>
    intro row hrow hidentity
    obtain rfl := List.inj_on_of_nodup_map h.identities_nodup hrow hfound hidentity
    rw [h.effectiveGrant_child hrow hparent]
    cases hissuer : v.credentialOf parent with
    | none =>
      refine ⟨v.accountsForIdentity parent, ?_⟩
      rw [effectiveGrant_root hissuer, hresolve]
      simp only [Except.map, Option.map_some, entitlement, h.entitled_root hparent hissuer,
        Bool.decide_and, Bool.decide_eq_true]
      rw [← effectiveChildScopes_expand]
      rfl
    | some issuer =>
      obtain ⟨hmem, rfl⟩ := mem_of_credentialOf hissuer
      obtain ⟨derivedFrom, hgrant⟩ := ih issuer hmem rfl
      refine ⟨derivedFrom, ?_⟩
      have hissued : Issued v row issuer := ⟨hmem, hparent⟩
      rw [hgrant]
      simp only [Except.map, Option.map_some, entitlement, h.entitled_child hissued,
        Bool.decide_and, Bool.decide_eq_true]
      rw [effectiveChildScopes_expand]

end CredentialVault

/-! ## Authentication -/

namespace RuntimeCredentials

variable {runtime : RuntimeCredentials} {v : CredentialVault}

theorem utf8ByteSize_ofList_le (chars : List Char) :
    (String.ofList chars).utf8ByteSize ≤ 4 * chars.length := by
  induction chars with
  | nil => simp
  | cons c =>
    have hsize := Char.utf8Size_le_four c
    have hsingle : (String.singleton c).utf8ByteSize = c.utf8Size := by simp
    rw [String.ofList_cons, String.utf8ByteSize_append, List.length_cons]
    omega

theorem parseBearer_token (id : TokenId) (secret : TokenSecret) :
    parseBearer (credentialToken id secret) = .ok (credentialToken id secret) := by
  have hstem : credentialTokenStem.length = 19 := by decide
  have hlength : (credentialTokenStem ++ id.chars ++ '.' :: secret.chars).length = 85 := by
    simp only [List.length_append, List.length_cons, id.length_eq, secret.length_eq, hstem]
  have hbytes : (credentialToken id secret).utf8ByteSize ≤ 4 * 85 := by
    rw [← hlength]
    exact utf8ByteSize_ofList_le _
  have hnonempty : credentialToken id secret ≠ "" := by
    intro hempty
    have hstem := hasCredentialTokenStem_token id secret
    rw [hempty] at hstem
    exact absurd hstem (by decide)
  have hsmall : ¬maxCredentialBytes < (credentialToken id secret).utf8ByteSize := by
    unfold maxCredentialBytes
    omega
  simp [parseBearer, hnonempty, hsmall]

variable {row : CredentialRow}

theorem byToken_eq (h : v.Sound) (hrow : row ∈ v.rows) :
    v.byToken row.tokenId = some row := by
  cases hfind : v.byToken row.tokenId with
  | none =>
    have hnone := List.find?_eq_none.1 hfind row hrow
    simp at hnone
  | some found =>
    have htoken : found.tokenId = row.tokenId := by simpa using List.find?_some hfind
    rw [h.eq_of_token (List.mem_of_find?_eq_some hfind) hrow htoken]

/-- What verification proves of a credential of the vault. -/
def evidence (row : CredentialRow) : VerifiedCredential :=
  { workload := false, issuer := credentialIssuer, subject := row.tokenId.text
    expiresAt := none, tokenId := some row.tokenId.text }

theorem subject_ne_empty (id : TokenId) : id.text ≠ "" := by
  intro hempty
  have hnil : id.chars = [] := by simpa [TokenPart.text] using hempty
  have hlength := id.length_eq
  rw [hnil] at hlength
  cases hlength

variable {secret : TokenSecret}

theorem verifyBearerCredential_token (h : v.Sound) (hrow : row ∈ v.rows)
    (hsecret : runtime.vault.digest secret = row.secretDigest) (now : ℚ) :
    runtime.verifyBearerCredential v (credentialToken row.tokenId secret) now =
      .ok (evidence row) := by
  have hverify : runtime.verify v (credentialToken row.tokenId secret) = .ok (evidence row) := by
    simp only [verify, parseCredentialToken_token, CredentialVault.authenticate,
      byToken_eq h hrow, hsecret, if_true]
    rfl
  have hevidence : isVerifiedCredential (evidence row) = true := by
    simp [isVerifiedCredential, evidence, subject_ne_empty, credentialIssuer]
  have hlasting : expired (evidence row).expiresAt now = false := rfl
  simp only [verifyBearerCredential, parseBearer_token, Except.ok_bind, hverify, Except.mapError,
    hevidence, hlasting]
  rfl

theorem resolveIdentity_token (h : v.Sound) (hrow : row ∈ v.rows) :
    resolveIdentity v ⟨credentialIssuer, row.tokenId.text⟩ = .ok (v, row.identity) := by
  simp [resolveIdentity, identityFor, TokenPart.text, TokenPart.parse_chars,
    CredentialVault.identityForToken, byToken_eq h hrow, Except.map]

/-- **A credential is verified as the principal of its grant.** -/
theorem verifyClientCredential_token (h : v.Sound) (hrow : row ∈ v.rows)
    (hsecret : runtime.vault.digest secret = row.secretDigest) {grant : EffectiveGrant}
    (hgrant : v.effectiveGrant runtime.vault.vocabulary runtime.resolveIdentityGrant row.identity =
      some (.ok grant)) (now resolvedAt : ℚ) :
    runtime.verifyClientCredential v (.bearer (credentialToken row.tokenId secret)) now resolvedAt =
      some ((userPrincipal (evidence row) row.identity grant resolvedAt).map fun principal =>
        (v, principal)) := by
  simp only [verifyClientCredential, verifyBearerCredential_token h hrow hsecret]
  simp only [evidence, resolveIdentity_token h hrow, Except.mapError, resolveScopes, hgrant]
  rfl

/-- **Every credential authenticates with exactly its grant, unless the grant is too long.**  The
chain above the credential and the grant of its root leave some members of the vocabulary; the
principal carries exactly these, if a grant may have that many patterns, and there is none
otherwise. -/
theorem credential_authenticates (runtime : RuntimeCredentials)
    (hvocabulary : KnownVocabulary runtime.vault.vocabulary) (v : CredentialVault)
    (h : CredentialVault.Reachable runtime.vault v) (row : CredentialRow) (hrow : row ∈ v.rows)
    (secret : TokenSecret) (hsecret : runtime.vault.digest secret = row.secretDigest)
    (grantOf : Nat → List String)
    (hresolve : ∀ identity, runtime.resolveIdentityGrant identity = .ok (grantOf identity))
    (now resolvedAt : ℚ) :
    (∃ principal, runtime.verifyClientCredential v
        (.bearer (credentialToken row.tokenId secret)) now resolvedAt =
          some (.ok (v, .user principal)) ∧
        isPrincipal (.user principal) = true ∧ principal.identity = row.identity ∧
        principal.scopes = v.entitlement grantOf runtime.vault.vocabulary row) ↔
      (v.entitlement grantOf runtime.vault.vocabulary row).length ≤ maxScopePatterns := by
  have hsound := CredentialVault.Reachable.sound h
  obtain ⟨derivedFrom, hgrant⟩ := hsound.effectiveGrant_entitlement hresolve hrow
  rw [verifyClientCredential_token hsound hrow hsecret hgrant]
  have hlength : isScopeGrant (v.entitlement grantOf runtime.vault.vocabulary row) = true ↔ _ :=
    hvocabulary.isScopeGrant_filter _
  rw [← CredentialVault.entitlement] at hlength
  rw [← hlength]
  constructor
  · rintro ⟨principal, hprincipal, -⟩
    by_contra hlong
    simp only [userPrincipal, Bool.not_eq_true] at hprincipal hlong
    rw [hlong] at hprincipal
    cases hprincipal
  intro hgranted
  have hlasting : expired (evidence row).expiresAt resolvedAt = false := rfl
  let principal : UserPrincipal :=
    { identity := row.identity, scopes := v.entitlement grantOf runtime.vault.vocabulary row
      issuer := credentialIssuer, subject := row.tokenId.text
      tokenId := some row.tokenId.text, derivedFrom }
  refine ⟨principal, ?_, ?_, rfl, rfl⟩
  · simp only [userPrincipal, hgranted, hlasting]
    rfl
  · have hidentity := (hsound.bounded row hrow).1
    simp [isPrincipal, principal, subject_ne_empty, credentialIssuer, hidentity, hgranted]

/-! ## The largest vocabulary -/

/-- Scopes of one letter each. -/
def letterScopes (count : Nat) : List String :=
  (List.range count).map fun n => String.singleton (Char.ofNat (n + 256))

/-- A runtime whose application declares so many scopes. -/
def lettered (count : Nat) : RuntimeCredentials where
  vault := { CredentialVault.notesOptions with
    vocabulary := knownScopeVocabulary (some (letterScopes count)) }
  resolveAppScopes := none
  appVerifier := none

/-- The Admin Credential is minted. -/
def bootRun : List CredentialVault.Event :=
  [.systemCreate none { name := "admin", scopes := some administrativeGrant } 0
    CredentialVault.mintA]

/-- The token of the Admin Credential. -/
def bootToken : PresentedCredential :=
  .bearer (credentialToken CredentialVault.mintA.id CredentialVault.mintA.secret)

/-- A row has the token of the Admin Credential. -/
def isBootRow (row : CredentialRow) : Bool :=
  row.tokenId = CredentialVault.mintA.id ∧
    CredentialVault.notesOptions.digest CredentialVault.mintA.secret = row.secretDigest

/-- The vault has the Admin Credential, and what its token is refused with. -/
def bootRefusal (count : Nat) (v : CredentialVault) : Bool × Option Thrown :=
  (v.rows.any isBootRow,
    match (lettered count).verifyClientCredential v bootToken 0 0 with
    | some (.error thrown) => some thrown
    | _ => none)

theorem knownVocabulary_letters {count : Nat}
    (h : validateScopeVocabulary (letterScopes count) = .ok (letterScopes count)) :
    KnownVocabulary (lettered count).vault.vocabulary :=
  ⟨.inr ⟨letterScopes count, h, rfl⟩⟩

theorem bootRun_letter : (Run.run (CredentialVault.step (lettered 1).vault) {} bootRun).map
    (bootRefusal 1) = some (true, none) := by
  decide +kernel

theorem bootRun_letters : (Run.run (CredentialVault.step (lettered 117).vault) {} bootRun).map
    (bootRefusal 117) = some (true, some authUnavailable) := by
  decide +kernel

theorem exists_bootRow {v : CredentialVault} (h : v.rows.any isBootRow = true) :
    ∃ row ∈ v.rows, row.tokenId = CredentialVault.sameId 'a' rfl ∧
      CredentialVault.notesOptions.digest (CredentialVault.sameSecret 'a' rfl) =
        row.secretDigest := by
  obtain ⟨row, hrow, hboot⟩ := List.any_eq_true.1 h
  exact ⟨row, hrow, of_decide_eq_true hboot⟩

theorem credential_authenticates_boot : ∃ v principal,
    Run.run (CredentialVault.step (lettered 1).vault) {} bootRun = some v ∧
      (lettered 1).verifyClientCredential v bootToken 0 0 = some (.ok (v, .user principal)) ∧
      isPrincipal (.user principal) = true := by
  obtain ⟨v, hrun, hview⟩ := Option.map_eq_some_iff.1 bootRun_letter
  obtain ⟨row, hrow, htoken, hdigest⟩ := exists_bootRow (Prod.ext_iff.1 hview).1
  have hshort : (v.entitlement (fun _ => []) (lettered 1).vault.vocabulary row).length ≤
      maxScopePatterns :=
    (List.length_filter_le _ _).trans (by decide)
  obtain ⟨principal, hverified, hprincipal, -⟩ := (credential_authenticates (lettered 1)
    (knownVocabulary_letters (by decide +kernel)) v (Run.reachable_of_run hrun) row hrow
    (CredentialVault.sameSecret 'a' rfl) hdigest (fun _ => []) (fun _ => rfl) 0 0).2 hshort
  rw [htoken] at hverified
  exact ⟨v, principal, hrun, hverified, hprincipal⟩

/-- With 117 scopes of the application, the Admin Credential cannot authenticate. -/
theorem large_vocabulary_is_refused : ∃ v row, KnownVocabulary (lettered 117).vault.vocabulary ∧
    CredentialVault.Reachable (lettered 117).vault v ∧ row ∈ v.rows ∧
      row.tokenId = CredentialVault.sameId 'a' rfl ∧
      (lettered 117).vault.digest (CredentialVault.sameSecret 'a' rfl) = row.secretDigest ∧
      (lettered 117).verifyClientCredential v bootToken 0 0 = some (.error authUnavailable) := by
  obtain ⟨v, hrun, hview⟩ := Option.map_eq_some_iff.1 bootRun_letters
  obtain ⟨hboot, hrefused⟩ := Prod.ext_iff.1 hview
  obtain ⟨row, hrow, htoken, hdigest⟩ := exists_bootRow hboot
  refine ⟨v, row, knownVocabulary_letters (by decide +kernel), Run.reachable_of_run hrun, hrow,
    htoken, hdigest, ?_⟩
  simp only [bootRefusal] at hrefused
  split at hrefused
  · rename_i thrown hthrown
    rw [hthrown, Option.some_inj.1 hrefused]
  · cases hrefused

end RuntimeCredentials

end AckerDB
