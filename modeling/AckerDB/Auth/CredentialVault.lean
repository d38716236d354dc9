import AckerDB.Lib.Except
import AckerDB.Core.Wire
import AckerDB.Shared.Errors
import AckerDB.Auth.Scopes

/-!
# The credential vault

Every credential is an Identity of its own, and names the Identity that issued it.  The stored
grant is a list of patterns; what it authorizes is decided when a principal is built, by every
credential on the chain above.

* `create`, `update`, `updateScopes`, `revoke`, `lineage` — the vault;
* `effectiveGrant` — the grant a credential holds now;
* `createAs`, `systemCreate`, `rotate`, … — the surfaces through which the vault is written.
-/

namespace AckerDB

/-! ## Tokens -/

/-- The alphabet of both parts of a token. -/
def isTokenChar (c : Char) : Bool := c.isAlphanum || c = '_' || c = '-'

/-- One part of a token: so many characters of the alphabet. -/
structure TokenPart (size : Nat) where
  chars : List Char
  length_eq : chars.length = size
  alphabet : chars.all isTokenChar = true
  deriving DecidableEq

/-- `PUBLIC_ID_LENGTH` characters name a credential. -/
abbrev TokenId := TokenPart 22

/-- `SECRET_LENGTH` characters prove it. -/
abbrev TokenSecret := TokenPart 43

namespace TokenPart

/-- The part as a text. -/
def text {size : Nat} (part : TokenPart size) : String := String.ofList part.chars

/-- The text of a part. -/
def parse (size : Nat) (chars : List Char) : Option (TokenPart size) :=
  if h : chars.length = size ∧ chars.all isTokenChar = true then some ⟨chars, h.1, h.2⟩ else none

theorem parse_chars {size : Nat} (part : TokenPart size) : parse size part.chars = some part := by
  simp [parse, part.length_eq, part.alphabet]

end TokenPart

/-- `CREDENTIAL_TOKEN_PREFIX`. -/
def credentialTokenStem : List Char := "ackerdb_credential.".toList

/-- `hasCredentialTokenPrefix`. -/
def hasCredentialTokenStem (value : String) : Bool := credentialTokenStem.isPrefixOf value.toList

/-- `ParsedCredentialToken`. -/
structure ParsedCredentialToken where
  id : TokenId
  secret : TokenSecret
  deriving DecidableEq

/-- The bearer text of a credential. -/
def credentialToken (id : TokenId) (secret : TokenSecret) : String :=
  String.ofList (credentialTokenStem ++ id.chars ++ '.' :: secret.chars)

/-- `parseCredentialToken`. -/
def parseCredentialToken (value : String) : Option ParsedCredentialToken :=
  let body := value.toList.drop credentialTokenStem.length
  if hasCredentialTokenStem value ∧ body[22]? = some '.' then do
    let id ← TokenPart.parse 22 (body.take 22)
    let secret ← TokenPart.parse 43 (body.drop 23)
    return ⟨id, secret⟩
  else none

theorem hasCredentialTokenStem_token (id : TokenId) (secret : TokenSecret) :
    hasCredentialTokenStem (credentialToken id secret) = true := by
  simp [hasCredentialTokenStem, credentialToken]

/-- **A token is read back as what it was made of.** -/
theorem parseCredentialToken_token (id : TokenId) (secret : TokenSecret) :
    parseCredentialToken (credentialToken id secret) = some ⟨id, secret⟩ := by
  have hbody : (credentialToken id secret).toList.drop credentialTokenStem.length =
      id.chars ++ '.' :: secret.chars := by
    simp [credentialToken]
  have hdot : (id.chars ++ '.' :: secret.chars)[22]? = some '.' := by
    rw [List.getElem?_append_right (by rw [id.length_eq]), id.length_eq]
    rfl
  have htake : (id.chars ++ '.' :: secret.chars).take 22 = id.chars :=
    List.take_left' id.length_eq
  have hdrop : (id.chars ++ '.' :: secret.chars).drop 23 = secret.chars := by
    rw [show 23 = 22 + 1 from rfl, ← List.drop_drop, List.drop_left' id.length_eq]
    rfl
  simp only [parseCredentialToken, hbody, hdot, htake, hdrop, hasCredentialTokenStem_token,
    TokenPart.parse_chars]
  rfl

/-! ## What is stored -/

/-- `ExternalAccount`. -/
structure ExternalAccount where
  issuer : String
  subject : String
  deriving DecidableEq

/-- `CREDENTIAL_ISSUER`. -/
def credentialIssuer : String := "ackerdb:credentials"

/-- A digest has 32 bytes. -/
abbrev Digest : Type := { bytes : List UInt8 // bytes.length = 32 }

/-- `_ackerdb_credentials`. -/
structure CredentialRow where
  tokenId : TokenId
  identity : Nat
  parentIdentity : Option Nat
  secretDigest : Digest
  name : String
  metadata : Json
  scopes : Grant
  createdAt : ℚ
  updatedAt : ℚ
  deriving DecidableEq

/-- The vault, with the Identities and accounts it refers to. -/
structure CredentialVault where
  /-- The rows of `_ackerdb_identities`: they count up from 1, and none is ever deleted. -/
  identities : Nat := 0
  /-- `_ackerdb_identity_accounts`. -/
  accounts : List (ExternalAccount × Nat) := []
  /-- In the order of creation. -/
  rows : List CredentialRow := []
  /-- Every Identity that was minted for a credential.  No operation reads it. -/
  held : List Nat := []

/-- `CredentialLimits`. -/
structure CredentialLimits where
  maxPerIdentity : Nat
  maxNameBytes : Nat
  maxMetadataBytes : Nat

/-- What the vault is configured with. -/
structure VaultOptions where
  limits : CredentialLimits
  /-- Application scopes plus the framework's. -/
  vocabulary : List String
  digest : TokenSecret → Digest
  /-- The bytes of a JSON text. -/
  jsonBytes : Json → Nat

/-- What `randomBytes` answers. -/
structure Mint where
  id : TokenId
  secret : TokenSecret

/-- `CredentialCreateInput`. -/
structure CredentialCreateInput where
  name : String
  metadata : Option (List (String × JsValue)) := none
  scopes : Option (List String) := none

/-- `CredentialUpdateInput`. -/
structure CredentialUpdateInput where
  name : Option String := none
  metadata : Option (List (String × JsValue)) := none

/-- `CreatedCredential`: the descriptor and the token. -/
structure CreatedCredential where
  row : CredentialRow
  token : String

namespace CredentialVault

/-! ## What is accepted -/

/-- `trim`. -/
def trim (text : String) : String :=
  String.ofList ((text.toList.dropWhile isTrimmed).reverse.dropWhile isTrimmed).reverse

/-- `credentialName`. -/
def credentialName (value : String) (maxBytes : Nat) : Except Thrown String :=
  if isBlank value then .error (invalid "credential name must be non-empty")
  else if maxBytes < (trim value).utf8ByteSize then
    .error (invalid ("credential name exceeds " ++ toString maxBytes ++ " UTF-8 bytes"))
  else .ok (trim value)

/-- `metadata`. -/
def encodeMetadata (options : VaultOptions) (value : List (String × JsValue)) :
    Except Thrown Json :=
  match Wire.encode (.object value) with
  | .error _ => .error (invalid "credential metadata must be wire-encodable")
  | .ok encoded =>
    if options.limits.maxMetadataBytes < options.jsonBytes encoded then
      .error (invalid ("credential metadata exceeds " ++
        toString options.limits.maxMetadataBytes ++ " UTF-8 bytes"))
    else .ok encoded

/-- The first pattern that names no scope. -/
def undeclared (vocabulary value : List String) : Option String :=
  value.find? fun pattern => !endsOpen pattern && !vocabulary.contains pattern

/-- `normalizeGrantPatterns`. -/
def normalizeGrantPatterns (vocabulary : List String) (where_ : String) (value : List String) :
    Except Thrown Grant :=
  if maxScopePatterns < value.length then
    .error (invalid (where_ ++ " must contain at most 128 patterns"))
  else if h : isScopeGrant value = true then
    match undeclared vocabulary value with
    | some pattern =>
      .error (invalid (where_ ++ " contains undeclared scope \"" ++ pattern ++ "\""))
    | none => .ok ⟨value, h⟩
  else
    .error (invalid (where_ ++
      " must be unique scope patterns, each a name optionally ending in \"*\""))

/-- The name of the field in messages. -/
def credentialScopes : String := "credential scopes"

/-- The check of the clock. -/
def checkClock (now : ℚ) : Except Thrown Unit :=
  if now < 0 then .error (.rangeError "credential clock must be finite and non-negative")
  else .ok ()

/-! ## Reads -/

variable (v : CredentialVault)

/-- The row of `_ackerdb_identities` exists. -/
def hasIdentity (identity : Nat) : Bool := 0 < identity ∧ identity ≤ v.identities

/-- `requireIdentity`. -/
def requireIdentity (identity : Nat) : Except Thrown Unit :=
  if v.hasIdentity identity then .ok () else .error (missing "Identity not found")

/-- The credential an Identity is. -/
def credentialOf (identity : Nat) : Option CredentialRow :=
  v.rows.find? fun row => row.identity = identity

/-- The credential a token id names. -/
def byToken (tokenId : TokenId) : Option CredentialRow :=
  v.rows.find? fun row => row.tokenId = tokenId

/-- The credential a token id names, if that owner issued it. -/
def owned (parent : Option Nat) (tokenId : TokenId) : Option CredentialRow :=
  v.rows.find? fun row => row.tokenId = tokenId ∧ row.parentIdentity = parent

/-- `accountsForIdentity`. -/
def accountsForIdentity (identity : Nat) : List ExternalAccount :=
  (v.accounts.filter fun (_, owner) => owner = identity).map Prod.fst

/-- The credentials issued by one. -/
def children (row : CredentialRow) : List CredentialRow :=
  v.rows.filter fun child => child.parentIdentity = some row.identity

/-- Level after level of a delegation tree. -/
def descend : Nat → List CredentialRow → List CredentialRow
  | 0, level => level
  | fuel + 1, level => level ++ descend fuel (level.flatMap v.children)

/-- `lineage`: a level lies above the one before it, so there are at most as many as there are
Identities. -/
def lineage (tokenId : TokenId) : List TokenId :=
  (v.descend v.identities (v.rows.filter fun row => row.tokenId = tokenId)).map
    CredentialRow.tokenId

/-- `listAdministrative`. -/
def listAdministrative : List CredentialRow :=
  v.rows.filter fun row => row.parentIdentity = none ∧ isAdministrativeGrant row.scopes.1 = true

/-- `identityForToken`. -/
def identityForToken (tokenId : TokenId) : Option Nat :=
  (v.byToken tokenId).map CredentialRow.identity

/-- `authenticate`. -/
def authenticate (options : VaultOptions) (parsed : ParsedCredentialToken) :
    Except Thrown CredentialRow :=
  match v.byToken parsed.id with
  | none => .error invalidCredential
  | some row =>
    if options.digest parsed.secret = row.secretDigest then .ok row
    else .error invalidCredential

/-- `EffectiveGrant`. -/
structure EffectiveGrant where
  scopes : List String
  derivedFrom : List ExternalAccount

/-- The walk up a delegation chain, for at most so many steps. -/
def grantWalk (vocabulary : List String) (resolve : Nat → Except Thrown (List String)) :
    Nat → Nat → Option (Except Thrown EffectiveGrant)
  | 0, _ => none
  | fuel + 1, identity =>
    match v.credentialOf identity with
    | none => some ((resolve identity).map fun patterns =>
      ⟨expandScopeGrant patterns vocabulary, v.accountsForIdentity identity⟩)
    | some row =>
      let stored := expandScopeGrant row.scopes.1 vocabulary
      match row.parentIdentity with
      | none => some (.ok ⟨stored, []⟩)
      | some parent =>
        (grantWalk vocabulary resolve fuel parent).map fun result =>
          result.map fun above =>
            ⟨effectiveChildScopes stored above.scopes, above.derivedFrom⟩

/-- `effectiveGrant`: an Identity is above the one that issued it. -/
def effectiveGrant (vocabulary : List String) (resolve : Nat → Except Thrown (List String))
    (identity : Nat) : Option (Except Thrown EffectiveGrant) :=
  v.grantWalk vocabulary resolve (identity + 1) identity

/-! ## Writes -/

/-- Insert a row under a new Identity. -/
def insertRow (row : Nat → CredentialRow) : CredentialVault :=
  { v with
    identities := v.identities + 1
    rows := v.rows ++ [row (v.identities + 1)]
    held := (v.identities + 1) :: v.held }

/-- Change the rows of one token id. -/
def patchRow (tokenId : TokenId) (change : CredentialRow → CredentialRow) : CredentialVault :=
  { v with rows := v.rows.map fun row => if row.tokenId = tokenId then change row else row }

/-- Delete the rows of some token ids. -/
def deleteRows (tokenIds : List TokenId) : CredentialVault :=
  { v with rows := v.rows.filter fun row => row.tokenId ∉ tokenIds }

variable (options : VaultOptions)

variable (parent : Option Nat)

/-- `create`. -/
def create (input : CredentialCreateInput) (now : ℚ) (mint : Mint) :
    Except Thrown (CredentialVault × CreatedCredential) := do
  let name ← credentialName input.name options.limits.maxNameBytes
  let metadata ← encodeMetadata options (input.metadata.getD [])
  let scopes ← normalizeGrantPatterns options.vocabulary credentialScopes (input.scopes.getD [])
  checkClock now
  parent.elim (.ok ()) v.requireIdentity
  if options.limits.maxPerIdentity ≤ v.rows.countP fun row => row.parentIdentity = parent then
    .error capacityFull
  else if (v.byToken mint.id).isSome then .error (.foreign "UNIQUE constraint failed")
  else
    let row : Nat → CredentialRow := fun identity =>
      { tokenId := mint.id, identity, parentIdentity := parent
        secretDigest := options.digest mint.secret, name, metadata, scopes
        createdAt := now, updatedAt := now }
    return (v.insertRow row, ⟨row (v.identities + 1), credentialToken mint.id mint.secret⟩)

/-- The stamp of an update is not before the creation. -/
def checkStamp (row : CredentialRow) (now : ℚ) : Except Thrown Unit :=
  if now < row.createdAt then .error (.foreign "CHECK constraint failed") else .ok ()

/-- `update`. -/
def update (parent : Option Nat) (tokenId : TokenId) (input : CredentialUpdateInput)
    (now : ℚ) : Except Thrown CredentialVault := do
  if input.name = none ∧ input.metadata.isNone then
    .error (invalid "credential update requires name or metadata")
  else
    let name ← input.name.mapM fun name => credentialName name options.limits.maxNameBytes
    let metadata ← input.metadata.mapM (encodeMetadata options)
    checkClock now
    match v.owned parent tokenId with
    | none => .error (missing "credential not found")
    | some row => do
        checkStamp row now
        return v.patchRow tokenId fun row =>
          { row with
            name := name.getD row.name
            metadata := metadata.getD row.metadata
            updatedAt := now }

/-- `updateScopes`, with the token ids whose live authority the change can reach. -/
def updateScopes (tokenId : TokenId) (value : List String) (now : ℚ) :
    Except Thrown (CredentialVault × List TokenId) := do
  let scopes ← normalizeGrantPatterns options.vocabulary credentialScopes value
  match v.owned parent tokenId with
  | none => .error (missing "credential not found")
  | some row => do
      checkStamp row now
      let changed := v.patchRow tokenId fun row => { row with scopes, updatedAt := now }
      return (changed, if row.scopes = scopes then [] else changed.lineage tokenId)

/-- `revoke`, with the token ids it removes. -/
def revoke (tokenId : TokenId) :
    Except Thrown (CredentialVault × List TokenId) :=
  match v.owned parent tokenId with
  | none => .error (missing "credential not found")
  | some _ => .ok (v.deleteRows (v.lineage tokenId), v.lineage tokenId)

/-! ## Accounts -/

/-- `identityForAccount`. -/
def identityForAccount (account : ExternalAccount) : Option Nat := v.accounts.lookup account

/-- `resolveIdentity`: resolve or provision one exact account. -/
def resolveIdentity (account : ExternalAccount) : CredentialVault × Nat :=
  match v.identityForAccount account with
  | some identity => (v, identity)
  | none =>
    ({ v with
        identities := v.identities + 1
        accounts := v.accounts ++ [(account, v.identities + 1)] }, v.identities + 1)

/-- `attachIdentityAccount`. -/
def attachIdentityAccount (identity : Nat) (account : ExternalAccount) :
    CredentialVault × Bool :=
  match v.identityForAccount account with
  | some owner => (v, owner = identity)
  | none => ({ v with accounts := v.accounts ++ [(account, identity)] }, true)

/-- `detachIdentityAccount`: the last account stays. -/
def detachIdentityAccount (identity : Nat) (account : ExternalAccount) : CredentialVault :=
  if v.identityForAccount account = some identity ∧
      1 < v.accounts.countP fun (_, owner) => owner = identity then
    { v with accounts := v.accounts.filter fun entry => entry ≠ (account, identity) }
  else v

/-! ## The surfaces -/

/-- The fields of a `UserPrincipal` the credential code reads. -/
structure UserPrincipal where
  identity : Nat
  scopes : List String
  issuer : String
  subject : String
  /-- `null` is the expiry of what never expires. -/
  expiresAt : Option ℚ := none
  tokenId : Option String
  derivedFrom : List ExternalAccount := []
  deriving DecidableEq

/-- The first scope the issuer does not hold. -/
def notHeld (parentScopes requested : List String) : Option String :=
  requested.find? fun scope => !parentScopes.contains scope

/-- `issueChildScopes`. -/
def issueChildScopes (parentScopes : List String) (requested : Grant) (vocabulary : List String) :
    Except Thrown Grant :=
  match notHeld parentScopes (expandScopeGrant requested.1 vocabulary) with
  | some scope => .error (forbidden ("cannot delegate scope \"" ++ scope ++
      "\": the issuing identity does not hold it"))
  | none => .ok requested

variable (principal : UserPrincipal)

/-- `delegable`. -/
def delegable (scopes : List String) : Except Thrown Unit := do
  let patterns ← normalizeGrantPatterns options.vocabulary credentialScopes scopes
  let _ ← issueChildScopes principal.scopes patterns options.vocabulary
  return ()

/-- `namedOutright`: nothing bounds the expansion of a system grant, so a child's has none. -/
def namedOutright (scopes : List String) : Except Thrown Unit := do
  let patterns ← normalizeGrantPatterns options.vocabulary credentialScopes scopes
  match parent, patterns.1.find? endsOpen with
  | some _, some pattern => .error (forbidden (credentialScopes ++ ": \"" ++ pattern ++
      "\" is open-ended, and system authority has no grant to bound it against" ++
      " — name the scopes outright, or issue from the parent identity"))
  | _, _ => .ok ()

/-- `credentials.create`. -/
def createAs (input : CredentialCreateInput) (now : ℚ) (mint : Mint) :
    Except Thrown (CredentialVault × CreatedCredential) := do
  input.scopes.elim (.ok ()) (delegable options principal)
  v.create options (some principal.identity) input now mint

/-- `credentials.updateScopes`. -/
def updateScopesAs (tokenId : TokenId) (scopes : List String)
    (now : ℚ) : Except Thrown (CredentialVault × List TokenId) := do
  delegable options principal scopes
  v.updateScopes options (some principal.identity) tokenId scopes now

/-- `systemCredentials.create`. -/
def systemCreate (input : CredentialCreateInput) (now : ℚ)
    (mint : Mint) : Except Thrown (CredentialVault × CreatedCredential) := do
  input.scopes.elim (.ok ()) (namedOutright options parent)
  v.create options parent input now mint

/-- `systemCredentials.updateScopes`. -/
def systemUpdateScopes (tokenId : TokenId) (scopes : List String)
    (now : ℚ) : Except Thrown (CredentialVault × List TokenId) := do
  namedOutright options parent scopes
  v.updateScopes options parent tokenId scopes now

/-- Revoke root credentials one after the other. -/
def revokeAll : CredentialVault → List CredentialRow →
    Except Thrown (CredentialVault × List TokenId)
  | v, [] => .ok (v, [])
  | v, row :: rest => do
      let (v, revoked) ← v.revoke none row.tokenId
      let (v, others) ← revokeAll v rest
      return (v, revoked ++ others)

/-- `adminCredentials.rotate`: the caller is one of the credentials it replaces. -/
def rotate (name : String) (now : ℚ) (mint : Mint) :
    Except Thrown (CredentialVault × CreatedCredential × List TokenId) := do
  let superseded := v.listAdministrative
  if principal.issuer = credentialIssuer ∧
      superseded.any (fun row => row.identity = principal.identity) then do
    let (revoked, tokenIds) ← v.revokeAll superseded
    let (minted, created) ← revoked.create options none
      { name, scopes := some administrativeGrant } now mint
    return (minted, created, tokenIds)
  else
    .error (forbidden ("credential rotation replaces the Admin Credential it is called with," ++
      " and this caller presents none"))

end CredentialVault

end AckerDB
