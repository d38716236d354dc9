import AckerDB.Core.Value

/-!
# Scopes

An application declares a vocabulary of scopes, the framework adds its own under the reserved
marker, and a grant is a list of patterns that is expanded against both.

* `isScopeGrant`, `validateScopeVocabulary`, `knownScopeVocabulary` — what is accepted;
* `expandScopeGrant`, `effectiveChildScopes` — what a grant authorizes;
* `expandScopeGrant_reserved` — the framework's scopes take a reserved pattern;
* `KnownVocabulary.isScopeGrant_filter` — the one validator that patterns and their expansion
  share accepts an expansion exactly if it is not too long.
-/

namespace AckerDB

/-- `MAX_APP_SCOPES`. -/
def maxAppScopes : Nat := 128

/-- `MAX_SCOPE_BYTES`. -/
def maxScopeBytes : Nat := 256

/-- `MAX_SCOPE_PATTERNS`. -/
def maxScopePatterns : Nat := 128

/-- `SCOPE_WILDCARD`. -/
def scopeWildcard : Char := '*'

/-- `RESERVED_MARKER`. -/
def reservedMarker : Char := '_'

/-- `ADMIN_SCOPES`. -/
def adminScopes : List String :=
  ["_admin:credentials:read", "_admin:credentials:write", "_admin:database:read",
    "_admin:database:write", "_admin:errors:read", "_admin:errors:write", "_admin:functions:run",
    "_admin:impersonate", "_admin:jobs:read", "_admin:jobs:write", "_admin:logs:read",
    "_admin:system:read"]

/-- `ADMINISTRATIVE_GRANT`. -/
def administrativeGrant : List String := ["*", "_*"]

/-- `isAdministrativeGrant`: order is not part of the claim. -/
def isAdministrativeGrant (patterns : List String) : Bool :=
  patterns.length = administrativeGrant.length ∧
    administrativeGrant.all fun pattern => patterns.contains pattern

/-! ## What is accepted -/

/-- The characters `trim` removes. -/
def isTrimmed (c : Char) : Bool :=
  c.toNat ∈ [9, 10, 11, 12, 13, 32, 160, 5760, 8232, 8233, 8239, 8287, 12288, 65279] ∨
    8192 ≤ c.toNat ∧ c.toNat ≤ 8202

/-- `value.trim() === ""`. -/
def isBlank (text : String) : Bool := text.toList.all isTrimmed

/-- `boundedName`. -/
def boundedName (value : String) : Bool := !isBlank value ∧ value.utf8ByteSize ≤ maxScopeBytes

/-- `value.endsWith(SCOPE_WILDCARD)`. -/
def endsOpen (value : String) : Bool := value.toList.getLast? = some scopeWildcard

/-- `isScopePattern`: a wildcard may only be the last character. -/
def isScopePattern (value : String) : Bool :=
  boundedName value ∧ (scopeWildcard ∉ value.toList ∨
    value.toList.idxOf scopeWildcard = value.toList.length - 1)

/-- `isScopeGrant`. -/
def isScopeGrant (value : List String) : Bool :=
  value.length ≤ maxScopePatterns ∧ value.all isScopePattern ∧ value.Nodup

/-- A grant that has been accepted. -/
abbrev Grant : Type := { patterns : List String // isScopeGrant patterns = true }

/-- `isReservedScope`. -/
def isReservedScope (value : String) : Bool := value.toList.head? = some reservedMarker

/-- The check of one application scope. -/
def checkApplicationScope (scope : String) : Except JsError Unit :=
  if !boundedName scope then
    .error (.typeError
      "each application scope must be a non-empty string of at most 256 UTF-8 bytes")
  else if scopeWildcard ∈ scope.toList then
    .error (.typeError ("application scope \"" ++ scope ++ "\" must not contain \"*\"" ++
      " — the wildcard belongs to grants, never to the vocabulary"))
  else if isReservedScope scope then
    .error (.typeError ("application scope \"" ++ scope ++ "\" begins with \"_\"," ++
      " which marks the framework's own vocabulary"))
  else .ok ()

/-- `validateScopeVocabulary`. -/
def validateScopeVocabulary (value : List String) : Except JsError (List String) :=
  if value.length = 0 then .error (.typeError "application scopes must be a non-empty array")
  else if maxAppScopes < value.length then
    .error (.typeError "application scopes must contain at most 128 values")
  else
    match value.mapM checkApplicationScope with
    | .error error => .error error
    | .ok _ =>
      if value.Nodup then .ok value
      else .error (.typeError "application scopes must not contain duplicate values")

/-- `knownScopeVocabulary`. -/
def knownScopeVocabulary : Option (List String) → List String
  | none => adminScopes
  | some scopes => scopes ++ adminScopes

/-! ## What a grant authorizes -/

/-- `matchesPattern`: a bare `*` is every application scope. -/
def matchesPattern (pattern scope : String) : Bool :=
  if endsOpen pattern then
    let stem := pattern.toList.dropLast
    if stem = [] then !isReservedScope scope else stem.isPrefixOf scope.toList
  else pattern = scope

/-- Some pattern of the grant matches. -/
def grants (patterns : List String) (scope : String) : Bool :=
  patterns.any fun pattern => matchesPattern pattern scope

/-- `expandScopeGrant`, in the order of the vocabulary. -/
def expandScopeGrant (patterns vocabulary : List String) : List String :=
  vocabulary.filter (grants patterns)

/-- `effectiveChildScopes`. -/
def effectiveChildScopes (childScopes parentScopes : List String) : List String :=
  childScopes.filter fun scope => parentScopes.contains scope

/-- A vocabulary the framework works with. -/
structure KnownVocabulary (vocabulary : List String) : Prop where
  accepted : vocabulary = adminScopes ∨ ∃ scopes, validateScopeVocabulary scopes = .ok scopes ∧
    vocabulary = scopes ++ adminScopes

/-! ## The reserved scopes -/

theorem matchesPattern_reserved {pattern scope : String} (h : matchesPattern pattern scope = true) :
    isReservedScope scope = isReservedScope pattern := by
  unfold matchesPattern at h
  split at h
  · rename_i hopen
    obtain ⟨stem, hstem⟩ := List.getLast?_eq_some_iff.1 (of_decide_eq_true hopen)
    rw [hstem, List.dropLast_concat] at h
    cases stem with
    | nil => simp_all [isReservedScope, scopeWildcard, reservedMarker]
    | cons c stem =>
      obtain ⟨rest, hrest⟩ := List.isPrefixOf_iff_prefix.1 h
      simp [isReservedScope, hstem, ← hrest]
  · rw [of_decide_eq_true h]

/-- **The framework's scopes are granted by reserved patterns only, and the application's by the
others only**, in particular not by a bare wildcard. -/
theorem expandScopeGrant_reserved (patterns vocabulary : List String) (reserved : Bool) :
    (expandScopeGrant patterns vocabulary).filter (isReservedScope · == reserved) =
      expandScopeGrant (patterns.filter (isReservedScope · == reserved)) vocabulary := by
  rw [expandScopeGrant, expandScopeGrant, List.filter_filter]
  refine List.filter_congr fun scope _ => ?_
  rw [Bool.eq_iff_iff]
  simp only [grants, Bool.and_eq_true, beq_iff_eq, List.any_eq_true, List.mem_filter]
  constructor
  · rintro ⟨hscope, pattern, hpattern, hmatches⟩
    exact ⟨pattern, ⟨hpattern, matchesPattern_reserved hmatches ▸ hscope⟩, hmatches⟩
  · rintro ⟨pattern, ⟨hpattern, hreserved⟩, hmatches⟩
    exact ⟨(matchesPattern_reserved hmatches).trans hreserved, pattern, hpattern, hmatches⟩

/-! ## The vocabulary as a grant -/

theorem checkApplicationScope_ok {scope : String} (h : checkApplicationScope scope = .ok ()) :
    boundedName scope = true ∧ scopeWildcard ∉ scope.toList ∧ isReservedScope scope = false := by
  unfold checkApplicationScope at h
  split_ifs at h with hbounded hwild
  · rename_i hreserved
    exact ⟨by simpa using hbounded, hwild, by simpa using hreserved⟩

variable {scopes : List String}

theorem mapM_ok {units : List Unit} (h : scopes.mapM checkApplicationScope = .ok units) :
    ∀ scope ∈ scopes, checkApplicationScope scope = .ok () := by
  induction scopes generalizing units with
  | nil => simp
  | cons scope rest ih =>
    rw [List.mapM_cons] at h
    cases hfirst : checkApplicationScope scope with
    | error =>
      rw [hfirst] at h
      cases h
    | ok =>
      rw [hfirst] at h
      cases hrest : rest.mapM checkApplicationScope with
      | error =>
        rw [hrest] at h
        cases h
      | ok =>
        exact List.forall_mem_cons.2 ⟨hfirst, ih hrest⟩

theorem validateScopeVocabulary_ok (h : validateScopeVocabulary scopes = .ok scopes) :
    scopes.length ≤ maxAppScopes ∧ scopes.Nodup ∧
      ∀ scope ∈ scopes, checkApplicationScope scope = .ok () := by
  unfold validateScopeVocabulary at h
  split at h
  · cases h
  split at h
  · cases h
  split at h
  · cases h
  rename_i units hunits
  split at h
  · rename_i hnodup
    exact ⟨by omega, hnodup, mapM_ok hunits⟩
  · cases h

theorem isScopePattern_of_closed {scope : String} (hbounded : boundedName scope = true)
    (hclosed : scopeWildcard ∉ scope.toList) : isScopePattern scope = true := by
  simp [isScopePattern, hbounded, hclosed]

theorem adminScopes_patterns : ∀ scope ∈ adminScopes, isScopePattern scope = true := by
  decide

theorem adminScopes_reserved : ∀ scope ∈ adminScopes, isReservedScope scope = true := by
  decide

theorem adminScopes_nodup : adminScopes.Nodup := by decide

namespace KnownVocabulary

variable {vocabulary : List String}

theorem patterns (h : KnownVocabulary vocabulary) :
    ∀ scope ∈ vocabulary, isScopePattern scope = true := by
  intro scope hscope
  rcases h.accepted with rfl | ⟨scopes, hvalid, rfl⟩
  · exact adminScopes_patterns scope hscope
  rcases List.mem_append.1 hscope with hscope | hscope
  · obtain ⟨-, -, hchecks⟩ := validateScopeVocabulary_ok hvalid
    obtain ⟨hbounded, hclosed, -⟩ := checkApplicationScope_ok (hchecks scope hscope)
    exact isScopePattern_of_closed hbounded hclosed
  · exact adminScopes_patterns scope hscope

theorem nodup (h : KnownVocabulary vocabulary) : vocabulary.Nodup := by
  rcases h.accepted with rfl | ⟨scopes, hvalid, rfl⟩
  · exact adminScopes_nodup
  obtain ⟨-, hnodup, hchecks⟩ := validateScopeVocabulary_ok hvalid
  refine List.Nodup.append hnodup adminScopes_nodup ?_
  intro scope happ hadmin
  obtain ⟨-, -, hplain⟩ := checkApplicationScope_ok (hchecks scope happ)
  rw [adminScopes_reserved scope hadmin] at hplain
  cases hplain

/-- **An expansion passes the validator of grants exactly if it has at most as many scopes as a
grant may have patterns.** -/
theorem isScopeGrant_filter (h : KnownVocabulary vocabulary) (p : String → Bool) :
    isScopeGrant (vocabulary.filter p) = true ↔
      (vocabulary.filter p).length ≤ maxScopePatterns := by
  have hpatterns : (vocabulary.filter p).all isScopePattern = true := by
    rw [List.all_eq_true]
    exact fun scope hscope => h.patterns scope (List.mem_filter.1 hscope).1
  have hnodup := h.nodup.filter p
  simp [isScopeGrant, hpatterns, hnodup]

end KnownVocabulary

end AckerDB
