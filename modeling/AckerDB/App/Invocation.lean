import AckerDB.Core.Result
import AckerDB.Lib.Run

/-!
# Invocations of registered functions

One root invocation and the registered queries, mutations and procedures called inside of it.  Every
invocation of the tree shares the root's poison mark; an invocation whose result arrives after the
mark was set rejects with it.

* `finishInvocation` — the poison mark, then the declared results and errors;
* `execute` — access policy, scope requirement and handler, synchronous or not;
* `InvocationTree.step` — a call, or the end of one;
* `failure_surfaces` — a failed nested call is not swallowed, as long as no asynchronous call
  outside of a mutation scope has its result refused by its own declaration.
-/

namespace AckerDB

/-! ## Functions -/

/-- What is thrown through an invocation. -/
inductive InvocationError where
  /-- `AckerDBError`. -/
  | ackerDB (code message : String)
  /-- The error of a validator. -/
  | refused (error : JsError)
  /-- Whatever application code throws. -/
  | application (value : JsValue)
  deriving DecidableEq

/-- The kinds of function that poison their tree. -/
inductive FunctionKind where
  | query | mutation | procedure
  deriving DecidableEq

/-- `AccessPolicy`; the answer of a callback is an input. -/
inductive AccessPolicy where
  | «public» | authenticated | system | callback
  deriving DecidableEq

/-- The kinds of principal that access tells apart. -/
inductive PrincipalKind where
  | anonymous | system | identified
  deriving DecidableEq

/-- One declared error. -/
structure ErrorDeclaration where
  status : Nat
  /-- `body.check`, with the path of the value. -/
  body : JsValue → String → Except JsError JsValue

/-- A registered function, as far as its invocation reads it. -/
structure RegisteredFunction where
  kind : FunctionKind
  access : AccessPolicy
  /-- `returns.check`. -/
  returns : Option (JsValue → String → Except JsError JsValue)
  errors : Option (List (String × ErrorDeclaration))

/-- What a handler returns. -/
inductive HandlerValue where
  /-- Not a `Result`. -/
  | plain (value : JsValue)
  | result (result : Result)
  /-- An `Err` without an application error. -/
  | foreignErr (error : JsValue)

/-- `finishInvocation`. -/
def finishInvocation (fn : RegisteredFunction) (value : HandlerValue)
    (poison : Option InvocationError) : Except InvocationError Result :=
  match poison with
  | some error => .error error
  | none =>
    let checkData := fun data =>
      match fn.returns with
      | none => .ok (.ok data)
      | some check =>
        match check data "returns" with
        | .ok data => .ok (.ok data)
        | .error error => .error (.refused error)
    match value with
    | .plain data => checkData data
    | .result (.ok data) => checkData data
    | .foreignErr _ =>
      .error (.ackerDB "validation" "registered Err must contain an application error")
    | .result (.err error) =>
      match fn.errors with
      | none => .ok (.err error)
      | some declarations =>
        match declarations.lookup error.code with
        | none => .error (.ackerDB "validation"
            ("errors does not declare returned code \"" ++ error.code ++ "\""))
        | some declaration =>
          if declaration.status ≠ error.status.1 then
            .error (.ackerDB "validation"
              ("errors." ++ error.code ++ ".status does not match the returned status"))
          else
            match declaration.body error.body ("errors." ++ error.code ++ ".body") with
            | .ok body => .ok (.err { error with body := body })
            | .error failure => .error (.refused failure)

/-! ## Access and handler -/

/-- Whether work settled before it returned, or as a promise. -/
inductive Timing where
  | sync | async
  deriving DecidableEq

/-- `denied`. -/
def denied (principal : PrincipalKind) : InvocationError :=
  if principal = .anonymous then .ackerDB "unauthenticated" "authentication required"
  else .ackerDB "unauthorized" "access denied"

/-- What the environment of one invocation does. -/
structure Attempt where
  /-- The answer of the access callback. -/
  answer : Except InvocationError Bool
  /-- `enforceScopeRequirement` throws. -/
  scopes : Option InvocationError
  /-- How the handler settles. -/
  timing : Timing
  outcome : Except InvocationError HandlerValue
  /-- The savepoint of a nested mutation could not be released or rolled back. -/
  savepoint : Option InvocationError

/-- `compileBaseAccess`. -/
def baseAccess (policy : AccessPolicy) (principal : PrincipalKind)
    (answer : Except InvocationError Bool) : Timing × Except InvocationError Unit :=
  match policy with
  | .public => (.sync, .ok ())
  | .authenticated => (.sync, if principal = .anonymous then .error (denied principal) else .ok ())
  | .system => (.sync, if principal ≠ .system then .error (denied principal) else .ok ())
  | .callback => (.async, match answer with
      | .error _ => .error (.ackerDB "unauthorized" "access denied")
      | .ok allowed => if allowed then .ok () else .error (denied principal))

/-- `compileAccess`: the base policy, then the scope requirement. -/
def enforceAccess (policy : AccessPolicy) (principal : PrincipalKind) (attempt : Attempt) :
    Timing × Except InvocationError Unit :=
  match baseAccess policy principal attempt.answer, attempt.scopes with
  | (timing, .ok ()), some error => (timing, .error error)
  | access, _ => access

/-- The work of an invocation: access, then the handler. -/
def execute (fn : RegisteredFunction) (principal : PrincipalKind) (attempt : Attempt) :
    Timing × Except InvocationError HandlerValue :=
  match enforceAccess fn.access principal attempt with
  | (timing, .error error) => (timing, .error error)
  | (.async, .ok ()) => (.async, attempt.outcome)
  | (.sync, .ok ()) => (attempt.timing, attempt.outcome)

/-! ## The tree -/

/-- How an invocation stands. -/
inductive InvocationStatus where
  | running
  | fulfilled (result : Result)
  | rejected (error : InvocationError)
  deriving DecidableEq

/-- An invocation. -/
structure Invocation where
  fn : RegisteredFunction
  /-- It runs in a savepoint of its own. -/
  ownScope : Bool
  status : InvocationStatus

/-- A root invocation and those inside of it, by number; the root has number 0. -/
structure InvocationTree where
  principal : PrincipalKind
  calls : List Invocation
  poison : Option InvocationError := none

/-- A nested call, or the end of an invocation. -/
inductive InvocationEvent where
  /-- `checks` is what the checks of context and arguments come to; `mutationAccess` whether the
  ambient state has one. -/
  | call (fn : RegisteredFunction) (checks : Except InvocationError Unit) (mutationAccess : Bool)
  | settle (number : Nat) (attempt : Attempt)

namespace InvocationTree

/-- The root has been invoked. -/
def start (fn : RegisteredFunction) (principal : PrincipalKind) : InvocationTree where
  principal := principal
  calls := [⟨fn, false, .running⟩]

section

variable (s : InvocationTree)

/-- `markPoisoned`: the first error stays. -/
def markPoisoned (error : InvocationError) : InvocationTree :=
  { s with poison := some (s.poison.getD error) }

/-- Mark the error, if there is one. -/
def mark : Option InvocationError → InvocationTree
  | some error => s.markPoisoned error
  | none => s

/-- The tree with an invocation's status changed. -/
def setStatus (number : Nat) (status : InvocationStatus) : InvocationTree :=
  { s with calls := s.calls.modify number fun call => { call with status := status } }

/-- `execute` of `runInvocation`: what the invocation comes to, and the error to mark.  The
rejection of an asynchronous `finishInvocation` is not marked here. -/
def runInvocation (fn : RegisteredFunction) (work : Timing × Except InvocationError HandlerValue)
    (poison : Option InvocationError) : InvocationStatus × Option InvocationError :=
  match work with
  | (_, .error error) => (.rejected error, some error)
  | (.sync, .ok value) =>
    match finishInvocation fn value poison with
    | .ok result => (.fulfilled result, none)
    | .error error => (.rejected error, some error)
  | (.async, .ok value) =>
    match finishInvocation fn value poison with
    | .ok result => (.fulfilled result, none)
    | .error error => (.rejected error, none)

/-- A savepoint that cannot be released or rolled back rejects. -/
def savepointStatus (status : InvocationStatus) : Option InvocationError → InvocationStatus
  | some error => .rejected error
  | none => status

/-- The scope of a nested mutation: whatever rejects is marked. -/
def scopedRun (inner : InvocationStatus × Option InvocationError)
    (savepoint : Option InvocationError) : InvocationStatus × Option InvocationError :=
  match savepointStatus inner.1 savepoint with
  | .rejected error => (.rejected error, some (inner.2.getD error))
  | status => (status, inner.2)

/-- `invokeUnobserved`, and the end of an invocation. -/
def step : InvocationEvent → Option InvocationTree
  | .call fn checks mutationAccess =>
    match checks with
    | .error error =>
      some (markPoisoned { s with calls := s.calls ++ [⟨fn, false, .rejected error⟩] } error)
    | .ok () =>
      let ownScope := decide (fn.kind = .mutation ∧ mutationAccess = true)
      some { s with calls := s.calls ++ [⟨fn, ownScope, .running⟩] }
  | .settle number attempt =>
    match s.calls[number]? with
    | none => none
    | some call =>
      if call.status = .running then
        let inner := runInvocation call.fn (execute call.fn s.principal attempt) s.poison
        let ended := if call.ownScope then scopedRun inner attempt.savepoint else inner
        some ((s.setStatus number ended.1).mark ended.2)
      else none

/-- The status of an invocation. -/
def status (number : Nat) : Option InvocationStatus :=
  (s.calls[number]?).map Invocation.status

/-- An invocation inside of the root has rejected. -/
def Failed : Prop :=
  ∃ number error, 0 < number ∧ s.status number = some (.rejected error)

/-- No asynchronous call outside of a mutation scope has its result refused by its own
declaration. -/
def Declared : InvocationEvent → Prop
  | .call _ _ _ => True
  | .settle number attempt => ∀ call, s.calls[number]? = some call → 0 < number →
      call.ownScope = false → ∀ value, execute call.fn s.principal attempt = (.async, .ok value) →
      ∃ result, finishInvocation call.fn value none = .ok result

end

/-! ## One event -/

variable {s t : InvocationTree}

theorem finishInvocation_poisoned (fn : RegisteredFunction) (value : HandlerValue)
    (error : InvocationError) : finishInvocation fn value (some error) = .error error := rfl

variable {error : InvocationError}

/-- **What rejects is marked**, but for an asynchronous result that is refused. -/
theorem runInvocation_mark {fn : RegisteredFunction}
    {work : Timing × Except InvocationError HandlerValue} {poison mark : Option InvocationError}
    (h : runInvocation fn work poison = (.rejected error, mark)) :
    mark.isSome = true ∨ ∃ value, work = (.async, .ok value) ∧
      finishInvocation fn value poison = .error error := by
  obtain ⟨timing, outcome⟩ := work
  cases outcome with
  | error =>
    cases h
    exact .inl rfl
  | ok value =>
    cases timing with
    | sync =>
      simp only [runInvocation] at h
      split at h
      · cases h
      · cases h
        exact .inl rfl
    | async =>
      simp only [runInvocation] at h
      split at h
      · cases h
      · rename_i thrown hthrown
        cases h
        exact .inr ⟨value, rfl, hthrown⟩

/-- A poisoned tree fulfils nothing. -/
theorem runInvocation_poisoned (fn : RegisteredFunction)
    (work : Timing × Except InvocationError HandlerValue) (error : InvocationError)
    (result : Result) : (runInvocation fn work (some error)).1 ≠ .fulfilled result := by
  obtain ⟨timing, outcome⟩ := work
  cases outcome with
  | error => simp [runInvocation]
  | ok => cases timing <;> simp [runInvocation, finishInvocation_poisoned]

variable {inner : InvocationStatus × Option InvocationError} {savepoint : Option InvocationError}

theorem scopedRun_mark (h : (scopedRun inner savepoint).1 = .rejected error) :
    (scopedRun inner savepoint).2.isSome = true := by
  unfold scopedRun at h ⊢
  cases hstatus : savepointStatus inner.1 savepoint with
  | rejected => rfl
  | running | fulfilled =>
    rw [hstatus] at h
    cases h

theorem scopedRun_fulfilled {result : Result}
    (h : (scopedRun inner savepoint).1 = .fulfilled result) :
    inner.1 = .fulfilled result := by
  have hstatus : savepointStatus inner.1 savepoint = .fulfilled result := by
    unfold scopedRun at h
    cases hstatus : savepointStatus inner.1 savepoint with
    | rejected | running =>
      rw [hstatus] at h
      cases h
    | fulfilled =>
      rw [hstatus] at h
      exact h
  cases savepoint with
  | some => cases hstatus
  | none => exact hstatus

variable {number : Nat}

/-- What the end of an invocation does. -/
theorem settle_cases {attempt : Attempt} (h : s.step (.settle number attempt) = some t) :
    ∃ call, s.calls[number]? = some call ∧ call.status = .running ∧
      ∃ status mark, t = (s.setStatus number status).mark mark ∧
        (∀ error, status = .rejected error → mark.isSome = true ∨ call.ownScope = false ∧
          ∃ value, execute call.fn s.principal attempt = (.async, .ok value) ∧
            finishInvocation call.fn value s.poison = .error error) ∧
        (∀ result, status = .fulfilled result → s.poison = none) := by
  simp only [step] at h
  split at h
  · cases h
  rename_i call hcall
  split at h
  · rename_i hrunning
    cases h
    refine ⟨call, hcall, hrunning, _, _, rfl, ?_, ?_⟩
    · intro error hstatus
      cases hscope : call.ownScope with
      | true =>
        simp only [hscope, if_true] at hstatus ⊢
        exact .inl (scopedRun_mark hstatus)
      | false =>
        simp only [hscope, Bool.false_eq_true, if_false] at hstatus ⊢
        rcases runInvocation_mark (Prod.ext hstatus rfl) with hmark | hrefused
        · exact .inl hmark
        · exact .inr ⟨trivial, hrefused⟩
    intro result hstatus
    cases hpoison : s.poison with
    | none => rfl
    | some =>
      rw [hpoison] at hstatus
      cases hscope : call.ownScope with
      | true =>
        simp only [hscope, if_true] at hstatus
        exact absurd (scopedRun_fulfilled hstatus) (runInvocation_poisoned _ _ _ _)
      | false =>
        simp only [hscope, Bool.false_eq_true, if_false] at hstatus
        exact absurd hstatus (runInvocation_poisoned _ _ _ _)
  · cases h

/-! ## Statuses -/

@[simp] theorem mark_calls (s : InvocationTree) (error : Option InvocationError) :
    (s.mark error).calls = s.calls := by
  cases error <;> rfl

theorem mark_poison_of_isSome (s : InvocationTree) {error : Option InvocationError}
    (h : error.isSome = true) : (s.mark error).poison.isSome = true := by
  cases error with
  | none => cases h
  | some => rfl

theorem mark_poison_of_poisoned {s : InvocationTree} (h : s.poison.isSome = true)
    (error : Option InvocationError) : (s.mark error).poison.isSome = true := by
  cases error with
  | none => exact h
  | some => rfl

theorem status_setStatus_ne (s : InvocationTree) {other : Nat} (hne : other ≠ number)
    (status : InvocationStatus) : (s.setStatus number status).status other = s.status other := by
  simp [InvocationTree.status, setStatus, hne.symm]

theorem status_setStatus_self {call : Invocation} (hcall : s.calls[number]? = some call)
    (status : InvocationStatus) :
    (s.setStatus number status).status number = some status := by
  simp [InvocationTree.status, setStatus, hcall]

theorem status_append {call : Invocation} {found : InvocationStatus}
    (h : ({ s with calls := s.calls ++ [call] } : InvocationTree).status number = some found) :
    s.status number = some found ∨ number = s.calls.length ∧ found = call.status := by
  simp only [InvocationTree.status, List.getElem?_append] at h ⊢
  split at h
  · exact .inl h
  rw [List.getElem?_singleton] at h
  split at h
  · refine .inr ⟨by omega, ?_⟩
    cases h
    rfl
  · cases h

/-! ## Whole runs -/

/-- The root is there, and a failed nested call has poisoned the tree. -/
structure Poisoned (s : InvocationTree) : Prop where
  root : 0 < s.calls.length
  marked : s.Failed → s.poison.isSome = true

theorem poisoned_start (fn : RegisteredFunction) (principal : PrincipalKind) :
    (start fn principal).Poisoned := by
  refine ⟨Nat.one_pos, ?_⟩
  rintro ⟨number, error, hpos, hstatus⟩
  obtain ⟨previous, rfl⟩ := Nat.exists_eq_succ_of_ne_zero hpos.ne'
  simp [InvocationTree.status, start] at hstatus

variable {e : InvocationEvent}

theorem step_poison (h : s.step e = some t) (hpoison : s.poison.isSome = true) :
    t.poison.isSome = true := by
  cases e with
  | call =>
    simp only [step] at h
    split at h
    · cases h
      rfl
    · cases h
      exact hpoison
  | settle number =>
    obtain ⟨call, -, -, status, mark, rfl, -, -⟩ := settle_cases h
    exact mark_poison_of_poisoned (s := s.setStatus number status) hpoison mark

theorem Poisoned.step (hs : s.Poisoned) (hdeclared : s.Declared e) (h : s.step e = some t) :
    t.Poisoned := by
  have hkept := step_poison h
  cases e with
  | call =>
    simp only [InvocationTree.step] at h
    split at h
    · cases h
      exact ⟨by simp [markPoisoned], fun _ => rfl⟩
    cases h
    refine ⟨by simp, ?_⟩
    rintro ⟨number, error, hpos, hstatus⟩
    rcases status_append hstatus with hold | ⟨-, hnew⟩
    · exact hs.marked ⟨number, error, hpos, hold⟩
    · cases hnew
  | settle number =>
    obtain ⟨call, hcall, -, status, mark, rfl, hrejected, -⟩ := settle_cases h
    refine ⟨by simpa [setStatus] using hs.root, ?_⟩
    rintro ⟨other, error, hpos, hstatus⟩
    rw [InvocationTree.status, mark_calls] at hstatus
    by_cases hsame : other = number
    · subst hsame
      have hself : some status = some (.rejected error) :=
        (status_setStatus_self hcall status).symm.trans hstatus
      rcases hrejected error (Option.some.inj hself) with hmark | ⟨hscope, value, hwork, hfinish⟩
      · exact mark_poison_of_isSome _ hmark
      -- the result was refused, so the tree was poisoned before
      cases hpoison : s.poison with
      | some => exact hkept (by rw [hpoison]; rfl)
      | none =>
        obtain ⟨result, hok⟩ := hdeclared call hcall hpos hscope value hwork
        rw [hpoison, hok] at hfinish
        cases hfinish
    · have hold : s.status other = some (.rejected error) :=
        (status_setStatus_ne s hsame status).symm.trans hstatus
      exact hkept (hs.marked ⟨other, error, hpos, hold⟩)

/-- Poisoned, with a root that has not been fulfilled. -/
structure Doomed (s : InvocationTree) : Prop where
  poison : s.poison.isSome = true
  root : s.status 0 = some .running ∨ ∃ error, s.status 0 = some (.rejected error)

theorem Doomed.step (hs : s.Doomed) (h : s.step e = some t) : t.Doomed := by
  refine ⟨step_poison h hs.poison, ?_⟩
  have hlength : 0 < s.calls.length := by
    by_contra hempty
    have hnone : s.status 0 = none := by
      rw [InvocationTree.status, List.getElem?_eq_none (by omega)]
      rfl
    rcases hs.root with hroot | ⟨error, hroot⟩
    · rw [hnone] at hroot
      cases hroot
    · rw [hnone] at hroot
      cases hroot
  cases e with
  | call =>
    have happend : ∀ call, ({ s with calls := s.calls ++ [call] } : InvocationTree).status 0 =
        s.status 0 := by
      intro call
      simp only [InvocationTree.status, List.getElem?_append_left hlength]
    simp only [InvocationTree.step] at h
    split at h
    · cases h
      exact (happend _).symm ▸ hs.root
    · cases h
      exact (happend _).symm ▸ hs.root
  | settle number =>
    obtain ⟨call, hcall, -, status, mark, rfl, -, hfulfilled⟩ := settle_cases h
    have hcalls : ((s.setStatus number status).mark mark).status 0 =
        (s.setStatus number status).status 0 := by
      rw [InvocationTree.status, mark_calls]
      rfl
    rw [hcalls]
    by_cases hzero : 0 = number
    · subst hzero
      rw [status_setStatus_self hcall]
      cases status with
      | running => exact .inl rfl
      | rejected error => exact .inr ⟨error, rfl⟩
      | fulfilled result =>
        have hpoison := hs.poison
        rw [hfulfilled result rfl] at hpoison
        cases hpoison
    · rw [status_setStatus_ne s hzero]
      exact hs.root

theorem Doomed.run {events : List InvocationEvent} (hs : s.Doomed)
    (h : Run.run InvocationTree.step s events = some t) : t.Doomed := by
  induction events generalizing s with
  | nil =>
    cases h
    exact hs
  | cons e rest ih =>
    obtain ⟨next, hnext, hrest⟩ := Option.bind_eq_some_iff.1 h
    exact ih (hs.step hnext) hrest

/-- **A failed nested call surfaces**: if a call inside of the root has rejected while the root was
running, the root does not fulfil any more, whatever its ancestors catch. -/
theorem failure_surfaces (fn : RegisteredFunction) (principal : PrincipalKind)
    (h : Run.Reachable InvocationTree.step Declared (start fn principal) s) (hfailed : s.Failed)
    (hroot : s.status 0 = some .running) {events : List InvocationEvent}
    (hrun : Run.run InvocationTree.step s events = some t) :
    t.status 0 = some .running ∨ ∃ error, t.status 0 = some (.rejected error) := by
  have hpoisoned := h.induct (poisoned_start fn principal)
    fun _ _ _ _ hpoisoned hdeclared hstep => hpoisoned.step hdeclared hstep
  exact (Doomed.run ⟨hpoisoned.marked hfailed, .inl hroot⟩ hrun).root

/-! ## A swallowed failure -/

/-- A public function without declarations. -/
def plainFunction (kind : FunctionKind) : RegisteredFunction := ⟨kind, .public, none, none⟩

/-- A query that declares to return a string. -/
def stringQuery : RegisteredFunction where
  kind := .query
  access := .public
  returns := some fun value path =>
    match value with
    | .string _ => .ok value
    | _ => .error (.validationError (path ++ ": expected string"))
  errors := none

/-- A handler that returns a value. -/
def returning (timing : Timing) (value : JsValue) : Attempt :=
  ⟨.ok true, none, timing, .ok (.plain value), none⟩

/-- **The refusal is swallowed**: an asynchronous query returns `null` where it declared a string,
its call rejects, and the mutation that caught the rejection is fulfilled. -/
theorem refused_result_is_swallowed :
    (Run.run step (start (plainFunction .mutation) .identified)
      [.call stringQuery (.ok ()) false, .settle 1 (returning .async .null),
        .settle 0 (returning .async (.bool true))]).map (fun s => (s.status 1, s.status 0)) =
    some (some (.rejected (.refused (.validationError "returns: expected string"))),
      some (.fulfilled (.ok (.bool true)))) := by
  decide +kernel

/-- The same query with a synchronous handler: the mutation rejects. -/
theorem failure_surfaces_sync : ∃ s t,
    Run.run step (start (plainFunction .mutation) .identified)
      [.call stringQuery (.ok ()) false, .settle 1 (returning .sync .null)] = some s ∧ s.Failed ∧
    Run.run step s [.settle 0 (returning .async (.bool true))] = some t ∧
    (t.status 0 = some .running ∨ ∃ error, t.status 0 = some (.rejected error)) := by
  have hdeclared : Run.Guarded step Declared (start (plainFunction .mutation) .identified)
      [.call stringQuery (.ok ()) false, .settle 1 (returning .sync .null)] := by
    refine ⟨trivial, fun next hnext => ⟨?_, fun _ _ => trivial⟩⟩
    cases hnext
    intro call hcall _ _ value hvalue
    cases hcall
    cases hvalue
  refine ⟨_, _, rfl, ⟨1, _, Nat.one_pos, rfl⟩, rfl, ?_⟩
  exact failure_surfaces (plainFunction .mutation) .identified
    (Run.Reachable.refl.run hdeclared rfl) ⟨1, _, Nat.one_pos, rfl⟩ rfl
    (show Run.run step _ [.settle 0 (returning .async (.bool true))] = some _ from rfl)

end InvocationTree

end AckerDB
