import AckerDB.Lib.Run

/-!
# Reservations of realtime sessions

A `prepare` call of `RealtimeHub` reserves a session.  The reservation passes from the call to its
ticket in `PreparedSessions` and from the ticket to a generation, and every way out of one of them
gives it back through the `release` closure of the call.

* `Hub`, `step` — the hub and what can happen to it;
* `Booked` — the counters are the sessions that are held, and every authentication is released
  once, when its session has ended;
* `Apart` — runs that keep it: `stopGeneration` gives the reservation of an owner back twice, and
  `drain` does not wait for the calls under way.
-/

namespace AckerDB

open Function List Option

namespace RealtimeHub

/-! ## The hub -/

/-- The limits. -/
structure Options where
  maxSessions : Nat
  maxSessionsPerPrincipal : Nat
  /-- Of `PreparedSessions`. -/
  maxEntries : Nat
  maxBytes : Nat

/-- What holds the reservation of a `prepare` call. -/
inductive Place where
  /-- The call itself, past admission, while it waits for the application. -/
  | preparing
  /-- An entry of `PreparedSessions`, of so many bytes. -/
  | ticket (owner : String) (bytes : Nat)
  /-- An active generation. -/
  | generation (owner : String)
  deriving DecidableEq

/-- A `prepare` call: the variables of its `release` closure, and what became of it.  Tickets and
generations are known by the number of their call. -/
structure Call where
  owner : String
  place : Option Place
  reservationOwned : Bool
  released : Bool := false
  /-- How often `releaseAuthentication` has run. -/
  authenticationReleases : Nat := 0
  /-- The owners whose offers made a generation of the ticket. -/
  generations : List String := []

/-- `RealtimeHub`, with its `PreparedSessions`. -/
structure Hub where
  accepting : Bool := true
  reserved : Int := 0
  /-- An owner without an entry in the map has zero. -/
  reservationsByOwner : String → Nat := fun _ => 0
  retainedBytes : Int := 0
  calls : List Call := []

namespace Hub

variable (h : Hub)

/-- What holds the reservation of a call. -/
def place (n : Nat) : Option Place := h.calls[n]?.bind Call.place

/-- `reserve`. -/
def reserve (owner : String) : Hub :=
  { h with
    reserved := h.reserved + 1
    reservationsByOwner :=
      update h.reservationsByOwner owner (h.reservationsByOwner owner + 1) }

/-- `releaseReservation`. -/
def releaseReservation (owner : String) : Hub :=
  if h.reservationsByOwner owner = 0 then h
  else { h with
    reserved := h.reserved - 1
    reservationsByOwner :=
      update h.reservationsByOwner owner (h.reservationsByOwner owner - 1) }

/-- A call changes. -/
def setCall (n : Nat) (call : Call) : Hub := { h with calls := h.calls.set n call }

/-- The `release` closure of a call, which no longer holds anything.  The `once` around it in an
entry changes nothing. -/
def release (n : Nat) : Hub :=
  match h.calls[n]? with
  | none => h
  | some call =>
    if call.released then h.setCall n { call with place := none }
    else (if call.reservationOwned then h.releaseReservation call.owner else h).setCall n
      { call with
        place := none, reservationOwned := false, released := true
        authenticationReleases := call.authenticationReleases + 1 }

/-- `discardEntry`. -/
def discardEntry (n bytes : Nat) : Hub :=
  { h with retainedBytes := h.retainedBytes - bytes }.release n

/-- `stopGeneration`, of an active generation: its own release of the reservation, and the one of
`releaseAuthentication`. -/
def stopGeneration (n : Nat) (owner : String) : Hub :=
  (h.releaseReservation owner).release n

/-- `discardEntry`, if the number has a ticket. -/
def drainTicket (n : Nat) : Hub :=
  match h.place n with
  | some (.ticket _ bytes) => h.discardEntry n bytes
  | _ => h

/-- `closeGeneration`, if the number has an active generation. -/
def drainGeneration (n : Nat) : Hub :=
  match h.place n with
  | some (.generation owner) => h.stopGeneration n owner
  | _ => h

/-- `drain`. -/
def drain : Hub :=
  let numbers := range h.calls.length
  numbers.foldl drainGeneration (numbers.foldl drainTicket { h with accepting := false })

/-- `prepare` up to its first `await`. -/
def prepare (options : Options) (h : Hub) (owner : String) (handshake proceeds : Bool) : Hub :=
  let n := h.calls.length
  if !h.accepting || !handshake || decide (options.maxSessions ≤ h.reserved) ||
      decide (options.maxSessionsPerPrincipal ≤ h.reservationsByOwner owner) then
    { h with calls := h.calls ++ [⟨owner, none, false, true, 1, []⟩] }
  else
    let h := { h.reserve owner with
      calls := h.calls ++ [⟨owner, some .preparing, true, false, 0, []⟩] }
    if proceeds then h else h.release n

/-- `PreparedSessions.add` refuses the entry. -/
def addRefuses (options : Options) (h : Hub) (bytes : Nat) : Bool :=
  decide (options.maxEntries ≤ h.calls.countP fun call =>
    match call.place with
    | some (.ticket _ _) => true
    | _ => false) || decide (options.maxBytes - h.retainedBytes < bytes)

/-- The ticket of a call that is past admission, and the generation of a ticket. -/
def pass (n : Nat) (place : Place) (offerer : Option String) : Hub :=
  { h with calls := h.calls.modify n fun call =>
      { call with place := some place, generations := call.generations ++ offerer.toList } }

end Hub

/-- What can happen. -/
inductive Event where
  /-- A `prepare` call: whether its handshake is within the rate, and whether it goes on to the
  application. -/
  | prepare (owner : String) (handshake proceeds : Bool)
  /-- A call reaches `PreparedSessions.add` with an entry of so many bytes, or is rejected, times
  out, is aborted or fails. -/
  | settle (n : Nat) (entry : Option Nat)
  /-- `cancelPrepared` by an owner; or the ticket expires, or its authentication is aborted. -/
  | discard (n : Nat) (canceller : Option String)
  /-- An offer: whether it gets as far as its generation. -/
  | offer (n : Nat) (owner : String) (starts : Bool)
  /-- `close` by an owner; or the generation fails or is closed, for a reason of the hub, the
  handler or the transport. -/
  | stop (n : Nat) (closer : Option String)
  | drain

/-- One event. -/
def step (options : Options) (h : Hub) : Event → Option Hub
  | .prepare owner handshake proceeds => some (h.prepare options owner handshake proceeds)
  | .settle n entry =>
    match h.calls[n]?, h.place n, entry with
    | some call, some .preparing, some bytes =>
      if h.addRefuses options bytes then some (h.release n)
      else some { h.pass n (.ticket call.owner bytes) none with
        retainedBytes := h.retainedBytes + bytes }
    | _, some .preparing, none => some (h.release n)
    | _, _, _ => none
  | .discard n canceller =>
    match h.place n with
    | some (.ticket owner bytes) =>
      some (if canceller.all (· = owner) then h.discardEntry n bytes else h)
    | _ => some h
  | .offer n owner starts =>
    if !h.accepting then some h
    else match h.place n with
      | some (.ticket holder bytes) =>
        if holder ≠ owner then some h
        else if starts then
          some { h.pass n (.generation owner) (some owner) with
            retainedBytes := h.retainedBytes - bytes }
        else some (h.discardEntry n bytes)
      | _ => some h
  | .stop n closer =>
    match h.place n with
    | some (.generation owner) =>
      some (if closer.all (· = owner) then h.stopGeneration n owner else h)
    | _ => some h
  | .drain => some h.drain

/-! ## The books -/

/-- The calls past admission, the held tickets and the active generations. -/
def Hub.held (h : Hub) : Nat := h.calls.countP fun call => call.place.isSome

/-- Those of an owner. -/
def Hub.heldBy (h : Hub) (owner : String) : Nat :=
  h.calls.countP fun call => call.place.isSome && call.owner = owner

/-- **The lease of one call.** -/
structure Call.Sound (call : Call) : Prop where
  /-- The authentication is not released before the end. -/
  held : call.place.isSome = true → call.reservationOwned = true ∧ call.released = false ∧
    call.authenticationReleases = 0
  /-- And once at the end. -/
  ended : call.place = none → call.released = true ∧ call.authenticationReleases = 1
  /-- The ticket yields one generation at most, for its owner. -/
  once : call.generations.length ≤ 1
  owner : ∀ offerer ∈ call.generations, offerer = call.owner
  /-- What is no generation yet has yielded none. -/
  fresh : ∀ place ∈ call.place, (∀ owner, place ≠ .generation owner) → call.generations = []
  ticket : ∀ owner bytes, call.place = some (.ticket owner bytes) → owner = call.owner
  generation : ∀ owner, call.place = some (.generation owner) → owner = call.owner

/-- **Capacity and leases.** -/
structure Booked (options : Options) (h : Hub) : Prop where
  reserved : h.reserved = h.held
  byOwner : ∀ owner, h.reservationsByOwner owner = h.heldBy owner
  maxSessions : h.held ≤ options.maxSessions
  maxSessionsPerPrincipal : ∀ owner, h.heldBy owner ≤ options.maxSessionsPerPrincipal
  calls : ∀ call ∈ h.calls, call.Sound

/-- The books, and that nothing is held after `drain`. -/
structure Exact (options : Options) (h : Hub) : Prop where
  booked : Booked options h
  drained : h.accepting = false → ∀ n, h.place n = none

/-- Each active generation is all that its owner holds. -/
def Hub.Alone (h : Hub) : Prop :=
  ∀ n owner, h.place n = some (.generation owner) → h.reservationsByOwner owner ≤ 1

/-- **Sessions that do not meet.**  A generation stops while its owner holds nothing else, and the
hub is drained while no call waits for the application. -/
def Apart (h : Hub) : Event → Prop
  | .stop n _ => ∀ owner, h.place n = some (.generation owner) → h.reservationsByOwner owner ≤ 1
  | .drain => h.Alone ∧ ∀ n, h.place n ≠ some .preparing
  | _ => True

section Steps

variable {options : Options} {h t : Hub} {n : Nat} {call changed : Call} {place : Place}
  {owner : String}

theorem place_eq_some (hplace : h.place n = some place) :
    ∃ call, h.calls[n]? = some call ∧ call.place = some place :=
  bind_eq_some_iff.1 hplace

theorem countP_set_eq (p : Call → Bool) (hcall : h.calls[n]? = some call) :
    (h.calls.set n changed).countP p + (if p call then 1 else 0) =
      h.calls.countP p + if p changed then 1 else 0 := by
  obtain ⟨hlt, heq⟩ := List.getElem?_eq_some_iff.1 hcall
  have hpos : p call = true → 0 < h.calls.countP p :=
    fun hp => List.countP_pos_iff.2 ⟨call, List.mem_of_getElem? hcall, hp⟩
  rw [List.countP_set hlt, heq]
  by_cases hp : p call = true
  · have := hpos hp
    simp only [if_pos hp]
    omega
  · simp only [if_neg hp]
    omega

theorem sound_set (hcalls : ∀ call ∈ h.calls, call.Sound) (hchanged : changed.Sound) :
    ∀ call ∈ h.calls.set n changed, call.Sound := by
  intro call hmem
  rcases mem_or_eq_of_mem_set hmem with hmem | rfl
  · exact hcalls call hmem
  · exact hchanged

section

variable (hbooked : Booked options h)

include hbooked

/-- A session passes on. -/
theorem Booked.pass (hcall : h.calls[n]? = some call)
    (hheld : call.place = some place) {next : Place} {offerer : Option String}
    (retainedBytes : Int) (hsound : Call.Sound { call with
      place := some next, generations := call.generations ++ offerer.toList }) :
    Booked options { h.pass n next offerer with retainedBytes } := by
  have hcalls : (h.pass n next offerer).calls = h.calls.set n { call with
      place := some next, generations := call.generations ++ offerer.toList } := by
    simp [Hub.pass, modify_eq_set_getElem?, hcall]
  have hsame : ∀ p : Call → Bool, p { call with
        place := some next, generations := call.generations ++ offerer.toList } = p call →
      (h.pass n next offerer).calls.countP p = h.calls.countP p := by
    intro p hp
    rw [hcalls]
    exact Nat.add_right_cancel ((countP_set_eq p hcall).trans (by rw [hp]))
  have htotal : (h.pass n next offerer).held = h.held := hsame _ (by simp [hheld])
  have howner : ∀ owner, (h.pass n next offerer).heldBy owner = h.heldBy owner :=
    fun owner => hsame _ (by simp [hheld])
  refine ⟨hbooked.reserved.trans (congrArg _ htotal.symm),
    fun owner => (hbooked.byOwner owner).trans (howner owner).symm,
    htotal.trans_le hbooked.maxSessions,
    fun owner => (howner owner).trans_le (hbooked.maxSessionsPerPrincipal owner), ?_⟩
  rw [hcalls]
  exact sound_set hbooked.calls hsound

omit hbooked in
/-- Sessions end, and nothing else happens. -/
structure Ended (options : Options) (h t : Hub) : Prop where
  booked : Booked options t
  place : ∀ n, t.place n = h.place n ∨ t.place n = none
  fewer : ∀ owner, t.reservationsByOwner owner ≤ h.reservationsByOwner owner
  accepting : t.accepting = h.accepting

/-- **A session ends.** -/
theorem Booked.release (hplace : h.place n = some place) :
    Ended options h (h.release n) ∧ (h.release n).place n = none := by
  obtain ⟨call, hcall, hheld⟩ := place_eq_some hplace
  have hsound := hbooked.calls call (List.mem_of_getElem? hcall)
  obtain ⟨howned, hreleased, hreleases⟩ := hsound.held (by simp [hheld])
  have hone : 1 ≤ h.heldBy call.owner :=
    List.countP_pos_iff.2 ⟨call, List.mem_of_getElem? hcall, by simp [hheld]⟩
  have hstate : h.release n = { h with
      reserved := h.reserved - 1
      reservationsByOwner := update h.reservationsByOwner call.owner
        (h.reservationsByOwner call.owner - 1)
      calls := h.calls.set n { call with
        place := none, reservationOwned := false, released := true
        authenticationReleases := call.authenticationReleases + 1 } } := by
    have hpos : h.reservationsByOwner call.owner ≠ 0 := by
      rw [hbooked.byOwner]
      omega
    simp [Hub.release, hcall, hreleased, howned, Hub.releaseReservation, hpos, Hub.setCall]
  have hcount := fun p => @countP_set_eq h n call { call with
    place := none, reservationOwned := false, released := true
    authenticationReleases := call.authenticationReleases + 1 } p hcall
  have htotal := hcount fun call => call.place.isSome
  have howner := fun owner => hcount fun call => call.place.isSome && call.owner = owner
  simp only [hheld, isSome_some, isSome_none, Bool.true_and, Bool.false_and, if_true,
    decide_eq_true_eq, Bool.false_eq_true, if_false, Nat.add_zero] at htotal howner
  rw [hstate]
  have hlt := (List.getElem?_eq_some_iff.1 hcall).1
  refine ⟨⟨⟨?_, fun owner => ?_, ?_, fun owner => ?_, sound_set hbooked.calls ?_⟩, fun m => ?_,
    fun owner => ?_, rfl⟩, by simp [Hub.place, hlt]⟩
  · have hbefore := hbooked.reserved
    simp only [Hub.held] at hbefore ⊢
    omega
  · have hbefore := hbooked.byOwner owner
    have hafter := howner owner
    simp only [Hub.heldBy] at hbefore ⊢
    by_cases heq : owner = call.owner
    · subst heq
      rw [if_pos rfl] at hafter
      simp only [update_self]
      omega
    · rw [if_neg (Ne.symm heq)] at hafter
      simp only [update_of_ne heq]
      omega
  · have hbefore := hbooked.maxSessions
    simp only [Hub.held] at hbefore ⊢
    omega
  · have hbefore := hbooked.maxSessionsPerPrincipal owner
    have hafter := howner owner
    simp only [Hub.heldBy] at hbefore ⊢
    omega
  · exact ⟨by simp, fun _ => ⟨rfl, by simp [hreleases]⟩, hsound.once, hsound.owner, by simp,
      by simp, by simp⟩
  · by_cases hm : m = n
    · exact .inr (by simp [Hub.place, hm, hlt])
    · exact .inl (by rw [Hub.place, List.getElem?_set_ne (Ne.symm hm), Hub.place])
  · by_cases heq : owner = call.owner
    · subst heq
      simp
    · simp [update_of_ne heq]

theorem Booked.retain (retainedBytes : Int) :
    Booked options { h with retainedBytes } :=
  { hbooked with }

theorem Booked.discardEntry (hplace : h.place n = some place) (bytes : Nat) :
    Ended options h (h.discardEntry n bytes) ∧ (h.discardEntry n bytes).place n = none := by
  obtain ⟨hended, hnone⟩ := (hbooked.retain (h.retainedBytes - bytes)).release hplace
  exact ⟨{ hended with }, hnone⟩

/-- The two releases of a generation are one where the owner holds nothing else. -/
theorem Booked.stopGeneration
    (hplace : h.place n = some (.generation owner)) (hone : h.reservationsByOwner owner ≤ 1) :
    Ended options h (h.stopGeneration n owner) ∧ (h.stopGeneration n owner).place n = none := by
  obtain ⟨call, hcall, hheld⟩ := place_eq_some hplace
  have hsound := hbooked.calls call (mem_of_getElem? hcall)
  obtain ⟨howned, hreleased, -⟩ := hsound.held (by simp [hheld])
  obtain rfl := hsound.generation owner hheld
  have hpos : h.reservationsByOwner call.owner = 1 := by
    have hsome : 1 ≤ h.heldBy call.owner :=
      countP_pos_iff.2 ⟨call, mem_of_getElem? hcall, by simp [hheld]⟩
    rw [hbooked.byOwner] at hone ⊢
    omega
  have hsame : h.stopGeneration n call.owner = h.release n := by
    simp [Hub.stopGeneration, Hub.release, Hub.releaseReservation, hpos, hcall, howned, hreleased,
      Hub.setCall]
  rw [hsame]
  exact hbooked.release hplace

/-- A new call, past admission or not. -/
theorem Booked.append (hsound : call.Sound)
    (hreserved : t.reserved = h.reserved + if call.place.isSome then 1 else 0)
    (howners : ∀ owner, t.reservationsByOwner owner = h.reservationsByOwner owner +
      if call.place.isSome && call.owner = owner then 1 else 0)
    (hcalls : t.calls = h.calls ++ [call])
    (hroom : call.place.isSome = true → h.reserved < options.maxSessions ∧
      h.reservationsByOwner call.owner < options.maxSessionsPerPrincipal) : Booked options t := by
  have htotal : t.held = h.held + if call.place.isSome then 1 else 0 := by
    simp [Hub.held, hcalls, countP_append, countP_singleton]
  have howner : ∀ owner, t.heldBy owner = h.heldBy owner +
      if call.place.isSome && call.owner = owner then 1 else 0 := by
    intro owner
    simp [Hub.heldBy, hcalls, countP_append, countP_singleton]
  have hbefore := hbooked.reserved
  refine ⟨by rw [hreserved, htotal, hbefore]; split <;> rfl,
    fun owner => by rw [howners, howner, hbooked.byOwner], ?_, fun owner => ?_, ?_⟩
  · have := hbooked.maxSessions
    rw [htotal]
    split
    · have := (hroom ‹_›).1
      omega
    · omega
  · have := hbooked.maxSessionsPerPrincipal owner
    rw [howner]
    split
    · rename_i hthis
      obtain ⟨hsome, rfl⟩ := by simpa using hthis
      have := (hroom hsome).2
      rw [hbooked.byOwner] at this
      omega
    · omega
  · rw [hcalls]
    simpa [or_imp, forall_and] using ⟨hbooked.calls, hsound⟩

theorem Booked.prepare (handshake proceeds : Bool) :
    Booked options (h.prepare options owner handshake proceeds) ∧
      (h.prepare options owner handshake proceeds).accepting = h.accepting := by
  simp only [Hub.prepare]
  split
  · exact ⟨hbooked.append ⟨by simp, by simp, by simp, by simp, by simp, by simp, by simp⟩ (by simp)
      (by simp) rfl (by simp), rfl⟩
  rename_i hroom
  simp only [Bool.or_eq_true, Bool.not_eq_true', decide_eq_true_eq, not_or, not_le] at hroom
  have hbooked' : Booked options { h.reserve owner with
      calls := h.calls ++ [⟨owner, some .preparing, true, false, 0, []⟩] } := by
    refine hbooked.append ⟨by simp, by simp, by simp, by simp, by simp, by simp, by simp⟩ rfl
      (fun o => ?_) rfl (fun _ => ⟨hroom.1.2, hroom.2⟩)
    by_cases heq : o = owner
    · simp [heq, Hub.reserve]
    · simp [Hub.reserve, update_of_ne heq, Ne.symm heq]
  split
  · exact ⟨hbooked', rfl⟩
  have hplace : Hub.place { h.reserve owner with
      calls := h.calls ++ [⟨owner, some .preparing, true, false, 0, []⟩] } h.calls.length =
        some .preparing := by
    simp [Hub.place]
  have hended := (hbooked'.release hplace).1
  exact ⟨hended.booked, hended.accepting⟩

/-! ## `drain` -/

theorem Ended.refl : Ended options h h :=
  ⟨hbooked, fun _ => .inl rfl, fun _ => le_rfl, rfl⟩

end

theorem Ended.trans {u : Hub} (hended : Ended options h t) (hthen : Ended options t u) :
    Ended options h u where
  booked := hthen.booked
  place n := by
    rcases hthen.place n with hsame | hnone
    · rw [hsame]
      exact hended.place n
    · exact .inr hnone
  fewer owner := (hthen.fewer owner).trans (hended.fewer owner)
  accepting := hthen.accepting.trans hended.accepting

theorem Ended.eq_of_some (hended : Ended options h t) (hplace : t.place n = some place) :
    h.place n = some place := by
  rcases hended.place n with hsame | hnone
  · rw [← hsame, hplace]
  · rw [hplace] at hnone
    cases hnone

theorem Ended.alone (hended : Ended options h t) (halone : h.Alone) : t.Alone :=
  fun n owner hplace => (hended.fewer owner).trans (halone n owner (hended.eq_of_some hplace))

/-- A round over the sessions that ends those of a kind. -/
theorem foldl_ended {f : Hub → Nat → Hub} {kind : Place → Prop}
    (hf : ∀ h n, Booked options h → h.Alone → Ended options h (f h n) ∧
      ∀ place, (f h n).place n = some place → ¬ kind place) (numbers : List Nat) :
    ∀ {h : Hub}, Booked options h → h.Alone → Ended options h (numbers.foldl f h) ∧
      ∀ n ∈ numbers, ∀ place, (numbers.foldl f h).place n = some place → ¬ kind place := by
  induction numbers with
  | nil => exact fun hbooked _ => ⟨.refl hbooked, by simp⟩
  | cons n numbers ih =>
    intro h hbooked halone
    obtain ⟨hended, hn⟩ := hf h n hbooked halone
    obtain ⟨hrest, hnumbers⟩ := ih hended.booked (hended.alone halone)
    refine ⟨hended.trans hrest, fun m hm place hplace => ?_⟩
    rcases mem_cons.1 hm with rfl | hm
    · exact hn place (hrest.eq_of_some hplace)
    · exact hnumbers m hm place hplace

theorem drainTicket_ended (h : Hub) (n : Nat) (hbooked : Booked options h) (_ : h.Alone) :
    Ended options h (h.drainTicket n) ∧ ∀ place, (h.drainTicket n).place n = some place →
      ¬ ∃ owner bytes, place = .ticket owner bytes := by
  simp only [Hub.drainTicket]
  split
  · rename_i hplace
    obtain ⟨hended, hnone⟩ := hbooked.discardEntry hplace _
    exact ⟨hended, by simp [hnone]⟩
  rename_i hother
  refine ⟨.refl hbooked, ?_⟩
  rintro place hplace ⟨owner, bytes, rfl⟩
  exact hother owner bytes hplace

theorem drainGeneration_ended (h : Hub) (n : Nat) (hbooked : Booked options h) (halone : h.Alone) :
    Ended options h (h.drainGeneration n) ∧ ∀ place, (h.drainGeneration n).place n = some place →
      ¬ ∃ owner, place = .generation owner := by
  simp only [Hub.drainGeneration]
  split
  · rename_i hplace
    obtain ⟨hended, hnone⟩ := hbooked.stopGeneration hplace (halone n _ hplace)
    exact ⟨hended, by simp [hnone]⟩
  rename_i hother
  refine ⟨.refl hbooked, ?_⟩
  rintro place hplace ⟨owner, rfl⟩
  exact hother owner hplace

/-- **`drain` ends everything** but the calls that wait for the application. -/
theorem Booked.drain (hbooked : Booked options h) (halone : h.Alone)
    (hpreparing : ∀ n, h.place n ≠ some .preparing) : Exact options h.drain := by
  have hclosed : Booked options { h with accepting := false } :=
    { hbooked with }
  obtain ⟨htickets, hticket⟩ :=
    foldl_ended drainTicket_ended (List.range h.calls.length) hclosed halone
  obtain ⟨hgenerations, hgeneration⟩ := foldl_ended drainGeneration_ended
    (List.range h.calls.length) htickets.booked (htickets.alone halone)
  refine ⟨hgenerations.booked, fun _ n => ?_⟩
  refine eq_none_iff_forall_ne_some.2 fun place hplace => ?_
  have hmiddle := hgenerations.eq_of_some hplace
  have hbefore := htickets.eq_of_some hmiddle
  obtain ⟨call, hcall, -⟩ := place_eq_some hbefore
  have hmem := List.mem_range.2 (List.getElem?_eq_some_iff.1 hcall).1
  cases place with
  | preparing => exact hpreparing n hbefore
  | ticket owner bytes => exact hticket n hmem _ hmiddle ⟨owner, bytes, rfl⟩
  | generation owner => exact hgeneration n hmem _ hplace ⟨owner, rfl⟩

/-! ## Runs -/

/-- **A step keeps the books.** -/
theorem Exact.step {event : Event} (hexact : Exact options h) (hapart : Apart h event)
    (hstep : step options h event = some t) : Exact options t := by
  have hkept : ∀ {t}, Ended options h t → Exact options t := fun hended =>
    ⟨hended.booked, fun hclosed n => eq_none_iff_forall_ne_some.2 fun place hplace => by
      have := hexact.drained (hended.accepting ▸ hclosed) n
      rw [hended.eq_of_some hplace] at this
      cases this⟩
  cases event with
  | prepare owner handshake proceeds =>
    cases hstep
    obtain ⟨hbooked, haccepting⟩ :=
      @Booked.prepare options h owner hexact.booked handshake proceeds
    refine ⟨hbooked, fun hclosed n => ?_⟩
    have hnone := hexact.drained (haccepting ▸ hclosed) n
    simp only [Hub.place] at hnone
    rw [haccepting] at hclosed
    simp only [Hub.prepare, hclosed, Bool.not_false, Bool.true_or, if_true, Hub.place]
    rcases Nat.lt_trichotomy n h.calls.length with hlt | rfl | hgt
    · rw [getElem?_append_left hlt, hnone]
    · simp
    · rw [getElem?_eq_none (by simpa using hgt)]
      rfl
  | settle n =>
    simp only [RealtimeHub.step] at hstep
    split at hstep
    · rename_i call bytes hcall hplace
      split at hstep
      · cases hstep
        exact hkept (hexact.booked.release hplace).1
      cases hstep
      obtain ⟨_, hthis, hheld⟩ := place_eq_some hplace
      obtain rfl := some.inj (hcall.symm.trans hthis)
      have hsound := hexact.booked.calls call (mem_of_getElem? hcall)
      refine ⟨hexact.booked.pass hcall hheld _ ?_, fun hclosed => ?_⟩
      · have hnone := hsound.fresh _ hheld (by simp)
        have hkeeps := hsound.held (by simp [hheld])
        exact ⟨fun _ => hkeeps, by simp, by simp [hnone], by simp [hnone], by simp [hnone],
          by simp, by simp⟩
      · have := hexact.drained hclosed n
        rw [hplace] at this
        cases this
    · rename_i hplace
      cases hstep
      exact hkept (hexact.booked.release hplace).1
    · cases hstep
  | discard =>
    simp only [RealtimeHub.step] at hstep
    split at hstep <;> cases hstep
    · rename_i hplace
      split
      · exact hkept (hexact.booked.discardEntry hplace _).1
      · exact hexact
    · exact hexact
  | offer =>
    simp only [RealtimeHub.step] at hstep
    split at hstep
    · cases hstep
      exact hexact
    rename_i haccepting
    rw [Bool.not_eq_true'] at haccepting
    split at hstep
    · rename_i holder bytes hplace
      split at hstep
      · cases hstep
        exact hexact
      rename_i hholder
      obtain rfl := not_not.1 hholder
      split at hstep <;> cases hstep
      · obtain ⟨call, hcall, hheld⟩ := place_eq_some hplace
        have hsound := hexact.booked.calls call (mem_of_getElem? hcall)
        refine ⟨hexact.booked.pass hcall hheld _ ?_, fun hclosed => absurd hclosed haccepting⟩
        have hnone := hsound.fresh _ hheld (by simp)
        have hkeeps := hsound.held (by simp [hheld])
        have howner := hsound.ticket _ _ hheld
        exact ⟨fun _ => hkeeps, by simp, by simp [hnone], by simp [hnone, howner], by simp,
          by simp, by simp [howner]⟩
      · exact hkept (hexact.booked.discardEntry hplace _).1
    · cases hstep
      exact hexact
  | stop =>
    simp only [RealtimeHub.step] at hstep
    split at hstep <;> cases hstep
    · rename_i owner hplace
      split
      · exact hkept (hexact.booked.stopGeneration hplace (hapart owner hplace)).1
      · exact hexact
    · exact hexact
  | drain =>
    cases hstep
    exact hexact.booked.drain hapart.1 hapart.2

end Steps

/-- **Capacity and leases.**  In every run whose generations stop while their owner holds nothing
else, and whose drains find no call under way, the counters are what is held, within the limits;
every authentication is released once, when its session has ended; and a drained hub holds
nothing. -/
theorem capacity_exact (options : Options) {h : Hub}
    (hreach : Run.Reachable (step options) Apart {} h) : Exact options h := by
  have hinitial : Booked options {} :=
    ⟨rfl, fun _ => rfl, Nat.zero_le _, fun _ => Nat.zero_le _, by simp⟩
  refine hreach.induct ⟨hinitial, fun hclosed => by cases hclosed⟩ ?_
  intro s event t _ hexact hapart hstep
  exact hexact.step hapart hstep

/-- Limits of a small hub. -/
def smallHub : Options := ⟨2, 2, 8, 1024⟩

/-- An owner gets a session of a number. -/
def sessionRun (n : Nat) : List Event :=
  [.prepare "ada" true true, .settle n (some 1), .offer n "ada" true]

theorem capacity_exact_session : ∃ h,
    Run.run (step smallHub) {} (sessionRun 0) = some h ∧ h.held = 1 ∧ Exact smallHub h := by
  have hview : (Run.run (step smallHub) {} (sessionRun 0)).map Hub.held = some 1 := by
    decide +kernel
  obtain ⟨h, hrun, hheld⟩ := map_eq_some_iff.1 hview
  refine ⟨h, hrun, hheld, capacity_exact smallHub (Run.Reachable.refl.run ?_ hrun)⟩
  exact Run.guarded_of_forall (by simp [sessionRun, Apart]) _

/-- The end of one of two sessions of an owner gives both reservations back; and a call that was
under way when the hub was drained leaves a ticket. -/
theorem reservation_is_released_twice :
    (∃ h, Run.Reachable (step smallHub) (fun _ _ => True) {} h ∧ h.reserved = 0 ∧
      h.place 1 = some (.generation "ada") ∧ ¬ Exact smallHub h) ∧
    ∃ h, Run.Reachable (step smallHub) (fun _ _ => True) {} h ∧ h.accepting = false ∧
      h.place 0 = some (.ticket "ada" 1) ∧ ¬ Exact smallHub h := by
  constructor
  · have hview : (Run.run (step smallHub) {} (sessionRun 0 ++ sessionRun 1 ++ [.stop 0 none])).map
        (fun h => (h.reserved, h.held, h.place 1)) = some (0, 1, some (.generation "ada")) := by
      decide +kernel
    obtain ⟨h, hrun, hparts⟩ := map_eq_some_iff.1 hview
    obtain ⟨hreserved, hheld, hplace⟩ := by simpa only [Prod.mk.injEq] using hparts
    refine ⟨h, Run.reachable_of_run hrun, hreserved, hplace, fun hexact => ?_⟩
    have hcount := hexact.booked.reserved
    rw [hreserved, hheld] at hcount
    cases hcount
  have hview : (Run.run (step smallHub) {} [.prepare "ada" true true, .drain,
      .settle 0 (some 1)]).map (fun h => (h.accepting, h.place 0)) =
        some (false, some (.ticket "ada" 1)) := by
    decide +kernel
  obtain ⟨h, hrun, hparts⟩ := map_eq_some_iff.1 hview
  obtain ⟨hclosed, hplace⟩ := Prod.mk.inj hparts
  refine ⟨h, Run.reachable_of_run hrun, hclosed, hplace, fun hexact => ?_⟩
  have hnone := hexact.drained hclosed 0
  rw [hplace] at hnone
  cases hnone

end RealtimeHub

end AckerDB
