import AckerDB.Subscriptions.Reactive.Pacing
import AckerDB.Subscriptions.Reactive.Ring

/-!
# The resume window is faithful

What an entry retains leads from one version it had to the next, without a gap, and says what
changed.  So the records between two versions, applied to the outcome the entry had at the first,
yield the outcome it had at the second.

* `replay`, `Agrees` — apply records to an outcome; outcomes a client cannot tell apart;
* `Windowed` — the invariant of the window: its storage, its limits, its streams;
* `Recorded` — the invariant of the records, with the outcomes an entry had;
* `history_faithful` — every run keeps a bounded and faithful window.
-/

namespace AckerDB

open Protocol Function TransitionHistory List

/-- An operation of the window. -/
inductive HistoryOp where
  | retain (record : HistoryRecord)
  | prune (now : Int)
  | clear (entry : Nat)

/-- The operation on the window of lists. -/
def HistoryOp.perform (h : TransitionHistory) : HistoryOp → TransitionHistory
  | .retain record => (h.retain record).1
  | .prune now => h.prune now
  | .clear entry => h.clear entry

/-- The operation on the stored objects; no result where it throws. -/
def HistoryOp.store (l : LinkedHistory) : HistoryOp → Option LinkedHistory
  | .retain record => (l.retain record).map Prod.fst
  | .prune now => some (l.prune now)
  | .clear entry => some (l.clear entry)

namespace Reactive

/-! ## Replaying records -/

/-- The outcome after a record. -/
def HistoryChange.applied (outcome : Result) : HistoryChange → Result
  | .value value => .ok value
  | .applicationError error => .err error
  | .checkpoint => outcome

/-- The outcome after records. -/
def replay (outcome : Result) : List HistoryRecord → Result
  | [] => outcome
  | record :: rest => replay (HistoryChange.applied outcome record.change) rest

/-- Outcomes of the same kind that are the same on the wire. -/
def Agrees : Result → Result → Prop
  | .ok a, .ok b => Wire.encode a = Wire.encode b
  | .err a, .err b => Wire.encode a.toJs = Wire.encode b.toJs
  | _, _ => False

theorem Agrees.refl (a : Result) : Agrees a a := by
  cases a <;> exact rfl

theorem Agrees.trans {a b c : Result} (h : Agrees a b) (h' : Agrees b c) : Agrees a c := by
  cases a <;> cases b <;> cases c <;>
    first
      | exact Eq.trans h h'
      | exact h.elim
      | exact h'.elim

theorem Agrees.applied {a b : Result} (h : Agrees a b) (change : HistoryChange) :
    Agrees (HistoryChange.applied a change) (HistoryChange.applied b change) := by
  cases change with
  | value | applicationError => exact .refl _
  | checkpoint => exact h

/-- Records that each lead from the outcome of one version to that of the next. -/
theorem replay_contiguous {held : Nat → Result} {start last : Nat} {chain : List HistoryRecord}
    {outcome : Result} (hchain : Contiguous start chain last)
    (hrecord : ∀ record ∈ chain, Agrees
      (HistoryChange.applied (held record.fromVersion) record.change) (held record.toVersion))
    (hstart : Agrees outcome (held start)) : Agrees (replay outcome chain) (held last) := by
  induction hchain generalizing outcome with
  | single record => exact (hstart.applied _).trans (hrecord record mem_cons_self)
  | cons record _ _ ih =>
    refine ih (fun other hother => hrecord other (mem_cons_of_mem _ hother)) ?_
    exact (hstart.applied _).trans (hrecord record mem_cons_self)

/-! ## The window -/

/-- Each record starts where the one before it ended. -/
def Joined (records : List HistoryRecord) : Prop :=
  records.IsChain fun a b => b.fromVersion = a.toVersion

/-- The objects that the same operations have stored. -/
structure Storage (options : ReactiveOptions) (h : TransitionHistory) (l : LinkedHistory) :
    Prop where
  performed : ∃ ops : List HistoryOp,
    ops.foldl HistoryOp.perform { limits := options.resume } = h ∧
      ops.foldlM HistoryOp.store (.initial options.resume) = some l
  represents : l.Represents h

/-- **The invariant of the window.** -/
structure Windowed (options : ReactiveOptions) (s : State) : Prop where
  storage : ∃ l, Storage options s.history l
  limits : s.history.limits = options.resume
  sound : s.history.Sound
  within : s.history.Within
  fresh : ∀ record ∈ s.history.ring, record.uid < s.records
  joined : ∀ e, Joined (s.history.streams e)
  /-- The stream of an entry ends at its version. -/
  ends : ∀ e record, (s.history.streams e).getLast? = some record →
    record.toVersion = (s.entries e).commitVersion
  started : ∀ e, s.history.streams e ≠ [] → (s.entries e).initialized = true
  unused : ∀ e, s.entryCount ≤ e → (s.entries e).initialized = false

theorem windowed_initial (options : ReactiveOptions) : Windowed options (initial options) where
  storage := ⟨.initial options.resume, ⟨[], rfl, rfl⟩, LinkedHistory.represents_initial _⟩
  limits := rfl
  sound := sound_initial _
  within := within_initial _
  fresh := by simp [initial]
  joined := fun _ => .nil
  ends := by simp [initial]
  started := fun _ h => absurd rfl h
  unused := fun _ _ => rfl

variable {evaluated : QueryEvaluation} {entry : QueryEntry} {history : TransitionHistory}
  {readSet : List String} {commitVersion e : Nat} {result : Result}

section Changes

variable {options : ReactiveOptions} {event : Event} {s t : State}

theorem Joined.suffix {a b : List HistoryRecord} (h : Joined b) (hsuffix : a <:+ b) : Joined a :=
  IsChain.suffix h hsuffix

theorem getLast?_suffix {a b : List HistoryRecord} (hsuffix : a <:+ b) (hne : a ≠ []) :
    b.getLast? = a.getLast? := by
  obtain ⟨front, rfl⟩ := hsuffix
  exact getLast?_append_of_ne_nil _ hne

theorem Storage.perform {h : TransitionHistory} {l l' : LinkedHistory} (hstorage : Storage options h l)
    {op : HistoryOp} (hstore : HistoryOp.store l op = some l')
    (hrep : l'.Represents (HistoryOp.perform h op)) :
    Storage options (HistoryOp.perform h op) l' := by
  obtain ⟨ops, hperformed, hstored⟩ := hstorage.performed
  refine ⟨⟨ops ++ [op], ?_, ?_⟩, hrep⟩
  · rw [foldl_append, hperformed]
    rfl
  · rw [foldlM_append, hstored]
    simpa using hstore

section

variable (h : Windowed options s)
include h

/-- A change that leaves the window and what it reads of the entries alone. -/
theorem Windowed.congr (hhistory : t.history = s.history) (hrecords : t.records = s.records)
    (hcount : t.entryCount = s.entryCount)
    (hentries : ∀ e, (t.entries e).initialized = (s.entries e).initialized ∧
      (t.entries e).commitVersion = (s.entries e).commitVersion) : Windowed options t where
  storage := hhistory ▸ h.storage
  limits := hhistory ▸ h.limits
  sound := hhistory ▸ h.sound
  within := hhistory ▸ h.within
  fresh := by
    rw [hhistory, hrecords]
    exact h.fresh
  joined := hhistory ▸ h.joined
  ends := by
    intro e record hlast
    rw [hhistory] at hlast
    rw [(hentries e).2]
    exact h.ends e record hlast
  started := by
    intro e hne
    rw [hhistory] at hne
    rw [(hentries e).1]
    exact h.started e hne
  unused := by
    intro e he
    rw [(hentries e).1]
    exact h.unused e (hcount ▸ he)

/-- An operation that only drops records. -/
theorem Windowed.trim (hstorage : ∃ l, Storage options history l) (hsound : history.Sound)
    (htrims : Trims s.history history) :
    Windowed options { s with history } where
  storage := hstorage
  limits := htrims.limits.trans h.limits
  sound := hsound
  within := htrims.within h.within h.sound hsound
  fresh := fun record hmem => h.fresh record (htrims.ring.subset hmem)
  joined := fun e => (h.joined e).suffix (htrims.stream e)
  ends := by
    intro e record hlast
    refine h.ends e record ?_
    rw [getLast?_suffix (htrims.stream e) ?_]
    · exact hlast
    · intro hnil
      rw [hnil] at hlast
      cases hlast
  started := by
    intro e hne
    refine h.started e fun hnil => hne ?_
    exact suffix_nil.1 (hnil ▸ htrims.stream e)
  unused := h.unused

theorem Windowed.prune (now : Int) :
    Windowed options { s with history := s.history.prune now } := by
  obtain ⟨l, hstorage⟩ := h.storage
  obtain ⟨hsound, htrims⟩ := h.sound.prune now
  refine h.trim ⟨l.prune now, ?_⟩ hsound htrims
  exact @Storage.perform _ _ _ _ hstorage (.prune now) rfl (hstorage.represents.prune h.sound now)

theorem Windowed.clear (e : Nat) :
    Windowed options { s with history := s.history.clear e } := by
  obtain ⟨l, hstorage⟩ := h.storage
  obtain ⟨hsound, htrims, -⟩ := h.sound.clear e
  refine h.trim ⟨l.clear e, ?_⟩ hsound htrims
  exact @Storage.perform _ _ _ _ hstorage (.clear e) rfl (hstorage.represents.clear h.sound e)

theorem Windowed.stream_eq_nil (hnot : (s.entries e).initialized = false) :
    s.history.streams e = [] := by
  by_contra hne
  rw [h.started e hne] at hnot
  cases hnot

theorem Windowed.addEntry (key : QueryKey) :
    Windowed options (s.addEntry options key) where
  __ := h
  ends := by
    intro e record hlast
    by_cases he : e = s.entryCount
    · have hlast : (s.history.streams e).getLast? = some record := hlast
      rw [h.stream_eq_nil (h.unused e he.ge)] at hlast
      cases hlast
    · simp only [State.addEntry, update_of_ne he]
      exact h.ends e record hlast
  started := by
    intro e hne
    by_cases he : e = s.entryCount
    · exact absurd (h.stream_eq_nil (h.unused e he.ge)) hne
    · simp only [State.addEntry, update_of_ne he]
      exact h.started e hne
  unused := by
    intro e he
    by_cases hnew : e = s.entryCount
    · subst hnew
      simp [State.addEntry]
    · simp only [State.addEntry, update_of_ne hnew]
      exact h.unused e (Nat.le_of_succ_le he)

end

/-- What `installEvaluation` does to the window: it retains one record, or nothing the first
time. -/
theorem installResult_history {uid : Nat} {bytes : Nat} {fresh : String} {now : Int}
    (hrises : entry.initialized = true → entry.commitVersion < evaluated.commitVersion) :
    (installResult uid e entry history evaluated bytes fresh now).history =
      if entry.initialized then (history.retain (historyRecord uid e entry evaluated bytes now)).1
      else history := by
  unfold installResult
  cases hinitialized : entry.initialized with
  | false => simp
  | true =>
    have hlt := hrises hinitialized
    simp only [true_and, if_pos hlt, if_true]
    split <;> rename_i heq <;> rw [heq]

/-- The record of an entry is retained, or its stream breaks. -/
theorem Windowed.retain (hlimits : 0 < options.resume.maxTransitionsPerStream)
    (h : Windowed options s) {record : HistoryRecord} {kept : Bool} {history : TransitionHistory}
    (huid : record.uid = s.records)
    (hfrom : record.fromVersion = (s.entries record.entry).commitVersion)
    (hretain : s.history.retain record = (history, kept)) :
    (∃ l, Storage options history l) ∧ history.limits = options.resume ∧ history.Sound ∧
      history.Within ∧ (∀ other ∈ history.ring, other.uid < s.records + 1) ∧
      (∀ e, Joined (history.streams e)) ∧
      (∀ e ≠ record.entry, history.streams e <:+ s.history.streams e) ∧
      ∀ last, (history.streams record.entry).getLast? = some last → last = record := by
  have htransitions := h.limits ▸ hlimits
  have hfresh : ∀ other ∈ s.history.ring, other.uid < record.uid :=
    fun other hother => huid ▸ h.fresh other hother
  obtain ⟨hsound, hwithin, hretains⟩ := h.sound.retain h.within htransitions hfresh
  obtain ⟨l, hstorage⟩ := h.storage
  obtain ⟨stored, hstored, hrep⟩ := hstorage.represents.retain h.sound htransitions hfresh
  have hperform : HistoryOp.perform s.history (.retain record) = history :=
    congrArg Prod.fst hretain
  rw [hretain] at hsound hwithin hretains hstored hrep
  refine ⟨⟨stored, ?_⟩, hretains.limits.trans h.limits, hsound, hwithin, ?_, ?_, hretains.others,
    ?_⟩
  · have hstore : HistoryOp.store l (.retain record) = some stored := by
      rw [HistoryOp.store, hstored]
      rfl
    rw [← hperform]
    exact hstorage.perform hstore (hperform ▸ hrep)
  · intro other hother
    have hstream : other ∈ history.streams other.entry := by
      rw [hsound.stream]
      exact mem_filter.2 ⟨hother, by simp⟩
    have hmem := @mem_retain s.history record other other.entry
    rw [hretain] at hmem
    rcases hmem hstream with hold | ⟨rfl, -⟩
    · exact Nat.lt_succ_of_lt (h.fresh other (h.sound.mem_ring hold).1)
    · exact huid ▸ Nat.lt_succ_self _
  · intro e
    by_cases he : e = record.entry
    · subst he
      cases kept with
      | false =>
        rw [hretains.gone rfl]
        exact .nil
      | true =>
        obtain ⟨rest, hrest, hstream⟩ := hretains.stream rfl
        rw [hstream]
        refine IsChain.append ((h.joined _).suffix hrest) (isChain_singleton _) ?_
        intro last hlast first hfirst
        rw [head?_singleton, Option.mem_some_iff] at hfirst
        subst hfirst
        have hne : rest ≠ [] := by
          rintro rfl
          cases hlast
        rw [hfrom, h.ends _ last ((getLast?_suffix hrest hne).trans hlast)]
    · exact (h.joined e).suffix (hretains.others e he)
  · intro last hlast
    cases kept with
    | false =>
      rw [hretains.gone rfl] at hlast
      cases hlast
    | true =>
      obtain ⟨rest, -, hstream⟩ := hretains.stream rfl
      rw [hstream, getLast?_concat, Option.some.injEq] at hlast
      exact hlast.symm

theorem Windowed.install (hlimits : 0 < options.resume.maxTransitionsPerStream)
    (h : Windowed options s) {e : Nat} {evaluated : QueryEvaluation} {now : Int}
    (hknown : e < s.entryCount) (hrises : (s.entries e).initialized = true →
      (s.entries e).commitVersion < evaluated.commitVersion) :
    Windowed options (s.install options e evaluated now) := by
  obtain ⟨generation, hentries⟩ := s.install_entries options e evaluated now
  have hself := congrFun hentries e
  rw [update_self] at hself
  have hothers : ∀ other ≠ e, (s.install options e evaluated now).entries other =
      s.entries other := fun other hother => by rw [hentries, update_of_ne hother]
  have hunused : ∀ other, s.entryCount ≤ other →
      ((s.install options e evaluated now).entries other).initialized = false := by
    intro other hother
    rw [hothers other (by omega)]
    exact h.unused other hother
  have hhistory : (s.install options e evaluated now).history =
      if (s.entries e).initialized then (s.history.retain (historyRecord s.records e (s.entries e)
        evaluated (options.byteLength evaluated.encoded) now)).1 else s.history :=
    installResult_history hrises
  cases hinitialized : (s.entries e).initialized with
  | false =>
    rw [hinitialized, if_neg (by simp)] at hhistory
    have hempty := h.stream_eq_nil hinitialized
    refine ⟨hhistory ▸ h.storage, hhistory ▸ h.limits, hhistory ▸ h.sound, hhistory ▸ h.within,
      ?_, hhistory ▸ h.joined, ?_, ?_, hunused⟩
    · rw [hhistory]
      exact fun record hmem => Nat.lt_succ_of_lt (h.fresh record hmem)
    · intro other record hlast
      rw [hhistory] at hlast
      by_cases hother : other = e
      · rw [hother, hempty] at hlast
        cases hlast
      · rw [hothers other hother]
        exact h.ends other record hlast
    intro other hne
    rw [hhistory] at hne
    by_cases hother : other = e
    · exact absurd (hother ▸ hempty) hne
    · rw [hothers other hother]
      exact h.started other hne
  | true =>
    rw [hinitialized] at hhistory
    obtain ⟨hstorage, hsame, hsound, hwithin, hfresh, hjoined, hsuffix, hlast⟩ :=
      @Windowed.retain options s hlimits h (historyRecord s.records e (s.entries e) evaluated
        (options.byteLength evaluated.encoded) now) _
        (s.install options e evaluated now).history rfl rfl (Prod.ext hhistory.symm rfl)
    refine ⟨hstorage, hsame, hsound, hwithin, hfresh, hjoined, ?_, ?_, hunused⟩
    · intro other record hend
      by_cases hother : other = e
      · subst hother
        rw [hself, hlast record hend]
        rfl
      rw [hothers other hother]
      refine h.ends other record ((getLast?_suffix (hsuffix other hother) ?_).trans hend)
      intro hnil
      rw [hnil] at hend
      cases hend
    intro other hne
    by_cases hother : other = e
    · subst hother
      rw [hself]
      rfl
    · rw [hothers other hother]
      refine h.started other fun hnil => hne ?_
      exact suffix_nil.1 (hnil ▸ hsuffix other hother)

theorem windowed_update (hinitialized : entry.initialized = (s.entries e).initialized)
    (hversion : entry.commitVersion = (s.entries e).commitVersion) (other : Nat) :
    (update s.entries e entry other).initialized = (s.entries other).initialized ∧
      (update s.entries e entry other).commitVersion =
        (s.entries other).commitVersion := by
  exact (forall_update_iff s.entries fun i new => new.initialized = (s.entries i).initialized ∧
    new.commitVersion = (s.entries i).commitVersion).2
      ⟨⟨hinitialized, hversion⟩, fun _ _ => ⟨rfl, rfl⟩⟩ other

/-- **Every change keeps the window bounded and joined.** -/
theorem Windowed.change (hlimits : 0 < options.resume.maxTransitionsPerStream)
    (h : Windowed options s) (hpaced : Paced s) (hchange : Change options event s t) :
    Windowed options t := by
  cases hchange with
  | addEntry key => exact h.addEntry key
  | unlink e => exact (h.clear e).congr rfl rfl rfl (windowed_update rfl rfl)
  | pruneHistory now => exact h.prune now
  | install task _ _ _ commitVersion evaluated now htask hrunning hlive hencoded hversion =>
      subst htask
      have hrises : (s.entries (s.evaluations task).entry).initialized = true →
          (s.entries (s.evaluations task).entry).commitVersion < evaluated.commitVersion := by
        intro hinitialized
        rw [(encodeExecution_eq_ok hencoded).2.1, hversion]
        exact hpaced.rises hrunning hinitialized
      have hinstalled := @Windowed.install options s hlimits h _ evaluated now
        (hpaced.links.lt_of_live hlive) hrises
      exact hinstalled.congr rfl rfl rfl fun _ => ⟨rfl, rfl⟩
  | mark | start | submit | releaseEntry | attach =>
    exact h.congr rfl rfl rfl (windowed_update rfl rfl)
  | detach =>
    unfold State.detach
    dsimp only
    split
    · exact h.congr rfl rfl rfl (windowed_update rfl rfl)
    · exact h
  | detachEvent =>
    unfold State.detachEvent
    dsimp only
    split
    · exact h.congr rfl rfl rfl fun _ => ⟨rfl, rfl⟩
    · exact h
  | reset =>
    rw [reset_eq_setOutbox]
    exact h.congr rfl rfl rfl fun _ => ⟨rfl, rfl⟩
  | _ => exact h.congr rfl rfl rfl fun _ => ⟨rfl, rfl⟩

/-! ## The records -/

/-- **The invariant of the records**: `held` are the outcomes an entry had, by version. -/
structure Recorded (held : Nat → Nat → Result) (s : State) : Prop where
  current : ∀ e, (s.entries e).initialized = true →
    held e (s.entries e).commitVersion = (s.entries e).outcome
  encoded : ∀ e, (s.entries e).initialized = true →
    Wire.encode (wireValue (s.entries e).outcome) = .ok (s.entries e).encoded
  record : ∀ e, ∀ record ∈ s.history.streams e,
    record.toVersion ≤ (s.entries e).commitVersion ∧
      Agrees (HistoryChange.applied (held e record.fromVersion) record.change)
        (held e record.toVersion)

/-- What the outcomes of a later state say about the past. -/
def Extends (held : Nat → Nat → Result) (s : State) (later : Nat → Nat → Result) (t : State) :
    Prop :=
  ∀ e, (s.entries e).initialized = true → (t.entries e).initialized = true ∧
    (s.entries e).commitVersion ≤ (t.entries e).commitVersion ∧
    ∀ v ≤ (s.entries e).commitVersion, later e v = held e v

variable {held later latest : Nat → Nat → Result} {u : State}

theorem Extends.refl (held : Nat → Nat → Result) (s : State) : Extends held s held s :=
  fun _ h => ⟨h, le_rfl, fun _ _ => rfl⟩

theorem Extends.trans (h : Extends held s later t) (h' : Extends later t latest u) :
    Extends held s latest u := by
  intro e hinitialized
  obtain ⟨hinitialized', hversion, hsame⟩ := h e hinitialized
  obtain ⟨hinitialized'', hversion', hsame'⟩ := h' e hinitialized'
  refine ⟨hinitialized'', hversion.trans hversion', fun v hv => ?_⟩
  rw [hsame' v (hv.trans hversion), hsame v hv]

theorem recorded_initial (options : ReactiveOptions) (held : Nat → Nat → Result) :
    Recorded held (initial options) where
  current := fun _ h => by simp [initial] at h
  encoded := fun _ h => by simp [initial] at h
  record := by simp [initial]

/-- What the records are compared with in an entry. -/
structure SameOutcome (a b : QueryEntry) : Prop where
  initialized : a.initialized = b.initialized
  commitVersion : a.commitVersion = b.commitVersion
  value : a.value = b.value
  applicationError : a.applicationError = b.applicationError
  encoded : a.encoded = b.encoded

theorem SameOutcome.outcome {a b : QueryEntry} (h : SameOutcome a b) : a.outcome = b.outcome := by
  unfold QueryEntry.outcome
  rw [h.applicationError, h.value]

theorem sameOutcome_update (h : SameOutcome entry (s.entries e)) (other : Nat) :
    SameOutcome (update s.entries e entry other) (s.entries other) :=
  (forall_update_iff s.entries fun i new => SameOutcome new (s.entries i)).2
    ⟨h, fun _ _ => ⟨rfl, rfl, rfl, rfl, rfl⟩⟩ other

/-- A change that leaves every outcome alone and retains nothing new. -/
theorem Recorded.congr (h : Recorded held s)
    (hstreams : ∀ e, ∀ record ∈ t.history.streams e, record ∈ s.history.streams e)
    (hentries : ∀ e, SameOutcome (t.entries e) (s.entries e)) :
    ∃ later, Recorded later t ∧ Extends held s later t := by
  refine ⟨held, ⟨?_, ?_, ?_⟩, ?_⟩
  · intro e hinitialized
    rw [(hentries e).initialized] at hinitialized
    rw [(hentries e).commitVersion, (hentries e).outcome]
    exact h.current e hinitialized
  · intro e hinitialized
    rw [(hentries e).initialized] at hinitialized
    rw [(hentries e).outcome, (hentries e).encoded]
    exact h.encoded e hinitialized
  · intro e record hmem
    rw [(hentries e).commitVersion]
    exact h.record e record (hstreams e record hmem)
  · intro e hinitialized
    rw [(hentries e).initialized, (hentries e).commitVersion]
    exact ⟨hinitialized, le_rfl, fun _ _ => rfl⟩

theorem Recorded.addEntry (h : Recorded held s) (hwindow : Windowed options s) (key : QueryKey) :
    Recorded held (s.addEntry options key) ∧
      Extends held s held (s.addEntry options key) := by
  have hnew : ((s.addEntry options key).entries s.entryCount).initialized = false := by
    simp [State.addEntry]
  have hold : ∀ e ≠ s.entryCount, (s.addEntry options key).entries e = s.entries e := by
    intro e he
    simp [State.addEntry, update_of_ne he]
  refine ⟨⟨?_, ?_, ?_⟩, ?_⟩
  · intro e hinitialized
    by_cases he : e = s.entryCount
    · rw [he, hnew] at hinitialized
      cases hinitialized
    · rw [hold e he] at hinitialized ⊢
      exact h.current e hinitialized
  · intro e hinitialized
    by_cases he : e = s.entryCount
    · rw [he, hnew] at hinitialized
      cases hinitialized
    · rw [hold e he] at hinitialized ⊢
      exact h.encoded e hinitialized
  · intro e record hmem
    by_cases he : e = s.entryCount
    · exact absurd (hwindow.stream_eq_nil (hwindow.unused e he.ge)) (ne_nil_of_mem hmem)
    · rw [hold e he]
      exact h.record e record hmem
  · intro e hinitialized
    have he : e ≠ s.entryCount := by
      rintro rfl
      rw [hwindow.unused _ le_rfl] at hinitialized
      cases hinitialized
    rw [hold e he]
    exact ⟨hinitialized, le_rfl, fun _ _ => rfl⟩

theorem encodeExecution_encoded (h : encodeExecution result readSet commitVersion = .ok evaluated) :
    Wire.encode (wireValue result) = .ok evaluated.encoded ∧
      (evaluated.applicationError.isNone = match result with | .ok _ => true | .err _ => false) ∧
      ∀ entry : QueryEntry, entry.changedBy evaluated = true → ∀ before,
        HistoryChange.applied before (historyChange entry evaluated) = result := by
  rw [encodeExecution, Except.bind_eq_ok] at h
  obtain ⟨encoded, hencoded, h⟩ := h
  cases result <;> cases h <;>
    refine ⟨hencoded, rfl, fun entry hchanged before => ?_⟩ <;>
    simp [historyChange, hchanged, HistoryChange.applied]

/-- What a record says about an entry that takes over an evaluation. -/
theorem agrees_historyChange
    (hencoded : encodeExecution result readSet commitVersion = .ok evaluated)
    (hentry : Wire.encode (wireValue entry.outcome) = .ok entry.encoded) :
    Agrees (HistoryChange.applied entry.outcome (historyChange entry evaluated)) result := by
  obtain ⟨hresult, hkind, happlied⟩ := encodeExecution_encoded hencoded
  cases hchanged : entry.changedBy evaluated with
  | true =>
    rw [happlied entry hchanged]
    exact .refl _
  | false =>
    have hcheckpoint : historyChange entry evaluated = .checkpoint := by
      simp [historyChange, hchanged]
    rw [hcheckpoint]
    simp only [QueryEntry.changedBy, Bool.or_eq_false_iff, bne_eq_false_iff_eq] at hchanged
    obtain ⟨⟨-, hsame⟩, hsameKind⟩ := hchanged
    have hwire : Wire.encode (wireValue entry.outcome) = Wire.encode (wireValue result) := by
      rw [hentry, hresult, hsame]
    rw [hkind] at hsameKind
    unfold QueryEntry.outcome at hwire ⊢
    cases herror : entry.applicationError with
    | none =>
      rw [herror] at hsameKind hwire
      cases result with
      | ok => exact hwire
      | err => cases hsameKind
    | some =>
      rw [herror] at hsameKind hwire
      cases result with
      | ok => cases hsameKind
      | err => exact hwire

theorem Recorded.install (h : Recorded held s) (hwindow : Windowed options s) (hdated : Dated s)
    {e : Nat} {result : Result} {readSet : List String} {commitVersion : Nat}
    {evaluated : QueryEvaluation} {now : Int}
    (hencoded : encodeExecution result readSet commitVersion = .ok evaluated)
    (hrises : (s.entries e).initialized = true → (s.entries e).commitVersion < commitVersion) :
    ∃ later, Recorded later (s.install options e evaluated now) ∧
      Extends held s later (s.install options e evaluated now) := by
  obtain ⟨generation, hentries⟩ := s.install_entries options e evaluated now
  obtain ⟨-, hversion, houtcome⟩ := encodeExecution_eq_ok hencoded
  have hself := congrFun hentries e
  rw [update_self] at hself
  have hothers : ∀ other ≠ e, (s.install options e evaluated now).entries other =
      s.entries other := fun other hother => by rw [hentries, update_of_ne hother]
  have hselfVersion : ((s.install options e evaluated now).entries e).commitVersion =
      commitVersion := by
    rw [hself]
    exact hversion
  have hselfOutcome : ((s.install options e evaluated now).entries e).outcome = result := by
    rw [hself]
    exact houtcome _ _ _
  refine ⟨update held e (update (held e) commitVersion result), ⟨?_, ?_, ?_⟩, ?_⟩
  · intro other hinitialized
    by_cases hother : other = e
    · subst hother
      rw [hselfVersion, hselfOutcome, update_self, update_self]
    · rw [hothers other hother] at hinitialized ⊢
      rw [update_of_ne hother]
      exact h.current other hinitialized
  · intro other hinitialized
    by_cases hother : other = e
    · subst hother
      rw [hselfOutcome, hself]
      exact (encodeExecution_encoded hencoded).1
    · rw [hothers other hother] at hinitialized ⊢
      exact h.encoded other hinitialized
  · intro other record hmem
    by_cases hother : other = e
    · subst hother
      rw [hselfVersion, update_self]
      rcases installResult_record hmem with hold | ⟨hinitialized, hadvances, -, hnew⟩
      · have hinitialized := hwindow.started other (ne_nil_of_mem hold)
        have hlt := hrises hinitialized
        obtain ⟨hle, hagrees⟩ := h.record other record hold
        have hstep := hdated.record other record hold
        rw [update_of_ne (by omega), update_of_ne (by omega)]
        exact ⟨by omega, hagrees⟩
      have hlt := hrises hinitialized
      have hagrees := agrees_historyChange hencoded (h.encoded other hinitialized)
      rw [← h.current other hinitialized] at hagrees
      subst hnew
      show evaluated.commitVersion ≤ commitVersion ∧ Agrees (HistoryChange.applied
        (update (held other) commitVersion result (s.entries other).commitVersion)
        (historyChange (s.entries other) evaluated))
        (update (held other) commitVersion result evaluated.commitVersion)
      rw [hversion, update_of_ne hlt.ne, update_self]
      exact ⟨le_rfl, hagrees⟩
    have hold : record ∈ s.history.streams other := by
      rcases installResult_record hmem with hold | ⟨-, -, hsame, -⟩
      · exact hold
      · exact absurd hsame hother
    rw [hothers other hother, update_of_ne hother]
    exact h.record other record hold
  · intro other hinitialized
    by_cases hother : other = e
    · subst hother
      have hlt := hrises hinitialized
      rw [hselfVersion]
      refine ⟨by rw [hself]; rfl, hlt.le, fun v hv => ?_⟩
      rw [update_self, update_of_ne (by omega)]
    · rw [hothers other hother]
      exact ⟨hinitialized, le_rfl, fun v _ => by rw [update_of_ne hother]⟩

/-- **Every change keeps the records faithful.** -/
theorem Recorded.change (h : Recorded held s) (hwindow : Windowed options s) (hdated : Dated s)
    (hpaced : Paced s) (hchange : Change options event s t) :
    ∃ later, Recorded later t ∧ Extends held s later t := by
  cases hchange with
  | addEntry key => exact ⟨held, h.addEntry hwindow key⟩
  | unlink =>
    exact h.congr (fun _ _ hmem => mem_clear hmem)
      (sameOutcome_update ⟨rfl, rfl, rfl, rfl, rfl⟩)
  | pruneHistory =>
    exact h.congr (fun _ _ hmem => mem_prune hmem)
      fun _ => ⟨rfl, rfl, rfl, rfl, rfl⟩
  | install task _ _ _ commitVersion _ now htask hrunning _ hencoded hversion =>
      subst htask
      have hrises : (s.entries (s.evaluations task).entry).initialized = true →
          (s.entries (s.evaluations task).entry).commitVersion < commitVersion := by
        intro hinitialized
        rw [hversion]
        exact hpaced.rises hrunning hinitialized
      obtain ⟨later, hrecorded, hextends⟩ :=
        @Recorded.install options s held h hwindow hdated _ _ _ _ _ now hencoded hrises
      exact ⟨later, { hrecorded with }, hextends⟩
  | mark | start | submit | releaseEntry | attach =>
    exact h.congr (fun _ _ => id) (sameOutcome_update ⟨rfl, rfl, rfl, rfl, rfl⟩)
  | detach =>
    unfold State.detach
    dsimp only
    split
    · exact h.congr (fun _ _ => id) (sameOutcome_update ⟨rfl, rfl, rfl, rfl, rfl⟩)
    · exact ⟨held, h, .refl held s⟩
  | detachEvent =>
    unfold State.detachEvent
    dsimp only
    split
    · exact h.congr (fun _ _ => id) fun _ => ⟨rfl, rfl, rfl, rfl, rfl⟩
    · exact ⟨held, h, .refl held s⟩
  | reset =>
    rw [reset_eq_setOutbox]
    exact h.congr (fun _ _ hmem => hmem) fun _ => ⟨rfl, rfl, rfl, rfl, rfl⟩
  | _ => exact h.congr (fun _ _ => id) fun _ => ⟨rfl, rfl, rfl, rfl, rfl⟩

/-- All that is known of the window of a state. -/
structure Kept (options : ReactiveOptions) (held : Nat → Nat → Result) (s : State) : Prop where
  paced : Paced s
  dated : Dated s
  window : Windowed options s
  recorded : Recorded held s

theorem Kept.changes (hlimits : 0 < options.resume.maxTransitionsPerStream)
    (h : Kept options held s) (hchanges : Changes options event s t) :
    ∃ later, Kept options later t ∧ Extends held s later t := by
  induction hchanges with
  | refl => exact ⟨held, h, .refl held s⟩
  | tail _ hlast ih =>
    obtain ⟨middle, hmiddle, hextends⟩ := ih
    obtain ⟨later, hrecorded, hlater⟩ :=
      hmiddle.recorded.change hmiddle.window hmiddle.dated hmiddle.paced hlast
    exact ⟨later, ⟨hmiddle.paced.change hlast, (hmiddle.dated.change hlast).1,
      hmiddle.window.change hlimits hmiddle.paced hlast, hrecorded⟩, hextends.trans hlater⟩

/-- The invariant along a run, from any state that has it. -/
theorem Kept.run {guard : State → Event → Prop}
    (hlimits : 0 < options.resume.maxTransitionsPerStream)
    (h : Kept options held s) (hreach : Run.Reachable (step options) guard s t) :
    ∃ later, Kept options later t ∧ Extends held s later t := by
  induction hreach with
  | refl => exact ⟨held, h, .refl held s⟩
  | step _ _ hnext ih =>
    obtain ⟨middle, hmiddle, hextends⟩ := ih
    obtain ⟨later, hlater, hextends'⟩ := hmiddle.changes hlimits (step_changes hnext)
    exact ⟨later, hlater, hextends.trans hextends'⟩

end Changes

theorem kept_initial (options : ReactiveOptions) (held : Nat → Nat → Result) :
    Kept options held (initial options) :=
  ⟨paced_initial options, dated_initial options, windowed_initial options,
    recorded_initial options held⟩

/-- **The resume window is faithful and bounded.**  The stored objects follow the window of lists
operation by operation; the window respects its limits, and its streams have no gap; and whatever
chain is returned between two versions an entry had, it leads from the outcome at the first to
that at the second. -/
theorem history_faithful {options : ReactiveOptions}
    (hlimits : 0 < options.resume.maxTransitionsPerStream) {earlier middle s : State}
    (hearlier : Run.Reachable (step options) (fun _ _ => True) (initial options) earlier)
    (hmiddle : Run.Reachable (step options) (fun _ _ => True) earlier middle)
    (hlast : Run.Reachable (step options) (fun _ _ => True) middle s) :
    ∃ l : LinkedHistory, Storage options s.history l ∧
      s.history.limits = options.resume ∧ s.history.Sound ∧ s.history.Within ∧
      (∀ e, Joined (s.history.streams e)) ∧
      ∀ e chain, (earlier.entries e).initialized = true → (middle.entries e).initialized = true →
        l.chain e (earlier.entries e).commitVersion (middle.entries e).commitVersion = some chain →
        Agrees (replay (earlier.entries e).outcome chain) (middle.entries e).outcome := by
  obtain ⟨first, hfirst, -⟩ := (kept_initial options fun _ _ => .ok .undefined).run hlimits hearlier
  obtain ⟨second, hsecond, hextends⟩ := hfirst.run hlimits hmiddle
  obtain ⟨third, hthird, hextends'⟩ := hsecond.run hlimits hlast
  obtain ⟨l, hstorage⟩ := hthird.window.storage
  refine ⟨l, hstorage, hthird.window.limits, hthird.window.sound, hthird.window.within,
    hthird.window.joined, ?_⟩
  intro e chain hinitialized hinitialized' hchain
  rw [hstorage.represents.chain hthird.window.sound] at hchain
  obtain ⟨-, hcontiguous, hmem⟩ := chain_spec hchain
  obtain ⟨-, hversion, hsame⟩ := hextends.trans hextends' e hinitialized
  obtain ⟨-, -, hsame'⟩ := hextends' e hinitialized'
  have hstart : Agrees (earlier.entries e).outcome (third e (earlier.entries e).commitVersion) := by
    rw [hsame _ le_rfl, hfirst.recorded.current e hinitialized]
    exact .refl _
  have hend : third e (middle.entries e).commitVersion = (middle.entries e).outcome := by
    rw [hsame' _ le_rfl, hsecond.recorded.current e hinitialized']
  rw [← hend]
  exact replay_contiguous hcontiguous
    (fun record hrecord => (hthird.recorded.record e record (hmem record hrecord)).2) hstart

/-- The first evaluation of a query. -/
def firstTurns : List Event :=
  [.subscribeQuery 1 1 "notes.list" .null "" 0 none 0, .startEvaluation 0,
    .evaluated 0 (.ok (.bool true)) ["notes"] 0 0, .finishEvaluation 0, .release 0 0]

/-- A commit touches the query, which changes. -/
def laterTurns : List Event :=
  [.reserve 1 0, .commit ["notes"], .publish, .startEvaluation 1,
    .evaluated 1 (.ok (.bool false)) ["notes"] 1 0]

theorem history_faithful_changed :
    ∃ (earlier middle : State) (chain : List HistoryRecord),
      middle.history.chain 0 0 1 = some chain ∧ chain.length = 1 ∧
      Agrees (replay (earlier.entries 0).outcome chain) (middle.entries 0).outcome := by
  have hcomputed : ((Run.run (step sampleOptions) (initial sampleOptions) firstTurns).any
      fun earlier => (Run.run (step sampleOptions) earlier laterTurns).any fun middle =>
        (earlier.entries 0).initialized && (earlier.entries 0).commitVersion == 0 &&
        (middle.entries 0).initialized && (middle.entries 0).commitVersion == 1 &&
        (middle.history.chain 0 0 1).any fun chain => chain.length == 1) = true := by
    decide +kernel
  simp only [Option.any_eq_true, Bool.and_eq_true, beq_iff_eq] at hcomputed
  obtain ⟨earlier, hearlier, middle, hmiddle, ⟨⟨⟨hinitialized, hversion⟩, hinitialized'⟩, hversion'⟩,
    chain, hchain, hlength⟩ := hcomputed
  obtain ⟨l, hstorage, -, hsound, -, -, hreplay⟩ := history_faithful (by decide)
    (Run.reachable_of_run hearlier) (Run.reachable_of_run hmiddle) .refl
  refine ⟨earlier, middle, chain, hchain, hlength, hreplay 0 chain hinitialized hinitialized' ?_⟩
  rw [hstorage.represents.chain hsound, hversion, hversion', hchain]

end Reactive

end AckerDB
