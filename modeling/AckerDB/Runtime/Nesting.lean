import AckerDB.Runtime.MutationScope

/-!
# Savepoints and staged effects are in step

The invariant of nested mutation scopes.  The open scopes are those the current mutation runs in,
each called by the next one outward; every savepoint holds the data, and every checkpoint the
collector, of the calls that survive and were made outside its scope.

* `Tree`, `Serial` — who has called whom, and that siblings run one after the other;
* `Stacked` — the open scopes, their savepoints and their checkpoints;
* `scopes_in_step` — in every run in which no mutation acts after its scope was closed, the data
  and the collector are those of the surviving calls.
-/

namespace AckerDB

open Function List

namespace MutationScopes

variable {κ ε : Type} [DecidableEq κ] {s t : MutationScopes κ ε}

/-! ## Who has called whom -/

/-- The frames are a tree, numbered from the root. -/
structure Tree (s : MutationScopes κ ε) : Prop where
  pos : 0 < s.count
  root : (s.frames 0).scopes = []
  scopes : ∀ f, 0 < f → f < s.count →
    (s.frames f).scopes = f :: (s.frames (s.frames f).parent).scopes
  parent_lt : ∀ f, 0 < f → f < s.count → (s.frames f).parent < f
  children : ∀ p c, c ∈ (s.frames p).children ↔ 0 < c ∧ c < s.count ∧ (s.frames c).parent = p
  nodup : ∀ p, (s.frames p).children.Nodup
  beyond : ∀ f, s.count ≤ f → s.frames f = {}

/-- Two states have the same tree. -/
structure SameTree (s t : MutationScopes κ ε) : Prop where
  count : t.count = s.count
  parent : ∀ f, (t.frames f).parent = (s.frames f).parent
  scopes : ∀ f, (t.frames f).scopes = (s.frames f).scopes
  children : ∀ f, (t.frames f).children = (s.frames f).children
  beyond : ∀ f, s.count ≤ f → t.frames f = s.frames f

omit [DecidableEq κ] in
theorem Tree.of_same (h : s.Tree) (hsame : SameTree s t) : t.Tree where
  pos := by
    rw [hsame.count]
    exact h.pos
  root := by
    rw [hsame.scopes]
    exact h.root
  scopes f hpos hlt := by
    rw [hsame.count] at hlt
    rw [hsame.scopes, hsame.parent, hsame.scopes]
    exact h.scopes f hpos hlt
  parent_lt f hpos hlt := by
    rw [hsame.count] at hlt
    rw [hsame.parent]
    exact h.parent_lt f hpos hlt
  children p c := by
    rw [hsame.children, hsame.count, hsame.parent]
    exact h.children p c
  nodup p := by
    rw [hsame.children]
    exact h.nodup p
  beyond f hle := by
    rw [hsame.count] at hle
    rw [hsame.beyond f hle]
    exact h.beyond f hle

/-- One frame is changed. -/
structure Changes (s t : MutationScopes κ ε) (f : Nat) (frame : ScopeFrame) : Prop where
  count : t.count = s.count
  frames : t.frames = update s.frames f frame

namespace Changes

omit [DecidableEq κ]

variable {f g : Nat} {frame : ScopeFrame}

theorem self (h : Changes s t f frame) : t.frames f = frame := by
  rw [h.frames, update_self]

theorem other (h : Changes s t f frame) (hg : g ≠ f) : t.frames g = s.frames g := by
  rw [h.frames, update_of_ne hg]

/-- A frame that stays where it is. -/
theorem sameTree (h : Changes s t f frame) (hlt : f < s.count)
    (hparent : frame.parent = (s.frames f).parent) (hscopes : frame.scopes = (s.frames f).scopes)
    (hchildren : frame.children = (s.frames f).children) : SameTree s t := by
  refine ⟨h.count, fun g => ?_, fun g => ?_, fun g => ?_, fun g hle => h.other (by omega)⟩
  all_goals
    by_cases hg : g = f
    · subst hg
      rw [h.self]
      assumption
    · rw [h.other hg]

end Changes

namespace Tree

omit [DecidableEq κ]

/-- The scopes of a mutation have its number or a lower one. -/
theorem mem_scopes (h : s.Tree) {c f : Nat} (hlt : c < s.count) (hf : f ∈ (s.frames c).scopes) :
    0 < f ∧ f ≤ c := by
  induction c using Nat.strong_induction_on with
  | _ c ih =>
    rcases Nat.eq_zero_or_pos c with rfl | hpos
    · rw [h.root] at hf
      cases hf
    rw [h.scopes c hpos hlt, mem_cons] at hf
    rcases hf with rfl | hf
    · exact ⟨hpos, le_refl _⟩
    · have hparent := h.parent_lt c hpos hlt
      have hle := ih _ hparent (hparent.trans hlt) hf
      exact ⟨hle.1, hle.2.trans hparent.le⟩

theorem self_mem (h : s.Tree) {f : Nat} (hpos : 0 < f) (hlt : f < s.count) :
    f ∈ (s.frames f).scopes := by
  rw [h.scopes f hpos hlt]
  exact mem_cons_self

/-- A scope's own scopes are those around it. -/
theorem scopes_subset (h : s.Tree) {c f : Nat} (hlt : c < s.count)
    (hf : f ∈ (s.frames c).scopes) : (s.frames f).scopes ⊆ (s.frames c).scopes := by
  induction c using Nat.strong_induction_on with
  | _ c ih =>
    rcases Nat.eq_zero_or_pos c with rfl | hpos
    · rw [h.root] at hf
      cases hf
    have hscopes := h.scopes c hpos hlt
    rw [hscopes, mem_cons] at hf
    rcases hf with rfl | hf
    · exact Subset.refl _
    · have hparent := h.parent_lt c hpos hlt
      rw [hscopes]
      exact Subset.trans (ih _ hparent (hparent.trans hlt) hf) (subset_cons_self _ _)

/-- From the innermost scope outward, the numbers fall. -/
theorem descending (h : s.Tree) {c : Nat} (hlt : c < s.count) :
    (s.frames c).scopes.Pairwise fun a b => b < a := by
  induction c using Nat.strong_induction_on with
  | _ c ih =>
    rcases Nat.eq_zero_or_pos c with rfl | hpos
    · rw [h.root]
      exact Pairwise.nil
    have hparent := h.parent_lt c hpos hlt
    rw [h.scopes c hpos hlt, pairwise_cons]
    refine ⟨fun f hf => ?_, ih _ hparent (hparent.trans hlt)⟩
    exact (h.mem_scopes (hparent.trans hlt) hf).2.trans_lt hparent

/-- Around a mutation, a scope that is not its own has called the next one inward. -/
theorem exists_child (h : s.Tree) {c f : Nat} (hlt : c < s.count)
    (hf : f = 0 ∨ f ∈ (s.frames c).scopes) (hne : f ≠ c) :
    ∃ q ∈ (s.frames c).scopes, (s.frames q).parent = f := by
  induction c using Nat.strong_induction_on with
  | _ c ih =>
    rcases Nat.eq_zero_or_pos c with rfl | hpos
    · rcases hf with rfl | hf
      · exact absurd rfl hne
      · rw [h.root] at hf
        cases hf
    have hparent := h.parent_lt c hpos hlt
    rw [h.scopes c hpos hlt] at hf ⊢
    by_cases hown : (s.frames c).parent = f
    · exact ⟨c, mem_cons_self, hown⟩
    have houter : f = 0 ∨ f ∈ (s.frames (s.frames c).parent).scopes := by
      rcases hf with hf | hf
      · exact .inl hf
      · rcases mem_cons.1 hf with heq | hf
        · exact absurd heq hne
        · exact .inr hf
    obtain ⟨q, hq, hcalled⟩ := ih _ hparent (hparent.trans hlt) houter (Ne.symm hown)
    exact ⟨q, mem_cons_of_mem _ hq, hcalled⟩

end Tree

/-! ## Siblings run one after the other -/

/-- When children run. -/
structure Serial (s : MutationScopes κ ε) : Prop where
  waiting : ∀ f, (s.frames f).phase = .waiting → (s.frames f).children = []
  awaited : ∀ f outcome, (s.frames f).phase = .draining outcome →
    (s.frames f).awaited = (s.frames f).children.length
  ended : ∀ f, (s.frames f).phase.isEnded = true →
    ∀ c ∈ (s.frames f).children, (s.frames c).phase.isEnded = true
  turns : ∀ p, (s.frames p).children.Pairwise fun a b =>
    (s.frames b).phase ≠ .waiting → (s.frames a).phase.isEnded = true

/-- What holds before an element of a list, by position. -/
theorem pairwise_of_takeWhile {p : Nat → Prop} {f : Nat} {items : List Nat} (hnodup : items.Nodup)
    (h : ∀ a ∈ items.takeWhile (fun other => other ≠ f), p a) :
    items.Pairwise fun a b => b = f → p a := by
  induction items with
  | nil => exact Pairwise.nil
  | cons item rest ih =>
    rw [nodup_cons] at hnodup
    rw [pairwise_cons]
    by_cases hitem : item = f
    · subst hitem
      have hfresh : ∀ b ∈ rest, b ≠ item := fun b hb heq => hnodup.1 (heq ▸ hb)
      refine ⟨fun b hb heq => absurd heq (hfresh b hb), ?_⟩
      refine pairwise_of_forall_mem_list fun a _ b hb heq => ?_
      exact absurd heq (hfresh b hb)
    · rw [takeWhile_cons_of_pos (by simpa using hitem)] at h
      exact ⟨fun b _ _ => h item mem_cons_self,
        ih hnodup.2 fun a ha => h a (mem_cons_of_mem _ ha)⟩

omit [DecidableEq κ] in
theorem pairwise_of_hasTurn {f : Nat} (htree : s.Tree) (hpos : 0 < f) (hlt : f < s.count)
    (hturn : s.hasTurn f = true) (p : Nat) :
    (s.frames p).children.Pairwise fun a b => b = f → (s.frames a).phase.isEnded = true := by
  by_cases hp : (s.frames f).parent = p
  · subst hp
    rw [hasTurn, all_eq_true] at hturn
    exact pairwise_of_takeWhile (htree.nodup _) hturn
  · refine pairwise_of_forall_mem_list fun a _ b hb heq => ?_
    subst heq
    exact absurd ((htree.children p b).1 hb).2.2 hp

omit [DecidableEq κ] in
/-- A mutation goes on to its next phase. -/
theorem Serial.changes (h : s.Serial) {f : Nat} {frame : ScopeFrame} (hch : Changes s t f frame)
    (hchildren : frame.children = (s.frames f).children) (hwaiting : frame.phase ≠ .waiting)
    (hawaited : ∀ outcome, frame.phase = .draining outcome →
      frame.awaited = (s.frames f).children.length)
    (hended : frame.phase.isEnded = true → ∀ c ∈ (s.frames f).children,
      (s.frames c).phase.isEnded = true)
    (hnot : (s.frames f).phase.isEnded = false)
    (hturn : (s.frames f).phase = .waiting → ∀ p, (s.frames p).children.Pairwise fun a b =>
      b = f → (s.frames a).phase.isEnded = true) : t.Serial := by
  have hsame : ∀ g, (t.frames g).children = (s.frames g).children := by
    intro g
    by_cases hg : g = f
    · rw [hg, hch.self, hchildren]
    · rw [hch.other hg]
  have hmono : ∀ g, (s.frames g).phase.isEnded = true → (t.frames g).phase.isEnded = true := by
    intro g hg
    have hne : g ≠ f := by
      rintro rfl
      rw [hnot] at hg
      cases hg
    rw [hch.other hne]
    exact hg
  refine ⟨fun g hg => ?_, fun g outcome hg => ?_, fun g hg c hc => ?_, fun p => ?_⟩
  · by_cases hne : g = f
    · rw [hne, hch.self] at hg
      exact absurd hg hwaiting
    · rw [hch.other hne] at hg ⊢
      exact h.waiting g hg
  · rw [hsame]
    by_cases hne : g = f
    · rw [hne, hch.self] at hg ⊢
      exact hawaited outcome hg
    · rw [hch.other hne] at hg ⊢
      exact h.awaited g outcome hg
  · rw [hsame] at hc
    by_cases hne : g = f
    · rw [hne, hch.self] at hg
      rw [hne] at hc
      exact hmono c (hended hg c hc)
    · rw [hch.other hne] at hg
      exact hmono c (h.ended g hg c hc)
  · rw [hsame]
    by_cases hfirst : (s.frames f).phase = .waiting
    · refine Pairwise.imp ?_ ((h.turns p).and (hturn hfirst p))
      intro a b hboth hb
      apply hmono a
      by_cases hne : b = f
      · exact hboth.2 hne
      · rw [hch.other hne] at hb
        exact hboth.1 hb
    refine Pairwise.imp ?_ (h.turns p)
    intro a b hprior hb
    apply hmono a
    apply hprior
    by_cases hne : b = f
    · rw [hne]
      exact hfirst
    · rwa [hch.other hne] at hb

/-! ## The calls that survive -/

/-- None of the mutation's scopes has failed. -/
def alive (s : MutationScopes κ ε) (f : Nat) : Bool :=
  (s.frames f).scopes.all fun scope => !(s.frames scope).phase.failed

/-- The surviving calls that were made outside a scope. -/
def outside (s : MutationScopes κ ε) (f : Nat) : List (Staging κ ε) :=
  (s.calls.filter fun call => s.alive call.1 && decide (f ∉ (s.frames call.1).scopes)).map Prod.snd

omit [DecidableEq κ] in
theorem survivors_eq (s : MutationScopes κ ε) :
    s.survivors = (s.calls.filter fun call => s.alive call.1).map Prod.snd := rfl

omit [DecidableEq κ] in
theorem survivors_congr (hcalls : t.calls = s.calls)
    (halive : ∀ call ∈ s.calls, t.alive call.1 = s.alive call.1) : t.survivors = s.survivors := by
  rw [survivors_eq, survivors_eq, hcalls]
  exact congrArg (map Prod.snd) (filter_congr halive)

omit [DecidableEq κ] in
theorem outside_congr (hcalls : t.calls = s.calls) {f : Nat}
    (halive : ∀ call ∈ s.calls, f ∉ (s.frames call.1).scopes → t.alive call.1 = s.alive call.1)
    (hscopes : ∀ call ∈ s.calls, (t.frames call.1).scopes = (s.frames call.1).scopes) :
    t.outside f = s.outside f := by
  rw [outside, outside, hcalls]
  refine congrArg (map Prod.snd) (filter_congr fun call hcall => ?_)
  rw [hscopes call hcall]
  by_cases hf : f ∈ (s.frames call.1).scopes
  · simp [hf]
  · rw [halive call hcall hf]

/-! ## The invariant -/

/-- A savepoint and a checkpoint of the scope. -/
structure Saves (s : MutationScopes κ ε) (f : Nat) (savepoint : Savepoint κ ε) : Prop where
  name : savepoint.name = (s.frames f).savepoint
  data : savepoint.data = s.outside f
  before : (s.frames f).before = (WriteCollector.ofCalls savepoint.data).checkpoint

theorem Saves.congr {f : Nat} {savepoint : Savepoint κ ε} (h : s.Saves f savepoint)
    (hname : (t.frames f).savepoint = (s.frames f).savepoint)
    (hbefore : (t.frames f).before = (s.frames f).before) (houtside : t.outside f = s.outside f) :
    t.Saves f savepoint :=
  ⟨h.name.trans hname.symm, h.data.trans houtside.symm, hbefore.trans h.before⟩

/-- The mutation `c` is the one that may use the database. -/
structure Stacked (s : MutationScopes κ ε) (c : Nat) : Prop where
  current : s.current = some c
  lt : c < s.count
  root : (s.frames 0).phase.isOpen = true
  open_iff : ∀ f, 0 < f → f < s.count →
    ((s.frames f).phase.isOpen = true ↔ f ∈ (s.frames c).scopes)
  active : s.active = (s.frames c).scopes.length
  savepoints : Forall₂ s.Saves (s.frames c).scopes s.savepoints
  earlier : (s.data :: s.savepoints.map (·.data)).Pairwise fun later earlier => earlier <+: later

/-- The transaction is over. -/
structure Over (s : MutationScopes κ ε) : Prop where
  savepoints : s.savepoints = []
  ended : ∀ f, f < s.count → (s.frames f).phase.isEnded = true

/-- **The invariant.** -/
structure Nested (s : MutationScopes κ ε) : Prop where
  tree : s.Tree
  serial : s.Serial
  calls : ∀ call ∈ s.calls, call.1 < s.count ∧
    ∀ scope ∈ (s.frames call.1).scopes, (s.frames scope).phase ≠ .waiting
  data : s.data = s.survivors
  writes : s.writes = .ofCalls s.data
  stacked : (∃ c, s.Stacked c) ∨ s.Over

/-! ## The current mutation -/

theorem isOpen_of_isEnded {phase : ScopePhase} (h : phase.isEnded = true) :
    phase.isOpen = false := by
  cases phase <;> first | rfl | cases h

theorem ScopePhase.of_isOpen {phase : ScopePhase} (h : phase.isOpen = true) :
    phase ≠ .waiting ∧ phase.failed = false ∧ phase.isEnded = false := by
  cases phase <;> simp [ScopePhase.isOpen, ScopePhase.failed, ScopePhase.isEnded] at h ⊢

theorem ScopePhase.cases (phase : ScopePhase) :
    phase = .waiting ∨ phase.isOpen = true ∨ phase.isEnded = true := by
  cases phase <;> simp [ScopePhase.isOpen, ScopePhase.isEnded]

/-- An open mutation none of whose children is open is the current one. -/
theorem Stacked.eq_current {c f : Nat} (h : s.Stacked c) (htree : s.Tree) (hlt : f < s.count)
    (hopen : (s.frames f).phase.isOpen = true)
    (hchildren : ∀ q ∈ (s.frames f).children, (s.frames q).phase.isOpen = false) : f = c := by
  by_contra hne
  have hf : f = 0 ∨ f ∈ (s.frames c).scopes := by
    rcases Nat.eq_zero_or_pos f with hzero | hpos
    · exact .inl hzero
    · exact .inr ((h.open_iff f hpos hlt).1 hopen)
  obtain ⟨q, hq, hparent⟩ := htree.exists_child h.lt hf hne
  obtain ⟨hpos, hle⟩ := htree.mem_scopes h.lt hq
  have hqlt := hle.trans_lt h.lt
  have hclosed := hchildren q ((htree.children f q).2 ⟨hpos, hqlt, hparent⟩)
  rw [(h.open_iff q hpos hqlt).2 hq] at hclosed
  cases hclosed

/-- A mutation whose turn has come was called by the current one. -/
theorem Stacked.parent_eq {c f : Nat} (h : s.Stacked c) (htree : s.Tree) (hserial : s.Serial)
    (hpos : 0 < f) (hlt : f < s.count) (hwaiting : (s.frames f).phase = .waiting)
    (hturn : s.hasTurn f = true) : (s.frames f).parent = c := by
  have hparent := (htree.parent_lt f hpos hlt).trans hlt
  have hmem : f ∈ (s.frames (s.frames f).parent).children := (htree.children _ f).2 ⟨hpos, hlt, rfl⟩
  have hopen : (s.frames (s.frames f).parent).phase.isOpen = true := by
    rcases ScopePhase.cases (s.frames (s.frames f).parent).phase with hw | ho | he
    · rw [hserial.waiting _ hw] at hmem
      cases hmem
    · exact ho
    · have hended := hserial.ended _ he f hmem
      rw [hwaiting] at hended
      cases hended
  refine h.eq_current htree hparent hopen fun q hq => ?_
  -- a child before it has ended, one after it has to wait
  by_cases hqf : q = f
  · rw [hqf, hwaiting]
    rfl
  have hclosed : (s.frames (s.frames f).parent).children.Pairwise fun a b =>
      (b = f → (s.frames a).phase.isOpen = false) ∧
        (a = f → (s.frames b).phase.isOpen = false) := by
    refine Pairwise.imp ?_ ((hserial.turns _).and (pairwise_of_hasTurn htree hpos hlt hturn _))
    intro a b hboth
    refine ⟨fun hb => isOpen_of_isEnded (hboth.2 hb), fun ha => ?_⟩
    by_contra hopenb
    have hended : (s.frames a).phase.isEnded = true := by
      apply hboth.1
      intro hb
      rw [hb] at hopenb
      exact hopenb rfl
    rw [ha, hwaiting] at hended
    cases hended
  have : Std.Symm fun a b => (b = f → (s.frames a).phase.isOpen = false) ∧
      (a = f → (s.frames b).phase.isOpen = false) := ⟨fun _ _ hboth => hboth.symm⟩
  exact (hclosed.forall hq hmem hqf).1 rfl

/-! ## The steps -/

theorem forall₂_imp_mem {α β : Type} {r q : α → β → Prop} {items : List α} {others : List β}
    (h : Forall₂ r items others) (himp : ∀ a ∈ items, ∀ b, r a b → q a b) :
    Forall₂ q items others := by
  induction h with
  | nil => exact .nil
  | cons hfirst _ ih =>
    refine .cons (himp _ mem_cons_self _ hfirst) (ih fun a ha => himp a ?_)
    exact mem_cons_of_mem _ ha

omit [DecidableEq κ] in
/-- Where the tree, the calls and the failed scopes are the same, so are the survivors. -/
theorem survivors_of_sameTree (hsame : SameTree s t) (hcalls : t.calls = s.calls)
    (hfailed : ∀ f, (t.frames f).phase.failed = (s.frames f).phase.failed) :
    t.survivors = s.survivors ∧ ∀ f, t.outside f = s.outside f := by
  have halive : ∀ f, t.alive f = s.alive f := by
    intro f
    rw [alive, alive, hsame.scopes]
    simp only [hfailed]
  exact ⟨survivors_congr hcalls fun call _ => halive call.1, fun f =>
    outside_congr hcalls (fun call _ _ => halive call.1) fun call _ => hsame.scopes call.1⟩

theorem Nested.exists_stacked (h : s.Nested) {f : Nat} (hlt : f < s.count)
    (hnot : (s.frames f).phase.isEnded = false) : ∃ c, s.Stacked c := by
  rcases h.stacked with hstacked | hover
  · exact hstacked
  · rw [hover.ended f hlt] at hnot
    cases hnot

/-- A mutation that goes on leaves the scopes of the calls started. -/
theorem Nested.started (h : s.Nested) {f : Nat} {frame : ScopeFrame} (hch : Changes s t f frame)
    (hsame : SameTree s t) (hcalls : t.calls = s.calls) (hphase : frame.phase ≠ .waiting) :
    ∀ call ∈ t.calls, call.1 < t.count ∧
      ∀ scope ∈ (t.frames call.1).scopes, (t.frames scope).phase ≠ .waiting := by
  intro call hcall
  obtain ⟨hlt, hstarted⟩ := h.calls call (hcalls ▸ hcall)
  rw [hsame.count, hsame.scopes]
  refine ⟨hlt, fun scope hscope => ?_⟩
  by_cases hne : scope = f
  · rw [hne, hch.self]
    exact hphase
  · rw [hch.other hne]
    exact hstarted scope hscope

/-- The scopes of the current mutation are open. -/
theorem Stacked.isOpen {c f : Nat} (h : s.Stacked c) (htree : s.Tree)
    (hf : f ∈ (s.frames c).scopes) : (s.frames f).phase.isOpen = true := by
  obtain ⟨hpos, hle⟩ := htree.mem_scopes h.lt hf
  exact (h.open_iff f hpos (hle.trans_lt h.lt)).2 hf

section Call

omit [DecidableEq κ]

variable {f : Nat}

theorem frames_addFrame_self (hlt : f < s.count) : (s.addFrame f).frames f =
    { s.frames f with children := (s.frames f).children ++ [s.count] } := by
  simp only [addFrame, setFrame]
  rw [update_of_ne (by omega), update_self]

theorem frames_addFrame_new (s : MutationScopes κ ε) (f : Nat) : (s.addFrame f).frames s.count =
    { parent := f, scopes := s.count :: (s.frames f).scopes } := by
  simp only [addFrame, setFrame]
  rw [update_self]

theorem frames_addFrame_other {g : Nat} (hf : g ≠ f) (hnew : g ≠ s.count) :
    (s.addFrame f).frames g = s.frames g := by
  simp only [addFrame, setFrame]
  rw [update_of_ne hnew, update_of_ne hf]

/-- Everything but the list of the caller's children stays. -/
theorem frames_addFrame (hlt : f < s.count) {g : Nat} (hnew : g ≠ s.count) :
    ∃ children, (s.addFrame f).frames g = { s.frames g with children } := by
  by_cases hg : g = f
  · subst hg
    exact ⟨_, frames_addFrame_self hlt⟩
  · exact ⟨_, frames_addFrame_other hg hnew⟩

theorem children_addFrame (htree : s.Tree) (hlt : f < s.count) (p : Nat) :
    ((s.addFrame f).frames p).children =
      if p = f then (s.frames f).children ++ [s.count] else (s.frames p).children := by
  by_cases hp : p = f
  · rw [hp, frames_addFrame_self hlt, if_pos rfl]
  rw [if_neg hp]
  by_cases hnew : p = s.count
  · rw [hnew, frames_addFrame_new, htree.beyond s.count (le_refl _)]
  · rw [frames_addFrame_other hp hnew]

theorem scopes_addFrame (hlt : f < s.count) (g : Nat) (hg : g < s.count) :
    ((s.addFrame f).frames g).scopes = (s.frames g).scopes := by
  obtain ⟨children, heq⟩ := frames_addFrame hlt (show g ≠ s.count by omega)
  rw [heq]

theorem Tree.addFrame (h : s.Tree) (hlt : f < s.count) : (s.addFrame f).Tree := by
  have hscopes := scopes_addFrame hlt
  have hparent : ∀ g, g < s.count → ((s.addFrame f).frames g).parent = (s.frames g).parent := by
    intro g hg
    obtain ⟨children, heq⟩ := frames_addFrame hlt (show g ≠ s.count by omega)
    rw [heq]
  refine ⟨Nat.succ_pos _, ?_, fun g hpos hg => ?_, fun g hpos hg => ?_, fun p c => ?_, fun p => ?_,
    fun g hg => ?_⟩
  · rw [hscopes 0 h.pos]
    exact h.root
  · rcases Nat.lt_succ_iff_lt_or_eq.1 hg with hg | hg
    · have hcaller := (h.parent_lt g hpos hg).trans hg
      rw [hscopes g hg, hparent g hg, hscopes _ hcaller]
      exact h.scopes g hpos hg
    · rw [hg, frames_addFrame_new, hscopes f hlt]
  · rcases Nat.lt_succ_iff_lt_or_eq.1 hg with hg | hg
    · rw [hparent g hg]
      exact h.parent_lt g hpos hg
    · rw [hg, frames_addFrame_new]
      exact hlt
  · have hold := h.children p c
    rw [children_addFrame h hlt]
    show _ ↔ 0 < c ∧ c < s.count + 1 ∧ _
    rcases Nat.lt_trichotomy c s.count with hc | hc | hc
    · rw [hparent c hc]
      have hne : c ≠ s.count := by omega
      split
      · rename_i hp
        subst hp
        rw [mem_append, mem_singleton, hold]
        exact ⟨fun hor => hor.elim (fun hin => ⟨hin.1, by omega, hin.2.2⟩) fun heq => absurd heq hne,
          fun hin => .inl ⟨hin.1, hc, hin.2.2⟩⟩
      · rw [hold]
        exact ⟨fun hin => ⟨hin.1, by omega, hin.2.2⟩, fun hin => ⟨hin.1, hc, hin.2.2⟩⟩
    · subst hc
      rw [frames_addFrame_new]
      split
      · rename_i hp
        subst hp
        simp [h.pos]
      · rename_i hp
        rw [hold]
        exact ⟨fun hin => absurd hin.2.1 (lt_irrefl _), fun hin => absurd hin.2.2.symm hp⟩
    have hne : c ≠ s.count := by omega
    constructor
    · intro hin
      split at hin
      · rename_i hp
        subst hp
        rw [mem_append, mem_singleton] at hin
        rcases hin with hin | hin
        · exact absurd (hold.1 hin).2.1 (by omega)
        · exact absurd hin hne
      · exact absurd (hold.1 hin).2.1 (by omega)
    · intro hin
      exact absurd hin.2.1 (by omega)
  · rw [children_addFrame h hlt]
    split
    · rw [nodup_append]
      refine ⟨h.nodup f, nodup_singleton _, fun a ha b hb heq => ?_⟩
      rw [mem_singleton] at hb
      exact absurd ((h.children f a).1 ha).2.1 (by omega)
    · exact h.nodup p
  · have hlater : s.count + 1 ≤ g := hg
    rw [frames_addFrame_other (by omega) (by omega)]
    exact h.beyond g (by omega)

theorem phase_addFrame (htree : s.Tree) (hlt : f < s.count) (g : Nat) :
    ((s.addFrame f).frames g).phase = (s.frames g).phase := by
  by_cases hnew : g = s.count
  · rw [hnew, frames_addFrame_new, htree.beyond s.count (le_refl _)]
  · obtain ⟨children, heq⟩ := frames_addFrame hlt hnew
    rw [heq]

theorem Serial.addFrame (h : s.Serial) (htree : s.Tree) (hlt : f < s.count)
    (hrunning : (s.frames f).phase = .running) : (s.addFrame f).Serial := by
  have hphase := phase_addFrame htree hlt
  have hold : ∀ g, (s.frames g).phase ≠ .running → g ≠ f :=
    fun g hg heq => hg (heq ▸ hrunning)
  refine ⟨fun g hg => ?_, fun g outcome hg => ?_, fun g hg c hc => ?_, fun p => ?_⟩
  · rw [hphase] at hg
    rw [children_addFrame htree hlt, if_neg (hold g (by simp [hg]))]
    exact h.waiting g hg
  · rw [hphase] at hg
    have hnew : g ≠ s.count := by
      rintro rfl
      rw [htree.beyond s.count (le_refl _)] at hg
      cases hg
    rw [frames_addFrame_other (hold g (by simp [hg])) hnew]
    exact h.awaited g outcome hg
  · rw [hphase] at hg ⊢
    rw [children_addFrame htree hlt, if_neg (hold g fun hr => by rw [hr] at hg; cases hg)] at hc
    exact h.ended g hg c hc
  · simp only [hphase]
    rw [children_addFrame htree hlt]
    split
    · rw [pairwise_append]
      refine ⟨h.turns f, pairwise_singleton _ _, fun a _ b hb hstarted => ?_⟩
      rw [mem_singleton] at hb
      rw [hb, htree.beyond s.count (le_refl _)] at hstarted
      exact absurd rfl hstarted
    · exact h.turns p

end Call

/-- A mutation is called. -/
theorem Nested.call (h : s.Nested) {f : Nat} (hlt : f < s.count)
    (hrunning : (s.frames f).phase = .running) : (s.addFrame f).Nested := by
  have hphase := phase_addFrame h.tree hlt
  have hscopes := scopes_addFrame hlt
  have halive : ∀ g, g < s.count → (s.addFrame f).alive g = s.alive g := by
    intro g hg
    rw [alive, alive, hscopes g hg]
    simp only [hphase]
  have hsurvivors : (s.addFrame f).survivors = s.survivors :=
    survivors_congr rfl fun call hcall => halive _ (h.calls call hcall).1
  have houtside : ∀ g, (s.addFrame f).outside g = s.outside g := fun g =>
    outside_congr (s := s) (t := s.addFrame f) rfl (fun call hcall _ => halive _ (h.calls call hcall).1)
      fun call hcall => hscopes _ (h.calls call hcall).1
  obtain ⟨c, hstacked⟩ := h.exists_stacked hlt (by rw [hrunning]; rfl)
  refine ⟨h.tree.addFrame hlt, h.serial.addFrame h.tree hlt hrunning, fun call hcall => ?_, ?_,
    h.writes, .inl ⟨c, hstacked.current, hstacked.lt.trans (Nat.lt_succ_self _), ?_,
      fun g hpos hg => ?_, ?_, ?_, hstacked.earlier⟩⟩
  · obtain ⟨hcallLt, hstarted⟩ := h.calls call hcall
    rw [hscopes _ hcallLt]
    refine ⟨hcallLt.trans (Nat.lt_succ_self _), fun scope hscope => ?_⟩
    rw [hphase]
    exact hstarted scope hscope
  · rw [hsurvivors]
    exact h.data
  · rw [hphase]
    exact hstacked.root
  · rw [hphase, hscopes c hstacked.lt]
    rcases Nat.lt_succ_iff_lt_or_eq.1 hg with hg | hg
    · exact hstacked.open_iff g hpos hg
    rw [hg, h.tree.beyond s.count (le_refl _)]
    constructor
    · intro hopen
      cases hopen
    · intro hmem
      have hle := (h.tree.mem_scopes hstacked.lt hmem).2
      exact absurd hstacked.lt (by omega)
  · rw [hscopes c hstacked.lt]
    exact hstacked.active
  · rw [hscopes c hstacked.lt]
    refine forall₂_imp_mem hstacked.savepoints fun g hg savepoint hsaves => ?_
    have hle := (h.tree.mem_scopes hstacked.lt hg).2
    obtain ⟨children, heq⟩ := frames_addFrame hlt
      (show g ≠ s.count from fun hcount => absurd hstacked.lt (by omega))
    exact hsaves.congr (by rw [heq]) (by rw [heq]) (houtside g)

/-- The turn of a mutation comes. -/
theorem Nested.start (h : s.Nested) {f : Nat} (hpos : 0 < f) (hlt : f < s.count)
    (hwaiting : (s.frames f).phase = .waiting) (hturn : s.hasTurn f = true) :
    (s.openScope f).Nested := by
  have hch : Changes s (s.openScope f) f
      { s.frames f with
        phase := .running, savepoint := s.nextSavepoint + 1, before := s.writes.checkpoint } :=
    ⟨rfl, rfl⟩
  have hsame := hch.sameTree hlt rfl rfl rfl
  have hfailed : ∀ g, ((s.openScope f).frames g).phase.failed = (s.frames g).phase.failed := by
    intro g
    by_cases hg : g = f
    · rw [hg, hch.self, hwaiting]
      rfl
    · rw [hch.other hg]
  obtain ⟨hsurvivors, houtside⟩ := survivors_of_sameTree hsame rfl hfailed
  obtain ⟨c, hstacked⟩ := h.exists_stacked hlt (by rw [hwaiting]; rfl)
  have hparent := hstacked.parent_eq h.tree h.serial hpos hlt hwaiting hturn
  have hscopes : ((s.openScope f).frames f).scopes = f :: (s.frames c).scopes := by
    rw [hsame.scopes, h.tree.scopes f hpos hlt, hparent]
  have hfresh : ∀ g ∈ (s.frames c).scopes, g ≠ f := by
    rintro g hg rfl
    have hopen := hstacked.isOpen h.tree hg
    rw [hwaiting] at hopen
    cases hopen
  refine ⟨h.tree.of_same hsame, ?_, h.started hch hsame rfl (by simp), ?_, h.writes,
    .inl ⟨f, rfl, hlt, ?_, fun g hg hglt => ?_, ?_, ?_, ?_⟩⟩
  · refine h.serial.changes hch rfl (by simp) (by simp) (fun hended => ?_) ?_ fun _ =>
      pairwise_of_hasTurn h.tree hpos hlt hturn
    · cases hended
    · rw [hwaiting]
      rfl
  · rw [hsurvivors]
    exact h.data
  · rw [hch.other (by omega)]
    exact hstacked.root
  · rw [hscopes, mem_cons]
    by_cases hne : g = f
    · rw [hne, hch.self]
      simp [ScopePhase.isOpen]
    · rw [hch.other hne, hstacked.open_iff g hg hglt]
      simp [hne]
  · rw [hscopes, length_cons, ← hstacked.active]
    rfl
  · rw [hscopes]
    refine .cons ⟨?_, ?_, ?_⟩ (forall₂_imp_mem hstacked.savepoints fun g hg savepoint hsaves => ?_)
    · rw [hch.self]
    · -- the scope is new: every call was made outside of it
      rw [houtside]
      show s.data = s.outside f
      rw [h.data, survivors_eq, outside]
      refine congrArg (map Prod.snd) (filter_congr fun call hcall => ?_)
      have hnot : f ∉ (s.frames call.1).scopes := fun hmem =>
        (h.calls call hcall).2 f hmem hwaiting
      simp [hnot]
    · rw [hch.self]
      exact congrArg WriteCollector.checkpoint h.writes
    · have hother := hch.other (hfresh g hg)
      exact hsaves.congr (by rw [hother]) (by rw [hother]) (houtside g)
  · refine pairwise_cons.2 ⟨fun earlier hearlier => ?_, hstacked.earlier⟩
    rcases mem_cons.1 hearlier with rfl | hearlier
    · exact prefix_rfl
    · exact (pairwise_cons.1 hstacked.earlier).1 earlier hearlier

/-- The current mutation uses the database. -/
theorem Nested.access (h : s.Nested) {c : Nat} (hstacked : s.Stacked c) (staging : Staging κ ε) :
    Nested
      { s with
        data := s.data ++ [staging]
        writes := s.writes.stage staging
        calls := s.calls ++ [(c, staging)] } := by
  have halive : s.alive c = true := by
    rw [alive, all_eq_true]
    intro scope hscope
    simp [(ScopePhase.of_isOpen (hstacked.isOpen h.tree hscope)).2.1]
  refine ⟨{ h.tree with }, { h.serial with },
    fun call hcall => ?_, ?_, ?_, .inl ⟨c, hstacked.current, hstacked.lt, hstacked.root,
      hstacked.open_iff, hstacked.active, ?_, ?_⟩⟩
  · rcases mem_append.1 hcall with hcall | hcall
    · exact h.calls call hcall
    rw [mem_singleton] at hcall
    subst hcall
    exact ⟨hstacked.lt, fun scope hscope =>
      (ScopePhase.of_isOpen (hstacked.isOpen h.tree hscope)).1⟩
  · show s.data ++ [staging] =
      ((s.calls ++ [(c, staging)]).filter fun call => s.alive call.1).map Prod.snd
    rw [filter_append, map_append, h.data, survivors_eq]
    simp [halive]
  · show s.writes.stage staging = _
    rw [h.writes, WriteCollector.ofCalls_append_singleton]
  · refine forall₂_imp_mem hstacked.savepoints fun g hg savepoint hsaves => ?_
    refine hsaves.congr rfl rfl ?_
    show ((s.calls ++ [(c, staging)]).filter fun call =>
      s.alive call.1 && decide (g ∉ (s.frames call.1).scopes)).map Prod.snd = s.outside g
    rw [filter_append, map_append, outside]
    simp [hg]
  · have hearlier := pairwise_cons.1 hstacked.earlier
    refine pairwise_cons.2 ⟨fun earlier hmem => ?_, hearlier.2⟩
    exact (hearlier.1 earlier hmem).trans (prefix_append _ _)

/-- The handler of a mutation settles. -/
theorem Nested.settle (h : s.Nested) {f : Nat} (hlt : f < s.count)
    (hrunning : (s.frames f).phase = .running) (outcome : ScopeOutcome) :
    Nested (s.setFrame f
      { s.frames f with phase := .draining outcome, awaited := (s.frames f).children.length }) := by
  have hch : Changes s
      (s.setFrame f
        { s.frames f with phase := .draining outcome, awaited := (s.frames f).children.length }) f
      { s.frames f with phase := .draining outcome, awaited := (s.frames f).children.length } :=
    ⟨rfl, rfl⟩
  have hsame := hch.sameTree hlt rfl rfl rfl
  obtain ⟨c, hstacked⟩ := h.exists_stacked hlt (by rw [hrunning]; rfl)
  have hopen : ∀ g, (((s.setFrame f { s.frames f with
      phase := .draining outcome, awaited := (s.frames f).children.length }).frames g).phase.isOpen =
      (s.frames g).phase.isOpen) ∧ ((s.setFrame f { s.frames f with
      phase := .draining outcome, awaited := (s.frames f).children.length }).frames g).phase.failed =
      (s.frames g).phase.failed := by
    intro g
    by_cases hg : g = f
    · rw [hg, hch.self, hrunning]
      exact ⟨rfl, rfl⟩
    · rw [hch.other hg]
      exact ⟨rfl, rfl⟩
  obtain ⟨hsurvivors, houtside⟩ := survivors_of_sameTree hsame rfl fun g => (hopen g).2
  refine ⟨h.tree.of_same hsame, ?_, h.started hch hsame rfl (by simp), ?_, h.writes,
    .inl ⟨c, hstacked.current, hstacked.lt, ?_, fun g hg hglt => ?_, ?_, ?_, hstacked.earlier⟩⟩
  · refine h.serial.changes hch rfl (by simp) (fun _ _ => rfl) (fun hended => ?_) ?_ fun hwaiting => ?_
    · cases hended
    · rw [hrunning]
      rfl
    · rw [hrunning] at hwaiting
      cases hwaiting
  · rw [hsurvivors]
    exact h.data
  · rw [(hopen 0).1]
    exact hstacked.root
  · rw [(hopen g).1, hsame.scopes]
    exact hstacked.open_iff g hg hglt
  · rw [hsame.scopes]
    exact hstacked.active
  · rw [hsame.scopes]
    refine forall₂_imp_mem hstacked.savepoints fun g _ savepoint hsaves => ?_
    by_cases hg : g = f
    · subst hg
      exact hsaves.congr (by rw [hch.self]) (by rw [hch.self]) (houtside g)
    · exact hsaves.congr (by rw [hch.other hg]) (by rw [hch.other hg]) (houtside g)

/-! ## Closing a scope -/

variable {outcome : ScopeOutcome}

section Close

variable {c : Nat} {savepoint : Savepoint κ ε} {rest : List (Savepoint κ ε)}

theorem closeScope_ok (hsavepoints : s.savepoints = savepoint :: rest)
    (hname : savepoint.name = (s.frames c).savepoint) :
    s.closeScope c .ok =
      leave { s with savepoints := rest, current := some (s.frames c).parent } c .ok := by
  simp [closeScope, release, hsavepoints, hname]

theorem closeScope_failed (hsavepoints : s.savepoints = savepoint :: rest)
    (hname : savepoint.name = (s.frames c).savepoint) (houtcome : outcome ≠ .ok) :
    s.closeScope c outcome =
      leave
        { s with
          savepoints := rest
          data := savepoint.data
          writes := s.writes.rollback (s.frames c).before
          current := some (s.frames c).parent } c outcome := by
  cases outcome with
  | ok => exact absurd rfl houtcome
  | err => simp [closeScope, rollbackTo, release, hsavepoints, hname]
  | threw => simp [closeScope, abort, rollbackTo, release, hsavepoints, hname]

variable {outcome : ScopeOutcome}

/-- What survives when a scope is closed. -/
theorem survivors_close (h : s.Nested) (hstacked : s.Stacked c) (hpos : 0 < c)
    (hch : Changes s t c { s.frames c with phase := .ended outcome }) (hcalls : t.calls = s.calls) :
    (t.survivors = if outcome = .ok then s.survivors else s.outside c) ∧
      ∀ g ∈ (s.frames (s.frames c).parent).scopes, t.outside g = s.outside g := by
  have hsame := hch.sameTree hstacked.lt rfl rfl rfl
  obtain ⟨-, hnot, -⟩ := ScopePhase.of_isOpen
    (hstacked.isOpen h.tree (h.tree.self_mem hpos hstacked.lt))
  by_cases hok : outcome = .ok
  · have hfailed : ∀ g, (t.frames g).phase.failed = (s.frames g).phase.failed := by
      intro g
      by_cases hg : g = c
      · rw [hg, hch.self, hnot, hok]
        rfl
      · rw [hch.other hg]
    obtain ⟨hsurvivors, houtside⟩ := survivors_of_sameTree hsame hcalls hfailed
    rw [if_pos hok]
    exact ⟨hsurvivors, fun g _ => houtside g⟩
  have hself : (t.frames c).phase.failed = true := by
    rw [hch.self]
    cases outcome <;> first | rfl | exact absurd rfl hok
  have halive : ∀ g, t.alive g = (s.alive g && decide (c ∉ (s.frames g).scopes)) := by
    intro g
    rw [alive, alive, hsame.scopes, Bool.eq_iff_iff, Bool.and_eq_true, all_eq_true,
      all_eq_true, decide_eq_true_eq]
    constructor
    · intro hall
      refine ⟨fun scope hscope => ?_, fun hmem => ?_⟩
      · by_cases hne : scope = c
        · rw [hne, hnot]
          rfl
        · rw [← hch.other hne]
          exact hall scope hscope
      · have hbad := hall c hmem
        rw [hself] at hbad
        cases hbad
    rintro ⟨hall, hmem⟩ scope hscope
    have hne : scope ≠ c := fun heq => hmem (heq ▸ hscope)
    rw [hch.other hne]
    exact hall scope hscope
  rw [if_neg hok]
  refine ⟨?_, fun g hg => ?_⟩
  · rw [survivors_eq, outside, hcalls]
    simp only [halive]
  refine outside_congr (s := s) hcalls (fun call hcall hout => ?_) fun call _ => hsame.scopes _
  have hout' : c ∉ (s.frames call.1).scopes := by
    intro hmem
    apply hout
    apply h.tree.scopes_subset (h.calls call hcall).1 hmem
    rw [h.tree.scopes c hpos hstacked.lt]
    exact mem_cons_of_mem _ hg
  rw [halive, decide_eq_true hout', Bool.and_true]

/-- **A scope is closed.** -/
theorem Nested.close (h : s.Nested) (hstacked : s.Stacked c) (hpos : 0 < c)
    (hchildren : ∀ q ∈ (s.frames c).children, (s.frames q).phase.isEnded = true)
    (hch : Changes s t c { s.frames c with phase := .ended outcome }) (hcalls : t.calls = s.calls)
    (hcurrent : t.current = some (s.frames c).parent) (hactive : t.active = s.active - 1)
    (hsavepoints : s.savepoints = savepoint :: t.savepoints)
    (hdata : t.data = if outcome = .ok then s.data else savepoint.data)
    (hwrites : t.writes = .ofCalls t.data) : t.Nested := by
  have hsame := hch.sameTree hstacked.lt rfl rfl rfl
  obtain ⟨hsurvivors, houtside⟩ := survivors_close h hstacked hpos hch hcalls
  have hscopes := h.tree.scopes c hpos hstacked.lt
  have hparent := h.tree.parent_lt c hpos hstacked.lt
  obtain ⟨hstarted, -, hnot⟩ := ScopePhase.of_isOpen
    (hstacked.isOpen h.tree (h.tree.self_mem hpos hstacked.lt))
  have hsaves := hstacked.savepoints
  rw [hscopes, hsavepoints, forall₂_cons] at hsaves
  obtain ⟨hown, hothers⟩ := hsaves
  have hearlier := hstacked.earlier
  rw [hsavepoints, map_cons] at hearlier
  have hinner : ∀ g ∈ (s.frames (s.frames c).parent).scopes, g ≠ c := by
    intro g hg heq
    have hle := (h.tree.mem_scopes (hparent.trans hstacked.lt) hg).2
    omega
  refine ⟨h.tree.of_same hsame, ?_, h.started hch hsame hcalls (by simp), ?_, hwrites,
    .inl ⟨(s.frames c).parent, hcurrent, ?_, ?_, fun g hg hglt => ?_, ?_, ?_, ?_⟩⟩
  · refine h.serial.changes hch rfl (by simp) (fun _ hdraining => ?_) (fun _ => hchildren) hnot
      fun hwaiting => absurd hwaiting hstarted
    cases hdraining
  · rw [hsurvivors, hdata]
    split
    · exact h.data
    · exact hown.data
  · rw [hsame.count]
    exact hparent.trans hstacked.lt
  · rw [hch.other (by omega)]
    exact hstacked.root
  · rw [hsame.count] at hglt
    rw [hsame.scopes]
    by_cases hne : g = c
    · subst hne
      rw [hch.self]
      constructor
      · intro hbad
        cases hbad
      · intro hmem
        exact absurd rfl (hinner g hmem)
    · rw [hch.other hne, hstacked.open_iff g hg hglt, hscopes, mem_cons]
      simp [hne]
  · rw [hactive, hstacked.active, hscopes, hsame.scopes, length_cons, Nat.add_sub_cancel]
  · rw [hsame.scopes]
    refine forall₂_imp_mem hothers fun g hg other hsavesOther => ?_
    have hother := hch.other (hinner g hg)
    exact hsavesOther.congr (by rw [hother]) (by rw [hother]) (houtside g hg)
  · obtain ⟨hfirst, hrest⟩ := pairwise_cons.1 hearlier
    rw [hdata]
    split
    · refine pairwise_cons.2 ⟨fun earlier hmem => ?_, (pairwise_cons.1 hrest).2⟩
      exact hfirst earlier (mem_cons_of_mem _ hmem)
    · exact hrest

end Close

/-- The scope of a mutation is closed once its handler has settled and its children have ended. -/
theorem Nested.finish (h : s.Nested) {f : Nat} (hpos : 0 < f)
    (hdraining : (s.frames f).phase = .draining outcome)
    (hchildren : ∀ q ∈ (s.frames f).children, (s.frames q).phase.isEnded = true) :
    (s.closeScope f outcome).Nested := by
  have hlt : f < s.count := by
    by_contra hge
    rw [h.tree.beyond f (by omega)] at hdraining
    cases hdraining
  obtain ⟨c, hstacked⟩ := h.exists_stacked hlt (by rw [hdraining]; rfl)
  have hc : f = c := hstacked.eq_current h.tree hlt (by rw [hdraining]; rfl)
    fun q hq => isOpen_of_isEnded (hchildren q hq)
  subst hc
  have hsaves := hstacked.savepoints
  rw [h.tree.scopes f hpos hlt] at hsaves
  cases hsavepoints : s.savepoints with
  | nil =>
    rw [hsavepoints] at hsaves
    cases hsaves
  | cons savepoint =>
    rw [hsavepoints, forall₂_cons] at hsaves
    obtain ⟨hown, -⟩ := hsaves
    by_cases hok : outcome = .ok
    · subst hok
      rw [closeScope_ok hsavepoints hown.name]
      exact h.close hstacked hpos hchildren ⟨rfl, rfl⟩ rfl rfl rfl hsavepoints rfl h.writes
    rw [closeScope_failed hsavepoints hown.name hok]
    refine h.close hstacked hpos hchildren ⟨rfl, rfl⟩ rfl rfl rfl hsavepoints
      (if_neg hok).symm ?_
    have hearlier := (pairwise_cons.1 hstacked.earlier).1 savepoint.data
      (by rw [hsavepoints]; exact mem_cons_self)
    show s.writes.rollback (s.frames f).before = .ofCalls savepoint.data
    rw [h.writes, hown.before, WriteCollector.rollback_checkpoint hearlier]

/-- Where the root has ended, everything has. -/
theorem Nested.all_ended (h : s.Nested) (hroot : ∀ q ∈ (s.frames 0).children,
    (s.frames q).phase.isEnded = true) {f : Nat} (hpos : 0 < f) (hlt : f < s.count) :
    (s.frames f).phase.isEnded = true := by
  induction f using Nat.strong_induction_on with
  | _ f ih =>
    have hparent := h.tree.parent_lt f hpos hlt
    have hmem := (h.tree.children (s.frames f).parent f).2 ⟨hpos, hlt, rfl⟩
    rcases Nat.eq_zero_or_pos (s.frames f).parent with hzero | hcaller
    · rw [hzero] at hmem
      exact hroot f hmem
    · exact h.serial.ended _ (ih _ hparent hcaller (hparent.trans hlt)) f hmem

theorem Nested.finishRoot (h : s.Nested) (hdraining : (s.frames 0).phase = .draining outcome)
    (hchildren : ∀ q ∈ (s.frames 0).children, (s.frames q).phase.isEnded = true) :
    Nested { s.setFrame 0 { s.frames 0 with phase := .ended outcome } with current := none } := by
  have hch : Changes s { s.setFrame 0 { s.frames 0 with phase := .ended outcome } with
      current := none } 0 { s.frames 0 with phase := .ended outcome } := ⟨rfl, rfl⟩
  have hsame := hch.sameTree h.tree.pos rfl rfl rfl
  obtain ⟨c, hstacked⟩ := h.exists_stacked h.tree.pos (by rw [hdraining]; rfl)
  have hc : 0 = c := hstacked.eq_current h.tree h.tree.pos (by rw [hdraining]; rfl)
    fun q hq => isOpen_of_isEnded (hchildren q hq)
  subst hc
  have hsaves := hstacked.savepoints
  rw [h.tree.root] at hsaves
  refine ⟨h.tree.of_same hsame, ?_, h.started hch hsame rfl (by simp), ?_, h.writes,
    .inr ⟨?_, fun f hf => ?_⟩⟩
  · refine h.serial.changes hch rfl (by simp) (fun _ hbad => ?_) (fun _ => hchildren) ?_
      fun hwaiting => ?_
    · cases hbad
    · rw [hdraining]
      rfl
    · rw [hdraining] at hwaiting
      cases hwaiting
  · have hsurvivors := survivors_congr (s := s) (t := { s.setFrame 0
      { s.frames 0 with phase := .ended outcome } with current := none }) rfl fun call hcall => ?_
    · rw [hsurvivors]
      exact h.data
    rw [alive, alive, hsame.scopes]
    refine Bool.eq_iff_iff.2 ?_
    rw [all_eq_true, all_eq_true]
    refine forall₂_congr fun scope hscope => ?_
    have hpos := (h.tree.mem_scopes (h.calls call hcall).1 hscope).1
    rw [hch.other (by omega)]
  · cases hsavepoints : s.savepoints with
    | nil => exact hsavepoints
    | cons =>
      rw [hsavepoints] at hsaves
      cases hsaves
  · rcases Nat.eq_zero_or_pos f with hzero | hpos
    · rw [hzero, hch.self]
      rfl
    · rw [hch.other (by omega)]
      exact h.all_ended hchildren hpos hf

/-! ## Every run -/

/-- Who may use the database is the current mutation. -/
theorem Nested.eq_of_mayAccess (h : s.Nested) {f c : Nat} (hstacked : s.Stacked c)
    (hlt : f < s.count) (hopen : (s.frames f).phase.isOpen = true) (hmay : s.mayAccess f = true) :
    f = c := by
  rw [mayAccess, Bool.or_eq_true, decide_eq_true_eq, decide_eq_true_eq] at hmay
  rcases hmay with hactive | hcurrent
  · have hnil : (s.frames c).scopes = [] := by
      rw [← length_eq_zero_iff, ← hstacked.active, hactive]
    have hf : f = 0 := by
      by_contra hne
      have hmem := (hstacked.open_iff f (by omega) hlt).1 hopen
      rw [hnil] at hmem
      cases hmem
    have hc : c = 0 := by
      by_contra hne
      have hmem := h.tree.self_mem (show 0 < c by omega) hstacked.lt
      rw [hnil] at hmem
      cases hmem
    rw [hf, hc]
  · rw [hstacked.current] at hcurrent
    exact (Option.some.inj hcurrent).symm

theorem nested_start : ({} : MutationScopes κ ε).Nested := by
  have hother : ∀ f, 0 < f → ({} : MutationScopes κ ε).frames f = {} := fun f hf =>
    if_neg (by omega)
  have hchildren : ∀ f, (({} : MutationScopes κ ε).frames f).children = [] := by
    intro f
    rcases Nat.eq_zero_or_pos f with rfl | hpos
    · rfl
    · rw [hother f hpos]
  have hnone : ∀ f, 0 < f → f < ({} : MutationScopes κ ε).count → False := by
    intro f hpos hlt
    have hone : f < 1 := hlt
    omega
  refine ⟨⟨Nat.one_pos, rfl, fun f hpos hlt => (hnone f hpos hlt).elim,
    fun f hpos hlt => (hnone f hpos hlt).elim, fun p c => ?_, fun p => ?_, fun f hle => ?_⟩,
    ⟨fun f _ => hchildren f, fun f outcome hf => ?_, fun f _ c hc => ?_, fun p => ?_⟩, by simp, rfl,
    rfl, .inl ⟨0, rfl, Nat.one_pos, rfl, fun f hpos hlt => (hnone f hpos hlt).elim, rfl, .nil, ?_⟩⟩
  · rw [hchildren]
    exact ⟨fun hc => absurd hc not_mem_nil, fun hc => (hnone c hc.1 hc.2.1).elim⟩
  · rw [hchildren]
    exact nodup_nil
  · exact hother f hle
  · rcases Nat.eq_zero_or_pos f with rfl | hpos
    · cases hf
    · rw [hother f hpos] at hf
      cases hf
  · rw [hchildren] at hc
    cases hc
  · rw [hchildren]
    exact Pairwise.nil
  · exact pairwise_singleton _ _

/-- **One event keeps the invariant.** -/
theorem Nested.step (h : s.Nested) {event : ScopeEvent κ ε} (horderly : s.Orderly event)
    (hstep : s.step event = some t) : t.Nested := by
  cases event with
  | call =>
    simp only [MutationScopes.step, Option.ite_none_right_eq_some, Option.some.injEq] at hstep
    obtain ⟨⟨hlt, -⟩, rfl⟩ := hstep
    exact h.call hlt horderly
  | start =>
    simp only [MutationScopes.step, Option.ite_none_right_eq_some, Option.some.injEq] at hstep
    obtain ⟨⟨hpos, hlt, hwaiting, hturn⟩, rfl⟩ := hstep
    exact h.start hpos hlt hwaiting hturn
  | access f staging checked =>
    simp only [MutationScopes.step, Option.ite_none_right_eq_some] at hstep
    obtain ⟨⟨hlt, hstarted⟩, hstep⟩ := hstep
    obtain ⟨hnot, hunchecked⟩ := horderly
    obtain ⟨c, hstacked⟩ := h.exists_stacked hlt hnot
    have hopen : (s.frames f).phase.isOpen = true := by
      rcases ScopePhase.cases (s.frames f).phase with hw | ho | he
      · exact absurd hw hstarted
      · exact ho
      · rw [hnot] at he
        cases he
    split at hstep
    · cases hstep
      exact h
    rename_i haccess
    cases hstep
    have hf : f = c := by
      cases checked with
      | true =>
        apply h.eq_of_mayAccess hstacked hlt hopen
        simpa using haccess
      | false =>
        have hcurrent := hunchecked rfl
        rw [hstacked.current] at hcurrent
        exact (Option.some.inj hcurrent).symm
    subst hf
    exact h.access hstacked staging
  | settle f outcome =>
    simp only [MutationScopes.step, Option.ite_none_right_eq_some, Option.some.injEq] at hstep
    obtain ⟨⟨hlt, hrunning⟩, rfl⟩ := hstep
    exact h.settle hlt hrunning outcome
  | finish f =>
    simp only [MutationScopes.step] at hstep
    split at hstep
    · rename_i outcome hdraining
      rw [h.serial.awaited f outcome hdraining, take_length] at hstep
      simp only [Option.ite_none_right_eq_some, all_eq_true] at hstep
      obtain ⟨hchildren, hstep⟩ := hstep
      split at hstep
      · rename_i hroot
        subst hroot
        cases hstep
        exact h.finishRoot hdraining hchildren
      · cases hstep
        exact h.finish (by omega) hdraining hchildren
    · cases hstep

theorem Stacked.scopeStack_eq {c : Nat} (h : s.Stacked c) (htree : s.Tree) :
    s.scopeStack = (s.frames c).scopes := by
  have hranked : s.scopeStack.Pairwise fun a b => b < a := by
    rw [scopeStack, pairwise_reverse]
    exact (pairwise_lt_range).filter _
  have hdescending := htree.descending h.lt
  have hmem : ∀ f, f ∈ s.scopeStack ↔ f ∈ (s.frames c).scopes := by
    intro f
    simp only [scopeStack, mem_reverse, mem_filter, mem_range, Bool.and_eq_true,
      decide_eq_true_eq]
    constructor
    · rintro ⟨hlt, hpos, hopen⟩
      exact (h.open_iff f hpos hlt).1 hopen
    · intro hf
      obtain ⟨hpos, hle⟩ := htree.mem_scopes h.lt hf
      exact ⟨hle.trans_lt h.lt, hpos, h.isOpen htree hf⟩
  have hperm : s.scopeStack.Perm (s.frames c).scopes :=
    (perm_ext_iff_of_nodup (hranked.imp fun hab => hab.ne')
      (hdescending.imp fun hab => hab.ne')).2 hmem
  exact hperm.eq_of_pairwise (fun a b _ _ hab hba => absurd (hab.trans hba) (lt_irrefl _)) hranked
    hdescending

theorem Nested.inStep (h : s.Nested) : s.InStep := by
  refine ⟨?_, h.data, by rw [← h.data]; exact h.writes⟩
  rcases h.stacked with ⟨c, hstacked⟩ | hover
  · rw [hstacked.scopeStack_eq h.tree]
    have hsaves := hstacked.savepoints
    generalize (s.frames c).scopes = scopes at hsaves
    generalize s.savepoints = savepoints at hsaves
    induction hsaves with
    | nil => rfl
    | cons hfirst _ ih => rw [map_cons, map_cons, ih, hfirst.name]
  have hnil : s.scopeStack = [] := by
    rw [scopeStack, reverse_eq_nil_iff, filter_eq_nil_iff]
    intro f hf
    rw [mem_range] at hf
    simp [isOpen_of_isEnded (hover.ended f hf)]
  rw [hover.savepoints, hnil]
  rfl

/-- **Nested scopes are in step.**  In every run in which no mutation calls another after its
handler has settled or uses the database after its scope was closed, and no ancestor changes
credentials under an open scope, the savepoints are those of the open scopes, and the data and the
collector are those of the calls that survive. -/
theorem scopes_in_step (s : MutationScopes κ ε) (hreach : Run.Reachable step Orderly {} s) :
    s.InStep := by
  have hnested : s.Nested := hreach.induct nested_start
    fun _ _ _ _ h horderly hstep => h.step horderly hstep
  exact hnested.inStep

/-! ## What a mutation may not do -/

instance (s : MutationScopes κ ε) (event : ScopeEvent κ ε) : Decidable (s.Orderly event) := by
  cases event <;> unfold Orderly <;> infer_instance

/-- A call that stages one key. -/
def keyed (key : String) : Staging String Unit := { keys := [key] }

/-- The root calls a mutation, which writes and fails; afterwards the root writes. -/
def failingRun : List (ScopeEvent String Unit) :=
  [.call 0, .start 1, .access 1 (keyed "inner") true, .settle 1 .err, .finish 1,
    .access 0 (keyed "outer") true]

/-- What the failed mutation wrote is gone, and what the root wrote is there. -/
theorem scopes_in_step_failing :
    ∃ s : MutationScopes String Unit, Run.run step {} failingRun = some s ∧ s.InStep ∧
      s.data = [keyed "outer"] := by
  have hrun : (Run.run step ({} : MutationScopes String Unit) failingRun).map (fun s => s.data) =
      some [keyed "outer"] := by decide +kernel
  rw [Option.map_eq_some_iff] at hrun
  obtain ⟨s, hs, hdata⟩ := hrun
  refine ⟨s, hs, scopes_in_step s (Run.Reachable.refl.run ?_ hs), hdata⟩
  have hchecks : Run.checks step (fun s event => decide (s.Orderly event))
      ({} : MutationScopes String Unit) failingRun = true := by decide +kernel
  exact Run.guarded_of_checks (fun s event hcheck => of_decide_eq_true hcheck) hchecks

/-- A mutation returns an `Err` and its scope is closed; a continuation nobody awaited writes
afterwards, when no scope is open. -/
def lateRun : List (ScopeEvent String Unit) :=
  [.call 0, .start 1, .settle 1 .err, .finish 1, .access 1 (keyed "late") true]

/-- **A write of a failed mutation survives**: no scope is open, the only call was made in a scope
that ended in an `Err`, and it is in the data and in the collector. -/
theorem late_write_survives :
    ∃ s : MutationScopes String Unit, Run.run step {} lateRun = some s ∧ s.scopeStack = [] ∧
      s.survivors = [] ∧ s.data = [keyed "late"] ∧ s.writes.keys.elements = ["late"] := by
  have hrun : (Run.run step ({} : MutationScopes String Unit) lateRun).map
      (fun s => (s.scopeStack, s.survivors, s.data, s.writes.keys.elements)) =
      some ([], [], [keyed "late"], ["late"]) := by decide +kernel
  rw [Option.map_eq_some_iff] at hrun
  obtain ⟨s, hs, hfields⟩ := hrun
  simp only [Prod.mk.injEq] at hfields
  exact ⟨s, hs, hfields⟩

/-- The root revokes a credential while a mutation it has called is open, which then fails. -/
def revokingRun : List (ScopeEvent String Unit) :=
  [.call 0, .start 1, .access 0 { credentialInvalidations := ["token"] } false, .settle 1 .err,
    .finish 1]

/-- The revocation is lost: operations on credentials are not refused while a scope is open. -/
theorem revocation_is_lost :
    ∃ s : MutationScopes String Unit, Run.run step {} revokingRun = some s ∧ s.scopeStack = [] ∧
      s.survivors = [{ credentialInvalidations := ["token"] }] ∧ s.data = [] ∧
      s.writes.credentialInvalidations = [] := by
  have hrun : (Run.run step ({} : MutationScopes String Unit) revokingRun).map
      (fun s => (s.scopeStack, s.survivors, s.data, s.writes.credentialInvalidations)) =
      some ([], [{ credentialInvalidations := ["token"] }], [], []) := by decide +kernel
  rw [Option.map_eq_some_iff] at hrun
  obtain ⟨s, hs, hfields⟩ := hrun
  simp only [Prod.mk.injEq] at hfields
  exact ⟨s, hs, hfields⟩

end MutationScopes

end AckerDB
