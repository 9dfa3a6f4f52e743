import StrataStorage.Commit.Moves
import StrataStorage.Wal.SyncChain

/-!
# Pipelined write groups

The runtime with any number of write groups between their two phases: a solo
commit, phase 1 of a group, a step of a group's sync and phase 2 of a group follow
each other in any order (`step`).

What holds along every run (`PipelineInv`): the history of the commits
(`HistoryInv`), that nothing at or above a fact of the gate is published, and that
a commit that was answered is published and, under `Always`, below the durable
watermark. If no apply stays out and only redeemable tickets are redeemed, every
published commit is applied to its branch and every answered one is synced
(`carefulPipeline_safe`).
-/

namespace Strata

open List Function Option

namespace Pipeline

open Stateful Durable
open WalSync (GroupSync SyncEvent SyncState WatermarkInv Redeemable)
open Relation (ReflTransGen)

/-- A group between its phases; `applyFatal` is the verdict of its parallel
applies. -/
structure Flight where
  inFlight : DurableGroupInFlight
  applyFatal : Bool

/-- Phase 2 finds the group fit to be published. -/
def Flight.Live (flight : Flight) : Prop :=
  flight.inFlight.fatal = false ∧ flight.applyFatal = false

instance (flight : Flight) : Decidable flight.Live := inferInstanceAs (Decidable (_ ∧ _))

structure PipelineState where
  runtime : DurableState
  sync : Nat → GroupSync
  token : Option Nat
  flights : Nat → Option Flight
  /-- The responses so far. -/
  responses : List (Except CommitRuntimeError Commit)

namespace PipelineState

variable (s : PipelineState)

/-- The log, and where each group stands with its sync. -/
def syncState : SyncState := ⟨s.runtime.wal, s.sync, s.token⟩

def withSync (t : SyncState) : PipelineState :=
  { s with runtime := { s.runtime with wal := t.wal }, sync := t.groups, token := t.token }

/-- How the sync of a group ended, once it has; a group without a ticket has
none to wait for. -/
def outcome (group : Nat) (flight : Flight) : Option (Option Bool) :=
  match flight.inFlight.ticket with
  | none => some none
  | some _ =>
    match s.sync group with
    | .settled _ outcome => some outcome
    | _ => none

/-- A group leaves with the responses of its members. -/
def close (group : Nat) (results : List (Except CommitRuntimeError Commit) × DurableState) :
    PipelineState :=
  { s with
    runtime := results.2
    sync := Function.update s.sync group .closed
    flights := Function.update s.flights group none
    responses := s.responses ++ results.1 }

/-- A group takes off with its ticket. -/
def launch (group : Nat) (led : Bool × DurableGroupInFlight × DurableState) : PipelineState :=
  { s with
    runtime := led.2.2
    sync := Function.update s.sync group (led.2.1.ticket.elim .idle .waiting)
    flights := Function.update s.flights group (some ⟨led.2.1, led.1⟩) }

end PipelineState

open PipelineState (launch)

inductive PipelineEvent where
  | solo (batch : CommitBatch) (calls : CommitCalls)
  | lead (group : Nat) (members : List MemberRequest) (capture : FlushCalls)
      (rank : BranchId → Nat) (outcomes : BranchId → ApplyOutcome)
  | sync (event : SyncEvent)
  | finish (group : Nat) (objectMissing : Bool) (applied : BranchId → Bool)

/-- One section under the runtime lock, or one step of a sync; `none` if the event
is not possible. -/
def step (config : DurableConfig) (s : PipelineState) : PipelineEvent → Option PipelineState
  | .solo batch calls =>
    let (result, runtime) := executeDurableCommit config batch calls s.runtime
    some { s with runtime := runtime, responses := s.responses ++ [result] }
  | .lead group members capture rank outcomes =>
    match s.flights group, s.sync group with
    | none, .idle =>
      some (s.launch group (Durable.lead config members capture rank outcomes s.runtime))
    | _, _ => none
  | .sync event =>
    if event.OffLock then (WalSync.step config.wal s.syncState event).map s.withSync else none
  | .finish group objectMissing applied => do
    let flight ← s.flights group
    let outcome ← s.outcome group flight
    some (s.close group (groupFinish flight.inFlight outcome flight.applyFatal objectMissing applied s.runtime))

/-! ## What a step does -/

variable {config : DurableConfig} {init : BranchId → Option BranchLocalState}
  {s s' : PipelineState} {event : PipelineEvent} {group : Nat} {flight : Flight}
  {batch : CommitBatch} {outcomes : BranchId → ApplyOutcome} {wal : WalState}
  {members : List MemberRequest} {applied : BranchId → Bool} {c : Commit} {rt rt' : DurableState}
  {rank : BranchId → Nat} {capture : FlushCalls} {objectMissing : Bool}

/-- Phase 2 leaves the runtime as it is, or redeems the ticket and publishes the
group, or goes fatal with a fact. -/
inductive Finishes (s : DurableState) (flight : Flight)
    (sync : Option Bool) : List (Except CommitRuntimeError Commit) → DurableState → Prop
  | refused (h : flight.inFlight.admitted = false) : Finishes s flight sync flight.inFlight.results s
  | fatal {results : List (Except CommitRuntimeError Commit)} (h : ∀ c, .ok c ∉ results) :
      Finishes s flight sync results s
  | published {wal : WalState} {last : CommitStamp}
      (hlive : flight.Live) (hwal : Redeems flight.inFlight.ticket sync s.wal wal)
      (hlast : flight.inFlight.group.lastStamp = some last)
      (hgate : ∀ fact ∈ s.unresolved, last.commitVersion < fact.firstCommitVersion) :
      Finishes s flight sync flight.inFlight.results
        { s with wal := wal, visible := max s.visible last.commitVersion }
  | empty {wal : WalState} (hlive : flight.Live) (hwal : Redeems flight.inFlight.ticket sync s.wal wal)
      (hlast : flight.inFlight.group.lastStamp = none) :
      Finishes s flight sync flight.inFlight.results { s with wal := wal }
  | withheld {results : List (Except CommitRuntimeError Commit)} {wal : WalState} (hlive : flight.Live)
      (hwal : Redeems flight.inFlight.ticket sync s.wal wal) (h : ∀ c, .ok c ∉ results) :
      Finishes s flight sync results { s with wal := wal }
  | failed {results : List (Except CommitRuntimeError Commit)}
      {ticket : WalService.WalGroupSyncTicket} {lost : Bool} (hlive : flight.Live)
      (hticket : flight.inFlight.ticket = some ticket) (hsync : sync = some false)
      (hbehind : s.wal.durableSeq < ticket.capturedSeq) (h : ∀ c, .ok c ∉ results) :
      Finishes s flight sync results (recordGroupFailure flight.inFlight.group
        "write group covering fsync failed after members applied"
        { s with wal := { s.wal with activeObjectLost := lost } })

theorem ok_notMem_fatalResponse (results : List (Except CommitRuntimeError Commit)) (c : Commit) :
    .ok c ∉ results.map fatalResponse := by
  intro h
  obtain ⟨result, -, heq⟩ := mem_map.1 h
  cases result <;> cases heq

theorem groupFinish_finishes {s : DurableState}
    (hdeferred : flight.inFlight.fatal = false → flight.inFlight.deferred = [])
    (sync : Option Bool) (objectMissing : Bool) (applied : BranchId → Bool) :
    Finishes s flight sync (groupFinish flight.inFlight sync flight.applyFatal objectMissing applied s).1
      (groupFinish flight.inFlight sync flight.applyFatal objectMissing applied s).2 := by
  unfold groupFinish
  split
  · rename_i hadmitted
    exact .refused (by simpa using hadmitted)
  · split_ifs with hfatal
    · exact .fatal (ok_notMem_fatalResponse _)
    · have hlive : flight.Live := by
        rwa [Bool.or_eq_true, not_or, Bool.not_eq_true, Bool.not_eq_true] at hfatal
      have hspec := (settleGroup_spec (hdeferred hlive.1) : Spec _
        (settleGroup flight.inFlight sync objectMissing applied) _ _) s rfl
      generalize settleGroup flight.inFlight sync objectMissing applied s = run at hspec
      obtain ⟨result, t⟩ := run
      cases result with
      | ok _ =>
        obtain ⟨wal, hwal, ⟨hlast, rfl⟩ | ⟨last, hlast, hgate, rfl⟩⟩ := hspec
        · exact .empty hlive hwal hlast
        · exact .published hlive hwal hlast hgate
      | error _ =>
        obtain ⟨wal, hwal, rfl⟩ | ⟨ticket, lost, hticket, hsync, hbehind, rfl⟩ := hspec
        · exact .withheld hlive hwal (ok_notMem_fatalResponse _)
        · exact .failed hlive hticket hsync hbehind (ok_notMem_fatalResponse _)

/-! ## The invariant -/

/-- The history, the watermark and the visible version only go forward, and a fact
stays. -/
structure Advances (s t : DurableState) : Prop where
  commits : ∀ c ∈ s.commits, c ∈ t.commits
  allocated : s.lastAllocated ≤ t.lastAllocated
  visible : s.visible ≤ t.visible
  appendSeq : s.wal.appendSeq ≤ t.wal.appendSeq
  durableSeq : s.wal.durableSeq ≤ t.wal.durableSeq
  persists : ∀ fact ∈ s.unresolved, t.unresolved = some fact

theorem Advances.refl (s : DurableState) : Advances s s :=
  ⟨fun _ hc => hc, le_rfl, le_rfl, le_rfl, le_rfl, fun _ hfact => hfact⟩

theorem Advances.of_extends {s t : DurableState} (h : Extends s t)
    (hpersists : ∀ fact ∈ s.unresolved, t.unresolved = some fact) : Advances s t :=
  ⟨h.commits.subset, h.allocated, h.visible.ge, h.appendSeq, h.durableSeq, hpersists⟩

/-- A group in flight. Once something at or above its first version is published,
the watermark has reached its ticket. -/
structure FlightOk (config : DurableConfig) (s : DurableState) (sync : GroupSync)
    (flight : Flight) : Prop where
  ticket : sync.ticket = flight.inFlight.ticket
  range : ∃ start, GroupRange start flight.inFlight.group s
  results : ∀ c, .ok c ∈ flight.inFlight.results → c ∈ s.commits ∧
    InRange flight.inFlight.group c ∧ ∀ t ∈ flight.inFlight.ticket, c.seq ≤ t.capturedSeq
  deferred : flight.inFlight.fatal = false → flight.inFlight.deferred = []
  refused : flight.inFlight.admitted = false → ∀ c, .ok c ∉ flight.inFlight.results
  always : flight.inFlight.ticket ≠ none → config.wal.durabilityPolicy = .always
  captured : config.wal.durabilityPolicy = .always → flight.inFlight.fatal = false →
    flight.inFlight.group.lastStamp ≠ none → flight.inFlight.ticket ≠ none
  covered : ∀ t ∈ flight.inFlight.ticket, ∀ first ∈ flight.inFlight.group.firstVersion,
    first ≤ s.visible → t.capturedSeq ≤ s.wal.durableSeq

structure PipelineInv (config : DurableConfig) (init : BranchId → Option BranchLocalState)
    (s : PipelineState) : Prop where
  history : HistoryInv init [] s.runtime
  watermark : ∀ group, WatermarkInv s.runtime.wal (s.sync group)
  gate : ∀ fact ∈ s.runtime.unresolved, s.runtime.visible < fact.firstCommitVersion
  flight : ∀ group flight, s.flights group = some flight → FlightOk config s.runtime (s.sync group) flight
  /-- A ticket reaches at least as far as those of groups that start below its end. -/
  order : ∀ group flight group' flight', s.flights group = some flight →
    s.flights group' = some flight' → ∀ t ∈ flight.inFlight.ticket,
    ∀ t' ∈ flight'.inFlight.ticket, ∀ first ∈ flight.inFlight.group.firstVersion,
    ∀ last ∈ flight'.inFlight.group.lastStamp, first ≤ last.commitVersion → t.capturedSeq ≤ t'.capturedSeq
  responses : ∀ c, .ok c ∈ s.responses → c ∈ s.runtime.commits ∧ c.version ≤ s.runtime.visible ∧
    (config.wal.durabilityPolicy = .always → c.seq ≤ s.runtime.wal.durableSeq)

/-- What was answered stays so. -/
theorem PipelineInv.responses_advance (hi : PipelineInv config init s)
    (h : Advances s.runtime rt) (hc : .ok c ∈ s.responses) :
    c ∈ rt.commits ∧ c.version ≤ rt.visible ∧
      (config.wal.durabilityPolicy = .always → c.seq ≤ rt.wal.durableSeq) := by
  obtain ⟨hmem, hvisible, hseq⟩ := hi.responses c hc
  exact ⟨h.commits c hmem, hvisible.trans h.visible, fun halways => (hseq halways).trans h.durableSeq⟩

theorem FlightOk.advance {sync sync' : GroupSync} (h : FlightOk config rt sync flight)
    (hadvances : Advances rt rt') (hticket : sync'.ticket = sync.ticket)
    (hcovered : ∀ t ∈ flight.inFlight.ticket, ∀ first ∈ flight.inFlight.group.firstVersion,
      first ≤ rt'.visible → first ≤ rt.visible ∨ t.capturedSeq ≤ rt'.wal.durableSeq) :
    FlightOk config rt' sync' flight :=
  { h with
    ticket := hticket.trans h.ticket
    range := h.range.imp fun _ hrange => hrange.mono hadvances.allocated
    results := fun c hc => (h.results c hc).imp_left (hadvances.commits c)
    covered := fun t ht first hfirst hle => by
      rcases hcovered t ht first hfirst hle with hle | hle
      · exact (h.covered t ht first hfirst hle).trans hadvances.durableSeq
      · exact hle }

/-- The append of a logged commit. -/
theorem logs_wal {participation : WalAppendDurability} {calls : CommitCalls}
    {current : CommitVersion} (h : Logs config participation calls batch current rt c rt') :
    rt.wal.appendSeq ≤ rt'.wal.appendSeq ∧ rt.wal.durableSeq ≤ rt'.wal.durableSeq ∧
      (participation = .policyDriven → config.wal.durabilityPolicy = .always →
        rt'.wal.appendSeq ≤ rt'.wal.durableSeq) := by
  obtain ⟨append, happend⟩ := h.appended
  obtain ⟨⟨frame, ⟨-, hseq, hdurable⟩, -⟩, hforced, hcovers⟩ := append_accepted happend
  refine ⟨by omega, hdurable, fun hsolo halways => hcovers ?_⟩
  rw [hforced]
  exact decide_eq_true ⟨hsolo, halways⟩

/-- What a solo commit leaves. -/
structure SoloInv (config : DurableConfig) (init : BranchId → Option BranchLocalState)
    (s t : DurableState) : Prop where
  history : HistoryInv init [] t
  advances : Advances s t
  gate : ∀ fact ∈ t.unresolved, t.visible < fact.firstCommitVersion
  synced : t.visible = s.visible ∨ (config.wal.durabilityPolicy = .always → t.wal.appendSeq ≤ t.wal.durableSeq)

theorem executeDurableCommit_inv {s : DurableState} (h : HistoryInv init [] s)
    (hgate : ∀ fact ∈ s.unresolved, s.visible < fact.firstCommitVersion) {calls : CommitCalls} :
    Spec (· = s) (executeDurableCommit config batch calls)
      (fun c t => SoloInv config init s t ∧ c ∈ t.commits ∧ c.version ≤ t.visible ∧
        (config.wal.durabilityPolicy = .always → c.seq ≤ t.wal.durableSeq))
      (SoloInv config init s) := by
  refine (executeDurableCommit_spec.weaken (fun _ h => h) fun c t ht => ?_).loosen fun t ht => ?_
  · obtain ⟨logged, applied, hlogs, happlies, rfl⟩ := ht
    obtain ⟨hseq, hdurable, hsynced⟩ := logs_wal hlogs
    have hlogged := h.logs hlogs rfl
    have hmem : c ∈ logged.commits := hlogs.mem_commits.2 (.inr rfl)
    have hpending : onBranch c.branchId [c] = [c] := by simp [onBranch]
    have happlied := hlogged.applies hmem happlies hpending
    have hoff : offBranch c.branchId [c] = [] := by simp [offBranch]
    rw [nil_append, hoff] at happlied
    obtain ⟨branch, branch', -, -, rfl⟩ := happlies
    have hopen : logged.unresolved = none := hlogs.unresolved.trans hlogs.admitted.gate
    refine ⟨⟨happlied.move (.refl _) le_rfl hlogs.lastAllocated.ge happlied.frontier_le,
      ⟨fun a ha => ?_, ?_, ?_, hseq, hdurable, ?_⟩, ?_, .inr (hsynced rfl)⟩, hmem, le_rfl,
      fun halways => hlogs.seq.le.trans (hsynced rfl halways)⟩
    · exact hlogs.mem_commits.2 (.inl ha)
    · exact hlogs.allocated.le.trans hlogs.lastAllocated.ge
    · exact h.visible_le.trans hlogs.allocated.le
    · simp [hlogs.admitted.gate]
    · show ∀ fact ∈ logged.unresolved, _
      simp [hopen]
  · rcases ht with hrefuses | ⟨c, logged, hlogs, hblocks⟩
    · have hextends := (Extends.refl s).refuses hrefuses
      have hunresolved : t.unresolved = s.unresolved := by rw [hrefuses.state]
      exact
        { history := h.refuses hrefuses
          advances := .of_extends hextends fun fact hfact => hunresolved.trans hfact
          gate := by
            rw [hunresolved, hextends.visible]
            exact hgate
          synced := .inl hextends.visible }
    · have hextends := ((Extends.refl s).logs hlogs).blocks hblocks
      have hopen : logged.unresolved = none := hlogs.unresolved.trans hlogs.admitted.gate
      have hblocked := (h.logs hlogs rfl).blocks hblocks
      have hvisible : s.visible < c.version := (le_max_left _ _).trans_lt hlogs.above
      obtain ⟨fact, hfirst, rfl⟩ := hblocks
      rw [hopen, getD_none] at hblocked hextends ⊢
      exact
        { history := by
            refine hblocked.fails (fun a ha => .inr ?_) (by simp)
            obtain rfl := mem_singleton.1 ha
            exact ⟨fact, rfl, hfirst.le⟩
          advances := .of_extends hextends (by simp [hlogs.admitted.gate])
          gate := by
            rintro _ ⟨rfl⟩
            rw [hfirst, hextends.visible]
            exact hvisible
          synced := .inl hextends.visible }

namespace PipelineInv

theorem solo (hi : PipelineInv config init s) {calls : CommitCalls}
    (h : step config s (.solo batch calls) = some s') : PipelineInv config init s' ∧ Advances s.runtime s'.runtime := by
  have hspec := (executeDurableCommit_inv hi.history hi.gate :
    Spec _ (executeDurableCommit config batch calls) _ _) s.runtime rfl
  simp only [step] at h
  generalize executeDurableCommit config batch calls s.runtime = run at h hspec
  obtain ⟨result, runtime⟩ := run
  have hsolo : SoloInv config init s.runtime runtime ∧ ∀ c, result = .ok c →
      c ∈ runtime.commits ∧ c.version ≤ runtime.visible ∧
        (config.wal.durabilityPolicy = .always → c.seq ≤ runtime.wal.durableSeq) := by
    cases result with
    | ok c => exact ⟨hspec.1, fun _ h => by cases h; exact hspec.2⟩
    | error _ => exact ⟨hspec, by simp⟩
  obtain ⟨hsolo, hresult⟩ := hsolo
  have hadvances := hsolo.advances
  cases h
  refine ⟨?_, hadvances⟩
  exact
    { hsolo with
      watermark := fun g => (hi.watermark g).mono hadvances.appendSeq hadvances.durableSeq
      flight := fun g flight hflight => by
        have hok := hi.flight g flight hflight
        refine hok.advance hadvances rfl fun t ht first hfirst hle => ?_
        rcases hsolo.synced with hvisible | hsynced
        · exact .inl (hvisible ▸ hle)
        · have halways := hok.always (by rw [ht]; nofun)
          have hcaptured : t.capturedSeq ≤ s.runtime.wal.appendSeq :=
            (hi.watermark g).captured_le (hok.ticket.trans ht)
          exact .inr (hcaptured.trans (hadvances.appendSeq.trans (hsynced halways)))
      order := hi.order
      responses := fun c hc => by
        rcases mem_append.1 hc with hc | hc
        · exact hi.responses_advance hadvances hc
        · exact hresult c (mem_singleton.1 hc).symm }

theorem sync (hi : PipelineInv config init s) {event : SyncEvent}
    (h : step config s (.sync event) = some s') : PipelineInv config init s' ∧ Advances s.runtime s'.runtime := by
  simp only [step] at h
  split at h
  · rename_i hoff
    obtain ⟨t, ht, rfl⟩ := map_eq_some_iff.1 h
    have hkeeps := WalSync.step_offLock ht hoff
    have hadvances : Advances s.runtime (s.withSync t).runtime :=
      ⟨fun _ hc => hc, le_rfl, le_rfl, hkeeps.log.2.1.ge, hkeeps.log.2.2, fun _ hfact => hfact⟩
    refine ⟨?_, hadvances⟩
    exact
      { hi with
        history := hi.history.move ⟨hkeeps.log.1 ▸ prefix_rfl, hkeeps.log.2.1.ge⟩ le_rfl
          hi.history.visible_le hi.history.frontier_le
        watermark := fun g => hkeeps.watermark g (hi.watermark g)
        flight := fun g flight hflight => (hi.flight g flight hflight).advance hadvances
          (hkeeps.ticket g) fun _ _ _ _ hle => .inl hle
        responses := fun _ hc => hi.responses_advance hadvances hc }
  · cases h

/-- The flight of a group that takes off. -/
theorem flightOk_lead {start rt : DurableState} {fl : DurableGroupInFlight}
    (h : LeadInv config init start fl rt) (hstart : start.visible ≤ start.lastAllocated) (applyFatal : Bool) :
    FlightOk config rt (fl.ticket.elim .idle .waiting) ⟨fl, applyFatal⟩ where
  ticket := by cases fl.ticket <;> rfl
  range := ⟨start, h.flight.range⟩
  results := fun c hc => by
    obtain ⟨hmem, hrange⟩ := h.flight.results c hc
    refine ⟨hmem, hrange, fun t ht => ?_⟩
    obtain ⟨⟨-, hcaptured⟩, -⟩ := h.flight.ticket t ht
    rw [hcaptured]
    exact (h.history.commit c hmem).2.2.1
  deferred := h.deferred
  refused := h.refused
  always := fun hticket => by
    cases ht : fl.ticket with
    | none => exact absurd ht hticket
    | some t => exact (h.flight.ticket t ht).2.1
  captured := h.flight.captured
  covered := fun t ht first hfirst hle => by
    have habove := (h.flight.range.first_le first hfirst).1
    rw [h.extends_start.visible] at hle
    exact absurd (hle.trans hstart) (not_le.2 habove)

theorem lead (hi : PipelineInv config init s)
    (h : step config s (.lead group members capture rank outcomes) = some s') :
    PipelineInv config init s' ∧ Advances s.runtime s'.runtime := by
  simp only [step] at h
  split at h
  · rename_i hnone hidle
    have hlead : LeadInv config init s.runtime _ _ := lead_spec hi.history members capture rank outcomes
    generalize Durable.lead config members capture rank outcomes s.runtime = led at h hlead
    obtain ⟨applyFatal, fl, rt⟩ := led
    cases h
    have hextends := hlead.extends_start
    have hadvances : Advances s.runtime rt := .of_extends hextends hlead.persists
    have hnew := flightOk_lead hlead hi.history.visible_le applyFatal
    refine ⟨?_, hadvances⟩
    exact
      { history := hlead.history
        watermark := fun g => by
          by_cases hg : g = group
          · subst hg
            simp only [launch, update_self]
            cases ht : fl.ticket with
            | none => trivial
            | some t =>
              obtain ⟨⟨-, hcaptured⟩, -⟩ := hlead.flight.ticket t ht
              show t.capturedSeq ≤ _
              rw [hcaptured]
          · simp only [launch, update_of_ne hg]
            exact (hi.watermark g).mono hadvances.appendSeq hadvances.durableSeq
        gate := fun fact hfact => by
          show rt.visible < _
          rw [hextends.visible]
          rcases hlead.gate fact hfact with hold | habove
          · exact hi.gate fact hold
          · exact hi.history.visible_le.trans_lt habove
        flight := fun g flight hflight => by
          by_cases hg : g = group
          · subst hg
            simp only [launch, update_self] at hflight ⊢
            cases hflight
            exact hnew
          · simp only [launch, update_of_ne hg] at hflight ⊢
            exact (hi.flight g flight hflight).advance hadvances rfl fun _ _ _ _ hle =>
              .inl (hextends.visible ▸ hle)
        order := fun g flight g' flight' hflight hflight' t ht t' ht' first hfirst last hlast hle => by
          by_cases hg' : g' = group
          · subst hg'
            simp only [launch, update_self] at hflight'
            cases hflight'
            obtain ⟨⟨-, hcaptured⟩, -⟩ := hlead.flight.ticket t' ht'
            rw [hcaptured]
            by_cases hg : g = g'
            · subst hg
              simp only [launch, update_self] at hflight
              cases hflight
              obtain ⟨⟨-, hcaptured⟩, -⟩ := hlead.flight.ticket t ht
              rw [hcaptured]
            · simp only [launch, update_of_ne hg] at hflight
              exact ((hi.watermark g).captured_le ((hi.flight g flight hflight).ticket.trans
                ht)).trans hadvances.appendSeq
          · simp only [launch, update_of_ne hg'] at hflight'
            by_cases hg : g = group
            · -- the new group starts above the end of every older one
              subst hg
              simp only [launch, update_self] at hflight
              cases hflight
              have habove := (hlead.flight.range.first_le first hfirst).1
              obtain ⟨start, hrange⟩ := (hi.flight g' flight' hflight').range
              exact absurd (hle.trans (hrange.last_le last hlast)) (not_le.2 habove)
            · simp only [launch, update_of_ne hg] at hflight
              exact hi.order g flight g' flight' hflight hflight' t ht t' ht' first hfirst last hlast hle
        responses := fun _ hc => hi.responses_advance hadvances hc }
  · cases h

/-- A group leaves. -/
theorem close (hi : PipelineInv config init s) {results : List (Except CommitRuntimeError Commit)}
    (hhistory : HistoryInv init [] rt) (hadvances : Advances s.runtime rt)
    (hgate : ∀ fact ∈ rt.unresolved, rt.visible < fact.firstCommitVersion)
    (hcovered : ∀ g flight, s.flights g = some flight → ∀ t ∈ flight.inFlight.ticket,
      ∀ first ∈ flight.inFlight.group.firstVersion, first ≤ rt.visible →
        first ≤ s.runtime.visible ∨ t.capturedSeq ≤ rt.wal.durableSeq)
    (hresults : ∀ c, .ok c ∈ results → c ∈ rt.commits ∧ c.version ≤ rt.visible ∧
      (config.wal.durabilityPolicy = .always → c.seq ≤ rt.wal.durableSeq)) :
    PipelineInv config init (s.close group (results, rt)) ∧
      Advances s.runtime (s.close group (results, rt)).runtime := by
  have hflights : ∀ g flight, (s.close group (results, rt)).flights g = some flight →
      g ≠ group ∧ s.flights g = some flight := by
    intro g flight hflight
    by_cases hg : g = group
    · simp [PipelineState.close, hg] at hflight
    · exact ⟨hg, by simpa [PipelineState.close, hg] using hflight⟩
  refine ⟨?_, hadvances⟩
  exact
    { history := hhistory
      watermark := fun g => by
        by_cases hg : g = group
        · simp [PipelineState.close, hg, WatermarkInv]
        · simp only [PipelineState.close, update_of_ne hg]
          exact (hi.watermark g).mono hadvances.appendSeq hadvances.durableSeq
      gate := hgate
      flight := fun g flight hflight => by
        obtain ⟨hg, hflight⟩ := hflights g flight hflight
        simp only [PipelineState.close, update_of_ne hg]
        exact (hi.flight g flight hflight).advance hadvances rfl (hcovered g flight hflight)
      order := fun g flight g' flight' hflight hflight' =>
        hi.order g flight g' flight' (hflights g flight hflight).2 (hflights g' flight' hflight').2
      responses := fun c hc => by
        rcases mem_append.1 hc with hc | hc
        · exact hi.responses_advance hadvances hc
        · exact hresults c hc }

/-- A redemption of a settled ticket leaves the log as it is, below the watermark. -/
theorem redeems_log {ticket : Option WalService.WalGroupSyncTicket} {sync : Option Bool}
    {wal wal' : WalState} (h : Redeems ticket sync wal wal') :
    WalService.Logged wal.frames wal.appendSeq wal.durableSeq wal' := by
  rcases h with ⟨t, -, -, rfl⟩ | ⟨-, lost, rfl⟩
  · unfold WalService.completeGroupSync
    split
    · exact ⟨rfl, rfl, le_max_left _ _⟩
    · exact ⟨rfl, rfl, le_max_left _ _⟩
  · exact .refl _

section

variable (hi : PipelineInv config init s)
include hi

/-- The sync of a group that may finish has settled its ticket. -/
theorem settled_of_outcome (hflight : s.flights group = some flight) {sync : Option Bool}
    (houtcome : s.outcome group flight = some sync) {t : WalService.WalGroupSyncTicket}
    (ht : flight.inFlight.ticket = some t) : s.sync group = .settled t sync := by
  have hticket := (hi.flight group flight hflight).ticket.trans ht
  unfold PipelineState.outcome at houtcome
  rw [ht] at houtcome
  dsimp only at houtcome
  split at houtcome
  · rename_i t' outcome heq
    rw [heq] at hticket ⊢
    cases hticket
    cases houtcome
    rfl
  · cases houtcome

theorem redeems_covered (hflight : s.flights group = some flight)
    {sync : Option Bool} (houtcome : s.outcome group flight = some sync)
    (h : Redeems flight.inFlight.ticket sync s.runtime.wal wal) :
    ∀ t ∈ flight.inFlight.ticket, t.capturedSeq ≤ wal.durableSeq := by
  intro t ht
  refine le_trans ?_ (redeems_log h).2.2
  have hsettled := hi.settled_of_outcome hflight houtcome ht
  have hwatermark := hi.watermark group
  rw [hsettled] at hwatermark
  by_cases hfailed : sync = some false
  · rcases h with ⟨_, -, htrue, -⟩ | ⟨hrescued, -⟩
    · rw [hfailed] at htrue
      cases htrue
    · exact (hrescued t ht).2 hfailed
  · exact hwatermark.2 hfailed

theorem finish (h : step config s (.finish group objectMissing applied) = some s') :
    PipelineInv config init s' ∧ Advances s.runtime s'.runtime := by
  obtain ⟨flight, hflight, h⟩ := bind_eq_some_iff.1 h
  obtain ⟨sync, houtcome, h⟩ := bind_eq_some_iff.1 h
  have hok := hi.flight group flight hflight
  have hfinish := groupFinish_finishes (s := s.runtime) hok.deferred sync objectMissing applied
  generalize groupFinish flight.inFlight sync flight.applyFatal objectMissing applied s.runtime =
    finished at h hfinish
  obtain ⟨results, rt⟩ := finished
  cases h
  have hredeemed : ∀ {wal visible}, Redeems flight.inFlight.ticket sync s.runtime.wal wal →
      s.runtime.visible ≤ visible → visible ≤ s.runtime.lastAllocated →
      HistoryInv init [] { s.runtime with wal := wal, visible := visible } ∧
        Advances s.runtime { s.runtime with wal := wal, visible := visible } := by
    intro wal visible hwal hvisible hle
    obtain ⟨hframes, hseq, hdurable⟩ := redeems_log hwal
    exact ⟨hi.history.move ⟨hframes ▸ prefix_rfl, hseq.ge⟩ le_rfl hle hi.history.frontier_le,
      ⟨fun _ hc => hc, le_rfl, hvisible, hseq.ge, hdurable, fun _ hfact => hfact⟩⟩
  dsimp only at hfinish
  cases hfinish with
  | refused hadmitted =>
    exact hi.close hi.history (.refl _) hi.gate (fun _ _ _ _ _ _ _ hle => .inl hle)
      fun c hc => absurd hc (hok.refused hadmitted c)
  | fatal hnone =>
    exact hi.close hi.history (.refl _) hi.gate (fun _ _ _ _ _ _ _ hle => .inl hle) fun c hc => absurd hc (hnone c)
  | @published wal last hlive hwal hlast hgate =>
    obtain ⟨start, hrange⟩ := hok.range
    obtain ⟨hhistory, hadvances⟩ := hredeemed hwal (le_max_left _ last.commitVersion)
      (max_le hi.history.visible_le (hrange.last_le last hlast))
    have hcaptured := redeems_covered hi hflight houtcome hwal
    refine hi.close hhistory hadvances (fun fact hfact => max_lt (hi.gate fact hfact)
      (hgate fact hfact)) (fun g other hother t ht first hfirst hle => ?_) fun c hc => ?_
    · rcases le_max_iff.1 hle with hle | hle
      · exact .inl hle
      · -- the ticket of a group that starts below the published version
        have halways := (hi.flight g other hother).always (by rw [ht]; nofun)
        obtain ⟨t', ht'⟩ := ne_none_iff_exists'.1 (hok.captured halways hlive.1 (by rw [hlast]; nofun))
        exact .inr ((hi.order g other group flight hother hflight t ht t' ht' first hfirst last
          hlast hle).trans (hcaptured t' ht'))
    · obtain ⟨hmem, ⟨first, last', -, hlast', -, hle⟩, hseq⟩ := hok.results c hc
      rw [hlast] at hlast'
      cases hlast'
      refine ⟨hmem, hle.trans (le_max_right _ _), fun halways => ?_⟩
      obtain ⟨t', ht'⟩ := ne_none_iff_exists'.1 (hok.captured halways hlive.1 (by rw [hlast]; nofun))
      exact (hseq t' ht').trans (hcaptured t' ht')
  | empty hlive hwal hlast =>
    obtain ⟨hhistory, hadvances⟩ := hredeemed hwal le_rfl hi.history.visible_le
    refine hi.close hhistory hadvances hi.gate (fun _ _ _ _ _ _ _ hle => .inl hle) fun c hc => ?_
    obtain ⟨-, ⟨first, last', -, hlast', -⟩, -⟩ := hok.results c hc
    rw [hlast] at hlast'
    cases hlast'
  | withheld hlive hwal hnone =>
    obtain ⟨hhistory, hadvances⟩ := hredeemed hwal le_rfl hi.history.visible_le
    exact hi.close hhistory hadvances hi.gate (fun _ _ _ _ _ _ _ hle => .inl hle) fun c hc => absurd hc (hnone c)
  | @failed _ ticket lost hlive hticket hsync hbehind hnone =>
    have hgrows : WalGrows s.runtime.wal { s.runtime.wal with activeObjectLost := lost } := .refl _
    have hlost : HistoryInv init [] { s.runtime with wal := { s.runtime.wal with activeObjectLost := lost } } :=
      hi.history.move hgrows le_rfl hi.history.visible_le hi.history.frontier_le
    obtain ⟨start, ⟨-, hempty⟩ | ⟨first, last, hfirst, hlast, -, hle, -⟩⟩ := hok.range
    · have hstate : recordGroupFailure flight.inFlight.group
          "write group covering fsync failed after members applied"
          { s.runtime with wal := { s.runtime.wal with activeObjectLost := lost } } =
          { s.runtime with wal := { s.runtime.wal with activeObjectLost := lost } } := by
        unfold recordGroupFailure
        rw [hempty]
      rw [hstate]
      exact hi.close hlost ⟨fun _ hc => hc, le_rfl, le_rfl, le_rfl, le_rfl, fun _ hfact => hfact⟩
        hi.gate (fun _ _ _ _ _ _ _ hle => .inl hle) fun c hc => absurd hc (hnone c)
    · -- nothing at or above the group is published, or the watermark had reached its ticket
      have hbelow : s.runtime.visible < first := by
        by_contra hreached
        exact absurd (hok.covered ticket hticket first hfirst (not_lt.1 hreached)) (not_le.2 hbehind)
      have hblocks : Blocks first _ (recordGroupFailure flight.inFlight.group
          "write group covering fsync failed after members applied"
          { s.runtime with wal := { s.runtime.wal with activeObjectLost := lost } }) :=
        blocks_recordGroupFailure hfirst hlast hle
      have hblocked := hlost.blocks hblocks
      generalize recordGroupFailure flight.inFlight.group _ _ = t at hblocks hblocked ⊢
      obtain ⟨fact, hfact, rfl⟩ := hblocks
      refine hi.close hblocked ⟨fun _ hc => hc, le_rfl, le_rfl, le_rfl, le_rfl, fun old hold => ?_⟩
        ?_ (fun _ _ _ _ _ _ _ hle => .inl hle) fun c hc => absurd hc (hnone c)
      · show some (s.runtime.unresolved.getD fact) = some old
        rw [show s.runtime.unresolved = some old from hold]
        rfl
      · rintro _ ⟨rfl⟩
        show s.runtime.visible < (s.runtime.unresolved.getD fact).firstCommitVersion
        cases hgate : s.runtime.unresolved with
        | none =>
          rw [getD_none, hfact]
          exact hbelow
        | some old => exact hi.gate old hgate

/-- Every step keeps the invariant, and what was recorded or published stays so. -/
theorem step (h : step config s event = some s') : PipelineInv config init s' ∧ Advances s.runtime s'.runtime := by
  cases event with
  | solo batch calls => exact hi.solo h
  | lead group members capture rank outcomes => exact hi.lead h
  | sync event => exact hi.sync h
  | finish group objectMissing applied => exact hi.finish h

end

end PipelineInv

/-! ## Runs -/

/-- A runtime that was just opened. -/
structure Opened (config : DurableConfig) (s : PipelineState) : Prop where
  wal : WalSync.Opened config.wal s.syncState
  branches : ∀ b branch, s.runtime.branches b = some branch → branch.branchId = b
  visible : s.runtime.visible ≤ s.runtime.lastAllocated
  frontier : s.runtime.pipelineFrontier ≤ s.runtime.lastAllocated
  commits : s.runtime.commits = []
  gate : s.runtime.unresolved = none
  flights : ∀ group, s.flights group = none
  responses : s.responses = []

theorem Opened.inv (h : Opened config s) : PipelineInv config s.runtime.branches s where
  history :=
    { visible_le := h.visible
      frontier_le := h.frontier
      sorted := by rw [h.commits]; exact .nil
      commit := by simp [h.commits]
      branch := fun b branch hbranch => ⟨h.branches b branch hbranch, branch, hbranch, fun row hrow => .inl hrow⟩
      applied := by simp [h.commits]
      serial := fun _ b branch hbranch => ⟨branch, [], hbranch, by rw [h.commits]; rfl, rfl⟩
      checked := by simp [h.commits] }
  watermark group := by
    have hidle : s.sync group = .idle := h.wal.groups group
    rw [hidle]
    trivial
  gate := by simp [h.gate]
  flight group flight hflight := by rw [h.flights] at hflight; cases hflight
  order group flight _ _ hflight := by rw [h.flights] at hflight; cases hflight
  responses := by simp [h.responses]

def Step (config : DurableConfig) (s s' : PipelineState) : Prop :=
  ∃ event, step config s event = some s'

/-- The invariant along a run. -/
theorem PipelineInv.run (hi : PipelineInv config init s) (hrun : ReflTransGen (Step config) s s') :
    PipelineInv config init s' ∧ ∀ fact ∈ s.runtime.unresolved, s'.runtime.unresolved = some fact := by
  induction hrun with
  | refl => exact ⟨hi, fun _ h => h⟩
  | tail _ hstep ih =>
    obtain ⟨event, hevent⟩ := hstep
    obtain ⟨hinv, hadvances⟩ := ih.1.step hevent
    exact ⟨hinv, fun fact hfact => hadvances.persists fact (ih.2 fact hfact)⟩

/-! ## Careful runs -/

/-- No apply stays out. -/
def Returns : PipelineEvent → Prop
  | .lead _ _ _ _ outcomes => ∀ branchId, outcomes branchId ≠ .missing
  | .solo .. | .sync _ | .finish .. => True

/-- Only a redeemable ticket is redeemed. -/
def RedeemsWell (s : PipelineState) : PipelineEvent → Prop
  | .finish group _ _ => ∀ flight ∈ s.flights group, flight.Live →
    ∀ ticket ∈ (s.sync group).redeems, Redeemable s.runtime.wal ticket
  | .solo .. | .sync _ | .lead .. => True

instance (s : PipelineState) : DecidablePred (RedeemsWell s)
  | .finish group _ _ => inferInstanceAs (Decidable (∀ flight ∈ s.flights group, flight.Live →
      ∀ ticket ∈ (s.sync group).redeems, Redeemable s.runtime.wal ticket))
  | .solo .. | .sync _ | .lead .. => .isTrue trivial

def Careful (s : PipelineState) (event : PipelineEvent) : Prop :=
  Returns event ∧ RedeemsWell s event

def CarefulStep (config : DurableConfig) (s s' : PipelineState) : Prop :=
  ∃ event, step config s event = some s' ∧ Careful s event

/-- What careful runs keep beside: the syncs, and that no branch with a commit is
checked out. -/
structure CarefulInv (config : DurableConfig) (s : PipelineState) : Prop where
  sync : WalSync.SyncInv config.wal s.syncState
  present : ∀ c ∈ s.runtime.commits, s.runtime.branches c.branchId ≠ none

/-- The part of it that the sections of the runtime keep; `wal` is the log they
started from. -/
structure CarefulRuntime (config : DurableConfig) (wal : WalState) (rt : DurableState) : Prop where
  good : WalService.Good config.wal wal rt.wal
  present : ∀ c ∈ rt.commits, rt.branches c.branchId ≠ none

/-- What a move keeps if no apply stays out. -/
theorem moves_careful (rt rt' : DurableState)
    (h : Moves config (fun _ => True) (fun _ => False) rt rt') (hi : CarefulRuntime config wal rt) :
    CarefulRuntime config wal rt' := by
  obtain ⟨hgood, hpresent⟩ := hi
  cases h with
  | @refuses participation calls _ _ _ hrefuses =>
    have hcommits : rt'.commits = rt.commits := by rw [hrefuses.state]
    have hbranches : rt'.branches = rt.branches := by rw [hrefuses.state]
    refine ⟨?_, by rw [hcommits, hbranches]; exact hpresent⟩
    rcases hrefuses.wal with heq | ⟨record, error, herror⟩
    · rw [heq]
      exact hgood
    · exact (WalService.append_spec record participation calls.append).run_error hgood herror
  | @logs participation calls batch current c _ _ _ hlogs =>
    obtain ⟨append, happend⟩ := hlogs.appended
    refine ⟨(WalService.append_spec c.record participation calls.append).run_ok hgood happend, ?_⟩
    intro a ha
    rw [hlogs.branches]
    rcases hlogs.mem_commits.1 ha with ha | rfl
    · exact hpresent a ha
    · obtain ⟨branch, hbranch, -⟩ := hlogs.admitted.branch
      rw [hlogs.branchId, hbranch]
      nofun
  | applies happlies =>
    obtain ⟨branch, branch', -, -, rfl⟩ := happlies
    refine ⟨hgood, fun a ha => ?_⟩
    simp only [DurableState.setBranch, update_apply]
    split
    · nofun
    · exact hpresent a ha
  | gates | frontier | publishes => exact ⟨hgood, hpresent⟩
  | loses _ hlost => exact hlost.elim
  | captures _ calls =>
    exact ⟨((WalService.keeps_good.beginGroupSync calls).weaken (fun _ h => h) fun _ _ h => h.1).exec
      hgood, hpresent⟩

namespace CarefulInv

section

variable (hi : CarefulInv config s)
include hi

theorem runtime : CarefulRuntime config s.runtime.wal s.runtime :=
  ⟨⟨hi.sync.wal, .refl _⟩, hi.present⟩

theorem solo {calls : CommitCalls} (h : step config s (.solo batch calls) = some s') : CarefulInv config s' := by
  have hkeeps := (executeDurableCommit_keeps moves_careful trivial :
    Spec _ (executeDurableCommit config batch calls) _ _).exec hi.runtime
  simp only [step] at h
  cases h
  exact ⟨hi.sync.evolve hkeeps.good, hkeeps.present⟩

theorem lead (hinv : PipelineInv config init s)
    (h : step config s (.lead group members capture rank outcomes) = some s')
    (hcareful : ∀ b, outcomes b ≠ .missing) : CarefulInv config s' := by
  have hkeeps := lead_keeps moves_careful members (fun _ _ => trivial) capture rank outcomes hcareful hi.runtime
  have hlead : LeadInv config init s.runtime _ _ := lead_spec hinv.history members capture rank outcomes
  simp only [step] at h
  split at h
  · generalize Durable.lead config members capture rank outcomes s.runtime = led at h hkeeps hlead
    obtain ⟨applyFatal, fl, rt⟩ := led
    cases h
    refine ⟨hi.sync.move group (fl.ticket.elim .idle .waiting) hkeeps.good ?_ s.token, hkeeps.present⟩
    cases ht : fl.ticket with
    | none => trivial
    | some t =>
      obtain ⟨⟨hpending, hcaptured⟩, -⟩ := hlead.flight.ticket t ht
      rw [hcaptured]
      exact WalSync.ticketInv_capture hkeeps.good.1 hpending
  · cases h

theorem syncs {event : SyncEvent} (h : step config s (.sync event) = some s') : CarefulInv config s' := by
  simp only [step] at h
  split at h
  · rename_i hoff
    obtain ⟨t, ht, rfl⟩ := map_eq_some_iff.1 h
    refine ⟨hi.sync.step ht ?_, hi.present⟩
    cases event with
    | append | capture | finish => exact hoff.elim
    | forceDurable | flushStale | covered | acquire | refresh | syncStart | syncEnd | advance =>
      trivial
  · cases h

section

variable (hinv : PipelineInv config init s)
include hinv

/-- A redemption of a redeemable ticket. -/
theorem redeems (hflight : s.flights group = some flight) {sync : Option Bool}
    (houtcome : s.outcome group flight = some sync)
    (hcareful : ∀ ticket ∈ (s.sync group).redeems, Redeemable s.runtime.wal ticket)
    (h : Redeems flight.inFlight.ticket sync s.runtime.wal wal) :
    WalService.Good config.wal s.runtime.wal wal := by
  rcases h with ⟨t, ht, rfl, rfl⟩ | ⟨-, lost, rfl⟩
  · have hsettled := hinv.settled_of_outcome hflight houtcome ht
    have hgroup : WalSync.GroupInv s.runtime.wal (s.sync group) := hi.sync.groups group
    rw [hsettled] at hgroup hcareful
    exact WalSync.completeGroupSync_good hi.sync.wal hgroup.1 (hgroup.2.2 rfl) (hcareful t rfl)
  · exact WalService.Good.flags ⟨hi.sync.wal, .refl _⟩ s.runtime.wal.appendHandle lost

theorem finish (h : step config s (.finish group objectMissing applied) = some s')
    (hcareful : RedeemsWell s (.finish group objectMissing applied)) : CarefulInv config s' := by
  obtain ⟨flight, hflight, h⟩ := bind_eq_some_iff.1 h
  obtain ⟨sync, houtcome, h⟩ := bind_eq_some_iff.1 h
  have hfinish := groupFinish_finishes (s := s.runtime) (hinv.flight group flight hflight).deferred
    sync objectMissing applied
  have hredeems : flight.Live → ∀ {wal}, Redeems flight.inFlight.ticket sync s.runtime.wal wal →
      WalService.Good config.wal s.runtime.wal wal := fun hlive _ hwal =>
    hi.redeems hinv hflight houtcome (hcareful flight hflight hlive) hwal
  have hclose : ∀ {rt results}, WalService.Good config.wal s.runtime.wal rt.wal →
      rt.commits = s.runtime.commits → rt.branches = s.runtime.branches →
      CarefulInv config (s.close group (results, rt)) := by
    intro rt results hgood hcommits hbranches
    refine ⟨hi.sync.move group .closed hgood trivial s.token, ?_⟩
    show ∀ c ∈ rt.commits, rt.branches c.branchId ≠ none
    rw [hcommits, hbranches]
    exact hi.present
  have hstay : WalService.Good config.wal s.runtime.wal s.runtime.wal := ⟨hi.sync.wal, .refl _⟩
  generalize groupFinish flight.inFlight sync flight.applyFatal objectMissing applied s.runtime =
    finished at h hfinish
  obtain ⟨results, rt⟩ := finished
  cases h
  dsimp only at hfinish
  cases hfinish with
  | refused => exact hclose hstay rfl rfl
  | fatal => exact hclose hstay rfl rfl
  | published hlive hwal => exact hclose (hredeems hlive hwal) rfl rfl
  | empty hlive hwal => exact hclose (hredeems hlive hwal) rfl rfl
  | withheld hlive hwal => exact hclose (hredeems hlive hwal) rfl rfl
  | @failed _ _ lost =>
    have hlost := hstay.flags s.runtime.wal.appendHandle lost
    unfold recordGroupFailure
    split
    · obtain ⟨unresolved, heq⟩ := recordWidened_eq
        { s.runtime with wal := { s.runtime.wal with activeObjectLost := lost } }
        flight.inFlight.group (.new _ .notDurable .appliedNotVisible
          "write group covering fsync failed after members applied")
      rw [heq]
      exact hclose hlost rfl rfl
    · exact hclose hlost rfl rfl

theorem step (h : step config s event = some s') (hcareful : Careful s event) : CarefulInv config s' := by
  cases event with
  | solo batch calls => exact hi.solo h
  | lead group members capture rank outcomes => exact hi.lead hinv h hcareful.1
  | sync event => exact hi.syncs h
  | finish group objectMissing applied => exact hi.finish hinv h hcareful.2

end

end

end CarefulInv

/-- Both invariants along a careful run. -/
theorem carefulRun_inv {s₀ : PipelineState} (hopen : Opened config s₀)
    (hrun : ReflTransGen (CarefulStep config) s₀ s) :
    PipelineInv config s₀.runtime.branches s ∧ CarefulInv config s := by
  induction hrun with
  | refl => exact ⟨hopen.inv, hopen.wal.inv, by simp [hopen.commits]⟩
  | tail _ hstep ih =>
    obtain ⟨event, hevent, hcareful⟩ := hstep
    exact ⟨(ih.1.step hevent).1, ih.2.step ih.1 hevent hcareful⟩

/-- A published commit is applied, if no branch with a commit is checked out: a
fact of the gate only covers versions above the published one. -/
theorem applied_of_visible (hi : PipelineInv config init s)
    (hpresent : ∀ c ∈ s.runtime.commits, s.runtime.branches c.branchId ≠ none)
    (hc : c ∈ s.runtime.commits) (hvisible : c.version ≤ s.runtime.visible) :
    s.runtime.Applied c := by
  rcases hi.history.applied c hc with happlied | hpending | ⟨fact, hfact, hle⟩ | habsent
  · exact happlied
  · exact absurd hpending not_mem_nil
  · exact absurd (hle.trans hvisible) (not_le.2 (hi.gate fact hfact))
  · exact absurd habsent (hpresent c hc)

/-- Along every careful run, whatever the syncs and the applies of its groups end
in: a commit at or below the visible version is applied to its branch; one that was
answered is visible, applied and, under `Always`, in the log under a completed
sync; and once a fact is recorded nothing at or above it is ever published. -/
theorem carefulPipeline_safe {s₀ : PipelineState} (hopen : Opened config s₀)
    (hrun : ReflTransGen (CarefulStep config) s₀ s) :
    (∀ c ∈ s.runtime.commits, c.version ≤ s.runtime.visible → s.runtime.Applied c) ∧
    (∀ c, .ok c ∈ s.responses → s.runtime.Applied c ∧ c.version ≤ s.runtime.visible ∧
      (config.wal.durabilityPolicy = .always → ∃ f ∈ s.runtime.wal.frames, f.seq = c.seq ∧
        f.record = c.record ∧ s.runtime.wal.Covered f)) ∧
    ∀ fact ∈ s.runtime.unresolved, ∀ s', ReflTransGen (Step config) s s' →
      s'.runtime.unresolved = some fact ∧ s'.runtime.visible < fact.firstCommitVersion := by
  obtain ⟨hinv, hcareful⟩ := carefulRun_inv hopen hrun
  refine ⟨fun c hc hvisible => applied_of_visible hinv hcareful.present hc hvisible,
    fun c hc => ?_, fun fact hfact s' hrun' => ?_⟩
  · obtain ⟨hmem, hvisible, hseq⟩ := hinv.responses c hc
    refine ⟨applied_of_visible hinv hcareful.present hmem hvisible, hvisible, fun halways => ?_⟩
    obtain ⟨-, -, -, f, hf, hframe, hrecord⟩ := hinv.history.commit c hmem
    exact ⟨f, hf, hframe, hrecord, hcareful.sync.wal.durable f hf (hframe.le.trans (hseq halways))⟩
  · obtain ⟨hinv', hpersists⟩ := hinv.run hrun'
    have hfact' := hpersists fact hfact
    exact ⟨hfact', hinv'.gate fact hfact'⟩

/-- The run of a list of events, as long as tickets are redeemed well. -/
def carefulRun (config : DurableConfig) : PipelineState → List PipelineEvent → Option PipelineState
  | s, [] => some s
  | s, event :: events =>
    if RedeemsWell s event then (step config s event).bind (carefulRun config · events) else none

theorem reflTransGen_of_carefulRun {events : List PipelineEvent}
    (h : carefulRun config s events = some s') (hreturns : ∀ event ∈ events, Returns event) :
    ReflTransGen (CarefulStep config) s s' := by
  induction events generalizing s with
  | nil =>
    cases h
    exact .refl
  | cons event events ih =>
    rw [carefulRun] at h
    split at h
    · rename_i hredeems
      obtain ⟨next, hstep, hrest⟩ := bind_eq_some_iff.1 h
      obtain ⟨hreturn, hreturns⟩ := forall_mem_cons.1 hreturns
      exact .head ⟨event, hstep, hreturn, hredeems⟩ (ih hrest hreturns)
    · cases h

/-! ## Two groups that go wrong -/

namespace Sample

open Strata.Sample
open WalSync.Sample (walConfig flushCalls syncCalls)

def otherBranch : BranchId := ⟨List.replicate 16 1, Strata.Sample.length_ones⟩

/-- A batch that puts one key of the branch. -/
def putOn (branchId : BranchId) : CommitBatch where
  branchId := branchId
  kind := .mutating
  mutations := [.put ⟨branchId, "s", ⟨storageEngineMinId, storageEngineMinId_ne_zero⟩, [1], Sample.space_valid⟩ [1] .none]
  readSet := []
  casSet := []
  durability := .always
  conflictValidation := .validate
  timestampPolicy := .runtimeGenerated
  committedAt := none

/-- Segments with room for three records of `putOn`. -/
def durableConfig : DurableConfig where
  commit := ⟨8, 8, 8⟩
  wal := { walConfig with segmentSize := walSegmentHeaderSize + 3 * 138 }

/-- No call fails. -/
def calls : CommitCalls where
  admission := .ok ()
  withinBudget := true
  now := 1
  append := ⟨.ok, ⟨syncCalls, true, true⟩, .ok, .ok, false, flushCalls, syncCalls⟩
  applied := true

/-- Two empty branches and a fresh log. -/
def opened : PipelineState where
  runtime :=
    { wal := WalSync.Sample.opened.wal
      branches := fun b =>
        if b = branch ∨ b = otherBranch then some (.new b ⟨8, 1000⟩) else none
      lastAllocated := 0
      lastTimestamp := none
      visible := 0
      pipelineFrontier := 0
      unresolved := none
      commits := [] }
  sync _ := .idle
  token := none
  flights _ := none
  responses := []

theorem opened_opened : Opened durableConfig opened where
  wal :=
    have h := WalSync.Sample.opened_opened
    ⟨h.size, h.openedSize, h.pending, h.dirty, h.future, h.frames, h.seqs, h.synced, h.groups⟩
  branches := by
    intro b found h
    simp only [opened] at h
    split at h
    · cases h
      rfl
    · cases h
  visible := le_rfl
  frontier := le_rfl
  commits := rfl
  gate := rfl
  flights _ := rfl
  responses := rfl

/-- A group with one member on each branch; the applies of `lost` stay out. -/
def lead (group : Nat) (members lost : List BranchId) : PipelineEvent :=
  .lead group (members.map fun b => ⟨putOn b, calls, true⟩) flushCalls (fun _ => 0)
    fun b => if b ∈ lost then .missing else .applied

/-- A group syncs a fresh capture of its own. -/
def syncs (group : Nat) : List PipelineEvent := (WalSync.Sample.syncs group).map .sync

def finish (group : Nat) : PipelineEvent := .finish group false fun _ => true

/-- One group, from its first phase to its responses. -/
def oneGroup : List PipelineEvent := lead 0 [branch, otherBranch] [] :: syncs 0 ++ [finish 0]

theorem oneGroup_safe : ∃ s, carefulRun durableConfig opened oneGroup = some s ∧
    s.responses.length = 2 ∧ ∀ result ∈ s.responses, ∃ c, result = .ok c ∧ s.runtime.Applied c ∧
      c.version ≤ s.runtime.visible ∧ ∃ f ∈ s.runtime.wal.frames, f.seq = c.seq ∧
        f.record = c.record ∧ s.runtime.wal.Covered f := by
  have hrun : (carefulRun durableConfig opened oneGroup).any (fun s =>
      s.responses.length == 2 && s.responses.all (·.isOk)) = true := by
    decide +kernel
  obtain ⟨s, hs, hresponses⟩ := any_eq_true _ _ |>.1 hrun
  rw [Bool.and_eq_true, beq_iff_eq, List.all_eq_true] at hresponses
  have hreturns : ∀ event ∈ oneGroup, Returns event := by
    simp [oneGroup, lead, syncs, finish, WalSync.Sample.syncs, Returns]
  obtain ⟨-, hok, -⟩ := carefulPipeline_safe opened_opened (reflTransGen_of_carefulRun hs hreturns)
  refine ⟨s, hs, hresponses.1, fun result hresult => ?_⟩
  cases result with
  | ok c => exact ⟨c, rfl, (hok c hresult).1, (hok c hresult).2.1, (hok c hresult).2.2 rfl⟩
  | error error => exact absurd (hresponses.2 _ hresult) nofun

/-- Three groups, of which the first two are synced before the first redeems: the
tickets of the two take the bytes of the third off `dirty_bytes`, so that the fourth
group rotates without a sync and the third syncs the new segment only. -/
def overlapping : List PipelineEvent :=
  lead 0 [branch] [] :: syncs 0 ++ lead 1 [branch] [] :: syncs 1 ++
    [lead 2 [branch] [], finish 0, finish 1, lead 3 [branch] []] ++ syncs 2 ++ [finish 2]

/-- The apply of a member stays out, and a later group on another branch publishes
above it. -/
def strayed : List PipelineEvent :=
  lead 0 [branch, otherBranch] [branch] :: syncs 0 ++ [finish 0, lead 1 [otherBranch] []] ++ syncs 1 ++ [finish 1]

/-- A member is answered though no sync of its segment reached its record; and a
commit below the visible version is not applied. -/
theorem unsafe_runs : Opened durableConfig opened ∧ (∃ s, overlapping.foldlM (step durableConfig) opened = some s ∧
      ∃ c, .ok c ∈ s.responses ∧ ∃ f ∈ s.runtime.wal.frames, f.seq = c.seq ∧ ¬s.runtime.wal.Covered f) ∧
    ∃ s, strayed.foldlM (step durableConfig) opened = some s ∧
      ∃ c ∈ s.runtime.commits, c.version ≤ s.runtime.visible ∧ ¬s.runtime.Applied c := by
  refine ⟨opened_opened, ?_, ?_⟩
  · have hrun : (overlapping.foldlM (step durableConfig) opened).any (fun s =>
        s.responses.any fun result => result.toOption.any fun c => s.runtime.wal.frames.any fun f =>
          decide (f.seq = c.seq ∧ s.runtime.wal.synced f.segmentId < f.endOffset)) = true := by
      decide +kernel
    obtain ⟨s, hs, hany⟩ := any_eq_true _ _ |>.1 hrun
    obtain ⟨result, hresult, hany⟩ := List.any_eq_true.1 hany
    obtain ⟨c, hc, hany⟩ := any_eq_true _ _ |>.1 hany
    obtain ⟨f, hf, hmissed⟩ := List.any_eq_true.1 hany
    obtain ⟨hseq, hsynced⟩ := of_decide_eq_true hmissed
    obtain rfl := Except.toOption_eq_some.1 hc
    exact ⟨s, hs, c, hresult, f, hf, hseq, fun hcovered => absurd hcovered.1 (not_le.2 hsynced)⟩
  · have hrun : (strayed.foldlM (step durableConfig) opened).any (fun s => s.runtime.commits.any fun c =>
          decide (c.version ≤ s.runtime.visible) && (s.runtime.branches c.branchId).isNone) =
        true := by
      decide +kernel
    obtain ⟨s, hs, hany⟩ := any_eq_true _ _ |>.1 hrun
    obtain ⟨c, hc, hstray⟩ := List.any_eq_true.1 hany
    rw [Bool.and_eq_true, decide_eq_true_iff, isNone_iff_eq_none] at hstray
    refine ⟨s, hs, c, hc, hstray.1, ?_⟩
    rintro ⟨found, hfound, -⟩
    rw [hstray.2] at hfound
    cases hfound

end Sample

end Pipeline

end Strata
