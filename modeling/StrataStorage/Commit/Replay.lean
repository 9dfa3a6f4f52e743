import StrataStorage.Branch.OwnRow
import StrataStorage.Commit.Durable
import StrataStorage.Commit.Timeline

/-!
# Replaying the log

`commit/replay.rs`: a record of the log is installed in its branch again. Its rows
are looked up in a view of the branch first: rows that are all absent are
appended, rows that are all there are left alone, and anything else is refused.
The allocator catches up, the version is published, and a fact of the unresolved
gate that is about the record is cleared. A pass captures one view and uses it for
every record.

`checkReplay` is what happens before the first effect (`replayWithView_cases`).
-/

namespace Strata

/-! ## Requests -/

structure CommitReplayRequest where
  record : WalRecord
  durability : CommitDurabilityClass

def CommitStamp.new (branchId : BranchId) (commitVersion : CommitVersion)
    (commitTimestamp : Timestamp) : Except CommitRuntimeError CommitStamp := do
  .require (commitVersion ≠ 0) (.invalidCommitState "commit version must be nonzero")
  .ok ⟨branchId, commitVersion, commitTimestamp, none⟩

/-- `CommitRuntimeConfig::validate`, of the limits a commit reads. -/
def CommitRuntimeConfig.validate (config : CommitRuntimeConfig) : Except CommitRuntimeError Unit := do
  .require (config.maxMutationsPerBatch ≠ 0) (.invalidConfig "max_mutations_per_batch" "must be nonzero")
  .require (config.maxValidationFactsPerBatch ≠ 0)
    (.invalidConfig "max_validation_facts_per_batch" "must be nonzero")
  .require (config.maxCommitRowsPerBatch ≠ 0) (.invalidConfig "max_commit_rows_per_batch" "must be nonzero")
  .require (config.maxMutationsPerBatch ≤ config.maxCommitRowsPerBatch)
    (.invalidConfig "max_commit_rows_per_batch" "must be greater than or equal to max_mutations_per_batch")

def validateNoDuplicateInternalRows : List StorageRow → Except CommitRuntimeError Unit
  | [] => .ok ()
  | row :: rows => do
    .require (∀ other ∈ rows, row.internalKey ≠ other.internalKey)
      (.invalidCommitState "replay payload contains duplicate internal rows")
    validateNoDuplicateInternalRows rows

def validateReplayRows (rows : List StorageRow) (branchId : BranchId) : Except CommitRuntimeError Unit := do
  rows.forM fun row => do
    .require (row.physicalKey.branchId = branchId) (.branchMismatch branchId row.physicalKey.branchId)
    .require (isTimelineCandidate row ∨ ¬row.physicalKey.storageSpaceId.isStorageOwned)
      (.storageOwnedMutationSpace row.physicalKey.storageSpaceId)
  .require (∃ row ∈ rows, ¬isTimelineCandidate row)
    (.invalidCommitState "replay payload is missing user mutation rows")
  validateNoDuplicateInternalRows rows

/-- The loop of `validate_replay_timeline_rows`; the kinds seen so far. -/
def validateTimelineRowsFrom (expected : CommitTimelineEntry) (timestampSeen versionSeen : Bool) :
    List StorageRow → Except CommitRuntimeError Unit
  | [] => Except.require (timestampSeen = versionSeen)
      (.invalidTimelineFact "replay payload has a partial commit timeline row pair")
  | row :: rows => do
    let fact ← CommitTimelineFact.validate row
    .require (fact.entry = expected) (.timelineConflict "replay timeline row does not match WAL commit facts")
    match fact.kind with
    | .timestampToVersion =>
      .require (!timestampSeen) (.timelineConflict "replay contains duplicate timestamp timeline row")
      validateTimelineRowsFrom expected true versionSeen rows
    | .versionToTimestamp =>
      .require (!versionSeen) (.timelineConflict "replay contains duplicate version timeline row")
      validateTimelineRowsFrom expected timestampSeen true rows

def validateReplayTimelineRows (rows : List StorageRow) (stamp : CommitStamp) :
    Except CommitRuntimeError Unit := do
  let expected ← CommitTimelineEntry.fromStamp stamp
  validateTimelineRowsFrom expected false false (rows.filter isTimelineCandidate)

namespace CommitReplayRequest

variable (request : CommitReplayRequest)

def rows : List StorageRow := request.record.commitPayload.rows

def branchId : BranchId := request.record.branchId

def commitVersion : CommitVersion := request.record.commitVersion

def stamp : Except CommitRuntimeError CommitStamp := do
  let stamp ← CommitStamp.new request.branchId request.commitVersion request.record.commitTimestamp
  .ok { stamp with committedAt := request.record.committedAt }

def validate : Except CommitRuntimeError Unit := do
  .require (request.durability = .standard ∨ request.durability = .always)
    (.durabilityUnavailable "replay requires a durable WAL record")
  let stamp ← request.stamp
  validateReplayRows request.rows request.branchId
  validateReplayTimelineRows request.rows stamp

end CommitReplayRequest

/-! ## Duplicates -/

inductive ReplayDuplicateState where
  | absent
  | exact
  | mismatch
  | partially
  deriving DecidableEq

/-- The loop of `classify_replay_rows`; how many rows were there and how many were
not. -/
def classifyReplayRowsFrom (view : BranchReadView) (exact absent : Nat) :
    List StorageRow → Except CommitRuntimeError ReplayDuplicateState
  | [] => .ok (if exact = 0 then .absent else if absent = 0 then .exact else .partially)
  | row :: rows => do
    let found ← (view.classifyOwnInternalRow row).mapError fun _ => .lowerLayer .branchRuntime
      "branch read view failed during replay duplicate classification"
    match found with
    | .equal => classifyReplayRowsFrom view (exact + 1) absent rows
    | .absent => classifyReplayRowsFrom view exact (absent + 1) rows
    | .sameVersionDiffers => .ok .mismatch

def classifyReplayRows (view : BranchReadView) (rows : List StorageRow) :
    Except CommitRuntimeError ReplayDuplicateState := classifyReplayRowsFrom view 0 0 rows

/-! ## The gate -/

structure ReplayState where
  branch : BranchLocalState
  lastAllocated : CommitVersion
  lastTimestamp : Option Timestamp
  visible : CommitVersion
  unresolved : Option CommitUnresolvedDurable

abbrev ReplayM := Stateful ReplayState CommitRuntimeError

def CommitUnresolvedDurable.coversVersion (fact : CommitUnresolvedDurable) (version : CommitVersion) : Bool :=
  fact.firstCommitVersion ≤ version ∧ version ≤ fact.commitVersion

/-- The fact is about the record of the request. -/
def CommitUnresolvedDurable.isAbout (fact : CommitUnresolvedDurable) (request : CommitReplayRequest) : Bool :=
  fact.branchId = request.branchId ∧ fact.commitVersion = request.commitVersion ∧
    fact.commitTimestamp = request.record.commitTimestamp ∧ fact.durability = request.durability

namespace Replay

open Stateful

def recordUnresolved (fact : CommitUnresolvedDurable) : ReplayM Unit := do
  match ← gets (·.unresolved) with
  | some existing =>
    when (existing ≠ fact) (throw (.invalidCommitState "different unresolved durable commit is already recorded"))
  | none => modify ({ · with unresolved := some fact })

def clearExact (fact : CommitUnresolvedDurable) : ReplayM Unit := do
  match ← gets (·.unresolved) with
  | some existing =>
    when (existing ≠ fact) (throw (.invalidCommitState "cannot clear different unresolved durable commit"))
    modify ({ · with unresolved := none })
  | none => throw (.invalidCommitState "cannot clear empty unresolved durable gate")

def replaceExact (expected replacement : CommitUnresolvedDurable) : ReplayM Unit := do
  match ← gets (·.unresolved) with
  | some existing =>
    when (existing ≠ expected) (throw (.invalidCommitState "cannot replace different unresolved durable commit"))
    modify ({ · with unresolved := some replacement })
  | none => throw (.invalidCommitState "cannot replace empty unresolved durable gate")

/-- `matching_unresolved_gate`. A range fact lets the earlier members of its group
pass, and only the record it is about clears it. -/
def matchingUnresolvedGate (request : CommitReplayRequest) : ReplayM (Option CommitUnresolvedDurable) := do
  match ← gets (·.unresolved) with
  | none => pure none
  | some fact =>
    if fact.isAbout request then pure (some fact)
    else if fact.coversVersion request.commitVersion then pure none
    else throw (.unresolvedDurableCommit fact.branchId fact.commitVersion)

/-! ## One record -/

inductive CommitReplayAction where
  | applied
  | alreadyApplied
  deriving DecidableEq

/-- `CommitReplayReport`, without the outcome. -/
structure CommitReplayReport where
  action : CommitReplayAction
  rowsChecked : Nat
  rowsApplied : Nat
  gateCleared : Bool

/-- What is decided about a record before anything changes. -/
structure Checked where
  stamp : CommitStamp
  matching : Option CommitUnresolvedDurable
  action : CommitReplayAction

/-- `replay_with_view`, up to its first effect. -/
def checkReplay (config : CommitRuntimeConfig) (request : CommitReplayRequest)
    (view : BranchReadView) : ReplayM Checked := do
  lift config.validate
  lift request.validate
  let branchId ← gets (·.branch.branchId)
  when (request.branchId ≠ branchId) (throw (.branchMismatch request.branchId branchId))
  let matching ← matchingUnresolvedGate request
  let duplicateState ← lift (classifyReplayRows view request.rows)
  let stamp ← lift request.stamp
  match duplicateState with
  | .absent => pure ⟨stamp, matching, .applied⟩
  | .exact => pure ⟨stamp, matching, .alreadyApplied⟩
  | .mismatch => throw (.invalidCommitState "replay row conflicts with installed row facts")
  | .partially => throw (.invalidCommitState "replay rows are only partially installed")

def applyRowsOrRecordGate (rows : List StorageRow) (durability : CommitDurabilityClass)
    (checked : Checked) : ReplayM Unit := do
  let branch ← gets (·.branch)
  match branch.appendCommittedRowsAtomically rows with
  | .ok branch => modify ({ · with branch })
  | .error _ =>
    when checked.matching.isNone (recordUnresolved (.new checked.stamp durability
      .durableNotApplied "branch state rejected replay rows"))
    throw (.durableButNotVisible checked.stamp.branchId checked.stamp.commitVersion
      "branch state rejected replay rows")

/-- The fact of a publication that failed. -/
def notVisible (stamp : CommitStamp) (durability : CommitDurabilityClass) :
    CommitUnresolvedDurable :=
  .new stamp durability .appliedNotVisible "visible publication failed after replay apply"

def recordAppliedNotVisibleIfNeeded (durability : CommitDurabilityClass) (checked : Checked) : ReplayM Unit :=
  match checked.matching with
  | none => recordUnresolved (notVisible checked.stamp durability)
  | some fact =>
    when (fact ≠ notVisible checked.stamp durability) (replaceExact fact (notVisible checked.stamp durability))

/-- The allocator after `catch_up_to_recovered_version` and
`catch_up_to_recovered_timestamp`. -/
def catchUp (stamp : CommitStamp) (s : ReplayState) : ReplayState :=
  { s with
    lastAllocated := max s.lastAllocated stamp.commitVersion
    lastTimestamp := some (s.lastTimestamp.elim stamp.commitTimestamp (max · stamp.commitTimestamp)) }

/-- The publication of a replayed version; a visible version never goes back. -/
def publishReplayed (durability : CommitDurabilityClass) (checked : Checked) : ReplayM Unit := do
  let visible ← gets (·.visible)
  if checked.stamp.commitVersion < visible then
    recordAppliedNotVisibleIfNeeded durability checked
    throw (.durableButNotVisible checked.stamp.branchId checked.stamp.commitVersion
      "visible publication failed after replay apply")
  else modify ({ · with visible := checked.stamp.commitVersion })

/-- The fact that is about the record is cleared. -/
def clearMatching (matching : Option CommitUnresolvedDurable) : ReplayM Unit :=
  match matching with
  | some fact => clearExact fact
  | none => pure ()

/-- `replay_with_view`, from its first effect on. -/
def installReplay (request : CommitReplayRequest) (checked : Checked) : ReplayM CommitReplayReport := do
  when (checked.action = .applied) (applyRowsOrRecordGate request.rows request.durability checked)
  modify (catchUp checked.stamp)
  publishReplayed request.durability checked
  clearMatching checked.matching
  pure
    { action := checked.action
      rowsChecked := request.rows.length
      rowsApplied := if checked.action = .applied then request.rows.length else 0
      gateCleared := checked.matching.isSome }

def replayWithView (config : CommitRuntimeConfig) (request : CommitReplayRequest)
    (view : BranchReadView) : ReplayM CommitReplayReport := do
  let checked ← checkReplay config request view
  installReplay request checked

/-! ## A pass -/

variable (config : CommitRuntimeConfig) (durability : CommitDurabilityClass)

/-- The records of a pass, in order; the first error ends it. -/
def replayRecords (view : BranchReadView) : List WalRecord → ReplayM (List CommitReplayReport)
  | [] => pure []
  | record :: records => do
    let report ← replayWithView config ⟨record, durability⟩ view
    let reports ← replayRecords view records
    pure (report :: reports)

/-- A pass over the log, with one view captured before it. -/
def replayPass (records : List WalRecord) : ReplayM (List CommitReplayReport) := do
  let view ← gets (·.branch.captureReadView)
  replayRecords config durability view records

/-! ## What a replay does -/

section Cases

variable {config durability} {request : CommitReplayRequest} {view : BranchReadView} {s : ReplayState}
variable {checked : Checked} {rows : List StorageRow} {m : ReplayM Unit}

/-- The stamp of a request. -/
def stampOf (request : CommitReplayRequest) : CommitStamp :=
  ⟨request.branchId, request.commitVersion, request.record.commitTimestamp, request.record.committedAt⟩

theorem stamp_eq_ok {stamp : CommitStamp} (h : request.stamp = .ok stamp) : stamp = stampOf request := by
  obtain ⟨base, hbase, hstamp⟩ := Except.bind_eq_ok.1 h
  obtain ⟨-, hbase⟩ := Except.check_bind_eq_ok.1 hbase
  cases hbase
  cases hstamp
  rfl

/-- What the checks of a replay establish. -/
structure CheckOk (request : CommitReplayRequest) (view : BranchReadView) (s : ReplayState)
    (checked : Checked) : Prop where
  valid : request.validate = .ok ()
  branch : request.branchId = s.branch.branchId
  stamp : checked.stamp = stampOf request
  matching : checked.matching = s.unresolved.filter (·.isAbout request)
  covered : ∀ fact ∈ s.unresolved, fact.isAbout request ∨ fact.coversVersion request.commitVersion
  action : classifyReplayRows view request.rows = .ok (if checked.action = .applied then .absent else .exact)

theorem matchingUnresolvedGate_spec : Spec (· = s) (matchingUnresolvedGate request)
    (fun matching t => t = s ∧ matching = s.unresolved.filter (·.isAbout request) ∧
      ∀ fact ∈ s.unresolved, fact.isAbout request ∨ fact.coversVersion request.commitVersion)
    (· = s) := by
  refine .gets_at ?_
  cases hgate : s.unresolved with
  | none => exact .pure fun t ht => ⟨ht, rfl, by simp⟩
  | some fact =>
    refine .ite (fun habout => .pure fun t ht => ⟨ht, ?_, ?_⟩) fun habout =>
      .ite (fun hcovers => .pure fun t ht => ⟨ht, ?_, ?_⟩) fun _ => .throw fun t ht => ht
    · simp [Option.filter, habout]
    · simp [habout]
    · simp [Option.filter, habout]
    · simp [hcovers]

/-- The checks change nothing. -/
theorem checkReplay_spec : Spec (· = s) (checkReplay config request view)
    (fun checked t => t = s ∧ CheckOk request view s checked) (· = s) := by
  refine .lift_bind (fun t ht => ht) fun _ _ => .lift_bind (fun t ht => ht) fun _ hvalid => ?_
  refine .gets_at (.check_bind (fun t ht => ht) fun hbranch => ?_)
  refine .bind matchingUnresolvedGate_spec fun matching => ?_
  refine .lift_bind (fun t ht => ht.1) fun duplicateState hduplicate => ?_
  refine .lift_bind (fun t ht => ht.1) fun stamp hstamp => ?_
  have hok : ∀ (action : CommitReplayAction) (t : ReplayState),
      classifyReplayRows view request.rows = .ok (if action = .applied then .absent else .exact) →
      (t = s ∧ matching = s.unresolved.filter (·.isAbout request) ∧
        ∀ fact ∈ s.unresolved, fact.isAbout request ∨ fact.coversVersion request.commitVersion) →
      t = s ∧ CheckOk request view s ⟨stamp, matching, action⟩ := fun action t haction ht =>
    ⟨ht.1, hvalid, not_not.1 hbranch, stamp_eq_ok hstamp, ht.2.1, ht.2.2, haction⟩
  cases duplicateState with
  | absent => exact .pure fun t ht => hok .applied t hduplicate ht
  | exact => exact .pure fun t ht => hok .alreadyApplied t hduplicate ht
  | mismatch => exact .throw fun t ht => ht.1
  | partially => exact .throw fun t ht => ht.1

/-- The errors of a record that the branch, the gate or the rows it finds refuse. -/
def Rejection : CommitRuntimeError → Prop
  | .branchMismatch _ _ => True
  | .unresolvedDurableCommit _ _ => True
  | .invalidCommitState reason => reason = "replay row conflicts with installed row facts" ∨
      reason = "replay rows are only partially installed"
  | _ => False

/-- The rows of a record are in the branch, by an append or from before. -/
def Installs (action : CommitReplayAction) (rows : List StorageRow) (branch branch' : BranchLocalState) : Prop :=
  if action = .applied then branch.appendCommittedRowsAtomically rows = .ok branch'
  else branch' = branch

/-- The state once the rows of a record are installed and the allocator has caught
up. -/
def installed (request : CommitReplayRequest) (branch : BranchLocalState) (s : ReplayState) :
    ReplayState := catchUp (stampOf request) { s with branch }

/-- The four ways a replay may end. -/
inductive Replayed (config : CommitRuntimeConfig) (request : CommitReplayRequest)
    (view : BranchReadView) (s : ReplayState) :
    Except CommitRuntimeError CommitReplayReport → ReplayState → Prop
  | rejected (e : CommitRuntimeError) (h : (checkReplay config request view s).1 = .error e) :
      Replayed config request view s (.error e) s
  | refused (e e' : _) (checked : Checked) (gate : Option CommitUnresolvedDurable)
      (hchecked : CheckOk request view s checked) (haction : checked.action = .applied)
      (happend : s.branch.appendCommittedRowsAtomically request.rows = .error e')
      (he : ¬Rejection e) (hgate : s.unresolved.isSome → gate.isSome) :
      Replayed config request view s (.error e) { s with unresolved := gate }
  | unpublished (e : CommitRuntimeError) (checked : Checked) (branch : BranchLocalState)
      (gate : Option CommitUnresolvedDurable) (hchecked : CheckOk request view s checked)
      (hinstalls : Installs checked.action request.rows s.branch branch)
      (hvisible : request.commitVersion < s.visible) (he : ¬Rejection e)
      (hgate : s.unresolved.isSome → gate.isSome) :
      Replayed config request view s (.error e) { installed request branch s with unresolved := gate }
  | done (report : CommitReplayReport) (checked : Checked) (branch : BranchLocalState)
      (hchecked : CheckOk request view s checked)
      (hinstalls : Installs checked.action request.rows s.branch branch)
      (hvisible : s.visible ≤ request.commitVersion) :
      Replayed config request view s (.ok report)
        { installed request branch s with
          visible := request.commitVersion
          unresolved := if checked.matching.isSome then none else s.unresolved }

/-- A step that only touches the gate and keeps it closed, and whose errors are not
rejections. -/
def TouchesGate (m : ReplayM Unit) (s : ReplayState) : Prop :=
  ∃ gate, (m s).2 = { s with unresolved := gate } ∧ (s.unresolved.isSome → gate.isSome) ∧
    ∀ e, (m s).1 = .error e → ¬Rejection e

theorem TouchesGate.of_ok (gate : Option CommitUnresolvedDurable) (hgate : s.unresolved.isSome → gate.isSome)
    (h : m s = (.ok (), { s with unresolved := gate })) : TouchesGate m s :=
  ⟨gate, by rw [h], hgate, fun e he => by simp [h] at he⟩

/-- A failure that is recorded in the gate first. -/
theorem TouchesGate.throw (h : TouchesGate m s) {e : CommitRuntimeError}
    (he : ¬Rejection e) : ∃ e' gate, (m >>= fun _ => Stateful.throw e : ReplayM Unit) s =
      (.error e', { s with unresolved := gate }) ∧ ¬Rejection e' ∧ (s.unresolved.isSome → gate.isSome) := by
  obtain ⟨gate, hgate, hkept, herror⟩ := h
  simp only [Bind.bind]
  generalize m s = run at hgate herror
  obtain ⟨result, t⟩ := run
  subst hgate
  cases result with
  | ok _ => exact ⟨e, gate, rfl, he, hkept⟩
  | error e' => exact ⟨e', gate, rfl, herror e' rfl, hkept⟩

theorem touchesGate_recordUnresolved (fact : CommitUnresolvedDurable) (s : ReplayState) :
    TouchesGate (recordUnresolved fact) s := by
  cases hgate : s.unresolved with
  | none =>
    refine .of_ok (some fact) (fun _ => rfl) ?_
    simp [recordUnresolved, Bind.bind, gets, hgate, Stateful.modify]
  | some existing =>
    by_cases heq : existing = fact
    · have hrun : recordUnresolved fact s = (.ok (), s) := by
        simp [recordUnresolved, Bind.bind, gets, hgate, Stateful.when, heq, Pure.pure]
      exact .of_ok s.unresolved id hrun
    · have hrun : recordUnresolved fact s = (.error (.invalidCommitState
          "different unresolved durable commit is already recorded"), s) := by
        simp [recordUnresolved, Bind.bind, gets, hgate, Stateful.when, heq, Stateful.throw]
      refine ⟨s.unresolved, by rw [hrun], id, fun e he => ?_⟩
      rw [hrun] at he
      cases he
      simp [Rejection]

theorem applyRowsOrRecordGate_ok {branch : BranchLocalState}
    (h : s.branch.appendCommittedRowsAtomically rows = .ok branch) :
    applyRowsOrRecordGate rows durability checked s = (.ok (), { s with branch }) := by
  simp [applyRowsOrRecordGate, Bind.bind, gets, h, Stateful.modify]

theorem applyRowsOrRecordGate_error (durability : CommitDurabilityClass) (checked : Checked)
    {e : BranchRuntimeError} (h : s.branch.appendCommittedRowsAtomically rows = .error e) :
    ∃ e' gate, applyRowsOrRecordGate rows durability checked s = (.error e', { s with unresolved := gate }) ∧
      ¬Rejection e' ∧ (s.unresolved.isSome → gate.isSome) := by
  have hrun : applyRowsOrRecordGate rows durability checked s =
      ((when checked.matching.isNone (recordUnresolved (.new checked.stamp durability
        .durableNotApplied "branch state rejected replay rows")) >>= fun _ =>
        Stateful.throw (.durableButNotVisible checked.stamp.branchId checked.stamp.commitVersion
          "branch state rejected replay rows")) : ReplayM Unit) s := by
    simp [applyRowsOrRecordGate, Bind.bind, gets, h]
  rw [hrun]
  refine TouchesGate.throw ?_ (by simp [Rejection])
  unfold Stateful.when
  split
  · exact touchesGate_recordUnresolved _ s
  · exact .of_ok s.unresolved id rfl

theorem publishReplayed_ok (durability : CommitDurabilityClass) (h : s.visible ≤ checked.stamp.commitVersion) :
    publishReplayed durability checked s = (.ok (), { s with visible := checked.stamp.commitVersion }) := by
  simp [publishReplayed, Bind.bind, gets, Stateful.modify, not_lt.2 h]

theorem publishReplayed_error (durability : CommitDurabilityClass) (h : checked.stamp.commitVersion < s.visible)
    (hmatching : ∀ fact ∈ checked.matching, s.unresolved = some fact) :
    ∃ e gate, publishReplayed durability checked s = (.error e, { s with unresolved := gate }) ∧
      ¬Rejection e ∧ (s.unresolved.isSome → gate.isSome) := by
  have hrun : publishReplayed durability checked s =
      ((recordAppliedNotVisibleIfNeeded durability checked >>= fun _ => Stateful.throw
        (.durableButNotVisible checked.stamp.branchId checked.stamp.commitVersion
          "visible publication failed after replay apply")) : ReplayM Unit) s := by
    simp [publishReplayed, Bind.bind, gets, h]
  rw [hrun]
  refine TouchesGate.throw ?_ (by simp [Rejection])
  unfold recordAppliedNotVisibleIfNeeded
  split
  · exact touchesGate_recordUnresolved _ s
  · rename_i fact hfact
    have hgate := hmatching fact hfact
    by_cases heq : fact = notVisible checked.stamp durability
    · refine .of_ok s.unresolved id ?_
      simp [Stateful.when, heq, Pure.pure]
    · refine .of_ok (some (notVisible checked.stamp durability)) (fun _ => rfl) ?_
      simp [Stateful.when, heq, replaceExact, Bind.bind, gets, hgate, Stateful.modify, Pure.pure]

theorem CheckOk.gate (h : CheckOk request view s checked) :
    ∀ fact ∈ checked.matching, s.unresolved = some fact := by
  intro fact hfact
  rw [h.matching] at hfact
  exact (Option.filter_eq_some_iff.1 hfact).1

theorem clearMatching_run {matching : Option CommitUnresolvedDurable}
    (h : ∀ fact ∈ matching, s.unresolved = some fact) : clearMatching matching s =
      (.ok (), { s with unresolved := if matching.isSome then none else s.unresolved }) := by
  cases matching with
  | none => rfl
  | some fact =>
    simp [clearMatching, clearExact, Bind.bind, gets, h fact rfl, Stateful.when, Stateful.modify, Pure.pure]

/-- From the first effect on: the append, the publication and the gate. -/
theorem installReplay_cases (h : CheckOk request view s checked) :
    Replayed config request view s (installReplay request checked s).1 (installReplay request checked s).2 := by
  have hversion : checked.stamp.commitVersion = request.commitVersion := by rw [h.stamp]; rfl
  have hrest : ∀ branch, Installs checked.action request.rows s.branch branch →
      when (checked.action = .applied) (applyRowsOrRecordGate request.rows request.durability
        checked) s = (.ok (), { s with branch }) →
      Replayed config request view s (installReplay request checked s).1 (installReplay request checked s).2 := by
    intro branch hinstalls happly
    have hcaught : catchUp checked.stamp { s with branch } = installed request branch s := by
      rw [h.stamp]
      rfl
    by_cases hvisible : request.commitVersion < s.visible
    · obtain ⟨e, gate, hpublish, he, hgate⟩ := publishReplayed_error (s := installed request branch s)
        request.durability (hversion.symm ▸ hvisible) h.gate
      have hrun : installReplay request checked s =
          (.error e, { installed request branch s with unresolved := gate }) := by
        simp only [installReplay, Bind.bind, happly, Stateful.modify, hcaught, hpublish]
      rw [hrun]
      exact .unpublished e checked branch gate h hinstalls hvisible he hgate
    · have hpublish := publishReplayed_ok (s := installed request branch s) request.durability
        (hversion.symm ▸ not_lt.1 hvisible)
      have hclear := clearMatching_run (s := { installed request branch s with
        visible := request.commitVersion }) h.gate
      rw [hversion] at hpublish
      have hrun : ∃ report, installReplay request checked s = (.ok report,
          { installed request branch s with
            visible := request.commitVersion
            unresolved := if checked.matching.isSome then none else s.unresolved }) := by
        simp only [installReplay, Bind.bind, happly, Stateful.modify, hcaught, hpublish, hclear]
        exact ⟨_, rfl⟩
      obtain ⟨report, hrun⟩ := hrun
      rw [hrun]
      exact .done report checked branch h hinstalls (not_lt.1 hvisible)
  cases haction : checked.action with
  | applied =>
    cases happend : s.branch.appendCommittedRowsAtomically request.rows with
    | ok branch =>
      refine hrest branch (by rw [Installs, if_pos haction]; exact happend) ?_
      rw [Stateful.when, if_pos haction, applyRowsOrRecordGate_ok happend]
    | error e' =>
      obtain ⟨e, gate, hrun, he, hgate⟩ := applyRowsOrRecordGate_error request.durability checked happend
      have hrun' : installReplay request checked s = (.error e, { s with unresolved := gate }) := by
        simp only [installReplay, Bind.bind, Stateful.when, haction, if_true, hrun]
      rw [hrun']
      exact .refused e e' checked gate h haction happend he hgate
  | alreadyApplied =>
    have hne : checked.action ≠ .applied := by rw [haction]; simp
    refine hrest s.branch (by rw [Installs, if_neg hne]) ?_
    rw [Stateful.when, if_neg hne]
    rfl

/-- Every replay ends in one of the four ways. -/
theorem replayWithView_cases (config : CommitRuntimeConfig) (request : CommitReplayRequest)
    (view : BranchReadView) (s : ReplayState) :
    Replayed config request view s (replayWithView config request view s).1
      (replayWithView config request view s).2 := by
  have hcheck := (checkReplay_spec : Spec (· = s) (checkReplay config request view) _ _) s rfl
  have hrejected : ∀ e, (checkReplay config request view s).1 = .error e →
      Replayed config request view s (.error e) s := Replayed.rejected
  simp only [replayWithView, Bind.bind]
  generalize checkReplay config request view s = run at hcheck hrejected
  obtain ⟨result, t⟩ := run
  cases result with
  | error e =>
    obtain rfl : t = s := hcheck
    exact hrejected e rfl
  | ok checked =>
    obtain ⟨rfl, hok⟩ := hcheck
    exact installReplay_cases hok

end Cases

end Replay

end Strata
