import Mathlib.Data.List.Sort
import StrataStorage.Commit.Batch
import StrataStorage.Wal.Service

/-!
# Durable commits

`commit/durable.rs`, `commit/durable_gate.rs`, `commit/allocator.rs` and the
group sections of `lifecycle/durable/bootstrap.rs`: a commit is admitted, checked
against its branch, stamped, appended to the log, applied to the branch and
published. A member of a write group leaves the sync and the publication to its
group, and its apply too if it is the first of its branch in the group. A commit
whose record is in the log but whose rows are not applied, or whose group could
not be synced, is recorded in the unresolved gate, which refuses later commits.

Each backend call ends as its argument says, and so does each apply; what
admission, guards and budgets decide is an argument too. The history keeps every
commit whose append succeeded.
-/

namespace Strata

inductive CommitDurabilityClass where
  | notDurable
  | standard
  | always
  deriving DecidableEq

inductive CommitUnresolvedDurableKind where
  | durableNotApplied
  | appliedNotVisible
  deriving DecidableEq

/-- A fact of the unresolved gate; it covers a range of versions. -/
structure CommitUnresolvedDurable where
  branchId : BranchId
  firstCommitVersion : CommitVersion
  commitVersion : CommitVersion
  commitTimestamp : Timestamp
  durability : CommitDurabilityClass
  kind : CommitUnresolvedDurableKind
  reason : String
  range_le : firstCommitVersion ≤ commitVersion
  deriving DecidableEq

def CommitUnresolvedDurable.new (stamp : CommitStamp) (durability : CommitDurabilityClass)
    (kind : CommitUnresolvedDurableKind) (reason : String) : CommitUnresolvedDurable :=
  ⟨stamp.branchId, stamp.commitVersion, stamp.commitVersion, stamp.commitTimestamp, durability,
    kind, reason, le_rfl⟩

def CommitUnresolvedDurable.coveringGroupFrom (fact : CommitUnresolvedDurable)
    (first : CommitVersion) : Except CommitRuntimeError CommitUnresolvedDurable :=
  if h : first ≤ fact.commitVersion then
    .ok { fact with firstCommitVersion := first, range_le := h }
  else .error (.invalidCommitState "unresolved durable range must not start after its end")

structure CommitGroupState where
  frontier : CommitVersion
  firstVersion : Option CommitVersion
  lastStamp : Option CommitStamp
  deriving DecidableEq

namespace CommitGroupState

def new (visibleAtGroupStart : CommitVersion) : CommitGroupState :=
  ⟨visibleAtGroupStart, none, none⟩

def recordMember (group : CommitGroupState) (stamp : CommitStamp) : CommitGroupState :=
  ⟨stamp.commitVersion, some (group.firstVersion.getD stamp.commitVersion), some stamp⟩

def widenFact (group : CommitGroupState) (fact : CommitUnresolvedDurable) :
    Except CommitRuntimeError CommitUnresolvedDurable :=
  match group.firstVersion with
  | some first => fact.coveringGroupFrom first
  | none => .ok fact

end CommitGroupState

/-- A commit whose record the log has accepted. `seq` numbers its append. -/
structure Commit where
  batch : CommitBatch
  stamp : CommitStamp
  record : WalRecord
  seq : Nat

def Commit.version (commit : Commit) : CommitVersion := commit.stamp.commitVersion

def Commit.branchId (commit : Commit) : BranchId := commit.stamp.branchId

def Commit.rows (commit : Commit) : List StorageRow := commit.record.commitPayload.rows

structure DurableConfig where
  commit : CommitRuntimeConfig
  wal : WalConfig

structure DurableState where
  wal : WalState
  /-- The branch catalog; a branch that is checked out is not in it. -/
  branches : BranchId → Option BranchLocalState
  lastAllocated : CommitVersion
  lastTimestamp : Option Timestamp
  visible : CommitVersion
  pipelineFrontier : CommitVersion
  unresolved : Option CommitUnresolvedDurable
  /-- The commits whose append succeeded, in order. -/
  commits : List Commit

namespace DurableState

variable (s : DurableState)

def pipelineVisibilityFloor : CommitVersion := max s.visible s.pipelineFrontier

def setBranch (branchId : BranchId) (branch : Option BranchLocalState) : DurableState :=
  { s with branches := Function.update s.branches branchId branch }

/-- The allocator after `stamp`. -/
def withStamp (stamp : CommitStamp) : DurableState :=
  { s with lastAllocated := stamp.commitVersion, lastTimestamp := some stamp.commitTimestamp }

/-- `record_unresolved`: a fact stays until it is cleared. -/
def recordUnresolved (fact : CommitUnresolvedDurable) : DurableState :=
  { s with unresolved := some (s.unresolved.getD fact) }

/-- A fact widened to the group's range, recorded if it is valid. -/
def recordWidened (group : CommitGroupState) (fact : CommitUnresolvedDurable) : DurableState :=
  match group.widenFact fact with
  | .ok fact => s.recordUnresolved fact
  | .error _ => s

end DurableState

abbrev CommitM := Stateful DurableState CommitRuntimeError

/-- What the world decides of one commit: `admission` is the verdict of lifecycle
admission, the generation and branch guards, write pressure and the projected
budget, `withinBudget` that of the storage budget on the stamped rows, `now` is
the timestamp source, and `applied` says whether the branch takes the rows. -/
structure CommitCalls where
  admission : Except CommitRuntimeError Unit
  withinBudget : Bool
  now : Timestamp
  append : AppendCalls
  applied : Bool

namespace Durable

open Stateful CommitBatch

/-! ## Admission and stamping -/

def checkedNext (version : CommitVersion) : Option CommitVersion :=
  if version = CommitVersion.max then none else some (version + 1)

/-- `preview_generated`: a candidate is clamped to the last timestamp. -/
def previewGenerated (last : Option Timestamp) (candidate : Timestamp) : Timestamp :=
  last.elim candidate (max · candidate)

def resolveTimestamp (last : Option Timestamp) (now : Timestamp) :
    CommitTimestampPolicy → Except CommitRuntimeError Timestamp
  | .runtimeGenerated => .ok (previewGenerated last now)
  | .runtimeGeneratedBase candidate => .ok (previewGenerated last candidate)
  | .explicit timestamp =>
    if last.any (timestamp < ·) then
      .error (.invalidTimestampPolicy "explicit commit timestamp is before the monotonic floor")
    else .ok timestamp

/-- `allocate_for_batch`, of a mutating batch. -/
def allocateForBatch (batch : CommitBatch) (now : Timestamp) : CommitM CommitStamp := do
  let last ← gets (·.lastAllocated)
  let version ← lift ((checkedNext last).okOr (.versionAllocatorOverflow last))
  let lastTimestamp ← gets (·.lastTimestamp)
  let timestamp ← lift (resolveTimestamp lastTimestamp now batch.timestampPolicy)
  let stamp := ⟨batch.branchId, version, timestamp, batch.committedAt⟩
  modify (·.withStamp stamp)
  pure stamp

/-- `require_no_unresolved_fact`, and the solo check of the gate. -/
def requireNoUnresolvedFact : CommitM Unit := do
  let unresolved ← gets (·.unresolved)
  match unresolved with
  | some fact => throw (.unresolvedDurableCommit fact.branchId fact.commitVersion)
  | none => pure ()

/-- The durability policy a batch asks for (`require_durable_mutating_batch`). -/
def requireDurableMutatingBatch (batch : CommitBatch) :
    Except CommitRuntimeError (DurabilityPolicy × CommitDurabilityClass) := do
  .require (batch.kind = .mutating) (.invalidBatch "durable commit executor requires mutating batch")
  match batch.durability with
  | .standard => .ok (.standard, .standard)
  | .always => .ok (.always, .always)
  | .cache => .error (.durabilityUnavailable "durable commit executor requires durable mode")

/-- The branch of the catalog. -/
def branchState (branchId : BranchId) : CommitM BranchLocalState := do
  let branch ← gets (·.branches branchId)
  lift (branch.okOr (.branchNotFound branchId))

def requireBranchNotAheadOfVisible (branch : BranchLocalState) (current : CommitVersion) :
    Except CommitRuntimeError Unit :=
  .require (branch.maxCommitVersion.all (· ≤ current))
    (.invalidCommitState "branch has applied rows above current visible version")

def buildWalRecord (stamp : CommitStamp) (rows : List StorageRow) : Except CommitRuntimeError WalRecord := do
  let payload ← (WalCommitPayload.new rows).mapError fun _ =>
    .lowerLayer .walFormat "WAL commit payload rejected durable rows"
  let record ← (WalRecord.new stamp.commitVersion stamp.branchId stamp.commitTimestamp
    payload).mapError fun _ => .lowerLayer .walFormat "WAL record rejected durable row facts"
  .ok (record.withCommittedAt stamp.committedAt)

variable (config : DurableConfig)

/-- What `admit_durable_commit` and `execute_with_role` check before a version is
allocated; `current` is the version conflicts are read at. -/
def checkCommit (batch : CommitBatch) (calls : CommitCalls) (current : CommitVersion) :
    CommitM CommitDurabilityClass := do
  lift calls.admission
  when (batch.kind = .mutating) requireNoUnresolvedFact
  lift (batch.validateBatchShape config.commit)
  let (policy, durability) ← lift (requireDurableMutatingBatch batch)
  when (policy ≠ config.wal.durabilityPolicy) (throw (.durabilityUnavailable
    "durable commit executor requires matching WAL durability policy"))
  let branch ← branchState batch.branchId
  when (batch.branchId ≠ branch.branchId) (throw (.branchMismatch batch.branchId branch.branchId))
  lift (requireBranchNotAheadOfVisible branch current)
  lift (batch.validateCommitConflicts (currentObservedVersion branch.captureReadView current))
  pure durability

/-- From the allocation of a version to the record of the commit. -/
def stampCommit (batch : CommitBatch) (calls : CommitCalls) (current : CommitVersion) :
    CommitM (CommitStamp × WalRecord) := do
  let stamp ← allocateForBatch batch calls.now
  when (stamp.commitVersion ≤ current) (throw (.invalidCommitState
    "allocated commit version must be greater than current visible version"))
  let rows ← lift (batch.stampUserRows stamp)
  when (¬calls.withinBudget) (throw (.lowerLayer .storageBudget "storage budget rejected commit rows"))
  let record ← lift (buildWalRecord stamp rows)
  pure (stamp, record)

/-! ## The log and the branch -/

structure DeferredBranchApply where
  commit : Commit
  durability : CommitDurabilityClass

def DeferredBranchApply.branchId (pending : DeferredBranchApply) : BranchId :=
  pending.commit.branchId

/-- `map_wal_service_append_error`, and `into_commit_error`. -/
def walAppendError (stamp : CommitStamp) : WalServiceError → CommitRuntimeError
  | .repairUncertain _ | .activeObjectLost _ =>
    .durabilityUnavailable "WAL writer is halted; reopen before appending"
  | .backend .sync _ | .backend .flush _ | .objectMissing .sync _ | .objectMissing .flush _
  | .unexpectedAppendOffset _ _ _ =>
    .durabilityUncertain stamp.branchId stamp.commitVersion "WAL append durability is uncertain"
  | _ => .lowerLayer .walService "WAL append failed before commit visibility"

/-- A call of the log service. -/
def onWal {α : Type} (error : WalServiceError → CommitRuntimeError) (m : WalM α) : CommitM α :=
  zoom (·.wal) (fun wal s => { s with wal }) error m

/-- `append_record_for_participation`; a commit whose append succeeds enters the
history. Under `Always` a solo append must have synced. -/
def appendRecordForParticipation (batch : CommitBatch) (stamp : CommitStamp) (record : WalRecord)
    (durability : WalAppendDurability) (calls : CommitCalls) : CommitM Commit := do
  let append ← onWal (walAppendError stamp) (WalService.append config.wal record durability calls.append)
  let seq ← gets (·.wal.appendSeq)
  modify fun s => { s with commits := s.commits ++ [⟨batch, stamp, record, seq⟩] }
  when (durability = .policyDriven ∧ config.wal.durabilityPolicy = .always ∧ ¬append.forcedDurable)
    (throw (.durabilityUncertain stamp.branchId stamp.commitVersion
      "always durability requires a forced WAL append"))
  pure ⟨batch, stamp, record, seq⟩

/-- `execute_with_role`, up to the apply. -/
def logCommit (batch : CommitBatch) (calls : CommitCalls) (current : CommitVersion)
    (participation : WalAppendDurability) : CommitM (Commit × CommitDurabilityClass) := do
  let durability ← checkCommit config batch calls current
  let (stamp, record) ← stampCommit batch calls current
  let commit ← appendRecordForParticipation config batch stamp record participation calls
  pure (commit, durability)

/-- `append_committed_rows_atomically` on the branch of the catalog. -/
def applyRows (branchId : BranchId) (rows : List StorageRow) (applied : Bool) : CommitM Unit := do
  let branch ← branchState branchId
  when (¬applied) (throw (.lowerLayer .branchRuntime "branch state rejected commit rows"))
  let branch ← lift ((branch.appendCommittedRowsAtomically rows).mapError fun _ =>
    .lowerLayer .branchRuntime "branch state rejected commit rows")
  modify (·.setBranch branchId (some branch))

def rejectedReason : String := "branch state rejected durable commit rows after WAL append"

/-- An apply of a logged commit; a failure is recorded in the gate, for the range
of the group. -/
def applyLogged (group : CommitGroupState) (commit : Commit) (durability : CommitDurabilityClass)
    (applied : Bool) : CommitM Unit :=
  (applyRows commit.branchId commit.rows applied).mapFailure fun _ s =>
    (.durableButNotVisible commit.branchId commit.version rejectedReason,
      s.recordWidened group (.new commit.stamp durability .durableNotApplied rejectedReason))

/-- `apply_deferred_branch`. A branch that is not in the catalog is an error the
gate does not see. -/
def applyDeferredBranch (group : CommitGroupState) (pending : DeferredBranchApply)
    (applied : Bool) : CommitM Unit := do
  let _ ← branchState pending.branchId
  applyLogged group pending.commit pending.durability applied

def publishVisible (version : CommitVersion) : CommitM Unit := do
  let visible ← gets (·.visible)
  when (version < visible) (throw (.invalidVisibilityFacts "visible version cannot regress"))
  modify ({ · with visible := version })

/-- The publication of a solo commit. -/
def publishSolo (stamp : CommitStamp) (durability : CommitDurabilityClass) : CommitM Unit :=
  (publishVisible stamp.commitVersion).mapFailure fun _ s =>
    (.durableButNotVisible stamp.branchId stamp.commitVersion "visible version cannot regress",
      s.recordUnresolved (.new stamp durability .appliedNotVisible "visible version cannot regress"))

/-! ## Solo commits -/

def executeDurableCommit (batch : CommitBatch) (calls : CommitCalls) : CommitM Commit := do
  let floor ← gets (·.pipelineVisibilityFloor)
  let (commit, durability) ← logCommit config batch calls floor .policyDriven
  applyLogged (.new floor) commit durability calls.applied
  publishSolo commit.stamp durability
  pure commit

/-! ## Write groups -/

/-- A member request, and what the world decides of it; `flushed` says whether
the branch takes the rows of a deferred apply that the member flushes. -/
structure MemberRequest where
  batch : CommitBatch
  calls : CommitCalls
  flushed : Bool

/-- The variables of `execute_durable_commit_group_begin`. -/
structure Forming where
  group : CommitGroupState
  fatal : Bool
  deferred : List DeferredBranchApply
  eager : List BranchId
  results : List (Except CommitRuntimeError Commit)

/-- `execute_group_member_deferring_apply`. -/
def logGroupMember (group : CommitGroupState) (batch : CommitBatch) (calls : CommitCalls) :
    CommitM (Commit × CommitDurabilityClass) := do
  let visible ← gets (·.visible)
  logCommit config batch calls (max visible group.frontier) .deferredToGroup

def executeGroupMember (group : CommitGroupState) (batch : CommitBatch) (calls : CommitCalls) :
    CommitM (Commit × CommitDurabilityClass) := do
  let (commit, durability) ← logGroupMember config group batch calls
  applyLogged group commit durability calls.applied
  pure (commit, durability)

/-- The execution of one member, once the applies it depends on are flushed. -/
def runMember (f : Forming) (request : MemberRequest) (s : DurableState) : Forming × DurableState :=
  let defer := request.batch.branchId ∉ f.eager
  let run := if defer then logGroupMember config f.group request.batch request.calls
    else executeGroupMember config f.group request.batch request.calls
  match run s with
  | (.ok (commit, durability), s) =>
    ({ f with
        group := f.group.recordMember commit.stamp
        deferred := if defer then f.deferred ++ [⟨commit, durability⟩] else f.deferred
        results := f.results ++ [.ok commit] }, s)
  | (.error error, s) =>
    -- a recorded fact means that the failure came after the append
    ({ f with fatal := s.unresolved.isSome, results := f.results ++ [.error error] }, s)

/-- One round of the loop over the members. -/
def formMember (fs : Forming × DurableState) (request : MemberRequest) : Forming × DurableState :=
  let (f, s) := fs
  if f.fatal then
    ({ f with results := f.results ++ [.error (.durabilityUnavailable
        "write group aborted before this member's WAL append")] }, s)
  else
    match f.deferred.find? (·.branchId = request.batch.branchId) with
    | none => runMember config f request s
    | some pending =>
      -- the branch of an earlier member: its apply is flushed, and the branch goes eager;
      -- the others come back in any order later
      let rest := f.deferred.filter (·.branchId ≠ request.batch.branchId)
      match applyDeferredBranch f.group pending request.flushed s with
      | (.error error, s) =>
        ({ f with deferred := rest, fatal := true, results := f.results ++ [.error error] }, s)
      | (.ok (), s) =>
        runMember config { f with deferred := rest, eager := request.batch.branchId :: f.eager } request s

structure DurableGroupInFlight where
  results : List (Except CommitRuntimeError Commit)
  group : CommitGroupState
  fatal : Bool
  admitted : Bool
  ticket : Option WalService.WalGroupSyncTicket
  deferred : List DeferredBranchApply

/-- `record_group_capture_failure` and `record_group_sync_failure`, past the
watermark rescue. -/
def recordGroupFailure (group : CommitGroupState) (reason : String) (s : DurableState) :
    DurableState :=
  match group.lastStamp with
  | some stamp => s.recordWidened group (.new stamp .notDurable .appliedNotVisible reason)
  | none => s

/-- The capture at the end of phase 1. -/
def captureTicket (f : Forming) (capture : FlushCalls) (s : DurableState) : DurableGroupInFlight × DurableState :=
  match f.fatal, f.group.lastStamp with
  | false, some last =>
    let s := { s with pipelineFrontier := max s.pipelineFrontier last.commitVersion }
    if config.wal.durabilityPolicy = .always then
      match WalService.beginGroupSync config.wal capture s.wal with
      | (.ok ticket, wal) =>
        (⟨f.results, f.group, false, true, some ticket, f.deferred⟩, { s with wal })
      | (.error _, wal) =>
        (⟨f.results, f.group, true, true, none, f.deferred⟩, recordGroupFailure f.group
          "write group sync capture failed to flush the WAL append buffer" { s with wal })
    else (⟨f.results, f.group, false, true, none, f.deferred⟩, s)
  | _, _ => (⟨f.results, f.group, f.fatal, true, none, f.deferred⟩, s)

/-- `execute_durable_commit_group_begin`. -/
def groupBegin (members : List MemberRequest) (capture : FlushCalls) (s : DurableState) :
    DurableGroupInFlight × DurableState :=
  match s.unresolved with
  | some fact =>
    (⟨members.map fun _ => .error (.unresolvedDurableCommit fact.branchId fact.commitVersion),
      .new s.visible, false, false, none, []⟩, s)
  | none =>
    let (f, s) := members.foldl (formMember config) (⟨.new s.pipelineVisibilityFloor, false, [], [], []⟩, s)
    captureTicket config f capture s

/-- How a parallel apply ends: `missing` is one that did not come back within the
leader's wait, whose branch stays checked out. -/
inductive ApplyOutcome where
  | applied
  | failed
  | missing
  deriving DecidableEq

/-- One apply of `run_group_applies_parallel`, folded into the group's verdict. -/
def finishApply (group : CommitGroupState) (outcomes : BranchId → ApplyOutcome)
    (fs : Bool × DurableState) (pending : DeferredBranchApply) : Bool × DurableState :=
  match outcomes pending.branchId with
  | .missing => (true, fs.2.setBranch pending.branchId none)
  | outcome =>
    match applyLogged group pending.commit pending.durability (outcome = .applied) fs.2 with
    | (.ok (), s) => (fs.1, s)
    | (.error _, s) => (true, s)

/-- `run_group_applies_parallel`: the applies of a group that is not fatal, in the
order in which they come back. Says whether the group must go fatal. -/
def runGroupAppliesParallel (inFlight : DurableGroupInFlight) (rank : BranchId → Nat)
    (outcomes : BranchId → ApplyOutcome) (s : DurableState) :
    Bool × DurableGroupInFlight × DurableState :=
  if inFlight.fatal then (false, inFlight, s)
  else
    let returned := inFlight.deferred.insertionSort fun a b => rank a.branchId ≤ rank b.branchId
    let (fatal, s) := returned.foldl (finishApply inFlight.group outcomes) (false, s)
    (fatal, { inFlight with deferred := [] }, s)

/-- Phase 1 of `lead_commit_group_as_leader`, under one hold of the runtime lock. -/
def lead (members : List MemberRequest) (capture : FlushCalls) (rank : BranchId → Nat)
    (outcomes : BranchId → ApplyOutcome) (s : DurableState) :
    Bool × DurableGroupInFlight × DurableState :=
  let (inFlight, s) := groupBegin config members capture s
  runGroupAppliesParallel inFlight rank outcomes s

/-- A section that may turn its group fatal. -/
abbrev VerdictM := Stateful DurableState Unit

/-- The group goes fatal on any error. -/
def fatalOnError {α : Type} (m : CommitM α) : VerdictM α := zoom id (fun s _ => s) (fun _ => ()) m

/-- The redemption of phase 2: a ticket whose sync failed is fatal, and recorded,
unless the watermark has passed it. `objectMissing` says whether the failed sync
found the active object missing. -/
def redeem (inFlight : DurableGroupInFlight) (sync : Option Bool) (objectMissing : Bool) : VerdictM Unit :=
  match inFlight.ticket, sync with
  | some ticket, some true =>
    modify fun s => { s with wal := WalService.completeGroupSync ticket s.wal }
  | some ticket, some false => do
    when objectMissing (modify fun s => { s with wal := { s.wal with activeObjectLost := true } })
    let durableSeq ← gets (·.wal.durableSeq)
    when (durableSeq < ticket.capturedSeq) do
      modify (recordGroupFailure inFlight.group "write group covering fsync failed after members applied")
      throw ()
  | _, _ => pure ()

/-- The check of the gate and `publish_commit_group`. -/
def publishCommitGroup (group : CommitGroupState) : VerdictM Unit :=
  match group.lastStamp with
  | none => pure ()
  | some last => do
    let unresolved ← gets (·.unresolved)
    when (unresolved.any (·.firstCommitVersion ≤ last.commitVersion)) (throw ())
    -- a later group may have published above this one
    modify fun s => { s with visible := max s.visible last.commitVersion }

/-- The sections of phase 2 for a group that is not fatal yet. -/
def settleGroup (inFlight : DurableGroupInFlight) (sync : Option Bool) (objectMissing : Bool)
    (applied : BranchId → Bool) : VerdictM Unit := do
  inFlight.deferred.forM fun pending =>
    fatalOnError (applyDeferredBranch inFlight.group pending (applied pending.branchId))
  redeem inFlight sync objectMissing
  publishCommitGroup inFlight.group

/-- The response of a member of a group that went fatal. -/
def fatalResponse : Except CommitRuntimeError Commit → Except CommitRuntimeError Commit
  | .ok commit => .error (.durabilityUncertain commit.branchId commit.version
      "write group failed after this member's WAL append; replay must reconcile")
  | .error error => .error error

/-- `execute_durable_commit_group_finish_with_apply_outcome`. -/
def groupFinish (inFlight : DurableGroupInFlight) (sync : Option Bool) (applyFatal : Bool)
    (objectMissing : Bool) (applied : BranchId → Bool) (s : DurableState) :
    List (Except CommitRuntimeError Commit) × DurableState :=
  if ¬inFlight.admitted then (inFlight.results, s)
  else if inFlight.fatal || applyFatal then (inFlight.results.map fatalResponse, s)
  else
    match settleGroup inFlight sync objectMissing applied s with
    | (.ok (), s) => (inFlight.results, s)
    | (.error (), s) => (inFlight.results.map fatalResponse, s)

end Durable

end Strata
