import StrataStorage.Commit.Batch

/-!
# Commit timeline rows

`commit/timeline.rs`: older logs hold, for each commit, a pair of storage-owned
rows that map its timestamp to its version and back. Commits do not write them any
more; `CommitTimelineFact.validate` reads one of them back and checks that its key,
its value and its commit facts agree.
-/

namespace Strata

theorem commitTimelineId_ne_zero : (0x01 : UInt8) ≠ 0 := by decide

def StorageSpaceId.commitTimeline : StorageSpaceId := ⟨0x01, commitTimelineId_ne_zero⟩

/-- `is_storage_owned`; the invalid id is not a value of the type. -/
def StorageSpaceId.isStorageOwned (id : StorageSpaceId) : Bool := id.raw < storageEngineMinId

def commitTimelineSpace : String := "timeline"

/-- The bytes of `ts-v1` and a zero. -/
def timestampIndexPrefix : Bytes := [0x74, 0x73, 0x2d, 0x76, 0x31, 0x00]

/-- The bytes of `ver-v1` and a zero. -/
def versionIndexPrefix : Bytes := [0x76, 0x65, 0x72, 0x2d, 0x76, 0x31, 0x00]

structure CommitTimelineEntry where
  branchId : BranchId
  commitVersion : CommitVersion
  commitTimestamp : Timestamp
  deriving DecidableEq

inductive CommitTimelineRowKind where
  | timestampToVersion
  | versionToTimestamp
  deriving DecidableEq

structure CommitTimelineFact where
  entry : CommitTimelineEntry
  kind : CommitTimelineRowKind
  deriving DecidableEq

def CommitTimelineEntry.new (branchId : BranchId) (commitVersion : CommitVersion)
    (commitTimestamp : Timestamp) : Except CommitRuntimeError CommitTimelineEntry := do
  .require (commitVersion ≠ 0) (.invalidTimelineFact "commit version must be nonzero")
  .ok ⟨branchId, commitVersion, commitTimestamp⟩

def CommitTimelineEntry.fromStamp (stamp : CommitStamp) : Except CommitRuntimeError CommitTimelineEntry :=
  CommitTimelineEntry.new stamp.branchId stamp.commitVersion stamp.commitTimestamp

def isTimelineCandidate (row : StorageRow) : Bool :=
  row.physicalKey.storageSpaceId = .commitTimeline

def requireTimelineRowShape (row : StorageRow) : Except CommitRuntimeError Unit := do
  .require (isTimelineCandidate row) (.invalidTimelineFact "timeline row uses the wrong storage space")
  .require (row.physicalKey.space = commitTimelineSpace)
    (.invalidTimelineFact "timeline row uses the wrong physical key space")
  .require (!row.isTombstone) (.invalidTimelineFact "timeline row must be a put row")
  .require (row.expiresAt = Timestamp.epoch) (.invalidTimelineFact "timeline row must not expire")
  .require (row.commitVersion ≠ 0) (.invalidTimelineFact "timeline row version must be nonzero")

def decodeU64 (bytes : Bytes) : Except CommitRuntimeError UInt64 := do
  .require (bytes.length = 8) (.invalidTimelineFact "timeline integer has invalid length")
  .ok (UInt64.ofNat (ofBeBytes bytes))

def decodeExactValue (bytes : Bytes) : Except CommitRuntimeError UInt64 := do
  .require (bytes.length = 8) (.invalidTimelineFact "timeline value has invalid length")
  decodeU64 bytes

def decodeTimestampIndexFact (row : StorageRow) (keyRest : Bytes) :
    Except CommitRuntimeError CommitTimelineFact := do
  .require (keyRest.length = 16) (.invalidTimelineFact "timestamp timeline key has invalid length")
  let timestamp ← decodeU64 (keyRest.take 8)
  let keyVersion ← decodeU64 (keyRest.drop 8)
  let valueVersion ← decodeExactValue row.value
  .require (keyVersion = valueVersion) (.invalidTimelineFact "timestamp timeline key and value disagree")
  .require (row.commitVersion = keyVersion)
    (.invalidTimelineFact "timestamp timeline row version disagrees with key")
  .require (row.commitTimestamp = timestamp)
    (.invalidTimelineFact "timestamp timeline row timestamp disagrees with key")
  let entry ← CommitTimelineEntry.new row.physicalKey.branchId keyVersion timestamp
  .ok ⟨entry, .timestampToVersion⟩

def decodeVersionIndexFact (row : StorageRow) (keyRest : Bytes) :
    Except CommitRuntimeError CommitTimelineFact := do
  .require (keyRest.length = 8) (.invalidTimelineFact "version timeline key has invalid length")
  let keyVersion ← decodeU64 keyRest
  let timestamp ← decodeExactValue row.value
  .require (row.commitVersion = keyVersion)
    (.invalidTimelineFact "version timeline row version disagrees with key")
  .require (row.commitTimestamp = timestamp)
    (.invalidTimelineFact "version timeline row timestamp disagrees with value")
  let entry ← CommitTimelineEntry.new row.physicalKey.branchId keyVersion timestamp
  .ok ⟨entry, .versionToTimestamp⟩

def CommitTimelineFact.validate (row : StorageRow) : Except CommitRuntimeError CommitTimelineFact := do
  requireTimelineRowShape row
  match row.physicalKey.userKey.dropPrefix? timestampIndexPrefix with
  | some rest => decodeTimestampIndexFact row rest
  | none =>
    match row.physicalKey.userKey.dropPrefix? versionIndexPrefix with
    | some rest => decodeVersionIndexFact row rest
    | none => .error (.invalidTimelineFact "timeline row has unknown key prefix")

end Strata
