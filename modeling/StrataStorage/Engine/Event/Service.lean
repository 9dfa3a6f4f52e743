import StrataStorage.Engine.Event.Record
import StrataStorage.Engine.Rows

/-!
# The event service

The append paths and the chain check of `data/event/service.rs`. A batch append
validates its entries position by position, stages one record for each valid one
on a copy of the log's metadata and commits the records, their type-index rows
and the new metadata together; a replay append does the same with timestamps of
its own. What one call stages is a function of the metadata it read
(`stageEvents`), so the two loops of the source are one definition that differs
in how a timestamp is chosen.
-/

namespace Strata.Engine

/-! ## Row keys -/

/-- `EVENT_RECORD_DISCRIMINATOR`, `b'e'`. -/
def eventRecordDiscriminator : UInt8 := 0x65

/-- `EVENT_META_DISCRIMINATOR`, `b'E'`. -/
def eventMetaDiscriminator : UInt8 := 0x45

/-- `EVENT_TYPE_INDEX_DISCRIMINATOR`, `b't'`. -/
def eventTypeIndexDiscriminator : UInt8 := 0x74

def encodeEventKey (space : ProductSpace) (sequence : UInt64) : Bytes :=
  encodeUserKey eventRecordDiscriminator space (beBytes 8 sequence.toNat)

def encodeEventSpacePrefix (space : ProductSpace) : Bytes :=
  encodeUserKey eventRecordDiscriminator space []

def encodeEventMetaKey (space : ProductSpace) : Bytes :=
  encodeUserKey eventMetaDiscriminator space (utf8Bytes "meta")

def encodeEventTypeIndexKey (space : ProductSpace) (eventType : EventType) (sequence : UInt64) :
    Bytes :=
  encodeUserKey eventTypeIndexDiscriminator space
    (encodeLengthPrefixedText eventType.text ++ beBytes 8 sequence.toNat)

def decodeEventKeySequence (space : ProductSpace) (encoded : Bytes) : Except EngineError UInt64 := do
  let bytes ← decodeUserKey space encoded eventRecordDiscriminator (.corruption "data_loss.engine.event_key"
      "stored event row key is not valid for the selected product space")
  .require (bytes.length = 8) (.corruption "data_loss.engine.event_key"
      "stored event row key has an invalid sequence length")
  .ok (UInt64.ofNat (ofBeBytes bytes))

/-- The key of an event row. -/
inductive EventKey where
  | record (space : ProductSpace) (sequence : UInt64)
  | metadata (space : ProductSpace)
  | typeIndex (space : ProductSpace) (eventType : EventType) (sequence : UInt64)
  deriving DecidableEq

namespace EventKey

def space : EventKey → ProductSpace
  | record space _ | metadata space | typeIndex space _ _ => space

def rowClass : EventKey → RowClass
  | record .. => .event
  | metadata .. => .eventMetadata
  | typeIndex .. => .eventIndex

def bytes : EventKey → Bytes
  | record space sequence => encodeEventKey space sequence
  | metadata space => encodeEventMetaKey space
  | typeIndex space eventType sequence => encodeEventTypeIndexKey space eventType sequence

def code (key : EventKey) : Bytes := key.rowClass.storageSpaceId :: key.bytes

theorem beBytes_sequence_inj {a b : UInt64} : beBytes 8 a.toNat = beBytes 8 b.toNat ↔ a = b := by
  refine ⟨fun h => UInt64.toNat_inj.mp ?_, fun h => h ▸ rfl⟩
  rw [← ofBeBytes_beBytes (n := 8) a.toNat_lt, ← ofBeBytes_beBytes (n := 8) b.toNat_lt, h]

theorem code_injective : Function.Injective code := by
  intro a b h
  obtain ⟨hclass, hbytes⟩ := List.cons.inj h
  have hclass := RowClass.storageSpaceId_injective hclass
  match a, b, hclass, hbytes with
  | record s n, record s' n', _, hbytes =>
    obtain ⟨-, rfl, hn⟩ := encodeUserKey_inj.mp hbytes
    rw [beBytes_sequence_inj.mp hn]
  | metadata s, metadata s', _, hbytes =>
    obtain ⟨-, rfl, -⟩ := encodeUserKey_inj.mp hbytes
    rfl
  | typeIndex s t n, typeIndex s' t' n', _, hbytes =>
    obtain ⟨-, rfl, hrest⟩ := encodeUserKey_inj.mp hbytes
    obtain ⟨rfl, hn⟩ := encodeName_append_inj.mp hrest
    rw [beBytes_sequence_inj.mp hn]

instance : Coded EventKey := ⟨code, code_injective⟩

end EventKey

theorem decodeEventKeySequence_eq_ok {space : ProductSpace} {encoded : Bytes} {sequence : UInt64} :
    decodeEventKeySequence space encoded = .ok sequence ↔ encoded = encodeEventKey space sequence := by
  simp only [decodeEventKeySequence, Except.bind_eq_ok, decodeUserKey_eq_ok, Except.require_eq_ok,
    Except.ok.injEq, encodeEventKey]
  constructor
  · rintro ⟨bytes, ⟨rfl, -⟩, -, hlen, rfl⟩
    have hlt := ofBeBytes_lt bytes
    have hbytes := beBytes_ofBeBytes bytes
    rw [hlen] at hlt hbytes
    rw [UInt64.toNat_ofNat_of_lt' hlt, hbytes]
  · rintro rfl
    exact ⟨_, ⟨rfl, List.ne_nil_of_length_pos (by simp)⟩, (), by simp,
      by rw [ofBeBytes_beBytes sequence.toNat_lt, UInt64.ofNat_toNat]⟩

variable (space : ProductSpace) (metadata : EventLogMetadata)

theorem decodeEventKeySequence_encode (sequence : UInt64) :
    decodeEventKeySequence space (encodeEventKey space sequence) = .ok sequence :=
  decodeEventKeySequence_eq_ok.mpr rfl

variable {libs : EventLibraries}

/-- The rows of a branch with the event rows among them. -/
abbrev EventRows := BranchRows EventKey Bytes

def typeIndexValue : Bytes := [1]

def readMetadata (libs : EventLibraries) (space : ProductSpace) (branch : EventRows) :
    Except EngineError EventLogMetadata :=
  match branch.rows[EventKey.metadata space]? with
  | none => .ok .default
  | some value => decodeEventMetadata libs value

/-- The least timestamp the next event may have. -/
def timestampFloor : Timestamp :=
  match metadata.lastTimestampMicros with
  | none => 0
  | some last => saturatingAdd last 1

def normalizedEventTimestamp (observed : Timestamp) : Timestamp :=
  max observed (timestampFloor metadata)

/-- A replayed event keeps its timestamp, which must not regress. -/
def replayedEventTimestamp (timestamp : Timestamp) : Except EngineError Timestamp := do
  .require (timestampFloor metadata ≤ timestamp) (.corruption "corruption.engine.artifact_payload"
      "replayed event timestamp regresses below the log's monotonic floor")
  .ok timestamp

/-- The record of one event, behind the log that `metadata` describes. -/
def stageEvent (libs : EventLibraries) (metadata : EventLogMetadata) (eventType : EventType)
    (payload : EventPayload libs.json) (timestamp : Timestamp) :
    Except EngineError (EventRecordEnvelope libs) := do
  let sequence := metadata.nextSequence
  let previousHash := metadata.headHash
  let hash ← computeEventHash libs sequence eventType payload timestamp previousHash
  .ok ⟨sequence, eventType, payload, timestamp, previousHash, hash⟩

/-- An event to append: its type and payload, and the clock reading or the
timestamp that comes with it. -/
structure EventInput (libs : EventLibraries) where
  eventType : EventType
  payload : EventPayload libs.json
  timestamp : Timestamp

/-- The loop of an append: one record for each input, and the metadata behind
them. `stamp` chooses a timestamp from the metadata and the input's. -/
def stageEvents (libs : EventLibraries) (stamp : EventLogMetadata → Timestamp → Except EngineError Timestamp) :
    EventLogMetadata → List (EventInput libs) →
      Except EngineError (EventLogMetadata × List (EventRecordEnvelope libs))
  | metadata, [] => .ok (metadata, [])
  | metadata, input :: inputs => do
    let timestamp ← stamp metadata input.timestamp
    let event ← stageEvent libs metadata input.eventType input.payload timestamp
    let (metadata, events) ← stageEvents libs stamp (metadata.push event) inputs
    .ok (metadata, event :: events)

/-- The mutations of one event: its record and its type-index row. -/
def eventMutations (space : ProductSpace) (event : EventRecordEnvelope libs) : List (Change EventKey Bytes) :=
  [.put (.record space event.sequence) (encodeEventRecord event),
   .put (.typeIndex space event.eventType event.sequence) typeIndexValue]

/-- The mutations of an append. -/
def appendMutations (space : ProductSpace) (metadata : EventLogMetadata)
    (events : List (EventRecordEnvelope libs)) : List (Change EventKey Bytes) :=
  events.flatMap (eventMutations space) ++ [.put (.metadata space) (encodeEventMetadata libs metadata)]

def commitBatch (space : ProductSpace) (mutations : List (Change EventKey Bytes))
    (verdict : CommitVerdict) : Stateful EventRows EngineError Unit := do
  Stateful.lift (Except.require (mutations ≠ []) (.invalidInput "invalid_argument.engine.event_batch"
      "event batch must contain at least one mutation"))
  let branch ← Stateful.gets id
  let spaceMutations ← Stateful.lift (registrationMutations branch.spaces space)
  BranchRows.commit spaceMutations mutations verdict

/-- What both append paths do with the inputs they accepted. -/
def appendInputs (libs : EventLibraries) (space : ProductSpace)
    (stamp : EventLogMetadata → Timestamp → Except EngineError Timestamp)
    (inputs : List (EventInput libs)) (verdict : CommitVerdict) :
    Stateful EventRows EngineError (List (EventRecordEnvelope libs)) := do
  let branch ← Stateful.gets id
  let metadata ← Stateful.lift (readMetadata libs space branch)
  let (metadata, events) ← Stateful.lift (stageEvents libs stamp metadata inputs)
  commitBatch space (appendMutations space metadata events) verdict
  return events

/-- `EventBatchAppendEntry`, with the clock reading that is taken for it. -/
structure EventBatchAppendEntry where
  eventType : String
  payload : JsonValue
  observed : Timestamp

def EventBatchAppendEntry.validate (libs : EventLibraries) (entry : EventBatchAppendEntry) :
    Except EngineError (EventInput libs) := do
  let eventType ← EventType.new entry.eventType
  let payload ← EventPayload.new libs.json entry.payload
  .ok ⟨eventType, payload, entry.observed⟩

inductive EventBatchAppendItemOutcome where
  | success (sequence : UInt64) (eventType : EventType)
  | failure (error : EngineError)

/-- The inputs of the entries that validated. -/
def validInputs (validated : List (Except EngineError (EventInput libs))) : List (EventInput libs) :=
  validated.filterMap Except.toOption

/-- `finalize_batch_items`: the records in order at the positions that validated. -/
def finalizeBatchItems : List (Except EngineError (EventInput libs)) →
    List (EventRecordEnvelope libs) → List EventBatchAppendItemOutcome
  | [], _ => []
  | .error error :: validated, events => .failure error :: finalizeBatchItems validated events
  | .ok _ :: validated, event :: events =>
    .success event.sequence event.eventType :: finalizeBatchItems validated events
  | .ok _ :: validated, [] => finalizeBatchItems validated []

def batchAppend (libs : EventLibraries) (space : ProductSpace)
    (entries : List EventBatchAppendEntry) (verdict : CommitVerdict) :
    Stateful EventRows EngineError (List EventBatchAppendItemOutcome) := do
  let validated := entries.map (EventBatchAppendEntry.validate libs)
  let inputs := validInputs validated
  if inputs = [] then
    return finalizeBatchItems validated []
  else
    let events ← appendInputs libs space
      (fun metadata observed => .ok (normalizedEventTimestamp metadata observed)) inputs verdict
    return finalizeBatchItems validated events

/-- `EventService::append`. An outcome without items does not occur; the source
expects one. -/
def append (libs : EventLibraries) (space : ProductSpace) (input : EventInput libs)
    (verdict : CommitVerdict) : Stateful EventRows EngineError (UInt64 × EventType) := do
  let items ← batchAppend libs space [⟨input.eventType.text, input.payload.toJsonValue, input.timestamp⟩] verdict
  match items with
  | .success sequence _ :: _ => return (sequence, input.eventType)
  | .failure error :: _ => Stateful.throw error
  | [] => Stateful.throw ⟨.internal, "internal.engine.event_append", "one append item"⟩

def replayAppend (libs : EventLibraries) (space : ProductSpace) (entries : List (EventInput libs))
    (verdict : CommitVerdict) : Stateful EventRows EngineError Unit := do
  if entries = [] then
    return ()
  else
    let _ ← appendInputs libs space replayedEventTimestamp entries verdict
    return ()

/-! ## Reading the log -/

/-- `PersistenceReadRow`, without its commit. -/
structure PersistenceReadRow where
  key : Bytes
  value : Option Bytes
  deriving DecidableEq

/-- A visible row as it is read. -/
def readEventRow (row : EventKey × Bytes) : PersistenceReadRow := ⟨row.1.bytes, some row.2⟩

def eventFromRow (libs : EventLibraries) (space : ProductSpace) (row : PersistenceReadRow) :
    Except EngineError (EventRecordEnvelope libs) := do
  let sequence ← decodeEventKeySequence space row.key
  let value ← row.value.okOr (eventRecordLoss "stored event row is missing a value")
  decodeEventRecord libs sequence value

structure EventChainVerification where
  valid : Bool
  length : UInt64
  firstInvalid : Option UInt64
  error : Option String
  deriving DecidableEq

namespace EventChainVerification

/-- `EventChainVerification::valid`. -/
def ofValid (length : UInt64) : EventChainVerification := ⟨true, length, none, none⟩

/-- `EventChainVerification::invalid`. -/
def ofInvalid (length firstInvalid : UInt64) (error : String) : EventChainVerification :=
  ⟨false, length, some firstInvalid, some error⟩

end EventChainVerification

/-- `u64::try_from(n).unwrap_or(u64::MAX)`. -/
def toU64Saturating (n : Nat) : UInt64 := UInt64.ofNat (min n (2 ^ 64 - 1))

/-- The end of `verify_chain_rows`, behind `rowCount` rows. -/
def verifyChainEnd (rowCount : Nat) (previousHash : EventHash) :
    EventChainVerification :=
  let rowCount := toU64Saturating rowCount
  if rowCount ≠ metadata.nextSequence then
    .ofInvalid metadata.nextSequence (min rowCount metadata.nextSequence)
      "event log length does not match metadata"
  else if previousHash ≠ metadata.headHash then
    .ofInvalid metadata.nextSequence (metadata.nextSequence - min 1 metadata.nextSequence)
      "event metadata head hash does not match visible chain"
  else .ofValid metadata.nextSequence

/-- The loop of `verify_chain_rows`, behind `expected` rows that passed. -/
def verifyChainLoop (libs : EventLibraries) (space : ProductSpace) (metadata : EventLogMetadata) :
    Nat → EventHash → List PersistenceReadRow → EventChainVerification
  | expected, previousHash, [] => verifyChainEnd metadata expected previousHash
  | expected, previousHash, row :: rows =>
    let expectedSequence := toU64Saturating expected
    match decodeEventKeySequence space row.key with
    | .error error => .ofInvalid metadata.nextSequence expectedSequence error.message
    | .ok sequence =>
      if sequence ≠ expectedSequence then
        .ofInvalid metadata.nextSequence expectedSequence "event sequence is not dense"
      else match row.value with
        | none => .ofInvalid metadata.nextSequence sequence "stored event row is missing a value"
        | some value =>
          match decodeEventRecord libs sequence value with
          | .error error => .ofInvalid metadata.nextSequence sequence error.message
          | .ok event =>
            if event.previousHash ≠ previousHash then
              .ofInvalid metadata.nextSequence event.sequence "event previous hash does not match prior event"
            else verifyChainLoop libs space metadata (expected + 1) event.hash rows

def verifyChainRows (libs : EventLibraries) (space : ProductSpace) (metadata : EventLogMetadata)
    (rows : List PersistenceReadRow) : EventChainVerification :=
  verifyChainLoop libs space metadata 0 .zero rows

end Strata.Engine
