import StrataStorage.Engine.Key
import StrataStorage.Engine.Json
import StrataStorage.Format.Reader

/-!
# Event records and log metadata

The stored form of an event log (`data/event/types.rs`, `hash.rs`, `record.rs`).
A record holds its sequence, type, payload and timestamp, the hash of the record
before it and the hash of its own contents; the metadata holds the next sequence,
the head hash and one summary for each event type. Both are stored as a version
byte and JSON text.

A stored record is read back if its payload is nested less than the reader's
limit allows, one level of which the record itself takes, and its floats survive
(`decodeEventRecord_encode`); a deeper one is not (`decodeEventRecord_deep`).
Metadata is always read back (`decodeEventMetadata_encode`).
-/

namespace Strata.Engine

/-! ## Event types and payloads -/

def maxEventTypeBytes : Nat := 256

def maxEventPayloadBytes : Nat := 16 * 1024 * 1024

/-- The checks of `EventType::new`; trimming leaves nothing exactly if every
character is white space. -/
def EventType.validate (eventType : String) : Except EngineError Unit := do
  .require (¬(eventType.toList.all isWhitespace = true))
    (.invalidInput "invalid_argument.engine.event_type" "event type must not be empty")
  .require ((utf8Bytes eventType).length ≤ maxEventTypeBytes)
    (.invalidInput "invalid_argument.engine.event_type" "event type exceeds the maximum length")
  .require (0 ∉ utf8Bytes eventType) (.invalidInput "invalid_argument.engine.event_type"
      "event type contains an unsupported control byte")

/-- `EventType`: a name that passed its checks. -/
abbrev EventType := ValidText EventType.validate

def EventType.new (eventType : String) : Except EngineError EventType := ValidText.new eventType

theorem EventType.new_text (eventType : EventType) : new eventType.text = .ok eventType :=
  ValidText.new_eq_ok.mpr rfl

theorem EventType.length_le (eventType : EventType) : (utf8Bytes eventType.text).length ≤ maxEventTypeBytes := by
  have h := eventType.valid
  simp only [validate, Except.check_bind_eq_ok, Except.require_eq_ok] at h
  exact h.2.1

instance : ShortText EventType.validate :=
  ⟨fun _ h => Nat.lt_of_le_of_lt (EventType.length_le ⟨_, h⟩) (by decide)⟩

mutual

def containsNonFiniteFloat : Json → Bool
  | .number (.float bits) => !isFinite bits
  | .array elements => anyElementNonFinite elements
  | .object fields => anyFieldNonFinite fields
  | _ => false

def anyElementNonFinite : List Json → Bool
  | [] => false
  | element :: elements => containsNonFiniteFloat element || anyElementNonFinite elements

def anyFieldNonFinite : List (String × Json) → Bool
  | [] => false
  | (_, value) :: fields => containsNonFiniteFloat value || anyFieldNonFinite fields

end

/-- The checks of `EventPayload::new`. -/
def EventPayload.validate (format : JsonFormat) (value : Json) : Except EngineError Unit := do
  .require (value.isObject = true)
    (.invalidInput "invalid_argument.engine.event_payload" "event payload must be a JSON object")
  .require (¬(containsNonFiniteFloat value = true)) (.invalidInput "invalid_argument.engine.event_payload"
      "event payload must not contain non-finite floats")
  .require ((format.toVec value).length ≤ maxEventPayloadBytes)
    (.invalidInput "invalid_argument.engine.event_payload_too_large"
      "event payload exceeds the maximum encoded size")

/-- `EventPayload`: a value that passed its checks. -/
structure EventPayload (format : JsonFormat) extends JsonValue where
  valid : EventPayload.validate format json = .ok ()

def EventPayload.new (format : JsonFormat) (value : JsonValue) : Except EngineError (EventPayload format) :=
  match h : EventPayload.validate format value.json with
  | .error e => .error e
  | .ok () => .ok ⟨value, h⟩

variable {format : JsonFormat}

theorem EventPayload.new_value (payload : EventPayload format) : new format payload.toJsonValue = .ok payload := by
  unfold new
  split
  · rename_i h
    rw [payload.valid] at h
    cases h
  · rfl

theorem EventPayload.ext_json {a b : EventPayload format} (h : a.json = b.json) : a = b := by
  obtain ⟨⟨_, _⟩, _⟩ := a
  obtain ⟨⟨_, _⟩, _⟩ := b
  cases h
  rfl

/-- The payload is read back from a stored record: the record takes one level of
the reader's limit. -/
def EventPayload.Survives {format : JsonFormat} (payload : EventPayload format) : Prop :=
  payload.json.depth + 1 < jsonRecursionLimit ∧ payload.json.FloatsSurvive format

/-! ## Hashes -/

/-- `EventHash`, 32 bytes. -/
structure EventHash where
  bytes : Bytes
  length_bytes : bytes.length = 32
  deriving DecidableEq

/-- `[0; 32]`, the previous hash of the first event. -/
def EventHash.zero : EventHash := ⟨List.replicate 32 0, by decide⟩

/-- Read a hash back from its bytes. -/
def EventHash.ofBytes? (bytes : Bytes) : Option EventHash :=
  if h : bytes.length = 32 then some ⟨bytes, h⟩ else none

@[simp] theorem EventHash.ofBytes?_bytes (hash : EventHash) : ofBytes? hash.bytes = some hash := by
  simp [ofBytes?, hash.length_bytes]

/-- The libraries of the event log: JSON text and SHA-256. -/
structure EventLibraries where
  json : JsonFormat
  sha256 : Bytes → EventHash

variable {libs : EventLibraries}

def computeEventHash (libs : EventLibraries) (sequence : UInt64) (eventType : EventType)
    (payload : EventPayload libs.json) (timestampMicros : Timestamp) (previousHash : EventHash) :
    Except EngineError EventHash := do
  let typeBytes := utf8Bytes eventType.text
  .require (typeBytes.length < 2 ^ 32)
    (.invalidInput "invalid_argument.engine.event_type" "event type is too long to hash")
  let payloadBytes := libs.json.toVec payload.json
  .require (payloadBytes.length < 2 ^ 32)
    (.invalidInput "invalid_argument.engine.event_payload" "event payload is too large to hash")
  .ok (libs.sha256 (leBytes 8 sequence.toNat ++ (leBytes 4 typeBytes.length ++ (typeBytes ++
    (leBytes 8 timestampMicros.toNat ++ (leBytes 4 payloadBytes.length ++
      (payloadBytes ++ previousHash.bytes)))))))

/-! ## Records -/

structure EventRecordEnvelope (libs : EventLibraries) where
  sequence : UInt64
  eventType : EventType
  payload : EventPayload libs.json
  timestamp : Timestamp
  previousHash : EventHash
  hash : EventHash

/-- The record's hash is the hash of its contents. -/
def EventRecordEnvelope.HashOfContents (record : EventRecordEnvelope libs) : Prop :=
  computeEventHash libs record.sequence record.eventType record.payload record.timestamp
    record.previousHash = .ok record.hash

def eventRecordFormatVersion : UInt8 := 1

def eventMetadataFormatVersion : UInt8 := 1

def hashVersion : UInt8 := 1

/-- `StoredEventRecord` as serde writes it. -/
def storedEventRecord (record : EventRecordEnvelope libs) : Json :=
  .object [("sequence", .ofU64 record.sequence), ("event_type", .string record.eventType.text),
     ("payload", record.payload.json),
     ("timestamp", .ofU64 record.timestamp),
     ("previous_hash", .ofBytes record.previousHash.bytes),
     ("hash", .ofBytes record.hash.bytes)]

def encodeEventRecord (record : EventRecordEnvelope libs) : Bytes :=
  eventRecordFormatVersion :: libs.json.toVec (storedEventRecord record)

/-- The fields of a `StoredEventRecord`. -/
structure StoredEventRecord where
  sequence : UInt64
  eventType : String
  payload : JsonValue
  timestamp : UInt64
  previousHash : EventHash
  hash : EventHash

def StoredEventRecord.fieldNames : List String :=
  ["sequence", "event_type", "payload", "timestamp", "previous_hash", "hash"]

/-- Read a `StoredEventRecord` from a document. -/
def StoredEventRecord.ofJson (document : Json) : Option StoredEventRecord :=
  match document.fields? fieldNames with
  | some [sequence, eventType, payload, timestamp, previousHash, hash] => do
    let sequence ← sequence.u64?
    let eventType ← eventType.string?
    let timestamp ← timestamp.u64?
    let previousHash ← EventHash.ofBytes? (← previousHash.bytes?)
    let hash ← EventHash.ofBytes? (← hash.bytes?)
    some ⟨sequence, eventType, payload.value, timestamp, previousHash, hash⟩
  | _ => none

/-- An error of `decode_event_record`. -/
def eventRecordLoss (message : String) : EngineError :=
  .corruption "data_loss.engine.event_record" message

def decodeEventRecord (libs : EventLibraries) (expectedSequence : UInt64) (bytes : Bytes) :
    Except EngineError (EventRecordEnvelope libs) := do
  .require (bytes.head? = some eventRecordFormatVersion)
    (eventRecordLoss "stored event record has an unknown format version")
  let stored ← match (libs.json.fromSlice bytes.tail).bind StoredEventRecord.ofJson with
    | none => .error (eventRecordLoss "stored event record cannot be decoded")
    | some stored => .ok stored
  .require (stored.sequence = expectedSequence)
    (eventRecordLoss "stored event sequence does not match its row key")
  let eventType ← (EventType.new stored.eventType).mapError fun _ =>
    eventRecordLoss "stored event type violates engine limits"
  let payload ← (EventPayload.new libs.json stored.payload).mapError fun _ =>
    eventRecordLoss "stored event payload violates engine limits"
  let computed ← computeEventHash libs stored.sequence eventType payload stored.timestamp stored.previousHash
  .require (computed = stored.hash) (eventRecordLoss "stored event hash does not match its content")
  .ok ⟨expectedSequence, eventType, payload, stored.timestamp, stored.previousHash, stored.hash⟩

variable {record : EventRecordEnvelope libs}

theorem depth_storedEventRecord : (storedEventRecord record).depth = max record.payload.json.depth 1 + 1 := by
  simp [storedEventRecord, Json.depth, Json.depthFields]

theorem wellFormed_storedEventRecord : (storedEventRecord record).WellFormed := by
  have hpayload : record.payload.json.Checked List.Nodup := record.payload.isValue.wellFormed
  simp [storedEventRecord, Json.WellFormed, Json.Checked, Json.CheckedFields, hpayload]

theorem ofJson_storedEventRecord : StoredEventRecord.ofJson (storedEventRecord record) =
      some ⟨record.sequence, record.eventType.text, record.payload.toJsonValue, record.timestamp,
        record.previousHash, record.hash⟩ := by
  simp [StoredEventRecord.ofJson, StoredEventRecord.fieldNames, storedEventRecord, Json.fields?, Json.field?,
    Json.string?, JsonValue.value_json]

theorem decodeEventRecord_encode (hlib : libs.json.Documented) (hsurvives : record.payload.Survives)
    (hhash : record.HashOfContents) :
    decodeEventRecord libs record.sequence (encodeEventRecord record) = .ok record := by
  have hdepth : (storedEventRecord record).depth < jsonRecursionLimit := by
    have := hsurvives.1
    rw [depth_storedEventRecord]
    unfold jsonRecursionLimit at *
    omega
  have hfloats : (storedEventRecord record).mapFloats libs.json.reparse = storedEventRecord record := by
    have hpayload : record.payload.json.mapFloats libs.json.reparse = record.payload.json := hsurvives.2
    simp [storedEventRecord, Json.mapFloats, Json.mapFloatsFields, hpayload]
  have hread := hlib.fromSlice_eq_some wellFormed_storedEventRecord hdepth hfloats
  unfold EventRecordEnvelope.HashOfContents at hhash
  simp [decodeEventRecord, encodeEventRecord, hread, ofJson_storedEventRecord,
    EventType.new_text, EventPayload.new_value, Except.mapError, hhash, Except.require]

def saturatingAdd (a b : UInt64) : UInt64 :=
  if a.toNat + b.toNat < 2 ^ 64 then a + b else 0xFFFFFFFFFFFFFFFF

theorem toNat_saturatingAdd (a b : UInt64) : (saturatingAdd a b).toNat = min (a.toNat + b.toNat) (2 ^ 64 - 1) := by
  unfold saturatingAdd
  split
  · rw [UInt64.toNat_add, Nat.mod_eq_of_lt (by assumption)]
    omega
  · simp only [UInt64.toNat_ofNat]
    omega

structure EventTypeSummary where
  count : UInt64
  firstSequence : UInt64
  lastSequence : UInt64
  firstTimestamp : Timestamp
  lastTimestamp : Timestamp
  deriving DecidableEq, Repr

namespace EventTypeSummary

def new (sequence : UInt64) (timestamp : Timestamp) : EventTypeSummary :=
  ⟨1, sequence, sequence, timestamp, timestamp⟩

def update (summary : EventTypeSummary) (sequence : UInt64) (timestamp : Timestamp) :
    EventTypeSummary :=
  { summary with
    count := saturatingAdd summary.count 1
    lastSequence := sequence
    lastTimestamp := timestamp }

/-- The entry of a type behind one more event: updated, or new. -/
def next (sequence : UInt64) (timestamp : Timestamp) : Option EventTypeSummary → EventTypeSummary
  | some summary => summary.update sequence timestamp
  | none => new sequence timestamp

@[simp] theorem lastTimestamp_next (sequence : UInt64) (timestamp : Timestamp)
    (summary : Option EventTypeSummary) : (next sequence timestamp summary).lastTimestamp = timestamp := by
  cases summary <;> rfl

def validate (summary : EventTypeSummary) : Bool :=
  0 < summary.count && summary.firstSequence ≤ summary.lastSequence &&
    summary.firstTimestamp ≤ summary.lastTimestamp

theorem validate_eq_true {summary : EventTypeSummary} :
    summary.validate = true ↔ 0 < summary.count ∧ summary.firstSequence ≤ summary.lastSequence ∧
      summary.firstTimestamp ≤ summary.lastTimestamp := by
  simp [validate, and_assoc]

/-- A summary as serde writes it. -/
def toJson (summary : EventTypeSummary) : Json :=
  .object [("count", .ofU64 summary.count), ("first_sequence", .ofU64 summary.firstSequence),
     ("last_sequence", .ofU64 summary.lastSequence),
     ("first_timestamp", .ofU64 summary.firstTimestamp),
     ("last_timestamp", .ofU64 summary.lastTimestamp)]

def fieldNames : List String := ["count", "first_sequence", "last_sequence", "first_timestamp", "last_timestamp"]

def ofJson (document : Json) : Option EventTypeSummary :=
  match document.fields? fieldNames with
  | some [count, firstSequence, lastSequence, firstTimestamp, lastTimestamp] => do
    some ⟨← count.u64?, ← firstSequence.u64?, ← lastSequence.u64?, ← firstTimestamp.u64?, ← lastTimestamp.u64?⟩
  | _ => none

@[simp] theorem ofJson_toJson (summary : EventTypeSummary) : ofJson summary.toJson = some summary := by
  simp [ofJson, fieldNames, toJson, Json.fields?, Json.field?]

@[simp] theorem wellFormed_toJson (summary : EventTypeSummary) : summary.toJson.WellFormed := by
  simp [toJson, Json.WellFormed, Json.Checked, Json.CheckedFields]

@[simp] theorem mapFloats_toJson (f : UInt64 → UInt64) (summary : EventTypeSummary) :
    summary.toJson.mapFloats f = summary.toJson := by
  simp [toJson, Json.mapFloats, Json.mapFloatsFields]

@[simp] theorem depth_toJson (summary : EventTypeSummary) : summary.toJson.depth = 1 := by
  simp [toJson, Json.depth, Json.depthFields]

end EventTypeSummary

structure EventLogMetadata where
  nextSequence : UInt64
  headHash : EventHash
  hashVersion : UInt8
  summaries : Std.ExtTreeMap String EventTypeSummary

namespace EventLogMetadata

def default : EventLogMetadata := ⟨0, .zero, Engine.hashVersion, ∅⟩

def lastTimestampMicros (metadata : EventLogMetadata) : Option Timestamp :=
  (metadata.summaries.toList.map (·.2.lastTimestamp)).max?

def push (metadata : EventLogMetadata) (record : EventRecordEnvelope libs) : EventLogMetadata where
  nextSequence := saturatingAdd record.sequence 1
  headHash := record.hash
  hashVersion := Engine.hashVersion
  summaries := metadata.summaries.insert record.eventType.text
    (.next record.sequence record.timestamp metadata.summaries[record.eventType.text]?)

def validate (metadata : EventLogMetadata) : Bool :=
  metadata.hashVersion == Engine.hashVersion && metadata.summaries.toList.all fun entry =>
      entry.2.validate && entry.2.lastSequence < metadata.nextSequence

/-- `StoredEventMetadata` as serde writes it. -/
def toJson (metadata : EventLogMetadata) : Json :=
  .object [("next_sequence", .ofU64 metadata.nextSequence), ("head_hash", .ofBytes metadata.headHash.bytes),
     ("hash_version", .ofU64 metadata.hashVersion.toUInt64),
     ("summaries", .object (metadata.summaries.toList.map fun entry => (entry.1, entry.2.toJson)))]

def summaryOfField (field : String × Json) : Option (String × EventTypeSummary) :=
  (EventTypeSummary.ofJson field.2).map (field.1, ·)

/-- Read a map of summaries; of a repeated key the last one stays. -/
def summariesOfJson : Json → Option (Std.ExtTreeMap String EventTypeSummary)
  | .object fields => (fields.mapM summaryOfField).map (.ofList ·)
  | _ => none

def fieldNames : List String := ["next_sequence", "head_hash", "hash_version", "summaries"]

def ofJson (document : Json) : Option EventLogMetadata :=
  match document.fields? fieldNames with
  | some [nextSequence, headHash, hashVersion, summaries] => do
    let nextSequence ← nextSequence.u64?
    let headHash ← EventHash.ofBytes? (← headHash.bytes?)
    let hashVersion ← hashVersion.u8?
    let summaries ← summariesOfJson summaries
    some ⟨nextSequence, headHash, hashVersion, summaries⟩
  | _ => none

theorem summariesOfJson_object (summaries : Std.ExtTreeMap String EventTypeSummary) :
    summariesOfJson (.object (summaries.toList.map fun entry => (entry.1, entry.2.toJson))) = some summaries := by
  have h : ∀ entries : List (String × EventTypeSummary),
      (entries.map fun entry => (entry.1, entry.2.toJson)).mapM summaryOfField = some entries := by
    intro entries
    induction entries with
    | nil => rfl
    | cons entry entries ih => simp [summaryOfField, ih]
  rw [summariesOfJson, h, Option.map_some, Std.ExtTreeMap.ofList_toList]

theorem ofJson_toJson (metadata : EventLogMetadata) : ofJson metadata.toJson = some metadata := by
  simp [ofJson, fieldNames, toJson, Json.fields?, Json.field?, summariesOfJson_object]

theorem wellFormed_toJson (metadata : EventLogMetadata) : metadata.toJson.WellFormed := by
  have hnames : ((metadata.summaries.toList.map fun entry => (entry.1, entry.2.toJson)).map (·.1)).Nodup := by
    rw [List.map_map]
    refine List.pairwise_map.mpr (Std.ExtTreeMap.distinct_keys_toList.imp fun hne heq => hne ?_)
    exact Std.compare_eq_iff_eq.mpr heq
  have hsummaries : Json.CheckedFields List.Nodup
      (metadata.summaries.toList.map fun entry => (entry.1, entry.2.toJson)) := by
    refine Json.checkedFields_iff.mpr fun field hfield => ?_
    obtain ⟨entry, -, rfl⟩ := List.mem_map.mp hfield
    exact entry.2.wellFormed_toJson
  exact ⟨by simp, trivial, Json.checked_ofBytes _, trivial, ⟨hnames, hsummaries⟩, trivial⟩

theorem mapFloats_toJson (f : UInt64 → UInt64) (metadata : EventLogMetadata) :
    metadata.toJson.mapFloats f = metadata.toJson := by
  have h : Json.mapFloatsFields f (metadata.summaries.toList.map fun entry => (entry.1, entry.2.toJson)) =
      metadata.summaries.toList.map fun entry => (entry.1, entry.2.toJson) := by
    apply Json.mapFloatsFields_eq_self
    intro field hfield
    obtain ⟨entry, -, rfl⟩ := List.mem_map.mp hfield
    exact entry.2.mapFloats_toJson f
  simp [toJson, Json.mapFloats, Json.mapFloatsFields, h]

theorem depth_toJson_le (metadata : EventLogMetadata) : metadata.toJson.depth ≤ 3 := by
  have h : Json.depthFields (metadata.summaries.toList.map fun entry => (entry.1, entry.2.toJson)) ≤ 1 := by
    apply Json.depthFields_le
    intro field hfield
    obtain ⟨entry, -, rfl⟩ := List.mem_map.mp hfield
    exact Nat.le_of_eq entry.2.depth_toJson
  simp only [toJson, Json.depth, Json.depthFields, Json.depth_ofU64, Json.depth_ofBytes]
  omega

end EventLogMetadata

def encodeEventMetadata (libs : EventLibraries) (metadata : EventLogMetadata) : Bytes :=
  eventMetadataFormatVersion :: libs.json.toVec metadata.toJson

/-- An error of `decode_event_metadata`. -/
def eventMetadataLoss (message : String) : EngineError :=
  .corruption "data_loss.engine.event_metadata" message

def decodeEventMetadata (libs : EventLibraries) (bytes : Bytes) : Except EngineError EventLogMetadata := do
  .require (bytes.head? = some eventMetadataFormatVersion)
    (eventMetadataLoss "stored event metadata has an unknown format version")
  let metadata ← match (libs.json.fromSlice bytes.tail).bind EventLogMetadata.ofJson with
    | none => .error (eventMetadataLoss "stored event metadata cannot be decoded")
    | some metadata => .ok metadata
  .require (metadata.validate = true) (eventMetadataLoss "stored event metadata violates engine invariants")
  .ok metadata

theorem decodeEventMetadata_encode (hlib : libs.json.Documented) {metadata : EventLogMetadata}
    (hvalid : metadata.validate = true) :
    decodeEventMetadata libs (encodeEventMetadata libs metadata) = .ok metadata := by
  have hdepth : metadata.toJson.depth < jsonRecursionLimit :=
    Nat.lt_of_le_of_lt metadata.depth_toJson_le (by decide)
  have hread := hlib.fromSlice_eq_some metadata.wellFormed_toJson hdepth (metadata.mapFloats_toJson _)
  simp [decodeEventMetadata, encodeEventMetadata, hread, EventLogMetadata.ofJson_toJson, hvalid, Except.require]

end Strata.Engine
