import StrataStorage.Format.Wal

/-!
# Segments of the write-ahead log

`service/wal.rs`: how a record becomes a frame of a segment, and how the bytes
of a segment are read back. A segment is a header followed by frames. Only the
latest segment may end in a torn frame; the reader reports where the valid part
ends (`decodeSegmentRecords_append`, `decodeSegmentBytes_segmentBytes`).
-/

namespace Strata

open Except List

variable {record : WalRecord} {offset : Nat} {records : List WalRecord}

inductive WalOperation where
  | open
  | createSegment
  | append
  | sync
  | repair
  | list
  | read
  | flush
  deriving DecidableEq

/-- `WalServiceError`. An object is named by the id of its segment; a backend
error of the kind "not found" is `objectMissing`. -/
inductive WalServiceError where
  | backend (operation : WalOperation) (segmentId : Nat)
  | publish (operation : WalOperation)
  | format (operation : WalOperation) (segmentId : Nat) (source : FormatError)
  | databaseMismatch (segmentId : Nat)
  | recordTooLarge (bytes segmentSize : Nat)
  | unexpectedAppendOffset (segmentId expected actual : Nat)
  | segmentInventoryGap (missingSegment : Nat)
  | repairUncertain (segmentId : Nat)
  | activeObjectLost (segmentId : Nat)
  | objectMissing (operation : WalOperation) (segmentId : Nat)
  | truncationSegmentMismatch (segmentId activeSegmentId : Nat)
  | invalidTruncation (segmentId validEndOffset objectSize : Nat)
  deriving DecidableEq

/-- Where the valid part of the latest segment ends. -/
structure WalTruncation where
  segmentId : Nat
  validEndOffset : Nat
  objectSize : Nat
  deriving DecidableEq

structure WalRead where
  records : List WalRecord
  truncation : Option WalTruncation

/-- `encode_record_frame`: the envelope of the encoded record. -/
def encodeRecordFrame (crc32 : Bytes → UInt32) (segmentId : Nat) (record : WalRecord) :
    Except WalServiceError Bytes :=
  (encodeWalRecord crc32 record >>= encodeWalRecordEnvelopeBytes crc32).mapError (.format .append segmentId)

/-- The record a frame holds: the middle of the loop of `decode_segment_bytes`. -/
def decodeFramedRecord (crc32 : Bytes → UInt32) (encodedRecord : Bytes) : Except FormatError WalRecord := do
  let (record, consumed) ← decodeWalRecord crc32 encodedRecord
  .require (consumed = encodedRecord.length) (.trailingData walRecordFormat (encodedRecord.length - consumed))
  .ok record

/-- The record loop of `decode_segment_bytes`, from `offset` on. -/
def decodeSegmentRecords (crc32 : Bytes → UInt32) (operation : WalOperation) (segmentId : Nat)
    (isLatest : Bool) (offset : Nat) (bytes : Bytes) : Except WalServiceError WalRead :=
  if bytes = [] then .ok ⟨[], none⟩
  else
    match _h : decodeWalRecordEnvelope crc32 bytes with
    | .error (.insufficientBytes format needed actual) =>
      -- A short frame at the end of an older segment is corruption: later
      -- segments depend on it.
      if isLatest then .ok ⟨[], some ⟨segmentId, offset, offset + bytes.length⟩⟩
      else .error (.format operation segmentId (.insufficientBytes format needed actual))
    | .error source => .error (.format operation segmentId source)
    | .ok (encodedRecord, envelopeLen) => do
      let record ← (decodeFramedRecord crc32 encodedRecord).mapError (.format operation segmentId)
      let read ← decodeSegmentRecords crc32 operation segmentId isLatest (offset + envelopeLen)
        (bytes.drop envelopeLen)
      .ok ⟨record :: read.records, read.truncation⟩
termination_by bytes.length
decreasing_by
  have := lt_of_decodeWalRecordEnvelope _h
  rw [List.length_drop]
  omega

def decodeSegmentBytes (crc32 : Bytes → UInt32) (databaseId : Bytes) (operation : WalOperation)
    (segmentId : Nat) (bytes : Bytes) (isLatest : Bool) : Except WalServiceError WalRead := do
  let (header, offset) ← (decodeWalSegmentHeader crc32 bytes (some (UInt64.ofNat segmentId))).mapError
    (.format operation segmentId)
  .require (header.databaseId = databaseId) (.databaseMismatch segmentId)
  decodeSegmentRecords crc32 operation segmentId isLatest offset (bytes.drop offset)

variable {crc32 : Bytes → UInt32} {operation : WalOperation} {segmentId : Nat} {isLatest : Bool}
  {databaseId : Bytes}

/-- The frame of a record. -/
def WalRecord.frame (crc32 : Bytes → UInt32) (record : WalRecord) : Bytes :=
  walEnvelope crc32 (walFrame crc32 walRecordFormatVersion record.fields)

/-- The records the log can hold and give back. -/
def WalRecord.Framed (record : WalRecord) : Prop :=
  record.commitPayload.Fits ∧ record.committedAt ≠ some 0

theorem WalRecord.frame_pos (crc32 : Bytes → UInt32) (record : WalRecord) : 0 < (record.frame crc32).length := by
  simp [frame]

theorem WalRecord.length_walFrame_lt (h : record.commitPayload.Fits) :
    (walFrame crc32 walRecordFormatVersion record.fields).length < 2 ^ 32 := by
  have hfits := h.2
  rw [maxWalCommitPayloadBytes] at hfits
  rw [length_walFrame, record.length_fields]
  omega

theorem WalRecord.walFrame_ne_nil : walFrame crc32 walRecordFormatVersion record.fields ≠ [] := by
  rw [← length_pos_iff, length_walFrame]; omega

theorem encodeRecordFrame_eq_ok {bytes : Bytes} : encodeRecordFrame crc32 segmentId record = .ok bytes ↔
      record.commitPayload.Fits ∧ bytes = record.frame crc32 := by
  simp only [encodeRecordFrame, mapError_eq_ok, bind_eq_ok, encodeWalRecord_eq_ok,
    encodeWalRecordEnvelopeBytes_eq_ok]
  constructor
  · rintro ⟨_, ⟨hfits, rfl⟩, -, rfl⟩
    exact ⟨hfits, rfl⟩
  · rintro ⟨hfits, rfl⟩
    exact ⟨_, ⟨hfits, rfl⟩, ⟨WalRecord.walFrame_ne_nil, WalRecord.length_walFrame_lt hfits⟩, rfl⟩

theorem decodeFramedRecord_walFrame (h : record.Framed) :
    decodeFramedRecord crc32 (walFrame crc32 walRecordFormatVersion record.fields) = .ok record := by
  have hdecode := (decodeWalRecord_eq_ok.mpr ⟨h.2, _, [], (append_nil _).symm,
    encodeWalRecord_eq_ok.mpr ⟨h.1, rfl⟩, rfl⟩ : decodeWalRecord crc32
      (walFrame crc32 walRecordFormatVersion record.fields) = _ ∧ _).1
  simp [decodeFramedRecord, hdecode, require]

theorem decodeSegmentRecords_nil :
    decodeSegmentRecords crc32 operation segmentId isLatest offset [] = .ok ⟨[], none⟩ := by
  rw [decodeSegmentRecords, if_pos rfl]

theorem decodeSegmentRecords_frame (h : record.Framed) (tail : Bytes) :
    decodeSegmentRecords crc32 operation segmentId isLatest offset (record.frame crc32 ++ tail) =
      (decodeSegmentRecords crc32 operation segmentId isLatest (offset + (record.frame crc32).length) tail).map
          fun read => ⟨record :: read.records, read.truncation⟩ := by
  have hdecode : decodeWalRecordEnvelope crc32 (record.frame crc32 ++ tail) = _ :=
    decodeWalRecordEnvelope_walEnvelope WalRecord.walFrame_ne_nil (WalRecord.length_walFrame_lt h.1) tail
  have hframe : record.frame crc32 ++ tail ≠ [] := by
    rw [← length_pos_iff, length_append]
    have := record.frame_pos crc32
    omega
  rw [decodeSegmentRecords, if_neg hframe]
  split
  · rename_i heq; rw [hdecode] at heq; cases heq
  · rename_i heq; rw [hdecode] at heq; cases heq
  · rename_i heq
    rw [hdecode] at heq
    cases heq
    rw [decodeFramedRecord_walFrame h]
    change (decodeSegmentRecords crc32 operation segmentId isLatest (offset + (record.frame crc32).length)
      ((record.frame crc32 ++ tail).drop (record.frame crc32).length) >>= _) = _
    rw [drop_left]
    cases decodeSegmentRecords crc32 operation segmentId isLatest
      (offset + (record.frame crc32).length) tail <;> rfl

/-- A frame that is cut is the torn tail of the latest segment, and corruption of
an older one. -/
theorem decodeSegmentRecords_take (h : record.commitPayload.Fits) {n : Nat} (hpos : 0 < n)
    (hn : n < (record.frame crc32).length) :
    ∃ source, decodeSegmentRecords crc32 operation segmentId isLatest offset ((record.frame crc32).take n) =
      if isLatest then .ok ⟨[], some ⟨segmentId, offset, offset + n⟩⟩
      else .error (.format operation segmentId source) := by
  obtain ⟨needed, hdecode⟩ := decodeWalRecordEnvelope_take WalRecord.walFrame_ne_nil
    (WalRecord.length_walFrame_lt h) (n := n) hn
  have hlength : ((record.frame crc32).take n).length = n := by
    rw [length_take]
    omega
  have hframe : (record.frame crc32).take n ≠ [] := by
    rw [← length_pos_iff, hlength]
    exact hpos
  refine ⟨.insufficientBytes walEnvelopeFormat needed n, ?_⟩
  rw [decodeSegmentRecords, if_neg hframe]
  split
  · rename_i heq
    rw [WalRecord.frame, hdecode] at heq
    cases heq
    rw [hlength]
  · rename_i hshort heq
    rw [WalRecord.frame, hdecode] at heq
    cases heq
    exact absurd rfl (hshort _ _ _)
  · rename_i heq
    rw [WalRecord.frame, hdecode] at heq
    cases heq

/-- The reader passes the frames at the front and goes on with what follows. -/
theorem decodeSegmentRecords_append (h : ∀ r ∈ records, r.Framed) (tail : Bytes) :
    decodeSegmentRecords crc32 operation segmentId isLatest offset
        ((records.map (·.frame crc32)).flatten ++ tail) =
      (decodeSegmentRecords crc32 operation segmentId isLatest
        (offset + ((records.map (·.frame crc32)).flatten).length) tail).map
          fun read => ⟨records ++ read.records, read.truncation⟩ := by
  induction records generalizing offset with
  | nil =>
    simp only [map_nil, flatten_nil, nil_append, length_nil, Nat.add_zero]
    cases decodeSegmentRecords crc32 operation segmentId isLatest offset tail <;> rfl
  | cons record records ih =>
    obtain ⟨hrecord, hrest⟩ := forall_mem_cons.mp h
    rw [map_cons, flatten_cons, append_assoc, decodeSegmentRecords_frame hrecord,
      ih hrest, length_append, Nat.add_assoc]
    cases decodeSegmentRecords crc32 operation segmentId isLatest _ tail <;> rfl

/-! ## Whole segments -/

/-- The header of a segment of a database. -/
def segmentHeader (databaseId : Bytes) (h : databaseId.length = 16) (segmentId : Nat) :
    WalSegmentHeader := ⟨UInt64.ofNat segmentId, databaseId, h⟩

/-- The bytes of a segment that holds `records`. -/
def segmentBytes (crc32 : Bytes → UInt32) (databaseId : Bytes) (h : databaseId.length = 16)
    (segmentId : Nat) (records : List WalRecord) : Bytes :=
  encodeWalSegmentHeader crc32 (segmentHeader databaseId h segmentId) ++ (records.map (·.frame crc32)).flatten

theorem length_encodeWalSegmentHeader (header : WalSegmentHeader) :
    (encodeWalSegmentHeader crc32 header).length = walSegmentHeaderSize := by
  rw [encodeWalSegmentHeader, length_append, header.length_base, length_leBytes]; rfl

/-- A segment is read as its records, followed by what the reader makes of the
bytes behind them. -/
theorem decodeSegmentBytes_append (hid : databaseId.length = 16) (h : ∀ r ∈ records, r.Framed) (tail : Bytes) :
    decodeSegmentBytes crc32 databaseId operation segmentId
        (segmentBytes crc32 databaseId hid segmentId records ++ tail) isLatest =
      (decodeSegmentRecords crc32 operation segmentId isLatest
        (segmentBytes crc32 databaseId hid segmentId records).length tail).map
          fun read => ⟨records ++ read.records, read.truncation⟩ := by
  have hheader : decodeWalSegmentHeader crc32
      (encodeWalSegmentHeader crc32 (segmentHeader databaseId hid segmentId) ++
        ((records.map (·.frame crc32)).flatten ++ tail)) (some (UInt64.ofNat segmentId)) = _ :=
    decodeWalSegmentHeader_encode (by simp [segmentHeader]) _
  have hdrop : (encodeWalSegmentHeader crc32 (segmentHeader databaseId hid segmentId) ++
      ((records.map (·.frame crc32)).flatten ++ tail)).drop walSegmentHeaderSize =
        (records.map (·.frame crc32)).flatten ++ tail :=
    drop_left' (length_encodeWalSegmentHeader _)
  rw [decodeSegmentBytes, segmentBytes, append_assoc, hheader, length_append, length_encodeWalSegmentHeader]
  change (require (databaseId = databaseId) _ >>= fun _ => _) = _
  rw [require, if_pos rfl, ok_bind, hdrop, decodeSegmentRecords_append h]

/-- A whole segment is read as its records. -/
theorem decodeSegmentBytes_segmentBytes (hid : databaseId.length = 16) (h : ∀ r ∈ records, r.Framed) :
    decodeSegmentBytes crc32 databaseId operation segmentId
        (segmentBytes crc32 databaseId hid segmentId records) isLatest = .ok ⟨records, none⟩ := by
  rw [← append_nil (segmentBytes crc32 databaseId hid segmentId records),
    decodeSegmentBytes_append hid h, decodeSegmentRecords_nil]
  simp [Except.map]

namespace Sample

/-- The record of a commit of `version` that puts `key`. -/
def recordAt (version : CommitVersion) : WalRecord where
  commitVersion := version
  branchId := branch
  commitTimestamp := 3
  committedAt := none
  commitPayload := ⟨[put version 3], rfl⟩
  facts_valid := by
    simp [WalCommitPayload.validateOuterFacts, List.forM, StorageRow.validateOuterFacts, put,
      StorageRow.put, key, Except.require]

theorem framed_recordAt (version : CommitVersion) : (recordAt version).Framed := by
  have hrow : (put version 3).layout.length ≤ 100 := by
    rw [StorageRow.length_layout]
    show 38 + (encodePhysicalKey key).length + [(1 : UInt8)].length ≤ 100
    decide
  refine ⟨⟨?_, ?_⟩, nofun⟩
  · simp only [recordAt, mem_singleton, forall_eq, StorageRow.FitsWal]
    exact hrow.trans (by decide)
  · rw [WalCommitPayload.length_layout]
    simp only [recordAt, flatMap_cons, flatMap_nil, append_nil,
      StorageRow.length_walEntry, maxWalCommitPayloadBytes]
    omega

end Sample

end Strata
