import StrataStorage.Format.StorageRow
import StrataStorage.Lib.Crc32

/-!
# Write-ahead log records

The record codec of `format/wal.rs` and the commit payload it frames
(`format/wal/commit_payload.rs`). The checksum is third-party code and a
parameter here.

* `decodeWalCommitPayload_eq_ok`: a payload decodes exactly from its encoding;
* `decodeWalRecordPayload_parts`, `openWalRecord_eq_ok`: the two layers of a
  record, its fields and the frame of length and checksums around them;
* `walRecord_roundTrip`: records come back from the bytes of a log, each from its
  own bytes, and a record of the current version has only one encoding;
* `decodeWalRecordEnvelope_walEnvelope`, `decodeWalSegmentHeader_encode`: the
  envelope that a segment keeps around a record, and the header the segment starts with.
-/

namespace Strata

open Except List ByteReader

variable {rows : List StorageRow} {bytes : Bytes} {n : Nat} {u : Unit}

/-! ## Commit payloads -/

def walCommitPayloadFormat : String := "wal_commit_payload"

/-- `WAL_COMMIT_PAYLOAD_MAGIC`, the bytes of `STCP`. -/
def walCommitPayloadMagic : Bytes := [0x53, 0x54, 0x43, 0x50]

def walCommitPayloadFormatVersion : Nat := 1
def maxWalCommitPayloadRows : Nat := 4096
def maxWalCommitPayloadBytes : Nat := 64 * 1024 * 1024
def maxWalCommitPayloadRowBytes : Nat := 16 * 1024 * 1024

def validateRowCount (rowCount : Nat) : Except FormatError Unit :=
  if rowCount = 0 then .error (.invalidValue "row_count")
  else if rowCount > maxWalCommitPayloadRows then .error (.invalidLength "row_count")
  else .ok ()

def validateRowLen (rowLen : Nat) : Except FormatError Unit :=
  .require (rowLen ≠ 0 ∧ rowLen ≤ maxWalCommitPayloadRowBytes) (.invalidLength "row_len")

def validatePayloadLen (payloadLen : Nat) : Except FormatError Unit :=
  .require (payloadLen ≤ maxWalCommitPayloadBytes) (.invalidLength walCommitPayloadFormat)

/-- The rows of one commit. -/
structure WalCommitPayload where
  rows : List StorageRow
  rows_valid : validateRowCount rows.length = .ok ()

def WalCommitPayload.new (rows : List StorageRow) : Except FormatError WalCommitPayload :=
  match h : validateRowCount rows.length with
  | .error e => .error e
  | .ok () => .ok ⟨rows, h⟩

/-- The checks `validate_outer_facts` makes of one row. -/
def StorageRow.validateOuterFacts (row : StorageRow) (commitVersion : CommitVersion)
    (branchId : BranchId) (commitTimestamp : Timestamp) : Except FormatError Unit := do
  .require (row.commitVersion = commitVersion) (.invalidValue "commit_version")
  .require (row.physicalKey.branchId = branchId) (.invalidValue "branch_id")
  .require (row.commitTimestamp = commitTimestamp) (.invalidValue "commit_timestamp")

def WalCommitPayload.validateOuterFacts (payload : WalCommitPayload) (commitVersion : CommitVersion)
    (branchId : BranchId) (commitTimestamp : Timestamp) : Except FormatError Unit :=
  payload.rows.forM (·.validateOuterFacts commitVersion branchId commitTimestamp)

/-- The row loop of `encode_wal_commit_payload_into`; `len` is how much the
payload already holds. -/
def encodeWalRows (len : Nat) : List StorageRow → Except FormatError Bytes
  | [] => .ok []
  | row :: rows => do
    let rowBytes ← encodeStorageRow row
    validateRowLen rowBytes.length
    let rowLen ← toU32 rowBytes.length "row_len"
    let requiredLen := len + 4 + rowBytes.length
    validatePayloadLen requiredLen
    let rest ← encodeWalRows requiredLen rows
    .ok (leBytes 4 rowLen ++ rowBytes ++ rest)

def encodeWalCommitPayload (payload : WalCommitPayload) : Except FormatError Bytes := do
  validateRowCount payload.rows.length
  let rowCount ← toU32 payload.rows.length "row_count"
  let head := walCommitPayloadMagic ++ leBytes 4 walCommitPayloadFormatVersion ++ leBytes 4 rowCount
  let rows ← encodeWalRows head.length payload.rows
  .ok (head ++ rows)

/-- The version match of `decode_wal_commit_payload`. -/
def validateWalCommitPayloadVersion (version : Nat) : Except FormatError Unit :=
  if version = walCommitPayloadFormatVersion then .ok ()
  else if version = 0 then .error (.preV1Format walCommitPayloadFormat version)
  else .error (.futureFormat walCommitPayloadFormat version walCommitPayloadFormatVersion)

/-- The row loop of `decode_wal_commit_payload`. -/
def decodeWalRows : Nat → ByteReader → Except FormatError (List StorageRow × ByteReader)
  | 0, reader => .ok ([], reader)
  | n + 1, reader => do
    let (rowLen, reader) ← reader.readU32Le
    validateRowLen rowLen
    let (rowBytes, reader) ← reader.readExact rowLen
    let row ← decodeStorageRow rowBytes
    let (rows, reader) ← decodeWalRows n reader
    .ok (row :: rows, reader)

def decodeWalCommitPayload (bytes : Bytes) : Except FormatError WalCommitPayload := do
  validatePayloadLen bytes.length
  let reader := ByteReader.new walCommitPayloadFormat bytes
  let (magic, reader) ← reader.readExact 4
  .require (magic = walCommitPayloadMagic) (.invalidMagic walCommitPayloadFormat)
  let (version, reader) ← reader.readU32Le
  validateWalCommitPayloadVersion version
  let (rowCount, reader) ← reader.readU32Le
  validateRowCount rowCount
  let (rows, reader) ← decodeWalRows rowCount reader
  reader.finish
  -- The row count was checked above: the payload needs no second check, and
  -- none fails here.
  WalCommitPayload.new rows

/-! ## Records -/

def walRecordFormat : String := "wal_record"

def walRecordLengthFormat : String := "wal_record_len"

def walRecordFormatVersion : UInt8 := 3
def walRecordFormatVersionV1 : UInt8 := 1
def walRecordMinLenAfterPrefix : Nat := 116

/-- A record: one commit of one branch. Its rows agree with its facts. -/
structure WalRecord where
  commitVersion : CommitVersion
  branchId : BranchId
  commitTimestamp : Timestamp
  committedAt : Option Timestamp
  commitPayload : WalCommitPayload
  facts_valid : commitPayload.validateOuterFacts commitVersion branchId commitTimestamp = .ok ()

def WalRecord.new (commitVersion : CommitVersion) (branchId : BranchId)
    (commitTimestamp : Timestamp) (commitPayload : WalCommitPayload) :
    Except FormatError WalRecord :=
  match h : commitPayload.validateOuterFacts commitVersion branchId commitTimestamp with
  | .error e => .error e
  | .ok () => .ok ⟨commitVersion, branchId, commitTimestamp, none, commitPayload, h⟩

def WalRecord.withCommittedAt (record : WalRecord) (committedAt : Option Timestamp) : WalRecord :=
  { record with committedAt }

def encodeWalRecord (crc32 : Bytes → UInt32) (record : WalRecord) : Except FormatError Bytes := do
  let payloadBytes ← encodeWalCommitPayload record.commitPayload
  let payloadLen := 1 + 4 + 8 + BranchId.byteLen + 8 + 8 + payloadBytes.length
  let recordLen ← toU32 (payloadLen + 4) walRecordFormat
  let recordLenBytes := leBytes 4 recordLen
  let payload := [walRecordFormatVersion] ++ leBytes 4 (crc32 recordLenBytes).toNat ++
    leBytes 8 record.commitVersion.toNat ++ record.branchId.bytes ++ leBytes 8 record.commitTimestamp.toNat ++
    leBytes 8 (record.committedAt.getD 0).toNat ++ payloadBytes
  .ok (recordLenBytes ++ payload ++ leBytes 4 (crc32 payload).toNat)

def readWalRecordLen (bytes : Bytes) : Nat := ofLeBytes (slice bytes 0 4)

def validateWalRecordLen (recordLen : Nat) : Except FormatError Unit :=
  .require (walRecordMinLenAfterPrefix ≤ recordLen) (.invalidLength walRecordLengthFormat)

def validateWalRecordVersion (version : UInt8) : Except FormatError Unit :=
  if version = walRecordFormatVersion ∨ version = walRecordFormatVersionV1 then .ok ()
  else if version = 0 ∨ version = 2 then .error (.preV1Format walRecordFormat version.toNat)
  else .error (.futureFormat walRecordFormat version.toNat walRecordFormatVersion.toNat)

def verifyWalRecordLenCrc (crc32 : Bytes → UInt32) (bytes : Bytes) : Except FormatError Unit := do
  .require (9 ≤ bytes.length) (.insufficientBytes walRecordFormat 9 bytes.length)
  let storedLenCrc := ofLeBytes (slice bytes 5 9)
  let computedLenCrc := (crc32 (slice bytes 0 4)).toNat
  .require (storedLenCrc = computedLenCrc) (.checksumMismatch walRecordLengthFormat storedLenCrc computedLenCrc)

def verifyWalRecordPayloadCrc (crc32 : Bytes → UInt32) (payloadWithCrc : Bytes) (recordLen : Nat) :
    Except FormatError Bytes := do
  let payload := slice payloadWithCrc 0 (recordLen - 4)
  let storedPayloadCrc := ofLeBytes (payloadWithCrc.drop (recordLen - 4))
  let computedPayloadCrc := (crc32 payload).toNat
  .require (storedPayloadCrc = computedPayloadCrc)
    (.checksumMismatch walRecordFormat storedPayloadCrc computedPayloadCrc)
  .ok payload

/-- The `committed_at` of a payload and where its commit payload starts. -/
def decodeCommittedAt (payload : Bytes) : Except FormatError (Option Timestamp × Nat) :=
  if payload.head? = some walRecordFormatVersion then
    if payload.length < 45 then .error (.invalidLength "committed_at")
    else
      let micros := UInt64.ofNat (ofLeBytes (slice payload 37 45))
      .ok (if micros ≠ 0 then some micros else none, 45)
  else .ok (none, 37)

def decodeWalRecordPayload (payload : Bytes) : Except FormatError WalRecord := do
  let commitVersion := UInt64.ofNat (ofLeBytes (slice payload 5 13))
  let branchId ← (BranchId.tryFromSlice (slice payload 13 29)).okOr (.invalidLength "branch_id")
  let commitTimestamp := UInt64.ofNat (ofLeBytes (slice payload 29 37))
  let (committedAt, payloadStart) ← decodeCommittedAt payload
  let commitPayload ← decodeWalCommitPayload (payload.drop payloadStart)
  let record ← WalRecord.new commitVersion branchId commitTimestamp commitPayload
  .ok (record.withCommittedAt committedAt)

/-- The part of `decode_wal_record` that opens the frame: the payload it holds
and the length of the whole. -/
def openWalRecord (crc32 : Bytes → UInt32) (bytes : Bytes) : Except FormatError (Bytes × Nat) := do
  .require (5 ≤ bytes.length) (.insufficientBytes walRecordFormat 5 bytes.length)
  let recordLen := readWalRecordLen bytes
  verifyWalRecordLenCrc crc32 bytes
  validateWalRecordLen recordLen
  -- Only a length whose checksum passed locates the end of the frame.
  let totalLen := 4 + recordLen
  .require (totalLen ≤ bytes.length) (.insufficientBytes walRecordFormat totalLen bytes.length)
  let payload ← verifyWalRecordPayloadCrc crc32 (slice bytes 4 totalLen) recordLen
  .ok (payload, totalLen)

def decodeWalRecord (crc32 : Bytes → UInt32) (bytes : Bytes) : Except FormatError (WalRecord × Nat) := do
  let (payload, totalLen) ← openWalRecord crc32 bytes
  let version ← payload.head?.okOr (.invalidLength walRecordFormat)
  validateWalRecordVersion version
  let record ← decodeWalRecordPayload payload
  .ok (record, totalLen)

/-! ## The payload codec -/

theorem validateRowCount_eq_ok : validateRowCount n = .ok u ↔ n ≠ 0 ∧ n ≤ maxWalCommitPayloadRows := by
  unfold validateRowCount
  split <;> [simp_all; split <;> simp_all]

variable {payload : WalCommitPayload} {row : StorageRow}

theorem WalCommitPayload.new_eq_ok : new rows = .ok payload ↔ payload.rows = rows := by
  unfold new
  split
  · rename_i h
    refine ⟨(nomatch ·), ?_⟩
    rintro rfl
    rw [payload.rows_valid] at h
    cases h
  · rw [ok.injEq]
    exact ⟨fun h => h ▸ rfl, fun h => by cases payload; cases h; rfl⟩

theorem validateWalCommitPayloadVersion_eq_ok {version : Nat} :
    validateWalCommitPayloadVersion version = .ok u ↔ version = walCommitPayloadFormatVersion := by
  unfold validateWalCommitPayloadVersion
  split <;> [simp_all; split <;> simp_all]

/-- The bytes of a row in a payload. -/
def StorageRow.walEntry (row : StorageRow) : Bytes := leBytes 4 row.layout.length ++ row.layout

@[simp] theorem StorageRow.length_walEntry (row : StorageRow) : row.walEntry.length = 4 + row.layout.length := by
  simp [walEntry]

/-- The rows a payload has room for. -/
def StorageRow.FitsWal (row : StorageRow) : Prop := row.layout.length ≤ maxWalCommitPayloadRowBytes

theorem StorageRow.layout_ne_nil (row : StorageRow) : row.layout.length ≠ 0 := by
  simp [layout]

theorem StorageRow.FitsWal.fits (h : row.FitsWal) : row.Fits := by
  rw [FitsWal, length_layout, maxWalCommitPayloadRowBytes] at h
  exact ⟨by omega, by omega⟩

theorem StorageRow.FitsWal.length_lt (h : row.FitsWal) : row.layout.length < 2 ^ 32 := lt_of_le_of_lt h (by decide)

theorem encodeWalRows_eq_ok {len : Nat} : encodeWalRows len rows = .ok bytes ↔ (∀ row ∈ rows, row.FitsWal) ∧
      bytes = rows.flatMap (·.walEntry) ∧ (rows = [] ∨ len + bytes.length ≤ maxWalCommitPayloadBytes) := by
  induction rows generalizing len bytes with
  | nil => simp [encodeWalRows, eq_comm]
  | cons row rows ih =>
    simp only [encodeWalRows, bind_eq_ok, encodeStorageRow_eq_ok, validateRowLen, require_eq_ok,
      toU32_eq_ok, validatePayloadLen, ih, ok.injEq, forall_mem_cons, flatMap_cons]
    constructor
    · rintro ⟨_, ⟨-, rfl⟩, -, hlen, _, ⟨-, rfl⟩, -, hreq, _, ⟨hrows, rfl, hmax⟩, rfl⟩
      refine ⟨⟨hlen.2, hrows⟩, rfl, .inr ?_⟩
      rcases hmax with rfl | hmax
      · simp only [length_append, length_leBytes, flatMap_nil, length_nil]
        omega
      · simp only [length_append, length_leBytes]
        omega
    · rintro ⟨⟨hrow, hrows⟩, rfl, hmax⟩
      simp only [reduceCtorEq, false_or, length_append, StorageRow.length_walEntry] at hmax
      exact ⟨_, ⟨hrow.fits, rfl⟩, (), ⟨row.layout_ne_nil, hrow⟩, _, ⟨hrow.length_lt, rfl⟩, (),
        by omega, _, ⟨hrows, rfl, .inr (by omega)⟩, rfl⟩

theorem decodeWalRows_eq_ok {format : String} {done rest : Bytes} {r : ByteReader} :
    decodeWalRows n (.mid format done rest) = .ok (rows, r) ↔ rows.length = n ∧
      (∀ row ∈ rows, row.FitsWal) ∧ ∃ tail, rest = rows.flatMap (·.walEntry) ++ tail ∧
        r = .mid format (done ++ rows.flatMap (·.walEntry)) tail := by
  induction n generalizing done rest rows r with
  | zero =>
    simp only [decodeWalRows, ok.injEq, Prod.mk.injEq, length_eq_zero_iff]
    constructor
    · rintro ⟨rfl, rfl⟩
      exact ⟨rfl, by simp, rest, by simp, by simp⟩
    · rintro ⟨rfl, -, tail, rfl, rfl⟩
      exact ⟨rfl, by simp⟩
  | succ n ih =>
    simp only [decodeWalRows, mid_readU32Le_bind, mid_readExact_bind, check_bind_eq_ok, validateRowLen,
      require_eq_ok, bind_eq_ok (x := decodeStorageRow _), decodeStorageRow_eq_ok, encodeStorageRow_eq_ok,
      bind_eq_ok (x := decodeWalRows _ _), Prod.exists, ih, ok.injEq, Prod.mk.injEq]
    constructor
    · rintro ⟨_, _, -, rfl, hlen, _, _, rfl, rfl, row, ⟨-, rfl⟩, rows, _, ⟨rfl, hrows, tail, rfl, rfl⟩, rfl, rfl⟩
      refine ⟨rfl, forall_mem_cons.mpr ⟨hlen.2, hrows⟩, tail, ?_, ?_⟩
      · simp [StorageRow.walEntry]
      · simp [StorageRow.walEntry]
    · rintro ⟨hlen, hall, tail, rfl, rfl⟩
      obtain ⟨row, rows, rfl⟩ := exists_cons_of_length_eq_add_one hlen
      obtain ⟨hrow, hrows⟩ := forall_mem_cons.mp hall
      refine ⟨row.layout.length, row.layout ++ (rows.flatMap (·.walEntry) ++ tail), hrow.length_lt,
        by simp [StorageRow.walEntry], ⟨row.layout_ne_nil, hrow⟩, row.layout, _, rfl, rfl, row,
        ⟨hrow.fits, rfl⟩, rows, _, ⟨by simpa using hlen, hrows, tail, rfl, rfl⟩, rfl, ?_⟩
      simp [StorageRow.walEntry]

/-- The bytes of a commit payload. -/
def WalCommitPayload.layout (payload : WalCommitPayload) : Bytes :=
  walCommitPayloadMagic ++ (leBytes 4 walCommitPayloadFormatVersion ++
    (leBytes 4 payload.rows.length ++ payload.rows.flatMap (·.walEntry)))

theorem WalCommitPayload.length_layout (payload : WalCommitPayload) :
    payload.layout.length = 12 + (payload.rows.flatMap (·.walEntry)).length := by
  simp only [layout, length_append, length_leBytes, walCommitPayloadMagic, length_cons, length_nil]
  omega

/-- The payloads the log has room for. -/
def WalCommitPayload.Fits (payload : WalCommitPayload) : Prop :=
  (∀ row ∈ payload.rows, row.FitsWal) ∧ payload.layout.length ≤ maxWalCommitPayloadBytes

theorem WalCommitPayload.rows_ne_nil (payload : WalCommitPayload) : payload.rows ≠ [] := fun h =>
  (validateRowCount_eq_ok.mp payload.rows_valid).1 (by rw [h]; rfl)

theorem WalCommitPayload.length_rows_lt (payload : WalCommitPayload) : payload.rows.length < 2 ^ 32 :=
  lt_of_le_of_lt (validateRowCount_eq_ok.mp payload.rows_valid).2 (by decide)

theorem encodeWalCommitPayload_eq_ok :
    encodeWalCommitPayload payload = .ok bytes ↔ payload.Fits ∧ bytes = payload.layout := by
  simp only [encodeWalCommitPayload, bind_eq_ok, payload.rows_valid, toU32_eq_ok,
    encodeWalRows_eq_ok, payload.rows_ne_nil, false_or, ok.injEq, WalCommitPayload.Fits,
    payload.length_layout, length_append, length_leBytes]
  constructor
  · rintro ⟨_, -, _, ⟨-, rfl⟩, _, ⟨hrows, rfl, hmax⟩, rfl⟩
    exact ⟨⟨hrows, hmax⟩, by simp [WalCommitPayload.layout]⟩
  · rintro ⟨⟨hrows, hmax⟩, rfl⟩
    exact ⟨(), trivial, _, ⟨payload.length_rows_lt, rfl⟩, _, ⟨hrows, rfl, hmax⟩, by simp [WalCommitPayload.layout]⟩

theorem decodeWalCommitPayload_eq_ok :
    decodeWalCommitPayload bytes = .ok payload ↔ encodeWalCommitPayload payload = .ok bytes := by
  rw [encodeWalCommitPayload_eq_ok]
  simp only [decodeWalCommitPayload, ByteReader.new_eq_mid, validatePayloadLen, check_bind_eq_ok,
    require_eq_ok, mid_readExact_bind, mid_readU32Le_bind,
    validateWalCommitPayloadVersion_eq_ok, validateRowCount_eq_ok, bind_eq_ok (x := decodeWalRows _
    _), Prod.exists, decodeWalRows_eq_ok, WalCommitPayload.new_eq_ok, WalCommitPayload.Fits]
  constructor
  · rintro ⟨hlen, _, _, rfl, -, rfl, _, _, -, rfl, rfl, _, _, -, rfl, -, _, _,
      ⟨rfl, hrows, tail, rfl, rfl⟩, hfinish, rfl⟩
    obtain rfl := mid_finish_eq_ok.mp hfinish
    rw [append_nil] at hlen ⊢
    exact ⟨⟨hrows, hlen⟩, rfl⟩
  · rintro ⟨⟨hrows, hlen⟩, rfl⟩
    exact ⟨hlen, _, _, rfl, rfl, rfl, _, _, by decide, rfl, rfl, _, _, payload.length_rows_lt, rfl,
      validateRowCount_eq_ok.mp payload.rows_valid, _, _,
      ⟨rfl, hrows, [], by simp, rfl⟩, mid_finish_eq_ok.mpr rfl, rfl⟩

theorem minimum_le_length_layout (payload : WalCommitPayload) : 74 ≤ payload.layout.length := by
  obtain ⟨row, rows, h⟩ := exists_cons_of_ne_nil payload.rows_ne_nil
  have hkey := two_le_length_encodeEscaped row.physicalKey.userKey
  rw [payload.length_layout, h, flatMap_cons, length_append, row.length_walEntry,
    row.length_layout, encodePhysicalKey_eq]
  simp only [length_append, row.physicalKey.branchId.length_bytes, length_singleton]
  omega

/-! ## The record codec -/

section Record

variable {crc32 : Bytes → UInt32}
variable {record : WalRecord} {bytes : Bytes} {n : Nat}

/-- The fields of a record before its commit payload. -/
def WalRecord.fields (record : WalRecord) : Bytes :=
  leBytes 8 record.commitVersion.toNat ++ (record.branchId.bytes ++ (leBytes 8 record.commitTimestamp.toNat ++
      (leBytes 8 (record.committedAt.getD 0).toNat ++ record.commitPayload.layout)))

theorem WalRecord.length_fields (record : WalRecord) :
    record.fields.length = 40 + record.commitPayload.layout.length := by
  simp only [fields, length_append, length_leBytes, record.branchId.length_bytes]
  omega

/-- The payload of a frame: the version, the checksum of the length, and the
fields. -/
def walPayload (crc32 : Bytes → UInt32) (version : UInt8) (fields : Bytes) : Bytes :=
  version :: (leBytes 4 (crc32 (leBytes 4 (fields.length + 9))).toNat ++ fields)

@[simp] theorem length_walPayload (version : UInt8) (fields : Bytes) :
    (walPayload crc32 version fields).length = fields.length + 5 := by
  simp [walPayload]; omega

/-- A frame: the length, the payload and the checksum of the payload. -/
def walFrame (crc32 : Bytes → UInt32) (version : UInt8) (fields : Bytes) : Bytes :=
  leBytes 4 (fields.length + 9) ++ (walPayload crc32 version fields ++
    leBytes 4 (crc32 (walPayload crc32 version fields)).toNat)

@[simp] theorem length_walFrame (version : UInt8) (fields : Bytes) :
    (walFrame crc32 version fields).length = fields.length + 13 := by
  simp [walFrame]; omega

theorem WalCommitPayload.Fits.length_le (h : record.commitPayload.Fits) : record.fields.length + 9 < 2 ^ 32 := by
  have := h.2
  rw [maxWalCommitPayloadBytes] at this
  rw [record.length_fields]
  omega

theorem encodeWalRecord_eq_ok : encodeWalRecord crc32 record = .ok bytes ↔ record.commitPayload.Fits ∧
      bytes = walFrame crc32 walRecordFormatVersion record.fields := by
  have hlen : 1 + 4 + 8 + BranchId.byteLen + 8 + 8 + record.commitPayload.layout.length + 4 =
      record.fields.length + 9 := by
    rw [record.length_fields, BranchId.byteLen]; omega
  simp only [encodeWalRecord, bind_eq_ok, encodeWalCommitPayload_eq_ok, toU32_eq_ok, ok.injEq]
  constructor
  · rintro ⟨_, ⟨hfits, rfl⟩, _, ⟨-, rfl⟩, rfl⟩
    refine ⟨hfits, ?_⟩
    rw [hlen]
    simp [walFrame, walPayload, WalRecord.fields]
  · rintro ⟨hfits, rfl⟩
    refine ⟨_, ⟨hfits, rfl⟩, _, ⟨hlen ▸ hfits.length_le, rfl⟩, ?_⟩
    rw [hlen]
    simp [walFrame, walPayload, WalRecord.fields]

theorem exists_append_of_le_length {l : Bytes} (h : n ≤ l.length) : ∃ a b, l = a ++ b ∧ a.length = n :=
  ⟨l.take n, l.drop n, (take_append_drop n l).symm, length_take_of_le h⟩

theorem verifyWalRecordPayloadCrc_eq_ok {payload crc out : Bytes} (h : payload.length = n - 4)
    (hcrc : crc.length = 4) :
    verifyWalRecordPayloadCrc crc32 (payload ++ crc) n = .ok out ↔
      crc = leBytes 4 (crc32 payload).toNat ∧ out = payload := by
  rw [verifyWalRecordPayloadCrc, slice_append_left h, ← h, drop_left, check_bind_eq_ok,
    require_eq_ok, ok.injEq, eq_comm (a := out)]
  refine and_congr_left fun _ => ⟨fun hc => ?_, ?_⟩
  · rw [← hc, ← hcrc, leBytes_ofLeBytes]
  · rintro rfl
    exact ofLeBytes_leBytes (crc32 payload).toNat_lt

/-- Opening bytes that are cut where their length says. -/
theorem openWalRecord_parts {len lenCrc fields crc rest out : Bytes} {version : UInt8} (hlen : len.length = 4)
    (hlenCrc : lenCrc.length = 4) (hcrc : crc.length = 4) (h : ofLeBytes len = fields.length + 9) :
    openWalRecord crc32 (len ++ version :: (lenCrc ++ (fields ++ (crc ++ rest)))) = .ok (out, n) ↔
      lenCrc = leBytes 4 (crc32 len).toNat ∧ walRecordMinLenAfterPrefix ≤ fields.length + 9 ∧
        crc = leBytes 4 (crc32 (version :: (lenCrc ++ fields))).toNat ∧
        out = version :: (lenCrc ++ fields) ∧ n = fields.length + 13 := by
  have hrecordLen : readWalRecordLen (len ++ version :: (lenCrc ++ (fields ++ (crc ++ rest)))) =
      fields.length + 9 := by rw [readWalRecordLen, slice_append_left hlen, h]
  have hstored : slice (len ++ version :: (lenCrc ++ (fields ++ (crc ++ rest)))) 5 9 = lenCrc := by
    simp [slice, drop_append, take_append, hlen, hlenCrc, take_of_length_le]
  have hbody : slice (len ++ version :: (lenCrc ++ (fields ++ (crc ++ rest)))) 4
      (4 + (fields.length + 9)) = version :: (lenCrc ++ fields) ++ crc := by
    have hassoc : version :: (lenCrc ++ (fields ++ (crc ++ rest))) =
        version :: (lenCrc ++ fields) ++ crc ++ rest := by simp
    rw [slice_append_right hlen le_rfl (by omega), Nat.sub_self, Nat.add_sub_cancel_left, hassoc,
      slice_append_left]
    simp only [length_append, length_cons, hlenCrc, hcrc]
    omega
  have hpayload : (version :: (lenCrc ++ fields)).length = fields.length + 9 - 4 := by
    simp only [length_append, length_cons, hlenCrc]
    omega
  have hstoredCrc : ofLeBytes lenCrc = (crc32 len).toNat ↔ lenCrc = leBytes 4 (crc32 len).toNat := by
    refine ⟨fun hc => ?_, ?_⟩
    · rw [← hc, ← hlenCrc, leBytes_ofLeBytes]
    · rintro rfl
      exact ofLeBytes_leBytes (crc32 len).toNat_lt
  have hwhole : 4 + (fields.length + 9) ≤ (len ++ version :: (lenCrc ++ (fields ++ (crc ++ rest)))).length := by
    simp only [length_append, length_cons]; omega
  simp only [openWalRecord, verifyWalRecordLenCrc, validateWalRecordLen, check_bind_eq_ok,
    bind_eq_ok (x := verifyWalRecordPayloadCrc _ _ _), require_eq_ok, ok.injEq, Prod.mk.injEq, hrecordLen,
    hbody, hstored, slice_append_left hlen, hstoredCrc, verifyWalRecordPayloadCrc_eq_ok hpayload hcrc]
  constructor
  · rintro ⟨-, ⟨-, hl⟩, hmin, -, _, ⟨hc, rfl⟩, rfl, rfl⟩
    exact ⟨hl, hmin, hc, rfl, by omega⟩
  · rintro ⟨hl, hmin, hc, rfl, rfl⟩
    exact ⟨by omega, ⟨by omega, hl⟩, hmin, hwhole, _, ⟨hc, rfl⟩, rfl, by omega⟩

/-- What opens is a frame, followed by anything. -/
theorem openWalRecord_eq_ok {payload : Bytes} :
    openWalRecord crc32 bytes = .ok (payload, n) ↔ ∃ version fields rest,
      bytes = walFrame crc32 version fields ++ rest ∧ payload = walPayload crc32 version fields ∧
        n = (walFrame crc32 version fields).length ∧
        walRecordMinLenAfterPrefix ≤ fields.length + 9 ∧ fields.length + 9 < 2 ^ 32 := by
  constructor
  · intro h
    have hopen := h
    simp only [openWalRecord, validateWalRecordLen, check_bind_eq_ok,
      bind_eq_ok (x := verifyWalRecordPayloadCrc _ _ _), require_eq_ok] at h
    obtain ⟨-, -, hmin, htotal, -⟩ := h
    rw [walRecordMinLenAfterPrefix] at hmin
    -- The checks passed so far give every part its length.
    obtain ⟨len, bytes, rfl, hlen⟩ := exists_append_of_le_length (show 4 ≤ bytes.length by omega)
    rw [readWalRecordLen, slice_append_left hlen] at hmin htotal
    rw [length_append, hlen] at htotal
    obtain ⟨version, bytes, rfl⟩ := exists_cons_of_length_pos (show 0 < bytes.length by omega)
    rw [length_cons] at htotal
    obtain ⟨lenCrc, bytes, rfl, hlenCrc⟩ := exists_append_of_le_length (show 4 ≤ bytes.length by omega)
    rw [length_append, hlenCrc] at htotal
    obtain ⟨fields, bytes, rfl, hfields⟩ :=
      exists_append_of_le_length (show ofLeBytes len - 9 ≤ bytes.length by omega)
    rw [length_append, hfields] at htotal
    obtain ⟨crc, rest, rfl, hcrc⟩ := exists_append_of_le_length (show 4 ≤ bytes.length by omega)
    have hrecordLen : ofLeBytes len = fields.length + 9 := by omega
    have hle : len = leBytes 4 (fields.length + 9) := by
      rw [← hrecordLen, ← hlen, leBytes_ofLeBytes]
    have hmax := ofLeBytes_lt len
    rw [hlen, hrecordLen] at hmax
    rw [openWalRecord_parts hlen hlenCrc hcrc hrecordLen] at hopen
    obtain ⟨rfl, hmin', rfl, rfl, rfl⟩ := hopen
    refine ⟨version, fields, rest, ?_, ?_, by simp, hmin', hmax⟩
    · simp [walFrame, walPayload, hle]
    · simp [walPayload, hle]
  · rintro ⟨version, fields, rest, rfl, rfl, rfl, hmin, hmax⟩
    rw [length_walFrame]
    simp only [walFrame, walPayload, cons_append, append_assoc]
    rw [openWalRecord_parts (length_leBytes _ _) (length_leBytes _ _) (length_leBytes _ _)
      (ofLeBytes_leBytes hmax)]
    exact ⟨rfl, hmin, rfl, rfl, rfl⟩

theorem WalRecord.new_eq_ok {commitVersion : CommitVersion} {branchId : BranchId}
    {commitTimestamp : Timestamp} {payload : WalCommitPayload} :
    new commitVersion branchId commitTimestamp payload = .ok record ↔
      record.commitVersion = commitVersion ∧ record.branchId = branchId ∧
        record.commitTimestamp = commitTimestamp ∧ record.committedAt = none ∧
        record.commitPayload = payload := by
  unfold new
  split
  · rename_i h
    refine ⟨(nomatch ·), ?_⟩
    rintro ⟨rfl, rfl, rfl, -, rfl⟩
    rw [record.facts_valid] at h
    cases h
  · rw [ok.injEq]
    refine ⟨fun h => h ▸ ⟨rfl, rfl, rfl, rfl, rfl⟩, ?_⟩
    rintro ⟨rfl, rfl, rfl, h, rfl⟩
    cases record
    cases h
    rfl

theorem eq_ofNat_ofLeBytes {x : UInt64} (h : bytes.length = 8) :
    x = UInt64.ofNat (ofLeBytes bytes) ↔ leBytes 8 x.toNat = bytes := by
  have hlt := ofLeBytes_lt bytes
  rw [h] at hlt
  constructor
  · rintro rfl
    rw [UInt64.toNat_ofNat_of_lt' hlt, ← h, leBytes_ofLeBytes]
  · rintro rfl
    rw [ofLeBytes_leBytes x.toNat_lt, UInt64.ofNat_toNat]

/-- `0` stands for no instant. -/
theorem eq_ite_ne_zero {committedAt : Option Timestamp} {micros : UInt64} :
    committedAt = (if micros ≠ 0 then some micros else none) ↔
      committedAt.getD 0 = micros ∧ committedAt ≠ some 0 := by
  rcases eq_or_ne micros 0 with rfl | h
  · cases committedAt <;> simp
  · cases committedAt with
    | none => simp [h, h.symm]
    | some m =>
      simp only [ne_eq, h, not_false_eq_true, if_true, Option.some.injEq, Option.getD_some]
      exact ⟨fun hm => ⟨hm, hm ▸ h⟩, And.left⟩

/-- The payload decoder on the layout of the current version. -/
theorem decodeWalRecordPayload_parts {lenCrc version branch timestamp committedAt body : Bytes}
    (hlenCrc : lenCrc.length = 4) (hversion : version.length = 8) (hbranch : branch.length = 16)
    (htimestamp : timestamp.length = 8) (hcommittedAt : committedAt.length = 8) :
    decodeWalRecordPayload (walRecordFormatVersion :: (lenCrc ++ (version ++ (branch ++
      (timestamp ++ (committedAt ++ body)))))) = .ok record ↔
      leBytes 8 record.commitVersion.toNat = version ∧ record.branchId.bytes = branch ∧
        leBytes 8 record.commitTimestamp.toNat = timestamp ∧
        leBytes 8 (record.committedAt.getD 0).toNat = committedAt ∧ record.committedAt ≠ some 0 ∧
        encodeWalCommitPayload record.commitPayload = .ok body := by
  set payload := walRecordFormatVersion :: (lenCrc ++ (version ++ (branch ++
    (timestamp ++ (committedAt ++ body))))) with hpayload
  have h1 : slice payload 5 13 = version := by
    simp [slice, *]
  have h2 : slice payload 13 29 = branch := by
    simp [slice, drop_append, drop_of_length_le, *]
  have h3 : slice payload 29 37 = timestamp := by
    simp [slice, drop_append, drop_of_length_le, *]
  have h4 : slice payload 37 45 = committedAt := by
    simp [slice, drop_append, drop_of_length_le, *]
  have h5 : payload.drop 45 = body := by
    simp [drop_append, drop_of_length_le, *]
  have hstart : decodeCommittedAt payload = .ok (if UInt64.ofNat (ofLeBytes committedAt) ≠ 0 then
        some (UInt64.ofNat (ofLeBytes committedAt)) else none, 45) := by
    have hlong : ¬ payload.length < 45 := by
      simp only [hpayload, length_cons, length_append]; omega
    rw [decodeCommittedAt, if_pos (by rw [hpayload, head?_cons]), if_neg hlong, h4]
  simp only [decodeWalRecordPayload, hstart, h1, h2, h3, ok_bind, h5, bind_eq_ok,
    Option.okOr_eq_ok, BranchId.tryFromSlice_eq_some, decodeWalCommitPayload_eq_ok,
    WalRecord.new_eq_ok, ok.injEq, WalRecord.withCommittedAt]
  constructor
  · rintro ⟨_, rfl, _, hbody, r, ⟨hv, rfl, ht, -, rfl⟩, rfl⟩
    exact ⟨(eq_ofNat_ofLeBytes hversion).mp hv, rfl, (eq_ofNat_ofLeBytes htimestamp).mp ht,
      (eq_ofNat_ofLeBytes hcommittedAt).mp (eq_ite_ne_zero.mp rfl).1, (eq_ite_ne_zero.mp rfl).2, hbody⟩
  · rintro ⟨hv, rfl, ht, hc, hne, hbody⟩
    refine ⟨_, rfl, _, hbody, record.withCommittedAt none,
      ⟨(eq_ofNat_ofLeBytes hversion).mpr hv, rfl, (eq_ofNat_ofLeBytes htimestamp).mpr ht, rfl, rfl⟩,
      ?_⟩
    rw [← eq_ite_ne_zero.mpr ⟨(eq_ofNat_ofLeBytes hcommittedAt).mpr hc, hne⟩]
    rfl

/-- The decoder of records, on bytes that carry the current version: it accepts
exactly an encoded record followed by anything, and returns that record and
its length. -/
theorem decodeWalRecord_eq_ok :
    (decodeWalRecord crc32 bytes = .ok (record, n) ∧ bytes[4]? = some walRecordFormatVersion) ↔
      record.committedAt ≠ some 0 ∧ ∃ encoded rest, bytes = encoded ++ rest ∧
        encodeWalRecord crc32 record = .ok encoded ∧ n = encoded.length := by
  simp only [decodeWalRecord, bind_eq_ok, Prod.exists, openWalRecord_eq_ok,
    Option.okOr_eq_ok, ok.injEq, Prod.mk.injEq, encodeWalRecord_eq_ok]
  constructor
  · rintro ⟨⟨_, _, ⟨version, fields, rest, rfl, rfl, rfl, hmin, hmax⟩, _, hhead, -, hversion, record,
      hrecord, rfl, rfl⟩, hcurrent⟩
    obtain rfl : version = walRecordFormatVersion := by
      simpa [walFrame, walPayload, getElem?_append] using hcurrent
    rw [walRecordMinLenAfterPrefix] at hmin
    obtain ⟨a, bytes, hab, ha⟩ := exists_append_of_le_length (show 8 ≤ fields.length by omega)
    have hlen := congrArg length hab
    rw [length_append, ha] at hlen
    obtain ⟨b, bytes, rfl, hb⟩ := exists_append_of_le_length (show 16 ≤ bytes.length by omega)
    rw [length_append, hb] at hlen
    obtain ⟨c, bytes, rfl, hc⟩ := exists_append_of_le_length (show 8 ≤ bytes.length by omega)
    rw [length_append, hc] at hlen
    obtain ⟨d, bytes, rfl, hd⟩ := exists_append_of_le_length (show 8 ≤ bytes.length by omega)
    rw [walPayload, hab, decodeWalRecordPayload_parts (length_leBytes _ _) ha hb hc hd,
      encodeWalCommitPayload_eq_ok] at hrecord
    obtain ⟨rfl, rfl, rfl, rfl, hne, hfits, rfl⟩ := hrecord
    obtain rfl : fields = record.fields := hab
    exact ⟨hne, _, rest, rfl, ⟨hfits, rfl⟩, rfl⟩
  · rintro ⟨hne, _, rest, rfl, ⟨hfits, rfl⟩, rfl⟩
    have hmin : walRecordMinLenAfterPrefix ≤ record.fields.length + 9 := by
      have := minimum_le_length_layout record.commitPayload
      rw [record.length_fields, walRecordMinLenAfterPrefix]
      omega
    refine ⟨⟨_, _, ⟨_, _, rest, rfl, rfl, rfl, hmin, hfits.length_le⟩, walRecordFormatVersion, rfl,
      (), rfl, record, ?_, rfl, rfl⟩, by simp [walFrame, walPayload]⟩
    rw [walPayload, WalRecord.fields, decodeWalRecordPayload_parts (length_leBytes _ _)
      (length_leBytes _ _) record.branchId.length_bytes (length_leBytes _ _) (length_leBytes _ _),
      encodeWalCommitPayload_eq_ok]
    exact ⟨rfl, rfl, rfl, rfl, hne, hfits, rfl⟩

theorem drop_flatten_append (encoded : List Bytes) (rest : Bytes) (i : Nat) :
    (encoded.flatten ++ rest).drop (encoded.take i).flatten.length = (encoded.drop i).flatten ++ rest := by
  conv_lhs => rw [← take_append_drop i encoded, flatten_append, append_assoc]
  rw [take_append_drop, drop_left]

/-- The record codec. Records that `WalRecord.new` and the payload encoder
accept are encoded, and come back from any concatenation of their bytes, each
from where its bytes start and with their length; and bytes that decode at the
current version are the encoding of what they decode to. -/
theorem walRecord_roundTrip (crc32 : Bytes → UInt32) : (∀ records : List WalRecord,
      (∀ record ∈ records, record.committedAt ≠ some 0 ∧
        ∃ bytes, encodeWalCommitPayload record.commitPayload = .ok bytes) →
      ∃ encoded, records.mapM (encodeWalRecord crc32) = .ok encoded ∧
        ∀ (rest : Bytes) (i : Nat) (record : WalRecord), records[i]? = some record →
          ∃ bytes, encodeWalRecord crc32 record = .ok bytes ∧ encoded[i]? = some bytes ∧
            decodeWalRecord crc32 ((encoded.flatten ++ rest).drop (encoded.take i).flatten.length) =
              .ok (record, bytes.length)) ∧
      ∀ (bytes : Bytes) (record : WalRecord) (n : Nat),
        decodeWalRecord crc32 bytes = .ok (record, n) → bytes[4]? = some walRecordFormatVersion →
          encodeWalRecord crc32 record = .ok (bytes.take n) := by
  refine ⟨fun records h => ?_, fun bytes record n h hversion => ?_⟩
  · have hencode : ∀ record ∈ records, encodeWalRecord crc32 record =
        .ok (walFrame crc32 walRecordFormatVersion record.fields) := fun record hrecord =>
      have ⟨_, _, hpayload⟩ := h record hrecord
      encodeWalRecord_eq_ok.mpr ⟨(encodeWalCommitPayload_eq_ok.mp hpayload).1, rfl⟩
    refine ⟨_, Except.mapM_eq_ok_map hencode, fun rest i record hi => ?_⟩
    have hrecord := List.mem_of_getElem? hi
    set encoded := records.map fun record => walFrame crc32 walRecordFormatVersion record.fields
    have hbytes : encoded[i]? = some (walFrame crc32 walRecordFormatVersion record.fields) := by
      simp [encoded, hi]
    refine ⟨_, hencode record hrecord, hbytes, ?_⟩
    obtain ⟨hlt, hget⟩ := List.getElem?_eq_some_iff.mp hbytes
    rw [drop_flatten_append, List.drop_eq_getElem_cons hlt, hget, List.flatten_cons, List.append_assoc]
    exact (decodeWalRecord_eq_ok.mpr ⟨(h record hrecord).1, _, _, rfl, hencode record hrecord, rfl⟩).1
  · obtain ⟨-, encoded, rest, rfl, henc, rfl⟩ := decodeWalRecord_eq_ok.mp ⟨h, hversion⟩
    rw [List.take_left, henc]

end Record

/-! ## Envelopes -/

def walEnvelopeFormat : String := "wal_record_envelope"

def walRecordEnvelopeHeaderSize : Nat := 8

/-- `encode_wal_record_envelope_bytes_into`. -/
def encodeWalRecordEnvelopeBytes (crc32 : Bytes → UInt32) (encodedRecord : Bytes) : Except FormatError Bytes := do
  .require (encodedRecord ≠ []) (.invalidLength walEnvelopeFormat)
  let encodedLen ← toU32 encodedRecord.length walEnvelopeFormat
  let encodedLenBytes := leBytes 4 encodedLen
  .ok (encodedLenBytes ++ leBytes 4 (crc32 encodedLenBytes).toNat ++ encodedRecord)

/-- `decode_wal_record_envelope`: the encoded record and the length of its
envelope. -/
def decodeWalRecordEnvelope (crc32 : Bytes → UInt32) (bytes : Bytes) : Except FormatError (Bytes × Nat) := do
  .require (walRecordEnvelopeHeaderSize ≤ bytes.length)
    (.insufficientBytes walEnvelopeFormat walRecordEnvelopeHeaderSize bytes.length)
  let encodedLen := ofLeBytes (slice bytes 0 4)
  .require (encodedLen ≠ 0) (.invalidLength walEnvelopeFormat)
  let storedLenCrc := ofLeBytes (slice bytes 4 8)
  let computedLenCrc := (crc32 (slice bytes 0 4)).toNat
  .require (storedLenCrc = computedLenCrc) (.checksumMismatch walEnvelopeFormat storedLenCrc computedLenCrc)
  let totalLen := walRecordEnvelopeHeaderSize + encodedLen
  .require (totalLen ≤ bytes.length) (.insufficientBytes walEnvelopeFormat totalLen bytes.length)
  .ok (slice bytes walRecordEnvelopeHeaderSize totalLen, totalLen)

section Envelope

variable {crc32 : Bytes → UInt32}
variable {encodedRecord : Bytes} {bytes : Bytes}

/-- The bytes of an envelope. -/
def walEnvelope (crc32 : Bytes → UInt32) (encodedRecord : Bytes) : Bytes :=
  leBytes 4 encodedRecord.length ++ (leBytes 4 (crc32 (leBytes 4 encodedRecord.length)).toNat ++ encodedRecord)

@[simp] theorem length_walEnvelope (encodedRecord : Bytes) :
    (walEnvelope crc32 encodedRecord).length = 8 + encodedRecord.length := by
  simp [walEnvelope]; omega

theorem encodeWalRecordEnvelopeBytes_eq_ok : encodeWalRecordEnvelopeBytes crc32 encodedRecord = .ok bytes ↔
      (encodedRecord ≠ [] ∧ encodedRecord.length < 2 ^ 32) ∧ bytes = walEnvelope crc32 encodedRecord := by
  simp only [encodeWalRecordEnvelopeBytes, check_bind_eq_ok, require_eq_ok,
    bind_eq_ok (x := toU32 _ _), toU32_eq_ok, ok.injEq]
  constructor
  · rintro ⟨hne, _, ⟨hlt, rfl⟩, rfl⟩
    exact ⟨⟨hne, hlt⟩, by simp [walEnvelope]⟩
  · rintro ⟨⟨hne, hlt⟩, rfl⟩
    exact ⟨hne, _, ⟨hlt, rfl⟩, by simp [walEnvelope]⟩

/-- What leaves an envelope is shorter than what went in. -/
theorem lt_of_decodeWalRecordEnvelope (h : decodeWalRecordEnvelope crc32 bytes = .ok (encodedRecord, n)) :
    8 < n ∧ n ≤ bytes.length := by
  simp only [decodeWalRecordEnvelope, check_bind_eq_ok, require_eq_ok, ok.injEq, Prod.mk.injEq] at h
  simp only [walRecordEnvelopeHeaderSize] at h
  omega

/-- The length of the record, and its checksum. -/
theorem slice_walEnvelope (crc32 : Bytes → UInt32) (encodedRecord rest : Bytes) :
    slice (walEnvelope crc32 encodedRecord ++ rest) 0 4 = leBytes 4 encodedRecord.length ∧
      slice (walEnvelope crc32 encodedRecord ++ rest) 4 8 =
        leBytes 4 (crc32 (leBytes 4 encodedRecord.length)).toNat := by
  rw [walEnvelope, append_assoc, slice_append_right (length_leBytes _ _) le_rfl (by decide), append_assoc]
  exact ⟨slice_append_left (length_leBytes _ _), slice_append_left (length_leBytes _ _)⟩

theorem decodeWalRecordEnvelope_walEnvelope (hne : encodedRecord ≠ [])
    (hlt : encodedRecord.length < 2 ^ 32) (rest : Bytes) :
    decodeWalRecordEnvelope crc32 (walEnvelope crc32 encodedRecord ++ rest) =
      .ok (encodedRecord, (walEnvelope crc32 encodedRecord).length) := by
  have hlen : ofLeBytes (leBytes 4 encodedRecord.length) = encodedRecord.length := ofLeBytes_leBytes hlt
  have hpos : encodedRecord.length ≠ 0 := by simpa using hne
  obtain ⟨hl, hc⟩ := slice_walEnvelope crc32 encodedRecord rest
  have hb : slice (walEnvelope crc32 encodedRecord ++ rest) 8 (8 + encodedRecord.length) =
      encodedRecord := by
    rw [walEnvelope, append_assoc, slice_append_right (length_leBytes _ _) (by decide) (by omega),
      append_assoc, slice_append_right (length_leBytes _ _) (by decide) (by omega), slice_append_left]
    omega
  simp only [decodeWalRecordEnvelope, check_bind_eq_ok, require_eq_ok,
    hl, hc, hlen, length_walEnvelope, length_append]
  simp only [walRecordEnvelopeHeaderSize, hb]
  exact ⟨by omega, hpos, ofLeBytes_leBytes (crc32 _).toNat_lt, by omega, trivial⟩

/-- The front of an envelope is too short, and never anything else. -/
theorem decodeWalRecordEnvelope_take (hne : encodedRecord ≠ [])
    (hlt : encodedRecord.length < 2 ^ 32) (hn : n < (walEnvelope crc32 encodedRecord).length) :
    ∃ needed, decodeWalRecordEnvelope crc32 ((walEnvelope crc32 encodedRecord).take n) =
      .error (.insufficientBytes walEnvelopeFormat needed n) := by
  have hlength : ((walEnvelope crc32 encodedRecord).take n).length = n := by
    rw [length_take]
    omega
  by_cases hheader : walRecordEnvelopeHeaderSize ≤ n
  · -- the header is whole, and names a record longer than what is left
    have hpos : encodedRecord.length ≠ 0 := by simpa using hne
    have hslice : ∀ i j, j ≤ 8 → slice ((walEnvelope crc32 encodedRecord).take n) i j =
        slice (walEnvelope crc32 encodedRecord) i j := fun i j hj =>
      (slice_of_extend ⟨_, take_append_drop n _⟩ (by
        rw [hlength]
        exact hj.trans hheader)).symm
    obtain ⟨hl, hc⟩ := slice_walEnvelope crc32 encodedRecord []
    rw [append_nil] at hl hc
    have hlen : ofLeBytes (leBytes 4 encodedRecord.length) = encodedRecord.length := ofLeBytes_leBytes hlt
    have hcrc : ofLeBytes (leBytes 4 (crc32 (leBytes 4 encodedRecord.length)).toNat) =
        (crc32 (leBytes 4 encodedRecord.length)).toNat := ofLeBytes_leBytes (crc32 _).toNat_lt
    have hshort : ¬ walRecordEnvelopeHeaderSize + encodedRecord.length ≤ n := by
      rw [length_walEnvelope] at hn
      rw [walRecordEnvelopeHeaderSize]
      omega
    refine ⟨walRecordEnvelopeHeaderSize + encodedRecord.length, ?_⟩
    simp only [decodeWalRecordEnvelope, hlength, hslice 0 4 (by decide), hslice 4 8 le_rfl, hl, hc,
      hlen, hcrc, require, if_pos hheader, if_neg hshort, ne_eq, hpos, not_false_eq_true, if_true]
    rfl
  · refine ⟨walRecordEnvelopeHeaderSize, ?_⟩
    rw [decodeWalRecordEnvelope, hlength, require, if_neg hheader]
    rfl

end Envelope

/-! ## Segment headers -/

def walSegmentFormat : String := "wal_segment_header"

/-- `WAL_SEGMENT_MAGIC`, the bytes of `STRA`. -/
def walSegmentMagic : Bytes := [0x53, 0x54, 0x52, 0x41]

def walSegmentFormatVersion : Nat := 1
def walSegmentBaseHeaderSize : Nat := 32
def walSegmentHeaderSize : Nat := 36

structure WalSegmentHeader where
  segmentId : UInt64
  databaseId : Bytes
  length_databaseId : databaseId.length = 16

variable (header : WalSegmentHeader)

/-- The part of a segment header its checksum covers. -/
def WalSegmentHeader.base : Bytes :=
  walSegmentMagic ++ (leBytes 4 walSegmentFormatVersion ++ (leBytes 8 header.segmentId.toNat ++ header.databaseId))

def encodeWalSegmentHeader (crc32 : Bytes → UInt32) (header : WalSegmentHeader) : Bytes :=
  header.base ++ leBytes 4 (crc32 header.base).toNat

/-- The version match of `decode_wal_segment_header`. -/
def validateWalSegmentVersion (version : Nat) : Except FormatError Unit :=
  if version = walSegmentFormatVersion then .ok ()
  else if version = 0 ∨ version = 2 ∨ version = 3 then .error (.preV1Format walSegmentFormat version)
  else .error (.futureFormat walSegmentFormat version walSegmentFormatVersion)

/-- `decode_wal_segment_header`: the header and its length. -/
def decodeWalSegmentHeader (crc32 : Bytes → UInt32) (bytes : Bytes)
    (expectedSegmentId : Option UInt64) : Except FormatError (WalSegmentHeader × Nat) := do
  .require (walSegmentHeaderSize ≤ bytes.length)
    (.insufficientBytes walSegmentFormat walSegmentHeaderSize bytes.length)
  let reader := ByteReader.new walSegmentFormat (slice bytes 0 walSegmentBaseHeaderSize)
  let (magic, reader) ← reader.readExact 4
  .require (magic = walSegmentMagic) (.invalidMagic walSegmentFormat)
  let (version, reader) ← reader.readU32Le
  validateWalSegmentVersion version
  let computedCrc := (crc32 (slice bytes 0 walSegmentBaseHeaderSize)).toNat
  let storedCrc := ofLeBytes (slice bytes walSegmentBaseHeaderSize walSegmentHeaderSize)
  .require (storedCrc = computedCrc) (.checksumMismatch walSegmentFormat storedCrc computedCrc)
  let (segmentId, reader) ← reader.readU64Le
  .require (expectedSegmentId.all (· = segmentId)) (.invalidValue "segment_id")
  let (databaseId, reader) ← reader.readExact 16
  reader.finish
  if h : databaseId.length = 16 then .ok (⟨segmentId, databaseId, h⟩, walSegmentHeaderSize)
  else .error (.invalidLength "database_id")

theorem WalSegmentHeader.length_base : header.base.length = 32 := by
  simp [base, walSegmentMagic, header.length_databaseId]

/-- The header a segment starts with is read back. -/
theorem decodeWalSegmentHeader_encode {crc32 : Bytes → UInt32} {header : WalSegmentHeader}
    {expected : Option UInt64} (h : ∀ id ∈ expected, id = header.segmentId) (rest : Bytes) :
    decodeWalSegmentHeader crc32 (encodeWalSegmentHeader crc32 header ++ rest) expected =
      .ok (header, walSegmentHeaderSize) := by
  have hbase : slice (encodeWalSegmentHeader crc32 header ++ rest) 0 walSegmentBaseHeaderSize =
      header.base := by
    rw [encodeWalSegmentHeader, append_assoc]
    exact slice_append_left header.length_base
  have hcrc : slice (encodeWalSegmentHeader crc32 header ++ rest) walSegmentBaseHeaderSize
      walSegmentHeaderSize = leBytes 4 (crc32 header.base).toNat := by
    rw [encodeWalSegmentHeader, append_assoc, slice_append_right header.length_base (by decide) (by decide)]
    exact slice_append_left (length_leBytes _ _)
  have hlen : walSegmentHeaderSize ≤ (encodeWalSegmentHeader crc32 header ++ rest).length := by
    simp only [encodeWalSegmentHeader, length_append, header.length_base, length_leBytes, walSegmentHeaderSize]
    omega
  simp only [decodeWalSegmentHeader, hbase, hcrc, ByteReader.new_eq_mid, check_bind_eq_ok,
    require_eq_ok, mid_readExact_bind, mid_readU32Le_bind, mid_readU64Le_bind, mid_finish_eq_ok,
    Option.all_eq_true, decide_eq_true_eq]
  exact ⟨hlen, _, _, rfl, rfl, rfl, _, _, by decide, rfl, rfl,
    ofLeBytes_leBytes (crc32 header.base).toNat_lt, _, _, rfl, h, header.databaseId, [],
    (append_nil _).symm, header.length_databaseId, rfl, dif_pos header.length_databaseId⟩

namespace Sample

/-- The record of a commit that puts `key`. -/
def walRecord : WalRecord where
  commitVersion := 7
  branchId := branch
  commitTimestamp := 3
  committedAt := some 5
  commitPayload := ⟨[put 7 3], rfl⟩
  facts_valid := rfl

/-- Two records, followed by bytes of something else. -/
theorem walRecord_roundTrip_twice :
    ∃ encoded, [walRecord, walRecord].mapM (encodeWalRecord Crc32.checksum) = .ok encoded ∧
      ∃ bytes, encoded[1]? = some bytes ∧ decodeWalRecord Crc32.checksum
          ((encoded.flatten ++ [1, 2]).drop (encoded.take 1).flatten.length) = .ok (walRecord, bytes.length) := by
  have hpayload : ∃ bytes, encodeWalCommitPayload walRecord.commitPayload = .ok bytes := ⟨_, rfl⟩
  obtain ⟨encoded, h, hdecode⟩ := (walRecord_roundTrip Crc32.checksum).1 [walRecord, walRecord] (by
    simpa using ⟨(by decide : walRecord.committedAt ≠ some 0), hpayload⟩)
  obtain ⟨bytes, -, hbytes, hrecord⟩ := hdecode [1, 2] 1 walRecord rfl
  exact ⟨encoded, h, bytes, hbytes, hrecord⟩

end Sample

end Strata
