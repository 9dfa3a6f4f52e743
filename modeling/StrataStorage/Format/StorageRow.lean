import StrataStorage.Format.Key

/-!
# Encoded rows

The row codec of `format/storage_row.rs`. Encoding a row is its layout under two
length limits (`encodeStorageRow_eq_ok`), and decoding is the inverse: a byte
string decodes to a row exactly when the row encodes to it
(`decodeStorageRow_eq_ok`), also where the decoder cross-checks the key the row
is filed under (`decodeStorageRowInner_eq_ok`).
-/

namespace Strata

open StorageRow ByteReader
open Except (bind_eq_ok ok.injEq)

variable {row : StorageRow} {bytes : Bytes}

def storageRowFormat : String := "storage_row"

def storageRowFormatVersion : UInt8 := 1

def storageRowFlagsNone : Nat := 0

/-- `encode_storage_row` (and `encode_storage_row_into`). -/
def encodeStorageRow (row : StorageRow) : Except FormatError Bytes := do
  let valueLen ← toU32 row.value.length "value"
  let physicalKeyBytes := encodePhysicalKey row.physicalKey
  let physicalKeyLen ← toU32 physicalKeyBytes.length "physical_key"
  .ok ([storageRowFormatVersion] ++ leBytes 4 physicalKeyLen ++ physicalKeyBytes ++
    leBytes 8 row.commitVersion.toNat ++ leBytes 8 row.commitTimestamp.toNat ++
    leBytes 8 row.expiresAt.toNat ++ leBytes 4 storageRowFlagsNone ++
    [if row.isTombstone then 1 else 0] ++ leBytes 4 valueLen ++ row.value)

/-- `encode_storage_row_with_physical_key_bytes_into`. -/
def encodeStorageRowWithPhysicalKeyBytes (row : StorageRow) (physicalKeyBytes : Bytes) :
    Except FormatError Bytes := do
  let physicalKeyLen ← toU32 physicalKeyBytes.length "physical_key"
  let valueLen ← toU32 row.value.length "value"
  .ok ([1] ++ leBytes 4 physicalKeyLen ++ physicalKeyBytes ++ leBytes 8 row.commitVersion.toNat ++
    leBytes 8 row.commitTimestamp.toNat ++ leBytes 8 row.expiresAt.toNat ++ leBytes 4 0 ++
    [if row.isTombstone then 1 else 0] ++ leBytes 4 valueLen ++ row.value)

/-- The match on the tombstone byte. -/
def decodeTombstoneFlag (value : UInt8) : Except FormatError Bool :=
  if value = 0 then .ok false
  else if value = 1 then .ok true
  else .error (.invalidBool "is_tombstone" value)

def decodeStorageRowInner (bytes : Bytes) (expected : Option (Bytes × CommitVersion)) :
    Except FormatError StorageRow := do
  let reader := ByteReader.new storageRowFormat bytes
  let (version, reader) ← reader.readU8
  .require (version = storageRowFormatVersion) (.invalidVersion storageRowFormat version)
  let (physicalKeyLen, reader) ← reader.readU32Le
  let (physicalKeyBytes, reader) ← reader.readExact physicalKeyLen
  .require (∀ e ∈ expected, physicalKeyBytes = e.1) (.invalidValue "physical_key")
  let physicalKey ← decodePhysicalKey physicalKeyBytes
  let (commitVersion, reader) ← reader.readU64Le
  .require (∀ e ∈ expected, commitVersion = e.2) (.invalidValue "commit_version")
  let (commitTimestamp, reader) ← reader.readU64Le
  let (expiresAt, reader) ← reader.readU64Le
  let (rowFlags, reader) ← reader.readU32Le
  .require (rowFlags = storageRowFlagsNone) (.unsupportedFlags storageRowFormat rowFlags)
  let (flag, reader) ← reader.readU8
  let tombstone ← decodeTombstoneFlag flag
  let (valueLen, reader) ← reader.readU32Le
  if tombstone then
    -- A tombstone with an expiry or a value would make the delete ambiguous.
    .require (expiresAt = Timestamp.epoch) (.invalidTombstonePayload "expiry")
    .require (valueLen = 0) (.invalidTombstonePayload "value")
    reader.finish
    .ok (.tombstone physicalKey commitVersion commitTimestamp)
  else
    let (value, reader) ← reader.readExact valueLen
    reader.finish
    .ok (.put physicalKey commitVersion commitTimestamp expiresAt value)

def decodeStorageRow (bytes : Bytes) : Except FormatError StorageRow :=
  decodeStorageRowInner bytes none

/-! ## Layout -/

/-- The bytes of a row. -/
def StorageRow.layout (row : StorageRow) : Bytes :=
  storageRowFormatVersion :: (leBytes 4 (encodePhysicalKey row.physicalKey).length ++
    (encodePhysicalKey row.physicalKey ++ (leBytes 8 row.commitVersion.toNat ++
      (leBytes 8 row.commitTimestamp.toNat ++ (leBytes 8 row.expiresAt.toNat ++
        (leBytes 4 storageRowFlagsNone ++ (if row.isTombstone then 1 else 0) ::
          (leBytes 4 row.value.length ++ row.value)))))))

/-- The rows whose lengths fit their `u32` fields. -/
def StorageRow.Fits (row : StorageRow) : Prop :=
  row.value.length < 2 ^ 32 ∧ (encodePhysicalKey row.physicalKey).length < 2 ^ 32

theorem encodeStorageRow_eq_ok : encodeStorageRow row = .ok bytes ↔ row.Fits ∧ bytes = row.layout := by
  simp only [encodeStorageRow, bind_eq_ok, toU32_eq_ok, ok.injEq, StorageRow.Fits, layout]
  constructor
  · rintro ⟨_, ⟨hv, rfl⟩, _, ⟨hk, rfl⟩, rfl⟩
    exact ⟨⟨hv, hk⟩, by simp⟩
  · rintro ⟨⟨hv, hk⟩, rfl⟩
    exact ⟨_, ⟨hv, rfl⟩, _, ⟨hk, rfl⟩, by simp⟩

theorem encodeStorageRowWithPhysicalKeyBytes_eq_ok :
    encodeStorageRowWithPhysicalKeyBytes row (encodePhysicalKey row.physicalKey) = .ok bytes ↔
      row.Fits ∧ bytes = row.layout := by
  simp only [encodeStorageRowWithPhysicalKeyBytes, bind_eq_ok, toU32_eq_ok,
    ok.injEq, StorageRow.Fits, layout]
  constructor
  · rintro ⟨_, ⟨hk, rfl⟩, _, ⟨hv, rfl⟩, rfl⟩
    exact ⟨⟨hv, hk⟩, by simp [storageRowFormatVersion, storageRowFlagsNone]⟩
  · rintro ⟨⟨hv, hk⟩, rfl⟩
    exact ⟨_, ⟨hk, rfl⟩, _, ⟨hv, rfl⟩, by simp [storageRowFormatVersion, storageRowFlagsNone]⟩

theorem StorageRow.length_layout (row : StorageRow) : row.layout.length =
    38 + (encodePhysicalKey row.physicalKey).length + row.value.length := by
  simp [layout]
  omega

/-! ## Decoding -/

theorem decodeTombstoneFlag_eq_ok {value : UInt8} {b : Bool} :
    decodeTombstoneFlag value = .ok b ↔ value = if b then 1 else 0 := by
  unfold decodeTombstoneFlag
  split <;> [skip; split] <;> cases b <;> simp_all

/-- A row is a tombstone or a put. -/
theorem StorageRow.eq_tombstone (h : row.isTombstone = true) :
    row = .tombstone row.physicalKey row.commitVersion row.commitTimestamp := by
  obtain ⟨hexp, hval⟩ := row.tombstone_shape h
  cases row
  simp_all [tombstone]

theorem StorageRow.eq_put (h : row.isTombstone = false) :
    row = .put row.physicalKey row.commitVersion row.commitTimestamp row.expiresAt row.value := by
  cases row
  simp_all [put]

/-- The decoder accepts exactly the layouts, under the key it expects. -/
theorem decodeStorageRowInner_eq_ok {expected : Option (Bytes × CommitVersion)} :
    decodeStorageRowInner bytes expected = .ok row ↔ (row.Fits ∧ bytes = row.layout) ∧
        ∀ e ∈ expected, e = (encodePhysicalKey row.physicalKey, row.commitVersion) := by
  simp only [decodeStorageRowInner, new_eq_mid, Except.check_bind_eq_ok, mid_readU8_bind, mid_readU32Le_bind,
    mid_readU64Le_bind, mid_readExact_bind, Except.require_eq_ok, ite_eq_iff, mid_finish_eq_ok,
    bind_eq_ok (x := decodePhysicalKey _), bind_eq_ok (x := decodeTombstoneFlag _),
    decodePhysicalKey_eq_ok, decodeTombstoneFlag_eq_ok, ok.injEq]
  constructor
  · rintro ⟨_, _, rfl, rfl, _, _, hkeyLen, rfl, _, _, rfl, rfl, hkey, key, rfl, version, _, rfl,
      hexpected, timestamp, _, rfl, expires, _, rfl, _, _, -, rfl, rfl, _, _, rfl, tombstone, rfl,
      valueLen, _, hvalueLen, rfl, hrow⟩
    have hkeys : ∀ e ∈ expected, e = (encodePhysicalKey key, version) := fun e he =>
      Prod.ext (hkey e he).symm (hexpected e he).symm
    rcases hrow with ⟨rfl, rfl, rfl, rfl, rfl⟩ | ⟨hput, value, _, rfl, rfl, rfl, rfl⟩
    · exact ⟨⟨⟨hvalueLen, hkeyLen⟩, by simp [layout, tombstone]⟩, hkeys⟩
    · exact ⟨⟨⟨hvalueLen, hkeyLen⟩, by simp [layout, put, hput]⟩, hkeys⟩
  · rintro ⟨⟨⟨hvalue, hkey⟩, rfl⟩, hexpected⟩
    refine ⟨_, _, rfl, rfl, _, _, hkey, rfl, _, _, rfl, rfl, fun e he => by rw [hexpected e he],
      _, rfl, _, _, rfl, fun e he => by rw [hexpected e he], _, _, rfl, _, _, rfl, _, _,
      by decide, rfl, rfl, _, _, rfl, _, rfl, _, _, hvalue, rfl, ?_⟩
    cases h : row.isTombstone with
    | true =>
      obtain ⟨hexp, hval⟩ := row.tombstone_shape h
      exact .inl ⟨rfl, hexp, by rw [hval]; rfl, hval, (eq_tombstone h).symm⟩
    | false =>
      exact .inr ⟨by decide, row.value, [], by simp, rfl, rfl, (eq_put h).symm⟩

theorem decodeStorageRow_eq_ok : decodeStorageRow bytes = .ok row ↔ encodeStorageRow row = .ok bytes := by
  simp [decodeStorageRow, decodeStorageRowInner_eq_ok, encodeStorageRow_eq_ok]

end Strata
