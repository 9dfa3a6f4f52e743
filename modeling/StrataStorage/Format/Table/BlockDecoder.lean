import StrataStorage.Format.Table.Blocks
import StrataStorage.Format.Table.FrameDecoder

/-!
# Decoding blocks

The decoders of `format/table/data.rs`, `index.rs` and `properties.rs`. A data
block keeps every key twice, as ordering bytes and within the row, and its
decoder rejects an entry whose copies differ (`TableDataEntry.fromParts`).

* `decodeTableDataBlock_encode`: the payload of a data block decodes to its
  rows;
* `decodeTableIndexBlock_encode`, `decodeTableProperties_encode`: the metadata
  decodes to what was encoded.
-/

namespace Strata

open Except List ByteReader
open ByteReader (new_eq_mid readMany)

/-! ## Length-prefixed bytes -/

/-- `read_len` (`read_key_len`), and the read of that many bytes. -/
def readLenPrefixed (reader : ByteReader) (max : Nat) (field : String) :
    Except FormatError (Bytes × ByteReader) := do
  let (len, reader) ← reader.readU32Le
  validateLen len max field
  reader.readExact len

variable {format : String}

theorem mid_readLenPrefixed {done rest payload : Bytes} {max : Nat}
    {field : String} (hmax : max < 2 ^ 32) (hlen : payload.length ≠ 0 ∧ payload.length ≤ max) :
    readLenPrefixed (.mid format done (lenPrefixed payload ++ rest)) max field =
      .ok (payload, .mid format (done ++ lenPrefixed payload) rest) := by
  simp only [readLenPrefixed, lenPrefixed, check_bind_eq_ok, validateLen, require_eq_ok,
    mid_readU32Le_bind, mid_readExact_eq_ok, append_assoc]
  exact ⟨_, _, by omega, rfl, hlen, rest, rfl, rfl, rfl⟩

/-! ## Data blocks -/

structure TableDataEntry where
  internalKey : InternalKey
  internalKeyBytes : Bytes
  row : StorageRow
  rowBytes : Bytes

variable (entries : List TableDataEntry)

def TableDataEntry.fromParts (internalKeyBytes rowBytes : Bytes) : Except FormatError TableDataEntry := do
  validateLen internalKeyBytes.length maxTableKeyBytes "internal_key_len"
  validateLen rowBytes.length maxTableRowBytes "row_len"
  let internalKey ← decodeInternalKey internalKeyBytes
  let row ← decodeStorageRow rowBytes
  .require (internalKey.physicalKey = row.physicalKey) (.invalidValue "physical_key")
  .require (internalKey.commitVersion = row.commitVersion) (.invalidValue "commit_version")
  .ok ⟨internalKey, internalKeyBytes, row, rowBytes⟩

def validateEntryOrder : List TableDataEntry → Except FormatError Unit
  | left :: right :: rest => do
    validateNextKeyOrder (some left.internalKeyBytes) right.internalKeyBytes
    validateEntryOrder (right :: rest)
  | _ => .ok ()

/-- The checks of `TableDataBlock::from_entries`. -/
def validateTableDataBlock : Except FormatError Unit := do
  .require (entries.length ≠ 0 ∧ entries.length ≤ maxTableBlockEntries) (.invalidLength "entry_count")
  validateEntryOrder entries

structure TableDataBlock where
  entries : List TableDataEntry
  entries_valid : validateTableDataBlock entries = .ok ()

namespace TableDataBlock

def fromEntries : Except FormatError TableDataBlock :=
  match h : validateTableDataBlock entries with
  | .error e => .error e
  | .ok () => .ok ⟨entries, h⟩

def rows (block : TableDataBlock) : List StorageRow := block.entries.map (·.row)

def rowCount (block : TableDataBlock) : Nat := block.entries.length

/-- `first_key_bytes`: a block has entries. -/
def firstKeyBytes (block : TableDataBlock) : Bytes :=
  (block.entries.head?.map (·.internalKeyBytes)).getD []

def lastKeyBytes (block : TableDataBlock) : Bytes :=
  (block.entries.getLast?.map (·.internalKeyBytes)).getD []

theorem fromEntries_eq_ok {entries : List TableDataEntry}
    (h : validateTableDataBlock entries = .ok ()) : fromEntries entries = .ok ⟨entries, h⟩ := by
  unfold fromEntries
  split
  · rename_i he
    rw [h] at he
    cases he
  · rfl

end TableDataBlock

/-- One entry of `decode_table_data_block`. -/
def readDataEntry (reader : ByteReader) : Except FormatError (TableDataEntry × ByteReader) := do
  let (internalKeyBytes, reader) ← readLenPrefixed reader maxTableKeyBytes "internal_key_len"
  let (rowBytes, reader) ← readLenPrefixed reader maxTableRowBytes "row_len"
  let entry ← TableDataEntry.fromParts internalKeyBytes rowBytes
  .ok (entry, reader)

def decodeTableDataBlock (bytes : Bytes) : Except FormatError TableDataBlock := do
  let reader := ByteReader.new "table_data_block" bytes
  let (entryCount, reader) ← reader.readU32Le
  .require (entryCount ≠ 0 ∧ entryCount ≤ maxTableBlockEntries) (.invalidLength "entry_count")
  let (entries, reader) ← reader.readMany readDataEntry entryCount
  reader.finish
  TableDataBlock.fromEntries entries

/-- The entry of a row. -/
def StorageRow.dataEntry (row : StorageRow) : TableDataEntry :=
  ⟨row.internalKey, row.key, row, row.layout⟩

/-- The bytes of an entry. -/
def TableDataEntry.encoded (entry : TableDataEntry) : Bytes :=
  lenPrefixed entry.internalKeyBytes ++ lenPrefixed entry.rowBytes

variable {row : StorageRow} {rows : List StorageRow} {commitMin commitMax : CommitVersion}
  {rowCount dataBlockCount : Nat} {properties : TableProperties} {entry : TableIndexRecord} {bytes : Bytes}

section

variable (h : row.Encodable)
include h

theorem StorageRow.Encodable.length_layout : row.layout.length ≠ 0 ∧ row.layout.length ≤ maxTableRowBytes := by
  have hlen := h.2
  rw [StorageRow.length_layout]
  simp only [StorageRow.encodedLen, StorageRow.physicalKeyBytes] at hlen
  omega

theorem StorageRow.Encodable.length_key :
    row.key.length ≠ 0 ∧ row.key.length ≤ maxTableKeyBytes := ⟨row.key_length_ne_zero, h.1⟩

theorem StorageRow.Encodable.encode : encodeStorageRow row = .ok row.layout := by
  obtain ⟨bytes, hbytes⟩ := exists_encodeStorageRow h
  obtain ⟨hfits, -⟩ := encodeStorageRowWithPhysicalKeyBytes_eq_ok.mp hbytes
  exact encodeStorageRow_eq_ok.mpr ⟨hfits, rfl⟩

theorem TableDataEntry.fromParts_row : fromParts row.key row.layout = .ok row.dataEntry := by
  simp only [fromParts, validateLen, check_bind_eq_ok, require_eq_ok, bind_eq_ok (x := decodeInternalKey _),
    bind_eq_ok (x := decodeStorageRow _), decodeInternalKey_eq_ok, decodeStorageRow_eq_ok]
  exact ⟨h.length_key, h.length_layout, row.internalKey, rfl, row, h.encode, rfl, rfl, rfl⟩

theorem readDataEntry_row (done rest : Bytes) : readDataEntry (.mid format done (row.dataEntry.encoded ++ rest)) =
      .ok (row.dataEntry, .mid format (done ++ row.dataEntry.encoded) rest) := by
  rw [readDataEntry, TableDataEntry.encoded, StorageRow.dataEntry, append_assoc,
    mid_readLenPrefixed (by decide) h.length_key, ok_bind]
  dsimp only
  rw [mid_readLenPrefixed (by decide) h.length_layout, ok_bind]
  dsimp only
  rw [TableDataEntry.fromParts_row h, append_assoc]
  rfl

end

/-- The bytes of a block's entries. -/
theorem encodeDataEntries_bytes {previousKey : Option Bytes} (h : encodeDataEntries previousKey (rows.map (·.streaming)) = .ok bytes) :
    bytes = (rows.map (·.dataEntry)).flatMap (·.encoded) := by
  induction rows generalizing previousKey bytes with
  | nil => cases h; rfl
  | cons row rows ih =>
    obtain ⟨rowBytes, rest, hrow, hrest, rfl⟩ := encodeDataEntries_cons h
    obtain ⟨-, rfl⟩ := encodeStorageRowWithPhysicalKeyBytes_eq_ok.mp hrow
    rw [ih hrest]
    rfl

theorem validateEntryOrder_rows (h : SortedRows rows) : validateEntryOrder (rows.map (·.dataEntry)) = .ok () := by
  induction rows with
  | nil => rfl
  | cons row rows ih =>
    have hrest := ih h.tail
    cases rows with
    | nil => rfl
    | cons next rows =>
      have hlt : row.key < next.key := rel_of_pairwise_cons h mem_cons_self
      rw [map_cons, map_cons, validateEntryOrder, check_bind_eq_ok]
      exact ⟨validateNextKeyOrder_eq_ok.mpr (by simpa [StorageRow.dataEntry] using hlt), hrest⟩

/-- The payload of a data block decodes to its rows. -/
theorem decodeTableDataBlock_encode {encoded : EncodedTableDataBlock}
    (h : encodeTableDataBlockFromEncodedRows (rows.map (·.streaming)) = .ok encoded) :
    ∃ block, decodeTableDataBlock encoded.payload = .ok block ∧ block.entries = rows.map (·.dataEntry) := by
  obtain ⟨hall, hsorted, hne, hlen⟩ := encodeTableDataBlock_isOk.mp ⟨encoded, h⟩
  simp only [encodeTableDataBlockFromEncodedRows, bind_eq_ok, toU32_eq_ok] at h
  obtain ⟨entries, hentries, -, -, _, ⟨h32, rfl⟩, _, -, _, -, h⟩ := h
  cases h
  have hcount : rows.length ≠ 0 ∧ rows.length ≤ maxTableBlockEntries := ⟨by simpa using hne, hlen⟩
  have hvalid : validateTableDataBlock (rows.map (·.dataEntry)) = .ok () := by
    rw [validateTableDataBlock, check_bind_eq_ok, require_eq_ok, length_map]
    exact ⟨hcount, validateEntryOrder_rows hsorted⟩
  refine ⟨⟨rows.map (·.dataEntry), hvalid⟩, ?_, rfl⟩
  have hread : ∀ done, readMany readDataEntry rows.length (.mid "table_data_block" done entries) =
        .ok (rows.map (·.dataEntry), .mid "table_data_block" (done ++ entries) []) := by
    intro done
    have hmany : readMany readDataEntry (rows.map (·.dataEntry)).length
        (.mid "table_data_block" done ((rows.map (·.dataEntry)).flatMap (·.encoded) ++ [])) = _ :=
      mid_readMany fun entry hentry done rest => by
        obtain ⟨row, hrow, rfl⟩ := mem_map.mp hentry
        exact readDataEntry_row (hall row hrow) done rest
    rwa [← encodeDataEntries_bytes hentries, append_nil, length_map] at hmany
  simp only [decodeTableDataBlock, new_eq_mid, check_bind_eq_ok, require_eq_ok, mid_readU32Le_bind,
    length_map, bind_eq_ok (x := readMany _ _ _), Prod.exists]
  rw [length_map] at h32
  exact ⟨_, _, h32, rfl, hcount, _, _, hread _, mid_finish_eq_ok.mpr rfl, TableDataBlock.fromEntries_eq_ok hvalid⟩

/-! ## The index -/

/-- One entry of `decode_table_index_block`. -/
def readIndexEntry (reader : ByteReader) : Except FormatError (TableIndexRecord × ByteReader) := do
  let (firstKeyBytes, reader) ← readLenPrefixed reader maxTableKeyBytes "first_key_len"
  let (lastKeyBytes, reader) ← readLenPrefixed reader maxTableKeyBytes "last_key_len"
  let (blockOffset, reader) ← reader.readU64Le
  let (blockFrameLen, reader) ← reader.readU32Le
  let (rowCount, reader) ← reader.readU32Le
  let entry ← TableIndexRecord.new firstKeyBytes lastKeyBytes blockOffset.toNat blockFrameLen rowCount
  .ok (entry, reader)

def decodeTableIndexBlock (bytes : Bytes) : Except FormatError (List TableIndexRecord) := do
  let reader := ByteReader.new "table_index_block" bytes
  let (version, reader) ← reader.readU32Le
  validateTableVersion version "table_index_block"
  let (entryCount, reader) ← reader.readU32Le
  .require (entryCount ≠ 0 ∧ entryCount ≤ maxTableDataBlocks) (.invalidLength "entry_count")
  let (entries, reader) ← reader.readMany readIndexEntry entryCount
  reader.finish
  validateTableIndexBlock entries
  .ok entries

def decodeTableIndexBlockForDataBlocks (bytes : Bytes) (expectedDataBlockCount : Nat) :
    Except FormatError (List TableIndexRecord) := do
  let entries ← decodeTableIndexBlock bytes
  .require (entries.length = expectedDataBlockCount) (.invalidValue "index_entry_count")
  .ok entries

/-- An entry the index accepts, whose numbers fit their fields. -/
structure TableIndexRecord.Stored (entry : TableIndexRecord) : Prop where
  valid : TableIndexRecord.new entry.firstKey entry.lastKey entry.blockOffset entry.blockFrameLen
    entry.rowCount = .ok entry
  keys : entry.toTableIndexEntry.LegalKeys
  offset_lt : entry.blockOffset < 2 ^ 64
  frameLen_lt : entry.blockFrameLen < 2 ^ 32
  rowCount_lt : entry.rowCount < 2 ^ 32

/-- The bytes of an entry. -/
def TableIndexRecord.encoded (entry : TableIndexRecord) : Bytes :=
  lenPrefixed entry.firstKey ++ lenPrefixed entry.lastKey ++ leBytes 8 entry.blockOffset ++
    leBytes 4 entry.blockFrameLen ++ leBytes 4 entry.rowCount

theorem readIndexEntry_encoded (h : entry.Stored) (done rest : Bytes) :
    readIndexEntry (.mid format done (entry.encoded ++ rest)) =
      .ok (entry, .mid format (done ++ entry.encoded) rest) := by
  obtain ⟨offset, hoffset⟩ := exists_u64 h.offset_lt
  have hvalid := h.valid
  rw [readIndexEntry, TableIndexRecord.encoded]
  simp only [append_assoc]
  rw [mid_readLenPrefixed (by decide) h.keys.1, ok_bind]
  rw [mid_readLenPrefixed (by decide) h.keys.2, ok_bind]
  simp only [mid_readU64Le_bind, mid_readU32Le_bind, ← hoffset] at hvalid ⊢
  refine ⟨offset, _, rfl, _, _, h.frameLen_lt, rfl, _, _, h.rowCount_lt, rfl, ?_⟩
  rw [hvalid]
  simp

theorem encodeTableIndexEntry_bytes (h : encodeTableIndexEntry entry = .ok bytes) : bytes = entry.encoded := by
  simp only [encodeTableIndexEntry, bind_eq_ok,
    appendLenPrefixed_eq_ok (show maxTableKeyBytes < 2 ^ 32 by decide)] at h
  obtain ⟨_, ⟨-, rfl⟩, _, ⟨-, rfl⟩, h⟩ := h
  cases h
  rfl

theorem mapM_encodeTableIndexEntry_bytes {entries : List TableIndexRecord} {encoded : List Bytes}
    (h : entries.mapM encodeTableIndexEntry = .ok encoded) :
    encoded.flatten = entries.flatMap (·.encoded) := by
  induction entries generalizing encoded with
  | nil => cases h; rfl
  | cons entry entries ih =>
    simp only [mapM_cons, bind_eq_ok] at h
    obtain ⟨bytes, hbytes, rest, hrest, h⟩ := h
    cases h
    rw [flatten_cons, flatMap_cons, ih hrest, encodeTableIndexEntry_bytes hbytes]

section

variable {entries : List TableIndexRecord} {payload : Bytes} (hstored : ∀ entry ∈ entries, entry.Stored)
  (hvalid : validateTableIndexBlock entries = .ok ()) (h : encodeTableIndexBlock entries = .ok payload)
include hstored hvalid h

/-- An encoded index is read back. -/
theorem decodeTableIndexBlock_encode : decodeTableIndexBlock payload = .ok entries := by
  simp only [encodeTableIndexBlock, bind_eq_ok, require_eq_ok, toU32_eq_ok] at h
  obtain ⟨-, hcount, _, ⟨h32, rfl⟩, encoded, hencoded, h⟩ := h
  cases h
  have hread : ∀ done, readMany readIndexEntry entries.length
      (.mid "table_index_block" done (entries.flatMap (·.encoded))) =
        .ok (entries, .mid "table_index_block" (done ++ entries.flatMap (·.encoded)) []) := by
    intro done
    have hmany : readMany readIndexEntry entries.length
        (.mid "table_index_block" done (entries.flatMap (·.encoded) ++ [])) = _ :=
      mid_readMany fun entry hentry done rest => readIndexEntry_encoded (hstored entry hentry) done rest
    rwa [append_nil] at hmany
  rw [mapM_encodeTableIndexEntry_bytes hencoded]
  simp only [decodeTableIndexBlock, new_eq_mid, check_bind_eq_ok, require_eq_ok, mid_readU32Le_bind,
    append_assoc, bind_eq_ok (x := readMany _ _ _), Prod.exists]
  exact ⟨1, _, by decide, rfl, rfl, _, _, h32, rfl, hcount, _, _, hread _, mid_finish_eq_ok.mpr rfl, hvalid, rfl⟩

theorem decodeTableIndexBlockForDataBlocks_encode :
    decodeTableIndexBlockForDataBlocks payload entries.length = .ok entries := by
  simp [decodeTableIndexBlockForDataBlocks, decodeTableIndexBlock_encode hstored hvalid h, require]

end

/-! ## Properties -/

def decodeTableProperties (bytes : Bytes) : Except FormatError TableProperties := do
  let reader := ByteReader.new "table_properties_block" bytes
  let (version, reader) ← reader.readU32Le
  validateTableVersion version "table_properties_block"
  let (rowCount, reader) ← reader.readU64Le
  let (dataBlockCount, reader) ← reader.readU32Le
  let (commitMin, reader) ← reader.readU64Le
  let (commitMax, reader) ← reader.readU64Le
  let (minKeyBytes, reader) ← readLenPrefixed reader maxTableKeyBytes "min_key_len"
  let (maxKeyBytes, reader) ← readLenPrefixed reader maxTableKeyBytes "max_key_len"
  reader.finish
  TableProperties.new rowCount.toNat dataBlockCount commitMin commitMax minKeyBytes maxKeyBytes

theorem validateCountFacts_eq_ok {u : Unit} :
    validateCountFacts rowCount dataBlockCount commitMin commitMax = .ok u ↔
      (rowCount ≠ 0 ∧ rowCount ≤ maxTableRows) ∧
      (dataBlockCount ≠ 0 ∧ dataBlockCount ≤ maxTableDataBlocks) ∧ commitMin ≤ commitMax := by
  simp only [validateCountFacts, check_bind_eq_ok, require_eq_ok]

theorem TableProperties.eq_of_new {minKey maxKey : Bytes}
    (h : new rowCount dataBlockCount commitMin commitMax minKey maxKey = .ok properties) :
    properties = ⟨rowCount, dataBlockCount, commitMin, commitMax, minKey, maxKey⟩ := by
  simp only [new, bind_eq_ok] at h
  obtain ⟨-, -, -, -, -, -, -, -, -, -, -, -, h⟩ := h
  cases h
  rfl

/-- Encoded properties are read back. -/
theorem decodeTableProperties_encode
    (hvalid : TableProperties.new properties.rowCount properties.dataBlockCount properties.commitMin
      properties.commitMax properties.minKey properties.maxKey = .ok properties)
    {payload : Bytes} (h : encodeTableProperties properties = .ok payload) :
    decodeTableProperties payload = .ok properties := by
  simp only [encodeTableProperties, bind_eq_ok, validateCountFacts_eq_ok,
    appendLenPrefixed_eq_ok (show maxTableKeyBytes < 2 ^ 32 by decide)] at h
  obtain ⟨-, ⟨hrows, hblocks, -⟩, _, ⟨hminLen, rfl⟩, _, ⟨hmaxLen, rfl⟩, h⟩ := h
  cases h
  obtain ⟨rowCount, hrowCount⟩ := exists_u64 (lt_of_le_of_lt hrows.2 (by decide))
  have hblockCount : properties.dataBlockCount < 2 ^ 32 := lt_of_le_of_lt hblocks.2 (by decide)
  rw [← hrowCount] at hvalid ⊢
  simp only [decodeTableProperties, new_eq_mid, check_bind_eq_ok, mid_readU32Le_bind, mid_readU64Le_bind]
  have hmin : ∀ done rest, readLenPrefixed (.mid "table_properties_block" done
      (lenPrefixed properties.minKey ++ rest)) maxTableKeyBytes "min_key_len" = _ :=
    fun done rest => mid_readLenPrefixed (by decide) hminLen
  have hmax : ∀ done, readLenPrefixed (.mid "table_properties_block" done
      (lenPrefixed properties.maxKey ++ [])) maxTableKeyBytes "max_key_len" = _ :=
    fun done => mid_readLenPrefixed (by decide) hmaxLen
  refine ⟨1, leBytes 8 rowCount.toNat ++ (leBytes 4 properties.dataBlockCount ++
    (leBytes 8 properties.commitMin.toNat ++ (leBytes 8 properties.commitMax.toNat ++
      (lenPrefixed properties.minKey ++ (lenPrefixed properties.maxKey ++ []))))), by decide, ?_, rfl,
    rowCount, _, rfl, _, _, hblockCount, rfl, _, _, rfl, _, _, rfl, ?_⟩
  · simp [lenPrefixed]
  · rw [hmin, ok_bind]
    dsimp only
    rw [hmax, ok_bind]
    dsimp only
    rw [check_bind_eq_ok]
    exact ⟨mid_finish_eq_ok.mpr rfl, hvalid⟩

end Strata
