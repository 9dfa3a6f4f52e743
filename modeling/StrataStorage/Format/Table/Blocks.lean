import StrataStorage.Format.StorageRow
import StrataStorage.Format.Table.Frame
import StrataStorage.Table.Key

/-!
# Data, index and properties blocks

The payloads of `format/table/data.rs`, `index.rs` and `properties.rs`, as the
writer produces them. For each block one lemma says when it is encoded and how long it is:

* `encodeTableDataBlock_isOk`: rows in strictly ascending key order, each within the
  key and row limits, make a data block of `dataBlockLen` bytes;
* `encodeTableIndexBlock_isOk`, `encodeTableProperties_isOk`: the metadata of
  such blocks is encoded.
-/

namespace Strata

open StorageRow Except List

variable {bytes : Bytes} {rows : List StorageRow} {previousKey : Option Bytes} {row : StorageRow}

def validateLen (len max : Nat) (field : String) : Except FormatError Unit :=
  .require (len ≠ 0 ∧ len ≤ max) (.invalidLength field)

/-- `append_len_prefixed`: the bytes it appends. -/
def appendLenPrefixed (payload : Bytes) (max : Nat) (field : String) : Except FormatError Bytes := do
  validateLen payload.length max field
  let len ← toU32 payload.length field
  .ok (leBytes 4 len ++ payload)

theorem appendLenPrefixed_eq_ok {payload : Bytes} {max : Nat} {field : String} (hmax : max < 2 ^ 32) :
    appendLenPrefixed payload max field = .ok bytes ↔
      (payload.length ≠ 0 ∧ payload.length ≤ max) ∧ bytes = leBytes 4 payload.length ++ payload := by
  simp only [appendLenPrefixed, validateLen, bind_eq_ok, require_eq_ok, toU32_eq_ok, ok.injEq]
  constructor
  · rintro ⟨-, hlen, _, ⟨-, rfl⟩, rfl⟩
    exact ⟨hlen, rfl⟩
  · rintro ⟨hlen, rfl⟩
    exact ⟨(), hlen, _, ⟨by omega, rfl⟩, rfl⟩

/-! ## Rows -/

/-- The length of an encoded row. -/
def StorageRow.encodedLen (row : StorageRow) : Nat :=
  1 + 4 + 8 + 8 + 8 + 4 + 1 + 4 + row.physicalKeyBytes.length + row.value.length

/-- The length of a row's entry in a data block. -/
def StorageRow.entryLen (row : StorageRow) : Nat := 4 + row.key.length + 4 + row.encodedLen

@[simp] theorem StorageRow.length_key (row : StorageRow) :
    row.key.length = row.physicalKeyBytes.length + internalKeySuffixLen := by
  rw [key, encodeInternalKey_eq, length_append, length_toBeBytes]; rfl

/-! ## Data blocks -/

structure StreamingTableRow where
  internalKeyBytes : Bytes
  row : StorageRow

def internalKeyPhysicalKeyBytesChecked (bytes : Bytes) : Except FormatError Bytes :=
  if bytes.length < internalKeySuffixLen then
    .error (.insufficientBytes "internal_key" internalKeySuffixLen bytes.length)
  else .ok (bytes.take (bytes.length - internalKeySuffixLen))

def validateInternalKeyCommitSuffix (bytes : Bytes) (commitVersion : CommitVersion) : Except FormatError Unit :=
  if bytes.length < internalKeySuffixLen then
    .error (.insufficientBytes "internal_key" internalKeySuffixLen bytes.length)
  else .require (~~~(fromBeBytes (bytes.drop (bytes.length - internalKeySuffixLen))) = commitVersion)
    (.invalidValue "commit_version")

def validateNextKeyOrder (previousKey : Option Bytes) (currentKey : Bytes) : Except FormatError Unit :=
  match previousKey with
  | none => .ok ()
  | some previousKey =>
    if previousKey = currentKey then .error (.invalidValue "internal_key")
    else if currentKey < previousKey then .error (.invalidValue "internal_key_order")
    else .ok ()

/-- The row loop of `encode_table_data_block_from_encoded_rows`. -/
def encodeDataEntries (previousKey : Option Bytes) : List StreamingTableRow → Except FormatError Bytes
  | [] => .ok []
  | entry :: entries => do
    validateLen entry.internalKeyBytes.length maxTableKeyBytes "internal_key_len"
    let physicalKeyBytes ← internalKeyPhysicalKeyBytesChecked entry.internalKeyBytes
    validateInternalKeyCommitSuffix entry.internalKeyBytes entry.row.commitVersion
    validateNextKeyOrder previousKey entry.internalKeyBytes
    let rowBytes ← encodeStorageRowWithPhysicalKeyBytes entry.row physicalKeyBytes
    validateLen rowBytes.length maxTableRowBytes "row_len"
    let keyPart ← appendLenPrefixed entry.internalKeyBytes maxTableKeyBytes "internal_key_len"
    let rowPart ← appendLenPrefixed rowBytes maxTableRowBytes "row_len"
    let rest ← encodeDataEntries (some entry.internalKeyBytes) entries
    .ok (keyPart ++ rowPart ++ rest)

structure EncodedTableDataBlock where
  payload : Bytes
  rowCount : Nat
  firstKeyBytes : Bytes
  lastKeyBytes : Bytes

def encodeTableDataBlockFromEncodedRows (rows : List StreamingTableRow) :
    Except FormatError EncodedTableDataBlock := do
  let entries ← encodeDataEntries none rows
  .require (rows.length ≠ 0 ∧ rows.length ≤ maxTableBlockEntries) (.invalidLength "entry_count")
  let entryCount ← toU32 rows.length "entry_count"
  let firstKeyBytes ← (rows.head?.map (·.internalKeyBytes)).okOr (.invalidLength "entry_count")
  let lastKeyBytes ← (rows.getLast?.map (·.internalKeyBytes)).okOr (.invalidLength "entry_count")
  .ok ⟨leBytes 4 entryCount ++ entries, rows.length, firstKeyBytes, lastKeyBytes⟩

/-- A row as the builder hands it to the encoder. -/
def StorageRow.streaming (row : StorageRow) : StreamingTableRow := ⟨row.key, row⟩

/-- The rows the format has room for. -/
def StorageRow.Encodable (row : StorageRow) : Prop :=
  row.key.length ≤ maxTableKeyBytes ∧ row.encodedLen ≤ maxTableRowBytes

instance (row : StorageRow) : Decidable row.Encodable := inferInstanceAs (Decidable (_ ∧ _))

/-- The length of the payload of a data block. -/
def dataBlockLen (rows : List StorageRow) : Nat := 4 + (rows.map (·.entryLen)).sum

theorem dataBlockLen_eq_length_mul {size : Nat} (h : ∀ row ∈ rows, row.entryLen = size) :
    dataBlockLen rows = 4 + rows.length * size := by
  rw [dataBlockLen, map_congr_left h, map_const', sum_replicate_nat]

theorem internalKeyPhysicalKeyBytesChecked_key (row : StorageRow) :
    internalKeyPhysicalKeyBytesChecked row.key = .ok row.physicalKeyBytes := by
  have h : ¬ row.key.length < internalKeySuffixLen := by rw [length_key]; omega
  rw [internalKeyPhysicalKeyBytesChecked, if_neg h]
  exact congrArg _ (tableInternalPhysicalKeyBytes_key row)

theorem validateInternalKeyCommitSuffix_key (row : StorageRow) :
    validateInternalKeyCommitSuffix row.key row.commitVersion = .ok () := by
  have h : ¬ row.key.length < internalKeySuffixLen := by rw [length_key]; omega
  have hdrop : row.key.drop (row.key.length - internalKeySuffixLen) = toBeBytes (~~~row.commitVersion) := by
    rw [length_key, Nat.add_sub_cancel, key, encodeInternalKey_eq]
    exact drop_left' rfl
  rw [validateInternalKeyCommitSuffix, if_neg h, hdrop, fromBeBytes_toBeBytes, require_eq_ok]
  exact UInt64.not_not

theorem validateNextKeyOrder_eq_ok {currentKey : Bytes} :
    validateNextKeyOrder previousKey currentKey = .ok () ↔ ∀ p ∈ previousKey, p < currentKey := by
  cases previousKey with
  | none => simp [validateNextKeyOrder]
  | some p =>
    simp only [validateNextKeyOrder, Option.mem_def, Option.some.injEq, forall_eq']
    split
    · rename_i h
      exact ⟨(nomatch ·), fun h' => absurd h' (h ▸ lt_irrefl _)⟩
    · rename_i hne
      split_ifs with h
      · exact ⟨(nomatch ·), fun h' => absurd h h'.not_gt⟩
      · exact ⟨fun _ => lt_of_le_of_ne (not_lt.mp h) hne, fun _ => rfl⟩

/-- Encoding a row under its own physical key. -/
theorem length_encodeStorageRow (h : encodeStorageRowWithPhysicalKeyBytes row row.physicalKeyBytes = .ok bytes) :
    bytes.length = row.encodedLen := by
  rw [(encodeStorageRowWithPhysicalKeyBytes_eq_ok.mp h).2, length_layout]
  rfl

theorem exists_encodeStorageRow (h : row.Encodable) :
    ∃ bytes, encodeStorageRowWithPhysicalKeyBytes row row.physicalKeyBytes = .ok bytes := by
  have hlen := h.2
  simp only [encodedLen, maxTableRowBytes] at hlen
  have hfits : row.Fits := ⟨by omega, show row.physicalKeyBytes.length < 2 ^ 32 by omega⟩
  exact ⟨_, encodeStorageRowWithPhysicalKeyBytes_eq_ok.mpr ⟨hfits, rfl⟩⟩

theorem StorageRow.key_length_ne_zero (row : StorageRow) : row.key.length ≠ 0 := by
  rw [length_key]; simp [internalKeySuffixLen]

/-- The rows of a block are encoded exactly when they are encodable and follow
the previous key in strictly ascending order. -/
theorem encodeDataEntries_eq_ok : (∃ bytes, encodeDataEntries previousKey (rows.map (·.streaming)) = .ok bytes) ↔
      (∀ row ∈ rows, row.Encodable) ∧ SortedRows rows ∧ ∀ p ∈ previousKey, ∀ row ∈ rows.head?, p < row.key := by
  induction rows generalizing previousKey with
  | nil => simp [encodeDataEntries, SortedRows]
  | cons row rows ih =>
    have hkey := row.key_length_ne_zero
    have hchain : SortedRows (row :: rows) ↔
        SortedRows rows ∧ ∀ p ∈ some row.key, ∀ r ∈ rows.head?, p < r.key := by
      cases rows with
      | nil => simp [SortedRows]
      | cons r rows =>
        simp only [SortedRows, pairwise_cons, head?_cons, Option.mem_def,
          Option.some.injEq, forall_eq', forall_mem_cons]
        exact ⟨fun h => ⟨h.2, h.1.1⟩, fun h => ⟨⟨h.2, fun b hb => h.2.trans (h.1.1 b hb)⟩, h.1⟩⟩
    rw [map_cons, hchain, encodeDataEntries]
    dsimp only [streaming]
    simp only [bind_eq_ok, validateLen, require_eq_ok, internalKeyPhysicalKeyBytesChecked_key,
      validateInternalKeyCommitSuffix_key, ok.injEq, appendLenPrefixed_eq_ok (show maxTableKeyBytes
      < 2 ^ 32 by decide), appendLenPrefixed_eq_ok (show maxTableRowBytes < 2 ^ 32 by decide),
      forall_mem_cons, head?_cons, Option.mem_def, Option.some.injEq, forall_eq']
    constructor
    · rintro ⟨_, -, hlen, _, rfl, -, -, _, horder, bytes, hbytes, -, hrow, _, -, _, -, rest, hrest, -⟩
      obtain ⟨hall, hsorted, hhead⟩ := ih.mp ⟨rest, hrest⟩
      rw [length_encodeStorageRow hbytes] at hrow
      refine ⟨⟨⟨hlen.2, hrow.2⟩, hall⟩, ⟨hsorted, ?_⟩, ?_⟩
      · simpa using hhead
      · simpa using validateNextKeyOrder_eq_ok.mp horder
    · rintro ⟨⟨hrow, hall⟩, ⟨hsorted, hhead⟩, horder⟩
      obtain ⟨rest, hrest⟩ : ∃ rest, encodeDataEntries (some row.key)
          (rows.map (·.streaming)) = .ok rest := ih.mpr ⟨hall, hsorted, by simpa using hhead⟩
      obtain ⟨bytes, hbytes⟩ := exists_encodeStorageRow hrow
      have hlen : bytes.length ≠ 0 ∧ bytes.length ≤ maxTableRowBytes := by
        rw [length_encodeStorageRow hbytes]
        exact ⟨by simp only [encodedLen]; omega, hrow.2⟩
      exact ⟨_, (), ⟨hkey, hrow.1⟩, _, rfl, (), trivial, (),
        validateNextKeyOrder_eq_ok.mpr (by simpa using horder), bytes, hbytes, (), hlen, _,
        ⟨⟨hkey, hrow.1⟩, rfl⟩, _, ⟨hlen, rfl⟩, rest, hrest, rfl⟩

/-- The entry of a row stands in front of the others. -/
theorem encodeDataEntries_cons
    (h : encodeDataEntries previousKey ((row :: rows).map (·.streaming)) = .ok bytes) :
    ∃ rowBytes rest, encodeStorageRowWithPhysicalKeyBytes row row.physicalKeyBytes = .ok rowBytes ∧
      encodeDataEntries (some row.key) (rows.map (·.streaming)) = .ok rest ∧
      bytes = leBytes 4 row.key.length ++ row.key ++ (leBytes 4 rowBytes.length ++ rowBytes) ++ rest := by
  rw [map_cons, encodeDataEntries] at h
  simp only [streaming, bind_eq_ok, internalKeyPhysicalKeyBytesChecked_key,
    ok.injEq, appendLenPrefixed_eq_ok (show maxTableKeyBytes < 2 ^ 32 by decide),
    appendLenPrefixed_eq_ok (show maxTableRowBytes < 2 ^ 32 by decide)] at h
  obtain ⟨-, -, _, rfl, -, -, -, -, rowBytes, hrow, -, -, _, ⟨-, rfl⟩, _, ⟨-, rfl⟩, rest, hrest,
    rfl⟩ := h
  exact ⟨rowBytes, rest, hrow, hrest, rfl⟩

theorem length_encodeDataEntries (h : encodeDataEntries previousKey (rows.map (·.streaming)) = .ok bytes) :
    bytes.length = (rows.map (·.entryLen)).sum := by
  induction rows generalizing previousKey bytes with
  | nil => cases h; rfl
  | cons row rows ih =>
    obtain ⟨rowBytes, rest, hrow, hrest, rfl⟩ := encodeDataEntries_cons h
    simp only [length_append, length_leBytes, ih hrest, length_encodeStorageRow hrow, map_cons, sum_cons, entryLen]
    omega

/-- The payload of a data block, with its row count and its end keys. -/
theorem encodeTableDataBlock_eq_ok {block : EncodedTableDataBlock}
    (h : encodeTableDataBlockFromEncodedRows (rows.map (·.streaming)) = .ok block) :
    block.payload.length = dataBlockLen rows ∧ block.rowCount = rows.length ∧ rows.head?.map
      (·.key) = some block.firstKeyBytes ∧ rows.getLast?.map (·.key) = some block.lastKeyBytes := by
  simp only [encodeTableDataBlockFromEncodedRows, bind_eq_ok, Option.okOr_eq_ok, toU32_eq_ok] at h
  obtain ⟨entries, hentries, -, -, _, -, first, hfirst, last, hlast, h⟩ := h
  cases h
  refine ⟨?_, by simp, ?_, ?_⟩
  · simp [dataBlockLen, length_encodeDataEntries hentries]
  · rw [← hfirst]; cases rows <;> rfl
  · rw [← hlast, getLast?_map, Option.map_map]; rfl

/-- Which rows make a data block. -/
theorem encodeTableDataBlock_isOk :
    (∃ block, encodeTableDataBlockFromEncodedRows (rows.map (·.streaming)) = .ok block) ↔
      (∀ row ∈ rows, row.Encodable) ∧ SortedRows rows ∧ rows ≠ [] ∧ rows.length ≤ maxTableBlockEntries := by
  simp only [encodeTableDataBlockFromEncodedRows, bind_eq_ok, Option.okOr_eq_ok, toU32_eq_ok, require_eq_ok]
  constructor
  · rintro ⟨_, entries, hentries, -, hlen, -⟩
    obtain ⟨hall, hsorted, -⟩ := encodeDataEntries_eq_ok.mp ⟨entries, hentries⟩
    exact ⟨hall, hsorted, by simpa using hlen⟩
  · rintro ⟨hall, hsorted, hne, hlen⟩
    obtain ⟨entries, hentries⟩ : ∃ entries, encodeDataEntries none (rows.map (·.streaming)) =
        .ok entries := encodeDataEntries_eq_ok.mpr ⟨hall, hsorted, by simp⟩
    have h32 : rows.length < 2 ^ 32 := lt_of_le_of_lt hlen (by decide)
    refine ⟨_, entries, hentries, (), ⟨by simpa using hne, by simpa using hlen⟩, _,
      ⟨by simpa using h32, rfl⟩, (rows.head hne).key, ?_, (rows.getLast hne).key, ?_, rfl⟩
    · rw [head?_map, head?_eq_some_head hne]; rfl
    · rw [getLast?_map, getLast?_eq_some_getLast hne]; rfl

/-! ## The index -/

/-- The key range of a block, which is what a point seek reads of its index
entry. -/
structure TableIndexEntry where
  firstKey : Bytes
  lastKey : Bytes

/-- `TableIndexEntry`, with the place of the block. -/
structure TableIndexRecord extends TableIndexEntry where
  blockOffset : Nat
  blockFrameLen : Nat
  rowCount : Nat

variable (entries : List TableIndexRecord)

/-- The index entry of a block: the writer records its first and last key. -/
def indexEntry (block : List StorageRow) : TableIndexEntry where
  firstKey := (block.head?.map (·.key)).getD []
  lastKey := (block.getLast?.map (·.key)).getD []

def validateKeyLen (len : Nat) (field : String) : Except FormatError Unit :=
  validateLen len maxTableKeyBytes field

/-- `TableIndexEntry::from_encoded_key_bytes`. -/
def TableIndexRecord.new (firstKey lastKey : Bytes) (blockOffset blockFrameLen rowCount : Nat) :
    Except FormatError TableIndexRecord := do
  validateKeyLen firstKey.length "first_key_len"
  validateKeyLen lastKey.length "last_key_len"
  let _ ← decodeInternalKey firstKey
  let _ ← decodeInternalKey lastKey
  .require (firstKey ≤ lastKey) (.invalidValue "index_key_range")
  .require (blockFrameLen ≠ 0) (.invalidLength "block_frame_len")
  .require (rowCount ≠ 0) (.invalidLength "row_count")
  .ok ⟨⟨firstKey, lastKey⟩, blockOffset, blockFrameLen, rowCount⟩

/-- `validate_entry_order`. -/
def validateIndexEntryOrder : List TableIndexRecord → Except FormatError Unit
  | left :: right :: rest => do
    .require (left.firstKey < right.firstKey) (.invalidValue "index_key_order")
    .require (left.lastKey < right.firstKey) (.invalidValue "index_key_overlap")
    validateIndexEntryOrder (right :: rest)
  | _ => .ok ()

/-- `TableIndexBlock::new`: its checks. -/
def validateTableIndexBlock : Except FormatError Unit := do
  .require (entries.length ≠ 0 ∧ entries.length ≤ maxTableDataBlocks) (.invalidLength "entry_count")
  validateIndexEntryOrder entries

/-- One entry of an encoded index. -/
def encodeTableIndexEntry (entry : TableIndexRecord) : Except FormatError Bytes := do
  let firstKey ← appendLenPrefixed entry.firstKey maxTableKeyBytes "first_key_len"
  let lastKey ← appendLenPrefixed entry.lastKey maxTableKeyBytes "last_key_len"
  .ok (firstKey ++ lastKey ++ leBytes 8 entry.blockOffset ++ leBytes 4 entry.blockFrameLen ++
    leBytes 4 entry.rowCount)

def encodeTableIndexBlock : Except FormatError Bytes := do
  .require (entries.length ≠ 0 ∧ entries.length ≤ maxTableDataBlocks) (.invalidLength "entry_count")
  let entryCount ← toU32 entries.length "entry_count"
  let encoded ← entries.mapM encodeTableIndexEntry
  .ok (leBytes 4 1 ++ leBytes 4 entryCount ++ encoded.flatten)

/-- The length of the index payload for a table's blocks. -/
def indexBlockLen (entries : List TableIndexEntry) : Nat :=
  8 + (entries.map fun entry => 4 + entry.firstKey.length + 4 + entry.lastKey.length + 8 + 4 + 4).sum

/-- An index entry whose keys have legal lengths. -/
def TableIndexEntry.LegalKeys (entry : TableIndexEntry) : Prop :=
  (entry.firstKey.length ≠ 0 ∧ entry.firstKey.length ≤ maxTableKeyBytes) ∧
    (entry.lastKey.length ≠ 0 ∧ entry.lastKey.length ≤ maxTableKeyBytes)

theorem encodeTableIndexEntry_eq {entry : TableIndexRecord} (h : entry.toTableIndexEntry.LegalKeys) :
    ∃ bytes, encodeTableIndexEntry entry = .ok bytes ∧
      bytes.length = 4 + entry.firstKey.length + 4 + entry.lastKey.length + 8 + 4 + 4 := by
  refine ⟨leBytes 4 entry.firstKey.length ++ entry.firstKey ++
    (leBytes 4 entry.lastKey.length ++ entry.lastKey) ++ leBytes 8 entry.blockOffset ++
    leBytes 4 entry.blockFrameLen ++ leBytes 4 entry.rowCount, ?_, ?_⟩
  · rw [encodeTableIndexEntry, (appendLenPrefixed_eq_ok (by decide)).mpr ⟨h.1, rfl⟩, ok_bind,
      (appendLenPrefixed_eq_ok (by decide)).mpr ⟨h.2, rfl⟩, ok_bind]
  · simp only [length_append, length_leBytes]
    omega

variable {entries : List TableIndexRecord} (rowCount dataBlockCount : Nat) (commitMin commitMax : CommitVersion)

theorem mapM_encodeTableIndexEntry (h : ∀ entry ∈ entries, entry.toTableIndexEntry.LegalKeys) :
    ∃ encoded, entries.mapM encodeTableIndexEntry = .ok encoded ∧
      8 + encoded.flatten.length = indexBlockLen (entries.map (·.toTableIndexEntry)) := by
  induction entries with
  | nil => exact ⟨[], rfl, rfl⟩
  | cons entry entries ih =>
    obtain ⟨encoded, hencoded, hlen⟩ := ih fun e he => h e (mem_cons_of_mem _ he)
    obtain ⟨bytes, hbytes, hbytesLen⟩ := encodeTableIndexEntry_eq (h entry mem_cons_self)
    refine ⟨bytes :: encoded, by rw [mapM_cons, hbytes, hencoded]; rfl, ?_⟩
    simp only [indexBlockLen, map_cons, sum_cons, flatten_cons, length_append] at hlen ⊢
    omega

/-- An index of legal entries is encoded. -/
theorem encodeTableIndexBlock_isOk (hne : entries ≠ []) (hlen : entries.length ≤ maxTableDataBlocks)
    (hkeys : ∀ entry ∈ entries, entry.toTableIndexEntry.LegalKeys) :
    ∃ payload, encodeTableIndexBlock entries = .ok payload ∧
      payload.length = indexBlockLen (entries.map (·.toTableIndexEntry)) := by
  obtain ⟨encoded, hencoded, henclen⟩ := mapM_encodeTableIndexEntry hkeys
  have h32 : entries.length < 2 ^ 32 := lt_of_le_of_lt hlen (by decide)
  refine ⟨leBytes 4 1 ++ leBytes 4 entries.length ++ encoded.flatten, ?_, ?_⟩
  · have hcount : entries.length ≠ 0 ∧ entries.length ≤ maxTableDataBlocks := ⟨by simpa using hne, hlen⟩
    simp only [encodeTableIndexBlock, require, hcount, ne_eq, not_false_eq_true, and_self,
      ↓reduceIte, ok_bind, toU32, h32, hencoded]
  · rw [← henclen]
    simp only [length_append, length_leBytes]

/-! ## Properties -/

structure TableProperties where
  rowCount : Nat
  dataBlockCount : Nat
  commitMin : CommitVersion
  commitMax : CommitVersion
  minKey : Bytes
  maxKey : Bytes

def validateCountFacts : Except FormatError Unit := do
  .require (rowCount ≠ 0 ∧ rowCount ≤ maxTableRows) (.invalidLength "row_count")
  .require (dataBlockCount ≠ 0 ∧ dataBlockCount ≤ maxTableDataBlocks) (.invalidLength "data_block_count")
  .require (commitMin ≤ commitMax) (.invalidValue "commit_range")

/-- `TableProperties::from_encoded_key_bytes`. -/
def TableProperties.new (minKey maxKey : Bytes) : Except FormatError TableProperties := do
  validateCountFacts rowCount dataBlockCount commitMin commitMax
  validateKeyLen minKey.length "min_key_len"
  validateKeyLen maxKey.length "max_key_len"
  let _ ← decodeInternalKey minKey
  let _ ← decodeInternalKey maxKey
  .require (minKey ≤ maxKey) (.invalidValue "table_key_range")
  .ok ⟨rowCount, dataBlockCount, commitMin, commitMax, minKey, maxKey⟩

def encodeTableProperties (properties : TableProperties) : Except FormatError Bytes := do
  validateCountFacts properties.rowCount properties.dataBlockCount properties.commitMin properties.commitMax
  let minKey ← appendLenPrefixed properties.minKey maxTableKeyBytes "min_key_len"
  let maxKey ← appendLenPrefixed properties.maxKey maxTableKeyBytes "max_key_len"
  .ok (leBytes 4 1 ++ leBytes 8 properties.rowCount ++ leBytes 4 properties.dataBlockCount ++
    leBytes 8 properties.commitMin.toNat ++ leBytes 8 properties.commitMax.toNat ++ minKey ++ maxKey)

/-- Properties that describe sorted rows are accepted and encoded in a block. -/
theorem encodeTableProperties_isOk {rowCount dataBlockCount : Nat} {commitMin commitMax : CommitVersion}
    {minRow maxRow : StorageRow} (hrows : rowCount ≠ 0 ∧ rowCount ≤ maxTableRows)
    (hblocks : dataBlockCount ≠ 0 ∧ dataBlockCount ≤ maxTableDataBlocks) (hcommit : commitMin ≤ commitMax)
    (hmin : minRow.key.length ≤ maxTableKeyBytes) (hmax : maxRow.key.length ≤ maxTableKeyBytes)
    (hle : minRow.key ≤ maxRow.key) :
    TableProperties.new rowCount dataBlockCount commitMin commitMax minRow.key maxRow.key =
        .ok ⟨rowCount, dataBlockCount, commitMin, commitMax, minRow.key, maxRow.key⟩ ∧
      ∃ payload, encodeTableProperties
          ⟨rowCount, dataBlockCount, commitMin, commitMax, minRow.key, maxRow.key⟩ = .ok payload ∧
        payload ≠ [] ∧ payload.length ≤ maxTableBlockDecodedBytes := by
  have hfacts : validateCountFacts rowCount dataBlockCount commitMin commitMax = .ok () := by
    simp [validateCountFacts, require, hrows, hblocks, hcommit]
  have hlen : ∀ row : StorageRow, row.key.length ≤ maxTableKeyBytes →
      row.key.length ≠ 0 ∧ row.key.length ≤ maxTableKeyBytes := fun row h =>
    ⟨row.key_length_ne_zero, h⟩
  constructor
  · simp only [TableProperties.new, hfacts, validateKeyLen, validateLen, require, hlen _ hmin, hlen
      _ hmax, StorageRow.decodeInternalKey_key, hle, ne_eq, not_false_eq_true, and_self, ↓reduceIte, ok_bind]
  · refine ⟨_, by rw [encodeTableProperties, hfacts, ok_bind,
      (appendLenPrefixed_eq_ok (by decide)).mpr ⟨hlen _ hmin, rfl⟩, ok_bind,
      (appendLenPrefixed_eq_ok (by decide)).mpr ⟨hlen _ hmax, rfl⟩, ok_bind], ?_, ?_⟩
    · exact ne_nil_of_length_pos (by simp only [length_append, length_leBytes]; omega)
    · simp only [length_append, length_leBytes, maxTableBlockDecodedBytes, maxTableKeyBytes] at hmin hmax ⊢
      omega

end Strata
