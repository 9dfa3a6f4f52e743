import StrataStorage.Format.Table.Blocks
import StrataStorage.Lib.Cut

/-!
# The streaming table encoder

`ImmutableTableStreamingEncoder` of `format/table/artifact.rs`: rows are
buffered and a data block is cut when it holds `rows_per_block` rows or its
estimated size reaches the target; the metadata follows the last block.

The blocks an encoder cuts depend on the rows alone (`cutRows`, `cutBlocks`).
`Encodes` relates an encoder to the rows it was given:

* `append_isOk`, `Encodes.append`: one more row is accepted exactly when the
  block it may complete is legal, and keeps `Encodes`;
* `finish_isOk`, `finish_describes`: when the table is completed, and what its
  properties say.
-/

namespace Strata

open Except List
open TableBlockFrame (new_eq_ok exists_new)

variable {rows : List StorageRow} {block : EncodedTableDataBlock}

def streamingEntrySizeEstimate (internalKeyLen valueLen : Nat) : Nat :=
  8 + internalKeyLen * 2 + valueLen + 38

def entryEncodedSizeEstimate (row : StreamingTableRow) : Nat :=
  streamingEntrySizeEstimate row.internalKeyBytes.length row.row.value.length

/-- `ImmutableTableStreamingEncoder`. How many rows were buffered at the peak
is a statistic and left out. -/
structure ImmutableTableStreamingEncoder where
  targetDataBlockSize : Nat
  rowsPerBlock : Nat
  compression : TableCompression
  tableBytes : Bytes
  currentBlockRows : List StreamingTableRow
  currentBlockEstimatedBytes : Nat
  indexEntries : List TableIndexRecord
  rowCount : Nat
  commitMin : Option CommitVersion
  commitMax : Option CommitVersion

structure ImmutableTableStreamingOutput where
  bytes : Bytes
  rowCount : Nat
  dataBlockCount : Nat
  minKeyBytes : Bytes
  maxKeyBytes : Bytes
  commitMin : CommitVersion
  commitMax : CommitVersion

/-- The version to keep of a running extreme and the next one: the running one
where `keeps` says so. -/
def trackVersion (keeps : CommitVersion → CommitVersion → Bool) (current : Option CommitVersion)
    (version : CommitVersion) : Option CommitVersion :=
  match current with
  | some current => if keeps current version then some current else some version
  | none => some version

/-- The running `commit_min`. -/
def trackMin : Option CommitVersion → CommitVersion → Option CommitVersion :=
  trackVersion fun current version => current ≤ version

/-- The running `commit_max`. -/
def trackMax : Option CommitVersion → CommitVersion → Option CommitVersion :=
  trackVersion fun current version => version ≤ current

def validateBuildCounts (rowCount blockCount targetDataBlockSize : Nat) : Except FormatError Unit := do
  .require (targetDataBlockSize ≠ 0) (.invalidLength "target_data_block_size")
  .require (rowCount ≠ 0 ∧ rowCount ≤ maxTableRows) (.invalidLength "row_count")
  .require (blockCount ≠ 0 ∧ blockCount ≤ maxTableDataBlocks) (.invalidLength "data_block_count")

namespace ImmutableTableStreamingEncoder

def new (targetDataBlockSize rowsPerBlock : Nat) (compression : TableCompression) :
    Except FormatError ImmutableTableStreamingEncoder := do
  .require (targetDataBlockSize ≠ 0) (.invalidLength "target_data_block_size")
  .require (rowsPerBlock ≠ 0) (.invalidLength "rows_per_block")
  .ok ⟨targetDataBlockSize, rowsPerBlock, compression, List.replicate tableHeaderSize 0, [], 0, [], 0, none, none⟩

def flushCurrentBlock (codec : TableCodec) (encoder : ImmutableTableStreamingEncoder) :
    Except FormatError ImmutableTableStreamingEncoder := do
  if encoder.currentBlockRows.isEmpty then .ok encoder
  else
    .require (encoder.indexEntries.length + 1 ≤ maxTableDataBlocks) (.invalidLength "data_block_count")
    let encodedBlock ← encodeTableDataBlockFromEncodedRows encoder.currentBlockRows
    let rowCount ← toU32 encodedBlock.rowCount "row_count"
    let frame ← TableBlockFrame.new .data encoder.compression encodedBlock.payload
    let frameBytes ← encodeTableBlockFrame codec frame
    let blockFrameLen ← toU32 frameBytes.length "block_frame_len"
    let entry ← TableIndexRecord.new encodedBlock.firstKeyBytes encodedBlock.lastKeyBytes
      encoder.tableBytes.length blockFrameLen rowCount
    .ok { encoder with
      currentBlockRows := []
      currentBlockEstimatedBytes := 0
      indexEntries := encoder.indexEntries ++ [entry]
      tableBytes := encoder.tableBytes ++ frameBytes }

def appendStreamingRow (codec : TableCodec) (encoder : ImmutableTableStreamingEncoder)
    (row : StreamingTableRow) : Except FormatError ImmutableTableStreamingEncoder := do
  .require (encoder.rowCount + 1 ≤ maxTableRows) (.invalidLength "row_count")
  let encoder := { encoder with
    commitMin := trackMin encoder.commitMin row.row.commitVersion
    commitMax := trackMax encoder.commitMax row.row.commitVersion
    rowCount := encoder.rowCount + 1
    currentBlockEstimatedBytes := encoder.currentBlockEstimatedBytes + entryEncodedSizeEstimate row
    currentBlockRows := encoder.currentBlockRows ++ [row] }
  if encoder.currentBlockRows.length = encoder.rowsPerBlock ∨
      encoder.targetDataBlockSize ≤ encoder.currentBlockEstimatedBytes then
    encoder.flushCurrentBlock codec
  else .ok encoder

/-- The optional filter frame, between the data blocks and the index. -/
def filterFrameBytes (codec : TableCodec) (filter : Option TableFilterFrame) : Except FormatError Bytes :=
  match filter with
  | none => .ok []
  | some filter => encodeFilterFrame codec filter

/-- `finish_with_metadata`, after the last block: the header, the filter, the
index, the properties and the footer. -/
def writeMetadata (codec : TableCodec) (encoder : ImmutableTableStreamingEncoder)
    (filter : Option TableFilterFrame) : Except FormatError ImmutableTableStreamingOutput := do
  let dataBlockCount := encoder.indexEntries.length
  validateBuildCounts encoder.rowCount dataBlockCount encoder.targetDataBlockSize
  let commitMin ← encoder.commitMin.okOr (.invalidLength "row_count")
  let commitMax ← encoder.commitMax.okOr (.invalidLength "row_count")
  let firstEntry ← encoder.indexEntries.head?.okOr (.invalidLength "row_count")
  let lastEntry ← encoder.indexEntries.getLast?.okOr (.invalidLength "row_count")
  let dataBlockCountU32 ← toU32 dataBlockCount "data_block_count"
  let properties ← TableProperties.new encoder.rowCount dataBlockCountU32 commitMin commitMax
    firstEntry.firstKey lastEntry.lastKey
  let header ← TableHeader.new encoder.targetDataBlockSize properties.dataBlockCount
    properties.rowCount properties.commitMin properties.commitMax
  let tableBytes := encodeTableHeader header ++ encoder.tableBytes.drop tableHeaderSize
  let filterBytes ← filterFrameBytes codec filter
  let filterFrameLen ← toU32 filterBytes.length "filter_block_frame_len"
  let filterOffset := if filter.isSome then tableBytes.length else 0
  let tableBytes := tableBytes ++ filterBytes
  validateTableIndexBlock encoder.indexEntries
  let indexPayload ← encodeTableIndexBlock encoder.indexEntries
  let indexFrame ← TableBlockFrame.new .index .uncompressed indexPayload
  let indexOffset := tableBytes.length
  let indexFrameBytes ← encodeTableBlockFrame codec indexFrame
  let indexFrameLen ← toU32 indexFrameBytes.length "index_block_frame_len"
  let tableBytes := tableBytes ++ indexFrameBytes
  let propertiesPayload ← encodeTableProperties properties
  let propertiesFrame ← TableBlockFrame.new .properties .uncompressed propertiesPayload
  let propertiesOffset := tableBytes.length
  let propertiesFrameBytes ← encodeTableBlockFrame codec propertiesFrame
  let propertiesFrameLen ← toU32 propertiesFrameBytes.length "properties_block_frame_len"
  let tableBytes := tableBytes ++ propertiesFrameBytes
  let footer ← TableFooter.newWithFilter indexOffset indexFrameLen filterOffset filterFrameLen
    propertiesOffset propertiesFrameLen
  let footerBytes ← encodeTableFooter codec footer tableBytes
  .ok ⟨tableBytes ++ footerBytes, properties.rowCount, properties.dataBlockCount, properties.minKey,
    properties.maxKey, properties.commitMin, properties.commitMax⟩

def finishWithMetadata (codec : TableCodec) (encoder : ImmutableTableStreamingEncoder)
    (filter : Option TableFilterFrame) : Except FormatError ImmutableTableStreamingOutput := do
  let encoder ← encoder.flushCurrentBlock codec
  encoder.writeMetadata codec filter

end ImmutableTableStreamingEncoder

/-! ## Where blocks are cut -/

/-- The estimate of a row's entry. -/
def StorageRow.sizeEstimate (row : StorageRow) : Nat := entryEncodedSizeEstimate row.streaming

/-- The estimate of a block's payload. -/
def blockEstimate (rows : List StorageRow) : Nat := (rows.map (·.sizeEstimate)).sum

/-- A block is cut at the row limit or the byte target. -/
def blockFull (target rowsPerBlock : Nat) (rows : List StorageRow) : Bool :=
  decide (rows.length = rowsPerBlock) || decide (target ≤ blockEstimate rows)

/-- The data blocks of a table as the encoder cuts them. -/
def cutRows (target rowsPerBlock : Nat) (rows : List StorageRow) : Cut StorageRow :=
  Cut.ofList (blockFull target rowsPerBlock) rows

/-- The data blocks of a table. -/
def cutBlocks (target rowsPerBlock : Nat) (rows : List StorageRow) : List (List StorageRow) :=
  (cutRows target rowsPerBlock rows).blocks

theorem cutRows_append (target rowsPerBlock : Nat) (rows : List StorageRow) (row : StorageRow) :
    cutRows target rowsPerBlock (rows ++ [row]) =
      (cutRows target rowsPerBlock rows).push (blockFull target rowsPerBlock) row :=
  Cut.ofList_append _ rows row

/-- The payload of the data block of some rows. -/
def dataBlockPayload (rows : List StorageRow) : Bytes :=
  match encodeTableDataBlockFromEncodedRows (rows.map (·.streaming)) with
  | .ok block => block.payload
  | .error _ => []

/-- A block within the limits of the format, also once it is compressed. -/
structure LegalBlock (codec : TableCodec) (compression : TableCompression)
    (rows : List StorageRow) : Prop where
  entries_le : rows.length ≤ maxTableBlockEntries
  payload_le : dataBlockLen rows ≤ maxTableBlockDecodedBytes
  compressed : compression = .zstd → ∃ encoded, codec.zstdCompress (dataBlockPayload rows) = some encoded ∧
    encoded.length ≠ 0 ∧ encoded.length ≤ maxTableBlockEncodedBytes

theorem dataBlockPayload_eq (h : encodeTableDataBlockFromEncodedRows (rows.map (·.streaming)) = .ok block) :
    dataBlockPayload rows = block.payload := by rw [dataBlockPayload, h]

theorem dataBlockLen_pos (rows : List StorageRow) : 0 < dataBlockLen rows := by
  unfold dataBlockLen; omega

/-- What the format asks of the rows of a table. -/
structure TableRows (rows : List StorageRow) : Prop where
  sorted : SortedRows rows
  encodable : ∀ row ∈ rows, row.Encodable

theorem TableRows.sublist {rows' : List StorageRow} (h : TableRows rows) (hsub : rows'.Sublist rows) :
    TableRows rows' := ⟨h.sorted.sublist hsub, fun row hrow => h.encodable row (hsub.subset hrow)⟩

theorem indexEntry_eq (hne : rows ≠ []) : indexEntry rows = ⟨(rows.head hne).key, (rows.getLast hne).key⟩ := by
  rw [indexEntry, head?_eq_some_head hne, getLast?_eq_some_getLast hne]; rfl

theorem TableRows.head_le_getLast (h : TableRows rows) (hne : rows ≠ []) :
    (rows.head hne).key ≤ (rows.getLast hne).key := by
  cases rows with
  | nil => exact absurd rfl hne
  | cons row rows =>
    rcases mem_cons.mp (getLast_mem hne) with heq | hmem
    · rw [heq]; rfl
    · exact (rel_of_pairwise_cons h.sorted hmem).le

/-- The index entry of a block is accepted. -/
theorem TableRows.indexRecord (h : TableRows rows) (hne : rows ≠ []) (offset : Nat)
    {frameLen rowCount : Nat} (hframe : frameLen ≠ 0) (hcount : rowCount ≠ 0) :
    TableIndexRecord.new (rows.head hne).key (rows.getLast hne).key offset frameLen rowCount =
      .ok ⟨indexEntry rows, offset, frameLen, rowCount⟩ := by
  have hlen : ∀ row ∈ rows, row.key.length ≠ 0 ∧ row.key.length ≤ maxTableKeyBytes :=
    fun row hrow => ⟨row.key_length_ne_zero, (h.encodable row hrow).1⟩
  simp only [TableIndexRecord.new, validateKeyLen, validateLen, require, hlen _ (head_mem hne), hlen
    _ (getLast_mem hne), StorageRow.decodeInternalKey_key, h.head_le_getLast hne, hframe, hcount, ne_eq, not_false_eq_true,
    and_self, ↓reduceIte, ok_bind, indexEntry_eq hne]

namespace ImmutableTableStreamingEncoder

variable {codec : TableCodec} {rows : List StorageRow} {filter : Option TableFilterFrame}
  {output : ImmutableTableStreamingOutput} {blocks : List (List StorageRow)}

/-- Framing the rows of a block succeeds exactly when the block is legal. -/
theorem frame_isOk {compression : TableCompression}
    (hblock : encodeTableDataBlockFromEncodedRows (rows.map (·.streaming)) = .ok block)
    (hentries : rows.length ≤ maxTableBlockEntries) :
    (∃ frame bytes, TableBlockFrame.new .data compression block.payload = .ok frame ∧
      encodeTableBlockFrame codec frame = .ok bytes) ↔ LegalBlock codec compression rows := by
  have hlen := (encodeTableDataBlock_eq_ok hblock).1
  have hpos := dataBlockLen_pos rows
  have hpayload : block.payload.length ≠ 0 := by omega
  constructor
  · rintro ⟨frame, bytes, hframe, hbytes⟩
    obtain ⟨-, rfl, hdecoded⟩ := new_eq_ok.mp hframe
    have hle := frame.payload_length.2
    have hencoded := encodeTableBlockFrame_isOk.mp ⟨bytes, hbytes⟩
    rw [hdecoded] at hle hencoded
    refine ⟨hentries, hlen ▸ hle, ?_⟩
    rw [dataBlockPayload_eq hblock]
    exact (encodePayload_isOk hpayload hle).mp hencoded
  · intro hlegal
    have hle : block.payload.length ≤ maxTableBlockDecodedBytes := hlen ▸ hlegal.payload_le
    obtain ⟨frame, hframe⟩ := exists_new
      (ne_nil_of_length_pos (Nat.pos_of_ne_zero hpayload)) hle .data compression
    obtain ⟨-, rfl, hdecoded⟩ := new_eq_ok.mp hframe
    have hcompressed := hlegal.compressed
    rw [dataBlockPayload_eq hblock, ← encodePayload_isOk hpayload hle, ← hdecoded] at hcompressed
    obtain ⟨bytes, hbytes⟩ := encodeTableBlockFrame_isOk.mpr hcompressed
    exact ⟨frame, bytes, hframe, hbytes⟩

section Flush

variable {codec : TableCodec} {encoder encoder' : ImmutableTableStreamingEncoder} {rows : List StorageRow}

theorem flushCurrentBlock_nil (h : encoder.currentBlockRows = []) :
    encoder.flushCurrentBlock codec = .ok encoder := by
  rw [flushCurrentBlock, h]; rfl

section

variable (hcurrent : encoder.currentBlockRows = rows.map (·.streaming))
include hcurrent

theorem isEmpty_currentBlockRows (hne : rows ≠ []) : encoder.currentBlockRows.isEmpty = false := by
  simpa [hcurrent] using hne

/-- Completing a block succeeds exactly when the block is legal and the index
has room for it. -/
theorem flushCurrentBlock_isOk (hne : rows ≠ []) (hrows : TableRows rows) :
    (∃ encoder', encoder.flushCurrentBlock codec = .ok encoder') ↔
      encoder.indexEntries.length + 1 ≤ maxTableDataBlocks ∧ LegalBlock codec encoder.compression rows := by
  simp only [flushCurrentBlock, isEmpty_currentBlockRows hcurrent hne, Bool.false_eq_true, ↓reduceIte,
    bind_eq_ok, require_eq_ok, toU32_eq_ok]
  rw [hcurrent]
  constructor
  · rintro ⟨_, -, hcount, block, hblock, _, -, frame, hframe, bytes, hbytes, -⟩
    have hentries := (encodeTableDataBlock_isOk.mp ⟨block, hblock⟩).2.2.2
    exact ⟨hcount, (frame_isOk hblock hentries).mp ⟨frame, bytes, hframe, hbytes⟩⟩
  · rintro ⟨hcount, hlegal⟩
    obtain ⟨block, hblock⟩ := encodeTableDataBlock_isOk.mpr ⟨hrows.encodable, hrows.sorted, hne, hlegal.entries_le⟩
    obtain ⟨frame, bytes, hframe, hbytes⟩ := (frame_isOk hblock hlegal.entries_le).mpr hlegal
    obtain ⟨-, hrowCount, hfirst, hlast⟩ := encodeTableDataBlock_eq_ok hblock
    have hlen := length_encodeTableBlockFrame hbytes
    simp only [tableBlockFrameOverhead, maxTableBlockEncodedBytes] at hlen
    have hrow32 : block.rowCount < 2 ^ 32 := by
      rw [hrowCount]; exact lt_of_le_of_lt hlegal.entries_le (by decide)
    have hrow0 : block.rowCount ≠ 0 := by rw [hrowCount]; simpa using hne
    rw [head?_eq_some_head hne, Option.map_some, Option.some.injEq] at hfirst
    rw [getLast?_eq_some_getLast hne, Option.map_some, Option.some.injEq] at hlast
    have hentry := hrows.indexRecord hne encoder.tableBytes.length (by omega : bytes.length ≠ 0) hrow0
    rw [hfirst, hlast] at hentry
    exact ⟨_, (), hcount, block, hblock, _, ⟨hrow32, rfl⟩, frame, hframe, bytes, hbytes, _,
      ⟨by omega, rfl⟩, _, hentry, rfl⟩

/-- What completing a block changes. -/
theorem flushCurrentBlock_eq_ok (hne : rows ≠ []) (h : encoder.flushCurrentBlock codec = .ok encoder') :
    ∃ entry frameBytes, entry.toTableIndexEntry = indexEntry rows ∧
      encoder' = { encoder with
        currentBlockRows := []
        currentBlockEstimatedBytes := 0
        indexEntries := encoder.indexEntries ++ [entry]
        tableBytes := encoder.tableBytes ++ frameBytes } := by
  simp only [flushCurrentBlock, isEmpty_currentBlockRows hcurrent hne, Bool.false_eq_true, ↓reduceIte, bind_eq_ok] at h
  rw [hcurrent] at h
  obtain ⟨-, -, block, hblock, _, -, _, -, frameBytes, -, _, -, entry, hentry, h⟩ := h
  cases h
  obtain ⟨-, -, hfirst, hlast⟩ := encodeTableDataBlock_eq_ok hblock
  refine ⟨entry, frameBytes, ?_, rfl⟩
  simp only [TableIndexRecord.new, bind_eq_ok] at hentry
  obtain ⟨-, -, -, -, -, -, -, -, -, -, -, -, -, -, hentry⟩ := hentry
  cases hentry
  rw [indexEntry, hfirst, hlast]; rfl

end

end Flush

/-! ## One more row -/

/-- An encoder that was given these rows. -/
structure Encodes (target rowsPerBlock : Nat) (compression : TableCompression)
    (rows : List StorageRow) (encoder : ImmutableTableStreamingEncoder) : Prop where
  target_eq : encoder.targetDataBlockSize = target
  rowsPerBlock_eq : encoder.rowsPerBlock = rowsPerBlock
  compression_eq : encoder.compression = compression
  current_eq : encoder.currentBlockRows = (cutRows target rowsPerBlock rows).current.map (·.streaming)
  estimate_eq : encoder.currentBlockEstimatedBytes = blockEstimate (cutRows target rowsPerBlock rows).current
  index_eq : encoder.indexEntries.map (·.toTableIndexEntry) =
    (cutRows target rowsPerBlock rows).closed.map indexEntry
  rowCount_eq : encoder.rowCount = rows.length
  header_le : tableHeaderSize ≤ encoder.tableBytes.length
  commitMin_eq : encoder.commitMin = rows.foldl (fun m row => trackMin m row.commitVersion) none
  commitMax_eq : encoder.commitMax = rows.foldl (fun m row => trackMax m row.commitVersion) none

section Append

variable {target rowsPerBlock : Nat} {compression : TableCompression} {rows : List StorageRow}
  {codec : TableCodec} {encoder encoder' : ImmutableTableStreamingEncoder} {row : StorageRow}

theorem encodes_new (h : new target rowsPerBlock compression = .ok encoder) :
    Encodes target rowsPerBlock compression [] encoder := by
  simp only [new, bind_eq_ok] at h
  obtain ⟨-, -, -, -, h⟩ := h
  cases h
  exact ⟨rfl, rfl, rfl, rfl, rfl, rfl, rfl, by simp, rfl, rfl⟩

/-- The blocks cut so far are legal and the index has room for them. -/
structure LegalCut (codec : TableCodec) (compression : TableCompression)
    (blocks : List (List StorageRow)) : Prop where
  count_le : blocks.length ≤ maxTableDataBlocks
  legal : ∀ block ∈ blocks, LegalBlock codec compression block

theorem legalCut_append {block : List StorageRow} :
    LegalCut codec compression (blocks ++ [block]) ↔ LegalCut codec compression blocks ∧
      blocks.length + 1 ≤ maxTableDataBlocks ∧ LegalBlock codec compression block := by
  constructor
  · intro h
    have hcount := h.count_le
    rw [length_append, length_singleton] at hcount
    exact ⟨⟨by omega, fun b hb => h.legal b (mem_append_left _ hb)⟩, hcount,
      h.legal block (mem_append_right _ mem_cons_self)⟩
  · rintro ⟨h, hcount, hblock⟩
    refine ⟨by rw [length_append, length_singleton]; exact hcount, fun b hb => ?_⟩
    rcases mem_append.mp hb with hb | hb
    · exact h.legal b hb
    · rw [mem_singleton.mp hb]; exact hblock

theorem Encodes.length_indexEntries (h : Encodes target rowsPerBlock compression rows encoder) :
    encoder.indexEntries.length = (cutRows target rowsPerBlock rows).closed.length := by
  simpa using congrArg length h.index_eq

/-- The encoder after a row is added and before a block is cut. -/
def buffer (encoder : ImmutableTableStreamingEncoder) (row : StorageRow) :
    ImmutableTableStreamingEncoder :=
  { encoder with
    commitMin := trackMin encoder.commitMin row.commitVersion
    commitMax := trackMax encoder.commitMax row.commitVersion
    rowCount := encoder.rowCount + 1
    currentBlockEstimatedBytes := encoder.currentBlockEstimatedBytes + row.sizeEstimate
    currentBlockRows := encoder.currentBlockRows ++ [row.streaming] }

section

variable (h : Encodes target rowsPerBlock compression rows encoder)
include h

theorem Encodes.appendStreamingRow_eq (row : StorageRow) : encoder.appendStreamingRow codec row.streaming =
      (require (rows.length + 1 ≤ maxTableRows) (.invalidLength "row_count") >>= fun _ =>
        if blockFull target rowsPerBlock ((cutRows target rowsPerBlock rows).current ++ [row]) then
          (encoder.buffer row).flushCurrentBlock codec
        else .ok (encoder.buffer row)) := by
  simp [appendStreamingRow, h.rowCount_eq, h.current_eq, h.estimate_eq, h.target_eq, h.rowsPerBlock_eq,
    buffer, blockFull, blockEstimate, StorageRow.sizeEstimate, StorageRow.streaming]

theorem Encodes.buffer_current (row : StorageRow) : (encoder.buffer row).currentBlockRows =
      ((cutRows target rowsPerBlock rows).current ++ [row]).map (·.streaming) := by
  simp [buffer, h.current_eq]

end

theorem tableRows_current (hrows : TableRows (rows ++ [row])) :
    TableRows ((cutRows target rowsPerBlock rows).current ++ [row]) :=
  hrows.sublist ((Cut.current_sublist _ rows).append (List.Sublist.refl _))

section

variable (h : Encodes target rowsPerBlock compression rows encoder)
include h

/-- One more row is accepted exactly when the row count allows it and the block
it completes, if any, is legal. -/
theorem append_isOk (hrows : TableRows (rows ++ [row]))
    (hcut : LegalCut codec compression (cutRows target rowsPerBlock rows).closed) :
    (∃ encoder', encoder.appendStreamingRow codec row.streaming = .ok encoder') ↔ rows.length + 1 ≤ maxTableRows ∧
        LegalCut codec compression (cutRows target rowsPerBlock (rows ++ [row])).closed := by
  rw [h.appendStreamingRow_eq, cutRows_append, Cut.push]
  simp only [bind_eq_ok, require_eq_ok]
  split
  · rw [legalCut_append, ← h.length_indexEntries, ← h.compression_eq]
    have hflush : (∃ encoder', (encoder.buffer row).flushCurrentBlock codec = .ok encoder') ↔ _ :=
      flushCurrentBlock_isOk (h.buffer_current row) (by simp) (tableRows_current hrows)
    constructor
    · rintro ⟨_, -, hcount, hencoder⟩
      exact ⟨hcount, h.compression_eq ▸ hcut, hflush.mp ⟨_, hencoder⟩⟩
    · rintro ⟨hcount, -, hlegal⟩
      obtain ⟨encoder', hencoder⟩ := hflush.mpr hlegal
      exact ⟨encoder', (), hcount, hencoder⟩
  · constructor
    · rintro ⟨_, _, hcount, -⟩
      exact ⟨hcount, hcut⟩
    · exact fun h' => ⟨_, (), h'.1, rfl⟩

/-- And the encoder then was given that row too. -/
theorem Encodes.append (hok : encoder.appendStreamingRow codec row.streaming = .ok encoder') :
    Encodes target rowsPerBlock compression (rows ++ [row]) encoder' := by
  have hcommit : ∀ (f : Option CommitVersion → CommitVersion → Option CommitVersion),
      (rows ++ [row]).foldl (fun m r => f m r.commitVersion) none =
        f (rows.foldl (fun m r => f m r.commitVersion) none) row.commitVersion := fun f => by
    rw [foldl_append]; rfl
  rw [h.appendStreamingRow_eq] at hok
  simp only [bind_eq_ok] at hok
  obtain ⟨-, -, hok⟩ := hok
  have hpush := cutRows_append target rowsPerBlock rows row
  rw [Cut.push] at hpush
  split_ifs at hok with hfull
  · rw [if_pos hfull] at hpush
    obtain ⟨entry, frameBytes, hentry, rfl⟩ := flushCurrentBlock_eq_ok (h.buffer_current row) (by simp) hok
    refine ⟨h.target_eq, h.rowsPerBlock_eq, h.compression_eq, by rw [hpush]; rfl,
      by rw [hpush]; rfl, ?_, by simp [buffer, h.rowCount_eq], ?_, ?_, ?_⟩
    · simp [buffer, hpush, h.index_eq, hentry]
    · simpa [buffer] using h.header_le.trans (Nat.le_add_right _ _)
    · rw [hcommit trackMin, ← h.commitMin_eq]; rfl
    · rw [hcommit trackMax, ← h.commitMax_eq]; rfl
  · rw [if_neg hfull] at hpush
    cases hok
    refine ⟨h.target_eq, h.rowsPerBlock_eq, h.compression_eq, by rw [hpush, h.buffer_current],
      by simp [buffer, hpush, h.estimate_eq, blockEstimate], by simp [buffer, hpush, h.index_eq],
      by simp [buffer, h.rowCount_eq], h.header_le, ?_, ?_⟩
    · rw [hcommit trackMin, ← h.commitMin_eq]; rfl
    · rw [hcommit trackMax, ← h.commitMax_eq]; rfl

end

end Append

/-! ## The metadata -/

/-- The version a run keeps is one of the rows', and is preferred to each. -/
theorem foldl_trackVersion (keeps : CommitVersion → CommitVersion → Bool)
    (htotal : ∀ a b, keeps a b = true ∨ keeps b a = true)
    (htrans : ∀ a b c, keeps a b = true → keeps b c = true → keeps a c = true) (hne : rows ≠ []) :
    ∃ m, rows.foldl (fun m row => trackVersion keeps m row.commitVersion) none = some m ∧
      (∃ row ∈ rows, row.commitVersion = m) ∧ ∀ row ∈ rows, keeps m row.commitVersion = true := by
  have hrefl : ∀ a, keeps a a = true := fun a => or_self_iff.mp (htotal a a)
  induction rows using reverseRecOn with
  | nil => exact absurd rfl hne
  | append_singleton rows row ih =>
    rw [foldl_append, foldl_cons, foldl_nil]
    by_cases hrows : rows = []
    · subst hrows
      exact ⟨row.commitVersion, rfl, ⟨row, by simp, rfl⟩, by simpa using hrefl _⟩
    · obtain ⟨m, hm, ⟨r, hr, hrm⟩, hle⟩ := ih hrows
      have hmem : ∀ x ∈ rows ++ [row], x ∈ rows ∨ x = row := by simp
      rw [hm, trackVersion]
      split_ifs with h
      · refine ⟨m, rfl, ⟨r, mem_append_left _ hr, hrm⟩, fun x hx => ?_⟩
        rcases hmem x hx with hx | rfl
        · exact hle x hx
        · exact h
      · have hback := (htotal m row.commitVersion).resolve_left h
        refine ⟨row.commitVersion, rfl, ⟨row, by simp, rfl⟩, fun x hx => ?_⟩
        rcases hmem x hx with hx | rfl
        · exact htrans _ _ _ hback (hle x hx)
        · exact hrefl _

theorem foldl_trackMin (hne : rows ≠ []) :
    ∃ m, rows.foldl (fun m row => trackMin m row.commitVersion) none = some m ∧
      (∃ row ∈ rows, row.commitVersion = m) ∧ ∀ row ∈ rows, m ≤ row.commitVersion := by
  simpa [trackMin] using foldl_trackVersion (fun current version => current ≤ version)
    (by simpa using le_total) (by simpa using fun a b c => le_trans) hne

theorem foldl_trackMax (hne : rows ≠ []) :
    ∃ m, rows.foldl (fun m row => trackMax m row.commitVersion) none = some m ∧
      (∃ row ∈ rows, row.commitVersion = m) ∧ ∀ row ∈ rows, row.commitVersion ≤ m := by
  simpa [trackMax] using foldl_trackVersion (fun current version => version ≤ current)
    (by simpa using fun a b => le_total b a) (by simpa using fun a b c h h' => le_trans h' h) hne

/-- The index entries of consecutive blocks of sorted rows are in order. -/
theorem validateIndexEntryOrder_ok {entries : List TableIndexRecord}
    (hentries : entries.map (·.toTableIndexEntry) = blocks.map indexEntry)
    (hne : ∀ block ∈ blocks, block ≠ []) (hrows : TableRows blocks.flatten) :
    validateIndexEntryOrder entries = .ok () := by
  induction entries generalizing blocks with
  | nil => rfl
  | cons left entries ih =>
    cases blocks with
    | nil => cases hentries
    | cons block blocks =>
      rw [map_cons, map_cons, cons.injEq] at hentries
      rw [flatten_cons] at hrows
      cases entries with
      | nil => rfl
      | cons right entries =>
        cases blocks with
        | nil => cases hentries.2
        | cons block' blocks =>
          have hb := hne block mem_cons_self
          have hb' := hne block' (mem_cons_of_mem _ mem_cons_self)
          have hleft : left.toTableIndexEntry = indexEntry block := hentries.1
          have hright : right.toTableIndexEntry = indexEntry block' := by
            have := hentries.2
            rw [map_cons, map_cons, cons.injEq] at this
            exact this.1
          rw [indexEntry_eq hb] at hleft
          rw [indexEntry_eq hb'] at hright
          have hlt : ∀ row ∈ block, row.key < right.firstKey := fun row hrow => by
            rw [hright]
            exact (pairwise_append.mp hrows.sorted).2.2 row hrow _ (mem_append_left _ (head_mem hb'))
          have h₁ : left.firstKey < right.firstKey := by
            rw [hleft]; exact hlt _ (head_mem hb)
          have h₂ : left.lastKey < right.firstKey := by
            rw [hleft]; exact hlt _ (getLast_mem hb)
          have hrest := ih hentries.2 (fun b hb => hne b (mem_cons_of_mem _ hb))
            (hrows.sublist (sublist_append_right _ _))
          simp [validateIndexEntryOrder, require, h₁, h₂, hrest]

/-- The filters the format accepts. -/
def LegalFilter (filter : TableFilterFrame) : Prop :=
  filter.probes ≤ maxFilterProbes ∧ filter.bits.length ≤ maxFilterBitsBytes ∧
    filter.bits.length = (filter.bitCount + 7) / 8

theorem filterFrameBytes_isOk :
    (∃ bytes, filterFrameBytes codec filter = .ok bytes) ↔ ∀ f ∈ filter, LegalFilter f := by
  cases filter with
  | none => simp [filterFrameBytes]
  | some f => simpa [filterFrameBytes, LegalFilter] using encodeFilterFrame_isOk

theorem length_filterFrameBytes {bytes : Bytes} (h : filterFrameBytes codec filter = .ok bytes) :
    bytes.length < 2 ^ 32 ∧ (filter.isSome = true ↔ bytes.length ≠ 0) := by
  cases filter with
  | none => cases h; simp
  | some f =>
    have := length_encodeFilterFrame h
    exact ⟨this.2, by simp only [Option.isSome_some, true_iff]; omega⟩

/-- A legal payload that is not compressed has a frame. -/
theorem frame_uncompressed (codec : TableCodec) (kind : TableBlockKind) {payload : Bytes}
    (hne : payload ≠ []) (hle : payload.length ≤ maxTableBlockDecodedBytes) :
    ∃ frame bytes, TableBlockFrame.new kind .uncompressed payload = .ok frame ∧
      encodeTableBlockFrame codec frame = .ok bytes ∧ bytes.length ≠ 0 ∧ bytes.length < 2 ^ 32 := by
  obtain ⟨frame, hframe⟩ := exists_new hne hle kind .uncompressed
  obtain ⟨bytes, hbytes⟩ := encodeTableBlockFrame_uncompressed codec (new_eq_ok.mp hframe).2.1
  have hlen := length_encodeTableBlockFrame hbytes
  simp only [tableBlockFrameOverhead, maxTableBlockEncodedBytes] at hlen
  exact ⟨frame, bytes, hframe, hbytes, by omega, by omega⟩

/-- An encoder whose blocks are all cut. -/
structure Complete (target : Nat) (rows : List StorageRow) (blocks : List (List StorageRow))
    (encoder : ImmutableTableStreamingEncoder) : Prop where
  target_eq : encoder.targetDataBlockSize = target
  index_eq : encoder.indexEntries.map (·.toTableIndexEntry) = blocks.map indexEntry
  rowCount_eq : encoder.rowCount = rows.length
  header_le : tableHeaderSize ≤ encoder.tableBytes.length
  commitMin_eq : encoder.commitMin = rows.foldl (fun m row => trackMin m row.commitVersion) none
  commitMax_eq : encoder.commitMax = rows.foldl (fun m row => trackMax m row.commitVersion) none
  flatten_eq : blocks.flatten = rows
  blocks_ne_nil : ∀ block ∈ blocks, block ≠ []

section Metadata

variable {target : Nat} {rows : List StorageRow} {blocks : List (List StorageRow)}
  {codec : TableCodec} {encoder : ImmutableTableStreamingEncoder} {filter : Option TableFilterFrame}

section

variable (h : Complete target rows blocks encoder)
include h

/-- The first index entry begins with the first row, the last ends with the
last row. -/
theorem Complete.index_ends (hne : rows ≠ []) : ∃ first last, encoder.indexEntries.head? = some first ∧
      encoder.indexEntries.getLast? = some last ∧ first.firstKey = (rows.head hne).key ∧
      last.lastKey = (rows.getLast hne).key := by
  have hblocks : blocks ≠ [] := fun hnil => hne (by rw [← h.flatten_eq, hnil]; rfl)
  have hfirst : encoder.indexEntries.head?.map (·.toTableIndexEntry) =
      some (indexEntry (blocks.head hblocks)) := by
    rw [← head?_map, h.index_eq, head?_map, head?_eq_some_head hblocks]; rfl
  have hlast : encoder.indexEntries.getLast?.map (·.toTableIndexEntry) =
      some (indexEntry (blocks.getLast hblocks)) := by
    rw [← getLast?_map, h.index_eq, getLast?_map, getLast?_eq_some_getLast hblocks]; rfl
  obtain ⟨first, hfirst, hfirstEq⟩ := Option.map_eq_some_iff.mp hfirst
  obtain ⟨last, hlast, hlastEq⟩ := Option.map_eq_some_iff.mp hlast
  have hhead := h.blocks_ne_nil _ (head_mem hblocks)
  have hend := h.blocks_ne_nil _ (getLast_mem hblocks)
  refine ⟨first, last, hfirst, hlast, ?_, ?_⟩
  · have hrow : rows.head? = some ((blocks.head hblocks).head hhead) := by
      conv_lhs => rw [← h.flatten_eq, ← cons_head_tail hblocks, flatten_cons]
      rw [head?_append_of_ne_nil _ hhead, head?_eq_some_head hhead]
    rw [head?_eq_some_head hne, Option.some.injEq] at hrow
    rw [hfirstEq, indexEntry_eq hhead, hrow]
  · have hrow : rows.getLast? = some ((blocks.getLast hblocks).getLast hend) := by
      conv_lhs => rw [← h.flatten_eq, ← dropLast_append_getLast hblocks, flatten_append]
      simp [getLast?_append, getLast?_eq_some_getLast hend]
    rw [getLast?_eq_some_getLast hne, Option.some.injEq] at hrow
    rw [hlastEq, indexEntry_eq hend, hrow]

theorem Complete.length_indexEntries : encoder.indexEntries.length = blocks.length := by
  simpa using congrArg length h.index_eq

theorem Complete.legalKeys (hrows : TableRows rows) :
    ∀ entry ∈ encoder.indexEntries, entry.toTableIndexEntry.LegalKeys := by
  intro entry hentry
  have hmem : entry.toTableIndexEntry ∈ blocks.map indexEntry := h.index_eq ▸ mem_map_of_mem hentry
  obtain ⟨block, hblock, heq⟩ := mem_map.mp hmem
  have hne := h.blocks_ne_nil block hblock
  have hlen : ∀ row ∈ block, row.key.length ≠ 0 ∧ row.key.length ≤ maxTableKeyBytes :=
    fun row hrow => ⟨row.key_length_ne_zero, (hrows.encodable row
      (h.flatten_eq ▸ mem_flatten.mpr ⟨block, hblock, hrow⟩)).1⟩
  rw [← heq, indexEntry_eq hne]
  exact ⟨hlen _ (head_mem hne), hlen _ (getLast_mem hne)⟩

end

/-- What the properties of a table say of its rows. -/
structure Describes (rows : List StorageRow) (blockCount : Nat)
    (output : ImmutableTableStreamingOutput) : Prop where
  rowCount_eq : output.rowCount = rows.length
  dataBlockCount_eq : output.dataBlockCount = blockCount
  minKey_eq : rows.head?.map (·.key) = some output.minKeyBytes
  maxKey_eq : rows.getLast?.map (·.key) = some output.maxKeyBytes
  commitMin_mem : ∃ row ∈ rows, row.commitVersion = output.commitMin
  commitMin_le : ∀ row ∈ rows, output.commitMin ≤ row.commitVersion
  commitMax_mem : ∃ row ∈ rows, row.commitVersion = output.commitMax
  le_commitMax : ∀ row ∈ rows, row.commitVersion ≤ output.commitMax
  bytes_ne_nil : output.bytes ≠ []

/-- The parts of the metadata that are always written. -/
structure Metadata (encoder : ImmutableTableStreamingEncoder) (rows : List StorageRow)
    (blocks : List (List StorageRow)) where
  commitMin : CommitVersion
  commitMax : CommitVersion
  first : TableIndexRecord
  last : TableIndexRecord
  properties : TableProperties
  header : TableHeader
  indexPayload : Bytes
  propertiesPayload : Bytes
  counts : validateBuildCounts encoder.rowCount encoder.indexEntries.length encoder.targetDataBlockSize = .ok ()
  commitMin_eq : encoder.commitMin = some commitMin
  commitMax_eq : encoder.commitMax = some commitMax
  first_eq : encoder.indexEntries.head? = some first
  last_eq : encoder.indexEntries.getLast? = some last
  count_eq : toU32 encoder.indexEntries.length "data_block_count" = .ok encoder.indexEntries.length
  properties_eq : TableProperties.new encoder.rowCount encoder.indexEntries.length commitMin commitMax
    first.firstKey last.lastKey = .ok properties
  header_eq : TableHeader.new encoder.targetDataBlockSize properties.dataBlockCount
    properties.rowCount properties.commitMin properties.commitMax = .ok header
  index_valid : validateTableIndexBlock encoder.indexEntries = .ok ()
  index_eq : encodeTableIndexBlock encoder.indexEntries = .ok indexPayload
  index_length : indexPayload.length = indexBlockLen (blocks.map indexEntry)
  payload_eq : encodeTableProperties properties = .ok propertiesPayload
  payload_ne_nil : propertiesPayload ≠ []
  payload_le : propertiesPayload.length ≤ maxTableBlockDecodedBytes
  describes : ∀ bytes, bytes ≠ [] → Describes rows blocks.length ⟨bytes, properties.rowCount,
    properties.dataBlockCount, properties.minKey, properties.maxKey, properties.commitMin,
    properties.commitMax⟩

variable (h : Complete target rows blocks encoder) (hrows : TableRows rows) (htarget : target ≠ 0)
  (hne : rows ≠ []) (hcount : rows.length ≤ maxTableRows) (hblocks : blocks.length ≤ maxTableDataBlocks)

include h hrows htarget hne hcount hblocks

theorem Complete.metadata : Nonempty (Metadata encoder rows blocks) := by
  obtain ⟨commitMin, hmin, ⟨minRow, hminRow, hminEq⟩, hminLe⟩ := foldl_trackMin hne
  obtain ⟨commitMax, hmax, hmaxMem, hmaxLe⟩ := foldl_trackMax hne
  obtain ⟨first, last, hfirst, hlast, hfirstKey, hlastKey⟩ := h.index_ends hne
  have hlen := h.length_indexEntries
  have hblocksNe : blocks ≠ [] := fun hnil => hne (by rw [← h.flatten_eq, hnil]; rfl)
  have hrowCount : encoder.rowCount ≠ 0 ∧ encoder.rowCount ≤ maxTableRows := by
    rw [h.rowCount_eq]; exact ⟨by simpa using hne, hcount⟩
  have hblockCount : encoder.indexEntries.length ≠ 0 ∧ encoder.indexEntries.length ≤ maxTableDataBlocks := by
    rw [hlen]; exact ⟨by simpa using hblocksNe, hblocks⟩
  have hcommit : commitMin ≤ commitMax := (hminLe minRow hminRow).trans (hmaxLe minRow hminRow)
  obtain ⟨hproperties, propertiesPayload, hpayload, hpayloadNe, hpayloadLe⟩ :=
    encodeTableProperties_isOk hrowCount hblockCount hcommit (hrows.encodable _ (head_mem hne)).1
      (hrows.encodable _ (getLast_mem hne)).1 (hrows.head_le_getLast hne)
  have hheader : TableHeader.new encoder.targetDataBlockSize encoder.indexEntries.length
      encoder.rowCount commitMin commitMax = .ok ⟨encoder.targetDataBlockSize,
        encoder.indexEntries.length, encoder.rowCount, commitMin, commitMax⟩ := by
    simp [TableHeader.new, require, h.target_eq, htarget, hrowCount, hblockCount, hcommit]
  obtain ⟨indexPayload, hindex, hindexLen⟩ := encodeTableIndexBlock_isOk
    (by simpa using hblockCount.1) hblockCount.2 (h.legalKeys hrows)
  have horder := validateIndexEntryOrder_ok h.index_eq h.blocks_ne_nil (h.flatten_eq ▸ hrows)
  exact ⟨{
    commitMin, commitMax, first, last, indexPayload, propertiesPayload
    properties := _
    header := _
    counts := by
      simp [validateBuildCounts, require, h.target_eq, htarget, hrowCount, hblockCount]
    commitMin_eq := h.commitMin_eq.trans hmin
    commitMax_eq := h.commitMax_eq.trans hmax
    first_eq := hfirst
    last_eq := hlast
    count_eq := toU32_eq_ok.mpr ⟨lt_of_le_of_lt hblockCount.2 (by decide), rfl⟩
    properties_eq := by rw [hfirstKey, hlastKey]; exact hproperties
    header_eq := hheader
    index_valid := by simp [validateTableIndexBlock, require, hblockCount, horder]
    index_eq := hindex
    index_length := by rw [hindexLen, h.index_eq]
    payload_eq := hpayload
    payload_ne_nil := hpayloadNe
    payload_le := hpayloadLe
    describes := fun bytes hbytes => ⟨h.rowCount_eq, hlen, by rw [head?_eq_some_head hne]; rfl,
      by rw [getLast?_eq_some_getLast hne]; rfl, ⟨minRow, hminRow, hminEq⟩, hminLe, hmaxMem,
      hmaxLe, hbytes⟩ }⟩

/-- The metadata is written exactly when the filter is legal and the index fits
its block. -/
theorem writeMetadata_isOk : (∃ output, encoder.writeMetadata codec filter = .ok output) ↔
      (∀ f ∈ filter, LegalFilter f) ∧ indexBlockLen (blocks.map indexEntry) ≤ maxTableBlockDecodedBytes := by
  obtain ⟨parts⟩ := h.metadata hrows htarget hne hcount hblocks
  have hfilter : (∃ bytes, filterFrameBytes codec filter = .ok bytes) ↔ _ := filterFrameBytes_isOk
  rw [← hfilter, ← parts.index_length]
  simp only [writeMetadata, parts.counts, parts.commitMin_eq, parts.commitMax_eq, parts.first_eq,
    parts.last_eq, Option.okOr, parts.count_eq, parts.properties_eq, parts.header_eq,
    parts.index_valid, parts.index_eq, parts.payload_eq, ok_bind]
  constructor
  · intro hok
    simp only [bind_eq_ok] at hok
    obtain ⟨_, filterBytes, hfilterBytes, _, -, frame, hframe, -⟩ := hok
    have hle := frame.payload_length.2
    rw [(new_eq_ok.mp hframe).2.2] at hle
    exact ⟨⟨filterBytes, hfilterBytes⟩, hle⟩
  · rintro ⟨⟨filterBytes, hfilterBytes⟩, hindex⟩
    have hindexNe : parts.indexPayload ≠ [] := ne_nil_of_length_pos (by
      rw [parts.index_length, indexBlockLen]; omega)
    obtain ⟨hfilterLt, hfilterPos⟩ := length_filterFrameBytes hfilterBytes
    obtain ⟨indexFrame, indexBytes, hindexFrame, hindexBytes, hindexPos, hindexLt⟩ :=
      frame_uncompressed codec .index hindexNe hindex
    obtain ⟨propertiesFrame, propertiesBytes, hpropFrame, hpropBytes, hpropPos, hpropLt⟩ :=
      frame_uncompressed codec .properties parts.payload_ne_nil parts.payload_le
    simp only [hfilterBytes, hindexFrame, hindexBytes, hpropFrame, hpropBytes, toU32, hfilterLt,
      hindexLt, hpropLt, ↓reduceIte, TableFooter.newWithFilter, require, hindexPos, hpropPos,
      ne_eq, not_false_eq_true, ok_bind]
    rw [bind_ok_isOk]
    refine encodeTableFooter_isOk codec hindexPos hpropPos ?_ (fun hlen => ?_) (fun hlen => ?_) ?_ ?_
    · simp only [length_append, length_encodeTableHeader]
      omega
    · rw [if_pos (hfilterPos.mpr hlen)]
      simp only [length_append, length_encodeTableHeader, and_true]
      omega
    · rw [if_neg (fun hsome => hfilterPos.mp hsome hlen)]
    · simp only [length_append]
    · simp only [length_append]

/-- What the properties in the metadata say. -/
theorem writeMetadata_describes (hok : encoder.writeMetadata codec filter = .ok output) :
    Describes rows blocks.length output := by
  obtain ⟨parts⟩ := h.metadata hrows htarget hne hcount hblocks
  simp only [writeMetadata, parts.counts, parts.commitMin_eq, parts.commitMax_eq, parts.first_eq,
    parts.last_eq, Option.okOr, parts.count_eq, parts.properties_eq, parts.header_eq,
    parts.index_valid, parts.index_eq, parts.payload_eq, ok_bind, bind_eq_ok] at hok
  obtain ⟨_, -, _, -, _, -, _, -, _, -, _, -, _, -, _, -, _, -, _, -, hok⟩ := hok
  cases hok
  refine parts.describes _ (ne_nil_of_length_pos ?_)
  simp only [length_append, length_encodeTableHeader, tableHeaderSize]
  omega

end Metadata

/-! ## The whole table -/

section Finish

variable {target rowsPerBlock : Nat} {compression : TableCompression} {rows : List StorageRow}
  {codec : TableCodec} {encoder encoder' : ImmutableTableStreamingEncoder} {filter : Option TableFilterFrame}

theorem Encodes.complete (h : Encodes target rowsPerBlock compression rows encoder)
    (hok : encoder.flushCurrentBlock codec = .ok encoder') :
    Complete target rows (cutBlocks target rowsPerBlock rows) encoder' := by
  have hflatten : (cutBlocks target rowsPerBlock rows).flatten = rows := Cut.flatten_blocks_ofList _ rows
  have hblocks : ∀ block ∈ cutBlocks target rowsPerBlock rows, block ≠ [] := Cut.blocks_ne_nil _ rows
  by_cases hempty : (cutRows target rowsPerBlock rows).current = []
  · rw [flushCurrentBlock_nil (by rw [h.current_eq, hempty]; rfl)] at hok
    cases hok
    have hcut : cutBlocks target rowsPerBlock rows = (cutRows target rowsPerBlock rows).closed := by
      simp [cutBlocks, Cut.blocks, hempty]
    exact ⟨h.target_eq, hcut ▸ h.index_eq, h.rowCount_eq, h.header_le, h.commitMin_eq, h.commitMax_eq,
      hflatten, hblocks⟩
  · obtain ⟨entry, frameBytes, hentry, rfl⟩ := flushCurrentBlock_eq_ok h.current_eq hempty hok
    have hcut : cutBlocks target rowsPerBlock rows = (cutRows target rowsPerBlock rows).closed ++
        [(cutRows target rowsPerBlock rows).current] := by
      simp [cutBlocks, Cut.blocks, hempty]
    refine ⟨h.target_eq, ?_, h.rowCount_eq, ?_, h.commitMin_eq, h.commitMax_eq, hflatten, hblocks⟩
    · rw [hcut, map_append, map_append, h.index_eq, map_singleton, hentry, map_singleton]
    · simpa using h.header_le.trans (Nat.le_add_right _ _)

variable (h : Encodes target rowsPerBlock compression rows encoder) (hrows : TableRows rows)
  (hcut : LegalCut codec compression (cutRows target rowsPerBlock rows).closed)

include h hrows hcut

/-- The last block is completed exactly when it is legal. -/
theorem flush_isOk : (∃ encoder', encoder.flushCurrentBlock codec = .ok encoder') ↔
      LegalCut codec compression (cutBlocks target rowsPerBlock rows) := by
  rw [cutBlocks, Cut.blocks]
  split_ifs with hempty
  · rw [List.isEmpty_iff] at hempty
    exact ⟨fun _ => hcut, fun _ => ⟨encoder, flushCurrentBlock_nil (by rw [h.current_eq, hempty]; rfl)⟩⟩
  · rw [List.isEmpty_iff] at hempty
    rw [flushCurrentBlock_isOk h.current_eq hempty (hrows.sublist (Cut.current_sublist _ rows)),
      legalCut_append, h.length_indexEntries, h.compression_eq]
    exact ⟨fun h' => ⟨hcut, h'⟩, And.right⟩

/-- A table is completed exactly when its blocks are legal, its filter is legal
and its index fits a block. -/
theorem finish_isOk (htarget : target ≠ 0) (hne : rows ≠ []) (hcount : rows.length ≤ maxTableRows) :
    (∃ output, encoder.finishWithMetadata codec filter = .ok output) ↔
      LegalCut codec compression (cutBlocks target rowsPerBlock rows) ∧ (∀ f ∈ filter, LegalFilter f) ∧
        indexBlockLen ((cutBlocks target rowsPerBlock rows).map indexEntry) ≤
          maxTableBlockDecodedBytes := by
  rw [← flush_isOk h hrows hcut]
  simp only [finishWithMetadata, bind_eq_ok]
  have hmetadata : ∀ encoder', encoder.flushCurrentBlock codec = .ok encoder' →
      ((∃ output, encoder'.writeMetadata codec filter = .ok output) ↔ _) :=
    fun encoder' hok => writeMetadata_isOk (h.complete hok) hrows htarget hne hcount
      ((flush_isOk h hrows hcut).mp ⟨encoder', hok⟩).count_le
  constructor
  · rintro ⟨output, encoder', hok, houtput⟩
    exact ⟨⟨encoder', hok⟩, (hmetadata encoder' hok).mp ⟨output, houtput⟩⟩
  · rintro ⟨⟨encoder', hok⟩, hlegal⟩
    obtain ⟨output, houtput⟩ := (hmetadata encoder' hok).mpr hlegal
    exact ⟨output, encoder', hok, houtput⟩

theorem finish_describes (htarget : target ≠ 0) (hne : rows ≠ []) (hcount :
    rows.length ≤ maxTableRows) (hok : encoder.finishWithMetadata codec filter = .ok output) :
    Describes rows (cutBlocks target rowsPerBlock rows).length output := by
  simp only [finishWithMetadata, bind_eq_ok] at hok
  obtain ⟨encoder', hflush, hok⟩ := hok
  exact writeMetadata_describes (h.complete hflush) hrows htarget hne hcount
    ((flush_isOk h hrows hcut).mp ⟨encoder', hflush⟩).count_le hok

end Finish

end ImmutableTableStreamingEncoder

end Strata
