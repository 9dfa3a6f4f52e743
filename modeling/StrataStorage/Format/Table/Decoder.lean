import StrataStorage.Format.Table.BlockDecoder
import StrataStorage.Format.Table.Encoder
import StrataStorage.Lib.Crc32

/-!
# Decoding a table

`decode_immutable_table` and `decode_immutable_table_metadata` of
`format/table/artifact.rs`. Both read the frames a footer locates and check
every fact of the metadata against the data blocks, the one by decoding them,
the other by what the index says of them.

The streaming encoder writes its frames one after the other (`Written`), so
that the index it keeps is `located`, a function of the blocks alone:

* `foldlM_written`: the encoder after any rows;
* `decodeDataFrames_dataRegion`: the data frames are read back, at the places
  the index says;
* `writeMetadata_parts`, `TableParts.decode_table`, `TableParts.decode_metadata`:
  the frames of a finished table, and both decoders on them;
* `finish_finished`: a table that was finished has its data blocks decoded to the
  blocks the encoder cut.
-/

namespace Strata

open Except List Function

variable {bytes payload : Bytes} {kind : TableBlockKind} {codec : TableBlockCodec}
  {output : ImmutableTableStreamingOutput} {filter : Option TableFilterFrame}
  {entries : List TableIndexRecord} {blocks : List (List StorageRow)}
  {compression : TableCompression} {frame : TableBlockFrame}

/-! ## Decoded tables -/

structure ImmutableTable where
  header : TableHeader
  dataBlocks : List TableDataBlock
  index : List TableIndexRecord
  properties : TableProperties
  rows : List StorageRow
  filter : Option TableFilterFrame

structure ImmutableTableMetadata where
  header : TableHeader
  index : List TableIndexRecord
  properties : TableProperties
  byteCount : Nat
  filterBlockOffset : Nat
  filterBlockFrameLen : Nat

structure DataFrameLocation where
  offset : Nat
  frameLen : Nat

deriving instance DecidableEq for TableProperties

def tableRange (offset len : Nat) (field : String) : Except FormatError (Nat × Nat) :=
  checkedFooterRange offset len field

/-! ## The data region -/

theorem decodeTableBlockFrameAs_pos
    {consumed : Nat} (h : decodeTableBlockFrameAs codec bytes kind = .ok (frame, consumed)) :
    0 < consumed := by
  simp only [decodeTableBlockFrameAs, decodeTableBlockFrameInner, bind_eq_ok, ok.injEq, Prod.mk.injEq] at h
  obtain ⟨_, -, _, -, _, -, _, -, _, -, _, -, -, rfl⟩ := h
  omega

/-- The loop of `decode_data_region`: `region` is `table_bytes[offset..index_start]`. -/
def decodeDataFrames (codec : TableBlockCodec) (offset : Nat) (region : Bytes) :
    Except FormatError (List TableDataBlock × List DataFrameLocation) :=
  if region = [] then .ok ([], [])
  else
    match _hframe : decodeTableBlockFrameAs codec region .data with
    | .error e => .error e
    | .ok (frame, consumed) => do
      let frameLen ← toU32 consumed "block_frame_len"
      let block ← decodeTableDataBlock frame.decodedPayload
      let (blocks, locations) ← decodeDataFrames codec (offset + consumed) (region.drop consumed)
      .ok (block :: blocks, ⟨offset, frameLen⟩ :: locations)
termination_by region.length
decreasing_by
  have hpos := decodeTableBlockFrameAs_pos _hframe
  have hlen := List.length_pos_iff.mpr ‹¬ region = []›
  rw [List.length_drop]
  omega

def decodeDataRegion (codec : TableBlockCodec) (tableBytes : Bytes) (indexStart : Nat) :
    Except FormatError (List TableDataBlock × List DataFrameLocation) := do
  .require (tableHeaderSize ≤ indexStart) (.invalidLength "index_block_offset")
  decodeDataFrames codec tableHeaderSize (slice tableBytes tableHeaderSize indexStart)

/-! ## Checks across the parts -/

def validateDataBlockOrder : List TableDataBlock → Except FormatError Unit
  | left :: right :: rest => do
    .require (left.firstKeyBytes < right.firstKeyBytes) (.invalidValue "table_block_key_order")
    .require (left.lastKeyBytes < right.firstKeyBytes) (.invalidValue "table_block_key_overlap")
    validateDataBlockOrder (right :: rest)
  | _ => .ok ()

def TableProperties.fromDataBlocks (blocks : List TableDataBlock) : Except FormatError TableProperties := do
  .require (blocks.length ≠ 0 ∧ blocks.length ≤ maxTableDataBlocks) (.invalidLength "data_block_count")
  validateDataBlockOrder blocks
  let rowCount := (blocks.map (·.rowCount)).sum
  let rows := blocks.flatMap (·.rows)
  let dataBlockCount ← toU32 blocks.length "data_block_count"
  let commitMin ← (rows.foldl (fun m row => trackMin m row.commitVersion) none).okOr (.invalidLength "row_count")
  let commitMax ← (rows.foldl (fun m row => trackMax m row.commitVersion) none).okOr (.invalidLength "row_count")
  TableProperties.new rowCount dataBlockCount commitMin commitMax
    ((blocks.head?.map (·.firstKeyBytes)).getD []) ((blocks.getLast?.map (·.lastKeyBytes)).getD [])

def validateTablePropertiesAgainstHeader (properties : TableProperties) (header : TableHeader) :
    Except FormatError Unit :=
  .require (properties.rowCount = header.rowCount ∧
    properties.dataBlockCount = header.dataBlockCount ∧ properties.commitMin = header.commitMin ∧
    properties.commitMax = header.commitMax) (.invalidValue "table_properties_facts")

def validateIndexEntryRange (entry : TableIndexRecord) (indexStart : Nat) : Except FormatError Unit :=
  .require (tableHeaderSize ≤ entry.blockOffset ∧ entry.blockOffset + entry.blockFrameLen ≤ indexStart)
    (.invalidLength "index_block_range")

/-- The loop body of `validate_table_against_decoded_facts`. -/
def validateIndexedBlock (indexStart : Nat) (entry : TableIndexRecord) (block : TableDataBlock)
    (location : DataFrameLocation) : Except FormatError Unit := do
  validateIndexEntryRange entry indexStart
  .require (entry.blockOffset = location.offset) (.invalidValue "index_block_offset")
  .require (entry.blockFrameLen = location.frameLen) (.invalidValue "index_block_frame_len")
  .require (entry.rowCount = block.rowCount) (.invalidValue "index_row_count")
  .require (entry.firstKey = block.firstKeyBytes) (.invalidValue "index_first_key")
  .require (entry.lastKey = block.lastKeyBytes) (.invalidValue "index_last_key")

/-- The loop of `validate_table_against_decoded_facts`, over three zipped
lists. -/
def validateIndexedBlocks (indexStart : Nat) :
    List TableIndexRecord → List TableDataBlock → List DataFrameLocation → Except FormatError Unit
  | entry :: entries, block :: blocks, location :: locations => do
    validateIndexedBlock indexStart entry block location
    validateIndexedBlocks indexStart entries blocks locations
  | _, _, _ => .ok ()

def validateTableAgainstDecodedFacts (header : TableHeader) (dataBlocks : List TableDataBlock)
    (dataLocations : List DataFrameLocation) (index : List TableIndexRecord)
    (properties : TableProperties) (indexStart : Nat) : Except FormatError Unit := do
  .require (dataBlocks.length = header.dataBlockCount) (.invalidValue "data_block_count")
  .require (dataLocations.length = dataBlocks.length ∧ index.length = dataBlocks.length)
    (.invalidValue "index_entry_count")
  let derivedProperties ← TableProperties.fromDataBlocks dataBlocks
  validateTablePropertiesAgainstHeader derivedProperties header
  .require (derivedProperties = properties) (.invalidValue "table_properties_facts")
  validateTablePropertiesAgainstHeader properties header
  validateIndexedBlocks indexStart index dataBlocks dataLocations

def validateMetadataAgainstHeaderAndFooter (header : TableHeader) (footer : TableFooter)
    (index : List TableIndexRecord) (properties : TableProperties) : Except FormatError Unit := do
  validateTablePropertiesAgainstHeader properties header
  .require (properties.minKey = (index.head?.map (·.firstKey)).getD []) (.invalidValue "index_first_key")
  .require (properties.maxKey = (index.getLast?.map (·.lastKey)).getD []) (.invalidValue "index_last_key")
  .require ((index.map (·.rowCount)).sum = header.rowCount) (.invalidValue "index_row_count")
  .require (footer.indexBlockOffset + footer.indexBlockFrameLen = footer.propertiesBlockOffset)
    (.invalidLength "properties_block_offset")

/-! ## The decoders -/

/-- The filter frame in front of the index, if the footer has one. -/
def decodeFilterSlot (codec : TableBlockCodec) (footer : TableFooter) (filterSlice : Bytes) :
    Except FormatError (Option TableFilterFrame) :=
  if footer.filterBlockFrameLen ≠ 0 then do
    let (filter, consumed) ← decodeFilterFrame codec filterSlice
    .require (consumed = filterSlice.length) (.trailingData "immutable_table" (filterSlice.length - consumed))
    .ok (some filter)
  else .ok none

/-- Where the data region ends: at the filter frame, or at the index. -/
def decodeDataEnd (footer : TableFooter) (indexStart : Nat) : Except FormatError Nat :=
  if footer.filterBlockFrameLen ≠ 0 then do
    let (filterStart, filterEnd) ← tableRange footer.filterBlockOffset footer.filterBlockFrameLen "filter_block"
    .require (filterEnd = indexStart) (.invalidLength "table_footer_layout")
    .ok filterStart
  else .ok indexStart

/-- The index in its frame. -/
def decodeIndexFrame (codec : TableBlockCodec) (bytes : Bytes) (dataBlockCount : Nat) :
    Except FormatError (List TableIndexRecord) := do
  let (frame, _) ← decodeExactFrame codec bytes .index
  decodeTableIndexBlockForDataBlocks frame.decodedPayload dataBlockCount

/-- The properties in their frame. -/
def decodePropertiesFrame (codec : TableBlockCodec) (bytes : Bytes) : Except FormatError TableProperties := do
  let (frame, _) ← decodeExactFrame codec bytes .properties
  decodeTableProperties frame.decodedPayload

def decodeImmutableTable (codec : TableBlockCodec) (bytes : Bytes) : Except FormatError ImmutableTable := do
  .require (tableHeaderSize + tableFooterSize ≤ bytes.length)
    (.insufficientBytes "immutable_table" (tableHeaderSize + tableFooterSize) bytes.length)
  let (header, headerLen) ← decodeTableHeader bytes
  .require (headerLen = tableHeaderSize) (.invalidLength "table_header_size")
  let footer ← decodeTableFooter codec bytes
  let footerStart := bytes.length - tableFooterSize
  let (indexStart, indexEnd) ← tableRange footer.indexBlockOffset footer.indexBlockFrameLen "index_block"
  let (propertiesStart, propertiesEnd) ← tableRange footer.propertiesBlockOffset
    footer.propertiesBlockFrameLen "properties_block"
  .require (propertiesStart = indexEnd ∧ propertiesEnd = footerStart) (.invalidLength "table_footer_layout")
  let dataEnd ← decodeDataEnd footer indexStart
  let (dataBlocks, dataLocations) ← decodeDataRegion codec bytes dataEnd
  let filter ← decodeFilterSlot codec footer (slice bytes dataEnd indexStart)
  let index ← decodeIndexFrame codec (slice bytes indexStart indexEnd) header.dataBlockCount
  let properties ← decodePropertiesFrame codec (slice bytes propertiesStart propertiesEnd)
  validateTableAgainstDecodedFacts header dataBlocks dataLocations index properties dataEnd
  .ok ⟨header, dataBlocks, index, properties, dataBlocks.flatMap (·.rows), filter⟩

def decodeImmutableTableMetadata (codec : TableBlockCodec) (byteCount : Nat)
    (headerBytes footerBytes indexFrameBytes propertiesFrameBytes : Bytes) :
    Except FormatError ImmutableTableMetadata := do
  .require (tableHeaderSize + tableFooterSize ≤ byteCount)
    (.insufficientBytes "immutable_table" (tableHeaderSize + tableFooterSize) byteCount)
  let footerStart := byteCount - tableFooterSize
  let (header, headerLen) ← decodeTableHeader headerBytes
  .require (headerLen = tableHeaderSize) (.invalidLength "table_header_size")
  let footer ← decodeTableFooterMetadata footerBytes footerStart
  let index ← decodeIndexFrame codec indexFrameBytes header.dataBlockCount
  let properties ← decodePropertiesFrame codec propertiesFrameBytes
  validateMetadataAgainstHeaderAndFooter header footer index properties
  let dataEnd := if footer.filterBlockFrameLen ≠ 0 then footer.filterBlockOffset
    else footer.indexBlockOffset
  index.forM (validateIndexEntryRange · dataEnd)
  .ok ⟨header, index, properties, byteCount, footer.filterBlockOffset, footer.filterBlockFrameLen⟩

/-! ## What the encoder writes -/

section Written

variable (codec : TableCodec) (compression : TableCompression)

/-- The frame of the data block of some rows. -/
def blockFrame (rows : List StorageRow) : Bytes :=
  match TableBlockFrame.new .data compression (dataBlockPayload rows) >>= encodeTableBlockFrame codec with
  | .ok bytes => bytes
  | .error _ => []

/-- Rows that make a data block, and a frame of it. -/
def Framed (rows : List StorageRow) : Prop :=
  ∃ encoded frame, encodeTableDataBlockFromEncodedRows (rows.map (·.streaming)) = .ok encoded ∧
    TableBlockFrame.new .data compression encoded.payload = .ok frame ∧
    encodeTableBlockFrame codec frame = .ok (blockFrame codec compression rows)

/-- The frames of a table's data blocks. -/
def dataRegion (blocks : List (List StorageRow)) : Bytes :=
  blocks.flatMap (blockFrame codec compression)

/-- The index of blocks whose frames lie one after the other from `offset`. -/
def located : Nat → List (List StorageRow) → List TableIndexRecord
  | _, [] => []
  | offset, rows :: blocks =>
    ⟨indexEntry rows, offset, (blockFrame codec compression rows).length, rows.length⟩ ::
      located (offset + (blockFrame codec compression rows).length) blocks

/-- An encoder that has completed these blocks. -/
structure Written (blocks : List (List StorageRow)) (encoder : ImmutableTableStreamingEncoder) :
    Prop where
  bytes_eq : encoder.tableBytes = List.replicate tableHeaderSize 0 ++ dataRegion codec compression blocks
  index_eq : encoder.indexEntries = located codec compression tableHeaderSize blocks
  framed : ∀ rows ∈ blocks, Framed codec compression rows

end Written

section WrittenLemmas

variable {codec : TableCodec} {compression : TableCompression}
variable {rows : List StorageRow} {blocks : List (List StorageRow)} {entry : TableIndexRecord} {offset : Nat}

theorem blockFrame_eq {encoded : EncodedTableDataBlock} {bytes : Bytes}
    (hencoded : encodeTableDataBlockFromEncodedRows (rows.map (·.streaming)) = .ok encoded)
    (hframe : TableBlockFrame.new .data compression encoded.payload = .ok frame)
    (hbytes : encodeTableBlockFrame codec frame = .ok bytes) :
    blockFrame codec compression rows = bytes := by
  rw [blockFrame, dataBlockPayload_eq hencoded, hframe, ok_bind, hbytes]

theorem Framed.length_blockFrame (h : Framed codec compression rows) :
    (blockFrame codec compression rows).length ≠ 0 ∧ (blockFrame codec compression rows).length ≤
        tableBlockFrameOverhead + maxTableBlockEncodedBytes := by
  obtain ⟨_, _, -, -, hbytes⟩ := h
  have hlen := length_encodeTableBlockFrame hbytes
  exact ⟨by omega, hlen.2⟩

theorem Framed.block (h : Framed codec compression rows) :
    (∀ row ∈ rows, row.Encodable) ∧ SortedRows rows ∧ rows ≠ [] ∧ rows.length ≤ maxTableBlockEntries := by
  obtain ⟨encoded, _, hencoded, -, -⟩ := h
  exact encodeTableDataBlock_isOk.mp ⟨encoded, hencoded⟩

theorem dataRegion_cons : dataRegion codec compression (rows :: blocks) =
    blockFrame codec compression rows ++ dataRegion codec compression blocks := flatMap_cons

theorem located_append (offset : Nat) (blocks : List (List StorageRow)) (rows : List StorageRow) :
    located codec compression offset (blocks ++ [rows]) = located codec compression offset blocks ++
      [⟨indexEntry rows, offset + (dataRegion codec compression blocks).length,
        (blockFrame codec compression rows).length, rows.length⟩] := by
  induction blocks generalizing offset with
  | nil => rfl
  | cons first blocks ih =>
    rw [cons_append, located, ih, located, dataRegion_cons, length_append, Nat.add_assoc]
    rfl

theorem length_located (offset : Nat) (blocks : List (List StorageRow)) :
    (located codec compression offset blocks).length = blocks.length := by
  induction blocks generalizing offset with
  | nil => rfl
  | cons rows blocks ih => simp [located, ih]

/-- Completing a block appends its frame and its index entry. -/
theorem Written.flush {encoder encoder' : ImmutableTableStreamingEncoder}
    (h : Written codec compression blocks encoder) (hcompression : encoder.compression = compression)
    (hcurrent : encoder.currentBlockRows = rows.map (·.streaming)) (hne : rows ≠ [])
    (hok : encoder.flushCurrentBlock codec = .ok encoder') :
    Written codec compression (blocks ++ [rows]) encoder' := by
  simp only [ImmutableTableStreamingEncoder.flushCurrentBlock, ↓reduceIte, bind_eq_ok, toU32_eq_ok,
    ImmutableTableStreamingEncoder.isEmpty_currentBlockRows hcurrent hne, Bool.false_eq_true] at hok
  rw [hcurrent, hcompression] at hok
  obtain ⟨-, -, encoded, hencoded, _, ⟨-, rfl⟩, frame, hframe, frameBytes, hbytes, _, ⟨-, rfl⟩, entry,
    hentry, hok⟩ := hok
  cases hok
  have hblockFrame := blockFrame_eq hencoded hframe hbytes
  obtain ⟨-, hrowCount, hfirst, hlast⟩ := encodeTableDataBlock_eq_ok hencoded
  simp only [TableIndexRecord.new, bind_eq_ok] at hentry
  obtain ⟨-, -, -, -, -, -, -, -, -, -, -, -, -, -, hentry⟩ := hentry
  cases hentry
  refine ⟨?_, ?_, fun r hr => ?_⟩
  · rw [h.bytes_eq, dataRegion, dataRegion, flatMap_append, append_assoc]
    simp [hblockFrame]
  · rw [located_append, h.index_eq, hblockFrame, ← hrowCount, h.bytes_eq, length_append,
      length_replicate, indexEntry, hfirst, hlast]
    rfl
  · rcases mem_append.mp hr with hr | hr
    · exact h.framed r hr
    · rw [mem_singleton.mp hr]
      exact ⟨encoded, frame, hencoded, hframe, by rw [hblockFrame]; exact hbytes⟩

/-- Where the index entries of a table's blocks come from, and what lies between
the first frame and the last. -/
theorem mem_located (h : entry ∈ located codec compression offset blocks) :
    ∃ rows ∈ blocks, entry = ⟨indexEntry rows, entry.blockOffset,
        (blockFrame codec compression rows).length, rows.length⟩ ∧ offset ≤ entry.blockOffset ∧
      entry.blockOffset + entry.blockFrameLen ≤ offset + (dataRegion codec compression blocks).length := by
  induction blocks generalizing offset with
  | nil => cases h
  | cons rows blocks ih =>
    rw [dataRegion_cons, length_append]
    rcases mem_cons.mp h with rfl | h
    · exact ⟨rows, mem_cons_self, rfl, le_rfl, by dsimp only; omega⟩
    · obtain ⟨r, hr, hentry, hle, hend⟩ := ih h
      exact ⟨r, mem_cons_of_mem _ hr, hentry, by omega, by omega⟩

theorem length_dataRegion_le (h : ∀ rows ∈ blocks, Framed codec compression rows) :
    (dataRegion codec compression blocks).length ≤
      blocks.length * (tableBlockFrameOverhead + maxTableBlockEncodedBytes) := by
  induction blocks with
  | nil => simp [dataRegion]
  | cons rows blocks ih =>
    have hfirst := (h rows mem_cons_self).length_blockFrame.2
    have hrest := ih fun r hr => h r (mem_cons_of_mem _ hr)
    rw [dataRegion_cons, length_append, length_cons, Nat.succ_mul]
    omega

/-- The index entries of framed blocks are accepted and fit their fields. -/
theorem stored_of_mem_located (hframed : ∀ rows ∈ blocks, Framed codec compression rows)
    (hend : offset + (dataRegion codec compression blocks).length < 2 ^ 64) (h : entry ∈ located codec compression offset blocks) :
    entry.Stored := by
  obtain ⟨rows, hrows, hentry, -, hle⟩ := mem_located h
  obtain ⟨hall, hsorted, hne, hcount⟩ := (hframed rows hrows).block
  have hframe := (hframed rows hrows).length_blockFrame
  have hindex := indexEntry_eq hne
  have hnew := TableRows.indexRecord ⟨hsorted, hall⟩ hne entry.blockOffset hframe.1
    (show rows.length ≠ 0 by simpa using hne)
  rw [hentry] at hle ⊢
  dsimp only at hle
  refine ⟨?_, ?_, by dsimp only; omega, ?_, lt_of_le_of_lt hcount (by decide)⟩
  · rw [hindex] at hnew ⊢
    exact hnew
  · dsimp only
    rw [hindex]
    exact ⟨(hall _ (head_mem hne)).length_key, (hall _ (getLast_mem hne)).length_key⟩
  · exact lt_of_le_of_lt hframe.2 (by decide)

theorem sum_rowCount_located (offset : Nat) (blocks : List (List StorageRow)) :
    ((located codec compression offset blocks).map (·.rowCount)).sum = blocks.flatten.length := by
  induction blocks generalizing offset with
  | nil => rfl
  | cons rows blocks ih =>
    rw [located, map_cons, sum_cons, ih, flatten_cons, length_append]

end WrittenLemmas

/-! ## A run of the encoder -/

namespace ImmutableTableStreamingEncoder

variable {target rowsPerBlock : Nat} {compression : TableCompression} {codec : TableCodec}
  {rows : List StorageRow} {start encoder encoder' : ImmutableTableStreamingEncoder}

/-- One more row keeps what is written. -/
theorem Encodes.append_written {row : StorageRow} (h : Encodes target rowsPerBlock compression rows encoder)
    (hwritten : Written codec compression (cutRows target rowsPerBlock rows).closed encoder)
    (hok : encoder.appendStreamingRow codec row.streaming = .ok encoder') :
    Written codec compression (cutRows target rowsPerBlock (rows ++ [row])).closed encoder' := by
  have hbuffer : Written codec compression (cutRows target rowsPerBlock rows).closed
      (encoder.buffer row) := ⟨hwritten.bytes_eq, hwritten.index_eq, hwritten.framed⟩
  rw [h.appendStreamingRow_eq, check_bind_eq_ok] at hok
  rw [cutRows_append, Cut.push]
  split_ifs at hok with hfull
  · rw [if_pos hfull]
    exact hbuffer.flush h.compression_eq (h.buffer_current row) (by simp) hok.2
  · rw [if_neg hfull]
    cases hok.2
    exact hbuffer

/-- The encoder after any rows. -/
theorem foldlM_written (hnew : new target rowsPerBlock compression = .ok start)
    (hok : rows.foldlM (fun encoder row => encoder.appendStreamingRow codec row.streaming) start = .ok encoder) :
    Encodes target rowsPerBlock compression rows encoder ∧
      Written codec compression (cutRows target rowsPerBlock rows).closed encoder := by
  have hstart : Written codec compression (cutRows target rowsPerBlock []).closed start := by
    simp only [new, bind_eq_ok] at hnew
    obtain ⟨-, -, -, -, hnew⟩ := hnew
    cases hnew
    exact ⟨by simp [dataRegion, cutRows, Cut.ofList], rfl, by simp [cutRows, Cut.ofList]⟩
  refine foldlM_rule (R := fun rows encoder => Encodes target rowsPerBlock compression rows encoder ∧
        Written codec compression (cutRows target rowsPerBlock rows).closed encoder)
    ⟨encodes_new hnew, hstart⟩ (fun l s row s' h hs' => ?_) hok
  exact ⟨h.1.append hs', h.1.append_written h.2 hs'⟩

/-- And after its last block. -/
theorem Encodes.flush_written (h : Encodes target rowsPerBlock compression rows encoder)
    (hwritten : Written codec compression (cutRows target rowsPerBlock rows).closed encoder)
    (hok : encoder.flushCurrentBlock codec = .ok encoder') :
    Written codec compression (cutBlocks target rowsPerBlock rows) encoder' := by
  by_cases hempty : (cutRows target rowsPerBlock rows).current = []
  · rw [flushCurrentBlock_nil (by rw [h.current_eq, hempty]; rfl)] at hok
    cases hok
    simpa [cutBlocks, Cut.blocks, hempty] using hwritten
  · simpa [cutBlocks, Cut.blocks, hempty] using hwritten.flush h.compression_eq h.current_eq hempty hok

end ImmutableTableStreamingEncoder

/-! ## Decoding what was written -/

/-- Where an index entry says its frame is. -/
def TableIndexRecord.location (entry : TableIndexRecord) : DataFrameLocation :=
  ⟨entry.blockOffset, entry.blockFrameLen⟩

section Decode

variable {codec : TableBlockCodec} {compression : TableCompression}
  {blocks : List (List StorageRow)} {dataBlocks : List TableDataBlock}
variable {offset : Nat}

/-- The data frames are read back, at the places the index says. -/
theorem decodeDataFrames_dataRegion (hcodec : codec.RoundTrips)
    (hframed : ∀ rows ∈ blocks, Framed codec.toTableCodec compression rows) (offset : Nat) :
    ∃ dataBlocks : List TableDataBlock,
      decodeDataFrames codec offset (dataRegion codec.toTableCodec compression blocks) =
        .ok (dataBlocks, (located codec.toTableCodec compression offset blocks).map (·.location)) ∧
      dataBlocks.map (·.entries) = blocks.map (·.map (·.dataEntry)) := by
  induction blocks generalizing offset with
  | nil => exact ⟨[], by rw [decodeDataFrames]; rfl, rfl⟩
  | cons rows blocks ih =>
    obtain ⟨rest, hrest, hentries⟩ := ih (fun r hr => hframed r (mem_cons_of_mem _ hr))
      (offset + (blockFrame codec.toTableCodec compression rows).length)
    have hlen := (hframed rows mem_cons_self).length_blockFrame
    obtain ⟨encoded, frame, hencoded, hframe, hbytes⟩ := hframed rows mem_cons_self
    obtain ⟨block, hblock, hblockEntries⟩ := decodeTableDataBlock_encode hencoded
    obtain ⟨hkind, -, hpayload⟩ := TableBlockFrame.new_eq_ok.mp hframe
    have hdecode := decodeTableBlockFrameAs_append hcodec hkind hbytes
    have h32 : (blockFrame codec.toTableCodec compression rows).length < 2 ^ 32 :=
      lt_of_le_of_lt hlen.2 (by decide)
    have hne : dataRegion codec.toTableCodec compression (rows :: blocks) ≠ [] := by
      intro hnil
      rw [dataRegion_cons, append_eq_nil_iff] at hnil
      exact hlen.1 (by rw [hnil.1]; rfl)
    refine ⟨block :: rest, ?_, by rw [map_cons, map_cons, hblockEntries, hentries]⟩
    rw [decodeDataFrames, if_neg hne]
    split
    · rename_i herror
      rw [dataRegion_cons, hdecode] at herror
      cases herror
    · rename_i frame' consumed hok
      rw [dataRegion_cons, hdecode] at hok
      cases hok
      rw [dataRegion_cons, drop_left, hrest, hpayload, hblock, toU32, if_pos h32]
      rfl

/-- The decoded rows of a table's blocks. -/
theorem flatMap_rows (h : dataBlocks.map (·.entries) = blocks.map (·.map (·.dataEntry))) :
    dataBlocks.map (·.rows) = blocks ∧ dataBlocks.flatMap (·.rows) = blocks.flatten := by
  have hrows : dataBlocks.map (·.rows) = blocks := by
    have := congrArg (List.map (List.map TableDataEntry.row)) h
    rw [List.map_map, List.map_map] at this
    refine this.trans ?_
    rw [List.map_congr_left (g := id) fun rows _ => ?_, List.map_id]
    rw [Function.comp, List.map_map]
    exact List.map_id rows
  exact ⟨hrows, by rw [List.flatMap_def, hrows]⟩

theorem sum_rowCount (h : dataBlocks.map (·.entries) = blocks.map (·.map (·.dataEntry))) :
    (dataBlocks.map (·.rowCount)).sum = blocks.flatten.length := by
  have := congrArg (map length) h
  rw [map_map, map_map] at this
  rw [length_flatten]
  refine congrArg sum (this.trans (map_congr_left fun rows _ => ?_))
  exact length_map _

/-- The end keys of a decoded block are those of its index entry. -/
theorem keyBytes_eq {block : TableDataBlock} {rows : List StorageRow}
    (h : block.entries = rows.map (·.dataEntry)) :
    block.firstKeyBytes = (indexEntry rows).firstKey ∧ block.lastKeyBytes = (indexEntry rows).lastKey := by
  rw [TableDataBlock.firstKeyBytes, TableDataBlock.lastKeyBytes, h, head?_map, getLast?_map,
    Option.map_map, Option.map_map]
  exact ⟨rfl, rfl⟩

theorem keyBytes_located (h : dataBlocks.map (·.entries) = blocks.map (·.map (·.dataEntry))) :
    dataBlocks.map (fun block => (block.firstKeyBytes, block.lastKeyBytes)) =
      (located codec.toTableCodec compression offset blocks).map fun entry => (entry.firstKey, entry.lastKey) := by
  induction blocks generalizing offset dataBlocks with
  | nil => rw [map_eq_nil_iff.mp h]; rfl
  | cons rows blocks ih =>
    obtain ⟨block, rest, rfl, hblock, hrest⟩ := map_eq_cons_iff.mp h
    rw [map_cons, located, map_cons, ih hrest, (keyBytes_eq hblock).1, (keyBytes_eq hblock).2]

/-- Data blocks are in order where their index entries are. -/
theorem validateDataBlockOrder_of_index
    (hkeys : dataBlocks.map (fun block => (block.firstKeyBytes, block.lastKeyBytes)) =
      entries.map fun entry => (entry.firstKey, entry.lastKey))
    (h : validateIndexEntryOrder entries = .ok ()) : validateDataBlockOrder dataBlocks = .ok () := by
  induction entries generalizing dataBlocks with
  | nil => rw [map_eq_nil_iff.mp hkeys]; rfl
  | cons left entries ih =>
    obtain ⟨block, rest, rfl, hblock, hrest⟩ := map_eq_cons_iff.mp hkeys
    cases entries with
    | nil => rw [map_eq_nil_iff.mp hrest]; rfl
    | cons right entries =>
      obtain ⟨block', rest, rfl, hblock', -⟩ := map_eq_cons_iff.mp hrest
      simp only [validateIndexEntryOrder, check_bind_eq_ok, require_eq_ok] at h
      simp only [Prod.mk.injEq] at hblock hblock'
      simp only [validateDataBlockOrder, check_bind_eq_ok, require_eq_ok, hblock, hblock']
      exact ⟨h.1, h.2.1, ih hrest h.2.2⟩

/-- Every index entry agrees with the frame it points at. -/
theorem validateIndexedBlocks_located {indexStart : Nat} (hoffset : tableHeaderSize ≤ offset)
    (hend : offset + (dataRegion codec.toTableCodec compression blocks).length ≤ indexStart)
    (h : dataBlocks.map (·.entries) = blocks.map (·.map (·.dataEntry))) :
    validateIndexedBlocks indexStart (located codec.toTableCodec compression offset blocks) dataBlocks
      ((located codec.toTableCodec compression offset blocks).map (·.location)) = .ok () := by
  induction blocks generalizing offset dataBlocks with
  | nil => rfl
  | cons rows blocks ih =>
    obtain ⟨block, rest, rfl, hblock, hrest⟩ := map_eq_cons_iff.mp h
    rw [dataRegion_cons, length_append] at hend
    have hcount : rows.length = block.rowCount := by
      rw [TableDataBlock.rowCount, hblock, length_map]
    rw [located, map_cons, validateIndexedBlocks, check_bind_eq_ok]
    refine ⟨?_, ih (by omega) (by omega) hrest⟩
    simp only [validateIndexedBlock, validateIndexEntryRange, check_bind_eq_ok,
      require_eq_ok, TableIndexRecord.location, keyBytes_eq hblock, hcount, and_true]
    exact ⟨hoffset, by omega⟩

/-- The properties derived from the decoded blocks are those of the encoder. -/
theorem fromDataBlocks_eq (h : dataBlocks.map (·.entries) = blocks.map (·.map (·.dataEntry)))
    (hindex : validateTableIndexBlock (located codec.toTableCodec compression offset blocks) = .ok ())
    {commitMin commitMax : CommitVersion} {minKey maxKey : Bytes} {properties : TableProperties}
    (hmin : blocks.flatten.foldl (fun m row => trackMin m row.commitVersion) none = some commitMin)
    (hmax : blocks.flatten.foldl (fun m row => trackMax m row.commitVersion) none = some commitMax)
    (hfirst : (located codec.toTableCodec compression offset blocks).head?.map (·.firstKey) = some minKey)
    (hlast : (located codec.toTableCodec compression offset blocks).getLast?.map (·.lastKey) = some maxKey)
    (hnew : TableProperties.new blocks.flatten.length blocks.length commitMin commitMax minKey
      maxKey = .ok properties) : TableProperties.fromDataBlocks dataBlocks = .ok properties := by
  have hkeys : _ = (located codec.toTableCodec compression offset blocks).map _ := keyBytes_located h
  rw [validateTableIndexBlock, check_bind_eq_ok, require_eq_ok, length_located] at hindex
  have hlen : dataBlocks.length = blocks.length := by simpa using congrArg length h
  have hfirstKey : dataBlocks.head?.map (·.firstKeyBytes) = some minKey := by
    have := congrArg (·.head?.map Prod.fst) hkeys
    simp only [head?_map, Option.map_map] at this
    exact this.trans hfirst
  have hlastKey : dataBlocks.getLast?.map (·.lastKeyBytes) = some maxKey := by
    have := congrArg (·.getLast?.map Prod.snd) hkeys
    simp only [getLast?_map, Option.map_map] at this
    exact this.trans hlast
  simp only [TableProperties.fromDataBlocks, bind_eq_ok, require_eq_ok, toU32_eq_ok,
    Option.okOr_eq_ok, hlen, (flatMap_rows h).2, hmin, hmax, hfirstKey, hlastKey, sum_rowCount h]
  exact ⟨(), hindex.1, (), validateDataBlockOrder_of_index hkeys hindex.2, _,
    ⟨lt_of_le_of_lt hindex.1.2 (by decide), rfl⟩, _, rfl, _, rfl, hnew⟩

end Decode

/-! ## The parts of a finished table -/

/-- The header the encoder writes. -/
def ImmutableTableStreamingOutput.header (output : ImmutableTableStreamingOutput) (target : Nat) :
    TableHeader :=
  ⟨target, output.dataBlockCount, output.rowCount, output.commitMin, output.commitMax⟩

/-- The properties the encoder writes. -/
def ImmutableTableStreamingOutput.properties (output : ImmutableTableStreamingOutput) :
    TableProperties :=
  ⟨output.rowCount, output.dataBlockCount, output.commitMin, output.commitMax, output.minKeyBytes,
    output.maxKeyBytes⟩

/-- A frame around an uncompressed payload. -/
def FrameOf (codec : TableCodec) (kind : TableBlockKind) (payload bytes : Bytes) : Prop :=
  ∃ frame, TableBlockFrame.new kind .uncompressed payload = .ok frame ∧
    encodeTableBlockFrame codec frame = .ok bytes

/-- The frames of a finished table, behind the data region. -/
structure TableParts (codec : TableCodec) (target : Nat) (region : Bytes)
    (index : List TableIndexRecord) (filter : Option TableFilterFrame)
    (output : ImmutableTableStreamingOutput) where
  filterBytes : Bytes
  indexPayload : Bytes
  indexBytes : Bytes
  propertiesPayload : Bytes
  propertiesBytes : Bytes
  footerBytes : Bytes
  header_valid : TableHeader.new target output.dataBlockCount output.rowCount output.commitMin
    output.commitMax = .ok (output.header target)
  count_eq : output.dataBlockCount = index.length
  properties_valid : TableProperties.new output.rowCount output.dataBlockCount output.commitMin
    output.commitMax output.minKeyBytes output.maxKeyBytes = .ok output.properties
  first_eq : index.head?.map (·.firstKey) = some output.minKeyBytes
  last_eq : index.getLast?.map (·.lastKey) = some output.maxKeyBytes
  filter_eq : ImmutableTableStreamingEncoder.filterFrameBytes codec filter = .ok filterBytes
  index_valid : validateTableIndexBlock index = .ok ()
  indexPayload_eq : encodeTableIndexBlock index = .ok indexPayload
  indexFrame : FrameOf codec .index indexPayload indexBytes
  propertiesPayload_eq : encodeTableProperties output.properties = .ok propertiesPayload
  propertiesFrame : FrameOf codec .properties propertiesPayload propertiesBytes
  footer_eq : encodeTableFooter codec ⟨tableHeaderSize + region.length + filterBytes.length,
      indexBytes.length, if filter.isSome then tableHeaderSize + region.length else 0, filterBytes.length,
      tableHeaderSize + region.length + filterBytes.length + indexBytes.length, propertiesBytes.length⟩
    (encodeTableHeader (output.header target) ++
      (region ++ (filterBytes ++ (indexBytes ++ propertiesBytes)))) = .ok footerBytes
  bytes_eq : output.bytes = encodeTableHeader (output.header target) ++
    (region ++ (filterBytes ++ (indexBytes ++ (propertiesBytes ++ footerBytes))))

namespace ImmutableTableStreamingEncoder

theorem writeMetadata_parts {codec : TableCodec} {encoder : ImmutableTableStreamingEncoder}
    (hwritten : Written codec compression blocks encoder) (hok : encoder.writeMetadata codec filter = .ok output) :
    encoder.rowCount = output.rowCount ∧ encoder.commitMin = some output.commitMin ∧
      encoder.commitMax = some output.commitMax ∧
      Nonempty (TableParts codec encoder.targetDataBlockSize (dataRegion codec compression blocks)
        encoder.indexEntries filter output) := by
  have hregion : encoder.tableBytes.drop tableHeaderSize = dataRegion codec compression blocks := by
    rw [hwritten.bytes_eq]
    exact drop_left' (length_replicate ..)
  simp only [writeMetadata, bind_eq_ok, Option.okOr_eq_ok, toU32_eq_ok, hregion] at hok
  obtain ⟨-, -, commitMin, hcommitMin, commitMax, hcommitMax, first, hfirst, last, hlast, _,
    ⟨-, rfl⟩, properties, hproperties, header, hheader, filterBytes, hfilter, _, ⟨-, rfl⟩, ⟨⟩, hvalid,
    indexPayload, hindexPayload, indexFrame, hindexFrame, indexBytes, hindexBytes, _, ⟨-, rfl⟩,
    propertiesPayload, hpropertiesPayload, propertiesFrame, hpropertiesFrame, propertiesBytes,
    hpropertiesBytes, _, ⟨-, rfl⟩, footer, hfooter, footerBytes, hfooterBytes, hok⟩ := hok
  cases hok
  obtain rfl := TableProperties.eq_of_new hproperties
  obtain ⟨-, -, -, -, rfl⟩ := TableHeader.new_eq_ok.mp hheader
  obtain ⟨-, -, rfl⟩ := TableFooter.newWithFilter_eq_ok.mp hfooter
  refine ⟨rfl, hcommitMin, hcommitMax, ⟨{
    filterBytes, indexPayload, indexBytes, propertiesPayload, propertiesBytes, footerBytes
    header_valid := hheader
    count_eq := rfl
    properties_valid := hproperties
    first_eq := by rw [hfirst]; rfl
    last_eq := by rw [hlast]; rfl
    filter_eq := hfilter
    index_valid := hvalid
    indexPayload_eq := hindexPayload
    indexFrame := ⟨indexFrame, hindexFrame, hindexBytes⟩
    propertiesPayload_eq := hpropertiesPayload
    propertiesFrame := ⟨propertiesFrame, hpropertiesFrame, hpropertiesBytes⟩
    footer_eq := ?_
    bytes_eq := ?_ }⟩⟩
  · simpa only [append_assoc, length_append, length_encodeTableHeader, Nat.add_assoc,
      ImmutableTableStreamingOutput.header] using hfooterBytes
  · simp [ImmutableTableStreamingOutput.header]

end ImmutableTableStreamingEncoder

/-! ## Decoding the parts -/

theorem FrameOf.length {codec : TableCodec} (h : FrameOf codec kind payload bytes) :
    bytes.length = tableBlockFrameOverhead + payload.length ∧ bytes.length ≠ 0 ∧ bytes.length < 2 ^ 32 := by
  obtain ⟨frame, hframe, hbytes⟩ := h
  obtain ⟨-, hcompression, rfl⟩ := TableBlockFrame.new_eq_ok.mp hframe
  obtain ⟨encoded, hencoded, hlen, heq⟩ := encodeTableBlockFrame_eq_ok hbytes
  rw [hcompression] at hencoded
  cases hencoded
  have hle := frame.payload_length.2
  simp only [maxTableBlockDecodedBytes] at hle
  have hbytesLen : bytes.length = tableBlockFrameOverhead + frame.decodedPayload.length := by
    rw [heq, length_append, length_append, length_frameHead, length_leBytes,
      tableBlockFrameHeaderSize, tableBlockFrameOverhead]
    omega
  simp only [tableBlockFrameOverhead] at hbytesLen ⊢
  exact ⟨hbytesLen, by omega, by omega⟩

theorem FrameOf.decode (hcodec : codec.RoundTrips) (h : FrameOf codec.toTableCodec kind payload bytes) :
    ∃ frame, decodeExactFrame codec bytes kind = .ok (frame, bytes.length) ∧ frame.decodedPayload = payload := by
  obtain ⟨frame, hframe, hbytes⟩ := h
  obtain ⟨hkind, -, hpayload⟩ := TableBlockFrame.new_eq_ok.mp hframe
  exact ⟨frame, decodeExactFrame_encode hcodec hkind hbytes, hpayload⟩

namespace TableParts

variable {codec : TableBlockCodec} {target : Nat} {region : Bytes} {index : List TableIndexRecord}
  {filter : Option TableFilterFrame} {output : ImmutableTableStreamingOutput}

/-- The footer of a finished table. -/
def footer (parts : TableParts codec.toTableCodec target region index filter output) : TableFooter :=
  ⟨tableHeaderSize + region.length + parts.filterBytes.length, parts.indexBytes.length,
    if filter.isSome then tableHeaderSize + region.length else 0, parts.filterBytes.length,
    tableHeaderSize + region.length + parts.filterBytes.length + parts.indexBytes.length,
    parts.propertiesBytes.length⟩

variable (parts : TableParts codec.toTableCodec target region index filter output)

/-- The bytes in front of the footer. -/
theorem bytes_eq_append : output.bytes = (encodeTableHeader (output.header target) ++
    (region ++ (parts.filterBytes ++ (parts.indexBytes ++ parts.propertiesBytes)))) ++
      parts.footerBytes := by
  rw [parts.bytes_eq]
  simp

theorem length_front : (encodeTableHeader (output.header target) ++
    (region ++ (parts.filterBytes ++ (parts.indexBytes ++ parts.propertiesBytes)))).length =
      tableHeaderSize + region.length + parts.filterBytes.length + parts.indexBytes.length +
        parts.propertiesBytes.length := by
  simp only [length_append, length_encodeTableHeader]
  omega

include parts in
theorem decode_header (htarget : target < 2 ^ 32) (tail : Bytes) :
    decodeTableHeader (encodeTableHeader (output.header target) ++ tail) =
      .ok (output.header target, tableHeaderSize) :=
  decodeTableHeader_append htarget parts.header_valid tail

theorem footer_fits (hregion : region.length < 2 ^ 48) : parts.footer.Fits := by
  have hfilter := (ImmutableTableStreamingEncoder.length_filterFrameBytes parts.filter_eq).1
  have hindex := parts.indexFrame.length.2.2
  have hproperties := parts.propertiesFrame.length.2.2
  refine ⟨?_, hindex, ?_, hfilter, ?_, hproperties⟩
  · simp only [footer, tableHeaderSize]; omega
  · simp only [footer, tableHeaderSize]; split <;> omega
  · simp only [footer, tableHeaderSize]; omega

theorem decode_footer (hregion : region.length < 2 ^ 48) : parts.footerBytes.length = tableFooterSize ∧
      decodeTableFooter codec output.bytes = .ok parts.footer ∧
      decodeTableFooterMetadata parts.footerBytes (tableHeaderSize + region.length +
        parts.filterBytes.length + parts.indexBytes.length + parts.propertiesBytes.length) = .ok parts.footer := by
  have h : _ ∧ decodeTableFooter codec _ = _ ∧ _ :=
    decodeTableFooter_append (parts.footer_fits hregion) parts.indexFrame.length.2.1
      parts.propertiesFrame.length.2.1 parts.footer_eq
  rwa [← parts.bytes_eq_append, parts.length_front] at h

theorem decode_index (hcodec : codec.RoundTrips) (hstored : ∀ entry ∈ index, entry.Stored) :
    decodeIndexFrame codec parts.indexBytes output.dataBlockCount = .ok index := by
  obtain ⟨frame, hframe, hpayload⟩ := parts.indexFrame.decode hcodec
  simp only [decodeIndexFrame, hframe, ok_bind, hpayload, parts.count_eq]
  exact decodeTableIndexBlockForDataBlocks_encode hstored parts.index_valid parts.indexPayload_eq

theorem decode_properties (hcodec : codec.RoundTrips) :
    decodePropertiesFrame codec parts.propertiesBytes = .ok output.properties := by
  obtain ⟨frame, hframe, hpayload⟩ := parts.propertiesFrame.decode hcodec
  simp only [decodePropertiesFrame, hframe, ok_bind, hpayload]
  exact decodeTableProperties_encode parts.properties_valid parts.propertiesPayload_eq

/-- The filter slot is empty exactly where there is no filter. -/
theorem filterLen_eq_zero : parts.footer.filterBlockFrameLen = 0 ↔ filter = none := by
  have h := (ImmutableTableStreamingEncoder.length_filterFrameBytes parts.filter_eq).2
  rw [← Option.not_isSome_iff_eq_none, h, not_not]
  rfl

theorem decode_filter (hcodec : codec.RoundTrips) (hfilter : ∀ f ∈ filter, f.keyCount < 2 ^ 64) :
    decodeFilterSlot codec parts.footer parts.filterBytes = .ok filter := by
  have hlen := parts.filterLen_eq_zero
  have hbytes := parts.filter_eq
  cases filter with
  | none =>
    rw [decodeFilterSlot, if_neg (not_not.mpr (hlen.mpr rfl))]
  | some f =>
    have hne : parts.footer.filterBlockFrameLen ≠ 0 := fun h => by cases hlen.mp h
    have hdecode := decodeFilterFrame_encode hcodec (hfilter f rfl) hbytes
    rw [decodeFilterSlot, if_pos hne, hdecode, ok_bind]
    simp [require]

theorem decode_dataEnd : decodeDataEnd parts.footer parts.footer.indexBlockOffset =
    .ok (tableHeaderSize + region.length) := by
  by_cases hlen : parts.footer.filterBlockFrameLen = 0
  · have hbytes : parts.filterBytes.length = 0 := hlen
    rw [decodeDataEnd, if_neg (not_not.mpr hlen), footer, hbytes]
    rfl
  · have hsome : filter.isSome := by
      rw [← Option.ne_none_iff_isSome]
      exact fun h => hlen (parts.filterLen_eq_zero.mpr h)
    simp only [decodeDataEnd, ne_eq, hlen, not_false_eq_true, ↓reduceIte, tableRange,
      checkedFooterRange, require, ok_bind]
    simp [footer, hsome]

/-! The slices of a finished table are its frames. -/

theorem length_bytes (hregion : region.length < 2 ^ 48) :
    output.bytes.length = tableHeaderSize + region.length + parts.filterBytes.length +
      parts.indexBytes.length + parts.propertiesBytes.length + tableFooterSize := by
  rw [parts.bytes_eq_append, length_append, parts.length_front, (parts.decode_footer hregion).1]

include parts in
theorem slice_header : slice output.bytes 0 tableHeaderSize = encodeTableHeader (output.header target) := by
  rw [parts.bytes_eq, slice_append_left (length_encodeTableHeader _)]

include parts in
theorem slice_region : slice output.bytes tableHeaderSize (tableHeaderSize + region.length) = region := by
  rw [parts.bytes_eq]
  exact slice_append_mid (length_encodeTableHeader _) rfl

theorem slice_filter : slice output.bytes (tableHeaderSize + region.length)
    parts.footer.indexBlockOffset = parts.filterBytes := by
  rw [parts.bytes_eq, ← append_assoc]
  exact slice_append_mid (by simp) rfl

theorem slice_index : slice output.bytes parts.footer.indexBlockOffset
    (parts.footer.indexBlockOffset + parts.footer.indexBlockFrameLen) = parts.indexBytes := by
  rw [parts.bytes_eq, ← append_assoc, ← append_assoc]
  exact slice_append_mid (by simp [footer]; omega) rfl

theorem slice_properties : slice output.bytes parts.footer.propertiesBlockOffset
    (parts.footer.propertiesBlockOffset + parts.footer.propertiesBlockFrameLen) =
      parts.propertiesBytes := by
  rw [parts.bytes_eq, ← append_assoc, ← append_assoc, ← append_assoc]
  exact slice_append_mid (by simp [footer]; omega) rfl

theorem slice_footer (hregion : region.length < 2 ^ 48) :
    slice output.bytes (output.bytes.length - tableFooterSize) output.bytes.length =
      parts.footerBytes := by
  have hfooter := (parts.decode_footer hregion).1
  rw [parts.length_bytes hregion, Nat.add_sub_cancel, parts.bytes_eq_append]
  conv_lhs => rw [← append_nil parts.footerBytes]
  exact slice_append_mid parts.length_front (by rw [hfooter])

/-- Where the data region ends, as the reader of the metadata computes it. -/
theorem dataEnd_eq : (if parts.footer.filterBlockFrameLen ≠ 0 then parts.footer.filterBlockOffset
    else parts.footer.indexBlockOffset) = tableHeaderSize + region.length := by
  have h := parts.decode_dataEnd
  rw [decodeDataEnd] at h
  split_ifs at h with hne
  · simp only [tableRange, checkedFooterRange, bind_eq_ok, require_eq_ok,
      ok.injEq, Prod.exists, Prod.mk.injEq] at h
    obtain ⟨_, _, ⟨-, -, rfl, rfl⟩, -, -, h⟩ := h
    rw [if_pos hne, h]
  · rw [if_neg hne]
    exact ok.inj h

include parts in
/-- A finished table is decoded, once its data blocks are. -/
theorem decode_table (hcodec : codec.RoundTrips) (htarget : target < 2 ^ 32)
    (hregion : region.length < 2 ^ 48) (hfilter : ∀ f ∈ filter, f.keyCount < 2 ^ 64)
    (hstored : ∀ entry ∈ index, entry.Stored) {dataBlocks : List TableDataBlock}
    {locations : List DataFrameLocation}
    (hdata : decodeDataFrames codec tableHeaderSize region = .ok (dataBlocks, locations))
    (hfacts : validateTableAgainstDecodedFacts (output.header target) dataBlocks locations index
      output.properties (tableHeaderSize + region.length) = .ok ()) :
    decodeImmutableTable codec output.bytes = .ok ⟨output.header target, dataBlocks, index,
      output.properties, dataBlocks.flatMap (·.rows), filter⟩ := by
  have hlen := parts.length_bytes hregion
  have hmin : tableHeaderSize + tableFooterSize ≤ output.bytes.length := by omega
  have hstart : parts.footer.propertiesBlockOffset + parts.footer.propertiesBlockFrameLen =
      output.bytes.length - tableFooterSize := by
    rw [hlen]; rfl
  have hheader : decodeTableHeader output.bytes = .ok (output.header target, tableHeaderSize) := by
    rw [parts.bytes_eq]; exact parts.decode_header htarget _
  have hblocks : decodeDataRegion codec output.bytes (tableHeaderSize + region.length) =
      .ok (dataBlocks, locations) := by
    rw [decodeDataRegion, parts.slice_region, check_bind_eq_ok, require_eq_ok]
    exact ⟨by omega, hdata⟩
  simp only [decodeImmutableTable, bind_eq_ok, require_eq_ok, Prod.exists, tableRange, checkedFooterRange]
  exact ⟨(), hmin, _, _, hheader, (), rfl, _, (parts.decode_footer hregion).2.1, _, _,
    ⟨(), parts.indexFrame.length.2.1, rfl⟩, _, _, ⟨(), parts.propertiesFrame.length.2.1, rfl⟩, (),
    ⟨rfl, hstart⟩, _, parts.decode_dataEnd, _, _, hblocks,
    _, by rw [parts.slice_filter]; exact parts.decode_filter hcodec hfilter,
    _, by rw [parts.slice_index]; exact parts.decode_index hcodec hstored,
    _, by rw [parts.slice_properties]; exact parts.decode_properties hcodec, (), hfacts, rfl⟩

/-- And its metadata is decoded from the slices the footer locates. -/
theorem decode_metadata (hcodec : codec.RoundTrips) (htarget : target < 2 ^ 32)
    (hregion : region.length < 2 ^ 48) (hstored : ∀ entry ∈ index, entry.Stored)
    (hrows : (index.map (·.rowCount)).sum = output.rowCount)
    (hrange : ∀ entry ∈ index, tableHeaderSize ≤ entry.blockOffset ∧
      entry.blockOffset + entry.blockFrameLen ≤ tableHeaderSize + region.length) :
    decodeImmutableTableMetadata codec output.bytes.length (slice output.bytes 0 tableHeaderSize)
        (slice output.bytes (output.bytes.length - tableFooterSize) output.bytes.length)
        (slice output.bytes parts.footer.indexBlockOffset
          (parts.footer.indexBlockOffset + parts.footer.indexBlockFrameLen))
        (slice output.bytes parts.footer.propertiesBlockOffset
          (parts.footer.propertiesBlockOffset + parts.footer.propertiesBlockFrameLen)) =
      .ok ⟨output.header target, index, output.properties, output.bytes.length,
        parts.footer.filterBlockOffset, parts.footer.filterBlockFrameLen⟩ := by
  have hlen := parts.length_bytes hregion
  have hmin : tableHeaderSize + tableFooterSize ≤ output.bytes.length := by omega
  have hfooter : decodeTableFooterMetadata parts.footerBytes
      (output.bytes.length - tableFooterSize) = .ok parts.footer := by
    rw [hlen, Nat.add_sub_cancel]; exact (parts.decode_footer hregion).2.2
  have hheader := parts.decode_header htarget []
  have hends : validateMetadataAgainstHeaderAndFooter (output.header target) parts.footer index
      output.properties = .ok () := by
    simp only [validateMetadataAgainstHeaderAndFooter, validateTablePropertiesAgainstHeader,
      check_bind_eq_ok, require_eq_ok, parts.first_eq, parts.last_eq, hrows]
    exact ⟨⟨rfl, rfl, rfl, rfl⟩, rfl, rfl, rfl, rfl⟩
  simp only [decodeImmutableTableMetadata, bind_eq_ok, require_eq_ok, Prod.exists,
    parts.slice_header, parts.slice_footer hregion, parts.slice_index, parts.slice_properties]
  refine ⟨(), hmin, _, _, hheader, (), rfl, _, hfooter, _, parts.decode_index hcodec hstored, _,
    parts.decode_properties hcodec, (), hends, (), ?_, rfl⟩
  rw [parts.dataEnd_eq, forM_eq_ok]
  exact fun entry hentry => require_eq_ok.mpr (hrange entry hentry)

end TableParts

/-! ## The round trip -/

/-- Where the footer of a table finds its frames. -/
structure FooterLocates (regionLen : Nat) (blocks : List (List StorageRow))
    (filter : Option TableFilterFrame) (output : ImmutableTableStreamingOutput)
    (footer : TableFooter) : Prop where
  filterOffset_eq : footer.filterBlockOffset =
    if filter.isSome then tableHeaderSize + regionLen else 0
  filterLen_eq_zero : footer.filterBlockFrameLen = 0 ↔ filter = none
  indexOffset_eq : footer.indexBlockOffset = tableHeaderSize + regionLen + footer.filterBlockFrameLen
  indexLen_eq : footer.indexBlockFrameLen = tableBlockFrameOverhead + indexBlockLen (blocks.map indexEntry)
  propertiesOffset_eq : footer.propertiesBlockOffset = footer.indexBlockOffset + footer.indexBlockFrameLen
  properties_end : footer.propertiesBlockOffset + footer.propertiesBlockFrameLen + tableFooterSize =
    output.bytes.length

theorem map_located (codec : TableCodec) (compression : TableCompression) (offset : Nat)
    (blocks : List (List StorageRow)) :
    (located codec compression offset blocks).map (·.toTableIndexEntry) = blocks.map indexEntry := by
  induction blocks generalizing offset with
  | nil => rfl
  | cons rows blocks ih => rw [located, map_cons, map_cons, ih]

theorem length_encodeTableIndexBlock (h : encodeTableIndexBlock entries = .ok payload) :
    payload.length = indexBlockLen (entries.map (·.toTableIndexEntry)) := by
  simp only [encodeTableIndexBlock, bind_eq_ok] at h
  obtain ⟨-, -, _, -, encoded, hencoded, h⟩ := h
  cases h
  have hlen : ∀ entries : List TableIndexRecord, 8 + (entries.flatMap (·.encoded)).length =
      indexBlockLen (entries.map (·.toTableIndexEntry)) := by
    intro entries
    induction entries with
    | nil => rfl
    | cons entry entries ih =>
      simp only [indexBlockLen, map_cons, sum_cons, flatMap_cons, length_append,
        TableIndexRecord.encoded, lenPrefixed, length_leBytes] at ih ⊢
      omega
  rw [← hlen, length_append, mapM_encodeTableIndexEntry_bytes hencoded]
  simp

namespace TableParts

theorem footerLocates {target : Nat}
    (parts : TableParts codec.toTableCodec target (dataRegion codec.toTableCodec compression blocks)
      (located codec.toTableCodec compression tableHeaderSize blocks) filter output)
    (hregion : (dataRegion codec.toTableCodec compression blocks).length < 2 ^ 48) :
    FooterLocates (dataRegion codec.toTableCodec compression blocks).length blocks filter output
      parts.footer := by
  have hindexLen := length_encodeTableIndexBlock parts.indexPayload_eq
  rw [map_located] at hindexLen
  exact ⟨rfl, parts.filterLen_eq_zero, rfl, by rw [← hindexLen]; exact parts.indexFrame.length.1, rfl,
    (parts.length_bytes hregion).symm⟩

end TableParts

namespace ImmutableTableStreamingEncoder

/-- A finished table of these blocks, with its data blocks decoded. -/
structure Finished (codec : TableBlockCodec) (target : Nat) (compression : TableCompression)
    (blocks : List (List StorageRow)) (filter : Option TableFilterFrame)
    (output : ImmutableTableStreamingOutput) where
  parts : TableParts codec.toTableCodec target (dataRegion codec.toTableCodec compression blocks)
    (located codec.toTableCodec compression tableHeaderSize blocks) filter output
  region_lt : (dataRegion codec.toTableCodec compression blocks).length < 2 ^ 48
  stored : ∀ entry ∈ located codec.toTableCodec compression tableHeaderSize blocks, entry.Stored
  dataBlocks : List TableDataBlock
  decoded : decodeDataFrames codec tableHeaderSize (dataRegion codec.toTableCodec compression blocks) =
    .ok (dataBlocks, (located codec.toTableCodec compression tableHeaderSize blocks).map (·.location))
  entries_eq : dataBlocks.map (·.entries) = blocks.map (·.map (·.dataEntry))
  properties_eq : TableProperties.fromDataBlocks dataBlocks = .ok output.properties
  rowCount_eq : blocks.flatten.length = output.rowCount

section Finish

variable {codec : TableBlockCodec} {target rowsPerBlock : Nat} {compression : TableCompression}
  {rows : List StorageRow} {blocks : List (List StorageRow)} {filter : Option TableFilterFrame}
  {encoder : ImmutableTableStreamingEncoder} {output : ImmutableTableStreamingOutput}

/-- The metadata of an encoder whose blocks are all written. -/
theorem finished (hcodec : codec.RoundTrips) (hcomplete : Complete target rows blocks encoder)
    (hwritten : Written codec.toTableCodec compression blocks encoder)
    (hok : encoder.writeMetadata codec.toTableCodec filter = .ok output) :
    Nonempty (Finished codec target compression blocks filter output) := by
  obtain ⟨hrowCount, hcommitMin, hcommitMax, ⟨parts⟩⟩ := writeMetadata_parts hwritten hok
  rw [hcomplete.target_eq, hwritten.index_eq] at parts
  have hcountEq : output.dataBlockCount = blocks.length := by rw [parts.count_eq, length_located]
  have hregion : (dataRegion codec.toTableCodec compression blocks).length < 2 ^ 48 := by
    have hcount := (TableHeader.new_eq_ok.mp parts.header_valid).2.1.2
    have hle := length_dataRegion_le hwritten.framed
    simp only [tableBlockFrameOverhead, maxTableBlockEncodedBytes, maxTableDataBlocks, hcountEq] at *
    omega
  have hrows : blocks.flatten.length = output.rowCount := by
    rw [hcomplete.flatten_eq, ← hcomplete.rowCount_eq, hrowCount]
  have hmin : blocks.flatten.foldl (fun m row => trackMin m row.commitVersion) none = some output.commitMin := by
    rw [hcomplete.flatten_eq, ← hcomplete.commitMin_eq, hcommitMin]
  have hmax : blocks.flatten.foldl (fun m row => trackMax m row.commitVersion) none = some output.commitMax := by
    rw [hcomplete.flatten_eq, ← hcomplete.commitMax_eq, hcommitMax]
  have hnew : TableProperties.new blocks.flatten.length blocks.length output.commitMin
      output.commitMax output.minKeyBytes output.maxKeyBytes = .ok output.properties := by
    rw [hrows, ← hcountEq]
    exact parts.properties_valid
  obtain ⟨dataBlocks, hdata, hentries⟩ := decodeDataFrames_dataRegion hcodec hwritten.framed tableHeaderSize
  exact ⟨{
    parts, dataBlocks
    region_lt := hregion
    stored := fun entry hentry => stored_of_mem_located hwritten.framed
      (by simp only [tableHeaderSize]; omega) hentry
    decoded := hdata
    entries_eq := hentries
    properties_eq := fromDataBlocks_eq hentries parts.index_valid hmin hmax parts.first_eq parts.last_eq hnew
    rowCount_eq := hrows }⟩

namespace Finished

variable (h : Finished codec target compression blocks filter output)

/-- The facts the decoder checks against each other agree. -/
theorem facts : validateTableAgainstDecodedFacts (output.header target) h.dataBlocks
    ((located codec.toTableCodec compression tableHeaderSize blocks).map (·.location))
    (located codec.toTableCodec compression tableHeaderSize blocks) output.properties
    (tableHeaderSize + (dataRegion codec.toTableCodec compression blocks).length) = .ok () := by
  have hlen : h.dataBlocks.length = blocks.length := by
    simpa using congrArg length h.entries_eq
  have hcount : blocks.length = (output.header target).dataBlockCount := by
    rw [← length_located tableHeaderSize blocks, ← h.parts.count_eq]
    rfl
  simp only [validateTableAgainstDecodedFacts, bind_eq_ok, require_eq_ok,
    validateTablePropertiesAgainstHeader, length_map, length_located, hlen, and_self]
  exact ⟨(), hcount, (), trivial, _, h.properties_eq, (), ⟨rfl, rfl, rfl, rfl⟩, (), rfl, (),
    ⟨rfl, rfl, rfl, rfl⟩, validateIndexedBlocks_located le_rfl le_rfl h.entries_eq⟩

/-- The decoded table. -/
def table : ImmutableTable :=
  ⟨output.header target, h.dataBlocks, located codec.toTableCodec compression tableHeaderSize blocks,
    output.properties, h.dataBlocks.flatMap (·.rows), filter⟩

theorem decode_eq (hcodec : codec.RoundTrips) (htarget : target < 2 ^ 32)
    (hfilter : ∀ f ∈ filter, f.keyCount < 2 ^ 64) :
    decodeImmutableTable codec output.bytes = .ok h.table :=
  h.parts.decode_table hcodec htarget h.region_lt hfilter h.stored h.decoded h.facts

theorem rows_table : h.table.rows = blocks.flatten := (flatMap_rows h.entries_eq).2

end Finished

/-- Finishing an encoder whose rows are sorted. -/
theorem finish_finished (hcodec : codec.RoundTrips) {start : ImmutableTableStreamingEncoder}
    (hnew : new target rowsPerBlock compression = .ok start)
    (happend : rows.foldlM (fun encoder row => encoder.appendStreamingRow codec.toTableCodec
      row.streaming) start = .ok encoder)
    (hfinish : encoder.finishWithMetadata codec.toTableCodec filter = .ok output)
    (hne : rows ≠ []) (hsorted : SortedRows rows) :
    Describes rows (cutBlocks target rowsPerBlock rows).length output ∧
      Nonempty (Finished codec target compression (cutBlocks target rowsPerBlock rows) filter
        output) := by
  obtain ⟨hencodes, hwritten⟩ := foldlM_written hnew happend
  simp only [finishWithMetadata, bind_eq_ok] at hfinish
  obtain ⟨flushed, hflush, hfinish⟩ := hfinish
  have hblocks := hencodes.flush_written hwritten hflush
  have hcomplete := hencodes.complete hflush
  obtain ⟨h⟩ := finished hcodec hcomplete hblocks hfinish
  obtain ⟨htarget, hcount, hrowCount, -⟩ := TableHeader.new_eq_ok.mp h.parts.header_valid
  rw [h.parts.count_eq, length_located] at hcount
  rw [← h.rowCount_eq, hcomplete.flatten_eq] at hrowCount
  have hrows : TableRows rows := ⟨hsorted, fun row hrow => by
    rw [← hcomplete.flatten_eq] at hrow
    obtain ⟨block, hblock, hrow⟩ := mem_flatten.mp hrow
    exact (hblocks.framed block hblock).block.1 row hrow⟩
  exact ⟨writeMetadata_describes hcomplete hrows htarget hne hrowCount.2 hcount.2 hfinish, ⟨h⟩⟩

end Finish

/-- A table the streaming encoder finishes is decoded to the rows it was given,
in order, with the blocks it cut, and every fact of the header, the index, the
properties and the footer is the one the rows determine; the reader of the
metadata, given the byte ranges the footer locates, agrees. The bounds on
`target` and on a filter's key count are those of their machine types. -/
theorem table_roundTrip (codec : TableBlockCodec) (hcodec : codec.RoundTrips) {target rowsPerBlock : Nat}
    (htarget : target < 2 ^ 32) {compression : TableCompression} {rows : List StorageRow} (hne : rows ≠ [])
    (hsorted : SortedRows rows) {filter : Option TableFilterFrame}
    (hfilter : ∀ f ∈ filter, f.keyCount < 2 ^ 64) {start encoder : ImmutableTableStreamingEncoder}
    {output : ImmutableTableStreamingOutput} (hnew : new target rowsPerBlock compression = .ok start)
    (happend : rows.foldlM (fun encoder row => encoder.appendStreamingRow codec.toTableCodec
      row.streaming) start = .ok encoder)
    (hfinish : encoder.finishWithMetadata codec.toTableCodec filter = .ok output) :
    Describes rows (cutBlocks target rowsPerBlock rows).length output ∧
    ∃ table footer, decodeImmutableTable codec output.bytes = .ok table ∧
      table.rows = rows ∧ table.dataBlocks.map (·.rows) = cutBlocks target rowsPerBlock rows ∧
      table.header = output.header target ∧ table.properties = output.properties ∧
      table.index = located codec.toTableCodec compression tableHeaderSize (cutBlocks target rowsPerBlock rows) ∧
      table.filter = filter ∧
      decodeTableFooter codec output.bytes = .ok footer ∧
      FooterLocates (dataRegion codec.toTableCodec compression (cutBlocks target rowsPerBlock rows)).length
        (cutBlocks target rowsPerBlock rows) filter output footer ∧
      decodeImmutableTableMetadata codec output.bytes.length (slice output.bytes 0 tableHeaderSize)
          (slice output.bytes (output.bytes.length - tableFooterSize) output.bytes.length)
          (slice output.bytes footer.indexBlockOffset (footer.indexBlockOffset + footer.indexBlockFrameLen))
          (slice output.bytes footer.propertiesBlockOffset
            (footer.propertiesBlockOffset + footer.propertiesBlockFrameLen)) =
        .ok ⟨table.header, table.index, table.properties, output.bytes.length,
          footer.filterBlockOffset, footer.filterBlockFrameLen⟩ := by
  obtain ⟨hdescribes, ⟨h⟩⟩ := finish_finished hcodec hnew happend hfinish hne hsorted
  refine ⟨hdescribes, h.table, h.parts.footer, h.decode_eq hcodec htarget hfilter,
    h.rows_table.trans (Cut.flatten_blocks_ofList _ rows), (flatMap_rows h.entries_eq).1, rfl, rfl, rfl, rfl,
    (h.parts.decode_footer h.region_lt).2.1, h.parts.footerLocates h.region_lt,
    h.parts.decode_metadata hcodec htarget h.region_lt h.stored ?_ fun entry hentry => ?_⟩
  · rw [sum_rowCount_located, h.rowCount_eq]
  · obtain ⟨_, _, _, hle, hend⟩ := mem_located hentry
    exact ⟨hle, hend⟩

end ImmutableTableStreamingEncoder

namespace Sample

/-- CRC-32, and a compressor that stores a payload as it is. -/
def blockCodec : TableBlockCodec := ⟨⟨Crc32.checksum, some⟩, fun encoded _ => some encoded⟩

theorem blockCodec_roundTrips : blockCodec.RoundTrips := fun _ _ h => h.symm

def filterFrame : TableFilterFrame := ⟨1, 2, 8, [0xff]⟩

/-- Two versions of a key, each in a block of its own, with a filter. -/
theorem table_roundTrip_twoBlocks :
    ∃ start encoder output, ImmutableTableStreamingEncoder.new 1 4 .uncompressed = .ok start ∧
      [put 2 20, put 1 10].foldlM (fun encoder row => encoder.appendStreamingRow
        blockCodec.toTableCodec row.streaming) start = .ok encoder ∧
      encoder.finishWithMetadata blockCodec.toTableCodec (some filterFrame) = .ok output ∧
      ∃ table, decodeImmutableTable blockCodec output.bytes = .ok table ∧
        table.rows = [put 2 20, put 1 10] ∧ table.filter = some filterFrame := by
  have hrun : (ImmutableTableStreamingEncoder.new 1 4 .uncompressed >>= fun start =>
      [put 2 20, put 1 10].foldlM (fun encoder row => encoder.appendStreamingRow
        blockCodec.toTableCodec row.streaming) start >>= fun encoder =>
      encoder.finishWithMetadata blockCodec.toTableCodec (some filterFrame)).isOk = true := by
    decide +kernel
  obtain ⟨output, houtput⟩ := Except.exists_eq_ok hrun
  simp only [Except.bind_eq_ok] at houtput
  obtain ⟨start, hnew, encoder, happend, hfinish⟩ := houtput
  obtain ⟨-, table, _, hdecode, hrows, -, -, -, -, hfilter, -⟩ :=
    ImmutableTableStreamingEncoder.table_roundTrip blockCodec blockCodec_roundTrips (by decide)
      (by decide) (by decide) (by decide) hnew happend hfinish
  exact ⟨start, encoder, output, hnew, happend, hfinish, table, hdecode, hrows, hfilter⟩

end Sample

end Strata
