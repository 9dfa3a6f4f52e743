import StrataStorage.Format.Table.Decoder
import StrataStorage.Table.Builder

/-!
# Opening tables

`ImmutableTableReader::open_bytes`: the bytes of a table are decoded, its rows
and facts checked, and its filter is the persisted one or, for a table without
one, built from the rows. The decoder cannot tell whether a persisted filter
belongs to the rows; the builder wrote it from them:

* `openBytes_scanned`: without a persisted filter, whatever is opened is the
  contents of a reader;
* `openBytes_built`: every table the builder returns is opened to a reader of
  its rows, whose filter reports none of them absent.
-/

namespace Strata

open Except List

variable {rows : List StorageRow} {facts : TableRuntimeFacts} {identity : TableIdentity} {bytes : Bytes}

/-! ## The checks -/

/-- `validate_strictly_sorted_unique_rows`, behind a row stored under `previous`. -/
def validateStrictlySortedUniqueRows : Option Bytes → List StorageRow → Except TableRuntimeError Unit
  | _, [] => .ok ()
  | previous, row :: rows => do
    validateBuilderRowOrder previous row.key
    validateStrictlySortedUniqueRows (some row.key) rows

theorem validateStrictlySortedUniqueRows_eq_ok {previous : Option Bytes} {u : Unit} :
    validateStrictlySortedUniqueRows previous rows = .ok u ↔
      SortedRows rows ∧ ∀ p ∈ previous, ∀ row ∈ rows, p < row.key := by
  induction rows generalizing previous with
  | nil => simp [validateStrictlySortedUniqueRows, SortedRows]
  | cons row rows ih =>
    rw [validateStrictlySortedUniqueRows, check_bind_eq_ok, validateBuilderRowOrder_eq_ok, ih]
    simp only [SortedRows, pairwise_cons]
    constructor
    · rintro ⟨hprevious, hsorted, hrow⟩
      refine ⟨⟨hrow row.key rfl, hsorted⟩, fun p hp r hr => ?_⟩
      rcases mem_cons.mp hr with rfl | hr
      · exact hprevious p hp
      · exact (hprevious p hp).trans (hrow row.key rfl r hr)
    · rintro ⟨⟨hrow, hsorted⟩, hprevious⟩
      refine ⟨fun p hp => hprevious p hp row mem_cons_self, hsorted, fun p hp r hr => ?_⟩
      cases hp
      exact hrow r hr

/-- `validate_filter_rows_match_facts`. -/
def validateFilterRowsMatchFacts (facts : TableRuntimeFacts) (rows : List StorageRow) :
    Except TableRuntimeError Unit := do
  .require (rows.length = facts.rowCount) (.invalidRange "table_filter_row_count")
  validateStrictlySortedUniqueRows none rows
  let first ← rows.head?.okOr (.invalidRange "table_filter_rows")
  let last ← rows.getLast?.okOr (.invalidRange "table_filter_rows")
  .require (first.key = facts.firstKey ∧ last.key = facts.lastKey) (.invalidRange "table_filter_key_range")
  let minCommit ← (rows.map (·.commitVersion)).min?.okOr (.invalidRange "table_filter_commit_range")
  let maxCommit ← (rows.map (·.commitVersion)).max?.okOr (.invalidRange "table_filter_commit_range")
  .require (minCommit = facts.commitMin ∧ maxCommit = facts.commitMax) (.invalidRange "table_filter_commit_range")

/-- The check compares everything the facts say of the rows. -/
theorem validateFilterRowsMatchFacts_eq_ok :
    validateFilterRowsMatchFacts facts rows = .ok () ↔ SortedRows rows ∧ facts.Describes rows := by
  have hmin : ∀ v, (rows.map (·.commitVersion)).min? = some v ↔
      (∃ row ∈ rows, row.commitVersion = v) ∧ ∀ row ∈ rows, v ≤ row.commitVersion := by
    simp [min?_eq_some_iff]
  have hmax : ∀ v, (rows.map (·.commitVersion)).max? = some v ↔
      (∃ row ∈ rows, row.commitVersion = v) ∧ ∀ row ∈ rows, row.commitVersion ≤ v := by
    simp [max?_eq_some_iff]
  simp only [validateFilterRowsMatchFacts, bind_eq_ok, require_eq_ok, Option.okOr_eq_ok,
    validateStrictlySortedUniqueRows_eq_ok, hmin, hmax]
  constructor
  · rintro ⟨-, hcount, -, ⟨hsorted, -⟩, first, hfirst, last, hlast, -, ⟨hfirstKey, hlastKey⟩, _, hminCommit, _,
      hmaxCommit, rfl, rfl⟩
    exact ⟨hsorted, hcount.symm, by simp [hfirst, hfirstKey], by simp [hlast, hlastKey], hminCommit.1,
      hminCommit.2, hmaxCommit.1, hmaxCommit.2⟩
  · rintro ⟨hsorted, h⟩
    obtain ⟨first, hfirst, hfirstKey⟩ := Option.map_eq_some_iff.mp h.firstKey_eq
    obtain ⟨last, hlast, hlastKey⟩ := Option.map_eq_some_iff.mp h.lastKey_eq
    exact ⟨(), h.rowCount_eq.symm, (), ⟨hsorted, by simp⟩, first, hfirst, last, hlast, (), ⟨hfirstKey, hlastKey⟩,
      _, ⟨h.commitMin_mem, h.commitMin_le⟩, _, ⟨h.commitMax_mem, h.le_commitMax⟩, rfl, rfl⟩

/-! ## Filters -/

inductive TableReaderEagerFilterMode where
  | buildOnOpen
  | unavailable
  deriving DecidableEq

def defaultEagerFilterBitsPerKey : Nat := 10

/-- `TableReaderFilter::from_persisted_frame`. A filter of no keys would report
every row absent. -/
def fromPersistedFrame (frame : TableFilterFrame) : Except TableRuntimeError TableBloomFilter := do
  .require (frame.keyCount ≠ 0) (.invalidRange "table_filter_key_count")
  TableBloomFilter.fromFrameParts frame.probes frame.keyCount frame.bitCount frame.bits

def buildEagerFilter (facts : TableRuntimeFacts) (rows : List StorageRow) (mode : TableReaderEagerFilterMode) :
    Except TableRuntimeError (Option TableBloomFilter) := do
  validateFilterRowsMatchFacts facts rows
  match mode with
  | .buildOnOpen =>
    (TableBloomFilter.build (rows.map (·.physicalKeyBytes)) defaultEagerFilterBitsPerKey).map some
  | .unavailable => .ok none

/-- The filter of an eager reader: the persisted one as it is, and a scan of the
rows only without one. -/
def eagerReaderFilter (facts : TableRuntimeFacts) (rows : List StorageRow) (persisted : Option TableFilterFrame)
    (mode : TableReaderEagerFilterMode) : Except TableRuntimeError (Option TableBloomFilter) :=
  match persisted with
  | some frame => (fromPersistedFrame frame).map some
  | none => buildEagerFilter facts rows mode

/-- The filter reports no row absent. -/
def FilterSound (filter : Option TableBloomFilter) (rows : List StorageRow) : Prop :=
  ∀ f ∈ filter, ∀ row ∈ rows, f.mightContain row.physicalKeyBytes ≠ .definitelyAbsent

theorem filterSound_of_build {bitsPerKey : Nat} {filter : TableBloomFilter}
    (h : TableBloomFilter.build (rows.map (·.physicalKeyBytes)) bitsPerKey = .ok filter) :
    FilterSound (some filter) rows := by
  rintro f ⟨⟩ row hrow
  exact TableBloomFilter.mightContain_of_build h (mem_map_of_mem hrow)

theorem buildEagerFilter_eq_ok {mode : TableReaderEagerFilterMode} {filter : Option TableBloomFilter}
    (h : buildEagerFilter facts rows mode = .ok filter) :
    SortedRows rows ∧ facts.Describes rows ∧ FilterSound filter rows := by
  unfold buildEagerFilter at h
  rw [check_bind_eq_ok, validateFilterRowsMatchFacts_eq_ok] at h
  obtain ⟨⟨hsorted, hdescribes⟩, h⟩ := h
  refine ⟨hsorted, hdescribes, ?_⟩
  cases mode with
  | buildOnOpen =>
    obtain ⟨filter, hbuild, rfl⟩ := map_eq_ok.mp h
    exact filterSound_of_build hbuild
  | unavailable =>
    cases h
    nofun

/-- The frame the builder persists is loaded as the filter it was made of. -/
theorem fromPersistedFrame_of_build {bitsPerKey : Nat} {frame : TableFilterFrame} (hne : rows ≠ [])
    (h : buildFilterFrame rows bitsPerKey = .ok frame) :
    ∃ filter, fromPersistedFrame frame = .ok filter ∧ FilterSound (some filter) rows ∧
      frame.keyCount = rows.length := by
  simp only [buildFilterFrame, bind_eq_ok] at h
  obtain ⟨filter, hbuild, hframe⟩ := h
  cases hframe
  have hkeys : rows.map (·.physicalKeyBytes) ≠ [] := by simpa using hne
  have hcount : filter.keyCount = rows.length := by
    simpa using (TableBloomFilter.built_of_build hkeys hbuild).keyCount_eq
  have hpos : filter.keyCount ≠ 0 := by
    rw [hcount]
    simpa using hne
  refine ⟨filter, ?_, filterSound_of_build hbuild, hcount⟩
  rw [fromPersistedFrame, check_bind_eq_ok, require_eq_ok]
  exact ⟨hpos, TableBloomFilter.fromFrameParts_of_build hkeys hbuild⟩

/-- The filter of a table the builder wrote. Where the rows are scanned for a
filter, it must not be too large. -/
theorem eagerReaderFilter_built {config : TableBuilderConfig} {frame : Option TableFilterFrame}
    {mode : TableReaderEagerFilterMode} (hne : rows ≠ []) (hsorted : SortedRows rows) (hdescribe : facts.Describes rows)
    (h : buildFilter config rows = .ok frame) (hscan : config.filterBitsPerKey = none → mode = .buildOnOpen →
      TableBloomFilter.filterBytes rows.length defaultEagerFilterBitsPerKey ≤ maxBloomBytes) :
    ∃ filter, eagerReaderFilter facts rows frame mode = .ok filter ∧ FilterSound filter rows ∧
      ∀ f ∈ frame, f.keyCount = rows.length := by
  unfold buildFilter at h
  split at h
  · obtain ⟨persisted, hframe, rfl⟩ := map_eq_ok.mp h
    obtain ⟨filter, hload, hsound, hcount⟩ := fromPersistedFrame_of_build hne hframe
    exact ⟨some filter, by simp [eagerReaderFilter, hload, Except.map], hsound, by simpa using hcount⟩
  · rename_i hnone
    cases h
    have hvalid := validateFilterRowsMatchFacts_eq_ok.mpr ⟨hsorted, hdescribe⟩
    cases mode with
    | buildOnOpen =>
      have hkeys : rows.map (·.physicalKeyBytes) ≠ [] := by simpa using hne
      have hpos : defaultEagerFilterBitsPerKey ≠ 0 := by decide
      obtain ⟨filter, hfilter⟩ := (TableBloomFilter.build_isOk hpos hkeys).mpr (by simpa using hscan hnone rfl)
      exact ⟨some filter, by simp [eagerReaderFilter, buildEagerFilter, hvalid, hfilter, Except.map],
        filterSound_of_build hfilter, by simp⟩
    | unavailable => exact ⟨none, by simp [eagerReaderFilter, buildEagerFilter, hvalid], nofun, by simp⟩

/-! ## Readers -/

/-- What a reader is opened with. -/
structure OpenedTable where
  facts : TableRuntimeFacts
  blocks : List (List StorageRow)
  filter : Option TableBloomFilter
  deriving DecidableEq

def tableFactsFromDecoded (identity : TableIdentity) (bytes : Bytes) (decoded : ImmutableTable) :
    Except TableRuntimeError TableRuntimeFacts :=
  let properties := decoded.properties
  tableRuntimeFacts identity ⟨bytes, properties.rowCount, properties.dataBlockCount, properties.minKey,
    properties.maxKey, properties.commitMin, properties.commitMax⟩

/-- `open_bytes`, with `decode_reader_rows`. -/
def openBytes (codec : TableBlockCodec) (identity : TableIdentity) (bytes : Bytes)
    (mode : TableReaderEagerFilterMode) : Except TableRuntimeError OpenedTable := do
  let decoded ← (decodeImmutableTable codec bytes).mapError .decodeFormat
  validateStrictlySortedUniqueRows none decoded.rows
  let facts ← tableFactsFromDecoded identity bytes decoded
  let filter ← eagerReaderFilter facts decoded.rows decoded.filter mode
  .ok ⟨facts, decoded.dataBlocks.map (·.rows), filter⟩

/-- The contents of a reader. -/
structure OpenedTable.Valid (opened : OpenedTable) : Prop where
  blocks_ne_nil : ∀ block ∈ opened.blocks, block ≠ []
  rows_sorted : SortedRows opened.blocks.flatten
  facts_describe : opened.facts.Describes opened.blocks.flatten
  filter_sound : FilterSound opened.filter opened.blocks.flatten

/-- A reader with these contents. -/
def OpenedTable.reader (opened : OpenedTable) (h : opened.Valid) (mode : TableReaderRows) : ImmutableTableReader :=
  ⟨opened.facts, opened.blocks, mode, opened.filter, h.blocks_ne_nil, h.rows_sorted, h.facts_describe,
    h.filter_sound⟩

theorem TableDataBlock.rows_ne_nil (block : TableDataBlock) : block.rows ≠ [] := by
  have hvalid := block.entries_valid
  rw [validateTableDataBlock, check_bind_eq_ok, require_eq_ok] at hvalid
  simpa [TableDataBlock.rows] using hvalid.1.1

/-- Without a persisted filter, what is opened is checked against its rows. -/
theorem openBytes_scanned {codec : TableBlockCodec} {mode : TableReaderEagerFilterMode} {decoded : ImmutableTable}
    {opened : OpenedTable} (hdecode : decodeImmutableTable codec bytes = .ok decoded)
    (hfilter : decoded.filter = none) (h : openBytes codec identity bytes mode = .ok opened) : opened.Valid := by
  have hrows : decoded.rows = (decoded.dataBlocks.map (·.rows)).flatten := by
    simp only [decodeImmutableTable, bind_eq_ok] at hdecode
    obtain ⟨_, -, _, -, _, -, _, -, _, -, _, -, _, -, _, -, _, -, _, -, _, -, _, -, _, -, hdecode⟩ := hdecode
    cases hdecode
    exact flatMap_def ..
  simp only [openBytes, hdecode, hfilter, Except.mapError, bind_eq_ok, ok.injEq, exists_eq_left'] at h
  obtain ⟨_, -, facts, -, filter, hscan, rfl⟩ := h
  obtain ⟨hsorted, hdescribes, hsound⟩ := buildEagerFilter_eq_ok hscan
  rw [hrows] at hsorted hdescribes hsound
  refine ⟨fun block hblock => ?_, hsorted, hdescribes, hsound⟩
  obtain ⟨dataBlock, -, rfl⟩ := mem_map.mp hblock
  exact dataBlock.rows_ne_nil

/-! ## Built tables -/

/-- How the encoder wrote a table. -/
structure EncodedAs (codec : TableCodec) (config : TableBuilderConfig) (identity : TableIdentity)
    (rows : List StorageRow) (filter : Option TableFilterFrame) (bytes : Bytes) (facts : TableRuntimeFacts)
    (start encoder : ImmutableTableStreamingEncoder) (output : ImmutableTableStreamingOutput) : Prop where
  new_eq : ImmutableTableStreamingEncoder.new config.targetDataBlockSize config.rowsPerBlock config.compression =
    .ok start
  append_eq : rows.foldlM (fun encoder row => encoder.appendStreamingRow codec row.streaming) start = .ok encoder
  filter_eq : buildFilter config rows = .ok filter
  finish_eq : encoder.finishWithMetadata codec filter = .ok output
  facts_eq : tableRuntimeFacts identity output = .ok facts
  bytes_eq : bytes = output.bytes

/-- Each append hands its row to the encoder. -/
theorem ImmutableTableStreamingBuilder.append_encoder {codec : TableCodec} {row : StorageRow}
    {builder builder' : ImmutableTableStreamingBuilder codec} (h : builder.append row = .ok builder') :
    builder.state.encoder.appendStreamingRow codec row.streaming = .ok builder'.state.encoder := by
  have hstate := append_eq_ok.mp h
  simp only [StreamingBuilderState.append, bind_eq_ok, StreamingBuilderState.validateNextRow_eq_ok,
    mapError_eq_ok] at hstate
  obtain ⟨_, ⟨-, -, -, rfl⟩, encoder, happend, hstate⟩ := hstate
  rw [StreamingBuilderState.counted_encoder] at happend
  rw [happend, ← ok.inj hstate]

/-- The builder runs the encoder on its rows. -/
theorem ImmutableTableBuilder.encodedAs {codec : TableCodec} {builder : ImmutableTableBuilder}
    {artifact : BuiltTableArtifact} (h : builder.buildFromRows codec identity rows = .ok artifact) :
    ∃ filter start encoder output, EncodedAs codec builder.config identity rows filter artifact.bytes artifact.facts
      start encoder output := by
  simp only [buildFromRows, bind_eq_ok] at h
  obtain ⟨streaming, hbegin, streaming', hrun, hfinish⟩ := h
  unfold beginStreaming at hbegin
  split at hbegin
  · cases hbegin
  rename_i state hnew
  cases hbegin
  simp only [StreamingBuilderState.new, bind_eq_ok, mapError_eq_ok] at hnew
  obtain ⟨-, -, start, hstart, hnew⟩ := hnew
  cases hnew
  obtain ⟨hencoder, hrows, hconfig, hidentity⟩ := foldlM_rule
    (R := fun rows (s : ImmutableTableStreamingBuilder codec) =>
      rows.foldlM (fun encoder row => encoder.appendStreamingRow codec row.streaming) start = .ok s.state.encoder ∧
        s.state.materializedRows = rows ∧ s.state.config = builder.config ∧ s.state.identity = identity)
    ⟨rfl, rfl, rfl, rfl⟩ (by
      rintro rows s row s' ⟨hencoder, hrows, hconfig, hidentity⟩ hs'
      obtain ⟨hrows', hconfig', hidentity'⟩ := ImmutableTableStreamingBuilder.append_rows hs'
      refine ⟨?_, by rw [hrows', hrows], hconfig'.trans hconfig, hidentity'.trans hidentity⟩
      rw [foldlM_append, hencoder, ok_bind]
      simpa using ImmutableTableStreamingBuilder.append_encoder hs') hrun
  unfold ImmutableTableStreamingBuilder.finish at hfinish
  split at hfinish
  · cases hfinish
  rename_i bytes facts hok
  cases hfinish
  simp only [StreamingBuilderState.finish, bind_eq_ok, mapError_eq_ok, hconfig, hrows, hidentity] at hok
  obtain ⟨-, -, filter, hfilter, output, houtput, _, hfacts, hok⟩ := hok
  cases hok
  exact ⟨filter, start, _, output, hstart, hencoder, hfilter, houtput, hfacts, rfl⟩

/-- A table the builder returns is opened: to the facts the builder reported,
the blocks the encoder cut and a filter that reports no row absent. Where the
rows are scanned for a filter, it must not be too large. -/
theorem openBytes_built {codec : TableBlockCodec} (hcodec : codec.RoundTrips) {builder : ImmutableTableBuilder}
    (htarget : builder.config.targetDataBlockSize < 2 ^ 32) {mode : TableReaderEagerFilterMode}
    {artifact : BuiltTableArtifact} (hbuild : builder.buildFromRows codec.toTableCodec identity rows = .ok artifact)
    (hscan : builder.config.filterBitsPerKey = none → mode = .buildOnOpen →
      TableBloomFilter.filterBytes rows.length defaultEagerFilterBitsPerKey ≤ maxBloomBytes) :
    ∃ opened, openBytes codec identity artifact.bytes mode = .ok opened ∧ opened.Valid ∧
      opened.facts = artifact.facts ∧
      opened.blocks = cutBlocks builder.config.targetDataBlockSize builder.config.rowsPerBlock rows ∧
      opened.blocks.flatten = rows := by
  have hbuildable := ImmutableTableBuilder.buildFromRows_isOk.mp ⟨artifact, hbuild⟩
  have hdescribe : artifact.facts.Describes rows := by
    rw [← (ImmutableTableBuilder.buildFromRows_eq_ok hbuild).1]
    exact artifact.facts_describe
  have hne := hbuildable.ne_nil
  have hsorted := hbuildable.tableRows.sorted
  obtain ⟨frame, start, encoder, output, h⟩ := ImmutableTableBuilder.encodedAs hbuild
  obtain ⟨-, ⟨hfinished⟩⟩ := ImmutableTableStreamingEncoder.finish_finished hcodec h.new_eq h.append_eq h.finish_eq
    hne hsorted
  have hflatten := Cut.flatten_blocks_ofList (blockFull builder.config.targetDataBlockSize
    builder.config.rowsPerBlock) rows
  have hrows : hfinished.table.rows = rows := hfinished.rows_table.trans hflatten
  obtain ⟨filter, hfilter, hsound, hcount⟩ := eagerReaderFilter_built hne hsorted hdescribe h.filter_eq hscan
  have hdecode := hfinished.decode_eq hcodec htarget fun f hf => by
    rw [hcount f hf]
    exact hbuildable.count_le.trans_lt (by decide)
  have hblocks : hfinished.table.dataBlocks.map (·.rows) = _ := (flatMap_rows hfinished.entries_eq).1
  have hunique : validateStrictlySortedUniqueRows none rows = .ok () :=
    validateStrictlySortedUniqueRows_eq_ok.mpr ⟨hsorted, by simp⟩
  refine ⟨⟨artifact.facts, cutBlocks builder.config.targetDataBlockSize builder.config.rowsPerBlock rows, filter⟩,
    ?_, ⟨Cut.blocks_ne_nil _ rows, ?_, ?_, ?_⟩, rfl, rfl, hflatten⟩
  · have hfacts : tableFactsFromDecoded identity output.bytes hfinished.table = .ok artifact.facts := h.facts_eq
    have hframe : hfinished.table.filter = frame := rfl
    simp only [openBytes, h.bytes_eq, hdecode, Except.mapError, ok_bind, hrows, hunique, hfacts, hblocks, hframe,
      hfilter]
  · exact hflatten.symm ▸ hsorted
  · exact hflatten.symm ▸ hdescribe
  · exact hflatten.symm ▸ hsound

/-! ## Worked inputs -/

namespace Sample

def cellKey (branchId : BranchId) (userKey : UInt8) : PhysicalKey :=
  ⟨branchId, "s", ⟨1, one_ne_zero⟩, [userKey], space_valid⟩

/-- A put whose timestamp is ten times its version. -/
def cell (branchId : BranchId) (userKey : UInt8) (version : CommitVersion) : StorageRow :=
  .put (cellKey branchId userKey) version (version * 10) Timestamp.epoch [userKey]

/-- A builder of blocks of two rows that persists a filter. -/
def filterBuilder : ImmutableTableBuilder := ⟨⟨4096, 2, .uncompressed, some 10⟩, rfl⟩

/-- A table of the rows, built and opened. -/
def reopen (identity : TableIdentity) (rows : List StorageRow) : Except TableRuntimeError OpenedTable := do
  let artifact ← filterBuilder.buildFromRows blockCodec.toTableCodec identity rows
  openBytes blockCodec identity artifact.bytes .buildOnOpen

theorem valid_of_reopen {opened : OpenedTable} (h : reopen identity rows = .ok opened) : opened.Valid := by
  simp only [reopen, bind_eq_ok] at h
  obtain ⟨artifact, hbuild, hopen⟩ := h
  obtain ⟨opened', hopen', hvalid, -⟩ := openBytes_built blockCodec_roundTrips (by decide) hbuild
    fun h => absurd h (by decide)
  rw [hopen] at hopen'
  cases hopen'
  exact hvalid

def ownIdentity : TableIdentity := ⟨"own", by decide⟩

def ownRows : List StorageRow := [cell branch 1 2, cell branch 2 3, cell branch 3 1]

def ownOpened : OpenedTable where
  facts := ⟨ownIdentity, 3, 2, (cell branch 1 2).key, (cell branch 3 1).key, 1, 3, 814⟩
  blocks := [[cell branch 1 2, cell branch 2 3], [cell branch 3 1]]
  filter := some ⟨[49, 192, 28, 32], 30, 7, 3⟩

theorem reopen_ownRows : reopen ownIdentity ownRows = .ok ownOpened := by decide +kernel

/-- The branch the other one was forked from. -/
def parent : BranchId := ⟨List.replicate 16 1, length_ones⟩

def parentIdentity : TableIdentity := ⟨"inherited", by decide⟩

def parentRows : List StorageRow := [cell parent 1 1, cell parent 4 2, cell parent 5 9, cell parent 5 1]

def parentOpened : OpenedTable where
  facts := ⟨parentIdentity, 4, 2, (cell parent 1 1).key, (cell parent 5 1).key, 1, 9, 914⟩
  blocks := [[cell parent 1 1, cell parent 4 2], [cell parent 5 9, cell parent 5 1]]
  filter := some ⟨[88, 149, 8, 221, 1], 40, 7, 4⟩

theorem reopen_parentRows : reopen parentIdentity parentRows = .ok parentOpened := by decide +kernel

end Sample

end Strata
