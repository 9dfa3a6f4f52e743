import StrataStorage.Format.Table.Encoder
import StrataStorage.Lib.Crc32
import StrataStorage.Table.Reader

/-!
# The immutable table builder

`table/builder.rs`: rows are checked one by one, for their size, their order
and the size of the block the builder believes they are in, and handed to the
streaming encoder. The builder's own block counter is reset every
`rows_per_block` rows only (`rowGroups`), while the encoder also cuts at the
byte target (`cutBlocks`), so that a table is built exactly when both the
groups and the blocks are within the limits of the format:

* `StreamingBuilderState.append_isOk`, `finish_isOk`: one row, and the end;
* `ImmutableTableBuilder.buildFromRows_isOk`: which lists of rows make a table.

A built table carries that its rows are sorted and that its facts describe
them; `openBytes_built` makes a reader of it, its filter included.
-/

namespace Strata

open Except List
open ImmutableTableStreamingEncoder (LegalCut legalCut_append finish_describes)

variable {rows : List StorageRow}
variable {row : StorageRow} {u : Unit}

/-! ## Configuration -/

structure TableBuilderConfig where
  targetDataBlockSize : Nat
  rowsPerBlock : Nat
  compression : TableCompression
  filterBitsPerKey : Option Nat
  deriving DecidableEq

def TableBuilderConfig.validate (config : TableBuilderConfig) : Except TableRuntimeError Unit := do
  .require (config.targetDataBlockSize ≠ 0) (.invalidConfig "target_data_block_size" "must be nonzero")
  .require (config.rowsPerBlock ≠ 0) (.invalidConfig "rows_per_block" "must be nonzero")
  .require (config.filterBitsPerKey ≠ some 0) (.invalidConfig "filter_bits_per_key" "must be nonzero")

def TableBuilderConfig.default : TableBuilderConfig := ⟨16 * 1024, 256, .uncompressed, none⟩

theorem TableBuilderConfig.validate_eq_ok {config : TableBuilderConfig} :
    config.validate = .ok u ↔ config.targetDataBlockSize ≠ 0 ∧ config.rowsPerBlock ≠ 0 ∧
      config.filterBitsPerKey ≠ some 0 := by
  simp [validate, bind_eq_ok]

/-- A table as the builder returns it. -/
structure BuiltTableArtifact where
  bytes : Bytes
  facts : TableRuntimeFacts
  rows : List StorageRow
  rows_sorted : SortedRows rows
  facts_describe : facts.Describes rows

variable {artifact : BuiltTableArtifact}

/-! ## The streaming builder -/

/-- The fields of `ImmutableTableStreamingBuilder`. -/
structure StreamingBuilderState where
  identity : TableIdentity
  encoder : ImmutableTableStreamingEncoder
  config : TableBuilderConfig
  previousKey : Option Bytes
  currentBlockEntries : Nat
  currentBlockDecodedLen : Nat
  materializedRows : List StorageRow

def validateBuilderRowShape (row : StorageRow) : Except TableRuntimeError Unit := do
  .require (row.key.length ≠ 0 ∧ row.key.length ≤ maxTableKeyBytes) (.invalidRange "internal_key_len")
  .require (row.encodedLen ≠ 0 ∧ row.encodedLen ≤ maxTableRowBytes) (.invalidRange "row_len")

def validateBuilderRowOrder (previousKey : Option Bytes) (currentKey : Bytes) : Except TableRuntimeError Unit :=
  match previousKey with
  | none => .ok ()
  | some previousKey =>
    if previousKey < currentKey then .ok ()
    else if previousKey = currentKey then .error (.duplicateInternalKey currentKey)
    else .error (.invalidRowOrder previousKey currentKey)

def buildFilterFrame (rows : List StorageRow) (bitsPerKey : Nat) : Except TableRuntimeError TableFilterFrame := do
  let bloom ← TableBloomFilter.build (rows.map (·.physicalKeyBytes)) bitsPerKey
  .ok ⟨bloom.probes, bloom.keyCount, bloom.bitCount, bloom.bits⟩

/-- The filter of a table, where the configuration asks for one. -/
def buildFilter (config : TableBuilderConfig) (rows : List StorageRow) :
    Except TableRuntimeError (Option TableFilterFrame) :=
  match config.filterBitsPerKey with
  | some bitsPerKey => (buildFilterFrame rows bitsPerKey).map some
  | none => .ok none

/-- `TableKeyRange::new`, `TableCommitRange::new` and `TableRuntimeFacts::new`. -/
def tableRuntimeFacts (identity : TableIdentity) (output : ImmutableTableStreamingOutput) :
    Except TableRuntimeError TableRuntimeFacts := do
  .require (output.minKeyBytes ≠ []) (.invalidRange "first_key")
  .require (output.maxKeyBytes ≠ []) (.invalidRange "last_key")
  .require (output.minKeyBytes ≤ output.maxKeyBytes) (.invalidRange "key_range")
  .require (output.commitMin ≤ output.commitMax) (.invalidRange "commit_range")
  .require (output.rowCount ≠ 0) (.invalidRange "row_count")
  .require (output.dataBlockCount ≠ 0) (.invalidRange "data_block_count")
  .require (output.dataBlockCount ≤ output.rowCount) (.invalidRange "data_block_count")
  .require (output.bytes.length ≠ 0) (.invalidRange "byte_count")
  .ok ⟨identity, output.rowCount, output.dataBlockCount, output.minKeyBytes, output.maxKeyBytes,
    output.commitMin, output.commitMax, output.bytes.length⟩

namespace StreamingBuilderState

def new (identity : TableIdentity) (config : TableBuilderConfig) :
    Except TableRuntimeError StreamingBuilderState := do
  config.validate
  let encoder ← (ImmutableTableStreamingEncoder.new config.targetDataBlockSize config.rowsPerBlock
    config.compression).mapError .buildFormat
  .ok ⟨identity, encoder, config, none, 0, 4, []⟩

def recordBlockRowShape (state : StreamingBuilderState) (row : StorageRow) :
    Except TableRuntimeError StreamingBuilderState := do
  let state := { state with
    currentBlockDecodedLen := state.currentBlockDecodedLen + row.entryLen
    currentBlockEntries := state.currentBlockEntries + 1 }
  .require (state.currentBlockEntries ≤ maxTableBlockEntries ∧
    state.currentBlockDecodedLen ≤ maxTableBlockDecodedBytes) (.invalidRange "data_block_decoded_len")
  if state.currentBlockEntries = state.config.rowsPerBlock then
    .ok { state with currentBlockEntries := 0, currentBlockDecodedLen := 4 }
  else .ok state

def validateNextRow (state : StreamingBuilderState) (row : StorageRow) :
    Except TableRuntimeError StreamingBuilderState := do
  validateBuilderRowShape row
  validateBuilderRowOrder state.previousKey row.key
  state.recordBlockRowShape row

def append (codec : TableCodec) (state : StreamingBuilderState) (row : StorageRow) :
    Except TableRuntimeError StreamingBuilderState := do
  let state ← state.validateNextRow row
  let encoder ← (state.encoder.appendStreamingRow codec row.streaming).mapError .buildFormat
  .ok { state with
    encoder
    materializedRows := state.materializedRows ++ [row]
    previousKey := some row.key }

/-- `ImmutableTableStreamingBuilder::finish`: the encoded table and its facts. -/
def finish (codec : TableCodec) (state : StreamingBuilderState) :
    Except TableRuntimeError (Bytes × TableRuntimeFacts) := do
  .require (state.previousKey.isSome) (.invalidRange "row_count")
  let filter ← buildFilter state.config state.materializedRows
  let output ← (state.encoder.finishWithMetadata codec filter).mapError .buildFormat
  let facts ← tableRuntimeFacts state.identity output
  .ok (output.bytes, facts)

end StreamingBuilderState

/-! ## The two ways of cutting -/

/-- The groups of rows the builder counts as blocks: `rows_per_block` each. -/
def rowGroups (rowsPerBlock : Nat) (rows : List StorageRow) : Cut StorageRow :=
  Cut.ofList (fun group => group.length = rowsPerBlock) rows

/-- A group within the limits of a data block. -/
def LegalGroup (group : List StorageRow) : Prop :=
  group.length ≤ maxTableBlockEntries ∧ dataBlockLen group ≤ maxTableBlockDecodedBytes

instance (group : List StorageRow) : Decidable (LegalGroup group) :=
  inferInstanceAs (Decidable (_ ∧ _))

/-- The rows a builder accepts one after the other. -/
structure Accepted (codec : TableCodec) (config : TableBuilderConfig) (rows : List StorageRow) :
    Prop where
  tableRows : TableRows rows
  count_le : rows.length ≤ maxTableRows
  groups : ∀ group ∈ (rowGroups config.rowsPerBlock rows).blocks, LegalGroup group
  cut : LegalCut codec config.compression
    (cutRows config.targetDataBlockSize config.rowsPerBlock rows).closed

/-- A builder that was given these rows. -/
structure Builds (config : TableBuilderConfig) (rows : List StorageRow)
    (state : StreamingBuilderState) : Prop where
  config_eq : state.config = config
  rows_eq : state.materializedRows = rows
  encodes : ImmutableTableStreamingEncoder.Encodes config.targetDataBlockSize config.rowsPerBlock
    config.compression rows state.encoder
  previousKey_eq : state.previousKey = rows.getLast?.map (·.key)
  entries_eq : state.currentBlockEntries = (rowGroups config.rowsPerBlock rows).current.length
  decodedLen_eq : state.currentBlockDecodedLen = dataBlockLen (rowGroups config.rowsPerBlock rows).current

theorem dataBlockLen_append (group : List StorageRow) (row : StorageRow) :
    dataBlockLen (group ++ [row]) = dataBlockLen group + row.entryLen := by
  simp [dataBlockLen, Nat.add_assoc]

theorem rowGroups_append (n : Nat) (rows : List StorageRow) (row : StorageRow) :
    rowGroups n (rows ++ [row]) = (rowGroups n rows).push (fun group => group.length = n) row :=
  Cut.ofList_append _ rows row

/-- The groups of a shorter list begin the groups of the longer one. -/
theorem legalGroups_of_append {n : Nat} (h : ∀ group ∈ (rowGroups n (rows ++ [row])).blocks, LegalGroup group) :
    ∀ group ∈ (rowGroups n rows).blocks, LegalGroup group := by
  rw [rowGroups_append] at h
  intro group hgroup
  rcases Cut.mem_blocks.mp hgroup with hclosed | ⟨rfl, -⟩
  · exact h group ((Cut.mem_blocks_push _).mpr (.inl hclosed))
  · obtain ⟨hlen, hbytes⟩ := h _ ((Cut.mem_blocks_push _).mpr (.inr rfl))
    rw [length_append, length_singleton] at hlen
    rw [dataBlockLen_append] at hbytes
    exact ⟨by omega, by omega⟩

theorem sortedRows_append (hrows : SortedRows rows) :
    SortedRows (rows ++ [row]) ↔ ∀ last ∈ rows.getLast?, last.key < row.key := by
  rw [SortedRows, pairwise_append]
  constructor
  · rintro ⟨-, -, h⟩ last hlast
    exact h last (mem_of_getLast? hlast) row mem_cons_self
  · intro h
    refine ⟨hrows, pairwise_singleton _ _, fun a ha b hb => ?_⟩
    rw [mem_singleton.mp hb]
    obtain ⟨init, last, rfl⟩ := eq_nil_or_concat rows |>.resolve_left (ne_nil_of_mem ha)
    rw [concat_eq_append] at ha h hrows
    have hlast := h last (by simp)
    rcases mem_append.mp ha with ha | ha
    · exact ((pairwise_append.mp hrows).2.2 a ha last mem_cons_self).trans hlast
    · rw [mem_singleton.mp ha]; exact hlast

theorem tableRows_append (hrows : TableRows rows) :
    TableRows (rows ++ [row]) ↔ row.Encodable ∧ ∀ last ∈ rows.getLast?, last.key < row.key := by
  constructor
  · intro h
    exact ⟨h.encodable row (by simp), (sortedRows_append hrows.sorted).mp h.sorted⟩
  · rintro ⟨hrow, hlast⟩
    refine ⟨(sortedRows_append hrows.sorted).mpr hlast, fun r hr => ?_⟩
    rcases mem_append.mp hr with hr | hr
    · exact hrows.encodable r hr
    · rw [mem_singleton.mp hr]; exact hrow

theorem validateBuilderRowShape_eq_ok : validateBuilderRowShape row = .ok u ↔ row.Encodable := by
  have hkey := row.key_length_ne_zero
  have hlen : row.encodedLen ≠ 0 := by simp only [StorageRow.encodedLen]; omega
  simp only [validateBuilderRowShape, bind_eq_ok, require_eq_ok]
  constructor
  · rintro ⟨_, h₁, h₂⟩
    exact ⟨h₁.2, h₂.2⟩
  · exact fun h => ⟨(), ⟨hkey, h.1⟩, hlen, h.2⟩

theorem validateBuilderRowOrder_eq_ok {previousKey : Option Bytes} {currentKey : Bytes} :
    validateBuilderRowOrder previousKey currentKey = .ok u ↔ ∀ p ∈ previousKey, p < currentKey := by
  cases previousKey with
  | none => simp [validateBuilderRowOrder]
  | some p =>
    simp only [validateBuilderRowOrder, Option.mem_def, Option.some.injEq, forall_eq']
    split
    · simp_all
    · split <;> simp_all

/-! ## One row -/

namespace StreamingBuilderState

section Append

variable {codec : TableCodec} {config : TableBuilderConfig} {rows : List StorageRow}
  {state state' : StreamingBuilderState} {row : StorageRow}

theorem builds_new {identity : TableIdentity} (h : new identity config = .ok state) :
    Builds config [] state ∧ state.identity = identity := by
  simp only [new, bind_eq_ok, mapError_eq_ok] at h
  obtain ⟨-, -, encoder, hencoder, h⟩ := h
  cases h
  exact ⟨⟨rfl, rfl, ImmutableTableStreamingEncoder.encodes_new hencoder, rfl, rfl, rfl⟩, rfl⟩

/-- The builder's counter after one more row. -/
def counted (state : StreamingBuilderState) (row : StorageRow) : StreamingBuilderState :=
  if state.currentBlockEntries + 1 = state.config.rowsPerBlock then
    { state with currentBlockEntries := 0, currentBlockDecodedLen := 4 }
  else { state with
    currentBlockDecodedLen := state.currentBlockDecodedLen + row.entryLen
    currentBlockEntries := state.currentBlockEntries + 1 }

@[simp] theorem counted_encoder (state : StreamingBuilderState) (row : StorageRow) :
    (state.counted row).encoder = state.encoder := by unfold counted; split <;> rfl
@[simp] theorem counted_config (state : StreamingBuilderState) (row : StorageRow) :
    (state.counted row).config = state.config := by unfold counted; split <;> rfl
@[simp] theorem counted_identity (state : StreamingBuilderState) (row : StorageRow) :
    (state.counted row).identity = state.identity := by unfold counted; split <;> rfl
@[simp] theorem counted_materializedRows (state : StreamingBuilderState) (row : StorageRow) :
    (state.counted row).materializedRows = state.materializedRows := by unfold counted; split <;> rfl

/-- The checks before the encoder sees a row. -/
theorem validateNextRow_eq_ok : state.validateNextRow row = .ok state' ↔ row.Encodable ∧
    (∀ p ∈ state.previousKey, p < row.key) ∧ (state.currentBlockEntries + 1 ≤ maxTableBlockEntries ∧
      state.currentBlockDecodedLen + row.entryLen ≤ maxTableBlockDecodedBytes) ∧
    state' = state.counted row := by
  have hrecord : state.recordBlockRowShape row = .ok state' ↔
      (state.currentBlockEntries + 1 ≤ maxTableBlockEntries ∧
        state.currentBlockDecodedLen + row.entryLen ≤ maxTableBlockDecodedBytes) ∧
      state' = state.counted row := by
    simp only [recordBlockRowShape, bind_eq_ok, require_eq_ok, counted]
    split <;> simp [eq_comm]
  simp [validateNextRow, bind_eq_ok, validateBuilderRowShape_eq_ok, validateBuilderRowOrder_eq_ok, hrecord]

section

variable (h : Builds config rows state)
include h

/-- The checks of the builder on the next row are that the rows are still
accepted, the encoder aside. -/
theorem Builds.checks (hrows : Accepted codec config rows) :
    (row.Encodable ∧ (∀ p ∈ state.previousKey, p < row.key) ∧
      state.currentBlockEntries + 1 ≤ maxTableBlockEntries ∧
      state.currentBlockDecodedLen + row.entryLen ≤ maxTableBlockDecodedBytes) ↔
    TableRows (rows ++ [row]) ∧
      ∀ group ∈ (rowGroups config.rowsPerBlock (rows ++ [row])).blocks, LegalGroup group := by
  have hgroups : (∀ group ∈ (rowGroups config.rowsPerBlock (rows ++ [row])).blocks,
      LegalGroup group) ↔ LegalGroup ((rowGroups config.rowsPerBlock rows).current ++ [row]) := by
    rw [rowGroups_append]
    constructor
    · intro hall
      exact hall _ ((Cut.mem_blocks_push _).mpr (.inr rfl))
    · intro hlegal group hgroup
      rcases (Cut.mem_blocks_push _).mp hgroup with hclosed | rfl
      · exact hrows.groups group (Cut.mem_blocks.mpr (.inl hclosed))
      · exact hlegal
  have hprevious : (∀ p ∈ state.previousKey, p < row.key) ↔ ∀ last ∈ rows.getLast?, last.key < row.key := by
    rw [h.previousKey_eq]
    cases rows.getLast? <;> simp
  rw [hgroups, tableRows_append hrows.tableRows, hprevious, h.entries_eq, h.decodedLen_eq, LegalGroup,
    length_append, length_singleton, dataBlockLen_append, and_assoc]

/-- One more row is accepted exactly when the longer list is. -/
theorem append_isOk (hrows : Accepted codec config rows) :
    (∃ state', state.append codec row = .ok state') ↔ Accepted codec config (rows ++ [row]) := by
  have hencoder : ∀ hrow : TableRows (rows ++ [row]), _ := fun hrow =>
    ImmutableTableStreamingEncoder.append_isOk h.encodes hrow hrows.cut
  simp only [append, bind_eq_ok, validateNextRow_eq_ok, mapError_eq_ok]
  constructor
  · rintro ⟨_, _, ⟨hrow, horder, hcount, rfl⟩, encoder, hok, -⟩
    rw [counted_encoder] at hok
    obtain ⟨htable, hgroups⟩ := (Builds.checks h hrows).mp ⟨hrow, horder, hcount⟩
    obtain ⟨hlen, hcut⟩ := (hencoder htable).mp ⟨encoder, hok⟩
    exact ⟨htable, by simpa using hlen, hgroups, hcut⟩
  · rintro ⟨htable, hlen, hgroups, hcut⟩
    obtain ⟨hrow, horder, hcount⟩ := (Builds.checks h hrows).mpr ⟨htable, hgroups⟩
    obtain ⟨encoder, hok⟩ := (hencoder htable).mpr ⟨by simpa using hlen, hcut⟩
    exact ⟨_, _, ⟨hrow, horder, hcount, rfl⟩, encoder, by rwa [counted_encoder], rfl⟩

/-- And the builder was then given that row too. -/
theorem Builds.append (hok : state.append codec row = .ok state') :
    Builds config (rows ++ [row]) state' ∧ state'.identity = state.identity := by
  simp only [StreamingBuilderState.append, bind_eq_ok, validateNextRow_eq_ok, mapError_eq_ok] at hok
  obtain ⟨_, ⟨-, -, -, rfl⟩, encoder, hencoder, hok⟩ := hok
  cases hok
  rw [counted_encoder] at hencoder
  have hpush := rowGroups_append config.rowsPerBlock rows row
  rw [Cut.push] at hpush
  have hcounter : (state.counted row).currentBlockEntries =
        (rowGroups config.rowsPerBlock (rows ++ [row])).current.length ∧
      (state.counted row).currentBlockDecodedLen =
        dataBlockLen (rowGroups config.rowsPerBlock (rows ++ [row])).current := by
    rw [hpush, counted, h.entries_eq, h.decodedLen_eq, h.config_eq]
    simp only [length_append, length_singleton, decide_eq_true_eq]
    split
    · exact ⟨rfl, rfl⟩
    · simp [dataBlockLen_append]
  refine ⟨⟨by simpa using h.config_eq, by simp [h.rows_eq],
    h.encodes.append hencoder, by simp, hcounter.1, hcounter.2⟩, by simp⟩

end

end Append

/-! ## The end of a table -/

section Finish

variable {codec : TableCodec} {config : TableBuilderConfig} {rows : List StorageRow}
  {state : StreamingBuilderState}
variable {blocks : List (List StorageRow)}

/-- The filter a configuration asks for is within the filter limit. -/
def FilterFits (config : TableBuilderConfig) (rowCount : Nat) : Prop :=
  ∀ bitsPerKey ∈ config.filterBitsPerKey, TableBloomFilter.filterBytes rowCount bitsPerKey ≤ maxBloomBytes

theorem buildFilter_isOk (hconfig : config.filterBitsPerKey ≠ some 0) (hne : rows ≠ []) :
    (∃ filter, buildFilter config rows = .ok filter) ↔ FilterFits config rows.length := by
  unfold buildFilter FilterFits
  cases hbits : config.filterBitsPerKey with
  | none => simp
  | some bits =>
    have hpos : bits ≠ 0 := fun h => hconfig (h ▸ hbits)
    have hkeys : rows.map (·.physicalKeyBytes) ≠ [] := by simpa using hne
    have hbuild := TableBloomFilter.build_isOk hpos hkeys
    rw [length_map] at hbuild
    simp only [Option.mem_def, Option.some.injEq, forall_eq', ← hbuild, map_eq_ok, buildFilterFrame, bind_eq_ok]
    constructor
    · rintro ⟨_, _, ⟨bloom, h, -⟩, -⟩
      exact ⟨bloom, h⟩
    · rintro ⟨bloom, h⟩
      exact ⟨_, _, ⟨bloom, h, rfl⟩, rfl⟩

/-- The format accepts every filter the builder makes. -/
theorem legalFilter_of_buildFilter (hne : rows ≠ []) {filter : Option TableFilterFrame}
    (h : buildFilter config rows = .ok filter) :
    ∀ f ∈ filter, ImmutableTableStreamingEncoder.LegalFilter f := by
  unfold buildFilter at h
  split at h
  · simp only [map_eq_ok, buildFilterFrame, bind_eq_ok] at h
    obtain ⟨_, ⟨bloom, hbloom, hframe⟩, rfl⟩ := h
    cases hframe
    have hkeys : rows.map (·.physicalKeyBytes) ≠ [] := by simpa using hne
    intro f hf
    cases hf
    exact TableBloomFilter.build_shape hkeys hbloom
  · cases h; simp

theorem length_le_length_flatten (h : ∀ block ∈ blocks, block ≠ []) : blocks.length ≤ blocks.flatten.length := by
  induction blocks with
  | nil => simp
  | cons block blocks ih =>
    have hblock := length_pos_iff.mpr (h block mem_cons_self)
    have := ih fun b hb => h b (mem_cons_of_mem _ hb)
    rw [flatten_cons, length_cons, length_append]
    omega

/-- The facts of an encoded table are accepted, and describe its rows. -/
theorem tableRuntimeFacts_describe (identity : TableIdentity)
    {output : ImmutableTableStreamingOutput} (hne : rows ≠ []) (hrows : TableRows rows)
    (hflatten : blocks.flatten = rows) (hblocks : ∀ block ∈ blocks, block ≠ [])
    (h : ImmutableTableStreamingEncoder.Describes rows blocks.length output) :
    ∃ facts, tableRuntimeFacts identity output = .ok facts ∧ facts.identity = identity ∧ facts.Describes rows := by
  obtain ⟨row, hrow, hmin⟩ := h.commitMin_mem
  have hkey : ∀ r : StorageRow, r.key ≠ [] := fun r hnil => r.key_length_ne_zero (by rw [hnil]; rfl)
  have hminKey : output.minKeyBytes = (rows.head hne).key := by
    have := h.minKey_eq
    rw [head?_eq_some_head hne] at this
    exact (Option.some.inj this).symm
  have hmaxKey : output.maxKeyBytes = (rows.getLast hne).key := by
    have := h.maxKey_eq
    rw [getLast?_eq_some_getLast hne] at this
    exact (Option.some.inj this).symm
  have h₁ : output.minKeyBytes ≠ [] := hminKey ▸ hkey _
  have h₂ : output.maxKeyBytes ≠ [] := hmaxKey ▸ hkey _
  have h₃ : output.minKeyBytes ≤ output.maxKeyBytes := by
    rw [hminKey, hmaxKey]; exact hrows.head_le_getLast hne
  have h₄ : output.commitMin ≤ output.commitMax := (h.commitMin_le row hrow).trans (h.le_commitMax row hrow)
  have h₅ : output.rowCount ≠ 0 := by rw [h.rowCount_eq]; simpa using hne
  have h₆ : output.dataBlockCount ≠ 0 := by
    rw [h.dataBlockCount_eq]
    intro hzero
    rw [length_eq_zero_iff] at hzero
    exact hne (by rw [← hflatten, hzero]; rfl)
  have h₇ : output.dataBlockCount ≤ output.rowCount := by
    rw [h.dataBlockCount_eq, h.rowCount_eq, ← hflatten]
    exact length_le_length_flatten hblocks
  have h₈ : output.bytes.length ≠ 0 := by simpa using h.bytes_ne_nil
  refine ⟨⟨identity, output.rowCount, output.dataBlockCount, output.minKeyBytes, output.maxKeyBytes,
    output.commitMin, output.commitMax, output.bytes.length⟩, ?_, rfl, ?_⟩
  · simp [tableRuntimeFacts, require, h₁, h₂, h₃, h₄, h₅, h₆, h₇, h₈]
  · exact ⟨h.rowCount_eq, h.minKey_eq, h.maxKey_eq, h.commitMin_mem, h.commitMin_le, h.commitMax_mem,
      h.le_commitMax⟩

/-- The lists of rows of which a table is made. -/
structure Buildable (codec : TableCodec) (config : TableBuilderConfig) (rows : List StorageRow) :
    Prop where
  ne_nil : rows ≠ []
  tableRows : TableRows rows
  count_le : rows.length ≤ maxTableRows
  groups : ∀ group ∈ (rowGroups config.rowsPerBlock rows).blocks, LegalGroup group
  cut : LegalCut codec config.compression
    (cutBlocks config.targetDataBlockSize config.rowsPerBlock rows)
  filter : FilterFits config rows.length
  index_le : indexBlockLen ((cutBlocks config.targetDataBlockSize config.rowsPerBlock rows).map
    indexEntry) ≤ maxTableBlockDecodedBytes

theorem Buildable.accepted (h : Buildable codec config rows) : Accepted codec config rows := by
  refine ⟨h.tableRows, h.count_le, h.groups, ?_⟩
  have hcut := h.cut
  unfold cutBlocks Cut.blocks at hcut
  split at hcut
  · exact hcut
  · exact (legalCut_append.mp hcut).1

/-- A table is completed exactly when it has a row, its last block, its filter
and its index are within the limits. -/
theorem finish_isOk (hconfig : config.validate = .ok ()) (h : Builds config rows state)
    (hrows : Accepted codec config rows) :
    (∃ output, state.finish codec = .ok output) ↔ Buildable codec config rows := by
  obtain ⟨htarget, -, hbits⟩ := TableBuilderConfig.validate_eq_ok.mp hconfig
  have hsome : state.previousKey.isSome = true ↔ rows ≠ [] := by
    rw [h.previousKey_eq, Option.isSome_map, getLast?_isSome]
  simp only [finish, bind_eq_ok, require_eq_ok, mapError_eq_ok, hsome, h.config_eq, h.rows_eq]
  constructor
  · rintro ⟨_, -, hne, filter, hfilter, output, houtput, -⟩
    obtain ⟨hcut, -, hindex⟩ := (ImmutableTableStreamingEncoder.finish_isOk h.encodes hrows.tableRows
      hrows.cut htarget hne hrows.count_le).mp ⟨output, houtput⟩
    exact ⟨hne, hrows.tableRows, hrows.count_le, hrows.groups, hcut,
      (buildFilter_isOk hbits hne).mp ⟨filter, hfilter⟩, hindex⟩
  · intro hbuild
    have hne := hbuild.ne_nil
    obtain ⟨filter, hfilter⟩ := (buildFilter_isOk hbits hne).mpr hbuild.filter
    obtain ⟨output, houtput⟩ := (ImmutableTableStreamingEncoder.finish_isOk h.encodes hrows.tableRows
      hrows.cut htarget hne hrows.count_le).mpr
        ⟨hbuild.cut, legalFilter_of_buildFilter hne hfilter, hbuild.index_le⟩
    obtain ⟨facts, hfacts, -⟩ := tableRuntimeFacts_describe state.identity hne
      hrows.tableRows (Cut.flatten_blocks_ofList _ rows) (Cut.blocks_ne_nil _ rows)
      (finish_describes h.encodes hrows.tableRows hrows.cut htarget hne
        hrows.count_le houtput)
    exact ⟨_, (), hne, filter, hfilter, output, houtput, facts, hfacts, rfl⟩

/-- The facts of a completed table describe its rows. -/
theorem finish_describe (hconfig : config.validate = .ok ()) (h : Builds config rows state)
    (hrows : Accepted codec config rows) {bytes : Bytes} {facts : TableRuntimeFacts}
    (hok : state.finish codec = .ok (bytes, facts)) :
    facts.Describes rows ∧ facts.identity = state.identity := by
  obtain ⟨htarget, -, -⟩ := TableBuilderConfig.validate_eq_ok.mp hconfig
  have hne := ((finish_isOk hconfig h hrows).mp ⟨_, hok⟩).ne_nil
  simp only [finish, bind_eq_ok, mapError_eq_ok] at hok
  obtain ⟨-, -, filter, -, output, houtput, facts', hfacts', hok⟩ := hok
  cases hok
  obtain ⟨facts'', hfacts'', hidentity, hdescribe⟩ := tableRuntimeFacts_describe
    state.identity hne hrows.tableRows (Cut.flatten_blocks_ofList _ rows)
    (Cut.blocks_ne_nil _ rows) (finish_describes h.encodes
      hrows.tableRows hrows.cut htarget hne hrows.count_le houtput)
  rw [hfacts'] at hfacts''
  cases hfacts''
  exact ⟨hdescribe, hidentity⟩

end Finish

end StreamingBuilderState

/-! ## Tables -/

/-- `ImmutableTableStreamingBuilder`: a builder and the rows it has accepted. -/
structure ImmutableTableStreamingBuilder (codec : TableCodec) where
  state : StreamingBuilderState
  config_valid : state.config.validate = .ok ()
  builds : Builds state.config state.materializedRows state
  accepted : Accepted codec state.config state.materializedRows

structure ImmutableTableBuilder where
  config : TableBuilderConfig
  config_valid : config.validate = .ok ()

def ImmutableTableBuilder.new (config : TableBuilderConfig) : Except TableRuntimeError ImmutableTableBuilder :=
  match h : config.validate with
  | .error e => .error e
  | .ok () => .ok ⟨config, h⟩

theorem accepted_nil (codec : TableCodec) (config : TableBuilderConfig) : Accepted codec config [] := by
  refine ⟨⟨List.Pairwise.nil, by simp⟩, by simp, ?_, ⟨by simp [cutRows, Cut.ofList], ?_⟩⟩
  · simp [rowGroups, Cut.ofList, Cut.blocks]
  · simp [cutRows, Cut.ofList]

namespace ImmutableTableStreamingBuilder

variable {codec : TableCodec}
variable {builder' : ImmutableTableStreamingBuilder codec} {row : StorageRow}
variable {builder : ImmutableTableStreamingBuilder codec}

def append (builder : ImmutableTableStreamingBuilder codec) (row : StorageRow) :
    Except TableRuntimeError (ImmutableTableStreamingBuilder codec) :=
  match h : builder.state.append codec row with
  | .error e => .error e
  | .ok state =>
    have hbuilds := (StreamingBuilderState.Builds.append builder.builds h).1
    have haccepted := (StreamingBuilderState.append_isOk builder.builds builder.accepted).mp ⟨state, h⟩
    .ok ⟨state, hbuilds.config_eq ▸ builder.config_valid,
      by rw [hbuilds.config_eq, hbuilds.rows_eq]; exact hbuilds,
      by rw [hbuilds.config_eq, hbuilds.rows_eq]; exact haccepted⟩

def finish (builder : ImmutableTableStreamingBuilder codec) : Except TableRuntimeError BuiltTableArtifact :=
  match h : builder.state.finish codec with
  | .error e => .error e
  | .ok (bytes, facts) =>
    .ok ⟨bytes, facts, builder.state.materializedRows, builder.accepted.tableRows.sorted,
      (StreamingBuilderState.finish_describe builder.config_valid builder.builds builder.accepted h).1⟩

theorem append_eq_ok :
    builder.append row = .ok builder' ↔ builder.state.append codec row = .ok builder'.state := by
  unfold append
  split
  · rename_i h
    simp [h]
  · rename_i state h
    constructor
    · intro heq
      cases heq
      exact h
    · intro heq
      obtain rfl : state = builder'.state := ok.inj (h.symm.trans heq)
      rfl

theorem finish_isOk (builder : ImmutableTableStreamingBuilder codec) :
    (∃ artifact, builder.finish = .ok artifact) ↔
      StreamingBuilderState.Buildable codec builder.state.config builder.state.materializedRows := by
  rw [← StreamingBuilderState.finish_isOk builder.config_valid builder.builds builder.accepted]
  unfold finish
  split <;> rename_i h <;> simp [h]

theorem finish_eq_ok (h : builder.finish = .ok artifact) : artifact.rows = builder.state.materializedRows ∧
      artifact.facts.identity = builder.state.identity := by
  unfold finish at h
  split at h
  · cases h
  · rename_i hok
    cases h
    exact ⟨rfl, (StreamingBuilderState.finish_describe builder.config_valid builder.builds builder.accepted hok).2⟩

/-- One more row is accepted exactly when the longer list is. -/
theorem append_isOk : (∃ builder', builder.append row = .ok builder') ↔
      Accepted codec builder.state.config (builder.state.materializedRows ++ [row]) := by
  rw [← StreamingBuilderState.append_isOk builder.builds builder.accepted]
  unfold append
  split <;> rename_i h <;> simp [h]

/-- What one more row changes. -/
theorem append_rows (h : builder.append row = .ok builder') :
    builder'.state.materializedRows = builder.state.materializedRows ++ [row] ∧
      builder'.state.config = builder.state.config ∧ builder'.state.identity = builder.state.identity := by
  obtain ⟨hbuilds, hidentity⟩ := StreamingBuilderState.Builds.append builder.builds (append_eq_ok.mp h)
  exact ⟨hbuilds.rows_eq, hbuilds.config_eq, hidentity⟩

end ImmutableTableStreamingBuilder

namespace ImmutableTableBuilder

variable (codec : TableCodec)
variable {builder : ImmutableTableBuilder}

def beginStreaming (builder : ImmutableTableBuilder) (identity : TableIdentity) :
    Except TableRuntimeError (ImmutableTableStreamingBuilder codec) :=
  match h : StreamingBuilderState.new identity builder.config with
  | .error e => .error e
  | .ok state =>
    have hbuilds := (StreamingBuilderState.builds_new h).1
    .ok ⟨state, hbuilds.config_eq ▸ builder.config_valid,
      by rw [hbuilds.config_eq, hbuilds.rows_eq]; exact hbuilds,
      by rw [hbuilds.config_eq, hbuilds.rows_eq]; exact accepted_nil codec builder.config⟩

def buildFromRows (builder : ImmutableTableBuilder) (identity : TableIdentity)
    (rows : List StorageRow) : Except TableRuntimeError BuiltTableArtifact := do
  let streaming ← builder.beginStreaming codec identity
  let streaming ← rows.foldlM (·.append ·) streaming
  streaming.finish

theorem beginStreaming_isOk (builder : ImmutableTableBuilder) (identity : TableIdentity) :
    ∃ streaming, builder.beginStreaming codec identity = .ok streaming ∧ streaming.state.materializedRows =
      [] ∧ streaming.state.config = builder.config ∧ streaming.state.identity = identity := by
  obtain ⟨htarget, hrows, -⟩ := TableBuilderConfig.validate_eq_ok.mp builder.config_valid
  have hnew : ∃ state, StreamingBuilderState.new identity builder.config = .ok state := by
    simp [StreamingBuilderState.new, builder.config_valid, ImmutableTableStreamingEncoder.new,
      Except.require, htarget, hrows, Except.mapError]
  obtain ⟨state, hstate⟩ := hnew
  unfold beginStreaming
  split
  · rename_i h
    rw [hstate] at h
    cases h
  · rename_i h
    obtain ⟨hbuilds, hidentity⟩ := StreamingBuilderState.builds_new h
    exact ⟨_, rfl, hbuilds.rows_eq, hbuilds.config_eq, hidentity⟩

variable {codec} {rows : List StorageRow}

/-- Appending rows one by one succeeds exactly when the rows are accepted. -/
theorem foldlM_append_isOk {streaming : ImmutableTableStreamingBuilder codec}
    (hrows : streaming.state.materializedRows = [])
    (hconfig : streaming.state.config = builder.config) (rows : List StorageRow) :
    ((∃ streaming', rows.foldlM (·.append ·) streaming = .ok streaming') ↔ Accepted codec builder.config rows) ∧
      ∀ streaming', rows.foldlM (·.append ·) streaming = .ok streaming' →
        streaming'.state.materializedRows = rows ∧ streaming'.state.config = builder.config ∧
          streaming'.state.identity = streaming.state.identity := by
  refine foldlM_isOk (R := fun rows (streaming' : ImmutableTableStreamingBuilder codec) =>
      streaming'.state.materializedRows = rows ∧ streaming'.state.config = builder.config ∧
        streaming'.state.identity = streaming.state.identity)
    ⟨hrows, hconfig, rfl⟩ (accepted_nil codec builder.config) ?_ ?_ ?_ rows
  · intro rows row h
    refine ⟨h.tableRows.sublist (sublist_append_left _ _), ?_, legalGroups_of_append h.groups, ?_⟩
    · have := h.count_le
      rw [length_append] at this
      omega
    · have hcut := h.cut
      rw [cutRows_append, Cut.push] at hcut
      split at hcut
      · exact (legalCut_append.mp hcut).1
      · exact hcut
  · rintro rows streaming' row - ⟨hrows, hconfig, -⟩
    rw [ImmutableTableStreamingBuilder.append_isOk, hrows, hconfig]
  · rintro rows streaming' row streaming'' - ⟨hrows, hconfig, hidentity⟩ hok
    obtain ⟨h₁, h₂, h₃⟩ := ImmutableTableStreamingBuilder.append_rows hok
    exact ⟨by rw [h₁, hrows], h₂.trans hconfig, h₃.trans hidentity⟩

/-- The lists of rows of which the builder makes a table. -/
theorem buildFromRows_isOk {identity : TableIdentity} :
    (∃ artifact, builder.buildFromRows codec identity rows = .ok artifact) ↔
      StreamingBuilderState.Buildable codec builder.config rows := by
  obtain ⟨streaming, hbegin, hrows, hconfig, -⟩ := builder.beginStreaming_isOk codec identity
  obtain ⟨hok, hrun⟩ := foldlM_append_isOk hrows hconfig rows
  simp only [buildFromRows, hbegin, ok_bind, bind_eq_ok]
  constructor
  · rintro ⟨artifact, streaming', hfold, hfinish⟩
    obtain ⟨h₁, h₂, -⟩ := hrun streaming' hfold
    have := streaming'.finish_isOk.mp ⟨artifact, hfinish⟩
    rwa [h₁, h₂] at this
  · intro h
    obtain ⟨streaming', hfold⟩ := hok.mpr h.accepted
    obtain ⟨h₁, h₂, -⟩ := hrun streaming' hfold
    obtain ⟨artifact, hfinish⟩ := streaming'.finish_isOk.mpr (by rwa [h₁, h₂])
    exact ⟨artifact, streaming', hfold, hfinish⟩

/-- A built table holds the rows it was built from. -/
theorem buildFromRows_eq_ok {identity : TableIdentity} (h : builder.buildFromRows codec identity rows = .ok artifact) :
    artifact.rows = rows ∧ artifact.facts.identity = identity := by
  obtain ⟨streaming, hbegin, hrows, hconfig, hidentity⟩ := builder.beginStreaming_isOk codec identity
  simp only [buildFromRows, hbegin, ok_bind, bind_eq_ok] at h
  obtain ⟨streaming', hfold, hfinish⟩ := h
  obtain ⟨h₁, -, h₃⟩ := (foldlM_append_isOk hrows hconfig rows).2 streaming' hfold
  obtain ⟨h₄, h₅⟩ := ImmutableTableStreamingBuilder.finish_eq_ok hfinish
  exact ⟨h₄.trans h₁, h₅.trans (h₃.trans hidentity)⟩

/-- The rows a commit can write: the log keeps a row within 16 MiB. -/
def walRowLimit : Nat := 16 * 1024 * 1024

/-- Of rows in strictly ascending key order, within the row limits and with
room for their blocks and their index, a table is built exactly when every
aligned group of `rows_per_block` rows fits a data block, every block the
encoder cuts is legal and the filter fits. The groups are not the blocks: the
encoder cuts at the byte target too. -/
theorem buildFromRows_iff_legal (builder : ImmutableTableBuilder) (identity : TableIdentity)
    (rows : List StorageRow) (hne : rows ≠ []) (hsorted : SortedRows rows)
    (hkeys : ∀ row ∈ rows, row.key.length ≤ maxTableKeyBytes)
    (hrows : ∀ row ∈ rows, row.encodedLen ≤ walRowLimit) (hcount : rows.length ≤ maxTableRows)
    (hblocks : (cutBlocks builder.config.targetDataBlockSize builder.config.rowsPerBlock rows).length ≤
      maxTableDataBlocks)
    (hindex : indexBlockLen ((cutBlocks builder.config.targetDataBlockSize
      builder.config.rowsPerBlock rows).map indexEntry) ≤ maxTableBlockDecodedBytes) :
    (∃ artifact, builder.buildFromRows codec identity rows = .ok artifact) ↔
      (∀ group ∈ (rowGroups builder.config.rowsPerBlock rows).blocks, LegalGroup group) ∧
      (∀ block ∈ cutBlocks builder.config.targetDataBlockSize builder.config.rowsPerBlock rows,
        LegalBlock codec builder.config.compression block) ∧
      StreamingBuilderState.FilterFits builder.config rows.length := by
  rw [buildFromRows_isOk]
  constructor
  · intro h
    exact ⟨h.groups, h.cut.legal, h.filter⟩
  · rintro ⟨hgroups, hlegal, hfilter⟩
    have hencodable : ∀ row ∈ rows, row.Encodable := fun row hrow =>
      ⟨hkeys row hrow, (hrows row hrow).trans (by decide)⟩
    exact ⟨hne, ⟨hsorted, hencodable⟩, hcount, hgroups, ⟨hblocks, hlegal⟩, hfilter, hindex⟩

end ImmutableTableBuilder

/-! ## Rows larger than the byte target -/

/-- Rows that each reach the byte target are each a block. -/
theorem cutRows_of_large {target rowsPerBlock : Nat} (h : ∀ row ∈ rows, target ≤ row.sizeEstimate) :
    cutRows target rowsPerBlock rows = ⟨rows.map ([·]), []⟩ := by
  induction rows using reverseRecOn with
  | nil => rfl
  | append_singleton rows row ih =>
    have hrow := h row (by simp)
    have hfull : blockFull target rowsPerBlock [row] = true := by
      simp [blockFull, blockEstimate, hrow]
    rw [cutRows_append, ih fun r hr => h r (mem_append_left _ hr), Cut.push]
    simp [hfull]

namespace Sample

def codec : TableCodec := ⟨Crc32.checksum, fun _ => none⟩

def identity : TableIdentity := ⟨"t", by decide⟩

/-- A builder with the default configuration. -/
def builder : ImmutableTableBuilder := ⟨.default, rfl⟩

@[irreducible] def largeValue : Bytes := List.replicate (15 * 1024 * 1024) 0

/-- A put of `key` with a value of 15 MiB. -/
def largePut (version : CommitVersion) : StorageRow := .put key version 1 Timestamp.epoch largeValue

/-- Five versions of `key`, newest first. -/
def largeRows : List StorageRow := [5, 4, 3, 2, 1].map largePut

variable (version : CommitVersion)

theorem length_physicalKeyBytes : (largePut version).physicalKeyBytes.length = 22 := by
  show (encodePhysicalKey key).length = 22
  decide

theorem length_value : (largePut version).value.length = 15 * 1024 * 1024 := by
  show largeValue.length = 15 * 1024 * 1024
  rw [largeValue, length_replicate]

theorem encodedLen_largePut : (largePut version).encodedLen = 15728700 := by
  simp only [StorageRow.encodedLen, length_physicalKeyBytes, length_value]

theorem entryLen_largePut : (largePut version).entryLen = 15728738 := by
  simp only [StorageRow.entryLen, encodedLen_largePut, StorageRow.length_key,
    length_physicalKeyBytes, internalKeySuffixLen]

theorem sortedRows_largeRows : SortedRows largeRows := by
  have hlt : ∀ v w : CommitVersion, w < v → (largePut v).key < (largePut w).key := fun v w h =>
    StorageRow.key_lt_key.mpr (.inr ⟨rfl, h⟩)
  rw [SortedRows, largeRows, pairwise_map]
  refine List.Pairwise.imp (fun {v w} => hlt v w) ?_
  decide

/-- The encoder makes each of the rows a block. -/
theorem cutBlocks_largeRows : cutBlocks builder.config.targetDataBlockSize builder.config.rowsPerBlock largeRows =
      largeRows.map ([·]) := by
  rw [cutBlocks, cutRows_of_large]
  · rfl
  · intro row hrow
    obtain ⟨version, -, rfl⟩ := mem_map.mp hrow
    show 16 * 1024 ≤ streamingEntrySizeEstimate (largePut version).key.length (largePut version).value.length
    rw [streamingEntrySizeEstimate, length_value]
    omega

theorem dataBlockLen_largePut (versions : List CommitVersion) :
    dataBlockLen (versions.map largePut) = 4 + versions.length * 15728738 := by
  rw [dataBlockLen_eq_length_mul (forall_mem_map.mpr fun version _ => entryLen_largePut version), length_map]

theorem rowGroups_largeRows : rowGroups builder.config.rowsPerBlock largeRows = ⟨[], largeRows⟩ := by
  simp [rowGroups, Cut.ofList, largeRows, Cut.push, builder, TableBuilderConfig.default]

/-- Five rows that the encoder would place in five legal blocks, and that the
builder's counter of one block of 256 rows refuses. -/
theorem buildFromRows_largeRows : (largeRows ≠ [] ∧ SortedRows largeRows ∧
      (∀ row ∈ largeRows, row.key.length ≤ maxTableKeyBytes) ∧ (∀ row ∈ largeRows,
      row.encodedLen ≤ ImmutableTableBuilder.walRowLimit) ∧ largeRows.length ≤ maxTableRows) ∧
    (∀ block ∈ cutBlocks builder.config.targetDataBlockSize builder.config.rowsPerBlock largeRows,
      LegalBlock codec builder.config.compression block) ∧
    (cutBlocks builder.config.targetDataBlockSize builder.config.rowsPerBlock largeRows).length ≤
      maxTableDataBlocks ∧
    indexBlockLen ((cutBlocks builder.config.targetDataBlockSize builder.config.rowsPerBlock
      largeRows).map indexEntry) ≤ maxTableBlockDecodedBytes ∧
    ¬ ∃ artifact, builder.buildFromRows codec identity largeRows = .ok artifact := by
  rw [cutBlocks_largeRows]
  have hlength : largeRows.length = 5 := rfl
  refine ⟨⟨nofun, sortedRows_largeRows, ?_, ?_, by rw [hlength]; decide⟩, ?_,
    by rw [List.length_map, hlength]; decide, ?_, ?_⟩
  · intro row hrow
    obtain ⟨version, -, rfl⟩ := List.mem_map.mp hrow
    rw [StorageRow.length_key, length_physicalKeyBytes]
    decide
  · intro row hrow
    obtain ⟨version, -, rfl⟩ := List.mem_map.mp hrow
    rw [encodedLen_largePut]
    decide
  · intro block hblock
    obtain ⟨row, hrow, rfl⟩ := List.mem_map.mp hblock
    obtain ⟨version, -, rfl⟩ := List.mem_map.mp hrow
    refine ⟨(by decide : 1 ≤ maxTableBlockEntries), ?_, nofun⟩
    show dataBlockLen ([version].map largePut) ≤ maxTableBlockDecodedBytes
    rw [dataBlockLen_largePut, List.length_singleton]
    decide
  · simp [largeRows, indexEntry, indexBlockLen, length_physicalKeyBytes, internalKeySuffixLen,
      maxTableBlockDecodedBytes]
  · rw [ImmutableTableBuilder.buildFromRows_isOk]
    intro h
    have hgroup := h.groups largeRows (by
      rw [rowGroups_largeRows]
      simp [Cut.blocks, largeRows])
    have hbytes := hgroup.2
    rw [largeRows, dataBlockLen_largePut] at hbytes
    exact absurd hbytes (by decide)

/-- Blocks of two rows, with a filter. -/
def pairBuilder : ImmutableTableBuilder := ⟨⟨1024, 2, .uncompressed, some 10⟩, rfl⟩

/-- Five versions of `key`, newest first, the oldest a tombstone. -/
def smallRows : List StorageRow := [put 5 50, put 4 40, put 3 30, put 2 20, .tombstone key 1 10]

/-- Five small rows make a table of three blocks. -/
theorem buildFromRows_smallRows :
    (cutBlocks pairBuilder.config.targetDataBlockSize pairBuilder.config.rowsPerBlock smallRows).length = 3 ∧
      ∃ artifact, pairBuilder.buildFromRows codec identity smallRows = .ok artifact := by
  have hcut : cutBlocks pairBuilder.config.targetDataBlockSize pairBuilder.config.rowsPerBlock smallRows =
      [[put 5 50, put 4 40], [put 3 30, put 2 20], [.tombstone key 1 10]] := by decide +kernel
  refine ⟨by rw [hcut]; rfl, ?_⟩
  refine (pairBuilder.buildFromRows_iff_legal identity smallRows (by decide) (by decide) (by decide)
    (by decide) (by decide) (by rw [hcut]; decide) (by rw [hcut]; decide)).mpr ⟨by decide, ?_, ?_⟩
  · rw [hcut]
    simp only [forall_mem_cons, not_mem_nil, false_imp_iff, implies_true, and_true]
    exact ⟨⟨by decide, by decide, nofun⟩, ⟨by decide, by decide, nofun⟩, ⟨by decide, by decide, nofun⟩⟩
  · intro bitsPerKey hbits
    cases hbits
    decide

end Sample

end Strata
