import StrataStorage.Format.Table.Blocks
import StrataStorage.Lib.Search
import StrataStorage.Table.Bloom

/-!
# Immutable table readers

`table/reader.rs` and the block seeks of `format/table/data.rs`, over tables
whose bytes have been decoded into data blocks of rows. A reader is eager (one
slice of rows) or lazy (it opens data blocks through the index, and walks a
block from a bisected entry when the cache already holds the block). Both carry
what the writer established: the rows are sorted, the facts describe them, and
the filter, if there is one, reports none of them absent (`openBytes_built`).

* `seekTableDataBlockPoint_spec`, `seekTableDataBlockPointIndexed_spec`: the
  two block seeks agree with a search of the block;
* `ImmutableTableReader.seekPreparedPoint_eq`: in either mode a point seek
  finds the first row of the key within the lookup's bound.
-/

namespace Strata

open TablePreparedPointLookup StorageRow Except List Option

/-- `validate_identity_text`: an opaque single component. -/
def validateIdentityText (text : String) : Except TableRuntimeError Unit :=
  if utf8Bytes text = [] then .error (.invalidConfig "table_identity" "must not be empty")
  else if 0x2F ∈ utf8Bytes text ∨ 0x00 ∈ utf8Bytes text then
    .error (.invalidConfig "table_identity" "must be an opaque single component")
  else .ok ()

structure TableIdentity where
  text : String
  text_valid : validateIdentityText text = .ok ()
  deriving DecidableEq

/-- `TableRuntimeFacts`, its key range and commit range included. -/
structure TableRuntimeFacts where
  identity : TableIdentity
  rowCount : Nat
  dataBlockCount : Nat
  firstKey : Bytes
  lastKey : Bytes
  commitMin : CommitVersion
  commitMax : CommitVersion
  byteCount : Nat
  deriving DecidableEq

/-- The facts recorded for a table are those of its rows. -/
structure TableRuntimeFacts.Describes (facts : TableRuntimeFacts) (rows : List StorageRow) :
    Prop where
  rowCount_eq : facts.rowCount = rows.length
  firstKey_eq : rows.head?.map (·.key) = some facts.firstKey
  lastKey_eq : rows.getLast?.map (·.key) = some facts.lastKey
  commitMin_mem : ∃ row ∈ rows, row.commitVersion = facts.commitMin
  commitMin_le : ∀ row ∈ rows, facts.commitMin ≤ row.commitVersion
  commitMax_mem : ∃ row ∈ rows, row.commitVersion = facts.commitMax
  le_commitMax : ∀ row ∈ rows, row.commitVersion ≤ facts.commitMax

/-- How a reader holds its rows. A lazy reader takes a block through the
trusted, indexed path when the block cache holds its frame. -/
inductive TableReaderRows where
  | eager
  | lazy (cached : Nat → Bool)

/-- A reader over the data blocks of one table. -/
structure ImmutableTableReader where
  facts : TableRuntimeFacts
  blocks : List (List StorageRow)
  mode : TableReaderRows
  filter : Option TableBloomFilter
  blocks_ne_nil : ∀ block ∈ blocks, block ≠ []
  rows_sorted : SortedRows blocks.flatten
  facts_describe : facts.Describes blocks.flatten
  filter_sound : ∀ f ∈ filter, ∀ row ∈ blocks.flatten, f.mightContain row.physicalKeyBytes ≠ .definitelyAbsent

/-- The rows of the table, in key order. -/
def ImmutableTableReader.rows (reader : ImmutableTableReader) : List StorageRow :=
  reader.blocks.flatten

/-! ## Seeks in a slice of rows -/

/-- The index `slice::binary_search_by` returns, `Ok` or `Err`, in strictly
sorted rows: the number of rows before the target. -/
def binarySearchRows (rows : List StorageRow) (target : Bytes) : Nat :=
  (rows.takeWhile (·.key < target)).length

def probePhysicalFilter (filter : Option TableBloomFilter) (key : Bytes) : TableBloomProbe :=
  filter.elim .unavailable (·.mightContain key)

def seekPreparedPointInSlice (rows : List StorageRow) (lookup : TablePreparedPointLookup)
    (filter : Option TableBloomFilter) : Option StorageRow :=
  match probePhysicalFilter filter lookup.physicalKey with
  | .definitelyAbsent => none
  | .maybePresent | .unavailable =>
    let start := binarySearchRows rows lookup.seekKey
    if start < rows.length then seekWalk id (fun _ => true) lookup (rows.drop start) else none

/-! ## Seeks in a data block -/

structure TableDataBlockPointSeek where
  row : Option StorageRow
  continueToNextBlock : Bool

/-- The loop variables of the block seek. -/
structure BlockSeekState where
  scanStarted : Bool
  sawTargetAtBlockTail : Bool
  terminalReached : Bool
  row : Option StorageRow

/-- One entry of the block, in `seek_table_data_block_point`. -/
def blockSeekStep (lookup : TablePreparedPointLookup) (state : BlockSeekState)
    (entry : StorageRow) : BlockSeekState :=
  if state.terminalReached || state.row.isSome then state
  else if !state.scanStarted && decide (entry.key < lookup.seekKey) then state
  else
    let physical := tableInternalPhysicalKeyBytes entry.key
    if physical < lookup.physicalKey then
      { state with scanStarted := true, sawTargetAtBlockTail := false }
    else if lookup.physicalKey < physical then
      { state with scanStarted := true, sawTargetAtBlockTail := false, terminalReached := true }
    else if lookup.maxCommitVersion.any (· < entry.commitVersion) then
      { state with scanStarted := true, sawTargetAtBlockTail := true }
    else if lookup.maxCommitTimestamp.all (entry.commitTimestamp ≤ ·) then
      { state with scanStarted := true, sawTargetAtBlockTail := true, row := some entry }
    else { state with scanStarted := true, sawTargetAtBlockTail := true }

/-- The walk over entries, and what it reports. -/
def blockSeekWalk (lookup : TablePreparedPointLookup) (scanStarted : Bool)
    (entries : List StorageRow) : TableDataBlockPointSeek :=
  let state := entries.foldl (blockSeekStep lookup) ⟨scanStarted, false, false, none⟩
  ⟨state.row, state.sawTargetAtBlockTail && !state.terminalReached⟩

/-- `seek_table_data_block_point`: the checked, linear seek. -/
def seekTableDataBlockPoint (lookup : TablePreparedPointLookup) (block : List StorageRow) :
    TableDataBlockPointSeek := blockSeekWalk lookup false block

/-- `seek_table_data_block_point_indexed`: bisect for the first entry at or
after the seek key and walk from there. -/
def seekTableDataBlockPointIndexed (lookup : TablePreparedPointLookup)
    (block : List StorageRow) : Except FormatError TableDataBlockPointSeek := do
  let low ← bisectLower (fun mid => (block[mid]?.map fun entry => decide (entry.key < lookup.seekKey)).okOr
      (.invalidLength "entry_offsets")) block.length 0 block.length
  .ok (blockSeekWalk lookup true (block.drop low))

/-- `LazyTableState::seek_data_block_point`: a frame from the cache is trusted
and taken through the indexed path. -/
def seekDataBlockPoint (lookup : TablePreparedPointLookup) (cached : Bool)
    (block : List StorageRow) : Except TableRuntimeError TableDataBlockPointSeek :=
  if cached then (seekTableDataBlockPointIndexed lookup block).mapError .decodeFormat
  else .ok (seekTableDataBlockPoint lookup block)

/-! ## Lazy seeks -/

inductive PhysicalRangeOrdering where
  | before
  | mayContain
  | after
  deriving DecidableEq

def compareIndexEntryPhysicalRange (entry : TableIndexEntry) (targetPhysicalKey : Bytes) :
    PhysicalRangeOrdering :=
  if tableInternalPhysicalKeyBytes entry.lastKey < targetPhysicalKey then .before
  else if targetPhysicalKey < tableInternalPhysicalKeyBytes entry.firstKey then .after
  else .mayContain

def firstCandidateBlockForKey (entries : List TableIndexEntry) (key : Bytes) : Option Nat :=
  let index := (entries.takeWhile (·.lastKey < key)).length
  if index < entries.length then some index else none

/-- The block loop of `LazyTableState::seek_prepared_point`, from block
`blockIndex` on. -/
def lazySeekBlocks (lookup : TablePreparedPointLookup) (cached : Nat → Bool) :
    Nat → List (List StorageRow) → Except TableRuntimeError (Option StorageRow)
  | _, [] => .ok none
  | blockIndex, block :: blocks =>
    match compareIndexEntryPhysicalRange (indexEntry block) lookup.physicalKey with
    | .before => lazySeekBlocks lookup cached (blockIndex + 1) blocks
    | .after => .ok none
    | .mayContain => do
      let seek ← seekDataBlockPoint lookup (cached blockIndex) block
      match seek.row with
      | some row => .ok (some row)
      | none =>
        if !seek.continueToNextBlock then .ok none
        else lazySeekBlocks lookup cached (blockIndex + 1) blocks

namespace ImmutableTableReader

def containsPhysicalKey (reader : ImmutableTableReader) (physicalKey : Bytes) : Bool :=
  decide (tableInternalPhysicalKeyBytes reader.facts.firstKey ≤ physicalKey) &&
    decide (physicalKey ≤ tableInternalPhysicalKeyBytes reader.facts.lastKey)

/-- `LazyTableState::seek_prepared_point`. -/
def lazySeekPreparedPoint (reader : ImmutableTableReader) (cached : Nat → Bool)
    (lookup : TablePreparedPointLookup) : Except TableRuntimeError (Option StorageRow) :=
  if !reader.containsPhysicalKey lookup.physicalKey then .ok none
  else if probePhysicalFilter reader.filter lookup.physicalKey = .definitelyAbsent then .ok none
  else match firstCandidateBlockForKey (reader.blocks.map indexEntry) lookup.seekKey with
    | none => .ok none
    | some blockIndex =>
      lazySeekBlocks lookup cached blockIndex (reader.blocks.drop blockIndex)

/-- `try_seek_prepared_point_candidate`. -/
def seekPreparedPoint (reader : ImmutableTableReader) (lookup : TablePreparedPointLookup) :
    Except TableRuntimeError (Option StorageRow) :=
  match reader.mode with
  | .eager => .ok (seekPreparedPointInSlice reader.rows lookup reader.filter)
  | .lazy cached => reader.lazySeekPreparedPoint cached lookup

end ImmutableTableReader

/-! ## Correctness of the seeks -/

section Seek

variable {key : PhysicalKey} {maxVersion : Option CommitVersion} {maxTimestamp : Option Timestamp}
variable {state : BlockSeekState} {block rows : List StorageRow} {entries : List StorageRow}

/-- What one step does on an entry it does not pass over. -/
theorem blockSeekStep_eq {entry : StorageRow} (hterminal : state.terminalReached = false)
    (hrow : state.row = none) (hscan : state.scanStarted = true ∨
      ¬ entry.key < (new key maxVersion maxTimestamp).seekKey) :
    blockSeekStep (.new key maxVersion maxTimestamp) state entry =
      { scanStarted := true
        sawTargetAtBlockTail := decide (entry.physicalKeyBytes = encodePhysicalKey key)
        terminalReached := decide (encodePhysicalKey key < entry.physicalKeyBytes)
        row := if Satisfies key maxVersion maxTimestamp entry then some entry else none } := by
  have hskip : (!state.scanStarted &&
      decide (entry.key < (new key maxVersion maxTimestamp).seekKey)) =
        false := by
    rcases hscan with h | h <;> simp [h]
  unfold blockSeekStep
  simp only [hterminal, hrow, isSome_none, Bool.or_self, Bool.false_eq_true, ↓reduceIte, hskip,
    tableInternalPhysicalKeyBytes_key, new_physicalKey, new_maxCommitVersion, new_maxCommitTimestamp]
  rcases lt_trichotomy entry.physicalKeyBytes (encodePhysicalKey key) with hlt | heq | hgt
  · simp [hlt, hlt.ne, hlt.not_gt, satisfies_eq_false_of_ne hlt.ne]
  · have hkey : entry.physicalKey = key := encodePhysicalKey_injective heq
    have hversion : (maxVersion.any (· < entry.commitVersion)) = !(maxVersion.all (entry.commitVersion ≤ ·)) := by
      cases maxVersion with
      | none => rfl
      | some v => simp only [any_some, all_some, ← decide_not, not_le]
    simp only [heq, lt_irrefl, ↓reduceIte, decide_true, decide_false, Satisfies, hkey,
      rowMatchesPointBound, Bool.true_and, hversion]
    cases maxVersion.all (entry.commitVersion ≤ ·) <;>
      cases maxTimestamp.all (entry.commitTimestamp ≤ ·) <;> simp
  · simp [hgt, hgt.ne', hgt.not_gt, satisfies_eq_false_of_ne hgt.ne']

/-- A finished walk changes nothing. -/
theorem foldl_blockSeekStep_of_done {lookup : TablePreparedPointLookup}
    (hdone : (state.terminalReached || state.row.isSome) = true) (entries : List StorageRow) :
    entries.foldl (blockSeekStep lookup) state = state := by
  induction entries with
  | nil => rfl
  | cons entry entries ih => rw [foldl_cons, blockSeekStep, if_pos hdone, ih]

/-- The row a walk over sorted entries ends with is the first that satisfies
the lookup. -/
theorem foldl_blockSeekStep_row (hsorted : SortedRows entries)
    (hterminal : state.terminalReached = false) (hrow : state.row = none) :
    (entries.foldl (blockSeekStep (.new key maxVersion maxTimestamp)) state).row =
      entries.find? (Satisfies key maxVersion maxTimestamp) := by
  induction entries generalizing state with
  | nil => simpa using hrow
  | cons entry entries ih =>
    obtain ⟨hafter, hsorted⟩ := pairwise_cons.mp hsorted
    rw [foldl_cons]
    by_cases hskip : state.scanStarted = false ∧ entry.key < (new key maxVersion maxTimestamp).seekKey
    · have hstep : blockSeekStep (.new key maxVersion maxTimestamp) state entry = state := by
        simp [blockSeekStep, hterminal, hrow, hskip.1, hskip.2]
      rw [hstep, ih hsorted hterminal hrow, find?_cons_of_neg (by simp [satisfies_eq_false_of_lt_seekKey hskip.2])]
    · rw [blockSeekStep_eq hterminal hrow (by
        rw [not_and] at hskip
        cases hs : state.scanStarted with
        | true => exact .inl rfl
        | false => exact .inr (hskip hs))]
      cases hsat : Satisfies key maxVersion maxTimestamp entry with
      | true =>
        rw [foldl_blockSeekStep_of_done (by simp), find?_cons_of_pos hsat]
        rfl
      | false =>
        rw [find?_cons_of_neg (by simp [hsat])]
        by_cases hpast : encodePhysicalKey key < entry.physicalKeyBytes
        · -- the walk has left the key, and the rest of the block is past it
          rw [foldl_blockSeekStep_of_done (by simp [hpast]), find?_eq_none_of_lt fun row hrow =>
            hpast.trans_le (physicalKeyBytes_le_of_key_le (hafter row hrow).le)]
          rfl
        · exact ih hsorted (by simpa using hpast) rfl

/-- The walk ends at the target when the block does. -/
theorem blockSeekWalk_continue {last : StorageRow} {started : Bool} (hsorted : SortedRows (entries ++ [last]))
    (hkey : last.physicalKey = key) (hseek : ¬ last.key < (new key maxVersion maxTimestamp).seekKey)
    (hnone : (entries ++ [last]).find? (Satisfies key maxVersion maxTimestamp) = none) :
    (blockSeekWalk (.new key maxVersion maxTimestamp) started (entries ++ [last])).continueToNextBlock = true := by
  set init : BlockSeekState := ⟨started, false, false, none⟩ with hinit
  -- no entry of the block is past the key of the last one
  have hterminal : ∀ (l : List StorageRow) (state : BlockSeekState), state.terminalReached = false →
      (∀ row ∈ l, ¬ encodePhysicalKey key < row.physicalKeyBytes) →
      (l.foldl (blockSeekStep (.new key maxVersion maxTimestamp)) state).terminalReached = false := by
    intro l
    induction l with
    | nil => intro state h _; simpa using h
    | cons row l ih =>
      intro state h hl
      refine ih _ ?_ fun r hr => hl r (mem_cons_of_mem _ hr)
      have := hl row mem_cons_self
      unfold blockSeekStep
      simp only [tableInternalPhysicalKeyBytes_key, new_physicalKey, this, ↓reduceIte]
      split_ifs <;> simp [h]
  obtain ⟨hsorted', -, hbefore⟩ := pairwise_append.mp hsorted
  have hle : ∀ row ∈ entries, ¬ encodePhysicalKey key < row.physicalKeyBytes := fun row hrow => by
    have := physicalKeyBytes_le_of_key_le (hbefore row hrow last (by simp)).le
    rw [physicalKeyBytes.eq_1 last, hkey] at this
    exact not_lt.mpr this
  rw [find?_append, or_eq_none_iff] at hnone
  have hrow : (entries.foldl (blockSeekStep (.new key maxVersion maxTimestamp)) init).row = none :=
    (foldl_blockSeekStep_row hsorted' rfl rfl).trans hnone.1
  have heq : last.physicalKeyBytes = encodePhysicalKey key := by
    rw [physicalKeyBytes, hkey]
  simp only [blockSeekWalk, foldl_append, foldl_cons, foldl_nil, ← hinit]
  rw [blockSeekStep_eq (hterminal entries init rfl hle) hrow (.inr hseek)]
  simp [heq]

/-- What the block loop needs of a block seek: the row is the first of the
block that satisfies the lookup, and the loop goes on when the block ends with
the key. -/
structure BlockSeekSpec (key : PhysicalKey) (maxVersion : Option CommitVersion)
    (maxTimestamp : Option Timestamp) (block : List StorageRow)
    (seek : TableDataBlockPointSeek) : Prop where
  row_eq : seek.row = block.find? (Satisfies key maxVersion maxTimestamp)
  continue_of_last : ∀ last, block.getLast? = some last → last.physicalKey = key →
    ¬ last.key < (TablePreparedPointLookup.new key maxVersion maxTimestamp).seekKey →
    seek.row = none → seek.continueToNextBlock = true

theorem blockSeekWalk_spec (hsorted : SortedRows block) (started : Bool) :
    BlockSeekSpec key maxVersion maxTimestamp block
      (blockSeekWalk (.new key maxVersion maxTimestamp) started block) where
  row_eq := foldl_blockSeekStep_row hsorted rfl rfl
  continue_of_last := by
    intro last hlast hkey hseek hnone
    obtain ⟨entries, rfl⟩ := getLast?_eq_some_iff.mp hlast
    exact blockSeekWalk_continue hsorted hkey hseek ((foldl_blockSeekStep_row hsorted rfl rfl).symm.trans hnone)

/-- The linear seek agrees with a search of the block. -/
theorem seekTableDataBlockPoint_spec (hsorted : SortedRows block) : BlockSeekSpec key maxVersion maxTimestamp block
      (seekTableDataBlockPoint (.new key maxVersion maxTimestamp) block) :=
  blockSeekWalk_spec hsorted false

/-- In sorted rows the entries before the seek key are the first ones. -/
theorem drop_binarySearchRows (rows : List StorageRow) (target : Bytes) :
    rows.drop (binarySearchRows rows target) = rows.dropWhile (·.key < target) := by
  unfold binarySearchRows
  induction rows with
  | nil => rfl
  | cons row rows ih => by_cases h : row.key < target <;> simp [h, ih]

/-- The indexed seek never fails on the offsets of its own block, and agrees
with a search of the block. -/
theorem seekTableDataBlockPointIndexed_spec (hsorted : SortedRows block) :
    ∃ seek, seekTableDataBlockPointIndexed (.new key maxVersion maxTimestamp) block = .ok seek ∧
      BlockSeekSpec key maxVersion maxTimestamp block seek := by
  set lookup := new key maxVersion maxTimestamp
  have hprobe : ∀ i, 0 ≤ i → i < block.length →
      (block[i]?.map fun entry => decide (entry.key < lookup.seekKey)).okOr
        (FormatError.invalidLength "entry_offsets") =
      .ok ((block.map fun entry => decide (entry.key < lookup.seekKey)).getD i false) := by
    intro i _ hi
    simp [getElem?_eq_getElem hi, okOr, getD_eq_getElem?_getD]
  have hmono : ∀ i j, 0 ≤ i → i ≤ j → j < block.length →
      (block.map fun entry => decide (entry.key < lookup.seekKey)).getD j false = true →
      (block.map fun entry => decide (entry.key < lookup.seekKey)).getD i false = true := by
    intro i j _ hij hj h
    simp only [getD_eq_getElem?_getD, getElem?_map, getElem?_eq_getElem hj, getElem?_eq_getElem
      (hij.trans_lt hj), map_some, getD_some, decide_eq_true_eq] at h ⊢
    rcases hij.lt_or_eq with hlt | rfl
    · exact (pairwise_iff_getElem.mp hsorted i j (hij.trans_lt hj) hj hlt).trans h
    · exact h
  obtain ⟨low, hrun, -, hlow, hbefore, hafter⟩ :=
    bisectLower_eq_ok hprobe hmono (Nat.zero_le _) (Nat.le_refl (block.length - 0))
  refine ⟨blockSeekWalk lookup true (block.drop low), ?_, ?_⟩
  · rw [Nat.sub_zero] at hrun
    rw [seekTableDataBlockPointIndexed, hrun]; rfl
  -- the entries the bisection skips are before the seek key
  have hskipped : ∀ row ∈ block.take low, row.key < lookup.seekKey := by
    intro row hrow
    obtain ⟨i, hi, rfl⟩ := mem_iff_getElem.mp hrow
    rw [length_take] at hi
    have := hbefore i (Nat.zero_le _) (by omega)
    simpa [getD_eq_getElem?_getD, getElem?_eq_getElem (show i < block.length by omega)] using this
  have hfind : block.find? (Satisfies key maxVersion maxTimestamp) =
      (block.drop low).find? (Satisfies key maxVersion maxTimestamp) := by
    conv_lhs => rw [← take_append_drop low block]
    rw [find?_append, find?_eq_none.mpr fun row hrow => by
      simp [satisfies_eq_false_of_lt_seekKey (hskipped row hrow)]]
    rfl
  have hspec : BlockSeekSpec key maxVersion maxTimestamp (block.drop low)
      (blockSeekWalk lookup true (block.drop low)) :=
    blockSeekWalk_spec (hsorted.sublist (drop_sublist low block)) true
  refine ⟨hfind ▸ hspec.row_eq, fun last hlast hkey hseek hnone => ?_⟩
  refine hspec.continue_of_last last ?_ hkey hseek hnone
  obtain ⟨entries, rfl⟩ := getLast?_eq_some_iff.mp hlast
  have hlt : low < (entries ++ [last]).length := by
    by_contra hge
    refine hseek (hskipped last ?_)
    rw [take_of_length_le (by omega)]; simp
  rw [getLast?_drop, if_neg (by simpa using hlt), hlast]

theorem SortedRows.key_le_last {row last : StorageRow} (h : SortedRows rows)
    (hlast : rows.getLast? = some last) (hrow : row ∈ rows) : row.key ≤ last.key := by
  obtain ⟨entries, rfl⟩ := getLast?_eq_some_iff.mp hlast
  rcases mem_append.mp hrow with hrow | hrow
  · exact ((pairwise_append.mp h).2.2 row hrow last (by simp)).le
  · rw [mem_singleton.mp hrow]

theorem SortedRows.head_le_key {row first : StorageRow} (h : SortedRows rows)
    (hfirst : rows.head? = some first) (hrow : row ∈ rows) : first.key ≤ row.key := by
  obtain ⟨entries, rfl⟩ := head?_eq_some_iff.mp hfirst
  rcases mem_cons.mp hrow with rfl | hrow
  · exact le_rfl
  · exact ((pairwise_cons.mp h).1 row hrow).le

theorem seekDataBlockPoint_spec (key : PhysicalKey) (maxVersion : Option CommitVersion)
    (maxTimestamp : Option Timestamp) (hsorted : SortedRows block) (cached : Bool) :
    ∃ seek, seekDataBlockPoint (.new key maxVersion maxTimestamp) cached block = .ok seek ∧
      BlockSeekSpec key maxVersion maxTimestamp block seek := by
  cases cached with
  | false => exact ⟨_, rfl, seekTableDataBlockPoint_spec hsorted⟩
  | true =>
    obtain ⟨seek, hseek, hspec⟩ := seekTableDataBlockPointIndexed_spec hsorted
    exact ⟨seek, by rw [seekDataBlockPoint, if_pos rfl, hseek]; rfl, hspec⟩

/-- The block loop, from a block that reaches the seek key, finds the first row
that satisfies the lookup. -/
theorem lazySeekBlocks_eq (cached : Nat → Bool) {blocks : List (List StorageRow)}
    (hne : ∀ block ∈ blocks, block ≠ []) (hsorted : SortedRows blocks.flatten)
    (hstart : ∀ block ∈ blocks.head?, ∀ last ∈ block.getLast?,
      ¬ last.key < (new key maxVersion maxTimestamp).seekKey) (i : Nat) :
    lazySeekBlocks (.new key maxVersion maxTimestamp) cached i blocks =
      .ok (blocks.flatten.find? (Satisfies key maxVersion maxTimestamp)) := by
  induction blocks generalizing i with
  | nil => rfl
  | cons block blocks ih =>
    rw [flatten_cons] at hsorted ⊢
    obtain ⟨hblock, hrest, hcross⟩ := pairwise_append.mp hsorted
    replace hblock : SortedRows block := hblock
    have hblockne : block ≠ [] := hne block mem_cons_self
    obtain ⟨first, hfirst⟩ := isSome_iff_exists.mp (isSome_head?.mpr hblockne)
    obtain ⟨last, hlast⟩ := ne_none_iff_exists'.mp (mt getLast?_eq_none_iff.mp hblockne)
    have hlastmem : last ∈ block := mem_of_getLast? hlast
    have hlastseek := hstart block rfl last hlast
    have hpast : ∀ row ∈ blocks.flatten, last.physicalKeyBytes ≤ row.physicalKeyBytes :=
      fun row hrow => physicalKeyBytes_le_of_key_le (hcross last hlastmem row hrow).le
    have hnext : ∀ b ∈ blocks.head?, ∀ l ∈ b.getLast?, ¬ l.key < (new key maxVersion maxTimestamp).seekKey := by
      intro b hb l hl
      have hmem : l ∈ blocks.flatten := mem_flatten_of_mem (mem_of_head? hb) (mem_of_getLast? hl)
      exact fun h => hlastseek ((hcross last hlastmem l hmem).trans h)
    have hloop := ih (fun b hb => hne b (mem_cons_of_mem _ hb)) hrest hnext (i + 1)
    have hentry : indexEntry block = ⟨first.key, last.key⟩ := by
      simp [indexEntry, hfirst, hlast]
    rw [lazySeekBlocks, hentry, find?_append]
    simp only [compareIndexEntryPhysicalRange, tableInternalPhysicalKeyBytes_key, new_physicalKey]
    by_cases hbefore : last.physicalKeyBytes < encodePhysicalKey key
    · -- every row of the block is before the key
      have hnone : block.find? (Satisfies key maxVersion maxTimestamp) = none := by
        refine find?_eq_none.mpr fun row hrow => ?_
        have hle := physicalKeyBytes_le_of_key_le (hblock.key_le_last hlast hrow)
        simp [satisfies_eq_false_of_ne (hle.trans_lt hbefore).ne]
      simp [hbefore, hnone, hloop]
    by_cases hafter : encodePhysicalKey key < first.physicalKeyBytes
    · -- every row from here on is past it
      have hblockpast : ∀ row ∈ block, encodePhysicalKey key < row.physicalKeyBytes :=
        fun row hrow => hafter.trans_le (physicalKeyBytes_le_of_key_le (hblock.head_le_key hfirst hrow))
      simp [hbefore, hafter, find?_eq_none_of_lt hblockpast,
        find?_eq_none_of_lt fun row hrow => (hblockpast last hlastmem).trans_le (hpast row hrow)]
    · obtain ⟨seek, hseek, hspec⟩ := seekDataBlockPoint_spec key maxVersion maxTimestamp hblock (cached i)
      simp only [hbefore, hafter, ↓reduceIte, hseek, ok_bind, hspec.row_eq]
      cases hfound : block.find? (Satisfies key maxVersion maxTimestamp) with
      | some row => rfl
      | none =>
        rw [none_or, hloop]
        cases hcont : seek.continueToNextBlock with
        | true => rfl
        | false =>
          -- the block does not end with the key, so it ends past it
          have hlt : encodePhysicalKey key < last.physicalKeyBytes := by
            refine lt_of_le_of_ne (not_lt.mp hbefore) fun heq => ?_
            have := hspec.continue_of_last last hlast (encodePhysicalKey_injective heq.symm)
              hlastseek (hspec.row_eq.trans hfound)
            simp [hcont] at this
          rw [find?_eq_none_of_lt fun row hrow => hlt.trans_le (hpast row hrow)]
          rfl

theorem seekPreparedPointInSlice_eq (hsorted : SortedRows rows) {filter : Option TableBloomFilter}
    (hfilter : ∀ f ∈ filter, ∀ row ∈ rows, f.mightContain row.physicalKeyBytes ≠ .definitelyAbsent) :
    seekPreparedPointInSlice rows (.new key maxVersion maxTimestamp) filter =
      rows.find? (Satisfies key maxVersion maxTimestamp) := by
  have hwalk : seekWalk id (fun _ => true) (.new key maxVersion maxTimestamp)
      (rows.dropWhile fun row => row.key < (new key maxVersion maxTimestamp).seekKey) =
      rows.find? (Satisfies key maxVersion maxTimestamp) := by
    have hrows : rows.Pairwise fun a b => (id a : StorageRow).key < (id b).key := hsorted
    simpa using! seekWalk_dropWhile hrows
  unfold seekPreparedPointInSlice
  split
  · -- a negative probe: no row of the table is one of the key
    rename_i hprobe
    symm
    refine find?_eq_none.mpr fun row hrow hsat => ?_
    obtain ⟨rfl, -⟩ := satisfies_iff.mp hsat
    rw [new_physicalKey] at hprobe
    cases filter with
    | none => cases hprobe
    | some f => exact hfilter f rfl row hrow hprobe
  all_goals
    dsimp only
    rw [drop_binarySearchRows, hwalk]
    split_ifs with hlen
    · rfl
    · rw [← hwalk, ← drop_binarySearchRows, drop_of_length_le (not_lt.mp hlen)]
      rfl

namespace ImmutableTableReader

variable {row : StorageRow} (reader : ImmutableTableReader)

theorem firstKey_le (hrow : row ∈ reader.rows) : reader.facts.firstKey ≤ row.key := by
  obtain ⟨first, hfirst, hkey⟩ := map_eq_some_iff.mp reader.facts_describe.firstKey_eq
  exact hkey ▸ reader.rows_sorted.head_le_key hfirst hrow

theorem le_lastKey (hrow : row ∈ reader.rows) : row.key ≤ reader.facts.lastKey := by
  obtain ⟨last, hlast, hkey⟩ := map_eq_some_iff.mp reader.facts_describe.lastKey_eq
  exact hkey ▸ reader.rows_sorted.key_le_last hlast hrow

/-- The physical keys of the facts are those of the first and the last row. -/
theorem exists_first_last : ∃ first ∈ reader.rows, ∃ last ∈ reader.rows, reader.facts.firstKey = first.key ∧
      reader.facts.lastKey = last.key := by
  obtain ⟨first, hfirst, hkey⟩ := map_eq_some_iff.mp reader.facts_describe.firstKey_eq
  obtain ⟨last, hlast, hkey'⟩ := map_eq_some_iff.mp reader.facts_describe.lastKey_eq
  exact ⟨first, mem_of_head? hfirst, last, mem_of_getLast? hlast, hkey.symm, hkey'.symm⟩

theorem containsPhysicalKey_of_mem (hrow : row ∈ reader.rows) :
    reader.containsPhysicalKey row.physicalKeyBytes = true := by
  obtain ⟨first, -, last, -, hfirst, hlast⟩ := reader.exists_first_last
  have h₁ := reader.firstKey_le hrow
  have h₂ := reader.le_lastKey hrow
  rw [hfirst] at h₁
  rw [hlast] at h₂
  simp [containsPhysicalKey, hfirst, hlast, physicalKeyBytes_le_of_key_le h₁, physicalKeyBytes_le_of_key_le h₂]

/-- The blocks before the first candidate end before the key. -/
theorem firstCandidateBlockForKey_spec (blocks : List (List StorageRow)) (target : Bytes) :
    (∀ block ∈ blocks.take ((blocks.map indexEntry).takeWhile (·.lastKey < target)).length,
      (indexEntry block).lastKey < target) ∧
    ∀ block ∈ (blocks.drop ((blocks.map indexEntry).takeWhile (·.lastKey < target)).length).head?,
      ¬ (indexEntry block).lastKey < target := by
  induction blocks with
  | nil => simp
  | cons block blocks ih =>
    by_cases h : (indexEntry block).lastKey < target
    · simp only [map_cons, h, decide_true, takeWhile_cons_of_pos, length_cons,
        take_succ_cons, mem_cons, forall_eq_or_imp, true_and, drop_succ_cons]
      exact ih
    · simpa [h] using not_lt.mp h

/-- The rows of the blocks before the first candidate stand before the key. -/
theorem key_lt_of_before_candidate {target : Bytes} (h : row ∈ (reader.blocks.take
      ((reader.blocks.map indexEntry).takeWhile (·.lastKey < target)).length).flatten) :
    row.key < target := by
  obtain ⟨block, hblock, hrow⟩ := mem_flatten.mp h
  have hmem : block ∈ reader.blocks := mem_of_mem_take hblock
  obtain ⟨last, hlast⟩ := ne_none_iff_exists'.mp (mt getLast?_eq_none_iff.mp (reader.blocks_ne_nil block hmem))
  have hsorted : SortedRows block := reader.rows_sorted.sublist (sublist_flatten_of_mem hmem)
  have hlt := (firstCandidateBlockForKey_spec reader.blocks target).1 block hblock
  rw [indexEntry, hlast] at hlt
  exact (hsorted.key_le_last hlast hrow).trans_lt hlt

theorem lazySeekPreparedPoint_eq (cached : Nat → Bool) :
    reader.lazySeekPreparedPoint cached (.new key maxVersion maxTimestamp) =
      .ok (reader.rows.find? (Satisfies key maxVersion maxTimestamp)) := by
  have hnone : (∀ row ∈ reader.rows, row.physicalKey ≠ key) →
      reader.rows.find? (Satisfies key maxVersion maxTimestamp) = none := fun h =>
    find?_eq_none.mpr fun row hrow hsat => h row hrow (satisfies_iff.mp hsat).1
  unfold lazySeekPreparedPoint
  rw [new_physicalKey]
  split
  · rename_i hcontains
    rw [hnone]
    rintro row hrow rfl
    rw [← physicalKeyBytes, reader.containsPhysicalKey_of_mem hrow] at hcontains
    simp at hcontains
  split
  · rename_i hprobe
    rw [hnone]
    rintro row hrow rfl
    cases hf : reader.filter with
    | none => simp [probePhysicalFilter, hf] at hprobe
    | some f =>
      rw [probePhysicalFilter, hf] at hprobe
      exact reader.filter_sound f hf row hrow hprobe
  set target := (new key maxVersion maxTimestamp).seekKey
  have hstart := (firstCandidateBlockForKey_spec reader.blocks target).2
  set index := ((reader.blocks.map indexEntry).takeWhile (·.lastKey < target)).length with hindex
  -- the rows of the blocks before the candidate stand before the seek key
  have hskipped : ∀ row ∈ (reader.blocks.take index).flatten,
      Satisfies key maxVersion maxTimestamp row = false := by
    intro row hrow
    exact satisfies_eq_false_of_lt_seekKey (reader.key_lt_of_before_candidate hrow)
  have hsplit : reader.rows.find? (Satisfies key maxVersion maxTimestamp) =
      (reader.blocks.drop index).flatten.find? (Satisfies key maxVersion maxTimestamp) := by
    rw [rows, ← take_append_drop index reader.blocks, flatten_append, find?_append,
      find?_eq_none.mpr fun row hrow => by simp [hskipped row hrow], take_append_drop]
    rfl
  rw [firstCandidateBlockForKey, ← hindex, hsplit]
  split
  · rename_i hnocandidate
    have hlen : reader.blocks.length ≤ index := by simpa using hnocandidate
    rw [drop_of_length_le hlen]; rfl
  · rename_i blockIndex hcandidate
    obtain ⟨-, rfl⟩ : index < reader.blocks.length ∧ index = blockIndex := by simpa using hcandidate
    have hsorted : SortedRows (reader.blocks.drop index).flatten := by
      have h := reader.rows_sorted
      rw [← take_append_drop index reader.blocks, flatten_append] at h
      exact (pairwise_append.mp h).2.1
    refine lazySeekBlocks_eq cached (fun b hb => reader.blocks_ne_nil b (mem_of_mem_drop hb)) hsorted ?_ index
    intro block hblock last hlast
    have := hstart block hblock
    rwa [indexEntry, mem_def.mp hlast] at this

/-- In either mode a point seek finds the first row of the key within the
lookup's bound. -/
theorem seekPreparedPoint_eq (key : PhysicalKey)
    (maxVersion : Option CommitVersion) (maxTimestamp : Option Timestamp) :
    reader.seekPreparedPoint (.new key maxVersion maxTimestamp) =
      .ok (reader.rows.find? (Satisfies key maxVersion maxTimestamp)) := by
  unfold seekPreparedPoint
  split
  · exact congrArg _ (seekPreparedPointInSlice_eq reader.rows_sorted reader.filter_sound)
  · exact reader.lazySeekPreparedPoint_eq _

end ImmutableTableReader

end Seek

end Strata
