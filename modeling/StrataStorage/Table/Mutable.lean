import StrataStorage.Lib.Newest
import StrataStorage.Table.Key

/-!
# Mutable and frozen in-memory tables

`table/mutable.rs`. The rows of a memory table are an ordered map from key to
row and insertion sequence. The map is shared: a read view or a frozen table is
the same map with an upper bound on the sequence numbers it sees and the facts
captured when it was taken, so that rows inserted later stay invisible to it.
Here the handle (`MutableTable`) and the map (`TableMemoryData`) carry that as
fields: sequence numbers are below the next one, a captured bound is no higher,
and the commit range of the facts covers every row the handle sees.

* `seekPreparedPoint_eq`: a point seek finds the first visible row of the key
  within the lookup's bound;
* `mem_insertTableRow_visibleRows`: an insert adds its row to a live handle.
-/

namespace Strata

open List

/-- `usize::saturating_add`, on a 64-bit target. -/
def usizeSaturatingAdd (a b : Nat) : Nat := min (a + b) (2 ^ 64 - 1)

def tableRowMetadataBytes : Nat := 8 + 8 + 8 + 1

/-- The sizes in memory of a `TableInternalKeyBytes` and of a `StorageRow`. -/
def tableRowAdapterOverheadBytes : Nat := 24 + 128

def approximateRowSize (row : StorageRow) : Nat :=
  usizeSaturatingAdd (usizeSaturatingAdd (usizeSaturatingAdd row.key.length row.value.length)
    tableRowMetadataBytes) tableRowAdapterOverheadBytes

structure TableMemoryEntry where
  row : StorageRow
  sequence : Nat
  deriving DecidableEq

/-- A commit range covers a version: both ends are known and enclose it. -/
def CommitRangeCovers (minCommit maxCommit : Option CommitVersion) (version : CommitVersion) :
    Prop := (∃ low ∈ minCommit, low ≤ version) ∧ ∃ high ∈ maxCommit, version ≤ high

/-- The shared map of a memory table, in key order. -/
structure TableMemoryData where
  rows : List TableMemoryEntry
  approximateSizeBytes : Nat
  minCommit : Option CommitVersion
  maxCommit : Option CommitVersion
  nextSequence : Nat
  rows_sorted : rows.Pairwise fun a b => a.row.key < b.row.key
  sequence_lt : ∀ entry ∈ rows, entry.sequence < nextSequence
  commits_covered : ∀ entry ∈ rows, CommitRangeCovers minCommit maxCommit entry.row.commitVersion

structure TableMemoryFacts where
  rowCount : Nat
  approximateSizeBytes : Nat
  firstKey : Option Bytes
  lastKey : Option Bytes
  minCommit : Option CommitVersion
  maxCommit : Option CommitVersion
  deriving DecidableEq

def entryVisible (entry : TableMemoryEntry) (sequenceUpperBound : Option Nat) : Bool :=
  sequenceUpperBound.all (entry.sequence < ·)

namespace TableMemoryData

variable {entry : TableMemoryEntry} {rows : List TableMemoryEntry} {e : TableMemoryEntry}

/-- `TableMemoryData::default`. -/
def empty : TableMemoryData where
  rows := []
  approximateSizeBytes := 0
  minCommit := none
  maxCommit := none
  nextSequence := 0
  rows_sorted := .nil
  sequence_lt := by simp
  commits_covered := by simp

def memoryFacts (data : TableMemoryData) : TableMemoryFacts where
  rowCount := data.rows.length
  approximateSizeBytes := data.approximateSizeBytes
  firstKey := data.rows.head?.map (·.row.key)
  lastKey := data.rows.getLast?.map (·.row.key)
  minCommit := data.minCommit
  maxCommit := data.maxCommit

/-- `BTreeMap::insert` of a key the map does not hold. -/
def insertEntry (entry : TableMemoryEntry) (rows : List TableMemoryEntry) : List TableMemoryEntry :=
  rows.takeWhile (·.row.key < entry.row.key) ++ entry :: rows.dropWhile (·.row.key < entry.row.key)

theorem mem_insertEntry : e ∈ insertEntry entry rows ↔ e = entry ∨ e ∈ rows := by
  conv_rhs => rw [← takeWhile_append_dropWhile (l := rows)
    (p := fun e => decide (e.row.key < entry.row.key))]
  simp only [insertEntry, mem_append, mem_cons]
  tauto

section

variable (hsorted : rows.Pairwise fun a b => a.row.key < b.row.key)
include hsorted

/-- Past the insertion point every key is greater than the new one. -/
theorem lt_of_mem_dropWhile (hnew : ∀ e ∈ rows, e.row.key ≠ entry.row.key)
    (he : e ∈ rows.dropWhile (·.row.key < entry.row.key)) : entry.row.key < e.row.key := by
  induction rows with
  | nil => simp at he
  | cons a rows ih =>
    obtain ⟨hafter, hsorted⟩ := pairwise_cons.mp hsorted
    by_cases ha : a.row.key < entry.row.key
    · rw [dropWhile_cons_of_pos (by simpa using ha)] at he
      exact ih hsorted (fun e he => hnew e (mem_cons_of_mem _ he)) he
    · rw [dropWhile_cons_of_neg (by simpa using ha)] at he
      have hlt : entry.row.key < a.row.key := lt_of_le_of_ne (not_lt.mp ha) (hnew a mem_cons_self).symm
      rcases mem_cons.mp he with rfl | he
      · exact hlt
      · exact hlt.trans (hafter e he)

theorem insertEntry_sorted (hnew : ∀ e ∈ rows, e.row.key ≠ entry.row.key) :
    (insertEntry entry rows).Pairwise fun a b => a.row.key < b.row.key := by
  have hsplit : rows.takeWhile (·.row.key < entry.row.key) ++
      rows.dropWhile (·.row.key < entry.row.key) = rows := takeWhile_append_dropWhile
  rw [← hsplit] at hsorted
  obtain ⟨hleft, hright, hcross⟩ := pairwise_append.mp hsorted
  rw [hsplit] at hsorted
  have hbefore : ∀ a ∈ rows.takeWhile (·.row.key < entry.row.key), a.row.key < entry.row.key :=
    fun a ha => by simpa using mem_takeWhile_imp ha
  refine pairwise_append.mpr ⟨hleft, pairwise_cons.mpr
    ⟨fun b hb => lt_of_mem_dropWhile hsorted hnew hb, hright⟩, fun a ha b hb => ?_⟩
  rcases mem_cons.mp hb with rfl | hb
  · exact hbefore a ha
  · exact hcross a ha b hb

end

end TableMemoryData

theorem CommitRangeCovers.widen {low high : Option CommitVersion} {v : CommitVersion}
    (h : CommitRangeCovers low high v) (w : CommitVersion) :
    CommitRangeCovers (some (low.elim w (min · w))) (some (high.elim w (max · w))) v := by
  obtain ⟨⟨l, hl, hlv⟩, u, hu, hvu⟩ := h
  subst hl hu
  exact ⟨⟨_, rfl, (min_le_left l w).trans hlv⟩, _, rfl, hvu.trans (le_max_left u w)⟩

theorem commitRangeCovers_self (low high : Option CommitVersion) (v : CommitVersion) :
    CommitRangeCovers (some (low.elim v (min · v))) (some (high.elim v (max · v))) v := by
  refine ⟨⟨_, rfl, ?_⟩, _, rfl, ?_⟩
  · cases low <;> simp
  · cases high <;> simp

/-- A handle on a memory table. -/
structure MutableTable where
  data : TableMemoryData
  sequenceUpperBound : Option Nat
  capturedFacts : Option TableMemoryFacts
  bound_le : ∀ bound ∈ sequenceUpperBound, bound ≤ data.nextSequence
  captured_iff : capturedFacts.isSome = sequenceUpperBound.isSome
  captured_cover : ∀ facts ∈ capturedFacts, ∀ entry ∈ data.rows, entryVisible entry sequenceUpperBound = true →
      CommitRangeCovers facts.minCommit facts.maxCommit entry.row.commitVersion

namespace MutableTable

variable {row : StorageRow} {table table' : MutableTable}

theorem captured_none : (none : Option TableMemoryFacts).isSome = (none : Option Nat).isSome := rfl

def new : MutableTable where
  data := .empty
  sequenceUpperBound := none
  capturedFacts := none
  bound_le := by simp
  captured_iff := captured_none
  captured_cover := by simp

theorem new_live : new.sequenceUpperBound = none := rfl

def facts (table : MutableTable) : TableMemoryFacts :=
  table.capturedFacts.getD table.data.memoryFacts

def visibleRows (table : MutableTable) : List StorageRow :=
  (table.data.rows.filter (entryVisible · table.sequenceUpperBound)).map (·.row)

/-- `seek_physical_key_in_rows`: the map's range from the seek key on. -/
def seekPreparedPoint (table : MutableTable) (lookup : TablePreparedPointLookup) : Option StorageRow :=
  seekWalk (·.row) (entryVisible · table.sequenceUpperBound) lookup
    (table.data.rows.dropWhile (·.row.key < lookup.seekKey))

/-- `capture_view_state`: the sequence bound and the facts of a view taken now. -/
def captureViewState (table : MutableTable) : Nat × TableMemoryFacts :=
  match table.sequenceUpperBound, table.capturedFacts with
  | some bound, some facts => (bound, facts)
  | _, _ => (table.data.nextSequence, table.data.memoryFacts)

/-- The commit range of the facts covers every visible row. -/
theorem facts_cover (table : MutableTable) (h : row ∈ table.visibleRows) :
    CommitRangeCovers table.facts.minCommit table.facts.maxCommit row.commitVersion := by
  simp only [visibleRows, mem_map, mem_filter] at h
  obtain ⟨entry, ⟨he, hvisible⟩, rfl⟩ := h
  cases hfacts : table.capturedFacts with
  | none =>
    rw [facts, hfacts]
    exact table.data.commits_covered entry he
  | some facts =>
    simpa [MutableTable.facts, hfacts] using table.captured_cover facts hfacts entry he hvisible

def cloneForReadView (table : MutableTable) : MutableTable where
  data := table.data
  sequenceUpperBound := some table.captureViewState.1
  capturedFacts := some table.captureViewState.2
  bound_le bound hbound := by
    obtain rfl : table.captureViewState.1 = bound := by simpa using hbound
    unfold captureViewState
    split
    · rename_i h _; exact table.bound_le _ h
    · exact le_rfl
  captured_iff := rfl
  captured_cover := by
    rintro facts hfacts entry he hvisible
    obtain rfl : table.captureViewState.2 = facts := by simpa using hfacts
    revert hvisible
    unfold captureViewState
    split
    · rename_i hbound hcaptured
      intro hvisible
      exact table.captured_cover _ hcaptured entry he (by rwa [hbound])
    · exact fun _ => table.data.commits_covered entry he

/-- `insert_table_row`, through a handle on the shared map: a captured handle
keeps its bound and its facts. -/
def insertTableRow (table : MutableTable) (row : StorageRow) : Except TableRuntimeError MutableTable :=
  if hnew : ∃ entry ∈ table.data.rows, entry.row.key = row.key then
    .error (.duplicateInternalKey row.key)
  else
    let entry : TableMemoryEntry := ⟨row, table.data.nextSequence⟩
    .ok {
      data := {
        rows := TableMemoryData.insertEntry entry table.data.rows
        approximateSizeBytes := usizeSaturatingAdd table.data.approximateSizeBytes (approximateRowSize row)
        minCommit := some (table.data.minCommit.elim row.commitVersion (min · row.commitVersion))
        maxCommit := some (table.data.maxCommit.elim row.commitVersion (max · row.commitVersion))
        nextSequence := table.data.nextSequence + 1
        rows_sorted := TableMemoryData.insertEntry_sorted table.data.rows_sorted fun e he heq => hnew ⟨e, he, heq⟩
        sequence_lt := by
          intro e he
          rcases TableMemoryData.mem_insertEntry.mp he with rfl | he
          · exact Nat.lt_succ_self _
          · exact (table.data.sequence_lt e he).trans (Nat.lt_succ_self _)
        commits_covered := by
          intro e he
          rcases TableMemoryData.mem_insertEntry.mp he with rfl | he
          · exact commitRangeCovers_self _ _ _
          · exact (table.data.commits_covered e he).widen _ }
      sequenceUpperBound := table.sequenceUpperBound
      capturedFacts := table.capturedFacts
      bound_le := fun b hb => (table.bound_le b hb).trans (Nat.le_succ _)
      captured_iff := table.captured_iff
      captured_cover := by
        intro facts hfacts e he hvisible
        rcases TableMemoryData.mem_insertEntry.mp he with rfl | he
        · -- the new entry's sequence number is at or above every captured bound
          have hsome : table.sequenceUpperBound.isSome = true := by
            rw [← table.captured_iff, hfacts]; rfl
          obtain ⟨bound, hbound⟩ := Option.isSome_iff_exists.mp hsome
          have := table.bound_le bound hbound
          simp only [entryVisible, hbound, Option.all_some, decide_eq_true_eq] at hvisible
          exact absurd hvisible (not_lt.mpr this)
        · exact table.captured_cover facts hfacts e he hvisible }

/-- What an insert that succeeds does to the handle. -/
theorem insertTableRow_eq_ok (h : table.insertTableRow row = .ok table') :
    (∀ entry ∈ table.data.rows, entry.row.key ≠ row.key) ∧
    table'.data.rows = TableMemoryData.insertEntry ⟨row, table.data.nextSequence⟩ table.data.rows ∧
    table'.sequenceUpperBound = table.sequenceUpperBound ∧
    table'.capturedFacts = table.capturedFacts := by
  unfold insertTableRow at h
  split at h
  · cases h
  · rename_i hnew
    cases h
    exact ⟨fun e he heq => hnew ⟨e, he, heq⟩, rfl, rfl, rfl⟩

/-- A live handle sees an inserted row at its place in key order. -/
theorem mem_insertTableRow_visibleRows
    (hlive : table.sequenceUpperBound = none) (h : table.insertTableRow row = .ok table')
    {r : StorageRow} : r ∈ table'.visibleRows ↔ r = row ∨ r ∈ table.visibleRows := by
  obtain ⟨-, hrows, hbound, -⟩ := insertTableRow_eq_ok h
  simp only [visibleRows, hrows, hbound, hlive, entryVisible, Option.all_none, filter_true,
    mem_map, TableMemoryData.mem_insertEntry]
  constructor
  · rintro ⟨e, rfl | he, rfl⟩
    · exact .inl rfl
    · exact .inr ⟨e, he, rfl⟩
  · rintro (rfl | ⟨e, he, rfl⟩)
    · exact ⟨_, .inl rfl, rfl⟩
    · exact ⟨e, .inr he, rfl⟩

theorem visibleRows_sorted (table : MutableTable) : SortedRows table.visibleRows :=
  pairwise_map.mpr (table.data.rows_sorted.filter _)

/-- A point seek finds the first visible row of the key within the bound. -/
theorem seekPreparedPoint_eq (table : MutableTable) (key : PhysicalKey)
    (maxVersion : Option CommitVersion) (maxTimestamp : Option Timestamp) :
    table.seekPreparedPoint (.new key maxVersion maxTimestamp) =
      table.visibleRows.find? (Satisfies key maxVersion maxTimestamp) := by
  rw [seekPreparedPoint, seekWalk_dropWhile table.data.rows_sorted, visibleRows, find?_map, find?_filter]
  congr 2
  funext entry
  simp

end MutableTable

/-- A frozen table is a captured handle (`FrozenTable`). -/
structure FrozenTable where
  table : MutableTable
  captured : table.sequenceUpperBound.isSome = true

def MutableTable.freeze (table : MutableTable) : FrozenTable := ⟨table.cloneForReadView, rfl⟩

/-- A view taken of a live table sees the rows the table holds. -/
theorem MutableTable.cloneForReadView_visibleRows {table : MutableTable} :
    table.cloneForReadView.visibleRows = table.visibleRows := by
  show (table.data.rows.filter (entryVisible · (some table.captureViewState.1))).map (·.row) =
    (table.data.rows.filter (entryVisible · table.sequenceUpperBound)).map (·.row)
  congr 1
  refine filter_congr fun e he => ?_
  cases hbound : table.sequenceUpperBound with
  | none => simp [captureViewState, hbound, entryVisible, table.data.sequence_lt e he]
  | some bound =>
    have hcaptured : table.capturedFacts.isSome = true := by rw [table.captured_iff, hbound]; rfl
    obtain ⟨facts, hfacts⟩ := Option.isSome_iff_exists.mp hcaptured
    simp [captureViewState, hbound, hfacts]

end Strata
