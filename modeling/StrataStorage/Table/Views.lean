import StrataStorage.Table.Mutable

/-!
# Views of a shared memory table

`table/mutable.rs`: a view reads the map it was taken from, below its sequence bound, while
batches go on appending to it and take rows back when they fail. The rows below a bound are
the same after each of these calls (`extends_call`, `extends_run`), since a failed batch
rewinds the sequence to where it began; `view_stable` is what a view sees along every run.
-/

namespace Strata

open List

structure MutableTableAppendBaseline where
  approximateSizeBytes : Nat
  minCommit : Option CommitVersion
  maxCommit : Option CommitVersion
  nextSequence : Nat

/-- The handle of the table itself, which sees the whole map. -/
def MutableTable.live (data : TableMemoryData) : MutableTable where
  data := data
  sequenceUpperBound := none
  capturedFacts := none
  bound_le := by simp
  captured_iff := captured_none
  captured_cover := by simp

namespace TableMemoryData

variable {data data' : TableMemoryData} {row : StorageRow} {inserted : List Bytes}
  {baseline : MutableTableAppendBaseline}

def insertRow (data : TableMemoryData) (row : StorageRow) : Except TableRuntimeError TableMemoryData :=
  ((MutableTable.live data).insertTableRow row).map (·.data)

def appendBaseline (data : TableMemoryData) : MutableTableAppendBaseline :=
  ⟨data.approximateSizeBytes, data.minCommit, data.maxCommit, data.nextSequence⟩

theorem insertRow_eq_ok (h : data.insertRow row = .ok data') :
    (∀ entry ∈ data.rows, entry.row.key ≠ row.key) ∧ data'.rows = insertEntry
      ⟨row, data.nextSequence⟩ data.rows ∧ data'.nextSequence = data.nextSequence + 1 := by
  rw [insertRow, MutableTable.insertTableRow] at h
  split_ifs at h with hnew
  · cases h
  · cases h
    exact ⟨fun entry hentry heq => hnew ⟨entry, hentry, heq⟩, rfl, rfl⟩

theorem filter_insertRow (h : data.insertRow row = .ok data') :
    data'.rows.filter (·.row.key ∉ inserted ++ [row.key]) = data.rows.filter (·.row.key ∉ inserted) := by
  obtain ⟨hnew, hrows, -⟩ := insertRow_eq_ok h
  rw [hrows, insertEntry, filter_append, filter_cons_of_neg (by simp), ← filter_append, takeWhile_append_dropWhile]
  exact filter_congr fun entry hentry => by simp [hnew entry hentry]

/-- Without the rows inserted since, the map is the one the baseline was taken of. -/
def Rewinds (baseline : MutableTableAppendBaseline) (inserted : List Bytes) (data : TableMemoryData) : Prop :=
  ∃ start : TableMemoryData, start.appendBaseline = baseline ∧ data.rows.filter (·.row.key ∉ inserted) = start.rows

theorem rewinds_appendBaseline (data : TableMemoryData) : Rewinds data.appendBaseline [] data :=
  ⟨data, rfl, by simp⟩

theorem Rewinds.insertRow (h : Rewinds baseline inserted data)
    (hinsert : data.insertRow row = .ok data') : Rewinds baseline (inserted ++ [row.key]) data' :=
  h.imp fun _ ⟨hbaseline, hrows⟩ => ⟨hbaseline, (filter_insertRow hinsert).trans hrows⟩

def rollbackAppendedRows (data : TableMemoryData) (baseline : MutableTableAppendBaseline)
    (inserted : List Bytes) (h : Rewinds baseline inserted data) : TableMemoryData where
  rows := data.rows.filter (·.row.key ∉ inserted)
  approximateSizeBytes := baseline.approximateSizeBytes
  minCommit := baseline.minCommit
  maxCommit := baseline.maxCommit
  nextSequence := baseline.nextSequence
  rows_sorted := data.rows_sorted.filter _
  sequence_lt := by
    obtain ⟨start, rfl, hrows⟩ := h
    exact hrows ▸ start.sequence_lt
  commits_covered := by
    obtain ⟨start, rfl, hrows⟩ := h
    exact hrows ▸ start.commits_covered

/-- The loop of `append_committed_rows_atomically` over the active table. -/
def appendRows (baseline : MutableTableAppendBaseline) (inserted : List Bytes)
    (data : TableMemoryData) (h : Rewinds baseline inserted data) :
    List StorageRow → Except TableRuntimeError Unit × TableMemoryData
  | [] => (.ok (), data)
  | row :: rows =>
    match hinsert : data.insertRow row with
    | .error err => (.error err, data.rollbackAppendedRows baseline inserted h)
    | .ok data' => appendRows baseline (inserted ++ [row.key]) data' (h.insertRow hinsert) rows

/-- A call on the table: one row, a batch that is taken back if it fails, or a freeze. -/
inductive Call where
  | insertRow (row : StorageRow)
  | appendRows (rows : List StorageRow)
  | freeze

/-- A call, with the rows it has appended. -/
def call (data : TableMemoryData) : Call → List StorageRow × TableMemoryData
  | .insertRow row =>
    match data.insertRow row with
    | .error _ => ([], data)
    | .ok data' => ([row], data')
  | .appendRows rows =>
    let (outcome, data) := appendRows data.appendBaseline [] data data.rewinds_appendBaseline rows
    (if outcome.toBool then rows else [], data)
  | .freeze => ([], (MutableTable.live data).freeze.table.data)

/-- A run of calls, with the rows of those that succeeded. -/
def run (data : TableMemoryData) : List Call → List StorageRow × TableMemoryData
  | [] => ([], data)
  | call :: calls =>
    let (rows, data) := data.call call
    let (later, data) := run data calls
    (rows ++ later, data)

/-- The entries below a sequence bound. -/
def rowsBelow (data : TableMemoryData) (bound : Nat) : List TableMemoryEntry :=
  data.rows.filter (·.sequence < bound)

/-- From one map to a later one with some rows appended: below the old sequence nothing has
changed. -/
structure Extends (appended : List StorageRow) (data data' : TableMemoryData) : Prop where
  le : data.nextSequence ≤ data'.nextSequence
  below : ∀ bound ≤ data.nextSequence, data'.rowsBelow bound = data.rowsBelow bound
  mem_iff : ∀ row, row ∈ data'.rows.map (·.row) ↔ row ∈ data.rows.map (·.row) ∨ row ∈ appended

theorem Extends.refl (data : TableMemoryData) : Extends [] data data :=
  ⟨le_rfl, fun _ _ => rfl, by simp⟩

theorem Extends.trans {appended later : List StorageRow} {data'' : TableMemoryData}
    (h : Extends appended data data') (h' : Extends later data' data'') :
    Extends (appended ++ later) data data'' where
  le := h.le.trans h'.le
  below bound hbound := (h'.below bound (hbound.trans h.le)).trans (h.below bound hbound)
  mem_iff row := by rw [h'.mem_iff, h.mem_iff, mem_append, or_assoc]

theorem extends_insertRow (h : data.insertRow row = .ok data') : Extends [row] data data' := by
  obtain ⟨-, hrows, hnext⟩ := insertRow_eq_ok h
  refine ⟨by omega, fun bound hbound => ?_, fun r => ?_⟩
  · rw [rowsBelow, hrows, insertEntry, filter_append, filter_cons_of_neg (by simpa using hbound),
      ← filter_append, takeWhile_append_dropWhile, rowsBelow]
  · simp only [hrows, mem_map, mem_insertEntry, mem_singleton]
    grind

/-- A batch appends all its rows, or none. -/
theorem extends_appendRows {start : TableMemoryData} {appended rows : List StorageRow}
    {outcome : Except TableRuntimeError Unit} (hextends : Extends appended start data)
    (hkept : data.rows.filter (·.row.key ∉ inserted) = start.rows)
    (h : Rewinds start.appendBaseline inserted data)
    (hrun : appendRows start.appendBaseline inserted data h rows = (outcome, data')) :
    Extends (if outcome.toBool then appended ++ rows else []) start data' := by
  induction rows generalizing data appended inserted with
  | nil =>
    cases hrun
    simpa using! hextends
  | cons row rows ih =>
    rw [appendRows] at hrun
    split at hrun
    · cases hrun
      have hrows : (data.rollbackAppendedRows _ _ h).rows = start.rows := hkept
      exact ⟨le_rfl, fun _ _ => congrArg (filter _) hrows, fun r => by simp [hrows, Except.toBool]⟩
    · rename_i hinsert
      simpa using ih (hextends.trans (extends_insertRow hinsert))
        ((filter_insertRow hinsert).trans hkept) (h.insertRow hinsert) hrun

theorem extends_call (data : TableMemoryData) (c : Call) : Extends (data.call c).1 data (data.call c).2 := by
  cases c with
  | insertRow row =>
    rw [call]
    split
    · exact .refl data
    · rename_i hinsert
      exact extends_insertRow hinsert
  | appendRows rows =>
    exact extends_appendRows (.refl data) (by simp) data.rewinds_appendBaseline rfl
  | freeze => exact .refl data

theorem extends_run (data : TableMemoryData) (calls : List Call) :
    Extends (data.run calls).1 data (data.run calls).2 := by
  induction calls generalizing data with
  | nil => exact .refl data
  | cons c calls ih => exact (data.extends_call c).trans (ih _)

end TableMemoryData

open TableMemoryData

/-- A view taken between calls holds exactly the rows of the calls that succeeded before it,
and its handle on the map of every later run sees the same rows, facts and point seeks. -/
theorem view_stable (before after : List Call) :
    let table := MutableTable.live (empty.run before).2
    let view := table.cloneForReadView
    (∀ row, row ∈ view.visibleRows ↔ row ∈ (empty.run before).1) ∧
    ∃ later : MutableTable, later.data = (table.data.run after).2 ∧
      later.sequenceUpperBound = view.sequenceUpperBound ∧ later.capturedFacts = view.capturedFacts ∧
      later.visibleRows = view.visibleRows ∧ later.facts = view.facts ∧ ∀ key maxVersion maxTimestamp,
      later.seekPreparedPoint (.new key maxVersion maxTimestamp) =
          view.seekPreparedPoint (.new key maxVersion maxTimestamp) := by
  intro table view
  obtain ⟨hle, hbelow, -⟩ := table.data.extends_run after
  refine ⟨fun row => ?_, ?_⟩
  · rw [MutableTable.cloneForReadView_visibleRows]
    simpa [MutableTable.visibleRows, table, MutableTable.live, entryVisible, empty] using
      (empty.extends_run before).mem_iff row
  · let later : MutableTable :=
      { data := (table.data.run after).2
        sequenceUpperBound := view.sequenceUpperBound
        capturedFacts := view.capturedFacts
        bound_le := by rintro _ ⟨rfl⟩; exact hle
        captured_iff := view.captured_iff
        captured_cover := by
          rintro _ ⟨rfl⟩ entry hentry hvisible
          have hmem : entry ∈ table.data.rowsBelow table.data.nextSequence :=
            hbelow _ le_rfl ▸ mem_filter.mpr ⟨hentry, hvisible⟩
          exact table.data.commits_covered entry (mem_of_mem_filter hmem) }
    have hrows : later.visibleRows = view.visibleRows := congrArg (·.map (·.row)) (hbelow _ le_rfl)
    refine ⟨later, rfl, rfl, rfl, hrows, rfl, fun key maxVersion maxTimestamp => ?_⟩
    rw [later.seekPreparedPoint_eq, view.seekPreparedPoint_eq, hrows]

end Strata
