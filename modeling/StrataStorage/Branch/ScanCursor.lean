import StrataStorage.Branch.ScanBounds
import StrataStorage.Branch.PointSearch
import StrataStorage.Table.Cursor

/-!
# Scan cursors

The cursors a scan of `branch/read.rs` merges: one over the active table, one
over each frozen table and each table of level zero, and one over each deeper
level, which opens the tables of the level one after another and skips those
beside the bounds. A cursor over an inherited layer shows its rows under the
key they have in the inheriting branch.

`BranchScanCursor.Yields` says what a merge sees of a cursor: the keys it shows
and the candidates it offers, one row after another.

* `BranchScanCursor.yields_refresh`: once sought to its first row, a cursor yields the rows
  it has, each in turn;
* `seekToFirst_nonzeroLevel`: a level cursor has the
  rows in bounds of all the tables of its level.
-/

namespace Strata

open Except List

inductive BranchScanCursorSource where
  | active
  | frozen (index : Nat)
  | ownedTable (level : BranchLevel) (tableIndex : Nat)
  | inherited (sourceBranchId : BranchId) (layerIndex : Nat) (childBranchId : BranchId)
  deriving DecidableEq

namespace BranchScanCursorSource

/-- The key a row is merged under, of `compute_current_logical_key`. -/
def logicalKey (source : BranchScanCursorSource) (row : StorageRow) : Except BranchRuntimeError Bytes :=
  match source with
  | inherited sourceBranchId _ childBranchId => do
    let key ← (rewritePhysicalKeyBranch row.physicalKey childBranchId).mapError fun _ =>
      .invalidInheritedLayer "inherited scan key branch rewrite failed"
    if key.branchId = sourceBranchId then
      .error (.invalidInheritedLayer "inherited scan key rewrite did not change branch")
    else .ok (encodePhysicalKey key)
  | _ => .ok row.physicalKeyBytes

/-- The candidate a row is offered as, of `current_candidate`. -/
def candidateRow (source : BranchScanCursorSource) (row : StorageRow) : Except BranchRuntimeError CandidateRow :=
  match source with
  | active => .ok ⟨row, .active⟩
  | frozen index => .ok ⟨row, .frozen index⟩
  | ownedTable level tableIndex => .ok ⟨row, .ownedTable level tableIndex⟩
  | inherited sourceBranchId layerIndex childBranchId => do
    let row ← (rewriteRowBranch row sourceBranchId childBranchId).mapError fun _ =>
      .invalidInheritedLayer "inherited scan row branch rewrite failed"
    .ok ⟨row, .inherited sourceBranchId layerIndex⟩

end BranchScanCursorSource

/-! ## A level as one cursor -/

inductive BranchNonzeroLevelScanSource where
  | owned (level : BranchLevel)
  | inherited (sourceBranchId : BranchId) (layerIndex : Nat) (childBranchId : BranchId)
  deriving DecidableEq

/-- The source of the rows of a table of the level, of `current_source`. -/
def BranchNonzeroLevelScanSource.cursorSource (source : BranchNonzeroLevelScanSource)
    (tableIndex : Nat) : BranchScanCursorSource :=
  match source with
  | owned level => .ownedTable level tableIndex
  | inherited sourceBranchId layerIndex childBranchId =>
    .inherited sourceBranchId layerIndex childBranchId

def nonzeroTableSealedAtOrBelow (table : BranchOwnedTable) (afterVersion : Option CommitVersion) :
    Bool := afterVersion.any (table.facts.commitMax ≤ ·)

/-- `nonzero_table_overlaps_scan_bounds`; the second check is not made when the
first already answers. -/
def nonzeroTableOverlapsScanBounds (table : BranchOwnedTable) (bounds : TableKeyBounds) :
    Except BranchRuntimeError Bool := do
  let before ← nonzeroTableIsBeforeScanBounds table bounds
  if before then .ok false
  else
    let after ← nonzeroTableIsAfterScanBounds table bounds
    .ok !after

/-- The comparison of the bisection of a level. -/
def tableAtIsBeforeScanBounds (tables : List BranchOwnedTable) (bounds : TableKeyBounds)
    (mid : Nat) : Except BranchRuntimeError Bool :=
  tables[mid]?.elim (.ok false) (nonzeroTableIsBeforeScanBounds · bounds)

def firstNonzeroLevelScanTableIndex (tables : List BranchOwnedTable) (bounds : TableKeyBounds) :
    Except BranchRuntimeError (Option Nat) := do
  if tables = [] then .ok none
  else
    let low ← bisectLower (tableAtIsBeforeScanBounds tables bounds) tables.length 0 tables.length
    match tables[low]? with
    | none => .ok none
    | some table =>
      let after ← nonzeroTableIsAfterScanBounds table bounds
      .ok (if after then none else some low)

def ImmutableTableReader.boundedCursor (reader : ImmutableTableReader) (bounds : TableKeyBounds) :
    BoundedTableCursor := .new (.immutable (.new reader (some bounds))) bounds

/-- The table a level cursor has open, with a cursor at one of its rows. -/
structure OpenTable where
  index : Nat
  cursor : BoundedTableCursor
  current_isSome : (Cursor.current cursor).isSome = true

/-- The loop of `open_next_table`, from the table at `index` on. A table behind
the bounds ends it. -/
def openTables (bounds : TableKeyBounds) (afterVersion : Option CommitVersion) :
    Nat → List BranchOwnedTable → Except BranchRuntimeError (Option OpenTable)
  | _, [] => .ok none
  | index, table :: tables => do
    let after ← nonzeroTableIsAfterScanBounds table bounds
    if after then .ok none
    else
      let overlaps ← nonzeroTableOverlapsScanBounds table bounds
      if !overlaps then openTables bounds afterVersion (index + 1) tables
      else if nonzeroTableSealedAtOrBelow table afterVersion then
        openTables bounds afterVersion (index + 1) tables
      else if h : (Cursor.current (table.reader.boundedCursor bounds).seekToFirst).isSome then
        .ok (some ⟨index, (table.reader.boundedCursor bounds).seekToFirst, h⟩)
      else openTables bounds afterVersion (index + 1) tables

/-- `BranchNonzeroLevelScanCursor`. The next table to open is the one behind the
open table. -/
structure BranchNonzeroLevelScanCursor where
  tables : List BranchOwnedTable
  bounds : TableKeyBounds
  source : BranchNonzeroLevelScanSource
  firstTableIndex : Nat
  afterVersion : Option CommitVersion
  openTable : Option OpenTable

namespace BranchNonzeroLevelScanCursor

def seekToFirst (cursor : BranchNonzeroLevelScanCursor) :
    Except BranchRuntimeError BranchNonzeroLevelScanCursor := do
  let openTable ← openTables cursor.bounds cursor.afterVersion cursor.firstTableIndex
    (cursor.tables.drop cursor.firstTableIndex)
  .ok { cursor with openTable }

def advance (cursor : BranchNonzeroLevelScanCursor) : Except BranchRuntimeError BranchNonzeroLevelScanCursor :=
  match cursor.openTable with
  | none => .ok cursor
  | some table =>
    if h : (Cursor.current (Cursor.advance table.cursor)).isSome then
      .ok { cursor with openTable := some ⟨table.index, Cursor.advance table.cursor, h⟩ }
    else do
      let openTable ← openTables cursor.bounds cursor.afterVersion (table.index + 1)
        (cursor.tables.drop (table.index + 1))
      .ok { cursor with openTable }

end BranchNonzeroLevelScanCursor

/-! ## Scan cursors -/

inductive BranchScanCursorKind where
  | singleTable (cursor : BoundedTableCursor) (source : BranchScanCursorSource)
  | nonzeroLevel (cursor : BranchNonzeroLevelScanCursor)

namespace BranchScanCursorKind

/-- The row a cursor stands at and its source: `current_row` and
`current_source`. -/
def current : BranchScanCursorKind → Option (StorageRow × BranchScanCursorSource)
  | singleTable cursor source => (Cursor.current cursor).map (·, source)
  | nonzeroLevel cursor => cursor.openTable.bind fun table =>
      (Cursor.current table.cursor).map (·, cursor.source.cursorSource table.index)

def seekToFirst : BranchScanCursorKind → Except BranchRuntimeError BranchScanCursorKind
  | singleTable cursor source => .ok (singleTable cursor.seekToFirst source)
  | nonzeroLevel cursor => cursor.seekToFirst.map nonzeroLevel

def advance : BranchScanCursorKind → Except BranchRuntimeError BranchScanCursorKind
  | singleTable cursor source => .ok (singleTable (Cursor.advance cursor) source)
  | nonzeroLevel cursor => cursor.advance.map nonzeroLevel

end BranchScanCursorKind

structure BranchScanCursor where
  kind : BranchScanCursorKind
  effectiveBound : BranchEffectiveReadBound
  currentLogicalKey : Option Bytes

namespace BranchScanCursor

/-- `BranchScanCursor::new` and `nonzero_level`. -/
def new (kind : BranchScanCursorKind) (effectiveBound : BranchEffectiveReadBound) :
    BranchScanCursor := ⟨kind, effectiveBound, none⟩

def computeCurrentLogicalKey (kind : BranchScanCursorKind) : Except BranchRuntimeError (Option Bytes) :=
  match kind.current with
  | none => .ok none
  | some (row, source) => (source.logicalKey row).map some

/-- `refresh_current_logical_key`, of a cursor that has moved. -/
def refresh (kind : BranchScanCursorKind) (effectiveBound : BranchEffectiveReadBound) :
    Except BranchRuntimeError BranchScanCursor := do
  let currentLogicalKey ← computeCurrentLogicalKey kind
  .ok ⟨kind, effectiveBound, currentLogicalKey⟩

def seekToFirst (cursor : BranchScanCursor) : Except BranchRuntimeError BranchScanCursor := do
  let kind ← cursor.kind.seekToFirst
  refresh kind cursor.effectiveBound

def advance (cursor : BranchScanCursor) : Except BranchRuntimeError BranchScanCursor := do
  let kind ← cursor.kind.advance
  refresh kind cursor.effectiveBound

def currentCandidate (cursor : BranchScanCursor) : Except BranchRuntimeError (Option CandidateRow) :=
  match cursor.kind.current with
  | none => .ok none
  | some (row, source) =>
    if !cursor.effectiveBound.matchesRow row then .ok none
    else (source.candidateRow row).map some

end BranchScanCursor

/-! ## What a cursor yields -/

/-- What a merge sees of a cursor at a row: the key, and the candidate if the
row is within the cursor's bound. -/
structure ScanEntry where
  key : Bytes
  candidate : Option CandidateRow

namespace BranchScanCursorSource

/-- The row as a row of the branch that is read. -/
def shownRow (source : BranchScanCursorSource) (row : StorageRow) : StorageRow :=
  match source with
  | inherited _ _ childBranchId => row.withBranch childBranchId
  | _ => row

def rowSource : BranchScanCursorSource → BranchRowSource
  | active => .active
  | frozen index => .frozen index
  | ownedTable level tableIndex => .ownedTable level tableIndex
  | inherited sourceBranchId layerIndex _ => .inherited sourceBranchId layerIndex

/-- The row belongs to the layer's source branch, which is another branch than
the one that is read. -/
def Admits (source : BranchScanCursorSource) (row : StorageRow) : Prop :=
  match source with
  | inherited sourceBranchId _ childBranchId =>
    row.physicalKey.branchId = sourceBranchId ∧ childBranchId ≠ sourceBranchId
  | _ => True

def entry (source : BranchScanCursorSource) (bound : BranchEffectiveReadBound) (row : StorageRow) : ScanEntry where
  key := (source.shownRow row).physicalKeyBytes
  candidate := if bound.matchesRow row then some ⟨source.shownRow row, source.rowSource⟩ else none

variable {source : BranchScanCursorSource} {row : StorageRow}

theorem logicalKey_eq (h : source.Admits row) :
    source.logicalKey row = .ok (source.shownRow row).physicalKeyBytes := by
  cases source with
  | inherited sourceBranchId layerIndex child =>
    have hne : (row.physicalKey.withBranch child).branchId ≠ sourceBranchId := h.2
    simp only [logicalKey, rewritePhysicalKeyBranch_eq, Except.mapError, Except.ok_bind, if_neg hne]
    rfl
  | _ => rfl

theorem candidateRow_eq (h : source.Admits row) :
    source.candidateRow row = .ok ⟨source.shownRow row, source.rowSource⟩ := by
  cases source with
  | inherited sourceBranchId layerIndex child =>
    rw [candidateRow, rewriteRowBranch_eq h.1]
    rfl
  | _ => rfl

end BranchScanCursorSource

/-- The merge's view of a cursor that has moved. -/
inductive BranchScanCursor.Yields : BranchScanCursor → List ScanEntry → Prop
  | done {cursor : BranchScanCursor} (hkey : cursor.currentLogicalKey = none) : Yields cursor []
  | row {cursor next : BranchScanCursor} {entry : ScanEntry} {entries : List ScanEntry}
    (hkey : cursor.currentLogicalKey = some entry.key)
    (hcandidate : cursor.currentCandidate = .ok entry.candidate)
    (hadvance : cursor.advance = .ok next) (hnext : Yields next entries) :
    Yields cursor (entry :: entries)

/-! ## The rows of a level -/

/-- The rows in bounds of the tables of a level, from the table at `index` on,
without the tables a watermark seals off. -/
def levelRows (source : BranchNonzeroLevelScanSource) (bounds : TableKeyBounds)
    (afterVersion : Option CommitVersion) (index : Nat) (tables : List BranchOwnedTable) :
    List (StorageRow × BranchScanCursorSource) :=
  (tables.zipIdx index).flatMap fun (table, i) =>
    if nonzeroTableSealedAtOrBelow table afterVersion then []
    else (table.rows.filter (bounds.containsKey ·.key)).map (·, source.cursorSource i)

/-- The rows a level cursor has left: those of the open table and those of the
tables behind it. -/
def BranchNonzeroLevelScanCursor.rows (cursor : BranchNonzeroLevelScanCursor) :
    List (StorageRow × BranchScanCursorSource) :=
  match cursor.openTable with
  | none => []
  | some table =>
    (Cursor.rest table.cursor).map (·, cursor.source.cursorSource table.index) ++
      levelRows cursor.source cursor.bounds cursor.afterVersion (table.index + 1)
        (cursor.tables.drop (table.index + 1))

section Level

variable {scan : BranchScanBounds} {branchId : BranchId} {table : BranchOwnedTable}
  {tables : List BranchOwnedTable} {source : BranchNonzeroLevelScanSource}
  {afterVersion : Option CommitVersion} {index : Nat} {bounds : TableKeyBounds}

@[simp] theorem tableFactPhysicalKeyBounds_eq (table : BranchOwnedTable) :
    tableFactPhysicalKeyBounds table = .ok (table.firstPhysical, table.lastPhysical) := by
  obtain ⟨first, -, last, -, hfirst, hlast⟩ := table.reader.exists_first_last
  simp [tableFactPhysicalKeyBounds, BranchOwnedTable.facts, BranchOwnedTable.firstPhysical,
    BranchOwnedTable.lastPhysical, hfirst, hlast, Except.mapError]

@[simp] theorem nonzeroTableIsBeforeScanBounds_eq (table : BranchOwnedTable)
    (bounds : TableKeyBounds) : nonzeroTableIsBeforeScanBounds table bounds =
      .ok (lastIsBeforeScanBounds table.lastPhysical bounds) := by
  simp [nonzeroTableIsBeforeScanBounds]

@[simp] theorem nonzeroTableIsAfterScanBounds_eq (table : BranchOwnedTable)
    (bounds : TableKeyBounds) : nonzeroTableIsAfterScanBounds table bounds =
      .ok (firstIsAfterScanBounds table.firstPhysical bounds) := by
  simp [nonzeroTableIsAfterScanBounds]

theorem filter_rows_eq_nil_of_before
    (h : lastIsBeforeScanBounds table.lastPhysical (scan.tableBounds branchId) = true) :
    table.rows.filter ((scan.tableBounds branchId).containsKey ·.key) = [] :=
  filter_eq_nil_iff.mpr fun row hrow => by
    simp [scan.containsKey_eq_false_of_before branchId h (table.le_lastPhysical hrow)]

theorem filter_rows_eq_nil_of_after {first : Bytes}
    (h : firstIsAfterScanBounds first (scan.tableBounds branchId) = true)
    (hle : first ≤ table.firstPhysical) :
    table.rows.filter ((scan.tableBounds branchId).containsKey ·.key) = [] :=
  filter_eq_nil_iff.mpr fun row hrow => by
    simp [scan.containsKey_eq_false_of_after branchId h (hle.trans (table.firstPhysical_le hrow))]

theorem levelRows_cons : levelRows source bounds afterVersion index (table :: tables) =
    (if nonzeroTableSealedAtOrBelow table afterVersion then []
      else (table.rows.filter (bounds.containsKey ·.key)).map (·, source.cursorSource index)) ++
    levelRows source bounds afterVersion (index + 1) tables := by
  rfl

/-- A table without rows in bounds adds nothing. -/
theorem levelRows_cons_of_filter_eq_nil (h : table.rows.filter (bounds.containsKey ·.key) = []) :
    levelRows source bounds afterVersion index (table :: tables) =
      levelRows source bounds afterVersion (index + 1) tables := by
  rw [levelRows_cons, h, map_nil, ite_self, nil_append]

theorem levelRows_eq_nil (h : ∀ table ∈ tables, table.rows.filter (bounds.containsKey ·.key) = []) :
    levelRows source bounds afterVersion index tables = [] := by
  induction tables generalizing index with
  | nil => rfl
  | cons table tables ih =>
    rw [levelRows_cons_of_filter_eq_nil (h table mem_cons_self), ih fun t ht => h t (mem_cons_of_mem _ ht)]

/-- The tables of a level behind one that is after the bounds are after them
too. -/
theorem levelRows_eq_nil_of_after (hdisjoint : DisjointTables (table :: tables))
    (h : firstIsAfterScanBounds table.firstPhysical (scan.tableBounds branchId) = true) :
    levelRows source (scan.tableBounds branchId) afterVersion index (table :: tables) = [] := by
  refine levelRows_eq_nil fun t ht => filter_rows_eq_nil_of_after h ?_
  rcases mem_cons.mp ht with rfl | ht
  · exact le_rfl
  · exact table.firstPhysical_le_lastPhysical.trans (rel_of_pairwise_cons hdisjoint ht).le

theorem rest_boundedCursor (reader : ImmutableTableReader) (bounds : TableKeyBounds) :
    Cursor.rest (reader.boundedCursor bounds).seekToFirst = reader.rows.filter (bounds.containsKey ·.key) := by
  have hhint : (reader.boundedCursor bounds).inner.HintIs bounds := fun _ hmem => (Option.some.inj hmem).symm
  exact BoundedTableCursor.rest_seekToFirst hhint

/-- Opening tables loses none of the rows in bounds. -/
theorem openTables_spec {cursor : BranchNonzeroLevelScanCursor}
    (hbounds : cursor.bounds = scan.tableBounds branchId) (hdisjoint : DisjointTables tables)
    (hdrop : cursor.tables.drop index = tables) :
    ∃ opened, openTables cursor.bounds cursor.afterVersion index tables = .ok opened ∧
      { cursor with openTable := opened }.rows =
        levelRows cursor.source cursor.bounds cursor.afterVersion index tables := by
  induction tables generalizing index with
  | nil => exact ⟨none, rfl, rfl⟩
  | cons table tables ih =>
    have hdrop' : cursor.tables.drop (index + 1) = tables := by
      rw [← drop_drop, hdrop, drop_one, tail_cons]
    obtain ⟨opened, hopen, hrows⟩ := ih (pairwise_cons.mp hdisjoint).2 hdrop'
    rw [openTables, nonzeroTableIsAfterScanBounds_eq, ok_bind]
    cases hafter : firstIsAfterScanBounds table.firstPhysical cursor.bounds with
    | true =>
      rw [hbounds] at hafter ⊢
      exact ⟨none, rfl, (levelRows_eq_nil_of_after hdisjoint hafter).symm⟩
    | false =>
      simp only [Bool.false_eq_true, if_false, nonzeroTableOverlapsScanBounds,
        nonzeroTableIsBeforeScanBounds_eq, nonzeroTableIsAfterScanBounds_eq, ok_bind, hafter]
      cases hbefore : lastIsBeforeScanBounds table.lastPhysical cursor.bounds with
      | true =>
        refine ⟨opened, by simpa using hopen, ?_⟩
        rw [hrows, levelRows_cons_of_filter_eq_nil]
        rw [hbounds] at hbefore ⊢
        exact filter_rows_eq_nil_of_before hbefore
      | false =>
        have hrest := rest_boundedCursor table.reader cursor.bounds
        cases hsealed : nonzeroTableSealedAtOrBelow table cursor.afterVersion with
        | true =>
          exact ⟨opened, by simpa using hopen, by rw [hrows, levelRows_cons, hsealed]; rfl⟩
        | false =>
          simp only [Bool.false_eq_true, if_false]
          split_ifs with hnone
          · refine ⟨_, rfl, ?_⟩
            rw [levelRows_cons, hsealed, BranchNonzeroLevelScanCursor.rows]
            simp only [hrest, hdrop']
            rfl
          · rw [Cursor.current_eq, isSome_head?, hrest] at hnone
            have hnil : table.rows.filter (cursor.bounds.containsKey ·.key) = [] := by
              simpa [BranchOwnedTable.rows] using hnone
            exact ⟨opened, hopen, by rw [hrows, levelRows_cons_of_filter_eq_nil hnil]⟩

theorem levelRows_append {before : List BranchOwnedTable} :
    levelRows source bounds afterVersion index (before ++ tables) =
      levelRows source bounds afterVersion index before ++
        levelRows source bounds afterVersion (index + before.length) tables := by
  rw [levelRows, zipIdx_append, flatMap_append, levelRows, levelRows, Nat.add_comm]

variable (scan branchId) in
/-- The bisection for the first table of a level skips only tables before the
bounds. -/
theorem firstNonzeroLevelScanTableIndex_spec (hdisjoint : DisjointTables tables)
    (source : BranchNonzeroLevelScanSource) (afterVersion : Option CommitVersion) :
    ∃ found, firstNonzeroLevelScanTableIndex tables (scan.tableBounds branchId) = .ok found ∧
      found.elim [] (fun first => levelRows source (scan.tableBounds branchId) afterVersion first
        (tables.drop first)) =
      levelRows source (scan.tableBounds branchId) afterVersion 0 tables := by
  unfold firstNonzeroLevelScanTableIndex
  split_ifs with hnil
  · exact ⟨none, rfl, by rw [hnil]; rfl⟩
  · have hmono : ∀ i j, 0 ≤ i → i ≤ j → j < tables.length →
        tables[j]?.elim false (fun t => lastIsBeforeScanBounds t.lastPhysical (scan.tableBounds branchId)) = true →
        tables[i]?.elim false (fun t => lastIsBeforeScanBounds t.lastPhysical
          (scan.tableBounds branchId)) = true := by
      intro i j _ hij hj h
      have hi : i < tables.length := by omega
      rw [List.getElem?_eq_getElem hj] at h
      rw [List.getElem?_eq_getElem hi]
      refine lastIsBeforeScanBounds_mono h ?_
      rcases Nat.lt_or_eq_of_le hij with hlt | rfl
      · exact (List.pairwise_iff_getElem.mp hdisjoint i j hi hj hlt).le.trans
          tables[j].firstPhysical_le_lastPhysical
      · exact le_rfl
    have hprobe : ∀ i, 0 ≤ i → i < tables.length → tableAtIsBeforeScanBounds tables (scan.tableBounds branchId) i =
          .ok (tables[i]?.elim false fun t => lastIsBeforeScanBounds t.lastPhysical
            (scan.tableBounds branchId)) := by
      intro i _ hi
      rw [tableAtIsBeforeScanBounds, List.getElem?_eq_getElem hi]
      exact nonzeroTableIsBeforeScanBounds_eq _ _
    have hfuel : tables.length - 0 ≤ tables.length := Nat.sub_le _ _
    obtain ⟨low, hlow, -, hle, hbelow, -⟩ := bisectLower_eq_ok hprobe hmono (Nat.zero_le _) hfuel
    rw [hlow, Except.ok_bind]
    have hskip : levelRows source (scan.tableBounds branchId) afterVersion 0 tables =
        levelRows source (scan.tableBounds branchId) afterVersion low (tables.drop low) := by
      nth_rewrite 1 [← List.take_append_drop low tables]
      rw [levelRows_append, levelRows_eq_nil fun t ht => ?_, List.length_take_of_le hle,
        List.nil_append, Nat.zero_add]
      obtain ⟨i, hi, rfl⟩ := List.mem_iff_getElem.mp ht
      have hi' : i < low := by simp only [List.length_take] at hi; omega
      refine filter_rows_eq_nil_of_before ?_
      have := hbelow i (Nat.zero_le i) hi'
      rw [List.getElem?_eq_getElem (by omega)] at this
      rw [List.getElem_take]
      exact this
    rw [hskip]
    cases htable : tables[low]? with
    | none =>
      refine ⟨none, rfl, ?_⟩
      rw [List.drop_eq_nil_of_le (List.getElem?_eq_none_iff.mp htable)]
      rfl
    | some table =>
      obtain ⟨hlt, htable⟩ := List.getElem?_eq_some_iff.mp htable
      simp only [nonzeroTableIsAfterScanBounds_eq, Except.ok_bind]
      cases hafter : firstIsAfterScanBounds table.firstPhysical (scan.tableBounds branchId) with
      | false => exact ⟨some low, rfl, rfl⟩
      | true =>
        refine ⟨none, rfl, ?_⟩
        have hdrop : tables.drop low = table :: tables.drop (low + 1) := by
          rw [List.drop_eq_getElem_cons hlt, htable]
        rw [hdrop]
        exact (levelRows_eq_nil_of_after (hdrop ▸ hdisjoint.sublist (List.drop_sublist low tables)) hafter).symm

end Level

/-! ## The rows of a cursor -/
variable (kind : BranchScanCursorKind)

namespace BranchScanCursorKind

/-- The rows a cursor has left, with their sources. -/
def rows : BranchScanCursorKind → List (StorageRow × BranchScanCursorSource)
  | singleTable cursor source => (Cursor.rest cursor).map (·, source)
  | nonzeroLevel cursor => cursor.rows

/-- A level cursor is over a level of the branch or of a layer, at the bounds
of a scan. -/
def Valid : BranchScanCursorKind → Prop
  | singleTable _ _ => True
  | nonzeroLevel cursor => DisjointTables cursor.tables ∧
      ∃ (scan : BranchScanBounds) (branchId : BranchId), cursor.bounds = scan.tableBounds branchId

theorem current_eq : kind.current = kind.rows.head? := by
  cases kind with
  | singleTable cursor source => rw [current, rows, head?_map, Cursor.current_eq]
  | nonzeroLevel cursor =>
    rw [current, rows, BranchNonzeroLevelScanCursor.rows]
    cases cursor.openTable with
    | none => rfl
    | some table =>
      obtain ⟨row, hrow⟩ := Option.isSome_iff_exists.mp table.current_isSome
      simp [hrow, Cursor.rest_eq_cons hrow]

/-- To advance is to drop the first row left. -/
theorem advance_spec {kind : BranchScanCursorKind} (h : kind.Valid) :
    ∃ next, kind.advance = .ok next ∧ next.Valid ∧ next.rows = kind.rows.tail := by
  cases kind with
  | singleTable cursor source =>
    exact ⟨_, rfl, trivial, by rw [rows, rows, Cursor.rest_advance, map_tail]⟩
  | nonzeroLevel cursor =>
    obtain ⟨hdisjoint, scan, branchId, hbounds⟩ := h
    rw [advance, BranchNonzeroLevelScanCursor.advance, rows, BranchNonzeroLevelScanCursor.rows]
    cases hopen : cursor.openTable with
    | none =>
      refine ⟨_, rfl, ⟨hdisjoint, scan, branchId, hbounds⟩, ?_⟩
      rw [rows, BranchNonzeroLevelScanCursor.rows, hopen]
      rfl
    | some table =>
      obtain ⟨row, hrow⟩ := Option.isSome_iff_exists.mp table.current_isSome
      simp only [Cursor.rest_eq_cons hrow, map_cons, cons_append, tail_cons]
      split_ifs with hnone
      · exact ⟨_, rfl, ⟨hdisjoint, scan, branchId, hbounds⟩, rfl⟩
      · obtain ⟨opened, hopen, hrows⟩ := openTables_spec hbounds
          (hdisjoint.sublist (drop_sublist (table.index + 1) _)) rfl
        rw [hopen]
        refine ⟨_, rfl, ⟨hdisjoint, scan, branchId, hbounds⟩, ?_⟩
        rw [Cursor.current_eq, isSome_head?] at hnone
        rw [rows, hrows, show Cursor.rest (Cursor.advance table.cursor) = [] by simpa using hnone]
        rfl

theorem seekToFirst_nonzeroLevel (cursor : BranchNonzeroLevelScanCursor) (h : (nonzeroLevel cursor).Valid) :
    ∃ next, (nonzeroLevel cursor).seekToFirst = .ok next ∧ next.Valid ∧
      next.rows = levelRows cursor.source cursor.bounds cursor.afterVersion cursor.firstTableIndex
        (cursor.tables.drop cursor.firstTableIndex) := by
  obtain ⟨hdisjoint, scan, branchId, hbounds⟩ := h
  obtain ⟨opened, hopen, hrows⟩ := openTables_spec hbounds
    (hdisjoint.sublist (drop_sublist cursor.firstTableIndex _)) rfl
  rw [seekToFirst, BranchNonzeroLevelScanCursor.seekToFirst, hopen]
  exact ⟨_, rfl, ⟨hdisjoint, scan, branchId, hbounds⟩, hrows⟩

end BranchScanCursorKind

/-- A cursor that has moved yields the rows it has left. -/
theorem BranchScanCursor.yields_refresh (hvalid : kind.Valid)
    (hadmits : ∀ p ∈ kind.rows, p.2.Admits p.1) (bound : BranchEffectiveReadBound) :
    ∃ cursor, refresh kind bound = .ok cursor ∧ cursor.Yields (kind.rows.map fun p => p.2.entry bound p.1) := by
  generalize hrows : kind.rows = rows at hadmits
  induction rows generalizing kind with
  | nil =>
    have hcurrent : kind.current = none := by rw [kind.current_eq, hrows]; rfl
    exact ⟨⟨kind, bound, none⟩, by rw [refresh, computeCurrentLogicalKey, hcurrent]; rfl, .done rfl⟩
  | cons p rows ih =>
    obtain ⟨row, source⟩ := p
    have hcurrent : kind.current = some (row, source) := by rw [kind.current_eq, hrows]; rfl
    have hrow : source.Admits row := hadmits _ mem_cons_self
    obtain ⟨kind', hadvance, hvalid', hrows'⟩ := kind.advance_spec hvalid
    obtain ⟨next, hnext, hyields⟩ := ih kind' hvalid' (by rw [hrows', hrows]; rfl)
      fun q hq => hadmits q (mem_cons_of_mem _ hq)
    refine ⟨⟨kind, bound, some (source.shownRow row).physicalKeyBytes⟩, ?_, .row rfl ?_ ?_ hyields⟩
    · rw [refresh, computeCurrentLogicalKey, hcurrent]
      dsimp only
      rw [source.logicalKey_eq hrow]
      rfl
    · rw [currentCandidate, hcurrent]
      dsimp only
      rw [source.candidateRow_eq hrow, BranchScanCursorSource.entry]
      cases bound.matchesRow row <;> rfl
    · rw [advance, hadvance]
      exact hnext

/-- The bounds of a scan hold exactly the internal keys it asks for, at every
version. A cursor bounded by them shows the rows in bounds of its source in
order, and leaves every row above the end of the scan unread. -/
theorem scanBounds_exact (bounds : BranchScanBounds) (branchId : BranchId) :
    ∃ table, bounds.tableKeyBoundsForBranch branchId = .ok table ∧
      (∀ key : InternalKey, table.containsKey (encodeInternalKey key) = true ↔
        bounds.ContainsIn branchId key.physicalKey) ∧
      ∀ source : TableCursor, source.HintIs table → ∀ n,
        let cursor := Cursor.advance^[n] (BoundedTableCursor.new source table).seekToFirst
        Cursor.current cursor = (source.rows.filter (table.containsKey ·.key))[n]? ∧
        ∀ row ∈ Cursor.rest (table.lowerSeekKey.elim source.seekToFirst source.seek),
          bounds.EndsBelow branchId row.physicalKeyBytes → row ∈ Cursor.rest cursor.inner := by
  refine ⟨_, bounds.tableKeyBoundsForBranch_eq branchId, fun key => ?_, fun source hhint n => ?_⟩
  · have := bounds.containsKey_tableBounds branchId (.tombstone key.physicalKey key.commitVersion 0)
    rw [← decide_eq_true_iff (p := bounds.ContainsIn _ _)]
    exact Bool.eq_iff_iff.mp this
  · refine ⟨?_, fun row hrow habove => ?_⟩
    · rw [Cursor.current_iterate_advance]
      exact congrArg (·[n]?) (BoundedTableCursor.rest_seekToFirst hhint)
    · have hpast := bounds.isPastUpperBound_of_endsBelow branchId habove
      obtain ⟨hbounds, hrow⟩ := (BoundedTableCursor.new source _).mem_rest_seekToFirst hpast hrow
      exact BoundedTableCursor.mem_rest_iterate_advance (hbounds ▸ hpast) hrow n

namespace Sample

theorem scanSpace_valid : validateScanSpace branch "s" ⟨1, one_ne_zero⟩ = .ok () :=
  validateScanSpace_eq_ok.mpr space_valid

/-- The keys from `2` up to `3`, `3` left out. -/
def second : BranchScanBounds :=
  ⟨branch, "s", ⟨1, one_ne_zero⟩, none, .included [2], .excluded [3], scanSpace_valid, rfl⟩

/-- A table with a row before the bounds, one in them and one behind them. -/
theorem scanBounds_exact_second : ∃ table, second.tableKeyBoundsForBranch branch = .ok table ∧
    let cursor := (BoundedTableCursor.new (.immutable (.new ownTable.reader (some table))) table).seekToFirst
    Cursor.current cursor = some (cell branch 2 3) ∧ Cursor.current (Cursor.advance cursor) = none ∧
      cell branch 3 1 ∈ Cursor.rest (Cursor.advance cursor).inner := by
  obtain ⟨table, htable, -, hcursor⟩ := scanBounds_exact second branch
  obtain rfl : table = second.tableBounds branch :=
    (Except.ok.inj (second.tableKeyBoundsForBranch_eq branch)).symm.trans (Except.ok.inj htable) |>.symm
  have hrows := hcursor (.immutable (.new ownTable.reader (some (second.tableBounds branch))))
    fun _ hmem => (Option.some.inj hmem).symm
  have habove : second.EndsBelow branch (cell branch 3 1).physicalKeyBytes := .inl ⟨rfl, le_rfl⟩
  refine ⟨_, htable, (hrows 0).1.trans (by decide +kernel), (hrows 1).1.trans (by decide +kernel), ?_⟩
  exact (hrows 1).2 (cell branch 3 1) (by decide +kernel) habove

end Sample

end Strata
