import StrataStorage.Branch.Layout

/-!
# What a branch holds

The meaning of a branch, free of memtables, levels and layers: the list of the
rows a read of it may return, in the order in which its sources take
precedence. Rows of an inherited layer count up to the layer's fork version and
as rows of the inheriting branch. A read at a bound picks the newest row of its
key within the bound (`newestRow`), and shows it unless it is a tombstone or
expired (`visibleRow`); `newestRow_eq_some_of_agree` says that where rows with
equal internal keys are equal, only the set of rows counts.
-/

namespace Strata

open BranchEffectiveReadBound List Function BranchEffectiveReadBound

def rowIsExpiredAt (row : StorageRow) (readTimestamp : Option Timestamp) : Bool :=
  readTimestamp.any fun timestamp =>
    !row.isTombstone && decide (row.expiresAt ≠ Timestamp.epoch) && decide (row.expiresAt ≤ timestamp)

/-- The rows of a key within a bound. -/
def rowsWithin (rows : List StorageRow) (key : PhysicalKey) (bound : BranchReadBound) : List StorageRow :=
  rows.filter (Satisfies key (forOwnBranch bound).maxCommitVersion (forOwnBranch bound).maxCommitTimestamp)

/-- The row an exhaustive search finds: the first of greatest commit version
among the rows of the key within the bound. -/
def newestRow (rows : List StorageRow) (key : PhysicalKey) (bound : BranchReadBound) : Option StorageRow :=
  (rowsWithin rows key bound).argmax (·.commitVersion)

/-- The timestamp at which a bound asks for expiry. -/
def BranchReadBound.readTimestamp (bound : BranchReadBound) : Option Timestamp :=
  (forOwnBranch bound).maxCommitTimestamp

/-- What the search shows: the newest row, if it is neither a tombstone nor
expired. -/
def visibleRow (rows : List StorageRow) (key : PhysicalKey) (bound : BranchReadBound) : Option StorageRow :=
  (newestRow rows key bound).filter fun row => !row.isTombstone && !rowIsExpiredAt row bound.readTimestamp

/-- Rows with equal internal keys are equal. -/
def RowsAgree (rows : List StorageRow) : Prop :=
  ∀ a ∈ rows, ∀ b ∈ rows, a.internalKey = b.internalKey → a = b

instance (rows : List StorageRow) : Decidable (RowsAgree rows) :=
  inferInstanceAs (Decidable (∀ a ∈ rows, ∀ b ∈ rows, a.internalKey = b.internalKey → a = b))

/-! ## Sources -/

inductive BranchRowSource where
  | active
  | frozen (index : Nat)
  | ownedTable (level : BranchLevel) (tableIndex : Nat)
  | inherited (sourceBranchId : BranchId) (layerIndex : Nat)
  deriving DecidableEq

/-- `CandidateRow`: a row and the source it was read from. -/
structure CandidateRow where
  row : StorageRow
  source : BranchRowSource
  deriving DecidableEq

/-- Rows read from one source. -/
def fromSource (source : BranchRowSource) (rows : List StorageRow) : List CandidateRow :=
  rows.map (⟨·, source⟩)

/-- The rows a layer adds to the branch that inherits it. -/
def BranchInheritedLayer.contents (layer : BranchInheritedLayer) (childBranchId : BranchId) : List StorageRow :=
  if layer.isReadable then
    (layer.rows.filter (·.commitVersion ≤ layer.forkVersion)).map (·.withBranch childBranchId)
  else []

/-- The rows of a branch's own sources. -/
def ownContents (active : MutableTable) (frozen : List FrozenTable)
    (levels : List (List BranchOwnedTable)) : List StorageRow :=
  active.visibleRows ++ frozen.flatMap (·.table.visibleRows) ++ levels.flatten.flatMap (·.rows)

/-- The rows a view reads, in the order of its sources. -/
def BranchReadView.contents (view : BranchReadView) : List StorageRow :=
  ownContents view.active view.frozen view.layout.levels ++ view.inheritedLayers.flatMap (·.contents view.branchId)

/-- The rows of the frozen tables with their sources, from index `index` on. -/
def frozenCandidates (index : Nat) (frozen : List FrozenTable) : List CandidateRow :=
  (frozen.zipIdx index).flatMap fun (table, i) => fromSource (.frozen i) table.table.visibleRows

/-- The rows of a level with their sources. -/
def levelCandidates (tables : List BranchOwnedTable) : List CandidateRow :=
  tables.zipIdx.flatMap fun (table, i) => fromSource (.ownedTable table.level i) table.rows

/-- The rows of a branch's own sources, with the sources. -/
def ownCandidates (active : MutableTable) (frozen : List FrozenTable)
    (levels : List (List BranchOwnedTable)) : List CandidateRow :=
  fromSource .active active.visibleRows ++ frozenCandidates 0 frozen ++ levels.flatMap levelCandidates

/-- The rows inherited layers add, with their sources, from index `index` on. -/
def layerCandidates (childBranchId : BranchId) (index : Nat) (layers : List BranchInheritedLayer) :
    List CandidateRow :=
  (layers.zipIdx index).flatMap fun (layer, i) =>
    fromSource (.inherited layer.sourceBranchId i) (layer.contents childBranchId)

/-- The rows a view reads, with their sources. -/
def BranchReadView.candidates (view : BranchReadView) : List CandidateRow :=
  ownCandidates view.active view.frozen view.layout.levels ++ layerCandidates view.branchId 0 view.inheritedLayers

/-- The candidates of a key within a bound. -/
def candidatesWithin (candidates : List CandidateRow) (key : PhysicalKey) (bound : BranchReadBound) :
    List CandidateRow :=
  candidates.filter fun candidate => Satisfies key (forOwnBranch bound).maxCommitVersion
      (forOwnBranch bound).maxCommitTimestamp candidate.row

/-- The candidate an exhaustive search finds. -/
def newestCandidate (candidates : List CandidateRow) (key : PhysicalKey) (bound : BranchReadBound) :
    Option CandidateRow := (candidatesWithin candidates key bound).argmax (·.row.commitVersion)

/-! ## The search -/
variable {rows : List StorageRow} (source : BranchRowSource) (candidates : List CandidateRow)
  (key : PhysicalKey) (bound : BranchReadBound)

section Search

variable {rows : List StorageRow} {key : PhysicalKey} {bound : BranchReadBound}
variable {row : StorageRow}

theorem mem_rowsWithin : row ∈ rowsWithin rows key bound ↔ row ∈ rows ∧ row.physicalKey = key ∧
      (forOwnBranch bound).matchesRow row = true := by
  rw [rowsWithin, mem_filter, satisfies_iff, matchesRow_eq (forOwnBranch_minCommitVersion _)]

/-- Among the rows of one key, the version determines the row. -/
theorem RowsAgree.eq_of_commitVersion (h : RowsAgree rows) {a b : StorageRow}
    (ha : a ∈ rowsWithin rows key bound) (hb : b ∈ rowsWithin rows key bound)
    (hv : a.commitVersion = b.commitVersion) : a = b := by
  rw [mem_rowsWithin] at ha hb
  refine h a ha.1 b hb.1 ?_
  rw [StorageRow.internalKey, StorageRow.internalKey, ha.2.1, hb.2.1, hv]

/-- Where rows agree, a row of greatest version is the one the search finds. -/
theorem newestRow_eq_some_of_agree (h : RowsAgree rows) (hrow : row ∈ rowsWithin rows key bound)
    (hmax : ∀ r ∈ rowsWithin rows key bound, r.commitVersion ≤ row.commitVersion) :
    newestRow rows key bound = some row :=
  argmax_eq_some_of_unique (fun _ hb hv => h.eq_of_commitVersion hb hrow hv) hrow hmax

/-- Where no row is above a version, a search at the version is one at the latest. -/
theorem visibleRow_atVersion_of_le {version : CommitVersion}
    (h : ∀ row ∈ rows, row.commitVersion ≤ version) (key : PhysicalKey) :
    visibleRow rows key (.atVersion version) = visibleRow rows key .latest := by
  have hwithin : rowsWithin rows key (.atVersion version) = rowsWithin rows key .latest := by
    refine filter_congr fun row hrow => ?_
    simp [Satisfies, rowMatchesPointBound, forOwnBranch, new, h row hrow]
  rw [visibleRow, visibleRow, newestRow, newestRow, hwithin]
  rfl

theorem newestRow_mem (h : newestRow rows key bound = some row) : row ∈ rowsWithin rows key bound := argmax_mem h

theorem le_newestRow {r : StorageRow} (h : newestRow rows key bound = some row)
    (hr : r ∈ rowsWithin rows key bound) : r.commitVersion ≤ row.commitVersion :=
  le_of_mem_argmax hr h

end Search

/-! ## Candidates and their rows -/

@[simp] theorem fromSource_nil : fromSource source [] = [] := rfl

@[simp] theorem map_row_fromSource (rows : List StorageRow) :
    (fromSource source rows).map CandidateRow.row = rows := by
  rw [fromSource, map_map]
  exact map_id rows

theorem filter_fromSource (rows : List StorageRow) (p : StorageRow → Bool) :
    (fromSource source rows).filter (fun candidate => p candidate.row) = fromSource source (rows.filter p) := by
  rw [fromSource, filter_map]; rfl

/-- Forgetting the index of an indexed concatenation. -/
theorem flatMap_zipIdx_fst {α β : Type} (f : α → List β) (l : List α) (i : Nat) :
    (l.zipIdx i).flatMap (fun p => f p.1) = l.flatMap f := by
  rw [← flatMap_map, zipIdx_map_fst]

@[simp] theorem map_row_frozenCandidates (i : Nat) (frozen : List FrozenTable) :
    (frozenCandidates i frozen).map CandidateRow.row = frozen.flatMap (·.table.visibleRows) := by
  simp only [frozenCandidates, map_flatMap, map_row_fromSource]
  exact flatMap_zipIdx_fst (·.table.visibleRows) frozen i

@[simp] theorem map_row_levelCandidates (tables : List BranchOwnedTable) :
    (levelCandidates tables).map CandidateRow.row = tables.flatMap (·.rows) := by
  simp only [levelCandidates, map_flatMap, map_row_fromSource]
  exact flatMap_zipIdx_fst (·.rows) tables 0

@[simp] theorem map_row_flatMap_levelCandidates (levels : List (List BranchOwnedTable)) :
    (levels.flatMap levelCandidates).map CandidateRow.row = levels.flatten.flatMap (·.rows) := by
  rw [map_flatMap, flatten_eq_flatMap, flatMap_assoc]
  simp [map_row_levelCandidates]

@[simp] theorem map_row_ownCandidates (active : MutableTable) (frozen : List FrozenTable)
    (levels : List (List BranchOwnedTable)) :
    (ownCandidates active frozen levels).map CandidateRow.row = ownContents active frozen levels := by
  simp [ownCandidates, map_row_fromSource, map_row_frozenCandidates, map_row_flatMap_levelCandidates,
    ownContents]

@[simp] theorem map_row_layerCandidates (child : BranchId) (i : Nat) (layers : List BranchInheritedLayer) :
    (layerCandidates child i layers).map CandidateRow.row = layers.flatMap (·.contents child) := by
  simp only [layerCandidates, map_flatMap, map_row_fromSource]
  exact flatMap_zipIdx_fst (·.contents child) layers i

@[simp] theorem BranchReadView.map_row_candidates (view : BranchReadView) :
    view.candidates.map CandidateRow.row = view.contents := by
  simp [candidates, map_row_ownCandidates, map_row_layerCandidates, contents]

theorem map_row_candidatesWithin : (candidatesWithin candidates key bound).map CandidateRow.row =
      rowsWithin (candidates.map CandidateRow.row) key bound := by
  rw [rowsWithin, filter_map]; rfl

theorem candidatesWithin_append (l₁ l₂ : List CandidateRow) (key : PhysicalKey)
    (bound : BranchReadBound) : candidatesWithin (l₁ ++ l₂) key bound =
      candidatesWithin l₁ key bound ++ candidatesWithin l₂ key bound := filter_append ..

theorem candidatesWithin_fromSource (rows : List StorageRow) (key : PhysicalKey) (bound : BranchReadBound) :
    candidatesWithin (fromSource source rows) key bound =
      fromSource source (rowsWithin rows key bound) := filter_fromSource ..

/-- The candidate found carries the row found. -/
theorem map_row_newestCandidate : (newestCandidate candidates key bound).map CandidateRow.row =
      newestRow (candidates.map CandidateRow.row) key bound := by
  rw [newestRow, ← map_row_candidatesWithin, argmax_map fun _ _ => rfl]
  rfl

/-! ## Sources of rows -/

/-- In a table the first row that satisfies a lookup is the newest one. -/
theorem find?_eq_argmax (hsorted : SortedRows rows) (key : PhysicalKey)
    (maxVersion : Option CommitVersion) (maxTimestamp : Option Timestamp) :
    rows.find? (Satisfies key maxVersion maxTimestamp) =
      (rows.filter (Satisfies key maxVersion maxTimestamp)).argmax (·.commitVersion) := by
  refine (argmax_filter_eq_find? ?_).symm
  refine (hsorted.filter _).imp_of_mem fun {a b} ha hb hlt => ?_
  have ha := (satisfies_iff.mp (of_mem_filter ha)).1
  have hb := (satisfies_iff.mp (of_mem_filter hb)).1
  rcases StorageRow.key_lt_key.mp hlt with h | h
  · rw [StorageRow.physicalKeyBytes, StorageRow.physicalKeyBytes, ha, hb] at h
    exact absurd h (lt_irrefl _)
  · exact h.2.le

/-- Reading a layer at its capped bound is reading what it adds to the branch
at the branch's bound. -/
theorem BranchInheritedLayer.filter_contents {layer : BranchInheritedLayer} {key : PhysicalKey}
    (hreadable : layer.isReadable = true) (bound : BranchReadBound) :
    rowsWithin (layer.contents key.branchId) key bound =
      (layer.rows.filter (Satisfies (key.withBranch layer.sourceBranchId)
        (forInheritedLayer bound layer.forkVersion).maxCommitVersion
        (forInheritedLayer bound layer.forkVersion).maxCommitTimestamp)).map (·.withBranch key.branchId) := by
  rw [rowsWithin, contents, if_pos hreadable, filter_map, filter_filter]
  congr 1
  refine filter_congr fun row hrow => ?_
  have hbranch := layer.branchId_eq hrow
  have hkey : row.physicalKey.withBranch key.branchId = key ↔
      row.physicalKey = key.withBranch layer.sourceBranchId := by
    constructor
    · intro h
      rw [← h, PhysicalKey.withBranch_withBranch, ← hbranch, PhysicalKey.withBranch_self]
    · intro h
      rw [h, PhysicalKey.withBranch_withBranch, PhysicalKey.withBranch_self]
  have hown := matchesRow_eq (forOwnBranch_minCommitVersion bound) (row.withBranch key.branchId)
  have hlayer := matchesRow_eq (forInheritedLayer_minCommitVersion bound layer.forkVersion) row
  rw [matchesRow_forInheritedLayer] at hlayer
  rw [Bool.eq_iff_iff, comp_apply, Bool.and_eq_true, satisfies_iff, satisfies_iff,
    ← hown, ← hlayer, Bool.and_eq_true, StorageRow.withBranch_physicalKey, hkey]
  exact ⟨fun ⟨⟨h₁, h₂⟩, h₃⟩ => ⟨h₁, h₃, h₂⟩, fun ⟨h₁, h₃, h₂⟩ => ⟨⟨h₁, h₂⟩, h₃⟩⟩

end Strata
