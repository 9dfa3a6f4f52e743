import StrataStorage.Branch.Contents

/-!
# Point reads

`select_ordered_visible_point_candidate` of `branch/read.rs` and the reads over
it. The walk asks the active table, the frozen tables, the owned levels and the
inherited layers in turn, keeps the newest candidate, and stops asking as soon
as the commit ranges of the sources left show that none of them can beat it.
`StrataStorage.Branch.PointSearch` proves what the reads return.
-/

namespace Strata

open BranchEffectiveReadBound

/-! ## Sources and candidates -/

def sourceOrderCmp : BranchRowSource → BranchRowSource → Ordering
  | .active, .active => .eq
  | .active, _ => .lt
  | _, .active => .gt
  | .frozen left, .frozen right => compare left right
  | .frozen _, _ => .lt
  | _, .frozen _ => .gt
  | .ownedTable leftLevel leftIndex, .ownedTable rightLevel rightIndex =>
    (compare leftLevel.toNat rightLevel.toNat).then (compare leftIndex rightIndex)
  | .ownedTable _ _, _ => .lt
  | _, .ownedTable _ _ => .gt
  | .inherited leftSource leftIndex, .inherited rightSource rightIndex =>
    (compare leftIndex rightIndex).then (cmp leftSource.bytes rightSource.bytes)

/-- `PointCandidate`; a row of an inherited layer is rewritten only when it is
returned. -/
inductive PointCandidate where
  | localLookup (row : StorageRow) (source : BranchRowSource)
  | inheritedLookup (row : StorageRow) (sourceBranchId childBranchId : BranchId) (layerIndex : Nat)

namespace PointCandidate

def row : PointCandidate → StorageRow
  | localLookup row _ => row
  | inheritedLookup row _ _ _ => row

def source : PointCandidate → BranchRowSource
  | localLookup _ source => source
  | inheritedLookup _ sourceBranchId _ layerIndex => .inherited sourceBranchId layerIndex

def intoCandidateRow : PointCandidate → Except BranchRuntimeError CandidateRow
  | localLookup row source => .ok ⟨row, source⟩
  | inheritedLookup row sourceBranchId childBranchId layerIndex => do
    let row ← (rewriteRowBranch row sourceBranchId childBranchId).mapError fun _ =>
      .invalidInheritedLayer "inherited row branch rewrite failed"
    .ok ⟨row, .inherited sourceBranchId layerIndex⟩

end PointCandidate

/-- `PointSelection`, without its counters. -/
structure PointSelection where
  selected : Option PointCandidate

def candidateIsNewerOrBetterTie (candidate selected : PointCandidate) : Bool :=
  decide (selected.row.commitVersion < candidate.row.commitVersion) ||
    (candidate.row.commitVersion == selected.row.commitVersion &&
      sourceOrderCmp candidate.source selected.source == .lt)

namespace PointSelection

def considerCandidate (selection : PointSelection) (candidate : PointCandidate) :
    PointSelection :=
  if selection.selected.all (candidateIsNewerOrBetterTie candidate ·) then ⟨some candidate⟩
  else selection

/-- `if let Some(row) = row { selection.consider…(row) }`. -/
def consider (selection : PointSelection) (candidate : Option PointCandidate) : PointSelection :=
  candidate.elim selection selection.considerCandidate

def finish (selection : PointSelection) : Except BranchRuntimeError (Option CandidateRow) :=
  match selection.selected with
  | none => .ok none
  | some candidate => candidate.intoCandidateRow.map some

end PointSelection

/-! ## Early stop -/

def capCommitRangeMax (minCommit commit : CommitVersion) (maxCommitVersion : Option CommitVersion) :
    Option CommitVersion :=
  if maxCommitVersion.any (· < minCommit) then none
  else some (maxCommitVersion.elim commit (min commit))

/-- `Iterator::max` of versions. -/
def maxCommit (versions : List CommitVersion) : Option CommitVersion := versions.argmax id

/-- The capped maxima of frozen tables, of `max_commit_for_frozen_tables`. -/
def frozenCommits (frozen : List FrozenTable) (effectiveBound : BranchEffectiveReadBound) : List CommitVersion :=
  frozen.filterMap fun frozen => do
    let minCommit ← frozen.table.facts.minCommit
    let maxCommit ← frozen.table.facts.maxCommit
    capCommitRangeMax minCommit maxCommit effectiveBound.maxCommitVersion

/-- The capped maxima of the tables of some levels, of
`max_commit_for_owned_levels`. -/
def ownedCommits (levels : List (List BranchOwnedTable))
    (effectiveBound : BranchEffectiveReadBound) : List CommitVersion :=
  levels.flatten.filterMap fun table =>
    capCommitRangeMax table.facts.commitMin table.facts.commitMax effectiveBound.maxCommitVersion

def maxCommitForFrozenTables (frozen : List FrozenTable) (startIndex : Nat)
    (effectiveBound : BranchEffectiveReadBound) : Option CommitVersion :=
  maxCommit (frozenCommits (frozen.drop startIndex) effectiveBound)

def maxCommitForOwnedLevels (levels : List (List BranchOwnedTable)) (startLevelIndex : Nat)
    (effectiveBound : BranchEffectiveReadBound) : Option CommitVersion :=
  maxCommit (ownedCommits (levels.drop startLevelIndex) effectiveBound)

def maxCommitForInheritedLayers (layers : List BranchInheritedLayer) (startLayerIndex : Nat)
    (bound : BranchReadBound) : Option CommitVersion :=
  maxCommit (((layers.drop startLayerIndex).filter (·.isReadable)).flatMap fun layer =>
    ownedCommits layer.ownedLevels (forInheritedLayer bound layer.forkVersion))

def remainingLocalMaxCommitAfterActive (frozen : List FrozenTable)
    (levels : List (List BranchOwnedTable)) (bound : BranchReadBound) : Option CommitVersion :=
  let effectiveBound := forOwnBranch bound
  maxCommit ((maxCommitForFrozenTables frozen 0 effectiveBound).toList ++
    (maxCommitForOwnedLevels levels 0 effectiveBound).toList)

/-- `remaining_local_max_commit_after_owned_level`, and after the frozen tables
for index zero. -/
def remainingLocalMaxCommitAfterOwnedLevel (levels : List (List BranchOwnedTable))
    (nextLevelIndex : Nat) (bound : BranchReadBound) : Option CommitVersion :=
  maxCommitForOwnedLevels levels nextLevelIndex (forOwnBranch bound)

/-- `owned_point_source_count`: level zero counts its tables, another level
counts once unless it is empty. -/
def ownedPointSourceCount (levels : List (List BranchOwnedTable)) (startLevelIndex : Nat) : Nat :=
  ((levels.mapIdx fun levelIndex tables =>
    if levelIndex = 0 then tables.length else if tables.isEmpty then 0 else 1).drop startLevelIndex).sum

def inheritedPointSourceCount (layers : List BranchInheritedLayer) (startLayerIndex : Nat) : Nat :=
  (((layers.drop startLayerIndex).filter (·.isReadable)).map fun layer =>
    1 + ownedPointSourceCount layer.ownedLevels 0).sum

def orderedPointCanStop (selection : PointSelection) (remainingMaxCommit : Option CommitVersion)
    (remainingSourceCount : Nat) : Bool :=
  if remainingSourceCount = 0 then false
  else selection.selected.any fun selected => remainingMaxCommit.all (· ≤ selected.row.commitVersion)

/-! ## Levels -/

def tableFactPhysicalKeyBounds (table : BranchOwnedTable) : Except BranchRuntimeError (Bytes × Bytes) := do
  let first ← (fromCanonicalBytes table.facts.firstKey).mapError .tableRuntime
  let last ← (fromCanonicalBytes table.facts.lastKey).mapError .tableRuntime
  .ok (tableInternalPhysicalKeyBytes first, tableInternalPhysicalKeyBytes last)

def comparePhysicalKeyToTableRange (key : Bytes) (table : BranchOwnedTable) :
    Except BranchRuntimeError Ordering := do
  let (first, last) ← tableFactPhysicalKeyBounds table
  .ok (if key < first then .lt else if last < key then .gt else .eq)

/-- `select_nonzero_level_point_table`. The loop only probes indices of the
level. -/
def selectNonzeroLevelPointTable (tables : List BranchOwnedTable) (target : Bytes) :
    Except BranchRuntimeError (Option Nat) :=
  bisectOrdering (fun mid => tables[mid]?.elim (.ok .eq) (comparePhysicalKeyToTableRange target))
    tables.length 0 tables.length

/-- Probe one table and consider what it finds. -/
def considerTable (candidate : StorageRow → PointCandidate) (table : BranchOwnedTable)
    (lookup : TablePreparedPointLookup) (selection : PointSelection) :
    Except BranchRuntimeError PointSelection := do
  let row ← (table.reader.seekPreparedPoint lookup).mapError .tableRuntime
  .ok (selection.consider (row.map candidate))

/-- The loop over the tables of level zero, from index `tableIndex` on. -/
def considerTables (candidate : BranchOwnedTable → Nat → StorageRow → PointCandidate)
    (lookup : TablePreparedPointLookup) :
    Nat → List BranchOwnedTable → PointSelection → Except BranchRuntimeError PointSelection
  | _, [], selection => .ok selection
  | tableIndex, table :: tables, selection => do
    let selection ← considerTable (candidate table tableIndex) table lookup selection
    considerTables candidate lookup (tableIndex + 1) tables selection

/-- The selection from one level, for owned and for inherited tables: every
table of level zero, and the one bisected table of another level. -/
def selectLevelPointCandidate (candidate : BranchOwnedTable → Nat → StorageRow → PointCandidate)
    (levelIndex : Nat) (tables : List BranchOwnedTable) (lookup : TablePreparedPointLookup)
    (selection : PointSelection) : Except BranchRuntimeError PointSelection := do
  if levelIndex = 0 then considerTables candidate lookup 0 tables selection
  else if tables = [] then .ok selection
  else
    let found ← selectNonzeroLevelPointTable tables lookup.physicalKey
    match found with
    | none => .ok selection
    | some tableIndex =>
      match tables[tableIndex]? with
      | none => .ok selection
      | some table => considerTable (candidate table tableIndex) table lookup selection

def selectOwnedLevelPointCandidate (levelIndex : Nat) (tables : List BranchOwnedTable)
    (lookup : TablePreparedPointLookup) (selection : PointSelection) :
    Except BranchRuntimeError PointSelection :=
  selectLevelPointCandidate (fun table tableIndex row => .localLookup row (.ownedTable table.level tableIndex))
    levelIndex tables lookup selection

def selectInheritedLevelPointCandidate (childBranchId : BranchId) (layer : BranchInheritedLayer)
    (layerIndex levelIndex : Nat) (tables : List BranchOwnedTable)
    (lookup : TablePreparedPointLookup) (selection : PointSelection) :
    Except BranchRuntimeError PointSelection :=
  selectLevelPointCandidate (fun _ _ row => .inheritedLookup row layer.sourceBranchId childBranchId layerIndex)
    levelIndex tables lookup selection

/-! ## The walk -/

/-- The frozen tables, from index `index` on. -/
def selectFrozen (lookup : TablePreparedPointLookup) : Nat → List FrozenTable → PointSelection → PointSelection
  | _, [], selection => selection
  | index, frozen :: rest, selection =>
    selectFrozen lookup (index + 1) rest (selection.consider
      ((frozen.table.seekPreparedPoint lookup).map (.localLookup · (.frozen index))))

/-- The owned levels from `levelIndex` on; the flag says that the walk may
stop. -/
def selectOwnedLevels (allLevels : List (List BranchOwnedTable)) (bound : BranchReadBound)
    (lookup : TablePreparedPointLookup) : Nat → List (List BranchOwnedTable) → PointSelection →
      Except BranchRuntimeError (PointSelection × Bool)
  | _, [], selection => .ok (selection, false)
  | levelIndex, tables :: levels, selection => do
    let selection ← selectOwnedLevelPointCandidate levelIndex tables lookup selection
    if orderedPointCanStop selection (remainingLocalMaxCommitAfterOwnedLevel allLevels (levelIndex + 1) bound)
        (ownedPointSourceCount allLevels (levelIndex + 1)) then
      .ok (selection, true)
    else selectOwnedLevels allLevels bound lookup (levelIndex + 1) levels selection

/-- The levels of one inherited layer, from `levelIndex` on. -/
def selectInheritedLevels (childBranchId : BranchId) (layer : BranchInheritedLayer)
    (layerIndex : Nat) (lookup : TablePreparedPointLookup) :
    Nat → List (List BranchOwnedTable) → PointSelection → Except BranchRuntimeError PointSelection
  | _, [], selection => .ok selection
  | levelIndex, tables :: levels, selection => do
    let selection ← selectInheritedLevelPointCandidate childBranchId layer layerIndex levelIndex
      tables lookup selection
    selectInheritedLevels childBranchId layer layerIndex lookup (levelIndex + 1) levels selection

/-- The inherited layers from `layerIndex` on; a stop returns at once. -/
def selectInheritedLayers (childBranchId : BranchId) (allLayers : List BranchInheritedLayer)
    (key : PhysicalKey) (bound : BranchReadBound) : Nat → List BranchInheritedLayer →
      PointSelection → Except BranchRuntimeError PointSelection
  | _, [], selection => .ok selection
  | layerIndex, layer :: layers, selection => do
    if !layer.isReadable then
      selectInheritedLayers childBranchId allLayers key bound (layerIndex + 1) layers selection
    else
      let sourceKey ← (rewritePhysicalKeyBranch key layer.sourceBranchId).mapError fun _ =>
        .invalidInheritedLayer "inherited point key rewrite failed"
      let inheritedBound := forInheritedLayer bound layer.forkVersion
      let lookup := TablePreparedPointLookup.new sourceKey inheritedBound.maxCommitVersion
        inheritedBound.maxCommitTimestamp
      let selection ← selectInheritedLevels childBranchId layer layerIndex lookup 0 layer.ownedLevels selection
      if orderedPointCanStop selection (maxCommitForInheritedLayers allLayers (layerIndex + 1) bound)
          (inheritedPointSourceCount allLayers (layerIndex + 1)) then
        .ok selection
      else selectInheritedLayers childBranchId allLayers key bound (layerIndex + 1) layers selection

/-- The local sources: the selection after them, and whether the walk returns
here. A stop with readable layers left skips to the layers instead. -/
def selectLocal (active : MutableTable) (frozen : List FrozenTable)
    (levels : List (List BranchOwnedTable)) (inheritedSourceCount : Nat) (bound : BranchReadBound)
    (lookup : TablePreparedPointLookup) : Except BranchRuntimeError (PointSelection × Bool) := do
  let selection := PointSelection.consider ⟨none⟩ ((active.seekPreparedPoint lookup).map (.localLookup · .active))
  if orderedPointCanStop selection (remainingLocalMaxCommitAfterActive frozen levels bound)
      (frozen.length + ownedPointSourceCount levels 0) then
    .ok (selection, inheritedSourceCount = 0)
  else
    let selection := selectFrozen lookup 0 frozen selection
    if orderedPointCanStop selection (remainingLocalMaxCommitAfterOwnedLevel levels 0 bound)
        (ownedPointSourceCount levels 0) then
      .ok (selection, inheritedSourceCount = 0)
    else
      let (selection, stopped) ← selectOwnedLevels levels bound lookup 0 levels selection
      .ok (selection, stopped && inheritedSourceCount = 0)

def selectOrderedVisiblePointCandidate (branchId : BranchId) (active : MutableTable)
    (frozen : List FrozenTable) (levels : List (List BranchOwnedTable)) (layers : List BranchInheritedLayer)
    (key : PhysicalKey) (bound : BranchReadBound) (effectiveBound : BranchEffectiveReadBound) :
    Except BranchRuntimeError (Option CandidateRow) := do
  let inheritedSourceCount := inheritedPointSourceCount layers 0
  let lookup := TablePreparedPointLookup.new key effectiveBound.maxCommitVersion effectiveBound.maxCommitTimestamp
  let (selection, returns) ← selectLocal active frozen levels inheritedSourceCount bound lookup
  if returns then selection.finish
  else if orderedPointCanStop selection (maxCommitForInheritedLayers layers 0 bound) inheritedSourceCount then
    selection.finish
  else
    let selection ← selectInheritedLayers branchId layers key bound 0 layers selection
    selection.finish

/-! ## Reads -/

/-- `BranchVisibleRow` and `BranchHistoryRow`. -/
abbrev BranchRow := CandidateRow

namespace BranchReadView

def requireMatchingBranch (view : BranchReadView) (branchId : BranchId) : Except BranchRuntimeError Unit :=
  if branchId = view.branchId then .ok ()
  else .error (.invalidBranchRow "read target branch id does not match read view branch")

def requireTimestampCoverage (view : BranchReadView) (bound : BranchReadBound) : Except BranchRuntimeError Unit :=
  match bound with
  | .latest | .atVersion _ => .ok ()
  | .atTimestamp timestamp =>
    view.timestampCoverage.requireTimestamp view.branchId timestamp .combined

def readPoint (view : BranchReadView) (key : PhysicalKey) (bound : BranchReadBound) :
    Except BranchRuntimeError (Option BranchRow) := do
  view.requireMatchingBranch key.branchId
  let effectiveBound := forOwnBranch bound
  view.requireTimestampCoverage bound
  let selected ← selectOrderedVisiblePointCandidate view.branchId view.active view.frozen
    view.layout.levels view.inheritedLayers key bound effectiveBound
  .ok (selected.filter fun candidate =>
    !candidate.row.isTombstone && !rowIsExpiredAt candidate.row effectiveBound.maxCommitTimestamp)

def readPointOrTombstone (view : BranchReadView) (key : PhysicalKey) (bound : BranchReadBound) :
    Except BranchRuntimeError (Option BranchRow) := do
  view.requireMatchingBranch key.branchId
  view.requireTimestampCoverage bound
  let effectiveBound := forOwnBranch bound
  let selected ← selectOrderedVisiblePointCandidate view.branchId view.active view.frozen
    view.layout.levels view.inheritedLayers key bound effectiveBound
  .ok (selected.filter fun candidate => !rowIsExpiredAt candidate.row effectiveBound.maxCommitTimestamp)

end BranchReadView

end Strata
