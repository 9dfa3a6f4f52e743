import StrataStorage.Branch.ScanCursor
import StrataStorage.Lib.Merge

/-!
# Scans

`scan_including_tombstones_from_sources` of `branch/read.rs`: open a cursor for
each source, merge them by key, pick for each key the row a read shows, stop
when the limit of visible rows is reached. One cursor is scanned on its own;
several are merged through a heap. The loops run on fuel, the number of rows of
the cursors' tables.

* `scanSingleSource_spec`, `scanHeapSources_spec`: both loops select once for
  each key, in ascending order, from all that the cursors offer for it.

`StrataStorage.Branch.ScanSearch` proves what a scan returns.
-/

namespace Strata

open Except List BranchEffectiveReadBound

variable {cursor : BranchScanCursor} {entries : List ScanEntry} {fuel : Nat}

/-! ## Opening the cursors -/

/-- The cursors of one level: one for each table of level zero, one for a deeper
level that has a table in bounds. -/
def levelScanCursors (bounds : TableKeyBounds) (effectiveBound : BranchEffectiveReadBound)
    (afterVersion : Option CommitVersion) (tableSource : BranchOwnedTable → Nat → BranchScanCursorSource)
    (levelSource : Except BranchRuntimeError BranchNonzeroLevelScanSource) (levelIndex : Nat)
    (tables : List BranchOwnedTable) :
    Except BranchRuntimeError (List BranchScanCursor) :=
  if levelIndex = 0 then
    .ok (tables.zipIdx.flatMap fun (table, tableIndex) =>
      if nonzeroTableSealedAtOrBelow table afterVersion then []
      else [.new (.singleTable (table.reader.boundedCursor bounds) (tableSource table tableIndex)) effectiveBound])
  else do
    let first ← firstNonzeroLevelScanTableIndex tables bounds
    match first with
    | none => .ok []
    | some firstTableIndex =>
      let source ← levelSource
      .ok [.new (.nonzeroLevel ⟨tables, bounds, source, firstTableIndex, afterVersion, none⟩) effectiveBound]

/-- `push_active_scan_cursor` and `push_frozen_scan_cursors`. -/
def memoryScanCursor (bounds : TableKeyBounds) (effectiveBound : BranchEffectiveReadBound)
    (table : MutableTable) (source : BranchScanCursorSource) : BranchScanCursor :=
  .new (.singleTable (.new (.memory (.fromMutable table)) bounds) source) effectiveBound

/-- The source of a level of the branch itself. -/
def ownedLevelSource (levelIndex : Nat) : Except BranchRuntimeError BranchNonzeroLevelScanSource :=
  if levelIndex < 256 then .ok (.owned (UInt8.ofNat levelIndex))
  else .error (.invalidBranchState "branch scan level index exceeds branch level range")

def pushOwnedLevelScanCursors (levels : List (List BranchOwnedTable)) (bounds : TableKeyBounds)
    (effectiveBound : BranchEffectiveReadBound) (afterVersion : Option CommitVersion) :
    Except BranchRuntimeError (List BranchScanCursor) := do
  let cursors ← levels.zipIdx.mapM fun (tables, levelIndex) => levelScanCursors bounds effectiveBound afterVersion
      (fun table tableIndex => .ownedTable table.level tableIndex) (ownedLevelSource levelIndex)
      levelIndex tables
  .ok cursors.flatten

/-- `push_inherited_level_scan_cursors`, for one layer. -/
def layerScanCursors (branchId : BranchId) (bounds : BranchScanBounds) (bound : BranchReadBound)
    (afterVersion : Option CommitVersion) (layer : BranchInheritedLayer) (layerIndex : Nat) :
    Except BranchRuntimeError (List BranchScanCursor) :=
  if !layer.isReadable then .ok []
  else do
    let inheritedBound := forInheritedLayer bound layer.forkVersion
    let sourceBounds ← bounds.tableKeyBoundsForBranch layer.sourceBranchId
    let cursors ← layer.ownedLevels.zipIdx.mapM fun (tables, levelIndex) =>
      levelScanCursors sourceBounds inheritedBound afterVersion
        (fun _ _ => .inherited layer.sourceBranchId layerIndex branchId)
        (.ok (.inherited layer.sourceBranchId layerIndex branchId)) levelIndex tables
    .ok cursors.flatten

def pushInheritedLevelScanCursors (branchId : BranchId) (layers : List BranchInheritedLayer)
    (bounds : BranchScanBounds) (bound : BranchReadBound) (afterVersion : Option CommitVersion) :
    Except BranchRuntimeError (List BranchScanCursor) := do
  let cursors ← layers.zipIdx.mapM fun (layer, layerIndex) =>
    layerScanCursors branchId bounds bound afterVersion layer layerIndex
  .ok cursors.flatten

def scanCursorsForSources (branchId : BranchId) (active : MutableTable) (frozen : List FrozenTable)
    (levels : List (List BranchOwnedTable)) (layers : List BranchInheritedLayer)
    (bounds : BranchScanBounds) (bound : BranchReadBound) (afterVersion : Option CommitVersion) :
    Except BranchRuntimeError (List BranchScanCursor) := do
  let ownBounds ← bounds.tableKeyBoundsForBranch bounds.branchId
  let ownBound := forOwnBranch bound
  let owned ← pushOwnedLevelScanCursors levels ownBounds ownBound afterVersion
  let inherited ← pushInheritedLevelScanCursors branchId layers bounds bound afterVersion
  .ok (memoryScanCursor ownBounds ownBound active .active :: frozen.zipIdx.map (fun (table, index) =>
      memoryScanCursor ownBounds ownBound table.table (.frozen index)) ++ owned ++ inherited)

/-! ## Selection -/

/-- The comparison of `sort_candidates_newest_first`. -/
def newestFirstCmp (left right : CandidateRow) : Ordering :=
  (compare right.row.commitVersion.toNat left.row.commitVersion.toNat).then
    (sourceOrderCmp left.source right.source)

/-- `sort_candidates_newest_first`, a stable sort. -/
def sortCandidatesNewestFirst (candidates : List CandidateRow) : List CandidateRow :=
  candidates.mergeSort fun left right => (newestFirstCmp left right).isLE

def selectVisibleRowOrTombstone (candidates : List CandidateRow)
    (effectiveBound : BranchEffectiveReadBound) : Option CandidateRow :=
  ((sortCandidatesNewestFirst candidates).find? fun candidate =>
    effectiveBound.matchesRow candidate.row).filter fun candidate =>
      !rowIsExpiredAt candidate.row effectiveBound.maxCommitTimestamp

/-! ## The loops -/

/-- What a scan returns and how it counts. -/
structure ScanRequest where
  effectiveBound : BranchEffectiveReadBound
  visibleLimit : Option Nat
  visibleLimitTimestamp : Option Timestamp

variable (request : ScanRequest)

/-- A row counts for the limit. -/
def ScanRequest.counts (request : ScanRequest) (candidate : CandidateRow) : Bool :=
  !candidate.row.isTombstone && !rowIsExpiredAt candidate.row request.visibleLimitTimestamp

/-- The rows returned so far, and how many of them count. -/
structure ScanOutput where
  rows : List CandidateRow
  visibleRows : Nat

/-- The end of a turn of either loop: push the row selected, and tell whether
the limit is reached. -/
def ScanRequest.emit (request : ScanRequest) (selected : Option CandidateRow)
    (output : ScanOutput) : ScanOutput × Bool :=
  match selected with
  | none => (output, false)
  | some row =>
    if request.counts row then
      (⟨output.rows ++ [row], output.visibleRows + 1⟩, request.visibleLimit.any (· ≤ output.visibleRows + 1))
    else (⟨output.rows ++ [row], output.visibleRows⟩, false)

/-- The inner loop: the candidates a cursor offers for a key. -/
def collectScanGroup (selectedKey : Bytes) : Nat → BranchScanCursor → List CandidateRow →
    Except BranchRuntimeError (BranchScanCursor × List CandidateRow)
  | 0, cursor, candidates => .ok (cursor, candidates)
  | fuel + 1, cursor, candidates =>
    if cursor.currentLogicalKey = some selectedKey then do
      let candidate ← cursor.currentCandidate
      let cursor ← cursor.advance
      collectScanGroup selectedKey fuel cursor (candidates ++ candidate.toList)
    else .ok (cursor, candidates)

/-- `scan_single_source_including_tombstones`. -/
def scanSingleSource (request : ScanRequest) : Nat → BranchScanCursor → ScanOutput →
    Except BranchRuntimeError (List CandidateRow)
  | 0, _, output => .ok output.rows
  | fuel + 1, cursor, output =>
    match cursor.currentLogicalKey with
    | none => .ok output.rows
    | some selectedKey => do
      let (cursor, candidates) ← collectScanGroup selectedKey (fuel + 1) cursor []
      let (output, stop) := request.emit (selectVisibleRowOrTombstone candidates request.effectiveBound) output
      if stop then .ok output.rows else scanSingleSource request fuel cursor output

/-- The cursors, the heap of their keys and the candidates of the current key. -/
structure ScanMerge where
  cursors : List BranchScanCursor
  heap : MergeHeap Bytes
  candidates : List CandidateRow

def collectScanGroupFromCursor (selectedKey : Bytes) (sourceIndex fuel : Nat) (merge : ScanMerge) :
    Except BranchRuntimeError ScanMerge :=
  match merge.cursors[sourceIndex]? with
  | none => .ok merge
  | some cursor => do
    let (cursor, candidates) ← collectScanGroup selectedKey fuel cursor merge.candidates
    .ok ⟨merge.cursors.set sourceIndex cursor, merge.heap.push cursor.currentLogicalKey sourceIndex, candidates⟩

/-- The loop over the other sources that stand at the selected key. -/
def collectMatching (selectedKey : Bytes) (groupFuel : Nat) : Nat → ScanMerge → Except BranchRuntimeError ScanMerge
  | 0, merge => .ok merge
  | fuel + 1, merge =>
    match merge.heap with
    | [] => .ok merge
    | item :: heap =>
      if (ofLex item).1 = selectedKey then do
        let merge ← collectScanGroupFromCursor selectedKey (ofLex item).2 groupFuel { merge with heap }
        collectMatching selectedKey groupFuel fuel merge
      else .ok merge

/-- The loop of `scan_heap_sources_including_tombstones`. -/
def scanHeapSources (request : ScanRequest) : Nat → List BranchScanCursor → MergeHeap Bytes →
    ScanOutput → Except BranchRuntimeError (List CandidateRow)
  | 0, _, _, output => .ok output.rows
  | _ + 1, _, [], output => .ok output.rows
  | fuel + 1, cursors, selected :: heap, output => do
    let merge ← collectScanGroupFromCursor (ofLex selected).1 (ofLex selected).2 (fuel + 1) ⟨cursors, heap, []⟩
    let merge ← collectMatching (ofLex selected).1 (fuel + 1) (fuel + 1) merge
    let (output, stop) := request.emit (selectVisibleRowOrTombstone merge.candidates request.effectiveBound) output
    if stop then .ok output.rows else scanHeapSources request fuel merge.cursors merge.heap output

/-- The number of rows of the tables a cursor is over. -/
def BranchScanCursor.rowCount (cursor : BranchScanCursor) : Nat :=
  match cursor.kind with
  | .singleTable inner _ => inner.inner.rows.length
  | .nonzeroLevel inner => (inner.tables.flatMap (·.rows)).length

/-- One cursor is scanned on its own, several through a heap. -/
def scanSources (request : ScanRequest) (fuel : Nat) :
    List BranchScanCursor → Except BranchRuntimeError (List CandidateRow)
  | [cursor] => scanSingleSource request fuel cursor ⟨[], 0⟩
  | cursors => scanHeapSources request fuel cursors (MergeHeap.ofKeys (cursors.map (·.currentLogicalKey))) ⟨[], 0⟩

def scanIncludingTombstonesFromSources (branchId : BranchId) (active : MutableTable)
    (frozen : List FrozenTable) (levels : List (List BranchOwnedTable))
    (layers : List BranchInheritedLayer) (bounds : BranchScanBounds) (bound : BranchReadBound)
    (afterVersion : Option CommitVersion) (visibleLimit : Option Nat)
    (visibleLimitTimestamp : Option Timestamp) : Except BranchRuntimeError (List CandidateRow) :=
  if visibleLimit = some 0 then .ok []
  else do
    let effectiveBound := (forOwnBranch bound).withMinCommitVersion afterVersion
    let request : ScanRequest := ⟨effectiveBound, visibleLimit, visibleLimitTimestamp⟩
    let cursors ← scanCursorsForSources branchId active frozen levels layers bounds bound afterVersion
    let fuel := (cursors.map BranchScanCursor.rowCount).sum
    let cursors ← cursors.mapM BranchScanCursor.seekToFirst
    scanSources request fuel cursors

namespace BranchReadView

def scanIncludingTombstones (view : BranchReadView) (bounds : BranchScanBounds)
    (bound : BranchReadBound) (afterVersion : Option CommitVersion) :
    Except BranchRuntimeError (List BranchRow) := do
  view.requireMatchingBranch bounds.branchId
  view.requireTimestampCoverage bound
  scanIncludingTombstonesFromSources view.branchId view.active view.frozen view.layout.levels
    view.inheritedLayers bounds bound afterVersion none bound.readTimestamp

/-- `scan_including_tombstones_visible` and, with a timestamp for the limit,
`scan_including_tombstones_borrowed`. -/
def scanIncludingTombstonesVisible (view : BranchReadView) (bounds : BranchScanBounds)
    (bound : BranchReadBound) (visibleLimit : Option Nat)
    (visibleLimitTimestamp : Option Timestamp) : Except BranchRuntimeError (List BranchRow) := do
  view.requireMatchingBranch bounds.branchId
  view.requireTimestampCoverage bound
  scanIncludingTombstonesFromSources view.branchId view.active view.frozen view.layout.levels
    view.inheritedLayers bounds bound none visibleLimit visibleLimitTimestamp

def scan (view : BranchReadView) (bounds : BranchScanBounds) (bound : BranchReadBound) :
    Except BranchRuntimeError (List BranchRow) := do
  view.requireMatchingBranch bounds.branchId
  let effectiveBound := forOwnBranch bound
  view.requireTimestampCoverage bound
  let rows ← scanIncludingTombstonesFromSources view.branchId view.active view.frozen
    view.layout.levels view.inheritedLayers bounds bound none none effectiveBound.maxCommitTimestamp
  .ok (rows.filter fun candidate => !candidate.row.isTombstone &&
    !rowIsExpiredAt candidate.row effectiveBound.maxCommitTimestamp)

end BranchReadView

/-! ## What the loops return -/

/-- The rows up to the one that reaches the limit, when `visible` rows count
already. -/
def ScanRequest.takeVisible (request : ScanRequest) : Nat → List CandidateRow → List CandidateRow
  | _, [] => []
  | visible, row :: rows =>
    row :: if request.counts row then
        if request.visibleLimit.any (· ≤ visible + 1) then []
        else request.takeVisible (visible + 1) rows
      else request.takeVisible visible rows

/-- A turn of a loop returns the row it selects, then what the later turns
return. -/
theorem ScanRequest.emit_spec (selected : Option CandidateRow) (output : ScanOutput) (later : List CandidateRow) :
    (request.emit selected output).1.rows ++ (if (request.emit selected output).2 then []
        else request.takeVisible (request.emit selected output).1.visibleRows later) =
      output.rows ++ request.takeVisible output.visibleRows (selected.toList ++ later) := by
  cases selected with
  | none => rfl
  | some row =>
    simp only [emit, Option.toList_some, singleton_append, takeVisible]
    split <;> simp

/-- The candidates offered for a key. -/
def groupCandidates (entries : List ScanEntry) (key : Bytes) : List CandidateRow :=
  (entries.filter (·.key = key)).filterMap (·.candidate)

/-- What is selected for a key. -/
def ScanRequest.select (request : ScanRequest) (entries : List ScanEntry) (key : Bytes) : Option CandidateRow :=
  selectVisibleRowOrTombstone (groupCandidates entries key) request.effectiveBound

/-- The keys of some entries, in ascending order. -/
structure KeysOf (keys : List Bytes) (entries : List ScanEntry) : Prop where
  sorted : keys.Pairwise (· < ·)
  mem_iff : ∀ key, key ∈ keys ↔ ∃ entry ∈ entries, entry.key = key

/-- A run returns, after what was returned already, a selection for each key. -/
def ScanRequest.Returns (request : ScanRequest) (output : ScanOutput) (entries : List ScanEntry)
    (run : Except BranchRuntimeError (List CandidateRow)) : Prop :=
  ∃ keys, KeysOf keys entries ∧ run = .ok (output.rows ++
    request.takeVisible output.visibleRows (keys.filterMap (request.select entries)))

section Turn

variable {request : ScanRequest} {entries : List ScanEntry} {key : Bytes}

theorem groupCandidates_filter_ne {key' : Bytes} (h : key' ≠ key) :
    groupCandidates (entries.filter fun entry => !decide (entry.key = key)) key' =
      groupCandidates entries key' := by
  rw [groupCandidates, filter_filter, groupCandidates]
  congr 1
  refine filter_congr fun entry _ => ?_
  by_cases hentry : entry.key = key'
  · simp [hentry, h]
  · simp [hentry]

theorem ScanRequest.returns_nil (output : ScanOutput) : request.Returns output [] (.ok output.rows) :=
  ⟨[], ⟨List.Pairwise.nil, by simp⟩, by simp [takeVisible]⟩

/-- One turn handles the least key; the rest of the run handles the others. -/
theorem ScanRequest.returns_turn {output : ScanOutput} {run : Except BranchRuntimeError (List CandidateRow)}
    (hmem : ∃ entry ∈ entries, entry.key = key) (hle : ∀ entry ∈ entries, key ≤ entry.key)
    (hrun : request.Returns (request.emit (request.select entries key) output).1
      (entries.filter fun entry => !decide (entry.key = key)) run) :
    request.Returns output entries (if (request.emit (request.select entries key) output).2 then
        .ok (request.emit (request.select entries key) output).1.rows else run) := by
  obtain ⟨keys, hkeys, rfl⟩ := hrun
  have hlater : ∀ key' ∈ keys, key < key' := by
    intro key' hkey'
    obtain ⟨entry, hentry, rfl⟩ := (hkeys.mem_iff key').mp hkey'
    obtain ⟨hentry, hne⟩ := mem_filter.mp hentry
    exact lt_of_le_of_ne (hle entry hentry) fun heq => by simp [heq] at hne
  have hselect : keys.filterMap (request.select (entries.filter fun entry => !decide (entry.key = key))) =
        keys.filterMap (request.select entries) :=
    filterMap_congr fun key' hkey' => by
      rw [select, groupCandidates_filter_ne (hlater key' hkey').ne', select]
  refine ⟨key :: keys, ⟨pairwise_cons.mpr ⟨hlater, hkeys.sorted⟩, fun key' => ?_⟩, ?_⟩
  · rw [mem_cons, hkeys.mem_iff]
    by_cases heq : key' = key
    · simpa [heq] using hmem
    · simp only [heq, false_or, mem_filter]
      exact ⟨fun ⟨e, he, hk⟩ => ⟨e, he.1, hk⟩, fun ⟨e, he, hk⟩ => ⟨e, ⟨he, by simpa [hk] using heq⟩, hk⟩⟩
  · have hcons : (key :: keys).filterMap (request.select entries) =
        (request.select entries key).toList ++ keys.filterMap (request.select entries) := by
      rw [filterMap_cons]
      cases request.select entries key <;> rfl
    rw [hcons, ← request.emit_spec, hselect]
    split <;> simp

end Turn

/-! ## The loop over one cursor -/

theorem BranchScanCursor.Yields.currentLogicalKey (h : cursor.Yields entries) :
    cursor.currentLogicalKey = entries.head?.map (·.key) := by
  cases h with
  | done hkey => exact hkey
  | row hkey => exact hkey

theorem collectScanGroup_spec (h : cursor.Yields entries) (key : Bytes)
    (hfuel : entries.length ≤ fuel) (candidates : List CandidateRow) :
    ∃ next, collectScanGroup key fuel cursor candidates =
        .ok (next, candidates ++ (entries.takeWhile (·.key = key)).filterMap (·.candidate)) ∧
      next.Yields (entries.dropWhile (·.key = key)) := by
  induction h generalizing fuel candidates with
  | @done cursor hkey =>
    refine ⟨cursor, ?_, .done hkey⟩
    cases fuel <;> simp [collectScanGroup, hkey]
  | @row cursor next entry entries hkey hcandidate hadvance hnext ih =>
    obtain ⟨fuel, rfl⟩ : ∃ n, fuel = n + 1 := ⟨fuel - 1, by simp at hfuel; omega⟩
    rw [collectScanGroup, hkey]
    by_cases hentry : entry.key = key
    · obtain ⟨last, hrun, hlast⟩ := ih (by simpa using hfuel) (candidates ++ entry.candidate.toList)
      refine ⟨last, ?_, by simpa [hentry] using hlast⟩
      rw [if_pos (congrArg some hentry), hcandidate, ok_bind, hadvance, ok_bind, hrun,
        takeWhile_cons_of_pos (by simpa using hentry), filterMap_cons]
      cases entry.candidate <;> simp
    · refine ⟨cursor, ?_, ?_⟩
      · rw [if_neg fun heq => hentry (Option.some.inj heq), takeWhile_cons_of_neg (by simpa using hentry)]
        simp
      · rw [dropWhile_cons_of_neg (by simpa using hentry)]
        exact .row hkey hcandidate hadvance hnext

/-- Entries in the order of their keys. -/
abbrev SortedEntries (entries : List ScanEntry) : Prop := entries.Pairwise fun a b => a.key ≤ b.key

/-- The loop over one cursor selects for each of its keys. -/
theorem scanSingleSource_spec (h : cursor.Yields entries) (hsorted : SortedEntries entries)
    (hfuel : entries.length ≤ fuel) (output : ScanOutput) :
    request.Returns output entries (scanSingleSource request fuel cursor output) := by
  induction fuel generalizing cursor entries output with
  | zero =>
    obtain rfl := eq_nil_of_length_eq_zero (Nat.le_zero.mp hfuel)
    exact request.returns_nil output
  | succ fuel ih =>
    rw [scanSingleSource, h.currentLogicalKey]
    cases entries with
    | nil => exact request.returns_nil output
    | cons entry entries =>
      have hle : ∀ e ∈ entry :: entries, entry.key ≤ e.key := by
        intro e he
        rcases mem_cons.mp he with rfl | he
        · exact le_rfl
        · exact rel_of_pairwise_cons hsorted he
      obtain ⟨htake, hdrop⟩ := span_eq_filter (fun e => decide_eq_true_iff) hsorted hle
      obtain ⟨next, hrun, hnext⟩ := collectScanGroup_spec h entry.key hfuel []
      rw [hdrop] at hnext
      have hlater := ih hnext (hsorted.filter _) (by
        rw [filter_cons_of_neg (by simp)]
        exact (length_filter_le _ _).trans (by simpa using hfuel))
        (request.emit (request.select (entry :: entries) entry.key) output).1
      have hturn := request.returns_turn ⟨entry, mem_cons_self, rfl⟩ hle hlater
      simp only [head?_cons, Option.map_some, hrun, ok_bind, nil_append, htake]
      exact hturn

/-! ## The loop over a heap of cursors -/

/-- Each cursor yields its list. -/
structure YieldsAll (cursors : List BranchScanCursor) (lists : List (List ScanEntry)) : Prop where
  length_eq : cursors.length = lists.length
  yields : ∀ (i : Nat) (cursor : BranchScanCursor) (entries : List ScanEntry),
    cursors[i]? = some cursor → lists[i]? = some entries → cursor.Yields entries

section Merge

variable {cursors : List BranchScanCursor} {lists : List (List ScanEntry)} {merge : ScanMerge}
  {key : Bytes} {fuel : Nat}
variable {heap : MergeHeap Bytes}

theorem YieldsAll.set (h : YieldsAll cursors lists) {cursor : BranchScanCursor}
    {entries : List ScanEntry} (hyields : cursor.Yields entries) (i : Nat) :
    YieldsAll (cursors.set i cursor) (lists.set i entries) := by
  refine ⟨by simp [h.length_eq], fun j c l hc hl => ?_⟩
  rw [getElem?_set] at hc hl
  by_cases hij : i = j
  · simp only [hij, if_true] at hc hl
    split at hc
    · split at hl
      · cases hc
        cases hl
        exact hyields
      · cases hl
    · cases hc
  · simp only [hij, if_false] at hc hl
    exact h.yields j c l hc hl

theorem YieldsAll.map_currentLogicalKey (h : YieldsAll cursors lists) :
    cursors.map (·.currentLogicalKey) = lists.map fun l => l.head?.map (·.key) := by
  refine ext_getElem (by simp [h.length_eq]) fun i hi hi' => ?_
  rw [length_map] at hi hi'
  rw [getElem_map, getElem_map]
  exact (h.yields i _ _ (getElem?_eq_getElem hi) (getElem?_eq_getElem hi')).currentLogicalKey

/-- What the merge knows while it collects the candidates of the least key. -/
structure MergeInv (key : Bytes) (lists : List (List ScanEntry)) (merge : ScanMerge) : Prop where
  yields : YieldsAll merge.cursors lists
  heads : MergeHeap.Heads (·.key) lists merge.heap
  sorted : ∀ l ∈ lists, SortedEntries l
  le : ∀ l ∈ lists, ∀ entry ∈ l, key ≤ entry.key

section

variable (h : MergeInv key lists merge)
include h

/-- Collecting from the source at the top of the heap. -/
theorem collectScanGroupFromCursor_spec {i : Nat}
    (hheap : merge.heap = toLex (key, i) :: heap) (hfuel : ∀ l ∈ lists, l.length ≤ fuel) :
    ∃ l next, lists[i]? = some l ∧ (∃ entry ∈ l, entry.key = key) ∧
      collectScanGroupFromCursor key i fuel { merge with heap } = .ok next ∧
      MergeInv key (lists.set i (l.filter fun e => !decide (e.key = key))) next ∧
      next.candidates = merge.candidates ++ groupCandidates l key := by
  have hheads : MergeHeap.Heads (·.key) lists (toLex (key, i) :: heap) := hheap ▸ h.heads
  obtain ⟨entry, rest, hi, hentry⟩ := (hheads.mem_iff key i).mp List.mem_cons_self
  have hmem : entry :: rest ∈ lists := List.mem_of_getElem? hi
  have hlen : i < merge.cursors.length := h.yields.length_eq ▸ (List.getElem?_eq_some_iff.mp hi).1
  have hyields := h.yields.yields i _ _ (List.getElem?_eq_getElem hlen) hi
  obtain ⟨next, hrun, hnext⟩ := collectScanGroup_spec hyields key (hfuel _ hmem) merge.candidates
  obtain ⟨htake, hdrop⟩ := List.span_eq_filter (fun e => decide_eq_true_iff) (h.sorted _ hmem) (h.le _ hmem)
  rw [hdrop] at hnext
  refine ⟨entry :: rest, ⟨merge.cursors.set i next, heap.push next.currentLogicalKey i,
    merge.candidates ++ groupCandidates (entry :: rest) key⟩, hi,
    ⟨entry, List.mem_cons_self, hentry⟩, ?_, ?_, rfl⟩
  · rw [collectScanGroupFromCursor]
    simp only [List.getElem?_eq_getElem hlen, hrun, htake, Except.ok_bind]
    rfl
  · refine ⟨h.yields.set hnext i, ?_, ?_, ?_⟩
    · rw [hnext.currentLogicalKey]
      exact hheads.push_set _
    · intro l hl
      rcases List.mem_or_eq_of_mem_set hl with hl | rfl
      · exact h.sorted l hl
      · exact (h.sorted _ hmem).filter _
    · intro l hl
      rcases List.mem_or_eq_of_mem_set hl with hl | rfl
      · exact h.le l hl
      · exact fun e he => h.le _ hmem e (List.mem_of_mem_filter he)

/-- No source stands at the key any more. -/
theorem MergeInv.done (hne : ∀ l ∈ lists, ∀ e ∈ l, e.key ≠ key) :
    MergeInv key (lists.map (filter fun e => !decide (e.key = key))) merge ∧
      merge.candidates = merge.candidates ++ groupCandidates lists.flatten key := by
  have hself : lists.map (filter fun e => !decide (e.key = key)) = lists := by
    refine (map_congr_left fun l hl => filter_eq_self.mpr fun e he => ?_).trans (map_id lists)
    simpa using hne l hl e he
  have hnil : lists.flatten.filter (fun e => e.key = key) = [] := by
    refine filter_eq_nil_iff.mpr fun e he => ?_
    obtain ⟨l, hl, he⟩ := mem_flatten.mp he
    simpa using hne l hl e he
  rw [hself, groupCandidates, hnil]
  exact ⟨h, by simp⟩

/-- The loop collects the candidates of the least key from every source, in the
order of the sources, and leaves the sources at their other keys. -/
theorem collectMatching_spec {groupFuel : Nat} (hgroup : ∀ l ∈ lists, l.length ≤ groupFuel)
    (hfuel : (lists.flatten.filter fun e => e.key = key).length ≤ fuel) :
    ∃ next, collectMatching key groupFuel fuel merge = .ok next ∧
      MergeInv key (lists.map (filter fun e => !decide (e.key = key))) next ∧
      next.candidates = merge.candidates ++ groupCandidates lists.flatten key := by
  induction fuel generalizing lists merge with
  | zero =>
    have hnil := eq_nil_of_length_eq_zero (Nat.le_zero.mp hfuel)
    refine ⟨merge, rfl, h.done fun l hl e he heq => ?_⟩
    have : e ∈ lists.flatten.filter fun e => e.key = key :=
      mem_filter.mpr ⟨mem_flatten.mpr ⟨l, hl, he⟩, by simpa using heq⟩
    simp [hnil] at this
  | succ fuel ih =>
    rw [collectMatching]
    split
    · rename_i hheap
      have hnil := (hheap ▸ h.heads).nil
      exact ⟨merge, rfl, h.done fun l hl e he _ => by
        simpa [hnil] using mem_flatten.mpr ⟨l, hl, he⟩⟩
    · rename_i item heap hheap
      obtain ⟨key', i⟩ := item
      have hheads : MergeHeap.Heads (·.key) lists (toLex (key', i) :: heap) := hheap ▸ h.heads
      have hfirst := fun {j l} (hj : lists[j]? = some l) {e} (he : e ∈ l) => hheads.le h.sorted hj he
      split_ifs with hitem
      · obtain rfl : key' = key := hitem
        obtain ⟨l, next, hi, ⟨entry, hentry, hkey⟩, hrun, hinv, hcandidates⟩ :=
          collectScanGroupFromCursor_spec h hheap hgroup
        have hmem := mem_of_getElem? hi
        have hflatten : lists.flatten.filter (fun e => e.key = key') = l.filter (fun e => e.key = key') ++
              (lists.set i (l.filter fun e => !decide (e.key = key'))).flatten.filter (fun e => e.key = key') := by
          refine filter_flatten_set hi fun j hj l' hl' e he => ?_
          rw [decide_eq_false_iff_not]
          intro heq
          have hle := hfirst hl' he
          rw [heq, Prod.Lex.toLex_le_toLex] at hle
          rcases hle with hlt | ⟨-, hle⟩
          · exact lt_irrefl _ hlt
          · exact absurd hj (not_lt.mpr hle)
        have hpos : 0 < (l.filter fun e => e.key = key').length :=
          length_pos_of_mem (mem_filter.mpr ⟨hentry, by simpa using hkey⟩)
        obtain ⟨last, hlast, hinv', hcandidates'⟩ := ih hinv (fun l' hl' => by
            rcases mem_or_eq_of_mem_set hl' with hl' | rfl
            · exact hgroup l' hl'
            · exact (length_filter_le _ _).trans (hgroup l hmem))
          (by rw [hflatten, length_append] at hfuel; omega)
        refine ⟨last, ?_, ?_, ?_⟩
        · rw [show (ofLex (key', i)).2 = i from rfl, hrun, ok_bind, hlast]
        · rwa [map_filter_set hi] at hinv'
        · rw [hcandidates', hcandidates, groupCandidates, groupCandidates, groupCandidates, hflatten,
            filterMap_append, append_assoc]
      · obtain ⟨entry, rest, hi, rfl⟩ := (hheads.mem_iff key' i).mp mem_cons_self
        have hlt : key < entry.key := lt_of_le_of_ne
          (h.le _ (mem_of_getElem? hi) entry mem_cons_self) (Ne.symm hitem)
        refine ⟨merge, rfl, h.done fun l hl e he => ?_⟩
        obtain ⟨j, hj⟩ := mem_iff_getElem?.mp hl
        have hle : entry.key ≤ e.key := Prod.Lex.monotone_fst _ _ (hfirst hj he)
        exact (hlt.trans_le hle).ne'

end

/-- A turn of the heap loop collects the group of the least key. -/
theorem collectTurn_spec {i groupFuel : Nat} (h : MergeInv key lists ⟨cursors, toLex (key, i) :: heap, []⟩)
    (hgroup : ∀ l ∈ lists, l.length ≤ groupFuel) (hfuel : lists.flatten.length ≤ fuel + 1) :
    ∃ next, (collectScanGroupFromCursor key i groupFuel ⟨cursors, heap, []⟩ >>=
        collectMatching key groupFuel fuel) = .ok next ∧
      MergeInv key (lists.map (filter fun e => !decide (e.key = key))) next ∧
      next.candidates = groupCandidates lists.flatten key := by
  obtain ⟨next, hrun, hinv, hcandidates⟩ := collectMatching_spec h hgroup ((length_filter_le _ _).trans hfuel)
  refine ⟨next, ?_, hinv, hcandidates⟩
  rw [← hrun, collectMatching]
  exact (if_pos rfl).symm

/-- The loop over the heap selects for each key of the cursors. -/
theorem scanHeapSources_spec (hyields : YieldsAll cursors lists) (hheads : MergeHeap.Heads (·.key) lists heap)
    (hsorted : ∀ l ∈ lists, SortedEntries l) (hfuel : lists.flatten.length ≤ fuel) (output : ScanOutput) :
    request.Returns output lists.flatten (scanHeapSources request fuel cursors heap output) := by
  induction fuel generalizing cursors lists heap output with
  | zero =>
    rw [eq_nil_of_length_eq_zero (Nat.le_zero.mp hfuel)]
    exact request.returns_nil output
  | succ fuel ih =>
    cases heap with
    | nil =>
      rw [hheads.nil]
      exact request.returns_nil output
    | cons item heap =>
      obtain ⟨key, i⟩ := item
      have hle : ∀ l ∈ lists, ∀ entry ∈ l, key ≤ entry.key := by
        intro l hl entry hentry
        obtain ⟨j, hj⟩ := mem_iff_getElem?.mp hl
        exact Prod.Lex.monotone_fst _ _ (hheads.le hsorted hj hentry)
      obtain ⟨first, rest, hi, hkey⟩ := (hheads.mem_iff key i).mp mem_cons_self
      have hfirst : first ∈ lists.flatten := mem_flatten.mpr ⟨_, mem_of_getElem? hi, mem_cons_self⟩
      obtain ⟨next, hrun, hinv, hcandidates⟩ := collectTurn_spec ⟨hyields, hheads, hsorted, hle⟩
        (fun l hl => (sublist_flatten_of_mem hl).length_le.trans hfuel) (Nat.le_succ_of_le hfuel)
      have hlater := ih hinv.yields hinv.heads hinv.sorted (by
        rw [← filter_flatten]
        have hlt : (lists.flatten.filter fun e => !decide (e.key = key)).length <
            lists.flatten.length :=
          length_filter_lt_length_iff_exists.mpr ⟨first, hfirst, by simp [hkey]⟩
        omega) (request.emit (request.select lists.flatten key) output).1
      rw [← filter_flatten] at hlater
      have hturn := request.returns_turn ⟨first, hfirst, hkey⟩ (fun entry hentry => by
        obtain ⟨l, hl, he⟩ := mem_flatten.mp hentry
        exact hle l hl entry he) hlater
      have hunfold : scanHeapSources request (fuel + 1) cursors (toLex (key, i) :: heap) output =
          (collectScanGroupFromCursor key i (fuel + 1) ⟨cursors, heap, []⟩ >>=
            collectMatching key (fuel + 1) (fuel + 1)) >>= fun merge =>
              if (request.emit (selectVisibleRowOrTombstone merge.candidates request.effectiveBound) output).2 then
                .ok (request.emit (selectVisibleRowOrTombstone merge.candidates
                  request.effectiveBound) output).1.rows
              else scanHeapSources request fuel merge.cursors merge.heap
                (request.emit (selectVisibleRowOrTombstone merge.candidates request.effectiveBound) output).1 := by
        rw [bind_assoc]
        rfl
      rw [show (key, i) = toLex (key, i) from rfl, hunfold, hrun, ok_bind, hcandidates]
      exact hturn

/-- Both ways of scanning select for each key of the cursors. -/
theorem scanSources_spec (hyields : YieldsAll cursors lists)
    (hsorted : ∀ l ∈ lists, SortedEntries l) (hfuel : lists.flatten.length ≤ fuel) :
    request.Returns ⟨[], 0⟩ lists.flatten (scanSources request fuel cursors) := by
  unfold scanSources
  split
  · rename_i cursor
    obtain ⟨entries, rfl⟩ := length_eq_one_iff.mp hyields.length_eq.symm
    have hflatten : [entries].flatten = entries := by simp
    rw [hflatten] at hfuel ⊢
    exact scanSingleSource_spec request (hyields.yields 0 cursor entries rfl rfl)
      (hsorted entries mem_cons_self) hfuel _
  · rw [hyields.map_currentLogicalKey]
    exact scanHeapSources_spec request hyields (MergeHeap.heads_ofKeys _ _) hsorted hfuel _

end Merge

end Strata
