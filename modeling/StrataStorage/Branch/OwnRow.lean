import Mathlib.Data.List.Nodup
import StrataStorage.Branch.State

/-!
# Looking for one row of a branch

`classify_own_internal_row` of `branch/read.rs`: whether the own sources of a
branch hold a given row, another row under its internal key, or neither. Each
source is asked for its newest row of the key up to the row's version.
`classifyOwnInternalRow_eq` says that the answer depends on the branch's own rows
alone, whichever sources hold them.
-/

namespace Strata

open Except List BranchEffectiveReadBound

inductive BranchOwnRowMatch where
  | equal
  | sameVersionDiffers
  | absent
  deriving DecidableEq

/-- The walk over the answers of the sources. A row that differs is remembered,
and the walk goes on: a later source may hold an equal copy. -/
def foldProbes (target : StorageRow) : Bool → List (Except BranchRuntimeError (Option StorageRow)) →
    Except BranchRuntimeError BranchOwnRowMatch
  | sameVersionDiffers, [] => .ok (if sameVersionDiffers then .sameVersionDiffers else .absent)
  | sameVersionDiffers, probe :: probes => do
    match ← probe with
    | none => foldProbes target sameVersionDiffers probes
    | some row =>
      if row.commitVersion ≠ target.commitVersion then foldProbes target sameVersionDiffers probes
      else if row = target then .ok .equal
      else foldProbes target true probes

/-- The probes of one level: every table of level zero, and the one bisected table
of another level. -/
def levelProbes (lookup : TablePreparedPointLookup) (levelIndex : Nat)
    (tables : List BranchOwnedTable) : List (Except BranchRuntimeError (Option StorageRow)) :=
  if levelIndex = 0 then
    tables.map fun table => (table.reader.seekPreparedPoint lookup).mapError .tableRuntime
  else if tables = [] then []
  else
    [do
      let found ← selectNonzeroLevelPointTable tables lookup.physicalKey
      match found.bind (tables[·]?) with
      | none => .ok none
      | some table => (table.reader.seekPreparedPoint lookup).mapError .tableRuntime]

/-- The probes of a view, in the order of its own sources. -/
def BranchReadView.ownProbes (view : BranchReadView) (lookup : TablePreparedPointLookup) :
    List (Except BranchRuntimeError (Option StorageRow)) :=
  .ok (view.active.seekPreparedPoint lookup) ::
    view.frozen.map (fun frozen => .ok (frozen.table.seekPreparedPoint lookup)) ++
    view.layout.levels.zipIdx.flatMap fun (tables, levelIndex) => levelProbes lookup levelIndex tables

def BranchReadView.classifyOwnInternalRow (view : BranchReadView) (target : StorageRow) :
    Except BranchRuntimeError BranchOwnRowMatch := do
  view.requireMatchingBranch target.physicalKey.branchId
  foldProbes target false (view.ownProbes (.new target.physicalKey (some target.commitVersion) none))

/-- The rows of the branch's own sources. -/
def BranchReadView.ownContents (view : BranchReadView) : List StorageRow :=
  Strata.ownContents view.active view.frozen view.layout.levels

/-- What a search of rows says of a row; `differs` says that a row that differs
was seen before. -/
def ownRowMatchFrom (differs : Bool) (rows : List StorageRow) (target : StorageRow) :
    BranchOwnRowMatch :=
  if target ∈ rows then .equal
  else if differs ∨ ∃ row ∈ rows, row.internalKey = target.internalKey then .sameVersionDiffers
  else .absent

/-- What a search of rows says of a row. -/
def ownRowMatch (rows : List StorageRow) (target : StorageRow) : BranchOwnRowMatch :=
  ownRowMatchFrom false rows target

section Match

variable {target : StorageRow} {rows rows' : List StorageRow} {differs : Bool}

/-- Only the rows under the target's internal key matter. -/
theorem ownRowMatchFrom_congr (h : ∀ row, row.internalKey = target.internalKey → (row ∈ rows ↔ row ∈ rows')) :
    ownRowMatchFrom differs rows target = ownRowMatchFrom differs rows' target := by
  have hexists : (∃ row ∈ rows, row.internalKey = target.internalKey) ↔
      ∃ row ∈ rows', row.internalKey = target.internalKey :=
    exists_congr fun row => and_congr_left fun hkey => h row hkey
  simp only [ownRowMatchFrom, h target rfl, hexists]

theorem ownRowMatchFrom_skip (h : ∀ row ∈ rows, row.internalKey ≠ target.internalKey) :
    ownRowMatchFrom differs (rows ++ rows') target = ownRowMatchFrom differs rows' target := by
  refine ownRowMatchFrom_congr fun row hkey => ?_
  have hrow : row ∉ rows := fun hin => h row hin hkey
  simp [hrow]

theorem ownRowMatchFrom_differs {row : StorageRow} (hrow : row ∈ rows)
    (hkey : row.internalKey = target.internalKey) (htarget : target ∉ rows) :
    ownRowMatchFrom differs (rows ++ rows') target = ownRowMatchFrom true rows' target := by
  have hexists : ∃ r ∈ rows ++ rows', r.internalKey = target.internalKey := ⟨row, mem_append_left _ hrow, hkey⟩
  simp only [ownRowMatchFrom, mem_append, htarget, false_or, true_or, if_true]
  rw [if_pos (Or.inr hexists)]

end Match

/-! ## The answer of a source -/

/-- A probe finds the row of the target's internal key, if `rows` hold one. -/
structure ProbesExact (target : StorageRow) (rows : List StorageRow)
    (probe : Except BranchRuntimeError (Option StorageRow)) : Prop where
  exists_ok : ∃ found, probe = .ok found ∧
    (∀ row ∈ rows, row.internalKey = target.internalKey → found = some row) ∧
    ∀ row, found = some row → row ∈ rows ∧ row.physicalKey = target.physicalKey

section Probes

variable {target : StorageRow} {rows : List StorageRow}
variable {tables : List BranchOwnedTable}

/-- Rows of other keys do not change what a probe says. -/
theorem ProbesExact.mono {rows' : List StorageRow}
    {probe : Except BranchRuntimeError (Option StorageRow)} (h : ProbesExact target rows probe)
    (hsub : rows ⊆ rows') (hother : ∀ row ∈ rows', row.physicalKey = target.physicalKey → row ∈ rows) :
    ProbesExact target rows' probe := by
  obtain ⟨found, hprobe, hexact, hmem⟩ := h
  refine ⟨found, hprobe, fun row hrow hkey => ?_, fun row hfound => ?_⟩
  · exact hexact row (hother row hrow (InternalKey.mk.inj hkey).1) hkey
  · exact ⟨hsub (hmem row hfound).1, (hmem row hfound).2⟩

/-- In a level, one table alone has a key in its range. -/
theorem DisjointTables.eq_of_range (h : DisjointTables tables) {a b : BranchOwnedTable} (ha : a ∈ tables)
    (hb : b ∈ tables) {key : Bytes} (hka : a.firstPhysical ≤ key ∧ key ≤ a.lastPhysical)
    (hkb : b.firstPhysical ≤ key ∧ key ≤ b.lastPhysical) : a = b := by
  obtain ⟨i, hi, rfl⟩ := mem_iff_getElem.1 ha
  obtain ⟨j, hj, rfl⟩ := mem_iff_getElem.1 hb
  rcases Nat.lt_trichotomy i j with hlt | rfl | hlt
  · have := pairwise_iff_getElem.1 h i j hi hj hlt
    order
  · rfl
  · have := pairwise_iff_getElem.1 h j i hj hi hlt
    order

theorem SortedRows.rowsAgree (h : SortedRows rows) : RowsAgree rows := by
  have hnodup : (rows.map (·.key)).Nodup := pairwise_map.2 (h.imp ne_of_lt)
  intro a ha b hb hkey
  exact inj_on_of_nodup_map hnodup ha hb (congrArg encodeInternalKey hkey)

/-- The newest row up to a version is the row of that version. -/
theorem probesExact_find? (h : SortedRows rows) : ProbesExact target rows
    (.ok (rows.find? (Satisfies target.physicalKey (some target.commitVersion) none))) := by
  refine ⟨_, rfl, fun row hrow hkey => ?_, fun row hfound => ?_⟩
  · obtain ⟨hphysical, hversion⟩ := InternalKey.mk.inj hkey
    have hwithin : row ∈ rowsWithin rows target.physicalKey (.atVersion target.commitVersion) :=
      mem_filter.2 ⟨hrow, by simp [Satisfies, rowMatchesPointBound, hphysical, hversion, forOwnBranch, new]⟩
    rw [find?_eq_argmax h]
    refine newestRow_eq_some_of_agree h.rowsAgree hwithin fun r hr => ?_
    have := satisfies_version (mem_filter.1 hr).2
    rw [hversion]
    simpa [forOwnBranch, new] using this
  · exact ⟨mem_of_find?_eq_some hfound, (satisfies_iff.1 (find?_some hfound)).1⟩

theorem probesExact_table (table : BranchOwnedTable) : ProbesExact target table.rows
    ((table.reader.seekPreparedPoint (.new target.physicalKey (some target.commitVersion)
      none)).mapError .tableRuntime) := by
  rw [table.reader.seekPreparedPoint_eq]
  exact probesExact_find? table.reader.rows_sorted

theorem probesExact_memory (table : MutableTable) : ProbesExact target table.visibleRows
    (.ok (table.seekPreparedPoint (.new target.physicalKey (some target.commitVersion) none))) := by
  rw [table.seekPreparedPoint_eq]
  exact probesExact_find? table.visibleRows_sorted

/-- The walk over sources that answer exactly. -/
theorem foldProbes_eq {sources : List (List StorageRow)}
    {probes : List (Except BranchRuntimeError (Option StorageRow))}
    (h : List.Forall₂ (ProbesExact target) sources probes) (differs : Bool) :
    foldProbes target differs probes = .ok (ownRowMatchFrom differs sources.flatten target) := by
  induction h generalizing differs with
  | nil => simp [foldProbes, ownRowMatchFrom]
  | @cons rows probe sources probes hprobe _ ih =>
    obtain ⟨found, rfl, hfound, hmem⟩ := hprobe
    rw [foldProbes, ok_bind, flatten_cons]
    cases found with
    | none =>
      rw [ownRowMatchFrom_skip fun row hrow hkey => by cases hfound row hrow hkey]
      exact ih differs
    | some row =>
      obtain ⟨hrow, hphysical⟩ := hmem row rfl
      dsimp only
      by_cases hversion : row.commitVersion = target.commitVersion
      · have hkey : row.internalKey = target.internalKey := by
          rw [StorageRow.internalKey, hphysical, hversion]
          rfl
        rw [if_neg (not_not.2 hversion)]
        by_cases heq : row = target
        · subst heq
          rw [if_pos rfl, ownRowMatchFrom, if_pos (mem_append_left _ hrow)]
        · have htarget : target ∉ rows := fun hin => heq (Option.some.inj (hfound target hin rfl))
          rw [if_neg heq, ownRowMatchFrom_differs hrow hkey htarget]
          exact ih true
      · -- the newest row up to the version is older, so no row has the version
        rw [if_pos hversion, ownRowMatchFrom_skip fun r hr hkey => ?_]
        · exact ih differs
        · rw [Option.some.inj (hfound r hr hkey)] at hversion
          exact hversion (InternalKey.mk.inj hkey).2

/-- One level of a valid layout answers as a whole. -/
theorem levelProbes_exact (target : StorageRow) {levelIndex : Nat}
    (hvalid : LevelValid levelIndex tables) : ∃ sources : List (List StorageRow),
      List.Forall₂ (ProbesExact target) sources
        (levelProbes (.new target.physicalKey (some target.commitVersion) none) levelIndex tables) ∧
      sources.flatten = tables.flatMap (·.rows) := by
  unfold levelProbes
  split
  · refine ⟨tables.map (·.rows), ?_, (flatMap_def).symm⟩
    exact forall₂_map_left_iff.2 (forall₂_map_right_iff.2 (forall₂_same.2 fun table _ => probesExact_table table))
  rename_i hlevel
  split
  · rename_i hempty
    subst hempty
    exact ⟨[], .nil, rfl⟩
  refine ⟨[tables.flatMap (·.rows)], .cons ?_ .nil, by simp⟩
  obtain ⟨found, hrun, hsome, hnone⟩ :=
    selectNonzeroLevelPointTable_eq_ok (hvalid.disjoint hlevel) (encodePhysicalKey target.physicalKey)
  rw [TablePreparedPointLookup.new_physicalKey, hrun, ok_bind]
  cases found with
  | none =>
    refine ⟨none, rfl, fun row hrow hkey => ?_, nofun⟩
    obtain ⟨table, htable, hrow⟩ := mem_flatMap.1 hrow
    have hphysical := (InternalKey.mk.inj hkey).1
    exact absurd (hphysical ▸ ⟨table.firstPhysical_le hrow, table.le_lastPhysical hrow⟩) (hnone rfl table htable)
  | some i =>
    obtain ⟨table, htable, hrange⟩ := hsome i rfl
    have hin := mem_of_getElem? htable
    rw [Option.bind_some, htable]
    refine (probesExact_table table).mono (fun row hrow => mem_flatMap.2 ⟨table, hin, hrow⟩)
      fun row hrow hphysical => ?_
    obtain ⟨other, hother, hrow⟩ := mem_flatMap.1 hrow
    rwa [(hvalid.disjoint hlevel).eq_of_range hin hother hrange
      (hphysical ▸ ⟨other.firstPhysical_le hrow, other.le_lastPhysical hrow⟩)]

/-- All the levels of a layout. -/
theorem levelsProbes_exact (target : StorageRow) {levels : List (List BranchOwnedTable)}
    {i : Nat} (h : validateOwnedLevelsFrom i levels = .ok ()) : ∃ sources : List (List StorageRow),
      List.Forall₂ (ProbesExact target) sources ((levels.zipIdx i).flatMap fun (tables, levelIndex) =>
          levelProbes (.new target.physicalKey (some target.commitVersion) none) levelIndex tables) ∧
      sources.flatten = levels.flatten.flatMap (·.rows) := by
  induction levels generalizing i with
  | nil => exact ⟨[], .nil, rfl⟩
  | cons tables levels ih =>
    obtain ⟨hvalid, hrest⟩ := validateOwnedLevelsFrom_cons.1 h
    obtain ⟨sources, hsources, hrows⟩ := levelProbes_exact target hvalid
    obtain ⟨more, hmore, hmoreRows⟩ := ih hrest
    refine ⟨sources ++ more, ?_, ?_⟩
    · rw [zipIdx_cons, flatMap_cons]
      exact rel_append hsources hmore
    · rw [flatten_append, hrows, hmoreRows, flatten_cons, flatMap_append]

end Probes

/-- The classification of a row is a search of the branch's own rows. -/
theorem BranchReadView.classifyOwnInternalRow_eq (view : BranchReadView) {target : StorageRow}
    (h : target.physicalKey.branchId = view.branchId) :
    view.classifyOwnInternalRow target = .ok (ownRowMatch view.ownContents target) := by
  obtain ⟨sources, hsources, hrows⟩ := levelsProbes_exact target view.layout.valid
  have hfrozen : List.Forall₂ (ProbesExact target) (view.frozen.map (·.table.visibleRows))
      (view.frozen.map fun frozen => .ok (frozen.table.seekPreparedPoint
        (.new target.physicalKey (some target.commitVersion) none))) :=
    forall₂_map_left_iff.2 (forall₂_map_right_iff.2
      (forall₂_same.2 fun frozen _ => probesExact_memory frozen.table))
  have hall := (List.Forall₂.cons (probesExact_memory view.active) hfrozen)
  rw [classifyOwnInternalRow, requireMatchingBranch, if_pos h, ok_bind, ownProbes,
    foldProbes_eq (rel_append hall hsources)]
  congr 1
  refine ownRowMatchFrom_congr fun row _ => ?_
  simp [hrows, ownContents, Strata.ownContents, flatMap_def]

@[simp] theorem BranchLocalState.ownContents_captureReadView (state : BranchLocalState) :
    state.captureReadView.ownContents = state.own := by
  show ownContents state.active.cloneForReadView _ _ = ownContents state.active _ _
  rw [ownContents, ownContents, MutableTable.cloneForReadView_visibleRows]
  rfl

end Strata
