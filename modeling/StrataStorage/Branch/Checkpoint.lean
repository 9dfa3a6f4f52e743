import StrataStorage.Branch.State

/-!
# Checkpoint rows

`branch/state/snapshot.rs`: a checkpoint holds the rows of the active and the frozen
tables up to a watermark, in key order. The rows are collected from all of these
tables, sorted, and required to be in strict order; replay may leave a row in two of the
tables, and such a row makes the checkpoint fail (`checkpointRows_iff_nodup`).
-/

namespace Strata

open List Except

/-- The loops over the tables, with `push_checkpoint_row` as their body. -/
def pushCheckpointRows (branchId : BranchId) (watermark : CommitVersion) :
    List StorageRow → Except BranchRuntimeError (List StorageRow)
  | [] => .ok []
  | row :: rows => do
    requirePhysicalKeyBranch branchId row.physicalKey
    let pushed ← pushCheckpointRows branchId watermark rows
    .ok (if row.commitVersion ≤ watermark then row :: pushed else pushed)

/-- The loop of `validate_checkpoint_rows`, behind the key `previous`. -/
def validateCheckpointRows (previous : Option Bytes) : List StorageRow → Except BranchRuntimeError Unit
  | [] => .ok ()
  | row :: rows => do
    .require (previous.all (· < row.key))
      (.invalidBranchState "checkpoint rows must be strictly sorted by internal key")
    validateCheckpointRows (some row.key) rows

namespace BranchLocalState

/-- The rows of the active table and of the frozen ones. -/
def unsealed (state : BranchLocalState) : List StorageRow :=
  state.active.visibleRows ++ state.frozen.flatMap (·.table.visibleRows)

def checkpointRows (state : BranchLocalState) (watermark : CommitVersion) :
    Except BranchRuntimeError (List StorageRow) := do
  if watermark = 0 then .ok []
  else
    .require state.inheritedLayers.isEmpty
      (.invalidBranchState "checkpoint requires inherited layers to be materialized first")
    let rows ← pushCheckpointRows state.branchId watermark state.unsealed
    let rows := rows.mergeSort (·.key ≤ ·.key)
    validateCheckpointRows none rows
    .ok rows

end BranchLocalState

variable {branchId : BranchId} {watermark : CommitVersion} {rows : List StorageRow}

theorem pushCheckpointRows_eq_ok (h : ∀ row ∈ rows, row.physicalKey.branchId = branchId) :
    pushCheckpointRows branchId watermark rows = .ok (rows.filter (·.commitVersion ≤ watermark)) := by
  induction rows with
  | nil => rfl
  | cons row rows ih =>
    obtain ⟨hrow, hrows⟩ := forall_mem_cons.mp h
    rw [pushCheckpointRows, requirePhysicalKeyBranch, if_pos hrow, ih hrows, filter_cons]
    simp [ok_bind]

theorem validateCheckpointRows_eq_ok {previous : Option Bytes} : validateCheckpointRows previous rows = .ok () ↔
      (∀ key ∈ previous, ∀ row ∈ rows, key < row.key) ∧ SortedRows rows := by
  induction rows generalizing previous with
  | nil => simp [validateCheckpointRows, SortedRows]
  | cons row rows ih =>
    rw [validateCheckpointRows, check_bind_eq_ok, require_eq_ok, ih, SortedRows, SortedRows, pairwise_cons,
      Option.all_eq_true]
    simp only [decide_eq_true_eq, Option.mem_def, Option.some.injEq, forall_eq', mem_cons, forall_eq_or_imp]
    constructor
    · rintro ⟨hprevious, hrow, hrows⟩
      exact ⟨fun key hkey => ⟨hprevious key hkey, fun r hr => (hprevious key hkey).trans (hrow r hr)⟩, hrow, hrows⟩
    · rintro ⟨hprevious, hrow, hrows⟩
      exact ⟨fun key hkey => (hprevious key hkey).1, hrow, hrows⟩

/-- Sorted rows are in strict order exactly if no key occurs twice. -/
theorem sortedRows_mergeSort : SortedRows (rows.mergeSort (·.key ≤ ·.key)) ↔ (rows.map (·.key)).Nodup := by
  have hperm : (rows.mergeSort (·.key ≤ ·.key)).Perm rows := mergeSort_perm ..
  have hsorted : (rows.mergeSort (·.key ≤ ·.key)).Pairwise (·.key ≤ ·.key) := by
    refine (pairwise_mergeSort ?_ ?_ rows).imp fun h => by simpa using h
    · intro a b c hab hbc
      rw [decide_eq_true_eq] at hab hbc ⊢
      exact hab.trans hbc
    · intro a b
      rw [Bool.or_eq_true, decide_eq_true_eq, decide_eq_true_eq]
      exact le_total a.key b.key
  rw [← (hperm.map _).nodup_iff]
  constructor
  · intro h
    exact pairwise_map.mpr (h.imp fun hlt => hlt.ne)
  · intro h
    exact (hsorted.and (pairwise_map.mp h)).imp fun ⟨hle, hne⟩ => lt_of_le_of_ne hle hne

theorem checkpointRows_eq_ok {state : BranchLocalState} (hlayers : state.inheritedLayers = [])
    (hwatermark : watermark ≠ 0) : state.checkpointRows watermark = .ok rows ↔
      ((state.unsealed.filter (·.commitVersion ≤ watermark)).map (·.key)).Nodup ∧
      rows = (state.unsealed.filter (·.commitVersion ≤ watermark)).mergeSort (·.key ≤ ·.key) := by
  have hbranch : ∀ row ∈ state.unsealed, row.physicalKey.branchId = state.branchId := by
    intro row hrow
    exact state.own_branch row (mem_append_left _ hrow)
  rw [BranchLocalState.checkpointRows, if_neg hwatermark, check_bind_eq_ok, require_eq_ok, hlayers,
    pushCheckpointRows_eq_ok hbranch, ok_bind, check_bind_eq_ok, validateCheckpointRows_eq_ok,
    sortedRows_mergeSort]
  simp [eq_comm]

/-- At a nonzero watermark and without inherited layers, a checkpoint returns each row of
the active and frozen tables up to the watermark exactly once, in strict key order, exactly
if no internal key of these rows is in two tables. -/
theorem checkpointRows_iff_nodup (state : BranchLocalState) (watermark : CommitVersion)
    (hlayers : state.inheritedLayers = []) (hwatermark : watermark ≠ 0) :
    (∃ rows, state.checkpointRows watermark = .ok rows ∧ SortedRows rows ∧
      ∀ row, row ∈ rows ↔ row ∈ state.unsealed ∧ row.commitVersion ≤ watermark) ↔
    ((state.unsealed.filter (·.commitVersion ≤ watermark)).map (·.key)).Nodup := by
  constructor
  · rintro ⟨rows, hrows, -, -⟩
    exact ((checkpointRows_eq_ok hlayers hwatermark).mp hrows).1
  · intro hnodup
    refine ⟨_, (checkpointRows_eq_ok hlayers hwatermark).mpr ⟨hnodup, rfl⟩,
      sortedRows_mergeSort.mpr hnodup, fun row => ?_⟩
    rw [(mergeSort_perm ..).mem_iff, mem_filter, decide_eq_true_eq]

namespace Sample

/-- A branch that freezes its active table as soon as it holds a row, once. -/
def freezing : BranchLocalState := .new branch ⟨1, 1⟩

/-- Three commits: the first is in the frozen table, the others in the active one, and the
last is above the watermark. -/
theorem checkpointRows_commits : ∃ state,
    ((freezing.appendCommittedRowsAtomically [put 1 1]).bind fun state =>
      (state.appendCommittedRowsAtomically [put 2 2]).bind
        (·.appendCommittedRowsAtomically [.tombstone key 3 3])) = .ok state ∧
      state.unsealed.map (·.commitVersion) = [3, 2, 1] ∧
      ∃ rows, state.checkpointRows 2 = .ok rows ∧ SortedRows rows ∧
        ∀ row, row ∈ rows ↔ row ∈ state.unsealed ∧ row.commitVersion ≤ 2 :=
  ⟨_, rfl, by decide +kernel, (checkpointRows_iff_nodup _ 2 rfl (by decide)).mpr (by decide +kernel)⟩

/-- A row replayed behind a rotation: it is in the active and in a frozen table, in both
the same, and there is no checkpoint. -/
theorem checkpointRows_replayed : ∃ state, ((freezing.appendCommittedRowsAtomically [put 1 1]).bind
    (·.appendCommittedRowsAtomically [put 1 1])) = .ok state ∧ state.inheritedLayers = [] ∧
      RowsAgree state.unsealed ∧ ∀ rows, state.checkpointRows 1 ≠ .ok rows := by
  refine ⟨_, rfl, rfl, by decide +kernel, fun rows hrows => ?_⟩
  have hnodup := ((checkpointRows_eq_ok rfl (by decide)).mp hrows).1
  revert hnodup
  decide +kernel

end Sample

end Strata
