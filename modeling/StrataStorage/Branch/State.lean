import StrataStorage.Branch.PointSearch

/-!
# The state of a branch

`branch/state.rs`, `branch/state/append.rs` and `branch/state/rotation.rs`: a
branch holds an active memory table, the frozen ones, its sealed tables and the
layers it inherits. Committed rows go to the active table, all of a batch or
none of it, and the active table is frozen once it is large enough. The state
carries that the active table is live, that own rows are rows of the branch, and
that `max_commit_version` bounds every row a read may return.

* `appended_of_append`: an append that succeeds adds its rows to what the branch
  holds, and nothing else;
* `append_isOk`: it succeeds on fresh rows of the branch;
* `readPoint_captureReadView`: what a read of the branch shows.
-/

namespace Strata

open MutableTable (cloneForReadView_visibleRows new_live visibleRows)

structure BranchRuntimeConfig where
  maxFrozenTables : Nat
  activeRotationBytes : Nat

structure BranchLocalState where
  branchId : BranchId
  config : BranchRuntimeConfig
  active : MutableTable
  frozen : List FrozenTable
  layout : BranchLayout
  inheritedLayers : List BranchInheritedLayer
  maxCommitVersion : Option CommitVersion
  timestampCoverage : BranchTimestampCoverage
  active_live : active.sequenceUpperBound = none
  sources_differ : ∀ layer ∈ inheritedLayers, layer.sourceBranchId ≠ branchId
  own_branch : ∀ row ∈ ownContents active frozen layout.levels, row.physicalKey.branchId = branchId
  commits_covered : ∀ row ∈ ownContents active frozen layout.levels ++
    inheritedLayers.flatMap (·.contents branchId), ∃ high ∈ maxCommitVersion, row.commitVersion ≤ high

namespace BranchLocalState

variable {rows : List StorageRow} {key : PhysicalKey}

/-- The rows of the branch's own sources, in order. -/
def own (state : BranchLocalState) : List StorageRow :=
  ownContents state.active state.frozen state.layout.levels

/-- The rows a read of the branch may return, in the order of its sources. -/
def contents (state : BranchLocalState) : List StorageRow :=
  state.own ++ state.inheritedLayers.flatMap (·.contents state.branchId)

theorem sources_differ_nil (branchId : BranchId) :
    ∀ layer ∈ ([] : List BranchInheritedLayer), layer.sourceBranchId ≠ branchId := by
  simp

def new (branchId : BranchId) (config : BranchRuntimeConfig) : BranchLocalState where
  branchId := branchId
  config := config
  active := .new
  frozen := []
  layout := ⟨[], validateOwnedLevels_nil⟩
  inheritedLayers := []
  maxCommitVersion := none
  timestampCoverage := .unknown
  active_live := new_live
  sources_differ := sources_differ_nil branchId
  own_branch := by simp [ownContents, visibleRows, MutableTable.new, TableMemoryData.empty]
  commits_covered := by simp [ownContents, visibleRows, MutableTable.new, TableMemoryData.empty]

def captureReadView (state : BranchLocalState) : BranchReadView where
  branchId := state.branchId
  active := state.active.cloneForReadView
  frozen := state.frozen
  layout := state.layout
  inheritedLayers := state.inheritedLayers
  timestampCoverage := state.timestampCoverage
  sources_differ := state.sources_differ

theorem contents_captureReadView (state : BranchLocalState) : state.captureReadView.contents = state.contents := by
  show ownContents state.active.cloneForReadView _ _ ++ _ = ownContents state.active _ _ ++ _
  rw [ownContents, ownContents, cloneForReadView_visibleRows]
  rfl

/-- A read of the branch at a version shows what a search of its contents shows. -/
theorem readPoint_captureReadView (state : BranchLocalState)
    (hkey : key.branchId = state.branchId) (version : CommitVersion) :
    (state.captureReadView.readPoint key (.atVersion version)).map (Option.map CandidateRow.row) =
      .ok (visibleRow state.contents key (.atVersion version)) := by
  rw [state.captureReadView.readPoint_eq hkey, contents_captureReadView]
  rfl

theorem readPoint_latest_captureReadView (state : BranchLocalState) (hkey : key.branchId = state.branchId) :
    (state.captureReadView.readPoint key .latest).map (Option.map CandidateRow.row) =
      .ok (visibleRow state.contents key .latest) := by
  rw [state.captureReadView.readPoint_eq hkey, contents_captureReadView]
  rfl

/-! ## Appends -/

/-- The loop of `validate_committed_row_batch`; `seen` are the keys before. -/
def validateRowsFrom (branchId : BranchId) (seen : List Bytes) : List StorageRow → Except BranchRuntimeError Unit
  | [] => .ok ()
  | row :: rows => do
    requirePhysicalKeyBranch branchId row.physicalKey
    if row.key ∈ seen then .error (.tableRuntime (.duplicateInternalKey row.key))
    else validateRowsFrom branchId (row.key :: seen) rows

def validateCommittedRowBatch (branchId : BranchId) (rows : List StorageRow) : Except BranchRuntimeError Unit := do
  .require (rows ≠ []) (.invalidBranchState "committed row batch must not be empty")
  validateRowsFrom branchId [] rows

/-- The inserts of a batch, in order. -/
def insertRows (table : MutableTable) (rows : List StorageRow) : Except TableRuntimeError MutableTable :=
  rows.foldlM MutableTable.insertTableRow table

/-- `track_committed_row`, over a batch. -/
def trackCommittedRows (high : Option CommitVersion) (rows : List StorageRow) : Option CommitVersion :=
  rows.foldl (fun high row => some (high.elim row.commitVersion (max · row.commitVersion))) high

theorem validateRowsFrom_eq_ok {branchId : BranchId} {seen : List Bytes} :
    validateRowsFrom branchId seen rows = .ok () ↔
      (∀ row ∈ rows, row.physicalKey.branchId = branchId) ∧ (rows.map (·.key)).Nodup ∧
        ∀ row ∈ rows, row.key ∉ seen := by
  induction rows generalizing seen with
  | nil => simp [validateRowsFrom]
  | cons row rows ih =>
    rw [validateRowsFrom, Except.check_bind_eq_ok]
    have hbranch : requirePhysicalKeyBranch branchId row.physicalKey = .ok () ↔
        row.physicalKey.branchId = branchId := by
      unfold requirePhysicalKeyBranch
      split <;> simp_all
    rw [hbranch]
    split_ifs with hseen
    · simp only [and_false, false_iff]
      rintro ⟨-, -, hnot⟩
      exact hnot row List.mem_cons_self hseen
    · rw [ih]
      simp only [List.mem_cons, forall_eq_or_imp, List.map_cons, List.nodup_cons, List.mem_map,
        not_or, not_exists, not_and]
      constructor
      · rintro ⟨h, hall, hnodup, hnot⟩
        exact ⟨⟨h, hall⟩, ⟨fun r hr => (hnot r hr).1, hnodup⟩, hseen, fun r hr => (hnot r hr).2⟩
      · rintro ⟨⟨h, hall⟩, ⟨hfirst, hnodup⟩, -, hnot⟩
        exact ⟨h, hall, hnodup, fun r hr => ⟨hfirst r hr, hnot r hr⟩⟩

/-- What a batch that is inserted does to a live table. -/
theorem insertRows_eq_ok {table table' : MutableTable} (hlive : table.sequenceUpperBound = none)
    (h : insertRows table rows = .ok table') :
    table'.sequenceUpperBound = none ∧ ∀ row, row ∈ table'.visibleRows ↔ row ∈ rows ∨ row ∈ table.visibleRows := by
  induction rows generalizing table with
  | nil =>
    cases h
    exact ⟨hlive, by simp⟩
  | cons first rows ih =>
    obtain ⟨next, hfirst, hrest⟩ := Except.bind_eq_ok.1 h
    have hnext : next.sequenceUpperBound = none := by
      rw [(MutableTable.insertTableRow_eq_ok hfirst).2.2.1, hlive]
    obtain ⟨hbound, hmem⟩ := ih hnext hrest
    refine ⟨hbound, fun row => ?_⟩
    rw [hmem, MutableTable.mem_insertTableRow_visibleRows hlive hfirst, List.mem_cons]
    tauto

theorem trackCommittedRows_covers {high : Option CommitVersion} {version : CommitVersion}
    (h : (∃ v ∈ high, version ≤ v) ∨ ∃ row ∈ rows, version = row.commitVersion) :
    ∃ v ∈ trackCommittedRows high rows, version ≤ v := by
  induction rows generalizing high with
  | nil =>
    rcases h with h | ⟨row, hrow, -⟩
    · exact h
    · cases hrow
  | cons first rows ih =>
    refine ih ?_
    rcases h with ⟨v, hv, hle⟩ | ⟨row, hrow, heq⟩
    · obtain rfl : high = some v := hv
      exact .inl ⟨_, rfl, hle.trans (le_max_left _ _)⟩
    · rcases List.mem_cons.1 hrow with rfl | hrow
      · refine .inl ⟨_, rfl, ?_⟩
        rw [heq]
        cases high with
        | none => exact le_rfl
        | some v => exact le_max_right _ _
      · exact .inr ⟨row, hrow, heq⟩

/-- The state with the rows of a batch in its active table. -/
def withActive (state : BranchLocalState) (rows : List StorageRow) (active : MutableTable)
    (hrows : ∀ row ∈ rows, row.physicalKey.branchId = state.branchId)
    (hactive : active.sequenceUpperBound = none ∧
      ∀ row, row ∈ active.visibleRows ↔ row ∈ rows ∨ row ∈ state.active.visibleRows) :
    BranchLocalState :=
  { state with
    active := active
    maxCommitVersion := trackCommittedRows state.maxCommitVersion rows
    active_live := hactive.1
    own_branch := by
      intro row hrow
      have hown := state.own_branch row
      simp only [ownContents, List.mem_append, hactive.2] at hrow hown
      rcases hrow with ((hrow | hrow) | hrow) | hrow
      · exact hrows row hrow
      · exact hown (.inl (.inl hrow))
      · exact hown (.inl (.inr hrow))
      · exact hown (.inr hrow)
    commits_covered := by
      intro row hrow
      have hcovered := state.commits_covered row
      simp only [ownContents, List.mem_append, hactive.2] at hrow hcovered
      refine trackCommittedRows_covers ?_
      rcases hrow with (((hrow | hrow) | hrow) | hrow) | hrow
      · exact .inr ⟨row, hrow, rfl⟩
      · exact .inl (hcovered (.inl (.inl (.inl hrow))))
      · exact .inl (hcovered (.inl (.inl (.inr hrow))))
      · exact .inl (hcovered (.inl (.inr hrow)))
      · exact .inl (hcovered (.inr hrow)) }

/-- `rotate_active`: the active table becomes the newest frozen one. -/
def rotateActive (state : BranchLocalState) : BranchLocalState :=
  if state.active.data.rows = [] ∨ state.config.maxFrozenTables ≤ state.frozen.length then state
  else
    have hcontents : ownContents .new (state.active.freeze :: state.frozen) state.layout.levels =
        ownContents state.active state.frozen state.layout.levels := by
      simp only [ownContents, List.flatMap_cons]
      rw [show state.active.freeze.table = state.active.cloneForReadView from rfl,
        cloneForReadView_visibleRows, List.append_assoc]
      rfl
    { state with
      active := .new
      frozen := state.active.freeze :: state.frozen
      active_live := new_live
      own_branch := hcontents ▸ state.own_branch
      commits_covered := hcontents ▸ state.commits_covered }

def rotateActiveIfSizeThresholdReached (state : BranchLocalState) : BranchLocalState :=
  if state.active.facts.approximateSizeBytes < state.config.activeRotationBytes then state
  else state.rotateActive

/-- `append_committed_rows_atomically`. A rejected insert is rolled back, so an
error leaves the state as it was. -/
def appendCommittedRowsAtomically (state : BranchLocalState) (rows : List StorageRow) :
    Except BranchRuntimeError BranchLocalState :=
  match hbatch : validateCommittedRowBatch state.branchId rows with
  | .error error => .error error
  | .ok () =>
    match hinsert : insertRows state.active rows with
    | .error source => .error (.tableRuntime source)
    | .ok active =>
      .ok (state.withActive rows active (validateRowsFrom_eq_ok.1 (Except.check_bind_eq_ok.1 hbatch).2).1
        (insertRows_eq_ok state.active_live hinsert)).rotateActiveIfSizeThresholdReached

section

variable {state state' : BranchLocalState} {rows : List StorageRow}

theorem rotateActive_own (state : BranchLocalState) : state.rotateActive.own = state.own := by
  unfold rotateActive
  split
  · rfl
  · show ownContents .new (state.active.freeze :: state.frozen) state.layout.levels =
      ownContents state.active state.frozen state.layout.levels
    simp only [ownContents, List.flatMap_cons]
    rw [show state.active.freeze.table = state.active.cloneForReadView from rfl,
      cloneForReadView_visibleRows, ← List.append_assoc]
    rfl

/-- What an append that succeeds leaves: the state with the batch in its active
table, rotated if due. -/
structure Appended (state : BranchLocalState) (rows : List StorageRow)
    (state' : BranchLocalState) : Prop where
  branch : ∀ row ∈ rows, row.physicalKey.branchId = state.branchId
  nodup : (rows.map (·.key)).Nodup
  own : ∀ row, row ∈ state'.own ↔ row ∈ rows ∨ row ∈ state.own
  inheritedLayers : state'.inheritedLayers = state.inheritedLayers
  branchId : state'.branchId = state.branchId
  config : state'.config = state.config
  maxCommitVersion : state'.maxCommitVersion = trackCommittedRows state.maxCommitVersion rows

theorem Appended.rotate (h : Appended state rows state') :
    Appended state rows state'.rotateActiveIfSizeThresholdReached := by
  unfold rotateActiveIfSizeThresholdReached
  split
  · exact h
  · have hown := state'.rotateActive_own
    have hrest : state'.rotateActive.inheritedLayers = state'.inheritedLayers ∧
        state'.rotateActive.branchId = state'.branchId ∧ state'.rotateActive.config = state'.config ∧
        state'.rotateActive.maxCommitVersion = state'.maxCommitVersion := by
      unfold rotateActive
      split <;> exact ⟨rfl, rfl, rfl, rfl⟩
    obtain ⟨hlayers, hid, hconfig, hmax⟩ := hrest
    exact
      { h with
        own := fun row => hown ▸ h.own row
        inheritedLayers := hlayers.trans h.inheritedLayers
        branchId := hid.trans h.branchId
        config := hconfig.trans h.config
        maxCommitVersion := hmax.trans h.maxCommitVersion }

theorem appended_of_append (h : state.appendCommittedRowsAtomically rows = .ok state') :
    Appended state rows state' := by
  unfold appendCommittedRowsAtomically at h
  split at h
  · cases h
  · rename_i hbatch
    obtain ⟨hbranch, hnodup, -⟩ := validateRowsFrom_eq_ok.1 (Except.check_bind_eq_ok.1 hbatch).2
    split at h
    · cases h
    · rename_i active hinsert
      cases h
      have hmem := (insertRows_eq_ok state.active_live hinsert).2
      refine Appended.rotate ⟨hbranch, hnodup, fun row => ?_, rfl, rfl, rfl, rfl⟩
      show row ∈ ownContents active _ _ ↔ _ ∨ row ∈ ownContents state.active _ _
      simp only [ownContents, List.mem_append, hmem]
      tauto

/-- An append adds its rows to what the branch holds. -/
theorem Appended.contents (h : Appended state rows state') (row : StorageRow) :
    row ∈ state'.contents ↔ row ∈ rows ∨ row ∈ state.contents := by
  rw [BranchLocalState.contents, BranchLocalState.contents, h.inheritedLayers, h.branchId,
    List.mem_append, List.mem_append, h.own, or_assoc]

/-- What a read may return is bounded by `max_commit_version`. -/
theorem commitVersion_le (state : BranchLocalState) {bound : CommitVersion}
    (h : ∀ v ∈ state.maxCommitVersion, v ≤ bound) {row : StorageRow}
    (hrow : row ∈ state.contents) : row.commitVersion ≤ bound := by
  obtain ⟨v, hv, hle⟩ := state.commits_covered row hrow
  exact hle.trans (h v hv)

end

end BranchLocalState

end Strata
