import StrataStorage.Commit.Pipeline
import StrataStorage.Commit.Replay

/-!
# Passes over the log

What a pass of `replay_with_view` over records of ascending versions does, from any
branch, gate, allocator and visible version:

* `Passed.classifyReplayRows`: the view captured before the pass says of each record
  what a view captured just before the record says, since the rows the pass has
  added have other versions;
* `replayPass_twice`: a second pass changes neither the branch nor the allocator
  nor the visible version, whether the first one ended with an error or not.
-/

namespace Strata

open Except List
open BranchLocalState (ownContents_captureReadView)

/-- The rows of a record carry its commit facts. -/
theorem WalRecord.row_facts (record : WalRecord) {row : StorageRow}
    (h : row ∈ record.commitPayload.rows) : row.commitVersion = record.commitVersion ∧
      row.physicalKey.branchId = record.branchId ∧ row.commitTimestamp = record.commitTimestamp := by
  have hrow := forM_eq_ok.1 record.facts_valid row h
  obtain ⟨hversion, hrest⟩ := check_bind_eq_ok.1 hrow
  obtain ⟨hbranch, htimestamp⟩ := check_bind_eq_ok.1 hrest
  exact ⟨require_eq_ok.1 hversion, require_eq_ok.1 hbranch, require_eq_ok.1 htimestamp⟩

namespace Replay

open Stateful

variable {found : List BranchOwnRowMatch} {rows : List StorageRow} {request : CommitReplayRequest}
  {view view' : BranchReadView}

/-! ## The verdict on a record -/

/-- The count of `classify_replay_rows`, over what was found for each row. -/
def countMatches (exact absent : Nat) : List BranchOwnRowMatch → ReplayDuplicateState
  | [] => if exact = 0 then .absent else if absent = 0 then .exact else .partially
  | .equal :: found => countMatches (exact + 1) absent found
  | .absent :: found => countMatches exact (absent + 1) found
  | .sameVersionDiffers :: _ => .mismatch

theorem countMatches_exact {exact absent : Nat} (h : countMatches exact absent found = .exact) :
    absent = 0 ∧ ∀ m ∈ found, m = .equal := by
  induction found generalizing exact absent with
  | nil =>
    rw [countMatches] at h
    split at h
    · cases h
    · split at h
      · exact ⟨‹_›, by simp⟩
      · cases h
  | cons m found ih =>
    cases m with
    | equal =>
      obtain ⟨habsent, hall⟩ := ih h
      exact ⟨habsent, by simpa using hall⟩
    | absent => exact absurd (ih h).1 (Nat.succ_ne_zero absent)
    | sameVersionDiffers => cases h

theorem countMatches_equal {exact : Nat} (h : ∀ m ∈ found, m = .equal)
    (hne : exact ≠ 0 ∨ found ≠ []) : countMatches exact 0 found = .exact := by
  induction found generalizing exact with
  | nil =>
    have hexact : exact ≠ 0 := hne.resolve_right (not_not.2 rfl)
    rw [countMatches, if_neg hexact, if_pos rfl]
  | cons m found ih =>
    obtain ⟨rfl, hall⟩ := forall_mem_cons.1 h
    exact ih hall (.inl (Nat.succ_ne_zero exact))

theorem classifyReplayRowsFrom_eq
    (h : ∀ row ∈ rows, row.physicalKey.branchId = view.branchId) (exact absent : Nat) :
    classifyReplayRowsFrom view exact absent rows =
      .ok (countMatches exact absent (rows.map (ownRowMatch view.ownContents))) := by
  induction rows generalizing exact absent with
  | nil => rfl
  | cons row rows ih =>
    obtain ⟨hrow, hrows⟩ := forall_mem_cons.1 h
    rw [classifyReplayRowsFrom, view.classifyOwnInternalRow_eq hrow, map_cons]
    cases ownRowMatch view.ownContents row with
    | equal => exact ih hrows (exact + 1) absent
    | absent => exact ih hrows exact (absent + 1)
    | sameVersionDiffers => rfl

theorem ownRowMatch_eq_equal {target : StorageRow} : ownRowMatch rows target = .equal ↔ target ∈ rows := by
  unfold ownRowMatch ownRowMatchFrom
  split
  · simpa
  · split <;> simpa

/-- The rows of a record are all there exactly if the branch holds each of them. -/
theorem classifyReplayRows_exact {record : WalRecord}
    (hbranch : record.branchId = view.branchId) (hne : record.commitPayload.rows ≠ []) :
    classifyReplayRows view record.commitPayload.rows = .ok .exact ↔
      ∀ row ∈ record.commitPayload.rows, row ∈ view.ownContents := by
  rw [classifyReplayRows, classifyReplayRowsFrom_eq fun row hrow =>
    (record.row_facts hrow).2.1.trans hbranch, ok.injEq]
  constructor
  · intro h row hrow
    exact ownRowMatch_eq_equal.1 ((countMatches_exact h).2 _ (mem_map_of_mem hrow))
  · intro h
    refine countMatches_equal (fun m hm => ?_) (.inr (by simpa using hne))
    obtain ⟨row, hrow, rfl⟩ := mem_map.1 hm
    exact ownRowMatch_eq_equal.2 (h row hrow)

/-- Two views that hold the same rows of a record's version agree on the record. -/
theorem classifyReplayRows_congr (record : WalRecord) (hbranch : view.branchId = view'.branchId)
    (h : ∀ row, row.commitVersion = record.commitVersion → (row ∈ view.ownContents ↔ row ∈ view'.ownContents)) :
    classifyReplayRows view record.commitPayload.rows = classifyReplayRows view' record.commitPayload.rows := by
  have hrows : ∀ row ∈ record.commitPayload.rows,
      view.classifyOwnInternalRow row = view'.classifyOwnInternalRow row := by
    intro row hrow
    by_cases hid : row.physicalKey.branchId = view.branchId
    · rw [view.classifyOwnInternalRow_eq hid, view'.classifyOwnInternalRow_eq (hid.trans hbranch)]
      refine congrArg ok (ownRowMatchFrom_congr fun r hkey => h r ?_)
      exact (InternalKey.mk.inj hkey).2.trans (record.row_facts hrow).1
    · rw [BranchReadView.classifyOwnInternalRow, BranchReadView.classifyOwnInternalRow,
        BranchReadView.requireMatchingBranch, BranchReadView.requireMatchingBranch, if_neg hid,
        if_neg (hbranch ▸ hid)]
      rfl
  have hfrom : ∀ (rows : List StorageRow) (exact absent : Nat),
      (∀ row ∈ rows, view.classifyOwnInternalRow row = view'.classifyOwnInternalRow row) →
      classifyReplayRowsFrom view exact absent rows = classifyReplayRowsFrom view' exact absent rows := by
    intro rows
    induction rows with
    | nil => intros; rfl
    | cons row rows ih =>
      intro exact absent hrows
      obtain ⟨hrow, hrest⟩ := forall_mem_cons.1 hrows
      simp only [classifyReplayRowsFrom, hrow, ih _ _ hrest]
  exact hfrom _ 0 0 hrows

/-! ## One record of a pass -/

variable {config : CommitRuntimeConfig} {durability : CommitDurabilityClass}
  {record other : WalRecord} {s s' s₀ : ReplayState}

/-- Nothing but the gate differs. -/
structure SameCore (s s' : ReplayState) : Prop where
  branch : s'.branch = s.branch
  lastAllocated : s'.lastAllocated = s.lastAllocated
  lastTimestamp : s'.lastTimestamp = s.lastTimestamp
  visible : s'.visible = s.visible

/-- The rows of a record are in the branch, and the allocator and the visible
version have reached it. -/
structure Settled (s : ReplayState) (record : WalRecord) : Prop where
  branchId : record.branchId = s.branch.branchId
  rows_ne : record.commitPayload.rows ≠ []
  rows : ∀ row ∈ record.commitPayload.rows, row ∈ s.branch.own
  version : record.commitVersion ≤ s.lastAllocated
  timestamp : ∃ last ∈ s.lastTimestamp, record.commitTimestamp ≤ last
  visible : record.commitVersion ≤ s.visible

/-- What the records before left of the branch: its own rows, and theirs. -/
structure Reached (s₀ : ReplayState) (before : List WalRecord) (s : ReplayState) : Prop where
  branchId : s.branch.branchId = s₀.branch.branchId
  layers : s.branch.inheritedLayers = s₀.branch.inheritedLayers
  grows : ∀ row ∈ s₀.branch.own, row ∈ s.branch.own
  added : ∀ row ∈ s.branch.own, row ∈ s₀.branch.own ∨ ∃ record ∈ before, row ∈ record.commitPayload.rows

/-- What a pass leaves of a branch: the rows it had, and those of the records. -/
theorem Reached.contents {before : List WalRecord} {s s' : ReplayState} (h : Reached s before s') (row : StorageRow) :
    (row ∈ s.branch.contents → row ∈ s'.branch.contents) ∧ (row ∈ s'.branch.contents →
      row ∈ s.branch.contents ∨ ∃ record ∈ before, row ∈ record.commitPayload.rows) := by
  simp only [BranchLocalState.contents, mem_append, h.layers, h.branchId]
  constructor
  · exact Or.imp_left (h.grows row)
  · rintro (hrow | hrow)
    · exact (h.added row hrow).imp_left .inl
    · exact .inl (.inr hrow)

theorem SameCore.refl (s : ReplayState) : SameCore s s := ⟨rfl, rfl, rfl, rfl⟩

theorem SameCore.trans {s s' s'' : ReplayState} (h : SameCore s s') (h' : SameCore s' s'') : SameCore s s'' :=
  ⟨h'.branch.trans h.branch, h'.lastAllocated.trans h.lastAllocated,
    h'.lastTimestamp.trans h.lastTimestamp, h'.visible.trans h.visible⟩

theorem SameCore.eq (h : SameCore s s') (hgate : s'.unresolved = s.unresolved) : s' = s := by
  obtain ⟨branch, allocated, timestamp, visible, unresolved⟩ := s
  obtain ⟨branch', allocated', timestamp', visible', unresolved'⟩ := s'
  obtain ⟨rfl, rfl, rfl, rfl⟩ := h
  cases hgate
  rfl

theorem Settled.congr (h : Settled s record) (hcore : SameCore s s') : Settled s' record :=
  ⟨hcore.branch ▸ h.branchId, h.rows_ne, hcore.branch ▸ h.rows, hcore.lastAllocated ▸ h.version,
    hcore.lastTimestamp ▸ h.timestamp, hcore.visible ▸ h.visible⟩

/-- What an install leaves of the branch. -/
theorem Installs.own {action : CommitReplayAction} {branch branch' : BranchLocalState}
    (h : Installs action rows branch branch') :
    branch'.branchId = branch.branchId ∧ (∀ row ∈ branch.own, row ∈ branch'.own) ∧
      (∀ row ∈ branch'.own, row ∈ branch.own ∨ row ∈ rows) ∧
      (action = .applied → ∀ row ∈ rows, row ∈ branch'.own) := by
  unfold Installs at h
  split_ifs at h with haction
  · have happended := BranchLocalState.appended_of_append h
    refine ⟨happended.branchId, fun row hrow => ?_, fun row hrow => ?_, fun _ row hrow => ?_⟩
    · exact (happended.own row).2 (.inr hrow)
    · exact ((happended.own row).1 hrow).symm
    · exact (happended.own row).2 (.inl hrow)
  · subst h
    exact ⟨rfl, fun _ hrow => hrow, fun _ hrow => .inl hrow, fun happlied => absurd happlied haction⟩

theorem Installs.inheritedLayers {action : CommitReplayAction} {branch branch' : BranchLocalState}
    (h : Installs action rows branch branch') : branch'.inheritedLayers = branch.inheritedLayers := by
  unfold Installs at h
  split_ifs at h
  · exact (BranchLocalState.appended_of_append h).inheritedLayers
  · rw [h]

/-- A request that passes has a row. -/
theorem rows_ne_of_validate (h : request.validate = .ok ()) : request.rows ≠ [] := by
  obtain ⟨-, h⟩ := check_bind_eq_ok.1 h
  obtain ⟨_, -, h⟩ := bind_eq_ok.1 h
  obtain ⟨hrows, -⟩ := check_bind_eq_ok.1 h
  obtain ⟨-, hrows⟩ := check_bind_eq_ok.1 hrows
  obtain ⟨huser, -⟩ := check_bind_eq_ok.1 hrows
  obtain ⟨row, hrow, -⟩ := require_eq_ok.1 huser
  exact ne_nil_of_mem hrow

section Step

variable {checked : Checked} {branch : BranchLocalState} {visible : CommitVersion}

section

variable (h : CheckOk ⟨record, durability⟩ view s checked)
  (hview : view.branchId = s.branch.branchId ∧ ∀ row ∈ view.ownContents, row ∈ s.branch.own)
  (hinstalls : Installs checked.action record.commitPayload.rows s.branch branch)
include h hview hinstalls

/-- The rows of a record that passed the checks are in the branch once it is
installed, by the append or since before the pass. -/
theorem CheckOk.rows_installed : ∀ row ∈ record.commitPayload.rows, row ∈ branch.own := by
  obtain ⟨-, hgrows, -, happlied⟩ := hinstalls.own
  by_cases haction : checked.action = .applied
  · exact happlied haction
  · have hexact := h.action
    rw [if_neg haction] at hexact
    intro row hrow
    exact hgrows row (hview.2 row ((classifyReplayRows_exact (h.branch.trans hview.1.symm)
      (rows_ne_of_validate h.valid)).1 hexact row hrow))

theorem CheckOk.settled (hvisible : record.commitVersion ≤ visible) (gate : Option CommitUnresolvedDurable) :
    Settled { installed ⟨record, durability⟩ branch s with visible, unresolved := gate } record where
  branchId := h.branch.trans hinstalls.own.1.symm
  rows_ne := rows_ne_of_validate h.valid
  rows := h.rows_installed hview hinstalls
  version := le_max_right _ _
  timestamp := by
    refine ⟨_, rfl, ?_⟩
    cases s.lastTimestamp with
    | none => exact le_rfl
    | some last => exact le_max_right _ _
  visible := hvisible

end

/-- What was settled before an install stays settled. -/
theorem Settled.installed (h : Settled s other)
    (hinstalls : Installs checked.action record.commitPayload.rows s.branch branch) (hvisible : s.visible ≤ visible)
    (gate : Option CommitUnresolvedDurable) :
    Settled { installed ⟨record, durability⟩ branch s with visible, unresolved := gate } other where
  branchId := h.branchId.trans hinstalls.own.1.symm
  rows_ne := h.rows_ne
  rows row hrow := hinstalls.own.2.1 row (h.rows row hrow)
  version := h.version.trans (le_max_left _ _)
  timestamp := by
    obtain ⟨last, hlast, hle⟩ := h.timestamp
    refine ⟨_, rfl, ?_⟩
    show other.commitTimestamp ≤ s.lastTimestamp.elim _ _
    rw [Option.mem_def.1 hlast]
    exact hle.trans (le_max_left _ _)
  visible := h.visible.trans hvisible

/-- A record that is settled is found exactly, and its replay changes nothing. -/
theorem Settled.installed_eq (h : Settled s record) (durability : CommitDurabilityClass) :
    SameCore s (Replay.installed ⟨record, durability⟩ s.branch s) where
  branch := rfl
  lastAllocated := max_eq_left h.version
  lastTimestamp := by
    obtain ⟨last, hlast, hle⟩ := h.timestamp
    show some (s.lastTimestamp.elim _ _) = _
    rw [Option.mem_def.1 hlast]
    exact congrArg some (max_eq_left hle)
  visible := rfl

/-- Replaying a settled record leaves all but the gate as it was. -/
theorem Settled.replay (h : Settled s record) (hview : view.branchId = s.branch.branchId ∧
      ∀ row ∈ record.commitPayload.rows, row ∈ view.ownContents) {result}
    (hrun : Replayed config ⟨record, durability⟩ view s result s') : SameCore s s' := by
  have hexact : classifyReplayRows view record.commitPayload.rows = .ok .exact :=
    (classifyReplayRows_exact (h.branchId.trans hview.1.symm) h.rows_ne).2 hview.2
  have hnot : ∀ {checked : Checked}, CheckOk ⟨record, durability⟩ view s checked → checked.action ≠ .applied := by
    intro checked hchecked haction
    have := hchecked.action
    rw [if_pos haction] at this
    cases hexact.symm.trans this
  have hbranch : ∀ {checked : Checked} {branch : BranchLocalState}, CheckOk ⟨record, durability⟩ view s checked →
      Installs checked.action record.commitPayload.rows s.branch branch → branch = s.branch := by
    intro checked branch hchecked hinstalls
    unfold Installs at hinstalls
    rwa [if_neg (hnot hchecked)] at hinstalls
  cases hrun with
  | rejected e _ => exact .refl s
  | refused e e' checked gate hchecked haction => exact absurd haction (hnot hchecked)
  | unpublished e checked branch gate hchecked hinstalls =>
    obtain rfl := hbranch hchecked hinstalls
    have hsame := h.installed_eq durability
    exact ⟨hsame.branch, hsame.lastAllocated, hsame.lastTimestamp, hsame.visible⟩
  | done report checked branch hchecked hinstalls hvisible =>
    obtain rfl := hbranch hchecked hinstalls
    have hsame := h.installed_eq durability
    exact ⟨hsame.branch, hsame.lastAllocated, hsame.lastTimestamp, le_antisymm h.visible hvisible⟩

end Step

/-! ## A pass -/

section Pass

variable {records before : List WalRecord} {t : ReplayState}

/-- The records of a list are replayed one after another, each with success. -/
inductive Passed (config : CommitRuntimeConfig) (durability : CommitDurabilityClass)
    (view : BranchReadView) : ReplayState → List WalRecord → ReplayState → Prop
  | nil (s : ReplayState) : Passed config durability view s [] s
  | cons {s s' t : ReplayState} {record : WalRecord} {records : List WalRecord} {report : CommitReplayReport}
      (first : Replayed config ⟨record, durability⟩ view s (.ok report) s')
      (rest : Passed config durability view s' records t) :
      Passed config durability view s (record :: records) t

theorem passed_of_replayRecords {reports : List CommitReplayReport}
    (h : replayRecords config durability view records s = (.ok reports, t)) :
    Passed config durability view s records t := by
  induction records generalizing s reports with
  | nil =>
    cases h
    exact .nil _
  | cons record records ih =>
    have hfirst := replayWithView_cases config ⟨record, durability⟩ view s
    simp only [replayRecords, Bind.bind] at h
    generalize replayWithView config ⟨record, durability⟩ view s = run at h hfirst
    obtain ⟨result, s'⟩ := run
    cases result with
    | error e => cases h
    | ok report =>
      dsimp only at h
      generalize hrest : replayRecords config durability view records s' = run at h
      obtain ⟨result, t'⟩ := run
      cases result with
      | error e => cases h
      | ok reports =>
        cases h
        exact .cons hfirst (ih hrest)

section

variable (h : Passed config durability view s records t)
include h

/-- What a pass leaves of the branch: its own rows, and those of the records. -/
theorem Passed.reached : Reached s records t := by
  induction h with
  | nil s => exact ⟨rfl, rfl, fun _ hrow => hrow, fun _ hrow => .inl hrow⟩
  | @cons s s' t record records report first rest ih =>
    cases first with
    | done report checked branch hchecked hinstalls hvisible =>
      obtain ⟨hid, hgrows, hadded, -⟩ := hinstalls.own
      refine ⟨ih.branchId.trans hid, ih.layers.trans hinstalls.inheritedLayers,
        fun row hrow => ih.grows row (hgrows row hrow), fun row hrow => ?_⟩
      obtain hrow | ⟨other, hother, hrow⟩ := ih.added row hrow
      · exact (hadded row hrow).imp id fun hrow => ⟨record, mem_cons_self, hrow⟩
      · exact .inr ⟨other, mem_cons_of_mem _ hother, hrow⟩

/-- What was settled stays settled. -/
theorem Passed.settled_before (hother : Settled s other) : Settled t other := by
  induction h with
  | nil s => exact hother
  | cons first rest ih =>
    cases first with
    | done report checked branch hchecked hinstalls hvisible =>
      exact ih (hother.installed hinstalls hvisible _)

/-- The records of a pass are settled at its end. -/
theorem Passed.settled
    (hid : view.branchId = s.branch.branchId) (hown : ∀ row ∈ view.ownContents, row ∈ s.branch.own) :
    ∀ record ∈ records, Settled t record := by
  induction h with
  | nil s => simp
  | cons first rest ih =>
    cases first with
    | done report checked branch hchecked hinstalls hvisible =>
      obtain ⟨hid', hgrows, -⟩ := hinstalls.own
      refine forall_mem_cons.2 ⟨rest.settled_before ?_, ih (hid.trans hid'.symm) ?_⟩
      · exact hchecked.settled ⟨hid, hown⟩ hinstalls le_rfl _
      · exact fun row hrow => hgrows row (hown row hrow)

/-- A pass leaves the gate alone, unless one of its records is what the gate is
about. -/
theorem Passed.gate : (t.unresolved = s.unresolved ∧ ∀ fact ∈ s.unresolved, ∀ record ∈ records,
        ¬fact.isAbout ⟨record, durability⟩) ∨
      t.unresolved = none ∧ ∃ fact ∈ s.unresolved, ∃ record ∈ records, fact.isAbout ⟨record, durability⟩ := by
  induction h with
  | nil s => exact .inl ⟨rfl, by simp⟩
  | @cons s s' t record records report first rest ih =>
    cases first with
    | done report checked branch hchecked hinstalls hvisible =>
      rw [hchecked.matching] at ih
      cases hgate : s.unresolved with
      | none => simpa [hgate] using ih
      | some fact =>
        by_cases habout : fact.isAbout ⟨record, durability⟩
        · exact .inr ⟨by simpa [hgate, Option.filter, habout] using ih, by simp [habout]⟩
        · simpa [hgate, Option.filter, habout] using ih

end

/-- The view captured before a pass says of the next record what a view captured
after the pass says. -/
theorem Passed.classifyReplayRows (h : Passed config durability s.branch.captureReadView s before t)
    (hlt : ∀ other ∈ before, other.commitVersion < record.commitVersion) :
    classifyReplayRows s.branch.captureReadView record.commitPayload.rows =
      classifyReplayRows t.branch.captureReadView record.commitPayload.rows := by
  refine classifyReplayRows_congr record h.reached.branchId.symm fun row hversion => ?_
  rw [ownContents_captureReadView, ownContents_captureReadView]
  refine ⟨h.reached.grows row, fun hrow => ?_⟩
  obtain hrow | ⟨other, hother, hrow⟩ := h.reached.added row hrow
  · exact hrow
  · have heq := (other.row_facts hrow).1.symm.trans hversion
    exact absurd heq (hlt other hother).ne

/-- The state at the end of a list, by its first record. -/
theorem exec_replayRecords_cons (record : WalRecord) (records : List WalRecord)
    (s : ReplayState) {result : Except CommitRuntimeError CommitReplayReport}
    (h : replayWithView config ⟨record, durability⟩ view s = (result, s')) :
    (replayRecords config durability view (record :: records)).exec s = match result with
      | .ok _ => (replayRecords config durability view records).exec s'
      | .error _ => s' := by
  simp only [Stateful.exec, replayRecords, Bind.bind, h]
  cases result with
  | error e => rfl
  | ok report =>
    dsimp only
    generalize replayRecords config durability view records s' = run
    obtain ⟨result, t⟩ := run
    cases result <;> rfl

/-- Where a list ends: behind its last record, or at the first one that fails. -/
theorem replayRecords_ends (config : CommitRuntimeConfig) (durability : CommitDurabilityClass)
    (view : BranchReadView) (records : List WalRecord) (s : ReplayState) :
    Passed config durability view s records ((replayRecords config durability view records).exec s) ∨
      ∃ before record after t e, records = before ++ record :: after ∧
        Passed config durability view s before t ∧ Replayed config ⟨record, durability⟩ view t
          (.error e) ((replayRecords config durability view records).exec s) := by
  induction records generalizing s with
  | nil => exact .inl (.nil s)
  | cons record records ih =>
    have hfirst := replayWithView_cases config ⟨record, durability⟩ view s
    obtain ⟨⟨result, s'⟩, hrun⟩ : ∃ run, replayWithView config ⟨record, durability⟩ view s = run := ⟨_, rfl⟩
    rw [exec_replayRecords_cons record records s hrun]
    rw [hrun] at hfirst
    cases result with
    | error e => exact .inr ⟨[], record, records, s, e, rfl, .nil s, hfirst⟩
    | ok report =>
      obtain hpassed | ⟨before, other, after, t, e, rfl, hpassed, hfailed⟩ := ih s'
      · exact .inl (.cons hfirst hpassed)
      · exact .inr ⟨record :: before, other, after, t, e, rfl, .cons hfirst hpassed, hfailed⟩

/-- Records that are settled are passed over, or one of them fails; nothing but the
gate differs either way. -/
theorem replayRecords_settled (config : CommitRuntimeConfig) (durability : CommitDurabilityClass)
    (hsettled : ∀ record ∈ before, Settled s record)
    (hid : view.branchId = s.branch.branchId) (hview : ∀ record ∈ before,
      ∀ row ∈ record.commitPayload.rows, row ∈ view.ownContents) (after : List WalRecord) :
    SameCore s ((replayRecords config durability view (before ++ after)).exec s) ∨
      ∃ t, Passed config durability view s before t ∧ SameCore s t ∧
        (replayRecords config durability view (before ++ after)).exec s =
          (replayRecords config durability view after).exec t := by
  induction before generalizing s with
  | nil => exact .inr ⟨s, .nil s, .refl s, rfl⟩
  | cons record before ih =>
    obtain ⟨hrecord, hbefore⟩ := forall_mem_cons.1 hsettled
    obtain ⟨hrows, hothers⟩ := forall_mem_cons.1 hview
    have hfirst := replayWithView_cases config ⟨record, durability⟩ view s
    obtain ⟨⟨result, s'⟩, hrun⟩ : ∃ run, replayWithView config ⟨record, durability⟩ view s = run := ⟨_, rfl⟩
    rw [hrun] at hfirst
    have hcore : SameCore s s' := hrecord.replay ⟨hid, hrows⟩ hfirst
    rw [cons_append, exec_replayRecords_cons record _ s hrun]
    cases result with
    | error e => exact .inl hcore
    | ok report =>
      obtain hsame | ⟨t, hpassed, hsame, heq⟩ := ih (fun other hother =>
        (hbefore other hother).congr hcore) (hid.trans (by rw [hcore.branch])) hothers
      · exact .inl (hcore.trans hsame)
      · exact .inr ⟨t, .cons hfirst hpassed, hcore.trans hsame, heq⟩

theorem checkReplay_congr (h : Strata.classifyReplayRows view record.commitPayload.rows =
      Strata.classifyReplayRows view' record.commitPayload.rows) :
    checkReplay config ⟨record, durability⟩ view = checkReplay config ⟨record, durability⟩ view' := by
  unfold checkReplay
  rw [show (⟨record, durability⟩ : CommitReplayRequest).rows = record.commitPayload.rows from rfl, h]

theorem replayWithView_rejected {request : CommitReplayRequest} {e : CommitRuntimeError}
    (h : (checkReplay config request view s).1 = .error e) :
    replayWithView config request view s = (.error e, s) := by
  have hcheck := (checkReplay_spec : Spec (· = s) (checkReplay config request view) _ _) s rfl
  simp only [replayWithView, Bind.bind]
  generalize checkReplay config request view s = run at h hcheck
  obtain ⟨result, t⟩ := run
  subst h
  obtain rfl : t = s := hcheck
  rfl

/-- Rows that are absent and that the branch refuses are refused. -/
theorem replayWithView_refused {e' : BranchRuntimeError}
    (habsent : Strata.classifyReplayRows view record.commitPayload.rows = .ok .absent)
    (happend : s.branch.appendCommittedRowsAtomically record.commitPayload.rows = .error e') :
    ∃ e s', replayWithView config ⟨record, durability⟩ view s = (.error e, s') ∧ SameCore s s' := by
  have hfails : ∀ {checked : Checked} {branch : BranchLocalState}, CheckOk ⟨record, durability⟩ view s checked →
      ¬Installs checked.action record.commitPayload.rows s.branch branch := by
    intro checked branch hchecked hinstalls
    have haction : checked.action = .applied := by
      have hverdict := hchecked.action.symm.trans habsent
      by_contra hne
      rw [if_neg hne] at hverdict
      cases hverdict
    rw [Installs, if_pos haction] at hinstalls
    cases happend.symm.trans hinstalls
  have hrun := replayWithView_cases config ⟨record, durability⟩ view s
  generalize replayWithView config ⟨record, durability⟩ view s = run at hrun
  obtain ⟨result, s'⟩ := run
  cases hrun with
  | rejected e h => exact ⟨e, _, rfl, .refl _⟩
  | refused e => exact ⟨e, _, rfl, ⟨rfl, rfl, rfl, rfl⟩⟩
  | unpublished e checked branch gate hchecked hinstalls =>
    exact absurd hinstalls (hfails hchecked)
  | done report checked branch hchecked hinstalls => exact absurd hinstalls (hfails hchecked)

/-- A settled record below the visible version fails. -/
theorem Settled.replayWithView (h : Settled s record) (hview : view.branchId = s.branch.branchId ∧
      ∀ row ∈ record.commitPayload.rows, row ∈ view.ownContents)
    (hvisible : record.commitVersion < s.visible) :
    ∃ e s', replayWithView config ⟨record, durability⟩ view s = (.error e, s') ∧ SameCore s s' := by
  have hrun := replayWithView_cases config ⟨record, durability⟩ view s
  have hcore := h.replay hview hrun
  generalize Replay.replayWithView config ⟨record, durability⟩ view s = run at hrun hcore
  obtain ⟨result, s'⟩ := run
  cases result with
  | error e => exact ⟨e, s', rfl, hcore⟩
  | ok report =>
    cases hrun with
    | done report checked branch hchecked hinstalls hvisible' =>
      exact absurd hvisible (not_lt.2 hvisible')

/-- A pass over settled records and one that fails changes nothing but the gate. -/
theorem replayRecords_stops (hsettled : ∀ record ∈ before, Settled s record) (after : List WalRecord)
    (hstops : ∀ t, Passed config durability s.branch.captureReadView s before t → SameCore s t →
      ∃ e s', replayWithView config ⟨record, durability⟩ s.branch.captureReadView t =
        (.error e, s') ∧ SameCore t s') :
    SameCore s ((replayRecords config durability s.branch.captureReadView
      (before ++ record :: after)).exec s) := by
  have hview : ∀ record ∈ before, ∀ row ∈ record.commitPayload.rows,
      row ∈ s.branch.captureReadView.ownContents := by
    intro record hrecord row hrow
    rw [ownContents_captureReadView]
    exact (hsettled record hrecord).rows row hrow
  obtain hsame | ⟨t, hpassed, hsame, heq⟩ := replayRecords_settled config durability
    hsettled rfl hview (record :: after)
  · exact hsame
  · obtain ⟨e, s', hrun, hcore⟩ := hstops t hpassed hsame
    rw [heq, exec_replayRecords_cons record after t hrun]
    exact hsame.trans hcore

/-- A second pass changes neither the branch nor the allocator nor the visible
version. -/
theorem replayPass_twice
    (hascending : records.Pairwise fun record other => record.commitVersion < other.commitVersion)
    (s₀ : ReplayState) : SameCore ((replayPass config durability records).exec s₀)
      ((replayPass config durability records).exec ((replayPass config durability records).exec s₀)) := by
  have hpass : ∀ s, (replayPass config durability records).exec s =
      (replayRecords config durability s.branch.captureReadView records).exec s := fun s => rfl
  rw [hpass s₀, hpass]
  have hown : ∀ row ∈ s₀.branch.captureReadView.ownContents, row ∈ s₀.branch.own := by simp
  obtain hpassed | ⟨before, record, after, t, e, rfl, hpassed, hfailed⟩ :=
    replayRecords_ends config durability s₀.branch.captureReadView records s₀
  · generalize (replayRecords config durability s₀.branch.captureReadView records).exec s₀ = s₁ at hpassed
    have hsettled := hpassed.settled rfl hown
    have hview : ∀ record ∈ records, ∀ row ∈ record.commitPayload.rows,
        row ∈ s₁.branch.captureReadView.ownContents := by
      intro record hrecord row hrow
      rw [ownContents_captureReadView]
      exact (hsettled record hrecord).rows row hrow
    have hends := replayRecords_settled config durability hsettled rfl hview []
    rw [append_nil] at hends
    obtain hsame | ⟨t, -, hsame, heq⟩ := hends
    · exact hsame
    · exact heq ▸ hsame
  · generalize (replayRecords config durability s₀.branch.captureReadView
      (before ++ record :: after)).exec s₀ = s₁ at hfailed
    have hsettled := hpassed.settled rfl hown
    have hlt : ∀ other ∈ before, other.commitVersion < record.commitVersion := fun other hother =>
      (pairwise_append.1 hascending).2.2 other hother record mem_cons_self
    have hverdict := hpassed.classifyReplayRows hlt
    cases hfailed with
    | rejected e herror =>
      -- the second pass comes to the same record with the same gate
      refine replayRecords_stops hsettled after fun t' hpassed' hsame => ?_
      have hgate : t'.unresolved = t.unresolved := by
        obtain ⟨hgate, -⟩ | ⟨-, fact, hfact, other, hother, habout⟩ := hpassed'.gate
        · exact hgate
        · obtain ⟨hgate, hnot⟩ | ⟨hgate, -⟩ := hpassed.gate
          · exact absurd habout (hnot fact (hgate ▸ hfact) other hother)
          · rw [hgate] at hfact
            cases hfact
      obtain rfl := hsame.eq hgate
      rw [checkReplay_congr hverdict] at herror
      exact ⟨e, t', replayWithView_rejected herror, .refl t'⟩
    | refused e e' checked gate hchecked haction happend he hgate =>
      -- the rows are still absent, and the branch refuses them again
      have habsent := hverdict.symm.trans hchecked.action
      rw [if_pos haction] at habsent
      have hsettled' : ∀ other ∈ before, Settled { t with unresolved := gate } other :=
        fun other hother => (hsettled other hother).congr ⟨rfl, rfl, rfl, rfl⟩
      refine replayRecords_stops hsettled' after fun t' _ hsame => ?_
      exact replayWithView_refused habsent (hsame.branch ▸ happend)
    | unpublished e checked branch gate hchecked hinstalls hvisible he hgate =>
      -- the record is installed, and its version is still below the visible one
      have hview : s₀.branch.captureReadView.branchId = t.branch.branchId ∧
          ∀ row ∈ s₀.branch.captureReadView.ownContents, row ∈ t.branch.own :=
        ⟨hpassed.reached.branchId.symm, fun row hrow => hpassed.reached.grows row (hown row hrow)⟩
      have hrecord := hchecked.settled hview hinstalls hvisible.le gate
      refine replayRecords_stops (fun other hother =>
        (hsettled other hother).installed hinstalls le_rfl gate) after fun t' _ hsame => ?_
      refine (hrecord.congr hsame).replayWithView ⟨?_, fun row hrow => ?_⟩ (hsame.visible ▸ hvisible)
      · exact (congrArg BranchLocalState.branchId hsame.branch).symm
      · rw [ownContents_captureReadView]
        exact hrecord.rows row hrow

end Pass

/-- A replay that ends with an error leaves a fact recorded, and one that succeeds
clears exactly the fact that is about its record. -/
theorem Replayed.gate {fact : CommitUnresolvedDurable} {result}
    (h : Replayed config request view s result s') (hgate : s.unresolved = some fact) :
    (s'.unresolved = none ↔ result.isOk ∧ fact.isAbout request) := by
  cases h with
  | rejected e h => simp [hgate, Except.isOk, Except.toBool]
  | refused e e' checked gate hchecked haction happend he hkept =>
    obtain ⟨kept, rfl⟩ := Option.isSome_iff_exists.1 (hkept (by simp [hgate]))
    simp [Except.isOk, Except.toBool]
  | unpublished e checked branch gate hchecked hinstalls hvisible he hkept =>
    obtain ⟨kept, rfl⟩ := Option.isSome_iff_exists.1 (hkept (by simp [hgate]))
    simp [Except.isOk, Except.toBool]
  | done report checked branch hchecked hinstalls hvisible =>
    rw [hchecked.matching, hgate]
    by_cases habout : fact.isAbout request <;>
      simp [habout, Option.filter, Except.isOk, Except.toBool]

/-- Replay is idempotent and a rejected record changes nothing; the fact of a group
is cleared by the record of its last version exactly if it has that record's branch
and timestamp and the durability class of the replay. -/
theorem replay_idempotent (config : CommitRuntimeConfig) (durability : CommitDurabilityClass)
    (records : List WalRecord)
    (hascending : records.Pairwise fun record other => record.commitVersion < other.commitVersion)
    (s₀ : ReplayState) :
    SameCore ((replayPass config durability records).exec s₀) ((replayPass config durability records).exec
          ((replayPass config durability records).exec s₀)) ∧
      (∀ before record after reports s, records = before ++ record :: after →
        replayRecords config durability s₀.branch.captureReadView before s₀ = (.ok reports, s) →
        classifyReplayRows s₀.branch.captureReadView record.commitPayload.rows =
          classifyReplayRows s.branch.captureReadView record.commitPayload.rows) ∧
      (∀ record view s e s', replayWithView config ⟨record, durability⟩ view s = (.error e, s') → Rejection e →
        s' = s) ∧
      ∀ record view s fact result s', s.unresolved = some fact →
        replayWithView config ⟨record, durability⟩ view s = (result, s') →
        match result with
        | .error _ => s'.unresolved ≠ none
        | .ok _ => (s'.unresolved = none ↔ record.commitVersion = fact.commitVersion) ↔
            (record.commitVersion = fact.commitVersion → fact.isAbout ⟨record, durability⟩) := by
  refine ⟨replayPass_twice hascending s₀, ?_, ?_, ?_⟩
  · rintro before record after reports s rfl hrun
    refine (passed_of_replayRecords hrun).classifyReplayRows fun other hother => ?_
    exact (List.pairwise_append.1 hascending).2.2 other hother record List.mem_cons_self
  · intro record view s e s' hrun hrejection
    have hcases := replayWithView_cases config ⟨record, durability⟩ view s
    rw [hrun] at hcases
    cases hcases with
    | rejected => rfl
    | refused _ _ _ _ _ _ _ he => exact absurd hrejection he
    | unpublished _ _ _ _ _ _ _ he => exact absurd hrejection he
  · intro record view s fact result s' hgate hrun
    have hcases := replayWithView_cases config ⟨record, durability⟩ view s
    rw [hrun] at hcases
    have hcleared := hcases.gate hgate
    cases result with
    | error e => simpa [Except.isOk, Except.toBool] using hcleared
    | ok report =>
      have habout : fact.isAbout ⟨record, durability⟩ → record.commitVersion = fact.commitVersion := by
        simp only [CommitUnresolvedDurable.isAbout, decide_eq_true_eq]
        exact fun h => h.2.1.symm
      simp only [Except.isOk, Except.toBool, true_and] at hcleared
      rw [hcleared]
      exact ⟨fun h => h.2, fun h => ⟨habout, h⟩⟩

namespace Sample

open Strata.Sample Pipeline.Sample

/-- The record of a commit of `version` that puts a user key. -/
def userRecord (version : CommitVersion) : WalRecord where
  commitVersion := version
  branchId := branch
  commitTimestamp := 3
  committedAt := none
  commitPayload := ⟨[.put ⟨branch, "s", ⟨storageEngineMinId, storageEngineMinId_ne_zero⟩, [1], Sample.space_valid⟩ version 3
    Timestamp.epoch [1]], rfl⟩
  facts_valid := by
    simp [WalCommitPayload.validateOuterFacts, List.forM, StorageRow.validateOuterFacts,
      StorageRow.put, Except.require]

/-- A fresh branch with the fact of a group of the versions 1 and 2, applied and not
visible. -/
def blocked : ReplayState where
  branch := .new branch ⟨8, 1000⟩
  lastAllocated := 0
  lastTimestamp := none
  visible := 0
  unresolved := some ⟨branch, 1, 2, 3, .always, .appliedNotVisible, "", by decide⟩

/-- The fact stays after the first record and is cleared by the second. -/
theorem blocked_cleared : SameCore ((replayPass ⟨8, 8, 8⟩ .always [userRecord 1, userRecord 2]).exec blocked)
        ((replayPass ⟨8, 8, 8⟩ .always [userRecord 1, userRecord 2]).exec
          ((replayPass ⟨8, 8, 8⟩ .always [userRecord 1, userRecord 2]).exec blocked)) ∧
      ((replayPass ⟨8, 8, 8⟩ .always [userRecord 1]).exec blocked).unresolved = blocked.unresolved ∧
      ((replayPass ⟨8, 8, 8⟩ .always [userRecord 1, userRecord 2]).exec blocked).unresolved = none :=
  ⟨(replay_idempotent ⟨8, 8, 8⟩ .always [userRecord 1, userRecord 2] (by simp [userRecord]) blocked).1,
    by decide +kernel, by decide +kernel⟩

/-- A group of two members whose covering sync fails. -/
def failedGroup : List Pipeline.PipelineEvent :=
  [lead 0 [branch, branch] [], .sync (.acquire 0), .sync (.refresh 0 WalSync.Sample.flushCalls),
    .sync (.syncStart 0), .sync (.syncEnd 0 false), finish 0]

/-- What a replay over the runtime of a branch starts from. -/
def replayState (s : DurableState) (branch : BranchLocalState) : ReplayState :=
  ⟨branch, s.lastAllocated, s.lastTimestamp, s.visible, s.unresolved⟩

/-- The two elements of a list of two. -/
def pair? {α : Type} : List α → Option (α × α)
  | [a, b] => some (a, b)
  | _ => none

theorem eq_of_pair? {α : Type} {l : List α} {a b : α} (h : pair? l = some (a, b)) : l = [a, b] := by
  unfold pair? at h
  split at h <;> cases h
  rfl

/-- The fact of the group has the class of no replay, so that the record of its last
version is replayed and leaves it. -/
theorem failedGroup_uncleared : ∃ t found fact first last reports,
    failedGroup.foldlM (Pipeline.step durableConfig) opened = some t ∧
      t.runtime.branches branch = some found ∧ t.runtime.unresolved = some fact ∧
      t.runtime.commits.map (·.record) = [first, last] ∧
      fact.firstCommitVersion = first.commitVersion ∧ fact.commitVersion = last.commitVersion ∧
      (replayPass durableConfig.commit .always [first, last] (replayState t.runtime found)).1 = .ok reports ∧
      ((replayPass durableConfig.commit .always [first, last]).exec
        (replayState t.runtime found)).unresolved = some fact := by
  have hrun : (failedGroup.foldlM (Pipeline.step durableConfig) opened).any (fun t =>
      (t.runtime.branches branch).any fun found => t.runtime.unresolved.any fun fact =>
          (pair? (t.runtime.commits.map (·.record))).any fun records =>
            decide (fact.firstCommitVersion = records.1.commitVersion) &&
            decide (fact.commitVersion = records.2.commitVersion) &&
            (replayPass durableConfig.commit .always [records.1, records.2]
              (replayState t.runtime found)).1.isOk &&
            decide (((replayPass durableConfig.commit .always [records.1, records.2]).exec
              (replayState t.runtime found)).unresolved = some fact)) = true := by
    decide +kernel
  obtain ⟨t, ht, hany⟩ := Option.any_eq_true _ _ |>.1 hrun
  obtain ⟨found, hfound, hany⟩ := Option.any_eq_true _ _ |>.1 hany
  obtain ⟨fact, hfact, hany⟩ := Option.any_eq_true _ _ |>.1 hany
  obtain ⟨⟨first, last⟩, hpair, hany⟩ := Option.any_eq_true _ _ |>.1 hany
  have hrecords := eq_of_pair? hpair
  simp only [Bool.and_eq_true, decide_eq_true_eq] at hany
  obtain ⟨⟨⟨hfirst, hlast⟩, hok⟩, hgate⟩ := hany
  obtain ⟨reports, hreports⟩ := Except.exists_eq_ok hok
  exact ⟨t, found, fact, first, last, reports, ht, hfound, hfact, hrecords, hfirst, hlast, hreports, hgate⟩

end Sample

end Replay

end Strata
