import StrataStorage.Commit.Sections

/-!
# The history of durable commits

`HistoryInv init pending s` relates the history of a runtime to its branches. The
commits have ascending versions, in the order of the log, and each has its frame
there. A branch is what it was at first (`init`) with its commits applied one after
the other, except those that are still pending; each commit was checked against the
branch as its predecessors left it (`HistoryInv.checked`). A commit whose rows are
not applied is pending, its branch is checked out, or a fact of the gate covers it
(`HistoryInv.applied`).

There is one lemma for each thing that happens to a commit: it is refused
(`refuses`), logged (`logs`), applied (`applies`), its apply fails (`fails`) or
does not come back (`loses`).
-/

namespace Strata

open Except List Function

open CommitBatch (observedOf)
open Durable

variable {branchId : BranchId} {commits : List Commit} {commit : Commit}

/-- The commits of one branch. -/
def onBranch (branchId : BranchId) (commits : List Commit) : List Commit :=
  commits.filter (·.branchId = branchId)

@[simp] theorem onBranch_append (branchId : BranchId) (left right : List Commit) :
    onBranch branchId (left ++ right) = onBranch branchId left ++ onBranch branchId right :=
  filter_append ..

theorem mem_onBranch : commit ∈ onBranch branchId commits ↔ commit ∈ commits ∧ commit.branchId = branchId := by
  simp [onBranch]

/-- The commits of the other branches. -/
def offBranch (branchId : BranchId) (commits : List Commit) : List Commit :=
  commits.filter (·.branchId ≠ branchId)

theorem mem_offBranch : commit ∈ offBranch branchId commits ↔ commit ∈ commits ∧ commit.branchId ≠ branchId := by
  simp [offBranch]

@[simp] theorem onBranch_offBranch_self (branchId : BranchId) (commits : List Commit) :
    onBranch branchId (offBranch branchId commits) = [] := by
  simp [onBranch, offBranch]

theorem onBranch_offBranch_of_ne {other : BranchId} (h : branchId ≠ other) (commits : List Commit) :
    onBranch branchId (offBranch other commits) = onBranch branchId commits := by
  rw [onBranch, offBranch, filter_filter]
  refine filter_congr fun commit _ => ?_
  by_cases hid : commit.branchId = branchId
  · simp [hid, h]
  · simp [hid]

/-- A branch after some commits, one after the other. -/
def serialBranch (branch : BranchLocalState) (commits : List Commit) :
    Except BranchRuntimeError BranchLocalState :=
  commits.foldlM (fun branch commit => branch.appendCommittedRowsAtomically commit.rows) branch

theorem serialBranch_snoc {branch before after : BranchLocalState}
    (hbefore : serialBranch branch commits = .ok before)
    (happend : before.appendCommittedRowsAtomically commit.rows = .ok after) :
    serialBranch branch (commits ++ [commit]) = .ok after := by
  simp only [serialBranch, foldlM_append] at hbefore ⊢
  rw [hbefore]
  show ((before.appendCommittedRowsAtomically commit.rows) >>= pure) = _
  rw [happend]
  rfl

/-- The expectations of a commit that asks for validation hold in the branch. -/
def Commit.Holds (commit : Commit) (branch : BranchLocalState) : Prop :=
  commit.batch.conflictValidation = .validate → ∀ fact ∈ commit.batch.readFacts ++ commit.batch.casFacts,
      (branch.captureReadView.readPoint fact.1 .latest).map
        (fun found => observedOf (found.map CandidateRow.row)) = .ok fact.2

/-- What every logged commit is. -/
structure Commit.WellFormed (commit : Commit) : Prop where
  shape : commit.batch.ShapeValid
  stamps : Stamps commit.batch commit.stamp commit.record

namespace Commit.WellFormed

variable {commit : Commit}

theorem rows_spec (h : commit.WellFormed) : commit.rows ≠ [] ∧
    (∀ row ∈ commit.rows, row.physicalKey.branchId = commit.branchId ∧
      row.commitVersion = commit.version) ∧ (commit.rows.map (·.key)).Nodup := by
  have := CommitBatch.stampUserRows_spec h.shape h.stamps.rows
  rw [← h.stamps.branchId] at this
  exact this

end Commit.WellFormed

namespace DurableState

/-- The rows of the commit are in its branch. -/
def Applied (s : DurableState) (commit : Commit) : Prop :=
  ∃ branch, s.branches commit.branchId = some branch ∧ ∀ row ∈ commit.rows, row ∈ branch.contents

/-- A fact of the gate reaches down to the commit. -/
def Gated (s : DurableState) (commit : Commit) : Prop :=
  ∃ fact, s.unresolved = some fact ∧ fact.firstCommitVersion ≤ commit.version

end DurableState

structure HistoryInv (init : BranchId → Option BranchLocalState) (pending : List Commit)
    (s : DurableState) : Prop where
  visible_le : s.visible ≤ s.lastAllocated
  frontier_le : s.pipelineFrontier ≤ s.lastAllocated
  sorted : s.commits.Pairwise fun a b => a.version < b.version ∧ a.seq < b.seq
  commit : ∀ c ∈ s.commits, c.WellFormed ∧ c.version ≤ s.lastAllocated ∧
    c.seq ≤ s.wal.appendSeq ∧ ∃ f ∈ s.wal.frames, f.seq = c.seq ∧ f.record = c.record
  branch : ∀ b branch, s.branches b = some branch → branch.branchId = b ∧
    ∃ first, init b = some first ∧ ∀ row ∈ branch.contents,
      row ∈ first.contents ∨ ∃ c ∈ s.commits, c.branchId = b ∧ row ∈ c.rows
  applied : ∀ c ∈ s.commits, s.Applied c ∨ c ∈ pending ∨ s.Gated c ∨ s.branches c.branchId = none
  serial : s.unresolved = none → ∀ b branch, s.branches b = some branch →
    ∃ first done, init b = some first ∧ onBranch b s.commits = done ++ onBranch b pending ∧
      serialBranch first done = .ok branch
  checked : ∀ before c after, s.commits = before ++ c :: after → ∃ first branch, init c.branchId = some first ∧
      serialBranch first (onBranch c.branchId before) = .ok branch ∧ c.Holds branch

/-- The log has grown. -/
def WalGrows (wal wal' : WalState) : Prop :=
  wal.frames <+: wal'.frames ∧ wal.appendSeq ≤ wal'.appendSeq

theorem WalGrows.refl (wal : WalState) : WalGrows wal wal := ⟨prefix_rfl, le_rfl⟩

namespace HistoryInv

variable {init : BranchId → Option BranchLocalState} {pending : List Commit}
  {config : DurableConfig} {participation : WalAppendDurability} {calls : CommitCalls}
  {batch : CommitBatch} {current : CommitVersion} {c : Commit} {s s' : DurableState}

/-- Only the log, the allocator and the visible version move. -/
theorem move (h : HistoryInv init pending s) {wal : WalState} (hwal : WalGrows s.wal wal)
    {last visible frontier : CommitVersion} {timestamp : Option Timestamp}
    (hlast : s.lastAllocated ≤ last) (hvisible : visible ≤ last) (hfrontier : frontier ≤ last) :
    HistoryInv init pending { s with
      wal := wal, lastAllocated := last, lastTimestamp := timestamp, visible := visible
      pipelineFrontier := frontier } :=
  { h with
    visible_le := hvisible
    frontier_le := hfrontier
    commit := by
      intro c hc
      obtain ⟨hwell, hversion, hseq, f, hf, hframe⟩ := h.commit c hc
      exact ⟨hwell, hversion.trans hlast, hseq.trans hwal.2, f, hwal.1.subset hf, hframe⟩ }

theorem refuses (h : HistoryInv init pending s)
    (hrefuses : Refuses config participation calls s s') : HistoryInv init pending s' := by
  have hwal : WalGrows s.wal s'.wal := by
    rcases hrefuses.wal with heq | ⟨record, error, herror⟩
    · rw [heq]
      exact .refl _
    · have hlog := (WalService.append_log record participation calls.append).run_error (.refl s.wal) herror
      rcases hlog with ⟨hframes, hseq, -⟩ | ⟨frame, ⟨hframes, hseq, -⟩, -⟩
      · exact ⟨hframes ▸ prefix_rfl, hseq.ge⟩
      · exact ⟨hframes ▸ prefix_append _ _, by omega⟩
  rw [hrefuses.state]
  exact h.move hwal hrefuses.allocated (h.visible_le.trans hrefuses.allocated)
    (h.frontier_le.trans hrefuses.allocated)

/-- A batch that passed the checks has expectations that hold in its branch. -/
theorem holds_of_admitted {branch : BranchLocalState} (hbatch : c.batch = batch)
    (hkind : batch.kind = .mutating) (hshape : batch.ShapeValid) (hid : branch.branchId = batch.branchId)
    (hahead : ∀ version ∈ branch.maxCommitVersion, version ≤ current)
    (hconflicts : batch.validateCommitConflicts
      (CommitBatch.currentObservedVersion branch.captureReadView current) = .ok ()) :
    c.Holds branch := by
  subst hbatch
  intro hmode fact hfact
  have hkey : fact.1.branchId = branch.branchId := (hshape.facts_branch fact hfact).trans hid.symm
  have hobserved := CommitBatch.validateCommitConflicts_eq_ok hconflicts hkind hmode fact hfact
  -- the branch has no row above the version it is read at
  rw [CommitBatch.currentObservedVersion_captureReadView branch hkey,
    visibleRow_atVersion_of_le fun row hrow => branch.commitVersion_le hahead hrow] at hobserved
  have hread := branch.readPoint_latest_captureReadView hkey
  cases hpoint : branch.captureReadView.readPoint fact.1 .latest with
  | error error =>
    rw [hpoint] at hread
    cases hread
  | ok found =>
    rw [hpoint] at hread
    refine congrArg ok ?_
    show observedOf (found.map CandidateRow.row) = fact.2
    rw [ok.inj hread]
    exact ok.inj hobserved

section

variable (h : HistoryInv init pending s)
include h

theorem logs (hlogs : Logs config participation calls batch current s c s')
    (hfree : onBranch c.branchId pending = []) : HistoryInv init (pending ++ [c]) s' := by
  obtain ⟨append, happend⟩ := hlogs.appended
  obtain ⟨⟨frame, ⟨hframes, hseq, -⟩, hframeSeq, hrecord, -⟩, -⟩ := append_accepted happend
  have hwal : WalGrows s.wal s'.wal := by
    refine ⟨?_, by omega⟩
    rw [hframes]
    exact prefix_append _ _
  have hcseq : c.seq = s.wal.appendSeq + 1 := hlogs.seq.trans hseq
  obtain ⟨branch, hbranch, hid, hahead, hconflicts⟩ := hlogs.admitted.branch
  have hwell : c.WellFormed := by
    have hb := hlogs.batch_eq
    exact ⟨hb ▸ hlogs.admitted.shape, hb ▸ hlogs.stamps⟩
  refine
    { visible_le := by rw [hlogs.visible, hlogs.lastAllocated]; exact h.visible_le.trans hlogs.allocated.le
      frontier_le := by rw [hlogs.pipelineFrontier, hlogs.lastAllocated]; exact h.frontier_le.trans hlogs.allocated.le
      sorted := ?_
      commit := ?_
      branch := ?_
      applied := ?_
      serial := ?_
      checked := ?_ }
  · rw [hlogs.commits, pairwise_append]
    refine ⟨h.sorted, pairwise_singleton _ _, fun a ha b hb => ?_⟩
    obtain ⟨-, hversion, haseq, -⟩ := h.commit a ha
    rw [mem_singleton.1 hb]
    exact ⟨hversion.trans_lt hlogs.allocated, by omega⟩
  · intro a ha
    rcases hlogs.mem_commits.1 ha with ha | rfl
    · obtain ⟨hw, hversion, haseq, f, hf, hframe⟩ := h.commit a ha
      exact ⟨hw, hlogs.lastAllocated ▸ hversion.trans hlogs.allocated.le, haseq.trans hwal.2, f,
        hwal.1.subset hf, hframe⟩
    · exact ⟨hwell, hlogs.lastAllocated.ge, hlogs.seq.le, frame, by rw [hframes]; simp, by omega, hrecord⟩
  · intro b found hfound
    rw [hlogs.branches] at hfound
    obtain ⟨hfoundId, first, hfirst, horigin⟩ := h.branch b found hfound
    refine ⟨hfoundId, first, hfirst, fun row hrow => (horigin row hrow).imp_right ?_⟩
    rintro ⟨a, ha, hrest⟩
    exact ⟨a, hlogs.mem_commits.2 (.inl ha), hrest⟩
  · intro a ha
    rcases hlogs.mem_commits.1 ha with ha | rfl
    · rw [DurableState.Applied, DurableState.Gated, hlogs.branches, hlogs.unresolved]
      exact (h.applied a ha).imp_right (Or.imp_left fun hr => mem_append_left _ hr)
    · exact .inr (.inl (mem_append_right _ mem_cons_self))
  · intro hnone b found hfound
    rw [hlogs.unresolved] at hnone
    rw [hlogs.branches] at hfound
    obtain ⟨first, done, hfirst, hdone, hserial⟩ := h.serial hnone b found hfound
    refine ⟨first, done, hfirst, ?_, hserial⟩
    rw [hlogs.commits, onBranch_append, onBranch_append, hdone, append_assoc]
  · intro before a after hsplit
    rw [hlogs.commits] at hsplit
    rcases eq_nil_or_concat after with rfl | ⟨rest, last, rfl⟩
    · -- the new commit: its branch holds exactly the commits before it
      obtain ⟨rfl, ha⟩ := append_inj' hsplit rfl
      obtain rfl : c = a := by simpa using ha
      rw [← hlogs.branchId] at hbranch
      obtain ⟨first, done, hfirst, hdone, hserial⟩ := h.serial hlogs.admitted.gate c.branchId branch hbranch
      rw [hfree, append_nil] at hdone
      exact ⟨first, branch, hfirst, hdone ▸ hserial, holds_of_admitted hlogs.batch_eq
        hlogs.admitted.mutating hlogs.admitted.shape hid hahead hconflicts⟩
    · rw [concat_eq_append, ← cons_append, ← append_assoc] at hsplit
      exact h.checked before a rest (append_inj' hsplit rfl).1

/-- A fact is recorded. -/
theorem blocks {first : CommitVersion} (hblocks : Blocks first s s') : HistoryInv init pending s' := by
  obtain ⟨fact, -, rfl⟩ := hblocks
  exact
    { h with
      serial := nofun
      applied := fun a ha => by
        rcases h.applied a ha with hr | hr | ⟨found, hfound, hle⟩ | hr
        · exact .inl hr
        · exact .inr (.inl hr)
        · exact .inr (.inr (.inl ⟨found, by rw [hfound]; rfl, hle⟩))
        · exact .inr (.inr (.inr hr)) }

/-- The one pending commit of its branch is applied. -/
theorem applies (hc : c ∈ s.commits) (happlies : Applies c s s') (hpending : onBranch c.branchId pending = [c]) :
    HistoryInv init (offBranch c.branchId pending) s' := by
  obtain ⟨branch, branch', hbranch, happend, rfl⟩ := happlies
  have happended := BranchLocalState.appended_of_append happend
  have hcontents := happended.contents
  have hid := happended.branchId
  have hself : (s.setBranch c.branchId (some branch')).branches c.branchId = some branch' := update_self ..
  have hother : ∀ b, b ≠ c.branchId → (s.setBranch c.branchId (some branch')).branches b = s.branches b :=
    fun b hb => update_of_ne hb ..
  refine
    { h with
      branch := ?_
      applied := ?_
      serial := ?_ }
  · intro b found hfound
    by_cases hb : b = c.branchId
    · subst hb
      rw [hself] at hfound
      cases hfound
      obtain ⟨hbranchId, first, hfirst, horigin⟩ := h.branch _ branch hbranch
      refine ⟨hid.trans hbranchId, first, hfirst, fun row hrow => ?_⟩
      rcases (hcontents row).1 hrow with hrow | hrow
      · exact .inr ⟨c, hc, rfl, hrow⟩
      · exact horigin row hrow
    · rw [hother b hb] at hfound
      exact h.branch b found hfound
  · intro a ha
    by_cases hb : a.branchId = c.branchId
    · rcases h.applied a ha with ⟨found, hfound, hrows⟩ | hr | hr | hr
      · rw [hb, hbranch] at hfound
        cases hfound
        exact .inl ⟨branch', by rw [hb, hself], fun row hrow => (hcontents row).2 (.inr (hrows row hrow))⟩
      · -- the only pending commit of the branch is the one that was applied
        have hmem : a ∈ onBranch c.branchId pending := mem_onBranch.2 ⟨hr, hb⟩
        rw [hpending] at hmem
        obtain rfl := mem_singleton.1 hmem
        exact .inl ⟨branch', hself, fun row hrow => (hcontents row).2 (.inl hrow)⟩
      · exact .inr (.inr (.inl hr))
      · rw [hb, hbranch] at hr
        cases hr
    · rw [DurableState.Applied, hother _ hb]
      exact (h.applied a ha).imp_right (Or.imp_left fun hr => mem_offBranch.2 ⟨hr, hb⟩)
  · intro hnone b found hfound
    by_cases hb : b = c.branchId
    · subst hb
      rw [hself] at hfound
      cases hfound
      obtain ⟨first, done, hfirst, hdone, hserial⟩ := h.serial hnone _ branch hbranch
      refine ⟨first, done ++ [c], hfirst, ?_, serialBranch_snoc hserial happend⟩
      rw [onBranch_offBranch_self, append_nil]
      exact hpending ▸ hdone
    · rw [hother b hb] at hfound
      obtain ⟨first, done, hfirst, hdone, hserial⟩ := h.serial hnone b found hfound
      exact ⟨first, done, hfirst, by rw [onBranch_offBranch_of_ne hb]; exact hdone, hserial⟩

/-- The order of pending commits of different branches does not matter. -/
theorem perm {pending' : List Commit} (hperm : pending.Perm pending') (hnodup : (pending.map (·.branchId)).Nodup) :
    HistoryInv init pending' s := by
  have honly : ∀ b, onBranch b pending' = onBranch b pending := by
    intro b
    have hfilter : (onBranch b pending).Perm (onBranch b pending') := hperm.filter _
    have hlen : (onBranch b pending).length ≤ 1 := by
      have hcount := nodup_iff_count_le_one.1 hnodup b
      rw [count, countP_map, countP_eq_length_filter] at hcount
      exact hcount
    rcases hlist : onBranch b pending with _ | ⟨c, _ | ⟨d, rest⟩⟩
    · rw [hlist] at hfilter
      exact hfilter.nil_eq.symm
    · rw [hlist] at hfilter
      exact singleton_perm.1 hfilter |>.symm
    · simp [hlist] at hlen
  exact
    { h with
      applied := fun a ha => (h.applied a ha).imp_right (Or.imp_left fun hr => hperm.subset hr)
      serial := fun hnone b found hfound => by
        rw [honly]
        exact h.serial hnone b found hfound }

/-- A pending commit that a fact covers need not be applied. -/
theorem fails {rest : List Commit} (hrest : ∀ a ∈ pending, a ∈ rest ∨ s.Gated a) (hclosed : s.unresolved ≠ none) :
    HistoryInv init rest s :=
  { h with
    serial := fun hnone => absurd hnone hclosed
    applied := fun a ha => by
      rcases h.applied a ha with hr | hr | hr | hr
      · exact .inl hr
      · rcases hrest a hr with hr | hr
        · exact .inr (.inl hr)
        · exact .inr (.inr (.inl hr))
      · exact .inr (.inr (.inl hr))
      · exact .inr (.inr (.inr hr)) }

/-- A branch whose apply does not come back stays checked out. -/
theorem loses (branchId : BranchId) :
    HistoryInv init (offBranch branchId pending) (s.setBranch branchId none) := by
  have hself : (s.setBranch branchId none).branches branchId = none := update_self ..
  have hother : ∀ b, b ≠ branchId → (s.setBranch branchId none).branches b = s.branches b :=
    fun b hb => update_of_ne hb ..
  have hpresent : ∀ b found, (s.setBranch branchId none).branches b = some found →
      b ≠ branchId ∧ s.branches b = some found := by
    intro b found hfound
    by_cases hb : b = branchId
    · rw [hb, hself] at hfound
      cases hfound
    · exact ⟨hb, hother b hb ▸ hfound⟩
  refine
    { h with
      branch := fun b found hfound => h.branch b found (hpresent b found hfound).2
      applied := ?_
      serial := ?_ }
  · intro a ha
    by_cases hb : a.branchId = branchId
    · exact .inr (.inr (.inr (hb ▸ hself)))
    · rw [DurableState.Applied, hother _ hb]
      exact (h.applied a ha).imp_right (Or.imp_left fun hr => mem_offBranch.2 ⟨hr, hb⟩)
  · intro hnone b found hfound
    obtain ⟨hb, hfound⟩ := hpresent b found hfound
    obtain ⟨first, done, hfirst, hdone, hserial⟩ := h.serial hnone b found hfound
    exact ⟨first, done, hfirst, by rw [onBranch_offBranch_of_ne hb]; exact hdone, hserial⟩

end

end HistoryInv

end Strata
