import StrataStorage.Commit.Pipeline

/-!
# The serial order of commits

Along every run of the pipeline the accepted commits are ordered by version, in
the order of the log, and each that asks for validation found its expectations in
its branch as exactly the accepted commits before it left it (`pipeline_serial`):
a commit never expects what another one before it has overwritten. A commit that
skips validation is accepted whatever it expects (`Sample.skipped_run`).
-/

namespace Strata

open Except List

open CommitBatch (observedOf)
open Relation (ReflTransGen)

/-- The commits of a branch before a version. -/
def before (version : CommitVersion) (branchId : BranchId) (commits : List Commit) : List Commit :=
  onBranch branchId (commits.filter (·.version < version))

/-- In a sorted history the commits before one are those of smaller versions. -/
theorem filter_version_lt {commits left right : List Commit} {c : Commit}
    (h : commits.Pairwise fun a b => a.version < b.version ∧ a.seq < b.seq)
    (hsplit : commits = left ++ c :: right) : commits.filter (·.version < c.version) = left := by
  subst hsplit
  obtain ⟨-, hright, hleft⟩ := pairwise_append.1 h
  rw [filter_append, filter_eq_self.2 fun a ha => ?_, filter_eq_nil_iff.2 ?_, append_nil]
  · intro a ha
    rcases mem_cons.1 ha with rfl | ha
    · simp
    · simpa using ((pairwise_cons.1 hright).1 a ha).1.le
  · exact decide_eq_true (hleft a ha c mem_cons_self).1

variable {commits : List Commit} {row : StorageRow}

/-- What a branch holds after some commits. -/
theorem mem_serialBranch {first branch : BranchLocalState} (h : serialBranch first commits = .ok branch) :
    row ∈ branch.contents ↔ row ∈ first.contents ∨ ∃ c ∈ commits, row ∈ c.rows := by
  induction commits generalizing first with
  | nil =>
    cases h
    simp
  | cons c commits ih =>
    obtain ⟨next, hnext, h⟩ := bind_eq_ok.1 h
    have hcontents := (BranchLocalState.appended_of_append hnext).contents
    rw [ih h, hcontents]
    simp only [mem_cons, exists_eq_or_imp]
    tauto

theorem serialBranch_branchId {first branch : BranchLocalState}
    (h : serialBranch first commits = .ok branch) : branch.branchId = first.branchId := by
  induction commits generalizing first with
  | nil =>
    cases h
    rfl
  | cons c commits ih =>
    obtain ⟨next, hnext, h⟩ := bind_eq_ok.1 h
    have hid := (BranchLocalState.appended_of_append hnext).branchId
    exact (ih h).trans hid

/-- A read of the branch shows its newest row of a key it holds. -/
theorem observed_newest {branch : BranchLocalState} {key : PhysicalKey} {observed : CommitObservedVersion}
    (hkey : key.branchId = branch.branchId) (h : (branch.captureReadView.readPoint key .latest).map
      (fun found => observedOf (found.map CandidateRow.row)) = .ok observed)
    (hrow : row ∈ branch.contents) (hrowKey : row.physicalKey = key) :
    ∃ newest ∈ branch.contents, newest.physicalKey = key ∧
      (∀ other ∈ branch.contents, other.physicalKey = key → other.commitVersion ≤ newest.commitVersion) ∧
      observed = if newest.isTombstone then .missing else .present newest.commitVersion := by
  have hread := branch.readPoint_latest_captureReadView hkey
  have hobserved : observed = observedOf (visibleRow branch.contents key .latest) := by
    cases hpoint : branch.captureReadView.readPoint key .latest with
    | error error =>
      rw [hpoint] at hread
      cases hread
    | ok found =>
      rw [hpoint] at hread h
      rw [← ok.inj hread, ← ok.inj h]
  have hwithin : ∀ other ∈ branch.contents, other.physicalKey = key →
      other ∈ rowsWithin branch.contents key .latest := fun other hother hkey =>
    mem_rowsWithin.2 ⟨hother, hkey, rfl⟩
  cases hnewest : newestRow branch.contents key .latest with
  | none =>
    rw [newestRow, argmax_eq_none] at hnewest
    have hmem := hwithin row hrow hrowKey
    rw [hnewest] at hmem
    cases hmem
  | some newest =>
    obtain ⟨hmem, hnewestKey, -⟩ := mem_rowsWithin.1 (newestRow_mem hnewest)
    refine ⟨newest, hmem, hnewestKey, fun other hother hkey =>
      le_newestRow hnewest (hwithin other hother hkey), ?_⟩
    have hlatest : rowIsExpiredAt newest BranchReadBound.latest.readTimestamp = false := rfl
    rw [hobserved, visibleRow, hnewest, Option.filter_some, hlatest]
    cases newest.isTombstone <;> rfl

namespace Pipeline

variable {config : DurableConfig} {s s₀ : PipelineState}

/-- Along every run: each accepted commit that asks for validation finds its
expectations in its branch after exactly the accepted commits with smaller
versions; versions ascend in the order of the log; and if a commit expects
something of a key that another one before it wrote, it expects what the newest row
of the key says in its branch after these, a row at least as new as that one. -/
theorem pipeline_serial (hopen : Opened config s₀) (hrun : ReflTransGen (Step config) s₀ s) :
    (∀ c ∈ s.runtime.commits, ∃ first branch, s₀.runtime.branches c.branchId = some first ∧
      serialBranch first (before c.version c.branchId s.runtime.commits) = .ok branch ∧ c.Holds branch) ∧
    (s.runtime.commits.Pairwise (fun a b => a.version < b.version ∧ a.seq < b.seq) ∧
      (∀ c ∈ s.runtime.commits, ∃ f ∈ s.runtime.wal.frames, f.seq = c.seq ∧ f.record = c.record) ∧
      ∀ c, .ok c ∈ s.responses → c ∈ s.runtime.commits) ∧
    ∀ c₁ ∈ s.runtime.commits, ∀ c₂ ∈ s.runtime.commits, c₁.branchId = c₂.branchId →
      c₁.version < c₂.version → c₂.batch.conflictValidation = .validate →
      ∀ row ∈ c₁.rows, ∀ fact ∈ c₂.batch.readFacts ++ c₂.batch.casFacts,
        fact.1 = row.physicalKey → ∃ first branch, s₀.runtime.branches c₂.branchId = some first ∧
          serialBranch first (before c₂.version c₂.branchId s.runtime.commits) = .ok branch ∧
          ∃ newest ∈ branch.contents, newest.physicalKey = fact.1 ∧ c₁.version ≤ newest.commitVersion ∧
            (∀ other ∈ branch.contents, other.physicalKey = fact.1 → other.commitVersion ≤ newest.commitVersion) ∧
            fact.2 = if newest.isTombstone then .missing else .present newest.commitVersion := by
  have hinv := (hopen.inv.run hrun).1
  have hserial : ∀ c ∈ s.runtime.commits, ∃ first branch, s₀.runtime.branches c.branchId = some first ∧
      serialBranch first (before c.version c.branchId s.runtime.commits) = .ok branch ∧ c.Holds branch := by
    intro c hc
    obtain ⟨left, right, hsplit⟩ := List.append_of_mem hc
    rw [before, filter_version_lt hinv.history.sorted hsplit]
    exact hinv.history.checked left c right hsplit
  refine ⟨hserial, ⟨hinv.history.sorted, fun c hc => (hinv.history.commit c hc).2.2.2,
    fun c hc => (hinv.responses c hc).1⟩, ?_⟩
  intro c₁ hc₁ c₂ hc₂ hbranch hversion hmode row hrow fact hfact hkey
  obtain ⟨first, branch, hfirst, hdone, hholds⟩ := hserial c₂ hc₂
  have hmem : c₁ ∈ before c₂.version c₂.branchId s.runtime.commits :=
    mem_onBranch.2 ⟨List.mem_filter.2 ⟨hc₁, decide_eq_true hversion⟩, hbranch⟩
  have hrowVersion := ((hinv.history.commit c₁ hc₁).1.rows_spec.2.1 row hrow).2
  have hbranchId : fact.1.branchId = branch.branchId := by
    have hshape := (hinv.history.commit c₂ hc₂).1
    rw [hshape.shape.facts_branch fact hfact, ← hshape.stamps.branchId, serialBranch_branchId hdone]
    exact (hopen.branches _ first hfirst).symm
  have hheld : row ∈ branch.contents := (mem_serialBranch hdone).2 (.inr ⟨c₁, hmem, hrow⟩)
  obtain ⟨newest, hnewest, hnewestKey, hle, hobserved⟩ := observed_newest hbranchId
    (hholds hmode fact hfact) hheld hkey.symm
  have hversion : c₁.version ≤ newest.commitVersion := hrowVersion ▸ hle row hheld hkey.symm
  exact ⟨first, branch, hfirst, hdone, newest, hnewest, hnewestKey, hversion, hle, hobserved⟩

namespace Sample

open Strata.Sample

/-- The key of `putOn`. -/
def key : PhysicalKey := ⟨branch, "s", ⟨storageEngineMinId, storageEngineMinId_ne_zero⟩, [1], Sample.space_valid⟩

def emptyBranch : BranchLocalState := .new branch ⟨8, 1000⟩

/-- A group of two members on one branch, the second of which expects what the
first writes. -/
def twoMembers : PipelineEvent :=
  .lead 0 [⟨putOn branch, calls, true⟩, ⟨{ putOn branch with casSet := [⟨key, .present 1⟩] },
    calls, true⟩] WalSync.Sample.flushCalls (fun _ => 0) fun _ => .applied

theorem twoMembers_serial : ∃ s, step durableConfig opened twoMembers = some s ∧
    s.runtime.commits.length = 2 ∧ ∀ c ∈ s.runtime.commits, ∃ first branch,
      opened.runtime.branches c.branchId = some first ∧
      serialBranch first (before c.version c.branchId s.runtime.commits) = .ok branch ∧ c.Holds branch := by
  have hrun : (step durableConfig opened twoMembers).any (fun s => s.runtime.commits.length == 2) = true := by
    decide +kernel
  obtain ⟨s, hs, hlength⟩ := Option.any_eq_true _ _ |>.1 hrun
  exact ⟨s, hs, beq_iff_eq.1 hlength, (pipeline_serial opened_opened (.single ⟨_, hs⟩)).1⟩

/-- A put that expects version 5 of its key, and skips validation. -/
def skipping : CommitBatch :=
  { putOn branch with casSet := [⟨key, .present 5⟩], conflictValidation := .skip }

/-- The commit is accepted as the first one on its branch, where the key is
missing. -/
theorem skipped_run : ∃ s, step durableConfig opened (.solo skipping calls) = some s ∧
    ∃ c, .ok c ∈ s.responses ∧ c ∈ s.runtime.commits ∧
      serialBranch emptyBranch (before c.version c.branchId s.runtime.commits) = .ok emptyBranch ∧
      opened.runtime.branches c.branchId = some emptyBranch ∧ ∃ fact ∈ c.batch.casFacts,
        (emptyBranch.captureReadView.readPoint fact.1 .latest).map
          (fun found => observedOf (found.map CandidateRow.row)) ≠ .ok fact.2 := by
  have hrun : (step durableConfig opened (.solo skipping calls)).any (fun s =>
      s.responses.any fun result => result.toOption.any fun c =>
        (before c.version c.branchId s.runtime.commits).isEmpty && decide (c.branchId = branch) &&
          decide ((key, .present 5) ∈ c.batch.casFacts)) = true := by
    decide +kernel
  obtain ⟨s, hs, hany⟩ := Option.any_eq_true _ _ |>.1 hrun
  obtain ⟨result, hresult, hany⟩ := List.any_eq_true.1 hany
  obtain ⟨c, hc, hfirst⟩ := Option.any_eq_true _ _ |>.1 hany
  obtain rfl := Except.toOption_eq_some.1 hc
  simp only [Bool.and_eq_true, List.isEmpty_iff, decide_eq_true_eq] at hfirst
  obtain ⟨⟨hbefore, hbranch⟩, hfact⟩ := hfirst
  have hmem := ((opened_opened.inv.run (.single ⟨_, hs⟩)).1.responses c hresult).1
  refine ⟨s, hs, c, hresult, hmem, by rw [hbefore]; rfl, by rw [hbranch]; rfl, _, hfact, ?_⟩
  have hread := emptyBranch.readPoint_latest_captureReadView (show key.branchId = emptyBranch.branchId from rfl)
  cases hpoint : emptyBranch.captureReadView.readPoint key .latest with
  | error error =>
    rw [hpoint] at hread
    cases hread
  | ok found =>
    rw [hpoint] at hread
    intro h
    have hnone : found.map CandidateRow.row = none := Except.ok.inj hread
    have hobserved : observedOf (found.map CandidateRow.row) = .present 5 := Except.ok.inj h
    rw [hnone] at hobserved
    cases hobserved

end Sample

end Pipeline

end Strata
