import StrataStorage.Commit.Pipeline

/-!
# Snapshots

A read at a version sees the rows at or below it. Once the version is visible these
rows are final: no later run, whatever its groups end in, adds one to a branch or
takes one away, and a read at the version returns the same at any later time
(`snapshot_stable`). The commits of the later run are above every version that was
allocated before it (`Since`), and the earlier ones that are visible are applied. So
an answered commit can be read (`answered_readable`).
-/

namespace Strata.Pipeline

open List Function Stateful Durable BranchEffectiveReadBound
open Relation (ReflTransGen)

variable {config : DurableConfig} {init : BranchId → Option BranchLocalState} {s₀ s s' : PipelineState}
  {start : DurableState}

/-- What any run keeps: its commits are above the versions that were allocated, and
a branch that is there was there, with some of its rows. -/
structure Since (start t : DurableState) : Prop where
  allocated : start.lastAllocated ≤ t.lastAllocated
  commits : ∀ c ∈ t.commits, c ∈ start.commits ∨ start.lastAllocated < c.version
  branches : ∀ b branch, t.branches b = some branch →
    ∃ first, start.branches b = some first ∧ first.contents ⊆ branch.contents

theorem Since.setBranch {t : DurableState} (hi : Since start t) {b : BranchId} {found : Option BranchLocalState}
    (h : ∀ branch, found = some branch →
      ∃ first, start.branches b = some first ∧ first.contents ⊆ branch.contents) :
    Since start (t.setBranch b found) := by
  refine { hi with branches := fun b' branch hb => ?_ }
  simp only [DurableState.setBranch, update_apply] at hb
  split at hb
  · rename_i hid
    exact hid ▸ h branch hb
  · exact hi.branches b' branch hb

theorem moves_since (t t' : DurableState) (h : Moves config (fun _ => True) (fun _ => True) t t')
    (hi : Since start t) : Since start t' := by
  cases h with
  | refuses _ h =>
    rw [h.state]
    exact { hi with allocated := hi.allocated.trans h.allocated }
  | logs _ h =>
    refine ⟨?_, fun c hc => ?_, h.branches ▸ hi.branches⟩
    · rw [h.lastAllocated]
      exact hi.allocated.trans h.allocated.le
    · rcases h.mem_commits.1 hc with hc | rfl
      · exact hi.commits c hc
      · exact .inr (hi.allocated.trans_lt h.allocated)
  | applies h =>
    obtain ⟨branch, branch', hbranch, happend, rfl⟩ := h
    refine hi.setBranch fun _ heq => ?_
    cases heq
    obtain ⟨first, hfirst, hrows⟩ := hi.branches _ branch hbranch
    exact ⟨first, hfirst, fun row hrow =>
      ((BranchLocalState.appended_of_append happend).contents row).2 (.inr (hrows hrow))⟩
  | loses => exact hi.setBranch (by simp)
  | gates | captures | frontier | publishes => exact { hi with }

theorem Finishes.since {t t' : DurableState} {flight : Flight} {sync : Option Bool}
    {results : List (Except CommitRuntimeError Commit)} (h : Finishes t flight sync results t')
    (hi : Since start t) : Since start t' := by
  cases h with
  | refused | fatal => exact hi
  | published | empty | withheld => exact { hi with }
  | failed =>
    unfold recordGroupFailure DurableState.recordWidened
    repeat' split
    all_goals exact { hi with }

theorem Since.step (hi : Since start s.runtime) (hinv : PipelineInv config init s) {event : PipelineEvent}
    (h : step config s event = some s') : Since start s'.runtime := by
  cases event with
  | solo batch calls =>
    cases h
    exact (executeDurableCommit_keeps moves_since trivial :
      Spec _ (executeDurableCommit config batch calls) _ _).exec hi
  | lead group members capture rank outcomes =>
    simp only [Pipeline.step] at h
    split at h
    · cases h
      exact lead_keeps moves_since members (fun _ _ => trivial) capture rank outcomes (fun _ _ => trivial) hi
    · cases h
  | sync event =>
    simp only [Pipeline.step] at h
    split at h
    · obtain ⟨t, -, rfl⟩ := Option.map_eq_some_iff.1 h
      exact { hi with }
    · cases h
  | finish group objectMissing applied =>
    obtain ⟨flight, hflight, h⟩ := Option.bind_eq_some_iff.1 h
    obtain ⟨sync, -, h⟩ := Option.bind_eq_some_iff.1 h
    cases h
    exact (groupFinish_finishes (hinv.flight group flight hflight).deferred sync objectMissing applied).since hi

theorem PipelineInv.since (hi : PipelineInv config init s) (hrun : ReflTransGen (Step config) s s') :
    Since s.runtime s'.runtime := by
  induction hrun with
  | refl => exact ⟨le_rfl, fun _ => .inl, fun _ branch h => ⟨branch, h, fun _ h => h⟩⟩
  | tail hrun hstep ih =>
    obtain ⟨event, h⟩ := hstep
    exact ih.step (hi.run hrun).1 h

theorem mem_rowsWithin_atVersion {rows : List StorageRow} {key : PhysicalKey} {version : CommitVersion}
    {row : StorageRow} : row ∈ rowsWithin rows key (.atVersion version) ↔
      row ∈ rows ∧ row.physicalKey = key ∧ row.commitVersion ≤ version := by
  simp [mem_rowsWithin, forOwnBranch, new, matchesRow, rowVersionInBound, rowTimestampInBound]

/-- Where rows agree, what a search finds depends on the set of rows within its bound. -/
theorem newestRow_congr {rows rows' : List StorageRow} {key : PhysicalKey} {bound : BranchReadBound}
    (hagree : RowsAgree rows') (h : ∀ row, row ∈ rowsWithin rows key bound ↔ row ∈ rowsWithin rows' key bound) :
    newestRow rows key bound = newestRow rows' key bound := by
  cases hnewest : newestRow rows key bound with
  | none =>
    rw [newestRow, argmax_eq_none] at hnewest
    rw [eq_comm, newestRow, argmax_eq_none, eq_nil_iff_forall_not_mem]
    intro row hrow
    rw [← h, hnewest] at hrow
    cases hrow
  | some row =>
    exact (newestRow_eq_some_of_agree hagree ((h row).1 (newestRow_mem hnewest)) fun r hr =>
      le_newestRow hnewest ((h r).2 hr)).symm

/-- The rows of a branch that was opened have different keys and versions, and
versions that were allocated. -/
def Sound (s₀ : PipelineState) : Prop :=
  ∀ b first, s₀.runtime.branches b = some first →
    RowsAgree first.contents ∧ ∀ row ∈ first.contents, row.commitVersion ≤ s₀.runtime.lastAllocated

/-- The row that a read of the branch at a version finds. -/
def readAt (branch : BranchLocalState) (key : PhysicalKey) (version : CommitVersion) :
    Except BranchRuntimeError (Option StorageRow) :=
  (branch.captureReadView.readPoint key (.atVersion version)).map (Option.map CandidateRow.row)

section

variable {b : BranchId} {before after : BranchLocalState}

/-- No run writes one key twice at a version. -/
theorem rowsAgree_of_run (hopen : Opened config s₀) (hsound : Sound s₀) (hrun : ReflTransGen (Step config) s₀ s)
    (hbranch : s.runtime.branches b = some after) : RowsAgree after.contents := by
  have hinv := (hopen.inv.run hrun).1
  obtain ⟨-, first, hfirst, hrows⟩ := hinv.history.branch b after hbranch
  obtain ⟨hagree, hold⟩ := hsound b first hfirst
  have hnew {c : Commit} (hc : c ∈ s.runtime.commits) {row : StorageRow} (hrow : row ∈ c.rows) :
      row.commitVersion = c.version ∧ s₀.runtime.lastAllocated < row.commitVersion := by
    have hversion := ((hinv.history.commit c hc).1.rows_spec.2.1 row hrow).2
    have hallocated := (hopen.inv.since hrun).commits c hc
    rw [hopen.commits] at hallocated
    exact ⟨hversion, hversion ▸ hallocated.resolve_left not_mem_nil⟩
  intro x hx y hy hkey
  have hversion : x.commitVersion = y.commitVersion := congrArg InternalKey.commitVersion hkey
  rcases hrows x hx with hx | ⟨c, hc, -, hx⟩ <;> rcases hrows y hy with hy | ⟨d, hd, -, hy⟩
  · exact hagree x hx y hy hkey
  · exact absurd (hold x hx) (hversion ▸ (hnew hd hy).2).not_ge
  · exact absurd (hold y hy) (hversion ▸ (hnew hc hx).2).not_ge
  · -- one version is one commit, and a commit writes a key once
    have hversions : (s.runtime.commits.map (·.version)).Nodup :=
      pairwise_map.2 (hinv.history.sorted.imp fun h => h.1.ne)
    obtain rfl := inj_on_of_nodup_map hversions hc hd ((hnew hc hx).1.symm.trans (hversion.trans (hnew hd hy).1))
    exact inj_on_of_nodup_map (hinv.history.commit c hc).1.rows_spec.2.2 hx hy (congrArg encodeInternalKey hkey)

/-- After a careful run, whatever comes later: the rows of a branch at or below the
visible version stay as they are, and so does what a read at such a version finds. -/
theorem snapshot_stable (hopen : Opened config s₀) (hsound : Sound s₀)
    (hrun : ReflTransGen (CarefulStep config) s₀ s) (hlater : ReflTransGen (Step config) s s')
    (hbefore : s.runtime.branches b = some before) (hafter : s'.runtime.branches b = some after)
    {version : CommitVersion} (hversion : version ≤ s.runtime.visible) :
    (∀ row : StorageRow, row.commitVersion ≤ version → (row ∈ after.contents ↔ row ∈ before.contents)) ∧
      ∀ key, key.branchId = b → readAt after key version = readAt before key version := by
  obtain ⟨hinv, hcareful⟩ := carefulRun_inv hopen hrun
  have hfirst : ReflTransGen (Step config) s₀ s := hrun.lift id fun _ _ h => h.imp fun _ h => h.1
  have hinv' := (hinv.run hlater).1
  have hrows (row : StorageRow) (hrow : row.commitVersion ≤ version) :
      row ∈ after.contents ↔ row ∈ before.contents := by
    constructor
    · intro hmem
      obtain ⟨-, first, hinit, hrows⟩ := hinv'.history.branch b after hafter
      rcases hrows row hmem with hmem | ⟨c, hc, rfl, hmem⟩
      · obtain ⟨_, hstart, hkept⟩ := (hopen.inv.since hfirst).branches b before hbefore
        cases hinit.symm.trans hstart
        exact hkept hmem
      · have hvisible : c.version ≤ s.runtime.visible := by
          rw [← ((hinv'.history.commit c hc).1.rows_spec.2.1 row hmem).2]
          exact hrow.trans hversion
        have hold : c ∈ s.runtime.commits := ((hinv.since hlater).commits c hc).resolve_right
          (hvisible.trans hinv.history.visible_le).not_gt
        obtain ⟨_, hbranch, happlied⟩ := applied_of_visible hinv hcareful.present hold hvisible
        cases hbefore.symm.trans hbranch
        exact happlied row hmem
    · intro hmem
      obtain ⟨_, hbranch, hkept⟩ := (hinv.since hlater).branches b after hafter
      cases hbefore.symm.trans hbranch
      exact hkept hmem
  refine ⟨hrows, fun key hkey => ?_⟩
  have hid := (hinv.history.branch b before hbefore).1
  have hid' := (hinv'.history.branch b after hafter).1
  rw [readAt, readAt, after.readPoint_captureReadView (hkey.trans hid'.symm), before.readPoint_captureReadView (hkey.trans hid.symm),
    visibleRow, visibleRow, newestRow_congr (rowsAgree_of_run hopen hsound hfirst hbefore) fun row => ?_]
  rw [mem_rowsWithin_atVersion, mem_rowsWithin_atVersion]
  exact and_congr_left fun h => hrows row h.2

/-- After a careful run: a read at the visible version of a key that an answered
commit wrote finds a row at least as new, or nothing if that row is a tombstone. -/
theorem answered_readable (hopen : Opened config s₀) (hrun : ReflTransGen (CarefulStep config) s₀ s) {c : Commit}
    (hc : .ok c ∈ s.responses) {row : StorageRow} (hrow : row ∈ c.rows) :
    ∃ branch newest, s.runtime.branches c.branchId = some branch ∧ newest ∈ branch.contents ∧
      newest.physicalKey = row.physicalKey ∧ c.version ≤ newest.commitVersion ∧
      readAt branch row.physicalKey s.runtime.visible = .ok (if newest.isTombstone then none else some newest) := by
  obtain ⟨hinv, hcareful⟩ := carefulRun_inv hopen hrun
  obtain ⟨hmem, hvisible, -⟩ := hinv.responses c hc
  obtain ⟨branch, hbranch, happlied⟩ := applied_of_visible hinv hcareful.present hmem hvisible
  obtain ⟨hid, -⟩ := hinv.history.branch _ branch hbranch
  obtain ⟨hkey, hversion⟩ := (hinv.history.commit c hmem).1.rows_spec.2.1 row hrow
  have hwithin : row ∈ rowsWithin branch.contents row.physicalKey (.atVersion s.runtime.visible) :=
    mem_rowsWithin_atVersion.2 ⟨happlied row hrow, rfl, hversion ▸ hvisible⟩
  cases hnewest : newestRow branch.contents row.physicalKey (.atVersion s.runtime.visible) with
  | none =>
    rw [newestRow, argmax_eq_none] at hnewest
    rw [hnewest] at hwithin
    cases hwithin
  | some newest =>
    obtain ⟨hcontents, hnewestKey, -⟩ := mem_rowsWithin.1 (newestRow_mem hnewest)
    refine ⟨branch, newest, hbranch, hcontents, hnewestKey, hversion ▸ le_newestRow hnewest hwithin, ?_⟩
    have hlatest : rowIsExpiredAt newest (BranchReadBound.atVersion s.runtime.visible).readTimestamp = false := rfl
    rw [readAt, branch.readPoint_captureReadView (hkey.trans hid.symm), visibleRow, hnewest, Option.filter_some, hlatest]
    cases newest.isTombstone <;> rfl

end

namespace Sample

open Strata.Sample

def put : PipelineEvent := .solo (putOn branch) calls

/-- A key is written twice; what a read at the first version finds stays. -/
theorem snapshot_stable_rewrite : ∃ s s' before after, step durableConfig opened put = some s ∧
    step durableConfig s put = some s' ∧ s.runtime.visible < s'.runtime.visible ∧
    s.runtime.branches branch = some before ∧ s'.runtime.branches branch = some after ∧
    ∀ key, key.branchId = branch → readAt after key s.runtime.visible = readAt before key s.runtime.visible := by
  have hrun : (step durableConfig opened put).any (fun s => (s.runtime.branches branch).isSome &&
      (step durableConfig s put).any fun s' => (s'.runtime.branches branch).isSome &&
        decide (s.runtime.visible < s'.runtime.visible)) = true := by
    decide +kernel
  simp only [Option.any_eq_true, Bool.and_eq_true, Option.isSome_iff_exists, decide_eq_true_eq] at hrun
  obtain ⟨s, hs, ⟨before, hbefore⟩, s', hs', ⟨after, hafter⟩, hlt⟩ := hrun
  have hsound : Sound opened := by
    intro b first hfirst
    obtain ⟨-, hnew⟩ := Option.ite_none_right_eq_some.1 hfirst
    cases hnew
    exact ⟨nofun, nofun⟩
  have hcareful : CarefulStep durableConfig opened s := ⟨put, hs, trivial, trivial⟩
  exact ⟨s, s', before, after, hs, hs', hlt, hbefore, hafter,
    (snapshot_stable opened_opened hsound (.single hcareful) (.single ⟨put, hs'⟩) hbefore hafter le_rfl).2⟩

/-- A commit, a group on two branches, and a commit on each. -/
def mixed : List PipelineEvent := put :: oneGroup ++ [.solo (putOn otherBranch) calls, put]

theorem returns_mixed : ∀ event ∈ mixed, Returns event := by
  simp [mixed, put, oneGroup, lead, syncs, finish, WalSync.Sample.syncs, Returns]

/-- Five commits are answered, three of them with the same key of one branch. -/
theorem answered_readable_mixed : ∃ s, carefulRun durableConfig opened mixed = some s ∧
    s.responses.length = 5 ∧ (∀ result ∈ s.responses, result.isOk = true) ∧
    ∀ c, .ok c ∈ s.responses → ∀ row ∈ c.rows, ∃ branch newest, s.runtime.branches c.branchId = some branch ∧
      c.version ≤ newest.commitVersion ∧ readAt branch row.physicalKey s.runtime.visible =
        .ok (if newest.isTombstone then none else some newest) := by
  have hrun : (carefulRun durableConfig opened mixed).any (fun s =>
      s.responses.length == 5 && s.responses.all (·.isOk)) = true := by
    decide +kernel
  simp only [Option.any_eq_true, Bool.and_eq_true, beq_iff_eq, List.all_eq_true] at hrun
  obtain ⟨s, hs, hfive, hok⟩ := hrun
  refine ⟨s, hs, hfive, hok, fun c hc row hrow => ?_⟩
  obtain ⟨branch, newest, hbranch, -, -, hnewest⟩ :=
    answered_readable opened_opened (reflTransGen_of_carefulRun hs returns_mixed) hc hrow
  exact ⟨branch, newest, hbranch, hnewest⟩

end Sample

end Strata.Pipeline
