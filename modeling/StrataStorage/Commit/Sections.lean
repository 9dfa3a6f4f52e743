import StrataStorage.Commit.Durable

/-!
# What the sections of a durable commit do

One lemma for each section of `Commit/Durable.lean`: how it changes the state it
runs in, whether it succeeds or not. Everything else about commits is proved from
these lemmas.

* `logCommit_spec`: a commit that is logged was admitted, has a version above all
  others, and its record is the next one of the log (`Logs`); one that is refused
  leaves the branches, the gate and the history as they were (`Refuses`);
* `applyLogged_spec`: an apply changes its branch, or the gate;
* `executeDurableCommit_spec`: a solo commit.
-/

namespace Strata

namespace Durable

open Stateful CommitBatch

variable {config : DurableConfig} {batch : CommitBatch} {calls : CommitCalls} {current : CommitVersion}
  {participation : WalAppendDurability} {s s' : DurableState} {stamp : CommitStamp} {record : WalRecord}

/-! ## Logging a commit -/

/-- What a batch that is admitted at `current` has passed. -/
structure Admitted (batch : CommitBatch) (current : CommitVersion) (s : DurableState) : Prop where
  gate : s.unresolved = none
  mutating : batch.kind = .mutating
  shape : batch.ShapeValid
  branch : ∃ branch, s.branches batch.branchId = some branch ∧ branch.branchId = batch.branchId ∧
    (∀ version ∈ branch.maxCommitVersion, version ≤ current) ∧
    batch.validateCommitConflicts (currentObservedVersion branch.captureReadView current) = .ok ()

theorem requireNoUnresolvedFact_spec :
    Spec (· = s) requireNoUnresolvedFact (fun _ t => t = s ∧ s.unresolved = none) (· = s) := by
  refine .gets_at ?_
  cases hgate : s.unresolved with
  | none => exact .pure fun t ht => ⟨ht, rfl⟩
  | some fact => exact .throw fun t ht => ht

/-- A check leaves the state alone. -/
theorem checkCommit_spec : Spec (· = s) (checkCommit config batch calls current)
      (fun _ t => t = s ∧ Admitted batch current s) (· = s) := by
  have same : ∀ t, t = s → t = s := fun _ h => h
  refine .lift_bind same fun _ _ => .bind (Q := fun _ t => t = s ∧ (batch.kind = .mutating →
    s.unresolved = none)) (.when (fun _ => ?_) fun hkind t ht => ⟨ht, fun h => absurd h hkind⟩)
    fun _ => .fact fun hgate => ?_
  · exact requireNoUnresolvedFact_spec.weaken same fun _ _ h => ⟨h.1, fun _ => h.2⟩
  refine .lift_bind same fun _ hshape => .lift_bind same fun found hfound => ?_
  have hkind : batch.kind = .mutating := Except.require_eq_ok.1 (Except.check_bind_eq_ok.1 hfound).1
  refine .check_bind same fun _ => ?_
  refine .bind (Q := fun branch t => t = s ∧ s.branches batch.branchId = some branch)
    (.gets_at (.lift (fun branch hbranch t ht => ⟨ht, Option.okOr_eq_ok.1 hbranch⟩) same))
    fun branch => .fact fun hbranch => ?_
  refine .check_bind same fun hid => .lift_bind same fun _ hahead => ?_
  have hbelow : ∀ version ∈ branch.maxCommitVersion, version ≤ current := by
    simpa [Option.all_eq_true] using Except.require_eq_ok.1 hahead
  exact .lift_bind same fun _ hconflicts => .pure fun t ht => ⟨ht, hgate hkind, hkind,
    validateBatchShape_eq_ok hshape hkind, branch, hbranch, (not_not.1 hid).symm, hbelow, hconflicts⟩

theorem checkedNext_le_iff {version next : CommitVersion} (h : checkedNext version = some next)
    (v : CommitVersion) : next ≤ v ↔ version < v := by
  unfold checkedNext at h
  split at h
  · cases h
  · rename_i hmax
    cases h
    have hlt : version.toNat ≠ 0xFFFFFFFFFFFFFFFF := fun heq => hmax (UInt64.toNat_inj.1 heq)
    have := version.toNat_lt
    rw [UInt64.lt_iff_toNat_lt, UInt64.le_iff_toNat_le, UInt64.toNat_add]
    simp only [UInt64.toNat_one]
    omega

theorem checkedNext_eq_some {version next : CommitVersion} (h : checkedNext version = some next) :
    version < next := (checkedNext_le_iff h next).1 le_rfl

/-- A stamped batch and its record. -/
structure Stamps (batch : CommitBatch) (stamp : CommitStamp) (record : WalRecord) : Prop where
  branchId : stamp.branchId = batch.branchId
  rows : batch.stampUserRows stamp = .ok record.commitPayload.rows
  recordVersion : record.commitVersion = stamp.commitVersion
  recordBranch : record.branchId = stamp.branchId

theorem buildWalRecord_eq_ok {rows : List StorageRow}
    (h : buildWalRecord stamp rows = .ok record) : record.commitPayload.rows = rows ∧
      record.commitVersion = stamp.commitVersion ∧ record.branchId = stamp.branchId := by
  obtain ⟨payload, hpayload, h⟩ := Except.bind_eq_ok.1 h
  obtain ⟨built, hbuilt, h⟩ := Except.bind_eq_ok.1 h
  cases h
  obtain ⟨hversion, hbranch, -, -, hbody⟩ := WalRecord.new_eq_ok.1 (Except.mapError_eq_ok.1 hbuilt)
  refine ⟨?_, hversion, hbranch⟩
  show built.commitPayload.rows = rows
  rw [hbody]
  exact WalCommitPayload.new_eq_ok.1 (Except.mapError_eq_ok.1 hpayload)

/-- Only the allocator and the log have moved. -/
structure Refuses (config : DurableConfig) (participation : WalAppendDurability)
    (calls : CommitCalls) (s s' : DurableState) : Prop where
  state : s' = { s with
    wal := s'.wal, lastAllocated := s'.lastAllocated, lastTimestamp := s'.lastTimestamp }
  allocated : s.lastAllocated ≤ s'.lastAllocated
  wal : s'.wal = s.wal ∨ ∃ record error,
    WalService.append config.wal record participation calls.append s.wal = (.error error, s'.wal)

theorem Refuses.refl (s : DurableState) : Refuses config participation calls s s :=
  ⟨rfl, le_rfl, .inl rfl⟩

/-- A version is used up even if the batch is refused afterwards. -/
theorem stampCommit_spec : Spec (· = s) (stampCommit batch calls current)
      (fun found t => t = s.withStamp found.1 ∧ (s.lastAllocated < found.1.commitVersion ∧ current < found.1.commitVersion) ∧
        Stamps batch found.1 found.2)
      (Refuses config participation calls s) := by
  have refused : ∀ t, t = s → Refuses config participation calls s t := by
    rintro t rfl
    exact .refl t
  -- the allocation
  refine .bind (Q := fun stamp t => t = s.withStamp stamp ∧
      s.lastAllocated < stamp.commitVersion ∧ stamp.branchId = batch.branchId) ?_ fun stamp =>
    .fact fun ⟨habove, hbranch⟩ => ?_
  · refine .gets_at (.lift_bind refused fun version hversion => .gets_at (.lift_bind refused
      fun timestamp _ => .modify_at (.pure fun t ht => ⟨ht, ?_, rfl⟩)))
    exact checkedNext_eq_some (Option.okOr_eq_ok.1 hversion)
  have refused : ∀ t, t = s.withStamp stamp → Refuses config participation calls s t := by
    rintro t rfl
    exact ⟨rfl, habove.le, .inl rfl⟩
  refine .check_bind refused fun hcurrent => .lift_bind refused fun rows hrows =>
    .check_bind refused fun _ => .lift_bind refused fun record hrecord => .pure fun t ht => ?_
  obtain ⟨hpayload, hversion, hrecordBranch⟩ := buildWalRecord_eq_ok hrecord
  exact ⟨ht, ⟨habove, not_le.1 hcurrent⟩, hbranch, by rw [hpayload]; exact hrows, hversion, hrecordBranch⟩

/-- A commit that is logged. -/
structure Logs (config : DurableConfig) (participation : WalAppendDurability)
    (calls : CommitCalls) (batch : CommitBatch) (current : CommitVersion) (s : DurableState)
    (commit : Commit) (s' : DurableState) : Prop where
  admitted : Admitted batch current s
  batch_eq : commit.batch = batch
  stamps : Stamps batch commit.stamp commit.record
  allocated : s.lastAllocated < commit.version
  above : current < commit.version
  appended : ∃ append, WalService.append config.wal commit.record participation calls.append s.wal =
    (.ok append, s'.wal)
  seq : commit.seq = s'.wal.appendSeq
  state : s' = { s.withStamp commit.stamp with wal := s'.wal, commits := s.commits ++ [commit] }

section

variable {commit : Commit} (h : Logs config participation calls batch current s commit s')
include h

theorem Logs.commits : s'.commits = s.commits ++ [commit] := by rw [h.state]
theorem Logs.mem_commits {a : Commit} : a ∈ s'.commits ↔ a ∈ s.commits ∨ a = commit := by simp [h.commits]
theorem Logs.branches : s'.branches = s.branches := by rw [h.state]; rfl
theorem Logs.lastAllocated : s'.lastAllocated = commit.version := by rw [h.state]; rfl
theorem Logs.unresolved : s'.unresolved = s.unresolved := by rw [h.state]; rfl
theorem Logs.visible : s'.visible = s.visible := by rw [h.state]; rfl
theorem Logs.pipelineFrontier : s'.pipelineFrontier = s.pipelineFrontier := by rw [h.state]; rfl
theorem Logs.branchId : commit.branchId = batch.branchId := h.stamps.branchId

end

/-- What the log is after an append that succeeds. -/
theorem append_accepted {append : WalService.WalAppend} {wal wal' : WalState}
    (h : WalService.append config.wal record participation calls.append wal = (.ok append, wal')) :
    WalService.Accepted config.wal record wal.frames wal.appendSeq wal.durableSeq wal' ∧ append.forcedDurable =
        decide (participation = .policyDriven ∧ config.wal.durabilityPolicy = .always) ∧
      (append.forcedDurable = true → wal'.appendSeq ≤ wal'.durableSeq) :=
  (WalService.append_log record participation calls.append).run_ok (.refl wal) h

theorem logCommit_spec : Spec (· = s) (logCommit config batch calls current participation)
      (fun found t => Logs config participation calls batch current s found.1 t)
      (Refuses config participation calls s) := by
  refine .bind (checkCommit_spec.loosen fun t ht => ht ▸ .refl t) fun durability => .fact fun hadmitted => ?_
  refine .bind stampCommit_spec fun found => .fact fun ⟨⟨habove, hcurrent⟩, hstamps⟩ => ?_
  obtain ⟨stamp, record⟩ := found
  refine .bind (Q := fun commit t => Logs config participation calls batch current s commit t) ?_
    fun commit => .pure fun t ht => ht
  -- the append
  refine .bind (Q := fun append t => ∃ wal', t = { s.withStamp stamp with wal := wal' } ∧
      WalService.append config.wal record participation calls.append s.wal = (.ok append, wal'))
    (.zoom ?_) fun append => ?_
  · rintro t rfl wal rfl
    generalize hrun : WalService.append config.wal record participation calls.append (s.withStamp stamp).wal = run
    obtain ⟨result, wal'⟩ := run
    cases result with
    | ok append => exact ⟨wal', rfl, hrun⟩
    | error error => exact ⟨rfl, habove.le, .inr ⟨record, error, hrun⟩⟩
  refine .pointwise fun t ⟨wal', ht, happend⟩ => ?_
  subst ht
  -- an append that succeeds under `Always` has synced, unless a group does it
  have hsynced : ¬(participation = .policyDriven ∧ config.wal.durabilityPolicy = .always ∧
      ¬append.forcedDurable = true) := by
    rintro ⟨hsolo, halways, hnot⟩
    rw [(append_accepted happend).2.1] at hnot
    exact hnot (decide_eq_true ⟨hsolo, halways⟩)
  refine .gets_at (.modify_at (.bind (Q := fun _ u => Logs config participation calls batch current
    s ⟨batch, stamp, record, wal'.appendSeq⟩ u) (.when (fun h => absurd h hsynced) fun _ u hu => ?_)
      fun _ => .pure fun u hu => hu))
  subst hu
  exact ⟨hadmitted, rfl, hstamps, habove, hcurrent, ⟨append, happend⟩, rfl, rfl⟩

/-! ## Applying it -/

/-- The rows of `commit` go to its branch. -/
def Applies (commit : Commit) (s s' : DurableState) : Prop :=
  ∃ branch branch', s.branches commit.branchId = some branch ∧
    branch.appendCommittedRowsAtomically commit.rows = .ok branch' ∧
    s' = s.setBranch commit.branchId (some branch')

/-- A fact that reaches down to `first` is recorded, unless there is one already. -/
def Blocks (first : CommitVersion) (s s' : DurableState) : Prop :=
  ∃ fact : CommitUnresolvedDurable, fact.firstCommitVersion = first ∧
    s' = { s with unresolved := some (s.unresolved.getD fact) }

/-- A fact widened to a group reaches down to the group's first version. -/
theorem blocks_recordWidened (group : CommitGroupState) (fact : CommitUnresolvedDurable)
    (h : ∀ first ∈ group.firstVersion, first ≤ fact.commitVersion) :
    Blocks (group.firstVersion.getD fact.firstCommitVersion) s (s.recordWidened group fact) := by
  unfold DurableState.recordWidened CommitGroupState.widenFact
  cases hfirst : group.firstVersion with
  | none => exact ⟨fact, rfl, rfl⟩
  | some first =>
    have hle := h first hfirst
    simp only [CommitUnresolvedDurable.coveringGroupFrom, dif_pos hle]
    exact ⟨_, rfl, rfl⟩

variable {group : CommitGroupState} {commit : Commit} {durability : CommitDurabilityClass} {applied : Bool}

theorem applyRows_spec : Spec (· = s) (applyRows commit.branchId commit.rows applied) (fun _ => Applies commit s)
      (· = s) := by
  have same : ∀ t, t = s → t = s := fun _ h => h
  refine .bind (Q := fun branch t => t = s ∧ s.branches commit.branchId = some branch)
    (.gets_at (.lift (fun branch hbranch t ht => ⟨ht, Option.okOr_eq_ok.1 hbranch⟩) same))
    fun branch => .fact fun hbranch => ?_
  refine .check_bind same fun _ => .lift_bind same fun branch' hbranch' => .modify fun t ht => ?_
  exact ⟨branch, branch', hbranch, Except.mapError_eq_ok.1 hbranch', by rw [ht]⟩

theorem applyLogged_spec (h : ∀ first ∈ group.firstVersion, first ≤ commit.version) :
    Spec (· = s) (applyLogged group commit durability applied) (fun _ => Applies commit s)
      (Blocks (group.firstVersion.getD commit.version) s) := by
  refine applyRows_spec.mapFailure fun _ t ht => ?_
  subst ht
  exact blocks_recordWidened group (.new commit.stamp durability .durableNotApplied _) h

theorem publishSolo_spec (h : s.visible ≤ stamp.commitVersion) : Spec (· = s) (publishSolo stamp durability)
      (fun _ t => t = { s with visible := stamp.commitVersion }) (fun _ => False) := by
  have hpublish : Spec (· = s) (publishVisible stamp.commitVersion)
      (fun _ t => t = { s with visible := stamp.commitVersion }) (fun _ => False) := by
    refine .gets_at (.bind (Q := fun _ t => t = s) (.when (fun hlt => ?_) fun _ _ ht => ht)
      fun _ => .modify fun t ht => by rw [ht])
    exact absurd h (not_le.2 hlt)
  exact hpublish.mapFailure fun _ _ h => h

/-! ## Solo commits -/

theorem executeDurableCommit_spec : Spec (· = s) (executeDurableCommit config batch calls)
      (fun commit t => ∃ logged applied, Logs config .policyDriven calls batch
          s.pipelineVisibilityFloor s commit logged ∧ Applies commit logged applied ∧
        t = { applied with visible := commit.version })
      (fun t => Refuses config .policyDriven calls s t ∨
        ∃ commit logged, Logs config .policyDriven calls batch s.pipelineVisibilityFloor s commit
          logged ∧ Blocks commit.version logged t) := by
  refine .gets_at (.bind (logCommit_spec.loosen fun t ht => .inl ht) fun found => .pointwise
    fun logged hlogs => ?_)
  obtain ⟨commit, durability⟩ := found
  refine .bind ((applyLogged_spec fun first h => by cases h).loosen fun t ht => .inr ⟨commit, logged, hlogs, ht⟩)
    fun _ => .pointwise fun applied happlies => ?_
  have hvisible : applied.visible ≤ commit.version := by
    obtain ⟨_, _, -, -, rfl⟩ := happlies
    show logged.visible ≤ commit.version
    rw [hlogs.visible]
    exact (le_max_left _ _).trans hlogs.above.le
  exact .bind ((publishSolo_spec hvisible).loosen fun _ h => h.elim) fun _ =>
    .pure fun t ht => ⟨logged, applied, hlogs, happlies, ht⟩

end Durable

end Strata
