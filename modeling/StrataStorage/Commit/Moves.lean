import StrataStorage.Commit.Group

/-!
# What can happen to the runtime

The sections of a solo commit and of the two phases of a write group are made of
a few kinds of moves (`Moves`). What every move keeps is kept by a solo commit
(`executeDurableCommit_keeps`) and by phase 1 of a group (`lead_keeps`), whatever
the members ask for and however their calls and applies end.
-/

namespace Strata

namespace Durable

open Stateful

/-- One move: `allowed` are the calls its commits may make, and `lost` the branches
whose apply may stay out. -/
inductive Moves (config : DurableConfig) (allowed : CommitCalls → Prop) (lost : BranchId → Prop) :
    DurableState → DurableState → Prop
  | refuses {participation : WalAppendDurability} {calls : CommitCalls} {s s' : DurableState}
      (hcalls : allowed calls) (h : Refuses config participation calls s s') :
      Moves config allowed lost s s'
  | logs {participation : WalAppendDurability} {calls : CommitCalls} {batch : CommitBatch}
      {current : CommitVersion} {commit : Commit} {s s' : DurableState} (hcalls : allowed calls)
      (h : Logs config participation calls batch current s commit s') :
      Moves config allowed lost s s'
  | applies {commit : Commit} {s s' : DurableState} (h : Applies commit s s') : Moves config allowed lost s s'
  | gates (s : DurableState) (unresolved : Option CommitUnresolvedDurable) :
      Moves config allowed lost s { s with unresolved := unresolved }
  | loses (s : DurableState) {branchId : BranchId} (h : lost branchId) :
      Moves config allowed lost s (s.setBranch branchId none)
  | captures (s : DurableState) (calls : FlushCalls) : Moves config allowed lost s
      { s with wal := (WalService.beginGroupSync config.wal calls).exec s.wal }
  | frontier (s : DurableState) (version : CommitVersion) :
      Moves config allowed lost s { s with pipelineFrontier := version }
  | publishes (s : DurableState) (version : CommitVersion) :
      Moves config allowed lost s { s with visible := version }

variable {config : DurableConfig} {allowed : CommitCalls → Prop} {lost : BranchId → Prop}
  {batch : CommitBatch} {calls : CommitCalls} {group : CommitGroupState} {s : DurableState}
  {I : DurableState → Prop}

theorem recordWidened_eq (s : DurableState) (group : CommitGroupState) (fact : CommitUnresolvedDurable) :
    ∃ unresolved, s.recordWidened group fact = { s with unresolved := unresolved } := by
  unfold DurableState.recordWidened
  split
  · exact ⟨_, rfl⟩
  · exact ⟨s.unresolved, rfl⟩

section Keeps

variable (hI : ∀ s s', Moves config allowed lost s s' → I s → I s') {f : Forming}
  {request : MemberRequest} {applied : Bool}
include hI

theorem logCommit_keeps (hcalls : allowed calls) {current : CommitVersion} {participation : WalAppendDurability} :
    Spec I (logCommit config batch calls current participation) (fun _ => I) I :=
  .pointwise fun s hs => (logCommit_spec.weaken (fun _ h => h)
    fun _ t h => hI s t (.logs hcalls h) hs).loosen fun t h => hI s t (.refuses hcalls h) hs

theorem applyLogged_keeps {commit : Commit} {durability : CommitDurabilityClass} :
    Spec I (applyLogged group commit durability applied) (fun _ => I) I := by
  refine .pointwise fun s hs => (applyRows_spec.weaken (fun _ h => h)
    fun _ t h => hI s t (.applies h) hs).mapFailure fun _ t ht => ?_
  obtain ⟨unresolved, heq⟩ := recordWidened_eq t group
    (.new commit.stamp durability .durableNotApplied rejectedReason)
  subst ht
  show I (DurableState.recordWidened _ _ _)
  rw [heq]
  exact hI _ _ (.gates _ _) hs

theorem applyDeferredBranch_keeps {pending : DeferredBranchApply} :
    Spec I (applyDeferredBranch group pending applied) (fun _ => I) I :=
  .bind (Q := fun _ => I) (.gets_bind fun _ => .lift (fun _ _ _ h => h.1) fun _ h => h.1)
    fun _ => applyLogged_keeps hI

/-- A solo commit keeps what every move keeps. -/
theorem executeDurableCommit_keeps (hcalls : allowed calls) :
    Spec I (executeDurableCommit config batch calls) (fun _ => I) I := by
  refine .pointwise fun s hs => (executeDurableCommit_spec.weaken (fun _ h => h)
    fun commit t h => ?_).loosen fun t h => ?_
  · obtain ⟨logged, applied, hlogs, happlies, rfl⟩ := h
    exact hI _ _ (.publishes _ _) (hI _ _ (.applies happlies) (hI _ _ (.logs hcalls hlogs) hs))
  · rcases h with h | ⟨commit, logged, hlogs, fact, -, rfl⟩
    · exact hI _ _ (.refuses hcalls h) hs
    · exact hI _ _ (.gates _ _) (hI _ _ (.logs hcalls hlogs) hs)

theorem runMember_keeps (hcalls : allowed request.calls) (hs : I s) : I (runMember config f request s).2 := by
  have hlog : Spec I (logGroupMember config f.group request.batch request.calls) (fun _ => I) I :=
    .gets_bind fun visible => (logCommit_keeps hI hcalls).weaken (fun _ h => h.1) fun _ _ h => h
  have hrun : Spec I (executeGroupMember config f.group request.batch request.calls) (fun _ => I) I :=
    .bind hlog fun found => .bind (applyLogged_keeps hI) fun _ => .pure fun _ h => h
  unfold runMember
  by_cases heager : request.batch.branchId ∈ f.eager
  · simp only [heager, not_true_eq_false, if_false]
    have hspec := hrun s hs
    generalize executeGroupMember config f.group request.batch request.calls s = run at hspec
    obtain ⟨result, s'⟩ := run
    cases result <;> exact hspec
  · simp only [heager, not_false_eq_true, if_true]
    have hspec := hlog s hs
    generalize logGroupMember config f.group request.batch request.calls s = run at hspec
    obtain ⟨result, s'⟩ := run
    cases result <;> exact hspec

theorem formMember_keeps (hcalls : allowed request.calls) (hs : I s) : I (formMember config (f, s) request).2 := by
  unfold formMember
  dsimp only
  split
  · exact hs
  · split
    · exact runMember_keeps hI hcalls hs
    · rename_i pending _
      have hspec := (applyDeferredBranch_keeps hI :
        Spec I (applyDeferredBranch f.group pending request.flushed) _ _) s hs
      generalize applyDeferredBranch f.group pending request.flushed s = run at hspec
      obtain ⟨result, s'⟩ := run
      cases result with
      | ok _ => exact runMember_keeps hI hcalls hspec
      | error _ => exact hspec

theorem formMembers_keeps {members : List MemberRequest}
    (hcalls : ∀ request ∈ members, allowed request.calls) (f : Forming) (hs : I s) :
    I (members.foldl (formMember config) (f, s)).2 := by
  induction members generalizing f s with
  | nil => exact hs
  | cons request members ih =>
    exact ih (fun r hr => hcalls r (List.mem_cons_of_mem _ hr)) _
      (formMember_keeps hI (hcalls request List.mem_cons_self) hs)

theorem captureTicket_keeps (capture : FlushCalls) (hs : I s) : I (captureTicket config f capture s).2 := by
  unfold captureTicket
  split
  · rename_i last _ _
    have hfrontier := hI _ _ (.frontier s (max s.pipelineFrontier last.commitVersion)) hs
    dsimp only
    split
    · have hcapture := hI _ _ (.captures _ capture) hfrontier
      unfold Stateful.exec at hcapture
      generalize hrun : WalService.beginGroupSync config.wal capture s.wal = run at hcapture ⊢
      obtain ⟨result, wal⟩ := run
      cases result with
      | ok ticket => exact hcapture
      | error error =>
        dsimp only at hcapture ⊢
        unfold recordGroupFailure
        split
        · rename_i stamp _
          obtain ⟨unresolved, heq⟩ := recordWidened_eq
            { s with wal := wal, pipelineFrontier := max s.pipelineFrontier last.commitVersion }
            f.group (.new stamp .notDurable .appliedNotVisible
              "write group sync capture failed to flush the WAL append buffer")
          rw [heq]
          exact hI _ _ (.gates _ _) hcapture
        · exact hcapture
    · exact hfrontier
  · exact hs

theorem finishApply_keeps {outcomes : BranchId → ApplyOutcome} {fatal : Bool}
    (hlost : ∀ b, outcomes b = .missing → lost b) (pending : DeferredBranchApply) (hs : I s) :
    I (finishApply group outcomes (fatal, s) pending).2 := by
  unfold finishApply
  split
  · rename_i hmissing
    exact hI _ _ (.loses s (hlost _ hmissing)) hs
  · have hspec := (applyLogged_keeps hI : Spec I (applyLogged group pending.commit
      pending.durability (outcomes pending.branchId = .applied)) _ _) s hs
    generalize applyLogged group pending.commit pending.durability
      (outcomes pending.branchId = .applied) s = run at hspec ⊢
    obtain ⟨result, s'⟩ := run
    cases result <;> exact hspec

/-- Phase 1 of a group keeps what every move keeps. -/
theorem lead_keeps (members : List MemberRequest) (hcalls : ∀ request ∈ members, allowed request.calls)
    (capture : FlushCalls) (rank : BranchId → Nat) (outcomes : BranchId → ApplyOutcome)
    (hlost : ∀ b, outcomes b = .missing → lost b) (hs : I s) :
    I (lead config members capture rank outcomes s).2.2 := by
  have happlies : ∀ (rest : List DeferredBranchApply) (group : CommitGroupState) (fatal : Bool)
      (t : DurableState), I t → I (rest.foldl (finishApply group outcomes) (fatal, t)).2 := by
    intro rest group
    induction rest with
    | nil => exact fun _ _ ht => ht
    | cons pending rest ih => exact fun _ _ ht => ih _ _ (finishApply_keeps hI hlost pending ht)
  unfold lead groupBegin
  cases hgate : s.unresolved with
  | some fact => exact hs
  | none =>
    have hform := formMembers_keeps hI hcalls ⟨.new s.pipelineVisibilityFloor, false, [], [], []⟩ hs
    dsimp only
    generalize members.foldl (formMember config) _ = formed at hform ⊢
    obtain ⟨f, t⟩ := formed
    have hcapture := captureTicket_keeps hI (f := f) capture hform
    dsimp only
    unfold runGroupAppliesParallel
    split
    · exact hcapture
    · exact happlies _ _ _ _ hcapture

end Keeps

end Durable

end Strata
