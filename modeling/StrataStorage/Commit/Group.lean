import StrataStorage.Commit.History

/-!
# Write groups

What the two phases of a write group do to the history. Phase 1 logs the members,
applies those of a branch that has several, captures a ticket and applies the rest
(`lead_spec`). Phase 2 redeems the ticket and publishes the last version of the
group, or records that the group is unresolved (`settleGroup_spec`).
-/

namespace Strata

open List Function

namespace Durable

open Stateful

variable {config : DurableConfig} {init : BranchId → Option BranchLocalState}
  {batch : CommitBatch} {calls : CommitCalls} {participation : WalAppendDurability}
  {current : CommitVersion} {start s s' : DurableState} {c : Commit}
variable {pending : DeferredBranchApply} {rest : List DeferredBranchApply} {fatal : Bool}
  {fl : DurableGroupInFlight} {first : CommitVersion}

/-! ## What phase 1 keeps -/

/-- Phase 1 only adds to the log, and publishes nothing. -/
structure Extends (start s : DurableState) : Prop where
  visible : s.visible = start.visible
  allocated : start.lastAllocated ≤ s.lastAllocated
  appendSeq : start.wal.appendSeq ≤ s.wal.appendSeq
  durableSeq : start.wal.durableSeq ≤ s.wal.durableSeq
  commits : start.commits <+: s.commits

namespace Extends

theorem refl (s : DurableState) : Extends s s := ⟨rfl, le_rfl, le_rfl, le_rfl, prefix_rfl⟩

section

variable (h : Extends start s)
include h

theorem refuses (hrefuses : Refuses config participation calls s s') : Extends start s' := by
  have hwal : s.wal.appendSeq ≤ s'.wal.appendSeq ∧ s.wal.durableSeq ≤ s'.wal.durableSeq := by
    rcases hrefuses.wal with heq | ⟨record, error, herror⟩
    · rw [heq]
      exact ⟨le_rfl, le_rfl⟩
    · have hlog := (WalService.append_log record participation calls.append).run_error (.refl s.wal) herror
      rcases hlog with ⟨-, hseq, hdurable⟩ | ⟨frame, ⟨-, hseq, hdurable⟩, -⟩
      · exact ⟨hseq.ge, hdurable⟩
      · exact ⟨by omega, hdurable⟩
  have hvisible : s'.visible = s.visible := by rw [hrefuses.state]
  have hcommits : s'.commits = s.commits := by rw [hrefuses.state]
  exact ⟨hvisible.trans h.visible, h.allocated.trans hrefuses.allocated,
    h.appendSeq.trans hwal.1, h.durableSeq.trans hwal.2, hcommits ▸ h.commits⟩

theorem logs (hlogs : Logs config participation calls batch current s c s') : Extends start s' := by
  obtain ⟨append, happend⟩ := hlogs.appended
  obtain ⟨⟨frame, ⟨-, hseq, hdurable⟩, -⟩, -⟩ := append_accepted happend
  have := h.appendSeq
  exact ⟨hlogs.visible.trans h.visible, by
      rw [hlogs.lastAllocated]; exact h.allocated.trans hlogs.allocated.le,
    by omega, h.durableSeq.trans hdurable, by
      rw [hlogs.commits]; exact h.commits.trans (prefix_append _ _)⟩

theorem applies (happlies : Applies c s s') : Extends start s' := by
  obtain ⟨_, _, -, -, rfl⟩ := happlies
  exact { h with }

theorem blocks (hblocks : Blocks first s s') : Extends start s' := by
  obtain ⟨fact, -, rfl⟩ := hblocks
  exact { h with }

end

end Extends

/-! ## Members -/

/-- The versions of a group are all allocated since `start`. -/
def GroupRange (start : DurableState) (group : CommitGroupState) (s : DurableState) : Prop :=
  (group.firstVersion = none ∧ group.lastStamp = none) ∨
    ∃ first last, group.firstVersion = some first ∧ group.lastStamp = some last ∧
      start.lastAllocated < first ∧ first ≤ last.commitVersion ∧ last.commitVersion ≤ s.lastAllocated

/-- The version of the commit is one of the group's. -/
def InRange (group : CommitGroupState) (c : Commit) : Prop :=
  ∃ first last, group.firstVersion = some first ∧ group.lastStamp = some last ∧
    first ≤ c.version ∧ c.version ≤ last.commitVersion

variable {group : CommitGroupState} {f : Forming} {objectMissing : Bool} {sync : Option Bool}

section

variable (h : GroupRange start group s)
include h

theorem GroupRange.first_le :
    ∀ first ∈ group.firstVersion, start.lastAllocated < first ∧ first ≤ s.lastAllocated := by
  intro first hfirst
  rcases h with ⟨hnone, -⟩ | ⟨first', last, hsome, -, hstart, hle, hlast⟩
  · rw [hnone] at hfirst
    cases hfirst
  · rw [hsome] at hfirst
    cases hfirst
    exact ⟨hstart, hle.trans hlast⟩

theorem GroupRange.last_le : ∀ last ∈ group.lastStamp, last.commitVersion ≤ s.lastAllocated := by
  intro last hlast
  rcases h with ⟨-, hnone⟩ | ⟨first, last', -, hsome, -, -, halloc⟩
  · rw [hnone] at hlast
    cases hlast
  · rw [hsome] at hlast
    cases hlast
    exact halloc

theorem GroupRange.mono (hle : s.lastAllocated ≤ s'.lastAllocated) : GroupRange start group s' := by
  rcases h with h | ⟨first, last, hfirst, hlast, hstart, hrange, halloc⟩
  · exact .inl h
  · exact .inr ⟨first, last, hfirst, hlast, hstart, hrange, halloc.trans hle⟩

/-- The range with one more member. -/
theorem GroupRange.recordMember (hstart : start.lastAllocated ≤ s.lastAllocated)
    (habove : s.lastAllocated < c.version) (hlast : s'.lastAllocated = c.version) :
    GroupRange start (group.recordMember c.stamp) s' ∧ InRange (group.recordMember c.stamp) c ∧
      ∀ a, InRange group a → InRange (group.recordMember c.stamp) a := by
  have hfirst : ∀ first ∈ group.firstVersion, start.lastAllocated < first ∧ first ≤ c.version :=
    fun first hf => ⟨(h.first_le first hf).1, (h.first_le first hf).2.trans habove.le⟩
  have hgetD : start.lastAllocated < group.firstVersion.getD c.version ∧
      group.firstVersion.getD c.version ≤ c.version := by
    cases hf : group.firstVersion with
    | none => exact ⟨hstart.trans_lt habove, le_rfl⟩
    | some first => exact hfirst first hf
  refine ⟨.inr ⟨_, _, rfl, rfl, hgetD.1, hgetD.2, hlast.ge⟩, ⟨_, _, rfl, rfl, hgetD.2, le_rfl⟩, ?_⟩
  rintro a ⟨first, last, hf, hl, hle, hge⟩
  refine ⟨first, c.stamp, ?_, rfl, hle, ?_⟩
  · show some (group.firstVersion.getD c.version) = some first
    rw [hf]
    rfl
  · rcases h with ⟨hnone, -⟩ | ⟨first', last', -, hl', -, -, halloc⟩
    · rw [hnone] at hf
      cases hf
    · rw [hl'] at hl
      cases hl
      exact (hge.trans halloc).trans habove.le

end

/-- The state of a group while its members run. -/
structure FormInv (init : BranchId → Option BranchLocalState) (start : DurableState) (f : Forming)
    (s : DurableState) : Prop where
  history : HistoryInv init (f.deferred.map (·.commit)) s
  extends_start : Extends start s
  frontier : s.pipelineFrontier = start.pipelineFrontier
  range : GroupRange start f.group s
  deferred : ∀ p ∈ f.deferred, p.commit ∈ s.commits ∧ InRange f.group p.commit ∧
    p.branchId ∉ f.eager ∧ (s.branches p.branchId).isSome
  branches : (f.deferred.map (·.branchId)).Nodup
  results : ∀ c, .ok c ∈ f.results → c ∈ s.commits ∧ InRange f.group c
  gate : ∀ fact ∈ s.unresolved, f.fatal = true ∧ start.lastAllocated < fact.firstCommitVersion ∧
    ∀ p ∈ f.deferred, fact.firstCommitVersion ≤ p.commit.version
  fatal : f.fatal = true → s.unresolved ≠ none

/-- The members of a group are logged at the group's frontier. -/
theorem logGroupMember_spec : Spec (· = s) (logGroupMember config group batch calls)
      (fun found t => Logs config .deferredToGroup calls batch (max s.visible group.frontier) s
        found.1 t) (Refuses config .deferredToGroup calls s) := .gets_at logCommit_spec

theorem executeGroupMember_spec (hgroup : ∀ first ∈ group.firstVersion, first ≤ s.lastAllocated) :
    Spec (· = s) (executeGroupMember config group batch calls)
      (fun found t => ∃ logged, Logs config .deferredToGroup calls batch
        (max s.visible group.frontier) s found.1 logged ∧ Applies found.1 logged t)
      (fun t => Refuses config .deferredToGroup calls s t ∨
        ∃ commit logged, Logs config .deferredToGroup calls batch (max s.visible group.frontier) s
          commit logged ∧ Blocks (group.firstVersion.getD commit.version) logged t) := by
  refine .bind (logGroupMember_spec.loosen fun t ht => .inl ht) fun found => .pointwise fun logged hlogs => ?_
  obtain ⟨commit, durability⟩ := found
  refine .bind ((applyLogged_spec fun first hfirst => (hgroup first hfirst).trans
    hlogs.allocated.le).loosen fun t ht => .inr ⟨commit, logged, hlogs, ht⟩)
    fun _ => .pure fun t ht => ⟨logged, hlogs, ht⟩

/-- The apply of a deferred member whose branch is in the catalog. -/
theorem applyDeferredBranch_spec {applied : Bool} (hpresent : (s.branches pending.branchId).isSome)
    (hgroup : ∀ first ∈ group.firstVersion, first ≤ pending.commit.version) :
    Spec (· = s) (applyDeferredBranch group pending applied) (fun _ => Applies pending.commit s)
      (Blocks (group.firstVersion.getD pending.commit.version) s) := by
  obtain ⟨branch, hbranch⟩ := Option.isSome_iff_exists.1 hpresent
  refine .bind (Q := fun _ t => t = s) (.gets_at ?_) fun _ => applyLogged_spec hgroup
  rw [hbranch]
  exact fun t ht => ht

namespace FormInv

variable {f : Forming} {error : CommitRuntimeError}
variable {deferred : List DeferredBranchApply} {pending : DeferredBranchApply} {log : DurableState}

theorem gate_open (h : FormInv init start f s) (hfatal : f.fatal = false) : s.unresolved = none := by
  cases hgate : s.unresolved with
  | none => rfl
  | some fact =>
    have := (h.gate fact hgate).1
    rw [hfatal] at this
    cases this

/-- No pending commit is of the branch. -/
theorem onBranch_eq_nil {branchId : BranchId} (hfree : ∀ p ∈ deferred, p.branchId ≠ branchId) :
    onBranch branchId (deferred.map (·.commit)) = [] ∧
      offBranch branchId (deferred.map (·.commit)) = deferred.map (·.commit) := by
  refine ⟨filter_eq_nil_iff.2 fun a ha => ?_, filter_eq_self.2 fun a ha => ?_⟩
  all_goals
    obtain ⟨p, hp, rfl⟩ := mem_map.1 ha
    simpa [DeferredBranchApply.branchId] using hfree p hp

section

variable (h : FormInv init start f s)
include h

theorem refused (hfatal : f.fatal = false) (hrefuses : Refuses config participation calls s s') :
    FormInv init start { f with
      fatal := s'.unresolved.isSome, results := f.results ++ [.error error] } s' := by
  have hcommits : s'.commits = s.commits := by rw [hrefuses.state]
  have hbranches : s'.branches = s.branches := by rw [hrefuses.state]
  have hfrontier : s'.pipelineFrontier = s.pipelineFrontier := by rw [hrefuses.state]
  have hopen : s'.unresolved = none := by rw [hrefuses.state]; exact h.gate_open hfatal
  exact
    { history := h.history.refuses hrefuses
      extends_start := h.extends_start.refuses hrefuses
      frontier := hfrontier.trans h.frontier
      range := h.range.mono hrefuses.allocated
      deferred := by rw [hcommits, hbranches]; exact h.deferred
      branches := h.branches
      results := fun c hc => by
        rw [hcommits]
        exact h.results c (by simpa using hc)
      gate := by rw [hopen]; simp
      fatal := by simp [hopen] }

theorem recorded (hlogs : Logs config participation calls batch current s c s') :
    GroupRange start (f.group.recordMember c.stamp) s' ∧ InRange (f.group.recordMember c.stamp) c ∧
      (∀ a, InRange f.group a → InRange (f.group.recordMember c.stamp) a) ∧
        ∀ a, .ok a ∈ f.results ++ [.ok c] → a ∈ s'.commits ∧ InRange (f.group.recordMember c.stamp) a := by
  obtain ⟨hrange, hself, hold⟩ := h.range.recordMember h.extends_start.allocated hlogs.allocated
    hlogs.lastAllocated
  refine ⟨hrange, hself, hold, fun a ha => ?_⟩
  rcases mem_append.1 ha with ha | ha
  · exact ⟨hlogs.mem_commits.2 (.inl (h.results a ha).1), hold a (h.results a ha).2⟩
  · obtain rfl : a = c := by simpa using ha
    exact ⟨hlogs.mem_commits.2 (.inr rfl), hself⟩

theorem logged (hfatal : f.fatal = false) (hlogs : Logs config participation calls batch current s c s')
    (hfree : ∀ p ∈ f.deferred, p.branchId ≠ c.branchId) (heager : c.branchId ∉ f.eager)
    (durability : CommitDurabilityClass) :
    FormInv init start { f with
      group := f.group.recordMember c.stamp
      deferred := f.deferred ++ [⟨c, durability⟩]
      results := f.results ++ [.ok c] } s' := by
  obtain ⟨hrange, hself, hold, hresults⟩ := h.recorded hlogs
  obtain ⟨branch, hbranch, -⟩ := hlogs.admitted.branch
  have hopen : s'.unresolved = none := hlogs.unresolved.trans (h.gate_open hfatal)
  exact
    { history := by
        rw [map_append]
        exact h.history.logs hlogs (onBranch_eq_nil hfree).1
      extends_start := h.extends_start.logs hlogs
      frontier := hlogs.pipelineFrontier.trans h.frontier
      range := hrange
      deferred := fun p hp => by
        rw [hlogs.branches]
        rcases mem_append.1 hp with hp | hp
        · obtain ⟨hcommit, hin, hrest⟩ := h.deferred p hp
          exact ⟨hlogs.mem_commits.2 (.inl hcommit), hold _ hin, hrest⟩
        · rw [mem_singleton.1 hp]
          refine ⟨hlogs.mem_commits.2 (.inr rfl), hself, heager, ?_⟩
          show (s.branches c.branchId).isSome
          rw [hlogs.branchId, hbranch]
          rfl
      branches := by
        rw [map_append, nodup_append]
        refine ⟨h.branches, nodup_singleton _, fun a ha b hb => ?_⟩
        obtain ⟨p, hp, rfl⟩ := mem_map.1 ha
        rw [mem_singleton.1 hb]
        exact hfree p hp
      results := hresults
      gate := by rw [hopen]; simp
      fatal := fun h => by rw [hfatal] at h; cases h }

/-- An eager member: its rows are applied at once. -/
theorem executed (hfatal : f.fatal = false) (hlogs : Logs config participation calls batch current s c log)
    (happlies : Applies c log s') (hfree : ∀ p ∈ f.deferred, p.branchId ≠ c.branchId) :
    FormInv init start { f with
      group := f.group.recordMember c.stamp, results := f.results ++ [.ok c] } s' := by
  obtain ⟨hrange, -, hold, hresults⟩ := h.recorded hlogs
  obtain ⟨hnone, hrest⟩ := onBranch_eq_nil hfree
  have hhistory := (h.history.logs hlogs hnone).applies (hlogs.mem_commits.2 (.inr rfl)) happlies (by
    rw [onBranch_append, hnone]
    simp [onBranch])
  have hextends := (h.extends_start.logs hlogs).applies happlies
  obtain ⟨_, branch', -, -, rfl⟩ := happlies
  have hopen : log.unresolved = none := hlogs.unresolved.trans (h.gate_open hfatal)
  exact
    { history := by
        have hoff : offBranch c.branchId (f.deferred.map (·.commit) ++ [c]) = f.deferred.map (·.commit) := by
          rw [offBranch, filter_append, ← offBranch, hrest]
          simp
        exact hoff ▸ hhistory
      extends_start := hextends
      frontier := hlogs.pipelineFrontier.trans h.frontier
      range := hrange
      deferred := fun p hp => by
        obtain ⟨hcommit, hin, hne, hpresent⟩ := h.deferred p hp
        refine ⟨hlogs.mem_commits.2 (.inl hcommit), hold _ hin, hne, ?_⟩
        show (update log.branches c.branchId (some branch') p.branchId).isSome
        rw [update_of_ne (hfree p hp), hlogs.branches]
        exact hpresent
      branches := h.branches
      results := hresults
      gate := fun fact hfact => by
        have : log.unresolved = some fact := hfact
        rw [hopen] at this
        cases this
      fatal := fun h => by rw [hfatal] at h; cases h }

end

/-- The fact that is recorded when an apply of the group fails. -/
theorem blocks_gate (hopen : s.unresolved = none) (hblocks : Blocks first s s') :
    ∃ fact, fact.firstCommitVersion = first ∧ s' = { s with unresolved := some fact } := by
  obtain ⟨fact, hfirst, rfl⟩ := hblocks
  exact ⟨fact, hfirst, by rw [hopen]; rfl⟩

/-- An eager member whose apply fails. -/
theorem blocked (h : FormInv init start f s) (hfatal : f.fatal = false)
    (hlogs : Logs config participation calls batch current s c log)
    (hblocks : Blocks (f.group.firstVersion.getD c.version) log s')
    (hfree : ∀ p ∈ f.deferred, p.branchId ≠ c.branchId) :
    FormInv init start { f with
      fatal := s'.unresolved.isSome, results := f.results ++ [.error error] } s' := by
  have hopen : log.unresolved = none := hlogs.unresolved.trans (h.gate_open hfatal)
  obtain ⟨hnone, hrest⟩ := onBranch_eq_nil hfree
  have hblocked := (h.history.logs hlogs hnone).blocks hblocks
  obtain ⟨fact, hfirst, rfl⟩ := blocks_gate hopen hblocks
  have hle : fact.firstCommitVersion ≤ c.version ∧ start.lastAllocated < fact.firstCommitVersion := by
    rw [hfirst]
    cases hf : f.group.firstVersion with
    | none => exact ⟨le_rfl, h.extends_start.allocated.trans_lt hlogs.allocated⟩
    | some first =>
      exact ⟨(h.range.first_le first hf).2.trans hlogs.allocated.le, (h.range.first_le first hf).1⟩
  exact
    { history := by
        refine hblocked.fails (fun a ha => ?_) nofun
        rcases mem_append.1 ha with ha | ha
        · exact .inl ha
        · rw [mem_singleton.1 ha]
          exact .inr ⟨fact, rfl, hle.1⟩
      extends_start := (h.extends_start.logs hlogs).blocks hblocks
      frontier := hlogs.pipelineFrontier.trans h.frontier
      range := h.range.mono (by
        show s.lastAllocated ≤ log.lastAllocated
        rw [hlogs.lastAllocated]
        exact hlogs.allocated.le)
      deferred := fun p hp => by
        obtain ⟨hcommit, hin, hne, hpresent⟩ := h.deferred p hp
        exact ⟨hlogs.mem_commits.2 (.inl hcommit), hin, hne, by rw [← hlogs.branches] at hpresent; exact hpresent⟩
      branches := h.branches
      results := fun a ha => by
        have hold := h.results a (by simpa using ha)
        exact ⟨hlogs.mem_commits.2 (.inl hold.1), hold.2⟩
      gate := by
        rintro _ ⟨rfl⟩
        refine ⟨rfl, hle.2, fun p hp => ?_⟩
        obtain ⟨-, ⟨first, last, hf, -, hin, -⟩, -⟩ := h.deferred p hp
        rw [hfirst, hf]
        exact hin
      fatal := nofun }

/-- The pending commit of a branch. -/
theorem onBranch_eq_singleton (hmem : pending ∈ deferred) (hnodup : (deferred.map (·.branchId)).Nodup) :
    onBranch pending.branchId (deferred.map (·.commit)) = [pending.commit] := by
  induction deferred with
  | nil => cases hmem
  | cons first rest ih =>
    obtain ⟨hfirst, hrest⟩ := nodup_cons.1 hnodup
    rw [map_cons, onBranch, filter_cons, ← onBranch]
    rcases mem_cons.1 hmem with rfl | hmem
    · have hnone : onBranch pending.branchId (rest.map (·.commit)) = [] :=
        (onBranch_eq_nil fun p hp heq => hfirst (mem_map.2 ⟨p, hp, heq⟩)).1
      rw [hnone]
      exact if_pos (decide_eq_true rfl)
    · have hne : first.commit.branchId ≠ pending.branchId :=
        fun heq => hfirst (mem_map.2 ⟨pending, hmem, heq.symm⟩)
      rw [if_neg (by simpa using hne)]
      exact ih hmem hrest

theorem map_commit_filter (deferred : List DeferredBranchApply) (branchId : BranchId) :
    (deferred.filter (·.branchId ≠ branchId)).map (·.commit) = offBranch branchId (deferred.map (·.commit)) := by
  rw [offBranch, filter_map]
  rfl

section

variable (h : FormInv init start f s)
include h

theorem flushed (hfatal : f.fatal = false) (hmem : pending ∈ f.deferred) (happlies : Applies pending.commit s s') :
    FormInv init start { f with
      deferred := f.deferred.filter (·.branchId ≠ pending.branchId)
      eager := pending.branchId :: f.eager } s' := by
  have hhistory := h.history.applies (h.deferred pending hmem).1 happlies (onBranch_eq_singleton hmem h.branches)
  have hextends := h.extends_start.applies happlies
  obtain ⟨_, branch', -, -, rfl⟩ := happlies
  exact
    { h with
      history := by
        rw [map_commit_filter]
        exact hhistory
      extends_start := hextends
      deferred := fun p hp => by
        obtain ⟨hp, hne⟩ : p ∈ f.deferred ∧ p.branchId ≠ pending.branchId := by simpa using hp
        obtain ⟨hcommit, hin, heager, hpresent⟩ := h.deferred p hp
        refine ⟨hcommit, hin, by simp [hne, heager], ?_⟩
        show (update s.branches pending.branchId (some branch') p.branchId).isSome
        rw [update_of_ne hne]
        exact hpresent
      branches := h.branches.sublist (filter_sublist.map _)
      gate := fun fact hfact => by
        have : s.unresolved = some fact := hfact
        rw [h.gate_open hfatal] at this
        cases this
      fatal := fun h => by rw [hfatal] at h; cases h }

theorem flush_blocked (hfatal : f.fatal = false) (hmem : pending ∈ f.deferred)
    (hblocks : Blocks (f.group.firstVersion.getD pending.commit.version) s s') :
    FormInv init start { f with
      deferred := f.deferred.filter (·.branchId ≠ pending.branchId), fatal := true
      results := f.results ++ [.error error] } s' := by
  have hextends := h.extends_start.blocks hblocks
  have hblocked := h.history.blocks hblocks
  obtain ⟨fact, hfirst, rfl⟩ := blocks_gate (h.gate_open hfatal) hblocks
  have hin : ∀ p ∈ f.deferred, fact.firstCommitVersion ≤ p.commit.version ∧
      start.lastAllocated < fact.firstCommitVersion := by
    intro p hp
    obtain ⟨-, ⟨first, last, hf, -, hin, -⟩, -⟩ := h.deferred p hp
    rw [hfirst, hf]
    exact ⟨hin, (h.range.first_le first hf).1⟩
  have hrest : ∀ p ∈ f.deferred.filter (·.branchId ≠ pending.branchId), p ∈ f.deferred :=
    fun p hp => mem_of_mem_filter hp
  exact
    { h with
      history := by
        refine hblocked.fails (fun a ha => ?_) nofun
        obtain ⟨p, hp, rfl⟩ := mem_map.1 ha
        exact .inr ⟨fact, rfl, (hin p hp).1⟩
      extends_start := hextends
      deferred := fun p hp => h.deferred p (hrest p hp)
      branches := h.branches.sublist (filter_sublist.map _)
      results := fun a ha => h.results a (by simpa using ha)
      gate := by
        rintro _ ⟨rfl⟩
        exact ⟨rfl, (hin pending hmem).2, fun p hp => (hin p (hrest p hp)).1⟩
      fatal := nofun }

/-- A member runs once no apply of its branch is pending. -/
theorem runMember (hfatal : f.fatal = false) {request : MemberRequest}
    (hfree : ∀ p ∈ f.deferred, p.branchId ≠ request.batch.branchId) :
    FormInv init start (Durable.runMember config f request s).1 (Durable.runMember config f request s).2 := by
  unfold Durable.runMember
  by_cases heager : request.batch.branchId ∈ f.eager
  · simp only [heager, not_true_eq_false, if_false]
    have hspec := (executeGroupMember_spec (fun first hf => (h.range.first_le first hf).2) :
      Spec _ (executeGroupMember config f.group request.batch request.calls) _ _) s rfl
    generalize executeGroupMember config f.group request.batch request.calls s = run at hspec
    obtain ⟨result, s'⟩ := run
    cases result with
    | ok found =>
      obtain ⟨log, hlogs, happlies⟩ := hspec
      exact h.executed hfatal hlogs happlies (hlogs.branchId ▸ hfree)
    | error error =>
      rcases hspec with hrefuses | ⟨commit, log, hlogs, hblocks⟩
      · exact h.refused hfatal hrefuses
      · exact h.blocked hfatal hlogs hblocks (hlogs.branchId ▸ hfree)
  · simp only [heager, not_false_eq_true, if_true]
    have hspec := (logGroupMember_spec :
      Spec _ (logGroupMember config f.group request.batch request.calls) _ _) s rfl
    generalize logGroupMember config f.group request.batch request.calls s = run at hspec
    obtain ⟨result, s'⟩ := run
    cases result with
    | ok found =>
      exact h.logged hfatal hspec (hspec.branchId ▸ hfree) (hspec.branchId ▸ heager) found.2
    | error error => exact h.refused hfatal hspec

/-- One round of the loop over the members. -/
theorem formMember (request : MemberRequest) : FormInv init start (Durable.formMember config (f, s) request).1
      (Durable.formMember config (f, s) request).2 := by
  unfold Durable.formMember
  dsimp only
  split_ifs with hfatal
  · exact { h with results := fun a ha => h.results a (by simpa using ha) }
  · rw [Bool.not_eq_true] at hfatal
    split
    · rename_i hfind
      refine h.runMember hfatal fun p hp => ?_
      simpa using find?_eq_none.1 hfind p hp
    · rename_i pending hfind
      have hmem := mem_of_find?_eq_some hfind
      have hbranch : pending.branchId = request.batch.branchId := by
        simpa using find?_some hfind
      obtain ⟨-, ⟨first, last, hf, -, hin, -⟩, -, hpresent⟩ := h.deferred pending hmem
      have hspec := (applyDeferredBranch_spec hpresent (fun v hv => by rw [hf] at hv; cases hv; exact hin) :
          Spec _ (applyDeferredBranch f.group pending request.flushed) _ _) s rfl
      rw [← hbranch]
      generalize applyDeferredBranch f.group pending request.flushed s = run at hspec
      obtain ⟨result, s'⟩ := run
      cases result with
      | ok _ =>
        refine (h.flushed hfatal hmem hspec).runMember hfatal fun p hp => ?_
        rw [← hbranch]
        simpa using (mem_filter.1 hp).2
      | error error => exact h.flush_blocked hfatal hmem hspec

/-- The loop over the members. -/
theorem formMembers (members : List MemberRequest) :
    FormInv init start (members.foldl (Durable.formMember config) (f, s)).1
      (members.foldl (Durable.formMember config) (f, s)).2 := by
  induction members generalizing f s with
  | nil => exact h
  | cons request members ih => exact ih (h.formMember request)

end

end FormInv

/-! ## The parallel applies -/

/-- The state of a group while its applies come back; `rest` are still out. Only the
branches and the gate change from `start` on. -/
structure ApplyInv (init : BranchId → Option BranchLocalState) (start : DurableState)
    (group : CommitGroupState) (rest : List DeferredBranchApply) (fatal : Bool)
    (s : DurableState) : Prop where
  history : HistoryInv init (rest.map (·.commit)) s
  state : s = { start with branches := s.branches, unresolved := s.unresolved }
  members : ∀ p ∈ rest, p.commit ∈ s.commits ∧ InRange group p.commit
  branches : (rest.map (·.branchId)).Nodup
  gate : ∀ fact ∈ s.unresolved, fatal = true ∧ group.firstVersion = some fact.firstCommitVersion

theorem ApplyInv.finishApply (h : ApplyInv init start group (pending :: rest) fatal s)
    (outcomes : BranchId → ApplyOutcome) :
    ApplyInv init start group rest (Durable.finishApply group outcomes (fatal, s) pending).1
      (Durable.finishApply group outcomes (fatal, s) pending).2 := by
  obtain ⟨hc, first, last, hfirst, hlast, hin, hle⟩ := h.members pending mem_cons_self
  obtain ⟨hnew, hnodup⟩ := nodup_cons.1 h.branches
  have hrest : ∀ p ∈ rest, p.commit ∈ s.commits ∧ InRange group p.commit :=
    fun p hp => h.members p (mem_cons_of_mem _ hp)
  have hoff : offBranch pending.branchId ((pending :: rest).map (·.commit)) = rest.map (·.commit) := by
    have hfree := FormInv.onBranch_eq_nil fun p hp heq => hnew (mem_map.2 ⟨p, hp, heq⟩)
    rw [map_cons, offBranch, filter_cons_of_neg (by simp [DeferredBranchApply.branchId])]
    exact hfree.2
  unfold Durable.finishApply
  split
  · exact
      { history := hoff ▸ h.history.loses pending.branchId
        state := by rw [h.state]; rfl
        members := hrest
        branches := hnodup
        gate := fun fact hfact => ⟨rfl, (h.gate fact hfact).2⟩ }
  · have hspec := (applyLogged_spec (fun v hv => by rw [hfirst] at hv; cases hv; exact hin) :
      Spec _ (applyLogged group pending.commit pending.durability
        (outcomes pending.branchId = .applied)) _ _) s rfl
    generalize applyLogged group pending.commit pending.durability
      (outcomes pending.branchId = .applied) s = run at hspec
    obtain ⟨result, s'⟩ := run
    cases result with
    | ok _ =>
      have hhistory := h.history.applies hc hspec (FormInv.onBranch_eq_singleton mem_cons_self h.branches)
      obtain ⟨_, _, -, -, rfl⟩ := hspec
      exact
        { history := hoff ▸ hhistory
          state := by rw [h.state]; rfl
          members := hrest
          branches := hnodup
          gate := h.gate }
    | error error =>
      have hblocked := h.history.blocks hspec
      obtain ⟨fact, hfact, rfl⟩ := hspec
      -- every fact the group records reaches down to its first version
      have hrecorded : group.firstVersion = some (s.unresolved.getD fact).firstCommitVersion := by
        cases hgate : s.unresolved with
        | none => rw [Option.getD_none, hfact, hfirst, Option.getD_some]
        | some found => exact (h.gate found hgate).2
      exact
        { history := by
            refine hblocked.fails (fun a ha => ?_) (by simp)
            obtain ⟨p, hp, rfl⟩ := mem_map.1 ha
            obtain ⟨-, low, -, hlow, -, hle, -⟩ := h.members p hp
            rw [hrecorded] at hlow
            cases hlow
            exact .inr ⟨_, rfl, hle⟩
          state := by rw [h.state]
          members := hrest
          branches := hnodup
          gate := by
            rintro _ ⟨rfl⟩
            exact ⟨rfl, hrecorded⟩ }

theorem ApplyInv.finishApplies (h : ApplyInv init start group rest fatal s) (outcomes : BranchId → ApplyOutcome) :
    ApplyInv init start group [] (rest.foldl (Durable.finishApply group outcomes) (fatal, s)).1
      (rest.foldl (Durable.finishApply group outcomes) (fatal, s)).2 := by
  induction rest generalizing fatal s with
  | nil => exact h
  | cons pending rest ih => exact ih (h.finishApply outcomes)

theorem ApplyInv.perm {rest' : List DeferredBranchApply}
    (h : ApplyInv init start group rest fatal s) (hperm : rest.Perm rest') :
    ApplyInv init start group rest' fatal s where
  history := h.history.perm (hperm.map _) (by
    rw [map_map]
    exact h.branches)
  state := h.state
  members := fun p hp => h.members p (hperm.symm.subset hp)
  branches := (hperm.map _).nodup_iff.1 h.branches
  gate := h.gate

/-! ## Phase 1 -/

/-- What a group is between its phases, whether its applies are back or not. -/
structure FlightInv (config : DurableConfig) (start : DurableState) (fl : DurableGroupInFlight)
    (s : DurableState) : Prop where
  range : GroupRange start fl.group s
  results : ∀ c, .ok c ∈ fl.results → c ∈ s.commits ∧ InRange fl.group c
  ticket : ∀ t ∈ fl.ticket, WalService.Captured t s.wal ∧ config.wal.durabilityPolicy = .always ∧ fl.fatal = false
  captured : config.wal.durabilityPolicy = .always → fl.fatal = false →
    fl.group.lastStamp ≠ none → fl.ticket ≠ none

/-- A group that is not fatal has its deferred applies to run. -/
theorem FormInv.applyInv (h : FormInv init start f s) (hfatal : f.fatal = false) :
    ApplyInv init s f.group f.deferred false s where
  history := h.history
  state := rfl
  members := fun p hp => ⟨(h.deferred p hp).1, (h.deferred p hp).2.1⟩
  branches := h.branches
  gate := fun fact hfact => by
    have := (h.gate fact hfact).1
    rw [hfatal] at this
    cases this

/-- What a fatal group has not applied is covered by its fact. -/
theorem FormInv.closed (h : FormInv init start f s) (hfatal : f.fatal = true) : HistoryInv init [] s := by
  refine h.history.fails (fun a ha => .inr ?_) (h.fatal hfatal)
  obtain ⟨p, hp, rfl⟩ := mem_map.1 ha
  cases hgate : s.unresolved with
  | none => exact absurd hgate (h.fatal hfatal)
  | some fact => exact ⟨fact, hgate, (h.gate fact hgate).2.2 p hp⟩

theorem Extends.wal (h : Extends start s) {wal : WalState}
    (hwal : s.wal.appendSeq ≤ wal.appendSeq ∧ s.wal.durableSeq ≤ wal.durableSeq)
    (frontier : CommitVersion) :
    Extends start { s with wal := wal, pipelineFrontier := frontier } :=
  { h with
    appendSeq := h.appendSeq.trans hwal.1
    durableSeq := h.durableSeq.trans hwal.2 }

/-- The failure of a capture or of a sync is recorded for the range of the group. -/
theorem blocks_recordGroupFailure {group : CommitGroupState} {reason : String}
    {last : CommitStamp} (hfirst : group.firstVersion = some first)
    (hlast : group.lastStamp = some last) (hle : first ≤ last.commitVersion) :
    Blocks first s (recordGroupFailure group reason s) := by
  unfold recordGroupFailure
  rw [hlast]
  have hblocks := blocks_recordWidened (s := s) group (.new last .notDurable .appliedNotVisible reason)
    fun v hv => by rw [hfirst] at hv; cases hv; exact hle
  rw [hfirst] at hblocks
  exact hblocks

/-- Only the log and the frontier move. -/
theorem ApplyInv.move (h : ApplyInv init s group rest fatal s) {wal : WalState}
    (hwal : WalGrows s.wal wal) {frontier : CommitVersion} (hfrontier : frontier ≤ s.lastAllocated) :
    ApplyInv init { s with wal := wal, pipelineFrontier := frontier } group rest fatal
      { s with wal := wal, pipelineFrontier := frontier } :=
  { h with
    history := h.history.move hwal le_rfl h.history.visible_le hfrontier
    state := rfl }

/-- A flight, and what is still to be applied. -/
structure CaptureInv (config : DurableConfig) (init : BranchId → Option BranchLocalState)
    (start : DurableState) (fl : DurableGroupInFlight) (s : DurableState) : Prop where
  flight : FlightInv config start fl s
  extends_start : Extends start s
  admitted : fl.admitted = true
  live : fl.fatal = false → ApplyInv init s fl.group fl.deferred false s
  dead : fl.fatal = true → HistoryInv init [] s ∧
    ∀ fact ∈ s.unresolved, start.lastAllocated < fact.firstCommitVersion

theorem captureTicket_spec (h : FormInv init start f s) (capture : FlushCalls) :
    CaptureInv config init start (captureTicket config f capture s).1 (captureTicket config f capture s).2 := by
  unfold captureTicket
  split
  · rename_i last hfatal hlast
    obtain ⟨first, hfirst, hstart, hle, halloc⟩ : ∃ first, f.group.firstVersion = some first ∧
        start.lastAllocated < first ∧ first ≤ last.commitVersion ∧ last.commitVersion ≤ s.lastAllocated := by
      rcases h.range with ⟨-, hnone⟩ | ⟨first, last', hfirst, hlast', hstart, hle, halloc⟩
      · rw [hnone] at hlast
        cases hlast
      · rw [hlast'] at hlast
        cases hlast
        exact ⟨first, hfirst, hstart, hle, halloc⟩
    have hfrontier : max s.pipelineFrontier last.commitVersion ≤ s.lastAllocated :=
      max_le h.history.frontier_le halloc
    have hadvance := (h.applyInv hfatal).move (.refl s.wal) hfrontier
    dsimp only
    split
    · rename_i halways
      have hspec := (WalService.keepsSync_logged.beginGroupSync capture :
        Spec _ (WalService.beginGroupSync config.wal capture) _ _) s.wal (.refl s.wal)
      generalize WalService.beginGroupSync config.wal capture s.wal = run at hspec
      obtain ⟨result, wal⟩ := run
      have hgrows : ∀ {seq : Nat}, WalService.Logged s.wal.frames s.wal.appendSeq seq wal →
          WalGrows s.wal wal := fun hlog => ⟨hlog.1 ▸ prefix_rfl, hlog.2.1.ge⟩
      cases result with
      | ok ticket =>
        obtain ⟨hlog, hcaptured⟩ := hspec
        have happly := (h.applyInv hfatal).move (hgrows hlog) hfrontier
        have hextends := h.extends_start.wal ⟨(hgrows hlog).2, hlog.2.2⟩
          (max s.pipelineFrontier last.commitVersion)
        exact
          { flight :=
              { h with
                ticket := by
                  rintro _ ⟨rfl⟩
                  exact ⟨hcaptured, halways, rfl⟩
                captured := fun _ _ _ => nofun }
            extends_start := hextends
            admitted := rfl
            live := fun _ => happly
            dead := nofun }
      | error error =>
        have happly := (h.applyInv hfatal).move (hgrows hspec) hfrontier
        have hblocks : Blocks first _ (recordGroupFailure f.group
            "write group sync capture failed to flush the WAL append buffer"
            { s with wal := wal, pipelineFrontier := max s.pipelineFrontier last.commitVersion }) :=
          blocks_recordGroupFailure hfirst hlast hle
        have hextends := (h.extends_start.wal ⟨(hgrows hspec).2, hspec.2.2⟩
          (max s.pipelineFrontier last.commitVersion)).blocks hblocks
        have hblocked := happly.history.blocks hblocks
        dsimp only
        generalize recordGroupFailure f.group _ _ = t at hblocks hextends hblocked ⊢
        obtain ⟨fact, hfact, rfl⟩ := hblocks
        have hopen : s.unresolved = none := h.gate_open hfatal
        simp only [hopen, Option.getD_none] at hblocked hextends ⊢
        exact
          { flight :=
              { h with
                ticket := nofun
                captured := nofun }
            extends_start := hextends
            admitted := rfl
            live := nofun
            dead := fun _ => by
              refine ⟨hblocked.fails (fun a ha => .inr ?_) nofun, ?_⟩
              · obtain ⟨p, hp, rfl⟩ := mem_map.1 ha
                obtain ⟨-, low, -, hlow, -, hin, -⟩ := happly.members p hp
                rw [hfirst] at hlow
                cases hlow
                exact ⟨fact, rfl, hfact ▸ hin⟩
              · rintro _ ⟨rfl⟩
                exact hfact ▸ hstart }
    · rename_i hstandard
      exact
        { flight :=
            { h with
              ticket := nofun
              captured := fun halways => absurd halways hstandard }
          extends_start := h.extends_start.wal ⟨le_rfl, le_rfl⟩ _
          admitted := rfl
          live := fun _ => hadvance
          dead := nofun }
  · rename_i hother
    exact
      { flight :=
          { h with
            ticket := nofun
            captured := fun _ hfatal hlast => by
              cases hstamp : f.group.lastStamp with
              | none => exact absurd hstamp hlast
              | some last => exact absurd hstamp (hother last hfatal) }
        extends_start := h.extends_start
        admitted := rfl
        live := fun hfatal => h.applyInv hfatal
        dead := fun hfatal => ⟨h.closed hfatal, fun fact hfact => (h.gate fact hfact).2.1⟩ }

/-- What phase 1 leaves. -/
structure LeadInv (config : DurableConfig) (init : BranchId → Option BranchLocalState)
    (start : DurableState) (fl : DurableGroupInFlight) (s : DurableState) : Prop where
  history : HistoryInv init [] s
  flight : FlightInv config start fl s
  extends_start : Extends start s
  deferred : fl.fatal = false → fl.deferred = []
  refused : fl.admitted = false → ∀ c, .ok c ∉ fl.results
  gate : ∀ fact ∈ s.unresolved, start.unresolved = some fact ∨ start.lastAllocated < fact.firstCommitVersion
  persists : ∀ fact ∈ start.unresolved, s.unresolved = some fact

/-- A group starts to form with nothing logged. -/
theorem FormInv.begins (h : HistoryInv init [] s) (hopen : s.unresolved = none) (frontier : CommitVersion) :
    FormInv init s ⟨.new frontier, false, [], [], []⟩ s where
  history := h
  extends_start := .refl s
  frontier := rfl
  range := .inl ⟨rfl, rfl⟩
  deferred := by simp
  branches := nodup_nil
  results := by simp
  gate := by rw [hopen]; simp
  fatal := nofun

/-- The flight of a group whose applies are all back. -/
theorem FlightInv.of_state (h : FlightInv config start fl s)
    (hs : s' = { s with branches := s'.branches, unresolved := s'.unresolved }) :
    FlightInv config start { fl with deferred := [] } s' := by
  rw [hs]
  exact { h with range := h.range.mono le_rfl }

theorem lead_spec (h : HistoryInv init [] s) (members : List MemberRequest) (capture : FlushCalls)
    (rank : BranchId → Nat) (outcomes : BranchId → ApplyOutcome) :
    LeadInv config init s (lead config members capture rank outcomes s).2.1
      (lead config members capture rank outcomes s).2.2 := by
  unfold lead groupBegin
  cases hgate : s.unresolved with
  | some fact =>
    -- nobody is admitted while a fact is unresolved
    have hnone : ∀ c, .ok c ∉ members.map fun _ =>
        (.error (.unresolvedDurableCommit fact.branchId fact.commitVersion) :
          Except CommitRuntimeError Commit) := by
      simp
    exact
      { history := h
        flight :=
          { range := .inl ⟨rfl, rfl⟩
            results := fun c hc => absurd hc (hnone c)
            ticket := nofun
            captured := fun _ _ hlast => absurd rfl hlast }
        extends_start := .refl s
        deferred := fun _ => rfl
        refused := fun _ => hnone
        gate := fun fact hfact => .inl hfact
        persists := fun fact hfact => hfact }
  | none =>
    have hform : FormInv init s (members.foldl (formMember config) _).1 _ :=
      (FormInv.begins h hgate s.pipelineVisibilityFloor).formMembers members
    dsimp only
    generalize members.foldl (formMember config) _ = formed at hform ⊢
    obtain ⟨f, t⟩ := formed
    have hcapture : CaptureInv config init s _ _ := captureTicket_spec hform capture
    dsimp only
    generalize captureTicket config f capture t = captured at hcapture ⊢
    obtain ⟨fl, t⟩ := captured
    unfold runGroupAppliesParallel
    dsimp only
    split_ifs with hfatal
    · obtain ⟨hhistory, hdead⟩ := hcapture.dead hfatal
      exact
        { hcapture with
          history := hhistory
          deferred := fun hlive => by rw [hfatal] at hlive; cases hlive
          refused := fun h => by rw [hcapture.admitted] at h; cases h
          gate := fun fact hfact => .inr (hdead fact hfact)
          persists := by rw [hgate]; nofun }
    · have happlies := ((hcapture.live (by simpa using hfatal)).perm
        (perm_insertionSort (fun a b => rank a.branchId ≤ rank b.branchId)
          fl.deferred).symm).finishApplies outcomes
      generalize foldl (finishApply fl.group outcomes) (false, t) _ = finished at happlies ⊢
      obtain ⟨fatal, u⟩ := finished
      have hflight := hcapture.flight.of_state happlies.state
      exact
        { history := happlies.history
          flight := hflight
          extends_start := by
            have hstate := happlies.state
            rw [hstate]
            exact { hcapture.extends_start with }
          deferred := fun _ => rfl
          refused := fun h => by rw [show fl.admitted = true from hcapture.admitted] at h; cases h
          gate := fun fact hfact => .inr (hflight.range.first_le _ (happlies.gate fact hfact).2).1
          persists := by rw [hgate]; nofun }

/-! ## Phase 2 -/

/-- How phase 2 changes the log of a group that it does not find fatal. -/
def Redeems (ticket : Option WalService.WalGroupSyncTicket) (sync : Option Bool) (wal wal' : WalState) : Prop :=
  (∃ t, ticket = some t ∧ sync = some true ∧ wal' = WalService.completeGroupSync t wal) ∨
    (∀ t ∈ ticket, sync ≠ some true ∧ (sync = some false → t.capturedSeq ≤ wal.durableSeq)) ∧
      ∃ lost, wal' = { wal with activeObjectLost := lost }

theorem redeem_spec : Spec (· = s) (redeem fl sync objectMissing)
      (fun _ t => ∃ wal, Redeems fl.ticket sync s.wal wal ∧ t = { s with wal := wal })
      (fun t => ∃ ticket lost, fl.ticket = some ticket ∧ sync = some false ∧
        s.wal.durableSeq < ticket.capturedSeq ∧ t = recordGroupFailure fl.group
          "write group covering fsync failed after members applied"
          { s with wal := { s.wal with activeObjectLost := lost } }) := by
  unfold redeem
  split
  · rename_i ticket hticket
    exact .modify fun t ht => ⟨_, .inl ⟨ticket, hticket, rfl, rfl⟩, by rw [ht]⟩
  · rename_i ticket hticket
    refine .bind (Q := fun _ t => ∃ lost,
      t = { s with wal := { s.wal with activeObjectLost := lost } }) ?_ fun _ =>
      .pointwise fun t ⟨lost, ht⟩ => ?_
    · exact .when (fun _ => .modify fun t ht => ⟨true, by rw [ht]⟩) fun _ t ht => ⟨s.wal.activeObjectLost, ht⟩
    subst ht
    refine .gets_at (.when (fun hlt => ?_) fun hle t ht => ?_)
    · exact .modify_at (.throw fun t ht => ⟨ticket, lost, hticket, rfl, hlt, ht⟩)
    · refine ⟨_, .inr ⟨fun t' ht' => ⟨nofun, fun _ => ?_⟩, lost, rfl⟩, ht⟩
      rw [hticket] at ht'
      cases ht'
      exact not_lt.1 hle
  · rename_i htrue hfalse
    refine .pure fun t ht => ⟨s.wal, .inr ⟨fun t' ht' => ⟨fun hsync => htrue t' ht' hsync,
      fun hsync => (hfalse t' ht' hsync).elim⟩, s.wal.activeObjectLost, rfl⟩, by rw [ht]⟩

/-- What phase 2 does to a group whose applies are back: it publishes the last
version of the group, or it goes fatal. -/
theorem settleGroup_spec (hdeferred : fl.deferred = []) {applied : BranchId → Bool} :
    Spec (· = s) (settleGroup fl sync objectMissing applied) (fun _ t => ∃ wal, Redeems fl.ticket sync s.wal wal ∧
        ((fl.group.lastStamp = none ∧ t = { s with wal := wal }) ∨ ∃ last, fl.group.lastStamp = some last ∧
            (∀ fact ∈ s.unresolved, last.commitVersion < fact.firstCommitVersion) ∧
            t = { s with wal := wal, visible := max s.visible last.commitVersion }))
      (fun t => (∃ wal, Redeems fl.ticket sync s.wal wal ∧ t = { s with wal := wal }) ∨
        ∃ ticket lost, fl.ticket = some ticket ∧ sync = some false ∧
          s.wal.durableSeq < ticket.capturedSeq ∧ t = recordGroupFailure fl.group
            "write group covering fsync failed after members applied"
            { s with wal := { s.wal with activeObjectLost := lost } }) := by
  unfold settleGroup
  rw [hdeferred]
  refine .bind (Q := fun _ t => t = s) (.pure fun t ht => ht) fun _ =>
    .bind (redeem_spec.loosen fun t ht => .inr ht) fun _ => .pointwise fun t ⟨wal, hwal, ht⟩ => ?_
  subst ht
  unfold publishCommitGroup
  split
  · rename_i hnone
    exact .pure fun t ht => ⟨wal, hwal, .inl ⟨hnone, ht⟩⟩
  · rename_i last hlast
    refine .gets_at (.check_bind (fun t ht => .inl ⟨wal, hwal, ht⟩) fun hgate =>
      .modify fun t ht => ⟨wal, hwal, .inr ⟨last, hlast, fun fact hfact => ?_, by rw [ht]⟩⟩)
    rw [hfact] at hgate
    simpa using hgate

end Durable

end Strata
