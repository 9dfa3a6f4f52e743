import StrataStorage.Lifecycle.Publication

/-!
# Reclaiming table objects

A sweep marks under the runtime lock and deletes off it, so an object must stay
unneeded from the mark until its sweep ends. An object is needed if the catalog has it
for a table of an active branch, or if a manifest lists it that is durable, under way,
or uncertain. Four sets pin objects against a mark: the tables in memory, the outputs
of builds, and for each branch the names of the manifest confirmed last and of the one
last under way. The pins hold what is needed as long as nothing takes names out of
them too early.

* `Pins.step`: the pins keep what is needed, over every guarded step;
* `guardedRun_unneeded`: in a run of guarded steps, nothing staged is needed;
* `Sample.needed_runs`: runs in which something is.
-/

namespace Strata

open List Function
open LifecycleDurableTableCatalog (objectForIdentity Grows)

namespace PublicationState

variable {s s' : PublicationState} {object : TableObject}

/-- What may need an object for a branch. -/
inductive NeededBy (s : PublicationState) (branchId : BranchId) (object : TableObject) : Prop
  | memory {branch : BranchLocalState} {table : BranchOwnedTable}
      (hbranch : s.branches branchId = some branch) (htable : table ∈ branch.tables)
      (hobject : s.catalog.objectForIdentity table.facts.identity = some object)
  | durable {manifest : TableManifest} (hdurable : s.durable branchId = some manifest)
      (hobject : object ∈ manifest.objectNames)
  | underWay {publish : PreparedPublish} (hpublish : s.publishes branchId = some publish)
      (hobject : object ∈ publish.manifest.objectNames)
  | uncertain {manifest : TableManifest} (huncertain : manifest ∈ s.uncertain branchId)
      (hobject : object ∈ manifest.objectNames)

/-- An object is needed for some branch. -/
def Needed (s : PublicationState) (object : TableObject) : Prop :=
  ∃ branchId, s.NeededBy branchId object

/-- An output that the catalog has no other object for. -/
def Agrees (s : PublicationState) (output : PublishedTable) : Prop :=
  ∀ entry ∈ s.catalog.entries output.identity, entry = output.entry

/-- The names of a manifest are among those of a frontier. -/
def NamesIn (manifest : TableManifest) (names : List TableObject) : Prop :=
  ∀ object ∈ manifest.objectNames, object ∈ names

/-- A step under which the pins stay right. -/
def Guarded (s : PublicationState) : PublicationEvent → Prop
  | .install _ _ _ outputs _ => ∀ output ∈ outputs, s.Agrees output
  -- The slice of a fork is not held against the staged names.
  | .fork _ slice _ _ => ∀ output ∈ slice, output.object ∉ s.stagedObjects ∧ s.Agrees output
  -- The names of a publication replace those of an earlier one that ended uncertain.
  | .beginPublish branchId => (s.publishes branchId).isNone →
    ∀ branch ∈ s.branches branchId, ∀ manifest ∈ s.uncertain branchId,
      NamesIn manifest (branch.tables.filterMap fun table => s.catalog.objectForIdentity table.facts.identity)
  -- A branch made again has a durable manifest that its frontier does not know.
  | .persist branchId (.uncertain _) =>
    ∀ manifest ∈ s.durable branchId, NamesIn manifest (s.catalog.confirmedFrontiers branchId)
  -- A publication under the lock registers no names, and its record drops those there.
  | .publishInline _ (.uncertain _) => False
  | .publishInline branchId .confirmed => (s.publishes branchId).isNone
  | .delete branchId true => (s.publishes branchId).isNone ∧ s.uncertain branchId = []
  | _ => True

instance (s : PublicationState) (event : PublicationEvent) : Decidable (s.Guarded event) := by
  delta Guarded Agrees NamesIn
  induction event using PublicationEvent.casesOn
  case persist outcome | publishInline outcome =>
    induction outcome using PersistOutcome.casesOn <;> infer_instance
  case delete tombstoned => induction tombstoned using Bool.casesOn <;> infer_instance
  all_goals infer_instance

/-- A run of guarded steps. -/
def guardedRun (s : PublicationState) (events : List PublicationEvent) : Option PublicationState :=
  events.foldlM (fun s event => if s.Guarded event then s.step event else none) s

/-- The pins of a branch hold what is needed for it. -/
structure BranchPins (s : PublicationState) (branchId : BranchId) : Prop where
  listed : branchId ∉ s.branchIds → s.branches branchId = none ∧ s.publishes branchId = none ∧
    s.manifests branchId = none ∧ s.catalog.confirmedFrontiers branchId = [] ∧
    s.catalog.pendingPublications branchId = []
  own : ∀ {branch}, s.branches branchId = some branch → branch.branchId = branchId
  /-- Reads serve the durable manifest, but for an uncertain one. -/
  served : s.uncertain branchId = [] → s.manifests branchId = s.durable branchId
  /-- The confirmed frontier stands in for a durable manifest that reads may not serve. -/
  confirmed : ∀ {manifest}, s.uncertain branchId ≠ [] → s.durable branchId = some manifest →
    NamesIn manifest (s.catalog.confirmedFrontiers branchId)
  settled : ∀ {manifest}, s.publishes branchId = some ⟨manifest, some .confirmed⟩ → s.uncertain branchId = []
  pendingUncertain : ∀ {manifest}, manifest ∈ s.uncertain branchId →
    NamesIn manifest (s.catalog.pendingPublications branchId)
  pendingPublish : ∀ {publish}, s.publishes branchId = some publish →
    NamesIn publish.manifest (s.catalog.pendingPublications branchId)

/-- The pins hold what is needed, and nothing staged is. -/
structure Pins (s : PublicationState) : Prop where
  each : ∀ branchId, s.BranchPins branchId
  unneeded : ∀ {object}, object ∈ s.stagedObjects → ¬s.Needed object

/-! ## Marks -/

section Mark

variable {branchId : BranchId}

theorem BranchPins.mem_branchIds (h : s.BranchPins branchId)
    (hsome : s.branches branchId ≠ none ∨ s.publishes branchId ≠ none) :
    branchId ∈ s.branchIds := by
  by_contra hnot
  obtain ⟨hbranch, hpublish, -⟩ := h.listed hnot
  exact hsome.elim (absurd hbranch) (absurd hpublish)

theorem BranchPins.mem_liveObjects_of_frontier (h : s.BranchPins branchId)
    (hobject : object ∈ s.catalog.confirmedFrontiers branchId ++
      s.catalog.pendingPublications branchId) : object ∈ s.liveObjects := by
  have hlisted : branchId ∈ s.branchIds := by
    by_contra hnot
    obtain ⟨-, -, -, hconfirmed, hpending⟩ := h.listed hnot
    rw [hconfirmed, hpending] at hobject
    cases hobject
  exact mem_append_right _ (mem_append_right _ (mem_flatMap.2 ⟨branchId, hlisted, hobject⟩))

/-- What is needed is live at a mark. -/
theorem BranchPins.mem_liveObjects (h : s.BranchPins branchId)
    (hneeded : s.NeededBy branchId object) : object ∈ s.liveObjects := by
  cases hneeded with
  | @memory branch table hbranch htable hobject =>
    have hlisted := h.mem_branchIds (.inl (by rw [hbranch]; simp))
    refine mem_append_right _ (mem_append_left _ (mem_append_left _ (mem_flatMap.2 ⟨branchId, hlisted, ?_⟩)))
    rw [hbranch]
    exact mem_filterMap.2 ⟨table, htable, hobject⟩
  | @durable manifest hdurable hobject =>
    by_cases huncertain : s.uncertain branchId = []
    · have hserved := (h.served huncertain).trans hdurable
      have hlisted : branchId ∈ s.branchIds := by
        by_contra hnot
        cases (h.listed hnot).2.2.1.symm.trans hserved
      refine mem_append_left _ (mem_flatMap.2 ⟨branchId, hlisted, ?_⟩)
      rwa [hserved]
    · exact h.mem_liveObjects_of_frontier (mem_append_left _ (h.confirmed huncertain hdurable object hobject))
  | underWay hpublish hobject =>
    exact h.mem_liveObjects_of_frontier (mem_append_right _ (h.pendingPublish hpublish object hobject))
  | uncertain huncertain hobject =>
    exact h.mem_liveObjects_of_frontier (mem_append_right _ (h.pendingUncertain huncertain object hobject))

theorem Pins.not_needed_of_candidate (h : Pins s) (hcandidate : object ∈ s.quarantineCandidates) :
    ¬s.Needed object := by
  rintro ⟨branchId, hneeded⟩
  unfold quarantineCandidates at hcandidate
  split at hcandidate
  · exact (of_decide_eq_true (mem_filter.1 hcandidate).2).1 ((h.each branchId).mem_liveObjects hneeded)
  · cases hcandidate

end Mark

/-! ## Branches a step does not touch -/

/-- A step left everything of a branch but the objects of its tables. -/
structure SameAt (s s' : PublicationState) (branchId : BranchId) : Prop where
  listed : branchId ∈ s.branchIds → branchId ∈ s'.branchIds
  branches : s'.branches branchId = s.branches branchId
  publishes : s'.publishes branchId = s.publishes branchId
  manifests : s'.manifests branchId = s.manifests branchId
  durable : s'.durable branchId = s.durable branchId
  uncertain : s'.uncertain branchId = s.uncertain branchId
  confirmed : s'.catalog.confirmedFrontiers branchId = s.catalog.confirmedFrontiers branchId
  pending : s'.catalog.pendingPublications branchId = s.catalog.pendingPublications branchId

section SameAt

variable {branchId : BranchId}

theorem BranchPins.same (h : s.BranchPins branchId) (hsame : SameAt s s' branchId) : s'.BranchPins branchId where
  listed hnot := by
    rw [hsame.branches, hsame.publishes, hsame.manifests, hsame.confirmed, hsame.pending]
    exact h.listed (mt hsame.listed hnot)
  own := by
    rw [hsame.branches]
    exact h.own
  served := by
    rw [hsame.uncertain, hsame.manifests, hsame.durable]
    exact h.served
  confirmed := by
    rw [hsame.uncertain, hsame.durable, hsame.confirmed]
    exact h.confirmed
  settled := by
    rw [hsame.publishes, hsame.uncertain]
    exact h.settled
  pendingUncertain := by
    rw [hsame.uncertain, hsame.pending]
    exact h.pendingUncertain
  pendingPublish := by
    rw [hsame.publishes, hsame.pending]
    exact h.pendingPublish

theorem NeededBy.of_sameAt (hneeded : s'.NeededBy branchId object)
    (hsame : SameAt s s' branchId) (hentries : s'.catalog.entries = s.catalog.entries) :
    s.NeededBy branchId object := by
  cases hneeded with
  | memory hbranch htable hobject =>
    rw [objectForIdentity, hentries] at hobject
    exact .memory (hsame.branches ▸ hbranch) htable hobject
  | durable h hobject => exact .durable (hsame.durable ▸ h) hobject
  | underWay h hobject => exact .underWay (hsame.publishes ▸ h) hobject
  | uncertain h hobject => exact .uncertain (hsame.uncertain ▸ h) hobject

/-- A step that touches one branch, and records and stages nothing. -/
theorem Pins.touch (h : Pins s) (hsame : ∀ {other}, other ≠ branchId → SameAt s s' other)
    (hentries : s'.catalog.entries = s.catalog.entries)
    (hstaged : s'.sweepStagedNames = s.sweepStagedNames) (hown : s'.BranchPins branchId)
    (hneeded : ∀ {object}, s'.NeededBy branchId object → s.Needed object) : Pins s' where
  each other := by
    by_cases heq : other = branchId
    · exact heq ▸ hown
    · exact (h.each other).same (hsame heq)
  unneeded {object} hobject := by
    rintro ⟨other, hother⟩
    rw [stagedObjects, hstaged] at hobject
    refine h.unneeded hobject ?_
    by_cases heq : other = branchId
    · exact hneeded (heq ▸ hother)
    · exact ⟨other, hother.of_sameAt (hsame heq) hentries⟩

/-- A step that touches no branch. -/
theorem Pins.same (h : Pins s) (hsame : ∀ other, SameAt s s' other)
    (hentries : s'.catalog.entries = s.catalog.entries)
    (hstaged : ∀ object ∈ s'.stagedObjects, ¬s.Needed object) : Pins s' where
  each other := (h.each other).same (hsame other)
  unneeded {object} hobject := fun ⟨other, hother⟩ =>
    hstaged object hobject ⟨other, hother.of_sameAt (hsame other) hentries⟩

end SameAt

/-! ## Installs and forks -/

section Records

variable {outputs : List PublishedTable} {catalog : LifecycleDurableTableCatalog}
  {branch before : BranchLocalState} {branchId : BranchId}

/-- The object of a table whose facts come from memory or from outputs is not staged. -/
theorem Pins.not_staged_of_grows (h : Pins s)
    (hgrows : Grows (outputs.map (·.entry)) s.catalog catalog)
    (hnot : ∀ output ∈ outputs, output.object ∉ s.stagedObjects)
    (hagrees : ∀ output ∈ outputs, s.Agrees output) {facts : TableRuntimeFacts}
    (hsource : (∃ branchId branch, s.branches branchId = some branch ∧ facts ∈ branch.tables.map (·.facts)) ∨
      facts ∈ outputs.map (·.table.facts) ∨ s.catalog.entries facts.identity = none)
    (hobject : catalog.objectForIdentity facts.identity = some object) :
    object ∉ s.stagedObjects := by
  obtain ⟨entry, hentry, rfl⟩ := Option.map_eq_some_iff.1 hobject
  rcases hgrows.added hentry with hold | ⟨-, -, hmem⟩
  · rcases hsource with ⟨branchId, branch, hbranch, hfacts⟩ | hfacts | hnone
    · obtain ⟨table, htable, rfl⟩ := mem_map.1 hfacts
      intro hstaged
      exact h.unneeded hstaged ⟨branchId, .memory hbranch htable (Option.map_eq_some_iff.2 ⟨entry, hold, rfl⟩)⟩
    · obtain ⟨output, hmem, rfl⟩ := mem_map.1 hfacts
      rw [hagrees output hmem entry hold]
      exact hnot output hmem
    · cases hnone.symm.trans hold
  · obtain ⟨output, houtput, rfl⟩ := mem_map.1 hmem
    exact hnot output houtput

/-- A step that records outputs and gives a branch its tables. -/
theorem Pins.record (h : Pins s)
    (hgrows : Grows (outputs.map (·.entry)) s.catalog s'.catalog)
    (hnot : ∀ output ∈ outputs, output.object ∉ s.stagedObjects)
    (hagrees : ∀ output ∈ outputs, s.Agrees output)
    (hsame : ∀ {other}, other ≠ branchId → SameAt s s' other)
    (hstaged : s'.sweepStagedNames = s.sweepStagedNames) (hown : s'.BranchPins branchId)
    (hbranch : s'.branches branchId = some branch)
    (htables : ∀ table ∈ branch.tables, (∃ other before, s.branches other = some before ∧
        table.facts ∈ before.tables.map (·.facts)) ∨
      table.facts ∈ outputs.map (·.table.facts) ∨ s.catalog.entries table.facts.identity = none)
    (hdurable : ∀ {manifest}, s'.durable branchId = some manifest → s.durable branchId = some manifest)
    (hpublishes : s'.publishes branchId = s.publishes branchId)
    (huncertain : s'.uncertain branchId = s.uncertain branchId) : Pins s' where
  each other := by
    by_cases heq : other = branchId
    · exact heq ▸ hown
    · exact (h.each other).same (hsame heq)
  unneeded {object} hobject := by
    rintro ⟨other, hother⟩
    rw [stagedObjects, hstaged] at hobject
    by_cases heq : other = branchId
    · subst heq
      cases hother with
      | memory hbranch' htable hknown =>
        cases hbranch.symm.trans hbranch'
        exact h.not_staged_of_grows hgrows hnot hagrees (htables _ htable) hknown hobject
      | durable hd hlisted => exact h.unneeded hobject ⟨other, .durable (hdurable hd) hlisted⟩
      | underWay hp hlisted => exact h.unneeded hobject ⟨other, .underWay (hpublishes ▸ hp) hlisted⟩
      | uncertain hu hlisted =>
        exact h.unneeded hobject ⟨other, .uncertain (huncertain ▸ hu) hlisted⟩
    · have hat := hsame heq
      cases hother with
      | @memory branch' table hbranch' htable hknown =>
        refine h.not_staged_of_grows hgrows hnot hagrees (.inl ⟨other, branch', ?_, ?_⟩) hknown hobject
        · exact hat.branches ▸ hbranch'
        · exact mem_map_of_mem htable
      | durable hd hlisted => exact h.unneeded hobject ⟨other, .durable (hat.durable ▸ hd) hlisted⟩
      | underWay hp hlisted =>
        exact h.unneeded hobject ⟨other, .underWay (hat.publishes ▸ hp) hlisted⟩
      | uncertain hu hlisted =>
        exact h.unneeded hobject ⟨other, .uncertain (hat.uncertain ▸ hu) hlisted⟩

theorem facts_mem_of_tablesFrom (hfrom : TablesFrom outputs before branch)
    {table : BranchOwnedTable} (htable : table ∈ branch.tables) :
    table.facts ∈ before.tables.map (·.facts) ∨ table.facts ∈ outputs.map (·.table.facts) := by
  rw [BranchLocalState.tables, map_append, mem_append]
  rcases mem_append.1 htable with howned | hinherited
  · exact (hfrom.2.1 table howned).imp_left .inl
  · exact .inl (.inr (hfrom.2.2 table hinherited))

theorem Pins.installed (h : Pins s) {build : Nat} (hbefore : s.branches branchId = some before)
    (hfrom : TablesFrom outputs before branch) (hnot : ∀ output ∈ outputs, output.object ∉ s.stagedObjects)
    (hgrows : Grows (outputs.map (·.entry)) s.catalog catalog)
    (hagrees : ∀ output ∈ outputs, s.Agrees output) :
    Pins (((s.setCatalog catalog).setBranch branchId (some branch)).release build) := by
  have hlisted := (h.each branchId).mem_branchIds (.inl (by rw [hbefore]; simp))
  have hown := h.each branchId
  refine h.record hgrows hnot hagrees (fun hne => ⟨id, update_of_ne hne _ _, rfl, rfl, rfl,
    rfl, congrFun hgrows.confirmed_eq _, congrFun hgrows.pending_eq _⟩) rfl ?_
    (update_self ..) (fun table htable => ?_) id rfl rfl
  · refine ⟨fun hother => absurd hlisted hother, fun hbranch => ?_, hown.served, ?_, hown.settled, ?_, ?_⟩
    · cases (update_self ..).symm.trans hbranch
      exact hfrom.1.trans (hown.own hbefore)
    · show ∀ {manifest}, _ → _ → NamesIn manifest (catalog.confirmedFrontiers branchId)
      rw [hgrows.confirmed_eq]
      exact hown.confirmed
    · show ∀ {manifest}, _ → NamesIn manifest (catalog.pendingPublications branchId)
      rw [hgrows.pending_eq]
      exact hown.pendingUncertain
    · show ∀ {publish : PreparedPublish}, _ → NamesIn publish.manifest (catalog.pendingPublications branchId)
      rw [hgrows.pending_eq]
      exact hown.pendingPublish
  · rcases facts_mem_of_tablesFrom hfrom htable with hold | hnew
    · exact .inl ⟨branchId, before, hbefore, hold⟩
    · exact .inr (.inl hnew)

/-- A fork adds a branch whose tables come from its source, its slice, or no object. -/
theorem Pins.forked (h : Pins s) {source : BranchId} {parent child : BranchLocalState}
    {slice : Option PublishedTable} (removed : Bool) (hparent : s.branches source = some parent)
    (hfrom : s.ForksFrom parent slice child)
    (hguard : ∀ output ∈ slice, output.object ∉ s.stagedObjects ∧ s.Agrees output) :
    Pins (s.fork slice child removed) := by
  have hgrows : Grows (slice.toList.map (·.entry)) s.catalog
      (s.fork slice child removed).catalog := by
    rw [fork_catalog]
    exact recordOutputs_grows _ _
  have hslice : ∀ output ∈ slice.toList, output.object ∉ s.stagedObjects ∧ s.Agrees output :=
    fun output hmem => hguard output (Option.mem_toList.1 hmem)
  have hown := h.each child.branchId
  -- The manifest of the child stays, or it goes for reads and for good.
  have hmanifest : (s.fork slice child removed).manifests child.branchId = s.manifests child.branchId ∧
      (s.fork slice child removed).durable child.branchId = s.durable child.branchId ∨
      (s.fork slice child removed).manifests child.branchId = none ∧
      (s.fork slice child removed).durable child.branchId = none := by
    rcases s.fork_manifests slice child removed with ⟨hm, hd⟩ | ⟨hm, hd⟩
    · exact .inl ⟨congrFun hm _, congrFun hd _⟩
    · rw [hm, hd, update_self, update_self]
      exact .inr ⟨rfl, rfl⟩
  have hdurable : ∀ {manifest}, (s.fork slice child removed).durable child.branchId =
      some manifest → s.durable child.branchId = some manifest := by
    intro manifest hsome
    rcases hmanifest with ⟨-, hd⟩ | ⟨-, hd⟩
    · exact hd ▸ hsome
    · cases hd.symm.trans hsome
  refine h.record hgrows (fun output hmem => (hslice output hmem).1)
    (fun output hmem => (hslice output hmem).2) (fun {other} hne => ?_)
    (fork_sweepStagedNames ..) ?_ (by rw [fork_branches, update_self])
    (fun table htable => ?_) hdurable (by rw [fork_publishes]) (by rw [fork_uncertain])
  · refine ⟨fun hlisted => ?_, ?_, ?_, ?_, fork_durable_of_ne _ _ _ _ hne, ?_,
      congrFun hgrows.confirmed_eq _, congrFun hgrows.pending_eq _⟩
    · rw [fork_branchIds]
      exact mem_cons_of_mem _ hlisted
    · rw [fork_branches, update_of_ne hne]
    · rw [fork_publishes]
    · rcases s.fork_manifests slice child removed with ⟨hm, -⟩ | ⟨hm, -⟩
      · rw [hm]
      · rw [hm, update_of_ne hne]
    · rw [fork_uncertain]
  · refine ⟨fun hother => ?_, fun hbranch => ?_, fun huncertain => ?_, fun huncertain hsome => ?_, ?_, ?_, ?_⟩
    · rw [fork_branchIds] at hother
      exact absurd mem_cons_self hother
    · rw [fork_branches, update_self] at hbranch
      cases hbranch
      rfl
    · rw [fork_uncertain] at huncertain
      rcases hmanifest with ⟨hm, hd⟩ | ⟨hm, hd⟩
      · rw [hm, hd, hown.served huncertain]
      · rw [hm, hd]
    · rw [fork_uncertain] at huncertain
      rw [hgrows.confirmed_eq]
      exact hown.confirmed huncertain (hdurable hsome)
    · rw [fork_publishes, fork_uncertain]
      exact hown.settled
    · rw [fork_uncertain, hgrows.pending_eq]
      exact hown.pendingUncertain
    · rw [fork_publishes, hgrows.pending_eq]
      exact hown.pendingPublish
  · rcases mem_append.1 htable with howned | hinherited
    · exact .inr (hfrom.1 table howned)
    · exact .inl ⟨source, parent, hparent, hfrom.2 table hinherited⟩

end Records

/-! ## Branches come and go -/

section Branches

variable {branchId : BranchId}

/-- Without tables in memory, a branch needs what its manifests name. -/
theorem NeededBy.of_noTables (hneeded : s'.NeededBy branchId object)
    (hnone : ∀ branch, s'.branches branchId = some branch → branch.tables = [])
    (hdurable : s'.durable = s.durable) (hpublishes : s'.publishes = s.publishes)
    (huncertain : s'.uncertain = s.uncertain) : s.NeededBy branchId object := by
  cases hneeded with
  | memory hbranch htable hobject =>
    rw [hnone _ hbranch] at htable
    cases htable
  | durable h hobject => exact .durable (hdurable ▸ h) hobject
  | underWay h hobject => exact .underWay (hpublishes ▸ h) hobject
  | uncertain h hobject => exact .uncertain (huncertain ▸ h) hobject

theorem Pins.created (h : Pins s) (branchId : BranchId) (config : BranchRuntimeConfig) :
    Pins (s.addBranch (.new branchId config)) := by
  have hown := h.each branchId
  refine h.touch (fun hne => ⟨mem_cons_of_mem _, update_of_ne hne _ _, rfl, rfl, rfl,
    rfl, rfl, rfl⟩) rfl rfl ⟨fun hnot => absurd mem_cons_self hnot, fun hbranch => ?_,
    hown.served, hown.confirmed, hown.settled, hown.pendingUncertain, hown.pendingPublish⟩
    fun hneeded => ⟨branchId, hneeded.of_noTables (fun branch hbranch => ?_) rfl rfl rfl⟩
  · cases (update_self ..).symm.trans hbranch
    rfl
  · cases (update_self ..).symm.trans hbranch
    rfl

/-- A branch goes, and its frontier stays. -/
theorem Pins.dropped (h : Pins s) (branchId : BranchId) : Pins (s.setBranch branchId none) := by
  have hown := h.each branchId
  refine h.touch (fun hne => ⟨id, update_of_ne hne _ _, rfl, rfl, rfl, rfl, rfl, rfl⟩)
    rfl rfl ⟨fun hnot => ⟨update_self .., (hown.listed hnot).2⟩, fun hbranch => ?_,
    hown.served, hown.confirmed, hown.settled, hown.pendingUncertain, hown.pendingPublish⟩
    fun hneeded => ⟨branchId, hneeded.of_noTables (fun branch hbranch => ?_) rfl rfl rfl⟩
  · cases (update_self ..).symm.trans hbranch
  · cases (update_self ..).symm.trans hbranch

/-- The frontier of a branch with nothing under way and nothing uncertain may change. -/
theorem Pins.setFrontier (h : Pins s) {catalog : LifecycleDurableTableCatalog}
    (hlisted : branchId ∈ s.branchIds) (hentries : catalog.entries = s.catalog.entries)
    (hconfirmed : ∀ {other}, other ≠ branchId →
      catalog.confirmedFrontiers other = s.catalog.confirmedFrontiers other)
    (hpending : ∀ {other}, other ≠ branchId →
      catalog.pendingPublications other = s.catalog.pendingPublications other)
    (hfree : s.publishes branchId = none) (hcertain : s.uncertain branchId = []) :
    Pins (s.setCatalog catalog) := by
  refine h.touch (fun hne => ⟨id, rfl, rfl, rfl, rfl, rfl, hconfirmed hne, hpending hne⟩) hentries
    rfl ⟨fun hnot => absurd hlisted hnot, (h.each branchId).own, (h.each branchId).served,
    fun huncertain => absurd hcertain huncertain, (h.each branchId).settled, fun hmem => ?_,
    fun hpublish => ?_⟩ fun {object} hneeded => ⟨branchId, ?_⟩
  · cases (hcertain ▸ hmem : _ ∈ [])
  · cases hfree.symm.trans hpublish
  · cases hneeded with
    | memory hbranch htable hobject =>
      rw [objectForIdentity,
        show (s.setCatalog catalog).catalog.entries = _ from hentries] at hobject
      exact .memory hbranch htable hobject
    | durable hdurable hobject => exact .durable hdurable hobject
    | underWay hpublish hobject => exact .underWay hpublish hobject
    | uncertain huncertain hobject => exact .uncertain huncertain hobject

theorem Pins.deleted (h : Pins s) {branch : BranchLocalState} (tombstoned : Bool)
    (hbranch : s.branches branchId = some branch)
    (hguard : s.Guarded (.delete branchId tombstoned)) : Pins (s.delete branchId tombstoned) := by
  cases tombstoned with
  | false => exact h.dropped branchId
  | true =>
    have hcleared : Pins (s.setCatalog (s.catalog.clearBranchFrontier branchId)) :=
      h.setFrontier ((h.each branchId).mem_branchIds (.inl (by rw [hbranch]; simp))) rfl
        (fun hne => update_of_ne hne _ _) (fun hne => update_of_ne hne _ _)
        (Option.isNone_iff_eq_none.1 hguard.1) hguard.2
    exact hcleared.dropped branchId

end Branches

/-! ## Publications -/

section Publications

variable {branchId : BranchId} {manifest : TableManifest} {sequence : Nat} {branch : BranchLocalState}
  {catalog : LifecycleDurableTableCatalog}

/-- The slot of a branch is freed. -/
theorem Pins.freed (h : Pins s) (branchId : BranchId) : Pins (s.setPublish branchId none) := by
  have hown := h.each branchId
  have hset : (s.setPublish branchId none).publishes branchId = none := update_self ..
  refine h.touch (fun hne => ⟨id, rfl, update_of_ne hne _ _, rfl, rfl, rfl, rfl, rfl⟩)
    rfl rfl ⟨fun hnot => ⟨(hown.listed hnot).1, hset, (hown.listed hnot).2.2⟩, hown.own, hown.served,
    hown.confirmed, fun hpublish => ?_, hown.pendingUncertain, fun hpublish => ?_⟩
    fun {object} hneeded => ⟨branchId, ?_⟩
  · cases hset.symm.trans hpublish
  · cases hset.symm.trans hpublish
  · cases hneeded with
    | memory hbranch htable hobject => exact .memory hbranch htable hobject
    | durable hdurable hobject => exact .durable hdurable hobject
    | underWay hpublish hobject => cases hset.symm.trans hpublish
    | uncertain huncertain hobject => exact .uncertain huncertain hobject

/-- The frontier moves on to a manifest that is durable, and its slot is freed. -/
theorem Pins.confirmedPublish (h : Pins s) (names : List TableObject)
    (hpublish : s.publishes branchId = some ⟨manifest, some .confirmed⟩) :
    Pins ((s.setCatalog (s.catalog.confirmReservedManifestPublished branchId names)).setPublish
      branchId none) := by
  have hlisted := (h.each branchId).mem_branchIds (.inr (by rw [hpublish]; simp))
  have hmoved : Pins ((s.setPublish branchId none).setCatalog
      (s.catalog.confirmReservedManifestPublished branchId names)) :=
    (h.freed branchId).setFrontier hlisted rfl (fun hne => update_of_ne hne _ _)
      (fun hne => update_of_ne hne _ _) (update_self ..) ((h.each branchId).settled hpublish)
  exact hmoved

/-- A manifest lists objects of tables in memory. -/
theorem needed_of_build (hbranch : s.branches branchId = some branch)
    (hentries : catalog.entries = s.catalog.entries)
    (hbuild : catalog.buildManifestWithSequence branch sequence = .ok manifest)
    (hobject : object ∈ manifest.objectNames) : s.Needed object := by
  obtain ⟨ref, href, rfl⟩ := mem_map.1 hobject
  obtain ⟨table, htable, -, hlisted⟩ := LifecycleDurableTableCatalog.exists_table_of_build hbuild href
  rw [objectForIdentity, hentries] at hlisted
  exact ⟨branchId, .memory hbranch htable hlisted⟩

/-- A manifest lists the object of every table in memory. -/
theorem mem_objectNames_of_build (hbuild : catalog.buildManifestWithSequence branch sequence = .ok manifest)
    (hobject : object ∈ branch.tables.filterMap fun table =>
      catalog.objectForIdentity table.facts.identity) : object ∈ manifest.objectNames := by
  obtain ⟨table, htable, hknown⟩ := mem_filterMap.1 hobject
  obtain ⟨ref, href, -, hlisted⟩ := LifecycleDurableTableCatalog.exists_ref_of_build hbuild htable
  exact mem_map.2 ⟨ref, href, Option.some.inj (hlisted.symm.trans hknown)⟩

section

variable (h : Pins s)
include h

theorem Pins.begun {next : Nat} (hbranch : s.branches branchId = some branch) (hfree : s.publishes branchId = none)
    (hbuild : (s.catalog.setSequence next).buildManifestWithSequence branch sequence = .ok manifest)
    (hguard : s.Guarded (.beginPublish branchId)) :
    Pins ((s.setCatalog ((s.catalog.setSequence next).recordPendingPublication branchId
      manifest.objectNames)).setPublish branchId (some ⟨manifest, none⟩)) := by
  have hown := h.each branchId
  have hlisted := hown.mem_branchIds (.inl (by rw [hbranch]; simp))
  have hset : update s.publishes branchId (some ⟨manifest, none⟩) branchId =
    some ⟨manifest, none⟩ := update_self ..
  have hpending : ∀ {object}, object ∈ manifest.objectNames → object ∈ update
      s.catalog.pendingPublications branchId manifest.objectNames branchId := by
    intro object hobject
    rwa [update_self]
  refine h.touch (fun hne => ⟨id, rfl, update_of_ne hne _ _, rfl, rfl, rfl, rfl,
    update_of_ne hne _ _⟩) rfl rfl ⟨fun hnot => absurd hlisted hnot, hown.own, hown.served, hown.confirmed,
    fun hpublish => ?_,
    fun {uncertain} hmem object hobject => ?_, fun {publish} hpublish object hobject => ?_⟩
    fun {object} hneeded => ?_
  · cases hset.symm.trans hpublish
  · refine hpending (mem_objectNames_of_build hbuild ?_)
    exact hguard (Option.isNone_iff_eq_none.2 hfree) branch hbranch uncertain hmem object hobject
  · cases hset.symm.trans hpublish
    exact hpending hobject
  · cases hneeded with
    | memory hbranch' htable hobject => exact ⟨branchId, .memory hbranch' htable hobject⟩
    | durable hdurable hobject => exact ⟨branchId, .durable hdurable hobject⟩
    | underWay hpublish hobject =>
      cases hset.symm.trans hpublish
      have hentries : (s.catalog.setSequence next).entries = s.catalog.entries := rfl
      exact needed_of_build hbranch hentries hbuild hobject
    | uncertain huncertain hobject => exact ⟨branchId, .uncertain huncertain hobject⟩

/-- A manifest whose objects are needed becomes the durable one. -/
theorem Pins.persistConfirmed (hlisted : branchId ∈ s.branchIds)
    (hneed : ∀ object ∈ manifest.objectNames, s.Needed object) :
    Pins (s.persist branchId manifest .confirmed) := by
  have hdurable : update s.durable branchId (some manifest) branchId = some manifest := update_self ..
  have hcertain : (s.persist branchId manifest .confirmed).uncertain branchId = [] := update_self ..
  refine h.touch (fun hne => ⟨id, rfl, rfl, update_of_ne hne _ _,
    update_of_ne hne _ _, update_of_ne hne _ _, rfl, rfl⟩) rfl rfl
    ⟨fun hnot => absurd hlisted hnot, (h.each branchId).own,
    fun _ => (update_self ..).trans hdurable.symm, fun huncertain => absurd hcertain huncertain,
    fun _ => hcertain, fun hmem => ?_, (h.each branchId).pendingPublish⟩ fun {object} hneeded => ?_
  · rw [hcertain] at hmem
    cases hmem
  · cases hneeded with
    | memory hbranch htable hobject => exact ⟨branchId, .memory hbranch htable hobject⟩
    | durable hsome hobject =>
      cases hdurable.symm.trans hsome
      exact hneed object hobject
    | underWay hpublish hobject => exact ⟨branchId, .underWay hpublish hobject⟩
    | uncertain hmem hobject =>
      rw [hcertain] at hmem
      cases hmem

/-- A manifest under way ends uncertain; the frontier keeps the durable one. -/
theorem Pins.persistUncertain (visible : Bool) (hpublish : s.publishes branchId = some ⟨manifest, none⟩)
    (hguard : ∀ manifest ∈ s.durable branchId, NamesIn manifest (s.catalog.confirmedFrontiers branchId)) :
    Pins (s.persist branchId manifest (.uncertain visible)) := by
  have hown := h.each branchId
  have hlisted := hown.mem_branchIds (.inr (by rw [hpublish]; simp))
  have huncertain : (s.persist branchId manifest (.uncertain visible)).uncertain branchId =
    s.uncertain branchId ++ [manifest] := update_self ..
  refine h.touch (fun {other} hne => ⟨id, rfl, rfl, ?_, rfl, update_of_ne hne _ _, rfl,
    rfl⟩) rfl rfl ⟨fun hnot => absurd hlisted hnot, hown.own, fun hnil => ?_,
    fun _ hdurable => hguard _ hdurable, fun hconfirmed => ?_, fun hmem => ?_,
    hown.pendingPublish⟩ fun {object} hneeded => ⟨branchId, ?_⟩
  · cases visible with
    | false => rfl
    | true => exact update_of_ne hne _ _
  · exact absurd (huncertain.symm.trans hnil) (by simp)
  · cases hpublish.symm.trans hconfirmed
  · rw [huncertain] at hmem
    rcases mem_append.1 hmem with hold | hnew
    · exact hown.pendingUncertain hold
    · cases mem_singleton.1 hnew
      exact hown.pendingPublish hpublish
  · cases hneeded with
    | memory hbranch htable hobject => exact .memory hbranch htable hobject
    | durable hdurable hobject => exact .durable hdurable hobject
    | underWay hpublish' hobject => exact .underWay hpublish' hobject
    | uncertain hmem hobject =>
      rw [huncertain] at hmem
      rcases mem_append.1 hmem with hold | hnew
      · exact .uncertain hold hobject
      · cases mem_singleton.1 hnew
        exact .underWay hpublish hobject

/-- The outcome of a persist is noted. -/
theorem Pins.setOutcome {outcome : PersistOutcome} (hpublish : s.publishes branchId = some ⟨manifest, none⟩)
    (hcertain : outcome = .confirmed → s.uncertain branchId = []) :
    Pins (s.setPublish branchId (some ⟨manifest, some outcome⟩)) := by
  have hown := h.each branchId
  have hlisted := hown.mem_branchIds (.inr (by rw [hpublish]; simp))
  have hset : update s.publishes branchId (some ⟨manifest, some outcome⟩) branchId =
    some ⟨manifest, some outcome⟩ := update_self ..
  refine h.touch (fun hne => ⟨id, rfl, update_of_ne hne _ _, rfl, rfl, rfl, rfl, rfl⟩)
    rfl rfl ⟨fun hnot => absurd hlisted hnot, hown.own, hown.served, hown.confirmed, fun hconfirmed => ?_,
    hown.pendingUncertain, fun {publish} hpublish' => ?_⟩ fun {object} hneeded => ⟨branchId, ?_⟩
  · cases hset.symm.trans hconfirmed
    exact hcertain rfl
  · have hnames := hown.pendingPublish hpublish
    cases hset.symm.trans hpublish'
    exact hnames
  · cases hneeded with
    | memory hbranch htable hobject => exact .memory hbranch htable hobject
    | durable hdurable hobject => exact .durable hdurable hobject
    | underWay hpublish' hobject =>
      cases hset.symm.trans hpublish'
      exact .underWay hpublish hobject
    | uncertain huncertain hobject => exact .uncertain huncertain hobject

theorem Pins.persisted (outcome : PersistOutcome) (hpublish : s.publishes branchId = some ⟨manifest, none⟩)
    (hguard : s.Guarded (.persist branchId outcome)) :
    Pins ((s.persist branchId manifest outcome).setPublish branchId (some ⟨manifest, some outcome⟩)) := by
  have hlisted := (h.each branchId).mem_branchIds (.inr (by rw [hpublish]; simp))
  cases outcome with
  | confirmed =>
    exact (h.persistConfirmed hlisted fun object hobject =>
      ⟨branchId, .underWay hpublish hobject⟩).setOutcome hpublish fun _ => update_self ..
  | failed => exact h.setOutcome hpublish (by simp)
  | uncertain visible =>
    exact (h.persistUncertain visible hpublish hguard).setOutcome hpublish (by simp)

theorem Pins.inlinePersisted (outcome : PersistOutcome) (hbranch : s.branches branchId = some branch)
    (hbuild : s.catalog.buildManifestWithSequence branch sequence = .ok manifest)
    (hguard : s.Guarded (.publishInline branchId outcome)) :
    Pins (s.persist branchId manifest outcome) := by
  cases outcome with
  | confirmed =>
    exact h.persistConfirmed ((h.each branchId).mem_branchIds (.inl (by rw [hbranch]; simp)))
      fun object hobject => needed_of_build hbranch rfl hbuild hobject
  | failed => exact h
  | uncertain visible => exact hguard.elim

/-- The record of a manifest persisted under the lock. -/
theorem Pins.inlineConfirmed (hbranch : s.branches branchId = some branch)
    (hbuild : s.catalog.buildManifestWithSequence branch s.catalog.nextManifestSequence =
      .ok manifest) (hrecord : s.catalog.recordManifest manifest = .ok catalog)
    (hguard : s.Guarded (.publishInline branchId .confirmed)) :
    Pins ((s.persist branchId manifest .confirmed).setCatalog catalog) := by
  have hlisted := (h.each branchId).mem_branchIds (.inl (by rw [hbranch]; simp))
  rw [LifecycleDurableTableCatalog.recordManifest_of_build hbuild hrecord,
    LifecycleDurableTableCatalog.buildManifestWithSequence_branchId hbuild, (h.each branchId).own hbranch]
  exact (h.inlinePersisted .confirmed hbranch hbuild hguard).setFrontier hlisted rfl
    (fun hne => update_of_ne hne _ _) (fun hne => update_of_ne hne _ _)
    (Option.isNone_iff_eq_none.1 hguard) (update_self ..)

end

end Publications

/-! ## Runs -/

theorem Pins.marked (h : Pins s) (sweep : Nat) : Pins (s.mark sweep) := by
  refine h.same (fun _ => ⟨id, rfl, rfl, rfl, rfl, rfl, rfl, rfl⟩) rfl fun object hstaged => ?_
  rw [stagedObjects, mark, map_append] at hstaged
  rcases mem_append.1 hstaged with hold | hnew
  · exact h.unneeded hold
  · obtain ⟨_, hpair, rfl⟩ := mem_map.1 hnew
    obtain ⟨candidate, hcandidate, rfl⟩ := mem_map.1 hpair
    exact h.not_needed_of_candidate (mem_of_mem_take hcandidate)

/-- A step that changes neither branches nor manifests, nor the frontiers. -/
theorem Pins.quiet (h : Pins s) (hsame : ∀ other, SameAt s s' other)
    (hentries : s'.catalog.entries = s.catalog.entries)
    (hstaged : s'.sweepStagedNames ⊆ s.sweepStagedNames) : Pins s' :=
  h.same hsame hentries fun _ hobject => h.unneeded (map_subset _ hstaged hobject)

/-- The pins keep what is needed, over every guarded step. -/
theorem Pins.step {event : PublicationEvent} (h : Pins s) (hguard : s.Guarded event)
    (hstep : s.step event = some s') : Pins s' := by
  cases moved_of_step hstep with
  | reserve | publishObject | abandon | refused | deferred | quarantined | purged =>
    exact h.quiet (fun _ => ⟨id, rfl, rfl, rfl, rfl, rfl, rfl, rfl⟩) rfl (List.Subset.refl _)
  | ended sweep =>
    exact h.quiet (fun _ => ⟨id, rfl, rfl, rfl, rfl, rfl, rfl, rfl⟩) rfl (filter_subset_self _)
  | installed hbefore hfrom hnot hgrows => exact h.installed hbefore hfrom hnot hgrows hguard
  | noSequence => exact h
  | begun hbranch hfree hbuild => exact h.begun hbranch hfree hbuild hguard
  | persisted outcome hpublish => exact h.persisted outcome hpublish hguard
  | confirmed hpublish => exact h.confirmedPublish _ hpublish
  | unconfirmed hpublish hnot => exact h.freed _
  | unbuilt => exact h
  | inlinePersisted outcome hbranch hbuild => exact h.inlinePersisted outcome hbranch hbuild hguard
  | inlineConfirmed hbranch hbuild hrecord => exact h.inlineConfirmed hbranch hbuild hrecord hguard
  | created hnone => exact h.created _ _
  | forked removed hparent hnone hfrom => exact h.forked removed hparent hfrom hguard
  | deleted tombstoned hbranch => exact h.deleted tombstoned hbranch hguard
  | marked sweep => exact h.marked sweep

/-- What an open leaves: nothing under way, nothing uncertain, and nothing staged. -/
structure Quiescent (s : PublicationState) : Prop where
  listed : ∀ {branchId}, branchId ∉ s.branchIds → s.branches branchId = none ∧ s.manifests branchId = none ∧
    s.catalog.confirmedFrontiers branchId = [] ∧ s.catalog.pendingPublications branchId = []
  own : ∀ {branchId branch}, s.branches branchId = some branch → branch.branchId = branchId
  idle : ∀ branchId, s.publishes branchId = none
  certain : ∀ branchId, s.uncertain branchId = []
  served : s.manifests = s.durable
  unstaged : s.sweepStagedNames = []

theorem Quiescent.pins (h : s.Quiescent) : Pins s where
  each branchId := {
    listed := fun hnot =>
      have ⟨hbranch, hmanifest, hfrontiers⟩ := h.listed hnot
      ⟨hbranch, h.idle branchId, hmanifest, hfrontiers⟩
    own := h.own
    served := fun _ => congrFun h.served branchId
    confirmed := fun huncertain => absurd (h.certain branchId) huncertain
    settled := fun _ => h.certain branchId
    pendingUncertain := fun hmem => by
      rw [h.certain branchId] at hmem
      cases hmem
    pendingPublish := fun hpublish => by cases (h.idle branchId).symm.trans hpublish }
  unneeded hobject := by
    rw [stagedObjects, h.unstaged] at hobject
    cases hobject

theorem Pins.run {events : List PublicationEvent} (h : Pins s)
    (hrun : s.guardedRun events = some s') : s.run events = some s' ∧ Pins s' := by
  induction events generalizing s with
  | nil =>
    cases hrun
    exact ⟨rfl, h⟩
  | cons event events ih =>
    obtain ⟨next, hnext, hrest⟩ := Option.bind_eq_some_iff.1 hrun
    obtain ⟨hguard, hstep⟩ := Option.ite_none_right_eq_some.1 hnext
    obtain ⟨hrun', hpins⟩ := ih (h.step hguard hstep) hrest
    exact ⟨by rw [PublicationState.run, foldlM_cons, hstep]; exact hrun', hpins⟩

/-- An install of an object that a sweep has staged is refused. -/
theorem install_of_staged {outputs : List PublishedTable} {output : PublishedTable}
    (hmem : output ∈ outputs) (hstaged : output.object ∈ s.stagedObjects) (branchId : BranchId)
    (build : Nat) (kind : InstallKind) (branch : BranchLocalState) :
    s.install branchId build kind outputs branch = s.release build := by
  unfold install
  split
  · rfl
  · rename_i hverified
    exact absurd hstaged (verifyOutputObjectsNotSwept_eq_ok.1 hverified output hmem).1

/-- In every run of guarded steps from an open, nothing staged is needed, and an install
of what is staged is refused. -/
theorem guardedRun_unneeded {s s' : PublicationState} {events : List PublicationEvent}
    (hopened : s.Quiescent) (hrun : s.guardedRun events = some s') :
    s.run events = some s' ∧ (∀ object ∈ s'.stagedObjects, ¬s'.Needed object) ∧
      ∀ (outputs : List PublishedTable) (output : PublishedTable) (branchId : BranchId)
        (build : Nat) (kind : InstallKind) (branch : BranchLocalState), output ∈ outputs →
        output.object ∈ s'.stagedObjects →
        s'.install branchId build kind outputs branch = s'.release build := by
  obtain ⟨hrun', hpins⟩ := hopened.pins.run hrun
  exact ⟨hrun', fun object hobject => hpins.unneeded hobject,
    fun outputs output branchId build kind branch hmem hstaged =>
      install_of_staged hmem hstaged branchId build kind branch⟩

end PublicationState

namespace Sample

/-- The manifest with the first table ends uncertain, and the one behind the rewrite is
begun before the sweep. -/
def superseded : List PublicationEvent :=
  firstFlushed ++ [.beginPublish (branchOf 0), .persist (branchOf 0) (.uncertain false),
    .finishPublish (branchOf 0)] ++ firstRewritten ++ [.beginPublish (branchOf 0), .sweep 0]

/-- The branch is deleted while its manifest is under way. -/
def deletedUnderWay : List PublicationEvent :=
  firstFlushed ++ [.beginPublish (branchOf 0), .delete (branchOf 0) true, .sweep 0]

/-- The slice of a fork at version two, of a row its source has not sealed. -/
def sliceTable : BranchOwnedTable := tableOf ⟨"slice", by decide⟩ (putOf (branchOf 1) 2)

def sliceObject : TableObject :=
  ⟨branchOf 1, 0, utf8Bytes "slice", Nat.zero_le _, by decide, by decide⟩

/-- The fork, with a layer over the sealed table. -/
def forkChild : BranchLocalState :=
  { holding (branchOf 1) [sliceTable] (by decide) (by decide) with
    inheritedLayers := [⟨⟨branchOf 0, 2, .active, 1⟩, [[firstTable]], by decide⟩]
    sources_differ := by decide
    commits_covered := by decide }

/-- The manifest of the fork cannot be persisted, the fork is deleted, and it is made
again, with the same slice, while a sweep is about to delete its object. -/
def adopted : List PublicationEvent :=
  firstFlushed ++ [.beginPublish (branchOf 0), .persist (branchOf 0) .confirmed, .finishPublish (branchOf 0),
    .fork (branchOf 0) (some (flushed sliceTable sliceObject)) forkChild false,
    .publishInline (branchOf 1) .failed, .delete (branchOf 1) true, .sweep 0,
    .fork (branchOf 0) (some (flushed sliceTable sliceObject)) forkChild false]

theorem quiescent_emptyRuntime : emptyRuntime.Quiescent :=
  ⟨fun _ => ⟨rfl, rfl, rfl, rfl⟩, nofun, fun _ => rfl, fun _ => rfl, rfl, rfl⟩

/-- A rewrite is published, and a sweep stages the object it left behind. -/
theorem guardedRun_rewrite : ∃ s, emptyRuntime.run (firstFlushed ++ firstRewritten ++
    [.beginPublish (branchOf 0), .persist (branchOf 0) .confirmed, .finishPublish (branchOf 0),
      .sweep 0]) = some s ∧ firstObject ∈ s.stagedObjects ∧ ¬s.Needed firstObject := by
  have hrun : (emptyRuntime.guardedRun (firstFlushed ++ firstRewritten ++
      [.beginPublish (branchOf 0), .persist (branchOf 0) .confirmed, .finishPublish (branchOf 0),
        .sweep 0])).any (fun s => firstObject ∈ s.stagedObjects) = true := by
    decide +kernel
  obtain ⟨s, hs, hstaged⟩ := (Option.any_eq_true _ _).1 hrun
  obtain ⟨hrun', hunneeded, -⟩ := PublicationState.guardedRun_unneeded quiescent_emptyRuntime hs
  exact ⟨s, hrun', of_decide_eq_true hstaged, hunneeded firstObject (of_decide_eq_true hstaged)⟩

/-- Runs after which a staged object is listed in an uncertain manifest, is listed in a
manifest under way, and is that of a table in memory. -/
theorem needed_runs : (emptyRuntime.run superseded).any (fun s => (s.uncertain (branchOf 0)).any fun manifest =>
      manifest.objectNames.any (· ∈ s.stagedObjects)) = true ∧
    (emptyRuntime.run deletedUnderWay).any (fun s => (s.publishes (branchOf 0)).any fun publish =>
      publish.manifest.objectNames.any (· ∈ s.stagedObjects)) = true ∧
    (emptyRuntime.run adopted).any (fun s => s.inMemoryObjects.any (· ∈ s.stagedObjects)) =
      true := by
  decide +kernel

end Sample

end Strata
