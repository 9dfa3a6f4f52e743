import StrataStorage.Lifecycle.TableCatalog

/-!
# Table publications and sweeps

What the maintenance of `lifecycle/durable/maintenance.rs`, the rewrites of
`lifecycle/rewrite_publication.rs` and the branch operations of
`lifecycle/durable/bootstrap.rs` do to the table catalog, the branches in memory, the
table manifests and the table objects, one section under the runtime lock or one call
of the backend a step. A build reserves the names of its outputs and writes them; an
install takes them into a branch and records them; a publication builds the manifest
under the lock, persists it off the lock under the slot of its branch, and folds the
result back; a sweep marks the objects nothing lists and deletes them off the lock.

* `step`: the next state, or `none` if the event is not possible;
* `moved_of_step`: everything a step may do, one case an outcome.
-/

namespace Strata

open Function
open LifecycleDurableTableCatalog (Grows)

/-- How a persist of a manifest ends. An uncertain one may be what a reopen finds, and
reads may serve it. -/
inductive PersistOutcome where
  | confirmed
  | failed
  | uncertain (visible : Bool)
  deriving DecidableEq

/-- `PreparedPublish`, and how its persist ended. -/
structure PreparedPublish where
  manifest : TableManifest
  outcome : Option PersistOutcome

/-- `PublishedRewriteTable`, or a flushed table. -/
structure PublishedTable where
  table : BranchOwnedTable
  objectFacts : TableObjectFacts
  provenance : TableManifestTableProvenance

namespace PublishedTable

variable (output : PublishedTable)

def identity : TableIdentity := output.table.facts.identity

def object : TableObject := output.objectFacts.object

/-- The catalog entry of an output. -/
def entry : LifecycleDurableTableCatalogEntry :=
  ⟨output.identity, output.objectFacts, output.provenance⟩

end PublishedTable

/-- The part of the durable runtime that publishes and reclaims tables. -/
structure PublicationState where
  catalog : LifecycleDurableTableCatalog
  /-- Every branch that has a descriptor, a deleted one too. -/
  branchIds : List BranchId
  /-- The states of the active branches. -/
  branches : BranchId → Option BranchLocalState
  /-- What holds the publish slot of a branch. -/
  publishes : BranchId → Option PreparedPublish
  /-- The manifest reads serve. -/
  manifests : BranchId → Option TableManifest
  /-- The manifest persisted last with a confirmation. -/
  durable : BranchId → Option TableManifest
  /-- The manifests whose persist ended uncertain since. -/
  uncertain : BranchId → List TableManifest
  inventory : List TableObject
  quarantined : List TableObject
  /-- `InFlightTableOutputs`: the names each build has reserved. -/
  inflightOutputs : List (Nat × TableObject)
  /-- The names each sweep has staged. -/
  sweepStagedNames : List (Nat × TableObject)

namespace PublicationState

variable (s : PublicationState)

/-- `in_memory_pinned_table_objects`. -/
def inMemoryObjects : List TableObject :=
  s.branchIds.flatMap fun branchId => (s.branches branchId).elim [] fun branch =>
    branch.tables.filterMap fun table => s.catalog.objectForIdentity table.facts.identity

/-- `manifest_frontier_pinned_objects`. -/
def frontierObjects : List TableObject :=
  s.branchIds.flatMap fun branchId =>
    s.catalog.confirmedFrontiers branchId ++ s.catalog.pendingPublications branchId

/-- `reclaim_pinned_table_objects`. -/
def pinnedObjects : List TableObject :=
  s.inMemoryObjects ++ s.inflightOutputs.map (·.2) ++ s.frontierObjects

/-- The keys of `live_table_objects` over `load_all_current`, and the pinned objects. -/
def liveObjects : List TableObject :=
  (s.branchIds.flatMap fun branchId => (s.manifests branchId).elim [] (·.objectNames)) ++ s.pinnedObjects

/-- The inventory in the order of its names. -/
def sortedInventory : List TableObject := s.inventory.insertionSort (·.text ≤ ·.text)

/-- `table_object_decisions`: the candidates of a mark, none if the proof is not
complete. -/
def quarantineCandidates : List TableObject :=
  if ∀ object ∈ s.liveObjects, object ∈ s.inventory then
    s.sortedInventory.filter fun object => object ∉ s.liveObjects ∧ object ∉ s.quarantined
  else []

/-- The names staged by the running sweeps. -/
def stagedObjects : List TableObject := s.sweepStagedNames.map (·.2)

def verifyOutputObjectsNotSwept (outputs : List PublishedTable) : Except LifecycleError Unit :=
  outputs.forM fun output => .require (output.object ∉ s.stagedObjects ∧ output.object ∈ s.inventory)
      (.rewriteOutputRacedSweep output.object)

def setCatalog (catalog : LifecycleDurableTableCatalog) : PublicationState :=
  { s with catalog := catalog }

def setBranch (branchId : BranchId) (branch : Option BranchLocalState) : PublicationState :=
  { s with branches := update s.branches branchId branch }

def setPublish (branchId : BranchId) (publish : Option PreparedPublish) : PublicationState :=
  { s with publishes := update s.publishes branchId publish }

/-- The reservations of a build are dropped with its prepared value. -/
def release (build : Nat) : PublicationState :=
  { s with inflightOutputs := s.inflightOutputs.filter (·.1 ≠ build) }

/-- What a persist does to the manifest object. -/
def persist (branchId : BranchId) (manifest : TableManifest) : PersistOutcome → PublicationState
  | .confirmed =>
    { s with
      manifests := update s.manifests branchId (some manifest)
      durable := update s.durable branchId (some manifest)
      uncertain := update s.uncertain branchId [] }
  | .failed => s
  | .uncertain visible =>
    { s with
      manifests := if visible then update s.manifests branchId (some manifest)
        else s.manifests
      uncertain := update s.uncertain branchId (s.uncertain branchId ++ [manifest]) }

end PublicationState

/-- The tables of a branch after an install: those from before, and outputs. -/
def TablesFrom (outputs : List PublishedTable) (branch branch' : BranchLocalState) : Prop :=
  branch'.branchId = branch.branchId ∧
    (∀ table ∈ branch'.ownedTables, table.facts ∈ branch.ownedTables.map (·.facts) ∨
      table.facts ∈ outputs.map (·.table.facts)) ∧
    ∀ table ∈ branch'.inheritedTables, table.facts ∈ branch.inheritedTables.map (·.facts)

instance (outputs : List PublishedTable) (branch branch' : BranchLocalState) :
    Decidable (TablesFrom outputs branch branch') := inferInstanceAs (Decidable (_ ∧ _))

/-- `record_published_outputs`, and the records behind a flush install: the catalog as
far as the records went, and whether all of them did. -/
def recordOutputs (catalog : LifecycleDurableTableCatalog) :
    List PublishedTable → LifecycleDurableTableCatalog × Bool
  | [] => (catalog, true)
  | output :: outputs =>
    match catalog.recordTable output.entry with
    | .ok catalog => recordOutputs catalog outputs
    | .error _ => (catalog, false)

inductive InstallKind where
  | flush
  | rewrite
  deriving DecidableEq

inductive PublicationEvent where
  /-- A build pins the name of an output, -/
  | reserve (build : Nat) (object : TableObject)
  /-- and writes it, unless it is there. -/
  | publishObject (object : TableObject)
  | abandon (build : Nat)
  | install (branchId : BranchId) (build : Nat) (kind : InstallKind) (outputs : List PublishedTable)
      (branch : BranchLocalState)
  | beginPublish (branchId : BranchId)
  | persist (branchId : BranchId) (outcome : PersistOutcome)
  | finishPublish (branchId : BranchId)
  | publishInline (branchId : BranchId) (outcome : PersistOutcome)
  | create (branchId : BranchId) (config : BranchRuntimeConfig)
  | fork (source : BranchId) (slice : Option PublishedTable) (child : BranchLocalState) (removed : Bool)
  /-- `tombstoned` if the branch catalog could be published. -/
  | delete (branchId : BranchId) (tombstoned : Bool)
  | sweep (sweep : Nat)
  /-- `deleted` if the source of the quarantined object could be. -/
  | quarantine (sweep : Nat) (object : TableObject) (deleted : Bool)
  | endSweep (sweep : Nat)
  | purge

def tableObjectSweepMaxObjects : Nat := 32

namespace PublicationState

variable {outputs : List PublishedTable} {branchId : BranchId} {branch : BranchLocalState} (s : PublicationState)

/-- `begin_flush_publish`, `install_prepared_durable_compaction_without_publish` and
`install_prepared_durable_materialization_without_publish`, up to the publication. A
rewrite is recorded in a copy of the catalog before it is installed, a flush behind it. -/
def install (s : PublicationState) (branchId : BranchId) (build : Nat) (kind : InstallKind)
    (outputs : List PublishedTable) (branch : BranchLocalState) : PublicationState :=
  match s.verifyOutputObjectsNotSwept outputs with
  | .error _ => s.release build
  | .ok () =>
    let recorded := recordOutputs s.catalog outputs
    if kind = .rewrite ∧ recorded.2 = false then s.release build
    else ((s.setCatalog recorded.1).setBranch branchId (some branch)).release build

/-- `begin_off_lock_publish`. With the slot taken, only the sequence is. -/
def beginPublish (s : PublicationState) (branchId : BranchId) (branch : BranchLocalState) :
    PublicationState :=
  match s.catalog.reserveManifestSequence with
  | .error _ => s
  | .ok (sequence, catalog) =>
    match catalog.buildManifestWithSequence branch sequence, s.publishes branchId with
    | .ok manifest, none =>
      let catalog := catalog.recordPendingPublication branchId manifest.objectNames
      (s.setCatalog catalog).setPublish branchId (some ⟨manifest, none⟩)
    | _, _ => s.setCatalog catalog

/-- `finish_publish_phase`. -/
def finishPublish (s : PublicationState) (branchId : BranchId) (publish : PreparedPublish) :
    PublicationState :=
  if publish.outcome = some .confirmed then
    let catalog := s.catalog.confirmReservedManifestPublished branchId publish.manifest.objectNames
    (s.setCatalog catalog).setPublish branchId none
  else s.setPublish branchId none

/-- `publish_table_manifest_for_branch_with_budget`. The tables of the manifest are
known, so a record that fails leaves the catalog as it is. -/
def publishInline (s : PublicationState) (branchId : BranchId) (branch : BranchLocalState)
    (outcome : PersistOutcome) : PublicationState :=
  match s.catalog.buildManifestWithSequence branch s.catalog.nextManifestSequence with
  | .error _ => s
  | .ok manifest =>
    let persisted := s.persist branchId manifest outcome
    if outcome = .confirmed then
      match s.catalog.recordManifest manifest with
      | .ok catalog => persisted.setCatalog catalog
      | .error _ => persisted
    else persisted

/-- The branch operations that add a branch. -/
def addBranch (s : PublicationState) (branch : BranchLocalState) : PublicationState :=
  { s with branchIds := branch.branchId :: s.branchIds }.setBranch branch.branchId (some branch)

/-- `build_and_publish_fork_unsealed_table` and `record_fork_unsealed_slice`: the object
of the slice is written or found, and recorded if the catalog takes it. -/
def recordSlice (s : PublicationState) : Option PublishedTable → PublicationState
  | none => s
  | some output =>
    { s with
      inventory := output.object :: s.inventory
      catalog := (recordOutputs s.catalog [output]).1 }

def removeManifest (s : PublicationState) (branchId : BranchId) : PublicationState :=
  { s with
    manifests := update s.manifests branchId none
    durable := update s.durable branchId none }

/-- `fork_current` and `fork_at_retained_version`, up to the publication. The manifest
of a layer-less child is removed. -/
def fork (s : PublicationState) (slice : Option PublishedTable) (child : BranchLocalState)
    (removed : Bool) : PublicationState :=
  let s := (s.addBranch child).recordSlice slice
  if child.inheritedLayers.isEmpty && removed then s.removeManifest child.branchId else s

/-- The tables a fork may give its child: the slice, tables no object backs, and, in its
layers, tables of the source. -/
def ForksFrom (s : PublicationState) (source : BranchLocalState) (slice : Option PublishedTable)
    (child : BranchLocalState) : Prop :=
  (∀ table ∈ child.ownedTables, table.facts ∈ slice.toList.map (·.table.facts) ∨
    s.catalog.entries table.facts.identity = none) ∧
  ∀ table ∈ child.inheritedTables, table.facts ∈ source.tables.map (·.facts)

instance (s : PublicationState) (source : BranchLocalState) (slice : Option PublishedTable)
    (child : BranchLocalState) : Decidable (s.ForksFrom source slice child) :=
  inferInstanceAs (Decidable (_ ∧ _))

/-- `delete_branch`. -/
def delete (s : PublicationState) (branchId : BranchId) (tombstoned : Bool) : PublicationState :=
  if tombstoned then
    (s.setCatalog (s.catalog.clearBranchFrontier branchId)).setBranch branchId none
  else s.setBranch branchId none

/-- `start_next_background_quarantine_sweep`. -/
def mark (s : PublicationState) (sweep : Nat) : PublicationState :=
  { s with sweepStagedNames := s.sweepStagedNames ++
      (s.quarantineCandidates.take tableObjectSweepMaxObjects).map (sweep, ·) }

/-- `quarantine_lifecycle_object`, of a candidate. -/
def quarantine (s : PublicationState) (object : TableObject) (deleted : Bool) : PublicationState :=
  { s with
    inventory := if deleted then s.inventory.filter (· ≠ object) else s.inventory
    quarantined := object :: s.quarantined }

/-- One step; `none` if the event is not possible. -/
def step (s : PublicationState) : PublicationEvent → Option PublicationState
  | .reserve build object => some { s with inflightOutputs := (build, object) :: s.inflightOutputs }
  | .publishObject object => some { s with inventory := object :: s.inventory }
  | .abandon build => some (s.release build)
  | .install branchId build kind outputs branch =>
    (s.branches branchId).bind fun before =>
      if TablesFrom outputs before branch then some (s.install branchId build kind outputs branch)
      else none
  | .beginPublish branchId => (s.branches branchId).map (s.beginPublish branchId)
  | .persist branchId outcome =>
    (s.publishes branchId).bind fun publish =>
      if publish.outcome = none then
        some ((s.persist branchId publish.manifest outcome).setPublish branchId
          (some ⟨publish.manifest, some outcome⟩))
      else none
  | .finishPublish branchId =>
    (s.publishes branchId).bind fun publish =>
      if publish.outcome = none then none else some (s.finishPublish branchId publish)
  | .publishInline branchId outcome =>
    (s.branches branchId).map (s.publishInline branchId · outcome)
  | .create branchId config =>
    if (s.branches branchId).isNone then some (s.addBranch (.new branchId config)) else none
  | .fork source slice child removed =>
    (s.branches source).bind fun parent =>
      if (s.branches child.branchId).isNone ∧ s.ForksFrom parent slice child then
        some (s.fork slice child removed)
      else none
  | .delete branchId tombstoned =>
    if (s.branches branchId).isSome then some (s.delete branchId tombstoned) else none
  | .sweep sweep => if sweep ∈ s.sweepStagedNames.map (·.1) then none else some (s.mark sweep)
  | .quarantine sweep object deleted =>
    if (sweep, object) ∈ s.sweepStagedNames then some (s.quarantine object deleted) else none
  | .endSweep sweep =>
    some { s with sweepStagedNames := s.sweepStagedNames.filter (·.1 ≠ sweep) }
  | .purge => some { s with quarantined := [] }

section Fork

variable (s : PublicationState) (slice : Option PublishedTable) (child : BranchLocalState) (removed : Bool)

@[simp] theorem fork_branchIds : (s.fork slice child removed).branchIds = child.branchId :: s.branchIds := by
  unfold fork
  cases slice <;> split <;> rfl

@[simp] theorem fork_branches : (s.fork slice child removed).branches =
    update s.branches child.branchId (some child) := by
  unfold fork
  cases slice <;> split <;> rfl

@[simp] theorem fork_publishes : (s.fork slice child removed).publishes = s.publishes := by
  unfold fork
  cases slice <;> split <;> rfl

@[simp] theorem fork_uncertain : (s.fork slice child removed).uncertain = s.uncertain := by
  unfold fork
  cases slice <;> split <;> rfl

@[simp] theorem fork_sweepStagedNames : (s.fork slice child removed).sweepStagedNames = s.sweepStagedNames := by
  unfold fork
  cases slice <;> split <;> rfl

theorem fork_catalog : (s.fork slice child removed).catalog = (recordOutputs s.catalog slice.toList).1 := by
  unfold fork
  cases slice <;> split <;> rfl

/-- A fork removes the manifest of its child, or none. -/
theorem fork_manifests : (s.fork slice child removed).manifests = s.manifests ∧
        (s.fork slice child removed).durable = s.durable ∨
      (s.fork slice child removed).manifests = update s.manifests child.branchId none ∧
        (s.fork slice child removed).durable = update s.durable child.branchId none := by
  unfold fork
  cases slice <;> split <;> simp [removeManifest, recordSlice, addBranch, setBranch]

theorem fork_durable_of_ne {other : BranchId} (hne : other ≠ child.branchId) :
    (s.fork slice child removed).durable other = s.durable other := by
  rcases s.fork_manifests slice child removed with ⟨-, h⟩ | ⟨-, h⟩
  · rw [h]
  · rw [h, update_of_ne hne]

end Fork

/-! ## What a step may do -/

theorem recordOutputs_grows (catalog : LifecycleDurableTableCatalog) (outputs : List PublishedTable) :
    Grows (outputs.map (·.entry)) catalog (recordOutputs catalog outputs).1 := by
  induction outputs generalizing catalog with
  | nil => exact .refl _ _
  | cons output outputs ih =>
    rw [recordOutputs]
    split
    · rename_i next hnext
      exact (LifecycleDurableTableCatalog.recordTable_grows hnext).trans (ih next)
    · exact .refl _ _

theorem verifyOutputObjectsNotSwept_eq_ok {s : PublicationState} : s.verifyOutputObjectsNotSwept outputs = .ok () ↔
      ∀ output ∈ outputs, output.object ∉ s.stagedObjects ∧ output.object ∈ s.inventory := by
  rw [verifyOutputObjectsNotSwept, Except.forM_eq_ok]
  exact forall₂_congr fun _ _ => Except.require_eq_ok

/-- The outcomes of a step. -/
inductive Moved (s : PublicationState) : PublicationEvent → PublicationState → Prop
  | reserve (build : Nat) (object : TableObject) : Moved s (.reserve build object)
      { s with inflightOutputs := (build, object) :: s.inflightOutputs }
  | publishObject (object : TableObject) : Moved s (.publishObject object)
      { s with inventory := object :: s.inventory }
  | abandon (build : Nat) : Moved s (.abandon build) (s.release build)
  | refused (branchId : BranchId) (build : Nat) (kind : InstallKind)
      (outputs : List PublishedTable) (branch : BranchLocalState) :
      Moved s (.install branchId build kind outputs branch) (s.release build)
  | installed {branchId : BranchId} {build : Nat} {kind : InstallKind} {outputs : List PublishedTable}
      {before branch : BranchLocalState} {catalog : LifecycleDurableTableCatalog}
      (hbefore : s.branches branchId = some before) (hfrom : TablesFrom outputs before branch)
      (hnot : ∀ output ∈ outputs, output.object ∉ s.stagedObjects)
      (hgrows : Grows (outputs.map (·.entry)) s.catalog catalog) :
      Moved s (.install branchId build kind outputs branch)
        (((s.setCatalog catalog).setBranch branchId (some branch)).release build)
  | noSequence (branchId : BranchId) : Moved s (.beginPublish branchId) s
  | deferred (branchId : BranchId) (sequence : Nat) :
      Moved s (.beginPublish branchId) (s.setCatalog (s.catalog.setSequence sequence))
  | begun {branchId : BranchId} {branch : BranchLocalState} {sequence next : Nat} {manifest : TableManifest}
      (hbranch : s.branches branchId = some branch) (hfree : s.publishes branchId = none)
      (hbuild : (s.catalog.setSequence next).buildManifestWithSequence branch sequence = .ok manifest) :
      Moved s (.beginPublish branchId)
        ((s.setCatalog ((s.catalog.setSequence next).recordPendingPublication branchId
          manifest.objectNames)).setPublish branchId (some ⟨manifest, none⟩))
  | persisted {branchId : BranchId} {manifest : TableManifest} (outcome : PersistOutcome)
      (hpublish : s.publishes branchId = some ⟨manifest, none⟩) :
      Moved s (.persist branchId outcome)
        ((s.persist branchId manifest outcome).setPublish branchId (some ⟨manifest, some outcome⟩))
  | confirmed {branchId : BranchId} {manifest : TableManifest}
      (hpublish : s.publishes branchId = some ⟨manifest, some .confirmed⟩) :
      Moved s (.finishPublish branchId) ((s.setCatalog (s.catalog.confirmReservedManifestPublished branchId
          manifest.objectNames)).setPublish branchId none)
  | unconfirmed {branchId : BranchId} {publish : PreparedPublish}
      (hpublish : s.publishes branchId = some publish) (hnot : publish.outcome ≠ some .confirmed) :
      Moved s (.finishPublish branchId) (s.setPublish branchId none)
  | unbuilt (branchId : BranchId) (outcome : PersistOutcome) : Moved s (.publishInline branchId outcome) s
  | inlinePersisted {branchId : BranchId} {branch : BranchLocalState} {manifest : TableManifest}
      (outcome : PersistOutcome) (hbranch : s.branches branchId = some branch)
      (hbuild : s.catalog.buildManifestWithSequence branch s.catalog.nextManifestSequence = .ok manifest) :
      Moved s (.publishInline branchId outcome) (s.persist branchId manifest outcome)
  | inlineConfirmed {branchId : BranchId} {branch : BranchLocalState} {manifest : TableManifest}
      {catalog : LifecycleDurableTableCatalog} (hbranch : s.branches branchId = some branch)
      (hbuild : s.catalog.buildManifestWithSequence branch s.catalog.nextManifestSequence = .ok manifest)
      (hrecord : s.catalog.recordManifest manifest = .ok catalog) :
      Moved s (.publishInline branchId .confirmed) ((s.persist branchId manifest .confirmed).setCatalog catalog)
  | created {branchId : BranchId} {config : BranchRuntimeConfig} (hnone : s.branches branchId = none) :
      Moved s (.create branchId config) (s.addBranch (.new branchId config))
  | forked {source : BranchId} {parent child : BranchLocalState} {slice : Option PublishedTable}
      (removed : Bool) (hparent : s.branches source = some parent)
      (hnone : s.branches child.branchId = none) (hfrom : s.ForksFrom parent slice child) :
      Moved s (.fork source slice child removed) (s.fork slice child removed)
  | deleted {branchId : BranchId} {branch : BranchLocalState} (tombstoned : Bool)
      (hbranch : s.branches branchId = some branch) :
      Moved s (.delete branchId tombstoned) (s.delete branchId tombstoned)
  | marked (sweep : Nat) : Moved s (.sweep sweep) (s.mark sweep)
  | quarantined {sweep : Nat} {object : TableObject} (deleted : Bool)
      (hstaged : (sweep, object) ∈ s.sweepStagedNames) :
      Moved s (.quarantine sweep object deleted) (s.quarantine object deleted)
  | ended (sweep : Nat) : Moved s (.endSweep sweep)
      { s with sweepStagedNames := s.sweepStagedNames.filter (·.1 ≠ sweep) }
  | purged : Moved s .purge { s with quarantined := [] }

theorem moved_install {build : Nat} {kind : InstallKind} {before : BranchLocalState}
    (hbefore : s.branches branchId = some before) (hfrom : TablesFrom outputs before branch) :
    Moved s (.install branchId build kind outputs branch) (s.install branchId build kind outputs branch) := by
  unfold install
  split
  · exact .refused ..
  · rename_i hverified
    dsimp only
    split
    · exact .refused ..
    · exact .installed hbefore hfrom
        (fun output hmem => (verifyOutputObjectsNotSwept_eq_ok.1 hverified output hmem).1)
        (recordOutputs_grows _ _)

theorem moved_beginPublish (hbranch : s.branches branchId = some branch) :
    Moved s (.beginPublish branchId) (s.beginPublish branchId branch) := by
  unfold beginPublish LifecycleDurableTableCatalog.reserveManifestSequence
  split
  · exact .noSequence branchId
  · rename_i sequence catalog hreserved
    split at hreserved
    · cases hreserved
      split
      · rename_i manifest hbuild hfree
        exact .begun hbranch hfree hbuild
      · exact .deferred branchId _
    · cases hreserved

theorem moved_finishPublish {publish : PreparedPublish} (hpublish : s.publishes branchId = some publish) :
    Moved s (.finishPublish branchId) (s.finishPublish branchId publish) := by
  obtain ⟨manifest, outcome⟩ := publish
  unfold finishPublish
  split_ifs with hconfirmed
  · cases hconfirmed
    exact .confirmed hpublish
  · exact .unconfirmed hpublish hconfirmed

theorem moved_publishInline (outcome : PersistOutcome) (hbranch : s.branches branchId = some branch) :
    Moved s (.publishInline branchId outcome) (s.publishInline branchId branch outcome) := by
  unfold publishInline
  split
  · exact .unbuilt branchId outcome
  · rename_i manifest hbuild
    split_ifs with hconfirmed
    · subst hconfirmed
      split
      · rename_i catalog hrecord
        exact .inlineConfirmed hbranch hbuild hrecord
      · exact .inlinePersisted .confirmed hbranch hbuild
    · exact .inlinePersisted outcome hbranch hbuild

/-- Everything a step may do. -/
theorem moved_of_step {s s' : PublicationState} {event : PublicationEvent}
    (h : s.step event = some s') : Moved s event s' := by
  cases event with
  | reserve build object => cases h; exact .reserve build object
  | publishObject object => cases h; exact .publishObject object
  | abandon build => cases h; exact .abandon build
  | install branchId build kind outputs branch =>
    obtain ⟨before, hbefore, h⟩ := Option.bind_eq_some_iff.1 h
    split at h
    · rename_i hfrom
      cases h
      exact moved_install s hbefore hfrom
    · cases h
  | beginPublish branchId =>
    obtain ⟨branch, hbranch, rfl⟩ := Option.map_eq_some_iff.1 h
    exact moved_beginPublish s hbranch
  | persist branchId outcome =>
    obtain ⟨⟨manifest, before⟩, hpublish, h⟩ := Option.bind_eq_some_iff.1 h
    split at h
    · rename_i hnone
      cases hnone
      cases h
      exact .persisted outcome hpublish
    · cases h
  | finishPublish branchId =>
    obtain ⟨publish, hpublish, h⟩ := Option.bind_eq_some_iff.1 h
    split at h
    · cases h
    · cases h
      exact moved_finishPublish s hpublish
  | publishInline branchId outcome =>
    obtain ⟨branch, hbranch, rfl⟩ := Option.map_eq_some_iff.1 h
    exact moved_publishInline s outcome hbranch
  | create branchId config =>
    obtain ⟨hnone, h⟩ := Option.ite_none_right_eq_some.1 h
    cases h
    exact .created (Option.isNone_iff_eq_none.1 hnone)
  | fork source slice child removed =>
    obtain ⟨parent, hparent, h⟩ := Option.bind_eq_some_iff.1 h
    obtain ⟨⟨hnone, hfrom⟩, h⟩ := Option.ite_none_right_eq_some.1 h
    cases h
    exact .forked removed hparent (Option.isNone_iff_eq_none.1 hnone) hfrom
  | delete branchId tombstoned =>
    obtain ⟨hsome, h⟩ := Option.ite_none_right_eq_some.1 h
    obtain ⟨branch, hbranch⟩ := Option.isSome_iff_exists.1 hsome
    cases h
    exact .deleted tombstoned hbranch
  | sweep sweep =>
    obtain ⟨-, h⟩ := Option.ite_none_left_eq_some.1 h
    cases h
    exact .marked sweep
  | quarantine sweep object deleted =>
    obtain ⟨hstaged, h⟩ := Option.ite_none_right_eq_some.1 h
    cases h
    exact .quarantined deleted hstaged
  | endSweep sweep => cases h; exact .ended sweep
  | purge => cases h; exact .purged

/-- A run. -/
def run (s : PublicationState) (events : List PublicationEvent) : Option PublicationState :=
  events.foldlM step s

end PublicationState

/-! ## Worked inputs -/

namespace Sample

def branchOf (n : UInt8) : BranchId := ⟨List.replicate 16 n, rfl⟩

/-- A put in a branch. -/
def putOf (branchId : BranchId) (version : CommitVersion) : StorageRow :=
  .put ⟨branchId, "s", ⟨1, one_ne_zero⟩, [1], space_valid⟩ version 10 Timestamp.epoch [1]

/-- A table with one row. -/
def tableOf (identity : TableIdentity) (row : StorageRow) : BranchOwnedTable where
  branchId := row.physicalKey.branchId
  level := 0
  reader := {
    facts := ⟨identity, 1, 1, row.key, row.key, row.commitVersion, row.commitVersion, 64⟩
    blocks := [[row]]
    mode := .eager
    filter := none
    blocks_ne_nil := by simp
    rows_sorted := List.pairwise_singleton _ _
    facts_describe := by constructor <;> simp
    filter_sound := by simp }
  materializationSource := none
  range_matches := by simp [keyRangeMatchesBranch, take_byteLen_key]

/-- A branch with tables in level zero. -/
def holding (branchId : BranchId) (tables : List BranchOwnedTable) (hvalid : validateOwnedLevels [tables] = .ok ())
    (hrows : ∀ row ∈ tables.flatMap (·.rows), row.physicalKey.branchId = branchId ∧
      row.commitVersion ≤ 9) : BranchLocalState where
  branchId := branchId
  config := ⟨1, 1000⟩
  active := .new
  frozen := []
  layout := ⟨[tables], hvalid⟩
  inheritedLayers := []
  maxCommitVersion := some 9
  timestampCoverage := .complete
  active_live := MutableTable.new_live
  sources_differ := BranchLocalState.sources_differ_nil branchId
  own_branch := by
    simpa [ownContents, MutableTable.visibleRows, MutableTable.new, TableMemoryData.empty]
      using fun row table hmem hrow => (hrows row (List.mem_flatMap.2 ⟨table, hmem, hrow⟩)).1
  commits_covered := by
    simpa [ownContents, MutableTable.visibleRows, MutableTable.new, TableMemoryData.empty]
      using fun row table hmem hrow => (hrows row (List.mem_flatMap.2 ⟨table, hmem, hrow⟩)).2

/-- The output of a flush. -/
def flushed (table : BranchOwnedTable) (object : TableObject) : PublishedTable :=
  ⟨table, ⟨object, 64, 1, 1, table.facts.commitMin, table.facts.commitMax⟩, .flush⟩

/-- A runtime without branches. -/
def emptyRuntime : PublicationState where
  catalog := .new
  branchIds := []
  branches _ := none
  publishes _ := none
  manifests _ := none
  durable _ := none
  uncertain _ := []
  inventory := []
  quarantined := []
  inflightOutputs := []
  sweepStagedNames := []

def firstTable : BranchOwnedTable := tableOf ⟨"first", by decide⟩ (putOf (branchOf 0) 1)

def secondTable : BranchOwnedTable := tableOf ⟨"second", by decide⟩ (putOf (branchOf 0) 2)

def holdingFirst : BranchLocalState := holding (branchOf 0) [firstTable] (by decide) (by decide)

def firstObject : TableObject :=
  ⟨branchOf 0, 0, utf8Bytes "first", Nat.zero_le _, by decide, by decide⟩

def secondObject : TableObject :=
  ⟨branchOf 0, 0, utf8Bytes "second", Nat.zero_le _, by decide, by decide⟩

/-- The first table is flushed. -/
def firstFlushed : List PublicationEvent :=
  [.create (branchOf 0) ⟨1, 1000⟩, .publishObject firstObject,
    .install (branchOf 0) 0 .flush [flushed firstTable firstObject] holdingFirst]

/-- The first table is rewritten to the second one. -/
def firstRewritten : List PublicationEvent :=
  [.publishObject secondObject, .install (branchOf 0) 1 .rewrite [flushed secondTable secondObject]
    (holding (branchOf 0) [secondTable] (by decide) (by decide))]

end Sample

end Strata
