import StrataStorage.Branch.State
import StrataStorage.Format.TableManifest

/-!
# The durable table catalog

`LifecycleDurableTableCatalog` of `lifecycle/table_manifest.rs`: the tables that
durable objects back, by identity and by object, the next manifest sequence, the flag
of tables no manifest lists yet, and the object names the last manifest of each branch
and the one on its way may list. A manifest of a branch is built from the catalog, one
record a table.

* `buildManifestWithSequence_lists`: a manifest lists exactly the tables of its branch,
  with the objects the catalog has for them.
-/

namespace Strata

open Except List Function

inductive LifecycleError where
  | tableManifestPublicationFailed (reason : String)
  | tableManifestFormat (source : FormatError)
  | rewriteOutputRacedSweep (object : TableObject)
  deriving DecidableEq

def formatError {α : Type} (result : Except FormatError α) : Except LifecycleError α :=
  result.mapError .tableManifestFormat

/-! ## The summary of a table -/

structure TableSummaryExtras where
  timestampMin : Option Timestamp
  timestampMax : Option Timestamp
  physicalKeyMin : Bytes
  physicalKeyMax : Bytes
  putRows : Nat
  tombstoneRows : Nat
  deriving DecidableEq

/-- `TableSummaryExtras::from_rows`; `first` is the first of the rows. -/
def TableSummaryExtras.fromRows (first : StorageRow) (rows : List StorageRow) : TableSummaryExtras where
  timestampMin := some (rows.foldl (fun low row => min low row.commitTimestamp) first.commitTimestamp)
  timestampMax := some (rows.foldl (fun high row => max high row.commitTimestamp) first.commitTimestamp)
  physicalKeyMin := rows.foldl (fun low row => min low row.physicalKeyBytes) first.physicalKeyBytes
  physicalKeyMax := rows.foldl (fun high row => max high row.physicalKeyBytes) first.physicalKeyBytes
  putRows := (rows.filter (!·.isTombstone)).length
  tombstoneRows := (rows.filter (·.isTombstone)).length

/-- The summary of a table, whose rows are never none. -/
def BranchOwnedTable.extras (table : BranchOwnedTable) : TableSummaryExtras :=
  match table.rows with
  | first :: rows => .fromRows first (first :: rows)
  | [] => ⟨none, none, [], [], 0, 0⟩

/-! ## The catalog -/

structure TableObjectFacts where
  object : TableObject
  byteCount : Nat
  rowCount : Nat
  dataBlockCount : Nat
  commitMin : CommitVersion
  commitMax : CommitVersion
  deriving DecidableEq

def TableObjectFacts.fromTableManifestRef (ref : TableManifestTableRef) : TableObjectFacts where
  object := ref.object
  byteCount := ref.facts.byteCount.toNat
  rowCount := ref.facts.rowCount.toNat
  dataBlockCount := ref.facts.dataBlockCount.toNat
  commitMin := ref.facts.commitMin
  commitMax := ref.facts.commitMax

structure LifecycleDurableTableCatalogEntry where
  identity : TableIdentity
  objectFacts : TableObjectFacts
  provenance : TableManifestTableProvenance
  deriving DecidableEq

structure LifecycleDurableTableCatalog where
  entries : TableIdentity → Option LifecycleDurableTableCatalogEntry
  objects : TableObject → Option TableIdentity
  nextManifestSequence : Nat
  manifestPublishPending : Bool
  confirmedFrontiers : BranchId → List TableObject
  pendingPublications : BranchId → List TableObject

namespace LifecycleDurableTableCatalog

def new : LifecycleDurableTableCatalog where
  entries _ := none
  objects _ := none
  nextManifestSequence := 1
  manifestPublishPending := false
  confirmedFrontiers _ := []
  pendingPublications _ := []

variable (catalog : LifecycleDurableTableCatalog)

/-- `record_table_with_provenance`. -/
def recordTable (entry : LifecycleDurableTableCatalogEntry) : Except LifecycleError LifecycleDurableTableCatalog :=
  match catalog.entries entry.identity with
  | some existing =>
    if existing = entry then .ok catalog
    else .error (.tableManifestPublicationFailed "table identity has conflicting durable object facts")
  | none =>
    if (catalog.objects entry.objectFacts.object).any (· ≠ entry.identity) then
      .error (.tableManifestPublicationFailed "table object has conflicting durable table identity")
    else .ok
      { catalog with
        entries := Function.update catalog.entries entry.identity (some entry)
        objects := Function.update catalog.objects entry.objectFacts.object (some entry.identity)
        manifestPublishPending := true }

def setSequence (sequence : Nat) : LifecycleDurableTableCatalog :=
  { catalog with nextManifestSequence := sequence }

def reserveManifestSequence : Except LifecycleError (Nat × LifecycleDurableTableCatalog) :=
  if catalog.nextManifestSequence + 1 < 2 ^ 64 then
    .ok (catalog.nextManifestSequence, catalog.setSequence (catalog.nextManifestSequence + 1))
  else .error (.tableManifestPublicationFailed "table manifest sequence overflow")

def advanceConfirmedFrontier (branchId : BranchId) (names : List TableObject) :
    LifecycleDurableTableCatalog :=
  { catalog with
    confirmedFrontiers := Function.update catalog.confirmedFrontiers branchId names
    pendingPublications := Function.update catalog.pendingPublications branchId [] }

def recordPendingPublication (branchId : BranchId) (names : List TableObject) :
    LifecycleDurableTableCatalog :=
  { catalog with
    pendingPublications := Function.update catalog.pendingPublications branchId names }

def clearBranchFrontier (branchId : BranchId) : LifecycleDurableTableCatalog :=
  { catalog with
    confirmedFrontiers := Function.update catalog.confirmedFrontiers branchId []
    pendingPublications := Function.update catalog.pendingPublications branchId [] }

def confirmReservedManifestPublished (branchId : BranchId) (names : List TableObject) :
    LifecycleDurableTableCatalog :=
  { catalog with manifestPublishPending := false }.advanceConfirmedFrontier branchId names

def recordManifestTables (refs : List TableManifestTableRef) :
    Except LifecycleError LifecycleDurableTableCatalog :=
  refs.foldlM (fun catalog ref => catalog.recordTable
    ⟨ref.tableIdentity, .fromTableManifestRef ref, ref.provenance⟩) catalog

def recordManifest (manifest : TableManifest) : Except LifecycleError LifecycleDurableTableCatalog := do
  .require (catalog.nextManifestSequence ≤ manifest.manifestSequence.toNat)
    (.tableManifestPublicationFailed "table manifest sequence regresses below catalog state")
  let catalog ← catalog.recordManifestTables manifest.tableRefs
  .require (manifest.manifestSequence.toNat + 1 < 2 ^ 64)
    (.tableManifestPublicationFailed "table manifest sequence overflow")
  let catalog := catalog.setSequence (manifest.manifestSequence.toNat + 1)
  .ok ({ catalog with manifestPublishPending := false }.advanceConfirmedFrontier
    manifest.branchId manifest.objectNames)

def objectForIdentity (identity : TableIdentity) : Option TableObject :=
  (catalog.entries identity).map (·.objectFacts.object)

def hasOutstandingManifestDebt : Bool := catalog.manifestPublishPending

def entryFor (identity : TableIdentity) : Except LifecycleError LifecycleDurableTableCatalogEntry :=
  (catalog.entries identity).okOr (.tableManifestPublicationFailed
    "branch table state contains volatile rewrite output without durable catalog entry")

end LifecycleDurableTableCatalog

/-! ## Building a manifest -/

def validateCatalogEntryMatchesTable (entry : LifecycleDurableTableCatalogEntry)
    (facts : TableRuntimeFacts) : Except LifecycleError Unit :=
  .require (entry.identity = facts.identity ∧ entry.objectFacts.byteCount = facts.byteCount ∧
    entry.objectFacts.rowCount = facts.rowCount ∧
    entry.objectFacts.dataBlockCount = facts.dataBlockCount ∧
    entry.objectFacts.commitMin = facts.commitMin ∧ entry.objectFacts.commitMax = facts.commitMax)
    (.tableManifestPublicationFailed "catalog table object facts do not match reachable table")

def manifestTableProvenance (table : BranchOwnedTable) (entry : LifecycleDurableTableCatalogEntry) :
    Except LifecycleError TableManifestTableProvenance :=
  match table.materializationSource with
  | some source => formatError (TableManifestTableProvenance.newMaterializationReplacement source.sourceBranchId
        source.forkVersion)
  | none => .ok entry.provenance

namespace LifecycleDurableTableCatalog

variable (catalog : LifecycleDurableTableCatalog)

/-- `table_ref_from_branch_table`. -/
def tableRef (order : Nat) (table : BranchOwnedTable) : Except LifecycleError TableManifestTableRef := do
  let entry ← catalog.entryFor table.facts.identity
  validateCatalogEntryMatchesTable entry table.facts
  let facts ← formatError (TableManifestTableFacts.new (.ofNat table.facts.byteCount)
    (.ofNat table.facts.rowCount) (.ofNat table.facts.dataBlockCount) table.facts.commitMin
    table.facts.commitMax table.extras.timestampMin table.extras.timestampMax)
  let bounds ← formatError (TableManifestTableBounds.new table.extras.physicalKeyMin
    table.extras.physicalKeyMax table.facts.firstKey table.facts.lastKey)
  .require (order < 2 ^ 32) (.tableManifestPublicationFailed "table order does not fit table manifest")
  let provenance ← manifestTableProvenance table entry
  .ok ⟨table.facts.identity, entry.objectFacts.object, order, facts, bounds, provenance⟩

/-- The inner loop of `manifest_levels_from_owned`. -/
def tableRefsFrom (order : Nat) : List BranchOwnedTable → Except LifecycleError (List TableManifestTableRef)
  | [] => .ok []
  | table :: tables => do
    let ref ← catalog.tableRef order table
    let refs ← tableRefsFrom (order + 1) tables
    .ok (ref :: refs)

/-- The loop of `manifest_levels_from_owned`; empty levels are left out. -/
def manifestLevelsFrom (levelIndex : Nat) :
    List (List BranchOwnedTable) → Except LifecycleError (List TableManifestLevel)
  | [] => .ok []
  | [] :: levels => manifestLevelsFrom (levelIndex + 1) levels
  | (table :: tables) :: levels => do
    .require (levelIndex < 256) (.tableManifestPublicationFailed
      "branch level index does not fit table manifest level")
    let refs ← catalog.tableRefsFrom 0 (table :: tables)
    let level ← formatError (TableManifestLevel.new (.ofNat levelIndex) refs)
    let rest ← manifestLevelsFrom (levelIndex + 1) levels
    .ok (level :: rest)

def manifestLevelsFromOwned (levels : List (List BranchOwnedTable)) :
    Except LifecycleError (List TableManifestLevel) := catalog.manifestLevelsFrom 0 levels

/-- The loop of `manifest_inherited_layers`. -/
def manifestInheritedLayersFrom (order : Nat) :
    List BranchInheritedLayer → Except LifecycleError (List TableManifestInheritedLayer)
  | [] => .ok []
  | layer :: layers => do
    let levels ← catalog.manifestLevelsFromOwned layer.ownedLevels
    .require (order < 2 ^ 32) (.tableManifestPublicationFailed "inherited layer order does not fit table manifest")
    let manifestLayer ← formatError (TableManifestInheritedLayer.new order layer.sourceBranchId
      none layer.descriptor.forkVersion layer.status levels)
    let rest ← manifestInheritedLayersFrom (order + 1) layers
    .ok (manifestLayer :: rest)

end LifecycleDurableTableCatalog

/-! ## Extensions of a manifest -/

structure TableRowSplit where
  putRows : UInt64
  tombstoneRows : UInt64
  deriving DecidableEq

def encodeTableRowSplitExtensionPayload (splits : List TableRowSplit) : Except FormatError Bytes := do
  .require (splits ≠ [] ∧ splits.length ≤ maxTotalTables) (.invalidLength "table_row_split_count")
  .ok (splits.flatMap fun split => leBytes 8 split.putRows.toNat ++ leBytes 8 split.tombstoneRows.toNat)

def tableRowSplitExtensionSection (splits : List TableRowSplit) :
    Except FormatError TableManifestExtensionSection := do
  TableManifestExtensionSection.optional "storage.table_row_split" true
    (← encodeTableRowSplitExtensionPayload splits)

structure RetainedHistoryFacts where
  retainedVersionFloor : CommitVersion
  retainedTimestampFloor : Option Timestamp
  deriving DecidableEq

namespace RetainedHistoryFacts

def fromTimestampCoverage (coverage : BranchTimestampCoverage)
    (retainedVersionFloor : CommitVersion) : Option RetainedHistoryFacts :=
  match coverage with
  | .completeSince earliest => some ⟨retainedVersionFloor, some earliest⟩
  | .complete | .unknown => none

/-- `encode_retained_history_extension_payload`. -/
def encode (facts : RetainedHistoryFacts) : Bytes :=
  leBytes 8 facts.retainedVersionFloor.toNat ++ (match facts.retainedTimestampFloor with
      | some timestamp => 1 :: leBytes 8 timestamp.toNat
      | none => 0 :: leBytes 8 0) ++ List.replicate 7 0

def toExtensionSection (facts : RetainedHistoryFacts) : Except FormatError TableManifestExtensionSection :=
  TableManifestExtensionSection.optional "storage.retained_history" true facts.encode

end RetainedHistoryFacts

/-! ## Manifests of a branch -/

namespace BranchLocalState

variable (branch : BranchLocalState)

/-- The tables a branch owns. -/
def ownedTables : List BranchOwnedTable := branch.layout.levels.flatten

/-- The tables of its inherited layers. -/
def inheritedTables : List BranchOwnedTable :=
  branch.inheritedLayers.flatMap (·.ownedLevels.flatten)

/-- The tables of a branch, in the order a manifest lists them. -/
def tables : List BranchOwnedTable := branch.ownedTables ++ branch.inheritedTables

end BranchLocalState

/-- The split of a table. -/
def BranchOwnedTable.rowSplit (table : BranchOwnedTable) : TableRowSplit :=
  ⟨.ofNat table.extras.putRows, .ofNat table.extras.tombstoneRows⟩

/-- The extension sections of a manifest, sorted by kind. -/
def manifestExtensions (branch : BranchLocalState) :
    Except LifecycleError (List TableManifestExtensionSection) := do
  let retained ← match RetainedHistoryFacts.fromTimestampCoverage branch.timestampCoverage
      (branch.maxCommitVersion.getD 0) with
    | some facts => (formatError facts.toExtensionSection).map ([·])
    | none => .ok []
  if branch.tables = [] then .ok retained
  else
    let splits ← formatError (tableRowSplitExtensionSection (branch.tables.map (·.rowSplit)))
    .ok (retained ++ [splits])

def LifecycleDurableTableCatalog.buildManifestWithSequence
    (catalog : LifecycleDurableTableCatalog) (branch : BranchLocalState) (sequence : Nat) :
    Except LifecycleError TableManifest := do
  let levels ← catalog.manifestLevelsFromOwned branch.layout.levels
  let inheritedLayers ← catalog.manifestInheritedLayersFrom 0 branch.inheritedLayers
  let extensions ← manifestExtensions branch
  formatError (TableManifest.new ⟨branch.branchId, none, .ofNat sequence, levels, inheritedLayers, extensions⟩)

/-! ## What a manifest lists -/

/-- A record of a manifest is about a table, and names the object the catalog has for
it. -/
def LifecycleDurableTableCatalog.Lists (catalog : LifecycleDurableTableCatalog)
    (table : BranchOwnedTable) (ref : TableManifestTableRef) : Prop :=
  ref.tableIdentity = table.facts.identity ∧ catalog.objectForIdentity table.facts.identity = some ref.object

namespace LifecycleDurableTableCatalog

variable {catalog : LifecycleDurableTableCatalog}
variable {order : Nat} {ref : TableManifestTableRef} {refs : List TableManifestTableRef}
  {entry : LifecycleDurableTableCatalogEntry}
variable {branch : BranchLocalState} {sequence : Nat} {manifest : TableManifest}
  {catalog' : LifecycleDurableTableCatalog} {table : BranchOwnedTable}

theorem formatError_eq_ok {α : Type} {result : Except FormatError α} {a : α} :
    formatError result = .ok a ↔ result = .ok a := mapError_eq_ok

theorem forall₂_exists_right {α β : Type} {R : α → β → Prop} {as : List α} {bs : List β} {a : α}
    (h : List.Forall₂ R as bs) (hmem : a ∈ as) : ∃ b ∈ bs, R a b := by
  induction h with
  | nil => cases hmem
  | cons hab _ ih =>
    rcases mem_cons.1 hmem with rfl | hmem
    · exact ⟨_, mem_cons_self, hab⟩
    · obtain ⟨b, hb, hR⟩ := ih hmem
      exact ⟨b, mem_cons_of_mem _ hb, hR⟩

theorem tableRef_lists (h : catalog.tableRef order table = .ok ref) : catalog.Lists table ref := by
  obtain ⟨entry, hentry, h⟩ := bind_eq_ok.1 h
  obtain ⟨-, h⟩ := check_bind_eq_ok.1 h
  obtain ⟨facts, -, h⟩ := bind_eq_ok.1 h
  obtain ⟨bounds, -, h⟩ := bind_eq_ok.1 h
  obtain ⟨-, h⟩ := check_bind_eq_ok.1 h
  obtain ⟨provenance, -, h⟩ := bind_eq_ok.1 h
  cases h
  have hfound : catalog.entries table.facts.identity = some entry := by
    unfold entryFor at hentry
    cases hfound : catalog.entries table.facts.identity with
    | none => rw [hfound] at hentry; cases hentry
    | some found => rw [hfound] at hentry; cases hentry; rfl
  exact ⟨rfl, by simp [objectForIdentity, hfound]⟩

theorem tableRefsFrom_lists {tables : List BranchOwnedTable} (h : catalog.tableRefsFrom order tables = .ok refs) :
    List.Forall₂ catalog.Lists tables refs := by
  induction tables generalizing order refs with
  | nil => cases h; exact .nil
  | cons table tables ih =>
    obtain ⟨ref, href, h⟩ := bind_eq_ok.1 h
    obtain ⟨rest, hrest, h⟩ := bind_eq_ok.1 h
    cases h
    exact .cons (tableRef_lists href) (ih hrest)

theorem canonicalizeLevelTables_perm (level : BranchLevel) (tables : List TableManifestTableRef) :
    (canonicalizeLevelTables level tables).Perm tables := by
  unfold canonicalizeLevelTables
  split <;> exact perm_insertionSort _ _

theorem new_tables {level : BranchLevel} {tables : List TableManifestTableRef}
    {manifestLevel : TableManifestLevel} (h : TableManifestLevel.new level tables = .ok manifestLevel) :
    manifestLevel.tables.Perm tables := by
  unfold TableManifestLevel.new TableManifestLevel.fromParts at h
  split at h
  · cases h
  · cases h
    exact canonicalizeLevelTables_perm level tables

theorem manifestLevelsFrom_lists {levelIndex : Nat} {levels : List (List BranchOwnedTable)}
    {manifestLevels : List TableManifestLevel}
    (h : catalog.manifestLevelsFrom levelIndex levels = .ok manifestLevels) :
    ∃ refs, List.Forall₂ catalog.Lists levels.flatten refs ∧ (manifestLevels.flatMap (·.tables)).Perm refs := by
  induction levels generalizing levelIndex manifestLevels with
  | nil => cases h; exact ⟨[], .nil, .refl _⟩
  | cons tables levels ih =>
    cases tables with
    | nil => exact ih h
    | cons table tables =>
      obtain ⟨-, h⟩ := check_bind_eq_ok.1 h
      obtain ⟨refs, hrefs, h⟩ := bind_eq_ok.1 h
      obtain ⟨level, hlevel, h⟩ := bind_eq_ok.1 h
      obtain ⟨rest, hrest, h⟩ := bind_eq_ok.1 h
      cases h
      obtain ⟨others, hothers, hperm⟩ := ih hrest
      refine ⟨refs ++ others, rel_append (tableRefsFrom_lists hrefs) hothers, ?_⟩
      exact (new_tables (formatError_eq_ok.1 hlevel)).append hperm

theorem newLayer_tables {sourceBranchId : BranchId} {sourceBranchGeneration : Option UInt64}
    {forkVersion : CommitVersion} {status : InheritedLayerStatus} {levels : List TableManifestLevel}
    {layer : TableManifestInheritedLayer} (h : TableManifestInheritedLayer.new order sourceBranchId
      sourceBranchGeneration forkVersion status levels = .ok layer) :
    (layer.levels.flatMap (·.tables)).Perm (levels.flatMap (·.tables)) := by
  obtain ⟨-, -, -, -, -, hlevels⟩ := TableManifestInheritedLayer.fromParts_levels h
  rw [hlevels]
  exact (perm_insertionSort _ _).flatMap_right _

theorem manifestInheritedLayersFrom_lists {layers : List BranchInheritedLayer}
    {manifestLayers : List TableManifestInheritedLayer}
    (h : catalog.manifestInheritedLayersFrom order layers = .ok manifestLayers) :
    ∃ refs, List.Forall₂ catalog.Lists (layers.flatMap (·.ownedLevels.flatten)) refs ∧
      (manifestLayers.flatMap fun layer => layer.levels.flatMap (·.tables)).Perm refs := by
  induction layers generalizing order manifestLayers with
  | nil => cases h; exact ⟨[], .nil, .refl _⟩
  | cons layer layers ih =>
    obtain ⟨levels, hlevels, h⟩ := bind_eq_ok.1 h
    obtain ⟨-, h⟩ := check_bind_eq_ok.1 h
    obtain ⟨manifestLayer, hlayer, h⟩ := bind_eq_ok.1 h
    obtain ⟨rest, hrest, h⟩ := bind_eq_ok.1 h
    cases h
    obtain ⟨refs, hrefs, hperm⟩ := manifestLevelsFrom_lists hlevels
    obtain ⟨others, hothers, hperm'⟩ := ih hrest
    refine ⟨refs ++ others, rel_append hrefs hothers, ?_⟩
    exact ((newLayer_tables (formatError_eq_ok.1 hlayer)).trans hperm).append hperm'

section

variable (h : catalog.buildManifestWithSequence branch sequence = .ok manifest)
include h

/-- A manifest lists exactly the tables of its branch. -/
theorem buildManifestWithSequence_lists :
    ∃ refs, List.Forall₂ catalog.Lists branch.tables refs ∧ manifest.tableRefs.Perm refs := by
  obtain ⟨levels, hlevels, h⟩ := bind_eq_ok.1 h
  obtain ⟨layers, hlayers, h⟩ := bind_eq_ok.1 h
  obtain ⟨extensions, -, h⟩ := bind_eq_ok.1 h
  have hparts := TableManifest.new_eq_ok (formatError_eq_ok.1 h)
  obtain ⟨refs, hrefs, hperm⟩ := manifestLevelsFrom_lists hlevels
  obtain ⟨others, hothers, hperm'⟩ := manifestInheritedLayersFrom_lists hlayers
  refine ⟨refs ++ others, rel_append hrefs hothers, ?_⟩
  rw [TableManifest.tableRefs, hparts]
  exact (((perm_insertionSort _ _).flatMap_right _).trans hperm).append
    (((perm_insertionSort _ _).flatMap_right _).trans hperm')

theorem exists_ref_of_build
    (hmem : table ∈ branch.tables) : ∃ ref ∈ manifest.tableRefs, catalog.Lists table ref := by
  obtain ⟨refs, hlists, hperm⟩ := buildManifestWithSequence_lists h
  obtain ⟨ref, href, hlisted⟩ := forall₂_exists_right hlists hmem
  exact ⟨ref, hperm.mem_iff.2 href, hlisted⟩

theorem exists_table_of_build
    (hmem : ref ∈ manifest.tableRefs) : ∃ table ∈ branch.tables, catalog.Lists table ref := by
  obtain ⟨refs, hlists, hperm⟩ := buildManifestWithSequence_lists h
  exact forall₂_exists_right hlists.flip (hperm.mem_iff.1 hmem)

theorem buildManifestWithSequence_branchId : manifest.branchId = branch.branchId := by
  obtain ⟨levels, -, h⟩ := bind_eq_ok.1 h
  obtain ⟨layers, -, h⟩ := bind_eq_ok.1 h
  obtain ⟨extensions, -, h⟩ := bind_eq_ok.1 h
  rw [TableManifest.new_eq_ok (formatError_eq_ok.1 h)]
  rfl

end

/-! ## What a record changes -/

/-- What recording tables may do to a catalog: entries stay, new ones are among those
recorded, and a new one sets the flag. -/
structure Grows (recorded : List LifecycleDurableTableCatalogEntry)
    (catalog catalog' : LifecycleDurableTableCatalog) : Prop where
  confirmed_eq : catalog'.confirmedFrontiers = catalog.confirmedFrontiers
  pending_eq : catalog'.pendingPublications = catalog.pendingPublications
  kept : ∀ {identity entry}, catalog.entries identity = some entry → catalog'.entries identity = some entry
  added : ∀ {identity entry}, catalog'.entries identity = some entry → catalog.entries identity = some entry ∨
      catalog.entries identity = none ∧ entry.identity = identity ∧ entry ∈ recorded
  flag : catalog'.entries = catalog.entries ∧ catalog'.manifestPublishPending = catalog.manifestPublishPending ∨
    catalog'.manifestPublishPending = true

theorem Grows.refl (recorded : List LifecycleDurableTableCatalogEntry)
    (catalog : LifecycleDurableTableCatalog) : Grows recorded catalog catalog :=
  ⟨rfl, rfl, id, .inl, .inl ⟨rfl, rfl⟩⟩

theorem Grows.trans {first second : List LifecycleDurableTableCatalogEntry}
    {a b c : LifecycleDurableTableCatalog} (hab : Grows first a b) (hbc : Grows second b c) :
    Grows (first ++ second) a c where
  confirmed_eq := hbc.confirmed_eq.trans hab.confirmed_eq
  pending_eq := hbc.pending_eq.trans hab.pending_eq
  kept h := hbc.kept (hab.kept h)
  added {identity entry} h := by
    rcases hbc.added h with hb | ⟨hb, hidentity, hmem⟩
    · exact (hab.added hb).imp_right fun ⟨ha, hid, hm⟩ => ⟨ha, hid, mem_append_left _ hm⟩
    · refine .inr ⟨?_, hidentity, mem_append_right _ hmem⟩
      cases ha : a.entries identity with
      | none => rfl
      | some old => rw [hab.kept ha] at hb; cases hb
  flag := by
    rcases hbc.flag with ⟨he, hf⟩ | hf
    · rcases hab.flag with ⟨he', hf'⟩ | hf'
      · exact .inl ⟨he.trans he', hf.trans hf'⟩
      · exact .inr (hf.trans hf')
    · exact .inr hf

theorem recordTable_grows (h : catalog.recordTable entry = .ok catalog') : Grows [entry] catalog catalog' := by
  unfold recordTable at h
  split at h
  · split at h
    · cases h
      exact .refl _ _
    · cases h
  · rename_i hnew
    split at h
    · cases h
    · cases h
      refine ⟨rfl, rfl, fun {identity _} hold => ?_, fun {identity _} hget => ?_, .inr rfl⟩
      · have hne : identity ≠ entry.identity := by
          rintro rfl
          rw [hnew] at hold
          cases hold
        exact (update_of_ne hne _ _).trans hold
      · by_cases heq : identity = entry.identity
        · subst heq
          cases (update_self ..).symm.trans hget
          exact .inr ⟨hnew, rfl, mem_singleton_self _⟩
        · exact .inl ((update_of_ne heq _ _).symm.trans hget)

/-- Recording a table that is known changes nothing. -/
theorem recordTable_known {existing : LifecycleDurableTableCatalogEntry}
    (hknown : catalog.entries entry.identity = some existing)
    (h : catalog.recordTable entry = .ok catalog') : catalog' = catalog := by
  unfold recordTable at h
  rw [hknown] at h
  dsimp only at h
  split at h
  · cases h
    rfl
  · cases h

theorem recordManifestTables_known (hknown : ∀ ref ∈ refs, (catalog.entries ref.tableIdentity).isSome)
    (h : catalog.recordManifestTables refs = .ok catalog') : catalog' = catalog := by
  induction refs with
  | nil => cases h; rfl
  | cons ref refs ih =>
    obtain ⟨next, hnext, h⟩ := bind_eq_ok.1 h
    obtain ⟨existing, hexisting⟩ := Option.isSome_iff_exists.1 (hknown ref mem_cons_self)
    rw [recordTable_known hexisting hnext] at h
    exact ih (fun ref hmem => hknown ref (mem_cons_of_mem _ hmem)) h

/-- A manifest built from the catalog is recorded by its frontier alone. -/
theorem recordManifest_of_build (hbuild : catalog.buildManifestWithSequence branch sequence = .ok manifest)
    (h : catalog.recordManifest manifest = .ok catalog') :
    catalog' = (catalog.setSequence (manifest.manifestSequence.toNat + 1)
      ).confirmReservedManifestPublished manifest.branchId manifest.objectNames := by
  obtain ⟨-, h⟩ := check_bind_eq_ok.1 h
  obtain ⟨same, hsame, h⟩ := bind_eq_ok.1 h
  obtain ⟨-, h⟩ := check_bind_eq_ok.1 h
  cases h
  have hknown : ∀ ref ∈ manifest.tableRefs, (catalog.entries ref.tableIdentity).isSome := by
    intro ref hmem
    obtain ⟨table, -, hid, hobject⟩ := exists_table_of_build hbuild hmem
    obtain ⟨entry, hentry, -⟩ := Option.map_eq_some_iff.1 hobject
    rw [hid, hentry]
    rfl
  rw [recordManifestTables_known hknown hsame]
  rfl

end LifecycleDurableTableCatalog

end Strata
