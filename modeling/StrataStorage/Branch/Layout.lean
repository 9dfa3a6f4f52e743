import StrataStorage.Branch.Types

/-!
# Levels, inherited layers and read views

The levels of a branch's own tables and the layers it inherits, with the
validators of `branch/read.rs`. `BranchLayout` and `BranchInheritedLayer` hold
only what their validator accepted, so a `BranchReadView` is a view whose
nonzero levels are sorted and disjoint and whose layers were accepted:

* `validateOwnedLevels_eq_ok`: what accepted levels satisfy;
* `validateInheritedLayer_eq_ok`: what an accepted layer satisfies.
-/

namespace Strata

variable {tables : List BranchOwnedTable} {levels : List (List BranchOwnedTable)} {row : StorageRow}
  (table : BranchOwnedTable) {n : Nat} (left right : BranchOwnedTable)

/-! ## Physical key ranges of tables -/

namespace BranchOwnedTable

/-- The physical key a table's range begins with. -/
def firstPhysical (table : BranchOwnedTable) : Bytes :=
  tableInternalPhysicalKeyBytes table.facts.firstKey

/-- The physical key a table's range ends with. -/
def lastPhysical (table : BranchOwnedTable) : Bytes :=
  tableInternalPhysicalKeyBytes table.facts.lastKey

theorem firstPhysical_le (h : row ∈ table.rows) : table.firstPhysical ≤ row.physicalKeyBytes := by
  have := table.reader.containsPhysicalKey_of_mem h
  simp only [ImmutableTableReader.containsPhysicalKey, Bool.and_eq_true, decide_eq_true_eq] at this
  exact this.1

theorem le_lastPhysical (h : row ∈ table.rows) : row.physicalKeyBytes ≤ table.lastPhysical := by
  have := table.reader.containsPhysicalKey_of_mem h
  simp only [ImmutableTableReader.containsPhysicalKey, Bool.and_eq_true, decide_eq_true_eq] at this
  exact this.2

theorem firstPhysical_le_lastPhysical : table.firstPhysical ≤ table.lastPhysical := by
  obtain ⟨first, hfirst, -⟩ := table.reader.exists_first_last
  exact (table.firstPhysical_le hfirst).trans (table.le_lastPhysical hfirst)

end BranchOwnedTable

def tablePhysicalKeyBounds (table : BranchOwnedTable) : Option (Bytes × Bytes) :=
  if table.facts.firstKey = [] ∨ table.facts.lastKey = [] then none
  else some (table.firstPhysical, table.lastPhysical)

def tablePhysicalRangesOverlap : Bool :=
  match tablePhysicalKeyBounds left, tablePhysicalKeyBounds right with
  | some (leftFirst, leftLast), some (rightFirst, rightLast) =>
    decide (leftFirst ≤ rightLast) && decide (rightFirst ≤ leftLast)
  | _, _ => false

def requireTablePhysicalFirstKey (table : BranchOwnedTable) : Except BranchRuntimeError Bytes :=
  ((tablePhysicalKeyBounds table).map Prod.fst).okOr
    (.invalidBranchState "branch-owned table must contain at least one physical key")

theorem key_ne_nil (row : StorageRow) : row.key ≠ [] := by
  have := minimum_le_length_encodeInternalKey row.internalKey
  rintro h
  rw [StorageRow.key] at h
  simp [h, BranchId.byteLen] at this

@[simp] theorem tablePhysicalKeyBounds_eq :
    tablePhysicalKeyBounds table = some (table.firstPhysical, table.lastPhysical) := by
  obtain ⟨first, -, last, -, hfirst, hlast⟩ := table.reader.exists_first_last
  rw [tablePhysicalKeyBounds, if_neg]
  rw [BranchOwnedTable.facts, hfirst, hlast]
  simp [key_ne_nil]

@[simp] theorem tablePhysicalRangesOverlap_eq :
    tablePhysicalRangesOverlap left right = (decide (left.firstPhysical ≤ right.lastPhysical) &&
        decide (right.firstPhysical ≤ left.lastPhysical)) := by
  simp [tablePhysicalRangesOverlap]

@[simp] theorem requireTablePhysicalFirstKey_eq :
    requireTablePhysicalFirstKey table = .ok table.firstPhysical := by
  simp [requireTablePhysicalFirstKey, Option.okOr]

/-! ## Levels -/

def validateNonOverlappingTables : List BranchOwnedTable → Except BranchRuntimeError Unit
  | left :: right :: rest => do
    let leftFirst ← requireTablePhysicalFirstKey left
    let rightFirst ← requireTablePhysicalFirstKey right
    if decide (rightFirst < leftFirst) || tablePhysicalRangesOverlap left right then
      .error (.invalidBranchState "branch-owned nonzero levels must be sorted and non-overlapping by physical key range")
    else validateNonOverlappingTables (right :: rest)
  | _ => .ok ()

/-- `validate_owned_levels`, from level `levelIndex` on. -/
def validateOwnedLevelsFrom (levelIndex : Nat) : List (List BranchOwnedTable) → Except BranchRuntimeError Unit
  | [] => .ok ()
  | tables :: levels => do
    if 256 ≤ levelIndex then
      .error (.invalidBranchState "branch-owned table level index must fit in BranchLevel")
    else if !tables.all (·.level.toNat == levelIndex) then
      .error (.invalidBranchState "branch-owned table descriptor level must match level index")
    else if levelIndex ≠ 0 then
      validateNonOverlappingTables tables
      validateOwnedLevelsFrom (levelIndex + 1) levels
    else validateOwnedLevelsFrom (levelIndex + 1) levels

def validateOwnedLevels (levels : List (List BranchOwnedTable)) : Except BranchRuntimeError Unit :=
  validateOwnedLevelsFrom 0 levels

theorem validateOwnedLevels_nil : validateOwnedLevels [] = .ok () := rfl

/-- The tables of a level in ascending, disjoint physical key ranges. -/
def DisjointTables (tables : List BranchOwnedTable) : Prop :=
  tables.Pairwise fun a b => a.lastPhysical < b.firstPhysical

/-- Neighbours are in order and apart when the left one ends before the right
one begins. -/
theorem validateNonOverlappingTables_eq_ok_iff_isChain : validateNonOverlappingTables tables = .ok () ↔
      tables.IsChain fun a b => a.lastPhysical < b.firstPhysical := by
  induction tables with
  | nil => simp [validateNonOverlappingTables]
  | cons left tables ih =>
    cases tables with
    | nil => simp [validateNonOverlappingTables]
    | cons right rest =>
      rw [List.isChain_cons_cons, ← ih, validateNonOverlappingTables]
      simp only [requireTablePhysicalFirstKey_eq, Except.ok_bind, tablePhysicalRangesOverlap_eq,
        Bool.or_eq_true, Bool.and_eq_true, decide_eq_true_eq]
      have hl := left.firstPhysical_le_lastPhysical
      have hr := right.firstPhysical_le_lastPhysical
      constructor
      · intro h
        split at h
        · cases h
        · rename_i hno
          rw [not_or, not_and, not_lt, not_le] at hno
          exact ⟨hno.2 (hno.1.trans hr), h⟩
      · rintro ⟨hlt, h⟩
        rw [if_neg, h]
        rintro (h' | ⟨-, h'⟩)
        · exact absurd (hl.trans_lt hlt) (not_lt.mpr h'.le)
        · exact absurd hlt (not_lt.mpr h')

/-- Checking neighbours is enough. -/
theorem validateNonOverlappingTables_eq_ok :
    validateNonOverlappingTables tables = .ok () ↔ DisjointTables tables := by
  have : IsTrans BranchOwnedTable fun a b => a.lastPhysical < b.firstPhysical :=
    ⟨fun a b c hab hbc => (hab.trans_le b.firstPhysical_le_lastPhysical).trans hbc⟩
  rw [validateNonOverlappingTables_eq_ok_iff_isChain, List.isChain_iff_pairwise, DisjointTables]

/-- What the tables at `levelIndex` satisfy. -/
structure LevelValid (levelIndex : Nat) (tables : List BranchOwnedTable) : Prop where
  index_lt : levelIndex < 256
  level_eq : ∀ table ∈ tables, table.level.toNat = levelIndex
  disjoint : levelIndex ≠ 0 → DisjointTables tables

theorem validateOwnedLevelsFrom_cons : validateOwnedLevelsFrom n (tables :: levels) = .ok () ↔
      LevelValid n tables ∧ validateOwnedLevelsFrom (n + 1) levels = .ok () := by
  have hlevel : tables.all (·.level.toNat == n) = true ↔ ∀ t ∈ tables, t.level.toNat = n := by
    simp
  rw [validateOwnedLevelsFrom]
  split
  · exact ⟨(nomatch ·), fun h => absurd h.1.index_lt (by omega)⟩
  split
  · rename_i h
    refine ⟨(nomatch ·), fun h' => ?_⟩
    rw [Bool.not_eq_true', Bool.eq_false_iff, ne_eq, hlevel] at h
    exact absurd h'.1.level_eq h
  rename_i hlt hall
  replace hall := hlevel.mp (by simpa using hall)
  split
  · rw [Except.check_bind_eq_ok, validateNonOverlappingTables_eq_ok]
    exact ⟨fun h => ⟨⟨by omega, hall, fun _ => h.1⟩, h.2⟩, fun h => ⟨h.1.disjoint ‹_›, h.2⟩⟩
  · exact ⟨fun h => ⟨⟨by omega, hall, fun h' => absurd h' ‹_›⟩, h⟩, And.right⟩

theorem validateOwnedLevelsFrom_eq_ok : validateOwnedLevelsFrom n levels = .ok () ↔
      ∀ i tables, levels[i]? = some tables → LevelValid (n + i) tables := by
  induction levels generalizing n with
  | nil => simp [validateOwnedLevelsFrom]
  | cons tables levels ih =>
    rw [validateOwnedLevelsFrom_cons, ih]
    constructor
    · rintro ⟨h₀, h⟩ i t hi
      cases i with
      | zero => simp only [List.getElem?_cons_zero, Option.some.injEq] at hi; exact hi ▸ h₀
      | succ i => rw [Nat.add_comm i, ← Nat.add_assoc]; exact h i t (by simpa using hi)
    · intro h
      refine ⟨h 0 tables rfl, fun i t hi => ?_⟩
      have := h (i + 1) t (by simpa using hi)
      rwa [Nat.add_comm i, ← Nat.add_assoc] at this

/-- Accepted levels hold the tables of their own level, below level zero in
ascending and disjoint ranges. -/
theorem validateOwnedLevels_eq_ok : validateOwnedLevels levels = .ok () ↔
      ∀ i tables, levels[i]? = some tables → LevelValid i tables := by
  rw [validateOwnedLevels, validateOwnedLevelsFrom_eq_ok]
  simp

/-- A branch's own levels, as its validator accepts them. -/
structure BranchLayout where
  levels : List (List BranchOwnedTable)
  valid : validateOwnedLevels levels = .ok ()

/-! ## Inherited layers -/

inductive InheritedLayerStatus where
  | active
  | materializing
  | materialized
  | unavailable
  deriving DecidableEq

structure InheritedLayerDescriptor where
  sourceBranchId : BranchId
  forkVersion : CommitVersion
  status : InheritedLayerStatus
  tableCount : Nat
  deriving DecidableEq

variable (descriptor : InheritedLayerDescriptor)

def ownedTableCount (levels : List (List BranchOwnedTable)) : Nat := levels.flatten.length

def validateInheritedLayerUniqueTableIdentities (levels : List (List BranchOwnedTable)) :
    Except BranchRuntimeError Unit :=
  if (levels.flatten.map (·.facts.identity)).Nodup then .ok ()
  else .error (.invalidInheritedLayer "inherited layer tables must not contain duplicate table identities")

/-- The per-table checks of `BranchInheritedLayer::new`. -/
def validateInheritedTable (table : BranchOwnedTable) : Except BranchRuntimeError Unit :=
  if table.branchId ≠ descriptor.sourceBranchId then
    .error (.invalidInheritedLayer "inherited table branch id must match source branch")
  else if !keyRangeMatchesBranch table.facts.firstKey table.facts.lastKey descriptor.sourceBranchId then
    .error (.invalidInheritedLayer "inherited table rows must match source branch")
  else if descriptor.forkVersion < table.facts.commitMin then
    .error (.invalidInheritedLayer "inherited table has no rows at or before the fork version")
  else .ok ()

/-- The checks of `BranchInheritedLayer::new`, in a release build. -/
def validateInheritedLayer (levels : List (List BranchOwnedTable)) : Except BranchRuntimeError Unit := do
  if descriptor.tableCount ≠ ownedTableCount levels then
    .error (.invalidInheritedLayer "inherited layer table count must match descriptor")
  else
    validateOwnedLevels levels
    validateInheritedLayerUniqueTableIdentities levels
    levels.flatten.forM (validateInheritedTable descriptor)

/-- A layer a forked branch reads its source's tables through. -/
structure BranchInheritedLayer where
  descriptor : InheritedLayerDescriptor
  ownedLevels : List (List BranchOwnedTable)
  valid : validateInheritedLayer descriptor ownedLevels = .ok ()

namespace BranchInheritedLayer

def new (ownedLevels : List (List BranchOwnedTable)) : Except BranchRuntimeError BranchInheritedLayer :=
  match h : validateInheritedLayer descriptor ownedLevels with
  | .error e => .error e
  | .ok () => .ok ⟨descriptor, ownedLevels, h⟩

def sourceBranchId (layer : BranchInheritedLayer) : BranchId := layer.descriptor.sourceBranchId
def forkVersion (layer : BranchInheritedLayer) : CommitVersion := layer.descriptor.forkVersion
def status (layer : BranchInheritedLayer) : InheritedLayerStatus := layer.descriptor.status

def isReadable (layer : BranchInheritedLayer) : Bool :=
  layer.status = .active || layer.status = .materializing

/-- The rows of all the layer's tables, in level order. -/
def rows (layer : BranchInheritedLayer) : List StorageRow :=
  layer.ownedLevels.flatten.flatMap (·.rows)

end BranchInheritedLayer

/-- What an accepted layer satisfies. -/
structure LayerValid (descriptor : InheritedLayerDescriptor)
    (levels : List (List BranchOwnedTable)) : Prop where
  tableCount_eq : descriptor.tableCount = levels.flatten.length
  levels_valid : validateOwnedLevels levels = .ok ()
  identities_nodup : (levels.flatten.map (·.facts.identity)).Nodup
  branchId_eq : ∀ table ∈ levels.flatten, table.branchId = descriptor.sourceBranchId
  commitMin_le : ∀ table ∈ levels.flatten, table.facts.commitMin ≤ descriptor.forkVersion

variable {descriptor : InheritedLayerDescriptor} (layer : BranchInheritedLayer)

theorem validateInheritedTable_eq_ok {table : BranchOwnedTable} :
    validateInheritedTable descriptor table = .ok () ↔ table.branchId = descriptor.sourceBranchId ∧
        table.facts.commitMin ≤ descriptor.forkVersion := by
  unfold validateInheritedTable
  split
  · rename_i h
    exact ⟨(nomatch ·), fun h' => absurd h'.1 h⟩
  rename_i hbranch
  rw [ne_eq, not_not] at hbranch
  have hrange : keyRangeMatchesBranch table.facts.firstKey table.facts.lastKey
      descriptor.sourceBranchId = true := hbranch ▸ table.range_matches
  simp only [hrange, Bool.not_true, Bool.false_eq_true, ↓reduceIte, hbranch, true_and]
  split_ifs with h
  · exact ⟨(nomatch ·), fun h' => absurd h (not_lt.mpr h')⟩
  · exact ⟨fun _ => not_lt.mp h, fun _ => rfl⟩

theorem validateInheritedLayer_eq_ok :
    validateInheritedLayer descriptor levels = .ok () ↔ LayerValid descriptor levels := by
  have hident : validateInheritedLayerUniqueTableIdentities levels = .ok () ↔
      (levels.flatten.map (·.facts.identity)).Nodup := by
    unfold validateInheritedLayerUniqueTableIdentities
    split <;> simp_all
  unfold validateInheritedLayer ownedTableCount
  split_ifs with h
  · exact ⟨(nomatch ·), fun h' => absurd h'.tableCount_eq h⟩
  · rw [Except.check_bind_eq_ok, Except.check_bind_eq_ok, hident, Except.forM_eq_ok]
    simp only [validateInheritedTable_eq_ok]
    exact ⟨fun ⟨h₁, h₂, h₃⟩ => ⟨not_not.mp h, h₁, h₂, fun t ht => (h₃ t ht).1,
      fun t ht => (h₃ t ht).2⟩, fun h' => ⟨h'.levels_valid, h'.identities_nodup,
      fun t ht => ⟨h'.branchId_eq t ht, h'.commitMin_le t ht⟩⟩⟩

theorem BranchInheritedLayer.layerValid :
    LayerValid layer.descriptor layer.ownedLevels := validateInheritedLayer_eq_ok.mp layer.valid

/-- The rows of a layer are rows of its source branch. -/
theorem BranchInheritedLayer.branchId_eq
    (h : row ∈ layer.rows) : row.physicalKey.branchId = layer.sourceBranchId := by
  obtain ⟨table, htable, hrow⟩ := List.mem_flatMap.mp h
  rw [table.branchId_eq hrow, layer.layerValid.branchId_eq table htable]; rfl

/-! ## Read views -/

/-- `BranchReadView`, as far as a read uses it. That no layer comes from the
branch itself is checked when layers are attached and when a view is made. -/
structure BranchReadView where
  branchId : BranchId
  active : MutableTable
  frozen : List FrozenTable
  layout : BranchLayout
  inheritedLayers : List BranchInheritedLayer
  timestampCoverage : BranchTimestampCoverage
  sources_differ : ∀ layer ∈ inheritedLayers, layer.sourceBranchId ≠ branchId

end Strata
