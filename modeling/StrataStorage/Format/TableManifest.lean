import Mathlib.Data.List.Sort
import StrataStorage.Branch.Layout
import Mathlib.Data.List.Infix

/-!
# Table manifests

The types of `format/table_manifest.rs`: a manifest lists the tables of a branch,
level by level, then those of the layers it inherits, and carries extension
sections. Every part is built by a constructor that sorts and validates, and holds,
as a field, that its validator accepted it.

* `validateLevelTables_canonical`: the checks skipped after a sort follow from the
  others;
* `TableManifest.tableRefs`: the tables of a manifest, in the order it encodes them.
-/

namespace Strata

open Except List

variable {canonicalized : Bool}

/-! ## Names of table objects -/

def maxObjectNameBytes : Nat := 1024

def maxTableLevel : Nat := 9999

/-- `is_valid_object_byte`, apart from the separator. -/
def isValidObjectByte (byte : UInt8) : Bool :=
  (0x61 ≤ byte && byte ≤ 0x7A) || (0x41 ≤ byte && byte ≤ 0x5A) || (0x30 ≤ byte && byte ≤ 0x39) ||
    byte = 0x2E || byte = 0x2D || byte = 0x5F

/-- `validate_component`, of a component that is no traversal. -/
def isObjectComponent (text : Bytes) : Bool :=
  text ≠ [] && text.all isValidObjectByte && text ≠ [0x2E] && text ≠ [0x2E, 0x2E]

/-- The hexadecimal digit of a value below 16. -/
def hexDigit (n : Nat) : UInt8 := UInt8.ofNat (if n < 10 then 0x30 + n else 0x57 + n)

/-- `Display` of a `BranchId`. -/
def BranchId.text (branchId : BranchId) : Bytes :=
  (branchId.bytes.mapIdx fun index byte => (if index ∈ [4, 6, 8, 10] then [0x2D] else []) ++
      [hexDigit (byte.toNat / 16), hexDigit (byte.toNat % 16)]).flatten

/-- `level_component`, of a level up to `MAX_TABLE_LEVEL`. -/
def levelComponent (level : Nat) : Bytes :=
  0x6C :: [level / 1000, level / 100 % 10, level / 10 % 10, level % 10].map hexDigit

/-- The text of a table data object. -/
def tableObjectText (branchId : BranchId) (level : Nat) (tableId : Bytes) : Bytes :=
  utf8Bytes "tables" ++ [0x2F] ++ branchId.text ++ [0x2F] ++ levelComponent level ++ [0x2F] ++ tableId

/-- An object that `classify_table_object` takes for table data, by its parts. -/
structure TableObject where
  branchId : BranchId
  level : Nat
  tableId : Bytes
  level_le : level ≤ maxTableLevel
  tableId_valid : isObjectComponent tableId = true
  length_le : (tableObjectText branchId level tableId).length ≤ maxObjectNameBytes
  deriving DecidableEq

def TableObject.text (object : TableObject) : Bytes :=
  tableObjectText object.branchId object.level object.tableId

/-- `ObjectLayout::table_object`; `none` is its `LayoutError`. -/
def TableObject.new (branchId : BranchId) (level : Nat) (tableId : Bytes) : Option TableObject :=
  if h : level ≤ maxTableLevel ∧ isObjectComponent tableId = true ∧
      (tableObjectText branchId level tableId).length ≤ maxObjectNameBytes then
    some ⟨branchId, level, tableId, h.1, h.2.1, h.2.2⟩
  else none

/-! ## Facts and bounds of a table -/

def maxManifestLevels : Nat := 256
def maxTablesPerLevel : Nat := 16384
def maxTotalTables : Nat := 65536
def maxInheritedLayers : Nat := 4096
def maxExtensions : Nat := 64
def maxIdentityBytes : Nat := 256
def maxManifestKeyBytes : Nat := 4096
def maxSectionKindBytes : Nat := 64
def maxSectionBytes : Nat := 1048576

/-- The checks of `TableManifestTableFacts::new`. -/
def validateTableFacts (byteCount rowCount : UInt64) (dataBlockCount : UInt32)
    (commitMin commitMax : CommitVersion) (timestampMin timestampMax : Option Timestamp) :
    Except FormatError Unit := do
  .require (byteCount ≠ 0) (.invalidValue "byte_count")
  .require (rowCount ≠ 0) (.invalidValue "row_count")
  .require (dataBlockCount ≠ 0 ∧ dataBlockCount.toNat ≤ rowCount.toNat) (.invalidValue "data_block_count")
  .require (commitMin ≤ commitMax) (.invalidValue "commit_range")
  match timestampMin, timestampMax with
  | some min, some max => Except.require (min ≤ max) (.invalidValue "timestamp_range")
  | none, none => .ok ()
  | some _, none | none, some _ => .error (.invalidValue "timestamp_range")

structure TableManifestTableFacts where
  byteCount : UInt64
  rowCount : UInt64
  dataBlockCount : UInt32
  commitMin : CommitVersion
  commitMax : CommitVersion
  timestampMin : Option Timestamp
  timestampMax : Option Timestamp
  valid : validateTableFacts byteCount rowCount dataBlockCount commitMin commitMax timestampMin
    timestampMax = .ok ()
  deriving DecidableEq

def TableManifestTableFacts.new (byteCount rowCount : UInt64) (dataBlockCount : UInt32)
    (commitMin commitMax : CommitVersion) (timestampMin timestampMax : Option Timestamp) :
    Except FormatError TableManifestTableFacts :=
  match h : validateTableFacts byteCount rowCount dataBlockCount commitMin commitMax timestampMin timestampMax with
  | .error e => .error e
  | .ok () => .ok ⟨byteCount, rowCount, dataBlockCount, commitMin, commitMax, timestampMin, timestampMax, h⟩

def validateKeyRange (first last : Bytes) (field : String) : Except FormatError Unit := do
  .require (first ≠ [] ∧ last ≠ [] ∧ first.length ≤ maxManifestKeyBytes ∧
    last.length ≤ maxManifestKeyBytes) (.invalidLength field)
  .require (first ≤ last) (.invalidValue field)

/-- The checks of `TableManifestTableBounds::new`. -/
def validateTableBounds (physicalFirst physicalLast internalFirst internalLast : Bytes) :
    Except FormatError Unit := do
  validateKeyRange physicalFirst physicalLast "physical_bounds"
  validateKeyRange internalFirst internalLast "internal_bounds"

structure TableManifestTableBounds where
  physicalFirst : Bytes
  physicalLast : Bytes
  internalFirst : Bytes
  internalLast : Bytes
  valid : validateTableBounds physicalFirst physicalLast internalFirst internalLast = .ok ()
  deriving DecidableEq

/-- The first physical key of a table is not behind its last one. -/
theorem TableManifestTableBounds.physicalFirst_le (bounds : TableManifestTableBounds) :
    bounds.physicalFirst ≤ bounds.physicalLast := by
  obtain ⟨hphysical, -⟩ := check_bind_eq_ok.1 bounds.valid
  obtain ⟨-, hle⟩ := check_bind_eq_ok.1 hphysical
  exact require_eq_ok.1 hle

def TableManifestTableBounds.new (physicalFirst physicalLast internalFirst internalLast : Bytes) :
    Except FormatError TableManifestTableBounds :=
  match h : validateTableBounds physicalFirst physicalLast internalFirst internalLast with
  | .error e => .error e
  | .ok () => .ok ⟨physicalFirst, physicalLast, internalFirst, internalLast, h⟩

inductive TableManifestTableProvenance where
  | flush
  | snapshotInstall
  | compaction
  | materializationReplacement (sourceBranchId : BranchId) (forkVersion : CommitVersion)
      (forkVersion_ne : forkVersion ≠ 0)
  | recovered
  deriving DecidableEq

/-- `TableManifestTableProvenance::materialization_replacement`. -/
def TableManifestTableProvenance.newMaterializationReplacement (sourceBranchId : BranchId)
    (forkVersion : CommitVersion) : Except FormatError TableManifestTableProvenance :=
  if h : forkVersion = 0 then .error (.invalidValue "materialization_fork_version")
  else .ok (.materializationReplacement sourceBranchId forkVersion h)

/-! ## Levels -/

structure TableManifestTableRef where
  tableIdentity : TableIdentity
  object : TableObject
  order : Nat
  facts : TableManifestTableFacts
  bounds : TableManifestTableBounds
  provenance : TableManifestTableProvenance
  deriving DecidableEq

/-- The loop of `validate_level_tables`; `index` is the next one, and the bounds are
those of the table before. -/
def validateLevelTablesFrom (level : BranchLevel) (canonicalized : Bool) (index : Nat)
    (previous : Option TableManifestTableBounds) :
    List TableManifestTableRef → Except FormatError Unit
  | [] => .ok ()
  | table :: tables => do
    .require (table.order = index) (.invalidValue "table_order")
    if level ≠ 0 then
      .require (canonicalized ∨ previous.all (·.physicalFirst < table.bounds.physicalFirst))
        (.invalidValue "physical_range_order")
      .require (previous.all (·.physicalLast < table.bounds.physicalFirst))
        (.invalidValue "physical_range_overlap")
    validateLevelTablesFrom level canonicalized (index + 1) (some table.bounds) tables

def validateLevelTables (level : BranchLevel) (tables : List TableManifestTableRef)
    (canonicalized : Bool) : Except FormatError Unit := do
  .require (tables.length ≤ maxTablesPerLevel) (.invalidLength "table_count")
  validateLevelTablesFrom level canonicalized 0 none tables

def canonicalizeLevelTables (level : BranchLevel) (tables : List TableManifestTableRef) :
    List TableManifestTableRef :=
  if level = 0 then tables.insertionSort fun left right => left.order ≤ right.order
  else tables.insertionSort fun left right => left.bounds.physicalFirst < right.bounds.physicalFirst ∨
      left.bounds.physicalFirst = right.bounds.physicalFirst ∧ left.order ≤ right.order

variable {tables : List TableManifestTableRef} {level : BranchLevel}

/-- Ranges that do not overlap are in order, so that what is checked behind a sort is
all there is to check. -/
theorem validateLevelTablesFrom_canonical {index : Nat} {previous : Option TableManifestTableBounds}
    (h : validateLevelTablesFrom level canonicalized index previous tables = .ok ()) :
    validateLevelTablesFrom level false index previous tables = .ok () := by
  induction tables generalizing index previous with
  | nil => rfl
  | cons table tables ih =>
    obtain ⟨horder, h⟩ := check_bind_eq_ok.1 h
    refine check_bind_eq_ok.2 ⟨horder, ?_⟩
    by_cases hlevel : level = 0
    · simp only [hlevel, ne_eq, not_true_eq_false, if_false] at h ih ⊢
      exact ih h
    · simp only [ne_eq, hlevel, not_false_eq_true, if_true] at h ⊢
      obtain ⟨-, h⟩ := check_bind_eq_ok.1 h
      obtain ⟨hoverlap, h⟩ := check_bind_eq_ok.1 h
      refine check_bind_eq_ok.2 ⟨require_eq_ok.2 (.inr ?_), ?_⟩
      · cases previous with
        | none => rfl
        | some previous =>
          have hlast : previous.physicalLast < table.bounds.physicalFirst := by
            simpa using hoverlap
          simpa using (previous.physicalFirst_le).trans_lt hlast
      · exact check_bind_eq_ok.2 ⟨hoverlap, ih h⟩

theorem validateLevelTables_canonical (h : validateLevelTables level tables canonicalized = .ok ()) :
    validateLevelTables level tables false = .ok () := by
  obtain ⟨hlength, h⟩ := check_bind_eq_ok.1 h
  exact check_bind_eq_ok.2 ⟨hlength, validateLevelTablesFrom_canonical h⟩

structure TableManifestLevel where
  level : BranchLevel
  tables : List TableManifestTableRef
  valid : validateLevelTables level tables false = .ok ()
  deriving DecidableEq

namespace TableManifestLevel

/-- `TableManifestLevel::from_parts`. A level is always below `MAX_LEVELS`. -/
def fromParts (level : BranchLevel) (tables : List TableManifestTableRef) (canonicalized : Bool) :
    Except FormatError TableManifestLevel :=
  match h : validateLevelTables level tables canonicalized with
  | .error e => .error e
  | .ok () => .ok ⟨level, tables, validateLevelTables_canonical h⟩

def new (level : BranchLevel) (tables : List TableManifestTableRef) : Except FormatError TableManifestLevel :=
  fromParts level (canonicalizeLevelTables level tables) true

end TableManifestLevel

/-- The loop of `validate_levels`; the levels seen, and the one before. -/
def validateManifestLevelsFrom (canonicalized : Bool) (seen : List BranchLevel)
    (previous : Option BranchLevel) : List TableManifestLevel → Except FormatError Unit
  | [] => .ok ()
  | level :: levels => do
    .require (level.level ∉ seen) (.invalidValue "level")
    .require (canonicalized ∨ previous.all (· < level.level)) (.invalidValue "level_order")
    validateLevelTables level.level level.tables canonicalized
    validateManifestLevelsFrom canonicalized (level.level :: seen) (some level.level) levels

/-- `validate_levels`. -/
def validateManifestLevels (levels : List TableManifestLevel) (canonicalized : Bool) :
    Except FormatError Unit := do
  .require (levels.length ≤ maxManifestLevels) (.invalidLength "level_count")
  validateManifestLevelsFrom canonicalized [] none levels

/-! ## Inherited layers -/

def validateGeneration (value : Option UInt64) (field : String) : Except FormatError Unit :=
  .require (value ≠ some 0) (.invalidValue field)

/-- The checks of `TableManifestInheritedLayer::from_parts`. -/
def validateManifestLayer (sourceBranchGeneration : Option UInt64) (forkVersion : CommitVersion)
    (levels : List TableManifestLevel) (canonicalized : Bool) : Except FormatError Unit := do
  validateGeneration sourceBranchGeneration "source_branch_generation"
  .require (forkVersion ≠ 0) (.invalidValue "inherited_fork_version")
  validateManifestLevels levels canonicalized

/-- `levels.sort_by_key(level)`. -/
def sortLevels (levels : List TableManifestLevel) : List TableManifestLevel :=
  levels.insertionSort fun left right => left.level ≤ right.level

theorem sortLevels_sorted (levels : List TableManifestLevel) :
    (sortLevels levels).Pairwise fun left right => left.level ≤ right.level :=
  pairwise_insertionSort (r := fun left right : TableManifestLevel => left.level ≤ right.level) levels

variable {levels : List TableManifestLevel} {forkVersion : CommitVersion}

section

variable (hsorted : levels.Pairwise fun left right => left.level ≤ right.level)
include hsorted

/-- Levels in order that were seen once are in strict order. -/
theorem validateManifestLevelsFrom_strict {seen : List BranchLevel} {previous : Option BranchLevel}
    (hprevious : ∀ p ∈ previous, p ∈ seen ∧ ∀ level ∈ levels, p ≤ level.level)
    (h : validateManifestLevelsFrom canonicalized seen previous levels = .ok ()) :
    validateManifestLevelsFrom false seen previous levels = .ok () := by
  induction levels generalizing seen previous with
  | nil => rfl
  | cons level levels ih =>
    simp only [validateManifestLevelsFrom, check_bind_eq_ok, require_eq_ok] at h ⊢
    obtain ⟨hnew, -, htables, h⟩ := h
    obtain ⟨hbelow, hsorted⟩ := pairwise_cons.1 hsorted
    refine ⟨hnew, .inr ?_, validateLevelTables_canonical htables, ih hsorted ?_ h⟩
    · cases hp : previous with
      | none => rfl
      | some p =>
        obtain ⟨hseen, hle⟩ := hprevious p hp
        have hne : p ≠ level.level := fun heq => hnew (heq ▸ hseen)
        simpa using lt_of_le_of_ne (hle level mem_cons_self) hne
    · rintro p hp
      cases hp
      exact ⟨mem_cons_self, hbelow⟩

theorem validateManifestLevels_strict (h : validateManifestLevels levels canonicalized = .ok ()) :
    validateManifestLevels levels false = .ok () := by
  obtain ⟨hlength, h⟩ := check_bind_eq_ok.1 h
  exact check_bind_eq_ok.2 ⟨hlength, validateManifestLevelsFrom_strict hsorted (by simp) h⟩

end

theorem validateManifestLayer_eq_ok {generation : Option UInt64} :
    validateManifestLayer generation forkVersion levels canonicalized = .ok () ↔
      generation ≠ some 0 ∧ forkVersion ≠ 0 ∧ validateManifestLevels levels canonicalized = .ok () := by
  simp only [validateManifestLayer, validateGeneration, check_bind_eq_ok, require_eq_ok]

structure TableManifestInheritedLayer where
  order : Nat
  sourceBranchId : BranchId
  sourceBranchGeneration : Option UInt64
  forkVersion : CommitVersion
  status : InheritedLayerStatus
  levels : List TableManifestLevel
  valid : validateManifestLayer sourceBranchGeneration forkVersion levels false = .ok ()
  deriving DecidableEq

namespace TableManifestInheritedLayer

/-- `TableManifestInheritedLayer::from_parts`; the order checks are left out of levels
that are sorted. -/
def fromParts (order : Nat) (sourceBranchId : BranchId) (sourceBranchGeneration : Option UInt64)
    (forkVersion : CommitVersion) (status : InheritedLayerStatus) (levels : List TableManifestLevel)
    (canonicalized : Bool)
    (hsorted : canonicalized = true → levels.Pairwise fun left right => left.level ≤ right.level) :
    Except FormatError TableManifestInheritedLayer :=
  match h : validateManifestLayer sourceBranchGeneration forkVersion levels canonicalized with
  | .error e => .error e
  | .ok () =>
    .ok ⟨order, sourceBranchId, sourceBranchGeneration, forkVersion, status, levels, by
      cases canonicalized with
      | false => exact h
      | true =>
        obtain ⟨hgeneration, hfork, hlevels⟩ := validateManifestLayer_eq_ok.1 h
        exact validateManifestLayer_eq_ok.2
          ⟨hgeneration, hfork, validateManifestLevels_strict (hsorted rfl) hlevels⟩⟩

def new (order : Nat) (sourceBranchId : BranchId) (sourceBranchGeneration : Option UInt64)
    (forkVersion : CommitVersion) (status : InheritedLayerStatus)
    (levels : List TableManifestLevel) : Except FormatError TableManifestInheritedLayer :=
  fromParts order sourceBranchId sourceBranchGeneration forkVersion status (sortLevels levels) true
    fun _ => sortLevels_sorted levels

/-- What a layer of the constructor holds. -/
theorem fromParts_levels {order : Nat} {sourceBranchId : BranchId} {sourceBranchGeneration : Option UInt64}
    {status : InheritedLayerStatus} {levels : List TableManifestLevel} {canonicalized : Bool}
    {hsorted : canonicalized = true → levels.Pairwise fun left right => left.level ≤ right.level}
    {layer : TableManifestInheritedLayer}
    (h : fromParts order sourceBranchId sourceBranchGeneration forkVersion status levels canonicalized
      hsorted = .ok layer) : layer.order = order ∧ layer.sourceBranchId = sourceBranchId ∧
        layer.sourceBranchGeneration = sourceBranchGeneration ∧ layer.forkVersion = forkVersion ∧
        layer.status = status ∧ layer.levels = levels := by
  unfold fromParts at h
  split at h
  · cases h
  · cases h
    exact ⟨rfl, rfl, rfl, rfl, rfl, rfl⟩

end TableManifestInheritedLayer

/-- The loop of `validate_inherited_layers`; the index of the next layer, and the
sources seen. -/
def validateManifestLayersFrom (canonicalized : Bool) (index : Nat) (seen : List (BranchId × CommitVersion)) :
    List TableManifestInheritedLayer → Except FormatError Unit
  | [] => .ok ()
  | layer :: layers => do
    .require (layer.order = index) (.invalidValue "inherited_layer_order")
    .require ((layer.sourceBranchId, layer.forkVersion) ∉ seen) (.invalidValue "inherited_layer_source")
    validateManifestLevels layer.levels canonicalized
    validateManifestLayersFrom canonicalized (index + 1) ((layer.sourceBranchId, layer.forkVersion) :: seen) layers

/-- `validate_inherited_layers`. -/
def validateManifestLayers (layers : List TableManifestInheritedLayer) (canonicalized : Bool) :
    Except FormatError Unit := do
  .require (layers.length ≤ maxInheritedLayers) (.invalidLength "inherited_layer_count")
  validateManifestLayersFrom canonicalized 0 [] layers

/-! ## Extension sections -/

/-- The words no section kind may contain. -/
def foreignSectionWords : List String :=
  ["graph", "vector", "json", "stratahub", "merge", "cherry", "revert"]

/-- A byte of a section kind. -/
def isSectionKindByte (byte : UInt8) : Bool :=
  (0x61 ≤ byte && byte ≤ 0x7A) || (0x30 ≤ byte && byte ≤ 0x39) || byte = 0x2E || byte = 0x2D || byte = 0x5F

def validateSectionKind (kind : String) : Except FormatError Unit := do
  .require (utf8Bytes kind ≠ [] ∧ (utf8Bytes kind).length ≤ maxSectionKindBytes) (.invalidLength "extension_kind")
  .require ((utf8Bytes kind).all isSectionKindByte) (.invalidValue "extension_kind")
  .require (∀ word ∈ foreignSectionWords, ¬utf8Bytes word <:+: utf8Bytes kind) (.invalidValue "extension_kind")

/-- The checks of `TableManifestExtensionSection::optional`. -/
def validateSection (kind : String) (payload : Bytes) : Except FormatError Unit := do
  validateSectionKind kind
  .require (payload.length ≤ maxSectionBytes) (.invalidLength "extension_payload")

structure TableManifestExtensionSection where
  kind : String
  preserveOnRewrite : Bool
  payload : Bytes
  valid : validateSection kind payload = .ok ()
  deriving DecidableEq

def TableManifestExtensionSection.optional (kind : String) (preserveOnRewrite : Bool)
    (payload : Bytes) : Except FormatError TableManifestExtensionSection :=
  match h : validateSection kind payload with
  | .error e => .error e
  | .ok () => .ok ⟨kind, preserveOnRewrite, payload, h⟩

/-- The loop of `validate_extensions`; the kinds seen, and the one before. -/
def validateExtensionsFrom (canonicalized : Bool) (seen : List Bytes) (previous : Option Bytes) :
    List TableManifestExtensionSection → Except FormatError Unit
  | [] => .ok ()
  | extension :: extensions => do
    validateSectionKind extension.kind
    .require (utf8Bytes extension.kind ∉ seen) (.invalidValue "extension_kind")
    .require (canonicalized ∨ previous.all (· < utf8Bytes extension.kind)) (.invalidValue "extension_order")
    validateExtensionsFrom canonicalized (utf8Bytes extension.kind :: seen)
      (some (utf8Bytes extension.kind)) extensions

def validateExtensions (extensions : List TableManifestExtensionSection) (canonicalized : Bool) :
    Except FormatError Unit := do
  .require (extensions.length ≤ maxExtensions) (.invalidLength "extension_count")
  validateExtensionsFrom canonicalized [] none extensions

/-! ## Manifests -/

def validateTableObjectsForBranch (branchId : BranchId) (levels : List TableManifestLevel) :
    Except FormatError Unit :=
  levels.forM fun level => level.tables.forM fun table =>
    .require (table.object.branchId = branchId) (.invalidValue "table_object_branch")

/-- The tables of a manifest, in the order of their encoding. -/
def manifestTableRefs (levels : List TableManifestLevel)
    (inheritedLayers : List TableManifestInheritedLayer) : List TableManifestTableRef :=
  levels.flatMap (·.tables) ++ inheritedLayers.flatMap fun layer => layer.levels.flatMap (·.tables)

/-- The loop of `validate_global_table_uniqueness`; the tables counted, and the
identities and objects seen. -/
def validateUniqueTablesFrom (total : Nat) (identities : List TableIdentity)
    (objects : List TableObject) : List TableManifestTableRef → Except FormatError Unit
  | [] => .ok ()
  | table :: tables => do
    .require (total + 1 ≤ maxTotalTables) (.invalidLength "total_table_count")
    .require (table.tableIdentity ∉ identities) (.invalidValue "table_identity")
    .require (table.object ∉ objects) (.invalidValue "table_object")
    validateUniqueTablesFrom (total + 1) (table.tableIdentity :: identities) (table.object :: objects) tables

/-- The parts of a manifest. -/
structure TableManifestParts where
  branchId : BranchId
  branchGeneration : Option UInt64
  manifestSequence : UInt64
  levels : List TableManifestLevel
  inheritedLayers : List TableManifestInheritedLayer
  extensionSections : List TableManifestExtensionSection
  deriving DecidableEq

variable (parts : TableManifestParts)

/-- The checks of `TableManifest::from_parts`. -/
def TableManifestParts.validate (canonicalized : Bool) : Except FormatError Unit := do
  .require (parts.manifestSequence ≠ 0) (.invalidValue "manifest_sequence")
  validateGeneration parts.branchGeneration "branch_generation"
  validateManifestLevels parts.levels canonicalized
  validateManifestLayers parts.inheritedLayers canonicalized
  validateExtensions parts.extensionSections canonicalized
  validateTableObjectsForBranch parts.branchId parts.levels
  parts.inheritedLayers.forM fun layer => validateTableObjectsForBranch layer.sourceBranchId layer.levels
  validateUniqueTablesFrom 0 [] [] (manifestTableRefs parts.levels parts.inheritedLayers)

/-- The sorts of `TableManifest::new`. -/
def TableManifestParts.canonical : TableManifestParts :=
  { parts with
    levels := sortLevels parts.levels
    inheritedLayers := parts.inheritedLayers.insertionSort fun left right => left.order ≤ right.order
    extensionSections := parts.extensionSections.insertionSort fun left right =>
      utf8Bytes left.kind ≤ utf8Bytes right.kind }

structure TableManifest extends TableManifestParts where
  valid : toTableManifestParts.validate true = .ok ()
  deriving DecidableEq

namespace TableManifest

/-- `TableManifest::from_parts`, of parts the constructor sorted. -/
def fromParts : Except FormatError TableManifest :=
  match h : parts.validate true with
  | .error e => .error e
  | .ok () => .ok ⟨parts, h⟩

def new : Except FormatError TableManifest := fromParts parts.canonical

/-- `manifest_table_refs`. -/
def tableRefs (manifest : TableManifest) : List TableManifestTableRef :=
  manifestTableRefs manifest.levels manifest.inheritedLayers

/-- `manifest_object_names`. -/
def objectNames (manifest : TableManifest) : List TableObject := manifest.tableRefs.map (·.object)

theorem new_eq_ok {parts : TableManifestParts} {manifest : TableManifest}
    (h : new parts = .ok manifest) : manifest.toTableManifestParts = parts.canonical := by
  unfold new fromParts at h
  split at h
  · cases h
  · cases h
    rfl

end TableManifest

end Strata
