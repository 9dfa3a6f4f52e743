import StrataStorage.Table.Mutable
import StrataStorage.Table.Reader

/-!
# Branch sources and read bounds

The types of `branch/read.rs`, `branch/facts.rs` and `branch/identity.rs` a
read goes through: read bounds and their effective form in the branch itself
and in an inherited layer, sealed tables installed in a branch, and the layers
a forked branch inherits. A table, a level layout and a layer each carry, as a
field, that the validator of their constructor accepted them:

* `BranchOwnedTable.branchId_eq`: every row of an owned table is a row of its
  branch, although only the ends of the key range are checked;
* `validateOwnedLevels_eq_ok`: accepted levels hold the tables of their own
  level, in ascending and disjoint physical key ranges below level zero;
* `BranchInheritedLayer.valid`: what an accepted layer satisfies.
-/

namespace Strata

open StorageRow
open BranchId (byteLen)

/-- `BranchLevel`, a `u8`. -/
abbrev BranchLevel := UInt8

inductive BranchTimestampHistorySource where
  | own
  | inherited
  | combined
  deriving DecidableEq

inductive BranchRuntimeError where
  | invalidBranchState (reason : String)
  | invalidBranchRow (reason : String)
  | invalidInheritedLayer (reason : String)
  | invalidReadBound (reason : String)
  | insufficientTimestampHistory (branchId : BranchId) (requested : Timestamp)
      (earliest : Option Timestamp) (source : BranchTimestampHistorySource)
  | tableRuntime (source : TableRuntimeError)
  deriving DecidableEq

/-! ## Read bounds -/

inductive BranchReadBound where
  | latest
  | atVersion (version : CommitVersion)
  | atTimestamp (timestamp : Timestamp)
  deriving DecidableEq

structure BranchEffectiveReadBound where
  maxCommitVersion : Option CommitVersion
  maxCommitTimestamp : Option Timestamp
  minCommitVersion : Option CommitVersion
  deriving DecidableEq

namespace BranchEffectiveReadBound

def new (maxCommitVersion : Option CommitVersion) (maxCommitTimestamp : Option Timestamp) :
    BranchEffectiveReadBound := ⟨maxCommitVersion, maxCommitTimestamp, none⟩

def withMinCommitVersion (bound : BranchEffectiveReadBound)
    (minCommitVersion : Option CommitVersion) : BranchEffectiveReadBound :=
  { bound with minCommitVersion }

def forOwnBranch : BranchReadBound → BranchEffectiveReadBound
  | .latest => new none none
  | .atVersion version => new (some version) none
  | .atTimestamp timestamp => new none (some timestamp)

/-- `for_inherited_layer`: the bound in a layer, capped at its fork version. -/
def forInheritedLayer (bound : BranchReadBound) (forkVersion : CommitVersion) :
    BranchEffectiveReadBound :=
  match bound with
  | .latest => new (some forkVersion) none
  | .atVersion version => new (some (if version ≤ forkVersion then version else forkVersion)) none
  | .atTimestamp timestamp => new (some forkVersion) (some timestamp)

def rowVersionInBound (bound : BranchEffectiveReadBound) (row : StorageRow) : Bool :=
  bound.maxCommitVersion.all (row.commitVersion ≤ ·) && bound.minCommitVersion.all (· < row.commitVersion)

def rowTimestampInBound (bound : BranchEffectiveReadBound) (row : StorageRow) : Bool :=
  bound.maxCommitTimestamp.all (row.commitTimestamp ≤ ·)

def matchesRow (bound : BranchEffectiveReadBound) (row : StorageRow) : Bool :=
  bound.rowVersionInBound row && bound.rowTimestampInBound row

variable (bound : BranchReadBound)

/-- The bound of an inherited layer is the bound of the branch and the cap. -/
theorem matchesRow_forInheritedLayer (forkVersion : CommitVersion)
    (row : StorageRow) : (forInheritedLayer bound forkVersion).matchesRow row =
      (decide (row.commitVersion ≤ forkVersion) && (forOwnBranch bound).matchesRow row) := by
  cases bound with
  | latest => simp [forInheritedLayer, forOwnBranch, matchesRow, rowVersionInBound, rowTimestampInBound, new]
  | atVersion version =>
    simp only [forInheritedLayer, forOwnBranch, matchesRow, rowVersionInBound,
      rowTimestampInBound, new, Option.all_some, Option.all_none, Bool.and_true]
    rw [← Bool.decide_and, decide_eq_decide]
    split_ifs with h
    · exact ⟨fun hv => ⟨hv.trans h, hv⟩, And.right⟩
    · exact ⟨fun hv => ⟨hv, hv.trans (le_of_not_ge h)⟩, And.left⟩
  | atTimestamp timestamp => simp [forInheritedLayer, forOwnBranch, matchesRow,
      rowVersionInBound, rowTimestampInBound, new]

/-- A bound without a lower version bound is what a point lookup checks. -/
theorem matchesRow_eq {bound : BranchEffectiveReadBound} (h : bound.minCommitVersion = none)
    (row : StorageRow) : bound.matchesRow row =
      rowMatchesPointBound row bound.maxCommitVersion bound.maxCommitTimestamp := by
  simp [matchesRow, rowVersionInBound, rowTimestampInBound, rowMatchesPointBound, h]

@[simp] theorem forOwnBranch_minCommitVersion :
    (forOwnBranch bound).minCommitVersion = none := by cases bound <;> rfl

@[simp] theorem forInheritedLayer_minCommitVersion (v : CommitVersion) :
    (forInheritedLayer bound v).minCommitVersion = none := by cases bound <;> rfl

end BranchEffectiveReadBound

inductive BranchTimestampCoverage where
  | unknown
  | complete
  | completeSince (earliestTimestamp : Timestamp)
  deriving DecidableEq

def BranchTimestampCoverage.requireTimestamp (coverage : BranchTimestampCoverage)
    (branchId : BranchId) (requested : Timestamp) (source : BranchTimestampHistorySource) :
    Except BranchRuntimeError Unit :=
  match coverage with
  | .completeSince earliest =>
    if requested < earliest then
      .error (.insufficientTimestampHistory branchId requested (some earliest) source)
    else .ok ()
  | .unknown | .complete => .ok ()

/-! ## Branch identity -/

def requirePhysicalKeyBranch (expectedBranchId : BranchId) (physicalKey : PhysicalKey) :
    Except BranchRuntimeError Unit :=
  if physicalKey.branchId = expectedBranchId then .ok ()
  else .error (.invalidBranchRow "physical key branch id does not match branch")

def rewritePhysicalKeyBranch (physicalKey : PhysicalKey) (targetBranchId : BranchId) :
    Except BranchRuntimeError PhysicalKey :=
  (PhysicalKey.new targetBranchId physicalKey.space physicalKey.storageSpaceId
    physicalKey.userKey).mapError fun _ => .invalidBranchRow "rewritten physical key is invalid"

def rewriteRowBranch (row : StorageRow) (sourceBranchId targetBranchId : BranchId) :
    Except BranchRuntimeError StorageRow := do
  requirePhysicalKeyBranch sourceBranchId row.physicalKey
  let physicalKey ← rewritePhysicalKeyBranch row.physicalKey targetBranchId
  if row.isTombstone then .ok (.tombstone physicalKey row.commitVersion row.commitTimestamp)
  else .ok (.put physicalKey row.commitVersion row.commitTimestamp row.expiresAt row.value)

/-- The same row in another branch. -/
def StorageRow.withBranch (row : StorageRow) (branchId : BranchId) : StorageRow :=
  { row with physicalKey := row.physicalKey.withBranch branchId }

@[simp] theorem StorageRow.withBranch_physicalKey (row : StorageRow) (b : BranchId) :
    (row.withBranch b).physicalKey = row.physicalKey.withBranch b := rfl

@[simp] theorem rewritePhysicalKeyBranch_eq (key : PhysicalKey) (target : BranchId) :
    rewritePhysicalKeyBranch key target = .ok (key.withBranch target) := by
  rw [rewritePhysicalKeyBranch, Except.mapError_eq_ok]
  exact PhysicalKey.new_eq_ok.mpr ⟨rfl, rfl, rfl, rfl⟩

variable {row : StorageRow}

/-- Rewriting a row of the source branch only changes its branch. -/
theorem rewriteRowBranch_eq {source : BranchId} (h : row.physicalKey.branchId = source) (target : BranchId) :
    rewriteRowBranch row source target = .ok (row.withBranch target) := by
  simp only [rewriteRowBranch, requirePhysicalKeyBranch, h, ↓reduceIte, Except.ok_bind,
    rewritePhysicalKeyBranch_eq]
  cases ht : row.isTombstone with
  | false => simp [withBranch, put, ht]
  | true =>
    obtain ⟨hexpires, hvalue⟩ := row.tombstone_shape ht
    simp [withBranch, tombstone, ht, hexpires, hvalue]

/-! ## Tables owned by a branch -/

structure BranchMaterializationSource where
  sourceBranchId : BranchId
  forkVersion : CommitVersion
  deriving DecidableEq

def keyRangeMatchesBranch (firstKey lastKey : Bytes) (branchId : BranchId) : Bool :=
  decide (firstKey.take byteLen = branchId.bytes) &&
    decide (lastKey.take byteLen = branchId.bytes)

/-- A sealed table installed in a branch. -/
structure BranchOwnedTable where
  branchId : BranchId
  level : BranchLevel
  reader : ImmutableTableReader
  materializationSource : Option BranchMaterializationSource
  range_matches : keyRangeMatchesBranch reader.facts.firstKey reader.facts.lastKey branchId = true

variable (table : BranchOwnedTable)

namespace BranchOwnedTable

def facts : TableRuntimeFacts := table.reader.facts

def rows : List StorageRow := table.reader.rows

/-- `BranchOwnedTable::new_with_materialization_layer`. The reader's facts are
the table's, and a reader is never empty, so one check is left. -/
def new (branchId : BranchId) (level : BranchLevel) (reader : ImmutableTableReader)
    (materializationSource : Option BranchMaterializationSource) :
    Except BranchRuntimeError BranchOwnedTable :=
  if h : keyRangeMatchesBranch reader.facts.firstKey reader.facts.lastKey branchId = true then
    .ok ⟨branchId, level, reader, materializationSource, h⟩
  else .error (.invalidBranchRow "branch-owned table rows must match the target branch")

end BranchOwnedTable

theorem take_byteLen_key (row : StorageRow) : row.key.take byteLen = row.physicalKey.branchId.bytes := by
  have h := row.physicalKey.branchId.length_bytes
  rw [key, encodeInternalKey_eq, encodePhysicalKey_eq, List.append_assoc]
  exact List.take_left' h

/-- Rows in key order are in order of branch. -/
theorem StorageRow.branchId_le_of_key_le {a b : StorageRow} (h : a.key ≤ b.key) :
    a.physicalKey.branchId.bytes ≤ b.physicalKey.branchId.bytes := by
  rw [← take_byteLen_key, ← take_byteLen_key]
  by_contra hlt
  rw [not_le] at hlt
  have hlen : ∀ row : StorageRow, (row.key.take byteLen).length = 16 := fun row => by
    rw [take_byteLen_key, row.physicalKey.branchId.length_bytes]
  have := List.append_lt_append_of_length_eq ((hlen b).trans (hlen a).symm) hlt
    (b.key.drop byteLen) (a.key.drop byteLen)
  rw [List.take_append_drop, List.take_append_drop] at this
  exact absurd h (not_le.mpr this)

/-- Every row of a table whose key range matches a branch is a row of it: the
branch leads the key, and the rows lie between the two ends. -/
theorem BranchOwnedTable.branchId_eq (hrow : row ∈ table.rows) : row.physicalKey.branchId = table.branchId := by
  obtain ⟨first, -, last, -, hfirst, hlast⟩ := table.reader.exists_first_last
  have hrange := table.range_matches
  rw [keyRangeMatchesBranch, hfirst, hlast, take_byteLen_key, take_byteLen_key] at hrange
  simp only [Bool.and_eq_true, decide_eq_true_eq] at hrange
  have h₁ := branchId_le_of_key_le (hfirst ▸ table.reader.firstKey_le hrow)
  have h₂ := branchId_le_of_key_le (hlast ▸ table.reader.le_lastKey hrow)
  rw [hrange.1] at h₁
  rw [hrange.2] at h₂
  have heq : row.physicalKey.branchId.bytes = table.branchId.bytes := le_antisymm h₂ h₁
  cases hb : row.physicalKey.branchId
  cases hb' : table.branchId
  simp_all

end Strata
