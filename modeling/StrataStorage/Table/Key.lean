import Mathlib.Data.List.TakeWhile
import StrataStorage.Format.Key

/-!
# Table rows and keys

`table/key.rs`: rows are stored under their encoded internal key, and a point
lookup is prepared once, as the internal key of the newest version it may
return. A table is a list of rows in strictly ascending key order
(`SortedRows`). The main results:

* `key_lt_key`: row keys compare by physical key, then by version, newest
  first;
* `physicalKey_isPrefixOf_key`: a row's key begins with a physical key exactly
  when it is a row of that key;
* `seekWalk_dropWhile`: the walk every table uses, from the first row at or
  after the seek key to the first row that leaves the key, finds the first row
  of the key that satisfies the lookup.
-/

namespace Strata

inductive TableRuntimeError where
  | duplicateInternalKey (key : Bytes)
  | invalidRowOrder (previous current : Bytes)
  | invalidRange (field : String)
  | invalidConfig (field reason : String)
  | decodeFormat (source : FormatError)
  | buildFormat (source : FormatError)
  deriving DecidableEq

/-- `TableInternalKeyBytes::from_row`: the key a row is stored under. -/
def StorageRow.key (row : StorageRow) : Bytes := encodeInternalKey row.internalKey

/-- `TablePhysicalKeyBytes::from_row`. -/
def StorageRow.physicalKeyBytes (row : StorageRow) : Bytes := encodePhysicalKey row.physicalKey

/-- `table_internal_physical_key_bytes`: an encoded key without its version. -/
def tableInternalPhysicalKeyBytes (encodedKey : Bytes) : Bytes :=
  encodedKey.take (encodedKey.length - internalKeySuffixLen)

def fromCanonicalBytes (bytes : Bytes) : Except TableRuntimeError Bytes := do
  let key ← (decodeInternalKey bytes).mapError .decodeFormat
  if encodeInternalKey key ≠ bytes then .error (.decodeFormat (.invalidValue "internal_key"))
  else .ok bytes

structure TablePreparedPointLookup where
  seekKey : Bytes
  maxCommitVersion : Option CommitVersion
  maxCommitTimestamp : Option Timestamp

namespace TablePreparedPointLookup

def new (key : PhysicalKey) (maxCommitVersion : Option CommitVersion)
    (maxCommitTimestamp : Option Timestamp) : TablePreparedPointLookup where
  seekKey := appendInternalKeyFromPhysical key (maxCommitVersion.getD CommitVersion.max) []
  maxCommitVersion
  maxCommitTimestamp

def physicalKey (lookup : TablePreparedPointLookup) : Bytes :=
  tableInternalPhysicalKeyBytes lookup.seekKey

end TablePreparedPointLookup

def rowMatchesPointBound (row : StorageRow) (maxCommitVersion : Option CommitVersion)
    (maxCommitTimestamp : Option Timestamp) : Bool :=
  maxCommitVersion.all (row.commitVersion ≤ ·) && maxCommitTimestamp.all (row.commitTimestamp ≤ ·)

/-- The rows a lookup asks for. -/
def Satisfies (key : PhysicalKey) (maxVersion : Option CommitVersion)
    (maxTimestamp : Option Timestamp) (row : StorageRow) : Bool :=
  decide (row.physicalKey = key) && rowMatchesPointBound row maxVersion maxTimestamp

/-- The rows of a table stand in strictly ascending key order. -/
def SortedRows (rows : List StorageRow) : Prop := rows.Pairwise (·.key < ·.key)

instance (rows : List StorageRow) : Decidable (SortedRows rows) :=
  inferInstanceAs (Decidable (List.Pairwise _ _))

/-- The loop of a point seek, over entries that hold a row and may be hidden:
stop at the first entry that has left the key, skip hidden entries, return the
first row within the bound. -/
def seekWalk {α : Type} (row : α → StorageRow) (visible : α → Bool)
    (lookup : TablePreparedPointLookup) : List α → Option StorageRow
  | [] => none
  | entry :: entries =>
    if !lookup.physicalKey.isPrefixOf (row entry).key then none
    else if !visible entry then seekWalk row visible lookup entries
    else if rowMatchesPointBound (row entry) lookup.maxCommitVersion lookup.maxCommitTimestamp then
      some (row entry)
    else seekWalk row visible lookup entries

/-! ## Key order -/

/-- Encoded keys compare by physical key, then by version, newest first. -/
theorem encodeInternalKey_lt_encodeInternalKey {a b : InternalKey} : encodeInternalKey a < encodeInternalKey b ↔
      encodePhysicalKey a.physicalKey < encodePhysicalKey b.physicalKey ∨
        a.physicalKey = b.physicalKey ∧ b.commitVersion < a.commitVersion := by
  have hversion : ∀ v w : CommitVersion, toBeBytes (~~~v) < toBeBytes (~~~w) ↔ w < v := fun v w =>
    versionCode.encode_lt_encode (a := OrderDual.toDual v) (b := OrderDual.toDual w)
  rw [encodeInternalKey_eq, encodeInternalKey_eq, encodePhysicalKey_eq_code, encodePhysicalKey_eq_code,
    OrderCode.append_lt_append, OrderCode.encode_lt_encode, hversion, PhysicalKey.sortKey_injective.eq_iff]

theorem encodeInternalKey_injective : Function.Injective encodeInternalKey := fun a b h => by
  simpa [decodeInternalKey_eq_ok.mpr rfl] using congrArg decodeInternalKey h

variable {a b : StorageRow} (row : StorageRow)

theorem StorageRow.key_lt_key : a.key < b.key ↔ a.physicalKeyBytes < b.physicalKeyBytes ∨
      a.physicalKey = b.physicalKey ∧ b.commitVersion < a.commitVersion :=
  encodeInternalKey_lt_encodeInternalKey

theorem StorageRow.key_eq_key :
    a.key = b.key ↔ a.physicalKey = b.physicalKey ∧ a.commitVersion = b.commitVersion := by
  rw [key, key, encodeInternalKey_injective.eq_iff, internalKey, internalKey, InternalKey.mk.injEq]

@[simp] theorem tableInternalPhysicalKeyBytes_encode (key : InternalKey) :
    tableInternalPhysicalKeyBytes (encodeInternalKey key) = encodePhysicalKey key.physicalKey := by
  simp [tableInternalPhysicalKeyBytes, encodeInternalKey_eq]

@[simp] theorem StorageRow.tableInternalPhysicalKeyBytes_key :
    tableInternalPhysicalKeyBytes row.key = row.physicalKeyBytes :=
  tableInternalPhysicalKeyBytes_encode _

theorem StorageRow.decodeInternalKey_key : decodeInternalKey row.key = .ok row.internalKey :=
  decodeInternalKey_eq_ok.mpr rfl

@[simp] theorem fromCanonicalBytes_key : fromCanonicalBytes row.key = .ok row.key := by
  simp [fromCanonicalBytes, StorageRow.key, decodeInternalKey_eq_ok.mpr rfl, Except.mapError]

variable {row : StorageRow}

/-- A row's key begins with a physical key exactly when the row is one of it. -/
theorem physicalKey_isPrefixOf_key {key : PhysicalKey} :
    (encodePhysicalKey key).isPrefixOf row.key = true ↔ row.physicalKey = key := by
  rw [List.isPrefixOf_iff_prefix, StorageRow.key, encodeInternalKey_eq, encodePhysicalKey_eq_code,
    encodePhysicalKey_eq_code]
  constructor
  · rintro ⟨rest, h⟩
    exact (PhysicalKey.sortKey_injective (physicalKeyCode.append_inj.mp h).1).symm
  · rintro rfl
    exact List.prefix_append _ _

/-! ## The point seek -/

section Seek

variable (key : PhysicalKey) (maxVersion : Option CommitVersion) (maxTimestamp : Option Timestamp)

@[simp] theorem TablePreparedPointLookup.new_physicalKey :
    (new key maxVersion maxTimestamp).physicalKey = encodePhysicalKey key :=
  tableInternalPhysicalKeyBytes_encode ⟨key, _⟩

@[simp] theorem TablePreparedPointLookup.new_maxCommitVersion :
    (new key maxVersion maxTimestamp).maxCommitVersion = maxVersion := rfl

@[simp] theorem TablePreparedPointLookup.new_maxCommitTimestamp :
    (new key maxVersion maxTimestamp).maxCommitTimestamp =
      maxTimestamp := rfl

variable {key maxVersion maxTimestamp}

/-- The rows before the seek key: rows of smaller keys, and rows of the key
above the bound. -/
theorem key_lt_seekKey : row.key < (TablePreparedPointLookup.new key maxVersion maxTimestamp).seekKey ↔
      row.physicalKeyBytes < encodePhysicalKey key ∨
        row.physicalKey = key ∧ maxVersion.getD CommitVersion.max < row.commitVersion :=
  encodeInternalKey_lt_encodeInternalKey (b := ⟨key, maxVersion.getD CommitVersion.max⟩)

theorem commitVersion_le_of_matches (h : rowMatchesPointBound row maxVersion maxTimestamp = true) :
    row.commitVersion ≤ maxVersion.getD CommitVersion.max := by
  cases maxVersion with
  | none => exact CommitVersion.le_max _
  | some v => simp only [rowMatchesPointBound, Option.all_some, Bool.and_eq_true,
      decide_eq_true_eq] at h; exact h.1

/-- A row that satisfies a lookup never stands before its seek key. -/
theorem not_key_lt_seekKey (hkey : row.physicalKey = key)
    (h : rowMatchesPointBound row maxVersion maxTimestamp = true) :
    ¬ row.key < (TablePreparedPointLookup.new key maxVersion maxTimestamp).seekKey := by
  rw [key_lt_seekKey, not_or]
  refine ⟨?_, fun hlt => absurd hlt.2 (not_lt.mpr (commitVersion_le_of_matches h))⟩
  rw [StorageRow.physicalKeyBytes, hkey]
  exact lt_irrefl _

theorem satisfies_iff : Satisfies key maxVersion maxTimestamp row = true ↔
    row.physicalKey = key ∧ rowMatchesPointBound row maxVersion maxTimestamp = true := by
  simp [Satisfies]

theorem satisfies_eq_false_of_ne (h : row.physicalKeyBytes ≠ encodePhysicalKey key) :
    Satisfies key maxVersion maxTimestamp row = false := by
  rw [Bool.eq_false_iff, ne_eq, satisfies_iff]
  rintro ⟨rfl, -⟩
  exact h rfl

theorem satisfies_eq_false_of_lt_seekKey
    (h : row.key < (TablePreparedPointLookup.new key maxVersion maxTimestamp).seekKey) :
    Satisfies key maxVersion maxTimestamp row = false := by
  rw [Bool.eq_false_iff, ne_eq, satisfies_iff]
  exact fun hs => not_key_lt_seekKey hs.1 hs.2 h

/-- Keys in order are physical keys in order. -/
theorem StorageRow.physicalKeyBytes_le_of_key_le (h : a.key ≤ b.key) :
    a.physicalKeyBytes ≤ b.physicalKeyBytes := by
  rcases h.lt_or_eq with h | h
  · rcases key_lt_key.mp h with h | h
    · exact h.le
    · rw [physicalKeyBytes, physicalKeyBytes, h.1]
  · rw [physicalKeyBytes, physicalKeyBytes, (key_eq_key.mp h).1]

theorem find?_eq_none_of_lt {rows : List StorageRow}
    (h : ∀ row ∈ rows, encodePhysicalKey key < row.physicalKeyBytes) :
    rows.find? (Satisfies key maxVersion maxTimestamp) = none :=
  List.find?_eq_none.mpr fun row hrow => by simp [satisfies_eq_false_of_ne (h row hrow).ne']

variable {α : Type} {row : α → StorageRow} {visible : α → Bool}

/-- From the first entry at or after the seek key, the walk finds the first
visible entry of the key within the bound. -/
theorem seekWalk_dropWhile {entries : List α} (hsorted : entries.Pairwise fun a b => (row a).key < (row b).key) :
    let lookup := TablePreparedPointLookup.new key maxVersion maxTimestamp
    seekWalk row visible lookup (entries.dropWhile fun a => (row a).key < lookup.seekKey) =
      (entries.find? fun a => visible a && Satisfies key maxVersion maxTimestamp (row a)).map row := by
  intro lookup
  induction entries with
  | nil => rfl
  | cons a entries ih =>
    obtain ⟨hafter, hsorted⟩ := List.pairwise_cons.mp hsorted
    specialize ih hsorted
    by_cases hseek : (row a).key < lookup.seekKey
    · rw [List.dropWhile_cons_of_pos (by simpa using hseek), ih,
        List.find?_cons_of_neg (by simp [satisfies_eq_false_of_lt_seekKey hseek])]
    · rw [List.dropWhile_cons_of_neg (by simpa using hseek), seekWalk, TablePreparedPointLookup.new_physicalKey]
      by_cases hkey : (row a).physicalKey = key
      · have hrest : entries.dropWhile (fun b => (row b).key < lookup.seekKey) = entries := by
          rw [List.dropWhile_eq_self_iff]
          intro hpos
          simpa using (le_of_not_gt hseek).trans (hafter _ (List.getElem_mem hpos)).le
        rw [hrest] at ih
        have hbound : rowMatchesPointBound (row a) lookup.maxCommitVersion
            lookup.maxCommitTimestamp = rowMatchesPointBound (row a) maxVersion maxTimestamp := rfl
        simp only [physicalKey_isPrefixOf_key.mpr hkey, Bool.not_true, Bool.false_eq_true, ↓reduceIte,
          hbound, ih, List.find?_cons, Satisfies, hkey, decide_true, Bool.true_and]
        cases visible a <;> cases rowMatchesPointBound (row a) maxVersion maxTimestamp <;> rfl
      · -- the entry is past the key, and so is every later one
        have hpast : encodePhysicalKey key < (row a).physicalKeyBytes := by
          rw [key_lt_seekKey, not_or] at hseek
          refine lt_of_le_of_ne (not_lt.mp hseek.1) fun h => hkey ?_
          exact (encodePhysicalKey_injective h).symm
        have hnone : ∀ b ∈ a :: entries, Satisfies key maxVersion maxTimestamp (row b) = false := by
          intro b hb
          refine satisfies_eq_false_of_ne (ne_of_gt ?_)
          rcases List.mem_cons.mp hb with rfl | hb
          · exact hpast
          · exact hpast.trans_le (StorageRow.physicalKeyBytes_le_of_key_le (hafter b hb).le)
        have hfind : (a :: entries).find?
            (fun b => visible b && Satisfies key maxVersion maxTimestamp (row b)) = none :=
          List.find?_eq_none.mpr fun b hb => by simp [hnone b hb]
        have hprefix : (encodePhysicalKey key).isPrefixOf (row a).key = false := by
          rw [Bool.eq_false_iff]; exact fun h => hkey (physicalKey_isPrefixOf_key.mp h)
        rw [hfind, hprefix]; rfl

end Seek

end Strata
