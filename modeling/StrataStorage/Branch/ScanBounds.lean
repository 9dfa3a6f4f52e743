import StrataStorage.Branch.PointRead
import StrataStorage.Table.Bounds

/-!
# Scan bounds

`BranchScanBounds` of `branch/read.rs` and the key bounds it becomes in the
tables of a branch. A scan asks for the user keys of one namespace that begin
with given bytes or lie between two ends.

* `containsKey_tableBounds`: the bytes a table compares say exactly
  which rows are asked for;
* `containsKey_eq_false_of_before`, `containsKey_eq_false_of_after`: a table
  whose range of physical keys lies beside the bounds holds none of them.
-/

namespace Strata

open Except List TableKeyBounds KeyBound

def validateUserKeyBoundOrder (lower upper : KeyBound) : Except BranchRuntimeError Unit :=
  match lower.finiteKey, upper.finiteKey with
  | some low, some high =>
    if high < low then
      .error (.invalidReadBound "lower user-key bound must not sort after upper user-key bound")
    else .ok ()
  | _, _ => .ok ()

def validateScanSpace (branchId : BranchId) (space : String) (storageSpaceId : StorageSpaceId) :
    Except BranchRuntimeError Unit :=
  ((PhysicalKey.new branchId space storageSpaceId []).map fun _ => ()).mapError fun _ =>
    .invalidReadBound "scan bounds must use a valid physical key space"

/-- `BranchScanBounds`; its constructors check the namespace and the order of
the ends. -/
structure BranchScanBounds where
  branchId : BranchId
  space : String
  storageSpaceId : StorageSpaceId
  userKeyPrefix : Option Bytes
  lowerUserKey : KeyBound
  upperUserKey : KeyBound
  space_valid : validateScanSpace branchId space storageSpaceId = .ok ()
  order_valid : validateUserKeyBoundOrder lowerUserKey upperUserKey = .ok ()

variable {a b : PhysicalKey} (key : PhysicalKey) (bounds : BranchScanBounds)

theorem validateScanSpace_eq_ok {branchId : BranchId} {space : String} {storageSpaceId : StorageSpaceId} :
    validateScanSpace branchId space storageSpaceId = .ok () ↔ validateSpace space = .ok () := by
  unfold validateScanSpace PhysicalKey.new
  split <;> simp_all [Except.map, Except.mapError]

namespace BranchScanBounds

/-- `BranchScanBounds::prefix`. -/
def ofPrefix (key : PhysicalKey) : BranchScanBounds where
  branchId := key.branchId
  space := key.space
  storageSpaceId := key.storageSpaceId
  userKeyPrefix := some key.userKey
  lowerUserKey := .unbounded
  upperUserKey := .unbounded
  space_valid := validateScanSpace_eq_ok.mpr key.space_valid
  order_valid := rfl

def range (branchId : BranchId) (space : String) (storageSpaceId : StorageSpaceId)
    (lowerUserKey upperUserKey : KeyBound) : Except BranchRuntimeError BranchScanBounds :=
  match hspace : validateScanSpace branchId space storageSpaceId with
  | .error e => .error e
  | .ok () =>
    match horder : validateUserKeyBoundOrder lowerUserKey upperUserKey with
    | .error e => .error e
    | .ok () => .ok ⟨branchId, space, storageSpaceId, none, lowerUserKey, upperUserKey, hspace, horder⟩

end BranchScanBounds

def scanPhysicalKey (branchId : BranchId) (space : String) (storageSpaceId : StorageSpaceId)
    (userKey : Bytes) : Except BranchRuntimeError PhysicalKey :=
  (PhysicalKey.new branchId space storageSpaceId userKey).mapError fun _ =>
    .invalidReadBound "scan physical key bound is invalid"

/-- `TablePhysicalKeyBytes::from_physical_key_prefix`: the encoded key without
its terminator. -/
def fromPhysicalKeyPrefix (key : PhysicalKey) : Bytes :=
  (encodePhysicalKey key).take ((encodePhysicalKey key).length - 2)

def tablePhysicalBoundForUserKey (branchId : BranchId) (space : String)
    (storageSpaceId : StorageSpaceId) : KeyBound → Except BranchRuntimeError KeyBound
  | .unbounded => .ok .unbounded
  | .included userKey => do
    let key ← scanPhysicalKey branchId space storageSpaceId userKey
    .ok (.included (encodePhysicalKey key))
  | .excluded userKey => do
    let key ← scanPhysicalKey branchId space storageSpaceId userKey
    .ok (.excluded (encodePhysicalKey key))

def BranchScanBounds.tableKeyBoundsForBranch (branchId : BranchId) : Except BranchRuntimeError TableKeyBounds :=
  match bounds.userKeyPrefix with
  | some userKey => do
    let key ← scanPhysicalKey branchId bounds.space bounds.storageSpaceId userKey
    .ok (.keyPrefix (fromPhysicalKeyPrefix key))
  | none => do
    let namespaceKey ← scanPhysicalKey branchId bounds.space bounds.storageSpaceId []
    let lower ← tablePhysicalBoundForUserKey branchId bounds.space bounds.storageSpaceId bounds.lowerUserKey
    let upper ← tablePhysicalBoundForUserKey branchId bounds.space bounds.storageSpaceId bounds.upperUserKey
    (newPhysicalRange (fromPhysicalKeyPrefix namespaceKey) lower upper).mapError
      fun _ => .invalidReadBound "scan table key bounds are invalid"

/-- The user keys a scan asks for. -/
def BranchScanBounds.containsUserKey (userKey : Bytes) : Bool :=
  match bounds.userKeyPrefix with
  | some bytes => bytes.isPrefixOf userKey
  | none => bounds.lowerUserKey.lowerContains userKey && bounds.upperUserKey.upperContains userKey

/-- The keys a scan asks for, as keys of the given branch. -/
def BranchScanBounds.ContainsIn (branchId : BranchId) (key : PhysicalKey) : Prop :=
  key.branchId = branchId ∧ key.space = bounds.space ∧
    key.storageSpaceId = bounds.storageSpaceId ∧ bounds.containsUserKey key.userKey = true

instance (bounds : BranchScanBounds) (branchId : BranchId) (key : PhysicalKey) :
    Decidable (bounds.ContainsIn branchId key) := inferInstanceAs (Decidable (_ ∧ _ ∧ _ ∧ _))

/-- The keys a scan asks for. -/
abbrev BranchScanBounds.Contains (key : PhysicalKey) : Prop := bounds.ContainsIn bounds.branchId key

/-! ## The bytes of a namespace -/

/-- The escaped bytes of a user key, without the terminator. -/
def escapeBytes : Bytes → Bytes
  | [] => []
  | byte :: source => if byte = 0x00 then 0x00 :: 0x01 :: escapeBytes source
      else byte :: escapeBytes source

theorem encodeEscaped_eq (source : Bytes) : encodeEscaped source = escapeBytes source ++ [0, 0] := by
  induction source with
  | nil => rfl
  | cons byte source ih =>
    rw [encodeEscaped, escapeBytes, ih]
    split <;> rfl

/-- Escaped bytes begin an escaped key exactly when the bytes begin the key:
neither the terminator nor what follows it can be mistaken for an escape. -/
theorem escapeBytes_isPrefix {p userKey t : Bytes} :
    escapeBytes p <+: encodeEscaped userKey ++ t ↔ p <+: userKey := by
  induction p generalizing userKey with
  | nil => simp [escapeBytes]
  | cons x p ih =>
    cases userKey with
    | nil =>
      rw [escapeBytes]
      split <;> simp [encodeEscaped, cons_prefix_cons, *]
    | cons y userKey =>
      rw [escapeBytes, encodeEscaped]
      by_cases hx : x = 0 <;> by_cases hy : y = 0
      · simp [hx, hy, cons_prefix_cons, ih]
      · simp [hx, hy, cons_prefix_cons, Ne.symm hy]
      · simp [hx, hy, cons_prefix_cons]
      · simp [hx, hy, cons_prefix_cons, ih]

/-- The namespace of a key: its branch, space and storage-space id. -/
def namespaceBytes (key : PhysicalKey) : Bytes :=
  key.branchId.bytes ++ (utf8Bytes key.space ++ [0x00] ++ [key.storageSpaceId.raw])

theorem encodePhysicalKey_eq_namespace :
    encodePhysicalKey key = namespaceBytes key ++ encodeEscaped key.userKey := by
  simp [encodePhysicalKey_eq, namespaceBytes]

theorem fromPhysicalKeyPrefix_eq : fromPhysicalKeyPrefix key = namespaceBytes key ++ escapeBytes key.userKey := by
  rw [fromPhysicalKeyPrefix, encodePhysicalKey_eq_namespace, encodeEscaped_eq, ← append_assoc]
  refine take_left' ?_
  simp only [length_append, length_cons, length_nil]
  omega

/-- The code of namespaces. -/
def namespaceCode : OrderCode ({l : Bytes // l.length = 16} ×ₗ {l : Bytes // ∀ x ∈ l, 0 < x} ×ₗ UInt8) UInt8 :=
  (OrderCode.fixed UInt8 16).prod ((OrderCode.terminated 0).prod (OrderCode.letter UInt8))

/-- The fields of a namespace. -/
def PhysicalKey.namespaceKey (key : PhysicalKey) :
    {l : Bytes // l.length = 16} ×ₗ {l : Bytes // ∀ x ∈ l, 0 < x} ×ₗ UInt8 :=
  toLex (⟨key.branchId.bytes, key.length_branch⟩, toLex (⟨utf8Bytes key.space, key.space_pos⟩,
    key.storageSpaceId.raw))

theorem namespaceBytes_eq_code : namespaceBytes key = namespaceCode.encode key.namespaceKey := rfl

theorem namespaceKey_eq_iff : a.namespaceKey = b.namespaceKey ↔
    a.branchId = b.branchId ∧ a.space = b.space ∧ a.storageSpaceId = b.storageSpaceId := by
  have hbranch : a.branchId.bytes = b.branchId.bytes ↔ a.branchId = b.branchId := by
    rw [BranchId.mk.injEq]
  have hid : a.storageSpaceId.raw = b.storageSpaceId.raw ↔ a.storageSpaceId = b.storageSpaceId := by
    rw [StorageSpaceId.mk.injEq]
  simp [PhysicalKey.namespaceKey, hbranch, utf8Bytes_injective.eq_iff, hid]

/-- Encoded keys of one namespace compare as their user keys. -/
theorem encodePhysicalKey_lt_iff (h : a.namespaceKey = b.namespaceKey) :
    encodePhysicalKey a < encodePhysicalKey b ↔ a.userKey < b.userKey := by
  rw [encodePhysicalKey_eq_namespace, encodePhysicalKey_eq_namespace, namespaceBytes_eq_code,
    namespaceBytes_eq_code, OrderCode.append_lt_append, h]
  have hescaped : encodeEscaped a.userKey < encodeEscaped b.userKey ↔ a.userKey < b.userKey :=
    escapedCode.encode_lt_encode
  simp [hescaped]

theorem encodePhysicalKey_le_iff (h : a.namespaceKey = b.namespaceKey) :
    encodePhysicalKey a ≤ encodePhysicalKey b ↔ a.userKey ≤ b.userKey := by
  rw [← not_lt, ← not_lt, encodePhysicalKey_lt_iff h.symm]

/-- The bytes of a namespace and of an initial part of the user key begin the
encoded keys of the namespace with that initial part, and nothing else does. -/
theorem fromPhysicalKeyPrefix_isPrefix {t : Bytes} : fromPhysicalKeyPrefix a <+: encodePhysicalKey b ++ t ↔
      b.namespaceKey = a.namespaceKey ∧ a.userKey <+: b.userKey := by
  rw [fromPhysicalKeyPrefix_eq, encodePhysicalKey_eq_namespace, append_assoc, namespaceBytes_eq_code,
    namespaceBytes_eq_code, OrderCode.append_isPrefix_append, escapeBytes_isPrefix, eq_comm]

/-! ## The bounds in the tables of a branch -/

/-- A bound on keys from a bound on user keys. -/
def KeyBound.mapKey (f : Bytes → Bytes) : KeyBound → KeyBound
  | .unbounded => .unbounded
  | .included key => .included (f key)
  | .excluded key => .excluded (f key)

namespace BranchScanBounds

variable (bounds : BranchScanBounds) (branchId : BranchId) (bound : KeyBound)

/-- The key of a user key in the namespace of a scan. -/
def keyIn (userKey : Bytes) : PhysicalKey :=
  ⟨branchId, bounds.space, bounds.storageSpaceId, userKey, validateScanSpace_eq_ok.mp bounds.space_valid⟩

/-- What `table_key_bounds_for_branch` returns. -/
def tableBounds : TableKeyBounds :=
  match bounds.userKeyPrefix with
  | some userKey => .keyPrefix (fromPhysicalKeyPrefix (bounds.keyIn branchId userKey))
  | none => .physicalRange (fromPhysicalKeyPrefix (bounds.keyIn branchId []))
      (bounds.lowerUserKey.mapKey fun userKey => encodePhysicalKey (bounds.keyIn branchId userKey))
      (bounds.upperUserKey.mapKey fun userKey => encodePhysicalKey (bounds.keyIn branchId userKey))

theorem scanPhysicalKey_eq (userKey : Bytes) :
    scanPhysicalKey branchId bounds.space bounds.storageSpaceId userKey = .ok (bounds.keyIn branchId userKey) := by
  have h : PhysicalKey.new branchId bounds.space bounds.storageSpaceId userKey =
      .ok (bounds.keyIn branchId userKey) := PhysicalKey.new_eq_ok.mpr ⟨rfl, rfl, rfl, rfl⟩
  rw [scanPhysicalKey, h]
  rfl

theorem tablePhysicalBoundForUserKey_eq :
    tablePhysicalBoundForUserKey branchId bounds.space bounds.storageSpaceId bound =
      .ok (bound.mapKey fun userKey => encodePhysicalKey (bounds.keyIn branchId userKey)) := by
  cases bound <;> simp [tablePhysicalBoundForUserKey, scanPhysicalKey_eq, mapKey]

/-- The bounds of a valid scan are valid in every branch. -/
theorem tableKeyBoundsForBranch_eq :
    bounds.tableKeyBoundsForBranch branchId = .ok (bounds.tableBounds branchId) := by
  have horder := bounds.order_valid
  unfold tableKeyBoundsForBranch tableBounds
  split
  · simp [scanPhysicalKey_eq]
  · simp only [scanPhysicalKey_eq, tablePhysicalBoundForUserKey_eq, ok_bind, newPhysicalRange]
    have hvalid : ∀ lower upper : KeyBound, validateUserKeyBoundOrder lower upper = .ok () →
        validateBoundOrder "physical_key_bounds"
          (lower.mapKey fun userKey => encodePhysicalKey (bounds.keyIn branchId userKey))
          (upper.mapKey fun userKey => encodePhysicalKey (bounds.keyIn branchId userKey)) = .ok () := by
      intro lower upper h
      have hlt : ∀ u v : Bytes, encodePhysicalKey (bounds.keyIn branchId u) <
          encodePhysicalKey (bounds.keyIn branchId v) ↔ u < v := fun u v =>
        encodePhysicalKey_lt_iff rfl
      cases lower <;> cases upper <;>
        simp_all [validateUserKeyBoundOrder, validateBoundOrder, mapKey, finiteKey]
    rw [hvalid _ _ horder]
    rfl

/-- A bound on user keys is the bound on the keys of the namespace. -/
theorem lowerContains_mapKey {key : PhysicalKey} (h : key.namespaceKey = (bounds.keyIn branchId []).namespaceKey) :
    (bound.mapKey fun userKey => encodePhysicalKey (bounds.keyIn branchId userKey)).lowerContains
        (encodePhysicalKey key) = bound.lowerContains key.userKey ∧
    (bound.mapKey fun userKey => encodePhysicalKey (bounds.keyIn branchId userKey)).upperContains
        (encodePhysicalKey key) = bound.upperContains key.userKey := by
  have hle : ∀ u, encodePhysicalKey (bounds.keyIn branchId u) ≤ encodePhysicalKey key ↔
      u ≤ key.userKey := fun u => encodePhysicalKey_le_iff h.symm
  have hlt : ∀ u, encodePhysicalKey (bounds.keyIn branchId u) < encodePhysicalKey key ↔
      u < key.userKey := fun u => encodePhysicalKey_lt_iff h.symm
  have hge : ∀ u, encodePhysicalKey key ≤ encodePhysicalKey (bounds.keyIn branchId u) ↔
      key.userKey ≤ u := fun u => encodePhysicalKey_le_iff h
  have hgt : ∀ u, encodePhysicalKey key < encodePhysicalKey (bounds.keyIn branchId u) ↔
      key.userKey < u := fun u => encodePhysicalKey_lt_iff h
  cases bound <;>
    simp [mapKey, lowerContains, upperContains, hle, hlt, hge, hgt]

/-- The bytes a table compares say exactly which rows are asked for. -/
theorem containsKey_tableBounds (row : StorageRow) : (bounds.tableBounds branchId).containsKey row.key =
      decide (bounds.ContainsIn branchId row.physicalKey) := by
  have hnamespace : ∀ userKey, row.physicalKey.namespaceKey =
      (bounds.keyIn branchId userKey).namespaceKey ↔ row.physicalKey.branchId = branchId ∧
        row.physicalKey.space = bounds.space ∧
        row.physicalKey.storageSpaceId = bounds.storageSpaceId := fun userKey => namespaceKey_eq_iff
  rw [Bool.eq_iff_iff, decide_eq_true_eq, ContainsIn, containsUserKey, tableBounds]
  cases bounds.userKeyPrefix with
  | some userKey =>
    simp only [containsKey, isPrefixOf_iff_prefix]
    rw [StorageRow.key, encodeInternalKey_eq, fromPhysicalKeyPrefix_isPrefix]
    rw [StorageRow.internalKey, hnamespace userKey, and_assoc, and_assoc]
    exact Iff.rfl
  | none =>
    simp only [containsKey, StorageRow.tableInternalPhysicalKeyBytes_key, Bool.and_eq_true, isPrefixOf_iff_prefix]
    have hbegins : fromPhysicalKeyPrefix (bounds.keyIn branchId []) <+: row.physicalKeyBytes ↔
        row.physicalKey.namespaceKey = (bounds.keyIn branchId []).namespaceKey := by
      have := fromPhysicalKeyPrefix_isPrefix (a := bounds.keyIn branchId [])
        (b := row.physicalKey) (t := [])
      rw [append_nil] at this
      rw [StorageRow.physicalKeyBytes, this]
      exact and_iff_left nil_prefix
    rw [hbegins]
    constructor
    · rintro ⟨⟨hns, hlower⟩, hupper⟩
      obtain ⟨h₁, h₂, h₃⟩ := (hnamespace []).mp hns
      rw [StorageRow.physicalKeyBytes] at hlower hupper
      rw [(bounds.lowerContains_mapKey branchId _ hns).1] at hlower
      rw [(bounds.lowerContains_mapKey branchId _ hns).2] at hupper
      exact ⟨h₁, h₂, h₃, hlower, hupper⟩
    · rintro ⟨h₁, h₂, h₃, hlower, hupper⟩
      have hns := (hnamespace []).mpr ⟨h₁, h₂, h₃⟩
      rw [StorageRow.physicalKeyBytes, (bounds.lowerContains_mapKey branchId _ hns).1,
        (bounds.lowerContains_mapKey branchId _ hns).2]
      exact ⟨⟨hns, hlower⟩, hupper⟩

/-- A physical key of the branch's tables lies above the end of a scan: above its upper user
key, or above every key of the namespace that begins with its bytes. -/
def EndsBelow (physicalKey : Bytes) : Prop :=
  (bounds.userKeyPrefix = none ∧ match bounds.upperUserKey with
    | .unbounded => False
    | .included userKey => encodePhysicalKey (bounds.keyIn branchId userKey) < physicalKey
    | .excluded userKey => encodePhysicalKey (bounds.keyIn branchId userKey) ≤ physicalKey) ∨
  ∀ userKey, bounds.userKeyPrefix.getD [] <+: userKey →
    encodePhysicalKey (bounds.keyIn branchId userKey) < physicalKey

/-- A row above every key that begins with some bytes does not begin with them, and is
above them. -/
theorem left_of_above {row : StorageRow} {bytes rest : Bytes} (h : ∀ userKey, bytes <+: userKey →
      encodePhysicalKey (bounds.keyIn branchId userKey) < row.physicalKeyBytes) :
    ¬fromPhysicalKeyPrefix (bounds.keyIn branchId bytes) <+: row.physicalKeyBytes ++ rest ∧
      fromPhysicalKeyPrefix (bounds.keyIn branchId bytes) < row.physicalKeyBytes := by
  refine ⟨fun hbegins => ?_, (le_of_isPrefix ( take_prefix _ _)).trans_lt (h bytes prefix_rfl)⟩
  obtain ⟨hns, hbytes⟩ := fromPhysicalKeyPrefix_isPrefix.mp hbegins
  refine lt_irrefl row.physicalKeyBytes (lt_of_eq_of_lt ?_ (h row.physicalKey.userKey hbytes))
  rw [StorageRow.physicalKeyBytes, encodePhysicalKey_eq_namespace, encodePhysicalKey_eq_namespace,
    namespaceBytes_eq_code, namespaceBytes_eq_code, hns]
  rfl

/-- The stop test of a bounded cursor sees every row above the end of the scan. -/
theorem isPastUpperBound_of_endsBelow {row : StorageRow} (h : bounds.EndsBelow branchId row.physicalKeyBytes) :
    (bounds.tableBounds branchId).isPastUpperBound row.key = true := by
  unfold EndsBelow at h
  rw [tableBounds]
  cases hbytes : bounds.userKeyPrefix with
  | some bytes =>
    rw [hbytes] at h
    obtain ⟨hleft, hlt⟩ := bounds.left_of_above branchId (h.resolve_left (by simp))
    rw [isPastUpperBound, Bool.and_eq_true, Bool.not_eq_true', ← Bool.not_eq_true, isPrefixOf_iff_prefix]
    exact ⟨hleft, decide_eq_true (hlt.trans_le row.physicalKeyBytes_le_key)⟩
  | none =>
    simp only [isPastUpperBound, StorageRow.tableInternalPhysicalKeyBytes_key, Bool.or_eq_true]
    rcases h with ⟨-, h⟩ | h
    · right
      cases hupper : bounds.upperUserKey with
      | unbounded => simp [hupper] at h
      | included userKey | excluded userKey =>
        simpa [hupper, mapKey, upperExcludesCurrentAndFollowing] using h
    · left
      rw [hbytes] at h
      obtain ⟨hleft, hlt⟩ := bounds.left_of_above branchId h
      rw [Bool.and_eq_true, Bool.not_eq_true', ← Bool.not_eq_true, isPrefixOf_iff_prefix]
      exact ⟨append_nil row.physicalKeyBytes ▸ hleft, decide_eq_true hlt⟩

end BranchScanBounds

/-! ## Tables beside the bounds -/

def physicalKeyIsBelowPrefixLower (key bytes : Bytes) : Bool :=
  !bytes.isEmpty && decide (key < bytes)

/-- The loop of `prefix_upper_bound`, on the reversed bytes: drop trailing `FF`
bytes, add one to the last byte left. -/
def prefixUpperBoundRev : Bytes → Option Bytes
  | [] => none
  | last :: bytes => if last = 0xFF then prefixUpperBoundRev bytes else some ((last + 1) :: bytes)

def prefixUpperBound (bytes : Bytes) : Option Bytes :=
  (prefixUpperBoundRev bytes.reverse).map List.reverse

def physicalKeyIsAbovePrefixUpper (key bytes : Bytes) : Bool :=
  (prefixUpperBound bytes).any fun upper => decide (upper ≤ key)

def physicalKeyIsBelowLowerBound (key : Bytes) : KeyBound → Bool
  | .unbounded => false
  | .included lower => decide (key < lower)
  | .excluded lower => decide (key ≤ lower)

/-- The comparison of `nonzero_table_is_before_scan_bounds` with the last
physical key of a table. -/
def lastIsBeforeScanBounds (last : Bytes) : TableKeyBounds → Bool
  | .range _ _ => false
  | .keyPrefix bytes => decide (last < bytes)
  | .physicalRange physicalPrefix lower _ =>
    physicalKeyIsBelowPrefixLower last physicalPrefix || physicalKeyIsBelowLowerBound last lower

/-- The comparison of `nonzero_table_is_after_scan_bounds` with the first
physical key of a table; `physical_key_is_above_upper_bound` is the cursor's
upper check. -/
def firstIsAfterScanBounds (first : Bytes) : TableKeyBounds → Bool
  | .range _ _ => false
  | .keyPrefix bytes => physicalKeyIsAbovePrefixUpper first bytes
  | .physicalRange physicalPrefix _ upper =>
    physicalKeyIsAbovePrefixUpper first physicalPrefix || upper.upperExcludesCurrentAndFollowing first

def nonzeroTableIsBeforeScanBounds (table : BranchOwnedTable) (bounds : TableKeyBounds) :
    Except BranchRuntimeError Bool := do
  let (_, last) ← tableFactPhysicalKeyBounds table
  .ok (lastIsBeforeScanBounds last bounds)

def nonzeroTableIsAfterScanBounds (table : BranchOwnedTable) (bounds : TableKeyBounds) :
    Except BranchRuntimeError Bool := do
  let (first, _) ← tableFactPhysicalKeyBounds table
  .ok (firstIsAfterScanBounds first bounds)

theorem lt_of_prefixUpperBoundRev {rev upper key : Bytes}
    (h : prefixUpperBoundRev rev = some upper) (hkey : rev.reverse <+: key) :
    key < upper.reverse := by
  induction rev with
  | nil => cases h
  | cons last rev ih =>
    rw [reverse_cons] at hkey
    rw [prefixUpperBoundRev] at h
    split_ifs at h with hlast
    · exact ih h ((prefix_append _ _).trans hkey)
    · cases h
      obtain ⟨s, rfl⟩ := hkey
      have hlt : last < last + 1 := by
        rw [UInt8.lt_iff_toNat_lt, UInt8.toNat_add]
        have hne : last.toNat ≠ 255 := fun h => hlast (UInt8.toNat_inj.mp h)
        have := last.toNat_lt
        simp only [UInt8.toNat_one]
        omega
      rw [reverse_cons, append_assoc, append_lt_append_left_iff, singleton_append, cons_lt_cons_iff]
      exact .inl hlt

/-- A key above the upper end of an initial part does not begin with it. -/
theorem not_isPrefix_of_above {key first bytes : Bytes}
    (h : physicalKeyIsAbovePrefixUpper first bytes = true) (hle : first ≤ key) :
    ¬ bytes <+: key := by
  intro hbegins
  rw [physicalKeyIsAbovePrefixUpper, prefixUpperBound, Option.any_map] at h
  cases hupper : prefixUpperBoundRev bytes.reverse with
  | none => simp [hupper] at h
  | some upper =>
    have hlt : key < upper.reverse := lt_of_prefixUpperBoundRev hupper (by rwa [reverse_reverse])
    have hge : upper.reverse ≤ first := by simpa [hupper] using h
    exact absurd (hge.trans hle) (not_le.mpr hlt)

namespace BranchScanBounds

variable (bounds : BranchScanBounds) (branchId : BranchId)
variable {row : StorageRow}

/-- In a row in bounds the bounds' bytes begin the physical key. -/
theorem isPrefix_physicalKeyBytes {bytes : Bytes}
    (hbounds : bounds.tableBounds branchId = .keyPrefix bytes) (h : bytes <+: row.key) :
    bytes <+: row.physicalKeyBytes := by
  rw [tableBounds] at hbounds
  split at hbounds
  · cases hbounds
    rw [StorageRow.key, encodeInternalKey_eq, fromPhysicalKeyPrefix_isPrefix] at h
    have := fromPhysicalKeyPrefix_isPrefix (t := []) |>.mpr h
    rwa [append_nil] at this
  · cases hbounds

/-- A table that ends before the bounds holds no row in bounds. -/
theorem containsKey_eq_false_of_before {last : Bytes}
    (h : lastIsBeforeScanBounds last (bounds.tableBounds branchId) = true)
    (hle : row.physicalKeyBytes ≤ last) :
    (bounds.tableBounds branchId).containsKey row.key = false := by
  rw [Bool.eq_false_iff]
  intro hcontains
  cases htable : bounds.tableBounds branchId with
  | range lower upper => simp [htable, lastIsBeforeScanBounds] at h
  | keyPrefix bytes =>
    rw [htable, containsKey, isPrefixOf_iff_prefix] at hcontains
    have hlt : last < bytes := by simpa [htable, lastIsBeforeScanBounds] using h
    have hge := le_of_isPrefix (bounds.isPrefix_physicalKeyBytes branchId htable hcontains)
    exact absurd (hge.trans hle) (not_le.mpr hlt)
  | physicalRange physicalPrefix lower upper =>
    simp only [htable, containsKey, StorageRow.tableInternalPhysicalKeyBytes_key,
      Bool.and_eq_true, isPrefixOf_iff_prefix] at hcontains
    obtain ⟨⟨hbegins, hlower⟩, -⟩ := hcontains
    rw [htable, lastIsBeforeScanBounds, Bool.or_eq_true] at h
    rcases h with h | h
    · simp only [physicalKeyIsBelowPrefixLower, Bool.and_eq_true, decide_eq_true_eq] at h
      exact absurd ((le_of_isPrefix hbegins).trans hle) (not_le.mpr h.2)
    · cases lower with
      | unbounded => cases h
      | included low =>
        have hlt : last < low := by simpa [physicalKeyIsBelowLowerBound] using h
        have hge : low ≤ row.physicalKeyBytes := by simpa [lowerContains] using hlower
        exact absurd (hge.trans hle) (not_le.mpr hlt)
      | excluded low =>
        have hlt : last ≤ low := by simpa [physicalKeyIsBelowLowerBound] using h
        have hge : low < row.physicalKeyBytes := by simpa [lowerContains] using hlower
        exact absurd (hge.trans_le hle) (not_lt.mpr hlt)

/-- A table that begins after the bounds holds no row in bounds. -/
theorem containsKey_eq_false_of_after {first : Bytes}
    (h : firstIsAfterScanBounds first (bounds.tableBounds branchId) = true)
    (hle : first ≤ row.physicalKeyBytes) :
    (bounds.tableBounds branchId).containsKey row.key = false := by
  rw [Bool.eq_false_iff]
  intro hcontains
  cases htable : bounds.tableBounds branchId with
  | range lower upper => simp [htable, firstIsAfterScanBounds] at h
  | keyPrefix bytes =>
    rw [htable, containsKey, isPrefixOf_iff_prefix] at hcontains
    rw [htable, firstIsAfterScanBounds] at h
    exact not_isPrefix_of_above h hle (bounds.isPrefix_physicalKeyBytes branchId htable hcontains)
  | physicalRange physicalPrefix lower upper =>
    simp only [htable, containsKey, StorageRow.tableInternalPhysicalKeyBytes_key,
      Bool.and_eq_true, isPrefixOf_iff_prefix] at hcontains
    obtain ⟨⟨hbegins, -⟩, hupper⟩ := hcontains
    rw [htable, firstIsAfterScanBounds, Bool.or_eq_true] at h
    rcases h with h | h
    · exact not_isPrefix_of_above h hle hbegins
    · rw [upperContains_eq_false h hle] at hupper
      cases hupper

end BranchScanBounds

/-- If a table ends before the bounds, so does every table that ends earlier. -/
theorem lastIsBeforeScanBounds_mono {bounds : TableKeyBounds} {last last' : Bytes}
    (h : lastIsBeforeScanBounds last bounds = true) (hle : last' ≤ last) :
    lastIsBeforeScanBounds last' bounds = true := by
  cases bounds with
  | range lower upper => cases h
  | keyPrefix bytes =>
    have h : last < bytes := by simpa [lastIsBeforeScanBounds] using h
    simpa [lastIsBeforeScanBounds] using hle.trans_lt h
  | physicalRange physicalPrefix lower upper =>
    rw [lastIsBeforeScanBounds, Bool.or_eq_true] at h ⊢
    refine h.imp (fun h => ?_) fun h => ?_
    · simp only [physicalKeyIsBelowPrefixLower, Bool.and_eq_true, decide_eq_true_eq] at h ⊢
      exact ⟨h.1, hle.trans_lt h.2⟩
    · cases lower with
      | unbounded => cases h
      | included low =>
        have h : last < low := by simpa [physicalKeyIsBelowLowerBound] using h
        simpa [physicalKeyIsBelowLowerBound] using hle.trans_lt h
      | excluded low =>
        have h : last ≤ low := by simpa [physicalKeyIsBelowLowerBound] using h
        simpa [physicalKeyIsBelowLowerBound] using hle.trans h

end Strata
