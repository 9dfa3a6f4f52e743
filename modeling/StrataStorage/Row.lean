import StrataStorage.Lib.OrderCode

/-!
# Physical storage rows

The in-memory row model of the storage crate (`row/mod.rs`, and the branch,
version and time types of the core crate). A row belongs to a physical key, the
branch, space, storage-space id and user key, and carries the version and the
timestamp of the commit that wrote it. A row is a put or a tombstone; the shape
of a tombstone (no value, no expiry) is a field of the type, as the two
constructors `StorageRow.put` and `StorageRow.tombstone` are the only ones.
-/

namespace Strata

abbrev Bytes := List UInt8

/-- A commit version, `u64`. -/
abbrev CommitVersion := UInt64

/-- Microseconds since the epoch, `u64`. -/
abbrev Timestamp := UInt64

/-- `Timestamp::EPOCH`, which also stands for "no expiry" in a row. -/
def Timestamp.epoch : Timestamp := 0

def CommitVersion.max : CommitVersion := 0xFFFFFFFFFFFFFFFF

theorem CommitVersion.le_max (v : CommitVersion) : v ≤ max := by
  rw [UInt64.le_iff_toNat_le]
  have := v.toNat_lt
  simp only [max, UInt64.toNat_ofNat]
  omega

/-- The 16 bytes of a branch identity. -/
structure BranchId where
  bytes : Bytes
  length_bytes : bytes.length = 16
  deriving DecidableEq

def BranchId.byteLen : Nat := 16

/-- `BranchId::try_from_slice`; `none` is `BranchIdError::InvalidLength`. -/
def BranchId.tryFromSlice (bytes : Bytes) : Option BranchId :=
  if h : bytes.length = 16 then some ⟨bytes, h⟩ else none

variable {bytes : Bytes}

theorem BranchId.tryFromSlice_eq_some {id : BranchId} : tryFromSlice bytes = some id ↔ id.bytes = bytes := by
  unfold tryFromSlice
  split_ifs with h
  · rw [Option.some.injEq]
    exact ⟨fun h => h ▸ rfl, fun h => by cases id; cases h; rfl⟩
  · exact ⟨(nomatch ·), fun h' => absurd (h' ▸ id.length_bytes) h⟩

inductive RowError where
  | invalidStorageSpaceId (raw : UInt8)
  | storageReservedSpaceId (raw : UInt8)
  | emptySpace
  | spaceContainsNul
  deriving DecidableEq

/-- A storage-space id; `0x00` is `StorageSpaceId::INVALID` and never held. -/
structure StorageSpaceId where
  raw : UInt8
  raw_ne_zero : raw ≠ 0
  deriving DecidableEq

def StorageSpaceId.fromRaw (raw : UInt8) : Except RowError StorageSpaceId :=
  if h : raw = 0 then .error (.invalidStorageSpaceId raw) else .ok ⟨raw, h⟩

variable {id : StorageSpaceId} {space : String}

theorem StorageSpaceId.fromRaw_eq_ok {raw : UInt8} : fromRaw raw = .ok id ↔ id.raw = raw := by
  unfold fromRaw
  split_ifs with h
  · exact ⟨(nomatch ·), fun h' => absurd (h' ▸ h) id.raw_ne_zero⟩
  · rw [Except.ok.injEq]
    exact ⟨fun h => h ▸ rfl, fun h => by cases id; cases h; rfl⟩

/-- The UTF-8 bytes of a string (`str::as_bytes`). -/
def utf8Bytes (s : String) : Bytes := s.toUTF8.data.toList

def fromUtf8 (bytes : Bytes) : Option String := String.fromUTF8? ⟨bytes.toArray⟩

@[simp] theorem fromUtf8_utf8Bytes (s : String) : fromUtf8 (utf8Bytes s) = some s := by
  simp [fromUtf8, utf8Bytes, String.fromUTF8?, String.fromUTF8, s.isValidUTF8]

theorem fromUtf8_eq_some {s : String} : fromUtf8 bytes = some s ↔ utf8Bytes s = bytes := by
  refine ⟨fun h => ?_, fun h => h ▸ fromUtf8_utf8Bytes s⟩
  unfold fromUtf8 String.fromUTF8? at h
  split at h
  · cases h; simp [String.fromUTF8, utf8Bytes]
  · cases h

def validateSpace (space : String) : Except RowError Unit :=
  if utf8Bytes space = [] then .error .emptySpace
  else if 0 ∈ utf8Bytes space then .error .spaceContainsNul
  else .ok ()

/-- A physical key: its space passed `validateSpace`. -/
structure PhysicalKey where
  branchId : BranchId
  space : String
  storageSpaceId : StorageSpaceId
  userKey : Bytes
  space_valid : validateSpace space = .ok ()
  deriving DecidableEq

def PhysicalKey.new (branchId : BranchId) (space : String) (storageSpaceId : StorageSpaceId)
    (userKey : Bytes) : Except RowError PhysicalKey :=
  match h : validateSpace space with
  | .error e => .error e
  | .ok () => .ok ⟨branchId, space, storageSpaceId, userKey, h⟩

theorem validateSpace_eq_ok : validateSpace space = .ok () ↔ utf8Bytes space ≠ [] ∧ 0 ∉ utf8Bytes space := by
  unfold validateSpace
  split <;> [simp_all; split <;> simp_all]

theorem PhysicalKey.new_eq_ok {branchId : BranchId} {userKey : Bytes} {key : PhysicalKey} :
    new branchId space id userKey = .ok key ↔ key.branchId = branchId ∧
      key.space = space ∧ key.storageSpaceId = id ∧ key.userKey = userKey := by
  unfold new
  split
  · rename_i h
    refine ⟨(nomatch ·), ?_⟩
    rintro ⟨rfl, rfl, rfl, rfl⟩
    rw [key.space_valid] at h; cases h
  · refine ⟨fun h' => by cases h'; exact ⟨rfl, rfl, rfl, rfl⟩, ?_⟩
    rintro ⟨rfl, rfl, rfl, rfl⟩; rfl

/-- The same key in another branch. -/
def PhysicalKey.withBranch (key : PhysicalKey) (branchId : BranchId) : PhysicalKey :=
  { key with branchId }

@[simp] theorem PhysicalKey.withBranch_branchId (key : PhysicalKey) (b : BranchId) :
    (key.withBranch b).branchId = b := rfl
@[simp] theorem PhysicalKey.withBranch_withBranch (key : PhysicalKey) (b c : BranchId) :
    (key.withBranch b).withBranch c = key.withBranch c := rfl
@[simp] theorem PhysicalKey.withBranch_self (key : PhysicalKey) : key.withBranch key.branchId = key := rfl

structure InternalKey where
  physicalKey : PhysicalKey
  commitVersion : CommitVersion
  deriving DecidableEq

/-- A storage row. A tombstone carries neither a value nor an expiry. -/
structure StorageRow where
  physicalKey : PhysicalKey
  commitVersion : CommitVersion
  commitTimestamp : Timestamp
  expiresAt : Timestamp
  value : Bytes
  isTombstone : Bool
  tombstone_shape : isTombstone = true → expiresAt = Timestamp.epoch ∧ value = []
  deriving DecidableEq

namespace StorageRow

def put (physicalKey : PhysicalKey) (commitVersion : CommitVersion) (commitTimestamp : Timestamp)
    (expiresAt : Timestamp) (value : Bytes) : StorageRow :=
  { physicalKey, commitVersion, commitTimestamp, expiresAt, value, isTombstone := false,
    tombstone_shape := by simp }

def tombstone (physicalKey : PhysicalKey) (commitVersion : CommitVersion)
    (commitTimestamp : Timestamp) : StorageRow :=
  { physicalKey, commitVersion, commitTimestamp, expiresAt := Timestamp.epoch, value := [],
    isTombstone := true, tombstone_shape := fun _ => ⟨rfl, rfl⟩ }

/-- The internal key a row is stored under. -/
def internalKey (row : StorageRow) : InternalKey := ⟨row.physicalKey, row.commitVersion⟩

end StorageRow

/-! ## Worked inputs -/

namespace Sample

theorem length_zeros : (List.replicate 16 (0 : UInt8)).length = 16 := rfl

theorem length_ones : (List.replicate 16 (1 : UInt8)).length = 16 := rfl

theorem one_ne_zero : (1 : UInt8) ≠ 0 := by decide

theorem space_valid : validateSpace "s" = .ok () := by decide

def branch : BranchId := ⟨List.replicate 16 0, length_zeros⟩

def key : PhysicalKey := ⟨branch, "s", ⟨1, one_ne_zero⟩, [1], space_valid⟩

/-- A put of `key`, without expiry. -/
def put (version : CommitVersion) (timestamp : Timestamp) : StorageRow :=
  .put key version timestamp Timestamp.epoch [1]

end Sample

end Strata
