import StrataStorage.Branch.State
import StrataStorage.Wal.Segment

/-!
# Commit batches

`commit/batch.rs` and `commit/conflict.rs`: what a caller asks to commit, the
checks of its shape, the rows it becomes under a stamp, and the check of its
read and compare-and-set facts against a read source.

* `validateBatchShape_eq_ok`: what an accepted batch satisfies;
* `stampUserRows_spec`: the rows of an accepted batch;
* `validateCommitConflicts_eq_ok`: every expectation of a batch that passes holds
  of the source.
-/

namespace Strata

open Except List

def storageEngineMinId : UInt8 := 0x20

theorem storageEngineMinId_ne_zero : storageEngineMinId ≠ 0 := by decide

def StorageSpaceId.isEngineOwned (id : StorageSpaceId) : Bool := storageEngineMinId ≤ id.raw

structure CommitRuntimeConfig where
  maxMutationsPerBatch : Nat
  maxValidationFactsPerBatch : Nat
  maxCommitRowsPerBatch : Nat

inductive CommitObservedVersion where
  | missing
  | present (version : CommitVersion)
  deriving DecidableEq

inductive CommitConflictKind where
  | readSet
  | cas
  deriving DecidableEq

inductive CommitLowerLayer where
  | branchRuntime
  | storageBudget
  | walFormat
  | walService
  deriving DecidableEq

/-- `CommitRuntimeError`, without the errors it wraps. -/
inductive CommitRuntimeError where
  | invalidConfig (field reason : String)
  | invalidCommitState (reason : String)
  | invalidBatch (reason : String)
  | invalidMutation (reason : String)
  | invalidValidationFacts (reason : String)
  | invalidVisibilityFacts (reason : String)
  | duplicateMutationKey (spaceId : StorageSpaceId)
  | branchMismatch (expected actual : BranchId)
  | branchNotFound (branchId : BranchId)
  | commitConflict (kind : CommitConflictKind) (key : PhysicalKey) (expected actual : CommitObservedVersion)
  | durabilityUncertain (branchId : BranchId) (commitVersion : CommitVersion) (reason : String)
  | durableButNotVisible (branchId : BranchId) (commitVersion : CommitVersion) (reason : String)
  | unresolvedDurableCommit (branchId : BranchId) (commitVersion : CommitVersion)
  | storageOwnedMutationSpace (spaceId : StorageSpaceId)
  | durabilityUnavailable (reason : String)
  | versionAllocatorOverflow (lastAllocated : CommitVersion)
  | invalidTimestampPolicy (reason : String)
  | invalidTimelineFact (reason : String)
  | timelineConflict (reason : String)
  | lowerLayer (layer : CommitLowerLayer) (reason : String)
  deriving DecidableEq

inductive CommitExpiry where
  | none
  | at (timestamp : Timestamp)
  deriving DecidableEq

inductive CommitMutation where
  | put (key : PhysicalKey) (value : Bytes) (expiresAt : CommitExpiry)
  | delete (key : PhysicalKey)
  deriving DecidableEq

inductive CommitBatchKind where
  | mutating
  | readOnlyDiagnostic
  deriving DecidableEq

inductive CommitDurabilityMode where
  | cache
  | standard
  | always
  deriving DecidableEq

inductive CommitConflictValidationMode where
  | validate
  | skip
  deriving DecidableEq

inductive CommitTimestampPolicy where
  | runtimeGenerated
  | runtimeGeneratedBase (candidate : Timestamp)
  | explicit (timestamp : Timestamp)
  deriving DecidableEq

structure CommitReadFact where
  key : PhysicalKey
  observed : CommitObservedVersion
  deriving DecidableEq

structure CommitCasFact where
  key : PhysicalKey
  expected : CommitObservedVersion
  deriving DecidableEq

/-- `CommitBatch`, with the options a commit reads. -/
structure CommitBatch where
  branchId : BranchId
  kind : CommitBatchKind
  mutations : List CommitMutation
  readSet : List CommitReadFact
  casSet : List CommitCasFact
  durability : CommitDurabilityMode
  conflictValidation : CommitConflictValidationMode
  timestampPolicy : CommitTimestampPolicy
  committedAt : Option Timestamp

structure CommitStamp where
  branchId : BranchId
  commitVersion : CommitVersion
  commitTimestamp : Timestamp
  committedAt : Option Timestamp
  deriving DecidableEq

def CommitMutation.physicalKey : CommitMutation → PhysicalKey
  | .put key _ _ => key
  | .delete key => key

def CommitExpiry.toStorageTimestamp : CommitExpiry → Except CommitRuntimeError Timestamp
  | .none => .ok Timestamp.epoch
  | .at timestamp =>
    if timestamp = Timestamp.epoch then
      .error (.invalidMutation "expiry at epoch is reserved as no expiry")
    else .ok timestamp

/-! ## The shape of a batch -/

namespace CommitBatch

def requireBranch (branchId : BranchId) (key : PhysicalKey) : Except CommitRuntimeError Unit :=
  .require (key.branchId = branchId) (.branchMismatch branchId key.branchId)

def requireEngineSpace (key : PhysicalKey) : Except CommitRuntimeError Unit :=
  .require (key.storageSpaceId.isEngineOwned) (.storageOwnedMutationSpace key.storageSpaceId)

/-- `validate_duplicate_mutations`; `seen` are the keys before. -/
def validateDuplicateMutations (seen : List PhysicalKey) : List CommitMutation → Except CommitRuntimeError Unit
  | [] => .ok ()
  | mutation :: mutations => do
    .require (mutation.physicalKey ∉ seen) (.duplicateMutationKey mutation.physicalKey.storageSpaceId)
    validateDuplicateMutations (mutation.physicalKey :: seen) mutations

/-- `CommitObservedVersion::validate`. -/
def validateObserved (observed : CommitObservedVersion) : Except CommitRuntimeError Unit :=
  .require (observed ≠ .present 0) (.invalidValidationFacts "missing observed version must use Missing")

/-- `validate_mutation_expiry`, of one mutation. -/
def validateExpiry : CommitMutation → Except CommitRuntimeError Unit
  | .put _ _ expiresAt => (expiresAt.toStorageTimestamp).map fun _ => ()
  | .delete _ => .ok ()

/-- The check of the kind of a batch in `validate_batch_shape`. -/
def validateKind (batch : CommitBatch) : Except CommitRuntimeError Unit :=
  match batch.kind with
  | .mutating => Except.require (batch.mutations ≠ [])
      (.invalidBatch "mutating batch must contain at least one mutation")
  | .readOnlyDiagnostic => Except.require (batch.mutations = [])
      (.invalidBatch "read-only diagnostic batch must not contain mutations")

def validateBatchShape (config : CommitRuntimeConfig) (batch : CommitBatch) : Except CommitRuntimeError Unit := do
  batch.validateKind
  .require (batch.mutations.length ≤ config.maxMutationsPerBatch)
    (.invalidBatch "mutation count exceeds configured limit")
  .require (batch.readSet.length + batch.casSet.length ≤ config.maxValidationFactsPerBatch)
    (.invalidValidationFacts "validation fact count exceeds configured limit")
  .require (batch.mutations.length ≤ config.maxCommitRowsPerBatch)
    (.invalidBatch "stamped row count exceeds configured limit")
  batch.mutations.forM fun mutation => requireBranch batch.branchId mutation.physicalKey
  batch.readSet.forM fun fact => requireBranch batch.branchId fact.key
  batch.casSet.forM fun fact => requireBranch batch.branchId fact.key
  batch.mutations.forM fun mutation => requireEngineSpace mutation.physicalKey
  batch.readSet.forM fun fact => requireEngineSpace fact.key
  batch.casSet.forM fun fact => requireEngineSpace fact.key
  validateDuplicateMutations [] batch.mutations
  .require (batch.readSet.map (·.key)).Nodup (.invalidValidationFacts "duplicate read fact")
  .require (batch.casSet.map (·.key)).Nodup (.invalidValidationFacts "duplicate cas fact")
  batch.readSet.forM fun fact => validateObserved fact.observed
  batch.casSet.forM fun fact => validateObserved fact.expected
  batch.mutations.forM validateExpiry

def stampMutation (stamp : CommitStamp) : CommitMutation → Except CommitRuntimeError StorageRow
  | .put key value expiresAt => do
    let expires ← expiresAt.toStorageTimestamp
    .ok (.put key stamp.commitVersion stamp.commitTimestamp expires value)
  | .delete key => .ok (.tombstone key stamp.commitVersion stamp.commitTimestamp)

def stampUserRows (batch : CommitBatch) (stamp : CommitStamp) : Except CommitRuntimeError (List StorageRow) := do
  .require (batch.kind = .mutating) (.invalidBatch "read-only diagnostic batch cannot stamp rows")
  .require (stamp.branchId = batch.branchId) (.branchMismatch batch.branchId stamp.branchId)
  batch.mutations.mapM (stampMutation stamp)

/-! ## Conflicts -/

/-- The loop over the facts of one kind in `validate_commit_conflicts`. -/
def validateFacts (kind : CommitConflictKind)
    (source : PhysicalKey → Except CommitRuntimeError CommitObservedVersion)
    (facts : List (PhysicalKey × CommitObservedVersion)) : Except CommitRuntimeError Unit :=
  facts.forM fun (key, expected) => do
    let actual ← source key
    .require (actual = expected) (.commitConflict kind key expected actual)

/-- The facts of both kinds, as pairs. -/
def readFacts (batch : CommitBatch) : List (PhysicalKey × CommitObservedVersion) :=
  batch.readSet.map fun fact => (fact.key, fact.observed)

def casFacts (batch : CommitBatch) : List (PhysicalKey × CommitObservedVersion) :=
  batch.casSet.map fun fact => (fact.key, fact.expected)

/-- `validate_commit_conflicts`, and the paths that need no source. -/
def validateCommitConflicts (batch : CommitBatch)
    (source : PhysicalKey → Except CommitRuntimeError CommitObservedVersion) :
    Except CommitRuntimeError Unit :=
  if batch.kind = .readOnlyDiagnostic ∨ batch.conflictValidation = .skip then .ok ()
  else do
    validateFacts .readSet source batch.readFacts
    validateFacts .cas source batch.casFacts

/-- `current_observed_version` of a source capped at a version. -/
def currentObservedVersion (view : BranchReadView) (version : CommitVersion) (key : PhysicalKey) :
    Except CommitRuntimeError CommitObservedVersion :=
  ((view.readPoint key (.atVersion version)).mapError fun _ =>
    .lowerLayer .branchRuntime "conflict read view lookup failed").map fun found =>
      match found with
      | some candidate => .present candidate.row.commitVersion
      | none => .missing

/-- What an accepted mutating batch satisfies. -/
structure ShapeValid (batch : CommitBatch) : Prop where
  mutations_ne : batch.mutations ≠ []
  mutations_branch : ∀ mutation ∈ batch.mutations, mutation.physicalKey.branchId = batch.branchId
  facts_branch : ∀ fact ∈ batch.readFacts ++ batch.casFacts, fact.1.branchId = batch.branchId
  keys_nodup : (batch.mutations.map CommitMutation.physicalKey).Nodup

section

variable {config : CommitRuntimeConfig} {batch : CommitBatch} {stamp : CommitStamp}
variable {mutations : List CommitMutation} {rows : List StorageRow}

theorem validateDuplicateMutations_eq_ok {seen : List PhysicalKey} :
    validateDuplicateMutations seen mutations = .ok () ↔ (mutations.map CommitMutation.physicalKey).Nodup ∧
        ∀ mutation ∈ mutations, mutation.physicalKey ∉ seen := by
  induction mutations generalizing seen with
  | nil => simp [validateDuplicateMutations]
  | cons mutation mutations ih =>
    rw [validateDuplicateMutations, check_bind_eq_ok, require_eq_ok, ih]
    simp only [map_cons, nodup_cons, mem_map, mem_cons, not_or, not_exists, not_and, forall_eq_or_imp]
    constructor
    · rintro ⟨hseen, hnodup, hnot⟩
      exact ⟨⟨fun m hm => (hnot m hm).1, hnodup⟩, hseen, fun m hm => (hnot m hm).2⟩
    · rintro ⟨⟨hfirst, hnodup⟩, hseen, hnot⟩
      exact ⟨hseen, hnodup, fun m hm => ⟨hfirst m hm, hnot m hm⟩⟩

/-- A mutating batch that passes the check has its rows and facts in its branch,
and one mutation for a key. -/
theorem validateBatchShape_eq_ok (h : batch.validateBatchShape config = .ok ())
    (hkind : batch.kind = .mutating) : batch.ShapeValid := by
  unfold validateBatchShape at h
  simp only [check_bind_eq_ok, forM_eq_ok, requireBranch, require_eq_ok] at h
  obtain ⟨hnonempty, -, -, -, hmutations, hreads, hcas, -, -, -, hnodup, -⟩ := h
  rw [validateKind, hkind] at hnonempty
  refine ⟨require_eq_ok.1 hnonempty, hmutations, fun fact hfact => ?_,
    (validateDuplicateMutations_eq_ok.1 hnodup).1⟩
  simp only [readFacts, casFacts, mem_append, mem_map] at hfact
  rcases hfact with ⟨read, hread, rfl⟩ | ⟨cas, hmem, rfl⟩
  · exact hreads read hread
  · exact hcas cas hmem

theorem stampMutation_eq_ok {mutation : CommitMutation} {row : StorageRow}
    (h : stampMutation stamp mutation = .ok row) : row.physicalKey = mutation.physicalKey ∧
      row.commitVersion = stamp.commitVersion ∧ row.commitTimestamp = stamp.commitTimestamp := by
  cases mutation with
  | put key value expiresAt =>
    obtain ⟨expires, -, hrow⟩ := bind_eq_ok.1 h
    cases hrow
    exact ⟨rfl, rfl, rfl⟩
  | delete key =>
    cases h
    exact ⟨rfl, rfl, rfl⟩

/-- The rows of a list of mutations have its keys, in order, and the stamp. -/
theorem mapM_stampMutation_eq_ok (h : mutations.mapM (stampMutation stamp) = .ok rows) :
    rows.map (·.physicalKey) = mutations.map CommitMutation.physicalKey ∧
      ∀ row ∈ rows, row.commitVersion = stamp.commitVersion ∧ row.commitTimestamp = stamp.commitTimestamp := by
  induction mutations generalizing rows with
  | nil =>
    cases h
    simp
  | cons mutation mutations ih =>
    rw [mapM_cons] at h
    obtain ⟨row, hrow, h⟩ := bind_eq_ok.1 h
    obtain ⟨rest, hrest, h⟩ := bind_eq_ok.1 h
    cases h
    obtain ⟨hkey, hstamp⟩ := stampMutation_eq_ok hrow
    obtain ⟨hkeys, hstamps⟩ := ih hrest
    refine ⟨by rw [map_cons, map_cons, hkey, hkeys], fun r hr => ?_⟩
    rcases mem_cons.1 hr with rfl | hr
    · exact hstamp
    · exact hstamps r hr

/-- The rows of a batch of accepted shape: in its branch, under the stamp, with
keys of their own. -/
theorem stampUserRows_spec (hshape : batch.ShapeValid) (h : batch.stampUserRows stamp = .ok rows) : rows ≠ [] ∧
      (∀ row ∈ rows, row.physicalKey.branchId = batch.branchId ∧
        row.commitVersion = stamp.commitVersion) ∧ (rows.map (·.key)).Nodup := by
  unfold stampUserRows at h
  simp only [check_bind_eq_ok, require_eq_ok] at h
  obtain ⟨-, -, hmap⟩ := h
  obtain ⟨hkeys, hstamps⟩ := mapM_stampMutation_eq_ok hmap
  refine ⟨?_, fun row hrow => ⟨?_, (hstamps row hrow).1⟩, ?_⟩
  · rintro rfl
    exact hshape.mutations_ne (map_eq_nil_iff.1 hkeys.symm)
  · have hmem : row.physicalKey ∈ rows.map (·.physicalKey) := mem_map_of_mem hrow
    rw [hkeys] at hmem
    obtain ⟨mutation, hmutation, heq⟩ := mem_map.1 hmem
    rw [← heq]
    exact hshape.mutations_branch mutation hmutation
  · -- equal internal keys mean equal physical keys
    have hnodup : (rows.map (·.physicalKey)).Nodup := hkeys ▸ hshape.keys_nodup
    rw [nodup_iff_pairwise_ne, pairwise_map] at hnodup ⊢
    exact hnodup.imp fun hne heq => hne (congrArg InternalKey.physicalKey (encodeInternalKey_injective heq))

/-- Where a batch asks for validation and passes it, each of its expectations is
what the source has. -/
theorem validateCommitConflicts_eq_ok {source : PhysicalKey → Except CommitRuntimeError CommitObservedVersion}
    (h : batch.validateCommitConflicts source = .ok ()) (hkind : batch.kind = .mutating)
    (hmode : batch.conflictValidation = .validate) :
    ∀ fact ∈ batch.readFacts ++ batch.casFacts, source fact.1 = .ok fact.2 := by
  have hfacts : ∀ {kind facts}, validateFacts kind source facts = .ok () →
      ∀ fact ∈ facts, source fact.1 = .ok fact.2 := by
    intro kind facts hok fact hmem
    have hone := forM_eq_ok.1 hok fact hmem
    obtain ⟨actual, hactual, hrequire⟩ := bind_eq_ok.1 hone
    rw [hactual, require_eq_ok.1 hrequire]
  rw [validateCommitConflicts, if_neg (by simp [hkind, hmode]), check_bind_eq_ok] at h
  intro fact hmem
  rcases mem_append.1 hmem with hmem | hmem
  · exact hfacts h.1 fact hmem
  · exact hfacts h.2 fact hmem

end

/-- What a row found by a read says of the version of its key. -/
def observedOf (found : Option StorageRow) : CommitObservedVersion :=
  match found with
  | some row => .present row.commitVersion
  | none => .missing

/-- The source of a captured view reads the contents of the branch. -/
theorem currentObservedVersion_captureReadView (state : BranchLocalState) {key : PhysicalKey}
    (hkey : key.branchId = state.branchId) (version : CommitVersion) :
    currentObservedVersion state.captureReadView version key =
      .ok (observedOf (visibleRow state.contents key (.atVersion version))) := by
  have hread := state.readPoint_captureReadView hkey version
  unfold currentObservedVersion
  cases hpoint : state.captureReadView.readPoint key (.atVersion version) with
  | error e =>
    rw [hpoint] at hread
    cases hread
  | ok found =>
    rw [hpoint] at hread
    rw [← ok.inj hread]
    cases found <;> rfl

end CommitBatch

end Strata
