import StrataStorage.Engine.Key
import StrataStorage.Lib.Stateful
import Mathlib.Data.List.Sort
import Mathlib.Data.List.Dedup

/-!
# Rows of a branch and their commit

What the engine sees of a branch through `persistence/adapter.rs`: the rows that
are visible at its head, under keys of one capability, and the space control rows
beside them. A commit plan is applied as a whole or not at all. The storage crate
refuses a plan that changes one key twice; every other reason of a refusal (a
full budget, a changed generation, a failed log write) is the `verdict`, an input
of the model. A commit whose outcome could not be proven fails too, whether its
rows are there or not.
-/

namespace Strata.Engine

/-! ## Space control rows

The branch-local catalog of product spaces (`control/space.rs`): an index row
that lists the registered spaces, sorted and without repetition, and one catalog
row for each of them. The payloads of these rows are read back as what they
encode; the checks their decoders make are made here on every read. -/

/-- The space control rows of a branch: the index row and the catalog rows, each
with the name of its key and the name it holds. -/
structure SpaceRows where
  index : Option (List ProductSpace)
  catalog : List (ProductSpace × ProductSpace)

/-- One mutation of the space control rows. -/
inductive SpaceMutation where
  | putIndex (spaces : List ProductSpace)
  | putRecord (space : ProductSpace)
  | deleteRecord (space : ProductSpace)
  deriving DecidableEq

namespace SpaceRows

def applyOne (rows : SpaceRows) : SpaceMutation → SpaceRows
  | .putIndex spaces => { rows with index := some spaces }
  | .putRecord space =>
    { rows with catalog := (space, space) :: rows.catalog.filter (·.1 ≠ space) }
  | .deleteRecord space => { rows with catalog := rows.catalog.filter (·.1 ≠ space) }

def apply (rows : SpaceRows) (mutations : List SpaceMutation) : SpaceRows :=
  mutations.foldl applyOne rows

end SpaceRows

/-- The order of spaces is that of their names. -/
def sortedSpaces (spaces : List ProductSpace) : Prop := spaces.Pairwise fun a b => a.text < b.text

instance (spaces : List ProductSpace) : Decidable (sortedSpaces spaces) :=
  inferInstanceAs (Decidable (spaces.Pairwise _))

/-- `spaces.sort(); spaces.dedup()`. -/
def sortDedupSpaces (spaces : List ProductSpace) : List ProductSpace :=
  (spaces.insertionSort fun a b => a.text ≤ b.text).dedup

/-- `encode_space_index` refuses more spaces than its count field holds. -/
def putSpaceIndex (spaces : List ProductSpace) : Except EngineError SpaceMutation := do
  .require (spaces.length < 65536) (.invalidInput "invalid_argument.engine.space_catalog"
      "space catalog contains too many entries")
  .ok (.putIndex spaces)

/-- `decode_space_index`: the entries are sorted and unique. -/
def decodeSpaceIndex (spaces : List ProductSpace) : Except EngineError (List ProductSpace) := do
  .require (sortedSpaces spaces) (.corruption "data_loss.engine.space_catalog"
      "space index entries must be sorted and unique")
  .ok spaces

/-- `read_required`'s error for a row that is not there. -/
def missingSpaceRow : EngineError :=
  .corruption "data_loss.engine.space_catalog" "required branch-local space control row is missing"

def readRequiredSpaceIndex (rows : SpaceRows) : Except EngineError (List ProductSpace) :=
  match rows.index with
  | none => .error missingSpaceRow
  | some spaces => decodeSpaceIndex spaces

def validateSpaceCatalogRow (rows : SpaceRows) (space : ProductSpace) : Except EngineError Unit :=
  match rows.catalog.lookup space with
  | none => .error missingSpaceRow
  | some decoded =>
    .require (decoded = space) (.corruption "data_loss.engine.space_catalog"
        "space catalog row name does not match its index entry")

def registrationMutations (rows : SpaceRows) (space : ProductSpace) : Except EngineError (List SpaceMutation) := do
  let spaces ← readRequiredSpaceIndex rows
  if space ∈ spaces then
    validateSpaceCatalogRow rows space
    .ok []
  else
    let index ← putSpaceIndex (sortDedupSpaces (spaces ++ [space]))
    .ok [index, .putRecord space]

/-! ## Branches -/

/-- The visible rows of a branch. -/
structure BranchRows (K V : Type) [Coded K] where
  spaces : SpaceRows
  rows : KeyedRows K V

/-- The row a space mutation changes: the index, or the record of a space. -/
def SpaceMutation.target : SpaceMutation → Option ProductSpace
  | .putIndex _ => none
  | .putRecord space | .deleteRecord space => some space

/-- `map_storage_error` of a refused commit batch. -/
def invalidPersistenceRequest : EngineError :=
  .invalidInput "invalid_argument.engine.persistence" "persistence request was invalid"

/-- `map_storage_error` of a commit that may have been made. -/
def ambiguousCommit : EngineError := ⟨.ambiguousCommit, "ambiguous_commit.engine.persistence",
  "persistence could not prove whether the commit succeeded"⟩

/-- What the storage crate does with a commit batch. -/
inductive CommitVerdict where
  | committed
  | refused (error : EngineError)
  | ambiguous (applied : Bool)
  deriving DecidableEq

/-- The rows are there. -/
def CommitVerdict.applies : CommitVerdict → Bool
  | committed => true
  | refused _ => false
  | ambiguous applied => applied

/-- What a failure leaves: the state before, or what it was to write if the outcome of
the commit is ambiguous. -/
def CommitVerdict.Leaves {σ : Type} (verdict : CommitVerdict) (before : σ) (Written : σ → Prop) (after : σ) : Prop :=
  after = before ∨ verdict = .ambiguous true ∧ Written after

theorem CommitVerdict.Leaves.imp {σ : Type} {verdict : CommitVerdict} {before after : σ} {P Q : σ → Prop}
    (h : verdict.Leaves before P after) (hPQ : P after → Q after) : verdict.Leaves before Q after :=
  Or.imp_right (And.imp_right hPQ) h

namespace BranchRows

variable {K V : Type} [Coded K] [DecidableEq K]

def applyAll (spaceMutations : List SpaceMutation) (mutations : List (Change K V)) (branch : BranchRows K V) :
    BranchRows K V :=
  ⟨branch.spaces.apply spaceMutations, branch.rows.apply mutations⟩

def commit (spaceMutations : List SpaceMutation) (mutations : List (Change K V))
    (verdict : CommitVerdict) : Stateful (BranchRows K V) EngineError Unit := do
  Stateful.lift (Except.require
    ((spaceMutations.map SpaceMutation.target).Nodup ∧ (mutations.map Change.key).Nodup)
    invalidPersistenceRequest)
  Stateful.when (verdict.applies = true) (Stateful.modify (applyAll spaceMutations mutations))
  match verdict with
  | .committed => return ()
  | .refused error => Stateful.throw error
  | .ambiguous _ => Stateful.throw ambiguousCommit

/-- A commit that succeeds applies every mutation; one that fails applies none, or
is ambiguous and applies every one. -/
theorem commit_spec {spaceMutations : List SpaceMutation} {mutations : List (Change K V)}
    {verdict : CommitVerdict} (before : BranchRows K V) :
    let Applied (after : BranchRows K V) := verdict.applies = true ∧ (mutations.map Change.key).Nodup ∧
      after = before.applyAll spaceMutations mutations
    Stateful.Spec (· = before) (commit spaceMutations mutations verdict) (fun _ => Applied)
      (verdict.Leaves before Applied) := by
  intro Applied
  refine .lift_bind (fun _ h => .inl h) fun _ hkeys => ?_
  rw [Except.require_eq_ok] at hkeys
  cases verdict with
  | committed => exact .modify_at (.pure fun _ h => ⟨rfl, hkeys.2, h⟩)
  | refused error => exact .skip_bind (by simp [CommitVerdict.applies]) (.throw fun _ h => .inl h)
  | ambiguous applied =>
    cases applied with
    | true => exact .modify_at (.throw fun _ h => .inr ⟨rfl, rfl, hkeys.2, h⟩)
    | false => exact .skip_bind (by simp [CommitVerdict.applies]) (.throw fun _ h => .inl h)

end BranchRows

end Strata.Engine
