import Mathlib.Data.List.Dedup
import StrataStorage.Commit.Sections

/-!
# Coverage of an interval of versions

`lifecycle/checkpoint.rs`: the durable tables of a branch are asked whether they cover the
versions between its checkpoint and a candidate, by a sweep over the tables' commit ranges or
over the versions of their rows. A sweep goes on with the first version it has not found
(`rangesCoverInterval_iff`, `versionsCoverInterval_iff`), up to the greatest there is.
-/

namespace Strata

open List Durable

/-! ## The decisions -/

section Decisions

variable (owned : List (List BranchOwnedTable)) (inherited : List BranchInheritedLayer)
  (candidate : CommitVersion)

/-- The tables of the owned levels and of the inherited layers. -/
def durableTables : List BranchOwnedTable :=
  owned.flatten ++ inherited.flatMap (·.ownedLevels.flatten)

def branchDurableCommitVersionsInInterval (floor : CommitVersion) : List CommitVersion :=
  let versions := (durableTables owned inherited).flatMap fun table =>
    if table.facts.commitMax < floor ∨ candidate < table.facts.commitMin then []
    else (table.rows.map (·.commitVersion)).filter fun v => floor ≤ v ∧ v ≤ candidate
  (versions.mergeSort (· ≤ ·)).dedup

/-- The loop of `versions_cover_interval`, with the version it expects. -/
def versionsCoverInterval (expected : CommitVersion) : List CommitVersion → Bool
  | [] => false
  | version :: versions =>
    if version < expected then versionsCoverInterval expected versions
    else if version ≠ expected then false
    else if version = candidate then true
    else match checkedNext expected with
      | none => false
      | some next => versionsCoverInterval next versions

/-- The loop of `ranges_cover_interval`, with the version it expects. -/
def rangesCoverInterval (expected : CommitVersion) : List (CommitVersion ×ₗ CommitVersion) → Bool
  | [] => candidate < expected
  | range :: ranges =>
    if expected < (ofLex range).1 then false
    else match if expected ≤ (ofLex range).2 then checkedNext (ofLex range).2 else some expected with
      | none => true
      | some next => if candidate < next then true else rangesCoverInterval next ranges

variable (watermark : CommitVersion)

/-- What both decisions begin with: the first version needed, if any. -/
def coversInterval (sweep : CommitVersion → Bool) : Bool :=
  if candidate ≤ watermark then true else (checkedNext watermark).any sweep

def branchDurableRowsCoverInterval : Bool :=
  coversInterval candidate watermark fun first => versionsCoverInterval candidate first
    (branchDurableCommitVersionsInInterval owned inherited candidate watermark)

def branchDurableRangesCoverInterval : Bool :=
  coversInterval candidate watermark fun first =>
    let ranges := (durableTables owned inherited).filterMap fun table =>
      if first ≤ table.facts.commitMax ∧ table.facts.commitMin ≤ candidate then
        some (toLex (table.facts.commitMin, table.facts.commitMax))
      else none
    rangesCoverInterval candidate first (ranges.mergeSort (· ≤ ·))

end Decisions

/-! ## The sweeps -/

variable {candidate expected watermark : CommitVersion}

theorem le_of_checkedNext_eq_none (h : checkedNext expected = none) (v : CommitVersion) :
    v ≤ expected := by
  obtain rfl : expected = CommitVersion.max := by simpa [checkedNext] using h
  exact v.le_max

theorem versionsCoverInterval_iff {versions : List CommitVersion} (hle : expected ≤ candidate)
    (hsorted : versions.Pairwise (· ≤ ·)) :
    versionsCoverInterval candidate expected versions = true ↔
      ∀ v, expected ≤ v → v ≤ candidate → v ∈ versions := by
  induction versions generalizing expected with
  | nil => simpa [versionsCoverInterval] using ⟨expected, le_rfl, hle⟩
  | cons version versions ih =>
    obtain ⟨hfirst, hsorted⟩ := pairwise_cons.mp hsorted
    rw [versionsCoverInterval]
    split
    · rw [ih hle hsorted]
      grind
    · split
      · grind
      · rename_i hnot heq
        obtain rfl := not_not.mp heq
        split
        · grind
        · split
          · rename_i hnone
            have := le_of_checkedNext_eq_none hnone candidate
            grind
          · rename_i next hnext
            have hnext := checkedNext_le_iff hnext
            rw [ih ((hnext candidate).mpr (by grind)) hsorted]
            grind

theorem rangesCoverInterval_iff {ranges : List (CommitVersion ×ₗ CommitVersion)}
    (hle : expected ≤ candidate) (hsorted : ranges.Pairwise (· ≤ ·)) :
    rangesCoverInterval candidate expected ranges = true ↔
      ∀ v, expected ≤ v → v ≤ candidate →
        ∃ range ∈ ranges, (ofLex range).1 ≤ v ∧ v ≤ (ofLex range).2 := by
  induction ranges generalizing expected with
  | nil => simpa [rangesCoverInterval] using ⟨fun h v => h.trans_le, fun h => h expected le_rfl⟩
  | cons range ranges ih =>
    obtain ⟨hfirst, hsorted⟩ := pairwise_cons.mp hsorted
    simp only [rangesCoverInterval, exists_mem_cons_iff]
    split
    · -- a gap: every range begins behind the expected version
      rename_i hgap
      simp only [Bool.false_eq_true, false_iff, not_forall]
      refine ⟨expected, le_rfl, hle, ?_⟩
      rintro (⟨hlow, -⟩ | ⟨other, hother, hlow, -⟩)
      · exact absurd hgap (not_lt.mpr hlow)
      · have := Prod.Lex.monotone_fst _ _ (hfirst other hother)
        exact absurd hgap (not_lt.mpr (this.trans hlow))
    · rename_i hlow
      have hlow := not_lt.mp hlow
      split
      · rename_i hnone
        have hhigh : checkedNext (ofLex range).2 = none := by grind
        exact iff_of_true rfl fun v hv _ =>
          .inl ⟨hlow.trans hv, le_of_checkedNext_eq_none hhigh v⟩
      · rename_i next hnext
        have hnext : ∀ v, next ≤ v ↔ expected ≤ v ∧
            (expected ≤ (ofLex range).2 → (ofLex range).2 < v) := by
          split at hnext
          · rename_i hhigh
            intro v
            rw [checkedNext_le_iff hnext]
            grind
          · grind
        split
        · grind
        · rename_i hcandidate
          rw [ih (not_lt.mp hcandidate) hsorted]
          clear ih
          grind

theorem coversInterval_iff {sweep : CommitVersion → Bool} {covered : CommitVersion → Prop}
    (hsweep : ∀ first, first ≤ candidate → (∀ v, first ≤ v ↔ watermark < v) →
      (sweep first = true ↔ ∀ v, first ≤ v → v ≤ candidate → covered v)) :
    coversInterval candidate watermark sweep = true ↔
      ∀ v, watermark < v → v ≤ candidate → covered v := by
  rw [coversInterval]
  split
  · grind
  · rename_i hlt
    cases hnext : checkedNext watermark with
    | none => exact absurd (le_of_checkedNext_eq_none hnext candidate) hlt
    | some first =>
      have hfirst := checkedNext_le_iff hnext
      rw [Option.any_some, hsweep first ((hfirst candidate).mpr (not_le.mp hlt)) hfirst]
      simp only [hfirst]

theorem BranchOwnedTable.mem_commitRange {table : BranchOwnedTable} {row : StorageRow} (hrow : row ∈ table.rows) :
    table.facts.commitMin ≤ row.commitVersion ∧ row.commitVersion ≤ table.facts.commitMax :=
  ⟨table.reader.facts_describe.commitMin_le row hrow, table.reader.facts_describe.le_commitMax row hrow⟩

section

variable (owned : List (List BranchOwnedTable)) (inherited : List BranchInheritedLayer)
  (candidate watermark : CommitVersion)

/-- A durable table of a branch: in one of its own levels, or in a level of a layer it
inherits. -/
def DurableTable (table : BranchOwnedTable) : Prop :=
  (∃ level ∈ owned, table ∈ level) ∨ ∃ layer ∈ inherited, ∃ level ∈ layer.ownedLevels, table ∈ level

variable {owned inherited} in
theorem mem_durableTables {table : BranchOwnedTable} :
    table ∈ durableTables owned inherited ↔ DurableTable owned inherited table := by
  simp [durableTables, DurableTable]

theorem branchDurableRangesCoverInterval_iff :
    branchDurableRangesCoverInterval owned inherited candidate watermark = true ↔
      ∀ v, watermark < v → v ≤ candidate → ∃ table, DurableTable owned inherited table ∧
        table.facts.commitMin ≤ v ∧ v ≤ table.facts.commitMax := by
  refine coversInterval_iff fun first hle hfirst => ?_
  rw [rangesCoverInterval_iff hle (pairwise_mergeSort' (· ≤ ·) _)]
  simp only [mem_mergeSort, mem_filterMap, hfirst, mem_durableTables]
  refine forall₃_congr fun v hv hle => ⟨?_, ?_⟩
  · rintro ⟨_, ⟨table, htable, hrange⟩, hcovers⟩
    split_ifs at hrange
    cases hrange
    exact ⟨table, htable, hcovers⟩
  · rintro ⟨table, htable, hlow, hhigh⟩
    exact ⟨_, ⟨table, htable, if_pos ⟨hv.trans_le hhigh, hlow.trans hle⟩⟩, hlow, hhigh⟩

theorem branchDurableRowsCoverInterval_iff :
    branchDurableRowsCoverInterval owned inherited candidate watermark = true ↔
      ∀ v, watermark < v → v ≤ candidate → ∃ table, DurableTable owned inherited table ∧
        ∃ row ∈ table.rows, row.commitVersion = v := by
  refine coversInterval_iff fun first hle hfirst => ?_
  rw [branchDurableCommitVersionsInInterval,
    versionsCoverInterval_iff hle ((pairwise_mergeSort' (· ≤ ·) _).sublist (dedup_sublist _))]
  simp only [mem_dedup, mem_mergeSort, mem_flatMap, hfirst, mem_durableTables]
  refine forall₃_congr fun v hv hle => exists_congr fun table => and_congr_right fun _ => ?_
  split_ifs with hout
  · -- a table whose range is beside the interval has no row in it
    simp only [not_mem_nil, false_iff, not_exists, not_and]
    rintro row hrow rfl
    have := BranchOwnedTable.mem_commitRange hrow
    grind
  · simp [hv.le, hle]

/-- The decisions are exact, and tables whose rows cover the interval cover it by ranges. -/
theorem durableCoverage_exact :
    (branchDurableRangesCoverInterval owned inherited candidate watermark = true ↔
      ∀ v, watermark < v → v ≤ candidate → ∃ table, DurableTable owned inherited table ∧
        table.facts.commitMin ≤ v ∧ v ≤ table.facts.commitMax) ∧
    (branchDurableRowsCoverInterval owned inherited candidate watermark = true ↔
      ∀ v, watermark < v → v ≤ candidate → ∃ table, DurableTable owned inherited table ∧
        ∃ row ∈ table.rows, row.commitVersion = v) ∧
    (branchDurableRowsCoverInterval owned inherited candidate watermark = true →
      branchDurableRangesCoverInterval owned inherited candidate watermark = true) := by
  have hranges := branchDurableRangesCoverInterval_iff owned inherited candidate watermark
  have hrows := branchDurableRowsCoverInterval_iff owned inherited candidate watermark
  refine ⟨hranges, hrows, fun h => hranges.mpr fun v hv hle => ?_⟩
  obtain ⟨table, htable, row, hrow, rfl⟩ := hrows.mp h v hv hle
  exact ⟨table, htable, BranchOwnedTable.mem_commitRange hrow⟩

end

namespace Sample

theorem durableTable_layer {table : BranchOwnedTable} :
    DurableTable [[], [ownTable]] [parentLayer] table ↔ table = ownTable ∨ table = parentTable := by
  simp [DurableTable, parentLayer]

/-- An owned table with the versions one to three and an inherited one with one, two
and nine: the ranges cover the versions up to nine, the rows those up to three and nine. -/
theorem durableCoverage_layer :
    branchDurableRangesCoverInterval [[], [ownTable]] [parentLayer] 9 0 = true ∧
    branchDurableRowsCoverInterval [[], [ownTable]] [parentLayer] 3 0 = true ∧
    branchDurableRowsCoverInterval [[], [ownTable]] [parentLayer] 9 8 = true ∧
    branchDurableRowsCoverInterval [[], [ownTable]] [parentLayer] 9 3 = false := by
  have hexact := durableCoverage_exact [[], [ownTable]] [parentLayer]
  simp only [durableTable_layer] at hexact
  refine ⟨(hexact 9 0).1.mpr fun v hlow hhigh => ⟨parentTable, .inr rfl, ?_, hhigh⟩,
    (hexact 3 0).2.1.mpr fun v hlow hhigh => ⟨ownTable, .inl rfl, ?_⟩,
    (hexact 9 8).2.1.mpr fun v hlow hhigh => ⟨parentTable, .inr rfl, cell parent 5 9, by decide, ?_⟩,
    Bool.eq_false_iff.mpr fun hcovers => ?_⟩
  · show 1 ≤ v
    grind
  · obtain rfl | rfl | rfl : v = 1 ∨ v = 2 ∨ v = 3 := by grind
    all_goals decide
  · show 9 = v
    grind
  · obtain ⟨_, rfl | rfl, hrow⟩ := (hexact 9 3).2.1.mp hcovers 4 (by decide) (by decide)
    all_goals exact absurd hrow (by decide)

end Sample

end Strata
