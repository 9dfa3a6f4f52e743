import StrataStorage.Branch.PointRead
import StrataStorage.Table.Open

/-!
# Point reads are exhaustive searches

The invariant of the walk (`WalkInv`) is that the candidate it keeps is what an
exhaustive search of the candidates passed so far finds; a stop is a step that
passes all the rows it skips (`WalkInv.skip`).

* `selectNonzeroLevelPointTable_eq_ok`: bisecting a level finds the one table
  that can hold a key;
* `BranchReadView.readPoint_eq`, `BranchReadView.readPointOrTombstone_eq`: a
  read is the exhaustive search of the view's candidates.
-/

namespace Strata

open BranchEffectiveReadBound Except List
open Prod.Lex (toLex_lt_toLex)

variable {maxVersion : Option CommitVersion} {levelIndex : Nat} {maxTimestamp : Option Timestamp}
  {frozen : List FrozenTable} {row : StorageRow} (source : BranchRowSource)

/-! ## Order of sources -/

namespace BranchRowSource

/-- The place of a source in the walk. -/
def rank : BranchRowSource → ℕ ×ₗ ℕ ×ₗ ℕ
  | .active => toLex (0, toLex (0, 0))
  | .frozen index => toLex (1, toLex (index, 0))
  | .ownedTable level tableIndex => toLex (2, toLex (level.toNat, tableIndex))
  | .inherited _ layerIndex => toLex (3, toLex (layerIndex, 0))

/-- A source is where the walk stands, or was passed. -/
def NotAfter (source position : BranchRowSource) : Prop :=
  source.rank < position.rank ∨ source = position

theorem NotAfter.refl : source.NotAfter source := .inr rfl

theorem NotAfter.trans {a b c : BranchRowSource} (hab : a.NotAfter b) (hbc : b.NotAfter c) : a.NotAfter c := by
  rcases hab with hab | rfl
  · rcases hbc with hbc | rfl
    · exact .inl (hab.trans hbc)
    · exact .inl hab
  · exact hbc

/-- A later source never wins a tie. -/
theorem sourceOrderCmp_ne_lt {position source : BranchRowSource} (h : source.NotAfter position) :
    sourceOrderCmp position source ≠ .lt := by
  rcases h with h | rfl
  · intro hlt
    cases position <;> cases source
    case inherited.inherited =>
      simp only [rank, toLex_lt_toLex] at h
      rcases Ordering.then_eq_lt.mp hlt with hlt | ⟨heq, -⟩
      · have := Nat.compare_eq_lt.mp hlt
        omega
      · have := Nat.compare_eq_eq.mp heq
        omega
    all_goals
      simp_all [sourceOrderCmp, rank, toLex_lt_toLex, Nat.compare_eq_lt, Ordering.then_eq_lt] <;> omega
  · cases source
    case inherited =>
      rw [sourceOrderCmp, Nat.compare_eq_eq.mpr rfl, cmp, cmpUsing, if_neg (List.lt_irrefl _),
        if_neg (List.lt_irrefl _)]
      decide
    all_goals simp [sourceOrderCmp]

end BranchRowSource

open BranchRowSource (rank)

/-! ## The invariant of the walk -/

/-- What a candidate is returned as. -/
def PointCandidate.final : PointCandidate → CandidateRow
  | localLookup row source => ⟨row, source⟩
  | inheritedLookup row sourceBranchId childBranchId layerIndex =>
    ⟨row.withBranch childBranchId, .inherited sourceBranchId layerIndex⟩

@[simp] theorem PointCandidate.final_commitVersion (candidate : PointCandidate) :
    candidate.final.row.commitVersion = candidate.row.commitVersion := by
  cases candidate <;> rfl

/-- A candidate whose row can be rewritten. -/
def PointCandidate.Finishes (candidate : PointCandidate) : Prop :=
  candidate.intoCandidateRow = .ok candidate.final

/-- The walk stands at `position` and has passed `rows`: its selection is what
an exhaustive search of them finds. -/
structure WalkInv (position : BranchRowSource) (selection : PointSelection)
    (rows : List CandidateRow) : Prop where
  final_eq : selection.selected.map PointCandidate.final = rows.argmax (·.row.commitVersion)
  notAfter : ∀ candidate ∈ selection.selected, candidate.source.NotAfter position
  finishes : ∀ candidate ∈ selection.selected, candidate.Finishes

namespace WalkInv

variable {position position' : BranchRowSource} {selection : PointSelection} {rows found : List CandidateRow}

theorem start : WalkInv .active ⟨none⟩ [] := ⟨rfl, by simp, by simp⟩

section

variable (h : WalkInv position selection rows)
include h

theorem advance (hle : position.NotAfter position') : WalkInv position' selection rows :=
  ⟨h.final_eq, fun c hc => (h.notAfter c hc).trans hle, h.finishes⟩

/-- Considering what a source holds passes the rows of the source. -/
theorem consider {candidate : Option PointCandidate}
    (hfound : candidate.map PointCandidate.final = found.argmax (·.row.commitVersion))
    (hsource : ∀ c ∈ candidate, c.source = position) (hfinishes : ∀ c ∈ candidate, c.Finishes) :
    WalkInv position (selection.consider candidate) (rows ++ found) := by
  cases candidate with
  | none =>
    refine ⟨?_, h.notAfter, h.finishes⟩
    rw [argmax_append, ← hfound, ← h.final_eq]
    simp [PointSelection.consider]
  | some c =>
    have hc : c.source = position := hsource c rfl
    cases hsel : selection.selected with
    | none =>
      have hnew : selection.consider (some c) = ⟨some c⟩ := by
        simp [PointSelection.consider, PointSelection.considerCandidate, hsel]
      rw [hnew]
      refine ⟨?_, by rintro _ ⟨⟩; exact hc ▸ .refl _, by rintro _ ⟨⟩; exact hfinishes c rfl⟩
      rw [argmax_append, ← hfound, ← h.final_eq, hsel]
      rfl
    | some s =>
      have htie : (sourceOrderCmp c.source s.source == .lt) = false := by
        rw [beq_eq_false_iff_ne, hc]
        exact BranchRowSource.sourceOrderCmp_ne_lt (h.notAfter s hsel)
      have hpick : (selection.consider (some c)).selected =
          if s.row.commitVersion < c.row.commitVersion then some c else some s := by
        simp only [PointSelection.consider, Option.elim_some, PointSelection.considerCandidate,
          hsel, Option.all_some, candidateIsNewerOrBetterTie, htie, Bool.and_false, Bool.or_false,
          decide_eq_true_eq]
        split
        · rfl
        · exact hsel
      refine ⟨?_, ?_, ?_⟩
      · rw [argmax_append, ← hfound, ← h.final_eq, hsel, hpick, Option.map_some, Option.map_some,
          pick_some_some, PointCandidate.final_commitVersion, PointCandidate.final_commitVersion]
        split <;> rfl
      all_goals
        intro x hx
        rw [hpick] at hx
        split at hx <;> cases hx
      · exact hc ▸ .refl _
      · exact h.notAfter s hsel
      · exact hfinishes c rfl
      · exact h.finishes s hsel

/-- Stopping early passes every row that cannot beat the selection. -/
theorem skip {remaining : Option CommitVersion} {count : Nat}
    (hstop : orderedPointCanStop selection remaining count = true)
    (hskipped : ∀ c ∈ found, ∃ high ∈ remaining, c.row.commitVersion ≤ high) :
    WalkInv position selection (rows ++ found) := by
  refine ⟨?_, h.notAfter, h.finishes⟩
  unfold orderedPointCanStop at hstop
  split at hstop
  · cases hstop
  · cases hsel : selection.selected with
    | none => simp [hsel] at hstop
    | some selected =>
      have hargmax := h.final_eq
      rw [hsel, Option.map_some] at hargmax
      refine (argmax_append_of_le hargmax.symm fun row hrow => ?_).symm
      obtain ⟨high, hhigh, hle⟩ := hskipped row hrow
      rw [hsel, Option.any_some, Option.mem_def.mp hhigh, Option.all_some, decide_eq_true_eq] at hstop
      exact hle.trans (hstop.trans_eq (PointCandidate.final_commitVersion _).symm)

/-- What the walk returns at the end. -/
theorem finish : selection.finish = .ok (rows.argmax (·.row.commitVersion)) := by
  unfold PointSelection.finish
  rw [← h.final_eq]
  cases hsel : selection.selected with
  | none => rfl
  | some c =>
    have hfinal : c.intoCandidateRow = .ok c.final := h.finishes c hsel
    simp [hfinal]

end

end WalkInv

/-! ## Remaining commit ranges -/

theorem exists_maxCommit {versions : List CommitVersion} {v high : CommitVersion}
    (hhigh : high ∈ versions) (hv : v ≤ high) : ∃ m ∈ maxCommit versions, v ≤ m := by
  cases h : maxCommit versions with
  | none => rw [maxCommit, argmax_eq_none] at h; simp [h] at hhigh
  | some m => exact ⟨m, rfl, hv.trans (le_of_mem_argmax (f := id) hhigh h)⟩

/-- A capped commit range still covers the versions within the cap. -/
theorem exists_capCommitRangeMax {low high v : CommitVersion} (hlow : low ≤ v) (hhigh : v ≤ high)
    (hcap : maxVersion.all (v ≤ ·) = true) :
    ∃ m, capCommitRangeMax low high maxVersion = some m ∧ v ≤ m := by
  cases maxVersion with
  | none => exact ⟨high, rfl, hhigh⟩
  | some cap =>
    have hcap : v ≤ cap := by simpa using hcap
    refine ⟨min high cap, ?_, le_min hhigh hcap⟩
    rw [capCommitRangeMax, if_neg]
    · rfl
    · simpa using hlow.trans hcap

theorem satisfies_version {key : PhysicalKey} (h : Satisfies key maxVersion maxTimestamp row = true) :
    maxVersion.all (row.commitVersion ≤ ·) = true := by
  have := (satisfies_iff.mp h).2
  rw [rowMatchesPointBound, Bool.and_eq_true] at this
  exact this.1

section Remaining

variable {key : PhysicalKey} {effectiveBound : BranchEffectiveReadBound} {row : StorageRow}

/-- The rows of some levels within a bound are covered by the levels' capped
maxima. -/
theorem exists_ownedCommits {levels : List (List BranchOwnedTable)}
    (h : row ∈ (levels.flatten.flatMap (·.rows)).filter (Satisfies key
      effectiveBound.maxCommitVersion effectiveBound.maxCommitTimestamp)) :
    ∃ m ∈ ownedCommits levels effectiveBound, row.commitVersion ≤ m := by
  obtain ⟨hmem, hsat⟩ := mem_filter.mp h
  obtain ⟨table, htable, hrow⟩ := mem_flatMap.mp hmem
  obtain ⟨m, hm, hle⟩ := exists_capCommitRangeMax (table.reader.facts_describe.commitMin_le row hrow)
    (table.reader.facts_describe.le_commitMax row hrow) (satisfies_version hsat)
  exact ⟨m, mem_filterMap.mpr ⟨table, htable, hm⟩, hle⟩

theorem exists_frozenCommits (h : row ∈ (frozen.flatMap (·.table.visibleRows)).filter (Satisfies key
      effectiveBound.maxCommitVersion effectiveBound.maxCommitTimestamp)) :
    ∃ m ∈ frozenCommits frozen effectiveBound, row.commitVersion ≤ m := by
  obtain ⟨hmem, hsat⟩ := mem_filter.mp h
  obtain ⟨table, htable, hrow⟩ := mem_flatMap.mp hmem
  obtain ⟨⟨low, hlow, hlv⟩, high, hhigh, hvh⟩ := table.table.facts_cover hrow
  obtain ⟨m, hm, hle⟩ := exists_capCommitRangeMax hlv hvh (satisfies_version hsat)
  refine ⟨m, mem_filterMap.mpr ⟨table, htable, ?_⟩, hle⟩
  simp [Option.mem_def.mp hlow, Option.mem_def.mp hhigh, hm]

end Remaining

/-! ## One table, one level -/

section Level

variable {key : PhysicalKey} {maxVersion : Option CommitVersion} {maxTimestamp : Option Timestamp}
  {selection : PointSelection} {rows : List CandidateRow} {final : StorageRow → StorageRow}
variable {position : Nat → BranchRowSource} {candidate : BranchOwnedTable → Nat → StorageRow → PointCandidate}
  {tables : List BranchOwnedTable} {table : BranchOwnedTable} {i : Nat}

/-- What the walk assumes of the candidates it makes from rows of `key`. -/
structure CandidateSpec (key : PhysicalKey) (candidate : StorageRow → PointCandidate)
    (final : StorageRow → StorageRow) (position : BranchRowSource) : Prop where
  final_eq : ∀ row, (candidate row).final = ⟨final row, position⟩
  source_eq : ∀ row, (candidate row).source = position
  finishes : ∀ row, row.physicalKey = key → (candidate row).Finishes
  commitVersion_eq : ∀ row, (final row).commitVersion = row.commitVersion

/-- Considering the first row a sorted source finds passes the source. -/
theorem WalkInv.consider_find? {position : BranchRowSource} {candidate : StorageRow → PointCandidate}
    {source : List StorageRow} (h : WalkInv position selection rows)
    (hspec : CandidateSpec key candidate final position) (hsorted : SortedRows source) :
    WalkInv position (selection.consider ((source.find? (Satisfies key maxVersion maxTimestamp)).map candidate))
      (rows ++ fromSource position ((source.filter (Satisfies key maxVersion maxTimestamp)).map final)) := by
  refine h.consider ?_ ?_ ?_
  · rw [Option.map_map, fromSource, argmax_map fun _ _ => rfl, argmax_map fun row _ =>
      hspec.commitVersion_eq row, Option.map_map, ← find?_eq_argmax hsorted]
    congr 1
    exact funext hspec.final_eq
  · intro c hc
    obtain ⟨row, -, rfl⟩ := Option.map_eq_some_iff.mp hc
    exact hspec.source_eq row
  · intro c hc
    obtain ⟨row, hrow, rfl⟩ := Option.map_eq_some_iff.mp hc
    exact hspec.finishes row (satisfies_iff.mp (find?_some hrow)).1

theorem considerTable_spec {position : BranchRowSource} {candidate : StorageRow → PointCandidate}
    (table : BranchOwnedTable) (maxVersion : Option CommitVersion) (maxTimestamp : Option Timestamp)
    (h : WalkInv position selection rows) (hspec : CandidateSpec key candidate final position) :
    ∃ selection', considerTable candidate table (.new key maxVersion maxTimestamp) selection = .ok selection' ∧
      WalkInv position selection' (rows ++ fromSource position
        ((table.rows.filter (Satisfies key maxVersion maxTimestamp)).map final)) := by
  refine ⟨_, ?_, h.consider_find? hspec table.reader.rows_sorted⟩
  rw [considerTable, table.reader.seekPreparedPoint_eq]
  rfl

/-- A place of the walk for every table index, in order. -/
structure PositionSpec (key : PhysicalKey)
    (candidate : BranchOwnedTable → Nat → StorageRow → PointCandidate)
    (final : StorageRow → StorageRow) (tables : List BranchOwnedTable)
    (position : Nat → BranchRowSource) : Prop where
  spec : ∀ table ∈ tables, ∀ i, CandidateSpec key (candidate table i) final (position i)
  mono : ∀ i j, i ≤ j → (position i).NotAfter (position j)

/-- The rows of `key` in the tables of a level, as a walk with the given places
and rewriting returns them. -/
def levelFound (key : PhysicalKey) (maxVersion : Option CommitVersion)
    (maxTimestamp : Option Timestamp) (final : StorageRow → StorageRow)
    (position : Nat → BranchRowSource) (i : Nat) (tables : List BranchOwnedTable) :
    List CandidateRow :=
  (tables.zipIdx i).flatMap fun (table, j) => fromSource (position j)
    ((table.rows.filter (Satisfies key maxVersion maxTimestamp)).map final)

theorem considerTables_spec (hspec : PositionSpec key candidate final tables position)
    (h : WalkInv (position i) selection rows) :
    ∃ selection', considerTables candidate (.new key maxVersion maxTimestamp) i tables selection = .ok selection' ∧
      WalkInv (position (i + tables.length)) selection'
        (rows ++ levelFound key maxVersion maxTimestamp final position i tables) := by
  induction tables generalizing i selection rows with
  | nil => exact ⟨selection, rfl, by simpa [levelFound] using h⟩
  | cons table tables ih =>
    obtain ⟨selection₁, hrun₁, h₁⟩ :=
      considerTable_spec table maxVersion maxTimestamp h (hspec.spec table mem_cons_self i)
    obtain ⟨selection₂, hrun₂, h₂⟩ := ih ⟨fun t ht => hspec.spec t (mem_cons_of_mem _ ht), hspec.mono⟩
      (h₁.advance (hspec.mono i (i + 1) (Nat.le_succ i)))
    refine ⟨selection₂, by rw [considerTables, hrun₁, ok_bind, hrun₂], ?_⟩
    rw [levelFound, zipIdx_cons, flatMap_cons, ← append_assoc, length_cons,
      Nat.add_comm tables.length, ← Nat.add_assoc]
    exact h₂

@[simp] theorem comparePhysicalKeyToTableRange_eq (target : Bytes) (table : BranchOwnedTable) :
    comparePhysicalKeyToTableRange target table = .ok (if target < table.firstPhysical then .lt
      else if table.lastPhysical < target then .gt else .eq) := by
  obtain ⟨first, -, last, -, hfirst, hlast⟩ := table.reader.exists_first_last
  simp [comparePhysicalKeyToTableRange, tableFactPhysicalKeyBounds, BranchOwnedTable.facts,
    BranchOwnedTable.firstPhysical, BranchOwnedTable.lastPhysical, hfirst, hlast, Except.mapError]

/-- The bisection of a level: it finds a table whose range holds the key, or
there is none. -/
theorem selectNonzeroLevelPointTable_eq_ok (hdisjoint : DisjointTables tables) (target : Bytes) :
    ∃ found, selectNonzeroLevelPointTable tables target = .ok found ∧
      (∀ i, found = some i → ∃ table, tables[i]? = some table ∧
        table.firstPhysical ≤ target ∧ target ≤ table.lastPhysical) ∧
      (found = none → ∀ table ∈ tables, ¬ (table.firstPhysical ≤ target ∧ target ≤ table.lastPhysical)) := by
  set range : BranchOwnedTable → Ordering := fun table => if target < table.firstPhysical then .lt
      else if table.lastPhysical < target then .gt else .eq with hrange
  have heq : ∀ table, range table = .eq ↔ table.firstPhysical ≤ target ∧ target ≤ table.lastPhysical := by
    intro table
    simp only [hrange]
    split_ifs with h₁ h₂ <;> simp_all
  set answer : Nat → Ordering := fun i => (tables[i]?.map range).getD .eq with hanswer
  have hget : ∀ i (hi : i < tables.length), answer i = range tables[i] := fun i hi => by
    simp [hanswer, getElem?_eq_getElem hi]
  have hprobe : FallingProbe (fun mid => tables[mid]?.elim (.ok .eq)
      (comparePhysicalKeyToTableRange target)) answer 0 tables.length := by
    refine ⟨fun i _ hi => ?_, fun i j _ hij hj h => ?_, fun i j _ hij hj h => ?_⟩
    · rw [hget i hi, getElem?_eq_getElem hi, Option.elim_some, comparePhysicalKeyToTableRange_eq]
    -- a key before a table is before every later one, a key after a table after every earlier one
    all_goals
      have hi : i < tables.length := hij.trans_lt hj
      rw [hget i hi] at *
      rw [hget j hj] at *
      rcases hij.lt_or_eq with hlt | rfl
      · have hij' := pairwise_iff_getElem.mp hdisjoint i j hi hj hlt
        have hfi := tables[i].firstPhysical_le_lastPhysical
        simp only [hrange] at h ⊢
        split_ifs at h ⊢ with h₁ h₂ h₃ <;> first | rfl | (exfalso; order)
      · exact h
  obtain ⟨found, hrun, hsome, hnone⟩ := bisectOrdering_eq_ok hprobe (Nat.le_of_eq (Nat.sub_zero tables.length))
  refine ⟨found, hrun, fun i hi => ?_, fun hn table htable => ?_⟩
  · obtain ⟨-, hlen, hans⟩ := hsome i hi
    rw [hget i hlen, heq] at hans
    exact ⟨tables[i], getElem?_eq_getElem hlen, hans⟩
  · obtain ⟨i, hi, rfl⟩ := mem_iff_getElem.mp htable
    rw [← heq, ← hget i hi]
    exact hnone hn i (Nat.zero_le i) hi

/-- The rows of a table lie in its range. -/
theorem filter_satisfies_eq_nil (h : ¬ (table.firstPhysical ≤ encodePhysicalKey key ∧
      encodePhysicalKey key ≤ table.lastPhysical)) :
    table.rows.filter (Satisfies key maxVersion maxTimestamp) = [] := by
  refine filter_eq_nil_iff.mpr fun row hrow hsat => h ?_
  obtain ⟨rfl, -⟩ := satisfies_iff.mp hsat
  exact ⟨table.firstPhysical_le hrow, table.le_lastPhysical hrow⟩

/-- An indexed concatenation in which one member alone is not empty. -/
theorem flatMap_zipIdx_eq_of_unique {α β : Type} {f : α × Nat → List β} {l : List α} {i k : Nat}
    {a : α} (hi : l[i]? = some a) (hother : ∀ j b, l[j]? = some b → j ≠ i → f (b, k + j) = []) :
    (l.zipIdx k).flatMap f = f (a, k + i) := by
  induction l generalizing i k with
  | nil => simp at hi
  | cons b l ih =>
    rw [zipIdx_cons, flatMap_cons]
    cases i with
    | zero =>
      obtain rfl : b = a := by simpa using hi
      have hnil : (l.zipIdx (k + 1)).flatMap f = [] := by
        refine flatMap_eq_nil_iff.mpr fun p hp => ?_
        obtain ⟨hk, hp⟩ := mk_mem_zipIdx_iff_le_and_getElem?_sub.mp hp
        have := hother (p.2 - (k + 1) + 1) p.1 (by simpa using hp) (by omega)
        rwa [show k + (p.2 - (k + 1) + 1) = p.2 by omega] at this
      rw [hnil, append_nil, Nat.add_zero]
    | succ i =>
      have hhead : f (b, k) = [] := hother 0 b rfl (by omega)
      rw [hhead, nil_append, ih (by simpa using hi) fun j c hj hne => ?_]
      · rw [Nat.add_assoc, Nat.add_comm 1]
      · have := hother (j + 1) c (by simpa using hj) (by omega)
        rwa [Nat.add_comm j, ← Nat.add_assoc] at this

/-- Of a disjoint level, the rows of a key are those of the table found. -/
theorem levelFound_eq (hdisjoint : DisjointTables tables)
    (hi : tables[i]? = some table) (hrange : table.firstPhysical ≤ encodePhysicalKey key ∧
      encodePhysicalKey key ≤ table.lastPhysical) :
    levelFound key maxVersion maxTimestamp final position 0 tables = fromSource (position i)
      ((table.rows.filter (Satisfies key maxVersion maxTimestamp)).map final) := by
  rw [levelFound, flatMap_zipIdx_eq_of_unique hi, Nat.zero_add]
  intro j t hj hne
  obtain ⟨hlen, rfl⟩ := List.getElem?_eq_some_iff.mp hi
  obtain ⟨hjlen, rfl⟩ := List.getElem?_eq_some_iff.mp hj
  show fromSource _ _ = []
  rw [filter_satisfies_eq_nil, List.map_nil, fromSource_nil]
  intro hrange'
  rcases Nat.lt_or_gt_of_ne hne with hlt | hlt
  · have := List.pairwise_iff_getElem.mp hdisjoint j i hjlen hlen hlt
    order
  · have := List.pairwise_iff_getElem.mp hdisjoint i j hlen hjlen hlt
    order

theorem levelFound_eq_nil (h : ∀ table ∈ tables, ¬ (table.firstPhysical ≤ encodePhysicalKey key ∧
      encodePhysicalKey key ≤ table.lastPhysical)) :
    levelFound key maxVersion maxTimestamp final position 0 tables = [] := by
  refine flatMap_eq_nil_iff.mpr fun p hp => ?_
  show fromSource _ _ = []
  rw [filter_satisfies_eq_nil (h p.1 (fst_mem_of_mem_zipIdx hp)), map_nil, fromSource_nil]

/-- One level of the walk passes the rows of the level. -/
theorem selectLevelPointCandidate_spec (maxVersion : Option CommitVersion) (maxTimestamp : Option Timestamp)
    (hvalid : LevelValid levelIndex tables) (hspec : PositionSpec key candidate final tables position)
    (h : WalkInv (position 0) selection rows) :
    ∃ selection', selectLevelPointCandidate candidate levelIndex tables
        (.new key maxVersion maxTimestamp) selection = .ok selection' ∧
      WalkInv (position tables.length) selection'
        (rows ++ levelFound key maxVersion maxTimestamp final position 0 tables) := by
  unfold selectLevelPointCandidate
  split
  · simpa using considerTables_spec hspec h
  rename_i hlevel
  have hend := h.advance (hspec.mono 0 tables.length (Nat.zero_le _))
  split
  · rename_i hempty
    subst hempty
    exact ⟨selection, rfl, by simpa [levelFound] using hend⟩
  obtain ⟨found, hrun, hsome, hnone⟩ :=
    selectNonzeroLevelPointTable_eq_ok (hvalid.disjoint hlevel) (encodePhysicalKey key)
  rw [TablePreparedPointLookup.new_physicalKey, hrun, Except.ok_bind]
  cases found with
  | none =>
    refine ⟨selection, rfl, ?_⟩
    rw [levelFound_eq_nil (hnone rfl), List.append_nil]
    exact hend
  | some i =>
    obtain ⟨table, htable, hrange⟩ := hsome i rfl
    have hi : i < tables.length := (List.getElem?_eq_some_iff.mp htable).1
    obtain ⟨selection', hrun', h'⟩ := considerTable_spec table maxVersion maxTimestamp
      (h.advance (hspec.mono 0 i (Nat.zero_le i))) (hspec.spec table (List.mem_of_getElem? htable) i)
    refine ⟨selection', by simpa only [htable] using hrun', ?_⟩
    rw [levelFound_eq (hvalid.disjoint hlevel) htable hrange]
    exact h'.advance (hspec.mono i tables.length hi.le)

end Level

/-! ## The whole walk -/

section Walk

variable {key : PhysicalKey} {bound : BranchReadBound} {selection : PointSelection} {rows : List CandidateRow}
variable {rest : List (List BranchOwnedTable)}
variable {i : Nat} {tables : List BranchOwnedTable} {levels : List (List BranchOwnedTable)}
  {layers : List BranchInheritedLayer} {c : CandidateRow} {child : BranchId}

/-- The lookup of the branch's own sources. -/
def ownLookup (key : PhysicalKey) (bound : BranchReadBound) : TablePreparedPointLookup :=
  .new key (BranchEffectiveReadBound.forOwnBranch bound).maxCommitVersion
    (BranchEffectiveReadBound.forOwnBranch bound).maxCommitTimestamp

theorem localCandidateSpec (position : BranchRowSource) :
    CandidateSpec key (.localLookup · position) id position where
  final_eq _ := rfl
  source_eq _ := rfl
  finishes _ _ := rfl
  commitVersion_eq _ := rfl

theorem inheritedCandidateSpec (source child : BranchId) (layerIndex : Nat) :
    CandidateSpec (key.withBranch source) (.inheritedLookup · source child layerIndex)
      (·.withBranch child) (.inherited source layerIndex) where
  final_eq _ := rfl
  source_eq _ := rfl
  finishes row hrow := by
    have hbranch : row.physicalKey.branchId = source := by rw [hrow]; rfl
    rw [PointCandidate.Finishes, PointCandidate.intoCandidateRow, rewriteRowBranch_eq hbranch]
    rfl
  commitVersion_eq _ := rfl

/-- A probe of the active or of a frozen table passes its rows. -/
theorem WalkInv.consider_mutable {position : BranchRowSource} (h : WalkInv position selection rows)
    (table : MutableTable) (key : PhysicalKey) (bound : BranchReadBound) :
    WalkInv position (selection.consider
        ((table.seekPreparedPoint (ownLookup key bound)).map (.localLookup · position)))
      (rows ++ fromSource position (rowsWithin table.visibleRows key bound)) := by
  have hspec : CandidateSpec key (.localLookup · position) id position := localCandidateSpec position
  have hfind : table.seekPreparedPoint (ownLookup key bound) = table.visibleRows.find?
      (Satisfies key (forOwnBranch bound).maxCommitVersion (forOwnBranch bound).maxCommitTimestamp) :=
    table.seekPreparedPoint_eq ..
  rw [hfind, ← map_id (rowsWithin table.visibleRows key bound)]
  exact h.consider_find? hspec table.visibleRows_sorted

theorem selectFrozen_spec (h : WalkInv (.frozen i) selection rows) :
    WalkInv (.frozen (i + frozen.length)) (selectFrozen (ownLookup key bound) i frozen selection)
      (rows ++ candidatesWithin (frozenCandidates i frozen) key bound) := by
  induction frozen generalizing i selection rows with
  | nil => simpa [selectFrozen, frozenCandidates, candidatesWithin] using h
  | cons table frozen ih =>
    have h₁ := h.consider_mutable table.table key bound
    have hnext : (BranchRowSource.frozen i).NotAfter (.frozen (i + 1)) :=
      .inl (by simp [rank, toLex_lt_toLex])
    have h₂ := ih (h₁.advance hnext)
    rw [selectFrozen, frozenCandidates, zipIdx_cons, flatMap_cons, candidatesWithin_append,
      candidatesWithin_fromSource, ← append_assoc, length_cons, Nat.add_comm frozen.length, ← Nat.add_assoc]
    exact h₂

theorem ownedPositionSpec (key : PhysicalKey) (hvalid : LevelValid levelIndex tables) :
    PositionSpec key (fun table i row => .localLookup row (.ownedTable table.level i)) id tables
      (.ownedTable (UInt8.ofNat levelIndex)) where
  spec table htable i := by
    have hlevel : table.level = UInt8.ofNat levelIndex := by
      rw [← hvalid.level_eq table htable, UInt8.ofNat_toNat]
    rw [hlevel]
    exact localCandidateSpec _
  mono i j hij := by
    rcases hij.lt_or_eq with h | rfl
    · exact .inl (by simp [rank, toLex_lt_toLex, h])
    · exact .refl _

/-- What the walk finds in an owned level are the level's candidates. -/
theorem levelFound_owned (hvalid : LevelValid levelIndex tables) :
    levelFound key (forOwnBranch bound).maxCommitVersion (forOwnBranch bound).maxCommitTimestamp id
        (.ownedTable (UInt8.ofNat levelIndex)) 0 tables =
      candidatesWithin (levelCandidates tables) key bound := by
  rw [levelFound, candidatesWithin, levelCandidates, List.filter_flatMap]
  refine List.flatMap_congr fun entry hp => ?_
  obtain ⟨table, i⟩ := entry
  have hlevel : UInt8.ofNat levelIndex = table.level := by
    rw [← hvalid.level_eq table (List.fst_mem_of_mem_zipIdx hp), UInt8.ofNat_toNat]
  dsimp only
  rw [List.map_id, hlevel, filter_fromSource]

theorem row_mem_of_mem_levels (h : c ∈ candidatesWithin (levels.flatMap levelCandidates) key bound) :
    c.row ∈ rowsWithin (levels.flatten.flatMap (·.rows)) key bound := by
  rw [← map_row_flatMap_levelCandidates, ← map_row_candidatesWithin]
  exact mem_map_of_mem h

theorem selectOwnedLevels_spec (key : PhysicalKey) (bound : BranchReadBound)
    (hrest : rest = levels.drop i) (hvalid : validateOwnedLevels levels = .ok ())
    (h : WalkInv (.ownedTable (UInt8.ofNat i) 0) selection rows) :
    ∃ selection' stopped, selectOwnedLevels levels bound (ownLookup key bound) i rest selection =
        .ok (selection', stopped) ∧
      ∀ source, WalkInv (.inherited source 0) selection'
        (rows ++ candidatesWithin (rest.flatMap levelCandidates) key bound) := by
  have hlast : ∀ level t source, (BranchRowSource.ownedTable level t).NotAfter
      (.inherited source 0) := fun level t source =>
    .inl (by simp [rank, toLex_lt_toLex])
  induction rest generalizing i selection rows with
  | nil =>
    exact ⟨selection, false, rfl, fun source => by
      simpa [candidatesWithin] using h.advance (hlast _ _ source)⟩
  | cons tables rest ih =>
    have hi : levels[i]? = some tables := by
      rw [← head?_drop, ← hrest]; rfl
    have hrest' : rest = levels.drop (i + 1) := by
      rw [← tail_drop, ← hrest]; rfl
    have hlevel := validateOwnedLevels_eq_ok.mp hvalid i tables hi
    obtain ⟨selection₁, hrun₁, h₁⟩ := selectLevelPointCandidate_spec (forOwnBranch bound).maxCommitVersion
      (forOwnBranch bound).maxCommitTimestamp hlevel (ownedPositionSpec key hlevel) h
    rw [levelFound_owned hlevel] at h₁
    rw [selectOwnedLevels, selectOwnedLevelPointCandidate, ownLookup, hrun₁, ok_bind,
      flatMap_cons, candidatesWithin_append, ← append_assoc]
    split
    · -- the levels left cannot beat the selection
      rename_i hstop
      refine ⟨selection₁, true, rfl, fun source => (h₁.advance (hlast _ _ source)).skip hstop fun c hc => ?_⟩
      rw [hrest'] at hc
      obtain ⟨m, hm, hle⟩ := exists_ownedCommits (row_mem_of_mem_levels hc)
      exact exists_maxCommit hm hle
    · cases rest with
      | nil =>
        exact ⟨selection₁, false, rfl, fun source => by
          simpa [candidatesWithin] using h₁.advance (hlast _ _ source)⟩
      | cons tables' rest' =>
        have hi' : levels[i + 1]? = some tables' := by
          rw [← head?_drop, ← hrest']; rfl
        have hlt := (validateOwnedLevels_eq_ok.mp hvalid (i + 1) tables' hi').index_lt
        refine ih hrest' (h₁.advance (.inl ?_))
        simp only [rank, toLex_lt_toLex, UInt8.toNat_ofNat',
          Nat.mod_eq_of_lt hlt, Nat.mod_eq_of_lt hlevel.index_lt]
        exact .inr ⟨trivial, .inl (Nat.lt_succ_self i)⟩

theorem fromSource_append (l₁ l₂ : List StorageRow) :
    fromSource source (l₁ ++ l₂) = fromSource source l₁ ++ fromSource source l₂ := map_append

theorem levelFound_const {maxVersion : Option CommitVersion}
    {final : StorageRow → StorageRow} {position : BranchRowSource} :
    levelFound key maxVersion maxTimestamp final (fun _ => position) i tables =
      fromSource position (((tables.flatMap (·.rows)).filter
        (Satisfies key maxVersion maxTimestamp)).map final) := by
  rw [levelFound, filter_flatMap, map_flatMap, fromSource, map_flatMap]
  exact flatMap_zipIdx_fst (fun table => fromSource position
    ((table.rows.filter (Satisfies key maxVersion maxTimestamp)).map final)) tables i

theorem selectInheritedLevels_spec (key : PhysicalKey) (child : BranchId)
    {layer : BranchInheritedLayer} {layerIndex : Nat} (hrest : rest = layer.ownedLevels.drop i)
    (maxVersion : Option CommitVersion) (maxTimestamp : Option Timestamp)
    (h : WalkInv (.inherited layer.sourceBranchId layerIndex) selection rows) :
    ∃ selection', selectInheritedLevels child layer layerIndex
        (.new (key.withBranch layer.sourceBranchId) maxVersion maxTimestamp) i rest selection = .ok selection' ∧
      WalkInv (.inherited layer.sourceBranchId layerIndex) selection'
        (rows ++ fromSource (.inherited layer.sourceBranchId layerIndex) (((rest.flatten.flatMap (·.rows)).filter
            (Satisfies (key.withBranch layer.sourceBranchId) maxVersion maxTimestamp)).map
              (·.withBranch child))) := by
  induction rest generalizing i selection rows with
  | nil => exact ⟨selection, rfl, by simpa using h⟩
  | cons tables rest ih =>
    have hi : layer.ownedLevels[i]? = some tables := by
      rw [← head?_drop, ← hrest]; rfl
    have hrest' : rest = layer.ownedLevels.drop (i + 1) := by
      rw [← tail_drop, ← hrest]; rfl
    have hlevel := validateOwnedLevels_eq_ok.mp layer.layerValid.levels_valid i tables hi
    have hposition : PositionSpec (key.withBranch layer.sourceBranchId)
        (fun _ _ row => .inheritedLookup row layer.sourceBranchId child layerIndex)
        (·.withBranch child) tables fun _ => .inherited layer.sourceBranchId layerIndex :=
      ⟨fun _ _ _ => inheritedCandidateSpec _ _ _, fun _ _ _ => .refl _⟩
    obtain ⟨selection₁, hrun₁, h₁⟩ := selectLevelPointCandidate_spec maxVersion maxTimestamp hlevel hposition h
    rw [levelFound_const] at h₁
    obtain ⟨selection₂, hrun₂, h₂⟩ := ih hrest' h₁
    refine ⟨selection₂, ?_, ?_⟩
    · rw [selectInheritedLevels, selectInheritedLevelPointCandidate, hrun₁, ok_bind, hrun₂]
    · rw [flatten_cons, flatMap_append, filter_append, map_append, fromSource_append, ← append_assoc]
      exact h₂

/-- The rows of the layers left are covered by their capped maxima. -/
theorem exists_maxCommitForInheritedLayers
    (h : row ∈ rowsWithin ((layers.drop i).flatMap (·.contents key.branchId)) key bound) :
    ∃ m ∈ maxCommitForInheritedLayers layers i bound, row.commitVersion ≤ m := by
  obtain ⟨hmem, hkey, hbound⟩ := mem_rowsWithin.mp h
  obtain ⟨layer, hlayer, hrow⟩ := mem_flatMap.mp hmem
  have hreadable : layer.isReadable = true := by
    by_contra hno
    simp [BranchInheritedLayer.contents, hno] at hrow
  have hwithin := mem_rowsWithin.mpr ⟨hrow, hkey, hbound⟩
  rw [BranchInheritedLayer.filter_contents hreadable] at hwithin
  obtain ⟨r, hr, rfl⟩ := mem_map.mp hwithin
  obtain ⟨m, hm, hle⟩ := exists_ownedCommits hr
  exact exists_maxCommit (mem_flatMap.mpr ⟨layer, mem_filter.mpr ⟨hlayer, hreadable⟩, hm⟩) hle

theorem row_mem_of_mem_layers (h : c ∈ candidatesWithin (layerCandidates child i layers) key bound) :
    c.row ∈ rowsWithin (layers.flatMap (·.contents child)) key bound := by
  rw [← map_row_layerCandidates child i, ← map_row_candidatesWithin]
  exact mem_map_of_mem h

theorem selectInheritedLayers_spec {rest : List BranchInheritedLayer} (hrest : rest = layers.drop i)
    (h : ∀ source, WalkInv (.inherited source i) selection rows) :
    ∃ selection' position, selectInheritedLayers key.branchId layers key bound i rest selection = .ok selection' ∧
      WalkInv position selection' (rows ++ candidatesWithin (layerCandidates key.branchId i rest) key bound) := by
  have hnext : ∀ (source source' : BranchId) (i : Nat),
      (BranchRowSource.inherited source i).NotAfter (.inherited source' (i + 1)) :=
    fun _ _ _ => .inl (by simp [rank, toLex_lt_toLex])
  induction rest generalizing i selection rows with
  | nil =>
    exact ⟨selection, _, rfl, by simpa [layerCandidates, candidatesWithin] using h key.branchId⟩
  | cons layer rest ih =>
    have hrest' : rest = layers.drop (i + 1) := by rw [← List.tail_drop, ← hrest]; rfl
    rw [selectInheritedLayers, layerCandidates, List.zipIdx_cons, List.flatMap_cons,
      candidatesWithin_append, candidatesWithin_fromSource, ← List.append_assoc]
    cases hreadable : layer.isReadable with
    | false =>
      have hnil : layer.contents key.branchId = [] := by
        simp [BranchInheritedLayer.contents, hreadable]
      simp only [Bool.not_false, ↓reduceIte, hnil, rowsWithin, List.filter_nil, fromSource_nil, List.append_nil]
      exact ih hrest' fun source => (h source).advance (hnext _ _ _)
    | true =>
      obtain ⟨selection₁, hrun₁, h₁⟩ := selectInheritedLevels_spec key key.branchId
        (i := 0) rfl
        (forInheritedLayer bound layer.forkVersion).maxCommitVersion
        (forInheritedLayer bound layer.forkVersion).maxCommitTimestamp
        (h layer.sourceBranchId)
      change WalkInv _ _ (_ ++ fromSource _ ((layer.rows.filter _).map _)) at h₁
      rw [← BranchInheritedLayer.filter_contents hreadable] at h₁
      simp only [Bool.not_true, Bool.false_eq_true, ↓reduceIte, rewritePhysicalKeyBranch_eq,
        Except.mapError, Except.ok_bind]
      rw [List.drop_zero] at hrun₁
      rw [hrun₁, Except.ok_bind]
      split_ifs with hstop
      · refine ⟨selection₁, _, rfl, h₁.skip hstop fun c hc => ?_⟩
        exact exists_maxCommitForInheritedLayers (hrest' ▸ row_mem_of_mem_layers hc)
      · exact ih hrest' fun source => h₁.advance (hnext _ _ _)

/-- No readable layer, no row. -/
theorem candidatesWithin_layers_eq_nil (h : inheritedPointSourceCount layers 0 = 0) :
    candidatesWithin (layerCandidates child 0 layers) key bound = [] := by
  have hnone : layers.flatMap (·.contents child) = [] := by
    rw [List.flatMap_eq_nil_iff]
    intro layer hlayer
    rw [BranchInheritedLayer.contents, if_neg]
    intro hreadable
    have hzero := List.sum_eq_zero_iff_forall_eq_nat.mp h _
      (List.mem_map_of_mem (List.mem_filter.mpr ⟨hlayer, hreadable⟩))
    omega
  rw [← List.map_eq_nil_iff (f := CandidateRow.row), map_row_candidatesWithin, map_row_layerCandidates, hnone]
  rfl

/-- The local sources are passed whichever way the walk leaves them, and it
returns from them only if no layer is readable. -/
theorem selectLocal_spec (key : PhysicalKey) (bound : BranchReadBound) (active : MutableTable)
    (frozen : List FrozenTable) (hvalid : validateOwnedLevels levels = .ok ()) (inheritedSourceCount : Nat) :
    ∃ selection returns, selectLocal active frozen levels inheritedSourceCount bound
        (ownLookup key bound) = .ok (selection, returns) ∧
      (returns = true → inheritedSourceCount = 0) ∧
      ∀ source, WalkInv (.inherited source 0) selection
        (candidatesWithin (ownCandidates active frozen levels) key bound) := by
  rw [ownCandidates, candidatesWithin_append, candidatesWithin_append, candidatesWithin_fromSource]
  have hactive : WalkInv .active (PointSelection.consider ⟨none⟩
      ((active.seekPreparedPoint (ownLookup key bound)).map (.localLookup · .active)))
      (fromSource .active (rowsWithin active.visibleRows key bound)) :=
    WalkInv.start.consider_mutable active key bound
  have hsource : ∀ source, BranchRowSource.active.NotAfter (.inherited source 0) := fun _ =>
    .inl (by simp [rank, toLex_lt_toLex])
  unfold selectLocal
  generalize PointSelection.consider ⟨none⟩
    ((active.seekPreparedPoint (ownLookup key bound)).map (.localLookup · .active)) = selection₁ at *
  dsimp only
  split
  · rename_i hstop
    refine ⟨selection₁, _, rfl, by simp, fun source => ?_⟩
    rw [append_assoc]
    refine (hactive.advance (hsource source)).skip hstop fun c hc => ?_
    rcases mem_append.mp hc with hc | hc
    · have hrow : c.row ∈ rowsWithin (frozen.flatMap (·.table.visibleRows)) key bound := by
        rw [← map_row_frozenCandidates 0, ← map_row_candidatesWithin]
        exact mem_map_of_mem hc
      obtain ⟨m, hm, hle⟩ := exists_frozenCommits hrow
      obtain ⟨m', hm', hle'⟩ := exists_maxCommit hm hle
      exact exists_maxCommit (mem_append_left _ (Option.mem_toList.mpr hm')) hle'
    · obtain ⟨m, hm, hle⟩ := exists_ownedCommits (row_mem_of_mem_levels hc)
      obtain ⟨m', hm', hle'⟩ := exists_maxCommit hm hle
      exact exists_maxCommit (mem_append_right _ (Option.mem_toList.mpr hm')) hle'
  have hfrozen : WalkInv (.frozen (0 + frozen.length)) (selectFrozen (ownLookup key bound) 0 frozen selection₁)
      (fromSource .active (rowsWithin active.visibleRows key bound) ++
        candidatesWithin (frozenCandidates 0 frozen) key bound) :=
    selectFrozen_spec (hactive.advance (.inl (by simp [rank, toLex_lt_toLex])))
  generalize selectFrozen (ownLookup key bound) 0 frozen selection₁ = selection₂ at *
  split_ifs with hstop
  · refine ⟨selection₂, _, rfl, by simp, fun source => ?_⟩
    refine (hfrozen.advance (.inl (by simp [rank, toLex_lt_toLex]))).skip hstop fun c hc => ?_
    obtain ⟨m, hm, hle⟩ := exists_ownedCommits (row_mem_of_mem_levels hc)
    exact exists_maxCommit hm hle
  · obtain ⟨selection₃, stopped, hrun, h₃⟩ := selectOwnedLevels_spec key bound
      (i := 0) (drop_zero (l := levels)).symm hvalid (hfrozen.advance
        (.inl (by simp [rank, toLex_lt_toLex])))
    rw [hrun]
    exact ⟨selection₃, _, rfl, by simp, h₃⟩

/-- The walk finds what an exhaustive search of all sources finds. -/
theorem selectOrderedVisiblePointCandidate_spec (active : MutableTable) (frozen : List FrozenTable)
    (hvalid : validateOwnedLevels levels = .ok ()) (layers : List BranchInheritedLayer)
    (key : PhysicalKey) (bound : BranchReadBound) :
    selectOrderedVisiblePointCandidate key.branchId active frozen levels layers key bound (forOwnBranch bound) =
      .ok (newestCandidate (ownCandidates active frozen levels ++
        layerCandidates key.branchId 0 layers) key bound) := by
  obtain ⟨selection, returns, hrun, hreturns, h⟩ := selectLocal_spec key bound active frozen
    hvalid (inheritedPointSourceCount layers 0)
  rw [newestCandidate, candidatesWithin_append]
  unfold selectOrderedVisiblePointCandidate
  dsimp only
  rw [← ownLookup, hrun, ok_bind]
  dsimp only
  split
  · rename_i hret
    rw [candidatesWithin_layers_eq_nil (hreturns hret), append_nil]
    exact (h key.branchId).finish
  split_ifs with hstop
  · exact ((h key.branchId).skip hstop fun c hc =>
      exists_maxCommitForInheritedLayers (row_mem_of_mem_layers hc)).finish
  · obtain ⟨selection', position, hrun', h'⟩ := selectInheritedLayers_spec
      (i := 0) (drop_zero (l := layers)).symm h
    rw [hrun', ok_bind]
    exact h'.finish

end Walk

/-! ## What a read returns -/

namespace BranchReadView

/-- What the search shows of the candidates of a view, tombstones included. -/
def visibleCandidate (view : BranchReadView) (key : PhysicalKey) (bound : BranchReadBound) : Option CandidateRow :=
  (newestCandidate view.candidates key bound).filter fun candidate =>
    !rowIsExpiredAt candidate.row bound.readTimestamp

variable (view : BranchReadView)

/-- The read that shows tombstones finds what the search finds. -/
theorem readPointOrTombstone_eq {key : PhysicalKey}
    (hkey : key.branchId = view.branchId) (bound : BranchReadBound) :
    view.readPointOrTombstone key bound =
      (view.requireTimestampCoverage bound).map fun _ => view.visibleCandidate key bound := by
  have hrun := selectOrderedVisiblePointCandidate_spec view.active view.frozen
    view.layout.valid view.inheritedLayers key bound
  rw [hkey] at hrun
  rw [readPointOrTombstone, requireMatchingBranch, if_pos hkey]
  dsimp only
  rw [hrun]
  cases view.requireTimestampCoverage bound <;> rfl

/-- A read shows what an exhaustive search of the view's contents shows. -/
theorem readPoint_eq {key : PhysicalKey} (hkey : key.branchId = view.branchId) (bound : BranchReadBound) :
    (view.readPoint key bound).map (Option.map CandidateRow.row) =
      (view.requireTimestampCoverage bound).map fun _ => visibleRow view.contents key bound := by
  have hrun := selectOrderedVisiblePointCandidate_spec view.active view.frozen
    view.layout.valid view.inheritedLayers key bound
  rw [hkey] at hrun
  rw [visibleRow, ← map_row_candidates, ← map_row_newestCandidate, Option.filter_map, readPoint,
    requireMatchingBranch, if_pos hkey]
  dsimp only
  rw [hrun]
  cases view.requireTimestampCoverage bound <;> rfl

/-- The walk with its early stops returns what an exhaustive search of the
readable sources returns: the newest row of the key within the bound, unless it
is a tombstone or expired. The newest row is one of greatest version, the first
in source order; where rows with equal internal keys are equal it is the only
one. A timestamp the view's history does not reach back to is refused. -/
theorem readPoint_exhaustive (view : BranchReadView) (key : PhysicalKey)
    (hkey : key.branchId = view.branchId) (bound : BranchReadBound) :
    (view.readPoint key bound).map (Option.map CandidateRow.row) =
      (view.requireTimestampCoverage bound).map (fun _ => visibleRow view.contents key bound) ∧
    (newestRow view.contents key bound = none ↔ rowsWithin view.contents key bound = []) ∧
    (∀ row, newestRow view.contents key bound = some row → row ∈ rowsWithin view.contents key bound ∧
        ∀ r ∈ rowsWithin view.contents key bound, r.commitVersion ≤ row.commitVersion) ∧
    (RowsAgree view.contents → ∀ row ∈ rowsWithin view.contents key bound,
      (∀ r ∈ rowsWithin view.contents key bound, r.commitVersion ≤ row.commitVersion) →
        newestRow view.contents key bound = some row) :=
  ⟨view.readPoint_eq hkey bound, List.argmax_eq_none, fun _ h => ⟨newestRow_mem h, fun _ hr => le_newestRow h hr⟩,
    fun hagree _ hrow hmax => newestRow_eq_some_of_agree hagree hrow hmax⟩

end BranchReadView

/-! ## A small view -/

namespace Sample

/-- A memory table with one row. -/
def memtable (row : StorageRow) : MutableTable where
  data := {
    rows := [⟨row, 0⟩]
    approximateSizeBytes := approximateRowSize row
    minCommit := some row.commitVersion
    maxCommit := some row.commitVersion
    nextSequence := 1
    rows_sorted := List.pairwise_singleton _ _
    sequence_lt := by simp
    commits_covered := by simp [CommitRangeCovers] }
  sequenceUpperBound := none
  capturedFacts := none
  bound_le := by simp
  captured_iff := MutableTable.captured_none
  captured_cover := by simp

/-- The branch's own table, in level one and read eagerly. -/
def ownTable : BranchOwnedTable :=
  ⟨branch, 1, ownOpened.reader (valid_of_reopen reopen_ownRows) .eager, none, by decide +kernel⟩

/-- The table of the branch it was forked from, read lazily, with its first block
in the cache. -/
def parentTable : BranchOwnedTable :=
  ⟨parent, 1, parentOpened.reader (valid_of_reopen reopen_parentRows) (.lazy (· == 0)), none, by decide +kernel⟩

/-- A layer forked at version two. -/
def parentLayer : BranchInheritedLayer :=
  ⟨⟨parent, 2, .active, 1⟩, [[], [parentTable]], by decide +kernel⟩

/-- A branch with rows in memory, in a table with a filter and in a layer. -/
def view : BranchReadView where
  branchId := branch
  active := memtable (cell branch 1 5)
  frozen := [(memtable (.tombstone (cellKey branch 2) 4 40)).freeze]
  layout := ⟨[[], [ownTable]], by decide +kernel⟩
  inheritedLayers := [parentLayer]
  timestampCoverage := .complete
  sources_differ := by decide +kernel

/-- Rows from memory, below a tombstone, from the table, from the layer within
its fork version, and of a key that is nowhere. -/
theorem readPoint_view : RowsAgree view.contents ∧
    ([1, 2, 3, 4, 5, 6].map fun userKey =>
      (view.readPoint (cellKey branch userKey) .latest).map (Option.map CandidateRow.row)) =
      [.ok (some (cell branch 1 5)), .ok none, .ok (some (cell branch 3 1)), .ok (some (cell branch 4 2)),
        .ok (some (cell branch 5 1)), .ok none] ∧
    (view.readPoint (cellKey branch 2) (.atTimestamp 35)).map (Option.map CandidateRow.row) =
      .ok (some (cell branch 2 3)) := by
  have hread : ∀ userKey bound, (view.readPoint (cellKey branch userKey) bound).map (Option.map CandidateRow.row) =
      (view.requireTimestampCoverage bound).map fun _ => visibleRow view.contents (cellKey branch userKey) bound :=
    fun userKey bound => (view.readPoint_exhaustive (cellKey branch userKey) rfl bound).1
  simp only [hread]
  decide +kernel

end Sample

end Strata
