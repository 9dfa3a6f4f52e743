import StrataStorage.Branch.Scan

/-!
# Scans are point reads of every key

What the cursors of a scan yield together, as far as it matches the bound, are
the view's candidates in bounds, in the order of their sources
(`select_scanEntries`). For each key the scan therefore selects what a point
read of the key finds (`select_eq_visibleCandidate`), and it returns these in the order of the
keys (`BranchReadView.scan_eq_pointReads`).
-/

namespace Strata

open BranchEffectiveReadBound Except List Function

variable {α : Type} {source : BranchScanCursorSource} {scan : BranchScanBounds} {l : List α}
variable {c₁ c₂ : List BranchScanCursor} {entries : List ScanEntry} {tables : List BranchOwnedTable}
  {levels : List (List BranchOwnedTable)} {layer : BranchInheritedLayer} {rows : List StorageRow}
  {c : CandidateRow} {levelIndex : Nat}
  (tableSource : BranchOwnedTable → Nat → BranchScanCursorSource) {n : ℕ}

/-! ## Selection -/

/-- The place of a source in the order of `source_order_cmp`. -/
def BranchRowSource.place : BranchRowSource → ℕ ×ₗ ℕ ×ₗ ℕ ×ₗ Bytes
  | .active => toLex (0, toLex (0, toLex (0, [])))
  | .frozen index => toLex (1, toLex (index, toLex (0, [])))
  | .ownedTable level tableIndex => toLex (2, toLex (level.toNat, toLex (tableIndex, [])))
  | .inherited sourceBranchId layerIndex =>
    toLex (3, toLex (layerIndex, toLex (0, sourceBranchId.bytes)))

theorem isLE_cmp {a b : Bytes} : (cmp a b).isLE = true ↔ a ≤ b := by
  rw [cmp, cmpUsing]
  split_ifs with hlt hgt
  · simpa using hlt.le
  · simpa using hgt
  · simpa using hgt

theorem isLE_sourceOrderCmp {a b : BranchRowSource} : (sourceOrderCmp a b).isLE = true ↔ a.place ≤ b.place := by
  cases a <;> cases b <;> try rw [sourceOrderCmp, Ordering.isLE_then_iff_or, isLE_cmp]
  all_goals
    simp [sourceOrderCmp, BranchRowSource.place, Prod.Lex.toLex_le_toLex, Ordering.isLE_then_iff_or,
      Nat.isLE_compare, Nat.compare_eq_lt, Nat.le_iff_lt_or_eq]

theorem isLE_newestFirstCmp {a b : CandidateRow} : (newestFirstCmp a b).isLE = true ↔
    b.row.commitVersion < a.row.commitVersion ∨
      b.row.commitVersion = a.row.commitVersion ∧ a.source.place ≤ b.source.place := by
  rw [newestFirstCmp, Ordering.isLE_then_iff_or, isLE_sourceOrderCmp, Nat.compare_eq_lt,
    Nat.compare_eq_eq, ← UInt64.lt_iff_toNat_lt, UInt64.toNat_inj]

/-- Candidates in the order of their sources. -/
def SourceOrdered (candidates : List CandidateRow) : Prop :=
  candidates.Pairwise fun a b => a.source.place ≤ b.source.place

/-- Of candidates in the order of their sources, the newest one within the bound
is selected. -/
theorem selectVisibleRowOrTombstone_eq {candidates : List CandidateRow} {bound : BranchEffectiveReadBound}
    (h : SourceOrdered (candidates.filter fun c => bound.matchesRow c.row)) :
    selectVisibleRowOrTombstone candidates bound =
      ((candidates.filter fun c => bound.matchesRow c.row).argmax (·.row.commitVersion)).filter
        fun c => !rowIsExpiredAt c.row bound.maxCommitTimestamp := by
  rw [selectVisibleRowOrTombstone, sortCandidatesNewestFirst,
    find?_mergeSort fun c : CandidateRow => c.row.commitVersion]
  · intro a b c hab hbc
    rw [isLE_newestFirstCmp] at hab hbc ⊢
    rcases hab with hab | ⟨hab, hab'⟩
    · rcases hbc with hbc | ⟨hbc, -⟩
      · exact .inl (hbc.trans hab)
      · exact .inl (hbc ▸ hab)
    · rcases hbc with hbc | ⟨hbc, hbc'⟩
      · exact .inl (hab ▸ hbc)
      · exact .inr ⟨hbc.trans hab, hab'.trans hbc'⟩
  · intro a b
    rw [Bool.or_eq_true, isLE_newestFirstCmp, isLE_newestFirstCmp]
    rcases lt_trichotomy a.row.commitVersion b.row.commitVersion with hlt | heq | hlt
    · exact .inr (.inl hlt)
    · exact (le_total a.source.place b.source.place).imp (fun hle => .inr ⟨heq.symm, hle⟩)
        fun hle => .inr ⟨heq, hle⟩
    · exact .inl (.inl hlt)
  · intro a b hab
    rcases isLE_newestFirstCmp.mp hab with hlt | ⟨heq, -⟩
    · exact hlt.le
    · exact heq.le
  · exact h.imp fun hle heq => isLE_newestFirstCmp.mpr (.inr ⟨Eq.symm heq, hle⟩)

/-! ## Opening the cursors -/

/-- Sought to their first rows, the cursors yield these entries, one list after
the other. -/
def Opens (cursors : List BranchScanCursor) (entries : List ScanEntry) : Prop :=
  ∃ (sought : List BranchScanCursor) (lists : List (List ScanEntry)),
    cursors.mapM BranchScanCursor.seekToFirst = .ok sought ∧ YieldsAll sought lists ∧
    (∀ l ∈ lists, SortedEntries l) ∧ lists.flatten = entries ∧
    entries.length ≤ (cursors.map BranchScanCursor.rowCount).sum

theorem Opens.nil : Opens [] [] := ⟨[], [], rfl, ⟨rfl, by simp⟩, by simp, rfl, Nat.le_refl _⟩

theorem YieldsAll.append {l₁ l₂ : List (List ScanEntry)} (h₁ : YieldsAll c₁ l₁)
    (h₂ : YieldsAll c₂ l₂) : YieldsAll (c₁ ++ c₂) (l₁ ++ l₂) := by
  refine ⟨by simp [h₁.length_eq, h₂.length_eq], fun i c l hc hl => ?_⟩
  rw [getElem?_append] at hc hl
  rw [h₁.length_eq] at hc
  split_ifs at hc with hlt
  · rw [if_pos hlt] at hl
    exact h₁.yields i c l hc hl
  · rw [if_neg hlt] at hl
    exact h₂.yields _ c l hc hl

theorem Opens.append {e₁ e₂ : List ScanEntry} (h₁ : Opens c₁ e₁) (h₂ : Opens c₂ e₂) :
    Opens (c₁ ++ c₂) (e₁ ++ e₂) := by
  obtain ⟨s₁, l₁, hrun₁, hyields₁, hsorted₁, rfl, hlen₁⟩ := h₁
  obtain ⟨s₂, l₂, hrun₂, hyields₂, hsorted₂, rfl, hlen₂⟩ := h₂
  refine ⟨s₁ ++ s₂, l₁ ++ l₂, ?_, hyields₁.append hyields₂, ?_, flatten_append, ?_⟩
  · rw [mapM_append, hrun₁, ok_bind, hrun₂, ok_bind]
    rfl
  · intro l hl
    exact (mem_append.mp hl).elim (hsorted₁ l) (hsorted₂ l)
  · rw [length_append, map_append, sum_append]
    exact Nat.add_le_add hlen₁ hlen₂

theorem Opens.flatMap {cursors : α → List BranchScanCursor} {entries : α → List ScanEntry}
    (h : ∀ a ∈ l, Opens (cursors a) (entries a)) :
    Opens (l.flatMap cursors) (l.flatMap entries) := by
  induction l with
  | nil => exact .nil
  | cons a l ih =>
    exact (h a mem_cons_self).append (ih fun b hb => h b (mem_cons_of_mem a hb))

theorem Opens.map (cursor : α → BranchScanCursor) (entries : α → List ScanEntry)
    (h : ∀ a ∈ l, Opens [cursor a] (entries a)) : Opens (l.map cursor) (l.flatMap entries) := by
  rw [map_eq_flatMap]
  exact .flatMap h

theorem Opens.mapM (cursors : α → Except BranchRuntimeError (List BranchScanCursor))
    (entries : α → List ScanEntry) (h : ∀ a ∈ l, ∃ cs, cursors a = .ok cs ∧ Opens cs (entries a)) :
    ∃ css, l.mapM cursors = .ok css ∧ Opens css.flatten (l.flatMap entries) := by
  induction l with
  | nil => exact ⟨[], rfl, .nil⟩
  | cons a l ih =>
    obtain ⟨cs, hcs, hopens⟩ := h a mem_cons_self
    obtain ⟨css, hcss, hopens'⟩ := ih fun b hb => h b (mem_cons_of_mem a hb)
    refine ⟨cs :: css, ?_, hopens.append hopens'⟩
    rw [mapM_cons, hcs, ok_bind, hcss, ok_bind]
    rfl

theorem Opens.single {cursor next : BranchScanCursor} (hseek : cursor.seekToFirst = .ok next)
    (hyields : next.Yields entries) (hsorted : SortedEntries entries)
    (hlen : entries.length ≤ cursor.rowCount) : Opens [cursor] entries := by
  refine ⟨[next], [entries], ?_, ⟨rfl, ?_⟩, ?_, by simp, by simpa using hlen⟩
  · rw [mapM_cons, hseek]
    rfl
  · intro i c l hc hl
    cases i with
    | zero =>
      cases hc
      cases hl
      exact hyields
    | succ i => cases hc
  · intro l hl
    obtain rfl := mem_singleton.mp hl
    exact hsorted

/-! ## Entries of a source -/

/-- What a cursor over some rows yields. -/
def sourceEntries (source : BranchScanCursorSource) (bound : BranchEffectiveReadBound)
    (bounds : TableKeyBounds) (rows : List StorageRow) : List ScanEntry :=
  (rows.filter (bounds.containsKey ·.key)).map (source.entry bound)

/-- Moving rows of one branch to another keeps their order. -/
theorem BranchScanCursorSource.shownRow_le {a b : StorageRow} (ha : source.Admits a)
    (hb : source.Admits b) (h : a.physicalKeyBytes ≤ b.physicalKeyBytes) :
    (source.shownRow a).physicalKeyBytes ≤ (source.shownRow b).physicalKeyBytes := by
  cases source with
  | inherited sourceBranchId layerIndex child =>
    rw [← not_lt] at h ⊢
    intro hlt
    refine h ?_
    have hlt : encodePhysicalKey (b.physicalKey.withBranch child) <
        encodePhysicalKey (a.physicalKey.withBranch child) := hlt
    rw [encodePhysicalKey_eq, encodePhysicalKey_eq, append_assoc, append_assoc,
      PhysicalKey.withBranch_branchId, PhysicalKey.withBranch_branchId, append_lt_append_left_iff] at hlt
    rw [StorageRow.physicalKeyBytes, StorageRow.physicalKeyBytes, encodePhysicalKey_eq,
      encodePhysicalKey_eq, append_assoc, append_assoc, hb.1, ha.1, append_lt_append_left_iff]
    exact hlt
  | _ => exact h

theorem sortedEntries_sourceEntries (hsorted : SortedRows rows)
    (hadmits : ∀ row ∈ rows, source.Admits row) (bound : BranchEffectiveReadBound)
    (bounds : TableKeyBounds) : SortedEntries (sourceEntries source bound bounds rows) := by
  refine pairwise_map.mpr ((hsorted.filter _).imp_of_mem fun ha hb hlt => ?_)
  exact source.shownRow_le (hadmits _ (mem_of_mem_filter ha))
    (hadmits _ (mem_of_mem_filter hb)) (StorageRow.physicalKeyBytes_le_of_key_le hlt.le)

/-- A cursor over one table. -/
theorem opens_singleTable (cursor : BoundedTableCursor) (hhint : cursor.inner.HintIs cursor.bounds)
    (hsorted : SortedRows cursor.inner.rows)
    (hadmits : ∀ row ∈ cursor.inner.rows, source.Admits row) (bound : BranchEffectiveReadBound) :
    Opens [.new (.singleTable cursor source) bound]
      (sourceEntries source bound cursor.bounds cursor.inner.rows) := by
  have hrows : (BranchScanCursorKind.singleTable cursor.seekToFirst source).rows =
      (cursor.inner.rows.filter (cursor.bounds.containsKey ·.key)).map (·, source) :=
    congrArg _ (BoundedTableCursor.rest_seekToFirst hhint)
  obtain ⟨next, hnext, hyields⟩ := BranchScanCursor.yields_refresh
    (.singleTable cursor.seekToFirst source) trivial (fun p hp => by
      rw [hrows] at hp
      obtain ⟨row, hrow, rfl⟩ := mem_map.mp hp
      exact hadmits row (mem_of_mem_filter hrow)) bound
  rw [hrows, map_map] at hyields
  refine Opens.single hnext hyields (sortedEntries_sourceEntries hsorted hadmits bound cursor.bounds) ?_
  rw [sourceEntries, length_map]
  exact length_filter_le _ _

theorem opens_memoryScanCursor (source : BranchScanCursorSource) (hadmits : ∀ row, source.Admits row)
    (bounds : TableKeyBounds) (bound : BranchEffectiveReadBound) (table : MutableTable) :
    Opens [memoryScanCursor bounds bound table source] (sourceEntries source bound bounds table.visibleRows) :=
  opens_singleTable (.new (.memory (.fromMutable table)) bounds) trivial
    table.visibleRows_sorted (fun row _ => hadmits row) bound

/-! ## Entries of a level -/

/-- What the cursors of a level yield. -/
def levelEntries (tableSource : BranchOwnedTable → Nat → BranchScanCursorSource)
    (bound : BranchEffectiveReadBound) (bounds : TableKeyBounds)
    (afterVersion : Option CommitVersion) (tables : List BranchOwnedTable) : List ScanEntry :=
  tables.zipIdx.flatMap fun (table, i) =>
    if nonzeroTableSealedAtOrBelow table afterVersion then []
    else sourceEntries (tableSource table i) bound bounds table.rows

section Level

variable {tables : List BranchOwnedTable} {source : BranchNonzeroLevelScanSource}
  {afterVersion : Option CommitVersion} {bounds : TableKeyBounds} {index : Nat}

theorem mem_of_mem_levelRows {p : StorageRow × BranchScanCursorSource}
    (h : p ∈ levelRows source bounds afterVersion index tables) :
    ∃ table ∈ tables, ∃ i, p.1 ∈ table.rows ∧ p.2 = source.cursorSource i := by
  obtain ⟨⟨table, i⟩, htable, hp⟩ := mem_flatMap.mp h
  have htable : table ∈ tables := fst_mem_of_mem_zipIdx htable
  dsimp only at hp
  split at hp
  · cases hp
  · obtain ⟨row, hrow, rfl⟩ := mem_map.mp hp
    exact ⟨table, htable, i, mem_of_mem_filter hrow, rfl⟩

theorem levelRows_sorted (h : DisjointTables tables) :
    (levelRows source bounds afterVersion index tables).Pairwise fun p q =>
      p.1.physicalKeyBytes ≤ q.1.physicalKeyBytes := by
  induction tables generalizing index with
  | nil => exact List.Pairwise.nil
  | cons table tables ih =>
    obtain ⟨hhead, htail⟩ := pairwise_cons.mp h
    rw [levelRows_cons]
    refine pairwise_append.mpr ⟨?_, ih htail, fun p hp q hq => ?_⟩
    · split
      · exact List.Pairwise.nil
      · exact pairwise_map.mpr ((table.reader.rows_sorted.filter _).imp fun hlt =>
          StorageRow.physicalKeyBytes_le_of_key_le hlt.le)
    · split at hp
      · cases hp
      · obtain ⟨row, hrow, rfl⟩ := mem_map.mp hp
        obtain ⟨later, hlater, i, hq, -⟩ := mem_of_mem_levelRows hq
        calc row.physicalKeyBytes ≤ table.lastPhysical := table.le_lastPhysical (mem_of_mem_filter hrow)
          _ ≤ later.firstPhysical := (hhead later hlater).le
          _ ≤ q.1.physicalKeyBytes := later.firstPhysical_le hq

theorem length_levelRows_le : (levelRows source bounds afterVersion index tables).length ≤
      (tables.flatMap (·.rows)).length := by
  induction tables generalizing index with
  | nil => exact Nat.le_refl _
  | cons table tables ih =>
    rw [levelRows_cons, length_append, flatMap_cons, length_append]
    refine Nat.add_le_add ?_ ih
    split
    · exact Nat.zero_le _
    · rw [length_map]
      exact length_filter_le _ _

end Level

/-- A level shows the rows of all its tables alike. -/
theorem BranchNonzeroLevelScanSource.shownRow_cursorSource (source : BranchNonzeroLevelScanSource)
    (i j : Nat) : (source.cursorSource i).shownRow = (source.cursorSource j).shownRow := by
  cases source <;> rfl

theorem BranchNonzeroLevelScanSource.admits_cursorSource (source : BranchNonzeroLevelScanSource)
    (i j : Nat) : (source.cursorSource i).Admits = (source.cursorSource j).Admits := by
  cases source <;> rfl

/-- The cursors of an accepted level yield the rows in bounds of its tables. -/
theorem levelScanCursors_opens {branchId : BranchId} (hvalid : LevelValid levelIndex tables)
    {tableSource : BranchOwnedTable → Nat → BranchScanCursorSource}
    {levelSource : Except BranchRuntimeError BranchNonzeroLevelScanSource}
    {source : BranchNonzeroLevelScanSource} (hsource : levelSource = .ok source)
    (hsources : ∀ table ∈ tables, ∀ i, tableSource table i = source.cursorSource i)
    (hadmits : ∀ table ∈ tables, ∀ i, ∀ row ∈ table.rows, (tableSource table i).Admits row)
    (bound : BranchEffectiveReadBound) (afterVersion : Option CommitVersion) :
    ∃ cursors, levelScanCursors (scan.tableBounds branchId) bound afterVersion tableSource
        levelSource levelIndex tables = .ok cursors ∧
      Opens cursors (levelEntries tableSource bound (scan.tableBounds branchId) afterVersion
        tables) := by
  unfold levelScanCursors
  split_ifs with hlevel
  · refine ⟨_, rfl, Opens.flatMap fun ⟨table, i⟩ hmem => ?_⟩
    have htable : table ∈ tables := fst_mem_of_mem_zipIdx hmem
    dsimp only
    split
    · exact .nil
    · exact opens_singleTable (table.reader.boundedCursor (scan.tableBounds branchId))
        (fun _ h => (Option.some.inj h).symm) table.reader.rows_sorted (hadmits table htable i) bound
  · have hdisjoint := hvalid.disjoint hlevel
    have hentries : levelEntries tableSource bound (scan.tableBounds branchId) afterVersion tables =
        (levelRows source (scan.tableBounds branchId) afterVersion 0 tables).map fun p => p.2.entry bound p.1 := by
      rw [levelEntries, levelRows, map_flatMap]
      refine flatMap_congr fun ⟨table, i⟩ hmem => ?_
      dsimp only
      rw [hsources table (fst_mem_of_mem_zipIdx hmem)]
      split
      · rfl
      · rw [map_map]
        rfl
    have hrowsAdmit : ∀ p ∈ levelRows source (scan.tableBounds branchId) afterVersion 0 tables,
        p.2.Admits p.1 := by
      intro p hp
      obtain ⟨table, htable, i, hrow, hsource⟩ := mem_of_mem_levelRows hp
      rw [hsource, ← hsources table htable]
      exact hadmits table htable i p.1 hrow
    obtain ⟨found, hfound, hrows⟩ := firstNonzeroLevelScanTableIndex_spec scan branchId
      hdisjoint source afterVersion
    rw [hfound, ok_bind, hentries]
    cases found with
    | none =>
      refine ⟨[], rfl, ?_⟩
      rw [← hrows]
      exact .nil
    | some first =>
      rw [hsource]
      refine ⟨_, rfl, ?_⟩
      obtain ⟨kind, hseek, hkind, hkindRows⟩ := BranchScanCursorKind.seekToFirst_nonzeroLevel ⟨tables,
        scan.tableBounds branchId, source, first, afterVersion, none⟩ ⟨hdisjoint, scan, branchId, rfl⟩
      have hkindRows : kind.rows = levelRows source (scan.tableBounds branchId) afterVersion 0 tables :=
        hkindRows.trans hrows
      obtain ⟨next, hnext, hyields⟩ := BranchScanCursor.yields_refresh kind hkind (hkindRows ▸ hrowsAdmit) bound
      rw [hkindRows] at hyields
      refine Opens.single ?_ hyields ?_ ?_
      · rw [BranchScanCursor.seekToFirst, BranchScanCursor.new]
        rw [hseek]
        exact hnext
      · refine pairwise_map.mpr ((levelRows_sorted hdisjoint).imp_of_mem fun {p q} hp hq hle => ?_)
        have hpAdmits := hrowsAdmit p hp
        have hqAdmits := hrowsAdmit q hq
        obtain ⟨-, -, i, -, hp⟩ := mem_of_mem_levelRows hp
        obtain ⟨-, -, j, -, hq⟩ := mem_of_mem_levelRows hq
        rw [hp] at hpAdmits
        rw [hq, source.admits_cursorSource j i] at hqAdmits
        dsimp only [BranchScanCursorSource.entry]
        rw [hp, hq, source.shownRow_cursorSource j i]
        exact BranchScanCursorSource.shownRow_le hpAdmits hqAdmits hle
      · rw [length_map]
        exact length_levelRows_le

/-! ## Entries of a view -/

/-- The source of the rows of a table the branch owns. -/
def ownedSource (table : BranchOwnedTable) (tableIndex : Nat) : BranchScanCursorSource :=
  .ownedTable table.level tableIndex

/-- What the cursors of a layer yield. -/
def layerEntries (child : BranchId) (scan : BranchScanBounds) (bound : BranchReadBound)
    (afterVersion : Option CommitVersion) (layer : BranchInheritedLayer) (layerIndex : Nat) :
    List ScanEntry :=
  if layer.isReadable then
    layer.ownedLevels.flatMap (levelEntries (fun _ _ => .inherited layer.sourceBranchId layerIndex child)
      (BranchEffectiveReadBound.forInheritedLayer bound layer.forkVersion)
      (scan.tableBounds layer.sourceBranchId) afterVersion)
  else []

/-- What all the cursors of a scan yield. -/
def BranchReadView.scanEntries (view : BranchReadView) (scan : BranchScanBounds)
    (bound : BranchReadBound) (afterVersion : Option CommitVersion) : List ScanEntry :=
  let ownBound := BranchEffectiveReadBound.forOwnBranch bound
  let ownBounds := scan.tableBounds scan.branchId
  sourceEntries .active ownBound ownBounds view.active.visibleRows ++ (view.frozen.zipIdx.flatMap fun (table, i) =>
      sourceEntries (.frozen i) ownBound ownBounds table.table.visibleRows) ++
    view.layout.levels.flatMap (levelEntries ownedSource ownBound ownBounds afterVersion) ++
    view.inheritedLayers.zipIdx.flatMap fun (layer, i) =>
      layerEntries view.branchId scan bound afterVersion layer i

/-- The cursors of accepted levels yield the rows in bounds of their tables. -/
theorem levelsScanCursors_opens (hvalid : validateOwnedLevels levels = .ok ())
    (tableSource : BranchOwnedTable → Nat → BranchScanCursorSource)
    (levelSource : Nat → Except BranchRuntimeError BranchNonzeroLevelScanSource)
    (source : Nat → BranchNonzeroLevelScanSource)
    (hsource : ∀ i, i < 256 → levelSource i = .ok (source i))
    (hsources : ∀ table : BranchOwnedTable, ∀ i, tableSource table i = (source table.level.toNat).cursorSource i)
    (hadmits : ∀ table ∈ levels.flatten, ∀ i, ∀ row ∈ table.rows, (tableSource table i).Admits row)
    (scan : BranchScanBounds) (branchId : BranchId) (bound : BranchEffectiveReadBound)
    (afterVersion : Option CommitVersion) :
    ∃ css, (levels.zipIdx.mapM fun (tables, levelIndex) =>
        levelScanCursors (scan.tableBounds branchId) bound afterVersion tableSource
          (levelSource levelIndex) levelIndex tables) = .ok css ∧
      Opens css.flatten (levels.flatMap
        (levelEntries tableSource bound (scan.tableBounds branchId) afterVersion)) := by
  rw [validateOwnedLevels_eq_ok] at hvalid
  rw [← flatMap_zipIdx_fst _ _ 0]
  refine Opens.mapM _ _ ?_
  rintro ⟨tables, i⟩ hmem
  have hlevel := hvalid i tables (mem_zipIdx_iff_getElem?.mp hmem)
  refine levelScanCursors_opens hlevel (hsource i hlevel.index_lt) (fun table htable j => ?_)
    (fun table htable => hadmits table ?_) bound afterVersion
  · rw [hsources, hlevel.level_eq table htable]
  · exact mem_flatten.mpr ⟨tables, fst_mem_of_mem_zipIdx hmem, htable⟩

theorem pushOwnedLevelScanCursors_opens (hvalid : validateOwnedLevels levels = .ok ())
    (scan : BranchScanBounds) (branchId : BranchId) (bound : BranchEffectiveReadBound)
    (afterVersion : Option CommitVersion) :
    ∃ cursors, pushOwnedLevelScanCursors levels (scan.tableBounds branchId) bound afterVersion = .ok cursors ∧
      Opens cursors (levels.flatMap
        (levelEntries ownedSource bound (scan.tableBounds branchId) afterVersion)) := by
  have hsources : ∀ table : BranchOwnedTable, ∀ i, ownedSource table i =
      (BranchNonzeroLevelScanSource.owned (UInt8.ofNat table.level.toNat)).cursorSource i :=
    fun table i => by rw [UInt8.ofNat_toNat]; rfl
  obtain ⟨css, hcss, hopens⟩ := levelsScanCursors_opens hvalid ownedSource ownedLevelSource
    (fun i => .owned (UInt8.ofNat i)) (fun i hi => if_pos hi) hsources
    (fun _ _ _ _ _ => trivial) scan branchId bound afterVersion
  refine ⟨css.flatten, ?_, hopens⟩
  rw [pushOwnedLevelScanCursors, show (levels.zipIdx.mapM _) = .ok css from hcss]
  rfl

theorem layerScanCursors_opens (child : BranchId) (scan : BranchScanBounds) (bound : BranchReadBound)
    (afterVersion : Option CommitVersion) (hne : child ≠ layer.sourceBranchId) (layerIndex : Nat) :
    ∃ cursors, layerScanCursors child scan bound afterVersion layer layerIndex = .ok cursors ∧
      Opens cursors (layerEntries child scan bound afterVersion layer layerIndex) := by
  unfold layerScanCursors layerEntries
  cases layer.isReadable with
  | false => exact ⟨[], rfl, .nil⟩
  | true =>
    have hadmits : ∀ table ∈ layer.ownedLevels.flatten, Nat → ∀ row ∈ table.rows,
        (BranchScanCursorSource.inherited layer.sourceBranchId layerIndex child).Admits row :=
      fun table htable _ row hrow => ⟨layer.branchId_eq (mem_flatMap.mpr ⟨table, htable, hrow⟩), hne⟩
    obtain ⟨css, hcss, hopens⟩ := levelsScanCursors_opens layer.layerValid.levels_valid
      (fun _ _ => .inherited layer.sourceBranchId layerIndex child)
      (fun _ => .ok (.inherited layer.sourceBranchId layerIndex child))
      (fun _ => .inherited layer.sourceBranchId layerIndex child)
      (fun _ _ => rfl) (fun _ _ => rfl) hadmits scan layer.sourceBranchId
      (forInheritedLayer bound layer.forkVersion) afterVersion
    refine ⟨css.flatten, ?_, hopens⟩
    rw [scan.tableKeyBoundsForBranch_eq]
    simp [hcss]

/-- The cursors of a scan of a view. -/
theorem scanCursorsForSources_opens (view : BranchReadView) (scan : BranchScanBounds)
    (bound : BranchReadBound) (afterVersion : Option CommitVersion) :
    ∃ cursors, scanCursorsForSources view.branchId view.active view.frozen view.layout.levels
        view.inheritedLayers scan bound afterVersion = .ok cursors ∧
      Opens cursors (view.scanEntries scan bound afterVersion) := by
  obtain ⟨owned, howned, hownedOpens⟩ := pushOwnedLevelScanCursors_opens view.layout.valid scan
    scan.branchId (forOwnBranch bound) afterVersion
  have hinherited : ∀ p ∈ view.inheritedLayers.zipIdx, ∃ cursors,
      layerScanCursors view.branchId scan bound afterVersion p.1 p.2 = .ok cursors ∧
        Opens cursors (layerEntries view.branchId scan bound afterVersion p.1 p.2) :=
    fun p hmem => layerScanCursors_opens view.branchId scan bound afterVersion
      (view.sources_differ p.1 (fst_mem_of_mem_zipIdx hmem)).symm p.2
  obtain ⟨inherited, hrun, hinheritedOpens⟩ := Opens.mapM _ _ hinherited
  have hactive := opens_memoryScanCursor .active (fun _ => trivial)
    (scan.tableBounds scan.branchId) (forOwnBranch bound) view.active
  have hfrozen : Opens (view.frozen.zipIdx.map fun (table, i) =>
      memoryScanCursor (scan.tableBounds scan.branchId) (forOwnBranch bound) table.table (.frozen i)) _ :=
    Opens.map _ (fun (table, i) => sourceEntries (.frozen i) (forOwnBranch bound) (scan.tableBounds scan.branchId)
      table.table.visibleRows) fun p _ => opens_memoryScanCursor (.frozen p.2) (fun _ => trivial) _ _ _
  refine ⟨_, ?_, ((hactive.append hfrozen).append hownedOpens).append hinheritedOpens⟩
  rw [scanCursorsForSources, scan.tableKeyBoundsForBranch_eq, ok_bind]
  dsimp only
  rw [howned, ok_bind, pushInheritedLevelScanCursors,
    show (view.inheritedLayers.zipIdx.mapM _) = .ok inherited from hrun]
  rfl

/-! ## The candidates among the entries -/

/-- The candidates among entries that match a bound. -/
def matched (bound : BranchEffectiveReadBound) (entries : List ScanEntry) : List CandidateRow :=
  (entries.filterMap (·.candidate)).filter fun c => bound.matchesRow c.row

/-- A candidate is in bounds and matches. -/
def InScan (scan : BranchScanBounds) (bound : BranchEffectiveReadBound) (c : CandidateRow) : Bool :=
  decide (scan.Contains c.row.physicalKey) && bound.matchesRow c.row

/-- The bound a scan selects by. -/
def scanBound (bound : BranchReadBound) (afterVersion : Option CommitVersion) :
    BranchEffectiveReadBound :=
  (BranchEffectiveReadBound.forOwnBranch bound).withMinCommitVersion afterVersion

theorem matchesRow_scanBound (bound : BranchReadBound) (afterVersion : Option CommitVersion)
    (row : StorageRow) : (scanBound bound afterVersion).matchesRow row =
      ((forOwnBranch bound).matchesRow row && afterVersion.all (· < row.commitVersion)) := by
  cases bound <;>
    simp [scanBound, withMinCommitVersion, forOwnBranch, new, matchesRow, rowVersionInBound,
      rowTimestampInBound, Bool.and_comm]

section Matched

variable {bound eff : BranchEffectiveReadBound}

theorem matched_append (l₁ l₂ : List ScanEntry) :
    matched bound (l₁ ++ l₂) = matched bound l₁ ++ matched bound l₂ := by
  rw [matched, filterMap_append, filter_append]
  rfl

theorem matched_flatMap {α : Type} (l : List α) (f : α → List ScanEntry) :
    matched bound (l.flatMap f) = l.flatMap fun a => matched bound (f a) := by
  rw [matched, filterMap_flatMap, filter_flatMap]
  rfl

theorem matched_sourceEntries (source : BranchScanCursorSource) (bounds : TableKeyBounds)
    (rows : List StorageRow) : matched bound (sourceEntries source eff bounds rows) =
      (rows.filter fun row => bounds.containsKey row.key && eff.matchesRow row &&
        bound.matchesRow (source.shownRow row)).map fun row => ⟨source.shownRow row, source.rowSource⟩ := by
  rw [matched, sourceEntries, filterMap_map]
  induction rows with
  | nil => rfl
  | cons row rows ih =>
    cases hcontains : bounds.containsKey row.key <;> cases heff : eff.matchesRow row <;>
      cases hbound : bound.matchesRow (source.shownRow row) <;>
      simp [hcontains, heff, hbound, BranchScanCursorSource.entry, ih]

/-- The rows of one of the branch's own sources. -/
theorem matched_ownEntries {source : BranchScanCursorSource}
    (hown : ∀ row, source.shownRow row = row) (scan : BranchScanBounds) (read : BranchReadBound)
    (afterVersion : Option CommitVersion) (rows : List StorageRow) :
    matched (scanBound read afterVersion) (sourceEntries source (forOwnBranch read)
          (scan.tableBounds scan.branchId) rows) =
      (fromSource source.rowSource rows).filter (InScan scan (scanBound read afterVersion)) := by
  rw [matched_sourceEntries, fromSource, filter_map]
  simp only [hown, scan.containsKey_tableBounds, matchesRow_scanBound]
  congr 1
  refine filter_congr fun row _ => ?_
  simp only [InScan, comp_apply, matchesRow_scanBound]
  cases (forOwnBranch read).matchesRow row <;> simp

/-- The rows of a table of an inherited layer, as rows of the branch. -/
theorem matched_inheritedEntries {sourceBranchId : BranchId}
    (hrows : ∀ row ∈ rows, row.physicalKey.branchId = sourceBranchId) (scan : BranchScanBounds)
    (read : BranchReadBound) (afterVersion : Option CommitVersion) (forkVersion : CommitVersion)
    (layerIndex : Nat) :
    matched (scanBound read afterVersion) (sourceEntries (.inherited sourceBranchId layerIndex scan.branchId)
          (forInheritedLayer read forkVersion)
          (scan.tableBounds sourceBranchId) rows) =
      (fromSource (.inherited sourceBranchId layerIndex)
        ((rows.filter (·.commitVersion ≤ forkVersion)).map (·.withBranch scan.branchId))).filter
          (InScan scan (scanBound read afterVersion)) := by
  rw [matched_sourceEntries, fromSource, map_map, filter_map, filter_filter]
  congr 1
  refine filter_congr fun row hrow => ?_
  have hcontains : scan.ContainsIn sourceBranchId row.physicalKey ↔
      scan.Contains (row.withBranch scan.branchId).physicalKey := by
    simp [BranchScanBounds.ContainsIn, hrows row hrow, PhysicalKey.withBranch]
  have hmatches : (scanBound read afterVersion).matchesRow (row.withBranch scan.branchId) =
      (scanBound read afterVersion).matchesRow row := rfl
  simp only [InScan, comp_apply, scan.containsKey_tableBounds, hcontains,
    matchesRow_forInheritedLayer, BranchScanCursorSource.shownRow, hmatches, matchesRow_scanBound]
  rw [Bool.eq_iff_iff]
  simp only [Bool.and_eq_true]
  tauto

/-- No row of a sealed table is after the watermark. -/
theorem matched_eq_nil_of_sealed {table : BranchOwnedTable} {afterVersion : Option CommitVersion}
    (h : nonzeroTableSealedAtOrBelow table afterVersion = true) (source : BranchScanCursorSource)
    (read : BranchReadBound) (bounds : TableKeyBounds) :
    matched (scanBound read afterVersion) (sourceEntries source eff bounds table.rows) = [] := by
  rw [matched_sourceEntries, map_eq_nil_iff, filter_eq_nil_iff]
  intro row hrow hmatches
  cases afterVersion with
  | none => cases h
  | some watermark =>
    have hsealed : table.facts.commitMax ≤ watermark := by
      simpa [nonzeroTableSealedAtOrBelow] using h
    have hversion : (source.shownRow row).commitVersion = row.commitVersion := by
      cases source <;> rfl
    simp only [matchesRow_scanBound, Bool.and_eq_true, Option.all_some, decide_eq_true_eq, hversion] at hmatches
    exact absurd ((table.reader.facts_describe.le_commitMax row hrow).trans hsealed) (not_le.mpr hmatches.2.2)

theorem matched_levelEntries (read : BranchReadBound) (bounds : TableKeyBounds)
    (afterVersion : Option CommitVersion) (tables : List BranchOwnedTable) :
    matched (scanBound read afterVersion) (levelEntries tableSource eff bounds afterVersion tables) =
      tables.zipIdx.flatMap fun p => matched (scanBound read afterVersion)
        (sourceEntries (tableSource p.1 p.2) eff bounds p.1.rows) := by
  rw [levelEntries, matched_flatMap]
  refine flatMap_congr fun ⟨table, i⟩ _ => ?_
  dsimp only
  split_ifs with hsealed
  · rw [matched_eq_nil_of_sealed hsealed]
    rfl
  · rfl

end Matched

theorem fromSource_flatMap (source : BranchRowSource) (l : List α) (f : α → List StorageRow) :
    fromSource source (l.flatMap f) = l.flatMap fun a => fromSource source (f a) := by
  rw [fromSource, map_flatMap]
  rfl

/-- The rows of a readable layer, table by table. -/
theorem fromSource_contents (h : layer.isReadable = true) (source : BranchRowSource) (child : BranchId) :
    fromSource source (layer.contents child) = layer.ownedLevels.flatMap fun tables =>
      tables.flatMap fun table => fromSource source
        ((table.rows.filter (·.commitVersion ≤ layer.forkVersion)).map (·.withBranch child)) := by
  rw [BranchInheritedLayer.contents, if_pos h, BranchInheritedLayer.rows, filter_flatMap,
    map_flatMap, fromSource_flatMap, flatten_eq_flatMap, flatMap_assoc]
  rfl

theorem matched_layerEntries (scan : BranchScanBounds) (read : BranchReadBound)
    (afterVersion : Option CommitVersion) (layer : BranchInheritedLayer) (layerIndex : Nat) :
    matched (scanBound read afterVersion) (layerEntries scan.branchId scan read afterVersion layer layerIndex) =
      (fromSource (.inherited layer.sourceBranchId layerIndex)
        (layer.contents scan.branchId)).filter (InScan scan (scanBound read afterVersion)) := by
  unfold layerEntries
  split_ifs with hreadable
  · rw [fromSource_contents hreadable, matched_flatMap, filter_flatMap]
    refine flatMap_congr fun tables htables => ?_
    rw [matched_levelEntries, filter_flatMap, flatMap_zipIdx_fst fun table : BranchOwnedTable =>
      matched (scanBound read afterVersion)
        (sourceEntries (.inherited layer.sourceBranchId layerIndex scan.branchId)
          (forInheritedLayer read layer.forkVersion)
          (scan.tableBounds layer.sourceBranchId) table.rows)]
    refine flatMap_congr fun table htable => matched_inheritedEntries (fun row hrow => ?_)
      scan read afterVersion layer.forkVersion layerIndex
    exact layer.branchId_eq (mem_flatMap.mpr ⟨table, mem_flatten.mpr ⟨tables, htables, htable⟩, hrow⟩)
  · rw [BranchInheritedLayer.contents, if_neg hreadable]
    rfl

/-- What the cursors offer within the bound are the view's candidates in bounds,
in the order of their sources. -/
theorem matched_scanEntries (view : BranchReadView) (hbranch : scan.branchId = view.branchId)
    (read : BranchReadBound) (afterVersion : Option CommitVersion) :
    matched (scanBound read afterVersion) (view.scanEntries scan read afterVersion) =
      view.candidates.filter (InScan scan (scanBound read afterVersion)) := by
  have howned : ∀ tables, matched (scanBound read afterVersion) (levelEntries ownedSource (forOwnBranch read)
        (scan.tableBounds scan.branchId) afterVersion tables) =
      (levelCandidates tables).filter (InScan scan (scanBound read afterVersion)) := fun tables => by
    rw [matched_levelEntries, levelCandidates, filter_flatMap]
    exact flatMap_congr fun p _ => matched_ownEntries (fun _ => rfl) scan read afterVersion _
  rw [BranchReadView.scanEntries, BranchReadView.candidates, ownCandidates, ← hbranch]
  simp only [matched_append, matched_flatMap, filter_append, filter_flatMap, howned,
    frozenCandidates, layerCandidates, matched_layerEntries]
  rw [matched_ownEntries fun _ => rfl]
  congr 3
  exact flatMap_congr fun p _ => matched_ownEntries (fun _ => rfl) scan read afterVersion _

/-! ## The order of the candidates -/

theorem source_eq_of_mem_fromSource {source : BranchRowSource} (h : c ∈ fromSource source rows) : c.source = source := by
  obtain ⟨row, -, rfl⟩ := mem_map.mp h
  rfl

theorem sourceOrdered_fromSource (source : BranchRowSource) (rows : List StorageRow) :
    SourceOrdered (fromSource source rows) :=
  pairwise_map.mpr (pairwise_of_forall fun _ _ => le_rfl)

/-- Sources that follow each other in the order of their index. -/
theorem sourceOrdered_flatMap_zipIdx {f : α × Nat → List CandidateRow}
    (hself : ∀ p ∈ l.zipIdx, SourceOrdered (f p)) (hlt : ∀ p ∈ l.zipIdx, ∀ q ∈ l.zipIdx, p.2 < q.2 →
      ∀ a ∈ f p, ∀ b ∈ f q, a.source.place ≤ b.source.place) :
    SourceOrdered (l.zipIdx.flatMap f) := by
  have hindex : l.zipIdx.Pairwise fun p q => p.2 < q.2 := by
    rw [← pairwise_map, zipIdx_map_snd]
    exact pairwise_lt_range'
  exact pairwise_flatMap.mpr ⟨hself, hindex.imp_of_mem fun {p q} hp hq h => hlt p hp q hq h⟩

theorem sourceOrdered_levelCandidates (h : LevelValid levelIndex tables) :
    SourceOrdered (levelCandidates tables) := by
  refine sourceOrdered_flatMap_zipIdx (fun _ _ => sourceOrdered_fromSource _ _) ?_
  intro p hp q hq hlt a ha b hb
  rw [source_eq_of_mem_fromSource ha, source_eq_of_mem_fromSource hb]
  simp only [BranchRowSource.place, Prod.Lex.toLex_le_toLex,
    h.level_eq p.1 (fst_mem_of_mem_zipIdx hp), h.level_eq q.1 (fst_mem_of_mem_zipIdx hq)]
  exact .inr ⟨trivial, .inr ⟨trivial, .inl hlt⟩⟩

/-- Active, frozen, owned or inherited. -/
def BranchRowSource.kindRank (source : BranchRowSource) : ℕ := (ofLex source.place).1

theorem SourceOrdered.append {l₁ l₂ : List CandidateRow} (h₁ : SourceOrdered l₁)
    (h₂ : SourceOrdered l₂) (hlt : ∀ c ∈ l₁, c.source.kindRank < n)
    (hge : ∀ c ∈ l₂, n ≤ c.source.kindRank) : SourceOrdered (l₁ ++ l₂) :=
  pairwise_append.mpr ⟨h₁, h₂, fun a ha b hb => (Prod.Lex.lt_iff.mpr (.inl ((hlt a ha).trans_le (hge b hb)))).le⟩

/-- The candidates of a view are in the order of their sources. -/
theorem sourceOrdered_candidates (view : BranchReadView) : SourceOrdered view.candidates := by
  have hlevels := validateOwnedLevels_eq_ok.mp view.layout.valid
  have hlevel : ∀ p ∈ view.layout.levels.zipIdx, LevelValid p.2 p.1 := fun p hp =>
    hlevels p.2 p.1 (mem_zipIdx_iff_getElem?.mp hp)
  have hactive : ∀ c ∈ fromSource .active view.active.visibleRows, c.source.kindRank = 0 :=
    fun c hc => by rw [source_eq_of_mem_fromSource hc]; rfl
  have hfrozen : ∀ c ∈ frozenCandidates 0 view.frozen, c.source.kindRank = 1 := fun c hc => by
    obtain ⟨p, -, hc⟩ := mem_flatMap.mp hc
    rw [source_eq_of_mem_fromSource hc]; rfl
  have howned : ∀ c ∈ view.layout.levels.flatMap levelCandidates, c.source.kindRank = 2 := fun c hc => by
      obtain ⟨tables, -, hc⟩ := mem_flatMap.mp hc
      obtain ⟨p, -, hc⟩ := mem_flatMap.mp hc
      rw [source_eq_of_mem_fromSource hc]; rfl
  have hinherited : ∀ c ∈ layerCandidates view.branchId 0 view.inheritedLayers,
      c.source.kindRank = 3 := fun c hc => by
    obtain ⟨p, -, hc⟩ := mem_flatMap.mp hc
    rw [source_eq_of_mem_fromSource hc]; rfl
  have hfrozenOrdered : SourceOrdered (frozenCandidates 0 view.frozen) := by
    refine sourceOrdered_flatMap_zipIdx (fun _ _ => sourceOrdered_fromSource _ _) ?_
    intro p _ q _ hlt a ha b hb
    rw [source_eq_of_mem_fromSource ha, source_eq_of_mem_fromSource hb]
    exact (Prod.Lex.toLex_le_toLex.mpr (.inr ⟨rfl, (Prod.Lex.toLex_lt_toLex.mpr (.inl hlt)).le⟩))
  have hownedOrdered : SourceOrdered (view.layout.levels.flatMap levelCandidates) := by
    rw [← flatMap_zipIdx_fst levelCandidates _ 0]
    refine sourceOrdered_flatMap_zipIdx (fun p hp => sourceOrdered_levelCandidates (hlevel p hp)) ?_
    intro p hp q hq hlt a ha b hb
    obtain ⟨t, ht, ha⟩ := mem_flatMap.mp ha
    obtain ⟨u, hu, hb⟩ := mem_flatMap.mp hb
    rw [source_eq_of_mem_fromSource ha, source_eq_of_mem_fromSource hb]
    refine (Prod.Lex.toLex_le_toLex.mpr (.inr ⟨rfl, (Prod.Lex.toLex_lt_toLex.mpr (.inl ?_)).le⟩))
    rwa [(hlevel p hp).level_eq t.1 (fst_mem_of_mem_zipIdx ht),
      (hlevel q hq).level_eq u.1 (fst_mem_of_mem_zipIdx hu)]
  have hinheritedOrdered : SourceOrdered (layerCandidates view.branchId 0 view.inheritedLayers) := by
    refine sourceOrdered_flatMap_zipIdx (fun _ _ => sourceOrdered_fromSource _ _) ?_
    intro p _ q _ hlt a ha b hb
    rw [source_eq_of_mem_fromSource ha, source_eq_of_mem_fromSource hb]
    exact (Prod.Lex.toLex_le_toLex.mpr (.inr ⟨rfl, (Prod.Lex.toLex_lt_toLex.mpr (.inl hlt)).le⟩))
  have hlocal := (sourceOrdered_fromSource .active view.active.visibleRows).append hfrozenOrdered
    (fun c hc => (hactive c hc).trans_lt Nat.zero_lt_one) fun c hc => (hfrozen c hc).ge
  have hown := hlocal.append (n := 2) hownedOrdered (fun c hc => by
    rcases mem_append.mp hc with hc | hc
    · rw [hactive c hc]; omega
    · rw [hfrozen c hc]; omega) fun c hc => (howned c hc).ge
  refine hown.append (n := 3) hinheritedOrdered (fun c hc => ?_) fun c hc => (hinherited c hc).ge
  rcases mem_append.mp hc with hc | hc
  · rcases mem_append.mp hc with hc | hc
    · rw [hactive c hc]; omega
    · rw [hfrozen c hc]; omega
  · rw [howned c hc]; omega

/-! ## The selection of a key -/

/-- A candidate has the key its entry shows. -/
def Keyed (entries : List ScanEntry) : Prop :=
  ∀ entry ∈ entries, ∀ c ∈ entry.candidate, c.row.physicalKeyBytes = entry.key

theorem keyed_sourceEntries (source : BranchScanCursorSource) (bound : BranchEffectiveReadBound)
    (bounds : TableKeyBounds) (rows : List StorageRow) :
    Keyed (sourceEntries source bound bounds rows) := by
  intro entry hentry c hc
  obtain ⟨row, -, rfl⟩ := mem_map.mp hentry
  dsimp only [BranchScanCursorSource.entry] at hc
  split at hc
  · cases hc
    rfl
  · cases hc

theorem Keyed.append {l₁ l₂ : List ScanEntry} (h₁ : Keyed l₁) (h₂ : Keyed l₂) : Keyed (l₁ ++ l₂) :=
  fun entry hentry => (mem_append.mp hentry).elim (h₁ entry) (h₂ entry)

theorem Keyed.flatMap {f : α → List ScanEntry} (h : ∀ a ∈ l, Keyed (f a)) :
    Keyed (l.flatMap f) := fun entry hentry => by
  obtain ⟨a, ha, hentry⟩ := mem_flatMap.mp hentry
  exact h a ha entry hentry

theorem keyed_levelEntries (bound : BranchEffectiveReadBound) (bounds : TableKeyBounds)
    (afterVersion : Option CommitVersion) (tables : List BranchOwnedTable) :
    Keyed (levelEntries tableSource bound bounds afterVersion tables) := by
  refine Keyed.flatMap fun ⟨table, i⟩ _ => ?_
  dsimp only
  split
  · exact fun _ h => absurd h (by simp)
  · exact keyed_sourceEntries _ _ _ _

theorem keyed_scanEntries (view : BranchReadView) (scan : BranchScanBounds) (read : BranchReadBound)
    (afterVersion : Option CommitVersion) : Keyed (view.scanEntries scan read afterVersion) := by
  refine ((((keyed_sourceEntries _ _ _ _).append (.flatMap fun _ _ => keyed_sourceEntries _ _ _ _)).append
    (.flatMap fun _ _ => keyed_levelEntries _ _ _ _ _)).append (.flatMap fun ⟨layer, i⟩ _ => ?_))
  dsimp only [layerEntries]
  split
  · exact .flatMap fun _ _ => keyed_levelEntries _ _ _ _ _
  · exact fun _ h => absurd h (by simp)

theorem filter_groupCandidates (h : Keyed entries) (bound : BranchEffectiveReadBound) (key : Bytes) :
    (groupCandidates entries key).filter (fun c => bound.matchesRow c.row) =
      (matched bound entries).filter fun c => c.row.physicalKeyBytes = key := by
  rw [groupCandidates, matched]
  induction entries with
  | nil => rfl
  | cons entry entries ih =>
    have hrest := ih fun e he => h e (mem_cons_of_mem _ he)
    cases hcandidate : entry.candidate with
    | none => by_cases hkey : entry.key = key <;> simp [hkey, hcandidate, hrest]
    | some c =>
      have hc : c.row.physicalKeyBytes = entry.key := h entry mem_cons_self c hcandidate
      cases hbound : bound.matchesRow c.row <;> by_cases hkey : entry.key = key <;>
        simp [hkey, hcandidate, hbound, hc, hrest]

/-- For each key the scan selects the newest candidate of the view within its
bound, unless it is expired. -/
theorem select_scanEntries (view : BranchReadView) (hbranch : scan.branchId = view.branchId)
    (read : BranchReadBound) (afterVersion : Option CommitVersion) (limit : Option Nat)
    (timestamp : Option Timestamp) (key : Bytes) :
    (ScanRequest.mk (scanBound read afterVersion) limit timestamp).select
        (view.scanEntries scan read afterVersion) key =
      (((view.candidates.filter (InScan scan (scanBound read afterVersion))).filter
        fun c => c.row.physicalKeyBytes = key).argmax (·.row.commitVersion)).filter
          fun c => !rowIsExpiredAt c.row read.readTimestamp := by
  have hgroup := filter_groupCandidates (keyed_scanEntries view scan read afterVersion)
    (scanBound read afterVersion) key
  rw [matched_scanEntries view hbranch] at hgroup
  rw [ScanRequest.select, selectVisibleRowOrTombstone_eq, hgroup]
  · rfl
  · rw [hgroup]
    exact ((sourceOrdered_candidates view).filter _).filter _

/-- Without a watermark this is what a point read of the key finds. -/
theorem select_eq_visibleCandidate (view : BranchReadView) (hbranch : scan.branchId = view.branchId)
    (read : BranchReadBound) (limit : Option Nat) (timestamp : Option Timestamp) {key : PhysicalKey}
    (hkey : scan.Contains key) :
    (ScanRequest.mk (scanBound read none) limit timestamp).select
        (view.scanEntries scan read none) (encodePhysicalKey key) =
      view.visibleCandidate key read := by
  rw [select_scanEntries view hbranch, BranchReadView.visibleCandidate, newestCandidate,
    candidatesWithin, filter_filter]
  congr 2
  refine filter_congr fun c _ => ?_
  rw [Bool.eq_iff_iff, Bool.and_eq_true, InScan, Bool.and_eq_true, decide_eq_true_eq,
    decide_eq_true_eq, satisfies_iff, matchesRow_scanBound, StorageRow.physicalKeyBytes,
    encodePhysicalKey_injective.eq_iff, ← matchesRow_eq (forOwnBranch_minCommitVersion _)]
  constructor
  · rintro ⟨heq, -, hmatches⟩
    exact ⟨heq, by simpa using hmatches⟩
  · rintro ⟨heq, hmatches⟩
    exact ⟨heq, heq ▸ hkey, by simpa using hmatches⟩

/-! ## The limit -/

/-- The shortest initial part with `n` elements that count, or the whole list if
there are fewer. -/
structure ShortestWith {α : Type} (counts : α → Bool) (n : ℕ) (l result : List α) : Prop where
  isPrefix : result <+: l
  count_eq : n ≤ l.countP counts → result.countP counts = n
  length_le : ∀ other, other <+: l → n ≤ other.countP counts → result.length ≤ other.length
  eq_of_lt : l.countP counts < n → result = l

theorem ShortestWith.cons {counts : α → Bool} {a : α} {result : List α}
    (h : ShortestWith counts n l result) (hpos : 0 < n) :
    ShortestWith counts (if counts a then n + 1 else n) (a :: l) (a :: result) := by
  refine ⟨cons_prefix_cons.mpr ⟨rfl, h.isPrefix⟩, fun hle => ?_, fun other hother hle => ?_, fun hlt => ?_⟩
  · rw [countP_cons] at hle ⊢
    cases ha : counts a
    · simp only [ha] at hle
      simpa using h.count_eq (by simpa using hle)
    · simp only [ha, if_true] at hle ⊢
      rw [h.count_eq (by omega)]
  · cases other with
    | nil =>
      simp only [countP_nil] at hle
      split at hle <;> omega
    | cons b other =>
      obtain ⟨rfl, htail⟩ := cons_prefix_cons.mp hother
      rw [countP_cons] at hle
      rw [length_cons, length_cons]
      refine Nat.succ_le_succ (h.length_le other htail ?_)
      split at hle <;> simp_all
  · rw [countP_cons] at hlt
    rw [h.eq_of_lt]
    split at hlt <;> simp_all

theorem ScanRequest.shortestWith_takeVisible (request : ScanRequest) (hlimit : request.visibleLimit = some n)
    {visible : ℕ} (hvisible : visible < n) (rows : List CandidateRow) :
    ShortestWith request.counts (n - visible) rows (request.takeVisible visible rows) := by
  induction rows generalizing visible with
  | nil => exact ⟨prefix_rfl, fun h => by simp at h; omega, fun _ _ _ => Nat.zero_le _, fun _ => rfl⟩
  | cons row rows ih =>
    rw [takeVisible, hlimit]
    cases hcounts : request.counts row with
    | false =>
      have := (ih hvisible).cons (a := row) (by omega)
      simpa [hcounts] using this
    | true =>
      by_cases hlast : n ≤ visible + 1
      · have hone : n - visible = 1 := by omega
        rw [hone]
        simp only [if_true, Option.any_some, hlast, decide_true]
        refine ⟨cons_prefix_cons.mpr ⟨rfl, nil_prefix⟩, fun _ => by simp [hcounts],
          fun other _ hle => ?_, fun hlt => ?_⟩
        · exact hle.trans (countP_le_length)
        · rw [countP_cons_of_pos hcounts] at hlt
          omega
      · have hnext : visible + 1 < n := by omega
        have := (ih hnext).cons (a := row) (by omega)
        rw [hcounts, if_pos rfl, show n - (visible + 1) + 1 = n - visible by omega] at this
        simpa [hlast] using this

theorem ScanRequest.takeVisible_of_none (request : ScanRequest)
    (hlimit : request.visibleLimit = none) (visible : ℕ) (rows : List CandidateRow) :
    request.takeVisible visible rows = rows := by
  induction rows generalizing visible with
  | nil => rfl
  | cons row rows ih =>
    rw [takeVisible, hlimit]
    simp [ih]

/-! ## Scans and point reads -/

theorem KeysOf.unique {keys keys' : List Bytes} (h : KeysOf keys entries)
    (h' : KeysOf keys' entries) : keys = keys' :=
  h.sorted.eq_of_mem_iff h'.sorted fun key => by rw [h.mem_iff, h'.mem_iff]

/-- Every entry of a scan is a row in bounds. -/
theorem contains_of_mem_matched (view : BranchReadView) (hbranch : scan.branchId = view.branchId)
    (read : BranchReadBound) (h : c ∈ view.candidates.filter (InScan scan (scanBound read none))) :
    ∃ entry ∈ view.scanEntries scan read none, entry.key = c.row.physicalKeyBytes := by
  rw [← matched_scanEntries view hbranch, matched, mem_filter, mem_filterMap] at h
  obtain ⟨⟨entry, hentry, hc⟩, -⟩ := h
  exact ⟨entry, hentry, (keyed_scanEntries view scan read none entry hentry c hc).symm⟩

namespace BranchReadView

/-- The rows of a scan: what point reads of the keys in bounds find, in the
order of the keys. -/
structure PointReads (view : BranchReadView) (scan : BranchScanBounds) (read : BranchReadBound)
    (rows : List CandidateRow) : Prop where
  sorted : rows.Pairwise fun a b => a.row.physicalKeyBytes < b.row.physicalKeyBytes
  mem_iff : ∀ c, c ∈ rows ↔ scan.Contains c.row.physicalKey ∧ view.visibleCandidate c.row.physicalKey read = some c

variable {read : BranchReadBound} {view : BranchReadView}

/-- The key of what a point read finds. -/
theorem physicalKey_visibleCandidate {key : PhysicalKey} (h : view.visibleCandidate key read = some c) :
    c ∈ view.candidates ∧ c.row.physicalKey = key ∧ (forOwnBranch read).matchesRow c.row = true := by
  have hnewest := (Option.filter_eq_some_iff.mp h).1
  have hmem := mem_filter.mp (argmax_mem hnewest)
  rw [satisfies_iff, ← matchesRow_eq (forOwnBranch_minCommitVersion _)] at hmem
  exact hmem

variable {scan : BranchScanBounds}

/-- The selections of a scan's keys are the point reads. -/
theorem pointReads_select (view : BranchReadView) (hbranch : scan.branchId = view.branchId)
    (read : BranchReadBound) {keys : List Bytes} (hkeys : KeysOf keys (view.scanEntries scan read none))
    (limit : Option Nat) (timestamp : Option Timestamp) :
    view.PointReads scan read (keys.filterMap ((ScanRequest.mk (scanBound read none) limit timestamp).select
        (view.scanEntries scan read none))) := by
  have hselected : ∀ key c, (ScanRequest.mk (scanBound read none) limit timestamp).select
      (view.scanEntries scan read none) key = some c →
        scan.Contains c.row.physicalKey ∧ c.row.physicalKeyBytes = key := by
    intro key c hc
    rw [select_scanEntries view hbranch] at hc
    have hmem := argmax_mem (Option.filter_eq_some_iff.mp hc).1
    rw [mem_filter, mem_filter, InScan, Bool.and_eq_true, decide_eq_true_eq, decide_eq_true_eq] at hmem
    exact ⟨hmem.1.2.1, hmem.2⟩
  refine ⟨?_, fun c => ?_⟩
  · rw [pairwise_filterMap]
    refine hkeys.sorted.imp fun {key key'} hlt c hc c' hc' => ?_
    rw [(hselected key c hc).2, (hselected key' c' hc').2]
    exact hlt
  · rw [mem_filterMap]
    constructor
    · rintro ⟨key, -, hc⟩
      obtain ⟨hcontains, rfl⟩ := hselected key c hc
      exact ⟨hcontains, (select_eq_visibleCandidate view hbranch read limit timestamp hcontains).symm.trans hc⟩
    · rintro ⟨hcontains, hc⟩
      refine ⟨c.row.physicalKeyBytes, ?_, ?_⟩
      · obtain ⟨hmem, -, hmatches⟩ := physicalKey_visibleCandidate hc
        refine (hkeys.mem_iff _).mpr (contains_of_mem_matched view hbranch read ?_)
        rw [mem_filter, InScan, matchesRow_scanBound, hmatches]
        exact ⟨hmem, by simpa using hcontains⟩
      · rw [← hc]
        exact select_eq_visibleCandidate view hbranch read limit timestamp hcontains

/-- A point read of a key in bounds finds the row of the scan with that key. -/
theorem PointReads.find?_eq {rows : List CandidateRow} (h : view.PointReads scan read rows)
    {key : PhysicalKey} (hkey : scan.Contains key) :
    rows.find? (fun c => c.row.physicalKey = key) = view.visibleCandidate key read := by
  cases hfound : rows.find? fun c => c.row.physicalKey = key with
  | some c =>
    have hc : c.row.physicalKey = key := by simpa using find?_some hfound
    rw [← hc]
    exact ((h.mem_iff c).mp (mem_of_find?_eq_some hfound)).2.symm
  | none =>
    cases hread : view.visibleCandidate key read with
    | none => rfl
    | some c =>
      obtain ⟨-, rfl, -⟩ := physicalKey_visibleCandidate hread
      have hmem : c ∈ rows := (h.mem_iff c).mpr ⟨hkey, hread⟩
      simpa using find?_eq_none.mp hfound c hmem

/-- The scan of all sources, with any limit. -/
theorem scanFromSources_eq (view : BranchReadView)
    (hbranch : scan.branchId = view.branchId) (read : BranchReadBound) :
    ∃ rows, view.PointReads scan read rows ∧ ∀ limit timestamp,
      scanIncludingTombstonesFromSources view.branchId view.active view.frozen view.layout.levels
        view.inheritedLayers scan read none limit timestamp =
      .ok (if limit = some 0 then []
        else (ScanRequest.mk (scanBound read none) limit timestamp).takeVisible 0 rows) := by
  obtain ⟨cursors, hcursors, sought, lists, hseek, hyields, hsorted, hflatten, hlen⟩ :=
    scanCursorsForSources_opens view scan read none
  have hruns := fun request => scanSources_spec request hyields hsorted (hflatten ▸ hlen)
  rw [hflatten] at hruns
  obtain ⟨keys, hkeys, -⟩ := hruns ⟨scanBound read none, none, none⟩
  refine ⟨_, view.pointReads_select hbranch read hkeys none none, fun limit timestamp => ?_⟩
  unfold scanIncludingTombstonesFromSources
  split
  · rfl
  · obtain ⟨keys', hkeys', hrun⟩ := hruns ⟨scanBound read none, limit, timestamp⟩
    obtain rfl := hkeys.unique hkeys'
    rw [hcursors, ok_bind, hseek, ok_bind]
    exact hrun

/-- A scan returns, in strictly ascending order of the physical keys, what
`read_point_or_tombstone` finds for each key in bounds, whether it merges one
source or several; `scan` leaves out the tombstones. With a limit of `n` visible
rows it returns the shortest initial part that holds `n` of them. A timestamp
the view's history does not reach back to is refused by both. -/
theorem scan_eq_pointReads (view : BranchReadView) (bounds : BranchScanBounds)
    (hbranch : bounds.branchId = view.branchId) (bound : BranchReadBound) :
    ∃ rows : List BranchRow, rows.Pairwise (fun a b => a.row.physicalKeyBytes < b.row.physicalKeyBytes) ∧
      (∀ row ∈ rows, bounds.Contains row.row.physicalKey) ∧
      (∀ key, bounds.Contains key → view.readPointOrTombstone key bound =
        (view.requireTimestampCoverage bound).map fun _ => rows.find? fun row => row.row.physicalKey = key) ∧
      view.scanIncludingTombstones bounds bound none = (view.requireTimestampCoverage bound).map (fun _ => rows) ∧
      view.scan bounds bound = (view.requireTimestampCoverage bound).map (fun _ => rows.filter fun row =>
          !row.row.isTombstone && !rowIsExpiredAt row.row bound.readTimestamp) ∧
      ∀ n timestamp, ∃ result, view.scanIncludingTombstonesVisible bounds bound (some n) timestamp =
          (view.requireTimestampCoverage bound).map (fun _ => result) ∧
        ShortestWith (fun row : BranchRow =>
          !row.row.isTombstone && !rowIsExpiredAt row.row timestamp) n rows result := by
  obtain ⟨rows, hrows, hscan⟩ := view.scanFromSources_eq hbranch bound
  have hall : ∀ timestamp, scanIncludingTombstonesFromSources view.branchId view.active view.frozen
      view.layout.levels view.inheritedLayers bounds bound none none timestamp = .ok rows := by
    intro timestamp
    rw [hscan, if_neg (by simp), ScanRequest.takeVisible_of_none _ rfl]
  refine ⟨rows, hrows.sorted, fun row hrow => ((hrows.mem_iff row).mp hrow).1, fun key hkey => ?_,
    ?_, ?_, fun n timestamp => ?_⟩
  · have hbranchKey : key.branchId = view.branchId := hkey.1.trans hbranch
    rw [view.readPointOrTombstone_eq hbranchKey, hrows.find?_eq hkey]
  · rw [scanIncludingTombstones, requireMatchingBranch, if_pos hbranch, hall]
    cases view.requireTimestampCoverage bound <;> rfl
  · rw [scan, requireMatchingBranch, if_pos hbranch]
    dsimp only
    rw [hall]
    cases view.requireTimestampCoverage bound <;> rfl
  · rw [scanIncludingTombstonesVisible, requireMatchingBranch, if_pos hbranch, hscan]
    refine ⟨_, by cases view.requireTimestampCoverage bound <;> rfl, ?_⟩
    split_ifs with hzero
    · obtain rfl : n = 0 := by simpa using hzero
      exact ⟨List.nil_prefix, fun _ => rfl, fun _ _ _ => Nat.zero_le _, fun h => absurd h (Nat.not_lt_zero _)⟩
    · exact ScanRequest.shortestWith_takeVisible ⟨scanBound bound none, some n, timestamp⟩ rfl
        (Nat.pos_of_ne_zero fun h => hzero (congrArg some h)) rows

end BranchReadView

namespace Sample

/-- The keys from `1` up to `5`, `5` left out. -/
def firstFour : BranchScanBounds :=
  ⟨branch, "s", ⟨1, one_ne_zero⟩, none, .included [1], .excluded [5], scanSpace_valid, rfl⟩

/-- The scan merges memory, a table and a layer. -/
theorem scan_view : ∃ rows, view.scanIncludingTombstones firstFour .latest none = .ok rows ∧
    (∀ row ∈ rows, firstFour.Contains row.row.physicalKey) ∧
    ([1, 2, 3, 4].map fun userKey => rows.find? fun row => row.row.physicalKey = cellKey branch userKey) =
      [some ⟨cell branch 1 5, .active⟩, some ⟨.tombstone (cellKey branch 2) 4 40, .frozen 0⟩,
        some ⟨cell branch 3 1, .ownedTable 1 0⟩, some ⟨cell branch 4 2, .inherited parent 0⟩] := by
  obtain ⟨rows, -, hbounds, hread, hscan, -⟩ := view.scan_eq_pointReads firstFour rfl .latest
  refine ⟨rows, hscan, hbounds, ?_⟩
  have hfind : ∀ userKey, firstFour.Contains (cellKey branch userKey) →
      rows.find? (fun row => row.row.physicalKey = cellKey branch userKey) =
        view.visibleCandidate (cellKey branch userKey) .latest := by
    intro userKey hkey
    have hpoint := hread (cellKey branch userKey) hkey
    rw [view.readPointOrTombstone_eq rfl] at hpoint
    exact (Except.ok.inj hpoint).symm
  simp only [List.map_cons, List.map_nil, hfind 1 (by decide), hfind 2 (by decide), hfind 3 (by decide),
    hfind 4 (by decide)]
  decide +kernel

end Sample

end Strata
