import StrataStorage.Lib.Cursor
import StrataStorage.Table.Bounds
import StrataStorage.Table.Mutable
import StrataStorage.Table.Reader

/-!
# Table cursors

`table/cursor.rs` and the cursors of `table/reader.rs`. A cursor position is
modelled by the rows from it on. A lazy cursor opens one data block at a time
and, when it is given bounds, stops before a block that begins past them; what
it leaves out is out of bounds (`filter_rest_seek`, `filter_rest_seekToFirst`).

* `BoundedTableCursor.rest_seekToFirst`: a bounded cursor yields the rows of
  its table that are in bounds, in key order.
-/

namespace Strata

open List

variable {boundsHint : Option TableKeyBounds} {blocks : List (List StorageRow)}
  {bounds : TableKeyBounds} (table : MutableTable) (entries : List TableMemoryEntry)

/-- The entries at or after a key, in sorted entries. -/
theorem dropWhile_eq_filter_of_sorted {α : Type} {key : α → Bytes} {entries : List α}
    (h : entries.Pairwise fun a b => key a < key b) (target : Bytes) :
    entries.dropWhile (fun a => key a < target) = entries.filter fun a => !decide (key a < target) := by
  induction entries with
  | nil => rfl
  | cons a entries ih =>
    obtain ⟨hafter, h⟩ := pairwise_cons.mp h
    by_cases ha : key a < target
    · rw [dropWhile_cons_of_pos (by simpa using ha), ih h, filter_cons_of_neg (by simpa using ha)]
    · rw [dropWhile_cons_of_neg (by simpa using ha), eq_comm, filter_eq_self]
      intro b hb
      rcases mem_cons.mp hb with rfl | hb
      · simpa using ha
      · simpa using (not_lt.mp ha).trans (hafter b hb).le

/-! ## Memory tables -/

/-- `find` over a range of the map: the range from the entry found on. -/
def MutableTable.firstVisible : List TableMemoryEntry :=
  entries.dropWhile fun entry => !entryVisible entry table.sequenceUpperBound

theorem MutableTable.firstVisible_head : ∀ entry ∈ (table.firstVisible entries).head?,
      entryVisible entry table.sequenceUpperBound = true := by
  intro entry h
  have := head?_dropWhile_not (fun e => !entryVisible e table.sequenceUpperBound) entries
  rw [show (entries.dropWhile _).head? = some entry from h] at this
  simpa using this

theorem MutableTable.filter_firstVisible :
    (table.firstVisible entries).filter (entryVisible · table.sequenceUpperBound) =
      entries.filter (entryVisible · table.sequenceUpperBound) := by
  induction entries with
  | nil => rfl
  | cons entry entries ih =>
    rw [firstVisible] at ih ⊢
    cases h : entryVisible entry table.sequenceUpperBound with
    | false =>
      rw [dropWhile_cons_of_pos (by simp [h]), ih, filter_cons_of_neg (by simp [h])]
    | true => rw [dropWhile_cons_of_neg (by simp [h])]

/-- `MemoryTableCursor` over a map: the entries from the position on, the
first of them visible. -/
structure MemoryTableCursor where
  table : MutableTable
  position : List TableMemoryEntry
  position_suffix : position <:+ table.data.rows
  head_visible : ∀ entry ∈ position.head?, entryVisible entry table.sequenceUpperBound = true

namespace MemoryTableCursor

/-- `MemoryTableCursor::from_mutable` and `from_frozen`. -/
def fromMutable : MemoryTableCursor where
  table
  position := []
  position_suffix := List.nil_suffix
  head_visible := by simp

def seekToFirst (cursor : MemoryTableCursor) : MemoryTableCursor where
  table := cursor.table
  position := cursor.table.firstVisible cursor.table.data.rows
  position_suffix := List.dropWhile_suffix _
  head_visible := cursor.table.firstVisible_head _

def seek (cursor : MemoryTableCursor) (target : Bytes) : MemoryTableCursor where
  table := cursor.table
  position := cursor.table.firstVisible (cursor.table.data.rows.dropWhile (·.row.key < target))
  position_suffix := (List.dropWhile_suffix _).trans (List.dropWhile_suffix _)
  head_visible := cursor.table.firstVisible_head _

def advance (cursor : MemoryTableCursor) : MemoryTableCursor where
  table := cursor.table
  position := cursor.table.firstVisible cursor.position.tail
  position_suffix := (List.dropWhile_suffix _).trans ((List.tail_suffix _).trans cursor.position_suffix)
  head_visible := cursor.table.firstVisible_head _

/-- The visible rows from the position on. -/
def rest (cursor : MemoryTableCursor) : List StorageRow :=
  (cursor.position.filter (entryVisible · cursor.table.sequenceUpperBound)).map (·.row)

instance : Cursor MemoryTableCursor StorageRow where
  current cursor := cursor.position.head?.map (·.row)
  advance := advance
  rest := rest
  current_eq cursor := by
    have hvisible := cursor.head_visible
    rw [rest]
    cases h : cursor.position with
    | nil => rfl
    | cons entry entries =>
      have hentry := hvisible entry (by rw [h]; rfl)
      simp [hentry]
  rest_advance cursor := by
    have hvisible := cursor.head_visible
    show ((cursor.table.firstVisible cursor.position.tail).filter
      (entryVisible · cursor.table.sequenceUpperBound)).map (·.row) = _
    rw [MutableTable.filter_firstVisible, rest]
    cases h : cursor.position with
    | nil => rfl
    | cons entry entries =>
      have hentry := hvisible entry (by rw [h]; rfl)
      simp [hentry]

variable (cursor : MemoryTableCursor)

theorem rest_sorted : SortedRows cursor.rest :=
  pairwise_map.mpr ((cursor.table.data.rows_sorted.sublist cursor.position_suffix.sublist).filter _)

theorem rest_seekToFirst : cursor.seekToFirst.rest = cursor.table.visibleRows :=
  congrArg _ (cursor.table.filter_firstVisible cursor.table.data.rows)

theorem rest_seek (target : Bytes) :
    (cursor.seek target).rest = cursor.table.visibleRows.dropWhile (·.key < target) := by
  have hrest : (cursor.seek target).rest = ((cursor.table.data.rows.dropWhile (·.row.key < target)).filter
        (entryVisible · cursor.table.sequenceUpperBound)).map (·.row) :=
    congrArg _ (cursor.table.filter_firstVisible _)
  rw [hrest, dropWhile_eq_filter_of_sorted cursor.table.data.rows_sorted,
    dropWhile_eq_filter_of_sorted cursor.table.visibleRows_sorted, MutableTable.visibleRows,
    filter_map, filter_filter, filter_filter]
  congr 1
  exact filter_congr fun entry _ => Bool.and_comm _ _

end MemoryTableCursor

/-! ## Immutable tables -/

def entryIsPastUpperBound (boundsHint : Option TableKeyBounds) (block : List StorageRow) : Bool :=
  boundsHint.any (·.isPastUpperBound (indexEntry block).firstKey)

/-- `position_at_block`: the rows of the block it stops in, from the row sought
on, and the blocks behind it. -/
def positionAtBlock (boundsHint : Option TableKeyBounds) (target : Option Bytes) :
    List (List StorageRow) → List StorageRow × List (List StorageRow)
  | [] => ([], [])
  | block :: blocks =>
    if entryIsPastUpperBound boundsHint block then ([], [])
    else match block.drop (target.elim 0 (binarySearchRows block)) with
      | [] => positionAtBlock boundsHint target blocks
      | row :: rows => (row :: rows, blocks)

/-- The rows a position has left: those of its block, and those of the blocks
behind it that do not begin past the bounds. -/
def blocksRest (boundsHint : Option TableKeyBounds) (blocks : List (List StorageRow)) : List StorageRow :=
  (blocks.takeWhile (!entryIsPastUpperBound boundsHint ·)).flatten

theorem blocksRest_isPrefix (boundsHint : Option TableKeyBounds) (blocks : List (List StorageRow)) :
    blocksRest boundsHint blocks <+: blocks.flatten := by
  obtain ⟨later, h⟩ := takeWhile_prefix (l := blocks) (!entryIsPastUpperBound boundsHint ·)
  exact ⟨later.flatten, by rw [blocksRest, ← flatten_append, h]⟩

/-- Without a target, a position has all the rows left that the blocks have. -/
theorem positionAtBlock_none (hne : ∀ block ∈ blocks, block ≠ []) : (positionAtBlock boundsHint none blocks).1 ++
        blocksRest boundsHint (positionAtBlock boundsHint none blocks).2 =
      blocksRest boundsHint blocks := by
  cases blocks with
  | nil => rfl
  | cons block blocks =>
    obtain ⟨row, rows, rfl⟩ := exists_cons_of_ne_nil (hne block mem_cons_self)
    rw [positionAtBlock]
    cases h : entryIsPastUpperBound boundsHint (row :: rows) with
    | true => simp [blocksRest, h]
    | false => simp [blocksRest, h]

/-- With a target, those at or after it. -/
theorem positionAtBlock_some {target : Bytes} (hsorted : SortedRows blocks.flatten) :
    (positionAtBlock boundsHint (some target) blocks).1 ++
        blocksRest boundsHint (positionAtBlock boundsHint (some target) blocks).2 =
      (blocksRest boundsHint blocks).filter fun row => !decide (row.key < target) := by
  induction blocks with
  | nil => rfl
  | cons block blocks ih =>
    rw [flatten_cons] at hsorted
    obtain ⟨hblock, hlater, hcross⟩ := pairwise_append.mp hsorted
    rw [positionAtBlock]
    cases h : entryIsPastUpperBound boundsHint block with
    | true => simp [blocksRest, h]
    | false =>
      have hrest : blocksRest boundsHint (block :: blocks) =
          block ++ blocksRest boundsHint blocks := by simp [blocksRest, h]
      have hdrop : block.drop (binarySearchRows block target) =
          block.filter fun row => !decide (row.key < target) := by
        rw [drop_binarySearchRows, dropWhile_eq_filter_of_sorted hblock]
      rw [hrest, filter_append, ← hdrop]
      simp only [Bool.false_eq_true, ↓reduceIte, Option.elim_some]
      cases hrows : block.drop (binarySearchRows block target) with
      | nil => exact ih hlater
      | cons first rows =>
        -- a row of the block is at or after the target, and every later row behind it
        rw [append_cancel_left_eq, eq_comm, filter_eq_self]
        intro row hrow
        have hfirst : first ∈ block.filter fun row => !decide (row.key < target) := by
          rw [← hdrop, hrows]; exact mem_cons_self
        rw [mem_filter] at hfirst
        have hle := hcross first hfirst.1 row ((blocksRest_isPrefix _ _).subset hrow)
        simp only [Bool.not_eq_true', decide_eq_false_iff_not, not_lt] at hfirst ⊢
        exact hfirst.2.trans hle.le

/-- What a cursor with bounds leaves out is out of bounds. -/
theorem filter_blocksRest (hhint : ∀ hint ∈ boundsHint, hint = bounds)
    (hne : ∀ block ∈ blocks, block ≠ []) (hsorted : SortedRows blocks.flatten) :
    (blocksRest boundsHint blocks).filter (bounds.containsKey ·.key) =
      blocks.flatten.filter (bounds.containsKey ·.key) := by
  induction blocks with
  | nil => rfl
  | cons block blocks ih =>
    rw [flatten_cons] at hsorted ⊢
    obtain ⟨hblock, hlater, hcross⟩ := pairwise_append.mp hsorted
    cases h : entryIsPastUpperBound boundsHint block with
    | false =>
      have hrest : blocksRest boundsHint (block :: blocks) =
          block ++ blocksRest boundsHint blocks := by simp [blocksRest, h]
      rw [hrest, filter_append, filter_append, ih (fun b hb => hne b (mem_cons_of_mem _ hb)) hlater]
    | true =>
      have hrest : blocksRest boundsHint (block :: blocks) = [] := by simp [blocksRest, h]
      rw [hrest, filter_nil, eq_comm, filter_eq_nil_iff]
      obtain ⟨first, rows, rfl⟩ := exists_cons_of_ne_nil (hne block mem_cons_self)
      cases boundsHint with
      | none => cases h
      | some hint =>
        obtain rfl := hhint hint rfl
        intro row hrow
        rw [hint.containsKey_eq_false_of_past (a := first) h]
        · exact Bool.false_ne_true
        · exact SortedRows.head_le_key hsorted rfl hrow

/-- A position lies in the blocks it was sought in. -/
theorem positionAtBlock_suffix (boundsHint : Option TableKeyBounds) (target : Option Bytes)
    (blocks : List (List StorageRow)) :
    (positionAtBlock boundsHint target blocks).1 ++
        (positionAtBlock boundsHint target blocks).2.flatten <:+ blocks.flatten ∧
      (∀ block ∈ (positionAtBlock boundsHint target blocks).2, block ∈ blocks) ∧
      ((positionAtBlock boundsHint target blocks).1 = [] → (positionAtBlock boundsHint target blocks).2 = []) := by
  induction blocks with
  | nil => simp [positionAtBlock]
  | cons block blocks ih =>
    rw [positionAtBlock]
    split
    · simp
    · split
      · exact ⟨ih.1.trans (suffix_append _ _), fun b hb => mem_cons_of_mem _ (ih.2.1 b hb), ih.2.2⟩
      · rename_i row rows hrows
        refine ⟨?_, fun b hb => mem_cons_of_mem _ hb, by simp⟩
        rw [flatten_cons, ← hrows]
        exact ⟨block.take (target.elim 0 (binarySearchRows block)), by
          rw [← append_assoc, take_append_drop]⟩

theorem flatten_drop_suffix (i : Nat) (blocks : List (List StorageRow)) :
    (blocks.drop i).flatten <:+ blocks.flatten :=
  ⟨(blocks.take i).flatten, by rw [← flatten_append, take_append_drop]⟩

/-- `ImmutableTableCursor`: the rows of the open block from the position on (of
the whole table when it is eager), and the blocks behind it. -/
structure ImmutableTableCursor where
  reader : ImmutableTableReader
  boundsHint : Option TableKeyBounds
  blockRows : List StorageRow
  laterBlocks : List (List StorageRow)
  rest_suffix : blockRows ++ laterBlocks.flatten <:+ reader.rows
  later_subset : ∀ block ∈ laterBlocks, block ∈ reader.blocks
  later_nil : blockRows = [] → laterBlocks = []

namespace ImmutableTableCursor

/-- `ImmutableTableReader::cursor`, before it is positioned. -/
def new (reader : ImmutableTableReader) (boundsHint : Option TableKeyBounds) : ImmutableTableCursor where
  reader
  boundsHint
  blockRows := []
  laterBlocks := []
  rest_suffix := List.nil_suffix
  later_subset := by simp
  later_nil _ := rfl

/-- A lazy cursor moved to a position in some of its blocks. -/
def moveTo (cursor : ImmutableTableCursor) (target : Option Bytes) (blocks : List (List StorageRow))
    (hsuffix : blocks.flatten <:+ cursor.reader.rows)
    (hsubset : ∀ block ∈ blocks, block ∈ cursor.reader.blocks) : ImmutableTableCursor where
  reader := cursor.reader
  boundsHint := cursor.boundsHint
  blockRows := (positionAtBlock cursor.boundsHint target blocks).1
  laterBlocks := (positionAtBlock cursor.boundsHint target blocks).2
  rest_suffix := (positionAtBlock_suffix cursor.boundsHint target blocks).1.trans hsuffix
  later_subset block h := hsubset block ((positionAtBlock_suffix cursor.boundsHint target blocks).2.1 block h)
  later_nil := (positionAtBlock_suffix cursor.boundsHint target blocks).2.2

def seek (cursor : ImmutableTableCursor) (target : Bytes) : ImmutableTableCursor :=
  match cursor.reader.mode with
  | .eager =>
    { cursor with
      blockRows := cursor.reader.rows.drop (binarySearchRows cursor.reader.rows target)
      laterBlocks := []
      rest_suffix := by simpa using List.drop_suffix _ _
      later_subset := by simp
      later_nil := fun _ => rfl }
  | .lazy _ =>
    match firstCandidateBlockForKey (cursor.reader.blocks.map indexEntry) target with
    | none => new cursor.reader cursor.boundsHint
    | some blockIndex =>
      cursor.moveTo (some target) (cursor.reader.blocks.drop blockIndex)
        (flatten_drop_suffix _ _) fun _ => List.mem_of_mem_drop

/-- `seek_to_first`: with bounds, a lazy cursor seeks their lower end. -/
def seekToFirst (cursor : ImmutableTableCursor) : ImmutableTableCursor :=
  match cursor.reader.mode with
  | .eager =>
    { cursor with
      blockRows := cursor.reader.rows
      laterBlocks := []
      rest_suffix := by simp
      later_subset := by simp
      later_nil := fun _ => rfl }
  | .lazy _ =>
    match cursor.boundsHint.bind (·.lowerSeekKey) with
    | some lower => cursor.seek lower
    | none => cursor.moveTo none cursor.reader.blocks List.suffix_rfl fun _ h => h

/-- `advance`. The block of an eager cursor is the whole table, so that it has
no block to go on to. -/
def advance (cursor : ImmutableTableCursor) : ImmutableTableCursor :=
  match h : cursor.blockRows with
  | [] => cursor
  | [_] => cursor.moveTo none cursor.laterBlocks
      ((List.suffix_append _ _).trans cursor.rest_suffix) cursor.later_subset
  | _ :: row :: rows =>
    { cursor with
      blockRows := row :: rows
      rest_suffix := by
        have := cursor.rest_suffix
        rw [h] at this
        exact (List.suffix_cons _ _).trans this
      later_nil := by simp }

/-- The rows the cursor has left. -/
def rest (cursor : ImmutableTableCursor) : List StorageRow :=
  cursor.blockRows ++ blocksRest cursor.boundsHint cursor.laterBlocks

instance : Cursor ImmutableTableCursor StorageRow where
  current cursor := cursor.blockRows.head?
  advance := advance
  rest := rest
  current_eq cursor := by
    rw [rest]
    cases h : cursor.blockRows with
    | nil => rw [cursor.later_nil h]; rfl
    | cons row rows => rfl
  rest_advance cursor := by
    unfold advance
    split
    · rename_i h
      rw [rest, h, cursor.later_nil h]
      rfl
    · rename_i row h
      have hne : ∀ block ∈ cursor.laterBlocks, block ≠ [] := fun block hblock =>
        cursor.reader.blocks_ne_nil block (cursor.later_subset block hblock)
      rw [rest, rest, h, List.singleton_append, List.tail_cons]
      exact positionAtBlock_none hne
    · rename_i row next rows h
      show (next :: rows) ++ blocksRest cursor.boundsHint cursor.laterBlocks = (cursor.blockRows ++ _).tail
      rw [h]
      rfl

variable (cursor : ImmutableTableCursor)

theorem rest_sorted : SortedRows cursor.rest := by
  obtain ⟨later, hlater⟩ := blocksRest_isPrefix cursor.boundsHint cursor.laterBlocks
  refine cursor.reader.rows_sorted.sublist (List.Sublist.trans ?_ cursor.rest_suffix.sublist)
  rw [rest, ← hlater]
  exact (sublist_append_left _ _).append_left _

/-- The rows in bounds a cursor has left after a seek: those of its table at or
after the target. -/
theorem filter_rest_seek (target : Bytes) (hhint : ∀ hint ∈ cursor.boundsHint, hint = bounds) :
    (cursor.seek target).rest.filter (bounds.containsKey ·.key) =
      (cursor.reader.rows.filter fun row => !decide (row.key < target)).filter (bounds.containsKey ·.key) := by
  unfold seek
  split
  · rw [rest]
    show (cursor.reader.rows.drop _ ++ []).filter _ = _
    have hsorted : SortedRows cursor.reader.rows := cursor.reader.rows_sorted
    rw [append_nil, drop_binarySearchRows, dropWhile_eq_filter_of_sorted hsorted]
  set index := ((cursor.reader.blocks.map indexEntry).takeWhile (·.lastKey < target)).length with hindex
  have hsplit : cursor.reader.rows.filter (fun row => !decide (row.key < target)) =
      (cursor.reader.blocks.drop index).flatten.filter fun row => !decide (row.key < target) := by
    have hbefore : (cursor.reader.blocks.take index).flatten.filter (fun row => !decide (row.key < target)) = [] :=
      filter_eq_nil_iff.mpr fun row hrow => by
        simp [cursor.reader.key_lt_of_before_candidate hrow]
    rw [ImmutableTableReader.rows, ← take_append_drop index cursor.reader.blocks,
      flatten_append, filter_append, hbefore, nil_append, take_append_drop]
  have hsorted : SortedRows (cursor.reader.blocks.drop index).flatten :=
    cursor.reader.rows_sorted.sublist (flatten_drop_suffix _ _).sublist
  rw [hsplit, firstCandidateBlockForKey, ← hindex]
  split
  · rename_i hnone
    have hlen : cursor.reader.blocks.length ≤ index := by simpa using hnone
    rw [drop_of_length_le hlen]
    rfl
  · rename_i blockIndex hsome
    obtain ⟨-, rfl⟩ : index < cursor.reader.blocks.length ∧ index = blockIndex := by
      simpa using hsome
    have hrest : (cursor.moveTo (some target) (cursor.reader.blocks.drop index)
        (flatten_drop_suffix _ _) fun _ => mem_of_mem_drop).rest =
        (blocksRest cursor.boundsHint (cursor.reader.blocks.drop index)).filter
          fun row => !decide (row.key < target) := positionAtBlock_some hsorted
    rw [hrest, filter_comm, filter_blocksRest hhint (fun b hb => cursor.reader.blocks_ne_nil b
      (mem_of_mem_drop hb)) hsorted, filter_comm]

/-- From its first row a cursor has all the rows of its table left that are in
bounds. -/
theorem filter_rest_seekToFirst (hhint : ∀ hint ∈ cursor.boundsHint, hint = bounds) :
    cursor.seekToFirst.rest.filter (bounds.containsKey ·.key) =
      cursor.reader.rows.filter (bounds.containsKey ·.key) := by
  unfold seekToFirst
  split
  · show (cursor.reader.rows ++ []).filter _ = _
    rw [append_nil]
  split
  · rename_i lower hlower
    obtain ⟨hint, hhint', hlower⟩ := Option.bind_eq_some_iff.mp hlower
    obtain rfl := hhint hint hhint'
    rw [filter_rest_seek cursor lower hhint, filter_filter]
    refine filter_congr fun row _ => ?_
    cases hrow : hint.containsKey row.key with
    | false => rfl
    | true => simpa using not_lt.mp (hint.not_key_lt_lowerSeekKey hrow hlower)
  · have hrest : (cursor.moveTo none cursor.reader.blocks suffix_rfl fun _ h => h).rest =
        blocksRest cursor.boundsHint cursor.reader.blocks :=
      positionAtBlock_none cursor.reader.blocks_ne_nil
    rw [hrest]
    exact filter_blocksRest hhint cursor.reader.blocks_ne_nil cursor.reader.rows_sorted

end ImmutableTableCursor

/-! ## Cursors of any table -/

/-- A boxed cursor (`dyn TableCursor`) over a memory table or an immutable one. -/
inductive TableCursor where
  | memory (cursor : MemoryTableCursor)
  | immutable (cursor : ImmutableTableCursor)

namespace TableCursor

def seekToFirst : TableCursor → TableCursor
  | memory cursor => memory cursor.seekToFirst
  | immutable cursor => immutable cursor.seekToFirst

def seek (cursor : TableCursor) (target : Bytes) : TableCursor :=
  match cursor with
  | memory cursor => memory (cursor.seek target)
  | immutable cursor => immutable (cursor.seek target)

instance : Cursor TableCursor StorageRow where
  current
    | memory cursor => Cursor.current cursor
    | immutable cursor => Cursor.current cursor
  advance
    | memory cursor => memory (Cursor.advance cursor)
    | immutable cursor => immutable (Cursor.advance cursor)
  rest
    | memory cursor => Cursor.rest cursor
    | immutable cursor => Cursor.rest cursor
  current_eq
    | memory cursor => Cursor.current_eq cursor
    | immutable cursor => Cursor.current_eq cursor
  rest_advance
    | memory cursor => Cursor.rest_advance cursor
    | immutable cursor => Cursor.rest_advance cursor

/-- The rows of the table the cursor is over. -/
def rows : TableCursor → List StorageRow
  | memory cursor => cursor.table.visibleRows
  | immutable cursor => cursor.reader.rows

/-- The bounds a cursor was opened with, if it heeds any, are these. -/
def HintIs (bounds : TableKeyBounds) : TableCursor → Prop
  | memory _ => True
  | immutable cursor => ∀ hint ∈ cursor.boundsHint, hint = bounds

theorem rest_sorted : ∀ cursor : TableCursor, SortedRows (Cursor.rest cursor)
  | memory cursor => cursor.rest_sorted
  | immutable cursor => cursor.rest_sorted

variable {cursor : TableCursor}

theorem filter_rest_seek (hhint : cursor.HintIs bounds) (target : Bytes) :
    (Cursor.rest (cursor.seek target)).filter (bounds.containsKey ·.key) =
      (cursor.rows.filter fun row => !decide (row.key < target)).filter (bounds.containsKey ·.key) := by
  cases cursor with
  | memory cursor =>
    rw [rows, ← dropWhile_eq_filter_of_sorted cursor.table.visibleRows_sorted, ← cursor.rest_seek]
    rfl
  | immutable cursor => exact cursor.filter_rest_seek target hhint

theorem filter_rest_seekToFirst (hhint : cursor.HintIs bounds) :
    (Cursor.rest cursor.seekToFirst).filter (bounds.containsKey ·.key) =
      cursor.rows.filter (bounds.containsKey ·.key) := by
  cases cursor with
  | memory cursor =>
    rw [rows, ← cursor.rest_seekToFirst]
    rfl
  | immutable cursor => exact cursor.filter_rest_seekToFirst hhint

end TableCursor

/-! ## Bounded cursors -/

/-- `BoundedTableCursor`. A positioned cursor stands at a row in bounds. -/
structure BoundedTableCursor where
  inner : TableCursor
  bounds : TableKeyBounds
  positioned : Bool
  settled : positioned = true → ∃ row, Cursor.current inner = some row ∧ bounds.containsKey row.key = true

namespace BoundedTableCursor

def new (inner : TableCursor) (bounds : TableKeyBounds) : BoundedTableCursor :=
  ⟨inner, bounds, false, by simp⟩

variable (cursor : BoundedTableCursor)

/-- Past the upper bound of sorted rows no row is in bounds. -/
theorem pairwise_past (bounds : TableKeyBounds) {rows : List StorageRow} (h : SortedRows rows) :
    rows.Pairwise fun a b => bounds.isPastUpperBound a.key = true → bounds.containsKey b.key = false :=
  h.imp fun hlt hpast => bounds.containsKey_eq_false_of_past hpast hlt.le

/-- `skip_to_next_in_bounds`, from a positioned cursor. -/
def skipToNextInBounds (inner : TableCursor) (bounds : TableKeyBounds) : BoundedTableCursor where
  inner := (Cursor.skip (bounds.containsKey ·.key) (bounds.isPastUpperBound ·.key) inner).1
  bounds
  positioned := (Cursor.skip (bounds.containsKey ·.key) (bounds.isPastUpperBound ·.key) inner).2
  settled h := ((Cursor.skip_spec (pairwise_past bounds inner.rest_sorted)).1 h).1

def seekToFirst : BoundedTableCursor :=
  match cursor.bounds.lowerSeekKey with
  | some lower => skipToNextInBounds (cursor.inner.seek lower) cursor.bounds
  | none => skipToNextInBounds cursor.inner.seekToFirst cursor.bounds

def advance : BoundedTableCursor :=
  if cursor.positioned then skipToNextInBounds (Cursor.advance cursor.inner) cursor.bounds
  else cursor

/-- The rows the cursor has left. -/
def rest : List StorageRow :=
  if cursor.positioned then (Cursor.rest cursor.inner).filter (cursor.bounds.containsKey ·.key)
  else []

theorem rest_skipToNextInBounds (inner : TableCursor) (bounds : TableKeyBounds) :
    (skipToNextInBounds inner bounds).rest = (Cursor.rest inner).filter (bounds.containsKey ·.key) := by
  obtain ⟨hfound, hnone, -⟩ := Cursor.skip_spec (pairwise_past bounds inner.rest_sorted)
  rw [rest]
  split_ifs with h
  · exact (hfound h).2
  · exact (hnone (Bool.eq_false_iff.mpr h)).symm

instance : Cursor BoundedTableCursor StorageRow where
  current cursor :=
    if cursor.positioned then
      (Cursor.current cursor.inner).filter (cursor.bounds.containsKey ·.key)
    else none
  advance := advance
  rest := rest
  current_eq cursor := by
    rw [rest]
    split_ifs with h
    · obtain ⟨row, hcurrent, hrow⟩ := cursor.settled h
      rw [Cursor.rest_eq_cons hcurrent, List.filter_cons_of_pos (by simpa using hrow), hcurrent]
      simp [hrow]
    · rfl
  rest_advance cursor := by
    rw [advance]
    split_ifs with h
    · obtain ⟨row, hcurrent, hrow⟩ := cursor.settled h
      rw [rest_skipToNextInBounds, rest, if_pos h, Cursor.rest_eq_cons hcurrent,
        List.filter_cons_of_pos (by simpa using hrow), List.tail_cons]
    · rw [rest, if_neg h]
      rfl

/-- A bounded cursor yields the rows of its table that are in bounds. -/
theorem rest_seekToFirst {cursor : BoundedTableCursor} (hhint : cursor.inner.HintIs cursor.bounds) :
    cursor.seekToFirst.rest = cursor.inner.rows.filter (cursor.bounds.containsKey ·.key) := by
  unfold seekToFirst
  split
  · rename_i lower hlower
    rw [rest_skipToNextInBounds, TableCursor.filter_rest_seek hhint, filter_filter]
    refine filter_congr fun row _ => ?_
    cases hrow : cursor.bounds.containsKey row.key with
    | false => rfl
    | true => simpa using not_lt.mp (cursor.bounds.not_key_lt_lowerSeekKey hrow hlower)
  · rw [rest_skipToNextInBounds, TableCursor.filter_rest_seekToFirst hhint]

/-- A skip passes no row that is past the upper bound. -/
theorem mem_rest_skipToNextInBounds {inner : TableCursor} {row : StorageRow}
    (hpast : bounds.isPastUpperBound row.key = true) (hrow : row ∈ Cursor.rest inner) :
    row ∈ Cursor.rest (skipToNextInBounds inner bounds).inner := by
  rw [skipToNextInBounds]
  exact Cursor.mem_rest_skip hpast hrow

variable {row : StorageRow} (hpast : cursor.bounds.isPastUpperBound row.key = true)
include hpast

/-- Nor does a bounded cursor that seeks its first row. -/
theorem mem_rest_seekToFirst (hrow : row ∈ Cursor.rest
      (cursor.bounds.lowerSeekKey.elim cursor.inner.seekToFirst cursor.inner.seek)) :
    cursor.seekToFirst.bounds = cursor.bounds ∧ row ∈ Cursor.rest cursor.seekToFirst.inner := by
  have hstart : cursor.seekToFirst = skipToNextInBounds (cursor.bounds.lowerSeekKey.elim
      cursor.inner.seekToFirst cursor.inner.seek) cursor.bounds := by
    unfold seekToFirst
    cases cursor.bounds.lowerSeekKey <;> rfl
  rw [hstart]
  exact ⟨rfl, mem_rest_skipToNextInBounds hpast hrow⟩

variable {cursor}

/-- A row past the upper bound stays ahead of a bounded cursor, however often it advances. -/
theorem mem_rest_iterate_advance (hrow : row ∈ Cursor.rest cursor.inner) (n : Nat) :
    row ∈ Cursor.rest (Cursor.advance^[n] cursor).inner := by
  induction n generalizing cursor with
  | zero => exact hrow
  | succ n ih =>
    obtain ⟨hbounds, hrow⟩ : cursor.advance.bounds = cursor.bounds ∧ row ∈ Cursor.rest cursor.advance.inner := by
      rw [advance]
      split_ifs with h
      · obtain ⟨current, hcurrent, hin⟩ := cursor.settled h
        have hout := cursor.bounds.containsKey_eq_false_of_past hpast le_rfl
        rw [Cursor.rest_eq_cons hcurrent] at hrow
        refine ⟨rfl, mem_rest_skipToNextInBounds hpast ((mem_cons.mp hrow).resolve_left ?_)⟩
        rintro rfl
        simp [hout] at hin
      · exact ⟨rfl, hrow⟩
    exact ih (hbounds ▸ hpast) hrow

end BoundedTableCursor

end Strata
