import StrataStorage.Table.Key

/-!
# Key bounds of a cursor

`TableKeyBounds` of `table/key.rs`: a range of internal keys, the keys that
begin with given bytes, or a range of physical keys within a namespace. A
bounded cursor relies on two facts about the rows of a table, which are all
that is needed of a bound: no row in bounds stands before the key the cursor
seeks first (`not_key_lt_lowerSeekKey`), and once a row is past the upper bound
no later row is in bounds (`containsKey_eq_false_of_past`).
-/

namespace Strata

/-- `TableKeyBound`, `TablePhysicalKeyBound` and `BranchUserKeyBound`, which
differ in what the bytes are. -/
inductive KeyBound where
  | unbounded
  | included (key : Bytes)
  | excluded (key : Bytes)
  deriving DecidableEq

namespace KeyBound

def finiteKey : KeyBound → Option Bytes
  | unbounded => none
  | included key => some key
  | excluded key => some key

/-- `lower_contains` and `physical_lower_contains`. -/
def lowerContains (bound : KeyBound) (key : Bytes) : Bool :=
  match bound with
  | unbounded => true
  | included lower => decide (lower ≤ key)
  | excluded lower => decide (lower < key)

/-- `upper_contains` and `physical_upper_contains`. -/
def upperContains (bound : KeyBound) (key : Bytes) : Bool :=
  match bound with
  | unbounded => true
  | included upper => decide (key ≤ upper)
  | excluded upper => decide (key < upper)

/-- `upper_excludes_current_and_following` and its physical counterpart. -/
def upperExcludesCurrentAndFollowing (bound : KeyBound) (key : Bytes) : Bool :=
  match bound with
  | unbounded => false
  | included upper => decide (upper < key)
  | excluded upper => decide (upper ≤ key)

/-- `validate_bound_order` and its physical counterpart. -/
def validateBoundOrder (field : String) (lower upper : KeyBound) : Except TableRuntimeError Unit :=
  match lower.finiteKey, upper.finiteKey with
  | some low, some high => if high < low then .error (.invalidRange field) else .ok ()
  | _, _ => .ok ()

variable {bound : KeyBound}

theorem finiteKey_le_of_lowerContains {key lower : Bytes}
    (h : bound.lowerContains key = true) (hlower : bound.finiteKey = some lower) : lower ≤ key := by
  cases bound <;> simp_all [lowerContains, finiteKey, le_of_lt]

theorem upperContains_eq_false {a b : Bytes} (h : bound.upperExcludesCurrentAndFollowing a = true) (hle : a ≤ b) :
    bound.upperContains b = false := by
  cases bound with
  | unbounded => cases h
  | included upper =>
    have h : upper < a := by simpa [upperExcludesCurrentAndFollowing] using h
    simpa [upperContains] using h.trans_le hle
  | excluded upper =>
    have h : upper ≤ a := by simpa [upperExcludesCurrentAndFollowing] using h
    simpa [upperContains] using h.trans hle

end KeyBound

inductive TableKeyBounds where
  | range (lower upper : KeyBound)
  | keyPrefix (bytes : Bytes)
  | physicalRange (physicalPrefix : Bytes) (lower upper : KeyBound)
  deriving DecidableEq

namespace TableKeyBounds

/-- `TableKeyBounds::physical_range`. -/
def newPhysicalRange (physicalPrefix : Bytes) (lower upper : KeyBound) :
    Except TableRuntimeError TableKeyBounds := do
  KeyBound.validateBoundOrder "physical_key_bounds" lower upper
  .ok (.physicalRange physicalPrefix lower upper)

def containsKey (bounds : TableKeyBounds) (key : Bytes) : Bool :=
  match bounds with
  | range lower upper => lower.lowerContains key && upper.upperContains key
  | keyPrefix bytes => bytes.isPrefixOf key
  | physicalRange physicalPrefix lower upper =>
    let physicalKey := tableInternalPhysicalKeyBytes key
    physicalPrefix.isPrefixOf physicalKey && lower.lowerContains physicalKey && upper.upperContains physicalKey

def lowerSeekKey : TableKeyBounds → Option Bytes
  | range lower _ => lower.finiteKey
  | keyPrefix bytes => if bytes = [] then none else some bytes
  | physicalRange physicalPrefix lower _ =>
    lower.finiteKey.or (if physicalPrefix = [] then none else some physicalPrefix)

def isPastUpperBound (bounds : TableKeyBounds) (key : Bytes) : Bool :=
  match bounds with
  | range _ upper => upper.upperExcludesCurrentAndFollowing key
  | keyPrefix bytes => !bytes.isPrefixOf key && decide (bytes < key)
  | physicalRange physicalPrefix _ upper =>
    let physicalKey := tableInternalPhysicalKeyBytes key
    (!physicalPrefix.isPrefixOf physicalKey && decide (physicalPrefix < physicalKey)) ||
      upper.upperExcludesCurrentAndFollowing physicalKey

end TableKeyBounds

/-- A row's key follows its physical key. -/
theorem StorageRow.physicalKeyBytes_le_key (row : StorageRow) : row.physicalKeyBytes ≤ row.key :=
  List.le_of_isPrefix ⟨_, rfl⟩

namespace TableKeyBounds

variable {bounds : TableKeyBounds}

/-- No row in bounds stands before the key a bounded cursor seeks. -/
theorem not_key_lt_lowerSeekKey {row : StorageRow} {lower : Bytes}
    (h : bounds.containsKey row.key = true) (hlower : bounds.lowerSeekKey = some lower) :
    ¬ row.key < lower := by
  refine not_lt.mpr ?_
  cases bounds with
  | range low high =>
    rw [containsKey, Bool.and_eq_true] at h
    exact KeyBound.finiteKey_le_of_lowerContains h.1 hlower
  | keyPrefix bytes =>
    rw [containsKey, List.isPrefixOf_iff_prefix] at h
    rw [lowerSeekKey] at hlower
    split at hlower
    · cases hlower
    · cases hlower; exact List.le_of_isPrefix h
  | physicalRange physicalPrefix low high =>
    simp only [containsKey, StorageRow.tableInternalPhysicalKeyBytes_key, Bool.and_eq_true,
      List.isPrefixOf_iff_prefix] at h
    obtain ⟨⟨hbegins, hlow⟩, -⟩ := h
    refine le_trans ?_ row.physicalKeyBytes_le_key
    rw [lowerSeekKey] at hlower
    cases hfinite : low.finiteKey with
    | some key =>
      obtain rfl : key = lower := by simpa [hfinite] using hlower
      exact KeyBound.finiteKey_le_of_lowerContains hlow hfinite
    | none =>
      rw [hfinite, Option.none_or] at hlower
      split at hlower
      · cases hlower
      · cases hlower; exact List.le_of_isPrefix hbegins

/-- Behind a row that is past the upper bound no row is in bounds. -/
theorem containsKey_eq_false_of_past {a b : StorageRow}
    (h : bounds.isPastUpperBound a.key = true) (hle : a.key ≤ b.key) :
    bounds.containsKey b.key = false := by
  -- the argument for keys that have left the bytes they must begin with
  have hleft : ∀ p x y : Bytes, (!p.isPrefixOf x && decide (p < x)) = true → x ≤ y → p.isPrefixOf y = false := by
    intro p x y hx hxy
    simp only [Bool.and_eq_true, Bool.not_eq_true', decide_eq_true_eq] at hx
    rw [Bool.eq_false_iff, ne_eq, List.isPrefixOf_iff_prefix]
    intro hy
    refine absurd (List.lt_of_not_isPrefix hx.2 ?_ hy) (not_lt.mpr hxy)
    rw [← List.isPrefixOf_iff_prefix, hx.1]
    exact Bool.false_ne_true
  cases bounds with
  | range low high =>
    rw [containsKey, KeyBound.upperContains_eq_false h hle, Bool.and_false]
  | keyPrefix bytes => exact hleft _ _ _ h hle
  | physicalRange physicalPrefix low high =>
    have hphysical := StorageRow.physicalKeyBytes_le_of_key_le hle
    simp only [isPastUpperBound, StorageRow.tableInternalPhysicalKeyBytes_key, Bool.or_eq_true] at h
    simp only [containsKey, StorageRow.tableInternalPhysicalKeyBytes_key]
    rcases h with h | h
    · rw [hleft _ _ _ h hphysical, Bool.false_and, Bool.false_and]
    · rw [KeyBound.upperContains_eq_false h hphysical, Bool.and_false]

end TableKeyBounds

end Strata
