import Mathlib.Data.List.Induction
import Mathlib.Data.List.Sort
import Mathlib.Data.Prod.Lex
import Mathlib.Tactic.Order

/-!
# Merging sorted lists through a heap

A merge of sorted lists keeps a heap with one item for each list that is not
used up: the key of its first element and its index. The heap is a priority
queue, smallest key first and smallest index first among equal keys; here it is
the sorted list of its items.

* `MergeHeap.Heads.push_set`: replacing the list that was popped keeps the heap;
* `MergeHeap.Heads.le`: the item popped is the least of all elements left;
* `List.filter_flatten_set`: taking the elements of one kind from the first list
  that has any takes them from the front of the concatenation.
-/

variable {α κ : Type*} [LinearOrder κ] {l : List α} {k : κ}

/-- The items of a merge heap, in the order in which they are popped. -/
abbrev MergeHeap (κ : Type*) := List (κ ×ₗ ℕ)

namespace MergeHeap

open List

variable {i : ℕ}

/-- Push the current key of a list, if it has one. -/
def push (heap : MergeHeap κ) (key : Option κ) (index : ℕ) : MergeHeap κ :=
  match key with
  | none => heap
  | some key => heap.orderedInsert (· ≤ ·) (toLex (key, index))

/-- The heap of the current keys of several lists. -/
def ofKeys (keys : List (Option κ)) : MergeHeap κ :=
  keys.zipIdx.foldl (fun heap (key, index) => heap.push key index) []

/-- The heap holds an item for each list that is not empty. -/
structure Heads (key : α → κ) (lists : List (List α)) (heap : MergeHeap κ) : Prop where
  sorted : heap.Pairwise (· < ·)
  mem_iff : ∀ k i, toLex (k, i) ∈ heap ↔ ∃ a l, lists[i]? = some (a :: l) ∧ key a = k

variable {key : α → κ} {lists : List (List α)} {heap : MergeHeap κ}

theorem mem_push {k' : κ} {j : ℕ} {current : Option κ} :
    toLex (k', j) ∈ heap.push current i ↔ (current = some k' ∧ j = i) ∨ toLex (k', j) ∈ heap := by
  cases current with
  | none => simp [push]
  | some k => simp [push, mem_orderedInsert, eq_comm]

theorem sorted_push (hsorted : heap.Pairwise (· < ·)) (hfresh : ∀ k, toLex (k, i) ∉ heap)
    (current : Option κ) : (heap.push current i).Pairwise (· < ·) := by
  cases current with
  | none => exact hsorted
  | some k =>
    have hle : (heap.orderedInsert (· ≤ ·) (toLex (k, i))).Pairwise (· ≤ ·) :=
      (hsorted.imp le_of_lt).orderedInsert _ _
    have hnodup : (heap.orderedInsert (· ≤ ·) (toLex (k, i))).Nodup :=
      (perm_orderedInsert _ _ _).nodup_iff.mpr (nodup_cons.mpr ⟨hfresh k, hsorted.imp ne_of_lt⟩)
    exact (hle.and hnodup).imp fun h => lt_of_le_of_ne h.1 h.2

/-- Pushing the current key of a list the heap has no item of. -/
theorem heads_push (hsorted : heap.Pairwise (· < ·)) (hfresh : ∀ k, toLex (k, i) ∉ heap) (hi : lists[i]? = some l)
    (hmem : ∀ k j, j ≠ i → (toLex (k, j) ∈ heap ↔ ∃ a l, lists[j]? = some (a :: l) ∧ key a = k)) :
    Heads key lists (heap.push (l.head?.map key) i) := by
  refine ⟨sorted_push hsorted hfresh _, fun k j => ?_⟩
  rw [mem_push]
  by_cases hj : j = i
  · subst hj
    rw [hi, or_iff_left (hfresh k)]
    cases l with
    | nil => simp
    | cons a l => simp
  · rw [← hmem k j hj]
    simp [hj]

theorem Heads.nil (h : Heads key lists []) : lists.flatten = [] := by
  rw [flatten_eq_nil_iff]
  intro l hl
  obtain ⟨i, hi⟩ := mem_iff_getElem?.mp hl
  cases l with
  | nil => rfl
  | cons a l => exact absurd ((h.mem_iff (key a) i).mpr ⟨a, l, hi, rfl⟩) (by simp)

/-- After the first item is popped, its list may be replaced by what is left
of it. -/
theorem Heads.push_set (h : Heads key lists (toLex (k, i) :: heap)) (l : List α) :
    Heads key (lists.set i l) (heap.push (l.head?.map key) i) := by
  obtain ⟨hlt, hsorted⟩ := List.pairwise_cons.mp h.sorted
  obtain ⟨a, rest, hi, hk⟩ := (h.mem_iff k i).mp List.mem_cons_self
  have hfresh : ∀ k', toLex (k', i) ∉ heap := by
    intro k' hmem
    obtain ⟨a', rest', hi', hk'⟩ := (h.mem_iff k' i).mp (List.mem_cons_of_mem _ hmem)
    rw [hi, Option.some.injEq, List.cons.injEq] at hi'
    rw [← hk', ← hi'.1, hk] at hmem
    exact lt_irrefl _ (hlt _ hmem)
  have hlen : i < lists.length := (List.getElem?_eq_some_iff.mp hi).1
  refine heads_push hsorted hfresh (List.getElem?_set_self hlen) fun k' j hj => ?_
  rw [List.getElem?_set_ne hj.symm, ← h.mem_iff, List.mem_cons]
  exact (or_iff_right fun heq => hj (congrArg Prod.snd heq)).symm

/-- The heap a merge starts from. -/
theorem heads_ofKeys (key : α → κ) (lists : List (List α)) :
    Heads key lists (ofKeys (lists.map fun l => l.head?.map key)) := by
  induction lists using reverseRecOn with
  | nil => exact ⟨List.Pairwise.nil, by simp [ofKeys]⟩
  | append_singleton lists l ih =>
    rw [ofKeys, map_append, zipIdx_append, foldl_append]
    have hfresh : ∀ k, toLex (k, lists.length) ∉ ofKeys (lists.map fun l => l.head?.map key) := fun k hmem => by
        obtain ⟨a, l, hi, -⟩ := (ih.mem_iff k _).mp hmem
        simp at hi
    have hpush : Heads key (lists ++ [l])
        ((ofKeys (lists.map fun l => l.head?.map key)).push (l.head?.map key) lists.length) := by
      refine heads_push ih.sorted hfresh (by simp) fun k j hj => ?_
      rw [ih.mem_iff]
      by_cases hlt : j < lists.length
      · rw [getElem?_append_left hlt]
      · rw [getElem?_eq_none (by omega), getElem?_eq_none (by rw [length_append, length_singleton]; omega)]
    simpa [ofKeys] using hpush

/-- Nothing left is before the first item. -/
theorem Heads.le (h : Heads key lists (toLex (k, i) :: heap))
    (hlists : ∀ l ∈ lists, l.Pairwise fun a b => key a ≤ key b) {j : ℕ}
    (hj : lists[j]? = some l) {a : α} (ha : a ∈ l) : toLex (k, i) ≤ toLex (key a, j) := by
  cases l with
  | nil => cases ha
  | cons b l =>
    have hb : toLex (key b, j) ∈ toLex (k, i) :: heap := (h.mem_iff _ _).mpr ⟨b, l, hj, rfl⟩
    have hfirst : toLex (k, i) ≤ toLex (key b, j) := by
      rcases mem_cons.mp hb with heq | hmem
      · exact heq.ge
      · exact (rel_of_pairwise_cons h.sorted hmem).le
    have hab : key b ≤ key a := by
      rcases mem_cons.mp ha with rfl | hmem
      · exact le_rfl
      · exact rel_of_pairwise_cons (hlists _ (mem_of_getElem? hj)) hmem
    refine hfirst.trans ?_
    rcases hab.lt_or_eq with hlt | heq
    · exact (Prod.Lex.toLex_lt_toLex.mpr (.inl hlt)).le
    · rw [heq]

end MergeHeap

namespace List

variable {p : α → Bool} {lists : List (List α)}

/-- Taking the elements of one kind from the first list that has any. -/
theorem filter_flatten_set {i : ℕ} (hi : lists[i]? = some l)
    (hbefore : ∀ j < i, ∀ l', lists[j]? = some l' → ∀ a ∈ l', p a = false) :
    lists.flatten.filter p = l.filter p ++ (lists.set i (l.filter fun a => !p a)).flatten.filter p := by
  induction i generalizing lists with
  | zero =>
    cases lists with
    | nil => cases hi
    | cons l' lists =>
      cases hi
      have hnone : (l.filter fun a => !p a).filter p = [] := by simp [filter_filter]
      rw [set_cons_zero, flatten_cons, flatten_cons, filter_append, filter_append, hnone, nil_append]
  | succ i ih =>
    cases lists with
    | nil => cases hi
    | cons l' lists =>
      have hl' : l'.filter p = [] :=
        filter_eq_nil_iff.mpr fun a ha => by simp [hbefore 0 (Nat.succ_pos i) l' rfl a ha]
      have hrest := ih hi fun j hj => hbefore (j + 1) (Nat.succ_lt_succ hj)
      rw [set_cons_succ, flatten_cons, flatten_cons, filter_append, filter_append, hl', nil_append,
        nil_append, hrest]

theorem map_filter_set {i : ℕ} (hi : lists[i]? = some l) :
    (lists.set i (l.filter p)).map (filter p) = lists.map (filter p) := by
  rw [map_set, filter_filter]
  simp only [Bool.and_self]
  refine ext_getElem? fun j => ?_
  by_cases hj : i = j
  · subst hj
    rw [getElem?_set_self (by simpa using (getElem?_eq_some_iff.mp hi).1), getElem?_map, hi]
    rfl
  · rw [getElem?_set_ne hj]

/-- The elements of least key lead a sorted list. -/
theorem span_eq_filter {key : α → κ} (hp : ∀ a, p a = true ↔ key a = k)
    (hsorted : l.Pairwise fun a b => key a ≤ key b) (hle : ∀ a ∈ l, k ≤ key a) :
    l.takeWhile p = l.filter p ∧ l.dropWhile p = l.filter fun a => !p a := by
  induction l with
  | nil => exact ⟨rfl, rfl⟩
  | cons a l ih =>
    obtain ⟨hhead, htail⟩ := pairwise_cons.mp hsorted
    obtain ⟨ih₁, ih₂⟩ := ih htail fun b hb => hle b (mem_cons_of_mem a hb)
    cases ha : p a with
    | true => simp [ha, ih₁, ih₂]
    | false =>
      have hne : key a ≠ k := fun heq => by simp [(hp a).mpr heq] at ha
      have hlt : k < key a := lt_of_le_of_ne (hle a mem_cons_self) (Ne.symm hne)
      have hfalse : ∀ b ∈ l, p b = false := fun b hb => by
        rw [Bool.eq_false_iff, ne_eq, hp]
        exact (hlt.trans_le (hhead b hb)).ne'
      have hnil : l.filter p = [] := filter_eq_nil_iff.mpr fun b hb => by simp [hfalse b hb]
      have hall : l.filter (fun b => !p b) = l := filter_eq_self.mpr fun b hb => by
        simp [hfalse b hb]
      simp [ha, hnil, hall]

end List
