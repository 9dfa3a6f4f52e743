import Mathlib.Data.List.Induction
import Mathlib.Data.List.Flatten

/-!
# Cutting a list into blocks

A writer that buffers elements and closes its buffer as soon as the buffer is
full cuts the list of its elements into blocks. `cut full l` is the state of
such a writer after `l`: the blocks closed so far and the open one.

* `ofList_append`: one more element is one more `push`;
* `flatten_blocks_ofList`, `blocks_ne_nil`: the blocks are the list, and none is empty;
* `mem_blocks_push`: one more element adds to the last block only.
-/

variable {α : Type*}

/-- The closed blocks of a writer and its open block. -/
structure Cut (α : Type*) where
  closed : List (List α)
  current : List α

namespace Cut

/-- Add an element, and close the open block if that makes it full. -/
def push (full : List α → Bool) (cut : Cut α) (a : α) : Cut α :=
  if full (cut.current ++ [a]) then ⟨cut.closed ++ [cut.current ++ [a]], []⟩
  else ⟨cut.closed, cut.current ++ [a]⟩

/-- The blocks, the open one included unless it is empty. -/
def blocks (cut : Cut α) : List (List α) :=
  if cut.current.isEmpty then cut.closed else cut.closed ++ [cut.current]

/-- The writer after the elements of a list. -/
def ofList (full : List α → Bool) (l : List α) : Cut α := l.foldl (push full) ⟨[], []⟩

variable (full : List α → Bool) (l : List α) {block : List α} {cut : Cut α}

theorem ofList_append (a : α) : ofList full (l ++ [a]) = (ofList full l).push full a := by
  rw [ofList, List.foldl_append]; rfl

theorem flatten_blocks (cut : Cut α) : cut.blocks.flatten = cut.closed.flatten ++ cut.current := by
  unfold blocks
  cases hc : cut.current <;> simp

/-- Cutting loses no element and keeps their order. -/
theorem flatten_ofList : (ofList full l).closed.flatten ++ (ofList full l).current = l := by
  induction l using List.reverseRecOn with
  | nil => rfl
  | append_singleton l a ih =>
    rw [ofList_append, push]
    split
    · simp only [List.flatten_append, List.flatten_cons, List.flatten_nil, List.append_nil]
      rw [← List.append_assoc, ih]
    · simp only
      rw [← List.append_assoc, ih]

@[simp] theorem flatten_blocks_ofList : (ofList full l).blocks.flatten = l := by
  rw [flatten_blocks, flatten_ofList]

theorem current_sublist : (ofList full l).current.Sublist l := by
  conv_rhs => rw [← flatten_ofList full l]
  exact List.sublist_append_right _ _

theorem closed_ne_nil : ∀ block ∈ (ofList full l).closed, block ≠ [] := by
  induction l using List.reverseRecOn with
  | nil => simp [ofList]
  | append_singleton l a ih =>
    rw [ofList_append, push]
    split
    · intro block hblock
      rcases List.mem_append.mp hblock with h | h
      · exact ih block h
      · rw [List.mem_singleton.mp h]; simp
    · exact ih

theorem mem_blocks : block ∈ cut.blocks ↔ block ∈ cut.closed ∨ block = cut.current ∧ cut.current ≠ [] := by
  unfold blocks
  cases hc : cut.current <;> simp

theorem blocks_ne_nil : ∀ block ∈ (ofList full l).blocks, block ≠ [] := by
  intro block hblock
  rcases mem_blocks.mp hblock with h | ⟨rfl, h⟩
  · exact closed_ne_nil full l block h
  · exact h

/-- The blocks after one more element: the closed ones and the one it was
added to. -/
theorem mem_blocks_push {a : α} :
    block ∈ (cut.push full a).blocks ↔ block ∈ cut.closed ∨ block = cut.current ++ [a] := by
  rw [mem_blocks, push]
  split
  · simp
  · simp

end Cut
