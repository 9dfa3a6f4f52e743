import Mathlib.Data.List.MinMax
import Mathlib.Tactic.Order

/-!
# The newest element of a list

`List.argmax rank l` is the first element of `l` of greatest rank. A search that walks several
lists one after another and keeps the best element so far (`pick`) computes it
(`List.argmax_append`), may leave out a list whose elements rank no higher than what it holds
(`List.argmax_append_of_le`), and in a list ordered by falling rank may stop at the first match
(`List.argmax_filter_eq_find?`). When elements of equal rank are equal, only membership counts
(`List.argmax_eq_some_of_unique`). A stable sort by falling rank
puts the newest match first (`List.find?_mergeSort`).
-/

variable {α β γ : Type*} [LinearOrder β]

/-- The better of two optional elements; the first one on a tie. -/
def pick (rank : α → β) : Option α → Option α → Option α
  | none, candidate => candidate
  | some selected, none => some selected
  | some selected, some candidate =>
    if rank selected < rank candidate then some candidate else some selected

section Pick

variable {rank : α → β}

@[simp] theorem pick_none_left (candidate : Option α) : pick rank none candidate = candidate := rfl

@[simp] theorem pick_none_right (selected : Option α) : pick rank selected none = selected := by
  cases selected <;> rfl

theorem pick_some_some (selected candidate : α) : pick rank (some selected) (some candidate) =
      if rank selected < rank candidate then some candidate else some selected := rfl

end Pick

namespace List

variable {rank : α → β} {l l₁ l₂ : List α} {p : α → Bool}

theorem argmax_cons_eq_pick (a : α) (l : List α) : argmax rank (a :: l) = pick rank (some a) (argmax rank l) := by
  rw [argmax_cons]
  cases argmax rank l <;> rfl

theorem pick_assoc (a b c : Option α) : pick rank (pick rank a b) c = pick rank a (pick rank b c) := by
  rcases a with _ | a <;> rcases b with _ | b <;> rcases c with _ | c <;> try simp
  simp only [pick_some_some]
  -- the four outcomes of the two inner comparisons; transitivity decides the outer one
  split_ifs with hab hbc hbc <;> simp only [pick_some_some] <;> split_ifs <;>
    first | rfl | (exfalso; order)

/-- Walking two lists one after the other. -/
theorem argmax_append (l₁ l₂ : List α) : argmax rank (l₁ ++ l₂) = pick rank (argmax rank l₁) (argmax rank l₂) := by
  induction l₁ with
  | nil => simp
  | cons a l₁ ih => rw [cons_append, argmax_cons_eq_pick, ih, ← pick_assoc, ← argmax_cons_eq_pick]

/-- A list whose elements rank no higher than the selected one may be left out. -/
theorem argmax_append_of_le {selected : α} (hsel : argmax rank l₁ = some selected)
    (hle : ∀ b ∈ l₂, rank b ≤ rank selected) : argmax rank (l₁ ++ l₂) = some selected := by
  rw [argmax_append, hsel]
  cases h₂ : argmax rank l₂ with
  | none => rfl
  | some candidate => rw [pick_some_some, if_neg (hle candidate (argmax_mem h₂)).not_gt]

theorem argmax_map {rank' : γ → β} {g : α → γ} (hg : ∀ a ∈ l, rank' (g a) = rank a) :
    argmax rank' (l.map g) = (argmax rank l).map g := by
  induction l with
  | nil => rfl
  | cons a l ih =>
    rw [map_cons, argmax_cons_eq_pick, argmax_cons_eq_pick, ih fun b hb => hg b (mem_cons_of_mem a hb)]
    cases h : argmax rank l with
    | none => rfl
    | some b =>
      have ha := hg a mem_cons_self
      have hb := hg b (mem_cons_of_mem a (argmax_mem h))
      rw [Option.map_some, pick_some_some, pick_some_some, ha, hb]
      split <;> rfl

/-- In order of falling rank the first element is the newest. -/
theorem argmax_eq_head? (h : l.Pairwise fun a b => rank b ≤ rank a) : argmax rank l = l.head? := by
  cases l with
  | nil => rfl
  | cons a l =>
    have hle : ∀ b ∈ l, rank b ≤ rank a := fun b hb => rel_of_pairwise_cons h hb
    have hsel : argmax rank [a] = some a := argmax_singleton
    exact argmax_append_of_le hsel hle

/-- A search for the first match finds the newest match, when matches stand in order of falling
rank. -/
theorem argmax_filter_eq_find? (h : (l.filter p).Pairwise fun a b => rank b ≤ rank a) :
    argmax rank (l.filter p) = l.find? p := by
  rw [argmax_eq_head? h, head?_filter]

/-- Where equal rank means equal, an element of greatest rank is the newest one. -/
theorem argmax_eq_some_of_unique {a : α} (hunique : ∀ b ∈ l, rank b = rank a → b = a)
    (ha : a ∈ l) (hmax : ∀ b ∈ l, rank b ≤ rank a) : argmax rank l = some a := by
  cases h : argmax rank l with
  | none => simp_all [argmax_eq_none]
  | some b =>
    have hb : b ∈ l := argmax_mem h
    have hle : rank a ≤ rank b := le_of_mem_argmax ha h
    rw [hunique b hb (le_antisymm (hmax b hb) hle)]

theorem head?_filter_of_argmax {a : α} (h : argmax rank l = some a) :
    (l.filter (rank · = rank a)).head? = some a := by
  induction l generalizing a with
  | nil => cases h
  | cons b l ih =>
    rw [argmax_cons_eq_pick] at h
    cases hl : argmax rank l with
    | none =>
      obtain rfl : b = a := by simpa [hl] using h
      simp
    | some c =>
      rw [hl, pick_some_some] at h
      split_ifs at h with hlt
      · obtain rfl : c = a := Option.some.inj h
        rw [filter_cons_of_neg (by simpa using hlt.ne), ih hl]
      · obtain rfl : b = a := Option.some.inj h
        simp

/-- The newest element depends only on the order of the elements of each rank. -/
theorem argmax_congr_of_filter
    (h : ∀ r, l₁.filter (rank · = r) = l₂.filter (rank · = r)) : argmax rank l₁ = argmax rank l₂ := by
  have hmem : ∀ a, a ∈ l₁ ↔ a ∈ l₂ := fun a => by
    have := congrArg (a ∈ ·) (h (rank a))
    simpa using this
  cases h₂ : argmax rank l₂ with
  | none =>
    rw [argmax_eq_none] at h₂ ⊢
    exact eq_nil_iff_forall_not_mem.mpr fun a ha => by simpa [h₂] using (hmem a).mp ha
  | some a =>
    cases h₁ : argmax rank l₁ with
    | none =>
      rw [argmax_eq_none] at h₁
      simpa [h₁] using (hmem a).mpr (argmax_mem h₂)
    | some b =>
      have hrank : rank b = rank a := le_antisymm (le_of_mem_argmax ((hmem b).mp (argmax_mem h₁)) h₂)
        (le_of_mem_argmax ((hmem a).mpr (argmax_mem h₂)) h₁)
      rw [← head?_filter_of_argmax h₁, ← head?_filter_of_argmax h₂, hrank, h]

/-- Searching a list sorted by falling rank, with a sort that keeps the matches of equal rank in
order, finds the newest match. -/
theorem find?_mergeSort (rank : α → β) {le : α → α → Bool}
    (trans : ∀ a b c, le a b = true → le b c = true → le a c = true)
    (total : ∀ a b, (le a b || le b a) = true) (hrank : ∀ a b, le a b = true → rank b ≤ rank a)
    (hstable : (l.filter p).Pairwise fun a b => rank a = rank b → le a b = true) :
    (l.mergeSort le).find? p = argmax rank (l.filter p) := by
  have hsorted : (l.mergeSort le).Pairwise fun a b => rank b ≤ rank a :=
    (pairwise_mergeSort trans total l).imp fun h => hrank _ _ h
  rw [← argmax_filter_eq_find? (hsorted.filter p)]
  refine argmax_congr_of_filter fun r => ?_
  rw [filter_filter, filter_filter]
  have hclass : (l.filter fun a => decide (rank a = r) && p a).Pairwise fun a b => le a b := by
    rw [← filter_filter]
    refine (hstable.filter _).imp_of_mem fun {a b} ha hb hab => hab ?_
    have ha : rank a = r := by simpa using of_mem_filter ha
    have hb : rank b = r := by simpa using of_mem_filter hb
    rw [ha, hb]
  have hsub := (sublist_mergeSort trans total hclass filter_sublist).filter fun a => decide (rank a = r) && p a
  rw [filter_filter] at hsub
  simp only [Bool.and_self] at hsub
  exact (hsub.eq_of_length ((mergeSort_perm l le).symm.filter _).length_eq).symm

end List
