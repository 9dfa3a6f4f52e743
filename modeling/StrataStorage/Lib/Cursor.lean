import Mathlib.Data.List.Basic
import Mathlib.Logic.Function.Iterate

/-!
# Cursors

A cursor stands at a row or at its end and moves one row at a time. What counts
of it is the list of rows it has left (`Cursor.rest`): the current row is its
head, and to advance is to drop it. `Cursor.skip` moves on to the next row of
interest, and gives up at a row that says that there is none.
-/

/-- A cursor and the rows it has left. -/
class Cursor (σ : Type*) (ρ : outParam Type*) where
  current : σ → Option ρ
  advance : σ → σ
  rest : σ → List ρ
  current_eq : ∀ c, current c = (rest c).head?
  rest_advance : ∀ c, rest (advance c) = (rest c).tail

namespace Cursor

variable {σ ρ : Type*} [Cursor σ ρ] {c : σ} {row : ρ}

theorem rest_eq_cons (h : current c = some row) : rest c = row :: rest (advance c) := by
  rw [rest_advance]
  rw [current_eq] at h
  exact (List.cons_head?_tail h).symm

theorem length_rest_advance_lt (h : current c = some row) : (rest (advance c)).length < (rest c).length := by
  rw [rest_eq_cons h]
  exact Nat.lt_succ_self _

/-- The rows a cursor shows while it advances. -/
theorem current_iterate_advance (c : σ) (n : Nat) : current (advance^[n] c) = (rest c)[n]? := by
  have hrest : rest (advance^[n] c) = (rest c).drop n := by
    induction n with
    | zero => rfl
    | succ n ih => rw [Function.iterate_succ_apply', rest_advance, ih, List.tail_drop]
  rw [current_eq, hrest, List.head?_drop]

/-- Move on until a row is kept. The flag says whether one was found: the
cursor gives up at its end and at a row that stops the search. -/
def skip (keep stop : ρ → Bool) (c : σ) : σ × Bool :=
  match _h : current c with
  | none => (c, false)
  | some row =>
    if keep row then (c, true)
    else if stop row then (c, false)
    else skip keep stop (advance c)
termination_by (rest c).length
decreasing_by exact length_rest_advance_lt ‹current c = some row›

variable {keep stop : ρ → Bool}

/-- If a row that stops the search has no kept row behind it, skipping loses
none of them: it stands at the first, or there is none. -/
theorem skip_spec (hstop : (rest c).Pairwise fun a b => stop a = true → keep b = false) :
    ((skip keep stop c).2 = true → (∃ row, current (skip keep stop c).1 = some row ∧ keep row = true) ∧
        (rest (skip keep stop c).1).filter keep = (rest c).filter keep) ∧
    ((skip keep stop c).2 = false → (rest c).filter keep = []) ∧
    rest (skip keep stop c).1 <:+ rest c := by
  fun_induction skip keep stop c with
  | case1 c h =>
    have hnil : rest c = [] := by rwa [current_eq, List.head?_eq_none_iff] at h
    simp [hnil]
  | case2 c row h hkeep => exact ⟨fun _ => ⟨⟨row, h, hkeep⟩, rfl⟩, by simp, List.suffix_rfl⟩
  | case3 c row h hkeep hrow =>
    refine ⟨by simp, fun _ => ?_, List.suffix_rfl⟩
    rw [rest_eq_cons h] at hstop ⊢
    obtain ⟨hbehind, -⟩ := List.pairwise_cons.mp hstop
    rw [List.filter_cons_of_neg (by simpa using hkeep), List.filter_eq_nil_iff]
    intro b hb
    simp [hbehind b hb hrow]
  | case4 c row h hkeep hrow ih =>
    rw [rest_eq_cons h] at hstop ⊢
    obtain ⟨hfound, hnone, hsuffix⟩ := ih (List.pairwise_cons.mp hstop).2
    rw [List.filter_cons_of_neg (by simpa using hkeep)]
    exact ⟨hfound, hnone, hsuffix.trans (List.suffix_cons _ _)⟩

/-- Skipping passes no row that stops the search. -/
theorem mem_rest_skip (hstop : stop row = true) (hrow : row ∈ rest c) : row ∈ rest (skip keep stop c).1 := by
  fun_induction skip keep stop c with
  | case1 | case2 | case3 => exact hrow
  | case4 c next h _ hnext ih =>
    rw [rest_eq_cons h] at hrow
    exact ih ((List.mem_cons.mp hrow).resolve_left fun heq => hnext (heq ▸ hstop))

end Cursor
