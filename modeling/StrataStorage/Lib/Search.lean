import Mathlib.Tactic.Common

/-!
# Bisection over an index range

The two bisection loops of the storage layer over an arbitrary fallible probe, with the loop's
window `low .. high` explicit and `high - low` as fuel: `bisectOrdering` looks for an index the
probe calls equal, `bisectLower` for the first index where a predicate stops holding. Neither
fails when the probe does not (`bisectOrdering_eq_ok`, `bisectLower_eq_ok`).
-/

variable {ε : Type*}

/-- `while low < high { match cmp(mid) { Less => high = mid, Greater => low = mid + 1, Equal =>
return Some(mid) } }`. -/
def bisectOrdering (probe : Nat → Except ε Ordering) : Nat → Nat → Nat → Except ε (Option Nat)
  | 0, _, _ => .ok none
  | fuel + 1, low, high =>
    if low < high then
      let mid := low + (high - low) / 2
      match probe mid with
      | .error e => .error e
      | .ok .lt => bisectOrdering probe fuel low mid
      | .ok .gt => bisectOrdering probe fuel (mid + 1) high
      | .ok .eq => .ok (some mid)
    else
      .ok none

/-- `while low < high { if before(mid) { low = mid + 1 } else { high = mid } }`. -/
def bisectLower (before : Nat → Except ε Bool) : Nat → Nat → Nat → Except ε Nat
  | 0, low, _ => .ok low
  | fuel + 1, low, high =>
    if low < high then
      let mid := low + (high - low) / 2
      match before mid with
      | .error e => .error e
      | .ok true => bisectLower before fuel (mid + 1) high
      | .ok false => bisectLower before fuel low mid
    else
      .ok low

/-- A probe that never fails and whose answers fall from `gt` through `eq` to `lt` over
`low .. high`. -/
structure FallingProbe (probe : Nat → Except ε Ordering) (answer : Nat → Ordering)
    (low high : Nat) : Prop where
  probe_eq : ∀ i, low ≤ i → i < high → probe i = .ok (answer i)
  lt_of_le : ∀ i j, low ≤ i → i ≤ j → j < high → answer i = .lt → answer j = .lt
  gt_of_le : ∀ i j, low ≤ i → i ≤ j → j < high → answer j = .gt → answer i = .gt

variable {probe : Nat → Except ε Ordering} {answer : Nat → Ordering} {fuel low high : Nat}

theorem FallingProbe.shrink {low high low' high' : Nat}
    (h : FallingProbe probe answer low high) (hlow : low ≤ low') (hhigh : high' ≤ high) :
    FallingProbe probe answer low' high' where
  probe_eq i hi hi' := h.probe_eq i (by omega) (by omega)
  lt_of_le i j hi hij hj := h.lt_of_le i j (by omega) hij (by omega)
  gt_of_le i j hi hij hj := h.gt_of_le i j (by omega) hij (by omega)

/-- The loop returns an index whose answer is `eq`, and `none` only if the window holds none. -/
theorem bisectOrdering_eq_ok (h : FallingProbe probe answer low high) (hfuel : high - low ≤ fuel) :
    ∃ found, bisectOrdering probe fuel low high = .ok found ∧
      (∀ i, found = some i → low ≤ i ∧ i < high ∧ answer i = .eq) ∧
      (found = none → ∀ i, low ≤ i → i < high → answer i ≠ .eq) := by
  induction fuel generalizing low high with
  | zero => exact ⟨none, rfl, by simp, fun _ i hi hi' => by omega⟩
  | succ fuel ih =>
    rw [bisectOrdering]
    split
    case isFalse hempty => exact ⟨none, rfl, by simp, fun _ i hi hi' => by omega⟩
    case isTrue hlt =>
      have hmid : low ≤ low + (high - low) / 2 ∧ low + (high - low) / 2 < high := by omega
      generalize low + (high - low) / 2 = mid at hmid
      simp only [h.probe_eq mid hmid.1 hmid.2]
      cases hans : answer mid with
      | eq => exact ⟨some mid, rfl, by rintro i ⟨⟩; exact ⟨hmid.1, hmid.2, hans⟩, by simp⟩
      | lt =>
        have hleft : FallingProbe probe answer low mid := h.shrink (Nat.le_refl low) (Nat.le_of_lt hmid.2)
        obtain ⟨found, hrun, hsome, hnone⟩ := ih hleft (by omega)
        refine ⟨found, hrun, fun i hi => ?_, fun hn i hi hi' => ?_⟩
        · obtain ⟨h₁, h₂, h₃⟩ := hsome i hi
          exact ⟨h₁, by omega, h₃⟩
        · by_cases him : i < mid
          · exact hnone hn i hi him
          · rw [h.lt_of_le mid i hmid.1 (by omega) hi' hans]; decide
      | gt =>
        have hright : FallingProbe probe answer (mid + 1) high := h.shrink (by omega) (Nat.le_refl high)
        obtain ⟨found, hrun, hsome, hnone⟩ := ih hright (by omega)
        refine ⟨found, hrun, fun i hi => ?_, fun hn i hi hi' => ?_⟩
        · obtain ⟨h₁, h₂, h₃⟩ := hsome i hi
          exact ⟨by omega, h₂, h₃⟩
        · by_cases him : mid < i
          · exact hnone hn i (by omega) hi'
          · rw [h.gt_of_le i mid hi (by omega) hmid.2 hans]; decide

/-- The loop returns the end of the initial part of the window on which `before` holds. -/
theorem bisectLower_eq_ok {before : Nat → Except ε Bool} {answer : Nat → Bool}
    (hprobe : ∀ i, low ≤ i → i < high → before i = .ok (answer i))
    (hmono : ∀ i j, low ≤ i → i ≤ j → j < high → answer j = true → answer i = true)
    (hle : low ≤ high) (hfuel : high - low ≤ fuel) :
    ∃ found, bisectLower before fuel low high = .ok found ∧ low ≤ found ∧ found ≤ high ∧
      (∀ i, low ≤ i → i < found → answer i = true) ∧ (∀ i, found ≤ i → i < high → answer i = false) := by
  induction fuel generalizing low high with
  | zero => exact ⟨low, rfl, Nat.le_refl _, hle, fun i _ _ => by omega, fun i _ _ => by omega⟩
  | succ fuel ih =>
    rw [bisectLower]
    split
    case isFalse hempty =>
      exact ⟨low, rfl, Nat.le_refl _, hle, fun i _ _ => by omega, fun i _ _ => by omega⟩
    case isTrue hlt =>
      have hmid : low ≤ low + (high - low) / 2 ∧ low + (high - low) / 2 < high := by omega
      generalize low + (high - low) / 2 = mid at hmid
      simp only [hprobe mid hmid.1 hmid.2]
      cases hans : answer mid with
      | true =>
        obtain ⟨found, hrun, h₁, h₂, hbelow, habove⟩ := ih
          (fun i hi => hprobe i (by omega)) (fun i j hi => hmono i j (by omega)) hmid.2 (by omega)
        refine ⟨found, hrun, by omega, h₂, fun i hi hi' => ?_, habove⟩
        by_cases him : i ≤ mid
        · exact hmono i mid hi him hmid.2 hans
        · exact hbelow i (by omega) hi'
      | false =>
        obtain ⟨found, hrun, h₁, h₂, hbelow, habove⟩ := ih (fun i hi hi' => hprobe i hi (by omega))
          (fun i j hi hij hj => hmono i j hi hij (by omega)) hmid.1 (by omega)
        refine ⟨found, hrun, h₁, by omega, hbelow, fun i hi hi' => ?_⟩
        by_cases him : i < mid
        · exact habove i hi him
        · by_contra hne
          have := hmono mid i hmid.1 (by omega) hi' (by simpa using hne)
          simp [this] at hans
