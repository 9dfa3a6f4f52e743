import Mathlib.Data.List.Induction

/-!
# Fallible computations

Inversion rules for `Except`: what a successful `bind`, `map` or `mapError`
says of its parts, so that a proof peels a computation apart without unfolding
it.
-/

universe u v

namespace Except

variable {ε ε' : Type u} {α β : Type v}
variable {g : α → β} {bs : List β}
variable {x : Except ε α} {f : α → Except ε β} {l : List α} {b : β} {σ : Type v} {start : σ}

@[simp] theorem bind_eq_ok : x >>= f = .ok b ↔ ∃ a, x = .ok a ∧ f a = .ok b := by
  cases x <;> simp [bind, Except.bind]

@[simp] theorem map_eq_ok {f : α → β} : x.map f = .ok b ↔ ∃ a, x = .ok a ∧ f a = b := by
  cases x <;> simp [Except.map]

@[simp] theorem mapError_eq_ok {f : ε → ε'} {a : α} : x.mapError f = .ok a ↔ x = .ok a := by
  cases x <;> simp [Except.mapError]

@[simp] theorem ok_bind (a : α) (f : α → Except ε β) : (Except.ok a >>= f) = f a := rfl

@[simp] theorem error_bind (e : ε) (f : α → Except ε β) : ((Except.error e : Except ε α) >>= f) = .error e := rfl

theorem toOption_eq_some {a : α} : x.toOption = some a ↔ x = .ok a := by
  cases x <;> simp [Except.toOption]

/-- A check, then the rest. -/
theorem check_bind_eq_ok {x : Except ε PUnit} {y : Except ε β} :
    (x >>= fun _ => y) = .ok b ↔ x = .ok ⟨⟩ ∧ y = .ok b := by
  rw [bind_eq_ok]
  exact ⟨fun ⟨_, h⟩ => h, fun h => ⟨_, h⟩⟩

/-- `e`, unless `p` holds. -/
def require (p : Prop) [Decidable p] (e : ε) : Except ε PUnit.{v+1} :=
  if p then .ok ⟨⟩ else .error e

@[simp] theorem require_eq_ok {p : Prop} [Decidable p] {e : ε} {u : PUnit.{v+1}} : require p e = .ok u ↔ p := by
  unfold require
  split <;> simp_all

theorem exists_eq_ok (h : x.isOk = true) : ∃ a, x = .ok a := by
  cases x with
  | error e => cases h
  | ok a => exact ⟨a, rfl⟩

/-- A computation whose last step cannot fail. -/
theorem bind_ok_isOk : (∃ b, (x >>= fun a => .ok (g a)) = .ok b) ↔ ∃ a, x = .ok a := by
  cases x <;> simp

theorem forM_eq_ok {f : α → Except ε PUnit} : l.forM f = .ok ⟨⟩ ↔ ∀ a ∈ l, f a = .ok ⟨⟩ := by
  induction l with
  | nil => simp [List.forM, pure, Except.pure]
  | cons a l ih => rw [List.forM, check_bind_eq_ok, ih, List.forall_mem_cons]

theorem mapM_eq_ok_map (h : ∀ a ∈ l, f a = .ok (g a)) : l.mapM f = .ok (l.map g) := by
  induction l with
  | nil => rfl
  | cons a l ih =>
    rw [List.mapM_cons, h a List.mem_cons_self, ih fun b hb => h b (List.mem_cons_of_mem a hb)]
    rfl

/-- A fallible map whose function succeeds exactly on the `P`, with `g`. -/
theorem mapM_eq_ok {P : α → Prop} (h : ∀ a b, f a = .ok b ↔ P a ∧ b = g a) :
    l.mapM f = .ok bs ↔ (∀ a ∈ l, P a) ∧ bs = l.map g := by
  induction l generalizing bs with
  | nil =>
    simp [pure, Except.pure, eq_comm]
  | cons a l ih =>
    simp only [List.mapM_cons, bind_eq_ok, h, ih, pure, Except.pure, ok.injEq, List.forall_mem_cons, List.map_cons]
    constructor
    · rintro ⟨_, ⟨ha, rfl⟩, _, ⟨hl, rfl⟩, rfl⟩
      exact ⟨⟨ha, hl⟩, rfl⟩
    · rintro ⟨⟨ha, hl⟩, rfl⟩
      exact ⟨_, ⟨ha, rfl⟩, _, ⟨hl, rfl⟩, rfl⟩

/-- The results of a fallible map are those of its elements. -/
theorem mem_mapM (h : l.mapM f = .ok bs) : b ∈ bs ↔ ∃ a ∈ l, f a = .ok b := by
  induction l generalizing bs with
  | nil => cases h; simp
  | cons a l ih =>
    simp only [List.mapM_cons, bind_eq_ok, pure, Except.pure, ok.injEq] at h
    obtain ⟨c, hc, cs, hcs, rfl⟩ := h
    simp only [List.mem_cons, ih hcs, exists_eq_or_imp, hc, ok.injEq]
    exact or_congr_left eq_comm

/-- The rule of a fallible loop. Where the state after a list of steps is `R`
of the list, and one more step succeeds exactly when `P` holds of the longer
list, the whole loop succeeds exactly when `P` holds of the whole list. -/
theorem foldlM_isOk {f : σ → α → Except ε σ} {R : List α → σ → Prop} {P : List α → Prop}
    (hstart : R [] start) (hnil : P []) (hinit : ∀ l a, P (l ++ [a]) → P l)
    (hok : ∀ l s a, P l → R l s → ((∃ s', f s a = .ok s') ↔ P (l ++ [a])))
    (hstep : ∀ l s a s', P l → R l s → f s a = .ok s' → R (l ++ [a]) s') (l : List α) :
    ((∃ s, l.foldlM f start = .ok s) ↔ P l) ∧ ∀ s, l.foldlM f start = .ok s → R l s := by
  induction l using List.reverseRecOn with
  | nil => exact ⟨⟨fun _ => hnil, fun _ => ⟨start, rfl⟩⟩, fun s h => by cases h; exact hstart⟩
  | append_singleton l a ih =>
    have hsnoc : ∀ s', (l ++ [a]).foldlM f start = .ok s' ↔
        ∃ s, l.foldlM f start = .ok s ∧ f s a = .ok s' := fun s' => by
      rw [List.foldlM_append, bind_eq_ok]
      simp
    simp only [hsnoc]
    refine ⟨⟨?_, fun hP => ?_⟩, ?_⟩
    · rintro ⟨s', s, hs, hs'⟩
      exact (hok l s a (ih.1.mp ⟨s, hs⟩) (ih.2 s hs)).mp ⟨s', hs'⟩
    · obtain ⟨s, hs⟩ := ih.1.mpr (hinit l a hP)
      obtain ⟨s', hs'⟩ := (hok l s a (hinit l a hP) (ih.2 s hs)).mpr hP
      exact ⟨s', s, hs, hs'⟩
    · rintro s' ⟨s, hs, hs'⟩
      exact hstep l s a s' (ih.1.mp ⟨s, hs⟩) (ih.2 s hs) hs'

/-- What every step of a fallible loop keeps holds after the loop. -/
theorem foldlM_rule {f : σ → α → Except ε σ} {R : List α → σ → Prop}
    (hstart : R [] start) (hstep : ∀ l s a s', R l s → f s a = .ok s' → R (l ++ [a]) s') {s : σ}
    (h : l.foldlM f start = .ok s) : R l s := by
  induction l using List.reverseRecOn generalizing s with
  | nil => cases h; exact hstart
  | append_singleton l a ih =>
    rw [List.foldlM_append, bind_eq_ok] at h
    obtain ⟨s', hs', h⟩ := h
    simp only [List.foldlM_cons, List.foldlM_nil, bind_eq_ok, pure, Except.pure, ok.injEq, exists_eq_right] at h
    exact hstep l s' a s (ih hs') h

end Except

/-- `Option::ok_or`: the value, or the error if there is none. -/
def Option.okOr {ε : Type u} {α : Type v} (x : Option α) (e : ε) : Except ε α :=
  match x with
  | some a => .ok a
  | none => .error e

@[simp] theorem Option.okOr_eq_ok {ε : Type u} {α : Type v} {x : Option α} {e : ε} {a : α} :
    x.okOr e = .ok a ↔ x = some a := by
  cases x <;> simp [Option.okOr]
