/-!
# Computations with a state that may fail

`Stateful σ ε α` is a computation that reads and writes a state and may fail;
what it wrote before it failed stays written. `Spec P m Q E` is a triple for it:
from a state with `P`, a success ends in a state with `Q` of the result, and a
failure in a state with `E`. There is one rule for each way of building a
computation, so that a proof about a computation uses the specifications of its
parts and never runs them.
-/

/-- A computation with a state, whose writes survive a failure. -/
def Stateful (σ ε α : Type) : Type := σ → Except ε α × σ

namespace Stateful

variable {σ ε α β : Type}

instance : Monad (Stateful σ ε) where
  pure a := fun s => (.ok a, s)
  bind m f := fun s =>
    match m s with
    | (.ok a, s') => f a s'
    | (.error e, s') => (.error e, s')

/-- Read a part of the state. -/
def gets (f : σ → α) : Stateful σ ε α := fun s => (.ok (f s), s)

def modify (f : σ → σ) : Stateful σ ε Unit := fun s => (.ok (), f s)

def throw (e : ε) : Stateful σ ε α := fun s => (.error e, s)

/-- A computation that does not depend on the state. -/
def lift (x : Except ε α) : Stateful σ ε α := fun s => (x, s)

/-- A step that is only taken if `p` holds. -/
def when (p : Prop) [Decidable p] (m : Stateful σ ε Unit) : Stateful σ ε Unit :=
  if p then m else Pure.pure ()

/-- Rework the error of a failure, and the state it left. -/
def mapFailure (g : ε → σ → ε × σ) (m : Stateful σ ε α) : Stateful σ ε α := fun s =>
  match m s with
  | (.ok a, s') => (.ok a, s')
  | (.error e, s') => (.error (g e s').1, (g e s').2)

/-- A computation on a part of the state, with its errors reworked. -/
def zoom {τ ε' : Type} (get : σ → τ) (set : τ → σ → σ) (g : ε' → ε) (m : Stateful τ ε' α) :
    Stateful σ ε α := fun s =>
  match m (get s) with
  | (.ok a, t) => (.ok a, set t s)
  | (.error e, t) => (.error (g e), set t s)

/-- The state after a run, whether it failed or not. -/
def exec (m : Stateful σ ε α) (s : σ) : σ := (m s).2

/-- The triple of a computation. -/
def Spec (P : σ → Prop) (m : Stateful σ ε α) (Q : α → σ → Prop) (E : σ → Prop) : Prop :=
  ∀ s, P s → match m s with
    | (.ok a, s') => Q a s'
    | (.error _, s') => E s'

namespace Spec

variable {P P' : σ → Prop} {Q Q' : α → σ → Prop} {R : β → σ → Prop} {E : σ → Prop}
  {m : Stateful σ ε α} {f : α → Stateful σ ε β}
variable {g : σ → α} {E' : σ → Prop} {p : Prop} {s : σ} {x : Except ε α} {a : α} {e : ε} {s' : σ}

theorem pure (h : ∀ s, P s → Q a s) : Spec P (Pure.pure a : Stateful σ ε α) Q E := h

theorem bind (hm : Spec P m Q E) (hf : ∀ a, Spec (Q a) (f a) R E) : Spec P (m >>= f) R E := by
  intro s hs
  have h := hm s hs
  simp only [Bind.bind]
  split at h
  · exact hf _ _ h
  · exact h

theorem gets (h : ∀ s, P s → Q (g s) s) : Spec P (gets g : Stateful σ ε α) Q E := h

/-- A read hands its continuation the state it was read from. -/
theorem gets_bind (hf : ∀ a, Spec (fun s => P s ∧ g s = a) (f a) R E) : Spec P (Stateful.gets g >>= f) R E :=
  fun s hs => hf (g s) s ⟨hs, rfl⟩

theorem modify {g : σ → σ} {Q : Unit → σ → Prop} (h : ∀ s, P s → Q () (g s)) :
    Spec P (modify g : Stateful σ ε Unit) Q E := h

theorem throw (h : ∀ s, P s → E s) : Spec P (throw e : Stateful σ ε α) Q E := h

theorem lift (hok : ∀ a, x = .ok a → ∀ s, P s → Q a s)
    (herror : ∀ s, P s → E s) : Spec P (lift x : Stateful σ ε α) Q E := by
  intro s hs
  cases x with
  | ok a => exact hok a rfl s hs
  | error e => exact herror s hs

theorem mapFailure {g : ε → σ → ε × σ} (h : Spec P m Q E) (hg : ∀ e s, E s → E' (g e s).2) :
    Spec P (m.mapFailure g) Q E' := by
  intro s hs
  have := h s hs
  unfold Stateful.mapFailure
  split at this
  · exact this
  · exact hg _ _ this

theorem ite [Decidable p] {m' : Stateful σ ε α} (ht : p → Spec P m Q E) (hf : ¬p → Spec P m' Q E) :
    Spec P (if p then m else m') Q E := by
  split
  · exact ht ‹_›
  · exact hf ‹_›

theorem when [Decidable p] {m : Stateful σ ε Unit} {Q : Unit → σ → Prop} (ht : p → Spec P m Q E)
    (hf : ¬p → ∀ s, P s → Q () s) : Spec P (when p m) Q E := ite ht fun hp => pure (hf hp)

theorem weaken (h : Spec P m Q E) (hP : ∀ s, P' s → P s) (hQ : ∀ a s, Q a s → Q' a s) : Spec P' m Q' E := by
  intro s hs
  have := h s (hP s hs)
  split at this
  · exact hQ _ _ this
  · exact this

/-- A fact that does not depend on the state. -/
theorem fact {φ : Prop} (h : φ → Spec P m Q E) : Spec (fun s => P s ∧ φ) m Q E :=
  fun s hs => h hs.2 s hs.1

/-- A fallible step hands its continuation the fact that it succeeded. -/
theorem lift_bind (herror : ∀ s, P s → E s)
    (hf : ∀ a, x = .ok a → Spec P (f a) R E) : Spec P (Stateful.lift x >>= f) R E :=
  .bind (Q := fun a s => P s ∧ x = .ok a) (.lift (fun _ ha _ hs => ⟨hs, ha⟩) herror) fun a => .fact (hf a)

/-- A check hands its continuation the fact that it passed. -/
theorem check_bind [Decidable p] {f : Unit → Stateful σ ε β} (herror : ∀ s, P s → E s)
    (hf : ¬p → Spec P (f ()) R E) : Spec P (Stateful.when p (Stateful.throw e) >>= f) R E :=
  .bind (Q := fun _ s => P s ∧ ¬p) (.when (fun _ => .throw herror) fun hp _ hs => ⟨hs, hp⟩) fun _ => .fact hf

/-- A triple is one for each state. -/
theorem pointwise (h : ∀ s, P s → Spec (· = s) m Q E) : Spec P m Q E := fun s hs => h s hs s rfl

theorem run_ok (h : Spec P m Q E) (hs : P s) (hrun : m s = (.ok a, s')) : Q a s' := by
  have := h s hs
  rw [hrun] at this
  exact this

theorem run_error (h : Spec P m Q E) (hs : P s) (hrun : m s = (.error e, s')) : E s' := by
  have := h s hs
  rw [hrun] at this
  exact this

/-- A read of a state that is known. -/
theorem gets_at (hf : Spec (· = s) (f (g s)) R E) : Spec (· = s) (Stateful.gets g >>= f) R E := by
  rintro t rfl
  exact hf t rfl

/-- A write to a state that is known. -/
theorem modify_at {g : σ → σ} {f : Unit → Stateful σ ε β} (hf : Spec (· = g s) (f ()) R E) :
    Spec (· = s) (Stateful.modify g >>= f) R E := by
  rintro t rfl
  exact hf _ rfl

/-- A step that is not taken. -/
theorem skip_bind [Decidable p] {m : Stateful σ ε Unit} {f : Unit → Stateful σ ε β} (hp : ¬p)
    (hf : Spec P (f ()) R E) : Spec P (Stateful.when p m >>= f) R E :=
  .bind (.when (fun h => absurd h hp) fun _ _ hs => hs) fun _ => hf

/-- A fallible step that is known to succeed. -/
theorem lift_ok_bind (hf : Spec P (f a) R E) : Spec P (Stateful.lift (.ok a) >>= f) R E := hf

/-- A computation that cannot fail succeeds. -/
theorem total (h : Spec P m Q fun _ => False) (hs : P s) : ∃ a s', m s = (.ok a, s') ∧ Q a s' := by
  have hm := h s hs
  generalize m s = run at hm
  obtain ⟨result, s'⟩ := run
  cases result with
  | ok a => exact ⟨a, s', rfl, hm⟩
  | error e => exact hm.elim

/-- A failure may be described more loosely. -/
theorem loosen (h : Spec P m Q E) (hE : ∀ s, E s → E' s) : Spec P m Q E' := by
  intro s hs
  have := h s hs
  split at this
  · exact this
  · exact hE _ this

theorem zoom {τ ε' : Type} {get : σ → τ} {set : τ → σ → σ} {g : ε' → ε} {n : Stateful τ ε' α}
    (h : ∀ s, P s → Spec (· = get s) n (fun a t => Q a (set t s)) fun t => E (set t s)) :
    Spec P (Stateful.zoom get set g n) Q E := by
  intro s hs
  have := h s hs (get s) rfl
  unfold Stateful.zoom
  generalize n (get s) = run at this
  obtain ⟨result, t⟩ := run
  cases result with
  | ok a => exact this
  | error e => exact this

/-- What holds after success and after failure holds after the run. -/
theorem exec (h : Spec P m (fun _ => E) E) (hs : P s) : E (m.exec s) := by
  have := h s hs
  unfold Stateful.exec
  split at this <;> simp_all

end Spec

end Stateful
