import Mathlib.Data.Prod.Lex
import Mathlib.Data.List.Lex
import Mathlib.Tactic.Ring
import Mathlib.Tactic.Linarith

/-!
# Order-preserving codes

A code maps the values of a linear order to words over a linearly ordered
alphabet. It is an *order code* (`OrderCode`) when the words of two different
values already compare, lexicographically, as the values do, whatever is
appended to them. That one property makes the code injective
(`OrderCode.encode_injective`), prefix free (`OrderCode.encode_prefix_iff`) and
order preserving (`OrderCode.encode_lt_encode`), and it is closed under
concatenation (`OrderCode.prod`), so a record is encoded in order by writing
its fields one after the other.

The codes given here are words of one fixed length (`OrderCode.fixed`), words
ended by a letter below all of theirs (`OrderCode.terminated`), single letters
(`OrderCode.letter`), and fixed-width big-endian numbers (`beBytes`,
`beBytes_lt`).
-/

instance UInt8.linearOrder : LinearOrder UInt8 where
  le_refl := UInt8.le_refl
  le_trans _ _ _ := UInt8.le_trans
  lt_iff_le_not_ge a b := by grind
  le_antisymm a b := UInt8.le_antisymm
  le_total := UInt8.le_total
  toDecidableLE := inferInstance
  toDecidableLT := inferInstance
  toDecidableEq := inferInstance
  min_def _ _ := rfl
  max_def _ _ := rfl
  compare_eq_compareOfLessAndEq _ _ := rfl

instance UInt8.lawfulBEq : LawfulBEq UInt8 := inferInstance

instance UInt8.lawfulBEqList : LawfulBEq (List UInt8) := inferInstance

instance UInt64.linearOrder : LinearOrder UInt64 where
  le_refl := UInt64.le_refl
  le_trans _ _ _ := UInt64.le_trans
  lt_iff_le_not_ge a b := by grind
  le_antisymm a b := UInt64.le_antisymm
  le_total := UInt64.le_total
  toDecidableLE := inferInstance
  toDecidableLT := inferInstance
  toDecidableEq := inferInstance
  min_def _ _ := rfl
  max_def _ _ := rfl
  compare_eq_compareOfLessAndEq _ _ := rfl

variable {α β γ : Type*} [LinearOrder α] [LinearOrder β] [LinearOrder γ] {s t : List γ}
  (bs : List UInt8) {n x : Nat}

/-! ## Lexicographic order and appending -/

theorem List.append_lt_append_left_iff (l : List γ) : l ++ s < l ++ t ↔ s < t := by
  induction l with
  | nil => rfl
  | cons x l ih => simp [cons_append, ih]

/-- Words of one length already differ where they are compared. -/
theorem List.append_lt_append_of_length_eq {l m : List γ} (hlen : l.length = m.length) (h : l < m)
    (s t : List γ) : l ++ s < m ++ t := by
  induction l generalizing m with
  | nil =>
    cases m with
    | nil => exact absurd h (lt_irrefl _)
    | cons y m => simp at hlen
  | cons x l ih =>
    cases m with
    | nil => simp at hlen
    | cons y m =>
      simp only [length_cons, Nat.add_right_cancel_iff] at hlen
      rw [cons_lt_cons_iff] at h
      rw [cons_append, cons_append, cons_lt_cons_iff]
      exact h.imp_right fun h => ⟨h.1, ih hlen h.2⟩

/-! ## Initial parts

The words that begin with `p` are an interval, which starts at `p` and which a word that is
greater than `p` without beginning with it has left. -/

theorem List.le_of_isPrefix {p l : List γ} (h : p <+: l) : p ≤ l := by
  obtain ⟨s, rfl⟩ := h
  refine not_lt.mp ?_
  induction p with
  | nil => exact not_lt_nil s
  | cons x p ih => simpa [cons_lt_cons_iff] using ih

/-- A word that has left the words beginning with `p` stays behind them. -/
theorem List.lt_of_not_isPrefix {p a b : List γ} (hlt : p < a) (hnot : ¬ p <+: a) (hb : p <+: b) : b < a := by
  obtain ⟨s, rfl⟩ := hb
  induction p generalizing a with
  | nil => exact absurd nil_prefix hnot
  | cons x p ih =>
    cases a with
    | nil => exact absurd hlt (by simp)
    | cons y a =>
      rw [cons_append, cons_lt_cons_iff]
      rcases cons_lt_cons_iff.mp hlt with h | ⟨rfl, h⟩
      · exact .inl h
      · refine .inr ⟨rfl, ih h fun hp => hnot ?_⟩
        exact cons_prefix_cons.mpr ⟨rfl, hp⟩

/-! ## Order codes -/

/-- A code whose words of different values compare as the values do,
whatever follows them. -/
structure OrderCode (α γ : Type*) [LinearOrder α] [LinearOrder γ] where
  encode : α → List γ
  separates : ∀ {a b : α}, a < b → ∀ s t : List γ, encode a ++ s < encode b ++ t

namespace OrderCode

variable {a b : α} (c : OrderCode α γ)

/-- A code word followed by anything compares by the value first. -/
theorem append_lt_append : c.encode a ++ s < c.encode b ++ t ↔ a < b ∨ a = b ∧ s < t := by
  rcases lt_trichotomy a b with h | rfl | h
  · simp [h, c.separates h s t]
  · simp [List.append_lt_append_left_iff]
  · simp [not_lt_of_gt h, h.ne', not_lt_of_gt (c.separates h t s)]

/-- A code word can be told from what follows it. -/
theorem append_inj : c.encode a ++ s = c.encode b ++ t ↔ a = b ∧ s = t := by
  constructor
  · intro h
    rcases lt_trichotomy a b with hlt | rfl | hlt
    · exact absurd h (c.separates hlt s t).ne
    · exact ⟨rfl, List.append_cancel_left h⟩
    · exact absurd h.symm (c.separates hlt t s).ne
  · rintro ⟨rfl, rfl⟩; rfl

theorem encode_injective : Function.Injective c.encode := fun a b h =>
  (c.append_inj (s := []) (t := []) |>.mp (by simpa using h)).1

theorem encode_lt_encode : c.encode a < c.encode b ↔ a < b := by
  simpa using c.append_lt_append (a := a) (b := b) (s := []) (t := [])

/-- No word of the code is a proper initial part of another. -/
theorem encode_prefix_iff : c.encode a <+: c.encode b ↔ a = b := by
  constructor
  · rintro ⟨s, h⟩
    exact (c.append_inj (s := s) (t := []) |>.mp (by simpa using h)).1
  · rintro rfl; exact List.prefix_rfl

/-- A code word and a word that begins something: the value is the same, and
what follows begins what follows. -/
theorem append_isPrefix_append : c.encode a ++ s <+: c.encode b ++ t ↔ a = b ∧ s <+: t := by
  constructor
  · rintro ⟨r, h⟩
    rw [List.append_assoc, c.append_inj] at h
    exact ⟨h.1, r, h.2⟩
  · rintro ⟨rfl, r, rfl⟩
    exact ⟨r, List.append_assoc ..⟩

/-- The code of a pair: the words of its parts in turn. -/
def prod (c : OrderCode α γ) (d : OrderCode β γ) : OrderCode (α ×ₗ β) γ where
  encode p := c.encode (ofLex p).1 ++ d.encode (ofLex p).2
  separates {a b} h s t := by
    rw [List.append_assoc, List.append_assoc, c.append_lt_append]
    rcases Prod.Lex.lt_iff.mp h with h | ⟨h₁, h₂⟩
    · exact .inl h
    · exact .inr ⟨h₁, d.separates h₂ s t⟩

/-- Words of length `n`, as they stand. -/
def fixed (γ : Type*) [LinearOrder γ] (n : Nat) : OrderCode {l : List γ // l.length = n} γ where
  encode l := l.1
  separates {a b} h := List.append_lt_append_of_length_eq (a.2.trans b.2.symm) h

/-- One letter. -/
def letter (γ : Type*) [LinearOrder γ] : OrderCode γ γ where
  encode x := [x]
  separates h s t := by simp [List.cons_lt_cons_iff, h]

/-- Words over the letters above `z`, ended by `z`. -/
def terminated (z : γ) : OrderCode {l : List γ // ∀ x ∈ l, z < x} γ where
  encode l := l.1 ++ [z]
  separates := by
    rintro ⟨l, hl⟩ ⟨m, hm⟩ h s t
    replace h : l < m := h
    simp only [List.append_assoc, List.singleton_append]
    induction l generalizing m with
    | nil =>
      cases m with
      | nil => exact absurd h (lt_irrefl _)
      | cons y m => simpa [List.cons_lt_cons_iff] using .inl (hm y (by simp))
    | cons x l ih =>
      cases m with
      | nil => exact absurd h (by simp)
      | cons y m =>
        rw [List.cons_lt_cons_iff] at h
        rw [List.cons_append, List.cons_append, List.cons_lt_cons_iff]
        refine h.imp_right fun h => ⟨h.1, ?_⟩
        exact ih (fun x hx => hl x (List.mem_cons_of_mem _ hx)) m
          (fun x hx => hm x (List.mem_cons_of_mem _ hx)) h.2

end OrderCode

/-! ## Big-endian numbers -/

/-- The `n` lowest base-256 digits of `x`, most significant first. -/
def beBytes : Nat → Nat → List UInt8
  | 0, _ => []
  | n + 1, x => UInt8.ofNat (x / 256 ^ n) :: beBytes n (x % 256 ^ n)

/-- The number a big-endian byte string denotes. -/
def ofBeBytes : List UInt8 → Nat
  | [] => 0
  | b :: bs => b.toNat * 256 ^ bs.length + ofBeBytes bs

@[simp] theorem length_beBytes (n x : Nat) : (beBytes n x).length = n := by
  induction n generalizing x with
  | zero => rfl
  | succ n ih => simp [beBytes, ih]

theorem ofBeBytes_lt : ofBeBytes bs < 256 ^ bs.length := by
  induction bs with
  | nil => simp [ofBeBytes]
  | cons b bs ih =>
    have hb : b.toNat + 1 ≤ 256 := b.toNat_lt
    calc ofBeBytes (b :: bs) < b.toNat * 256 ^ bs.length + 256 ^ bs.length := by
          simpa [ofBeBytes] using ih
      _ = (b.toNat + 1) * 256 ^ bs.length := by ring
      _ ≤ 256 * 256 ^ bs.length := Nat.mul_le_mul_right _ hb
      _ = 256 ^ (b :: bs).length := by rw [List.length_cons, pow_succ, mul_comm]

/-- The digit in front, of a number that fits. -/
theorem div_pow_lt (h : x < 256 ^ (n + 1)) : x / 256 ^ n < 256 := by
  rw [Nat.div_lt_iff_lt_mul (by positivity), mul_comm, ← pow_succ]; exact h

theorem ofBeBytes_beBytes (h : x < 256 ^ n) : ofBeBytes (beBytes n x) = x := by
  induction n generalizing x with
  | zero => exact (Nat.lt_one_iff.mp h).symm
  | succ n ih =>
    have hd : (UInt8.ofNat (x / 256 ^ n)).toNat = x / 256 ^ n := by
      simpa using Nat.mod_eq_of_lt (div_pow_lt h)
    rw [beBytes, ofBeBytes, hd, length_beBytes, ih (Nat.mod_lt _ (by positivity))]
    exact Nat.div_add_mod' x _

theorem beBytes_ofBeBytes : beBytes bs.length (ofBeBytes bs) = bs := by
  induction bs with
  | nil => rfl
  | cons b bs ih =>
    have hlt := ofBeBytes_lt bs
    have hpos : 0 < 256 ^ bs.length := by positivity
    have hdiv : (b.toNat * 256 ^ bs.length + ofBeBytes bs) / 256 ^ bs.length = b.toNat := by
      rw [mul_comm, Nat.mul_add_div hpos, Nat.div_eq_of_lt hlt, add_zero]
    have hmod : (b.toNat * 256 ^ bs.length + ofBeBytes bs) % 256 ^ bs.length = ofBeBytes bs := by
      rw [mul_comm, Nat.mul_add_mod, Nat.mod_eq_of_lt hlt]
    simp only [List.length_cons, beBytes, ofBeBytes, hdiv, hmod, ih]
    simp

/-- Big-endian numbers of one width compare as their values do. -/
theorem beBytes_lt {n x y : Nat} (hy : y < 256 ^ n) (h : x < y) : beBytes n x < beBytes n y := by
  induction n generalizing x y with
  | zero => omega
  | succ n ih =>
    have hp : 0 < 256 ^ n := by positivity
    have hx : x / 256 ^ n < 256 := div_pow_lt (h.trans hy)
    have hy' : y / 256 ^ n < 256 := div_pow_lt hy
    rw [beBytes, beBytes, List.cons_lt_cons_iff]
    rcases (Nat.div_le_div_right h.le : x / 256 ^ n ≤ y / 256 ^ n).lt_or_eq with hlt | heq
    · left
      rw [UInt8.lt_iff_toNat_lt]
      simpa [Nat.mod_eq_of_lt hx, Nat.mod_eq_of_lt hy'] using hlt
    · refine .inr ⟨by rw [heq], ih (Nat.mod_lt _ hp) ?_⟩
      have ex := Nat.div_add_mod x (256 ^ n)
      have ey := Nat.div_add_mod y (256 ^ n)
      rw [heq] at ex
      omega
