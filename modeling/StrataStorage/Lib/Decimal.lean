import Mathlib.Data.Nat.Digits.Lemmas

/-!
# Digits

The ASCII digits of a number (`decimalDigits`) and the number that digits stand for
(`decimal`, `hexValue`).
-/

open List

def isDigit (byte : UInt8) : Bool := 0x30 ≤ byte && byte ≤ 0x39

def hexValue (byte : UInt8) : Option Nat :=
  if isDigit byte then some (byte.toNat - 0x30)
  else if 0x61 ≤ byte ∧ byte ≤ 0x66 then some (byte.toNat - 0x57)
  else if 0x41 ≤ byte ∧ byte ≤ 0x46 then some (byte.toNat - 0x37)
  else none

/-- The number that decimal digits stand for. -/
def decimal (digits : List UInt8) : Nat := digits.foldl (fun n digit => 10 * n + (digit.toNat - 0x30)) 0

/-- The digits of a number, without a zero in front of others. -/
def decimalDigits (n : Nat) : List UInt8 :=
  if n = 0 then [0x30] else (Nat.digits 10 n).reverse.map fun digit => .ofNat (0x30 + digit)

theorem toNat_digit {digit : Nat} (h : digit < 10) : (UInt8.ofNat (0x30 + digit)).toNat = 0x30 + digit :=
  UInt8.toNat_ofNat_of_lt' (show 0x30 + digit < 256 by omega)

theorem decimal_decimalDigits (n : Nat) : decimal (decimalDigits n) = n := by
  unfold decimal decimalDigits
  split
  next h => rw [h]; rfl
  next =>
    have hdigits : ∀ l : List Nat, (∀ digit ∈ l, digit < 10) → l.foldr (fun digit n => 10 * n +
        ((UInt8.ofNat (0x30 + digit)).toNat - 0x30)) 0 = Nat.ofDigits 10 l := by
      intro l hl
      induction l with
      | nil => rfl
      | cons digit l ih =>
        obtain ⟨hdigit, hl⟩ := forall_mem_cons.mp hl
        rw [foldr_cons, ih hl, toNat_digit hdigit, Nat.ofDigits_cons]
        omega
    rw [foldl_map, foldl_reverse, hdigits _ fun digit h => Nat.digits_lt_base (by decide) h, Nat.ofDigits_digits]

theorem isDigit_of_mem_decimalDigits {n : Nat} {byte : UInt8} (h : byte ∈ decimalDigits n) : isDigit byte := by
  unfold decimalDigits at h
  split at h
  · rw [mem_singleton.mp h]
    decide
  · obtain ⟨digit, hdigit, rfl⟩ := mem_map.mp h
    have hlt : digit < 10 := Nat.digits_lt_base (by decide) (mem_reverse.mp hdigit)
    have hnat := toNat_digit hlt
    simp only [isDigit, Bool.and_eq_true, decide_eq_true_eq, UInt8.le_iff_toNat_le, hnat]
    exact ⟨Nat.le_add_right _ _, show 0x30 + digit ≤ 0x39 by omega⟩

theorem decimalDigits_ne_nil (n : Nat) : decimalDigits n ≠ [] := by
  unfold decimalDigits
  split
  · simp
  · simpa using Nat.digits_ne_nil_iff_ne_zero.mpr ‹_›
