import Mathlib.Tactic.IntervalCases
import StrataStorage.Table.Key

/-!
# Bloom filters of physical keys

`TableBloomFilter` of `table/cache.rs`: a bit table with `probes` FNV-1a hashes
per key. Inserting keys sets the bits of each of them (`foldl_insertKey`), so no
key a filter was built from is reported absent (`mightContain_of_build`): a point
lookup may skip a table on a negative probe.
-/

namespace Strata

open Except List

inductive TableBloomProbe where
  | definitelyAbsent
  | maybePresent
  | unavailable
  deriving DecidableEq

structure TableBloomFilter where
  bits : List UInt8
  bitCount : Nat
  probes : Nat
  keyCount : Nat
  deriving DecidableEq

def maxBloomBytes : Nat := 16 * 1024 * 1024

def maxBloomProbes : Nat := 30

def fnv1a64 (bytes : Bytes) (seed : UInt64) : UInt64 :=
  bytes.foldl (fun hash byte => (hash ^^^ byte.toUInt64) * 0x100000001b3) seed

def bloomBit (key : Bytes) (probe bitCount : Nat) : Nat :=
  let mixed := fnv1a64 key (0xcbf29ce484222325 ^^^ UInt64.ofNat probe) + UInt64.ofNat probe * 0x9e3779b97f4a7c15
  mixed.toNat % bitCount

def optimalProbeCount (bitsPerKey : Nat) : Nat :=
  max 1 (min ((bitsPerKey * 693 + 999) / 1000) maxBloomProbes)

/-- `1 << (bit % 8)`, in the byte of a bit. -/
def bitMask (bit : Nat) : UInt8 := 1 <<< UInt8.ofNat (bit % 8)

namespace TableBloomFilter

variable {bits : List UInt8} {keys : List Bytes} {bitsPerKey : Nat} {b : Nat} {filter : TableBloomFilter}

/-- Whether bit `bit` is set. -/
def bitSet (bits : List UInt8) (bit : Nat) : Bool := bits.getD (bit / 8) 0 &&& bitMask bit != 0

/-- `bits[bit / 8] |= 1 << (bit % 8)`. -/
def setBit (bits : List UInt8) (bit : Nat) : List UInt8 :=
  bits.set (bit / 8) (bits.getD (bit / 8) 0 ||| bitMask bit)

/-- The bits a key is hashed to. -/
def probeBits (probes bitCount : Nat) (key : Bytes) : List Nat :=
  (List.range probes).map (bloomBit key · bitCount)

def insertKey (filter : TableBloomFilter) (key : Bytes) : TableBloomFilter :=
  { filter with bits := (probeBits filter.probes filter.bitCount key).foldl setBit filter.bits }

/-- `TableBloomFilter::build`. The product of the source is checked against the
word size; here it is exact, and the byte limit refuses it far below that. -/
def build (keys : List Bytes) (bitsPerKey : Nat) : Except TableRuntimeError TableBloomFilter :=
  if bitsPerKey = 0 then .error (.invalidConfig "bits_per_key" "must be nonzero")
  else if keys = [] then .ok ⟨[], 0, 1, 0⟩
  else
    let bitCount := max (keys.length * bitsPerKey) 8
    let byteCount := (bitCount + 7) / 8
    if byteCount > maxBloomBytes then .error (.invalidRange "bloom_bytes")
    else .ok (keys.foldl insertKey
      ⟨List.replicate byteCount 0, bitCount, optimalProbeCount bitsPerKey, keys.length⟩)

def mightContain (filter : TableBloomFilter) (key : Bytes) : TableBloomProbe :=
  if filter.keyCount = 0 then .definitelyAbsent
  else if filter.bits = [] ∨ filter.bitCount = 0 ∨ filter.probes = 0 then .unavailable
  else if (probeBits filter.probes filter.bitCount key).all (bitSet filter.bits) then .maybePresent
  else .definitelyAbsent

/-! ## Bits stay set -/

theorem or_and_ne_zero_left {x m n : UInt8} (h : x &&& n ≠ 0) : (x ||| m) &&& n ≠ 0 := by
  intro h0
  apply h
  have hand : (x &&& n) ||| (m &&& n) = 0 := by
    rw [← h0, ← UInt8.toBitVec_inj]
    simp [BitVec.and_or_distrib_right]
  exact (UInt8.or_eq_zero_iff.mp hand).1

@[simp] theorem length_setBit (bits : List UInt8) (bit : Nat) :
    (setBit bits bit).length = bits.length := length_set

theorem bitMask_ne_zero (bit : Nat) : bitMask bit ≠ 0 := by
  have h : bit % 8 < 8 := Nat.mod_lt _ (by decide)
  unfold bitMask
  interval_cases bit % 8 <;> decide

theorem bitSet_setBit_of_bitSet (h : bitSet bits b = true) (bit : Nat) : bitSet (setBit bits bit) b = true := by
  simp only [bitSet, setBit, bne_iff_ne, ne_eq] at h ⊢
  by_cases heq : bit / 8 = b / 8
  · by_cases hlen : b / 8 < bits.length
    · rw [getD_eq_getElem?_getD, heq, getElem?_set_self hlen]
      exact or_and_ne_zero_left h
    · rw [set_eq_of_length_le (by omega)]
      exact h
  · rw [getD_eq_getElem?_getD, getElem?_set_ne heq, ← getD_eq_getElem?_getD]
    exact h

theorem bitSet_setBit_self {bit : Nat} (h : bit / 8 < bits.length) : bitSet (setBit bits bit) bit = true := by
  simp only [bitSet, setBit, bne_iff_ne, ne_eq]
  rw [getD_eq_getElem?_getD, getElem?_set_self h, Option.getD_some, UInt8.or_comm]
  exact or_and_ne_zero_left (by simpa using bitMask_ne_zero bit)

/-- Setting a list of bits keeps the set ones and sets the listed ones. -/
theorem bitSet_foldl_setBit {l : List Nat} (h : bitSet bits b = true ∨ b ∈ l ∧ b / 8 < bits.length) :
    bitSet (l.foldl setBit bits) b = true := by
  induction l generalizing bits with
  | nil => simpa using h
  | cons bit l ih =>
    refine ih ?_
    rcases h with h | ⟨hb, hlen⟩
    · exact .inl (bitSet_setBit_of_bitSet h bit)
    · rcases mem_cons.mp hb with rfl | hb
      · exact .inl (bitSet_setBit_self hlen)
      · exact .inr ⟨hb, by simpa using hlen⟩

@[simp] theorem length_foldl_setBit (l : List Nat) (bits : List UInt8) :
    (l.foldl setBit bits).length = bits.length := by
  induction l generalizing bits with
  | nil => rfl
  | cons bit l ih => rw [foldl_cons, ih, length_setBit]

/-- What inserting keys keeps of a filter: its shape, and the bits of every
inserted key. -/
theorem foldl_insertKey (keys : List Bytes) (filter : TableBloomFilter)
    (hlen : filter.bitCount ≤ 8 * filter.bits.length) (hpos : 0 < filter.bitCount) :
    (keys.foldl insertKey filter).bitCount = filter.bitCount ∧
    (keys.foldl insertKey filter).probes = filter.probes ∧
    (keys.foldl insertKey filter).keyCount = filter.keyCount ∧
    ∀ b, (bitSet filter.bits b = true ∨ ∃ key ∈ keys, b ∈ probeBits filter.probes filter.bitCount key) →
      bitSet (keys.foldl insertKey filter).bits b = true := by
  induction keys generalizing filter with
  | nil => simp
  | cons key keys ih =>
    obtain ⟨h₁, h₂, h₃, h₄⟩ := ih (filter.insertKey key) (by simpa [insertKey] using hlen) hpos
    refine ⟨h₁, h₂, h₃, fun b hb => h₄ b ?_⟩
    rcases hb with hb | ⟨k, hk, hb⟩
    · exact .inl (bitSet_foldl_setBit (.inl hb))
    · rcases mem_cons.mp hk with rfl | hk
      · refine .inl (bitSet_foldl_setBit (.inr ⟨hb, ?_⟩))
        -- a probed bit is below the bit count, so its byte is in the table
        obtain ⟨probe, -, rfl⟩ := mem_map.mp hb
        have : bloomBit k probe filter.bitCount < filter.bitCount := Nat.mod_lt _ hpos
        omega
      · exact .inr ⟨k, hk, hb⟩

/-- The bytes of the filter of `count` keys. -/
def filterBytes (count bitsPerKey : Nat) : Nat := (max (count * bitsPerKey) 8 + 7) / 8

/-- A filter is built unless it would be too large. -/
theorem build_isOk (hbits : bitsPerKey ≠ 0) (hne : keys ≠ []) : (∃ filter, build keys bitsPerKey = .ok filter) ↔
      filterBytes keys.length bitsPerKey ≤ maxBloomBytes := by
  simp only [build, hbits, hne, ↓reduceIte, gt_iff_lt]
  split_ifs with h
  · simp only [exists_false, false_iff, not_le]
    exact h
  · simp only [ok.injEq, exists_eq', true_iff]
    exact not_lt.mp h

theorem length_bits_foldl_insertKey (keys : List Bytes) (filter : TableBloomFilter) :
    (keys.foldl insertKey filter).bits.length = filter.bits.length := by
  induction keys generalizing filter with
  | nil => rfl
  | cons key keys ih => rw [foldl_cons, ih, insertKey, length_foldl_setBit]

/-- What is known of a filter that was built. -/
structure Built (keys : List Bytes) (bitsPerKey : Nat) (filter : TableBloomFilter) : Prop where
  keyCount_eq : filter.keyCount = keys.length
  probes_eq : filter.probes = optimalProbeCount bitsPerKey
  bitCount_eq : filter.bitCount = max (keys.length * bitsPerKey) 8
  length_bits : filter.bits.length = filterBytes keys.length bitsPerKey
  length_le : filterBytes keys.length bitsPerKey ≤ maxBloomBytes
  bits_set : ∀ key ∈ keys, ∀ b ∈ probeBits filter.probes filter.bitCount key, bitSet filter.bits b = true

theorem built_of_build (hne : keys ≠ []) (h : build keys bitsPerKey = .ok filter) :
    Built keys bitsPerKey filter := by
  simp only [build, hne, ↓reduceIte] at h
  split at h
  · cases h
  split at h
  · cases h
  · rename_i hbytes
    cases h
    obtain ⟨h₁, h₂, h₃, h₄⟩ := foldl_insertKey keys ⟨replicate (filterBytes keys.length bitsPerKey) 0,
        max (keys.length * bitsPerKey) 8, optimalProbeCount bitsPerKey, keys.length⟩
      (by simp only [length_replicate, filterBytes]; omega) (by simp only; omega)
    refine ⟨h₃, h₂, h₁, ?_, not_lt.mp hbytes, fun key hkey b hb => h₄ b (.inr ⟨key, hkey, ?_⟩)⟩
    · rw [length_bits_foldl_insertKey, length_replicate, filterBytes]
    · rwa [← h₁, ← h₂]

theorem build_shape (hne : keys ≠ []) (h : build keys bitsPerKey = .ok filter) :
    filter.probes ≤ maxBloomProbes ∧ filter.bits.length ≤ maxBloomBytes ∧
      filter.bits.length = (filter.bitCount + 7) / 8 := by
  have hbuilt := built_of_build hne h
  refine ⟨?_, hbuilt.length_bits.trans_le hbuilt.length_le, ?_⟩
  · rw [hbuilt.probes_eq, optimalProbeCount]
    simp only [maxBloomProbes]
    omega
  · rw [hbuilt.length_bits, hbuilt.bitCount_eq, filterBytes]

/-- A filter never reports a key absent that it was built from. -/
theorem mightContain_of_build (h : build keys bitsPerKey = .ok filter) {key : Bytes} (hkey : key ∈ keys) :
    filter.mightContain key ≠ .definitelyAbsent := by
  have hne := ne_nil_of_mem hkey
  have hbuilt := built_of_build hne h
  have hcount : filter.keyCount ≠ 0 := by
    rw [hbuilt.keyCount_eq]
    exact length_pos_iff.mpr hne |>.ne'
  have hall : (probeBits filter.probes filter.bitCount key).all (bitSet filter.bits) = true :=
    all_eq_true.mpr (hbuilt.bits_set key hkey)
  rw [mightContain, if_neg hcount, if_pos hall]
  split <;> nofun

/-- `TableBloomFilter::from_frame_parts`: a filter from the parts a frame stores. -/
def fromFrameParts (probes keyCount bitCount : Nat) (bits : List UInt8) :
    Except TableRuntimeError TableBloomFilter := do
  .require (probes ≤ maxBloomProbes) (.invalidRange "bloom_probes")
  .require (bits.length ≤ maxBloomBytes) (.invalidRange "bloom_bytes")
  .require (bits.length = (bitCount + 7) / 8) (.invalidRange "bloom_bits")
  .ok ⟨bits, bitCount, probes, keyCount⟩

/-- The parts of a built filter make that filter again. -/
theorem fromFrameParts_of_build (hne : keys ≠ []) (h : build keys bitsPerKey = .ok filter) :
    fromFrameParts filter.probes filter.keyCount filter.bitCount filter.bits = .ok filter := by
  obtain ⟨hprobes, hbytes, hbits⟩ := build_shape hne h
  simp [fromFrameParts, require, hprobes, hbytes, ← hbits]

end TableBloomFilter

end Strata
