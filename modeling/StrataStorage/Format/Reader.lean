import StrataStorage.Row
import StrataStorage.Lib.Result

/-!
# Byte reader and format errors

`FormatError`, little-endian numbers and the cursor-based `ByteReader` of
`format/mod.rs`, with one specification lemma per read: reading `n` bytes
succeeds exactly when `n` bytes are left, and returns them
(`ByteReader.readExact_eq_ok`). A decoder that reads field after field is peeled
apart with the `mid_` lemmas, which say what a read finds in front of a reader
that has passed `done` and has `rest` left (`ByteReader.mid`).
-/

namespace Strata

open Except List

variable {n : Nat} {a b : Bytes} {i j : Nat}

inductive FormatError where
  | insufficientBytes (format : String) (needed actual : Nat)
  | invalidEscape (field : String)
  | missingTerminator (field : String)
  | invalidUtf8 (field : String)
  | invalidLength (field : String)
  | invalidValue (field : String)
  | invalidMagic (format : String)
  | invalidVersion (format : String) (version : UInt8)
  | preV1Format (format : String) (version : Nat)
  | futureFormat (format : String) (version maxSupported : Nat)
  | invalidBool (field : String) (value : UInt8)
  | checksumMismatch (format : String) (expected computed : Nat)
  | unsupportedFlags (format : String) (flags : Nat)
  | unsupportedCompression (format : String) (codec : UInt8)
  | compressionFailed (format : String)
  | decompressionFailed (format : String)
  | invalidTombstonePayload (field : String)
  | invalidStorageSpaceId (raw : UInt8)
  | storageReservedSpaceId (raw : UInt8)
  | invalidSpace (reason : String)
  | trailingData (format : String) (remaining : Nat)
  deriving DecidableEq

/-! ## Little-endian numbers -/

/-- The `n` low bytes of a number, little endian. -/
def leBytes (n x : Nat) : Bytes := (beBytes n x).reverse

/-- The number little-endian bytes stand for. -/
def ofLeBytes (bytes : Bytes) : Nat := ofBeBytes bytes.reverse

@[simp] theorem length_leBytes (n x : Nat) : (leBytes n x).length = n := by simp [leBytes]

theorem ofLeBytes_leBytes {x : Nat} (h : x < 256 ^ n) : ofLeBytes (leBytes n x) = x := by
  rw [ofLeBytes, leBytes, reverse_reverse, ofBeBytes_beBytes h]

theorem leBytes_ofLeBytes (bytes : Bytes) : leBytes bytes.length (ofLeBytes bytes) = bytes := by
  have h := beBytes_ofBeBytes bytes.reverse
  rw [length_reverse] at h
  rw [leBytes, ofLeBytes, h, reverse_reverse]

theorem ofLeBytes_lt (bytes : Bytes) : ofLeBytes bytes < 256 ^ bytes.length := by
  simpa [ofLeBytes] using ofBeBytes_lt bytes.reverse

theorem UInt32.toNat_lt_pow (x : UInt32) : x.toNat < 256 ^ 4 := x.toNat_lt

/-- `u32::try_from`, with the error every caller maps a failure to. -/
def toU32 (n : Nat) (field : String) : Except FormatError Nat :=
  if n < 2 ^ 32 then .ok n else .error (.invalidLength field)

theorem toU32_eq_ok {m : Nat} {field : String} : toU32 n field = .ok m ↔ n < 2 ^ 32 ∧ m = n := by
  unfold toU32
  split <;> simp_all [eq_comm]

/-- Bytes behind their length (`append_len_prefixed`). -/
def lenPrefixed (payload : Bytes) : Bytes := leBytes 4 payload.length ++ payload

@[simp] theorem length_lenPrefixed (payload : Bytes) : (lenPrefixed payload).length = 4 + payload.length := by
  simp [lenPrefixed]

/-! ## The reader -/

/-- A reader over `bytes`; `cursor` is the offset of the next unread byte. -/
structure ByteReader where
  format : String
  bytes : Bytes
  cursor : Nat

namespace ByteReader

variable {β : Type} {b : β} {k : Nat × ByteReader → Except FormatError β} {r r' : ByteReader}
  {n : Nat} (format : String) {out : Bytes}

def new (format : String) (bytes : Bytes) : ByteReader := ⟨format, bytes, 0⟩

/-- The bytes not yet read. -/
def rest (reader : ByteReader) : Bytes := reader.bytes.drop reader.cursor

def remaining (reader : ByteReader) : Nat := reader.bytes.length - reader.cursor

/-- The reader after `len` more bytes. -/
def advance (reader : ByteReader) (len : Nat) : ByteReader :=
  { reader with cursor := reader.cursor + len }

/-- `ByteReader::read_exact`. Offsets of a byte slice stay far below the word
size, so the checked addition of the source is an addition here. -/
def readExact (reader : ByteReader) (len : Nat) : Except FormatError (Bytes × ByteReader) :=
  let stop := reader.cursor + len
  if stop > reader.bytes.length then
    .error (.insufficientBytes reader.format stop reader.bytes.length)
  else .ok ((reader.bytes.drop reader.cursor).take len, reader.advance len)

def readU8 (reader : ByteReader) : Except FormatError (UInt8 × ByteReader) := do
  let (bytes, reader) ← reader.readExact 1
  .ok (bytes.headD 0, reader)

/-- The reads of fixed-width little-endian numbers. -/
def readLe (reader : ByteReader) (width : Nat) : Except FormatError (Nat × ByteReader) := do
  let (bytes, reader) ← reader.readExact width
  .ok (ofLeBytes bytes, reader)

def readU16Le (reader : ByteReader) : Except FormatError (Nat × ByteReader) := reader.readLe 2

def readU32Le (reader : ByteReader) : Except FormatError (Nat × ByteReader) := reader.readLe 4

def readU64Le (reader : ByteReader) : Except FormatError (UInt64 × ByteReader) := do
  let (x, reader) ← reader.readLe 8
  .ok (UInt64.ofNat x, reader)

def finish (reader : ByteReader) : Except FormatError Unit :=
  if reader.remaining = 0 then .ok () else .error (.trailingData reader.format reader.remaining)

@[simp] theorem new_rest (bytes : Bytes) : (new format bytes).rest = bytes := rfl
@[simp] theorem new_cursor (bytes : Bytes) : (new format bytes).cursor = 0 := rfl
@[simp] theorem new_bytes (bytes : Bytes) : (new format bytes).bytes = bytes := rfl
@[simp] theorem advance_bytes (r : ByteReader) (n : Nat) : (r.advance n).bytes = r.bytes := rfl
@[simp] theorem advance_cursor (r : ByteReader) (n : Nat) : (r.advance n).cursor = r.cursor + n := rfl
@[simp] theorem advance_rest (r : ByteReader) (n : Nat) : (r.advance n).rest = r.rest.drop n := by
  simp [rest, advance]

theorem readExact_eq_ok : r.readExact n = .ok (out, r') ↔
      r.cursor + n ≤ r.bytes.length ∧ out = r.rest.take n ∧ r' = r.advance n := by
  unfold readExact
  simp only [gt_iff_lt]
  split
  · simp; omega
  · simp only [ok.injEq, Prod.mk.injEq, rest, eq_comm (a := out), eq_comm (a := r')]
    exact ⟨fun h => ⟨by omega, h⟩, And.right⟩

theorem readU8_eq_ok {b : UInt8} : r.readU8 = .ok (b, r') ↔
      r.cursor + 1 ≤ r.bytes.length ∧ r.rest.head? = some b ∧ r' = r.advance 1 := by
  simp only [readU8, bind_eq_ok, Prod.exists, readExact_eq_ok]
  constructor
  · rintro ⟨out, _, ⟨hlen, rfl, rfl⟩, h⟩
    have hne : 0 < r.rest.length := by simp only [rest, length_drop]; omega
    obtain ⟨x, xs, hx⟩ := exists_cons_of_length_pos hne
    simp only [hx, take_succ_cons, take_zero, headD_cons, ok.injEq, Prod.mk.injEq] at h
    exact ⟨hlen, by rw [hx, ← h.1]; rfl, h.2.symm⟩
  · rintro ⟨hlen, hb, rfl⟩
    obtain ⟨xs, hx⟩ := head?_eq_some_iff.mp hb
    exact ⟨_, _, ⟨hlen, rfl, rfl⟩, by simp [hx]⟩

/-! ## Peeling a decoder -/

/-- A reader that has passed `done` and has `rest` left. -/
def mid (format : String) (done rest : Bytes) : ByteReader := ⟨format, done ++ rest, done.length⟩

theorem new_eq_mid (bytes : Bytes) : new format bytes = mid format [] bytes := rfl

@[simp] theorem mid_rest (done rest : Bytes) : (mid format done rest).rest = rest := by
  simp [mid, ByteReader.rest]

@[simp] theorem mid_cursor (done rest : Bytes) : (mid format done rest).cursor = done.length := rfl

@[simp] theorem mid_remaining (done rest : Bytes) : (mid format done rest).remaining = rest.length := by
  simp [mid, remaining]

theorem mid_advance (done out rest : Bytes) :
    (mid format done (out ++ rest)).advance out.length = mid format (done ++ out) rest := by
  simp [mid, advance]

variable {format : String} {done rest : Bytes} {r' : ByteReader} {α : Type}
  {readItem : ByteReader → Except FormatError (α × ByteReader)} {encode : α → Bytes} {P : α → Prop}

theorem mid_readExact_eq_ok : (mid format done rest).readExact n = .ok (out, r') ↔
      ∃ tail, rest = out ++ tail ∧ out.length = n ∧ r' = mid format (done ++ out) tail := by
  rw [readExact_eq_ok]
  simp only [mid_rest, mid_cursor]
  constructor
  · rintro ⟨hlen, rfl, rfl⟩
    have hle : n ≤ rest.length := by simpa [mid] using hlen
    have hout : (rest.take n).length = n := by simp [hle]
    refine ⟨rest.drop n, (take_append_drop n rest).symm, hout, ?_⟩
    rw [← mid_advance, take_append_drop, hout]
  · rintro ⟨tail, rfl, rfl, rfl⟩
    exact ⟨by simp [mid], by simp, (mid_advance format done out tail).symm⟩

theorem mid_readU8_eq_ok {b : UInt8} : (mid format done rest).readU8 = .ok (b, r') ↔
    ∃ tail, rest = b :: tail ∧ r' = mid format (done ++ [b]) tail := by
  simp only [readU8, bind_eq_ok, Prod.exists, mid_readExact_eq_ok, ok.injEq, Prod.mk.injEq]
  constructor
  · rintro ⟨out, _, ⟨tail, rfl, hlen, rfl⟩, rfl, rfl⟩
    obtain ⟨b, rfl⟩ := length_eq_one_iff.mp hlen
    exact ⟨tail, rfl, rfl⟩
  · rintro ⟨tail, rfl, rfl⟩
    exact ⟨[b], _, ⟨tail, rfl, rfl, rfl⟩, rfl, rfl⟩

theorem mid_readLe_eq_ok {width v : Nat} : (mid format done rest).readLe width = .ok (v, r') ↔
    v < 256 ^ width ∧ ∃ tail, rest = leBytes width v ++ tail ∧ r' = mid format (done ++ leBytes width v) tail := by
  simp only [readLe, bind_eq_ok, Prod.exists, mid_readExact_eq_ok, ok.injEq, Prod.mk.injEq]
  constructor
  · rintro ⟨out, _, ⟨tail, rfl, rfl, rfl⟩, rfl, rfl⟩
    exact ⟨ofLeBytes_lt out, tail, by rw [leBytes_ofLeBytes], by rw [leBytes_ofLeBytes]⟩
  · rintro ⟨hv, tail, rfl, rfl⟩
    exact ⟨_, _, ⟨tail, rfl, length_leBytes _ _, rfl⟩, ofLeBytes_leBytes hv, rfl⟩

theorem mid_readExact_bind {k : Bytes × ByteReader → Except FormatError β} :
    ((mid format done rest).readExact n >>= k) = .ok b ↔
      ∃ out tail, rest = out ++ tail ∧ out.length = n ∧ k (out, mid format (done ++ out) tail) = .ok b := by
  simp only [bind_eq_ok, Prod.exists, mid_readExact_eq_ok]
  constructor
  · rintro ⟨out, _, ⟨tail, h, hlen, rfl⟩, hk⟩
    exact ⟨out, tail, h, hlen, hk⟩
  · rintro ⟨out, tail, h, hlen, hk⟩
    exact ⟨out, _, ⟨tail, h, hlen, rfl⟩, hk⟩

theorem mid_readU8_bind {k : UInt8 × ByteReader → Except FormatError β} :
    ((mid format done rest).readU8 >>= k) = .ok b ↔
      ∃ x tail, rest = x :: tail ∧ k (x, mid format (done ++ [x]) tail) = .ok b := by
  simp only [bind_eq_ok, Prod.exists, mid_readU8_eq_ok]
  constructor
  · rintro ⟨x, _, ⟨tail, h, rfl⟩, hk⟩
    exact ⟨x, tail, h, hk⟩
  · rintro ⟨x, tail, h, hk⟩
    exact ⟨x, _, ⟨tail, h, rfl⟩, hk⟩

theorem mid_readLe_bind {width : Nat} : ((mid format done rest).readLe width >>= k) = .ok b ↔
      ∃ v tail, v < 256 ^ width ∧ rest = leBytes width v ++ tail ∧
        k (v, mid format (done ++ leBytes width v) tail) = .ok b := by
  simp only [bind_eq_ok, Prod.exists, mid_readLe_eq_ok]
  constructor
  · rintro ⟨v, _, ⟨hv, tail, h, rfl⟩, hk⟩
    exact ⟨v, tail, hv, h, hk⟩
  · rintro ⟨v, tail, hv, h, hk⟩
    exact ⟨v, _, ⟨hv, tail, h, rfl⟩, hk⟩

theorem mid_readU16Le_bind : ((mid format done rest).readU16Le >>= k) = .ok b ↔
      ∃ v tail, v < 2 ^ 16 ∧ rest = leBytes 2 v ++ tail ∧
        k (v, mid format (done ++ leBytes 2 v) tail) = .ok b := mid_readLe_bind

theorem mid_readU32Le_bind : ((mid format done rest).readU32Le >>= k) = .ok b ↔
      ∃ v tail, v < 2 ^ 32 ∧ rest = leBytes 4 v ++ tail ∧
        k (v, mid format (done ++ leBytes 4 v) tail) = .ok b := mid_readLe_bind

theorem mid_readU64Le_bind {k : UInt64 × ByteReader → Except FormatError β} :
    ((mid format done rest).readU64Le >>= k) = .ok b ↔ ∃ v tail, rest = leBytes 8 v.toNat ++ tail ∧
        k (v, mid format (done ++ leBytes 8 v.toNat) tail) = .ok b := by
  rw [readU64Le, bind_assoc, mid_readLe_bind]
  constructor
  · rintro ⟨v, tail, hv, rfl, hk⟩
    exact ⟨UInt64.ofNat v, tail, by rw [UInt64.toNat_ofNat_of_lt' hv],
      by rw [UInt64.toNat_ofNat_of_lt' hv]; exact hk⟩
  · rintro ⟨v, tail, rfl, hk⟩
    refine ⟨v.toNat, tail, v.toNat_lt, rfl, ?_⟩
    rw [ok_bind, UInt64.ofNat_toNat]
    exact hk

/-- A reader of items: it accepts exactly the encodings of the items that are `P`, with
anything behind them. -/
def Reads {α : Type} (readItem : ByteReader → Except FormatError (α × ByteReader)) (P : α → Prop)
    (encode : α → Bytes) : Prop :=
  ∀ format done rest item reader, readItem (mid format done rest) = .ok (item, reader) ↔
    P item ∧ ∃ tail, rest = encode item ++ tail ∧ reader = mid format (done ++ encode item) tail

/-- The rule of a decoder that goes on behind an item. -/
theorem Reads.bind (h : Reads readItem P encode) {k : α × ByteReader → Except FormatError β} :
    (readItem (mid format done rest) >>= k) = .ok b ↔ ∃ item tail, P item ∧
      rest = encode item ++ tail ∧ k (item, mid format (done ++ encode item) tail) = .ok b := by
  simp only [bind_eq_ok, Prod.exists, h format done rest]
  constructor
  · rintro ⟨item, _, ⟨hitem, tail, hrest, rfl⟩, hk⟩
    exact ⟨item, tail, hitem, hrest, hk⟩
  · rintro ⟨item, tail, hitem, hrest, hk⟩
    exact ⟨item, _, ⟨hitem, tail, hrest, rfl⟩, hk⟩

/-- A decoder's loop over a count it has read. -/
def readMany {α : Type} (readItem : ByteReader → Except FormatError (α × ByteReader)) :
    Nat → ByteReader → Except FormatError (List α × ByteReader)
  | 0, reader => .ok ([], reader)
  | count + 1, reader => do
    let (item, reader) ← readItem reader
    let (items, reader) ← readMany readItem count reader
    .ok (item :: items, reader)

/-- Items that are read back one by one are read back in a row. -/
theorem mid_readMany {items : List α}
    (hitem : ∀ item ∈ items, ∀ done rest, readItem (mid format done (encode item ++ rest)) =
      .ok (item, mid format (done ++ encode item) rest)) :
    readMany readItem items.length (mid format done (items.flatMap encode ++ rest)) =
      .ok (items, mid format (done ++ items.flatMap encode) rest) := by
  induction items generalizing done with
  | nil => simp [readMany]
  | cons item items ih =>
    rw [flatMap_cons, append_assoc, length_cons, readMany, hitem item mem_cons_self, ok_bind]
    dsimp only
    rw [ih fun i hi => hitem i (mem_cons_of_mem _ hi), append_assoc]
    rfl

/-- A counted loop reads that many items. -/
theorem Reads.many (h : Reads readItem P encode) (count : Nat) :
    Reads (readMany readItem count) (fun items => items.length = count ∧ ∀ item ∈ items, P item)
      (·.flatMap encode) := by
  intro format done rest items reader
  induction count generalizing done rest items reader with
  | zero =>
    simp only [readMany, ok.injEq, Prod.mk.injEq, length_eq_zero_iff]
    constructor
    · rintro ⟨rfl, rfl⟩
      exact ⟨⟨rfl, by simp⟩, rest, by simp, by simp⟩
    · rintro ⟨⟨rfl, -⟩, tail, rfl, rfl⟩
      exact ⟨rfl, by simp⟩
  | succ count ih =>
    simp only [readMany, h.bind, bind_eq_ok (x := readMany _ _ _), Prod.exists, ih, ok.injEq, Prod.mk.injEq]
    constructor
    · rintro ⟨item, _, hitem, rfl, items, _, ⟨⟨rfl, hitems⟩, tail, rfl, rfl⟩, rfl, rfl⟩
      exact ⟨⟨rfl, forall_mem_cons.2 ⟨hitem, hitems⟩⟩, tail, by simp, by simp⟩
    · rintro ⟨⟨hlen, hall⟩, tail, rfl, rfl⟩
      obtain ⟨item, items, rfl⟩ := exists_cons_of_length_eq_add_one hlen
      obtain ⟨hitem, hitems⟩ := forall_mem_cons.1 hall
      exact ⟨item, _, hitem, by simp, items, _, ⟨⟨by simpa using hlen, hitems⟩, tail, rfl, rfl⟩, rfl, by simp⟩

theorem mid_finish_eq_ok {u : Unit} : (mid format done rest).finish = .ok u ↔ rest = [] := by
  simp [finish, remaining, mid]

end ByteReader

/-! ## Slices -/

/-- `&bytes[start..stop]`, of a range within the bytes. -/
def slice (bytes : Bytes) (start stop : Nat) : Bytes := (bytes.drop start).take (stop - start)

theorem slice_append_left (h : a.length = n) : slice (a ++ b) 0 n = a := by
  simp [slice, ← h]

/-- A slice within the front part. -/
theorem slice_of_extend (h : a <+: b) (hj : j ≤ a.length) : slice b i j = slice a i j := by
  obtain ⟨rest, rfl⟩ := h
  by_cases hi : i ≤ a.length
  · rw [slice, slice, drop_append_of_le_length hi, take_append_of_le_length (by rw [length_drop]; omega)]
  · simp [slice, show j - i = 0 by omega]

/-- A slice behind a part of known length. -/
theorem slice_append_right (h : a.length = n) (hi : n ≤ i) (hj : i ≤ j) :
    slice (a ++ b) i j = slice b (i - n) (j - n) := by
  rw [slice, slice, drop_append, drop_of_length_le (by omega), nil_append, h,
    show j - n - (i - n) = j - i by omega]

/-- A slice between two parts. -/
theorem slice_append_mid {c : Bytes} (hi : a.length = i) (hj : i + b.length = j) :
    slice (a ++ (b ++ c)) i j = b := by
  rw [slice_append_right hi le_rfl (by omega), Nat.sub_self, slice_append_left (by omega)]

end Strata
