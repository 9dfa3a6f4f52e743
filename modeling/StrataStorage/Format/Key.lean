import StrataStorage.Format.Reader

/-!
# The internal key codec

`format/key.rs`: a physical key is its branch id, its NUL-terminated space, its
storage-space id and its escaped user key; an internal key appends the bitwise
inverse of the commit version, big endian, so that ascending byte order meets
the newest version of a key first.

* `encodeEscaped_separates`: the escaped form is an order code (`escapedCode`);
* `internalKeyCode`: the whole codec as the product of the codes of its fields,
  from which order, injectivity and prefix freedom follow;
* `decodePhysicalKeyPrefix_eq_ok`, `decodeInternalKey_eq_ok`: the
  decoder inverts the encoder, in both directions.
-/

namespace Strata

open Except List
open BranchId (byteLen)

variable {bytes : Bytes} {key : PhysicalKey} {field : String} {n : Nat}

/-- `encode_escaped`: `00 00` ends the user key, `00 01` is a literal zero. -/
def encodeEscaped : Bytes → Bytes
  | [] => [0x00, 0x00]
  | byte :: source => if byte = 0x00 then 0x00 :: 0x01 :: encodeEscaped source
      else byte :: encodeEscaped source

def appendPhysicalKey (key : PhysicalKey) (bytes : Bytes) : Bytes :=
  bytes ++ key.branchId.bytes ++ utf8Bytes key.space ++ [0x00] ++ [key.storageSpaceId.raw] ++
    encodeEscaped key.userKey

def encodePhysicalKey (key : PhysicalKey) : Bytes := appendPhysicalKey key []

def toBeBytes (x : UInt64) : Bytes := beBytes 8 x.toNat

/-- `u64::from_be_bytes`, of the eight bytes of a suffix. -/
def fromBeBytes (bytes : Bytes) : UInt64 := UInt64.ofNat (ofBeBytes bytes)

def appendInternalKeyFromPhysical (key : PhysicalKey) (version : CommitVersion) (bytes : Bytes) :
    Bytes := appendPhysicalKey key bytes ++ toBeBytes (~~~version)

def encodeInternalKey (key : InternalKey) : Bytes :=
  appendInternalKeyFromPhysical key.physicalKey key.commitVersion []

def internalKeySuffixLen : Nat := 8

/-- `decode_escaped`: the decoded bytes and how many bytes were consumed. -/
def decodeEscaped (field : String) : Bytes → Except FormatError (Bytes × Nat)
  | [] => .error (.missingTerminator field)
  | byte :: bytes =>
    if byte ≠ 0x00 then
      (decodeEscaped field bytes).map fun (decoded, consumed) => (byte :: decoded, consumed + 1)
    else match bytes with
      | [] => .error (.missingTerminator field)
      | next :: bytes =>
        if next = 0x00 then .ok ([], 2)
        else if next = 0x01 then
          (decodeEscaped field bytes).map fun (decoded, consumed) => (0x00 :: decoded, consumed + 2)
        else .error (.invalidEscape field)

def formatErrorFromRowError : RowError → FormatError
  | .invalidStorageSpaceId raw => .invalidStorageSpaceId raw
  | .storageReservedSpaceId raw => .storageReservedSpaceId raw
  | .emptySpace => .invalidSpace "is empty"
  | .spaceContainsNul => .invalidSpace "contains NUL"

/-- `decode_physical_key_prefix`: the key and the offset after it. -/
def decodePhysicalKeyPrefix (bytes : Bytes) : Except FormatError (PhysicalKey × Nat) := do
  let reader := ByteReader.new "physical_key" bytes
  let (branchBytes, reader) ← reader.readExact byteLen
  let branchId ← (BranchId.tryFromSlice branchBytes).okOr (.invalidLength "branch_id")
  let spaceLen ← ((bytes.drop byteLen).findIdx? (· == 0x00)).okOr (.missingTerminator "space")
  let (spaceBytes, reader) ← reader.readExact spaceLen
  let (_, reader) ← reader.readExact 1
  let space ← (fromUtf8 spaceBytes).okOr (.invalidUtf8 "space")
  let (raw, reader) ← reader.readU8
  let storageSpaceId ← (StorageSpaceId.fromRaw raw).mapError formatErrorFromRowError
  let (userKey, consumed) ← decodeEscaped "user_key" reader.rest
  let (_, reader) ← reader.readExact consumed
  let key ← (PhysicalKey.new branchId space storageSpaceId userKey).mapError formatErrorFromRowError
  .ok (key, reader.cursor)

def decodePhysicalKey (bytes : Bytes) : Except FormatError PhysicalKey := do
  let (key, consumed) ← decodePhysicalKeyPrefix bytes
  if consumed = bytes.length then .ok key
  else .error (.trailingData "physical_key" (bytes.length - consumed))

def decodeInternalKey (bytes : Bytes) : Except FormatError InternalKey := do
  let minimum := byteLen + 1 + 1 + 2 + internalKeySuffixLen
  if bytes.length < minimum then
    .error (.insufficientBytes "internal_key" minimum bytes.length)
  else
    let split := bytes.length - internalKeySuffixLen
    let physicalKey ← decodePhysicalKey (bytes.take split)
    .ok ⟨physicalKey, ~~~(fromBeBytes (bytes.drop split))⟩

/-! ## Layout of an encoded key -/

theorem encodePhysicalKey_eq (key : PhysicalKey) :
    encodePhysicalKey key = key.branchId.bytes ++ (utf8Bytes key.space ++ [0x00] ++
      ([key.storageSpaceId.raw] ++ encodeEscaped key.userKey)) := by
  simp [encodePhysicalKey, appendPhysicalKey]

theorem encodeInternalKey_eq (key : InternalKey) : encodeInternalKey key =
      encodePhysicalKey key.physicalKey ++ toBeBytes (~~~key.commitVersion) := rfl

@[simp] theorem length_toBeBytes (x : UInt64) : (toBeBytes x).length = internalKeySuffixLen :=
  length_beBytes _ _

@[simp] theorem fromBeBytes_toBeBytes (x : UInt64) : fromBeBytes (toBeBytes x) = x := by
  rw [fromBeBytes, toBeBytes, ofBeBytes_beBytes x.toNat_lt, UInt64.ofNat_toNat]

theorem toBeBytes_fromBeBytes (h : bytes.length = internalKeySuffixLen) :
    toBeBytes (fromBeBytes bytes) = bytes := by
  have hlt := ofBeBytes_lt bytes
  rw [h] at hlt
  have hx : (UInt64.ofNat (ofBeBytes bytes)).toNat = ofBeBytes bytes := by
    rw [UInt64.toNat_ofNat']; exact Nat.mod_eq_of_lt hlt
  rw [toBeBytes, fromBeBytes, hx]
  simpa [h, internalKeySuffixLen] using beBytes_ofBeBytes bytes

theorem two_le_length_encodeEscaped (source : Bytes) : 2 ≤ (encodeEscaped source).length := by
  induction source with
  | nil => simp [encodeEscaped]
  | cons b source ih => rw [encodeEscaped]; split <;> grind

/-! ## Order -/

/-- Escaping separates: the first difference of two user keys is a difference
of their escaped forms, the end of one meeting a byte of the other included. -/
theorem encodeEscaped_separates {a b : Bytes} (h : a < b) (s t : Bytes) :
    encodeEscaped a ++ s < encodeEscaped b ++ t := by
  induction a generalizing b with
  | nil =>
    cases b with
    | nil => exact absurd h (lt_irrefl _)
    | cons y b =>
      by_cases hy : y = 0
      · subst hy
        simp only [encodeEscaped, ↓reduceIte, cons_append, cons_lt_cons_iff]
        exact .inr ⟨trivial, .inl (by decide)⟩
      · simp only [encodeEscaped, hy, ↓reduceIte, cons_append, cons_lt_cons_iff]
        exact .inl (UInt8.pos_iff_ne_zero.mpr hy)
  | cons x a ih =>
    cases b with
    | nil => exact absurd h (by simp)
    | cons y b =>
      rcases cons_lt_cons_iff.mp h with hlt | ⟨rfl, hab⟩
      · have hy : y ≠ 0 := UInt8.pos_iff_ne_zero.mp (lt_of_le_of_lt (UInt8.zero_le) hlt)
        by_cases hx : x = 0
        · subst hx
          simp only [encodeEscaped, ↓reduceIte, hy, cons_append, cons_lt_cons_iff]
          exact .inl hlt
        · simp only [encodeEscaped, hx, hy, ↓reduceIte, cons_append, cons_lt_cons_iff]
          exact .inl hlt
      · by_cases hx : x = 0
        · simpa [encodeEscaped, hx] using ih hab
        · simpa [encodeEscaped, hx] using ih hab

/-- The escaped form, as an order code of byte strings. -/
def escapedCode : OrderCode Bytes UInt8 := ⟨encodeEscaped, encodeEscaped_separates⟩

theorem not_lt_not {v w : UInt64} (h : w < v) : ~~~v < ~~~w := by
  rw [UInt64.lt_iff_toNat_lt] at h ⊢
  rw [UInt64.toNat_not, UInt64.toNat_not, UInt64.size]
  have := v.toNat_lt
  omega

/-- The inverted big-endian version, as an order code of versions in
descending order. -/
def versionCode : OrderCode CommitVersionᵒᵈ UInt8 where
  encode v := toBeBytes (~~~(OrderDual.ofDual v))
  separates {v w} h := by
    refine List.append_lt_append_of_length_eq (by simp) ?_
    exact beBytes_lt (UInt64.toNat_lt _) (UInt64.lt_iff_toNat_lt.mp (not_lt_not h))

/-- The fields of a physical key in the order they are compared in: branch
bytes, space bytes, storage-space id, user key. -/
abbrev PhysicalSortKey :=
  {l : Bytes // l.length = 16} ×ₗ {l : Bytes // ∀ x ∈ l, 0 < x} ×ₗ UInt8 ×ₗ Bytes

theorem PhysicalKey.length_branch (key : PhysicalKey) : key.branchId.bytes.length = 16 :=
  key.branchId.length_bytes

theorem PhysicalKey.space_pos (key : PhysicalKey) : ∀ x ∈ utf8Bytes key.space, 0 < x :=
  fun _ hx => UInt8.pos_iff_ne_zero.mpr fun h0 => (validateSpace_eq_ok.mp key.space_valid).2 (h0 ▸ hx)

def PhysicalKey.sortKey (key : PhysicalKey) : PhysicalSortKey :=
  toLex (⟨key.branchId.bytes, key.length_branch⟩, toLex (⟨utf8Bytes key.space, key.space_pos⟩,
    toLex (key.storageSpaceId.raw, key.userKey)))

/-- The codec of physical keys, field by field. -/
def physicalKeyCode : OrderCode PhysicalSortKey UInt8 :=
  (OrderCode.fixed UInt8 16).prod ((OrderCode.terminated 0).prod ((OrderCode.letter UInt8).prod escapedCode))

theorem encodePhysicalKey_eq_code (key : PhysicalKey) :
    encodePhysicalKey key = physicalKeyCode.encode key.sortKey := encodePhysicalKey_eq key

/-- The codec of internal keys: the physical key, then the version. -/
def internalKeyCode : OrderCode (PhysicalSortKey ×ₗ CommitVersionᵒᵈ) UInt8 :=
  physicalKeyCode.prod versionCode

def InternalKey.sortKey (key : InternalKey) : PhysicalSortKey ×ₗ CommitVersionᵒᵈ :=
  toLex (key.physicalKey.sortKey, OrderDual.toDual key.commitVersion)

theorem encodeInternalKey_eq_code (key : InternalKey) :
    encodeInternalKey key = internalKeyCode.encode key.sortKey := by
  rw [encodeInternalKey_eq, encodePhysicalKey_eq_code]; rfl

theorem utf8Bytes_injective : Function.Injective utf8Bytes := fun s t h => by
  simpa using congrArg fromUtf8 h

theorem PhysicalKey.sortKey_injective : Function.Injective sortKey := by
  rintro ⟨⟨b, hb⟩, s, ⟨i, hi⟩, u, hs⟩ ⟨⟨b', hb'⟩, s', ⟨i', hi'⟩, u', hs'⟩ h
  simp only [sortKey, toLex_inj, Prod.mk.injEq, Subtype.mk.injEq] at h
  obtain ⟨rfl, h, rfl, rfl⟩ := h
  obtain rfl := utf8Bytes_injective h
  rfl

theorem encodePhysicalKey_injective : Function.Injective encodePhysicalKey := fun a b h =>
  PhysicalKey.sortKey_injective <| physicalKeyCode.encode_injective <| by
    rwa [← encodePhysicalKey_eq_code, ← encodePhysicalKey_eq_code]

/-! ## Decoding -/

theorem decodeEscaped_cons {b : UInt8} (hb : b ≠ 0) (bytes : Bytes) : decodeEscaped field (b :: bytes) =
      (decodeEscaped field bytes).map fun (decoded, consumed) => (b :: decoded, consumed + 1) := by
  rw [decodeEscaped.eq_def]; simp [hb]

theorem decodeEscaped_encodeEscaped (field : String) (source rest : Bytes) :
    decodeEscaped field (encodeEscaped source ++ rest) = .ok (source, (encodeEscaped source).length) := by
  induction source with
  | nil => simp [encodeEscaped, decodeEscaped]
  | cons b source ih =>
    by_cases hb : b = 0
    · simp [encodeEscaped, decodeEscaped, hb, ih]
    · simp [encodeEscaped, decodeEscaped_cons hb, hb, ih]

/-- What the escape decoder accepts is an escaped user key, followed by
anything. -/
theorem eq_encodeEscaped_of_decodeEscaped {decoded : Bytes} {consumed : Nat}
    (h : decodeEscaped field bytes = .ok (decoded, consumed)) :
    ∃ rest, bytes = encodeEscaped decoded ++ rest ∧ consumed = (encodeEscaped decoded).length := by
  induction bytes using decodeEscaped.induct generalizing decoded consumed with
  | case1 => simp [decodeEscaped] at h
  | case2 b bytes hb ih =>
    simp only [decodeEscaped_cons hb, map_eq_ok, Prod.exists, Prod.mk.injEq] at h
    obtain ⟨d, n, h, rfl, rfl⟩ := h
    obtain ⟨rest, rfl, rfl⟩ := ih h
    exact ⟨rest, by simp [encodeEscaped, hb], by simp [encodeEscaped, hb]⟩
  | case3 b hb => simp_all [decodeEscaped]
  | case4 b hb bytes =>
    obtain rfl : b = 0 := not_not.mp hb
    simp only [decodeEscaped, ne_eq, not_true_eq_false, ↓reduceIte, ok.injEq, Prod.mk.injEq] at h
    exact ⟨bytes, by simp [← h.1, encodeEscaped], by simp [← h.1, ← h.2, encodeEscaped]⟩
  | case5 b hb bytes hne ih =>
    obtain rfl : b = 0 := not_not.mp hb
    simp only [decodeEscaped, ne_eq, not_true_eq_false, ↓reduceIte, hne, map_eq_ok,
      Prod.exists, Prod.mk.injEq] at h
    obtain ⟨d, n, h, rfl, rfl⟩ := h
    obtain ⟨rest, rfl, rfl⟩ := ih h
    exact ⟨rest, by simp [encodeEscaped], by simp [encodeEscaped]⟩
  | case6 b hb next bytes h0 h1 =>
    obtain rfl : b = 0 := not_not.mp hb
    simp [decodeEscaped, h0, h1] at h

/-- The position of the first NUL splits a byte string there. -/
theorem findIdx?_nul_eq_some : bytes.findIdx? (· == 0x00) = some n ↔
      ∃ x y, bytes = x ++ 0x00 :: y ∧ 0x00 ∉ x ∧ n = x.length := by
  induction bytes generalizing n with
  | nil => simp
  | cons b bytes ih =>
    rw [findIdx?_cons]
    by_cases hb : b = 0
    · subst hb
      constructor
      · intro h
        exact ⟨[], bytes, rfl, by simp, by simpa using h.symm⟩
      · rintro ⟨x, y, h, hx, rfl⟩
        cases x with
        | nil => rfl
        | cons c x => simp_all
    · simp only [beq_iff_eq, hb, ↓reduceIte, Option.map_eq_some_iff, ih]
      constructor
      · rintro ⟨_, ⟨x, y, rfl, hx, rfl⟩, rfl⟩
        exact ⟨b :: x, y, rfl, by simp [hx, Ne.symm hb], rfl⟩
      · rintro ⟨x, y, h, hx, rfl⟩
        cases x with
        | nil => simp_all
        | cons c x =>
          simp only [cons_append, cons.injEq] at h
          exact ⟨x.length, ⟨x, y, h.2, fun hm => hx (mem_cons_of_mem _ hm), rfl⟩, rfl⟩

theorem PhysicalKey.nul_notMem_space (key : PhysicalKey) : 0x00 ∉ utf8Bytes key.space :=
  (validateSpace_eq_ok.mp key.space_valid).2

/-- The decoder of physical keys accepts exactly an encoded key followed by
anything, and returns that key and its length. -/
theorem decodePhysicalKeyPrefix_eq_ok : decodePhysicalKeyPrefix bytes = .ok (key, n) ↔
      ∃ rest, bytes = encodePhysicalKey key ++ rest ∧ n = (encodePhysicalKey key).length := by
  simp only [decodePhysicalKeyPrefix, bind_eq_ok, Prod.exists, ByteReader.readExact_eq_ok, Option.okOr_eq_ok,
    ByteReader.readU8_eq_ok, mapError_eq_ok, findIdx?_nul_eq_some, ok.injEq, Prod.mk.injEq,
    BranchId.tryFromSlice_eq_some, fromUtf8_eq_some, StorageSpaceId.fromRaw_eq_ok, PhysicalKey.new_eq_ok,
    ByteReader.new_rest, ByteReader.new_bytes, ByteReader.new_cursor, byteLen, encodePhysicalKey_eq]
  constructor
  · rintro ⟨_, _, ⟨hlen, rfl, rfl⟩, _, hbranch, _, ⟨x, y, hxy, hx, rfl⟩, _, _, ⟨-, rfl, rfl⟩,
      _, _, ⟨-, rfl, rfl⟩, _, hspace, raw, _, ⟨-, hraw, rfl⟩, _, hid, _, _, hesc, _, _,
      ⟨-, rfl, rfl⟩, k, ⟨rfl, rfl, rfl, rfl⟩, rfl, rfl⟩
    simp only [ByteReader.advance_rest, ByteReader.new_rest, hxy, take_left,
      drop_left, drop_succ_cons, drop_zero] at hspace hraw hesc
    obtain ⟨z, rfl⟩ := head?_eq_some_iff.mp hraw
    obtain ⟨rest, rfl, rfl⟩ := eq_encodeEscaped_of_decodeEscaped hesc
    refine ⟨rest, ?_, ?_⟩
    · conv_lhs => rw [← take_append_drop 16 bytes, hxy, ← hbranch, ← hspace, ← hid]
      simp
    · simp [k.branchId.length_bytes, hspace]; omega
  · rintro ⟨rest, rfl, rfl⟩
    have hb := key.branchId.length_bytes
    refine ⟨key.branchId.bytes, _, ⟨by simp [hb], by simp [hb], rfl⟩, key.branchId, rfl, _,
      ⟨utf8Bytes key.space, [key.storageSpaceId.raw] ++ encodeEscaped key.userKey ++ rest,
        by simp [hb], key.nul_notMem_space, rfl⟩, utf8Bytes key.space, _,
      ⟨by simp [hb], by simp [hb], rfl⟩, [0x00], _,
      ⟨by simp [hb, Nat.add_assoc]; omega, by simp [hb], rfl⟩, key.space, rfl, key.storageSpaceId.raw, _,
      ⟨by simp [hb, Nat.add_assoc]; omega, by simp [hb], rfl⟩, key.storageSpaceId, rfl, key.userKey,
      (encodeEscaped key.userKey).length, ?_, _, _, ⟨by simp [hb, Nat.add_assoc]; omega, rfl, rfl⟩, key,
      ⟨rfl, rfl, rfl, rfl⟩, rfl, by simp [hb, Nat.add_assoc]; omega⟩
    simp [hb, decodeEscaped_encodeEscaped]

theorem decodePhysicalKey_eq_ok : decodePhysicalKey bytes = .ok key ↔ bytes = encodePhysicalKey key := by
  simp only [decodePhysicalKey, bind_eq_ok, Prod.exists, decodePhysicalKeyPrefix_eq_ok]
  constructor
  · rintro ⟨k, _, ⟨rest, rfl, rfl⟩, h⟩
    split at h
    · rename_i hlen
      obtain rfl : rest = [] := by simpa using hlen
      cases h; simp
    · cases h
  · rintro rfl
    exact ⟨key, _, ⟨[], by simp, rfl⟩, by simp⟩

theorem minimum_le_length_encodeInternalKey (key : InternalKey) :
    byteLen + 1 + 1 + 2 + internalKeySuffixLen ≤ (encodeInternalKey key).length := by
  have := two_le_length_encodeEscaped key.physicalKey.userKey
  simp only [encodeInternalKey_eq, encodePhysicalKey_eq, length_append, length_singleton,
    length_toBeBytes, key.physicalKey.branchId.length_bytes, byteLen]
  omega

/-- The decoder of internal keys accepts exactly the encoded keys. -/
theorem decodeInternalKey_eq_ok {key : InternalKey} :
    decodeInternalKey bytes = .ok key ↔ bytes = encodeInternalKey key := by
  constructor
  · intro h
    simp only [decodeInternalKey] at h
    split at h
    · cases h
    · rename_i hlen
      simp only [bind_eq_ok, decodePhysicalKey_eq_ok, ok.injEq] at h
      obtain ⟨k, hk, rfl⟩ := h
      have hsuffix : (bytes.drop (bytes.length - internalKeySuffixLen)).length =
          internalKeySuffixLen := by
        simp only [internalKeySuffixLen, length_drop] at hlen ⊢; omega
      rw [encodeInternalKey_eq, ← hk, UInt64.not_not, toBeBytes_fromBeBytes hsuffix, take_append_drop]
  · rintro rfl
    have hmin := minimum_le_length_encodeInternalKey key
    have hsplit : (encodeInternalKey key).length - internalKeySuffixLen =
        (encodePhysicalKey key.physicalKey).length := by
      simp [encodeInternalKey_eq]
    simp only [decodeInternalKey, not_lt.mpr hmin, ↓reduceIte, hsplit]
    simp [encodeInternalKey_eq, fromBeBytes_toBeBytes, UInt64.not_not, decodePhysicalKey_eq_ok.mpr rfl]

/-- The order the codec is to realise: branch bytes, space bytes, space id,
user key bytes, then the commit version, newest first. -/
def InternalKey.lexKey (key : InternalKey) : Bytes ×ₗ Bytes ×ₗ UInt8 ×ₗ Bytes ×ₗ CommitVersionᵒᵈ :=
  toLex (key.physicalKey.branchId.bytes, toLex (utf8Bytes key.physicalKey.space,
    toLex (key.physicalKey.storageSpaceId.raw, toLex (key.physicalKey.userKey,
      OrderDual.toDual key.commitVersion))))

theorem encodeInternalKey_lt_iff {a b : InternalKey} :
    encodeInternalKey a < encodeInternalKey b ↔ a.lexKey < b.lexKey := by
  rw [encodeInternalKey_eq_code, encodeInternalKey_eq_code, OrderCode.encode_lt_encode]
  simp only [InternalKey.sortKey, InternalKey.lexKey, PhysicalKey.sortKey,
    Prod.Lex.toLex_lt_toLex, Subtype.mk_lt_mk, toLex_inj, Prod.mk.injEq, Subtype.mk.injEq]
  tauto

/-- Internal keys are an order-preserving injective code: the decoder inverts
the encoder and accepts nothing else, encoded keys compare as their fields do,
the newest version of a key first, and no encoded physical key begins another. -/
theorem internalKey_codec : (∀ key, decodeInternalKey (encodeInternalKey key) = .ok key) ∧
    (∀ bytes key, decodeInternalKey bytes = .ok key → encodeInternalKey key = bytes) ∧
    (∀ a b, encodeInternalKey a < encodeInternalKey b ↔ a.lexKey < b.lexKey) ∧
    (∀ a b, encodePhysicalKey a <+: encodePhysicalKey b → encodePhysicalKey a = encodePhysicalKey b) := by
  refine ⟨fun key => decodeInternalKey_eq_ok.mpr rfl, fun bytes key h =>
    (decodeInternalKey_eq_ok.mp h).symm, fun a b => encodeInternalKey_lt_iff, fun a b h => ?_⟩
  rw [encodePhysicalKey_eq_code, encodePhysicalKey_eq_code] at h ⊢
  rw [physicalKeyCode.encode_prefix_iff.mp h]

end Strata
