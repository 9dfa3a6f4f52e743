import StrataStorage.Format.TableManifest

/-!
# The fields of an encoded table manifest

What `format/table_manifest.rs` writes for one table: counts, texts and byte strings
behind their lengths, optional numbers, the name of the table's object, its facts,
bounds and provenance. A reader of each accepts exactly what the writer writes
(`ByteReader.Reads`), so that no value has two encodings.

* `classifyTableObject_eq_some`: a text is the name of the object it is classified as;
* `decodeFacts_reads`, `decodeBounds_reads`, `decodeProvenance_reads`.
-/

namespace Strata

open ByteReader Except List
open ByteReader (Reads)
open TableManifestTableProvenance (newMaterializationReplacement)

variable {bytes : Bytes} {field : String} {n : Nat} (object : TableObject)
  (bounds : TableManifestTableBounds) (branchId : BranchId) {value : Bytes} {text : Bytes}
  {level : Nat} {max : Nat} (facts : TableManifestTableFacts)

/-! ## Counts, texts and optional numbers -/

def writeCount (count : Nat) (field : String) : Except FormatError Bytes := do
  let count ← toU32 count field
  .ok (leBytes 4 count)

def readCount (reader : ByteReader) (max : Nat) (field : String) : Except FormatError (Nat × ByteReader) := do
  let (count, reader) ← reader.readU32Le
  .require (count ≤ max) (.invalidLength field)
  .ok (count, reader)

def writeBytes (value : Bytes) (max : Nat) (field : String) : Except FormatError Bytes := do
  .require (value.length ≤ max) (.invalidLength field)
  let count ← writeCount value.length field
  .ok (count ++ value)

def readBoundedBytes (reader : ByteReader) (max : Nat) (field : String) :
    Except FormatError (Bytes × ByteReader) := do
  let (len, reader) ← readCount reader max field
  reader.readExact len

/-- `write_string`, of the bytes of a text. -/
def writeString (value : Bytes) (max : Nat) (field : String) : Except FormatError Bytes := do
  .require (value ≠ [] ∧ value.length ≤ max) (.invalidLength field)
  let count ← writeCount value.length field
  .ok (count ++ value)

def readBoundedString (reader : ByteReader) (max : Nat) (field : String) :
    Except FormatError (String × ByteReader) := do
  let (bytes, reader) ← readBoundedBytes reader max field
  let text ← (fromUtf8 bytes).okOr (.invalidUtf8 field)
  .ok (text, reader)

def readBool (reader : ByteReader) (field : String) : Except FormatError (Bool × ByteReader) := do
  let (value, reader) ← reader.readU8
  if value = 0 then .ok (false, reader)
  else if value = 1 then .ok (true, reader)
  else .error (.invalidBool field value)

def writeOptionalU64 (value : Option UInt64) (field : String) : Except FormatError Bytes := do
  validateGeneration value field
  match value with
  | some value => .ok (1 :: leBytes 8 value.toNat)
  | none => .ok (0 :: leBytes 8 0)

def readOptionalU64 (reader : ByteReader) (field : String) : Except FormatError (Option UInt64 × ByteReader) := do
  let (present, reader) ← readBool reader field
  let (value, reader) ← reader.readU64Le
  if present then
    if value = 0 then .error (.invalidValue field) else .ok (some value, reader)
  else if value = 0 then .ok (none, reader)
  else .error (.invalidValue field)

/-- `read_array_16`, and `BranchId::from_bytes`. -/
def readBranchId (reader : ByteReader) (field : String) : Except FormatError (BranchId × ByteReader) := do
  let (bytes, reader) ← reader.readExact 16
  let branchId ← (BranchId.tryFromSlice bytes).okOr (.invalidLength field)
  .ok (branchId, reader)

/-- The bytes of an optional number. -/
def optionalLayout : Option UInt64 → Bytes
  | some value => 1 :: leBytes 8 value.toNat
  | none => 0 :: leBytes 8 0

@[simp] theorem length_optionalLayout (value : Option UInt64) : (optionalLayout value).length = 9 := by
  cases value <;> simp [optionalLayout]

theorem writeCount_eq_ok {count : Nat} :
    writeCount count field = .ok bytes ↔ count < 2 ^ 32 ∧ bytes = leBytes 4 count := by
  simp only [writeCount, bind_eq_ok, toU32_eq_ok, ok.injEq]
  constructor
  · rintro ⟨_, ⟨hcount, rfl⟩, rfl⟩
    exact ⟨hcount, rfl⟩
  · rintro ⟨hcount, rfl⟩
    exact ⟨count, ⟨hcount, rfl⟩, rfl⟩

theorem writeBytes_eq_ok (hmax : max < 2 ^ 32) :
    writeBytes value max field = .ok bytes ↔ value.length ≤ max ∧ bytes = lenPrefixed value := by
  rw [writeBytes, check_bind_eq_ok, require_eq_ok]
  simp only [bind_eq_ok, writeCount_eq_ok, ok.injEq]
  constructor
  · rintro ⟨hlen, _, ⟨-, rfl⟩, rfl⟩
    exact ⟨hlen, rfl⟩
  · rintro ⟨hlen, rfl⟩
    exact ⟨hlen, _, ⟨by omega, rfl⟩, rfl⟩

theorem writeString_eq_ok (hmax : max < 2 ^ 32) : writeString value max field = .ok bytes ↔
      (value ≠ [] ∧ value.length ≤ max) ∧ bytes = lenPrefixed value := by
  rw [writeString, check_bind_eq_ok, require_eq_ok]
  simp only [bind_eq_ok, writeCount_eq_ok, ok.injEq]
  constructor
  · rintro ⟨hlen, _, ⟨-, rfl⟩, rfl⟩
    exact ⟨hlen, rfl⟩
  · rintro ⟨hlen, rfl⟩
    exact ⟨hlen, _, ⟨by omega, rfl⟩, rfl⟩

theorem writeOptionalU64_eq_ok {value : Option UInt64} :
    writeOptionalU64 value field = .ok bytes ↔ value ≠ some 0 ∧ bytes = optionalLayout value := by
  simp only [writeOptionalU64, validateGeneration, check_bind_eq_ok, require_eq_ok]
  cases value <;> simp [optionalLayout, eq_comm]

section Read

variable {max : Nat} {field : String}

theorem readCount_reads (hmax : max < 2 ^ 32) :
    Reads (readCount · max field) (· ≤ max) (leBytes 4 ·) := by
  intro format done rest count reader
  simp only [readCount, mid_readU32Le_bind, check_bind_eq_ok, require_eq_ok, ok.injEq, Prod.mk.injEq]
  constructor
  · rintro ⟨_, tail, -, rfl, hle, rfl, rfl⟩
    exact ⟨hle, tail, rfl, rfl⟩
  · rintro ⟨hle, tail, rfl, rfl⟩
    exact ⟨count, tail, by omega, rfl, hle, rfl, rfl⟩

theorem readBoundedBytes_reads (hmax : max < 2 ^ 32) :
    Reads (readBoundedBytes · max field) (·.length ≤ max) lenPrefixed := by
  intro format done rest value reader
  simp only [readBoundedBytes, (readCount_reads hmax).bind, mid_readExact_eq_ok]
  constructor
  · rintro ⟨_, _, hle, rfl, tail, rfl, rfl, rfl⟩
    exact ⟨hle, tail, by simp [lenPrefixed], by simp [lenPrefixed]⟩
  · rintro ⟨hle, tail, rfl, rfl⟩
    exact ⟨value.length, _, hle, append_assoc .., tail, rfl, rfl, by simp [lenPrefixed]⟩

theorem readBoundedString_reads (hmax : max < 2 ^ 32) :
    Reads (readBoundedString · max field) (fun text => (utf8Bytes text).length ≤ max)
      (fun text => lenPrefixed (utf8Bytes text)) := by
  intro format done rest text reader
  simp only [readBoundedString, (readBoundedBytes_reads hmax).bind, bind_eq_ok (x := Option.okOr _
    _), Option.okOr_eq_ok, fromUtf8_eq_some, ok.injEq, Prod.mk.injEq]
  constructor
  · rintro ⟨_, tail, hle, rfl, text, rfl, rfl, rfl⟩
    exact ⟨hle, tail, rfl, rfl⟩
  · rintro ⟨hle, tail, rfl, rfl⟩
    exact ⟨_, tail, hle, rfl, text, rfl, rfl, rfl⟩

/-- The byte of a flag. -/
def boolByte (value : Bool) : UInt8 := if value then 1 else 0

theorem readBool_reads : Reads (readBool · field) (fun _ => True) (fun value => [boolByte value]) := by
  intro format done rest value reader
  simp only [readBool, mid_readU8_bind, true_and]
  constructor
  · rintro ⟨byte, tail, rfl, h⟩
    split at h
    · cases h
      subst byte
      exact ⟨tail, rfl, rfl⟩
    · split at h
      · cases h
        subst byte
        exact ⟨tail, rfl, rfl⟩
      · cases h
  · rintro ⟨tail, rfl, rfl⟩
    cases value
    · exact ⟨0, tail, rfl, rfl⟩
    · exact ⟨1, tail, rfl, rfl⟩

theorem readOptionalU64_reads : Reads (readOptionalU64 · field) (· ≠ some 0) optionalLayout := by
  intro format done rest value reader
  simp only [readOptionalU64, readBool_reads.bind, mid_readU64Le_bind, true_and]
  constructor
  · rintro ⟨present, _, rfl, number, tail, rfl, h⟩
    cases present
    · rw [if_neg (by decide)] at h
      split at h
      · cases h
        subst number
        exact ⟨nofun, tail, rfl, by simp [optionalLayout, boolByte]⟩
      · cases h
    · rw [if_pos rfl] at h
      split at h
      · cases h
      · rename_i hne
        cases h
        exact ⟨by simpa using hne, tail, rfl, by simp [optionalLayout, boolByte]⟩
  · rintro ⟨hne, tail, rfl, rfl⟩
    cases value with
    | none => exact ⟨false, _, rfl, 0, tail, rfl, by simp [optionalLayout, boolByte]⟩
    | some number =>
      have hzero : number ≠ 0 := fun h => hne (by rw [h])
      exact ⟨true, _, rfl, number, tail, rfl, by simp [optionalLayout, boolByte, hzero]⟩

theorem readBranchId_reads : Reads (readBranchId · field) (fun _ => True) (·.bytes) := by
  intro format done rest branchId reader
  simp only [readBranchId, mid_readExact_bind, bind_eq_ok (x := Option.okOr _ _),
    Option.okOr_eq_ok, BranchId.tryFromSlice_eq_some, ok.injEq, Prod.mk.injEq, true_and]
  constructor
  · rintro ⟨_, tail, rfl, -, branchId, rfl, rfl, rfl⟩
    exact ⟨tail, rfl, rfl⟩
  · rintro ⟨tail, rfl, rfl⟩
    exact ⟨branchId.bytes, tail, rfl, branchId.length_bytes, branchId, rfl, rfl, rfl⟩

end Read

/-! ## Object names -/

/-- The value of a hexadecimal digit. -/
def hexValue (digit : UInt8) : Nat :=
  if digit < 0x3A then digit.toNat - 0x30 else digit.toNat - 0x57

/-- The bytes pairs of hexadecimal digits stand for. -/
def hexBytes : Bytes → Bytes
  | high :: low :: rest => UInt8.ofNat (hexValue high * 16 + hexValue low) :: hexBytes rest
  | _ => []

/-- The branch a text names. -/
def BranchId.ofText (text : Bytes) : Option BranchId :=
  BranchId.tryFromSlice (hexBytes (text.filter (· ≠ 0x2D)))

def parseLevelComponent (component : Bytes) : Option Nat :=
  match component with
  | [0x6C, a, b, c, d] =>
    if [a, b, c, d].all fun digit => 0x30 ≤ digit && digit ≤ 0x39 then
      some (hexValue a * 1000 + hexValue b * 100 + hexValue c * 10 + hexValue d)
    else none
  | _ => none

/-- `classify_table_object`, of the text of an object; `none` where it is no table data
of a branch. A name that is not the canonical one of its parts is refused. -/
def classifyTableObject (text : Bytes) : Option TableObject :=
  match text.splitOn 0x2F with
  | [family, branch, level, tableId] => do
    let branchId ← BranchId.ofText branch
    let level ← parseLevelComponent level
    let object ← TableObject.new branchId level tableId
    if family = utf8Bytes "tables" ∧ object.text = text then some object else none
  | _ => none

theorem hexValue_hexDigit (h : n < 16) : hexValue (hexDigit n) = n := by
  revert n
  decide

theorem hexDigit_ne (h : n < 16) : hexDigit n ≠ 0x2D ∧ hexDigit n ≠ 0x2F := by
  revert n
  decide

theorem hexDigit_decimal (h : n < 10) : (0x30 ≤ hexDigit n && hexDigit n ≤ 0x39) = true := by
  revert n
  decide

/-- The digits of bytes, with dashes between, stand for the bytes. -/
theorem hexBytes_digits {d : Nat → Bytes} (hd : ∀ i, ∀ byte ∈ d i, byte = 0x2D) (bytes : Bytes) :
    hexBytes ((bytes.mapIdx fun index byte => d index ++
      [hexDigit (byte.toNat / 16), hexDigit (byte.toNat % 16)]).flatten.filter (· ≠ 0x2D)) =
      bytes := by
  induction bytes generalizing d with
  | nil => rfl
  | cons byte bytes ih =>
    have hlt := byte.toNat_lt
    have hhigh : byte.toNat / 16 < 16 := by omega
    have hlow : byte.toNat % 16 < 16 := by omega
    have hnone : (d 0).filter (· ≠ 0x2D) = [] := filter_eq_nil_iff.2 fun b hb => by simp [hd 0 b hb]
    have hrest := ih (d := fun i => d (i + 1)) fun i => hd (i + 1)
    rw [mapIdx_cons, flatten_cons, filter_append, filter_append, hnone, nil_append,
      filter_cons_of_pos (by simpa using (hexDigit_ne hhigh).1), filter_cons_of_pos (by simpa using
      (hexDigit_ne hlow).1), filter_nil, cons_append, cons_append, nil_append, hexBytes, hrest,
      hexValue_hexDigit hhigh, hexValue_hexDigit hlow, Nat.div_add_mod']
    simp

theorem BranchId.ofText_text : ofText branchId.text = some branchId :=
  tryFromSlice_eq_some.2 (hexBytes_digits
    (d := fun index => if index ∈ [4, 6, 8, 10] then [0x2D] else [])
    (fun i byte hbyte => by split at hbyte <;> simp_all) branchId.bytes).symm

theorem parseLevelComponent_levelComponent (h : level ≤ maxTableLevel) :
    parseLevelComponent (levelComponent level) = some level := by
  simp only [maxTableLevel] at h
  have h1 : level / 1000 < 10 := by omega
  have h2 : level / 100 % 10 < 10 := by omega
  have h3 : level / 10 % 10 < 10 := by omega
  have h4 : level % 10 < 10 := by omega
  simp only [parseLevelComponent, levelComponent, map_cons, map_nil, all_cons,
    all_nil, hexDigit_decimal h1, hexDigit_decimal h2, hexDigit_decimal h3,
    hexDigit_decimal h4, Bool.and_self, ↓reduceIte, Option.some.injEq,
    hexValue_hexDigit (lt_trans h1 (by decide)), hexValue_hexDigit (lt_trans h2 (by decide)),
    hexValue_hexDigit (lt_trans h3 (by decide)), hexValue_hexDigit (lt_trans h4 (by decide))]
  omega

theorem slash_notMem_text : 0x2F ∉ branchId.text := by
  simp only [BranchId.text, mem_flatten, mem_mapIdx, not_exists, not_and]
  rintro _ ⟨i, hi, rfl⟩ hmem
  have hlt := (branchId.bytes[i]).toNat_lt
  rcases mem_append.1 hmem with hmem | hmem
  · split at hmem <;> simp at hmem
  · have hhigh := (hexDigit_ne (n := (branchId.bytes[i]).toNat / 16) (by omega)).2
    have hlow := (hexDigit_ne (n := (branchId.bytes[i]).toNat % 16) (by omega)).2
    simp only [mem_cons, not_mem_nil, or_false] at hmem
    exact hmem.elim (hhigh ·.symm) (hlow ·.symm)

theorem slash_notMem_levelComponent (h : level ≤ maxTableLevel) : 0x2F ∉ levelComponent level := by
  simp only [maxTableLevel] at h
  simp only [levelComponent, map_cons, map_nil, mem_cons, not_mem_nil, or_false, not_or]
  exact ⟨by decide, (hexDigit_ne (by omega)).2.symm, (hexDigit_ne (by omega)).2.symm,
    (hexDigit_ne (by omega)).2.symm, (hexDigit_ne (by omega)).2.symm⟩

theorem slash_notMem_component (h : isObjectComponent text = true) : 0x2F ∉ text := by
  simp only [isObjectComponent, Bool.and_eq_true, all_eq_true] at h
  intro hmem
  exact absurd (h.1.1.2 _ hmem) (by decide)

theorem TableObject.new_eq : new object.branchId object.level object.tableId = some object := by
  rw [new, dif_pos ⟨object.level_le, object.tableId_valid, object.length_le⟩]

/-- The name of an object is classified as the object. -/
theorem classifyTableObject_text : classifyTableObject object.text = some object := by
  have hsplit : object.text.splitOn 0x2F =
      [utf8Bytes "tables", object.branchId.text, levelComponent object.level, object.tableId] := by
    have htext : object.text = [0x2F].intercalate
        [utf8Bytes "tables", object.branchId.text, levelComponent object.level, object.tableId] := by
      simp [TableObject.text, tableObjectText, intercalate]
    rw [htext]
    refine splitOn_intercalate _ (fun part hpart => ?_) (by simp)
    simp only [mem_cons, not_mem_nil, or_false] at hpart
    rcases hpart with rfl | rfl | rfl | rfl
    · decide
    · exact slash_notMem_text _
    · exact slash_notMem_levelComponent object.level_le
    · exact slash_notMem_component object.tableId_valid
  simp [classifyTableObject, hsplit, BranchId.ofText_text, parseLevelComponent_levelComponent object.level_le,
    object.new_eq]

/-- And a text that is classified is the name of its object. -/
theorem classifyTableObject_eq_some {object : TableObject} :
    classifyTableObject text = some object ↔ object.text = text := by
  refine ⟨fun h => ?_, fun h => h ▸ classifyTableObject_text object⟩
  unfold classifyTableObject at h
  split at h
  · simp only [Option.bind_eq_bind, Option.bind_eq_some_iff] at h
    obtain ⟨-, -, -, -, object', -, h⟩ := h
    split at h
    · rename_i hcanonical
      cases h
      exact hcanonical.2
    · cases h
  · cases h

theorem utf8Bytes_ofList (chars : List Char) :
    utf8Bytes (String.ofList chars) = chars.flatMap String.utf8EncodeChar := by
  simp [utf8Bytes, String.toUTF8, String.ofList, utf8Encode]

/-- Bytes below 128 are a text. -/
theorem exists_ascii (h : ∀ byte ∈ bytes, byte < 0x80) : ∃ text : String, utf8Bytes text = bytes := by
  refine ⟨String.ofList (bytes.map fun byte => Char.ofNat byte.toNat), ?_⟩
  rw [utf8Bytes_ofList, flatMap_map]
  induction bytes with
  | nil => rfl
  | cons byte bytes ih =>
    have hchar : ∀ n < 128, String.utf8EncodeChar (Char.ofNat n) = [UInt8.ofNat n] := by decide
    have hbyte : byte.toNat < 128 := UInt8.lt_iff_toNat_lt.1 (h byte mem_cons_self)
    rw [flatMap_cons, ih fun b hb => h b (mem_cons_of_mem _ hb), hchar _ hbyte, UInt8.ofNat_toNat]
    rfl

theorem hexDigit_ascii (h : n < 16) : hexDigit n < 0x80 := by
  revert n
  decide

theorem isValidObjectByte_ascii {byte : UInt8} (h : isValidObjectByte byte = true) : byte < 0x80 := by
  simp only [isValidObjectByte, Bool.or_eq_true, Bool.and_eq_true, decide_eq_true_eq] at h
  rcases h with ((((⟨-, h⟩ | ⟨-, h⟩) | ⟨-, h⟩) | rfl) | rfl) | rfl
  · exact lt_of_le_of_lt h (by decide)
  · exact lt_of_le_of_lt h (by decide)
  · exact lt_of_le_of_lt h (by decide)
  · decide
  · decide
  · decide

/-- The name of an object is a text. -/
theorem TableObject.exists_text : ∃ text : String, utf8Bytes text = object.text := by
  refine exists_ascii fun byte hbyte => ?_
  have hlevel := object.level_le
  simp only [maxTableLevel] at hlevel
  simp only [text, tableObjectText, mem_append, mem_singleton] at hbyte
  rcases hbyte with (((((hfamily | rfl) | hbranch) | rfl) | hcomponent) | rfl) | hid
  · have hascii : (utf8Bytes "tables").all (· < 0x80) = true := by decide
    exact of_decide_eq_true (all_eq_true.1 hascii byte hfamily)
  · decide
  · simp only [BranchId.text, mem_flatten, mem_mapIdx] at hbranch
    obtain ⟨_, ⟨i, hi, rfl⟩, hmem⟩ := hbranch
    have hlt := (object.branchId.bytes[i]).toNat_lt
    rcases mem_append.1 hmem with hmem | hmem
    · split at hmem
      · rw [mem_singleton.1 hmem]
        decide
      · cases hmem
    · simp only [mem_cons, not_mem_nil, or_false] at hmem
      rcases hmem with rfl | rfl
      · exact hexDigit_ascii (by omega)
      · exact hexDigit_ascii (by omega)
  · decide
  · simp only [levelComponent, map_cons, map_nil, mem_cons, not_mem_nil, or_false] at hcomponent
    rcases hcomponent with rfl | rfl | rfl | rfl | rfl
    · decide
    · exact hexDigit_ascii (by omega)
    · exact hexDigit_ascii (by omega)
    · exact hexDigit_ascii (by omega)
    · exact hexDigit_ascii (by omega)
  · decide
  · have hvalid := object.tableId_valid
    simp only [isObjectComponent, Bool.and_eq_true, all_eq_true] at hvalid
    exact isValidObjectByte_ascii (hvalid.1.1.2 byte hid)

def TableIdentity.new (text : String) : Except TableRuntimeError TableIdentity :=
  match h : validateIdentityText text with
  | .error e => .error e
  | .ok () => .ok ⟨text, h⟩

theorem TableIdentity.new_eq_ok {text : String} {identity : TableIdentity} :
    new text = .ok identity ↔ identity.text = text := by
  unfold new
  constructor
  · intro h
    split at h
    · cases h
    · cases h
      rfl
  · rintro rfl
    split
    · rename_i h
      rw [identity.text_valid] at h
      cases h
    · rfl

theorem TableIdentity.utf8Bytes_ne_nil (identity : TableIdentity) : utf8Bytes identity.text ≠ [] := by
  intro hnil
  have h := identity.text_valid
  rw [validateIdentityText, if_pos hnil] at h
  cases h

/-! ## Facts, bounds and provenance of a table -/

/-- The timestamps `encode_facts` writes. The constructor refuses a range with one end. -/
def encodeTimestampRange : Option Timestamp × Option Timestamp → Bytes
  | (some low, some high) => 1 :: (leBytes 8 low.toNat ++ leBytes 8 high.toNat)
  | _ => 0 :: (leBytes 8 0 ++ leBytes 8 0)

/-- The timestamps `decode_facts` reads. -/
def decodeTimestampRange (reader : ByteReader) :
    Except FormatError ((Option Timestamp × Option Timestamp) × ByteReader) := do
  let (present, reader) ← readBool reader "timestamp_range_present"
  let (timestampMin, reader) ← reader.readU64Le
  let (timestampMax, reader) ← reader.readU64Le
  if present then .ok ((some timestampMin, some timestampMax), reader)
  else if timestampMin = Timestamp.epoch ∧ timestampMax = Timestamp.epoch then
    .ok ((none, none), reader)
  else .error (.invalidValue "timestamp_range")

def encodeFacts : Bytes :=
  leBytes 8 facts.byteCount.toNat ++ (leBytes 8 facts.rowCount.toNat ++
    (leBytes 4 facts.dataBlockCount.toNat ++ (leBytes 8 facts.commitMin.toNat ++
      (leBytes 8 facts.commitMax.toNat ++ encodeTimestampRange (facts.timestampMin, facts.timestampMax)))))

def decodeFacts (reader : ByteReader) : Except FormatError (TableManifestTableFacts × ByteReader) := do
  let (byteCount, reader) ← reader.readU64Le
  let (rowCount, reader) ← reader.readU64Le
  let (dataBlockCount, reader) ← reader.readU32Le
  let (commitMin, reader) ← reader.readU64Le
  let (commitMax, reader) ← reader.readU64Le
  let (timestamps, reader) ← decodeTimestampRange reader
  let facts ← TableManifestTableFacts.new byteCount rowCount (.ofNat dataBlockCount) commitMin
    commitMax timestamps.1 timestamps.2
  .ok (facts, reader)

def encodeBounds (bounds : TableManifestTableBounds) : Except FormatError Bytes := do
  let physicalFirst ← writeBytes bounds.physicalFirst maxManifestKeyBytes "physical_first"
  let physicalLast ← writeBytes bounds.physicalLast maxManifestKeyBytes "physical_last"
  let internalFirst ← writeBytes bounds.internalFirst maxManifestKeyBytes "internal_first"
  let internalLast ← writeBytes bounds.internalLast maxManifestKeyBytes "internal_last"
  .ok (physicalFirst ++ (physicalLast ++ (internalFirst ++ internalLast)))

def decodeBounds (reader : ByteReader) : Except FormatError (TableManifestTableBounds × ByteReader) := do
  let (physicalFirst, reader) ← readBoundedBytes reader maxManifestKeyBytes "physical_first"
  let (physicalLast, reader) ← readBoundedBytes reader maxManifestKeyBytes "physical_last"
  let (internalFirst, reader) ← readBoundedBytes reader maxManifestKeyBytes "internal_first"
  let (internalLast, reader) ← readBoundedBytes reader maxManifestKeyBytes "internal_last"
  let bounds ← TableManifestTableBounds.new physicalFirst physicalLast internalFirst internalLast
  .ok (bounds, reader)

def encodeProvenance : TableManifestTableProvenance → Bytes
  | .flush => [0]
  | .snapshotInstall => [1]
  | .compaction => [2]
  | .materializationReplacement sourceBranchId forkVersion _ =>
    3 :: (sourceBranchId.bytes ++ leBytes 8 forkVersion.toNat)
  | .recovered => [4]

def decodeProvenance (reader : ByteReader) : Except FormatError (TableManifestTableProvenance × ByteReader) := do
  let (tag, reader) ← reader.readU8
  if tag = 0 then .ok (.flush, reader)
  else if tag = 1 then .ok (.snapshotInstall, reader)
  else if tag = 2 then .ok (.compaction, reader)
  else if tag = 3 then do
    let (sourceBranchId, reader) ← readBranchId reader "materialization_source_branch_id"
    let (forkVersion, reader) ← reader.readU64Le
    let provenance ← newMaterializationReplacement sourceBranchId forkVersion
    .ok (provenance, reader)
  else if tag = 4 then .ok (.recovered, reader)
  else .error (.invalidValue "table_provenance")

/-- The bytes of the bounds of a table. -/
def TableManifestTableBounds.layout (bounds : TableManifestTableBounds) : Bytes :=
  lenPrefixed bounds.physicalFirst ++ (lenPrefixed bounds.physicalLast ++
    (lenPrefixed bounds.internalFirst ++ lenPrefixed bounds.internalLast))

theorem TableManifestTableFacts.new_eq_ok {byteCount rowCount : UInt64} {dataBlockCount : UInt32}
    {commitMin commitMax : CommitVersion} {timestampMin timestampMax : Option Timestamp}
    {facts : TableManifestTableFacts} :
    new byteCount rowCount dataBlockCount commitMin commitMax timestampMin
      timestampMax = .ok facts ↔ facts.byteCount = byteCount ∧ facts.rowCount = rowCount ∧
        facts.dataBlockCount = dataBlockCount ∧ facts.commitMin = commitMin ∧ facts.commitMax = commitMax ∧
        facts.timestampMin = timestampMin ∧ facts.timestampMax = timestampMax := by
  unfold new
  constructor
  · intro h
    split at h
    · cases h
    · cases h
      exact ⟨rfl, rfl, rfl, rfl, rfl, rfl, rfl⟩
  · rintro ⟨rfl, rfl, rfl, rfl, rfl, rfl, rfl⟩
    split
    · rename_i h
      rw [facts.valid] at h
      cases h
    · rfl

/-- A range of timestamps has both ends or none. -/
theorem TableManifestTableFacts.timestamps : facts.timestampMin.isSome = facts.timestampMax.isSome := by
  have h := facts.valid
  simp only [validateTableFacts, check_bind_eq_ok] at h
  obtain ⟨-, -, -, -, h⟩ := h
  split at h <;> simp_all

theorem TableManifestTableBounds.new_eq_ok {physicalFirst physicalLast internalFirst
    internalLast : Bytes} {bounds : TableManifestTableBounds} :
    new physicalFirst physicalLast internalFirst internalLast =
      .ok bounds ↔ bounds.physicalFirst = physicalFirst ∧ bounds.physicalLast = physicalLast ∧
        bounds.internalFirst = internalFirst ∧ bounds.internalLast = internalLast := by
  unfold new
  constructor
  · intro h
    split at h
    · cases h
    · cases h
      exact ⟨rfl, rfl, rfl, rfl⟩
  · rintro ⟨rfl, rfl, rfl, rfl⟩
    split
    · rename_i h
      rw [bounds.valid] at h
      cases h
    · rfl

theorem validateKeyRange_eq_ok {first last : Bytes} :
    validateKeyRange first last field = .ok () ↔ (first ≠ [] ∧ last ≠ [] ∧
      first.length ≤ maxManifestKeyBytes ∧ last.length ≤ maxManifestKeyBytes) ∧ first ≤ last := by
  simp only [validateKeyRange, check_bind_eq_ok, require_eq_ok]

theorem TableManifestTableBounds.lengths : bounds.physicalFirst.length ≤ maxManifestKeyBytes ∧
      bounds.physicalLast.length ≤ maxManifestKeyBytes ∧ bounds.internalFirst.length ≤ maxManifestKeyBytes ∧
      bounds.internalLast.length ≤ maxManifestKeyBytes := by
  obtain ⟨hphysical, hinternal⟩ := check_bind_eq_ok.1 bounds.valid
  obtain ⟨⟨-, -, h1, h2⟩, -⟩ := validateKeyRange_eq_ok.1 hphysical
  obtain ⟨⟨-, -, h3, h4⟩, -⟩ := validateKeyRange_eq_ok.1 hinternal
  exact ⟨h1, h2, h3, h4⟩

theorem encodeBounds_eq : encodeBounds bounds = .ok bounds.layout := by
  obtain ⟨h1, h2, h3, h4⟩ := bounds.lengths
  have hmax : maxManifestKeyBytes < 2 ^ 32 := by decide
  simp only [encodeBounds, bind_eq_ok, writeBytes_eq_ok hmax]
  exact ⟨_, ⟨h1, rfl⟩, _, ⟨h2, rfl⟩, _, ⟨h3, rfl⟩, _, ⟨h4, rfl⟩, rfl⟩

theorem decodeTimestampRange_reads : Reads decodeTimestampRange
    (fun range => range.1.isSome = range.2.isSome) encodeTimestampRange := by
  intro format done rest range reader
  simp only [decodeTimestampRange, readBool_reads.bind, mid_readU64Le_bind, true_and]
  constructor
  · rintro ⟨present, _, rfl, low, _, rfl, high, tail, rfl, h⟩
    cases present
    · rw [if_neg (by decide)] at h
      split at h
      · rename_i hepoch
        cases h
        obtain ⟨rfl, rfl⟩ := hepoch
        exact ⟨rfl, tail, rfl, by simp [encodeTimestampRange, boolByte, Timestamp.epoch]⟩
      · cases h
    · rw [if_pos rfl] at h
      cases h
      exact ⟨rfl, tail, by simp [encodeTimestampRange, boolByte], by simp [encodeTimestampRange, boolByte]⟩
  · rintro ⟨hboth, tail, rfl, rfl⟩
    obtain ⟨_ | low, _ | high⟩ := range
    · exact ⟨false, leBytes 8 0 ++ (leBytes 8 0 ++ tail), by simp [encodeTimestampRange, boolByte],
        0, _, rfl, 0, tail, rfl, by simp [encodeTimestampRange, boolByte, Timestamp.epoch]⟩
    · cases hboth
    · cases hboth
    · exact ⟨true, leBytes 8 low.toNat ++ (leBytes 8 high.toNat ++ tail), by simp [encodeTimestampRange, boolByte]⟩

theorem decodeFacts_reads : Reads decodeFacts (fun _ => True) encodeFacts := by
  intro format done rest facts reader
  simp only [decodeFacts, mid_readU64Le_bind, mid_readU32Le_bind,
    decodeTimestampRange_reads.bind, bind_eq_ok (x := TableManifestTableFacts.new ..),
    TableManifestTableFacts.new_eq_ok, ok.injEq, Prod.mk.injEq, true_and]
  constructor
  · rintro ⟨_, _, rfl, _, _, rfl, count, _, hcount, rfl, _, _, rfl, _, _, rfl, ⟨_, _⟩, tail, -, rfl,
      facts, ⟨rfl, rfl, hblocks, rfl, rfl, hmin, hmax⟩, rfl, rfl⟩
    subst hmin hmax
    have hcount : facts.dataBlockCount.toNat = count := by
      rw [hblocks, UInt32.toNat_ofNat_of_lt' hcount]
    exact ⟨tail, by simp [encodeFacts, hcount], by simp [encodeFacts, hcount]⟩
  · rintro ⟨tail, rfl, rfl⟩
    exact ⟨facts.byteCount, _, append_assoc .., facts.rowCount, _, append_assoc ..,
      facts.dataBlockCount.toNat, _, facts.dataBlockCount.toNat_lt, append_assoc .., facts.commitMin, _,
      append_assoc .., facts.commitMax, _, append_assoc .., (facts.timestampMin, facts.timestampMax), tail,
      facts.timestamps, rfl, facts, ⟨rfl, rfl, by simp, rfl, rfl, rfl, rfl⟩, rfl, by simp [encodeFacts]⟩

theorem decodeBounds_reads : Reads decodeBounds (fun _ => True) TableManifestTableBounds.layout := by
  intro format done rest bounds reader
  have hmax : maxManifestKeyBytes < 2 ^ 32 := by decide
  simp only [decodeBounds, (readBoundedBytes_reads hmax).bind,
    bind_eq_ok (x := TableManifestTableBounds.new ..), TableManifestTableBounds.new_eq_ok,
    ok.injEq, Prod.mk.injEq, true_and]
  constructor
  · rintro ⟨_, _, -, rfl, _, _, -, rfl, _, _, -, rfl, _, tail, -, rfl, bounds, ⟨rfl, rfl, rfl, rfl⟩, rfl, rfl⟩
    exact ⟨tail, by simp [TableManifestTableBounds.layout], by simp [TableManifestTableBounds.layout]⟩
  · rintro ⟨tail, rfl, rfl⟩
    obtain ⟨h1, h2, h3, h4⟩ := bounds.lengths
    exact ⟨_, _, h1, append_assoc .., _, _, h2, append_assoc .., _, _, h3, append_assoc .., _, tail,
      h4, rfl, bounds, ⟨rfl, rfl, rfl, rfl⟩, rfl, by simp [TableManifestTableBounds.layout]⟩

theorem newMaterializationReplacement_eq_ok {sourceBranchId : BranchId}
    {forkVersion : CommitVersion} {provenance : TableManifestTableProvenance} :
    newMaterializationReplacement sourceBranchId forkVersion =
      .ok provenance ↔ ∃ h, provenance = .materializationReplacement sourceBranchId forkVersion h := by
  unfold newMaterializationReplacement
  split_ifs with hzero
  · exact ⟨nofun, fun ⟨h, _⟩ => absurd hzero h⟩
  · rw [ok.injEq, eq_comm]
    exact ⟨fun h => ⟨hzero, h⟩, fun ⟨_, h⟩ => h⟩

theorem decodeProvenance_reads : Reads decodeProvenance (fun _ => True) encodeProvenance := by
  intro format done rest provenance reader
  simp only [decodeProvenance, mid_readU8_bind, true_and]
  constructor
  · rintro ⟨tag, tail, rfl, h⟩
    split at h
    · cases h; subst tag
      exact ⟨tail, rfl, rfl⟩
    split at h
    · cases h; subst tag
      exact ⟨tail, rfl, rfl⟩
    split at h
    · cases h; subst tag
      exact ⟨tail, rfl, rfl⟩
    split at h
    · subst tag
      simp only [readBranchId_reads.bind, mid_readU64Le_bind, bind_eq_ok (x := newMaterializationReplacement ..),
        newMaterializationReplacement_eq_ok, ok.injEq, Prod.mk.injEq, true_and] at h
      obtain ⟨source, _, rfl, version, tail, rfl, _, ⟨_, rfl⟩, rfl, rfl⟩ := h
      exact ⟨tail, by simp [encodeProvenance], by simp [encodeProvenance]⟩
    split at h
    · cases h; subst tag
      exact ⟨tail, rfl, rfl⟩
    · cases h
  · rintro ⟨tail, rfl, rfl⟩
    cases provenance with
    | flush => exact ⟨0, tail, rfl, rfl⟩
    | snapshotInstall => exact ⟨1, tail, rfl, rfl⟩
    | compaction => exact ⟨2, tail, rfl, rfl⟩
    | materializationReplacement source version hne =>
      refine ⟨3, _, rfl, ?_⟩
      rw [if_neg (by decide), if_neg (by decide), if_neg (by decide), if_pos rfl]
      simp only [readBranchId_reads.bind, mid_readU64Le_bind, bind_eq_ok (x := newMaterializationReplacement ..),
        newMaterializationReplacement_eq_ok, ok.injEq, Prod.mk.injEq, true_and]
      exact ⟨source, _, append_assoc .., version, tail, rfl, _, ⟨hne, rfl⟩, rfl, by simp [encodeProvenance]⟩
    | recovered => exact ⟨4, tail, rfl, rfl⟩

end Strata
