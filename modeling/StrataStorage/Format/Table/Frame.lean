import Mathlib.Data.List.Forall2
import StrataStorage.Format.Reader

/-!
# Frames of an encoded table

`format/table/mod.rs`: the header and the footer of an encoded table and the
checksummed frames that hold its blocks. The checksum and the compressor are
third-party code and parameters here (`TableCodec`); nothing but the length of
what they return is used.

* `TableBlockFrame.new_eq_ok`, `encodeTableBlockFrame_eq_ok`: when a payload
  has a frame, and how long the frame is;
* `encodeFilterFrame_isOk`, `encodeTableFooter_eq_ok`: the same for the filter
  frame, and for a footer that locates consecutive frames.
-/

namespace Strata

open Except List

variable {payload : Bytes}

/-! ## Limits -/

def tableHeaderSize : Nat := 64
def tableFooterSize : Nat := 64
def tableBlockFrameOverhead : Nat := 12 + 4
def maxTableDataBlocks : Nat := 1048576
def maxTableRows : Nat := 2 ^ 40
def maxTableBlockEntries : Nat := 1048576
def maxTableKeyBytes : Nat := 64 * 1024
def maxTableRowBytes : Nat := 64 * 1024 * 1024
def maxTableBlockEncodedBytes : Nat := 64 * 1024 * 1024
def maxTableBlockDecodedBytes : Nat := 64 * 1024 * 1024
def maxFilterProbes : Nat := 30
def maxFilterBitsBytes : Nat := 16 * 1024 * 1024

/-- What the table format takes from its checksum and compression crates. -/
structure TableCodec where
  crc32 : Bytes → UInt32
  zstdCompress : Bytes → Option Bytes

/-! ## Block frames -/

inductive TableBlockKind where
  | data
  | index
  | filter
  | properties
  deriving DecidableEq

def TableBlockKind.asByte : TableBlockKind → UInt8
  | .data => 1
  | .index => 2
  | .filter => 3
  | .properties => 4

inductive TableCompression where
  | uncompressed
  | zstd
  deriving DecidableEq

def TableCompression.asByte : TableCompression → UInt8
  | .uncompressed => 0
  | .zstd => 1

def validateBlockPayloadLen (len : Nat) (field : String) (max : Nat) : Except FormatError Unit :=
  .require (len ≠ 0 ∧ len ≤ max) (.invalidLength field)

/-- A block and how its payload is stored. -/
structure TableBlockFrame where
  kind : TableBlockKind
  compression : TableCompression
  decodedPayload : Bytes
  payload_valid : validateBlockPayloadLen decodedPayload.length "decoded_len" maxTableBlockDecodedBytes = .ok ()

def TableBlockFrame.new (kind : TableBlockKind) (compression : TableCompression)
    (decodedPayload : Bytes) : Except FormatError TableBlockFrame :=
  match h : validateBlockPayloadLen decodedPayload.length "decoded_len" maxTableBlockDecodedBytes with
  | .error e => .error e
  | .ok () => .ok ⟨kind, compression, decodedPayload, h⟩

def zstdCompress (codec : TableCodec) (decodedPayload : Bytes) : Except FormatError Bytes :=
  (codec.zstdCompress decodedPayload).okOr (.compressionFailed "table_block_frame")

/-- The stored form of a payload. -/
def encodePayload (codec : TableCodec) (compression : TableCompression) (payload : Bytes) :
    Except FormatError Bytes :=
  match compression with
  | .uncompressed => .ok payload
  | .zstd => zstdCompress codec payload

def encodeTableBlockFrame (codec : TableCodec) (frame : TableBlockFrame) : Except FormatError Bytes := do
  let encodedPayload ← encodePayload codec frame.compression frame.decodedPayload
  validateBlockPayloadLen encodedPayload.length "encoded_len" maxTableBlockEncodedBytes
  let encodedLen ← toU32 encodedPayload.length "encoded_len"
  let decodedLen ← toU32 frame.decodedPayload.length "decoded_len"
  let bytes := [frame.kind.asByte, frame.compression.asByte] ++ leBytes 2 0 ++
    leBytes 4 encodedLen ++ leBytes 4 decodedLen ++ encodedPayload
  .ok (bytes ++ leBytes 4 (codec.crc32 bytes).toNat)

theorem validateBlockPayloadLen_eq_ok {len max : Nat} {field : String} {u : Unit} :
    validateBlockPayloadLen len field max = .ok u ↔ len ≠ 0 ∧ len ≤ max := require_eq_ok

variable {compression : TableCompression} {frame : TableBlockFrame}

theorem TableBlockFrame.new_eq_ok {kind : TableBlockKind} : new kind compression payload = .ok frame ↔
      frame.kind = kind ∧ frame.compression = compression ∧ frame.decodedPayload = payload := by
  unfold new
  split
  · rename_i h
    refine ⟨(nomatch ·), ?_⟩
    rintro ⟨rfl, rfl, rfl⟩
    rw [frame.payload_valid] at h
    cases h
  · refine ⟨fun h => by cases h; exact ⟨rfl, rfl, rfl⟩, ?_⟩
    rintro ⟨rfl, rfl, rfl⟩
    rfl

/-- A payload of legal length has a frame. -/
theorem TableBlockFrame.exists_new (hne : payload ≠ []) (hlen : payload.length ≤ maxTableBlockDecodedBytes)
    (kind : TableBlockKind) (compression : TableCompression) :
    ∃ frame, new kind compression payload = .ok frame := by
  have hvalid : validateBlockPayloadLen payload.length "decoded_len" maxTableBlockDecodedBytes =
      .ok () := validateBlockPayloadLen_eq_ok.mpr ⟨by simpa using hne, hlen⟩
  exact ⟨⟨kind, compression, payload, hvalid⟩, new_eq_ok.mpr ⟨rfl, rfl, rfl⟩⟩

theorem TableBlockFrame.payload_length (frame : TableBlockFrame) :
    frame.decodedPayload.length ≠ 0 ∧ frame.decodedPayload.length ≤ maxTableBlockDecodedBytes :=
  validateBlockPayloadLen_eq_ok.mp frame.payload_valid

variable {codec : TableCodec} {bytes : Bytes}

/-- A frame is encoded exactly when its stored payload has a legal length. -/
theorem encodeTableBlockFrame_isOk : (∃ bytes, encodeTableBlockFrame codec frame = .ok bytes) ↔
      ∃ encoded, encodePayload codec frame.compression frame.decodedPayload = .ok encoded ∧
        encoded.length ≠ 0 ∧ encoded.length ≤ maxTableBlockEncodedBytes := by
  have hdecoded : frame.decodedPayload.length < 2 ^ 32 := lt_of_le_of_lt frame.payload_length.2 (by decide)
  simp only [encodeTableBlockFrame, bind_eq_ok, validateBlockPayloadLen_eq_ok, toU32_eq_ok]
  constructor
  · rintro ⟨_, encoded, hencoded, -, hlen, -⟩
    exact ⟨encoded, hencoded, hlen⟩
  · rintro ⟨encoded, hencoded, hlen⟩
    have h32 : encoded.length < 2 ^ 32 := lt_of_le_of_lt hlen.2 (by decide)
    exact ⟨_, encoded, hencoded, (), hlen, _, ⟨h32, rfl⟩, _, ⟨hdecoded, rfl⟩, rfl⟩

/-- Only a compressor can fail to store a payload of legal length. -/
theorem encodePayload_isOk (hne : payload.length ≠ 0) (hle : payload.length ≤ maxTableBlockEncodedBytes) :
    (∃ encoded, encodePayload codec compression payload = .ok encoded ∧
        encoded.length ≠ 0 ∧ encoded.length ≤ maxTableBlockEncodedBytes) ↔
      (compression = .zstd → ∃ encoded, codec.zstdCompress payload = some encoded ∧
        encoded.length ≠ 0 ∧ encoded.length ≤ maxTableBlockEncodedBytes) := by
  cases compression with
  | uncompressed => exact ⟨fun _ h => (nomatch h), fun _ => ⟨payload, rfl, hne, hle⟩⟩
  | zstd => simp only [encodePayload, zstdCompress, Option.okOr_eq_ok, forall_const]

/-- How long an encoded frame is. -/
theorem length_encodeTableBlockFrame (h : encodeTableBlockFrame codec frame = .ok bytes) :
    tableBlockFrameOverhead < bytes.length ∧
      bytes.length ≤ tableBlockFrameOverhead + maxTableBlockEncodedBytes := by
  simp only [encodeTableBlockFrame, bind_eq_ok, validateBlockPayloadLen_eq_ok] at h
  obtain ⟨encoded, -, -, ⟨hne, hle⟩, _, -, _, -, h⟩ := h
  cases h
  simp only [tableBlockFrameOverhead, length_append, length_cons, length_nil, length_leBytes]
  omega

/-- An uncompressed payload of legal length is encoded. -/
theorem encodeTableBlockFrame_uncompressed (codec : TableCodec) (h : frame.compression = .uncompressed) :
    ∃ bytes, encodeTableBlockFrame codec frame = .ok bytes :=
  encodeTableBlockFrame_isOk.mpr
    ⟨frame.decodedPayload, by rw [h]; rfl, frame.payload_length.1, frame.payload_length.2⟩

/-! ## The filter frame -/

structure TableFilterFrame where
  probes : Nat
  keyCount : Nat
  bitCount : Nat
  bits : Bytes

def encodeFilterFrame (codec : TableCodec) (frame : TableFilterFrame) : Except FormatError Bytes := do
  .require (frame.probes ≤ maxFilterProbes) (.invalidValue "filter_probes")
  .require (frame.bits.length ≤ maxFilterBitsBytes) (.invalidLength "filter_bits")
  .require (frame.bits.length = (frame.bitCount + 7) / 8) (.invalidLength "filter_bits")
  let payload := leBytes 4 1 ++ leBytes 1 frame.probes ++ leBytes 8 frame.keyCount ++
    leBytes 8 frame.bitCount ++ frame.bits
  let block ← TableBlockFrame.new .filter .uncompressed payload
  encodeTableBlockFrame codec block

/-- A filter frame is encoded exactly when it passes the checks of the decoder. -/
theorem encodeFilterFrame_isOk {frame : TableFilterFrame} : (∃ bytes, encodeFilterFrame codec frame = .ok bytes) ↔
      frame.probes ≤ maxFilterProbes ∧ frame.bits.length ≤ maxFilterBitsBytes ∧
        frame.bits.length = (frame.bitCount + 7) / 8 := by
  simp only [encodeFilterFrame, bind_eq_ok, require_eq_ok]
  constructor
  · rintro ⟨_, -, hprobes, -, hbits, -, hcount, -⟩
    exact ⟨hprobes, hbits, hcount⟩
  · rintro ⟨hprobes, hbits, hcount⟩
    set payload := leBytes 4 1 ++ leBytes 1 frame.probes ++ leBytes 8 frame.keyCount ++
      leBytes 8 frame.bitCount ++ frame.bits with hpayload
    have hlen : payload.length ≤ maxTableBlockDecodedBytes := by
      simp only [hpayload, length_append, length_leBytes, maxTableBlockDecodedBytes, maxFilterBitsBytes] at hbits ⊢
      omega
    obtain ⟨block, hblock⟩ := TableBlockFrame.exists_new
      (ne_nil_of_length_pos (by simp [hpayload])) hlen .filter .uncompressed
    obtain ⟨bytes, hbytes⟩ := encodeTableBlockFrame_uncompressed codec (TableBlockFrame.new_eq_ok.mp hblock).2.1
    exact ⟨bytes, (), hprobes, (), hbits, (), hcount, block, hblock, hbytes⟩

theorem length_encodeFilterFrame {frame : TableFilterFrame}
    (h : encodeFilterFrame codec frame = .ok bytes) : 0 < bytes.length ∧ bytes.length < 2 ^ 32 := by
  simp only [encodeFilterFrame, bind_eq_ok] at h
  obtain ⟨-, -, -, -, -, -, block, -, h⟩ := h
  have := length_encodeTableBlockFrame h
  simp only [tableBlockFrameOverhead, maxTableBlockEncodedBytes] at this
  omega

/-! ## Header and footer -/

structure TableHeader where
  targetDataBlockSize : Nat
  dataBlockCount : Nat
  rowCount : Nat
  commitMin : CommitVersion
  commitMax : CommitVersion

/-- `TableHeader::new`, with `validate_table_header_facts`. -/
def TableHeader.new (targetDataBlockSize dataBlockCount rowCount : Nat)
    (commitMin commitMax : CommitVersion) : Except FormatError TableHeader := do
  .require (targetDataBlockSize ≠ 0) (.invalidLength "target_data_block_size")
  .require (dataBlockCount ≠ 0 ∧ dataBlockCount ≤ maxTableDataBlocks) (.invalidLength "data_block_count")
  .require (rowCount ≠ 0 ∧ rowCount ≤ maxTableRows) (.invalidLength "row_count")
  .require (commitMin ≤ commitMax) (.invalidValue "commit_range")
  .ok ⟨targetDataBlockSize, dataBlockCount, rowCount, commitMin, commitMax⟩

def encodeTableHeader (header : TableHeader) : Bytes :=
  [0x53, 0x54, 0x54, 0x42] ++ leBytes 4 1 ++ leBytes 4 tableHeaderSize ++ leBytes 4 0 ++
    leBytes 4 header.targetDataBlockSize ++ leBytes 4 header.dataBlockCount ++ leBytes 8 header.rowCount ++
    leBytes 8 header.commitMin.toNat ++ leBytes 8 header.commitMax.toNat ++ List.replicate 16 0

@[simp] theorem length_encodeTableHeader (header : TableHeader) :
    (encodeTableHeader header).length = tableHeaderSize := by
  simp [encodeTableHeader, tableHeaderSize]

structure TableFooter where
  indexBlockOffset : Nat
  indexBlockFrameLen : Nat
  filterBlockOffset : Nat
  filterBlockFrameLen : Nat
  propertiesBlockOffset : Nat
  propertiesBlockFrameLen : Nat

def TableFooter.newWithFilter (indexBlockOffset indexBlockFrameLen filterBlockOffset
    filterBlockFrameLen propertiesBlockOffset propertiesBlockFrameLen : Nat) :
    Except FormatError TableFooter := do
  .require (indexBlockFrameLen ≠ 0) (.invalidLength "index_block_frame_len")
  .require (propertiesBlockFrameLen ≠ 0) (.invalidLength "properties_block_frame_len")
  .ok ⟨indexBlockOffset, indexBlockFrameLen, filterBlockOffset, filterBlockFrameLen,
    propertiesBlockOffset, propertiesBlockFrameLen⟩

def checkedFooterRange (offset len : Nat) (field : String) : Except FormatError (Nat × Nat) := do
  .require (len ≠ 0) (.invalidLength field)
  .ok (offset, offset + len)

def validateFooterLayout (footer : TableFooter) (footerStart : Nat) : Except FormatError Unit := do
  .require (tableHeaderSize ≤ footerStart) (.invalidLength "table_footer_layout")
  let (indexStart, indexEnd) ← checkedFooterRange footer.indexBlockOffset footer.indexBlockFrameLen "index_block"
  .require (tableHeaderSize ≤ indexStart) (.invalidLength "index_block_offset")
  .require (indexEnd ≤ footerStart) (.invalidLength "index_block_range")
  if footer.filterBlockFrameLen ≠ 0 then
    let (filterStart, filterEnd) ← checkedFooterRange footer.filterBlockOffset
      footer.filterBlockFrameLen "filter_block"
    .require (tableHeaderSize ≤ filterStart) (.invalidLength "filter_block_offset")
    .require (filterEnd = indexStart) (.invalidLength "filter_block_range")
  else .require (footer.filterBlockOffset = 0) (.invalidLength "filter_block_offset")
  let (propertiesStart, propertiesEnd) ← checkedFooterRange footer.propertiesBlockOffset
    footer.propertiesBlockFrameLen "properties_block"
  .require (propertiesStart = indexEnd) (.invalidLength "properties_block_offset")
  .require (propertiesEnd = footerStart) (.invalidLength "properties_block_range")

def encodeTableFooter (codec : TableCodec) (footer : TableFooter) (tableBytes : Bytes) :
    Except FormatError Bytes := do
  validateFooterLayout footer tableBytes.length
  let bytes := leBytes 8 footer.indexBlockOffset ++ leBytes 4 footer.indexBlockFrameLen ++
    leBytes 8 footer.filterBlockOffset ++ leBytes 4 footer.filterBlockFrameLen ++
    leBytes 8 footer.propertiesBlockOffset ++ leBytes 4 footer.propertiesBlockFrameLen ++
    [0x53, 0x54, 0x54, 0x46] ++ List.replicate 20 0
  .ok (bytes ++ leBytes 4 (codec.crc32 (tableBytes ++ bytes)).toNat)

/-- A footer for an index frame, a properties frame right after it and maybe a
filter frame right before it is encoded. -/
theorem encodeTableFooter_isOk (codec : TableCodec) {footer : TableFooter} {tableBytes : Bytes}
    (hindex : footer.indexBlockFrameLen ≠ 0) (hproperties : footer.propertiesBlockFrameLen ≠ 0)
    (hstart : tableHeaderSize ≤ footer.indexBlockOffset)
    (hfilter : footer.filterBlockFrameLen ≠ 0 → tableHeaderSize ≤ footer.filterBlockOffset ∧
      footer.filterBlockOffset + footer.filterBlockFrameLen = footer.indexBlockOffset)
    (hnone : footer.filterBlockFrameLen = 0 → footer.filterBlockOffset = 0)
    (hnext : footer.propertiesBlockOffset = footer.indexBlockOffset + footer.indexBlockFrameLen)
    (hend : footer.propertiesBlockOffset + footer.propertiesBlockFrameLen = tableBytes.length) :
    ∃ bytes, encodeTableFooter codec footer tableBytes = .ok bytes := by
  have hlayout : validateFooterLayout footer tableBytes.length = .ok () := by
    have h₁ : tableHeaderSize ≤ tableBytes.length := by omega
    have h₂ : footer.indexBlockOffset + footer.indexBlockFrameLen ≤ tableBytes.length := by omega
    simp only [validateFooterLayout, checkedFooterRange, require, h₁, hindex, h₂, hstart,
      hproperties, hnext, ne_eq, not_false_eq_true, ↓reduceIte, ok_bind]
    by_cases hlen : footer.filterBlockFrameLen = 0
    · have hnot := hnone hlen
      simp [hlen, hnot, ← hnext, hend]
    · obtain ⟨hf₁, hf₂⟩ := hfilter hlen
      simp [hlen, hf₁, hf₂, ← hnext, hend]
  exact ⟨_, by rw [encodeTableFooter, hlayout]; rfl⟩

end Strata
