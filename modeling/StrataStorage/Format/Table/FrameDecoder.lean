import StrataStorage.Format.Table.Frame

/-!
# Decoding frames

The decoders of `format/table/mod.rs`. The decompressor is third-party code and
a parameter (`TableBlockCodec`); all that is assumed of it is that it undoes the
compressor (`TableBlockCodec.RoundTrips`). Each decoder is the inverse of its
encoder:

* `decodeTableBlockFrameInner_append`: a frame in front of any bytes is read
  back, together with its length;
* `decodeFilterFrame_encode`, `decodeTableHeader_append`,
  `decodeTableFooter_append`: the same for the filter frame, the header and the
  footer.
-/

namespace Strata

open ByteReader Except List

variable {frame : TableBlockFrame} {bytes : Bytes} {kind : TableBlockKind} {footer : TableFooter}
variable {expectedKind : Option TableBlockKind}

/-! ## Block frames -/

def tableBlockFrameHeaderSize : Nat := 12

/-- The compression crate, with its decompressor: an upper bound on the decoded
length is handed to it. -/
structure TableBlockCodec extends TableCodec where
  zstdDecompress : Bytes → Nat → Option Bytes

/-- Decompressing what was compressed, with the length it had, gives it back. -/
def TableBlockCodec.RoundTrips (codec : TableBlockCodec) : Prop :=
  ∀ payload encoded, codec.zstdCompress payload = some encoded →
    codec.zstdDecompress encoded payload.length = some payload

def zstdDecompress (codec : TableBlockCodec) (encodedPayload : Bytes) (decodedLen : Nat) :
    Except FormatError Bytes :=
  (codec.zstdDecompress encodedPayload decodedLen).okOr (.decompressionFailed "table_block_frame")

def TableBlockKind.fromByte (value : UInt8) : Except FormatError TableBlockKind :=
  if value = 1 then .ok .data
  else if value = 2 then .ok .index
  else if value = 3 then .ok .filter
  else if value = 4 then .ok .properties
  else .error (.invalidValue "block_type")

def TableCompression.fromByte (value : UInt8) : Except FormatError TableCompression :=
  if value = 0 then .ok .uncompressed
  else if value = 1 then .ok .zstd
  else .error (.unsupportedCompression "table_block_frame" value)

theorem TableBlockKind.fromByte_asByte (kind : TableBlockKind) : fromByte kind.asByte = .ok kind := by
  cases kind <;> rfl

theorem TableCompression.fromByte_asByte (compression : TableCompression) :
    fromByte compression.asByte = .ok compression := by
  cases compression <;> rfl

/-- The fields in front of a frame's payload. -/
structure TableBlockFrameHeader where
  kind : TableBlockKind
  compression : TableCompression
  encodedLen : Nat
  decodedLen : Nat

/-- `decode_table_block_frame_inner`, up to the payload. -/
def decodeTableBlockFrameHeader (bytes : Bytes) (expectedKind : Option TableBlockKind) :
    Except FormatError TableBlockFrameHeader := do
  .require (tableBlockFrameHeaderSize ≤ bytes.length)
    (.insufficientBytes "table_block_frame" tableBlockFrameHeaderSize bytes.length)
  let reader := ByteReader.new "table_block_frame" (bytes.take tableBlockFrameHeaderSize)
  let (kind, reader) ← reader.readU8
  let kind ← TableBlockKind.fromByte kind
  .require (∀ expected ∈ expectedKind, kind = expected) (.invalidValue "block_type")
  let (compression, reader) ← reader.readU8
  let compression ← TableCompression.fromByte compression
  let (flags, reader) ← reader.readU16Le
  .require (flags = 0) (.unsupportedFlags "table_block_frame" flags)
  let (encodedLen, reader) ← reader.readU32Le
  let (decodedLen, reader) ← reader.readU32Le
  reader.finish
  validateBlockPayloadLen encodedLen "encoded_len" maxTableBlockEncodedBytes
  validateBlockPayloadLen decodedLen "decoded_len" maxTableBlockDecodedBytes
  .ok ⟨kind, compression, encodedLen, decodedLen⟩

/-- The payload of a frame from its stored form. -/
def decodePayload (codec : TableBlockCodec) (header : TableBlockFrameHeader)
    (encodedPayload : Bytes) : Except FormatError Bytes :=
  match header.compression with
  | .uncompressed => do
    .require (header.encodedLen = header.decodedLen) (.invalidLength "table_block_lengths")
    .ok encodedPayload
  | .zstd => zstdDecompress codec encodedPayload header.decodedLen

/-- `decode_table_block_frame_inner`: the frame at the front of the bytes, and
its length. -/
def decodeTableBlockFrameInner (codec : TableBlockCodec) (bytes : Bytes)
    (expectedKind : Option TableBlockKind) : Except FormatError (TableBlockFrame × Nat) := do
  let header ← decodeTableBlockFrameHeader bytes expectedKind
  let totalLen := tableBlockFrameHeaderSize + header.encodedLen + 4
  .require (totalLen ≤ bytes.length) (.insufficientBytes "table_block_frame" totalLen bytes.length)
  let encodedPayload := slice bytes tableBlockFrameHeaderSize (tableBlockFrameHeaderSize + header.encodedLen)
  let storedCrc := ofLeBytes (slice bytes (totalLen - 4) totalLen)
  let computedCrc := (codec.crc32 (bytes.take (totalLen - 4))).toNat
  .require (storedCrc = computedCrc) (.checksumMismatch "table_block_frame" storedCrc computedCrc)
  let decodedPayload ← decodePayload codec header encodedPayload
  .require (decodedPayload.length = header.decodedLen) (.invalidLength "decoded_len")
  let frame ← TableBlockFrame.new header.kind header.compression decodedPayload
  .ok (frame, totalLen)

def decodeTableBlockFrameAs (codec : TableBlockCodec) (bytes : Bytes)
    (expectedKind : TableBlockKind) : Except FormatError (TableBlockFrame × Nat) :=
  decodeTableBlockFrameInner codec bytes (some expectedKind)

def decodeExactFrame (codec : TableBlockCodec) (bytes : Bytes) (expectedKind : TableBlockKind) :
    Except FormatError (TableBlockFrame × Nat) := do
  let (frame, consumed) ← decodeTableBlockFrameAs codec bytes expectedKind
  .require (consumed = bytes.length) (.trailingData "immutable_table" (bytes.length - consumed))
  .ok (frame, consumed)

/-- The first bytes of a frame. -/
def frameHead (kind : TableBlockKind) (compression : TableCompression) (encodedLen decodedLen : Nat) : Bytes :=
  [kind.asByte, compression.asByte] ++ leBytes 2 0 ++ leBytes 4 encodedLen ++ leBytes 4 decodedLen

@[simp] theorem length_frameHead (kind : TableBlockKind) (compression : TableCompression)
    (encodedLen decodedLen : Nat) :
    (frameHead kind compression encodedLen decodedLen).length = tableBlockFrameHeaderSize := by
  simp [frameHead, tableBlockFrameHeaderSize]

/-- What an encoded frame consists of. -/
theorem encodeTableBlockFrame_eq_ok {codec : TableCodec} (h : encodeTableBlockFrame codec frame = .ok bytes) :
    ∃ encoded, encodePayload codec frame.compression frame.decodedPayload = .ok encoded ∧
      (encoded.length ≠ 0 ∧ encoded.length ≤ maxTableBlockEncodedBytes) ∧
      let body := frameHead frame.kind frame.compression encoded.length frame.decodedPayload.length ++ encoded
      bytes = body ++ leBytes 4 (codec.crc32 body).toNat := by
  simp only [encodeTableBlockFrame, bind_eq_ok, validateBlockPayloadLen_eq_ok, toU32_eq_ok] at h
  obtain ⟨encoded, hencoded, -, hlen, _, ⟨-, rfl⟩, _, ⟨-, rfl⟩, h⟩ := h
  cases h
  exact ⟨encoded, hencoded, hlen, rfl⟩

theorem decodeTableBlockFrameHeader_append (hkind : ∀ expected ∈ expectedKind, kind = expected)
    (compression : TableCompression) {encodedLen decodedLen : Nat}
    (hencoded : encodedLen ≠ 0 ∧ encodedLen ≤ maxTableBlockEncodedBytes)
    (hdecoded : decodedLen ≠ 0 ∧ decodedLen ≤ maxTableBlockDecodedBytes) (tail : Bytes) :
    decodeTableBlockFrameHeader (frameHead kind compression encodedLen decodedLen ++ tail)
      expectedKind = .ok ⟨kind, compression, encodedLen, decodedLen⟩ := by
  have hlen : tableBlockFrameHeaderSize ≤
      (frameHead kind compression encodedLen decodedLen ++ tail).length := by simp
  have htake : (frameHead kind compression encodedLen decodedLen ++ tail).take
      tableBlockFrameHeaderSize = kind.asByte :: compression.asByte ::
        (leBytes 2 0 ++ (leBytes 4 encodedLen ++ (leBytes 4 decodedLen ++ []))) := by
    rw [take_left' (length_frameHead ..)]
    simp [frameHead]
  have h₁ : encodedLen < 2 ^ 32 := lt_of_le_of_lt hencoded.2 (by decide)
  have h₂ : decodedLen < 2 ^ 32 := lt_of_le_of_lt hdecoded.2 (by decide)
  simp only [decodeTableBlockFrameHeader, htake, new_eq_mid, check_bind_eq_ok, require_eq_ok, mid_readU8_bind,
    mid_readU16Le_bind, mid_readU32Le_bind, mid_finish_eq_ok, validateBlockPayloadLen_eq_ok, bind_eq_ok
    (x := TableBlockKind.fromByte _), bind_eq_ok (x := TableCompression.fromByte _)]
  exact ⟨hlen, _, _, rfl, kind, TableBlockKind.fromByte_asByte kind, hkind, _, _, rfl, compression,
    TableCompression.fromByte_asByte compression, 0, _, by decide, rfl, rfl, _, _, h₁, rfl, _, _, h₂,
    rfl, rfl, hencoded, hdecoded, rfl⟩

variable {codec : TableBlockCodec} {filter : TableFilterFrame} {header : TableHeader}
  {tableBytes : Bytes} {n : Nat}

section

variable (hcodec : codec.RoundTrips)
include hcodec

/-- The stored form of a payload is turned back into the payload. -/
theorem decodePayload_encode {compression : TableCompression} {payload encoded : Bytes}
    (h : encodePayload codec.toTableCodec compression payload = .ok encoded) :
    decodePayload codec ⟨kind, compression, encoded.length, payload.length⟩ encoded = .ok payload := by
  cases compression with
  | uncompressed =>
    cases h
    simp [decodePayload, require]
  | zstd =>
    rw [encodePayload, zstdCompress, Option.okOr_eq_ok] at h
    rw [decodePayload, zstdDecompress, hcodec _ _ h]
    rfl

/-- A frame in front of any bytes is read back. -/
theorem decodeTableBlockFrameInner_append (hkind : ∀ expected ∈ expectedKind, frame.kind = expected)
    (h : encodeTableBlockFrame codec.toTableCodec frame = .ok bytes) (tail : Bytes) :
    decodeTableBlockFrameInner codec (bytes ++ tail) expectedKind = .ok (frame, bytes.length) := by
  obtain ⟨encoded, hencoded, hlen, rfl⟩ := encodeTableBlockFrame_eq_ok h
  set head := frameHead frame.kind frame.compression encoded.length frame.decodedPayload.length with hhead
  have hheadLen : head.length = tableBlockFrameHeaderSize := length_frameHead ..
  have hbody : (head ++ encoded).length = tableBlockFrameHeaderSize + encoded.length := by
    rw [length_append, hheadLen]
  set crc := leBytes 4 (codec.crc32 (head ++ encoded)).toNat with hcrc
  have htotal : tableBlockFrameHeaderSize + encoded.length + 4 - 4 =
      tableBlockFrameHeaderSize + encoded.length := by omega
  have hpayload : slice (head ++ encoded ++ crc ++ tail) tableBlockFrameHeaderSize
      (tableBlockFrameHeaderSize + encoded.length) = encoded := by
    rw [append_assoc, append_assoc, slice_append_mid hheadLen rfl]
  have hstored : slice (head ++ encoded ++ crc ++ tail) (tableBlockFrameHeaderSize + encoded.length)
      (tableBlockFrameHeaderSize + encoded.length + 4) = crc := by
    rw [append_assoc, slice_append_mid hbody (by rw [hcrc, length_leBytes])]
  have hprefix : (head ++ encoded ++ crc ++ tail).take
      (tableBlockFrameHeaderSize + encoded.length) = head ++ encoded := by
    rw [append_assoc, take_left' hbody]
  have hfits : tableBlockFrameHeaderSize + encoded.length + 4 ≤ (head ++ encoded ++ crc ++ tail).length := by
    simp only [length_append, hheadLen, hcrc, length_leBytes]
    omega
  have hheader : decodeTableBlockFrameHeader (head ++ encoded ++ crc ++ tail) expectedKind =
      .ok ⟨frame.kind, frame.compression, encoded.length, frame.decodedPayload.length⟩ := by
    rw [append_assoc, append_assoc, hhead]
    exact decodeTableBlockFrameHeader_append hkind _ hlen frame.payload_length _
  have hnew : TableBlockFrame.new frame.kind frame.compression frame.decodedPayload = .ok frame :=
    TableBlockFrame.new_eq_ok.mpr ⟨rfl, rfl, rfl⟩
  have hcrcVal : ofLeBytes crc = (codec.crc32 (head ++ encoded)).toNat :=
    ofLeBytes_leBytes (codec.crc32 (head ++ encoded)).toNat_lt
  have hlenEq : (head ++ encoded ++ crc).length = tableBlockFrameHeaderSize + encoded.length + 4 := by
    rw [length_append, hbody, hcrc, length_leBytes]
  simp only [decodeTableBlockFrameInner, hheader, ok_bind, require, hfits, ↓reduceIte,
    htotal, hpayload, hstored, hprefix, hcrcVal, decodePayload_encode hcodec hencoded, hnew, hlenEq]

theorem decodeTableBlockFrameAs_append (hkind : frame.kind = kind)
    (h : encodeTableBlockFrame codec.toTableCodec frame = .ok bytes) (tail : Bytes) :
    decodeTableBlockFrameAs codec (bytes ++ tail) kind = .ok (frame, bytes.length) :=
  decodeTableBlockFrameInner_append hcodec (by simpa using hkind) h tail

theorem decodeExactFrame_encode (hkind : frame.kind = kind)
    (h : encodeTableBlockFrame codec.toTableCodec frame = .ok bytes) :
    decodeExactFrame codec bytes kind = .ok (frame, bytes.length) := by
  have hdecode := decodeTableBlockFrameAs_append hcodec hkind h []
  rw [append_nil] at hdecode
  simp [decodeExactFrame, hdecode, require]

end

/-! ## The filter frame -/

/-- The payload of a filter frame. -/
def decodeFilterPayload (payload : Bytes) : Except FormatError TableFilterFrame := do
  let reader := ByteReader.new "table_filter_frame" payload
  let (version, reader) ← reader.readU32Le
  .require (version = 1) (.futureFormat "table_filter_frame" version 1)
  let (probes, reader) ← reader.readU8
  let (keyCount, reader) ← reader.readU64Le
  let (bitCount, reader) ← reader.readU64Le
  let (bits, _) ← reader.readExact reader.remaining
  .require (probes.toNat ≤ maxFilterProbes) (.invalidValue "filter_probes")
  .require (bits.length ≤ maxFilterBitsBytes) (.invalidLength "filter_bits")
  .require (bits.length = (bitCount.toNat + 7) / 8) (.invalidLength "filter_bits")
  .ok ⟨probes.toNat, keyCount.toNat, bitCount.toNat, bits⟩

def decodeFilterFrame (codec : TableBlockCodec) (bytes : Bytes) : Except FormatError (TableFilterFrame × Nat) := do
  let (block, consumed) ← decodeTableBlockFrameAs codec bytes .filter
  let filter ← decodeFilterPayload block.decodedPayload
  .ok (filter, consumed)

theorem leBytes_one (x : UInt8) : leBytes 1 x.toNat = [x] := by
  simp [leBytes, beBytes]

theorem exists_u8 (h : n < 2 ^ 8) : ∃ x : UInt8, x.toNat = n :=
  ⟨UInt8.ofNat n, UInt8.toNat_ofNat_of_lt' h⟩

theorem exists_u64 (h : n < 2 ^ 64) : ∃ x : UInt64, x.toNat = n :=
  ⟨UInt64.ofNat n, UInt64.toNat_ofNat_of_lt' h⟩

theorem decodeFilterPayload_eq (hkeys : filter.keyCount < 2 ^ 64)
    (hprobes : filter.probes ≤ maxFilterProbes) (hbits : filter.bits.length ≤ maxFilterBitsBytes)
    (hcount : filter.bits.length = (filter.bitCount + 7) / 8) :
    decodeFilterPayload (leBytes 4 1 ++ leBytes 1 filter.probes ++ leBytes 8 filter.keyCount ++
      leBytes 8 filter.bitCount ++ filter.bits) = .ok filter := by
  obtain ⟨probes, keyCount, bitCount, bits⟩ := filter
  dsimp only at hkeys hprobes hbits hcount ⊢
  have hbitCount : bitCount < 2 ^ 64 := by
    simp only [maxFilterBitsBytes] at hbits
    omega
  obtain ⟨probes, rfl⟩ := exists_u8 (lt_of_le_of_lt hprobes (by decide))
  obtain ⟨keyCount, rfl⟩ := exists_u64 hkeys
  obtain ⟨bitCount, rfl⟩ := exists_u64 hbitCount
  simp only [decodeFilterPayload, new_eq_mid, check_bind_eq_ok, require_eq_ok, mid_readU8_bind,
    mid_readU32Le_bind, mid_readU64Le_bind, mid_readExact_bind, leBytes_one, append_assoc]
  exact ⟨1, _, by decide, rfl, rfl, probes, _, rfl, keyCount, _, rfl, bitCount, _, rfl, bits, [],
    (append_nil bits).symm, by simp [remaining, mid]; omega, hprobes, hbits, hcount, rfl⟩

/-- An encoded filter frame is read back, where its key count is a `u64`. -/
theorem decodeFilterFrame_encode (hcodec : codec.RoundTrips)
    (hkeys : filter.keyCount < 2 ^ 64) (h : encodeFilterFrame codec.toTableCodec filter = .ok bytes) :
    decodeFilterFrame codec bytes = .ok (filter, bytes.length) := by
  simp only [encodeFilterFrame, bind_eq_ok, require_eq_ok] at h
  obtain ⟨-, hprobes, -, hbits, -, hcount, block, hblock, hbytes⟩ := h
  obtain ⟨hkind, -, hpayload⟩ := TableBlockFrame.new_eq_ok.mp hblock
  have hframe := decodeTableBlockFrameAs_append hcodec hkind hbytes []
  rw [append_nil] at hframe
  simp only [decodeFilterFrame, hframe, ok_bind, hpayload, decodeFilterPayload_eq hkeys hprobes hbits hcount]

/-! ## The header -/

def validateTableVersion (version : Nat) (format : String) : Except FormatError Unit :=
  if version = 1 then .ok ()
  else if version = 0 then .error (.preV1Format format version)
  else .error (.futureFormat format version 1)

def decodeTableHeader (bytes : Bytes) : Except FormatError (TableHeader × Nat) := do
  .require (tableHeaderSize ≤ bytes.length) (.insufficientBytes "table_header" tableHeaderSize bytes.length)
  let reader := ByteReader.new "table_header" (bytes.take tableHeaderSize)
  let (magic, reader) ← reader.readExact 4
  .require (magic = [0x53, 0x54, 0x54, 0x42]) (.invalidMagic "table_header")
  let (version, reader) ← reader.readU32Le
  validateTableVersion version "table_header"
  let (headerSize, reader) ← reader.readU32Le
  .require (headerSize = tableHeaderSize) (.invalidLength "table_header_size")
  let (flags, reader) ← reader.readU32Le
  .require (flags = 0) (.unsupportedFlags "table_header" flags)
  let (targetDataBlockSize, reader) ← reader.readU32Le
  let (dataBlockCount, reader) ← reader.readU32Le
  let (rowCount, reader) ← reader.readU64Le
  let (commitMin, reader) ← reader.readU64Le
  let (commitMax, reader) ← reader.readU64Le
  let (reserved, reader) ← reader.readExact 16
  .require (reserved.all (· = 0)) (.invalidValue "reserved")
  reader.finish
  let header ← TableHeader.new targetDataBlockSize dataBlockCount rowCount.toNat commitMin commitMax
  .ok (header, tableHeaderSize)

theorem TableHeader.new_eq_ok {target blockCount rowCount : Nat} {commitMin commitMax : CommitVersion} :
    new target blockCount rowCount commitMin commitMax = .ok header ↔ target ≠ 0 ∧
      (blockCount ≠ 0 ∧ blockCount ≤ maxTableDataBlocks) ∧ (rowCount ≠ 0 ∧ rowCount ≤ maxTableRows) ∧
      commitMin ≤ commitMax ∧ header = ⟨target, blockCount, rowCount, commitMin, commitMax⟩ := by
  simp [new, require_eq_ok, eq_comm (b := header)]

/-- A header in front of any bytes is read back. -/
theorem decodeTableHeader_append (htarget : header.targetDataBlockSize < 2 ^ 32)
    (h : TableHeader.new header.targetDataBlockSize header.dataBlockCount header.rowCount
      header.commitMin header.commitMax = .ok header) (tail : Bytes) :
    decodeTableHeader (encodeTableHeader header ++ tail) = .ok (header, tableHeaderSize) := by
  obtain ⟨-, hblocks, hrows, -⟩ := TableHeader.new_eq_ok.mp h
  have htake : (encodeTableHeader header ++ tail).take tableHeaderSize = encodeTableHeader header :=
    take_left' (length_encodeTableHeader header)
  have hlen : tableHeaderSize ≤ (encodeTableHeader header ++ tail).length := by simp
  have hblockCount : header.dataBlockCount < 2 ^ 32 := lt_of_le_of_lt hblocks.2 (by decide)
  have hmagic : encodeTableHeader header = [0x53, 0x54, 0x54, 0x42] ++ (leBytes 4 1 ++
      (leBytes 4 tableHeaderSize ++ (leBytes 4 0 ++ (leBytes 4 header.targetDataBlockSize ++
        (leBytes 4 header.dataBlockCount ++ (leBytes 8 header.rowCount ++
          (leBytes 8 header.commitMin.toNat ++ (leBytes 8 header.commitMax.toNat ++ replicate 16 0)))))))) := by
    simp [encodeTableHeader]
  obtain ⟨rowCount, hrowCount⟩ := exists_u64 (lt_of_le_of_lt hrows.2 (by decide))
  rw [← hrowCount] at hmagic h
  simp only [decodeTableHeader, htake, new_eq_mid, check_bind_eq_ok, require_eq_ok,
    mid_readU32Le_bind, mid_readU64Le_bind, mid_readExact_bind, mid_finish_eq_ok]
  exact ⟨hlen, _, _, hmagic, rfl, rfl, 1, _, by decide, rfl, rfl, _, _, by decide, rfl, rfl, 0, _,
    by decide, rfl, rfl, _, _, htarget, rfl, _, _, hblockCount, rfl, _, _, rfl, _, _, rfl, _, _, rfl,
    _, [], (append_nil _).symm, rfl, by decide, rfl, by rw [h]; rfl⟩

/-! ## The footer -/

/-- The fields of a footer: what `decode_table_footer` and
`decode_table_footer_metadata` share. -/
def decodeTableFooterFields (fieldBytes : Bytes) (footerStart : Nat) : Except FormatError TableFooter := do
  let reader := ByteReader.new "table_footer" fieldBytes
  let (indexBlockOffset, reader) ← reader.readU64Le
  let (indexBlockFrameLen, reader) ← reader.readU32Le
  let (filterBlockOffset, reader) ← reader.readU64Le
  let (filterBlockFrameLen, reader) ← reader.readU32Le
  let (propertiesBlockOffset, reader) ← reader.readU64Le
  let (propertiesBlockFrameLen, reader) ← reader.readU32Le
  let (magic, reader) ← reader.readExact 4
  .require (magic = [0x53, 0x54, 0x54, 0x46]) (.invalidMagic "table_footer")
  let (reserved, reader) ← reader.readExact 20
  .require (reserved.all (· = 0)) (.invalidValue "reserved")
  reader.finish
  let footer ← TableFooter.newWithFilter indexBlockOffset.toNat indexBlockFrameLen
    filterBlockOffset.toNat filterBlockFrameLen propertiesBlockOffset.toNat propertiesBlockFrameLen
  validateFooterLayout footer footerStart
  .ok footer

def decodeTableFooter (codec : TableBlockCodec) (tableBytes : Bytes) : Except FormatError TableFooter := do
  .require (tableFooterSize ≤ tableBytes.length)
    (.insufficientBytes "table_footer" tableFooterSize tableBytes.length)
  let footerStart := tableBytes.length - tableFooterSize
  let storedCrc := ofLeBytes (tableBytes.drop (tableBytes.length - 4))
  let computedCrc := (codec.crc32 (tableBytes.take (tableBytes.length - 4))).toNat
  .require (storedCrc = computedCrc) (.checksumMismatch "table_footer" storedCrc computedCrc)
  decodeTableFooterFields (slice tableBytes footerStart (tableBytes.length - 4)) footerStart

/-- `decode_table_footer_metadata`, which has only the footer and checks no
checksum. -/
def decodeTableFooterMetadata (footerBytes : Bytes) (footerStart : Nat) : Except FormatError TableFooter := do
  .require (footerBytes.length = tableFooterSize)
    (.insufficientBytes "table_footer" tableFooterSize footerBytes.length)
  decodeTableFooterFields (footerBytes.take (tableFooterSize - 4)) footerStart

theorem TableFooter.newWithFilter_eq_ok
    {indexOffset indexLen filterOffset filterLen propertiesOffset propertiesLen : Nat} :
    newWithFilter indexOffset indexLen filterOffset filterLen propertiesOffset propertiesLen = .ok footer ↔
      indexLen ≠ 0 ∧ propertiesLen ≠ 0 ∧
        footer = ⟨indexOffset, indexLen, filterOffset, filterLen, propertiesOffset, propertiesLen⟩ := by
  simp [newWithFilter, require_eq_ok, eq_comm (b := footer)]

/-- The fields of an encoded footer. -/
def footerFields (footer : TableFooter) : Bytes :=
  leBytes 8 footer.indexBlockOffset ++ leBytes 4 footer.indexBlockFrameLen ++
    leBytes 8 footer.filterBlockOffset ++ leBytes 4 footer.filterBlockFrameLen ++
    leBytes 8 footer.propertiesBlockOffset ++ leBytes 4 footer.propertiesBlockFrameLen ++
    [0x53, 0x54, 0x54, 0x46] ++ List.replicate 20 0

@[simp] theorem length_footerFields (footer : TableFooter) : (footerFields footer).length = 60 := by
  simp [footerFields]

theorem encodeTableFooter_eq_ok {codec : TableCodec} : encodeTableFooter codec footer tableBytes = .ok bytes ↔
      validateFooterLayout footer tableBytes.length = .ok () ∧ bytes = footerFields footer ++
          leBytes 4 (codec.crc32 (tableBytes ++ footerFields footer)).toNat := by
  rw [encodeTableFooter, check_bind_eq_ok]
  exact and_congr_right fun _ => ⟨fun h => by cases h; rfl, fun h => by rw [h]; rfl⟩

/-- The offsets and lengths fit their fields. -/
structure TableFooter.Fits (footer : TableFooter) : Prop where
  indexOffset_lt : footer.indexBlockOffset < 2 ^ 64
  indexLen_lt : footer.indexBlockFrameLen < 2 ^ 32
  filterOffset_lt : footer.filterBlockOffset < 2 ^ 64
  filterLen_lt : footer.filterBlockFrameLen < 2 ^ 32
  propertiesOffset_lt : footer.propertiesBlockOffset < 2 ^ 64
  propertiesLen_lt : footer.propertiesBlockFrameLen < 2 ^ 32

theorem decodeTableFooterFields_footerFields (hfits : footer.Fits)
    (hindex : footer.indexBlockFrameLen ≠ 0) (hproperties : footer.propertiesBlockFrameLen ≠ 0)
    {footerStart : Nat} (hlayout : validateFooterLayout footer footerStart = .ok ()) :
    decodeTableFooterFields (footerFields footer) footerStart = .ok footer := by
  obtain ⟨indexOffset, indexLen, filterOffset, filterLen, propertiesOffset, propertiesLen⟩ := footer
  obtain ⟨hindexOffset, hindexLen, hfilterOffset, hfilterLen, hpropertiesOffset, hpropertiesLen⟩ := hfits
  obtain ⟨indexOffset, rfl⟩ := exists_u64 hindexOffset
  obtain ⟨filterOffset, rfl⟩ := exists_u64 hfilterOffset
  obtain ⟨propertiesOffset, rfl⟩ := exists_u64 hpropertiesOffset
  simp only [decodeTableFooterFields, footerFields, new_eq_mid, check_bind_eq_ok, require_eq_ok,
    mid_readU32Le_bind, mid_readU64Le_bind, mid_readExact_bind, mid_finish_eq_ok, append_assoc,
    bind_eq_ok (x := TableFooter.newWithFilter _ _ _ _ _ _)]
  exact ⟨_, _, rfl, _, _, hindexLen, rfl, _, _, rfl, _, _, hfilterLen, rfl, _, _, rfl, _, _, hpropertiesLen,
    rfl, [0x53, 0x54, 0x54, 0x46], _, rfl, rfl, rfl, _, [], (append_nil _).symm, rfl, by decide, rfl, _,
    TableFooter.newWithFilter_eq_ok.mpr ⟨hindex, hproperties, rfl⟩, hlayout, rfl⟩

/-- Both readers of a footer find what was written. -/
theorem decodeTableFooter_append (hfits : footer.Fits) (hindex : footer.indexBlockFrameLen ≠ 0)
    (hproperties : footer.propertiesBlockFrameLen ≠ 0)
    (h : encodeTableFooter codec.toTableCodec footer tableBytes = .ok bytes) :
    bytes.length = tableFooterSize ∧ decodeTableFooter codec (tableBytes ++ bytes) = .ok footer ∧
      decodeTableFooterMetadata bytes tableBytes.length = .ok footer := by
  obtain ⟨hlayout, hbytes⟩ := encodeTableFooter_eq_ok.mp h
  have hfields := decodeTableFooterFields_footerFields hfits hindex hproperties hlayout
  set crc := leBytes 4 (codec.crc32 (tableBytes ++ footerFields footer)).toNat with hcrc
  have hlen : bytes.length = tableFooterSize := by
    rw [hbytes, length_append, length_footerFields, hcrc, length_leBytes]; rfl
  have htotal : (tableBytes ++ bytes).length = tableBytes.length + tableFooterSize := by
    rw [length_append, hlen]
  have hbody : tableBytes ++ bytes = (tableBytes ++ footerFields footer) ++ crc := by
    rw [hbytes, append_assoc]
  have hbodyLen : (tableBytes ++ footerFields footer).length = tableBytes.length + tableFooterSize - 4 := by
    rw [length_append, length_footerFields, tableFooterSize]; omega
  have hstored : ofLeBytes ((tableBytes ++ bytes).drop ((tableBytes ++ bytes).length - 4)) =
      (codec.crc32 ((tableBytes ++ bytes).take ((tableBytes ++ bytes).length - 4))).toNat := by
    rw [htotal, hbody, drop_left' hbodyLen, take_left' hbodyLen, hcrc]
    exact ofLeBytes_leBytes (codec.crc32 (tableBytes ++ footerFields footer)).toNat_lt
  have hslice : slice (tableBytes ++ bytes) ((tableBytes ++ bytes).length - tableFooterSize)
      ((tableBytes ++ bytes).length - 4) = footerFields footer := by
    rw [htotal, Nat.add_sub_cancel, hbytes]
    exact slice_append_mid rfl (by rw [length_footerFields, tableFooterSize]; omega)
  have hle : tableFooterSize ≤ (tableBytes ++ bytes).length := by omega
  have hstart : (tableBytes ++ bytes).length - tableFooterSize = tableBytes.length := by omega
  refine ⟨hlen, ?_, ?_⟩
  · rw [hstart] at hslice
    simp only [decodeTableFooter, check_bind_eq_ok, require_eq_ok, hstart, hslice]
    exact ⟨hle, hstored, hfields⟩
  · have htake : bytes.take (tableFooterSize - 4) = footerFields footer := by
      rw [hbytes]; exact take_left' (length_footerFields footer)
    simp only [decodeTableFooterMetadata, check_bind_eq_ok, require_eq_ok, htake]
    exact ⟨hlen, hfields⟩

end Strata
