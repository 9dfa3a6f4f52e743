import StrataStorage.Format.TableManifestFields
import StrataStorage.Lib.Crc32

/-!
# The table manifest codec

`encode_table_manifest` and `decode_table_manifest` of `format/table_manifest.rs`. The
constructor sorts levels, layers and sections and then checks them with the order
checks left out; the encoder and the decoder check the order too and sort nothing.

* `TableManifestParts.validate_canonical`: what the constructor accepted behind its
  sorts passes the strict checks;
* `decodeTableManifest_eq_ok`: the decoder accepts exactly the encodings.
-/

namespace Strata

open ByteReader Except List TableManifestParts
open ByteReader (readMany)

variable {tables : List TableManifestTableRef} {canonicalized : Bool} {levels : List TableManifestLevel}
variable {bytes : Bytes} {level : BranchLevel} {previous : Option TableManifestTableBounds}
  {status : InheritedLayerStatus} {layer : TableManifestInheritedLayer}
  {layers : List TableManifestInheritedLayer} {extensions : List TableManifestExtensionSection}
  {index : Nat} {seen : List (BranchId × CommitVersion)}
  (extension : TableManifestExtensionSection)

def tableManifestFormat : String := "table_manifest"

/-- `STTM`. -/
def tableManifestMagic : Bytes := [0x53, 0x54, 0x54, 0x4D]

def tableManifestFormatVersion : Nat := 1

def extensionFlagRequired : UInt8 := 0x01
def extensionFlagPreserveOnRewrite : UInt8 := 0x02
def extensionFlagsSupported : UInt8 := extensionFlagRequired ||| extensionFlagPreserveOnRewrite

/-! ## Tables of a level -/

def encodeTableRef (table : TableManifestTableRef) : Except FormatError Bytes := do
  let identity ← writeString (utf8Bytes table.tableIdentity.text) maxIdentityBytes "table_identity"
  let object ← writeString table.object.text maxObjectNameBytes "table_object"
  let bounds ← encodeBounds table.bounds
  .ok (identity ++ (object ++ (leBytes 4 table.order ++ (encodeFacts table.facts ++
    (bounds ++ encodeProvenance table.provenance)))))

def decodeTableRef (reader : ByteReader) : Except FormatError (TableManifestTableRef × ByteReader) := do
  let (identity, reader) ← readBoundedString reader maxIdentityBytes "table_identity"
  let identity ← (TableIdentity.new identity).mapError fun _ => .invalidValue "table_identity"
  let (object, reader) ← readBoundedString reader maxObjectNameBytes "table_object"
  let object ← (classifyTableObject (utf8Bytes object)).okOr (.invalidValue "table_object")
  let (order, reader) ← reader.readU32Le
  let (facts, reader) ← decodeFacts reader
  let (bounds, reader) ← decodeBounds reader
  let (provenance, reader) ← decodeProvenance reader
  .ok (⟨identity, object, order, facts, bounds, provenance⟩, reader)

def encodeLevel (level : TableManifestLevel) : Except FormatError Bytes := do
  let count ← writeCount level.tables.length "table_count"
  let tables ← level.tables.mapM encodeTableRef
  .ok (level.level :: (count ++ tables.flatten))

def minimumTableRefLen : Nat := 4 + 4 + 4 + 8 + 8 + 4 + 8 + 8 + 1 + 8 + 8 + 4 * 4 + 1

def ensureRemainingForCount (reader : ByteReader) (count minimumItemLen : Nat) : Except FormatError Unit :=
  .require (count * minimumItemLen ≤ reader.remaining)
    (.insufficientBytes tableManifestFormat (count * minimumItemLen) reader.remaining)

def decodeLevel (reader : ByteReader) : Except FormatError (TableManifestLevel × ByteReader) := do
  let (level, reader) ← reader.readU8
  let (tableCount, reader) ← readCount reader maxTablesPerLevel "table_count"
  ensureRemainingForCount reader tableCount minimumTableRefLen
  let (tables, reader) ← readMany decodeTableRef tableCount reader
  let level ← TableManifestLevel.fromParts level tables false
  .ok (level, reader)

/-- The bytes of a table of a manifest. -/
def TableManifestTableRef.layout (table : TableManifestTableRef) : Bytes :=
  lenPrefixed (utf8Bytes table.tableIdentity.text) ++ (lenPrefixed table.object.text ++
    (leBytes 4 table.order ++ (encodeFacts table.facts ++ (table.bounds.layout ++
      encodeProvenance table.provenance))))

/-- A table whose identity the encoder has room for. -/
def TableManifestTableRef.Fits (table : TableManifestTableRef) : Prop :=
  (utf8Bytes table.tableIdentity.text).length ≤ maxIdentityBytes

/-- The bytes of a level. -/
def TableManifestLevel.layout (level : TableManifestLevel) : Bytes :=
  level.level :: (leBytes 4 level.tables.length ++ level.tables.flatMap TableManifestTableRef.layout)

theorem TableObject.text_length (object : TableObject) :
    object.text ≠ [] ∧ object.text.length ≤ maxObjectNameBytes :=
  ⟨by simp [text, tableObjectText], object.length_le⟩

theorem encodeTableRef_eq_ok {table : TableManifestTableRef} :
    encodeTableRef table = .ok bytes ↔ table.Fits ∧ bytes = table.layout := by
  have hidentity : maxIdentityBytes < 2 ^ 32 := by decide
  have hobject : maxObjectNameBytes < 2 ^ 32 := by decide
  simp only [encodeTableRef, bind_eq_ok, writeString_eq_ok hidentity,
    writeString_eq_ok hobject, encodeBounds_eq, ok.injEq]
  constructor
  · rintro ⟨_, ⟨hfits, rfl⟩, _, ⟨-, rfl⟩, _, rfl, rfl⟩
    exact ⟨hfits.2, rfl⟩
  · rintro ⟨hfits, rfl⟩
    exact ⟨_, ⟨⟨table.tableIdentity.utf8Bytes_ne_nil, hfits⟩, rfl⟩, _,
      ⟨table.object.text_length, rfl⟩, _, rfl, rfl⟩

theorem decodeTableRef_reads : ByteReader.Reads decodeTableRef
    (fun table => table.Fits ∧ table.order < 2 ^ 32) TableManifestTableRef.layout := by
  intro format done rest table reader
  have hidentity : maxIdentityBytes < 2 ^ 32 := by decide
  have hobject : maxObjectNameBytes < 2 ^ 32 := by decide
  simp only [decodeTableRef, (readBoundedString_reads hidentity).bind, (readBoundedString_reads
    hobject).bind, Except.bind_eq_ok (x := Except.mapError _ _), Except.mapError_eq_ok,
    TableIdentity.new_eq_ok, Except.bind_eq_ok (x := Option.okOr _ _), Option.okOr_eq_ok,
    classifyTableObject_eq_some, mid_readU32Le_bind, decodeFacts_reads.bind,
    decodeBounds_reads.bind, decodeProvenance_reads.bind, Except.ok.injEq, Prod.mk.injEq, true_and]
  constructor
  · rintro ⟨_, _, hfits, rfl, identity, rfl, _, _, -, rfl, object, htext, order, _, horder, rfl, facts,
      _, rfl, bounds, _, rfl, provenance, tail, rfl, rfl, rfl⟩
    exact ⟨⟨hfits, horder⟩, tail, by simp [TableManifestTableRef.layout, htext],
      by simp [TableManifestTableRef.layout, htext]⟩
  · rintro ⟨⟨hfits, horder⟩, tail, rfl, rfl⟩
    obtain ⟨text, htext⟩ := table.object.exists_text
    exact ⟨table.tableIdentity.text, lenPrefixed (utf8Bytes text) ++ (leBytes 4 table.order ++
      (encodeFacts table.facts ++ (table.bounds.layout ++ (encodeProvenance table.provenance ++
        tail)))), hfits, by simp [TableManifestTableRef.layout, htext], table.tableIdentity, rfl, text,
      _, by rw [htext]; exact table.object.length_le, rfl, table.object, htext.symm, table.order, _,
      horder, rfl, table.facts, _, rfl, table.bounds, _, rfl, table.provenance, tail, rfl, rfl,
      by simp [TableManifestTableRef.layout, htext]⟩

theorem minimumTableRefLen_le (table : TableManifestTableRef) : minimumTableRefLen ≤ table.layout.length := by
  have hrange : (encodeTimestampRange (table.facts.timestampMin, table.facts.timestampMax)).length =
      17 := by
    unfold encodeTimestampRange
    split <;> simp
  have hprovenance : 1 ≤ (encodeProvenance table.provenance).length := by
    cases table.provenance <;> simp [encodeProvenance]
  simp only [TableManifestTableRef.layout, TableManifestTableBounds.layout, encodeFacts, hrange,
    length_append, length_lenPrefixed, length_leBytes, minimumTableRefLen]
  omega

theorem count_mul_le_length (rest : Bytes) : tables.length * minimumTableRefLen ≤
      (tables.flatMap TableManifestTableRef.layout ++ rest).length := by
  induction tables with
  | nil => simp
  | cons table tables ih =>
    have htable := minimumTableRefLen_le table
    rw [length_append] at ih
    rw [length_cons, flatMap_cons, length_append, length_append, Nat.succ_mul]
    omega

/-- The levels the constructor accepts without sorting. -/
theorem TableManifestLevel.fromParts_eq_ok {result : TableManifestLevel} :
    fromParts level tables false = .ok result ↔ result.level = level ∧ result.tables = tables := by
  unfold fromParts
  constructor
  · intro h
    split at h
    · cases h
    · cases h
      exact ⟨rfl, rfl⟩
  · rintro ⟨rfl, rfl⟩
    split
    · rename_i h
      rw [result.valid] at h
      cases h
    · rfl

theorem TableManifestLevel.length_le (level : TableManifestLevel) : level.tables.length ≤ maxTablesPerLevel :=
  require_eq_ok.1 (check_bind_eq_ok.1 level.valid).1

/-- Tables of a level are numbered from its first on. -/
theorem order_of_validateLevelTablesFrom
    (h : validateLevelTablesFrom level canonicalized index previous tables = .ok ()) :
    ∀ table ∈ tables, table.order < index + tables.length := by
  induction tables generalizing index previous with
  | nil => simp
  | cons table tables ih =>
    obtain ⟨horder, h⟩ := check_bind_eq_ok.1 h
    have horder := require_eq_ok.1 horder
    have hrest : validateLevelTablesFrom level canonicalized (index + 1) (some table.bounds) tables = .ok () := by
      by_cases hlevel : level = 0
      · simpa only [hlevel, ne_eq, not_true_eq_false, if_false] using h
      · simp only [ne_eq, hlevel, not_false_eq_true, if_true] at h
        exact (check_bind_eq_ok.1 (check_bind_eq_ok.1 h).2).2
    intro t ht
    rw [length_cons]
    rcases mem_cons.1 ht with rfl | ht
    · omega
    · have := ih hrest t ht
      omega

theorem TableManifestLevel.order_lt (level : TableManifestLevel) :
    ∀ table ∈ level.tables, table.order < 2 ^ 32 := by
  intro table htable
  have horder := order_of_validateLevelTablesFrom (check_bind_eq_ok.1 level.valid).2 table htable
  have hlength := level.length_le
  simp only [maxTablesPerLevel] at hlength
  omega

/-- A level whose tables the encoder has room for. -/
def TableManifestLevel.Fits (level : TableManifestLevel) : Prop :=
  ∀ table ∈ level.tables, table.Fits

theorem encodeLevel_eq_ok {level : TableManifestLevel} :
    encodeLevel level = .ok bytes ↔ level.Fits ∧ bytes = level.layout := by
  have hlength := level.length_le
  simp only [maxTablesPerLevel] at hlength
  simp only [encodeLevel, bind_eq_ok, writeCount_eq_ok, ok.injEq, mapM_eq_ok (fun _ _ => encodeTableRef_eq_ok)]
  constructor
  · rintro ⟨_, ⟨-, rfl⟩, _, ⟨hfits, rfl⟩, rfl⟩
    exact ⟨hfits, by rw [TableManifestLevel.layout, flatMap_def]⟩
  · rintro ⟨hfits, rfl⟩
    exact ⟨_, ⟨by omega, rfl⟩, _, ⟨hfits, rfl⟩, by rw [TableManifestLevel.layout, flatMap_def]⟩

theorem decodeLevel_reads : ByteReader.Reads decodeLevel TableManifestLevel.Fits TableManifestLevel.layout := by
  intro format done rest level reader
  have hmax : maxTablesPerLevel < 2 ^ 32 := by decide
  simp only [decodeLevel, mid_readU8_bind, (readCount_reads hmax).bind, ensureRemainingForCount,
    check_bind_eq_ok, require_eq_ok, (decodeTableRef_reads.many _).bind, bind_eq_ok
    (x := TableManifestLevel.fromParts ..), TableManifestLevel.fromParts_eq_ok, ok.injEq, Prod.mk.injEq]
  constructor
  · rintro ⟨_, _, rfl, _, _, -, rfl, -, _, tail, ⟨rfl, hfits⟩, rfl, level, ⟨rfl, rfl⟩, rfl, rfl⟩
    exact ⟨fun table htable => (hfits table htable).1, tail, by simp [TableManifestLevel.layout],
      by simp [TableManifestLevel.layout]⟩
  · rintro ⟨hfits, tail, rfl, rfl⟩
    refine ⟨level.level, _, rfl, level.tables.length, _, level.length_le, append_assoc .., ?_,
      level.tables, tail, ⟨rfl, fun table htable => ⟨hfits table htable, level.order_lt table htable⟩⟩,
      rfl, level, ⟨rfl, rfl⟩, rfl, by simp [TableManifestLevel.layout]⟩
    rw [mid_remaining]
    exact count_mul_le_length tail

/-! ## Inherited layers -/

def encodeLayerStatus : InheritedLayerStatus → UInt8
  | .active => 0
  | .materializing => 1
  | .materialized => 2
  | .unavailable => 3

def decodeLayerStatus (value : UInt8) : Except FormatError InheritedLayerStatus :=
  if value = 0 then .ok .active
  else if value = 1 then .ok .materializing
  else if value = 2 then .ok .materialized
  else if value = 3 then .ok .unavailable
  else .error (.invalidValue "inherited_layer_status")

def encodeInheritedLayer (layer : TableManifestInheritedLayer) : Except FormatError Bytes := do
  let generation ← writeOptionalU64 layer.sourceBranchGeneration "source_branch_generation"
  let count ← writeCount layer.levels.length "inherited_level_count"
  let levels ← layer.levels.mapM encodeLevel
  .ok (leBytes 4 layer.order ++ (layer.sourceBranchId.bytes ++ (generation ++
    (leBytes 8 layer.forkVersion.toNat ++ (encodeLayerStatus layer.status :: (count ++ levels.flatten))))))

def decodeInheritedLayer (reader : ByteReader) :
    Except FormatError (TableManifestInheritedLayer × ByteReader) := do
  let (order, reader) ← reader.readU32Le
  let (sourceBranchId, reader) ← readBranchId reader "source_branch_id"
  let (sourceBranchGeneration, reader) ← readOptionalU64 reader "source_branch_generation"
  let (forkVersion, reader) ← reader.readU64Le
  let (status, reader) ← reader.readU8
  let status ← decodeLayerStatus status
  let (levelCount, reader) ← readCount reader maxManifestLevels "inherited_level_count"
  let (levels, reader) ← readMany decodeLevel levelCount reader
  let layer ← TableManifestInheritedLayer.fromParts order sourceBranchId sourceBranchGeneration
    forkVersion status levels false nofun
  .ok (layer, reader)

/-- The bytes of an inherited layer. -/
def TableManifestInheritedLayer.layout (layer : TableManifestInheritedLayer) : Bytes :=
  leBytes 4 layer.order ++ (layer.sourceBranchId.bytes ++ (optionalLayout
    layer.sourceBranchGeneration ++ (leBytes 8 layer.forkVersion.toNat ++
      (encodeLayerStatus layer.status :: (leBytes 4 layer.levels.length ++
        layer.levels.flatMap TableManifestLevel.layout)))))

/-- A layer whose tables the encoder has room for. -/
def TableManifestInheritedLayer.Fits (layer : TableManifestInheritedLayer) : Prop :=
  ∀ level ∈ layer.levels, level.Fits

theorem decodeLayerStatus_eq_ok {value : UInt8} :
    decodeLayerStatus value = .ok status ↔ value = encodeLayerStatus status := by
  unfold decodeLayerStatus
  constructor
  · intro h
    split at h
    · cases h; assumption
    split at h
    · cases h; assumption
    split at h
    · cases h; assumption
    split at h
    · cases h; assumption
    · cases h
  · rintro rfl
    cases status <;> rfl

theorem TableManifestInheritedLayer.fromParts_eq_ok {order : Nat} {sourceBranchId : BranchId}
    {sourceBranchGeneration : Option UInt64} {forkVersion : CommitVersion} :
    fromParts order sourceBranchId sourceBranchGeneration forkVersion
      status levels false nofun = .ok layer ↔ layer.order = order ∧ layer.sourceBranchId = sourceBranchId ∧
        layer.sourceBranchGeneration = sourceBranchGeneration ∧ layer.forkVersion = forkVersion ∧
        layer.status = status ∧ layer.levels = levels := by
  refine ⟨fromParts_levels, ?_⟩
  rintro ⟨rfl, rfl, rfl, rfl, rfl, rfl⟩
  unfold fromParts
  split
  · rename_i h
    rw [layer.valid] at h
    cases h
  · rfl

theorem length_of_validateManifestLevels (h : validateManifestLevels levels canonicalized = .ok ()) :
    levels.length ≤ maxManifestLevels := require_eq_ok.1 (check_bind_eq_ok.1 h).1

theorem encodeInheritedLayer_eq_ok :
    encodeInheritedLayer layer = .ok bytes ↔ layer.Fits ∧ bytes = layer.layout := by
  obtain ⟨hgeneration, -, hlevels⟩ := validateManifestLayer_eq_ok.1 layer.valid
  have hlength := length_of_validateManifestLevels hlevels
  simp only [maxManifestLevels] at hlength
  simp only [encodeInheritedLayer, bind_eq_ok, writeOptionalU64_eq_ok, writeCount_eq_ok,
    ok.injEq, mapM_eq_ok (fun _ _ => encodeLevel_eq_ok)]
  constructor
  · rintro ⟨_, ⟨-, rfl⟩, _, ⟨-, rfl⟩, _, ⟨hfits, rfl⟩, rfl⟩
    exact ⟨hfits, by rw [TableManifestInheritedLayer.layout, flatMap_def]⟩
  · rintro ⟨hfits, rfl⟩
    exact ⟨_, ⟨hgeneration, rfl⟩, _, ⟨by omega, rfl⟩, _, ⟨hfits, rfl⟩,
      by rw [TableManifestInheritedLayer.layout, flatMap_def]⟩

theorem decodeInheritedLayer_reads : ByteReader.Reads decodeInheritedLayer
    (fun layer => layer.Fits ∧ layer.order < 2 ^ 32)
    TableManifestInheritedLayer.layout := by
  intro format done rest layer reader
  have hmax : maxManifestLevels < 2 ^ 32 := by decide
  simp only [decodeInheritedLayer, mid_readU32Le_bind, readBranchId_reads.bind,
    readOptionalU64_reads.bind, mid_readU64Le_bind, mid_readU8_bind,
    bind_eq_ok (x := decodeLayerStatus _), decodeLayerStatus_eq_ok, (readCount_reads hmax).bind,
    (decodeLevel_reads.many _).bind, bind_eq_ok (x := TableManifestInheritedLayer.fromParts ..),
    TableManifestInheritedLayer.fromParts_eq_ok, ok.injEq, Prod.mk.injEq, true_and]
  constructor
  · rintro ⟨_, _, horder, rfl, _, _, rfl, _, _, -, rfl, _, _, rfl, _, _, rfl, _, rfl, _, _, -, rfl, _, tail,
      ⟨rfl, hfits⟩, rfl, layer, ⟨rfl, rfl, rfl, rfl, rfl, rfl⟩, rfl, rfl⟩
    exact ⟨⟨hfits, horder⟩, tail, by simp [TableManifestInheritedLayer.layout],
      by simp [TableManifestInheritedLayer.layout]⟩
  · rintro ⟨⟨hfits, horder⟩, tail, rfl, rfl⟩
    obtain ⟨hgeneration, -, hlevels⟩ := validateManifestLayer_eq_ok.1 layer.valid
    exact ⟨layer.order, _, horder, append_assoc .., layer.sourceBranchId, _, append_assoc ..,
      layer.sourceBranchGeneration, _, hgeneration, append_assoc .., layer.forkVersion, _, append_assoc ..,
      encodeLayerStatus layer.status, _, rfl, layer.status, rfl, layer.levels.length, _,
      length_of_validateManifestLevels hlevels, append_assoc .., layer.levels, tail, ⟨rfl, hfits⟩, rfl, layer,
      ⟨rfl, rfl, rfl, rfl, rfl, rfl⟩, rfl, by simp [TableManifestInheritedLayer.layout]⟩

/-! ## Extension sections -/

def encodeExtensionSection (extension : TableManifestExtensionSection) : Except FormatError Bytes := do
  let kind ← writeString (utf8Bytes extension.kind) maxSectionKindBytes "extension_kind"
  let flags := if extension.preserveOnRewrite then extensionFlagPreserveOnRewrite else 0
  let payload ← writeBytes extension.payload maxSectionBytes "extension_payload"
  .ok (kind ++ (flags :: payload))

def decodeExtensionSection (reader : ByteReader) :
    Except FormatError (TableManifestExtensionSection × ByteReader) := do
  let (kind, reader) ← readBoundedString reader maxSectionKindBytes "extension_kind"
  let (flags, reader) ← reader.readU8
  .require (flags &&& ~~~extensionFlagsSupported = 0 ∧ flags &&& extensionFlagRequired = 0)
    (.unsupportedFlags tableManifestFormat flags.toNat)
  let (payload, reader) ← readBoundedBytes reader maxSectionBytes "extension_payload"
  let extension ← TableManifestExtensionSection.optional kind
    (flags &&& extensionFlagPreserveOnRewrite ≠ 0) payload
  .ok (extension, reader)

/-- The byte of the flags of a section. -/
def preserveByte (preserve : Bool) : UInt8 := if preserve then extensionFlagPreserveOnRewrite else 0

/-- The bytes of an extension section. -/
def TableManifestExtensionSection.layout (extension : TableManifestExtensionSection) : Bytes :=
  lenPrefixed (utf8Bytes extension.kind) ++
    (preserveByte extension.preserveOnRewrite :: lenPrefixed extension.payload)

set_option maxRecDepth 4096 in
/-- Of the flags that are supported and not refused, one bit is left. -/
theorem flags_supported_iff (flags : UInt8) (preserve : Bool) :
    (flags &&& ~~~extensionFlagsSupported = 0 ∧ flags &&& extensionFlagRequired = 0) ∧
      preserve = decide (flags &&& extensionFlagPreserveOnRewrite ≠ 0) ↔ flags = preserveByte preserve := by
  cases flags with
  | ofBitVec flags =>
    cases flags with
    | ofFin flags =>
      revert flags preserve
      decide

theorem TableManifestExtensionSection.optional_eq_ok {kind : String} {preserve : Bool}
    {payload : Bytes} {extension : TableManifestExtensionSection} :
    optional kind preserve payload = .ok extension ↔
      extension.kind = kind ∧ extension.preserveOnRewrite = preserve ∧ extension.payload = payload := by
  unfold optional
  constructor
  · intro h
    split at h
    · cases h
    · cases h
      exact ⟨rfl, rfl, rfl⟩
  · rintro ⟨rfl, rfl, rfl⟩
    split
    · rename_i h
      rw [extension.valid] at h
      cases h
    · rfl

theorem TableManifestExtensionSection.lengths :
    (utf8Bytes extension.kind ≠ [] ∧ (utf8Bytes extension.kind).length ≤ maxSectionKindBytes) ∧
      extension.payload.length ≤ maxSectionBytes := by
  obtain ⟨hkind, hpayload⟩ := check_bind_eq_ok.1 extension.valid
  exact ⟨require_eq_ok.1 (check_bind_eq_ok.1 hkind).1, require_eq_ok.1 hpayload⟩

theorem encodeExtensionSection_eq : encodeExtensionSection extension = .ok extension.layout := by
  obtain ⟨hkind, hpayload⟩ := extension.lengths
  have hmaxKind : maxSectionKindBytes < 2 ^ 32 := by decide
  have hmaxPayload : maxSectionBytes < 2 ^ 32 := by decide
  simp only [encodeExtensionSection, bind_eq_ok, writeString_eq_ok hmaxKind, writeBytes_eq_ok hmaxPayload]
  exact ⟨_, ⟨hkind, rfl⟩, _, ⟨hpayload, rfl⟩, rfl⟩

theorem decodeExtensionSection_reads : ByteReader.Reads decodeExtensionSection (fun _ => True)
    TableManifestExtensionSection.layout := by
  intro format done rest extension reader
  have hmaxKind : maxSectionKindBytes < 2 ^ 32 := by decide
  have hmaxPayload : maxSectionBytes < 2 ^ 32 := by decide
  simp only [decodeExtensionSection, (readBoundedString_reads hmaxKind).bind,
    mid_readU8_bind, check_bind_eq_ok, require_eq_ok, (readBoundedBytes_reads
    hmaxPayload).bind, bind_eq_ok (x := TableManifestExtensionSection.optional ..),
    TableManifestExtensionSection.optional_eq_ok, ok.injEq, Prod.mk.injEq, true_and]
  constructor
  · rintro ⟨_, _, -, rfl, flags, _, rfl, hflags, _, tail, -, rfl, extension, ⟨rfl, hpreserve, rfl⟩, rfl, rfl⟩
    have hbyte := (flags_supported_iff flags _).1 ⟨hflags, hpreserve⟩
    subst hbyte
    exact ⟨tail, by simp [TableManifestExtensionSection.layout], by simp [TableManifestExtensionSection.layout]⟩
  · rintro ⟨tail, rfl, rfl⟩
    obtain ⟨hkind, hpayload⟩ := extension.lengths
    obtain ⟨hflags, hpreserve⟩ := (flags_supported_iff _ extension.preserveOnRewrite).2 rfl
    exact ⟨extension.kind, _, hkind.2, append_assoc .., _, _, rfl, hflags, extension.payload, tail, hpayload,
      rfl, extension, ⟨rfl, hpreserve, rfl⟩, rfl, by simp [TableManifestExtensionSection.layout]⟩

/-! ## Strict and relaxed checks -/

theorem validateLevelTablesFrom_relaxed (h : validateLevelTablesFrom level false index previous tables = .ok ()) :
    validateLevelTablesFrom level true index previous tables = .ok () := by
  induction tables generalizing index previous with
  | nil => rfl
  | cons table tables ih =>
    simp only [validateLevelTablesFrom, check_bind_eq_ok] at h ⊢
    refine ⟨h.1, ?_⟩
    by_cases hlevel : level = 0
    · simp only [hlevel, ne_eq, not_true_eq_false, if_false] at h ih ⊢
      exact ih h.2
    · simp only [ne_eq, hlevel, not_false_eq_true, if_true, check_bind_eq_ok,
        require_eq_ok, true_or, true_and] at h ⊢
      exact ⟨h.2.2.1, ih h.2.2.2⟩

theorem validateManifestLevelsFrom_relaxed {seen : List BranchLevel} {previous : Option BranchLevel}
    (h : validateManifestLevelsFrom false seen previous levels = .ok ()) :
    validateManifestLevelsFrom true seen previous levels = .ok () := by
  induction levels generalizing seen previous with
  | nil => rfl
  | cons level levels ih =>
    simp only [validateManifestLevelsFrom, validateLevelTables, check_bind_eq_ok,
      require_eq_ok, true_or, true_and] at h ⊢
    obtain ⟨hnew, -, ⟨hlength, htables⟩, h⟩ := h
    exact ⟨hnew, ⟨hlength, validateLevelTablesFrom_relaxed htables⟩, ih h⟩

theorem validateManifestLevels_relaxed (h : validateManifestLevels levels false = .ok ()) :
    validateManifestLevels levels true = .ok () := by
  obtain ⟨hlength, h⟩ := check_bind_eq_ok.1 h
  exact check_bind_eq_ok.2 ⟨hlength, validateManifestLevelsFrom_relaxed h⟩

/-- Every layer passed the strict check of its levels when it was built. -/
theorem validateManifestLayersFrom_strict : validateManifestLayersFrom canonicalized index seen layers = .ok () ↔
      validateManifestLayersFrom false index seen layers = .ok () := by
  induction layers generalizing index seen with
  | nil => exact Iff.rfl
  | cons layer layers ih =>
    have hstrict := (validateManifestLayer_eq_ok.1 layer.valid).2.2
    have hlevels : validateManifestLevels layer.levels canonicalized = .ok () := by
      cases canonicalized with
      | false => exact hstrict
      | true => exact validateManifestLevels_relaxed hstrict
    simp only [validateManifestLayersFrom, check_bind_eq_ok, hlevels, hstrict, ih]

theorem validateManifestLayers_strict : validateManifestLayers layers canonicalized = .ok () ↔
      validateManifestLayers layers false = .ok () := by
  simp only [validateManifestLayers, check_bind_eq_ok, validateManifestLayersFrom_strict]

/-- Sections in order of their kinds that were seen once are in strict order. -/
theorem validateExtensionsFrom_strict {seen : List Bytes} {previous : Option Bytes}
    (hsorted : extensions.Pairwise fun left right => utf8Bytes left.kind ≤ utf8Bytes right.kind)
    (hprevious : ∀ p ∈ previous, p ∈ seen ∧ ∀ extension ∈ extensions, p ≤ utf8Bytes extension.kind)
    (h : validateExtensionsFrom canonicalized seen previous extensions = .ok ()) :
    validateExtensionsFrom false seen previous extensions = .ok () := by
  induction extensions generalizing seen previous with
  | nil => rfl
  | cons extension extensions ih =>
    simp only [validateExtensionsFrom, check_bind_eq_ok, require_eq_ok] at h ⊢
    obtain ⟨hkind, hnew, -, h⟩ := h
    obtain ⟨hbelow, hsorted⟩ := pairwise_cons.1 hsorted
    refine ⟨hkind, hnew, .inr ?_, ih hsorted ?_ h⟩
    · cases hp : previous with
      | none => rfl
      | some p =>
        obtain ⟨hseen, hle⟩ := hprevious p hp
        have hne : p ≠ utf8Bytes extension.kind := fun heq => hnew (heq ▸ hseen)
        simpa using lt_of_le_of_ne (hle extension mem_cons_self) hne
    · rintro p hp
      cases hp
      exact ⟨mem_cons_self, hbelow⟩

theorem validateExtensionsFrom_relaxed {seen : List Bytes} {previous : Option Bytes}
    (h : validateExtensionsFrom false seen previous extensions = .ok ()) :
    validateExtensionsFrom true seen previous extensions = .ok () := by
  induction extensions generalizing seen previous with
  | nil => rfl
  | cons extension extensions ih =>
    simp only [validateExtensionsFrom, check_bind_eq_ok, require_eq_ok, true_or, true_and] at h ⊢
    obtain ⟨hkind, hnew, -, h⟩ := h
    exact ⟨hkind, hnew, ih h⟩

namespace TableManifestParts

variable {parts : TableManifestParts}

/-- The checks of a manifest, by part. -/
theorem validate_eq_ok : parts.validate canonicalized = .ok () ↔ parts.manifestSequence ≠ 0 ∧
      parts.branchGeneration ≠ some 0 ∧ validateManifestLevels parts.levels canonicalized = .ok () ∧
      validateManifestLayers parts.inheritedLayers canonicalized = .ok () ∧
      validateExtensions parts.extensionSections canonicalized = .ok () ∧
      validateTableObjectsForBranch parts.branchId parts.levels = .ok () ∧
      (parts.inheritedLayers.forM fun layer =>
        validateTableObjectsForBranch layer.sourceBranchId layer.levels) = .ok () ∧
      validateUniqueTablesFrom 0 [] [] (manifestTableRefs parts.levels parts.inheritedLayers) = .ok () := by
  simp only [validate, validateGeneration, check_bind_eq_ok, require_eq_ok]

theorem validate_relaxed (h : parts.validate false = .ok ()) : parts.validate true = .ok () := by
  obtain ⟨hsequence, hgeneration, hlevels, hlayers, hextensions, hrest⟩ := validate_eq_ok.1 h
  obtain ⟨hlength, hextensions⟩ := check_bind_eq_ok.1 hextensions
  exact validate_eq_ok.2 ⟨hsequence, hgeneration, validateManifestLevels_relaxed hlevels,
    validateManifestLayers_strict.2 hlayers,
    check_bind_eq_ok.2 ⟨hlength, validateExtensionsFrom_relaxed hextensions⟩, hrest⟩

/-- What the constructor accepts behind its sorts passes the strict checks. -/
theorem validate_canonical (h : parts.canonical.validate true = .ok ()) :
    parts.canonical.validate false = .ok () := by
  obtain ⟨hsequence, hgeneration, hlevels, hlayers, hextensions, hrest⟩ := validate_eq_ok.1 h
  obtain ⟨hlength, hextensions⟩ := check_bind_eq_ok.1 hextensions
  have hsorted : parts.canonical.extensionSections.Pairwise fun left right =>
      utf8Bytes left.kind ≤ utf8Bytes right.kind :=
    pairwise_insertionSort (r := fun left right : TableManifestExtensionSection =>
      utf8Bytes left.kind ≤ utf8Bytes right.kind) _
  exact validate_eq_ok.2 ⟨hsequence, hgeneration, validateManifestLevels_strict (sortLevels_sorted _) hlevels,
    validateManifestLayers_strict.1 hlayers, check_bind_eq_ok.2 ⟨hlength,
    validateExtensionsFrom_strict hsorted (by simp) hextensions⟩, hrest⟩

end TableManifestParts

/-! ## Manifests -/

section Manifest

variable (crc32 : Bytes → UInt32) {parts : TableManifestParts} {manifest : TableManifest}

def encodeTableManifest (manifest : TableManifest) : Except FormatError Bytes := do
  validateManifestLevels manifest.levels false
  validateManifestLayers manifest.inheritedLayers false
  validateExtensions manifest.extensionSections false
  validateTableObjectsForBranch manifest.branchId manifest.levels
  manifest.inheritedLayers.forM fun layer => validateTableObjectsForBranch layer.sourceBranchId layer.levels
  validateUniqueTablesFrom 0 [] [] (manifestTableRefs manifest.levels manifest.inheritedLayers)
  let generation ← writeOptionalU64 manifest.branchGeneration "branch_generation"
  let levelCount ← writeCount manifest.levels.length "level_count"
  let layerCount ← writeCount manifest.inheritedLayers.length "inherited_layer_count"
  let extensionCount ← writeCount manifest.extensionSections.length "extension_count"
  let levels ← manifest.levels.mapM encodeLevel
  let layers ← manifest.inheritedLayers.mapM encodeInheritedLayer
  let extensions ← manifest.extensionSections.mapM encodeExtensionSection
  let bytes := tableManifestMagic ++ (leBytes 4 tableManifestFormatVersion ++
    (manifest.branchId.bytes ++ (generation ++ (leBytes 8 manifest.manifestSequence.toNat ++
      (levelCount ++ (layerCount ++ (extensionCount ++ (levels.flatten ++ (layers.flatten ++
        extensions.flatten)))))))))
  .ok (bytes ++ leBytes 4 (crc32 bytes).toNat)

def minimumManifestLen : Nat := 4 + 4 + BranchId.byteLen + 1 + 8 + 8 + 4 + 4 + 4 + 4

/-- The version check of `decode_table_manifest`. -/
def validateTableManifestVersion (version : Nat) : Except FormatError Unit :=
  if version = tableManifestFormatVersion then .ok ()
  else if version = 0 then .error (.preV1Format tableManifestFormat version)
  else .error (.futureFormat tableManifestFormat version tableManifestFormatVersion)

/-- `decode_table_manifest`, behind its checksum. -/
def decodeTableManifestParts (reader : ByteReader) : Except FormatError TableManifestParts := do
  let (branchId, reader) ← readBranchId reader "branch_id"
  let (branchGeneration, reader) ← readOptionalU64 reader "branch_generation"
  let (manifestSequence, reader) ← reader.readU64Le
  let (levelCount, reader) ← readCount reader maxManifestLevels "level_count"
  let (layerCount, reader) ← readCount reader maxInheritedLayers "inherited_layer_count"
  let (extensionCount, reader) ← readCount reader maxExtensions "extension_count"
  let (levels, reader) ← readMany decodeLevel levelCount reader
  let (layers, reader) ← readMany decodeInheritedLayer layerCount reader
  let (extensions, reader) ← readMany decodeExtensionSection extensionCount reader
  reader.finish
  .ok ⟨branchId, branchGeneration, manifestSequence, levels, layers, extensions⟩

def TableManifest.fromDecoded (parts : TableManifestParts) : Except FormatError TableManifest :=
  match h : parts.validate false with
  | .error e => .error e
  | .ok () => .ok ⟨parts, validate_relaxed h⟩

def decodeTableManifest (bytes : Bytes) : Except FormatError TableManifest := do
  .require (minimumManifestLen ≤ bytes.length)
    (.insufficientBytes tableManifestFormat minimumManifestLen bytes.length)
  let body := bytes.take (bytes.length - 4)
  let storedCrc := ofLeBytes (bytes.drop (bytes.length - 4))
  let (magic, reader) ← (ByteReader.new tableManifestFormat body).readExact 4
  .require (magic = tableManifestMagic) (.invalidMagic tableManifestFormat)
  let (version, reader) ← reader.readU32Le
  validateTableManifestVersion version
  .require (storedCrc = (crc32 body).toNat) (.checksumMismatch tableManifestFormat storedCrc (crc32 body).toNat)
  let parts ← decodeTableManifestParts reader
  TableManifest.fromDecoded parts

/-- The bytes of a manifest behind its magic and version. -/
def TableManifestParts.layout (parts : TableManifestParts) : Bytes :=
  parts.branchId.bytes ++ (optionalLayout parts.branchGeneration ++
    (leBytes 8 parts.manifestSequence.toNat ++ (leBytes 4 parts.levels.length ++
      (leBytes 4 parts.inheritedLayers.length ++ (leBytes 4 parts.extensionSections.length ++
        (parts.levels.flatMap TableManifestLevel.layout ++
          (parts.inheritedLayers.flatMap TableManifestInheritedLayer.layout ++
            parts.extensionSections.flatMap TableManifestExtensionSection.layout)))))))

/-- The bytes of a manifest in front of its checksum. -/
def TableManifestParts.body (parts : TableManifestParts) : Bytes :=
  tableManifestMagic ++ (leBytes 4 tableManifestFormatVersion ++ parts.layout)

/-- A manifest whose table identities the encoder has room for. -/
def TableManifestParts.Fits (parts : TableManifestParts) : Prop :=
  ∀ table ∈ manifestTableRefs parts.levels parts.inheritedLayers, table.Fits

theorem TableManifestParts.fits_iff : parts.Fits ↔
    (∀ level ∈ parts.levels, level.Fits) ∧ ∀ layer ∈ parts.inheritedLayers, layer.Fits := by
  simp only [Fits, manifestTableRefs, mem_append, mem_flatMap, TableManifestLevel.Fits,
    TableManifestInheritedLayer.Fits]
  constructor
  · intro h
    exact ⟨fun level hlevel table htable => h table (.inl ⟨level, hlevel, htable⟩),
      fun layer hlayer level hlevel table htable => h table (.inr ⟨layer, hlayer, level, hlevel, htable⟩)⟩
  · rintro ⟨hlevels, hlayers⟩ table (⟨level, hlevel, htable⟩ | ⟨layer, hlayer, level, hlevel, htable⟩)
    · exact hlevels level hlevel table htable
    · exact hlayers layer hlayer level hlevel table htable

/-- The counts of a manifest are within the limits of their fields. -/
theorem TableManifestParts.counts_le
    (h : parts.validate canonicalized = .ok ()) : parts.levels.length ≤ maxManifestLevels ∧
      parts.inheritedLayers.length ≤ maxInheritedLayers ∧ parts.extensionSections.length ≤ maxExtensions := by
  obtain ⟨-, -, hlevels, hlayers, hextensions, -⟩ := validate_eq_ok.1 h
  exact ⟨length_of_validateManifestLevels hlevels, require_eq_ok.1 (check_bind_eq_ok.1 hlayers).1,
    require_eq_ok.1 (check_bind_eq_ok.1 hextensions).1⟩

/-- Layers of a manifest are numbered from the first on. -/
theorem order_of_validateManifestLayersFrom {layers : List TableManifestInheritedLayer}
    (h : validateManifestLayersFrom canonicalized index seen layers = .ok ()) :
    ∀ layer ∈ layers, layer.order < index + layers.length := by
  induction layers generalizing index seen with
  | nil => simp
  | cons layer layers ih =>
    simp only [validateManifestLayersFrom, check_bind_eq_ok, require_eq_ok] at h
    obtain ⟨horder, -, -, h⟩ := h
    intro l hl
    rw [length_cons]
    rcases mem_cons.1 hl with rfl | hl
    · omega
    · have := ih h l hl
      omega

theorem TableManifestParts.layer_order_lt (h : parts.validate canonicalized = .ok ()) :
    ∀ layer ∈ parts.inheritedLayers, layer.order < 2 ^ 32 := by
  intro layer hlayer
  obtain ⟨-, -, -, hlayers, -⟩ := validate_eq_ok.1 h
  have horder := order_of_validateManifestLayersFrom (check_bind_eq_ok.1 hlayers).2 layer hlayer
  have hcount := (counts_le h).2.1
  simp only [maxInheritedLayers] at hcount
  omega

/-- The encoder accepts the manifests that pass the strict checks and have room for
their identities. -/
theorem encodeTableManifest_eq_ok : encodeTableManifest crc32 manifest = .ok bytes ↔
      manifest.toTableManifestParts.validate false = .ok () ∧ manifest.toTableManifestParts.Fits ∧
        bytes = manifest.toTableManifestParts.body ++
          leBytes 4 (crc32 manifest.toTableManifestParts.body).toNat := by
  obtain ⟨hlevelCount, hlayerCount, hextensionCount⟩ := counts_le manifest.valid
  obtain ⟨hsequence, hgeneration, -⟩ := validate_eq_ok.1 manifest.valid
  have hlevels32 := lt_of_le_of_lt hlevelCount (by decide : maxManifestLevels < 2 ^ 32)
  have hlayers32 := lt_of_le_of_lt hlayerCount (by decide : maxInheritedLayers < 2 ^ 32)
  have hextensions32 := lt_of_le_of_lt hextensionCount (by decide : maxExtensions < 2 ^ 32)
  have hextensions : ∀ extension bytes, encodeExtensionSection extension = .ok bytes ↔
      True ∧ bytes = extension.layout := fun extension bytes => by
    rw [encodeExtensionSection_eq, ok.injEq, true_and, eq_comm]
  simp only [encodeTableManifest, check_bind_eq_ok, bind_eq_ok (x := mapM _ _),
    bind_eq_ok (x := writeCount _ _), bind_eq_ok (x := writeOptionalU64 _ _), writeOptionalU64_eq_ok,
    writeCount_eq_ok, mapM_eq_ok (fun _ _ => encodeLevel_eq_ok), mapM_eq_ok
    (fun _ _ => encodeInheritedLayer_eq_ok), mapM_eq_ok hextensions, ok.injEq, validate_eq_ok, fits_iff]
  constructor
  · rintro ⟨hlevels, hlayers, hsections, hobjects, hlayerObjects, hunique, _, ⟨-, rfl⟩, _, ⟨-, rfl⟩, _,
      ⟨-, rfl⟩, _, ⟨-, rfl⟩, _, ⟨hfits, rfl⟩, _, ⟨hlayerFits, rfl⟩, _, ⟨-, rfl⟩, rfl⟩
    exact ⟨⟨hsequence, hgeneration, hlevels, hlayers, hsections, hobjects, hlayerObjects, hunique⟩,
      ⟨hfits, hlayerFits⟩, by simp only [body, layout, flatMap_def]⟩
  · rintro ⟨⟨-, -, hlevels, hlayers, hsections, hobjects, hlayerObjects, hunique⟩, ⟨hfits, hlayerFits⟩, rfl⟩
    exact ⟨hlevels, hlayers, hsections, hobjects, hlayerObjects, hunique, _, ⟨hgeneration, rfl⟩, _,
      ⟨hlevels32, rfl⟩, _, ⟨hlayers32, rfl⟩, _, ⟨hextensions32, rfl⟩, _, ⟨hfits, rfl⟩, _,
      ⟨hlayerFits, rfl⟩, _, ⟨by simp, rfl⟩, by simp only [body, layout, flatMap_def]⟩

theorem TableManifest.fromDecoded_eq_ok : fromDecoded parts = .ok manifest ↔ parts.validate false = .ok () ∧
      manifest.toTableManifestParts = parts := by
  unfold fromDecoded
  constructor
  · intro h
    split at h
    · cases h
    · rename_i hvalid
      cases h
      exact ⟨hvalid, rfl⟩
  · rintro ⟨hvalid, rfl⟩
    split
    · rename_i h
      rw [hvalid] at h
      cases h
    · rfl

theorem decodeTableManifestParts_eq_ok {done rest : Bytes} (hvalid : parts.validate false = .ok ()) :
    decodeTableManifestParts (.mid tableManifestFormat done rest) = .ok parts ↔
      parts.Fits ∧ rest = parts.layout := by
  have hlevels : maxManifestLevels < 2 ^ 32 := by decide
  have hlayers : maxInheritedLayers < 2 ^ 32 := by decide
  have hextensions : maxExtensions < 2 ^ 32 := by decide
  simp only [decodeTableManifestParts, readBranchId_reads.bind, readOptionalU64_reads.bind,
    mid_readU64Le_bind, (readCount_reads hlevels).bind, (readCount_reads hlayers).bind,
    (readCount_reads hextensions).bind, (decodeLevel_reads.many _).bind,
    (decodeInheritedLayer_reads.many _).bind, (decodeExtensionSection_reads.many _).bind,
    check_bind_eq_ok, mid_finish_eq_ok, ok.injEq, true_and, fits_iff]
  constructor
  · rintro ⟨_, _, rfl, _, _, -, rfl, _, _, rfl, _, _, -, rfl, _, _, -, rfl, _, _, -, rfl, _, _,
      ⟨rfl, hfits⟩, rfl, _, _, ⟨rfl, hlayerFits⟩, rfl, _, _, ⟨rfl, -⟩, rfl, rfl, rfl⟩
    exact ⟨⟨hfits, fun layer hlayer => (hlayerFits layer hlayer).1⟩, by simp [layout]⟩
  · rintro ⟨⟨hfits, hlayerFits⟩, rfl⟩
    obtain ⟨hlevelCount, hlayerCount, hextensionCount⟩ := counts_le hvalid
    obtain ⟨-, hgeneration, -⟩ := validate_eq_ok.1 hvalid
    exact ⟨_, _, rfl, _, _, hgeneration, rfl, _, _, rfl, _, _, hlevelCount, rfl, _, _, hlayerCount, rfl,
      _, _, hextensionCount, rfl, _, _, ⟨rfl, hfits⟩, rfl, _, _,
      ⟨rfl, fun layer hlayer => ⟨hlayerFits layer hlayer, layer_order_lt hvalid layer hlayer⟩⟩, rfl, _, [],
      ⟨rfl, by simp⟩, (append_nil _).symm, rfl, rfl⟩

theorem minimumManifestLen_le (parts : TableManifestParts) (crc : Nat) :
    minimumManifestLen ≤ (parts.body ++ leBytes 4 crc).length := by
  have hbranch := parts.branchId.length_bytes
  simp only [minimumManifestLen, BranchId.byteLen, body, layout, tableManifestMagic, length_append,
    length_leBytes, length_optionalLayout, hbranch, length_cons, length_nil]
  omega

/-- Bytes of at least four are a body and four bytes of a checksum. -/
theorem exists_body (h : 4 ≤ bytes.length) : ∃ body crc, bytes = body ++ leBytes 4 crc ∧ crc < 256 ^ 4 := by
  have hlen : (bytes.drop (bytes.length - 4)).length = 4 := by
    rw [length_drop]
    omega
  refine ⟨bytes.take (bytes.length - 4), ofLeBytes (bytes.drop (bytes.length - 4)), ?_, ?_⟩
  · have hdrop := leBytes_ofLeBytes (bytes.drop (bytes.length - 4))
    rw [hlen] at hdrop
    rw [hdrop, take_append_drop]
  · have hlt := ofLeBytes_lt (bytes.drop (bytes.length - 4))
    rwa [hlen] at hlt

/-- The decoder, on a body and a checksum. -/
theorem decodeTableManifest_append {body : Bytes} {crc : Nat} (hcrc : crc < 256 ^ 4) :
    decodeTableManifest crc32 (body ++ leBytes 4 crc) = .ok manifest ↔
      manifest.toTableManifestParts.validate false = .ok () ∧ manifest.toTableManifestParts.Fits ∧
        body = manifest.toTableManifestParts.body ∧ crc = (crc32 body).toNat := by
  have hlen : (body ++ leBytes 4 crc).length - 4 = body.length := by simp
  have hversion : ∀ version, validateTableManifestVersion version = .ok () ↔
      version = tableManifestFormatVersion := fun version => by
    unfold validateTableManifestVersion
    split
    · simp_all
    · split <;> simp_all
  simp only [decodeTableManifest, hlen, take_left, drop_left, ofLeBytes_leBytes hcrc, new_eq_mid,
    check_bind_eq_ok, require_eq_ok, mid_readExact_bind, mid_readU32Le_bind, hversion, bind_eq_ok
    (x := decodeTableManifestParts _), TableManifest.fromDecoded_eq_ok]
  constructor
  · rintro ⟨-, _, _, rfl, -, rfl, _, rest, -, rfl, rfl, hsum, parts, hparts, hvalid, rfl⟩
    obtain ⟨hfits, rfl⟩ := (decodeTableManifestParts_eq_ok hvalid).1 hparts
    exact ⟨hvalid, hfits, rfl, hsum⟩
  · rintro ⟨hvalid, hfits, rfl, hsum⟩
    exact ⟨minimumManifestLen_le _ _, tableManifestMagic, _, rfl, rfl, rfl, tableManifestFormatVersion,
      _, by decide, rfl, rfl, hsum, manifest.toTableManifestParts,
      (decodeTableManifestParts_eq_ok hvalid).2 ⟨hfits, rfl⟩, hvalid, rfl⟩

/-- The decoder accepts exactly the encodings. -/
theorem decodeTableManifest_eq_ok : decodeTableManifest crc32 bytes = .ok manifest ↔
      encodeTableManifest crc32 manifest = .ok bytes := by
  have hcrc : (crc32 manifest.toTableManifestParts.body).toNat < 256 ^ 4 := UInt32.toNat_lt_pow _
  rw [encodeTableManifest_eq_ok]
  constructor
  · intro h
    have hlen : 4 ≤ bytes.length := le_trans (by decide) (require_eq_ok.1 (check_bind_eq_ok.1 h).1)
    obtain ⟨body, crc, rfl, hlt⟩ := exists_body hlen
    obtain ⟨hvalid, hfits, rfl, rfl⟩ := (decodeTableManifest_append crc32 hlt).1 h
    exact ⟨hvalid, hfits, rfl⟩
  · rintro ⟨hvalid, hfits, rfl⟩
    exact (decodeTableManifest_append crc32 hcrc).2 ⟨hvalid, hfits, rfl, rfl⟩

/-- Decoding is inverse to encoding on the manifests of the constructor exactly where
every table identity is within the encoder's limit, which the constructor does not
check; and bytes the decoder accepts are encoded again to themselves. -/
theorem tableManifest_codec : (∀ parts manifest, TableManifest.new parts = .ok manifest →
      ((∃ bytes, encodeTableManifest crc32 manifest = .ok bytes ∧ decodeTableManifest crc32 bytes = .ok manifest) ↔
        ∀ table ∈ manifestTableRefs parts.levels parts.inheritedLayers,
          (utf8Bytes table.tableIdentity.text).length ≤ maxIdentityBytes)) ∧
    ∀ bytes manifest, decodeTableManifest crc32 bytes = .ok manifest →
      encodeTableManifest crc32 manifest = .ok bytes := by
  refine ⟨fun parts manifest hnew => ?_, fun bytes manifest => (decodeTableManifest_eq_ok crc32).1⟩
  have hparts := TableManifest.new_eq_ok hnew
  have hstrict : manifest.toTableManifestParts.validate false = .ok () := by
    have hvalid := manifest.valid
    rw [hparts] at hvalid ⊢
    exact validate_canonical hvalid
  -- the sorts of the constructor keep the tables
  have hfits : manifest.toTableManifestParts.Fits ↔
      ∀ table ∈ manifestTableRefs parts.levels parts.inheritedLayers, table.Fits := by
    have hperm : (manifestTableRefs parts.canonical.levels parts.canonical.inheritedLayers).Perm
        (manifestTableRefs parts.levels parts.inheritedLayers) :=
      ((List.perm_insertionSort _ _).flatMap_right _).append ((List.perm_insertionSort _ _).flatMap_right _)
    rw [hparts]
    exact forall_congr' fun table => by rw [hperm.mem_iff]
  constructor
  · rintro ⟨bytes, hencode, -⟩
    exact hfits.1 ((encodeTableManifest_eq_ok crc32).1 hencode).2.1
  · intro hidentities
    have hencode := (encodeTableManifest_eq_ok crc32).2 ⟨hstrict, hfits.2 hidentities, rfl⟩
    exact ⟨_, hencode, (decodeTableManifest_eq_ok crc32).2 hencode⟩

end Manifest

namespace Sample

def manifestBranch : BranchId := ⟨List.replicate 16 0, length_zeros⟩

/-- A table of one row. -/
def listedTable (identity : TableIdentity) (object : TableObject) (order : Nat)
    (bounds : TableManifestTableBounds) : TableManifestTableRef where
  tableIdentity := identity
  object := object
  order := order
  facts := ⟨1, 1, 1, 1, 1, none, none, rfl⟩
  bounds := bounds
  provenance := .flush

/-- A manifest that lists one table, under an identity. -/
def listingParts (identity : TableIdentity) : TableManifestParts where
  branchId := manifestBranch
  branchGeneration := none
  manifestSequence := 1
  levels := [⟨0, [listedTable identity ⟨manifestBranch, 0, [0x74], Nat.zero_le _, by decide, by decide⟩ 0
    ⟨[1], [1], [1], [1], rfl⟩], rfl⟩]
  inheritedLayers := []
  extensionSections := []

theorem new_of_validate {parts : TableManifestParts} (hvalid : parts.canonical.validate true = .ok ()) :
    ∃ manifest, TableManifest.new parts = .ok manifest := by
  unfold TableManifest.new TableManifest.fromParts
  split
  · rename_i h
    rw [hvalid] at h
    cases h
  · exact ⟨_, rfl⟩

/-- An identity of 257 bytes. -/
@[irreducible] def longText : String := String.ofList (List.replicate 257 'a')

theorem utf8Bytes_replicate (n : Nat) : utf8Bytes (String.ofList (replicate n 'a')) = replicate n 0x61 := by
  have hchar : String.utf8EncodeChar 'a' = [0x61] := rfl
  rw [utf8Bytes_ofList, flatMap_replicate, hchar, flatten_replicate_singleton]

theorem utf8Bytes_longText : utf8Bytes longText = replicate 257 0x61 := by
  unfold longText
  exact utf8Bytes_replicate 257

theorem length_longText : (utf8Bytes longText).length = 257 := by
  rw [utf8Bytes_longText, length_replicate]

def longIdentity : TableIdentity := ⟨longText, by
  have hne : utf8Bytes longText ≠ [] := fun h => by
    have hlength := length_longText
    rw [h] at hlength
    cases hlength
  have hbytes : ¬(0x2F ∈ utf8Bytes longText ∨ 0x00 ∈ utf8Bytes longText) := by
    rw [utf8Bytes_longText]
    rintro (h | h)
    · exact absurd (List.eq_of_mem_replicate h) (by decide)
    · exact absurd (List.eq_of_mem_replicate h) (by decide)
  rw [validateIdentityText, if_neg hne, if_neg hbytes]⟩

/-- The constructor accepts a manifest with a table identity of 257 bytes, and the
encoder refuses it. -/
theorem longIdentity_unencoded : ∃ manifest, TableManifest.new (listingParts longIdentity) =
    .ok manifest ∧ ∀ bytes, encodeTableManifest Crc32.checksum manifest ≠ .ok bytes := by
  obtain ⟨manifest, hnew⟩ := new_of_validate (rfl : (listingParts longIdentity).canonical.validate true = .ok ())
  refine ⟨manifest, hnew, fun bytes hencode => ?_⟩
  have hfits := ((encodeTableManifest_eq_ok _).1 hencode).2.1
  rw [TableManifest.new_eq_ok hnew] at hfits
  have hlength : (utf8Bytes longText).length ≤ maxIdentityBytes := hfits _ List.mem_cons_self
  rw [length_longText] at hlength
  exact absurd hlength (by decide)

def manifestParent : BranchId := ⟨List.replicate 16 1, length_ones⟩

/-- A manifest of two levels, given in the wrong order, an inherited layer and a section. -/
def forkedParts : TableManifestParts where
  branchId := manifestBranch
  branchGeneration := some 2
  manifestSequence := 7
  levels :=
    [⟨1, [listedTable ⟨"left", by decide⟩ ⟨manifestBranch, 1, [0x6C], by decide, by decide, by decide⟩ 0
        ⟨[1], [2], [1], [2], rfl⟩,
      listedTable ⟨"right", by decide⟩ ⟨manifestBranch, 1, [0x72], by decide, by decide, by decide⟩ 1
        ⟨[3], [4], [3], [4], rfl⟩], rfl⟩,
    ⟨0, [listedTable ⟨"young", by decide⟩ ⟨manifestBranch, 0, [0x79], by decide, by decide, by decide⟩ 0
        ⟨[1], [4], [1], [4], rfl⟩], rfl⟩]
  inheritedLayers :=
    [⟨0, manifestParent, none, 3, .active,
      [⟨0, [listedTable ⟨"parent", by decide⟩ ⟨manifestParent, 0, [0x70], by decide, by decide, by decide⟩ 0
        ⟨[1], [4], [1], [4], rfl⟩], rfl⟩], rfl⟩]
  extensionSections := [⟨"stats", true, [1, 2, 3], by decide⟩]

/-- It is decoded from its encoding. -/
theorem tableManifest_codec_forked : ∃ manifest, TableManifest.new forkedParts = .ok manifest ∧
    ∃ bytes, encodeTableManifest Crc32.checksum manifest = .ok bytes ∧
      decodeTableManifest Crc32.checksum bytes = .ok manifest := by
  obtain ⟨manifest, hnew⟩ := new_of_validate (by decide +kernel : forkedParts.canonical.validate true = .ok ())
  exact ⟨manifest, hnew, ((tableManifest_codec _).1 _ manifest hnew).2 (by decide +kernel)⟩

end Sample

end Strata
