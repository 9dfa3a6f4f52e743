import StrataStorage.Engine.Event.Service
import StrataStorage.Engine.Graph.Key

/-!
# The row keys of every capability

The key encoders, the scan bounds and the decoders of `persistence/key.rs` for the
rows that live in a product space: KV, JSON and its secondary indexes, vectors,
events and graphs. A key is taken apart by the same steps for every class, so each
decoder is a few applications of `KeyErrors`, which holds the code and the subject
of its errors.

* `bytes_injective`: a key determines its space and its components;
* `Inverts`: a decoder returns the components of the keys of its class and accepts
  nothing else;
* `Selects`: a scan bound is in front of the keys that have the components it was
  built from, and of no others.
-/

namespace Strata.Engine

open Except List

/-! ## Names -/

structure KvKey where
  bytes : Bytes
  nonempty : bytes ≠ []
  deriving DecidableEq

def KvKey.new (bytes : Bytes) : Except EngineError KvKey :=
  if h : bytes ≠ [] then .ok ⟨bytes, h⟩
  else .error (.invalidInput "invalid_argument.engine.kv_key" "KV key must not be empty")

theorem KvKey.new_eq_ok {bytes : Bytes} {key : KvKey} : new bytes = .ok key ↔ key.bytes = bytes := by
  unfold new
  split_ifs with hnil
  · rw [ok.injEq]
    exact ⟨fun h => h ▸ rfl, fun h => by cases key; cases h; rfl⟩
  · simp only [false_iff]
    rintro rfl
    exact hnil key.nonempty

/-- `validate_component` of the JSON types. -/
def validateComponent (maxBytes : Nat) (code label value : String) : Except EngineError Unit := do
  .require (value ≠ "") (.invalidInput code (label ++ " must not be empty"))
  .require ((utf8Bytes value).length ≤ maxBytes) (.invalidInput code (label ++ " is too long"))
  .require ((utf8Bytes value).all fun byte => byte ≠ 0 && byte ≠ 10)
    (.invalidInput code (label ++ " contains an unsupported control byte"))

def maxDocumentIdBytes : Nat := 65535

def maxIndexNameBytes : Nat := 256

/-- `JsonDocumentId::new`. -/
def validateJsonDocumentId (id : String) : Except EngineError Unit :=
  validateComponent maxDocumentIdBytes "invalid_argument.engine.json_document_id" "JSON document id" id

/-- `JsonIndexName::new`. -/
def validateJsonIndexName (name : String) : Except EngineError Unit := do
  validateComponent maxIndexNameBytes "invalid_argument.engine.json_index_name" "JSON index name" name
  requireUnreserved "invalid_argument.engine.json_index_name_reserved" "JSON index name" name

/-- `validate_text_component` of the vector types. -/
def validateVectorTextComponent (maxBytes : Nat) (allowEmpty : Bool) (code label value : String) :
    Except EngineError Unit := do
  .require (allowEmpty = true ∨ value ≠ "") (.invalidInput code (label ++ " must not be empty"))
  .require ((utf8Bytes value).length ≤ maxBytes) (.invalidInput code (label ++ " is too long"))
  .require (0 ∉ utf8Bytes value) (.invalidInput code (label ++ " contains an unsupported control byte"))

def maxCollectionNameBytes : Nat := 256

def maxVectorKeyBytes : Nat := 1024

/-- `VectorCollectionName::new`. -/
def validateVectorCollectionName (name : String) : Except EngineError Unit := do
  validateVectorTextComponent maxCollectionNameBytes false
    "invalid_argument.engine.vector_collection" "vector collection name" name
  requireUnreserved "invalid_argument.engine.vector_collection_reserved" "vector collection name" name
  .require ('/' ∉ name.toList) (.invalidInput "invalid_argument.engine.vector_collection"
      "vector collection name must not contain `/`")

/-- `VectorKey::new`: a vector key may be empty. -/
def validateVectorKey (key : String) : Except EngineError Unit :=
  validateVectorTextComponent maxVectorKeyBytes true "invalid_argument.engine.vector_key" "vector key" key

abbrev JsonDocumentId := ValidText validateJsonDocumentId

abbrev JsonIndexName := ValidText validateJsonIndexName

abbrev VectorCollectionName := ValidText validateVectorCollectionName

abbrev VectorKey := ValidText validateVectorKey

instance : ShortText validateJsonIndexName := ⟨fun _ h => by
  simp only [validateJsonIndexName, validateComponent, check_bind_eq_ok, require_eq_ok] at h
  exact lt_of_le_of_lt h.1.2.1 (by decide)⟩

instance : ShortText validateVectorCollectionName := ⟨fun _ h => by
  simp only [validateVectorCollectionName, validateVectorTextComponent, check_bind_eq_ok, require_eq_ok] at h
  exact lt_of_le_of_lt h.1.2.1 (by decide)⟩

theorem JsonDocumentId.utf8Bytes_ne_nil (id : JsonDocumentId) : utf8Bytes id.text ≠ [] := by
  have h := id.valid
  simp only [validateJsonDocumentId, validateComponent, check_bind_eq_ok, require_eq_ok] at h
  exact fun hnil => h.1 (utf8Bytes_injective hnil)

/-! ## Encoders and scan bounds -/

/-! The discriminators are the bytes `k`, `j`, `m`, `i`, `c` and `v`. -/

def kvDiscriminator : UInt8 := 0x6b
def jsonDiscriminator : UInt8 := 0x6a
def jsonIndexMetaDiscriminator : UInt8 := 0x6d
def jsonIndexEntryDiscriminator : UInt8 := 0x69
def vectorCollectionDiscriminator : UInt8 := 0x63
def vectorEntryDiscriminator : UInt8 := 0x76

section Encoders

variable (space : ProductSpace)

@[simp] def encodeKvKeyBytes (keyBytes : Bytes) : Bytes := encodeUserKey kvDiscriminator space keyBytes

@[simp] def encodeKvKey (key : KvKey) : Bytes := encodeKvKeyBytes space key.bytes

@[simp] def encodeKvSpacePrefix : Bytes := encodeKvKeyBytes space []

@[simp] def encodeJsonKey (id : JsonDocumentId) : Bytes :=
  encodeUserKey jsonDiscriminator space (utf8Bytes id.text)

@[simp] def encodeJsonSpacePrefix : Bytes := encodeUserKey jsonDiscriminator space []

@[simp] def encodeJsonIndexKey (discriminator : UInt8) (name : JsonIndexName) (suffix : Bytes) : Bytes :=
  encodeUserKey discriminator space [] ++ (encodeLengthPrefixedText name.text ++ suffix)

@[simp] def encodeJsonIndexMetaKey (name : JsonIndexName) : Bytes :=
  encodeJsonIndexKey space jsonIndexMetaDiscriminator name []

@[simp] def encodeJsonIndexMetaPrefix : Bytes := encodeUserKey jsonIndexMetaDiscriminator space []

@[simp] def encodeJsonIndexEntryKey (name : JsonIndexName) (encodedValue : Bytes) (id : JsonDocumentId) :
    Bytes :=
  encodeJsonIndexKey space jsonIndexEntryDiscriminator name (encodedValue ++ 0xff :: utf8Bytes id.text)

@[simp] def encodeJsonIndexEntryPrefix (name : JsonIndexName) : Bytes :=
  encodeJsonIndexKey space jsonIndexEntryDiscriminator name []

@[simp] def encodeJsonIndexEntrySpacePrefix : Bytes := encodeUserKey jsonIndexEntryDiscriminator space []

@[simp] def encodeVectorCollectionKey (collection : VectorCollectionName) : Bytes :=
  encodeUserKey vectorCollectionDiscriminator space (encodeLengthPrefixedText collection.text)

@[simp] def encodeVectorCollectionPrefix : Bytes := encodeUserKey vectorCollectionDiscriminator space []

@[simp] def encodeVectorKey (collection : VectorCollectionName) (key : VectorKey) : Bytes :=
  encodeUserKey vectorEntryDiscriminator space (encodeLengthPrefixedText collection.text ++ utf8Bytes key.text)

@[simp] def encodeVectorCollectionEntryPrefix (collection : VectorCollectionName) : Bytes :=
  encodeUserKey vectorEntryDiscriminator space (encodeLengthPrefixedText collection.text)

@[simp] def encodeVectorSpacePrefix : Bytes := encodeUserKey vectorEntryDiscriminator space []

@[simp] def encodeEventMetaSpacePrefix : Bytes := encodeUserKey eventMetaDiscriminator space []

@[simp] def encodeEventTypeIndexSpacePrefix : Bytes := encodeUserKey eventTypeIndexDiscriminator space []

@[simp] def encodeGraphMetadataPrefix : Bytes := encodeUserKey graphMetadataDiscriminator space []

@[simp] def encodeGraphOntologySpacePrefix : Bytes := encodeUserKey graphOntologyDiscriminator space []

@[simp] def encodeGraphTypeIndexSpacePrefix : Bytes := encodeUserKey graphTypeIndexDiscriminator space []

@[simp] def encodeGraphTypeIndexTypePrefix (graph : GraphName) (objectType : GraphTypeName) : Bytes :=
  encodeUserKey graphTypeIndexDiscriminator space
    (encodeLengthPrefixedText graph.text ++ encodeLengthPrefixedText objectType.text)

@[simp] def encodeGraphNodeSpacePrefix : Bytes := encodeUserKey graphNodeDiscriminator space []

@[simp] def encodeGraphEdgeSpacePrefix : Bytes := encodeUserKey graphEdgeDiscriminator space []

@[simp] def encodeGraphOutgoingEdgePrefix (graph : GraphName) (src : GraphNodeId) : Bytes :=
  encodeUserKey graphEdgeDiscriminator space
    (encodeLengthPrefixedText graph.text ++ encodeLengthPrefixedText src.text)

@[simp] def encodeGraphReverseEdgeSpacePrefix : Bytes :=
  encodeUserKey graphReverseEdgeDiscriminator space []

@[simp] def encodeGraphIncomingEdgePrefix (graph : GraphName) (dst : GraphNodeId) : Bytes :=
  encodeUserKey graphReverseEdgeDiscriminator space
    (encodeLengthPrefixedText graph.text ++ encodeLengthPrefixedText dst.text)

end Encoders

attribute [simp] encodeEventKey encodeEventSpacePrefix encodeEventMetaKey encodeEventTypeIndexKey
  encodeGraphMetadataKey encodeGraphOntologyKey encodeGraphNodeKey encodeGraphNodePrefix
  encodeGraphEdgeLikeKey encodeGraphEdgeKey encodeGraphEdgePrefix encodeGraphReverseEdgeKey
  encodeGraphReverseEdgePrefix encodeGraphBindingKey encodeGraphBindingSpacePrefix
  encodeGraphBindingTargetPrefix encodeGraphTypeIndexKey encodeGraphTypeIndexGraphPrefix
  encodeUserKey_append

/-! ## Decoders -/

/-- The code of a decoder's errors, and the row key their messages are about. -/
structure KeyErrors where
  code : String
  subject : String

namespace KeyErrors

variable (errors : KeyErrors)

def corruption (complaint : String) : EngineError :=
  .corruption errors.code (errors.subject ++ complaint)

/-- The suffix of a key of the space. -/
def suffix (space : ProductSpace) (encoded : Bytes) (discriminator : UInt8) : Except EngineError Bytes :=
  decodeUserKey space encoded discriminator (errors.corruption " is not valid for the selected product space")

/-- The text behind its length, and the bytes behind the text. -/
def text (bytes : Bytes) (complaint : String) : Except EngineError (String × Bytes) :=
  decodeLengthPrefixedText bytes errors.code (errors.subject ++ complaint)

/-- A name from its text. -/
def name {validate : String → Except EngineError Unit} (text : String) (complaint : String) :
    Except EngineError (ValidText validate) :=
  (ValidText.new text).mapError fun _ => errors.corruption complaint

/-- The check that nothing follows. -/
def finish (rest : Bytes) : Except EngineError Unit :=
  .require (rest = []) (errors.corruption " has trailing bytes")

end KeyErrors

section Decoders

variable (space : ProductSpace) (encoded : Bytes)

def decodeKvKey : Except EngineError KvKey := do
  let errors : KeyErrors := ⟨"data_loss.engine.kv_key", "stored KV row key"⟩
  KvKey.new (← errors.suffix space encoded kvDiscriminator)

def decodeJsonDocumentId : Except EngineError JsonDocumentId := do
  let errors : KeyErrors := ⟨"data_loss.engine.json_key", "stored JSON row key"⟩
  let idBytes ← errors.suffix space encoded jsonDiscriminator
  let id ← (fromUtf8 idBytes).okOr (errors.corruption " is not valid UTF-8")
  errors.name id " is not a valid document id"

def decodeJsonIndexName : Except EngineError JsonIndexName := do
  let errors : KeyErrors := ⟨"data_loss.engine.json_index_key", "stored JSON index metadata key"⟩
  let bytes ← errors.suffix space encoded jsonIndexMetaDiscriminator
  .require (2 ≤ bytes.length) (errors.corruption " is truncated")
  .require (bytes.length = 2 + ofBeBytes (bytes.take 2)) (errors.corruption " has trailing bytes")
  let name ← (fromUtf8 (bytes.drop 2)).okOr (errors.corruption " is not valid UTF-8")
  errors.name name " is not a valid index name"

def decodeVectorCollectionName : Except EngineError VectorCollectionName := do
  let errors : KeyErrors := ⟨"data_loss.engine.vector_collection_key", "stored vector collection row key"⟩
  let bytes ← errors.suffix space encoded vectorCollectionDiscriminator
  let (collection, rest) ← errors.text bytes " is truncated"
  errors.finish rest
  errors.name collection " contains an invalid collection name"

def decodeVectorKey : Except EngineError (VectorCollectionName × VectorKey) := do
  let errors : KeyErrors := ⟨"data_loss.engine.vector_key", "stored vector row key"⟩
  let bytes ← errors.suffix space encoded vectorEntryDiscriminator
  let (collection, rest) ← errors.text bytes " is missing a collection name"
  let key ← (fromUtf8 rest).okOr (errors.corruption " contains a non-UTF-8 vector key")
  let collection ← errors.name collection " contains an invalid collection name"
  let key ← errors.name key " contains an invalid vector key"
  .ok (collection, key)

/-- `decode_graph_metadata_key` and `decode_graph_ontology_key`. -/
def decodeGraphNameKey (errors : KeyErrors) (discriminator : UInt8) : Except EngineError GraphName := do
  let bytes ← errors.suffix space encoded discriminator
  let (graph, rest) ← errors.text bytes " is missing a graph name"
  errors.finish rest
  errors.name graph " contains an invalid graph name"

def decodeGraphMetadataKey : Except EngineError GraphName :=
  decodeGraphNameKey space encoded ⟨"data_loss.engine.graph_key", "stored graph metadata row key"⟩
    graphMetadataDiscriminator

def decodeGraphOntologyKey : Except EngineError GraphName :=
  decodeGraphNameKey space encoded ⟨"data_loss.engine.graph_key", "stored graph ontology row key"⟩
    graphOntologyDiscriminator

def decodeGraphTypeIndexKey : Except EngineError (GraphName × GraphTypeName × GraphNodeId) := do
  let errors : KeyErrors := ⟨"data_loss.engine.graph_type_index_key", "stored graph type index row key"⟩
  let bytes ← errors.suffix space encoded graphTypeIndexDiscriminator
  let (graph, rest) ← errors.text bytes " is missing a graph name"
  let (objectType, rest) ← errors.text rest " is missing an object type"
  let (nodeId, rest) ← errors.text rest " is missing a node id"
  errors.finish rest
  let graph ← errors.name graph " contains an invalid graph name"
  let objectType ← errors.name objectType " contains an invalid object type"
  let nodeId ← errors.name nodeId " contains an invalid node id"
  .ok (graph, objectType, nodeId)

def decodeGraphNodeKey : Except EngineError (GraphName × GraphNodeId) := do
  let errors : KeyErrors := ⟨"data_loss.engine.graph_node_key", "stored graph node row key"⟩
  let bytes ← errors.suffix space encoded graphNodeDiscriminator
  let (graph, rest) ← errors.text bytes " is missing a graph name"
  let (nodeId, rest) ← errors.text rest " is missing a node id"
  errors.finish rest
  let graph ← errors.name graph " contains an invalid graph name"
  let nodeId ← errors.name nodeId " contains an invalid node id"
  .ok (graph, nodeId)

/-- `decode_graph_edge_like_key`; the messages past the space check name no class. -/
def decodeGraphEdgeLikeKey (code subject : String) (discriminator : UInt8) :
    Except EngineError (GraphName × GraphNodeId × GraphEdgeType × GraphNodeId) := do
  let bytes ← KeyErrors.suffix ⟨code, subject⟩ space encoded discriminator
  let errors : KeyErrors := ⟨code, "stored graph edge row key"⟩
  let (graph, rest) ← errors.text bytes " is missing a graph"
  let (first, rest) ← errors.text rest " is missing a node id"
  let (edgeType, rest) ← errors.text rest " is missing an edge type"
  let (second, rest) ← errors.text rest " is missing a node id"
  errors.finish rest
  let errors : KeyErrors := ⟨code, "stored graph edge key"⟩
  let graph ← errors.name graph " contains an invalid graph name"
  let first ← errors.name first " contains an invalid node id"
  let edgeType ← errors.name edgeType " contains an invalid edge type"
  let second ← errors.name second " contains an invalid node id"
  .ok (graph, first, edgeType, second)

def decodeGraphEdgeKey : Except EngineError (GraphName × GraphNodeId × GraphEdgeType × GraphNodeId) :=
  decodeGraphEdgeLikeKey space encoded "data_loss.engine.graph_edge_key"
    "stored graph edge row key" graphEdgeDiscriminator

def decodeGraphReverseEdgeKey : Except EngineError (GraphName × GraphNodeId × GraphEdgeType × GraphNodeId) :=
  decodeGraphEdgeLikeKey space encoded "data_loss.engine.graph_reverse_edge_key"
    "stored graph reverse edge row key" graphReverseEdgeDiscriminator

/-- The errors of `decode_graph_binding_key`. -/
def graphBindingErrors : KeyErrors :=
  ⟨"data_loss.engine.graph_binding_key", "stored graph binding row key"⟩

/-- The primitive a text names. -/
def GraphBindingPrimitive.ofStr : String → Option GraphBindingPrimitive
  | "kv" => some .kv
  | "json" => some .json
  | "vector" => some .vector
  | "event" => some .event
  | "graph" => some .graph
  | _ => none

/-- The branch of a target from its text. -/
def targetBranchOfText (text : String) : Except EngineError (Option BranchName) :=
  if text = "" then .ok none
  else (graphBindingErrors.name text " contains an invalid branch").map some

def decodeGraphBindingTargetSuffix (bytes : Bytes) : Except EngineError (GraphBindingTarget × Bytes) := do
  let errors := graphBindingErrors
  let (primitive, rest) ← errors.text bytes " is missing primitive kind"
  let primitive ← (GraphBindingPrimitive.ofStr primitive).okOr
    (errors.corruption " contains an unknown primitive kind")
  let (branch, rest) ← errors.text rest " is missing branch"
  let branch ← targetBranchOfText branch
  let (space, rest) ← errors.text rest " is missing bound space"
  let space ← (ProductSpace.new space).mapError fun _ => errors.corruption " contains an invalid bound space"
  let (key, rest) ← errors.text rest " is missing bound key"
  let key ← errors.name key " contains an invalid target"
  .ok (⟨primitive, branch, space, key⟩, rest)

def decodeGraphBindingKey : Except EngineError (GraphBindingTarget × GraphName × GraphNodeId) := do
  let errors := graphBindingErrors
  let bytes ← errors.suffix space encoded graphBindingIndexDiscriminator
  let (target, rest) ← decodeGraphBindingTargetSuffix bytes
  let (graph, rest) ← errors.text rest " is missing a graph name"
  let (nodeId, rest) ← errors.text rest " is missing a node id"
  errors.finish rest
  let graph ← errors.name graph " contains an invalid graph name"
  let nodeId ← errors.name nodeId " contains an invalid node id"
  .ok (target, graph, nodeId)

end Decoders

/-! ## What the decoders accept -/

/-- A decoder that returns the components of the keys of its class, and accepts
nothing else. -/
def Inverts {α : Type} (decode : ProductSpace → Bytes → Except EngineError α)
    (encode : ProductSpace → α → Bytes) : Prop :=
  ∀ space encoded a, decode space encoded = .ok a ↔ encoded = encode space a

section Inverts

variable {errors : KeyErrors} {space : ProductSpace} {encoded s rest : Bytes} {d : UInt8}
  {text complaint : String} {validate : String → Except EngineError Unit}

@[simp] theorem KeyErrors.suffix_eq_ok :
    errors.suffix space encoded d = .ok s ↔ encoded = encodeUserKey d space s ∧ s ≠ [] :=
  decodeUserKey_eq_ok

@[simp] theorem KeyErrors.text_eq_ok : errors.text s complaint = .ok (text, rest) ↔
    s = encodeLengthPrefixedText text ++ rest ∧ (utf8Bytes text).length < 65536 :=
  decodeLengthPrefixedText_eq_ok

@[simp] theorem KeyErrors.name_eq_ok {a : ValidText validate} :
    errors.name text complaint = .ok a ↔ a.text = text := by
  rw [name, mapError_eq_ok, ValidText.new_eq_ok]

@[simp] theorem KeyErrors.finish_eq_ok {u : Unit} : errors.finish rest = .ok u ↔ rest = [] :=
  require_eq_ok

@[simp] theorem encodeLengthPrefixedText_ne_nil : encodeLengthPrefixedText text ≠ [] := by
  simp [encodeLengthPrefixedText, ← length_pos_iff]

theorem GraphBindingPrimitive.ofStr_eq_some {primitive : GraphBindingPrimitive} :
    ofStr text = some primitive ↔ text = primitive.asStr := by
  constructor
  · unfold ofStr
    split <;> rintro ⟨⟩ <;> rfl
  · rintro rfl
    cases primitive <;> rfl

theorem targetBranchOfText_eq_ok {branch : Option BranchName} :
    targetBranchOfText text = .ok branch ↔ text = targetBranchText branch := by
  unfold targetBranchOfText
  cases branch with
  | none => split <;> simp_all [targetBranchText]
  | some branch =>
    rw [targetBranchText, @eq_comm _ text branch.text]
    split_ifs with h
    · simp [h, branch.text_ne_empty]
    · simp

theorem ProductSpace.new_eq_ok {a : ProductSpace} : new text = .ok a ↔ a.text = text := ValidText.new_eq_ok

theorem decodeGraphBindingTargetSuffix_eq_ok {target : GraphBindingTarget} :
    decodeGraphBindingTargetSuffix s = .ok (target, rest) ↔ s = encodeGraphBindingTargetSuffix target rest := by
  obtain ⟨primitive, branch, space, key⟩ := target
  simp [decodeGraphBindingTargetSuffix, GraphBindingPrimitive.ofStr_eq_some,
    targetBranchOfText_eq_ok, ProductSpace.new_eq_ok, encodeGraphBindingTargetSuffix]

theorem decodeJsonIndexName_inverts : Inverts decodeJsonIndexName encodeJsonIndexMetaKey := by
  intro space encoded name
  have hfield (bytes : Bytes) : _ ↔ bytes = _ ++ (utf8Bytes name.text ++ []) ∧ _ := lengthPrefixed_iff
  simp only [ValidText.length_lt, and_true, append_nil] at hfield
  simp only [decodeJsonIndexName, encodeJsonIndexMetaKey, encodeJsonIndexKey, encodeUserKey_append,
    nil_append, append_nil, encodeLengthPrefixedText, bind_eq_ok, KeyErrors.suffix_eq_ok,
    require_eq_ok, Option.okOr_eq_ok, fromUtf8_eq_some, KeyErrors.name_eq_ok]
  constructor
  · rintro ⟨bytes, ⟨rfl, -⟩, -, h2, -, hlen, _, htext, rfl⟩
    rw [← (hfield bytes).mp ⟨h2, hlen.ge, by
      rw [htext, take_of_length_le (by rw [length_drop]; omega)], by rw [← hlen, drop_length]⟩]
  · rintro rfl
    exact ⟨_, ⟨rfl, by simp [← length_pos_iff]⟩, (), by simp, (),
      by rw [take_left' (by simp), ofBeBytes_beBytes name.length_lt]; simp, name.text,
      by rw [drop_left' (by simp)], rfl⟩

/-- Every decoder inverts the encoder of its class. -/
structure DecodersInvert : Prop where
  kv : Inverts decodeKvKey encodeKvKey
  json : Inverts decodeJsonDocumentId encodeJsonKey
  jsonIndex : Inverts decodeJsonIndexName encodeJsonIndexMetaKey
  vectorCollection : Inverts decodeVectorCollectionName encodeVectorCollectionKey
  vector : Inverts decodeVectorKey fun space (collection, key) => encodeVectorKey space collection key
  event : Inverts decodeEventKeySequence encodeEventKey
  graphMetadata : Inverts decodeGraphMetadataKey encodeGraphMetadataKey
  graphOntology : Inverts decodeGraphOntologyKey encodeGraphOntologyKey
  graphTypeIndex : Inverts decodeGraphTypeIndexKey fun space (graph, objectType, nodeId) =>
    encodeGraphTypeIndexKey space graph objectType nodeId
  graphNode : Inverts decodeGraphNodeKey fun space (graph, nodeId) => encodeGraphNodeKey space graph nodeId
  graphEdge : Inverts decodeGraphEdgeKey fun space (graph, src, edgeType, dst) =>
    encodeGraphEdgeKey space graph src edgeType dst
  graphReverseEdge : Inverts decodeGraphReverseEdgeKey fun space (graph, dst, edgeType, src) =>
    encodeGraphReverseEdgeKey space graph dst edgeType src
  graphBinding : Inverts decodeGraphBindingKey fun space (target, graph, nodeId) =>
    encodeGraphBindingKey space target graph nodeId

theorem decodersInvert : DecodersInvert where
  kv space encoded key := by simp [decodeKvKey, KvKey.new_eq_ok, key.nonempty]
  json space encoded id := by simp [decodeJsonDocumentId, fromUtf8_eq_some, id.utf8Bytes_ne_nil]
  jsonIndex := decodeJsonIndexName_inverts
  vectorCollection space encoded collection := by simp [decodeVectorCollectionName]
  vector := by
    rintro space encoded ⟨collection, key⟩
    simp [decodeVectorKey, fromUtf8_eq_some]
  event _ _ _ := decodeEventKeySequence_eq_ok
  graphMetadata space encoded graph := by simp [decodeGraphMetadataKey, decodeGraphNameKey]
  graphOntology space encoded graph := by simp [decodeGraphOntologyKey, decodeGraphNameKey]
  graphTypeIndex := by
    rintro space encoded ⟨graph, objectType, nodeId⟩
    simp [decodeGraphTypeIndexKey]
  graphNode := by
    rintro space encoded ⟨graph, nodeId⟩
    simp [decodeGraphNodeKey]
  graphEdge := by
    rintro space encoded ⟨graph, src, edgeType, dst⟩
    simp [decodeGraphEdgeKey, decodeGraphEdgeLikeKey]
  graphReverseEdge := by
    rintro space encoded ⟨graph, dst, edgeType, src⟩
    simp [decodeGraphReverseEdgeKey, decodeGraphEdgeLikeKey]
  graphBinding := by
    rintro space encoded ⟨target, graph, nodeId⟩
    simp [decodeGraphBindingKey, decodeGraphBindingTargetSuffix_eq_ok, encodeGraphBindingTargetSuffix]

end Inverts

/-! ## What a key determines -/

/-- The key of a row, by its class and its components. -/
inductive EngineKey where
  | kv (space : ProductSpace) (key : KvKey)
  | json (space : ProductSpace) (id : JsonDocumentId)
  | jsonIndexMeta (space : ProductSpace) (name : JsonIndexName)
  | jsonIndexEntry (space : ProductSpace) (name : JsonIndexName) (encodedValue : Bytes) (id : JsonDocumentId)
  | vectorCollection (space : ProductSpace) (collection : VectorCollectionName)
  | vector (space : ProductSpace) (collection : VectorCollectionName) (key : VectorKey)
  | event (space : ProductSpace) (sequence : UInt64)
  | eventMetadata (space : ProductSpace)
  | eventIndex (space : ProductSpace) (eventType : EventType) (sequence : UInt64)
  | graphMetadata (space : ProductSpace) (graph : GraphName)
  | graphOntology (space : ProductSpace) (graph : GraphName)
  | graphNode (space : ProductSpace) (graph : GraphName) (nodeId : GraphNodeId)
  | graphEdge (space : ProductSpace) (graph : GraphName) (src : GraphNodeId)
      (edgeType : GraphEdgeType) (dst : GraphNodeId)
  | graphReverseEdge (space : ProductSpace) (graph : GraphName) (dst : GraphNodeId)
      (edgeType : GraphEdgeType) (src : GraphNodeId)
  | graphBinding (space : ProductSpace) (target : GraphBindingTarget) (graph : GraphName) (nodeId : GraphNodeId)
  | graphTypeIndex (space : ProductSpace) (graph : GraphName) (objectType : GraphTypeName) (nodeId : GraphNodeId)

namespace EngineKey

def space : EngineKey → ProductSpace
  | kv space _ | json space _ | jsonIndexMeta space _ | jsonIndexEntry space _ _ _
  | vectorCollection space _ | vector space _ _ | event space _ | eventMetadata space
  | eventIndex space _ _ | graphMetadata space _ | graphOntology space _ | graphNode space _ _
  | graphEdge space _ _ _ _ | graphReverseEdge space _ _ _ _ | graphBinding space _ _ _
  | graphTypeIndex space _ _ _ => space

def rowClass : EngineKey → RowClass
  | kv .. => .kv
  | json .. => .json
  | jsonIndexMeta .. | jsonIndexEntry .. => .jsonIndex
  | vectorCollection .. => .vectorCollection
  | vector .. => .vector
  | event .. => .event
  | eventMetadata .. => .eventMetadata
  | eventIndex .. => .eventIndex
  | graphMetadata .. => .graphMetadata
  | graphOntology .. => .graphOntology
  | graphNode .. => .graphNode
  | graphEdge .. => .graphEdge
  | graphReverseEdge .. => .graphReverseEdge
  | graphBinding .. => .graphBindingIndex
  | graphTypeIndex .. => .graphTypeIndex

def bytes : EngineKey → Bytes
  | kv space key => encodeKvKey space key
  | json space id => encodeJsonKey space id
  | jsonIndexMeta space name => encodeJsonIndexMetaKey space name
  | jsonIndexEntry space name value id => encodeJsonIndexEntryKey space name value id
  | vectorCollection space collection => encodeVectorCollectionKey space collection
  | vector space collection key => encodeVectorKey space collection key
  | event space sequence => encodeEventKey space sequence
  | eventMetadata space => encodeEventMetaKey space
  | eventIndex space eventType sequence => encodeEventTypeIndexKey space eventType sequence
  | graphMetadata space graph => encodeGraphMetadataKey space graph
  | graphOntology space graph => encodeGraphOntologyKey space graph
  | graphNode space graph nodeId => encodeGraphNodeKey space graph nodeId
  | graphEdge space graph src edgeType dst => encodeGraphEdgeKey space graph src edgeType dst
  | graphReverseEdge space graph dst edgeType src =>
    encodeGraphReverseEdgeKey space graph dst edgeType src
  | graphBinding space target graph nodeId => encodeGraphBindingKey space target graph nodeId
  | graphTypeIndex space graph objectType nodeId =>
    encodeGraphTypeIndexKey space graph objectType nodeId

end EngineKey

/-- A text has no byte `0xff`. -/
theorem ff_notMem_utf8Bytes (text : String) : 0xff ∉ utf8Bytes text := by
  rw [utf8Bytes, String.toUTF8, ← String.utf8Encode_toList, List.utf8Encode]
  simp only [toList_data_toByteArray, mem_flatMap, not_exists, not_and]
  intro c _
  rw [String.utf8EncodeChar]
  generalize c.val.toNat = v
  split_ifs <;> simp [← UInt8.toNat_inj] <;> omega

/-- The last byte `0xff` of an index entry ends its value. -/
theorem entry_inj {value value' : Bytes} {id id' : JsonDocumentId} :
    value ++ 0xff :: utf8Bytes id.text = value' ++ 0xff :: utf8Bytes id'.text ↔ value = value' ∧ id = id' := by
  have hid := ff_notMem_utf8Bytes id.text
  have hid' := ff_notMem_utf8Bytes id'.text
  constructor
  · intro h
    rcases append_eq_append_iff.mp h with ⟨l, rfl, hl⟩ | ⟨l, rfl, hl⟩
    all_goals
      cases l with
      | nil => exact ⟨by simp, ValidText.ext (utf8Bytes_injective (by simpa [eq_comm] using hl))⟩
      | cons first l =>
        rw [cons_append, cons.injEq] at hl
        simp [hl.2] at hid hid'
  · rintro ⟨rfl, rfl⟩
    rfl

theorem KvKey.bytes_inj {a b : KvKey} : a.bytes = b.bytes ↔ a = b := by
  cases a
  cases b
  rw [mk.injEq]

theorem EngineKey.bytes_injective {a b : EngineKey} (hclass : a.rowClass = b.rowClass)
    (hbytes : a.bytes = b.bytes) : a = b := by
  cases a <;> cases b <;> cases hclass
  all_goals simp_all [bytes, encodeUserKey_inj, encodeName_append_inj, encodeName_inj,
    encodeGraphBindingTargetSuffix_inj, EventKey.beBytes_sequence_inj, ValidText.utf8Bytes_inj, KvKey.bytes_inj, entry_inj,
    jsonIndexMetaDiscriminator, jsonIndexEntryDiscriminator]

/-! ## What a scan bound selects -/

/-- A scan bound in front of the keys of its class that are `P`, and of no others. -/
def Selects (rowClass : RowClass) (bound : Bytes) (P : EngineKey → Prop) : Prop :=
  ∀ key : EngineKey, key.rowClass = rowClass → (bound <+: key.bytes ↔ P key)

/-- The scan bounds of a space. -/
structure BoundsSelect (space : ProductSpace) : Prop where
  kv : Selects .kv (encodeKvSpacePrefix space) (·.space = space)
  json : Selects .json (encodeJsonSpacePrefix space) (·.space = space)
  jsonIndexMeta : Selects .jsonIndex (encodeJsonIndexMetaPrefix space) (∃ name, · = .jsonIndexMeta space name)
  jsonIndexEntries : Selects .jsonIndex (encodeJsonIndexEntrySpacePrefix space)
    (∃ name value id, · = .jsonIndexEntry space name value id)
  jsonIndexEntry : ∀ name, Selects .jsonIndex (encodeJsonIndexEntryPrefix space name)
    (∃ value id, · = .jsonIndexEntry space name value id)
  vectorCollection : Selects .vectorCollection (encodeVectorCollectionPrefix space) (·.space = space)
  vector : Selects .vector (encodeVectorSpacePrefix space) (·.space = space)
  vectorEntry : ∀ collection, Selects .vector (encodeVectorCollectionEntryPrefix space collection)
    (∃ key, · = .vector space collection key)
  event : Selects .event (encodeEventSpacePrefix space) (·.space = space)
  eventMetadata : Selects .eventMetadata (encodeEventMetaSpacePrefix space) (·.space = space)
  eventIndex : Selects .eventIndex (encodeEventTypeIndexSpacePrefix space) (·.space = space)
  graphMetadata : Selects .graphMetadata (encodeGraphMetadataPrefix space) (·.space = space)
  graphOntology : Selects .graphOntology (encodeGraphOntologySpacePrefix space) (·.space = space)
  graphNodes : Selects .graphNode (encodeGraphNodeSpacePrefix space) (·.space = space)
  graphNode : ∀ graph, Selects .graphNode (encodeGraphNodePrefix space graph)
    (∃ nodeId, · = .graphNode space graph nodeId)
  graphEdges : Selects .graphEdge (encodeGraphEdgeSpacePrefix space) (·.space = space)
  graphEdge : ∀ graph, Selects .graphEdge (encodeGraphEdgePrefix space graph)
    (∃ src edgeType dst, · = .graphEdge space graph src edgeType dst)
  graphOutgoing : ∀ graph src, Selects .graphEdge (encodeGraphOutgoingEdgePrefix space graph src)
    (∃ edgeType dst, · = .graphEdge space graph src edgeType dst)
  graphReverseEdges : Selects .graphReverseEdge (encodeGraphReverseEdgeSpacePrefix space) (·.space = space)
  graphReverseEdge : ∀ graph, Selects .graphReverseEdge (encodeGraphReverseEdgePrefix space graph)
    (∃ dst edgeType src, · = .graphReverseEdge space graph dst edgeType src)
  graphIncoming : ∀ graph dst, Selects .graphReverseEdge (encodeGraphIncomingEdgePrefix space graph dst)
      (∃ edgeType src, · = .graphReverseEdge space graph dst edgeType src)
  graphBindings : Selects .graphBindingIndex (encodeGraphBindingSpacePrefix space) (·.space = space)
  graphBinding : ∀ target, Selects .graphBindingIndex (encodeGraphBindingTargetPrefix space target)
    (∃ graph nodeId, · = .graphBinding space target graph nodeId)
  graphTypeIndexes : Selects .graphTypeIndex (encodeGraphTypeIndexSpacePrefix space) (·.space = space)
  graphTypeIndex : ∀ graph, Selects .graphTypeIndex (encodeGraphTypeIndexGraphPrefix space graph)
    (∃ objectType nodeId, · = .graphTypeIndex space graph objectType nodeId)
  graphType : ∀ graph objectType, Selects .graphTypeIndex (encodeGraphTypeIndexTypePrefix space graph objectType)
      (∃ nodeId, · = .graphTypeIndex space graph objectType nodeId)

theorem boundsSelect (space : ProductSpace) : BoundsSelect space := by
  constructor
  all_goals
    intros
    intro key hclass
    cases key <;> cases hclass
    all_goals simp [EngineKey.bytes, EngineKey.space, encodeUserKey_prefix_iff, encodeName_append_prefix_iff,
      encodeName_prefix_iff, encodeGraphBindingTargetSuffix_prefix_iff, jsonIndexMetaDiscriminator,
      jsonIndexEntryDiscriminator]

/-- The row keys: within a class a key determines its space and its components, every
decoder returns just these and accepts no other bytes, and a scan bound is in front
of the keys that have the components it names. -/
theorem rowKeys_exact : (∀ a b : EngineKey, a.rowClass = b.rowClass → a.bytes = b.bytes → a = b) ∧
      DecodersInvert ∧ ∀ space, BoundsSelect space :=
  ⟨fun _ _ => EngineKey.bytes_injective, decodersInvert, boundsSelect⟩

end Strata.Engine
