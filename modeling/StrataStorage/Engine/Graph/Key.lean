import StrataStorage.Engine.Graph.Types

/-!
# Graph row keys

The keys of the seven graph row classes (`persistence/key.rs`): metadata,
ontology, nodes, edges under their source and again under their destination, and
the two derived indexes, by binding target and by object type. Every name of a
key stands behind its length.
-/

namespace Strata.Engine

/-! ## Encoders -/

/-- `GRAPH_METADATA_DISCRIMINATOR`, `b'g'`. -/
def graphMetadataDiscriminator : UInt8 := 0x67

/-- `GRAPH_NODE_DISCRIMINATOR`, `b'n'`. -/
def graphNodeDiscriminator : UInt8 := 0x6e

/-- `GRAPH_EDGE_DISCRIMINATOR`, `b'o'`. -/
def graphEdgeDiscriminator : UInt8 := 0x6f

/-- `GRAPH_REVERSE_EDGE_DISCRIMINATOR`, `b'r'`. -/
def graphReverseEdgeDiscriminator : UInt8 := 0x72

/-- `GRAPH_BINDING_INDEX_DISCRIMINATOR`, `b'b'`. -/
def graphBindingIndexDiscriminator : UInt8 := 0x62

/-- `GRAPH_ONTOLOGY_DISCRIMINATOR`, `b'y'`. -/
def graphOntologyDiscriminator : UInt8 := 0x79

/-- `GRAPH_TYPE_INDEX_DISCRIMINATOR`, `b'T'`. -/
def graphTypeIndexDiscriminator : UInt8 := 0x54

def encodeGraphEdgeLikeKey (discriminator : UInt8) (space : ProductSpace) (graph : GraphName)
    (first : GraphNodeId) (edgeType : GraphEdgeType) (second : GraphNodeId) : Bytes :=
  encodeUserKey discriminator space (encodeLengthPrefixedText graph.text ++ (encodeLengthPrefixedText first.text ++
      (encodeLengthPrefixedText edgeType.text ++ encodeLengthPrefixedText second.text)))

section

variable (space : ProductSpace) (graph : GraphName)

def encodeGraphMetadataKey : Bytes :=
  encodeUserKey graphMetadataDiscriminator space (encodeLengthPrefixedText graph.text)

def encodeGraphOntologyKey : Bytes :=
  encodeUserKey graphOntologyDiscriminator space (encodeLengthPrefixedText graph.text)

def encodeGraphTypeIndexKey (objectType : GraphTypeName) (nodeId : GraphNodeId) : Bytes :=
  encodeUserKey graphTypeIndexDiscriminator space (encodeLengthPrefixedText graph.text ++
    (encodeLengthPrefixedText objectType.text ++ encodeLengthPrefixedText nodeId.text))

def encodeGraphTypeIndexGraphPrefix : Bytes :=
  encodeUserKey graphTypeIndexDiscriminator space (encodeLengthPrefixedText graph.text)

def encodeGraphNodeKey (nodeId : GraphNodeId) : Bytes :=
  encodeUserKey graphNodeDiscriminator space
    (encodeLengthPrefixedText graph.text ++ encodeLengthPrefixedText nodeId.text)

def encodeGraphNodePrefix : Bytes :=
  encodeUserKey graphNodeDiscriminator space (encodeLengthPrefixedText graph.text)

def encodeGraphEdgeKey (src : GraphNodeId) (edgeType : GraphEdgeType) (dst : GraphNodeId) : Bytes :=
  encodeGraphEdgeLikeKey graphEdgeDiscriminator space graph src edgeType dst

def encodeGraphEdgePrefix : Bytes :=
  encodeUserKey graphEdgeDiscriminator space (encodeLengthPrefixedText graph.text)

def encodeGraphReverseEdgeKey (dst : GraphNodeId) (edgeType : GraphEdgeType) (src : GraphNodeId) : Bytes :=
  encodeGraphEdgeLikeKey graphReverseEdgeDiscriminator space graph dst edgeType src

def encodeGraphReverseEdgePrefix : Bytes :=
  encodeUserKey graphReverseEdgeDiscriminator space (encodeLengthPrefixedText graph.text)

end

/-- The branch of a target in its key; `""` stands for the node's own branch. -/
def targetBranchText : Option BranchName → String
  | none => ""
  | some branch => branch.text

def encodeGraphBindingTargetSuffix (target : GraphBindingTarget) (rest : Bytes) : Bytes :=
  encodeLengthPrefixedText target.primitive.asStr ++
    (encodeLengthPrefixedText (targetBranchText target.branch) ++ (encodeLengthPrefixedText target.space.text ++
        (encodeLengthPrefixedText target.key.text ++ rest)))

def encodeGraphBindingSpacePrefix (space : ProductSpace) : Bytes :=
  encodeUserKey graphBindingIndexDiscriminator space []

def encodeGraphBindingTargetPrefix (space : ProductSpace) (target : GraphBindingTarget) : Bytes :=
  encodeUserKey graphBindingIndexDiscriminator space (encodeGraphBindingTargetSuffix target [])

def encodeGraphBindingKey (space : ProductSpace) (target : GraphBindingTarget) (graph : GraphName)
    (nodeId : GraphNodeId) : Bytes :=
  encodeUserKey graphBindingIndexDiscriminator space (encodeGraphBindingTargetSuffix target
    (encodeLengthPrefixedText graph.text ++ encodeLengthPrefixedText nodeId.text))

/-! ## Codes -/

section Codes

variable {s t : Bytes} {target target' : GraphBindingTarget}

theorem GraphBindingPrimitive.asStr_injective : Function.Injective asStr := by
  intro a b h
  cases a <;> cases b <;> first | rfl | (revert h; decide)

@[simp] theorem GraphBindingPrimitive.length_asStr (primitive : GraphBindingPrimitive) :
    (utf8Bytes primitive.asStr).length < 65536 := by
  cases primitive <;> decide

theorem targetBranchText_injective : Function.Injective targetBranchText := by
  intro a b h
  cases a with
  | none =>
    cases b with
    | none => rfl
    | some b => exact absurd h.symm b.text_ne_empty
  | some a =>
    cases b with
    | none => exact absurd h a.text_ne_empty
    | some b => exact congrArg some (ValidText.ext h)

@[simp] theorem length_targetBranchText (branch : Option BranchName) :
    (utf8Bytes (targetBranchText branch)).length < 65536 := by
  cases branch with
  | none => decide
  | some branch => exact branch.length_lt

theorem encodeGraphBindingTargetSuffix_inj :
    encodeGraphBindingTargetSuffix target s = encodeGraphBindingTargetSuffix target' t ↔
      target = target' ∧ s = t := by
  simp only [encodeGraphBindingTargetSuffix, encodeLengthPrefixedText_append_inj
    (GraphBindingPrimitive.length_asStr _) (GraphBindingPrimitive.length_asStr _),
    encodeLengthPrefixedText_append_inj (length_targetBranchText _) (length_targetBranchText _),
    encodeName_append_inj]
  refine ⟨fun ⟨hp, hb, hs, hk, hst⟩ => ⟨?_, hst⟩, ?_⟩
  · cases target
    cases target'
    cases GraphBindingPrimitive.asStr_injective hp
    cases targetBranchText_injective hb
    cases hs
    cases hk
    rfl
  · rintro ⟨rfl, rfl⟩
    exact ⟨rfl, rfl, rfl, rfl, rfl⟩

theorem encodeGraphBindingTargetSuffix_prefix_iff :
    encodeGraphBindingTargetSuffix target s <+: encodeGraphBindingTargetSuffix target' t ↔
      target' = target ∧ s <+: t :=
  prefix_iff_of_inj (fun _ _ _ => by simp [encodeGraphBindingTargetSuffix])
    fun _ _ _ _ => encodeGraphBindingTargetSuffix_inj

end Codes

end Strata.Engine
