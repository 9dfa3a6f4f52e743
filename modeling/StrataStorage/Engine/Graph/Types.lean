import StrataStorage.Engine.Key
import StrataStorage.Lib.Decimal

/-!
# Graph names and binding targets

The input types of the graph capability (`data/graph/types.rs`) that its row keys
hold. A name is a text that passed its checks; the kinds of names differ in their
bounds and in what they reserve. A binding target may name a branch
(`branch/name.rs`).
-/

namespace Strata.Engine

open Except

/-! ## Names -/

def isControl (c : Char) : Bool := c.toNat ≤ 0x1f || (0x7f ≤ c.toNat && c.toNat ≤ 0x9f)

def validateTextComponent (maxBytes : Nat) (code label value : String) : Except EngineError Unit := do
  .require (¬(value.toList.all isWhitespace = true)) (.invalidInput code (label ++ " must not be empty"))
  .require ((utf8Bytes value).length ≤ maxBytes) (.invalidInput code (label ++ " exceeds the maximum length"))
  .require (¬(value.toList.any isControl = true))
    (.invalidInput code (label ++ " contains an unsupported control byte"))

theorem validateTextComponent_length {maxBytes : Nat} {code label value : String}
    (h : validateTextComponent maxBytes code label value = .ok ()) :
    (utf8Bytes value).length ≤ maxBytes := by
  simp only [validateTextComponent, check_bind_eq_ok, require_eq_ok] at h
  exact h.2.1

/-- The check that a name does not begin as the engine's own names do. -/
def requireUnreserved (code label value : String) : Except EngineError Unit :=
  .require (value.toList.head? ≠ some '_') (.invalidInput code (label ++ " is reserved for engine internals"))

def maxGraphNameBytes : Nat := 256

def maxNodeIdBytes : Nat := 1024

def maxEdgeTypeBytes : Nat := 256

def maxBindingKeyBytes : Nat := 1024

def maxTypeNameBytes : Nat := 256

def maxBranchNameBytes : Nat := 255

/-- `GraphName::new`. -/
def validateGraphName (name : String) : Except EngineError Unit := do
  validateTextComponent maxGraphNameBytes "invalid_argument.engine.graph_name" "graph name" name
  requireUnreserved "invalid_argument.engine.graph_name_reserved" "graph name" name
  .require ('/' ∉ name.toList)
    (.invalidInput "invalid_argument.engine.graph_name" "graph name must not contain `/`")

/-- `GraphNodeId::new`. -/
def validateGraphNodeId (nodeId : String) : Except EngineError Unit :=
  validateTextComponent maxNodeIdBytes "invalid_argument.engine.graph_node_id" "graph node id" nodeId

/-- `GraphEdgeType::new`. -/
def validateGraphEdgeType (edgeType : String) : Except EngineError Unit := do
  validateTextComponent maxEdgeTypeBytes "invalid_argument.engine.graph_edge_type" "graph edge type" edgeType
  requireUnreserved "invalid_argument.engine.graph_edge_type_reserved" "graph edge type" edgeType

/-- `GraphTypeName::new`. -/
def validateGraphTypeName (name : String) : Except EngineError Unit := do
  validateTextComponent maxTypeNameBytes "invalid_argument.engine.graph_type_name" "graph type name" name
  requireUnreserved "invalid_argument.engine.graph_type_name_reserved" "graph type name" name

/-- The key check of `GraphBindingTarget::new`. -/
def validateGraphBindingKey (key : String) : Except EngineError Unit :=
  validateTextComponent maxBindingKeyBytes "invalid_argument.engine.graph_binding" "graph binding key" key

def parseHex : Bytes → Option Bytes
  | [] => some []
  | [_] => none
  | high :: low :: digits => do
    let byte := 16 * (← hexValue high) + (← hexValue low)
    (parseHex digits).map (.ofNat byte :: ·)

def parseHyphenated (text : Bytes) : Option Bytes :=
  if [8, 13, 18, 23].all (text[·]? = some 0x2D) then
    parseHex (text.take 8 ++ (text.drop 9).take 4 ++ (text.drop 14).take 4 ++ (text.drop 19).take 4 ++ text.drop 24)
  else none

/-- `Uuid::parse_str`: 32 digits, or with hyphens between them, in braces or behind
`urn:uuid:`. -/
def parseUuid (text : Bytes) : Option Bytes :=
  if text.length = 32 then parseHex text
  else if text.length = 36 then parseHyphenated text
  else if text.length = 38 ∧ text.head? = some 0x7B ∧ text.getLast? = some 0x7D then
    parseHyphenated (text.drop 1).dropLast
  else if text.length = 45 ∧ text.take 9 = utf8Bytes "urn:uuid:" then parseHyphenated (text.drop 9)
  else none

/-- The identities of the default branch, of its rows in storage and of the system branch. -/
def reservedBranchIds : List Bytes := [0x00, 0x01, 0xf0].map (List.replicate 16)

/-- The identity of a name that is no UUID is one of version 5, as none of the
reserved ones is. -/
def aliasesReservedBranchIdentity (name : String) : Bool :=
  name ≠ "default" ∧ ∃ id ∈ parseUuid (utf8Bytes name), id ∈ reservedBranchIds

def validateBranchName (name : String) : Except EngineError Unit := do
  .require (name ≠ "") (.invalidInput "invalid_argument.engine.branch_name" "branch name must not be empty")
  .require (¬(name.toList.all isWhitespace = true))
    (.invalidInput "invalid_argument.engine.branch_name" "branch name must not be whitespace-only")
  .require (¬(name = "_system_" ∨ name.toList.head? = some '_'))
    (.invalidInput "invalid_argument.engine.branch_name_reserved"
      "branch name is reserved for engine control data")
  .require ((utf8Bytes name).length ≤ maxBranchNameBytes)
    (.invalidInput "invalid_argument.engine.branch_name" "branch name is too long")
  .require (¬(name.toList.any isControl = true)) (.invalidInput "invalid_argument.engine.branch_name"
      "branch name contains an unsupported control byte")
  .require (¬(aliasesReservedBranchIdentity name = true)) (.invalidInput "invalid_argument.engine.branch_name"
      "branch name aliases a reserved branch identity")

example : ["00000000-0000-0000-0000-000000000000", "01010101-0101-0101-0101-010101010101",
    "f0f0f0f0-f0f0-f0f0-f0f0-f0f0f0f0f0f0"].all fun name => (validateBranchName name).isOk = false := by
  decide +kernel

abbrev GraphName := ValidText validateGraphName

abbrev GraphNodeId := ValidText validateGraphNodeId

abbrev GraphEdgeType := ValidText validateGraphEdgeType

abbrev GraphTypeName := ValidText validateGraphTypeName

/-- The key of a binding target. -/
abbrev GraphBindingKey := ValidText validateGraphBindingKey

abbrev BranchName := ValidText validateBranchName

instance : ShortText validateGraphName := ⟨fun _ h => by
  simp only [validateGraphName, check_bind_eq_ok] at h
  exact lt_of_le_of_lt (validateTextComponent_length h.1) (by decide)⟩

instance : ShortText validateGraphNodeId := ⟨fun _ h =>
  lt_of_le_of_lt (validateTextComponent_length h) (by decide)⟩

instance : ShortText validateGraphEdgeType := ⟨fun _ h => by
  simp only [validateGraphEdgeType, check_bind_eq_ok] at h
  exact lt_of_le_of_lt (validateTextComponent_length h.1) (by decide)⟩

instance : ShortText validateGraphTypeName := ⟨fun _ h => by
  simp only [validateGraphTypeName, check_bind_eq_ok] at h
  exact lt_of_le_of_lt (validateTextComponent_length h.1) (by decide)⟩

instance : ShortText validateGraphBindingKey := ⟨fun _ h =>
  lt_of_le_of_lt (validateTextComponent_length h) (by decide)⟩

instance : ShortText validateBranchName := ⟨fun _ h => by
  simp only [validateBranchName, check_bind_eq_ok, require_eq_ok] at h
  exact lt_of_le_of_lt h.2.2.2.1 (by decide)⟩

theorem BranchName.text_ne_empty (name : BranchName) : name.text ≠ "" := by
  have h := name.valid
  simp only [validateBranchName, check_bind_eq_ok, require_eq_ok] at h
  exact h.1

/-! ## Bindings -/

inductive GraphBindingPrimitive where
  | kv
  | json
  | vector
  | event
  | graph
  deriving DecidableEq, Repr

def GraphBindingPrimitive.asStr : GraphBindingPrimitive → String
  | .kv => "kv"
  | .json => "json"
  | .vector => "vector"
  | .event => "event"
  | .graph => "graph"

structure GraphBindingTarget where
  primitive : GraphBindingPrimitive
  branch : Option BranchName
  space : ProductSpace
  key : GraphBindingKey
  deriving DecidableEq

end Strata.Engine
