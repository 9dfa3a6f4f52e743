import StrataStorage.Row

/-!
# JSON values and their text

Several capabilities store JSON text written and read by `serde_json`. That
library is not part of the repository: a `JsonFormat` stands for its printer and
its reader, and `JsonFormat.Documented` for what it documents of them. The text of
a well formed document is read back, with two exceptions: the reader gives up at
the recursion limit of 128 nested arrays and objects, and a float is read with the
default, best-effort precision, which need not return the bits that were printed
(`reparse`).

A `Json` is a document as it is written and read, field by field; a type that is
read from it takes its fields by name or by position (`Json.fields?`). A
`serde_json::Value` is a document whose objects are ordered maps (`JsonValue`).
-/

namespace Strata.Engine

open List Function

/-- `serde_json::Number`: `PosInt`, `NegInt`, or the bits of a `Float`. -/
inductive JsonNumber where
  | posInt (n : UInt64)
  | negInt (n : Int64)
  | float (bits : UInt64)
  deriving DecidableEq, Repr

/-- `f64::is_finite` on the bits: the exponent is not all ones. -/
def isFinite (bits : UInt64) : Bool := (bits >>> 52) &&& 0x7ff != 0x7ff

/-- A JSON document; the fields of an object in the order of its text. -/
inductive Json where
  | null
  | bool (b : Bool)
  | number (n : JsonNumber)
  | string (s : String)
  | array (elements : List Json)
  | object (fields : List (String × Json))

namespace Json

variable {fields : List (String × Json)} (f : UInt64 → UInt64) (bytes : Bytes) (n : UInt64) (l : List UInt64)

mutual

/-- How deep arrays and objects are nested. -/
def depth : Json → Nat
  | .array elements => depthElements elements + 1
  | .object fields => depthFields fields + 1
  | _ => 0

def depthElements : List Json → Nat
  | [] => 0
  | element :: elements => max element.depth (depthElements elements)

def depthFields : List (String × Json) → Nat
  | [] => 0
  | (_, value) :: fields => max value.depth (depthFields fields)

end

mutual

/-- The value with the bits of every float replaced. -/
def mapFloats (f : UInt64 → UInt64) : Json → Json
  | .number (.float bits) => .number (.float (f bits))
  | .array elements => .array (mapFloatsElements f elements)
  | .object fields => .object (mapFloatsFields f fields)
  | value => value

def mapFloatsElements (f : UInt64 → UInt64) : List Json → List Json
  | [] => []
  | element :: elements => element.mapFloats f :: mapFloatsElements f elements

def mapFloatsFields (f : UInt64 → UInt64) : List (String × Json) → List (String × Json)
  | [] => []
  | (name, value) :: fields => (name, value.mapFloats f) :: mapFloatsFields f fields

end

def isObject : Json → Bool
  | .object _ => true
  | _ => false

/-- The value of a field; `none` if it is missing or repeated. -/
def field? (fields : List (String × Json)) (name : String) : Option Json :=
  match fields.filter (·.1 = name) with
  | [(_, value)] => some value
  | _ => none

/-- The fields that a derived `Deserialize` takes: those of an object by their
names, or the elements of an array in their order. -/
def fields? (names : List String) : Json → Option (List Json)
  | .object fields => names.mapM (field? fields)
  | .array elements => if elements.length = names.length then some elements else none
  | _ => none

/-- An unsigned number. -/
def ofU64 (n : UInt64) : Json := .number (.posInt n)

def u64? : Json → Option UInt64
  | .number (.posInt n) => some n
  | _ => none

def string? : Json → Option String
  | .string s => some s
  | _ => none

/-- A byte array, as serde writes one: an array of numbers. -/
def ofBytes (bytes : Bytes) : Json := .array (bytes.map fun byte => ofU64 byte.toUInt64)

def u8? (value : Json) : Option UInt8 := do
  let n ← value.u64?
  if n < 256 then some n.toUInt8 else none

def bytes? : Json → Option Bytes
  | .array elements => elements.mapM u8?
  | _ => none

@[simp] theorem u64?_ofU64 : (ofU64 n).u64? = some n := rfl

@[simp] theorem u8?_ofU64 (byte : UInt8) : (ofU64 byte.toUInt64).u8? = some byte := by
  have h : byte.toUInt64 < 256 := by
    exact byte.toNat_lt
  simp [u8?, h]

@[simp] theorem bytes?_ofBytes : (ofBytes bytes).bytes? = some bytes := by
  show (bytes.map fun byte => ofU64 byte.toUInt64).mapM u8? = some bytes
  induction bytes with
  | nil => rfl
  | cons byte bytes ih => simp [ih]

@[simp] theorem mapFloats_ofU64 : (ofU64 n).mapFloats f = ofU64 n := by
  simp [ofU64, mapFloats]

@[simp] theorem depth_ofU64 : (ofU64 n).depth = 0 := by
  simp [ofU64, depth]

theorem mapFloatsElements_ofU64 : mapFloatsElements f (l.map ofU64) = l.map ofU64 := by
  induction l with
  | nil => rfl
  | cons n l ih => simp [mapFloatsElements, ih]

theorem depthElements_ofU64 : depthElements (l.map ofU64) = 0 := by
  induction l with
  | nil => rfl
  | cons n l ih => simp [depthElements, ih]

@[simp] theorem mapFloats_ofBytes : (ofBytes bytes).mapFloats f = ofBytes bytes := by
  have h := mapFloatsElements_ofU64 f (bytes.map UInt8.toUInt64)
  rw [map_map] at h
  exact congrArg array h

@[simp] theorem depth_ofBytes : (ofBytes bytes).depth = 1 := by
  have h := depthElements_ofU64 (bytes.map UInt8.toUInt64)
  rw [map_map] at h
  exact congrArg (· + 1) h

theorem mapFloatsFields_eq_self {f : UInt64 → UInt64}
    (h : ∀ field ∈ fields, field.2.mapFloats f = field.2) : mapFloatsFields f fields = fields := by
  induction fields with
  | nil => rfl
  | cons field fields ih =>
    rw [forall_mem_cons] at h
    rw [mapFloatsFields, h.1, ih h.2]

theorem depthFields_le {d : Nat} (h : ∀ field ∈ fields, field.2.depth ≤ d) : depthFields fields ≤ d := by
  induction fields with
  | nil => exact Nat.zero_le d
  | cons field fields ih =>
    rw [forall_mem_cons] at h
    exact Nat.max_le.mpr ⟨h.1, ih h.2⟩

end Json

/-! ## Well formed documents -/

/-- A number that `serde_json::Number` holds: a `NegInt` is negative, a float finite. -/
def JsonNumber.InRange : JsonNumber → Prop
  | .posInt _ => True
  | .negInt n => n < 0
  | .float bits => isFinite bits = true

namespace Json

mutual

/-- Every number is in its range, and the names of every object are as they should be. -/
def Checked (names : List String → Prop) : Json → Prop
  | .number n => n.InRange
  | .array elements => CheckedElements names elements
  | .object fields => names (fields.map (·.1)) ∧ CheckedFields names fields
  | _ => True

def CheckedElements (names : List String → Prop) : List Json → Prop
  | [] => True
  | element :: elements => element.Checked names ∧ CheckedElements names elements

def CheckedFields (names : List String → Prop) : List (String × Json) → Prop
  | [] => True
  | (_, value) :: fields => value.Checked names ∧ CheckedFields names fields

end

/-- A document that does not repeat a name. -/
def WellFormed (value : Json) : Prop := value.Checked Nodup

/-- A `serde_json::Value`: its maps are ordered by their keys. -/
def IsValue (value : Json) : Prop := value.Checked (Pairwise (· < ·))

variable {p q : List String → Prop} {fields acc : List (String × Json)}

mutual

theorem Checked.mono (hpq : ∀ names, p names → q names) : ∀ {value : Json}, value.Checked p → value.Checked q
  | .null, _ | .bool _, _ | .string _, _ => trivial
  | .number _, h => h
  | .array _, h => CheckedElements.mono hpq h
  | .object _, h => ⟨hpq _ h.1, CheckedFields.mono hpq h.2⟩

theorem CheckedElements.mono (hpq : ∀ names, p names → q names) :
    ∀ {elements : List Json}, CheckedElements p elements → CheckedElements q elements
  | [], _ => trivial
  | _ :: _, h => ⟨h.1.mono hpq, CheckedElements.mono hpq h.2⟩

theorem CheckedFields.mono (hpq : ∀ names, p names → q names) :
    ∀ {fields : List (String × Json)}, CheckedFields p fields → CheckedFields q fields
  | [], _ => trivial
  | (_, _) :: _, h => ⟨h.1.mono hpq, CheckedFields.mono hpq h.2⟩

end

theorem IsValue.wellFormed {value : Json} (h : value.IsValue) : value.WellFormed :=
  Checked.mono (fun _ => Pairwise.imp String.ne_of_lt) h

theorem checkedFields_iff : CheckedFields p fields ↔ ∀ field ∈ fields, field.2.Checked p := by
  induction fields with
  | nil => simp [CheckedFields]
  | cons field fields ih => rw [CheckedFields, ih, forall_mem_cons]

theorem checkedElements_iff {elements : List Json} :
    CheckedElements p elements ↔ ∀ element ∈ elements, element.Checked p := by
  induction elements with
  | nil => simp [CheckedElements]
  | cons element elements ih => rw [CheckedElements, ih, forall_mem_cons]

@[simp] theorem checked_ofU64 (n : UInt64) : (ofU64 n).Checked p := trivial

@[simp] theorem checked_ofBytes (bytes : Bytes) : (ofBytes bytes).Checked p := by
  refine checkedElements_iff.mpr fun element helement => ?_
  obtain ⟨byte, -, rfl⟩ := mem_map.mp helement
  exact checked_ofU64 _

/-! ### Values

What is read as a `Value` has its maps built field by field: a name that comes
again replaces the value before it. -/

/-- `Map::insert`. -/
def insertField (name : String) (value : Json) : List (String × Json) → List (String × Json)
  | [] => [(name, value)]
  | (other, old) :: fields =>
    if name < other then (name, value) :: (other, old) :: fields
    else if name = other then (name, value) :: fields
    else (other, old) :: insertField name value fields

/-- The number as `Value` holds it: `From<i64>`, and `null` for a float that is not finite. -/
def numberValue : JsonNumber → Json
  | .posInt n => .number (.posInt n)
  | .negInt n => .number (if n < 0 then .negInt n else .posInt n.toUInt64)
  | .float bits => if isFinite bits then .number (.float bits) else .null

mutual

/-- What the visitor of `Value` makes of a document. -/
def toValue : Json → Json
  | .number n => numberValue n
  | .array elements => .array (toValueElements elements)
  | .object fields => .object (toValueFields fields [])
  | value => value

def toValueElements : List Json → List Json
  | [] => []
  | element :: elements => element.toValue :: toValueElements elements

def toValueFields : List (String × Json) → List (String × Json) → List (String × Json)
  | [], map => map
  | (name, value) :: fields, map => toValueFields fields (insertField name value.toValue map)

end

theorem mem_insertField {name : String} {value : Json} {field : String × Json}
    (h : field ∈ insertField name value fields) : field = (name, value) ∨ field ∈ fields := by
  fun_induction insertField name value fields with grind

/-- An insertion keeps a map ordered. -/
theorem pairwise_insertField {name : String} {value : Json} (h : (fields.map (·.1)).Pairwise (· < ·)) :
    ((insertField name value fields).map (·.1)).Pairwise (· < ·) := by
  fun_induction insertField name value fields with
  | case1 => simp
  | case2 other old fields hlt =>
    obtain ⟨hother, -⟩ := pairwise_cons.mp h
    exact pairwise_cons.mpr ⟨forall_mem_cons.mpr ⟨hlt, fun next hnext =>
      String.lt_trans hlt (hother next hnext)⟩, h⟩
  | case3 old fields hlt => exact h
  | case4 other old fields hlt hne ih =>
    obtain ⟨hother, hfields⟩ := pairwise_cons.mp h
    refine pairwise_cons.mpr ⟨fun next hnext => ?_, ih hfields⟩
    obtain ⟨field, hfield, rfl⟩ := mem_map.mp hnext
    obtain rfl | hfield := mem_insertField hfield
    · exact Std.lt_of_le_of_ne (String.not_lt.mp hlt) (Ne.symm hne)
    · exact hother _ (mem_map_of_mem hfield)

mutual

theorem isValue_toValue : ∀ value : Json, value.toValue.IsValue
  | .null | .bool _ | .string _ => trivial
  | .number (.posInt _) => trivial
  | .number (.negInt n) => by
    simp only [toValue, numberValue, IsValue, Checked]
    split
    · assumption
    · trivial
  | .number (.float bits) => by
    simp only [toValue, numberValue]
    split
    · assumption
    · trivial
  | .array elements => checked_toValueElements elements
  | .object fields => checked_toValueFields fields [] Pairwise.nil trivial

theorem checked_toValueElements :
    ∀ elements : List Json, CheckedElements (Pairwise (· < ·)) (toValueElements elements)
  | [] => trivial
  | element :: elements => ⟨isValue_toValue element, checked_toValueElements elements⟩

theorem checked_toValueFields : ∀ fields map : List (String × Json), (map.map (·.1)).Pairwise (· < ·) →
    CheckedFields (Pairwise (· < ·)) map → (object (toValueFields fields map)).IsValue
  | [], _, hmap, hvalues => ⟨hmap, hvalues⟩
  | (name, value) :: fields, map, hmap, hvalues => by
    refine checked_toValueFields fields _ (pairwise_insertField hmap) (checkedFields_iff.mpr ?_)
    intro field hfield
    obtain rfl | hfield := mem_insertField hfield
    · exact isValue_toValue value
    · exact checkedFields_iff.mp hvalues field hfield

end

/-- A name behind all others comes last. -/
theorem insertField_last {name : String} {value : Json} (h : ∀ other ∈ fields.map (·.1), other < name) :
    insertField name value fields = fields ++ [(name, value)] := by
  induction fields with
  | nil => rfl
  | cons field fields ih =>
    obtain ⟨hlt, h⟩ := forall_mem_cons.mp h
    rw [insertField, if_neg (String.lt_asymm hlt), if_neg (String.ne_of_lt hlt).symm, ih h, cons_append]

mutual

/-- A value is read as it is. -/
theorem IsValue.toValue_eq : ∀ {value : Json}, value.IsValue → value.toValue = value
  | .null, _ | .bool _, _ | .string _, _ => rfl
  | .number (.posInt _), _ => rfl
  | .number (.negInt n), h => by rw [toValue, numberValue, if_pos (show n < 0 from h)]
  | .number (.float bits), h => by rw [toValue, numberValue, if_pos (show isFinite bits = true from h)]
  | .array elements, h => by rw [toValue, toValueElements_eq h]
  | .object fields, h => by rw [toValue, toValueFields_eq [] h.2 h.1, nil_append]

theorem toValueElements_eq : ∀ {elements : List Json}, CheckedElements (Pairwise (· < ·)) elements →
    toValueElements elements = elements
  | [], _ => rfl
  | element :: elements, h => by rw [toValueElements, IsValue.toValue_eq h.1, toValueElements_eq h.2]

theorem toValueFields_eq : ∀ {fields : List (String × Json)} (acc : List (String × Json)),
    CheckedFields (Pairwise (· < ·)) fields →
    ((acc ++ fields).map (·.1)).Pairwise (· < ·) → toValueFields fields acc = acc ++ fields
  | [], acc, _, _ => by rw [toValueFields, append_nil]
  | (name, value) :: fields, acc, h, hnames => by
    have hlast : ∀ other ∈ acc.map (·.1), other < name := by
      rw [map_append, pairwise_append] at hnames
      exact fun other hother => hnames.2.2 other hother name mem_cons_self
    rw [append_cons] at hnames ⊢
    rw [toValueFields, IsValue.toValue_eq h.1, insertField_last hlast, toValueFields_eq _ h.2 hnames]

end

end Json

/-- `serde_json::Value`. -/
structure JsonValue where
  json : Json
  isValue : json.IsValue

/-- `Value::deserialize`. -/
def Json.value (document : Json) : JsonValue := ⟨document.toValue, document.isValue_toValue⟩

theorem JsonValue.value_json (value : JsonValue) : value.json.value = value := by
  have h := value.isValue.toValue_eq
  cases value
  simp only [Json.value, h]

/-! ## Text -/

/-- The printer and the reader of JSON text: `serde_json::to_vec`, the document that
`serde_json::from_slice` reads a type from, and the float that is read from the text
of one. -/
structure JsonFormat where
  toVec : Json → Bytes
  fromSlice : Bytes → Option Json
  reparse : UInt64 → UInt64

/-- The recursion limit of the reader. -/
def jsonRecursionLimit : Nat := 128

/-- What the library documents: the text of a well formed document is read back,
unless it is nested to the recursion limit, with its floats as their text is read. -/
structure JsonFormat.Documented (format : JsonFormat) : Prop where
  fromSlice_toVec : ∀ value : Json, value.WellFormed → format.fromSlice (format.toVec value) =
    if value.depth < jsonRecursionLimit then some (value.mapFloats format.reparse) else none

namespace JsonFormat.Documented

variable {format : JsonFormat} {value : Json}

theorem fromSlice_eq_some (h : format.Documented) (hvalue : value.WellFormed)
    (hdepth : value.depth < jsonRecursionLimit) (hfloats : value.mapFloats format.reparse = value) :
    format.fromSlice (format.toVec value) = some value := by
  rw [h.fromSlice_toVec value hvalue, if_pos hdepth, hfloats]

end JsonFormat.Documented

/-- The value's floats are read back as they were. -/
def Json.FloatsSurvive (format : JsonFormat) (value : Json) : Prop :=
  value.mapFloats format.reparse = value

mutual

theorem Json.mapFloats_id : ∀ value : Json, value.mapFloats id = value
  | .null | .bool _ | .string _ => rfl
  | .number (.posInt _) | .number (.negInt _) | .number (.float _) => rfl
  | .array elements => by rw [mapFloats, mapFloatsElements_id elements]
  | .object fields => by rw [mapFloats, mapFloatsFields_id fields]

theorem Json.mapFloatsElements_id : ∀ elements : List Json, mapFloatsElements id elements = elements
  | [] => rfl
  | element :: elements => by
    rw [mapFloatsElements, mapFloats_id element, mapFloatsElements_id elements]

theorem Json.mapFloatsFields_id : ∀ fields : List (String × Json), mapFloatsFields id fields = fields
  | [] => rfl
  | (name, value) :: fields => by
    rw [mapFloatsFields, mapFloats_id value, mapFloatsFields_id fields]

end

end Strata.Engine
