import StrataStorage.Row
import StrataStorage.Lib.KeyedRows
import StrataStorage.Lib.Result

/-!
# Engine row keys

The engine crate keeps every capability's rows in the storage rows of a branch:
`persistence/space.rs` gives each row class a storage-space byte and
`persistence/key.rs` builds the row key from a version, a discriminator, the
product space and the capability's own suffix. The space and every text of a
suffix stand behind their lengths, so a key says which space and which names it
was built from (`encodeUserKey_inj`, `encodeName_append_inj`), starts with the key
of no other space or name (`encodeUserKey_prefix_iff`, `encodeName_append_prefix_iff`),
and is decoded to just these (`decodeUserKey_eq_ok`,
`decodeLengthPrefixedText_eq_ok`).
-/

namespace Strata.Engine

open Except List

variable {s : Bytes} {t : Bytes}

inductive EngineErrorClass where
  | invalidInput
  | notFound
  | conflict
  | unavailable
  | ambiguousCommit
  | incompatibleLayout
  | corruption
  | closedRuntime
  | internal
  deriving DecidableEq, Repr

/-- `EngineError`: its class, and the code and message of its status. -/
structure EngineError where
  errorClass : EngineErrorClass
  code : String
  message : String
  deriving DecidableEq, Repr

namespace EngineError

def invalidInput (code message : String) : EngineError := ⟨.invalidInput, code, message⟩
def corruption (code message : String) : EngineError := ⟨.corruption, code, message⟩

end EngineError

/-! ## Names -/

def isWhitespace (c : Char) : Bool :=
  (0x9 ≤ c.toNat && c.toNat ≤ 0xd) || c.toNat = 0x20 || c.toNat = 0x85 || c.toNat = 0xa0 ||
  c.toNat = 0x1680 || (0x2000 ≤ c.toNat && c.toNat ≤ 0x200a) || c.toNat = 0x2028 ||
  c.toNat = 0x2029 || c.toNat = 0x202f || c.toNat = 0x205f || c.toNat = 0x3000

/-- A text that passed the checks of its kind. -/
structure ValidText (validate : String → Except EngineError Unit) where
  text : String
  valid : validate text = .ok ()
  deriving DecidableEq

namespace ValidText

variable {validate : String → Except EngineError Unit}

def new (text : String) : Except EngineError (ValidText validate) :=
  match h : validate text with
  | .error e => .error e
  | .ok () => .ok ⟨text, h⟩

theorem ext {a b : ValidText validate} (h : a.text = b.text) : a = b := by
  cases a; cases b; cases h; rfl

@[simp] theorem new_eq_ok {text : String} {a : ValidText validate} : new text = .ok a ↔ a.text = text := by
  unfold new
  split
  · rename_i h
    simp only [reduceCtorEq, false_iff]
    rintro rfl
    rw [a.valid] at h
    cases h
  · rw [ok.injEq]
    exact ⟨fun h => h ▸ rfl, fun h => ext h.symm⟩

end ValidText

/-- A kind of texts that are short enough for a length of two bytes. -/
class ShortText (validate : String → Except EngineError Unit) : Prop where
  length_lt : ∀ text, validate text = .ok () → (utf8Bytes text).length < 65536

@[simp] theorem ValidText.length_lt {validate : String → Except EngineError Unit} [ShortText validate]
    (a : ValidText validate) : (utf8Bytes a.text).length < 65536 := ShortText.length_lt _ a.valid

/-! ## Product spaces -/

def maxProductSpaceBytes : Nat := 65535

/-- The checks of `ProductSpace::new`. -/
def ProductSpace.validate (space : String) : Except EngineError Unit := do
  .require (space ≠ "") (.invalidInput "invalid_argument.engine.product_space" "product space must not be empty")
  .require (¬(space = "_system_" ∨ space.toList.head? = some '_'))
    (.invalidInput "invalid_argument.engine.product_space_reserved"
      "product space is reserved for engine control data")
  .require ((utf8Bytes space).length ≤ maxProductSpaceBytes)
    (.invalidInput "invalid_argument.engine.product_space" "product space is too long")
  .require ((utf8Bytes space).all fun byte => byte ≠ 0 && byte ≠ 10)
    (.invalidInput "invalid_argument.engine.product_space" "product space contains an unsupported control byte")

/-- `ProductSpace`: a name that passed its checks. -/
abbrev ProductSpace := ValidText ProductSpace.validate

def ProductSpace.new (space : String) : Except EngineError ProductSpace := ValidText.new space

instance : ShortText ProductSpace.validate := ⟨fun _ h => by
  simp only [ProductSpace.validate, check_bind_eq_ok, require_eq_ok] at h
  exact Nat.lt_succ_of_le h.2.2.1⟩

/-! ## Row classes -/

/-- `RowClass`, the classes of the modelled capabilities. -/
inductive RowClass where
  | kv
  | json
  | jsonIndex
  | vectorCollection
  | vector
  | event
  | eventMetadata
  | eventIndex
  | graphMetadata
  | graphNode
  | graphEdge
  | graphReverseEdge
  | graphBindingIndex
  | graphOntology
  | graphTypeIndex
  deriving DecidableEq, Repr

def RowClass.storageSpaceId : RowClass → UInt8
  | .kv => 0x20
  | .json => 0x22
  | .jsonIndex => 0x24
  | .vectorCollection => 0x26
  | .vector => 0x28
  | .event => 0x2a
  | .eventMetadata => 0x2c
  | .eventIndex => 0x2e
  | .graphMetadata => 0x36
  | .graphNode => 0x38
  | .graphEdge => 0x3a
  | .graphReverseEdge => 0x3c
  | .graphBindingIndex => 0x3e
  | .graphOntology => 0x46
  | .graphTypeIndex => 0x43

theorem RowClass.storageSpaceId_injective : Function.Injective storageSpaceId := by
  intro a b h
  cases a <;> cases b <;> first | rfl | (revert h; decide)

/-! ## User keys -/

def keyVersion : UInt8 := 1

def encodeLengthPrefixedText (value : String) : Bytes :=
  beBytes 2 (utf8Bytes value).length ++ utf8Bytes value

theorem utf8Bytes_injective : Function.Injective utf8Bytes := fun a b h => by
  have := fromUtf8_utf8Bytes a
  rw [h, fromUtf8_utf8Bytes] at this
  exact (Option.some.inj this).symm

theorem ValidText.utf8Bytes_inj {validate : String → Except EngineError Unit}
    {a b : ValidText validate} : utf8Bytes a.text = utf8Bytes b.text ↔ a = b :=
  ⟨fun h => ext (utf8Bytes_injective h), fun h => h ▸ rfl⟩

theorem encodeLengthPrefixedText_append_inj {a b : String}
    (ha : (utf8Bytes a).length < 65536) (hb : (utf8Bytes b).length < 65536) :
    encodeLengthPrefixedText a ++ s = encodeLengthPrefixedText b ++ t ↔ a = b ∧ s = t := by
  refine ⟨fun h => ?_, fun ⟨hab, hst⟩ => hab ▸ hst ▸ rfl⟩
  simp only [encodeLengthPrefixedText, append_assoc] at h
  obtain ⟨hlen, h⟩ := append_inj h (by simp)
  have hlen : (utf8Bytes a).length = (utf8Bytes b).length := by
    rw [← ofBeBytes_beBytes (n := 2) ha, ← ofBeBytes_beBytes (n := 2) hb, hlen]
  obtain ⟨hab, hst⟩ := append_inj h hlen
  exact ⟨utf8Bytes_injective hab, hst⟩

/-- What is written in front of anything is found in front of a text exactly if it
was written there. -/
theorem prefix_iff_of_inj {α : Type} {f : α → Bytes → Bytes} (happend : ∀ a s u, f a s ++ u = f a (s ++ u))
    (hinj : ∀ a b s t, f a s = f b t ↔ a = b ∧ s = t) {a b : α} :
    f a s <+: f b t ↔ b = a ∧ s <+: t := by
  constructor
  · rintro ⟨u, hu⟩
    rw [happend, hinj] at hu
    exact ⟨hu.1.symm, u, hu.2⟩
  · rintro ⟨rfl, u, rfl⟩
    exact ⟨u, happend ..⟩

section Names

variable {validate : String → Except EngineError Unit} [ShortText validate] {a b : ValidText validate} {t : Bytes}

theorem encodeName_append_inj : encodeLengthPrefixedText a.text ++ s = encodeLengthPrefixedText b.text ++ t ↔
      a = b ∧ s = t := by
  rw [encodeLengthPrefixedText_append_inj a.length_lt b.length_lt]
  exact and_congr_left fun _ => ⟨ValidText.ext, fun h => h ▸ rfl⟩

theorem encodeName_inj : encodeLengthPrefixedText a.text = encodeLengthPrefixedText b.text ↔ a = b := by
  simpa using encodeName_append_inj (a := a) (b := b) (s := []) (t := [])

theorem encodeName_append_prefix_iff :
    encodeLengthPrefixedText a.text ++ s <+: encodeLengthPrefixedText b.text ++ t ↔ b = a ∧ s <+: t :=
  prefix_iff_of_inj (f := fun name : ValidText validate => (encodeLengthPrefixedText name.text ++ ·))
    (fun _ _ _ => append_assoc ..) fun _ _ _ _ => encodeName_append_inj

theorem encodeName_prefix_iff :
    encodeLengthPrefixedText a.text <+: encodeLengthPrefixedText b.text ++ t ↔ b = a := by
  simpa using encodeName_append_prefix_iff (a := a) (b := b) (s := []) (t := t)

end Names

def encodeUserKey (discriminator : UInt8) (space : ProductSpace) (keyBytes : Bytes) : Bytes :=
  keyVersion :: discriminator :: (encodeLengthPrefixedText space.text ++ keyBytes)

variable {space : ProductSpace} {space' : ProductSpace} {d d' : UInt8}

theorem encodeUserKey_inj :
    encodeUserKey d space s = encodeUserKey d' space' t ↔ d = d' ∧ space = space' ∧ s = t := by
  simp only [encodeUserKey, cons.injEq, true_and, encodeName_append_inj]

theorem encodeUserKey_append (d : UInt8) (space : ProductSpace) (s t : Bytes) :
    encodeUserKey d space s ++ t = encodeUserKey d space (s ++ t) := by
  simp [encodeUserKey]

theorem encodeUserKey_prefix_iff :
    encodeUserKey d space s <+: encodeUserKey d' space' t ↔ d' = d ∧ space' = space ∧ s <+: t := by
  rw [← and_assoc, ← Prod.mk.injEq]
  exact prefix_iff_of_inj (f := fun head : UInt8 × ProductSpace => encodeUserKey head.1 head.2)
    (a := (d, space)) (b := (d', space')) (fun _ => encodeUserKey_append _ _) fun _ _ _ _ => by
      rw [encodeUserKey_inj, Prod.ext_iff, and_assoc]

/-- A field behind its length of two bytes. -/
theorem lengthPrefixed_iff {bytes value rest : Bytes} :
    (2 ≤ bytes.length ∧ 2 + ofBeBytes (bytes.take 2) ≤ bytes.length ∧
      (bytes.drop 2).take (ofBeBytes (bytes.take 2)) = value ∧
      bytes.drop (2 + ofBeBytes (bytes.take 2)) = rest) ↔
    bytes = beBytes 2 value.length ++ (value ++ rest) ∧ value.length < 65536 := by
  constructor
  · rintro ⟨hlen, hle, rfl, rfl⟩
    have htake : (bytes.take 2).length = 2 := by rw [length_take]; omega
    have hlt := ofBeBytes_lt (bytes.take 2)
    have hvalue : ((bytes.drop 2).take (ofBeBytes (bytes.take 2))).length = ofBeBytes (bytes.take 2) := by
      rw [length_take, length_drop]; omega
    have hbe := beBytes_ofBeBytes (bytes.take 2)
    rw [htake] at hbe hlt
    rw [hvalue, hbe, ← drop_drop, take_append_drop, take_append_drop]
    exact ⟨rfl, hlt⟩
  · rintro ⟨rfl, hlt⟩
    have htake : (beBytes 2 value.length ++ (value ++ rest)).take 2 = beBytes 2 value.length :=
      take_left' (by simp)
    rw [htake, ofBeBytes_beBytes hlt, ← drop_drop, drop_left' (by simp), take_left, drop_left]
    simp

def decodeUserKey (space : ProductSpace) (encoded : Bytes) (discriminator : UInt8)
    (corruption : EngineError) : Except EngineError Bytes := do
  .require (4 ≤ encoded.length) corruption
  .require (encoded[0]? = some keyVersion ∧ encoded[1]? = some discriminator) corruption
  let spaceLen := ofBeBytes ((encoded.drop 2).take 2)
  let keyStart := 4 + spaceLen
  .require (keyStart ≤ encoded.length) corruption
  .require ((encoded.drop 4).take spaceLen = utf8Bytes space.text) corruption
  let keyBytes := encoded.drop keyStart
  .require (keyBytes ≠ []) corruption
  .ok keyBytes

theorem decodeUserKey_eq_ok {d : UInt8} {encoded : Bytes} {corruption : EngineError} :
    decodeUserKey space encoded d corruption = .ok s ↔ encoded = encodeUserKey d space s ∧ s ≠ [] := by
  match encoded with
  | [] | [_] => simp [decodeUserKey, encodeUserKey]
  | version :: discriminator :: bytes =>
    have hfield : _ ↔ bytes = _ ++ (utf8Bytes space.text ++ s) ∧ _ := lengthPrefixed_iff
    simp only [space.length_lt, and_true] at hfield
    simp only [decodeUserKey, encodeUserKey, encodeLengthPrefixedText, check_bind_eq_ok,
      require_eq_ok, cons.injEq, append_assoc, ← hfield, ok.injEq, length_cons]
    grind

def decodeLengthPrefixedText (bytes : Bytes) (code message : String) : Except EngineError (String × Bytes) := do
  .require (2 ≤ bytes.length) (.corruption code message)
  let valueLen := ofBeBytes (bytes.take 2)
  .require (2 + valueLen ≤ bytes.length) (.corruption code message)
  let value ← (fromUtf8 ((bytes.drop 2).take valueLen)).okOr
    (.corruption code "stored vector row key field is not valid UTF-8")
  .ok (value, bytes.drop (2 + valueLen))

theorem decodeLengthPrefixedText_eq_ok {bytes rest : Bytes} {code message text : String} :
    decodeLengthPrefixedText bytes code message = .ok (text, rest) ↔
      bytes = encodeLengthPrefixedText text ++ rest ∧ (utf8Bytes text).length < 65536 := by
  rw [encodeLengthPrefixedText, append_assoc, ← lengthPrefixed_iff]
  simp only [decodeLengthPrefixedText, bind_eq_ok, require_eq_ok, Option.okOr_eq_ok,
    fromUtf8_eq_some, ok.injEq, Prod.mk.injEq]
  grind

end Strata.Engine
