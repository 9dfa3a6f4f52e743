import StrataStorage.Engine.Json
import StrataStorage.Lib.Decimal

/-!
# A printer and a reader of JSON text

A `JsonFormat` with the documented behaviour (`JsonFormat.text_documented`). The
printer writes the compact text of a document, a float with its exact decimal value.
The reader takes the whole grammar: blanks, escapes, and numbers with a fraction or
an exponent, of which it keeps the places that a float has.
-/

namespace Strata.Engine

open List

namespace JsonText

variable {bytes rest : Bytes}

/-! ## Floats

A finite float is a number of units of `2 ^ -1074`, the least one. -/

def leastExponent : Nat := 1074

def isNegative (bits : UInt64) : Bool := 2 ^ 63 ≤ bits.toNat

def exponentOf (bits : UInt64) : Nat := bits.toNat / 2 ^ 52 % 2 ^ 11

def fractionOf (bits : UInt64) : Nat := bits.toNat % 2 ^ 52

def units (exponent fraction : Nat) : Nat :=
  if exponent = 0 then fraction else (2 ^ 52 + fraction) * 2 ^ (exponent - 1)

/-- The bits below the sign of the float with so many units, without the places
below its last one. -/
def magnitude (units : Nat) : Nat := (units.log2 - 52) * 2 ^ 52 + units / 2 ^ (units.log2 - 52)

/-- The float with so many units; `none` if there are too many. -/
def ofUnits (negative : Bool) (units : Nat) : Option UInt64 :=
  if magnitude units < 0x7ff * 2 ^ 52 then
    some (.ofNat ((if negative then 2 ^ 63 else 0) + magnitude units))
  else none

theorem magnitude_units {exponent fraction : Nat} (h : fraction < 2 ^ 52) :
    magnitude (units exponent fraction) = exponent * 2 ^ 52 + fraction := by
  unfold magnitude units
  split
  next hzero =>
    have hlog : fraction.log2 - 52 = 0 := by
      by_cases hne : fraction = 0
      · rw [hne, Nat.log2_zero]
      · have := (Nat.log2_lt hne).mpr h
        omega
    rw [hlog, hzero, Nat.pow_zero, Nat.div_one]
  next hne =>
    have hlog : ((2 ^ 52 + fraction) * 2 ^ (exponent - 1)).log2 = 52 + (exponent - 1) := by
      rw [Nat.log2_eq_iff (by positivity), Nat.add_right_comm, Nat.pow_add, Nat.pow_add]
      exact ⟨Nat.mul_le_mul_right _ (by omega), Nat.mul_lt_mul_of_pos_right (by omega) (by positivity)⟩
    rw [hlog, Nat.add_sub_cancel_left, Nat.mul_div_cancel _ (by positivity)]
    omega

theorem exponentOf_ne {bits : UInt64} (h : isFinite bits = true) : exponentOf bits ≠ 0x7ff := by
  intro heq
  have hall : (bits >>> 52) &&& 0x7ff = 0x7ff := by
    apply UInt64.toNat_inj.mp
    rw [UInt64.toNat_and, UInt64.toNat_shiftRight, Nat.shiftRight_eq_div_pow]
    exact (Nat.and_two_pow_sub_one_eq_mod _ 11).trans heq
  simp [isFinite, hall] at h

theorem ofUnits_units {bits : UInt64} (h : isFinite bits = true) :
    ofUnits (isNegative bits) (units (exponentOf bits) (fractionOf bits)) = some bits := by
  have hlt := bits.toNat_lt
  have hexponent := exponentOf_ne h
  have hfraction : fractionOf bits < 2 ^ 52 := Nat.mod_lt _ (by decide)
  rw [ofUnits, magnitude_units hfraction]
  unfold isNegative exponentOf fractionOf at *
  rw [if_pos (by omega), Option.some.injEq]
  apply UInt64.toNat_inj.mp
  rw [UInt64.toNat_ofNat']
  split <;> simp_all <;> omega

/-- The units of `n * 10 ^ up / 10 ^ down`. -/
def decimalUnits (n up down : Nat) : Nat := n * 10 ^ up * 2 ^ leastExponent / 10 ^ down

theorem decimalUnits_exact (n : Nat) : decimalUnits (n * 5 ^ leastExponent) 0 leastExponent = n := by
  rw [decimalUnits, Nat.pow_zero, Nat.mul_one, Nat.mul_assoc, ← Nat.mul_pow, show 5 * 2 = 10 from rfl]
  exact Nat.mul_div_cancel _ (Nat.pow_pos (by decide))

/-! ## Numbers -/

def readSign : Bytes → Bool × Bytes
  | 0x2D :: bytes => (true, bytes)
  | bytes => (false, bytes)

def readDigits (bytes : Bytes) : Bytes × Bytes := (bytes.takeWhile isDigit, bytes.dropWhile isDigit)

def readFraction : Bytes → Option (Bytes × Bytes)
  | 0x2E :: bytes => if (readDigits bytes).1 = [] then none else some (readDigits bytes)
  | bytes => some ([], bytes)

def readExponentSign : Bytes → Bool × Bytes
  | 0x2B :: bytes => (false, bytes)
  | bytes => readSign bytes

/-- The powers of ten up and down, if there is an exponent. -/
def readExponent : Bytes → Option (Option (Nat × Nat) × Bytes)
  | byte :: bytes =>
    if byte = 0x65 ∨ byte = 0x45 then
      let (negative, bytes) := readExponentSign bytes
      let (digits, bytes) := readDigits bytes
      if digits = [] then none
      else some (some (if negative then (0, decimal digits) else (decimal digits, 0)), bytes)
    else some (none, byte :: bytes)
  | [] => some (none, [])

/-- An integer; a float if neither `u64` nor `i64` holds it, and for `-0`. -/
def integer (negative : Bool) (n : Nat) : Option JsonNumber :=
  if ¬negative ∧ n < 2 ^ 64 then some (.posInt (.ofNat n))
  else if negative ∧ 0 < n ∧ n ≤ 2 ^ 63 then some (.negInt (.ofInt (-n)))
  else (ofUnits negative (decimalUnits n 0 0)).map .float

def number (negative : Bool) (digits fraction : Bytes) : Option (Nat × Nat) → Option JsonNumber
  | some (up, down) =>
    (ofUnits negative (decimalUnits (decimal (digits ++ fraction)) up (fraction.length + down))).map .float
  | none =>
    if fraction = [] then integer negative (decimal digits)
    else (ofUnits negative (decimalUnits (decimal (digits ++ fraction)) 0 fraction.length)).map .float

def readNumber (bytes : Bytes) : Option (JsonNumber × Bytes) := do
  let (negative, bytes) := readSign bytes
  let (digits, bytes) := readDigits bytes
  -- there are digits, and no zero in front of others
  guard (digits = decimalDigits (decimal digits))
  let (fraction, bytes) ← readFraction bytes
  let (exponent, bytes) ← readExponent bytes
  (number negative digits fraction exponent).map fun n => (n, bytes)

def signedText (negative : Bool) (n : Nat) : Bytes := (if negative then [0x2D] else []) ++ decimalDigits n

def numberText : JsonNumber → Bytes
  | .posInt n => signedText false n.toNat
  | .negInt n => signedText true n.toInt.natAbs
  | .float bits => signedText (isNegative bits) (units (exponentOf bits) (fractionOf bits) * 5 ^ leastExponent) ++
      (0x65 :: signedText true leastExponent)

/-- No number goes on into the rest. -/
def Ends : Bytes → Prop
  | [] => True
  | byte :: _ => byte = 0x2C ∨ byte = 0x5D ∨ byte = 0x7D

theorem readDigits_decimalDigits (n : Nat) (h : ∀ byte ∈ rest.head?, isDigit byte = false) :
    readDigits (decimalDigits n ++ rest) = (decimalDigits n, rest) := by
  have hdigits : ∀ byte ∈ decimalDigits n, isDigit byte = true := fun _ => isDigit_of_mem_decimalDigits
  have hrest : rest.takeWhile isDigit = [] ∧ rest.dropWhile isDigit = rest := by
    cases rest with
    | nil => simp
    | cons byte rest => simp [h byte rfl]
  rw [readDigits, takeWhile_append_of_pos hdigits, dropWhile_append_of_pos hdigits, hrest.1, hrest.2, append_nil]

theorem exists_signedText (negative : Bool) (n : Nat) :
    ∃ byte bytes, signedText negative n = byte :: bytes ∧ (byte = 0x2D ∨ isDigit byte) := by
  obtain ⟨byte, bytes, h⟩ := exists_cons_of_ne_nil (decimalDigits_ne_nil n)
  cases negative with
  | true => exact ⟨_, _, rfl, .inl rfl⟩
  | false => exact ⟨byte, bytes, h, .inr (isDigit_of_mem_decimalDigits (h ▸ mem_cons_self))⟩

theorem exists_numberText (n : JsonNumber) :
    ∃ byte bytes, numberText n = byte :: bytes ∧ (byte = 0x2D ∨ isDigit byte) := by
  obtain ⟨negative, digits, tail, htext⟩ : ∃ negative n' tail, numberText n = signedText negative n' ++ tail := by
    cases n with
    | posInt n => exact ⟨false, _, [], (append_nil _).symm⟩
    | negInt n => exact ⟨true, _, [], (append_nil _).symm⟩
    | float bits => exact ⟨_, _, _, rfl⟩
  obtain ⟨byte, bytes, h, hbyte⟩ := exists_signedText negative digits
  exact ⟨byte, bytes ++ tail, by rw [htext, h, cons_append], hbyte⟩

theorem readSign_signedText (negative : Bool) (n : Nat) :
    readSign (signedText negative n ++ rest) = (negative, decimalDigits n ++ rest) := by
  cases negative with
  | true => rfl
  | false =>
    obtain ⟨byte, bytes, h⟩ := exists_cons_of_ne_nil (decimalDigits_ne_nil n)
    have hdigit : isDigit byte = true := isDigit_of_mem_decimalDigits (h ▸ mem_cons_self)
    rw [signedText, if_neg (by decide), nil_append, h, cons_append, readSign]
    intro rest heq
    rw [(cons.inj heq).1] at hdigit
    cases hdigit

theorem Ends.notDigit (h : Ends rest) : ∀ byte ∈ rest.head?, isDigit byte = false := by
  cases rest with
  | nil => simp
  | cons byte rest => obtain rfl | rfl | rfl := h <;> simp [isDigit]

theorem Ends.readFraction (h : Ends rest) : readFraction rest = some ([], rest) := by
  cases rest with
  | nil => rfl
  | cons byte rest => obtain rfl | rfl | rfl := h <;> rfl

theorem Ends.readExponent (h : Ends rest) : readExponent rest = some (none, rest) := by
  cases rest with
  | nil => rfl
  | cons byte rest => obtain rfl | rfl | rfl := h <;> rfl

/-- A number is read up to what its digits are followed by. -/
theorem readNumber_signedText {tail : Bytes} {exponent : Option (Nat × Nat)} (negative : Bool) (n : Nat)
    (hdigits : ∀ byte ∈ tail.head?, isDigit byte = false) (hfraction : readFraction tail = some ([], tail))
    (hexponent : readExponent tail = some (exponent, rest)) :
    readNumber (signedText negative n ++ tail) =
      (number negative (decimalDigits n) [] exponent).map fun n => (n, rest) := by
  simp [readNumber, readSign_signedText, readDigits_decimalDigits n hdigits, decimal_decimalDigits, hfraction, hexponent]

theorem readNumber_text {n : JsonNumber} (hn : n.InRange) (hrest : Ends rest) :
    readNumber (numberText n ++ rest) = some (n, rest) := by
  cases n with
  | posInt n =>
    have hint : integer false n.toNat = some (.posInt n) := by
      rw [integer, if_pos ⟨by decide, n.toNat_lt⟩, UInt64.ofNat_toNat]
    rw [numberText, readNumber_signedText false _ hrest.notDigit hrest.readFraction hrest.readExponent]
    simp [number, decimal_decimalDigits, hint]
  | negInt n =>
    have hneg : n.toInt < 0 := Int64.lt_iff_toInt_lt.mp hn
    have hle := n.le_toInt
    have hint : integer true n.toInt.natAbs = some (.negInt n) := by
      rw [integer, if_neg (by simp), if_pos ⟨rfl, by omega, by omega⟩]
      have : -(n.toInt.natAbs : Int) = n.toInt := by omega
      rw [this, Int64.ofInt_toInt]
    rw [numberText, readNumber_signedText true _ hrest.notDigit hrest.readFraction hrest.readExponent]
    simp [number, decimal_decimalDigits, hint]
  | float bits =>
    have hexponent : readExponent (0x65 :: (signedText true leastExponent ++ rest)) =
        some (some (0, leastExponent), rest) := by
      simp [JsonText.readExponent, readExponentSign, readSign, signedText,
        readDigits_decimalDigits _ hrest.notDigit, decimal_decimalDigits, decimalDigits_ne_nil]
    rw [numberText, append_assoc, cons_append, readNumber_signedText _ _ (by simp [isDigit]) rfl hexponent]
    simp [number, decimal_decimalDigits, decimalUnits_exact, ofUnits_units hn]

/-! ## Strings -/

def hexDigit (n : Nat) : UInt8 := if n < 10 then .ofNat (0x30 + n) else .ofNat (0x57 + n)

def hexValue4 (a b c d : UInt8) : Option Nat := do
  some (((← hexValue a) * 16 + (← hexValue b)) * 256 + ((← hexValue c) * 16 + (← hexValue d)))

/-- The bytes that are printed behind a backslash, with what they stand for: `"`, the
backslash, `b`, `f`, `n`, `r` and `t`. -/
def escapes : List (UInt8 × UInt8) :=
  [(0x22, 0x22), (0x5C, 0x5C), (0x62, 0x08), (0x66, 0x0C), (0x6E, 0x0A), (0x72, 0x0D), (0x74, 0x09)]

def escape (byte : UInt8) : Bytes :=
  match escapes.find? (·.2 = byte) with
  | some (mark, _) => [0x5C, mark]
  | none =>
    if byte < 0x20 then [0x5C, 0x75, 0x30, 0x30, hexDigit (byte.toNat / 16), hexDigit (byte.toNat % 16)]
    else [byte]

/-- What is read behind a backslash; the slash is not printed so. -/
def unescape (mark : UInt8) : Option UInt8 := if mark = 0x2F then some 0x2F else escapes.lookup mark

def isHighSurrogate (unit : Nat) : Bool := 0xD800 ≤ unit ∧ unit < 0xDC00

def isLowSurrogate (unit : Nat) : Bool := 0xDC00 ≤ unit ∧ unit < 0xE000

def codePointBytes (n : Nat) : Bytes := utf8Bytes (.singleton (.ofNat n))

/-- Put bytes in front of those of a string that was read. -/
def prepend (front : Bytes) : Option (Bytes × Bytes) → Option (Bytes × Bytes) :=
  Option.map fun (bytes, rest) => (front ++ bytes, rest)

/-- The bytes of a string up to the closing quote; two surrogates are one character. -/
def readChars : Bytes → Option (Bytes × Bytes)
  | [] => none
  | 0x22 :: rest => some ([], rest)
  | 0x5C :: 0x75 :: a :: b :: c :: d :: rest => do
    let unit ← hexValue4 a b c d
    if isHighSurrogate unit then
      match rest with
      | 0x5C :: 0x75 :: a :: b :: c :: d :: rest => do
        let low ← hexValue4 a b c d
        guard (isLowSurrogate low)
        prepend (codePointBytes (0x10000 + (unit - 0xD800) * 0x400 + (low - 0xDC00))) (readChars rest)
      | _ => none
    else if isLowSurrogate unit then none
    else prepend (codePointBytes unit) (readChars rest)
  | 0x5C :: mark :: rest => do
    let byte ← unescape mark
    prepend [byte] (readChars rest)
  | byte :: rest => if byte < 0x20 then none else prepend [byte] (readChars rest)

def readString (bytes : Bytes) : Option (String × Bytes) := do
  let (chars, rest) ← readChars bytes
  (fromUtf8 chars).map fun s => (s, rest)

def stringText (s : String) : Bytes := 0x22 :: ((utf8Bytes s).flatMap escape ++ [0x22])

theorem hexValue_hexDigit {n : Nat} (h : n < 16) : hexValue (hexDigit n) = some n := by
  revert n
  decide

theorem codePointBytes_control {n : Nat} (h : n < 0x20) : codePointBytes n = [.ofNat n] := by
  revert n
  decide +kernel

theorem readChars_escape (byte : UInt8) : readChars (escape byte ++ rest) = prepend [byte] (readChars rest) := by
  unfold escape
  split
  next mark printed hfind =>
    obtain rfl : printed = byte := by simpa using find?_some hfind
    have hmem := mem_of_find?_eq_some hfind
    simp only [escapes, mem_cons, Prod.mk.injEq, not_mem_nil, or_false] at hmem
    rcases hmem with ⟨rfl, rfl⟩ | ⟨rfl, rfl⟩ | ⟨rfl, rfl⟩ | ⟨rfl, rfl⟩ | ⟨rfl, rfl⟩ | ⟨rfl, rfl⟩ | ⟨rfl, rfl⟩
    all_goals rfl
  next hfind =>
    split
    next hlt =>
      have hcontrol : byte.toNat < 0x20 := hlt
      have hunit : hexValue4 0x30 0x30 (hexDigit (byte.toNat / 16)) (hexDigit (byte.toNat % 16)) =
          some byte.toNat := by
        rw [hexValue4, hexValue_hexDigit (Nat.mod_lt _ (by decide)), hexValue_hexDigit (by omega)]
        simp [hexValue, isDigit, Nat.div_add_mod']
      have hplain : isHighSurrogate byte.toNat = false ∧ isLowSurrogate byte.toNat = false := by
        simp only [isHighSurrogate, isLowSurrogate, decide_eq_false_iff_not]
        omega
      simp [readChars, hunit, hplain, codePointBytes_control hcontrol]
    next hge =>
      have hquote : byte ≠ 0x22 ∧ byte ≠ 0x5C := by
        constructor <;> rintro rfl <;> cases hfind
      rw [cons_append, nil_append, readChars.eq_5 byte rest hquote.1 (fun _ _ _ _ _ h => (hquote.2 h).elim)
        fun _ _ h => (hquote.2 h).elim, if_neg hge]

theorem readString_text (s : String) : readString ((stringText s ++ rest).tail) = some (s, rest) := by
  have hchars : ∀ bytes : Bytes, readChars (bytes.flatMap escape ++ 0x22 :: rest) = some (bytes, rest) := by
    intro bytes
    induction bytes with
    | nil => rfl
    | cons byte bytes ih =>
      rw [flatMap_cons, append_assoc, readChars_escape, ih]
      rfl
  simp [stringText, readString, hchars]

/-! ## Tokens -/

inductive JsonToken where
  | openArray | closeArray | openObject | closeObject | colon | comma
  | null
  | bool (b : Bool)
  | number (n : JsonNumber)
  | string (s : String)

def isBlank (byte : UInt8) : Bool := byte = 0x20 || byte = 0x09 || byte = 0x0A || byte = 0x0D

/-- The tokens with one text: brackets, braces, colon, comma, `null`, `true` and `false`. -/
def fixedTokens : List (Bytes × JsonToken) :=
  [([0x5B], .openArray), ([0x5D], .closeArray), ([0x7B], .openObject), ([0x7D], .closeObject), ([0x3A], .colon),
   ([0x2C], .comma), ([0x6E, 0x75, 0x6C, 0x6C], .null), ([0x74, 0x72, 0x75, 0x65], .bool true),
   ([0x66, 0x61, 0x6C, 0x73, 0x65], .bool false)]

def nextToken (bytes : Bytes) : Option (JsonToken × Bytes) :=
  match bytes.dropWhile isBlank with
  | [] => none
  | byte :: bytes =>
    if byte = 0x22 then (readString bytes).map fun (s, rest) => (.string s, rest)
    else if byte = 0x2D ∨ isDigit byte then (readNumber (byte :: bytes)).map fun (n, rest) => (.number n, rest)
    else (fixedTokens.find? (·.1.isPrefixOf (byte :: bytes))).map fun (text, token) =>
      (token, (byte :: bytes).drop text.length)

theorem nextToken_string (s : String) : nextToken (stringText s ++ rest) = some (.string s, rest) := by
  show (readString ((stringText s ++ rest).tail)).map _ = _
  rw [readString_text]
  rfl

theorem nextToken_number {n : JsonNumber} (hn : n.InRange) (hrest : Ends rest) :
    nextToken (numberText n ++ rest) = some (.number n, rest) := by
  obtain ⟨byte, bytes, htext, hbyte⟩ := exists_numberText n
  have hother : ∀ other ∈ [0x20, 0x09, 0x0A, 0x0D, 0x22], ¬(other = 0x2D ∨ isDigit other) := by simp [isDigit]
  have hblank : isBlank byte = false := by
    simp only [isBlank, Bool.or_eq_false_iff, decide_eq_false_iff_not]
    refine ⟨⟨⟨?_, ?_⟩, ?_⟩, ?_⟩ <;> rintro rfl <;> exact hother _ (by simp) hbyte
  have hquote : byte ≠ 0x22 := by
    rintro rfl
    exact hother _ (by simp) hbyte
  rw [htext, cons_append, nextToken, dropWhile_cons_of_neg (by simp [hblank])]
  simp only
  rw [if_neg hquote, if_pos hbyte, ← cons_append, ← htext, readNumber_text hn hrest]
  rfl

/-! ## Documents -/

mutual

def text : Json → Bytes
  | .null => [0x6E, 0x75, 0x6C, 0x6C]
  | .bool true => [0x74, 0x72, 0x75, 0x65]
  | .bool false => [0x66, 0x61, 0x6C, 0x73, 0x65]
  | .number n => numberText n
  | .string s => stringText s
  | .array [] => [0x5B, 0x5D]
  | .array (element :: elements) => 0x5B :: (text element ++ moreElements elements)
  | .object [] => [0x7B, 0x7D]
  | .object ((name, value) :: fields) => 0x7B :: (stringText name ++ 0x3A :: (text value ++ moreFields fields))

def moreElements : List Json → Bytes
  | [] => [0x5D]
  | element :: elements => 0x2C :: (text element ++ moreElements elements)

def moreFields : List (String × Json) → Bytes
  | [] => [0x7D]
  | (name, value) :: fields => 0x2C :: (stringText name ++ 0x3A :: (text value ++ moreFields fields))

end

mutual

/-- Read a value; every token takes some of the fuel. -/
def readValue : Nat → Bytes → Option (Json × Bytes)
  | 0, _ => none
  | fuel + 1, bytes =>
    match nextToken bytes with
    | some (.null, bytes) => some (.null, bytes)
    | some (.bool b, bytes) => some (.bool b, bytes)
    | some (.number n, bytes) => some (.number n, bytes)
    | some (.string s, bytes) => some (.string s, bytes)
    | some (.openArray, bytes) =>
      match nextToken bytes with
      | some (.closeArray, bytes) => some (.array [], bytes)
      | _ => do
        let (element, bytes) ← readValue fuel bytes
        let (elements, bytes) ← readElements fuel bytes
        some (.array (element :: elements), bytes)
    | some (.openObject, bytes) =>
      match nextToken bytes with
      | some (.closeObject, bytes) => some (.object [], bytes)
      | _ => do
        let (field, bytes) ← readField fuel bytes
        let (fields, bytes) ← readFields fuel bytes
        some (.object (field :: fields), bytes)
    | _ => none

/-- The elements behind the first one. -/
def readElements : Nat → Bytes → Option (List Json × Bytes)
  | 0, _ => none
  | fuel + 1, bytes =>
    match nextToken bytes with
    | some (.closeArray, bytes) => some ([], bytes)
    | some (.comma, bytes) => do
      let (element, bytes) ← readValue fuel bytes
      let (elements, bytes) ← readElements fuel bytes
      some (element :: elements, bytes)
    | _ => none

def readField : Nat → Bytes → Option ((String × Json) × Bytes)
  | 0, _ => none
  | fuel + 1, bytes =>
    match nextToken bytes with
    | some (.string name, bytes) =>
      match nextToken bytes with
      | some (.colon, bytes) => (readValue fuel bytes).map fun (value, bytes) => ((name, value), bytes)
      | _ => none
    | _ => none

/-- The fields behind the first one. -/
def readFields : Nat → Bytes → Option (List (String × Json) × Bytes)
  | 0, _ => none
  | fuel + 1, bytes =>
    match nextToken bytes with
    | some (.closeObject, bytes) => some ([], bytes)
    | some (.comma, bytes) => do
      let (field, bytes) ← readField fuel bytes
      let (fields, bytes) ← readFields fuel bytes
      some (field :: fields, bytes)
    | _ => none

end

/-- Read a whole text. -/
def read (bytes : Bytes) : Option Json := do
  let (value, bytes) ← readValue (bytes.length + 1) bytes
  guard (bytes.dropWhile isBlank = [])
  some value

variable {names : List String → Prop}

theorem ends_moreElements (elements : List Json) (rest : Bytes) : Ends (moreElements elements ++ rest) := by
  cases elements <;> simp [moreElements, Ends]

theorem ends_moreFields (fields : List (String × Json)) (rest : Bytes) : Ends (moreFields fields ++ rest) := by
  cases fields <;> simp [moreFields, Ends]

/-- A value does not begin as an array ends. -/
theorem nextToken_text {value : Json} (hvalue : value.Checked names) (hrest : Ends rest) :
    ∃ token bytes, nextToken (text value ++ rest) = some (token, bytes) ∧ token ≠ .closeArray := by
  match value with
  | .null => exact ⟨.null, rest, rfl, nofun⟩
  | .bool true => exact ⟨.bool true, rest, rfl, nofun⟩
  | .bool false => exact ⟨.bool false, rest, rfl, nofun⟩
  | .number n => exact ⟨_, _, nextToken_number hvalue hrest, nofun⟩
  | .string s => exact ⟨_, _, nextToken_string s, nofun⟩
  | .array [] | .array (_ :: _) => exact ⟨.openArray, _, rfl, nofun⟩
  | .object [] | .object (_ :: _) => exact ⟨.openObject, _, rfl, nofun⟩

theorem length_moreElements_pos (elements : List Json) : 0 < (moreElements elements).length := by
  cases elements <;> simp [moreElements]

theorem length_moreFields_pos (fields : List (String × Json)) : 0 < (moreFields fields).length := by
  cases fields <;> simp [moreFields]

theorem readField_text (name : String) {value : Json} {fuel : Nat}
    (h : readValue fuel (text value ++ rest) = some (value, rest)) :
    readField (fuel + 1) (stringText name ++ 0x3A :: (text value ++ rest)) = some ((name, value), rest) := by
  have hcolon : nextToken (0x3A :: (text value ++ rest)) = some (.colon, text value ++ rest) := rfl
  simp only [readField, nextToken_string, hcolon, h]
  rfl

mutual

/-- The text of a value is read back, whatever follows it. -/
theorem readValue_text {value : Json} (fuel : Nat) (rest : Bytes) (hvalue : value.Checked names)
    (hfuel : (text value).length ≤ fuel) (hrest : Ends rest) :
    readValue (fuel + 1) (text value ++ rest) = some (value, rest) := by
  match value with
  | .null | .bool true | .bool false | .array [] | .object [] => rfl
  | .number n => rw [readValue, text, nextToken_number hvalue hrest]
  | .string s => rw [readValue, text, nextToken_string s]
  | .array (element :: elements) =>
    have hmore := length_moreElements_pos elements
    rw [text, length_cons, length_append] at hfuel
    obtain ⟨fuel, rfl⟩ := Nat.exists_eq_add_of_le' (show 1 ≤ fuel by omega)
    have hends := ends_moreElements elements rest
    have helement := readValue_text fuel _ hvalue.1 (by omega) hends
    have helements := readElements_more fuel rest hvalue.2 (by omega)
    have hopen : nextToken (text (.array (element :: elements)) ++ rest) =
        some (.openArray, text element ++ (moreElements elements ++ rest)) := by
      rw [text, cons_append, append_assoc]
      rfl
    -- the first token behind the bracket is that of the first element
    obtain ⟨token, bytes, htoken, hne⟩ := nextToken_text hvalue.1 hends
    rw [readValue, hopen]
    simp only [htoken]
    split
    next heq => exact (hne (Prod.mk.inj (Option.some.inj heq)).1).elim
    next => simp [helement, helements]
  | .object ((name, value) :: fields) =>
    have hmore := length_moreFields_pos fields
    rw [text, length_cons, length_append, length_cons, length_append] at hfuel
    obtain ⟨fuel, rfl⟩ := Nat.exists_eq_add_of_le' (show 2 ≤ fuel by omega)
    have hfield := readField_text name (readValue_text fuel (moreFields fields ++ rest)
      hvalue.2.1 (by omega) (ends_moreFields fields rest))
    have hfields := readFields_more (fuel + 1) rest hvalue.2.2 (by omega)
    have hopen : nextToken (text (.object ((name, value) :: fields)) ++ rest) =
        some (.openObject, stringText name ++ 0x3A :: (text value ++ (moreFields fields ++ rest))) := by
      rw [text, cons_append, append_assoc, cons_append, append_assoc]
      rfl
    rw [readValue, hopen]
    simp [nextToken_string, hfield, hfields]

theorem readElements_more {elements : List Json} (fuel : Nat) (rest : Bytes)
    (helements : Json.CheckedElements names elements) (hfuel : (moreElements elements).length ≤ fuel) :
    readElements (fuel + 1) (moreElements elements ++ rest) = some (elements, rest) := by
  match elements with
  | [] => rfl
  | element :: elements =>
    have hmore := length_moreElements_pos elements
    rw [moreElements, length_cons, length_append] at hfuel
    obtain ⟨fuel, rfl⟩ := Nat.exists_eq_add_of_le' (show 1 ≤ fuel by omega)
    have helement := readValue_text fuel (moreElements elements ++ rest) helements.1 (by omega)
      (ends_moreElements elements rest)
    have hrest := readElements_more fuel rest helements.2 (by omega)
    have hcomma : nextToken (moreElements (element :: elements) ++ rest) =
        some (.comma, text element ++ (moreElements elements ++ rest)) := by
      rw [moreElements, cons_append, append_assoc]
      rfl
    rw [readElements, hcomma]
    simp [helement, hrest]

theorem readFields_more {fields : List (String × Json)} (fuel : Nat) (rest : Bytes)
    (hfields : Json.CheckedFields names fields) (hfuel : (moreFields fields).length ≤ fuel) :
    readFields (fuel + 1) (moreFields fields ++ rest) = some (fields, rest) := by
  match fields with
  | [] => rfl
  | (name, value) :: fields =>
    have hmore := length_moreFields_pos fields
    rw [moreFields, length_cons, length_append, length_cons, length_append] at hfuel
    obtain ⟨fuel, rfl⟩ := Nat.exists_eq_add_of_le' (show 2 ≤ fuel by omega)
    have hfield := readField_text name (readValue_text fuel (moreFields fields ++ rest)
      hfields.1 (by omega) (ends_moreFields fields rest))
    have hrest := readFields_more (fuel + 1) rest hfields.2 (by omega)
    have hcomma : nextToken (moreFields ((name, value) :: fields) ++ rest) =
        some (.comma, stringText name ++ 0x3A :: (text value ++ (moreFields fields ++ rest))) := by
      rw [moreFields, cons_append, append_assoc, cons_append, append_assoc]
      rfl
    rw [readFields, hcomma]
    simp [hfield, hrest]

end

theorem read_text {value : Json} (hvalue : value.Checked names) : read (text value) = some value := by
  have h := readValue_text _ [] hvalue (Nat.le_refl _) trivial
  rw [append_nil] at h
  simp [read, h]

end JsonText

/-- JSON text, read up to the recursion limit. -/
def JsonFormat.text : JsonFormat where
  toVec := JsonText.text
  fromSlice bytes := (JsonText.read bytes).filter (·.depth < jsonRecursionLimit)
  reparse := id

theorem JsonFormat.text_documented : text.Documented where
  fromSlice_toVec value hvalue := by
    simp only [text, JsonText.read_text hvalue, Json.mapFloats_id]
    rw [Option.filter_some]
    simp

end Strata.Engine
