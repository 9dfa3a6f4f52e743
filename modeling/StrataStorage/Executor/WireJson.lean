import StrataStorage.Row
import StrataStorage.Lib.Decimal

/-!
# The integers of a JSON text

The guard of `executor/wire_json.rs` scans a JSON text byte by byte and refuses an integer
that neither `i64` nor `u64` holds. The tokens it reads are the numbers of the JSON grammar
(`Derives.scan_append`), so it refuses just the texts with such a number.
-/

namespace Strata.Executor

open List

inductive ExecutorError
  | invalidInput (code message : String)

def parsesDigits (low high sign : Int) (digits : Bytes) : Bool :=
  digits ≠ [] ∧ digits.all isDigit ∧ low ≤ sign * decimal digits ∧ sign * decimal digits ≤ high

/-- Whether `from_str` of an integer type with these bounds succeeds; unsigned types take no minus. -/
def parses (low high : Int) : Bytes → Bool
  | 0x2B :: digits => parsesDigits low high 1 digits
  | 0x2D :: digits => low < 0 && parsesDigits low high (-1) digits
  | digits => parsesDigits low high 1 digits

/-- A point or the mark of an exponent. -/
def isFloatByte (byte : UInt8) : Bool := byte = 0x2E || byte = 0x65 || byte = 0x45

/-- The bytes that go on a token. -/
def isTokenByte (byte : UInt8) : Bool := isDigit byte || byte = 0x2B || byte = 0x2D || isFloatByte byte

/-- An integer token that is neither an `i64` nor a `u64`. -/
def unrepresentable (token : Bytes) : Bool :=
  !token.any isFloatByte && !parses (-2 ^ 63) (2 ^ 63 - 1) token && !parses 0 (2 ^ 64 - 1) token

/-- The loop, in or out of a string. -/
def scan : Bool → Bytes → Bool
  | _, [] => false
  | true, byte :: bytes => if byte = 0x5C then scan true (bytes.drop 1) else scan (byte ≠ 0x22) bytes
  | false, byte :: bytes =>
    if byte = 0x22 then scan true bytes
    else if byte = 0x2D ∨ isDigit byte then
      unrepresentable (byte :: bytes.takeWhile isTokenByte) || scan false (bytes.dropWhile isTokenByte)
    else scan false bytes
termination_by _ bytes => bytes.length
decreasing_by
  all_goals simp only [length_cons, length_drop]
  all_goals first | omega | exact Nat.lt_succ_of_le (dropWhile_suffix _).length_le

def hasUnrepresentableInteger (text : Bytes) : Bool := scan false text

def guardJsonIntegers (json : Bytes) : Except ExecutorError Unit :=
  if hasUnrepresentableInteger json then
    .error (.invalidInput "invalid_argument.executor.json_number"
      "a JSON integer is outside the supported i64/u64 range")
  else .ok ()

/-! ## JSON texts -/

def IsDigits (bytes : Bytes) : Prop := bytes ≠ [] ∧ ∀ byte ∈ bytes, isDigit byte

instance (bytes : Bytes) : Decidable (IsDigits bytes) :=
  @instDecidableAnd _ _ inferInstance (decidableBAll _ bytes)

/-- Nothing, or digits behind a mark. -/
def IsPart (marks : List Bytes) (part : Bytes) : Prop :=
  part = [] ∨ ∃ mark ∈ marks, ∃ digits, IsDigits digits ∧ part = mark ++ digits

/-- A number of the grammar; no zero stands in front of other digits. -/
structure NumberToken where
  negative : Bool
  digits : Bytes
  fraction : Bytes
  exponent : Bytes
  isDigits : IsDigits digits
  leading : digits.head? = some 0x30 → digits.length = 1
  isFraction : IsPart [[0x2E]] fraction
  isExponent : IsPart [[0x65], [0x65, 0x2B], [0x65, 0x2D], [0x45], [0x45, 0x2B], [0x45, 0x2D]] exponent

namespace NumberToken

variable (n : NumberToken)

def suffix : Bytes := n.fraction ++ n.exponent

def bytes : Bytes := (if n.negative then [0x2D] else []) ++ n.digits ++ n.suffix

/-- The integer that a token without fraction and exponent denotes. -/
def value : Int := if n.negative then -decimal n.digits else decimal n.digits

end NumberToken

def IsBlank (bytes : Bytes) : Prop := ∀ byte ∈ bytes, byte ∈ [0x20, 0x09, 0x0A, 0x0D]

instance (bytes : Bytes) : Decidable (IsBlank bytes) := decidableBAll _ bytes

/-- What may stand between the quotes of a string. -/
inductive IsChars : Bytes → Prop
  | nil : IsChars []
  | plain {byte text} (hbyte : 0x20 ≤ byte ∧ byte ≠ 0x22 ∧ byte ≠ 0x5C) (h : IsChars text) : IsChars (byte :: text)
  | escape {byte text} (hbyte : byte ∈ [0x22, 0x5C, 0x2F, 0x62, 0x66, 0x6E, 0x72, 0x74]) (h : IsChars text) :
    IsChars (0x5C :: byte :: text)
  | unicode {digits text} (hlength : digits.length = 4) (hdigits : ∀ digit ∈ digits, isDigit digit ∨
      0x41 ≤ digit ∧ digit ≤ 0x46 ∨ 0x61 ≤ digit ∧ digit ≤ 0x66) (h : IsChars text) :
    IsChars (0x5C :: 0x75 :: (digits ++ text))

def IsString (bytes : Bytes) : Prop := ∃ chars, IsChars chars ∧ bytes = 0x22 :: (chars ++ [0x22])

/-- The symbols of the grammar; items may be none, a list has at least one. -/
inductive JsonSymbol
  | value | element | member | items (item : JsonSymbol) | list (item : JsonSymbol)

/-- The JSON grammar, with the numbers of a text. -/
inductive Derives : JsonSymbol → Bytes → List NumberToken → Prop
  | word {word} (h : word ∈ ["true", "false", "null"]) : Derives .value (utf8Bytes word) []
  | number (n : NumberToken) : Derives .value n.bytes [n]
  | string {text} (h : IsString text) : Derives .value text []
  | array {text ns} (h : Derives (.items .element) text ns) : Derives .value (0x5B :: (text ++ [0x5D])) ns
  | object {text ns} (h : Derives (.items .member) text ns) : Derives .value (0x7B :: (text ++ [0x7D])) ns
  | element {left text right ns} (hleft : IsBlank left) (h : Derives .value text ns) (hright : IsBlank right) :
    Derives .element (left ++ text ++ right) ns
  | member {left key right text ns} (hleft : IsBlank left) (hkey : IsString key) (hright : IsBlank right)
    (h : Derives .element text ns) : Derives .member (left ++ key ++ right ++ 0x3A :: text) ns
  | none {item text} (h : IsBlank text) : Derives (.items item) text []
  | some {item text ns} (h : Derives (.list item) text ns) : Derives (.items item) text ns
  | one {item text ns} (h : Derives item text ns) : Derives (.list item) text ns
  | more {item text ns text' ns'} (h : Derives item text ns) (h' : Derives (.list item) text' ns') :
    Derives (.list item) (text ++ 0x2C :: text') (ns ++ ns')

structure JsonText where
  bytes : Bytes
  numbers : List NumberToken
  derives : Derives .element bytes numbers

/-! ## The scan of a JSON text -/

variable {text rest : Bytes} {n : NumberToken} {byte : UInt8} {s : Bool}

/-- No token goes on into the rest. -/
def Ends : Bytes → Bool
  | [] => true
  | byte :: _ => !isTokenByte byte

/-- Bytes that the loop passes over one by one. -/
theorem scan_append (h : ∀ byte ∈ text, ∀ rest, scan s (byte :: rest) = scan s rest) :
    scan s (text ++ rest) = scan s rest := by
  induction text with
  | nil => rfl
  | cons byte text ih =>
    obtain ⟨hbyte, h⟩ := forall_mem_cons.mp h
    rw [cons_append, hbyte, ih h]

theorem IsBlank.scan (h : IsBlank text) : scan false (text ++ rest) = scan false rest := by
  have hblank : ∀ byte ∈ [0x20, 0x09, 0x0A, 0x0D], byte ≠ 0x22 ∧ byte ≠ 0x2D ∧ isDigit byte = false := by
    simp [isDigit]
  exact scan_append fun byte hbyte rest => by simp [Executor.scan, hblank byte (h byte hbyte)]

theorem IsBlank.ends (h : IsBlank text) (hrest : Ends rest) : Ends (text ++ rest) := by
  cases text with
  | nil => exact hrest
  | cons byte text =>
    have hblank : ∀ byte ∈ [0x20, 0x09, 0x0A, 0x0D], !isTokenByte byte := by
      simp [isTokenByte, isFloatByte, isDigit]
    exact hblank byte (h byte mem_cons_self)

theorem IsString.scan (h : IsString text) : scan false (text ++ rest) = scan false rest := by
  obtain ⟨chars, hchars, rfl⟩ := h
  rw [cons_append, Executor.scan, if_pos rfl, append_assoc, singleton_append]
  induction hchars with
  | nil => simp [Executor.scan]
  | plain hbyte h ih => simp [Executor.scan, hbyte, ih]
  | escape hbyte h ih => simp [Executor.scan, ih]
  | unicode hlength hdigits h ih =>
    rw [cons_append, Executor.scan, if_pos rfl, cons_append, drop_one, tail_cons, append_assoc, scan_append, ih]
    intro digit hdigit rest
    have hdigit := hdigits digit hdigit
    have hne : digit ≠ 0x22 ∧ digit ≠ 0x5C := by grind [isDigit]
    simp [Executor.scan, hne]

theorem scan_token (hbyte : byte = 0x2D ∨ isDigit byte) (htext : ∀ byte ∈ text, isTokenByte byte)
    (hrest : Ends rest) : scan false (byte :: text ++ rest) = (unrepresentable (byte :: text) || scan false rest) := by
  have hquote : byte ≠ 0x22 := by grind [isDigit]
  have hstop : rest.takeWhile isTokenByte = [] ∧ rest.dropWhile isTokenByte = rest := by
    cases rest with
    | nil => simp
    | cons byte rest => simp_all [Ends]
  rw [cons_append, scan, if_neg hquote, if_pos hbyte, takeWhile_append_of_pos htext,
    dropWhile_append_of_pos htext, hstop.1, hstop.2, append_nil]

theorem IsPart.spec {marks : List Bytes} (h : IsPart marks text)
    (hmarks : ∀ mark ∈ marks, (∀ byte ∈ mark, isTokenByte byte) ∧ mark.any isFloatByte) :
    (∀ byte ∈ text, isTokenByte byte) ∧ (text.any isFloatByte = false ↔ text = []) := by
  obtain rfl | ⟨mark, hmark, digits, hdigits, rfl⟩ := h
  · simp
  · obtain ⟨htoken, hfloat⟩ := hmarks mark hmark
    exact ⟨forall_mem_append.mpr ⟨htoken, fun byte h => by simp [isTokenByte, hdigits.2 byte h]⟩,
      by simp [any_append, hfloat, hdigits.1]⟩

namespace NumberToken

theorem suffix_spec : (∀ byte ∈ n.suffix, isTokenByte byte) ∧ (n.suffix.any isFloatByte = false ↔ n.suffix = []) := by
  have hfraction := n.isFraction.spec (by simp [isTokenByte, isFloatByte])
  have hexponent := n.isExponent.spec (by simp [isTokenByte, isFloatByte])
  rw [suffix, any_append, Bool.or_eq_false_iff, hfraction.2, hexponent.2, append_eq_nil_iff]
  exact ⟨fun byte hbyte => (mem_append.mp hbyte).elim (hfraction.1 byte) (hexponent.1 byte), .rfl⟩

theorem unrepresentable_bytes :
    unrepresentable n.bytes ↔ n.suffix = [] ∧ ¬(-2 ^ 63 ≤ n.value ∧ n.value ≤ 2 ^ 64 - 1) := by
  obtain ⟨hne, hdigits⟩ := n.isDigits
  have hall : n.digits.all isDigit := all_eq_true.mpr hdigits
  have hint : n.digits.any isFloatByte = false := by
    grind [isFloatByte, isDigit]
  have hfloat : n.bytes.any isFloatByte = false ↔ n.suffix = [] := by
    rw [← n.suffix_spec.2, bytes, any_append, any_append, hint]
    cases n.negative <;> rfl
  simp only [unrepresentable, Bool.and_eq_true, Bool.not_eq_true', hfloat, and_assoc]
  refine and_congr_right fun hsuffix => ?_
  rw [bytes, hsuffix, append_nil, value]
  cases n.negative with
  | true => simp [parses, parsesDigits, hne, hall]
  | false =>
    have hsign (byte : UInt8) (digits : Bytes) (hbyte : ¬isDigit byte) : n.digits ≠ byte :: digits := fun h =>
      hbyte (hdigits byte (h ▸ mem_cons_self))
    simp [parses.eq_3 _ _ _ (hsign _ · (by decide)) (hsign _ · (by decide)), parsesDigits, hne, hall]
    omega

/-- A number is one token of the loop. -/
theorem scan_bytes (hrest : Ends rest) :
    scan false (n.bytes ++ rest) = (unrepresentable n.bytes || scan false rest) := by
  obtain ⟨digit, digits, hcons⟩ := exists_cons_of_ne_nil n.isDigits.1
  have hdigits : ∀ byte ∈ digit :: digits, isDigit byte := hcons ▸ n.isDigits.2
  have htail : ∀ byte ∈ digit :: digits ++ n.suffix, isTokenByte byte :=
    forall_mem_append.mpr ⟨fun byte h => by simp [isTokenByte, hdigits byte h], n.suffix_spec.1⟩
  rw [bytes, hcons]
  cases n.negative with
  | true => exact scan_token (.inl rfl) htail hrest
  | false => exact scan_token (.inr (hdigits digit mem_cons_self)) (forall_mem_cons.mp htail).2 hrest

end NumberToken

/-- The numbers of a text are the tokens of the loop, when the last one ends with the text. -/
theorem Derives.scan_append {symbol : JsonSymbol} {ns : List NumberToken} (h : Derives symbol text ns)
    (rest : Bytes) (hrest : Ends rest) :
    scan false (text ++ rest) = (ns.any (unrepresentable ·.bytes) || scan false rest) := by
  -- a part ends at a bracket, a comma or a blank, or where the whole does
  induction h generalizing rest with
  | word h =>
    have hword : ∀ word ∈ ["true", "false", "null"], (utf8Bytes word).all fun byte =>
        byte ≠ 0x22 ∧ byte ≠ 0x2D ∧ ¬isDigit byte := by decide
    have hbytes := all_eq_true.mp (hword _ h)
    rw [Executor.scan_append fun byte hbyte rest => by simp [scan, of_decide_eq_true (hbytes byte hbyte)]]
    rfl
  | number n => simp [n.scan_bytes hrest]
  | string h => simp [h.scan]
  | array h ih => simp [scan, isDigit, ih (0x5D :: _) rfl]
  | object h ih => simp [scan, isDigit, ih (0x7D :: _) rfl]
  | element hleft h hright ih => simp [hleft.scan, ih _ (hright.ends hrest), hright.scan]
  | member hleft hkey hright h ih => simp [hleft.scan, hkey.scan, hright.scan, scan, isDigit, ih _ hrest]
  | none h => simp [h.scan]
  | some h ih | one h ih => exact ih _ hrest
  | more h h' ih ih' => simp [ih (0x2C :: _) rfl, scan, isDigit, ih' _ hrest, Bool.or_assoc]

/-- Whatever stands in strings and keys, `json.numbers` has none of it. -/
theorem guardJsonIntegers_exact (json : JsonText) : guardJsonIntegers json.bytes = .ok () ↔
    ∀ n ∈ json.numbers, n.suffix = [] → -2 ^ 63 ≤ n.value ∧ n.value ≤ 2 ^ 64 - 1 := by
  have hscan := json.derives.scan_append [] rfl
  rw [append_nil] at hscan
  simp [guardJsonIntegers, hasUnrepresentableInteger, hscan, scan, NumberToken.unrepresentable_bytes]

namespace Sample

theorem isChars_nines (n : Nat) : IsChars (replicate n 0x39) := by
  induction n with
  | zero => exact .nil
  | succ n ih => exact .plain (by decide) ih

/-- A quote, a letter by its number, a blank and twenty nines, all between quotes. -/
def key : Bytes := [0x22, 0x5C, 0x22, 0x5C, 0x75, 0x30, 0x30, 0x65, 0x39, 0x20] ++ replicate 20 0x39 ++ [0x22]

theorem isString_key : IsString key :=
  ⟨_, .escape (by decide) (@IsChars.unicode [0x30, 0x30, 0x65, 0x39] _ rfl (by simp [isDigit])
    (.plain (by decide) (isChars_nines 20))), rfl⟩

/-- `-0.5e3`. -/
def half : NumberToken where
  negative := true
  digits := [0x30]
  fraction := [0x2E, 0x35]
  exponent := [0x65, 0x33]
  isDigits := by decide
  leading := fun _ => rfl
  isFraction := .inr ⟨_, mem_cons_self, [0x35], by decide, rfl⟩
  isExponent := .inr ⟨_, mem_cons_self, [0x33], by decide, rfl⟩

/-- The integer `1844674407370955161` and one more digit. -/
def integer (digit : UInt8) (h : isDigit digit) : NumberToken where
  negative := false
  digits := [0x31, 0x38, 0x34, 0x34, 0x36, 0x37, 0x34, 0x34, 0x30, 0x37, 0x33, 0x37, 0x30, 0x39, 0x35,
    0x35, 0x31, 0x36, 0x31, digit]
  fraction := []
  exponent := []
  isDigits := ⟨nofun, by simpa [isDigit] using h⟩
  leading := nofun
  isFraction := .inl rfl
  isExponent := .inl rfl

/-- An object with an array under that key: a blank before it, the number and `-0.5e3` in it. -/
def nested (n : NumberToken) : JsonText where
  bytes := [0x20, 0x7B] ++ key ++ [0x20, 0x3A, 0x5B] ++ n.bytes ++ [0x0A, 0x2C] ++ half.bytes ++ [0x5D, 0x7D]
  numbers := [n, half]
  derives := by
    have hnumber : Derives .element ([] ++ n.bytes ++ [0x0A]) [n] := .element nofun (.number n) (by decide)
    have hhalf : Derives .element ([] ++ half.bytes ++ []) [half] := .element nofun (.number half) nofun
    have harray : Derives .element
        ([] ++ 0x5B :: (([] ++ n.bytes ++ [0x0A]) ++ 0x2C :: ([] ++ half.bytes ++ []) ++ [0x5D]) ++ [])
        ([n] ++ [half]) :=
      .element nofun (.array (.some (.more hnumber (.one hhalf)))) nofun
    have hmember : Derives .member ([] ++ key ++ [0x20] ++ 0x3A :: _) ([n] ++ [half]) :=
      .member nofun isString_key (by decide) harray
    have hobject : Derives .element ([0x20] ++ _ ++ []) ([n] ++ [half]) :=
      .element (by decide) (.object (.some (.one hmember))) nofun
    simpa using hobject

/-- `2 ^ 64 - 1` is accepted and `2 ^ 64` is not; the nines of the key do not count. -/
theorem guardJsonIntegers_nested : guardJsonIntegers (nested (integer 0x35 rfl)).bytes = .ok () ∧
    guardJsonIntegers (nested (integer 0x36 rfl)).bytes ≠ .ok () := by
  rw [guardJsonIntegers_exact, ne_eq, guardJsonIntegers_exact]
  decide

end Sample

end Strata.Executor
