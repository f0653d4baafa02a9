import Saliwen.Lib.Rounding

/-!
# cJSON values

The part of the cJSON item tree that the command handler reads: the type of an item, its
string or number, and its list of children with their names. Text is a list of bytes, and
strings compare as C strings do, up to the first NUL.
-/

namespace Saliwen.CJson

/-- Text as the library sees it. -/
abbrev Bytes := List UInt8

/-- The byte of an ASCII character. -/
def ascii (c : Char) : UInt8 := UInt8.ofNat c.toNat

/-- The bytes of a string literal. -/
def literal (s : String) : Bytes := s.toList.map ascii

/-- The C string at the beginning of a buffer: the bytes before the first NUL. -/
def cString (buf : Bytes) : Bytes := buf.takeWhile (· ≠ 0)

/-- `tolower` on a byte, in the C locale. -/
def tolower (c : UInt8) : UInt8 := if ascii 'A' ≤ c ∧ c ≤ ascii 'Z' then c + 32 else c

/-- A `double` or `float` that is not a NaN: finite, or an infinity with its sign. -/
inductive Number where
  | finite (x : ℚ)
  | infinite (negative : Bool)
  deriving DecidableEq, Repr

/-- Rounding to a format whose finite values are below `2 ^ maxExponent`. -/
def Number.ofRat (f : FloatFormat) (maxExponent : ℕ) (x : ℚ) : Number :=
  if 2 ^ maxExponent ≤ |f.round x| then .infinite (x < 0) else .finite (f.round x)

/-- The conversion `(float) x` of a `double`. -/
def Number.toFloat : Number → Number
  | .finite x => Number.ofRat binary32 128 x
  | .infinite negative => .infinite negative

/-- The `valueint` that `parse_number` stores beside a number: saturated, else truncated
toward zero. -/
def Number.valueint : Number → ℤ
  | .infinite false => 2 ^ 31 - 1
  | .infinite true => -2 ^ 31
  | .finite x =>
    if 2 ^ 31 - 1 ≤ x then 2 ^ 31 - 1
    else if x ≤ -2 ^ 31 then -2 ^ 31
    else if 0 ≤ x then ⌊x⌋ else ⌈x⌉

/-- A cJSON item with its children. A child of an object carries its name in `string`; the
children of an array have none. -/
inductive Json where
  | null
  | bool (b : Bool)
  | number (valuedouble : Number)
  | string (valuestring : Bytes)
  | array (child : List (Option Bytes × Json))
  | object (child : List (Option Bytes × Json))

/-- The list of children, empty for an item that is no container. -/
def Json.child : Json → List (Option Bytes × Json)
  | .array child | .object child => child
  | _ => []

/-- `strcmp(s, t) == 0` for a stored string and a literal without NUL. -/
def strcmpEq (s t : Bytes) : Bool := cString s = t

/-- `case_insensitive_strcmp(name, string) == 0`; a missing name equals nothing. -/
def caseInsensitiveEq (name : Bytes) : Option Bytes → Bool
  | none => false
  | some string => (cString string).map tolower = name.map tolower

/-- `cJSON_GetObjectItem`: the first child of that name, up to case. -/
def Json.getObjectItem (object : Json) (name : String) : Option Json :=
  (object.child.find? fun item => caseInsensitiveEq (literal name) item.1).map Prod.snd

/-- `cJSON_IsString(item) && strcmp(item->valuestring, text) == 0`. -/
def isStringEq (item : Option Json) (text : String) : Bool :=
  match item with
  | some (.string valuestring) => strcmpEq valuestring (literal text)
  | _ => false

/-- The number of an item for which `cJSON_IsNumber` holds. -/
def numberOf : Option Json → Option Number
  | some (.number valuedouble) => some valuedouble
  | _ => none

/-- An item is equal to at most one text. -/
theorem isStringEq_unique {item : Option Json} {text text' : String}
    (h : isStringEq item text = true) (h' : isStringEq item text' = true) :
    literal text = literal text' := by
  unfold isStringEq at h h'
  split at h
  · simp only [strcmpEq, decide_eq_true_eq] at h h'
    rw [← h, h']
  · cases h

end Saliwen.CJson
