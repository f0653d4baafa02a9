import Mathlib.Data.List.DropRight
import Mathlib.Data.Nat.Digits.Defs
import Saliwen.CJson.Parse

/-!
# The cJSON printer

`cJSON_Print` and `cJSON_PrintUnformatted`. A value is printed behind the text so far, so that
the printers give the bytes that they add to the buffer. The buffer grows as needed: an
allocation that fails is left out. A printer that fails for another reason gives nothing.
-/

namespace Saliwen.CJson

/-! ## Strings -/

/-- The bytes that a character of a string takes beyond one, in the first loop of
`print_string_ptr`. -/
def escapeCharacters (c : UInt8) : ℕ :=
  if c = ascii '"' ∨ c = ascii '\\' ∨ c = 8 ∨ c = 12 ∨ c = 10 ∨ c = 13 ∨ c = 9 then 1
  else if c < 32 then 5
  else 0

/-- A hexadecimal digit as `%x` prints it. -/
def hexChar (d : ℕ) : UInt8 := UInt8.ofNat (if d < 10 then 48 + d else 87 + d)

/-- A character of a string in the second loop of `print_string_ptr`. -/
def printCharacter (c : UInt8) : Bytes :=
  if 31 < c ∧ c ≠ ascii '"' ∧ c ≠ ascii '\\' then [c]
  else if c = ascii '\\' then [ascii '\\', ascii '\\']
  else if c = ascii '"' then [ascii '\\', ascii '"']
  else if c = 8 then [ascii '\\', ascii 'b']
  else if c = 12 then [ascii '\\', ascii 'f']
  else if c = 10 then [ascii '\\', ascii 'n']
  else if c = 13 then [ascii '\\', ascii 'r']
  else if c = 9 then [ascii '\\', ascii 't']
  else [ascii '\\', ascii 'u', hexChar 0, hexChar 0, hexChar (c.toNat / 16), hexChar (c.toNat % 16)]

/-- `print_string_ptr`. The closing quote is put where the lengths of the first loop say. -/
def printStringPtr : Option Bytes → Bytes
  | none => [ascii '"', ascii '"']
  | some input =>
    let input := cString input
    let outputLength := input.length + (input.map escapeCharacters).sum
    if (input.map escapeCharacters).sum = 0 then ascii '"' :: input ++ [ascii '"']
    else ascii '"' :: (input.flatMap printCharacter).take outputLength ++ [ascii '"']

/-! ## Numbers -/

def digitChar (d : ℕ) : UInt8 := UInt8.ofNat (48 + d)

/-- A natural number as `%d` prints it. -/
def decimal (n : ℕ) : Bytes :=
  if n = 0 then [digitChar 0] else (Nat.digits 10 n).reverse.map digitChar

/-- An integer as `%d` prints it. -/
def printInt (n : ℤ) : Bytes := if n < 0 then ascii '-' :: decimal n.natAbs else decimal n.natAbs

/-- The digits and the exponent of a positive number with that many digits, as the style `e` of
`printf` rounds it. -/
def scientific (precision : ℕ) (x : ℚ) : ℕ × ℤ :=
  let e := Int.log 10 x
  let digits := (roundHalfEven (x / 10 ^ (e + 1 - precision))).toNat
  if digits = 10 ^ precision then (10 ^ (precision - 1), e + 1) else (digits, e)

/-- The digits behind the point without the zeros at their end, and the point unless nothing is
left of them. -/
def fractionPart (digits : Bytes) : Bytes :=
  let digits := digits.rdropWhile (· = ascii '0')
  if digits = [] then [] else ascii '.' :: digits

/-- The exponent with its sign and at least two digits. -/
def exponentText (e : ℤ) : Bytes :=
  ascii 'e' :: (if e < 0 then ascii '-' else ascii '+') ::
    (if e.natAbs < 10 then digitChar 0 :: decimal e.natAbs else decimal e.natAbs)

/-- The magnitude of a number as `%g` prints it. -/
def formatMagnitude (precision : ℕ) (x : ℚ) : Bytes :=
  let (digits, e) := scientific precision x
  let digits := decimal digits
  if -4 ≤ e ∧ e < precision then
    if e < 0 then
      digitChar 0 :: fractionPart (List.replicate (-e - 1).toNat (digitChar 0) ++ digits)
    else digits.take (e + 1).toNat ++ fractionPart (digits.drop (e + 1).toNat)
  else digits.take 1 ++ fractionPart (digits.drop 1) ++ exponentText e

/-- The conversion `%1.*g` of `printf`. -/
def formatG (precision : ℕ) (x : ℚ) : Bytes :=
  if x < 0 then ascii '-' :: formatMagnitude precision |x| else formatMagnitude precision |x|

/-- `compare_double`, with `DBL_EPSILON`. A difference or a bound that is infinite compares as
such, and the difference of equal infinities is no number. -/
def compareDouble : Number → Number → Bool
  | .finite a, .finite b =>
    binary64.round |a - b| ≤ binary64.round (max |a| |b| * 2 ^ (-52 : ℤ))
  | .infinite a, .infinite b => a ≠ b
  | _, _ => true

/-- The text of a finite number that is no `int`. -/
def printDouble (x : ℚ) : Bytes :=
  let text := formatG 15 x
  match strtod text with
  | some (test, _) => if compareDouble test (.finite x) then text else formatG 17 x
  | none => formatG 17 x

/-- `print_number`. The buffer for the text has 26 bytes. -/
def printNumber (d : Number) : Option Bytes :=
  let text :=
    match d with
    | .infinite _ => literal "null"
    | .finite x => if x = d.valueint then printInt d.valueint else printDouble x
  if 25 < text.length then none else some text

/-! ## Values -/

/-- The bytes that only `cJSON_Print` adds. -/
def layout (format : Bool) (bytes : Bytes) : Bytes := if format then bytes else []

/-- The tabulators at the beginning of a line. -/
def indent (depth : ℕ) : Bytes := List.replicate depth (ascii '\t')

mutual

/-- `print_value`, `print_array` and `print_object`. -/
def printValue (format : Bool) (depth : ℕ) : Json → Option Bytes
  | .null => some (literal "null")
  | .bool b => some (if b then literal "true" else literal "false")
  | .number d => printNumber d
  | .string valuestring => some (printStringPtr (some valuestring))
  | .array child => do
    let elements ← printElements format (depth + 1) child
    some (ascii '[' :: elements ++ [ascii ']'])
  | .object child => do
    let members ← printMembers format (depth + 1) child
    some (ascii '\x7b' :: layout format [ascii '\n'] ++ members ++
      layout format (indent depth) ++ [ascii '\x7d'])

/-- The loop of `print_array`. -/
def printElements (format : Bool) (depth : ℕ) : List (Option Bytes × Json) → Option Bytes
  | [] => some []
  | (_, value) :: next => do
    let value ← printValue format depth value
    let elements ← printElements format depth next
    some (value ++ (if next = [] then [] else ascii ',' :: layout format [ascii ' ']) ++ elements)

/-- The loop of `print_object`. -/
def printMembers (format : Bool) (depth : ℕ) : List (Option Bytes × Json) → Option Bytes
  | [] => some []
  | (string, value) :: next => do
    let value ← printValue format depth value
    let members ← printMembers format depth next
    some (layout format (indent depth) ++ printStringPtr string ++
      ascii ':' :: layout format [ascii '\t'] ++ value ++
      (if next = [] then [] else [ascii ',']) ++ layout format [ascii '\n'] ++ members)

end

/-- `cJSON_Print` and `cJSON_PrintUnformatted`. -/
def cJSONPrint (format : Bool) (item : Json) : Option Bytes := printValue format 0 item

end Saliwen.CJson
