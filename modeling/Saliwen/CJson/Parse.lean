import Saliwen.CJson.Value

/-!
# The cJSON parser

`cJSON_Parse` reads a NUL-terminated text, parses the first value and ignores what
follows. The parsers take the bytes between the current offset and the terminator and
return the parsed item with the bytes behind it. The terminator itself matches nothing:
every test at the end of the text fails, as it does on the NUL byte in the source.

Arrays and objects call the value parser on their elements, so the parsers carry a fuel
argument. `cJSONParse` supplies enough for every text.
-/

namespace Saliwen.CJson

/-- `CJSON_NESTING_LIMIT`. -/
def nestingLimit : ℕ := 1000

/-- `buffer_skip_whitespace`: every byte up to the space counts as white space. -/
def skipWhitespace (s : Bytes) : Bytes := s.dropWhile (· ≤ 32)

/-- `skip_utf8_bom`: a byte order mark is skipped when another byte follows it. -/
def skipUtf8Bom (s : Bytes) : Bytes :=
  if 4 ≤ s.length ∧ [0xEF, 0xBB, 0xBF] <+: s then s.drop 3 else s

/-! ## Strings -/

/-- The value of a hexadecimal digit. -/
def hexDigit (c : UInt8) : Option ℕ :=
  if ascii '0' ≤ c ∧ c ≤ ascii '9' then some (c - ascii '0').toNat
  else if ascii 'A' ≤ c ∧ c ≤ ascii 'F' then some (10 + (c - ascii 'A').toNat)
  else if ascii 'a' ≤ c ∧ c ≤ ascii 'f' then some (10 + (c - ascii 'a').toNat)
  else none

/-- `parse_hex4`: four hexadecimal digits; an invalid digit gives 0. -/
def parseHex4 (s : Bytes) : ℕ :=
  match (s.take 4).mapM hexDigit with
  | some digits => digits.foldl (fun h d => h * 16 + d) 0
  | none => 0

/-- The UTF-8 encoding of a code point, with the masks of the source. -/
def encodeUtf8 (codepoint : ℕ) : Bytes :=
  let tail (n : ℕ) : UInt8 := UInt8.ofNat ((codepoint >>> n ||| 0x80) &&& 0xBF)
  if codepoint < 0x80 then [UInt8.ofNat (codepoint &&& 0x7F)]
  else if codepoint < 0x800 then [UInt8.ofNat ((codepoint >>> 6 ||| 0xC0) &&& 0xFF), tail 0]
  else if codepoint < 0x10000 then
    [UInt8.ofNat ((codepoint >>> 12 ||| 0xE0) &&& 0xFF), tail 6, tail 0]
  else [UInt8.ofNat ((codepoint >>> 18 ||| 0xF0) &&& 0xFF), tail 12, tail 6, tail 0]

/-- `utf16_literal_to_utf8` on the rest of a string literal that begins with an escaped
`u`: the bytes written and the length of the sequence read, 6 or 12. -/
def utf16LiteralToUtf8 (s : Bytes) : Option (Bytes × ℕ) :=
  if s.length < 6 then none
  else
    let firstCode := parseHex4 (s.drop 2)
    if 0xDC00 ≤ firstCode ∧ firstCode ≤ 0xDFFF then none
    else if 0xD800 ≤ firstCode ∧ firstCode ≤ 0xDBFF then
      let second := s.drop 6
      if second.length < 6 then none
      else if ¬ [ascii '\\', ascii 'u'] <+: second then none
      else
        let secondCode := parseHex4 (second.drop 2)
        if secondCode < 0xDC00 ∨ 0xDFFF < secondCode then none
        else
          let codepoint := 0x10000 + ((firstCode &&& 0x3FF) <<< 10 ||| (secondCode &&& 0x3FF))
          some (encodeUtf8 codepoint, 12)
    else some (encodeUtf8 firstCode, 6)

/-- One escape sequence at the beginning of the rest of a string literal: the bytes written
and the length of the sequence read. When the backslash is the last byte of the literal,
the byte behind it is the closing quote. -/
def escapeSequence (s : Bytes) : Option (Bytes × ℕ) :=
  let c := (s.drop 1).headD (ascii '"')
  if c = ascii 'b' then some ([8], 2)
  else if c = ascii 'f' then some ([12], 2)
  else if c = ascii 'n' then some ([10], 2)
  else if c = ascii 'r' then some ([13], 2)
  else if c = ascii 't' then some ([9], 2)
  else if c = ascii '"' ∨ c = ascii '\\' ∨ c = ascii '/' then some ([c], 2)
  else if c = ascii 'u' then utf16LiteralToUtf8 s
  else none

/-- The second loop of `parse_string`: copy the literal, replacing escape sequences. The
argument `skip` counts the bytes of a sequence that are still to be passed over. -/
def unescape : Bytes → ℕ → Option Bytes
  | [], _ => some []
  | _ :: s, skip + 1 => unescape s skip
  | c :: s, 0 =>
    if c = ascii '\\' then
      match escapeSequence (c :: s) with
      | some (output, length) => (unescape s (length - 1)).map (output ++ ·)
      | none => none
    else (unescape s 0).map (c :: ·)

/-- The first loop of `parse_string`: the bytes up to the closing quote, and the bytes
behind it. -/
def scanString : Bytes → Option (Bytes × Bytes)
  | [] => none
  | c :: s =>
    if c = ascii '"' then some ([], s)
    else if c = ascii '\\' then
      match s with
      | [] => none
      | d :: s => (scanString s).map fun (body, rest) => (c :: d :: body, rest)
    else (scanString s).map fun (body, rest) => (c :: body, rest)

/-- `parse_string`. -/
def parseString : Bytes → Option (Bytes × Bytes)
  | [] => none
  | c :: s =>
    if c = ascii '"' then do
      let (body, rest) ← scanString s
      let output ← unescape body 0
      some (output, rest)
    else none

/-! ## Numbers -/

def isDigit (c : UInt8) : Bool := ascii '0' ≤ c && c ≤ ascii '9'

/-- The bytes that `parse_number` copies for `strtod`. -/
def isNumberByte (c : UInt8) : Bool :=
  isDigit c || c = ascii '+' || c = ascii '-' || c = ascii 'e' || c = ascii 'E' || c = ascii '.'

/-- `number_c_string`: at most 63 bytes. -/
def numberCString (s : Bytes) : Bytes := (s.take 63).takeWhile isNumberByte

/-- The decimal number written by digits. -/
def digitsValue (digits : Bytes) : ℕ := digits.foldl (fun n c => n * 10 + (c - ascii '0').toNat) 0

/-- The exponent part of a decimal number: its value and its length, zero when the text has
none. -/
def exponentPart : Bytes → ℤ × ℕ
  | [] => (0, 0)
  | c :: s =>
    if c = ascii 'e' ∨ c = ascii 'E' then
      let signed : Bool := s.head? = some (ascii '+') || s.head? = some (ascii '-')
      let digits := (if signed then s.drop 1 else s).takeWhile isDigit
      if digits = [] then (0, 0)
      else
        let value : ℤ := digitsValue digits
        (if s.head? = some (ascii '-') then -value else value,
          1 + (if signed then 1 else 0) + digits.length)
    else (0, 0)

/-- The digits of a decimal number, and those behind its point if it has one. -/
structure Mantissa where
  whole : Bytes
  fraction : Option Bytes

def scanMantissa (s : Bytes) : Mantissa :=
  let whole := s.takeWhile isDigit
  match s.drop whole.length with
  | [] => ⟨whole, none⟩
  | c :: rest => ⟨whole, if c = ascii '.' then some (rest.takeWhile isDigit) else none⟩

def Mantissa.digits (m : Mantissa) : Bytes := m.whole ++ m.fraction.getD []

def Mantissa.length (m : Mantissa) : ℕ := m.whole.length + (m.fraction.elim 0 (·.length + 1))

/-- `strtod` on a text of number bytes: the nearest `double` to the longest prefix that is a
decimal number, and the length of that prefix. -/
def strtod (s : Bytes) : Option (Number × ℕ) :=
  let signed : Bool := s.head? = some (ascii '+') || s.head? = some (ascii '-')
  let unsigned := if signed then s.drop 1 else s
  let mantissa := scanMantissa unsigned
  if mantissa.digits = [] then none
  else
    let (exponent, exponentLength) := exponentPart (unsigned.drop mantissa.length)
    let scale : ℤ := exponent - (mantissa.fraction.getD []).length
    let magnitude : ℚ := digitsValue mantissa.digits * 10 ^ scale
    let value := if s.head? = some (ascii '-') then -magnitude else magnitude
    some (Number.ofRat binary64 1024 value,
      (if signed then 1 else 0) + mantissa.length + exponentLength)

/-- `parse_number`. -/
def parseNumber (s : Bytes) : Option (Number × Bytes) :=
  (strtod (numberCString s)).map fun (number, length) => (number, s.drop length)

/-! ## Values -/

/-- The two containers, parsed alike by `parse_array` and `parse_object`. -/
inductive Container where
  | array
  | object
  deriving DecidableEq, Repr

def Container.closing : Container → UInt8
  | .array => ascii ']'
  | .object => ascii '}'

def Container.item : Container → List (Option Bytes × Json) → Json
  | .array => .array
  | .object => .object

/-- The name of the next child and the colon behind it, for an object. -/
def parseName : Container → Bytes → Option (Option Bytes × Bytes)
  | .array, s => some (none, s)
  | .object, s => do
    let (name, s) ← parseString s
    match skipWhitespace s with
    | [] => none
    | c :: s => if c = ascii ':' then some (some name, skipWhitespace s) else none

/-- The beginning of `parse_array` and `parse_object` behind the opening bracket: the nesting
limit, and the empty container. -/
def parseChildren (k : Container) (items : ℕ → Bytes → Option (List (Option Bytes × Json) × Bytes))
    (depth : ℕ) (s : Bytes) : Option (Json × Bytes) :=
  if nestingLimit ≤ depth then none
  else
    match skipWhitespace s with
    | [] => none
    | c :: rest =>
      if c = k.closing then some (k.item [], rest)
      else (items (depth + 1) (c :: rest)).map fun (child, rest) => (k.item child, rest)

mutual

/-- `parse_value`. -/
def parseValue : ℕ → ℕ → Bytes → Option (Json × Bytes)
  | 0, _, _ => none
  | fuel + 1, depth, s =>
    if literal "null" <+: s then some (.null, s.drop 4)
    else if literal "false" <+: s then some (.bool false, s.drop 5)
    else if literal "true" <+: s then some (.bool true, s.drop 4)
    else
      match s with
      | [] => none
      | c :: rest =>
        if c = ascii '"' then (parseString s).map fun (v, rest) => (.string v, rest)
        else if c = ascii '-' ∨ isDigit c = true then
          (parseNumber s).map fun (v, rest) => (.number v, rest)
        else if c = ascii '[' then parseChildren .array (parseItems .array fuel) depth rest
        else if c = ascii '{' then parseChildren .object (parseItems .object fuel) depth rest
        else none

/-- The loop of `parse_array` and `parse_object` over comma-separated children. -/
def parseItems : Container → ℕ → ℕ → Bytes → Option (List (Option Bytes × Json) × Bytes)
  | _, 0, _, _ => none
  | k, fuel + 1, depth, s => do
    let (name, s) ← parseName k s
    let (value, s) ← parseValue fuel depth s
    match skipWhitespace s with
    | [] => none
    | c :: s =>
      if c = ascii ',' then do
        let (items, s) ← parseItems k fuel depth (skipWhitespace s)
        some ((name, value) :: items, s)
      else if c = k.closing then some ([(name, value)], s)
      else none

end

/-- `cJSON_Parse` on the text of a C string. -/
def cJSONParse (value : Bytes) : Option Json :=
  (parseValue (2 * value.length + 1) 0 (skipWhitespace (skipUtf8Bom value))).map Prod.fst

end Saliwen.CJson
