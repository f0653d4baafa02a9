import Saliwen.CJson.Continuation
import Saliwen.CJson.NumberText

/-!
# Parsing what was printed

The text that `cJSON_Print` makes of an item, with or without its layout, is parsed by
`cJSON_Parse` into the same item again. Strings end at their first NUL, an infinity is printed
as `null`, and a number that is no `int` is read up to what `compare_double` does not tell apart.
-/

namespace Saliwen.CJson

/-! ## Strings -/

private theorem forall_byte {p : UInt8 → Prop} (h : ∀ n : Fin 256, p (UInt8.ofNat n)) (c : UInt8) :
    p c := by
  have hc := h ⟨c.toNat, c.toNat_lt⟩
  simpa using hc

/-- The first loop of `print_string_ptr` counts what the second one writes. -/
theorem printCharacter_length (c : UInt8) : (printCharacter c).length = 1 + escapeCharacters c := by
  revert c
  apply forall_byte
  decide +kernel

/-- A character that needs no escape is printed as it is. -/
theorem printCharacter_plain {c : UInt8} (h : escapeCharacters c = 0) : printCharacter c = [c] := by
  revert c
  apply forall_byte
  decide +kernel

/-- A printed string is longer by the characters its escapes take. -/
theorem flatMap_printCharacter_length (s : Bytes) :
    (s.flatMap printCharacter).length = s.length + (s.map escapeCharacters).sum := by
  induction s with
  | nil => rfl
  | cons c s ih =>
    simp only [List.flatMap_cons, List.length_append, printCharacter_length, ih, List.length_cons,
      List.map_cons, List.sum_cons]
    omega

/-- A string without escapes is printed as it is. -/
theorem flatMap_printCharacter_plain {s : Bytes} (h : (s.map escapeCharacters).sum = 0) :
    s.flatMap printCharacter = s := by
  induction s with
  | nil => rfl
  | cons c s ih =>
    rw [List.map_cons, List.sum_cons] at h
    rw [List.flatMap_cons, printCharacter_plain (by omega), ih (by omega)]
    rfl

/-- `print_string_ptr` without its shortcut for strings that need no escape sequences. -/
theorem printStringPtr_some (s : Bytes) :
    printStringPtr (some s) = ascii '"' :: (cString s).flatMap printCharacter ++ [ascii '"'] := by
  unfold printStringPtr
  dsimp only
  split_ifs with hplain
  · rw [flatMap_printCharacter_plain hplain]
  · rw [← flatMap_printCharacter_length, List.take_length]

/-- The three ways to print a character: as it is, as a letter behind a backslash, and as a code
of four hexadecimal digits. -/
theorem printCharacter_cases (c : UInt8) :
    (printCharacter c = [c] ∧ c ≠ ascii '"' ∧ c ≠ ascii '\\') ∨
      (∃ d, printCharacter c = [ascii '\\', d] ∧ d ≠ ascii 'u' ∧
        escapeSequence [ascii '\\', d] = some ([c], 2)) ∨
      (c.toNat < 32 ∧ printCharacter c = [ascii '\\', ascii 'u', hexChar 0, hexChar 0,
        hexChar (c.toNat / 16), hexChar (c.toNat % 16)]) := by
  unfold printCharacter
  split_ifs with hplain hbackslash hquote hb hf hn hr ht
  · exact Or.inl ⟨rfl, hplain.2⟩
  · exact Or.inr (Or.inl ⟨_, rfl, by decide, by rw [hbackslash]; decide⟩)
  · exact Or.inr (Or.inl ⟨_, rfl, by decide, by rw [hquote]; decide⟩)
  · exact Or.inr (Or.inl ⟨_, rfl, by decide, by rw [hb]; decide⟩)
  · exact Or.inr (Or.inl ⟨_, rfl, by decide, by rw [hf]; decide⟩)
  · exact Or.inr (Or.inl ⟨_, rfl, by decide, by rw [hn]; decide⟩)
  · exact Or.inr (Or.inl ⟨_, rfl, by decide, by rw [hr]; decide⟩)
  · exact Or.inr (Or.inl ⟨_, rfl, by decide, by rw [ht]; decide⟩)
  · refine Or.inr (Or.inr ⟨?_, rfl⟩)
    have hle : ¬ 31 < c := fun h => hplain ⟨h, hquote, hbackslash⟩
    rw [UInt8.lt_iff_toNat_lt] at hle
    simp at hle
    omega

/-- A hexadecimal digit ends no string and is read back. -/
theorem hexChar_spec {d : ℕ} (h : d < 16) :
    hexChar d ≠ ascii '"' ∧ hexChar d ≠ ascii '\\' ∧ hexDigit (hexChar d) = some d := by
  have hall : ∀ d : Fin 16, hexChar d ≠ ascii '"' ∧ hexChar d ≠ ascii '\\' ∧
      hexDigit (hexChar d) = some d := by decide
  exact hall ⟨d, h⟩

/-- The parser takes a printed character for one character of the literal. -/
theorem scanString_printCharacter (c : UInt8) (s : Bytes) :
    scanString (printCharacter c ++ s) =
      (scanString s).map fun (body, rest) => (printCharacter c ++ body, rest) := by
  rcases printCharacter_cases c with ⟨hprint, hquote, hescape⟩ | ⟨d, hprint, -⟩ | ⟨hc, hprint⟩
  · rw [hprint, List.singleton_append, scanString_plain hquote hescape]
    rfl
  · rw [hprint]
    exact scanString_escape d s
  · obtain ⟨hquote, hescape, -⟩ := hexChar_spec (show 0 < 16 by norm_num)
    obtain ⟨hquote₁, hescape₁, -⟩ := hexChar_spec (show c.toNat / 16 < 16 by omega)
    obtain ⟨hquote₂, hescape₂, -⟩ := hexChar_spec (show c.toNat % 16 < 16 by omega)
    rw [hprint]
    simp only [List.cons_append, List.nil_append, scanString_escape,
      scanString_plain hquote hescape, scanString_plain hquote₁ hescape₁,
      scanString_plain hquote₂ hescape₂, Option.map_map]
    rfl

/-- A code of four digits. -/
theorem escapeSequence_code {n : ℕ} (hn : n < 32) (s : Bytes) :
    escapeSequence ([ascii '\\', ascii 'u', hexChar 0, hexChar 0, hexChar (n / 16),
      hexChar (n % 16)] ++ s) = some ([UInt8.ofNat n], 6) := by
  have hzero := (hexChar_spec (show 0 < 16 by norm_num)).2.2
  have hhigh := (hexChar_spec (show n / 16 < 16 by omega)).2.2
  have hlow := (hexChar_spec (show n % 16 < 16 by omega)).2.2
  have hhex : parseHex4 ([hexChar 0, hexChar 0, hexChar (n / 16), hexChar (n % 16)] ++ s) = n := by
    simp [parseHex4, hzero, hhigh, hlow]
    omega
  have hencode : encodeUtf8 n = [UInt8.ofNat n] := by
    have hmask : n &&& 127 = n := by
      rw [show 127 = 2 ^ 7 - 1 from rfl, Nat.and_two_pow_sub_one_eq_mod]
      exact Nat.mod_eq_of_lt (by omega)
    simp [encodeUtf8, show n < 128 by omega, hmask]
  have hcode : utf16LiteralToUtf8 ([ascii '\\', ascii 'u', hexChar 0, hexChar 0,
      hexChar (n / 16), hexChar (n % 16)] ++ s) = some ([UInt8.ofNat n], 6) := by
    simp only [utf16LiteralToUtf8, List.cons_append, List.nil_append, List.drop_succ_cons,
      List.drop_zero, List.length_cons] at hhex ⊢
    rw [if_neg (by omega), hhex, if_neg (by omega), if_neg (by omega), hencode]
  have hletter : ascii 'u' ≠ ascii 'b' ∧ ascii 'u' ≠ ascii 'f' ∧ ascii 'u' ≠ ascii 'n' ∧
      ascii 'u' ≠ ascii 'r' ∧ ascii 'u' ≠ ascii 't' ∧ ascii 'u' ≠ ascii '"' ∧
      ascii 'u' ≠ ascii '\\' ∧ ascii 'u' ≠ ascii '/' := by decide
  simpa [escapeSequence, hletter] using hcode

/-- The parser takes a printed character back. -/
theorem unescape_printCharacter (c : UInt8) (s : Bytes) :
    unescape (printCharacter c ++ s) 0 = (unescape s 0).map (c :: ·) := by
  rcases printCharacter_cases c with ⟨hprint, -, hescape⟩ | ⟨d, hprint, hd, hsequence⟩ |
    ⟨hc, hprint⟩
  · rw [hprint, List.singleton_append, unescape, if_neg hescape]
  · have hsequence' : escapeSequence (ascii '\\' :: d :: s) = some ([c], 2) := by
      unfold escapeSequence at hsequence ⊢
      simpa [hd] using hsequence
    rw [hprint]
    simp [unescape, hsequence']
  · have hsequence := escapeSequence_code hc s
    rw [hprint]
    simp only [List.cons_append, List.nil_append] at hsequence ⊢
    simp [unescape, hsequence]

/-- The scan finds the end of a printed string. -/
theorem scanString_flatMap (s rest : Bytes) :
    scanString (s.flatMap printCharacter ++ ascii '"' :: rest) =
      some (s.flatMap printCharacter, rest) := by
  induction s with
  | nil => simp
  | cons c s ih => rw [List.flatMap_cons, List.append_assoc, scanString_printCharacter, ih]; rfl

/-- A printed string is read back. -/
theorem unescape_flatMap (s : Bytes) : unescape (s.flatMap printCharacter) 0 = some s := by
  induction s with
  | nil => rfl
  | cons c s ih => rw [List.flatMap_cons, unescape_printCharacter, ih]; rfl

/-- A printed string is parsed back, up to its first NUL. -/
theorem parseString_printStringPtr (s : Option Bytes) (rest : Bytes) :
    parseString (printStringPtr s ++ rest) = some (cString (s.getD []), rest) := by
  cases s with
  | none =>
    exact parseString_eq_some.mpr ⟨ascii '"' :: rest, [], rfl, scanString_quote rest, rfl⟩
  | some s =>
    have hscan := scanString_flatMap (cString s) rest
    refine parseString_eq_some.mpr ⟨_, _, ?_, hscan, unescape_flatMap _⟩
    simp [printStringPtr_some]

/-! ## Items -/

mutual

/-- The numbers of an item are finite `double`s or infinities, and its containers are nested in
at most that many levels. -/
def Printable : ℕ → Json → Prop
  | _, .number (.finite x) => IsDouble x
  | 0, .array _ => False
  | 0, .object _ => False
  | levels + 1, .array child => PrintableAll levels child
  | levels + 1, .object child => PrintableAll levels child
  | _, _ => True

def PrintableAll : ℕ → List (Option Bytes × Json) → Prop
  | _, [] => True
  | levels, (_, value) :: next => Printable levels value ∧ PrintableAll levels next

end

/-- The name under which a child is read again. -/
def readName : Container → Option Bytes → Option Bytes
  | .array, _ => none
  | .object, string => some (cString (string.getD []))

mutual

/-- The second item is what the first one is read as. -/
def Reads : Json → Json → Prop
  | .null, v => v = .null
  | .bool b, v => v = .bool b
  | .number (.infinite _), v => v = .null
  | .number (.finite x), v => ∃ x', v = .number x' ∧ ReadsNumber x x'
  | .string valuestring, v => v = .string (cString valuestring)
  | .array child, v => ∃ child', v = .array child' ∧ ReadsAll .array child child'
  | .object child, v => ∃ child', v = .object child' ∧ ReadsAll .object child child'

def ReadsAll (k : Container) :
    List (Option Bytes × Json) → List (Option Bytes × Json) → Prop
  | [], child => child = []
  | (string, value) :: next, child => ∃ value' next', child = (readName k string, value') :: next' ∧
      Reads value value' ∧ ReadsAll k next next'

end

/-! ## Texts of items -/

/-- What follows a text does not continue a number. -/
def EndsNumber (rest : Bytes) : Prop := ∀ c ∈ rest.head?, isNumberByte c = false

/-- The text begins with a visible byte that closes no array, and it is parsed into the item, at
that depth and whatever follows. -/
structure ParsesTo (depth : ℕ) (text : Bytes) (v : Json) : Prop where
  starts : ∃ c t, text = c :: t ∧ 32 < c ∧ c ≠ ascii ']' ∧ c ≠ 0xEF
  parse : ∃ enough, ∀ fuel, enough ≤ fuel → ∀ rest, EndsNumber rest →
    parseValue fuel depth (text ++ rest) = some (v, rest)

/-- The branch for a text that begins with no letter of a word. -/
theorem formOf_head {c : UInt8} (hn : c ≠ ascii 'n') (hf : c ≠ ascii 'f') (ht : c ≠ ascii 't')
    (s : Bytes) : formOf (c :: s) =
      if c = ascii '"' then some .string
      else if c = ascii '-' ∨ isDigit c = true then some .number
      else if c = ascii '[' then some (.container .array)
      else if c = ascii '\x7b' then some (.container .object)
      else none := by
  have hnull : ¬ literal "null" <+: c :: s := fun h => hn (List.cons_prefix_cons.mp h).1.symm
  have hfalse : ¬ literal "false" <+: c :: s := fun h => hf (List.cons_prefix_cons.mp h).1.symm
  have htrue : ¬ literal "true" <+: c :: s := fun h => ht (List.cons_prefix_cons.mp h).1.symm
  rw [formOf, if_neg hnull, if_neg hfalse, if_neg htrue]

/-- The parser reads a printed null. -/
theorem parsesTo_null (depth : ℕ) : ParsesTo depth (literal "null") .null where
  starts := ⟨_, _, rfl, by decide⟩
  parse := by
    refine ⟨1, fun fuel hfuel rest _ => ?_⟩
    obtain ⟨fuel, rfl⟩ : ∃ n, fuel = n + 1 := ⟨fuel - 1, by omega⟩
    rw [parseValue_succ, formOf_null (List.prefix_append _ _)]
    simp [Form.parse]

/-- The parser reads a printed truth value. -/
theorem parsesTo_bool (depth : ℕ) (b : Bool) :
    ParsesTo depth (if b then literal "true" else literal "false") (.bool b) where
  starts := by cases b <;> exact ⟨_, _, rfl, by decide⟩
  parse := by
    refine ⟨1, fun fuel hfuel rest _ => ?_⟩
    obtain ⟨fuel, rfl⟩ : ∃ n, fuel = n + 1 := ⟨fuel - 1, by omega⟩
    cases b with
    | true =>
      rw [parseValue_succ, if_pos rfl, formOf_true (List.prefix_append _ _)]
      simp [Form.parse]
    | false =>
      rw [parseValue_succ, if_neg (by simp), formOf_false (List.prefix_append _ _)]
      simp [Form.parse]

/-- The parser reads a printed string up to its first zero. -/
theorem parsesTo_string (depth : ℕ) (s : Bytes) :
    ParsesTo depth (printStringPtr (some s)) (.string (cString s)) where
  starts := by
    rw [printStringPtr_some]
    exact ⟨_, _, rfl, by decide⟩
  parse := by
    refine ⟨1, fun fuel hfuel rest _ => ?_⟩
    obtain ⟨fuel, rfl⟩ : ∃ n, fuel = n + 1 := ⟨fuel - 1, by omega⟩
    have hform : formOf (printStringPtr (some s) ++ rest) = some .string := by
      rw [printStringPtr_some]
      exact formOf_head (by decide) (by decide) (by decide) _
    rw [parseValue_succ, hform]
    simp [Form.parse, parseString_printStringPtr]

/-- The first character of a number is not that of anything else. -/
theorem number_head {c : UInt8} (h : c = ascii '-' ∨ isDigit c = true) :
    (32 < c ∧ c ≠ ascii ']' ∧ c ≠ 0xEF) ∧
      (c ≠ ascii 'n' ∧ c ≠ ascii 'f' ∧ c ≠ ascii 't' ∧ c ≠ ascii '"') := by
  revert c
  apply forall_byte
  decide +kernel

/-- The parser takes the whole text of a number, and no more. -/
theorem numberCString_readsAs {text rest : Bytes} {x : Number} (h : ReadsAs text x)
    (hrest : EndsNumber rest) : numberCString (text ++ rest) = text := by
  have hshort := h.short
  unfold numberCString
  rw [List.take_append, List.take_of_length_le (by omega)]
  refine takeWhile_append_of_head h.bytes fun c hc => hrest c ?_
  rwa [List.head?_take, if_neg (by omega)] at hc

/-- A printed number. -/
theorem ReadsAs.parsesTo {text : Bytes} {x : Number} (h : ReadsAs text x) (depth : ℕ) :
    ParsesTo depth text (.number x) := by
  obtain ⟨c, t, rfl, hc⟩ := h.head
  obtain ⟨hstarts, hn, hf, ht, hquote⟩ := number_head hc
  refine ⟨⟨c, t, rfl, hstarts⟩, 1, fun fuel hfuel rest hrest => ?_⟩
  obtain ⟨fuel, rfl⟩ : ∃ n, fuel = n + 1 := ⟨fuel - 1, by omega⟩
  have hform : formOf (c :: t ++ rest) = some .number := by
    rw [List.cons_append, formOf_head hn hf ht, if_neg hquote, if_pos hc]
  have hnumber : parseNumber (c :: t ++ rest) = some (x, rest) := by
    simp only [parseNumber, numberCString_readsAs h hrest, h.strtod, Option.map_some,
      List.drop_left]
  rw [parseValue_succ, hform]
  simp only [Option.bind_some, Form.parse, hnumber, Option.map_some]

/-! ## Containers -/

/-- White space before a visible byte is skipped. -/
theorem skipWhitespace_blank {blank text : Bytes} (hblank : ∀ c ∈ blank, c ≤ 32)
    (hstarts : ∀ c ∈ text.head?, 32 < c) : skipWhitespace (blank ++ text) = text := by
  unfold skipWhitespace
  rw [List.dropWhile_append_of_pos (by simpa using hblank)]
  cases text with
  | nil => rfl
  | cons c text =>
    have hc := hstarts c rfl
    rw [List.dropWhile_cons_of_neg (by simpa using hc)]

/-- The layout consists of white space. -/
theorem layout_blank {format : Bool} {bytes : Bytes} (h : ∀ c ∈ bytes, c ≤ 32) :
    ∀ c ∈ layout format bytes, c ≤ 32 := by
  intro c hc
  unfold layout at hc
  split_ifs at hc
  · exact h c hc
  · cases hc

/-- Nothing is white space. -/
theorem nil_blank : ∀ c ∈ ([] : Bytes), c ≤ 32 := by simp

/-- A line break of the layout is white space. -/
theorem newline_blank (format : Bool) : ∀ c ∈ layout format [ascii '\n'], c ≤ 32 :=
  layout_blank (by simp; decide)

/-- An indentation is white space. -/
theorem indent_blank (depth : ℕ) : ∀ c ∈ indent depth, c ≤ 32 := by
  intro c hc
  rw [List.eq_of_mem_replicate hc]
  decide

/-- What follows a child: it ends a number, and behind white space stands a comma or a closing
bracket. -/
theorem endsNumber_blank {blank rest : Bytes} {c : UInt8} (hblank : ∀ c ∈ blank, c ≤ 32)
    (hc : isNumberByte c = false) : EndsNumber (blank ++ c :: rest) := by
  intro c' hc'
  cases blank with
  | nil =>
    obtain rfl : c = c' := Option.some.inj hc'
    exact hc
  | cons b blank =>
    obtain rfl : b = c' := Option.some.inj hc'
    exact isNumberByte_of_le (hblank b (by simp))

/-- The text of children begins with a visible byte that closes nothing, and it is parsed into
the children, whatever white space stands between it and the closing bracket. -/
structure ItemsTo (k : Container) (depth : ℕ) (text : Bytes)
    (items : List (Option Bytes × Json)) : Prop where
  starts : ∃ blank c t, text = blank ++ c :: t ∧ (∀ b ∈ blank, b ≤ 32) ∧ 32 < c ∧ c ≠ k.closing
  parse : ∃ enough, ∀ fuel, enough ≤ fuel → ∀ blank rest, (∀ b ∈ blank, b ≤ 32) →
    parseItems k fuel depth (skipWhitespace (text ++ (blank ++ k.closing :: rest))) =
      some (items, rest)

/-- The name of a child in front of its text, if it has one. -/
structure NameTo (k : Container) (head text : Bytes) (name : Option Bytes) : Prop where
  starts : ∃ c t, head ++ text = c :: t ∧ 32 < c ∧ c ≠ k.closing
  parse : ∀ more, parseName k (head ++ (text ++ more)) = some (name, text ++ more)

/-- A closing bracket is none of the characters that go on with a container. -/
theorem closing_spec (k : Container) :
    32 < k.closing ∧ k.closing ≠ ascii ',' ∧ isNumberByte k.closing = false := by
  cases k <;> decide

variable {k : Container} {depth : ℕ} {blank head text : Bytes} {name : Option Bytes} {v : Json}

/-- The beginning of a child behind white space. -/
theorem skipWhitespace_child (hblank : ∀ b ∈ blank, b ≤ 32) (hname : NameTo k head text name)
    (more : Bytes) :
    skipWhitespace (blank ++ (head ++ text) ++ more) = head ++ (text ++ more) := by
  obtain ⟨c, t, hstart, hc, -⟩ := hname.starts
  rw [List.append_assoc, List.append_assoc]
  refine skipWhitespace_blank hblank ?_
  rw [← List.append_assoc, hstart]
  simpa using hc

/-- The last child. -/
theorem itemsTo_last (hblank : ∀ b ∈ blank, b ≤ 32) (hname : NameTo k head text name)
    (hvalue : ParsesTo depth text v) {trail : Bytes} (htrail : ∀ b ∈ trail, b ≤ 32) :
    ItemsTo k depth (blank ++ (head ++ text) ++ trail) [(name, v)] := by
  obtain ⟨c, t, hstart, hc⟩ := hname.starts
  obtain ⟨enough, hparse⟩ := hvalue.parse
  obtain ⟨hvisible, hcomma, hnumber⟩ := closing_spec k
  refine ⟨⟨blank, c, t ++ trail, by simp [hstart], hblank, hc⟩, enough + 1, ?_⟩
  intro fuel hfuel blank' rest hblank'
  obtain ⟨fuel, rfl⟩ : ∃ n, fuel = n + 1 := ⟨fuel - 1, by omega⟩
  have htail : ∀ b ∈ trail ++ blank', b ≤ 32 := by
    intro b hb
    rcases List.mem_append.mp hb with hb | hb
    · exact htrail b hb
    · exact hblank' b hb
  have hskip : skipWhitespace (trail ++ blank' ++ k.closing :: rest) = k.closing :: rest :=
    skipWhitespace_blank htail (by simpa using hvisible)
  rw [List.append_assoc _ trail, ← List.append_assoc trail, skipWhitespace_child hblank hname]
  exact parseItems_succ_eq_some.mpr ⟨name, _, v, _, k.closing, rest, hname.parse _,
    hparse fuel (by omega) _ (endsNumber_blank htail hnumber), hskip,
    Or.inr ⟨hcomma, rfl, rfl, rfl⟩⟩

/-- A child with others behind it. -/
theorem itemsTo_cons (hblank : ∀ b ∈ blank, b ≤ 32) (hname : NameTo k head text name)
    (hvalue : ParsesTo depth text v) {sep next : Bytes} (hsep : ∀ b ∈ sep, b ≤ 32)
    {items : List (Option Bytes × Json)} (hnext : ItemsTo k depth next items) :
    ItemsTo k depth (blank ++ (head ++ text) ++ ascii ',' :: (sep ++ next))
      ((name, v) :: items) := by
  obtain ⟨c, t, hstart, hc⟩ := hname.starts
  obtain ⟨enough, hparse⟩ := hvalue.parse
  obtain ⟨enough', hparse'⟩ := hnext.parse
  refine ⟨⟨blank, c, t ++ ascii ',' :: (sep ++ next), by simp [hstart], hblank, hc⟩,
    max enough enough' + 1, ?_⟩
  intro fuel hfuel blank' rest hblank'
  obtain ⟨fuel, rfl⟩ : ∃ n, fuel = n + 1 := ⟨fuel - 1, by omega⟩
  have hends : EndsNumber (ascii ',' :: (sep ++ next ++ (blank' ++ k.closing :: rest))) :=
    endsNumber_blank nil_blank (by decide)
  have hskip : skipWhitespace (ascii ',' :: (sep ++ next ++ (blank' ++ k.closing :: rest))) =
      ascii ',' :: (sep ++ next ++ (blank' ++ k.closing :: rest)) :=
    skipWhitespace_blank nil_blank (by simp; decide)
  have hmore : skipWhitespace (sep ++ next ++ (blank' ++ k.closing :: rest)) =
      skipWhitespace (next ++ (blank' ++ k.closing :: rest)) := by
    unfold skipWhitespace
    rw [List.append_assoc, List.dropWhile_append_of_pos (by simpa using hsep)]
  rw [List.append_assoc _ (ascii ',' :: _), List.cons_append, skipWhitespace_child hblank hname]
  refine parseItems_succ_eq_some.mpr ⟨name, _, v, _, _, _, hname.parse _,
    hparse fuel (by omega) _ hends, hskip, Or.inl ⟨rfl, items, ?_, rfl⟩⟩
  rw [hmore]
  exact hparse' fuel (by omega) blank' rest hblank'

def Container.opening : Container → UInt8
  | .array => ascii '['
  | .object => ascii '\x7b'

/-- An opening bracket begins a container. -/
theorem formOf_opening (k : Container) (s : Bytes) :
    formOf (k.opening :: s) = some (.container k) := by
  cases k <;> exact formOf_head (by decide) (by decide) (by decide) s

/-- An opening bracket is neither white space nor the end of an array. -/
theorem opening_spec (k : Container) :
    32 < k.opening ∧ k.opening ≠ ascii ']' ∧ k.opening ≠ 0xEF := by
  cases k <;> decide

/-- A container without children. -/
theorem parsesTo_empty (hdepth : depth < nestingLimit) (hblank : ∀ b ∈ blank, b ≤ 32) :
    ParsesTo depth (k.opening :: (blank ++ [k.closing])) (k.item []) := by
  refine ⟨⟨_, _, rfl, opening_spec k⟩, 1, fun fuel hfuel rest _ => ?_⟩
  obtain ⟨fuel, rfl⟩ : ∃ n, fuel = n + 1 := ⟨fuel - 1, by omega⟩
  have hskip : skipWhitespace (blank ++ k.closing :: rest) = k.closing :: rest :=
    skipWhitespace_blank hblank (by simpa using (closing_spec k).1)
  rw [parseValue_succ, List.cons_append, formOf_opening]
  simp [Form.parse, parseChildren, hdepth, hskip]

/-- A container with children. -/
theorem parsesTo_container (hdepth : depth < nestingLimit) (hblank : ∀ b ∈ blank, b ≤ 32)
    {items : List (Option Bytes × Json)} (hitems : ItemsTo k (depth + 1) text items)
    {trail : Bytes} (htrail : ∀ b ∈ trail, b ≤ 32) :
    ParsesTo depth (k.opening :: (blank ++ text ++ (trail ++ [k.closing]))) (k.item items) := by
  obtain ⟨blank', c, t, htext, hblank', hvisible, hclosing⟩ := hitems.starts
  obtain ⟨enough, hparse⟩ := hitems.parse
  refine ⟨⟨_, _, rfl, opening_spec k⟩, enough + 1, fun fuel hfuel rest _ => ?_⟩
  obtain ⟨fuel, rfl⟩ : ∃ n, fuel = n + 1 := ⟨fuel - 1, by omega⟩
  have hskip : skipWhitespace (blank ++ (text ++ (trail ++ k.closing :: rest))) =
      skipWhitespace (text ++ (trail ++ k.closing :: rest)) := by
    unfold skipWhitespace
    rw [List.dropWhile_append_of_pos (by simpa using hblank)]
  have hstart : skipWhitespace (text ++ (trail ++ k.closing :: rest)) =
      c :: (t ++ (trail ++ k.closing :: rest)) := by
    rw [htext, List.append_assoc]
    exact skipWhitespace_blank hblank' (by simpa using hvisible)
  have hitems := hparse fuel (by omega) trail rest htrail
  rw [hstart] at hskip hitems
  rw [parseValue_succ, List.cons_append, formOf_opening]
  simp [Form.parse, parseChildren, not_le.mpr hdepth, hskip, hclosing, hitems]

/-- A child of an array has no name. -/
theorem nameTo_array (hvalue : ParsesTo depth text v) (string : Option Bytes) :
    NameTo .array [] text (readName .array string) := by
  obtain ⟨c, t, htext, hvisible, hclosing, -⟩ := hvalue.starts
  exact ⟨⟨c, t, htext, hvisible, hclosing⟩, fun more => rfl⟩

/-- The name of a child of an object, its colon and the layout behind it. -/
theorem nameTo_object (hvalue : ParsesTo depth text v) (string : Option Bytes) {sep : Bytes}
    (hsep : ∀ b ∈ sep, b ≤ 32) :
    NameTo .object (printStringPtr string ++ ascii ':' :: sep) text
      (readName .object string) := by
  obtain ⟨c, t, htext, hvisible, -⟩ := hvalue.starts
  have hquote : ∃ u, printStringPtr string = ascii '"' :: u := by
    cases string with
    | none => exact ⟨_, rfl⟩
    | some string => exact ⟨_, printStringPtr_some string⟩
  obtain ⟨u, hu⟩ := hquote
  refine ⟨⟨ascii '"', u ++ ascii ':' :: sep ++ text, by simp [hu], by decide, by decide⟩, ?_⟩
  intro more
  have hstring := parseString_printStringPtr string (ascii ':' :: (sep ++ (text ++ more)))
  have hcolon : skipWhitespace (ascii ':' :: (sep ++ (text ++ more))) =
      ascii ':' :: (sep ++ (text ++ more)) :=
    skipWhitespace_blank nil_blank (by simp; decide)
  have hvalue : skipWhitespace (sep ++ (text ++ more)) = text ++ more :=
    skipWhitespace_blank hsep (by simpa [htext] using hvisible)
  rw [List.append_assoc, List.cons_append]
  simp [parseName, hstring, hcolon, hvalue, readName]

mutual

/-- Every printable item has a text, which is parsed into what the item is read as. -/
theorem parsesTo_printValue (format : Bool) (printDepth : ℕ) : ∀ (v : Json) (levels depth : ℕ),
    Printable levels v → depth + levels ≤ nestingLimit →
      ∃ text v', printValue format printDepth v = some text ∧ Reads v v' ∧ ParsesTo depth text v'
  | .null, _, depth, _, _ => ⟨_, _, rfl, rfl, parsesTo_null depth⟩
  | .bool b, _, depth, _, _ => ⟨_, _, rfl, rfl, parsesTo_bool depth b⟩
  | .number (.infinite _), _, depth, _, _ => ⟨_, _, rfl, rfl, parsesTo_null depth⟩
  | .number (.finite x), _, depth, hprintable, _ => by
    have hx : IsDouble x := by
      unfold Printable at hprintable
      exact hprintable
    obtain ⟨text, x', hprint, hreads, hnumber⟩ := printNumber_reads hx
    exact ⟨text, .number x', hprint, ⟨x', rfl, hnumber⟩, hreads.parsesTo depth⟩
  | .string s, _, depth, _, _ => ⟨_, _, rfl, rfl, parsesTo_string depth s⟩
  | .array child, 0, _, hprintable, _ => by simp [Printable] at hprintable
  | .object child, 0, _, hprintable, _ => by simp [Printable] at hprintable
  | .array [], levels + 1, depth, _, hlevels =>
    ⟨_, _, rfl, ⟨[], rfl, by simp [ReadsAll]⟩,
      parsesTo_empty (k := .array) (by omega) nil_blank⟩
  | .array (item :: next), levels + 1, depth, hprintable, hlevels => by
    obtain ⟨text, child', hprint, hreads, hitems⟩ :=
      itemsTo_printElements format (printDepth + 1) (item :: next) levels (depth + 1) (by simp)
        (by simpa [Printable] using hprintable) (by omega)
    refine ⟨_, .array child', ?_, ⟨child', rfl, hreads⟩,
      parsesTo_container (k := .array) (by omega) nil_blank hitems nil_blank⟩
    simp [printValue, hprint, Container.opening, Container.closing]
  | .object [], levels + 1, depth, _, hlevels => by
    have hblank : ∀ b ∈ layout format [ascii '\n'] ++ layout format (indent printDepth),
        b ≤ 32 := by
      intro b hb
      rcases List.mem_append.mp hb with hb | hb
      · exact newline_blank format b hb
      · exact layout_blank (indent_blank _) b hb
    refine ⟨_, .object [], ?_, ⟨[], rfl, by simp [ReadsAll]⟩,
      parsesTo_empty (k := .object) (by omega) hblank⟩
    simp [printValue, printMembers, Container.opening, Container.closing]
  | .object (item :: next), levels + 1, depth, hprintable, hlevels => by
    obtain ⟨text, child', hprint, hreads, hitems⟩ :=
      itemsTo_printMembers format (printDepth + 1) (item :: next) levels (depth + 1) (by simp)
        (by simpa [Printable] using hprintable) (by omega)
    refine ⟨_, .object child', ?_, ⟨child', rfl, hreads⟩,
      parsesTo_container (k := .object) (by omega) (newline_blank format) hitems
        (layout_blank (indent_blank printDepth) : ∀ b ∈ layout format (indent printDepth), b ≤ 32)⟩
    simp [printValue, hprint, Container.opening, Container.closing]

/-- The children of an array. -/
theorem itemsTo_printElements (format : Bool) (printDepth : ℕ) :
    ∀ (child : List (Option Bytes × Json)) (levels depth : ℕ), child ≠ [] →
      PrintableAll levels child → depth + levels ≤ nestingLimit →
        ∃ text child', printElements format printDepth child = some text ∧
          ReadsAll .array child child' ∧ ItemsTo .array depth text child'
  | [], _, _, hne, _, _ => absurd rfl hne
  | (string, value) :: next, levels, depth, _, hprintable, hlevels => by
    obtain ⟨hvalue, hnext⟩ : Printable levels value ∧ PrintableAll levels next := by
      simpa [PrintableAll] using hprintable
    obtain ⟨text, v', hprint, hreads, hparses⟩ :=
      parsesTo_printValue format printDepth value levels depth hvalue hlevels
    have hname := nameTo_array hparses string
    by_cases hlast : next = []
    · subst hlast
      refine ⟨_, _, ?_, ⟨v', [], rfl, hreads, by simp [ReadsAll]⟩,
        itemsTo_last nil_blank hname hparses nil_blank⟩
      simp [printElements, hprint]
    · obtain ⟨text', child', hprint', hreads', hitems⟩ :=
        itemsTo_printElements format printDepth next levels depth hlast hnext hlevels
      have hspace : ∀ b ∈ layout format [ascii ' '], b ≤ 32 := layout_blank (by simp; decide)
      refine ⟨_, _, ?_, ⟨v', child', rfl, hreads, hreads'⟩,
        itemsTo_cons nil_blank hname hparses hspace hitems⟩
      simp [printElements, hprint, hprint', hlast]

/-- The children of an object. -/
theorem itemsTo_printMembers (format : Bool) (printDepth : ℕ) :
    ∀ (child : List (Option Bytes × Json)) (levels depth : ℕ), child ≠ [] →
      PrintableAll levels child → depth + levels ≤ nestingLimit →
        ∃ text child', printMembers format printDepth child = some text ∧
          ReadsAll .object child child' ∧ ItemsTo .object depth text child'
  | [], _, _, hne, _, _ => absurd rfl hne
  | (string, value) :: next, levels, depth, _, hprintable, hlevels => by
    obtain ⟨hvalue, hnext⟩ : Printable levels value ∧ PrintableAll levels next := by
      simpa [PrintableAll] using hprintable
    obtain ⟨text, v', hprint, hreads, hparses⟩ :=
      parsesTo_printValue format printDepth value levels depth hvalue hlevels
    have hblank : ∀ b ∈ layout format (indent printDepth), b ≤ 32 :=
      layout_blank (indent_blank printDepth)
    have htab : ∀ b ∈ layout format [ascii '\t'], b ≤ 32 := layout_blank (by simp; decide)
    have hname := nameTo_object hparses string htab
    by_cases hlast : next = []
    · subst hlast
      refine ⟨_, _, ?_, ⟨v', [], rfl, hreads, by simp [ReadsAll]⟩,
        itemsTo_last hblank hname hparses (newline_blank format)⟩
      simp [printMembers, hprint]
    · obtain ⟨text', child', hprint', hreads', hitems⟩ :=
        itemsTo_printMembers format printDepth next levels depth hlast hnext hlevels
      refine ⟨_, _, ?_, ⟨v', child', rfl, hreads, hreads'⟩,
        itemsTo_cons hblank hname hparses (newline_blank format) hitems⟩
      simp [printMembers, hprint, hprint', hlast]

end

/-- A text on its own. -/
theorem ParsesTo.cJSONParse {text : Bytes} {v : Json} (h : ParsesTo 0 text v) :
    cJSONParse text = some v := by
  obtain ⟨⟨c, t, rfl, hvisible, -, hmark⟩, enough, hparse⟩ := h
  have hbom : skipUtf8Bom (c :: t) = c :: t := by
    unfold skipUtf8Bom
    refine if_neg fun hbom => hmark ?_
    exact (List.cons_prefix_cons.mp hbom.2).1.symm
  have hskip : skipWhitespace (c :: t) = c :: t :=
    skipWhitespace_blank nil_blank (by simpa using hvisible)
  have hvalue := hparse _ (le_max_left enough (2 * (c :: t).length + 1)) [] (by simp [EndsNumber])
  rw [List.append_nil] at hvalue
  rw [cJSONParse_eq (le_max_right enough (2 * (c :: t).length + 1)), hbom, hskip, hvalue]
  rfl

/-- What `cJSON_Print` and `cJSON_PrintUnformatted` print is parsed by `cJSON_Parse` into what
the item is read as, if its containers are nested in at most `CJSON_NESTING_LIMIT` levels. -/
theorem cJSONParse_cJSONPrint (format : Bool) {v : Json} (h : Printable nestingLimit v) :
    ∃ text v', cJSONPrint format v = some text ∧ cJSONParse text = some v' ∧ Reads v v' := by
  obtain ⟨text, v', hprint, hreads, hparses⟩ :=
    parsesTo_printValue format 0 v nestingLimit 0 h (by omega)
  exact ⟨text, v', hprint, hparses.cJSONParse, hreads⟩

/-- An item with a string that needs escape sequences, a number that is no `int`, and an array. -/
def mixedItem : Json :=
  .object [(some (literal "a\"b"), .string (literal "line\n")),
    (none, .array [(none, .number (.finite (1 / 2))), (none, .number (.infinite true))])]

/-- The item can be printed. -/
theorem printable_mixedItem : Printable nestingLimit mixedItem := by
  have hhalf : IsDouble (1 / 2) := by
    unfold IsDouble
    decide +kernel
  simp [nestingLimit, mixedItem, Printable, PrintableAll]
  simpa using hhalf

/-- An item with members of every kind is printed and read back. -/
theorem cJSONParse_cJSONPrint_mixedItem :
    ∃ text v', cJSONPrint true mixedItem = some text ∧ cJSONParse text = some v' ∧
      Reads mixedItem v' :=
  cJSONParse_cJSONPrint true printable_mixedItem

end Saliwen.CJson
