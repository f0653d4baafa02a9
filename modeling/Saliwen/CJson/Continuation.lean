import Saliwen.CJson.Tokens

/-!
# Parsing a text and its continuations

The parser reads the first value of a text and nothing behind it, except that a number at
the very end of the text may go on. Every text that parses therefore parses to the same
item whatever follows, as long as that item is no number. The same induction shows that the
fuel supplied by `cJSONParse` never runs out.
-/

namespace Saliwen.CJson

/-! ## Branches

Which branch of `parse_value` a text takes depends on its first bytes only. -/

/-- The branches of `parse_value`. -/
inductive Form where
  | word (text : Bytes) (item : Json)
  | string
  | number
  | container (k : Container)

/-- The branch taken for a text. -/
def formOf (s : Bytes) : Option Form :=
  if literal "null" <+: s then some (.word (literal "null") .null)
  else if literal "false" <+: s then some (.word (literal "false") (.bool false))
  else if literal "true" <+: s then some (.word (literal "true") (.bool true))
  else
    match s with
    | [] => none
    | c :: _ =>
      if c = ascii '"' then some .string
      else if c = ascii '-' ∨ isDigit c = true then some .number
      else if c = ascii '[' then some (.container .array)
      else if c = ascii '{' then some (.container .object)
      else none

/-- What a branch of `parse_value` does. -/
def Form.parse (f : Form) (fuel depth : ℕ) (s : Bytes) : Option (Json × Bytes) :=
  match f with
  | .word text item => some (item, s.drop text.length)
  | .string => (parseString s).map fun (v, rest) => (.string v, rest)
  | .number => (parseNumber s).map fun (v, rest) => (.number v, rest)
  | .container k => parseChildren k (parseItems k fuel) depth (s.drop 1)

/-- `parse_value` chooses a branch and takes it. -/
theorem parseValue_succ (fuel depth : ℕ) (s : Bytes) :
    parseValue (fuel + 1) depth s = (formOf s).bind fun f => f.parse fuel depth s := by
  unfold parseValue formOf
  split
  · rfl
  · split
    · rfl
    · split
      · rfl
      · cases s with
        | nil => rfl
        | cons c rest =>
          dsimp only
          split
          · rfl
          · split
            · rfl
            · split
              · rfl
              · split
                · rfl
                · rfl

private theorem not_cons_prefix {c d : UInt8} {w s : Bytes} (hne : c ≠ d) :
    ¬ c :: w <+: d :: s := by
  rw [List.cons_prefix_cons]
  exact fun h => hne h.1

/-- A text that begins with `null` is taken for the word. -/
theorem formOf_null {s : Bytes} (h : literal "null" <+: s) :
    formOf s = some (.word (literal "null") .null) := by
  simp only [formOf, h, if_true]

/-- A text that begins with `false` is taken for the word. -/
theorem formOf_false {s : Bytes} (h : literal "false" <+: s) :
    formOf s = some (.word (literal "false") (.bool false)) := by
  have hnull : ¬ literal "null" <+: s := by
    obtain ⟨t, rfl⟩ := h
    exact not_cons_prefix (by decide)
  simp only [formOf, hnull, h, if_true, if_false]

/-- A text that begins with `true` is taken for the word. -/
theorem formOf_true {s : Bytes} (h : literal "true" <+: s) :
    formOf s = some (.word (literal "true") (.bool true)) := by
  have hnull : ¬ literal "null" <+: s := by
    obtain ⟨t, rfl⟩ := h
    exact not_cons_prefix (by decide)
  have hfalse : ¬ literal "false" <+: s := by
    obtain ⟨t, rfl⟩ := h
    exact not_cons_prefix (by decide)
  simp only [formOf, hnull, hfalse, h, if_true, if_false]

/-- A text whose first byte begins none of the three words takes the branch of that byte. -/
private theorem formOf_cons {c : UInt8} (hn : c ≠ ascii 'n') (hf : c ≠ ascii 'f')
    (ht : c ≠ ascii 't') (s s' : Bytes) : formOf (c :: s) = formOf (c :: s') := by
  have hnull : ∀ u, ¬ literal "null" <+: c :: u := fun u => not_cons_prefix hn.symm
  have hfalse : ∀ u, ¬ literal "false" <+: c :: u := fun u => not_cons_prefix hf.symm
  have htrue : ∀ u, ¬ literal "true" <+: c :: u := fun u => not_cons_prefix ht.symm
  simp only [formOf, hnull, hfalse, htrue, if_false]

/-- A continuation takes the same branch. -/
theorem formOf_append {s : Bytes} {f : Form} (h : formOf s = some f) (q : Bytes) :
    formOf (s ++ q) = some f := by
  have hpre : s <+: s ++ q := List.prefix_append s q
  by_cases hnull : literal "null" <+: s
  · rw [formOf_null (hnull.trans hpre), ← h, formOf_null hnull]
  by_cases hfalse : literal "false" <+: s
  · rw [formOf_false (hfalse.trans hpre), ← h, formOf_false hfalse]
  by_cases htrue : literal "true" <+: s
  · rw [formOf_true (htrue.trans hpre), ← h, formOf_true htrue]
  cases s with
  | nil => cases h
  | cons c s =>
    -- The branch was chosen by the first byte, which therefore begins none of the words.
    simp only [formOf, hnull, hfalse, htrue, if_false] at h
    have hn : c ≠ ascii 'n' := by
      rintro rfl
      cases h
    have hf : c ≠ ascii 'f' := by
      rintro rfl
      cases h
    have ht : c ≠ ascii 't' := by
      rintro rfl
      cases h
    rw [List.cons_append, formOf_cons hn hf ht (s ++ q) s]
    simp only [formOf, hnull, hfalse, htrue, if_false]
    exact h

/-- A word branch finds its text, and its item is no number. -/
theorem formOf_eq_word {s text : Bytes} {item : Json} (h : formOf s = some (.word text item)) :
    text <+: s ∧ 0 < text.length ∧ ∀ x, item ≠ .number x := by
  unfold formOf at h
  split_ifs at h with hnull hfalse htrue
  · cases h
    exact ⟨hnull, by decide, fun _ hx => by cases hx⟩
  · cases h
    exact ⟨hfalse, by decide, fun _ hx => by cases hx⟩
  · cases h
    exact ⟨htrue, by decide, fun _ hx => by cases hx⟩
  · split at h
    · cases h
    · split_ifs at h <;> cases h

/-- An empty text has no form. -/
theorem ne_nil_of_formOf {s : Bytes} {f : Form} (h : formOf s = some f) : s ≠ [] := by
  rintro rfl
  cases h

/-- What a name of an object's child needs to be read. -/
theorem parseName_object_eq_some {s rest : Bytes} {name : Option Bytes} :
    parseName .object s = some (name, rest) ↔
      ∃ text t u, parseString s = some (text, t) ∧ skipWhitespace t = ascii ':' :: u ∧
        name = some text ∧ rest = skipWhitespace u := by
  simp only [parseName, Option.bind_eq_bind, Option.bind_eq_some_iff, Prod.exists]
  refine exists_congr fun text => exists_congr fun t => ?_
  cases hskip : skipWhitespace t with
  | nil => simp
  | cons c u =>
    by_cases hc : c = ascii ':'
    · simp [hc, eq_comm]
    · simp [hc]

/-- The name of a member is read the same with more text behind it. -/
theorem parseName_append {k : Container} {s rest : Bytes} {name : Option Bytes}
    (h : parseName k s = some (name, rest)) (hrest : rest ≠ []) (q : Bytes) :
    parseName k (s ++ q) = some (name, rest ++ q) := by
  cases k with
  | array =>
    cases h
    rfl
  | object =>
    obtain ⟨text, t, u, hstring, hcolon, rfl, rfl⟩ := parseName_object_eq_some.mp h
    obtain ⟨c, v, hcv⟩ := List.exists_cons_of_ne_nil hrest
    refine parseName_object_eq_some.mpr
      ⟨text, t ++ q, u ++ q, parseString_append hstring q, skipWhitespace_append hcolon q, rfl, ?_⟩
    rw [skipWhitespace_append hcv, hcv, List.cons_append]

/-- Reading a name does not lengthen the text. -/
theorem parseName_length {k : Container} {s rest : Bytes} {name : Option Bytes}
    (h : parseName k s = some (name, rest)) : rest.length ≤ s.length := by
  cases k with
  | array =>
    cases h
    exact Nat.le_refl _
  | object =>
    obtain ⟨text, t, u, hstring, hcolon, -, rfl⟩ := parseName_object_eq_some.mp h
    have hlt := parseString_length hstring
    have hle := skipWhitespace_length_le t
    have hle' := skipWhitespace_length_le u
    rw [hcolon, List.length_cons] at hle
    omega

/-- One round of the loop over children: a name and a value, and behind them a comma and
further children, or the closing bracket. -/
theorem parseItems_succ_eq_some {k : Container} {fuel depth : ℕ} {s rest : Bytes}
    {items : List (Option Bytes × Json)} :
    parseItems k (fuel + 1) depth s = some (items, rest) ↔
      ∃ name s₁ value s₂ c s₃, parseName k s = some (name, s₁) ∧
        parseValue fuel depth s₁ = some (value, s₂) ∧ skipWhitespace s₂ = c :: s₃ ∧
        ((c = ascii ',' ∧ ∃ more, parseItems k fuel depth (skipWhitespace s₃) = some (more, rest) ∧
            items = (name, value) :: more) ∨
          (c ≠ ascii ',' ∧ c = k.closing ∧ rest = s₃ ∧ items = [(name, value)])) := by
  simp only [parseItems, Option.bind_eq_bind, Option.bind_eq_some_iff, Prod.exists]
  refine exists_congr fun name => exists_congr fun s₁ => ?_
  constructor
  · rintro ⟨hname, value, s₂, hvalue, hloop⟩
    refine ⟨value, s₂, ?_⟩
    cases hskip : skipWhitespace s₂ with
    | nil =>
      rw [hskip] at hloop
      cases hloop
    | cons c s₃ =>
      rw [hskip] at hloop
      dsimp only at hloop
      refine ⟨c, s₃, hname, hvalue, rfl, ?_⟩
      split_ifs at hloop with hcomma hclose
      · obtain ⟨⟨more, rest'⟩, hmore, hresult⟩ := Option.bind_eq_some_iff.mp hloop
        cases hresult
        exact Or.inl ⟨hcomma, more, hmore, rfl⟩
      · cases hloop
        exact Or.inr ⟨hcomma, hclose, rfl, rfl⟩
  · rintro ⟨value, s₂, c, s₃, hname, hvalue, hskip, hnext⟩
    refine ⟨hname, value, s₂, hvalue, ?_⟩
    rw [hskip]
    rcases hnext with ⟨rfl, more, hmore, rfl⟩ | ⟨hcomma, rfl, rfl, rfl⟩
    · simp [hmore]
    · simp [hcomma]

/-- The item is complete: a number is followed by a byte that cannot continue it. -/
def Complete (v : Json) (rest : Bytes) : Prop :=
  ∀ x, v = .number x → ∃ c t, rest = c :: t ∧ isNumberByte c = false

/-- A child is complete, because a comma or the closing bracket follows it. -/
theorem complete_of_skipWhitespace {k : Container} {v : Json} {s t : Bytes} {c : UInt8}
    (h : skipWhitespace s = c :: t) (hc : c = ascii ',' ∨ c = k.closing) : Complete v s := by
  intro _ _
  apply head_not_numberByte h
  rcases hc with rfl | rfl
  · decide
  · cases k <;> decide

/-- `items'` reads on continuations what `items` reads on texts. -/
def ReadsOn {α : Type} (items items' : ℕ → Bytes → Option (α × Bytes)) : Prop :=
  ∀ depth s v rest, items depth s = some (v, rest) →
    ∀ q, items' depth (s ++ q) = some (v, rest ++ q)

/-- The children of a container are read the same with more text behind them. -/
theorem parseChildren_append {k : Container}
    {items items' : ℕ → Bytes → Option (List (Option Bytes × Json) × Bytes)}
    (hitems : ReadsOn items items') {depth : ℕ} {s rest : Bytes} {v : Json}
    (h : parseChildren k items depth s = some (v, rest)) (q : Bytes) :
    parseChildren k items' depth (s ++ q) = some (v, rest ++ q) := by
  unfold parseChildren at h ⊢
  split_ifs at h ⊢ with hdepth
  cases hskip : skipWhitespace s with
  | nil =>
    rw [hskip] at h
    cases h
  | cons c t =>
    rw [hskip] at h
    rw [skipWhitespace_append hskip]
    dsimp only at h ⊢
    split_ifs at h ⊢ with hclose
    · cases h
      rfl
    · obtain ⟨⟨child, rest'⟩, hread, hresult⟩ := Option.map_eq_some_iff.mp h
      cases hresult
      rw [← List.cons_append, hitems _ _ _ _ hread q]
      rfl

/-- Every branch reads on continuations what it reads on texts. -/
theorem Form.parse_append {f : Form} {fuel fuel' : ℕ}
    (hitems : ∀ k, ReadsOn (parseItems k fuel) (parseItems k fuel')) {depth : ℕ}
    {s rest : Bytes} {v : Json} (hform : formOf s = some f)
    (h : f.parse fuel depth s = some (v, rest)) (hcomplete : Complete v rest) (q : Bytes) :
    f.parse fuel' depth (s ++ q) = some (v, rest ++ q) := by
  cases f with
  | word text item =>
    cases h
    have hlength := (formOf_eq_word hform).1.length_le
    rw [Form.parse, List.drop_append_of_le_length hlength]
  | string =>
    obtain ⟨⟨w, rest'⟩, hread, hresult⟩ := Option.map_eq_some_iff.mp h
    cases hresult
    simp [Form.parse, parseString_append hread]
  | number =>
    obtain ⟨⟨x, rest'⟩, hread, hresult⟩ := Option.map_eq_some_iff.mp h
    cases hresult
    obtain ⟨c, t, rfl, hc⟩ := hcomplete x rfl
    simp [Form.parse, parseNumber_append hread hc]
  | container k =>
    have hpos := List.length_pos_iff.mpr (ne_nil_of_formOf hform)
    rw [Form.parse, List.drop_append_of_le_length (by omega)]
    exact parseChildren_append (hitems k) h q

/-- A value is not read from an empty text. -/
theorem ne_nil_of_parseValue {fuel depth : ℕ} {s rest : Bytes} {v : Json}
    (h : parseValue fuel depth s = some (v, rest)) : s ≠ [] := by
  cases fuel with
  | zero => cases h
  | succ fuel =>
    rw [parseValue_succ] at h
    obtain ⟨f, hform, -⟩ := Option.bind_eq_some_iff.mp h
    exact ne_nil_of_formOf hform

/-- Items are not read from an empty text. -/
theorem ne_nil_of_parseItems {k : Container} {fuel depth : ℕ} {s rest : Bytes}
    {items : List (Option Bytes × Json)} (h : parseItems k fuel depth s = some (items, rest)) :
    s ≠ [] := by
  cases fuel with
  | zero => cases h
  | succ fuel =>
    obtain ⟨name, s₁, value, s₂, c, s₃, hname, hvalue, -⟩ := parseItems_succ_eq_some.mp h
    have hpos := List.length_pos_iff.mpr (ne_nil_of_parseValue hvalue)
    have hle := parseName_length hname
    rintro rfl
    simp only [List.length_nil] at hle
    omega

/-- Complete items and lists of children parse alike in every continuation, with at least
as much fuel. The induction is on the fuel, over both parsers at once. -/
theorem parse_append (fuel : ℕ) :
    (∀ depth s v rest, parseValue fuel depth s = some (v, rest) → Complete v rest →
      ∀ fuel', fuel ≤ fuel' → ∀ q, parseValue fuel' depth (s ++ q) = some (v, rest ++ q)) ∧
    (∀ k fuel', fuel ≤ fuel' → ReadsOn (parseItems k fuel) (parseItems k fuel')) := by
  induction fuel with
  | zero =>
    constructor
    · intro depth s v rest h
      cases h
    · intro k fuel' _ depth s v rest h
      cases h
  | succ fuel ih =>
    obtain ⟨ihvalue, ihitems⟩ := ih
    constructor
    · intro depth s v rest h hcomplete fuel' hle q
      obtain ⟨fuel', rfl⟩ : ∃ n, fuel' = n + 1 := ⟨fuel' - 1, by omega⟩
      rw [parseValue_succ] at h ⊢
      obtain ⟨f, hform, hparse⟩ := Option.bind_eq_some_iff.mp h
      rw [formOf_append hform q]
      exact Form.parse_append (fun k => ihitems k fuel' (by omega)) hform hparse hcomplete q
    · intro k fuel' hle depth s v rest h q
      obtain ⟨fuel', rfl⟩ : ∃ n, fuel' = n + 1 := ⟨fuel' - 1, by omega⟩
      obtain ⟨name, s₁, value, s₂, c, s₃, hname, hvalue, hskip, hnext⟩ :=
        parseItems_succ_eq_some.mp h
      have hc : c = ascii ',' ∨ c = k.closing := by
        rcases hnext with ⟨hcomma, -⟩ | ⟨-, hclose, -⟩
        · exact Or.inl hcomma
        · exact Or.inr hclose
      have hvalue' := ihvalue depth s₁ value s₂ hvalue (complete_of_skipWhitespace hskip hc)
        fuel' (by omega) q
      refine parseItems_succ_eq_some.mpr ⟨name, s₁ ++ q, value, s₂ ++ q, c, s₃ ++ q,
        parseName_append hname (ne_nil_of_parseValue hvalue) q, hvalue',
        skipWhitespace_append hskip q, ?_⟩
      rcases hnext with ⟨hcomma, more, hmore, hitems⟩ | ⟨hcomma, hclose, rfl, hitems⟩
      · refine Or.inl ⟨hcomma, more, ?_, hitems⟩
        obtain ⟨d, u, hd⟩ := List.exists_cons_of_ne_nil (ne_nil_of_parseItems hmore)
        rw [skipWhitespace_append hd, ← List.cons_append, ← hd]
        exact ihitems k fuel' (by omega) depth _ more rest hmore q
      · exact Or.inr ⟨hcomma, hclose, rfl, hitems⟩

/-! ## Fuel -/

/-- Reading the children of a container consumes text. -/
theorem parseChildren_length {k : Container}
    {items : ℕ → Bytes → Option (List (Option Bytes × Json) × Bytes)}
    (hitems : ∀ depth s v rest, items depth s = some (v, rest) → rest.length < s.length)
    {depth : ℕ} {s rest : Bytes} {v : Json} (h : parseChildren k items depth s = some (v, rest)) :
    rest.length < s.length := by
  have hle := skipWhitespace_length_le s
  unfold parseChildren at h
  split_ifs at h
  cases hskip : skipWhitespace s with
  | nil =>
    rw [hskip] at h
    cases h
  | cons c t =>
    rw [hskip] at h hle
    rw [List.length_cons] at hle
    dsimp only at h
    split_ifs at h
    · cases h
      omega
    · obtain ⟨⟨child, rest'⟩, hread, hresult⟩ := Option.map_eq_some_iff.mp h
      cases hresult
      have hlt := hitems _ _ _ _ hread
      rw [List.length_cons] at hlt
      dsimp only
      omega

/-- Reading a value of any form consumes text. -/
theorem Form.parse_length {f : Form} {fuel : ℕ}
    (hitems : ∀ k depth s v rest, parseItems k fuel depth s = some (v, rest) →
      rest.length < s.length)
    {depth : ℕ} {s rest : Bytes} {v : Json} (hform : formOf s = some f)
    (h : f.parse fuel depth s = some (v, rest)) : rest.length < s.length := by
  have hpos := List.length_pos_iff.mpr (ne_nil_of_formOf hform)
  cases f with
  | word text item =>
    cases h
    have htext := (formOf_eq_word hform).2.1
    rw [List.length_drop]
    omega
  | string =>
    obtain ⟨⟨w, rest'⟩, hread, hresult⟩ := Option.map_eq_some_iff.mp h
    cases hresult
    exact parseString_length hread
  | number =>
    obtain ⟨⟨x, rest'⟩, hread, hresult⟩ := Option.map_eq_some_iff.mp h
    cases hresult
    exact parseNumber_length hread
  | container k =>
    have hlt := parseChildren_length (hitems k) h
    rw [List.length_drop] at hlt
    omega

/-- Every successful parse consumes input. -/
theorem parse_length (fuel : ℕ) :
    (∀ depth s v rest, parseValue fuel depth s = some (v, rest) → rest.length < s.length) ∧
    (∀ k depth s v rest, parseItems k fuel depth s = some (v, rest) → rest.length < s.length) := by
  induction fuel with
  | zero =>
    constructor
    · intro depth s v rest h
      cases h
    · intro k depth s v rest h
      cases h
  | succ fuel ih =>
    obtain ⟨ihvalue, ihitems⟩ := ih
    constructor
    · intro depth s v rest h
      rw [parseValue_succ] at h
      obtain ⟨f, hform, hparse⟩ := Option.bind_eq_some_iff.mp h
      exact Form.parse_length ihitems hform hparse
    · intro k depth s v rest h
      obtain ⟨name, s₁, value, s₂, c, s₃, hname, hvalue, hskip, hnext⟩ :=
        parseItems_succ_eq_some.mp h
      have hle₁ := parseName_length hname
      have hlt₂ := ihvalue _ _ _ _ hvalue
      have hle₃ := skipWhitespace_length_le s₂
      rw [hskip, List.length_cons] at hle₃
      rcases hnext with ⟨-, more, hmore, -⟩ | ⟨-, -, rfl, -⟩
      · have hlt₄ := ihitems _ _ _ _ _ hmore
        have hle₄ := skipWhitespace_length_le s₃
        omega
      · omega

/-- A container parses alike with two loops that agree on what it holds. -/
theorem parseChildren_congr {k : Container}
    {items items' : ℕ → Bytes → Option (List (Option Bytes × Json) × Bytes)} {depth : ℕ}
    {s : Bytes} (h : items (depth + 1) (skipWhitespace s) = items' (depth + 1) (skipWhitespace s)) :
    parseChildren k items depth s = parseChildren k items' depth s := by
  unfold parseChildren
  cases hskip : skipWhitespace s with
  | nil => rfl
  | cons c t =>
    rw [hskip] at h
    dsimp only
    rw [h]

/-- The loop over children gives the same with two amounts of fuel if the first child does
and the further children do. -/
theorem parseItems_succ_congr {k : Container} {fuel fuel' depth : ℕ} {s : Bytes}
    (hvalue : ∀ name s₁, parseName k s = some (name, s₁) →
      parseValue fuel depth s₁ = parseValue fuel' depth s₁)
    (hitems : ∀ name s₁ value s₂ c s₃, parseName k s = some (name, s₁) →
      parseValue fuel' depth s₁ = some (value, s₂) → skipWhitespace s₂ = c :: s₃ →
      parseItems k fuel depth (skipWhitespace s₃) = parseItems k fuel' depth (skipWhitespace s₃)) :
    parseItems k (fuel + 1) depth s = parseItems k (fuel' + 1) depth s := by
  rw [parseItems, parseItems]
  cases hname : parseName k s with
  | none => rfl
  | some named =>
    obtain ⟨name, s₁⟩ := named
    simp only [Option.bind_eq_bind, Option.bind_some]
    rw [hvalue name s₁ hname]
    cases hparse : parseValue fuel' depth s₁ with
    | none => rfl
    | some valued =>
      obtain ⟨value, s₂⟩ := valued
      simp only [Option.bind_some]
      cases hskip : skipWhitespace s₂ with
      | nil => rfl
      | cons c s₃ =>
        dsimp only
        rw [hitems name s₁ value s₂ c s₃ hname hparse hskip]

/-- Fuel beyond twice the length of the text changes nothing. -/
theorem parse_fuel (fuel : ℕ) :
    (∀ depth s fuel', 2 * s.length + 1 ≤ fuel → 2 * s.length + 1 ≤ fuel' →
      parseValue fuel depth s = parseValue fuel' depth s) ∧
    (∀ k depth s fuel', 2 * s.length + 2 ≤ fuel → 2 * s.length + 2 ≤ fuel' →
      parseItems k fuel depth s = parseItems k fuel' depth s) := by
  induction fuel with
  | zero =>
    constructor
    · intro depth s fuel' h
      omega
    · intro k depth s fuel' h
      omega
  | succ fuel ih =>
    obtain ⟨ihvalue, ihitems⟩ := ih
    constructor
    · intro depth s fuel' h h'
      obtain ⟨fuel', rfl⟩ : ∃ n, fuel' = n + 1 := ⟨fuel' - 1, by omega⟩
      rw [parseValue_succ, parseValue_succ]
      cases hform : formOf s with
      | none => rfl
      | some f =>
        have hpos := List.length_pos_iff.mpr (ne_nil_of_formOf hform)
        cases f with
        | container k =>
          have hle := skipWhitespace_length_le (s.drop 1)
          rw [List.length_drop] at hle
          exact parseChildren_congr (ihitems k _ _ fuel' (by omega) (by omega))
        | _ => rfl
    · intro k depth s fuel' h h'
      obtain ⟨fuel', rfl⟩ : ∃ n, fuel' = n + 1 := ⟨fuel' - 1, by omega⟩
      apply parseItems_succ_congr
      · intro name s₁ hname
        have hle₁ := parseName_length hname
        exact ihvalue depth s₁ fuel' (by omega) (by omega)
      · intro name s₁ value s₂ c s₃ hname hvalue hskip
        have hle₁ := parseName_length hname
        have hlt₂ := (parse_length fuel').1 _ _ _ _ hvalue
        have hle₃ := skipWhitespace_length_le s₂
        rw [hskip, List.length_cons] at hle₃
        have hle₄ := skipWhitespace_length_le s₃
        exact ihitems k depth _ fuel' (by omega) (by omega)

/-- Skipping a byte order mark does not lengthen the text. -/
theorem skipUtf8Bom_length_le (s : Bytes) : (skipUtf8Bom s).length ≤ s.length := by
  unfold skipUtf8Bom
  split
  · rw [List.length_drop]
    omega
  · exact Nat.le_refl _

/-- `cJSONParse` never runs out of fuel: more fuel gives the same result. -/
theorem cJSONParse_eq {value : Bytes} {fuel : ℕ} (h : 2 * value.length + 1 ≤ fuel) :
    cJSONParse value =
      (parseValue fuel 0 (skipWhitespace (skipUtf8Bom value))).map Prod.fst := by
  have hle := skipWhitespace_length_le (skipUtf8Bom value)
  have hle' := skipUtf8Bom_length_le value
  rw [cJSONParse, (parse_fuel _).1 0 _ fuel (by omega) (by omega)]

/-! ## Whole texts -/

/-- The first byte of the value does not move when the text goes on. -/
theorem textStart_append {p t : Bytes} {c : UInt8}
    (h : skipWhitespace (skipUtf8Bom p) = c :: t) (hc : c ≠ 0xEF) (q : Bytes) :
    skipWhitespace (skipUtf8Bom (p ++ q)) = c :: (t ++ q) := by
  have hbom : skipUtf8Bom (p ++ q) = skipUtf8Bom p ++ q := by
    unfold skipUtf8Bom at h ⊢
    by_cases hmark : 4 ≤ p.length ∧ [0xEF, 0xBB, 0xBF] <+: p
    · have hmark' : 4 ≤ (p ++ q).length ∧ [0xEF, 0xBB, 0xBF] <+: p ++ q := by
        refine ⟨?_, hmark.2.trans (List.prefix_append p q)⟩
        rw [List.length_append]
        omega
      rw [if_pos hmark, if_pos hmark', List.drop_append_of_le_length (by omega)]
    · rw [if_neg hmark] at h ⊢
      rw [if_neg]
      rintro ⟨-, hprefix⟩
      cases p with
      | nil => cases h
      | cons d p =>
        -- The text would be the beginning of a byte order mark and nothing else.
        obtain rfl : 0xEF = d := (List.cons_prefix_cons.mp hprefix).1
        exact hc (List.cons.inj h).1.symm
  rw [hbom]
  exact skipWhitespace_append h q

/-- A text that parses, split at the branch it takes. -/
theorem cJSONParse_eq_some {p : Bytes} {v : Json} (h : cJSONParse p = some v) :
    ∃ c t f rest, skipWhitespace (skipUtf8Bom p) = c :: t ∧ c ≠ 0xEF ∧
      formOf (c :: t) = some f ∧
      parseValue (2 * p.length + 1) 0 (c :: t) = some (v, rest) ∧
      f.parse (2 * p.length) 0 (c :: t) = some (v, rest) := by
  obtain ⟨⟨v', rest⟩, hparse, rfl⟩ := Option.map_eq_some_iff.mp h
  obtain ⟨c, t, hstart⟩ := List.exists_cons_of_ne_nil (ne_nil_of_parseValue hparse)
  rw [hstart] at hparse
  have hbranch := hparse
  rw [parseValue_succ] at hbranch
  obtain ⟨f, hform, hparse'⟩ := Option.bind_eq_some_iff.mp hbranch
  refine ⟨c, t, f, rest, hstart, ?_, hform, hparse, hparse'⟩
  rintro rfl
  have hnull : ¬ literal "null" <+: 0xEF :: t := not_cons_prefix (by decide)
  have hfalse : ¬ literal "false" <+: 0xEF :: t := not_cons_prefix (by decide)
  have htrue : ¬ literal "true" <+: 0xEF :: t := not_cons_prefix (by decide)
  simp only [formOf, hnull, hfalse, htrue, if_false] at hform
  cases hform

/-- A text that parses to anything but a number parses to the same item in every
continuation. -/
theorem cJSONParse_append {p : Bytes} {v : Json} (h : cJSONParse p = some v)
    (hv : ∀ x, v ≠ .number x) (q : Bytes) : cJSONParse (p ++ q) = some v := by
  obtain ⟨c, t, f, rest, hstart, hc, -, hparse, -⟩ := cJSONParse_eq_some h
  have hcomplete : Complete v rest := fun x hx => absurd hx (hv x)
  have hle : 2 * p.length + 1 ≤ 2 * (p ++ q).length + 1 := by
    rw [List.length_append]
    omega
  rw [cJSONParse, textStart_append hstart hc q, ← List.cons_append,
    (parse_append _).1 _ _ _ _ hparse hcomplete _ hle q]
  rfl

/-- Only the number branch gives a number. -/
theorem Form.eq_number {f : Form} {fuel depth : ℕ} {s rest : Bytes} {x : Number}
    (hform : formOf s = some f) (h : f.parse fuel depth s = some (.number x, rest)) :
    f = .number := by
  cases f with
  | number => rfl
  | word text item =>
    cases h
    exact absurd rfl ((formOf_eq_word hform).2.2 x)
  | string =>
    obtain ⟨_, _, hresult⟩ := Option.map_eq_some_iff.mp h
    cases hresult
  | container k =>
    simp only [Form.parse, parseChildren] at h
    split_ifs at h
    split at h
    · cases h
    · split_ifs at h
      · cases k <;> cases h
      · obtain ⟨_, _, hresult⟩ := Option.map_eq_some_iff.mp h
        cases k <;> cases hresult

/-- A text that parses to a number parses to a number or not at all in every
continuation. -/
theorem cJSONParse_append_number {p : Bytes} {x : Number} (h : cJSONParse p = some (.number x))
    (q : Bytes) {v : Json} (hv : cJSONParse (p ++ q) = some v) : ∃ y, v = .number y := by
  obtain ⟨c, t, f, rest, hstart, hc, hform, -, hparse⟩ := cJSONParse_eq_some h
  obtain rfl := Form.eq_number hform hparse
  obtain ⟨c', t', f', rest', hstart', -, hform', -, hparse'⟩ := cJSONParse_eq_some hv
  rw [textStart_append hstart hc q] at hstart'
  cases hstart'
  rw [← List.cons_append, formOf_append hform q] at hform'
  cases hform'
  obtain ⟨⟨y, _⟩, _, hresult⟩ := Option.map_eq_some_iff.mp hparse'
  cases hresult
  exact ⟨y, rfl⟩

end Saliwen.CJson
