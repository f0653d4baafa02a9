import Saliwen.CJson.Parse

/-!
# White space, strings and numbers in a longer text

How the scanners of the parser behave when the text goes on behind what they read, and how
much of it they consume.
-/

namespace Saliwen.CJson

/-- White space is skipped the same with more text behind it. -/
theorem skipWhitespace_append {s t : Bytes} {c : UInt8} (h : skipWhitespace s = c :: t)
    (q : Bytes) : skipWhitespace (s ++ q) = c :: (t ++ q) := by
  unfold skipWhitespace at h ⊢
  rw [List.dropWhile_append, h]
  simp

/-- Skipping white space does not lengthen the text. -/
theorem skipWhitespace_length_le (s : Bytes) : (skipWhitespace s).length ≤ s.length :=
  (List.dropWhile_suffix _).length_le

/-- White space is no part of a number. -/
theorem isNumberByte_of_le {c : UInt8} (h : c ≤ 32) : isNumberByte c = false := by
  obtain ⟨c⟩ := c
  revert c
  decide +kernel

/-- If the next byte behind white space is no part of a number, neither is the next byte. -/
theorem head_not_numberByte {s t : Bytes} {c : UInt8} (h : skipWhitespace s = c :: t)
    (hc : isNumberByte c = false) : ∃ d u, s = d :: u ∧ isNumberByte d = false := by
  cases s with
  | nil => simp [skipWhitespace] at h
  | cons d u =>
    refine ⟨d, u, rfl, ?_⟩
    by_cases hd : d ≤ 32
    · exact isNumberByte_of_le hd
    · simp only [skipWhitespace, List.dropWhile_cons, decide_eq_true_eq, hd, if_false,
        List.cons.injEq] at h
      rw [h.1]
      exact hc

/-- A quotation mark ends the string. -/
@[simp] theorem scanString_quote (s : Bytes) : scanString (ascii '"' :: s) = some ([], s) := by
  unfold scanString
  simp

/-- A backslash takes the next character with it. -/
theorem scanString_escape (d : UInt8) (s : Bytes) :
    scanString (ascii '\\' :: d :: s) =
      (scanString s).map fun (body, rest) => (ascii '\\' :: d :: body, rest) := by
  rw [scanString]
  rfl

/-- Every other character belongs to the string. -/
theorem scanString_plain {c : UInt8} (hquote : c ≠ ascii '"') (hescape : c ≠ ascii '\\')
    (s : Bytes) :
    scanString (c :: s) = (scanString s).map fun (body, rest) => (c :: body, rest) := by
  rw [scanString.eq_def]
  simp [hquote, hescape]

/-- The end of a string is found the same with more text behind it. -/
theorem scanString_append {s body rest : Bytes} (h : scanString s = some (body, rest))
    (q : Bytes) : scanString (s ++ q) = some (body, rest ++ q) := by
  fun_induction scanString s generalizing body rest with
  | case1 => cases h
  | case2 s =>
    cases h
    simp
  | case3 => cases h
  | case4 d s _ ih =>
    obtain ⟨⟨body', rest'⟩, hscan, hresult⟩ := Option.map_eq_some_iff.mp h
    cases hresult
    simp [scanString_escape, ih hscan]
  | case5 c s hquote hescape ih =>
    obtain ⟨⟨body', rest'⟩, hscan, hresult⟩ := Option.map_eq_some_iff.mp h
    cases hresult
    simp [scanString_plain hquote hescape, ih hscan]

/-- Scanning a string consumes text. -/
theorem scanString_length {s body rest : Bytes} (h : scanString s = some (body, rest)) :
    rest.length < s.length := by
  fun_induction scanString s generalizing body rest with
  | case1 => cases h
  | case2 s =>
    cases h
    simp
  | case3 => cases h
  | case4 d s _ ih =>
    obtain ⟨⟨body', rest'⟩, hscan, hresult⟩ := Option.map_eq_some_iff.mp h
    cases hresult
    have hlt := ih hscan
    simp only [List.length_cons]
    omega
  | case5 c s hquote hescape ih =>
    obtain ⟨⟨body', rest'⟩, hscan, hresult⟩ := Option.map_eq_some_iff.mp h
    cases hresult
    have hlt := ih hscan
    simp only [List.length_cons]
    omega

/-- What `parse_string` needs to succeed. -/
theorem parseString_eq_some {s v rest : Bytes} :
    parseString s = some (v, rest) ↔
      ∃ t body, s = ascii '"' :: t ∧ scanString t = some (body, rest) ∧
        unescape body 0 = some v := by
  cases s with
  | nil => simp [parseString]
  | cons c t =>
    by_cases hc : c = ascii '"'
    · subst hc
      simp only [parseString, if_true, Option.bind_eq_bind, Option.bind_eq_some_iff,
        Option.some.injEq, Prod.exists, Prod.mk.injEq, List.cons.injEq, true_and]
      constructor
      · rintro ⟨body, rest', hscan, output, hout, rfl, rfl⟩
        exact ⟨t, body, rfl, hscan, hout⟩
      · rintro ⟨t', body, rfl, hscan, hout⟩
        exact ⟨body, rest, hscan, v, hout, rfl, rfl⟩
    · simp [parseString, hc]

/-- A string is read the same with more text behind it. -/
theorem parseString_append {s v rest : Bytes} (h : parseString s = some (v, rest)) (q : Bytes) :
    parseString (s ++ q) = some (v, rest ++ q) := by
  obtain ⟨t, body, rfl, hscan, hout⟩ := parseString_eq_some.mp h
  exact parseString_eq_some.mpr ⟨t ++ q, body, rfl, scanString_append hscan q, hout⟩

/-- Reading a string consumes text. -/
theorem parseString_length {s v rest : Bytes} (h : parseString s = some (v, rest)) :
    rest.length < s.length := by
  obtain ⟨t, body, rfl, hscan, _⟩ := parseString_eq_some.mp h
  have hlt := scanString_length hscan
  simp only [List.length_cons]
  omega

private theorem takeWhile_take_append (p : UInt8 → Bool) (n : ℕ) (s q : Bytes)
    (h : ((s.take n).takeWhile p).length < s.length) :
    ((s ++ q).take n).takeWhile p = (s.take n).takeWhile p := by
  induction s generalizing n with
  | nil => simp at h
  | cons c s ih =>
    cases n with
    | zero => simp
    | succ n =>
      by_cases hc : p c = true
      · simp only [List.cons_append, List.take_succ_cons, List.takeWhile_cons, hc, if_true,
          List.length_cons, List.cons.injEq, true_and] at h ⊢
        exact ih n (by omega)
      · simp [hc]

/-- A continuation does not change the bytes copied for `strtod` when they are not the
whole text. -/
theorem numberCString_append {s : Bytes} (h : (numberCString s).length < s.length) (q : Bytes) :
    numberCString (s ++ q) = numberCString s := takeWhile_take_append isNumberByte 63 s q h

/-- A byte at an offset inside `number_c_string` is a number byte. -/
theorem numberCString_length_le {s t : Bytes} {c : UInt8} {n : ℕ} (h : s.drop n = c :: t)
    (hc : isNumberByte c = false) : (numberCString s).length ≤ n := by
  by_contra hlt
  have hn : n < (numberCString s).length := by omega
  have hprefix : numberCString s <+: s :=
    (List.takeWhile_prefix _).trans (List.take_prefix 63 s)
  have hget : (numberCString s)[n]? = some c := by
    have hs : s[n]? = some c := by
      have hzero := congrArg (fun l => l[0]?) h
      simpa using hzero
    obtain ⟨u, hu⟩ := hprefix
    rw [← hu, List.getElem?_append_left hn] at hs
    exact hs
  have hmem : c ∈ numberCString s := List.mem_of_getElem? hget
  have hbyte : isNumberByte c = true := by
    have hall := List.all_takeWhile (p := isNumberByte) (l := s.take 63)
    exact List.all_eq_true.mp hall c hmem
  rw [hc] at hbyte
  cases hbyte

/-- A mantissa with digits is not empty. -/
theorem Mantissa.length_pos {m : Mantissa} (h : m.digits ≠ []) : 0 < m.length := by
  unfold Mantissa.length
  by_cases hwhole : m.whole = []
  · cases hfraction : m.fraction with
    | none => simp [Mantissa.digits, hwhole, hfraction] at h
    | some f => simp
  · have hpos := List.length_pos_iff.mpr hwhole
    omega

/-- `strtod` converts at least one byte. -/
theorem strtod_length_pos {s : Bytes} {v : Number} {n : ℕ} (h : strtod s = some (v, n)) :
    0 < n := by
  unfold strtod at h
  simp only [Option.ite_none_left_eq_some, Option.some.injEq, Prod.mk.injEq] at h
  obtain ⟨hdigits, -, rfl⟩ := h
  have hpos := Mantissa.length_pos hdigits
  omega

/-- What `parse_number` needs to succeed. -/
theorem parseNumber_eq_some {s rest : Bytes} {v : Number} :
    parseNumber s = some (v, rest) ↔
      ∃ n, strtod (numberCString s) = some (v, n) ∧ rest = s.drop n := by
  simp only [parseNumber, Option.map_eq_some_iff, Prod.exists, Prod.mk.injEq]
  constructor
  · rintro ⟨v', n, hstrtod, rfl, rfl⟩
    exact ⟨n, hstrtod, rfl⟩
  · rintro ⟨n, hstrtod, rfl⟩
    exact ⟨v, n, hstrtod, rfl, rfl⟩

/-- A number with another byte behind it does not go on in a continuation. -/
theorem parseNumber_append {s t : Bytes} {v : Number} {c : UInt8}
    (h : parseNumber s = some (v, c :: t)) (hc : isNumberByte c = false) (q : Bytes) :
    parseNumber (s ++ q) = some (v, c :: (t ++ q)) := by
  obtain ⟨n, hstrtod, hrest⟩ := parseNumber_eq_some.mp h
  have hle : (numberCString s).length ≤ n := numberCString_length_le hrest.symm hc
  have hlt : n < s.length := by
    by_contra hge
    rw [List.drop_eq_nil_of_le (by omega)] at hrest
    cases hrest
  apply parseNumber_eq_some.mpr
  refine ⟨n, ?_, ?_⟩
  · rw [numberCString_append (by omega)]
    exact hstrtod
  · rw [List.drop_append_of_le_length (by omega), ← hrest, List.cons_append]

/-- Reading a number consumes text. -/
theorem parseNumber_length {s rest : Bytes} {v : Number} (h : parseNumber s = some (v, rest)) :
    rest.length < s.length := by
  obtain ⟨n, hstrtod, rfl⟩ := parseNumber_eq_some.mp h
  have hpos := strtod_length_pos hstrtod
  cases s with
  | nil =>
    have hnone : strtod (numberCString []) = none := by decide
    rw [hnone] at hstrtod
    cases hstrtod
  | cons c s =>
    rw [List.length_drop, List.length_cons]
    omega

end Saliwen.CJson
