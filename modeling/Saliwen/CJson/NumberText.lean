import Mathlib.Data.Nat.Digits.Lemmas
import Saliwen.CJson.Print
import Saliwen.Lib.Nearest

/-!
# Printed numbers

What `print_number` prints is read by `strtod` from its first to its last byte. The number read
is the one that was printed for an `int`, and for every other `double` one that `compare_double`
does not tell from it.
-/

namespace Saliwen.CJson

/-! ## Decimal digits -/

/-- The character of a digit is a digit. -/
theorem isDigit_digitChar {d : ℕ} (h : d < 10) : isDigit (digitChar d) = true := by
  have hall : ∀ d : Fin 10, isDigit (digitChar d) = true := by decide
  exact hall ⟨d, h⟩

/-- The value of a digit is read back from its character. -/
theorem digitChar_sub {d : ℕ} (h : d < 10) : (digitChar d - ascii '0').toNat = d := by
  have hall : ∀ d : Fin 10, (digitChar d - ascii '0').toNat = d := by decide
  exact hall ⟨d, h⟩

private theorem foldl_digits (s : Bytes) (n : ℕ) :
    s.foldl (fun n c => n * 10 + (c - ascii '0').toNat) n =
      n * 10 ^ s.length + digitsValue s := by
  unfold digitsValue
  induction s generalizing n with
  | nil => simp
  | cons c s ih =>
    rw [List.foldl_cons, ih, List.foldl_cons, ih (0 * 10 + _), List.length_cons, pow_succ]
    ring

/-- The value of two digit strings in sequence. -/
theorem digitsValue_append (s t : Bytes) :
    digitsValue (s ++ t) = digitsValue s * 10 ^ t.length + digitsValue t := by
  conv_lhs => unfold digitsValue
  rw [List.foldl_append, foldl_digits t]
  rfl

/-- Zeros have the value zero. -/
theorem digitsValue_replicate (k : ℕ) : digitsValue (List.replicate k (digitChar 0)) = 0 := by
  induction k with
  | zero => rfl
  | succ k ih =>
    have hzero : digitsValue [digitChar 0] = 0 := by decide
    rw [List.replicate_succ, ← List.singleton_append, digitsValue_append, ih, hzero]
    simp

private theorem digitsValue_reverse {l : List ℕ} (hl : ∀ d ∈ l, d < 10) :
    digitsValue (l.reverse.map digitChar) = Nat.ofDigits 10 l := by
  induction l with
  | nil => rfl
  | cons d l ih =>
    have hd : digitsValue [digitChar d] = d := by
      simp [digitsValue, digitChar_sub (hl d (by simp))]
    rw [List.reverse_cons, List.map_append, List.map_singleton, digitsValue_append, hd,
      ih fun d' hd' => hl d' (List.mem_cons_of_mem _ hd'), Nat.ofDigits_cons]
    simp
    ring

/-- A number is read back from its decimal digits. -/
theorem digitsValue_decimal (n : ℕ) : digitsValue (decimal n) = n := by
  unfold decimal
  split_ifs with hzero
  · rw [hzero]
    decide
  · rw [digitsValue_reverse fun d hd => Nat.digits_lt_base (by norm_num) hd, Nat.ofDigits_digits]

/-- The decimal digits of a number are digits. -/
theorem isDigit_of_mem_decimal {n : ℕ} {c : UInt8} (h : c ∈ decimal n) : isDigit c = true := by
  unfold decimal at h
  split_ifs at h
  · rw [List.mem_singleton.mp h]
    decide
  · obtain ⟨d, hd, rfl⟩ := List.mem_map.mp h
    exact isDigit_digitChar (Nat.digits_lt_base (by norm_num) (List.mem_reverse.mp hd))

/-- The number of decimal digits, between two powers of ten. -/
theorem decimal_length {n k : ℕ} (hlow : 10 ^ k ≤ n) (hhigh : n < 10 ^ (k + 1)) :
    (decimal n).length = k + 1 := by
  have hpos : n ≠ 0 := (Nat.lt_of_lt_of_le (by positivity) hlow).ne'
  unfold decimal
  rw [if_neg hpos, List.length_map, List.length_reverse, Nat.length_digits 10 n (by norm_num) hpos,
    (Nat.log_eq_iff (Or.inr ⟨by norm_num, hpos⟩)).mpr ⟨hlow, hhigh⟩]

/-- A number below a power of ten has at most so many digits. -/
theorem decimal_length_le {n k : ℕ} (h : n < 10 ^ (k + 1)) : (decimal n).length ≤ k + 1 := by
  unfold decimal
  split_ifs with hzero
  · simp
  · rw [List.length_map, List.length_reverse]
    exact (Nat.digits_length_le_iff (by norm_num) n).mpr h

/-- Every number has a digit. -/
theorem decimal_ne_nil (n : ℕ) : decimal n ≠ [] := by
  unfold decimal
  split_ifs with hzero
  · simp
  · simpa [Nat.digits_eq_nil_iff_eq_zero] using hzero

/-! ## Texts of numbers -/

/-- A decimal number as it is written: its sign, its digits before and behind the point, and its
exponent. -/
structure DecimalText where
  negative : Bool
  whole : Bytes
  fraction : Option Bytes
  exponent : Option ℤ

namespace DecimalText

/-- What stands behind the digits before the point. -/
def behind (t : DecimalText) : Bytes :=
  t.fraction.elim [] (ascii '.' :: ·) ++ t.exponent.elim [] exponentText

def bytes (t : DecimalText) : Bytes :=
  if t.negative then ascii '-' :: (t.whole ++ t.behind) else t.whole ++ t.behind

/-- The number without its sign. -/
def magnitude (t : DecimalText) : ℚ :=
  digitsValue (t.whole ++ t.fraction.getD []) *
    10 ^ (t.exponent.getD 0 - ((t.fraction.getD []).length : ℤ))

def value (t : DecimalText) : ℚ := if t.negative then -t.magnitude else t.magnitude

/-- Digits stand where they should, at least one of them before the point. -/
structure WellFormed (t : DecimalText) : Prop where
  whole : t.whole ≠ []
  whole_digits : ∀ c ∈ t.whole, isDigit c = true
  fraction_digits : ∀ c ∈ t.fraction.getD [], isDigit c = true

end DecimalText

/-- The scan of a text stops where the rest begins. -/
theorem takeWhile_append_of_head {p : UInt8 → Bool} {s rest : Bytes}
    (hs : ∀ c ∈ s, p c = true) (hrest : ∀ c ∈ rest.head?, p c = false) :
    (s ++ rest).takeWhile p = s := by
  induction s with
  | nil =>
    cases rest with
    | nil => rfl
    | cons c rest => simp [hrest c (by simp)]
  | cons c s ih =>
    rw [List.cons_append, List.takeWhile_cons_of_pos (hs c (by simp)),
      ih fun c' hc' => hs c' (List.mem_cons_of_mem _ hc')]

/-- The digits of the exponent. -/
def exponentDigits (e : ℤ) : Bytes :=
  if e.natAbs < 10 then digitChar 0 :: decimal e.natAbs else decimal e.natAbs

/-- The digits of an exponent are digits. -/
theorem isDigit_of_mem_exponentDigits {e : ℤ} {c : UInt8} (h : c ∈ exponentDigits e) :
    isDigit c = true := by
  unfold exponentDigits at h
  split_ifs at h
  · rcases List.mem_cons.mp h with rfl | h
    · decide
    · exact isDigit_of_mem_decimal h
  · exact isDigit_of_mem_decimal h

/-- An exponent is read back from its digits, up to the sign. -/
theorem digitsValue_exponentDigits (e : ℤ) : digitsValue (exponentDigits e) = e.natAbs := by
  unfold exponentDigits
  split_ifs
  · have hzero : digitsValue [digitChar 0] = 0 := by decide
    rw [← List.singleton_append, digitsValue_append, hzero, digitsValue_decimal]
    simp
  · exact digitsValue_decimal _

/-- The exponent that is printed is read back to its end. -/
theorem exponentPart_exponentText (e : ℤ) :
    exponentPart (exponentText e) = (e, (exponentText e).length) := by
  have hdigits : (exponentDigits e).takeWhile isDigit = exponentDigits e :=
    List.takeWhile_eq_self_iff.mpr fun c hc => isDigit_of_mem_exponentDigits hc
  have hne : exponentDigits e ≠ [] := by
    unfold exponentDigits
    split_ifs
    · simp
    · exact decimal_ne_nil _
  have hminus : ascii '-' ≠ ascii '+' := by decide
  have htext : exponentText e =
      ascii 'e' :: (if e < 0 then ascii '-' else ascii '+') :: exponentDigits e := rfl
  rw [htext]
  by_cases hneg : e < 0
  · simp [exponentPart, hneg, hdigits, hne, digitsValue_exponentDigits, hminus, abs_of_neg hneg]
    omega
  · simp [exponentPart, hneg, hdigits, hne, digitsValue_exponentDigits, hminus.symm]
    omega

/-- What stands behind the digits does not begin with a digit. -/
private theorem exponent_head {t : DecimalText} :
    ∀ c ∈ (t.exponent.elim [] exponentText).head?, isDigit c = false ∧ c ≠ ascii '.' := by
  intro c hc
  cases hexponent : t.exponent with
  | none =>
    rw [hexponent] at hc
    cases hc
  | some e =>
    rw [hexponent] at hc
    obtain rfl : ascii 'e' = c := Option.some.inj hc
    decide

/-- The digits that `strtod` finds. -/
theorem scanMantissa_text {t : DecimalText} (h : t.WellFormed) :
    scanMantissa (t.whole ++ t.behind) = ⟨t.whole, t.fraction⟩ := by
  have hexponent := exponent_head (t := t)
  have hwhole : (t.whole ++ t.behind).takeWhile isDigit = t.whole := by
    refine takeWhile_append_of_head h.whole_digits ?_
    intro c hc
    unfold DecimalText.behind at hc
    cases hfraction : t.fraction with
    | none =>
      rw [hfraction] at hc
      exact (hexponent c hc).1
    | some fraction =>
      rw [hfraction] at hc
      obtain rfl : ascii '.' = c := Option.some.inj hc
      decide
  simp only [scanMantissa, hwhole, List.drop_left]
  unfold DecimalText.behind
  cases hfraction : t.fraction with
  | none =>
    cases htext : t.exponent.elim [] exponentText with
    | nil => rfl
    | cons c rest =>
      have hpoint := (hexponent c (by simp [htext])).2
      simp [hpoint]
  | some fraction =>
    have hdigits : ∀ c ∈ fraction, isDigit c = true := by
      simpa [hfraction] using h.fraction_digits
    have hscan := takeWhile_append_of_head hdigits fun c hc => (hexponent c hc).1
    simp [hscan]

/-- The exponent that `strtod` finds behind the digits. -/
theorem exponentPart_text (t : DecimalText) :
    exponentPart ((t.whole ++ t.behind).drop (Mantissa.mk t.whole t.fraction).length) =
        (t.exponent.getD 0, (t.exponent.elim [] exponentText).length) := by
  have hdrop : (t.whole ++ t.behind).drop (Mantissa.mk t.whole t.fraction).length =
      t.exponent.elim [] exponentText := by
    unfold DecimalText.behind
    cases t.fraction with
    | none => simp [Mantissa.length]
    | some fraction => simp [Mantissa.length, List.drop_append]
  rw [hdrop]
  cases t.exponent with
  | none => rfl
  | some e => exact exponentPart_exponentText e

/-- `strtod` reads such a text as a whole. -/
theorem strtod_bytes {t : DecimalText} (h : t.WellFormed) :
    strtod t.bytes = some (Number.ofRat binary64 1024 t.value, t.bytes.length) := by
  have hscan := scanMantissa_text h
  have hexponent := exponentPart_text t
  have hdigits : (Mantissa.mk t.whole t.fraction).digits ≠ [] := by
    simp [Mantissa.digits, h.whole]
  have hlength : (t.whole ++ t.behind).length =
      (Mantissa.mk t.whole t.fraction).length + (t.exponent.elim [] exponentText).length := by
    unfold DecimalText.behind
    cases t.fraction with
    | none => simp [Mantissa.length]
    | some fraction =>
      simp [Mantissa.length]
      omega
  rw [List.length_append] at hlength
  cases hnegative : t.negative with
  | true =>
    have hbytes : t.bytes = ascii '-' :: (t.whole ++ t.behind) := by
      simp [DecimalText.bytes, hnegative]
    have hvalue : t.value = -t.magnitude := by simp [DecimalText.value, hnegative]
    rw [hbytes, hvalue]
    simp [strtod, hscan, hdigits, hexponent]
    exact ⟨rfl, by omega⟩
  | false =>
    obtain ⟨c, whole, hwhole⟩ := List.exists_cons_of_ne_nil h.whole
    have hc := h.whole_digits c (by simp [hwhole])
    have hplus : c ≠ ascii '+' := by
      rintro rfl
      cases hc
    have hminus : c ≠ ascii '-' := by
      rintro rfl
      cases hc
    have hbytes : t.bytes = t.whole ++ t.behind := by simp [DecimalText.bytes, hnegative]
    have hvalue : t.value = t.magnitude := by simp [DecimalText.value, hnegative]
    have hhead : (t.whole ++ t.behind).head? = some c := by simp [hwhole]
    rw [hbytes, hvalue]
    simp [strtod, hscan, hdigits, hexponent, hhead, hplus, hminus]
    exact ⟨rfl, by omega⟩

/-! ## Rounding to digits -/

private theorem ten_pow_mul (k : ℕ) (z : ℤ) : (10 : ℚ) ^ k * 10 ^ (z - k) = 10 ^ z := by
  rw [← zpow_natCast, ← zpow_add₀ (by norm_num)]
  congr 1
  omega

/-- The digits of the style `e` have the right number, and they are the number up to half of
the last one. -/
structure Rounded (k : ℕ) (x : ℚ) (digits : ℕ) (e : ℤ) : Prop where
  low : 10 ^ k ≤ digits
  high : digits < 10 ^ (k + 1)
  near : |digits * 10 ^ (e - k) - x| ≤ x * 10 ^ (-k : ℤ) / 2
  exponent : Int.log 10 x ≤ e ∧ e ≤ Int.log 10 x + 1

/-- The digits of a number in scientific notation are its rounding. -/
theorem scientific_rounded (k : ℕ) {x : ℚ} (hx : 0 < x) :
    Rounded k x (scientific (k + 1) x).1 (scientific (k + 1) x).2 := by
  have hscientific : scientific (k + 1) x =
      if (roundHalfEven (x / 10 ^ (Int.log 10 x - k))).toNat = 10 ^ (k + 1) then
        (10 ^ k, Int.log 10 x + 1)
      else ((roundHalfEven (x / 10 ^ (Int.log 10 x - k))).toNat, Int.log 10 x) := by
    have hexponent : Int.log 10 x + 1 - ((k + 1 : ℕ) : ℤ) = Int.log 10 x - k := by omega
    simp only [scientific, hexponent, Nat.add_sub_cancel]
  set e := Int.log 10 x
  have hunit : (0 : ℚ) < 10 ^ (e - k) := zpow_pos (by norm_num) _
  have hstart : (10 : ℚ) ^ e ≤ x := Int.zpow_log_le_self (by norm_num) hx
  have hend : x < (10 : ℚ) ^ (e + 1) := Int.lt_zpow_succ_log_self (by norm_num) x
  have hcarry : (10 : ℚ) ^ (k + 1) * 10 ^ (e - k) = 10 ^ (e + 1) := by
    rw [pow_succ, mul_right_comm, ten_pow_mul, zpow_add_one₀ (by norm_num)]
  have hlow : (10 ^ k : ℤ) ≤ roundHalfEven (x / 10 ^ (e - k)) := by
    rw [← roundHalfEven_intCast (10 ^ k)]
    apply roundHalfEven_mono
    rw [le_div_iff₀ hunit]
    push_cast
    rwa [ten_pow_mul]
  have hhigh : roundHalfEven (x / 10 ^ (e - k)) ≤ (10 ^ (k + 1) : ℤ) := by
    rw [← roundHalfEven_intCast (10 ^ (k + 1))]
    apply roundHalfEven_mono
    rw [div_le_iff₀ hunit]
    push_cast
    rw [hcarry]
    exact hend.le
  have hnear : |(roundHalfEven (x / 10 ^ (e - k)) : ℚ) * 10 ^ (e - k) - x| ≤
      x * 10 ^ (-k : ℤ) / 2 := by
    have hhalf := mul_le_mul_of_nonneg_right
      (abs_roundHalfEven_sub_le_half (x / 10 ^ (e - k))) hunit.le
    rw [← abs_of_pos hunit, ← abs_mul, abs_of_pos hunit, sub_mul, div_mul_cancel₀ _ hunit.ne']
      at hhalf
    have hdown : (10 : ℚ) ^ (e - k) ≤ x * 10 ^ (-k : ℤ) := by
      rw [sub_eq_add_neg, zpow_add₀ (by norm_num)]
      exact mul_le_mul_of_nonneg_right hstart (zpow_pos (by norm_num) _).le
    linarith
  obtain ⟨n, hn⟩ := Int.eq_ofNat_of_zero_le ((by positivity : (0 : ℤ) ≤ 10 ^ k).trans hlow)
  rw [hn] at hlow hhigh hnear
  rw [hscientific, hn, Int.toNat_natCast]
  by_cases hfull : n = 10 ^ (k + 1)
  · -- The digits are all nines and round up to the next power of ten.
    rw [if_pos hfull]
    refine ⟨le_rfl, Nat.pow_lt_pow_right (by norm_num) (Nat.lt_succ_self k), ?_, by omega⟩
    have hvalue : ((10 ^ k : ℕ) : ℚ) * 10 ^ (e + 1 - k) = (n : ℤ) * 10 ^ (e - k) := by
      rw [hfull]
      push_cast
      rw [ten_pow_mul, hcarry]
    simp only [hvalue]
    exact hnear
  · rw [if_neg hfull]
    refine ⟨by exact_mod_cast hlow, lt_of_le_of_ne (by exact_mod_cast hhigh) hfull, ?_, by omega⟩
    exact_mod_cast hnear

/-! ## The text of `%g` -/

/-- Of the digits behind the point, zeros at the end are left out. -/
theorem fractionPart_eq (digits : Bytes) :
    ∃ (fraction : Option Bytes) (k : ℕ),
      fractionPart digits = fraction.elim [] (ascii '.' :: ·) ∧
        digits = fraction.getD [] ++ List.replicate k (digitChar 0) := by
  have hsplit := List.rdropWhile_append_rtakeWhile (p := (· = ascii '0')) (l := digits)
  have hzeros : digits.rtakeWhile (· = ascii '0') =
      List.replicate (digits.rtakeWhile (· = ascii '0')).length (digitChar 0) := by
    apply List.eq_replicate_of_mem
    intro c hc
    have hc := List.mem_rtakeWhile_imp hc
    rw [of_decide_eq_true hc]
    decide
  rw [hzeros] at hsplit
  unfold fractionPart
  by_cases hnone : digits.rdropWhile (· = ascii '0') = []
  · rw [hnone] at hsplit
    exact ⟨none, _, by simp [hnone], hsplit.symm⟩
  · exact ⟨some (digits.rdropWhile (· = ascii '0')), _, by simp [hnone], hsplit.symm⟩

/-- A text with all of its digits behind the point has the same value. -/
theorem magnitude_eq {t : DecimalText} {digits : Bytes} {k : ℕ}
    (hdigits : digits = t.fraction.getD [] ++ List.replicate k (digitChar 0)) :
    t.magnitude =
      digitsValue (t.whole ++ digits) * 10 ^ (t.exponent.getD 0 - (digits.length : ℤ)) := by
  have hvalue : digitsValue (t.whole ++ digits) =
      digitsValue (t.whole ++ t.fraction.getD []) * 10 ^ k := by
    rw [hdigits, ← List.append_assoc, digitsValue_append, digitsValue_replicate,
      List.length_replicate, Nat.add_zero]
  have hlength : t.exponent.getD 0 - ((t.fraction.getD []).length : ℤ) =
      t.exponent.getD 0 - (digits.length : ℤ) + k := by
    rw [hdigits, List.length_append, List.length_replicate]
    push_cast
    omega
  rw [DecimalText.magnitude, hvalue, hlength, zpow_add₀ (by norm_num), zpow_natCast]
  push_cast
  ring

/-- The text of a number whose digits all stand before or behind the point. -/
theorem exists_text (exponent : Option ℤ) {whole digits : Bytes} (hwhole : whole ≠ [])
    (hdigits : ∀ c ∈ whole ++ digits, isDigit c = true) :
    ∃ t : DecimalText, t.WellFormed ∧ t.negative = false ∧
      t.bytes = whole ++ fractionPart digits ++ exponent.elim [] exponentText ∧
      t.magnitude =
        digitsValue (whole ++ digits) * 10 ^ (exponent.getD 0 - (digits.length : ℤ)) := by
  obtain ⟨fraction, k, hpart, hsplit⟩ := fractionPart_eq digits
  refine ⟨⟨false, whole, fraction, exponent⟩, ⟨hwhole, ?_, ?_⟩, rfl, ?_, magnitude_eq hsplit⟩
  · intro c hc
    exact hdigits c (List.mem_append_left _ hc)
  · intro c hc
    refine hdigits c (List.mem_append_right _ ?_)
    rw [hsplit]
    exact List.mem_append_left _ hc
  · simp [DecimalText.bytes, DecimalText.behind, hpart]

/-- The fraction takes at most one character more than it has digits. -/
theorem length_fractionPart_le (digits : Bytes) :
    (fractionPart digits).length ≤ digits.length + 1 := by
  obtain ⟨fraction, k, hpart, hsplit⟩ := fractionPart_eq digits
  rw [hpart, hsplit]
  cases fraction with
  | none => simp
  | some fraction => simp

/-- An exponent of three digits takes at most five characters. -/
theorem length_exponentText_le {e : ℤ} (h : e.natAbs < 1000) : (exponentText e).length ≤ 5 := by
  have hdecimal := decimal_length_le (n := e.natAbs) (k := 2) (by norm_num; exact h)
  unfold exponentText
  split_ifs with _ hsmall hsmall
  all_goals
    simp only [List.length_cons]
    try have hone := decimal_length_le (n := e.natAbs) (k := 0) (by norm_num; exact hsmall)
    omega

/-- The styles of `%g` write the same number. -/
theorem exists_styled {digits : Bytes} {k : ℕ} {e : ℤ} (hlength : digits.length = k + 1)
    (hdigits : ∀ c ∈ digits, isDigit c = true) (he : e.natAbs < 1000) :
    ∃ t : DecimalText, t.WellFormed ∧ t.negative = false ∧
      (if -4 ≤ e ∧ e < (k + 1 : ℕ) then
        if e < 0 then
          digitChar 0 :: fractionPart (List.replicate (-e - 1).toNat (digitChar 0) ++ digits)
        else digits.take (e + 1).toNat ++ fractionPart (digits.drop (e + 1).toNat)
      else digits.take 1 ++ fractionPart (digits.drop 1) ++ exponentText e) = t.bytes ∧
      t.magnitude = digitsValue digits * 10 ^ (e - k) ∧ t.bytes.length ≤ k + 7 := by
  split_ifs with hfixed hneg
  · -- The point stands before the digits.
    have hall : ∀ c ∈ [digitChar 0] ++ (List.replicate (-e - 1).toNat (digitChar 0) ++ digits),
        isDigit c = true := by
      intro c hc
      simp only [List.mem_append, List.mem_singleton, List.mem_replicate] at hc
      rcases hc with rfl | ⟨-, rfl⟩ | hc
      · decide
      · decide
      · exact hdigits c hc
    obtain ⟨t, hwell, hsign, hbytes, hmagnitude⟩ :=
      exists_text none (List.cons_ne_nil _ _) hall
    have hrest : (List.replicate (-e - 1).toNat (digitChar 0) ++ digits).length =
        (-e - 1).toNat + (k + 1) := by
      rw [List.length_append, List.length_replicate, hlength]
    refine ⟨t, hwell, hsign, by simp [hbytes], ?_, ?_⟩
    · have hzero : digitsValue [digitChar 0] = 0 := by decide
      have hexponent : (0 : ℤ) - ((-e - 1).toNat + (k + 1) : ℕ) = e - k := by omega
      rw [hmagnitude, hrest, Option.getD_none, hexponent, digitsValue_append, digitsValue_append,
        digitsValue_replicate, hzero]
      simp
    · have hpart := length_fractionPart_le (List.replicate (-e - 1).toNat (digitChar 0) ++ digits)
      rw [hrest] at hpart
      simp only [hbytes, List.length_append, List.length_singleton, Option.elim_none,
        List.length_nil]
      omega
  · -- The point stands among the digits or behind them.
    have hwhole : digits.take (e + 1).toNat ≠ [] := by
      apply List.ne_nil_of_length_pos
      rw [List.length_take]
      omega
    have hall : ∀ c ∈ digits.take (e + 1).toNat ++ digits.drop (e + 1).toNat,
        isDigit c = true := by
      rwa [List.take_append_drop]
    obtain ⟨t, hwell, hsign, hbytes, hmagnitude⟩ := exists_text none hwhole hall
    have hrest : (digits.drop (e + 1).toNat).length = k + 1 - (e + 1).toNat := by
      rw [List.length_drop, hlength]
    refine ⟨t, hwell, hsign, by simp [hbytes], ?_, ?_⟩
    · have hexponent : (0 : ℤ) - (k + 1 - (e + 1).toNat : ℕ) = e - k := by omega
      rw [hmagnitude, List.take_append_drop, hrest, Option.getD_none, hexponent]
    · have hpart := length_fractionPart_le (digits.drop (e + 1).toNat)
      rw [hrest] at hpart
      simp only [hbytes, List.length_append, List.length_take, hlength, Option.elim_none,
        List.length_nil]
      omega
  · have hwhole : digits.take 1 ≠ [] := by
      apply List.ne_nil_of_length_pos
      rw [List.length_take]
      omega
    have hall : ∀ c ∈ digits.take 1 ++ digits.drop 1, isDigit c = true := by
      rwa [List.take_append_drop]
    obtain ⟨t, hwell, hsign, hbytes, hmagnitude⟩ := exists_text (some e) hwhole hall
    have hrest : (digits.drop 1).length = k := by
      rw [List.length_drop, hlength, Nat.add_sub_cancel]
    refine ⟨t, hwell, hsign, by simp [hbytes], ?_, ?_⟩
    · rw [hmagnitude, List.take_append_drop, hrest, Option.getD_some]
    · have hpart := length_fractionPart_le (digits.drop 1)
      have htext := length_exponentText_le he
      rw [hrest] at hpart
      simp only [hbytes, List.length_append, List.length_take, hlength, Option.elim_some]
      omega

/-- The text of `%g` is a well formed number, near to the one that is printed. -/
theorem formatG_text {k : ℕ} {x : ℚ} (hx : x ≠ 0) (hlog : |Int.log 10 (|x|)| < 999) :
    ∃ t : DecimalText, t.WellFormed ∧ formatG (k + 1) x = t.bytes ∧
      |t.value - x| ≤ |x| * 10 ^ (-k : ℤ) / 2 ∧ t.bytes.length ≤ k + 8 := by
  obtain ⟨hlow, hhigh, hnear, hexponent⟩ := scientific_rounded k (abs_pos.mpr hx)
  obtain ⟨t, hwell, hsign, hbytes, hmagnitude, hlength⟩ := exists_styled
    (e := (scientific (k + 1) |x|).2) (decimal_length hlow hhigh)
    (fun c hc => isDigit_of_mem_decimal hc) (by have := abs_lt.mp hlog; omega)
  rw [digitsValue_decimal] at hmagnitude
  rw [← hmagnitude] at hnear
  have hformat : formatMagnitude (k + 1) |x| = t.bytes := hbytes
  have hplain : t.bytes = t.whole ++ t.behind := by simp [DecimalText.bytes, hsign]
  rcases lt_or_gt_of_ne hx with hneg | hpos
  · have hminus : (DecimalText.mk true t.whole t.fraction t.exponent).bytes =
        ascii '-' :: t.bytes := by
      rw [hplain]
      rfl
    refine ⟨⟨true, t.whole, t.fraction, t.exponent⟩, ⟨hwell.1, hwell.2, hwell.3⟩, ?_, ?_, ?_⟩
    · rw [hminus, formatG, if_pos hneg, hformat]
    · have hvalue : (DecimalText.mk true t.whole t.fraction t.exponent).value = -t.magnitude := rfl
      have hturn : -t.magnitude - x = -(t.magnitude - |x|) := by
        rw [abs_of_neg hneg]
        ring
      rw [hvalue, hturn, abs_neg]
      exact hnear
    · rw [hminus, List.length_cons]
      omega
  · refine ⟨t, hwell, ?_, ?_, by omega⟩
    · rw [formatG, if_neg hpos.not_gt, hformat]
    · have hvalue : t.value = t.magnitude := by simp [DecimalText.value, hsign]
      rw [hvalue]
      rwa [abs_of_pos hpos] at hnear ⊢

/-! ## Doubles -/

/-- The number is the value of a finite `double`. -/
def IsDouble (x : ℚ) : Prop := Number.ofRat binary64 1024 x = .finite x

/-- A `double` is not changed when it is rounded to a `double`. -/
theorem IsDouble.round {x : ℚ} (h : IsDouble x) : binary64.round x = x := by
  unfold IsDouble Number.ofRat at h
  split_ifs at h
  exact Number.finite.inj h

/-- A `double` that is not infinite lies below `2 ^ 1024`. -/
theorem IsDouble.abs_lt_two_pow {x : ℚ} (h : IsDouble x) : |x| < 2 ^ 1024 := by
  have hround := h.round
  unfold IsDouble Number.ofRat at h
  split_ifs at h with hlarge
  rw [hround] at hlarge
  exact not_le.mp hlarge

private theorem four_pow_le_ten_pow {m n : ℕ} (h : m ≤ n) : (2 : ℚ) ^ (2 * m) ≤ 10 ^ n :=
  calc (2 : ℚ) ^ (2 * m) = (2 ^ 2) ^ m := pow_mul _ _ _
    _ ≤ 10 ^ m := pow_le_pow_left₀ (by norm_num) (by norm_num) _
    _ ≤ 10 ^ n := pow_le_pow_right₀ (by norm_num) h

/-- A finite `double` has an exponent of at most three digits. -/
theorem IsDouble.abs_log_lt {x : ℚ} (h : IsDouble x) (hx : x ≠ 0) :
    |Int.log 10 (|x|)| < 999 := by
  have hpos := abs_pos.mpr hx
  have hhigh : Int.log 10 |x| < 998 := by
    apply (Int.lt_zpow_iff_log_lt (by norm_num) hpos).mp
    have hten : (2 : ℚ) ^ 1024 ≤ 10 ^ 998 := four_pow_le_ten_pow (m := 512) (by norm_num)
    exact_mod_cast h.abs_lt_two_pow.trans_le hten
  have hlow : -998 ≤ Int.log 10 |x| := by
    apply (Int.zpow_le_iff_le_log (by norm_num) hpos).mp
    have hsmallest : (2 : ℚ) ^ (-1074 : ℤ) ≤ |x| := binary64.zpow_le_abs h.round hx
    refine le_trans ?_ hsmallest
    have hten : (2 : ℚ) ^ 1074 ≤ 10 ^ 998 := four_pow_le_ten_pow (m := 537) (by norm_num)
    rw [zpow_neg, zpow_neg]
    apply inv_anti₀ (zpow_pos (by norm_num) _)
    exact_mod_cast hten
  exact abs_lt.mpr ⟨by omega, by omega⟩

/-- The bytes of a text that `strtod` reads from its first to its last byte, as this number. -/
structure ReadsAs (text : Bytes) (x : Number) : Prop where
  strtod : strtod text = some (x, text.length)
  bytes : ∀ c ∈ text, isNumberByte c = true
  short : text.length ≤ 25
  head : ∃ c rest, text = c :: rest ∧ (c = ascii '-' ∨ isDigit c = true)

/-- The parser takes every digit for part of a number. -/
theorem isNumberByte_of_isDigit {c : UInt8} (h : isDigit c = true) : isNumberByte c = true := by
  simp [isNumberByte, h]

/-- The parser takes every character of an exponent for part of a number. -/
theorem isNumberByte_exponentText {e : ℤ} {c : UInt8} (h : c ∈ exponentText e) :
    isNumberByte c = true := by
  rcases List.mem_cons.mp h with rfl | h
  · decide
  · rcases List.mem_cons.mp h with rfl | h
    · split_ifs <;> decide
    · exact isNumberByte_of_isDigit (isDigit_of_mem_exponentDigits (e := e) h)

/-- A well formed text is read as its value. -/
theorem readsAs_bytes {t : DecimalText} (h : t.WellFormed) (hshort : t.bytes.length ≤ 25) :
    ReadsAs t.bytes (Number.ofRat binary64 1024 t.value) where
  strtod := strtod_bytes h
  bytes := by
    have hbehind : ∀ c ∈ t.whole ++ t.behind, isNumberByte c = true := by
      intro c hc
      rcases List.mem_append.mp hc with hc | hc
      · exact isNumberByte_of_isDigit (h.whole_digits c hc)
      · rcases List.mem_append.mp hc with hc | hc
        · cases hfraction : t.fraction with
          | none =>
            rw [hfraction] at hc
            cases hc
          | some fraction =>
            rw [hfraction] at hc
            rcases List.mem_cons.mp hc with rfl | hc
            · decide
            · exact isNumberByte_of_isDigit (h.fraction_digits c (by simpa [hfraction] using hc))
        · cases hexponent : t.exponent with
          | none =>
            rw [hexponent] at hc
            cases hc
          | some e =>
            rw [hexponent] at hc
            exact isNumberByte_exponentText hc
    intro c hc
    unfold DecimalText.bytes at hc
    split_ifs at hc
    · rcases List.mem_cons.mp hc with rfl | hc
      · decide
      · exact hbehind c hc
    · exact hbehind c hc
  short := hshort
  head := by
    obtain ⟨c, whole, hwhole⟩ := List.exists_cons_of_ne_nil h.whole
    unfold DecimalText.bytes
    split_ifs
    · exact ⟨_, _, rfl, Or.inl rfl⟩
    · rw [hwhole]
      exact ⟨c, _, rfl, Or.inr (h.whole_digits c (by simp [hwhole]))⟩

/-- An `int` is read back exactly. -/
theorem readsAs_printInt {n : ℤ} (h : |n| ≤ 2 ^ 31) : ReadsAs (printInt n) (.finite n) := by
  have hwell : (DecimalText.mk (n < 0) (decimal n.natAbs) none none).WellFormed :=
    ⟨decimal_ne_nil _, fun c hc => isDigit_of_mem_decimal hc, by simp⟩
  have hbytes : (DecimalText.mk (n < 0) (decimal n.natAbs) none none).bytes = printInt n := by
    simp [DecimalText.bytes, DecimalText.behind, printInt]
  have hvalue : (DecimalText.mk (n < 0) (decimal n.natAbs) none none).value = n := by
    simp only [DecimalText.value, DecimalText.magnitude, Option.getD_none, List.append_nil,
      digitsValue_decimal, List.length_nil, decide_eq_true_eq]
    have hcast : (n.natAbs : ℚ) = |(n : ℚ)| := by exact_mod_cast Nat.cast_natAbs n
    split_ifs with hneg
    · rw [hcast, abs_of_neg (by exact_mod_cast hneg)]
      simp
    · rw [hcast, abs_of_nonneg (by exact_mod_cast not_lt.mp hneg)]
      simp
  have hdouble : Number.ofRat binary64 1024 n = .finite n := by
    have hround : binary64.round n = n :=
      FloatFormat.round_intCast (h.trans_lt (by norm_num [binary64]))
    have hsmall : ¬ (2 : ℚ) ^ 1024 ≤ |(n : ℚ)| := by
      have hint : |(n : ℚ)| ≤ 2 ^ 31 := by exact_mod_cast h
      exact not_le.mpr (hint.trans_lt (pow_lt_pow_right₀ (by norm_num) (by norm_num)))
    rw [Number.ofRat, hround, if_neg hsmall]
  have hshort : (printInt n).length ≤ 25 := by
    have hnat : n.natAbs ≤ 2 ^ 31 := by
      rw [Int.abs_eq_natAbs] at h
      exact_mod_cast h
    have hlength := decimal_length_le (n := n.natAbs) (k := 9) (by omega)
    unfold printInt
    split_ifs
    · rw [List.length_cons]
      omega
    · omega
  have hreads := readsAs_bytes hwell (hbytes ▸ hshort)
  rwa [hbytes, hvalue, hdouble] at hreads

/-- The `valueint` of a number is an `int`. -/
theorem abs_valueint_le (d : Number) : |d.valueint| ≤ 2 ^ 31 := by
  cases d with
  | infinite negative => cases negative <;> decide
  | finite x =>
    simp only [Number.valueint, abs_le]
    split_ifs with hhigh hlow hpos
    · decide
    · decide
    · have hfloor : ⌊x⌋ < 2 ^ 31 - 1 := Int.floor_lt.mpr (by push_cast; linarith)
      have hfloor' : 0 ≤ ⌊x⌋ := Int.floor_nonneg.mpr hpos
      constructor <;> linarith
    · have hceil : -2 ^ 31 ≤ ⌈x⌉ := by
        have hle : ((-2 ^ 31 : ℤ) : ℚ) ≤ ⌈x⌉ := by
          push_cast
          linarith [Int.le_ceil x]
        exact_mod_cast hle
      have hceil' : ⌈x⌉ ≤ 0 := Int.ceil_le.mpr (by push_cast; linarith)
      constructor <;> linarith

/-- The number that `strtod` reads from a text near to a `double`. -/
theorem compareDouble_of_near {x y : ℚ} (hx : IsDouble x)
    (hnear : |y - x| ≤ |x| * 10 ^ (-16 : ℤ) / 2) :
    compareDouble (Number.ofRat binary64 1024 y) (.finite x) = true := by
  unfold Number.ofRat
  split_ifs with hlarge
  · rfl
  · have hnearest := FloatFormat.abs_round_sub_le hx.round (x := y)
    have hdistance : |binary64.round y - x| ≤ |x| * 10 ^ (-16 : ℤ) := by
      have hsum := abs_sub_le (binary64.round y) y x
      rw [abs_sub_comm x y] at hnearest
      generalize |x| * 10 ^ (-16 : ℤ) = bound at hnear ⊢
      linarith
    have hbound : |x| * 10 ^ (-16 : ℤ) ≤ max |binary64.round y| |x| * 2 ^ (-52 : ℤ) := by
      have htenth : (10 : ℚ) ^ (-16 : ℤ) ≤ 2 ^ (-52 : ℤ) := by norm_num
      exact mul_le_mul (le_max_right _ _) htenth (by positivity) (by positivity)
    exact decide_eq_true (FloatFormat.round_mono (abs_nonneg _) (hdistance.trans hbound))

/-- The number read from the text of a `double`: `compare_double` does not tell it from the
`double`, an `int` is read exactly, and the number is finite unless it is close to overflow. -/
structure ReadsNumber (x : ℚ) (x' : Number) : Prop where
  close : compareDouble x' (.finite x) = true
  exact : x = (Number.finite x).valueint → x' = .finite x
  finite : |x| < 2 ^ 1023 → ∃ y, x' = .finite y ∧ IsDouble y

/-- A text near to a `double` that is not close to overflow is read as a finite number. -/
theorem finite_of_near {x y : ℚ} (hx : IsDouble x) (hnear : |y - x| ≤ |x| / 2)
    (hsmall : |x| < 2 ^ 1023) : ∃ y', Number.ofRat binary64 1024 y = .finite y' ∧ IsDouble y' := by
  have hlarge : ¬ (2 : ℚ) ^ 1024 ≤ |binary64.round y| := by
    have hnearest := FloatFormat.abs_round_sub_le hx.round (x := y)
    rw [abs_sub_comm x y] at hnearest
    have hround := abs_sub_abs_le_abs_sub (binary64.round y) y
    have hvalue := abs_sub_abs_le_abs_sub y x
    have hdouble : (2 : ℚ) ^ 1024 = 2 * 2 ^ 1023 := pow_succ' 2 1023
    rw [hdouble]
    generalize (2 : ℚ) ^ 1023 = bound at hsmall
    linarith
  refine ⟨binary64.round y, by rw [Number.ofRat, if_neg hlarge], ?_⟩
  rw [IsDouble, Number.ofRat, FloatFormat.round_round, if_neg hlarge]

/-- Every finite `double` has a text. -/
theorem printNumber_reads {x : ℚ} (hx : IsDouble x) :
    ∃ text x', printNumber (.finite x) = some text ∧ ReadsAs text x' ∧ ReadsNumber x x' := by
  unfold printNumber
  by_cases hint : x = (Number.finite x).valueint
  · have hreads := readsAs_printInt (abs_valueint_le (.finite x))
    rw [← hint] at hreads
    have hself := compareDouble_of_near hx (y := x) (by rw [sub_self, abs_zero]; positivity)
    rw [hx] at hself
    refine ⟨_, _, ?_, hreads, hself, fun _ => rfl, fun _ => ⟨x, rfl, hx⟩⟩
    simp only [if_pos hint, if_neg (not_lt.mpr hreads.short)]
  · have hzero : x ≠ 0 := by
      rintro rfl
      exact hint (by norm_num [Number.valueint])
    have hlog := hx.abs_log_lt hzero
    have hhalf : ∀ {k : ℕ}, |x| * 10 ^ (-k : ℤ) / 2 ≤ |x| / 2 := by
      intro k
      have hone : (10 : ℚ) ^ (-k : ℤ) ≤ 1 := zpow_le_one_of_nonpos₀ (by norm_num) (by omega)
      have hscaled := mul_le_mul_of_nonneg_left hone (abs_nonneg x)
      linarith
    obtain ⟨t, hwell, hformat, hnear, hlength⟩ := formatG_text (k := 16) hzero hlog
    obtain ⟨t', hwell', hformat', hnear', hlength'⟩ := formatG_text (k := 14) hzero hlog
    have hreads := readsAs_bytes hwell (by omega)
    have hreads' := readsAs_bytes hwell' (by omega)
    rw [← hformat] at hreads
    rw [← hformat'] at hreads'
    have hprint : printDouble x =
        if compareDouble (Number.ofRat binary64 1024 t'.value) (.finite x) then formatG 15 x
        else formatG 17 x := by
      simp only [printDouble, hreads'.strtod]
    simp only [if_neg hint, hprint]
    by_cases hclose : compareDouble (Number.ofRat binary64 1024 t'.value) (.finite x) = true
    · refine ⟨_, _, ?_, hreads', hclose, fun h => absurd h hint,
        finite_of_near hx (hnear'.trans hhalf)⟩
      simp only [if_pos hclose, if_neg (not_lt.mpr hreads'.short)]
    · refine ⟨_, _, ?_, hreads, compareDouble_of_near hx hnear, fun h => absurd h hint,
        finite_of_near hx (hnear.trans hhalf)⟩
      simp only [if_neg hclose, if_neg (not_lt.mpr hreads.short)]

end Saliwen.CJson
