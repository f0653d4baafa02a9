import Saliwen.Fbm320.Agreement
import Mathlib.Data.Fin.VecNotation
import Mathlib.Data.Set.Function
import Mathlib.Data.Fintype.Fin
import Mathlib.Tactic.FinCases

/-!
# Packing of the calibration image

`Coefficient()` cuts ten 16-bit words into thirteen bit fields. This file gives the inverse
of each layout. The FBM320-02 layout uses every bit of the image exactly once; the FBM320
layout uses every bit exactly once except the two low bits of `R[0]`.
-/

namespace Saliwen.Fbm320

/-- The calibration image: the bytes of the registers 0xAA to 0xBB, then those of 0xA4 and
0xF1. -/
abbrev Image := Fin 20 → UInt8

/-- The words `R[0]` to `R[9]` that `Coefficient()` assembles. -/
def Image.words (image : Image) : Words := fun i =>
  assemble (image ⟨2 * i, by omega⟩) (image ⟨2 * i + 1, by omega⟩)

/-- The image stored in the registers of a sensor. -/
def Device.image (dev : Device) : Image := fun i =>
  if i.val < 18 then dev.regs (0xAA + UInt8.ofNat i) else if i.val = 18 then dev.regs 0xA4
  else dev.regs 0xF1

/-- The words of the image are those `Coefficient()` reads from the registers. -/
theorem Device.image_words (dev : Device) : dev.image.words = dev.imageWords := by
  funext i
  fin_cases i <;> rfl

/-- Two bytes make a word, the high one first. -/
theorem assemble_eq (hi lo : UInt8) : assemble hi lo = hi.toNat * 256 + lo.toNat := by
  have hlo : lo.toNat < 2 ^ 8 := lo.toNat_lt
  rw [assemble, ← Nat.shiftLeft_add_eq_or_of_lt hlo, Nat.shiftLeft_eq]

/-- The image with the given words. -/
def Image.ofWords (R : Words) : Image := fun i =>
  let word := R ⟨i / 2, by omega⟩
  UInt8.ofNat (if i.val % 2 = 0 then word / 256 else word % 256)

/-- The words of an image have 16 bits. -/
theorem Image.words_lt (image : Image) (i : Fin 10) : image.words i < 65536 := by
  have hhi := (image ⟨2 * i, by omega⟩).toNat_lt
  have hlo := (image ⟨2 * i + 1, by omega⟩).toNat_lt
  rw [Image.words, assemble_eq]
  omega

/-- An image is determined by its words. -/
theorem Image.ofWords_words (image : Image) : Image.ofWords image.words = image := by
  funext i
  have hhi := (image ⟨2 * (i.val / 2), by omega⟩).toNat_lt
  have hlo := (image ⟨2 * (i.val / 2) + 1, by omega⟩).toNat_lt
  unfold Image.ofWords Image.words
  dsimp only
  rw [assemble_eq]
  by_cases heven : i.val % 2 = 0
  · have hbyte : image ⟨2 * (i.val / 2), by omega⟩ = image i :=
      congrArg image (Fin.ext (by dsimp only; omega))
    rw [if_pos heven, ← hbyte, ← UInt8.toNat_inj, UInt8.toNat_ofNat']
    omega
  · have hbyte : image ⟨2 * (i.val / 2) + 1, by omega⟩ = image i :=
      congrArg image (Fin.ext (by dsimp only; omega))
    rw [if_neg heven, ← hbyte, ← UInt8.toNat_inj, UInt8.toNat_ofNat']
    omega

/-- Ten 16-bit words are the words of their image. -/
theorem Image.words_ofWords {R : Words} (hR : ∀ i, R i < 65536) :
    (Image.ofWords R).words = R := by
  funext i
  have hlt := hR i
  have hodd : (2 * i.val + 1) / 2 = i.val := by omega
  have heven : 2 * i.val / 2 = i.val := by omega
  unfold Image.words Image.ofWords
  dsimp only
  rw [assemble_eq, if_pos (by omega), if_neg (by omega)]
  simp only [hodd, heven, Fin.eta, UInt8.toNat_ofNat']
  omega

/-- A statement about all ten words, written out. -/
theorem forall_word_iff {P : Fin 10 → Prop} :
    (∀ i, P i) ↔ P 0 ∧ P 1 ∧ P 2 ∧ P 3 ∧ P 4 ∧ P 5 ∧ P 6 ∧ P 7 ∧ P 8 ∧ P 9 := by
  constructor
  · intro h
    exact ⟨h 0, h 1, h 2, h 3, h 4, h 5, h 6, h 7, h 8, h 9⟩
  · rintro ⟨h0, h1, h2, h3, h4, h5, h6, h7, h8, h9⟩ i
    fin_cases i <;> assumption

/-! ## Fields as quotients and remainders -/

/-- The high byte of a word in front of the low `k` bits of another. -/
theorem highByte_or_mask {a k : ℕ} (ha : a < 65536) (hk : k ≤ 8) (b : ℕ) :
    ((a &&& 0xFF00) >>> (8 - k)) ||| (b &&& (2 ^ k - 1)) = a / 256 * 2 ^ k + b % 2 ^ k := by
  have hmask : a &&& 0xFF00 = a / 256 * 2 ^ 8 := by
    have hfield := and_shifted_mask a 8 8
    have hsmall : a / 2 ^ 8 % 2 ^ 8 = a / 256 := by omega
    rwa [hsmall] at hfield
  have hshift : (a &&& 0xFF00) >>> (8 - k) = (a / 256) <<< k := by
    have hpow : (2 : ℕ) ^ 8 = 2 ^ k * 2 ^ (8 - k) := by
      rw [← Nat.pow_add, Nat.add_sub_cancel' hk]
    rw [hmask, hpow, Nat.shiftRight_eq_div_pow, Nat.shiftLeft_eq, ← Nat.mul_assoc,
      Nat.mul_div_cancel _ (Nat.two_pow_pos _)]
  rw [hshift, shiftLeft_or_and_mask]

/-- The low byte of one word and the lowest bit of another. -/
theorem lowByte_or_mask (a b : ℕ) : ((a &&& 0xFF) <<< 1) ||| (b &&& 1) = a % 256 * 2 + b % 2 := by
  have hmask : a &&& 0xFF = a % 256 := Nat.and_two_pow_sub_one_eq_mod a 8
  rw [hmask]
  exact shiftLeft_or_and_mask (a % 256) b 1

/-- The fields of the FBM320-02 layout. -/
theorem unpackFbm32002_eq {R : Words} (hR : ∀ i, R i < 65536) :
    unpackFbm32002 R =
      { c0 := R 0 / 16
        c1 := R 1 / 256 * 8 + R 2 % 8
        c2 := R 1 % 256 * 2 + R 4 % 2
        c3 := R 2 / 8
        c4 := R 3 * 4 + R 0 % 4
        c5 := R 4 / 2
        c6 := R 5 / 8
        c7 := R 6 * 8 + R 5 % 8
        c8 := R 7 / 8
        c9 := R 8 / 4
        c10 := R 9 / 256 * 4 + R 8 % 4
        c11 := R 9 % 256
        c12 := R 0 / 4 % 4 * 8 + R 7 % 8 } := by
  have h1 : ((R 1 &&& 0xFF00) >>> 5) ||| (R 2 &&& 7) = R 1 / 256 * 8 + R 2 % 8 :=
    highByte_or_mask (k := 3) (hR 1) (by decide) (R 2)
  have h10 : ((R 9 &&& 0xFF00) >>> 6) ||| (R 8 &&& 3) = R 9 / 256 * 4 + R 8 % 4 :=
    highByte_or_mask (k := 2) (hR 9) (by decide) (R 8)
  have h11 : R 9 &&& 0xFF = R 9 % 256 := Nat.and_two_pow_sub_one_eq_mod (R 9) 8
  have h4 := unpackFbm32002_c4 R
  have h7 := unpackFbm32002_c7 R
  have h12 := unpackFbm32002_c12 R
  unfold unpackFbm32002 at h4 h7 h12 ⊢
  simp only at h4 h7 h12
  rw [h1, h10, h11, h4, h7, h12, lowByte_or_mask]
  simp only [Nat.shiftRight_eq_div_pow]

/-- The fields of the FBM320 layout: three differ from the FBM320-02 layout. -/
theorem unpackFbm320_eq (R : Words) :
    unpackFbm320 R =
      { unpackFbm32002 R with
        c4 := R 3 * 2 + R 5 % 2
        c7 := R 6 * 4 + R 0 / 4 % 4
        c12 := R 5 / 2 % 4 * 8 + R 7 % 8 } := by
  rw [← unpackFbm320_c4, ← unpackFbm320_c7, ← unpackFbm320_c12]
  rfl

/-! ## The inverse of each layout -/

/-- Coefficients of the widths that both layouts share, with `C4` and `C7` of the given
widths. -/
structure Coeffs.Widths (n4 n7 : ℕ) (c : Coeffs) : Prop where
  c0 : c.c0 < 2 ^ 12
  c1 : c.c1 < 2 ^ 11
  c2 : c.c2 < 2 ^ 9
  c3 : c.c3 < 2 ^ 13
  c4 : c.c4 < 2 ^ n4
  c5 : c.c5 < 2 ^ 15
  c6 : c.c6 < 2 ^ 13
  c7 : c.c7 < 2 ^ n7
  c8 : c.c8 < 2 ^ 13
  c9 : c.c9 < 2 ^ 14
  c10 : c.c10 < 2 ^ 10
  c11 : c.c11 < 2 ^ 8
  c12 : c.c12 < 2 ^ 5

/-- Coefficients that fit their widths fit larger ones. -/
theorem Coeffs.Widths.mono {n4 n7 m4 m7 : ℕ} {c : Coeffs} (h : c.Widths n4 n7) (h4 : n4 ≤ m4)
    (h7 : n7 ≤ m7) : c.Widths m4 m7 :=
  { h with
    c4 := h.c4.trans_le (Nat.pow_le_pow_right (by decide) h4)
    c7 := h.c7.trans_le (Nat.pow_le_pow_right (by decide) h7) }

/-- The words that the FBM320-02 layout unpacks to the given coefficients. -/
def packWordsFbm32002 (c : Coeffs) : Words :=
  ![c.c0 * 16 + c.c12 / 8 * 4 + c.c4 % 4, c.c1 / 8 * 256 + c.c2 / 2, c.c3 * 8 + c.c1 % 8,
    c.c4 / 4, c.c5 * 2 + c.c2 % 2, c.c6 * 8 + c.c7 % 8, c.c7 / 8, c.c8 * 8 + c.c12 % 8,
    c.c9 * 4 + c.c10 % 4, c.c10 / 4 * 256 + c.c11]

/-- The words that the FBM320 layout unpacks to the given coefficients, with zero in the two
bits it does not read. -/
def packWordsFbm320 (c : Coeffs) : Words :=
  ![c.c0 * 16 + c.c7 % 4 * 4, c.c1 / 8 * 256 + c.c2 / 2, c.c3 * 8 + c.c1 % 8,
    c.c4 / 2, c.c5 * 2 + c.c2 % 2, c.c6 * 8 + c.c12 / 8 * 2 + c.c4 % 2, c.c7 / 4,
    c.c8 * 8 + c.c12 % 8, c.c9 * 4 + c.c10 % 4, c.c10 / 4 * 256 + c.c11]

/-- Every coefficient of an image has the width of its field. -/
theorem unpackFbm32002_widths {R : Words} (hR : ∀ i, R i < 65536) :
    (unpackFbm32002 R).Widths 18 19 := by
  rw [unpackFbm32002_eq hR]
  obtain ⟨h0, h1, h2, h3, h4, h5, h6, h7, h8, h9⟩ := forall_word_iff.mp hR
  constructor <;> dsimp only <;> omega

/-- The coefficients of the FBM320 fit their widths. -/
theorem unpackFbm320_widths {R : Words} (hR : ∀ i, R i < 65536) :
    (unpackFbm320 R).Widths 17 18 := by
  rw [unpackFbm320_eq, unpackFbm32002_eq hR]
  obtain ⟨h0, h1, h2, h3, h4, h5, h6, h7, h8, h9⟩ := forall_word_iff.mp hR
  constructor <;> dsimp only <;> omega

/-- The packed words have 16 bits. -/
theorem packWordsFbm32002_lt {c : Coeffs} (hc : c.Widths 18 19) :
    ∀ i, packWordsFbm32002 c i < 65536 := by
  obtain ⟨h0, h1, h2, h3, h4, h5, h6, h7, h8, h9, h10, h11, h12⟩ := hc
  simp only [forall_word_iff, packWordsFbm32002, Matrix.cons_val]
  omega

/-- The words that the FBM320 packing makes have 16 bits. -/
theorem packWordsFbm320_lt {c : Coeffs} (hc : c.Widths 17 18) :
    ∀ i, packWordsFbm320 c i < 65536 := by
  obtain ⟨h0, h1, h2, h3, h4, h5, h6, h7, h8, h9, h10, h11, h12⟩ := hc
  simp only [forall_word_iff, packWordsFbm320, Matrix.cons_val]
  omega

/-- Unpacking undoes packing. -/
theorem unpackFbm32002_packWords {c : Coeffs} (hc : c.Widths 18 19) :
    unpackFbm32002 (packWordsFbm32002 c) = c := by
  rw [unpackFbm32002_eq (packWordsFbm32002_lt hc)]
  obtain ⟨h0, h1, h2, h3, h4, h5, h6, h7, h8, h9, h10, h11, h12⟩ := hc
  cases c
  simp only [packWordsFbm32002, Matrix.cons_val, Coeffs.mk.injEq] at *
  omega

/-- Coefficients that fit are read back from the words of the FBM320 packing. -/
theorem unpackFbm320_packWords {c : Coeffs} (hc : c.Widths 17 18) :
    unpackFbm320 (packWordsFbm320 c) = c := by
  rw [unpackFbm320_eq, unpackFbm32002_eq (packWordsFbm320_lt hc)]
  obtain ⟨h0, h1, h2, h3, h4, h5, h6, h7, h8, h9, h10, h11, h12⟩ := hc
  cases c
  simp only [packWordsFbm320, Matrix.cons_val, Coeffs.mk.injEq] at *
  omega

/-- Packing undoes unpacking: no bit is lost. -/
theorem packWordsFbm32002_unpack {R : Words} (hR : ∀ i, R i < 65536) :
    packWordsFbm32002 (unpackFbm32002 R) = R := by
  rw [unpackFbm32002_eq hR, funext_iff]
  obtain ⟨h0, h1, h2, h3, h4, h5, h6, h7, h8, h9⟩ := forall_word_iff.mp hR
  simp only [forall_word_iff, packWordsFbm32002, Matrix.cons_val]
  omega

/-- The words with the two low bits of `R[0]` cleared. -/
def Words.cleared (R : Words) : Words := fun i => if i.val = 0 then R i / 4 * 4 else R i

/-- The two low bits of the first word are cleared. -/
@[simp] theorem Words.cleared_zero (R : Words) : R.cleared 0 = R 0 / 4 * 4 := rfl

/-- The other words stay. -/
@[simp] theorem Words.cleared_of_ne (R : Words) {i : Fin 10} (hi : i ≠ 0) : R.cleared i = R i :=
  if_neg fun hval => hi (Fin.ext hval)

/-- The FBM320 layout loses the two low bits of `R[0]` and nothing else. -/
theorem packWordsFbm320_unpack {R : Words} (hR : ∀ i, R i < 65536) :
    packWordsFbm320 (unpackFbm320 R) = R.cleared := by
  rw [unpackFbm320_eq, unpackFbm32002_eq hR, funext_iff]
  obtain ⟨h0, h1, h2, h3, h4, h5, h6, h7, h8, h9⟩ := forall_word_iff.mp hR
  simp only [forall_word_iff, packWordsFbm320, Matrix.cons_val, Words.cleared_zero,
    Words.cleared_of_ne, ne_eq, Fin.reduceEq, not_false_eq_true]
  omega

/-- The FBM320 layout does not read the two low bits of `R[0]`. -/
theorem unpackFbm320_cleared {R : Words} (hR : ∀ i, R i < 65536) :
    unpackFbm320 R.cleared = unpackFbm320 R := by
  rw [← packWordsFbm320_unpack hR, unpackFbm320_packWords (unpackFbm320_widths hR)]

/-! ## Images -/

/-- The image with the two low bits of `R[0]` cleared. -/
def Image.cleared (image : Image) : Image := fun i => if i = 1 then image 1 &&& 0xFC else image i

private theorem and_fc_toNat (b : UInt8) : (b &&& 0xFC).toNat = b.toNat / 4 * 4 := by
  obtain ⟨b⟩ := b
  revert b
  decide +kernel

/-- The words of a cleared image are the cleared words. -/
theorem Image.words_cleared (image : Image) : image.cleared.words = image.words.cleared := by
  funext i
  by_cases hi : i = 0
  · rw [hi]
    have hlow := (image 1).toNat_lt
    have hword : image.cleared.words 0 = assemble (image 0) (image 1 &&& 0xFC) := rfl
    have hcleared : image.words 0 = assemble (image 0) (image 1) := rfl
    rw [hword, Words.cleared_zero, hcleared, assemble_eq, assemble_eq, and_fc_toNat]
    omega
  · have hval : i.val ≠ 0 := fun hval => hi (Fin.ext hval)
    have hhigh : ¬ (⟨2 * i.val, by omega⟩ : Fin 20) = 1 := by
      rw [Fin.ext_iff]
      dsimp only [Fin.val_one]
      omega
    have hlow : ¬ (⟨2 * i.val + 1, by omega⟩ : Fin 20) = 1 := by
      rw [Fin.ext_iff]
      dsimp only [Fin.val_one]
      omega
    rw [Words.cleared_of_ne _ hi]
    simp only [Image.words, Image.cleared, if_neg hhigh, if_neg hlow]

/-- The image that the FBM320-02 layout unpacks to the given coefficients. -/
def packFbm32002 (c : Coeffs) : Image := Image.ofWords (packWordsFbm32002 c)

/-- The image that the FBM320 layout unpacks to the given coefficients, with zero in the two
bits it does not read. -/
def packFbm320 (c : Coeffs) : Image := Image.ofWords (packWordsFbm320 c)

/-- An image is restored from the coefficients of the FBM320-02. -/
theorem packFbm32002_unpack (image : Image) :
    packFbm32002 (unpackFbm32002 image.words) = image := by
  rw [packFbm32002, packWordsFbm32002_unpack image.words_lt, Image.ofWords_words]

/-- The coefficients of the FBM320-02 are read back from their image. -/
theorem unpackFbm32002_pack {c : Coeffs} (hc : c.Widths 18 19) :
    unpackFbm32002 (packFbm32002 c).words = c := by
  rw [packFbm32002, Image.words_ofWords (packWordsFbm32002_lt hc), unpackFbm32002_packWords hc]

/-- An image is restored from the coefficients of the FBM320, up to two bits. -/
theorem packFbm320_unpack (image : Image) :
    packFbm320 (unpackFbm320 image.words) = image.cleared := by
  rw [packFbm320, packWordsFbm320_unpack image.words_lt, ← Image.words_cleared,
    Image.ofWords_words]

/-- The coefficients of the FBM320 are read back from their image. -/
theorem unpackFbm320_pack {c : Coeffs} (hc : c.Widths 17 18) :
    unpackFbm320 (packFbm320 c).words = c := by
  rw [packFbm320, Image.words_ofWords (packWordsFbm320_lt hc), unpackFbm320_packWords hc]

/-- Two images give the same coefficients in the FBM320 layout exactly when they differ at
most in the two low bits of `R[0]`. -/
theorem unpackFbm320_words_eq_iff (image image' : Image) :
    unpackFbm320 image.words = unpackFbm320 image'.words ↔ image.cleared = image'.cleared := by
  constructor
  · intro h
    rw [← packFbm320_unpack, h, packFbm320_unpack]
  · intro h
    rw [← unpackFbm320_cleared image.words_lt, ← Image.words_cleared, h, Image.words_cleared,
      unpackFbm320_cleared image'.words_lt]

/-- The packed image has zero in the two bits that the FBM320 layout does not read. -/
theorem packFbm320_cleared {c : Coeffs} (hc : c.Widths 17 18) :
    (packFbm320 c).cleared = packFbm320 c := by
  rw [← packFbm320_unpack, unpackFbm320_pack hc]

/-- The FBM320-02 layout is a bijection between the images and the coefficients of the widths
of its fields, and packing is its inverse. The FBM320 layout is one between the images whose
two low bits of `R[0]` are zero and the coefficients of its widths, and it takes two images
to the same coefficients exactly when they differ at most in these two bits. -/
theorem unpack_bijOn :
    (Set.BijOn (fun image : Image => unpackFbm32002 image.words) Set.univ
        {c | c.Widths 18 19} ∧
      Set.InvOn packFbm32002 (fun image : Image => unpackFbm32002 image.words) Set.univ
        {c | c.Widths 18 19}) ∧
      Set.BijOn (fun image : Image => unpackFbm320 image.words) {image | image.cleared = image}
        {c | c.Widths 17 18} ∧
      Set.InvOn packFbm320 (fun image : Image => unpackFbm320 image.words)
        {image | image.cleared = image} {c | c.Widths 17 18} ∧
      ∀ image image' : Image,
        unpackFbm320 image.words = unpackFbm320 image'.words ↔
          image.cleared = image'.cleared := by
  have hinv02 : Set.InvOn packFbm32002 (fun image : Image => unpackFbm32002 image.words) Set.univ
      {c | c.Widths 18 19} :=
    ⟨fun image _ => packFbm32002_unpack image, fun _ hc => unpackFbm32002_pack hc⟩
  have hinv : Set.InvOn packFbm320 (fun image : Image => unpackFbm320 image.words)
      {image | image.cleared = image} {c | c.Widths 17 18} :=
    ⟨fun image hcleared => (packFbm320_unpack image).trans hcleared,
      fun _ hc => unpackFbm320_pack hc⟩
  refine ⟨⟨hinv02.bijOn ?_ ?_, hinv02⟩, hinv.bijOn ?_ ?_, hinv, unpackFbm320_words_eq_iff⟩
  · exact fun image _ => unpackFbm32002_widths image.words_lt
  · exact fun _ _ => Set.mem_univ _
  · exact fun image _ => unpackFbm320_widths image.words_lt
  · exact fun _ hc => packFbm320_cleared hc

end Saliwen.Fbm320
