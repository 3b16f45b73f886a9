import UwbApps.Lib.CFloat
import UwbApps.Lib.Json

/-!
# Decimal fractions, printed and read

`fixed k width x` is what a program prints that takes a number apart: the integer part, a dot, and
the first `k` digits behind it as a number of their own, filled up to `width` digits with zeros.
`read` is what a reader makes of a decimal number.

`faithful_fixed_iff` says when the reader gets the number back, with its sign and to within a unit
of the last digit: the zeros behind the dot must not have been dropped, nor the sign of a number
whose integer part is zero.
-/

set_option autoImplicit false

namespace Decimal

open Json (Digits)

/-- The number with these digits. -/
def ofDigits (cs : List Char) : ℚ := (Nat.ofDigitChars 10 cs 0 : ℕ)

/-- A decimal number without a sign. -/
def readUnsigned (cs : List Char) : Option ℚ :=
  let ip := cs.takeWhile Char.isDigit
  match cs.dropWhile Char.isDigit with
  | [] => if ip = [] then none else some (ofDigits ip)
  | '.' :: fs =>
    if ip = [] ∨ fs = [] ∨ !fs.all Char.isDigit then none
    else some (ofDigits ip + ofDigits fs / 10 ^ fs.length)
  | _ => none

/-- A decimal number. -/
def read : List Char → Option ℚ
  | '-' :: cs => (readUnsigned cs).map Neg.neg
  | cs => readUnsigned cs

/-- Read as a decimal number, the text has the sign of `v`, unless it reads as zero, and is less
than `unit` away. -/
def Faithful (cs : List Char) (v unit : ℚ) : Prop :=
  ∃ q, read cs = some q ∧ (q = 0 ∨ 0 < q * v) ∧ |q - v| < unit

/-- A number of at least `width` digits. -/
def pad (width : ℕ) (cs : List Char) : List Char := List.replicate (width - cs.length) '0' ++ cs

/-- The first `k` digits behind the dot, as a number. -/
def fracOf (k : ℕ) (x : ℚ) : ℕ := ⌊10 ^ k * (|x| - ⌊|x|⌋₊)⌋₊

/-- The number in two parts. -/
def fixed (k width : ℕ) (x : ℚ) : List Char :=
  (toString (CFloat.trunc x)).toList ++ '.' :: pad width (Nat.toDigits 10 (fracOf k x))

/-- The number can be read back: it has no fraction, or its fraction is printed with all its
digits, and its sign is printed. -/
def Legible (k width : ℕ) (x : ℚ) : Prop :=
  fracOf k x = 0 ∨ (width = k ∨ 10 ^ (k - 1) ≤ fracOf k x) ∧ (0 ≤ x ∨ 1 ≤ |x|)

/-! ## Reading digits -/

theorem takeWhile_digits {cs ds : List Char} (h : Digits cs)
    (hds : ∀ c ∈ ds.head?, c.isDigit = false) :
    (cs ++ ds).takeWhile Char.isDigit = cs ∧ (cs ++ ds).dropWhile Char.isDigit = ds := by
  have hall : ∀ c ∈ cs, Char.isDigit c = true := h
  rw [List.takeWhile_append_of_pos hall, List.dropWhile_append_of_pos hall]
  cases ds with
  | nil => simp
  | cons d ds => simp [hds d rfl]

theorem readUnsigned_append {cs ds : List Char} (hcs : Digits cs) (hne : cs ≠ []) (hds : Digits ds)
    (hne' : ds ≠ []) : readUnsigned (cs ++ '.' :: ds) =
      some (ofDigits cs + ofDigits ds / 10 ^ ds.length) := by
  obtain ⟨htake, hdrop⟩ := @takeWhile_digits _ ('.' :: ds) hcs (by rintro c ⟨⟩; rfl)
  have hall : ds.all Char.isDigit = true := List.all_eq_true.mpr hds
  simp only [readUnsigned, htake, hdrop]
  rw [if_neg (by simp [hne, hne', hall])]

theorem digits_pad (width n : ℕ) : Digits (pad width (Nat.toDigits 10 n)) := by
  intro c hc
  rcases List.mem_append.mp hc with hc | hc
  · rw [List.eq_of_mem_replicate hc]
    rfl
  · exact Json.digits_toDigits n c hc

theorem pad_ne_nil (width n : ℕ) : pad width (Nat.toDigits 10 n) ≠ [] := fun h ↦
  Nat.toDigits_ne_nil (List.append_eq_nil_iff.mp h).2

theorem ofDigits_toDigits (n : ℕ) : ofDigits (Nat.toDigits 10 n) = n := by
  rw [ofDigits, Nat.ofDigitChars_ten_toDigits]

theorem ofDigits_pad (width n : ℕ) : ofDigits (pad width (Nat.toDigits 10 n)) = n := by
  rw [ofDigits, pad, Nat.ofDigitChars_append, Nat.ofDigitChars_replicate_zero, Nat.mul_zero,
    Nat.ofDigitChars_ten_toDigits]

theorem readUnsigned_parts (i f width : ℕ) :
    readUnsigned (Nat.toDigits 10 i ++ '.' :: pad width (Nat.toDigits 10 f)) =
      some (i + f / 10 ^ (pad width (Nat.toDigits 10 f)).length : ℚ) := by
  rw [readUnsigned_append (Json.digits_toDigits _) Nat.toDigits_ne_nil (digits_pad _ _)
    (pad_ne_nil _ _), ofDigits_toDigits, ofDigits_pad]

theorem read_parts (i f width : ℕ) :
    read (Nat.toDigits 10 i ++ '.' :: pad width (Nat.toDigits 10 f)) =
      some (i + f / 10 ^ (pad width (Nat.toDigits 10 f)).length : ℚ) := by
  have hdigit := Json.digits_toDigits i
  obtain ⟨c, ds, heq, -⟩ := Json.toDigits_eq_cons i
  have hread := readUnsigned_parts i f width
  rw [heq] at hread hdigit ⊢
  rw [List.cons_append] at hread ⊢
  rw [read.eq_2, hread]
  rintro cs ⟨⟩
  exact absurd (hdigit '-' List.mem_cons_self) (by decide)

theorem readUnsigned_toDigits (n : ℕ) : readUnsigned (Nat.toDigits 10 n) = some (n : ℚ) := by
  obtain ⟨htake, hdrop⟩ := @takeWhile_digits _ [] (Json.digits_toDigits n) nofun
  rw [List.append_nil] at htake hdrop
  simp only [readUnsigned, htake, hdrop]
  rw [if_neg Nat.toDigits_ne_nil, ofDigits_toDigits]

/-- An integer is read as it is printed. -/
theorem read_int (i : ℤ) : read (toString i).toList = some (i : ℚ) := by
  rw [Json.toList_toString_int]
  split
  · next hneg =>
    rw [read, readUnsigned_toDigits, Option.map_some, Nat.cast_natAbs, Int.cast_abs,
      abs_of_neg (Int.cast_lt_zero.mpr hneg), neg_neg]
  · next hneg =>
    have hread := readUnsigned_toDigits i.natAbs
    have hdigit := Json.digits_toDigits i.natAbs
    obtain ⟨c, ds, heq, -⟩ := Json.toDigits_eq_cons i.natAbs
    rw [Nat.cast_natAbs, Int.cast_abs, abs_of_nonneg (Int.cast_nonneg (not_lt.mp hneg))] at hread
    rw [heq] at hread hdigit ⊢
    rw [read.eq_2, hread]
    rintro cs ⟨⟩
    exact absurd (hdigit '-' List.mem_cons_self) (by decide)

/-- The sign in front of two parts is that of the integer part. -/
theorem read_whole (x : ℚ) (f width : ℕ) :
    read ((toString (CFloat.trunc x)).toList ++ '.' :: pad width (Nat.toDigits 10 f)) =
      some (if x < 0 ∧ ⌊|x|⌋₊ ≠ 0 then
        -(⌊|x|⌋₊ + f / 10 ^ (pad width (Nat.toDigits 10 f)).length : ℚ)
      else (⌊|x|⌋₊ + f / 10 ^ (pad width (Nat.toDigits 10 f)).length : ℚ)) := by
  rw [Json.toList_toString_int, CFloat.natAbs_trunc]
  by_cases hneg : x < 0 ∧ ⌊|x|⌋₊ ≠ 0
  · rw [if_pos ((CFloat.trunc_neg_iff x).mpr hneg), if_pos hneg, List.cons_append, read,
      readUnsigned_parts]
    rfl
  · rw [if_neg fun h ↦ hneg ((CFloat.trunc_neg_iff x).mp h), if_neg hneg, read_parts]

/-- How many digits the fraction is printed with. -/
def fracLength (k width : ℕ) (x : ℚ) : ℕ := (pad width (Nat.toDigits 10 (fracOf k x))).length

/-- What the two parts amount to, without a sign. -/
def magnitude (k width : ℕ) (x : ℚ) : ℚ := ⌊|x|⌋₊ + fracOf k x / 10 ^ fracLength k width x

/-- **What the reader gets**: the sign is that of the integer part. -/
theorem read_fixed (k width : ℕ) (x : ℚ) :
    read (fixed k width x) = some (if x < 0 ∧ ⌊|x|⌋₊ ≠ 0 then -magnitude k width x
      else magnitude k width x) :=
  read_whole x (fracOf k x) width

/-! ## How far off the reader is -/

section Bounds

variable (k : ℕ) {width : ℕ} (x : ℚ)

theorem fracOf_le : (fracOf k x : ℚ) ≤ 10 ^ k * (|x| - ⌊|x|⌋₊) := by
  have hfloor := Nat.floor_le (abs_nonneg x)
  exact Nat.floor_le (mul_nonneg (by positivity) (by linarith))

theorem lt_fracOf_add_one : 10 ^ k * (|x| - ⌊|x|⌋₊) < fracOf k x + 1 :=
  Nat.lt_floor_add_one _

theorem fracOf_lt : fracOf k x < 10 ^ k := by
  have hle := fracOf_le k x
  have hlt := Nat.lt_floor_add_one |x|
  have hpow : (0 : ℚ) < 10 ^ k := by positivity
  have : (fracOf k x : ℚ) < (10 ^ k : ℕ) := by
    push_cast
    nlinarith
  exact_mod_cast this

variable {k x}

theorem fracLength_le (hk : 0 < k) (hw : width ≤ k) : fracLength k width x ≤ k := by
  have hlen := (Nat.length_toDigits_le_iff (n := fracOf k x) (by decide : 1 < 10) hk).mpr
    (fracOf_lt k x)
  rw [fracLength, pad, List.length_append, List.length_replicate]
  omega

/-- All the digits of a fraction are printed if zeros are filled in or there is none to drop. -/
theorem fracLength_eq_iff (hk : 0 < k) (hw : width ≤ k) (hpos : 0 < fracOf k x) :
    fracLength k width x = k ↔ width = k ∨ 10 ^ (k - 1) ≤ fracOf k x := by
  have hle := fracLength_le (x := x) hk hw
  have hne : 0 < (Nat.toDigits 10 (fracOf k x)).length :=
    List.length_pos_of_ne_nil Nat.toDigits_ne_nil
  rw [fracLength, pad, List.length_append, List.length_replicate] at hle ⊢
  rcases Nat.eq_or_lt_of_le (Nat.one_le_iff_ne_zero.mpr hk.ne') with hone | hmore
  · obtain rfl : k = 1 := hone.symm
    exact iff_of_true (by omega) (Or.inr hpos)
  · have hlen := Nat.length_toDigits_le_iff (n := fracOf k x) (by decide : 1 < 10)
      (show 0 < k - 1 by omega)
    rw [← not_lt, ← hlen]
    omega

/-- With all its digits, the fraction is cut off behind the last. -/
theorem magnitude_of_length (h : fracLength k width x = k) :
    magnitude k width x ≤ |x| ∧ |x| < magnitude k width x + 1 / 10 ^ k := by
  have hle := fracOf_le k x
  have hlt := lt_fracOf_add_one k x
  have hpow : (0 : ℚ) < 10 ^ k := by positivity
  rw [magnitude, h]
  constructor
  · have : (fracOf k x : ℚ) / 10 ^ k ≤ |x| - ⌊|x|⌋₊ := by
      rw [div_le_iff₀ hpow]
      linarith
    linarith
  · have : |x| - ⌊|x|⌋₊ < (fracOf k x + 1 : ℚ) / 10 ^ k := by
      rw [lt_div_iff₀ hpow]
      linarith
    rw [add_div] at this
    linarith

/-- With digits dropped, it is at least a unit too much. -/
theorem magnitude_of_length_lt (h : fracLength k width x < k)
    (hpos : 0 < fracOf k x) : |x| + 1 / 10 ^ k ≤ magnitude k width x := by
  have hlt := lt_fracOf_add_one k x
  have hpow : (0 : ℚ) < 10 ^ k := by positivity
  have hone : (1 : ℚ) ≤ fracOf k x := by exact_mod_cast hpos
  have hfrac : (10 * fracOf k x : ℚ) / 10 ^ k ≤ fracOf k x / 10 ^ fracLength k width x := by
    rw [div_le_div_iff₀ hpow (by positivity)]
    have hpows : (10 : ℚ) * 10 ^ fracLength k width x ≤ 10 ^ k := by
      rw [← pow_succ']
      exact pow_le_pow_right₀ (by norm_num) h
    nlinarith
  have hpart : |x| - ⌊|x|⌋₊ < (fracOf k x + 1 : ℚ) / 10 ^ k := by
    rw [lt_div_iff₀ hpow]
    linarith
  have hgap : (fracOf k x + 1 : ℚ) / 10 ^ k + 1 / 10 ^ k ≤ (10 * fracOf k x : ℚ) / 10 ^ k := by
    rw [← add_div, div_le_div_iff_of_pos_right hpow]
    linarith
  rw [magnitude]
  linarith

theorem magnitude_of_zero (h : fracOf k x = 0) : magnitude k width x = ⌊|x|⌋₊ := by
  rw [magnitude, h, Nat.cast_zero, zero_div, add_zero]

theorem magnitude_nonneg : 0 ≤ magnitude k width x := by
  rw [magnitude]
  positivity

end Bounds

/-- A number with its sign: faithful if it is close enough. -/
theorem faithful_of_close {cs : List Char} {x q unit : ℚ} (hread : read cs = some q)
    (hsign : (0 ≤ x ∧ 0 ≤ q) ∨ (x < 0 ∧ q ≤ 0)) (hle : |q| ≤ |x|) (hlt : |x| < |q| + unit) :
    Faithful cs x unit := by
  refine ⟨q, hread, ?_, ?_⟩
  · rcases hsign with ⟨hx, hq⟩ | ⟨hx, hq⟩
    · rcases hq.eq_or_lt with hzero | hpos
      · exact Or.inl hzero.symm
      · rw [abs_of_pos hpos, abs_of_nonneg hx] at hle
        exact Or.inr (mul_pos hpos (by linarith))
    · rcases hq.eq_or_lt with hzero | hneg
      · exact Or.inl hzero
      · exact Or.inr (mul_pos_of_neg_of_neg hneg hx)
  · rcases hsign with ⟨hx, hq⟩ | ⟨hx, hq⟩
    · rw [abs_of_nonneg hx, abs_of_nonneg hq] at *
      rw [abs_lt]
      constructor <;> linarith
    · rw [abs_of_neg hx, abs_of_nonpos hq] at *
      rw [abs_lt]
      constructor <;> linarith

/-- A number of the right size is faithful if the sign of its integer part is that of the number. -/
theorem faithful_of_magnitude {k width : ℕ} {x : ℚ} (hle : magnitude k width x ≤ |x|)
    (hlt : |x| < magnitude k width x + 1 / 10 ^ k)
    (hsign : 0 ≤ x ∨ 1 ≤ |x| ∨ magnitude k width x = 0) :
    Faithful (fixed k width x) x (1 / 10 ^ k) := by
  have hmag : 0 ≤ magnitude k width x := magnitude_nonneg
  have hread := read_fixed k width x
  by_cases hneg : x < 0 ∧ ⌊|x|⌋₊ ≠ 0
  · rw [if_pos hneg] at hread
    have habs : |-magnitude k width x| = magnitude k width x := by
      rw [abs_neg, abs_of_nonneg hmag]
    exact faithful_of_close hread (Or.inr ⟨hneg.1, by linarith⟩) (habs.le.trans hle)
      (by rw [habs]; exact hlt)
  · rw [if_neg hneg] at hread
    have habs := abs_of_nonneg hmag
    refine faithful_of_close hread ?_ (habs.symm ▸ hle) (habs.symm ▸ hlt)
    rcases hsign with hx | hone | hzero
    · exact Or.inl ⟨hx, hmag⟩
    · refine Or.inl ⟨?_, hmag⟩
      by_contra hx
      exact hneg ⟨not_le.mp hx, (Nat.floor_pos.mpr hone).ne'⟩
    · rcases le_or_gt 0 x with hx | hx
      · exact Or.inl ⟨hx, hmag⟩
      · exact Or.inr ⟨hx, hzero.le⟩

/-- A number below zero whose sign is not printed is not faithful. -/
theorem not_faithful_of_sign {k width : ℕ} {x : ℚ} (hx : x < 0) (hone : ¬ 1 ≤ |x|)
    (hpos : 0 < fracOf k x) : ¬ Faithful (fixed k width x) x (1 / 10 ^ k) := by
  rintro ⟨q, hq, hsign, -⟩
  have hfloor : ¬ (x < 0 ∧ ⌊|x|⌋₊ ≠ 0) := fun h ↦ hone (Nat.floor_pos.mp (Nat.pos_of_ne_zero h.2))
  rw [read_fixed, if_neg hfloor, Option.some.injEq] at hq
  have hfrac : (0 : ℚ) < fracOf k x := by exact_mod_cast hpos
  have hq0 : 0 < q := by
    rw [← hq, magnitude]
    positivity
  rcases hsign with rfl | hprod
  · exact lt_irrefl 0 hq0
  · exact absurd hprod (not_lt.mpr (mul_nonpos_of_nonneg_of_nonpos hq0.le hx.le))

/-- A number whose fraction has lost zeros is not faithful. -/
theorem not_faithful_of_length {k width : ℕ} {x : ℚ} (h : fracLength k width x < k)
    (hpos : 0 < fracOf k x) : ¬ Faithful (fixed k width x) x (1 / 10 ^ k) := by
  rintro ⟨q, hq, -, hclose⟩
  have hfar := magnitude_of_length_lt h hpos
  have hmag : |q| = magnitude k width x := by
    rw [read_fixed, Option.some.injEq] at hq
    rw [← hq]
    split
    · rw [abs_neg, abs_of_nonneg magnitude_nonneg]
    · rw [abs_of_nonneg magnitude_nonneg]
  have habs := abs_sub_abs_le_abs_sub q x
  linarith

/-- **When a number can be read back.**  A number in two parts reads as it should exactly if its
fraction is zero, or is printed with all its digits and behind a sign where it needs one. -/
theorem faithful_fixed_iff {k width : ℕ} (hk : 0 < k) (hw : width ≤ k) (x : ℚ) :
    Faithful (fixed k width x) x (1 / 10 ^ k) ↔ Legible k width x := by
  rcases Nat.eq_zero_or_pos (fracOf k x) with hzero | hpos
  · have hmag := @magnitude_of_zero k width x hzero
    have hlt := lt_fracOf_add_one k x
    have hpow : (0 : ℚ) < 10 ^ k := by positivity
    rw [hzero, Nat.cast_zero, zero_add, mul_comm, ← lt_div_iff₀ hpow] at hlt
    refine iff_of_true (faithful_of_magnitude ?_ ?_ ?_) (Or.inl hzero)
    · rw [hmag]
      exact Nat.floor_le (abs_nonneg x)
    · rw [hmag]
      linarith
    · rcases Nat.eq_zero_or_pos ⌊|x|⌋₊ with hfloor | hfloor
      · exact Or.inr (Or.inr (by rw [hmag, hfloor, Nat.cast_zero]))
      · exact Or.inr (Or.inl (Nat.floor_pos.mp hfloor))
  · rw [Legible, ← fracLength_eq_iff hk hw hpos, or_iff_right hpos.ne']
    by_cases hlen : fracLength k width x = k
    · rw [and_iff_right hlen]
      by_cases hsign : 0 ≤ x ∨ 1 ≤ |x|
      · obtain ⟨hle, hlt⟩ := magnitude_of_length hlen
        exact iff_of_true (faithful_of_magnitude hle hlt (hsign.imp id Or.inl)) hsign
      · obtain ⟨hx, hone⟩ := not_or.mp hsign
        exact iff_of_false (not_faithful_of_sign (not_le.mp hx) hone hpos) hsign
    · refine iff_of_false (not_faithful_of_length ?_ hpos) fun h ↦ hlen h.1
      exact lt_of_le_of_ne (fracLength_le hk hw) hlen

/-! ## Numbers that are read alike -/

section Alike

variable {k width : ℕ} {x y : ℚ}

/-- The digits shown behind the dot, filled up to `k` digits on the right. -/
def shownFrac (k width : ℕ) (x : ℚ) : ℕ := fracOf k x * 10 ^ (k - fracLength k width x)

theorem fracOf_lt_pow_fracLength : fracOf k x < 10 ^ fracLength k width x := by
  have hlen : 0 < (Nat.toDigits 10 (fracOf k x)).length :=
    List.length_pos_of_ne_nil Nat.toDigits_ne_nil
  refine lt_of_lt_of_le ((Nat.length_toDigits_le_iff (by decide) hlen).mp le_rfl) ?_
  refine Nat.pow_le_pow_right (by decide) ?_
  rw [fracLength, pad, List.length_append]
  exact Nat.le_add_left _ _

theorem shownFrac_lt (hk : 0 < k) (hw : width ≤ k) : shownFrac k width x < 10 ^ k := by
  have hlen := fracLength_le (x := x) hk hw
  calc shownFrac k width x
      < 10 ^ fracLength k width x * 10 ^ (k - fracLength k width x) :=
        Nat.mul_lt_mul_of_pos_right fracOf_lt_pow_fracLength (by positivity)
    _ = 10 ^ k := by rw [← pow_add, Nat.add_sub_cancel' hlen]

theorem magnitude_eq (hk : 0 < k) (hw : width ≤ k) :
    magnitude k width x * 10 ^ k = (⌊|x|⌋₊ * 10 ^ k + shownFrac k width x : ℕ) := by
  have hlen := fracLength_le (x := x) hk hw
  have hpow : (10 : ℚ) ^ k = 10 ^ fracLength k width x * 10 ^ (k - fracLength k width x) := by
    rw [← pow_add, Nat.add_sub_cancel' hlen]
  have hne : (10 : ℚ) ^ fracLength k width x ≠ 0 := by positivity
  rw [magnitude, shownFrac, add_mul]
  push_cast
  congr 1
  rw [hpow]
  field_simp

/-- Two numbers have the same size in print if they show the same digits. -/
theorem magnitude_eq_iff (hk : 0 < k) (hw : width ≤ k) :
    magnitude k width x = magnitude k width y ↔
      ⌊|x|⌋₊ = ⌊|y|⌋₊ ∧ shownFrac k width x = shownFrac k width y := by
  have hpow : (10 : ℚ) ^ k ≠ 0 := by positivity
  have hx := shownFrac_lt (x := x) hk hw
  have hy := shownFrac_lt (x := y) hk hw
  rw [← mul_left_inj' hpow, magnitude_eq hk hw, magnitude_eq hk hw, Nat.cast_inj]
  constructor
  · intro h
    have hdiv : ∀ a f, f < 10 ^ k → (a * 10 ^ k + f) / 10 ^ k = a := by
      intro a f hf
      rw [mul_comm, Nat.mul_add_div (by positivity), Nat.div_eq_of_lt hf, Nat.add_zero]
    have hfloor : ⌊|x|⌋₊ = ⌊|y|⌋₊ := by
      rw [← hdiv ⌊|x|⌋₊ _ hx, h, hdiv ⌊|y|⌋₊ _ hy]
    rw [hfloor] at h
    exact ⟨hfloor, Nat.add_left_cancel h⟩
  · rintro ⟨hfloor, hfrac⟩
    rw [hfloor, hfrac]

theorem ite_neg_eq_ite_neg_iff {a b : ℚ} (p q : Prop) [Decidable p] [Decidable q] (ha : 0 ≤ a)
    (hb : 0 ≤ b) : (if p then -a else a) = (if q then -b else b) ↔ a = b ∧ (a = 0 ∨ (p ↔ q)) := by
  have hopp : ∀ {c d : ℚ}, 0 ≤ c → 0 ≤ d → (-c = d ↔ c = d ∧ c = 0) := fun hc hd ↦
    ⟨fun h ↦ ⟨by linarith, by linarith⟩, fun ⟨h, hzero⟩ ↦ by linarith⟩
  by_cases hp : p
  · by_cases hq : q
    · simp [hp, hq]
    · simp [hp, hq, hopp ha hb]
  · by_cases hq : q
    · rw [if_neg hp, if_pos hq, eq_comm, hopp hb ha]
      simp only [hp, hq, false_iff, not_true, or_false]
      exact ⟨fun h ↦ ⟨h.1.symm, h.1 ▸ h.2⟩, fun h ↦ ⟨h.1.symm, h.1 ▸ h.2⟩⟩
    · simp [hp, hq]

/-- **Which numbers cannot be told apart**: those that show the same digits, and the same sign
where there is an integer part to carry it. -/
theorem read_fixed_eq_iff (hk : 0 < k) (hw : width ≤ k) :
    read (fixed k width x) = read (fixed k width y) ↔
      ⌊|x|⌋₊ = ⌊|y|⌋₊ ∧ shownFrac k width x = shownFrac k width y ∧
        (⌊|x|⌋₊ = 0 ∨ (x < 0 ↔ y < 0)) := by
  rw [read_fixed, read_fixed, Option.some.injEq,
    ite_neg_eq_ite_neg_iff _ _ magnitude_nonneg magnitude_nonneg, magnitude_eq_iff hk hw, and_assoc]
  refine and_congr_right fun hfloor ↦ and_congr_right fun _ ↦ ?_
  rw [hfloor]
  by_cases hzero : ⌊|y|⌋₊ = 0
  · simp [hzero]
  · have hmag : magnitude k width x ≠ 0 := by
      have hpos : (0 : ℚ) < ⌊|x|⌋₊ := by
        rw [hfloor]
        exact_mod_cast Nat.pos_of_ne_zero hzero
      have hfrac : (0 : ℚ) ≤ fracOf k x / 10 ^ fracLength k width x := by positivity
      rw [magnitude]
      exact (add_pos_of_pos_of_nonneg hpos hfrac).ne'
    simp [hzero, hmag]

end Alike

end Decimal
