import Mathlib.Data.List.TakeWhile
import UwbApps.Lib.Decimal

/-!
# Other ways to print a number in two parts

Besides `Decimal.fixed` there is `signed`, which prints the sign on its own and the integer part
without, and `rounded`, whose fraction is rounded and not cut off.  The first always reads as it
should.  The second does not when the sign is lost, as with `fixed`, or when the fraction rounds up
to a whole, which takes one digit more.

`readScientific` reads a number with an exponent, and `close_mul` moves the exponent into the unit.
-/

set_option autoImplicit false

namespace Decimal

/-- `q` has the sign of `v`, unless it is zero, and is less than `unit` away. -/
def Close (q v unit : ℚ) : Prop := (q = 0 ∨ 0 < q * v) ∧ |q - v| < unit

/-- The number in two parts, behind a sign of its own. -/
def signed (k : ℕ) (x : ℚ) : List Char :=
  (if x < 0 then ['-'] else []) ++
    (Nat.toDigits 10 ⌊|x|⌋₊ ++ '.' :: pad k (Nat.toDigits 10 (fracOf k x)))

/-- The fraction in units of the last digit, rounded to the nearest. -/
def roundedFrac (k : ℕ) (x : ℚ) : ℕ := ⌊10 ^ k * (|x| - ⌊|x|⌋₊) + 1 / 2⌋₊

/-- The number in two parts, with the fraction rounded. -/
def rounded (k : ℕ) (x : ℚ) : List Char :=
  (toString (CFloat.trunc x)).toList ++ '.' :: pad k (Nat.toDigits 10 (roundedFrac k x))

/-- `n` units of the digit `k` behind the dot, with or without a sign. -/
def inUnits (k : ℕ) (negative : Bool) (n : ℕ) : List Char :=
  (if negative then ['-'] else []) ++
    (Nat.toDigits 10 (n / 10 ^ k) ++ '.' :: pad k (Nat.toDigits 10 (n % 10 ^ k)))

/-- A decimal number with `k` digits behind the dot. -/
def HasDecimals (k : ℕ) (cs : List Char) : Prop :=
  ∃ sign whole frac, cs = sign ++ (whole ++ '.' :: frac) ∧ (sign = [] ∨ sign = ['-']) ∧
    Json.Digits whole ∧ whole ≠ [] ∧ Json.Digits frac ∧ frac.length = k

/-- An integer. -/
def readInt : List Char → Option ℤ
  | '-' :: cs =>
    if cs = [] ∨ !cs.all Char.isDigit then none else some (-(Nat.ofDigitChars 10 cs 0 : ℕ))
  | cs => if cs = [] ∨ !cs.all Char.isDigit then none else some (Nat.ofDigitChars 10 cs 0 : ℕ)

/-- A decimal number, with an exponent or without. -/
def readScientific (cs : List Char) : Option ℚ :=
  match cs.dropWhile (· != 'e') with
  | [] => read cs
  | _ :: es => (read (cs.takeWhile (· != 'e'))).bind fun q ↦ (readInt es).map fun e ↦ q * 10 ^ e

/-! ## Close numbers -/

theorem faithful_iff {cs : List Char} {v unit : ℚ} :
    Faithful cs v unit ↔ ∃ q, read cs = some q ∧ Close q v unit :=
  Iff.rfl

/-- Of the same sign, numbers are as far apart as their sizes. -/
theorem close_of_abs {q v unit : ℚ} (hsign : q = 0 ∨ 0 < q * v) (h : |(|q| - |v|)| < unit) :
    Close q v unit := by
  refine ⟨hsign, ?_⟩
  rcases hsign with rfl | hpos
  · rwa [abs_zero, zero_sub, abs_neg, abs_abs, ← abs_neg, ← zero_sub] at h
  · rcases pos_and_pos_or_neg_and_neg_of_mul_pos hpos with ⟨hq, hv⟩ | ⟨hq, hv⟩
    · rwa [abs_of_pos hq, abs_of_pos hv] at h
    · rw [abs_of_neg hq, abs_of_neg hv] at h
      rwa [abs_sub_comm, ← neg_sub_neg]

theorem close_mul {q v unit c : ℚ} (hc : 0 < c) :
    Close (q * c) (v * c) (unit * c) ↔ Close q v unit := by
  have hprod : q * c * (v * c) = q * v * (c * c) := by ring
  rw [Close, Close, ← sub_mul, abs_mul, abs_of_pos hc, mul_lt_mul_iff_left₀ hc, hprod,
    mul_pos_iff_of_pos_right (mul_pos hc hc), mul_eq_zero, or_iff_left hc.ne']

/-! ## What the readers refuse -/

theorem of_mem_of_readUnsigned {cs : List Char} {q : ℚ} (h : readUnsigned cs = some q) {c : Char}
    (hc : c ∈ cs) : c.isDigit = true ∨ c = '.' := by
  have hdigits : ∀ c ∈ cs.takeWhile Char.isDigit, c.isDigit = true :=
    List.all_eq_true.mp List.all_takeWhile
  rw [← List.takeWhile_append_dropWhile (p := Char.isDigit) (l := cs)] at hc
  rcases List.mem_append.mp hc with hc | hc
  · exact Or.inl (hdigits c hc)
  rw [readUnsigned] at h
  split at h
  · next heq =>
    rw [heq] at hc
    cases hc
  · next fs heq =>
    rw [heq] at hc
    split at h
    · cases h
    · next hok =>
      rcases List.mem_cons.mp hc with hdot | hc
      · exact Or.inr hdot
      · have hall : fs.all Char.isDigit = true := by
          by_contra hnot
          exact hok (Or.inr (Or.inr (by simpa using hnot)))
        exact Or.inl (List.all_eq_true.mp hall c hc)
  · cases h

/-- A sign may only stand in front. -/
theorem read_eq_none {c : Char} {cs : List Char} (h : '-' ∈ cs) : read (c :: cs) = none := by
  have hnone : ∀ ds, '-' ∈ ds → readUnsigned ds = none := by
    intro ds hds
    by_contra hsome
    obtain ⟨q, hq⟩ := Option.ne_none_iff_exists'.mp hsome
    rcases of_mem_of_readUnsigned hq hds with hminus | hminus <;> exact absurd hminus (by decide)
  by_cases hc : c = '-'
  · subst hc
    rw [read, hnone cs h]
    rfl
  · rw [read.eq_2 _ fun ds hds ↦ hc (List.cons.inj hds).1]
    exact hnone _ (List.mem_cons_of_mem c h)

/-! ## The sign on its own -/

theorem length_pad_of_lt {k f : ℕ} (hk : 0 < k) (hf : f < 10 ^ k) :
    (pad k (Nat.toDigits 10 f)).length = k := by
  have hlen := (Nat.length_toDigits_le_iff (by decide : 1 < 10) hk).mpr hf
  rw [pad, List.length_append, List.length_replicate]
  omega

theorem read_signed (k : ℕ) (x : ℚ) :
    read (signed k x) = some (if x < 0 then -magnitude k k x else magnitude k k x) := by
  rw [signed]
  split
  · rw [List.singleton_append, read, readUnsigned_parts]
    rfl
  · rw [List.nil_append, read_parts]
    rfl

theorem hasDecimals_inUnits {k : ℕ} (hk : 0 < k) (negative : Bool) (n : ℕ) :
    HasDecimals k (inUnits k negative n) := by
  have hsign : (if negative then ['-'] else []) = [] ∨
      (if negative then ['-'] else []) = ['-'] := by
    cases negative <;> simp
  exact ⟨_, _, _, rfl, hsign, Json.digits_toDigits _, Nat.toDigits_ne_nil, digits_pad _ _,
    length_pad_of_lt hk (Nat.mod_lt _ (by positivity))⟩

/-- Read back, it is as many units. -/
theorem read_inUnits {k : ℕ} (hk : 0 < k) (negative : Bool) (n : ℕ) :
    read (inUnits k negative n) = some ((if negative then -(n : ℚ) else n) / 10 ^ k) := by
  have hlen := length_pad_of_lt hk (Nat.mod_lt n (show 0 < 10 ^ k by positivity))
  have hpow : (10 ^ k : ℚ) ≠ 0 := by positivity
  have hsplit : ((n / 10 ^ k : ℕ) + (n % 10 ^ k : ℕ) / 10 ^ k : ℚ) = n / 10 ^ k := by
    have hn : ((10 ^ k : ℕ) * (n / 10 ^ k : ℕ) + (n % 10 ^ k : ℕ) : ℚ) = n := by
      exact_mod_cast Nat.div_add_mod n (10 ^ k)
    rw [← hn]
    push_cast
    field_simp
  cases negative with
  | true =>
    have hread := readUnsigned_parts (n / 10 ^ k) (n % 10 ^ k) k
    rw [hlen, hsplit] at hread
    rw [inUnits, if_pos rfl, List.singleton_append, read, hread, if_pos rfl, neg_div]
    rfl
  | false =>
    have hread := read_parts (n / 10 ^ k) (n % 10 ^ k) k
    rw [hlen, hsplit] at hread
    rw [inUnits, if_neg (by decide), List.nil_append, hread, if_neg (by decide)]

/-- **A number with its own sign** always reads as it should. -/
theorem faithful_signed {k : ℕ} (hk : 0 < k) (x : ℚ) : Faithful (signed k x) x (1 / 10 ^ k) := by
  have hlen : fracLength k k x = k := length_pad_of_lt hk (fracOf_lt k x)
  obtain ⟨hle, hlt⟩ := magnitude_of_length hlen
  have hmag : 0 ≤ magnitude k k x := magnitude_nonneg
  have hread := read_signed k x
  by_cases hx : x < 0
  · rw [if_pos hx] at hread
    have habs : |-magnitude k k x| = magnitude k k x := by rw [abs_neg, abs_of_nonneg hmag]
    exact faithful_of_close hread (Or.inr ⟨hx, by linarith⟩) (habs.le.trans hle)
      (habs.symm ▸ hlt)
  · rw [if_neg hx] at hread
    have habs := abs_of_nonneg hmag
    exact faithful_of_close hread (Or.inl ⟨not_lt.mp hx, hmag⟩) (habs.le.trans hle)
      (habs.symm ▸ hlt)

/-! ## The fraction rounded -/

section Rounded

variable {k : ℕ} {x : ℚ}

theorem roundedFrac_le : roundedFrac k x ≤ 10 ^ k := by
  have hlt := Nat.lt_floor_add_one |x|
  have hpow : (0 : ℚ) < 10 ^ k := by positivity
  refine Nat.lt_succ_iff.mp ((Nat.floor_lt' (Nat.succ_ne_zero _)).mpr ?_)
  push_cast
  nlinarith

/-- The rounded fraction is at most half a unit off. -/
theorem abs_roundedFrac_sub_le :
    |(roundedFrac k x : ℚ) / 10 ^ k - (|x| - ⌊|x|⌋₊)| ≤ 1 / 2 / 10 ^ k := by
  have hfrac : 0 ≤ |x| - ⌊|x|⌋₊ := sub_nonneg.mpr (Nat.floor_le (abs_nonneg x))
  have hpow : (0 : ℚ) < 10 ^ k := by positivity
  have hle : (roundedFrac k x : ℚ) ≤ 10 ^ k * (|x| - ⌊|x|⌋₊) + 1 / 2 :=
    Nat.floor_le (by positivity)
  have hlt : 10 ^ k * (|x| - ⌊|x|⌋₊) + 1 / 2 < roundedFrac k x + 1 := Nat.lt_floor_add_one _
  have hscale : (roundedFrac k x : ℚ) / 10 ^ k - (|x| - ⌊|x|⌋₊) =
      (roundedFrac k x - 10 ^ k * (|x| - ⌊|x|⌋₊)) / 10 ^ k := by
    field_simp
  rw [hscale, abs_div, abs_of_pos hpow, div_le_div_iff_of_pos_right hpow, abs_le]
  constructor <;> linarith

/-- What the two parts amount to, without a sign. -/
def roundedMagnitude (k : ℕ) (x : ℚ) : ℚ :=
  ⌊|x|⌋₊ + roundedFrac k x / 10 ^ (pad k (Nat.toDigits 10 (roundedFrac k x))).length

theorem read_rounded : read (rounded k x) = some (if x < 0 ∧ ⌊|x|⌋₊ ≠ 0 then -roundedMagnitude k x
    else roundedMagnitude k x) :=
  read_whole x (roundedFrac k x) k

theorem roundedMagnitude_nonneg : 0 ≤ roundedMagnitude k x := by
  rw [roundedMagnitude]
  positivity

theorem roundedMagnitude_of_lt (hk : 0 < k) (h : roundedFrac k x < 10 ^ k) :
    roundedMagnitude k x = ⌊|x|⌋₊ + roundedFrac k x / 10 ^ k := by
  rw [roundedMagnitude, length_pad_of_lt hk h]

/-- With all its digits, the fraction is at most half a unit off. -/
theorem abs_roundedMagnitude_sub_lt (hk : 0 < k) (h : roundedFrac k x < 10 ^ k) :
    |(roundedMagnitude k x - |x|)| < 1 / 10 ^ k := by
  have hpow : (0 : ℚ) < 1 / 10 ^ k := by positivity
  have hhalf : (1 / 2 : ℚ) / 10 ^ k = 1 / 10 ^ k / 2 := by ring
  have hsub : (⌊|x|⌋₊ + roundedFrac k x / 10 ^ k : ℚ) - |x| =
      roundedFrac k x / 10 ^ k - (|x| - ⌊|x|⌋₊) := by ring
  rw [roundedMagnitude_of_lt hk h, hsub]
  refine lt_of_le_of_lt abs_roundedFrac_sub_le ?_
  rw [hhalf]
  exact half_lt_self hpow

/-- A fraction that rounds up to a whole is printed as a tenth. -/
theorem roundedMagnitude_of_eq (hk : 0 < k) (h : roundedFrac k x = 10 ^ k) :
    roundedMagnitude k x = ⌊|x|⌋₊ + 1 / 10 := by
  have hlen : (pad k (Nat.toDigits 10 (10 ^ k))).length = k + 1 := by
    have hgt := Nat.length_toDigits_le_iff (n := 10 ^ k) (by decide : 1 < 10) hk
    have hle := Nat.length_toDigits_le_iff (n := 10 ^ k) (by decide : 1 < 10) k.succ_pos
    have hpow : 10 ^ k < 10 ^ (k + 1) := Nat.pow_lt_pow_right (by decide) k.lt_succ_self
    rw [pad, List.length_append, List.length_replicate]
    have := hle.mpr hpow
    have := mt hgt.mp (lt_irrefl _)
    omega
  have hpow : (10 : ℚ) ^ k ≠ 0 := by positivity
  rw [roundedMagnitude, h, hlen, pow_succ]
  push_cast
  field_simp

theorem not_close_of_eq (hk : 0 < k) (h : roundedFrac k x = 10 ^ k) :
    1 / 10 ^ k ≤ |(roundedMagnitude k x - |x|)| := by
  have hsub := (abs_le.mp (abs_roundedFrac_sub_le (k := k) (x := x))).2
  have hpow : (10 : ℚ) ^ k ≠ 0 := by positivity
  have hten : (10 : ℚ) ≤ 10 ^ k := by
    calc (10 : ℚ) = 10 ^ 1 := (pow_one 10).symm
      _ ≤ 10 ^ k := pow_le_pow_right₀ (by norm_num) hk
  have hunit : (1 : ℚ) / 10 ^ k ≤ 1 / 10 := one_div_le_one_div_of_le (by norm_num) hten
  have hhalf : (1 / 2 : ℚ) / 10 ^ k = 1 / 10 ^ k / 2 := by ring
  rw [h, Nat.cast_pow, Nat.cast_ofNat, div_self hpow, hhalf] at hsub
  rw [roundedMagnitude_of_eq hk h, abs_sub_comm]
  refine le_trans ?_ (le_abs_self _)
  linarith

/-- **When a rounded number can be read back**: its fraction has not become a whole, and its sign is
printed if it needs one. -/
theorem faithful_rounded_iff (hk : 0 < k) : Faithful (rounded k x) x (1 / 10 ^ k) ↔
    roundedFrac k x < 10 ^ k ∧ (roundedFrac k x = 0 ∨ 0 ≤ x ∨ 1 ≤ |x|) := by
  have hmag : 0 ≤ roundedMagnitude k x := roundedMagnitude_nonneg
  have hfloor : ⌊|x|⌋₊ ≠ 0 ↔ 1 ≤ |x| := by rw [← Nat.pos_iff_ne_zero, Nat.floor_pos]
  have hsize : ∀ q, read (rounded k x) = some q → |q| = roundedMagnitude k x := by
    intro q hq
    rw [read_rounded, Option.some.injEq] at hq
    rw [← hq]
    split
    · rw [abs_neg, abs_of_nonneg hmag]
    · rw [abs_of_nonneg hmag]
  constructor
  · rintro ⟨q, hq, hsign, hclose⟩
    have hlt : roundedFrac k x < 10 ^ k := by
      refine lt_of_le_of_ne roundedFrac_le fun heq ↦ ?_
      have hfar := not_close_of_eq hk heq
      have habs := abs_abs_sub_abs_le_abs_sub q x
      rw [hsize q hq] at habs
      linarith
    refine ⟨hlt, ?_⟩
    by_contra hnot
    obtain ⟨hpos, hx, hone⟩ : roundedFrac k x ≠ 0 ∧ ¬ 0 ≤ x ∧ ¬ 1 ≤ |x| := by
      simpa only [not_or] using hnot
    have hq0 : 0 < q := by
      rw [read_rounded, if_neg fun h ↦ hone (hfloor.mp h.2), Option.some.injEq] at hq
      rw [← hq, roundedMagnitude]
      positivity
    rcases hsign with rfl | hprod
    · exact lt_irrefl 0 hq0
    · exact absurd hprod (not_lt.mpr (mul_nonpos_of_nonneg_of_nonpos hq0.le (not_le.mp hx).le))
  · rintro ⟨hlt, hsign⟩
    refine ⟨_, read_rounded, close_of_abs ?_ ?_⟩
    · split
      · next hneg =>
        have hpos : 0 < roundedMagnitude k x := by
          rw [roundedMagnitude]
          have := Nat.pos_of_ne_zero hneg.2
          positivity
        exact Or.inr (mul_pos_of_neg_of_neg (neg_neg_of_pos hpos) hneg.1)
      · next hneg =>
        rcases hmag.eq_or_lt with hzero | hpos
        · exact Or.inl hzero.symm
        · refine Or.inr (mul_pos hpos (lt_of_not_ge fun hx ↦ ?_))
          have hzeros : ⌊|x|⌋₊ = 0 ∧ roundedFrac k x = 0 := by
            rcases hx.lt_or_eq with hx | rfl
            · have hfloor0 : ⌊|x|⌋₊ = 0 := by
                by_contra hne
                exact hneg ⟨hx, hne⟩
              refine ⟨hfloor0, hsign.resolve_right ?_⟩
              rintro (hnonneg | hone)
              · exact absurd hx (not_lt.mpr hnonneg)
              · exact hfloor.mpr hone hfloor0
            · exact ⟨by simp, by norm_num [roundedFrac]⟩
          rw [roundedMagnitude, hzeros.1, hzeros.2] at hpos
          norm_num at hpos
    · rw [hsize _ read_rounded]
      exact abs_roundedMagnitude_sub_lt hk hlt

end Rounded

/-! ## With an exponent -/

theorem readScientific_of_notMem {cs : List Char} (h : 'e' ∉ cs) : readScientific cs = read cs := by
  have hall : ∀ c ∈ cs, (c != 'e') = true := fun c hc ↦ bne_iff_ne.mpr fun heq ↦ h (heq ▸ hc)
  rw [readScientific, List.dropWhile_eq_nil_iff.mpr hall]

theorem readScientific_append {cs es : List Char} (h : 'e' ∉ cs) {e : ℤ}
    (he : readInt es = some e) :
    readScientific (cs ++ 'e' :: es) = (read cs).map fun q ↦ q * 10 ^ e := by
  have hall : ∀ c ∈ cs, (c != 'e') = true := fun c hc ↦ bne_iff_ne.mpr fun heq ↦ h (heq ▸ hc)
  have hdrop : (cs ++ 'e' :: es).dropWhile (· != 'e') = 'e' :: es := by
    rw [List.dropWhile_append_of_pos hall, List.dropWhile_cons_of_neg (by decide)]
  have htake : (cs ++ 'e' :: es).takeWhile (· != 'e') = cs := by
    rw [List.takeWhile_append_of_pos hall, List.takeWhile_cons_of_neg (by decide), List.append_nil]
  rw [readScientific, hdrop]
  simp only [htake, he, Option.map_some]
  cases read cs <;> rfl

end Decimal
