import Mathlib.Data.Rat.Floor

/-!
# Floating-point values in exact arithmetic

A `CFloat` is what a C `float` or `double` can stand for: not a number, an infinity, or a
rational.  Arithmetic on it is exact; rounding is not modelled.  What is modelled is everything
else the conversions do: `convert lo hi` truncates towards zero, and for a value that does not fit
the target (or is none) it gives whatever the platform gives, as the `undef` argument says.
-/

set_option autoImplicit false

/-- The value of a floating-point expression. -/
inductive CFloat
  | nan
  | inf (negative : Bool)
  | val (q : ℚ)
deriving DecidableEq

namespace CFloat

/-- `isnan`. -/
def isNan : CFloat → Bool
  | nan => true
  | _ => false

/-- A value multiplied by a positive constant `c`. -/
def scale (c : ℚ) : CFloat → CFloat
  | val q => val (c * q)
  | x => x

/-- A value with a constant added. -/
def plus (c : ℚ) : CFloat → CFloat
  | val q => val (q + c)
  | x => x

/-- The negation. -/
def neg : CFloat → CFloat
  | nan => nan
  | inf s => inf !s
  | val q => val (-q)

/-- Truncation towards zero. -/
def trunc (q : ℚ) : ℤ := if q < 0 then -⌊-q⌋ else ⌊q⌋

/-- Conversion to an integer type with the values `lo, …, hi`. -/
def convert (undef : CFloat → ℤ) (lo hi : ℤ) : CFloat → ℤ
  | val q => if lo ≤ trunc q ∧ trunc q ≤ hi then trunc q else undef (val q)
  | x => undef x

/-- The difference. -/
def sub : CFloat → CFloat → CFloat
  | nan, _ | _, nan => nan
  | inf s, inf t => if s = t then nan else inf s
  | inf s, val _ => inf s
  | val _, inf t => inf !t
  | val q, val r => val (q - r)

/-- The product. -/
def mul : CFloat → CFloat → CFloat
  | nan, _ | _, nan => nan
  | inf s, inf t => inf (s != t)
  | inf s, val r => if r = 0 then nan else inf (s != decide (r < 0))
  | val q, inf t => if q = 0 then nan else inf (decide (q < 0) != t)
  | val q, val r => val (q * r)

/-- The quotient. -/
def div : CFloat → CFloat → CFloat
  | nan, _ | _, nan => nan
  | inf _, inf _ => nan
  | inf s, val r => inf (s != decide (r < 0))
  | val _, inf _ => val 0
  | val q, val r => if r = 0 then (if q = 0 then nan else inf (decide (q < 0))) else val (q / r)

/-- `<`. -/
def lt : CFloat → CFloat → Bool
  | nan, _ | _, nan => false
  | inf s, inf t => s && !t
  | inf s, val _ => s
  | val _, inf t => !t
  | val q, val r => decide (q < r)

/-- `fabsf`. -/
def fabs : CFloat → CFloat
  | nan => nan
  | inf _ => inf false
  | val q => val |q|

/-- `roundf`: to the nearest integer, halves away from zero. -/
def round : CFloat → CFloat
  | val q => val (if q < 0 then -⌊-q + 1 / 2⌋ else ⌊q + 1 / 2⌋ : ℤ)
  | x => x

/-- The integer nearest to `q`, halves away from zero. -/
def nearest (q : ℚ) : ℤ := if q < 0 then -⌊-q + 1 / 2⌋ else ⌊q + 1 / 2⌋

/-- A number strictly between `lo` and `hi`. -/
def Between (lo hi : ℚ) (x : CFloat) : Prop := ∃ q, x = val q ∧ lo < q ∧ q < hi

/-- The value of a `float` with these bits. -/
def ofBits (bits : BitVec 32) : CFloat :=
  let negative := bits.getLsbD 31
  let e := (bits.extractLsb' 23 8).toNat
  let f := (bits.extractLsb' 0 23).toNat
  if e = 255 then (if f = 0 then inf negative else nan)
  else
    let m : ℚ := if e = 0 then 2 * f else (2 ^ 23 + f) * 2 ^ e
    val ((if negative then -m else m) / 2 ^ 150)

theorem trunc_of_nonneg {q : ℚ} (h : 0 ≤ q) : trunc q = ⌊q⌋ := if_neg (by linarith)

theorem trunc_of_neg {q : ℚ} (h : q < 0) : trunc q = -⌊-q⌋ := if_pos h

/-- Truncation rounds the absolute value down. -/
theorem natAbs_trunc (q : ℚ) : (trunc q).natAbs = ⌊|q|⌋₊ := by
  have hpos : ∀ r : ℚ, 0 ≤ r → (⌊r⌋).natAbs = ⌊r⌋₊ := by
    intro r hr
    rw [← Int.natCast_floor_eq_floor hr, Int.natAbs_natCast]
  rcases le_or_gt 0 q with h | h
  · rw [trunc_of_nonneg h, abs_of_nonneg h, hpos q h]
  · rw [trunc_of_neg h, Int.natAbs_neg, abs_of_neg h, hpos (-q) (by linarith)]

/-- What truncation takes away is below one. -/
theorem abs_sub_trunc (q : ℚ) : |q - trunc q| = |q| - ⌊|q|⌋₊ := by
  rcases le_or_gt 0 q with h | h
  · have hfloor := Nat.floor_le h
    rw [trunc_of_nonneg h, abs_of_nonneg h, ← Int.natCast_floor_eq_floor h, Int.cast_natCast,
      abs_of_nonneg (by linarith)]
  · have hfloor := Nat.floor_le (show 0 ≤ -q by linarith)
    rw [trunc_of_neg h, abs_of_neg h, ← Int.natCast_floor_eq_floor (show 0 ≤ -q by linarith),
      Int.cast_neg, Int.cast_natCast, abs_of_nonpos (by linarith)]
    ring

/-! ## What fits an integer type

Truncation lets values almost a whole unit outside the target range into it, rounding half a unit
on either side. -/

theorem le_trunc_iff {n : ℤ} (hn : n ≤ 0) (q : ℚ) : n ≤ trunc q ↔ (n : ℚ) - 1 < q := by
  have hn' : (n : ℚ) ≤ 0 := by exact_mod_cast hn
  rcases le_or_gt 0 q with h | h
  · rw [trunc_of_nonneg h]
    exact iff_of_true (hn.trans (Int.floor_nonneg.mpr h)) (by linarith)
  · rw [trunc_of_neg h, le_neg, ← Int.lt_add_one_iff, Int.floor_lt, Int.cast_add,
      Int.cast_neg, Int.cast_one]
    exact ⟨fun hlt ↦ by linarith, fun hlt ↦ by linarith⟩

theorem trunc_neg (q : ℚ) : trunc (-q) = -trunc q := by
  rcases lt_trichotomy q 0 with h | rfl | h
  · rw [trunc_of_neg h, trunc_of_nonneg (by linarith), neg_neg]
  · rfl
  · rw [trunc_of_nonneg h.le, trunc_of_neg (by linarith), neg_neg]

theorem trunc_le_iff {n : ℤ} (hn : 0 ≤ n) (q : ℚ) : trunc q ≤ n ↔ q < n + 1 := by
  have hneg := le_trunc_iff (neg_nonpos.mpr hn) (-q)
  rw [trunc_neg, neg_le_neg_iff, Int.cast_neg] at hneg
  exact hneg.trans ⟨fun hlt ↦ by linarith, fun hlt ↦ by linarith⟩

theorem abs_trunc_sub_le (q : ℚ) : |(trunc q : ℚ) - q| ≤ 1 := by
  have hlt := Nat.lt_floor_add_one |q|
  rw [abs_sub_comm, abs_sub_trunc]
  linarith

@[simp] theorem trunc_intCast (n : ℤ) : trunc n = n := by
  rcases le_or_gt (0 : ℚ) n with h | h
  · rw [trunc_of_nonneg h, Int.floor_intCast]
  · rw [trunc_of_neg h, ← Int.cast_neg, Int.floor_intCast, neg_neg]

/-- Rounding is truncation of what lies half a unit further out. -/
theorem nearest_eq_trunc (q : ℚ) :
    nearest q = trunc (if q < 0 then q - 1 / 2 else q + 1 / 2) := by
  rcases lt_or_ge q 0 with h | h
  · rw [nearest, if_pos h, if_pos h, trunc_of_neg (by linarith), neg_sub, sub_eq_neg_add,
      add_comm]
  · rw [nearest, if_neg h.not_gt, if_neg h.not_gt, trunc_of_nonneg (by linarith)]

theorem round_val (q : ℚ) : round (val q) = val (nearest q : ℤ) := rfl

theorem le_nearest_iff {n : ℤ} (hn : n ≤ 0) (q : ℚ) : n ≤ nearest q ↔ (n : ℚ) - 1 / 2 < q := by
  have hn' : (n : ℚ) ≤ 0 := by exact_mod_cast hn
  rw [nearest_eq_trunc, le_trunc_iff hn]
  split
  · exact ⟨fun hlt ↦ by linarith, fun hlt ↦ by linarith⟩
  · exact ⟨fun _ ↦ by linarith, fun _ ↦ by linarith⟩

theorem nearest_le_iff {n : ℤ} (hn : 0 ≤ n) (q : ℚ) : nearest q ≤ n ↔ q < n + 1 / 2 := by
  have hn' : (0 : ℚ) ≤ n := by exact_mod_cast hn
  rw [nearest_eq_trunc, trunc_le_iff hn]
  split
  · exact ⟨fun _ ↦ by linarith, fun _ ↦ by linarith⟩
  · exact ⟨fun hlt ↦ by linarith, fun hlt ↦ by linarith⟩

theorem abs_nearest_sub_le (q : ℚ) : |(nearest q : ℚ) - q| ≤ 1 / 2 := by
  rw [nearest]
  split
  · have hle := Int.floor_le (-q + 1 / 2)
    have hlt := Int.lt_floor_add_one (-q + 1 / 2)
    rw [Int.cast_neg, abs_le]
    exact ⟨by linarith, by linarith⟩
  · have hle := Int.floor_le (q + 1 / 2)
    have hlt := Int.lt_floor_add_one (q + 1 / 2)
    rw [abs_le]
    exact ⟨by linarith, by linarith⟩

theorem between_val_iff {lo hi q : ℚ} : Between lo hi (val q) ↔ lo < q ∧ q < hi :=
  ⟨fun ⟨_, heq, h⟩ ↦ by cases heq; exact h, fun h ↦ ⟨q, rfl, h⟩⟩

theorem not_between_nan {lo hi : ℚ} : ¬Between lo hi nan := fun ⟨_, heq, _⟩ ↦ nomatch heq

theorem not_between_inf {lo hi : ℚ} {s : Bool} : ¬Between lo hi (inf s) :=
  fun ⟨_, heq, _⟩ ↦ nomatch heq

/-- The same bounds, before a value is scaled. -/
theorem between_scale_iff {c : ℚ} (hc : 0 < c) {lo hi : ℚ} {x : CFloat} :
    Between (c * lo) (c * hi) (x.scale c) ↔ Between lo hi x := by
  rcases x with _ | s | q
  · exact iff_of_false not_between_nan not_between_nan
  · exact iff_of_false not_between_inf not_between_inf
  · rw [scale, between_val_iff, between_val_iff, mul_lt_mul_iff_right₀ hc,
      mul_lt_mul_iff_right₀ hc]

theorem between_plus_iff {c lo hi : ℚ} {x : CFloat} :
    Between (lo + c) (hi + c) (x.plus c) ↔ Between lo hi x := by
  rcases x with _ | s | q
  · exact iff_of_false not_between_nan not_between_nan
  · exact iff_of_false not_between_inf not_between_inf
  · rw [plus, between_val_iff, between_val_iff, add_lt_add_iff_right, add_lt_add_iff_right]

/-- **Rounding by truncation.**  A half added before gives the nearest integer from the half below
zero on; further down only where there is nothing to cut off. -/
theorem abs_trunc_add_half_sub_le_iff (x : ℚ) :
    |(trunc (x + 1 / 2) : ℚ) - x| ≤ 1 / 2 ↔ -(1 / 2) ≤ x ∨ ∃ k : ℤ, x + 1 / 2 = k := by
  rcases le_or_gt 0 (x + 1 / 2) with h | h
  · have hle := Int.floor_le (x + 1 / 2)
    have hlt := Int.lt_floor_add_one (x + 1 / 2)
    rw [trunc_of_nonneg h, abs_le]
    exact iff_of_true ⟨by linarith, by linarith⟩ (Or.inl (by linarith))
  · have hle := Int.floor_le (-(x + 1 / 2))
    rw [trunc_of_neg h, Int.cast_neg, abs_le]
    constructor
    · rintro ⟨-, hhigh⟩
      refine Or.inr ⟨-⌊-(x + 1 / 2)⌋, ?_⟩
      rw [Int.cast_neg]
      linarith
    · rintro (hlow | ⟨k, hk⟩)
      · linarith
      · have hfloor : ⌊-(x + 1 / 2)⌋ = -k := by rw [hk, ← Int.cast_neg, Int.floor_intCast]
        rw [hfloor, Int.cast_neg]
        exact ⟨by linarith, by linarith⟩

theorem trunc_neg_iff (q : ℚ) : trunc q < 0 ↔ q < 0 ∧ ⌊|q|⌋₊ ≠ 0 := by
  rcases le_or_gt 0 q with h | h
  · rw [trunc_of_nonneg h]
    exact iff_of_false (not_lt.mpr (Int.floor_nonneg.mpr h)) fun hneg ↦ by linarith [hneg.1]
  · rw [trunc_of_neg h, abs_of_neg h, ← Int.natCast_floor_eq_floor (show 0 ≤ -q by linarith),
      and_iff_right h]
    omega

end CFloat
