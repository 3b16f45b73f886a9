import Mathlib.Algebra.Order.ToIntervalMod
import Mathlib.Tactic.Linarith

/-!
# Wrapping an angle

An angle is brought into `[-h, h)`, half a turn on either side, by adding an odd number of halves,
taking the remainder by a turn `2 * h`, and subtracting a half again.  Which remainder that is makes
a difference below zero: `modFloor` goes with a quotient rounded down and `modTrunc` with one
rounded towards zero.

`Principal h x w` says what the outcome should be, and `principal_iff_eq` that it is the one
`toIcoMod` has.  `principal_wrapFloor` says that the first remainder always gives it;
`principal_wrapTrunc_iff` says where the second does.
-/

set_option autoImplicit false

namespace Wrap

/-- Numbers that are calculated with exactly, such as the rationals or the reals. -/
class abbrev ExactNumbers (K : Type*) :=
  Field K, LinearOrder K, IsStrictOrderedRing K, FloorRing K

variable {K : Type*} [Field K] [LinearOrder K] [IsStrictOrderedRing K] [FloorRing K]

/-- The remainder of a division rounded down. -/
def modFloor (x p : K) : K := x - ⌊x / p⌋ * p

/-- The remainder of a division rounded towards zero. -/
def modTrunc (x p : K) : K := x - (if x / p < 0 then ⌈x / p⌉ else ⌊x / p⌋) * p

/-- `x` with three halves added before, and one subtracted after a remainder by a turn. -/
def wrapFloor (h x : K) : K := modFloor (x + 3 * h) (2 * h) - h

def wrapTrunc (h x : K) : K := modTrunc (x + 3 * h) (2 * h) - h

omit [IsStrictOrderedRing K] [FloorRing K] in
/-- `w` is `x` up to whole turns, and within half a turn of zero. -/
structure Principal (h x w : K) : Prop where
  neg_le : -h ≤ w
  lt : w < h
  turns : ∃ k : ℤ, w = x + k * (2 * h)

variable {h x w : K}

theorem principal_iff_eq (hp : 0 < 2 * h) : Principal h x w ↔ toIcoMod hp (-h) x = w := by
  rw [toIcoMod_eq_iff, Set.mem_Ico]
  constructor
  · rintro ⟨hle, hlt, k, rfl⟩
    refine ⟨⟨hle, by linarith⟩, -k, ?_⟩
    simp
  · rintro ⟨⟨hle, hlt⟩, k, rfl⟩
    refine ⟨hle, by linarith, -k, ?_⟩
    simp

/-- There is one such value. -/
theorem Principal.unique (hh : 0 < h) {w' : K} (hw : Principal h x w) (hw' : Principal h x w') :
    w = w' := by
  have hp : 0 < 2 * h := by linarith
  rw [← (principal_iff_eq hp).mp hw, (principal_iff_eq hp).mp hw']

theorem principal_wrapFloor (hh : 0 < h) (x : K) : Principal h x (wrapFloor h x) := by
  have hp : 0 < 2 * h := by linarith
  have hnonneg := Int.sub_floor_div_mul_nonneg (x + 3 * h) hp
  have hlt := Int.sub_floor_div_mul_lt (x + 3 * h) hp
  refine ⟨?_, ?_, 1 - ⌊(x + 3 * h) / (2 * h)⌋, ?_⟩
  · rw [wrapFloor, modFloor]
    linarith
  · rw [wrapFloor, modFloor]
    linarith
  · rw [wrapFloor, modFloor]
    push_cast
    ring

/-- From zero on the two remainders are the same. -/
theorem modTrunc_of_nonneg {p : K} (hp : 0 < p) (hx : 0 ≤ x) : modTrunc x p = modFloor x p := by
  rw [modTrunc, if_neg (not_lt.mpr (div_nonneg hx hp.le)), modFloor]

/-- Less than one period below zero, truncation leaves the number as it is. -/
theorem modTrunc_of_neg {p : K} (hx : x < 0) (hp : -p < x) : modTrunc x p = x := by
  have hpos : 0 < p := by linarith
  have hdiv : x / p < 0 := div_neg_of_neg_of_pos hx hpos
  have hceil : ⌈x / p⌉ = 0 := by
    rw [Int.ceil_eq_zero_iff, Set.mem_Ioc, lt_div_iff₀ hpos]
    exact ⟨by linarith, hdiv.le⟩
  rw [modTrunc, if_pos hdiv, hceil, Int.cast_zero, zero_mul, sub_zero]

theorem wrapTrunc_of_le (hh : 0 < h) (hx : -(3 * h) ≤ x) : wrapTrunc h x = wrapFloor h x := by
  rw [wrapTrunc, modTrunc_of_nonneg (by linarith) (by linarith), wrapFloor]

/-- Further down it is a turn short. -/
theorem wrapTrunc_of_lt (hx : x < -(3 * h)) (hlow : -(5 * h) < x) : wrapTrunc h x = x + 2 * h := by
  rw [wrapTrunc, modTrunc_of_neg (by linarith) (by linarith)]
  ring

/-- **Where truncation wraps**: as long as the three halves make up for the angle. -/
theorem principal_wrapTrunc_iff (hh : 0 < h) (hlow : -(5 * h) < x) :
    Principal h x (wrapTrunc h x) ↔ -(3 * h) ≤ x := by
  constructor
  · intro hw
    by_contra hlt
    rw [not_le] at hlt
    have hle := hw.neg_le
    rw [wrapTrunc_of_lt hlt hlow] at hle
    linarith
  · intro hx
    rw [wrapTrunc_of_le hh hx]
    exact principal_wrapFloor hh x

/-- The two agree exactly there. -/
theorem wrapTrunc_eq_wrapFloor_iff (hh : 0 < h) (hlow : -(5 * h) < x) :
    wrapTrunc h x = wrapFloor h x ↔ -(3 * h) ≤ x := by
  rw [← principal_wrapTrunc_iff hh hlow]
  refine ⟨fun heq ↦ ?_, fun hw ↦ hw.unique hh (principal_wrapFloor hh x)⟩
  rw [heq]
  exact principal_wrapFloor hh x

end Wrap
