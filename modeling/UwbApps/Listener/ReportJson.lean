import UwbApps.Lib.JsonWhen
import UwbApps.Listener.Report

/-!
# The report as a JSON text

Every piece of the line is a function of `undef`, the results of conversions that C does not
define, and reads under a condition on the value it prints.  Where the condition does not hold, some
results make the piece a text that cannot be read, and the line with it.

`isReport_iff` puts the pieces together.  A single receiver's phase difference and those of the
pairs are printed with no comma between them, and the fraction of `fp_idx` keeps its sign.
-/

set_option autoImplicit false

open Printf Decimal

namespace UwbApps.Listener

open Settings (LstnrConfig rxDiagBit)
open Json (Val Dead Plain ReadsWhen MembersWhen readsWhen_of_val readsWhen_dec readsWhen_parts
  readsWhen_unsigned readsWhen_array membersWhen_empty membersWhen_list)

/-! ## Numbers -/

/-- The results of undefined conversions. -/
abbrev Undef := CFloat → ℤ

section Conversions

variable {u : Undef} {q : ℚ}

/-- The scaled fraction of a number that fits. -/
theorem fracPart_val (scale : ℤ) (h : FitsInt q) :
    fracPart u scale (.val q) = .val (scale * (q - CFloat.trunc q)) := by
  rw [fracPart, frac_val h]
  rfl

/-- Of one that does not. -/
theorem fracPart_of_not_fitsInt (scale : ℤ) (h : ¬ FitsInt q) : fracPart u scale (.val q) =
    .val (scale * (q - (BitVec.ofInt 32 (u (.val q))).toInt)) := by
  have hint : (exactArith u).toInt (.val q) = BitVec.ofInt 32 (u (.val q)) :=
    toInt_of_not_fitsInt fun r hr ↦ by
      cases hr
      exact h
  have hfrac : (exactArith u).frac (.val q) =
      .val (q - (((exactArith u).toInt (.val q)).toInt : ℤ)) := rfl
  rw [fracPart, hfrac, hint]
  rfl

/-- What is no number has no fraction either. -/
theorem fracPart_of_not_val {scale : ℤ} (hscale : 0 < scale) {x : CFloat} (h : ∀ q, x ≠ .val q) :
    fracPart u scale x = x := by
  cases x with
  | nan => rfl
  | val q => exact absurd rfl (h q)
  | inf s =>
    have hne : (scale : ℚ) ≠ 0 := Int.cast_ne_zero.mpr hscale.ne'
    have hpos : ¬ (scale : ℚ) < 0 := not_lt.mpr (Int.cast_nonneg hscale.le)
    show CFloat.mul (.val scale) (.inf s) = _
    rw [CFloat.mul, if_neg hne, decide_eq_false hpos]
    cases s <;> rfl

/-- A number that is out of range is so by far when it is scaled. -/
theorem not_fitsInt_of_le (h : 2147483649 ≤ |q|) : ¬ FitsInt q := fun hfits ↦
  absurd (abs_lt_of_fitsInt hfits) (not_lt.mpr h)

theorem le_abs_of_not_fitsInt (h : ¬ FitsInt q) : 2147483648 ≤ |q| :=
  not_lt.mp fun hlt ↦ h (fitsInt_of_abs_lt hlt)

end Conversions

/-- It is not a number that fits an `int`. -/
def Unfit (x : CFloat) : Prop := ∀ q, x = .val q → ¬ FitsInt q

/-- The fraction of such a value does not fit either, when its whole part is taken for minus one. -/
theorem unfit_fracPart {x : CFloat} (h : Unfit x) : Unfit (fracPart (fun _ ↦ -1) 1000 x) := by
  cases x with
  | nan => rw [fracPart_of_not_val (by decide) (by simp)]; exact h
  | inf s => rw [fracPart_of_not_val (by decide) (by simp)]; exact h
  | val q =>
    rintro r hr
    rw [fracPart_of_not_fitsInt _ (h q rfl), CFloat.val.injEq] at hr
    have hbig := le_abs_of_not_fitsInt (h q rfl)
    have hone : (BitVec.ofInt 32 (-1)).toInt = -1 := by decide
    rw [hone] at hr
    refine not_fitsInt_of_le ?_
    have habs := abs_sub_abs_le_abs_sub q (-1)
    rw [abs_neg, abs_one] at habs
    rw [← hr, abs_mul]
    push_cast
    rw [abs_of_pos (by norm_num : (0 : ℚ) < 1000)]
    linarith

theorem Unfit.fabs {x : CFloat} (h : Unfit x) : Unfit x.fabs := by
  cases x with
  | nan => exact h
  | inf s => exact fun q hq ↦ by cases hq
  | val q =>
    rintro r hr hfits
    cases hr
    refine h q rfl ?_
    have hnat : (CFloat.trunc |q|).natAbs = (CFloat.trunc q).natAbs := by
      rw [CFloat.natAbs_trunc, CFloat.natAbs_trunc, abs_abs]
    have hnonneg : 0 ≤ CFloat.trunc |q| := by
      rw [CFloat.trunc_of_nonneg (abs_nonneg q)]
      exact Int.floor_nonneg.mpr (abs_nonneg q)
    have hle := hfits.2
    exact ⟨by omega, by omega⟩

/-- It may be converted to minus one. -/
theorem Unfit.intOf {x : CFloat} (h : Unfit x) : (intOf (fun _ ↦ -1) x).toInt < 0 := by
  rw [Listener.intOf, toInt_of_not_fitsInt h]
  decide

/-! ## The numbers of a report -/

/-- A phase difference that is none, or fits an `int` both ways. -/
def PhasePrintable (x : CFloat) : Prop := x = .nan ∨ ∃ q, x = .val q ∧ |q| < 2147483648

/-- A number that fits. -/
def AnglePrintable (x : CFloat) : Prop := ∃ q, x = .val q ∧ FitsInt q

/-- One whose fraction, in thousandths, is not below zero. -/
def FpIdxPrintable (x : CFloat) : Prop :=
  ∃ q, x = .val q ∧ FitsInt q ∧ (0 ≤ q ∨ fracOf 3 q = 0)

/-- A ratio that fits in parts per million. -/
def CcorPrintable (x : CFloat) : Prop := ∃ q, x = .val q ∧ FitsInt (q * 1000000)

theorem unfit_of_not_anglePrintable {x : CFloat} (h : ¬ AnglePrintable x) : Unfit x :=
  fun q hq hfits ↦ h ⟨q, hq, hfits⟩

theorem abs_thousandths (q : ℚ) :
    |1000 * (q - CFloat.trunc q)| = 1000 * (|q| - ⌊|q|⌋₊) ∧
      |1000 * (q - CFloat.trunc q)| < 1000 := by
  have hlt := Nat.lt_floor_add_one |q|
  have habs : |1000 * (q - CFloat.trunc q)| = 1000 * (|q| - ⌊|q|⌋₊) := by
    rw [abs_mul, CFloat.abs_sub_trunc, abs_of_pos (by norm_num : (0 : ℚ) < 1000)]
  exact ⟨habs, by rw [habs]; linarith⟩

theorem fitsInt_thousandths (q : ℚ) : FitsInt (1000 * (q - CFloat.trunc q)) :=
  fitsInt_of_abs_lt (by linarith [(abs_thousandths q).2])

/-- The thousandths that are printed of it. -/
theorem floor_thousandths (q : ℚ) : ⌊|1000 * (q - CFloat.trunc q)|⌋₊ = fracOf 3 q := by
  rw [(abs_thousandths q).1, fracOf]
  norm_num

/-- The fraction of a number that fits, in thousandths and without its sign. -/
theorem toInt_fabs_fracPart {u : CFloat → ℤ} {q : ℚ} (h : FitsInt q) :
    (intOf u (fracPart u 1000 (.val q)).fabs).toInt = (fracOf 3 q : ℕ) := by
  have hthousand : ((1000 : ℤ) : ℚ) = 1000 := rfl
  have hnonneg : 0 ≤ |1000 * (q - CFloat.trunc q)| := abs_nonneg _
  have hfits : FitsInt |1000 * (q - CFloat.trunc q)| := by
    refine fitsInt_of_abs_lt ?_
    rw [abs_abs]
    linarith [(abs_thousandths q).2]
  rw [fracPart_val 1000 h, hthousand]
  show (intOf u (.val |1000 * (q - CFloat.trunc q)|)).toInt = _
  rw [intOf, toInt_val hfits, CFloat.trunc_of_nonneg hnonneg, ← Int.natCast_floor_eq_floor hnonneg,
    floor_thousandths]

theorem readsWhen_angle (x : CFloat) :
    ReadsWhen (AnglePrintable x) (fun _ ↦ True) fun u ↦ angleText u x := by
  refine readsWhen_unsigned 3 ?_ fun h ↦ ⟨fun _ ↦ -1, ?_⟩
  · rintro ⟨q, rfl, hfits⟩ u
    rw [toInt_fabs_fracPart hfits]
    exact Int.natCast_nonneg _
  · exact (unfit_fracPart (unfit_of_not_anglePrintable h)).fabs.intOf

theorem readsWhen_fpIdx (x : CFloat) :
    ReadsWhen (FpIdxPrintable x) (fun _ ↦ True) fun u ↦ fpIdxText u x := by
  have hthousand : ((1000 : ℤ) : ℚ) = 1000 := rfl
  have hint : ∀ (q : ℚ) u, FitsInt q → (intOf u (fracPart u 1000 (.val q))).toInt =
      CFloat.trunc (1000 * (q - CFloat.trunc q)) := by
    intro q u hfits
    rw [fracPart_val 1000 hfits, hthousand]
    exact toInt_val (fitsInt_thousandths q)
  refine readsWhen_unsigned 3 ?_ fun h ↦ ?_
  · rintro ⟨q, rfl, hfits, hsign⟩ u
    rw [hint q u hfits]
    by_contra hneg
    obtain ⟨hlt, hne⟩ := (CFloat.trunc_neg_iff _).mp (not_le.mp hneg)
    rcases hsign with hq | hzero
    · rw [CFloat.trunc_of_nonneg hq] at hlt
      linarith [Int.floor_le q]
    · exact hne ((floor_thousandths q).trans hzero)
  · by_cases hangle : AnglePrintable x
    · obtain ⟨q, rfl, hfits⟩ := hangle
      have hsign : ¬ (0 ≤ q ∨ fracOf 3 q = 0) := fun hs ↦ h ⟨q, rfl, hfits, hs⟩
      obtain ⟨hq, hne⟩ := not_or.mp hsign
      refine ⟨fun _ ↦ 0, ?_⟩
      rw [hint q _ hfits]
      refine (CFloat.trunc_neg_iff _).mpr ⟨?_, (floor_thousandths q).trans_ne hne⟩
      have hle : 1000 * (q - CFloat.trunc q) ≤ 0 := by
        rw [CFloat.trunc_of_neg (not_le.mp hq)]
        push_cast
        linarith [Int.floor_le (-q)]
      refine lt_of_le_of_ne hle fun hzero ↦ hne ?_
      rw [← floor_thousandths, hzero, abs_zero, Nat.floor_zero]
    · exact ⟨_, (unfit_fracPart (unfit_of_not_anglePrintable hangle)).intOf⟩

/-- With the least `int` for what cannot be converted, a number out of range shows a second sign. -/
theorem phase_out_of_range {x : CFloat} (hnan : x ≠ .nan) (h : ¬ PhasePrintable x) :
    absInt (intOf (fun _ ↦ -2147483648) (fracPart (fun _ ↦ -2147483648) 1000 x)) < 0 ∨
      x.lt (.val 0) = true ∧ absInt (intOf (fun _ ↦ -2147483648) x) < 0 := by
  have hmin : absInt (BitVec.ofInt 32 (-2147483648)) < 0 := by decide
  cases x with
  | nan => exact absurd rfl hnan
  | inf s =>
    refine Or.inl ?_
    rw [fracPart_of_not_val (by decide) (by simp), intOf, toInt_of_not_fitsInt (by simp)]
    exact hmin
  | val q =>
    have hbig : 2147483648 ≤ |q| := not_lt.mp fun hlt ↦ h (Or.inr ⟨q, rfl, hlt⟩)
    have hfloor : 2147483648 ≤ (CFloat.trunc q).natAbs := by
      rw [CFloat.natAbs_trunc]
      exact Nat.le_floor (by exact_mod_cast hbig)
    rcases lt_or_ge q 0 with hneg | hpos
    · refine Or.inr ⟨decide_eq_true hneg, ?_⟩
      by_cases hfits : FitsInt q
      · have htrunc : CFloat.trunc q = -2147483648 := by
          have := hfits.1
          have := hfits.2
          omega
        have hconv : CFloat.convert (fun _ ↦ -2147483648) (-2147483648) 2147483647 (.val q) =
            -2147483648 := (if_pos hfits).trans htrunc
        show absInt (BitVec.ofInt 32 _) < 0
        rw [hconv]
        exact hmin
      · rw [intOf, toInt_of_not_fitsInt fun r hr ↦ by cases hr; exact hfits]
        exact hmin
    · have hfits : ¬ FitsInt q := by
        intro hfits
        have hnonneg : 0 ≤ CFloat.trunc q := by
          rw [CFloat.trunc_of_nonneg hpos]
          exact Int.floor_nonneg.mpr hpos
        have := hfits.2
        omega
      refine Or.inl ?_
      have hunfit : ¬ FitsInt (1000 * (q - ((-2147483648 : ℤ) : ℚ))) := not_fitsInt_of_le (by
        rw [abs_of_nonneg (by push_cast; linarith)]
        push_cast
        rw [abs_of_nonneg hpos] at hbig
        linarith)
      have hint : (BitVec.ofInt 32 (-2147483648)).toInt = -2147483648 := by decide
      rw [fracPart_of_not_fitsInt _ hfits, hint, intOf,
        toInt_of_not_fitsInt fun r hr ↦ by cases hr; exact hunfit]
      exact hmin

theorem val_null_text : Val "null".toList .null := Json.val_null

theorem readsWhen_phase (x : CFloat) :
    ReadsWhen (PhasePrintable x) (fun _ ↦ True) fun u ↦ phaseText u x := by
  by_cases hnan : x = .nan
  · subst hnan
    exact (readsWhen_of_val fun _ ↦ ⟨_, val_null_text⟩).congr (iff_of_true trivial (Or.inl rfl))
  · have htext : ∀ u, phaseText u x = (if x.lt (.val 0) then "-" else "") ++
        dec (absInt (intOf u x)) ++ "." ++ decPad 3 (absInt (intOf u (fracPart u 1000 x))) :=
      fun u ↦ if_neg (by cases x <;> simp_all [CFloat.isNan])
    simp only [htext]
    refine readsWhen_parts 3 ?_ fun h ↦ ⟨_, phase_out_of_range hnan h⟩
    rintro hphase u
    obtain ⟨q, rfl, hlt⟩ := hphase.resolve_left hnan
    have hwhole : 0 ≤ absInt (intOf u (.val q)) := by
      rw [intOf, absInt_val hlt]
      exact Int.natCast_nonneg _
    have hfrac : 0 ≤ absInt (intOf u (fracPart u 1000 (.val q))) := by
      have hthousand : ((1000 : ℤ) : ℚ) = 10 ^ 3 := by norm_num
      rw [fracPart_val _ (fitsInt_of_abs_lt hlt), hthousand, intOf, absInt_frac (by decide)]
      exact Int.natCast_nonneg _
    exact ⟨fun hneg ↦ absurd hneg.2 (not_lt.mpr hwhole), hfrac⟩

/-- A strength is printed as a number only when it has a size at which it can be. -/
theorem readsWhen_signal (x : CFloat) :
    ReadsWhen True (fun _ ↦ True) fun u ↦ signalText u x := by
  refine readsWhen_of_val fun u ↦ ?_
  rw [signalText]
  split
  · next hrange =>
    obtain ⟨hlo, hhi⟩ := Bool.and_eq_true_iff.mp hrange
    have hval : ∃ q, x = .val q ∧ |q| < 200 := by
      cases x with
      | nan => simp [CFloat.lt] at hlo
      | inf s => cases s <;> simp [CFloat.lt] at hlo hhi
      | val q =>
        have hlo := of_decide_eq_true hlo
        have hhi := of_decide_eq_true hhi
        exact ⟨q, rfl, abs_lt.mpr ⟨hlo, by linarith⟩⟩
    obtain ⟨q, rfl, hlt⟩ := hval
    have hten : ((10 : ℤ) : ℚ) = 10 ^ 1 := by norm_num
    have hfrac : 0 ≤ absInt (intOf u (fracPart u 10 (.val q))) := by
      rw [fracPart_val _ (fitsInt_of_abs_lt (by linarith)), hten, intOf, absInt_frac (by decide)]
      exact Int.natCast_nonneg _
    have hnum := (numTo_parts false (i := (intOf u (.val q)).toInt) 1 (by simp) hfrac).val rfl
    rw [if_neg (by decide), String.empty_append] at hnum
    exact ⟨_, hnum⟩
  · exact ⟨_, val_null_text⟩

/-- The rest of the ratio, in thousandths of a millionth. -/
def ccorRest (u : Undef) (ccor : CFloat) : CFloat :=
  ((ccor.sub ((CFloat.val (intOf u (ccor.mul (.val 1000000))).toInt).div (.val 1000000))).fabs.mul
    (.val 1000000000)).round

theorem ccorRest_val (u : Undef) (q : ℚ) : ccorRest u (.val q) =
    .val (⌊|q * 1000000 - (intOf u (.val (q * 1000000))).toInt| * 1000 + 1 / 2⌋ : ℤ) := by
  have hdiv : ∀ r : ℚ, (CFloat.val r).div (.val 1000000) = .val (r / 1000000) := by
    intro r
    rw [CFloat.div, if_neg (by norm_num)]
  have hscale : ∀ p : ℚ, |q - p / 1000000| * 1000000000 = |q * 1000000 - p| * 1000 := by
    intro p
    have hfactor : q * 1000000 - p = (q - p / 1000000) * 1000000 := by ring
    rw [hfactor, abs_mul, abs_of_pos (by norm_num : (0 : ℚ) < 1000000)]
    ring
  rw [ccorRest, hdiv]
  show CFloat.round (.val (|q - _ / 1000000| * 1000000000)) = _
  rw [hscale, CFloat.round, if_neg (not_lt.mpr (by positivity))]
  rfl

theorem trunc_intCast (n : ℤ) : CFloat.trunc n = n := by
  rcases lt_or_ge n 0 with h | h
  · rw [CFloat.trunc_of_neg (Int.cast_lt_zero.mpr h), ← Int.cast_neg, Int.floor_intCast, neg_neg]
  · rw [CFloat.trunc_of_nonneg (Int.cast_nonneg h), Int.floor_intCast]

/-- What cannot be converted to parts per million leaves a rest that cannot be converted. -/
theorem unfit_ccorRest {x : CFloat} (h : ¬ CcorPrintable x) :
    Unfit (ccorRest (fun _ ↦ -1) x) := by
  cases x with
  | nan => exact fun q hq ↦ by cases hq
  | inf s => cases s <;> exact fun q hq ↦ by cases hq
  | val q =>
    have hfits : ¬ FitsInt (q * 1000000) := fun hfits ↦ h ⟨q, rfl, hfits⟩
    have hppm : (intOf (fun _ ↦ -1) (.val (q * 1000000))).toInt = -1 := by
      rw [intOf, toInt_val_of_not_fitsInt hfits]
      rfl
    rintro r hr
    rw [ccorRest_val, hppm, CFloat.val.injEq] at hr
    have hbig := le_abs_of_not_fitsInt hfits
    have habs := abs_sub_abs_le_abs_sub (q * 1000000) (-1)
    rw [abs_neg, abs_one] at habs
    have hfloor := Int.lt_floor_add_one (|q * 1000000 - ((-1 : ℤ) : ℚ)| * 1000 + 1 / 2)
    push_cast at hfloor hr
    refine not_fitsInt_of_le (le_trans ?_ (le_abs_self r))
    rw [← hr]
    linarith

theorem ccorRest_nonneg {u : Undef} {x : CFloat} (h : CcorPrintable x) :
    0 ≤ (intOf u (ccorRest u x)).toInt := by
  obtain ⟨q, rfl, hppm⟩ := h
  have hlt := Nat.lt_floor_add_one |q * 1000000|
  have hppm : (intOf u (.val (q * 1000000))).toInt = CFloat.trunc (q * 1000000) := toInt_val hppm
  rw [ccorRest_val, hppm, CFloat.abs_sub_trunc]
  have hnonneg : 0 ≤ ⌊(|q * 1000000| - ⌊|q * 1000000|⌋₊) * 1000 + 1 / 2⌋ := by
    refine Int.floor_nonneg.mpr ?_
    have := Nat.floor_le (abs_nonneg (q * 1000000))
    linarith
  have hsmall : ⌊(|q * 1000000| - ⌊|q * 1000000|⌋₊) * 1000 + 1 / 2⌋ < 2000 := by
    refine Int.floor_lt.mpr ?_
    push_cast
    linarith
  have hfits : FitsInt (⌊(|q * 1000000| - ⌊|q * 1000000|⌋₊) * 1000 + 1 / 2⌋ : ℤ) := by
    rw [FitsInt, trunc_intCast]
    omega
  rw [intOf, toInt_val hfits, trunc_intCast]
  exact hnonneg

theorem readsWhen_ccor (x : CFloat) :
    ReadsWhen (CcorPrintable x) (fun _ ↦ True) fun u ↦ ccorText u x := by
  have htext : ∀ u, ccorText u x = dec (intOf u (x.mul (.val 1000000))).toInt ++ "." ++
      decPad 3 (intOf u (ccorRest u x)).toInt ++ "e-6" := fun _ ↦ rfl
  have hval : ∀ u, 0 ≤ (intOf u (ccorRest u x)).toInt → ∃ v, Val (ccorText u x).toList v := by
    intro u hrest
    have hnum := numTo_parts false (i := (intOf u (x.mul (.val 1000000))).toInt) 3 (by simp) hrest
    rw [if_neg (by decide), String.empty_append] at hnum
    have hexp := ((hnum.snoc (c := 'e') rfl).snoc (c := '-') rfl).snoc (c := '6') rfl
    refine ⟨_, Eq.subst (motive := fun cs ↦ Val cs _) ?_ (hexp.val rfl)⟩
    simp [htext, String.toList_append]
  have hdead : ∀ u, (intOf u (ccorRest u x)).toInt < 0 → Dead (ccorText u x).toList := by
    intro u hrest
    have hparts := dead_parts false (i := (intOf u (x.mul (.val 1000000))).toInt) 3 (Or.inl hrest)
    rw [if_neg (by decide), String.empty_append] at hparts
    rw [htext, String.toList_append]
    exact hparts.append _
  refine ⟨fun h u ↦ ?_, fun u ↦ ?_, fun h ↦ ⟨_, hdead _ (unfit_ccorRest h).intOf⟩⟩
  · obtain ⟨v, hv⟩ := hval u (ccorRest_nonneg h)
    exact ⟨v, trivial, hv⟩
  · rcases lt_or_ge (intOf u (ccorRest u x)).toInt 0 with hneg | hnonneg
    · exact Or.inr (hdead u hneg)
    · exact Or.inl (hval u hnonneg)

/-! ## The phase differences -/

/-- A phase difference is null or a number in two parts. -/
theorem phaseText_cases (u : Undef) (x : CFloat) :
    phaseText u x = "null" ∨ ∃ (negative : Bool) (i f : ℤ),
      phaseText u x = (if negative then "-" else "") ++ dec i ++ "." ++ decPad 3 f := by
  rw [phaseText]
  split
  · exact Or.inl rfl
  · exact Or.inr ⟨_, _, _, rfl⟩

/-- In an array, where a value has been read or may end. -/
inductive AfterValue (fs : List Json.Frame) : Json.State → Prop
  | next (es : List Json) : AfterValue fs (.at .next (.arr es :: fs))
  | frac (text : List Char) (es : List Json) :
    AfterValue fs (.at (.num .frac text) (.arr es :: fs))

theorem AfterValue.step_eq_none {fs : List Json.Frame} {s : Json.State} (h : AfterValue fs s)
    {c : Char} (hc : c = 'n' ∨ c = '-') : Json.step s c = none := by
  rcases h with ⟨es⟩ | ⟨text, es⟩ <;> rcases hc with rfl | rfl <;> rfl

theorem AfterValue.run_digits_eq_none {fs : List Json.Frame} {s : Json.State} (h : AfterValue fs s)
    {ds rest : List Char} (hds : Json.Digits ds) (hne : ds ≠ []) :
    Json.run s (ds ++ '.' :: rest) = none := by
  rcases h with ⟨es⟩ | ⟨text, es⟩
  · obtain ⟨d, ds, rfl⟩ := List.exists_cons_of_ne_nil hne
    have hall : ∀ c ∈ ['0', '1', '2', '3', '4', '5', '6', '7', '8', '9'],
        Json.step (.at .next (.arr es :: fs)) c = none := by
      simp [Json.step, Json.afterValue, Json.isWs]
    rw [List.cons_append, Json.run_cons,
      hall d (Json.mem_of_isDigit (hds d List.mem_cons_self)), Option.bind_none]
  · rw [Json.run_append, Json.run_digits_of_frac hds, Option.bind_some, Json.run_cons]
    rfl

/-- A second phase difference cannot follow the first without a comma. -/
theorem AfterValue.run_phase_eq_none {fs : List Json.Frame} {s : Json.State} (h : AfterValue fs s)
    (u : Undef) (x : CFloat) : Json.run s (phaseText u x).toList = none := by
  rcases phaseText_cases u x with heq | ⟨negative, i, f, heq⟩
  · rw [heq]
    exact (Json.run_cons s 'n' _).trans (by rw [h.step_eq_none (Or.inl rfl), Option.bind_none])
  · have hsign : ∀ cs : List Char, Json.run s ('-' :: cs) = none := by
      intro cs
      rw [Json.run_cons, h.step_eq_none (Or.inr rfl), Option.bind_none]
    rw [heq, toList_parts, String.toList_append]
    cases negative with
    | true => exact hsign _
    | false =>
      have hdec : (dec i).toList =
          if i < 0 then '-' :: Nat.toDigits 10 i.natAbs else Nat.toDigits 10 i.natAbs :=
        Json.toList_toString_int i
      rw [if_neg (by decide), hdec]
      split
      · exact hsign _
      · exact h.run_digits_eq_none (Json.digits_toDigits _) Nat.toDigits_ne_nil

theorem run_phase_of_val {u : Undef} {x : CFloat} (h : ¬ Dead (phaseText u x).toList)
    (es : List Json) (fs : List Json.Frame) :
    ∃ s, Json.run (.at .value (.arr es :: fs)) (phaseText u x).toList = some s ∧
      AfterValue fs s := by
  rcases phaseText_cases u x with heq | ⟨negative, i, f, heq⟩
  · rw [heq]
    exact ⟨_, rfl, .next (es ++ [.null])⟩
  · have hparts : ¬ (f < 0 ∨ negative = true ∧ i < 0) := fun hbad ↦
      h (heq ▸ dead_parts negative 3 hbad)
    obtain ⟨hf, hi⟩ := not_or.mp hparts
    have hnum := numTo_parts negative 3 hi (not_lt.mp hf)
    rw [heq]
    exact ⟨_, hnum.run_eq _, .frac _ es⟩

/-- The list with two phase differences side by side. -/
theorem dead_side_by_side (u : Undef) (x y : CFloat) (rest : List Char) :
    Dead ('[' :: ((phaseText u x).toList ++ ((phaseText u y).toList ++ rest))) := by
  refine ⟨fun fs ↦ ?_, '[', _, rfl, by decide, by decide⟩
  have hopen : Json.step (.at .value fs) '[' = some (.at .first (.arr [] :: fs)) := rfl
  have hhead : ∃ c ds, (phaseText u x).toList = c :: ds ∧ c ≠ ']' ∧ Json.isWs c = false :=
    ((readsWhen_phase x).or_dead u).elim (fun ⟨_, hv⟩ ↦ hv.head) Dead.head
  have hvalue : Json.run (.at .value (.arr [] :: fs))
      ((phaseText u x).toList ++ ((phaseText u y).toList ++ rest)) = none := by
    rw [Json.run_append]
    by_cases hdead : Dead (phaseText u x).toList
    · rw [hdead.run_eq, Option.bind_none]
    · obtain ⟨s, hs, hafter⟩ := run_phase_of_val hdead [] fs
      rw [hs, Option.bind_some, Json.run_append, hafter.run_phase_eq_none, Option.bind_none]
  obtain ⟨c, ds, heq, hc, hws⟩ := hhead
  rw [Json.run_cons, hopen, Option.bind_some]
  rw [heq, List.cons_append, Json.run_cons] at hvalue ⊢
  rw [Json.step_first hc hws]
  exact hvalue

/-- The phase differences have a comma where they need one, and can be printed. -/
structure PdPrintable (pdoa : Option CFloat) (pd : List CFloat) : Prop where
  separate : pdoa = none ∨ pd = []
  printable : ∀ x ∈ pdoa.toList ++ pd, PhasePrintable x

theorem readsWhen_pd (pdoa : Option CFloat) (pd : List CFloat) :
    ReadsWhen (PdPrintable pdoa pd) (fun v ↦ ∃ vs, v = .arr vs ∧
      vs.length = (pdoa.toList ++ pd).length) fun u ↦
        "[" ++ (listText (phaseText u) pdoa.toList ++ listText (phaseText u) pd) ++ "]" := by
  have hempty : ∀ u, listText (phaseText u) [] = "" := fun _ ↦ rfl
  rcases pdoa with _ | x
  · have harray := readsWhen_array pd readsWhen_phase
    simp only [Option.toList_none, hempty, String.empty_append, List.nil_append]
    exact harray.congr ⟨fun h ↦ ⟨Or.inl rfl, h⟩, PdPrintable.printable⟩
  · rcases pd with _ | ⟨y, pd⟩
    · have harray := readsWhen_array [x] readsWhen_phase
      simp only [Option.toList_some, hempty, String.append_empty, List.append_nil]
      exact harray.congr ⟨fun h ↦ ⟨Or.inr rfl, h⟩, PdPrintable.printable⟩
    · have hdead : ∀ u, Dead ("[" ++ (listText (phaseText u) [x] ++
          listText (phaseText u) (y :: pd)) ++ "]").toList := by
        intro u
        have hsplit : ∃ rest, ("[" ++ (listText (phaseText u) [x] ++
            listText (phaseText u) (y :: pd)) ++ "]").toList = '[' :: ((phaseText u x).toList ++
              ((phaseText u y).toList ++ rest)) := by
          rcases pd with _ | ⟨z, pd⟩
          · exact ⟨[']'], by simp [String.toList_append, toList_listText]⟩
          · exact ⟨',' :: ([','].intercalate
              ((z :: pd).map fun x ↦ (phaseText u x).toList) ++ [']']),
              by simp [String.toList_append, toList_listText, List.intercalate_cons_cons]⟩
        obtain ⟨rest, hrest⟩ := hsplit
        rw [hrest]
        exact dead_side_by_side u x y rest
      have hfalse : ¬ PdPrintable (some x) (y :: pd) := by
        intro h
        rcases h.separate with h | h <;> cases h
      exact ⟨fun h ↦ absurd h hfalse, fun u ↦ Or.inr (hdead u), fun _ ↦ ⟨fun _ ↦ 0, hdead _⟩⟩

/-! ## The impulse responses -/

/-- The numbers of an impulse response can be printed. -/
structure CirPrintable (c : CirReport) : Prop where
  fpIdx : FpIdxPrintable c.fpIdx
  rcphase : AnglePrintable c.rcphase
  angle : AnglePrintable c.angle

theorem membersWhen_samples (samples : Option (List ℤ × List ℤ)) :
    MembersWhen True (fun _ ↦ True) fun _ : Undef ↦ samplesText samples := by
  rcases samples with _ | ⟨real, imag⟩
  · exact membersWhen_empty.imp fun _ _ ↦ trivial
  · have hdec := readsWhen_dec (U := Undef) (id : ℤ → ℤ)
    have hreal := membersWhen_list ",\"real\":" "real" real hdec (by decide)
    have himag := membersWhen_list ",\"imag\":" "imag" imag hdec (by decide)
    have htext : samplesText (some (real, imag)) =
        ",\"real\":" ++ "[" ++ listText dec real ++ "]" ++
          (",\"imag\":" ++ "[" ++ listText dec imag ++ "]") := by
      show ",\"real\":" ++ "[" ++ listText dec real ++ ("]" ++ (",\"imag\":" ++ "[")) ++
        listText dec imag ++ "]" = _
      generalize listText dec real = r, listText dec imag = i
      simp only [String.append_assoc]
    rw [htext]
    exact ((hreal.append himag).imp fun _ _ ↦ trivial).congr
      (iff_of_true ⟨fun _ _ ↦ trivial, fun _ _ ↦ trivial⟩ trivial)

theorem readsWhen_cir (c : CirReport) :
    ReadsWhen (CirPrintable c) (fun _ ↦ True) fun u ↦ cirObject u c := by
  have hfpIdx := (readsWhen_fpIdx c.fpIdx).member ",\"fp_idx\":" "fp_idx" (by decide)
  have hrcphase := (readsWhen_angle c.rcphase).member ",\"rcphase\":" "rcphase" (by decide)
  have hangle := (readsWhen_angle c.angle).member ",\"angle\":" "angle" (by decide)
  have hrts := (readsWhen_dec (U := Undef) CirReport.rawTs c).member ",\"rts\":" "rts" (by decide)
  have hobject := (hfpIdx.append (hrcphase.append (hangle.append (hrts.append
    (membersWhen_samples c.samples))))).object "\x7b\"o\":" "o" (by decide) (val_dec c.offset)
  have htext : ∀ u, cirObject u c = "\x7b\"o\":" ++ dec c.offset ++ (",\"fp_idx\":" ++
      fpIdxText u c.fpIdx ++ (",\"rcphase\":" ++ angleText u c.rcphase ++ (",\"angle\":" ++
        angleText u c.angle ++ (",\"rts\":" ++ dec c.rawTs ++ samplesText c.samples)))) ++
          "\x7d" := by
    intro u
    unfold cirObject
    generalize dec c.offset = o, fpIdxText u c.fpIdx = f, angleText u c.rcphase = r,
      angleText u c.angle = a, dec c.rawTs = t, samplesText c.samples = x
    simp only [String.append_assoc]
  refine ReadsWhen.of_eq (.congr (hobject.imp fun _ _ ↦ trivial) ⟨fun h ↦ ?_, fun h ↦ ?_⟩) htext
  · exact ⟨h.1, h.2.1, h.2.2.1⟩
  · exact ⟨h.fpIdx, h.rcphase, h.angle, trivial, trivial⟩

/-! ## The pieces of the line -/

/-- The times of all receivers. -/
theorem membersWhen_ts (ts : List (BitVec 64)) :
    MembersWhen True (fun ms ↦ ∃ vs, ms = [("ts".toList, .arr vs)] ∧ vs.length = ts.length)
      fun _ : Undef ↦ tsText ts := by
  have hdec := readsWhen_dec (U := Undef) fun t : BitVec 64 ↦ (t.toNat : ℤ)
  have hlist := membersWhen_list ",\"ts\":" "ts" ts hdec (by decide)
  exact hlist.congr (iff_of_true (fun _ _ ↦ trivial) trivial)

/-- The strengths and the first path powers, if there are any. -/
theorem membersWhen_rxDiag (rxDiag : Option (List CFloat × List CFloat)) :
    MembersWhen True (fun ms ↦ (rxDiag = none ∧ ms = []) ∨ ∃ rssi fppl vs ws,
      rxDiag = some (rssi, fppl) ∧ ms = [("rssi".toList, .arr vs), ("fppl".toList, .arr ws)] ∧
      vs.length = rssi.length ∧ ws.length = fppl.length) fun u ↦ rxDiagText u rxDiag := by
  rcases rxDiag with _ | ⟨rssi, fppl⟩
  · exact membersWhen_empty.imp fun _ hms ↦ Or.inl ⟨rfl, hms⟩
  · have hrssi := membersWhen_list ",\"rssi\":" "rssi" rssi readsWhen_signal (by decide)
    have hfppl := membersWhen_list ",\"fppl\":" "fppl" fppl readsWhen_signal (by decide)
    have hboth := hrssi.append hfppl
    have htext : ∀ u, rxDiagText u (some (rssi, fppl)) =
        ",\"rssi\":" ++ "[" ++ listText (signalText u) rssi ++ "]" ++
          (",\"fppl\":" ++ "[" ++ listText (signalText u) fppl ++ "]") := by
      intro u
      show ",\"rssi\":" ++ "[" ++ listText (signalText u) rssi ++ ("]" ++ (",\"fppl\":" ++ "[")) ++
        listText (signalText u) fppl ++ "]" = _
      generalize listText (signalText u) rssi = r, listText (signalText u) fppl = f
      simp only [String.append_assoc]
    refine MembersWhen.of_eq (.congr (hboth.imp fun ms hms ↦ ?_)
      (iff_of_true ⟨fun _ _ ↦ trivial, fun _ _ ↦ trivial⟩ trivial)) htext
    obtain ⟨ms₁, ms₂, rfl, ⟨vs, rfl, hvs⟩, ws, rfl, hws⟩ := hms
    exact Or.inr ⟨rssi, fppl, vs, ws, rfl, rfl, hvs, hws⟩

/-- The clock offset ratio, if there is one. -/
theorem membersWhen_ccor (ccor : Option CFloat) :
    MembersWhen (∀ x ∈ ccor, CcorPrintable x) (fun ms ↦ ms = [] ∨ ∃ v, ms = [("ccor".toList, v)])
      fun u ↦ ccorPart u ccor := by
  rcases ccor with _ | x
  · exact (membersWhen_empty.imp fun _ hms ↦ Or.inl hms).congr (by simp)
  · have hmember := (readsWhen_ccor x).member ",\"ccor\":" "ccor" (by decide)
    exact (hmember.imp fun _ ⟨v, heq, _⟩ ↦ Or.inr ⟨v, heq⟩).congr (by simp)

/-- The phase differences. -/
theorem membersWhen_pd (pdoa : Option CFloat) (pd : List CFloat) :
    MembersWhen (PdPrintable pdoa pd) (fun ms ↦ ∃ vs, ms = [("pd".toList, .arr vs)] ∧
      vs.length = (pdoa.toList ++ pd).length) fun u ↦ pdText u pdoa pd := by
  have hmember := (readsWhen_pd pdoa pd).member ",\"pd\":" "pd" (by decide)
  have htext : ∀ u, pdText u pdoa pd = ",\"pd\":" ++ ("[" ++ (listText (phaseText u) pdoa.toList ++
      listText (phaseText u) pd) ++ "]") := by
    intro u
    show ",\"pd\":" ++ "[" ++ listText (phaseText u) pdoa.toList ++ listText (phaseText u) pd ++
      "]" = _
    generalize listText (phaseText u) pdoa.toList = x, listText (phaseText u) pd = y
    simp only [String.append_assoc]
  refine (hmember.imp fun ms hms ↦ ?_).of_eq htext
  obtain ⟨v, rfl, vs, rfl, hlen⟩ := hms
  exact ⟨vs, rfl, hlen⟩

/-- The length and the bytes of the payload. -/
theorem membersWhen_payload (dlen : BitVec 16) (d : List UInt8) :
    MembersWhen True (fun ms ↦ ∃ v w, ms = [("dlen".toList, v), ("d".toList, w)])
      fun _ : Undef ↦ payloadText dlen d := by
  let bytes := String.join (d.map fun c ↦ padZero 2 (hex c.toNat))
  have hplain : Plain bytes.toList := by
    intro c hc
    rw [String.toList_join, List.mem_flatMap] at hc
    obtain ⟨text, htext, hc⟩ := hc
    obtain ⟨b, -, rfl⟩ := List.mem_map.mp htext
    exact plain_padZero 2 (plain_hex _) c hc
  have hdlen := (readsWhen_dec (U := Undef) (fun n : ℕ ↦ (n : ℤ)) dlen.toNat).member
    ",\"dlen\":" "dlen" (by decide)
  have hd := (readsWhen_of_val fun _ : Undef ↦ ⟨_, val_quoted hplain⟩).member ",\"d\":" "d"
    (by decide)
  have hboth := hdlen.append hd
  have htext : payloadText dlen d = ",\"dlen\":" ++ dec dlen.toNat ++
      (",\"d\":" ++ ("\"" ++ bytes ++ "\"")) := by
    show ",\"dlen\":" ++ dec dlen.toNat ++ (",\"d\":" ++ "\"") ++ bytes ++ "\"" = _
    generalize dec dlen.toNat = n, bytes = t
    simp only [String.append_assoc]
  refine MembersWhen.of_eq (.congr (hboth.imp fun ms hms ↦ ?_)
    (iff_of_true ⟨trivial, trivial⟩ trivial)) fun _ ↦ htext
  obtain ⟨ms₁, ms₂, rfl, ⟨v, rfl, -⟩, w, rfl, -⟩ := hms
  exact ⟨v, w, rfl⟩

/-- The impulse responses, if they are printed. -/
theorem membersWhen_cir (cir : Option (List CirReport)) :
    MembersWhen (∀ cirs ∈ cir, ∀ c ∈ cirs, CirPrintable c)
      (fun ms ↦ ms = [] ∨ ∃ v, ms = [("cir".toList, v)]) fun u ↦ cirText u cir := by
  rcases cir with _ | cirs
  · exact (membersWhen_empty.imp fun _ hms ↦ Or.inl hms).congr (by simp)
  · have hlist := membersWhen_list ",\"cir\":" "cir" cirs readsWhen_cir (by decide)
    exact (hlist.imp fun _ ⟨vs, heq, _⟩ ↦ Or.inr ⟨.arr vs, heq⟩).congr (by simp)

/-! ## The line -/

/-- The object has one member of this name, an array with `k` elements. -/
def HasArray (ms : List (List Char × Json)) (name : String) (k : ℕ) : Prop :=
  ∃ vs, ms.filter (fun m ↦ m.1 = name.toList) = [(name.toList, .arr vs)] ∧ vs.length = k

/-- The values of the report can be printed. -/
structure Report.Printable (r : Report) : Prop where
  ccor : ∀ x ∈ r.ccor, CcorPrintable x
  pd : PdPrintable r.pdoa r.pd
  cir : ∀ cirs ∈ r.cir, ∀ c ∈ cirs, CirPrintable c

/-- The line reads as an object with its lists when its values can be printed. -/
theorem readsWhen_report (r : Report) :
    ReadsWhen r.Printable (fun v ↦ ∃ ms, v = .obj ms ∧ HasArray ms "ts" r.ts.length ∧
      (∀ p ∈ r.rxDiag, HasArray ms "rssi" p.1.length ∧ HasArray ms "fppl" p.2.length) ∧
      HasArray ms "pd" (r.pdoa.toList ++ r.pd).length) fun u ↦ reportText u r := by
  have hobject := ((membersWhen_ts r.ts).append ((membersWhen_rxDiag r.rxDiag).append
    ((membersWhen_ccor r.ccor).append ((membersWhen_pd r.pdoa r.pd).append
      ((membersWhen_payload r.dlen r.d).append (membersWhen_cir r.cir)))))).object
        "\x7b\"utime\":" "utime" (by decide) (val_dec r.utime.toNat)
  refine ReadsWhen.of_eq (.congr (hobject.imp fun v hv ↦ ?_) ⟨fun h ↦ ?_, fun h ↦ ?_⟩) fun u ↦
    reportText_eq u r
  · obtain ⟨ms, rfl, ms₁, ms₂, rfl, hts, ms₃, ms₄, rfl, hrx, ms₅, ms₆, rfl, hccor, ms₇, ms₈, rfl,
      hpd, ms₉, ms₁₀, rfl, hpayload, hcir⟩ := hv
    obtain ⟨ts, rfl, hts⟩ := hts
    obtain ⟨pd, rfl, hpd⟩ := hpd
    obtain ⟨v₁, v₂, rfl⟩ := hpayload
    refine ⟨_, rfl, ⟨ts, ?_, hts⟩, fun p hp ↦ ?_, ⟨pd, ?_, hpd⟩⟩
    · rcases hrx with ⟨-, rfl⟩ | ⟨rssi, fppl, vs, ws, -, rfl, -, -⟩ <;>
        rcases hccor with rfl | ⟨c, rfl⟩ <;> rcases hcir with rfl | ⟨c', rfl⟩ <;> rfl
    · rcases hrx with ⟨hnone, -⟩ | ⟨rssi, fppl, vs, ws, hsome, rfl, hvs, hws⟩
      · rw [hnone] at hp
        cases hp
      · obtain rfl : p = (rssi, fppl) := Option.some.inj (hp.symm.trans hsome)
        constructor
        · refine ⟨vs, ?_, hvs⟩
          rcases hccor with rfl | ⟨c, rfl⟩ <;> rcases hcir with rfl | ⟨c', rfl⟩ <;> rfl
        · refine ⟨ws, ?_, hws⟩
          rcases hccor with rfl | ⟨c, rfl⟩ <;> rcases hcir with rfl | ⟨c', rfl⟩ <;> rfl
    · rcases hrx with ⟨-, rfl⟩ | ⟨rssi, fppl, vs, ws, -, rfl, -, -⟩ <;>
        rcases hccor with rfl | ⟨c, rfl⟩ <;> rcases hcir with rfl | ⟨c', rfl⟩ <;> rfl
  · exact ⟨h.2.2.1, h.2.2.2.1, h.2.2.2.2.2⟩
  · exact ⟨trivial, trivial, h.ccor, h.pd, trivial, h.cir⟩

/-- One JSON object, with a time for each of the `n` instances, a strength and a first path power
for each if they are wanted, a phase difference for each pair and one more for a single receiver. -/
def IsReport (n : ℕ) (rxDiag singleReceiverPdoa : Bool) (text : String) : Prop :=
  ∃ ms, Json.parse text = some (.obj ms) ∧ HasArray ms "ts" n ∧
    (rxDiag = true → HasArray ms "rssi" n ∧ HasArray ms "fppl" n) ∧
    HasArray ms "pd" (n - 1 + if singleReceiverPdoa then 1 else 0)

section Message

variable {β : Type*}

/-- What can be printed of a message, of what it holds and the driver makes of it: the phase
difference of a single receiver is the only one, and no number needs a conversion to `int` that C
does not define. -/
structure Printable (b : Build) (dr : Driver) (n : ℕ) (conf : LstnrConfig) (msg : Msg β)
    (s : Scratch) : Prop where
  separate : dr.singleReceiverPdoa = true → n ≤ 1
  pdoa : ∀ c ∈ callsOf b dr n conf msg s, c.fn = .pdoa → PhasePrintable (dr.uwbCalc .pdoa c.diag)
  pd : ∀ j < n - 1, PhasePrintable (.ofBits ((pdArray msg).getD j 0))
  ccor : msg.hdr.carrierIntegrator ≠ 0 → carrierIntegratorBit conf.verbose = true →
    CcorPrintable (dr.calcClockOffsetRatio msg.hdr.carrierIntegrator)
  cir : b.cirEnabled = true → cirBit conf.verbose = true →
    ∀ cir ∈ (readCirs b msg (List.range n) s.tmpCir).1, FpIdxPrintable (dr.cir.fpIdx cir) ∧
      AnglePrintable (dr.cir.rcphase cir) ∧ AnglePrintable (dr.cir.angle cir)

variable {b : Build} {dr : Driver} {n : ℕ} {conf : LstnrConfig} {msg : Msg β} {s : Scratch}

/-- The calls of `uwb_calc_pdoa` give the phase difference of a single receiver. -/
theorem mem_pdoa_iff {x : CFloat} : x ∈ (reportOf b dr n conf msg s).1.pdoa ↔
    ∃ c ∈ callsOf b dr n conf msg s, c.fn = .pdoa ∧ dr.uwbCalc .pdoa c.diag = x := by
  have hmem : (∃ c ∈ callsOf b dr n conf msg s, c.fn = .pdoa ∧ dr.uwbCalc .pdoa c.diag = x) ↔
      x ∈ valuesOf dr .pdoa (callsOf b dr n conf msg s) := by
    simp [valuesOf, and_assoc]
  have hlen := @length_valuesOf_readCalls _ b dr n conf msg s .pdoa
  rw [if_pos rfl, ← callsOf] at hlen
  rw [hmem, pdoa_reportOf]
  cases hpdoa : dr.singleReceiverPdoa with
  | false =>
    rw [hpdoa, if_neg (by decide), List.length_eq_zero_iff] at hlen
    simp [hlen]
  | true =>
    rw [hpdoa, if_pos rfl, List.length_eq_one_iff] at hlen
    obtain ⟨y, hy⟩ := hlen
    simp [hy, eq_comm]

/-- The values of the report are those of the message. -/
theorem printable_reportOf_iff :
    (reportOf b dr n conf msg s).1.Printable ↔ Printable b dr n conf msg s := by
  have hsome := @isSome_pdoa_reportOf _ b dr n conf msg s
  have hlen := @length_pd _ b dr n conf msg s
  have hpd : ∀ x, x ∈ (reportOf b dr n conf msg s).1.pd ↔
      ∃ j < n - 1, .ofBits ((pdArray msg).getD j 0) = x := by
    intro x
    simp [reportOf]
  constructor
  · intro h
    refine ⟨fun hpdoa ↦ ?_, fun c hc hfn ↦ ?_, fun j hj ↦ ?_, fun hne hbit ↦ ?_,
      fun hb hbit c hc ↦ ?_⟩
    · rcases h.pd.separate with hnone | hnil
      · rw [hnone, hpdoa] at hsome
        cases hsome
      · rw [hnil, List.length_nil] at hlen
        omega
    · refine h.pd.printable _ (List.mem_append_left _ (Option.mem_toList.mpr ?_))
      exact mem_pdoa_iff.mpr ⟨c, hc, hfn, rfl⟩
    · exact h.pd.printable _ (List.mem_append_right _ ((hpd _).mpr ⟨j, hj, rfl⟩))
    · exact h.ccor _ (ccor_reportOf.trans (if_pos ⟨hne, hbit⟩))
    · have hcir := h.cir _ (cir_reportOf.trans (if_pos (by rw [hb, hbit]; rfl))) _
        (List.mem_map_of_mem hc)
      exact ⟨hcir.fpIdx, hcir.rcphase, hcir.angle⟩
  · intro h
    refine ⟨fun x hx ↦ ?_, ⟨?_, fun x hx ↦ ?_⟩, fun cirs hcirs c hc ↦ ?_⟩
    · rw [ccor_reportOf] at hx
      split at hx
      · next hboth =>
        cases hx
        exact h.ccor hboth.1 hboth.2
      · cases hx
    · cases hpdoa : dr.singleReceiverPdoa with
      | false => exact Or.inl (Option.isNone_iff_eq_none.mp
        (Option.isSome_eq_false_iff.mp (hsome.trans hpdoa)))
      | true =>
        have hn := h.separate hpdoa
        exact Or.inr (List.length_eq_zero_iff.mp (by omega))
    · rcases List.mem_append.mp hx with hx | hx
      · obtain ⟨c, hc, hfn, rfl⟩ := mem_pdoa_iff.mp (Option.mem_toList.mp hx)
        exact h.pdoa c hc hfn
      · obtain ⟨j, hj, rfl⟩ := (hpd x).mp hx
        exact h.pd j hj
    · rw [cir_reportOf] at hcirs
      split at hcirs
      · next hboth =>
        obtain ⟨hb, hbit⟩ := Bool.and_eq_true_iff.mp hboth
        cases hcirs
        obtain ⟨cir, hcir, rfl⟩ := List.mem_map.mp hc
        obtain ⟨hfp, hrc, han⟩ := h.cir hb hbit cir hcir
        exact ⟨hfp, hrc, han⟩
      · cases hcirs

end Message

/-- A line with two phase differences and no comma. -/
def sideBySide : String :=
  "\x7b\"utime\":0,\"ts\":[0,0],\"pd\":[0.0000.000],\"dlen\":1,\"d\":\"00\"\x7d"

end UwbApps.Listener
