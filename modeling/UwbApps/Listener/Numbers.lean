import UwbApps.Lib.Numeral
import UwbApps.Listener.ReportJson

/-!
# The numbers of a report

`process_rx_data_queue` has no `%f` and takes every number apart: into an integer part, which is
cut off towards zero, and a fraction, each printed with a `%d` of its own.  Only the phase
differences get a sign of their own.  The strengths and the angles of an impulse response have the
sign of their integer part, so that there is none between minus one and zero, and so has the clock
offset ratio, whose fraction is rounded besides and may round up to a whole.

`values_readsBack_iff` says for every value that is printed when the text reads back as the value.
-/

set_option autoImplicit false

open Printf Decimal

namespace UwbApps.Listener

open Settings (LstnrConfig)

/-- The numbers of a line that are no integers, `fp_idx` apart. -/
inductive Field
  | rssi
  | fppl
  | ccor
  | pd
  | rcphase
  | angle
deriving DecidableEq

/-- What is printed for a value. -/
def Field.text (undef : Undef) : Field → CFloat → String
  | .rssi | .fppl => signalText undef
  | .ccor => ccorText undef
  | .pd => phaseText undef
  | .rcphase | .angle => angleText undef

/-- A unit of the last digit. -/
def Field.unit : Field → ℚ
  | .rssi | .fppl => 1 / 10
  | .ccor => 1 / 1000000000
  | .pd | .rcphase | .angle => 1 / 1000

/-- The values of a line. -/
def Report.values (r : Report) : List (Field × CFloat) :=
  (r.rxDiag.elim [] fun diag ↦ diag.1.map (Field.rssi, ·) ++ diag.2.map (Field.fppl, ·)) ++
    r.ccor.toList.map (Field.ccor, ·) ++ (r.pdoa.toList ++ r.pd).map (Field.pd, ·) ++
    (r.cir.getD []).flatMap fun c ↦ [(Field.rcphase, c.rcphase), (Field.angle, c.angle)]

/-- The value is not printed as a number, or its text reads as a number with the same sign, unless
it reads as zero, that is less than a unit of the last digit away. -/
def ReadsBack (undef : Undef) (f : Field) (x : CFloat) : Prop :=
  f.text undef x = "null" ∨ ∃ v q, x = .val v ∧
    readScientific (f.text undef x).toList = some q ∧ Close q v f.unit

/-- A number with `k` digits behind the dot whose sign is that of its integer part: there is no
fraction to show, or no sign, or the integer part has it. -/
def SignShown (k : ℕ) (q : ℚ) : Prop := fracOf k q = 0 ∨ 0 ≤ q ∨ 1 ≤ |q|

/-- A ratio in parts per million: the fraction does not round up to a whole, and rounds to zero if
there is a sign that the integer part does not have. -/
def RatioShown (ppm : ℚ) : Prop :=
  roundedFrac 3 ppm < 1000 ∧ (roundedFrac 3 ppm = 0 ∨ 0 ≤ ppm ∨ 1 ≤ |ppm|)

/-- The value can be told from its text. -/
def Field.Legible : Field → CFloat → Prop
  | .rssi, x | .fppl, x => ∀ q, x = .val q → -200 < q → q < 100 → SignShown 1 q
  | .ccor, x => ∃ q, x = .val q ∧ FitsInt (q * 1000000) ∧ RatioShown (q * 1000000)
  | .pd, x => PhasePrintable x
  | .rcphase, x | .angle, x => ∃ q, x = .val q ∧ FitsInt q ∧ SignShown 3 q

/-! ## The texts, as they are read -/

theorem ne_null_of_dot {text : String} (h : '.' ∈ text.toList) : text ≠ "null" := by
  rintro rfl
  revert h
  decide

theorem dot_mem_parts (whole rest : String) : '.' ∈ (whole ++ "." ++ rest).toList := by
  rw [toList_parts]
  exact List.mem_append_right _ List.mem_cons_self

theorem toList_decPad (width n : ℕ) : (decPad width n).toList = pad width (Nat.toDigits 10 n) := by
  rw [decPad, if_neg (by omega), toList_padZero, toList_dec_nat]

theorem e_notMem_digits {cs : List Char} (h : Json.Digits cs) : 'e' ∉ cs :=
  fun hmem ↦ absurd (h _ hmem) (by decide)

theorem e_notMem_dec (i : ℤ) : 'e' ∉ (dec i).toList := by
  have hdigits := e_notMem_digits (Json.digits_toDigits i.natAbs)
  show 'e' ∉ (toString i).toList
  rw [Json.toList_toString_int]
  split
  · simpa using hdigits
  · exact hdigits

theorem e_notMem_whole (i : ℤ) {cs : List Char} (h : Json.Digits cs) :
    'e' ∉ (toString i).toList ++ '.' :: cs := by
  intro hmem
  rcases List.mem_append.mp hmem with hmem | hmem
  · exact e_notMem_dec i hmem
  · exact e_notMem_digits h (List.mem_of_ne_of_mem (by decide) hmem)

theorem e_notMem_decPad (width : ℕ) (i : ℤ) : 'e' ∉ (decPad width i).toList := by
  have hpad : ∀ w n : ℕ, 'e' ∉ (padZero w (dec n)).toList := fun w n ↦
    e_notMem_digits (digits_padZero w n).1
  rw [decPad]
  split
  · rw [String.toList_append]
    simpa using hpad (width - 1) i.natAbs
  · next h =>
    rw [← Int.natAbs_of_nonneg (not_lt.mp h)]
    exact hpad width i.natAbs

theorem e_notMem_parts (negative : Bool) (i f : ℤ) (width : ℕ) :
    'e' ∉ ((if negative then "-" else "") ++ dec i ++ "." ++ decPad width f).toList := by
  have hi := e_notMem_dec i
  have hf := e_notMem_decPad width f
  rw [toList_parts, String.toList_append]
  cases negative <;> simp [hi, hf]

/-- A second sign, in front of the fraction or of the whole, and the text is no number. -/
theorem read_parts_eq_none (negative : Bool) {i f : ℤ} (width : ℕ)
    (h : f < 0 ∨ negative = true ∧ i < 0) :
    read ((if negative then "-" else "") ++ dec i ++ "." ++ decPad width f).toList = none := by
  have hminus : f < 0 → '-' ∈ (decPad width f).toList := by
    intro hf
    rw [decPad, if_pos hf, String.toList_append]
    exact List.mem_cons_self
  have hdec : i < 0 → '-' ∈ (dec i).toList := by
    intro hi
    show '-' ∈ (toString i).toList
    rw [Json.toList_toString_int, if_pos hi]
    exact List.mem_cons_self
  rw [toList_parts, String.toList_append]
  by_cases hi : negative = true ∧ i < 0
  · obtain ⟨rfl, hi⟩ := hi
    exact read_eq_none (List.mem_append_left _ (hdec hi))
  · obtain ⟨c, cs, hcs⟩ := List.exists_cons_of_ne_nil (show (dec i).toList ≠ [] by
      rw [show (dec i).toList = _ from Json.toList_toString_int i]
      split <;> simp [Nat.toDigits_ne_nil])
    have hrest : '-' ∈ '.' :: (decPad width f).toList :=
      List.mem_cons_of_mem _ (hminus (h.resolve_right hi))
    rw [hcs]
    cases negative
    · exact read_eq_none (List.mem_append_right _ hrest)
    · exact read_eq_none (List.mem_append_right _ hrest)

/-- Without an exponent, a number that is close has been read faithfully. -/
theorem scientific_iff_faithful {cs : List Char} {v unit : ℚ} (h : 'e' ∉ cs) :
    (∃ q, readScientific cs = some q ∧ Close q v unit) ↔ Faithful cs v unit := by
  rw [readScientific_of_notMem h]
  exact faithful_iff.symm

section Texts

variable {u : Undef} {q : ℚ}

theorem toList_dec_intOf (h : FitsInt q) :
    (dec (intOf u (.val q)).toInt).toList = (toString (CFloat.trunc q)).toList :=
  toList_dec_toInt h

theorem toList_signalText (hlo : -200 < q) (hhi : q < 100) :
    (signalText u (.val q)).toList = fixed 1 1 q := by
  have hten : ((10 : ℤ) : ℚ) = 10 ^ 1 := by norm_num
  have hfits : FitsInt q := fitsInt_of_abs_lt (abs_lt.mpr ⟨by linarith, by linarith⟩)
  have hrange : (CFloat.lt (.val (-200)) (.val q) && CFloat.lt (.val q) (.val 100)) = true := by
    simp [CFloat.lt, hlo, hhi]
  rw [signalText, if_pos hrange, fracPart_val _ hfits, hten, toList_parts, toList_dec_intOf hfits,
    intOf, absInt_frac (by decide), toList_decPad]
  rfl

theorem toList_angleText (h : FitsInt q) : (angleText u (.val q)).toList = fixed 3 3 q := by
  rw [angleText, toInt_fabs_fracPart h, toList_parts, toList_dec_intOf h, toList_decPad]
  rfl

theorem toList_phaseText (h : |q| < 2147483648) :
    (phaseText u (.val q)).toList = signed 3 q := by
  have hthousand : ((1000 : ℤ) : ℚ) = 10 ^ 3 := by norm_num
  have hwhole : absInt (intOf u (.val q)) = (⌊|q|⌋₊ : ℕ) := absInt_val h
  have hfrac : absInt (intOf u (fracPart u 1000 (.val q))) = (fracOf 3 q : ℕ) := by
    rw [fracPart_val _ (fitsInt_of_abs_lt h), hthousand, intOf, absInt_frac (by decide)]
  have hsign : (if (CFloat.val q).lt (.val 0) = true then "-" else "").toList =
      if q < 0 then ['-'] else [] := by
    simp only [CFloat.lt, decide_eq_true_eq]
    split <;> rfl
  rw [phaseText, if_neg (show ¬ (CFloat.val q).isNan = true from Bool.false_ne_true), hwhole,
    hfrac, toList_parts, String.toList_append, hsign, toList_decPad, toList_dec_nat, signed,
    List.append_assoc]

theorem toList_ccorText (h : FitsInt (q * 1000000)) :
    (ccorText u (.val q)).toList = rounded 3 (q * 1000000) ++ 'e' :: ['-', '6'] := by
  have hppm : (intOf u (.val (q * 1000000))).toInt = CFloat.trunc (q * 1000000) := toInt_val h
  have hnonneg : 0 ≤ (|q * 1000000| - ⌊|q * 1000000|⌋₊) * 1000 + 1 / 2 := by
    have := Nat.floor_le (abs_nonneg (q * 1000000))
    linarith
  have hrest : ccorRest u (.val q) = .val ((roundedFrac 3 (q * 1000000) : ℕ) : ℤ) := by
    rw [ccorRest_val, hppm, CFloat.abs_sub_trunc, ← Int.natCast_floor_eq_floor hnonneg, roundedFrac,
      mul_comm]
    norm_num
  have hfits : FitsInt ((roundedFrac 3 (q * 1000000) : ℕ) : ℤ) := by
    have hle := roundedFrac_le (k := 3) (x := q * 1000000)
    rw [FitsInt, trunc_intCast]
    omega
  have htext : ccorText u (.val q) = dec (intOf u (.val (q * 1000000))).toInt ++ "." ++
      decPad 3 (intOf u (ccorRest u (.val q))).toInt ++ "e-6" := rfl
  have hfrac : (intOf u (ccorRest u (.val q))).toInt = (roundedFrac 3 (q * 1000000) : ℕ) := by
    rw [hrest, intOf, toInt_val hfits, trunc_intCast]
  rw [htext, hfrac, String.toList_append, toList_parts, toList_dec_intOf h, toList_decPad, rounded]
  rfl

end Texts

/-! ## When they read back -/

section ReadsBack

variable {u : Undef} {f : Field} {q : ℚ} {x : CFloat}

/-- A value is read back if its text is no null and reads as the value. -/
theorem readsBack_val_iff (hne : f.text u (.val q) ≠ "null") : ReadsBack u f (.val q) ↔
    ∃ r, readScientific (f.text u (.val q)).toList = some r ∧ Close r q f.unit := by
  constructor
  · rintro (hnull | ⟨v, r, hv, hr, hclose⟩)
    · exact absurd hnull hne
    · cases hv
      exact ⟨r, hr, hclose⟩
  · rintro ⟨r, hr, hclose⟩
    exact Or.inr ⟨q, r, rfl, hr, hclose⟩

theorem not_readsBack (hne : f.text u x ≠ "null")
    (hread : readScientific (f.text u x).toList = none) : ¬ ReadsBack u f x := by
  rintro (hnull | ⟨v, r, -, hr, -⟩)
  · exact hne hnull
  · rw [hread] at hr
    cases hr

theorem legible_iff_signShown {k : ℕ} : Decimal.Legible k k q ↔ SignShown k q := by
  rw [Decimal.Legible, SignShown, and_iff_right (Or.inl rfl)]

/-- What is printed in two parts, with the sign of the integer part. -/
theorem readsBack_fixed_iff {k : ℕ} (hk : 0 < k) (htext : (f.text u (.val q)).toList = fixed k k q)
    (hunit : f.unit = 1 / 10 ^ k) : ReadsBack u f (.val q) ↔ SignShown k q := by
  have hdot : '.' ∈ (f.text u (.val q)).toList := by
    rw [htext, fixed]
    exact List.mem_append_right _ List.mem_cons_self
  have he : 'e' ∉ fixed k k q := e_notMem_whole _ (digits_pad k (fracOf k q))
  rw [readsBack_val_iff (ne_null_of_dot hdot), htext, hunit, scientific_iff_faithful he,
    faithful_fixed_iff hk le_rfl, legible_iff_signShown]

theorem readsBack_signal_iff (htext : ∀ u x, f.text u x = signalText u x)
    (hunit : f.unit = 1 / 10) :
    (∀ u, ReadsBack u f x) ↔ ∀ q, x = .val q → -200 < q → q < 100 → SignShown 1 q := by
  constructor
  · rintro h q rfl hlo hhi
    refine (readsBack_fixed_iff (u := fun _ ↦ 0) one_pos ?_ (by rw [hunit, pow_one])).mp (h _)
    rw [htext]
    exact toList_signalText hlo hhi
  · intro h u
    by_cases hrange : ∃ q, x = .val q ∧ -200 < q ∧ q < 100
    · obtain ⟨q, rfl, hlo, hhi⟩ := hrange
      refine (readsBack_fixed_iff one_pos ?_ (by rw [hunit, pow_one])).mpr (h q rfl hlo hhi)
      rw [htext]
      exact toList_signalText hlo hhi
    · refine Or.inl ?_
      have hnot : ¬ (CFloat.lt (.val (-200)) x && CFloat.lt x (.val 100)) = true := by
        intro hboth
        obtain ⟨hlo, hhi⟩ := Bool.and_eq_true_iff.mp hboth
        cases x with
        | nan => cases hlo
        | inf s => cases s <;> simp [CFloat.lt] at hlo hhi
        | val q => exact hrange ⟨q, rfl, of_decide_eq_true hlo, of_decide_eq_true hhi⟩
      rw [htext, signalText, if_neg hnot]

theorem readsBack_angle_iff (htext : ∀ u x, f.text u x = angleText u x)
    (hunit : f.unit = 1 / 1000) :
    (∀ u, ReadsBack u f x) ↔ ∃ q, x = .val q ∧ FitsInt q ∧ SignShown 3 q := by
  have hunit' : f.unit = 1 / 10 ^ 3 := by rw [hunit]; norm_num
  have hiff : ∀ {u : Undef} {q}, FitsInt q → (ReadsBack u f (.val q) ↔ SignShown 3 q) := fun hfits ↦
    readsBack_fixed_iff (by decide) (by rw [htext]; exact toList_angleText hfits) hunit'
  constructor
  · intro h
    by_cases hfits : AnglePrintable x
    · obtain ⟨q, rfl, hfits⟩ := hfits
      exact ⟨q, rfl, hfits, (hiff hfits).mp (h fun _ ↦ 0)⟩
    · -- the fraction is taken for minus one
      have hneg := (unfit_fracPart (unfit_of_not_anglePrintable hfits)).fabs.intOf
      have hform : ∀ u, f.text u x = (if false then "-" else "") ++ dec (intOf u x).toInt ++ "." ++
          decPad 3 (intOf u (fracPart u 1000 x).fabs).toInt := by
        intro u
        rw [if_neg (by decide), String.empty_append, htext]
        rfl
      refine absurd (h fun _ ↦ -1) (not_readsBack ?_ ?_)
      · rw [hform]
        exact ne_null_of_dot (dot_mem_parts _ _)
      · rw [hform, readScientific_of_notMem (e_notMem_parts _ _ _ _),
          read_parts_eq_none _ _ (Or.inl hneg)]
  · rintro ⟨q, rfl, hfits, hshown⟩ u
    exact (hiff hfits).mpr hshown

theorem readsBack_phase_iff : (∀ u, ReadsBack u .pd x) ↔ PhasePrintable x := by
  constructor
  · intro h
    by_contra hnot
    have hnan : x ≠ .nan := fun heq ↦ hnot (Or.inl heq)
    have hform : ∀ u, Field.pd.text u x = (if x.lt (.val 0) then "-" else "") ++
        dec (absInt (intOf u x)) ++ "." ++ decPad 3 (absInt (intOf u (fracPart u 1000 x))) :=
      fun u ↦ if_neg (by cases x <;> simp_all [CFloat.isNan])
    refine absurd (h fun _ ↦ -2147483648) (not_readsBack ?_ ?_)
    · rw [hform]
      exact ne_null_of_dot (dot_mem_parts _ _)
    · rw [hform, readScientific_of_notMem (e_notMem_parts _ _ _ _),
        read_parts_eq_none _ _ (phase_out_of_range hnan hnot)]
  · rintro (rfl | ⟨q, rfl, hlt⟩) u
    · exact Or.inl rfl
    · have htext : (Field.pd.text u (.val q)).toList = signed 3 q := toList_phaseText hlt
      have hunit : Field.pd.unit = 1 / 10 ^ 3 := by norm_num [Field.unit]
      obtain ⟨r, hr, hclose⟩ := faithful_iff.mp (faithful_signed (k := 3) (by decide) q)
      refine Or.inr ⟨q, r, rfl, ?_, hunit ▸ hclose⟩
      have he : 'e' ∉ signed 3 q := by
        have hi := e_notMem_digits (Json.digits_toDigits ⌊|q|⌋₊)
        have hf := e_notMem_digits (digits_pad 3 (fracOf 3 q))
        rw [signed]
        split <;> simp [hi, hf]
      rw [htext, readScientific_of_notMem he, hr]

theorem readsBack_ccor_iff : (∀ u, ReadsBack u .ccor x) ↔
    ∃ q, x = .val q ∧ FitsInt (q * 1000000) ∧ RatioShown (q * 1000000) := by
  have hmillionth : (0 : ℚ) < 10 ^ (-6 : ℤ) := by positivity
  have hback : ∀ q : ℚ, q * 1000000 * 10 ^ (-6 : ℤ) = q := by
    intro q
    norm_num [mul_assoc]
  have hunit : Field.ccor.unit = 1 / 10 ^ 3 * 10 ^ (-6 : ℤ) := by norm_num [Field.unit]
  have hiff : ∀ {u : Undef} {q}, FitsInt (q * 1000000) →
      (ReadsBack u .ccor (.val q) ↔ RatioShown (q * 1000000)) := by
    intro u q hfits
    have htext : (Field.ccor.text u (.val q)).toList =
        rounded 3 (q * 1000000) ++ 'e' :: ['-', '6'] :=
      toList_ccorText hfits
    have he : 'e' ∉ rounded 3 (q * 1000000) :=
      e_notMem_whole _ (digits_pad 3 (roundedFrac 3 (q * 1000000)))
    have hne : Field.ccor.text u (.val q) ≠ "null" := by
      refine ne_null_of_dot ?_
      rw [htext, rounded]
      simp
    have hexp : readInt ['-', '6'] = some (-6) := rfl
    rw [readsBack_val_iff hne, htext, readScientific_append he hexp, RatioShown,
      ← show (10 : ℕ) ^ 3 = 1000 from rfl, ← faithful_rounded_iff (by decide), hunit]
    constructor
    · rintro ⟨r, hr, hclose⟩
      obtain ⟨r, hread, rfl⟩ := Option.map_eq_some_iff.mp hr
      rw [← hback q, close_mul hmillionth] at hclose
      exact faithful_iff.mpr ⟨r, hread, hclose⟩
    · intro h
      obtain ⟨r, hread, hclose⟩ := faithful_iff.mp h
      refine ⟨_, by rw [hread]; rfl, ?_⟩
      rw [← close_mul hmillionth, hback] at hclose
      exact hclose
  constructor
  · intro h
    by_cases hfits : CcorPrintable x
    · obtain ⟨q, rfl, hfits⟩ := hfits
      exact ⟨q, rfl, hfits, (hiff hfits).mp (h fun _ ↦ 0)⟩
    · have hneg := (unfit_ccorRest hfits).intOf
      have hform : ∀ u, (Field.ccor.text u x).toList = ((if false then "-" else "") ++
          dec (intOf u (x.mul (.val 1000000))).toInt ++ "." ++
            decPad 3 (intOf u (ccorRest u x)).toInt).toList ++ 'e' :: ['-', '6'] := by
        intro u
        rw [if_neg (by decide), String.empty_append]
        exact String.toList_append
      refine absurd (h fun _ ↦ -1) (not_readsBack ?_ ?_)
      · refine ne_null_of_dot ?_
        rw [hform]
        exact List.mem_append_left _ (dot_mem_parts _ _)
      · rw [hform, readScientific_append (e_notMem_parts _ _ _ _) (show _ = some (-6) from rfl),
          read_parts_eq_none _ _ (Or.inl hneg)]
        rfl
  · rintro ⟨q, rfl, hfits, hshown⟩ u
    exact (hiff hfits).mpr hshown

theorem forall_readsBack_iff : (∀ u, ReadsBack u f x) ↔ f.Legible x := by
  cases f with
  | rssi => exact readsBack_signal_iff (fun _ _ ↦ rfl) rfl
  | fppl => exact readsBack_signal_iff (fun _ _ ↦ rfl) rfl
  | ccor => exact readsBack_ccor_iff
  | pd => exact readsBack_phase_iff
  | rcphase => exact readsBack_angle_iff (fun _ _ ↦ rfl) rfl
  | angle => exact readsBack_angle_iff (fun _ _ ↦ rfl) rfl

end ReadsBack

/-! ## Where they stand in the line -/

section Line

variable {u : Undef} {r : Report}

theorem infix_listText {α : Type} {text : α → String} {x : α} {xs : List α} (h : x ∈ xs) :
    (text x).toList <:+: (listText text xs).toList := by
  obtain ⟨j, hj⟩ := List.mem_iff_getElem?.mp h
  have hmem : (x, j) ∈ xs.zipIdx := List.mk_mem_zipIdx_iff_getElem?.mpr hj
  have hcell : ((if j = 0 then "" else ",") ++ text x).toList ∈
      (xs.zipIdx.map fun p ↦ (if p.2 = 0 then "" else ",") ++ text p.1).map String.toList :=
    List.mem_map_of_mem (List.mem_map_of_mem hmem)
  rw [listText, String.toList_join, List.flatMap_def]
  refine List.IsInfix.trans ?_ (List.infix_of_mem_flatten hcell)
  rw [String.toList_append]
  exact (List.suffix_append _ _).isInfix

theorem infix_append_left {as bs cs : List Char} (h : as <:+: bs) : as <:+: bs ++ cs :=
  h.trans (List.prefix_append bs cs).isInfix

theorem infix_append_right {as bs cs : List Char} (h : as <:+: bs) : as <:+: cs ++ bs :=
  h.trans (List.suffix_append cs bs).isInfix

theorem infix_rxDiagText {rssi fppl : List CFloat} {x : CFloat} (h : x ∈ rssi ++ fppl) :
    (signalText u x).toList <:+: (rxDiagText u (some (rssi, fppl))).toList := by
  simp only [rxDiagText, String.toList_append]
  rcases List.mem_append.mp h with h | h
  · exact infix_append_left (infix_append_left (infix_append_left
      (infix_append_right (infix_listText h))))
  · exact infix_append_left (infix_append_right (infix_listText h))

theorem infix_pdText {pdoa : Option CFloat} {pd : List CFloat} {x : CFloat}
    (h : x ∈ pdoa.toList ++ pd) : (phaseText u x).toList <:+: (pdText u pdoa pd).toList := by
  simp only [pdText, String.toList_append]
  rcases List.mem_append.mp h with h | h
  · exact infix_append_left (infix_append_left (infix_append_right (infix_listText h)))
  · exact infix_append_left (infix_append_right (infix_listText h))

theorem infix_cirText {cirs : List CirReport} {c : CirReport} (h : c ∈ cirs) :
    (angleText u c.rcphase).toList <:+: (cirText u (some cirs)).toList ∧
      (angleText u c.angle).toList <:+: (cirText u (some cirs)).toList := by
  have hobject : (cirObject u c).toList <:+: (cirText u (some cirs)).toList := by
    simp only [cirText, String.toList_append]
    exact infix_append_left (infix_append_right (infix_listText h))
  have hparts : (cirObject u c).toList = ("\x7b\"o\":" ++ dec c.offset ++ ",\"fp_idx\":" ++
      fpIdxText u c.fpIdx ++ ",\"rcphase\":").toList ++ (angleText u c.rcphase).toList ++
        (",\"angle\":".toList ++ (angleText u c.angle).toList ++
          (",\"rts\":" ++ dec c.rawTs ++ samplesText c.samples ++ "\x7d").toList) := by
    unfold cirObject
    simp only [String.toList_append, List.append_assoc]
  rw [hparts] at hobject
  exact ⟨(infix_append_left (List.suffix_append _ _).isInfix).trans hobject,
    (infix_append_right (infix_append_left (List.suffix_append _ _).isInfix)).trans hobject⟩

/-- The text of every value stands in the line. -/
theorem text_infix_reportText {f : Field} {x : CFloat} (h : (f, x) ∈ r.values) :
    (f.text u x).toList <:+: (reportText u r).toList := by
  unfold reportText
  simp only [String.toList_append]
  simp only [Report.values, List.mem_append] at h
  rcases h with ((h | h) | h) | h
  · obtain hnone | ⟨⟨rssi, fppl⟩, hdiag⟩ := Option.eq_none_or_eq_some r.rxDiag
    · simp [hnone] at h
    · simp only [hdiag, Option.elim_some, List.mem_append, List.mem_map, Prod.mk.injEq] at h
      rw [hdiag]
      have hdiag' : (f.text u x).toList <:+: (rxDiagText u (some (rssi, fppl))).toList := by
        rcases h with ⟨y, hy, rfl, rfl⟩ | ⟨y, hy, rfl, rfl⟩
        · exact infix_rxDiagText (List.mem_append_left _ hy)
        · exact infix_rxDiagText (List.mem_append_right _ hy)
      exact infix_append_left (infix_append_left (infix_append_left (infix_append_left
        (infix_append_left (infix_append_right hdiag')))))
  · obtain ⟨y, hy, heq⟩ := List.mem_map.mp h
    obtain ⟨rfl, rfl⟩ := Prod.mk.inj heq
    rw [Option.mem_toList.mp hy]
    have hccor : (ccorText u y).toList <:+: (ccorPart u (some y)).toList := by
      rw [ccorPart, String.toList_append]
      exact (List.suffix_append _ _).isInfix
    exact infix_append_left (infix_append_left (infix_append_left (infix_append_left
      (infix_append_right hccor))))
  · obtain ⟨y, hy, heq⟩ := List.mem_map.mp h
    obtain ⟨rfl, rfl⟩ := Prod.mk.inj heq
    exact infix_append_left (infix_append_left (infix_append_left (infix_append_right
      (infix_pdText hy))))
  · obtain hnone | ⟨cirs, hcirs⟩ := Option.eq_none_or_eq_some r.cir
    · simp [hnone] at h
    · rw [hcirs, Option.getD_some] at h
      obtain ⟨c, hc, hpair⟩ := List.mem_flatMap.mp h
      rw [hcirs]
      have hcir : (f.text u x).toList <:+: (cirText u (some cirs)).toList := by
        simp only [List.mem_cons, Prod.mk.injEq, List.not_mem_nil, or_false] at hpair
        rcases hpair with ⟨rfl, rfl⟩ | ⟨rfl, rfl⟩
        · exact (infix_cirText hc).1
        · exact (infix_cirText hc).2
      exact infix_append_left (infix_append_right hcir)

end Line

/-- **When a printed number reads back.**  Every value of a message has its text in the line that is
printed for it, and whatever the undefined conversions give, that text reads as the value exactly
when the value can be told from it. -/
theorem values_readsBack_iff {β : Type*} {b : Build} {dr : Driver} {n : ℕ} {conf : LstnrConfig}
    {msg : Msg β} {s : Scratch} {f : Field} {x : CFloat}
    (h : (f, x) ∈ (reportOf b dr n conf msg s).1.values) :
    (∀ undef, ∃ line, (processMsg undef b dr n conf true msg s).1 = some line ∧
      (f.text undef x).toList <:+: line.toList ∧ ReadsBack undef f x) ↔ f.Legible x := by
  rw [← forall_readsBack_iff]
  constructor
  · intro hall undef
    obtain ⟨-, -, -, hback⟩ := hall undef
    exact hback
  · intro hback undef
    exact ⟨_, congrArg Prod.fst (processMsg_eq undef), text_infix_reportText h, hback undef⟩

/-- A driver that finds `x` for the phase of every impulse response. -/
def phaseDriver (x : ℚ) : Driver :=
  { sampleDriver with cir := { sampleDriver.cir with rcphase := fun _ ↦ .val x } }

/-- The message of one device with an impulse response. -/
def phaseMsg : Msg ℕ := ⟨hdrOf (sampleBuild true) 0 [sampleDev 1 [0, 0]] (sampleDev 1 [0, 0]), none,
  ⟨[0], messageOf (sampleBuild true) 1 [sampleDev 1 [0, 0]] (sampleDev 1 [0, 0])⟩⟩

/-- Three halves are read back. -/
theorem readsBack_three_halves : ∃ line,
    (processMsg (fun _ ↦ 0) (sampleBuild true) (phaseDriver (3 / 2)) 1 ⟨0, 4⟩ true phaseMsg
      Scratch.init).1 = some line ∧
    (Field.rcphase.text (fun _ ↦ 0) (.val (3 / 2))).toList <:+: line.toList ∧
    ReadsBack (fun _ ↦ 0) .rcphase (.val (3 / 2)) := by
  have hlegible : Field.rcphase.Legible (.val (3 / 2)) :=
    ⟨3 / 2, rfl, by decide +kernel, Or.inr (Or.inl (by norm_num))⟩
  have hvalue : (Field.rcphase, CFloat.val (3 / 2)) ∈ (reportOf (sampleBuild true)
      (phaseDriver (3 / 2)) 1 ⟨0, 4⟩ phaseMsg Scratch.init).1.values := by
    decide +kernel
  exact (values_readsBack_iff hvalue).mpr hlegible fun _ ↦ 0

/-- Minus a half loses its sign. -/
theorem not_readsBack_minus_half :
    (Field.rcphase, CFloat.val (-1 / 2)) ∈ (reportOf (sampleBuild true) (phaseDriver (-1 / 2)) 1
      ⟨0, 4⟩ phaseMsg Scratch.init).1.values ∧
    (processMsg (fun _ ↦ 0) (sampleBuild true) (phaseDriver (-1 / 2)) 1 ⟨0, 4⟩ true phaseMsg
      Scratch.init).1 = some ("\x7b\"utime\":0,\"ts\":[0],\"pd\":[0.000],\"dlen\":1," ++
        "\"d\":\"00\",\"cir\":[\x7b\"o\":0,\"fp_idx\":0.000,\"rcphase\":0.500," ++
        "\"angle\":0.000,\"rts\":0\x7d]\x7d") ∧
    ¬ ReadsBack (fun _ ↦ 0) .rcphase (.val (-1 / 2)) := by
  refine ⟨by decide +kernel, by decide +kernel, ?_⟩
  have htext : Field.rcphase.text (fun _ ↦ 0) (.val (-1 / 2)) = "0.500" := by decide +kernel
  rintro (hnull | ⟨v, q, hv, hq, hsign, -⟩)
  · rw [htext] at hnull
    revert hnull
    decide
  · cases hv
    have hread : readScientific "0.500".toList = some (1 / 2) := by decide +kernel
    rw [htext, hread, Option.some.injEq] at hq
    subst hq
    norm_num at hsign

end UwbApps.Listener
