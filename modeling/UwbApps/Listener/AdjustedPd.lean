import UwbApps.Lib.Wrap
import UwbApps.Listener.Scripts

/-!
# The phase difference of two impulse responses

Both scripts calculate a phase difference from a sample of each receiver's impulse response, one
with numpy's `fmod` and one with `%`.  `calcAdjustedPd_eq` and `pdoaAt_eq` cut both at the four
numbers that go into it; with exact arithmetic the rest is `Wrap.wrapTrunc` and `Wrap.wrapFloor`.

Where the first paths of the receivers differ, `calc_adjusted_pd` moves to another sample of the
later response.  `calcAdjustedPd_of_isCir` says which.
-/

set_option autoImplicit false

namespace UwbApps.Listener

open Script (Numpy Result get item len float number index subscript pdoaAt pdoaList calculatePdoa
  angleAt wrap calcAdjustedPd)

/-! ## The numbers that are calculated with -/

theorem subscript_eq_none_iff {α : Type} {xs : List α} {i : ℤ} :
    subscript xs i = none ↔ i < -xs.length ∨ (xs.length : ℤ) ≤ i := by
  rw [subscript]
  split
  · rw [List.getElem?_eq_none_iff]
    omega
  · split
    · rw [List.getElem?_eq_none_iff]
      omega
    · simp only [true_iff]
      omega

/-- The four numbers that a phase difference is calculated from. -/
structure Phases (F : Type) where
  angle0 : F
  rcphase0 : F
  angle1 : F
  rcphase1 : F
deriving DecidableEq

section

variable (np : Numpy)

/-- `(angle0 - rcphase0) - (angle1 - rcphase1)`. -/
def Phases.diff (p : Phases np.F) : np.F :=
  np.sub (np.sub p.angle0 p.rcphase0) (np.sub p.angle1 p.rcphase1)

/-- What `calc_adjusted_pd` returns from the line, or the numbers that it calculates with. -/
def adjustedInputs (d : Json) : Option (Json ⊕ Phases np.F) := do
  let cir0 ← get "cir0" d
  let cir1 ← get "cir1" d
  let fpIdx0 ← get "fp_idx" cir0 >>= float np
  let fpIdx1 ← get "fp_idx" cir1 >>= float np
  if np.lt (np.abs (np.sub fpIdx0 fpIdx1)) np.half then
    (get "pd" d).map .inl
  else
    let accIdx0 ← np.floor (np.add fpIdx0 np.half)
    let accIdx1 ← np.floor (np.add fpIdx1 np.half)
    if np.lt fpIdx0 fpIdx1 then
      let angle1 ← angleAt np (accIdx0 - accIdx1) cir1
      let rcphase1 ← get "rcphase" cir1 >>= float np
      let angle0 ← get "angle" cir0 >>= float np
      let rcphase0 ← get "rcphase" cir0 >>= float np
      some (.inr ⟨angle0, rcphase0, angle1, rcphase1⟩)
    else
      let angle0 ← angleAt np (accIdx1 - accIdx0) cir0
      let rcphase0 ← get "rcphase" cir0 >>= float np
      let angle1 ← get "angle" cir1 >>= float np
      let rcphase1 ← get "rcphase" cir1 >>= float np
      some (.inr ⟨angle0, rcphase0, angle1, rcphase1⟩)

/-- The numbers of the sample `i` in `calculate_pdoa`. -/
def pdoaInputs (d : Json) (i : ℕ) : Option (Phases np.F) := do
  let cir0 ← get "cir0" d
  let cir1 ← get "cir1" d
  let real0 ← get "real" cir0 >>= item i >>= number np
  let imag0 ← get "imag" cir0 >>= item i >>= number np
  let real1 ← get "real" cir1 >>= item i >>= number np
  let imag1 ← get "imag" cir1 >>= item i >>= number np
  let rcphase0 ← get "rcphase" cir0 >>= number np
  let rcphase1 ← get "rcphase" cir1 >>= number np
  some ⟨np.arctan2 imag0 real0, rcphase0, np.arctan2 imag1 real1, rcphase1⟩

/-- `(x + 3*np.pi) % (2*np.pi) - np.pi`. -/
def wrapMod (x : np.F) : np.F :=
  np.sub (np.mod (np.add x (np.mul (np.ofInt 3) np.pi)) (np.mul (np.ofInt 2) np.pi)) np.pi

variable {np}

/-- What `calc_adjusted_pd` makes of its numbers. -/
theorem calcAdjustedPd_eq (d : Json) :
    calcAdjustedPd np d =
      (adjustedInputs np d).map (Sum.elim .json fun p ↦ .num (wrap np (p.diff np))) := by
  have hite (P : Prop) [Decidable P] (x y : Option (Json ⊕ Phases np.F))
      (f : Json ⊕ Phases np.F → Result np) :
      (if P then x else y).map f = if P then x.map f else y.map f := apply_ite _ P x y
  have hbind {α : Type} (x : Option α) (g : α → Option (Json ⊕ Phases np.F))
      (f : Json ⊕ Phases np.F → Result np) :
      (x >>= g).map f = x >>= fun a ↦ (g a).map f := Option.map_bind
  have hmap (x : Option Json) (f : Json ⊕ Phases np.F → Result np) :
      (x.map Sum.inl).map f = x.map fun v ↦ f (.inl v) := Option.map_map ..
  simp only [adjustedInputs, hbind, hite, hmap]
  rfl

theorem calcAdjustedPd_num {d : Json} {p : Phases np.F} (h : adjustedInputs np d = some (.inr p)) :
    calcAdjustedPd np d = some (.num (wrap np (p.diff np))) := by
  rw [calcAdjustedPd_eq, h, Option.map_some, Sum.elim_inr]

/-- What a round of `calculate_pdoa` makes of its own. -/
theorem pdoaAt_eq {d cir0 cir1 : Json} (h0 : get "cir0" d = some cir0)
    (h1 : get "cir1" d = some cir1) (i : ℕ) :
    pdoaAt np cir0 cir1 i = (pdoaInputs np d i).map fun p ↦ wrapMod np (p.diff np) := by
  simp only [pdoaAt, pdoaInputs, h0, h1, Option.bind_eq_bind, Option.bind_some, Option.map_bind,
    Function.comp_def]
  rfl

theorem map_some_of_mapM {α γ : Type} {f : α → Option γ} {xs : List α} {ys : List γ}
    (h : xs.mapM f = some ys) : xs.map f = ys.map some := by
  induction xs generalizing ys with
  | nil =>
    obtain rfl : ys = [] := by simpa using h.symm
    rfl
  | cons x xs ih =>
    simp only [List.mapM_cons, Option.bind_eq_bind, Option.bind_eq_some_iff, Option.pure_def,
      Option.some.injEq] at h
    obtain ⟨y, hy, zs, hzs, rfl⟩ := h
    rw [List.map_cons, List.map_cons, hy, ih hzs]

/-- What is in the list of `calculate_pdoa`. -/
theorem eq_wrapMod_of_pdoaList {d c : Json} {pd : List np.F} (h : pdoaList np d = some (c, pd))
    {i : ℕ} {x : np.F} (hx : pd[i]? = some x) :
    ∃ p, pdoaInputs np d i = some p ∧ x = wrapMod np (p.diff np) := by
  simp only [pdoaList, Option.bind_eq_bind, Option.bind_eq_some_iff, Option.some.injEq,
    Prod.mk.injEq] at h
  obtain ⟨cir0, h0, cir1, h1, n, -, pd', hpd, rfl, rfl⟩ := h
  have hi : i < n := by
    have hlen := congrArg List.length (map_some_of_mapM hpd)
    have := (List.getElem?_eq_some_iff.mp hx).1
    simp only [List.length_map, List.length_range] at hlen
    omega
  have hround := congrArg (·[i]?) (map_some_of_mapM hpd)
  simp only [List.getElem?_map, List.getElem?_range hi, hx, Option.map_some, Option.some.injEq,
    pdoaAt_eq h0 h1, Option.map_eq_some_iff] at hround
  obtain ⟨p, hp, heq⟩ := hround
  exact ⟨p, hp, heq.symm⟩

end

/-! ## In exact arithmetic -/

section

variable (K : Type) [Wrap.ExactNumbers K]

/-- Numbers without rounding: `pi` is any number of an ordered field, such as the reals, or the
rationals taken as multiples of it. -/
abbrev exactNumpy (pi : K) (ofNum : List Char → K) (ofStr : List Char → Option K)
    (arctan2 : K → K → K) : Numpy where
  F := K
  ofInt i := i
  ofNum := ofNum
  ofStr := ofStr
  half := 1 / (1 + 1)
  pi := pi
  add := (· + ·)
  sub := (· - ·)
  mul := (· * ·)
  mod := Wrap.modFloor
  fmod := Wrap.modTrunc
  arctan2 := arctan2
  abs x := |x|
  lt x y := decide (x < y)
  floor x := some ⌊x⌋

end

section

variable {K : Type} [Wrap.ExactNumbers K]
  {pi : K} {ofNum : List Char → K} {ofStr : List Char → Option K} {arctan2 : K → K → K}

/-- Angles of a half turn at most, and reference phases of less than a turn. -/
structure Phases.InRange (pi : K) (p : Phases K) : Prop where
  angle0 : -pi ≤ p.angle0 ∧ p.angle0 ≤ pi
  rcphase0 : 0 ≤ p.rcphase0 ∧ p.rcphase0 < 2 * pi
  angle1 : -pi ≤ p.angle1 ∧ p.angle1 ≤ pi
  rcphase1 : 0 ≤ p.rcphase1 ∧ p.rcphase1 < 2 * pi

theorem wrap_exact (x : K) :
    wrap (exactNumpy K pi ofNum ofStr arctan2) x = Wrap.wrapTrunc pi x := by
  simp only [wrap, Wrap.wrapTrunc, Int.cast_ofNat]

theorem wrapMod_exact (x : K) :
    wrapMod (exactNumpy K pi ofNum ofStr arctan2) x = Wrap.wrapFloor pi x := by
  simp only [wrapMod, Wrap.wrapFloor, Int.cast_ofNat]

/-- Four such numbers make a difference of less than two turns. -/
theorem Phases.InRange.neg_lt {p : Phases K} (h : p.InRange pi) :
    -(4 * pi) < p.angle0 - p.rcphase0 - (p.angle1 - p.rcphase1) := by
  have h0 := h.angle0.1
  have h1 := h.rcphase0.2
  have h2 := h.angle1.2
  have h3 := h.rcphase1.1
  linarith

/-- `calc_adjusted_pd` finds `w` with these four numbers. -/
structure Adjusts (np : Numpy) (p : Phases np.F) (w : np.F) (d : Json) : Prop where
  inputs : adjustedInputs np d = some (.inr p)
  result : calcAdjustedPd np d = some (.num w)

/-- `calculate_pdoa` has `w` in its list, from these four numbers. -/
def Calculates (np : Numpy) (p : Phases np.F) (w : np.F) (d : Json) : Prop :=
  ∃ i c pd, pdoaInputs np d i = some p ∧ pdoaList np d = some (c, pd) ∧ pd[i]? = some w

theorem Adjusts.eq {p : Phases K} {w : K} {d : Json}
    (h : Adjusts (exactNumpy K pi ofNum ofStr arctan2) p w d) :
    w = Wrap.wrapTrunc pi (p.angle0 - p.rcphase0 - (p.angle1 - p.rcphase1)) := by
  obtain rfl : w = _ :=
    Result.num.inj (Option.some.inj (h.result.symm.trans (calcAdjustedPd_num h.inputs)))
  rw [wrap_exact]
  rfl

theorem Calculates.eq {p : Phases K} {w : K} {d : Json}
    (h : Calculates (exactNumpy K pi ofNum ofStr arctan2) p w d) :
    w = Wrap.wrapFloor pi (p.angle0 - p.rcphase0 - (p.angle1 - p.rcphase1)) := by
  obtain ⟨i, c, pd, hp, hpd, hw⟩ := h
  obtain ⟨p', hp', rfl⟩ := eq_wrapMod_of_pdoaList hpd hw
  obtain rfl : p' = p := Option.some.inj (hp'.symm.trans hp)
  rw [wrapMod_exact]
  rfl

/-- **Where the two scripts agree.**  `calculate_pdoa` always finds the phase difference of its four
numbers in `[-pi, pi)`.  `calc_adjusted_pd` finds it exactly where they do not add up to less than
`-3 * pi`, and exactly there both find the same. -/
theorem phaseDifferences_iff (hpi : 0 < pi) {p : Phases K} (hp : p.InRange pi) :
    let np := exactNumpy K pi ofNum ofStr arctan2
    let x := p.angle0 - p.rcphase0 - (p.angle1 - p.rcphase1)
    (∀ w d, Adjusts np p w d → (Wrap.Principal pi x w ↔ -(3 * pi) ≤ x)) ∧
      (∀ w d, Calculates np p w d → Wrap.Principal pi x w) ∧
      ∀ w d w' e, Adjusts np p w d → Calculates np p w' e → (w = w' ↔ -(3 * pi) ≤ x) := by
  intro np x
  have hlow : -(5 * pi) < x := by
    have : -(4 * pi) < x := hp.neg_lt
    linarith
  refine ⟨fun w d hd ↦ ?_, fun w d hd ↦ ?_, fun w d w' e hd he ↦ ?_⟩
  · rw [hd.eq]
    exact Wrap.principal_wrapTrunc_iff hpi hlow
  · rw [hd.eq]
    exact Wrap.principal_wrapFloor hpi x
  · rw [hd.eq, he.eq]
    exact Wrap.wrapTrunc_eq_wrapFloor_iff hpi hlow

end

/-! ## Two lines -/

/-- `arctan2` on the axes, in multiples of π. -/
def axisArctan2 (y x : ℚ) : ℚ :=
  if y = 0 then if x < 0 then 1 else 0 else if y < 0 then -1 / 2 else 1 / 2

/-- Rationals, as multiples of π. -/
abbrev halfTurns : Numpy :=
  exactNumpy ℚ 1 (fun text ↦ (Decimal.read text).getD 0) Decimal.read axisArctan2

/-- An impulse response with its samples on one axis. -/
def cirJson (fpIdx rcphase angle : String) (real imag : List String) : Json :=
  .obj [("o".toList, .num ['0']), ("fp_idx".toList, .num fpIdx.toList),
    ("rcphase".toList, .num rcphase.toList), ("angle".toList, .num angle.toList),
    ("real".toList, .arr (real.map fun x ↦ .num x.toList)),
    ("imag".toList, .arr (imag.map fun x ↦ .num x.toList))]

/-- A first receiver at `-π/2` and `1.9π`, and a second at `π` and `rcphase1`. -/
def quarterLine (rcphase1 : String) : Json :=
  .obj [("cir0".toList, cirJson "0" "1.9" "-0.5" (List.replicate 8 "0") (List.replicate 8 "-1")),
    ("cir1".toList, cirJson "1" rcphase1 "1" (List.replicate 8 "-1") (List.replicate 8 "0"))]

theorem of_getRight (np : Numpy) (d : Json) (p : Phases np.F)
    (h : (adjustedInputs np d).bind Sum.getRight? = some p) :
    adjustedInputs np d = some (.inr p) := by
  obtain ⟨r, hr, hp⟩ := Option.bind_eq_some_iff.mp h
  rw [hr, Sum.getRight?_eq_some_iff.mp hp]

theorem exists_calculates {np : Numpy} {d : Json} {p : Phases np.F} (i : ℕ)
    (hp : pdoaInputs np d i = some p)
    (hlist : ((pdoaList np d).bind fun r ↦ r.2[i]?).isSome = true) : ∃ w, Calculates np p w d := by
  obtain ⟨w, hw⟩ := Option.isSome_iff_exists.mp hlist
  obtain ⟨⟨c, pd⟩, hpd, hw⟩ := Option.bind_eq_some_iff.mp hw
  exact ⟨w, i, c, pd, hp, hpd, hw⟩

/-- `rcphase1` of `π/2`: in this line both find `-0.4π`. -/
theorem phaseDifferences_quarter :
    ∃ w w' : ℚ, Adjusts halfTurns ⟨-1 / 2, 19 / 10, 1, 1 / 2⟩ w (quarterLine "0.5") ∧
      Calculates halfTurns ⟨-1 / 2, 19 / 10, 1, 1 / 2⟩ w' (quarterLine "0.5") ∧
      Wrap.Principal 1 (-1 / 2 - 19 / 10 - (1 - 1 / 2)) w ∧
      Wrap.Principal 1 (-1 / 2 - 19 / 10 - (1 - 1 / 2)) w' ∧ w = w' := by
  have hd := of_getRight halfTurns (quarterLine "0.5") ⟨-1 / 2, 19 / 10, 1, 1 / 2⟩
    (by decide +kernel)
  have hadjusts : Adjusts halfTurns _ _ (quarterLine "0.5") := ⟨hd, calcAdjustedPd_num hd⟩
  obtain ⟨w', hcalculates⟩ := @exists_calculates halfTurns (quarterLine "0.5")
    ⟨-1 / 2, 19 / 10, 1, 1 / 2⟩ 7 (by decide +kernel) (by decide +kernel)
  have hrange : Phases.InRange (1 : ℚ) ⟨-1 / 2, 19 / 10, 1, 1 / 2⟩ := by constructor <;> norm_num
  have hx : -(3 * 1) ≤ (-1 / 2 - 19 / 10 - (1 - 1 / 2) : ℚ) := by norm_num
  obtain ⟨hadjusted, hcalculated, hsame⟩ := phaseDifferences_iff one_pos hrange
  exact ⟨_, w', hadjusts, hcalculates, (hadjusted _ _ hadjusts).mpr hx,
    hcalculated _ _ hcalculates, (hsame _ _ _ _ hadjusts hcalculates).mpr hx⟩

/-- `rcphase1` of zero: the four add up to `-3.4π`, and `calc_adjusted_pd` finds `-1.4π`. -/
theorem phaseDifferences_late :
    ¬ ∀ (d e c : Json) (p : Phases ℚ) (i : ℕ) (w w' : ℚ) (pd : List ℚ), p.InRange 1 →
      adjustedInputs halfTurns d = some (.inr p) → pdoaInputs halfTurns e i = some p →
      calcAdjustedPd halfTurns d = some (.num w) → pdoaList halfTurns e = some (c, pd) →
      pd[i]? = some w' →
      let x := p.angle0 - p.rcphase0 - (p.angle1 - p.rcphase1)
      Wrap.Principal 1 x w ∧ Wrap.Principal 1 x w' ∧ w = w' := by
  intro h
  have hd := of_getRight halfTurns (quarterLine "0") ⟨-1 / 2, 19 / 10, 1, 0⟩ (by decide +kernel)
  obtain ⟨w', i, c, pd, hp, hpd, hw'⟩ := @exists_calculates halfTurns (quarterLine "0")
    ⟨-1 / 2, 19 / 10, 1, 0⟩ 7 (by decide +kernel) (by decide +kernel)
  have hrange : Phases.InRange (1 : ℚ) ⟨-1 / 2, 19 / 10, 1, 0⟩ := by constructor <;> norm_num
  have hw := (h _ _ c _ i _ w' pd hrange hd hp (calcAdjustedPd_num hd) hpd hw').1
  have hshort : Wrap.wrapTrunc (1 : ℚ) (-17 / 5) = -7 / 5 := by
    rw [Wrap.wrapTrunc_of_lt (by norm_num) (by norm_num)]
    norm_num
  have hle := hw.neg_le
  rw [wrap_exact] at hle
  have hx : Phases.diff halfTurns ⟨-1 / 2, 19 / 10, 1, 0⟩ = (-17 / 5 : ℚ) := by
    show (-1 / 2 - 19 / 10 - (1 - 0) : ℚ) = -17 / 5
    norm_num
  rw [hx, hshort] at hle
  norm_num at hle

/-! ## The sample -/

section

variable (np : Numpy)

/-- An impulse response as the scripts read it. -/
structure CirRecord where
  fpIdx : np.F
  rcphase : np.F
  angle : np.F
  real : List np.F
  imag : List np.F

variable {np}

/-- `cir` is a record of `c`, with as many real parts as imaginary ones. -/
structure IsCir (cir : Json) (c : CirRecord np) : Prop where
  fpIdx : (get "fp_idx" cir).bind (float np) = some c.fpIdx
  rcphase : (get "rcphase" cir).bind (float np) = some c.rcphase
  angle : (get "angle" cir).bind (float np) = some c.angle
  real : ∃ vs, get "real" cir = some (.arr vs) ∧ vs.map (float np) = c.real.map some
  imag : ∃ vs, get "imag" cir = some (.arr vs) ∧ vs.map (float np) = c.imag.map some
  length : c.imag.length = c.real.length

/-- The angle of the sample `k`. -/
def CirRecord.sample (c : CirRecord np) (k : ℕ) : Option np.F := do
  let re ← c.real[k]?
  let im ← c.imag[k]?
  some (np.arctan2 im re)

/-- The record whose first path is later: the one a sample is taken from. -/
def laterCir (c0 c1 : CirRecord np) : CirRecord np := if np.lt c0.fpIdx c1.fpIdx then c1 else c0

/-- Eight and the difference of the rounded first-path indices. -/
def samplePosition (c0 c1 : CirRecord np) (accIdx0 accIdx1 : ℤ) : ℤ :=
  8 + if np.lt c0.fpIdx c1.fpIdx then accIdx0 - accIdx1 else accIdx1 - accIdx0

/-- The numbers of the two records, with `angle` for the later one. -/
def phasesAt (c0 c1 : CirRecord np) (angle : np.F) : Phases np.F :=
  if np.lt c0.fpIdx c1.fpIdx then ⟨c0.angle, c0.rcphase, angle, c1.rcphase⟩
  else ⟨angle, c0.rcphase, c1.angle, c1.rcphase⟩

theorem subscript_map {α γ : Type} (f : α → γ) (xs : List α) (i : ℤ) :
    subscript (xs.map f) i = (subscript xs i).map f := by
  simp only [subscript, List.length_map, List.getElem?_map]
  split
  · rfl
  · split <;> rfl

/-- A subscript into a list of numbers. -/
theorem item_float {vs : List Json} {xs : List np.F} (h : vs.map (float np) = xs.map some) (i : ℤ) :
    (item i (.arr vs)).bind (float np) = subscript xs i := by
  have hsub := subscript_map (float np) vs i
  rw [h, subscript_map] at hsub
  calc (item i (.arr vs)).bind (float np)
      = ((subscript vs i).map (float np)).bind id := by rw [item, Option.bind_map, Function.id_comp]
    _ = ((subscript xs i).map some).bind id := by rw [hsub]
    _ = subscript xs i := by rw [Option.bind_map, Function.id_comp, Option.bind_fun_some]

/-- The angle of what a subscript `pos` finds. -/
def CirRecord.angleOf (c : CirRecord np) (pos : ℤ) : Option np.F := do
  let re ← subscript c.real pos
  let im ← subscript c.imag pos
  some (np.arctan2 im re)

theorem angleAt_eq {cir : Json} {c : CirRecord np} (h : IsCir cir c) (i : ℤ) :
    angleAt np i cir = c.angleOf (8 + i) := by
  obtain ⟨vs, hreal, hvs⟩ := h.real
  obtain ⟨ws, himag, hws⟩ := h.imag
  have hre := item_float hvs (8 + i)
  have him := item_float hws (8 + i)
  rw [angleAt, CirRecord.angleOf, hreal, himag]
  simp only [Option.bind_eq_bind, Option.bind_some, hre, him]

/-- A position in the list is one sample. -/
theorem angleOf_natCast (c : CirRecord np) (k : ℕ) : c.angleOf k = c.sample k := by
  simp [CirRecord.angleOf, CirRecord.sample, subscript]

theorem angleOf_eq_none_iff {c : CirRecord np} (h : c.imag.length = c.real.length) {pos : ℤ} :
    c.angleOf pos = none ↔ pos < -c.real.length ∨ (c.real.length : ℤ) ≤ pos := by
  have hreal : subscript c.real pos = none ↔ _ := subscript_eq_none_iff
  rw [← hreal]
  have himag : subscript c.imag pos = none ↔ subscript c.real pos = none := by
    rw [subscript_eq_none_iff, subscript_eq_none_iff, h]
  rcases hre : subscript c.real pos with _ | re
  · simp [CirRecord.angleOf, hre]
  · rcases him : subscript c.imag pos with _ | im
    · rw [himag.mp him] at hre
      cases hre
    · simp [CirRecord.angleOf, hre, him]

section

variable {d cir0 cir1 : Json} {c0 c1 : CirRecord np} {accIdx0 accIdx1 : ℤ}

/-- **What `calc_adjusted_pd` does with two records** whose first paths differ. -/
theorem calcAdjustedPd_of_isCir (h0 : get "cir0" d = some cir0) (h1 : get "cir1" d = some cir1)
    (hc0 : IsCir cir0 c0) (hc1 : IsCir cir1 c1)
    (hfar : np.lt (np.abs (np.sub c0.fpIdx c1.fpIdx)) np.half = false)
    (hacc0 : np.floor (np.add c0.fpIdx np.half) = some accIdx0)
    (hacc1 : np.floor (np.add c1.fpIdx np.half) = some accIdx1) :
    calcAdjustedPd np d =
      ((laterCir c0 c1).angleOf (samplePosition c0 c1 accIdx0 accIdx1)).map fun angle ↦
        .num (wrap np ((phasesAt c0 c1 angle).diff np)) := by
  simp only [calcAdjustedPd, h0, h1, hc0.fpIdx, hc1.fpIdx, hc0.rcphase, hc1.rcphase, hc0.angle,
    hc1.angle, hacc0, hacc1, hfar, angleAt_eq hc0, angleAt_eq hc1, Option.bind_eq_bind,
    Option.bind_some, Bool.false_eq_true, if_false, laterCir, samplePosition, phasesAt]
  split
  · cases c1.angleOf (8 + (accIdx0 - accIdx1)) <;> rfl
  · cases c0.angleOf (8 + (accIdx1 - accIdx0)) <;> rfl

/-- The sample at `pos` is used where the list has one, and elsewhere the result is `None`. -/
def UsesSampleAt (d : Json) (c0 c1 : CirRecord np) (pos : ℤ) : Prop :=
  (∀ (k : ℕ) (angle : np.F), pos = k → (laterCir c0 c1).sample k = some angle →
      calcAdjustedPd np d = some (.num (wrap np ((phasesAt c0 c1 angle).diff np)))) ∧
    (pos < 0 ∨ ((laterCir c0 c1).real.length : ℤ) ≤ pos → calcAdjustedPd np d = none)

/-- **Which sample is used.**  It is the one at the position, and none outside the list, unless the
position is below zero by no more than the length of the list. -/
theorem calcAdjustedPd_position_iff (h0 : get "cir0" d = some cir0)
    (h1 : get "cir1" d = some cir1) (hc0 : IsCir cir0 c0) (hc1 : IsCir cir1 c1)
    (hfar : np.lt (np.abs (np.sub c0.fpIdx c1.fpIdx)) np.half = false)
    (hacc0 : np.floor (np.add c0.fpIdx np.half) = some accIdx0)
    (hacc1 : np.floor (np.add c1.fpIdx np.half) = some accIdx1) :
    UsesSampleAt d c0 c1 (samplePosition c0 c1 accIdx0 accIdx1) ↔
      0 ≤ samplePosition c0 c1 accIdx0 accIdx1 ∨
        samplePosition c0 c1 accIdx0 accIdx1 < -(laterCir c0 c1).real.length := by
  have hlen : (laterCir c0 c1).imag.length = (laterCir c0 c1).real.length := by
    rw [laterCir]
    split
    · exact hc1.length
    · exact hc0.length
  have heq := calcAdjustedPd_of_isCir h0 h1 hc0 hc1 hfar hacc0 hacc1
  generalize samplePosition c0 c1 accIdx0 accIdx1 = pos at heq ⊢
  have hnone : calcAdjustedPd np d = none ↔
      pos < -(laterCir c0 c1).real.length ∨ ((laterCir c0 c1).real.length : ℤ) ≤ pos := by
    rw [heq, Option.map_eq_none_iff, angleOf_eq_none_iff hlen]
  constructor
  · rintro ⟨-, hout⟩
    by_contra hneg
    have hpos : pos < 0 := by omega
    rcases hnone.mp (hout (Or.inl hpos)) with hlow | hhigh
    · omega
    · omega
  · intro hpos
    refine ⟨fun k angle hk hsample ↦ ?_, fun hout ↦ hnone.mpr ?_⟩
    · rw [heq, hk, angleOf_natCast, hsample, Option.map_some]
    · omega

end

theorem isCir_cirJson (np : Numpy) (fpIdx rcphase angle : String) {real imag : List String}
    (h : imag.length = real.length) :
    @IsCir np (cirJson fpIdx rcphase angle real imag)
      ⟨np.ofNum fpIdx.toList, np.ofNum rcphase.toList, np.ofNum angle.toList,
        real.map fun x ↦ np.ofNum x.toList, imag.map fun x ↦ np.ofNum x.toList⟩ := by
  refine ⟨rfl, rfl, rfl, ⟨real.map fun x ↦ .num x.toList, rfl, ?_⟩,
    ⟨imag.map fun x ↦ .num x.toList, rfl, ?_⟩, by simpa using h⟩
  · simp [float, number]
  · simp [float, number]

end

/-- First paths at 0 and at `fpIdx1`, and sixteen samples of each on the positive axis but for the
last but one of the second, which is on the negative. -/
def apartLine (fpIdx1 : String) : Json :=
  .obj [("cir0".toList, cirJson "0" "0" "0" (List.replicate 16 "1") (List.replicate 16 "0")),
    ("cir1".toList, cirJson fpIdx1 "0" "0" (List.replicate 14 "1" ++ ["-1", "1"])
      (List.replicate 16 "0"))]

/-- The records of that line. -/
def apartCir (fpIdx : String) (real : List String) : CirRecord halfTurns :=
  ⟨halfTurns.ofNum fpIdx.toList, halfTurns.ofNum "0".toList, halfTurns.ofNum "0".toList,
    real.map fun x ↦ halfTurns.ofNum x.toList,
    (List.replicate 16 "0").map fun x ↦ halfTurns.ofNum x.toList⟩

theorem isCir_apart (fpIdx : String) (real : List String) (h : real.length = 16) :
    IsCir (cirJson fpIdx "0" "0" real (List.replicate 16 "0")) (apartCir fpIdx real) :=
  isCir_cirJson halfTurns fpIdx "0" "0" (by rw [h, List.length_replicate])

/-- Three apart: the sample at 5. -/
theorem calcAdjustedPd_position_three :
    let c0 := apartCir "0" (List.replicate 16 "1")
    let c1 := apartCir "3" (List.replicate 14 "1" ++ ["-1", "1"])
    samplePosition c0 c1 0 3 = 5 ∧ (UsesSampleAt (apartLine "3") c0 c1 (samplePosition c0 c1 0 3) ↔
      0 ≤ samplePosition c0 c1 0 3 ∨
        samplePosition c0 c1 0 3 < -(laterCir c0 c1).real.length) := by
  intro c0 c1
  refine ⟨by decide +kernel, calcAdjustedPd_position_iff rfl rfl (isCir_apart "0" _ (by decide))
    (isCir_apart "3" _ (by decide)) (by decide +kernel) (by decide +kernel) (by decide +kernel)⟩

/-- Ten apart: the position is -2, and the last sample but one is used. -/
theorem calcAdjustedPd_position_ten :
    ¬ ∀ (d cir0 cir1 : Json) (c0 c1 : CirRecord halfTurns) (accIdx0 accIdx1 : ℤ),
      get "cir0" d = some cir0 → get "cir1" d = some cir1 → IsCir cir0 c0 → IsCir cir1 c1 →
      halfTurns.lt (halfTurns.abs (halfTurns.sub c0.fpIdx c1.fpIdx)) halfTurns.half = false →
      halfTurns.floor (halfTurns.add c0.fpIdx halfTurns.half) = some accIdx0 →
      halfTurns.floor (halfTurns.add c1.fpIdx halfTurns.half) = some accIdx1 →
      UsesSampleAt d c0 c1 (samplePosition c0 c1 accIdx0 accIdx1) := by
  intro h
  have hc0 := isCir_apart "0" (List.replicate 16 "1") (by decide)
  have hc1 := isCir_apart "10" (List.replicate 14 "1" ++ ["-1", "1"]) (by decide)
  have hacc0 : halfTurns.floor (halfTurns.add (halfTurns.ofNum "0".toList) halfTurns.half) =
      some 0 := by decide +kernel
  have hacc1 : halfTurns.floor (halfTurns.add (halfTurns.ofNum "10".toList) halfTurns.half) =
      some 10 := by decide +kernel
  have heq : calcAdjustedPd halfTurns (apartLine "10") = _ :=
    calcAdjustedPd_of_isCir rfl rfl hc0 hc1 (by decide +kernel) hacc0 hacc1
  have hnone := (h (apartLine "10") _ _ _ _ 0 10 rfl rfl hc0 hc1 (by decide +kernel) hacc0
    hacc1).2 (Or.inl (by decide +kernel))
  have hpos : samplePosition (apartCir "0" (List.replicate 16 "1"))
      (apartCir "10" (List.replicate 14 "1" ++ ["-1", "1"])) 0 10 = -2 := by decide +kernel
  have hlen : (laterCir (apartCir "0" (List.replicate 16 "1"))
      (apartCir "10" (List.replicate 14 "1" ++ ["-1", "1"]))).real.length = 16 := by decide +kernel
  rw [heq, Option.map_eq_none_iff, angleOf_eq_none_iff (by decide +kernel), hpos, hlen] at hnone
  omega

end UwbApps.Listener
