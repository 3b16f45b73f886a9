import UwbApps.Backhaul.Bridge
import UwbApps.Backhaul.PrintJson
import UwbApps.Lib.Numeral

/-!
# The distances of a line

A distance difference goes from metres to millimetres in `rtdoa_backhaul_send` and back to metres in
`rtdoa_backhaul_print`, once for each build.  The two ways to print it differ in the sign of zero
and in nothing else: `ddist_exact` says that both are exact.

The way there rounds by adding a half and converting, and a conversion rounds towards zero.
`distance_shown_iff` says for which distances that is to the nearest millimetre.
-/

set_option autoImplicit false

open Octets Reads Printf
open Packed hiding dec

namespace UwbApps.Backhaul

open Os
open FixedField (infix_append_left infix_append_right)

/-! ## Printing -/

/-- What a build prints for a distance, in the column `dd` or as `ddist`. -/
def ddistShown (compact : Bool) (diffDistMm : BitVec 32) : String :=
  (if compact then (if 0 < diffDistMm.toInt then "" else "-")
    else if diffDistMm.toInt < 0 then "-" else "") ++ ddistText diffDistMm

/-- The column of distances in a compact line with `n` ranges. -/
def ddistColumn (m : Mem) (n : ℕ) : String :=
  "\"dd\":[" ++ String.ofList ([','].intercalate ((List.range n).map fun i ↦
    (ddistShown true ((readRange i).value m).diffDistMm).toList)) ++ "]"

/-- The address and the distance in the entry of a range. -/
def ddistEntry (r : RtdoabhRangeData) : String :=
  "\x7b\"addr\":\"" ++ hex r.anchorAddr.toNat ++ "\"" ++
    (",\"ddist\":\"" ++ ddistShown false r.diffDistMm ++ "\"")

/-- The part of a line that has the distance of the range `i`. -/
def ddistPart (compact : Bool) (m : Mem) (n i : ℕ) : String :=
  if compact then ddistColumn m n else ddistEntry ((readRange i).value m)

/-- It is the distance in thousandths, with the sign of its own build. -/
theorem toList_ddistShown (compact : Bool) (d : BitVec 32) :
    ∃ negative : Bool, (ddistShown compact d).toList = Decimal.inUnits 3 negative d.toInt.natAbs ∧
      (d.toInt ≠ 0 → (negative = true ↔ d.toInt < 0)) := by
  have htext : (ddistText d).toList = Nat.toDigits 10 (d.toInt.natAbs / 1000) ++
      '.' :: Decimal.pad 3 (Nat.toDigits 10 (d.toInt.natAbs % 1000)) := by
    rw [ddistText_parts, String.toList_append, String.toList_append, toList_padZero,
      toList_dec_nat, toList_dec_nat]
    simp
  cases compact with
  | true =>
    refine ⟨decide (¬ 0 < d.toInt), ?_, fun hne ↦ ?_⟩
    · rw [ddistShown, if_pos rfl, String.toList_append, htext, Decimal.inUnits]
      by_cases hpos : 0 < d.toInt
      · simp [hpos]
      · simp [hpos]
    · simp only [decide_eq_true_eq]
      omega
  | false =>
    refine ⟨decide (d.toInt < 0), ?_, fun hne ↦ ?_⟩
    · rw [ddistShown, if_neg (by decide), String.toList_append, htext, Decimal.inUnits]
      by_cases hneg : d.toInt < 0
      · simp [hneg]
      · simp [hneg]
    · exact decide_eq_true_iff

theorem hasDecimals_ddistShown (compact : Bool) (d : BitVec 32) :
    Decimal.HasDecimals 3 (ddistShown compact d).toList := by
  obtain ⟨negative, htext, -⟩ := toList_ddistShown compact d
  rw [htext]
  exact Decimal.hasDecimals_inUnits (by decide) negative _

/-- Nothing of the distance is lost. -/
theorem read_ddistShown (compact : Bool) (d : BitVec 32) :
    Decimal.read (ddistShown compact d).toList = some (d.toInt / 1000 : ℚ) := by
  obtain ⟨negative, htext, hsign⟩ := toList_ddistShown compact d
  rw [htext, Decimal.read_inUnits (by decide)]
  have habs : ((d.toInt.natAbs : ℕ) : ℚ) = |(d.toInt : ℚ)| := by
    rw [← Int.cast_natCast, Int.natCast_natAbs, Int.cast_abs]
  have hthousand : (10 ^ 3 : ℚ) = 1000 := by norm_num
  rw [habs, hthousand]
  rcases lt_trichotomy d.toInt 0 with hneg | hzero | hpos
  · rw [if_pos ((hsign hneg.ne).mpr hneg), abs_of_neg (Int.cast_lt_zero.mpr hneg), neg_neg]
  · simp [hzero]
  · rw [if_neg fun h ↦ hpos.not_gt ((hsign hpos.ne').mp h), abs_of_pos (Int.cast_pos.mpr hpos)]

section Lines

variable {plat : Platform} {N : ℕ} {m : Mem} {gMsgId : BitVec 32} {tight : Bool}

/-- A compact line has the column. -/
theorem ddistColumn_infix (h : rangeCount N m ≠ 0) : (ddistColumn m (rangeCount N m)).toList <:+:
    ((rtdoaBackhaulPrint plat N true gMsgId tight).value m).toList := by
  have hne : ¬ (member .numRanges (numRangesField N) : Reads PkgField _).value m = 0 := by
    intro hzero
    rw [rangeCount, hzero] at h
    exact h rfl
  have hcells : columnText ddistCell m (rangeCount N m) = String.ofList ([','].intercalate
      ((List.range (rangeCount N m)).map fun i ↦
        (ddistShown true ((readRange i).value m).diffDistMm).toList)) := by
    rw [← String.toList_inj, toList_columnText, String.toList_ofList]
    rfl
  have hcolumn : (ddistColumn m (rangeCount N m)).toList <:+:
      ((printColumn (rangeCount N m) "dd" ddistCell false).value m).toList := by
    rw [value_printColumn, hcells]
    exact infix_append_left _ (List.infix_refl _)
  have hmem : printColumn (rangeCount N m) "dd" ddistCell false ∈
      (columns plat).zipIdx.map fun col ↦
        printColumn (rangeCount N m) col.1.1 col.1.2 (col.2 == 3) :=
    List.mem_map.mpr ⟨(("dd", ddistCell), 1), List.mem_cons_of_mem _ List.mem_cons_self, rfl⟩
  have hmeas : (ddistColumn m (rangeCount N m)).toList <:+:
      ((printCompact plat N).value m).toList := by
    rw [printCompact, value_bind, if_neg hne]
    exact infix_append_left _ ((hcolumn.trans (infix_value_concat hmem m)).trans
      (infix_append_right _ _))
  exact hmeas.trans (infix_value_concat (by simp) m)

theorem entryObject_eq (r : RtdoabhRangeData) : entryObject plat r = ddistEntry r ++
    (",\"tqf\":" ++ dec r.quality.toInt ++ (",\"rssi\":\"" ++ rssiText plat r.rssi ++ "\"") ++
      "\x7d") := by
  have hshown : (if r.diffDistMm.toInt < 0 then "-" else "") ++ ddistText r.diffDistMm =
      ddistShown false r.diffDistMm := rfl
  unfold entryObject ddistEntry
  rw [hshown]
  generalize ddistShown false r.diffDistMm = ddist, rssiText plat r.rssi = rssi,
    dec r.quality.toInt = tqf, hex r.anchorAddr.toNat = addr
  simp only [String.append_assoc]

/-- A long line has the address and the distance of each range. -/
theorem ddistEntry_infix {i : ℕ} (h : i < rangeCount N m) :
    (ddistEntry ((readRange i).value m)).toList <:+:
      ((rtdoaBackhaulPrint plat N false gMsgId tight).value m).toList := by
  have hentry : (ddistEntry ((readRange i).value m)).toList <:+:
      ((printEntry plat (rangeCount N m) tight i).value m).toList := by
    rw [value_printEntry, entryObject_eq]
    exact infix_append_left _ (infix_append_left _ (List.infix_refl _))
  have hentries := infix_value_concat (List.mem_map_of_mem
    (f := printEntry plat (rangeCount N m) tight) (List.mem_range.mpr h)) m
  have hmeas : (ddistEntry ((readRange i).value m)).toList <:+:
      ((printLong plat N tight).value m).toList :=
    infix_append_left _ ((hentry.trans hentries).trans (infix_append_right _ _))
  exact hmeas.trans (infix_value_concat (by simp) m)

/-- Either line has its part for each range. -/
theorem ddistPart_infix (compact : Bool) {i : ℕ} (h : i < rangeCount N m) :
    (ddistPart compact m (rangeCount N m) i).toList <:+:
      ((rtdoaBackhaulPrint plat N compact gMsgId tight).value m).toList := by
  cases compact with
  | true => exact ddistColumn_infix (Nat.ne_zero_of_lt h)
  | false => exact ddistEntry_infix h

end Lines

/-- **The two builds show the same distances.**  Whatever the package, both print each of its
distances with three digits behind the dot, and both texts are the distance. -/
theorem ddist_exact :
    (∀ (compact : Bool) (diffDistMm : BitVec 32),
      Decimal.HasDecimals 3 (ddistShown compact diffDistMm).toList ∧
        Decimal.read (ddistShown compact diffDistMm).toList =
          some (diffDistMm.toInt / 1000 : ℚ)) ∧
    ∀ (plat : Platform) (N : ℕ) (m : Mem) (compact : Bool) (gMsgId : BitVec 32) (tight : Bool)
      (i : ℕ), i < rangeCount N m → (ddistPart compact m (rangeCount N m) i).toList <:+:
        ((rtdoaBackhaulPrint plat N compact gMsgId tight).value m).toList :=
  ⟨fun compact d ↦ ⟨hasDecimals_ddistShown compact d, read_ddistShown compact d⟩,
    fun _ _ _ compact _ _ _ h ↦ ddistPart_infix compact h⟩

theorem ddist_exact_one :
    0 < rangeCount 16 (oneRangeMem 0 0) ∧
      (ddistPart true (oneRangeMem 0 0) (rangeCount 16 (oneRangeMem 0 0)) 0).toList <:+:
        ((rtdoaBackhaulPrint (exactPlatform (fun _ ↦ 0) fun _ ↦ .val 0) 16 true 0 true).value
          (oneRangeMem 0 0)).toList :=
  ⟨by decide, ddist_exact.2 _ 16 _ true 0 true 0 (by decide)⟩

/-! ## Storing -/

section Stored

variable {N : ℕ} {φ β : Type*}

/-- A range of the line is the one of the package that the memory holds. -/
theorem value_readRange {i : ℕ} (hi : i < N) (m : Mem) :
    (readRange i).value m = ((pkgLayout N).dec m).ranges[i] := by
  have hoff : (rangeField N ⟨i, hi⟩).off = 53 + i * 8 := by
    show 11 + (39 + (2 + (1 + (i * 8 + 0)))) = _
    omega
  have hread : (readRange i).value m =
      (rangeField N ⟨i, hi⟩).layout.dec fun k ↦ m ((rangeField N ⟨i, hi⟩).off + k) := by
    rw [hoff]
    rfl
  rw [hread, ← (rangeField N ⟨i, hi⟩).get_dec]
  rfl

theorem rangeCount_eq (m : Mem) : rangeCount N m = ((pkgLayout N).dec m).numRanges.toNat := by
  have hread : (member .numRanges (numRangesField N) : Reads PkgField _).value m =
      (numRangesField N).get ((pkgLayout N).dec m) := ((numRangesField N).get_dec m).symm
  rw [rangeCount, hread]
  rfl

theorem idText_eq (m : Mem) :
    idText N m = "0x" ++ padZero 4 (hex ((pkgLayout N).dec m).head.srcAddress.toNat) := by
  have hread : (member .srcAddress (srcAddressField N) : Reads PkgField _).value m =
      (srcAddressField N).get ((pkgLayout N).dec m) := ((srcAddressField N).get_dec m).symm
  rw [idText, hread]
  rfl

theorem refAnchor_eq (m : Mem) :
    refAnchor N m = ((pkgLayout N).dec m).refAnchorAddr.toNat := by
  have hread : (member .refAnchorAddr (refAnchorAddrField N) : Reads PkgField _).value m =
      (refAnchorAddrField N).get ((pkgLayout N).dec m) := ((refAnchorAddrField N).get_dec m).symm
  rw [refAnchor, hread]
  rfl

/-- The ranges the line shows are those in use. -/
theorem map_readRange {m : Mem} (hslots : rangeCount N m ≤ N) :
    (List.range (rangeCount N m)).map (fun i ↦ (readRange i).value m) =
      usedRanges ((pkgLayout N).dec m) := by
  rw [rangeCount_eq] at hslots ⊢
  refine List.ext_getElem (by simpa [usedRanges] using hslots) fun i hi _ ↦ ?_
  rw [List.length_map, List.length_range] at hi
  simp only [List.getElem_map, List.getElem_range, usedRanges, List.getElem_take,
    Vector.getElem_toList]
  exact value_readRange (lt_of_lt_of_le hi hslots) m

/-- A round that stays inside the array keeps no more frames than it has slots. -/
theorem length_keptFrames_le (hN : N < 2 ^ 8) {D : Driver φ} {reqFrame : φ} {frames : List φ}
    {p q : RtdoabhTagResultsPkg N} (h : sendRanges D reqFrame p frames = some q)
    (hp : p.numRanges.toNat ≤ N) :
    p.numRanges.toNat + (keptFrames D reqFrame frames).length ≤ N := by
  induction frames generalizing p with
  | nil => simpa [keptFrames] using hp
  | cons frame frames ih =>
    obtain ⟨p₁, h₁, h⟩ := Option.bind_eq_some_iff.mp h
    rw [keptFrames_cons]
    rcases sendRange_cases h₁ with ⟨hkept, hnum, -⟩ | ⟨hkept, hroom, hnum, -⟩
    · rw [if_neg (by simp [hkept]), ← hnum]
      exact ih h (by rwa [hnum])
    · have hnum' : p₁.numRanges.toNat = p.numRanges.toNat + 1 := by
        rw [hnum, toNat_add_one (by omega)]
      have := ih h (by omega)
      rw [if_pos hkept, List.length_cons]
      omega

/-- What a message has of a kept frame: the entry it got. -/
theorem value_readRange_message (hN : N < 2 ^ 8) {D : Driver φ} {role : RtdoaBackhaulRole}
    {p : RtdoabhTagResultsPkg N} {rtdoa : RtdoaInstance φ} {dxTime : BitVec 64}
    {startTxError : Bool} {r : SendRun N}
    (hr : rtdoaBackhaulSend D role p rtdoa dxTime startTxError = some r) {om : Mbuf β}
    (hom : om.data = (encode r.pkg).take r.dlen.toNat) (stack : Mem) {i : ℕ} {frame : φ}
    (hframe : (keptFrames D rtdoa.reqFrame rtdoa.frames)[i]? = some frame) :
    i < rangeCount N (pkgMem N stack om) ∧
      (readRange i).value (pkgMem N stack om) = rangeOf D rtdoa.reqFrame frame := by
  obtain ⟨q, hq, rfl⟩ := Option.map_eq_some_iff.mp hr
  have hzero : (sendStart D p rtdoa).numRanges.toNat = 0 := rfl
  have hkept := length_keptFrames_le hN hq (Nat.zero_le N)
  obtain ⟨hnum, hused⟩ := sendRanges_spec hq (lt_of_le_of_lt hkept hN)
  have hnum : q.numRanges.toNat = (keptFrames D rtdoa.reqFrame rtdoa.frames).length := by
    rw [hnum]
    exact Nat.zero_add _
  have hi := (List.getElem?_eq_some_iff.mp hframe).1
  have hkept : (keptFrames D rtdoa.reqFrame rtdoa.frames).length ≤ N :=
    (Nat.zero_add _).symm.trans_le hkept
  obtain ⟨-, hcount, hprinted⟩ := printedPkg_ranges stack hom (by omega)
  have hget : (usedRanges (printedPkg N stack om))[i]? =
      some (rangeOf D rtdoa.reqFrame frame) := by
    have hempty : usedRanges (sendStart D p rtdoa) = [] := rfl
    rw [hprinted, hused]
    refine (congrArg (fun l ↦ (l ++ _)[i]?) hempty).trans ?_
    rw [List.nil_append, List.getElem?_map, hframe, Option.map_some]
  have hshown : i < rangeCount N (pkgMem N stack om) := by
    have hprinted : (printedPkg N stack om).numRanges.toNat =
        (keptFrames D rtdoa.reqFrame rtdoa.frames).length := by rw [hcount, hnum]
    rw [rangeCount_eq]
    exact hi.trans_eq hprinted.symm
  refine ⟨hshown, ?_⟩
  have hslot : i < N := by omega
  rw [usedRanges, hcount, List.getElem?_take_of_lt (by omega)] at hget
  rw [value_readRange hslot]
  have hat : (printedPkg N stack om).ranges[i] = rangeOf D rtdoa.reqFrame frame := by
    simpa [hslot] using hget
  exact hat

/-- A distance that fits is converted as it is. -/
theorem toInt_diffDistMm {D : Driver φ} {reqFrame frame : φ} {d : ℚ}
    (hd : D.rtdoaTdoaBetweenFrames reqFrame frame = .val d) (h : |1000 * d| < 2 ^ 31 - 1) :
    (rangeOf D reqFrame frame).diffDistMm.toInt = CFloat.trunc (1000 * d + 1 / 2) := by
  have hbound : |1000 * d + 1 / 2| < (2147483648 : ℕ) := by
    have hadd := abs_add_le (1000 * d) (1 / 2)
    rw [abs_of_pos (by norm_num : (0 : ℚ) < 1 / 2)] at hadd
    calc |1000 * d + 1 / 2| ≤ |1000 * d| + 1 / 2 := hadd
      _ < 2 ^ 31 - 1 + 1 / 2 := by linarith
      _ < (2147483648 : ℕ) := by norm_num
  have hnat : (CFloat.trunc (1000 * d + 1 / 2)).natAbs < 2147483648 := by
    rw [CFloat.natAbs_trunc]
    exact (Nat.floor_lt (abs_nonneg _)).mpr hbound
  have hconv : CFloat.convert D.undef (-2 ^ 31) (2 ^ 31 - 1) (.val (1000 * d + 1 / 2)) =
      CFloat.trunc (1000 * d + 1 / 2) := if_pos (by omega)
  rw [rangeOf, hd]
  refine (congrArg (fun n ↦ (BitVec.ofInt 32 n).toInt) hconv).trans ?_
  exact BitVec.toInt_ofInt_eq_self (by decide) (by omega) (by omega)

/-- **How far off a distance is.**  What a round stores for a kept frame, and what either build
shows of it, is within half a millimetre of the distance exactly when that is half a millimetre
below zero at most, or when a half added to its millimetres is an integer. -/
theorem distance_shown_iff (hN : N < 2 ^ 8) (D : Driver φ) (role : RtdoaBackhaulRole)
    (p : RtdoabhTagResultsPkg N) (rtdoa : RtdoaInstance φ) (dxTime : BitVec 64)
    (startTxError : Bool) {r : SendRun N}
    (hr : rtdoaBackhaulSend D role p rtdoa dxTime startTxError = some r) {om : Mbuf β}
    (hom : om.data = (encode r.pkg).take r.dlen.toNat) (stack : Mem) {i : ℕ} {frame : φ}
    (hframe : (keptFrames D rtdoa.reqFrame rtdoa.frames)[i]? = some frame) {d : ℚ}
    (hd : D.rtdoaTdoaBetweenFrames rtdoa.reqFrame frame = .val d)
    (hrange : |1000 * d| < 2 ^ 31 - 1) (compact : Bool) :
    i < rangeCount N (pkgMem N stack om) ∧
      ∃ q : ℚ, Decimal.read (ddistShown compact
          ((readRange i).value (pkgMem N stack om)).diffDistMm).toList = some q ∧
        q = (rangeOf D rtdoa.reqFrame frame).diffDistMm.toInt / 1000 ∧
        (|q - d| ≤ 1 / 2000 ↔ -(1 / 2000) ≤ d ∨ ∃ k : ℤ, 1000 * d + 1 / 2 = k) := by
  obtain ⟨hi, hvalue⟩ := value_readRange_message hN hr hom stack hframe
  refine ⟨hi, _, read_ddistShown compact _, by rw [hvalue], ?_⟩
  rw [hvalue, toInt_diffDistMm hd hrange]
  have hscale : |(CFloat.trunc (1000 * d + 1 / 2) : ℚ) / 1000 - d| ≤ 1 / 2000 ↔
      |(CFloat.trunc (1000 * d + 1 / 2) : ℚ) - 1000 * d| ≤ 1 / 2 := by
    rw [abs_le, abs_le]
    constructor
    · rintro ⟨hlow, hhigh⟩
      constructor <;> linarith
    · rintro ⟨hlow, hhigh⟩
      constructor <;> linarith
  rw [hscale, CFloat.abs_trunc_add_half_sub_le_iff]
  refine or_congr_left ?_
  constructor <;> intro h <;> linarith

end Stored

/-- A driver for which every frame is `d` metres off. -/
def distanceDriver (d : ℚ) : Driver (BitVec 16) :=
  { addressDriver with rtdoaTdoaBetweenFrames := fun _ _ ↦ .val d }

theorem distance_shown_one :
    ∃ (r : SendRun 16) (om : Mbuf ℕ),
      rtdoaBackhaulSend (distanceDriver 1) .bridge (initPkg 16 0x0001) ⟨0x0101, [0x0102]⟩ 0 false =
        some r ∧
      0 < rangeCount 16 (pkgMem 16 (fun _ ↦ 0) om) ∧
      ∃ q : ℚ, Decimal.read (ddistShown false
          ((readRange 0).value (pkgMem 16 (fun _ ↦ 0) om)).diffDistMm).toList = some q ∧
        q = (rangeOf (distanceDriver 1) 0x0101 0x0102).diffDistMm.toInt / 1000 ∧
        (|q - 1| ≤ 1 / 2000 ↔ -(1 / 2000) ≤ (1 : ℚ) ∨ ∃ k : ℤ, (1000 * 1 + 1 / 2 : ℚ) = k) := by
  obtain ⟨r, hr⟩ : ∃ r, rtdoaBackhaulSend (distanceDriver 1) .bridge (initPkg 16 0x0001)
      ⟨0x0101, [0x0102]⟩ 0 false = some r := ⟨_, rfl⟩
  exact ⟨r, ⟨[], (encode r.pkg).take r.dlen.toNat⟩, hr, distance_shown_iff (by decide) _ _ _ _ 0
    false hr rfl (fun _ ↦ 0) rfl rfl (by norm_num) false⟩

/-- At -1.9 mm, -1 mm is stored and shown. -/
theorem not_distance_shown_minus_two :
    ¬ ∀ (d : ℚ) (r : SendRun 16) (om : Mbuf ℕ), |1000 * d| < 2 ^ 31 - 1 →
      rtdoaBackhaulSend (distanceDriver d) .bridge (initPkg 16 0x0001) ⟨0x0101, [0x0102]⟩ 0 false =
        some r →
      om.data = (encode r.pkg).take r.dlen.toNat → ∀ (compact : Bool) (q : ℚ),
        Decimal.read (ddistShown compact
          ((readRange 0).value (pkgMem 16 (fun _ ↦ 0) om)).diffDistMm).toList = some q →
        |q - d| ≤ 1 / 2000 := by
  intro h
  obtain ⟨r, hr⟩ : ∃ r, rtdoaBackhaulSend (distanceDriver (-19 / 10000)) .bridge
      (initPkg 16 0x0001) ⟨0x0101, [0x0102]⟩ 0 false = some r := ⟨_, rfl⟩
  have hrange : |(1000 * (-19 / 10000) : ℚ)| < 2 ^ 31 - 1 := by norm_num
  let om : Mbuf ℕ := ⟨[], (encode r.pkg).take r.dlen.toNat⟩
  have hvalue : (readRange 0).value (pkgMem 16 (fun _ ↦ 0) om) =
      rangeOf (distanceDriver (-19 / 10000)) 0x0101 0x0102 :=
    (value_readRange_message (by decide) hr rfl (fun _ ↦ 0) rfl).2
  have hfar := h _ r om hrange hr rfl false _ (read_ddistShown false _)
  rw [hvalue, toInt_diffDistMm rfl hrange] at hfar
  have htrunc : CFloat.trunc (1000 * (-19 / 10000) + 1 / 2) = -1 := by decide +kernel
  rw [htrunc] at hfar
  norm_num at hfar

end UwbApps.Backhaul
