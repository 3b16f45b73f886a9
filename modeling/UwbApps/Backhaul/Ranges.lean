import UwbApps.Backhaul.Send

/-!
# The ranges of a package

The loop of `rtdoa_backhaul_send` is a filter in place: `num_ranges` is where the next entry goes,
a frame without a time difference is passed over, and one with a time difference is written
before its address is looked at.  `Kept` is which frames stay, `rangeOf` what the entry of one is.

`sendRange_cases` is all one iteration can do, the half-written slot included.  From it come the
two results: with no more frames than slots the ranges in use are those of the kept frames, in
order (`rtdoaBackhaulSend_ranges`), and in general the call stays inside the package exactly when
no measured frame follows `N` kept ones (`sendSafe_iff`).
-/

set_option autoImplicit false

open Octets Packed

namespace UwbApps.Backhaul

variable {N : ℕ} {φ : Type*}

/-- The frame has a time difference to the reference. -/
def Measured (D : Driver φ) (reqFrame frame : φ) : Bool :=
  !(D.rtdoaTdoaBetweenFrames reqFrame frame).isNan

/-- The frame gets an entry: it is measured, and its address is not zero. -/
def Kept (D : Driver φ) (reqFrame frame : φ) : Bool :=
  Measured D reqFrame frame && D.srcAddress frame != 0

/-- The entry of a frame. -/
def rangeOf (D : Driver φ) (reqFrame frame : φ) : RtdoabhRangeData where
  anchorAddr := D.srcAddress frame
  diffDistMm := BitVec.ofInt 32 (((D.rtdoaTdoaBetweenFrames reqFrame frame).scale 1000 |>.plus
    (1 / 2)).convert D.undef (-2 ^ 31) (2 ^ 31 - 1))
  rssi := BitVec.ofInt 14 (((D.uwbCalcRssi frame).scale 10).convert D.undef (-2 ^ 13) (2 ^ 13 - 1))
  quality := BitVec.ofInt 2 ((D.uwbEstimateLos (D.uwbCalcRssi frame)
    (D.uwbCalcFppl frame)).convert D.undef (-2 ^ 31) (2 ^ 31 - 1))

/-- The frames that get an entry. -/
def keptFrames (D : Driver φ) (reqFrame : φ) (frames : List φ) : List φ :=
  frames.filter (Kept D reqFrame)

/-- `ranges[0]` to `ranges[num_ranges - 1]`. -/
def usedRanges (p : RtdoabhTagResultsPkg N) : List RtdoabhRangeData :=
  p.ranges.toList.take p.numRanges.toNat

/-! ## One iteration -/

theorem setRange_ranges {p q : RtdoabhTagResultsPkg N} {i : ℕ}
    {f : RtdoabhRangeData → RtdoabhRangeData} (h : setRange p i f = some q) :
    ∃ hi : i < N, q.ranges = p.ranges.set i (f p.ranges[i]) := by
  rw [setRange] at h
  split at h
  · rename_i hi
    cases h
    exact ⟨hi, rfl⟩
  · cases h

theorem isSome_setRange (p : RtdoabhTagResultsPkg N) (i : ℕ)
    (f : RtdoabhRangeData → RtdoabhRangeData) : (setRange p i f).isSome ↔ i < N := by
  rw [setRange]
  split <;> simp [*]

/-- An iteration stays inside the array when there is a free slot or nothing to write. -/
theorem isSome_sendRange_iff (D : Driver φ) (reqFrame frame : φ) (p : RtdoabhTagResultsPkg N) :
    (sendRange D reqFrame p frame).isSome ↔
      (Measured D reqFrame frame → p.numRanges.toNat < N) := by
  constructor
  · intro h hm
    rw [sendRange, if_neg (by simpa [Measured] using hm)] at h
    obtain ⟨p₁, h₁, -⟩ := Option.bind_eq_some_iff.mp (Option.some_get h).symm
    exact (isSome_setRange p _ _).mp (Option.isSome_of_eq_some h₁)
  · intro h
    cases hm : Measured D reqFrame frame with
    | false =>
      rw [sendRange, if_pos (by simpa [Measured] using hm)]
      rfl
    | true =>
      obtain ⟨q, hq⟩ := isSome_sendRange D reqFrame frame (h hm)
      exact Option.isSome_of_eq_some hq

/-- All that one iteration can do to the count and to the ranges in front of it. -/
inductive RangeCase (D : Driver φ) (reqFrame frame : φ) (p q : RtdoabhTagResultsPkg N) : Prop
  | skipped (hkept : Kept D reqFrame frame = false) (hnum : q.numRanges = p.numRanges)
      (hused : usedRanges q = usedRanges p)
  | kept (hkept : Kept D reqFrame frame = true) (hroom : p.numRanges.toNat < N)
      (hnum : q.numRanges = p.numRanges + 1)
      (hranges : q.ranges.toList =
        p.ranges.toList.set p.numRanges.toNat (rangeOf D reqFrame frame))

theorem sendRange_cases {D : Driver φ} {reqFrame frame : φ} {p q : RtdoabhTagResultsPkg N}
    (h : sendRange D reqFrame p frame = some q) : RangeCase D reqFrame frame p q := by
  simp only [sendRange] at h
  split at h
  · rename_i hnan
    cases h
    exact .skipped (by simp [Kept, Measured, hnan]) rfl rfl
  rename_i hnan
  obtain ⟨p₁, h₁, h⟩ := Option.bind_eq_some_iff.mp h
  obtain ⟨hlt, -, hnum₁⟩ := setRange_eq_some h₁
  obtain ⟨_, hranges₁⟩ := setRange_ranges h₁
  split at h
  · -- the slot behind the last one in use is left half-written
    rename_i haddr
    cases h
    refine .skipped (by simp [Kept, haddr]) hnum₁ ?_
    rw [usedRanges, usedRanges, hnum₁, hranges₁, Vector.toList_set, List.take_set_of_le le_rfl]
  · rename_i haddr
    obtain ⟨p₂, h₂, h⟩ := Option.map_eq_some_iff.mp h
    obtain ⟨-, -, hnum₂⟩ := setRange_eq_some h₂
    obtain ⟨_, hranges₂⟩ := setRange_ranges h₂
    cases h
    refine .kept (by simpa [Kept, Measured, hnan] using haddr) hlt (by rw [hnum₂, hnum₁]) ?_
    show p₂.ranges.toList = _
    simp only [hranges₂, hranges₁, hnum₁, Vector.toList_set, List.set_set, Vector.getElem_set_self]
    rfl

/-! ## The loop -/

/-- No measured frame comes after `n` kept ones, with `k` kept before the first. -/
def HasRoom (D : Driver φ) (reqFrame : φ) (n k : ℕ) (frames : List φ) : Prop :=
  ∀ pre frame post, frames = pre ++ frame :: post → Measured D reqFrame frame →
    k + (keptFrames D reqFrame pre).length < n

/-- `num_ranges` never goes down while the loop runs: it does not wrap. -/
def CountGrows (D : Driver φ) (reqFrame : φ) (p : RtdoabhTagResultsPkg N) (frames : List φ) :
    Prop :=
  Run.Each (sendRange D reqFrame)
    (fun q frame ↦ ∀ q', sendRange D reqFrame q frame = some q' → q.numRanges ≤ q'.numRanges)
    p frames

theorem keptFrames_cons (D : Driver φ) (reqFrame frame : φ) (frames : List φ) :
    keptFrames D reqFrame (frame :: frames) =
      if Kept D reqFrame frame then frame :: keptFrames D reqFrame frames
      else keptFrames D reqFrame frames :=
  List.filter_cons

theorem hasRoom_cons (D : Driver φ) (reqFrame frame : φ) (n k : ℕ) (frames : List φ) :
    HasRoom D reqFrame n k (frame :: frames) ↔ (Measured D reqFrame frame → k < n) ∧
      HasRoom D reqFrame n (if Kept D reqFrame frame then k + 1 else k) frames := by
  have hstep : ∀ pre, k + (keptFrames D reqFrame (frame :: pre)).length =
      (if Kept D reqFrame frame then k + 1 else k) + (keptFrames D reqFrame pre).length := by
    intro pre
    rw [keptFrames_cons]
    split
    · rw [List.length_cons]
      omega
    · rfl
  constructor
  · intro h
    refine ⟨fun hm ↦ h [] frame frames rfl hm, fun pre f post hsplit hm ↦ ?_⟩
    rw [← hstep]
    exact h (frame :: pre) f post (by rw [hsplit, List.cons_append]) hm
  · rintro ⟨hhead, htail⟩ pre f post hsplit hm
    cases pre with
    | nil =>
      obtain ⟨rfl, -⟩ := List.cons.inj hsplit
      exact hhead hm
    | cons g pre =>
      obtain ⟨rfl, hrest⟩ := List.cons.inj hsplit
      rw [hstep]
      exact htail pre f post hrest hm

theorem toNat_add_one {n : BitVec 8} (h : n.toNat + 1 < 2 ^ 8) : (n + 1).toNat = n.toNat + 1 := by
  rw [BitVec.toNat_add]
  exact Nat.mod_eq_of_lt h

/-- What the loop has collected, as long as the count does not wrap. -/
theorem sendRanges_spec {D : Driver φ} {reqFrame : φ} {frames : List φ}
    {p q : RtdoabhTagResultsPkg N} (h : sendRanges D reqFrame p frames = some q)
    (hcount : p.numRanges.toNat + (keptFrames D reqFrame frames).length < 2 ^ 8) :
    q.numRanges.toNat = p.numRanges.toNat + (keptFrames D reqFrame frames).length ∧
      usedRanges q = usedRanges p ++ (keptFrames D reqFrame frames).map (rangeOf D reqFrame) := by
  induction frames generalizing p with
  | nil =>
    cases h
    simp [keptFrames]
  | cons frame frames ih =>
    obtain ⟨p₁, h₁, h⟩ := Option.bind_eq_some_iff.mp h
    rw [keptFrames_cons] at hcount ⊢
    rcases sendRange_cases h₁ with ⟨hkept, hnum, hused⟩ | ⟨hkept, hroom, hnum, hranges⟩
    · rw [if_neg (by simp [hkept])] at hcount ⊢
      rw [← hnum] at hcount ⊢
      rw [← hused]
      exact ih h hcount
    · rw [if_pos hkept, List.length_cons] at hcount
      have hnum' : p₁.numRanges.toNat = p.numRanges.toNat + 1 := by
        rw [hnum, toNat_add_one (by omega)]
      have hused : usedRanges p₁ = usedRanges p ++ [rangeOf D reqFrame frame] := by
        rw [usedRanges, usedRanges, hnum', hranges, List.take_add_one,
          List.take_set_of_le le_rfl, List.getElem?_set_self (by simpa using hroom)]
        rfl
      obtain ⟨hq, hq'⟩ := ih h (by omega)
      rw [if_pos hkept, List.length_cons, List.map_cons]
      refine ⟨by omega, ?_⟩
      rw [hq', hused, List.append_assoc, List.singleton_append]

/-- **When the loop is safe**: it stays inside the array and the count does not wrap exactly when
there is a free slot for each measured frame, and fewer kept frames than a byte can count. -/
theorem sendRanges_safe_iff (D : Driver φ) (reqFrame : φ) (frames : List φ)
    (p : RtdoabhTagResultsPkg N) :
    ((sendRanges D reqFrame p frames).isSome ∧ CountGrows D reqFrame p frames) ↔
      HasRoom D reqFrame N p.numRanges.toNat frames ∧
        p.numRanges.toNat + (keptFrames D reqFrame frames).length < 2 ^ 8 := by
  induction frames generalizing p with
  | nil =>
    have hroom : HasRoom D reqFrame N p.numRanges.toNat [] := by
      intro pre frame post hsplit
      simp at hsplit
    have hcount : CountGrows D reqFrame p [] := trivial
    exact iff_of_true ⟨rfl, hcount⟩ ⟨hroom, p.numRanges.isLt⟩
  | cons frame frames ih =>
    rw [hasRoom_cons, keptFrames_cons, ← isSome_sendRange_iff, CountGrows, Run.each_cons_iff,
      sendRanges]
    cases h : sendRange D reqFrame p frame with
    | none => simp
    | some p₁ =>
      have ih := ih p₁
      rw [CountGrows] at ih
      simp only [Option.bind_some, Option.elim_some, Option.isSome_some, true_and,
        Option.some.injEq, forall_eq']
      rcases sendRange_cases h with ⟨hkept, hnum, -⟩ | ⟨hkept, hroom, hnum, -⟩
      · rw [hnum] at ih ⊢
        rw [if_neg (by simp [hkept]), if_neg (by simp [hkept]), ← ih]
        exact and_congr_right fun _ ↦ and_iff_right (BitVec.le_refl _)
      · rw [if_pos hkept, if_pos hkept, List.length_cons]
        have hwrap : p.numRanges ≤ p₁.numRanges ↔ p.numRanges.toNat + 1 < 2 ^ 8 := by
          rw [hnum]
          have hlt := p.numRanges.isLt
          bv_omega
        by_cases hlast : p.numRanges.toNat + 1 < 2 ^ 8
        · have hnum' : p₁.numRanges.toNat = p.numRanges.toNat + 1 := by
            rw [hnum, toNat_add_one hlast]
          rw [hnum'] at ih
          rw [show p.numRanges.toNat + ((keptFrames D reqFrame frames).length + 1) =
            p.numRanges.toNat + 1 + (keptFrames D reqFrame frames).length by omega, ← ih]
          exact and_congr_right fun _ ↦ and_iff_right (hwrap.mpr hlast)
        · refine iff_of_false (fun hl ↦ hlast (hwrap.mp hl.2.1)) fun hr ↦ ?_
          omega

/-! ## The message -/

/-- The bytes in front of the ranges. -/
def encodeFront (p : RtdoabhTagResultsPkg N) : List UInt8 :=
  (headLayout.enc p.head ++ sensorLayout.enc p.sensors) ++
    ((uint 2).enc p.refAnchorAddr ++ (uint 1).enc p.numRanges)

/-- The bytes up to `dlen` are the front and the ranges in use, and nothing else. -/
theorem take_encode (p : RtdoabhTagResultsPkg N) :
    (encode p).take (sendLength p).toNat =
      encodeFront p ++ (usedRanges p).flatMap rangeLayout.enc := by
  have hfront : (encodeFront p).length = 53 := by
    simp only [encodeFront, List.length_append, Packed.length_enc]
    rfl
  have hencode : encode p = encodeFront p ++ p.ranges.toList.flatMap rangeLayout.enc := by
    rw [encode_eq, encodeFront, List.append_assoc, List.append_assoc]
    rfl
  have hlen : (sendLength p).toNat =
      (encodeFront p).length + p.numRanges.toNat * rangeLayout.size := by
    rw [sendLength_eq, hfront, show rangeLayout.size = 8 from rfl]
    omega
  rw [hencode, hlen, List.take_length_add_append, take_flatMap_enc, usedRanges]

/-- The package the loop starts from. -/
def sendStart (D : Driver φ) (p : RtdoabhTagResultsPkg N) (rtdoa : RtdoaInstance φ) :
    RtdoabhTagResultsPkg N :=
  { sendHead p with refAnchorAddr := D.srcAddress rtdoa.reqFrame }

/-- **The ranges of a round.**  With no more frames than slots, the ranges in use after the loop
are the entries of the kept frames, in order; the count is their number, and what is sent is the
front of the package and these entries.  A count is a byte, hence the bound on the slots. -/
theorem rtdoaBackhaulSend_ranges (hN : N < 2 ^ 8) (D : Driver φ) (role : RtdoaBackhaulRole)
    (p : RtdoabhTagResultsPkg N) (rtdoa : RtdoaInstance φ) (hn : rtdoa.frames.length ≤ N)
    (dxTime : BitVec 64) (startTxError : Bool) :
    ∃ r, rtdoaBackhaulSend D role p rtdoa dxTime startTxError = some r ∧
      usedRanges r.pkg =
        (keptFrames D rtdoa.reqFrame rtdoa.frames).map (rangeOf D rtdoa.reqFrame) ∧
      r.pkg.numRanges.toNat = (keptFrames D rtdoa.reqFrame rtdoa.frames).length ∧
      r.dlen = offsetofRanges + r.pkg.numRanges.toNat * sizeofRangeData ∧
      (encode r.pkg).take r.dlen.toNat = encodeFront r.pkg ++
        (keptFrames D rtdoa.reqFrame rtdoa.frames).flatMap fun frame ↦
          rangeLayout.enc (rangeOf D rtdoa.reqFrame frame) := by
  have hzero : (sendStart D p rtdoa).numRanges.toNat = 0 := rfl
  have hkept : (keptFrames D rtdoa.reqFrame rtdoa.frames).length ≤ N :=
    (List.length_filter_le _ _).trans hn
  obtain ⟨q, hq⟩ := isSome_sendRanges D rtdoa.reqFrame rtdoa.frames
    (p := sendStart D p rtdoa) (by omega)
  obtain ⟨hnum, hused⟩ := sendRanges_spec hq (by omega)
  have hempty : usedRanges (sendStart D p rtdoa) = [] := rfl
  rw [hempty, List.nil_append] at hused
  rw [hzero, Nat.zero_add] at hnum
  refine ⟨_, Option.map_eq_some_iff.mpr ⟨q, hq, rfl⟩, hused, hnum, ?_, ?_⟩
  · rw [sendLength_eq, offsetofRanges_eq, sizeofRangeData_eq, Nat.cast_ofNat, Nat.cast_ofNat,
      mul_comm]
  · rw [take_encode, hused, List.flatMap_map]

theorem rtdoaBackhaulSend_ranges_skip :
    ∃ r, rtdoaBackhaulSend addressDriver .bridge (initPkg 16 0x0001) ⟨0x0101, [0x0102, 0, 0x0103]⟩
        0 false = some r ∧
      usedRanges r.pkg = [0x0102, 0x0103].map (rangeOf addressDriver 0x0101) ∧ r.dlen = 69 := by
  obtain ⟨r, hr, hused, hnum, hlen, -⟩ := rtdoaBackhaulSend_ranges (N := 16) (by decide)
    addressDriver .bridge (initPkg 16 0x0001) ⟨0x0101, [0x0102, 0, 0x0103]⟩ (by decide) 0 false
  have hkept : keptFrames addressDriver 0x0101 [0x0102, 0, 0x0103] = [0x0102, 0x0103] := by decide
  rw [hkept] at hused hnum
  refine ⟨r, hr, hused, ?_⟩
  rw [hlen, hnum]
  rfl

/-- The call stays inside the package: every write to `ranges` is inside the array, `num_ranges`
does not wrap, and no more is sent than there is. -/
def SendSafe (D : Driver φ) (role : RtdoaBackhaulRole) (p : RtdoabhTagResultsPkg N)
    (rtdoa : RtdoaInstance φ) (dxTime : BitVec 64) (startTxError : Bool) : Prop :=
  ∃ r, rtdoaBackhaulSend D role p rtdoa dxTime startTxError = some r ∧
    CountGrows D rtdoa.reqFrame (sendStart D p rtdoa) rtdoa.frames ∧ r.dlen ≤ sizeofPkg N

/-- **When a call stays inside the package**: exactly when each measured frame has fewer than `N`
kept frames in front of it, and no more frames are kept than a byte counts. -/
theorem sendSafe_iff (D : Driver φ) (role : RtdoaBackhaulRole) (p : RtdoabhTagResultsPkg N)
    (rtdoa : RtdoaInstance φ) (dxTime : BitVec 64) (startTxError : Bool) :
    SendSafe D role p rtdoa dxTime startTxError ↔
      HasRoom D rtdoa.reqFrame N 0 rtdoa.frames ∧
        (keptFrames D rtdoa.reqFrame rtdoa.frames).length < 2 ^ 8 := by
  have hzero : (sendStart D p rtdoa).numRanges.toNat = 0 := rfl
  have hsafe := sendRanges_safe_iff D rtdoa.reqFrame rtdoa.frames (sendStart D p rtdoa)
  rw [hzero, Nat.zero_add] at hsafe
  rw [← hsafe]
  constructor
  · rintro ⟨r, hr, hgrows, -⟩
    obtain ⟨q, hq, -⟩ := Option.map_eq_some_iff.mp hr
    exact ⟨Option.isSome_of_eq_some hq, hgrows⟩
  · rintro ⟨hsome, hgrows⟩
    obtain ⟨q, hq⟩ := Option.isSome_iff_exists.mp hsome
    obtain ⟨-, hnum⟩ := sendRanges_eq_some hq (Nat.zero_le N)
    have hlen : sendLength q ≤ sizeofPkg N := by
      rw [sendLength_eq, sizeofPkg_eq]
      omega
    exact ⟨_, Option.map_eq_some_iff.mpr ⟨q, hq, rfl⟩, hgrows, hlen⟩

/-- The seventeenth entry of a round is written behind the array. -/
theorem not_sendSafe_seventeen :
    ¬ SendSafe addressDriver .producer (initPkg 16 0x0001) ⟨0x0101, List.replicate 17 0x0102⟩ 0
      false := by
  rintro ⟨r, hr, -⟩
  have hnone : rtdoaBackhaulSend addressDriver .producer (initPkg 16 0x0001)
      ⟨0x0101, List.replicate 17 0x0102⟩ 0 false = none := by
    rfl
  rw [hnone] at hr
  cases hr

end UwbApps.Backhaul
