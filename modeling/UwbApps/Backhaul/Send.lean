import UwbApps.Backhaul.Types
import UwbApps.Lib.CFloat
import UwbApps.Lib.Run

/-!
# Sending a package

`rtdoaBackhaulSend` fills `g_result_pkg` from a finished rtdoa round and puts it on the air.  It
writes the transmit buffer twice: once before the ranges are known, up to and including the first
byte of `num_ranges`, and once when they are, from `num_ranges` on.  In between it changes the
package.

What the function asks of the radio is kept as the list of its calls, in order, and `txBuffer`
says what the transmit buffer holds when `uwb_start_tx` is called.  Stepping outside `ranges` is
undefined in the source; here it gives `none`, and `isSome_sendRanges` shows that it does not
happen as long as there are no more frames than range slots.

The result is `txMatches_iff`: the radio sends what the bridge prints exactly when the reference
anchor is the one of the call before, because `ref_anchor_addr` lies in front of the place where
the second write starts, and is set after the first.
-/

set_option autoImplicit false

open Octets Packed

namespace UwbApps.Backhaul

variable {N : ℕ} {φ : Type*}

/-- What the rtdoa and radio drivers compute about a received frame of type `φ`. -/
structure Driver (φ : Type*) where
  /-- `frame->src_address`. -/
  srcAddress : φ → BitVec 16
  /-- `rtdoa_tdoa_between_frames`. -/
  rtdoaTdoaBetweenFrames : φ → φ → CFloat
  /-- `uwb_calc_rssi` of the frame's diagnostics. -/
  uwbCalcRssi : φ → CFloat
  /-- `uwb_calc_fppl` of the frame's diagnostics. -/
  uwbCalcFppl : φ → CFloat
  /-- `uwb_estimate_los`. -/
  uwbEstimateLos : CFloat → CFloat → CFloat
  /-- What the platform makes of a floating-point value that the target type cannot hold. -/
  undef : CFloat → ℤ

/-- `struct rtdoa_instance`: the request frame and the `nframes` frames that answered it. -/
structure RtdoaInstance (φ : Type*) where
  reqFrame : φ
  frames : List φ

/-- What `rtdoa_backhaul_send` asks of the radio. -/
inductive RadioCall
  | setDelayStart (dxTime : BitVec 64)
  | writeTxFctrl (len : ℕ)
  | writeTx (off : ℕ) (bytes : List UInt8)
  | startTx

/-- The transmit buffer when `uwb_start_tx` is called.  Only `uwb_write_tx` changes it. -/
def txBuffer (m : Mem) : List RadioCall → Mem
  | [] => m
  | .writeTx off bytes :: calls => txBuffer (store m off bytes) calls
  | .startTx :: _ => m
  | .setDelayStart _ :: calls => txBuffer m calls
  | .writeTxFctrl _ :: calls => txBuffer m calls

/-! ## The package -/

/-- All bytes zero. -/
def RtdoabhSensorData.zero : RtdoabhSensorData :=
  ⟨0, 0, 0, 0, 0, 0, 0, 0, Vector.replicate 3 0, Vector.replicate 3 0, Vector.replicate 3 0⟩

/-- All bytes zero. -/
def RtdoabhRangeData.zero : RtdoabhRangeData := ⟨0, 0, 0, 0⟩

/-- `g_result_pkg` after `rtdoa_backhaul_init` on a device with this short address. -/
def initPkg (N : ℕ) (myShortAddress : BitVec 16) : RtdoabhTagResultsPkg N where
  head := ⟨FCNTL_IEEE_RTDOABH, 0, 0xDECA, 0xffff, myShortAddress, DWT_RTDOABH_CODE⟩
  sensors := .zero
  refAnchorAddr := 0
  numRanges := 0
  ranges := Vector.replicate N .zero

/-- An assignment to fields of `ranges[i]`, undefined outside the array. -/
def setRange (p : RtdoabhTagResultsPkg N) (i : ℕ) (f : RtdoabhRangeData → RtdoabhRangeData) :
    Option (RtdoabhTagResultsPkg N) :=
  if h : i < N then some { p with ranges := p.ranges.set i (f p.ranges[i]) } else none

/-- One iteration of the loop over the frames. -/
def sendRange (D : Driver φ) (reqFrame : φ) (p : RtdoabhTagResultsPkg N) (frame : φ) :
    Option (RtdoabhTagResultsPkg N) :=
  let diff := D.rtdoaTdoaBetweenFrames reqFrame frame
  if diff.isNan then some p
  else
    let diffMm := ((diff.scale 1000).plus (1 / 2)).convert D.undef (-2 ^ 31) (2 ^ 31 - 1)
    -- written before the frame is known to be kept
    (setRange p p.numRanges.toNat fun r ↦ { r with diffDistMm := BitVec.ofInt 32 diffMm }).bind
      fun p ↦
        if D.srcAddress frame = 0 then some p
        else
          let rssi := D.uwbCalcRssi frame
          let fppl := D.uwbCalcFppl frame
          let rssi10 := (rssi.scale 10).convert D.undef (-2 ^ 13) (2 ^ 13 - 1)
          let quality := (D.uwbEstimateLos rssi fppl).convert D.undef (-2 ^ 31) (2 ^ 31 - 1)
          (setRange p p.numRanges.toNat fun r ↦
            { r with
              anchorAddr := D.srcAddress frame
              rssi := BitVec.ofInt 14 rssi10
              quality := BitVec.ofInt 2 quality }).map
            fun p ↦ { p with numRanges := p.numRanges + 1 }

/-- The loop over the frames. -/
def sendRanges (D : Driver φ) (reqFrame : φ) :
    RtdoabhTagResultsPkg N → List φ → Option (RtdoabhTagResultsPkg N)
  | p, [] => some p
  | p, frame :: frames =>
    (sendRange D reqFrame p frame).bind fun p ↦ sendRanges D reqFrame p frames

/-- What a call of `rtdoa_backhaul_send` does. -/
structure SendRun (N : ℕ) where
  /-- `g_result_pkg` after the loop: when the radio is started, and when it is sent locally. -/
  pkg : RtdoabhTagResultsPkg N
  /-- The length that is transmitted. -/
  dlen : ℤ
  calls : List RadioCall
  /-- The bytes handed to `rtdoa_local_send`, if it is called. -/
  localSend : Option (List UInt8)
  /-- `g_result_pkg` when the call returns. -/
  after : RtdoabhTagResultsPkg N

/-- The package with the head and the count set for a new round. -/
def sendHead (p : RtdoabhTagResultsPkg N) : RtdoabhTagResultsPkg N :=
  { p with
    head := { p.head with seqNum := p.head.seqNum + 1, code := DWT_RTDOABH_CODE }
    numRanges := 0 }

/-- The package with the buffers cleared in anticipation of the next round. -/
def sendClear (p : RtdoabhTagResultsPkg N) : RtdoabhTagResultsPkg N :=
  { p with sensors := .zero, ranges := Vector.replicate N .zero }

/-- `dlen` with the unused slots removed. -/
def sendLength (p : RtdoabhTagResultsPkg N) : ℤ :=
  sizeofPkg N - sizeofRangeData * (N - p.numRanges.toNat)

/-- The calls on the radio before the ranges are filled in, with `p` the package at that time. -/
def sendFirstCalls (dxTime : BitVec 64) (p : RtdoabhTagResultsPkg N) : List RadioCall :=
  if dxTime ≠ 0 then [.writeTx 0 ((encode p).take (offsetofNumRanges + 1))] else []

/-- The calls on the radio afterwards, with `p` the finished package. -/
def sendSecondCalls (dxTime : BitVec 64) (p : RtdoabhTagResultsPkg N) : List RadioCall :=
  if dxTime ≠ 0 then
    let dlen := (sendLength p).toNat
    [.setDelayStart dxTime, .writeTxFctrl dlen,
      .writeTx offsetofNumRanges
        (((encode p).drop offsetofNumRanges).take (dlen - offsetofNumRanges)),
      .startTx]
  else []

/-- `rtdoa_backhaul_send`.  `startTxError` is what `uwb_start_tx` answers. -/
def rtdoaBackhaulSend (D : Driver φ) (role : RtdoaBackhaulRole) (p : RtdoabhTagResultsPkg N)
    (rtdoa : RtdoaInstance φ) (dxTime : BitVec 64) (startTxError : Bool) : Option (SendRun N) :=
  let p₁ := sendHead p
  let p₂ := { p₁ with refAnchorAddr := D.srcAddress rtdoa.reqFrame }
  (sendRanges D rtdoa.reqFrame p₂ rtdoa.frames).map fun p₃ ↦
    { pkg := p₃
      dlen := sendLength p₃
      calls := sendFirstCalls dxTime p₁ ++ sendSecondCalls dxTime p₃
      localSend :=
        if dxTime ≠ 0 ∧ startTxError then none
        else if role = .bridge then some ((encode p₃).take (sendLength p₃).toNat)
        else none
      after := sendClear p₃ }

/-! ## Histories of calls -/

/-- The calls that touch `g_result_pkg`. -/
inductive SendCall (φ : Type*)
  | send (rtdoa : RtdoaInstance φ) (dxTime : BitVec 64) (startTxError : Bool)
  | setTs (sensorTime : BitVec 64)
  | setA2a
  | setRole (role : RtdoaBackhaulRole)

/-- The package and the role between calls. -/
structure SendState (N : ℕ) where
  gResultPkg : RtdoabhTagResultsPkg N
  gRole : RtdoaBackhaulRole

/-- `rtdoa_backhaul_set_ts`. -/
def rtdoaBackhaulSetTs (p : RtdoabhTagResultsPkg N) (sensorTime : BitVec 64) :
    RtdoabhTagResultsPkg N :=
  { p with sensors := { p.sensors with ts := sensorTime } }

/-- `rtdoa_backhaul_set_a2a`. -/
def rtdoaBackhaulSetA2a (p : RtdoabhTagResultsPkg N) : RtdoabhTagResultsPkg N :=
  { p with sensors := { p.sensors with isAnchorData := 1 } }

def sendStep (D : Driver φ) (s : SendState N) : SendCall φ → Option (SendState N)
  | .send rtdoa dxTime err =>
    (rtdoaBackhaulSend D s.gRole s.gResultPkg rtdoa dxTime err).map fun r ↦
      { s with gResultPkg := r.after }
  | .setTs t => some { s with gResultPkg := rtdoaBackhaulSetTs s.gResultPkg t }
  | .setA2a => some { s with gResultPkg := rtdoaBackhaulSetA2a s.gResultPkg }
  | .setRole role => some { s with gRole := role }

/-- The state `rtdoa_backhaul_init` leaves. -/
def sendInit (N : ℕ) (myShortAddress : BitVec 16) : SendState N :=
  ⟨initPkg N myShortAddress, .invalid⟩

/-! ## The loop -/

/-- What the loop leaves alone: everything in front of the count. -/
structure SameFront (p q : RtdoabhTagResultsPkg N) : Prop where
  head : q.head = p.head
  sensors : q.sensors = p.sensors
  refAnchorAddr : q.refAnchorAddr = p.refAnchorAddr

theorem SameFront.refl (p : RtdoabhTagResultsPkg N) : SameFront p p := ⟨rfl, rfl, rfl⟩

theorem SameFront.trans {p q r : RtdoabhTagResultsPkg N} (h : SameFront p q) (h' : SameFront q r) :
    SameFront p r :=
  ⟨h'.head.trans h.head, h'.sensors.trans h.sensors, h'.refAnchorAddr.trans h.refAnchorAddr⟩

/-- An assignment inside the array changes the array only. -/
theorem setRange_eq_some {p q : RtdoabhTagResultsPkg N} {i : ℕ}
    {f : RtdoabhRangeData → RtdoabhRangeData} (h : setRange p i f = some q) :
    i < N ∧ SameFront p q ∧ q.numRanges = p.numRanges := by
  rw [setRange] at h
  split at h
  · rename_i hi
    cases h
    exact ⟨hi, ⟨rfl, rfl, rfl⟩, rfl⟩
  · cases h

theorem setRange_of_lt (p : RtdoabhTagResultsPkg N) {i : ℕ} (h : i < N)
    (f : RtdoabhRangeData → RtdoabhRangeData) : ∃ q, setRange p i f = some q :=
  ⟨_, dif_pos h⟩

/-- What one iteration can do: skip the frame, or keep it and count it, having found room. -/
theorem sendRange_eq_some {D : Driver φ} {reqFrame frame : φ} {p q : RtdoabhTagResultsPkg N}
    (h : sendRange D reqFrame p frame = some q) :
    SameFront p q ∧
      (q.numRanges = p.numRanges ∨ p.numRanges.toNat < N ∧ q.numRanges = p.numRanges + 1) := by
  simp only [sendRange] at h
  split at h
  · cases h
    exact ⟨SameFront.refl p, Or.inl rfl⟩
  · obtain ⟨p₁, h₁, h⟩ := Option.bind_eq_some_iff.mp h
    obtain ⟨hlt, hfront₁, hnum₁⟩ := setRange_eq_some h₁
    split at h
    · cases h
      exact ⟨hfront₁, Or.inl hnum₁⟩
    · obtain ⟨p₂, h₂, h⟩ := Option.map_eq_some_iff.mp h
      obtain ⟨-, hfront₂, hnum₂⟩ := setRange_eq_some h₂
      cases h
      refine ⟨hfront₁.trans ⟨hfront₂.head, hfront₂.sensors, hfront₂.refAnchorAddr⟩,
        Or.inr ⟨hlt, ?_⟩⟩
      rw [hnum₂, hnum₁]

/-- A frame is handled without leaving the array as long as a slot is free. -/
theorem isSome_sendRange (D : Driver φ) (reqFrame frame : φ) {p : RtdoabhTagResultsPkg N}
    (h : p.numRanges.toNat < N) : ∃ q, sendRange D reqFrame p frame = some q := by
  simp only [sendRange]
  split
  · exact ⟨p, rfl⟩
  · obtain ⟨p₁, h₁⟩ := setRange_of_lt p h fun r ↦
      { r with diffDistMm := BitVec.ofInt 32 (((D.rtdoaTdoaBetweenFrames reqFrame frame).scale
        1000 |>.plus (1 / 2)).convert D.undef (-2 ^ 31) (2 ^ 31 - 1)) }
    rw [h₁, Option.bind_some]
    split
    · exact ⟨p₁, rfl⟩
    · obtain ⟨-, -, hnum⟩ := setRange_eq_some h₁
      rw [← hnum] at h
      obtain ⟨p₂, h₂⟩ := setRange_of_lt p₁ h fun r ↦
        { r with
          anchorAddr := D.srcAddress frame
          rssi := BitVec.ofInt 14 (((D.uwbCalcRssi frame).scale 10).convert D.undef (-2 ^ 13)
            (2 ^ 13 - 1))
          quality := BitVec.ofInt 2 ((D.uwbEstimateLos (D.uwbCalcRssi frame)
            (D.uwbCalcFppl frame)).convert D.undef (-2 ^ 31) (2 ^ 31 - 1)) }
      rw [h₂]
      exact ⟨_, rfl⟩

theorem toNat_add_one_le (n : BitVec 8) : (n + 1).toNat ≤ n.toNat + 1 := by
  rw [BitVec.toNat_add]
  exact Nat.mod_le _ _

/-- The loop keeps the front of the package and never counts past the array. -/
theorem sendRanges_eq_some {D : Driver φ} {reqFrame : φ} {frames : List φ}
    {p q : RtdoabhTagResultsPkg N} (h : sendRanges D reqFrame p frames = some q)
    (hp : p.numRanges.toNat ≤ N) : SameFront p q ∧ q.numRanges.toNat ≤ N := by
  induction frames generalizing p with
  | nil =>
    cases h
    exact ⟨SameFront.refl _, hp⟩
  | cons frame frames ih =>
    obtain ⟨p₁, h₁, h⟩ := Option.bind_eq_some_iff.mp h
    obtain ⟨hfront, hnum⟩ := sendRange_eq_some h₁
    have hp₁ : p₁.numRanges.toNat ≤ N := by
      rcases hnum with hnum | ⟨hlt, hnum⟩
      · rwa [hnum]
      · rw [hnum]
        exact (toNat_add_one_le _).trans hlt
    obtain ⟨hfront', hq⟩ := ih h hp₁
    exact ⟨hfront.trans hfront', hq⟩

/-- With no more frames than free slots the loop never leaves the array. -/
theorem isSome_sendRanges (D : Driver φ) (reqFrame : φ) (frames : List φ)
    {p : RtdoabhTagResultsPkg N} (h : p.numRanges.toNat + frames.length ≤ N) :
    ∃ q, sendRanges D reqFrame p frames = some q := by
  induction frames generalizing p with
  | nil => exact ⟨p, rfl⟩
  | cons frame frames ih =>
    rw [List.length_cons] at h
    obtain ⟨p₁, h₁⟩ := isSome_sendRange D reqFrame frame (p := p) (by omega)
    have hp₁ : p₁.numRanges.toNat ≤ p.numRanges.toNat + 1 := by
      rcases (sendRange_eq_some h₁).2 with hnum | ⟨-, hnum⟩
      · rw [hnum]
        omega
      · rw [hnum]
        exact toNat_add_one_le _
    rw [sendRanges, h₁, Option.bind_some]
    exact ih (by omega)

theorem sendLength_eq (p : RtdoabhTagResultsPkg N) :
    sendLength p = 53 + 8 * p.numRanges.toNat := by
  rw [sendLength, sizeofPkg_eq, sizeofRangeData_eq]
  push_cast
  ring

/-! ## What is on the air -/

/-- The transmit buffer holds the package the call would hand to the bridge: the property the two
partial writes are there for. -/
def TxMatches (tx : Mem) (r : SendRun N) : Prop :=
  ∀ k < r.dlen.toNat, txBuffer tx r.calls k = load (encode r.pkg) k

theorem load_encode_ref (p : RtdoabhTagResultsPkg N) :
    (uint 2).dec (fun k ↦ load (encode p) (50 + k)) = p.refAnchorAddr := by
  refine (uint 2).dec_of_agree _ _ fun k hk ↦ ?_
  have hfront : (headLayout.enc p.head ++ sensorLayout.enc p.sensors).length = 50 := by
    rw [List.length_append, headLayout.length_enc, sensorLayout.length_enc]
    rfl
  have hat := load_append_add (headLayout.enc p.head ++ sensorLayout.enc p.sensors)
    ((uint 2).enc p.refAnchorAddr ++
      ((uint 1).enc p.numRanges ++ (array N rangeLayout).enc p.ranges)) k
  rw [hfront] at hat
  rw [encode_eq, hat, load_append_of_lt (by simpa using hk)]

/-- The bytes in front of `num_ranges` are the head, the sensors and the reference anchor. -/
theorem load_encode_of_lt (p : RtdoabhTagResultsPkg N) {k : ℕ} (hk : k < 52) :
    load (encode p) k = load ((headLayout.enc p.head ++ sensorLayout.enc p.sensors) ++
      (uint 2).enc p.refAnchorAddr) k := by
  have hlen : ((headLayout.enc p.head ++ sensorLayout.enc p.sensors) ++
      (uint 2).enc p.refAnchorAddr).length = 52 := by
    simp only [List.length_append, Packed.length_enc]
    rfl
  rw [encode_eq, ← List.append_assoc, load_append_of_lt (by rwa [hlen])]

/-- The front of two packages with the same head and sensors agrees exactly when the reference
anchors do. -/
theorem agree_front_iff {p q : RtdoabhTagResultsPkg N} (hhead : q.head = p.head)
    (hsens : q.sensors = p.sensors) :
    Agree 52 (load (encode p)) (load (encode q)) ↔ p.refAnchorAddr = q.refAnchorAddr := by
  constructor
  · intro h
    rw [← load_encode_ref p, ← load_encode_ref q]
    exact (uint 2).dec_congr _ _ (@Agree.shift _ 50 _ _ h)
  · intro href k hk
    rw [load_encode_of_lt p hk, load_encode_of_lt q hk, hhead, hsens, href]

/-- The transmit buffer, byte by byte: the old package in front of `num_ranges`, the new one from
there on. -/
theorem txBuffer_send {dxTime : BitVec 64} (hdx : dxTime ≠ 0) (tx : Mem)
    (p₁ p₃ : RtdoabhTagResultsPkg N) (hnum : p₃.numRanges.toNat ≤ N) {k : ℕ}
    (hk : k < (sendLength p₃).toNat) :
    txBuffer tx (sendFirstCalls dxTime p₁ ++ sendSecondCalls dxTime p₃) k =
      if k < 52 then load (encode p₁) k else load (encode p₃) k := by
  have hlen : (sendLength p₃).toNat = 53 + 8 * p₃.numRanges.toNat := by
    rw [sendLength_eq]
    omega
  have hpkg₁ : (encode p₁).length = 53 + 8 * N := by rw [length_encode, sizeofPkg_eq]
  have hpkg₃ : (encode p₃).length = 53 + 8 * N := by rw [length_encode, sizeofPkg_eq]
  rw [sendFirstCalls, sendSecondCalls, if_pos hdx, if_pos hdx]
  simp only [List.cons_append, List.nil_append, txBuffer, offsetofNumRanges_eq]
  split
  · rename_i hfront
    rw [store_of_lt _ _ hfront, store_of_mem _ (Nat.zero_le k) (by rw [List.length_take]; omega),
      load, List.getD_eq_getElem?_getD, Nat.sub_zero, List.getElem?_take_of_lt (by omega),
      List.getD_eq_getElem?_getD]
  · rename_i hback
    have hwin : (((encode p₃).drop 52).take ((sendLength p₃).toNat - 52)).length =
        (sendLength p₃).toNat - 52 := by
      rw [List.length_take, List.length_drop]
      omega
    rw [store_of_mem _ (by omega) (by rw [hwin]; omega), load, List.getD_eq_getElem?_getD,
      List.getElem?_take_of_lt (by omega), List.getElem?_drop, List.getD_eq_getElem?_getD,
      show 52 + (k - 52) = k by omega]

/-- What is sent is right when the front of the package was right before the ranges were known. -/
theorem txMatches_iff_agree {dxTime : BitVec 64} (hdx : dxTime ≠ 0) (tx : Mem)
    {p₁ p₃ after : RtdoabhTagResultsPkg N} (hnum : p₃.numRanges.toNat ≤ N)
    (localSend : Option (List UInt8)) :
    TxMatches tx ⟨p₃, sendLength p₃, sendFirstCalls dxTime p₁ ++ sendSecondCalls dxTime p₃,
      localSend, after⟩ ↔ Agree 52 (load (encode p₁)) (load (encode p₃)) := by
  have hlen : (sendLength p₃).toNat = 53 + 8 * p₃.numRanges.toNat := by
    rw [sendLength_eq]
    omega
  constructor
  · intro h k hk
    have hbyte := h k (show k < (sendLength p₃).toNat by omega)
    rwa [txBuffer_send hdx tx p₁ p₃ hnum (by omega), if_pos hk] at hbyte
  · intro h k hk
    show txBuffer tx _ k = _
    rw [txBuffer_send hdx tx p₁ p₃ hnum hk]
    split
    · exact h k ‹_›
    · rfl

/-- The reference anchor of the last `rtdoa_backhaul_send` of a history, `0` if there is none. -/
def lastRef (D : Driver φ) (ref : BitVec 16) : List (SendCall φ) → BitVec 16
  | [] => ref
  | .send rtdoa _ _ :: calls => lastRef D (D.srcAddress rtdoa.reqFrame) calls
  | _ :: calls => lastRef D ref calls

/-- Nothing but a send changes `ref_anchor_addr`, and a send leaves the one it sent. -/
theorem refAnchorAddr_of_run {D : Driver φ} {hist : List (SendCall φ)} {s t : SendState N}
    (h : Run.run (sendStep D) s hist = some t) :
    t.gResultPkg.refAnchorAddr = lastRef D s.gResultPkg.refAnchorAddr hist := by
  induction hist generalizing s with
  | nil =>
    cases h
    rfl
  | cons call hist ih =>
    obtain ⟨s', hs, hrun⟩ := Run.run_cons_eq_some.mp h
    rw [ih hrun]
    cases call with
    | send rtdoa dxTime err =>
      obtain ⟨r, hr, rfl⟩ := Option.map_eq_some_iff.mp hs
      obtain ⟨p₃, hp₃, rfl⟩ := Option.map_eq_some_iff.mp hr
      have hfront := (sendRanges_eq_some hp₃ (Nat.zero_le N)).1
      rw [lastRef]
      exact congrArg (lastRef D · hist) hfront.refAnchorAddr
    | setTs t =>
      cases hs
      rfl
    | setA2a =>
      cases hs
      rfl
    | setRole role =>
      cases hs
      rfl

/-- **What the radio sends.**  After any history of calls, a send of a round with no more frames
than slots stays inside the array, and what the radio transmits is the package handed to the
bridge exactly when the round's reference anchor is the one of the send before. -/
theorem txMatches_iff (D : Driver φ) (myShortAddress : BitVec 16) (hist : List (SendCall φ))
    {s : SendState N} (hs : Run.run (sendStep D) (sendInit N myShortAddress) hist = some s)
    (rtdoa : RtdoaInstance φ) (hn : rtdoa.frames.length ≤ N) {dxTime : BitVec 64}
    (hdx : dxTime ≠ 0) (startTxError : Bool) (tx : Mem) :
    ∃ r, rtdoaBackhaulSend D s.gRole s.gResultPkg rtdoa dxTime startTxError = some r ∧
      (∀ bytes, r.localSend = some bytes → bytes = (encode r.pkg).take r.dlen.toNat) ∧
      (TxMatches tx r ↔ lastRef D 0 hist = D.srcAddress rtdoa.reqFrame) := by
  have href : s.gResultPkg.refAnchorAddr = lastRef D 0 hist := refAnchorAddr_of_run hs
  let p₁ := sendHead s.gResultPkg
  obtain ⟨p₃, hp₃⟩ := isSome_sendRanges D rtdoa.reqFrame rtdoa.frames
    (p := { p₁ with refAnchorAddr := D.srcAddress rtdoa.reqFrame })
    (by rw [show p₁.numRanges.toNat = 0 from rfl]; omega)
  obtain ⟨hfront, hnum⟩ := sendRanges_eq_some hp₃ (Nat.zero_le N)
  refine ⟨_, Option.map_eq_some_iff.mpr ⟨p₃, hp₃, rfl⟩, fun bytes hb ↦ ?_, ?_⟩
  · simp only at hb
    split at hb
    · cases hb
    · split at hb <;> cases hb
      rfl
  · have hfront₁ := agree_front_iff (p := p₁) (q := p₃) hfront.head hfront.sensors
    rw [txMatches_iff_agree hdx tx hnum, hfront₁, hfront.refAnchorAddr, ← href]
    rfl

/-- A driver whose frames are their source addresses, all one metre further than the reference. -/
def addressDriver : Driver (BitVec 16) where
  srcAddress := id
  rtdoaTdoaBetweenFrames _ _ := .val 1
  uwbCalcRssi _ := .val (-80)
  uwbCalcFppl _ := .val (-85)
  uwbEstimateLos _ _ := .val 1
  undef _ := 0

theorem txMatches_second_send :
    ∃ s r, Run.run (sendStep addressDriver) (sendInit 16 0x0001) [.send ⟨0x0101, []⟩ 1 false] =
        some s ∧
      rtdoaBackhaulSend addressDriver s.gRole s.gResultPkg ⟨0x0101, [0x0102]⟩ 1 false = some r ∧
      TxMatches (fun _ ↦ 0) r := by
  obtain ⟨r, hr, -, hiff⟩ := txMatches_iff (N := 16) addressDriver 0x0001
    [.send ⟨0x0101, []⟩ 1 false] rfl ⟨0x0101, [0x0102]⟩ (by decide)
    (by decide : (1 : BitVec 64) ≠ 0)
    false fun _ ↦ 0
  exact ⟨_, r, rfl, hr, hiff.mpr rfl⟩

/-- The first round after boot is transmitted with a reference anchor of zero. -/
theorem not_txMatches_first_send :
    ∃ r, rtdoaBackhaulSend addressDriver .bridge (initPkg 16 0x0001) ⟨0x0101, [0x0102]⟩ 1 false =
        some r ∧ ¬ TxMatches (fun _ ↦ 0) r := by
  refine ⟨_, rfl, fun h ↦ ?_⟩
  have hbyte := h 50 (by decide)
  revert hbyte
  decide

end UwbApps.Backhaul
