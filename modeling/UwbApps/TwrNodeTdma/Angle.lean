import UwbApps.Lib.CFloat
import UwbApps.Lib.Run

/-!
# The angle of an exchange in `twr_node_tdma`

A node with two devices measures an angle of arrival in `cir_complete_cb`, from the channel
impulse responses of both, and writes it to the frame of the exchange.  `complete_cb` writes the
azimuth of the same frame too, from `g_angle`, which only a device that measures angles by itself
ever sets; `slot_cb` empties it.

So what the frame holds in the end depends on which of the two runs last:
`azimuth_eq_angle_iff`.
-/

set_option autoImplicit false

open Run

namespace UwbApps.TwrNodeTdma

/-- The part of a `triadf_t` that holds an angle. -/
structure Triad where
  azimuth : CFloat
  zenith : CFloat

/-- What the callbacks find of an exchange.  A pair is of the first and the second device. -/
structure Exchange (κ δ : Type*) where
  fctrl : BitVec 16
  channel : BitVec 8
  /-- `cir[i]->status.valid`. -/
  valid : Bool × Bool
  cir : κ × κ
  /-- The sequence number in each `rxbuf`. -/
  seqNum : BitVec 8 × BitVec 8
  rxdiag : δ

/-- The radio's library and the build. -/
structure AngleEnv (κ δ : Type*) where
  FCNTL_IEEE_RANGE_16 : BitVec 16
  UWB_FCTRL_ACK_REQUESTED : BitVec 16
  uwbCalcAoa : CFloat → BitVec 8 → CFloat → CFloat
  cirGetPdoa : κ → κ → CFloat
  uwbCalcPdoa : δ → CFloat
  /-- `inst->capabilities.single_receiver_pdoa`. -/
  singleReceiverPdoa : Bool
  AOA_ANGLE_INVERT : Bool

/-- In metres. -/
def ANTENNA_SEPERATION : CFloat := .val (205 / 10000)

/-- `g_angle`, `local.spherical` of each frame of `rng`, and `rng->idx_current`. -/
structure AngleState (n : ℕ) where
  gAngle : Triad
  frames : Fin n → Triad
  idxCurrent : Fin n

variable {κ δ : Type*} {n : ℕ}

/-- The frame of the current exchange. -/
def AngleState.frame (s : AngleState n) : Triad := s.frames s.idxCurrent

def AngleState.setFrame (s : AngleState n) (f : Triad) : AngleState n :=
  { s with frames := Function.update s.frames s.idxCurrent f }

/-- The frame is one of a range exchange. -/
def AngleEnv.IsRange (E : AngleEnv κ δ) (fctrl : BitVec 16) : Prop :=
  fctrl = E.FCNTL_IEEE_RANGE_16 ∨ fctrl = E.FCNTL_IEEE_RANGE_16 ||| E.UWB_FCTRL_ACK_REQUESTED

instance (E : AngleEnv κ δ) (fctrl : BitVec 16) : Decidable (E.IsRange fctrl) :=
  inferInstanceAs (Decidable (_ ∨ _))

/-- The angle of arrival of an exchange. -/
def AngleEnv.angle (E : AngleEnv κ δ) (x : Exchange κ δ) : CFloat :=
  E.uwbCalcAoa (E.cirGetPdoa x.cir.2 x.cir.1) x.channel ANTENNA_SEPERATION

/-- `cir_complete_cb`, with whether it takes the exchange. -/
def cirCompleteCb (E : AngleEnv κ δ) (s : AngleState n) (x : Exchange κ δ) :
    AngleState n × Bool :=
  if ¬E.IsRange x.fctrl then (s, false)
  else if (x.valid.1 ∧ x.valid.2) ∧ x.seqNum.1 = x.seqNum.2 then
    (s.setFrame { s.frame with azimuth := E.angle x }, true)
  else (s, true)

/-- `complete_cb`, with whether it takes the exchange.  The event it posts is for a light. -/
def completeCb (E : AngleEnv κ δ) (s : AngleState n) (x : Exchange κ δ) : AngleState n × Bool :=
  if ¬E.IsRange x.fctrl then (s, false)
  else
    let g : Triad :=
      if E.singleReceiverPdoa then
        { s.gAngle with
          azimuth := E.uwbCalcAoa (E.uwbCalcPdoa x.rxdiag) x.channel ANTENNA_SEPERATION }
      else s.gAngle
    let azimuth := if E.AOA_ANGLE_INVERT then g.azimuth.neg else g.azimuth
    ({ s with gAngle := g }.setFrame ⟨azimuth, g.zenith⟩, true)

/-- `slot_cb`, up to the check of the semaphore. -/
def slotCbReset (s : AngleState n) : AngleState n := { s with gAngle := ⟨.nan, .nan⟩ }

/-- What can happen next. -/
inductive AngleEvent (n : ℕ) (κ δ : Type*)
  | slot
  /-- The ranging library goes to another frame, whatever it writes to the frames. -/
  | ranging (idxCurrent : Fin n) (frames : Fin n → Triad)
  | cirComplete (x : Exchange κ δ)
  | complete (x : Exchange κ δ)

def angleStep (E : AngleEnv κ δ) (s : AngleState n) : AngleEvent n κ δ → Option (AngleState n)
  | .slot => some (slotCbReset s)
  | .ranging idxCurrent frames => some { s with idxCurrent, frames }
  | .cirComplete x => some (cirCompleteCb E s x).1
  | .complete x => some (completeCb E s x).1

def isSlot : AngleEvent n κ δ → Bool
  | .slot => true
  | _ => false

/-- Which of the callbacks of an exchange comes first. -/
inductive CallbackOrder
  | cirFirst
  | completeFirst
deriving DecidableEq

/-- Both callbacks of an exchange, with so many slots in between. -/
def exchange (order : CallbackOrder) (x : Exchange κ δ) (slots : ℕ) : List (AngleEvent n κ δ) :=
  match order with
  | .cirFirst => .cirComplete x :: List.replicate slots .slot ++ [.complete x]
  | .completeFirst => .complete x :: List.replicate slots .slot ++ [.cirComplete x]

/-! ## One callback -/

theorem frame_setFrame (s : AngleState n) (f : Triad) : (s.setFrame f).frame = f :=
  Function.update_self ..

/-- The azimuth `cir_complete_cb` leaves. -/
theorem azimuth_cirCompleteCb {E : AngleEnv κ δ} (s : AngleState n) {x : Exchange κ δ}
    (hrange : E.IsRange x.fctrl) (hvalid : x.valid.1 = true ∧ x.valid.2 = true)
    (hseq : x.seqNum.1 = x.seqNum.2) : (cirCompleteCb E s x).1.frame.azimuth = E.angle x := by
  rw [cirCompleteCb, if_neg (not_not.mpr hrange), if_pos ⟨hvalid, hseq⟩, frame_setFrame]

/-- The azimuth `complete_cb` leaves. -/
theorem azimuth_completeCb {E : AngleEnv κ δ} (hsingle : E.singleReceiverPdoa = false)
    (s : AngleState n) {x : Exchange κ δ} (hrange : E.IsRange x.fctrl) :
    (completeCb E s x).1.frame.azimuth =
      if E.AOA_ANGLE_INVERT then s.gAngle.azimuth.neg else s.gAngle.azimuth := by
  simp only [completeCb, not_not.mpr hrange, if_false, hsingle, Bool.false_eq_true, frame_setFrame]

/-- Only `slot_cb` changes `g_angle`. -/
theorem gAngle_angleStep {E : AngleEnv κ δ} (hsingle : E.singleReceiverPdoa = false)
    {s t : AngleState n} {e : AngleEvent n κ δ} (h : angleStep E s e = some t) :
    t.gAngle.azimuth = if isSlot e then .nan else s.gAngle.azimuth := by
  cases e with
  | slot | ranging =>
    cases h
    rfl
  | cirComplete x =>
    cases h
    rw [cirCompleteCb]
    split
    · rfl
    · split <;> rfl
  | complete x =>
    cases h
    rw [completeCb]
    split
    · rfl
    · simp [hsingle, AngleState.setFrame, isSlot]

/-! ## A run -/

theorem gAngle_of_run {E : AngleEnv κ δ} (hsingle : E.singleReceiverPdoa = false)
    {s t : AngleState n} {es : List (AngleEvent n κ δ)} (hrun : run (angleStep E) s es = some t) :
    t.gAngle.azimuth = if es.any isSlot then .nan else s.gAngle.azimuth := by
  induction es generalizing s with
  | nil =>
    cases hrun
    rfl
  | cons e es ih =>
    obtain ⟨u, he, hrun⟩ := run_cons_eq_some.mp hrun
    rw [ih hrun, gAngle_angleStep hsingle he, List.any_cons]
    cases isSlot e <;> simp

theorem any_isSlot_before (es : List (AngleEvent n κ δ)) (x : Exchange κ δ) (slots : ℕ) :
    (es ++ AngleEvent.cirComplete x :: List.replicate slots .slot).any isSlot = true ↔
      es.any isSlot = true ∨ slots ≠ 0 := by
  have hcir : isSlot (AngleEvent.cirComplete x : AngleEvent n κ δ) = false := rfl
  have hslot : isSlot (AngleEvent.slot : AngleEvent n κ δ) = true := rfl
  simp only [List.any_append, List.any_cons, List.any_replicate, hcir, hslot, Bool.false_or,
    Bool.or_eq_true, Bool.ite_eq_true_distrib]
  simp

/-- **Which angle an exchange ends with.**  After any run from the start, let both callbacks of an
exchange run that both devices have received.  The frame has the angle of the exchange exactly
when `cir_complete_cb` was the last to run, or the angle is what `g_angle` holds anyway: none
after a slot, and zero before the first one. -/
theorem azimuth_eq_angle_iff (E : AngleEnv κ δ) (hsingle : E.singleReceiverPdoa = false)
    {s t : AngleState n} (hstart : s.gAngle = ⟨.val 0, .val 0⟩) (es : List (AngleEvent n κ δ))
    (order : CallbackOrder) {x : Exchange κ δ} (hrange : E.IsRange x.fctrl)
    (hvalid : x.valid.1 = true ∧ x.valid.2 = true) (hseq : x.seqNum.1 = x.seqNum.2) (slots : ℕ)
    (hrun : run (angleStep E) s (es ++ exchange order x slots) = some t) :
    t.frame.azimuth = E.angle x ↔ order = .completeFirst ∨
      E.angle x = if es.any isSlot ∨ slots ≠ 0 then .nan else .val 0 := by
  cases order with
  | completeFirst =>
    rw [exchange, ← List.append_assoc] at hrun
    obtain ⟨u, -, hlast⟩ := run_snoc.mp hrun
    cases hlast
    exact iff_of_true (azimuth_cirCompleteCb u hrange hvalid hseq) (Or.inl rfl)
  | cirFirst =>
    rw [exchange, ← List.append_assoc] at hrun
    obtain ⟨u, hbefore, hlast⟩ := run_snoc.mp hrun
    cases hlast
    have hg := gAngle_of_run hsingle hbefore
    simp only [any_isSlot_before, hstart] at hg
    -- neither value has a sign that could be inverted
    have hneg : u.gAngle.azimuth.neg = u.gAngle.azimuth := by
      rw [hg]
      split
      · rfl
      · rw [CFloat.neg, neg_zero]
    have hlast : (completeCb E u x).1.frame.azimuth = u.gAngle.azimuth := by
      rw [azimuth_completeCb hsingle u hrange, hneg, ite_self]
    rw [hlast, hg, eq_comm]
    exact (or_iff_right fun horder ↦ nomatch horder).symm

/-- A node whose devices see no phase difference: the other node is straight ahead. -/
def aheadEnv : AngleEnv Unit Unit where
  FCNTL_IEEE_RANGE_16 := 0x8841
  UWB_FCTRL_ACK_REQUESTED := 0x0020
  uwbCalcAoa pd _ _ := pd
  cirGetPdoa _ _ := .val 0
  uwbCalcPdoa _ := .val 0
  singleReceiverPdoa := false
  AOA_ANGLE_INVERT := false

def aheadExchange : Exchange Unit Unit := ⟨0x8841, 5, (true, true), ((), ()), (7, 7), ()⟩

def aheadStart : AngleState 1 := ⟨⟨.val 0, .val 0⟩, fun _ ↦ ⟨.nan, .nan⟩, Fin.last 0⟩

theorem azimuth_eq_angle_ahead :
    ∃ t, run (angleStep aheadEnv) aheadStart
        ([.slot] ++ exchange .completeFirst aheadExchange 0) = some t ∧
      t.frame.azimuth = aheadEnv.angle aheadExchange :=
  ⟨_, rfl, (azimuth_eq_angle_iff aheadEnv rfl rfl [.slot] .completeFirst (Or.inl rfl)
    ⟨rfl, rfl⟩ rfl 0 rfl).mpr (Or.inl rfl)⟩

/-- In the other order the frame is left without an angle. -/
theorem not_azimuth_eq_angle_ahead :
    ∃ t, run (angleStep aheadEnv) aheadStart ([.slot] ++ exchange .cirFirst aheadExchange 0) =
        some t ∧
      aheadEnv.angle aheadExchange = .val 0 ∧ t.frame.azimuth = .nan :=
  ⟨_, rfl, rfl, rfl⟩

end UwbApps.TwrNodeTdma
