import UwbApps.Lib.Run
import UwbApps.Os.Callout

/-!
# The blink timer of `tdoa_tag`

The tag sends a blink each time `tdoa_callout` fires, and `tdoa_timer_ev_cb` sets the callout again
as long as `g_blink_rate` is not zero.  `uwb_conf_commit` reads a new rate from the configuration
and starts the callout if the old rate was exactly zero.

`always_blinks_iff` says when a tag with a positive rate keeps blinking: exactly in the runs in
which no commit takes the rate from negative to positive while the callout is stopped.
-/

set_option autoImplicit false

open Run

namespace UwbApps.TdoaTag

open Os

/-- `ieee_blink_frame_t`. -/
structure IeeeBlinkFrame where
  fctrl : BitVec 8
  seqNum : BitVec 8
  longAddress : BitVec 64
deriving DecidableEq

/-- What the module keeps between two events. -/
structure State where
  /-- `uwb_config.blink_rate`. -/
  blinkRate : String
  gBlinkRate : Int16
  configChanged : Bool
  tdoaBlinkFrame : IeeeBlinkFrame
  tdoaCallout : DplCallout

/-- What the timer event has the radio do. -/
inductive UwbCall
  | wakeup
  | macConfig
  | txrfConfig
  | sleepConfig
  | enterSleepAfterTx (enable : Bool)
  | writeTxFctrl
  | startTx
  | writeTx (frame : IeeeBlinkFrame)
  | printStartTxErr
deriving DecidableEq

/-- `uwb_conf_set`, with the eight bytes of `blink_rate`. -/
def uwbConfSet (d : Dpl) (s : State) (argv : List String) (val : String) : State :=
  if argv = ["blink_rate"] then
    { s with blinkRate := (d.confString 8 val).getD s.blinkRate }
  else s

/-- `uwb_conf_commit`.  A string that is no number leaves the rate alone. -/
def uwbConfCommit (d : Dpl) (s : State) : State :=
  let oldBlinkRate := s.gBlinkRate
  let s := { s with gBlinkRate := (d.confInt16 s.blinkRate).getD s.gBlinkRate }
  -- start blinking if we weren't before
  if 0 < s.gBlinkRate.toInt ∧ oldBlinkRate = 0 then
    { s with tdoaCallout := d.dplCalloutReset s.tdoaCallout (d.period s.gBlinkRate) }
  else s

/-- `uwb_config_updated`. -/
def uwbConfigUpdated (s : State) : State := { s with configChanged := true }

/-- The callout is set for the next blink, unless the rate is zero. -/
def setCallout (d : Dpl) (s : State) : State :=
  if s.gBlinkRate ≠ 0 then
    { s with tdoaCallout := d.dplCalloutReset s.tdoaCallout (d.period s.gBlinkRate) }
  else s

/-- What `tdoa_timer_ev_cb` has the radio do. -/
def timerCalls (s : State) (sleeping startTxError : Bool) : List UwbCall :=
  (if sleeping then [.wakeup] else []) ++
    (if s.configChanged then [.macConfig, .txrfConfig] else []) ++
    [.sleepConfig, .enterSleepAfterTx (s.gBlinkRate.toInt < 10), .writeTxFctrl, .startTx] ++
    (if startTxError then [.printStartTxErr] else [.writeTx s.tdoaBlinkFrame])

/-- `tdoa_timer_ev_cb`, with what it has the radio do. -/
def tdoaTimerEvCb (d : Dpl) (s : State) (sleeping startTxError : Bool) : State × List UwbCall :=
  let calls := timerCalls s sleeping startTxError
  let frame := { s.tdoaBlinkFrame with seqNum := s.tdoaBlinkFrame.seqNum + 1 }
  (setCallout d { s with configChanged := false, tdoaBlinkFrame := frame }, calls)

/-- `init_timer`, after `main` has filled in the address. -/
def initTimer (d : Dpl) (myLongAddress : BitVec 64) : State :=
  setCallout d
    { blinkRate := "1"
      gBlinkRate := 1
      configChanged := false
      tdoaBlinkFrame := ⟨0xC5, 0, myLongAddress⟩
      tdoaCallout := ⟨false, false⟩ }

/-! ## Runs -/

/-- What can happen next. -/
inductive Event
  | confSet (argv : List String) (val : String)
  | confCommit
  | configUpdated
  | expire
  | timerEv (sleeping startTxError : Bool)

def step (d : Dpl) (s : State) : Event → Option State
  | .confSet argv val => some (uwbConfSet d s argv val)
  | .confCommit => some (uwbConfCommit d s)
  | .configUpdated => some (uwbConfigUpdated s)
  | .expire => s.tdoaCallout.expire.map fun tdoaCallout ↦ { s with tdoaCallout }
  | .timerEv sleeping err => s.tdoaCallout.take.map fun tdoaCallout ↦
      (tdoaTimerEvCb d { s with tdoaCallout } sleeping err).1

/-- A tag with a positive rate will blink again. -/
def Blinks (s : State) : Prop := 0 < s.gBlinkRate.toInt → s.tdoaCallout.Live

/-- The event is a commit that takes the rate from negative to positive, and the callout is
stopped. -/
def RevivesStopped (d : Dpl) (s : State) : Event → Prop
  | .confCommit => s.gBlinkRate.toInt < 0 ∧ ¬ s.tdoaCallout.Live ∧
      (d.confInt16 s.blinkRate).any (0 < ·.toInt)
  | _ => False

instance (d : Dpl) (s : State) : (e : Event) → Decidable (RevivesStopped d s e)
  | .confCommit => inferInstanceAs (Decidable (_ ∧ _))
  | .confSet _ _ | .configUpdated | .expire | .timerEv _ _ => isFalse id

/-- Setting the callout leaves a positive rate with its callout armed. -/
theorem blinks_setCallout (d : Dpl) (s : State) : Blinks (setCallout d s) := by
  intro hpos
  rw [setCallout] at hpos ⊢
  split at hpos
  · rename_i hne
    rw [if_pos hne]
    exact Or.inl (d.reset_armed _ _ (d.period_nonneg hpos))
  · rename_i hzero
    rw [not_not.mp hzero] at hpos
    exact absurd hpos (by decide)

/-- A commit keeps a tag blinking, unless it revives a stopped one. -/
theorem blinks_uwbConfCommit_iff {d : Dpl} {s : State} (h : Blinks s) :
    Blinks (uwbConfCommit d s) ↔ ¬ RevivesStopped d s .confCommit := by
  cases hparse : d.confInt16 s.blinkRate with
  | none =>
    have hsame : uwbConfCommit d s = s := by
      have hno : ¬ (0 < s.gBlinkRate.toInt ∧ s.gBlinkRate = 0) := by
        rintro ⟨hpos, hzero⟩
        rw [hzero] at hpos
        exact absurd hpos (by decide)
      simp only [uwbConfCommit, hparse, Option.getD_none]
      exact if_neg hno
    rw [hsame]
    exact iff_of_true h fun ⟨_, _, hany⟩ ↦ by simp [hparse] at hany
  | some rate =>
    have hrevives : RevivesStopped d s .confCommit ↔
        s.gBlinkRate.toInt < 0 ∧ ¬ s.tdoaCallout.Live ∧ 0 < rate.toInt := by
      simp [RevivesStopped, hparse]
    rw [hrevives]
    by_cases hstart : 0 < rate.toInt ∧ s.gBlinkRate = 0
    · have hcommit : uwbConfCommit d s =
          { s with
            gBlinkRate := rate
            tdoaCallout := d.dplCalloutReset s.tdoaCallout (d.period rate) } := by
        simp only [uwbConfCommit, hparse, Option.getD_some]
        exact if_pos hstart
      rw [hcommit]
      refine iff_of_true (fun _ ↦ Or.inl (d.reset_armed _ _ (d.period_nonneg hstart.1))) ?_
      rintro ⟨hneg, -⟩
      rw [hstart.2] at hneg
      exact absurd hneg (by decide)
    · have hcommit : uwbConfCommit d s = { s with gBlinkRate := rate } := by
        simp only [uwbConfCommit, hparse, Option.getD_some]
        exact if_neg hstart
      rw [hcommit]
      -- the callout is as before: what counts is whether the old rate kept it going
      constructor
      · rintro hblinks ⟨-, hstopped, hpos⟩
        exact hstopped (hblinks hpos)
      · intro hno hpos
        by_contra hstopped
        have hold : ¬ 0 < s.gBlinkRate.toInt := fun hold ↦ hstopped (h hold)
        have hne : s.gBlinkRate.toInt ≠ 0 := fun hzero ↦
          hstart ⟨hpos, Int16.toInt_inj.mp hzero⟩
        exact hno ⟨by omega, hstopped, hpos⟩

/-- **One step**: a tag that blinks goes on blinking, unless a commit revives a stopped one. -/
theorem blinks_step_iff {d : Dpl} {s t : State} {e : Event} (h : Blinks s)
    (hstep : step d s e = some t) : Blinks t ↔ ¬ RevivesStopped d s e := by
  cases e with
  | confCommit =>
    cases hstep
    exact blinks_uwbConfCommit_iff h
  | confSet argv val =>
    cases hstep
    refine iff_of_true ?_ id
    rw [uwbConfSet]
    split <;> exact h
  | configUpdated =>
    cases hstep
    exact iff_of_true h id
  | expire =>
    obtain ⟨callout, hexp, rfl⟩ := Option.map_eq_some_iff.mp hstep
    refine iff_of_true (fun _ ↦ Or.inr ?_) id
    rw [DplCallout.expire] at hexp
    split at hexp <;> cases hexp
    rfl
  | timerEv sleeping err =>
    obtain ⟨callout, -, rfl⟩ := Option.map_eq_some_iff.mp hstep
    exact iff_of_true (blinks_setCallout d _) id

/-- **Whether the tag keeps blinking.**  From `init_timer` on, the rate is never positive with the
callout neither armed nor pending, exactly if no commit of the run takes the rate from negative to
positive while the callout is stopped. -/
theorem always_blinks_iff (d : Dpl) (myLongAddress : BitVec 64) {es : List Event} {s : State}
    (h : run (step d) (initTimer d myLongAddress) es = some s) :
    (∀ pre post t, es = pre ++ post → run (step d) (initTimer d myLongAddress) pre = some t →
        Blinks t) ↔
      Each (step d) (fun s e ↦ ¬ RevivesStopped d s e) (initTimer d myLongAddress) es :=
  always_iff_each (fun _ _ _ ↦ blinks_step_iff) (blinks_setCallout d _) h

/-- A system with 128 ticks a second that reads a few strings. -/
def sampleDpl : Dpl where
  ticksPerSec := 128
  dplCalloutReset c ticks := if 0 ≤ ticks.toInt then ⟨true, false⟩ else c
  confInt16 val := if val = "5" then some 5 else if val = "-1" then some (-1) else none
  confString size val := if val.utf8ByteSize < size then some val else none
  ticksPerSec_lt := by decide
  reset_armed c ticks h := by rw [if_pos h]
  reset_of_neg c ticks h := by rw [if_neg (by omega)]; exact id

theorem blinks_after_faster_rate :
    ∃ s, run (step sampleDpl) (initTimer sampleDpl 0) [.confSet ["blink_rate"] "5", .confCommit,
        .expire, .timerEv false false] = some s ∧ Blinks s := by
  obtain ⟨s, hs⟩ := Option.isSome_iff_exists.mp (show (run (step sampleDpl) (initTimer sampleDpl 0)
    [.confSet ["blink_rate"] "5", .confCommit, .expire, .timerEv false false]).isSome by decide)
  have hblinks := (always_blinks_iff sampleDpl 0 hs).mpr (by decide)
  exact ⟨s, hs, hblinks _ [] s (List.append_nil _).symm hs⟩

/-- A tag that was stopped by a negative rate stays silent when it gets a positive one. -/
theorem not_blinks_after_negative_rate :
    ∃ s, run (step sampleDpl) (initTimer sampleDpl 0) [.confSet ["blink_rate"] "-1", .confCommit,
        .expire, .timerEv false false, .confSet ["blink_rate"] "5", .confCommit] = some s ∧
      ¬ Blinks s := by
  have hend : (run (step sampleDpl) (initTimer sampleDpl 0) [.confSet ["blink_rate"] "-1",
      .confCommit, .expire, .timerEv false false, .confSet ["blink_rate"] "5", .confCommit]).map
        (fun s ↦ (s.gBlinkRate, s.tdoaCallout)) = some (5, ⟨false, false⟩) := by
    decide
  obtain ⟨s, hs, hpair⟩ := Option.map_eq_some_iff.mp hend
  obtain ⟨hrate, hcallout⟩ := Prod.ext_iff.mp hpair
  refine ⟨s, hs, fun hblinks ↦ ?_⟩
  simp only at hrate hcallout
  rw [Blinks, hrate, hcallout] at hblinks
  exact absurd (hblinks (by decide)) (by decide)

end UwbApps.TdoaTag
