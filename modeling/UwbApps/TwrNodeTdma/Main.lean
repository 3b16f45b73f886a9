import UwbApps.Config.Callbacks
import UwbApps.Lib.CFloat

/-!
# The receive timeout of `twr_node_tdma`

`slot_cb` keeps the timeout of its receives in a static variable and computes it, for the device of
the TDMA instance, when it is zero.  With `UWB_DEVICE_1` it arms both devices with it.  Applying a
deferred configuration zeroes it, and does not reach device 0 when the TDMA instance is that of
device 1; `uwb_config_updated_func`, which applies one at once while the CCP semaphore is taken,
reaches both and leaves the timeout as it is.

`armed_timeout_iff` says in which runs every receive is armed with the timeout of the configuration
its own radio has: exactly those in which no configuration that is applied leaves a radio with
another timeout than the one the next receives will use.
-/

set_option autoImplicit false

open Run

namespace UwbApps.TwrNodeTdma

open Config Config.TwrNodeTdma

/-- What the timeout is computed from, besides the settings `μ` of the radio. -/
structure Phy (μ : Type) where
  /-- `uwb_phy_frame_duration`, in microseconds, by the settings the radio has. -/
  uwbPhyFrameDuration : μ → ℕ → ℕ
  uwbUsecsToDwtUsecs : ℕ → CFloat
  /-- `sizeof(ieee_rng_request_frame_t)`. -/
  sizeofRequest : ℕ
  /-- `rng->config.rx_timeout_delay`. -/
  rxTimeoutDelay : UInt16
  /-- What the conversion to `uint16_t` gives for a value that does not fit. -/
  undef : CFloat → ℤ

/-- The timeout for a radio with the settings `m`. -/
def Phy.timeoutOf {μ : Type} (p : Phy μ) (m : μ) : UInt16 :=
  .ofInt <| (p.uwbUsecsToDwtUsecs (p.uwbPhyFrameDuration m p.sizeofRequest)).plus
    p.rxTimeoutDelay.toNat |>.convert p.undef 0 65535

variable {b : Build} {μ τ : Type}

structure State (b : Build) (μ τ : Type) where
  /-- `inst->config` of each device. -/
  config : ∀ i : Part b.devices, i.Value μ τ
  /-- What was last applied. -/
  radio : ∀ i : Part b.devices, i.Value μ τ
  /-- `dpl_sem_get_count(&ccp->sem)`. -/
  semCount : UInt16
  uwbConfigUpdated : Bool
  /-- The static variable of `slot_cb`. -/
  timeout : UInt16

/-- The timeout for the configuration that device `d` has. -/
def State.timeoutOf (p : Phy μ) (s : State b μ τ) (d : Fin b.devices) : UInt16 :=
  p.timeoutOf (s.radio (.mac d))

/-- The parts of the configuration that the calls apply are as committed on the radio. -/
def State.perform (s : State b μ τ) (calls : List (UwbCall b.devices)) : State b μ τ :=
  { s with radio := fun i ↦ if i ∈ parts calls then s.config i else s.radio i }

/-- `uwb_config_updated_func`. -/
def uwbConfigUpdatedFunc (s : State b μ τ) : State b μ τ :=
  if s.semCount = 0 then s.perform (uwbConfigUpdatedFuncCalls b)
  else { s with uwbConfigUpdated := true }

/-- The devices that `slot_cb` arms a receive on, in order. -/
def armed : (b : Build) → List (Fin b.devices)
  | .oneDevice => [⟨0, Nat.zero_lt_one⟩]
  | .twoDevices _ => [⟨0, Nat.zero_lt_two⟩, ⟨1, Nat.one_lt_two⟩]

/-- `slot_cb`, with the receives it arms: on which device, and with which timeout. -/
def slotCb (p : Phy μ) (s : State b μ τ) : State b μ τ × List (Fin b.devices × UInt16) :=
  -- avoid colliding with the ccp in case we've got out of sync
  if s.semCount = 0 then (s, [])
  else if s.uwbConfigUpdated then
    ({ s.perform (slotCbCalls b) with uwbConfigUpdated := false, timeout := 0 }, [])
  else
    -- only recalculate timeout if needed
    let timeout := if s.timeout = 0 then s.timeoutOf p b.inst else s.timeout
    ({ s with timeout }, (armed b).map (·, timeout))

/-- After start-up: the configuration has been applied, and no slot has come yet. -/
def boot (config : ∀ i : Part b.devices, i.Value μ τ) (semCount : UInt16) : State b μ τ :=
  ⟨config, config, semCount, false, 0⟩

/-- What can happen next. -/
inductive Event (b : Build) (μ τ : Type)
  | slot
  | ccpSem (count : UInt16)
  /-- A new configuration is committed, and the update callback called. -/
  | configUpdate (config : ∀ i : Part b.devices, i.Value μ τ)

def step (p : Phy μ) (s : State b μ τ) : Event b μ τ → Option (State b μ τ)
  | .slot => some (slotCb p s).1
  | .ccpSem semCount => some { s with semCount }
  | .configUpdate config => some (uwbConfigUpdatedFunc { s with config })

/-- The devices that `slot_cb` gives a deferred configuration. -/
def reconfigured : (b : Build) → List (Fin b.devices)
  | .oneDevice => [⟨0, Nat.zero_lt_one⟩]
  | .twoDevices inst => [inst, ⟨1, Nat.one_lt_two⟩]

/-- A configuration that is applied leaves a device that will be armed with another timeout than the
next receives will use.  Applied at once, these will use the timeout in the cache, if there is one;
applied in a slot, the one for the new settings of the device of the TDMA instance. -/
def Mistimes (p : Phy μ) (s : State b μ τ) : Event b μ τ → Prop
  | .configUpdate config => s.semCount = 0 ∧ s.uwbConfigUpdated = false ∧
      ∃ d ∈ armed b, (if s.timeout = 0 then p.timeoutOf (config (.mac b.inst)) else s.timeout) ≠
        p.timeoutOf (config (.mac d))
  | .slot => s.semCount ≠ 0 ∧ s.uwbConfigUpdated = true ∧
      ∃ d ∈ armed b, p.timeoutOf (s.config (.mac b.inst)) ≠
        if d ∈ reconfigured b then p.timeoutOf (s.config (.mac d)) else s.timeoutOf p d
  | .ccpSem _ => False

instance (p : Phy μ) (s : State b μ τ) : (e : Event b μ τ) → Decidable (Mistimes p s e)
  | .configUpdate _ | .slot => inferInstanceAs (Decidable (_ ∧ _))
  | .ccpSem _ => isFalse id

/-- The timeout that a slot would use now. -/
def State.used (p : Phy μ) (s : State b μ τ) : UInt16 :=
  if s.timeout = 0 then s.timeoutOf p b.inst else s.timeout

/-- A slot that comes now computes the timeout anew later, or uses the one for every device it
arms. -/
def Timely (p : Phy μ) (s : State b μ τ) : Prop :=
  s.uwbConfigUpdated = true ∨ ∀ d ∈ armed b, s.used p = s.timeoutOf p d

/-! ## What the callbacks do to the cache -/

theorem mem_parts_slotCbCalls {d : Fin b.devices} :
    .mac d ∈ parts (slotCbCalls b) ↔ d ∈ reconfigured b := by
  cases b with
  | oneDevice =>
    have h : ∀ d : Fin 1, .mac d ∈ parts (configCalls (0 : Fin 1) ++ [] ++ [.uwbSetAutoack 0]) ↔
        d ∈ [0] := by decide
    exact h d
  | twoDevices inst =>
    have h : ∀ inst d : Fin 2, .mac d ∈ parts (configCalls inst ++ configCalls 1 ++
        [.uwbSetAutoack inst]) ↔ d ∈ [inst, 1] := by decide
    exact h inst d

theorem inst_mem_reconfigured (b : Build) : b.inst ∈ reconfigured b := by
  cases b <;> exact List.mem_cons_self

theorem timeoutOf_perform (p : Phy μ) (s : State b μ τ) (calls : List (UwbCall b.devices))
    (d : Fin b.devices) : (s.perform calls).timeoutOf p d =
      if .mac d ∈ parts calls then p.timeoutOf (s.config (.mac d)) else s.timeoutOf p d := by
  by_cases h : .mac d ∈ parts calls
  · rw [if_pos h]
    exact congrArg p.timeoutOf (if_pos h)
  · rw [if_neg h]
    exact congrArg p.timeoutOf (if_neg h)

theorem slotCb_of_taken (p : Phy μ) {s : State b μ τ} (h : s.semCount = 0) :
    slotCb p s = (s, []) :=
  if_pos h

theorem slotCb_of_updated (p : Phy μ) {s : State b μ τ} (hsem : s.semCount ≠ 0)
    (h : s.uwbConfigUpdated = true) : slotCb p s =
      ({ s.perform (slotCbCalls b) with uwbConfigUpdated := false, timeout := 0 }, []) := by
  rw [slotCb, if_neg hsem, if_pos h]

theorem slotCb_of_arms (p : Phy μ) {s : State b μ τ} (hsem : s.semCount ≠ 0)
    (h : s.uwbConfigUpdated = false) :
    slotCb p s = ({ s with timeout := s.used p }, (armed b).map (·, s.used p)) := by
  rw [slotCb, if_neg hsem, if_neg (by simp [h])]
  rfl

/-- A slot that comes now, with any semaphore, arms every device with the timeout of its radio. -/
theorem timely_iff_armed (p : Phy μ) (s : State b μ τ) :
    Timely p s ↔ ∀ semCount, ∀ r ∈ (slotCb p { s with semCount }).2, r.2 = s.timeoutOf p r.1 := by
  by_cases hupd : s.uwbConfigUpdated = true
  · refine iff_of_true (Or.inl hupd) fun semCount r hr ↦ ?_
    by_cases hsem : semCount = 0
    · rw [slotCb_of_taken (s := { s with semCount }) p hsem] at hr
      cases hr
    · rw [slotCb_of_updated (s := { s with semCount }) p hsem hupd] at hr
      cases hr
  · rw [Bool.not_eq_true] at hupd
    constructor
    · intro htimely semCount r hr
      by_cases hsem : semCount = 0
      · rw [slotCb_of_taken (s := { s with semCount }) p hsem] at hr
        cases hr
      · rw [slotCb_of_arms (s := { s with semCount }) p hsem hupd] at hr
        obtain ⟨d, hd, rfl⟩ := List.mem_map.mp hr
        exact htimely.resolve_left (by simp [hupd]) d hd
    · intro hall
      have hone : (1 : UInt16) ≠ 0 := by decide
      refine Or.inr fun d hd ↦ hall 1 (d, s.used p) ?_
      rw [slotCb_of_arms (s := { s with semCount := 1 }) p hone hupd]
      exact List.mem_map.mpr ⟨d, hd, rfl⟩

/-- A slot: it computes the timeout it uses, or it applies what was deferred. -/
theorem timely_slotCb_iff {p : Phy μ} {s : State b μ τ} (h : Timely p s) :
    Timely p (slotCb p s).1 ↔ ¬ Mistimes p s .slot := by
  by_cases hsem : s.semCount = 0
  · rw [slotCb_of_taken p hsem]
    exact iff_of_true h fun hbad ↦ hbad.1 hsem
  by_cases hupd : s.uwbConfigUpdated = true
  · rw [slotCb_of_updated p hsem hupd]
    have htimeout : ∀ d, State.timeoutOf p
        { s.perform (slotCbCalls b) with uwbConfigUpdated := false, timeout := 0 } d =
          if d ∈ reconfigured b then p.timeoutOf (s.config (.mac d)) else s.timeoutOf p d := by
      intro d
      simp only [← mem_parts_slotCbCalls]
      exact timeoutOf_perform p s (slotCbCalls b) d
    simp only [Timely, State.used, if_true, htimeout, if_pos (inst_mem_reconfigured b), Mistimes,
      Bool.false_eq_true, false_or, hsem, hupd, ne_eq, not_false_eq_true, true_and, not_exists,
      not_and, not_not]
  · rw [slotCb_of_arms p hsem (Bool.not_eq_true _ ▸ hupd)]
    refine iff_of_true (Or.inr fun d hd ↦ ?_) fun hbad ↦ hupd hbad.2.1
    refine Eq.trans ?_ (h.resolve_left hupd d hd)
    -- the timeout just computed is used again, and computed again if it is zero
    show (if s.used p = 0 then s.timeoutOf p b.inst else s.used p) = s.used p
    split
    · next hzero =>
      by_cases hcached : s.timeout = 0
      · exact (if_pos hcached).symm
      · exact absurd ((if_neg hcached).symm.trans hzero) hcached
    · rfl

/-- The update callback: it defers the configuration, or applies it and leaves the cache. -/
theorem timely_uwbConfigUpdatedFunc_iff {p : Phy μ} {s : State b μ τ}
    (config : ∀ i : Part b.devices, i.Value μ τ) :
    Timely p (uwbConfigUpdatedFunc { s with config }) ↔ ¬ Mistimes p s (.configUpdate config) := by
  rw [uwbConfigUpdatedFunc]
  by_cases hsem : s.semCount = 0
  · have htimeout : ∀ d, State.timeoutOf p
        (State.perform { s with config } (uwbConfigUpdatedFuncCalls b)) d =
          p.timeoutOf (config (.mac d)) := fun d ↦
      (timeoutOf_perform p { s with config } _ d).trans (if_pos (mem_parts b _))
    rw [if_pos hsem, Timely, State.used]
    simp only [htimeout]
    simp only [State.perform, Mistimes, hsem, ← Bool.not_eq_true, ne_eq, true_and, not_and,
      not_exists, not_not]
    exact or_iff_not_imp_left
  · rw [if_neg hsem]
    exact iff_of_true (Or.inl rfl) fun hbad ↦ hsem hbad.1

/-- **One step** keeps the timeout fit for use, unless it applies a configuration that it is not fit
for. -/
theorem timely_step_iff {p : Phy μ} {s t : State b μ τ} {e : Event b μ τ} (h : Timely p s)
    (hstep : step p s e = some t) : Timely p t ↔ ¬ Mistimes p s e := by
  cases e with
  | ccpSem semCount =>
    cases hstep
    exact iff_of_true h id
  | slot =>
    cases hstep
    exact timely_slotCb_iff h
  | configUpdate config =>
    cases hstep
    exact timely_uwbConfigUpdatedFunc_iff config

/-- **When receives are armed with the right timeout.**  A slot event at any point of a run, with
whatever count the semaphore has then, arms each device with the timeout for the configuration its
radio has, exactly if the devices start with settings of one timeout and the run applies no
configuration that leaves a device with another timeout than the next receives will use. -/
theorem armed_timeout_iff (p : Phy μ) {config : ∀ i : Part b.devices, i.Value μ τ}
    {count : UInt16} {es : List (Event b μ τ)} {s : State b μ τ}
    (h : run (step p) (boot config count) es = some s) :
    (∀ pre post t, es = pre ++ post → run (step p) (boot config count) pre = some t →
        ∀ semCount, ∀ r ∈ (slotCb p { t with semCount }).2,
          r.2 = p.timeoutOf (t.radio (.mac r.1))) ↔
      (∀ d ∈ armed b, p.timeoutOf (config (.mac b.inst)) = p.timeoutOf (config (.mac d))) ∧
        Each (step p) (fun s e ↦ ¬ Mistimes p s e) (boot config count) es := by
  have hboot : Timely p (boot config count) ↔
      ∀ d ∈ armed b, p.timeoutOf (config (.mac b.inst)) = p.timeoutOf (config (.mac d)) :=
    or_iff_right Bool.false_ne_true
  constructor
  · intro hall
    have htimely : ∀ pre post t, es = pre ++ post →
        run (step p) (boot config count) pre = some t → Timely p t :=
      fun pre post t hsplit hpre ↦ (timely_iff_armed p t).mpr (hall pre post t hsplit hpre)
    have hstart := htimely [] es _ rfl rfl
    exact ⟨hboot.mp hstart, (always_iff_each (fun _ _ _ ↦ timely_step_iff) hstart h).mp htimely⟩
  · rintro ⟨hstart, heach⟩ pre post t hsplit hpre
    exact (timely_iff_armed p t).mp <|
      (always_iff_each (fun _ _ _ ↦ timely_step_iff) (hboot.mpr hstart) h).mpr heach pre post t
        hsplit hpre

/-- A radio whose frames take as long as its settings say, in microseconds. -/
def samplePhy : Phy ℕ where
  uwbPhyFrameDuration m _ := m
  uwbUsecsToDwtUsecs usecs := .val usecs
  sizeofRequest := 13
  rxTimeoutDelay := 48
  undef _ := 0

/-- A commit while the node is in step is applied by the next slot. -/
def updateInStep : List (Event .oneDevice ℕ ℕ) :=
  [.slot, .configUpdate (settings 200), .slot, .slot]

theorem armed_timeout_after_deferred_update :
    ∃ s, run (step samplePhy) (boot (settings 100) 1) updateInStep = some s ∧
      (slotCb samplePhy s).2 = [((0 : Fin 1), s.timeoutOf samplePhy (0 : Fin 1))] := by
  obtain ⟨s, hs⟩ := Option.isSome_iff_exists.mp
    (show (run (step samplePhy) (boot (settings 100) 1) updateInStep).isSome by decide)
  have hstart : ∀ d ∈ armed .oneDevice, samplePhy.timeoutOf (settings 100 (.mac (0 : Fin 1))) =
      samplePhy.timeoutOf (settings 100 (.mac d)) := fun _ _ ↦ rfl
  have hcond : Each (step samplePhy) (fun s e ↦ ¬ Mistimes samplePhy s e)
      (boot (settings 100) 1) updateInStep := by
    decide +kernel
  obtain ⟨timeout, harm⟩ : ∃ timeout, (slotCb samplePhy s).2 = [((0 : Fin 1), timeout)] := by
    cases hs
    exact ⟨_, rfl⟩
  have htimeout := (armed_timeout_iff samplePhy hs).mpr ⟨hstart, hcond⟩ _ [] s
    (List.append_nil _).symm hs s.semCount _ (by rw [harm]; exact List.mem_cons_self)
  exact ⟨s, hs, harm.trans (congrArg (fun w ↦ [((0 : Fin 1), w)]) htimeout)⟩

/-- A commit while the node waits for the calibration changes the radio and not the timeout. -/
theorem armed_timeout_after_update_at_once :
    ∃ s, run (step samplePhy) (boot (settings 100) 1 : State .oneDevice ℕ ℕ)
        [.slot, .ccpSem 0, .configUpdate (settings 200), .ccpSem 1] = some s ∧
      (slotCb samplePhy s).2.map Prod.snd = [148] ∧ s.timeoutOf samplePhy (0 : Fin 1) = 248 :=
  ⟨_, rfl, by decide +kernel, by decide +kernel⟩

/-- A commit that a slot of device 1 applies reaches device 1 only. -/
example : ∃ s, run (step samplePhy) (boot (settings 100) 1 : State (.twoDevices 1) ℕ ℕ)
      [.configUpdate (settings 200), .slot] = some s ∧
    (slotCb samplePhy s).2.map Prod.snd = [248, 248] ∧
    s.timeoutOf samplePhy (0 : Fin 2) = 148 ∧ s.timeoutOf samplePhy (1 : Fin 2) = 248 :=
  ⟨_, rfl, by decide +kernel, by decide +kernel, by decide +kernel⟩

end UwbApps.TwrNodeTdma
