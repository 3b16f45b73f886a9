import Mathlib.Data.Fintype.Basic
import UwbApps.Lib.Deferred

/-!
# Configuration updates in four applications

`rtdoa_tag`, `rtdoa_node`, `streaming` and `twr_node_tdma` each register an update callback for
configuration commits.  It gives the new configuration to the radio at once when the clock
calibration looks stuck, and otherwise sets `uwb_config_updated` for a slot callback to act on.

Each application is an instance of `Deferred.App`: its lists of radio calls, in source order, and
the two tests before them.  `config_applied_iff` says when its radio has what was last committed.
-/

set_option autoImplicit false

open Run

namespace UwbApps.Config

/-- What the callbacks look at in `struct uwb_ccp_instance`. -/
structure Ccp where
  /-- `dpl_sem_get_count(&ccp->sem)`. -/
  semCount : UInt16
  /-- `ccp->status.valid`. -/
  valid : Bool
deriving DecidableEq

/-- A part of the configuration that goes to the radio by a call of its own: what
`uwb_mac_config` takes from `inst->config`, and `inst->config.txrf`. -/
inductive Part (n : ℕ)
  | mac (dev : Fin n)
  | txrf (dev : Fin n)
deriving DecidableEq

instance (n : ℕ) : Fintype (Part n) :=
  .ofList ((List.finRange n).map Part.mac ++ (List.finRange n).map Part.txrf) fun i ↦ by
    cases i <;> simp

/-- The settings of a part: `μ` for the MAC layer, `τ` for the transmitter. -/
def Part.Value {n : ℕ} (μ τ : Type) : Part n → Type
  | .mac _ => μ
  | .txrf _ => τ

instance {n : ℕ} {μ τ : Type} [DecidableEq μ] [DecidableEq τ] :
    (i : Part n) → DecidableEq (i.Value μ τ)
  | .mac _ => inferInstanceAs (DecidableEq μ)
  | .txrf _ => inferInstanceAs (DecidableEq τ)

/-- What the callbacks have the radios do. -/
inductive UwbCall (n : ℕ)
  | uwbPhyForcetrxoff (dev : Fin n)
  | uwbMacConfig (dev : Fin n)
  | uwbTxrfConfig (dev : Fin n)
  /-- `uwb_set_autoack`, on or off by the frame filter. -/
  | uwbSetAutoack (dev : Fin n)
  | uwbStartRx (dev : Fin n)
deriving DecidableEq

/-- The part of the configuration a call applies. -/
def UwbCall.part {n : ℕ} : UwbCall n → Option (Part n)
  | .uwbMacConfig dev => some (.mac dev)
  | .uwbTxrfConfig dev => some (.txrf dev)
  | _ => none

/-- The parts that a list of calls applies, in order. -/
def parts {n : ℕ} (calls : List (UwbCall n)) : List (Part n) := calls.filterMap UwbCall.part

/-! ## `rtdoa_tag` and `rtdoa_node` -/

namespace Rtdoa

/-- The test in `uwb_config_upd_cb`. -/
def uwbConfigUpdCbTest (ccp : Ccp) : Bool := ccp.semCount = 0 || !ccp.valid

/-- What `uwb_config_upd_cb` does at once.  The receiver is started if the semaphore is still
taken. -/
def uwbConfigUpdCbCalls : List (UwbCall 1) := [.uwbMacConfig 0, .uwbTxrfConfig 0, .uwbStartRx 0]

/-- What the slot callback does with `uwb_config_updated` set. -/
def slotCalls : List (UwbCall 1) := [.uwbMacConfig 0, .uwbTxrfConfig 0]

theorem mem_parts : ∀ i : Part 1, i ∈ parts uwbConfigUpdCbCalls := by decide

end Rtdoa

/-- `rtdoa_tag`: `uwb_config_upd_cb` and `nmgr_slot_timer_cb`, which looks at the flag before the
semaphore. -/
def rtdoaTag : Deferred.App (Part 1) Ccp where
  atOnce := Rtdoa.uwbConfigUpdCbTest
  now := parts Rtdoa.uwbConfigUpdCbCalls
  reaches _ := true
  slot := parts Rtdoa.slotCalls
  mem_now := Rtdoa.mem_parts

/-- `rtdoa_node`: `uwb_config_upd_cb` and `rtdoa_slot_timer_cb`. -/
def rtdoaNode : Deferred.App (Part 1) Ccp where
  atOnce := Rtdoa.uwbConfigUpdCbTest
  now := parts Rtdoa.uwbConfigUpdCbCalls
  reaches ccp := ccp.semCount ≠ 0
  slot := parts Rtdoa.slotCalls
  mem_now := Rtdoa.mem_parts

/-! ## `streaming` -/

namespace Streaming

/-- What `uwb_config_updated_func` does at once. -/
def uwbConfigUpdatedFuncCalls : List (UwbCall 1) :=
  [.uwbPhyForcetrxoff 0, .uwbMacConfig 0, .uwbTxrfConfig 0, .uwbStartRx 0]

/-- What `stream_slot_cb` does with `uwb_config_updated` set. -/
def streamSlotCbCalls : List (UwbCall 1) := [.uwbMacConfig 0, .uwbTxrfConfig 0]

end Streaming

/-- `streaming`: `uwb_config_updated_func` and `stream_slot_cb`. -/
def streaming : Deferred.App (Part 1) Ccp where
  atOnce ccp := ccp.semCount = 0
  now := parts Streaming.uwbConfigUpdatedFuncCalls
  reaches ccp := ccp.semCount ≠ 0
  slot := parts Streaming.streamSlotCbCalls
  mem_now := by decide

/-! ## `twr_node_tdma` -/

namespace TwrNodeTdma

/-- The builds: one radio, or `UWB_DEVICE_1` as well, where `inst` is the device of the TDMA
instance whose slots are used. -/
inductive Build
  | oneDevice
  | twoDevices (inst : Fin 2)
deriving DecidableEq

def Build.devices : Build → ℕ
  | .oneDevice => 1
  | .twoDevices _ => 2

/-- `tdma->dev_inst`. -/
def Build.inst : (b : Build) → Fin b.devices
  | .oneDevice => (0 : Fin 1)
  | .twoDevices inst => inst

/-- `uwb_mac_config` and `uwb_txrf_config` of a device. -/
def configCalls {n : ℕ} (dev : Fin n) : List (UwbCall n) :=
  [.uwbMacConfig dev, .uwbTxrfConfig dev]

/-- What both callbacks do for the second device. -/
def device1Calls : (b : Build) → List (UwbCall b.devices)
  | .oneDevice => []
  | .twoDevices _ => configCalls (1 : Fin 2)

/-- `uwb_dev_idx_lookup(0)`. -/
def device0 : (b : Build) → Fin b.devices
  | .oneDevice => (0 : Fin 1)
  | .twoDevices _ => (0 : Fin 2)

/-- What `uwb_config_updated_func` does at once. -/
def uwbConfigUpdatedFuncCalls (b : Build) : List (UwbCall b.devices) :=
  [.uwbPhyForcetrxoff (device0 b)] ++ configCalls (device0 b) ++ device1Calls b ++
    [.uwbSetAutoack (device0 b), .uwbStartRx (device0 b)]

/-- What `slot_cb` does with `uwb_config_updated` set.  The flag is cleared before the last. -/
def slotCbCalls (b : Build) : List (UwbCall b.devices) :=
  configCalls b.inst ++ device1Calls b ++ [.uwbSetAutoack b.inst]

theorem mem_parts : (b : Build) → ∀ i, i ∈ parts (uwbConfigUpdatedFuncCalls b)
  | .oneDevice =>
    have h : ∀ i : Part 1, i ∈ [.mac 0, .txrf 0] := by decide
    h
  | .twoDevices _ =>
    have h : ∀ i : Part 2, i ∈ [.mac 0, .txrf 0, .mac 1, .txrf 1] := by decide
    h

end TwrNodeTdma

/-- `twr_node_tdma`: `uwb_config_updated_func` and `slot_cb`. -/
def twrNodeTdma (b : TwrNodeTdma.Build) : Deferred.App (Part b.devices) Ccp where
  atOnce ccp := ccp.semCount = 0
  now := parts (TwrNodeTdma.uwbConfigUpdatedFuncCalls b)
  reaches ccp := ccp.semCount ≠ 0
  slot := parts (TwrNodeTdma.slotCbCalls b)
  mem_now := TwrNodeTdma.mem_parts b

/-! ## When no commit is lost -/

/-- The applications that defer their configuration. -/
inductive AppId
  | rtdoaTag
  | rtdoaNode
  | streaming
  | twrNodeTdma (b : TwrNodeTdma.Build)
deriving DecidableEq

/-- How many radios the application configures. -/
def AppId.devices : AppId → ℕ
  | .twrNodeTdma b => b.devices
  | _ => 1

def AppId.app : (a : AppId) → Deferred.App (Part a.devices) Ccp
  | .rtdoaTag => Config.rtdoaTag
  | .rtdoaNode => Config.rtdoaNode
  | .streaming => Config.streaming
  | .twrNodeTdma b => Config.twrNodeTdma b

/-- **When no commit is lost.**  Along every run of every application from start-up, the radio has
what was last committed whenever the flag is clear and neither callback is under way, exactly if
the slot callback never clears the flag over a part that a commit has changed since. -/
theorem config_applied_iff (a : AppId) {μ τ : Type}
    {config : ∀ i : Part a.devices, i.Value μ τ} {ccp : Ccp}
    {es : List (Deferred.Event (fun i : Part a.devices ↦ i.Value μ τ) Ccp)}
    {s : Deferred.State (fun i : Part a.devices ↦ i.Value μ τ) Ccp}
    (hrun : run (Deferred.step a.app) (Deferred.boot config ccp) es = some s) :
    (∀ pre post t, es = pre ++ post →
        run (Deferred.step a.app) (Deferred.boot config ccp) pre = some t → t.Quiet →
        t.radio = t.config) ↔
      Each (Deferred.step a.app) (fun s e ↦ ¬ Deferred.ClearsOver s e)
        (Deferred.boot config ccp) es :=
  Deferred.settled_iff hrun

/-- The same settings for every part. -/
def settings {n : ℕ} (k : ℕ) : ∀ i : Part n, i.Value ℕ ℕ
  | .mac _ => k
  | .txrf _ => k

/-- A commit is deferred, and the slot callback applies it. -/
def deferAndApply (n : ℕ) : List (Deferred.Event (fun i : Part n ↦ i.Value ℕ ℕ) Ccp) :=
  [.write (settings 1), .commitStep, .commitStep, .slotStep, .slotStep, .slotStep, .slotStep]

theorem config_applied_after_slot :
    ∃ s, run (Deferred.step rtdoaNode) (Deferred.boot (settings 0) ⟨1, true⟩)
        (deferAndApply 1 ++ [.slotStep]) = some s ∧ s.radio = s.config := by
  have hcond : Each (Deferred.step rtdoaNode) (fun s e ↦ ¬ Deferred.ClearsOver s e)
      (Deferred.boot (settings 0) ⟨1, true⟩) (deferAndApply 1 ++ [.slotStep]) := by
    decide
  refine ⟨_, rfl, ?_⟩
  exact (config_applied_iff .rtdoaNode rfl).mpr hcond _ [] _ (List.append_nil _).symm rfl
    ⟨rfl, rfl, rfl⟩

/-- A second commit is deferred after the slot callback has applied the first and before it clears
the flag. -/
def commitBeforeClear (n : ℕ) : List (Deferred.Event (fun i : Part n ↦ i.Value ℕ ℕ) Ccp) :=
  deferAndApply n ++ [.write (settings 2), .commitStep, .commitStep, .slotStep]

/-- The application ends up quiet with something else on the radio than was committed. -/
def LosesCommit (n : ℕ) (app : Deferred.App (Part n) Ccp)
    (es : List (Deferred.Event (fun i : Part n ↦ i.Value ℕ ℕ) Ccp)) : Prop :=
  ∃ s, run (Deferred.step app) (Deferred.boot (settings 0) ⟨1, true⟩) es = some s ∧
    s.Quiet ∧ s.radio ≠ s.config

/-- The flag that the second commit has set is cleared with the first one's. -/
theorem losesCommit_of_commitBeforeClear :
    LosesCommit 1 rtdoaTag (commitBeforeClear 1) ∧ LosesCommit 1 rtdoaNode (commitBeforeClear 1) ∧
      LosesCommit 1 streaming (commitBeforeClear 1) ∧
      LosesCommit 1 (twrNodeTdma .oneDevice) (commitBeforeClear 1) := by
  refine ⟨?_, ?_, ?_, ?_⟩ <;>
    exact ⟨_, rfl, ⟨rfl, rfl, rfl⟩, fun h ↦ absurd (congrFun h (.mac 0)) (by decide)⟩

end UwbApps.Config
