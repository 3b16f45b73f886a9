import UwbApps.Config.Callbacks
import UwbApps.Lib.DeferredProgram

/-!
# Which application can lose a configuration

`twr_nranges_tdma` defers its configuration as the four applications of `Config.Callbacks` do, with
one difference in `slot_cb`: `uwb_config_updated` is cleared first, and the radio configured behind
it.

`never_loses_iff` compares the five over all interleavings of commits, update callbacks and slot
callbacks: that order is what keeps every commit, and the other four can each lose one.
-/

set_option autoImplicit false

open Run

namespace UwbApps.Config

namespace TwrNrangesTdma

/-- The only radio. -/
def udev : Fin 1 := Fin.last 0

/-- What `uwb_config_updated_cb` does at once. -/
def uwbConfigUpdatedCbCalls : List (UwbCall 1) :=
  [.uwbPhyForcetrxoff udev, .uwbMacConfig udev, .uwbTxrfConfig udev, .uwbStartRx udev]

/-- What `slot_cb` does with `uwb_config_updated` set, once it has cleared it. -/
def slotCbCalls : List (UwbCall 1) :=
  [.uwbPhyForcetrxoff udev, .uwbMacConfig udev, .uwbTxrfConfig udev]

theorem mem_parts : ∀ i : Part 1, i ∈ parts uwbConfigUpdatedCbCalls := by decide

theorem mem_parts_slotCbCalls : ∀ i : Part 1, i ∈ parts slotCbCalls := by decide

end TwrNrangesTdma

/-- `twr_nranges_tdma`: `uwb_config_updated_cb` and `slot_cb`. -/
def twrNrangesTdma : Deferred.Prog (Part 1) Ccp where
  atOnce ccp := ccp.semCount = 0
  now := parts TwrNrangesTdma.uwbConfigUpdatedCbCalls
  reaches ccp := ccp.semCount ≠ 0
  slot := .clear :: (parts TwrNrangesTdma.slotCbCalls).map .apply
  mem_now := TwrNrangesTdma.mem_parts

/-- The applications with `uwb_config_updated`. -/
inductive TdmaApp
  | clearsLast (a : AppId)
  | twrNrangesTdma
deriving DecidableEq

/-- How many radios the application configures. -/
def TdmaApp.devices : TdmaApp → ℕ
  | .clearsLast a => a.devices
  | .twrNrangesTdma => 1

def TdmaApp.prog : (a : TdmaApp) → Deferred.Prog (Part a.devices) Ccp
  | .clearsLast a => .ofApp a.app
  | .twrNrangesTdma => Config.twrNrangesTdma

/-! ## The order of the calls -/

/-- Every build has a first radio. -/
theorem nonempty_part (a : AppId) : Nonempty (Part a.devices) := by
  rcases a with _ | _ | _ | (_ | _)
  · exact ⟨Part.mac (0 : Fin 1)⟩
  · exact ⟨Part.mac (0 : Fin 1)⟩
  · exact ⟨Part.mac (0 : Fin 1)⟩
  · exact ⟨Part.mac (0 : Fin 1)⟩
  · exact ⟨Part.mac (0 : Fin 2)⟩

/-- Only `twr_nranges_tdma` applies every part behind the clear. -/
theorem clearsFirst_iff (a : TdmaApp) :
    Deferred.ClearsFirst a.prog.slot ↔ a = .twrNrangesTdma := by
  cases a with
  | clearsLast a =>
    have := nonempty_part a
    exact iff_of_false (Deferred.not_clearsFirst_ofApp a.app) nofun
  | twrNrangesTdma =>
    refine iff_of_true ⟨fun i ↦ ?_, ?_⟩ rfl
    · exact List.mem_map_of_mem (TwrNrangesTdma.mem_parts_slotCbCalls i)
    · exact Deferred.clearsFirst_map_apply _

/-- With a free semaphore and a valid clock calibration a commit is deferred, and the slot callback
gets as far as the flag. -/
theorem defers (a : TdmaApp) :
    a.prog.reaches ⟨1, true⟩ = true ∧ a.prog.atOnce ⟨1, true⟩ = false := by
  rcases a with (_ | _ | _ | _) | _
  · exact ⟨rfl, rfl⟩
  · exact ⟨rfl, rfl⟩
  · exact ⟨rfl, rfl⟩
  · exact ⟨rfl, rfl⟩
  · exact ⟨rfl, rfl⟩

instance {n : ℕ} {μ τ : Type} [Nontrivial μ] [Nontrivial τ] :
    (i : Part n) → Nontrivial (i.Value μ τ)
  | .mac _ => inferInstanceAs (Nontrivial μ)
  | .txrf _ => inferInstanceAs (Nontrivial τ)

/-- **Which application never loses a commit.**  In every run from start-up, however commits,
update callbacks and slot callbacks interleave, the radio has what was last committed whenever the
flag is clear and neither callback is under way: that holds of `twr_nranges_tdma` and of none of
the others. -/
theorem never_loses_iff (a : TdmaApp) {μ τ : Type} [Nontrivial μ] [Nontrivial τ] :
    (∀ (config : ∀ i : Part a.devices, i.Value μ τ) (ccp : Ccp)
        (es : List (Deferred.Event (fun i : Part a.devices ↦ i.Value μ τ) Ccp))
        (s : Deferred.PState (fun i : Part a.devices ↦ i.Value μ τ) Ccp),
        run (Deferred.pstep a.prog) (Deferred.pboot config ccp) es = some s → s.Quiet →
        s.radio = s.config) ↔
      a = .twrNrangesTdma := by
  obtain ⟨hreaches, hlater⟩ := defers a
  rw [← clearsFirst_iff a]
  exact Deferred.settled_iff_clearsFirst hreaches hlater

/-- `streaming` has runs that lose a commit. -/
theorem never_loses_iff_streaming :
    ¬ ∀ (config : ∀ i : Part 1, i.Value ℕ Bool) (ccp : Ccp)
        (es : List (Deferred.Event (fun i : Part 1 ↦ i.Value ℕ Bool) Ccp))
        (s : Deferred.PState (fun i : Part 1 ↦ i.Value ℕ Bool) Ccp),
        run (Deferred.pstep (TdmaApp.clearsLast .streaming).prog) (Deferred.pboot config ccp) es =
            some s → s.Quiet → s.radio = s.config :=
  fun h ↦ nomatch (never_loses_iff (.clearsLast .streaming) (μ := ℕ) (τ := Bool)).mp h

end UwbApps.Config
