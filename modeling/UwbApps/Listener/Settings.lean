import UwbApps.Lib.Run
import Mathlib.Data.Nat.Notation

/-!
# The settings of the listener

`lstnr_set` keeps the settings as strings; `lstnr_commit` reads them into `local_conf` and puts the
event on the queue whose callback, `uwb_config_update`, turns the diagnostics of the devices on or
off.  With `ETH_0` a commit reads an address as well, and returns early when it is none.

`reporting_iff` says when the devices do what the settings say: when no commit returns early that
has changed `VERBOSE_RX_DIAG` with no event on the queue.
-/

set_option autoImplicit false

open Run

namespace UwbApps.Listener.Settings

/-- What the listener is built with, and what it takes from its libraries. -/
structure Build where
  /-- One less than `N_DW_INSTANCES`. -/
  moreInstances : ℕ
  /-- `ETH_0`. -/
  eth0 : Bool
  /-- `CIR_MAX_SIZE`, with `CIR_ENABLED`. -/
  cirMaxSize : Option UInt16
  /-- `conf_value_from_str` with `CONF_INT16`, as it is stored. -/
  confInt16 : String → Option UInt16
  /-- `conf_value_from_str` with `CONF_STRING`: what a field of so many bytes then holds. -/
  confString : ℕ → String → Option String
  /-- `mn_inet_pton` with `MN_AF_INET`. -/
  mnInetPton : String → Option UInt32
  htons : UInt16 → UInt16
  confString_of_lt : ∀ size val, val.utf8ByteSize < size → confString size val = some val
  eq_of_confString : ∀ size val new, confString size val = some new →
    val.utf8ByteSize < size ∧ new = val

/-- `N_DW_INSTANCES`. -/
abbrev Build.nDwInstances (b : Build) : ℕ := b.moreInstances + 1

/-- `struct lstnr_config`. -/
structure LstnrConfig where
  accSamplesToLoad : UInt16
  verbose : UInt16
deriving DecidableEq

/-- `struct lstnr_config_s`. -/
structure LstnrConfigS where
  accSamples : String
  verbose : String
  udpTxAddr : String
  udpTxPort : String
deriving DecidableEq

/-- `struct mn_sockaddr_in`, as far as `lstnr_commit` fills it in. -/
structure MnSockaddrIn where
  msinPort : UInt16
  msinAddr : UInt32
deriving DecidableEq

structure State (n : ℕ) where
  localConf : LstnrConfig
  lstnrConfig : LstnrConfigS
  udpTxAddr : UInt32
  udpTxPort : UInt16
  /-- `net_sinp`. -/
  netSin : Option MnSockaddrIn
  /-- The event of `uwb_config_updated` is on the queue. -/
  evQueued : Bool
  /-- `config.rxdiag_enable` of each device. -/
  rxdiagEnable : Fin n → Bool

/-- What `lstnr_set` returns. -/
inductive SetRc
  | ok
  | invalid
  | enoent
deriving DecidableEq

/-- `(verbose & VERBOSE_RX_DIAG) != 0`. -/
def rxDiagBit (verbose : UInt16) : Bool := verbose &&& 0x0002 ≠ 0

variable {n : ℕ}

/-- A setting as the field says, if the string fits. -/
def setField (s : State n) (new : Option LstnrConfigS) : State n × SetRc :=
  match new with
  | some lstnrConfig => ({ s with lstnrConfig }, .ok)
  | none => (s, .invalid)

/-- `lstnr_set`. -/
def lstnrSet (b : Build) (s : State n) (argv : List String) (val : String) : State n × SetRc :=
  let c := s.lstnrConfig
  if argv = ["acc_samples"] then
    setField s ((b.confString 8 val).map fun accSamples ↦ { c with accSamples })
  else if argv = ["verbose"] then
    setField s ((b.confString 8 val).map fun verbose ↦ { c with verbose })
  else if b.eth0 ∧ argv = ["udp_tx_addr"] then
    setField s ((b.confString 16 val).map fun udpTxAddr ↦ { c with udpTxAddr })
  else if b.eth0 ∧ argv = ["udp_tx_port"] then
    setField s ((b.confString 8 val).map fun udpTxPort ↦ { c with udpTxPort })
  else (s, .enoent)

/-- `uwb_config_updated`.  An event that is on the queue stays there once. -/
def uwbConfigUpdated (s : State n) : State n := { s with evQueued := true }

/-- The part of `lstnr_commit` that reads `acc_samples` and `verbose`. -/
def commitLocalConf (b : Build) (s : State n) : State n :=
  let acc := (b.confInt16 s.lstnrConfig.accSamples).getD s.localConf.accSamplesToLoad
  let acc := b.cirMaxSize.elim acc fun size ↦ if acc > size then size else acc
  { s with
    localConf := ⟨acc, (b.confInt16 s.lstnrConfig.verbose).getD s.localConf.verbose⟩ }

/-- The part of `lstnr_commit` behind `ETH_0`: nothing when the address is none. -/
def commitAddr (b : Build) (s : State n) : Option (State n) :=
  (b.mnInetPton s.lstnrConfig.udpTxAddr).map fun udpTxAddr ↦
    let udpTxPort := (b.confInt16 s.lstnrConfig.udpTxPort).getD s.udpTxPort
    { s with udpTxAddr, udpTxPort, netSin := some ⟨b.htons udpTxPort, udpTxAddr⟩ }

/-- `lstnr_commit`. -/
def lstnrCommit (b : Build) (s : State n) : State n :=
  let s := commitLocalConf b s
  if b.eth0 then
    match commitAddr b s with
    | none => s
    | some s => uwbConfigUpdated s
  else uwbConfigUpdated s

/-- The line that `uwb_config_update` and `main` have for each device. -/
def setRxdiagEnable (s : State n) : State n :=
  { s with rxdiagEnable := fun _ ↦ rxDiagBit s.localConf.verbose }

/-- `uwb_config_update`, run from the queue. -/
def uwbConfigUpdate (s : State n) : State n := setRxdiagEnable { s with evQueued := false }

/-- What can happen next. -/
inductive Event
  | set (argv : List String) (val : String)
  | commit
  /-- The event queue runs `uwb_config_update`. -/
  | update

def step (b : Build) (s : State n) : Event → Option (State n)
  | .set argv val => some (lstnrSet b s argv val).1
  | .commit => some (lstnrCommit b s)
  | .update => if s.evQueued then some (uwbConfigUpdate s) else none

/-- With no event on the queue, the devices are set as the settings say. -/
def Reporting (s : State n) : Prop :=
  s.evQueued = false → ∀ i, s.rxdiagEnable i = rxDiagBit s.localConf.verbose

/-- The commit has no address to read, no event is on the queue, and `VERBOSE_RX_DIAG` is not what
it was. -/
def LeavesRadio (b : Build) (s : State n) : Event → Prop
  | .commit => b.eth0 = true ∧ b.mnInetPton s.lstnrConfig.udpTxAddr = none ∧
      s.evQueued = false ∧
      (b.confInt16 s.lstnrConfig.verbose).any (rxDiagBit · ≠ rxDiagBit s.localConf.verbose)
  | _ => False

instance (b : Build) (s : State n) : (e : Event) → Decidable (LeavesRadio b s e)
  | .commit => inferInstanceAs (Decidable (_ ∧ _))
  | .set _ _ | .update => isFalse id

/-! ## What a step does to the settings in force -/

/-- A set changes the strings only. -/
theorem lstnrSet_eq (b : Build) (s : State n) (argv : List String) (val : String) :
    ∃ lstnrConfig, (lstnrSet b s argv val).1 = { s with lstnrConfig } := by
  have hfield : ∀ new, ∃ lstnrConfig, (setField s new).1 = { s with lstnrConfig } := by
    rintro (_ | new)
    · exact ⟨s.lstnrConfig, rfl⟩
    · exact ⟨new, rfl⟩
  rw [lstnrSet]
  split
  · exact hfield _
  split
  · exact hfield _
  split
  · exact hfield _
  split
  · exact hfield _
  · exact ⟨s.lstnrConfig, rfl⟩

/-- A commit that gets as far as the event has it put on the queue. -/
theorem evQueued_lstnrCommit {b : Build} {s : State n}
    (h : ¬ (b.eth0 = true ∧ b.mnInetPton s.lstnrConfig.udpTxAddr = none)) :
    (lstnrCommit b s).evQueued = true := by
  rw [lstnrCommit]
  by_cases heth : b.eth0 = true
  · obtain ⟨addr, haddr⟩ := Option.ne_none_iff_exists'.mp fun hnone ↦ h ⟨heth, hnone⟩
    have haddr' : commitAddr b (commitLocalConf b s) ≠ none := by
      simp [commitAddr, commitLocalConf, haddr]
    rw [if_pos heth]
    split
    · next hnone => exact absurd hnone haddr'
    · rfl
  · rw [if_neg heth]
    rfl

/-- A commit that returns early has read `acc_samples` and `verbose`. -/
theorem lstnrCommit_of_invalid {b : Build} {s : State n} (heth : b.eth0 = true)
    (haddr : b.mnInetPton s.lstnrConfig.udpTxAddr = none) :
    lstnrCommit b s = commitLocalConf b s := by
  have hnone : commitAddr b (commitLocalConf b s) = none := by
    simp [commitAddr, commitLocalConf, haddr]
  rw [lstnrCommit, if_pos heth, hnone]

/-- After a commit the bit is as before, unless the string says otherwise. -/
theorem rxDiagBit_commit_iff (b : Build) (s : State n) :
    rxDiagBit (commitLocalConf b s).localConf.verbose = rxDiagBit s.localConf.verbose ↔
      ¬ (b.confInt16 s.lstnrConfig.verbose).any
        (rxDiagBit · ≠ rxDiagBit s.localConf.verbose) := by
  rw [commitLocalConf]
  cases b.confInt16 s.lstnrConfig.verbose <;> simp

/-- **One step** keeps radio and settings in agreement, unless it is a commit that leaves the radio
as it was. -/
theorem reporting_step_iff {b : Build} {s t : State b.nDwInstances} {e : Event}
    (h : Reporting s) (hstep : step b s e = some t) : Reporting t ↔ ¬ LeavesRadio b s e := by
  cases e with
  | set argv val =>
    obtain ⟨lstnrConfig, heq⟩ := lstnrSet_eq b s argv val
    cases hstep
    rw [heq]
    exact iff_of_true h id
  | update =>
    rw [step] at hstep
    split at hstep <;> cases hstep
    exact iff_of_true (fun _ _ ↦ rfl) id
  | commit =>
    cases hstep
    by_cases hearly : b.eth0 = true ∧ b.mnInetPton s.lstnrConfig.udpTxAddr = none
    · rw [lstnrCommit_of_invalid hearly.1 hearly.2]
      by_cases hqueued : s.evQueued = true
      · refine iff_of_true (fun hno ↦ ?_) fun hleaves ↦ ?_
        · exact absurd (hqueued.symm.trans hno) (by decide)
        · exact absurd (hqueued.symm.trans hleaves.2.2.1) (by decide)
      · rw [Bool.not_eq_true] at hqueued
        have hnow := h hqueued
        have hbit := rxDiagBit_commit_iff b s
        constructor
        · intro hrep hleaves
          exact hbit.mp ((hrep hqueued 0).symm.trans (hnow 0)) hleaves.2.2.2
        · intro hno _ i
          have hsame := hbit.mpr fun hany ↦ hno ⟨hearly.1, hearly.2, hqueued, hany⟩
          exact (hnow i).trans hsame.symm
    · refine iff_of_true (fun hno ↦ ?_) fun hleaves ↦ hearly ⟨hleaves.1, hleaves.2.1⟩
      rw [evQueued_lstnrCommit hearly] at hno
      cases hno

/-- **When radio and settings agree.**  From `main` on, whatever was loaded before, each device's
`rxdiag_enable` is as `verbose` says in every state with no event on the queue, exactly if no commit
of the run returns early with `VERBOSE_RX_DIAG` changed and no event on the queue. -/
theorem reporting_iff {b : Build} {loaded s : State b.nDwInstances} {es : List Event}
    (hrun : run (step b) (setRxdiagEnable loaded) es = some s) :
    (∀ pre post t, es = pre ++ post → run (step b) (setRxdiagEnable loaded) pre = some t →
        Reporting t) ↔
      Each (step b) (fun s e ↦ ¬ LeavesRadio b s e) (setRxdiagEnable loaded) es :=
  always_iff_each (fun _ _ _ ↦ reporting_step_iff) (fun _ _ ↦ rfl) hrun

/-- One device, and libraries that know a few strings. -/
def sampleBuild : Build where
  moreInstances := 0
  eth0 := true
  cirMaxSize := some 1016
  confInt16 val :=
    if val = "0x0" then some 0 else if val = "0x2" then some 2 else
      if val = "8787" then some 8787 else none
  mnInetPton val := if val = "192.168.10.255" then some 0xff0aa8c0 else none
  htons port := port >>> 8 ||| port <<< 8
  confString size val := if val.utf8ByteSize < size then some val else none
  confString_of_lt size val h := if_pos h
  eq_of_confString size val new h := by
    split at h <;> cases h
    exact ⟨‹_›, rfl⟩

/-- The settings the program starts with. -/
def sampleLoaded : State sampleBuild.nDwInstances where
  localConf := ⟨0, 0⟩
  lstnrConfig := ⟨"0", "0x0", "192.168.10.255", "8787"⟩
  udpTxAddr := 0
  udpTxPort := 0
  netSin := none
  evQueued := false
  rxdiagEnable _ := false

theorem reporting_after_verbose :
    ∃ s, run (step sampleBuild) (setRxdiagEnable sampleLoaded)
        [.set ["verbose"] "0x2", .commit, .update] = some s ∧ Reporting s := by
  obtain ⟨s, hs⟩ := Option.isSome_iff_exists.mp (show (run (step sampleBuild)
    (setRxdiagEnable sampleLoaded) [.set ["verbose"] "0x2", .commit, .update]).isSome by decide)
  exact ⟨s, hs, (reporting_iff hs).mpr (by decide) _ [] s (List.append_nil _).symm hs⟩

/-- A commit with a bad address turns the diagnostics on in the report and not on the radio. -/
theorem not_reporting_after_bad_address :
    ∃ s, run (step sampleBuild) (setRxdiagEnable sampleLoaded)
        [.set ["udp_tx_addr"] "localhost", .set ["verbose"] "0x2", .commit] = some s ∧
      ¬ Reporting s := by
  refine ⟨_, rfl, fun h ↦ ?_⟩
  exact absurd (h (by decide) 0) (by decide)

end UwbApps.Listener.Settings
