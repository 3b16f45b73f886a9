import UwbApps.Lib.Conf
import UwbApps.Listener.Settings

/-!
# The settings of the listener across a reboot

`lstnr_export` hands the settings to the configuration storage, and on the next start `conf_load`
gives them to `lstnr_set` and calls `lstnr_commit` before `main` sets up the devices.  So the
listener is an instance of `Conf.Program`, whose steps of its own are those of `Settings.step`.

The strings are restored.  `reboot_restores` says when the settings in force are so too: a string
that is no number or no address leaves in force what was there before, and after a reboot that is
what the program starts with.
-/

set_option autoImplicit false

open Run

namespace UwbApps.Listener.Settings

attribute [ext] LstnrConfig

/-- The fields of `struct lstnr_config_s`. -/
inductive Setting
  | accSamples
  | verbose
  | udpTxAddr
  | udpTxPort
deriving DecidableEq

/-- What `lstnr_set` and `lstnr_get` compare `argv[0]` with. -/
def Setting.key : Setting → String
  | .accSamples => "acc_samples"
  | .verbose => "verbose"
  | .udpTxAddr => "udp_tx_addr"
  | .udpTxPort => "udp_tx_port"

/-- The name in `lstnr_export`. -/
def Setting.exportName : Setting → String
  | .accSamples => "lstnr/acc_samples"
  | .verbose => "lstnr/verbose"
  | .udpTxAddr => "lstnr/udp_tx_addr"
  | .udpTxPort => "lstnr/udp_tx_port"

/-- The size of the field. -/
def Setting.size : Setting → ℕ
  | .udpTxAddr => 16
  | _ => 8

def LstnrConfigS.get (c : LstnrConfigS) : Setting → String
  | .accSamples => c.accSamples
  | .verbose => c.verbose
  | .udpTxAddr => c.udpTxAddr
  | .udpTxPort => c.udpTxPort

def LstnrConfigS.put (c : LstnrConfigS) (val : String) : Setting → LstnrConfigS
  | .accSamples => { c with accSamples := val }
  | .verbose => { c with verbose := val }
  | .udpTxAddr => { c with udpTxAddr := val }
  | .udpTxPort => { c with udpTxPort := val }

theorem get_put_self (c : LstnrConfigS) (val : String) (f : Setting) :
    (c.put val f).get f = val := by
  cases f <;> rfl

theorem get_put_of_ne (c : LstnrConfigS) (val : String) {f g : Setting} (h : g ≠ f) :
    (c.put val f).get g = c.get g := by
  cases f <;> cases g <;> first | rfl | exact absurd rfl h

/-- The settings of a build. -/
def Build.settings (b : Build) : List Setting :=
  [.accSamples, .verbose] ++ if b.eth0 then [.udpTxAddr, .udpTxPort] else []

theorem mem_settings_of_eth0 {b : Build} (h : b.eth0 = true) (f : Setting) : f ∈ b.settings := by
  rw [Build.settings, if_pos h]
  cases f <;> decide

theorem accSamples_mem_settings (b : Build) : Setting.accSamples ∈ b.settings :=
  List.mem_append_left _ List.mem_cons_self

theorem verbose_mem_settings (b : Build) : Setting.verbose ∈ b.settings :=
  List.mem_append_left _ (List.mem_cons_of_mem _ List.mem_cons_self)

/-- What the program starts with: `MYNEWT_VAL(CIR_NUM_SAMPLES)`, and the diagnostics of the devices
as their driver has them. -/
structure Boot (b : Build) where
  cirNumSamples : String
  rxdiagEnable : Fin b.nDwInstances → Bool
  fits : cirNumSamples.utf8ByteSize < 8

/-- Before `conf_load`. -/
def Boot.state {b : Build} (B : Boot b) : State b.nDwInstances where
  localConf := ⟨0, 0⟩
  lstnrConfig := ⟨B.cirNumSamples, "0x0", "192.168.10.255", "8787"⟩
  udpTxAddr := 0
  udpTxPort := 0
  netSin := none
  evQueued := false
  rxdiagEnable := B.rxdiagEnable

variable {n : ℕ}

/-- `lstnr_get`. -/
def lstnrGet (b : Build) (s : State n) (argv : List String) : Option String :=
  let c := s.lstnrConfig
  if argv = ["acc_samples"] then some c.accSamples
  else if argv = ["verbose"] then some c.verbose
  else if b.eth0 ∧ argv = ["udp_tx_addr"] then some c.udpTxAddr
  else if b.eth0 ∧ argv = ["udp_tx_port"] then some c.udpTxPort
  else none

/-- `lstnr_export`. -/
def lstnrExport (b : Build) (s : State n) : List Conf.Line :=
  [("lstnr/acc_samples", s.lstnrConfig.accSamples), ("lstnr/verbose", s.lstnrConfig.verbose)] ++
    if b.eth0 then
      [("lstnr/udp_tx_addr", s.lstnrConfig.udpTxAddr),
        ("lstnr/udp_tx_port", s.lstnrConfig.udpTxPort)]
    else []

/-- What `conf_load` leaves, once `lstnr_commit` and the loop of `main` have had it. -/
def start (b : Build) (s : State n) : State n := setRxdiagEnable (lstnrCommit b s)

/-! ## The handler -/

/-- `CONF_VALUE_SET` into a field. -/
def setSetting (b : Build) (s : State n) (f : Setting) (val : String) : Option (State n) :=
  (b.confString f.size val).map fun val ↦ { s with lstnrConfig := s.lstnrConfig.put val f }

theorem setSetting_eq_some {b : Build} {s t : State n} {f : Setting} {val : String}
    (h : setSetting b s f val = some t) :
    val.utf8ByteSize < f.size ∧ t = { s with lstnrConfig := s.lstnrConfig.put val f } := by
  obtain ⟨new, hnew, rfl⟩ := Option.map_eq_some_iff.mp h
  obtain ⟨hfits, rfl⟩ := b.eq_of_confString _ _ _ hnew
  exact ⟨hfits, rfl⟩

theorem key_injective {f g : Setting} (h : f.key = g.key) : f = g := by
  cases f <;> cases g <;> first | rfl | exact absurd h (by decide)

/-- `lstnr_handler`. -/
def lstnrHandler (b : Build) : Conf.Handler (State n) Setting where
  chName := "lstnr"
  fields := b.settings
  key := Setting.key
  exportName := Setting.exportName
  get s := s.lstnrConfig.get
  set := setSetting b
  Fits f val := val.utf8ByteSize < f.size
  exportName_eq f _ := by cases f <;> rfl
  key_inj _ _ _ _ := key_injective
  isSome_set s f val h := by
    rw [setSetting, b.confString_of_lt _ _ h]
    rfl
  get_set s f val t h := by
    obtain ⟨hfits, rfl⟩ := setSetting_eq_some h
    exact ⟨get_put_self _ _ _, hfits⟩
  get_set_ne s f val t h g hne := by
    obtain ⟨-, rfl⟩ := setSetting_eq_some h
    exact get_put_of_ne _ _ hne

/-- The field a name stands for. -/
theorem field_lstnrHandler (b : Build) (argv : List String) :
    (lstnrHandler (n := n) b).field argv =
      if argv = ["acc_samples"] then some .accSamples
      else if argv = ["verbose"] then some .verbose
      else if b.eth0 ∧ argv = ["udp_tx_addr"] then some .udpTxAddr
      else if b.eth0 ∧ argv = ["udp_tx_port"] then some .udpTxPort
      else none := by
  have hfields : (lstnrHandler (n := n) b).fields = b.settings := rfl
  rw [Conf.Handler.field, hfields, Build.settings]
  cases b.eth0 <;> simp [List.find?_cons, lstnrHandler, Setting.key] <;> grind

theorem lstnrSet_eq_chSet (b : Build) (s : State n) (argv : List String) (val : String) :
    (lstnrSet b s argv val).1 = (lstnrHandler b).chSet s argv val := by
  have hfield : ∀ f : Setting, (setField s ((b.confString f.size val).map fun v ↦
      s.lstnrConfig.put v f)).1 = (setSetting b s f val).getD s := by
    intro f
    rw [setSetting]
    cases b.confString f.size val <;> rfl
  rw [Conf.Handler.chSet, field_lstnrHandler, lstnrSet]
  split
  · exact hfield .accSamples
  split
  · exact hfield .verbose
  split
  · exact hfield .udpTxAddr
  split
  · exact hfield .udpTxPort
  · rfl

theorem lstnrExport_eq_chExport (b : Build) (s : State n) :
    lstnrExport b s = (lstnrHandler b).chExport s := by
  have hfields : (lstnrHandler (n := n) b).fields = b.settings := rfl
  rw [lstnrExport, Conf.Handler.chExport, hfields, Build.settings]
  cases b.eth0 <;> rfl

/-- `lstnr_get` reads the field that `lstnr_set` sets. -/
theorem lstnrGet_eq (b : Build) (s : State n) (argv : List String) :
    lstnrGet b s argv = ((lstnrHandler (n := n) b).field argv).map s.lstnrConfig.get := by
  rw [field_lstnrHandler, lstnrGet]
  split_ifs <;> rfl

/-! ## The program -/

/-- Behind the part for `local_conf`, a commit sets the address and queues the event. -/
theorem exists_lstnrCommit (b : Build) (s : State n) :
    ∃ udpTxAddr udpTxPort netSin evQueued, lstnrCommit b s =
      { commitLocalConf b s with udpTxAddr, udpTxPort, netSin, evQueued } := by
  rw [lstnrCommit]
  split
  · split
    · exact ⟨_, _, _, _, rfl⟩
    · rename_i t hsome
      obtain ⟨addr, -, rfl⟩ := Option.map_eq_some_iff.mp hsome
      exact ⟨_, _, _, _, rfl⟩
  · exact ⟨_, _, _, _, rfl⟩

/-- A commit leaves the strings alone. -/
theorem lstnrConfig_lstnrCommit (b : Build) (s : State n) :
    (lstnrCommit b s).lstnrConfig = s.lstnrConfig := by
  obtain ⟨_, _, _, _, hcommit⟩ := exists_lstnrCommit b s
  rw [hcommit, commitLocalConf]

theorem Boot.fits_get {b : Build} (B : Boot b) :
    ∀ f : Setting, (B.state.lstnrConfig.get f).utf8ByteSize < f.size
  | .accSamples => B.fits
  | .verbose => (by decide : "0x0".utf8ByteSize < 8)
  | .udpTxAddr => (by decide : "192.168.10.255".utf8ByteSize < 16)
  | .udpTxPort => (by decide : "8787".utf8ByteSize < 8)

/-- The listener, from its start on. -/
def listener {b : Build} (L : Conf.Loader (lstnrHandler (n := b.nDwInstances) b)) (B : Boot b) :
    Conf.Program (State b.nDwInstances) Event Setting where
  toHandler := lstnrHandler b
  loader := L
  boot := B.state
  own := step b
  start := start b
  fitting_boot f _ := B.fits_get f
  fitting_own s e t h hstep := by
    cases e with
    | set argv val =>
      cases hstep
      rw [lstnrSet_eq_chSet b]
      exact Conf.Handler.fitting_chSet h argv val
    | commit =>
      cases hstep
      intro f hf
      have hget := congrArg (·.get f) (lstnrConfig_lstnrCommit b s)
      exact (congrArg (·.utf8ByteSize < f.size) hget).mpr (h f hf)
    | update =>
      rw [step] at hstep
      split at hstep <;> cases hstep
      exact h
  get_start s f := congrArg (·.get f) (lstnrConfig_lstnrCommit b s)

/-- The settings in force: what the listener itself reads of them. -/
def State.applied (s : State n) : LstnrConfig × Option MnSockaddrIn := (s.localConf, s.netSin)

/-- The strings are what the settings in force come from. -/
def InForce (b : Build) (s : State n) : Prop := (lstnrCommit b s).applied = s.applied

/-- Each string says what is in force, or nothing that differs from what the program starts with
is. -/
structure Restorable (b : Build) (s : State n) : Prop where
  accSamples : (b.confInt16 s.lstnrConfig.accSamples).isSome ∨ s.localConf.accSamplesToLoad = 0
  verbose : (b.confInt16 s.lstnrConfig.verbose).isSome ∨ s.localConf.verbose = 0
  addr : b.eth0 = true ∧ (b.mnInetPton s.lstnrConfig.udpTxAddr).isSome ∨ s.netSin = none
  port : (b.confInt16 s.lstnrConfig.udpTxPort).isSome ∨
    ∀ sin ∈ s.netSin, sin.msinPort = b.htons 0

/-- What `acc_samples` is cut off at. -/
def Build.cap (b : Build) (acc : UInt16) : UInt16 :=
  b.cirMaxSize.elim acc fun size ↦ if acc > size then size else acc

theorem localConf_lstnrCommit (b : Build) (s : State n) :
    (lstnrCommit b s).localConf =
      ⟨b.cap ((b.confInt16 s.lstnrConfig.accSamples).getD s.localConf.accSamplesToLoad),
        (b.confInt16 s.lstnrConfig.verbose).getD s.localConf.verbose⟩ := by
  obtain ⟨_, _, _, _, hcommit⟩ := exists_lstnrCommit b s
  rw [hcommit]
  rfl

theorem netSin_lstnrCommit (b : Build) (s : State n) :
    (lstnrCommit b s).netSin =
      if b.eth0 then
        (b.mnInetPton s.lstnrConfig.udpTxAddr).elim s.netSin fun addr ↦
          some ⟨b.htons ((b.confInt16 s.lstnrConfig.udpTxPort).getD s.udpTxPort), addr⟩
      else s.netSin := by
  rw [lstnrCommit]
  split
  · cases haddr : b.mnInetPton s.lstnrConfig.udpTxAddr with
    | none =>
      have hnone : commitAddr b (commitLocalConf b s) = none := by
        simp [commitAddr, commitLocalConf, haddr]
      rw [hnone]
      rfl
    | some addr =>
      have hsome : ∃ t, commitAddr b (commitLocalConf b s) = some t ∧ t.netSin =
          some ⟨b.htons ((b.confInt16 s.lstnrConfig.udpTxPort).getD s.udpTxPort), addr⟩ := by
        simp [commitAddr, commitLocalConf, haddr]
      obtain ⟨t, ht, hsin⟩ := hsome
      rw [ht]
      exact hsin
  · rfl

/-- What is read, or else what was there: read again over `z` it is the same if it was read, or if
it is what `z` gives. -/
theorem getD_iff {α β : Type*} {f : α → β} {x : Option α} {a z : α} {c : β}
    (h : f (x.getD a) = c) : f (x.getD z) = c ↔ x.isSome ∨ c = f z := by
  cases x with
  | none => simp [eq_comm]
  | some y => exact iff_of_true h (Or.inl rfl)

theorem Build.cap_zero (b : Build) : b.cap 0 = 0 := by
  rw [Build.cap]
  cases b.cirMaxSize with
  | none => rfl
  | some size =>
    show (if (0 : UInt16) > size then size else 0) = 0
    exact if_neg (UInt16.not_lt.mpr UInt16.zero_le)

section Commit

variable {b : Build} {s u : State n}

/-- A commit over what the program starts with, against one over what was there: `local_conf`. -/
theorem localConf_commit_iff (hforce : (lstnrCommit b s).localConf = s.localConf)
    (hconf : ∀ f ∈ b.settings, u.lstnrConfig.get f = s.lstnrConfig.get f)
    (hlocal : u.localConf = ⟨0, 0⟩) :
    (lstnrCommit b u).localConf = s.localConf ↔
      ((b.confInt16 s.lstnrConfig.accSamples).isSome ∨ s.localConf.accSamplesToLoad = 0) ∧
        ((b.confInt16 s.lstnrConfig.verbose).isSome ∨ s.localConf.verbose = 0) := by
  have haccEq : u.lstnrConfig.accSamples = s.lstnrConfig.accSamples :=
    hconf _ (accSamples_mem_settings b)
  have hverboseEq : u.lstnrConfig.verbose = s.lstnrConfig.verbose :=
    hconf _ (verbose_mem_settings b)
  rw [localConf_lstnrCommit, LstnrConfig.ext_iff] at hforce
  rw [localConf_lstnrCommit, LstnrConfig.ext_iff, hlocal, haccEq, hverboseEq]
  have hacc := getD_iff (f := b.cap) (z := 0) hforce.1
  rw [b.cap_zero] at hacc
  exact and_congr hacc (getD_iff (f := id) hforce.2)

/-- The address and the port. -/
theorem netSin_commit_iff (hforce : (lstnrCommit b s).netSin = s.netSin)
    (hconf : ∀ f ∈ b.settings, u.lstnrConfig.get f = s.lstnrConfig.get f)
    (hport : u.udpTxPort = 0) (hsin : u.netSin = none) :
    (lstnrCommit b u).netSin = s.netSin ↔
      (b.eth0 = true ∧ (b.mnInetPton s.lstnrConfig.udpTxAddr).isSome ∨ s.netSin = none) ∧
        ((b.confInt16 s.lstnrConfig.udpTxPort).isSome ∨
          ∀ sin ∈ s.netSin, sin.msinPort = b.htons 0) := by
  rw [netSin_lstnrCommit] at hforce ⊢
  cases heth : b.eth0 with
  | false =>
    rw [if_neg Bool.false_ne_true, hsin]
    constructor
    · intro hnone
      simp [← hnone]
    · rintro ⟨hno | hnone, -⟩
      · exact absurd hno.1 Bool.false_ne_true
      · exact hnone.symm
  | true =>
    have haddrEq : u.lstnrConfig.udpTxAddr = s.lstnrConfig.udpTxAddr :=
      hconf .udpTxAddr (mem_settings_of_eth0 heth _)
    have hportEq : u.lstnrConfig.udpTxPort = s.lstnrConfig.udpTxPort :=
      hconf .udpTxPort (mem_settings_of_eth0 heth _)
    rw [heth, if_pos rfl] at hforce
    rw [if_pos rfl, haddrEq, hportEq, hport, hsin]
    cases haddr : b.mnInetPton s.lstnrConfig.udpTxAddr with
    | none =>
      rw [Option.elim_none]
      constructor
      · intro hnone
        simp [← hnone]
      · rintro ⟨hno | hnone, -⟩
        · exact absurd hno.2 Bool.false_ne_true
        · exact hnone.symm
    | some addr =>
      rw [haddr, Option.elim_some] at hforce
      rw [Option.elim_some,
        getD_iff (f := fun port ↦ some (MnSockaddrIn.mk (b.htons port) addr)) hforce, ← hforce]
      simp

/-- The settings in force together. -/
theorem applied_commit_iff (hforce : InForce b s)
    (hconf : ∀ f ∈ b.settings, u.lstnrConfig.get f = s.lstnrConfig.get f)
    (hlocal : u.localConf = ⟨0, 0⟩) (hport : u.udpTxPort = 0) (hsin : u.netSin = none) :
    (lstnrCommit b u).applied = s.applied ↔ Restorable b s := by
  obtain ⟨hlocalForce, hsinForce⟩ := Prod.ext_iff.mp hforce
  rw [State.applied, State.applied, Prod.mk.injEq, localConf_commit_iff hlocalForce hconf hlocal,
    netSin_commit_iff hsinForce hconf hport hsin]
  constructor
  · rintro ⟨⟨hacc, hverbose⟩, haddr, hport⟩
    exact ⟨hacc, hverbose, haddr, hport⟩
  · rintro ⟨hacc, hverbose, haddr, hport⟩
    exact ⟨⟨hacc, hverbose⟩, haddr, hport⟩

end Commit

/-- Reading lines back changes the strings only. -/
theorem confLoad_lstnrHandler {b : Build} (L : Conf.Loader (lstnrHandler (n := n) b)) (s : State n)
    (lines : List Conf.Line) : ∃ lstnrConfig, L.confLoad s lines = { s with lstnrConfig } := by
  let P : State n → Prop := fun t ↦ ∃ lstnrConfig, t = { s with lstnrConfig }
  refine L.confLoad_invariant (P := P) ?_ ⟨s.lstnrConfig, rfl⟩ lines
  rintro _ f v t ⟨c, rfl⟩ hset
  obtain ⟨-, rfl⟩ := setSetting_eq_some hset
  exact ⟨c.put v f, rfl⟩

/-- **What survives a reboot.**  Whatever the listener, its settings and its storage do, after a
reboot each setting is the string that was last saved, and the devices report as it says.  If the
strings were in force when they were saved, the same is in force after the reboot exactly if none
of them owes it to what was in force before. -/
theorem reboot_restores {b : Build} (L : Conf.Loader (lstnrHandler (n := b.nDwInstances) b))
    (B : Boot b) {τ : Type} {S : Conf.Storage τ}
    {pre mid : List (Conf.Event Event)} {s t : Conf.State (State b.nDwInstances) τ}
    (hpre : run (Conf.step (listener L B) S) (Conf.init (listener L B) S) pre = some s)
    (hno : .save ∉ mid)
    (hrun : run (Conf.step (listener L B) S) s (.save :: mid ++ [.reboot]) = some t)
    (hkeeps : ∀ f ∈ b.settings, S.Keeps (s.ram.lstnrConfig.get f)) :
    (∀ f ∈ b.settings, t.ram.lstnrConfig.get f = s.ram.lstnrConfig.get f) ∧
      (∀ i, t.ram.rxdiagEnable i = rxDiagBit t.ram.localConf.verbose) ∧
      (InForce b s.ram → (t.ram.applied = s.ram.applied ↔ Restorable b s.ram)) := by
  have hget : ∀ f ∈ b.settings, t.ram.lstnrConfig.get f = s.ram.lstnrConfig.get f :=
    fun f hf ↦ Conf.get_reboot hpre hno hrun hf (hkeeps f hf)
  obtain ⟨u, hu, hreboot⟩ := run_snoc.mp hrun
  obtain ⟨c, hload⟩ := confLoad_lstnrHandler L B.state (S.lines u.store)
  have hram : t.ram = start b { B.state with lstnrConfig := c } := by
    cases hreboot
    exact congrArg (start b) hload
  rw [hram] at hget ⊢
  have hconf : ∀ f ∈ b.settings, c.get f = s.ram.lstnrConfig.get f := by
    intro f hf
    rw [← hget f hf]
    exact (congrArg (·.get f) (lstnrConfig_lstnrCommit b { B.state with lstnrConfig := c })).symm
  exact ⟨hget, fun _ ↦ rfl, fun hforce ↦ applied_commit_iff hforce hconf rfl rfl rfl⟩

def sampleBoot : Boot sampleBuild := ⟨"0", fun _ ↦ false, by decide⟩

/-- The listener with a loader that knows its names. -/
def sampleListener : Conf.Program (State sampleBuild.nDwInstances) Event Setting :=
  listener (lstnrHandler sampleBuild).loader sampleBoot

/-- Diagnostics are switched on, saved, and switched off again for the time being. -/
theorem verbose_survives :
    ∃ s t : Conf.State (State sampleBuild.nDwInstances) (List Conf.Line),
      run (Conf.step sampleListener Conf.appending) (Conf.init sampleListener Conf.appending)
          [.own (.set ["verbose"] "0x2"), .own .commit, .own .update] = some s ∧
        run (Conf.step sampleListener Conf.appending) s
          (.save :: [.own (.set ["verbose"] "0x0"), .own .commit] ++ [.reboot]) = some t ∧
        t.ram.lstnrConfig.get .verbose = "0x2" ∧ t.ram.applied = s.ram.applied := by
  refine ⟨_, _, rfl, rfl, ?_⟩
  obtain ⟨hget, -, happlied⟩ := @reboot_restores sampleBuild (lstnrHandler sampleBuild).loader
    sampleBoot _ Conf.appending [.own (.set ["verbose"] "0x2"), .own .commit, .own .update]
    [.own (.set ["verbose"] "0x0"), .own .commit] _ _ rfl (by simp) rfl fun _ _ ↦ trivial
  exact ⟨hget .verbose (by decide), (happlied rfl).mpr
    ⟨Or.inr rfl, Or.inl rfl, Or.inl ⟨rfl, rfl⟩, Or.inl rfl⟩⟩

end UwbApps.Listener.Settings
