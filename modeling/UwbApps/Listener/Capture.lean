import UwbApps.Lib.Packed
import UwbApps.Lib.Writes
import UwbApps.Os.Mbuf

/-!
# Capturing a frame

`rxCompleteCb` is `rx_complete_cb` of the listener, in a build without the several receivers of
`PDOA_SPI_NUM_INSTANCES`: the payload of the frame, the diagnostics of every device and, with
`CIR_ENABLED`, the impulse response of every device go into one buffer chain, behind a header that
says where they are.

The offsets are the source's: `offset` is a `uint16_t` and wraps, and the impulse responses are
written from `hdr->dlen` on.  `messageOf` is the message as a function of the devices alone, and
`of_queued` says that it is what gets queued, whatever the pool does.
-/

set_option autoImplicit false

open Octets

namespace UwbApps.Listener

open Os

/-- `struct uwb_dev_rxdiag`, which the driver extends: the common head, the longest record, and the
member `rxd_len` in the head, the length of the record. -/
structure RxdiagLayout where
  /-- `sizeof(struct uwb_dev_rxdiag)`. -/
  size : ℕ
  /-- `UWB_DEV_RXDIAG_MAXLEN`. -/
  maxlen : ℕ
  rxdLen : Mem → BitVec 16
  size_pos : 0 < size
  size_lt : size < maxlen
  /-- `rxd_len` lies in the head. -/
  rxdLen_congr : ∀ m m', Agree size m m' → rxdLen m = rxdLen m'
  exists_rxdLen : ∀ len ≤ maxlen, ∃ m, (rxdLen m).toNat = len

/-- What the listener is built with. -/
structure Build where
  diag : RxdiagLayout
  /-- `CIR_ENABLED`. -/
  cirEnabled : Bool
  /-- The size of the device's `struct cir_instance`. -/
  sizeofCir : ℕ
  cirValid : Mem → Bool
  cirGetPdoa : Mem → Mem → BitVec 32
  sizeofCir_pos : 0 < sizeofCir

/-- A device as the callback finds it. -/
structure UwbDev where
  rxbuf : Mem
  frameLen : BitVec 16
  carrierIntegrator : BitVec 32
  rxtimestamp : BitVec 64
  rxdiag : Mem
  ldeError : Bool
  rxRestarted : Bool
  cir : Mem

/-- `struct uwb_msg_hdr`. -/
structure UwbMsgHdr where
  utime : BitVec 32
  dlen : BitVec 16
  diagOffset : BitVec 16
  cirOffset : BitVec 16
  carrierIntegrator : BitVec 32
  ts : List (BitVec 64)
  pd : BitVec 32
deriving DecidableEq

/-- The variables of the listener. -/
structure State (β : Type*) where
  held : Finset β
  rxpktQ : List (UwbMsgHdr × Mbuf β)
  diagBuffer : Mem
  accSamplesToLoad : ℕ
  verboseRxDiag : Bool

/-- What the callback asks of the radio and of `rx_reenable_callout`. -/
inductive Call
  | resetReenable
  | stopReenable
  | setRxTimeout (i : ℕ) (timeout : BitVec 16)
  | setRxautoDisable (i : ℕ) (disable : Bool)
  | startRx (i : ℕ)
deriving DecidableEq

/-- What the operating system answers: the time, the header block, what each copy gets, and
whether `os_mqueue_put` succeeds. -/
structure Env (β : Type*) where
  utime : BitVec 32
  hdr : Option β
  copies : List (CopyOutcome β)
  cirCopies : List (CopyOutcome β)
  put : Bool

/-- How `rx_complete_cb` leaves. -/
inductive RxExit
  | notLast
  | differs
  | noMbuf
  | copyFailed
  | putFailed
  | queued
deriving DecidableEq

/-! ## What goes into the chain -/

section Message

variable (b : Build)

/-- The length of a device's diagnostics, `udev->rxdiag->rxd_len`. -/
def rxdLen (dev : UwbDev) : BitVec 16 := b.diag.rxdLen dev.rxdiag

/-- A device's diagnostics. -/
def diagOf (dev : UwbDev) : List UInt8 := fetch dev.rxdiag (rxdLen b dev).toNat

/-- The loop over the diagnostics: `offset` counts on from one device to the next, in 16 bits. -/
def diagWrites : BitVec 16 → List UwbDev → List Write
  | _, [] => []
  | offset, dev :: devs => ⟨offset.toNat, diagOf b dev⟩ :: diagWrites (offset + rxdLen b dev) devs

/-- What `offset` has come to behind the diagnostics. -/
def diagEnd : BitVec 16 → List UwbDev → BitVec 16
  | offset, [] => offset
  | offset, dev :: devs => diagEnd (offset + rxdLen b dev) devs

/-- The payload, and behind it the diagnostics. -/
def frontWrites (devs : List UwbDev) (dev : UwbDev) : List Write :=
  ⟨0, fetch dev.rxbuf dev.frameLen.toNat⟩ :: diagWrites b dev.frameLen devs

/-- The loop over the impulse responses, from `hdr->dlen + i*sizeof(*src)` on. -/
def cirWritesFrom (dlen : ℕ) : ℕ → List UwbDev → List Write
  | _, [] => []
  | i, dev :: devs =>
    ⟨dlen + i * b.sizeofCir, fetch dev.cir b.sizeofCir⟩ :: cirWritesFrom dlen (i + 1) devs

def cirWrites (accSamplesToLoad : ℕ) (devs : List UwbDev) (dev : UwbDev) : List Write :=
  if b.cirEnabled ∧ accSamplesToLoad ≠ 0 then cirWritesFrom b dev.frameLen.toNat 0 devs else []

/-- `hdr->pd[0]`: between two devices whose impulse responses are valid. -/
def pdOf : List UwbDev → BitVec 32
  | [d₀, d₁] =>
    if b.cirEnabled ∧ b.cirValid d₀.cir ∧ b.cirValid d₁.cir then b.cirGetPdoa d₀.cir d₁.cir else 0
  | _ => 0

def hdrOf (utime : BitVec 32) (devs : List UwbDev) (dev : UwbDev) : UwbMsgHdr where
  utime := utime
  dlen := dev.frameLen
  diagOffset := 0 + dev.frameLen
  cirOffset := if b.cirEnabled then diagEnd b dev.frameLen devs else 0
  carrierIntegrator := dev.carrierIntegrator
  ts := devs.map fun dev ↦ if dev.ldeError then 0 else dev.rxtimestamp
  pd := pdOf b devs

/-- The bytes of the message. -/
def messageOf (accSamplesToLoad : ℕ) (devs : List UwbDev) (dev : UwbDev) : List UInt8 :=
  writeAll [] (frontWrites b devs dev ++ cirWrites b accSamplesToLoad devs dev)

end Message

/-! ## The callback -/

variable {β : Type*} [DecidableEq β]

/-- One `os_mbuf_copyinto` after the other, as far as they succeed. -/
def copyAll (held : Finset β) (om : Mbuf β) :
    List Write → List (CopyOutcome β) → Option (Finset β × Mbuf β × Bool)
  | [], _ => some (held, om, true)
  | _ :: _, [] => none
  | w :: ws, o :: os =>
    (osMbufCopyinto held om w.off w.bytes o).bind fun (held, om, ok) ↦
      if ok then copyAll held om ws os else some (held, om, false)

/-- Two devices that do not have the same frame. -/
def differs : List UwbDev → Bool
  | [d₀, d₁] => fetch d₀.rxbuf d₀.frameLen.toNat ≠ fetch d₁.rxbuf d₀.frameLen.toNat
  | _ => false

/-- The receivers are started again at once, when there are two and a CIR to load. -/
def restart (b : Build) (n : ℕ) : List Call :=
  if n = 2 ∧ b.cirEnabled then
    .stopReenable :: (List.range n).flatMap fun i ↦
      [.setRxTimeout i 0xffff, .setRxautoDisable i b.cirEnabled, .startRx i]
  else []

/-- From the allocation on.  A CIR that cannot be copied fails an assertion. -/
def deliver (b : Build) (s : State β) (devs : List UwbDev) (dev : UwbDev) (env : Env β) :
    Option (State β × RxExit) :=
  (osMbufGetPkthdr s.held env.hdr).bind fun (held, om) ↦
    match om with
    | none => some ({ s with held }, .noMbuf)
    | some om =>
      (copyAll held om (frontWrites b devs dev) env.copies).bind fun (held, om, ok) ↦
        if !ok then some ({ s with held := BlockPool.free held om.blocks }, .copyFailed)
        else
          (copyAll held om (cirWrites b s.accSamplesToLoad devs dev) env.cirCopies).bind
            fun (held, om, ok) ↦
              if !ok then none
              else if !env.put then some ({ s with held }, .putFailed)
              else
                some ({ s with held, rxpktQ := s.rxpktQ ++ [(hdrOf b env.utime devs dev, om)] },
                  .queued)

/-- `rx_complete_cb` for the device number `inst` of `devs`. -/
def rxCompleteCb (b : Build) (s : State β) (devs : List UwbDev) (inst : ℕ) (env : Env β) :
    Option (State β × List Call × RxExit) :=
  devs[inst]?.bind fun dev ↦
    if devs.length = 2 ∧ inst ≠ 1 then
      some (s, if dev.rxRestarted then [] else [.resetReenable], .notLast)
    else if differs devs then some (s, restart b devs.length, .differs)
    else (deliver b s devs dev env).map fun (s, exit) ↦ (s, restart b devs.length, exit)

/-! ## What gets queued -/

theorem copyAll_eq_some {held held' : Finset β} {om om' : Mbuf β} {ws : List Write}
    {os : List (CopyOutcome β)} (h : copyAll held om ws os = some (held', om', true)) :
    om'.data = writeAll om.data ws := by
  induction ws generalizing held om os with
  | nil =>
    cases h
    rfl
  | cons w ws ih =>
    cases os with
    | nil => cases h
    | cons o os =>
      obtain ⟨⟨held₁, om₁, ok⟩, hcopy, h⟩ := Option.bind_eq_some_iff.mp h
      obtain ⟨-, -, -, hdata⟩ := osMbufCopyinto_eq_some hcopy
      cases ok with
      | false => cases h
      | true => rw [writeAll_cons, ih h, (hdata rfl).2]

/-- A pool that gives every copy what it needs. -/
theorem copyAll_of_fit (held : Finset β) {om : Mbuf β} {ws : List Write}
    (h : Fit om.data.length ws) :
    copyAll held om ws (ws.map fun _ ↦ ⟨[], true⟩) =
      some (held, ⟨om.blocks, writeAll om.data ws⟩, true) := by
  induction ws generalizing om with
  | nil => rfl
  | cons w ws ih =>
    have hcopy : osMbufCopyinto held om w.off w.bytes ⟨[], true⟩ =
        some (held, ⟨om.blocks, splice om.data w.off w.bytes⟩, true) := by
      rw [osMbufCopyinto, if_neg fun hgap ↦ by have := h.1; omega]
      simp [BlockPool.takeAll]
    have hrest := @ih ⟨om.blocks, splice om.data w.off w.bytes⟩
      (by rw [length_splice h.1]; exact h.2)
    rw [List.map_cons, copyAll, hcopy, Option.bind_some]
    exact hrest

/-- What both builds of the callback do, from the allocation to the queue: the chain with the
writes `front`, whose failure drops the message, and the impulse responses `cir`. -/
def chainOf (held : Finset β) (front cir : List Write) (env : Env β) :
    Option (Finset β × RxExit × Option (Mbuf β)) :=
  (osMbufGetPkthdr held env.hdr).bind fun (held, om) ↦
    match om with
    | none => some (held, .noMbuf, none)
    | some om =>
      (copyAll held om front env.copies).bind fun (held, om, ok) ↦
        if !ok then some (BlockPool.free held om.blocks, .copyFailed, none)
        else
          (copyAll held om cir env.cirCopies).bind fun (held, om, ok) ↦
            if !ok then none
            else if !env.put then some (held, .putFailed, none)
            else some (held, .queued, some om)

theorem deliver_eq (b : Build) (s : State β) (devs : List UwbDev) (dev : UwbDev) (env : Env β) :
    deliver b s devs dev env = (chainOf s.held (frontWrites b devs dev)
      (cirWrites b s.accSamplesToLoad devs dev) env).map fun r ↦
        ({ s with
            held := r.1
            rxpktQ := s.rxpktQ ++ r.2.2.toList.map fun om ↦ (hdrOf b env.utime devs dev, om) },
          r.2.1) := by
  rw [deliver, chainOf, Option.map_bind]
  refine congrArg _ (funext fun got ↦ ?_)
  obtain ⟨held, _ | om⟩ := got
  · simp
  · simp only [Function.comp_apply, Option.map_bind]
    refine congrArg _ (funext fun front ↦ ?_)
    obtain ⟨held, om, _ | _⟩ := front
    · simp
    · simp only [Bool.not_true, Bool.false_eq_true, if_false, Function.comp_apply, Option.map_bind]
      refine congrArg _ (funext fun cir ↦ ?_)
      obtain ⟨held, om, _ | _⟩ := cir <;> cases env.put <;> simp

/-- The chain that gets queued has all the writes. -/
theorem data_of_chainOf {held held' : Finset β} {front cir : List Write} {env : Env β}
    {om : Option (Mbuf β)} (h : chainOf held front cir env = some (held', .queued, om)) :
    ∃ om', om = some om' ∧ om'.data = writeAll [] (front ++ cir) := by
  obtain ⟨⟨held₁, om₁⟩, hget, h⟩ := Option.bind_eq_some_iff.mp h
  rcases osMbufGetPkthdr_eq_some hget with ⟨-, rfl, -⟩ | ⟨block, -, rfl, -⟩
  · cases h
  obtain ⟨⟨held₂, om₂, ok₂⟩, hfront, h⟩ := Option.bind_eq_some_iff.mp h
  cases ok₂ with
  | false => cases h
  | true =>
    obtain ⟨⟨held₃, om₃, ok₃⟩, hcir, h⟩ := Option.bind_eq_some_iff.mp h
    cases ok₃ with
    | false => cases h
    | true =>
      simp only [Bool.not_true] at h
      split at h
      · cases h
      split at h
      · cases h
      · cases h
        refine ⟨om₃, rfl, ?_⟩
        rw [writeAll_append, copyAll_eq_some hcir, copyAll_eq_some hfront]

/-- An empty pool that gives every copy what it needs. -/
theorem exists_chainOf [Inhabited β] {front cir : List Write} (hfront : Fit 0 front)
    (hcir : Fit (writeAll [] front).length cir) :
    ∃ (env : Env β) (held : Finset β) (om : Option (Mbuf β)),
      chainOf ∅ front cir env = some (held, .queued, om) := by
  let env : Env β :=
    ⟨0, some default, front.map fun _ ↦ ⟨[], true⟩, cir.map fun _ ↦ ⟨[], true⟩, true⟩
  have hget : osMbufGetPkthdr ∅ env.hdr = some ({default}, some ⟨[default], []⟩) := by
    simp [env, osMbufGetPkthdr, BlockPool.take]
  have hcopied := @copyAll_of_fit β _ {default} ⟨[default], []⟩ front hfront
  have hcopied' := @copyAll_of_fit β _ {default} ⟨[default], writeAll [] front⟩ cir hcir
  refine ⟨env, {default}, some ⟨[default], writeAll (writeAll [] front) cir⟩, ?_⟩
  rw [chainOf, hget, Option.bind_some]
  simp only
  rw [hcopied, Option.bind_some]
  simp only [Bool.not_true, Bool.false_eq_true, if_false]
  rw [hcopied', Option.bind_some]
  rfl

omit [DecidableEq β] in
theorem diagWrites_fit (b : Build) {offset : BitVec 16} {len : ℕ} (devs : List UwbDev)
    (h : offset.toNat ≤ len) : Fit len (diagWrites b offset devs) := by
  induction devs generalizing offset len with
  | nil => trivial
  | cons dev devs ih =>
    refine ⟨h, ih ?_⟩
    -- wrapping only brings the offset down
    have hwrap : (offset + rxdLen b dev).toNat ≤ offset.toNat + (rxdLen b dev).toNat := by
      rw [BitVec.toNat_add]
      exact Nat.mod_le _ _
    refine le_max_of_le_right ?_
    rwa [diagOf, length_fetch]

omit [DecidableEq β] in
theorem cirWritesFrom_fit (b : Build) {dlen i len : ℕ} (devs : List UwbDev)
    (h : dlen + i * b.sizeofCir ≤ len) : Fit len (cirWritesFrom b dlen i devs) := by
  induction devs generalizing i len with
  | nil => trivial
  | cons dev devs ih =>
    refine ⟨h, ih (le_max_of_le_right ?_)⟩
    rw [length_fetch, Nat.succ_mul, Nat.add_assoc]

theorem frontWrites_fit (b : Build) (devs : List UwbDev) (dev : UwbDev) :
    Fit 0 (frontWrites b devs dev) :=
  ⟨le_refl 0, diagWrites_fit b devs (by simp)⟩

theorem length_payload_le (b : Build) (devs : List UwbDev) (dev : UwbDev) :
    dev.frameLen.toNat ≤ (writeAll [] (frontWrites b devs dev)).length := by
  rw [frontWrites, writeAll_cons]
  refine le_trans ?_ (length_le_writeAll (diagWrites_fit b devs ?_))
  · simp [splice]
  · simp [splice]

theorem cirWrites_fit (b : Build) (accSamplesToLoad : ℕ) (devs : List UwbDev) (dev : UwbDev) :
    Fit (writeAll [] (frontWrites b devs dev)).length (cirWrites b accSamplesToLoad devs dev) := by
  rw [cirWrites]
  split
  · refine cirWritesFrom_fit b devs ?_
    rw [Nat.zero_mul, Nat.add_zero]
    exact length_payload_le b devs dev
  · trivial

theorem bytes_of_mem_diagWrites {b : Build} {offset : BitVec 16} {devs : List UwbDev} {w : Write}
    (h : ∀ d ∈ devs, rxdLen b d = 0) (hw : w ∈ diagWrites b offset devs) : w.bytes = [] := by
  induction devs generalizing offset with
  | nil => simp [diagWrites] at hw
  | cons d devs ih =>
    rcases List.mem_cons.mp hw with rfl | hw
    · simp [diagOf, h d List.mem_cons_self]
    · exact ih (fun d' hd' ↦ h d' (List.mem_cons_of_mem d hd')) hw

/-- **What gets queued** is the message, whatever the pool did. -/
theorem of_queued {b : Build} {s t : State β} {devs : List UwbDev} {inst : ℕ} {env : Env β}
    {calls : List Call} (h : rxCompleteCb b s devs inst env = some (t, calls, .queued)) :
    ∃ dev om, devs[inst]? = some dev ∧
      t.rxpktQ = s.rxpktQ ++ [(hdrOf b env.utime devs dev, om)] ∧
      om.data = messageOf b s.accSamplesToLoad devs dev := by
  obtain ⟨dev, hdev, h⟩ := Option.bind_eq_some_iff.mp h
  split at h
  · cases h
  split at h
  · cases h
  rw [deliver_eq, Option.map_map] at h
  obtain ⟨⟨held, exit, om⟩, hchain, heq⟩ := Option.map_eq_some_iff.mp h
  cases heq
  obtain ⟨om, rfl, hdata⟩ := data_of_chainOf hchain
  exact ⟨dev, om, hdev, rfl, hdata⟩

/-- A frame the callback looks at can be queued. -/
theorem exists_queued [Inhabited β] (b : Build) {s : State β} (hs : s.held = ∅)
    {devs : List UwbDev} {inst : ℕ} {dev : UwbDev} (hdev : devs[inst]? = some dev)
    (hlast : devs.length = 2 → inst = 1) (hsame : differs devs = false) :
    ∃ t env calls, rxCompleteCb b s devs inst env = some (t, calls, .queued) := by
  obtain ⟨env, held, om, hchain⟩ := @exists_chainOf β _ _ _ _ (frontWrites_fit b devs dev)
    (cirWrites_fit b s.accSamplesToLoad devs dev)
  let t : State β :=
    { s with
      held
      rxpktQ := s.rxpktQ ++ om.toList.map fun om ↦ (hdrOf b env.utime devs dev, om) }
  refine ⟨t, env, restart b devs.length, ?_⟩
  rw [rxCompleteCb, hdev, Option.bind_some, if_neg fun h ↦ h.2 (hlast h.1), hsame, if_neg (by simp),
    deliver_eq, hs, hchain]
  rfl

/-- Records of at most 108 bytes that start with their length. -/
def sampleLayout : RxdiagLayout where
  size := 2
  maxlen := 108
  rxdLen := (Packed.uint 2).dec
  size_pos := by decide
  size_lt := by decide
  rxdLen_congr := (Packed.uint 2).dec_congr
  exists_rxdLen len h := by
    refine ⟨load ((Packed.uint 2).enc (BitVec.ofNat 16 len)), ?_⟩
    rw [(Packed.uint 2).dec_of_agree (BitVec.ofNat 16 len) _ fun _ _ ↦ rfl, BitVec.toNat_ofNat]
    omega

/-- A build with impulse responses of four bytes. -/
def sampleBuild (cirEnabled : Bool) : Build where
  diag := sampleLayout
  cirEnabled := cirEnabled
  sizeofCir := 4
  cirValid _ := false
  cirGetPdoa _ _ := 0
  sizeofCir_pos := by decide

/-- A device with a frame of zeros and these diagnostics. -/
def sampleDev (frameLen : BitVec 16) (rxdiag : List UInt8) : UwbDev where
  rxbuf _ := 0
  frameLen := frameLen
  carrierIntegrator := 0
  rxtimestamp := 0
  rxdiag := load rxdiag
  ldeError := false
  rxRestarted := false
  cir := load [1, 2, 3, 4]

end UwbApps.Listener
