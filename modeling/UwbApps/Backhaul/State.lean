import UwbApps.Backhaul.Types
import UwbApps.Lib.Run
import UwbApps.Os.Mbuf

/-!
# The receiving side as a state machine

Everything `rtdoa_backhaul.c` does between two frames is in a handful of functions that share a
few variables: the radio callbacks, the two producers and the one consumer of `rxpkt_q`, and the
thread that waits in `rtdoa_backhaul_listen`.  `State` is those variables, `step` what one of
these functions does to them, and a run is any order of steps.

The callbacks and `rtdoa_local_send` are one step each.  `process_rx_data_queue` is two, taking a
message off the queue and finishing with it, and `rtdoa_backhaul_listen` is cut at each of its
calls on the semaphore and on the radio; `Listen` says where the thread is.

What the operating system answers, which blocks a call gets and whether copying and queueing
succeed, comes with the event.  A step is undefined only where the answer is impossible, such as a
block that is already taken, or where the thread would block.

`RxCase` is the inversion lemma the invariants rest on: all that a call of `rx_complete_cb` can
do, by the way it leaves.
-/

set_option autoImplicit false

open Octets Packed

namespace UwbApps.Backhaul

open Os

variable {β : Type*} [DecidableEq β]

/-- Where the thread is in `rtdoa_backhaul_listen`, named after the last thing it did. -/
inductive Listen
  | idle
  | pended (dxTime : BitVec 64) (timeoutUus : BitVec 16)
  | delaySet (timeoutUus : BitVec 16)
  | timeoutSet
  | startFailed
  | waiting
  | woken
  | released
deriving DecidableEq

/-- The variables of the module, the blocks of `g_mbuf_pool` that are out, and the receive timeout
of the radio. -/
structure State (β : Type*) where
  gRole : RtdoaBackhaulRole
  /-- When the current listen expires; `0` outside `rtdoa_backhaul_listen`. -/
  gToDxTime : BitVec 64
  /-- The count of `g_sem`. -/
  gSem : ℕ
  lastAddress : BitVec 16
  lastSeqNum : BitVec 8
  held : Finset β
  rxpktQ : List (Mbuf β)
  /-- The message `process_rx_data_queue` is working on. -/
  om : Option (Mbuf β)
  gMsgId : BitVec 32
  rxTimeout : BitVec 16
  listen : Listen

/-- The state `rtdoa_backhaul_pkg_init` leaves. -/
def State.init : State β where
  gRole := .invalid
  gToDxTime := 0
  gSem := 1
  lastAddress := 0
  lastSeqNum := 0
  held := ∅
  rxpktQ := []
  om := none
  gMsgId := 0
  rxTimeout := 0
  listen := .idle

/-- The device as a receive callback finds it. -/
structure UwbDev where
  fctrl : BitVec 16
  rxbuf : Mem
  frameLen : BitVec 16
  rxtimestamp : BitVec 64
  myShortAddress : BitVec 16

/-- What the operating system answers a producer: the header block, what copying gets, and whether
`os_mqueue_put` succeeds. -/
structure MbufEnv (β : Type*) where
  hdr : Option β
  copy : CopyOutcome β
  put : Bool

/-- A broadcast from `0x0102`, with sequence number `1` and no sensor values. -/
def sampleFrame : UwbDev where
  fctrl := FCNTL_IEEE_RTDOABH
  rxbuf := load [0xC1, 0x88, 0x01, 0xCA, 0xDE, 0xff, 0xff, 0x02, 0x01, 0x03, 0x60]
  frameLen := 53
  rxtimestamp := 0
  myShortAddress := 0x0001

/-! ## The semaphore -/

/-- `os_sem_release(&g_sem)`. -/
def osSemRelease (s : State β) : State β := { s with gSem := s.gSem + 1 }

/-- The guarded release of the callbacks: only when the count is zero. -/
def releaseIfTaken (s : State β) : State β := if s.gSem = 0 then osSemRelease s else s

/-! ## The callbacks -/

/-- `tx_complete_cb`, with its return value. -/
def txCompleteCb (s : State β) (fctrl : BitVec 16) : State β × Bool :=
  if fctrl ≠ FCNTL_IEEE_RTDOABH then (s, false)
  else if s.gToDxTime ≠ 0 then (s, false)
  else (releaseIfTaken s, true)

/-- How `rx_complete_cb` leaves. -/
inductive RxExit
  /-- Not a frame of this service. -/
  | foreign
  /-- For somebody else, or this node is no bridge. -/
  | notAddressed
  /-- Shorter than the sensor data. -/
  | tooShort
  /-- Dropped as a repeat. -/
  | repeated
  /-- Dropped for want of a block. -/
  | noMbuf
  | copyFailed
  | putFailed
  | queued
deriving DecidableEq, Repr

/-- The return value: whether the callback claims the frame. -/
def RxExit.claims : RxExit → Bool
  | .foreign => false
  | _ => true

/-- Whether the callback passes its guarded release on the way out. -/
def RxExit.releases : RxExit → Bool
  | .foreign | .repeated | .copyFailed | .putFailed => false
  | .notAddressed | .tooShort | .noMbuf | .queued => true

/-- The receive timeout is moved along while listening. -/
def rearm (s : State β) (inst : UwbDev) : State β :=
  if s.gToDxTime ≠ 0 then
    { s with rxTimeout := ((s.gToDxTime - inst.rxtimestamp) >>> 16).setWidth 16 }
  else s

/-- The head of the frame in the receive buffer. -/
def rxHead (inst : UwbDev) : IeeeRngRequestFrame := headLayout.dec inst.rxbuf

/-- The length the message header can hold: fifteen bits. -/
def msgDlen (n : ℕ) : ℕ := n % 2 ^ 15

/-- Copy the frame into a chain and queue it. -/
def rxDeliver (s : State β) (inst : UwbDev) (env : MbufEnv β) : Option (State β × RxExit) :=
  (osMbufGetPkthdr s.held env.hdr).bind fun (held, om) ↦
    match om with
    | none => some ({ s with held }, .noMbuf)
    | some om =>
      (osMbufCopyinto held om 0 (fetch inst.rxbuf (msgDlen inst.frameLen.toNat)) env.copy).map
        fun (held, om, ok) ↦
          if !ok then ({ s with held }, .copyFailed)
          else if !env.put then ({ s with held }, .putFailed)
          else ({ s with held, rxpktQ := s.rxpktQ ++ [om] }, .queued)

/-- `rx_complete_cb`. -/
def rxCompleteCb (s : State β) (inst : UwbDev) (env : MbufEnv β) : Option (State β × RxExit) :=
  let s := rearm s inst
  if inst.fctrl ≠ FCNTL_IEEE_RTDOABH then some (s, .foreign)
  else
    let frame := rxHead inst
    if frame.code < DWT_RTDOABH_CODE then some (s, .foreign)
    else if (frame.dstAddress ≠ inst.myShortAddress ∧ frame.dstAddress ≠ UWB_BROADCAST_ADDRESS) ∨
        s.gRole = .invalid ∨ s.gRole = .producer then
      some (releaseIfTaken s, .notAddressed)
    else if sizeofSensorData ≤ inst.frameLen.toNat then
      if frame.srcAddress = s.lastAddress ∧ frame.seqNum = s.lastSeqNum then some (s, .repeated)
      else
        (rxDeliver { s with lastAddress := frame.srcAddress, lastSeqNum := frame.seqNum }
          inst env).map fun (s, exit) ↦ (if exit.releases then releaseIfTaken s else s, exit)
    else some (releaseIfTaken s, .tooShort)

/-! ## The other producer, and the consumer -/

/-- `rtdoa_local_send`, with whether it returns `0`. -/
def rtdoaLocalSend (s : State β) (buf : Mem) (dlen : ℕ) (env : MbufEnv β) :
    Option (State β × Bool) :=
  (osMbufGetPkthdr s.held env.hdr).bind fun (held, om) ↦
    match om with
    | none => some ({ s with held }, false)
    | some om =>
      (osMbufCopyinto held om 0 (fetch buf (msgDlen dlen)) env.copy).map fun (held, om, ok) ↦
        if !ok then ({ s with held := BlockPool.free held om.blocks }, false)
        else if !env.put then ({ s with held := BlockPool.free held om.blocks }, false)
        else ({ s with held, rxpktQ := s.rxpktQ ++ [om] }, true)

/-- `rtdoa_backhaul_queue_size`, for a pool of `numBlocks` blocks. -/
def rtdoaBackhaulQueueSize (numBlocks : ℕ) (s : State β) : ℤ :=
  let mpNumFree : ℤ := numBlocks - s.held.card
  numBlocks - mpNumFree

/-- `process_rx_data_queue` takes the next message. -/
def getMsg (s : State β) : Option (State β) :=
  match s.om, s.rxpktQ with
  | none, om :: rest => some { s with rxpktQ := rest, om := some om }
  | _, _ => none

/-- `process_rx_data_queue` prints the message in the bridge role, which counts `g_msg_id` up, and
frees it. -/
def finishMsg (s : State β) : Option (State β) :=
  s.om.map fun om ↦
    { s with
      gMsgId := if s.gRole = .bridge then s.gMsgId + 1 else s.gMsgId
      held := BlockPool.free s.held om.blocks
      om := none }

/-! ## Listening -/

/-- The first `os_sem_pend` of `rtdoa_backhaul_listen`, when it succeeds. -/
def listenPend (s : State β) (dxTime : BitVec 64) (timeoutUus : BitVec 16) : Option (State β) :=
  if s.listen = .idle ∧ 0 < s.gSem then
    some { s with gSem := s.gSem - 1, listen := .pended dxTime timeoutUus }
  else none

/-- The next step of `rtdoa_backhaul_listen`.  `startRxError` is what `uwb_start_rx` answers. -/
def listenStep (s : State β) (startRxError : Bool) : Option (State β) :=
  match s.listen with
  | .idle => none
  | .pended dxTime uus =>
    some { s with gToDxTime := dxTime + (uus.setWidth 64 <<< 16), listen := .delaySet uus }
  | .delaySet uus => some { s with rxTimeout := uus, listen := .timeoutSet }
  | .timeoutSet => some { s with listen := if startRxError then .startFailed else .waiting }
  | .startFailed => some { osSemRelease s with listen := .waiting }
  | .waiting => if 0 < s.gSem then some { s with gSem := s.gSem - 1, listen := .woken } else none
  | .woken => some { osSemRelease s with listen := .released }
  | .released => some { s with gToDxTime := 0, listen := .idle }

/-! ## Runs -/

/-- What can happen next. -/
inductive Event (β : Type*)
  | rx (inst : UwbDev) (env : MbufEnv β)
  | tx (fctrl : BitVec 16)
  | localSend (buf : Mem) (dlen : ℕ) (env : MbufEnv β)
  | getMsg
  | finishMsg
  | setRole (role : RtdoaBackhaulRole)
  | listen (dxTime : BitVec 64) (timeoutUus : BitVec 16)
  | listenStep (startRxError : Bool)

def step (s : State β) : Event β → Option (State β)
  | .rx inst env => (rxCompleteCb s inst env).map Prod.fst
  | .tx fctrl => some (txCompleteCb s fctrl).1
  | .localSend buf dlen env => (rtdoaLocalSend s buf dlen env).map Prod.fst
  | .getMsg => getMsg s
  | .finishMsg => finishMsg s
  | .setRole role => some { s with gRole := role }
  | .listen dxTime uus => listenPend s dxTime uus
  | .listenStep err => listenStep s err

/-- How a received frame leaves the callback, for the events that are one. -/
def rxExit (s : State β) : Event β → Option RxExit
  | .rx inst env => (rxCompleteCb s inst env).map Prod.snd
  | _ => none

/-! ## What `rx_complete_cb` can do -/

/-- The frame is of this service: `rx_complete_cb` claims it. -/
def IsBackhaul (inst : UwbDev) : Prop :=
  inst.fctrl = FCNTL_IEEE_RTDOABH ∧ ¬ (rxHead inst).code < DWT_RTDOABH_CODE

instance (inst : UwbDev) : Decidable (IsBackhaul inst) := instDecidableAnd

/-- The tests a frame passes before the callback looks at who sent it. -/
structure Accepts (s : State β) (inst : UwbDev) : Prop where
  backhaul : IsBackhaul inst
  address : (rxHead inst).dstAddress = inst.myShortAddress ∨
    (rxHead inst).dstAddress = UWB_BROADCAST_ADDRESS
  role : s.gRole = .bridge
  frameLen : sizeofSensorData ≤ inst.frameLen.toNat

omit [DecidableEq β] in
theorem accepts_iff (s : State β) (inst : UwbDev) :
    Accepts s inst ↔ IsBackhaul inst ∧ ((rxHead inst).dstAddress = inst.myShortAddress ∨
        (rxHead inst).dstAddress = UWB_BROADCAST_ADDRESS) ∧ s.gRole = .bridge ∧
      sizeofSensorData ≤ inst.frameLen.toNat :=
  ⟨fun ⟨h₁, h₂, h₃, h₄⟩ ↦ ⟨h₁, h₂, h₃, h₄⟩, fun ⟨h₁, h₂, h₃, h₄⟩ ↦ ⟨h₁, h₂, h₃, h₄⟩⟩

instance (s : State β) (inst : UwbDev) : Decidable (Accepts s inst) :=
  decidable_of_iff _ (accepts_iff s inst).symm

/-- Who sent the frame, and its number: what the callback tells repeats by. -/
def rxKey (inst : UwbDev) : BitVec 16 × BitVec 8 := ((rxHead inst).srcAddress, (rxHead inst).seqNum)

/-- The pair the callback remembers. -/
def State.lastKey (s : State β) : BitVec 16 × BitVec 8 := (s.lastAddress, s.lastSeqNum)

/-- The state once an accepted frame that is no repeat has been noted. -/
def noted (s : State β) (inst : UwbDev) : State β :=
  { rearm s inst with lastAddress := (rxHead inst).srcAddress, lastSeqNum := (rxHead inst).seqNum }

/-- **All that `rx_complete_cb` can do**, by the way it leaves. -/
inductive RxCase (s : State β) (inst : UwbDev) (env : MbufEnv β) : State β → RxExit → Prop
  | foreign (h : ¬ IsBackhaul inst) : RxCase s inst env (rearm s inst) .foreign
  | notAddressed (hb : IsBackhaul inst) (h : ¬ Accepts s inst) :
      RxCase s inst env (releaseIfTaken (rearm s inst)) .notAddressed
  | tooShort (hb : IsBackhaul inst) (h : ¬ Accepts s inst) :
      RxCase s inst env (releaseIfTaken (rearm s inst)) .tooShort
  | repeated (h : Accepts s inst) (hkey : rxKey inst = s.lastKey) :
      RxCase s inst env (rearm s inst) .repeated
  | noMbuf (h : Accepts s inst) (hkey : rxKey inst ≠ s.lastKey) (hhdr : env.hdr = none) :
      RxCase s inst env (releaseIfTaken (noted s inst)) .noMbuf
  | copyFailed {b : β} {held₁ held : Finset β} (h : Accepts s inst) (hkey : rxKey inst ≠ s.lastKey)
      (hhdr : env.hdr = some b) (htake : BlockPool.take s.held b = some held₁)
      (hmore : BlockPool.takeAll held₁ env.copy.blocks = some held) (hcopy : env.copy.ok = false) :
      RxCase s inst env { noted s inst with held } .copyFailed
  | putFailed {b : β} {held₁ held : Finset β} (h : Accepts s inst) (hkey : rxKey inst ≠ s.lastKey)
      (hhdr : env.hdr = some b) (htake : BlockPool.take s.held b = some held₁)
      (hmore : BlockPool.takeAll held₁ env.copy.blocks = some held) (hcopy : env.copy.ok = true)
      (hput : env.put = false) : RxCase s inst env { noted s inst with held } .putFailed
  | queued {b : β} {held₁ held : Finset β} {om : Mbuf β} (h : Accepts s inst)
      (hkey : rxKey inst ≠ s.lastKey) (hhdr : env.hdr = some b)
      (htake : BlockPool.take s.held b = some held₁)
      (hmore : BlockPool.takeAll held₁ env.copy.blocks = some held) (hcopy : env.copy.ok = true)
      (hput : env.put = true) (hblocks : om.blocks = b :: env.copy.blocks)
      (hdata : om.data = fetch inst.rxbuf (msgDlen inst.frameLen.toNat)) :
      RxCase s inst env
        (releaseIfTaken { noted s inst with held, rxpktQ := s.rxpktQ ++ [om] }) .queued

omit [DecidableEq β] in
/-- `rearm` changes nothing but the timeout. -/
theorem rearm_eq (s : State β) (inst : UwbDev) :
    rearm s inst = { s with rxTimeout := (rearm s inst).rxTimeout } := by
  rw [rearm]
  split <;> rfl

omit [DecidableEq β] in
@[simp] theorem rearm_gRole (s : State β) (inst : UwbDev) : (rearm s inst).gRole = s.gRole := by
  rw [rearm_eq]

omit [DecidableEq β] in
@[simp] theorem rearm_lastAddress (s : State β) (inst : UwbDev) :
    (rearm s inst).lastAddress = s.lastAddress := by
  rw [rearm_eq]

omit [DecidableEq β] in
@[simp] theorem rearm_lastSeqNum (s : State β) (inst : UwbDev) :
    (rearm s inst).lastSeqNum = s.lastSeqNum := by
  rw [rearm_eq]

omit [DecidableEq β] in
@[simp] theorem rearm_held (s : State β) (inst : UwbDev) : (rearm s inst).held = s.held := by
  rw [rearm_eq]

omit [DecidableEq β] in
@[simp] theorem rearm_rxpktQ (s : State β) (inst : UwbDev) : (rearm s inst).rxpktQ = s.rxpktQ := by
  rw [rearm_eq]

omit [DecidableEq β] in
@[simp] theorem rearm_gSem (s : State β) (inst : UwbDev) : (rearm s inst).gSem = s.gSem := by
  rw [rearm_eq]

omit [DecidableEq β] in
@[simp] theorem rearm_listen (s : State β) (inst : UwbDev) : (rearm s inst).listen = s.listen := by
  rw [rearm_eq]

omit [DecidableEq β] in
theorem noted_gSem (s : State β) (inst : UwbDev) : (noted s inst).gSem = s.gSem :=
  rearm_gSem s inst

omit [DecidableEq β] in
theorem noted_listen (s : State β) (inst : UwbDev) : (noted s inst).listen = s.listen :=
  rearm_listen s inst

omit [DecidableEq β] in
/-- The guarded release leaves a count of at least one. -/
@[simp] theorem releaseIfTaken_gSem (s : State β) : (releaseIfTaken s).gSem = max s.gSem 1 := by
  rw [releaseIfTaken]
  split
  · simp [osSemRelease, *]
  · omega

omit [DecidableEq β] in
@[simp] theorem releaseIfTaken_listen (s : State β) : (releaseIfTaken s).listen = s.listen := by
  rw [releaseIfTaken]
  split <;> rfl

/-! ## What the other steps can do -/

/-- What `rtdoa_local_send` can do: fail and give back what it got, or queue the message. -/
theorem rtdoaLocalSend_eq_some {s t : State β} {buf : Mem} {dlen : ℕ} {env : MbufEnv β} {ok : Bool}
    (h : rtdoaLocalSend s buf dlen env = some (t, ok)) :
    (t = s ∧ ok = false) ∨
      ∃ b held₁ held, BlockPool.take s.held b = some held₁ ∧
        BlockPool.takeAll held₁ env.copy.blocks = some held ∧
        ((t = { s with held := BlockPool.free held (b :: env.copy.blocks) } ∧ ok = false) ∨
          ∃ om, om.blocks = b :: env.copy.blocks ∧ om.data = fetch buf (msgDlen dlen) ∧
            t = { s with held, rxpktQ := s.rxpktQ ++ [om] } ∧ ok = true) := by
  obtain ⟨⟨held₁, om⟩, hget, h⟩ := Option.bind_eq_some_iff.mp h
  rcases osMbufGetPkthdr_eq_some hget with ⟨-, rfl, rfl⟩ | ⟨b, -, rfl, htake⟩
  · cases h
    exact Or.inl ⟨rfl, rfl⟩
  · obtain ⟨⟨held, om, copied⟩, hcopyinto, h⟩ := Option.map_eq_some_iff.mp h
    obtain ⟨rfl, hblocks, hmore, hdata⟩ := osMbufCopyinto_eq_some hcopyinto
    refine Or.inr ⟨b, held₁, held, htake, hmore, ?_⟩
    rw [List.cons_append, List.nil_append] at hblocks
    simp only at h
    split at h
    · cases h
      exact Or.inl ⟨by rw [hblocks], rfl⟩
    · rename_i hcopied
      split at h
      · cases h
        exact Or.inl ⟨by rw [hblocks], rfl⟩
      · cases h
        refine Or.inr ⟨om, hblocks, ?_, rfl, rfl⟩
        rw [(hdata (by simpa using hcopied)).2]
        simp [splice]

omit [DecidableEq β] in
/-- What taking a message off the queue comes to. -/
theorem getMsg_eq_some {s t : State β} (h : getMsg s = some t) :
    ∃ om rest, s.om = none ∧ s.rxpktQ = om :: rest ∧
      t = { s with rxpktQ := rest, om := some om } := by
  rw [getMsg] at h
  split at h
  · rename_i om rest hom hq
    exact ⟨om, rest, hom, hq, (Option.some.inj h).symm⟩
  · cases h

/-! ## What the other steps leave alone -/

/-- The two states have the same messages in the same blocks, and remember the same frame. -/
structure SameStore (s t : State β) : Prop where
  held : t.held = s.held
  rxpktQ : t.rxpktQ = s.rxpktQ
  om : t.om = s.om
  lastAddress : t.lastAddress = s.lastAddress
  lastSeqNum : t.lastSeqNum = s.lastSeqNum

omit [DecidableEq β] in
theorem SameStore.refl (s : State β) : SameStore s s := ⟨rfl, rfl, rfl, rfl, rfl⟩

omit [DecidableEq β] in
theorem SameStore.trans {s t u : State β} (h : SameStore s t) (h' : SameStore t u) :
    SameStore s u :=
  ⟨h'.held.trans h.held, h'.rxpktQ.trans h.rxpktQ, h'.om.trans h.om,
    h'.lastAddress.trans h.lastAddress, h'.lastSeqNum.trans h.lastSeqNum⟩

omit [DecidableEq β] in
theorem SameStore.lastKey {s t : State β} (h : SameStore s t) : t.lastKey = s.lastKey :=
  Prod.ext h.lastAddress h.lastSeqNum

omit [DecidableEq β] in
theorem sameStore_releaseIfTaken (s : State β) : SameStore s (releaseIfTaken s) := by
  rw [releaseIfTaken]
  split <;> exact ⟨rfl, rfl, rfl, rfl, rfl⟩

omit [DecidableEq β] in
theorem sameStore_rearm (s : State β) (inst : UwbDev) : SameStore s (rearm s inst) := by
  rw [rearm]
  split <;> exact ⟨rfl, rfl, rfl, rfl, rfl⟩

omit [DecidableEq β] in
theorem sameStore_txCompleteCb (s : State β) (fctrl : BitVec 16) :
    SameStore s (txCompleteCb s fctrl).1 := by
  rw [txCompleteCb]
  split
  · exact SameStore.refl s
  · split
    · exact SameStore.refl s
    · exact sameStore_releaseIfTaken s

omit [DecidableEq β] in
theorem sameStore_listenPend {s t : State β} {dxTime : BitVec 64} {uus : BitVec 16}
    (h : listenPend s dxTime uus = some t) : SameStore s t := by
  rw [listenPend] at h
  split at h <;> cases h
  exact ⟨rfl, rfl, rfl, rfl, rfl⟩

omit [DecidableEq β] in
theorem sameStore_listenStep {s t : State β} {err : Bool} (h : listenStep s err = some t) :
    SameStore s t := by
  rw [listenStep] at h
  split at h
  case h_6 =>
    split at h <;> cases h
    exact ⟨rfl, rfl, rfl, rfl, rfl⟩
  all_goals
    cases h <;> exact ⟨rfl, rfl, rfl, rfl, rfl⟩

/-- What delivering an accepted frame that is no repeat comes to. -/
theorem rxCase_of_deliver {s t : State β} {inst : UwbDev} {env : MbufEnv β} {exit : RxExit}
    (hacc : Accepts s inst) (hkey : rxKey inst ≠ s.lastKey)
    (h : rxDeliver (noted s inst) inst env = some (t, exit)) :
    RxCase s inst env (if exit.releases then releaseIfTaken t else t) exit := by
  obtain ⟨⟨held₁, om⟩, hget, h⟩ := Option.bind_eq_some_iff.mp h
  have hheld : (noted s inst).held = s.held := rearm_held s inst
  rw [hheld] at hget
  rcases osMbufGetPkthdr_eq_some hget with ⟨hhdr, rfl, rfl⟩ | ⟨b, hhdr, rfl, htake⟩
  · cases h
    have hsame : { noted s inst with held := s.held } = noted s inst := by rw [← hheld]
    rw [hsame]
    exact .noMbuf hacc hkey hhdr
  · obtain ⟨⟨held, om, ok⟩, hcopyinto, h⟩ := Option.map_eq_some_iff.mp h
    obtain ⟨rfl, hblocks, hmore, hdata⟩ := osMbufCopyinto_eq_some hcopyinto
    cases hok : env.copy.ok with
    | false =>
      simp only [hok, Bool.not_false, if_true] at h
      cases h
      exact .copyFailed hacc hkey hhdr htake hmore hok
    | true =>
      cases hput : env.put with
      | false =>
        simp only [hok, hput, Bool.not_true, Bool.not_false, if_true] at h
        cases h
        exact .putFailed hacc hkey hhdr htake hmore hok hput
      | true =>
        simp only [hok, hput, Bool.not_true] at h
        cases h
        have hq : (noted s inst).rxpktQ = s.rxpktQ := rearm_rxpktQ s inst
        rw [hq]
        refine .queued hacc hkey hhdr htake hmore hok hput hblocks ?_
        rw [(hdata hok).2]
        simp [splice]

theorem rxCase_of_eq {s t : State β} {inst : UwbDev} {env : MbufEnv β} {exit : RxExit}
    (h : rxCompleteCb s inst env = some (t, exit)) : RxCase s inst env t exit := by
  simp only [rxCompleteCb] at h
  split at h
  · rename_i hfctrl
    cases h
    exact .foreign fun hb ↦ hfctrl hb.1
  split at h
  · rename_i hcode
    cases h
    exact .foreign fun hb ↦ hb.2 hcode
  rename_i hfctrl hcode
  have hb : IsBackhaul inst := ⟨not_not.mp hfctrl, hcode⟩
  split at h
  · rename_i haddr
    cases h
    refine .notAddressed hb fun hacc ↦ ?_
    rw [rearm_gRole] at haddr
    rcases haddr with ⟨h₁, h₂⟩ | hrole | hrole
    · exact hacc.address.elim h₁ h₂
    · simp [hacc.role] at hrole
    · simp [hacc.role] at hrole
  rename_i haddr
  rw [rearm_gRole] at haddr
  split at h
  · rename_i hlen
    have hacc : Accepts s inst := by
      refine ⟨hb, ?_, ?_, hlen⟩
      · by_contra hno
        exact haddr (Or.inl (not_or.mp hno))
      · cases hrole : s.gRole with
        | invalid => exact absurd (Or.inr (Or.inl hrole)) haddr
        | bridge => rfl
        | producer => exact absurd (Or.inr (Or.inr hrole)) haddr
    split at h
    · rename_i hlast
      rw [rearm_lastAddress, rearm_lastSeqNum] at hlast
      cases h
      exact .repeated hacc (Prod.ext hlast.1 hlast.2)
    · rename_i hlast
      rw [rearm_lastAddress, rearm_lastSeqNum] at hlast
      obtain ⟨⟨t', exit'⟩, hdel, heq⟩ := Option.map_eq_some_iff.mp h
      cases heq
      refine rxCase_of_deliver hacc (fun hkey ↦ hlast ?_) hdel
      exact ⟨congrArg Prod.fst hkey, congrArg Prod.snd hkey⟩
  · rename_i hlen
    cases h
    exact .tooShort hb fun hacc ↦ hlen hacc.frameLen

/-- The frame gets the callback to its guarded release: it is of this service, and neither dropped
as a repeat nor lost with a chain that could not be copied into or queued. -/
def ReachesRelease (s : State β) (inst : UwbDev) (env : MbufEnv β) : Prop :=
  IsBackhaul inst ∧ (Accepts s inst →
    rxKey inst ≠ s.lastKey ∧ (env.hdr.isSome → env.copy.ok ∧ env.put))

instance (s : State β) (inst : UwbDev) (env : MbufEnv β) : Decidable (ReachesRelease s inst env) :=
  instDecidableAnd

/-- Which frames the callback claims. -/
theorem RxCase.claims_iff {s t : State β} {inst : UwbDev} {env : MbufEnv β} {exit : RxExit}
    (h : RxCase s inst env t exit) : exit.claims ↔ IsBackhaul inst := by
  cases h with
  | foreign h => simp [RxExit.claims, h]
  | notAddressed hb => simp [RxExit.claims, hb]
  | tooShort hb => simp [RxExit.claims, hb]
  | repeated h | noMbuf h | copyFailed h | putFailed h | queued h =>
    simp [RxExit.claims, h.backhaul]

/-- What the callback does to the count: nothing, or a guarded release. -/
theorem RxCase.gSem_eq {s t : State β} {inst : UwbDev} {env : MbufEnv β} {exit : RxExit}
    (h : RxCase s inst env t exit) :
    t.gSem = if ReachesRelease s inst env then max s.gSem 1 else s.gSem := by
  cases h with
  | foreign hb => rw [if_neg fun hr ↦ hb hr.1, rearm_gSem]
  | notAddressed hb hacc | tooShort hb hacc =>
    rw [if_pos ⟨hb, fun h ↦ absurd h hacc⟩, releaseIfTaken_gSem, rearm_gSem]
  | repeated hacc hkey => rw [if_neg fun hr ↦ (hr.2 hacc).1 hkey, rearm_gSem]
  | noMbuf hacc hkey hhdr =>
    rw [if_pos ⟨hacc.backhaul, fun _ ↦ ⟨hkey, by simp [hhdr]⟩⟩, releaseIfTaken_gSem, noted_gSem]
  | copyFailed hacc hkey hhdr htake hmore hcopy =>
    have hno : ¬ ReachesRelease s inst env := by
      intro hr
      simpa [hcopy] using (hr.2 hacc).2 (by simp [hhdr])
    rw [if_neg hno]
    exact noted_gSem s inst
  | putFailed hacc hkey hhdr htake hmore hcopy hput =>
    have hno : ¬ ReachesRelease s inst env := by
      intro hr
      simpa [hput] using (hr.2 hacc).2 (by simp [hhdr])
    rw [if_neg hno]
    exact noted_gSem s inst
  | queued hacc hkey hhdr htake hmore hcopy hput =>
    rw [if_pos ⟨hacc.backhaul, fun _ ↦ ⟨hkey, fun _ ↦ ⟨hcopy, hput⟩⟩⟩, releaseIfTaken_gSem]
    exact congrArg (max · 1) (noted_gSem s inst)

/-- The callback does not move the listening thread. -/
theorem RxCase.listen_eq {s t : State β} {inst : UwbDev} {env : MbufEnv β} {exit : RxExit}
    (h : RxCase s inst env t exit) : t.listen = s.listen := by
  cases h with
  | foreign | repeated => exact rearm_listen s inst
  | notAddressed | tooShort => rw [releaseIfTaken_listen, rearm_listen]
  | noMbuf => rw [releaseIfTaken_listen, noted_listen]
  | copyFailed | putFailed => exact noted_listen s inst
  | queued =>
    rw [releaseIfTaken_listen]
    exact noted_listen s inst

omit [DecidableEq β] in
/-- What `tx_complete_cb` does to the count. -/
theorem txCompleteCb_gSem (s : State β) (fctrl : BitVec 16) :
    (txCompleteCb s fctrl).1.gSem =
      if fctrl = FCNTL_IEEE_RTDOABH ∧ s.gToDxTime = 0 then max s.gSem 1 else s.gSem := by
  rw [txCompleteCb]
  split
  · simp_all
  · split
    · simp_all
    · simp_all

end UwbApps.Backhaul
