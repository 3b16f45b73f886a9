import UwbApps.Lib.Run
import UwbApps.Listener.CaptureSpi
import UwbApps.Listener.Output

/-!
# Where the blocks of the listener are

The listener takes blocks from two pools: `g_mbuf_pool` for the records of the frames, and the
system's for the lines it prints.  `PoolState` has both, the queue between the two callbacks and
the record and the chain of the line that are being worked on; `poolStep` is `rx_complete_cb` or a
part of the loop of `process_rx_data_queue`, with whatever the pools answer.

A pool that has run out is answered in three ways.  A header or a copy of the payload or of the
diagnostics that gets no block drops the frame with what it has, and a line that gets no header is
not printed.  A copy of an impulse response and a piece of a line that get none trip an assertion.
And a record that the queue does not take is forgotten with its blocks.  `runsClean_iff` says that
every block is accounted for, all along a run, exactly if the last two do not happen.
-/

set_option autoImplicit false

open Octets Run

namespace UwbApps.Listener

open Os
open Settings (LstnrConfig)

/-! ## The chain of a record -/

/-- How the chain of a record ends. -/
inductive ChainExit (β : Type*)
  | noMbuf
  | copyFailed
  | asserted
  | putFailed (om : Mbuf β)
  | queued (om : Mbuf β)

section Chain

variable {β : Type*} [DecidableEq β]

/-- What `rx_complete_cb` does from the allocation on, with its assertion: `front` are the writes
whose failure drops the frame, `cir` the impulse responses. -/
def chainExit (held : Finset β) (front cir : List Write) (env : Env β) :
    Option (Finset β × ChainExit β) :=
  (osMbufGetPkthdr held env.hdr).bind fun (held, om) ↦
    match om with
    | none => some (held, .noMbuf)
    | some om =>
      (copyAll held om front env.copies).bind fun (held, om, ok) ↦
        if !ok then some (BlockPool.free held om.blocks, .copyFailed)
        else
          (copyAll held om cir env.cirCopies).bind fun (held, om, ok) ↦
            if !ok then some (held, .asserted)
            else if !env.put then some (held, .putFailed om)
            else some (held, .queued om)

/-- How the callback leaves, if it does. -/
def ChainExit.leave : ChainExit β → Option (RxExit × Option (Mbuf β))
  | .noMbuf => some (.noMbuf, none)
  | .copyFailed => some (.copyFailed, none)
  | .asserted => none
  | .putFailed _ => some (.putFailed, none)
  | .queued om => some (.queued, some om)

/-- Where no assertion fails this is what both builds of the callback do. -/
theorem chainOf_eq (held : Finset β) (front cir : List Write) (env : Env β) :
    chainOf held front cir env = (chainExit held front cir env).bind fun r ↦
      r.2.leave.map fun exit ↦ (r.1, exit.1, exit.2) := by
  rw [chainOf, chainExit, Option.bind_assoc]
  refine congrArg _ (funext fun got ↦ ?_)
  obtain ⟨held, _ | om⟩ := got
  · rfl
  · simp only [Option.bind_assoc]
    refine congrArg _ (funext fun front ↦ ?_)
    obtain ⟨held, om, _ | _⟩ := front
    · rfl
    · simp only [Bool.not_true, Bool.false_eq_true, if_false, Option.bind_assoc]
      refine congrArg _ (funext fun cir ↦ ?_)
      obtain ⟨held, om, _ | _⟩ := cir <;> cases env.put <;> rfl

/-- Every one of the writes gets its blocks. -/
def allOk (ws : List Write) (os : List (CopyOutcome β)) : Bool :=
  (os.take ws.length).all CopyOutcome.ok

theorem ok_of_copyAll {held held' : Finset β} {om om' : Mbuf β} {ws : List Write}
    {os : List (CopyOutcome β)} {ok : Bool} (h : copyAll held om ws os = some (held', om', ok)) :
    ok = allOk ws os := by
  induction ws generalizing held om os with
  | nil =>
    cases h
    simp [allOk]
  | cons w ws ih =>
    rcases os with _ | ⟨o, os⟩
    · cases h
    obtain ⟨⟨held₁, om₁, ok₁⟩, hcopy, h⟩ := Option.bind_eq_some_iff.mp h
    obtain ⟨rfl, -, -, -⟩ := osMbufCopyinto_eq_some hcopy
    have hcons : allOk (w :: ws) (o :: os) = (o.ok && allOk ws os) := by
      rw [allOk, List.length_cons, List.take_succ_cons, List.all_cons]
      rfl
    rw [hcons]
    cases hok : o.ok with
    | true =>
      rw [hok] at h
      rw [Bool.true_and, ih h]
    | false =>
      simp only [hok, Bool.false_eq_true, if_false] at h
      cases h
      rfl

/-- What the chain takes from the pool stays in it. -/
theorem owned_copyAll {held held' : Finset β} {om om' : Mbuf β} {ws : List Write}
    {os : List (CopyOutcome β)} {ok : Bool} {owners : Multiset β}
    (h : copyAll held om ws os = some (held', om', ok))
    (howned : BlockPool.Owned held (↑om.blocks + owners)) :
    BlockPool.Owned held' (↑om'.blocks + owners) ∧ om.blocks <+: om'.blocks := by
  induction ws generalizing held om os with
  | nil =>
    cases h
    exact ⟨howned, List.prefix_rfl⟩
  | cons w ws ih =>
    rcases os with _ | ⟨o, os⟩
    · cases h
    obtain ⟨⟨held₁, om₁, ok₁⟩, hcopy, h⟩ := Option.bind_eq_some_iff.mp h
    obtain ⟨-, hblocks, htake, -⟩ := osMbufCopyinto_eq_some hcopy
    have hnext : BlockPool.Owned held₁ (↑om₁.blocks + owners) := by
      rw [hblocks, ← Multiset.coe_add, Multiset.add_comm (om.blocks : Multiset β),
        Multiset.add_assoc]
      exact howned.takeAll htake
    have hprefix : om.blocks <+: om₁.blocks := hblocks ▸ List.prefix_append _ _
    cases ok₁ with
    | true =>
      obtain ⟨hlast, hrest⟩ := ih h hnext
      exact ⟨hlast, hprefix.trans hrest⟩
    | false =>
      cases h
      exact ⟨hnext, hprefix⟩

/-- The ways the chain of a record can go, with what is out of the pool behind each of them. -/
inductive ChainCase (front cir : List Write) (env : Env β) (owners : Multiset β) (held : Finset β) :
    ChainExit β → Prop
  | noMbuf (hhdr : env.hdr = none) (howned : BlockPool.Owned held owners) :
    ChainCase front cir env owners held .noMbuf
  | copyFailed (hfront : allOk front env.copies = false) (howned : BlockPool.Owned held owners) :
    ChainCase front cir env owners held .copyFailed
  | asserted (hhdr : env.hdr.isSome = true) (hfront : allOk front env.copies = true)
    (hcir : allOk cir env.cirCopies = false) : ChainCase front cir env owners held .asserted
  | putFailed {om : Mbuf β} (hhdr : env.hdr.isSome = true) (hfront : allOk front env.copies = true)
    (hput : env.put = false) (hblocks : om.blocks ≠ [])
    (howned : BlockPool.Owned held (↑om.blocks + owners)) :
    ChainCase front cir env owners held (.putFailed om)
  | queued {om : Mbuf β} (hcir : allOk cir env.cirCopies = true) (hput : env.put = true)
    (hdata : om.data = writeAll [] (front ++ cir))
    (howned : BlockPool.Owned held (↑om.blocks + owners)) :
    ChainCase front cir env owners held (.queued om)

theorem chainCase_of_eq {held held' : Finset β} {front cir : List Write} {env : Env β}
    {owners : Multiset β} {exit : ChainExit β} (howned : BlockPool.Owned held owners)
    (h : chainExit held front cir env = some (held', exit)) :
    ChainCase front cir env owners held' exit := by
  obtain ⟨⟨held₁, om₁⟩, hget, hrest⟩ := Option.bind_eq_some_iff.mp h
  rcases osMbufGetPkthdr_eq_some hget with ⟨hhdr, rfl, rfl⟩ | ⟨block, hblock, rfl, htake⟩
  · obtain ⟨rfl, rfl⟩ := Prod.mk.inj (Option.some.inj hrest)
    exact .noMbuf hhdr howned
  have hhdr : env.hdr.isSome = true := by rw [hblock]; rfl
  obtain ⟨⟨held₂, om₂, ok₂⟩, hfront, hrest⟩ := Option.bind_eq_some_iff.mp hrest
  have howned₁ : BlockPool.Owned held₁ (↑[block] + owners) := howned.take htake
  obtain ⟨howned₂, hprefix⟩ := owned_copyAll hfront howned₁
  have hok₂ := ok_of_copyAll hfront
  cases ok₂ with
  | false =>
    obtain ⟨rfl, rfl⟩ := Prod.mk.inj (Option.some.inj hrest)
    exact .copyFailed hok₂.symm howned₂.free
  | true =>
    obtain ⟨⟨held₃, om₃, ok₃⟩, hcir, hrest⟩ := Option.bind_eq_some_iff.mp hrest
    obtain ⟨howned₃, hprefix'⟩ := owned_copyAll hcir howned₂
    have hok₃ := ok_of_copyAll hcir
    cases ok₃ with
    | false =>
      obtain ⟨rfl, rfl⟩ := Prod.mk.inj (Option.some.inj hrest)
      exact .asserted hhdr hok₂.symm hok₃.symm
    | true =>
      simp only [Bool.not_true, Bool.false_eq_true, if_false] at hrest
      cases hput : env.put with
      | false =>
        simp only [hput] at hrest
        obtain ⟨rfl, rfl⟩ := Prod.mk.inj (Option.some.inj hrest)
        refine .putFailed hhdr hok₂.symm hput (fun hnil ↦ ?_) howned₃
        have hprefix'' := hprefix.trans hprefix'
        rw [hnil] at hprefix''
        exact absurd (List.prefix_nil.mp hprefix'') (List.cons_ne_nil block [])
      | true =>
        simp only [hput] at hrest
        obtain ⟨rfl, rfl⟩ := Prod.mk.inj (Option.some.inj hrest)
        refine .queued hok₃.symm hput ?_ howned₃
        rw [writeAll_append, copyAll_eq_some hcir, copyAll_eq_some hfront]

end Chain

/-! ## The steps -/

/-- What the listener is and runs on. -/
structure Target where
  b : Build
  edge : LeadingEdge
  dr : Driver
  /-- `n_instances`. -/
  n : ℕ
  /-- `ETH_0`: the line goes to a socket. -/
  eth : Bool
  undef : CFloat → ℤ

/-- The variables of the listener that have to do with blocks. -/
structure PoolState (β γ : Type*) where
  /-- The blocks out of `g_mbuf_pool`. -/
  held : Finset β
  rxpktQ : List (Msg β)
  /-- The record that is being processed. -/
  om : Option (Msg β)
  /-- The blocks that the listener has out of the system's pool. -/
  sysHeld : Finset γ
  /-- The chain of the line. -/
  m : Option (Mbuf γ)
  /-- The blocks of the lines that the socket has taken. -/
  sent : List γ
  scratch : Scratch
  /-- An assertion has failed. -/
  asserted : Bool

/-- A frame as the callback finds it: the configuration, the devices, the receivers over SPI of a
build with `PDOA_SPI_NUM_INSTANCES`, the device of the callback, and what the pool answers. -/
structure RxFrame (β : Type*) where
  accSamplesToLoad : ℕ
  devs : List UwbDev
  spi : Option (List PdoaCirData)
  inst : ℕ
  env : Env β

/-- What the system's pool answers: the header, and a call of `os_mbuf_append` after the other. -/
structure PrintEnv (γ : Type*) where
  hdr : Option γ
  appends : List (CopyOutcome γ)

inductive PoolEvent (β γ : Type*)
  | rx (rx : RxFrame β)
  /-- `os_mqueue_get`. -/
  | getMsg
  /-- From there to the end of the line. -/
  | printMsg (conf : LstnrConfig) (env : PrintEnv γ)
  /-- The line is sent or freed, and the record freed.  `rc` is what `mn_sendto` returns, in a build
  that calls it. -/
  | finishMsg (rc : ℤ)
  /-- The network is done with what the socket has taken. -/
  | netDone

section Steps

variable {β γ : Type*} [DecidableEq β] [DecidableEq γ]

/-- The writes before the impulse responses. -/
def RxFrame.front (tg : Target) (rx : RxFrame β) (dev : UwbDev) : List Write :=
  match rx.spi with
  | none => frontWrites tg.b rx.devs dev
  | some _ => [⟨0, fetch dev.rxbuf dev.frameLen.toNat⟩]

def RxFrame.cir (tg : Target) (rx : RxFrame β) (dev dev₀ : UwbDev) : List Write :=
  match rx.spi with
  | none => cirWrites tg.b rx.accSamplesToLoad rx.devs dev
  | some pdata => cirWritesSpi tg.b rx.accSamplesToLoad dev₀.cir pdata dev

/-- The message in the chain `om`. -/
def RxFrame.msg (tg : Target) (rx : RxFrame β) (dev dev₀ : UwbDev) (om : Mbuf β) : Msg β :=
  match rx.spi with
  | none => ⟨hdrOf tg.b rx.env.utime rx.devs dev, none, om⟩
  | some pdata => msgOfSpi tg.b tg.edge rx.env.utime dev₀.cir pdata dev om

/-- The callback is not for the last of two devices, or the devices have different frames. -/
def RxFrame.skipped (rx : RxFrame β) : Bool :=
  decide (rx.devs.length = 2 ∧ rx.inst ≠ 1) || differs rx.devs

/-- What an exit leaves of the variables. -/
def PoolState.leave (tg : Target) (s : PoolState β γ) (rx : RxFrame β) (dev dev₀ : UwbDev)
    (held : Finset β) : ChainExit β → PoolState β γ
  | .noMbuf | .copyFailed | .putFailed _ => { s with held }
  | .asserted => { s with held, asserted := true }
  | .queued om => { s with held, rxpktQ := s.rxpktQ ++ [rx.msg tg dev dev₀ om] }

/-- `rx_complete_cb`. -/
def rxStep (tg : Target) (s : PoolState β γ) (rx : RxFrame β) : Option (PoolState β γ) :=
  rx.devs[rx.inst]?.bind fun dev ↦ rx.devs.head?.bind fun dev₀ ↦
    if rx.skipped then some s
    else
      (chainExit s.held (rx.front tg dev) (rx.cir tg dev dev₀) rx.env).map fun (held, exit) ↦
        s.leave tg rx dev dev₀ held exit

/-- `end_msg`: the record is freed and `print_buffer` cleared. -/
def endMsg (s : PoolState β γ) (msg : Msg β) : PoolState β γ :=
  { s with
    held := BlockPool.free s.held msg.om.blocks
    om := none
    scratch := { s.scratch with printBuffer := fun _ ↦ 0 } }

/-- From the allocation of the line's chain to its last `mprintf`. -/
def printStep (tg : Target) (s : PoolState β γ) (msg : Msg β) (conf : LstnrConfig)
    (env : PrintEnv γ) : Option (PoolState β γ) :=
  if !(readPayload msg s.scratch.printBuffer).2 then some (endMsg s msg)
  else
    (osMbufGetPkthdr s.sysHeld env.hdr).bind fun (sysHeld, m) ↦
      match m with
      | none => some (endMsg { s with sysHeld } msg)
      | some m =>
        let (report, scratch) := reportOf tg.b tg.dr tg.n conf msg s.scratch
        (printAll sysHeld m (reportPieces tg.undef report) env.appends).map
          fun (sysHeld, m, ok) ↦ { s with sysHeld, m := some m, scratch, asserted := !ok }

/-- The chain of the line goes to the socket, or is freed. -/
def dropLine (tg : Target) (s : PoolState β γ) (m : Mbuf γ) (rc : ℤ) : PoolState β γ :=
  if tg.eth && rc == 0 then { s with m := none, sent := s.sent ++ m.blocks }
  else { s with m := none, sysHeld := BlockPool.free s.sysHeld m.blocks }

/-- One step.  There is none behind a failed assertion. -/
def poolStep (tg : Target) (s : PoolState β γ) (ev : PoolEvent β γ) : Option (PoolState β γ) :=
  if s.asserted then none
  else
    match ev with
    | .rx rx => rxStep tg s rx
    | .getMsg =>
      match s.om, s.rxpktQ with
      | none, msg :: rest => some { s with om := some msg, rxpktQ := rest }
      | _, _ => none
    | .printMsg conf env =>
      match s.om, s.m with
      | some msg, none => printStep tg s msg conf env
      | _, _ => none
    | .finishMsg rc =>
      match s.om, s.m with
      | some msg, some m => some (endMsg (dropLine tg s m rc) msg)
      | _, _ => none
    | .netDone => some { s with sysHeld := BlockPool.free s.sysHeld s.sent, sent := [] }

/-- As the program starts. -/
def PoolState.init : PoolState β γ where
  held := ∅
  rxpktQ := []
  om := none
  sysHeld := ∅
  m := none
  sent := []
  scratch := Scratch.init
  asserted := false

omit [DecidableEq β] in
theorem om_dropLine (tg : Target) (s : PoolState β γ) (m : Mbuf γ) (rc : ℤ) :
    (dropLine tg s m rc).om = s.om := by
  rw [dropLine]
  split <;> rfl

omit [DecidableEq β] in
theorem m_dropLine (tg : Target) (s : PoolState β γ) (m : Mbuf γ) (rc : ℤ) :
    (dropLine tg s m rc).m = none := by
  rw [dropLine]
  split <;> rfl

/-! ## The callback of either build -/

/-- A message of the build without receivers over SPI. -/
def plainMsg (msg : UwbMsgHdr × Mbuf β) : Msg β := ⟨msg.1, none, msg.2⟩

/-- What the callback leaves, if no assertion has failed. -/
def unlessAsserted (s : PoolState β γ) : Option (Finset β × List (Msg β)) :=
  if s.asserted then none else some (s.held, s.rxpktQ)

theorem exists_cons_of_getElem? {α : Type*} {xs : List α} {i : ℕ} {x : α} (h : xs[i]? = some x) :
    ∃ y ys, xs = y :: ys :=
  List.exists_cons_of_ne_nil fun hnil ↦ by simp [hnil] at h

omit [DecidableEq β] in
theorem skipped_iff {rx : RxFrame β} :
    rx.skipped = true ↔ (rx.devs.length = 2 ∧ rx.inst ≠ 1) ∨ differs rx.devs = true := by
  rw [RxFrame.skipped, Bool.or_eq_true, decide_eq_true_iff]

omit [DecidableEq γ] in
/-- `rxStep` is `rx_complete_cb` of the build without receivers over SPI. -/
theorem rxStep_plain (tg : Target) {c : State β} {s : PoolState β γ} (hheld : s.held = c.held)
    (hq : s.rxpktQ = c.rxpktQ.map plainMsg) (hrun : s.asserted = false) (devs : List UwbDev)
    (inst : ℕ) (env : Env β) :
    (rxStep tg s ⟨c.accSamplesToLoad, devs, none, inst, env⟩).bind unlessAsserted =
      (rxCompleteCb tg.b c devs inst env).map fun r ↦ (r.1.held, r.1.rxpktQ.map plainMsg) := by
  have hsame : unlessAsserted s = some (c.held, c.rxpktQ.map plainMsg) := by
    rw [unlessAsserted, hrun, hheld, hq]
    rfl
  rw [rxStep, rxCompleteCb]
  rcases hdev : devs[inst]? with _ | dev
  · rfl
  obtain ⟨dev₀, rest, rfl⟩ := exists_cons_of_getElem? hdev
  simp only [List.head?_cons, Option.bind_some]
  by_cases htwo : (dev₀ :: rest).length = 2 ∧ inst ≠ 1
  · rw [if_pos (skipped_iff.mpr (Or.inl htwo)), if_pos htwo]
    exact hsame
  by_cases hdiffers : differs (dev₀ :: rest) = true
  · rw [if_pos (skipped_iff.mpr (Or.inr hdiffers)), if_neg htwo, if_pos hdiffers]
    exact hsame
  rw [if_neg fun hskip ↦ (skipped_iff.mp hskip).elim htwo hdiffers, if_neg htwo,
    if_neg hdiffers, deliver_eq, chainOf_eq,
    hheld]
  simp only [RxFrame.front, RxFrame.cir]
  rcases chainExit c.held (frontWrites tg.b (dev₀ :: rest) dev)
    (cirWrites tg.b c.accSamplesToLoad (dev₀ :: rest) dev) env with _ | ⟨held, exit⟩
  · rfl
  · cases exit <;> simp [PoolState.leave, ChainExit.leave, unlessAsserted, hrun, hq, RxFrame.msg,
      plainMsg]

omit [DecidableEq γ] in
/-- And of the build with them. -/
theorem rxStep_spi (tg : Target) {c : SpiState β} {s : PoolState β γ} (hheld : s.held = c.held)
    (hq : s.rxpktQ = c.rxpktQ) (hrun : s.asserted = false) (devs : List UwbDev)
    (pdata : List PdoaCirData) (inst : ℕ) (env : Env β) :
    (rxStep tg s ⟨c.accSamplesToLoad, devs, some pdata, inst, env⟩).bind unlessAsserted =
      (rxCompleteCbSpi tg.b tg.edge c devs pdata inst env).map fun r ↦ (r.1.held, r.1.rxpktQ) := by
  have hsame : unlessAsserted s = some (c.held, c.rxpktQ) := by
    rw [unlessAsserted, hrun, hheld, hq]
    rfl
  rw [rxStep, rxCompleteCbSpi]
  rcases hdev : devs[inst]? with _ | dev
  · rfl
  obtain ⟨dev₀, rest, rfl⟩ := exists_cons_of_getElem? hdev
  simp only [List.head?_cons, Option.bind_some]
  by_cases htwo : (dev₀ :: rest).length = 2 ∧ inst ≠ 1
  · rw [if_pos (skipped_iff.mpr (Or.inl htwo)), if_pos htwo]
    exact hsame
  by_cases hdiffers : differs (dev₀ :: rest) = true
  · rw [if_pos (skipped_iff.mpr (Or.inr hdiffers)), if_neg htwo, if_pos hdiffers]
    exact hsame
  rw [if_neg fun hskip ↦ (skipped_iff.mp hskip).elim htwo hdiffers, if_neg htwo,
    if_neg hdiffers, deliverSpi_eq, chainOf_eq,
    hheld]
  simp only [RxFrame.front, RxFrame.cir]
  rcases chainExit c.held [⟨0, fetch dev.rxbuf dev.frameLen.toNat⟩]
    (cirWritesSpi tg.b c.accSamplesToLoad dev₀.cir pdata dev) env with _ | ⟨held, exit⟩
  · rfl
  · cases exit <;> simp [PoolState.leave, ChainExit.leave, unlessAsserted, hrun, hq, RxFrame.msg]

/-- What a line of output can leave: no more than before, or the chain of the line so far. -/
theorem printStep_eq_some {tg : Target} {s t : PoolState β γ} {msg : Msg β} {conf : LstnrConfig}
    {env : PrintEnv γ} (h : printStep tg s msg conf env = some t) :
    env.hdr = none ∧ t = endMsg s msg ∨
      ∃ block held sysHeld m ok, env.hdr = some block ∧
        BlockPool.take s.sysHeld block = some held ∧
        printAll held ⟨[block], []⟩
          (reportPieces tg.undef (reportOf tg.b tg.dr tg.n conf msg s.scratch).1) env.appends =
            some (sysHeld, m, ok) ∧
        t = { s with
          sysHeld, m := some m, scratch := (reportOf tg.b tg.dr tg.n conf msg s.scratch).2,
          asserted := !ok } := by
  have hcopy : (readPayload msg s.scratch.printBuffer).2 = true := by
    simp [readPayload, osMbufCopydata]
  rw [printStep, hcopy, Bool.not_true, if_neg Bool.false_ne_true] at h
  obtain ⟨⟨held, m⟩, hget, hrest⟩ := Option.bind_eq_some_iff.mp h
  rcases osMbufGetPkthdr_eq_some hget with ⟨hhdr, rfl, rfl⟩ | ⟨block, hhdr, rfl, htake⟩
  · exact Or.inl ⟨hhdr, (Option.some.inj hrest).symm⟩
  · obtain ⟨⟨sysHeld, m, ok⟩, hprint, rfl⟩ := Option.map_eq_some_iff.mp hrest
    exact Or.inr ⟨block, held, sysHeld, m, ok, hhdr, htake, hprint, rfl⟩

/-- What has been printed is the line of `process_rx_data_queue`. -/
theorem data_of_printStep {tg : Target} {s t : PoolState β γ} {msg : Msg β}
    {conf : LstnrConfig} {env : PrintEnv γ} {m : Mbuf γ}
    (h : printStep tg s msg conf env = some t) (hm : t.m = some m) (hs : s.m = none)
    (hrun : t.asserted = false) :
    ∃ line, (processMsg tg.undef tg.b tg.dr tg.n conf true msg s.scratch).1 = some line ∧
      m.data = bytesOf line := by
  rcases printStep_eq_some h with ⟨-, rfl⟩ | ⟨block, held, sysHeld, m', ok, -, -, hprint, rfl⟩
  · cases hs.symm.trans hm
  · obtain rfl : m' = m := Option.some.inj hm
    obtain rfl : ok = true := by simpa using hrun
    refine ⟨_, by rw [processMsg_eq], ?_⟩
    rw [(printAll_eq_some hprint).2.2 rfl, join_reportPieces, List.nil_append]

/-! ## Every block accounted for -/

/-- The records behind `rx_complete_cb`, the one in processing first. -/
def PoolState.records (s : PoolState β γ) : List (Msg β) := s.om.toList ++ s.rxpktQ

/-- No assertion has failed, and what is out of the two pools is in the records and in the lines. -/
structure Accounted (s : PoolState β γ) : Prop where
  running : s.asserted = false
  held : BlockPool.Owned s.held ↑(s.records.flatMap fun msg ↦ msg.om.blocks)
  line : BlockPool.Owned s.sysHeld ↑(s.m.elim [] Mbuf.blocks ++ s.sent)
  /-- A line is printed for a record. -/
  idle : s.om = none → s.m = none

/-- A frame is dropped with all its blocks, or its whole record is queued. -/
def DroppedOrQueued (tg : Target) (s t : PoolState β γ) (rx : RxFrame β) : Prop :=
  t.held = s.held ∧ t.rxpktQ = s.rxpktQ ∨
    ∃ dev dev₀ om, rx.devs[rx.inst]? = some dev ∧ rx.devs.head? = some dev₀ ∧
      om.data = writeAll [] (rx.front tg dev ++ rx.cir tg dev dev₀) ∧
      t.rxpktQ = s.rxpktQ ++ [rx.msg tg dev dev₀ om]

/-- All along the run every block is accounted for, and every frame dropped or queued. -/
def RunsClean (tg : Target) (es : List (PoolEvent β γ)) : Prop :=
  ∀ pre post s, es = pre ++ post → run (poolStep tg) PoolState.init pre = some s →
    Accounted s ∧ ∀ rx rest t, post = .rx rx :: rest → poolStep tg s (.rx rx) = some t →
      DroppedOrQueued tg s t rx

/-- The frame has been copied up to the impulse responses, and then one of these gets no block or
the queue does not take the record. -/
def RxFrame.fails (tg : Target) (rx : RxFrame β) : Bool :=
  !rx.skipped && rx.env.hdr.isSome &&
    rx.devs[rx.inst]?.any fun dev ↦ rx.devs.head?.any fun dev₀ ↦
      allOk (rx.front tg dev) rx.env.copies &&
        !(allOk (rx.cir tg dev dev₀) rx.env.cirCopies && rx.env.put)

/-- Such a frame, or a line that gets its header and then not all it needs. -/
def PoolEvent.fails (tg : Target) : PoolEvent β γ → Bool
  | .rx frame => frame.fails tg
  | .printMsg _ env => env.hdr.isSome && !env.appends.all CopyOutcome.ok
  | _ => false

omit [DecidableEq β] [DecidableEq γ] in
theorem accounted_init : Accounted (PoolState.init : PoolState β γ) :=
  ⟨rfl, rfl, rfl, fun _ ↦ rfl⟩

omit [DecidableEq β] [DecidableEq γ] in
/-- The callback leaves what belongs to the line alone. -/
theorem accounted_leave {s : PoolState β γ} (hs : Accounted s) {held : Finset β}
    {q : List (Msg β)}
    (howned : BlockPool.Owned held ↑((s.om.toList ++ q).flatMap fun msg ↦ msg.om.blocks)) :
    Accounted { s with held, rxpktQ := q } :=
  ⟨hs.running, howned, hs.line, hs.idle⟩

omit [DecidableEq β] in
theorem RxFrame.om_msg (tg : Target) (rx : RxFrame β) (dev dev₀ : UwbDev) (om : Mbuf β) :
    (rx.msg tg dev dev₀ om).om = om := by
  rw [RxFrame.msg]
  split <;> rfl

omit [DecidableEq β] in
theorem fails_eq {tg : Target} {rx : RxFrame β} {dev dev₀ : UwbDev}
    (hdev : rx.devs[rx.inst]? = some dev) (hdev₀ : rx.devs.head? = some dev₀)
    (hskip : ¬ rx.skipped = true) :
    rx.fails tg = (rx.env.hdr.isSome && (allOk (rx.front tg dev) rx.env.copies &&
      !(allOk (rx.cir tg dev dev₀) rx.env.cirCopies && rx.env.put))) := by
  rw [RxFrame.fails, Bool.eq_false_iff.mpr hskip, hdev, hdev₀, Bool.not_false, Bool.true_and]
  rfl

omit [DecidableEq γ] in
/-- All a frame can do. -/
theorem rxStep_eq_some {tg : Target} {s t : PoolState β γ} {rx : RxFrame β}
    (h : rxStep tg s rx = some t) :
    ∃ dev dev₀, rx.devs[rx.inst]? = some dev ∧ rx.devs.head? = some dev₀ ∧
      (rx.skipped = true ∧ t = s ∨
        ¬ rx.skipped = true ∧ ∃ held exit,
          chainExit s.held (rx.front tg dev) (rx.cir tg dev dev₀) rx.env = some (held, exit) ∧
            t = s.leave tg rx dev dev₀ held exit) := by
  obtain ⟨dev, hdev, h⟩ := Option.bind_eq_some_iff.mp h
  obtain ⟨dev₀, hdev₀, h⟩ := Option.bind_eq_some_iff.mp h
  refine ⟨dev, dev₀, hdev, hdev₀, ?_⟩
  by_cases hskip : rx.skipped = true
  · rw [if_pos hskip] at h
    exact Or.inl ⟨hskip, (Option.some.inj h).symm⟩
  · rw [if_neg hskip] at h
    obtain ⟨⟨held, exit⟩, hchain, rfl⟩ := Option.map_eq_some_iff.mp h
    exact Or.inr ⟨hskip, held, exit, hchain, rfl⟩

omit [DecidableEq γ] in
/-- A frame leaves every block accounted for exactly if it does not fail. -/
theorem rxStep_iff {tg : Target} {s t : PoolState β γ} {rx : RxFrame β} (hs : Accounted s)
    (h : rxStep tg s rx = some t) : Accounted t ↔ rx.fails tg = false := by
  obtain ⟨dev, dev₀, hdev, hdev₀, ⟨hskip, rfl⟩ | ⟨hskip, held, exit, hchain, rfl⟩⟩ :=
    rxStep_eq_some h
  · simp [hs, RxFrame.fails, hskip]
  rw [fails_eq hdev hdev₀ hskip]
  rcases chainCase_of_eq hs.held hchain with
    ⟨hhdr, howned⟩ | ⟨hfront, howned⟩ | ⟨hhdr, hfront, hcir⟩ |
    ⟨hhdr, hfront, hput, hblocks, howned⟩ | ⟨hcir, hput, hdata, howned⟩
  · simp [hhdr, PoolState.leave, accounted_leave hs howned]
  · simp [hfront, PoolState.leave, accounted_leave hs howned]
  · simp only [hhdr, hfront, hcir, PoolState.leave]
    exact iff_of_false (fun ht ↦ Bool.noConfusion ht.running) (by simp)
  · simp only [hhdr, hfront, hput, PoolState.leave]
    refine iff_of_false (fun ht ↦ hblocks ?_) (by simp)
    have hsum := Multiset.add_left_inj.mp
      ((howned.unique ht.held).trans (Multiset.zero_add _).symm)
    exact (Multiset.coe_eq_zero _).mp hsum
  · simp only [hcir, hput, PoolState.leave]
    refine iff_of_true (accounted_leave hs ?_) (by simp)
    rw [Multiset.add_comm, Multiset.coe_add] at howned
    rw [← List.append_assoc, List.flatMap_append, List.flatMap_singleton, RxFrame.om_msg]
    exact howned

omit [DecidableEq γ] in
/-- A frame that leaves every block accounted for has been dropped or queued. -/
theorem droppedOrQueued_of_rxStep {tg : Target} {s t : PoolState β γ} {rx : RxFrame β}
    (hs : Accounted s) (ht : Accounted t) (h : rxStep tg s rx = some t) :
    DroppedOrQueued tg s t rx := by
  obtain ⟨dev, dev₀, hdev, hdev₀, ⟨-, rfl⟩ | ⟨-, held, exit, hchain, rfl⟩⟩ := rxStep_eq_some h
  · exact Or.inl ⟨rfl, rfl⟩
  rcases chainCase_of_eq hs.held hchain with
    ⟨-, howned⟩ | ⟨-, howned⟩ | ⟨-, -, -⟩ | ⟨-, -, -, -, -⟩ | ⟨-, -, hdata, -⟩
  · exact Or.inl ⟨Finset.val_inj.mp (howned.trans hs.held.symm), rfl⟩
  · exact Or.inl ⟨Finset.val_inj.mp (howned.trans hs.held.symm), rfl⟩
  · exact Bool.noConfusion ht.running
  · exact Or.inl ⟨Finset.val_inj.mp (ht.held.trans hs.held.symm), rfl⟩
  · exact Or.inr ⟨dev, dev₀, _, hdev, hdev₀, hdata, rfl⟩

omit [DecidableEq γ] in
/-- At `end_msg` the blocks of the record go back. -/
theorem accounted_endMsg {s : PoolState β γ} {msg : Msg β} (hs : Accounted s)
    (hom : s.om = some msg) (hm : s.m = none) : Accounted (endMsg s msg) := by
  refine ⟨hs.running, ?_, hs.line, fun _ ↦ hm⟩
  have hheld := hs.held
  rw [PoolState.records, hom, Option.toList_some, List.singleton_append, List.flatMap_cons,
    ← Multiset.coe_add] at hheld
  exact hheld.free

omit [DecidableEq β] in
/-- The blocks of the line go to the socket or back. -/
theorem accounted_dropLine (tg : Target) {s : PoolState β γ} {m : Mbuf γ} (hs : Accounted s)
    (hm : s.m = some m) (rc : ℤ) : Accounted (dropLine tg s m rc) := by
  have hline := hs.line
  rw [hm, Option.elim_some, ← Multiset.coe_add] at hline
  rw [dropLine]
  split
  · refine ⟨hs.running, hs.held, ?_, fun _ ↦ rfl⟩
    rwa [Multiset.add_comm, Multiset.coe_add] at hline
  · exact ⟨hs.running, hs.held, hline.free, fun _ ↦ rfl⟩

/-- A line leaves every block accounted for exactly if it gets all it needs behind its header. -/
theorem printStep_iff {tg : Target} {s t : PoolState β γ} {msg : Msg β} {conf : LstnrConfig}
    {env : PrintEnv γ} (hs : Accounted s) (hom : s.om = some msg) (hm : s.m = none)
    (h : printStep tg s msg conf env = some t) :
    Accounted t ↔ (env.hdr.isSome && !env.appends.all CopyOutcome.ok) = false := by
  rcases printStep_eq_some h with
    ⟨hhdr, rfl⟩ | ⟨block, held, sysHeld, m, ok, hhdr, htake, hprint, rfl⟩
  · exact iff_of_true (accounted_endMsg hs hom hm) (by rw [hhdr]; rfl)
  obtain ⟨hall, howned, -⟩ := printAll_eq_some hprint
  rw [hhdr, Option.isSome_some, Bool.true_and, ← hall]
  refine ⟨fun ht ↦ ht.running, fun hok ↦ ⟨hok, hs.held, ?_, fun hnone ↦ ?_⟩⟩
  · have hline := hs.line
    rw [hm, Option.elim_none, List.nil_append] at hline
    rw [Option.elim_some, ← Multiset.coe_add]
    exact howned _ (hline.take htake)
  · cases hom.symm.trans hnone

/-- The steps, with what they need. -/
inductive PoolCase (tg : Target) (s : PoolState β γ) : PoolEvent β γ → PoolState β γ → Prop
  | rx {rx : RxFrame β} {t : PoolState β γ} (hrx : rxStep tg s rx = some t) :
    PoolCase tg s (.rx rx) t
  | getMsg {msg : Msg β} {rest : List (Msg β)} (hom : s.om = none) (hq : s.rxpktQ = msg :: rest) :
    PoolCase tg s .getMsg { s with om := some msg, rxpktQ := rest }
  | printMsg {msg : Msg β} {conf : LstnrConfig} {env : PrintEnv γ} {t : PoolState β γ}
    (hom : s.om = some msg) (hm : s.m = none) (hprint : printStep tg s msg conf env = some t) :
    PoolCase tg s (.printMsg conf env) t
  | finishMsg {msg : Msg β} {m : Mbuf γ} {rc : ℤ} (hom : s.om = some msg)
    (hm : s.m = some m) : PoolCase tg s (.finishMsg rc)
      (endMsg (dropLine tg s m rc) msg)
  | netDone :
    PoolCase tg s .netDone { s with sysHeld := BlockPool.free s.sysHeld s.sent, sent := [] }

theorem poolCase_of_eq {tg : Target} {s t : PoolState β γ} {ev : PoolEvent β γ}
    (h : poolStep tg s ev = some t) : PoolCase tg s ev t := by
  rw [poolStep.eq_def] at h
  by_cases hrun : s.asserted = true
  · rw [if_pos hrun] at h
    cases h
  rw [if_neg hrun] at h
  rcases ev with frame | _ | ⟨conf, env⟩ | rc | _
  · exact .rx h
  · rcases hom : s.om with _ | msg <;> rcases hq : s.rxpktQ with _ | ⟨next, rest⟩ <;>
      simp only [hom, hq] at h
    all_goals cases h
    exact .getMsg hom hq
  · rcases hom : s.om with _ | msg <;> rcases hm : s.m with _ | m <;> simp only [hom, hm] at h
    on_goal 3 => exact .printMsg hom hm h
    all_goals cases h
  · rcases hom : s.om with _ | msg <;> rcases hm : s.m with _ | m <;> simp only [hom, hm] at h
    all_goals cases h
    exact .finishMsg hom hm
  · obtain rfl := Option.some.inj h
    exact .netDone

/-- **What one step preserves.** -/
theorem poolStep_iff {tg : Target} {s t : PoolState β γ} {ev : PoolEvent β γ} (hs : Accounted s)
    (h : poolStep tg s ev = some t) : Accounted t ↔ ev.fails tg = false := by
  rcases poolCase_of_eq h with
    hrx | ⟨hom, hq⟩ | ⟨hom, hm, hprint⟩ | ⟨hom, hm⟩ | _
  · exact rxStep_iff hs hrx
  · have hheld := hs.held
    rw [PoolState.records, hom, hq] at hheld
    exact iff_of_true ⟨hs.running, hheld, hs.line, fun hnone ↦ by cases hnone⟩ rfl
  · exact printStep_iff hs hom hm hprint
  · exact iff_of_true (accounted_endMsg (accounted_dropLine tg hs hm _)
      ((om_dropLine tg s _ _).trans hom) (m_dropLine tg s _ _)) rfl
  · have hline := hs.line
    rw [← Multiset.coe_add, Multiset.add_comm] at hline
    refine iff_of_true ⟨hs.running, hs.held, ?_, hs.idle⟩ rfl
    rw [List.append_nil]
    exact hline.free

theorem always_accounted_iff {tg : Target} {es : List (PoolEvent β γ)} {t : PoolState β γ}
    (hrun : run (poolStep tg) PoolState.init es = some t) :
    (∀ pre post s, es = pre ++ post → run (poolStep tg) PoolState.init pre = some s →
        Accounted s) ↔
      Each (poolStep tg) (fun _ ev ↦ ev.fails tg = false) PoolState.init es :=
  always_iff_each (fun _ _ _ hs h ↦ poolStep_iff hs h) accounted_init hrun

/-- A listener with one receiver and without a socket. -/
def sampleTarget : Target :=
  ⟨sampleBuild true, sampleEdge, sampleDriver, 1, false, fun _ ↦ 0⟩

/-- A frame of one byte with its impulse response, in a chain of the one block `0`, as far as the
impulse response and the queue let it. -/
def sampleFrame (cirOk put : Bool) : PoolEvent ℕ ℕ :=
  .rx ⟨1, [sampleDev 1 [0, 0]], none, 0,
    ⟨0, some 0, [⟨[], true⟩, ⟨[], true⟩], [⟨[], cirOk⟩], put⟩⟩

/-- Its line, with the last of its eleven pieces in a second block or, if there is none, without. -/
def sampleLine (lastOk : Bool) : PoolEvent ℕ ℕ :=
  .printMsg ⟨1, 0x1000⟩
    ⟨some 7, List.replicate 10 ⟨[], true⟩ ++ [⟨if lastOk then [8] else [], lastOk⟩]⟩

end Steps

end UwbApps.Listener
