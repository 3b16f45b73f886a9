import UwbApps.Backhaul.Bridge
import UwbApps.Backhaul.Repeats

/-!
# Producers, the air and a bridge

Any number of producers send their packages to one bridge.  The air keeps every frame that was
transmitted: the bridge may receive one late, out of order, several times or never, with frames of
other services in between.  `netStep` is a call at a producer, a frame the bridge receives, or one
of the bridge's own calls, and a run is any order of these.

What goes out is `wire` of a package, up to the ranges in use; `airPkgs` says which package that
is: the one the producer has built, with the reference anchor of its round before.

`printed_reads_sent` is the safety of the whole: whatever the bridge prints reads as a package that
was sent before.
-/

set_option autoImplicit false

open Octets Packed Run

namespace UwbApps.Backhaul

open Os

variable {N : ℕ} {ι φ β : Type*} [DecidableEq ι] [DecidableEq β]

/-- The producers, what is on the air, and the bridge. -/
structure Network (N : ℕ) (ι β : Type*) where
  producers : ι → SendState N
  /-- Every frame that was transmitted, oldest first. -/
  air : List (List UInt8)
  /-- How many of these the bridge has received, counting repeats. -/
  heard : ℕ
  bridge : Bridge N β
  /-- `my_short_address` of the bridge. -/
  bridgeAddress : BitVec 16

/-- The network at start-up. -/
def Network.init (N : ℕ) (address : ι → BitVec 16) (bridgeAddress : BitVec 16) : Network N ι β where
  producers i := sendInit N (address i)
  air := []
  heard := 0
  bridge := Bridge.init N bridgeAddress
  bridgeAddress := bridgeAddress

inductive NetEvent (ι φ β : Type*)
  /-- A call at a producer. `tx` is what its transmit buffer held before. -/
  | produce (i : ι) (call : SendCall φ) (tx : Mem)
  /-- The bridge receives frame `k`, with `tail` behind it, over what its receive buffer held. -/
  | deliver (k : ℕ) (tail : List UInt8) (rxbuf : Mem) (rxtimestamp : BitVec 64) (env : MbufEnv β)
  /-- It receives a frame of another service. -/
  | foreign (inst : UwbDev) (env : MbufEnv β)
  /-- One of its own calls. -/
  | bridge (e : BridgeEvent φ β)

/-- What a call puts on the air: the transmit buffer when the radio is started, as long as
`uwb_write_tx_fctrl` was told. -/
def transmitted (D : Driver φ) (s : SendState N) (tx : Mem) : SendCall φ → List (List UInt8)
  | .send rtdoa dxTime err =>
    if dxTime ≠ 0 ∧ err = false then
      (rtdoaBackhaulSend D s.gRole s.gResultPkg rtdoa dxTime err).toList.map fun r ↦
        fetch (txBuffer tx r.calls) r.dlen.toNat
    else []
  | _ => []

/-- The longest frame of the radio. -/
def maxFrameLen : ℕ := 1023

/-- The radio of the bridge when it has received a frame. -/
def received (frame tail : List UInt8) (rxbuf : Mem) (rxtimestamp : BitVec 64)
    (myShortAddress : BitVec 16) : UwbDev where
  fctrl := (uint 2).dec (store rxbuf 0 (frame ++ tail))
  rxbuf := store rxbuf 0 (frame ++ tail)
  frameLen := BitVec.ofNat 16 (frame.length + tail.length)
  rxtimestamp := rxtimestamp
  myShortAddress := myShortAddress

/-- The calls that do not come from the radio.  `rtdoa_local_send` is called by the two senders
only. -/
def BridgeEvent.own : BridgeEvent φ β → Bool
  | .call (.rx ..) | .call (.localSend ..) => false
  | _ => true

/-- A step at the bridge. -/
def Network.atBridge (D : Driver φ) (s : Network N ι β) (e : BridgeEvent φ β) :
    Option (Network N ι β) :=
  (bridgeStep D s.bridge e).map fun bridge ↦ { s with bridge }

def netStep (D : Driver φ) (s : Network N ι β) : NetEvent ι φ β → Option (Network N ι β)
  | .produce i call tx =>
    (sendStep D (s.producers i) call).map fun p ↦
      { s with
        producers := Function.update s.producers i p
        air := s.air ++ transmitted D (s.producers i) tx call }
  | .deliver k tail rxbuf rxtimestamp env =>
    s.air[k]?.bind fun frame ↦
      if frame.length + tail.length ≤ maxFrameLen then
        { s with heard := s.heard + 1 }.atBridge D
          (.call (.rx (received frame tail rxbuf rxtimestamp s.bridgeAddress) env))
      else none
  | .foreign inst env => if IsBackhaul inst then none else s.atBridge D (.call (.rx inst env))
  | .bridge e => if e.own then s.atBridge D e else none

/-! ## What is sent and what is printed -/

/-- The bytes of a package up to the ranges in use. -/
def wire (p : RtdoabhTagResultsPkg N) : List UInt8 := (encode p).take (sendLength p).toNat

/-- The package a producer puts on the air.  Its reference anchor is the one of the round before. -/
def airPkgs (D : Driver φ) (s : Network N ι β) : NetEvent ι φ β → List (RtdoabhTagResultsPkg N)
  | .produce i (.send rtdoa dxTime err) _ =>
    let p := s.producers i
    if dxTime ≠ 0 ∧ err = false then
      (rtdoaBackhaulSend D p.gRole p.gResultPkg rtdoa dxTime err).toList.map fun r ↦
        { r.pkg with refAnchorAddr := p.gResultPkg.refAnchorAddr }
    else []
  | _ => []

/-- The packages the bridge has itself. -/
def ownPkgs (D : Driver φ) (s : Network N ι β) : NetEvent ι φ β → List (RtdoabhTagResultsPkg N)
  | .bridge (.send rtdoa dxTime err _) =>
    (rtdoaBackhaulSend D s.bridge.st.gRole s.bridge.gResultPkg rtdoa dxTime err).toList.map
      SendRun.pkg
  | .bridge (.sendImuOnly ts _) => [imuPkg s.bridge.gResultPkgImu ts]
  | _ => []

/-- The packages sent, over the air or locally. -/
def sentPkgs (D : Driver φ) (s : Network N ι β) (e : NetEvent ι φ β) :
    List (RtdoabhTagResultsPkg N) :=
  airPkgs D s e ++ ownPkgs D s e

/-- The packages the bridge prints. `stack` is what lies behind them in memory. -/
def netPrinted (stack : Mem) (s : Network N ι β) : NetEvent ι φ β → List (RtdoabhTagResultsPkg N)
  | .bridge e => (printedMsgs s.bridge e).map (printedPkg N stack)
  | _ => []

/-- A printed package says what the package said: everything but the ranges not in use. -/
structure Reads (q p : RtdoabhTagResultsPkg N) : Prop where
  head : q.head = p.head
  sensors : q.sensors = p.sensors
  refAnchorAddr : q.refAnchorAddr = p.refAnchorAddr
  numRanges : q.numRanges = p.numRanges
  usedRanges : usedRanges q = usedRanges p

/-! ## On the air -/

theorem length_wire (p : RtdoabhTagResultsPkg N) (hnum : p.numRanges.toNat ≤ N) :
    (wire p).length = 53 + 8 * p.numRanges.toNat := by
  rw [wire, List.length_take, length_encode, sizeofPkg_eq, sendLength_eq]
  omega

/-- The bytes on the wire are those of the package. -/
theorem agree_wire (p : RtdoabhTagResultsPkg N) :
    Agree (53 + 8 * p.numRanges.toNat) (load (wire p)) (load (encode p)) := by
  intro k hk
  rw [load, load, wire, List.getD_eq_getElem?_getD, List.getD_eq_getElem?_getD,
    List.getElem?_take_of_lt (by rw [sendLength_eq]; omega)]

/-- The bytes from `num_ranges` on are the count and the ranges. -/
theorem load_encode_back {p q : RtdoabhTagResultsPkg N} (hnum : q.numRanges = p.numRanges)
    (hranges : q.ranges = p.ranges) {k : ℕ} (hk : 52 ≤ k) :
    load (encode p) k = load (encode q) k := by
  have hlen : ∀ r : RtdoabhTagResultsPkg N,
      ((headLayout.enc r.head ++ sensorLayout.enc r.sensors) ++
      (uint 2).enc r.refAnchorAddr).length = 52 := by
    intro r
    simp only [List.length_append, Packed.length_enc]
    rfl
  have hat : ∀ r : RtdoabhTagResultsPkg N, load (encode r) k =
      load ((uint 1).enc r.numRanges ++ (array N rangeLayout).enc r.ranges) (k - 52) := by
    intro r
    rw [encode_eq, ← List.append_assoc, ← load_append_add _ _ (k - 52), hlen r]
    congr 1
    omega
  rw [hat, hat, hnum, hranges]

omit [DecidableEq ι] [DecidableEq β] in
/-- **What goes on the air**: the two partial writes of a round make one package, and the transmit
buffer's old contents do not show. -/
theorem transmitted_eq (D : Driver φ) (s : Network N ι β) (i : ι) (tx : Mem) (call : SendCall φ) :
    transmitted D (s.producers i) tx call = (airPkgs D s (.produce i call tx)).map wire ∧
      ∀ p ∈ airPkgs D s (.produce i call tx), p.numRanges.toNat ≤ N := by
  cases call with
  | send rtdoa dxTime err =>
    rw [transmitted, airPkgs]
    split
    · next hair =>
      rcases hr : rtdoaBackhaulSend D (s.producers i).gRole (s.producers i).gResultPkg rtdoa dxTime
        err with _ | r
      · exact ⟨rfl, fun _ h ↦ nomatch h⟩
      · obtain ⟨p₃, hp₃, rfl⟩ := Option.map_eq_some_iff.mp hr
        obtain ⟨hfront, hnum⟩ := sendRanges_eq_some hp₃ (Nat.zero_le N)
        let q : RtdoabhTagResultsPkg N :=
          { p₃ with refAnchorAddr := (s.producers i).gResultPkg.refAnchorAddr }
        refine ⟨?_, fun p hp ↦ ?_⟩
        · have hbytes : fetch (txBuffer tx (sendFirstCalls dxTime (sendHead
              (s.producers i).gResultPkg) ++ sendSecondCalls dxTime p₃)) (sendLength p₃).toNat =
              wire q := by
            rw [wire, show sendLength q = sendLength p₃ from rfl,
              ← fetch_load (by rw [length_encode, sizeofPkg_eq, sendLength_eq]; omega)]
            refine fetch_congr fun k hk ↦ ?_
            rw [txBuffer_send hair.1 tx _ p₃ hnum hk]
            split
            · next hlt =>
              exact (agree_front_iff (p := sendHead (s.producers i).gResultPkg) (q := q)
                hfront.head hfront.sensors).mpr rfl k hlt
            · next hge =>
              exact load_encode_back (p := p₃) (q := q) rfl rfl (not_lt.mp hge)
          exact congrArg (fun b ↦ [b]) hbytes
        · obtain rfl : p = q := List.mem_singleton.mp hp
          exact hnum
    · exact ⟨rfl, fun _ h ↦ nomatch h⟩
  | setTs | setA2a | setRole => exact ⟨rfl, fun _ h ↦ nomatch h⟩

/-! ## At the bridge -/

omit [DecidableEq β] in
/-- A message that starts with the bytes of a package is printed as it. -/
theorem reads_of_agree {p : RtdoabhTagResultsPkg N} {om : Mbuf β} (stack : Mem)
    (hagree : Agree (53 + 8 * p.numRanges.toNat) (load om.data) (load (encode p)))
    (hnum : p.numRanges.toNat ≤ N) : Reads (printedPkg N stack om) p := by
  have hmem : Agree (53 + 8 * p.numRanges.toNat) (pkgMem N stack om) (load (encode p)) := by
    intro k hk
    rw [pkgMem_of_lt stack om (by rw [sizeofPkg_eq]; omega)]
    exact hagree k hk
  have hcount : (printedPkg N stack om).numRanges = p.numRanges :=
    (numRangesField N).get_of_agree p (hmem.mono (Nat.le_add_right 53 _))
  refine ⟨(headField N).get_of_agree p (hmem.mono ?_),
    (sensorField N (.whole _)).get_of_agree p (hmem.mono ?_),
    (refAnchorAddrField N).get_of_agree p (hmem.mono ?_), hcount, ?_⟩
  · exact le_trans (show 11 ≤ 53 by decide) (Nat.le_add_right 53 _)
  · exact le_trans (show 50 ≤ 53 by decide) (Nat.le_add_right 53 _)
  · exact le_trans (show 52 ≤ 53 by decide) (Nat.le_add_right 53 _)
  · rw [usedRanges, usedRanges, hcount]
    refine List.ext_getElem (by simp) fun i hi _ ↦ ?_
    rw [List.length_take, Vector.length_toList] at hi
    simp only [List.getElem_take, Vector.getElem_toList]
    refine (rangeField N ⟨i, by omega⟩).get_of_agree p (hmem.mono ?_)
    show 11 + (39 + (2 + (1 + (i * 8 + 0)))) + 8 ≤ _
    omega

/-- How a message gets into the queue. -/
inductive Joins (D : Driver φ) (s : Bridge N β) : BridgeEvent φ β → Mbuf β → Prop
  | rx {inst : UwbDev} {env : MbufEnv β} {om : Mbuf β} (hacc : Accepts s.st inst)
      (hdata : om.data = fetch inst.rxbuf (msgDlen inst.frameLen.toNat)) :
      Joins D s (.call (.rx inst env)) om
  | localSend {buf : Mem} {dlen : ℕ} {env : MbufEnv β} {om : Mbuf β} :
      Joins D s (.call (.localSend buf dlen env)) om
  | send {rtdoa : RtdoaInstance φ} {dxTime : BitVec 64} {err : Bool} {env : MbufEnv β}
      {r : SendRun N} {om : Mbuf β}
      (hr : rtdoaBackhaulSend D s.st.gRole s.gResultPkg rtdoa dxTime err = some r)
      (hnum : r.pkg.numRanges.toNat ≤ N) (hdata : om.data = wire r.pkg) :
      Joins D s (.send rtdoa dxTime err env) om
  | sendImuOnly {ts : BitVec 64} {env : MbufEnv β} {om : Mbuf β}
      (hdata : om.data = (encode (imuPkg s.gResultPkgImu ts)).take offsetofRefAnchorAddr) :
      Joins D s (.sendImuOnly ts env) om

/-- The message an event takes off the queue for good. -/
def taken (s : Bridge N β) : BridgeEvent φ β → List (Mbuf β)
  | .call .finishMsg => s.st.om.toList
  | _ => []

omit [DecidableEq β] in
theorem printedMsgs_subset_taken (s : Bridge N β) (e : BridgeEvent φ β) :
    printedMsgs s e ⊆ taken s e := by
  intro om hom
  cases e with
  | call e =>
    cases e with
    | finishMsg =>
      rw [printedMsgs] at hom
      split at hom
      · exact hom
      · cases hom
    | _ => cases hom
  | _ => cases hom

omit [DecidableEq β] in
/-- What a round hands to `rtdoa_local_send`. -/
theorem localSend_eq {D : Driver φ} {role : RtdoaBackhaulRole} {p : RtdoabhTagResultsPkg N}
    {rtdoa : RtdoaInstance φ} {dxTime : BitVec 64} {err : Bool} {r : SendRun N}
    {bytes : List UInt8} (h : rtdoaBackhaulSend D role p rtdoa dxTime err = some r)
    (hbytes : r.localSend = some bytes) : r.pkg.numRanges.toNat ≤ N ∧ bytes = wire r.pkg := by
  obtain ⟨p₃, hp₃, rfl⟩ := Option.map_eq_some_iff.mp h
  refine ⟨(sendRanges_eq_some hp₃ (Nat.zero_le N)).2, ?_⟩
  simp only at hbytes
  split at hbytes
  · cases hbytes
  · split at hbytes <;> cases hbytes
    rfl

/-- What a received frame adds to the queue. -/
theorem RxCase.joins {D : Driver φ} {s : Bridge N β} {t : State β} {inst : UwbDev}
    {env : MbufEnv β} {exit : RxExit} (h : RxCase s.st inst env t exit) :
    ∃ new, pending { s with st := t } = pending s ++ new ∧
      ∀ om ∈ new, Joins D s (.call (.rx inst env)) om := by
  have hrearm := sameStore_rearm s.st inst
  have hnoted : (noted s.st inst).om = s.st.om ∧ (noted s.st inst).rxpktQ = s.st.rxpktQ :=
    ⟨hrearm.om, hrearm.rxpktQ⟩
  have hrelease := fun u : State β ↦ sameStore_releaseIfTaken u
  have hnone : ∀ u : State β, u.om = s.st.om → u.rxpktQ = s.st.rxpktQ →
      ∃ new, pending { s with st := u } = pending s ++ new ∧
        ∀ om ∈ new, Joins D s (.call (.rx inst env)) om :=
    fun u hom hq ↦ ⟨[], by rw [List.append_nil, pending, pending, hom, hq], nofun⟩
  cases h with
  | foreign | repeated => exact hnone _ hrearm.om hrearm.rxpktQ
  | notAddressed | tooShort =>
    have hboth := hrearm.trans (hrelease _)
    exact hnone _ hboth.om hboth.rxpktQ
  | noMbuf =>
    exact hnone _ ((hrelease _).om.trans hnoted.1) ((hrelease _).rxpktQ.trans hnoted.2)
  | copyFailed | putFailed => exact hnone _ hnoted.1 hnoted.2
  | @queued _ _ _ om hacc _ _ _ _ _ _ _ hdata =>
    refine ⟨[om], ?_, fun om' hom ↦ ?_⟩
    · rw [pending, pending, (hrelease _).om, (hrelease _).rxpktQ, List.append_assoc]
      exact congrArg (·.toList ++ (s.st.rxpktQ ++ [om])) hnoted.1
    · obtain rfl := List.mem_singleton.mp hom
      exact .rx hacc hdata

/-- What a local send adds to the queue. -/
theorem pending_rtdoaLocalSend {s : Bridge N β} {t : State β} {bs : List UInt8} {n : ℕ}
    {env : MbufEnv β} {ok : Bool} (h : rtdoaLocalSend s.st (load bs) n env = some (t, ok))
    (hn : n ≤ bs.length) (hbits : n < 2 ^ 15) {p p' : RtdoabhTagResultsPkg N} :
    pending ⟨t, p, p'⟩ = pending s ∨
      ∃ om, om.data = bs.take n ∧ pending ⟨t, p, p'⟩ = pending s ++ [om] := by
  rcases rtdoaLocalSend_eq_some h with
    ⟨rfl, -⟩ | ⟨_, _, _, -, -, ⟨rfl, -⟩ | ⟨om, -, hdata, rfl, -⟩⟩
  · exact Or.inl rfl
  · exact Or.inl rfl
  · rw [msgDlen, Nat.mod_eq_of_lt hbits, fetch_load hn] at hdata
    exact Or.inr ⟨om, hdata, by rw [pending, pending, List.append_assoc]⟩

/-- **One step at the bridge**, on the queue: one message may leave at the front, and what joins at
the back is a frame that was accepted or a package of the bridge's own. -/
theorem pending_step {D : Driver φ} {s t : Bridge N β} {e : BridgeEvent φ β}
    (h : bridgeStep D s e = some t) :
    ∃ new, taken s e ++ pending t = pending s ++ new ∧ ∀ om ∈ new, Joins D s e om := by
  have hsame : taken s e = [] → pending t = pending s →
      ∃ new, taken s e ++ pending t = pending s ++ new ∧ ∀ om ∈ new, Joins D s e om :=
    fun htaken hpending ↦ ⟨[], by rw [htaken, hpending, List.nil_append, List.append_nil], nofun⟩
  cases e with
  | call e =>
    obtain ⟨st, hst, rfl⟩ := Option.map_eq_some_iff.mp h
    cases e with
    | rx inst env =>
      obtain ⟨⟨t, exit⟩, hrx, rfl⟩ := Option.map_eq_some_iff.mp hst
      exact (rxCase_of_eq hrx).joins
    | localSend buf dlen env =>
      obtain ⟨⟨t, ok⟩, hsend, rfl⟩ := Option.map_eq_some_iff.mp hst
      obtain ⟨hom, new, hq⟩ := prefix_rtdoaLocalSend hsend
      exact ⟨new, by simp [taken, pending, hom, ← hq], fun om _ ↦ .localSend⟩
    | tx fctrl =>
      cases hst
      have hstore := sameStore_txCompleteCb s.st fctrl
      exact hsame rfl (by rw [pending, pending, hstore.om, hstore.rxpktQ])
    | getMsg =>
      obtain ⟨om, rest, hnone, hq, rfl⟩ := getMsg_eq_some hst
      exact hsame rfl (by simp [pending, hnone, hq])
    | finishMsg =>
      obtain ⟨om, hom, rfl⟩ := Option.map_eq_some_iff.mp hst
      exact ⟨[], by simp [taken, pending, hom], nofun⟩
    | setRole role =>
      cases hst
      exact hsame rfl rfl
    | listen dxTime uus =>
      have hstore := sameStore_listenPend hst
      exact hsame rfl (by rw [pending, pending, hstore.om, hstore.rxpktQ])
    | listenStep err =>
      have hstore := sameStore_listenStep hst
      exact hsame rfl (by rw [pending, pending, hstore.om, hstore.rxpktQ])
  | send rtdoa dxTime err env =>
    obtain ⟨⟨t', ok⟩, hsend, rfl⟩ := Option.map_eq_some_iff.mp h
    obtain ⟨r, hr, ⟨-, rfl, -⟩ | ⟨bytes, st, _, hbytes, hlocal, rfl, -⟩⟩ := bridgeSend_eq_some hsend
    · exact hsame rfl rfl
    · obtain ⟨hnum, rfl⟩ := localSend_eq hr hbytes
      have hlen := length_wire r.pkg hnum
      have hbyte := r.pkg.numRanges.isLt
      rcases pending_rtdoaLocalSend hlocal le_rfl (by omega) with hp | ⟨om, hdata, hp⟩
      · exact hsame rfl hp
      · refine ⟨[om], hp, fun om' hom ↦ ?_⟩
        obtain rfl := List.mem_singleton.mp hom
        exact .send hr hnum (hdata.trans (List.take_length))
  | sendImuOnly ts env =>
    obtain ⟨⟨t', ok⟩, hsend, rfl⟩ := Option.map_eq_some_iff.mp h
    obtain ⟨st, hlocal, rfl⟩ := rtdoaBackhaulSendImuOnly_eq_some hsend
    have hlen : sizeofHead + sizeofSensorData ≤ (encode (imuPkg s.gResultPkgImu ts)).length := by
      rw [length_encode, sizeofPkg_eq, sizeofHead_eq, sizeofSensorData_eq]
      omega
    rcases pending_rtdoaLocalSend hlocal hlen (by decide) with hp | ⟨om, hdata, hp⟩
    · exact hsame rfl hp
    · refine ⟨[om], hp, fun om' hom ↦ ?_⟩
      obtain rfl := List.mem_singleton.mp hom
      exact .sendImuOnly hdata
  | setTs | setA2a | sensorData | battery | usb =>
    cases h
    exact hsame rfl rfl

/-- No step at the bridge touches these members of `g_result_pkg_imu`. -/
theorem bridgeStep_imu {D : Driver φ} {s t : Bridge N β} {e : BridgeEvent φ β}
    (h : bridgeStep D s e = some t) :
    t.gResultPkgImu.refAnchorAddr = s.gResultPkgImu.refAnchorAddr ∧
      t.gResultPkgImu.numRanges = s.gResultPkgImu.numRanges := by
  cases e with
  | call e =>
    obtain ⟨st, -, rfl⟩ := Option.map_eq_some_iff.mp h
    exact ⟨rfl, rfl⟩
  | send rtdoa dxTime err env =>
    obtain ⟨⟨t', ok⟩, hsend, rfl⟩ := Option.map_eq_some_iff.mp h
    obtain ⟨r, -, ⟨-, rfl, -⟩ | ⟨_, _, _, -, -, rfl, -⟩⟩ := bridgeSend_eq_some hsend
    · exact ⟨rfl, rfl⟩
    · exact ⟨rfl, rfl⟩
  | sendImuOnly ts env =>
    obtain ⟨⟨t', ok⟩, hsend, rfl⟩ := Option.map_eq_some_iff.mp h
    obtain ⟨st, -, rfl⟩ := rtdoaBackhaulSendImuOnly_eq_some hsend
    exact ⟨rfl, rfl⟩
  | setTs | setA2a | sensorData | battery | usb =>
    cases h
    exact ⟨rfl, rfl⟩

/-! ## What is printed was sent -/

omit [DecidableEq β] in
/-- A message made of a frame that carries the package. -/
theorem reads_received {p : RtdoabhTagResultsPkg N} (hnum : p.numRanges.toNat ≤ N)
    {tail : List UInt8} (hlen : (wire p).length + tail.length ≤ maxFrameLen) (rxbuf : Mem)
    (ts : BitVec 64) (address : BitVec 16) {om : Mbuf β}
    (hdata : om.data = fetch (received (wire p) tail rxbuf ts address).rxbuf
      (msgDlen (received (wire p) tail rxbuf ts address).frameLen.toNat)) (stack : Mem) :
    Reads (printedPkg N stack om) p := by
  have hwire := length_wire p hnum
  have hmax : maxFrameLen = 1023 := rfl
  have hdlen : msgDlen (received (wire p) tail rxbuf ts address).frameLen.toNat =
      (wire p ++ tail).length := by
    simp only [received, msgDlen, BitVec.toNat_ofNat, List.length_append]
    omega
  refine reads_of_agree stack (fun k hk ↦ ?_) hnum
  have hk' : k < (wire p).length := by omega
  rw [← agree_wire p k hk, hdata, hdlen, load, getD_fetch _ (by rw [List.length_append]; omega),
    ← @load_append_of_lt _ tail _ hk']
  exact store_of_mem rxbuf (Nat.zero_le k) (by rw [List.length_append]; omega)

omit [DecidableEq β] in
/-- A message that is an IMU-only package. -/
theorem reads_imuPkg {p : RtdoabhTagResultsPkg N} (href : p.refAnchorAddr = 0)
    (hnum : p.numRanges = 0) {om : Mbuf β}
    (hdata : om.data = (encode p).take offsetofRefAnchorAddr) (stack : Mem) :
    Reads (printedPkg N stack om) p := by
  have hlen : om.data.length = 50 := by
    rw [hdata, List.length_take, length_encode, sizeofPkg_eq, offsetofRefAnchorAddr_eq]
    omega
  obtain ⟨hhead, hsensors⟩ := printedPkg_front stack hdata
    (by rw [offsetofRefAnchorAddr_eq, sizeofPkg_eq]; omega) le_rfl
  have hcount : (printedPkg N stack om).numRanges = 0 :=
    printedPkg_numRanges stack (by rw [hlen, offsetofRefAnchorAddr_eq])
  have hanchor : (printedPkg N stack om).refAnchorAddr = 0 := by
    have hread : (printedPkg N stack om).refAnchorAddr =
        (uint 2).dec fun k ↦ pkgMem N stack om (50 + k) :=
      (refAnchorAddrField N).get_dec _
    rw [hread, (uint 2).dec_congr _ (fun _ ↦ 0) fun k hk ↦ ?_]
    · rfl
    · have hk : k < 2 := hk
      rw [pkgMem_of_lt stack om (by rw [sizeofPkg_eq]; omega), load,
        List.getD_eq_default _ _ (by omega)]
  refine ⟨hhead, hsensors, hanchor.trans href.symm, hcount.trans hnum.symm, ?_⟩
  rw [usedRanges, usedRanges, hcount, hnum]
  rfl

/-- Everything on the way carries a package that was sent. -/
structure NetInv (stack : Mem) (sent : List (RtdoabhTagResultsPkg N)) (s : Network N ι β) :
    Prop where
  air : ∀ frame ∈ s.air, ∃ p ∈ sent, p.numRanges.toNat ≤ N ∧ frame = wire p
  queue : ∀ om ∈ pending s.bridge, ∃ p ∈ sent, Reads (printedPkg N stack om) p
  imuRefAnchorAddr : s.bridge.gResultPkgImu.refAnchorAddr = 0
  imuNumRanges : s.bridge.gResultPkgImu.numRanges = 0

omit [DecidableEq ι] in
/-- A step at the bridge keeps this, if what joins the queue carries a package that was sent. -/
theorem NetInv.atBridge {D : Driver φ} {stack : Mem} {sent sent' : List (RtdoabhTagResultsPkg N)}
    {s t : Network N ι β} {e : BridgeEvent φ β} (h : NetInv stack sent s) (hsub : sent ⊆ sent')
    (hjoins : ∀ om, Joins D s.bridge e om → ∃ p ∈ sent', Reads (printedPkg N stack om) p)
    (hstep : s.atBridge D e = some t) : NetInv stack sent' t := by
  obtain ⟨b, hb, rfl⟩ := Option.map_eq_some_iff.mp hstep
  obtain ⟨new, hqueue, hnew⟩ := pending_step hb
  obtain ⟨href, hnum⟩ := bridgeStep_imu hb
  refine ⟨fun frame hframe ↦ ?_, fun om hom ↦ ?_, href.trans h.imuRefAnchorAddr,
    hnum.trans h.imuNumRanges⟩
  · obtain ⟨p, hp, hwire⟩ := h.air frame hframe
    exact ⟨p, hsub hp, hwire⟩
  · have hmem : om ∈ pending s.bridge ++ new := hqueue ▸ List.mem_append_right _ hom
    rcases List.mem_append.mp hmem with hold | hjoin
    · obtain ⟨p, hp, hreads⟩ := h.queue om hold
      exact ⟨p, hsub hp, hreads⟩
    · exact hjoins om (hnew om hjoin)

/-- **One step** keeps everything on the way in order. -/
theorem NetInv.step {D : Driver φ} {stack : Mem} {sent : List (RtdoabhTagResultsPkg N)}
    {s t : Network N ι β} {e : NetEvent ι φ β} (h : NetInv stack sent s)
    (hstep : netStep D s e = some t) : NetInv stack (sent ++ sentPkgs D s e) t := by
  cases e with
  | produce i call tx =>
    obtain ⟨p, -, rfl⟩ := Option.map_eq_some_iff.mp hstep
    obtain ⟨htrans, hnum⟩ := transmitted_eq D s i tx call
    refine ⟨fun frame hframe ↦ ?_, fun om hom ↦ ?_, h.imuRefAnchorAddr, h.imuNumRanges⟩
    · rcases List.mem_append.mp hframe with hold | hnew
      · obtain ⟨p, hp, hwire⟩ := h.air frame hold
        exact ⟨p, List.mem_append_left _ hp, hwire⟩
      · rw [htrans] at hnew
        obtain ⟨p, hp, rfl⟩ := List.mem_map.mp hnew
        exact ⟨p, List.mem_append_right _ (List.mem_append_left _ hp), hnum p hp, rfl⟩
    · obtain ⟨p, hp, hreads⟩ := h.queue om hom
      exact ⟨p, List.mem_append_left _ hp, hreads⟩
  | deliver k tail rxbuf ts env =>
    obtain ⟨frame, hframe, hstep⟩ := Option.bind_eq_some_iff.mp hstep
    split at hstep
    · next hlen =>
      obtain ⟨p, hp, hnum, rfl⟩ := h.air frame (List.mem_of_getElem? hframe)
      have hheard : NetInv stack sent { s with heard := s.heard + 1 } :=
        ⟨h.air, h.queue, h.imuRefAnchorAddr, h.imuNumRanges⟩
      refine hheard.atBridge (List.subset_append_left ..) (fun om hjoin ↦ ?_) hstep
      cases hjoin with
      | rx hacc hdata =>
        exact ⟨p, List.mem_append_left _ hp, reads_received hnum hlen rxbuf ts _ hdata stack⟩
    · cases hstep
  | foreign inst env =>
    rw [netStep] at hstep
    split at hstep
    · cases hstep
    · next hforeign =>
      refine h.atBridge (List.subset_append_left ..) (fun om hjoin ↦ ?_) hstep
      cases hjoin with
      | rx hacc => exact absurd hacc.backhaul hforeign
  | bridge e =>
    rw [netStep] at hstep
    split at hstep
    · next hown =>
      refine h.atBridge (List.subset_append_left ..) (fun om hjoin ↦ ?_) hstep
      cases hjoin with
      | rx => cases hown
      | localSend => cases hown
      | @send rtdoa dxTime err env r _ hr hnum hdata =>
        refine ⟨r.pkg, List.mem_append_right _ (List.mem_append_right _ ?_), ?_⟩
        · rw [ownPkgs, hr]
          exact List.mem_singleton_self _
        · exact reads_of_agree stack (by rw [hdata]; exact agree_wire r.pkg) hnum
      | @sendImuOnly ts env _ hdata =>
        exact ⟨imuPkg s.bridge.gResultPkgImu ts,
          List.mem_append_right _ (List.mem_append_right _ (List.mem_singleton_self _)),
          reads_imuPkg (p := imuPkg s.bridge.gResultPkgImu ts) h.imuRefAnchorAddr h.imuNumRanges
            hdata stack⟩
    · cases hstep

omit [DecidableEq ι] [DecidableEq β] in
/-- What is printed was in the queue. -/
theorem NetInv.printed {stack : Mem} {sent : List (RtdoabhTagResultsPkg N)} {s : Network N ι β}
    (h : NetInv stack sent s) (e : NetEvent ι φ β) :
    ∀ q ∈ netPrinted stack s e, ∃ p ∈ sent, Reads q p := by
  intro q hq
  cases e with
  | bridge e =>
    obtain ⟨om, hom, rfl⟩ := List.mem_map.mp hq
    refine h.queue om ?_
    have htaken := printedMsgs_subset_taken s.bridge e hom
    cases e with
    | call e =>
      cases e with
      | finishMsg => exact List.mem_append_left _ htaken
      | _ => cases htaken
    | _ => cases htaken
  | _ => cases hq

/-- **Every run** from start-up keeps everything on the way in order. -/
theorem netInv_of_run (D : Driver φ) (stack : Mem) (address : ι → BitVec 16)
    (bridgeAddress : BitVec 16) {es : List (NetEvent ι φ β)} {s : Network N ι β}
    (hrun : run (netStep D) (Network.init N address bridgeAddress) es = some s) :
    (∀ q ∈ gather (netStep D) (netPrinted stack) (Network.init N address bridgeAddress) es,
      ∃ p ∈ gather (netStep D) (sentPkgs D) (Network.init N address bridgeAddress) es,
        Reads q p) ∧
      NetInv stack (gather (netStep D) (sentPkgs D) (Network.init N address bridgeAddress) es)
        s := by
  let I : List (RtdoabhTagResultsPkg N) → List (RtdoabhTagResultsPkg N) → Network N ι β → Prop :=
    fun printed sent s ↦ (∀ q ∈ printed, ∃ p ∈ sent, Reads q p) ∧ NetInv stack sent s
  have hinit : I [] [] (Network.init N address bridgeAddress) :=
    ⟨nofun, nofun, nofun, rfl, rfl⟩
  refine gather_invariant (I := I) (fun printed sent s e t h hstep ↦ ⟨fun q hq ↦ ?_, ?_⟩)
    hinit hrun
  · obtain ⟨p, hp, hreads⟩ : ∃ p ∈ sent, Reads q p := by
      rcases List.mem_append.mp hq with hold | hnew
      · exact h.1 q hold
      · exact h.2.printed e q hnew
    exact ⟨p, List.mem_append_left _ hp, hreads⟩
  · exact h.2.step hstep

/-- **Nothing is printed that was not sent.**  In every run of the network from start-up, with any
number of producers and frames received late, out of order, repeatedly or never, every package the
bridge prints has the head, the sensor values, the reference anchor, the count and the used ranges
of a package that was sent before. -/
theorem printed_reads_sent (D : Driver φ) (stack : Mem) (address : ι → BitVec 16)
    (bridgeAddress : BitVec 16) {es : List (NetEvent ι φ β)} {s : Network N ι β}
    (hrun : run (netStep D) (Network.init N address bridgeAddress) es = some s) :
    ∀ q ∈ gather (netStep D) (netPrinted stack) (Network.init N address bridgeAddress) es,
      ∃ p ∈ gather (netStep D) (sentPkgs D) (Network.init N address bridgeAddress) es,
        Reads q p :=
  (netInv_of_run D stack address bridgeAddress hrun).1

/-- A producer sends a round, and the bridge receives it behind a frame of another service. -/
def sampleNetEvents : List (NetEvent Unit (BitVec 16) ℕ) :=
  [.bridge (.call (.setRole .bridge)),
    .produce () (.send ⟨0x0101, [0x0102]⟩ 1 false) (fun _ ↦ 0xff),
    .foreign { sampleFrame with fctrl := 0 } sampleEnv,
    .deliver 0 [0x12, 0x34] (fun _ ↦ 0xff) 0 sampleEnv, .bridge (.call .getMsg),
    .bridge (.call .finishMsg)]

theorem printed_reads_sent_one_round :
    ∃ q p, gather (netStep addressDriver) (netPrinted fun _ ↦ 0xff)
        (Network.init 16 (fun _ ↦ 0x0102) 0x0001) sampleNetEvents = [q] ∧
      gather (netStep addressDriver) (sentPkgs addressDriver)
        (Network.init 16 (fun _ ↦ 0x0102) 0x0001) sampleNetEvents = [p] ∧
      (usedRanges p).length = 1 ∧ Reads q p := by
  obtain ⟨s, hrun⟩ : ∃ s, run (netStep addressDriver)
      (Network.init 16 (fun _ ↦ 0x0102) 0x0001) sampleNetEvents = some s := ⟨_, rfl⟩
  obtain ⟨q, hq⟩ : ∃ q, gather (netStep addressDriver) (netPrinted fun _ ↦ 0xff)
      (Network.init 16 (fun _ ↦ 0x0102) 0x0001) sampleNetEvents = [q] := ⟨_, rfl⟩
  obtain ⟨p, hp, hlen⟩ : ∃ p, gather (netStep addressDriver) (sentPkgs addressDriver)
      (Network.init 16 (fun _ ↦ 0x0102) 0x0001) sampleNetEvents = [p] ∧
        (usedRanges p).length = 1 := ⟨_, rfl, rfl⟩
  obtain ⟨p', hp', hreads⟩ := printed_reads_sent addressDriver (fun _ ↦ 0xff) _ _ hrun q
    (hq ▸ List.mem_singleton_self q)
  obtain rfl : p' = p := by rwa [hp, List.mem_singleton] at hp'
  exact ⟨q, p', hq, hp, hlen, hreads⟩

end UwbApps.Backhaul
