import UwbApps.Backhaul.Print
import UwbApps.Backhaul.Ranges
import UwbApps.Backhaul.Sensors

/-!
# From the sender to the printed line

A bridge that takes part in ranging prints its own packages too: `rtdoa_backhaul_send` and
`rtdoa_backhaul_send_imu_only` queue a copy with `rtdoa_local_send`, among the frames from the
air, and `process_rx_data_queue` takes the queue in order.  `Bridge` is the module with the two
packages, and `bridgeStep` everything that changes it.

A copy is cut behind the ranges in use, or behind the sensors, and the receiver fills it up with
zeros; `printedPkg` is the package it prints.  `bridge_round_trip` says that the cut and the
filling lose nothing of what the sender had.
-/

set_option autoImplicit false

open Octets Packed Run

namespace UwbApps.Backhaul

open Os

variable {N : ℕ} {φ β : Type*} [DecidableEq β]

/-- The module's variables with `g_result_pkg` and `g_result_pkg_imu`. -/
structure Bridge (N : ℕ) (β : Type*) where
  st : State β
  gResultPkg : RtdoabhTagResultsPkg N
  gResultPkgImu : RtdoabhTagResultsPkg N

/-- What `rtdoa_backhaul_pkg_init` leaves on a device with this short address. -/
def Bridge.init (N : ℕ) (myShortAddress : BitVec 16) : Bridge N β :=
  ⟨State.init, initPkg N myShortAddress, initPkg N myShortAddress⟩

/-- The calls of the module's functions. -/
inductive BridgeEvent (φ β : Type*)
  | call (e : Event β)
  | send (rtdoa : RtdoaInstance φ) (dxTime : BitVec 64) (startTxError : Bool) (env : MbufEnv β)
  | sendImuOnly (ts : BitVec 64) (env : MbufEnv β)
  | setTs (sensorTime : BitVec 64)
  | setA2a
  | sensorData (data : SensorData) (type : SensorType)
  | battery (batteryVolt : CFloat)
  | usb (usbVolt : CFloat)

/-- `rtdoa_backhaul_send`, with whether `rtdoa_local_send` returned `0`, if it was called. -/
def bridgeSend (D : Driver φ) (s : Bridge N β) (rtdoa : RtdoaInstance φ) (dxTime : BitVec 64)
    (startTxError : Bool) (env : MbufEnv β) : Option (Bridge N β × Option Bool) :=
  (rtdoaBackhaulSend D s.st.gRole s.gResultPkg rtdoa dxTime startTxError).bind fun r ↦
    match r.localSend with
    | none => some ({ s with gResultPkg := r.after }, none)
    | some bytes =>
      (rtdoaLocalSend s.st (load bytes) bytes.length env).map fun sent ↦
        ({ s with st := sent.1, gResultPkg := r.after }, some sent.2)

/-- `g_result_pkg_imu` when `rtdoa_backhaul_send_imu_only` sends it. -/
def imuPkg (p : RtdoabhTagResultsPkg N) (ts : BitVec 64) : RtdoabhTagResultsPkg N :=
  { p with
    head := { p.head with seqNum := p.head.seqNum + 1 }
    sensors := { p.sensors with ts } }

/-- `rtdoa_backhaul_send_imu_only`, with whether `rtdoa_local_send` returned `0`. -/
def rtdoaBackhaulSendImuOnly (s : Bridge N β) (ts : BitVec 64) (env : MbufEnv β) :
    Option (Bridge N β × Bool) :=
  let p := imuPkg s.gResultPkgImu ts
  (rtdoaLocalSend s.st (load (encode p)) (sizeofHead + sizeofSensorData) env).map fun sent ↦
    ({ s with st := sent.1, gResultPkgImu := { p with sensors := .zero } }, sent.2)

/-- The sensor values of `g_result_pkg_imu` changed. -/
def Bridge.setSensors (s : Bridge N β) (f : RtdoabhSensorData → RtdoabhSensorData) : Bridge N β :=
  { s with gResultPkgImu := { s.gResultPkgImu with sensors := f s.gResultPkgImu.sensors } }

def bridgeStep (D : Driver φ) (s : Bridge N β) : BridgeEvent φ β → Option (Bridge N β)
  | .call e => (step s.st e).map fun st ↦ { s with st }
  | .send rtdoa dxTime err env => (bridgeSend D s rtdoa dxTime err env).map Prod.fst
  | .sendImuOnly ts env => (rtdoaBackhaulSendImuOnly s ts env).map Prod.fst
  | .setTs t => some { s with gResultPkg := rtdoaBackhaulSetTs s.gResultPkg t }
  | .setA2a => some { s with gResultPkg := rtdoaBackhaulSetA2a s.gResultPkg }
  | .sensorData data type =>
    some (s.setSensors fun d ↦ rtdoaBackhaulSensorDataCb D.undef d data type)
  | .battery v => some (s.setSensors fun d ↦ rtdoaBackhaulBatteryCb D.undef d v)
  | .usb v => some (s.setSensors fun d ↦ rtdoaBackhaulUsbCb d v)

/-- How a round can end: without a copy for the queue, or with one. -/
theorem bridgeSend_eq_some {D : Driver φ} {s t : Bridge N β} {rtdoa : RtdoaInstance φ}
    {dxTime : BitVec 64} {err : Bool} {env : MbufEnv β} {ok : Option Bool}
    (h : bridgeSend D s rtdoa dxTime err env = some (t, ok)) :
    ∃ r, rtdoaBackhaulSend D s.st.gRole s.gResultPkg rtdoa dxTime err = some r ∧
      ((r.localSend = none ∧ t = { s with gResultPkg := r.after } ∧ ok = none) ∨
        ∃ bytes st sent, r.localSend = some bytes ∧
          rtdoaLocalSend s.st (load bytes) bytes.length env = some (st, sent) ∧
          t = { s with st, gResultPkg := r.after } ∧ ok = some sent) := by
  obtain ⟨r, hr, h⟩ := Option.bind_eq_some_iff.mp h
  refine ⟨r, hr, ?_⟩
  split at h
  · rename_i hnone
    cases h
    exact Or.inl ⟨hnone, rfl, rfl⟩
  · rename_i bytes hbytes
    obtain ⟨⟨st, sent⟩, hlocal, heq⟩ := Option.map_eq_some_iff.mp h
    cases heq
    exact Or.inr ⟨bytes, st, sent, hbytes, hlocal, rfl, rfl⟩

theorem rtdoaBackhaulSendImuOnly_eq_some {s t : Bridge N β} {ts : BitVec 64} {env : MbufEnv β}
    {ok : Bool} (h : rtdoaBackhaulSendImuOnly s ts env = some (t, ok)) :
    ∃ st, rtdoaLocalSend s.st (load (encode (imuPkg s.gResultPkgImu ts)))
        (sizeofHead + sizeofSensorData) env = some (st, ok) ∧
      t = { s with st, gResultPkgImu := { imuPkg s.gResultPkgImu ts with sensors := .zero } } := by
  obtain ⟨⟨st, ok'⟩, hlocal, heq⟩ := Option.map_eq_some_iff.mp h
  cases heq
  exact ⟨st, hlocal, rfl⟩

/-! ## The queue -/

/-- The messages that wait to be printed, the one at work first. -/
def pending (s : Bridge N β) : List (Mbuf β) := s.st.om.toList ++ s.st.rxpktQ

/-- The messages `process_rx_data_queue` prints. -/
def printedMsgs (s : Bridge N β) : BridgeEvent φ β → List (Mbuf β)
  | .call .finishMsg => if s.st.gRole = .bridge then s.st.om.toList else []
  | _ => []

/-- The package that is printed for a message.  `stack` is what lies behind it in memory. -/
def printedPkg (N : ℕ) (stack : Mem) (om : Mbuf β) : RtdoabhTagResultsPkg N :=
  (pkgLayout N).dec (pkgMem N stack om)

/-- A received frame joins the queue at the end, if it does. -/
theorem RxCase.prefix_rxpktQ {s t : State β} {inst : UwbDev} {env : MbufEnv β} {exit : RxExit}
    (h : RxCase s inst env t exit) : t.om = s.om ∧ s.rxpktQ <+: t.rxpktQ := by
  have hrearm := sameStore_rearm s inst
  have hnoted : (noted s inst).om = s.om ∧ (noted s inst).rxpktQ = s.rxpktQ :=
    ⟨hrearm.om, hrearm.rxpktQ⟩
  have hrelease := fun u : State β ↦ sameStore_releaseIfTaken u
  cases h with
  | foreign | repeated => exact ⟨hrearm.om, by rw [hrearm.rxpktQ]⟩
  | notAddressed | tooShort =>
    have hboth := hrearm.trans (hrelease _)
    exact ⟨hboth.om, by rw [hboth.rxpktQ]⟩
  | noMbuf => exact ⟨(hrelease _).om.trans hnoted.1, by rw [(hrelease _).rxpktQ, hnoted.2]⟩
  | copyFailed | putFailed => exact ⟨hnoted.1, by rw [← hnoted.2]⟩
  | queued =>
    refine ⟨(hrelease _).om.trans hnoted.1, ?_⟩
    rw [(hrelease _).rxpktQ]
    exact List.prefix_append _ _

omit [DecidableEq β] in
/-- What a step that does not take from the queue does to it. -/
theorem prefix_pending {s t : Bridge N β} (hom : t.st.om = s.st.om)
    (hq : s.st.rxpktQ <+: t.st.rxpktQ) : pending s <+: pending t := by
  rw [pending, pending, hom]
  exact (List.prefix_append_right_inj _).mpr hq

/-- A message that is sent locally joins the queue at the end, if it does. -/
theorem prefix_rtdoaLocalSend {s t : State β} {buf : Mem} {dlen : ℕ} {env : MbufEnv β} {ok : Bool}
    (h : rtdoaLocalSend s buf dlen env = some (t, ok)) : t.om = s.om ∧ s.rxpktQ <+: t.rxpktQ := by
  rcases rtdoaLocalSend_eq_some h with
    ⟨rfl, -⟩ | ⟨_, _, _, -, -, ⟨rfl, -⟩ | ⟨om, -, -, rfl, -⟩⟩
  · exact ⟨rfl, List.prefix_refl _⟩
  · exact ⟨rfl, List.prefix_refl _⟩
  · exact ⟨rfl, List.prefix_append _ _⟩

/-- A call that takes nothing from the queue. -/
theorem prefix_pending_call {s : Bridge N β} {st : State β} {e : Event β}
    (h : step s.st e = some st) (hfinish : e ≠ .finishMsg) :
    pending s <+: pending { s with st } := by
  cases e with
  | rx inst env =>
    obtain ⟨⟨t, exit⟩, hrx, rfl⟩ := Option.map_eq_some_iff.mp h
    obtain ⟨hom, hq⟩ := (rxCase_of_eq hrx).prefix_rxpktQ
    exact prefix_pending hom hq
  | tx fctrl =>
    cases h
    have hsame := sameStore_txCompleteCb s.st fctrl
    exact prefix_pending hsame.om (by rw [hsame.rxpktQ])
  | localSend buf dlen env =>
    obtain ⟨⟨t, ok⟩, hsend, rfl⟩ := Option.map_eq_some_iff.mp h
    obtain ⟨hom, hq⟩ := prefix_rtdoaLocalSend hsend
    exact prefix_pending hom hq
  | getMsg =>
    obtain ⟨om, rest, hnone, hq, rfl⟩ := getMsg_eq_some h
    simp [pending, hnone, hq]
  | finishMsg => exact absurd rfl hfinish
  | setRole role =>
    cases h
    exact List.prefix_refl _
  | listen dxTime uus =>
    have hsame := sameStore_listenPend h
    exact prefix_pending hsame.om (by rw [hsame.rxpktQ])
  | listenStep err =>
    have hsame := sameStore_listenStep h
    exact prefix_pending hsame.om (by rw [hsame.rxpktQ])

/-- In the bridge role every step serves the queue in order. -/
theorem prefix_pending_step {D : Driver φ} {s t : Bridge N β} {e : BridgeEvent φ β}
    (hrole : s.st.gRole = .bridge) (h : bridgeStep D s e = some t) :
    pending s <+: printedMsgs s e ++ pending t := by
  cases e with
  | call e =>
    obtain ⟨st, hst, rfl⟩ := Option.map_eq_some_iff.mp h
    by_cases hfinish : e = .finishMsg
    · subst hfinish
      obtain ⟨om, hom, rfl⟩ := Option.map_eq_some_iff.mp hst
      rw [printedMsgs, if_pos hrole]
      exact List.prefix_refl _
    · have hnone : printedMsgs s (.call e : BridgeEvent φ β) = [] := by
        cases e <;> first | rfl | exact absurd rfl hfinish
      rw [hnone]
      exact prefix_pending_call hst hfinish
  | send rtdoa dxTime err env =>
    obtain ⟨⟨t', ok⟩, hsend, rfl⟩ := Option.map_eq_some_iff.mp h
    obtain ⟨r, -, ⟨-, rfl, -⟩ | ⟨_, _, _, -, hlocal, rfl, -⟩⟩ := bridgeSend_eq_some hsend
    · exact prefix_pending rfl (List.prefix_refl _)
    · obtain ⟨hom, hq⟩ := prefix_rtdoaLocalSend hlocal
      exact prefix_pending hom hq
  | sendImuOnly ts env =>
    obtain ⟨⟨t', ok⟩, hsend, rfl⟩ := Option.map_eq_some_iff.mp h
    obtain ⟨st, hlocal, rfl⟩ := rtdoaBackhaulSendImuOnly_eq_some hsend
    obtain ⟨hom, hq⟩ := prefix_rtdoaLocalSend hlocal
    exact prefix_pending hom hq
  | setTs | setA2a | sensorData | battery | usb =>
    cases h
    exact prefix_pending rfl (List.prefix_refl _)

/-- **A message is printed in its turn**: the one that joins the queue behind `pending s` is the
one printed after these, whatever happens in between. -/
theorem printed_in_turn {D : Driver φ} {s s' t : Bridge N β} {es : List (BridgeEvent φ β)}
    {om : Mbuf β} (hjoin : pending s' = pending s ++ [om])
    (hrun : run (bridgeStep D) s' es = some t)
    (hrole : Each (bridgeStep D) (fun u _ ↦ u.st.gRole = .bridge) s' es) {om' : Mbuf β}
    (hom' : (gather (bridgeStep D) printedMsgs s' es)[(pending s).length]? = some om') :
    om' = om := by
  obtain ⟨rest, hrest⟩ :=
    prefix_gather (fun _ _ _ hr ht ↦ prefix_pending_step hr ht) hrole hrun
  have hlt := (List.getElem?_eq_some_iff.mp hom').1
  have hat := congrArg (·[(pending s).length]?) hrest
  simp only [hjoin, List.append_assoc, List.getElem?_append_right (le_refl (pending s).length),
    Nat.sub_self, List.singleton_append, List.getElem?_cons_zero,
    List.getElem?_append_left hlt] at hat
  rw [hom'] at hat
  exact (Option.some.inj hat).symm

/-! ## The copy -/

omit [DecidableEq β] in
/-- A package is found in the memory of a message that starts with it, as far as the message
goes. -/
theorem agree_pkgMem {p : RtdoabhTagResultsPkg N} {om : Mbuf β} {n : ℕ} (stack : Mem)
    (hdata : om.data = (encode p).take n) (hn : n ≤ sizeofPkg N) :
    Agree n (pkgMem N stack om) (load (encode p)) := by
  intro k hk
  rw [pkgMem_of_lt stack om (by omega), load, load, hdata, List.getD_eq_getElem?_getD,
    List.getD_eq_getElem?_getD, List.getElem?_take_of_lt hk]

/-- `p->head`. -/
def headField (N : ℕ) : Field (pkgLayout N) IeeeRngRequestFrame := (Field.fst (.whole _)).iso _

/-- `p->ranges[i]`. -/
def rangeField (N : ℕ) (i : Fin N) : Field (pkgLayout N) RtdoabhRangeData :=
  (Field.snd (.snd (.snd (.snd (.elem (.whole _) i))))).iso _

omit [DecidableEq β] in
/-- What is printed of a message that carries the head and the sensors. -/
theorem printedPkg_front {p : RtdoabhTagResultsPkg N} {om : Mbuf β} {n : ℕ} (stack : Mem)
    (hdata : om.data = (encode p).take n) (hn : n ≤ sizeofPkg N)
    (hfront : sizeofHead + sizeofSensorData ≤ n) :
    (printedPkg N stack om).head = p.head ∧ (printedPkg N stack om).sensors = p.sensors := by
  have hagree := agree_pkgMem stack hdata hn
  rw [sizeofHead_eq, sizeofSensorData_eq] at hfront
  exact ⟨(headField N).get_of_agree p (hagree.mono (le_trans (Nat.le_add_right 11 39) hfront)),
    (sensorField N (.whole _)).get_of_agree p (hagree.mono hfront)⟩

omit [DecidableEq β] in
/-- What is printed of a message that carries the ranges in use too. -/
theorem printedPkg_ranges {p : RtdoabhTagResultsPkg N} {om : Mbuf β} (stack : Mem)
    (hdata : om.data = (encode p).take (sendLength p).toNat) (hnum : p.numRanges.toNat ≤ N) :
    (printedPkg N stack om).refAnchorAddr = p.refAnchorAddr ∧
      (printedPkg N stack om).numRanges = p.numRanges ∧
      usedRanges (printedPkg N stack om) = usedRanges p := by
  have hlen : (sendLength p).toNat = 53 + 8 * p.numRanges.toNat := by
    rw [sendLength_eq]
    omega
  have hagree := agree_pkgMem stack hdata (by rw [hlen, sizeofPkg_eq]; omega)
  rw [hlen] at hagree
  have hcount : (printedPkg N stack om).numRanges = p.numRanges :=
    (numRangesField N).get_of_agree p (hagree.mono (Nat.le_add_right 53 _))
  refine ⟨(refAnchorAddrField N).get_of_agree p (hagree.mono ?_), hcount, ?_⟩
  · exact le_trans (show 52 ≤ 53 by decide) (Nat.le_add_right 53 _)
  · rw [usedRanges, usedRanges, hcount]
    refine List.ext_getElem (by simp) fun i hi _ ↦ ?_
    rw [List.length_take, Vector.length_toList] at hi
    simp only [List.getElem_take, Vector.getElem_toList]
    refine (rangeField N ⟨i, by omega⟩).get_of_agree p (hagree.mono ?_)
    show 11 + (39 + (2 + (1 + (i * 8 + 0)))) + 8 ≤ _
    omega

omit [DecidableEq β] in
/-- A message that ends behind the sensors counts no ranges. -/
theorem printedPkg_numRanges {om : Mbuf β} (stack : Mem)
    (hdata : om.data.length ≤ offsetofRefAnchorAddr) :
    (printedPkg N stack om).numRanges = 0 := by
  have hzero : pkgMem N stack om 52 = 0 := by
    rw [pkgMem_of_lt stack om (by rw [sizeofPkg_eq]; omega), load,
      List.getD_eq_default _ _ (le_trans hdata (by decide))]
  have hread : (printedPkg N stack om).numRanges =
      (uint 1).dec fun k ↦ pkgMem N stack om (52 + k) :=
    (numRangesField N).get_dec _
  rw [hread, (uint 1).dec_congr _ (fun _ ↦ 0) fun k hk ↦ ?_]
  · rfl
  · obtain rfl : k = 0 := by
      have hk : k < 1 := hk
      omega
    exact hzero

/-! ## The round trip -/

/-- What a successful `rtdoa_local_send` puts into the queue: the first bytes of the package. -/
theorem queued_of_rtdoaLocalSend {s t : State β} {bs : List UInt8} {n : ℕ} {env : MbufEnv β}
    (h : rtdoaLocalSend s (load bs) n env = some (t, true)) (hn : n ≤ bs.length)
    (hbits : n < 2 ^ 15) :
    ∃ om, om.data = bs.take n ∧ t.om = s.om ∧ t.rxpktQ = s.rxpktQ ++ [om] := by
  rcases rtdoaLocalSend_eq_some h with
    ⟨-, hok⟩ | ⟨_, _, _, -, -, ⟨-, hok⟩ | ⟨om, -, hdata, rfl, -⟩⟩
  · cases hok
  · cases hok
  · rw [msgDlen, Nat.mod_eq_of_lt hbits, fetch_load hn] at hdata
    exact ⟨om, hdata, rfl, rfl⟩

/-- The copy `rtdoa_backhaul_send` queues. -/
theorem queued_of_bridgeSend {D : Driver φ} {s s' : Bridge N β} {rtdoa : RtdoaInstance φ}
    {dxTime : BitVec 64} {err : Bool} {env : MbufEnv β}
    (h : bridgeSend D s rtdoa dxTime err env = some (s', some true)) :
    ∃ r om, rtdoaBackhaulSend D s.st.gRole s.gResultPkg rtdoa dxTime err = some r ∧
      r.pkg.numRanges.toNat ≤ N ∧ om.data = (encode r.pkg).take (sendLength r.pkg).toNat ∧
      pending s' = pending s ++ [om] := by
  obtain ⟨r, hr, ⟨-, -, hok⟩ | ⟨bytes, st, ok, hbytes, hlocal, rfl, hok⟩⟩ := bridgeSend_eq_some h
  · cases hok
  obtain rfl : ok = true := (Option.some.inj hok).symm
  obtain ⟨p₃, hp₃, rfl⟩ := Option.map_eq_some_iff.mp hr
  have hnum := (sendRanges_eq_some hp₃ (Nat.zero_le N)).2
  have hbyte := p₃.numRanges.isLt
  obtain rfl : bytes = (encode p₃).take (sendLength p₃).toNat := by
    simp only at hbytes
    split at hbytes
    · cases hbytes
    · split at hbytes <;> cases hbytes
      rfl
  obtain ⟨om, hdata, hom, hq⟩ := queued_of_rtdoaLocalSend hlocal le_rfl (by
    rw [List.length_take, sendLength_eq]
    omega)
  refine ⟨_, om, hr, hnum, by rw [hdata, List.take_length], ?_⟩
  rw [pending, pending, hom, hq, List.append_assoc]

/-- The copy `rtdoa_backhaul_send_imu_only` queues. -/
theorem queued_of_sendImuOnly {s s' : Bridge N β} {ts : BitVec 64} {env : MbufEnv β}
    (h : rtdoaBackhaulSendImuOnly s ts env = some (s', true)) :
    ∃ om, om.data = (encode (imuPkg s.gResultPkgImu ts)).take offsetofRefAnchorAddr ∧
      pending s' = pending s ++ [om] := by
  obtain ⟨st, hlocal, rfl⟩ := rtdoaBackhaulSendImuOnly_eq_some h
  obtain ⟨om, hdata, hom, hq⟩ := queued_of_rtdoaLocalSend hlocal
    (by rw [length_encode, sizeofPkg_eq, sizeofHead_eq, sizeofSensorData_eq]; omega) (by decide)
  refine ⟨om, hdata, ?_⟩
  rw [pending, pending, hom, hq, List.append_assoc]

/-- **The bridge round trip.**  From any state `s` of the module, let a local send succeed and
lead to `s'`, and let the module run on in the bridge role until it has printed what was pending
in `s` and one message more, `om`.  The package printed for `om` has the head and the sensors the
sender had; of a round it has the reference anchor, the count and the ranges in use, and of an
IMU-only package it has no ranges. -/
theorem bridge_round_trip (D : Driver φ) (stack : Mem) {s s' t : Bridge N β}
    {es : List (BridgeEvent φ β)} (hrun : run (bridgeStep D) s' es = some t)
    (hrole : Each (bridgeStep D) (fun u _ ↦ u.st.gRole = .bridge) s' es) {om : Mbuf β}
    (hom : (gather (bridgeStep D) printedMsgs s' es)[(pending s).length]? = some om) :
    (∀ rtdoa dxTime err env, bridgeSend D s rtdoa dxTime err env = some (s', some true) →
      ∃ r, rtdoaBackhaulSend D s.st.gRole s.gResultPkg rtdoa dxTime err = some r ∧
        (printedPkg N stack om).head = r.pkg.head ∧
        (printedPkg N stack om).sensors = r.pkg.sensors ∧
        (printedPkg N stack om).refAnchorAddr = r.pkg.refAnchorAddr ∧
        (printedPkg N stack om).numRanges = r.pkg.numRanges ∧
        usedRanges (printedPkg N stack om) = usedRanges r.pkg) ∧
    (∀ ts env, rtdoaBackhaulSendImuOnly s ts env = some (s', true) →
      (printedPkg N stack om).head = (imuPkg s.gResultPkgImu ts).head ∧
        (printedPkg N stack om).sensors = (imuPkg s.gResultPkgImu ts).sensors ∧
        (printedPkg N stack om).numRanges = 0) := by
  constructor
  · intro rtdoa dxTime err env hsend
    obtain ⟨r, om', hr, hnum, hdata, hjoin⟩ := queued_of_bridgeSend hsend
    obtain rfl := printed_in_turn hjoin hrun hrole hom
    have hlen : (sendLength r.pkg).toNat = 53 + 8 * r.pkg.numRanges.toNat := by
      rw [sendLength_eq]
      omega
    obtain ⟨hhead, hsensors⟩ := printedPkg_front stack hdata
      (by rw [hlen, sizeofPkg_eq]; omega) (by rw [hlen, sizeofHead_eq, sizeofSensorData_eq]; omega)
    exact ⟨r, hr, hhead, hsensors, printedPkg_ranges stack hdata hnum⟩
  · intro ts env hsend
    obtain ⟨om', hdata, hjoin⟩ := queued_of_sendImuOnly hsend
    obtain rfl := printed_in_turn hjoin hrun hrole hom
    obtain ⟨hhead, hsensors⟩ := printedPkg_front stack hdata
      (by rw [offsetofRefAnchorAddr_eq, sizeofPkg_eq]; omega) le_rfl
    refine ⟨hhead, hsensors, printedPkg_numRanges stack ?_⟩
    rw [hdata, List.length_take]
    exact Nat.min_le_left _ _

/-- A bridge that has just started. -/
def sampleBridge : Bridge 16 ℕ :=
  { (Bridge.init 16 0x0001 : Bridge 16 ℕ) with st := { State.init with gRole := .bridge } }

/-- The operating system has a header block and one block more. -/
def sampleEnv : MbufEnv ℕ := ⟨some 0, ⟨[1], true⟩, true⟩

theorem bridge_round_trip_one_range :
    ∃ s' om r, bridgeSend addressDriver sampleBridge ⟨0x0101, [0x0102]⟩ 0 false sampleEnv =
        some (s', some true) ∧
      gather (bridgeStep addressDriver) printedMsgs s' [.call .getMsg, .call .finishMsg] = [om] ∧
      rtdoaBackhaulSend addressDriver .bridge (initPkg 16 0x0001) ⟨0x0101, [0x0102]⟩ 0 false =
        some r ∧
      usedRanges (printedPkg 16 (fun _ ↦ 0xff) om) = usedRanges r.pkg := by
  have hsend : ∃ s', bridgeSend addressDriver sampleBridge ⟨0x0101, [0x0102]⟩ 0 false sampleEnv =
      some (s', some true) ∧ ∃ t, run (bridgeStep addressDriver) s'
        [.call .getMsg, .call .finishMsg] = some t ∧ Each (bridgeStep addressDriver)
          (fun u _ ↦ u.st.gRole = .bridge) s' [.call .getMsg, .call .finishMsg] ∧
        ∃ om, gather (bridgeStep addressDriver) printedMsgs s'
          [.call .getMsg, .call .finishMsg] = [om] := by
    refine ⟨_, rfl, ?_⟩
    exact ⟨_, rfl, by decide, _, rfl⟩
  obtain ⟨s', hs', t, hrun, hrole, om, hom⟩ := hsend
  obtain ⟨r, hr, -, -, -, -, hused⟩ :=
    (bridge_round_trip addressDriver (fun _ ↦ 0xff) hrun hrole
      (by rw [hom]; rfl)).1 _ _ _ _ hs'
  exact ⟨s', om, r, hs', hom, hr, hused⟩

end UwbApps.Backhaul
