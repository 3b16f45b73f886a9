import UwbApps.Backhaul.Blocks
import UwbApps.Backhaul.Imu
import UwbApps.Lib.RateLimit
import UwbApps.RtdoaTag.Battery
import UwbApps.RtdoaTag.Main

/-!
# The sensor timer of a tag

`sensor_timer_ev_cb` as a whole: the sensors, with the compass and the pressure at most every 50 ms,
the supply at most every second, and a package for the bridge unless more than two are waiting.
`Tag` is the module of the backhaul with the variables of the callback, and `tagStep` a call of the
callback or one of the others' calls of the module.

The callback waits for the sensors, and the other threads go on meanwhile.  A `Pass` has what they
call before the back pressure is tested and what they call between the test and the package; before
a reading or after it makes no difference to them.

The limits are on `os_cputime_get32`, which wraps.  `imu_rate` says how many packages of a stretch
of time can carry a compass, a pressure or a battery reading, and `due_by_clock` that the callback
is no slower than the limits either, as long as the gap between two calls and a limit together are
less than a round of the counter.
-/

set_option autoImplicit false

open RateLimit Run

namespace UwbApps.RtdoaTag

open Backhaul

variable {N : ℕ} {S φ β : Type*} [DecidableEq β]

/-! ## The loop over the sensors -/

/-- The reads that the loop makes, each with the type it asks for. -/
def sensorReads (E : SensorEnv S) (types : List SensorType) :
    ℕ → ℕ → ℕ → Option (List (SensorType × SensorRead))
  | 0, _, _ => none
  | fuel + 1, i, n =>
    types[i]?.bind fun type ↦
      if type = .none then some []
      else
        match E.sensorMgrFindNextBytype type with
        | none => sensorReads E types fuel (i + 1) n
        | some _ =>
          (sensorReads E types fuel (if (E.sensorRead n).rc ≠ 0 then i else i + 1) (n + 1)).map
            ((type, E.sensorRead n) :: ·)

/-- The loop puts into the package what these reads deliver. -/
theorem sensorLoop_eq (E : SensorEnv S) (types : List SensorType) (fuel i n : ℕ)
    (d : RtdoabhSensorData) :
    (sensorLoop E types fuel i n d).map Prod.snd =
      (sensorReads E types fuel i n).map fun reads ↦
        reads.foldl (fun d r ↦ r.2.apply E.undef d) d := by
  induction fuel generalizing i n d with
  | zero => rfl
  | succ fuel ih =>
    rw [sensorLoop, sensorReads]
    rcases types[i]? with _ | type
    · rfl
    · rw [Option.bind_some, Option.bind_some]
      by_cases htype : type = .none
      · rw [if_pos htype, if_pos htype]
        rfl
      · rw [if_neg htype, if_neg htype]
        rcases E.sensorMgrFindNextBytype type with _ | s
        · dsimp only
          rw [Option.map_map, ← ih]
          rfl
        · dsimp only
          rw [Option.map_map, Option.map_map]
          exact ih _ _ _

/-- The loop asks for types that are listed. -/
theorem sensorReads_listed {E : SensorEnv S} {types : List SensorType} (hend : .none ∈ types)
    {fuel i n : ℕ} (hi : i ≤ (listed types).length) {reads : List (SensorType × SensorRead)}
    (h : sensorReads E types fuel i n = some reads) : ∀ r ∈ reads, r.1 ∈ listed types := by
  induction fuel generalizing i n reads with
  | zero => cases h
  | succ fuel ih =>
    rw [sensorReads] at h
    rcases Nat.lt_or_eq_of_le hi with hlt | rfl
    · obtain ⟨hget, hne⟩ := getElem?_listed hlt
      rw [hget, Option.bind_some, if_neg hne] at h
      split at h
      · exact ih hlt h
      · obtain ⟨rest, hrest, rfl⟩ := Option.map_eq_some_iff.mp h
        have hnext : (if (E.sensorRead n).rc ≠ 0 then i else i + 1) ≤ (listed types).length := by
          split_ifs
          · exact hi
          · exact hlt
        intro r hr
        rcases List.mem_cons.mp hr with rfl | hr
        · exact List.getElem_mem hlt
        · exact ih hnext hrest r hr
    · rw [getElem?_length_listed hend, Option.bind_some, if_pos rfl] at h
      cases h
      simp

/-! ## The callback -/

/-- The calls that only `sensor_timer_ev_cb` makes. -/
def isOwnCall : BridgeEvent φ β → Bool
  | .sensorData .. | .battery _ | .usb _ | .sendImuOnly .. => true
  | .call _ | .send .. | .setTs _ | .setA2a => false

/-- A call of the module by another thread. -/
abbrev OtherCall (φ β : Type*) := { e : BridgeEvent φ β // isOwnCall e = false }

/-- What a call of `sensor_timer_ev_cb` finds. -/
structure Pass (S φ β : Type*) where
  /-- `uwb_read_systime`. -/
  localTs : BitVec 64
  /-- The readings of `os_cputime_get32` for the compass and the pressure. -/
  mp : Call
  /-- And those for the supply. -/
  batt : Call
  sensors : SensorEnv S
  /-- A bound on the reads: the loop repeats a read that fails. -/
  fuel : ℕ
  supply : SupplyReading
  /-- What the others call until `rtdoa_backhaul_queue_size` is tested. -/
  beforeTest : List (OtherCall φ β)
  /-- What they call between the test and the package. -/
  beforeSend : List (OtherCall φ β)
  /-- `ccp->status.valid`. -/
  ccpValid : Bool
  /-- `uwb_wcs_local_to_master64`, with the clock as it is. -/
  wcsLocalToMaster64 : BitVec 64 → BitVec 64
  env : MbufEnv β

/-- What does not change: the driver, the blocks of `g_mbuf_pool`, and
`os_cputime_usecs_to_ticks`. -/
structure Board (φ : Type*) where
  driver : Driver φ
  numBlocks : ℕ
  osCputimeUsecsToTicks : BitVec 32 → BitVec 32

/-- The limit for the compass and the pressure. -/
def Board.mpTicks (C : Board φ) : BitVec 32 := C.osCputimeUsecsToTicks 50000

/-- The limit for the supply. -/
def Board.battTicks (C : Board φ) : BitVec 32 := C.osCputimeUsecsToTicks 1000000

/-- The module of the backhaul and the variables of the callback. -/
structure Tag (N : ℕ) (β : Type*) where
  bridge : Bridge N β
  lastMpUpdate : BitVec 32
  lastBattUpdate : BitVec 32
  supply : Supply

def Tag.init (N : ℕ) (myShortAddress : BitVec 16) : Tag N β :=
  ⟨Bridge.init N myShortAddress, 0, 0, .init⟩

/-- Whether a pass reads the compass and the pressure. -/
def mpDue (C : Board φ) (s : Tag N β) (p : Pass S φ β) : Bool :=
  due C.mpTicks s.lastMpUpdate (counter 32 p.mp.check)

/-- Whether it reads the supply. -/
def battDue (C : Board φ) (s : Tag N β) (p : Pass S φ β) : Bool :=
  due C.battTicks s.lastBattUpdate (counter 32 p.batt.check)

/-- What the sensors deliver. -/
def sensorCalls (reads : List (SensorType × SensorRead)) : List (BridgeEvent φ β) :=
  reads.flatMap fun r ↦ r.2.calls.map fun call ↦ .sensorData call.1 call.2

/-- What a reading of the supply calls. -/
def SupplyPass.calls (p : SupplyPass) : List (BridgeEvent φ β) :=
  (p.batteryVolt.map fun v ↦ .battery (.val v)).toList ++
    (p.usbVolt.map fun v ↦ .usb (.val v)).toList

/-- The reading of the supply, when it is due. -/
def supplyOf (C : Board φ) (s : Tag N β) (p : Pass S φ β) : Option SupplyPass :=
  if battDue C s p then some (supplyPass s.supply.gBatteryVoltage p.supply) else none

/-- The callback's own calls until the test. -/
def passReads (C : Board φ) (s : Tag N β) (p : Pass S φ β) : Option (List (BridgeEvent φ β)) :=
  (sensorReads p.sensors (sensorTypes (mpDue C s p)) p.fuel 0 0).map fun reads ↦
    sensorCalls reads ++ (supplyOf C s p).elim [] SupplyPass.calls

/-- The timestamp of the package: in the time of the master, when that is known. -/
def Pass.ts (p : Pass S φ β) : BitVec 64 :=
  if p.ccpValid then p.wcsLocalToMaster64 p.localTs >>> 16 else 0

/-- All calls of the module during the callback. -/
def passLog (C : Board φ) (s : Tag N β) (p : Pass S φ β) : Option (List (BridgeEvent φ β)) :=
  (passReads C s p).bind fun reads ↦
    let log := reads ++ p.beforeTest.map Subtype.val
    (run (bridgeStep C.driver) s.bridge log).map fun b ↦
      -- `low_battery_mode` does not return
      if (supplyOf C s p).any SupplyPass.lowBattery || backPressure C.numBlocks b.st then log
      else log ++ p.beforeSend.map Subtype.val ++ [.sendImuOnly p.ts p.env]

/-- `sensor_timer_ev_cb`. -/
def sensorTimerEvCb (C : Board φ) (s : Tag N β) (p : Pass S φ β) : Option (Tag N β) :=
  (passLog C s p).bind fun log ↦
    (run (bridgeStep C.driver) s.bridge log).map fun bridge ↦
      { bridge
        lastMpUpdate := keep C.mpTicks s.lastMpUpdate p.mp
        lastBattUpdate := keep C.battTicks s.lastBattUpdate p.batt
        supply := (supplyOf C s p).elim s.supply fun sp ↦ ⟨sp.gBatteryVoltage, sp.lowBattery⟩ }

/-- What happens on a tag. -/
inductive TagEvent (S φ β : Type*)
  | sensorTimer (p : Pass S φ β)
  | other (e : OtherCall φ β)

/-- One event.  The callback is not called again after `low_battery_mode`. -/
def tagStep (C : Board φ) (s : Tag N β) : TagEvent S φ β → Option (Tag N β)
  | .sensorTimer p => if s.supply.lowBattery then none else sensorTimerEvCb C s p
  | .other e => (bridgeStep C.driver s.bridge e.val).map fun bridge ↦ { s with bridge }

/-- The calls of the module during an event. -/
def tagLog (C : Board φ) (s : Tag N β) : TagEvent S φ β → List (BridgeEvent φ β)
  | .sensorTimer p => (passLog C s p).getD []
  | .other e => [e.val]

/-! ## What a pass does -/

theorem sensorTimerEvCb_eq_some {C : Board φ} {s t : Tag N β} {p : Pass S φ β}
    (h : sensorTimerEvCb C s p = some t) :
    ∃ log, passLog C s p = some log ∧ run (bridgeStep C.driver) s.bridge log = some t.bridge ∧
      t.lastMpUpdate = keep C.mpTicks s.lastMpUpdate p.mp ∧
      t.lastBattUpdate = keep C.battTicks s.lastBattUpdate p.batt := by
  obtain ⟨log, hlog, h⟩ := Option.bind_eq_some_iff.mp h
  obtain ⟨b, hb, rfl⟩ := Option.map_eq_some_iff.mp h
  exact ⟨log, hlog, hb, rfl, rfl⟩

theorem tagStep_sensorTimer {C : Board φ} {s t : Tag N β} {p : Pass S φ β}
    (h : tagStep C s (.sensorTimer p) = some t) : sensorTimerEvCb C s p = some t := by
  rw [tagStep] at h
  split at h
  · cases h
  · exact h

/-- **A tag is a module in use**: what it does is a run of the module. -/
theorem run_tagLog {C : Board φ} {s t : Tag N β} {es : List (TagEvent S φ β)}
    (h : run (tagStep C) s es = some t) :
    run (bridgeStep C.driver) s.bridge (gather (tagStep C) (tagLog C) s es) = some t.bridge := by
  induction es generalizing s with
  | nil =>
    cases h
    rfl
  | cons e es ih =>
    obtain ⟨s', hs, hrun⟩ := run_cons_eq_some.mp h
    rw [gather, hs, Option.elim_some, run_append]
    suffices hstep : run (bridgeStep C.driver) s.bridge (tagLog C s e) = some s'.bridge by
      rw [hstep, Option.bind_some, ih hrun]
    cases e with
    | sensorTimer p =>
      obtain ⟨log, hlog, hb, -⟩ := sensorTimerEvCb_eq_some (tagStep_sensorTimer hs)
      rwa [tagLog, hlog]
    | other e =>
      obtain ⟨b, hb, rfl⟩ := Option.map_eq_some_iff.mp hs
      rw [tagLog, run, hb]
      rfl

/-- The calls of a pass: reads and what the others call, and a package at the end or none. -/
theorem passLog_eq_some {C : Board φ} {s : Tag N β} {p : Pass S φ β} {log : List (BridgeEvent φ β)}
    (h : passLog C s p = some log) :
    ∃ reads, passReads C s p = some reads ∧
      (log = reads ++ p.beforeTest.map Subtype.val ∨
        log = reads ++ p.beforeTest.map Subtype.val ++ p.beforeSend.map Subtype.val ++
          [.sendImuOnly p.ts p.env]) := by
  obtain ⟨reads, hreads, h⟩ := Option.bind_eq_some_iff.mp h
  obtain ⟨b, -, rfl⟩ := Option.map_eq_some_iff.mp h
  refine ⟨reads, hreads, ?_⟩
  split
  · exact Or.inl rfl
  · exact Or.inr rfl

/-! ## The bits of a package -/

/-- Whether the sensor data has one of these bits. -/
def carries (mask : BitVec 14) (d : RtdoabhSensorData) : Bool := d.sensorsValid &&& mask ≠ 0

/-- The package of an event, if it is an IMU-only package. -/
def imuSent (b : Bridge N β) : BridgeEvent φ β → List (RtdoabhTagResultsPkg N)
  | .sendImuOnly ts _ => [imuPkg b.gResultPkgImu ts]
  | _ => []

/-- The IMU-only packages of an event that carry one of these bits. -/
def carrying (C : Board φ) (mask : BitVec 14) (s : Tag N β) (e : TagEvent S φ β) :
    List (RtdoabhTagResultsPkg N) :=
  (gather (bridgeStep C.driver) imuSent s.bridge (tagLog C s e)).filter
    fun p ↦ carries mask p.sensors

/-- Whether the next package is going to carry one of these bits. -/
def owed (mask : BitVec 14) (b : Bridge N β) : ℕ :=
  (carries mask b.gResultPkgImu.sensors).toNat

/-- The event sets none of these bits. -/
def Leaves (undef : CFloat → ℤ) (mask : BitVec 14) (e : BridgeEvent φ β) : Prop :=
  ∀ d, carries mask (absorb undef d e) = carries mask d

omit [DecidableEq β] in
theorem leaves_of_isOwnCall {e : BridgeEvent φ β} (h : isOwnCall e = false) (undef : CFloat → ℤ)
    (mask : BitVec 14) : Leaves undef mask e := by
  intro d
  cases e with
  | call | send | setTs | setA2a => rfl
  | sensorData | battery | usb | sendImuOnly => cases h

omit [DecidableEq β] in
theorem isSendImuOnly_of_isOwnCall {e : BridgeEvent φ β} (h : isOwnCall e = false) :
    isSendImuOnly e = false := by
  cases e with
  | call | send | setTs | setA2a => rfl
  | sensorData | battery | usb | sendImuOnly => cases h

/-- Setting a bit that is not asked for. -/
theorem carries_or {mask bit : BitVec 14} (h : bit &&& mask = 0) (d d' : RtdoabhSensorData)
    (hd : d'.sensorsValid = d.sensorsValid ||| bit) : carries mask d' = carries mask d := by
  rw [carries, carries, hd, BitVec.and_or_distrib_right, h]
  simp

/-- The bits of the compass and the pressure. -/
def mpMask : BitVec 14 := COMPASS_ENABLED ||| PRESSURE_ENABLED

omit [DecidableEq β] in
/-- Only the compass and the pressure set their bits. -/
theorem leaves_sensorData_mp (undef : CFloat → ℤ) (data : SensorData) {type : SensorType}
    (hm : type ≠ .magneticField) (hp : type ≠ .pressure) :
    Leaves undef mpMask (.sensorData data type : BridgeEvent φ β) := by
  intro d
  rcases data with ⟨_ | x, _ | y, _ | z⟩ | ⟨_ | q⟩
  case vec.some.some.some =>
    cases type with
    | accelerometer | linearAccel | gravity | gyroscope =>
      exact carries_or (by decide) d _ rfl
    | magneticField => exact absurd rfl hm
    | none | pressure | other => rfl
  case press.some =>
    cases type with
    | pressure => exact absurd rfl hp
    | _ => rfl
  all_goals cases type <;> rfl

omit [DecidableEq β] in
/-- No sensor sets the bit of the battery. -/
theorem leaves_sensorData_batt (undef : CFloat → ℤ) (data : SensorData) (type : SensorType) :
    Leaves undef BATTERY_LEVELS_ENABLED (.sensorData data type : BridgeEvent φ β) := by
  intro d
  rcases data with ⟨_ | x, _ | y, _ | z⟩ | ⟨_ | q⟩
  case vec.some.some.some =>
    cases type with
    | accelerometer | linearAccel | gravity | gyroscope | magneticField =>
      exact carries_or (by decide) d _ rfl
    | none | pressure | other => rfl
  case press.some =>
    cases type with
    | pressure => exact carries_or (by decide) d _ rfl
    | _ => rfl
  all_goals cases type <;> rfl

omit [DecidableEq β] in
/-- The supply sets no bit but that of the battery. -/
theorem leaves_supply_mp (undef : CFloat → ℤ) (sp : SupplyPass) {e : BridgeEvent φ β}
    (he : e ∈ sp.calls) : Leaves undef mpMask e := by
  rw [SupplyPass.calls, List.mem_append, Option.mem_toList, Option.mem_toList] at he
  rcases he with he | he
  · obtain ⟨v, -, rfl⟩ := Option.map_eq_some_iff.mp he
    exact fun d ↦ carries_or (by decide) d _ rfl
  · obtain ⟨v, -, rfl⟩ := Option.map_eq_some_iff.mp he
    exact fun d ↦ rfl

/-! ## Counting packages -/

/-- Without a package the bits change only where an event sets them. -/
theorem quiet_log {D : Driver φ} {b b' : Bridge N β} {log : List (BridgeEvent φ β)}
    (hquiet : ∀ e ∈ log, isSendImuOnly e = false) (hrun : run (bridgeStep D) b log = some b')
    (mask : BitVec 14) :
    gather (bridgeStep D) imuSent b log = [] ∧
      ((∀ e ∈ log, Leaves D.undef mask e) → owed mask b' = owed mask b) := by
  induction log generalizing b with
  | nil =>
    cases hrun
    exact ⟨rfl, fun _ ↦ rfl⟩
  | cons e log ih =>
    obtain ⟨u, hu, hrun⟩ := run_cons_eq_some.mp hrun
    obtain ⟨he, hquiet⟩ := List.forall_mem_cons.mp hquiet
    obtain ⟨hnone, hkeep⟩ := ih hquiet hrun
    have hsent : imuSent b e = [] := by
      cases e with
      | sendImuOnly => cases he
      | _ => rfl
    refine ⟨by rw [gather, hsent, hu, Option.elim_some, hnone, List.nil_append], fun hleave ↦ ?_⟩
    obtain ⟨hfirst, hrest⟩ := List.forall_mem_cons.mp hleave
    have hsensors := bridgeStep_sensors hu
    rw [he, if_neg Bool.false_ne_true] at hsensors
    rw [hkeep hrest, owed, owed, hsensors, hfirst]

omit [DecidableEq β] in
theorem isSendImuOnly_passReads {C : Board φ} {s : Tag N β} {p : Pass S φ β}
    {reads : List (BridgeEvent φ β)} (h : passReads C s p = some reads) :
    ∀ e ∈ reads, isSendImuOnly e = false := by
  obtain ⟨rs, -, rfl⟩ := Option.map_eq_some_iff.mp h
  intro e he
  rcases List.mem_append.mp he with he | he
  · obtain ⟨r, -, hcall⟩ := List.mem_flatMap.mp he
    obtain ⟨call, -, rfl⟩ := List.mem_map.mp hcall
    rfl
  · rcases hsupply : supplyOf C s p with _ | sp
    · rw [hsupply] at he
      cases he
    · rw [hsupply, Option.elim_some, SupplyPass.calls, List.mem_append, Option.mem_toList,
        Option.mem_toList] at he
      rcases he with he | he
      · obtain ⟨v, -, rfl⟩ := Option.map_eq_some_iff.mp he
        rfl
      · obtain ⟨v, -, rfl⟩ := Option.map_eq_some_iff.mp he
        rfl

omit [DecidableEq β] in
/-- The calls of the others leave everything about the package alone. -/
theorem forall_mem_append_others {reads : List (BridgeEvent φ β)} (others : List (OtherCall φ β))
    {P : BridgeEvent φ β → Prop} (hothers : ∀ e, isOwnCall e = false → P e) :
    (∀ e ∈ reads ++ others.map Subtype.val, P e) ↔ ∀ e ∈ reads, P e := by
  rw [List.forall_mem_append, and_iff_left]
  intro e he
  obtain ⟨f, -, rfl⟩ := List.mem_map.mp he
  exact hothers _ f.property

/-- **One pass** sends at most one package that carries a bit, or leaves one to be sent; and if
nothing it reads sets the bit, it is that of a reading from before. -/
theorem carrying_pass {C : Board φ} {s t : Tag N β} {p : Pass S φ β}
    (h : sensorTimerEvCb C s p = some t) (mask : BitVec 14) :
    (carrying C mask s (.sensorTimer p)).length + owed mask t.bridge ≤ 1 ∧
      ((∀ reads, passReads C s p = some reads → ∀ e ∈ reads, Leaves C.driver.undef mask e) →
        (carrying C mask s (.sensorTimer p)).length + owed mask t.bridge = owed mask s.bridge) := by
  obtain ⟨log, hlog, hrun, -⟩ := sensorTimerEvCb_eq_some h
  obtain ⟨reads, hreads, hshape⟩ := passLog_eq_some hlog
  have hle : ∀ b : Bridge N β, owed mask b ≤ 1 := fun b ↦ Bool.toNat_le _
  have hquiet := (forall_mem_append_others p.beforeTest
    fun e ↦ isSendImuOnly_of_isOwnCall).mpr (isSendImuOnly_passReads hreads)
  have hleaves : (∀ e ∈ reads, Leaves C.driver.undef mask e) →
      ∀ e ∈ reads ++ p.beforeTest.map Subtype.val, Leaves C.driver.undef mask e :=
    (forall_mem_append_others p.beforeTest fun e he ↦ leaves_of_isOwnCall he _ _).mpr
  rw [carrying, tagLog, hlog, Option.getD_some]
  rcases hshape with rfl | rfl
  · obtain ⟨hnone, hkeep⟩ := quiet_log hquiet hrun mask
    rw [hnone, List.filter_nil, List.length_nil, Nat.zero_add]
    exact ⟨hle _, fun hl ↦ hkeep (hleaves (hl reads hreads))⟩
  · -- the package is made of what is there at the end
    obtain ⟨u, hu, hsend⟩ := run_snoc.mp hrun
    have hquiet := (forall_mem_append_others p.beforeSend
      fun e ↦ isSendImuOnly_of_isOwnCall).mpr hquiet
    obtain ⟨hnone, hkeep⟩ := quiet_log hquiet hu mask
    have hcleared : owed mask t.bridge = 0 := by
      rw [owed, bridgeStep_sensors hsend, isSendImuOnly, if_pos rfl, carries]
      simp [RtdoabhSensorData.zero]
    have hsent : (([imuPkg u.gResultPkgImu p.ts]).filter
        fun q ↦ carries mask q.sensors).length = owed mask u := by
      have hbits : carries mask (imuPkg u.gResultPkgImu p.ts).sensors =
        carries mask u.gResultPkgImu.sensors := rfl
      rw [owed, ← hbits]
      rcases hcarries : carries mask (imuPkg u.gResultPkgImu p.ts).sensors with _ | _
      · simp [hcarries]
      · simp [hcarries]
    rw [gather_snoc hu, hnone, List.nil_append, imuSent, hsent, hcleared, Nat.add_zero]
    refine ⟨hle _, fun hl ↦ hkeep ?_⟩
    exact (forall_mem_append_others p.beforeSend fun e he ↦ leaves_of_isOwnCall he _ _).mpr
      (hleaves (hl reads hreads))

/-! ## The limits -/

/-- The test of the compass and the pressure, in an event. -/
def mpCall : TagEvent S φ β → Option Call
  | .sensorTimer p => some p.mp
  | .other _ => none

/-- The test of the supply. -/
def battCall : TagEvent S φ β → Option Call
  | .sensorTimer p => some p.batt
  | .other _ => none

/-- Both, in the order in which they are made. -/
def TagEvent.calls : TagEvent S φ β → List Call
  | .sensorTimer p => [p.mp, p.batt]
  | .other _ => []

/-- A sensor that is asked for one type delivers values of that type. -/
def AsAsked (C : Board φ) (s : Tag N β) : TagEvent S φ β → Prop
  | .sensorTimer p => ∀ reads, sensorReads p.sensors (sensorTypes (mpDue C s p)) p.fuel 0 0 =
      some reads → ∀ r ∈ reads, ∀ call ∈ r.2.calls, call.2 = r.1
  | .other _ => True

/-- The passes that read the compass and the pressure. -/
def mpTaken (C : Board φ) : Tag N β → TagEvent S φ β → List Call :=
  takenAt C.mpTicks Tag.lastMpUpdate mpCall

/-- The passes that read the supply. -/
def battTaken (C : Board φ) : Tag N β → TagEvent S φ β → List Call :=
  takenAt C.battTicks Tag.lastBattUpdate battCall

theorem tagStep_lastMpUpdate {C : Board φ} (s : Tag N β) (e : TagEvent S φ β) (t : Tag N β)
    (h : tagStep C s e = some t) :
    t.lastMpUpdate = (mpCall e).elim s.lastMpUpdate (keep C.mpTicks s.lastMpUpdate) := by
  cases e with
  | sensorTimer p =>
    obtain ⟨-, -, -, hmp, -⟩ := sensorTimerEvCb_eq_some (tagStep_sensorTimer h)
    exact hmp
  | other e =>
    obtain ⟨b, -, rfl⟩ := Option.map_eq_some_iff.mp h
    rfl

theorem tagStep_lastBattUpdate {C : Board φ} (s : Tag N β) (e : TagEvent S φ β) (t : Tag N β)
    (h : tagStep C s e = some t) :
    t.lastBattUpdate = (battCall e).elim s.lastBattUpdate (keep C.battTicks s.lastBattUpdate) := by
  cases e with
  | sensorTimer p =>
    obtain ⟨-, -, -, -, hbatt⟩ := sensorTimerEvCb_eq_some (tagStep_sensorTimer h)
    exact hbatt
  | other e =>
    obtain ⟨b, -, rfl⟩ := Option.map_eq_some_iff.mp h
    rfl

omit [DecidableEq β] in
/-- A pass that is not due sets neither the bit of the compass nor that of the pressure. -/
theorem leaves_mp_of_not_due {C : Board φ} {s : Tag N β} {p : Pass S φ β}
    (hdue : mpDue C s p = false) (hasked : AsAsked C s (.sensorTimer p))
    {reads : List (BridgeEvent φ β)} (hreads : passReads C s p = some reads) :
    ∀ e ∈ reads, Leaves C.driver.undef mpMask e := by
  obtain ⟨rs, hrs, rfl⟩ := Option.map_eq_some_iff.mp hreads
  have hlisted := sensorReads_listed (by simp [sensorTypes]) (Nat.zero_le _) hrs
  rw [hdue] at hlisted
  intro e he
  rcases List.mem_append.mp he with he | he
  · obtain ⟨r, hr, hcall⟩ := List.mem_flatMap.mp he
    obtain ⟨call, hmem, rfl⟩ := List.mem_map.mp hcall
    have htype : call.2 ∈ listed (sensorTypes false) := hasked rs hrs r hr call hmem ▸ hlisted r hr
    have htypes : call.2 = .accelerometer ∨ call.2 = .gyroscope := by
      simpa [listed, sensorTypes] using htype
    rcases htypes with htype | htype
    · exact leaves_sensorData_mp _ _ (by simp [htype]) (by simp [htype])
    · exact leaves_sensorData_mp _ _ (by simp [htype]) (by simp [htype])
  · rcases hsupply : supplyOf C s p with _ | sp
    · rw [hsupply] at he
      cases he
    · rw [hsupply] at he
      exact leaves_supply_mp _ sp he

omit [DecidableEq β] in
theorem leaves_batt_of_not_due {C : Board φ} {s : Tag N β} {p : Pass S φ β}
    (hdue : battDue C s p = false) {reads : List (BridgeEvent φ β)}
    (hreads : passReads C s p = some reads) :
    ∀ e ∈ reads, Leaves C.driver.undef BATTERY_LEVELS_ENABLED e := by
  obtain ⟨rs, -, rfl⟩ := Option.map_eq_some_iff.mp hreads
  rw [supplyOf, hdue, if_neg Bool.false_ne_true, Option.elim_none, List.append_nil]
  intro e he
  obtain ⟨r, -, hcall⟩ := List.mem_flatMap.mp he
  obtain ⟨call, -, rfl⟩ := List.mem_map.mp hcall
  exact leaves_sensorData_batt _ _ _

/-- What a pass may send is paid for by a reading that is due, or was owed. -/
theorem carrying_le {C : Board φ} {s t : Tag N β} {e : TagEvent S φ β} {mask : BitVec 14}
    {paid : List Call} (h : tagStep C s e = some t)
    (hpaid : ∀ p, e = .sensorTimer p → paid.length = 1 ∨
      ∀ reads, passReads C s p = some reads → ∀ f ∈ reads, Leaves C.driver.undef mask f) :
    (carrying C mask s e).length + owed mask t.bridge ≤ paid.length + owed mask s.bridge := by
  cases e with
  | sensorTimer p =>
    obtain ⟨hone, hnone⟩ := carrying_pass (tagStep_sensorTimer h) mask
    rcases hpaid p rfl with hpaid | hpaid
    · omega
    · have := hnone hpaid
      omega
  | other e =>
    obtain ⟨b, hb, rfl⟩ := Option.map_eq_some_iff.mp h
    have hrun : run (bridgeStep C.driver) s.bridge [e.val] = some b := by
      rw [run, hb]
      rfl
    obtain ⟨hquiet, hkeep⟩ := quiet_log
      (List.forall_mem_singleton.mpr (isSendImuOnly_of_isOwnCall e.property)) hrun mask
    have hleave : ∀ f ∈ [e.val], Leaves C.driver.undef mask f :=
      List.forall_mem_singleton.mpr (leaves_of_isOwnCall e.property _ _)
    rw [carrying, tagLog, hquiet, hkeep hleave]
    simp

omit [DecidableEq β] in
theorem length_takenAt_sensorTimer {ticks : BitVec 32} {last : Tag N β → BitVec 32}
    {call : TagEvent S φ β → Option Call} {s : Tag N β} {e : TagEvent S φ β} {c : Call}
    (hcall : call e = some c) (hdue : due ticks (last s) (counter 32 c.check) = true) :
    (takenAt ticks last call s e).length = 1 := by
  rw [takenAt, hcall, Option.toList_some, List.filter_cons, if_pos hdue]
  rfl

omit [DecidableEq β] in
theorem filterMap_mpCall_sublist (es : List (TagEvent S φ β)) :
    (es.filterMap mpCall).Sublist (es.flatMap TagEvent.calls) := by
  induction es with
  | nil => exact List.Sublist.slnil
  | cons e es ih =>
    cases e with
    | sensorTimer p => exact (ih.cons p.batt).cons_cons p.mp
    | other e => exact ih

omit [DecidableEq β] in
theorem filterMap_battCall_sublist (es : List (TagEvent S φ β)) :
    (es.filterMap battCall).Sublist (es.flatMap TagEvent.calls) := by
  induction es with
  | nil => exact List.Sublist.slnil
  | cons e es ih =>
    cases e with
    | sensorTimer p => exact (ih.cons_cons p.batt).cons p.mp
    | other e => exact ih

/-- **The rates of the tag.**  In every run, whatever the other threads do and however often the
counter has wrapped: of the IMU-only packages of a stretch of time, those with a compass or a
pressure reading are at most one for every 50 ms, and two more; and those with the voltage of the
battery at most one for every second, and two more. -/
theorem imu_rate (C : Board φ) (myShortAddress : BitVec 16) {before es : List (TagEvent S φ β)}
    {s t : Tag N β} (hbefore : run (tagStep C) (Tag.init N myShortAddress) before = some s)
    (hrun : run (tagStep C) s es = some t)
    (horder : InOrder 0 ((before ++ es).flatMap TagEvent.calls))
    (hasked : Each (tagStep C) (AsAsked C) s es) {first span : ℕ}
    (hwindow : ∀ c ∈ es.flatMap TagEvent.calls, first ≤ c.check ∧ c.check ≤ first + span) :
    (gather (tagStep C) (carrying C mpMask) s es).length ≤ span / (C.mpTicks.toNat + 1) + 2 ∧
      (gather (tagStep C) (carrying C BATTERY_LEVELS_ENABLED) s es).length ≤
        span / (C.battTicks.toNat + 1) + 2 := by
  have hle : ∀ mask, owed mask s.bridge ≤ 1 := fun mask ↦ Bool.toNat_le _
  constructor
  · have hcredit : ∀ (u : Tag N β) (e : TagEvent S φ β) (v : Tag N β), AsAsked C u e →
        tagStep C u e = some v → (carrying C mpMask u e).length + owed mpMask v.bridge ≤
          (takenAt C.mpTicks Tag.lastMpUpdate mpCall u e).length + owed mpMask u.bridge := by
      intro u e v hasked h
      refine carrying_le h fun p he ↦ ?_
      subst he
      rcases hdue : mpDue C u p with _ | _
      · exact Or.inr fun reads hreads ↦ leaves_mp_of_not_due hdue hasked hreads
      · exact Or.inl (length_takenAt_sensorTimer rfl hdue)
    have hrate := RateLimit.length_gather_le tagStep_lastMpUpdate hcredit rfl hbefore hrun
      (horder.sublist (filterMap_mpCall_sublist _)) hasked
      fun c hc ↦ hwindow c ((filterMap_mpCall_sublist _).subset hc)
    have := hle mpMask
    omega
  · have hcredit : ∀ (u : Tag N β) (e : TagEvent S φ β) (v : Tag N β), AsAsked C u e →
        tagStep C u e = some v →
          (carrying C BATTERY_LEVELS_ENABLED u e).length + owed BATTERY_LEVELS_ENABLED v.bridge ≤
            (takenAt C.battTicks Tag.lastBattUpdate battCall u e).length +
              owed BATTERY_LEVELS_ENABLED u.bridge := by
      intro u e v _ h
      refine carrying_le h fun p he ↦ ?_
      subst he
      rcases hdue : battDue C u p with _ | _
      · exact Or.inr fun reads hreads ↦ leaves_batt_of_not_due hdue hreads
      · exact Or.inl (length_takenAt_sensorTimer rfl hdue)
    have hrate := RateLimit.length_gather_le tagStep_lastBattUpdate hcredit rfl hbefore hrun
      (horder.sublist (filterMap_battCall_sublist _)) hasked
      fun c hc ↦ hwindow c ((filterMap_battCall_sublist _).subset hc)
    have := hle BATTERY_LEVELS_ENABLED
    omega

/-- A board with a counter of one tick for each microsecond. -/
def microsecondBoard : Board (BitVec 16) := ⟨addressDriver, 12, id⟩

/-- A pass at a time, on a board with a compass and nothing else. -/
def compassPass (time block : ℕ) : Pass Unit (BitVec 16) ℕ where
  localTs := 0
  mp := ⟨time, time + 1, by omega⟩
  batt := ⟨time + 2, time + 3, by omega⟩
  sensors :=
    { undef := fun _ ↦ 0
      sensorMgrFindNextBytype := fun type ↦ if type = .magneticField then some () else none
      sensorRead := fun _ ↦
        ⟨0, [(.vec (some (.val 1)) (some (.val 2)) (some (.val 3)), .magneticField)]⟩ }
  fuel := 5
  supply := ⟨-1, -1⟩
  beforeTest := []
  beforeSend := []
  ccpValid := false
  wcsLocalToMaster64 := id
  env := ⟨some block, ⟨[block + 1], true⟩, true⟩

theorem asAsked_compassPass (s : Tag 16 ℕ) (time block : ℕ) :
    AsAsked microsecondBoard s (.sensorTimer (compassPass time block)) := by
  intro reads hreads r hr call hcall
  rcases hdue : mpDue microsecondBoard s (compassPass time block) with _ | _
  · rw [hdue] at hreads
    cases hreads
    cases hr
  · rw [hdue] at hreads
    cases hreads
    obtain rfl := List.mem_singleton.mp hr
    obtain rfl := List.mem_singleton.mp hcall
    rfl

/-- The second of these passes comes too early for the compass. -/
theorem imu_rate_two_passes :
    (gather (tagStep microsecondBoard) (carrying microsecondBoard mpMask) (Tag.init 16 0x0001)
      [.sensorTimer (compassPass 60000 0), .sensorTimer (compassPass 80000 2)]).length ≤ 2 := by
  obtain ⟨s, hrun⟩ : ∃ s, run (tagStep microsecondBoard) (Tag.init 16 0x0001)
      [.sensorTimer (compassPass 60000 0), .sensorTimer (compassPass 80000 2)] = some s :=
    ⟨_, rfl⟩
  have hrate := (imu_rate microsecondBoard 0x0001 (run_nil _) hrun
    (by simp [InOrder, TagEvent.calls, compassPass])
    ⟨asAsked_compassPass _ _ _, fun _ _ ↦ ⟨asAsked_compassPass _ _ _, fun _ _ ↦ trivial⟩⟩
    (by simp [TagEvent.calls, compassPass] : ∀ c ∈ List.flatMap TagEvent.calls
      [.sensorTimer (compassPass 60000 0), .sensorTimer (compassPass 80000 2)],
      60000 ≤ c.check ∧ c.check ≤ 60000 + 20002)).1
  simpa [Board.mpTicks, microsecondBoard] using hrate

/-- **The tag is no slower than its limits.**  If the callback is called often enough for the
longest gap between two tests of a limit, and the limit on top of it, to stay below `2 ^ 32` ticks,
the passes that read the compass and the pressure, and those that read the supply, are the ones a
clock that does not wrap would choose. -/
theorem due_by_clock (C : Board φ) (myShortAddress : BitVec 16) {es : List (TagEvent S φ β)}
    {s : Tag N β} (hrun : run (tagStep C) (Tag.init N myShortAddress) es = some s)
    (horder : InOrder 0 (es.flatMap TagEvent.calls)) {gap : ℕ}
    (hmp : C.mpTicks.toNat + gap < 2 ^ 32) (hbatt : C.battTicks.toNat + gap < 2 ^ 32)
    (hwithin : Within gap 0 (es.filterMap mpCall) ∧ Within gap 0 (es.filterMap battCall)) :
    gather (tagStep C) (mpTaken C) (Tag.init N myShortAddress) es =
        takenByClock C.mpTicks.toNat 0 (es.filterMap mpCall) ∧
      gather (tagStep C) (battTaken C) (Tag.init N myShortAddress) es =
        takenByClock C.battTicks.toNat 0 (es.filterMap battCall) := by
  constructor
  · rw [mpTaken, gather_taken tagStep_lastMpUpdate hrun]
    exact taken_eq_takenByClock hmp (Nat.zero_le _)
      (horder.sublist (filterMap_mpCall_sublist _)) hwithin.1
  · rw [battTaken, gather_taken tagStep_lastBattUpdate hrun]
    exact taken_eq_takenByClock hbatt (Nat.zero_le _)
      (horder.sublist (filterMap_battCall_sublist _)) hwithin.2

theorem due_by_clock_two_passes :
    (gather (tagStep microsecondBoard) (mpTaken microsecondBoard) (Tag.init 16 0x0001)
      [.sensorTimer (compassPass 60000 0), .sensorTimer (compassPass 80000 2)]).map Call.check =
        [60000] := by
  obtain ⟨s, hrun⟩ : ∃ s, run (tagStep microsecondBoard) (Tag.init 16 0x0001)
      [.sensorTimer (compassPass 60000 0), .sensorTimer (compassPass 80000 2)] = some s :=
    ⟨_, rfl⟩
  rw [(due_by_clock microsecondBoard 0x0001 hrun
    (by simp [InOrder, TagEvent.calls, compassPass])
    (show (50000 : BitVec 32).toNat + 100000 < 2 ^ 32 by simp)
    (show (1000000 : BitVec 32).toNat + 100000 < 2 ^ 32 by simp)
    ⟨by simp [Within, mpCall, compassPass], by simp [Within, battCall, compassPass]⟩).1]
  simp [takenByClock, mpCall, compassPass, Board.mpTicks, microsecondBoard]

end UwbApps.RtdoaTag
