import UwbApps.Config.Callbacks
import UwbApps.Lib.Turns
import UwbApps.Os.Tdma
import UwbApps.Rtdoa.Slots

/-!
# Who is on the air

In an rtdoa network every station runs the callback of the slot that comes up: one clock master
sends the frames the tags measure, and in slot 31 the nodes measure the distances between them, each
in its turn by the sequence number of the clock frames.

`one_ranging` is about a slot: never two stations range in it, and whoever is ready then hears the
one that does.  `initiated_eq` is about the turns: it counts the distance measurements a node starts
over any number of superframes, whatever else happens in them.
-/

set_option autoImplicit false

open Run Turns

namespace UwbApps

open Os
open SlotCb

/-- What the slot callbacks look at in a device. -/
structure Device (w : ℕ) where
  /-- `dpl_sem_get_count(&ccp->sem)`. -/
  semCount : UInt16
  /-- `ccp->seq_num`, in at least three bits. -/
  seqNum : BitVec (w + 3)
  /-- `inst->role & UWB_ROLE_CCP_MASTER`. -/
  ccpMaster : Bool
  slotId : BitVec 16
  uwbConfigUpdated : Bool
deriving DecidableEq

/-- What the libraries answer in the course of a callback. -/
structure Answers where
  /-- `uwb_nmgr_process_tx_queue` finds something to send. -/
  queued : Bool
  /-- `dpl_sem_get_count(&ccp->sem)`, after `rtdoa_listen`. -/
  semAfter : UInt16
deriving DecidableEq

variable {w : ℕ} (T : Tdma)

/-! ## The callbacks -/

namespace RtdoaNode

/-- `nrng_slot_timer_cb`. -/
def nrngSlotTimerCb (d : Device w) (idx : BitVec 16) : List RadioCall :=
  if d.semCount = 0 ∨ idx = 0xffff then []
  else if d.seqNum.toNat % 8 = d.slotId.toNat then [.nrngRequestDelayStart (T.dxTime idx) 0xFFFF]
  else
    [.uwbSetDelayStart (T.tdmaRxSlotStart idx),
      .uwbSetRxTimeout (T.nrngTimeout.setWidth 32 + 0x100), .nrngListen]

/-- `rtdoa_slot_timer_cb`. -/
def rtdoaSlotTimerCb (d : Device w) (idx : BitVec 16) (a : Answers) : Device w × List RadioCall :=
  if d.semCount = 0 then (d, [])
  else if d.uwbConfigUpdated then
    ({ d with uwbConfigUpdated := false }, [.uwbMacConfig, .uwbTxrfConfig])
  else if a.queued then (d, [.nmgrTx (T.tdmaTxSlotStart idx)])
  else if d.ccpMaster then (d, [.rtdoaRequest (T.dxTime idx)])
  else (d, [.rtdoaListen (T.tdmaRxSlotStart idx) T.timeout])

/-- `nmgr_slot_timer_cb`.  The timeout is kept in a `uint16_t`. -/
def nmgrSlotTimerCb (d : Device w) (idx : BitVec 16) (a : Answers) : List RadioCall :=
  if d.semCount = 0 then []
  else if a.queued then [.nmgrTx (T.tdmaTxSlotStart idx)]
  else [.nmgrUwbListen (T.tdmaRxSlotStart idx) ((T.timeout.setWidth 16).setWidth 32)]

/-- `uwb_config_upd_cb`, as far as the flag goes. -/
def uwbConfigUpdCb (d : Device w) (valid : Bool) : Device w :=
  if Config.Rtdoa.uwbConfigUpdCbTest ⟨d.semCount, valid⟩ then d
  else { d with uwbConfigUpdated := true }

end RtdoaNode

namespace RtdoaTag

/-- `rtdoa_slot_timer_cb`. -/
def rtdoaSlotTimerCb (d : Device w) (idx : BitVec 16) (a : Answers) : List RadioCall :=
  if d.semCount = 0 then []
  else
    let dxTime := T.tdmaRxSlotStart idx
    .rtdoaListen dxTime T.timeout ::
      if a.semAfter = 0 then []
      else [.rtdoaBackhaulSetTs (T.localToMaster dxTime >>> 16), .rtdoaBackhaulSend 0]

/-- `nmgr_slot_timer_cb`. -/
def nmgrSlotTimerCb (d : Device w) (idx : BitVec 16) (a : Answers) : Device w × List RadioCall :=
  let config := if d.uwbConfigUpdated then [.uwbMacConfig, .uwbTxrfConfig] else []
  ({ d with uwbConfigUpdated := false },
    config ++
      if d.semCount = 0 then []
      else if a.queued then [.nmgrTx (T.tdmaTxSlotStart idx)]
      else [.nmgrUwbListen (T.tdmaRxSlotStart idx) T.timeout])

end RtdoaTag

/-- The applications of the network. -/
inductive RtdoaApp
  | node
  | tag
deriving DecidableEq

def RtdoaApp.tdmaAllocateSlots : RtdoaApp → ℕ → ℕ → List AssignSlot
  | .node => RtdoaNode.tdmaAllocateSlots
  | .tag => RtdoaTag.tdmaAllocateSlots

/-- The slot comes up.  `uwb_pan_slot_timer_cb` is the library's, and the tag assigns no slot to
`nrng_slot_timer_cb`. -/
def RtdoaApp.slotTimerCb (app : RtdoaApp) (cb : SlotCb) (d : Device w) (idx : BitVec 16)
    (a : Answers) : Device w × List RadioCall :=
  match app, cb with
  | .node, .nrngSlotTimerCb => (d, RtdoaNode.nrngSlotTimerCb T d idx)
  | .node, .rtdoaSlotTimerCb => RtdoaNode.rtdoaSlotTimerCb T d idx a
  | .node, .nmgrSlotTimerCb => (d, RtdoaNode.nmgrSlotTimerCb T d idx a)
  | .tag, .rtdoaSlotTimerCb => (d, RtdoaTag.rtdoaSlotTimerCb T d idx a)
  | .tag, .nmgrSlotTimerCb => RtdoaTag.nmgrSlotTimerCb T d idx a
  | _, _ => (d, [])

/-! ## One slot of a network -/

/-- A device, its application and what its libraries answer in the slot. -/
structure Station (w : ℕ) where
  app : RtdoaApp
  device : Device w
  answers : Answers

/-- What the station does in a slot with this callback. -/
def Station.calls (s : Station w) (cb : SlotCb) (idx : BitVec 16) : List RadioCall :=
  (s.app.slotTimerCb T cb s.device idx s.answers).2

def Station.Ranges (s : Station w) (cb : SlotCb) (idx : BitVec 16) : Prop :=
  ∃ call ∈ s.calls T cb idx, call.ranges = true

def Station.Listens (s : Station w) (cb : SlotCb) (idx : BitVec 16) : Prop :=
  ∃ call ∈ s.calls T cb idx, call.listens = true

/-- Nothing keeps the station from its slot: it is not waiting for a clock frame, and has no
configuration to apply and nothing to send. -/
def Station.Ready (s : Station w) : Prop :=
  s.device.semCount ≠ 0 ∧ s.device.uwbConfigUpdated = false ∧ s.answers.queued = false

/-- What the network sees to: there is one clock master, and the nodes that are not waiting for a
clock frame have slots of their own and have seen the same one. -/
structure Orderly {ι : Type*} (net : ι → Station w) : Prop where
  master : ∀ j k, (net j).device.ccpMaster → (net k).device.ccpMaster → j = k
  slotId : ∀ j k, (net j).app = .node → (net k).app = .node → (net j).device.semCount ≠ 0 →
    (net k).device.semCount ≠ 0 → (net j).device.slotId = (net k).device.slotId → j = k
  seqNum : ∀ j k, (net j).app = .node → (net k).app = .node → (net j).device.semCount ≠ 0 →
    (net k).device.semCount ≠ 0 → (net j).device.seqNum = (net k).device.seqNum

/-- The callback of a slot. -/
theorem callback_cases {nslots : ℕ} (hn : nslots < 2 ^ 16) {app : RtdoaApp} {i : BitVec 16}
    {cb : SlotCb} (h : Assigns (app.tdmaAllocateSlots nslots) i cb) :
    app = .node ∧ i = 1 ∧ cb = uwbPanSlotTimerCb ∨ app = .node ∧ i = 31 ∧ cb = nrngSlotTimerCb ∨
      2 ≤ i.toNat ∧ i ≠ 31 ∧ cb = slotCb i := by
  obtain ⟨passes, hmem⟩ := h
  have hloop : (i, cb) ∈ allocateLoop nslots passes 2 → 2 ≤ i.toNat ∧ i ≠ 31 ∧ cb = slotCb i := by
    intro hmem
    obtain ⟨hle, -, hne, hcb⟩ := mem_allocateLoop hn hmem
    exact ⟨hle, hne, hcb⟩
  cases app with
  | node =>
    rw [RtdoaApp.tdmaAllocateSlots, RtdoaNode.tdmaAllocateSlots, List.mem_cons, List.mem_cons,
      Prod.mk.injEq, Prod.mk.injEq] at hmem
    rcases hmem with hpan | hnrng | hmem
    · exact Or.inl ⟨rfl, hpan⟩
    · exact Or.inr (Or.inl ⟨rfl, hnrng⟩)
    · exact Or.inr (Or.inr (hloop hmem))
  | tag => exact Or.inr (Or.inr (hloop hmem))

theorem slotCb_ne_nrng (i : BitVec 16) : slotCb i ≠ nrngSlotTimerCb := by
  rw [slotCb]
  split <;> decide

/-- The nodes' own slot. -/
theorem assigns_nrng {nslots : ℕ} (hn : nslots < 2 ^ 16) {app : RtdoaApp} {i : BitVec 16}
    (h : Assigns (app.tdmaAllocateSlots nslots) i nrngSlotTimerCb) : app = .node ∧ i = 31 := by
  obtain ⟨-, -, hcb⟩ | ⟨happ, hi, -⟩ | ⟨-, -, hcb⟩ := callback_cases hn h
  · cases hcb
  · exact ⟨happ, hi⟩
  · exact absurd hcb.symm (slotCb_ne_nrng i)

variable {T}

theorem nrng_ranges_iff {d : Device w} {idx : BitVec 16} :
    (∃ call ∈ RtdoaNode.nrngSlotTimerCb T d idx, call.ranges = true) ↔
      d.semCount ≠ 0 ∧ idx ≠ 0xffff ∧ d.seqNum.toNat % 8 = d.slotId.toNat := by
  rw [RtdoaNode.nrngSlotTimerCb]
  split_ifs with hskip hturn
  · simp only [List.not_mem_nil, false_and, exists_false, false_iff]
    rintro ⟨hsem, hidx, -⟩
    exact hskip.elim hsem hidx
  · exact iff_of_true ⟨_, List.mem_cons_self, rfl⟩ ⟨fun h ↦ hskip (Or.inl h),
      fun h ↦ hskip (Or.inr h), hturn⟩
  · simp [hturn, RadioCall.ranges]

theorem rtdoa_ranges_iff {d : Device w} {idx : BitVec 16} {a : Answers} :
    (∃ call ∈ (RtdoaNode.rtdoaSlotTimerCb T d idx a).2, call.ranges = true) ↔
      d.semCount ≠ 0 ∧ d.uwbConfigUpdated = false ∧ a.queued = false ∧ d.ccpMaster = true := by
  rw [RtdoaNode.rtdoaSlotTimerCb]
  split_ifs with hsem hconfig hqueue hmaster <;> simp_all [RadioCall.ranges]

/-- Who ranges: the clock master in a slot of its own, or a node that has its turn. -/
theorem ranges_iff {s : Station w} {cb : SlotCb} {i : BitVec 16} :
    s.Ranges T cb i ↔ s.app = .node ∧ s.device.semCount ≠ 0 ∧
      (cb = rtdoaSlotTimerCb ∧ s.device.uwbConfigUpdated = false ∧ s.answers.queued = false ∧
          s.device.ccpMaster = true ∨
        cb = nrngSlotTimerCb ∧ i ≠ 0xffff ∧
          s.device.seqNum.toNat % 8 = s.device.slotId.toNat) := by
  obtain ⟨app, d, a⟩ := s
  cases app with
  | node =>
    cases cb with
    | uwbPanSlotTimerCb => simp [Station.Ranges, Station.calls, RtdoaApp.slotTimerCb]
    | nmgrSlotTimerCb =>
      simp only [Station.Ranges, Station.calls, RtdoaApp.slotTimerCb, RtdoaNode.nmgrSlotTimerCb]
      split_ifs <;> simp [RadioCall.ranges]
    | nrngSlotTimerCb =>
      refine nrng_ranges_iff.trans ?_
      simp
    | rtdoaSlotTimerCb =>
      refine rtdoa_ranges_iff.trans ?_
      simp
  | tag =>
    cases cb with
    | uwbPanSlotTimerCb | nrngSlotTimerCb =>
      simp [Station.Ranges, Station.calls, RtdoaApp.slotTimerCb]
    | nmgrSlotTimerCb =>
      simp only [Station.Ranges, Station.calls, RtdoaApp.slotTimerCb, RtdoaTag.nmgrSlotTimerCb]
      split_ifs <;> simp [RadioCall.ranges]
    | rtdoaSlotTimerCb =>
      simp only [Station.Ranges, Station.calls, RtdoaApp.slotTimerCb, RtdoaTag.rtdoaSlotTimerCb]
      split_ifs <;> simp [RadioCall.ranges]

/-- Whoever is ready in the slot of another's measurement listens. -/
theorem listens_of_ready {s : Station w} {cb : SlotCb} {i : BitVec 16} (hready : s.Ready)
    (hpan : cb ≠ uwbPanSlotTimerCb) (hnrng : cb = nrngSlotTimerCb → s.app = .node ∧ i ≠ 0xffff)
    (hquiet : ¬ s.Ranges T cb i) : s.Listens T cb i := by
  obtain ⟨hsem, hconfig, hqueue⟩ := hready
  rw [ranges_iff] at hquiet
  obtain ⟨app, d, a⟩ := s
  simp only at hsem hconfig hqueue hquiet
  cases cb with
  | uwbPanSlotTimerCb => exact absurd rfl hpan
  | nrngSlotTimerCb =>
    obtain ⟨rfl, hi⟩ := hnrng rfl
    have hturn : ¬ d.seqNum.toNat % 8 = d.slotId.toNat := fun hturn ↦
      hquiet ⟨rfl, hsem, Or.inr ⟨rfl, hi, hturn⟩⟩
    have hmem : .nrngListen ∈ RtdoaNode.nrngSlotTimerCb T d i := by
      rw [RtdoaNode.nrngSlotTimerCb, if_neg (not_or.mpr ⟨hsem, hi⟩), if_neg hturn]
      exact List.mem_cons_of_mem _ (List.mem_cons_of_mem _ List.mem_cons_self)
    exact ⟨_, hmem, rfl⟩
  | nmgrSlotTimerCb =>
    cases app with
    | node =>
      have hmem : .nmgrUwbListen (T.tdmaRxSlotStart i) ((T.timeout.setWidth 16).setWidth 32) ∈
          RtdoaNode.nmgrSlotTimerCb T d i a := by
        rw [RtdoaNode.nmgrSlotTimerCb, if_neg hsem, hqueue]
        exact List.mem_cons_self
      exact ⟨_, hmem, rfl⟩
    | tag =>
      have hmem : .nmgrUwbListen (T.tdmaRxSlotStart i) T.timeout ∈
          (RtdoaTag.nmgrSlotTimerCb T d i a).2 := by
        rw [RtdoaTag.nmgrSlotTimerCb, if_neg hsem, hqueue]
        exact List.mem_append_right _ List.mem_cons_self
      exact ⟨_, hmem, rfl⟩
  | rtdoaSlotTimerCb =>
    cases app with
    | node =>
      have hmaster : ¬ d.ccpMaster = true := fun hmaster ↦
        hquiet ⟨rfl, hsem, Or.inl ⟨rfl, hconfig, hqueue, hmaster⟩⟩
      have hmem : .rtdoaListen (T.tdmaRxSlotStart i) T.timeout ∈
          (RtdoaNode.rtdoaSlotTimerCb T d i a).2 := by
        rw [RtdoaNode.rtdoaSlotTimerCb, if_neg hsem, hconfig, hqueue, if_neg Bool.false_ne_true,
          if_neg Bool.false_ne_true, if_neg hmaster]
        exact List.mem_cons_self
      exact ⟨_, hmem, rfl⟩
    | tag =>
      have hmem : .rtdoaListen (T.tdmaRxSlotStart i) T.timeout ∈
          RtdoaTag.rtdoaSlotTimerCb T d i a := by
        rw [RtdoaTag.rtdoaSlotTimerCb, if_neg hsem]
        exact List.mem_cons_self
      exact ⟨_, hmem, rfl⟩

/-- All stations have the same callback in a slot. -/
theorem callback_unique {nslots : ℕ} (hn : nslots < 2 ^ 16) {app app' : RtdoaApp} {i : BitVec 16}
    {cb cb' : SlotCb} (h : Assigns (app.tdmaAllocateSlots nslots) i cb)
    (h' : Assigns (app'.tdmaAllocateSlots nslots) i cb') : cb = cb' := by
  obtain ⟨-, rfl, rfl⟩ | ⟨-, rfl, rfl⟩ | ⟨hle, hne, rfl⟩ := callback_cases hn h
  · obtain ⟨-, -, rfl⟩ | ⟨-, hother, -⟩ | ⟨hle, -⟩ := callback_cases hn h'
    · rfl
    · exact absurd hother (by decide)
    · exact absurd hle (by decide)
  · obtain ⟨-, hother, -⟩ | ⟨-, -, rfl⟩ | ⟨-, hne, -⟩ := callback_cases hn h'
    · exact absurd hother (by decide)
    · rfl
    · exact absurd rfl hne
  · obtain ⟨-, rfl, -⟩ | ⟨-, hother, -⟩ | ⟨-, -, rfl⟩ := callback_cases hn h'
    · exact absurd hle (by decide)
    · exact absurd hother hne
    · rfl

/-- **One at a time.**  In every slot of the superframe at most one station of the network ranges,
and if one does, every other that runs a callback in the slot and is ready listens. -/
theorem one_ranging {nslots : ℕ} (hn : nslots < 2 ^ 16) {ι : Type} {net : ι → Station w}
    (hnet : Orderly net) {i : BitVec 16} {j k : ι} {cbj cbk : SlotCb}
    (hj : Assigns ((net j).app.tdmaAllocateSlots nslots) i cbj)
    (hk : Assigns ((net k).app.tdmaAllocateSlots nslots) i cbk)
    (hranges : (net j).Ranges T cbj i) :
    ((net k).Ranges T cbk i ↔ k = j) ∧ (k ≠ j → (net k).Ready → (net k).Listens T cbk i) := by
  obtain rfl := callback_unique hn hk hj
  have honly : (net k).Ranges T cbk i ↔ k = j := by
    refine ⟨fun hboth ↦ ?_, fun heq ↦ heq ▸ hranges⟩
    obtain ⟨happk, hsemk, hwhyk⟩ := ranges_iff.mp hboth
    obtain ⟨happj, hsemj, hwhyj⟩ := ranges_iff.mp hranges
    rcases hwhyk with ⟨rfl, -, -, hmasterk⟩ | ⟨rfl, -, hturnk⟩
    · rcases hwhyj with ⟨-, -, -, hmasterj⟩ | ⟨hcb, -⟩
      · exact hnet.master k j hmasterk hmasterj
      · cases hcb
    · rcases hwhyj with ⟨hcb, -⟩ | ⟨-, -, hturnj⟩
      · cases hcb
      · -- the same counter leaves one remainder
        refine hnet.slotId k j happk happj hsemk hsemj (BitVec.eq_of_toNat_eq ?_)
        rw [← hturnk, ← hturnj, hnet.seqNum k j happk happj hsemk hsemj]
  refine ⟨honly, fun hne hready ↦ listens_of_ready hready ?_ ?_ fun h ↦ hne (honly.mp h)⟩
  · rintro rfl
    obtain ⟨-, -, ⟨hcb, -⟩ | ⟨hcb, -⟩⟩ := ranges_iff.mp hranges <;> cases hcb
  · rintro rfl
    obtain ⟨happ, rfl⟩ := assigns_nrng hn hk
    exact ⟨happ, by decide⟩

/-- Slots of a millisecond, as if the radio counted microseconds. -/
def sampleTdma : Tdma where
  nslots := 64
  period := 64000
  tdmaTxSlotStart idx := idx.setWidth 64 * 1000
  tdmaRxSlotStart idx := idx.setWidth 64 * 1000
  nrngTimeout := 300
  localToMaster := id

/-- The clock master and another node, in the superframe after clock frame 9. -/
def sampleNet (master : Bool) : Station 5 where
  app := .node
  device := ⟨1, 9, master, if master then 0 else 1, false⟩
  answers := ⟨false, 1⟩

theorem orderly_sampleNet : Orderly sampleNet where
  master := by decide
  slotId := by decide
  seqNum := by decide

/-- In slot 31 the node has its turn, and the clock master listens. -/
theorem node_ranges_in_turn :
    ¬ (sampleNet true).Ranges sampleTdma nrngSlotTimerCb 31 ∧
      (sampleNet true).Listens sampleTdma nrngSlotTimerCb 31 := by
  have hassigns : Assigns (RtdoaNode.tdmaAllocateSlots 64) 31 nrngSlotTimerCb := ⟨0, by decide⟩
  obtain ⟨honly, hlistens⟩ := one_ranging (T := sampleTdma) (j := false) (k := true)
    (by decide : 64 < 2 ^ 16) orderly_sampleNet hassigns hassigns
    (ranges_iff.mpr ⟨rfl, by decide, Or.inr ⟨rfl, by decide, by decide⟩⟩)
  exact ⟨fun h ↦ absurd (honly.mp h) (by decide), hlistens (by decide) ⟨by decide, rfl, rfl⟩⟩

/-! ## The turns of a node -/

/-- What happens to a node. -/
inductive NodeEvent (w : ℕ)
  /-- A clock frame has come, or is waited for. -/
  | ccp (semCount : UInt16) (seqNum : BitVec (w + 3))
  | slot (idx : BitVec 16) (cb : SlotCb) (a : Answers)
  | configUpd (valid : Bool)

variable (T) in
def nodeStep (d : Device w) : NodeEvent w → Option (Device w)
  | .ccp semCount seqNum => some { d with semCount, seqNum }
  | .slot idx cb a => some (RtdoaApp.node.slotTimerCb T cb d idx a).1
  | .configUpd valid => some (RtdoaNode.uwbConfigUpdCb d valid)

variable (T) in
/-- The distance measurements that the node starts. -/
def initiated (d : Device w) : NodeEvent w → List RadioCall
  | .slot idx .nrngSlotTimerCb _ => (RtdoaNode.nrngSlotTimerCb T d idx).filter RadioCall.ranges
  | _ => []

/-- The slot that comes up. -/
def NodeEvent.slot? : NodeEvent w → Option AssignSlot
  | .slot idx cb _ => some (idx, cb)
  | _ => none

/-- No clock frame. -/
def NodeEvent.Between : NodeEvent w → Prop
  | .ccp _ _ => False
  | _ => True

/-- A superframe as a node sees it: its clock frame, and then every slot of the schedule once, in
any order and with anything but clock frames in between. -/
def IsSuperframe (nslots : ℕ) (seqNum : BitVec (w + 3)) (es : List (NodeEvent w)) : Prop :=
  ∃ semCount rest, es = .ccp semCount seqNum :: rest ∧ semCount ≠ 0 ∧ (∀ e ∈ rest, e.Between) ∧
    (rest.filterMap NodeEvent.slot?).Perm (RtdoaNode.tdmaAllocateSlots nslots nslots)

/-- One superframe after the other, numbered from `seqNum` on. -/
def Superframes (nslots : ℕ) : BitVec (w + 3) → List (List (NodeEvent w)) → Prop
  | _, [] => True
  | seqNum, es :: frames => IsSuperframe nslots seqNum es ∧ Superframes nslots (seqNum + 1) frames

/-- What is between two clock frames changes the flag only. -/
theorem exists_nodeStep (T : Tdma) (d : Device w) {e : NodeEvent w} (he : e.Between) :
    ∃ uwbConfigUpdated, nodeStep T d e = some { d with uwbConfigUpdated } := by
  cases e with
  | ccp semCount seqNum => exact he.elim
  | configUpd valid =>
    rw [nodeStep, RtdoaNode.uwbConfigUpdCb]
    split <;> exact ⟨_, rfl⟩
  | slot idx cb a =>
    cases cb with
    | rtdoaSlotTimerCb =>
      show ∃ _, some (RtdoaNode.rtdoaSlotTimerCb T d idx a).1 = _
      rw [RtdoaNode.rtdoaSlotTimerCb]
      split_ifs <;> exact ⟨_, rfl⟩
    | uwbPanSlotTimerCb | nrngSlotTimerCb | nmgrSlotTimerCb => exact ⟨_, rfl⟩

/-- The call of `tdma_assign_slot` is that of the nodes' own slot. -/
def isNrng (call : AssignSlot) : Bool := call.2 = nrngSlotTimerCb

/-- In its slot a node starts one measurement if it has its turn, and elsewhere none. -/
theorem length_initiated {d : Device w} (hsem : d.semCount ≠ 0) {e : NodeEvent w}
    (hidx : ∀ call ∈ e.slot?.toList, isNrng call → call.1 ≠ 0xffff) :
    (initiated T d e).length = e.slot?.toList.countP isNrng *
      (if d.seqNum.toNat % 8 = d.slotId.toNat then 1 else 0) := by
  cases e with
  | ccp semCount seqNum | configUpd valid => exact (Nat.zero_mul _).symm
  | slot idx cb a =>
    cases cb with
    | uwbPanSlotTimerCb | nmgrSlotTimerCb | rtdoaSlotTimerCb => exact (Nat.zero_mul _).symm
    | nrngSlotTimerCb =>
      have hidx : idx ≠ 0xffff := hidx _ List.mem_cons_self rfl
      rw [initiated, RtdoaNode.nrngSlotTimerCb, if_neg (not_or.mpr ⟨hsem, hidx⟩)]
      split <;> rfl

/-- Between two clock frames a node with its turn starts a measurement in each slot of its own. -/
theorem initiated_between {d : Device w} (hsem : d.semCount ≠ 0) {rest : List (NodeEvent w)}
    (hbetween : ∀ e ∈ rest, e.Between)
    (hidx : ∀ call ∈ rest.filterMap NodeEvent.slot?, isNrng call → call.1 ≠ 0xffff) :
    (gather (nodeStep T) (initiated T) d rest).length =
        (rest.filterMap NodeEvent.slot?).countP isNrng *
          (if d.seqNum.toNat % 8 = d.slotId.toNat then 1 else 0) ∧
      ∃ uwbConfigUpdated, run (nodeStep T) d rest = some { d with uwbConfigUpdated } := by
  induction rest generalizing d with
  | nil => exact ⟨(Nat.zero_mul _).symm, d.uwbConfigUpdated, rfl⟩
  | cons e rest ih =>
    have hslots : (e :: rest).filterMap NodeEvent.slot? =
        e.slot?.toList ++ rest.filterMap NodeEvent.slot? := by
      rw [List.filterMap_cons]
      cases e.slot? <;> rfl
    rw [List.forall_mem_cons] at hbetween
    rw [hslots, List.forall_mem_append] at hidx
    obtain ⟨flag, hstep⟩ := exists_nodeStep T d hbetween.1
    obtain ⟨hlen, flag', hrun⟩ :=
      ih (d := { d with uwbConfigUpdated := flag }) hsem hbetween.2 hidx.2
    refine ⟨?_, flag', run_cons_eq_some.mpr ⟨_, hstep, hrun⟩⟩
    rw [gather, hstep, Option.elim_some, List.length_append, hlen, length_initiated hsem hidx.1,
      hslots, List.countP_append, Nat.add_mul]

theorem not_isNrng_of_mem_allocateLoop {nslots passes : ℕ} {i : BitVec 16} {call : AssignSlot}
    (h : call ∈ allocateLoop nslots passes i) : ¬ isNrng call := by
  induction passes generalizing i with
  | zero => cases h
  | succ passes ih =>
    by_cases hi : i.toNat < nslots
    · rw [allocateLoop_succ hi, List.mem_append] at h
      rcases h with h | h
      · split at h
        · cases h
        · obtain rfl := List.mem_singleton.mp h
          exact fun hnrng ↦ slotCb_ne_nrng i (of_decide_eq_true hnrng)
      · exact ih h
    · rw [allocateLoop, if_neg hi] at h
      cases h

/-- The schedule has one slot for the nodes' own measurements. -/
theorem nrng_tdmaAllocateSlots (nslots passes : ℕ) :
    (RtdoaNode.tdmaAllocateSlots nslots passes).countP isNrng = 1 ∧
      ∀ call ∈ RtdoaNode.tdmaAllocateSlots nslots passes, isNrng call → call.1 ≠ 0xffff := by
  have hloop : ∀ call ∈ allocateLoop nslots passes 2, ¬ isNrng call := fun _ ↦
    not_isNrng_of_mem_allocateLoop
  rw [RtdoaNode.tdmaAllocateSlots]
  refine ⟨?_, ?_⟩
  · rw [List.countP_cons, List.countP_cons, List.countP_eq_zero.mpr hloop]
    rfl
  · rw [List.forall_mem_cons, List.forall_mem_cons]
    exact ⟨fun _ ↦ by decide, fun _ ↦ by decide, fun call hcall h ↦ absurd h (hloop call hcall)⟩

/-- A node that sees a superframe starts a measurement exactly if it has its turn. -/
theorem initiated_superframe {nslots : ℕ} {seqNum : BitVec (w + 3)} {es : List (NodeEvent w)}
    (h : IsSuperframe nslots seqNum es) (d : Device w) :
    (gather (nodeStep T) (initiated T) d es).length =
        (if seqNum.toNat % 8 = d.slotId.toNat then 1 else 0) ∧
      ∃ t, run (nodeStep T) d es = some t ∧ t.slotId = d.slotId := by
  obtain ⟨semCount, rest, rfl, hsem, hbetween, hperm⟩ := h
  obtain ⟨hone, hidx⟩ := nrng_tdmaAllocateSlots nslots nslots
  obtain ⟨hlen, flag, hrun⟩ := initiated_between (T := T) (d := { d with semCount, seqNum })
    hsem hbetween fun call hcall ↦ hidx call (hperm.mem_iff.mp hcall)
  refine ⟨?_, _, run_cons_eq_some.mpr ⟨_, rfl, hrun⟩, rfl⟩
  show (gather (nodeStep T) (initiated T) { d with semCount, seqNum } rest).length = _
  rw [hlen, hperm.countP_eq, hone, Nat.one_mul]

/-- The turns go on where the sequence number wraps. -/
theorem toNat_succ_mod (seqNum : BitVec (w + 3)) :
    (seqNum + 1).toNat % 8 = (seqNum.toNat + 1) % 8 := by
  have hone : (1 : BitVec (w + 3)).toNat = 1 :=
    Nat.mod_eq_of_lt (Nat.one_lt_two_pow (Nat.succ_ne_zero _))
  rw [BitVec.toNat_add, hone]
  exact Nat.mod_mod_of_dvd _ (pow_dvd_pow 2 (Nat.le_add_left 3 w))

/-- **Every node has its turns.**  Over any number of superframes, whatever is set and sent in the
meantime, a node starts as many distance measurements as it has turns: none with a `slot_id` from 8
on, and otherwise one in every 8 superframes, with one more if its turn comes in what is left of
them. -/
theorem initiated_eq {nslots : ℕ} {seqNum : BitVec (w + 3)} {frames : List (List (NodeEvent w))}
    (h : Superframes nslots seqNum frames) (d : Device w) :
    (gather (nodeStep T) (initiated T) d frames.flatten).length =
      if 8 ≤ d.slotId.toNat then 0
      else frames.length / 8 +
        if (d.slotId.toNat + 8 - seqNum.toNat % 8) % 8 < frames.length % 8 then 1 else 0 := by
  have hturns : (gather (nodeStep T) (initiated T) d frames.flatten).length =
      turns 8 d.slotId.toNat seqNum.toNat frames.length := by
    induction frames generalizing seqNum d with
    | nil => rfl
    | cons es frames ih =>
      obtain ⟨hlen, t, hrun, hid⟩ := initiated_superframe (T := T) h.1 d
      have hnext : (seqNum + 1).toNat % 8 = (seqNum.toNat + 1) % 8 := toNat_succ_mod seqNum
      rw [List.flatten_cons, gather_append hrun, List.length_append, hlen, ih h.2 t, hid,
        List.length_cons, turns_succ, turns_congr hnext]
  rw [hturns, turns_eq_ite (by decide)]

/-- Superframes in which nothing else happens. -/
def quietFrames (nslots : ℕ) : ℕ → BitVec (w + 3) → List (List (NodeEvent w))
  | 0, _ => []
  | k + 1, seqNum =>
    (.ccp 1 seqNum :: (RtdoaNode.tdmaAllocateSlots nslots nslots).map fun call ↦
      .slot call.1 call.2 ⟨false, 1⟩) :: quietFrames nslots k (seqNum + 1)

theorem superframes_quietFrames (nslots k : ℕ) (seqNum : BitVec (w + 3)) :
    Superframes nslots seqNum (quietFrames nslots k seqNum) := by
  induction k generalizing seqNum with
  | zero => trivial
  | succ k ih =>
    refine ⟨⟨1, _, rfl, by decide, fun e he ↦ ?_, ?_⟩, ih (seqNum + 1)⟩
    · obtain ⟨call, -, rfl⟩ := List.mem_map.mp he
      trivial
    · rw [List.filterMap_map]
      exact .of_eq List.filterMap_some

/-- Node 6 has the first turn and the last, across the wrap of an eight bit number. -/
theorem initiated_across_wrap :
    (gather (nodeStep sampleTdma) (initiated sampleTdma) ⟨0, 0, false, 6, false⟩
      (quietFrames (w := 5) 32 9 254).flatten).length = 2 :=
  (initiated_eq (superframes_quietFrames 32 9 254) _).trans (by decide)

end UwbApps
