import Mathlib.Data.List.Count
import UwbApps.Lib.Run
import UwbApps.Lib.Turns
import UwbApps.Os.Tdma

/-!
# The slots of `twr_nranges_tdma`

From the third slot on every slot has one callback, `slot_cb`.  The anchors listen in it, and a tag
ranges with all of them in each slot whose number modulo `NRNG_NTAGS` is its `slot_id`; a slot in
which a configuration has to be applied, or a newtmgr frame sent, is not ranged in.

`owned_of_turn` is about a slot, and `ranging_slots` about a superframe: how often a tag has its
turn, and that it ranges in these slots only, and in all of them but one for each configuration
that is applied and each frame that is sent.
-/

set_option autoImplicit false

open Run Turns

namespace UwbApps.TwrNrangesTdma

open Os

/-- The settings of the build. -/
structure Syscfg where
  nrngNtags : ℕ
  nodeStartSlotId : ℕ
  nodeEndSlotId : ℕ
  tdmaNslots : ℕ
  surveyEnabled : Bool

/-- What `slot_cb` looks at in a device. -/
structure Device where
  /-- `dpl_sem_get_count(&ccp->sem)`. -/
  semCount : UInt16
  localEpoch : BitVec 64
  slotId : BitVec 16
  /-- `udev->role & UWB_ROLE_ANCHOR`. -/
  anchor : Bool
  uwbConfigUpdated : Bool
deriving DecidableEq

/-- The loop that fills in `slot_mask`. -/
def slotMaskLoop (nodeEndSlotId : ℕ) : ℕ → BitVec 16 → BitVec 32 → Option (BitVec 32)
  | 0, _, _ => none
  | passes + 1, i, slotMask =>
    if i.toNat ≤ nodeEndSlotId then
      slotMaskLoop nodeEndSlotId passes (i + 1) (slotMask ||| 1#32 <<< i.toNat)
    else some slotMask

/-- `slot_mask`, when the loop ends. -/
def slotMask (C : Syscfg) : Option (BitVec 32) :=
  slotMaskLoop C.nodeEndSlotId (2 ^ 16) (.ofNat 16 C.nodeStartSlotId) 0#32

/-- A slot in which newtmgr frames are sent. -/
def IsNmgrSlot (T : Tdma) (idx : BitVec 16) : Prop :=
  6 < idx.toNat ∧ (idx.toNat : ℤ) < T.nslots.toNat - 6 ∧ idx.toNat % 4 = 0

instance (T : Tdma) (idx : BitVec 16) : Decidable (IsNmgrSlot T idx) :=
  inferInstanceAs (Decidable (_ ∧ _))

/-- `slot_cb`, with `mask` for `slot_mask`. -/
def slotCb (C : Syscfg) (T : Tdma) (mask : BitVec 32) (d : Device) (idx : BitVec 16)
    (queued : Bool) : Device × List RadioCall :=
  if d.semCount = 0 then (d, [])
  else if d.uwbConfigUpdated then
    ({ d with uwbConfigUpdated := false }, [.uwbPhyForcetrxoff, .uwbMacConfig, .uwbTxrfConfig])
  else if d.localEpoch = 0 ∨ d.slotId = 0xffff then (d, [])
  else if IsNmgrSlot T idx ∧ queued then (d, [.nmgrTx (T.tdmaTxSlotStart idx)])
  else if d.anchor then
    (d, [.uwbSetDelayStart (T.tdmaRxSlotStart idx),
      .uwbSetRxTimeout (T.nrngTimeout.setWidth 32 + 0x1000), .nrngListen])
  else if idx.toNat % C.nrngNtags ≠ d.slotId.toNat then (d, [])
  else (d, [.nrngRequestDelayStart (T.dxTime idx) mask])

/-- `uwb_config_updated_cb`, as far as the flag goes. -/
def uwbConfigUpdatedCb (d : Device) : Device :=
  if d.semCount = 0 then d else { d with uwbConfigUpdated := true }

/-- The slots that the last loop of `main` assigns to `slot_cb`, in its next `passes` passes. -/
def assignLoop (nslots : ℕ) : ℕ → BitVec 16 → List (BitVec 16)
  | 0, _ => []
  | passes + 1, i => if i.toNat < nslots then i :: assignLoop nslots passes (i + 1) else []

/-- Where the loop starts. -/
def Syscfg.firstSlot (C : Syscfg) : ℕ := if C.surveyEnabled then 6 else 3

/-- All slots of `slot_cb`. -/
def Syscfg.slots (C : Syscfg) : List (BitVec 16) :=
  assignLoop C.tdmaNslots C.tdmaNslots (.ofNat 16 C.firstSlot)

/-! ## The slot mask -/

theorem toNat_succ {n : ℕ} (hn : n < 2 ^ 16) {i : BitVec 16} (h : i.toNat < n) :
    (i + 1).toNat = i.toNat + 1 := by
  rw [BitVec.toNat_add]
  exact Nat.mod_eq_of_lt (show i.toNat + 1 < 2 ^ 16 by omega)

theorem getLsbD_one_shiftLeft {i : ℕ} (hi : i < 32) (k : ℕ) :
    (1#32 <<< i).getLsbD k = decide (k = i) := by
  rw [BitVec.getLsbD_shiftLeft, BitVec.getLsbD_one]
  grind

/-- The loop adds a bit for each node from `i` on. -/
theorem slotMaskLoop_eq {last passes : ℕ} {i : BitVec 16} {mask : BitVec 32} (hlast : last < 32)
    (hpasses : last + 1 - i.toNat < passes) :
    ∃ mask', slotMaskLoop last passes i mask = some mask' ∧
      ∀ k, mask'.getLsbD k = (mask.getLsbD k || decide (i.toNat ≤ k ∧ k ≤ last)) := by
  induction passes generalizing i mask with
  | zero => exact absurd hpasses (Nat.not_lt_zero _)
  | succ passes ih =>
    rw [slotMaskLoop]
    by_cases hi : i.toNat ≤ last
    · have hnext : (i + 1).toNat = i.toNat + 1 :=
        toNat_succ (n := last + 1) (by omega) (Nat.lt_succ_of_le hi)
      obtain ⟨mask', hloop, hbits⟩ := @ih (i + 1) (mask ||| 1#32 <<< i.toNat) (by omega)
      refine ⟨mask', by rw [if_pos hi, hloop], fun k ↦ ?_⟩
      rw [hbits, BitVec.getLsbD_or, getLsbD_one_shiftLeft (by omega), hnext]
      grind
    · refine ⟨mask, if_neg hi, fun k ↦ ?_⟩
      rw [decide_eq_false (by omega), Bool.or_false]

/-- **The mask** has the bits of the nodes that are to answer, and no others. -/
theorem slotMask_eq {C : Syscfg} (hlast : C.nodeEndSlotId < 32)
    (hstart : C.nodeStartSlotId ≤ C.nodeEndSlotId) :
    ∃ mask, slotMask C = some mask ∧
      ∀ k, mask.getLsbD k = decide (C.nodeStartSlotId ≤ k ∧ k ≤ C.nodeEndSlotId) := by
  have hi : (BitVec.ofNat 16 C.nodeStartSlotId).toNat = C.nodeStartSlotId := by
    rw [BitVec.toNat_ofNat]
    exact Nat.mod_eq_of_lt (show C.nodeStartSlotId < 2 ^ 16 by omega)
  obtain ⟨mask, hloop, hbits⟩ := @slotMaskLoop_eq _ (2 ^ 16)
    (.ofNat 16 C.nodeStartSlotId) 0#32 hlast (by omega)
  refine ⟨mask, hloop, fun k ↦ ?_⟩
  rw [hbits, hi, BitVec.getLsbD_zero, Bool.false_or]

/-! ## One slot -/

variable {C : Syscfg} {T : Tdma} {m : BitVec 32}

/-- The device is in step with the clock master and has its slot. -/
def Device.InStep (d : Device) : Prop := d.semCount ≠ 0 ∧ d.localEpoch ≠ 0 ∧ d.slotId ≠ 0xffff

/-- What `slot_cb` does for a device in step with nothing else to do. -/
theorem slotCb_of_inStep {d : Device} (h : d.InStep) (hflag : d.uwbConfigUpdated = false)
    {idx : BitVec 16} {queued : Bool} (hqueue : ¬ (IsNmgrSlot T idx ∧ queued = true)) :
    slotCb C T m d idx queued =
      (d, if d.anchor then
          [.uwbSetDelayStart (T.tdmaRxSlotStart idx),
            .uwbSetRxTimeout (T.nrngTimeout.setWidth 32 + 0x1000), .nrngListen]
        else if idx.toNat % C.nrngNtags ≠ d.slotId.toNat then []
        else [.nrngRequestDelayStart (T.dxTime idx) m]) := by
  rw [slotCb, if_neg h.1, if_neg (by rw [hflag]; exact Bool.false_ne_true),
    if_neg (not_or.mpr h.2), if_neg hqueue]
  split_ifs <;> rfl

/-- Only a tag that has its turn ranges, with one request to the nodes of the mask. -/
theorem request_of_ranges {d : Device} {idx : BitVec 16} {queued : Bool} {call : RadioCall}
    (hcall : call ∈ (slotCb C T m d idx queued).2) (hranges : call.ranges = true) :
    d.anchor = false ∧ idx.toNat % C.nrngNtags = d.slotId.toNat ∧
      call = .nrngRequestDelayStart (T.dxTime idx) m := by
  rw [slotCb] at hcall
  split_ifs at hcall with hsem hflag hstep hqueue hanchor hturn
  all_goals
    simp only [List.mem_cons, List.not_mem_nil, or_false] at hcall
  · obtain rfl | rfl | rfl := hcall <;> cases hranges
  · obtain rfl := hcall
    cases hranges
  · obtain rfl | rfl | rfl := hcall <;> cases hranges
  · exact ⟨Bool.eq_false_iff.mpr hanchor, not_not.mp hturn, hcall⟩

/-- A device and what its newtmgr queue answers in the slot. -/
structure Station where
  device : Device
  queued : Bool

/-- The station starts a measurement in the slot. -/
def Station.Ranges (C : Syscfg) (T : Tdma) (mask : BitVec 32) (s : Station) (idx : BitVec 16) :
    Prop :=
  ∃ call ∈ (slotCb C T mask s.device idx s.queued).2, call.ranges = true

def Station.Listens (C : Syscfg) (T : Tdma) (mask : BitVec 32) (s : Station) (idx : BitVec 16) :
    Prop :=
  ∃ call ∈ (slotCb C T mask s.device idx s.queued).2, call.listens = true

/-- The slot belongs to the tags with this `slot_id`: no other station ranges in it, and every
anchor that is in step with nothing else to do listens. -/
def Owned (C : Syscfg) (T : Tdma) (mask : BitVec 32) (slotId idx : BitVec 16) : Prop :=
  ∀ s : Station,
    (s.Ranges C T mask idx → s.device.anchor = false ∧ s.device.slotId = slotId) ∧
      (s.device.anchor = true → s.device.InStep → s.device.uwbConfigUpdated = false →
        s.queued = false → s.Listens C T mask idx)

/-- **One tag at a time.** -/
theorem owned_of_turn {slotId idx : BitVec 16} (hturn : idx.toNat % C.nrngNtags = slotId.toNat) :
    Owned C T m slotId idx := by
  refine fun s ↦ ⟨fun ⟨call, hcall, hranges⟩ ↦ ?_, fun hanchor hstep hflag hqueue ↦ ?_⟩
  · obtain ⟨htag, hown, -⟩ := request_of_ranges hcall hranges
    exact ⟨htag, BitVec.eq_of_toNat_eq (hown.symm.trans hturn)⟩
  · have hunsent : ¬ (IsNmgrSlot T idx ∧ s.queued = true) := by
      rw [hqueue]
      exact fun h ↦ absurd h.2 Bool.false_ne_true
    refine ⟨.nrngListen, ?_, rfl⟩
    rw [slotCb_of_inStep hstep hflag hunsent, if_pos hanchor]
    exact List.mem_cons_of_mem _ (List.mem_cons_of_mem _ List.mem_cons_self)

/-! ## A superframe of a tag -/

/-- What happens to a device between two clock frames. -/
inductive Event
  | slot (idx : BitVec 16) (queued : Bool)
  | configUpdated

def step (C : Syscfg) (T : Tdma) (mask : BitVec 32) (d : Device) : Event → Option Device
  | .slot idx queued => some (slotCb C T mask d idx queued).1
  | .configUpdated => some (uwbConfigUpdatedCb d)

/-- The calls of a kind that the slots make, each with its slot. -/
def made (C : Syscfg) (T : Tdma) (mask : BitVec 32) (kind : RadioCall → Bool) (d : Device) :
    Event → List (BitVec 16 × RadioCall)
  | .slot idx queued => ((slotCb C T mask d idx queued).2.filter kind).map (Prod.mk idx)
  | .configUpdated => []

/-- The slot that comes up. -/
def Event.slot? : Event → Option (BitVec 16)
  | .slot idx _ => some idx
  | .configUpdated => none

/-- A configuration is committed. -/
def Event.commits : Event → Bool
  | .slot _ _ => false
  | .configUpdated => true

/-- The slots among these in which `slotId` has its turn. -/
def turnSlots (C : Syscfg) (slotId : BitVec 16) (slots : List (BitVec 16)) : ℕ :=
  slots.countP fun idx ↦ idx.toNat % C.nrngNtags = slotId.toNat

/-- How many configurations wait to be applied. -/
def Device.waiting (d : Device) : ℕ := if d.uwbConfigUpdated then 1 else 0

/-- A request to the nodes of the mask, in a turn of `slotId`. -/
def InTurn (C : Syscfg) (T : Tdma) (mask : BitVec 32) (slotId : BitVec 16)
    (r : BitVec 16 × RadioCall) : Prop :=
  r.1.toNat % C.nrngNtags = slotId.toNat ∧ r.2 = .nrngRequestDelayStart (T.dxTime r.1) mask

/-- A step changes the flag only. -/
theorem exists_step (C : Syscfg) (T : Tdma) (m : BitVec 32) (d : Device) (e : Event) :
    ∃ uwbConfigUpdated, step C T m d e = some { d with uwbConfigUpdated } := by
  cases e with
  | slot idx queued =>
    rw [step, slotCb]
    split_ifs <;> exact ⟨_, rfl⟩
  | configUpdated =>
    rw [step, uwbConfigUpdatedCb]
    split <;> exact ⟨_, rfl⟩

/-- What is ranged in a step is a request in its turn. -/
theorem inTurn_of_mem_made {d : Device} {e : Event} {r : BitVec 16 × RadioCall}
    (hr : r ∈ made C T m RadioCall.ranges d e) : InTurn C T m d.slotId r := by
  cases e with
  | slot idx queued =>
    obtain ⟨call, hcall, rfl⟩ := List.mem_map.mp hr
    obtain ⟨hmem, hranges⟩ := List.mem_filter.mp hcall
    exact (request_of_ranges hmem hranges).2
  | configUpdated => exact absurd hr List.not_mem_nil

/-- A step makes a measurement once at most, and a turn without one is owed to a frame that is sent
or to a configuration. -/
theorem made_step {d t : Device} (hstep : d.InStep) (htag : d.anchor = false) {e : Event}
    (h : step C T m d e = some t) :
    ((made C T m RadioCall.ranges d e).map Prod.fst).Sublist e.slot?.toList ∧
      turnSlots C d.slotId e.slot?.toList + t.waiting ≤
        (made C T m RadioCall.ranges d e).length + [e].countP Event.commits +
          (made C T m RadioCall.sendsNmgr d e).length + d.waiting := by
  cases e with
  | configUpdated =>
    cases h
    rw [uwbConfigUpdatedCb, if_neg hstep.1]
    refine ⟨List.Sublist.refl _, ?_⟩
    show 0 + 1 ≤ 0 + 1 + 0 + d.waiting
    omega
  | slot idx queued =>
    cases h
    have hone : turnSlots C d.slotId [idx] ≤ 1 := List.countP_le_length
    have hcommits : [Event.slot idx queued].countP Event.commits = 0 := rfl
    have hslot : (Event.slot idx queued).slot?.toList = [idx] := rfl
    rw [hslot, hcommits, made, made]
    by_cases hflag : d.uwbConfigUpdated = true
    · have hwaiting : d.waiting = 1 := if_pos hflag
      rw [slotCb, if_neg hstep.1, if_pos hflag]
      refine ⟨List.nil_sublist _, ?_⟩
      show _ + 0 ≤ 0 + 0 + 0 + d.waiting
      omega
    · rw [Bool.not_eq_true] at hflag
      by_cases hqueue : IsNmgrSlot T idx ∧ queued = true
      · rw [slotCb, if_neg hstep.1, if_neg (by rw [hflag]; exact Bool.false_ne_true),
          if_neg (not_or.mpr hstep.2), if_pos hqueue]
        refine ⟨List.nil_sublist _, ?_⟩
        show _ + d.waiting ≤ 0 + 0 + 1 + d.waiting
        omega
      · rw [slotCb_of_inStep hstep hflag hqueue, if_neg (by rw [htag]; exact Bool.false_ne_true),
          turnSlots, List.countP_singleton]
        by_cases hturn : idx.toNat % C.nrngNtags = d.slotId.toNat
        · rw [if_neg (not_not.mpr hturn), if_pos (decide_eq_true hturn)]
          refine ⟨List.Sublist.refl _, ?_⟩
          show 1 + d.waiting ≤ 1 + 0 + 0 + d.waiting
          omega
        · rw [if_pos hturn, if_neg fun h ↦ hturn (of_decide_eq_true h)]
          refine ⟨List.nil_sublist _, ?_⟩
          show 0 + d.waiting ≤ 0 + 0 + 0 + d.waiting
          omega

/-- Over a run. -/
theorem made_run {d : Device} (hstep : d.InStep) (htag : d.anchor = false) (es : List Event) :
    (∀ r ∈ gather (step C T m) (made C T m RadioCall.ranges) d es, InTurn C T m d.slotId r) ∧
      ((gather (step C T m) (made C T m RadioCall.ranges) d es).map Prod.fst).Sublist
        (es.filterMap Event.slot?) ∧
      turnSlots C d.slotId (es.filterMap Event.slot?) ≤
        (gather (step C T m) (made C T m RadioCall.ranges) d es).length +
          es.countP Event.commits +
          (gather (step C T m) (made C T m RadioCall.sendsNmgr) d es).length + d.waiting := by
  induction es generalizing d with
  | nil => exact ⟨fun _ h ↦ absurd h List.not_mem_nil, List.Sublist.refl _, Nat.zero_le _⟩
  | cons e es ih =>
    have hslots : (e :: es).filterMap Event.slot? =
        e.slot?.toList ++ es.filterMap Event.slot? := by
      rw [List.filterMap_cons]
      cases e.slot? <;> rfl
    obtain ⟨flag, he⟩ := exists_step C T m d e
    obtain ⟨hone, hge⟩ := made_step hstep htag he
    obtain ⟨ihturn, ihone, ihge⟩ := ih (d := { d with uwbConfigUpdated := flag }) hstep htag
    dsimp only at ihturn ihge
    rw [gather, gather, he, Option.elim_some, Option.elim_some, hslots]
    refine ⟨List.forall_mem_append.mpr ⟨fun r hr ↦ inTurn_of_mem_made hr, ihturn⟩, ?_, ?_⟩
    · rw [List.map_append]
      exact hone.append ihone
    · rw [turnSlots, List.countP_append, List.length_append, List.length_append,
        ← List.singleton_append (l := es), List.countP_append]
      simp only [turnSlots] at hge ihge
      omega

/-- The turns among the slots that the loop assigns. -/
theorem turnSlots_assignLoop {nslots : ℕ} (hn : nslots < 2 ^ 16) (slotId : BitVec 16) {passes : ℕ}
    {i : BitVec 16} (hpasses : nslots - i.toNat ≤ passes) :
    turnSlots C slotId (assignLoop nslots passes i) =
      turns C.nrngNtags slotId.toNat i.toNat (nslots - i.toNat) := by
  induction passes generalizing i with
  | zero =>
    rw [Nat.le_zero.mp hpasses]
    rfl
  | succ passes ih =>
    by_cases hi : i.toNat < nslots
    · have hnext := toNat_succ hn hi
      have hsub : nslots - i.toNat = nslots - (i + 1).toNat + 1 := by omega
      rw [assignLoop, if_pos hi, hsub, turns_succ, ← hnext, ← ih (by omega), turnSlots,
        List.countP_cons, Nat.add_comm]
      simp [turnSlots]
    · rw [assignLoop, if_neg hi, Nat.sub_eq_zero_of_le (Nat.not_lt.mp hi)]
      rfl

/-- A list of slots that are all turns is no longer than the turns of a list it is taken from. -/
theorem length_le_turnSlots {slotId : BitVec 16} {turned slots : List (BitVec 16)}
    (hsub : turned.Sublist slots)
    (hturn : ∀ idx ∈ turned, idx.toNat % C.nrngNtags = slotId.toNat) :
    turned.length ≤ turnSlots C slotId slots := by
  have hall : turned.countP (fun idx ↦ idx.toNat % C.nrngNtags = slotId.toNat) = turned.length :=
    List.countP_eq_length.mpr fun idx hidx ↦ decide_eq_true (hturn idx hidx)
  exact hall.symm.trans_le (hsub.countP_le)

/-- **The slots of a tag.**  In a superframe a tag in step has a turn in every `NRNG_NTAGS` slots,
or none if its `slot_id` is not among them.  It ranges in its turns only, once in each, alone and
with the nodes of the mask, and in all of them but one for each configuration that is committed or
waits, and one for each newtmgr frame it sends. -/
theorem ranging_slots (hn : C.tdmaNslots < 2 ^ 16) (hpos : 0 < C.nrngNtags)
    (hlast : C.nodeEndSlotId < 32) (hfirst : C.nodeStartSlotId ≤ C.nodeEndSlotId)
    (hmask : slotMask C = some m) {d : Device} (hstep : d.InStep) (htag : d.anchor = false)
    {es : List Event} (hslots : es.filterMap Event.slot? = C.slots) :
    let ranged := gather (step C T m) (made C T m RadioCall.ranges) d es
    let n := if C.nrngNtags ≤ d.slotId.toNat then 0 else
      (C.tdmaNslots - C.firstSlot) / C.nrngNtags +
        if (d.slotId.toNat + C.nrngNtags - C.firstSlot % C.nrngNtags) % C.nrngNtags <
          (C.tdmaNslots - C.firstSlot) % C.nrngNtags then 1 else 0
    (∀ r ∈ ranged, r.1.toNat % C.nrngNtags = d.slotId.toNat ∧ Owned C T m d.slotId r.1 ∧
      ∃ mask, r.2 = .nrngRequestDelayStart (T.dxTime r.1) mask ∧
        ∀ k, mask.getLsbD k = decide (C.nodeStartSlotId ≤ k ∧ k ≤ C.nodeEndSlotId)) ∧
      (ranged.map Prod.fst).Sublist C.slots ∧ ranged.length ≤ n ∧
      n ≤ ranged.length + es.countP Event.commits +
        (gather (step C T m) (made C T m RadioCall.sendsNmgr) d es).length + d.waiting := by
  intro ranged n
  have hstart : (BitVec.ofNat 16 C.firstSlot).toNat = C.firstSlot := by
    rw [Syscfg.firstSlot]
    split <;> rfl
  have hcount : turnSlots C d.slotId C.slots = n := by
    rw [Syscfg.slots, turnSlots_assignLoop hn _ (Nat.sub_le _ _), hstart, turns_eq_ite hpos]
  obtain ⟨hturn, hone, hge⟩ := made_run (T := T) (m := m) hstep htag es
  rw [hslots] at hone hge
  rw [hcount] at hge
  refine ⟨fun r hr ↦ ?_, hone, ?_, hge⟩
  · obtain ⟨mask, hsome, hbits⟩ := slotMask_eq hlast hfirst
    obtain rfl : m = mask := Option.some.inj (hmask.symm.trans hsome)
    exact ⟨(hturn r hr).1, owned_of_turn (hturn r hr).1, m, (hturn r hr).2, hbits⟩
  · have hle := length_le_turnSlots hone fun idx hidx ↦ by
      obtain ⟨r, hr, rfl⟩ := List.mem_map.mp hidx
      exact (hturn r hr).1
    rwa [List.length_map, hcount] at hle

/-- Four tags and eight nodes, in a superframe of 32 slots. -/
def sampleSyscfg : Syscfg := ⟨4, 0, 7, 32, false⟩

def sampleTdma : Tdma where
  nslots := 32
  period := 32000
  tdmaTxSlotStart idx := idx.setWidth 64 * 1000
  tdmaRxSlotStart idx := idx.setWidth 64 * 1000
  nrngTimeout := 300
  localToMaster := id

/-- A configuration is committed before the first slot, and nothing is sent. -/
def commitFirst : List Event := .configUpdated :: sampleSyscfg.slots.map (Event.slot · false)

/-- The configuration costs tag 2 one of its seven slots at most. -/
theorem ranging_slots_of_commit :
    7 ≤ (gather (step sampleSyscfg sampleTdma 0xff)
      (made sampleSyscfg sampleTdma 0xff RadioCall.ranges)
      ⟨1, 1, 2, false, false⟩ commitFirst).length + 1 := by
  have hcommits : commitFirst.countP Event.commits = 1 := by decide
  have hsent : gather (step sampleSyscfg sampleTdma 0xff)
      (made sampleSyscfg sampleTdma 0xff RadioCall.sendsNmgr)
      ⟨1, 1, 2, false, false⟩ commitFirst = [] := by decide
  obtain ⟨-, -, -, hge⟩ := ranging_slots (C := sampleSyscfg) (T := sampleTdma) (m := 0xff)
    (by decide) (by decide) (by decide) (by decide) (by decide)
    (d := ⟨1, 1, 2, false, false⟩) ⟨by decide, by decide, by decide⟩ rfl
    (show commitFirst.filterMap Event.slot? = sampleSyscfg.slots by decide)
  rw [hcommits, hsent] at hge
  exact hge

end UwbApps.TwrNrangesTdma
