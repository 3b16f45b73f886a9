import Mathlib.Algebra.Group.Nat.Defs
import Mathlib.Data.List.Nodup

/-!
# The slots of a superframe

The nodes of an rtdoa network emit in the slots in which its tags listen, so `rtdoa_node` and
`rtdoa_tag` must assign the slots of the superframe alike.  Each has its own
`tdma_allocate_slots`; both run the same loop from slot 2 on, and the node puts its two fixed
slots in front of it.

The calls of `tdma_assign_slot` are kept as a list, up to a number of passes of the loop: the
counter is a `uint16_t`, so the loop need not end.  `scheduleAgrees_iff` says for which
superframes the two schedules fit together.
-/

set_option autoImplicit false

namespace UwbApps

/-- The callbacks a slot is assigned to. -/
inductive SlotCb
  | uwbPanSlotTimerCb
  | nrngSlotTimerCb
  | nmgrSlotTimerCb
  | rtdoaSlotTimerCb
deriving DecidableEq, Repr

open SlotCb

/-- A call of `tdma_assign_slot`: the slot and its callback. -/
abbrev AssignSlot := BitVec 16 × SlotCb

/-- What the loop assigns in its next `passes` passes, with `i` the counter and `nslots` the value
of `TDMA_NSLOTS`. -/
def allocateLoop (nslots : ℕ) : ℕ → BitVec 16 → List AssignSlot
  | 0, _ => []
  | passes + 1, i =>
    if i.toNat < nslots then
      (if i = 31 then []
        else if i.toNat % 12 = 0 then [(i, nmgrSlotTimerCb)]
        else [(i, rtdoaSlotTimerCb)]) ++ allocateLoop nslots passes (i + 1)
    else []

/-- `tdma_allocate_slots` of `rtdoa_node`. -/
def RtdoaNode.tdmaAllocateSlots (nslots passes : ℕ) : List AssignSlot :=
  (1, uwbPanSlotTimerCb) :: (31, nrngSlotTimerCb) :: allocateLoop nslots passes 2

/-- `tdma_allocate_slots` of `rtdoa_tag`. -/
def RtdoaTag.tdmaAllocateSlots (nslots passes : ℕ) : List AssignSlot :=
  allocateLoop nslots passes 2

/-- The program assigns this callback to the slot, sooner or later. -/
def Assigns (calls : ℕ → List AssignSlot) (i : BitVec 16) (cb : SlotCb) : Prop :=
  ∃ passes, (i, cb) ∈ calls passes

/-- No slot is assigned twice, and none outside the superframe. -/
structure SoundSlots (nslots : ℕ) (calls : ℕ → List AssignSlot) : Prop where
  nodup : ∀ passes, ((calls passes).map Prod.fst).Nodup
  lt : ∀ passes, ∀ call ∈ calls passes, call.1.toNat < nslots

/-- The node and the tag fit together in a superframe of `nslots` slots. -/
structure ScheduleAgrees (nslots : ℕ) : Prop where
  rtdoa : ∀ i, Assigns (RtdoaNode.tdmaAllocateSlots nslots) i rtdoaSlotTimerCb ↔
    Assigns (RtdoaTag.tdmaAllocateSlots nslots) i rtdoaSlotTimerCb
  nmgr : ∀ i, Assigns (RtdoaNode.tdmaAllocateSlots nslots) i nmgrSlotTimerCb ↔
    Assigns (RtdoaTag.tdmaAllocateSlots nslots) i nmgrSlotTimerCb
  unused : ∀ cb, ¬ Assigns (RtdoaTag.tdmaAllocateSlots nslots) 1 cb ∧
    ¬ Assigns (RtdoaTag.tdmaAllocateSlots nslots) 31 cb
  node : SoundSlots nslots (RtdoaNode.tdmaAllocateSlots nslots)
  tag : SoundSlots nslots (RtdoaTag.tdmaAllocateSlots nslots)

/-! ## The loop -/

/-- The callback the loop gives a slot. -/
def slotCb (i : BitVec 16) : SlotCb :=
  if i.toNat % 12 = 0 then nmgrSlotTimerCb else rtdoaSlotTimerCb

theorem allocateLoop_succ {nslots : ℕ} {i : BitVec 16} (h : i.toNat < nslots) (passes : ℕ) :
    allocateLoop nslots (passes + 1) i =
      (if i = 31 then [] else [(i, slotCb i)]) ++ allocateLoop nslots passes (i + 1) := by
  rw [allocateLoop, if_pos h, slotCb]
  split
  · rfl
  · split <;> rfl

theorem toNat_succ_slot {nslots : ℕ} (hn : nslots < 2 ^ 16) {i : BitVec 16} (h : i.toNat < nslots) :
    (i + 1).toNat = i.toNat + 1 := by
  rw [BitVec.toNat_add]
  exact Nat.mod_eq_of_lt (show i.toNat + 1 < 2 ^ 16 by omega)

/-- What the loop assigns while the counter does not wrap. -/
theorem mem_allocateLoop {nslots : ℕ} (hn : nslots < 2 ^ 16) {passes : ℕ} {i : BitVec 16}
    {call : AssignSlot} (h : call ∈ allocateLoop nslots passes i) :
    i.toNat ≤ call.1.toNat ∧ call.1.toNat < nslots ∧ call.1 ≠ 31 ∧ call.2 = slotCb call.1 := by
  induction passes generalizing i with
  | zero => cases h
  | succ passes ih =>
    by_cases hi : i.toNat < nslots
    · rw [allocateLoop_succ hi, List.mem_append] at h
      rcases h with h | h
      · split at h
        · cases h
        · rename_i hne
          rw [List.mem_singleton] at h
          subst h
          exact ⟨Nat.le_refl _, hi, hne, rfl⟩
      · obtain ⟨hle, hrest⟩ := ih h
        rw [toNat_succ_slot hn hi] at hle
        exact ⟨by omega, hrest⟩
    · rw [allocateLoop, if_neg hi] at h
      cases h

theorem nodup_allocateLoop {nslots : ℕ} (hn : nslots < 2 ^ 16) (passes : ℕ) (i : BitVec 16) :
    ((allocateLoop nslots passes i).map Prod.fst).Nodup := by
  induction passes generalizing i with
  | zero => exact List.nodup_nil
  | succ passes ih =>
    by_cases hi : i.toNat < nslots
    · rw [allocateLoop_succ hi]
      split
      · exact ih (i + 1)
      · rw [List.singleton_append, List.map_cons, List.nodup_cons]
        refine ⟨fun hmem ↦ ?_, ih (i + 1)⟩
        -- the rest of the loop is past `i`
        obtain ⟨call, hcall, heq⟩ := List.mem_map.mp hmem
        have hle := (mem_allocateLoop hn hcall).1
        have heq : call.1 = i := heq
        rw [toNat_succ_slot hn hi, heq] at hle
        omega
    · rw [allocateLoop, if_neg hi]
      exact List.nodup_nil

/-- With more slots than the counter can tell apart the test of the loop is always true. -/
theorem allocateLoop_add {nslots : ℕ} (hn : 2 ^ 16 ≤ nslots) (m n : ℕ) (i : BitVec 16) :
    allocateLoop nslots (m + n) i =
      allocateLoop nslots m i ++ allocateLoop nslots n (i + BitVec.ofNat 16 m) := by
  induction m generalizing i with
  | zero => simp [allocateLoop]
  | succ m ih =>
    have hi : i.toNat < nslots := Nat.lt_of_lt_of_le i.isLt hn
    have hnext : i + 1 + BitVec.ofNat 16 m = i + BitVec.ofNat 16 (m + 1) := by
      rw [BitVec.add_assoc, BitVec.ofNat_add, BitVec.add_comm (BitVec.ofNat 16 m)]
      rfl
    rw [Nat.succ_add, allocateLoop_succ hi, allocateLoop_succ hi, ih, hnext, List.append_assoc]

/-- Then the loop comes back to slot 2. -/
theorem not_nodup_allocateLoop {nslots : ℕ} (hn : 2 ^ 16 ≤ nslots) :
    ¬ ((allocateLoop nslots (2 ^ 16 + 1) 2).map Prod.fst).Nodup := by
  have hfirst : (2 : BitVec 16) ∈ (allocateLoop nslots (2 ^ 16) 2).map Prod.fst := by
    rw [show 2 ^ 16 = 1 + 65535 from rfl, allocateLoop_add hn, allocateLoop_succ (by
      show 2 < nslots
      omega)]
    exact List.mem_cons_self
  have hagain : (2 : BitVec 16) ∈
      (allocateLoop nslots 1 (2 + BitVec.ofNat 16 (2 ^ 16))).map Prod.fst := by
    rw [show 2 + BitVec.ofNat 16 (2 ^ 16) = (2 : BitVec 16) from rfl, allocateLoop_succ (by
      show 2 < nslots
      omega)]
    exact List.mem_cons_self
  rw [allocateLoop_add hn, List.map_append, List.nodup_append]
  exact fun h ↦ h.2.2 2 hfirst 2 hagain rfl

/-! ## The two programs -/

/-- The fixed slots of the node have callbacks of their own. -/
theorem assigns_node_iff {nslots : ℕ} {i : BitVec 16} {cb : SlotCb} (hpan : cb ≠ uwbPanSlotTimerCb)
    (hnrng : cb ≠ nrngSlotTimerCb) :
    Assigns (RtdoaNode.tdmaAllocateSlots nslots) i cb ↔
      Assigns (RtdoaTag.tdmaAllocateSlots nslots) i cb := by
  refine exists_congr fun passes ↦ ?_
  simp [RtdoaNode.tdmaAllocateSlots, RtdoaTag.tdmaAllocateSlots, hpan, hnrng]

theorem soundSlots_tag {nslots : ℕ} (hn : nslots < 2 ^ 16) :
    SoundSlots nslots (RtdoaTag.tdmaAllocateSlots nslots) where
  nodup passes := nodup_allocateLoop hn passes 2
  lt _ _ hcall := (mem_allocateLoop hn hcall).2.1

theorem soundSlots_node {nslots : ℕ} (hn : nslots < 2 ^ 16) (hfixed : 32 ≤ nslots) :
    SoundSlots nslots (RtdoaNode.tdmaAllocateSlots nslots) where
  nodup passes := by
    have hloop : ∀ i, i ∈ (allocateLoop nslots passes 2).map Prod.fst → 2 ≤ i.toNat ∧ i ≠ 31 := by
      intro i hi
      obtain ⟨call, hcall, rfl⟩ := List.mem_map.mp hi
      obtain ⟨hle, -, hne, -⟩ := mem_allocateLoop hn hcall
      exact ⟨hle, hne⟩
    rw [RtdoaNode.tdmaAllocateSlots, List.map_cons, List.map_cons, List.nodup_cons,
      List.nodup_cons, List.mem_cons, not_or]
    refine ⟨⟨by decide, fun hone ↦ ?_⟩, fun hlast ↦ (hloop 31 hlast).2 rfl,
      nodup_allocateLoop hn passes 2⟩
    exact absurd (hloop 1 hone).1 (by decide)
  lt passes call hcall := by
    rw [RtdoaNode.tdmaAllocateSlots, List.mem_cons, List.mem_cons] at hcall
    rcases hcall with rfl | rfl | hcall
    · exact Nat.lt_of_lt_of_le (show 1 < 32 by decide) hfixed
    · exact Nat.lt_of_lt_of_le (show 31 < 32 by decide) hfixed
    · exact (mem_allocateLoop hn hcall).2.1

/-- **When the schedules fit together**: exactly when the superframe has the node's slot 31, and
no more slots than the counter of the loop can tell apart. -/
theorem scheduleAgrees_iff (nslots : ℕ) :
    ScheduleAgrees nslots ↔ 32 ≤ nslots ∧ nslots < 2 ^ 16 := by
  constructor
  · intro h
    refine ⟨h.node.lt 0 (31, nrngSlotTimerCb) (List.mem_cons_of_mem _ List.mem_cons_self), ?_⟩
    by_contra hn
    exact not_nodup_allocateLoop (Nat.not_lt.mp hn) (h.tag.nodup _)
  · rintro ⟨hfixed, hn⟩
    refine ⟨fun i ↦ assigns_node_iff (by decide) (by decide),
      fun i ↦ assigns_node_iff (by decide) (by decide), fun cb ↦ ⟨?_, ?_⟩,
      soundSlots_node hn hfixed, soundSlots_tag hn⟩
    · rintro ⟨passes, hmem⟩
      have hle : 2 ≤ 1 := (mem_allocateLoop hn hmem).1
      omega
    · rintro ⟨passes, hmem⟩
      exact (mem_allocateLoop hn hmem).2.2.1 rfl

/-- In a superframe of 16 slots the node assigns slot 31. -/
theorem not_scheduleAgrees_sixteen : ¬ ScheduleAgrees 16 := by
  intro h
  exact absurd (h.node.lt 0 (31, nrngSlotTimerCb) (by decide)) (by decide)

end UwbApps
