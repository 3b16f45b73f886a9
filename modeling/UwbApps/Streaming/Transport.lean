import UwbApps.Os.Mbuf

/-!
# The test packets of `streaming`

Every node has a buffer `test`.  The sender's `stream_timer` counts `test[1]` up, puts a checksum
over the rest into `test[0]` and sends the whole buffer; the receiver's `uwb_transport_cb` copies
what arrives over its own buffer, checks it and compares the index with the one it expects.

`uwbTransportCb_of_intact` and `uwbTransportCb_of_not_passes` say what a reception does to the
counters, and `consecutive_streamTimer` that the packets sent have consecutive indices.
-/

set_option autoImplicit false

open Octets

namespace UwbApps.Streaming

open Os

/-- What the program takes from its libraries. -/
structure Lib where
  /-- `crc8_calc`. -/
  crc8Calc : UInt8 → List UInt8 → UInt8
  /-- `sizeof(uwb_transport_frame_header_t)`. -/
  sizeofFrameHeader : ℕ
  sizeofFrameHeader_le : sizeofFrameHeader ≤ 508

/-- `sizeof(test)`. -/
def Lib.sizeofTest (l : Lib) : ℕ := 512 - l.sizeofFrameHeader - 2

/-- The variables of a node. -/
structure Node where
  test : Mem
  gIdx : UInt8
  gMissedCount : BitVec 32
  gOkCount : BitVec 32

/-- A node after `main` has filled in `test`. -/
def boot : Node := ⟨fun i ↦ .ofNat i, 0, 0, 0⟩

/-- `crc8_calc(0, test+1, sizeof(test)-1)`. -/
def Lib.testCrc (l : Lib) (test : Mem) : UInt8 :=
  l.crc8Calc 0 (fetch (fun k ↦ test (k + 1)) (l.sizeofTest - 1))

/-- What `dpl_mbuf_copydata` leaves in `test`. -/
def Lib.copyTest {β : Type} (l : Lib) (n : Node) (mbuf : Mbuf β) : Mem :=
  (osMbufCopydata mbuf 0 l.sizeofTest n.test).1

/-- `DPL_MBUF_PKTLEN`, as the `uint16_t` it is kept in. -/
def pktlen {β : Type} (mbuf : Mbuf β) : ℕ := mbuf.data.length % 65536

/-- The check of `uwb_transport_cb` on a packet. -/
def Lib.Passes {β : Type} (l : Lib) (n : Node) (mbuf : Mbuf β) : Prop :=
  l.copyTest n mbuf 0 = l.testCrc (l.copyTest n mbuf) ∧ pktlen mbuf = l.sizeofTest

instance {β : Type} (l : Lib) (n : Node) (mbuf : Mbuf β) : Decidable (l.Passes n mbuf) :=
  inferInstanceAs (Decidable (_ ∧ _))

/-- `(test[1] - g_idx)&0xff`. -/
def idxGap (got expected : UInt8) : BitVec 32 :=
  (got.toBitVec.setWidth 32 - expected.toBitVec.setWidth 32) &&& 0xff

/-- `uwb_transport_cb`. -/
def uwbTransportCb {β : Type} (l : Lib) (n : Node) (mbuf : Mbuf β) : Node :=
  let test := l.copyTest n mbuf
  let gIdx := n.gIdx + 1
  -- first byte stores crc, second byte stores an index
  if ¬ l.Passes n mbuf then { n with test, gIdx := test 1 }
  else if test 1 ≠ gIdx then
    { test
      gIdx := test 1
      gMissedCount := n.gMissedCount + idxGap (test 1) gIdx
      gOkCount := n.gOkCount + 1 }
  else { n with test, gIdx := test 1, gOkCount := n.gOkCount + 1 }

/-- The index is counted up, and the checksum put in front of it. -/
def Lib.nextTest (l : Lib) (test : Mem) : Mem :=
  let test := store test 1 [test 1 + 1]
  store test 0 [l.testCrc test]

/-- The loop of `stream_timer` over what each of its passes finds: the address to send to, and
whether there is a buffer. -/
def streamLoop (l : Lib) : List (UInt16 × Bool) → Mem → Mem × List (List UInt8)
  | [], test => (test, [])
  | (destinationUid, mbuf) :: passes, test =>
    if destinationUid = 0 then (test, [])
    else if mbuf then
      let (test', packets) := streamLoop l passes (l.nextTest test)
      (test', fetch (l.nextTest test) l.sizeofTest :: packets)
    else (test, [])

/-- `stream_timer`, with the packets it sends. -/
def streamTimer (l : Lib) (passes : List (UInt16 × Bool)) (n : Node) : Node × List (List UInt8) :=
  let (test, packets) := streamLoop l (passes.take 18) n.test
  ({ n with test }, packets)

/-! ## What a reception does -/

theorem Lib.sizeofTest_bounds (l : Lib) : 2 ≤ l.sizeofTest ∧ l.sizeofTest < 65536 := by
  have := l.sizeofFrameHeader_le
  rw [Lib.sizeofTest]
  omega

theorem idxGap_eq (got expected : UInt8) :
    idxGap got expected = (got - expected).toBitVec.setWidth 32 := by
  apply BitVec.eq_of_toNat_eq
  have hgot := got.toBitVec.isLt
  have hexp := expected.toBitVec.isLt
  have hmask : (0xff : BitVec 32).toNat = 2 ^ 8 - 1 := rfl
  simp only [idxGap, BitVec.toNat_and, BitVec.toNat_sub, BitVec.toNat_setWidth,
    UInt8.toBitVec_sub, hmask, Nat.and_two_pow_sub_one_eq_mod]
  omega

/-- The packet has the index `idx` and will pass the check wherever it arrives. -/
structure Intact (l : Lib) (packet : List UInt8) (idx : UInt8) : Prop where
  length_eq : packet.length = l.sizeofTest
  crc_eq : load packet 0 = l.testCrc (load packet)
  idx_eq : load packet 1 = idx

section Reception

variable {l : Lib} {n : Node} {β : Type} {mbuf : Mbuf β} {idx : UInt8}

/-- Copying an intact packet leaves nothing of what was there. -/
theorem Intact.copyTest (h : Intact l mbuf.data idx) (n : Node) :
    ∀ k < l.sizeofTest, l.copyTest n mbuf k = load mbuf.data k := by
  intro k hk
  have hin : k < l.sizeofTest ∧ 0 + k < mbuf.data.length := ⟨hk, by rw [h.length_eq]; omega⟩
  rw [Lib.copyTest, osMbufCopydata_apply, if_pos hin, Nat.zero_add, load]

theorem testCrc_congr {m m' : Mem} (h : ∀ k < l.sizeofTest, m k = m' k) :
    l.testCrc m = l.testCrc m' := by
  rw [Lib.testCrc, Lib.testCrc, fetch_congr]
  exact fun k hk ↦ h _ (by omega)

theorem Intact.passes (h : Intact l mbuf.data idx) (n : Node) : l.Passes n mbuf := by
  have hsize := l.sizeofTest_bounds
  refine ⟨?_, ?_⟩
  · rw [h.copyTest n 0 (by omega), testCrc_congr (h.copyTest n), h.crc_eq]
  · rw [pktlen, h.length_eq]
    exact Nat.mod_eq_of_lt hsize.2

/-- **An intact packet** is counted, and as many missed as its index is ahead of the expected
one. -/
theorem uwbTransportCb_of_intact (h : Intact l mbuf.data idx) :
    (uwbTransportCb l n mbuf).gIdx = idx ∧
      (uwbTransportCb l n mbuf).gMissedCount =
        n.gMissedCount + (idx - (n.gIdx + 1)).toBitVec.setWidth 32 ∧
      (uwbTransportCb l n mbuf).gOkCount = n.gOkCount + 1 := by
  have hsize := l.sizeofTest_bounds
  have hidx : l.copyTest n mbuf 1 = idx := (h.copyTest n 1 (by omega)).trans h.idx_eq
  rw [uwbTransportCb, if_neg (not_not.mpr (h.passes n)), hidx]
  by_cases hexp : idx = n.gIdx + 1
  · rw [if_neg (not_not.mpr hexp), hexp, UInt8.sub_self]
    exact ⟨rfl, (BitVec.add_zero _).symm, rfl⟩
  · rw [if_pos hexp, idxGap_eq]
    exact ⟨rfl, rfl, rfl⟩

/-- **A packet that fails the check** is not counted. -/
theorem uwbTransportCb_of_not_passes (h : ¬ l.Passes n mbuf) :
    (uwbTransportCb l n mbuf).gMissedCount = n.gMissedCount ∧
      (uwbTransportCb l n mbuf).gOkCount = n.gOkCount := by
  rw [uwbTransportCb, if_pos h]
  exact ⟨rfl, rfl⟩

end Reception

/-! ## What the sender sends -/

/-- Intact packets with the indices that follow `idx`. -/
def Consecutive (l : Lib) (idx : UInt8) : List (List UInt8) → Prop
  | [] => True
  | packet :: packets => Intact l packet (idx + 1) ∧ Consecutive l (idx + 1) packets

theorem add_one_add_ofNat (idx : UInt8) (n : ℕ) :
    idx + 1 + .ofNat n = idx + .ofNat (n + 1) := by
  rw [UInt8.ofNat_add, UInt8.add_comm (.ofNat n), ← UInt8.add_assoc]
  rfl

theorem consecutive_append {l : Lib} {idx : UInt8} {xs ys : List (List UInt8)} :
    Consecutive l idx (xs ++ ys) ↔
      Consecutive l idx xs ∧ Consecutive l (idx + .ofNat xs.length) ys := by
  induction xs generalizing idx with
  | nil => simp [Consecutive]
  | cons x xs ih =>
    rw [List.cons_append, Consecutive, Consecutive, ih, add_one_add_ofNat, List.length_cons,
      and_assoc]

theorem nextTest_zero (l : Lib) (test : Mem) :
    l.nextTest test 0 = l.testCrc (store test 1 [test 1 + 1]) :=
  store_of_mem _ (Nat.le_refl 0) (by simp)

theorem nextTest_of_pos (l : Lib) (test : Mem) {k : ℕ} (h : 0 < k) :
    l.nextTest test k = store test 1 [test 1 + 1] k :=
  store_of_ge _ h

theorem nextTest_one (l : Lib) (test : Mem) : l.nextTest test 1 = test 1 + 1 := by
  rw [nextTest_of_pos l test Nat.one_pos]
  exact store_of_mem _ (Nat.le_refl 1) (by simp)

/-- A packet just built is intact, and has the next index. -/
theorem intact_nextTest (l : Lib) (test : Mem) :
    Intact l (fetch (l.nextTest test) l.sizeofTest) (test 1 + 1) := by
  have hsize := l.sizeofTest_bounds
  have hload : ∀ k < l.sizeofTest,
      load (fetch (l.nextTest test) l.sizeofTest) k = l.nextTest test k :=
    fun k hk ↦ getD_fetch _ hk
  refine ⟨length_fetch _ _, ?_, ?_⟩
  · rw [hload 0 (by omega), testCrc_congr hload, nextTest_zero]
    -- the checksum does not cover the byte it is stored in
    refine congrArg (l.crc8Calc 0) (fetch_congr fun k _ ↦ ?_)
    exact (nextTest_of_pos l test (Nat.succ_pos k)).symm
  · rw [hload 1 (by omega), nextTest_one]

theorem consecutive_streamLoop (l : Lib) (passes : List (UInt16 × Bool)) (test : Mem) :
    Consecutive l (test 1) (streamLoop l passes test).2 ∧
      (streamLoop l passes test).1 1 = test 1 + .ofNat (streamLoop l passes test).2.length := by
  induction passes generalizing test with
  | nil => exact ⟨trivial, by simp [streamLoop]⟩
  | cons pass passes ih =>
    obtain ⟨destinationUid, mbuf⟩ := pass
    rw [streamLoop]
    split
    · exact ⟨trivial, by simp⟩
    · split
      · obtain ⟨hcons, hlast⟩ := ih (l.nextTest test)
        rw [nextTest_one] at hcons hlast
        refine ⟨⟨intact_nextTest l test, hcons⟩, ?_⟩
        simp only [hlast, List.length_cons, add_one_add_ofNat]
      · exact ⟨trivial, by simp⟩

/-- **The packets of a timer event** are intact and continue the sender's indices. -/
theorem consecutive_streamTimer (l : Lib) (passes : List (UInt16 × Bool)) (n : Node) :
    Consecutive l (n.test 1) (streamTimer l passes n).2 ∧
      (streamTimer l passes n).1.test 1 =
        n.test 1 + .ofNat (streamTimer l passes n).2.length :=
  consecutive_streamLoop l (passes.take 18) n.test

end UwbApps.Streaming
