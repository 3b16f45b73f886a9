import UwbApps.Lib.Run
import UwbApps.Streaming.Transport

/-!
# The counts of lost packets

A sender, a receiver and the packets between them, in order.  A packet is received as it was sent,
arrives as something that fails the check, or is lost.

`counts_after_first` says that without corruption the receiver's two counters are right from any
first reception on.  `missed_le_of_tracks` bounds `g_missed_count` by what was really not received
when the receiver's index follows the sender's; `phantom_miss` is a loss counted at the very first
packet after start-up.
-/

set_option autoImplicit false

open Run Octets

namespace UwbApps.Streaming

open Os

/-- Two nodes and the packets that have been sent and have not had their turn. -/
structure Net where
  sender : Node
  receiver : Node
  air : List (List UInt8)

/-- What can happen next. -/
inductive Event
  /-- `stream_timer` runs. -/
  | timer (passes : List (UInt16 × Bool))
  /-- The next packet is lost. -/
  | lose
  /-- The next packet arrives as it was sent. -/
  | arrive
  /-- The next packet arrives as `data`, which fails the check. -/
  | garble (data : List UInt8)
deriving DecidableEq

/-- What the transport layer hands up. -/
def mbufOf (data : List UInt8) : Mbuf Empty := ⟨[], data⟩

def step (l : Lib) (s : Net) : Event → Option Net
  | .timer passes =>
    some
      { s with
        sender := (streamTimer l passes s.sender).1
        air := s.air ++ (streamTimer l passes s.sender).2 }
  | .lose =>
    match s.air with
    | [] => none
    | _ :: air => some { s with air }
  | .arrive =>
    match s.air with
    | [] => none
    | packet :: air =>
      some { s with receiver := uwbTransportCb l s.receiver (mbufOf packet), air }
  | .garble data =>
    match s.air with
    | [] => none
    | _ :: air =>
      if l.Passes s.receiver (mbufOf data) then none
      else some { s with receiver := uwbTransportCb l s.receiver (mbufOf data), air }

/-- Nothing has been sent yet. -/
def start (sender receiver : Node) : Net := ⟨sender, receiver, []⟩

/-- How many packets since the last one received intact were not, after one more event. -/
def pendingAfter (k : ℕ) : Event → ℕ
  | .timer _ => k
  | .arrive => 0
  | .lose | .garble _ => k + 1

/-- How many packets have not been received intact since the last one that was. -/
def pending (es : List Event) : ℕ := es.foldl pendingAfter 0

/-- The packet of the event is lost. -/
def isLose : Event → Bool
  | .lose => true
  | _ => false

/-- A packet is received intact. -/
def isArrive : Event → Bool
  | .arrive => true
  | _ => false

/-- A packet arrives as something else. -/
def isGarble : Event → Bool
  | .garble _ => true
  | _ => false

/-- A packet has had its turn and was not received intact. -/
def notIntact (e : Event) : Bool := isLose e || isGarble e

/-- Never 256 packets in a row that were not received intact. -/
def ShortRows (es : List Event) : Prop := ∀ pre ∈ es.inits, pending pre < 256

instance (es : List Event) : Decidable (ShortRows es) :=
  inferInstanceAs (Decidable (∀ pre ∈ es.inits, _))

/-- The index of the last packet that has had its turn. -/
def Net.turn (s : Net) : UInt8 := s.sender.test 1 - .ofNat s.air.length

/-- What is in the air is intact, in order, and ends at the sender's index. -/
def InOrder (l : Lib) (s : Net) : Prop := Consecutive l s.turn s.air

/-! ## The packets in the air -/

variable {l : Lib} {s t u : Net} {e : Event} {es : List Event}

/-- What a timer event sends goes behind what is in the air. -/
theorem InOrder.timer (h : InOrder l s) (passes : List (UInt16 × Bool))
    (hstep : step l s (.timer passes) = some t) :
    InOrder l t ∧ t.turn = s.turn ∧ t.receiver = s.receiver := by
  obtain ⟨hcons, hlast⟩ := consecutive_streamTimer l passes s.sender
  obtain rfl := Option.some.inj hstep
  have hend : s.turn + .ofNat s.air.length = s.sender.test 1 := UInt8.sub_add_cancel _ _
  have hturn : (streamTimer l passes s.sender).1.test 1 -
      .ofNat (s.air ++ (streamTimer l passes s.sender).2).length = s.turn := by
    rw [hlast, ← hend, List.length_append, UInt8.ofNat_add]
    grind
  refine ⟨?_, hturn, rfl⟩
  rw [InOrder, Net.turn, hturn, consecutive_append, hend]
  exact ⟨h, hcons⟩

/-- Taking the first packet out of the air leaves the others in order behind it. -/
theorem InOrder.take (h : InOrder l s) {packet : List UInt8} {air : List (List UInt8)}
    (hair : s.air = packet :: air) (receiver : Node) :
    Intact l packet (s.turn + 1) ∧ InOrder l { s with receiver, air } ∧
      Net.turn { s with receiver, air } = s.turn + 1 := by
  have hturn : Net.turn { s with receiver, air } = s.turn + 1 := by
    rw [Net.turn, Net.turn, hair, List.length_cons, UInt8.ofNat_add]
    grind
  rw [InOrder, hair] at h
  refine ⟨h.1, ?_, hturn⟩
  rw [InOrder, hturn]
  exact h.2

/-- A lost packet has had its turn. -/
theorem InOrder.lose (h : InOrder l s) (hstep : step l s .lose = some t) :
    InOrder l t ∧ t.turn = s.turn + 1 ∧ t.receiver = s.receiver := by
  rw [step] at hstep
  split at hstep <;> cases hstep
  next hair =>
    obtain ⟨-, horder, hturn⟩ := h.take hair s.receiver
    exact ⟨horder, hturn, rfl⟩

/-- A packet that arrives is counted with its gap. -/
theorem InOrder.arrive (h : InOrder l s) (hstep : step l s .arrive = some t) :
    InOrder l t ∧ t.turn = s.turn + 1 ∧ t.receiver.gIdx = t.turn ∧
      t.receiver.gMissedCount = s.receiver.gMissedCount +
        (s.turn - s.receiver.gIdx).toBitVec.setWidth 32 ∧
      t.receiver.gOkCount = s.receiver.gOkCount + 1 := by
  rw [step] at hstep
  split at hstep <;> cases hstep
  next packet air hair =>
    obtain ⟨hintact, horder, hturn⟩ :=
      h.take hair (uwbTransportCb l s.receiver (mbufOf packet))
    obtain ⟨hidx, hmissed, hok⟩ :=
      @uwbTransportCb_of_intact l s.receiver _ (mbufOf packet) _ hintact
    refine ⟨horder, hturn, hidx.trans hturn.symm, ?_, hok⟩
    rw [hmissed]
    congr 3
    grind

/-- A packet that arrives as something else is not counted. -/
theorem InOrder.garble (h : InOrder l s) {data : List UInt8}
    (hstep : step l s (.garble data) = some t) :
    InOrder l t ∧ t.turn = s.turn + 1 ∧
      t.receiver.gMissedCount = s.receiver.gMissedCount := by
  rw [step] at hstep
  split at hstep
  · cases hstep
  · next hair =>
    split at hstep <;> cases hstep
    next hfails =>
      obtain ⟨-, horder, hturn⟩ := h.take hair (uwbTransportCb l s.receiver (mbufOf data))
      exact ⟨horder, hturn, (uwbTransportCb_of_not_passes hfails).1⟩

theorem inOrder_start (sender receiver : Node) : InOrder l (start sender receiver) := trivial

theorem inOrder_step (h : InOrder l s) (hstep : step l s e = some t) : InOrder l t := by
  cases e with
  | timer passes => exact (h.timer passes hstep).1
  | lose => exact (h.lose hstep).1
  | arrive => exact (h.arrive hstep).1
  | garble data => exact (h.garble hstep).1

theorem inOrder_of_run {sender receiver : Node}
    (hrun : run (step l) (start sender receiver) es = some s) : InOrder l s :=
  run_invariant (fun _ _ _ ↦ inOrder_step) (inOrder_start sender receiver) hrun

theorem pending_snoc (es : List Event) (e : Event) :
    pending (es ++ [e]) = pendingAfter (pending es) e := by
  rw [pending, List.foldl_append, List.foldl_cons, List.foldl_nil, pending]

/-! ## Without corruption -/

/-- How the receiver's index and counters in `t`, after the events `es`, are related to the
packets sent and to the counters in `s`. -/
structure Synced (l : Lib) (s t : Net) (es : List Event) : Prop where
  inOrder : InOrder l t
  idx_eq : t.receiver.gIdx + .ofNat (pending es) = t.turn
  missed_eq : t.receiver.gMissedCount + .ofNat 32 (pending es) =
    s.receiver.gMissedCount + .ofNat 32 (es.countP isLose)
  ok_eq : t.receiver.gOkCount = s.receiver.gOkCount + .ofNat 32 (es.countP isArrive)

theorem setWidth_ofNat_of_lt {k : ℕ} (h : k < 256) :
    (UInt8.ofNat k).toBitVec.setWidth 32 = BitVec.ofNat 32 k := by
  apply BitVec.eq_of_toNat_eq
  have hk : (UInt8.ofNat k).toBitVec.toNat = k := UInt8.toNat_ofNat_of_lt' h
  rw [BitVec.toNat_setWidth, hk, BitVec.toNat_ofNat]

/-- **One step** of a row of fewer than 256 losses keeps the receiver in step. -/
theorem Synced.step (h : Synced l s t es) (hrow : pending es < 256) (he : isGarble e = false)
    (hstep : Streaming.step l t e = some u) : Synced l s u (es ++ [e]) := by
  cases e with
  | garble data => cases he
  | timer passes =>
    obtain ⟨horder, hturn, hrecv⟩ := h.inOrder.timer passes hstep
    refine ⟨horder, ?_, ?_, ?_⟩
    · rw [pending_snoc, hrecv, hturn]
      exact h.idx_eq
    · rw [pending_snoc, hrecv, List.countP_append]
      exact h.missed_eq
    · rw [hrecv, List.countP_append]
      exact h.ok_eq
  | lose =>
    obtain ⟨horder, hturn, hrecv⟩ := h.inOrder.lose hstep
    refine ⟨horder, ?_, ?_, ?_⟩
    · rw [pending_snoc, hrecv, hturn, pendingAfter, UInt8.ofNat_add, ← UInt8.add_assoc, h.idx_eq]
      rfl
    · rw [pending_snoc, hrecv, List.countP_append, pendingAfter, BitVec.ofNat_add,
        ← BitVec.add_assoc, h.missed_eq, BitVec.add_assoc, ← BitVec.ofNat_add]
      rfl
    · rw [hrecv, List.countP_append]
      exact h.ok_eq
  | arrive =>
    obtain ⟨horder, hturn, hidx, hmissed, hok⟩ := h.inOrder.arrive hstep
    have hgap : t.turn - t.receiver.gIdx = .ofNat (pending es) := by
      rw [← h.idx_eq]
      grind
    refine ⟨horder, ?_, ?_, ?_⟩
    · rw [pending_snoc, pendingAfter, hidx]
      exact UInt8.add_zero _
    · rw [pending_snoc, pendingAfter, hmissed, hgap, setWidth_ofNat_of_lt hrow, h.missed_eq,
        List.countP_append]
      exact BitVec.add_zero _
    · rw [hok, h.ok_eq, List.countP_append, BitVec.ofNat_add, ← BitVec.add_assoc]
      rfl

/-- A run in which nothing is corrupted keeps the receiver in step. -/
theorem synced_of_run (hs : InOrder l s) (hidx : s.receiver.gIdx = s.turn)
    (hintact : ∀ e ∈ es, isGarble e = false) (hrow : ShortRows es)
    (hrun : run (Streaming.step l) s es = some t) : Synced l s t es := by
  induction es using List.reverseRecOn generalizing t with
  | nil =>
    cases hrun
    exact ⟨hs, (UInt8.add_zero _).trans hidx, rfl, (BitVec.add_zero _).symm⟩
  | append_singleton es e ih =>
    obtain ⟨u, hu, he⟩ := run_snoc.mp hrun
    have hrow' : ShortRows es := fun pre hpre ↦
      hrow pre ((List.mem_inits _ _).mpr (((List.mem_inits _ _).mp hpre).trans
        (List.prefix_append _ _)))
    have hsynced := ih (fun e he ↦ hintact e (List.mem_append_left _ he)) hrow' hu
    exact hsynced.step (hrow es ((List.mem_inits _ _).mpr (List.prefix_append _ _)))
      (hintact e (by simp)) he

/-- **The counts are right.**  From any first reception on, if nothing is corrupted and never 256
packets in a row are lost, each later reception finds `g_missed_count` increased by the packets
lost and `g_ok_count` by those received since. -/
theorem counts_after_first {sender receiver : Node} {pre mid : List Event}
    (hfirst : run (Streaming.step l) (start sender receiver) (pre ++ [.arrive]) = some s)
    (hlater : run (Streaming.step l) s (mid ++ [.arrive]) = some t)
    (hintact : ∀ e ∈ mid, isGarble e = false) (hrow : ShortRows mid) :
    t.receiver.gMissedCount - s.receiver.gMissedCount =
        .ofNat 32 ((mid ++ [Event.arrive]).countP isLose) ∧
      t.receiver.gOkCount - s.receiver.gOkCount =
        .ofNat 32 ((mid ++ [Event.arrive]).countP isArrive) := by
  obtain ⟨u, hu, harrive⟩ := run_snoc.mp hfirst
  obtain ⟨horder, -, hidx, -⟩ := (inOrder_of_run hu).arrive harrive
  obtain ⟨v, hv, hlast⟩ := run_snoc.mp hlater
  have hsynced := (synced_of_run horder hidx hintact hrow hv).step
    (hrow mid ((List.mem_inits _ _).mpr (List.prefix_refl _))) rfl hlast
  have hmissed := hsynced.missed_eq
  rw [pending_snoc, pendingAfter] at hmissed
  refine ⟨?_, ?_⟩
  · rw [BitVec.sub_eq_iff_eq_add, BitVec.add_comm, ← hmissed]
    exact (BitVec.add_zero _).symm
  · rw [BitVec.sub_eq_iff_eq_add, BitVec.add_comm]
    exact hsynced.ok_eq

/-! ## With corruption -/

/-- When a packet arrives intact, the receiver's index is that of the last packet that was received
intact, or of a later one that has had its turn, lost or garbled; the sender's first value takes the
place of an index before the first packet. -/
def Tracks (l : Lib) (s : Net) (es : List Event) : Prop :=
  ∀ pre post t, es = pre ++ .arrive :: post → run (step l) s pre = some t →
    ∃ j ≤ pending pre, t.receiver.gIdx + .ofNat j = t.turn

/-- An arrival adds no more than the packets behind the receiver's index. -/
theorem toNat_setWidth_sub_le {turn idx : UInt8} {j : ℕ} (h : idx + .ofNat j = turn) :
    ((turn - idx).toBitVec.setWidth 32).toNat ≤ j := by
  have hgap : turn - idx = .ofNat j := by
    rw [← h]
    grind
  have hle : (UInt8.ofNat j).toBitVec.toNat ≤ j := Nat.mod_le j 256
  rw [hgap, BitVec.toNat_setWidth]
  exact (Nat.mod_le _ _).trans hle

theorem toNat_add_le (x y : BitVec 32) : (x + y).toNat ≤ x.toNat + y.toNat := by
  rw [BitVec.toNat_add]
  exact Nat.mod_le _ _

/-- What has been counted as missed, and what may be counted at the next arrival, was not received
intact. -/
def Bounded (t : Net) (es : List Event) : Prop :=
  t.receiver.gMissedCount.toNat + pending es ≤ es.countP notIntact

/-- **One step** keeps the bound, if an arrival finds the receiver's index behind the sender's. -/
theorem Bounded.step (h : Bounded t es) (horder : InOrder l t)
    (htracks : e = .arrive → ∃ j ≤ pending es, t.receiver.gIdx + .ofNat j = t.turn)
    (hstep : Streaming.step l t e = some u) : Bounded u (es ++ [e]) := by
  rw [Bounded] at h
  rw [Bounded, pending_snoc, List.countP_append]
  cases e with
  | timer passes =>
    obtain ⟨-, -, hrecv⟩ := horder.timer passes hstep
    rw [hrecv]
    exact h
  | lose =>
    obtain ⟨-, -, hrecv⟩ := horder.lose hstep
    rw [hrecv, pendingAfter]
    exact Nat.succ_le_succ h
  | garble data =>
    obtain ⟨-, -, hmissed⟩ := horder.garble hstep
    rw [hmissed, pendingAfter]
    exact Nat.succ_le_succ h
  | arrive =>
    obtain ⟨-, -, -, hmissed, -⟩ := horder.arrive hstep
    obtain ⟨j, hj, hidx⟩ := htracks rfl
    have hgap := toNat_setWidth_sub_le hidx
    have hadd := toNat_add_le t.receiver.gMissedCount
      ((t.turn - t.receiver.gIdx).toBitVec.setWidth 32)
    rw [hmissed, pendingAfter]
    simp only [List.countP_singleton, notIntact, isLose, isGarble]
    omega

theorem Tracks.of_append {fs : List Event} (h : Tracks l s (es ++ fs)) : Tracks l s es :=
  fun pre post t hsplit hpre ↦ h pre (post ++ fs) t (by rw [hsplit]; simp) hpre

/-- A run in which the receiver keeps track keeps the bound. -/
theorem bounded_of_run (htracks : Tracks l (start boot boot) es)
    (hrun : run (Streaming.step l) (start boot boot) es = some s) : Bounded s es := by
  induction es using List.reverseRecOn generalizing s with
  | nil =>
    cases hrun
    exact Nat.le_refl 0
  | append_singleton es e ih =>
    obtain ⟨u, hu, he⟩ := run_snoc.mp hrun
    refine (ih htracks.of_append hu).step (inOrder_of_run hu) ?_ he
    rintro rfl
    exact htracks es [] u rfl hu

/-- **No phantom misses.**  From start-up, after every run in which the receiver's index keeps
track of the sender's, `g_missed_count` is at most the number of packets that had their turn and
were not received intact. -/
theorem missed_le_of_tracks (htracks : Tracks l (start boot boot) es)
    (hrun : run (Streaming.step l) (start boot boot) es = some s) :
    s.receiver.gMissedCount.toNat ≤ es.countP notIntact :=
  (Nat.le_add_right _ _).trans (bounded_of_run htracks hrun)

/-! ## Two runs -/

/-- The checksum by bits. -/
def crc8 (crc : UInt8) (bytes : List UInt8) : UInt8 :=
  bytes.foldl (fun crc byte ↦ (List.range 8).foldl
    (fun crc _ ↦ if crc &&& 0x80 = 0 then crc <<< 1 else crc <<< 1 ^^^ 0x07) (crc ^^^ byte)) crc

/-- A header that leaves ten bytes. -/
def sampleLib : Lib := ⟨crc8, 500, by decide⟩

/-- A timer event that sends three packets. -/
def sendThree : Event := .timer [(1, true), (1, true), (1, true)]

theorem counts_after_one_loss :
    ∃ s t, run (Streaming.step sampleLib) (start boot boot) [sendThree, .arrive] = some s ∧
      run (Streaming.step sampleLib) s [.lose, .arrive] = some t ∧
      t.receiver.gMissedCount - s.receiver.gMissedCount = 1 := by
  refine ⟨_, _, rfl, rfl, ?_⟩
  exact (@counts_after_first sampleLib _ _ _ _ [sendThree] [.lose] rfl rfl (by decide)
    (by decide)).1

/-- The first packet arrives with its index intact and another byte wrong. -/
def garbled : List UInt8 := [0, 2, 0, 0, 0, 0, 0, 0, 0, 0]

/-- The packet fails the check, and leaves the receiver with the sender's index. -/
theorem tracks_garbled :
    Tracks sampleLib (start boot boot) [sendThree, .garble garbled, .arrive] := by
  intro pre post t hsplit hpre
  have hpre_eq : pre = [sendThree, .garble garbled] := by
    rcases pre with _ | ⟨e, _ | ⟨f, _ | ⟨g, pre⟩⟩⟩ <;> simp_all [sendThree]
  have hidx : (run (Streaming.step sampleLib) (start boot boot) [sendThree, .garble garbled]).map
      (fun t ↦ (t.receiver.gIdx, t.turn)) = some (2, 2) := by
    decide +kernel
  obtain ⟨t', ht', hpair⟩ := Option.map_eq_some_iff.mp hidx
  obtain rfl : t' = t := Option.some.inj (ht'.symm.trans (hpre_eq ▸ hpre))
  obtain ⟨hgIdx, hturn⟩ := Prod.mk.inj hpair
  exact ⟨0, Nat.zero_le _, by rw [hgIdx, hturn]; rfl⟩

theorem missed_le_after_garbled :
    ∃ s, run (Streaming.step sampleLib) (start boot boot) [sendThree, .garble garbled, .arrive]
        = some s ∧ s.receiver.gMissedCount.toNat ≤ 1 := by
  obtain ⟨s, hs⟩ := Option.isSome_iff_exists.mp (show (run (Streaming.step sampleLib)
    (start boot boot) [sendThree, .garble garbled, .arrive]).isSome by decide +kernel)
  exact ⟨s, hs, missed_le_of_tracks tracks_garbled hs⟩

/-- One packet is sent, and it is received. -/
def sendOne : List Event := [.timer [(1, true)], .arrive]

/-- Both ends start, the first packet is received, and one is counted as missed. -/
theorem phantom_miss :
    ∃ s, run (Streaming.step sampleLib) (start boot boot) sendOne = some s ∧ s.air = [] ∧
      s.receiver.gMissedCount = 1 ∧ sendOne.countP notIntact = 0 := by
  have hend : (run (Streaming.step sampleLib) (start boot boot) sendOne).map
      (fun s ↦ (s.air, s.receiver.gMissedCount)) = some ([], 1) := by
    decide +kernel
  obtain ⟨s, hs, hpair⟩ := Option.map_eq_some_iff.mp hend
  obtain ⟨hair, hmissed⟩ := Prod.mk.inj hpair
  exact ⟨s, hs, hair, hmissed, rfl⟩

end UwbApps.Streaming
