import UwbApps.Backhaul.State

/-!
# Where the blocks are

Every block that is out of `g_mbuf_pool` belongs to a message that waits on `rxpkt_q` or is being
processed, or it is lost.  `owned_of_run` is that sum, for every run: `leak` lists the blocks a
step loses, and `rx_complete_cb` is the only one that loses any, when it has a chain and copying
or queueing fails.  `rtdoa_local_send` frees its chain in the same two places.

`conserved_iff` draws the conclusion: the queue accounts for every block, and the queue size is
zero when it is drained, exactly in the runs in which no frame's chain was lost.
-/

set_option autoImplicit false

open Octets Run

namespace UwbApps.Backhaul

open Os

variable {β : Type*} [DecidableEq β]

/-- The messages that are somewhere between a producer and the end of their processing. -/
def chains (s : State β) : List (Mbuf β) := s.om.toList ++ s.rxpktQ

/-- The blocks of those messages. -/
def inHand (s : State β) : Multiset β := ↑((chains s).flatMap Mbuf.blocks)

/-- The back-pressure test of `sensor_timer_ev_cb` in `rtdoa_tag`. -/
def backPressure (numBlocks : ℕ) (s : State β) : Bool := 2 < rtdoaBackhaulQueueSize numBlocks s

/-- Every block that is out belongs to a message, and a drained queue has size zero. -/
structure Conserved (numBlocks : ℕ) (s : State β) : Prop where
  owned : BlockPool.Owned s.held (inHand s)
  drained : chains s = [] →
    rtdoaBackhaulQueueSize numBlocks s = 0 ∧ backPressure numBlocks s = false

/-- The event is a frame that gets a chain it cannot be copied into or queued with. -/
def LosesChain (s : State β) : Event β → Prop
  | .rx inst env => Accepts s inst ∧ rxKey inst ≠ s.lastKey ∧ env.hdr.isSome ∧
      ¬ (env.copy.ok ∧ env.put)
  | _ => False

instance (s : State β) : (e : Event β) → Decidable (LosesChain s e)
  | .rx _ _ => inferInstanceAs (Decidable (_ ∧ _))
  | .tx _ | .localSend _ _ _ | .getMsg | .finishMsg | .setRole _ | .listen _ _ | .listenStep _ =>
    isFalse id

/-- The blocks the event loses. -/
def leak (s : State β) (e : Event β) : List β :=
  match e with
  | .rx _ env => if LosesChain s e then env.hdr.toList ++ env.copy.blocks else []
  | _ => []

/-! ## One step -/

omit [DecidableEq β] in
theorem SameStore.inHand_eq {s t : State β} (h : SameStore s t) : inHand t = inHand s := by
  simp only [inHand, chains, h.om, h.rxpktQ]

omit [DecidableEq β] in
/-- Queueing a message adds its blocks. -/
theorem inHand_queue (s : State β) (om : Mbuf β) (held : Finset β) :
    inHand { s with held, rxpktQ := s.rxpktQ ++ [om] } = ↑om.blocks + inHand s := by
  simp only [inHand, chains]
  rw [← List.append_assoc, List.flatMap_append, ← Multiset.coe_add, Multiset.add_comm]
  simp

/-- The blocks of a message in the making, out of the pool one after the other. -/
theorem owned_takes {held held₁ held₂ : Finset β} {b : β} {bs : List β} {owners : Multiset β}
    (h : BlockPool.Owned held owners) (htake : BlockPool.take held b = some held₁)
    (hmore : BlockPool.takeAll held₁ bs = some held₂) :
    BlockPool.Owned held₂ (↑(b :: bs) + owners) := by
  have hall := (h.take htake).takeAll hmore
  rwa [Multiset.add_cons, ← Multiset.cons_add, Multiset.cons_coe] at hall

omit [DecidableEq β] in
/-- A step that leaves the messages alone leaves the account alone. -/
theorem SameStore.owned {s t : State β} (h : SameStore s t) {lost : Multiset β}
    (hacc : BlockPool.Owned s.held (inHand s + lost)) :
    BlockPool.Owned t.held (inHand t + lost) := by
  rwa [h.held, h.inHand_eq]

/-- What `rx_complete_cb` does to the account. -/
theorem owned_rx {s t : State β} {inst : UwbDev} {env : MbufEnv β} {exit : RxExit}
    {lost : Multiset β} (h : BlockPool.Owned s.held (inHand s + lost))
    (hcase : RxCase s inst env t exit) :
    BlockPool.Owned t.held (inHand t + (lost + ↑(leak s (.rx inst env)))) := by
  have hrearm : SameStore s (rearm s inst) := sameStore_rearm s inst
  have hreleased := hrearm.trans (sameStore_releaseIfTaken _)
  -- noting the frame touches neither the blocks nor the messages
  have hnoted : ∀ held : Finset β, inHand { noted s inst with held } = inHand s :=
    fun _ ↦ hrearm.inHand_eq
  have hkeeps : ¬ LosesChain s (.rx inst env) → leak s (.rx inst env) = [] := fun hl ↦ if_neg hl
  have hloses : LosesChain s (.rx inst env) →
      leak s (.rx inst env) = env.hdr.toList ++ env.copy.blocks := fun hl ↦ if_pos hl
  cases hcase with
  | foreign hb =>
    rw [hkeeps fun hl ↦ hb hl.1.backhaul, Multiset.coe_nil, Multiset.add_zero]
    exact hrearm.owned h
  | notAddressed hb hacc =>
    rw [hkeeps fun hl ↦ hacc hl.1, Multiset.coe_nil, Multiset.add_zero]
    exact hreleased.owned h
  | tooShort hb hacc =>
    rw [hkeeps fun hl ↦ hacc hl.1, Multiset.coe_nil, Multiset.add_zero]
    exact hreleased.owned h
  | repeated hacc hkey =>
    rw [hkeeps fun hl ↦ hl.2.1 hkey, Multiset.coe_nil, Multiset.add_zero]
    exact hrearm.owned h
  | noMbuf hacc hkey hhdr =>
    rw [hkeeps fun hl ↦ by simp [LosesChain, hhdr] at hl, Multiset.coe_nil, Multiset.add_zero]
    have hrel := sameStore_releaseIfTaken (noted s inst)
    rw [hrel.held, hrel.inHand_eq, hnoted, show (noted s inst).held = s.held from hrearm.held]
    exact h
  | @copyFailed b held₁ held hacc hkey hhdr htake hmore hcopy =>
    rw [hloses ⟨hacc, hkey, by simp [hhdr], by simp [hcopy]⟩, hhdr, hnoted, ← Multiset.add_assoc,
      Multiset.add_comm]
    exact owned_takes h htake hmore
  | @putFailed b held₁ held hacc hkey hhdr htake hmore hcopy hput =>
    rw [hloses ⟨hacc, hkey, by simp [hhdr], by simp [hput]⟩, hhdr, hnoted, ← Multiset.add_assoc,
      Multiset.add_comm]
    exact owned_takes h htake hmore
  | @queued b held₁ held om hacc hkey hhdr htake hmore hcopy hput hblocks hdata =>
    have hrel := sameStore_releaseIfTaken { noted s inst with held, rxpktQ := s.rxpktQ ++ [om] }
    have hq : inHand { noted s inst with held, rxpktQ := s.rxpktQ ++ [om] } =
        ↑om.blocks + inHand s := by
      have := inHand_queue (noted s inst) om held
      rwa [hnoted, show (noted s inst).rxpktQ = s.rxpktQ from hrearm.rxpktQ] at this
    rw [hkeeps fun hl ↦ hl.2.2.2 ⟨hcopy, hput⟩, Multiset.coe_nil, Multiset.add_zero, hrel.held,
      hrel.inHand_eq, hq, hblocks, Multiset.add_assoc]
    exact owned_takes h htake hmore

/-- What `rtdoa_local_send` does to the account: nothing is lost on any path. -/
theorem owned_localSend {s t : State β} {buf : Mem} {dlen : ℕ} {env : MbufEnv β} {ok : Bool}
    {lost : Multiset β} (h : BlockPool.Owned s.held (inHand s + lost))
    (hsend : rtdoaLocalSend s buf dlen env = some (t, ok)) :
    BlockPool.Owned t.held (inHand t + lost) := by
  rcases rtdoaLocalSend_eq_some hsend with ⟨rfl, -⟩ | ⟨b, held₁, held, htake, hmore, hcase⟩
  · exact h
  · have hall := owned_takes h htake hmore
    rcases hcase with ⟨rfl, -⟩ | ⟨om, hblocks, -, rfl, -⟩
    · exact hall.free
    · rw [inHand_queue, hblocks, Multiset.add_assoc]
      exact hall

omit [DecidableEq β] in
/-- What `process_rx_data_queue` does to the account. -/
theorem owned_getMsg {s t : State β} {lost : Multiset β}
    (h : BlockPool.Owned s.held (inHand s + lost)) (hget : getMsg s = some t) :
    BlockPool.Owned t.held (inHand t + lost) := by
  obtain ⟨om, rest, hom, hq, rfl⟩ := getMsg_eq_some hget
  have hsame : inHand { s with rxpktQ := rest, om := some om } = inHand s := by
    simp [inHand, chains, hom, hq]
  rwa [hsame]

theorem owned_finishMsg {s t : State β} {lost : Multiset β}
    (h : BlockPool.Owned s.held (inHand s + lost)) (hfin : finishMsg s = some t) :
    BlockPool.Owned t.held (inHand t + lost) := by
  obtain ⟨om, hom, rfl⟩ := Option.map_eq_some_iff.mp hfin
  have hsplit : inHand s = ↑om.blocks + ↑(s.rxpktQ.flatMap Mbuf.blocks) := by
    simp [inHand, chains, hom]
  rw [hsplit, Multiset.add_assoc] at h
  exact h.free

/-- **One step of the account.**  Whatever an event takes out of the pool or puts back, what is in
hand and what was lost still add up to what is out. -/
theorem owned_step {s t : State β} {e : Event β} {lost : Multiset β}
    (h : BlockPool.Owned s.held (inHand s + lost)) (hstep : step s e = some t) :
    BlockPool.Owned t.held (inHand t + (lost + ↑(leak s e))) := by
  have hno : lost + ↑([] : List β) = lost := by rw [Multiset.coe_nil, Multiset.add_zero]
  cases e with
  | rx inst env =>
    obtain ⟨⟨t', exit⟩, hrx, rfl⟩ := Option.map_eq_some_iff.mp hstep
    exact owned_rx h (rxCase_of_eq hrx)
  | localSend buf dlen env =>
    obtain ⟨⟨t', ok⟩, hsend, rfl⟩ := Option.map_eq_some_iff.mp hstep
    exact hno.symm ▸ owned_localSend h hsend
  | getMsg => exact hno.symm ▸ owned_getMsg h hstep
  | finishMsg => exact hno.symm ▸ owned_finishMsg h hstep
  | tx fctrl =>
    cases hstep
    exact hno.symm ▸ (sameStore_txCompleteCb s fctrl).owned h
  | setRole role =>
    cases hstep
    exact hno.symm ▸ h
  | listen dxTime uus => exact hno.symm ▸ (sameStore_listenPend hstep).owned h
  | listenStep err => exact hno.symm ▸ (sameStore_listenStep hstep).owned h

/-! ## A run -/

/-- **The account of a run**: what is out of the pool is in hand or was lost on the way. -/
theorem owned_of_run {es : List (Event β)} {s : State β} (h : run step State.init es = some s) :
    BlockPool.Owned s.held (inHand s + ↑(gather step leak State.init es)) := by
  induction es using List.reverseRecOn generalizing s with
  | nil =>
    cases h
    exact BlockPool.owned_empty
  | append_singleton es e ih =>
    obtain ⟨s', hrun, hstep⟩ := run_snoc.mp h
    rw [gather_snoc hrun, ← Multiset.coe_add]
    exact owned_step (ih hrun) hstep

/-- Nothing is lost by a run exactly when no step of it loses a chain. -/
theorem gather_leak_eq_nil_iff {es : List (Event β)} {s₀ : State β} :
    gather step leak s₀ es = [] ↔ Each step (fun s e ↦ ¬ LosesChain s e) s₀ es := by
  have hnil : ∀ (s : State β) (e : Event β), leak s e = [] ↔ ¬ LosesChain s e := by
    intro s e
    cases e with
    | rx inst env =>
      simp only [leak]
      split
      · rename_i hl
        obtain ⟨b, hb⟩ := Option.isSome_iff_exists.mp hl.2.2.1
        simp [hl, hb]
      · simp_all
    | _ => simp [leak, LosesChain]
  induction es generalizing s₀ with
  | nil => simp [Each]
  | cons e es ih =>
    rw [gather, Each, List.append_eq_nil_iff, hnil]
    refine and_congr_right fun _ ↦ ?_
    cases step s₀ e with
    | none => simp
    | some s' => simp [ih]

/-- **The queue accounts for the pool.**  In a state reached by a run every block that is out
belongs to a message on the queue or in processing, and a drained queue has size zero, exactly
when the run has lost no chain. -/
theorem conserved_iff (numBlocks : ℕ) {es : List (Event β)} {s : State β}
    (h : run step State.init es = some s) :
    Conserved numBlocks s ↔ Each step (fun s e ↦ ¬ LosesChain s e) State.init es := by
  have hacc := owned_of_run h
  rw [← gather_leak_eq_nil_iff]
  constructor
  · intro hc
    have hsum := hacc.unique hc.owned
    have hnone := Multiset.add_right_inj.mp (hsum.trans (Multiset.add_zero _).symm)
    rwa [Multiset.coe_eq_zero] at hnone
  · intro hnil
    rw [hnil, Multiset.coe_nil, Multiset.add_zero] at hacc
    refine ⟨hacc, fun hdrained ↦ ?_⟩
    have hcard : s.held.card = 0 := by
      rw [hacc.card, inHand, hdrained]
      rfl
    have hsize : rtdoaBackhaulQueueSize numBlocks s = 0 := by
      simp [rtdoaBackhaulQueueSize, hcard]
    exact ⟨hsize, by simp [backPressure, hsize]⟩

theorem conserved_after_one_message :
    ∃ s : State ℕ, run step State.init [.setRole .bridge,
        .rx sampleFrame ⟨some 0, ⟨[1], true⟩, true⟩, .getMsg, .finishMsg] = some s ∧
      Conserved 8 s := by
  obtain ⟨s, hs⟩ := Option.isSome_iff_exists.mp (show (run step (State.init : State ℕ)
    [.setRole .bridge, .rx sampleFrame ⟨some 0, ⟨[1], true⟩, true⟩, .getMsg, .finishMsg]).isSome
    by decide)
  exact ⟨s, hs, (conserved_iff 8 hs).mpr (by decide)⟩

/-- Three blocks are gone for good once copying a frame fails at its third block: the queue is
empty and the tag still holds back. -/
theorem not_conserved_after_failed_copy :
    ∃ s : State ℕ, run step State.init [.setRole .bridge,
        .rx sampleFrame ⟨some 0, ⟨[1, 2], false⟩, true⟩] = some s ∧
      chains s = [] ∧ rtdoaBackhaulQueueSize 8 s = 3 ∧ backPressure 8 s = true ∧
      ¬ Conserved 8 s := by
  have hend : ((run step (State.init : State ℕ) [.setRole .bridge,
      .rx sampleFrame ⟨some 0, ⟨[1, 2], false⟩, true⟩]).map fun s ↦
        ((chains s).length, rtdoaBackhaulQueueSize 8 s)) = some (0, 3) := by
    decide
  obtain ⟨s, hs, hpair⟩ := Option.map_eq_some_iff.mp hend
  have hnil : chains s = [] := List.length_eq_zero_iff.mp (congrArg Prod.fst hpair)
  have hsize : rtdoaBackhaulQueueSize 8 s = 3 := congrArg Prod.snd hpair
  refine ⟨s, hs, hnil, hsize, by simp [backPressure, hsize], fun h ↦ ?_⟩
  have hdrained := (h.drained hnil).1
  rw [hsize] at hdrained
  exact absurd hdrained (by decide)

end UwbApps.Backhaul
