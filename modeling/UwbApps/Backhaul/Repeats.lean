import UwbApps.Backhaul.State
import UwbApps.Lib.OneSlotFilter

/-!
# Repeated frames

A backhaul frame is sent and relayed several times, and `rx_complete_cb` drops a frame whose source
address and sequence number are those of the frame before.  It notes the pair before it knows
whether the frame gets onto `rxpkt_q`.

`filter_of_run` says that this is `OneSlotFilter`: the accepted frames of a run are its arrivals,
and what is put on `rxpkt_q` is what it passes on.  From the filter come

* `repeated_iff` — when a dropped repeat always has its frame on the queue;
* `putKeys_count_le_one` — when a message is put on the queue at most once.
-/

set_option autoImplicit false

open Octets Run OneSlotFilter

namespace UwbApps.Backhaul

open Os

variable {β : Type*} [DecidableEq β]

/-- What repeats are told by: source address and sequence number. -/
abbrev Key := BitVec 16 × BitVec 8

/-- What `rx_complete_cb` remembers before it has seen a frame. -/
def initKey : Key := (0, 0)

/-- The frame will get onto the queue, unless it is a repeat. -/
def MbufEnv.delivers (env : MbufEnv β) : Bool := env.hdr.isSome && env.copy.ok && env.put

/-- The frame the event brings, if it passes the tests before the one for repeats. -/
def accepted (s : State β) : Event β → List (Arrival Key)
  | .rx inst env => if Accepts s inst then [⟨rxKey inst, env.delivers⟩] else []
  | _ => []

/-- The frame the event puts on `rxpkt_q`. -/
def putKeys (s : State β) : Event β → List Key
  | .rx inst env => if rxExit s (.rx inst env) = some .queued then [rxKey inst] else []
  | _ => []

/-! ## One frame -/

omit [DecidableEq β] in
theorem length_accepted (s : State β) (e : Event β) : (accepted s e).length ≤ 1 := by
  cases e with
  | rx inst env =>
    rw [accepted]
    split <;> simp
  | _ => exact Nat.zero_le 1

/-- An accepted frame leaves as the filter says: remembered, and dropped, lost or queued. -/
theorem rxCase_of_accepts {s t : State β} {inst : UwbDev} {env : MbufEnv β} {exit : RxExit}
    (hacc : Accepts s inst) (h : RxCase s inst env t exit) :
    t.lastKey = rxKey inst ∧ (exit = .repeated ↔ rxKey inst = s.lastKey) ∧
      (exit = .queued ↔ rxKey inst ≠ s.lastKey ∧ env.delivers) := by
  cases h with
  | foreign hb => exact absurd hacc.backhaul hb
  | notAddressed _ hno | tooShort _ hno => exact absurd hacc hno
  | repeated _ hkey =>
    exact ⟨(sameStore_rearm s inst).lastKey.trans hkey.symm, by simp [hkey], by simp [hkey]⟩
  | noMbuf _ hkey hhdr =>
    exact ⟨(sameStore_releaseIfTaken (noted s inst)).lastKey, by simp [hkey],
      by simp [MbufEnv.delivers, hhdr]⟩
  | copyFailed _ hkey _ _ _ hcopy =>
    exact ⟨rfl, by simp [hkey], by simp [MbufEnv.delivers, hcopy]⟩
  | putFailed _ hkey _ _ _ _ hput => exact ⟨rfl, by simp [hkey], by simp [MbufEnv.delivers, hput]⟩
  | queued _ hkey hhdr _ _ hcopy hput =>
    exact ⟨(sameStore_releaseIfTaken _).lastKey, by simp [hkey],
      by simp [MbufEnv.delivers, hkey, hhdr, hcopy, hput]⟩

/-- A frame that is not accepted is not remembered, and neither dropped as a repeat nor queued. -/
theorem rxCase_of_not_accepts {s t : State β} {inst : UwbDev} {env : MbufEnv β} {exit : RxExit}
    (hno : ¬ Accepts s inst) (h : RxCase s inst env t exit) :
    t.lastKey = s.lastKey ∧ exit ≠ .repeated ∧ exit ≠ .queued := by
  have hrearm := sameStore_rearm s inst
  cases h with
  | foreign => exact ⟨hrearm.lastKey, by simp, by simp⟩
  | notAddressed | tooShort =>
    exact ⟨(hrearm.trans (sameStore_releaseIfTaken _)).lastKey, by simp, by simp⟩
  | repeated hacc | noMbuf hacc | copyFailed hacc | putFailed hacc | queued hacc =>
    exact absurd hacc hno

/-- **One step is one step of the filter.** -/
theorem filter_step {s t : State β} {e : Event β} (h : step s e = some t) :
    t.lastKey = last s.lastKey (accepted s e) ∧
      putKeys s e = passed s.lastKey (accepted s e) := by
  cases e with
  | rx inst env =>
    obtain ⟨⟨t, exit⟩, hrx, rfl⟩ := Option.map_eq_some_iff.mp h
    have hcase := rxCase_of_eq hrx
    have hexit : rxExit s (.rx inst env) = some exit := by rw [rxExit, hrx, Option.map_some]
    rw [accepted, putKeys, hexit]
    by_cases hacc : Accepts s inst
    · obtain ⟨hlast, -, hqueued⟩ := rxCase_of_accepts hacc hcase
      rw [if_pos hacc]
      refine ⟨hlast, ?_⟩
      simp only [passed, Option.some.injEq, hqueued, List.append_nil]
    · obtain ⟨hlast, -, hqueued⟩ := rxCase_of_not_accepts hacc hcase
      rw [if_neg hacc, if_neg (by simpa using hqueued)]
      exact ⟨hlast, rfl⟩
  | tx fctrl =>
    cases h
    exact ⟨(sameStore_txCompleteCb s fctrl).lastKey, rfl⟩
  | localSend buf dlen env =>
    obtain ⟨⟨t, ok⟩, hsend, rfl⟩ := Option.map_eq_some_iff.mp h
    rcases rtdoaLocalSend_eq_some hsend with
      ⟨rfl, -⟩ | ⟨-, -, -, -, -, ⟨rfl, -⟩ | ⟨-, -, -, rfl, -⟩⟩ <;>
    exact ⟨rfl, rfl⟩
  | getMsg =>
    obtain ⟨om, rest, -, -, rfl⟩ := getMsg_eq_some h
    exact ⟨rfl, rfl⟩
  | finishMsg =>
    obtain ⟨om, -, rfl⟩ := Option.map_eq_some_iff.mp h
    exact ⟨rfl, rfl⟩
  | setRole role =>
    cases h
    exact ⟨rfl, rfl⟩
  | listen dxTime uus => exact ⟨(sameStore_listenPend h).lastKey, rfl⟩
  | listenStep err => exact ⟨(sameStore_listenStep h).lastKey, rfl⟩

/-! ## Runs -/

/-- **The callback is the filter.**  After a run the callback remembers what the filter remembers
of the accepted frames, and what it has put on the queue is what the filter has passed on. -/
theorem filter_of_run {es : List (Event β)} {s : State β} (h : run step State.init es = some s) :
    s.lastKey = last initKey (gather step accepted State.init es) ∧
      gather step putKeys State.init es = passed initKey (gather step accepted State.init es) := by
  induction es using List.reverseRecOn generalizing s with
  | nil =>
    cases h
    exact ⟨rfl, rfl⟩
  | append_singleton es e ih =>
    obtain ⟨s', hrun, hstep⟩ := run_snoc.mp h
    obtain ⟨hlast, hput⟩ := ih hrun
    obtain ⟨hlast', hput'⟩ := filter_step hstep
    rw [gather_snoc hrun, gather_snoc hrun, last_append, passed_append, ← hlast, hput, hput']
    exact ⟨hlast', rfl⟩

/-- Every frame dropped as a repeat was put on the queue before. -/
def RepeatsWerePut (es : List (Event β)) : Prop :=
  ∀ pre inst env post t, es = pre ++ .rx inst env :: post → run step State.init pre = some t →
    rxExit t (.rx inst env) = some .repeated → rxKey inst ∈ gather step putKeys State.init pre

/-- **What a dropped repeat means.**  In a run, every frame dropped as a repeat has its message on
the queue from before, exactly when the accepted frames are `Sound`: the first one does not carry
the pair of zeros, and none that gets lost, and was not put before, is repeated right away. -/
theorem repeated_iff {es : List (Event β)} {s : State β} (h : run step State.init es = some s) :
    RepeatsWerePut es ↔ Sound initKey (gather step accepted State.init es) := by
  rw [← sound_iff]
  constructor
  · intro hput as a bs hsplit hdrop
    obtain ⟨pre, e, post, t, rfl, hrun, rfl, he⟩ := gather_split length_accepted hsplit
    obtain ⟨hlast, hpast⟩ := filter_of_run hrun
    cases e with
    | rx inst env =>
      rw [accepted] at he
      split at he
      · rename_i hacc
        obtain rfl := List.singleton_inj.mp he
        rw [← hpast]
        obtain ⟨t₁, t₂, hrun₁, hstep, -⟩ := run_split h
        obtain rfl : t₁ = t := Option.some.inj (hrun₁.symm.trans hrun)
        obtain ⟨⟨t₂, exit⟩, hrx, rfl⟩ := Option.map_eq_some_iff.mp hstep
        refine hput pre inst env post t₁ rfl hrun ?_
        rw [rxExit, hrx, Option.map_some]
        exact congrArg some ((rxCase_of_accepts hacc (rxCase_of_eq hrx)).2.1.mpr
          (hdrop.trans hlast.symm))
      · cases he
    | _ => cases he
  · intro hpassed pre inst env post t hsplit hrun hexit
    obtain ⟨⟨t', exit⟩, hrx, rfl⟩ := Option.map_eq_some_iff.mp hexit
    have hcase := rxCase_of_eq hrx
    have hacc : Accepts t inst := by
      by_contra hno
      exact (rxCase_of_not_accepts hno hcase).2.1 rfl
    obtain ⟨hlast, hpast⟩ := filter_of_run hrun
    rw [hpast]
    refine hpassed _ ⟨rxKey inst, env.delivers⟩ ((step t (.rx inst env)).elim [] fun t' ↦
      gather step accepted t' post) ?_ ?_
    · rw [hsplit, gather_append hrun, gather, accepted, if_pos hacc]
      rfl
    · exact ((rxCase_of_accepts hacc hcase).2.1.mp rfl).trans hlast

/-- A frame, delivered in the block `b`. -/
def deliver (inst : UwbDev) (b : ℕ) : Event ℕ := .rx inst ⟨some b, ⟨[], true⟩, true⟩

theorem repeatsWerePut_frame_and_repeat :
    RepeatsWerePut [.setRole .bridge, deliver sampleFrame 0, deliver sampleFrame 1] := by
  obtain ⟨s, hs⟩ := Option.isSome_iff_exists.mp (show (run step State.init
    [.setRole .bridge, deliver sampleFrame 0, deliver sampleFrame 1]).isSome by decide)
  exact (repeated_iff hs).mpr (Sound.of_ok (by decide) (by decide))

/-- A frame lost for want of a block is dropped as a repeat when it comes again. -/
theorem not_repeatsWerePut_lost_frame :
    ¬ RepeatsWerePut (β := ℕ) [.setRole .bridge, .rx sampleFrame ⟨none, ⟨[], true⟩, true⟩,
      deliver sampleFrame 0] := by
  intro h
  have hend : (run (step (β := ℕ)) State.init [.setRole .bridge,
      .rx sampleFrame ⟨none, ⟨[], true⟩, true⟩]).map (rxExit · (deliver sampleFrame 0)) =
        some (some .repeated) := by
    decide
  obtain ⟨t, hrun, hexit⟩ := Option.map_eq_some_iff.mp hend
  have hmem := h _ sampleFrame _ [] t rfl hrun hexit
  revert hmem
  decide

/-- **At most once.**  A message is put on the queue at most once in a run, if no other frame is
accepted between a delivery of it and a repeat. -/
theorem putKeys_count_le_one {es : List (Event β)} {s : State β}
    (h : run step State.init es = some s) {k : Key}
    (hk : Undisturbed initKey k (gather step accepted State.init es)) :
    (gather step putKeys State.init es).count k ≤ 1 := by
  rw [(filter_of_run h).2]
  exact count_passed_le_one hk

theorem putKeys_count_frame_and_repeat :
    (gather step putKeys State.init
      [.setRole .bridge, deliver sampleFrame 0, deliver sampleFrame 1]).count (0x0102, 1) ≤ 1 := by
  obtain ⟨s, hs⟩ := Option.isSome_iff_exists.mp (show (run step State.init
    [.setRole .bridge, deliver sampleFrame 0, deliver sampleFrame 1]).isSome by decide)
  exact putKeys_count_le_one hs (Undisturbed.of_forall (by decide))

/-- The frame of `sampleFrame`, from the node `0x0103`. -/
def otherFrame : UwbDev :=
  { sampleFrame with
    rxbuf := load [0xC1, 0x88, 0x01, 0xCA, 0xDE, 0xff, 0xff, 0x03, 0x01, 0x03, 0x60] }

/-- A repeat that comes after another node's frame is put on the queue again. -/
theorem putKeys_count_eq_two_after_other_frame :
    ∃ s : State ℕ, run step State.init [.setRole .bridge, deliver sampleFrame 0,
        deliver otherFrame 1, deliver sampleFrame 2] = some s ∧
      (gather step putKeys State.init [.setRole .bridge, deliver sampleFrame 0,
        deliver otherFrame 1, deliver sampleFrame 2]).count (0x0102, 1) = 2 := by
  obtain ⟨s, hs⟩ := Option.isSome_iff_exists.mp (show (run step State.init [.setRole .bridge,
    deliver sampleFrame 0, deliver otherFrame 1, deliver sampleFrame 2]).isSome by decide)
  exact ⟨s, hs, by decide⟩

end UwbApps.Backhaul
