import UwbApps.Backhaul.State

/-!
# The receive window

`rtdoa_backhaul_listen` opens a window of `timeout_uus` units of `2 ^ 16` ticks at `dx_time` and
notes its end.  Every frame that arrives in it restarts the receiver's timeout, so
`rx_complete_cb` sets the timeout again, to what is left of the window in whole units.

The end is a 64-bit number and the timestamp of a frame one of 40 bits, which may have wrapped
since `dx_time`; the truncation to 16 bits removes the difference (`toNat_rearmed`).  What it
does not remove is that less than one unit may be left: then the timeout is set to zero, which
turns it off.  `staysInWindow_iff` says when that is.
-/

set_option autoImplicit false

open Octets Run

namespace UwbApps.Backhaul

open Os

variable {β : Type*} [DecidableEq β]

/-- `g_to_dx_time` during a listen. -/
def windowEnd (dxTime : BitVec 64) (timeoutUus : BitVec 16) : BitVec 64 :=
  dxTime + (timeoutUus.setWidth 64 <<< 16)

/-- The timeout `rx_complete_cb` computes from the end of the window. -/
def rearmed (gToDxTime rxtimestamp : BitVec 64) : BitVec 16 :=
  ((gToDxTime - rxtimestamp) >>> 16).setWidth 16

/-! ## The arithmetic -/

theorem toNat_windowEnd {dxTime : BitVec 64} (hdx : dxTime.toNat < 2 ^ 40) (uus : BitVec 16) :
    (windowEnd dxTime uus).toNat = dxTime.toNat + uus.toNat * 2 ^ 16 := by
  have hshift : (uus.setWidth 64 <<< 16).toNat = uus.toNat * 2 ^ 16 := by
    rw [BitVec.toNat_shiftLeft, BitVec.toNat_setWidth, Nat.shiftLeft_eq]
    omega
  rw [windowEnd, BitVec.toNat_add, hshift]
  omega

/-- What is left of the window, in whole units, whether the clock has wrapped or not. -/
theorem toNat_rearmed {dxTime rxtimestamp : BitVec 64} {uus : BitVec 16} {d : ℕ}
    (hdx : dxTime.toNat < 2 ^ 40) (hd : d < uus.toNat * 2 ^ 16)
    (hrx : rxtimestamp.toNat = (dxTime.toNat + d) % 2 ^ 40) :
    (rearmed (windowEnd dxTime uus) rxtimestamp).toNat = (uus.toNat * 2 ^ 16 - d) / 2 ^ 16 := by
  have hend := toNat_windowEnd hdx uus
  have hleft : (windowEnd dxTime uus - rxtimestamp).toNat =
      if dxTime.toNat + d < 2 ^ 40 then uus.toNat * 2 ^ 16 - d
      else 2 ^ 40 + (uus.toNat * 2 ^ 16 - d) := by
    rw [BitVec.toNat_sub, hend, hrx]
    split <;> omega
  rw [rearmed, BitVec.toNat_setWidth, BitVec.toNat_ushiftRight, Nat.shiftRight_eq_div_pow, hleft]
  split <;> omega

/-- The new window ends within one unit of the old end, and it ends at all. -/
def StaysInWindow (uus : BitVec 16) (d : ℕ) (t : BitVec 16) : Prop :=
  t ≠ 0 ∧ |(d : ℤ) + t.toNat * 2 ^ 16 - uus.toNat * 2 ^ 16| < 2 ^ 16

theorem staysInWindow_rearmed_iff {dxTime rxtimestamp : BitVec 64} {uus : BitVec 16} {d : ℕ}
    (hdx : dxTime.toNat < 2 ^ 40) (hd : d < uus.toNat * 2 ^ 16)
    (hrx : rxtimestamp.toNat = (dxTime.toNat + d) % 2 ^ 40) :
    StaysInWindow uus d (rearmed (windowEnd dxTime uus) rxtimestamp) ↔
      d ≤ (uus.toNat - 1) * 2 ^ 16 := by
  have ht := toNat_rearmed hdx hd hrx
  have hzero : rearmed (windowEnd dxTime uus) rxtimestamp ≠ 0 ↔
      (uus.toNat * 2 ^ 16 - d) / 2 ^ 16 ≠ 0 := by
    rw [← ht, ne_eq, ne_eq, ← BitVec.toNat_inj]
    rfl
  rw [StaysInWindow, hzero, ht, abs_lt]
  omega

/-! ## The window stays open -/

omit [DecidableEq β] in
theorem releaseIfTaken_gToDxTime (s : State β) :
    (releaseIfTaken s).gToDxTime = s.gToDxTime := by
  rw [releaseIfTaken]
  split <;> rfl

omit [DecidableEq β] in
theorem releaseIfTaken_rxTimeout (s : State β) :
    (releaseIfTaken s).rxTimeout = s.rxTimeout := by
  rw [releaseIfTaken]
  split <;> rfl

omit [DecidableEq β] in
theorem rearm_gToDxTime (s : State β) (inst : UwbDev) :
    (rearm s inst).gToDxTime = s.gToDxTime := by
  rw [rearm_eq]

/-- `rx_complete_cb` sets the timeout before anything else, and does not touch it afterwards. -/
theorem RxCase.rxTimeout_eq {s t : State β} {inst : UwbDev} {env : MbufEnv β} {exit : RxExit}
    (h : RxCase s inst env t exit) : t.rxTimeout = (rearm s inst).rxTimeout := by
  cases h with
  | foreign | repeated | copyFailed | putFailed => rfl
  | notAddressed | tooShort | noMbuf | queued => exact releaseIfTaken_rxTimeout _

/-- `rx_complete_cb` leaves the end of the window alone. -/
theorem RxCase.gToDxTime_eq {s t : State β} {inst : UwbDev} {env : MbufEnv β} {exit : RxExit}
    (h : RxCase s inst env t exit) : t.gToDxTime = s.gToDxTime := by
  cases h with
  | foreign | repeated | copyFailed | putFailed => exact rearm_gToDxTime s inst
  | notAddressed | tooShort | noMbuf | queued =>
    rw [releaseIfTaken_gToDxTime]
    exact rearm_gToDxTime s inst

omit [DecidableEq β] in
theorem txCompleteCb_gToDxTime (s : State β) (fctrl : BitVec 16) :
    (txCompleteCb s fctrl).1.gToDxTime = s.gToDxTime := by
  rw [txCompleteCb]
  split
  · rfl
  · split
    · rfl
    · exact releaseIfTaken_gToDxTime s

omit [DecidableEq β] in
theorem txCompleteCb_listen (s : State β) (fctrl : BitVec 16) :
    (txCompleteCb s fctrl).1.listen = s.listen := by
  rw [txCompleteCb]
  split
  · rfl
  · split
    · rfl
    · exact releaseIfTaken_listen s

/-- The thread is in `rtdoa_backhaul_listen`, past the point where it notes the end `stop`. -/
structure Listening (stop : BitVec 64) (s : State β) : Prop where
  gToDxTime : s.gToDxTime = stop
  listen : s.listen ≠ .idle ∧ ∀ dxTime uus, s.listen ≠ .pended dxTime uus

/-- The step does not bring the thread back from `rtdoa_backhaul_listen`. -/
def StaysListening (s : State β) : Event β → Prop
  | .listenStep _ => s.listen ≠ .released
  | _ => True

omit [DecidableEq β] in
theorem Listening.congr {stop : BitVec 64} {s t : State β} (h : Listening stop s)
    (hend : t.gToDxTime = s.gToDxTime) (hlisten : t.listen = s.listen) : Listening stop t :=
  ⟨hend.trans h.gToDxTime, by rw [hlisten]; exact h.listen⟩

omit [DecidableEq β] in
theorem listening_listenStep {stop : BitVec 64} {s t : State β} {err : Bool} (h : Listening stop s)
    (hstay : s.listen ≠ .released) (ht : listenStep s err = some t) : Listening stop t := by
  rw [listenStep] at ht
  split at ht
  case h_1 hpc => exact absurd hpc h.listen.1
  case h_2 hpc => exact absurd hpc (h.listen.2 _ _)
  case h_8 hpc => exact absurd hpc hstay
  case h_4 =>
    cases ht
    cases err <;> exact ⟨h.gToDxTime, by simp, by simp⟩
  case h_6 =>
    split at ht <;> cases ht
    exact ⟨h.gToDxTime, by simp, by simp⟩
  all_goals
    cases ht
    exact ⟨h.gToDxTime, by simp, by simp⟩

theorem listening_step {stop : BitVec 64} {s t : State β} {e : Event β} (h : Listening stop s)
    (hstay : StaysListening s e) (ht : step s e = some t) : Listening stop t := by
  cases e with
  | rx inst env =>
    obtain ⟨⟨t', exit⟩, hrx, rfl⟩ := Option.map_eq_some_iff.mp ht
    have hcase := rxCase_of_eq hrx
    exact h.congr hcase.gToDxTime_eq hcase.listen_eq
  | tx fctrl =>
    cases ht
    exact h.congr (txCompleteCb_gToDxTime s fctrl) (txCompleteCb_listen s fctrl)
  | localSend buf dlen env =>
    obtain ⟨⟨t', ok⟩, hsend, rfl⟩ := Option.map_eq_some_iff.mp ht
    rcases rtdoaLocalSend_eq_some hsend with
      ⟨rfl, -⟩ | ⟨_, _, _, -, -, ⟨rfl, -⟩ | ⟨_, -, -, rfl, -⟩⟩
    · exact h
    · exact h.congr rfl rfl
    · exact h.congr rfl rfl
  | getMsg =>
    obtain ⟨om, rest, -, -, rfl⟩ := getMsg_eq_some ht
    exact h.congr rfl rfl
  | finishMsg =>
    obtain ⟨om, -, rfl⟩ := Option.map_eq_some_iff.mp ht
    exact h.congr rfl rfl
  | setRole role =>
    cases ht
    exact h.congr rfl rfl
  | listen dxTime uus =>
    rw [step, listenPend, if_neg fun hidle ↦ h.listen.1 hidle.1] at ht
    cases ht
  | listenStep err => exact listening_listenStep h hstay ht

/-! ## A frame in the window -/

/-- **When the window is kept.**  A thread calls `rtdoa_backhaul_listen`, and while it is in there
a frame arrives `d` ticks into the window.  The timeout `rx_complete_cb` sets is not zero and
moves the end of the window by less than a unit exactly when the frame is at least a unit in
front of the end. -/
theorem staysInWindow_iff {s s₁ s₂ t : State β} {dxTime : BitVec 64} {uus : BitVec 16}
    {err : Bool} {es : List (Event β)} {inst : UwbDev} {env : MbufEnv β} {exit : RxExit} {d : ℕ}
    (hpended : s.listen = .pended dxTime uus) (hset : step s (.listenStep err) = some s₁)
    (hrun : run step s₁ es = some s₂) (hstays : Each step StaysListening s₁ es)
    (hframe : rxCompleteCb s₂ inst env = some (t, exit)) (hdx : dxTime.toNat < 2 ^ 40)
    (hd : d < uus.toNat * 2 ^ 16)
    (hrx : inst.rxtimestamp.toNat = (dxTime.toNat + d) % 2 ^ 40) :
    StaysInWindow uus d t.rxTimeout ↔ d ≤ (uus.toNat - 1) * 2 ^ 16 := by
  have hstart : Listening (windowEnd dxTime uus) s₁ := by
    rw [step, listenStep, hpended] at hset
    cases hset
    exact ⟨rfl, by simp, by simp⟩
  have hlistening : Listening (windowEnd dxTime uus) s₂ :=
    hstays.invariant (fun _ _ _ h hstay ht ↦ listening_step h hstay ht) hstart hrun
  have hopen : s₂.gToDxTime ≠ 0 := by
    have hend := toNat_windowEnd hdx uus
    rw [hlistening.gToDxTime, ne_eq, ← BitVec.toNat_inj, hend]
    show ¬ _ = 0
    omega
  have ht : t.rxTimeout = rearmed (windowEnd dxTime uus) inst.rxtimestamp := by
    rw [(rxCase_of_eq hframe).rxTimeout_eq, rearm, if_pos hopen, hlistening.gToDxTime]
    rfl
  rw [ht]
  exact staysInWindow_rearmed_iff hdx hd hrx

/-- A frame of another service, stamped `rxtimestamp`. -/
def strayFrame (rxtimestamp : BitVec 64) : UwbDev :=
  { sampleFrame with fctrl := 0, rxtimestamp }

/-- A listen of `uus` units from `dxTime`, up to the wait. -/
def listenRun (dxTime : BitVec 64) (uus : BitVec 16) : List (Event ℕ) :=
  [.listen dxTime uus, .listenStep false, .listenStep false, .listenStep false]

/-- The copy of a frame that is not copied. -/
def noCopy : MbufEnv ℕ := ⟨none, ⟨[], true⟩, true⟩

/-- The module while its thread listens. -/
def listenState (stop : BitVec 64) (uus : BitVec 16) (pc : Listen) : State ℕ :=
  { State.init with gSem := 0, gToDxTime := stop, rxTimeout := uus, listen := pc }

theorem staysInWindow_wrapped :
    ∃ s t, run step State.init (listenRun 0xffffffffff 5) = some s ∧
      rxCompleteCb s (strayFrame 0xffff) noCopy = some (t, .foreign) ∧
      StaysInWindow 5 0x10000 t.rxTimeout := by
  have hset : step (listenState 0 0 (.pended 0xffffffffff 5)) (.listenStep false) =
      some (listenState (windowEnd 0xffffffffff 5) 0 (.delaySet 5)) := rfl
  have hrun : run step (listenState (windowEnd 0xffffffffff 5) 0 (.delaySet 5))
      [.listenStep false, .listenStep false] =
        some (listenState (windowEnd 0xffffffffff 5) 5 .waiting) := rfl
  have hstays : Each step StaysListening (listenState (windowEnd 0xffffffffff 5) 0 (.delaySet 5))
      [.listenStep false, .listenStep false] := by
    refine ⟨by simp [StaysListening, listenState], ?_⟩
    rintro _ ⟨⟩
    exact ⟨by simp [StaysListening], fun _ _ ↦ trivial⟩
  have hframe : rxCompleteCb (listenState (windowEnd 0xffffffffff 5) 5 .waiting)
      (strayFrame 0xffff) noCopy =
        some (listenState (windowEnd 0xffffffffff 5) 4 .waiting, .foreign) := rfl
  refine ⟨_, _, rfl, hframe, (staysInWindow_iff (d := 0x10000) rfl hset hrun hstays hframe
    ?_ ?_ ?_).mpr ?_⟩
  all_goals decide

/-- A frame in the last unit of the window turns the timeout off. -/
theorem not_staysInWindow_last_unit :
    ∃ s t, run step State.init (listenRun 0 1) = some s ∧
      rxCompleteCb s (strayFrame 1) noCopy = some (t, .foreign) ∧
      ¬ StaysInWindow 1 1 t.rxTimeout := by
  refine ⟨_, _, rfl, rfl, fun h ↦ h.1 ?_⟩
  decide

end UwbApps.Backhaul
