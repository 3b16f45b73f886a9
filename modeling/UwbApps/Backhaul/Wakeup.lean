import UwbApps.Backhaul.Semaphore

/-!
# Who wakes the listener

`rtdoa_backhaul_listen` starts a receive and then waits on `g_sem` without a timeout, so whatever
ends the receive must release the semaphore.  `Sys` puts the radio beside the module: whether the
receive the thread started is in progress, and the event that ended it while the MAC layer has not
handled it yet.  `gCbs` is the interface the MAC layer calls, with its null entries.

`wakesUp_iff` says in which runs the thread is never left behind, blocked with nothing under way
that could wake it.
-/

set_option autoImplicit false

open Octets Run

namespace UwbApps.Backhaul

open Os

variable {β : Type*} [DecidableEq β]

/-- The callbacks of `struct uwb_mac_interface` that concern a receive. -/
structure UwbMacInterface (β : Type*) where
  rxCompleteCb : Option (State β → UwbDev → MbufEnv β → Option (State β × RxExit))
  rxTimeoutCb : Option (State β → State β)
  rxErrorCb : Option (State β → State β)

/-- `g_cbs`. -/
def gCbs : UwbMacInterface β where
  rxCompleteCb := some rxCompleteCb
  rxTimeoutCb := none
  rxErrorCb := none

/-- What ends a receive. -/
inductive RadioEvent
  | frame (inst : UwbDev)
  | rxTimeout
  | rxError

/-- The module and the receive its thread started. -/
structure Sys (β : Type*) where
  st : State β
  rxOn : Bool
  /-- How the receive ended, until the MAC layer handles it. -/
  pending : Option RadioEvent

def Sys.init : Sys β := ⟨State.init, false, none⟩

/-- What can happen next: a step of the module, the end of the receive, or the MAC layer handling
it.  `resumed` is whether some other service restarts the receiver for a frame that
`rx_complete_cb` does not claim. -/
inductive SysEvent (β : Type*)
  | call (e : Event β)
  | receive (ev : RadioEvent)
  | dispatch (env : MbufEnv β) (resumed : Bool)

/-- The event is a frame that some other receive brings. -/
def Event.isRx : Event β → Bool
  | .rx _ _ => true
  | _ => false

/-- The thread's call of `uwb_start_rx` succeeds. -/
def startsRx (s : State β) : Event β → Bool
  | .listenStep err => s.listen = .timeoutSet ∧ err = false
  | _ => false

/-- The MAC layer handles the end of a receive: it calls the callback there is for it, and leaves
the receiver off unless the frame is nobody's. -/
def macDispatch (cbs : UwbMacInterface β) (s : State β) (env : MbufEnv β) (resumed : Bool) :
    RadioEvent → Option (State β × Bool)
  | .frame inst =>
    match cbs.rxCompleteCb with
    | none => some (s, resumed)
    | some cb => (cb s inst env).map fun (s, exit) ↦ (s, !exit.claims && resumed)
  | .rxTimeout => some (cbs.rxTimeoutCb.elim s fun cb ↦ cb s, false)
  | .rxError => some (cbs.rxErrorCb.elim s fun cb ↦ cb s, false)

def sysStep (s : Sys β) : SysEvent β → Option (Sys β)
  | .call e =>
    if e.isRx ∧ (s.rxOn ∨ s.pending.isSome) then none
    else (step s.st e).map fun st ↦ { s with st, rxOn := s.rxOn || startsRx s.st e }
  | .receive ev =>
    if s.rxOn ∧ s.pending.isNone then some { s with rxOn := false, pending := some ev } else none
  | .dispatch env resumed =>
    s.pending.bind fun ev ↦
      (macDispatch gCbs s.st env resumed ev).map fun (st, on) ↦
        { st, rxOn := s.rxOn || on, pending := none }

/-! ## What is asked of a run -/

/-- The thread waits for a token that nothing under way will bring. -/
def Blocked (s : Sys β) : Prop :=
  s.st.listen = .waiting ∧ s.st.gSem = 0 ∧ s.rxOn = false ∧ s.pending = none

/-- The event ends the receive for good: a timeout, an error, or a frame of this service. -/
def EndsReceive (s : Sys β) : SysEvent β → Prop
  | .dispatch _ _ =>
    match s.pending with
    | some (.frame inst) => IsBackhaul inst
    | some .rxTimeout | some .rxError => True
    | none => False
  | _ => False

/-- The thread is never left behind, and whatever ends its receive leaves one token. -/
structure WakesUp (es : List (SysEvent β)) : Prop where
  not_blocked : ∀ pre post t, es = pre ++ post → run sysStep Sys.init pre = some t → ¬ Blocked t
  one_token : ∀ pre e post s t, es = pre ++ e :: post → run sysStep Sys.init pre = some s →
    EndsReceive s e → sysStep s e = some t → t.st.gSem = 1

/-- The event is no end of a receive that leaves the thread without its token.  The receive of this
service's frame must find the token there, or find it taken and come to the release; a timeout or
an error must find it there; and a frame of nobody's must not be the last thing the thread can
hope for. -/
def Answered (s : Sys β) : SysEvent β → Prop
  | .dispatch env resumed =>
    match s.pending with
    | some (.frame inst) =>
      if IsBackhaul inst then s.st.gSem = 1 ∨ s.st.gSem = 0 ∧ ReachesRelease s.st inst env
      else s.st.listen = .waiting → s.st.gSem = 0 → s.rxOn ∨ resumed
    | some .rxTimeout | some .rxError => s.st.gSem = 1
    | none => True
  | _ => True

instance (s : Sys β) (e : SysEvent β) : Decidable (Answered s e) := by
  unfold Answered
  split
  · split
    · infer_instance
    · infer_instance
    · infer_instance
    · infer_instance
  · infer_instance

/-! ## One step -/

theorem macDispatch_frame {s t : State β} {env : MbufEnv β} {resumed on : Bool} {inst : UwbDev}
    (h : macDispatch gCbs s env resumed (.frame inst) = some (t, on)) :
    t.listen = s.listen ∧ on = (!decide (IsBackhaul inst) && resumed) ∧
      t.gSem = if ReachesRelease s inst env then max s.gSem 1 else s.gSem := by
  obtain ⟨⟨t', exit⟩, hrx, heq⟩ := Option.map_eq_some_iff.mp h
  have hcase := rxCase_of_eq hrx
  obtain ⟨rfl, rfl⟩ := Prod.ext_iff.mp heq
  refine ⟨hcase.listen_eq, ?_, hcase.gSem_eq⟩
  show (!exit.claims && resumed) = _
  rw [Bool.eq_iff_iff.mpr (hcase.claims_iff.trans decide_eq_true_iff.symm)]

/-- What handling the end of a receive comes to. -/
inductive DispatchCase (s : Sys β) (env : MbufEnv β) (resumed : Bool) (t : Sys β) : Prop
  | claimed (inst : UwbDev) (hp : s.pending = some (.frame inst)) (hb : IsBackhaul inst)
      (hsem : t.st.gSem = if ReachesRelease s.st inst env then max s.st.gSem 1 else s.st.gSem)
  | unclaimed (inst : UwbDev) (hp : s.pending = some (.frame inst)) (hb : ¬ IsBackhaul inst)
      (hsem : t.st.gSem = s.st.gSem) (hon : t.rxOn = (s.rxOn || resumed))
  | skipped (hp : s.pending = some .rxTimeout ∨ s.pending = some .rxError)
      (hsem : t.st.gSem = s.st.gSem)

theorem dispatchCase_of_step {s t : Sys β} {env : MbufEnv β} {resumed : Bool}
    (h : sysStep s (.dispatch env resumed) = some t) :
    t.st.listen = s.st.listen ∧ t.pending = none ∧ DispatchCase s env resumed t := by
  obtain ⟨ev, hp, h⟩ := Option.bind_eq_some_iff.mp h
  obtain ⟨⟨st, on⟩, hdisp, rfl⟩ := Option.map_eq_some_iff.mp h
  cases ev with
  | frame inst =>
    obtain ⟨hpc, hon, hsem⟩ := macDispatch_frame hdisp
    refine ⟨hpc, rfl, ?_⟩
    by_cases hb : IsBackhaul inst
    · exact .claimed inst hp hb hsem
    · rw [if_neg fun hr ↦ hb hr.1] at hsem
      exact .unclaimed inst hp hb hsem (by simp [hon, hb])
  | rxTimeout =>
    cases hdisp
    exact ⟨rfl, rfl, .skipped (Or.inl hp) rfl⟩
  | rxError =>
    cases hdisp
    exact ⟨rfl, rfl, .skipped (Or.inr hp) rfl⟩

/-- While the thread waits without a token, something is under way. -/
def UnderWay (s : Sys β) : Prop :=
  s.st.listen = .waiting → s.st.gSem = 0 → s.rxOn ∨ s.pending.isSome

omit [DecidableEq β] in
theorem UnderWay.not_blocked {s : Sys β} (h : UnderWay s) : ¬ Blocked s := by
  rintro ⟨hpc, hsem, hoff, hnone⟩
  simpa [hoff, hnone] using h hpc hsem

/-- A step of the module leaves something under way for a thread that waits. -/
theorem underWay_call {s t : Sys β} {e : Event β} (h : UnderWay s)
    (hstep : sysStep s (.call e) = some t) : UnderWay t := by
  rw [sysStep] at hstep
  split at hstep
  · cases hstep
  obtain ⟨st, hst, rfl⟩ := Option.map_eq_some_iff.mp hstep
  have hmore : s.rxOn ∨ s.pending.isSome → (s.rxOn || startsRx s.st e) ∨ s.pending.isSome := by
    intro hs
    exact hs.imp_left fun hon ↦ by simp [hon]
  intro hpc hsem
  have hcase := semCase_of_step hst
  simp only at hpc hsem
  rw [hpc, hsem] at hcase
  generalize hn : 0 = n, hl : Listen.waiting = pc at hcase
  cases hcase with
  | quiet => exact hmore (h hl.symm hn.symm)
  | release => omega
  | start hpc => exact Or.inl (by simp [startsRx, hpc])
  | giveUp => omega
  | _ => cases hl

/-- Handling the end of a receive leaves something under way too, if it is answered. -/
theorem underWay_dispatch {s t : Sys β} {env : MbufEnv β} {resumed : Bool}
    (ha : Answered s (.dispatch env resumed))
    (hstep : sysStep s (.dispatch env resumed) = some t) : UnderWay t := by
  obtain ⟨hpc, hnone, hcase⟩ := dispatchCase_of_step hstep
  intro hwait hzero
  cases hcase with
  | claimed inst hp hb hsem =>
    simp only [Answered, hp, if_pos hb] at ha
    rcases ha with hone | ⟨-, hrel⟩
    · split at hsem <;> omega
    · rw [if_pos hrel] at hsem
      omega
  | unclaimed inst hp hb hsem hon =>
    simp only [Answered, hp, if_neg hb] at ha
    left
    rw [hon, Bool.or_eq_true]
    exact ha (hpc ▸ hwait) (hsem ▸ hzero)
  | skipped hp hsem =>
    rcases hp with hp | hp <;>
    · simp only [Answered, hp] at ha
      omega

theorem underWay_step {s t : Sys β} {e : SysEvent β} (h : UnderWay s) (ha : Answered s e)
    (hstep : sysStep s e = some t) : UnderWay t := by
  cases e with
  | call e => exact underWay_call h hstep
  | receive ev =>
    rw [sysStep] at hstep
    split at hstep <;> cases hstep
    exact fun _ _ ↦ Or.inr rfl
  | dispatch env resumed => exact underWay_dispatch ha hstep

/-! ## A run -/

/-- An answered end of a receive leaves one token. -/
theorem gSem_of_answered {s t : Sys β} {e : SysEvent β} (hends : EndsReceive s e)
    (ha : Answered s e) (hstep : sysStep s e = some t) : t.st.gSem = 1 := by
  cases e with
  | call e => exact hends.elim
  | receive ev => exact hends.elim
  | dispatch env resumed =>
    obtain ⟨-, -, hcase⟩ := dispatchCase_of_step hstep
    cases hcase with
    | claimed inst hp hb hsem =>
      simp only [Answered, hp, if_pos hb] at ha
      rcases ha with hone | ⟨hzero, hrel⟩
      · split at hsem <;> omega
      · rw [if_pos hrel] at hsem
        omega
    | unclaimed inst hp hb =>
      simp only [EndsReceive, hp] at hends
      exact absurd hends hb
    | skipped hp hsem =>
      rcases hp with hp | hp <;>
      · simp only [Answered, hp] at ha
        exact hsem.trans ha

/-- An end of a receive that leaves one token, or at least something under way, is answered. -/
theorem answered_of_step {s t : Sys β} {e : SysEvent β} (hblocked : ¬ Blocked t)
    (htoken : EndsReceive s e → t.st.gSem = 1) (hstep : sysStep s e = some t) : Answered s e := by
  cases e with
  | call e => trivial
  | receive ev => trivial
  | dispatch env resumed =>
    obtain ⟨hpc, hnone, hcase⟩ := dispatchCase_of_step hstep
    cases hcase with
    | claimed inst hp hb hsem =>
      have hone := htoken (by simpa only [EndsReceive, hp] using hb)
      simp only [Answered, hp, if_pos hb]
      split at hsem
      · rename_i hrel
        by_cases hzero : s.st.gSem = 0
        · exact Or.inr ⟨hzero, hrel⟩
        · exact Or.inl (by omega)
      · exact Or.inl (by omega)
    | unclaimed inst hp hb hsem hon =>
      simp only [Answered, hp, if_neg hb]
      intro hwait hzero
      by_contra hoff
      refine hblocked ⟨hpc.trans hwait, hsem.trans hzero, ?_, hnone⟩
      rw [hon, Bool.eq_false_iff]
      intro hor
      exact hoff ((Bool.or_eq_true _ _).mp hor)
    | skipped hp hsem =>
      rcases hp with hp | hp <;>
      · have hone := htoken (by simp only [EndsReceive, hp])
        simp only [Answered, hp]
        omega

/-- **Who wakes the listener.**  In a run, the thread is never left behind and every end of its
receive leaves one token, exactly when every end of a receive is answered. -/
theorem wakesUp_iff {es : List (SysEvent β)} {s : Sys β}
    (h : run sysStep Sys.init es = some s) :
    WakesUp es ↔ Each sysStep Answered Sys.init es := by
  constructor
  · intro hw
    refine each_of_splits fun pre e post t hsplit hrun ↦ ?_
    obtain ⟨t₁, t₂, hrun₁, hstep, -⟩ := run_split (hsplit ▸ h)
    obtain rfl : t₁ = t := Option.some.inj (hrun₁.symm.trans hrun)
    have hnot : ¬ Blocked t₂ :=
      hw.not_blocked (pre ++ [e]) post t₂ (by rw [hsplit, List.append_assoc]; rfl)
        (run_snoc.mpr ⟨t₁, hrun₁, hstep⟩)
    exact answered_of_step hnot (fun hends ↦ hw.one_token pre e post t₁ t₂ hsplit hrun₁ hends hstep)
      hstep
  · intro hall
    refine ⟨fun pre post t hsplit hrun ↦ ?_, fun pre e post s t hsplit hrun hends hstep ↦ ?_⟩
    · have hpre := ((hsplit ▸ hall : Each sysStep Answered Sys.init (pre ++ post)).append hrun).1
      have hunder : UnderWay t := hpre.invariant (fun _ _ _ ↦ underWay_step)
        (fun hpc ↦ by simp [Sys.init, State.init] at hpc) hrun
      exact hunder.not_blocked
    · have ha : Answered s e :=
        (hsplit ▸ hall : Each sysStep Answered Sys.init (pre ++ e :: post)).at hrun
      exact gSem_of_answered hends ha hstep

/-- The calls that bring the thread to its second pend, with the receive started. -/
def listenCalls : List (SysEvent ℕ) :=
  [.call (.listen 0 100), .call (.listenStep false), .call (.listenStep false),
    .call (.listenStep false)]

/-- A frame for another node wakes the thread. -/
theorem wakesUp_one_frame :
    WakesUp (listenCalls ++ [.receive (.frame sampleFrame),
      .dispatch ⟨none, ⟨[], true⟩, true⟩ false, .call (.listenStep false)]) := by
  obtain ⟨s, hs⟩ := Option.isSome_iff_exists.mp (show (run sysStep Sys.init (listenCalls ++
    [.receive (.frame sampleFrame), .dispatch ⟨none, ⟨[], true⟩, true⟩ false,
      .call (.listenStep false)])).isSome by decide)
  exact (wakesUp_iff hs).mpr (by decide)

/-- After a receive timeout the thread waits for ever. -/
theorem blocked_after_rxTimeout :
    ∃ s, run sysStep Sys.init (listenCalls ++ [.receive .rxTimeout,
      .dispatch ⟨none, ⟨[], true⟩, true⟩ false]) = some s ∧ Blocked s := by
  refine ⟨_, rfl, rfl, rfl, rfl, rfl⟩

end UwbApps.Backhaul
