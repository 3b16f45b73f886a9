import UwbApps.Backhaul.State

/-!
# The count of `g_sem`

The callbacks release `g_sem` only when its count is zero; `rtdoa_backhaul_listen` releases it
without looking, after a start error and when it is done.  `SemCase` says what a step does to the
count and to the thread, and `mark` keeps the part of the history that matters: where the thread
took the token, and where a callback came to its release.

`tokensSound_iff` says when the semaphore stays binary, and each pend takes a token of its own:
exactly in the runs in which no unguarded release finds that a callback has come to its release
since the thread last pended.
-/

set_option autoImplicit false

open Octets Run

namespace UwbApps.Backhaul

open Os

variable {β : Type*} [DecidableEq β]

/-- The event is a callback that comes to its guarded release. -/
def Releases (s : State β) : Event β → Prop
  | .rx inst env => ReachesRelease s inst env
  | .tx fctrl => fctrl = FCNTL_IEEE_RTDOABH ∧ s.gToDxTime = 0
  | _ => False

instance (s : State β) : (e : Event β) → Decidable (Releases s e)
  | .rx inst env => inferInstanceAs (Decidable (ReachesRelease s inst env))
  | .tx _ => inferInstanceAs (Decidable (_ ∧ _))
  | .localSend _ _ _ | .getMsg | .finishMsg | .setRole _ | .listen _ _ | .listenStep _ => isFalse id

/-- The event is a step of the thread in `rtdoa_backhaul_listen`. -/
def Event.ofThread : Event β → Bool
  | .listen _ _ | .listenStep _ => true
  | _ => false

/-- The thread is about to release the semaphore whatever its count. -/
def UnguardedRelease (s : State β) : Event β → Prop
  | .listenStep _ => s.listen = .startFailed ∨ s.listen = .woken
  | _ => False

/-- **What a step does to the count and to the thread.** -/
inductive SemCase (s : State β) : Event β → ℕ → Listen → Prop
  | quiet {e : Event β} (hno : ¬ Releases s e) (hother : e.ofThread = false) :
      SemCase s e s.gSem s.listen
  | release {e : Event β} (h : Releases s e) : SemCase s e (max s.gSem 1) s.listen
  | pendFirst (dxTime : BitVec 64) (uus : BitVec 16) (hpc : s.listen = .idle) (h : 0 < s.gSem) :
      SemCase s (.listen dxTime uus) (s.gSem - 1) (.pended dxTime uus)
  | delay {err : Bool} {dxTime : BitVec 64} {uus : BitVec 16}
      (hpc : s.listen = .pended dxTime uus) :
      SemCase s (.listenStep err) s.gSem (.delaySet uus)
  | timeout {err : Bool} {uus : BitVec 16} (hpc : s.listen = .delaySet uus) :
      SemCase s (.listenStep err) s.gSem .timeoutSet
  | startError (hpc : s.listen = .timeoutSet) : SemCase s (.listenStep true) s.gSem .startFailed
  | start (hpc : s.listen = .timeoutSet) : SemCase s (.listenStep false) s.gSem .waiting
  | giveUp {err : Bool} (hpc : s.listen = .startFailed) :
      SemCase s (.listenStep err) (s.gSem + 1) .waiting
  | pendSecond {err : Bool} (hpc : s.listen = .waiting) (h : 0 < s.gSem) :
      SemCase s (.listenStep err) (s.gSem - 1) .woken
  | giveBack {err : Bool} (hpc : s.listen = .woken) :
      SemCase s (.listenStep err) (s.gSem + 1) .released
  | done {err : Bool} (hpc : s.listen = .released) : SemCase s (.listenStep err) s.gSem .idle

omit [DecidableEq β] in
theorem listenPend_eq_some {s t : State β} {dxTime : BitVec 64} {uus : BitVec 16}
    (h : listenPend s dxTime uus = some t) :
    s.listen = .idle ∧ 0 < s.gSem ∧
      { s with gSem := s.gSem - 1, listen := .pended dxTime uus } = t := by
  simp only [listenPend, Option.ite_none_right_eq_some, Option.some.injEq] at h
  obtain ⟨⟨hpc, hpos⟩, ht⟩ := h
  exact ⟨hpc, hpos, ht⟩

omit [DecidableEq β] in
theorem semCase_of_listenStep {s t : State β} {err : Bool}
    (h : listenStep s err = some t) : SemCase s (.listenStep err) t.gSem t.listen := by
  rw [listenStep] at h
  cases hpc : s.listen with
  | idle => simp [hpc] at h
  | pended dxTime uus =>
    simp only [hpc, Option.some.injEq] at h
    subst h
    exact .delay hpc
  | delaySet uus =>
    simp only [hpc, Option.some.injEq] at h
    subst h
    exact .timeout hpc
  | timeoutSet =>
    simp only [hpc, Option.some.injEq] at h
    subst h
    cases err with
    | false => exact .start hpc
    | true => exact .startError hpc
  | startFailed =>
    simp only [hpc, Option.some.injEq] at h
    subst h
    exact .giveUp hpc
  | waiting =>
    simp only [hpc, Option.ite_none_right_eq_some, Option.some.injEq] at h
    obtain ⟨hpos, rfl⟩ := h
    exact .pendSecond hpc hpos
  | woken =>
    simp only [hpc, Option.some.injEq] at h
    subst h
    exact .giveBack hpc
  | released =>
    simp only [hpc, Option.some.injEq] at h
    subst h
    exact .done hpc

omit [DecidableEq β] in
/-- The second pend takes a token. -/
theorem listenStep_waiting {s t : State β} {err : Bool} (hpc : s.listen = .waiting)
    (h : listenStep s err = some t) : 0 < s.gSem ∧ t.gSem = s.gSem - 1 := by
  simp only [listenStep, hpc, Option.ite_none_right_eq_some, Option.some.injEq] at h
  obtain ⟨hpos, rfl⟩ := h
  exact ⟨hpos, rfl⟩

theorem semCase_of_step {s t : State β} {e : Event β} (h : step s e = some t) :
    SemCase s e t.gSem t.listen := by
  cases e with
  | rx inst env =>
    obtain ⟨⟨t, exit⟩, hrx, rfl⟩ := Option.map_eq_some_iff.mp h
    have hcase := rxCase_of_eq hrx
    rw [hcase.gSem_eq, hcase.listen_eq]
    split
    · exact .release ‹_›
    · exact .quiet ‹_› rfl
  | tx fctrl =>
    cases h
    have hpc : (txCompleteCb s fctrl).1.listen = s.listen := by
      rw [txCompleteCb]
      split
      · rfl
      · split <;> simp
    rw [txCompleteCb_gSem, hpc]
    split
    · exact .release ‹_›
    · exact .quiet ‹_› rfl
  | localSend buf dlen env =>
    obtain ⟨⟨t, ok⟩, hsend, rfl⟩ := Option.map_eq_some_iff.mp h
    rcases rtdoaLocalSend_eq_some hsend with
        ⟨rfl, -⟩ | ⟨-, -, -, -, -, ⟨rfl, -⟩ | ⟨-, -, -, rfl, -⟩⟩ <;>
      exact .quiet id rfl
  | getMsg =>
    obtain ⟨om, rest, -, -, rfl⟩ := getMsg_eq_some h
    exact .quiet id rfl
  | finishMsg =>
    obtain ⟨om, -, rfl⟩ := Option.map_eq_some_iff.mp h
    exact .quiet id rfl
  | setRole role =>
    cases h
    exact .quiet id rfl
  | listen dxTime uus =>
    obtain ⟨hpc, hpos, rfl⟩ := listenPend_eq_some h
    exact .pendFirst dxTime uus hpc hpos
  | listenStep err => exact semCase_of_listenStep h

/-! ## The history that matters -/

/-- What is remembered of a step: that the thread took the token, or that a callback came to its
release. -/
inductive Mark
  | pend
  | token
deriving DecidableEq

def mark (s : State β) : Event β → List Mark
  | .listen _ _ => [.pend]
  | .listenStep _ => if s.listen = .waiting then [.pend] else []
  | .rx inst env => if Releases s (.rx inst env) then [.token] else []
  | .tx fctrl => if Releases s (.tx fctrl) then [.token] else []
  | _ => []

omit [DecidableEq β] in
theorem mark_of_releases {s : State β} {e : Event β} (h : Releases s e) : mark s e = [.token] := by
  cases e with
  | rx | tx => exact if_pos h
  | _ => exact h.elim

omit [DecidableEq β] in
theorem mark_of_quiet {s : State β} {e : Event β} (h : ¬ Releases s e)
    (hother : e.ofThread = false) : mark s e = [] := by
  cases e with
  | rx | tx => exact if_neg h
  | listen | listenStep => cases hother
  | _ => rfl

omit [DecidableEq β] in
theorem mark_listenStep_of_ne {s : State β} {err : Bool} (h : s.listen ≠ .waiting) :
    mark s (.listenStep err) = [] :=
  if_neg h

/-- A callback has come to its release since the thread last pended. -/
def TokenSincePend (ms : List Mark) : Prop := ms.getLast? = some .token

/-- No unguarded release of the run finds that a callback has been there first. -/
def CallbacksKeepAway (es : List (Event β)) : Prop :=
  ∀ pre e post t, es = pre ++ e :: post → run step State.init pre = some t →
    UnguardedRelease t e → ¬ TokenSincePend (gather step mark State.init pre)

/-- The semaphore stays binary.  The first pend of `rtdoa_backhaul_listen` leaves no token over, so
that the second one takes a token that has been released since, and leaves none either. -/
structure TokensSound (es : List (Event β)) : Prop where
  count : ∀ pre post t, es = pre ++ post → run step State.init pre = some t → t.gSem ≤ 1
  fresh : ∀ pre dxTime uus post t, es = (pre ++ [.listen dxTime uus]) ++ post →
    run step State.init (pre ++ [.listen dxTime uus]) = some t → t.gSem = 0
  released : ∀ pre dxTime uus mid err post r s t,
    es = (pre ++ [.listen dxTime uus]) ++ mid ++ .listenStep err :: post →
    run step State.init (pre ++ [.listen dxTime uus]) = some r → run step r mid = some s →
    s.listen = .waiting → step s (.listenStep err) = some t →
    t.gSem = 0 ∧ ∃ mid₁ e mid₂ u v, mid = mid₁ ++ e :: mid₂ ∧ run step r mid₁ = some u ∧
      step u e = some v ∧ u.gSem < v.gSem

/-! ## Runs -/

/-- Whenever a callback has released since the last pend, there is a token. -/
theorem gSem_pos_of_tokenSincePend {es : List (Event β)} {s : State β}
    (h : run step State.init es = some s)
    (htoken : TokenSincePend (gather step mark State.init es)) : 0 < s.gSem := by
  induction es using List.reverseRecOn generalizing s with
  | nil => simp [TokenSincePend] at htoken
  | append_singleton es e ih =>
    obtain ⟨s', hrun, hstep⟩ := run_snoc.mp h
    rw [gather_snoc hrun, TokenSincePend] at htoken
    have hcase := semCase_of_step hstep
    generalize s.gSem = n, s.listen = pc at hcase ⊢
    cases hcase with
    | quiet hno hother =>
      rw [mark_of_quiet hno hother, List.append_nil] at htoken
      exact ih hrun htoken
    | release hrel => omega
    | pendFirst dxTime uus => simp [mark] at htoken
    | delay hpc | timeout hpc | startError hpc | start hpc | done hpc =>
      rw [mark_listenStep_of_ne (by simp [hpc]), List.append_nil] at htoken
      exact ih hrun htoken
    | giveUp | giveBack => omega
    | pendSecond hpc => simp [mark, hpc] at htoken

/-- The thread has taken the token and not yet come to its release. -/
def Listen.holdsToken : Listen → Prop
  | .pended _ _ | .delaySet _ | .timeoutSet | .startFailed | .woken => True
  | .idle | .waiting | .released => False

/-- What holds of the history and the count while the callbacks keep away. -/
structure TokenInv (ms : List Mark) (n : ℕ) (pc : Listen) : Prop where
  le_one : n ≤ 1
  taken : pc.holdsToken → ¬ TokenSincePend ms → n = 0

omit [DecidableEq β] in
/-- One step of the invariant. -/
theorem TokenInv.step {ms : List Mark} {s : State β} {e : Event β} {n : ℕ} {pc : Listen}
    (h : TokenInv ms s.gSem s.listen) (haway : UnguardedRelease s e → ¬ TokenSincePend ms)
    (hcase : SemCase s e n pc) : TokenInv (ms ++ mark s e) n pc := by
  obtain ⟨hle, htaken⟩ := h
  cases hcase with
  | quiet hno hother =>
    rw [mark_of_quiet hno hother, List.append_nil]
    exact ⟨hle, htaken⟩
  | release hrel =>
    refine ⟨by omega, fun _ hno ↦ absurd ?_ hno⟩
    simp [TokenSincePend, mark_of_releases hrel]
  | pendFirst => exact ⟨by omega, fun _ _ ↦ by omega⟩
  | delay hpc | timeout hpc | startError hpc =>
    rw [mark_listenStep_of_ne (by simp [hpc]), List.append_nil]
    exact ⟨hle, fun _ ↦ htaken (by simp [hpc, Listen.holdsToken])⟩
  | start => exact ⟨hle, False.elim⟩
  | giveUp hpc =>
    have hzero := htaken (by simp [hpc, Listen.holdsToken]) (haway (Or.inl hpc))
    exact ⟨by omega, False.elim⟩
  | pendSecond => exact ⟨by omega, fun _ _ ↦ by omega⟩
  | giveBack hpc =>
    have hzero := htaken (by simp [hpc, Listen.holdsToken]) (haway (Or.inr hpc))
    exact ⟨by omega, False.elim⟩
  | done => exact ⟨hle, False.elim⟩

theorem tokenInv_of_run {es : List (Event β)} (haway : CallbacksKeepAway es) {s : State β}
    (h : run step State.init es = some s) :
    TokenInv (gather step mark State.init es) s.gSem s.listen := by
  induction es using List.reverseRecOn generalizing s with
  | nil =>
    cases h
    exact ⟨Nat.le_refl 1, False.elim⟩
  | append_singleton es e ih =>
    obtain ⟨s', hrun, hstep⟩ := run_snoc.mp h
    have hshorter : CallbacksKeepAway es := by
      intro pre f post t hsplit
      exact haway pre f (post ++ [e]) t (by rw [hsplit, List.append_assoc]; rfl)
    rw [gather_snoc hrun]
    exact (ih hshorter hrun).step (haway es e [] s' rfl hrun) (semCase_of_step hstep)

theorem unguardedRelease_step {s : State β} {e : Event β} (h : UnguardedRelease s e) :
    ∃ t, step s e = some t ∧ t.gSem = s.gSem + 1 := by
  cases e with
  | listenStep err =>
    rcases h with hpc | hpc
    · exact ⟨{ osSemRelease s with listen := .waiting }, by simp [step, listenStep, hpc], rfl⟩
    · exact ⟨{ osSemRelease s with listen := .released }, by simp [step, listenStep, hpc], rfl⟩
  | _ => exact h.elim

/-- **When the semaphore is binary**: in every run, exactly if no unguarded release of
`rtdoa_backhaul_listen` finds that a callback has come to its release since the thread last
pended. -/
theorem tokensSound_iff (es : List (Event β)) : TokensSound es ↔ CallbacksKeepAway es := by
  constructor
  · -- the token of the callback is still there when the thread adds its own
    intro hsound pre e post t hsplit hrun hrelease htoken
    have hpos := gSem_pos_of_tokenSincePend hrun htoken
    obtain ⟨t', hstep, hsem⟩ := unguardedRelease_step hrelease
    have hle := hsound.count (pre ++ [e]) post t' (by rw [hsplit, List.append_assoc]; rfl)
      (run_snoc.mpr ⟨t, hrun, hstep⟩)
    omega
  · intro haway
    have hcount : ∀ pre post t, es = pre ++ post → run step State.init pre = some t →
        t.gSem ≤ 1 := by
      intro pre post t hsplit hrun
      refine (tokenInv_of_run (fun pre' f post' s hsplit' ↦ ?_) hrun).le_one
      exact haway pre' f (post' ++ post) s (by rw [hsplit, hsplit', List.append_assoc]; rfl)
    have hfresh : ∀ pre dxTime uus post t, es = (pre ++ [.listen dxTime uus]) ++ post →
        run step State.init (pre ++ [.listen dxTime uus]) = some t → t.gSem = 0 := by
      intro pre dxTime uus post t hsplit hrun
      obtain ⟨s, hrun', hstep⟩ := run_snoc.mp hrun
      have hle := hcount pre (.listen dxTime uus :: post) s
        (by rw [hsplit, List.append_assoc]; rfl) hrun'
      obtain ⟨-, hpos, rfl⟩ := listenPend_eq_some hstep
      exact Nat.sub_eq_zero_of_le hle
    refine ⟨hcount, hfresh, fun pre dxTime uus mid err post r s t hsplit hr hs hpc hstep ↦ ?_⟩
    have hzero := hfresh pre dxTime uus (mid ++ .listenStep err :: post) r
      (by rw [hsplit, List.append_assoc]) hr
    have hle := hcount (pre ++ [.listen dxTime uus] ++ mid) (.listenStep err :: post) s hsplit
      (by rw [run_append, hr, Option.bind_some, hs])
    obtain ⟨hpos, hnone⟩ := listenStep_waiting hpc hstep
    exact ⟨by omega, exists_step_of_lt hs (by omega)⟩

/-- A second frame between the last pend of `rtdoa_backhaul_listen` and its last release. -/
theorem gSem_eq_two_after_second_frame :
    ∃ s : State ℕ, run step State.init [.listen 0 100, .listenStep false, .listenStep false,
      .listenStep false, .rx sampleFrame ⟨none, ⟨[], true⟩, true⟩, .listenStep false,
      .rx sampleFrame ⟨none, ⟨[], true⟩, true⟩, .listenStep false] = some s ∧ s.gSem = 2 := by
  exact Option.map_eq_some_iff.mp (by decide)

end UwbApps.Backhaul
