import Mathlib.Data.Nat.Notation
import Mathlib.Data.Option.Basic
import Mathlib.Order.Notation

/-!
# Runs of a partial step function

A system is a partial function `step : σ → ε → Option σ`: what an event does to a state, `none`
when the event cannot happen there.  `run` follows a list of events, `gather` collects what an
observer sees along the way, and `Each` says that every step of a run is taken in a state that
allows it.

`Each.invariant` is the rule every invariant of a run comes from: it holds at the start, and a
step that `C` allows keeps it.  `run_split` and `Each.at` take a run apart at one of its events.
-/

set_option autoImplicit false

namespace Run

variable {σ ε α : Type*} (step : σ → ε → Option σ)

/-- Where the events `es` lead from `s`. -/
def run : σ → List ε → Option σ
  | s, [] => some s
  | s, e :: es => (step s e).bind fun s' ↦ run s' es

/-- What `obs` sees along the run, oldest first. -/
def gather (obs : σ → ε → List α) : σ → List ε → List α
  | _, [] => []
  | s, e :: es => obs s e ++ (step s e).elim [] fun s' ↦ gather obs s' es

/-- Every step of the run is taken in a state where `C` allows it. -/
def Each (C : σ → ε → Prop) : σ → List ε → Prop
  | _, [] => True
  | s, e :: es => C s e ∧ ∀ s', step s e = some s' → Each C s' es

variable {step}

@[simp] theorem run_nil (s : σ) : run step s [] = some s := rfl

theorem run_cons_eq_some {s t : σ} {e : ε} {es : List ε} :
    run step s (e :: es) = some t ↔ ∃ s', step s e = some s' ∧ run step s' es = some t := by
  rw [run, Option.bind_eq_some_iff]

theorem run_append (s : σ) (es fs : List ε) :
    run step s (es ++ fs) = (run step s es).bind fun s' ↦ run step s' fs := by
  induction es generalizing s with
  | nil => rfl
  | cons e es ih =>
    rw [List.cons_append, run, run]
    cases step s e with
    | none => rfl
    | some s' => exact ih s'

/-- A run that ends in `e` is a run to the state before it, and one step. -/
theorem run_snoc {s t : σ} {es : List ε} {e : ε} :
    run step s (es ++ [e]) = some t ↔ ∃ s', run step s es = some s' ∧ step s' e = some t := by
  simp only [run_append, Option.bind_eq_some_iff, run_cons_eq_some, run_nil, Option.some.injEq,
    exists_eq_right]

/-- A run through `e` passes through the state before `e` and the state after it. -/
theorem run_split {s t : σ} {es fs : List ε} {e : ε} (h : run step s (es ++ e :: fs) = some t) :
    ∃ s₁ s₂, run step s es = some s₁ ∧ step s₁ e = some s₂ ∧ run step s₂ fs = some t := by
  rw [run_append, Option.bind_eq_some_iff] at h
  obtain ⟨s₁, h₁, h₂⟩ := h
  obtain ⟨s₂, h₂, h₃⟩ := run_cons_eq_some.mp h₂
  exact ⟨s₁, s₂, h₁, h₂, h₃⟩

/-! ## Observations -/

@[simp] theorem gather_nil (obs : σ → ε → List α) (s : σ) : gather step obs s [] = [] := rfl

theorem gather_append {obs : σ → ε → List α} {s t : σ} {es : List ε}
    (h : run step s es = some t) (fs : List ε) :
    gather step obs s (es ++ fs) = gather step obs s es ++ gather step obs t fs := by
  induction es generalizing s with
  | nil =>
    cases h
    rfl
  | cons e es ih =>
    obtain ⟨s', hs, hrun⟩ := run_cons_eq_some.mp h
    rw [List.cons_append, gather, gather, hs, List.append_assoc]
    exact congrArg (obs s e ++ ·) (ih hrun)

/-- The last event of a run adds what is seen of it in the state before. -/
theorem gather_snoc {obs : σ → ε → List α} {s t : σ} {es : List ε}
    (h : run step s es = some t) (e : ε) :
    gather step obs s (es ++ [e]) = gather step obs s es ++ obs t e := by
  rw [gather_append h, gather]
  cases step t e <;> simp

/-- Looking closer at each thing that is seen. -/
theorem gather_flatMap {γ : Type*} (obs : σ → ε → List α) (f : α → List γ) (s : σ) (es : List ε) :
    gather step (fun s e ↦ (obs s e).flatMap f) s es = (gather step obs s es).flatMap f := by
  induction es generalizing s with
  | nil => rfl
  | cons e es ih =>
    rw [gather, gather, List.flatMap_append]
    cases step s e with
    | none => rfl
    | some s' => exact congrArg (List.flatMap f (obs s e) ++ ·) (ih s')

/-- A queue is served in order: if each step shows what it takes from the front of `pending` and
adds at the back, what is pending at the start comes first among what is seen and what is left. -/
theorem prefix_gather {C : σ → ε → Prop} {pending : σ → List α} {obs : σ → ε → List α}
    (hstep : ∀ s e t, C s e → step s e = some t → pending s <+: obs s e ++ pending t) {s t : σ}
    {es : List ε} (hC : Each step C s es) (hrun : run step s es = some t) :
    pending s <+: gather step obs s es ++ pending t := by
  induction es generalizing s with
  | nil =>
    cases hrun
    exact List.prefix_refl _
  | cons e es ih =>
    obtain ⟨s', hs, hrun⟩ := run_cons_eq_some.mp hrun
    have hhead := hstep s e s' hC.1 hs
    have htail := ih (hC.2 s' hs) hrun
    rw [gather, hs, Option.elim_some, List.append_assoc]
    exact hhead.trans ((List.prefix_append_right_inj _).mpr htail)

/-- An observer that sees at most one thing at each step: what it has seen splits where the run
does. -/
theorem gather_split {obs : σ → ε → List α} (hone : ∀ s e, (obs s e).length ≤ 1) {s : σ}
    {es : List ε} {as bs : List α} {a : α} (h : gather step obs s es = as ++ a :: bs) :
    ∃ pre e post t, es = pre ++ e :: post ∧ run step s pre = some t ∧
      gather step obs s pre = as ∧ obs t e = [a] := by
  induction es generalizing s as with
  | nil => simp at h
  | cons e es ih =>
    rw [gather] at h
    -- either the first step is where `a` is seen, or it is further on
    have hfirst : obs s e = [] ∨ ∃ b, obs s e = [b] := by
      rcases hobs : obs s e with _ | ⟨b, _ | ⟨c, l⟩⟩
      · exact Or.inl rfl
      · exact Or.inr ⟨b, rfl⟩
      · have := hone s e
        rw [hobs] at this
        simp at this
    have hlater : ∀ as', (step s e).elim [] (fun s' ↦ gather step obs s' es) = as' ++ a :: bs →
        ∃ pre f post t, e :: es = pre ++ f :: post ∧ run step s pre = some t ∧
          gather step obs s pre = obs s e ++ as' ∧ obs t f = [a] := by
      intro as' hrest
      cases hs : step s e with
      | none => simp [hs] at hrest
      | some s' =>
        rw [hs] at hrest
        obtain ⟨pre, f, post, t, rfl, hrun, hpre, ha⟩ := ih hrest
        refine ⟨e :: pre, f, post, t, rfl, run_cons_eq_some.mpr ⟨s', hs, hrun⟩, ?_, ha⟩
        rw [gather, hs, Option.elim_some, hpre]
    rcases hfirst with hnone | ⟨b, hb⟩
    · obtain ⟨pre, f, post, t, hsplit, hrun, hpre, ha⟩ := hlater as (by rwa [hnone] at h)
      exact ⟨pre, f, post, t, hsplit, hrun, by rwa [hnone] at hpre, ha⟩
    · rw [hb, List.singleton_append] at h
      cases as with
      | nil => exact ⟨[], e, es, s, rfl, rfl, rfl, by rw [hb, (List.cons.inj h).1]⟩
      | cons c as =>
        obtain ⟨rfl, hrest⟩ := List.cons.inj h
        obtain ⟨pre, f, post, t, hsplit, hrun, hpre, ha⟩ := hlater as hrest
        exact ⟨pre, f, post, t, hsplit, hrun, by rwa [hb] at hpre, ha⟩

/-! ## Invariants -/

/-- `Each`, one step at a time. -/
theorem each_cons_iff {C : σ → ε → Prop} {s : σ} {e : ε} {es : List ε} :
    Each step C s (e :: es) ↔ C s e ∧ (step s e).elim True fun s' ↦ Each step C s' es := by
  rw [Each]
  cases step s e <;> simp

instance decidableEach {C : σ → ε → Prop} [∀ s e, Decidable (C s e)] :
    ∀ (s : σ) (es : List ε), Decidable (Each step C s es)
  | _, [] => .isTrue trivial
  | s, e :: es =>
    have : Decidable ((step s e).elim True fun s' ↦ Each step C s' es) :=
      match step s e with
      | none => .isTrue trivial
      | some s' => decidableEach s' es
    decidable_of_iff _ each_cons_iff.symm

theorem Each.append {C : σ → ε → Prop} {s t : σ} {es fs : List ε}
    (h : Each step C s (es ++ fs)) (hrun : run step s es = some t) :
    Each step C s es ∧ Each step C t fs := by
  induction es generalizing s with
  | nil =>
    cases hrun
    exact ⟨trivial, h⟩
  | cons e es ih =>
    obtain ⟨s', hs, hrun⟩ := run_cons_eq_some.mp hrun
    obtain ⟨hc, hrest⟩ := h
    obtain ⟨h₁, h₂⟩ := ih (hrest s' hs) hrun
    refine ⟨⟨hc, fun s'' hs'' ↦ ?_⟩, h₂⟩
    rw [hs, Option.some_inj] at hs''
    exact hs'' ▸ h₁

/-- The condition at one step of the run. -/
theorem Each.at {C : σ → ε → Prop} {s t : σ} {es fs : List ε} {e : ε}
    (h : Each step C s (es ++ e :: fs)) (hrun : run step s es = some t) : C t e :=
  (h.append hrun).2.1

/-- A condition at every split of the run is a condition on each of its steps. -/
theorem each_of_splits {C : σ → ε → Prop} {s : σ} {es : List ε}
    (h : ∀ pre e post t, es = pre ++ e :: post → run step s pre = some t → C t e) :
    Each step C s es := by
  induction es generalizing s with
  | nil => trivial
  | cons e es ih =>
    refine ⟨h [] e es s rfl rfl, fun s' hs ↦ ih fun pre f post t hsplit hrun ↦ ?_⟩
    exact h (e :: pre) f post t (by rw [hsplit, List.cons_append])
      (run_cons_eq_some.mpr ⟨s', hs, hrun⟩)

/-- **The invariant rule.**  What holds at the start and is kept by every allowed step holds
wherever allowed steps lead. -/
theorem Each.invariant {C : σ → ε → Prop} {P : σ → Prop}
    (hstep : ∀ s e t, P s → C s e → step s e = some t → P t) {s t : σ} {es : List ε}
    (hC : Each step C s es) (hs : P s) (hrun : run step s es = some t) : P t := by
  induction es generalizing s with
  | nil =>
    cases hrun
    exact hs
  | cons e es ih =>
    obtain ⟨s', hse, hrun⟩ := run_cons_eq_some.mp hrun
    exact ih (hC.2 s' hse) (hstep s e s' hs hC.1 hse) hrun

/-- **The exact rule for observations.**  If what is seen at a step is good exactly when `C` allows
the step, everything seen along a run is good exactly when `C` allows each of its steps.  `I` is an
invariant of the run. -/
theorem forall_gather_iff {C : σ → ε → Prop} {I : σ → Prop} {P : α → Prop} {obs : σ → ε → List α}
    (hkeep : ∀ s e t, I s → step s e = some t → I t)
    (hobs : ∀ s e, I s → ((∀ a ∈ obs s e, P a) ↔ C s e)) {s : σ} (hs : I s) (es : List ε) :
    (∀ a ∈ gather step obs s es, P a) ↔ Each step C s es := by
  induction es generalizing s with
  | nil => exact iff_of_true (fun _ h ↦ nomatch h) trivial
  | cons e es ih =>
    rw [gather, List.forall_mem_append, hobs s e hs, each_cons_iff]
    refine and_congr_right fun _ ↦ ?_
    rcases hstep : step s e with _ | t
    · exact iff_of_true (fun _ h ↦ nomatch h) trivial
    · exact ih (hkeep s e t hs hstep)

/-- What every step keeps holds wherever the run leads. -/
theorem run_invariant {P : σ → Prop} (hstep : ∀ s e t, P s → step s e = some t → P t) {s t : σ}
    {es : List ε} (hs : P s) (hrun : run step s es = some t) : P t :=
  Each.invariant (fun s e t h _ ↦ hstep s e t h) (each_of_splits fun _ _ _ _ _ _ ↦ trivial) hs hrun

/-- **The invariant rule for observations.**  `I` relates the state to what two observers have seen
so far. -/
theorem Each.gather_invariant {γ : Type*} {C : σ → ε → Prop} {I : List α → List γ → σ → Prop}
    {obs : σ → ε → List α} {src : σ → ε → List γ}
    (hstep : ∀ as cs s e t, I as cs s → C s e → step s e = some t →
      I (as ++ obs s e) (cs ++ src s e) t) {s t : σ} {es : List ε} {as : List α} {cs : List γ}
    (hC : Each step C s es) (hs : I as cs s) (hrun : run step s es = some t) :
    I (as ++ gather step obs s es) (cs ++ gather step src s es) t := by
  induction es generalizing s as cs with
  | nil =>
    cases hrun
    rwa [gather_nil, gather_nil, List.append_nil, List.append_nil]
  | cons e es ih =>
    obtain ⟨s', hse, hrun⟩ := run_cons_eq_some.mp hrun
    have hnext := ih (hC.2 s' hse) (hstep as cs s e s' hs hC.1 hse) hrun
    rw [gather, gather, hse, Option.elim_some, Option.elim_some]
    rwa [List.append_assoc, List.append_assoc] at hnext

/-- What every step keeps, of what two observers have seen. -/
theorem gather_invariant {γ : Type*} {I : List α → List γ → σ → Prop} {obs : σ → ε → List α}
    {src : σ → ε → List γ}
    (hstep : ∀ as cs s e t, I as cs s → step s e = some t → I (as ++ obs s e) (cs ++ src s e) t)
    {s t : σ} {es : List ε} (hs : I [] [] s) (hrun : run step s es = some t) :
    I (gather step obs s es) (gather step src s es) t :=
  Each.gather_invariant (fun as cs s e t h _ ↦ hstep as cs s e t h)
    (each_of_splits fun _ _ _ _ _ _ ↦ trivial) hs hrun

/-- **The counting rule.**  If a step shows no more to the one observer than to the other, and than
it takes from a credit, neither does a run. -/
theorem Each.length_gather_le {γ : Type*} {C : σ → ε → Prop} {obs : σ → ε → List α}
    {src : σ → ε → List γ} {credit : σ → ℕ}
    (hstep : ∀ s e t, C s e → step s e = some t →
      (obs s e).length + credit t ≤ (src s e).length + credit s) {s t : σ} {es : List ε}
    (hC : Each step C s es) (hrun : run step s es = some t) :
    (gather step obs s es).length + credit t ≤ (gather step src s es).length + credit s := by
  let I : List α → List γ → σ → Prop := fun as cs u ↦ as.length + credit u ≤ cs.length + credit s
  have hinit : I [] [] s := Nat.le_refl _
  refine hC.gather_invariant (I := I) (fun as cs u e v hsum hc hu ↦ ?_) hinit hrun
  show (as ++ _).length + credit v ≤ (cs ++ _).length + credit s
  have hsum : as.length + credit u ≤ cs.length + credit s := hsum
  have hone := hstep u e v hc hu
  rw [List.length_append, List.length_append]
  omega

/-- A quantity that is greater at the end has been raised by one of the steps. -/
theorem exists_step_of_lt {f : σ → ℕ} {s t : σ} {es : List ε} (hrun : run step s es = some t)
    (hlt : f s < f t) :
    ∃ pre e post u v, es = pre ++ e :: post ∧ run step s pre = some u ∧ step u e = some v ∧
      f u < f v := by
  induction es generalizing s with
  | nil =>
    cases hrun
    exact absurd hlt (Nat.lt_irrefl _)
  | cons e es ih =>
    obtain ⟨s', hse, hrun⟩ := run_cons_eq_some.mp hrun
    by_cases hraise : f s < f s'
    · exact ⟨[], e, es, s, s', rfl, rfl, hse, hraise⟩
    · obtain ⟨pre, g, post, u, v, rfl, hpre, hg, huv⟩ :=
        ih hrun (Nat.lt_of_le_of_lt (Nat.le_of_not_lt hraise) hlt)
      exact ⟨e :: pre, g, post, u, v, rfl, run_cons_eq_some.mpr ⟨s', hse, hpre⟩, hg, huv⟩

/-- **The exact invariant rule.**  If a step keeps the property exactly when `C` allows it, the
property holds all along a run exactly when `C` allows each of its steps. -/
theorem always_iff_each {C : σ → ε → Prop} {P : σ → Prop}
    (hstep : ∀ s e t, P s → step s e = some t → (P t ↔ C s e)) {s t : σ} {es : List ε}
    (hs : P s) (hrun : run step s es = some t) :
    (∀ pre post u, es = pre ++ post → run step s pre = some u → P u) ↔ Each step C s es := by
  constructor
  · intro hall
    refine each_of_splits fun pre e post u hsplit hpre ↦ ?_
    obtain ⟨u₁, u₂, hrun₁, he, -⟩ := run_split (hsplit ▸ hrun)
    obtain rfl : u₁ = u := Option.some.inj (hrun₁.symm.trans hpre)
    have hbefore := hall pre (e :: post) u₁ hsplit hpre
    refine (hstep u₁ e u₂ hbefore he).mp (hall (pre ++ [e]) post u₂ ?_ ?_)
    · rw [hsplit, List.append_assoc, List.singleton_append]
    · exact run_snoc.mpr ⟨u₁, hpre, he⟩
  · intro hC pre post u hsplit hpre
    have hpreC := ((hsplit ▸ hC : Each step C s (pre ++ post)).append hpre).1
    exact hpreC.invariant (fun s e t h hc ht ↦ (hstep s e t h ht).mpr hc) hs hpre

end Run
