import UwbApps.Lib.Run
import Mathlib.Data.List.DropRight

/-!
# What has been logged since it was last cleared

Some events clear a log and the others are entered in it: `since` is what the log holds after a
list of events, and `latest` the last entry about a subject.

`run_view_eq` is for a system that keeps its own summary of the log: if an event that clears sets
the summary back and every other one is folded in, then the summary is at all times what folding
`since` gives.
-/

set_option autoImplicit false

namespace Log

open Run

variable {σ ε α δ : Type*}

/-- The events after the last one that clears. -/
def since (clears : ε → Bool) (es : List ε) : List ε := es.rtakeWhile fun e ↦ !clears e

/-- The last thing that is noted of the events. -/
def latest (note : ε → Option α) (es : List ε) : Option α := (es.filterMap note).getLast?

theorem since_concat (clears : ε → Bool) (es : List ε) (e : ε) :
    since clears (es ++ [e]) = if clears e then [] else since clears es ++ [e] := by
  rw [since, List.rtakeWhile_concat]
  cases clears e with
  | false => rfl
  | true => rfl

@[simp] theorem latest_nil (note : ε → Option α) : latest note [] = none := rfl

theorem latest_concat (note : ε → Option α) (es : List ε) (e : ε) :
    latest note (es ++ [e]) = (note e).or (latest note es) := by
  rw [latest, latest, List.filterMap_append, List.getLast?_append]
  cases h : note e <;> simp [h]

theorem isSome_latest_iff {note : ε → Option α} {es : List ε} :
    (latest note es).isSome ↔ ∃ e ∈ es, (note e).isSome := by
  induction es using List.reverseRecOn with
  | nil => simp
  | append_singleton es e ih =>
    rw [latest_concat, Option.isSome_or, Bool.or_eq_true, ih]
    simp [or_comm, or_and_right, exists_or]

/-- **The summary is that of the log.**  `view` is what a state keeps of the events: `d₀` after
one that clears, and otherwise what `absorb` makes of what it kept. -/
theorem run_view_eq {step : σ → ε → Option σ} (view : σ → δ) {absorb : δ → ε → δ}
    {clears : ε → Bool} {d₀ : δ}
    (hstep : ∀ s e t, step s e = some t →
      view t = if clears e then d₀ else absorb (view s) e)
    {s t : σ} {es : List ε} (hs : view s = d₀) (hrun : run step s es = some t) :
    view t = (since clears es).foldl absorb d₀ := by
  induction es using List.reverseRecOn generalizing t with
  | nil =>
    cases hrun
    exact hs
  | append_singleton es e ih =>
    obtain ⟨u, hu, he⟩ := run_snoc.mp hrun
    rw [hstep u e t he, since_concat]
    split
    · rfl
    · rw [ih hu, List.foldl_append, List.foldl_cons, List.foldl_nil]

end Log
