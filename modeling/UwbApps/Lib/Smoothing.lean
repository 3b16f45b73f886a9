import Mathlib.Analysis.Convex.Basic

/-!
# Exponential smoothing with restarts

A value follows a stream of inputs.  An input moves it a fraction `a` of the way towards itself,
unless the value is one at which `restart` holds: there the input replaces it.

Which of the two an input does depends on where the inputs before it have led, but a convex set
does not care: an input in the set leaves the value in the set in either case (`smooth_mem`), so a
stream of inputs in the set does (`foldl_smooth_mem`).  A value that is restarted from need not be
in the set itself, since the first input replaces it (`foldl_smooth_mem_of_restart`), and then the
least and the greatest input bound what comes out (`foldl_smooth_mem_Icc`).
-/

set_option autoImplicit false

namespace Smoothing

section Convex

variable {K E : Type*} [Ring K] [AddCommGroup E] [Module K E] {restart : E → Prop}
  [DecidablePred restart] {a : K} {S : Set E}

/-- The value after the input `x`. -/
def smooth (restart : E → Prop) [DecidablePred restart] (a : K) (s x : E) : E :=
  if restart s then x else (1 - a) • s + a • x

theorem smooth_of_restart {s : E} (h : restart s) (x : E) : smooth restart a s x = x :=
  if_pos h

theorem smooth_of_not_restart {s : E} (h : ¬restart s) (x : E) :
    smooth restart a s x = (1 - a) • s + a • x :=
  if_neg h

variable [PartialOrder K] [IsOrderedRing K]

theorem smooth_mem (hS : Convex K S) (ha : 0 ≤ a) (ha1 : a ≤ 1) {s x : E} (hs : s ∈ S)
    (hx : x ∈ S) : smooth restart a s x ∈ S := by
  by_cases h : restart s
  · rw [smooth_of_restart h]
    exact hx
  · rw [smooth_of_not_restart h]
    exact hS hs hx (sub_nonneg.mpr ha1) ha (sub_add_cancel 1 a)

/-- A convex set is not left while the inputs lie in it. -/
theorem foldl_smooth_mem (hS : Convex K S) (ha : 0 ≤ a) (ha1 : a ≤ 1) {s : E} (hs : s ∈ S)
    {xs : List E} (hxs : ∀ x ∈ xs, x ∈ S) : xs.foldl (smooth restart a) s ∈ S := by
  induction xs generalizing s with
  | nil => exact hs
  | cons x xs ih =>
    obtain ⟨hx, hxs⟩ := List.forall_mem_cons.mp hxs
    exact ih (smooth_mem hS ha ha1 hs hx) hxs

/-- It is entered with the first input, from wherever the value is restarted. -/
theorem foldl_smooth_mem_of_restart (hS : Convex K S) (ha : 0 ≤ a) (ha1 : a ≤ 1) {s : E}
    (hs : restart s) {xs : List E} (hne : xs ≠ []) (hxs : ∀ x ∈ xs, x ∈ S) :
    xs.foldl (smooth restart a) s ∈ S := by
  obtain ⟨x, xs, rfl⟩ := List.exists_cons_of_ne_nil hne
  obtain ⟨hx, hxs⟩ := List.forall_mem_cons.mp hxs
  rw [List.foldl_cons, smooth_of_restart hs]
  exact foldl_smooth_mem hS ha ha1 hx hxs

end Convex

section Order

variable {K E : Type*} [Ring K] [PartialOrder K] [IsOrderedRing K]
  [AddCommGroup E] [LinearOrder E] [IsOrderedAddMonoid E] [Module K E] [PosSMulMono K E]
  {restart : E → Prop} [DecidablePred restart] {a : K}

/-- **Between the extremes.**  From a restart on, the value lies between the least and the greatest
input. -/
theorem foldl_smooth_mem_Icc (ha : 0 ≤ a) (ha1 : a ≤ 1) {s lo hi : E} (hs : restart s)
    {xs : List E} (hlo : xs.min? = some lo) (hhi : xs.max? = some hi) :
    xs.foldl (smooth restart a) s ∈ Set.Icc lo hi := by
  have hne : xs ≠ [] := by
    rintro rfl
    cases hlo
  refine foldl_smooth_mem_of_restart (convex_Icc lo hi) ha ha1 hs hne fun x hx ↦ ⟨?_, ?_⟩
  · exact (List.min?_eq_some_iff.mp hlo).2 x hx
  · exact (List.max?_eq_some_iff.mp hhi).2 x hx

end Order

end Smoothing
