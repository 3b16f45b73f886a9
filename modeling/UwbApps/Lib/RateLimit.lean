import UwbApps.Lib.Run
import Mathlib.Algebra.Order.Ring.Nat

/-!
# A rate limit on a counter that wraps

A call is taken when the counter has moved by more than `period` since the last one that was.  The
counter has `w` bits and wraps, and it is read twice: for the test, and again for the value that is
kept.

`spaced_taken` says that the limit is kept over any list of calls, also where the counter wraps
while none is taken: two calls that are taken are more than `period` apart.  The converse needs
calls that come often enough: `taken_eq_takenByClock` compares the limit with one on a clock that
does not wrap.  `gather_taken` finds the limit in a system that has one.
-/

set_option autoImplicit false

namespace RateLimit

open Run

variable {w : ℕ}

/-- A call, with the times at which it reads the counter for the test and to keep it. -/
structure Call where
  check : ℕ
  store : ℕ
  check_le : check ≤ store

/-- What the counter shows at a time. -/
def counter (w t : ℕ) : BitVec w := BitVec.ofNat w t

/-- The test of a call. -/
def due (period last now : BitVec w) : Bool := decide (period < now - last)

/-- The value that is kept after a call. -/
def keep (period last : BitVec w) (c : Call) : BitVec w :=
  if due period last (counter w c.check) then counter w c.store else last

/-- The calls that are taken. -/
def taken (period : BitVec w) : BitVec w → List Call → List Call
  | _, [] => []
  | last, c :: cs =>
    if due period last (counter w c.check) then c :: taken period (counter w c.store) cs
    else taken period last cs

/-- The calls that a clock that does not wrap would take. -/
def takenByClock (period : ℕ) : ℕ → List Call → List Call
  | _, [] => []
  | last, c :: cs =>
    if last + period < c.check then c :: takenByClock period c.store cs
    else takenByClock period last cs

/-- The calls are made one after the other, from the time `t` on. -/
def InOrder : ℕ → List Call → Prop
  | _, [] => True
  | t, c :: cs => t ≤ c.check ∧ InOrder c.store cs

/-- A call comes at most `gap` after the one before. -/
def Within (gap : ℕ) : ℕ → List Call → Prop
  | _, [] => True
  | t, c :: cs => c.check ≤ t + gap ∧ Within gap c.check cs

/-- Each call comes more than `period` after the value the one before it has kept. -/
def Spaced (period : ℕ) : ℕ → List Call → Prop
  | _, [] => True
  | t, c :: cs => t + period < c.check ∧ Spaced period c.store cs

/-! ## The test -/

theorem toNat_counter_sub {last now : ℕ} (h : last ≤ now) :
    (counter w now - counter w last).toNat = (now - last) % 2 ^ w := by
  obtain ⟨d, rfl⟩ := Nat.exists_eq_add_of_le h
  have hsum : counter w (last + d) = counter w last + BitVec.ofNat w d := BitVec.ofNat_add _ _
  have hcancel : counter w last + BitVec.ofNat w d - counter w last = BitVec.ofNat w d := by
    rw [BitVec.add_comm, BitVec.add_sub_cancel]
  rw [hsum, hcancel, Nat.add_sub_cancel_left, BitVec.toNat_ofNat]

/-- A call that passes the test is late enough, however often the counter has wrapped. -/
theorem lt_of_due {period : BitVec w} {last now : ℕ} (h : last ≤ now)
    (hdue : due period (counter w last) (counter w now) = true) : last + period.toNat < now := by
  have hlt := BitVec.lt_def.mp (of_decide_eq_true hdue)
  rw [toNat_counter_sub h] at hlt
  have hmod := Nat.mod_le (now - last) (2 ^ w)
  omega

/-- Within one round of the counter the test is exact. -/
theorem due_iff {period : BitVec w} {last now : ℕ} (h : last ≤ now) (hnow : now < last + 2 ^ w) :
    due period (counter w last) (counter w now) = true ↔ last + period.toNat < now := by
  rw [due, decide_eq_true_iff, BitVec.lt_def, toNat_counter_sub h,
    Nat.mod_eq_of_lt (by omega)]
  omega

/-! ## The calls that are taken -/

theorem InOrder.mono {t t' : ℕ} (htt : t' ≤ t) {cs : List Call} (h : InOrder t cs) :
    InOrder t' cs := by
  rcases cs with _ | ⟨c, cs⟩
  · trivial
  · exact ⟨htt.trans h.1, h.2⟩

/-- Some of the calls. -/
theorem InOrder.sublist {t : ℕ} {cs ds : List Call} (h : InOrder t cs) (hsub : ds.Sublist cs) :
    InOrder t ds := by
  induction hsub generalizing t with
  | slnil => exact h
  | cons c _ ih => exact (ih h.2).mono (h.1.trans c.check_le)
  | cons_cons c _ ih => exact ⟨h.1, ih h.2⟩

/-- **The limit is kept.** -/
theorem spaced_taken (period : BitVec w) {t : ℕ} {cs : List Call} (h : InOrder t cs) :
    Spaced period.toNat t (taken period (counter w t) cs) := by
  induction cs generalizing t with
  | nil => trivial
  | cons c cs ih =>
    obtain ⟨hc, hcs⟩ := h
    rw [taken]
    split
    · rename_i hdue
      exact ⟨lt_of_due hc hdue, ih hcs⟩
    · exact ih (hcs.mono (hc.trans c.check_le))

theorem taken_sublist (period last : BitVec w) (cs : List Call) :
    (taken period last cs).Sublist cs := by
  induction cs generalizing last with
  | nil => exact List.Sublist.slnil
  | cons c cs ih =>
    rw [taken]
    split
    · exact (ih _).cons_cons c
    · exact (ih _).cons c

/-- **And no call is refused that a clock would take**, if the calls come often enough for the
counter not to go round between two of them.  `t` is the time of the call before. -/
theorem taken_eq_takenByClock {period : BitVec w} {gap : ℕ} (hgap : period.toNat + gap < 2 ^ w)
    {last t : ℕ} (ht : t ≤ last + period.toNat) {cs : List Call} (horder : InOrder last cs)
    (hwithin : Within gap t cs) :
    taken period (counter w last) cs = takenByClock period.toNat last cs := by
  induction cs generalizing last t with
  | nil => rfl
  | cons c cs ih =>
    obtain ⟨hc, horder⟩ := horder
    obtain ⟨hnear, hwithin⟩ := hwithin
    have hiff := @due_iff _ period _ _ hc (by omega)
    rw [taken, takenByClock]
    by_cases hdue : last + period.toNat < c.check
    · rw [if_pos (hiff.mpr hdue), if_pos hdue, ih (le_add_right c.check_le) horder hwithin]
    · rw [if_neg (hdue ∘ hiff.mp), if_neg hdue]
      exact ih (Nat.not_lt.mp hdue) (horder.mono (hc.trans c.check_le)) hwithin

/-! ## How many they are -/

theorem Spaced.of_append {period t : ℕ} {cs ds : List Call} (h : Spaced period t (cs ++ ds)) :
    ∃ t', Spaced period t' ds := by
  induction cs generalizing t with
  | nil => exact ⟨t, h⟩
  | cons c cs ih => exact ih h.2

theorem Spaced.add_mul_length_le {period t last : ℕ} {cs : List Call} (h : Spaced period t cs)
    (ht : t ≤ last) (hlast : ∀ c ∈ cs, c.check ≤ last) :
    t + cs.length * (period + 1) ≤ last := by
  induction cs generalizing t with
  | nil => simpa using ht
  | cons c cs ih =>
    obtain ⟨hc, hcs⟩ := h
    have hle : c.check ≤ last := hlast c List.mem_cons_self
    rcases cs with _ | ⟨d, ds⟩
    · simp only [List.length_singleton]
      omega
    · -- the value that is kept is no later than the next call
      have hd : c.store + period < d.check := hcs.1
      have hdle : d.check ≤ last := hlast d (by simp)
      have hrest := ih hcs (by omega) fun e he ↦ hlast e (List.mem_cons_of_mem _ he)
      have hcheck := c.check_le
      rw [List.length_cons, Nat.add_mul, Nat.one_mul]
      omega

/-- **How many calls are taken** in a stretch of time: one, and one for each `period + 1`. -/
theorem Spaced.length_le {period t first span : ℕ} {cs : List Call} (h : Spaced period t cs)
    (hfirst : ∀ c ∈ cs, first ≤ c.check) (hlast : ∀ c ∈ cs, c.check ≤ first + span) :
    cs.length ≤ span / (period + 1) + 1 := by
  rcases cs with _ | ⟨c, cs⟩
  · exact Nat.zero_le _
  · have hc : c.check ≤ first + span := hlast c List.mem_cons_self
    have hle : first ≤ c.check := hfirst c List.mem_cons_self
    have hmul : cs.length * (period + 1) ≤ span := by
      rcases cs with _ | ⟨d, ds⟩
      · simp
      · have hd : c.store + period < d.check := h.2.1
        have hdle : d.check ≤ first + span := hlast d (by simp)
        have hcount := h.2.add_mul_length_le (by omega) fun e he ↦
          hlast e (List.mem_cons_of_mem _ he)
        have hcheck := c.check_le
        omega
    rw [List.length_cons, Nat.add_le_add_iff_right]
    exact (Nat.le_div_iff_mul_le period.succ_pos).mpr hmul

/-! ## In a system -/

section

variable {σ ε : Type*} {step : σ → ε → Option σ}

/-- The call an event makes, if it is taken. -/
def takenAt (period : BitVec w) (last : σ → BitVec w) (call : ε → Option Call) (s : σ) (e : ε) :
    List Call :=
  (call e).toList.filter fun c ↦ due period (last s) (counter w c.check)

/-- **A limit in a system.**  If the system keeps its value as the limit does, the calls it takes
along a run are those the limit takes. -/
theorem gather_taken {period : BitVec w} {last : σ → BitVec w} {call : ε → Option Call}
    (hstep : ∀ s e t, step s e = some t →
      last t = (call e).elim (last s) (keep period (last s)))
    {s t : σ} {es : List ε} (hrun : run step s es = some t) :
    gather step (takenAt period last call) s es = taken period (last s) (es.filterMap call) := by
  induction es generalizing s with
  | nil => rfl
  | cons e es ih =>
    obtain ⟨s', hs, hrun⟩ := run_cons_eq_some.mp hrun
    rw [gather, hs, Option.elim_some, ih hrun, hstep s e s' hs, takenAt]
    rcases hcall : call e with _ | c
    · rw [List.filterMap_cons_none hcall]
      rfl
    · rw [List.filterMap_cons_some hcall, taken, Option.elim_some, keep]
      split
      · rename_i hdue
        simp [hdue]
      · rename_i hdue
        simp [hdue]

/-- **A rate.**  If an observer sees no more at a step than calls are taken, but for a credit, then
in a stretch of time it sees one thing for each `period + 1`, one more, and the credit. -/
theorem length_gather_le {α : Type*} {period : BitVec w} {last : σ → BitVec w}
    {call : ε → Option Call} {C : σ → ε → Prop} {obs : σ → ε → List α} {credit : σ → ℕ}
    (hstep : ∀ s e t, step s e = some t →
      last t = (call e).elim (last s) (keep period (last s)))
    (hcredit : ∀ s e t, C s e → step s e = some t →
      (obs s e).length + credit t ≤ (takenAt period last call s e).length + credit s)
    {s₀ s t : σ} {before es : List ε} (hstart : last s₀ = counter w 0)
    (hbefore : run step s₀ before = some s) (hrun : run step s es = some t)
    (horder : InOrder 0 ((before ++ es).filterMap call)) (hC : Each step C s es) {first span : ℕ}
    (hwindow : ∀ c ∈ es.filterMap call, first ≤ c.check ∧ c.check ≤ first + span) :
    (gather step obs s es).length ≤ span / (period.toNat + 1) + 1 + credit s := by
  have hall : run step s₀ (before ++ es) = some t := by
    rw [run_append, hbefore, Option.bind_some, hrun]
  have hspaced := spaced_taken period horder
  rw [← hstart, ← gather_taken hstep hall, gather_append hbefore, gather_taken hstep hrun]
    at hspaced
  obtain ⟨t₀, hspaced⟩ := hspaced.of_append
  have hmem : ∀ c ∈ taken period (last s) (es.filterMap call), c ∈ es.filterMap call :=
    fun c hc ↦ (taken_sublist _ _ _).subset hc
  have hcount := hspaced.length_le (fun c hc ↦ (hwindow c (hmem c hc)).1)
    fun c hc ↦ (hwindow c (hmem c hc)).2
  have hseen := hC.length_gather_le hcredit hrun
  rw [gather_taken hstep hrun] at hseen
  omega

end

end RateLimit
