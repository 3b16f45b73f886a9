import Mathlib.Data.Int.CardIntervalMod

/-!
# Taking turns by a counter

Parties share something by a counter that each of them sees: it is the turn of party `r` when the
counter is `r` modulo `n`.  Two parties never have their turn at once, as a remainder is one number.
`turns` counts the turns of a party while the counter goes through `k` values, and `turns_eq_ite`
says how many they are.
-/

set_option autoImplicit false

namespace Turns

/-- How often it is the turn of `r` while the counter goes from `c` through `k` values. -/
def turns (n r c k : ℕ) : ℕ := Nat.count (fun i ↦ (c + i) % n = r) k

@[simp] theorem turns_zero (n r c : ℕ) : turns n r c 0 = 0 := rfl

theorem count_congr {p q : ℕ → Prop} [DecidablePred p] [DecidablePred q] (h : ∀ i, p i ↔ q i)
    (k : ℕ) : Nat.count p k = Nat.count q k :=
  le_antisymm (Nat.count_mono_left fun i _ ↦ (h i).mp) (Nat.count_mono_left fun i _ ↦ (h i).mpr)

/-- The first value, and the others. -/
theorem turns_succ (n r c k : ℕ) :
    turns n r c (k + 1) = (if c % n = r then 1 else 0) + turns n r (c + 1) k := by
  rw [turns, turns, Nat.count_succ', Nat.add_comm]
  refine congrArg _ (count_congr (fun i ↦ ?_) k)
  rw [Nat.add_right_comm, Nat.add_assoc]

/-- The counter may have gone round, as far as `n` sees. -/
theorem turns_congr {n c d : ℕ} (h : c % n = d % n) (r k : ℕ) : turns n r c k = turns n r d k :=
  count_congr (fun i ↦ by rw [Nat.add_mod, h, ← Nat.add_mod]) k

/-- A number that is no remainder never has its turn. -/
theorem turns_of_le {n r : ℕ} (hn : 0 < n) (hr : n ≤ r) (c k : ℕ) : turns n r c k = 0 := by
  refine Nat.count_iff_forall_not.mpr fun i _ h ↦ ?_
  have hlt := Nat.mod_lt (c + i) hn
  omega

/-- **How many turns.**  One in every round, and one more if it comes in what is left. -/
theorem turns_eq {n r : ℕ} (hr : r < n) (c k : ℕ) :
    turns n r c k = k / n + if (r + n - c % n) % n < k % n then 1 else 0 := by
  have hn : 0 < n := Nat.zero_lt_of_lt hr
  rw [← Nat.count_modEq_card k hn]
  refine count_congr (fun i ↦ ?_) k
  have hc := Nat.mod_lt c hn
  have hround : c % n + (r + n - c % n) = r + n := by omega
  have hsum : (c + i) % n = r ↔ c % n + i ≡ c % n + (r + n - c % n) [MOD n] := by
    rw [hround, Nat.ModEq, Nat.add_mod_right, Nat.mod_eq_of_lt hr, Nat.mod_add_mod]
  rw [hsum]
  exact ⟨Nat.ModEq.add_left_cancel' _, Nat.ModEq.add_left _⟩

/-- The same for every number. -/
theorem turns_eq_ite {n : ℕ} (hn : 0 < n) (r c k : ℕ) :
    turns n r c k =
      if n ≤ r then 0 else k / n + if (r + n - c % n) % n < k % n then 1 else 0 := by
  split
  · rename_i hle
    exact turns_of_le hn hle c k
  · rename_i hlt
    exact turns_eq (Nat.not_le.mp hlt) c k

end Turns
