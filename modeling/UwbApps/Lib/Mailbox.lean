import Mathlib.Data.List.DropRight
import Mathlib.Data.List.ReduceOption

/-!
# A reader behind a bounded queue

A writer that must not wait puts what it has into a queue only while there is room, and a reader
keeps the last `n` of what it has taken and may start again at any time.  `offer` is the one, and
`keep` what the other does with one more.

`recent` is what the reader should have, told from everything that has happened: the last `n` of
what was taken since it last started again.  `keep_recent` says that it has.
-/

set_option autoImplicit false

namespace Mailbox

variable {α : Type*}

/-- Put `x` into the queue while fewer than `cap` are in it. -/
def offer (cap : ℕ) (q : List α) (x : α) : List α := if q.length < cap then q ++ [x] else q

theorem length_offer_le {cap : ℕ} {q : List α} (h : q.length ≤ cap) (x : α) :
    (offer cap q x).length ≤ cap := by
  rw [offer]
  split
  · rw [List.length_append, List.length_singleton]
    omega
  · exact h

/-- One more, and no more than `n` in all. -/
def keep (n : ℕ) (history : List α) (x : α) : List α :=
  if n < (history ++ [x]).length then (history ++ [x]).rtake n else history ++ [x]

theorem rtake_of_length_le {n : ℕ} {l : List α} (h : l.length ≤ n) : l.rtake n = l := by
  rw [List.rtake, Nat.sub_eq_zero_of_le h, List.drop_zero]

theorem keep_eq (n : ℕ) (history : List α) (x : α) :
    keep n history x = (history ++ [x]).rtake n := by
  rw [keep]
  split
  · rfl
  · exact (rtake_of_length_le (by omega)).symm

theorem mem_keep {n : ℕ} {history : List α} {x y : α} (h : y ∈ keep n history x) :
    y ∈ history ∨ y = x := by
  rw [keep_eq] at h
  simpa using List.mem_of_mem_drop h

/-- What is forgotten stays so: the last `n` of all are the last `n` of the last `n` and the new. -/
theorem rtake_append_rtake (n : ℕ) (l : List α) (x : α) :
    (l.rtake n ++ [x]).rtake n = (l ++ [x]).rtake n := by
  cases n with
  | zero => simp
  | succ n =>
    rw [List.rtake_concat_succ, List.rtake_concat_succ, List.rtake, List.rtake, List.rtake,
      List.drop_drop, List.length_drop]
    congr 2
    omega

/-- What is left of a log, in which `none` is where the reader starts again. -/
def since (log : List (Option α)) : List α := (log.rtakeWhile Option.isSome).reduceOption

/-- The last `n` of it. -/
def recent (n : ℕ) (log : List (Option α)) : List α := (since log).rtake n

theorem since_some (log : List (Option α)) (x : α) :
    since (log ++ [some x]) = since log ++ [x] := by
  rw [since, List.rtakeWhile_concat_pos _ _ _ rfl, List.reduceOption_append]
  rfl

@[simp] theorem since_none (log : List (Option α)) : since (log ++ [none]) = [] := by
  rw [since, List.rtakeWhile_concat_neg _ _ _ Bool.false_ne_true]
  rfl

@[simp] theorem recent_nil (n : ℕ) : recent n ([] : List (Option α)) = [] := by
  rw [recent, since, List.rtakeWhile_nil, List.reduceOption_nil, List.rtake_nil]

@[simp] theorem recent_none (n : ℕ) (log : List (Option α)) : recent n (log ++ [none]) = [] := by
  rw [recent, since_none, List.rtake_nil]

/-- **The reader has what it should have.** -/
theorem keep_recent (n : ℕ) (log : List (Option α)) (x : α) :
    keep n (recent n log) x = recent n (log ++ [some x]) := by
  rw [keep_eq, recent, rtake_append_rtake, recent, since_some]

/-- What is left is the end of all that was ever taken. -/
theorem since_suffix (log : List (Option α)) : since log <:+ log.reduceOption := by
  obtain ⟨before, hlog⟩ := List.rtakeWhile_suffix Option.isSome log
  refine ⟨before.reduceOption, ?_⟩
  rw [since, ← List.reduceOption_append, hlog]

theorem recent_suffix (n : ℕ) (log : List (Option α)) : recent n log <:+ log.reduceOption :=
  (List.drop_suffix _ _).trans (since_suffix log)

end Mailbox
