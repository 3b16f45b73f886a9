import Mathlib.Data.List.Basic
import Mathlib.Data.List.Count
import Mathlib.Data.List.Induction

/-!
# A repeat filter that remembers one key

Items arrive one after the other, each with a key, and the filter drops an item whose key is the
one it remembers.  Any other item is passed on, and its key takes the place of the remembered one
*before* it is known whether passing it on succeeds.

`last k₀ as` is what the filter remembers after the arrivals `as` when it started from `k₀`, and
`passed k₀ as` lists the keys of the items that were passed on successfully.  What the filter
guarantees, and what it does not, is in three facts:

* `mem_passed_of_drop` — a drop is always of an item passed on before, as long as no item is
  repeated right after being lost and the first item does not carry the key `k₀`;
  `drop_not_passed` says that this condition is needed;
* `count_passed_le_one` — an item is passed on at most once if, once it has been, no other item
  arrives before a repeat of it.
-/

set_option autoImplicit false

namespace OneSlotFilter

variable {κ : Type*} [DecidableEq κ]

/-- One arrival: its key, and whether passing it on would succeed. -/
structure Arrival (κ : Type*) where
  key : κ
  ok : Bool
deriving DecidableEq, Repr

/-- The remembered key.  An arrival either carries it already or replaces it. -/
def last (k₀ : κ) : List (Arrival κ) → κ
  | [] => k₀
  | a :: as => last a.key as

/-- The keys passed on successfully, oldest first. -/
def passed (k₀ : κ) : List (Arrival κ) → List κ
  | [] => []
  | a :: as => (if a.key ≠ k₀ ∧ a.ok then [a.key] else []) ++ passed a.key as

/-- The arrival `a` is dropped when it comes after `as`. -/
def Drops (k₀ : κ) (as : List (Arrival κ)) (a : Arrival κ) : Prop := a.key = last k₀ as

instance (k₀ : κ) (as : List (Arrival κ)) (a : Arrival κ) : Decidable (Drops k₀ as a) :=
  inferInstanceAs (Decidable (a.key = last k₀ as))

omit [DecidableEq κ] in
theorem last_append (k₀ : κ) (as bs : List (Arrival κ)) :
    last k₀ (as ++ bs) = last (last k₀ as) bs := by
  induction as generalizing k₀ with
  | nil => rfl
  | cons a as ih => exact ih a.key

theorem passed_append (k₀ : κ) (as bs : List (Arrival κ)) :
    passed k₀ (as ++ bs) = passed k₀ as ++ passed (last k₀ as) bs := by
  induction as generalizing k₀ with
  | nil => rfl
  | cons a as ih => rw [List.cons_append, passed, passed, ih, last, List.append_assoc]

omit [DecidableEq κ] in
@[simp] theorem last_snoc (k₀ : κ) (as : List (Arrival κ)) (a : Arrival κ) :
    last k₀ (as ++ [a]) = a.key := by
  rw [last_append]
  rfl

theorem passed_snoc (k₀ : κ) (as : List (Arrival κ)) (a : Arrival κ) :
    passed k₀ (as ++ [a]) =
      passed k₀ as ++ if a.key ≠ last k₀ as ∧ a.ok then [a.key] else [] := by
  rw [passed_append, passed, passed, List.append_nil]

/-! ## What a drop says about the past -/

/-- No item is lost and then dropped: the first arrival does not carry the key the filter starts
with, and an arrival that fails to be passed on, without ever having been passed on before, is not
the key of the next arrival. -/
def Sound (k₀ : κ) (as : List (Arrival κ)) : Prop :=
  (∀ a post, as = a :: post → a.key ≠ k₀) ∧
    ∀ pre f a post, as = pre ++ f :: a :: post → f.key ≠ last k₀ pre → f.ok = false →
      f.key ∉ passed k₀ pre → a.key ≠ f.key

/-- Without failures only the first arrival matters. -/
theorem Sound.of_ok {k₀ : κ} {as : List (Arrival κ)} (hok : ∀ a ∈ as, a.ok)
    (hfirst : ∀ a ∈ as.head?, a.key ≠ k₀) : Sound k₀ as := by
  refine ⟨fun a post has ↦ hfirst a (by rw [has]; rfl), fun pre f a post has _ hlost ↦ ?_⟩
  exact absurd (hok f (by simp [has])) (by simp [hlost])

/-- Under `Sound` a dropped item was passed on before. -/
theorem mem_passed_of_drop {k₀ : κ} {as : List (Arrival κ)} (h : Sound k₀ as)
    {pre : List (Arrival κ)} {a : Arrival κ} {post : List (Arrival κ)}
    (has : as = pre ++ a :: post) (hdrop : Drops k₀ pre a) : a.key ∈ passed k₀ pre := by
  -- on the arrivals before `a`, latest first: the remembered key is that of the latest one
  induction pre using List.reverseRecOn generalizing a post with
  | nil => exact absurd hdrop (h.1 a post has)
  | append_singleton pre f ih =>
    have hkey : a.key = f.key := by simpa [Drops] using hdrop
    rw [hkey, passed_snoc, List.mem_append]
    by_cases hlast : f.key = last k₀ pre
    · exact Or.inl (ih (by rw [has, List.append_assoc]; rfl) hlast)
    · by_cases hok : f.ok
      · simp [hlast, hok]
      · by_cases hmem : f.key ∈ passed k₀ pre
        · exact Or.inl hmem
        · exact absurd hkey
            (h.2 pre f a post (by rw [has, List.append_assoc]; rfl) hlast (by simpa using hok) hmem)

/-- Outside `Sound` some dropped item was never passed on. -/
theorem drop_not_passed {k₀ : κ} {as : List (Arrival κ)} (h : ¬ Sound k₀ as) :
    ∃ pre a post, as = pre ++ a :: post ∧ Drops k₀ pre a ∧ a.key ∉ passed k₀ pre := by
  by_contra hnone
  push Not at hnone
  refine h ⟨fun a post has hkey ↦ ?_, fun pre f a post has hfresh hok hmem hkey ↦ ?_⟩
  · have := hnone [] a post has hkey
    simp [passed] at this
  · have hpast := hnone (pre ++ [f]) a post (by rw [has, List.append_assoc]; rfl) (by simpa [Drops])
    rw [passed_snoc, hkey] at hpast
    simp [hok, hmem] at hpast

/-- **What the filter promises of a drop**: it is of an item passed on before, in every run exactly
when no item is lost and then repeated at once. -/
theorem sound_iff {k₀ : κ} {as : List (Arrival κ)} :
    (∀ pre a post, as = pre ++ a :: post → Drops k₀ pre a → a.key ∈ passed k₀ pre) ↔
      Sound k₀ as := by
  refine ⟨fun h ↦ ?_, fun h pre a post has hdrop ↦ mem_passed_of_drop h has hdrop⟩
  by_contra hs
  obtain ⟨pre, a, post, has, hdrop, hmem⟩ := drop_not_passed hs
  exact hmem (h pre a post has hdrop)

/-! ## How often an item is passed on -/

/-- Nothing else arrives before the last arrival of `k`. -/
def Block (k : κ) (as : List (Arrival κ)) : Prop :=
  ∀ mid b post, as = mid ++ b :: post → b.key = k → ∀ c ∈ mid, c.key = k

/-- Once `k` has been passed on, nothing else arrives before a repeat of it. -/
def Undisturbed (k₀ k : κ) (as : List (Arrival κ)) : Prop :=
  ∀ pre a post, as = pre ++ a :: post → a.key = k → a.key ≠ last k₀ pre → a.ok → Block k post

omit [DecidableEq κ] in
theorem Undisturbed.of_forall {k₀ k : κ} {as : List (Arrival κ)} (h : ∀ a ∈ as, a.key = k) :
    Undisturbed k₀ k as := by
  intro pre a post has _ _ _ mid b post' hpost _ c hc
  exact h c (by simp [has, hpost, hc])

omit [DecidableEq κ] in
theorem Block.tail {k : κ} {a : Arrival κ} {as : List (Arrival κ)} (h : Block k (a :: as)) :
    Block k as := by
  intro mid b post has hb c hc
  exact h (a :: mid) b post (by rw [has]; rfl) hb c (List.mem_cons_of_mem a hc)

omit [DecidableEq κ] in
theorem Undisturbed.tail {k₀ k : κ} {a : Arrival κ} {as : List (Arrival κ)}
    (h : Undisturbed k₀ k (a :: as)) : Undisturbed a.key k as := by
  intro pre b post has hb hlast hok
  exact h (a :: pre) b post (by rw [has]; rfl) hb hlast hok

theorem mem_passed {k₀ k : κ} {as : List (Arrival κ)} (h : k ∈ passed k₀ as) :
    ∃ a ∈ as, a.key = k := by
  induction as generalizing k₀ with
  | nil => simp [passed] at h
  | cons a as ih =>
    rw [passed, List.mem_append] at h
    rcases h with h | h
    · split at h
      · exact ⟨a, List.mem_cons_self, (List.mem_singleton.mp h).symm⟩
      · simp at h
    · obtain ⟨b, hb, hk⟩ := ih h
      exact ⟨b, List.mem_cons_of_mem a hb, hk⟩

/-- While the filter remembers `k`, and for as long as nothing but `k` arrives, it passes no `k`
on. -/
theorem notMem_passed_of_block {k : κ} {as : List (Arrival κ)} (h : Block k as) :
    k ∉ passed k as := by
  induction as with
  | nil => simp [passed]
  | cons a as ih =>
    by_cases ha : a.key = k
    · have hnone : (if a.key ≠ k ∧ a.ok then [a.key] else []) = [] := if_neg (by simp [ha])
      rw [passed, hnone, List.nil_append, ha]
      exact ih h.tail
    · -- behind another arrival there is no `k` left
      intro hmem
      obtain ⟨b, hb, hbk⟩ := mem_passed hmem
      rcases List.mem_cons.mp hb with rfl | hb
      · exact ha hbk
      · obtain ⟨mid, post, rfl⟩ := List.append_of_mem hb
        exact ha (h (a :: mid) b post rfl hbk a List.mem_cons_self)

/-- **At most once.**  An item that is not disturbed is passed on at most once. -/
theorem count_passed_le_one [BEq κ] [LawfulBEq κ] {k₀ k : κ} {as : List (Arrival κ)}
    (h : Undisturbed k₀ k as) : (passed k₀ as).count k ≤ 1 := by
  induction as generalizing k₀ with
  | nil => simp [passed]
  | cons a as ih =>
    rw [passed, List.count_append]
    by_cases hpass : a.key = k ∧ a.key ≠ k₀ ∧ a.ok
    · obtain ⟨rfl, hlast, hok⟩ := hpass
      have hnot := notMem_passed_of_block (h [] a as rfl rfl hlast hok)
      rw [List.count_eq_zero_of_not_mem hnot]
      split <;> simp
    · have hhead : (if a.key ≠ k₀ ∧ a.ok then [a.key] else []).count k = 0 := by
        split
        · rename_i hfresh
          exact List.count_eq_zero_of_not_mem fun hk ↦
            hpass ⟨(List.mem_singleton.mp hk).symm, hfresh⟩
        · simp
      rw [hhead, Nat.zero_add]
      exact ih h.tail

end OneSlotFilter
