import UwbApps.Lib.Run
import Mathlib.Data.Fintype.Defs
import Mathlib.Logic.Function.Basic

/-!
# A configuration that is applied now or later

A configuration has parts `ι`; `config` is the committed copy and `radio` what each part was when
it was last applied.  Two callbacks move parts from one to the other, a step at a time and in any
interleaving:

* the update callback follows a commit.  By the state `E` of the environment it either applies
  every part at once or sets the flag `updated` and leaves the rest to the other callback;
* the slot callback applies the parts on its list if it finds the flag set, and clears the flag
  last.

`settled_iff` says when nothing is lost: the two copies agree whenever the flag is clear and
neither callback is under way, exactly if the slot callback never clears the flag over a part that
has changed since it was applied.
-/

set_option autoImplicit false

open Run

namespace Deferred

variable {ι E : Type*} {α : ι → Type*}

/-- What the two callbacks of an application do about its configuration. -/
structure App (ι E : Type*) where
  /-- The update callback applies the configuration itself. -/
  atOnce : E → Bool
  /-- The parts it then applies, in order. -/
  now : List ι
  /-- The slot callback gets as far as the flag. -/
  reaches : E → Bool
  /-- The parts it applies when the flag is set, in order. -/
  slot : List ι
  mem_now : ∀ i, i ∈ now

/-- How far the update callback of the commit under way has got. -/
inductive Commit (ι : Type*)
  | idle
  | written
  | applying (rest : List ι)
  | deferring
deriving DecidableEq

/-- How far the slot callback has got. -/
inductive Slot (ι : Type*)
  | idle
  | entered
  | applying (rest : List ι)
deriving DecidableEq

structure State (α : ι → Type*) (E : Type*) where
  config : ∀ i, α i
  radio : ∀ i, α i
  updated : Bool
  env : E
  commit : Commit ι
  slot : Slot ι

/-- What can happen next. -/
inductive Event (α : ι → Type*) (E : Type*)
  /-- The environment changes. -/
  | env (e : E)
  /-- A commit writes a new configuration. -/
  | write (config : ∀ i, α i)
  /-- The update callback takes a step. -/
  | commitStep
  /-- The slot callback is called, or takes a step. -/
  | slotStep

/-- Part `i` is applied: the radio has what is committed now. -/
def State.apply [DecidableEq ι] (s : State α E) (i : ι) : State α E :=
  { s with radio := Function.update s.radio i (s.config i) }

/-- A step of the update callback. -/
def commitStep [DecidableEq ι] (app : App ι E) (s : State α E) : Option (State α E) :=
  match s.commit with
  | .idle => none
  | .written => some { s with commit := if app.atOnce s.env then .applying app.now else .deferring }
  | .applying [] => some { s with commit := .idle }
  | .applying (i :: rest) => some { s.apply i with commit := .applying rest }
  | .deferring => some { s with updated := true, commit := .idle }

/-- A step of the slot callback. -/
def slotStep [DecidableEq ι] (app : App ι E) (s : State α E) : State α E :=
  match s.slot with
  | .idle => { s with slot := if app.reaches s.env then .entered else .idle }
  | .entered => { s with slot := if s.updated then .applying app.slot else .idle }
  | .applying [] => { s with updated := false, slot := .idle }
  | .applying (i :: rest) => { s.apply i with slot := .applying rest }

def step [DecidableEq ι] (app : App ι E) (s : State α E) : Event α E → Option (State α E)
  | .env env => some { s with env }
  | .write config => if s.commit = .idle then some { s with config, commit := .written } else none
  | .commitStep => commitStep app s
  | .slotStep => some (slotStep app s)

/-- The state after start-up: what is committed has been applied. -/
def boot (config : ∀ i, α i) (env : E) : State α E :=
  ⟨config, config, false, env, .idle, .idle⟩

/-- The flag is clear and neither callback is under way. -/
def State.Quiet (s : State α E) : Prop := s.updated = false ∧ s.commit = .idle ∧ s.slot = .idle

/-- The update callback of the commit under way will still apply part `i` or set the flag. -/
def Commit.Covers (i : ι) : Commit ι → Prop
  | .idle => False
  | .written | .deferring => True
  | .applying rest => i ∈ rest

/-- Part `i` is as committed on the radio, or the commit under way will see to it. -/
def State.Settled (s : State α E) (i : ι) : Prop := s.radio i = s.config i ∨ s.commit.Covers i

/-- The slot callback is about to clear the flag over a part that has changed since it was
applied, with no commit under way that would see to it. -/
def ClearsOver (s : State α E) : Event α E → Prop
  | .slotStep => s.slot = .applying [] ∧ ∃ i, ¬ s.Settled i
  | _ => False

instance [DecidableEq ι] (i : ι) : (c : Commit ι) → Decidable (c.Covers i)
  | .idle => isFalse id
  | .written | .deferring => isTrue trivial
  | .applying _ => inferInstanceAs (Decidable (_ ∈ _))

instance [DecidableEq ι] [∀ i, DecidableEq (α i)] (s : State α E) (i : ι) :
    Decidable (s.Settled i) :=
  inferInstanceAs (Decidable (_ ∨ _))

instance [DecidableEq ι] [Fintype ι] [∀ i, DecidableEq (α i)] (s : State α E) :
    (e : Event α E) → Decidable (ClearsOver s e)
  | .slotStep => inferInstanceAs (Decidable (_ ∧ _))
  | .env _ | .write _ | .commitStep => isFalse id

/-! ## The invariant -/

/-- What holds of every reachable state: a part the update callback has already applied is as
committed. -/
def Applied (s : State α E) : Prop := ∀ rest, s.commit = .applying rest → ∀ i, s.Settled i

/-- Nothing is lost: the flag is set, or every part is settled. -/
def Kept (s : State α E) : Prop := s.updated = true ∨ ∀ i, s.Settled i

/-- A quiet state where nothing is lost has applied what is committed. -/
theorem Kept.radio_eq {s : State α E} (h : Kept s) (hquiet : s.Quiet) : s.radio = s.config := by
  obtain ⟨hflag, hcommit, -⟩ := hquiet
  funext i
  rcases h with hset | hall
  · simp [hflag] at hset
  · refine (hall i).resolve_right fun hcov ↦ ?_
    rw [hcommit] at hcov
    exact hcov

variable [DecidableEq ι]

@[simp] theorem config_apply (s : State α E) (i : ι) : (s.apply i).config = s.config := rfl

@[simp] theorem commit_apply (s : State α E) (i : ι) : (s.apply i).commit = s.commit := rfl

@[simp] theorem updated_apply (s : State α E) (i : ι) : (s.apply i).updated = s.updated := rfl

/-- After part `i` is applied, it is as committed, and the others are as they were. -/
theorem radio_apply_eq_or (s : State α E) (i j : ι) :
    (s.apply i).radio j = s.config j ∨ j ≠ i ∧ (s.apply i).radio j = s.radio j := by
  by_cases h : j = i
  · subst h
    exact Or.inl (Function.update_self ..)
  · exact Or.inr ⟨h, Function.update_of_ne h ..⟩

theorem State.Settled.apply {s : State α E} {j : ι} (h : s.Settled j) (i : ι) :
    (s.apply i).Settled j := by
  rcases radio_apply_eq_or s i j with heq | ⟨-, heq⟩
  · exact Or.inl heq
  · rw [State.Settled, heq]
    exact h

/-- The update callback applies part `i`: what was settled still is. -/
theorem settled_applying {s : State α E} {i j : ι} {rest : List ι}
    (hcommit : s.commit = .applying (i :: rest)) (h : s.Settled j) :
    State.Settled { s.apply i with commit := .applying rest } j := by
  rcases radio_apply_eq_or s i j with heq | ⟨hne, heq⟩
  · exact Or.inl heq
  · rcases h with hsame | hcov
    · exact Or.inl (heq.trans hsame)
    · rw [hcommit] at hcov
      exact Or.inr ((List.mem_cons.mp hcov).resolve_left hne)

theorem applied_step {app : App ι E} {s t : State α E} {e : Event α E} (h : Applied s)
    (hstep : step app s e = some t) : Applied t := by
  intro rest hrest i
  cases e with
  | env env =>
    cases hstep
    exact h rest hrest i
  | write config =>
    rw [step] at hstep
    split at hstep <;> cases hstep
    cases hrest
  | commitStep =>
    rw [step, commitStep] at hstep
    split at hstep <;> cases hstep
    · by_cases hnow : app.atOnce s.env
      · simp only [hnow, if_true, Commit.applying.injEq] at hrest
        refine Or.inr ?_
        simp only [hnow, if_true, Commit.Covers]
        exact app.mem_now i
      · simp [hnow] at hrest
    · cases hrest
    · next j rest' hcommit => exact settled_applying hcommit (h _ hcommit i)
    · cases hrest
  | slotStep =>
    cases hstep
    rw [slotStep] at hrest ⊢
    split <;> rename_i hslot <;> rw [hslot] at hrest
    · exact h rest hrest i
    · exact h rest hrest i
    · exact h rest hrest i
    · exact (h rest hrest i).apply _

/-- **One step** keeps everything, unless it clears the flag over a change. -/
theorem kept_step_iff {app : App ι E} {s t : State α E} {e : Event α E} (ha : Applied s)
    (h : Kept s) (hstep : step app s e = some t) : Kept t ↔ ¬ ClearsOver s e := by
  cases e with
  | env env =>
    cases hstep
    exact iff_of_true h id
  | write config =>
    rw [step] at hstep
    split at hstep <;> cases hstep
    exact iff_of_true (Or.inr fun i ↦ Or.inr trivial) id
  | commitStep =>
    refine iff_of_true ?_ id
    rw [step, commitStep] at hstep
    split at hstep <;> cases hstep
    · refine Or.inr fun i ↦ Or.inr ?_
      by_cases hnow : app.atOnce s.env
      · simp only [hnow, if_true, Commit.Covers]
        exact app.mem_now i
      · simp only [hnow, Bool.false_eq_true, if_false, Commit.Covers]
    · next hcommit =>
        -- the list has run out, so every part was settled by being applied
        refine Or.inr fun i ↦ ?_
        rcases ha _ hcommit i with hsame | hcov
        · exact Or.inl hsame
        · rw [hcommit] at hcov
          cases hcov
    · next j rest hcommit => exact h.imp id fun hall i ↦ settled_applying hcommit (hall i)
    · exact Or.inl rfl
  | slotStep =>
    cases hstep
    rw [slotStep]
    split
    · next hslot => exact iff_of_true h (by simp [ClearsOver, hslot])
    · next hslot => exact iff_of_true h (by simp [ClearsOver, hslot])
    · next hslot =>
        have hkept : Kept { s with updated := false, slot := .idle } ↔ ∀ i, s.Settled i := by
          simp only [Kept, Bool.false_eq_true, false_or, State.Settled]
        rw [hkept, ClearsOver, not_and, not_exists]
        exact ⟨fun hall _ i hnot ↦ hnot (hall i), fun hno i ↦ not_not.mp (hno hslot i)⟩
    · next i rest hslot =>
        refine iff_of_true (h.imp id fun hall j ↦ (hall j).apply i) ?_
        simp [ClearsOver, hslot]

/-- Clearing the flag over a change leaves a quiet state that has not applied what is committed. -/
theorem lost_of_clearsOver {app : App ι E} {s t : State α E} {e : Event α E} (ha : Applied s)
    (hover : ClearsOver s e) (hstep : step app s e = some t) : t.Quiet ∧ t.radio ≠ t.config := by
  cases e with
  | slotStep =>
    obtain ⟨hslot, i, hlost⟩ := hover
    cases hstep
    simp only [slotStep, hslot]
    obtain ⟨hne, hcov⟩ := not_or.mp hlost
    refine ⟨⟨rfl, ?_, rfl⟩, fun heq ↦ hne (congrFun heq i)⟩
    -- any other place of the update callback covers the part
    cases hcommit : s.commit with
    | idle => rfl
    | written | deferring => simp [hcommit, Commit.Covers] at hcov
    | applying rest => exact absurd (ha rest hcommit i) hlost
  | env | write | commitStep => cases hover

/-- **When no commit is lost.**  Along a run from start-up, every quiet state has applied what is
committed, exactly if the slot callback never clears the flag over a change. -/
theorem settled_iff {app : App ι E} {config : ∀ i, α i} {env : E} {es : List (Event α E)}
    {s : State α E} (hrun : run (step app) (boot config env) es = some s) :
    (∀ pre post t, es = pre ++ post → run (step app) (boot config env) pre = some t → t.Quiet →
        t.radio = t.config) ↔
      Each (step app) (fun s e ↦ ¬ ClearsOver s e) (boot config env) es := by
  have happlied : ∀ pre t, run (step app) (boot config env) pre = some t → Applied t := by
    intro pre t hpre
    refine run_invariant (fun s e t ↦ applied_step) ?_ hpre
    intro rest hrest
    cases hrest
  constructor
  · intro hall
    refine each_of_splits fun pre e post t hsplit hpre hover ↦ ?_
    obtain ⟨t₁, t₂, ht₁, he, -⟩ := run_split (hsplit ▸ hrun)
    obtain rfl : t₁ = t := Option.some.inj (ht₁.symm.trans hpre)
    obtain ⟨hquiet, hne⟩ := lost_of_clearsOver (happlied pre t₁ hpre) hover he
    refine hne (hall (pre ++ [e]) post t₂ ?_ (run_snoc.mpr ⟨t₁, hpre, he⟩) hquiet)
    rw [hsplit, List.append_assoc, List.singleton_append]
  · intro hC pre post t hsplit hpre hquiet
    have hpreC := ((hsplit ▸ hC : Each (step app) _ _ (pre ++ post)).append hpre).1
    have hkept : Applied t ∧ Kept t := by
      refine hpreC.invariant (P := fun s ↦ Applied s ∧ Kept s) ?_ ⟨?_, ?_⟩ hpre
      · exact fun s e t hs hc hst ↦
          ⟨applied_step hs.1 hst, (kept_step_iff hs.1 hs.2 hst).mpr hc⟩
      · intro rest hrest
        cases hrest
      · exact Or.inr fun i ↦ Or.inl rfl
    exact hkept.2.radio_eq hquiet

end Deferred
