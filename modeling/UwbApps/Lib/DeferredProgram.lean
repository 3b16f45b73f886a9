import UwbApps.Lib.Deferred

/-!
# Where the flag is cleared

In `Deferred` the slot callback clears the flag behind the parts it applies.  Here it runs a
program of applies and clears, one operation a step; `Prog.ofApp` is the callback of `Deferred`,
and `step_ofApp` says that the two machines take the same steps.

`settled_iff_clearsFirst` says which programs lose nothing: those with every part applied behind
every clear.  A commit that comes before a clear is then still to be applied, and one that comes
after it finds the flag clear and sets it again.  Behind a clear without one of the parts, a commit
of that part is lost (`lost_of_not_clearsFirst`).
-/

set_option autoImplicit false

open Run

namespace Deferred

/-- An operation of the slot callback, once it has found the flag set. -/
inductive Op (ι : Type*)
  | apply (i : ι)
  | clear
deriving DecidableEq

/-- An application whose slot callback runs a program. -/
structure Prog (ι E : Type*) where
  /-- The update callback applies the configuration itself. -/
  atOnce : E → Bool
  /-- The parts it then applies, in order. -/
  now : List ι
  /-- The slot callback gets as far as the flag. -/
  reaches : E → Bool
  /-- What it does when the flag is set, in order. -/
  slot : List (Op ι)
  mem_now : ∀ i, i ∈ now

/-- How far the slot callback has got. -/
inductive At (ι : Type*)
  | idle
  | entered
  | running (op : Op ι) (rest : List (Op ι))
deriving DecidableEq

/-- The place in front of these operations. -/
def At.before {ι : Type*} : List (Op ι) → At ι
  | [] => .idle
  | op :: rest => .running op rest

/-- The operations that are still to come. -/
def At.rest {ι : Type*} : At ι → List (Op ι)
  | .running op rest => op :: rest
  | _ => []

structure PState {ι : Type*} (α : ι → Type*) (E : Type*) where
  config : ∀ i, α i
  radio : ∀ i, α i
  updated : Bool
  env : E
  commit : Commit ι
  slot : At ι

/-- Every part is applied behind every clear. -/
def ClearsFirst {ι : Type*} : List (Op ι) → Prop
  | [] => True
  | .apply _ :: rest => ClearsFirst rest
  | .clear :: rest => (∀ i, Op.apply i ∈ rest) ∧ ClearsFirst rest

variable {ι E : Type*} {α : ι → Type*}

section Machine

variable [DecidableEq ι]

/-- An operation takes effect. -/
def PState.exec (s : PState α E) : Op ι → PState α E
  | .apply i => { s with radio := Function.update s.radio i (s.config i) }
  | .clear => { s with updated := false }

/-- A step of the update callback. -/
def pcommitStep (p : Prog ι E) (s : PState α E) : Option (PState α E) :=
  match s.commit with
  | .idle => none
  | .written => some { s with commit := if p.atOnce s.env then .applying p.now else .deferring }
  | .applying [] => some { s with commit := .idle }
  | .applying (i :: rest) => some { s.exec (.apply i) with commit := .applying rest }
  | .deferring => some { s with updated := true, commit := .idle }

/-- A step of the slot callback. -/
def pslotStep (p : Prog ι E) (s : PState α E) : PState α E :=
  match s.slot with
  | .idle => { s with slot := if p.reaches s.env then .entered else .idle }
  | .entered => { s with slot := if s.updated then .before p.slot else .idle }
  | .running op rest => { s.exec op with slot := .before rest }

def pstep (p : Prog ι E) (s : PState α E) : Event α E → Option (PState α E)
  | .env env => some { s with env }
  | .write config => if s.commit = .idle then some { s with config, commit := .written } else none
  | .commitStep => pcommitStep p s
  | .slotStep => some (pslotStep p s)

end Machine

/-- The state after start-up: what is committed has been applied. -/
def pboot (config : ∀ i, α i) (env : E) : PState α E :=
  ⟨config, config, false, env, .idle, .idle⟩

/-- The flag is clear and neither callback is under way. -/
def PState.Quiet (s : PState α E) : Prop := s.updated = false ∧ s.commit = .idle ∧ s.slot = .idle

/-! ## The callback that clears the flag last -/

/-- The application as a program. -/
def Prog.ofApp (app : App ι E) : Prog ι E where
  atOnce := app.atOnce
  now := app.now
  reaches := app.reaches
  slot := app.slot.map Op.apply ++ [.clear]
  mem_now := app.mem_now

/-- The place of the slot callback. -/
def Slot.toAt : Slot ι → At ι
  | .idle => .idle
  | .entered => .entered
  | .applying rest => .before (rest.map Op.apply ++ [.clear])

def State.toPState (s : State α E) : PState α E :=
  ⟨s.config, s.radio, s.updated, s.env, s.commit, s.slot.toAt⟩

/-- **The machines take the same steps.** -/
theorem step_ofApp [DecidableEq ι] (app : App ι E) (s : State α E) (e : Event α E) :
    pstep (Prog.ofApp app) s.toPState e = (step app s e).map State.toPState := by
  cases e with
  | env env => rfl
  | write config =>
    by_cases hidle : s.commit = .idle
    · simp [pstep, step, State.toPState, hidle]
    · simp [pstep, step, State.toPState, hidle]
  | commitStep =>
    rcases s with ⟨config, radio, updated, env, commit, slot⟩
    rcases commit with _ | _ | (_ | ⟨i, rest⟩) | _
    · rfl
    · rfl
    · rfl
    · rfl
    · rfl
  | slotStep =>
    rcases s with ⟨config, radio, updated, env, commit, slot⟩
    cases slot with
    | idle =>
      have hreaches : (Prog.ofApp app).reaches env = app.reaches env := rfl
      cases h : app.reaches env <;>
        simp [pstep, step, pslotStep, slotStep, State.toPState, Slot.toAt, hreaches, h]
    | entered =>
      cases updated with
      | false => rfl
      | true => rfl
    | applying rest =>
      cases rest with
      | nil => rfl
      | cons i rest => rfl

/-! ## Nothing is lost -/

/-- Part `i` is as committed on the radio, or something will still see to it: the commit under
way, the flag, or the program that runs. -/
def PState.Kept (s : PState α E) (i : ι) : Prop :=
  s.radio i = s.config i ∨ s.commit.Covers i ∨ s.updated = true ∨ Op.apply i ∈ s.slot.rest

@[simp] theorem rest_before (ops : List (Op ι)) : (At.before ops).rest = ops := by
  cases ops <;> rfl

/-- A quiet state where every part is kept has applied what is committed. -/
theorem radio_eq_of_kept {s : PState α E} (h : ∀ i, s.Kept i) (hquiet : s.Quiet) :
    s.radio = s.config := by
  obtain ⟨hflag, hcommit, hslot⟩ := hquiet
  funext i
  rcases h i with heq | hcov | hset | hmem
  · exact heq
  · rw [hcommit] at hcov
    cases hcov
  · rw [hflag] at hset
    cases hset
  · rw [hslot] at hmem
    cases hmem

variable [DecidableEq ι]

@[simp] theorem config_exec (s : PState α E) (op : Op ι) : (s.exec op).config = s.config := by
  cases op <;> rfl

@[simp] theorem commit_exec (s : PState α E) (op : Op ι) : (s.exec op).commit = s.commit := by
  cases op <;> rfl

/-- An operation that is not this part's leaves the part alone. -/
theorem radio_exec_of_ne (s : PState α E) {op : Op ι} {i : ι} (h : op ≠ .apply i) :
    (s.exec op).radio i = s.radio i := by
  cases op with
  | apply j => exact Function.update_of_ne (fun heq ↦ h (by rw [heq])) ..
  | clear => rfl

theorem radio_exec_self (s : PState α E) (i : ι) : (s.exec (.apply i)).radio i = s.config i :=
  Function.update_self ..

/-- What is on the radio as committed stays so when a part is applied. -/
theorem radio_exec_eq (s : PState α E) (op : Op ι) {i : ι} (h : s.radio i = s.config i) :
    (s.exec op).radio i = s.config i := by
  by_cases heq : op = .apply i
  · rw [heq, radio_exec_self]
  · rw [radio_exec_of_ne s heq, h]

/-- **One step** of an application whose program clears first keeps every part. -/
theorem kept_step {p : Prog ι E} {s t : PState α E} {e : Event α E} (hp : ClearsFirst p.slot)
    (hrest : ClearsFirst s.slot.rest) (h : ∀ i, s.Kept i) (hstep : pstep p s e = some t) :
    ClearsFirst t.slot.rest ∧ ∀ i, t.Kept i := by
  cases e with
  | env env =>
    cases hstep
    exact ⟨hrest, h⟩
  | write config =>
    rw [pstep] at hstep
    split at hstep <;> cases hstep
    exact ⟨hrest, fun _ ↦ Or.inr (Or.inl trivial)⟩
  | commitStep =>
    rw [pstep, pcommitStep] at hstep
    split at hstep
    · cases hstep
    · cases hstep
      refine ⟨hrest, fun i ↦ Or.inr (Or.inl ?_)⟩
      dsimp only
      split
      · exact p.mem_now i
      · trivial
    · next hcommit =>
      cases hstep
      refine ⟨hrest, fun i ↦ ?_⟩
      rcases h i with heq | hcov | hlater
      · exact Or.inl heq
      · rw [hcommit] at hcov
        cases hcov
      · exact Or.inr (Or.inr hlater)
    · next j rest hcommit =>
      cases hstep
      refine ⟨hrest, fun i ↦ ?_⟩
      rcases h i with heq | hcov | hlater
      · exact Or.inl (radio_exec_eq s (.apply j) heq)
      · rw [hcommit] at hcov
        rcases List.mem_cons.mp hcov with rfl | hmem
        · exact Or.inl (radio_exec_self s i)
        · exact Or.inr (Or.inl hmem)
      · exact Or.inr (Or.inr hlater)
    · cases hstep
      exact ⟨hrest, fun _ ↦ Or.inr (Or.inr (Or.inl rfl))⟩
  | slotStep =>
    cases hstep
    rw [pslotStep]
    split
    · next hslot =>
      have hnone : ∀ b : Bool, (if b then At.entered else At.idle : At ι).rest = [] := by
        rintro (_ | _) <;> rfl
      refine ⟨by simp only [hnone, ClearsFirst], fun i ↦ ?_⟩
      rcases h i with heq | hcov | hset | hmem
      · exact Or.inl heq
      · exact Or.inr (Or.inl hcov)
      · exact Or.inr (Or.inr (Or.inl hset))
      · rw [hslot] at hmem
        cases hmem
    · next hslot =>
      refine ⟨?_, fun i ↦ ?_⟩
      · dsimp only
        split
        · rwa [rest_before]
        · trivial
      · rcases h i with heq | hcov | hset | hmem
        · exact Or.inl heq
        · exact Or.inr (Or.inl hcov)
        · exact Or.inr (Or.inr (Or.inl hset))
        · rw [hslot] at hmem
          cases hmem
    · next op rest hslot =>
      rw [hslot] at hrest
      cases op with
      | apply j =>
        refine ⟨by rwa [rest_before], fun i ↦ ?_⟩
        rcases h i with heq | hcov | hset | hmem
        · exact Or.inl (radio_exec_eq s (.apply j) heq)
        · exact Or.inr (Or.inl hcov)
        · exact Or.inr (Or.inr (Or.inl hset))
        · rw [hslot] at hmem
          rcases List.mem_cons.mp hmem with heq | hmem
          · cases heq
            exact Or.inl (radio_exec_self s j)
          · exact Or.inr (Or.inr (Or.inr (by rwa [rest_before])))
      | clear =>
        -- the flag goes, but the program still applies everything
        refine ⟨by rw [rest_before]; exact hrest.2, fun i ↦ Or.inr (Or.inr (Or.inr ?_))⟩
        rw [rest_before]
        exact hrest.1 i

/-- With a program that clears first, every quiet state of every run has applied what is
committed. -/
theorem settled_of_clearsFirst {p : Prog ι E} (hp : ClearsFirst p.slot) {config : ∀ i, α i}
    {env : E} {es : List (Event α E)} {s : PState α E}
    (hrun : run (pstep p) (pboot config env) es = some s) (hquiet : s.Quiet) :
    s.radio = s.config := by
  have hstart : ClearsFirst (pboot config env).slot.rest ∧ ∀ i, (pboot config env).Kept i :=
    ⟨trivial, fun _ ↦ Or.inl rfl⟩
  have hinv : ClearsFirst s.slot.rest ∧ ∀ i, s.Kept i :=
    run_invariant (P := fun s ↦ ClearsFirst s.slot.rest ∧ ∀ i, s.Kept i)
      (fun _ _ _ hs ht ↦ kept_step hp hs.1 hs.2 ht) hstart hrun
  exact radio_eq_of_kept hinv.2 hquiet

/-! ## Something is lost -/

omit [DecidableEq ι] in
/-- A program that does not clear first has a clear that some part is not applied behind. -/
theorem exists_clear_of_not {ops : List (Op ι)} (h : ¬ ClearsFirst ops) :
    ∃ pre post i, ops = pre ++ .clear :: post ∧ Op.apply i ∉ post := by
  induction ops with
  | nil => exact absurd trivial h
  | cons op rest ih =>
    cases op with
    | apply j =>
      obtain ⟨pre, post, i, rfl, hi⟩ := ih h
      exact ⟨.apply j :: pre, post, i, rfl, hi⟩
    | clear =>
      rcases not_and_or.mp h with hall | hrest
      · obtain ⟨i, hi⟩ := not_forall.mp hall
        exact ⟨[], rest, i, rfl, hi⟩
      · obtain ⟨pre, post, i, rfl, hi⟩ := ih hrest
        exact ⟨.clear :: pre, post, i, rfl, hi⟩

/-- Left to itself, the slot callback executes its program. -/
theorem run_slotSteps (p : Prog ι E) (ops rest : List (Op ι)) (s : PState α E)
    (hs : s.slot = .before (ops ++ rest)) :
    run (pstep p) s (List.replicate ops.length .slotStep) =
      some { ops.foldl PState.exec s with slot := .before rest } := by
  induction ops generalizing s with
  | nil =>
    rw [List.nil_append] at hs
    rw [← hs]
    rfl
  | cons op ops ih =>
    have hstep : pstep p s .slotStep = some { s.exec op with slot := .before (ops ++ rest) } := by
      simp only [pstep, pslotStep, hs, List.cons_append, At.before]
    rw [List.length_cons, List.replicate_succ, run, hstep, Option.bind_some, ih _ rfl,
      List.foldl_cons]
    have hslot : ∀ (ops : List (Op ι)) (s : PState α E) (a : At ι),
        ops.foldl PState.exec { s with slot := a } =
          { ops.foldl PState.exec s with slot := a } := by
      intro ops
      induction ops with
      | nil => exact fun _ _ ↦ rfl
      | cons op ops ih =>
        intro s a
        have hexec : PState.exec { s with slot := a } op = { s.exec op with slot := a } := by
          cases op <;> rfl
        rw [List.foldl_cons, List.foldl_cons, hexec, ih]
    rw [hslot]

/-! ## The order of the operations -/

omit [DecidableEq ι] in
theorem clearsFirst_map_apply (l : List ι) : ClearsFirst (l.map Op.apply) := by
  induction l with
  | nil => trivial
  | cons i l ih => exact ih

omit [DecidableEq ι] in
/-- The callback that clears the flag last does not clear first. -/
theorem not_clearsFirst_ofApp [Nonempty ι] (app : App ι E) :
    ¬ ClearsFirst (Prog.ofApp app).slot := by
  have hlast : ∀ l : List ι, ¬ ClearsFirst (l.map Op.apply ++ [.clear]) := by
    intro l
    induction l with
    | nil => exact fun h ↦ nomatch h.1 (Classical.arbitrary ι)
    | cons i l ih => exact ih
  exact hlast app.slot

/-- What executing operations leaves alone. -/
theorem foldl_exec_same (ops : List (Op ι)) (s : PState α E) :
    (ops.foldl PState.exec s).config = s.config ∧
      (ops.foldl PState.exec s).commit = s.commit ∧ (ops.foldl PState.exec s).env = s.env := by
  induction ops generalizing s with
  | nil => exact ⟨rfl, rfl, rfl⟩
  | cons op ops ih =>
    obtain ⟨hconfig, hcommit, henv⟩ := ih (s.exec op)
    refine ⟨hconfig.trans (config_exec s op), hcommit.trans (commit_exec s op), henv.trans ?_⟩
    cases op <;> rfl

/-- A part that no operation applies stays as it is. -/
theorem foldl_exec_radio {ops : List (Op ι)} {i : ι} (h : Op.apply i ∉ ops) (s : PState α E) :
    (ops.foldl PState.exec s).radio i = s.radio i := by
  induction ops generalizing s with
  | nil => rfl
  | cons op ops ih =>
    rw [List.mem_cons, not_or] at h
    rw [List.foldl_cons, ih h.2, radio_exec_of_ne s (Ne.symm h.1)]

theorem foldl_exec_radio_eq (ops : List (Op ι)) {s : PState α E} {i : ι}
    (h : s.radio i = s.config i) : (ops.foldl PState.exec s).radio i = s.config i := by
  induction ops generalizing s with
  | nil => exact h
  | cons op ops ih =>
    have hnext : (s.exec op).radio i = (s.exec op).config i := by
      rw [config_exec]
      exact radio_exec_eq s op h
    rw [List.foldl_cons, ih hnext, config_exec]

/-- Once the flag is clear, only the update callback sets it. -/
theorem foldl_exec_updated (ops : List (Op ι)) {s : PState α E} (h : s.updated = false) :
    (ops.foldl PState.exec s).updated = false := by
  induction ops generalizing s with
  | nil => exact h
  | cons op ops ih =>
    cases op with
    | apply j => exact ih h
    | clear => exact ih rfl

/-- A commit, deferred to the slot callback. -/
theorem run_commit {p : Prog ι E} {s : PState α E} (hidle : s.commit = .idle)
    (hlater : p.atOnce s.env = false) (config : ∀ i, α i) :
    run (pstep p) s [.write config, .commitStep, .commitStep] =
      some { s with config, updated := true } := by
  rcases s with ⟨config₀, radio, updated, env, commit, slot⟩
  obtain rfl : commit = .idle := hidle
  have hlater : p.atOnce env = false := hlater
  simp [run, pstep, pcommitStep, hlater]

/-- **A commit that is lost.**  Behind the clear that a part is not applied behind, a commit of
that part is forgotten, in some run from start-up. -/
theorem lost_of_not_clearsFirst {p : Prog ι E} (hp : ¬ ClearsFirst p.slot) {env : E}
    (hreaches : p.reaches env = true) (hlater : p.atOnce env = false)
    [∀ i, Nontrivial (α i)] :
    ∃ (config : ∀ i, α i) (es : List (Event α E)) (s : PState α E),
      run (pstep p) (pboot config env) es = some s ∧ s.Quiet ∧ s.radio ≠ s.config := by
  obtain ⟨pre, post, i, hslot, hi⟩ := exists_clear_of_not hp
  let config : ∀ i, α i := fun j ↦ (exists_pair_ne (α j)).choose
  obtain ⟨b, hb⟩ := exists_ne (config i)
  let config' := Function.update config i b
  -- the slot callback is about to clear the flag when the second commit sets it again
  let s₁ : PState α E := ⟨config, config, true, env, .idle, .before p.slot⟩
  let s₂ : PState α E := { pre.foldl PState.exec s₁ with slot := .before (.clear :: post) }
  let s₃ : PState α E := { s₂ with config := config', updated := true }
  let s₄ : PState α E := { (Op.clear :: post).foldl PState.exec s₃ with slot := .before [] }
  have h₁ : run (pstep p) (pboot config env)
      ([.write config, .commitStep, .commitStep] ++ [.slotStep, .slotStep]) = some s₁ := by
    rw [run_append, run_commit rfl hlater, Option.bind_some]
    simp [run, pstep, pslotStep, pboot, hreaches, s₁]
  have h₂ : run (pstep p) s₁ (List.replicate pre.length .slotStep) = some s₂ :=
    run_slotSteps p pre (.clear :: post) s₁ (by simp only [s₁, hslot])
  obtain ⟨-, hcommit₂, henv₂⟩ := foldl_exec_same pre s₁
  have h₃ : run (pstep p) s₂ [.write config', .commitStep, .commitStep] = some s₃ :=
    run_commit (s := s₂) hcommit₂ ((congrArg p.atOnce henv₂).trans hlater) config'
  have h₄ : run (pstep p) s₃ (List.replicate (Op.clear :: post).length .slotStep) = some s₄ :=
    run_slotSteps p (.clear :: post) [] s₃ (by rw [List.append_nil])
  have hradio₂ : s₂.radio i = config i := foldl_exec_radio_eq pre rfl
  obtain ⟨hconfig₄, hcommit₄, -⟩ := foldl_exec_same (Op.clear :: post) s₃
  refine ⟨config, ([.write config, .commitStep, .commitStep] ++ [.slotStep, .slotStep]) ++
    (List.replicate pre.length .slotStep ++ ([.write config', .commitStep, .commitStep] ++
      List.replicate (Op.clear :: post).length .slotStep)), s₄, ?_, ⟨?_, ?_, rfl⟩, fun heq ↦ hb ?_⟩
  · rw [run_append, h₁, Option.bind_some, run_append, h₂, Option.bind_some, run_append, h₃,
      Option.bind_some, h₄]
  · show ((Op.clear :: post).foldl PState.exec s₃).updated = false
    rw [List.foldl_cons]
    exact foldl_exec_updated post rfl
  · exact hcommit₄.trans hcommit₂
  · have hradio : s₄.radio i = config i := by
      have hclear : Op.apply i ∉ Op.clear :: post := by simpa using hi
      exact (foldl_exec_radio hclear s₃).trans hradio₂
    have hconfig : s₄.config i = b := by
      show ((Op.clear :: post).foldl PState.exec s₃).config i = b
      rw [hconfig₄]
      exact Function.update_self i b config
    rw [← hconfig, ← heq, hradio]

/-- **Which programs lose nothing.**  Every quiet state of every run from start-up has applied what
is committed exactly if every part is applied behind every clear. -/
theorem settled_iff_clearsFirst {p : Prog ι E} {env : E} (hreaches : p.reaches env = true)
    (hlater : p.atOnce env = false) [∀ i, Nontrivial (α i)] :
    (∀ (config : ∀ i, α i) (env : E) (es : List (Event α E)) (s : PState α E),
        run (pstep p) (pboot config env) es = some s → s.Quiet → s.radio = s.config) ↔
      ClearsFirst p.slot := by
  refine ⟨fun h ↦ ?_, fun hp _ _ _ _ hrun hquiet ↦ settled_of_clearsFirst hp hrun hquiet⟩
  by_contra hp
  obtain ⟨config, es, s, hrun, hquiet, hne⟩ :=
    lost_of_not_clearsFirst (α := α) hp hreaches hlater
  exact hne (h config env es s hrun hquiet)

end Deferred
