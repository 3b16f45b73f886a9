import Mathlib.Data.List.Induction
import UwbApps.Lib.Run

/-!
# Settings that survive a reboot

A program keeps settings as strings, each in a field of a bounded size.  A `Handler` says how they
are set by name and exported as lines of a name and a value; a `Loader` takes lines that are read
back to the handler, and a `Storage` keeps lines across reboots and gives some values back as they
were.  A `Program` has a handler and steps of its own that leave every setting fitting its field.

`get_reboot` is what is wanted of the three together: after a reboot a setting is what it was when
it was last saved, whatever was set since.
-/

set_option autoImplicit false

open Run

namespace Conf

/-- A name and its value, as exported and stored. -/
abbrev Line := String × String

/-- The value in the last line of that name. -/
def last (lines : List Line) (name : String) : Option String := lines.reverse.lookup name

@[simp] theorem last_nil (name : String) : last [] name = none := rfl

theorem last_snoc (lines : List Line) (line : Line) (name : String) :
    last (lines ++ [line]) name = if name = line.1 then some line.2 else last lines name := by
  rw [last, last, List.reverse_append, List.reverse_singleton, List.singleton_append,
    List.lookup_cons]
  by_cases h : name = line.1
  · rw [if_pos h, beq_iff_eq.mpr h]
  · rw [if_neg h, beq_eq_false_iff_ne.mpr h]

/-- How a program sets, reads and exports the settings of a state. -/
structure Handler (σ F : Type*) where
  chName : String
  /-- The fields, in the order of the export. -/
  fields : List F
  /-- What the last part of the name is compared with. -/
  key : F → String
  /-- The name in the export. -/
  exportName : F → String
  get : σ → F → String
  /-- `none` when the value does not fit. -/
  set : σ → F → String → Option σ
  Fits : F → String → Prop
  exportName_eq : ∀ f ∈ fields, exportName f = chName ++ "/" ++ key f
  key_inj : ∀ f ∈ fields, ∀ g ∈ fields, key f = key g → f = g
  isSome_set : ∀ s f v, Fits f v → (set s f v).isSome
  get_set : ∀ s f v t, set s f v = some t → get t f = v ∧ Fits f v
  get_set_ne : ∀ s f v t, set s f v = some t → ∀ g, g ≠ f → get t g = get s g

/-- Storage for lines, as far as its users rely on it. -/
structure Storage (τ : Type*) where
  empty : τ
  /-- The lines read back, oldest first. -/
  lines : τ → List Line
  save : τ → List Line → τ
  /-- A value that is read back as it was. -/
  Keeps : String → Prop
  lines_empty : lines empty = []
  /-- No names are made up. -/
  mem_save : ∀ m new line, line ∈ lines (save m new) →
    line.1 ∈ (lines m).map Prod.fst ∨ line.1 ∈ new.map Prod.fst
  last_save : ∀ m new name v, last new name = some v → Keeps v →
    last (lines (save m new)) name = some v

section Handler

variable {σ F : Type*} (H : Handler σ F)

/-- The field of a name, by its parts behind the handler's own. -/
def Handler.field (argv : List String) : Option F := H.fields.find? fun f ↦ argv = [H.key f]

/-- A setting is set by name.  A name that is none, or a value that does not fit, changes
nothing. -/
def Handler.chSet (s : σ) (argv : List String) (val : String) : σ :=
  ((H.field argv).bind fun f ↦ H.set s f val).getD s

/-- The lines of the export. -/
def Handler.chExport (s : σ) : List Line := H.fields.map fun f ↦ (H.exportName f, H.get s f)

/-- Every setting fits its field. -/
def Handler.Fitting (s : σ) : Prop := ∀ f ∈ H.fields, H.Fits f (H.get s f)

variable {H}

theorem Handler.field_key {f : F} (hf : f ∈ H.fields) : H.field [H.key f] = some f := by
  rw [Handler.field]
  cases hfind : H.fields.find? fun g ↦ [H.key f] = [H.key g] with
  | none =>
    have hno := List.find?_eq_none.mp hfind f hf
    exact absurd (decide_eq_true rfl) hno
  | some g =>
    have heq : [H.key f] = [H.key g] := of_decide_eq_true (List.find?_some hfind :)
    rw [H.key_inj f hf g (List.mem_of_find?_eq_some hfind) (List.singleton_inj.mp heq)]

theorem Handler.exportName_inj {f g : F} (hf : f ∈ H.fields) (hg : g ∈ H.fields)
    (h : H.exportName f = H.exportName g) : f = g := by
  rw [H.exportName_eq f hf, H.exportName_eq g hg] at h
  exact H.key_inj f hf g hg ((String.append_right_inj _).mp h)

/-- Setting a field by its name. -/
theorem Handler.chSet_key {f : F} (hf : f ∈ H.fields) (s : σ) (v : String) :
    H.chSet s [H.key f] v = (H.set s f v).getD s := by
  rw [Handler.chSet, Handler.field_key hf, Option.bind_some]

/-- Setting by name changes the state as setting some field does, or not at all. -/
theorem Handler.chSet_eq (s : σ) (argv : List String) (val : String) :
    H.chSet s argv val = s ∨ ∃ f, H.set s f val = some (H.chSet s argv val) := by
  rw [Handler.chSet]
  cases hfield : H.field argv with
  | none => exact Or.inl rfl
  | some f =>
    rw [Option.bind_some]
    cases hset : H.set s f val with
    | none => exact Or.inl rfl
    | some t => exact Or.inr ⟨f, hset⟩

theorem Handler.fitting_set {s t : σ} {f : F} {v : String} (h : H.Fitting s)
    (hset : H.set s f v = some t) : H.Fitting t := by
  intro g hg
  by_cases hgf : g = f
  · obtain ⟨hget, hfits⟩ := H.get_set _ _ _ _ hset
    rw [hgf, hget]
    exact hfits
  · rw [H.get_set_ne _ _ _ _ hset g hgf]
    exact h g hg

theorem Handler.fitting_chSet {s : σ} (h : H.Fitting s) (argv : List String) (val : String) :
    H.Fitting (H.chSet s argv val) := by
  obtain hsame | ⟨f, hset⟩ := H.chSet_eq s argv val
  · rwa [hsame]
  · exact Handler.fitting_set h hset

/-- The export has one line of each field. -/
theorem Handler.last_chExport (s : σ) {f : F} (hf : f ∈ H.fields) :
    last (H.chExport s) (H.exportName f) = some (H.get s f) := by
  rw [last, Handler.chExport, ← List.map_reverse]
  have hmem : f ∈ H.fields.reverse := List.mem_reverse.mpr hf
  have hinj : ∀ g ∈ H.fields.reverse, H.exportName f = H.exportName g → f = g := fun g hg h ↦
    Handler.exportName_inj hf (List.mem_reverse.mp hg) h
  generalize H.fields.reverse = fields at hmem hinj
  induction fields with
  | nil => cases hmem
  | cons g gs ih =>
    rw [List.map_cons, List.lookup_cons]
    by_cases hname : H.exportName f = H.exportName g
    · obtain rfl := hinj g List.mem_cons_self hname
      rw [beq_iff_eq.mpr rfl]
    · rw [beq_eq_false_iff_ne.mpr hname]
      have hne : f ≠ g := fun h ↦ hname (congrArg H.exportName h)
      exact ih (List.mem_of_ne_of_mem hne hmem) fun k hk ↦ hinj k (List.mem_cons_of_mem _ hk)

end Handler

/-! ## Reading lines back -/

/-- What takes stored lines to a handler, as far as a program relies on it. -/
structure Loader {σ F : Type*} (H : Handler σ F) where
  /-- A line is read back. -/
  confSetValue : σ → Line → σ
  confLoad : σ → List Line → σ
  confLoad_nil : ∀ s, confLoad s [] = s
  /-- The lines are read back in order. -/
  confLoad_snoc : ∀ s lines line,
    confLoad s (lines ++ [line]) = confSetValue (confLoad s lines) line
  /-- The part of a name behind the slash goes to the handler. -/
  confSetValue_name : ∀ s, ∀ f ∈ H.fields, ∀ v,
    confSetValue s (H.chName ++ "/" ++ H.key f, v) = H.chSet s [H.key f] v
  /-- Nothing but the handler changes the state. -/
  confSetValue_eq : ∀ s line,
    confSetValue s line = s ∨ ∃ argv, confSetValue s line = H.chSet s argv line.2

section Loader

variable {σ F : Type*} {H : Handler σ F} (L : Loader H)

/-- Reading back the line of a field sets it, if the value fits. -/
theorem Loader.confSetValue_exportName {f : F} (hf : f ∈ H.fields) (s : σ) (v : String) :
    L.confSetValue s (H.exportName f, v) = (H.set s f v).getD s := by
  rw [H.exportName_eq f hf, L.confSetValue_name s f hf, Handler.chSet_key hf]

/-- What setting keeps, reading lines back keeps. -/
theorem Loader.confLoad_invariant {P : σ → Prop}
    (hset : ∀ s f v t, P s → H.set s f v = some t → P t) {s : σ} (hs : P s) (lines : List Line) :
    P (L.confLoad s lines) := by
  induction lines using List.reverseRecOn with
  | nil => rwa [L.confLoad_nil]
  | append_singleton lines line ih =>
    rw [L.confLoad_snoc]
    obtain hsame | ⟨argv, hargv⟩ := L.confSetValue_eq (L.confLoad s lines) line
    · rwa [hsame]
    · rw [hargv]
      obtain hsame | ⟨f, hf⟩ := H.chSet_eq (L.confLoad s lines) argv line.2
      · rwa [hsame]
      · exact hset _ _ _ _ ih hf

/-- **Reading lines back.**  If every line is of a field, a field has the value of its last line,
if that fits. -/
theorem Loader.get_confLoad {s : σ} {lines : List Line}
    (hnames : ∀ line ∈ lines, ∃ g ∈ H.fields, line.1 = H.exportName g) {f : F}
    (hf : f ∈ H.fields) :
    (last lines (H.exportName f) = none → H.get (L.confLoad s lines) f = H.get s f) ∧
      ∀ v, last lines (H.exportName f) = some v → H.Fits f v →
        H.get (L.confLoad s lines) f = v := by
  induction lines using List.reverseRecOn with
  | nil => exact ⟨fun _ ↦ by rw [L.confLoad_nil], fun v h ↦ absurd h.symm (Option.some_ne_none v)⟩
  | append_singleton lines line ih =>
    have ih := ih fun l hl ↦ hnames l (List.mem_append_left _ hl)
    obtain ⟨g, hg, hname⟩ := hnames line (List.mem_append_right _ List.mem_cons_self)
    obtain ⟨name, v⟩ := line
    obtain rfl : name = H.exportName g := hname
    rw [L.confLoad_snoc, L.confSetValue_exportName hg, last_snoc]
    by_cases hfg : f = g
    · subst hfg
      rw [if_pos rfl]
      refine ⟨fun h ↦ absurd h (Option.some_ne_none v), fun w hw hfits ↦ ?_⟩
      cases hw
      obtain ⟨t, ht⟩ := Option.isSome_iff_exists.mp (H.isSome_set (L.confLoad s lines) f v hfits)
      rw [ht]
      exact (H.get_set _ _ _ _ ht).1
    · rw [if_neg fun h ↦ hfg (Handler.exportName_inj hf hg h)]
      -- the line is another field's
      have hother : H.get ((H.set (L.confLoad s lines) g v).getD (L.confLoad s lines)) f =
          H.get (L.confLoad s lines) f := by
        cases hset : H.set (L.confLoad s lines) g v with
        | none => rfl
        | some t => exact H.get_set_ne _ _ _ _ hset f hfg
      rw [hother]
      exact ih

/-- A line of the export is read back, and no other. -/
def Handler.setLine (H : Handler σ F) (s : σ) (line : Line) : σ :=
  ((H.fields.find? fun f ↦ H.exportName f = line.1).map fun f ↦ H.chSet s [H.key f] line.2).getD s

/-- A loader that knows the names of the export. -/
def Handler.loader (H : Handler σ F) : Loader H where
  confSetValue := H.setLine
  confLoad := List.foldl H.setLine
  confLoad_nil _ := rfl
  confLoad_snoc s lines line := List.foldl_append
  confSetValue_name s f hf v := by
    rw [← H.exportName_eq f hf, Handler.setLine]
    cases hfind : H.fields.find? fun g ↦ H.exportName g = H.exportName f with
    | none => exact absurd (decide_eq_true rfl) (List.find?_eq_none.mp hfind f hf)
    | some g =>
      have heq : H.exportName g = H.exportName f := of_decide_eq_true (List.find?_some hfind :)
      rw [Handler.exportName_inj (List.mem_of_find?_eq_some hfind) hf heq]
      rfl
  confSetValue_eq s line := by
    rw [Handler.setLine]
    cases H.fields.find? fun f ↦ H.exportName f = line.1 with
    | none => exact Or.inl rfl
    | some f => exact Or.inr ⟨[H.key f], rfl⟩

end Loader

/-! ## Reboots -/

/-- A program with settings: what it starts with, what it does, and what it does once the stored
lines are read back. -/
structure Program (σ ε F : Type*) extends Handler σ F where
  loader : Loader toHandler
  boot : σ
  own : σ → ε → Option σ
  start : σ → σ
  fitting_boot : toHandler.Fitting boot
  fitting_own : ∀ s e t, toHandler.Fitting s → own s e = some t → toHandler.Fitting t
  get_start : ∀ s f, get (start s) f = get s f

/-- A program and its storage. -/
structure State (σ τ : Type*) where
  ram : σ
  store : τ

/-- What can happen next. -/
inductive Event (ε : Type*)
  | own (e : ε)
  | save
  | reboot
deriving DecidableEq

section Program

variable {σ ε F τ : Type*} (P : Program σ ε F) (S : Storage τ)

/-- From the stored lines on. -/
def Program.reboot (m : τ) : σ := P.start (P.loader.confLoad P.boot (S.lines m))

/-- With nothing stored. -/
def init : State σ τ := ⟨P.reboot S S.empty, S.empty⟩

def step (s : State σ τ) : Event ε → Option (State σ τ)
  | .own e => (P.own s.ram e).map fun ram ↦ { s with ram }
  | .save => some { s with store := S.save s.store (P.chExport s.ram) }
  | .reboot => some { s with ram := P.reboot S s.store }

/-- Every setting fits, and the storage has lines of the settings only. -/
structure Inv (s : State σ τ) : Prop where
  fitting : P.Fitting s.ram
  names : ∀ line ∈ S.lines s.store, ∃ f ∈ P.fields, line.1 = P.exportName f

variable {P S}

theorem Program.fitting_reboot (m : τ) : P.Fitting (P.reboot S m) := by
  have hload : P.Fitting (P.loader.confLoad P.boot (S.lines m)) :=
    P.loader.confLoad_invariant (fun _ _ _ _ hs hset ↦ Handler.fitting_set hs hset)
      P.fitting_boot _
  intro f hf
  rw [Program.reboot, P.get_start]
  exact hload f hf

theorem inv_init : Inv P S (init P S) where
  fitting := P.fitting_reboot S.empty
  names line hline := by
    rw [init, S.lines_empty] at hline
    cases hline

theorem inv_step {s t : State σ τ} {e : Event ε} (h : Inv P S s) (hstep : step P S s e = some t) :
    Inv P S t := by
  cases e with
  | own e =>
    obtain ⟨ram, hram, rfl⟩ := Option.map_eq_some_iff.mp hstep
    exact ⟨P.fitting_own _ _ _ h.fitting hram, h.names⟩
  | save =>
    cases hstep
    refine ⟨h.fitting, fun line hline ↦ ?_⟩
    rcases S.mem_save _ _ line hline with hold | hnew
    · obtain ⟨old, hmem, hname⟩ := List.mem_map.mp hold
      rw [← hname]
      exact h.names old hmem
    · rw [Handler.chExport, List.map_map] at hnew
      obtain ⟨f, hf, hname⟩ := List.mem_map.mp hnew
      exact ⟨f, hf, hname.symm⟩
  | reboot =>
    cases hstep
    exact ⟨P.fitting_reboot _, h.names⟩

/-- What is stored changes by saving only. -/
theorem store_eq_of_unsaved {s t : State σ τ} {es : List (Event ε)} (hno : .save ∉ es)
    (hrun : run (step P S) s es = some t) : t.store = s.store := by
  induction es generalizing s with
  | nil =>
    cases hrun
    rfl
  | cons e es ih =>
    obtain ⟨s', he, hrun⟩ := run_cons_eq_some.mp hrun
    rw [List.mem_cons, not_or] at hno
    rw [ih hno.2 hrun]
    cases e with
    | own e =>
      obtain ⟨ram, -, rfl⟩ := Option.map_eq_some_iff.mp he
      rfl
    | save => exact absurd rfl hno.1
    | reboot =>
      cases he
      rfl

/-- After a reboot the program has started from the lines that are stored. -/
theorem ram_eq_of_reboot {s t : State σ τ} {es : List (Event ε)}
    (hrun : run (step P S) s (es ++ [.reboot]) = some t) (hno : .save ∉ es) :
    t.ram = P.reboot S s.store := by
  obtain ⟨u, hu, hreboot⟩ := run_snoc.mp hrun
  cases hreboot
  rw [← store_eq_of_unsaved hno hu]

/-- **What is saved survives.**  After a reboot a setting is what it was when the settings were
last saved, if the storage keeps its value. -/
theorem get_reboot {pre mid : List (Event ε)} {s t : State σ τ}
    (hpre : run (step P S) (init P S) pre = some s) (hno : .save ∉ mid)
    (hrun : run (step P S) s (.save :: mid ++ [.reboot]) = some t) {f : F} (hf : f ∈ P.fields)
    (hkeeps : S.Keeps (P.get s.ram f)) : P.get t.ram f = P.get s.ram f := by
  have hinv := run_invariant (fun _ _ _ ↦ inv_step) inv_init hpre
  obtain ⟨u, hsave, hrun⟩ := run_cons_eq_some.mp hrun
  cases hsave
  have hnames := (inv_step hinv (show step P S s .save = some _ from rfl)).names
  have hlast := S.last_save s.store _ _ _ (Handler.last_chExport s.ram hf) hkeeps
  rw [ram_eq_of_reboot hrun hno, Program.reboot, P.get_start]
  exact (P.loader.get_confLoad hnames hf).2 _ hlast (hinv.fitting f hf)

end Program

/-- Storage that appends what is saved, and keeps every value. -/
def appending : Storage (List Line) where
  empty := []
  lines m := m
  save m new := m ++ new
  Keeps _ := True
  lines_empty := rfl
  mem_save m new line h := by
    rw [List.mem_append] at h
    exact h.imp (List.mem_map_of_mem (f := Prod.fst)) (List.mem_map_of_mem (f := Prod.fst))
  last_save m new name v h _ := by
    rw [last, List.reverse_append]
    rw [last] at h
    rw [List.lookup_append, h, Option.some_or]

end Conf
