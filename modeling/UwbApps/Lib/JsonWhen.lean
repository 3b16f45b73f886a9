import UwbApps.Lib.Printf

/-!
# Texts that are JSON under a condition

A program prints a text from values that are not all known: `U` is the type of what is unknown, and
every piece of the text is a function of it.  `ReadsWhen C P text` and `MembersWhen C P text` say of
a piece when it reads as a value, or as members of an object, whatever is unknown: when `C` holds,
and `P` is then true of what is read.  Where `C` does not hold, some value of the unknown makes the
piece a text that cannot be read.

The rules put the pieces together.  A text of several pieces reads when all of them do, and if one
of them is a text that cannot be read, so is the whole (`MembersWhen.append`, `readsWhen_array`,
`MembersWhen.object`).

The names of the members do not depend on what is unknown.  `Named names text` says which they are
if the piece reads at all, and `Named.object` what names a reader finds in the whole.
-/

set_option autoImplicit false

namespace Json

open Printf

/-- The text is a value, of which `P` is true, when `C` holds. -/
structure ReadsWhen {U : Type*} (C : Prop) (P : Json → Prop) (text : U → String) : Prop where
  val : C → ∀ u, ∃ v, P v ∧ Val (text u).toList v
  or_dead : ∀ u, (∃ v, Val (text u).toList v) ∨ Dead (text u).toList
  dead : ¬ C → ∃ u, Dead (text u).toList

/-- The text has members of an object, of which `P` is true, when `C` holds. -/
structure MembersWhen {U : Type*} (C : Prop) (P : List (List Char × Json) → Prop)
    (text : U → String) : Prop where
  members : C → ∀ u, ∃ ms, P ms ∧ Members (text u).toList ms
  or_stuck : ∀ u, (∃ ms, Members (text u).toList ms) ∨ Stuck (text u).toList
  stuck : ¬ C → ∃ u, Stuck (text u).toList

variable {U : Type*} {C D : Prop} {text text' : U → String}

/-! ## Values -/

section Values

variable {P Q : Json → Prop}

/-- A text that always reads. -/
theorem readsWhen_of_val (h : ∀ u, ∃ v, Val (text u).toList v) :
    ReadsWhen True (fun _ ↦ True) text :=
  ⟨fun _ u ↦ (h u).imp fun _ hv ↦ ⟨trivial, hv⟩, fun u ↦ Or.inl (h u),
    fun hfalse ↦ absurd trivial hfalse⟩

/-- A text that reads as one value, whatever is unknown. -/
theorem readsWhen_val {v : Json} (h : ∀ u, Val (text u).toList v) :
    ReadsWhen True (· = v) text :=
  ⟨fun _ u ↦ ⟨v, rfl, h u⟩, fun u ↦ Or.inl ⟨v, h u⟩, fun hfalse ↦ absurd trivial hfalse⟩

theorem readsWhen_dec {α : Type} (n : α → ℤ) (x : α) :
    ReadsWhen True (fun _ ↦ True) fun _ : U ↦ dec (n x) :=
  readsWhen_of_val fun _ ↦ ⟨_, val_dec _⟩

theorem ReadsWhen.congr (h : ReadsWhen C P text) (hiff : C ↔ D) : ReadsWhen D P text :=
  ⟨fun hd ↦ h.val (hiff.mpr hd), h.or_dead, fun hd ↦ h.dead fun hc ↦ hd (hiff.mp hc)⟩

theorem ReadsWhen.imp (h : ReadsWhen C P text) (himp : ∀ v, P v → Q v) : ReadsWhen C Q text :=
  ⟨fun hc u ↦ (h.val hc u).imp fun v hv ↦ ⟨himp v hv.1, hv.2⟩, h.or_dead, h.dead⟩

theorem ReadsWhen.of_eq (h : ReadsWhen C P text) (heq : ∀ u, text' u = text u) :
    ReadsWhen C P text' :=
  (funext heq : text' = text) ▸ h

/-- A number in two parts. -/
theorem readsWhen_parts {negative : U → Bool} {i f : U → ℤ} (width : ℕ)
    (hgood : C → ∀ u, ¬ (negative u = true ∧ i u < 0) ∧ 0 ≤ f u)
    (hbad : ¬ C → ∃ u, f u < 0 ∨ negative u = true ∧ i u < 0) :
    ReadsWhen C (fun _ ↦ True) fun u ↦
      (if negative u then "-" else "") ++ dec (i u) ++ "." ++ decPad width (f u) where
  val hc u := by
    obtain ⟨hi, hf⟩ := hgood hc u
    exact ⟨_, trivial, (numTo_parts (negative u) width hi hf).val rfl⟩
  or_dead u := by
    by_cases hbad : f u < 0 ∨ negative u = true ∧ i u < 0
    · exact Or.inr (dead_parts (negative u) width hbad)
    · obtain ⟨hf, hi⟩ := not_or.mp hbad
      exact Or.inl ⟨_, (numTo_parts (negative u) width hi (not_lt.mp hf)).val rfl⟩
  dead hc := by
    obtain ⟨u, hu⟩ := hbad hc
    exact ⟨u, dead_parts (negative u) width hu⟩

/-- The same without a sign of its own. -/
theorem readsWhen_unsigned {i f : U → ℤ} (width : ℕ) (hgood : C → ∀ u, 0 ≤ f u)
    (hbad : ¬ C → ∃ u, f u < 0) :
    ReadsWhen C (fun _ ↦ True) fun u ↦ dec (i u) ++ "." ++ decPad width (f u) := by
  have hparts := @readsWhen_parts U C (fun _ ↦ false) i f width
    (fun hc u ↦ ⟨by simp, hgood hc u⟩) fun hc ↦ (hbad hc).imp fun _ hu ↦ Or.inl hu
  simpa only [Bool.false_eq_true, if_false, String.empty_append] using hparts

/-- A list in brackets, each element with its own condition. -/
theorem readsWhen_array {α : Type} {text : U → α → String} {C : α → Prop} (xs : List α)
    (h : ∀ x, ReadsWhen (C x) P fun u ↦ text u x) :
    ReadsWhen (∀ x ∈ xs, C x) (fun v ↦ ∃ vs, v = .arr vs ∧ vs.length = xs.length)
      fun u ↦ "[" ++ listText (text u) xs ++ "]" := by
  have hsplit : ∀ u, ("[" ++ listText (text u) xs ++ "]").toList =
      '[' :: ([','].intercalate (xs.map fun x ↦ (text u x).toList) ++ [']']) := by
    intro u
    rw [String.toList_append, String.toList_append, toList_listText]
    rfl
  have hor : ∀ u, ∀ cs ∈ xs.map (fun x ↦ (text u x).toList), (∃ v, Val cs v) ∨ Dead cs := by
    intro u cs hcs
    obtain ⟨x, -, rfl⟩ := List.mem_map.mp hcs
    exact (h x).or_dead u
  refine ⟨fun hc u ↦ ?_, fun u ↦ ?_, fun hc ↦ ?_⟩
  · have hval : ∀ cs ∈ xs.map (fun x ↦ (text u x).toList), ∃ v, Val cs v := by
      intro cs hcs
      obtain ⟨x, hx, rfl⟩ := List.mem_map.mp hcs
      obtain ⟨v, -, hv⟩ := (h x).val (hc x hx) u
      exact ⟨v, hv⟩
    obtain ⟨vs, hlen, hvs⟩ := val_array hval
    rw [List.length_map] at hlen
    exact ⟨_, ⟨vs, rfl, hlen⟩, by rw [hsplit]; exact hvs⟩
  · rw [hsplit]
    by_cases hdead : ∃ cs ∈ xs.map (fun x ↦ (text u x).toList), Dead cs
    · exact Or.inr (dead_array (hor u) hdead _)
    · obtain ⟨vs, -, hvs⟩ := val_array fun cs hcs ↦
        (hor u cs hcs).resolve_right fun hd ↦ hdead ⟨cs, hcs, hd⟩
      exact Or.inl ⟨_, hvs⟩
  · obtain ⟨x, hx⟩ := not_forall.mp hc
    obtain ⟨hx, hcx⟩ := Classical.not_imp.mp hx
    obtain ⟨u, hdead⟩ := (h x).dead hcx
    exact ⟨u, by rw [hsplit]; exact dead_array (hor u) ⟨_, List.mem_map_of_mem hx, hdead⟩ _⟩

end Values

/-! ## Members of an object -/

section Members

variable {P Q : List (List Char × Json) → Prop}

theorem MembersWhen.congr (h : MembersWhen C P text) (hiff : C ↔ D) : MembersWhen D P text :=
  ⟨fun hd ↦ h.members (hiff.mpr hd), h.or_stuck, fun hd ↦ h.stuck fun hc ↦ hd (hiff.mp hc)⟩

theorem MembersWhen.imp (h : MembersWhen C P text) (himp : ∀ ms, P ms → Q ms) :
    MembersWhen C Q text :=
  ⟨fun hc u ↦ (h.members hc u).imp fun ms hms ↦ ⟨himp ms hms.1, hms.2⟩, h.or_stuck, h.stuck⟩

theorem MembersWhen.of_eq (h : MembersWhen C P text) (heq : ∀ u, text' u = text u) :
    MembersWhen C P text' :=
  (funext heq : text' = text) ▸ h

theorem membersWhen_empty : MembersWhen True (· = []) fun _ : U ↦ "" :=
  ⟨fun _ _ ↦ ⟨[], rfl, members_nil⟩, fun _ ↦ Or.inl ⟨[], members_nil⟩,
    fun h ↦ absurd trivial h⟩

/-- One piece behind the other. -/
theorem MembersWhen.append (h : MembersWhen C P text) (h' : MembersWhen D Q text') :
    MembersWhen (C ∧ D) (fun ms ↦ ∃ ms₁ ms₂, ms = ms₁ ++ ms₂ ∧ P ms₁ ∧ Q ms₂)
      fun u ↦ text u ++ text' u where
  members := by
    rintro ⟨hc, hd⟩ u
    obtain ⟨ms, hp, hms⟩ := h.members hc u
    obtain ⟨ns, hq, hns⟩ := h'.members hd u
    refine ⟨ms ++ ns, ⟨ms, ns, rfl, hp, hq⟩, ?_⟩
    rw [String.toList_append]
    exact hms.append hns
  or_stuck u := by
    rw [String.toList_append]
    rcases h.or_stuck u with ⟨ms, hms⟩ | hstuck
    · rcases h'.or_stuck u with ⟨ns, hns⟩ | hstuck
      · exact Or.inl ⟨ms ++ ns, hms.append hns⟩
      · exact Or.inr (hms.append_stuck hstuck)
    · exact Or.inr (hstuck.append _)
  stuck hcd := by
    by_cases hc : C
    · obtain ⟨u, hstuck⟩ := h'.stuck fun hd ↦ hcd ⟨hc, hd⟩
      obtain ⟨ms, -, hms⟩ := h.members hc u
      exact ⟨u, by rw [String.toList_append]; exact hms.append_stuck hstuck⟩
    · obtain ⟨u, hstuck⟩ := h.stuck hc
      exact ⟨u, by rw [String.toList_append]; exact hstuck.append _⟩

/-- A name in front of a value. -/
theorem ReadsWhen.member {P : Json → Prop} (h : ReadsWhen C P text) (before name : String)
    (hkey : IsKey ',' name [] before) :
    MembersWhen C (fun ms ↦ ∃ v, ms = [(name.toList, v)] ∧ P v) fun u ↦ before ++ text u := by
  have hsplit : ∀ u, (before ++ text u).toList =
      ',' :: '"' :: (name.toList ++ '"' :: ':' :: (text u).toList) := by
    intro u
    rw [String.toList_append, hkey.toList_eq]
    simp
  refine ⟨fun hc u ↦ ?_, fun u ↦ ?_, fun hc ↦ ?_⟩
  · obtain ⟨v, hp, hval⟩ := h.val hc u
    exact ⟨_, ⟨v, rfl, hp⟩, by rw [hsplit]; exact hval.member hkey.plain⟩
  · rw [hsplit]
    rcases h.or_dead u with ⟨v, hval⟩ | hdead
    · exact Or.inl ⟨_, hval.member hkey.plain⟩
    · exact Or.inr (hdead.member hkey.plain)
  · obtain ⟨u, hdead⟩ := h.dead hc
    exact ⟨u, by rw [hsplit]; exact hdead.member hkey.plain⟩

/-- A list in brackets, behind its name. -/
theorem membersWhen_list {α : Type} {text : U → α → String} {C : α → Prop} {P : Json → Prop}
    (before name : String) (xs : List α) (h : ∀ x, ReadsWhen (C x) P fun u ↦ text u x)
    (hkey : IsKey ',' name [] before) :
    MembersWhen (∀ x ∈ xs, C x) (fun ms ↦ ∃ vs, ms = [(name.toList, .arr vs)] ∧
      vs.length = xs.length) fun u ↦ before ++ "[" ++ listText (text u) xs ++ "]" := by
  have hmember := (readsWhen_array xs h).member before name hkey
  have htext : ∀ u, before ++ "[" ++ listText (text u) xs ++ "]" =
      before ++ ("[" ++ listText (text u) xs ++ "]") := by
    intro u
    simp only [String.append_assoc]
  refine (hmember.imp fun ms hms ↦ ?_).of_eq htext
  obtain ⟨v, rfl, vs, rfl, hlen⟩ := hms
  exact ⟨vs, rfl, hlen⟩

/-- The first member, the others and the end of an object. -/
theorem MembersWhen.object (before name : String) {first : String} {v : Json}
    (hkey : IsKey '{' name [] before) (hfirst : Val first.toList v) (h : MembersWhen C P text) :
    ReadsWhen C (fun w ↦ ∃ ms, w = .obj ((name.toList, v) :: ms) ∧ P ms)
      fun u ↦ before ++ first ++ text u ++ "\x7d" := by
  have hsplit : ∀ u, (before ++ first ++ text u ++ "\x7d").toList = '{' :: '"' ::
      (name.toList ++ '"' :: ':' :: (first.toList ++ ((text u).toList ++ ['}']))) := by
    intro u
    simp [String.toList_append, hkey.toList_eq]
  refine ⟨fun hc u ↦ ?_, fun u ↦ ?_, fun hc ↦ ?_⟩
  · obtain ⟨ms, hp, hms⟩ := h.members hc u
    exact ⟨_, ⟨ms, rfl, hp⟩, by rw [hsplit]; exact hfirst.object hkey.plain hms⟩
  · rw [hsplit]
    rcases h.or_stuck u with ⟨ms, hms⟩ | hstuck
    · exact Or.inl ⟨_, hfirst.object hkey.plain hms⟩
    · exact Or.inr (hfirst.object_dead hkey.plain (hstuck.append _))
  · obtain ⟨u, hstuck⟩ := h.stuck hc
    exact ⟨u, by rw [hsplit]; exact hfirst.object_dead hkey.plain (hstuck.append _)⟩

end Members

/-! ## The names of the members -/

/-- The text has members of these names, or cannot be read. -/
def Named (names : List String) (text : String) : Prop :=
  (∃ ms, ms.map Prod.fst = names.map String.toList ∧ Members text.toList ms) ∨ Stuck text.toList

theorem named_empty : Named [] "" := Or.inl ⟨[], rfl, members_nil⟩

theorem Named.append {names names' : List String} {text text' : String} (h : Named names text)
    (h' : Named names' text') : Named (names ++ names') (text ++ text') := by
  rw [Named, String.toList_append]
  rcases h with ⟨ms, hnames, hms⟩ | hstuck
  · rcases h' with ⟨ns, hnames', hns⟩ | hstuck
    · exact Or.inl ⟨ms ++ ns, by rw [List.map_append, hnames, hnames', List.map_append],
        hms.append hns⟩
    · exact Or.inr (hms.append_stuck hstuck)
  · exact Or.inr (hstuck.append _)

/-- A name in front of a text that reads as a value, or cannot be read. -/
theorem named_of_or_dead {text : String} (h : (∃ v, Val text.toList v) ∨ Dead text.toList)
    (before name : String) (hkey : IsKey ',' name [] before) : Named [name] (before ++ text) := by
  have hsplit : (before ++ text).toList =
      ',' :: '"' :: (name.toList ++ '"' :: ':' :: text.toList) := by
    rw [String.toList_append, hkey.toList_eq]
    simp
  rw [Named, hsplit]
  rcases h with ⟨v, hval⟩ | hdead
  · exact Or.inl ⟨[(name.toList, v)], rfl, hval.member hkey.plain⟩
  · exact Or.inr (hdead.member hkey.plain)

/-- **The names in an object**: what a reader finds are the names of the pieces. -/
theorem Named.object {names : List String} {text first : String} {v w : Json}
    (h : Named names text) (before name : String) (hkey : IsKey '{' name [] before)
    (hfirst : Val first.toList w) (hparse : parse (before ++ first ++ text ++ "\x7d") = some v) :
    ∃ ms, v = .obj ms ∧ ms.map Prod.fst = (name :: names).map String.toList := by
  have hsplit : (before ++ first ++ text ++ "\x7d").toList = '{' :: '"' ::
      (name.toList ++ '"' :: ':' :: (first.toList ++ (text.toList ++ ['}']))) := by
    simp [String.toList_append, hkey.toList_eq]
  rcases h with ⟨ms, hnames, hms⟩ | hstuck
  · have hval : Val (before ++ first ++ text ++ "\x7d").toList
        (.obj ((name.toList, w) :: ms)) := by
      rw [hsplit]
      exact hfirst.object hkey.plain hms
    rw [hval.parse] at hparse
    exact ⟨_, (Option.some.inj hparse).symm, by rw [List.map_cons, hnames, List.map_cons]⟩
  · have hdead : Dead (before ++ first ++ text ++ "\x7d").toList := by
      rw [hsplit]
      exact hfirst.object_dead hkey.plain (hstuck.append _)
    rw [parse_eq_none (hdead.run_eq [])] at hparse
    cases hparse

end Json
