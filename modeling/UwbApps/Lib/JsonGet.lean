import UwbApps.Lib.Printf

/-!
# Taking a JSON value apart

`get` looks up a member by its name and `elems` reads all elements of an array.  A text that is
known to have a member can be looked up without knowing the members around it: `Among` is what has
to be known of them, that their names are others.
-/

set_option autoImplicit false

namespace Json

open Printf

variable {α β : Type}

/-- The value of a member; of several with the name the last one. -/
def get (name : String) : Json → Option Json
  | .obj ms => (ms.reverse.find? fun m ↦ m.1 = name.toList).map Prod.snd
  | _ => none

/-- The elements of an array, each read with `f`. -/
def elems (f : Json → Option α) : Json → Option (List α)
  | .arr vs => vs.mapM f
  | _ => none

def string : Json → Option (List Char)
  | .str text => some text
  | _ => none

def number : Json → Option (List Char)
  | .num text => some text
  | _ => none

/-- All members have one of these names. -/
def Among (names : List String) (ms : List (List Char × Json)) : Prop :=
  ∀ m ∈ ms, ∃ name ∈ names, m.1 = name.toList

variable {names : List String} {ms ns : List (List Char × Json)}

theorem among_nil (names : List String) : Among names [] := fun _ h ↦ nomatch h

theorem among_singleton {name : String} (h : name ∈ names) (v : Json) :
    Among names [(name.toList, v)] :=
  List.forall_mem_singleton.mpr ⟨name, h, rfl⟩

theorem Among.append (h : Among names ms) (h' : Among names ns) : Among names (ms ++ ns) :=
  List.forall_mem_append.mpr ⟨h, h'⟩

theorem Among.ne (h : Among names ms) {name : String} (hname : name ∉ names) :
    ∀ m ∈ ms, m.1 ≠ name.toList := by
  intro m hm heq
  obtain ⟨other, hother, heq'⟩ := h m hm
  exact hname (String.toList_injective (heq.symm.trans heq') ▸ hother)

/-- A member behind which its name does not come again. -/
theorem get_of_last {name : String} (v : Json) (h : ∀ m ∈ ns, m.1 ≠ name.toList) :
    get name (.obj (ms ++ (name.toList, v) :: ns)) = some v := by
  have hnone : ns.reverse.find? (fun m ↦ m.1 = name.toList) = none := by
    simpa using h
  rw [get, List.reverse_append, List.reverse_cons, List.append_assoc, List.find?_append, hnone]
  simp

theorem get_eq_none {name : String} (h : ∀ m ∈ ms, m.1 ≠ name.toList) :
    get name (.obj ms) = none := by
  have hnone : ms.reverse.find? (fun m ↦ m.1 = name.toList) = none := by
    simpa using h
  rw [get, hnone, Option.map_none]

/-- An array that is made of values is read as what they are read as. -/
theorem elems_map {f : Json → Option α} {value : β → Json} {x : β → α} {bs : List β}
    (h : ∀ b ∈ bs, f (value b) = some (x b)) :
    elems f (.arr (bs.map value)) = some (bs.map x) := by
  rw [elems]
  induction bs with
  | nil => rfl
  | cons b bs ih =>
    obtain ⟨hb, hbs⟩ := List.forall_mem_cons.mp h
    rw [List.map_cons, List.mapM_cons, hb, ih hbs]
    rfl

/-- An array, put together from elements that are known. -/
theorem val_arr {text : β → List Char} {value : β → Json} (bs : List β)
    (h : ∀ b ∈ bs, Val (text b) (value b)) :
    Val ('[' :: ([','].intercalate (bs.map text) ++ [']'])) (.arr (bs.map value)) := by
  rcases bs with _ | ⟨b, bs⟩
  · exact val_nil
  · refine Elems.val ?_
    induction bs generalizing b with
    | nil =>
      rw [List.map_singleton, List.map_singleton, List.intercalate_singleton]
      exact (h b List.mem_cons_self).elems
    | cons c bs ih =>
      obtain ⟨hb, hrest⟩ := List.forall_mem_cons.mp h
      rw [List.map_cons, List.map_cons, List.map_cons, List.intercalate_cons_cons,
        List.append_assoc, List.map_cons]
      exact .cons hb (ih c hrest)

/-- The text has members with these names, as many as it likes. -/
def MembersAmong (names : List String) (text : String) : Prop :=
  ∃ ms, Members text.toList ms ∧ Among names ms

theorem membersAmong_empty (names : List String) : MembersAmong names "" :=
  ⟨[], members_nil, among_nil names⟩

theorem MembersAmong.append {s t : String} (hs : MembersAmong names s)
    (ht : MembersAmong names t) : MembersAmong names (s ++ t) := by
  obtain ⟨ms, hs, hms⟩ := hs
  obtain ⟨ns, ht, hns⟩ := ht
  refine ⟨ms ++ ns, ?_, hms.append hns⟩
  rw [String.toList_append]
  exact hs.append ht

/-- One member. -/
theorem membersAmong_of_members {name : String} (hname : name ∈ names) {text : String} {v : Json}
    (h : Members text.toList [(name.toList, v)]) : MembersAmong names text :=
  ⟨_, h, among_singleton hname v⟩

end Json
