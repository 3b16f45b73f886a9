import Mathlib.Data.Int.Notation
import Mathlib.Data.List.Basic

/-!
# JSON texts

`Json.parse` reads a text character by character, as RFC 8259 has it: a machine with a stack of
the arrays and objects that are open and a mode that says what may come next.  Numbers and strings
keep their text.

A text put together from pieces is read piece by piece (`run_append`).  `Val cs v`,
`Elems cs vs` and `Members cs ms` say that a piece reads as a value, as the elements of an array
and as further members of an object wherever such a thing may stand, and the rules after them
follow the grammar.
-/

set_option autoImplicit false

/-- A JSON value.  Numbers and strings are kept as they are written. -/
inductive Json
  | null
  | bool (b : Bool)
  | num (text : List Char)
  | str (text : List Char)
  | arr (elems : List Json)
  | obj (members : List (List Char × Json))

namespace Json

/-- An array or object that is still open. -/
inductive Frame
  | arr (elems : List Json)
  /-- The members so far, and the name of the one whose value is being read. -/
  | obj (members : List (List Char × Json)) (name : List Char)

/-- Where in a number. -/
inductive NumPhase
  | minus
  | zero
  | int
  | dot
  | frac
  | e
  | esign
  | exp
deriving DecidableEq

/-- What may come next. -/
inductive Mode
  | value
  /-- After `[`: a value or the end. -/
  | first
  /-- After a comma in an object. -/
  | name
  /-- After `{`: a name or the end. -/
  | firstName
  | colon
  /-- After a value in an array or object. -/
  | next
  | str (isName : Bool) (text : List Char)
  | esc (isName : Bool) (text : List Char)
  | uni (isName : Bool) (text : List Char) (left : ℕ)
  | num (phase : NumPhase) (text : List Char)
  /-- In `null`, `true` or `false`, with the characters to come. -/
  | lit (v : Json) (rest : List Char)

inductive State
  | done (v : Json)
  | at (mode : Mode) (frames : List Frame)

def isWs (c : Char) : Bool := c = ' ' || c = '\t' || c = '\n' || c = '\r'

/-- A character that stands for itself in a string. -/
def isPlain (c : Char) : Bool := 0x20 ≤ c.toNat && c ≠ '"' && c ≠ '\\'

def isHex (c : Char) : Bool := c.isDigit || 'a' ≤ c && c ≤ 'f' || 'A' ≤ c && c ≤ 'F'

def NumPhase.next : NumPhase → Char → Option NumPhase
  | .minus, c => if c = '0' then some .zero else if c.isDigit then some .int else none
  | .zero, c => if c = '.' then some .dot else if c = 'e' || c = 'E' then some .e else none
  | .int, c =>
    if c.isDigit then some .int else if c = '.' then some .dot
    else if c = 'e' || c = 'E' then some .e else none
  | .dot, c => if c.isDigit then some .frac else none
  | .frac, c => if c.isDigit then some .frac else if c = 'e' || c = 'E' then some .e else none
  | .e, c => if c = '+' || c = '-' then some .esign else if c.isDigit then some .exp else none
  | .esign, c => if c.isDigit then some .exp else none
  | .exp, c => if c.isDigit then some .exp else none

/-- A number may end here. -/
def NumPhase.isFinal : NumPhase → Bool
  | .zero | .int | .frac | .exp => true
  | .minus | .dot | .e | .esign => false

/-- A value is complete: it goes to the innermost array or object that is open. -/
def deliver (v : Json) : List Frame → State
  | [] => .done v
  | .arr elems :: fs => .at .next (.arr (elems ++ [v]) :: fs)
  | .obj members name :: fs => .at .next (.obj (members ++ [(name, v)]) [] :: fs)

/-- The first character of a value, or space in front of it. -/
def startValue (mode : Mode) (fs : List Frame) (c : Char) : Option State :=
  if isWs c then some (.at mode fs)
  else if c = '{' then some (.at .firstName (.obj [] [] :: fs))
  else if c = '[' then some (.at .first (.arr [] :: fs))
  else if c = '"' then some (.at (.str false []) fs)
  else if c = '-' then some (.at (.num .minus [c]) fs)
  else if c = '0' then some (.at (.num .zero [c]) fs)
  else if c.isDigit then some (.at (.num .int [c]) fs)
  else if c = 'n' then some (.at (.lit .null ['u', 'l', 'l']) fs)
  else if c = 't' then some (.at (.lit (.bool true) ['r', 'u', 'e']) fs)
  else if c = 'f' then some (.at (.lit (.bool false) ['a', 'l', 's', 'e']) fs)
  else none

/-- The quote that ends a string. -/
def endString (isName : Bool) (text : List Char) (fs : List Frame) : Option State :=
  if isName then
    match fs with
    | .obj members _ :: fs => some (.at .colon (.obj members text :: fs))
    | _ => none
  else some (deliver (.str text) fs)

/-- The quote that starts a name, or space in front of it. -/
def startName (mode : Mode) (fs : List Frame) (c : Char) : Option State :=
  if isWs c then some (.at mode fs) else if c = '"' then some (.at (.str true []) fs) else none

/-- What may follow a value. -/
def afterValue : State → Char → Option State
  | .done v, c => if isWs c then some (.done v) else none
  | .at .next (.arr elems :: fs), c =>
    if isWs c then some (.at .next (.arr elems :: fs))
    else if c = ',' then some (.at .value (.arr elems :: fs))
    else if c = ']' then some (deliver (.arr elems) fs)
    else none
  | .at .next (.obj members name :: fs), c =>
    if isWs c then some (.at .next (.obj members name :: fs))
    else if c = ',' then some (.at .name (.obj members name :: fs))
    else if c = '}' then some (deliver (.obj members) fs)
    else none
  | _, _ => none

def step : State → Char → Option State
  | .at .value fs, c => startValue .value fs c
  | .at .first fs, c =>
    match fs with
    | .arr elems :: fs' =>
      if c = ']' then some (deliver (.arr elems) fs') else startValue .first fs c
    | _ => none
  | .at .name fs, c => startName .name fs c
  | .at .firstName fs, c =>
    match fs with
    | .obj members _ :: fs' =>
      if c = '}' then some (deliver (.obj members) fs') else startName .firstName fs c
    | _ => none
  | .at .colon fs, c =>
    if isWs c then some (.at .colon fs) else if c = ':' then some (.at .value fs) else none
  | .at (.str isName text) fs, c =>
    if c = '"' then endString isName text fs
    else if c = '\\' then some (.at (.esc isName (text ++ [c])) fs)
    else if isPlain c then some (.at (.str isName (text ++ [c])) fs)
    else none
  | .at (.esc isName text) fs, c =>
    if c = 'u' then some (.at (.uni isName (text ++ [c]) 4) fs)
    else if c ∈ ['"', '\\', '/', 'b', 'f', 'n', 'r', 't'] then
      some (.at (.str isName (text ++ [c])) fs)
    else none
  | .at (.uni isName text left) fs, c =>
    if !isHex c then none
    else if left = 1 then some (.at (.str isName (text ++ [c])) fs)
    else some (.at (.uni isName (text ++ [c]) (left - 1)) fs)
  | .at (.num phase text) fs, c =>
    match phase.next c with
    | some phase => some (.at (.num phase (text ++ [c])) fs)
    | none => if phase.isFinal then afterValue (deliver (.num text) fs) c else none
  | .at (.lit v rest) fs, c =>
    match rest with
    | [d] => if c = d then some (deliver v fs) else none
    | d :: rest => if c = d then some (.at (.lit v rest) fs) else none
    | [] => none
  | s, c => afterValue s c

/-- The text `cs`, from a state on. -/
def run (s : State) (cs : List Char) : Option State := cs.foldlM step s

/-- A number that may end here does. -/
def settle : State → State
  | .at (.num phase text) fs =>
    if phase.isFinal then deliver (.num text) fs else .at (.num phase text) fs
  | s => s

/-- What a text reads as, if it is a JSON text. -/
def parse (s : String) : Option Json :=
  match (run (.at .value []) s.toList).map settle with
  | some (.done v) => some v
  | _ => none

/-! ## Reading in pieces -/

theorem run_append (s : State) (cs ds : List Char) :
    run s (cs ++ ds) = (run s cs).bind fun t ↦ run t ds :=
  List.foldlM_append

theorem run_cons (s : State) (c : Char) (cs : List Char) :
    run s (c :: cs) = (step s c).bind fun t ↦ run t cs :=
  List.foldlM_cons

/-- A piece after which nothing can follow leaves no JSON text. -/
theorem run_append_eq_none {s t : State} {cs ds : List Char} (h : run s cs = some t)
    (hds : run t ds = none) : run s (cs ++ ds) = none := by
  rw [run_append, h, Option.bind_some, hds]

theorem parse_eq_none {s : String} (h : run (.at .value []) s.toList = none) : parse s = none := by
  rw [parse, h]
  rfl

/-- The text `cs` leads from `s` to `t`, once a number at its end is complete. -/
def Reach (s : State) (cs : List Char) (t : State) : Prop := (run s cs).map settle = some t

/-- A character that ends a number. -/
def isDelim (c : Char) : Bool := c = ',' || c = ']' || c = '}' || isWs c

/-- A piece that can follow a number. -/
def Delimited (cs : List Char) : Prop := ∀ c ∈ cs.head?, isDelim c = true

theorem step_deliver (v : Json) (fs : List Frame) (c : Char) :
    step (deliver v fs) c = afterValue (deliver v fs) c := by
  rcases fs with _ | ⟨_ | _, _⟩ <;> rfl

theorem next_of_isDelim {c : Char} (hc : isDelim c = true) (phase : NumPhase) :
    phase.next c = none := by
  simp only [isDelim, isWs, Bool.or_eq_true, decide_eq_true_eq] at hc
  rcases hc with ((rfl | rfl) | rfl) | ((rfl | rfl) | rfl) | rfl <;> cases phase <;> rfl

/-- Where a number may end, a delimiter ends it. -/
theorem step_settle (s : State) {c : Char} (hc : isDelim c = true) :
    step (settle s) c = step s c := by
  rw [settle.eq_def]
  split
  · next phase text fs =>
    split
    · next h =>
      rw [step_deliver, step, next_of_isDelim hc phase]
      simp only [h, if_true]
    · rfl
  · rfl

theorem settle_settle (s : State) : settle (settle s) = settle s := by
  rw [settle.eq_def s]
  split
  · next phase text fs =>
    split
    · rcases fs with _ | ⟨_ | _, _⟩ <;> rfl
    · next h => rw [settle, if_neg h]
  · next h => rw [settle.eq_def]; split <;> simp_all

/-- After a settled state the rest is read as after the number that ended there. -/
theorem map_settle_run {s : State} {ds : List Char} (hds : Delimited ds) :
    (run (settle s) ds).map settle = (run s ds).map settle := by
  cases ds with
  | nil => exact congrArg some (settle_settle s)
  | cons d ds => rw [run_cons, run_cons, step_settle s (hds d rfl)]

theorem run_settle_eq_none {s : State} {ds : List Char} (hds : Delimited ds)
    (h : run (settle s) ds = none) : run s ds = none := by
  have hmap := map_settle_run (s := s) hds
  rw [h] at hmap
  exact Option.map_eq_none_iff.mp hmap.symm

theorem Reach.append {s t u : State} {cs ds : List Char} (h : Reach s cs t) (h' : Reach t ds u)
    (hds : Delimited ds) : Reach s (cs ++ ds) u := by
  obtain ⟨r, hr, rfl⟩ := Option.map_eq_some_iff.mp h
  rw [Reach, run_append, hr, Option.bind_some, ← map_settle_run hds]
  exact h'

/-- A piece that leaves no open number can be followed by anything. -/
theorem Reach.of_run {s t u : State} {cs ds : List Char} (h : run s cs = some t)
    (h' : Reach t ds u) : Reach s (cs ++ ds) u := by
  rw [Reach, run_append, h, Option.bind_some]
  exact h'

/-- Nothing can follow: the piece `ds` fails after what `cs` leads to. -/
theorem Reach.append_eq_none {s t : State} {cs ds : List Char} (h : Reach s cs t)
    (hds : Delimited ds) (hnone : run t ds = none) : run s (cs ++ ds) = none := by
  obtain ⟨r, hr, rfl⟩ := Option.map_eq_some_iff.mp h
  exact run_append_eq_none hr (run_settle_eq_none hds hnone)

theorem parse_of_reach {s : String} {v : Json} (h : Reach (.at .value []) s.toList (.done v)) :
    parse s = some v := by
  rw [Reach] at h
  rw [parse, h]

/-! ## Strings and numbers -/

/-- The text reads as the value `v` wherever one may stand. -/
structure Val (cs : List Char) (v : Json) : Prop where
  reach : ∀ fs, Reach (.at .value fs) cs (deliver v fs)
  head : ∃ c ds, cs = c :: ds ∧ c ≠ ']' ∧ isWs c = false

/-- A text of plain characters. -/
def Plain (cs : List Char) : Prop := ∀ c ∈ cs, isPlain c = true

instance (cs : List Char) : Decidable (Plain cs) := List.decidableBAll _ cs

theorem Plain.append {cs ds : List Char} (h : Plain cs) (h' : Plain ds) : Plain (cs ++ ds) :=
  fun c hc ↦ (List.mem_append.mp hc).elim (h c) (h' c)

theorem run_str_of_plain {cs : List Char} (h : Plain cs) (isName : Bool) (text : List Char)
    (fs : List Frame) :
    run (.at (.str isName text) fs) cs = some (.at (.str isName (text ++ cs)) fs) := by
  induction cs generalizing text with
  | nil =>
    rw [List.append_nil]
    rfl
  | cons c cs ih =>
    have hc := h c List.mem_cons_self
    have hplain := hc
    simp only [isPlain, Bool.and_eq_true, decide_eq_true_eq, ne_eq] at hc
    have hstep : step (.at (.str isName text) fs) c =
        some (.at (.str isName (text ++ [c])) fs) := by
      simp only [step, if_neg hc.1.2, if_neg hc.2, hplain, if_true]
    rw [run_cons, hstep, Option.bind_some, ih (fun d hd ↦ h d (List.mem_cons_of_mem c hd)),
      List.append_assoc, List.singleton_append]

/-- A quoted text is a string. -/
theorem val_str {cs : List Char} (h : Plain cs) : Val ('"' :: (cs ++ ['"'])) (.str cs) where
  reach fs := by
    have hopen : run (.at .value fs) ['"'] = some (.at (.str false []) fs) := rfl
    have hbody := run_str_of_plain h false [] fs
    have hclose : Reach (.at (.str false ([] ++ cs)) fs) ['"'] (deliver (.str cs) fs) := by
      rw [List.nil_append]
      rcases fs with _ | ⟨_ | _, _⟩ <;> rfl
    exact @Reach.of_run _ _ _ ['"'] _ hopen (.of_run hbody hclose)
  head := ⟨'"', _, rfl, by decide, by decide⟩

theorem val_null : Val ['n', 'u', 'l', 'l'] .null where
  reach fs := by rcases fs with _ | ⟨_ | _, _⟩ <;> rfl
  head := ⟨'n', _, rfl, by decide, by decide⟩

/-- A text of digits. -/
def Digits (cs : List Char) : Prop := ∀ c ∈ cs, c.isDigit = true

theorem digits_toDigits (n : ℕ) : Digits (Nat.toDigits 10 n) :=
  fun _ ↦ Nat.isDigit_of_mem_toDigits (by decide) (by decide)

theorem mem_of_isDigit {c : Char} (h : c.isDigit = true) :
    c ∈ ['0', '1', '2', '3', '4', '5', '6', '7', '8', '9'] := by
  have hall : ∀ d < 10,
      Char.ofNat (48 + d) ∈ ['0', '1', '2', '3', '4', '5', '6', '7', '8', '9'] := by
    decide
  obtain ⟨hlow, hhigh⟩ := Char.isDigit_iff_toNat.mp h
  change 48 ≤ c.toNat at hlow
  change c.toNat ≤ 57 at hhigh
  have hmem := hall (c.toNat - 48) (by omega)
  rwa [Nat.add_sub_cancel' hlow, Char.ofNat_toNat] at hmem

theorem plain_of_digits {cs : List Char} (h : Digits cs) : Plain cs := by
  have hall : ∀ c ∈ ['0', '1', '2', '3', '4', '5', '6', '7', '8', '9'], isPlain c = true :=
    List.all_eq_true.mp (by decide)
  exact fun c hc ↦ hall c (mem_of_isDigit (h c hc))

/-- The digits of a number, up to base 16. -/
theorem plain_toDigits {b : ℕ} (hb : 1 < b) (hb' : b ≤ 16) (n : ℕ) : Plain (Nat.toDigits b n) := by
  have hall : ∀ d < 16, isPlain (Nat.digitChar d) = true := by decide
  induction n using Nat.strongRecOn with
  | ind n ih =>
    rw [Nat.toDigits_eq_if hb]
    split
    · next hlt =>
      intro c hc
      rw [List.mem_singleton.mp hc]
      exact hall n (by omega)
    · next hge =>
      refine (ih (n / b) (Nat.div_lt_self (by omega) hb)).append fun c hc ↦ ?_
      rw [List.mem_singleton.mp hc]
      exact hall _ (Nat.lt_of_lt_of_le (Nat.mod_lt n (by omega)) hb')

/-- The text is a number so far, as far as `phase`. -/
structure NumTo (cs : List Char) (phase : NumPhase) : Prop where
  run_eq : ∀ fs, run (.at .value fs) cs = some (.at (.num phase cs) fs)
  head : ∃ c ds, cs = c :: ds ∧ (c = '-' ∨ c.isDigit = true)

/-- Its first character is none that could stand for something else. -/
theorem NumTo.first {cs : List Char} {phase : NumPhase} (h : NumTo cs phase) :
    ∃ c ds, cs = c :: ds ∧ c ≠ ']' ∧ isWs c = false := by
  obtain ⟨c, ds, rfl, hc⟩ := h.head
  refine ⟨c, ds, rfl, ?_⟩
  rcases hc with rfl | hc
  · decide
  · have hall : ∀ c ∈ ['0', '1', '2', '3', '4', '5', '6', '7', '8', '9'],
        c ≠ ']' ∧ isWs c = false := by
      simp [isWs]
    exact hall c (mem_of_isDigit hc)

theorem NumTo.val {cs : List Char} {phase : NumPhase} (h : NumTo cs phase)
    (hfinal : phase.isFinal = true) : Val cs (.num cs) where
  reach fs := by
    rw [Reach, h.run_eq, Option.map_some, settle, if_pos hfinal]
  head := h.first

theorem NumTo.snoc {cs : List Char} {phase phase' : NumPhase} {c : Char} (h : NumTo cs phase)
    (hc : phase.next c = some phase') : NumTo (cs ++ [c]) phase' where
  run_eq fs := by
    rw [run_append, h.run_eq, Option.bind_some, run_cons, step, hc]
    rfl
  head := by
    obtain ⟨d, ds, rfl, hd⟩ := h.head
    exact ⟨d, ds ++ [c], rfl, hd⟩

/-- Digits go on a number where they may. -/
theorem NumTo.digits {cs ds : List Char} {phase : NumPhase} (h : NumTo cs phase)
    (hphase : ∀ c : Char, c.isDigit = true → phase.next c = some phase) (hds : Digits ds) :
    NumTo (cs ++ ds) phase := by
  induction ds generalizing cs with
  | nil => rwa [List.append_nil]
  | cons d ds ih =>
    have hd := h.snoc (hphase d (hds d List.mem_cons_self))
    have hrest := ih hd fun c hc ↦ hds c (List.mem_cons_of_mem d hc)
    rwa [List.append_assoc, List.singleton_append] at hrest

theorem run_digits_of_frac {ds : List Char} (hds : Digits ds) (text : List Char)
    (fs : List Frame) :
    run (.at (.num .frac text) fs) ds = some (.at (.num .frac (text ++ ds)) fs) := by
  induction ds generalizing text with
  | nil =>
    rw [List.append_nil]
    rfl
  | cons d ds ih =>
    have hd : NumPhase.next .frac d = some .frac := by
      simp [NumPhase.next, hds d List.mem_cons_self]
    rw [run_cons, step, hd]
    refine (ih (fun c hc ↦ hds c (List.mem_cons_of_mem d hc)) (text ++ [d])).trans ?_
    rw [List.append_assoc, List.singleton_append]

/-- The digits of a number start with a zero only if it is zero. -/
theorem toDigits_eq_cons (n : ℕ) :
    ∃ c ds, Nat.toDigits 10 n = c :: ds ∧ (c = '0' → n = 0) := by
  induction n using Nat.strongRecOn with
  | ind n ih =>
    rw [Nat.toDigits_eq_if (by decide)]
    split
    · next hlt =>
      have hall : ∀ d < 10, Nat.digitChar d = '0' → d = 0 := by decide
      exact ⟨_, [], rfl, hall n hlt⟩
    · next hge =>
      obtain ⟨c, ds, heq, hzero⟩ := ih (n / 10) (by omega)
      refine ⟨c, ds ++ [(n % 10).digitChar], by rw [heq]; rfl, fun hc ↦ ?_⟩
      have := hzero hc
      omega

/-- The integer part of a number may end. -/
def IsInt (phase : NumPhase) : Prop := phase = .zero ∨ phase = .int

/-- The first digit decides how the integer part goes on. -/
theorem exists_numTo_of_first (cs : List Char) {n : ℕ}
    (hfirst : ∀ c : Char, c.isDigit = true →
      NumTo (cs ++ [c]) (if c = '0' then .zero else .int)) :
    ∃ phase, IsInt phase ∧ NumTo (cs ++ Nat.toDigits 10 n) phase := by
  obtain ⟨c, ds, heq, hzero⟩ := toDigits_eq_cons n
  have hdigits := digits_toDigits n
  rw [heq] at hdigits ⊢
  have hc := hfirst c (hdigits c List.mem_cons_self)
  by_cases hc0 : c = '0'
  · rw [hzero hc0, Nat.toDigits_zero, List.cons.injEq] at heq
    rw [if_pos hc0] at hc
    rw [← heq.2]
    exact ⟨.zero, Or.inl rfl, hc⟩
  · rw [if_neg hc0] at hc
    refine ⟨.int, Or.inr rfl, ?_⟩
    have hrest := hc.digits (fun d hd ↦ by simp [NumPhase.next, hd])
      fun d hd ↦ hdigits d (List.mem_cons_of_mem c hd)
    rwa [List.append_assoc, List.singleton_append] at hrest

/-- The decimal digits of a number. -/
theorem exists_numTo_nat (n : ℕ) : ∃ phase, IsInt phase ∧ NumTo (Nat.toDigits 10 n) phase := by
  refine exists_numTo_of_first [] fun c hc ↦ ⟨fun fs ↦ ?_, c, [], rfl, Or.inr hc⟩
  have hall : ∀ c ∈ ['0', '1', '2', '3', '4', '5', '6', '7', '8', '9'],
      step (.at .value fs) c =
        some (.at (.num (if c = '0' then .zero else .int) ([] ++ [c])) fs) := by
    simp [step, startValue, isWs]
  rw [List.nil_append, run_cons, hall c (mem_of_isDigit hc)]
  rfl

theorem numTo_minus : NumTo ['-'] .minus := ⟨fun _ ↦ rfl, '-', [], rfl, Or.inl rfl⟩

/-- The same with a sign. -/
theorem exists_numTo_neg (n : ℕ) :
    ∃ phase, IsInt phase ∧ NumTo ('-' :: Nat.toDigits 10 n) phase := by
  refine exists_numTo_of_first ['-'] fun c hc ↦ numTo_minus.snoc ?_
  by_cases hc0 : c = '0'
  · rw [if_pos hc0, NumPhase.next, if_pos hc0]
  · rw [if_neg hc0, NumPhase.next, if_neg hc0, if_pos hc]

theorem toList_toString_int (i : ℤ) :
    (toString i).toList =
      if i < 0 then '-' :: Nat.toDigits 10 i.natAbs else Nat.toDigits 10 i.natAbs := by
  cases i with
  | ofNat n => exact Nat.toList_repr
  | negSucc n =>
    have h : (toString (Int.negSucc n)).toList = "-".toList ++ (Nat.repr (n + 1)).toList :=
      String.toList_append
    rw [h, Nat.toList_repr, if_pos (Int.negSucc_lt_zero n)]
    rfl

theorem exists_numTo_int (i : ℤ) : ∃ phase, IsInt phase ∧ NumTo (toString i).toList phase := by
  rw [toList_toString_int]
  split
  · exact exists_numTo_neg _
  · exact exists_numTo_nat _

/-- A fraction behind the integer part. -/
theorem NumTo.frac {cs ds : List Char} {phase : NumPhase} (h : NumTo cs phase) (hint : IsInt phase)
    (hds : Digits ds) (hne : ds ≠ []) : NumTo (cs ++ '.' :: ds) .frac := by
  have hdot : phase.next '.' = some .dot := by
    rcases hint with rfl | rfl <;> rfl
  obtain ⟨d, ds, rfl⟩ := List.exists_cons_of_ne_nil hne
  have hd : NumPhase.next .dot d = some .frac := by
    simp [NumPhase.next, hds d List.mem_cons_self]
  have hrest := ((h.snoc hdot).snoc hd).digits (fun c hc ↦ by simp [NumPhase.next, hc])
    fun c hc ↦ hds c (List.mem_cons_of_mem d hc)
  simpa using hrest

theorem IsInt.isFinal {phase : NumPhase} (h : IsInt phase) : phase.isFinal = true := by
  rcases h with rfl | rfl <;> rfl

/-! ## Arrays and objects -/

/-- The text reads as one or more elements of an array, with commas between them. -/
structure Elems (cs : List Char) (vs : List Json) : Prop where
  reach : ∀ es fs, Reach (.at .value (.arr es :: fs)) cs (.at .next (.arr (es ++ vs) :: fs))
  head : ∃ c ds, cs = c :: ds ∧ c ≠ ']' ∧ isWs c = false

theorem Val.elems {cs : List Char} {v : Json} (h : Val cs v) : Elems cs [v] :=
  ⟨fun es fs ↦ h.reach (.arr es :: fs), h.head⟩

theorem Elems.cons {cs ds : List Char} {v : Json} {vs : List Json} (h : Val cs v)
    (h' : Elems ds vs) : Elems (cs ++ ',' :: ds) (v :: vs) where
  reach es fs := by
    have hcomma : run (.at .next (.arr (es ++ [v]) :: fs)) [','] =
        some (.at .value (.arr (es ++ [v]) :: fs)) := rfl
    have hrest := h'.reach (es ++ [v]) fs
    rw [List.append_assoc, List.singleton_append] at hrest
    refine (h.reach (.arr es :: fs)).append (@Reach.of_run _ _ _ [','] _ hcomma hrest) ?_
    rintro c ⟨⟩
    rfl
  head := by
    obtain ⟨c, cs, rfl, hc⟩ := h.head
    exact ⟨c, _, rfl, hc⟩

/-- An element may stand first in an array. -/
theorem step_first {c : Char} (hc : c ≠ ']') (hws : isWs c = false) (es : List Json)
    (fs : List Frame) :
    step (.at .first (.arr es :: fs)) c = step (.at .value (.arr es :: fs)) c := by
  simp [step, startValue, hc, hws]

theorem Elems.reach_first {cs : List Char} {vs : List Json} (h : Elems cs vs) (fs : List Frame) :
    Reach (.at .first (.arr [] :: fs)) cs (.at .next (.arr vs :: fs)) := by
  have hvalue := h.reach [] fs
  obtain ⟨c, ds, rfl, hc, hws⟩ := h.head
  rw [Reach, run_cons, step_first hc hws, ← run_cons]
  exact hvalue

theorem Elems.val {cs : List Char} {vs : List Json} (h : Elems cs vs) :
    Val ('[' :: (cs ++ [']'])) (.arr vs) where
  reach fs := by
    have hopen : run (.at .value fs) ['['] = some (.at .first (.arr [] :: fs)) := rfl
    have hclose : Reach (.at .next (.arr vs :: fs)) [']'] (deliver (.arr vs) fs) := by
      rcases fs with _ | ⟨_ | _, _⟩ <;> rfl
    refine @Reach.of_run _ _ _ ['['] _ hopen ((h.reach_first fs).append hclose ?_)
    rintro c ⟨⟩
    rfl
  head := ⟨'[', _, rfl, by decide, by decide⟩

theorem val_nil : Val ['[', ']'] (.arr []) where
  reach fs := by rcases fs with _ | ⟨_ | _, _⟩ <;> rfl
  head := ⟨'[', _, rfl, by decide, by decide⟩

/-- The text reads as further members of an object, each behind a comma. -/
structure Members (cs : List Char) (ms : List (List Char × Json)) : Prop where
  reach : ∀ ms₀ fs, Reach (.at .next (.obj ms₀ [] :: fs)) cs (.at .next (.obj (ms₀ ++ ms) [] :: fs))
  delimited : Delimited cs

theorem members_nil : Members [] [] where
  reach ms₀ fs := by
    rw [List.append_nil]
    rfl
  delimited := by rintro c ⟨⟩

theorem Members.append {cs ds : List Char} {ms ns : List (List Char × Json)} (h : Members cs ms)
    (h' : Members ds ns) : Members (cs ++ ds) (ms ++ ns) where
  reach ms₀ fs := by
    rw [← List.append_assoc]
    exact (h.reach ms₀ fs).append (h'.reach (ms₀ ++ ms) fs) h'.delimited
  delimited := by
    cases cs with
    | nil => exact h'.delimited
    | cons c cs => exact h.delimited

/-- The name of a member, up to its value. -/
theorem run_name {name : List Char} (hname : Plain name) (mode : Mode)
    (hmode : mode = .name ∨ mode = .firstName) (ms : List (List Char × Json)) (nm : List Char)
    (fs : List Frame) :
    run (.at mode (.obj ms nm :: fs)) ('"' :: (name ++ ['"', ':'])) =
      some (.at .value (.obj ms name :: fs)) := by
  have hopen : step (.at mode (.obj ms nm :: fs)) '"' =
      some (.at (.str true []) (.obj ms nm :: fs)) := by
    rcases hmode with rfl | rfl <;> rfl
  rw [run_cons, hopen, Option.bind_some, run_append, run_str_of_plain hname, Option.bind_some,
    List.nil_append]
  rfl

/-- The name of a further member. -/
theorem run_comma_name {name : List Char} (hname : Plain name) (ms : List (List Char × Json))
    (fs : List Frame) :
    run (.at .next (.obj ms [] :: fs)) (',' :: '"' :: (name ++ ['"', ':'])) =
      some (.at .value (.obj ms name :: fs)) := by
  have hcomma : step (.at .next (.obj ms [] :: fs)) ',' = some (.at .name (.obj ms [] :: fs)) := rfl
  rw [run_cons, hcomma, Option.bind_some, run_name hname .name (Or.inl rfl)]

/-- A comma, a name and a value are one more member. -/
theorem Val.member {name cs : List Char} {v : Json} (hname : Plain name) (h : Val cs v) :
    Members (',' :: '"' :: (name ++ '"' :: ':' :: cs)) [(name, v)] where
  reach ms₀ fs := by
    have hsplit : ',' :: '"' :: (name ++ '"' :: ':' :: cs) =
        ',' :: '"' :: (name ++ ['"', ':']) ++ cs := by simp
    rw [hsplit]
    exact .of_run (run_comma_name hname ms₀ fs) (h.reach (.obj ms₀ name :: fs))
  delimited := by
    rintro c ⟨⟩
    rfl

/-- The first member of an object. -/
theorem Val.firstMember {name cs : List Char} {v : Json} (hname : Plain name) (h : Val cs v)
    (fs : List Frame) :
    Reach (.at .value fs) ('{' :: '"' :: (name ++ '"' :: ':' :: cs))
      (.at .next (.obj [(name, v)] [] :: fs)) := by
  have hopen : run (.at .value fs) ['{'] = some (.at .firstName (.obj [] [] :: fs)) := rfl
  have hstart := run_name hname .firstName (Or.inr rfl) [] [] fs
  have hsplit : '{' :: '"' :: (name ++ '"' :: ':' :: cs) =
      ['{'] ++ ('"' :: (name ++ ['"', ':']) ++ cs) := by simp
  rw [hsplit]
  exact .of_run hopen (.of_run hstart (h.reach (.obj [] name :: fs)))

/-- An object with at least one member. -/
theorem Val.object {name cs ds : List Char} {v : Json} {ms : List (List Char × Json)}
    (hname : Plain name) (h : Val cs v) (h' : Members ds ms) :
    Val ('{' :: '"' :: (name ++ '"' :: ':' :: (cs ++ (ds ++ ['}'])))) (.obj ((name, v) :: ms)) where
  reach fs := by
    have hclose : Reach (.at .next (.obj ((name, v) :: ms) [] :: fs)) ['}']
        (deliver (.obj ((name, v) :: ms)) fs) := by
      rcases fs with _ | ⟨_ | _, _⟩ <;> rfl
    have hsplit : '{' :: '"' :: (name ++ '"' :: ':' :: (cs ++ (ds ++ ['}']))) =
        '{' :: '"' :: (name ++ '"' :: ':' :: cs) ++ (ds ++ ['}']) := by simp
    rw [hsplit]
    refine (h.firstMember hname fs).append ((h'.reach [(name, v)] fs).append hclose ?_) ?_
    · rintro c ⟨⟩
      rfl
    · cases ds with
      | nil =>
        rintro c ⟨⟩
        rfl
      | cons d ds => exact h'.delimited
  head := ⟨'{', _, rfl, by decide, by decide⟩

/-- A text that reads as a value is a JSON text. -/
theorem Val.parse {s : String} {v : Json} (h : Val s.toList v) : parse s = some v :=
  parse_of_reach (h.reach [])

/-! ## Lists of pieces -/

/-- Values with commas between them. -/
theorem elems_intercalate {css : List (List Char)} (hne : css ≠ [])
    (h : ∀ cs ∈ css, ∃ v, Val cs v) :
    ∃ vs, vs.length = css.length ∧ Elems ([','].intercalate css) vs := by
  induction css with
  | nil => exact absurd rfl hne
  | cons cs css ih =>
    obtain ⟨v, hv⟩ := h cs List.mem_cons_self
    cases css with
    | nil => exact ⟨[v], rfl, by rw [List.intercalate_singleton]; exact hv.elems⟩
    | cons ds css =>
      obtain ⟨vs, hlen, hvs⟩ := ih (List.cons_ne_nil _ _) fun cs hcs ↦
        h cs (List.mem_cons_of_mem _ hcs)
      refine ⟨v :: vs, congrArg (· + 1) hlen, ?_⟩
      rw [List.intercalate_cons_cons, List.append_assoc]
      exact .cons hv hvs

/-- An array, put together from its elements. -/
theorem val_array {css : List (List Char)} (h : ∀ cs ∈ css, ∃ v, Val cs v) :
    ∃ vs, vs.length = css.length ∧ Val ('[' :: ([','].intercalate css ++ [']'])) (.arr vs) := by
  by_cases hne : css = []
  · rw [hne]
    exact ⟨[], rfl, val_nil⟩
  · obtain ⟨vs, hlen, hvs⟩ := elems_intercalate hne h
    exact ⟨vs, hlen, hvs.val⟩

/-- No value starts with this text. -/
structure Dead (cs : List Char) : Prop where
  run_eq : ∀ fs, run (.at .value fs) cs = none
  head : ∃ c ds, cs = c :: ds ∧ c ≠ ']' ∧ isWs c = false

theorem Dead.append {cs : List Char} (h : Dead cs) (ds : List Char) : Dead (cs ++ ds) where
  run_eq fs := by rw [run_append, h.run_eq, Option.bind_none]
  head := by
    obtain ⟨c, es, rfl, hc⟩ := h.head
    exact ⟨c, es ++ ds, rfl, hc⟩

/-- A number that goes on with a character it cannot have, where it cannot end. -/
theorem NumTo.dead {cs : List Char} {phase : NumPhase} (h : NumTo cs phase) {c : Char}
    (hnext : phase.next c = none) (hfinal : phase.isFinal = false) : Dead (cs ++ [c]) where
  run_eq fs := by
    rw [run_append, h.run_eq, Option.bind_some, run_cons, step, hnext]
    simp [hfinal]
  head := by
    obtain ⟨d, ds, rfl, hd⟩ := h.first
    exact ⟨d, ds ++ [c], rfl, hd⟩

/-- A text that no value starts with among the elements of an array. -/
theorem run_intercalate_eq_none {css : List (List Char)}
    (h : ∀ cs ∈ css, (∃ v, Val cs v) ∨ Dead cs) (hdead : ∃ cs ∈ css, Dead cs) :
    (∀ es fs, run (.at .value (.arr es :: fs)) ([','].intercalate css) = none) ∧
      ∃ c ds, [','].intercalate css = c :: ds ∧ c ≠ ']' ∧ isWs c = false := by
  induction css with
  | nil =>
    obtain ⟨cs, hcs, -⟩ := hdead
    exact absurd hcs List.not_mem_nil
  | cons cs css ih =>
    have hhead : ∃ c ds, [','].intercalate (cs :: css) = c :: ds ∧ c ≠ ']' ∧ isWs c = false := by
      obtain ⟨c, ds, rfl, hc⟩ := (h cs List.mem_cons_self).elim (fun ⟨_, hv⟩ ↦ hv.head) Dead.head
      cases css with
      | nil => exact ⟨c, ds, List.intercalate_singleton, hc⟩
      | cons es css => exact ⟨c, _, List.intercalate_cons_cons, hc⟩
    refine ⟨fun es fs ↦ ?_, hhead⟩
    by_cases hcs : Dead cs
    · cases css with
      | nil => rw [List.intercalate_singleton, hcs.run_eq]
      | cons ds css =>
        rw [List.intercalate_cons_cons, List.append_assoc, run_append, hcs.run_eq, Option.bind_none]
    · obtain ⟨v, hv⟩ := (h cs List.mem_cons_self).resolve_right hcs
      obtain ⟨ds, hds, hdead⟩ := hdead
      rcases List.mem_cons.mp hds with rfl | hds
      · exact absurd hdead hcs
      · have hrest := (ih (fun cs hcs ↦ h cs (List.mem_cons_of_mem _ hcs)) ⟨ds, hds, hdead⟩).1
        obtain ⟨d, css, rfl⟩ := List.exists_cons_of_ne_nil (List.ne_nil_of_mem hds)
        rw [List.intercalate_cons_cons, List.append_assoc]
        refine (hv.reach (.arr es :: fs)).append_eq_none ?_ (hrest (es ++ [v]) fs)
        rintro c ⟨⟩
        rfl

/-- The array it is in does not end. -/
theorem run_array_eq_none {css : List (List Char)} (h : ∀ cs ∈ css, (∃ v, Val cs v) ∨ Dead cs)
    (hdead : ∃ cs ∈ css, Dead cs) (rest : List Char) (fs : List Frame) :
    run (.at .value fs) ('[' :: ([','].intercalate css ++ rest)) = none := by
  obtain ⟨hnone, c, ds, heq, hc, hws⟩ := run_intercalate_eq_none h hdead
  have hvalue := hnone [] fs
  have hopen : step (.at .value fs) '[' = some (.at .first (.arr [] :: fs)) := rfl
  rw [run_cons, hopen, Option.bind_some, run_append, heq, run_cons, step_first hc hws, ← run_cons,
    ← heq, hvalue, Option.bind_none]

theorem dead_array {css : List (List Char)} (h : ∀ cs ∈ css, (∃ v, Val cs v) ∨ Dead cs)
    (hdead : ∃ cs ∈ css, Dead cs) (rest : List Char) :
    Dead ('[' :: ([','].intercalate css ++ rest)) :=
  ⟨run_array_eq_none h hdead rest, '[', _, rfl, by decide, by decide⟩

/-- No further members of an object start with this text. -/
structure Stuck (cs : List Char) : Prop where
  run_eq : ∀ ms fs, run (.at .next (.obj ms [] :: fs)) cs = none
  delimited : Delimited cs

theorem Stuck.append {cs : List Char} (h : Stuck cs) (ds : List Char) : Stuck (cs ++ ds) where
  run_eq ms fs := by rw [run_append, h.run_eq, Option.bind_none]
  delimited := by
    cases cs with
    | nil => exact absurd (h.run_eq [] []) (by simp [run])
    | cons c cs => exact h.delimited

/-- A name in front of a text that starts no value. -/
theorem Dead.member {name cs : List Char} (hname : Plain name) (h : Dead cs) :
    Stuck (',' :: '"' :: (name ++ '"' :: ':' :: cs)) where
  run_eq ms fs := by
    have hsplit : ',' :: '"' :: (name ++ '"' :: ':' :: cs) =
        ',' :: '"' :: (name ++ ['"', ':']) ++ cs := by simp
    rw [hsplit, run_append, run_comma_name hname, Option.bind_some, h.run_eq]
  delimited := by
    rintro c ⟨⟩
    rfl

theorem Members.append_stuck {cs ds : List Char} {ms : List (List Char × Json)} (h : Members cs ms)
    (h' : Stuck ds) : Stuck (cs ++ ds) where
  run_eq ms₀ fs := (h.reach ms₀ fs).append_eq_none h'.delimited (h'.run_eq (ms₀ ++ ms) fs)
  delimited := by
    cases cs with
    | nil => exact h'.delimited
    | cons c cs => exact h.delimited

/-- An object that stops behind its first member. -/
theorem Val.object_dead {name cs ds : List Char} {v : Json} (hname : Plain name) (h : Val cs v)
    (h' : Stuck ds) : Dead ('{' :: '"' :: (name ++ '"' :: ':' :: (cs ++ ds))) where
  run_eq fs := by
    have hsplit : '{' :: '"' :: (name ++ '"' :: ':' :: (cs ++ ds)) =
        '{' :: '"' :: (name ++ '"' :: ':' :: cs) ++ ds := by simp
    rw [hsplit]
    exact (h.firstMember hname fs).append_eq_none h'.delimited (h'.run_eq _ fs)
  head := ⟨'{', _, rfl, by decide, by decide⟩

/-- Pieces with a comma behind each but the last. -/
theorem flatten_comma_behind (f : ℕ → List Char) (s j : ℕ) :
    ((List.range' s j).map fun i ↦ f i ++ if i + 1 < s + j then [','] else []).flatten =
      [','].intercalate ((List.range' s j).map f) := by
  induction j generalizing s with
  | zero => rfl
  | succ j ih =>
    rw [List.range'_succ, List.map_cons, List.map_cons, List.flatten_cons]
    have hrest := ih (s + 1)
    rw [Nat.add_right_comm s 1 j] at hrest
    rw [← Nat.add_assoc, hrest]
    cases j with
    | zero => simp
    | succ j =>
      rw [if_pos (by omega), List.intercalate_cons_of_ne_nil (by simp)]

/-- Pieces with a comma in front of each but the first. -/
theorem flatten_comma_before (css : List (List Char)) :
    (css.zipIdx.map fun (cs, j) ↦ (if j = 0 then [] else [',']) ++ cs).flatten =
      [','].intercalate css := by
  have hrest : ∀ (css : List (List Char)) (s : ℕ), 0 < s →
      ((css.zipIdx s).map fun (cs, j) ↦ (if j = 0 then [] else [',']) ++ cs).flatten =
        (css.map fun cs ↦ ',' :: cs).flatten := by
    intro css
    induction css with
    | nil => intro _ _; rfl
    | cons cs css ih =>
      intro s hs
      rw [List.zipIdx_cons, List.map_cons, List.flatten_cons, ih (s + 1) (by omega)]
      simp [show s ≠ 0 by omega]
  have hjoin : ∀ (cs : List Char) (css : List (List Char)),
      [','].intercalate (cs :: css) = cs ++ (css.map fun cs ↦ ',' :: cs).flatten := by
    intro cs css
    induction css generalizing cs with
    | nil => simp
    | cons ds css ih => simp [List.intercalate_cons_cons, ih ds]
  cases css with
  | nil => rfl
  | cons cs css =>
    rw [List.zipIdx_cons, List.map_cons, List.flatten_cons, hrest css (0 + 1) (by decide), hjoin]
    simp

end Json
