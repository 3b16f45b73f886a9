import UwbApps.Lib.Decimal

/-!
# What `printf` makes of numbers

`dec`, `hex` and `padZero` are the conversions `%d`, `%x` and a zero-padded width, and `Arith` is
the arithmetic of a floating-point type, with which a program that has no `%f` takes a number
apart.  `exactArith` computes without rounding, and gives `undef` where a conversion to `int` has
no result.

The lemmas say what these texts are to a reader of JSON: characters that may stand in a string,
values, and members of an object.
-/

set_option autoImplicit false

namespace Printf

open Decimal
open Json (Plain Val Members)

/-! ## What `printf` makes of its arguments -/

/-- `%x`. -/
def hex (n : ℕ) : String := String.ofList (Nat.toDigits 16 n)

/-- `%d`. -/
def dec (i : ℤ) : String := toString i

/-- A number of at least `width` characters. -/
def padZero (width : ℕ) (text : String) : String := "".pushn '0' (width - text.length) ++ text

/-- `%d` with a width that zeros fill, behind the sign. -/
def decPad (width : ℕ) (i : ℤ) : String :=
  if i < 0 then "-" ++ padZero (width - 1) (dec i.natAbs) else padZero width (dec i)

/-- The texts of a list, as a loop prints them: all but the first with `","` for a leading `%s`. -/
def listText {α : Type} (text : α → String) (xs : List α) : String :=
  String.join (xs.zipIdx.map fun (x, j) ↦ (if j = 0 then "" else ",") ++ text x)

/-- `abs` of an `int`. -/
def absInt (x : BitVec 32) : ℤ := x.abs.toInt

/-- The arithmetic of one floating-point type. -/
structure Arith where
  F : Type
  ofInt : ℤ → F
  sub : F → F → F
  mul : F → F → F
  div : F → F → F
  /-- The conversion to `int`. -/
  toInt : F → BitVec 32

/-- `x - (int)x`. -/
def Arith.frac (ar : Arith) (x : ar.F) : ar.F := ar.sub x (ar.ofInt (ar.toInt x).toInt)

/-- `(int)x` and `abs((int)(scale*(x-(int)x)))`, with a dot between them. -/
def Arith.decimal (ar : Arith) (scale : ℤ) (x : ar.F) : String :=
  dec (ar.toInt x).toInt ++ "." ++ dec (absInt (ar.toInt (ar.mul (ar.ofInt scale) (ar.frac x))))

/-! ## Exact arithmetic -/

/-- The arithmetic of `CFloat`.  A conversion without a result gives `undef`. -/
def exactArith (undef : CFloat → ℤ) : Arith where
  F := CFloat
  ofInt n := .val n
  sub := .sub
  mul := .mul
  div := .div
  toInt x := BitVec.ofInt 32 (x.convert undef (-2147483648) 2147483647)

/-- `(int)v` is defined. -/
def FitsInt (v : ℚ) : Prop := -2147483648 ≤ CFloat.trunc v ∧ CFloat.trunc v ≤ 2147483647

instance : DecidablePred FitsInt := fun _ ↦ inferInstanceAs (Decidable (_ ∧ _))

section Exact

variable {undef : CFloat → ℤ} {v : ℚ}

theorem toInt_val (h : FitsInt v) :
    ((exactArith undef).toInt (.val v)).toInt = CFloat.trunc v := by
  obtain ⟨hlo, hhi⟩ := h
  have hconv : CFloat.convert undef (-2147483648) 2147483647 (.val v) = CFloat.trunc v :=
    if_pos ⟨hlo, hhi⟩
  show (BitVec.ofInt 32 _).toInt = _
  rw [hconv, BitVec.toInt_ofInt_eq_self (by decide) (by omega) (by omega)]

theorem fitsInt_of_abs_lt (h : |v| < 2147483648) : FitsInt v := by
  have hfloor : (⌊|v|⌋₊ : ℕ) < 2147483648 := (Nat.floor_lt (abs_nonneg v)).mpr (by exact_mod_cast h)
  rw [← CFloat.natAbs_trunc] at hfloor
  exact ⟨by omega, by omega⟩

theorem absInt_val (h : |v| < 2147483648) :
    absInt ((exactArith undef).toInt (.val v)) = (⌊|v|⌋₊ : ℕ) := by
  have htrunc := @toInt_val undef _ (fitsInt_of_abs_lt h)
  have hfloor : (⌊|v|⌋₊ : ℕ) < 2147483648 := (Nat.floor_lt (abs_nonneg v)).mpr (by exact_mod_cast h)
  rw [← CFloat.natAbs_trunc] at hfloor ⊢
  rw [absInt, BitVec.toInt_abs_eq_natAbs_of_ne_intMin, htrunc]
  intro hmin
  rw [hmin] at htrunc
  have : CFloat.trunc v = -2147483648 := htrunc.symm
  omega

theorem frac_val (h : FitsInt v) :
    (exactArith undef).frac (.val v) = .val (v - CFloat.trunc v) := by
  have hfrac : (exactArith undef).frac (.val v) =
      .val (v - (((exactArith undef).toInt (.val v)).toInt : ℤ)) := rfl
  rw [hfrac, toInt_val h]

/-- The fraction of a value, scaled and cut off, is that of a number in two parts. -/
theorem absInt_frac {k : ℕ} (hk : k ≤ 6) :
    absInt ((exactArith undef).toInt (.val (10 ^ k * (v - CFloat.trunc v)))) =
      (fracOf k v : ℕ) := by
  have habs : |10 ^ k * (v - CFloat.trunc v)| = 10 ^ k * (|v| - ⌊|v|⌋₊) := by
    rw [abs_mul, CFloat.abs_sub_trunc, abs_of_pos (by positivity)]
  have hpow : (10 : ℚ) ^ k ≤ 10 ^ 6 := pow_le_pow_right₀ (by norm_num) hk
  have hlt := Nat.lt_floor_add_one |v|
  have hle := Nat.floor_le (abs_nonneg v)
  rw [absInt_val, habs, fracOf]
  rw [habs]
  nlinarith

end Exact

theorem abs_lt_of_fitsInt {v : ℚ} (h : FitsInt v) : |v| < 2147483649 := by
  obtain ⟨hlo, hhi⟩ := h
  have hfloor : ⌊|v|⌋₊ < 2147483649 := by
    rw [← CFloat.natAbs_trunc]
    omega
  exact_mod_cast (Nat.floor_lt (abs_nonneg v)).mp hfloor

/-- What is no number, or none that fits, is converted to whatever the platform gives. -/
theorem toInt_of_not_fitsInt {undef : CFloat → ℤ} {x : CFloat} (h : ∀ q, x = .val q → ¬ FitsInt q) :
    (exactArith undef).toInt x = BitVec.ofInt 32 (undef x) := by
  have hconv : CFloat.convert undef (-2147483648) 2147483647 x = undef x := by
    cases x with
    | nan => rfl
    | inf s => rfl
    | val q => exact if_neg (h q rfl)
  show BitVec.ofInt 32 _ = _
  rw [hconv]

/-- A conversion that is not defined may give minus one. -/
theorem toInt_val_of_not_fitsInt {v : ℚ} (h : ¬ FitsInt v) :
    (exactArith fun _ ↦ -1).toInt (.val v) = -1 :=
  toInt_of_not_fitsInt fun q hq ↦ by
    cases hq
    exact h

theorem exactArith_div_ofInt {undef : CFloat → ℤ} (n : ℤ) {c : ℤ} (hc : c ≠ 0) :
    (exactArith undef).div ((exactArith undef).ofInt n) ((exactArith undef).ofInt c) =
      .val (n / c) :=
  if_neg (Int.cast_ne_zero.mpr hc)

theorem fitsInt_div {n c : ℤ} (hn : n.natAbs < 2147483648) (hc : 1 ≤ c) :
    FitsInt (n / c) := by
  have hc' : (1 : ℚ) ≤ c := by exact_mod_cast hc
  have hn' : |(n : ℚ)| < 2147483648 := by
    rw [← Int.cast_abs, Int.abs_eq_natAbs]
    exact_mod_cast hn
  refine fitsInt_of_abs_lt (lt_of_le_of_lt ?_ hn')
  rw [abs_div, abs_of_pos (by linarith : (0 : ℚ) < c)]
  exact div_le_self (abs_nonneg _) hc'

/-! ## A number in two parts -/

theorem toList_dec_nat (n : ℕ) : (dec n).toList = Nat.toDigits 10 n := Nat.toList_repr

theorem toList_pushn (s : String) (c : Char) (n : ℕ) :
    (s.pushn c n).toList = s.toList ++ List.replicate n c := by
  induction n with
  | zero => simp [String.pushn_eq_repeat_push, Nat.repeat]
  | succ n ih =>
    have hpush : s.pushn c (n + 1) = (s.pushn c n).push c := rfl
    rw [hpush, String.toList_push, ih, List.append_assoc, ← List.replicate_succ']

theorem toList_padZero (width : ℕ) (text : String) :
    (padZero width text).toList = pad width text.toList := by
  rw [padZero, String.toList_append, toList_pushn, pad, String.length_toList]
  rfl

section Parts

variable {undef : CFloat → ℤ} {v : ℚ}

theorem toList_dec_toInt (h : FitsInt v) :
    (dec ((exactArith undef).toInt (.val v)).toInt).toList =
      (toString (CFloat.trunc v)).toList := by
  rw [toInt_val h]
  rfl

theorem toList_decimal {k : ℕ} {scale : ℤ} (hk : k ≤ 6) (hscale : (scale : ℚ) = 10 ^ k)
    (h : FitsInt v) :
    ((exactArith undef).decimal scale (.val v)).toList = fixed k 0 v := by
  have hmul : (exactArith undef).mul ((exactArith undef).ofInt scale)
      ((exactArith undef).frac (.val v)) = .val (10 ^ k * (v - CFloat.trunc v)) := by
    rw [frac_val h, ← hscale]
    rfl
  have hdecimal : (exactArith undef).decimal scale (.val v) =
      dec ((exactArith undef).toInt (.val v)).toInt ++ "." ++
        dec (absInt ((exactArith undef).toInt (.val (10 ^ k * (v - CFloat.trunc v))))) := by
    rw [← hmul]
    rfl
  rw [hdecimal, absInt_frac hk]
  simp only [String.toList_append, toList_dec_toInt h, toList_dec_nat, fixed, pad,
    List.append_assoc, Nat.zero_sub, List.replicate_zero, List.nil_append]
  rfl

end Parts

/-! ## Texts without quotes in them -/

theorem plain_dec (i : ℤ) : Plain (dec i).toList := by
  have hdigits := Json.plain_of_digits (Json.digits_toDigits i.natAbs)
  show Plain (toString i).toList
  rw [Json.toList_toString_int]
  split
  · exact Plain.append (by decide : Plain ['-']) hdigits
  · exact hdigits

theorem plain_hex (n : ℕ) : Plain (hex n).toList := by
  rw [hex, String.toList_ofList]
  exact Json.plain_toDigits (by decide) (by decide) n

theorem plain_padZero (width : ℕ) {text : String} (h : Plain text.toList) :
    Plain (padZero width text).toList := by
  rw [toList_padZero]
  refine Plain.append (fun c hc ↦ ?_) h
  rw [List.eq_of_mem_replicate hc]
  rfl

theorem plain_append {s t : String} (hs : Plain s.toList) (ht : Plain t.toList) :
    Plain (s ++ t).toList := by
  rw [String.toList_append]
  exact hs.append ht

/-! ## Lists -/

theorem listText_cons {α : Type} (text : α → String) (x : α) (xs : List α) :
    ∃ rest, listText text (x :: xs) = text x ++ rest := by
  refine ⟨String.join ((xs.zipIdx 1).map fun (x, j) ↦ (if j = 0 then "" else ",") ++ text x), ?_⟩
  rw [listText, List.zipIdx_cons, List.map_cons, String.join_cons]
  exact congrArg (· ++ _) String.empty_append

theorem toList_listText {α : Type} (text : α → String) (xs : List α) :
    (listText text xs).toList = [','].intercalate (xs.map fun x ↦ (text x).toList) := by
  have hcell : ∀ p : α × ℕ, ((if p.2 = 0 then "" else ",") ++ text p.1).toList =
      (if p.2 = 0 then [] else [',']) ++ (text p.1).toList := by
    intro p
    rw [String.toList_append]
    split <;> rfl
  rw [listText, String.toList_join, ← Json.flatten_comma_before, List.flatMap_map,
    List.zipIdx_map, List.map_map, ← List.flatMap_def]
  exact congrArg (fun f ↦ xs.zipIdx.flatMap f) (funext hcell)

/-! ## Members of the object -/

/-- `before` is what stands in front of a value in an object: `c`, which is a comma or opens the
object, the name, a colon, and the characters `rest` that the value begins with. -/
structure IsKey (c : Char) (name : String) (rest : List Char) (before : String) : Prop where
  toList_eq : before.toList = c :: '"' :: (name.toList ++ '"' :: ':' :: rest)
  plain : Plain name.toList

instance (c : Char) (name : String) (rest : List Char) (before : String) :
    Decidable (IsKey c name rest before) :=
  decidable_of_iff (before.toList = c :: '"' :: (name.toList ++ '"' :: ':' :: rest) ∧
    Plain name.toList) ⟨fun h ↦ ⟨h.1, h.2⟩, fun h ↦ ⟨h.toList_eq, h.plain⟩⟩

/-- The text has members of an object, as many as it likes. -/
def HasMembers (text : String) : Prop := ∃ ms, Members text.toList ms

theorem hasMembers_empty : HasMembers "" := ⟨[], Json.members_nil⟩

theorem HasMembers.append {s t : String} (hs : HasMembers s) (ht : HasMembers t) :
    HasMembers (s ++ t) := by
  obtain ⟨ms, hs⟩ := hs
  obtain ⟨ns, ht⟩ := ht
  refine ⟨ms ++ ns, ?_⟩
  rw [String.toList_append]
  exact hs.append ht

/-- A name and a value. -/
theorem members_of_val {before text : String} (name : String) {v : Json}
    (hkey : IsKey ',' name [] before) (h : Val text.toList v) :
    Members (before ++ text).toList [(name.toList, v)] := by
  have hsplit : (before ++ text).toList =
      ',' :: '"' :: (name.toList ++ '"' :: ':' :: text.toList) := by
    rw [String.toList_append, hkey.toList_eq]
    simp
  rw [hsplit]
  exact h.member hkey.plain

theorem hasMembers_of_val {before text : String} (name : String) {v : Json}
    (hkey : IsKey ',' name [] before) (h : Val text.toList v) : HasMembers (before ++ text) :=
  ⟨_, members_of_val name hkey h⟩

/-- A name and a text in quotes. -/
theorem members_of_plain {before text : String} (name : String)
    (hkey : IsKey ',' name ['"'] before) (h : Plain text.toList) :
    Members (before ++ text ++ "\"").toList [(name.toList, .str text.toList)] := by
  have hsplit : (before ++ text ++ "\"").toList =
      ',' :: '"' :: (name.toList ++ '"' :: ':' :: ('"' :: (text.toList ++ ['"']))) := by
    rw [String.toList_append, String.toList_append, hkey.toList_eq]
    simp
  rw [hsplit]
  exact (Json.val_str h).member hkey.plain

theorem hasMembers_of_plain {before text : String} (name : String)
    (hkey : IsKey ',' name ['"'] before) (h : Plain text.toList) :
    HasMembers (before ++ text ++ "\"") :=
  ⟨_, members_of_plain name hkey h⟩

theorem val_dec (i : ℤ) : Val (dec i).toList (.num (dec i).toList) := by
  obtain ⟨phase, hint, hnum⟩ := Json.exists_numTo_int i
  exact hnum.val hint.isFinal

/-- A text in quotes. -/
theorem val_quoted {text : String} (h : Plain text.toList) :
    Val ("\"" ++ text ++ "\"").toList (.str text.toList) := by
  have hsplit : ("\"" ++ text ++ "\"").toList = '"' :: (text.toList ++ ['"']) := by
    rw [String.toList_append, String.toList_append]
    rfl
  rw [hsplit]
  exact Json.val_str h

theorem plain_decimal (ar : Arith) (scale : ℤ) (x : ar.F) :
    Plain (ar.decimal scale x).toList :=
  plain_append (plain_append (plain_dec _) (by decide)) (plain_dec _)

/-- A list in brackets, with its name. -/
theorem members_of_list {before text : String} (name : String) {css : List (List Char)}
    {v : Json} (hkey : IsKey ',' name ['['] before) (htext : text.toList = [','].intercalate css)
    (h : Val ('[' :: ([','].intercalate css ++ [']'])) v) :
    Members (before ++ text ++ "]").toList [(name.toList, v)] := by
  have hsplit : (before ++ text ++ "]").toList = ',' :: '"' :: (name.toList ++
      '"' :: ':' :: ('[' :: ([','].intercalate css ++ [']']))) := by
    rw [String.toList_append, String.toList_append, hkey.toList_eq, htext]
    simp
  rw [hsplit]
  exact h.member hkey.plain

theorem hasMembers_of_list {before text : String} (name : String) (css : List (List Char))
    (hkey : IsKey ',' name ['['] before) (htext : text.toList = [','].intercalate css)
    (h : ∀ cs ∈ css, ∃ v, Val cs v) : HasMembers (before ++ text ++ "]") := by
  obtain ⟨vs, -, hvs⟩ := Json.val_array h
  exact ⟨_, members_of_list name hkey htext hvs⟩

/-- The magnitude of an `int` that has one. -/
theorem absInt_of_ne {x : BitVec 32} (h : x ≠ BitVec.intMin 32) : absInt x = x.toInt.natAbs :=
  BitVec.toInt_abs_eq_natAbs_of_ne_intMin h

theorem ne_intMin_of_lt {x : BitVec 32} (h : x.toInt.natAbs < 2147483648) :
    x ≠ BitVec.intMin 32 := by
  rintro rfl
  exact absurd h (by decide)

/-- An integer, a dot and digits. -/
theorem val_fraction (i : ℤ) {text : String} (hdigits : Json.Digits text.toList)
    (hne : text.toList ≠ []) :
    Val (dec i ++ "." ++ text).toList (.num (dec i ++ "." ++ text).toList) := by
  obtain ⟨phase, hint, hnum⟩ := Json.exists_numTo_int i
  have hsplit : (dec i ++ "." ++ text).toList = (dec i).toList ++ '.' :: text.toList := by
    simp [String.toList_append]
  rw [hsplit]
  exact (hnum.frac hint hdigits hne).val rfl

theorem digits_padZero (width n : ℕ) :
    Json.Digits (padZero width (dec n)).toList ∧ (padZero width (dec n)).toList ≠ [] := by
  rw [toList_padZero, toList_dec_nat]
  exact ⟨Decimal.digits_pad width n, Decimal.pad_ne_nil width n⟩

/-- The whole part of a number, and a sign that the code has printed itself. -/
theorem numTo_whole (negative : Bool) {i : ℤ} (hi : ¬ (negative = true ∧ i < 0)) :
    ∃ phase, Json.IsInt phase ∧
      Json.NumTo ((if negative then "-" else "") ++ dec i).toList phase := by
  cases negative with
  | false =>
    rw [if_neg (by decide), String.empty_append]
    exact Json.exists_numTo_int i
  | true =>
    have hnonneg : 0 ≤ i := not_lt.mp fun h ↦ hi ⟨rfl, h⟩
    have hsplit : ((if true then "-" else "") ++ dec i).toList =
        '-' :: Nat.toDigits 10 i.natAbs := by
      rw [if_pos rfl, String.toList_append, ← toList_dec_nat, Int.natAbs_of_nonneg hnonneg]
      rfl
    rw [hsplit]
    exact Json.exists_numTo_neg i.natAbs

theorem toList_parts (whole rest : String) :
    (whole ++ "." ++ rest).toList = whole.toList ++ '.' :: rest.toList := by
  simp [String.toList_append]

/-- A number in two parts that has been taken apart well. -/
theorem numTo_parts (negative : Bool) {i f : ℤ} (width : ℕ) (hi : ¬ (negative = true ∧ i < 0))
    (hf : 0 ≤ f) : Json.NumTo
      ((if negative then "-" else "") ++ dec i ++ "." ++ decPad width f).toList .frac := by
  obtain ⟨hdigits, hne⟩ := digits_padZero width f.natAbs
  obtain ⟨phase, hint, hnum⟩ := numTo_whole negative hi
  have hpad : decPad width f = padZero width (dec f.natAbs) := by
    rw [decPad, if_neg (not_lt.mpr hf), Int.natAbs_of_nonneg hf]
  rw [hpad, toList_parts]
  exact hnum.frac hint hdigits hne

/-- One that has not: a second sign, in front of the fraction or of the whole. -/
theorem dead_parts (negative : Bool) {i f : ℤ} (width : ℕ)
    (h : f < 0 ∨ negative = true ∧ i < 0) :
    Json.Dead ((if negative then "-" else "") ++ dec i ++ "." ++ decPad width f).toList := by
  rw [toList_parts]
  by_cases hi : negative = true ∧ i < 0
  · obtain ⟨rfl, hneg⟩ := hi
    have hsplit : ((if true then "-" else "") ++ dec i).toList =
        ['-'] ++ ['-'] ++ Nat.toDigits 10 i.natAbs := by
      rw [if_pos rfl, String.toList_append]
      show "-".toList ++ (toString i).toList = _
      rw [Json.toList_toString_int, if_pos hneg]
      rfl
    rw [hsplit, List.append_assoc]
    exact (Json.numTo_minus.dead rfl rfl).append _
  · have hneg := h.resolve_right hi
    obtain ⟨phase, hint, hnum⟩ := numTo_whole negative hi
    have hdot : phase.next '.' = some .dot := by
      rcases hint with rfl | rfl <;> rfl
    have hsplit : (decPad width f).toList =
        ['-'] ++ (padZero (width - 1) (dec f.natAbs)).toList := by
      rw [decPad, if_pos hneg, String.toList_append]
      rfl
    have hsplit' : ∀ whole rest : List Char, whole ++ '.' :: (['-'] ++ rest) =
        whole ++ ['.'] ++ ['-'] ++ rest := by
      simp
    rw [hsplit, hsplit']
    exact ((hnum.snoc hdot).dead rfl rfl).append _

end Printf
