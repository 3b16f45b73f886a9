import UwbApps.Lib.Printf

/-!
# Bytes and numbers in hexadecimal

Two digits for each byte, as a loop of `"%02x"` prints them, and their reading.  A reader takes
digits of either case and nothing else, so that what it accepts cannot end early or run on.
`read_join` is the round trip.  `readNat_padZero` is that of a number as `"%0nX"` prints it.
-/

set_option autoImplicit false

open Printf

namespace Hex

/-- The value of a digit. -/
def digit (c : Char) : Option ℕ :=
  if '0' ≤ c ∧ c ≤ '9' then some (c.toNat - 48)
  else if 'a' ≤ c ∧ c ≤ 'f' then some (c.toNat - 87)
  else if 'A' ≤ c ∧ c ≤ 'F' then some (c.toNat - 55)
  else none

/-- The bytes of a text of digits, two for each. -/
def read : List Char → Option (List UInt8)
  | [] => some []
  | [_] => none
  | hi :: lo :: cs =>
    (digit hi).bind fun x ↦ (digit lo).bind fun y ↦
      (read cs).map fun bytes ↦ UInt8.ofNat (16 * x + y) :: bytes

/-- A number of one digit or more. -/
def readNat (cs : List Char) : Option ℕ :=
  if cs = [] then none else cs.foldlM (fun n c ↦ (digit c).map (16 * n + ·)) 0

theorem digit_digitChar {d : ℕ} (h : d < 16) : digit d.digitChar = some d := by
  have hall : ∀ d : Fin 16, digit (Nat.digitChar d) = some d.val := by decide
  exact hall ⟨d, h⟩

/-- A byte below sixteen is filled up with a zero. -/
theorem toList_padZero_hex {n : ℕ} (h : n < 256) :
    (padZero 2 (hex n)).toList = [(n / 16).digitChar, (n % 16).digitChar] := by
  rw [toList_padZero, hex, String.toList_ofList]
  rcases Nat.lt_or_ge n 16 with hlt | hge
  · rw [Nat.toDigits_of_lt_base hlt, Nat.div_eq_of_lt hlt, Nat.mod_eq_of_lt hlt]
    rfl
  · rw [Nat.toDigits_of_base_le (by decide) hge,
      Nat.toDigits_of_lt_base (Nat.div_lt_of_lt_mul (by omega))]
    rfl

/-- **The round trip.** -/
theorem read_join (bytes : List UInt8) :
    read (String.join (bytes.map fun c ↦ padZero 2 (hex c.toNat))).toList = some bytes := by
  induction bytes with
  | nil => rfl
  | cons c bytes ih =>
    have hc := c.toNat_lt
    have hvalue : UInt8.ofNat (16 * (c.toNat / 16) + c.toNat % 16) = c := by
      rw [Nat.div_add_mod, UInt8.ofNat_toNat]
    rw [List.map_cons, String.join_cons, String.toList_append, toList_padZero_hex hc]
    simp only [List.cons_append, List.nil_append, read]
    rw [digit_digitChar (Nat.div_lt_of_lt_mul (by omega)),
      digit_digitChar (Nat.mod_lt _ (by decide)), ih]
    simp only [Option.bind_some, Option.map_some, hvalue]

/-! ## Numbers -/

theorem foldlM_zeros (k : ℕ) (cs : List Char) :
    (List.replicate k '0' ++ cs).foldlM (fun n c ↦ (digit c).map (16 * n + ·)) 0 =
      cs.foldlM (fun n c ↦ (digit c).map (16 * n + ·)) 0 := by
  induction k with
  | zero => rfl
  | succ k ih => exact ih

theorem foldlM_toDigits (n : ℕ) :
    (Nat.toDigits 16 n).foldlM (fun n c ↦ (digit c).map (16 * n + ·)) 0 = some n := by
  induction n using Nat.strongRecOn with
  | ind n ih =>
    rcases Nat.lt_or_ge n 16 with hlt | hge
    · rw [Nat.toDigits_of_lt_base hlt, List.foldlM_cons, digit_digitChar hlt]
      simp
    · rw [Nat.toDigits_of_base_le (by decide) hge, List.foldlM_append, ih (n / 16) (by omega)]
      have hlast : 16 * (n / 16) + n % 16 = n := Nat.div_add_mod n 16
      simp [digit_digitChar (Nat.mod_lt n (by decide : 0 < 16)), hlast]

/-- **The round trip of a number**, with zeros in front or without. -/
theorem readNat_padZero (width n : ℕ) : readNat (padZero width (hex n)).toList = some n := by
  rw [toList_padZero, hex, String.toList_ofList, Decimal.pad, readNat,
    if_neg (List.append_ne_nil_of_right_ne_nil _ Nat.toDigits_ne_nil), foldlM_zeros,
    foldlM_toDigits]

theorem readNat_hex (n : ℕ) : readNat (hex n).toList = some n := by
  rw [hex, String.toList_ofList, readNat, if_neg Nat.toDigits_ne_nil, foldlM_toDigits]

end Hex
