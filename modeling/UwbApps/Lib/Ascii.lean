import UwbApps.Lib.Printf

/-!
# Texts on a wire

A text of printable ASCII characters is one byte for each of them.  `Clean` says that a text is
one, and the rules say that what `printf` makes of numbers is clean and that clean pieces are a
clean whole.

A clean text has no newline in it, so that newlines may end it on a wire, and `decode_encode` says
that a reader gets it back.
-/

set_option autoImplicit false

open Printf

namespace Ascii

/-- Printable characters. -/
def Printing (cs : List Char) : Prop := ∀ c ∈ cs, 0x20 ≤ c.toNat ∧ c.toNat < 0x7f

instance (cs : List Char) : Decidable (Printing cs) :=
  List.decidableBAll (fun c : Char ↦ 0x20 ≤ c.toNat ∧ c.toNat < 0x7f) cs

/-- A text of printable characters. -/
def Clean (text : String) : Prop := Printing text.toList

instance (text : String) : Decidable (Clean text) := inferInstanceAs (Decidable (Printing _))

/-- The bytes of a text. -/
def encode (text : String) : List UInt8 := text.toList.map fun c ↦ UInt8.ofNat c.toNat

/-- The text of some bytes. -/
def decode (bs : List UInt8) : String := String.ofList (bs.map fun b ↦ Char.ofNat b.toNat)

/-! ## Clean texts -/

theorem Printing.append {cs ds : List Char} (h : Printing cs) (h' : Printing ds) :
    Printing (cs ++ ds) :=
  List.forall_mem_append.mpr ⟨h, h'⟩

theorem Clean.append {s t : String} (hs : Clean s) (ht : Clean t) : Clean (s ++ t) := by
  rw [Clean, String.toList_append]
  exact Printing.append hs ht

theorem clean_ite {p : Prop} [Decidable p] {s t : String} (hs : Clean s) (ht : Clean t) :
    Clean (if p then s else t) := by
  split
  · exact hs
  · exact ht

theorem clean_join {ss : List String} (h : ∀ s ∈ ss, Clean s) : Clean (String.join ss) := by
  intro c hc
  rw [String.toList_join, List.mem_flatMap] at hc
  obtain ⟨s, hs, hc⟩ := hc
  exact h s hs c hc

theorem printing_toDigits {b : ℕ} (hb : 1 < b) (hb' : b ≤ 16) (n : ℕ) :
    Printing (Nat.toDigits b n) := by
  have hall : ∀ d : Fin 16, 0x20 ≤ (Nat.digitChar d).toNat ∧ (Nat.digitChar d).toNat < 0x7f := by
    decide
  have hdigit : ∀ d < b, Printing [d.digitChar] := by
    intro d hd c hc
    rw [List.mem_singleton.mp hc]
    exact hall ⟨d, lt_of_lt_of_le hd hb'⟩
  induction n using Nat.strongRecOn with
  | _ n ih =>
    rcases Nat.lt_or_ge n b with hlt | hge
    · rw [Nat.toDigits_of_lt_base hlt]
      exact hdigit n hlt
    · rw [Nat.toDigits_of_base_le hb hge]
      have hdiv : n / b < n := Nat.div_lt_self (by omega) hb
      exact (ih (n / b) hdiv).append (hdigit _ (Nat.mod_lt _ (by omega)))

theorem clean_dec (i : ℤ) : Clean (dec i) := by
  have hdigits := printing_toDigits (b := 10) (by decide) (by decide) i.natAbs
  show Printing (toString i).toList
  rw [Json.toList_toString_int]
  split
  · exact Printing.append (by decide : Printing ['-']) hdigits
  · exact hdigits

theorem clean_hex (n : ℕ) : Clean (hex n) := by
  rw [Clean, hex, String.toList_ofList]
  exact printing_toDigits (by decide) (by decide) n

theorem clean_padZero (width : ℕ) {text : String} (h : Clean text) :
    Clean (padZero width text) := by
  rw [Clean, toList_padZero]
  refine Printing.append (fun c hc ↦ ?_) h
  rw [List.eq_of_mem_replicate hc]
  decide

theorem clean_decPad (width : ℕ) (i : ℤ) : Clean (decPad width i) :=
  clean_ite (.append (by decide) (clean_padZero _ (clean_dec _))) (clean_padZero _ (clean_dec _))

theorem clean_listText {α : Type} {text : α → String} (h : ∀ x, Clean (text x)) (xs : List α) :
    Clean (listText text xs) := by
  refine clean_join fun s hs ↦ ?_
  obtain ⟨p, -, rfl⟩ := List.mem_map.mp hs
  exact .append (clean_ite (by decide) (by decide)) (h p.1)

/-! ## The wire -/

theorem encode_append (s t : String) : encode (s ++ t) = encode s ++ encode t := by
  rw [encode, String.toList_append, List.map_append]
  rfl

theorem toNat_ofNat_char {c : Char} (h : c.toNat < 0x7f) : (UInt8.ofNat c.toNat).toNat = c.toNat :=
  UInt8.toNat_ofNat_of_lt' (by rw [UInt8.size]; omega)

/-- **A reader gets the text back.** -/
theorem decode_encode {text : String} (h : Clean text) : decode (encode text) = text := by
  have hmap : (encode text).map (fun b ↦ Char.ofNat b.toNat) = text.toList := by
    rw [encode, List.map_map]
    refine (List.map_congr_left fun c hc ↦ ?_).trans (List.map_id _)
    rw [Function.comp_apply, toNat_ofNat_char (h c hc).2, Char.ofNat_toNat, id]
  rw [decode, hmap, String.ofList_toList]

/-- What is below the printable characters is not on the wire: a newline, say. -/
theorem notMem_encode {text : String} (h : Clean text) {b : UInt8} (hb : b < 0x20) :
    b ∉ encode text := by
  intro hmem
  obtain ⟨c, hc, rfl⟩ := List.mem_map.mp hmem
  have hlow := UInt8.lt_iff_toNat_lt.mp hb
  rw [toNat_ofNat_char (h c hc).2] at hlow
  exact absurd (h c hc).1 (not_le.mpr hlow)

end Ascii
