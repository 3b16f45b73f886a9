import UwbApps.Backhaul.PrintDecimal
import UwbApps.Lib.JsonGet

/-!
# The line as a JSON text

The pieces of the line are read one by one with the rules of `Json`: the first opens the object,
the next nine are members of it or empty (`frontPieces`), and the last, with the ranges, closes it.

`isLine_iff` says when the whole is one object and a newline.  In the compact form the quality of a
range is a signed field of two bits that is printed as hexadecimal digits without quotes, so a
quality with its sign bit set comes out as `fffffffe` or `ffffffff`.  The long form closes the
array behind its last entry, and then again.
-/

set_option autoImplicit false

open Octets Reads Printf
open Packed hiding dec

namespace UwbApps.Backhaul

open Os RtdoabhSensorData
open Json (Plain Val Members Reach Among MembersAmong membersAmong_empty
  membersAmong_of_members)

/-- One JSON object, and a newline. -/
def IsLine (text : String) : Prop :=
  ∃ (object : String) (members : List (List Char × Json)),
    text = object ++ "\n" ∧ Json.parse object = some (.obj members)

/-! ## The pieces before the ranges -/

/-- The names of the members between the first one and the ranges, but for the number of the
line. -/
def frontNames : List String := ["mode", "ts", "gps", "vbat", "usb", "a", "g", "m", "p"]

section Front

variable (plat : Platform) (N : ℕ) (m : Mem)

theorem plain_degreeDigits (bits : BitVec 32) : Plain (degreeDigits plat bits).toList :=
  plain_append (plain_append (plain_dec _) (by decide)) (plain_dec _)

theorem membersAmong_whenEnabled {bit : BitVec 14} {text : Reads PkgField String}
    (h : MembersAmong frontNames (text.value m)) :
    MembersAmong frontNames ((whenEnabled N bit text).value m) := by
  by_cases henabled : Enabled N m bit
  · rwa [FixedField.value_whenEnabled henabled]
  · have hempty : (whenEnabled N bit text).value m =
        (if ((readValid N).value m).1 &&& bit ≠ 0 then text else pure "").value m := rfl
    rw [hempty, if_neg (show ¬ ((readValid N).value m).1 &&& bit ≠ 0 from henabled)]
    exact membersAmong_empty _

theorem membersAmong_printMode : MembersAmong frontNames ((printMode N).value m) := by
  have hmode : MembersAmong frontNames (",\"mode\":\"" ++ "anchor" ++ "\"") :=
    membersAmong_of_members (by decide) (members_of_plain "mode" (by decide) (by decide))
  rw [printMode, value_bind, value_pure]
  split
  · exact hmode
  · exact membersAmong_empty _

theorem tsText_eq (ts : BitVec 64) : ∃ s tms : ℕ,
    tsText plat ts = ",\"ts\":\"" ++ (dec s ++ "." ++ padZero 4 (dec tms)) ++ "\"" := by
  simp only [tsText, String.append_assoc]
  exact ⟨_, _, rfl⟩

theorem membersAmong_printTs : MembersAmong frontNames ((printTs plat N).value m) := by
  have htext : ∀ ts, MembersAmong frontNames (tsText plat ts) := by
    intro ts
    obtain ⟨s, tms, heq⟩ := tsText_eq plat ts
    rw [heq]
    refine membersAmong_of_members (by decide) (members_of_plain "ts" (by decide) ?_)
    exact plain_append (plain_append (plain_dec s) (by decide)) (plain_padZero 4 (plain_dec tms))
  rw [printTs, value_bind, value_pure]
  split
  · exact htext _
  · exact membersAmong_empty _

/-- The number of the line is always there. -/
theorem members_printMid (gMsgId : BitVec 32) : Members ((printMid gMsgId).value m).toList
    [("mid".toList, .num (dec gMsgId.toInt).toList)] :=
  members_of_val "mid" (by decide) (val_dec _)

theorem membersAmong_printGps : MembersAmong frontNames ((printGps plat N).value m) := by
  have htext : ∀ lat long, MembersAmong frontNames (",\"gps\":[" ++ degreeText plat lat ++ "," ++
      degreeText plat long ++ "]") := by
    intro lat long
    have hval : ∀ bits, ∃ v, Val (degreeText plat bits).toList v := fun bits ↦
      ⟨_, degreeText_eq plat bits ▸ val_quoted (plain_degreeDigits plat bits)⟩
    have hsplit : ",\"gps\":[" ++ degreeText plat lat ++ "," ++ degreeText plat long ++ "]" =
        ",\"gps\":[" ++ (degreeText plat lat ++ "," ++ degreeText plat long) ++ "]" := by
      simp only [String.append_assoc]
    rw [hsplit]
    obtain ⟨vs, -, hvs⟩ := @Json.val_array
      [(degreeText plat lat).toList, (degreeText plat long).toList] fun cs hcs ↦ by
        rcases List.mem_pair.mp hcs with rfl | rfl
        · exact hval lat
        · exact hval long
    refine membersAmong_of_members (by decide) (members_of_list "gps" (by decide) ?_ hvs)
    simp [List.intercalate_cons_cons, List.intercalate_singleton]
  exact membersAmong_whenEnabled N m (htext _ _)

theorem membersAmong_printBattery : MembersAmong frontNames ((printBattery plat N).value m) := by
  have htext : ∀ b (usb : ℕ), MembersAmong frontNames (",\"vbat\":\"" ++ voltText plat b ++
      "\"" ++ ",\"usb\":" ++ dec usb) := by
    intro b usb
    have hsplit : ",\"vbat\":\"" ++ voltText plat b ++ "\"" ++ ",\"usb\":" ++ dec usb =
        ",\"vbat\":\"" ++ voltText plat b ++ "\"" ++ (",\"usb\":" ++ dec usb) := by
      simp only [String.append_assoc]
    rw [hsplit]
    refine (membersAmong_of_members (by decide) (members_of_plain "vbat" (by decide) ?_)).append
      (membersAmong_of_members (by decide) (members_of_val "usb" (by decide) (val_dec _)))
    exact plain_append (plain_append (plain_dec _) (by decide)) (plain_padZero 2 (plain_dec _))
  exact membersAmong_whenEnabled N m (htext _ _)

/-- Three numbers in brackets, in quotes. -/
theorem membersAmong_of_vec3 {before : String} (name : String) (hname : name ∈ frontNames)
    (hkey : IsKey ',' name ['"', '['] before) {x y z : String} (hx : Plain x.toList)
    (hy : Plain y.toList) (hz : Plain z.toList) :
    MembersAmong frontNames (before ++ x ++ "," ++ y ++ "," ++ z ++ "]\"") := by
  refine membersAmong_of_members (v := .str ("[" ++ x ++ "," ++ y ++ "," ++ z ++ "]").toList)
    hname ?_
  have hplain : Plain ("[" ++ x ++ "," ++ y ++ "," ++ z ++ "]").toList := by
    refine plain_append (plain_append (plain_append (plain_append (plain_append (plain_append ?_ hx)
      ?_) hy) ?_) hz) ?_ <;> decide
  have hsplit : (before ++ x ++ "," ++ y ++ "," ++ z ++ "]\"").toList = ',' :: '"' ::
      (name.toList ++ '"' :: ':' ::
        ('"' :: (("[" ++ x ++ "," ++ y ++ "," ++ z ++ "]").toList ++ ['"']))) := by
    simp only [String.toList_append, hkey.toList_eq]
    simp
  rw [hsplit]
  exact (Json.val_str hplain).member hkey.plain

theorem membersAmong_printAcceleration :
    MembersAmong frontNames ((printAcceleration plat N).value m) :=
  membersAmong_whenEnabled N m (membersAmong_of_vec3 "a" (by decide) (by decide)
    (plain_decimal _ _ _) (plain_decimal _ _ _) (plain_decimal _ _ _))

theorem membersAmong_printGyro : MembersAmong frontNames ((printGyro plat N).value m) :=
  membersAmong_whenEnabled N m (membersAmong_of_vec3 "g" (by decide) (by decide)
    (plain_decimal _ _ _) (plain_decimal _ _ _) (plain_decimal _ _ _))

theorem membersAmong_printCompass : MembersAmong frontNames ((printCompass N).value m) := by
  have htext : ∀ x y z : ℤ, MembersAmong frontNames (",\"m\":[" ++ dec x ++ "," ++ dec y ++ "," ++
      dec z ++ "]") := by
    intro x y z
    have hsplit : ",\"m\":[" ++ dec x ++ "," ++ dec y ++ "," ++ dec z ++ "]" =
        ",\"m\":[" ++ (dec x ++ "," ++ dec y ++ "," ++ dec z) ++ "]" := by
      simp only [String.append_assoc]
    rw [hsplit]
    refine membersAmong_of_members (by decide) (members_of_list "m" (by decide) ?_
      (Json.val_arr [x, y, z] fun i _ ↦ val_dec i))
    simp [List.intercalate_cons_cons, List.intercalate_singleton]
  exact membersAmong_whenEnabled N m (htext _ _ _)

theorem membersAmong_printPressure : MembersAmong frontNames ((printPressure N).value m) :=
  membersAmong_whenEnabled N m
    (membersAmong_of_members (by decide) (members_of_val "p" (by decide) (val_dec _)))

/-- The pieces between the first and the last. -/
def frontPieces (gMsgId : BitVec 32) : List (Reads PkgField String) :=
  [printMode N, printTs plat N, printMid gMsgId, printGps plat N, printBattery plat N,
    printAcceleration plat N, printGyro plat N, printCompass N, printPressure N]

theorem membersAmong_concat {xs : List (Reads PkgField String)}
    (h : ∀ x ∈ xs, MembersAmong frontNames (x.value m)) :
    MembersAmong frontNames ((concat xs).value m) := by
  induction xs with
  | nil => exact membersAmong_empty _
  | cons x xs ih =>
    exact (h x List.mem_cons_self).append (ih fun y hy ↦ h y (List.mem_cons_of_mem x hy))

/-- They are members, and the number of the line is one of them. -/
theorem exists_members_frontPieces (gMsgId : BitVec 32) : ∃ before behind,
    Among frontNames before ∧ Among frontNames behind ∧
      Members ((concat (frontPieces plat N gMsgId)).value m).toList
        (before ++ ("mid".toList, .num (dec gMsgId.toInt).toList) :: behind) := by
  obtain ⟨before, hbefore, hamong⟩ :=
    (membersAmong_printMode N m).append (membersAmong_printTs plat N m)
  obtain ⟨behind, hbehind, hamong'⟩ := @membersAmong_concat m
    [printGps plat N, printBattery plat N, printAcceleration plat N, printGyro plat N,
      printCompass N, printPressure N] fun x hx ↦ by
    simp only [List.mem_cons, List.not_mem_nil, or_false] at hx
    rcases hx with rfl | rfl | rfl | rfl | rfl | rfl
    · exact membersAmong_printGps plat N m
    · exact membersAmong_printBattery plat N m
    · exact membersAmong_printAcceleration plat N m
    · exact membersAmong_printGyro plat N m
    · exact membersAmong_printCompass N m
    · exact membersAmong_printPressure N m
  have hsplit : (concat (frontPieces plat N gMsgId)).value m =
      ((printMode N).value m ++ (printTs plat N).value m) ++ ((printMid gMsgId).value m ++
        (concat [printGps plat N, printBattery plat N, printAcceleration plat N,
          printGyro plat N, printCompass N, printPressure N]).value m) := by
    rw [String.append_assoc]
    rfl
  refine ⟨before, behind, hamong, hamong', ?_⟩
  have hrest := (members_printMid m gMsgId).append hbehind
  rw [← String.toList_append] at hrest
  rw [hsplit, String.toList_append]
  exact hbefore.append hrest

/-- What stands before the ranges, as a text. -/
def frontText (gMsgId : BitVec 32) : String :=
  (printId N).value m ++ (concat (frontPieces plat N gMsgId)).value m

/-- The number of the sender. -/
def idText : String :=
  let srcAddress := (member .srcAddress (srcAddressField N) : Reads PkgField _).value m
  "0x" ++ padZero 4 (hex srcAddress.toNat)

/-- The members before the ranges. -/
def frontMembers (gMsgId : BitVec 32) (before behind : List (List Char × Json)) :
    List (List Char × Json) :=
  ("id".toList, .str (idText N m).toList) ::
    (before ++ ("mid".toList, .num (dec gMsgId.toInt).toList) :: behind)

/-- It opens the object. -/
theorem reach_frontText (gMsgId : BitVec 32) :
    ∃ before behind, Among frontNames before ∧ Among frontNames behind ∧
      Reach (.at .value []) (frontText plat N m gMsgId).toList
        (.at .next [.obj (frontMembers N m gMsgId before behind) []]) := by
  obtain ⟨before, behind, hbefore, hbehind, hms⟩ := exists_members_frontPieces plat N m gMsgId
  have hid : ∀ id : String, Plain id.toList →
      Reach (.at .value []) ("\x7b\"id\":\"0x" ++ id ++ "\"").toList
        (.at .next [.obj [("id".toList, .str ("0x" ++ id).toList)] []]) := by
    intro id h
    have hsplit : ("\x7b\"id\":\"0x" ++ id ++ "\"").toList = '{' :: '"' :: ("id".toList ++
        '"' :: ':' :: ('"' :: (("0x" ++ id).toList ++ ['"']))) := by
      simp [String.toList_append]
    rw [hsplit]
    exact (Json.val_str (plain_append (by decide) h)).firstMember (by decide) []
  refine ⟨before, behind, hbefore, hbehind, ?_⟩
  rw [frontText, String.toList_append]
  exact (hid _ (plain_padZero 4 (plain_hex _))).append (hms.reach _ []) hms.delimited

/-- The last piece: the ranges and the end. -/
def rangePiece (compact tight : Bool) : Reads PkgField String :=
  if compact then printCompact plat N else printLong plat N tight

variable {plat N m}

theorem value_rtdoaBackhaulPrint (compact tight : Bool) (gMsgId : BitVec 32) :
    (rtdoaBackhaulPrint plat N compact gMsgId tight).value m =
      frontText plat N m gMsgId ++ (rangePiece plat N compact tight).value m := by
  rw [← String.toList_inj, rtdoaBackhaulPrint, toList_value_concat, frontText,
    String.toList_append, String.toList_append, toList_value_concat]
  simp [frontPieces, rangePiece]

/-- The line is one object if the last piece is members and the end. -/
theorem exists_parse_line {compact tight : Bool} {gMsgId : BitVec 32} (rest : String)
    {ns : List (List Char × Json)}
    (heq : (rangePiece plat N compact tight).value m = rest ++ "\x7d\n")
    (hrest : Members rest.toList ns) :
    ∃ object before behind,
      (rtdoaBackhaulPrint plat N compact gMsgId tight).value m = object ++ "\n" ∧
        Among frontNames before ∧ Among frontNames behind ∧
          Json.parse object = some (.obj (frontMembers N m gMsgId before behind ++ ns)) := by
  obtain ⟨before, behind, hbefore, hbehind, hfront⟩ := reach_frontText plat N m gMsgId
  obtain ⟨ms, hms⟩ : ∃ ms, ms = frontMembers N m gMsgId before behind := ⟨_, rfl⟩
  rw [← hms] at hfront
  have hclose : Reach (.at .next [.obj (ms ++ ns) []]) "\x7d".toList (.done (.obj (ms ++ ns))) :=
    rfl
  refine ⟨frontText plat N m gMsgId ++ rest ++ "\x7d", before, behind, ?_, hbefore, hbehind,
    Json.parse_of_reach (hms ▸ ?_)⟩
  · rw [value_rtdoaBackhaulPrint, heq]
    simp [← String.toList_inj]
  · rw [String.toList_append, String.toList_append, List.append_assoc]
    refine hfront.append ((hrest.reach ms []).append hclose ?_) ?_
    · rintro c ⟨⟩
      rfl
    · intro c hc
      cases hrest' : rest.toList with
      | nil =>
        rw [hrest'] at hc
        cases hc
        rfl
      | cons d ds =>
        rw [hrest'] at hc
        exact hrest.delimited c (hrest' ▸ hc)

theorem isLine_of_hasMembers {compact tight : Bool} {gMsgId : BitVec 32} (rest : String)
    (heq : (rangePiece plat N compact tight).value m = rest ++ "\x7d\n") (h : HasMembers rest) :
    IsLine ((rtdoaBackhaulPrint plat N compact gMsgId tight).value m) := by
  obtain ⟨ns, hrest⟩ := h
  obtain ⟨object, _, _, hline, -, -, hparse⟩ :=
    @exists_parse_line _ _ _ _ _ gMsgId rest ns heq hrest
  exact ⟨object, _, hline, hparse⟩

/-- The line is no object if nothing that begins with the last piece can be read. -/
theorem not_isLine_of_run {compact tight : Bool} {gMsgId : BitVec 32} (rest : String)
    (heq : (rangePiece plat N compact tight).value m = rest ++ "\n")
    (hdelim : Json.Delimited rest.toList)
    (h : ∀ ms, Json.run (.at .next [.obj ms []]) rest.toList = none) :
    ¬ IsLine ((rtdoaBackhaulPrint plat N compact gMsgId tight).value m) := by
  rintro ⟨object, members, hline, hparse⟩
  obtain ⟨before, behind, -, -, hfront⟩ := reach_frontText plat N m gMsgId
  have hobject : object.toList = (frontText plat N m gMsgId).toList ++ rest.toList := by
    have hboth := hline.symm
    rw [value_rtdoaBackhaulPrint, heq, ← String.toList_inj] at hboth
    simp only [String.toList_append, ← List.append_assoc] at hboth
    exact List.append_cancel_right hboth
  rw [Json.parse_eq_none] at hparse
  · cases hparse
  · rw [hobject]
    exact hfront.append_eq_none hdelim (h _)

end Front

/-! ## The numbers of a range -/

/-- Metres and millimetres. -/
theorem ddistText_parts (d : BitVec 32) : ddistText d =
    dec (d.toInt.natAbs / 1000 : ℕ) ++ "." ++ padZero 3 (dec (d.toInt.natAbs % 1000 : ℕ)) := by
  have hlt : d.toInt.natAbs ≤ 2147483648 := by
    have := d.toInt_lt
    have := d.le_toInt
    omega
  have hdiv : (d.sdiv 1000).toInt = d.toInt.tdiv 1000 :=
    BitVec.toInt_sdiv_of_ne_or_ne d 1000 (Or.inr (by decide))
  have hdivAbs : (d.toInt.tdiv 1000).natAbs = d.toInt.natAbs / 1000 := Int.natAbs_tdiv _ _
  have hmodAbs : (d.toInt.tmod 1000).natAbs = d.toInt.natAbs % 1000 := Int.natAbs_tmod _ _
  have hmod : (d - d.sdiv 1000 * 1000).toInt = d.toInt.tmod 1000 := by
    have hsub : d.toInt - d.toInt.tdiv 1000 * 1000 = d.toInt.tmod 1000 := by
      rw [Int.tmod_def, Int.mul_comm]
    have hthousand : (1000 : BitVec 32).toInt = 1000 := rfl
    rw [BitVec.toInt_sub, BitVec.toInt_mul, hdiv, hthousand, Int.sub_bmod_bmod, hsub]
    exact Int.bmod_eq_of_le (by omega) (by omega)
  have hmetres : d.sdiv 1000 ≠ BitVec.intMin 32 := ne_intMin_of_lt (by rw [hdiv]; omega)
  have hmm : d - d.sdiv 1000 * 1000 ≠ BitVec.intMin 32 := ne_intMin_of_lt (by rw [hmod]; omega)
  rw [ddistText, absInt_of_ne hmetres, absInt_of_ne hmm, hdiv, hmod, hdivAbs, hmodAbs]

theorem ddistText_eq (d : BitVec 32) :
    ∃ metres mm : ℕ, ddistText d = dec metres ++ "." ++ padZero 3 (dec mm) :=
  ⟨_, _, ddistText_parts d⟩

/-- A signed distance, as it stands in a column. -/
theorem val_ddist (d : BitVec 32) (negative : Prop) [Decidable negative] :
    Val ((if negative then "" else "-") ++ ddistText d).toList
      (.num ((if negative then "" else "-") ++ ddistText d).toList) := by
  obtain ⟨metres, mm, heq⟩ := ddistText_eq d
  obtain ⟨hdigits, hne⟩ := digits_padZero 3 mm
  rw [heq]
  split
  · rw [String.empty_append]
    exact val_fraction metres hdigits hne
  · obtain ⟨phase, hint, hnum⟩ := Json.exists_numTo_neg metres
    have hsplit : ("-" ++ (dec metres ++ "." ++ padZero 3 (dec mm))).toList =
        '-' :: Nat.toDigits 10 metres ++ '.' :: (padZero 3 (dec mm)).toList := by
      simp [String.toList_append, toList_dec_nat]
    rw [hsplit]
    exact (hnum.frac hint hdigits hne).val rfl

theorem plain_ddistText (d : BitVec 32) : Plain (ddistText d).toList :=
  plain_append (plain_append (plain_dec _) (by decide)) (plain_padZero 3 (plain_dec _))

/-- The platform converts the tenths of a signal strength, which are ten at most, to an `int`. -/
def TenthsFit (plat : Platform) : Prop :=
  ∀ rssi : BitVec 14, plat.float.toInt (plat.float.mul (plat.float.ofInt 10)
    (plat.float.frac (plat.float.div (plat.float.ofInt rssi.toInt) (plat.float.ofInt 10)))) ≠
      BitVec.intMin 32

theorem val_rssiText {plat : Platform} (h : TenthsFit plat) (rssi : BitVec 14) :
    ∃ v, Val (rssiText plat rssi).toList v := by
  rw [rssiText, Arith.decimal, absInt_of_ne (h rssi)]
  refine ⟨_, val_fraction _ ?_ ?_⟩
  · rw [toList_dec_nat]
    exact Json.digits_toDigits _
  · rw [toList_dec_nat]
    exact Nat.toDigits_ne_nil

theorem plain_rssiText (plat : Platform) (rssi : BitVec 14) : Plain (rssiText plat rssi).toList :=
  plain_decimal plat.float 10 _

/-- A quality without its sign bit is a number. -/
theorem val_quality {q : BitVec 2} (h : 0 ≤ q.toInt) :
    ∃ v, Val (hex (q.signExtend 32).toNat).toList v := by
  obtain rfl | rfl : q = 0 ∨ q = 1 := by
    revert q
    decide
  · exact ⟨_, val_dec 0⟩
  · exact ⟨_, val_dec 1⟩

/-- With it, it is nothing that JSON has. -/
theorem dead_quality {q : BitVec 2} (h : ¬ 0 ≤ q.toInt) :
    Json.Dead (hex (q.signExtend 32).toNat).toList := by
  have hff : ∃ cs, (hex (q.signExtend 32).toNat).toList = 'f' :: 'f' :: cs := by
    obtain rfl | rfl : q = 2 ∨ q = 3 := by
      revert q
      decide
    · exact ⟨['f', 'f', 'f', 'f', 'f', 'e'], by decide⟩
    · exact ⟨['f', 'f', 'f', 'f', 'f', 'f'], by decide⟩
  obtain ⟨cs, heq⟩ := hff
  rw [heq]
  exact ⟨fun _ ↦ rfl, 'f', _, rfl, by decide, by decide⟩

/-! ## The compact form -/

section Compact

variable {plat : Platform} {N : ℕ} {m : Mem} {n : ℕ}

/-- The entries of a column, with commas between them. -/
def columnText (text : RtdoabhRangeData → String) (m : Mem) (n : ℕ) : String :=
  (concat ((List.range n).map (printCell text n))).value m

theorem toList_columnText (text : RtdoabhRangeData → String) : (columnText text m n).toList =
    [','].intercalate ((List.range n).map fun i ↦ (text ((readRange i).value m)).toList) := by
  have hcell : ∀ i, ((printCell text n i).value m).toList =
      (text ((readRange i).value m)).toList ++ if i + 1 < 0 + n then [','] else [] := by
    intro i
    rw [printCell, value_bind, value_pure, String.toList_append, Nat.zero_add]
    split <;> rfl
  rw [columnText, toList_value_concat, List.map_map, List.range_eq_range',
    ← Json.flatten_comma_behind]
  exact congrArg List.flatten (List.map_congr_left fun i _ ↦ hcell i)

theorem value_printColumn (key : String) (text : RtdoabhRangeData → String) (last : Bool) :
    (printColumn n key text last).value m = "\"" ++ key ++ "\":[" ++ columnText text m n ++ "]" ++
      if last then "\x7d" else "," :=
  rfl

/-- The four columns. -/
def anchorCell (r : RtdoabhRangeData) : String := "\"" ++ hex r.anchorAddr.toNat ++ "\""

def ddistCell (r : RtdoabhRangeData) : String :=
  (if 0 < r.diffDistMm.toInt then "" else "-") ++ ddistText r.diffDistMm

def rssiCell (plat : Platform) (r : RtdoabhRangeData) : String := rssiText plat r.rssi

def qualityCell (r : RtdoabhRangeData) : String := hex (r.quality.signExtend 32).toNat

/-- The first three as members. -/
def columnMembers (plat : Platform) (m : Mem) (n : ℕ) : String :=
  ",\"a\":[" ++ columnText anchorCell m n ++ "]" ++
    (",\"dd\":[" ++ columnText ddistCell m n ++ "]" ++
      (",\"rs\":[" ++ columnText (rssiCell plat) m n ++ "]"))

/-- `p->ref_anchor_addr`. -/
def refAnchor (N : ℕ) (m : Mem) : ℕ :=
  ((member .refAnchorAddr (refAnchorAddrField N) : Reads PkgField _).value m).toNat

/-- The ranges are one more member: an object of the reference and the columns. -/
theorem value_printCompact (hne : rangeCount N m ≠ 0) : (printCompact plat N).value m =
    ",\"meas\":" ++ ("\x7b\"ref\":\"" ++ hex (refAnchor N m) ++ "\"" ++
      columnMembers plat m (rangeCount N m) ++
        ",\"qf\":[" ++ columnText qualityCell m (rangeCount N m) ++ "]\x7d") ++ "\x7d\n" := by
  have hzero : ¬ (member .numRanges (numRangesField N) : Reads PkgField _).value m = 0 := fun h ↦
    hne (by rw [rangeCount, h]; rfl)
  have hcols : (concat ((columns plat).zipIdx.map fun col ↦
      printColumn (rangeCount N m) col.1.1 col.1.2 (col.2 == 3))).value m =
        (printColumn (rangeCount N m) "a" anchorCell false).value m ++
          ((printColumn (rangeCount N m) "dd" ddistCell false).value m ++
            ((printColumn (rangeCount N m) "rs" (rssiCell plat) false).value m ++
              ((printColumn (rangeCount N m) "qf" qualityCell true).value m ++ ""))) := rfl
  rw [printCompact, value_bind, if_neg hzero, value_bind, value_bind, value_pure]
  refine (congrArg (fun cols ↦ ",\"meas\":\x7b" ++ "\"ref\":\"" ++ hex (refAnchor N m) ++ "\"," ++
    cols ++ "\x7d\n") hcols).trans ?_
  simp only [value_printColumn]
  simp [← String.toList_inj, columnMembers]

/-- A column whose values are known. -/
theorem members_column {before : String} (name : String) {text : RtdoabhRangeData → String}
    {value : RtdoabhRangeData → Json} (hkey : IsKey ',' name ['['] before)
    (h : ∀ r, Val (text r).toList (value r)) :
    Members (before ++ columnText text m n ++ "]").toList
      [(name.toList, .arr ((List.range n).map fun i ↦ value ((readRange i).value m)))] :=
  members_of_list name hkey (toList_columnText text) (Json.val_arr _ fun _ _ ↦ h _)

/-- The addresses and the distances of the ranges, and then what else there is. -/
def columnValues (m : Mem) (n : ℕ) (ns : List (List Char × Json)) : List (List Char × Json) :=
  ("a".toList, .arr ((List.range n).map fun i ↦
      .str (hex ((readRange i).value m : RtdoabhRangeData).anchorAddr.toNat).toList)) ::
    ("dd".toList, .arr ((List.range n).map fun i ↦
      .num (ddistCell ((readRange i).value m)).toList)) :: ns

theorem exists_members_columnMembers (h : TenthsFit plat) :
    ∃ ns, Among ["rs", "qf"] ns ∧
      Members (columnMembers plat m n).toList (columnValues m n ns) := by
  have ha : Members (",\"a\":[" ++ columnText anchorCell m n ++ "]").toList _ :=
    members_column "a" (by decide) fun r ↦ val_quoted (plain_hex r.anchorAddr.toNat)
  have hdd : Members (",\"dd\":[" ++ columnText ddistCell m n ++ "]").toList _ :=
    members_column "dd" (by decide) fun r ↦ val_ddist r.diffDistMm (0 < r.diffDistMm.toInt)
  obtain ⟨ns, hrs, hns⟩ :
      MembersAmong ["rs", "qf"] (",\"rs\":[" ++ columnText (rssiCell plat) m n ++ "]") := by
    obtain ⟨vs, -, hvs⟩ := Json.val_array fun cs (hcs : cs ∈ (List.range n).map fun i ↦
        (rssiCell plat ((readRange i).value m)).toList) ↦ by
      obtain ⟨i, -, rfl⟩ := List.mem_map.mp hcs
      exact val_rssiText h _
    exact membersAmong_of_members (by decide)
      (members_of_list "rs" (by decide) (toList_columnText _) hvs)
  refine ⟨ns, hns, ?_⟩
  have hrest := hdd.append hrs
  rw [← String.toList_append] at hrest
  rw [columnMembers, String.toList_append]
  exact ha.append hrest

/-- `{"ref":"…"` and some columns, behind their name. -/
theorem toList_measStart (ref : ℕ) (text : String) :
    (",\"meas\":" ++ ("\x7b\"ref\":\"" ++ hex ref ++ "\"" ++ text)).toList =
      ',' :: '"' :: ("meas".toList ++ ['"', ':']) ++ ('{' :: '"' :: ("ref".toList ++
        '"' :: ':' :: ('"' :: ((hex ref).toList ++ ['"']))) ++ text.toList) := by
  simp [String.toList_append]

/-- The last piece of a package without ranges, -/
theorem value_printCompact_of_eq_zero (h : rangeCount N m = 0) :
    (printCompact plat N).value m = "\x7d\n" := by
  have hzero : (member .numRanges (numRangesField N) : Reads PkgField _).value m = 0 :=
    BitVec.eq_of_toNat_eq h
  rw [printCompact, value_bind, if_pos hzero]
  rfl

/-- and of one whose ranges have no sign bit in their qualities. -/
theorem exists_members_printCompact (hplat : TenthsFit plat) (hne : rangeCount N m ≠ 0)
    (h : ∀ i < rangeCount N m, 0 ≤ ((readRange i).value m : RtdoabhRangeData).quality.toInt) :
    ∃ rest ns, (printCompact plat N).value m = rest ++ "\x7d\n" ∧ Among ["rs", "qf"] ns ∧
      Members rest.toList [("meas".toList,
        .obj (("ref".toList, .str (hex (refAnchor N m)).toList) ::
          columnValues m (rangeCount N m) ns))] := by
  obtain ⟨qs, hqf, hqs⟩ : MembersAmong ["rs", "qf"]
      (",\"qf\":[" ++ columnText qualityCell m (rangeCount N m) ++ "]") := by
    obtain ⟨vs, -, hvs⟩ := Json.val_array
      fun cs (hcs : cs ∈ (List.range (rangeCount N m)).map fun i ↦
        (qualityCell ((readRange i).value m)).toList) ↦ by
      obtain ⟨i, hi, rfl⟩ := List.mem_map.mp hcs
      exact val_quality (h i (List.mem_range.mp hi))
    exact membersAmong_of_members (by decide)
      (members_of_list "qf" (by decide) (toList_columnText _) hvs)
  obtain ⟨ns, hns, hcolumns⟩ := @exists_members_columnMembers plat m (rangeCount N m) hplat
  refine ⟨",\"meas\":" ++ ("\x7b\"ref\":\"" ++ hex (refAnchor N m) ++ "\"" ++
    (columnMembers plat m (rangeCount N m) ++
      (",\"qf\":[" ++ columnText qualityCell m (rangeCount N m) ++ "]") ++ "\x7d")), ns ++ qs,
    ?_, hns.append hqs, ?_⟩
  · refine (value_printCompact hne).trans ?_
    simp [← String.toList_inj]
  · have hobject := (Json.val_str (plain_hex (refAnchor N m))).object
      (by decide : Plain "ref".toList) (hcolumns.append hqf)
    have hmember := hobject.member (by decide : Plain "meas".toList)
    refine Eq.subst (motive := fun cs ↦ Members cs _) ?_ hmember
    simp [String.toList_append]

/-- Without a sign bit in the qualities, the line is an object. -/
theorem isLine_printCompact (hplat : TenthsFit plat) {tight : Bool} {gMsgId : BitVec 32}
    (h : ∀ i < rangeCount N m, 0 ≤ ((readRange i).value m : RtdoabhRangeData).quality.toInt) :
    IsLine ((rtdoaBackhaulPrint plat N true gMsgId tight).value m) := by
  by_cases hne : rangeCount N m = 0
  · exact isLine_of_hasMembers "" (value_printCompact_of_eq_zero hne) hasMembers_empty
  · obtain ⟨rest, ns, heq, -, hmembers⟩ := exists_members_printCompact hplat hne h
    exact isLine_of_hasMembers rest heq ⟨_, hmembers⟩

/-- With one, the column of the qualities cannot be read. -/
theorem not_isLine_printCompact (hplat : TenthsFit plat) {tight : Bool} {gMsgId : BitVec 32}
    {i : ℕ} (hi : i < rangeCount N m)
    (h : ¬ 0 ≤ ((readRange i).value m : RtdoabhRangeData).quality.toInt) :
    ¬ IsLine ((rtdoaBackhaulPrint plat N true gMsgId tight).value m) := by
  have heq := @value_printCompact plat N m (show rangeCount N m ≠ 0 by omega)
  obtain ⟨_, -, hms⟩ := @exists_members_columnMembers plat m (rangeCount N m) hplat
  refine not_isLine_of_run (",\"meas\":" ++ ("\x7b\"ref\":\"" ++ hex (refAnchor N m) ++ "\"" ++
    (columnMembers plat m (rangeCount N m) ++ (",\"qf\":[" ++
      columnText qualityCell m (rangeCount N m) ++ "]\x7d\x7d")))) ?_ ?_ fun ms₀ ↦ ?_
  · refine heq.trans ?_
    simp [← String.toList_inj]
  · rw [toList_measStart]
    rintro c ⟨⟩
    rfl
  · have hmeas := Json.run_comma_name (by decide : Plain "meas".toList) ms₀ []
    have hfirst := (Json.val_str (plain_hex (refAnchor N m))).firstMember
      (by decide : Plain "ref".toList) [.obj ms₀ "meas".toList]
    have hcols := hfirst.append (hms.reach _ _) hms.delimited
    have hqf : ∀ ms₁ fs, Json.run (.at .next (.obj ms₁ [] :: fs)) (",\"qf\":[" ++
        columnText qualityCell m (rangeCount N m) ++ "]\x7d\x7d").toList = none := by
      intro ms₁ fs
      have hsplit : (",\"qf\":[" ++ columnText qualityCell m (rangeCount N m) ++
          "]\x7d\x7d").toList = ',' :: '"' :: ("qf".toList ++ ['"', ':']) ++ ('[' ::
            ((columnText qualityCell m (rangeCount N m)).toList ++ [']', '}', '}'])) := by
        simp [String.toList_append]
      rw [hsplit, Json.run_append, Json.run_comma_name (by decide), Option.bind_some,
        toList_columnText]
      refine Json.run_array_eq_none (fun cs hcs ↦ ?_) ⟨_, List.mem_map_of_mem
        (List.mem_range.mpr hi), dead_quality h⟩ _ _
      obtain ⟨j, -, rfl⟩ := List.mem_map.mp hcs
      by_cases hj : 0 ≤ ((readRange j).value m : RtdoabhRangeData).quality.toInt
      · exact Or.inl (val_quality hj)
      · exact Or.inr (dead_quality hj)
    rw [toList_measStart, Json.run_append, hmeas, Option.bind_some, String.toList_append,
      ← List.append_assoc]
    refine hcols.append_eq_none ?_ (hqf _ _)
    rw [String.toList_append, String.toList_append]
    rintro c ⟨⟩
    rfl

end Compact

/-! ## The long form -/

section Long

variable {plat : Platform} {N : ℕ} {m : Mem} {n : ℕ} {tight : Bool}

/-- The object of one range. -/
def entryObject (plat : Platform) (r : RtdoabhRangeData) : String :=
  "\x7b\"addr\":\"" ++ hex r.anchorAddr.toNat ++ "\"" ++
    (",\"ddist\":\"" ++ ((if r.diffDistMm.toInt < 0 then "-" else "") ++ ddistText r.diffDistMm) ++
      "\"" ++ (",\"tqf\":" ++ dec r.quality.toInt ++
        (",\"rssi\":\"" ++ rssiText plat r.rssi ++ "\""))) ++ "\x7d"

theorem value_printEntry (i : ℕ) : (printEntry plat n tight i).value m =
    entryObject plat ((readRange i).value m) ++
      ((if i + 1 < n then "," else "]") ++ if tight then "" else "\n  ") := by
  have hvalue : (printEntry plat n tight i).value m = _ := value_bind _ _ _
  have hddist : "\",\"ddist\":\"" = "\"" ++ ",\"ddist\":\"" := rfl
  have htqf : "\",\"tqf\":" = "\"" ++ ",\"tqf\":" := rfl
  have hend : "\"\x7d" = "\"" ++ "\x7d" := rfl
  rw [hvalue, value_pure, entryObject, hddist, htqf, hend]
  simp only [String.append_assoc]

theorem val_entryObject (r : RtdoabhRangeData) :
    ∃ v, Val (entryObject plat r).toList v := by
  have hddist : HasMembers (",\"ddist\":\"" ++ ((if r.diffDistMm.toInt < 0 then "-" else "") ++
      ddistText r.diffDistMm) ++ "\"") := by
    refine hasMembers_of_plain "ddist" (by decide) (plain_append ?_ (plain_ddistText _))
    split <;> decide
  have htqf : HasMembers (",\"tqf\":" ++ dec r.quality.toInt) :=
    hasMembers_of_val "tqf" (by decide) (val_dec _)
  have hrssi : HasMembers (",\"rssi\":\"" ++ rssiText plat r.rssi ++ "\"") :=
    hasMembers_of_plain "rssi" (by decide) (plain_rssiText _ _)
  obtain ⟨ms, hms⟩ := hddist.append (htqf.append hrssi)
  have hobject := (Json.val_str (plain_hex r.anchorAddr.toNat)).object
    (by decide : Plain "addr".toList) hms
  refine ⟨_, Eq.subst (motive := fun cs ↦ Val cs _) ?_ hobject⟩
  simp [entryObject, String.toList_append]

/-- The entries, the last of which closes the array. -/
theorem reach_entries {j s : ℕ} (hs : s + (j + 1) = n) (es : List Json)
    (ms : List (List Char × Json)) (name : List Char) :
    ∃ vs, Reach (.at .value [.arr es, .obj ms name])
      ((List.range' s (j + 1)).map fun i ↦ ((printEntry plat n tight i).value m).toList).flatten
      (.at .next [.obj (ms ++ [(name, .arr vs)]) []]) := by
  have hcomma : ∀ es, Json.run (.at .next [.arr es, .obj ms name])
      ("," ++ if tight then "" else "\n  ").toList = some (.at .value [.arr es, .obj ms name]) :=
    fun es ↦ by cases tight <;> rfl
  have hclose : ∀ es, Reach (.at .next [.arr es, .obj ms name])
      ("]" ++ if tight then "" else "\n  ").toList
      (.at .next [.obj (ms ++ [(name, .arr es)]) []]) :=
    fun es ↦ by cases tight <;> rfl
  induction j generalizing s es with
  | zero =>
    obtain ⟨v, hv⟩ := @val_entryObject plat ((readRange s).value m)
    refine ⟨es ++ [v], ?_⟩
    rw [List.range'_succ, List.map_cons, List.flatten_cons, value_printEntry, if_neg (by omega),
      String.toList_append, List.range'_zero, List.map_nil, List.flatten_nil, List.append_nil]
    refine (hv.reach [.arr es, .obj ms name]).append (hclose (es ++ [v])) ?_
    rw [String.toList_append]
    rintro c ⟨⟩
    rfl
  | succ j ih =>
    obtain ⟨v, hv⟩ := @val_entryObject plat ((readRange s).value m)
    obtain ⟨vs, hvs⟩ := ih (s := s + 1) (by omega) (es ++ [v])
    refine ⟨vs, ?_⟩
    rw [List.range'_succ, List.map_cons, List.flatten_cons, value_printEntry, if_pos (by omega),
      String.toList_append, List.append_assoc]
    refine (hv.reach [.arr es, .obj ms name]).append (.of_run (hcomma (es ++ [v])) hvs) ?_
    rw [String.toList_append, List.append_assoc]
    rintro c ⟨⟩
    rfl

/-- The array, from its bracket on. -/
theorem reach_first_entries {j : ℕ} (hj : n = j + 1) (ms : List (List Char × Json))
    (name : List Char) :
    ∃ vs, Reach (.at .first [.arr [], .obj ms name])
      ((if tight ∨ n = 0 then "" else "\n ") ++
        (concat ((List.range n).map (printEntry plat n tight))).value m).toList
      (.at .next [.obj (ms ++ [(name, .arr vs)]) []]) := by
  obtain ⟨vs, hvs⟩ := @reach_entries plat m n tight j 0 (by omega) [] ms name
  obtain ⟨v, hv⟩ := @val_entryObject plat ((readRange 0).value m)
  obtain ⟨c, ds, hhead, hc, hws⟩ := hv.head
  have htext : ((concat ((List.range n).map (printEntry plat n tight))).value m).toList =
      ((List.range' 0 (j + 1)).map fun i ↦
        ((printEntry plat n tight i).value m).toList).flatten := by
    rw [toList_value_concat, List.map_map, List.range_eq_range', hj]
    rfl
  have hspace : Json.run (.at .first [.arr [], .obj ms name])
      (if tight ∨ n = 0 then "" else "\n ").toList =
        some (.at .first [.arr [], .obj ms name]) := by
    split <;> rfl
  refine ⟨vs, ?_⟩
  rw [String.toList_append, htext]
  refine .of_run hspace ?_
  rw [List.range'_succ, List.map_cons, List.flatten_cons, value_printEntry, String.toList_append,
    hhead] at hvs ⊢
  rw [List.cons_append, List.cons_append, Reach, Json.run_cons] at hvs ⊢
  rw [Json.step_first hc hws]
  exact hvs

theorem value_printLong : ∃ ref : ℕ, (printLong plat N tight).value m =
    ",\"ref_anchor\":\"" ++ hex ref ++ "\"" ++ (",\"meas\":[" ++
      ((if tight ∨ rangeCount N m = 0 then "" else "\n ") ++
        (concat ((List.range (rangeCount N m)).map
          (printEntry plat (rangeCount N m) tight))).value m)) ++ "]\x7d\n" := by
  refine ⟨((member .refAnchorAddr (refAnchorAddrField N) : Reads PkgField _).value m).toNat, ?_⟩
  have hzero : (member .numRanges (numRangesField N) : Reads PkgField _).value m = 0 ↔
      rangeCount N m = 0 := by
    rw [← BitVec.toNat_inj]
    rfl
  have hvalue : (printLong plat N tight).value m = _ := value_bind _ _ _
  have hend : "]\x7d\n" = "]" ++ "\x7d\n" := rfl
  rw [hvalue, value_bind, value_bind, value_pure]
  simp only [hzero, String.append_assoc]
  rfl

/-- Without ranges, the line is an object. -/
theorem isLine_printLong {gMsgId : BitVec 32} (h : rangeCount N m = 0) :
    IsLine ((rtdoaBackhaulPrint plat N false gMsgId tight).value m) := by
  obtain ⟨ref, heq⟩ := @value_printLong plat N m tight
  rw [h, if_pos (Or.inr rfl)] at heq
  have href : HasMembers (",\"ref_anchor\":\"" ++ hex ref ++ "\"") :=
    hasMembers_of_plain "ref_anchor" (by decide) (plain_hex ref)
  have hmeas : HasMembers (",\"meas\":[" ++ "" ++ "]") :=
    hasMembers_of_list "meas" [] (by decide) rfl fun _ h ↦ absurd h List.not_mem_nil
  refine isLine_of_hasMembers _ (heq.trans ?_) (href.append hmeas)
  simp [← String.toList_inj, concat]

/-- With ranges, the array is closed twice. -/
theorem not_isLine_printLong {gMsgId : BitVec 32} (h : rangeCount N m ≠ 0) :
    ¬ IsLine ((rtdoaBackhaulPrint plat N false gMsgId tight).value m) := by
  obtain ⟨ref, heq⟩ := @value_printLong plat N m tight
  obtain ⟨j, hj⟩ := Nat.exists_eq_succ_of_ne_zero h
  have hsplit : ∀ entries : String, (",\"ref_anchor\":\"" ++ hex ref ++ "\"" ++ (",\"meas\":[" ++
      entries) ++ "]\x7d").toList = ',' :: '"' :: ("ref_anchor".toList ++ '"' :: ':' ::
        ('"' :: ((hex ref).toList ++ ['"']))) ++ (',' :: '"' :: ("meas".toList ++ ['"', ':']) ++
          ('[' :: (entries.toList ++ [']', '}']))) := by
    simp [String.toList_append]
  refine not_isLine_of_run (",\"ref_anchor\":\"" ++ hex ref ++ "\"" ++ (",\"meas\":[" ++
      ((if tight ∨ rangeCount N m = 0 then "" else "\n ") ++
        (concat ((List.range (rangeCount N m)).map
          (printEntry plat (rangeCount N m) tight))).value m)) ++ "]\x7d") ?_ ?_ fun ms₀ ↦ ?_
  · have hend : "]\x7d\n" = "]\x7d" ++ "\n" := rfl
    rw [← String.append_assoc] at heq
    exact heq.trans (by rw [hend]; simp only [String.append_assoc])
  · rw [hsplit]
    rintro c ⟨⟩
    rfl
  · have href := (Json.val_str (plain_hex ref)).member (by decide : Plain "ref_anchor".toList)
    obtain ⟨vs, hvs⟩ := @reach_first_entries plat m _ tight j hj
      (ms₀ ++ [("ref_anchor".toList, .str (hex ref).toList)]) "meas".toList
    have hmeas := Json.run_comma_name (by decide : Plain "meas".toList)
      (ms₀ ++ [("ref_anchor".toList, .str (hex ref).toList)]) []
    rw [hsplit]
    refine (href.reach ms₀ []).append_eq_none ?_ ?_
    · rintro c ⟨⟩
      rfl
    · rw [Json.run_append, hmeas, Option.bind_some, Json.run_cons]
      refine hvs.append_eq_none ?_ rfl
      rintro c ⟨⟩
      rfl

end Long

/-- The ranges of the package can be printed: in the compact form none has the sign bit of its
quality set, in the long form there are none. -/
def RangesPrintable (N : ℕ) (m : Mem) (compact : Bool) : Prop :=
  if compact then
    ∀ i < rangeCount N m, 0 ≤ ((readRange i).value m : RtdoabhRangeData).quality.toInt
  else rangeCount N m = 0

/-- **When the line is one JSON object.**  It is, for whatever the package holds, if its ranges can
be printed, and it never is otherwise. -/
theorem isLine_iff (plat : Platform) (hplat : TenthsFit plat) (N : ℕ) (m : Mem)
    (compact tight : Bool) (gMsgId : BitVec 32) :
    IsLine ((rtdoaBackhaulPrint plat N compact gMsgId tight).value m) ↔
      RangesPrintable N m compact := by
  cases compact with
  | true =>
    refine ⟨fun hline i hi ↦ ?_, isLine_printCompact hplat⟩
    by_contra hsign
    exact not_isLine_printCompact hplat hi hsign hline
  | false =>
    refine ⟨fun hline ↦ ?_, isLine_printLong⟩
    by_contra hne
    exact not_isLine_printLong hne hline

/-- Exact arithmetic converts the tenths. -/
theorem tenthsFit_exactPlatform (undef : CFloat → ℤ) (usecs : BitVec 64 → CFloat) :
    TenthsFit (exactPlatform undef usecs) := by
  intro rssi
  have hfits : FitsInt (rssi.toInt / (10 : ℤ)) :=
    fitsInt_div (lt_trans (FixedField.natAbs_toInt_lt (by decide) rssi) (by decide))
      (by decide)
  have habs : |10 ^ 1 * ((rssi.toInt / (10 : ℤ) : ℚ) - CFloat.trunc (rssi.toInt / (10 : ℤ)))| <
      2147483648 := by
    have hlt := Nat.lt_floor_add_one |(rssi.toInt / (10 : ℤ) : ℚ)|
    rw [abs_mul, CFloat.abs_sub_trunc, abs_of_pos (by positivity)]
    linarith
  have hmul : (exactArith undef).mul ((exactArith undef).ofInt 10)
      ((exactArith undef).frac ((exactArith undef).div ((exactArith undef).ofInt rssi.toInt)
        ((exactArith undef).ofInt 10))) =
        .val (10 ^ 1 * (rssi.toInt / (10 : ℤ) - CFloat.trunc (rssi.toInt / (10 : ℤ)))) := by
    rw [exactArith_div_ofInt _ (by decide), frac_val hfits, pow_one]
    rfl
  have hnonneg := @absInt_val undef _ habs
  intro hmin
  have hsign := (congrArg absInt hmin).symm.trans
    ((congrArg (fun x ↦ absInt ((exactArith undef).toInt x)) hmul).trans hnonneg)
  have hintMin : absInt (BitVec.intMin 32) = -2147483648 := by decide
  rw [hintMin] at hsign
  omega

/-- A package of one range with these two bytes of signal strength and quality. -/
def oneRangeMem (lo hi : UInt8) : Mem := store (store (fun _ ↦ 0) 52 [1]) 59 [lo, hi]

/-- A range of quality one is printed. -/
theorem isLine_sample :
    IsLine ((rtdoaBackhaulPrint (exactPlatform (fun _ ↦ 0) fun _ ↦ .nan) 16 true 0 true).value
      (oneRangeMem 0 0x40)) :=
  (isLine_iff _ (tenthsFit_exactPlatform _ _) 16 (oneRangeMem 0 0x40) true true 0).mpr
    (show ∀ i < rangeCount 16 (oneRangeMem 0 0x40), _ by decide)

/-- A range of quality minus two is not, in the compact form, nor is any range in the long form. -/
theorem not_isLine_sample :
    ¬ IsLine ((rtdoaBackhaulPrint (exactPlatform (fun _ ↦ 0) fun _ ↦ .nan) 16 true 0 true).value
      (oneRangeMem 0 0x80)) ∧
    ¬ IsLine ((rtdoaBackhaulPrint (exactPlatform (fun _ ↦ 0) fun _ ↦ .nan) 16 false 0 true).value
      (oneRangeMem 0 0x40)) :=
  ⟨not_isLine_printCompact (tenthsFit_exactPlatform _ _) (i := 0) (by decide) (by decide),
    not_isLine_printLong (by decide)⟩

end UwbApps.Backhaul
