import UwbApps.Backhaul.Delivery
import UwbApps.Backhaul.Distances
import UwbApps.Lib.Hex

/-!
# Reading the log back

The bridge prints one line for each package.  `readEntry` takes from a line what a program behind
the bridge needs: the sender, the number of the line and, if there are ranges, the reference anchor
and the distance to each of the others.  It looks members up by their names and knows nothing of
their order.

`log_reads_sent` follows a package all the way, from the round of a producer over the air, the queue
of the bridge and its printer to the reader: whatever is printed, in whatever run, is read as a
package that was sent.  `log_of_faithful` says that on a good day the log is the packages that were
received, all of them and in order.
-/

set_option autoImplicit false

open Octets Printf
open Packed hiding dec
open Reads (value)

namespace UwbApps.Backhaul

open Os Run
open Json (Among Members get elems string number get_of_last get_eq_none elems_map)

/-! ## The reader -/

/-- What a line says. -/
structure LogEntry where
  id : ℕ
  mid : ℤ
  /-- The reference anchor, and the address and the distance of each range. -/
  meas : Option (ℕ × List (ℕ × ℚ))
deriving DecidableEq

/-- An address in hexadecimal digits. -/
def address (v : Json) : Option ℕ := (string v).bind Hex.readNat

/-- One behind `0x`. -/
def source : Json → Option ℕ
  | .str ('0' :: 'x' :: digits) => Hex.readNat digits
  | _ => none

def metres (v : Json) : Option ℚ := (number v).bind Decimal.read

def integer (v : Json) : Option ℤ :=
  (metres v).bind fun q ↦ if q.den = 1 then some q.num else none

def readMeas (v : Json) : Option (ℕ × List (ℕ × ℚ)) := do
  let ref ← (get "ref" v).bind address
  let anchors ← (get "a" v).bind (elems address)
  let dists ← (get "dd" v).bind (elems metres)
  pure (ref, anchors.zip dists)

def readEntry (v : Json) : Option LogEntry := do
  let id ← (get "id" v).bind source
  let mid ← (get "mid" v).bind integer
  match get "meas" v with
  | none => pure ⟨id, mid, none⟩
  | some meas =>
    let ranges ← readMeas meas
    pure ⟨id, mid, some ranges⟩

/-- The line is a JSON object that is read so, and a newline. -/
def ReadsAs (line : String) (entry : LogEntry) : Prop :=
  ∃ object v, line = object ++ "\n" ∧ Json.parse object = some v ∧ readEntry v = some entry

/-- What a package is to be read as, in the line with this number. -/
def entryOf {N : ℕ} (p : RtdoabhTagResultsPkg N) (gMsgId : BitVec 32) : LogEntry where
  id := p.head.srcAddress.toNat
  mid := gMsgId.toInt
  meas :=
    if p.numRanges = 0 then none
    else some (p.refAnchorAddr.toNat,
      (usedRanges p).map fun r ↦ (r.anchorAddr.toNat, (r.diffDistMm.toInt / 1000 : ℚ)))

/-! ## One line -/

theorem integer_dec (i : ℤ) : integer (.num (dec i).toList) = some i := by
  have hread : metres (.num (dec i).toList) = some (i : ℚ) := Decimal.read_int i
  rw [integer, hread, Option.bind_some, if_pos (Rat.den_intCast i), Rat.num_intCast]

theorem address_hex (n : ℕ) : address (.str (hex n).toList) = some n := Hex.readNat_hex n

theorem source_hex (width n : ℕ) :
    source (.str ("0x" ++ padZero width (hex n)).toList) = some n := by
  have hsplit : ("0x" ++ padZero width (hex n)).toList =
      '0' :: 'x' :: (padZero width (hex n)).toList := by
    rw [String.toList_append]
    rfl
  rw [hsplit, source, Hex.readNat_padZero]

section Line

variable {plat : Platform} {N : ℕ} {m : Mem}

/-- The columns are read range by range. -/
theorem readMeas_columnValues (ref n : ℕ) {ns : List (List Char × Json)}
    (hns : Among ["rs", "qf"] ns) :
    readMeas (.obj (("ref".toList, .str (hex ref).toList) :: columnValues m n ns)) =
      some (ref, (List.range n).map fun i ↦ (((readRange i).value m).anchorAddr.toNat,
        (((readRange i).value m).diffDistMm.toInt / 1000 : ℚ))) := by
  obtain ⟨anchors, hanchors⟩ : ∃ v : Json, v = .arr ((List.range n).map fun i ↦
      .str (hex ((readRange i).value m : RtdoabhRangeData).anchorAddr.toNat).toList) := ⟨_, rfl⟩
  obtain ⟨dists, hdists⟩ : ∃ v : Json, v = .arr ((List.range n).map fun i ↦
      .num (ddistCell ((readRange i).value m)).toList) := ⟨_, rfl⟩
  have hvalues : columnValues m n ns = ("a".toList, anchors) :: ("dd".toList, dists) :: ns := by
    rw [columnValues, hanchors, hdists]
  have hne : ∀ name : String, name ∉ ["rs", "qf"] → ∀ other : String, other ≠ name →
      ∀ v : Json, ∀ member ∈ (other.toList, v) :: ns, member.1 ≠ name.toList := by
    intro name hname other hother v
    exact List.forall_mem_cons.mpr ⟨fun h ↦ hother (String.toList_injective h), hns.ne hname⟩
  have href : get "ref" (.obj (("ref".toList, .str (hex ref).toList) :: columnValues m n ns)) =
      some (.str (hex ref).toList) := by
    refine @get_of_last [] _ "ref" _ ?_
    rw [hvalues]
    exact List.forall_mem_cons.mpr ⟨fun h ↦ absurd (String.toList_injective h) (by decide),
      hne "ref" (by decide) "dd" (by decide) _⟩
  have ha : get "a" (.obj (("ref".toList, .str (hex ref).toList) :: columnValues m n ns)) =
      some anchors := by
    rw [hvalues]
    exact @get_of_last [_] _ "a" _ (hne "a" (by decide) "dd" (by decide) _)
  have hdd : get "dd" (.obj (("ref".toList, .str (hex ref).toList) :: columnValues m n ns)) =
      some dists := by
    rw [hvalues]
    exact @get_of_last [_, _] _ "dd" _ (hns.ne (by decide))
  have hanchors' : elems address anchors =
      some ((List.range n).map fun i ↦ ((readRange i).value m).anchorAddr.toNat) := by
    rw [hanchors]
    exact elems_map fun i _ ↦ address_hex _
  have hdists' : elems metres dists = some ((List.range n).map fun i ↦
      (((readRange i).value m).diffDistMm.toInt / 1000 : ℚ)) := by
    rw [hdists]
    exact elems_map fun i _ ↦ read_ddistShown true _
  rw [readMeas, href, ha, hdd]
  simp only [Option.bind_some, address_hex, hanchors', hdists', Option.bind_eq_bind,
    Option.pure_def, List.zip_map']

/-- The reader finds the sender and the number of the line among whatever else is in front of the
ranges. -/
theorem get_frontMembers (gMsgId : BitVec 32) {before behind ns : List (List Char × Json)}
    (hbefore : Among frontNames before) (hbehind : Among frontNames behind)
    (hns : Among ["meas"] ns) :
    get "id" (.obj (frontMembers N m gMsgId before behind ++ ns)) =
        some (.str (idText N m).toList) ∧
      get "mid" (.obj (frontMembers N m gMsgId before behind ++ ns)) =
        some (.num (dec gMsgId.toInt).toList) := by
  have hsplit : frontMembers N m gMsgId before behind ++ ns = ("id".toList,
      .str (idText N m).toList) :: (before ++ ("mid".toList, .num (dec gMsgId.toInt).toList) ::
        (behind ++ ns)) := by
    simp [frontMembers]
  have hmid : ("mid".toList, Json.num (dec gMsgId.toInt).toList).1 ≠ "id".toList :=
    fun h ↦ absurd (String.toList_injective h) (by decide)
  have hrest : ∀ name : String, name ∉ frontNames → name ∉ ["meas"] →
      ∀ member ∈ behind ++ ns, member.1 ≠ name.toList :=
    fun name hfront hmeas ↦ List.forall_mem_append.mpr ⟨hbehind.ne hfront, hns.ne hmeas⟩
  rw [hsplit]
  constructor
  · refine @get_of_last [] _ "id" _ (List.forall_mem_append.mpr ⟨hbefore.ne (by decide), ?_⟩)
    exact List.forall_mem_cons.mpr ⟨hmid, hrest "id" (by decide) (by decide)⟩
  · exact @get_of_last (_ :: before) _ "mid" _ (hrest "mid" (by decide) (by decide))

theorem frontMembers_ne_meas (gMsgId : BitVec 32) {before behind : List (List Char × Json)}
    (hbefore : Among frontNames before) (hbehind : Among frontNames behind) :
    ∀ member ∈ frontMembers N m gMsgId before behind, member.1 ≠ "meas".toList := by
  have hne : ∀ name : String, name ≠ "meas" → name.toList ≠ "meas".toList :=
    fun name hname h ↦ hname (String.toList_injective h)
  refine List.forall_mem_cons.mpr ⟨hne "id" (by decide), List.forall_mem_append.mpr
    ⟨hbefore.ne (by decide), List.forall_mem_cons.mpr ⟨hne "mid" (by decide), ?_⟩⟩⟩
  exact hbehind.ne (by decide)

/-- **One line.**  If the quality of no range has its sign bit set, the line is read as the
package. -/
theorem readsAs_rtdoaBackhaulPrint (hplat : TenthsFit plat) (hslots : rangeCount N m ≤ N)
    (hquality : ∀ r ∈ usedRanges ((pkgLayout N).dec m), 0 ≤ r.quality.toInt) (gMsgId : BitVec 32)
    (tight : Bool) :
    ReadsAs ((rtdoaBackhaulPrint plat N true gMsgId tight).value m)
      (entryOf ((pkgLayout N).dec m) gMsgId) := by
  have hcount : rangeCount N m = 0 ↔ ((pkgLayout N).dec m).numRanges = 0 := by
    rw [rangeCount_eq, ← BitVec.toNat_inj]
    rfl
  have hused := map_readRange hslots
  have hsource : source (.str (idText N m).toList) =
      some ((pkgLayout N).dec m).head.srcAddress.toNat := by
    rw [idText_eq, source_hex]
  by_cases hne : rangeCount N m = 0
  · obtain ⟨object, before, behind, hline, hbefore, hbehind, hparse⟩ :=
      @exists_parse_line plat N m true tight gMsgId "" [] (value_printCompact_of_eq_zero hne)
        Json.members_nil
    obtain ⟨hid, hmid⟩ := @get_frontMembers N m gMsgId _ _ _ hbefore hbehind (Json.among_nil _)
    have hmeas : get "meas" (.obj (frontMembers N m gMsgId before behind ++ [])) = none := by
      rw [List.append_nil]
      exact get_eq_none (frontMembers_ne_meas gMsgId hbefore hbehind)
    refine ⟨object, _, hline, hparse, ?_⟩
    simp only [readEntry, hid, hmid, hmeas, Option.bind_some, hsource, integer_dec, entryOf,
      if_pos (hcount.mp hne), Option.bind_eq_bind, Option.pure_def]
  · have hnonneg : ∀ i < rangeCount N m,
        0 ≤ ((readRange i).value m : RtdoabhRangeData).quality.toInt := fun i hi ↦
      hquality _ (hused ▸ List.mem_map_of_mem (List.mem_range.mpr hi))
    obtain ⟨rest, ns, hpiece, hns, hmembers⟩ := exists_members_printCompact hplat hne hnonneg
    have hread := @readMeas_columnValues m (refAnchor N m) (rangeCount N m) _ hns
    generalize Json.obj (("ref".toList, .str (hex (refAnchor N m)).toList) ::
      columnValues m (rangeCount N m) ns) = meas at hmembers hread
    obtain ⟨object, before, behind, hline, hbefore, hbehind, hparse⟩ :=
      @exists_parse_line plat N m true tight gMsgId rest _ hpiece hmembers
    obtain ⟨hid, hmid⟩ := @get_frontMembers N m gMsgId _ _ _ hbefore hbehind
      (Json.among_singleton (by decide : "meas" ∈ ["meas"]) meas)
    have hmeas := @get_of_last (frontMembers N m gMsgId before behind) [] "meas" meas nofun
    refine ⟨object, _, hline, hparse, ?_⟩
    have hranges : (List.range (rangeCount N m)).map (fun i ↦
        (((readRange i).value m).anchorAddr.toNat,
          (((readRange i).value m).diffDistMm.toInt / 1000 : ℚ))) =
        (usedRanges ((pkgLayout N).dec m)).map fun r ↦
          (r.anchorAddr.toNat, (r.diffDistMm.toInt / 1000 : ℚ)) := by
      rw [← hused, List.map_map]
      rfl
    simp only [readEntry, hid, hmid, hmeas, Option.bind_some, hsource, integer_dec, entryOf,
      if_neg (hne ∘ hcount.mpr), Option.bind_eq_bind, Option.pure_def, hread, hranges,
      refAnchor_eq]

end Line

/-! ## The packages of a run -/

section Packages

variable {N : ℕ} {ι φ β : Type*} [DecidableEq ι] [DecidableEq β]

/-- The driver gives the likelihood of a line of sight as a number between zero and one. -/
def LosIsLikelihood (D : Driver φ) : Prop :=
  ∀ frame, ∃ q : ℚ, D.uwbEstimateLos (D.uwbCalcRssi frame) (D.uwbCalcFppl frame) = .val q ∧
    0 ≤ q ∧ q ≤ 1

/-- The line of the package can be read. -/
structure Printable (p : RtdoabhTagResultsPkg N) : Prop where
  slots : p.numRanges.toNat ≤ N
  quality : ∀ r ∈ usedRanges p, 0 ≤ r.quality.toInt

/-- A likelihood fits the two bits of the quality, its sign bit apart. -/
theorem quality_rangeOf {D : Driver φ} (hlos : LosIsLikelihood D) (reqFrame frame : φ) :
    0 ≤ (rangeOf D reqFrame frame).quality.toInt := by
  obtain ⟨q, hq, hzero, hone⟩ := hlos frame
  have hnonneg : 0 ≤ CFloat.trunc q := not_lt.mp fun h ↦
    not_lt.mpr hzero ((CFloat.trunc_neg_iff q).mp h).1
  have hle : (CFloat.trunc q).natAbs ≤ 1 := by
    rw [CFloat.natAbs_trunc, abs_of_nonneg hzero]
    exact Nat.floor_le_one_of_le_one hone
  have hconv : CFloat.convert D.undef (-2 ^ 31) (2 ^ 31 - 1) (.val q) = CFloat.trunc q :=
    if_pos (by omega)
  have hquality : (rangeOf D reqFrame frame).quality = BitVec.ofInt 2 (CFloat.trunc q) := by
    rw [rangeOf, hq, hconv]
  rw [hquality]
  obtain h | h : CFloat.trunc q = 0 ∨ CFloat.trunc q = 1 := by omega
  · rw [h]
    decide
  · rw [h]
    decide

/-- No round of a producer leaves a quality with its sign bit set in use. -/
theorem quality_sendRanges {D : Driver φ} (hlos : LosIsLikelihood D) {reqFrame : φ}
    {frames : List φ} {p q : RtdoabhTagResultsPkg N}
    (h : sendRanges D reqFrame p frames = some q)
    (hp : ∀ r ∈ usedRanges p, 0 ≤ r.quality.toInt) : ∀ r ∈ usedRanges q, 0 ≤ r.quality.toInt := by
  induction frames generalizing p with
  | nil =>
    cases h
    exact hp
  | cons frame frames ih =>
    obtain ⟨p₁, h₁, h⟩ := Option.bind_eq_some_iff.mp h
    refine ih h ?_
    rcases sendRange_cases h₁ with ⟨-, -, hused⟩ | ⟨-, hroom, hnum, hranges⟩
    · rwa [hused]
    · -- a count that wraps leaves no range in use
      by_cases hwrap : p.numRanges.toNat = 255
      · have hzero : p₁.numRanges = 0 := by
          rw [hnum]
          bv_omega
        rw [usedRanges, hzero]
        exact List.forall_mem_nil _
      · rw [usedRanges, hnum, toNat_add_one (by omega), hranges, List.take_add_one,
          List.take_set_of_le le_rfl, List.getElem?_set_self (by simpa using hroom)]
        exact List.forall_mem_append.mpr
          ⟨hp, List.forall_mem_singleton.mpr (quality_rangeOf hlos reqFrame frame)⟩

theorem printable_of_send {D : Driver φ} (hlos : LosIsLikelihood D) {role : RtdoaBackhaulRole}
    {p : RtdoabhTagResultsPkg N} {rtdoa : RtdoaInstance φ} {dxTime : BitVec 64} {err : Bool}
    {r : SendRun N} (h : rtdoaBackhaulSend D role p rtdoa dxTime err = some r) :
    Printable r.pkg := by
  obtain ⟨q, hq, rfl⟩ := Option.map_eq_some_iff.mp h
  exact ⟨(sendRanges_eq_some hq (Nat.zero_le N)).2, quality_sendRanges hlos hq nofun⟩

omit [DecidableEq ι] [DecidableEq β] in
/-- The line of every package that is sent can be read. -/
theorem printable_of_mem_sentPkgs {D : Driver φ} (hlos : LosIsLikelihood D) {stack : Mem}
    {sent : List (RtdoabhTagResultsPkg N)} {s : Network N ι β} (hinv : NetInv stack sent s)
    {e : NetEvent ι φ β} : ∀ p ∈ sentPkgs D s e, Printable p := by
  have hone : ∀ {r : Option (SendRun N)} {f : SendRun N → RtdoabhTagResultsPkg N},
      (∀ run, r = some run → Printable (f run)) → ∀ p ∈ r.toList.map f, Printable p := by
    intro r f hr p hp
    obtain ⟨run, hrun, rfl⟩ := List.mem_map.mp hp
    exact hr run (Option.mem_toList.mp hrun)
  refine List.forall_mem_append.mpr ⟨?_, ?_⟩
  · cases e with
    | produce i call tx =>
      cases call with
      | send rtdoa dxTime err =>
        rw [airPkgs]
        split
        · refine hone fun run hrun ↦ ?_
          obtain ⟨hslots, hquality⟩ := printable_of_send hlos hrun
          exact ⟨hslots, hquality⟩
        · exact List.forall_mem_nil _
      | _ => exact List.forall_mem_nil _
    | _ => exact List.forall_mem_nil _
  · cases e with
    | bridge e =>
      cases e with
      | send rtdoa dxTime err env => exact hone fun run hrun ↦ printable_of_send hlos hrun
      | sendImuOnly ts env =>
        refine List.forall_mem_singleton.mpr ?_
        have hnum : (imuPkg s.bridge.gResultPkgImu ts).numRanges = 0 := hinv.imuNumRanges
        refine ⟨by rw [hnum]; exact Nat.zero_le N, ?_⟩
        rw [usedRanges, hnum]
        exact List.forall_mem_nil _
      | _ => exact List.forall_mem_nil _
    | _ => exact List.forall_mem_nil _

/-! ## The log of a run -/

/-- The memories from which the bridge prints. -/
def netPrintedMem (stack : Mem) (s : Network N ι β) : NetEvent ι φ β → List Mem
  | .bridge e => (printedMsgs s.bridge e).map (pkgMem N stack)
  | _ => []

/-- What a compact build makes of them.  `g_msg_id` counts the lines. -/
def logLines (plat : Platform) (N : ℕ) (mems : List Mem) : List String :=
  mems.zipIdx.map fun (m, i) ↦
    (rtdoaBackhaulPrint plat N true (BitVec.ofNat 32 i) true).value m

/-- What the packages are to be read as, one line for each. -/
def logEntries (ps : List (RtdoabhTagResultsPkg N)) : List LogEntry :=
  ps.zipIdx.map fun (p, i) ↦ entryOf p (BitVec.ofNat 32 i)

omit [DecidableEq ι] [DecidableEq β] in
theorem netPrinted_eq_map (stack : Mem) (s : Network N ι β) (e : NetEvent ι φ β) :
    netPrinted stack s e = (netPrintedMem stack s e).map (pkgLayout N).dec := by
  cases e with
  | bridge e =>
    rw [netPrinted, netPrintedMem, List.map_map]
    rfl
  | _ => rfl

omit [DecidableEq ι] in
theorem gather_netPrinted (D : Driver φ) (stack : Mem) (s : Network N ι β)
    (es : List (NetEvent ι φ β)) [DecidableEq ι] :
    gather (netStep D) (netPrinted stack) s es =
      (gather (netStep D) (netPrintedMem stack) s es).map (pkgLayout N).dec := by
  rw [← List.flatMap_pure_eq_map, ← gather_flatMap]
  congr 1
  funext s e
  rw [netPrinted_eq_map, List.flatMap_pure_eq_map]

omit [DecidableEq ι] [DecidableEq β] in
/-- What a package reads as is read from anything that reads as it. -/
theorem entryOf_congr {q p : RtdoabhTagResultsPkg N} (h : Reads q p) (gMsgId : BitVec 32) :
    entryOf q gMsgId = entryOf p gMsgId := by
  rw [entryOf, entryOf, h.head, h.numRanges, h.refAnchorAddr, h.usedRanges]

/-- The line of a package that reads as one that can be printed. -/
theorem readsAs_of_reads {plat : Platform} (hplat : TenthsFit plat) {m : Mem}
    {p : RtdoabhTagResultsPkg N} (h : Reads ((pkgLayout N).dec m) p) (hp : Printable p)
    (gMsgId : BitVec 32) :
    ReadsAs ((rtdoaBackhaulPrint plat N true gMsgId true).value m) (entryOf p gMsgId) := by
  rw [← entryOf_congr h]
  refine readsAs_rtdoaBackhaulPrint hplat ?_ ?_ gMsgId true
  · rw [rangeCount_eq, h.numRanges]
    exact hp.slots
  · rw [h.usedRanges]
    exact hp.quality

/-- **The log is read line by line.** -/
theorem forall₂_logLines {plat : Platform} (hplat : TenthsFit plat) {mems : List Mem}
    {ps : List (RtdoabhTagResultsPkg N)} (h : List.Forall₂ Reads (mems.map (pkgLayout N).dec) ps)
    (hps : ∀ p ∈ ps, Printable p) :
    List.Forall₂ ReadsAs (logLines plat N mems) (logEntries ps) := by
  rw [List.forall₂_map_left_iff] at h
  rw [logLines, logEntries]
  generalize 0 = k
  induction h generalizing k with
  | nil => exact .nil
  | @cons m p mems ps hreads _ ih =>
    obtain ⟨hp, hps⟩ := List.forall_mem_cons.mp hps
    rw [List.zipIdx_cons, List.zipIdx_cons, List.map_cons, List.map_cons]
    exact .cons (readsAs_of_reads hplat hreads hp _) (ih hps (k + 1))

/-- All that is sent in a run can be printed. -/
theorem printable_of_run {D : Driver φ} (hlos : LosIsLikelihood D) (address : ι → BitVec 16)
    (bridgeAddress : BitVec 16) {es : List (NetEvent ι φ β)} {s : Network N ι β}
    (hrun : run (netStep D) (Network.init N address bridgeAddress) es = some s) :
    (∀ p ∈ gather (netStep D) (airPkgs D) (Network.init N address bridgeAddress) es,
      Printable p) ∧
    ∀ p ∈ gather (netStep D) (sentPkgs D) (Network.init N address bridgeAddress) es,
      Printable p := by
  let I : List (RtdoabhTagResultsPkg N) → List (RtdoabhTagResultsPkg N) → Network N ι β → Prop :=
    fun air sent s ↦ ((∀ p ∈ air, Printable p) ∧ ∀ p ∈ sent, Printable p) ∧
      NetInv (fun _ ↦ 0) sent s
  have hinit : I [] [] (Network.init N address bridgeAddress) :=
    ⟨⟨nofun, nofun⟩, nofun, nofun, rfl, rfl⟩
  refine (gather_invariant (I := I) (fun air sent s e t h hstep ↦ ?_) hinit hrun).1
  obtain ⟨⟨hair, hsent⟩, hinv⟩ := h
  have hnew := @printable_of_mem_sentPkgs _ _ _ _ D hlos _ _ _ hinv e
  exact ⟨⟨List.forall_mem_append.mpr ⟨hair, fun p hp ↦ hnew p (List.mem_append_left _ hp)⟩,
    List.forall_mem_append.mpr ⟨hsent, hnew⟩⟩, hinv.step hstep⟩

/-- **Whatever the bridge logs was sent.**  In every run of the network from start-up, with frames
received late, out of order, repeatedly or never, each line of the log of a compact build is one
JSON object, and is read as a package that was sent, under the number of the line. -/
theorem log_reads_sent {plat : Platform} (hplat : TenthsFit plat) {D : Driver φ}
    (hlos : LosIsLikelihood D) (stack : Mem) (address : ι → BitVec 16) (bridgeAddress : BitVec 16)
    {es : List (NetEvent ι φ β)} {s : Network N ι β}
    (hrun : run (netStep D) (Network.init N address bridgeAddress) es = some s) :
    ∃ ps ⊆ gather (netStep D) (sentPkgs D) (Network.init N address bridgeAddress) es,
      List.Forall₂ ReadsAs
        (logLines plat N (gather (netStep D) (netPrintedMem stack)
          (Network.init N address bridgeAddress) es))
        (logEntries ps) := by
  have hsent := (netInv_of_run D stack address bridgeAddress hrun).1
  rw [gather_netPrinted] at hsent
  have hprintable := (printable_of_run hlos address bridgeAddress hrun).2
  generalize gather (netStep D) (netPrintedMem stack) _ es = mems at hsent ⊢
  generalize gather (netStep D) (sentPkgs D) _ es = sent at hsent hprintable ⊢
  obtain ⟨ps, hps, hreads⟩ : ∃ ps ⊆ sent, List.Forall₂ Reads (mems.map (pkgLayout N).dec) ps := by
    induction mems with
    | nil => exact ⟨[], List.nil_subset _, .nil⟩
    | cons m mems ih =>
      obtain ⟨hm, hmems⟩ := List.forall_mem_cons.mp hsent
      obtain ⟨p, hp, hreads⟩ := hm
      obtain ⟨ps, hps, hrest⟩ := ih hmems
      exact ⟨p :: ps, List.cons_subset.mpr ⟨hp, hps⟩, .cons hreads hrest⟩
  exact ⟨ps, hps, forall₂_logLines hplat hreads fun p hp ↦ hprintable p (hps hp)⟩

theorem losIsLikelihood_addressDriver : LosIsLikelihood addressDriver := fun _ ↦
  ⟨1, rfl, zero_le_one, le_rfl⟩

theorem log_reads_sent_one_round :
    ∃ line p, logLines (exactPlatform (fun _ ↦ 0) fun _ ↦ .nan) 16
        (gather (netStep addressDriver) (netPrintedMem fun _ ↦ 0xff)
          (Network.init 16 (fun _ ↦ 0x0102) 0x0001) sampleNetEvents) = [line] ∧
      p ∈ gather (netStep addressDriver) (sentPkgs addressDriver)
        (Network.init 16 (fun _ ↦ 0x0102) 0x0001) sampleNetEvents ∧ ReadsAs line (entryOf p 0) := by
  obtain ⟨s, hrun⟩ : ∃ s, run (netStep addressDriver)
      (Network.init 16 (fun _ ↦ 0x0102) 0x0001) sampleNetEvents = some s := ⟨_, rfl⟩
  obtain ⟨m, hm⟩ : ∃ m, gather (netStep addressDriver) (netPrintedMem fun _ ↦ 0xff)
      (Network.init 16 (fun _ ↦ 0x0102) 0x0001) sampleNetEvents = [m] := ⟨_, rfl⟩
  obtain ⟨ps, hsub, hreads⟩ := log_reads_sent (tenthsFit_exactPlatform (fun _ ↦ 0) fun _ ↦ .nan)
    losIsLikelihood_addressDriver (fun _ ↦ 0xff) _ _ hrun
  rw [hm] at hreads ⊢
  rcases ps with _ | ⟨p, ps⟩
  · cases hreads
  · exact ⟨_, p, rfl, hsub List.mem_cons_self, (List.forall₂_cons.mp hreads).1⟩

/-- **The log of a good day.**  With different addresses for the producers, in every run from
start-up whose steps are all faithful, the log is read as the packages that were received, one line
for each, in the order they were sent and numbered from zero on; what is missing at its end still
waits in the queue. -/
theorem log_of_faithful {plat : Platform} (hplat : TenthsFit plat) {D : Driver φ}
    (hlos : LosIsLikelihood D) (stack : Mem) {address : ι → BitVec 16}
    (haddress : Function.Injective address) (bridgeAddress : BitVec 16)
    {es : List (NetEvent ι φ β)} {s : Network N ι β}
    (hrun : run (netStep D) (Network.init N address bridgeAddress) es = some s)
    (hfaithful : Each (netStep D) Faithful (Network.init N address bridgeAddress) es) :
    List.Forall₂ ReadsAs
        (logLines plat N (gather (netStep D) (netPrintedMem stack)
          (Network.init N address bridgeAddress) es))
        (logEntries ((gather (netStep D) (airPkgs D) (Network.init N address bridgeAddress) es).take
          (s.heard - (pending s.bridge).length))) := by
  obtain ⟨-, -, -, -, -, hheard, -, hqueue⟩ :=
    delInv_of_run D stack haddress bridgeAddress hrun hfaithful
  have hprintable := (printable_of_run hlos address bridgeAddress hrun).1
  rw [gather_netPrinted] at hqueue
  have hlength := hqueue.length_eq
  rw [List.length_append, List.length_map, List.length_take, Nat.min_eq_left hheard] at hlength
  refine forall₂_logLines hplat ?_ fun p hp ↦ hprintable p (List.mem_of_mem_take hp)
  have htake := List.forall₂_take (s.heard - (pending s.bridge).length) hqueue
  rw [List.take_take, Nat.min_eq_left (Nat.sub_le _ _), ← hlength] at htake
  rw [← hlength]
  simpa using htake

theorem log_of_faithful_one_round :
    ∃ line p, logLines (exactPlatform (fun _ ↦ 0) fun _ ↦ .nan) 16
        (gather (netStep addressDriver) (netPrintedMem fun _ ↦ 0xff)
          (Network.init 16 (fun _ ↦ 0x0102) 0x0001) sampleNetEvents) = [line] ∧
      gather (netStep addressDriver) (airPkgs addressDriver)
        (Network.init 16 (fun _ ↦ 0x0102) 0x0001) sampleNetEvents = [p] ∧
      (usedRanges p).length = 1 ∧ ReadsAs line (entryOf p 0) := by
  obtain ⟨s, hrun, hwaits, hheard⟩ : ∃ s, run (netStep addressDriver)
      (Network.init 16 (fun _ ↦ 0x0102) 0x0001) sampleNetEvents = some s ∧
      pending s.bridge = [] ∧ s.heard = 1 := ⟨_, rfl, rfl, rfl⟩
  obtain ⟨m, hm⟩ : ∃ m, gather (netStep addressDriver) (netPrintedMem fun _ ↦ 0xff)
      (Network.init 16 (fun _ ↦ 0x0102) 0x0001) sampleNetEvents = [m] := ⟨_, rfl⟩
  obtain ⟨p, hp, hlen⟩ : ∃ p, gather (netStep addressDriver) (airPkgs addressDriver)
      (Network.init 16 (fun _ ↦ 0x0102) 0x0001) sampleNetEvents = [p] ∧
        (usedRanges p).length = 1 := ⟨_, rfl, rfl⟩
  have hall := log_of_faithful (tenthsFit_exactPlatform (fun _ ↦ 0) fun _ ↦ .nan)
    losIsLikelihood_addressDriver (fun _ ↦ 0xff)
    (Function.injective_of_subsingleton fun _ ↦ 0x0102) 0x0001 hrun (by decide +kernel)
  rw [hm, hp, hwaits, hheard] at hall
  rw [hm]
  exact ⟨_, p, rfl, hp, hlen, (List.forall₂_cons.mp hall).1⟩

end Packages

end UwbApps.Backhaul
