import UwbApps.Lib.Ascii
import UwbApps.Listener.Blocks
import UwbApps.Listener.Feed
import UwbApps.Listener.Payload
import UwbApps.Listener.ReportJson
import UwbApps.Listener.Scripts

/-!
# From the radio to the viewer

`mprintf` writes every piece of a line to the console once it is in the chain, and behind the last
piece comes `console_out('\n')`.  A build that sends the line over the network prints another one
when `mn_sendto` fails.  The viewer is at the other end: `readlines_socket` cuts the lines out of
what arrives, and `json.loads` reads each of them.

`console_round_trip` is about the way in between.  Wherever the reads cut the stream, whichever
chains the pools refuse and wherever an assertion ends the run, every line reads as the report of a
frame that was queued, in the order of the frames and with none of them twice, or is that of a
failed `mn_sendto`, which cannot be read.  If every record gets its line, the frames that no line
shows are those still waiting.
-/

set_option autoImplicit false

open Octets Printf Run

namespace UwbApps.Listener

open Os
open Settings (LstnrConfig)
open Json (Plain MembersWhen readsWhen_val)
open Ascii (Clean clean_dec clean_decPad clean_ite clean_listText)

/-! ## The characters of a line -/

section Characters

variable (undef : CFloat → ℤ)

theorem clean_signalText (x : CFloat) : Clean (signalText undef x) :=
  clean_ite (((clean_dec _).append (by decide)).append (clean_decPad _ _)) (by decide)

theorem clean_phaseText (x : CFloat) : Clean (phaseText undef x) :=
  clean_ite (by decide)
    ((((clean_ite (by decide) (by decide)).append (clean_dec _)).append (by decide)).append
      (clean_decPad _ _))

theorem clean_angleText (x : CFloat) : Clean (angleText undef x) :=
  ((clean_dec _).append (by decide)).append (clean_decPad _ _)

theorem clean_fpIdxText (x : CFloat) : Clean (fpIdxText undef x) :=
  ((clean_dec _).append (by decide)).append (clean_decPad _ _)

theorem clean_ccorText (x : CFloat) : Clean (ccorText undef x) :=
  (((clean_dec _).append (by decide)).append (clean_decPad _ _)).append (by decide)

theorem clean_rxDiagText (rxDiag : Option (List CFloat × List CFloat)) :
    Clean (rxDiagText undef rxDiag) := by
  rcases rxDiag with _ | ⟨rssi, fppl⟩
  · exact (by decide : Clean "")
  · have hlist := fun xs ↦ clean_listText (clean_signalText undef) xs
    exact ((((by decide : Clean _).append (hlist rssi)).append (by decide)).append
      (hlist fppl)).append (by decide)

theorem clean_samplesText (samples : Option (List ℤ × List ℤ)) : Clean (samplesText samples) := by
  rcases samples with _ | ⟨real, imag⟩
  · exact (by decide : Clean "")
  · have hlist := fun xs ↦ clean_listText clean_dec xs
    exact ((((by decide : Clean _).append (hlist real)).append (by decide)).append
      (hlist imag)).append (by decide)

theorem clean_cirObject (c : CirReport) : Clean (cirObject undef c) := by
  have hoffset : Clean ("\x7b\"o\":" ++ dec c.offset) :=
    (by decide : Clean "\x7b\"o\":").append (clean_dec c.offset)
  have hfpIdx := (hoffset.append (by decide : Clean ",\"fp_idx\":")).append
    (clean_fpIdxText undef c.fpIdx)
  have hrcphase := (hfpIdx.append (by decide : Clean ",\"rcphase\":")).append
    (clean_angleText undef c.rcphase)
  have hangle := (hrcphase.append (by decide : Clean ",\"angle\":")).append
    (clean_angleText undef c.angle)
  exact (((hangle.append (by decide)).append (clean_dec c.rawTs)).append
    (clean_samplesText c.samples)).append (by decide)

theorem clean_cirText (cir : Option (List CirReport)) : Clean (cirText undef cir) := by
  rcases cir with _ | cirs
  · exact (by decide : Clean "")
  · exact ((by decide : Clean _).append (clean_listText (clean_cirObject undef) cirs)).append
      (by decide)

theorem clean_ccorPart (ccor : Option CFloat) : Clean (ccorPart undef ccor) := by
  rcases ccor with _ | x
  · exact (by decide : Clean "")
  · exact (by decide : Clean _).append (clean_ccorText undef x)

theorem clean_payloadText (dlen : BitVec 16) (d : List UInt8) : Clean (payloadText dlen d) := by
  refine ((((by decide : Clean _).append (clean_dec _)).append (by decide)).append
    (Ascii.clean_join fun s hs ↦ ?_)).append (by decide)
  obtain ⟨c, -, rfl⟩ := List.mem_map.mp hs
  exact Ascii.clean_padZero 2 (Ascii.clean_hex _)

/-- A line is printable characters, whatever the values. -/
theorem clean_reportText (r : Report) : Clean (reportText undef r) := by
  have hts : Clean (tsText r.ts) :=
    ((by decide : Clean _).append (clean_listText (fun _ ↦ clean_dec _) r.ts)).append (by decide)
  have hpd : Clean (pdText undef r.pdoa r.pd) :=
    (((by decide : Clean _).append (clean_listText (clean_phaseText undef) _)).append
      (clean_listText (clean_phaseText undef) _)).append (by decide)
  have hutime : Clean ("\x7b\"utime\":" ++ dec r.utime.toNat) :=
    (by decide : Clean "\x7b\"utime\":").append (clean_dec r.utime.toNat)
  have hfront := ((hutime.append hts).append (clean_rxDiagText undef r.rxDiag)).append
    (clean_ccorPart undef r.ccor)
  exact (((hfront.append hpd).append (clean_payloadText r.dlen r.d)).append
    (clean_cirText undef r.cir)).append (by decide)

end Characters

/-! ## What a reader finds in a line -/

/-- The payload as it is printed. -/
def hexText (d : List UInt8) : String := String.join (d.map fun c ↦ padZero 2 (hex c.toNat))

/-- The two members of the payload. -/
theorem membersWhen_payload_val (dlen : BitVec 16) (d : List UInt8) :
    MembersWhen True (· = [("dlen".toList, .num (dec dlen.toNat).toList),
      ("d".toList, .str (hexText d).toList)]) fun _ : Undef ↦ payloadText dlen d := by
  have hplain : Plain (hexText d).toList := by
    intro c hc
    rw [hexText, String.toList_join, List.mem_flatMap] at hc
    obtain ⟨text, htext, hc⟩ := hc
    obtain ⟨b, -, rfl⟩ := List.mem_map.mp htext
    exact plain_padZero 2 (plain_hex _) c hc
  have hdlen := (readsWhen_val fun _ : Undef ↦ val_dec dlen.toNat).member ",\"dlen\":" "dlen"
    (by decide)
  have hd := (readsWhen_val fun _ : Undef ↦ val_quoted hplain).member ",\"d\":" "d" (by decide)
  have htext : payloadText dlen d = ",\"dlen\":" ++ dec dlen.toNat ++
      (",\"d\":" ++ ("\"" ++ hexText d ++ "\"")) := by
    show ",\"dlen\":" ++ dec dlen.toNat ++ (",\"d\":" ++ "\"") ++ hexText d ++ "\"" = _
    generalize dec dlen.toNat = n, hexText d = t
    simp only [String.append_assoc]
  refine MembersWhen.of_eq (.congr ((hdlen.append hd).imp fun ms hms ↦ ?_)
    (iff_of_true ⟨trivial, trivial⟩ trivial)) fun _ ↦ htext
  obtain ⟨ms₁, ms₂, rfl, ⟨v, rfl, rfl⟩, w, rfl, rfl⟩ := hms
  rfl

/-- A value with the members of this payload. -/
def HasPayload (frame : List UInt8) (v : Json) : Prop :=
  Script.get "dlen" v = some (.num (dec frame.length).toList) ∧
    ∃ d, Script.get "d" v = some (.str d) ∧ Hex.read d = some frame

/-- The line of a report that can be printed has its payload, and a list of phases. -/
theorem parse_of_printable {r : Report} (h : r.Printable) (hdlen : r.dlen.toNat = r.d.length)
    (undef : CFloat → ℤ) :
    ∃ v, Json.parse (reportText undef r) = some v ∧ HasPayload r.d v ∧
      ∃ vs, Script.get "pd" v = some (.arr vs) := by
  have hobject := ((membersWhen_ts r.ts).append ((membersWhen_rxDiag r.rxDiag).append
    ((membersWhen_ccor r.ccor).append ((membersWhen_pd r.pdoa r.pd).append
      ((membersWhen_payload_val r.dlen r.d).append (membersWhen_cir r.cir)))))).object
        "\x7b\"utime\":" "utime" (by decide) (val_dec r.utime.toNat)
  obtain ⟨v, ⟨ms, rfl, ms₁, ms₂, rfl, hts, ms₃, ms₄, rfl, hrx, ms₅, ms₆, rfl, hccor, ms₇, ms₈, rfl,
    hpd, ms₉, ms₁₀, rfl, rfl, hcir⟩, hval⟩ :=
    hobject.val ⟨trivial, trivial, h.ccor, h.pd, trivial, h.cir⟩ undef
  rw [← reportText_eq undef r] at hval
  refine ⟨_, hval.parse, ?_⟩
  obtain ⟨ts, rfl, -⟩ := hts
  obtain ⟨phases, rfl, -⟩ := hpd
  rw [HasPayload, ← hdlen]
  rcases hrx with ⟨-, rfl⟩ | ⟨rssi, fppl, vs, ws, -, rfl, -, -⟩ <;>
    rcases hccor with rfl | ⟨c, rfl⟩ <;> rcases hcir with rfl | ⟨c', rfl⟩ <;>
    exact ⟨⟨rfl, (hexText r.d).toList, rfl, Hex.read_join r.d⟩, phases, rfl⟩

/-- The text of a line is read as a report of `frame`. -/
def Reports (line frame : List UInt8) : Prop :=
  ∃ v, Json.parse (Ascii.decode line) = some v ∧ HasPayload frame v

/-! ## The line of a failed `mn_sendto` -/

/-- `"sendto: %d"`. -/
def sendtoText (rc : ℤ) : String := "sendto: " ++ dec rc

theorem clean_sendtoText (rc : ℤ) : Clean (sendtoText rc) :=
  (by decide : Clean "sendto: ").append (clean_dec rc)

/-- No value starts like that. -/
theorem parse_sendtoText (rc : ℤ) : Json.parse (sendtoText rc) = none := by
  refine Json.parse_eq_none ?_
  rw [sendtoText, String.toList_append]
  rfl

/-! ## What the console gets -/

/-- `VERBOSE_NOT_TO_CONSOLE`. -/
def notToConsoleBit (verbose : UInt16) : Bool := verbose &&& 0x1000 ≠ 0

/-- A record that is printed gets a line on the console. -/
def PoolEvent.printed {β γ : Type*} : PoolEvent β γ → Bool
  | .printMsg conf env => env.hdr.isSome && !notToConsoleBit conf.verbose
  | _ => true

section Console

variable {β γ : Type*} [DecidableEq β] [DecidableEq γ]

/-- `console_write` in `mprintf`, up to the piece whose append trips the assertion. -/
def writtenPieces : List String → List (CopyOutcome γ) → List UInt8
  | text :: texts, o :: os => if o.ok then bytesOf text ++ writtenPieces texts os else []
  | _, _ => []

/-- `console_write` and `console_out` for a record. -/
def consoleLine (tg : Target) (conf : LstnrConfig) (msg : Msg β) (scratch : Scratch)
    (appends : List (CopyOutcome γ)) : List UInt8 :=
  let report := (reportOf tg.b tg.dr tg.n conf msg scratch).1
  if notToConsoleBit conf.verbose then []
  else
    writtenPieces (reportPieces tg.undef report) appends ++
      if appends.all CopyOutcome.ok then bytesOf "\n" else []

/-- The bytes that a step puts on the console.  The line of a failed `mn_sendto` goes there whatever
`VERBOSE_NOT_TO_CONSOLE` says. -/
def consoleOf (tg : Target) (s : PoolState β γ) : PoolEvent β γ → List UInt8
  | .printMsg conf env =>
    if env.hdr.isSome then
      s.om.toList.flatMap fun msg ↦ consoleLine tg conf msg s.scratch env.appends
    else []
  | .finishMsg rc => if tg.eth && rc != 0 then bytesOf (sendtoText rc) ++ bytesOf "\n" else []
  | _ => []

/-- The frame that a step queues. -/
def queuedFrame (tg : Target) (s : PoolState β γ) : PoolEvent β γ → List (List UInt8)
  | .rx rx =>
    if (rxStep tg s rx).any fun t ↦ s.rxpktQ.length < t.rxpktQ.length then
      rx.devs[rx.inst]?.toList.map frameOf
    else []
  | _ => []

/-- The records that have no line yet. -/
def PoolState.unprinted (s : PoolState β γ) : List (Msg β) :=
  (if s.m.isSome then [] else s.om.toList) ++ s.rxpktQ

/-- What a line of the console is about. -/
inductive ConsoleLine
  | report (frame : List UInt8)
  | sendto (rc : ℤ)

def ConsoleLine.frame? : ConsoleLine → Option (List UInt8)
  | .report frame => some frame
  | .sendto _ => none

/-- The line that is printed for it. -/
def IsLine (tg : Target) (line : List UInt8) : ConsoleLine → Prop
  | .report frame => ∃ r : Report, r.Printable ∧ r.dlen.toNat = r.d.length ∧ r.d = frame ∧
      line = bytesOf (reportText tg.undef r)
  | .sendto rc => tg.eth = true ∧ rc ≠ 0 ∧ line = bytesOf (sendtoText rc)

/-- What a reader makes of a line. -/
def ReadsAs (tg : Target) (line : List UInt8) : ConsoleLine → Prop
  | .report frame => Reports line frame
  | .sendto rc => tg.eth = true ∧ rc ≠ 0 ∧ Ascii.decode line = sendtoText rc ∧
      Json.parse (Ascii.decode line) = none

theorem decode_reportText (undef : CFloat → ℤ) (r : Report) :
    Ascii.decode (bytesOf (reportText undef r)) = reportText undef r :=
  Ascii.decode_encode (clean_reportText undef r)

theorem decode_sendtoText (rc : ℤ) : Ascii.decode (bytesOf (sendtoText rc)) = sendtoText rc :=
  Ascii.decode_encode (clean_sendtoText rc)

theorem readsAs_of_isLine {tg : Target} {line : List UInt8} {about : ConsoleLine}
    (h : IsLine tg line about) : ReadsAs tg line about := by
  rcases about with frame | rc
  · obtain ⟨r, hprint, hdlen, rfl, rfl⟩ := h
    obtain ⟨v, hparse, hpayload, -⟩ := parse_of_printable hprint hdlen tg.undef
    exact ⟨v, by rw [decode_reportText, hparse], hpayload⟩
  · obtain ⟨heth, hrc, rfl⟩ := h
    refine ⟨heth, hrc, decode_sendtoText rc, ?_⟩
    rw [decode_sendtoText, parse_sendtoText]

/-- What the frames and the reports have to be for a line to show them: a frame that
`print_buffer` can hold, in a chain whose length is a `uint16_t`, and values that can be printed. -/
def Legible (tg : Target) (s : PoolState β γ) : PoolEvent β γ → Prop
  | .rx rx => ∀ dev dev₀, rx.devs[rx.inst]? = some dev → rx.devs.head? = some dev₀ →
      dev.frameLen.toNat ≤ 1024 ∧
        (writeAll [] (rx.front tg dev ++ rx.cir tg dev dev₀)).length < 65536
  | .printMsg conf _ => ∀ msg ∈ s.om, Printable tg.b tg.dr tg.n conf msg s.scratch
  | _ => True

/-! ## A record and its frame -/

/-- The record is that of the frame. -/
structure Holds (msg : Msg β) (frame : List UInt8) : Prop where
  data : frame <+: msg.om.data
  dlen : msg.hdr.dlen.toNat = frame.length
  short : frame.length ≤ 1024

theorem data_of_chainExit {held held' : Finset β} {front cir : List Write} {env : Env β}
    {om : Mbuf β} (h : chainExit held front cir env = some (held', .queued om)) :
    om.data = writeAll [] (front ++ cir) := by
  obtain ⟨⟨held₁, om₁⟩, hget, hrest⟩ := Option.bind_eq_some_iff.mp h
  rcases osMbufGetPkthdr_eq_some hget with ⟨-, rfl, rfl⟩ | ⟨block, -, rfl, -⟩
  · cases hrest
  obtain ⟨⟨held₂, om₂, ok₂⟩, hfront, hrest⟩ := Option.bind_eq_some_iff.mp hrest
  cases ok₂ with
  | false => cases hrest
  | true =>
    obtain ⟨⟨held₃, om₃, ok₃⟩, hcir, hrest⟩ := Option.bind_eq_some_iff.mp hrest
    cases ok₃ with
    | false => cases hrest
    | true =>
      simp only [Bool.not_true, Bool.false_eq_true, if_false] at hrest
      split at hrest <;> cases hrest
      rw [writeAll_append, copyAll_eq_some hcir, copyAll_eq_some hfront]

omit [DecidableEq β] in
/-- A record is queued with its frame, for either build. -/
theorem holds_msg {tg : Target} {rx : RxFrame β} {dev dev₀ : UwbDev} {om : Mbuf β}
    (hdata : om.data = writeAll [] (rx.front tg dev ++ rx.cir tg dev dev₀))
    (hframe : dev.frameLen.toNat ≤ 1024)
    (hlen : (writeAll [] (rx.front tg dev ++ rx.cir tg dev dev₀)).length < 65536) :
    Holds (rx.msg tg dev dev₀ om) (frameOf dev) := by
  rw [← hdata] at hlen
  have hshort : (frameOf dev).length ≤ 1024 := by rwa [length_frameOf]
  rcases hspi : rx.spi with _ | pdata
  · rw [RxFrame.front, RxFrame.cir, hspi] at hdata
    rw [RxFrame.msg, hspi]
    refine ⟨?_, (length_frameOf dev).symm, hshort⟩
    simp only [hdata] at hlen ⊢
    exact prefix_messageOf hlen
  · rw [RxFrame.front, RxFrame.cir, hspi] at hdata
    rw [RxFrame.msg, hspi]
    refine ⟨?_, (length_frameOf dev).symm, hshort⟩
    show frameOf dev <+: om.data
    rw [hdata]
    exact frameOf_prefix_writeAll fun w hw ↦ frameLen_le_off_of_mem_cirWritesSpi hw

omit [DecidableEq γ] in
/-- What is written is the beginning of the line, and all of it if every append succeeds. -/
theorem prefix_writtenPieces (texts : List String) (os : List (CopyOutcome γ)) :
    writtenPieces texts os <+: bytesOf (String.join texts) := by
  induction texts generalizing os with
  | nil => exact List.nil_prefix
  | cons text texts ih =>
    rcases os with _ | ⟨o, os⟩
    · exact List.nil_prefix
    rw [writtenPieces]
    split
    · rw [String.join_cons, bytesOf_append]
      exact (List.prefix_append_right_inj _).mpr (ih os)
    · exact List.nil_prefix

omit [DecidableEq γ] in
theorem writtenPieces_eq {texts : List String} {os : List (CopyOutcome γ)}
    (hlen : texts.length = os.length) (hok : os.all CopyOutcome.ok = true) :
    writtenPieces texts os = bytesOf (String.join texts) := by
  induction texts generalizing os with
  | nil => rfl
  | cons text texts ih =>
    rcases os with _ | ⟨o, os⟩
    · cases hlen
    obtain ⟨ho, hos⟩ := Bool.and_eq_true_iff.mp hok
    rw [writtenPieces, if_pos ho, ih (Nat.succ.inj hlen) hos, String.join_cons, bytesOf_append]

theorem length_of_printAll {held held' : Finset γ} {m m' : Mbuf γ} {texts : List String}
    {os : List (CopyOutcome γ)} (h : printAll held m texts os = some (held', m', true)) :
    texts.length = os.length := by
  induction texts generalizing held m os with
  | nil =>
    rcases os with _ | ⟨o, os⟩
    · rfl
    · cases h
  | cons text texts ih =>
    rcases os with _ | ⟨o, os⟩
    · cases h
    obtain ⟨held₁, -, ⟨-, hrest⟩ | ⟨-, -, -, hfalse⟩⟩ := printAll_cons h
    · rw [List.length_cons, List.length_cons, ih hrest]
    · cases hfalse

/-- A newline is in no line. -/
theorem notMem_bytesOf_reportText (undef : CFloat → ℤ) (r : Report) :
    delim ∉ bytesOf (reportText undef r) :=
  Ascii.notMem_encode (clean_reportText undef r) (by decide)

omit [DecidableEq β] [DecidableEq γ] in
/-- The line of a record is about its frame. -/
theorem isLine_of_holds {tg : Target} {conf : LstnrConfig} {msg : Msg β} {scratch : Scratch}
    {frame : List UInt8} (hprint : Printable tg.b tg.dr tg.n conf msg scratch)
    (hholds : Holds msg frame) :
    IsLine tg (bytesOf (reportText tg.undef (reportOf tg.b tg.dr tg.n conf msg scratch).1))
      (.report frame) := by
  have hd : (reportOf tg.b tg.dr tg.n conf msg scratch).1.d = frame :=
    d_reportOf hholds.data hholds.dlen hholds.short
  refine ⟨_, printable_reportOf_iff.mpr hprint, ?_, hd, rfl⟩
  rw [hd]
  exact hholds.dlen

/-! ## Runs -/

/-- What the console has got of the frames that were queued: `lines`, each of them about one of
`shown`, and behind a failed assertion a `part` of another. -/
structure Printed (tg : Target) (s : PoolState β γ) (bytes : List UInt8)
    (queued lines : List (List UInt8)) (shown : List ConsoleLine)
    (finished waiting : List (List UInt8)) (part : List UInt8) : Prop where
  cut : Lines.IsCut delim bytes lines part
  queued : queued = finished ++ waiting
  isLine : List.Forall₂ (IsLine tg) lines shown
  sublist : (shown.filterMap ConsoleLine.frame?).Sublist finished
  /-- A line is printed for a record. -/
  idle : s.om = none → s.m = none
  running : s.asserted = false → part = [] ∧ List.Forall₂ Holds s.unprinted waiting

/-- The same for some way to tell them apart; with `all`, every frame that is done with is shown. -/
def ConsoleInv (tg : Target) (all : Prop) (bytes : List UInt8) (queued : List (List UInt8))
    (s : PoolState β γ) : Prop :=
  ∃ lines shown finished waiting part,
    Printed tg s bytes queued lines shown finished waiting part ∧
      (all → shown.filterMap ConsoleLine.frame? = finished)

theorem running_of_poolStep {tg : Target} {s t : PoolState β γ} {ev : PoolEvent β γ}
    (h : poolStep tg s ev = some t) : s.asserted = false := by
  rw [poolStep.eq_def] at h
  split at h
  · cases h
  · next hrun => exact Bool.eq_false_iff.mpr hrun

omit [DecidableEq β] [DecidableEq γ] in
/-- A step that neither prints nor queues. -/
theorem ConsoleInv.silent {tg : Target} {all : Prop} {bytes : List UInt8}
    {queued : List (List UInt8)} {s t : PoolState β γ} (h : ConsoleInv tg all bytes queued s)
    (hrun : s.asserted = false)
    (hsame : t.asserted = false → t.unprinted = s.unprinted) (hidle : t.om = none → t.m = none) :
    ConsoleInv tg all (bytes ++ []) (queued ++ []) t := by
  obtain ⟨lines, shown, finished, waiting, part, hprinted, hall⟩ := h
  rw [List.append_nil, List.append_nil]
  refine ⟨lines, shown, finished, waiting, part,
    ⟨hprinted.cut, hprinted.queued, hprinted.isLine, hprinted.sublist, hidle, fun hrun' ↦ ?_⟩,
    hall⟩
  rw [hsame hrun']
  exact hprinted.running hrun

omit [DecidableEq γ] in
/-- `rx_complete_cb` puts nothing on the console, and queues a record with its frame. -/
theorem consoleInv_rx {tg : Target} {all : Prop} {bytes : List UInt8}
    {queued : List (List UInt8)} {s t : PoolState β γ} {rx : RxFrame β}
    (h : ConsoleInv tg all bytes queued s) (hrun : s.asserted = false)
    (hlegible : Legible tg s (.rx rx : PoolEvent β γ)) (hrx : rxStep tg s rx = some t) :
    ConsoleInv tg all (bytes ++ consoleOf tg s (.rx rx : PoolEvent β γ))
      (queued ++ queuedFrame tg s (.rx rx : PoolEvent β γ)) t := by
  have hconsole : consoleOf tg s (.rx rx : PoolEvent β γ) = [] := rfl
  rw [hconsole, queuedFrame, hrx, Option.any_some]
  have hidle : s.om = none → s.m = none := by
    obtain ⟨_, _, _, _, _, hprinted, -⟩ := h
    exact hprinted.idle
  obtain ⟨dev, dev₀, hdev, hdev₀, ⟨-, rfl⟩ | ⟨-, held, exit, hchain, rfl⟩⟩ := rxStep_eq_some hrx
  · rw [if_neg (by simp)]
    exact h.silent hrun (fun _ ↦ rfl) hidle
  cases exit with
  | noMbuf | copyFailed | putFailed om =>
    rw [if_neg (by simp [PoolState.leave])]
    exact h.silent hrun (fun _ ↦ rfl) hidle
  | asserted =>
    rw [if_neg (by simp [PoolState.leave])]
    exact h.silent hrun (fun hfalse ↦ by cases hfalse) hidle
  | queued om =>
    rw [if_pos (by simp [PoolState.leave]), hdev, List.append_nil]
    obtain ⟨lines, shown, finished, waiting, part, hprinted, hall⟩ := h
    obtain ⟨hpart, hwaiting⟩ := hprinted.running hrun
    obtain ⟨hframe, hlen⟩ := hlegible dev dev₀ hdev hdev₀
    have hholds := holds_msg (data_of_chainExit hchain) hframe hlen
    refine ⟨lines, shown, finished, waiting ++ [frameOf dev], part, ⟨hprinted.cut, ?_,
      hprinted.isLine, hprinted.sublist, hidle, fun _ ↦ ⟨hpart, ?_⟩⟩, hall⟩
    · rw [hprinted.queued, List.append_assoc]
      rfl
    · have hsnoc : List.Forall₂ Holds (s.unprinted ++ [rx.msg tg dev dev₀ om])
          (waiting ++ [frameOf dev]) := List.rel_append hwaiting (.cons hholds .nil)
      rwa [PoolState.unprinted, List.append_assoc] at hsnoc

omit [DecidableEq β] [DecidableEq γ] in
/-- The frame in front is done with, and nothing shows it. -/
theorem Printed.pass {tg : Target} {s t : PoolState β γ} {bytes : List UInt8}
    {queued lines finished rest : List (List UInt8)} {shown : List ConsoleLine} {frame : List UInt8}
    (h : Printed tg s bytes queued lines shown finished (frame :: rest) [])
    (hidle : t.om = none → t.m = none) (hrest : List.Forall₂ Holds t.unprinted rest) :
    Printed tg t bytes queued lines shown (finished ++ [frame]) rest [] where
  cut := h.cut
  queued := by rw [h.queued, List.append_assoc, List.singleton_append]
  isLine := h.isLine
  sublist := h.sublist.trans (List.sublist_append_left _ _)
  idle := hidle
  running _ := ⟨rfl, hrest⟩

theorem filterMap_frame?_snoc (shown : List ConsoleLine) (frame : List UInt8) :
    (shown ++ [ConsoleLine.report frame]).filterMap ConsoleLine.frame? =
      shown.filterMap ConsoleLine.frame? ++ [frame] :=
  List.filterMap_append

omit [DecidableEq β] [DecidableEq γ] in
/-- The frame in front has got its line. -/
theorem Printed.line {tg : Target} {s t : PoolState β γ} {bytes line : List UInt8}
    {queued lines finished rest : List (List UInt8)} {shown : List ConsoleLine} {frame : List UInt8}
    (h : Printed tg s bytes queued lines shown finished (frame :: rest) [])
    (hline : IsLine tg line (.report frame)) (hclean : delim ∉ line)
    (hidle : t.om = none → t.m = none) (hrest : List.Forall₂ Holds t.unprinted rest) :
    Printed tg t (bytes ++ (line ++ [delim])) queued (lines ++ [line])
      (shown ++ [.report frame]) (finished ++ [frame]) rest [] where
  cut := h.cut.snoc hclean
  queued := by rw [h.queued, List.append_assoc, List.singleton_append]
  isLine := List.rel_append h.isLine (.cons hline .nil)
  sublist := by
    rw [filterMap_frame?_snoc]
    exact h.sublist.append_right _
  idle := hidle
  running _ := ⟨rfl, hrest⟩

/-- A record gets its line, a part of it, or none. -/
theorem consoleInv_printMsg {tg : Target} {all : Prop} {bytes : List UInt8}
    {queued : List (List UInt8)} {s t : PoolState β γ} {msg : Msg β} {conf : LstnrConfig}
    {env : PrintEnv γ} (h : ConsoleInv tg all bytes queued s) (hrun : s.asserted = false)
    (hlegible : Legible tg s (.printMsg conf env : PoolEvent β γ))
    (hprinted : all → (PoolEvent.printMsg conf env : PoolEvent β γ).printed = true)
    (hom : s.om = some msg) (hm : s.m = none) (hprint : printStep tg s msg conf env = some t) :
    ConsoleInv tg all (bytes ++ consoleOf tg s (.printMsg conf env : PoolEvent β γ))
      (queued ++ []) t := by
  obtain ⟨lines, shown, finished, waiting, part, hinv, hall⟩ := h
  obtain ⟨rfl, hwaiting⟩ := hinv.running hrun
  rw [PoolState.unprinted, hm, hom] at hwaiting
  obtain ⟨frame, rest, hholds, hrest, rfl⟩ := List.forall₂_cons_left_iff.mp hwaiting
  rw [List.append_nil]
  rcases printStep_eq_some hprint with
    ⟨hhdr, rfl⟩ | ⟨block, held, sysHeld, m, ok, hhdr, -, hpieces, rfl⟩
  · -- no chain for the line: the record goes without one
    have hconsole : consoleOf tg s (.printMsg conf env : PoolEvent β γ) = [] := by
      rw [consoleOf, hhdr]
      rfl
    rw [hconsole, List.append_nil]
    refine ⟨lines, shown, finished ++ [frame], rest, [], hinv.pass (fun _ ↦ hm) ?_, fun hp ↦ ?_⟩
    · show List.Forall₂ Holds ((if s.m.isSome then [] else []) ++ s.rxpktQ) rest
      rwa [hm]
    · have hp := hprinted hp
      rw [PoolEvent.printed, hhdr] at hp
      cases hp
  have hconsole : consoleOf tg s (.printMsg conf env : PoolEvent β γ) =
      consoleLine tg conf msg s.scratch env.appends := by
    rw [consoleOf, hhdr, hom]
    simp
  have hok := (printAll_eq_some hpieces).1
  rw [hconsole, consoleLine, ← hok]
  cases ok with
  | false =>
    -- what is there of the line is the last of the run
    have hclean : delim ∉ writtenPieces (reportPieces tg.undef
        (reportOf tg.b tg.dr tg.n conf msg s.scratch).1) env.appends := by
      intro hmem
      have hline := (prefix_writtenPieces _ env.appends).subset hmem
      rw [join_reportPieces] at hline
      exact notMem_bytesOf_reportText _ _ hline
    refine ⟨lines, shown, finished, frame :: rest, _, ⟨hinv.cut.begin ?_, hinv.queued, hinv.isLine,
      hinv.sublist, fun hnone ↦ ?_, fun hrun' ↦ by cases hrun'⟩, hall⟩
    · split
      · exact List.not_mem_nil
      · simpa using hclean
    · cases hom.symm.trans hnone
  | true =>
    rw [writtenPieces_eq (length_of_printAll hpieces) hok.symm, join_reportPieces]
    cases hbit : notToConsoleBit conf.verbose with
    | true =>
      -- the line goes to the socket only
      rw [if_pos rfl, List.append_nil]
      refine ⟨lines, shown, finished ++ [frame], rest, [],
        hinv.pass (fun hnone ↦ ?_) hrest, fun hp ↦ ?_⟩
      · cases hom.symm.trans hnone
      · have hp := hprinted hp
        rw [PoolEvent.printed, hbit, hhdr] at hp
        cases hp
    | false =>
      rw [if_neg Bool.false_ne_true, if_pos rfl]
      have hline := isLine_of_holds (hlegible msg hom) hholds
      refine ⟨lines ++ [_], shown ++ [ConsoleLine.report frame], finished ++ [frame], rest, [],
        hinv.line hline (notMem_bytesOf_reportText _ _) (fun hnone ↦ ?_) hrest, fun hp ↦ ?_⟩
      · cases hom.symm.trans hnone
      · rw [filterMap_frame?_snoc, hall hp]

omit [DecidableEq β] in
theorem rxpktQ_dropLine (tg : Target) (s : PoolState β γ) (m : Mbuf γ) (rc : ℤ) :
    (dropLine tg s m rc).rxpktQ = s.rxpktQ := by
  rw [dropLine]
  split <;> rfl

omit [DecidableEq β] [DecidableEq γ] in
/-- The line of a failed `mn_sendto` is no report, and stands on its own. -/
theorem ConsoleInv.sendto {tg : Target} {all : Prop} {bytes : List UInt8}
    {queued : List (List UInt8)} {s : PoolState β γ} (h : ConsoleInv tg all bytes queued s)
    (hrun : s.asserted = false) {rc : ℤ} (heth : tg.eth = true) (hrc : rc ≠ 0) :
    ConsoleInv tg all (bytes ++ (bytesOf (sendtoText rc) ++ bytesOf "\n")) queued s := by
  obtain ⟨lines, shown, finished, waiting, part, hinv, hall⟩ := h
  obtain ⟨rfl, hwaiting⟩ := hinv.running hrun
  have hclean : delim ∉ bytesOf (sendtoText rc) :=
    Ascii.notMem_encode (clean_sendtoText rc) (by decide)
  have hshown : (shown ++ [ConsoleLine.sendto rc]).filterMap ConsoleLine.frame? =
      shown.filterMap ConsoleLine.frame? := by
    rw [List.filterMap_append]
    exact List.append_nil _
  refine ⟨lines ++ [_], shown ++ [ConsoleLine.sendto rc], finished, waiting, [],
    ⟨hinv.cut.snoc hclean, hinv.queued, List.rel_append hinv.isLine (.cons ⟨heth, hrc, rfl⟩ .nil),
      ?_, hinv.idle, fun _ ↦ ⟨rfl, hwaiting⟩⟩, fun hp ↦ by rw [hshown, hall hp]⟩
  rw [hshown]
  exact hinv.sublist

/-- **What one step does**, with `all` only if it prints. -/
theorem consoleInv_step {tg : Target} {all : Prop} {bytes : List UInt8}
    {queued : List (List UInt8)} {s t : PoolState β γ} {ev : PoolEvent β γ}
    (h : ConsoleInv tg all bytes queued s) (hlegible : Legible tg s ev)
    (hprinted : all → ev.printed = true) (hstep : poolStep tg s ev = some t) :
    ConsoleInv tg all (bytes ++ consoleOf tg s ev) (queued ++ queuedFrame tg s ev) t := by
  have hrun := running_of_poolStep hstep
  have hidle : s.om = none → s.m = none := by
    obtain ⟨_, _, _, _, _, hinv, -⟩ := h
    exact hinv.idle
  rcases poolCase_of_eq hstep with hrx | ⟨hom, hq⟩ | ⟨hom, hm, hprint⟩ | ⟨hom, hm⟩ | _
  · exact consoleInv_rx h hrun hlegible hrx
  · refine h.silent hrun (fun _ ↦ ?_) fun hnone ↦ by cases hnone
    rw [PoolState.unprinted, PoolState.unprinted, hidle hom, hom, hq]
    rfl
  · exact consoleInv_printMsg h hrun hlegible hprinted hom hm hprint
  · next msg m rc =>
    have hdone := h.silent hrun (t := endMsg (dropLine tg s m rc) msg) (fun _ ↦ ?_)
      fun _ ↦ m_dropLine tg s m rc
    · rw [consoleOf]
      split
      · next hfailed =>
        obtain ⟨heth, hrc⟩ := Bool.and_eq_true_iff.mp hfailed
        have hrunning : (endMsg (dropLine tg s m rc) msg).asserted = false := by
          rw [endMsg, dropLine]
          split <;> exact hrun
        rw [List.append_nil] at hdone
        exact hdone.sendto hrunning heth (bne_iff_ne.mp hrc)
      · exact hdone
    · have hnone := m_dropLine tg s m rc
      have hq := rxpktQ_dropLine tg s m rc
      rw [PoolState.unprinted, PoolState.unprinted, hm, endMsg, hnone, hq]
      rfl
  · exact h.silent hrun (fun _ ↦ rfl) hidle

/-- **Every run** keeps the stream and the queue in step. -/
theorem consoleInv_of_run {tg : Target} {es : List (PoolEvent β γ)} {t : PoolState β γ}
    (hrun : run (poolStep tg) PoolState.init es = some t)
    (hlegible : Each (poolStep tg) (Legible tg) PoolState.init es) :
    ConsoleInv tg (∀ ev ∈ es, ev.printed = true)
      (gather (poolStep tg) (consoleOf tg) PoolState.init es)
      (gather (poolStep tg) (queuedFrame tg) PoolState.init es) t := by
  have hstep : Each (poolStep tg) (fun s ev ↦ Legible tg s ev ∧
      ((∀ ev ∈ es, ev.printed = true) → ev.printed = true)) PoolState.init es := by
    refine each_of_splits fun pre ev post s hsplit hpre ↦
      ⟨(hsplit ▸ hlegible).at hpre, fun hall ↦ hall ev ?_⟩
    rw [hsplit]
    exact List.mem_append_right pre List.mem_cons_self
  have hinit : ConsoleInv tg (∀ ev ∈ es, ev.printed = true) [] []
      (PoolState.init : PoolState β γ) :=
    ⟨[], [], [], [], [], ⟨Lines.isCut_lines delim [], rfl, .nil, List.Sublist.refl _, fun _ ↦ rfl,
      fun _ ↦ ⟨rfl, .nil⟩⟩, fun _ ↦ rfl⟩
  exact hstep.gather_invariant (fun _ _ _ _ _ h hc hs ↦ consoleInv_step h hc.1 hc.2 hs) hinit hrun

omit [DecidableEq β] [DecidableEq γ] in
/-- What is read of the stream. -/
theorem ConsoleInv.shown {tg : Target} {all : Prop} {stream : List UInt8}
    {queued : List (List UInt8)} {t : PoolState β γ} (h : ConsoleInv tg all stream queued t)
    {chunks : List (List UInt8)} (hchunks : ∀ c ∈ chunks, c ≠ [])
    (hstream : chunks.flatten = stream) :
    ∃ (shown : List ConsoleLine) (waiting : List (List UInt8)),
      List.Forall₂ (IsLine tg) (readlinesSocket (chunks ++ [[]])).yielded shown ∧
      (shown.filterMap ConsoleLine.frame?).Sublist queued ∧
      (all → queued = shown.filterMap ConsoleLine.frame? ++ waiting) ∧
      (t.asserted = false → waiting.length = t.unprinted.length) := by
  obtain ⟨lines, shown, finished, waiting, part, hinv, hall⟩ := h
  obtain ⟨hcut, hqueued, hlines, hsublist, -, hrunning⟩ := hinv
  rw [← hstream] at hcut
  refine ⟨shown, waiting, ?_, ?_, fun hp ↦ ?_, fun hrunt ↦ ?_⟩
  · rw [readlinesSocket_eq, heard_closed hchunks, ← (Lines.isCut_iff.mp hcut).1]
    exact hlines
  · rw [hqueued]
    exact hsublist.trans (List.sublist_append_left _ _)
  · rw [hqueued, hall hp]
  · exact (hrunning hrunt).2.length_eq.symm

/-- The line of a frame of one byte, in two reads. -/
def sampleReads : List (List UInt8) :=
  [bytesOf "\x7b\"utime\":0,\"ts\":[0],\"pd\":[0.0",
    bytesOf "00],\"dlen\":1,\"d\":\"00\"\x7d\n"]

/-- What has to happen for it. -/
def sampleEvents : List (PoolEvent ℕ ℕ) :=
  [sampleFrame true true, .getMsg,
    .printMsg ⟨1, 0⟩ ⟨some 7, List.replicate 11 ⟨[], true⟩⟩, .finishMsg 0]

theorem legible_sampleEvents {ev : PoolEvent ℕ ℕ} (hev : ev ∈ sampleEvents) (s : PoolState ℕ ℕ) :
    Legible sampleTarget s ev := by
  simp only [sampleEvents, List.mem_cons, List.not_mem_nil, or_false] at hev
  rcases hev with rfl | rfl | rfl | rfl
  · rintro dev dev₀ hdev hdev₀
    cases hdev
    cases hdev₀
    exact ⟨by decide, by decide +kernel⟩
  · trivial
  · refine fun msg _ ↦ ⟨fun _ ↦ le_rfl, fun _ _ _ ↦ Or.inr ⟨0, rfl, by norm_num⟩,
      fun j hj ↦ absurd hj (Nat.not_lt_zero j), fun _ hbit ↦ ?_, fun _ hbit ↦ ?_⟩
    all_goals exact absurd hbit (by decide)
  · trivial

theorem each_sampleEvents :
    Each (poolStep sampleTarget) (Legible sampleTarget) PoolState.init sampleEvents :=
  each_of_splits fun _ _ _ _ hsplit _ ↦ legible_sampleEvents (by simp [hsplit]) _

theorem sampleReads_eq : sampleReads.flatten =
    gather (poolStep sampleTarget) (consoleOf sampleTarget) PoolState.init sampleEvents := by
  decide +kernel

theorem queued_sampleEvents : gather (poolStep sampleTarget) (queuedFrame sampleTarget)
    PoolState.init sampleEvents = [[0]] := by
  decide +kernel

end Console

end UwbApps.Listener
