import UwbApps.Lib.Printf
import UwbApps.Listener.Diag
import UwbApps.Listener.Settings

/-!
# The report of a message

`processMsg` is what `process_rx_data_queue` does with one message of its queue: it reads the
payload, the diagnostics and the impulse responses through static buffers (`Scratch`) and prints one
line.  `reportOf` is the reading, with the values that the driver computes from what was read, and
`reportText` the printing.

The model has both builds: the diagnostics and the phase differences are in the chain and in
`hdr->pd[0]`, or, with `PDOA_SPI_NUM_INSTANCES`, all in the header.  Floating-point values are
`CFloat`s, and `undef` says what a conversion gives that C leaves undefined.
-/

set_option autoImplicit false

open Octets Printf

namespace UwbApps.Listener

open Os
open Settings (LstnrConfig rxDiagBit)

/-! ## Texts -/

section Texts

variable (undef : CFloat → ℤ)

/-- `(int)x`. -/
def intOf (x : CFloat) : BitVec 32 := (exactArith undef).toInt x

/-- `scale*(x-(int)x)`. -/
def fracPart (scale : ℤ) (x : CFloat) : CFloat :=
  (exactArith undef).mul ((exactArith undef).ofInt scale) ((exactArith undef).frac x)

/-- A received signal strength, if it is one. -/
def signalText (x : CFloat) : String :=
  if CFloat.lt (.val (-200)) x && CFloat.lt x (.val 100) then
    dec (intOf undef x).toInt ++ "." ++ decPad 1 (absInt (intOf undef (fracPart undef 10 x)))
  else "null"

/-- A phase difference.  JSON has no NaN. -/
def phaseText (x : CFloat) : String :=
  if x.isNan then "null"
  else (if x.lt (.val 0) then "-" else "") ++ dec (absInt (intOf undef x)) ++ "." ++
    decPad 3 (absInt (intOf undef (fracPart undef 1000 x)))

/-- The clock offset ratio, in parts per million and thousandths of these. -/
def ccorText (ccor : CFloat) : String :=
  let ppm := intOf undef (ccor.mul (.val 1000000))
  let rest := ((ccor.sub ((CFloat.val ppm.toInt).div (.val 1000000))).fabs.mul (.val 1000000000))
  dec ppm.toInt ++ "." ++ decPad 3 (intOf undef rest.round).toInt ++ "e-6"

/-- `"%d.%03d"` of `(int)x` and `(int)fabsf(1000*(x-(int)x))`. -/
def angleText (x : CFloat) : String :=
  dec (intOf undef x).toInt ++ "." ++ decPad 3 (intOf undef (fracPart undef 1000 x).fabs).toInt

/-- The same without `fabsf`. -/
def fpIdxText (x : CFloat) : String :=
  dec (intOf undef x).toInt ++ "." ++ decPad 3 (intOf undef (fracPart undef 1000 x)).toInt

end Texts

/-! ## What is printed -/

/-- An impulse response as it is printed: the samples only if some are loaded. -/
structure CirReport where
  offset : ℤ
  fpIdx : CFloat
  rcphase : CFloat
  angle : CFloat
  rawTs : ℤ
  samples : Option (List ℤ × List ℤ)

/-- The values of one line. -/
@[ext]
structure Report where
  utime : BitVec 32
  ts : List (BitVec 64)
  /-- `rssi` and `fppl` of every instance, with `VERBOSE_RX_DIAG`. -/
  rxDiag : Option (List CFloat × List CFloat)
  ccor : Option CFloat
  /-- The phase difference of a single receiver, for a device that has it. -/
  pdoa : Option CFloat
  pd : List CFloat
  dlen : BitVec 16
  d : List UInt8
  cir : Option (List CirReport)

section ReportText

variable (undef : CFloat → ℤ)

def tsText (ts : List (BitVec 64)) : String :=
  ",\"ts\":[" ++ listText (fun t ↦ dec t.toNat) ts ++ "]"

def rxDiagText : Option (List CFloat × List CFloat) → String
  | none => ""
  | some (rssi, fppl) =>
    ",\"rssi\":[" ++ listText (signalText undef) rssi ++ "],\"fppl\":[" ++
      listText (signalText undef) fppl ++ "]"

def ccorPart : Option CFloat → String
  | none => ""
  | some ccor => ",\"ccor\":" ++ ccorText undef ccor

/-- The list `pd`: the separators are chosen by `j` alone, for the single receiver and, from
`j == 0` again, for the pairs. -/
def pdText (pdoa : Option CFloat) (pd : List CFloat) : String :=
  ",\"pd\":[" ++ listText (phaseText undef) pdoa.toList ++ listText (phaseText undef) pd ++ "]"

def payloadText (dlen : BitVec 16) (d : List UInt8) : String :=
  ",\"dlen\":" ++ dec dlen.toNat ++ ",\"d\":\"" ++
    String.join (d.map fun c ↦ padZero 2 (hex c.toNat)) ++ "\""

def samplesText : Option (List ℤ × List ℤ) → String
  | none => ""
  | some (real, imag) =>
    ",\"real\":[" ++ listText dec real ++ "],\"imag\":[" ++ listText dec imag ++ "]"

def cirObject (c : CirReport) : String :=
  "\x7b\"o\":" ++ dec c.offset ++ ",\"fp_idx\":" ++ fpIdxText undef c.fpIdx ++ ",\"rcphase\":" ++
    angleText undef c.rcphase ++ ",\"angle\":" ++ angleText undef c.angle ++ ",\"rts\":" ++
    dec c.rawTs ++ samplesText c.samples ++ "\x7d"

def cirText : Option (List CirReport) → String
  | none => ""
  | some cirs => ",\"cir\":[" ++ listText (cirObject undef) cirs ++ "]"

/-- The line, without its end. -/
def reportText (r : Report) : String :=
  "\x7b\"utime\":" ++ dec r.utime.toNat ++ tsText r.ts ++ rxDiagText undef r.rxDiag ++
    ccorPart undef r.ccor ++ pdText undef r.pdoa r.pd ++ payloadText r.dlen r.d ++
    cirText undef r.cir ++ "\x7d"

/-- The line, piece by piece. -/
theorem reportText_eq (r : Report) : reportText undef r =
    "\x7b\"utime\":" ++ dec r.utime.toNat ++ (tsText r.ts ++ (rxDiagText undef r.rxDiag ++
      (ccorPart undef r.ccor ++ (pdText undef r.pdoa r.pd ++ (payloadText r.dlen r.d ++
        cirText undef r.cir))))) ++ "\x7d" := by
  unfold reportText
  generalize dec r.utime.toNat = t, tsText r.ts = a, rxDiagText undef r.rxDiag = b,
    ccorPart undef r.ccor = c, pdText undef r.pdoa r.pd = d, payloadText r.dlen r.d = e,
    cirText undef r.cir = f
  simp only [String.append_assoc]

end ReportText

/-! ## What is read -/

/-- The members of `struct cir_dw1000_instance` or `struct cir_dw3000_instance` that are printed. -/
structure CirMembers where
  offset : Mem → ℤ
  fpIdx : Mem → CFloat
  rcphase : Mem → CFloat
  angle : Mem → CFloat
  rawTs : Mem → ℤ
  real : Mem → ℕ → ℤ
  imag : Mem → ℕ → ℤ

/-- What the driver of the first device computes. -/
structure Driver where
  uwbCalc : UwbCalc → Mem → CFloat
  /-- `uwb_calc_clock_offset_ratio` from a carrier integrator. -/
  calcClockOffsetRatio : BitVec 32 → CFloat
  cir : CirMembers
  /-- `capabilities.single_receiver_pdoa`. -/
  singleReceiverPdoa : Bool

/-- The arrays that the header has with `PDOA_SPI_NUM_INSTANCES`. -/
structure SpiArrays where
  diag : List Mem
  pd : List (BitVec 32)

/-- A message of the queue. -/
structure Msg (β : Type*) where
  hdr : UwbMsgHdr
  spi : Option SpiArrays
  om : Mbuf β

/-- The static buffers: `print_buffer`, `diag_buffer` and `tmp_cir`. -/
structure Scratch where
  printBuffer : Mem
  diagBuffer : Mem
  tmpCir : Mem

/-- The static buffers as the program starts. -/
def Scratch.init : Scratch := ⟨fun _ ↦ 0, fun _ ↦ 0, fun _ ↦ 0⟩

/-- The bits of `local_conf.verbose`. -/
def carrierIntegratorBit (verbose : UInt16) : Bool := verbose &&& 0x0001 ≠ 0

def cirBit (verbose : UInt16) : Bool := verbose &&& 0x0004 ≠ 0

section Reading

variable {β : Type*}

/-- The records for the calls of the driver: from the chain, or from the header. -/
def readCalls (b : Build) (msg : Msg β) (uses : List (UwbCalc × ℕ)) (diagBuffer : Mem) :
    List CalcCall × Mem :=
  match msg.spi with
  | none => callAll b.diag msg.hdr msg.om uses diagBuffer
  | some arrays =>
    (uses.map fun (fn, j) ↦ ⟨fn, j, arrays.diag.getD j fun _ ↦ 0⟩, diagBuffer)

/-- The impulse responses `js` of the message, each copied over the one before. -/
def readCirs (b : Build) (msg : Msg β) : List ℕ → Mem → List Mem × Mem
  | [], tmpCir => ([], tmpCir)
  | j :: js, tmpCir =>
    let cir := (osMbufCopydata msg.om (msg.hdr.dlen.toNat + j * b.sizeofCir) b.sizeofCir tmpCir).1
    let (cirs, tmpCir) := readCirs b msg js cir
    (cir :: cirs, tmpCir)

/-- The values that `fn` computes in the calls for it. -/
def valuesOf (dr : Driver) (fn : UwbCalc) (calls : List CalcCall) : List CFloat :=
  (calls.filter fun c ↦ c.fn = fn).map fun c ↦ dr.uwbCalc fn c.diag

def cirReportOf (dr : Driver) (accSamplesToLoad : UInt16) (cir : Mem) : CirReport where
  offset := dr.cir.offset cir
  fpIdx := dr.cir.fpIdx cir
  rcphase := dr.cir.rcphase cir
  angle := dr.cir.angle cir
  rawTs := dr.cir.rawTs cir
  samples :=
    if accSamplesToLoad = 0 then none
    else
      let is := List.range accSamplesToLoad.toNat
      some (is.map (dr.cir.real cir), is.map (dr.cir.imag cir))

/-- `hdr->pd`. -/
def pdArray (msg : Msg β) : List (BitVec 32) := msg.spi.elim [msg.hdr.pd] SpiArrays.pd

/-- The copy of the payload into `print_buffer`, and whether it succeeds. -/
def readPayload (msg : Msg β) (printBuffer : Mem) : Mem × Bool :=
  osMbufCopydata msg.om 0 (min msg.om.data.length 1024) printBuffer

/-- What is printed for a message with `n` instances, behind `printBuffer`. -/
def reportOf (b : Build) (dr : Driver) (n : ℕ) (conf : LstnrConfig) (msg : Msg β) (s : Scratch) :
    Report × Scratch :=
  let hdr := msg.hdr
  let printBuffer := (readPayload msg s.printBuffer).1
  let rxDiag := rxDiagBit conf.verbose
  let (calls, diagBuffer) :=
    readCalls b msg (calcs n rxDiag dr.singleReceiverPdoa) s.diagBuffer
  let withCir := b.cirEnabled && cirBit conf.verbose
  let (cirs, tmpCir) := if withCir then readCirs b msg (List.range n) s.tmpCir else ([], s.tmpCir)
  ({ utime := hdr.utime
     ts := (List.range n).map fun j ↦ hdr.ts.getD j 0
     rxDiag := if rxDiag then some (valuesOf dr .rssi calls, valuesOf dr .fppl calls) else none
     ccor :=
       if hdr.carrierIntegrator ≠ 0 ∧ carrierIntegratorBit conf.verbose then
         some (dr.calcClockOffsetRatio hdr.carrierIntegrator)
       else none
     pdoa := if dr.singleReceiverPdoa then (valuesOf dr .pdoa calls).head? else none
     pd := (List.range (n - 1)).map fun j ↦ .ofBits ((pdArray msg).getD j 0)
     dlen := hdr.dlen
     d := fetch printBuffer (min 1024 hdr.dlen.toNat)
     cir := if withCir then some (cirs.map (cirReportOf dr conf.accSamplesToLoad)) else none },
   ⟨printBuffer, diagBuffer, tmpCir⟩)

/-- A round of the loop of `process_rx_data_queue`, as far as its output goes.  `json` says whether
`os_msys_get_pkthdr` had a chain for the text.  `print_buffer` is cleared at the end. -/
def processMsg (undef : CFloat → ℤ) (b : Build) (dr : Driver) (n : ℕ) (conf : LstnrConfig)
    (json : Bool) (msg : Msg β) (s : Scratch) : Option String × Scratch :=
  if (readPayload msg s.printBuffer).2 ∧ json then
    let (report, s) := reportOf b dr n conf msg s
    (some (reportText undef report), { s with printBuffer := fun _ ↦ 0 })
  else (none, { s with printBuffer := fun _ ↦ 0 })

/-! ## How many values there are -/

/-- There is a call for every use, in order. -/
theorem map_readCalls (b : Build) (msg : Msg β) (uses : List (UwbCalc × ℕ)) (buf : Mem) :
    (readCalls b msg uses buf).1.map (fun c ↦ (c.fn, c.inst)) = uses := by
  rw [readCalls.eq_def]
  split
  · induction uses generalizing buf with
    | nil => rfl
    | cons use uses ih => exact congrArg (use :: ·) (ih _)
  · rw [List.map_map]
    exact List.map_id uses

/-- The calls of one function are those among the uses. -/
theorem length_valuesOf {dr : Driver} {fn : UwbCalc} {calls : List CalcCall}
    {uses : List (UwbCalc × ℕ)} (h : calls.map (fun c ↦ (c.fn, c.inst)) = uses) :
    (valuesOf dr fn calls).length = (uses.filter fun use ↦ use.1 = fn).length := by
  rw [valuesOf, List.length_map, ← h, List.filter_map, List.length_map]
  rfl

theorem length_filter_calcs (n : ℕ) (rxDiag pdoa : Bool) (fn : UwbCalc) :
    ((calcs n rxDiag pdoa).filter fun use ↦ use.1 = fn).length =
      if fn = .pdoa then (if pdoa then 1 else 0) else if rxDiag then n else 0 := by
  cases fn <;> cases rxDiag <;> cases pdoa <;> simp [calcs, List.filter_map, Function.comp_def]

variable {b : Build} {dr : Driver} {n : ℕ} {conf : LstnrConfig} {msg : Msg β} {s : Scratch}

theorem length_valuesOf_readCalls (fn : UwbCalc) :
    (valuesOf dr fn (readCalls b msg (calcs n (rxDiagBit conf.verbose) dr.singleReceiverPdoa)
      s.diagBuffer).1).length = if fn = .pdoa then (if dr.singleReceiverPdoa then 1 else 0)
        else if rxDiagBit conf.verbose then n else 0 := by
  rw [length_valuesOf (map_readCalls b msg _ _), length_filter_calcs]

theorem length_ts : (reportOf b dr n conf msg s).1.ts.length = n := by
  rw [reportOf, List.length_map, List.length_range]

theorem length_pd : (reportOf b dr n conf msg s).1.pd.length = n - 1 := by
  rw [reportOf, List.length_map, List.length_range]

/-- The calls for the message. -/
def callsOf (b : Build) (dr : Driver) (n : ℕ) (conf : LstnrConfig) (msg : Msg β) (s : Scratch) :
    List CalcCall :=
  (readCalls b msg (calcs n (rxDiagBit conf.verbose) dr.singleReceiverPdoa) s.diagBuffer).1

/-- With a chain for the text, a message is printed. -/
theorem processMsg_eq (undef : CFloat → ℤ) : processMsg undef b dr n conf true msg s =
    (some (reportText undef (reportOf b dr n conf msg s).1),
      { (reportOf b dr n conf msg s).2 with printBuffer := fun _ ↦ 0 }) := by
  have hcopy : (readPayload msg s.printBuffer).2 = true := by
    simp [readPayload, osMbufCopydata]
  rw [processMsg, if_pos ⟨hcopy, rfl⟩]

theorem rxDiag_reportOf : (reportOf b dr n conf msg s).1.rxDiag =
    if rxDiagBit conf.verbose then some (valuesOf dr .rssi (callsOf b dr n conf msg s),
      valuesOf dr .fppl (callsOf b dr n conf msg s)) else none :=
  rfl

theorem pdoa_reportOf : (reportOf b dr n conf msg s).1.pdoa =
    if dr.singleReceiverPdoa then (valuesOf dr .pdoa (callsOf b dr n conf msg s)).head? else none :=
  rfl

theorem ccor_reportOf : (reportOf b dr n conf msg s).1.ccor =
    if msg.hdr.carrierIntegrator ≠ 0 ∧ carrierIntegratorBit conf.verbose then
      some (dr.calcClockOffsetRatio msg.hdr.carrierIntegrator) else none :=
  rfl

theorem cir_reportOf : (reportOf b dr n conf msg s).1.cir =
    if b.cirEnabled && cirBit conf.verbose then some ((readCirs b msg (List.range n) s.tmpCir).1.map
      (cirReportOf dr conf.accSamplesToLoad)) else none := by
  cases hcir : b.cirEnabled && cirBit conf.verbose <;>
    simp only [reportOf, hcir, Bool.false_eq_true, if_false, if_true]

/-- With `VERBOSE_RX_DIAG` there is a strength and a first path power for every instance. -/
theorem exists_rxDiag_reportOf (h : rxDiagBit conf.verbose = true) :
    ∃ rssi fppl, (reportOf b dr n conf msg s).1.rxDiag = some (rssi, fppl) ∧
      rssi.length = n ∧ fppl.length = n := by
  refine ⟨_, _, rxDiag_reportOf.trans (if_pos h), ?_, ?_⟩
  · rw [callsOf, length_valuesOf_readCalls, if_neg (by decide), if_pos h]
  · rw [callsOf, length_valuesOf_readCalls, if_neg (by decide), if_pos h]

/-- A device with `single_receiver_pdoa` has a phase difference of its own. -/
theorem isSome_pdoa_reportOf :
    (reportOf b dr n conf msg s).1.pdoa.isSome = dr.singleReceiverPdoa := by
  have hlen := @length_valuesOf_readCalls _ b dr n conf msg s .pdoa
  rw [if_pos rfl, ← callsOf] at hlen
  rw [pdoa_reportOf]
  cases hpdoa : dr.singleReceiverPdoa with
  | false => rfl
  | true =>
    rw [hpdoa, if_pos rfl] at hlen
    rw [if_pos rfl, List.isSome_head?]
    exact List.ne_nil_of_length_pos (by omega)

end Reading

/-- A driver that tells the records apart by `f` and the impulse responses by `g`. -/
def probe (singleReceiverPdoa : Bool) (f : Mem → CFloat) (g : Mem → ℤ) : Driver where
  uwbCalc _ := f
  calcClockOffsetRatio _ := .val 0
  cir :=
    { offset := g
      fpIdx := fun _ ↦ .val 0
      rcphase := fun _ ↦ .val 0
      angle := fun _ ↦ .val 0
      rawTs := fun _ ↦ 0
      real := fun _ _ ↦ 0
      imag := fun _ _ ↦ 0 }
  singleReceiverPdoa := singleReceiverPdoa

/-- A driver with a phase difference of a single receiver, for which every number is zero. -/
def sampleDriver : Driver := probe true (fun _ ↦ .val 0) fun _ ↦ 0

end UwbApps.Listener
