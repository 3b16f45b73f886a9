import UwbApps.Lib.Run
import UwbApps.Listener.CaptureSpi

/-!
# What a line depends on

`process_rx_data_queue` reads every message through the same static buffers, and does not look at
what `os_mbuf_copydata` returns.  A copy brings the bytes that the chain has; behind them the buffer
keeps what was there.

The copies of the first record and of the first impulse response decide.  If they reach as far as
the driver reads (`Covered`), whatever a later copy lacks is of the same message, and
`text_after_congr` says that the line is the same after any two histories.
-/

set_option autoImplicit false

open Octets Printf

namespace UwbApps.Listener

open Os
open Settings (LstnrConfig rxDiagBit)

/-- What the driver reads: `N` bytes of a record of diagnostics, and of an impulse response its
`struct`. -/
structure Driver.ReadsUpTo (dr : Driver) (b : Build) (N : ℕ) : Prop where
  uwbCalc : ∀ fn m m', Agree N m m' → dr.uwbCalc fn m = dr.uwbCalc fn m'
  offset : ∀ m m', Agree b.sizeofCir m m' → dr.cir.offset m = dr.cir.offset m'
  fpIdx : ∀ m m', Agree b.sizeofCir m m' → dr.cir.fpIdx m = dr.cir.fpIdx m'
  rcphase : ∀ m m', Agree b.sizeofCir m m' → dr.cir.rcphase m = dr.cir.rcphase m'
  angle : ∀ m m', Agree b.sizeofCir m m' → dr.cir.angle m = dr.cir.angle m'
  rawTs : ∀ m m', Agree b.sizeofCir m m' → dr.cir.rawTs m = dr.cir.rawTs m'
  real : ∀ m m', Agree b.sizeofCir m m' → dr.cir.real m = dr.cir.real m'
  imag : ∀ m m', Agree b.sizeofCir m m' → dr.cir.imag m = dr.cir.imag m'

section Covered

variable {β : Type*} (b : Build) (singleReceiverPdoa : Bool) (N : ℕ) (conf : LstnrConfig)
  (msg : Msg β)

/-- The head of the first record, as far as the message has it. -/
def firstHead : Mem :=
  (osMbufCopydata msg.om (msg.hdr.dlen.toNat + msg.hdr.diagOffset.toNat) b.diag.size
    fun _ ↦ 0).1

/-- The first record is in the chain, and long enough for what the driver reads of it. -/
structure DiagCovered : Prop where
  inside : msg.hdr.dlen.toNat + msg.hdr.diagOffset.toNat + N ≤ msg.om.data.length
  length : N ≤ b.diag.size ∨ N ≤ (b.diag.rxdLen (firstHead b msg)).toNat

/-- The message has what is read of it: the first record, if any is read from the chain, and the
first impulse response, if they are printed. -/
structure Covered : Prop where
  diag : msg.spi = none → (rxDiagBit conf.verbose = true ∨ singleReceiverPdoa = true) →
    DiagCovered b N msg
  cir : b.cirEnabled = true → cirBit conf.verbose = true →
    msg.hdr.dlen.toNat + b.sizeofCir ≤ msg.om.data.length

end Covered

section Congr

variable {β : Type*} {b : Build} {dr : Driver} {N n : ℕ} {conf : LstnrConfig} {msg : Msg β}

/-! ## The diagnostics -/

section Calls

variable {L : RxdiagLayout} {hdr : UwbMsgHdr} {om : Mbuf β} {buf buf' : Mem}

/-- What agrees before a record is read does so behind. -/
theorem readDiag_congr (hN : L.size ≤ N) (h : Agree N buf buf') (j : ℕ) :
    Agree N (readDiag L hdr om j buf) (readDiag L hdr om j buf') := by
  have hhead := osMbufCopydata_congr om
    (hdr.dlen.toNat + hdr.diagOffset.toNat + j * L.maxlen) L.size h
  have hlen := L.rxdLen_congr _ _ (hhead.mono hN)
  rw [readDiag, readDiag, ← hlen]
  exact osMbufCopydata_congr om _ _ hhead

/-- The calls are the same, on records that the driver cannot tell apart. -/
theorem callAll_congr (hN : L.size ≤ N) {uses : List (UwbCalc × ℕ)} (h : Agree N buf buf') :
    List.Forall₂ (fun c c' : CalcCall ↦ c.fn = c'.fn ∧ Agree N c.diag c'.diag)
      (callAll L hdr om uses buf).1 (callAll L hdr om uses buf').1 := by
  induction uses generalizing buf buf' with
  | nil => exact List.Forall₂.nil
  | cons use uses ih =>
    have hread := @readDiag_congr β N L hdr om buf buf' hN h use.2
    exact List.Forall₂.cons ⟨rfl, hread⟩ (ih hread)

end Calls

/-- The first record of a message that has it makes any two buffers agree. -/
theorem readDiag_zero_congr (hN : b.diag.size ≤ N) (hcov : DiagCovered b N msg) (buf buf' : Mem) :
    Agree N (readDiag b.diag msg.hdr msg.om 0 buf) (readDiag b.diag msg.hdr msg.om 0 buf') := by
  let off := msg.hdr.dlen.toNat + msg.hdr.diagOffset.toNat
  have hinside : off + N ≤ msg.om.data.length := hcov.inside
  have hhead : ∀ buf buf' : Mem, Agree b.diag.size (osMbufCopydata msg.om off b.diag.size buf).1
      (osMbufCopydata msg.om off b.diag.size buf').1 := fun buf buf' ↦
    agree_osMbufCopydata le_rfl (by omega) buf buf'
  have hlen : ∀ buf : Mem, b.diag.rxdLen (osMbufCopydata msg.om off b.diag.size buf).1 =
      b.diag.rxdLen (firstHead b msg) := fun buf ↦ b.diag.rxdLen_congr _ _ (hhead buf _)
  simp only [readDiag, Nat.zero_mul, Nat.add_zero]
  rw [hlen, hlen]
  rcases hcov.length with hsize | hlong
  · exact osMbufCopydata_congr _ _ _ ((hhead buf buf').mono hsize)
  · exact agree_osMbufCopydata hlong hinside _ _

/-- The first call is for the first record. -/
theorem calcs_cases (n : ℕ) (hn : 0 < n) (verboseRxDiag pdoa : Bool) :
    calcs n verboseRxDiag pdoa = [] ∧ ¬ (verboseRxDiag = true ∨ pdoa = true) ∨
      ∃ fn uses, calcs n verboseRxDiag pdoa = (fn, 0) :: uses ∧
        (verboseRxDiag = true ∨ pdoa = true) := by
  obtain ⟨n, rfl⟩ := Nat.exists_eq_succ_of_ne_zero hn.ne'
  cases verboseRxDiag with
  | true =>
    have hfirst : ∃ uses, calcs (n + 1) true pdoa = (.rssi, 0) :: uses := by
      rw [calcs, if_pos rfl, List.range_succ_eq_map]
      exact ⟨_, rfl⟩
    obtain ⟨uses, heq⟩ := hfirst
    exact Or.inr ⟨.rssi, uses, heq, Or.inl rfl⟩
  | false =>
    cases pdoa with
    | true => exact Or.inr ⟨.pdoa, [], rfl, Or.inr rfl⟩
    | false => exact Or.inl ⟨rfl, by simp⟩

theorem valuesOf_congr (hreads : dr.ReadsUpTo b N) (fn : UwbCalc) {calls calls' : List CalcCall}
    (h : List.Forall₂ (fun c c' : CalcCall ↦ c.fn = c'.fn ∧ Agree N c.diag c'.diag) calls calls') :
    valuesOf dr fn calls = valuesOf dr fn calls' := by
  induction h with
  | nil => rfl
  | @cons c c' calls calls' hc _ ih =>
    obtain ⟨hfn, hagree⟩ := hc
    rw [valuesOf, valuesOf, List.filter_cons, List.filter_cons, ← hfn]
    split
    · exact congrArg₂ (· :: ·) (hreads.uwbCalc fn _ _ hagree) ih
    · exact ih

/-- What the driver computes for a message that has its first record does not depend on the
buffers. -/
theorem valuesOf_callsOf_congr (hn : 0 < n) (hN : b.diag.size ≤ N) (hreads : dr.ReadsUpTo b N)
    (hcov : msg.spi = none → (rxDiagBit conf.verbose = true ∨ dr.singleReceiverPdoa = true) →
      DiagCovered b N msg) (s s' : Scratch) (fn : UwbCalc) :
    valuesOf dr fn (callsOf b dr n conf msg s) = valuesOf dr fn (callsOf b dr n conf msg s') := by
  cases hspi : msg.spi with
  | some arrays => simp only [callsOf, readCalls, hspi]
  | none =>
    simp only [callsOf, readCalls, hspi]
    rcases calcs_cases n hn (rxDiagBit conf.verbose) dr.singleReceiverPdoa with
      ⟨hnil, -⟩ | ⟨first, uses, heq, hused⟩
    · rw [hnil]
      rfl
    · have hread := readDiag_zero_congr hN (hcov hspi hused) s.diagBuffer s'.diagBuffer
      rw [heq]
      exact valuesOf_congr hreads fn (List.Forall₂.cons ⟨rfl, hread⟩ (callAll_congr hN hread))

/-! ## The impulse responses -/

theorem cirReportOf_congr (hreads : dr.ReadsUpTo b N) (accSamplesToLoad : UInt16) {m m' : Mem}
    (h : Agree b.sizeofCir m m') :
    cirReportOf dr accSamplesToLoad m = cirReportOf dr accSamplesToLoad m' := by
  rw [cirReportOf, cirReportOf, hreads.offset _ _ h, hreads.fpIdx _ _ h, hreads.rcphase _ _ h,
    hreads.angle _ _ h, hreads.rawTs _ _ h, hreads.real _ _ h, hreads.imag _ _ h]

/-- Once `tmp_cir` is filled by the message, it stays so. -/
theorem readCirs_congr {js : List ℕ} {buf buf' : Mem} (h : Agree b.sizeofCir buf buf') :
    List.Forall₂ (Agree b.sizeofCir) (readCirs b msg js buf).1 (readCirs b msg js buf').1 := by
  induction js generalizing buf buf' with
  | nil => exact List.Forall₂.nil
  | cons j js ih =>
    have hcir := osMbufCopydata_congr msg.om (msg.hdr.dlen.toNat + j * b.sizeofCir) b.sizeofCir h
    exact List.Forall₂.cons hcir (ih hcir)

/-- The first impulse response fills it. -/
theorem readCirs_range_congr (hcov : msg.hdr.dlen.toNat + b.sizeofCir ≤ msg.om.data.length)
    (buf buf' : Mem) :
    List.Forall₂ (Agree b.sizeofCir) (readCirs b msg (List.range n) buf).1
      (readCirs b msg (List.range n) buf').1 := by
  cases n with
  | zero => exact List.Forall₂.nil
  | succ n =>
    have hcir := @agree_osMbufCopydata β msg.om (msg.hdr.dlen.toNat + 0 * b.sizeofCir) b.sizeofCir
      b.sizeofCir le_rfl (by omega) buf buf'
    rw [List.range_succ_eq_map]
    exact List.Forall₂.cons hcir (readCirs_congr hcir)

theorem map_cirReportOf_congr (hreads : dr.ReadsUpTo b N) {cirs cirs' : List Mem}
    (h : List.Forall₂ (Agree b.sizeofCir) cirs cirs') :
    cirs.map (cirReportOf dr conf.accSamplesToLoad) =
      cirs'.map (cirReportOf dr conf.accSamplesToLoad) := by
  induction h with
  | nil => rfl
  | cons hc _ ih => exact congrArg₂ (· :: ·) (cirReportOf_congr hreads _ hc) ih

/-! ## The line -/

/-- The report of a covered message does not depend on the buffers, but for `print_buffer`. -/
theorem reportOf_congr (hn : 0 < n) (hN : b.diag.size ≤ N) (hreads : dr.ReadsUpTo b N)
    (hcov : Covered b dr.singleReceiverPdoa N conf msg) {s s' : Scratch}
    (hprint : s.printBuffer = s'.printBuffer) :
    (reportOf b dr n conf msg s).1 = (reportOf b dr n conf msg s').1 := by
  have hvalues := @valuesOf_callsOf_congr β b dr N n conf msg hn hN hreads hcov.diag s s'
  refine Report.ext rfl rfl ?_ rfl ?_ rfl rfl ?_ ?_
  · rw [rxDiag_reportOf, rxDiag_reportOf, hvalues, hvalues]
  · rw [pdoa_reportOf, pdoa_reportOf, hvalues]
  · show fetch (readPayload msg s.printBuffer).1 _ = fetch (readPayload msg s'.printBuffer).1 _
    rw [hprint]
  · rw [cir_reportOf, cir_reportOf]
    split
    · next hboth =>
      obtain ⟨hb, hbit⟩ := Bool.and_eq_true_iff.mp hboth
      exact congrArg some (map_cirReportOf_congr hreads
        (readCirs_range_congr (hcov.cir hb hbit) s.tmpCir s'.tmpCir))
    · rfl

end Congr

/-! ## Histories -/

/-- A message that was printed before, under the configuration of its time. -/
structure Round (β : Type*) where
  conf : LstnrConfig
  json : Bool
  msg : Msg β

section Histories

variable {β : Type*} {undef : CFloat → ℤ} {b : Build} {dr : Driver} {n : ℕ}

/-- The buffers behind a round. -/
def processRound (undef : CFloat → ℤ) (b : Build) (dr : Driver) (n : ℕ) (s : Scratch)
    (r : Round β) : Option Scratch :=
  some (processMsg undef b dr n r.conf r.json r.msg s).2

theorem printBuffer_processRound {s t : Scratch} {r : Round β}
    (h : processRound undef b dr n s r = some t) : t.printBuffer = fun _ ↦ 0 := by
  obtain rfl := Option.some.inj h
  rw [processMsg]
  split <;> rfl

/-- `print_buffer` is clear after any history. -/
theorem printBuffer_run {s : Scratch} {h : List (Round β)}
    (hrun : Run.run (processRound undef b dr n) Scratch.init h = some s) :
    s.printBuffer = fun _ ↦ 0 :=
  Run.run_invariant (fun _ _ _ _ hstep ↦ printBuffer_processRound hstep) rfl hrun

/-- After any two histories the same text is printed for a covered message. -/
theorem text_after_congr {N : ℕ} (hn : 0 < n) (hN : b.diag.size ≤ N) (hreads : dr.ReadsUpTo b N)
    {conf : LstnrConfig} {msg : Msg β} (hcov : Covered b dr.singleReceiverPdoa N conf msg)
    {s s' : Scratch} {h h' : List (Round β)}
    (hrun : Run.run (processRound undef b dr n) Scratch.init h = some s)
    (hrun' : Run.run (processRound undef b dr n) Scratch.init h' = some s') (json : Bool) :
    (processMsg undef b dr n conf json msg s).1 = (processMsg undef b dr n conf json msg s').1 := by
  have hprint : s.printBuffer = s'.printBuffer :=
    (printBuffer_run hrun).trans (printBuffer_run hrun').symm
  have hreport := reportOf_congr hn hN hreads hcov hprint
  rw [processMsg, processMsg, hprint]
  split
  · exact congrArg (fun r ↦ some (reportText undef r)) hreport
  · rfl

end Histories

end UwbApps.Listener
