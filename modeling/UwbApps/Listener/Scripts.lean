import UwbApps.Lib.Numeral
import UwbApps.Listener.ReportJson

/-!
# The readers of a report

`calculatePdoa` and `calcAdjustedPd` are what `uwbtool.py` and `listener_pdoa.py` make of a line
once `json.loads` has read it: a phase difference from the impulse responses of two receivers.  Both
catch every exception on the way and return `None`, so that a member that is not there shows only in
there being no result.

They look for the impulse responses under the names `cir0` and `cir1`, as the README shows them.
`process_rx_data_queue` prints one list with the name `cir`.  `names_of_parse` says what names a
line has, and `not_understood` that no line is understood.
-/

set_option autoImplicit false

open Printf

namespace UwbApps.Listener

open Settings (LstnrConfig)
open Json (Named named_empty named_of_or_dead)

/-! ## Values -/

namespace Script

/-- What the scripts use of Python's numbers and of numpy.  Numbers that are no integers of a
subscript are all of one type. -/
structure Numpy where
  F : Type
  ofInt : ℤ → F
  /-- A number of a JSON text. -/
  ofNum : List Char → F
  /-- `float` of a string. -/
  ofStr : List Char → Option F
  half : F
  pi : F
  add : F → F → F
  sub : F → F → F
  mul : F → F → F
  /-- `%`. -/
  mod : F → F → F
  fmod : F → F → F
  arctan2 : F → F → F
  abs : F → F
  lt : F → F → Bool
  /-- `int(np.floor(x))`, which has no result for what is no number. -/
  floor : F → Option ℤ

/-- `v[name]`: a dictionary keeps the last value of a name. -/
def get (name : String) : Json → Option Json
  | .obj ms => (ms.reverse.find? fun m ↦ m.1 = name.toList).map Prod.snd
  | _ => none

/-- `len(v)`. -/
def len : Json → Option ℕ
  | .arr vs => some vs.length
  | .str text => some text.length
  | .obj ms => some (ms.map Prod.fst).dedup.length
  | _ => none

/-- `xs[i]`, from the end for an `i` below zero. -/
def subscript {α : Type} (xs : List α) (i : ℤ) : Option α :=
  if 0 ≤ i then xs[i.toNat]?
  else if -i ≤ xs.length then xs[(xs.length + i).toNat]?
  else none

/-- `v[i]`. -/
def item (i : ℤ) : Json → Option Json
  | .arr vs => subscript vs i
  | .str text => (subscript text i).map fun c ↦ .str [c]
  | _ => none

/-- A number to calculate with. -/
def number (np : Numpy) : Json → Option np.F
  | .num text => some (np.ofNum text)
  | .bool b => some (np.ofInt (if b then 1 else 0))
  | _ => none

/-- `float(v)`. -/
def float (np : Numpy) : Json → Option np.F
  | .str text => np.ofStr text
  | v => number np v

/-- An integer to subscript with. -/
def index : Json → Option ℤ
  | .num text => Decimal.readInt text
  | .bool b => some (if b then 1 else 0)
  | _ => none

/-! ## The scripts -/

section

variable (np : Numpy)

/-- A round of the loop of `calculate_pdoa`.  The magnitudes `m0` and `m1` are not used. -/
def pdoaAt (cir0 cir1 : Json) (i : ℕ) : Option np.F := do
  let real0 ← get "real" cir0 >>= item i >>= number np
  let imag0 ← get "imag" cir0 >>= item i >>= number np
  let real1 ← get "real" cir1 >>= item i >>= number np
  let imag1 ← get "imag" cir1 >>= item i >>= number np
  let a0 := np.sub (np.arctan2 imag0 real0) (← get "rcphase" cir0 >>= number np)
  let a1 := np.sub (np.arctan2 imag1 real1) (← get "rcphase" cir1 >>= number np)
  some (np.sub (np.mod (np.add (np.sub a0 a1) (np.mul (np.ofInt 3) np.pi))
    (np.mul (np.ofInt 2) np.pi)) np.pi)

/-- The body of the `try` of `calculate_pdoa`. -/
def pdoaList (d : Json) : Option (Json × List np.F) := do
  let cir0 ← get "cir0" d
  let cir1 ← get "cir1" d
  let n ← get "real" cir0 >>= len
  let pd ← (List.range n).mapM (pdoaAt np cir0 cir1)
  some (cir0, pd)

/-- `calculate_pdoa`: an exception, `None` or a number.  The last subscript is behind the `try`. -/
def calculatePdoa (d : Json) : Except Unit (Option np.F) :=
  match pdoaList np d with
  | none => .ok none
  | some (cir0, pd) =>
    match (get "o" cir0 >>= index).bind (subscript pd) with
    | none => .error ()
    | some x => .ok (some x)

/-- A value that the script calculates, or one of the line. -/
inductive Result
  | num (x : np.F)
  | json (v : Json)

/-- The sample at `8+i` of an impulse response, as an angle. -/
def angleAt (i : ℤ) (cir : Json) : Option np.F := do
  let accReal ← get "real" cir >>= item (8 + i) >>= float np
  let accImag ← get "imag" cir >>= item (8 + i) >>= float np
  some (np.arctan2 accImag accReal)

/-- `np.fmod(x + 3*np.pi, 2*np.pi) - np.pi`. -/
def wrap (x : np.F) : np.F :=
  np.sub (np.fmod (np.add x (np.mul (np.ofInt 3) np.pi)) (np.mul (np.ofInt 2) np.pi)) np.pi

/-- `calc_adjusted_pd` of `CirPlots`, with `None` for an exception. -/
def calcAdjustedPd (d : Json) : Option (Result np) := do
  let cir0 ← get "cir0" d
  let cir1 ← get "cir1" d
  let fpIdx0 ← get "fp_idx" cir0 >>= float np
  let fpIdx1 ← get "fp_idx" cir1 >>= float np
  if np.lt (np.abs (np.sub fpIdx0 fpIdx1)) np.half then
    (get "pd" d).map .json
  else
    let accIdx0 ← np.floor (np.add fpIdx0 np.half)
    let accIdx1 ← np.floor (np.add fpIdx1 np.half)
    if np.lt fpIdx0 fpIdx1 then
      let angle1 ← angleAt np (accIdx0 - accIdx1) cir1
      let rcphase1 ← get "rcphase" cir1 >>= float np
      let angle0 ← get "angle" cir0 >>= float np
      let rcphase0 ← get "rcphase" cir0 >>= float np
      some (.num (wrap np (np.sub (np.sub angle0 rcphase0) (np.sub angle1 rcphase1))))
    else
      let angle0 ← angleAt np (accIdx1 - accIdx0) cir0
      let rcphase0 ← get "rcphase" cir0 >>= float np
      let angle1 ← get "angle" cir1 >>= float np
      let rcphase1 ← get "rcphase" cir1 >>= float np
      some (.num (wrap np (np.sub (np.sub angle0 rcphase0) (np.sub angle1 rcphase1))))

/-- What the script returns is not `None`. -/
def Result.IsSome {np : Numpy} : Option (Result np) → Prop
  | none | some (.json .null) => False
  | some _ => True

/-- The line can be read, and both scripts find a phase difference in it. -/
def Understood (line : String) : Prop :=
  ∃ d, Json.parse line = some d ∧ (∃ x, calculatePdoa np d = .ok (some x)) ∧
    Result.IsSome (calcAdjustedPd np d)

end

theorem get_eq_none {ms : List (List Char × Json)} {name : String}
    (h : name.toList ∉ ms.map Prod.fst) : get name (.obj ms) = none := by
  rw [get, Option.map_eq_none_iff, List.find?_eq_none]
  intro m hm heq
  exact h (List.mem_map.mpr ⟨m, List.mem_reverse.mp hm, of_decide_eq_true heq⟩)

/-- Without an impulse response of the first receiver there is no result. -/
theorem results_of_get_eq_none (np : Numpy) {d : Json} (h : get "cir0" d = none) :
    calculatePdoa np d = .ok none ∧ calcAdjustedPd np d = none := by
  constructor
  · rw [calculatePdoa, pdoaList, h]
    rfl
  · rw [calcAdjustedPd, h]
    rfl

end Script

/-! ## The names of a line -/

section Names

variable (u : Undef) (r : Report)

/-- The names of the members of a line. -/
def Report.names : List String :=
  "utime" :: (["ts"] ++ ((r.rxDiag.elim [] fun _ ↦ ["rssi", "fppl"]) ++
    ((r.ccor.elim [] fun _ ↦ ["ccor"]) ++ (["pd"] ++ (["dlen", "d"] ++
      r.cir.elim [] fun _ ↦ ["cir"])))))

/-- A list in brackets, behind its name. -/
theorem named_list {α : Type} {text : Undef → α → String} {C : α → Prop} {P : Json → Prop}
    (before name : String) (xs : List α) (h : ∀ x, Json.ReadsWhen (C x) P fun u ↦ text u x)
    (hkey : IsKey ',' name [] before) :
    Named [name] (before ++ "[" ++ listText (text u) xs ++ "]") := by
  have harray := named_of_or_dead ((Json.readsWhen_array xs h).or_dead u) before name hkey
  simpa only [String.append_assoc] using harray

theorem named_ts (ts : List (BitVec 64)) : Named ["ts"] (tsText ts) := by
  have hdec := Json.readsWhen_dec (U := Undef) fun t : BitVec 64 ↦ (t.toNat : ℤ)
  have hlist := named_list (fun _ ↦ 0) ",\"ts\":" "ts" ts hdec (by decide)
  have htext : tsText ts = ",\"ts\":" ++ "[" ++ listText (fun t ↦ dec (t.toNat : ℤ)) ts ++ "]" := by
    rw [tsText]
    generalize listText (fun t : BitVec 64 ↦ dec (t.toNat : ℤ)) ts = x
    rfl
  rwa [htext]

theorem named_rxDiag (rxDiag : Option (List CFloat × List CFloat)) :
    Named (rxDiag.elim [] fun _ ↦ ["rssi", "fppl"]) (rxDiagText u rxDiag) := by
  rcases rxDiag with _ | ⟨rssi, fppl⟩
  · exact named_empty
  · have hrssi := named_list u ",\"rssi\":" "rssi" rssi readsWhen_signal (by decide)
    have hfppl := named_list u ",\"fppl\":" "fppl" fppl readsWhen_signal (by decide)
    have htext : rxDiagText u (some (rssi, fppl)) =
        ",\"rssi\":" ++ "[" ++ listText (signalText u) rssi ++ "]" ++
          (",\"fppl\":" ++ "[" ++ listText (signalText u) fppl ++ "]") := by
      show ",\"rssi\":" ++ "[" ++ listText (signalText u) rssi ++ ("]" ++ (",\"fppl\":" ++ "[")) ++
        listText (signalText u) fppl ++ "]" = _
      generalize listText (signalText u) rssi = r, listText (signalText u) fppl = f
      simp only [String.append_assoc]
    rw [htext]
    exact hrssi.append hfppl

theorem named_ccor (ccor : Option CFloat) :
    Named (ccor.elim [] fun _ ↦ ["ccor"]) (ccorPart u ccor) := by
  rcases ccor with _ | x
  · exact named_empty
  · exact named_of_or_dead ((readsWhen_ccor x).or_dead u) ",\"ccor\":" "ccor" (by decide)

theorem named_pd (pdoa : Option CFloat) (pd : List CFloat) :
    Named ["pd"] (pdText u pdoa pd) := by
  have hpd := named_of_or_dead ((readsWhen_pd pdoa pd).or_dead u) ",\"pd\":" "pd" (by decide)
  have htext : pdText u pdoa pd = ",\"pd\":" ++ ("[" ++ (listText (phaseText u) pdoa.toList ++
      listText (phaseText u) pd) ++ "]") := by
    show ",\"pd\":" ++ "[" ++ listText (phaseText u) pdoa.toList ++ listText (phaseText u) pd ++
      "]" = _
    generalize listText (phaseText u) pdoa.toList = x, listText (phaseText u) pd = y
    simp only [String.append_assoc]
  rwa [htext]

theorem named_payload (dlen : BitVec 16) (d : List UInt8) :
    Named ["dlen", "d"] (payloadText dlen d) := by
  obtain ⟨ms, ⟨v, w, rfl⟩, hms⟩ := (membersWhen_payload dlen d).members trivial fun _ ↦ 0
  exact Or.inl ⟨_, rfl, hms⟩

theorem named_cir (cir : Option (List CirReport)) :
    Named (cir.elim [] fun _ ↦ ["cir"]) (cirText u cir) := by
  rcases cir with _ | cirs
  · exact named_empty
  · exact named_list u ",\"cir\":" "cir" cirs readsWhen_cir (by decide)

/-- **The names of a line**, when it can be read. -/
theorem names_of_parse {v : Json} (h : Json.parse (reportText u r) = some v) :
    ∃ ms, v = .obj ms ∧ ms.map Prod.fst = r.names.map String.toList := by
  have hpieces := (named_ts r.ts).append ((named_rxDiag u r.rxDiag).append
    ((named_ccor u r.ccor).append ((named_pd u r.pdoa r.pd).append
      ((named_payload r.dlen r.d).append (named_cir u r.cir)))))
  rw [reportText_eq] at h
  exact hpieces.object "\x7b\"utime\":" "utime" (by decide) (val_dec r.utime.toNat) h

/-- There is none of a single receiver's impulse response. -/
theorem cir0_notMem_names : "cir0" ∉ r.names := by
  obtain ⟨utime, ts, rxDiag, ccor, pdoa, pd, dlen, d, cir⟩ := r
  cases rxDiag <;> cases ccor <;> cases cir <;> simp [Report.names]

end Names

open Script (Numpy Understood calculatePdoa calcAdjustedPd)

/-- What both scripts make of a line. -/
theorem results_of_parse (np : Numpy) {u : Undef} {r : Report} {d : Json}
    (h : Json.parse (reportText u r) = some d) :
    calculatePdoa np d = .ok none ∧ calcAdjustedPd np d = none := by
  obtain ⟨ms, rfl, hnames⟩ := names_of_parse u r h
  refine Script.results_of_get_eq_none np (Script.get_eq_none ?_)
  rw [hnames, List.mem_map]
  rintro ⟨name, hname, heq⟩
  exact cir0_notMem_names r (String.toList_inj.mp heq ▸ hname)

/-- **No line is understood.**  Whatever is printed for a message, both scripts return `None` for
it, if it can be read at all. -/
theorem not_understood {β : Type*} (np : Numpy) (undef : Undef) (b : Build) (dr : Driver) (n : ℕ)
    (conf : LstnrConfig) (msg : Msg β) (s : Scratch) :
    ∃ line, (processMsg undef b dr n conf true msg s).1 = some line ∧
      (∀ d, Json.parse line = some d →
        calculatePdoa np d = .ok none ∧ calcAdjustedPd np d = none) ∧ ¬ Understood np line := by
  have hresults : ∀ d, Json.parse (reportText undef (reportOf b dr n conf msg s).1) = some d →
      calculatePdoa np d = .ok none ∧ calcAdjustedPd np d = none := fun d hd ↦
    results_of_parse np hd
  refine ⟨_, congrArg Prod.fst (processMsg_eq undef), hresults, ?_⟩
  rintro ⟨d, hd, -, hsome⟩
  rw [(hresults d hd).2] at hsome
  exact hsome

/-- A line with the impulse responses of two receivers. -/
def twoCirs : String :=
  "\x7b\"utime\":0,\"ts\":[0,0],\"pd\":[0.000],\"dlen\":1,\"d\":\"00\",\"cir\":[" ++
    "\x7b\"o\":0,\"fp_idx\":0.000,\"rcphase\":0.000,\"angle\":0.000,\"rts\":0," ++
    "\"real\":[0],\"imag\":[0]\x7d," ++
    "\x7b\"o\":0,\"fp_idx\":0.000,\"rcphase\":0.000,\"angle\":0.000,\"rts\":0," ++
    "\"real\":[0],\"imag\":[0]\x7d]\x7d"

/-- The same impulse responses under the names that the README has for them. -/
def readmeCirs : String :=
  "\x7b\"pd\":[0.000],\"cir0\":\x7b\"o\":0,\"fp_idx\":0.000,\"rcphase\":0.000," ++
    "\"real\":[0],\"imag\":[0]\x7d,\"cir1\":\x7b\"o\":0,\"fp_idx\":0.000," ++
    "\"rcphase\":0.000,\"real\":[0],\"imag\":[0]\x7d\x7d"

/-- Numbers that are all zero. -/
def zeroNumpy : Numpy where
  F := ℤ
  ofInt i := i
  ofNum _ := 0
  ofStr _ := none
  half := 1
  pi := 3
  add := (· + ·)
  sub := (· - ·)
  mul := (· * ·)
  mod := (· % ·)
  fmod := (· % ·)
  arctan2 _ _ := 0
  abs x := |x|
  lt x y := decide (x < y)
  floor := some

example :
    ((Json.parse readmeCirs).map fun d ↦
        ((calculatePdoa zeroNumpy d).toOption.join.isSome, (calcAdjustedPd zeroNumpy d).isSome)) =
      some (true, true) := by
  decide +kernel

/-- Two receivers, with a sample of each and `VERBOSE_CIR`. -/
theorem not_understood_twoCirs :
    ∃ (t : State ℕ) (env : Env ℕ) (calls : List Call) (hdr : UwbMsgHdr) (om : Os.Mbuf ℕ),
      rxCompleteCb (sampleBuild true) ⟨∅, [], fun _ ↦ 0, 1, false⟩
        [sampleDev 1 [0, 0], sampleDev 1 [0, 0]] 1 env = some (t, calls, .queued) ∧
      t.rxpktQ = [(hdr, om)] ∧
      (processMsg (fun _ ↦ 0) (sampleBuild true) (probe false (fun _ ↦ .val 0) fun _ ↦ 0) 2 ⟨1, 4⟩
        true ⟨hdr, none, om⟩ Scratch.init).1 = some twoCirs ∧
      (Json.parse twoCirs).isSome = true ∧ ∀ np, ¬ Understood np twoCirs := by
  have hparse : (Json.parse twoCirs).map (fun d ↦ (Script.get "cir0" d).isNone) = some true := by
    decide +kernel
  obtain ⟨d, hd, hcir0⟩ := Option.map_eq_some_iff.mp hparse
  refine ⟨_, ⟨0, some 0, [⟨[], true⟩, ⟨[], true⟩, ⟨[], true⟩], [⟨[], true⟩, ⟨[], true⟩], true⟩,
    _, _, _, rfl, rfl, by decide +kernel, Option.isSome_iff_exists.mpr ⟨d, hd⟩, ?_⟩
  rintro np ⟨d', hd', -, hsome⟩
  obtain rfl : d' = d := Option.some.inj (hd'.symm.trans hd)
  rw [(Script.results_of_get_eq_none np (Option.isNone_iff_eq_none.mp hcir0)).2] at hsome
  exact hsome

end UwbApps.Listener
