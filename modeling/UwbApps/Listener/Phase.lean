import UwbApps.Listener.CaptureSpi

/-!
# The phase differences of pairs

An entry of `pd` stands for the first receiver and another one.  It means something if it is what
`cir_get_pdoa` makes of two valid impulse responses of the same frame (`PdoaOfPair`), and JSON has
`null` for everything else.

The header is zeroed and a pair that is not measured keeps the zero, which is printed as a phase
difference; and with two devices nothing compares the lengths of their frames.  `pd_entry_iff` says
when an entry is right all the same.
-/

set_option autoImplicit false

open Octets Printf

namespace UwbApps.Listener

open Os
open Settings (LstnrConfig)

/-- The impulse responses of the receivers. -/
def cirsOf (devs : List UwbDev) : Option (List PdoaCirData) → List Mem
  | none => devs.map UwbDev.cir
  | some pdata => cirsOfSpi ((devs.map UwbDev.cir).headD fun _ ↦ 0) pdata

/-- The receivers `j` and `k` hold the same frame: by its length and contents, or its length and
CRC. -/
def SameFrame (devs : List UwbDev) (j k : ℕ) : Option (List PdoaCirData) → Prop
  | none => ∃ d e, devs[j]? = some d ∧ devs[k]? = some e ∧ d.frameLen = e.frameLen ∧
      fetch d.rxbuf d.frameLen.toNat = fetch e.rxbuf e.frameLen.toNat
  | some pdata => ∃ p q, pdata[j]? = some p ∧ pdata[k]? = some q ∧ p.rxLength = q.rxLength ∧
      p.rxbufCrc16 = q.rxbufCrc16

/-- The value is the phase difference of the first receiver and receiver `k`. -/
def PdoaOfPair (b : Build) (devs : List UwbDev) (spi : Option (List PdoaCirData)) (k : ℕ)
    (x : CFloat) : Prop :=
  b.cirEnabled = true ∧ SameFrame devs 0 k spi ∧
    ∃ c c', (cirsOf devs spi)[0]? = some c ∧ (cirsOf devs spi)[k]? = some c' ∧
      b.cirValid c = true ∧ b.cirValid c' = true ∧ x = .ofBits (b.cirGetPdoa c c')

/-- The entry for receiver `k` is right: the build measures phase differences, and with two devices
both impulse responses are valid and the frames as long (or what is measured is no number), while
over SPI the two are told apart or both impulse responses are valid. -/
def PairMeasured (b : Build) (e : LeadingEdge) (devs : List UwbDev) (k : ℕ) :
    Option (List PdoaCirData) → Prop
  | none => b.cirEnabled = true ∧ ∃ d d', devs[0]? = some d ∧ devs[k]? = some d' ∧
      b.cirValid d.cir = true ∧ b.cirValid d'.cir = true ∧
      (d.frameLen = d'.frameLen ∨ (CFloat.ofBits (b.cirGetPdoa d.cir d'.cir)).isNan = true)
  | some pdata => b.cirEnabled = true ∧ ∃ d p q, devs[0]? = some d ∧ pdata[0]? = some p ∧
      pdata[k]? = some q ∧ (p.rxbufCrc16 ≠ q.rxbufCrc16 ∨ p.rxLength ≠ q.rxLength ∨
        edgesApart e d.cir q.cir = true ∨ b.cirValid d.cir = true ∧ b.cirValid q.cir = true)

/-! ## What is printed as null -/

theorem phaseText_eq_null_iff {undef : CFloat → ℤ} {x : CFloat} :
    phaseText undef x = "null" ↔ x.isNan = true := by
  constructor
  · intro h
    by_contra hnan
    rw [phaseText, if_neg hnan] at h
    -- a number has a dot in it
    have hdot : '.' ∈ "null".toList := by
      rw [← h, String.toList_append, String.toList_append]
      exact List.mem_append_left _ (List.mem_append_right _ (by decide))
    revert hdot
    decide
  · exact fun h ↦ if_pos h

theorem isNan_ofBits_nanf : (CFloat.ofBits nanf).isNan = true := rfl

theorem not_isNan_ofBits_zero : ¬ (CFloat.ofBits 0).isNan = true := by decide

/-! ## Two devices -/

section Pair

variable {b : Build} {e : LeadingEdge}

theorem differs_of_queued {β : Type*} [DecidableEq β] {s t : State β} {devs : List UwbDev}
    {inst : ℕ} {env : Env β} {calls : List Call}
    (h : rxCompleteCb b s devs inst env = some (t, calls, .queued)) : differs devs = false := by
  obtain ⟨dev, hdev, h⟩ := Option.bind_eq_some_iff.mp h
  split at h
  · cases h
  split at h
  · cases h
  · next hdiffers => exact Bool.eq_false_iff.mpr hdiffers

theorem fetch_eq_of_not_differs {d d' : UwbDev} (h : differs [d, d'] = false) :
    fetch d.rxbuf d.frameLen.toNat = fetch d'.rxbuf d.frameLen.toNat := by
  simpa [differs] using h

/-- The only entry of two devices. -/
theorem pair_iff {d d' : UwbDev} (h : differs [d, d'] = false) {x : CFloat}
    (hx : x = .ofBits (pdOf b [d, d'])) :
    x.isNan = true ∨ PdoaOfPair b [d, d'] none 1 x ↔ PairMeasured b e [d, d'] 1 none := by
  have hfetch := fetch_eq_of_not_differs h
  by_cases hvalid : b.cirEnabled = true ∧ b.cirValid d.cir = true ∧ b.cirValid d'.cir = true
  · rw [pdOf, if_pos hvalid] at hx
    constructor
    · rintro (hnan | ⟨hcir, ⟨f, f', hf, hf', hlen, -⟩, -⟩)
      · exact ⟨hvalid.1, d, d', rfl, rfl, hvalid.2.1, hvalid.2.2, Or.inr (hx ▸ hnan)⟩
      · cases hf
        cases hf'
        exact ⟨hcir, d, d', rfl, rfl, hvalid.2.1, hvalid.2.2, Or.inl hlen⟩
    · rintro ⟨hcir, f, f', hf, hf', hv, hv', hlen | hnan⟩
      · cases hf
        cases hf'
        exact Or.inr ⟨hcir, ⟨d, d', rfl, rfl, hlen, hlen ▸ hfetch⟩, d.cir, d'.cir, rfl, rfl, hv,
          hv', hx⟩
      · cases hf
        cases hf'
        exact Or.inl (hx ▸ hnan)
  · -- the header keeps its zero
    rw [pdOf, if_neg hvalid] at hx
    constructor
    · rintro (hnan | ⟨hcir, -, c, c', hc, hc', hv, hv', -⟩)
      · exact absurd (hx ▸ hnan) not_isNan_ofBits_zero
      · cases hc
        cases hc'
        exact absurd ⟨hcir, hv, hv'⟩ hvalid
    · rintro ⟨hcir, f, f', hf, hf', hv, hv', -⟩
      cases hf
      cases hf'
      exact absurd ⟨hcir, hv, hv'⟩ hvalid

/-! ## Receivers over SPI -/

theorem getD_pdsOfSpi {cir₀ : Mem} {p q : PdoaCirData} {rest : List PdoaCirData} {j : ℕ}
    (hq : rest[j]? = some q) : (pdsOfSpi b e cir₀ (p :: rest)).getD j 0 =
      if b.cirEnabled then pdOfSpi b e cir₀ p q else 0 := by
  simp [pdsOfSpi, List.getD_eq_getElem?_getD, hq]

/-- The entry of the first receiver and another one. -/
theorem spiPair_iff {d : UwbDev} {devs : List UwbDev} {p q : PdoaCirData}
    {rest : List PdoaCirData} {j : ℕ} (hq : rest[j]? = some q) {x : CFloat}
    (hx : x = .ofBits ((pdsOfSpi b e d.cir (p :: rest)).getD j 0)) :
    x.isNan = true ∨ PdoaOfPair b (d :: devs) (some (p :: rest)) (j + 1) x ↔
      PairMeasured b e (d :: devs) (j + 1) (some (p :: rest)) := by
  rw [getD_pdsOfSpi hq] at hx
  have hcir' : (cirsOf (d :: devs) (some (p :: rest)))[j + 1]? = some q.cir := by
    simp [cirsOf, cirsOfSpi, hq]
  -- a genuine phase difference is of the two receivers' impulse responses
  have hpair : PdoaOfPair b (d :: devs) (some (p :: rest)) (j + 1) x ↔ b.cirEnabled = true ∧
      p.rxLength = q.rxLength ∧ p.rxbufCrc16 = q.rxbufCrc16 ∧ b.cirValid d.cir = true ∧
      b.cirValid q.cir = true ∧ x = .ofBits (b.cirGetPdoa d.cir q.cir) := by
    constructor
    · rintro ⟨hcir, ⟨p', q', hp', hq', hlen, hcrc⟩, c, c', hc, hc', hv, hv', hval⟩
      cases hp'
      cases hc
      obtain rfl := Option.some.inj (hq.symm.trans hq')
      obtain rfl := Option.some.inj (hcir'.symm.trans hc')
      exact ⟨hcir, hlen, hcrc, hv, hv', hval⟩
    · rintro ⟨hcir, hlen, hcrc, hv, hv', hval⟩
      exact ⟨hcir, ⟨p, q, rfl, hq, hlen, hcrc⟩, d.cir, q.cir, rfl, hcir', hv, hv', hval⟩
  have hmeasured : PairMeasured b e (d :: devs) (j + 1) (some (p :: rest)) ↔ b.cirEnabled = true ∧
      (p.rxbufCrc16 ≠ q.rxbufCrc16 ∨ p.rxLength ≠ q.rxLength ∨ edgesApart e d.cir q.cir = true ∨
        b.cirValid d.cir = true ∧ b.cirValid q.cir = true) := by
    constructor
    · rintro ⟨hcir, d', p', q', hd', hp', hq', h⟩
      cases hd'
      cases hp'
      obtain rfl := Option.some.inj (hq.symm.trans hq')
      exact ⟨hcir, h⟩
    · exact fun ⟨hcir, h⟩ ↦ ⟨hcir, d, p, q, rfl, rfl, hq, h⟩
  rw [hpair, hmeasured]
  by_cases hcir : b.cirEnabled = true
  · rw [if_pos hcir, pdOfSpi] at hx
    split at hx
    · next hne =>
      rw [hx]
      refine iff_of_true (Or.inl isNan_ofBits_nanf) ⟨hcir, ?_⟩
      exact hne.imp_right Or.inl
    · next hsame =>
      obtain ⟨hcrc, hlen⟩ := not_or.mp hsame
      split at hx
      · next hapart =>
        rw [hx]
        exact iff_of_true (Or.inl isNan_ofBits_nanf) ⟨hcir, Or.inr (Or.inr (Or.inl hapart))⟩
      · next hclose =>
        split at hx
        · next hvalid =>
          exact iff_of_true
            (Or.inr ⟨hcir, not_not.mp hlen, not_not.mp hcrc, hvalid.1, hvalid.2, hx⟩)
            ⟨hcir, Or.inr (Or.inr (Or.inr hvalid))⟩
        · next hvalid =>
          refine iff_of_false ?_ ?_
          · rintro (hnan | ⟨-, -, -, hv, hv', -⟩)
            · exact not_isNan_ofBits_zero (hx ▸ hnan)
            · exact hvalid ⟨hv, hv'⟩
          · rintro ⟨-, hne | hne | hapart | hboth⟩
            · exact hcrc hne
            · exact hlen hne
            · exact hclose hapart
            · exact hvalid hboth
  · rw [if_neg hcir] at hx
    refine iff_of_false ?_ fun h ↦ hcir h.1
    rintro (hnan | hboth)
    · exact not_isNan_ofBits_zero (hx ▸ hnan)
    · exact hcir hboth.1

end Pair

/-! ## What is printed -/

variable {β : Type*}

/-- The entries of `pd` are those of the header. -/
theorem getElem?_pd_reportOf {b : Build} {dr : Driver} {n : ℕ} {conf : LstnrConfig} {msg : Msg β}
    {s : Scratch} {j : ℕ} {x : CFloat} (h : (reportOf b dr n conf msg s).1.pd[j]? = some x) :
    j < n - 1 ∧ x = .ofBits ((pdArray msg).getD j 0) := by
  have hpd : (reportOf b dr n conf msg s).1.pd =
      (List.range (n - 1)).map fun j ↦ .ofBits ((pdArray msg).getD j 0) := rfl
  rw [hpd, List.getElem?_map, Option.map_eq_some_iff] at h
  obtain ⟨i, hi, rfl⟩ := h
  obtain ⟨hlt, heq⟩ := List.getElem?_eq_some_iff.mp hi
  rw [List.getElem_range] at heq
  rw [List.length_range] at hlt
  exact ⟨hlt, by rw [heq]⟩

/-- **What an entry of `pd` stands for.**  For every message that is queued, the entry printed for
the first receiver and another one is null or the phase difference of two valid impulse responses
of the same frame exactly when the pair is measured. -/
theorem pd_entry_iff [DecidableEq β] {b : Build} {e : LeadingEdge} {devs : List UwbDev}
    {spi : Option (List PdoaCirData)} {msg : Msg β} (h : Queued b e devs spi msg)
    (htwo : spi = none → devs.length = 2) (dr : Driver) (conf : LstnrConfig) (s : Scratch) {j : ℕ}
    {x : CFloat} (hx : (reportOf b dr (instances devs spi) conf msg s).1.pd[j]? = some x)
    (undef : CFloat → ℤ) :
    phaseText undef x = "null" ∨ PdoaOfPair b devs spi (j + 1) x ↔
      PairMeasured b e devs (j + 1) spi := by
  obtain ⟨hj, hvalue⟩ := getElem?_pd_reportOf hx
  rw [phaseText_eq_null_iff]
  cases h with
  | plain h hq =>
    obtain ⟨dev, om', hdev, hq', -⟩ := of_queued h
    obtain ⟨rfl, rfl⟩ := Prod.mk.inj (List.singleton_inj.mp
      (List.append_cancel_left (hq.symm.trans hq')))
    obtain ⟨d, d', rfl⟩ := List.length_eq_two.mp (htwo rfl)
    obtain rfl : j = 0 := by
      simp only [instances, Option.elim_none, List.length_cons, List.length_nil] at hj
      omega
    exact pair_iff (differs_of_queued h) hvalue
  | @spi s t pdata inst env calls msg h hq =>
    obtain ⟨dev, dev₀, om, hdev, hdev₀, hq', -⟩ := of_queued_spi h
    obtain rfl := List.singleton_inj.mp (List.append_cancel_left (hq.symm.trans hq'))
    obtain ⟨devs, rfl⟩ : ∃ rest, devs = dev₀ :: rest := by
      cases devs with
      | nil => cases hdev₀
      | cons d rest =>
        cases hdev₀
        exact ⟨rest, rfl⟩
    rcases pdata with _ | ⟨p, rest⟩
    · simp [instances] at hj
    · have hlt : j < rest.length := by
        simpa [instances] using hj
      exact spiPair_iff (List.getElem?_eq_getElem hlt) hvalue

/-- A build whose impulse responses are valid if they are not zero, and always one apart. -/
def phaseBuild : Build :=
  { sampleBuild true with
    cirValid := fun cir ↦ cir 0 ≠ 0
    cirGetPdoa := fun _ _ ↦ 0x3f800000 }

/-- A device with a frame of one byte and an impulse response that starts with `valid`. -/
def phaseDev (frameLen : BitVec 16) (valid : UInt8) : UwbDev :=
  { sampleDev frameLen [0, 0] with cir := load [valid] }

/-- A receiver over SPI with the same frame. -/
def phaseData (valid : UInt8) : PdoaCirData where
  rxdiag _ := 0
  ts := 0
  rxbufCrc16 := 0
  rxLength := 1
  cir := load [valid]

/-- Two devices with valid impulse responses, and two receivers over SPI. -/
theorem pd_entry_valid :
    (∃ (msg : Msg ℕ) (x : CFloat),
      Queued phaseBuild sampleEdge [phaseDev 1 1, phaseDev 1 1] none msg ∧
      (reportOf phaseBuild sampleDriver 2 ⟨0, 0⟩ msg Scratch.init).1.pd[0]? = some x ∧
      (phaseText (fun _ ↦ 0) x = "null" ∨
        PdoaOfPair phaseBuild [phaseDev 1 1, phaseDev 1 1] none 1 x)) ∧
    ∃ (msg : Msg ℕ) (x : CFloat),
      Queued phaseBuild sampleEdge [phaseDev 1 1] (some [phaseData 1, phaseData 1]) msg ∧
      (reportOf phaseBuild sampleDriver 2 ⟨0, 0⟩ msg Scratch.init).1.pd[0]? = some x ∧
      (phaseText (fun _ ↦ 0) x = "null" ∨
        PdoaOfPair phaseBuild [phaseDev 1 1] (some [phaseData 1, phaseData 1]) 1 x) := by
  constructor
  · have h : rxCompleteCb phaseBuild (⟨∅, [], fun _ ↦ 0, 0, false⟩ : State ℕ)
        [phaseDev 1 1, phaseDev 1 1] 1
        ⟨0, some 0, [⟨[], true⟩, ⟨[], true⟩, ⟨[], true⟩], [], true⟩ = some (_, _, .queued) := rfl
    have hq := Queued.plain (e := sampleEdge) h rfl
    refine ⟨_, _, hq, rfl, ?_⟩
    exact (pd_entry_iff hq (fun _ ↦ rfl) sampleDriver ⟨0, 0⟩ Scratch.init rfl _).mpr
      ⟨rfl, _, _, rfl, rfl, rfl, rfl, Or.inl rfl⟩
  · have h : rxCompleteCbSpi phaseBuild sampleEdge (⟨∅, [], 0⟩ : SpiState ℕ) [phaseDev 1 1]
        [phaseData 1, phaseData 1] 0 ⟨0, some 0, [⟨[], true⟩], [], true⟩ = some (_, _, .queued) :=
      rfl
    have hq := Queued.spi h rfl
    refine ⟨_, _, hq, rfl, ?_⟩
    exact (pd_entry_iff hq (fun h ↦ by cases h) sampleDriver ⟨0, 0⟩ Scratch.init rfl _).mpr
      ⟨rfl, _, _, _, rfl, rfl, rfl, Or.inr (Or.inr (Or.inr ⟨rfl, rfl⟩))⟩

/-- Two devices whose impulse responses are not valid get a phase difference of zero, and two whose
frames are not of one length get theirs. -/
theorem not_pdoaOfPair :
    (∃ (msg : Msg ℕ) (x : CFloat),
      Queued phaseBuild sampleEdge [phaseDev 1 0, phaseDev 1 0] none msg ∧
      (reportOf phaseBuild sampleDriver 2 ⟨0, 0⟩ msg Scratch.init).1.pd[0]? = some x ∧
      phaseText (fun _ ↦ 0) x = "0.000" ∧
      ¬ PdoaOfPair phaseBuild [phaseDev 1 0, phaseDev 1 0] none 1 x) ∧
    ∃ (msg : Msg ℕ) (x : CFloat),
      Queued phaseBuild sampleEdge [phaseDev 1 1, phaseDev 2 1] none msg ∧
      (reportOf phaseBuild sampleDriver 2 ⟨0, 0⟩ msg Scratch.init).1.pd[0]? = some x ∧
      phaseText (fun _ ↦ 0) x = "1.000" ∧
      ¬ PdoaOfPair phaseBuild [phaseDev 1 1, phaseDev 2 1] none 1 x := by
  constructor
  · have h : rxCompleteCb phaseBuild (⟨∅, [], fun _ ↦ 0, 0, false⟩ : State ℕ)
        [phaseDev 1 0, phaseDev 1 0] 1
        ⟨0, some 0, [⟨[], true⟩, ⟨[], true⟩, ⟨[], true⟩], [], true⟩ = some (_, _, .queued) := rfl
    refine ⟨_, _, Queued.plain (e := sampleEdge) h rfl, rfl, by decide +kernel, ?_⟩
    rintro ⟨-, -, c, c', hc, -, hv, -⟩
    cases hc
    exact absurd hv (by decide)
  · have h : rxCompleteCb phaseBuild (⟨∅, [], fun _ ↦ 0, 0, false⟩ : State ℕ)
        [phaseDev 1 1, phaseDev 2 1] 1
        ⟨0, some 0, [⟨[], true⟩, ⟨[], true⟩, ⟨[], true⟩], [], true⟩ = some (_, _, .queued) := rfl
    refine ⟨_, _, Queued.plain (e := sampleEdge) h rfl, rfl, by decide +kernel, ?_⟩
    rintro ⟨-, ⟨d, d', hd, hd', hlen, -⟩, -⟩
    cases hd
    cases hd'
    exact absurd hlen (by decide)

end UwbApps.Listener
