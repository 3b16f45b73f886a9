import UwbApps.Listener.Report

/-!
# Capturing a frame from several receivers

`rxCompleteCbSpi` is `rx_complete_cb` of the listener in a build with `PDOA_SPI_NUM_INSTANCES`.
The other receivers are read over SPI: what `hal_bsp_get_pdoa_cir_data` has of each of them goes
into the arrays of the header, and only the payload and the impulse responses into the chain.

`Queued` joins the two builds: a message is queued if one of the two callbacks queues it.
-/

set_option autoImplicit false

open Octets

namespace UwbApps.Listener

open Os

/-- `struct pdoa_cir_data`. -/
structure PdoaCirData where
  rxdiag : Mem
  ts : BitVec 64
  rxbufCrc16 : BitVec 16
  rxLength : BitVec 16
  cir : Mem

/-- The members of `struct cir_instance` that tell where the leading edge is. -/
structure LeadingEdge where
  fpIdx : Mem → CFloat
  /-- `raw_ts_diff`, the difference of two `raw_ts` over 64 as an `int`. -/
  rawTsDiff : Mem → Mem → BitVec 32

/-- The variables of the listener that this build of the callback uses. -/
structure SpiState (β : Type*) where
  held : Finset β
  rxpktQ : List (Msg β)
  accSamplesToLoad : ℕ

/-! ## The phase differences -/

/-- `nanf("")`. -/
def nanf : BitVec 32 := 0x7fc00000

/-- `fabsf(fp_diff) > 1.0`. -/
def edgesApart (e : LeadingEdge) (cir₀ cir : Mem) : Bool :=
  let fpDiff := ((e.fpIdx cir).round.sub (e.fpIdx cir₀).round).plus (e.rawTsDiff cir cir₀).toInt
  CFloat.lt (.val 1) fpDiff.fabs

/-- A round of the loop over the receivers, for `hdr->pd[j-1]`. -/
def pdOfSpi (b : Build) (e : LeadingEdge) (cir₀ : Mem) (pdata₀ pdata : PdoaCirData) : BitVec 32 :=
  if pdata₀.rxbufCrc16 ≠ pdata.rxbufCrc16 ∨ pdata₀.rxLength ≠ pdata.rxLength then nanf
  else if edgesApart e cir₀ pdata.cir then nanf
  else if b.cirValid cir₀ ∧ b.cirValid pdata.cir then b.cirGetPdoa cir₀ pdata.cir
  else 0

/-- `hdr->pd`.  Without `CIR_ENABLED` it is left as it was zeroed. -/
def pdsOfSpi (b : Build) (e : LeadingEdge) (cir₀ : Mem) : List PdoaCirData → List (BitVec 32)
  | [] => []
  | pdata₀ :: rest => rest.map fun pdata ↦ if b.cirEnabled then pdOfSpi b e cir₀ pdata₀ pdata else 0

/-! ## The message -/

section Message

variable (b : Build)

/-- The impulse responses that are loaded: that of the first device, and those read over SPI. -/
def cirsOfSpi (cir₀ : Mem) (pdata : List PdoaCirData) : List Mem :=
  match pdata with
  | [] => []
  | _ :: rest => cir₀ :: rest.map PdoaCirData.cir

/-- The loop over them, from `hdr->dlen + i*sizeof(*src)` on. -/
def memWritesFrom (dlen : ℕ) : ℕ → List Mem → List Write
  | _, [] => []
  | i, cir :: cirs =>
    ⟨dlen + i * b.sizeofCir, fetch cir b.sizeofCir⟩ :: memWritesFrom dlen (i + 1) cirs

def cirWritesSpi (accSamplesToLoad : ℕ) (cir₀ : Mem) (pdata : List PdoaCirData) (dev : UwbDev) :
    List Write :=
  if b.cirEnabled ∧ accSamplesToLoad ≠ 0 then
    memWritesFrom b dev.frameLen.toNat 0 (cirsOfSpi cir₀ pdata)
  else []

/-- The header, its arrays apart: `pd` is the first entry of the array. -/
def hdrOfSpi (e : LeadingEdge) (utime : BitVec 32) (cir₀ : Mem) (pdata : List PdoaCirData)
    (dev : UwbDev) : UwbMsgHdr where
  utime := utime
  dlen := dev.frameLen
  diagOffset := 0 + dev.frameLen
  cirOffset := if b.cirEnabled then 0 + dev.frameLen else 0
  carrierIntegrator := dev.carrierIntegrator
  ts := pdata.map PdoaCirData.ts
  pd := (pdsOfSpi b e cir₀ pdata).getD 0 0

def spiArraysOf (e : LeadingEdge) (cir₀ : Mem) (pdata : List PdoaCirData) : SpiArrays where
  diag := pdata.map PdoaCirData.rxdiag
  pd := pdsOfSpi b e cir₀ pdata

def messageOfSpi (accSamplesToLoad : ℕ) (cir₀ : Mem) (pdata : List PdoaCirData) (dev : UwbDev) :
    List UInt8 :=
  writeAll [] (⟨0, fetch dev.rxbuf dev.frameLen.toNat⟩ ::
    cirWritesSpi b accSamplesToLoad cir₀ pdata dev)

end Message

/-! ## The callback -/

variable {β : Type*} [DecidableEq β]

/-- From the allocation on. -/
def deliverSpi (b : Build) (e : LeadingEdge) (s : SpiState β) (cir₀ : Mem)
    (pdata : List PdoaCirData) (dev : UwbDev) (env : Env β) : Option (SpiState β × RxExit) :=
  (osMbufGetPkthdr s.held env.hdr).bind fun (held, om) ↦
    match om with
    | none => some ({ s with held }, .noMbuf)
    | some om =>
      (copyAll held om [⟨0, fetch dev.rxbuf dev.frameLen.toNat⟩] env.copies).bind
        fun (held, om, ok) ↦
          if !ok then some ({ s with held := BlockPool.free held om.blocks }, .copyFailed)
          else
            (copyAll held om (cirWritesSpi b s.accSamplesToLoad cir₀ pdata dev) env.cirCopies).bind
              fun (held, om, ok) ↦
                if !ok then none
                else if !env.put then some ({ s with held }, .putFailed)
                else
                  let msg := ⟨hdrOfSpi b e env.utime cir₀ pdata dev,
                    some (spiArraysOf b e cir₀ pdata), om⟩
                  some ({ s with held, rxpktQ := s.rxpktQ ++ [msg] }, .queued)

/-- `rx_complete_cb` for the device number `inst` of `devs`, with the data `pdata` of the
receivers. -/
def rxCompleteCbSpi (b : Build) (e : LeadingEdge) (s : SpiState β) (devs : List UwbDev)
    (pdata : List PdoaCirData) (inst : ℕ) (env : Env β) :
    Option (SpiState β × List Call × RxExit) :=
  devs[inst]?.bind fun dev ↦ devs.head?.bind fun dev₀ ↦
    if devs.length = 2 ∧ inst ≠ 1 then
      some (s, if dev.rxRestarted then [] else [.resetReenable], .notLast)
    else if differs devs then some (s, restart b devs.length, .differs)
    else
      (deliverSpi b e s dev₀.cir pdata dev env).map
        fun (s, exit) ↦ (s, restart b devs.length, exit)

/-- The message of this build, with the chain it is in. -/
def msgOfSpi (b : Build) (e : LeadingEdge) (utime : BitVec 32) (cir₀ : Mem)
    (pdata : List PdoaCirData) (dev : UwbDev) (om : Mbuf β) : Msg β :=
  ⟨hdrOfSpi b e utime cir₀ pdata dev, some (spiArraysOf b e cir₀ pdata), om⟩

theorem deliverSpi_eq (b : Build) (e : LeadingEdge) (s : SpiState β) (cir₀ : Mem)
    (pdata : List PdoaCirData) (dev : UwbDev) (env : Env β) :
    deliverSpi b e s cir₀ pdata dev env = (chainOf s.held
      [⟨0, fetch dev.rxbuf dev.frameLen.toNat⟩] (cirWritesSpi b s.accSamplesToLoad cir₀ pdata dev)
      env).map fun r ↦
        ({ s with
            held := r.1
            rxpktQ := s.rxpktQ ++ r.2.2.toList.map (msgOfSpi b e env.utime cir₀ pdata dev) },
          r.2.1) := by
  rw [deliverSpi, chainOf, Option.map_bind]
  refine congrArg _ (funext fun got ↦ ?_)
  obtain ⟨held, _ | om⟩ := got
  · simp
  · simp only [Function.comp_apply, Option.map_bind]
    refine congrArg _ (funext fun front ↦ ?_)
    obtain ⟨held, om, _ | _⟩ := front
    · simp
    · simp only [Bool.not_true, Bool.false_eq_true, if_false, Function.comp_apply, Option.map_bind]
      refine congrArg _ (funext fun cir ↦ ?_)
      obtain ⟨held, om, _ | _⟩ := cir <;> cases env.put <;> simp [msgOfSpi]

/-- What gets queued in this build. -/
theorem of_queued_spi {b : Build} {e : LeadingEdge} {s t : SpiState β} {devs : List UwbDev}
    {pdata : List PdoaCirData} {inst : ℕ} {env : Env β} {calls : List Call}
    (h : rxCompleteCbSpi b e s devs pdata inst env = some (t, calls, .queued)) :
    ∃ dev dev₀ om, devs[inst]? = some dev ∧ devs.head? = some dev₀ ∧
      t.rxpktQ = s.rxpktQ ++ [⟨hdrOfSpi b e env.utime dev₀.cir pdata dev,
        some (spiArraysOf b e dev₀.cir pdata), om⟩] ∧
      om.data = messageOfSpi b s.accSamplesToLoad dev₀.cir pdata dev := by
  obtain ⟨dev, hdev, h⟩ := Option.bind_eq_some_iff.mp h
  obtain ⟨dev₀, hdev₀, h⟩ := Option.bind_eq_some_iff.mp h
  split at h
  · cases h
  split at h
  · cases h
  rw [deliverSpi_eq, Option.map_map] at h
  obtain ⟨⟨held, exit, om⟩, hchain, heq⟩ := Option.map_eq_some_iff.mp h
  cases heq
  obtain ⟨om, rfl, hdata⟩ := data_of_chainOf hchain
  exact ⟨dev, dev₀, om, hdev, hdev₀, rfl, hdata⟩

/-- The impulse responses are written behind what is there. -/
theorem memWritesFrom_fit (b : Build) {dlen i len : ℕ} (cirs : List Mem)
    (h : dlen + i * b.sizeofCir ≤ len) : Fit len (memWritesFrom b dlen i cirs) := by
  induction cirs generalizing i len with
  | nil => trivial
  | cons cir cirs ih =>
    refine ⟨h, ih (le_max_of_le_right ?_)⟩
    rw [length_fetch, Nat.succ_mul, Nat.add_assoc]

/-- Behind nothing else they come one behind the other. -/
theorem writeAll_memWritesFrom (b : Build) {dlen i : ℕ} {bs : List UInt8} (cirs : List Mem)
    (h : bs.length = dlen + i * b.sizeofCir) : writeAll bs (memWritesFrom b dlen i cirs) =
      bs ++ (cirs.map fun cir ↦ fetch cir b.sizeofCir).flatten := by
  induction cirs generalizing i bs with
  | nil => exact (List.append_nil bs).symm
  | cons cir cirs ih =>
    rw [memWritesFrom, writeAll_cons, ← h, splice_length, ih (by
      rw [List.length_append, length_fetch, h, Nat.succ_mul, Nat.add_assoc]), List.map_cons,
      List.flatten_cons, List.append_assoc]

theorem cirWritesFrom_eq (b : Build) (dlen i : ℕ) (devs : List UwbDev) :
    cirWritesFrom b dlen i devs = memWritesFrom b dlen i (devs.map UwbDev.cir) := by
  induction devs generalizing i with
  | nil => rfl
  | cons d devs ih => exact congrArg (_ :: ·) (ih (i + 1))

/-- A frame the callback looks at can be queued. -/
theorem exists_queued_spi [Inhabited β] (b : Build) (e : LeadingEdge) {s : SpiState β}
    (hs : s.held = ∅) {devs : List UwbDev} {dev : UwbDev} {inst : ℕ} (pdata : List PdoaCirData)
    (hdev : devs[inst]? = some dev) (hlast : devs.length = 2 → inst = 1)
    (hsame : differs devs = false) :
    ∃ t env calls, rxCompleteCbSpi b e s devs pdata inst env = some (t, calls, .queued) := by
  obtain ⟨dev₀, hdev₀⟩ : ∃ d, devs.head? = some d := by
    rcases devs with _ | ⟨d, rest⟩
    · cases hdev
    · exact ⟨d, rfl⟩
  let front : List Write := [⟨0, fetch dev.rxbuf dev.frameLen.toNat⟩]
  have hfit : Fit (writeAll [] front).length
      (cirWritesSpi b s.accSamplesToLoad dev₀.cir pdata dev) := by
    rw [cirWritesSpi]
    split
    · exact memWritesFrom_fit b _ (by simp [front, splice])
    · trivial
  obtain ⟨env, held, om, hchain⟩ := @exists_chainOf β _ _ front _ ⟨le_refl 0, trivial⟩ hfit
  let t : SpiState β :=
    { s with
      held
      rxpktQ := s.rxpktQ ++ om.toList.map (msgOfSpi b e env.utime dev₀.cir pdata dev) }
  refine ⟨t, env, restart b devs.length, ?_⟩
  rw [rxCompleteCbSpi, hdev, Option.bind_some, hdev₀, Option.bind_some,
    if_neg fun h ↦ h.2 (hlast h.1), hsame, if_neg (by simp), deliverSpi_eq, hs, hchain]
  rfl

/-! ## Both builds -/

/-- `n_instances`. -/
def instances (devs : List UwbDev) (spi : Option (List PdoaCirData)) : ℕ :=
  spi.elim devs.length List.length

/-- The message is queued for a frame: by the callback of the build without, or with several
receivers over SPI. -/
inductive Queued (b : Build) (e : LeadingEdge) (devs : List UwbDev) :
    Option (List PdoaCirData) → Msg β → Prop
  | plain {s t : State β} {inst : ℕ} {env : Env β} {calls : List Call} {hdr : UwbMsgHdr}
    {om : Mbuf β} (h : rxCompleteCb b s devs inst env = some (t, calls, .queued))
    (hq : t.rxpktQ = s.rxpktQ ++ [(hdr, om)]) : Queued b e devs none ⟨hdr, none, om⟩
  | spi {s t : SpiState β} {pdata : List PdoaCirData} {inst : ℕ} {env : Env β}
    {calls : List Call} {msg : Msg β}
    (h : rxCompleteCbSpi b e s devs pdata inst env = some (t, calls, .queued))
    (hq : t.rxpktQ = s.rxpktQ ++ [msg]) : Queued b e devs (some pdata) msg

/-- Receivers with the same leading edge. -/
def sampleEdge : LeadingEdge where
  fpIdx _ := .val 0
  rawTsDiff _ _ := 0

end UwbApps.Listener
