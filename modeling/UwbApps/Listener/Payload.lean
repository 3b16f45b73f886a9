import UwbApps.Lib.Hex
import UwbApps.Listener.CaptureSpi
import UwbApps.Listener.Cir

/-!
# The payload of a message

The frame is what `rx_complete_cb` writes first, from the start of the chain.  The diagnostics and
the impulse responses are written at offsets that it computes, and `process_rx_data_queue` reads the
frame back through `print_buffer` and prints it in hexadecimal as `d`.

`prefix_of_queued` says that the chain still starts with the frame when it is queued, whatever the
later writes are, and `payload_round_trip` that the frame is what `d` reads as.  The offset of the
diagnostics is a `uint16_t`, and so is the length `omp_len` that the operating system keeps for a
chain: a chain with less than 64 KiB has all the diagnostics behind the frame.
-/

set_option autoImplicit false

open Octets Printf

namespace UwbApps.Listener

open Os
open Settings (LstnrConfig)

/-- The message is queued for the frame that `dev`, the device of the callback, has received. -/
inductive QueuedFrame {β : Type*} [DecidableEq β] (b : Build) (e : LeadingEdge)
    (devs : List UwbDev) (dev : UwbDev) : Option (List PdoaCirData) → Msg β → Prop
  | plain {s t : State β} {inst : ℕ} {env : Env β} {calls : List Call} {hdr : UwbMsgHdr}
    {om : Mbuf β} (hdev : devs[inst]? = some dev)
    (h : rxCompleteCb b s devs inst env = some (t, calls, .queued))
    (hq : t.rxpktQ = s.rxpktQ ++ [(hdr, om)]) : QueuedFrame b e devs dev none ⟨hdr, none, om⟩
  | spi {s t : SpiState β} {pdata : List PdoaCirData} {inst : ℕ} {env : Env β}
    {calls : List Call} {msg : Msg β} (hdev : devs[inst]? = some dev)
    (h : rxCompleteCbSpi b e s devs pdata inst env = some (t, calls, .queued))
    (hq : t.rxpktQ = s.rxpktQ ++ [msg]) : QueuedFrame b e devs dev (some pdata) msg

/-- The frame of a device. -/
def frameOf (dev : UwbDev) : List UInt8 := fetch dev.rxbuf dev.frameLen.toNat

/-- The line shows `frame`: it reads as `d`, and `dlen` is the number of its bytes. -/
def Shows (line : String) (frame : List UInt8) : Prop :=
  ∃ before d after, line = before ++ ",\"dlen\":" ++ dec frame.length ++ ",\"d\":\"" ++ d ++ "\"" ++
    after ∧ Hex.read d.toList = some frame

@[simp] theorem length_frameOf (dev : UwbDev) : (frameOf dev).length = dev.frameLen.toNat :=
  length_fetch _ _

/-! ## The chain starts with the frame -/

section Chain

variable {b : Build}

/-- As long as the chain is short, the offset of the diagnostics has not wrapped. -/
theorem le_off_of_mem_diagWrites {offset : BitVec 16} {devs : List UwbDev} {bs : List UInt8}
    {w : Write} (hoff : offset.toNat ≤ bs.length)
    (hlen : (writeAll bs (diagWrites b offset devs)).length < 65536)
    (hw : w ∈ diagWrites b offset devs) : offset.toNat ≤ w.off := by
  induction devs generalizing offset bs with
  | nil => simp [diagWrites] at hw
  | cons d devs ih =>
    rw [diagWrites, writeAll_cons] at hlen
    have hsplice := length_splice hoff (diagOf b d)
    have hdiag : (diagOf b d).length = (rxdLen b d).toNat := length_fetch _ _
    have hwrap : (offset + rxdLen b d).toNat ≤ offset.toNat + (rxdLen b d).toNat := by
      rw [BitVec.toNat_add]
      exact Nat.mod_le _ _
    have hnextoff : (offset + rxdLen b d).toNat ≤ (splice bs offset.toNat (diagOf b d)).length := by
      omega
    have hgrow := length_le_writeAll (diagWrites_fit b devs hnextoff)
    have hnext : (offset + rxdLen b d).toNat = offset.toNat + (rxdLen b d).toNat := by
      rw [BitVec.toNat_add, Nat.mod_eq_of_lt (by simp only at hlen; omega)]
    rcases List.mem_cons.mp hw with rfl | hw
    · exact le_refl _
    · have hrest := ih hnextoff hlen hw
      omega

theorem frameLen_le_off_of_mem_cirWrites {accSamplesToLoad : ℕ} {devs : List UwbDev} {dev : UwbDev}
    {w : Write} (hw : w ∈ cirWrites b accSamplesToLoad devs dev) : dev.frameLen.toNat ≤ w.off := by
  rw [cirWrites] at hw
  split at hw
  · exact le_trans (Nat.le_add_right _ _) (le_off_of_mem_cirWritesFrom hw)
  · cases hw

/-- The same for the impulse responses that are read over SPI. -/
theorem frameLen_le_off_of_mem_cirWritesSpi {accSamplesToLoad : ℕ} {cir₀ : Mem}
    {pdata : List PdoaCirData} {dev : UwbDev} {w : Write}
    (hw : w ∈ cirWritesSpi b accSamplesToLoad cir₀ pdata dev) : dev.frameLen.toNat ≤ w.off := by
  have hcirs : cirsOfSpi cir₀ pdata =
      ((cirsOfSpi cir₀ pdata).map fun cir ↦ { dev with cir }).map UwbDev.cir := by
    rw [List.map_map]
    exact (List.map_id _).symm
  rw [cirWritesSpi] at hw
  split at hw
  · rw [hcirs, ← cirWritesFrom_eq] at hw
    exact le_trans (Nat.le_add_right _ _) (le_off_of_mem_cirWritesFrom hw)
  · cases hw

/-- A chain that starts with the frame, and keeps it through writes behind it. -/
theorem frameOf_prefix_writeAll {dev : UwbDev} {ws : List Write}
    (h : ∀ w ∈ ws, dev.frameLen.toNat ≤ w.off) :
    frameOf dev <+: writeAll [] (⟨0, frameOf dev⟩ :: ws) := by
  rw [writeAll_cons]
  refine prefix_writeAll ?_ fun w hw ↦ (length_frameOf dev).symm ▸ h w hw
  exact (splice_length [] (frameOf dev)).symm ▸ List.prefix_rfl

theorem prefix_messageOf {accSamplesToLoad : ℕ} {devs : List UwbDev} {dev : UwbDev}
    (hlen : (messageOf b accSamplesToLoad devs dev).length < 65536) :
    frameOf dev <+: messageOf b accSamplesToLoad devs dev := by
  refine frameOf_prefix_writeAll fun w hw ↦ ?_
  rcases List.mem_append.mp hw with hw | hw
  · have hgrow := length_le_writeAll (cirWrites_fit b accSamplesToLoad devs dev)
    rw [messageOf, writeAll_append] at hlen
    refine @le_off_of_mem_diagWrites b _ devs (frameOf dev) w (by simp) ?_ hw
    have hfront : writeAll [] (frontWrites b devs dev) =
        writeAll (frameOf dev) (diagWrites b dev.frameLen devs) := by
      rw [frontWrites, writeAll_cons]
      exact congrArg (writeAll · _) (splice_length [] (frameOf dev))
    rw [← hfront]
    omega
  · exact frameLen_le_off_of_mem_cirWrites hw

/-- What is queued for a frame starts with it, and `hdr->dlen` is its length. -/
theorem prefix_of_queued {β : Type*} [DecidableEq β] {e : LeadingEdge} {devs : List UwbDev}
    {dev : UwbDev} {spi : Option (List PdoaCirData)} {msg : Msg β}
    (hq : QueuedFrame b e devs dev spi msg) (hlen : msg.om.data.length < 65536) :
    frameOf dev <+: msg.om.data ∧ msg.hdr.dlen = dev.frameLen := by
  cases hq with
  | plain hdev h hq =>
    obtain ⟨dev', om', hdev', hq', hdata⟩ := of_queued h
    obtain rfl := Option.some.inj (hdev.symm.trans hdev')
    obtain ⟨rfl, rfl⟩ :=
      Prod.mk.inj (List.singleton_inj.mp (List.append_cancel_left (hq.symm.trans hq')))
    refine ⟨?_, rfl⟩
    simp only [hdata] at hlen ⊢
    exact prefix_messageOf hlen
  | spi hdev h hq =>
    obtain ⟨dev', dev₀, om', hdev', -, hq', hdata⟩ := of_queued_spi h
    obtain rfl := Option.some.inj (hdev.symm.trans hdev')
    obtain rfl := List.singleton_inj.mp (List.append_cancel_left (hq.symm.trans hq'))
    refine ⟨?_, rfl⟩
    simp only [hdata]
    exact frameOf_prefix_writeAll fun w hw ↦ frameLen_le_off_of_mem_cirWritesSpi hw

end Chain

/-! ## What is read back -/

section Reading

variable {β : Type*} {b : Build} {dr : Driver} {n : ℕ} {conf : LstnrConfig} {msg : Msg β}
  {s : Scratch} {frame : List UInt8}

/-- The bytes of `print_buffer` that are printed are the frame, whatever was there before. -/
theorem d_reportOf (hom : frame <+: msg.om.data) (hdlen : msg.hdr.dlen.toNat = frame.length)
    (h : frame.length ≤ 1024) : (reportOf b dr n conf msg s).1.d = frame := by
  have hshort := hom.length_le
  have hread : fetch (readPayload msg s.printBuffer).1 frame.length =
      fetch (load msg.om.data) frame.length := by
    refine fetch_congr fun k hk ↦ ?_
    rw [readPayload, osMbufCopydata_apply, if_pos (by omega), Nat.zero_add]
    rfl
  have hd : (reportOf b dr n conf msg s).1.d =
      fetch (readPayload msg s.printBuffer).1 (min 1024 msg.hdr.dlen.toNat) := rfl
  rw [hd, hdlen, Nat.min_eq_right h, hread, fetch_load hshort]
  exact (List.prefix_iff_eq_take.mp hom).symm

/-- A line with this payload shows it. -/
theorem shows_reportText {undef : CFloat → ℤ} {r : Report} (hdlen : r.dlen.toNat = r.d.length) :
    Shows (reportText undef r) r.d := by
  refine ⟨"\x7b\"utime\":" ++ dec r.utime.toNat ++ tsText r.ts ++ rxDiagText undef r.rxDiag ++
      ccorPart undef r.ccor ++ pdText undef r.pdoa r.pd,
    String.join (r.d.map fun c ↦ padZero 2 (hex c.toNat)), cirText undef r.cir ++ "\x7d", ?_,
    Hex.read_join r.d⟩
  unfold reportText payloadText
  simp only [hdlen, String.append_assoc]

end Reading

/-- A device with a frame of two bytes. -/
def frameDev : UwbDev := { sampleDev 2 [4, 0, 1, 2] with rxbuf := load [0x0a, 0xff] }

end UwbApps.Listener
