import UwbApps.Listener.History

/-!
# What a message leaves, and where it shows

The other half of `Listener.History`: a message that is not covered is printed differently after
different histories.  If the copies of its first record leave out a byte that the driver reads
(`exists_stale`), that byte is what the last message left, and one message that can be queued leaves
any value there (`exists_leaves_diag`).  The same holds of the first impulse response.

`historyFree_iff` puts both halves together.
-/

set_option autoImplicit false

open Octets Printf

namespace UwbApps.Listener

open Os
open Settings (LstnrConfig rxDiagBit)

/-! ## Bytes that no copy brings -/

section Stale

variable {β : Type*} {b : Build} {N : ℕ} {msg : Msg β}

/-- If the first record is not there, or too short, a byte that the driver reads stays. -/
theorem exists_stale (hN : b.diag.size ≤ N) (h : ¬ DiagCovered b N msg) :
    ∃ k < N, ∀ buf : Mem, readDiag b.diag msg.hdr msg.om 0 buf k = buf k := by
  have hpos := b.diag.size_pos
  by_cases hinside : msg.hdr.dlen.toNat + msg.hdr.diagOffset.toNat + N ≤ msg.om.data.length
  · have hshort : ¬ (N ≤ b.diag.size ∨ N ≤ (b.diag.rxdLen (firstHead b msg)).toNat) :=
      fun hlong ↦ h ⟨hinside, hlong⟩
    obtain ⟨hsize, hlen⟩ := not_or.mp hshort
    refine ⟨max b.diag.size (b.diag.rxdLen (firstHead b msg)).toNat, by omega, fun buf ↦ ?_⟩
    have hhead := b.diag.rxdLen_congr _ _ (@agree_osMbufCopydata β msg.om
      (msg.hdr.dlen.toNat + msg.hdr.diagOffset.toNat) b.diag.size b.diag.size le_rfl (by omega)
      buf fun _ ↦ 0)
    simp only [readDiag, Nat.zero_mul, Nat.add_zero]
    rw [hhead, osMbufCopydata_apply, if_neg fun hk ↦ absurd hk.1 (not_lt.mpr (le_max_right _ _)),
      osMbufCopydata_apply, if_neg fun hk ↦ absurd hk.1 (not_lt.mpr (le_max_left _ _))]
  · -- the chain ends before
    refine ⟨msg.om.data.length - (msg.hdr.dlen.toNat + msg.hdr.diagOffset.toNat), by omega,
      fun buf ↦ readDiag_apply_of_le (by omega)⟩

/-- The same of the first impulse response. -/
theorem exists_stale_cir
    (h : ¬ msg.hdr.dlen.toNat + b.sizeofCir ≤ msg.om.data.length) :
    ∃ k < b.sizeofCir, ∀ buf : Mem,
      (osMbufCopydata msg.om (msg.hdr.dlen.toNat + 0 * b.sizeofCir) b.sizeofCir buf).1 k =
        buf k := by
  have hpos := b.sizeofCir_pos
  refine ⟨msg.om.data.length - msg.hdr.dlen.toNat, by omega, fun buf ↦ ?_⟩
  rw [osMbufCopydata_apply, if_neg (by omega)]

end Stale

/-! ## What a message leaves in the buffers -/

section Leaves

variable {β : Type*} {b : Build} {c : UInt8} {k : ℕ}

/-- Behind the first call the byte is left, and no later call changes it. -/
theorem callAll_snd_apply {L : RxdiagLayout} {hdr : UwbMsgHdr} {om : Mbuf β}
    (hkeep : ∀ j (buf : Mem), buf k = c → readDiag L hdr om j buf k = c)
    {uses : List (UwbCalc × ℕ)} {buf : Mem} (h : buf k = c) :
    (callAll L hdr om uses buf).2 k = c := by
  induction uses generalizing buf with
  | nil => exact h
  | cons use uses ih => exact ih (hkeep use.2 buf h)

theorem readCirs_snd_apply {msg : Msg β}
    (hkeep : ∀ j (buf : Mem), buf k = c →
      (osMbufCopydata msg.om (msg.hdr.dlen.toNat + j * b.sizeofCir) b.sizeofCir buf).1 k = c)
    {js : List ℕ} {buf : Mem} (h : buf k = c) : (readCirs b msg js buf).2 k = c := by
  induction js generalizing buf with
  | nil => exact h
  | cons j js ih => exact ih (hkeep j buf h)

/-- The buffers behind a message that is printed. -/
theorem processMsg_snd (undef : CFloat → ℤ) (dr : Driver) (n : ℕ) (conf : LstnrConfig)
    (msg : Msg β) (s : Scratch) :
    (processMsg undef b dr n conf true msg s).2.diagBuffer = (readCalls b msg
        (calcs n (rxDiagBit conf.verbose) dr.singleReceiverPdoa) s.diagBuffer).2 ∧
      (b.cirEnabled = true → cirBit conf.verbose = true →
        (processMsg undef b dr n conf true msg s).2.tmpCir =
          (readCirs b msg (List.range n) s.tmpCir).2) := by
  rw [processMsg_eq]
  refine ⟨rfl, fun hb hbit ↦ ?_⟩
  simp only [reportOf, hb, hbit, Bool.and_self, if_true]

end Leaves

/-! ## Messages that can be queued -/

section Queued

variable {β : Type*} [DecidableEq β] [Inhabited β] (b : Build) (e : LeadingEdge)

/-- Devices with frames of zeros get a message into the queue. -/
theorem exists_queued_zeros {frameLen : BitVec 16} {devs : List UwbDev} (hne : devs ≠ [])
    (hzeros : ∀ d ∈ devs, d.rxbuf = (fun _ ↦ 0) ∧ d.frameLen = frameLen) (accSamplesToLoad : ℕ) :
    ∃ (msg : Msg β) (dev : UwbDev), Queued b e devs none msg ∧ msg.spi = none ∧
      msg.hdr.dlen = frameLen ∧ msg.hdr.diagOffset = frameLen ∧ dev ∈ devs ∧
      msg.om.data = messageOf b accSamplesToLoad devs dev := by
  let inst := if devs.length = 2 then 1 else 0
  have hpos := List.length_pos_of_ne_nil hne
  have hinst : inst < devs.length := by
    simp only [inst]
    split <;> omega
  have hsame : differs devs = false := by
    rcases devs with _ | ⟨d, _ | ⟨d', _ | ⟨d'', rest⟩⟩⟩
    · rfl
    · rfl
    · simp [differs, hzeros d (by simp), hzeros d' (by simp)]
    · rfl
  let s : State β := ⟨∅, [], fun _ ↦ 0, accSamplesToLoad, true⟩
  obtain ⟨t, env, calls, h⟩ := exists_queued b (s := s) rfl (List.getElem?_eq_getElem hinst)
    (fun h ↦ if_pos h) hsame
  obtain ⟨dev, om, hdev, hq, hdata⟩ := of_queued h
  have hmem := List.mem_of_getElem? hdev
  have hlen := (hzeros dev hmem).2
  exact ⟨⟨hdrOf b env.utime devs dev, none, om⟩, dev, .plain h hq, rfl, hlen,
    by simp [hdrOf, hlen], hmem, hdata⟩

end Queued

/-! ## Any byte of the diagnostics -/

section LeavesDiag

variable {β : Type*} {L : RxdiagLayout} {hdr : UwbMsgHdr} {om : Mbuf β} {k : ℕ} {c : UInt8}

/-- Where the chain has the same byte all along, it is left. -/
theorem readDiag_apply_of_tail (htail : ∀ i, hdr.dlen.toNat + hdr.diagOffset.toNat + k ≤ i →
    i < om.data.length → om.data.getD i 0 = c) (j : ℕ) {buf : Mem} (h : buf k = c) :
    readDiag L hdr om j buf k = c := by
  rw [readDiag, osMbufCopydata_apply]
  split
  · next hcopied => exact htail _ (by omega) hcopied.2
  · rw [osMbufCopydata_apply]
    split
    · next hcopied => exact htail _ (by omega) hcopied.2
    · exact h

theorem readDiag_zero_apply_of_head (htail : ∀ i, hdr.dlen.toNat + hdr.diagOffset.toNat + k ≤ i →
    i < om.data.length → om.data.getD i 0 = c) (hk : k < L.size)
    (hinside : hdr.dlen.toNat + hdr.diagOffset.toNat + k < om.data.length) (buf : Mem) :
    readDiag L hdr om 0 buf k = c := by
  rw [readDiag, osMbufCopydata_apply]
  split
  · next hcopied => exact htail _ (by omega) hcopied.2
  · rw [osMbufCopydata_apply, if_pos ⟨hk, by omega⟩]
    exact htail _ (by omega) (by omega)

/-- A record of full length whose bytes behind the head are all `c`. -/
theorem exists_rxdiag_tail (L : RxdiagLayout) (c : UInt8) :
    ∃ m : Mem, (L.rxdLen m).toNat = L.maxlen ∧ ∀ i, L.size ≤ i → m i = c := by
  obtain ⟨m, hm⟩ := L.exists_rxdLen L.maxlen le_rfl
  refine ⟨fun i ↦ if i < L.size then m i else c, ?_, fun i hi ↦ if_neg (by omega)⟩
  rw [← hm]
  exact congrArg BitVec.toNat (L.rxdLen_congr _ m fun i hi ↦ if_pos hi)

/-- **One message leaves any byte.**  A frame as long as the head reaches behind the byte moves the
record of the first device so that its tail comes to lie there. -/
theorem exists_leaves_diag [DecidableEq β] [Inhabited β] (b : Build) (e : LeadingEdge) {n : ℕ}
    (hn : 0 < n) (hk : k < b.diag.maxlen) (c : UInt8) :
    ∃ (devs : List UwbDev) (msg : Msg β), Queued b e devs none msg ∧ devs.length = n ∧
      ∀ undef dr s, (processMsg undef b dr n ⟨0, 2⟩ true msg s).2.diagBuffer k = c := by
  obtain ⟨m, hm, htail⟩ := exists_rxdiag_tail b.diag c
  obtain ⟨z, hz⟩ := b.diag.exists_rxdLen 0 (Nat.zero_le _)
  have hsize := b.diag.size_lt
  let frameLen := BitVec.ofNat 16 (b.diag.size - k)
  have hframe : frameLen.toNat = b.diag.size - k := by
    have hlt := (b.diag.rxdLen m).isLt
    rw [BitVec.toNat_ofNat, Nat.mod_eq_of_lt (by omega)]
  let rest := List.replicate (n - 1) (blankDev frameLen z)
  have hrest : ∀ d ∈ rest, d = blankDev frameLen z := fun d hd ↦ List.eq_of_mem_replicate hd
  have hzeros : ∀ d ∈ blankDev frameLen m :: rest,
      d.rxbuf = (fun _ ↦ 0) ∧ d.frameLen = frameLen := by
    intro d hd
    rcases List.mem_cons.mp hd with rfl | hd
    · exact ⟨rfl, rfl⟩
    · rw [hrest d hd]
      exact ⟨rfl, rfl⟩
  obtain ⟨msg, dev, hq, hspi, hdlen, hoff, hdev, hdata⟩ := @exists_queued_zeros β _ _ b e frameLen
    (blankDev frameLen m :: rest) (List.cons_ne_nil _ _) hzeros 0
  have hchain : msg.om.data = fetch (fun _ ↦ 0) frameLen.toNat ++ fetch m b.diag.maxlen := by
    have hnone : cirWrites b 0 (blankDev frameLen m :: rest) dev = [] := if_neg fun h ↦ h.2 rfl
    have hempty : ∀ d ∈ rest, rxdLen b d = 0 := by
      intro d hd
      rw [hrest d hd]
      exact BitVec.eq_of_toNat_eq hz
    obtain ⟨hbuf, hlen⟩ := hzeros dev hdev
    have hpayload : splice [] 0 (fetch (fun _ ↦ 0) frameLen.toNat) =
        fetch (fun _ ↦ 0) frameLen.toNat := splice_length [] _
    have hrecord : diagOf b (blankDev frameLen m) = fetch m b.diag.maxlen :=
      congrArg (fetch m) hm
    rw [hdata, messageOf, hnone, List.append_nil, frontWrites, hbuf, hlen, writeAll_cons, hpayload,
      writeAll_diagWrites_cons _ _ (by simp), hrecord]
    exact writeAll_of_forall_nil fun _ hw ↦ bytes_of_mem_diagWrites hempty hw
  have hlength : msg.om.data.length = frameLen.toNat + b.diag.maxlen := by simp [hchain]
  have hbytes : ∀ i, msg.hdr.dlen.toNat + msg.hdr.diagOffset.toNat + k ≤ i →
      i < msg.om.data.length → msg.om.data.getD i 0 = c := by
    intro i hi hlt
    rw [hdlen, hoff] at hi
    rw [hchain, List.getD_append_right _ _ _ _ (by rw [length_fetch]; omega), length_fetch,
      getD_fetch _ (by omega)]
    exact htail _ (by omega)
  have hkeep : ∀ j (buf : Mem), buf k = c → readDiag b.diag msg.hdr msg.om j buf k = c :=
    fun j buf h ↦ readDiag_apply_of_tail hbytes j h
  have hfirst : ∀ buf : Mem, readDiag b.diag msg.hdr msg.om 0 buf k = c := by
    intro buf
    by_cases hhead : k < b.diag.size
    · exact readDiag_zero_apply_of_head hbytes hhead (by rw [hdlen, hoff]; omega) buf
    · -- the frame is empty, and the record is read as it is
      have hzero : frameLen.toNat = 0 := by omega
      have hagree : Agree b.diag.size (osMbufCopydata msg.om 0 b.diag.size buf).1 m := by
        intro i hi
        rw [osMbufCopydata_apply, if_pos ⟨hi, by omega⟩, hchain, hzero, Nat.zero_add, fetch_zero,
          List.nil_append, getD_fetch _ (by omega)]
      have hlen := b.diag.rxdLen_congr _ _ hagree
      simp only [readDiag, hdlen, hoff, hzero, Nat.zero_mul, Nat.add_zero]
      rw [hlen, hm, osMbufCopydata_apply, if_pos ⟨hk, by omega⟩]
      exact hbytes _ (by rw [hdlen, hoff]; omega) (by omega)
  refine ⟨_, msg, hq, ?_, fun undef dr s ↦ ?_⟩
  · simp only [rest, List.length_cons, List.length_replicate]
    omega
  · rw [(processMsg_snd undef dr n _ msg s).1, readCalls, hspi]
    rcases calcs_cases n hn (rxDiagBit 2) dr.singleReceiverPdoa with ⟨-, hnone⟩ | ⟨fn, uses, heq, -⟩
    · exact absurd (Or.inl (by decide)) hnone
    · rw [heq]
      show (callAll b.diag msg.hdr msg.om uses
        (readDiag b.diag msg.hdr msg.om 0 s.diagBuffer)).2 k = c
      exact callAll_snd_apply hkeep (hfirst s.diagBuffer)

end LeavesDiag

/-! ## Any byte of the impulse response -/

section LeavesCir

variable {β : Type*} {b : Build} {k : ℕ} {c : UInt8}

/-- A chain of nothing but `c` leaves `c` in `tmp_cir`. -/
theorem tmpCir_apply_of_chain (hcir : b.cirEnabled = true) {n : ℕ} (hn : 0 < n) {msg : Msg β}
    (hdlen : msg.hdr.dlen = 0) (hdata : ∀ x ∈ msg.om.data, x = c)
    (hlen : b.sizeofCir ≤ msg.om.data.length) (hk : k < b.sizeofCir) (undef : CFloat → ℤ)
    (dr : Driver) (s : Scratch) : (processMsg undef b dr n ⟨0, 4⟩ true msg s).2.tmpCir k = c := by
  have hbyte : ∀ i < msg.om.data.length, msg.om.data.getD i 0 = c := by
    intro i hi
    rw [List.getD_eq_getElem _ _ hi]
    exact hdata _ (List.getElem_mem hi)
  have hkeep : ∀ j (buf : Mem), buf k = c → (osMbufCopydata msg.om
      (msg.hdr.dlen.toNat + j * b.sizeofCir) b.sizeofCir buf).1 k = c := by
    intro j buf h
    rw [osMbufCopydata_apply]
    split
    · next hcopied => exact hbyte _ hcopied.2
    · exact h
  have hfirst : (osMbufCopydata msg.om (msg.hdr.dlen.toNat + 0 * b.sizeofCir) b.sizeofCir
      s.tmpCir).1 k = c := by
    have hzero : msg.hdr.dlen.toNat = 0 := by rw [hdlen]; rfl
    rw [osMbufCopydata_apply, if_pos ⟨hk, by omega⟩]
    exact hbyte _ (by omega)
  obtain ⟨n, rfl⟩ := Nat.exists_eq_succ_of_ne_zero hn.ne'
  rw [(processMsg_snd undef dr _ _ msg s).2 hcir (by decide), List.range_succ_eq_map]
  show (readCirs b msg _ (osMbufCopydata msg.om (msg.hdr.dlen.toNat + 0 * b.sizeofCir) b.sizeofCir
    s.tmpCir).1).2 k = c
  exact readCirs_snd_apply hkeep hfirst

theorem eq_of_mem_cirs {b : Build} {cirs : List Mem} (h : ∀ cir ∈ cirs, cir = fun _ ↦ c) {x : UInt8}
    (hx : x ∈ (cirs.map fun cir ↦ fetch cir b.sizeofCir).flatten) : x = c := by
  obtain ⟨bytes, hbytes, hx⟩ := List.mem_flatten.mp hx
  obtain ⟨cir, hcir, rfl⟩ := List.mem_map.mp hbytes
  obtain ⟨i, -, rfl⟩ := List.mem_map.mp hx
  rw [h cir hcir]

theorem sizeofCir_le_length {b : Build} {cirs : List Mem} (h : cirs ≠ []) :
    b.sizeofCir ≤ (cirs.map fun cir ↦ fetch cir b.sizeofCir).flatten.length := by
  obtain ⟨cir, cirs, rfl⟩ := List.exists_cons_of_ne_nil h
  rw [List.map_cons, List.flatten_cons, List.length_append, length_fetch]
  omega

/-- **One message leaves any byte**, in either build. -/
theorem exists_leaves_cir [DecidableEq β] [Inhabited β] (e : LeadingEdge)
    (hcir : b.cirEnabled = true) {n : ℕ} (hn : 0 < n) (hk : k < b.sizeofCir) (c : UInt8)
    (overSpi : Bool) :
    ∃ (devs : List UwbDev) (spi : Option (List PdoaCirData)) (msg : Msg β),
      Queued b e devs spi msg ∧ instances devs spi = n ∧ spi.isSome = overSpi ∧
      ∀ undef dr s, (processMsg undef b dr n ⟨0, 4⟩ true msg s).2.tmpCir k = c := by
  obtain ⟨z, hz⟩ := b.diag.exists_rxdLen 0 (Nat.zero_le _)
  let dev : UwbDev := { blankDev 0 z with cir := fun _ ↦ c }
  cases overSpi with
  | false =>
    let devs := List.replicate n dev
    have hdevs : ∀ d ∈ devs, d = dev := fun d hd ↦ List.eq_of_mem_replicate hd
    have hne : devs ≠ [] := List.ne_nil_of_length_pos (by simpa [devs] using hn)
    obtain ⟨msg, d, hq, hspi, hdlen, -, hd, hdata⟩ := @exists_queued_zeros β _ _ b e 0 devs hne
      (fun d hd ↦ by rw [hdevs d hd]; exact ⟨rfl, rfl⟩) 1
    have hchain : msg.om.data =
        ((devs.map UwbDev.cir).map fun cir ↦ fetch cir b.sizeofCir).flatten := by
      have hfront : writeAll [] (frontWrites b devs d) = [] := by
        refine writeAll_of_forall_nil fun w hw ↦ ?_
        rcases List.mem_cons.mp hw with rfl | hw
        · rw [hdevs d hd]
          rfl
        · exact bytes_of_mem_diagWrites (fun d hd ↦ by
            rw [hdevs d hd]
            exact BitVec.eq_of_toNat_eq hz) hw
      have hwrites : cirWrites b 1 devs d = memWritesFrom b 0 0 (devs.map UwbDev.cir) := by
        rw [cirWrites, if_pos ⟨hcir, by decide⟩, cirWritesFrom_eq, hdevs d hd]
        rfl
      rw [hdata, messageOf, writeAll_append, hfront, hwrites, writeAll_memWritesFrom b _ (by simp),
        List.nil_append]
    refine ⟨devs, none, msg, hq, List.length_replicate, rfl, fun undef dr s ↦ ?_⟩
    refine tmpCir_apply_of_chain hcir hn hdlen (fun x hx ↦ ?_) ?_ hk undef dr s
    · rw [hchain] at hx
      refine eq_of_mem_cirs (fun cir h ↦ ?_) hx
      obtain ⟨d, hd, rfl⟩ := List.mem_map.mp h
      rw [hdevs d hd]
    · rw [hchain]
      exact sizeofCir_le_length (by simpa using hne)
  | true =>
    let pdata := List.replicate n (⟨fun _ ↦ 0, 0, 0, 0, fun _ ↦ c⟩ : PdoaCirData)
    have hs : (⟨∅, [], 1⟩ : SpiState β).held = ∅ := rfl
    obtain ⟨t, env, calls, h⟩ :=
      @exists_queued_spi β _ _ b e _ hs [dev] dev 0 pdata rfl (by simp) rfl
    obtain ⟨d, d₀, om, hd, hd₀, hq, hdata⟩ := of_queued_spi h
    cases hd
    cases hd₀
    let cirs := cirsOfSpi dev.cir pdata
    have hcirs : cirs ≠ [] ∧ ∀ cir ∈ cirs, cir = fun _ ↦ c := by
      obtain ⟨n, rfl⟩ := Nat.exists_eq_succ_of_ne_zero hn.ne'
      refine ⟨List.cons_ne_nil _ _, fun cir h ↦ ?_⟩
      rcases List.mem_cons.mp h with rfl | h
      · rfl
      · obtain ⟨p, hp, rfl⟩ := List.mem_map.mp h
        rw [List.eq_of_mem_replicate hp]
    have hchain : om.data = (cirs.map fun cir ↦ fetch cir b.sizeofCir).flatten := by
      have hwrites : cirWritesSpi b 1 dev.cir pdata dev = memWritesFrom b 0 0 cirs :=
        if_pos ⟨hcir, by decide⟩
      have hempty : splice [] 0 (fetch dev.rxbuf dev.frameLen.toNat) = [] := rfl
      rw [hdata, messageOfSpi, hwrites, writeAll_cons, hempty, writeAll_memWritesFrom b _ (by simp),
        List.nil_append]
    refine ⟨[dev], some pdata, _, .spi h hq, List.length_replicate, rfl, fun undef dr s ↦ ?_⟩
    refine tmpCir_apply_of_chain hcir hn rfl (fun x hx ↦ ?_) ?_ hk undef dr s
    · exact eq_of_mem_cirs hcirs.2 (hchain ▸ hx)
    · exact hchain ▸ sizeofCir_le_length hcirs.1

end LeavesCir

/-! ## Where it shows -/

theorem readsUpTo_probe {b : Build} {N : ℕ} {singleReceiverPdoa : Bool} {f : Mem → CFloat}
    {g : Mem → ℤ} (hf : ∀ m m', Agree N m m' → f m = f m')
    (hg : ∀ m m', Agree b.sizeofCir m m' → g m = g m') :
    (probe singleReceiverPdoa f g).ReadsUpTo b N where
  uwbCalc _ := hf
  offset := hg
  fpIdx _ _ _ := rfl
  rcphase _ _ _ := rfl
  angle _ _ _ := rfl
  rawTs _ _ _ := rfl
  real _ _ _ := rfl
  imag _ _ _ := rfl

/-- Two texts that part at some character. -/
theorem append_ne_of_head {a x y t t' : String} {c d : Char} (hx : x.toList.head? = some c)
    (hy : y.toList.head? = some d) (hne : c ≠ d) : a ++ x ++ t ≠ a ++ y ++ t' := by
  intro h
  have hlist := congrArg String.toList h
  simp only [String.toList_append, List.append_assoc, List.append_cancel_left_eq] at hlist
  have hhead := congrArg List.head? hlist
  rw [List.head?_append, List.head?_append, hx, hy] at hhead
  exact hne (Option.some.inj hhead)

section Shows

variable {undef : CFloat → ℤ} {r : Report} {x : CFloat} {xs : List CFloat}

/-- What is printed from the first strength on. -/
theorem exists_rssiText {ys : List CFloat} (h : r.rxDiag = some (x :: xs, ys)) :
    ∃ rest, reportText undef r = "\x7b\"utime\":" ++ dec r.utime.toNat ++ tsText r.ts ++
      ",\"rssi\":[" ++ signalText undef x ++ rest := by
  obtain ⟨tail, htail⟩ := listText_cons (signalText undef) x xs
  have hrx : rxDiagText undef r.rxDiag = ",\"rssi\":[" ++ (signalText undef x ++ tail) ++
      "],\"fppl\":[" ++ listText (signalText undef) ys ++ "]" := by
    rw [h, ← htail]
    rfl
  refine ⟨tail ++ "],\"fppl\":[" ++ listText (signalText undef) ys ++ "]" ++
    (ccorPart undef r.ccor ++ (pdText undef r.pdoa r.pd ++ (payloadText r.dlen r.d ++
      cirText undef r.cir))) ++ "\x7d", ?_⟩
  rw [reportText_eq, hrx]
  simp only [String.append_assoc]

/-- From the phase difference of a single receiver on. -/
theorem exists_pdoaText (h : r.pdoa = some x) :
    ∃ rest, reportText undef r = "\x7b\"utime\":" ++ dec r.utime.toNat ++ tsText r.ts ++
      rxDiagText undef r.rxDiag ++ ccorPart undef r.ccor ++ ",\"pd\":[" ++ phaseText undef x ++
        rest := by
  obtain ⟨tail, htail⟩ := listText_cons (phaseText undef) x []
  have hpd : pdText undef r.pdoa r.pd = ",\"pd\":[" ++ (phaseText undef x ++ tail) ++
      listText (phaseText undef) r.pd ++ "]" := by
    rw [h, ← htail]
    rfl
  refine ⟨tail ++ listText (phaseText undef) r.pd ++ "]" ++ (payloadText r.dlen r.d ++
    cirText undef r.cir) ++ "\x7d", ?_⟩
  rw [reportText_eq, hpd]
  simp only [String.append_assoc]

/-- From the offset of the first impulse response on. -/
theorem exists_cirText {c : CirReport} {cs : List CirReport} (h : r.cir = some (c :: cs)) :
    ∃ rest, reportText undef r = "\x7b\"utime\":" ++ dec r.utime.toNat ++ tsText r.ts ++
      rxDiagText undef r.rxDiag ++ ccorPart undef r.ccor ++ pdText undef r.pdoa r.pd ++
        payloadText r.dlen r.d ++ ",\"cir\":[" ++ "\x7b\"o\":" ++ dec c.offset ++ rest := by
  obtain ⟨tail, htail⟩ := listText_cons (cirObject undef) c cs
  obtain ⟨object, hobject⟩ : ∃ object,
      cirObject undef c = "\x7b\"o\":" ++ (dec c.offset ++ object) := by
    refine ⟨",\"fp_idx\":" ++ fpIdxText undef c.fpIdx ++ ",\"rcphase\":" ++
      angleText undef c.rcphase ++ ",\"angle\":" ++ angleText undef c.angle ++ ",\"rts\":" ++
        dec c.rawTs ++ samplesText c.samples ++ "\x7d", ?_⟩
    unfold cirObject
    simp only [String.append_assoc]
  have hcir : cirText undef r.cir = ",\"cir\":[" ++ ("\x7b\"o\":" ++ (dec c.offset ++ object) ++
      tail) ++ "]" := by
    rw [h, ← hobject, ← htail]
    rfl
  refine ⟨object ++ tail ++ "]" ++ "\x7d", ?_⟩
  rw [reportText_eq, hcir]
  simp only [String.append_assoc]

end Shows

/-! ## Histories -/

section Histories

variable {β : Type*} {b : Build} {e : LeadingEdge} {N n : ℕ} {conf : LstnrConfig} {msg : Msg β}

/-- A round with a message of the same build, that can have been printed before `msg`. -/
def Earlier [DecidableEq β] (b : Build) (e : LeadingEdge) (n : ℕ) (msg : Msg β) (r : Round β) :
    Prop :=
  ∃ devs spi, Queued b e devs spi r.msg ∧ instances devs spi = n ∧ spi.isSome = msg.spi.isSome

/-- Whatever the driver computes of what it reads, the text for the message is the same after any
two histories of messages that were queued. -/
def HistoryFree [DecidableEq β] (b : Build) (e : LeadingEdge) (singleReceiverPdoa : Bool)
    (N n : ℕ) (conf : LstnrConfig) (msg : Msg β) : Prop :=
  ∀ (undef : CFloat → ℤ) (dr : Driver), dr.ReadsUpTo b N →
    dr.singleReceiverPdoa = singleReceiverPdoa →
    ∀ (h h' : List (Round β)) (s s' : Scratch), (∀ r ∈ h ++ h', Earlier b e n msg r) →
      Run.run (processRound undef b dr n) Scratch.init h = some s →
      Run.run (processRound undef b dr n) Scratch.init h' = some s' → ∀ json,
        (processMsg undef b dr n conf json msg s).1 = (processMsg undef b dr n conf json msg s').1

variable {dr : Driver} {s : Scratch}

/-- The first strength is of the first record. -/
theorem exists_rssi (hn : 0 < n) (hspi : msg.spi = none) (hbit : rxDiagBit conf.verbose = true) :
    ∃ xs, valuesOf dr .rssi (callsOf b dr n conf msg s) =
      dr.uwbCalc .rssi (readDiag b.diag msg.hdr msg.om 0 s.diagBuffer) :: xs := by
  obtain ⟨n, rfl⟩ := Nat.exists_eq_succ_of_ne_zero hn.ne'
  have hcalls : ∃ uses, calcs (n + 1) true dr.singleReceiverPdoa = (.rssi, 0) :: uses := by
    rw [calcs, if_pos rfl, List.range_succ_eq_map]
    exact ⟨_, rfl⟩
  obtain ⟨uses, heq⟩ := hcalls
  simp only [callsOf, readCalls, hspi, hbit, heq]
  exact ⟨_, rfl⟩

/-- Without strengths, the first record is read for the phase difference. -/
theorem pdoa_eq (hspi : msg.spi = none) (hbit : rxDiagBit conf.verbose = false)
    (hpdoa : dr.singleReceiverPdoa = true) : (reportOf b dr n conf msg s).1.pdoa =
      some (dr.uwbCalc .pdoa (readDiag b.diag msg.hdr msg.om 0 s.diagBuffer)) := by
  have hcalls : calcs n false true = [(.pdoa, 0)] := rfl
  rw [pdoa_reportOf, if_pos hpdoa]
  simp only [callsOf, readCalls, hspi, hbit, hpdoa, hcalls]
  rfl

theorem utime_reportOf : (reportOf b dr n conf msg s).1.utime = msg.hdr.utime := rfl

theorem ts_reportOf : (reportOf b dr n conf msg s).1.ts =
    (List.range n).map fun j ↦ msg.hdr.ts.getD j 0 :=
  rfl

variable [DecidableEq β]

/-- The buffers behind a first message. -/
def behind (undef : CFloat → ℤ) (b : Build) (dr : Driver) (n : ℕ) (conf : LstnrConfig)
    (msg : Msg β) : Scratch :=
  (processMsg undef b dr n conf true msg Scratch.init).2

/-- The line does not depend on which of two messages came first. -/
theorem HistoryFree.text_eq {singleReceiverPdoa : Bool}
    (hfree : HistoryFree b e singleReceiverPdoa N n conf msg) (undef : CFloat → ℤ)
    (hreads : dr.ReadsUpTo b N) (hpdoa : dr.singleReceiverPdoa = singleReceiverPdoa)
    (conf' : LstnrConfig) {msg₀ msg₁ : Msg β} (h₀ : Earlier b e n msg ⟨conf', true, msg₀⟩)
    (h₁ : Earlier b e n msg ⟨conf', true, msg₁⟩) :
    reportText undef (reportOf b dr n conf msg (behind undef b dr n conf' msg₀)).1 =
      reportText undef (reportOf b dr n conf msg (behind undef b dr n conf' msg₁)).1 := by
  have hall : ∀ r ∈ [(⟨conf', true, msg₀⟩ : Round β)] ++ [⟨conf', true, msg₁⟩],
      Earlier b e n msg r := by
    intro r hr
    rcases List.mem_cons.mp hr with rfl | hr
    · exact h₀
    · obtain rfl := List.mem_singleton.mp hr
      exact h₁
  have htext := hfree undef dr hreads hpdoa _ _ _ _ hall rfl rfl true
  have hline : ∀ s, (processMsg undef b dr n conf true msg s).1 =
      some (reportText undef (reportOf b dr n conf msg s).1) :=
    fun s ↦ congrArg Prod.fst (processMsg_eq undef)
  exact Option.some.inj ((hline _).symm.trans (htext.trans (hline _)))

/-- A byte of the first record that stays shows in the line. -/
theorem not_historyFree_of_diag [Inhabited β] (hn : 0 < n) (hN : b.diag.size ≤ N)
    (hmax : N ≤ b.diag.maxlen) {singleReceiverPdoa : Bool} (hspi : msg.spi = none)
    (hused : rxDiagBit conf.verbose = true ∨ singleReceiverPdoa = true)
    (h : ¬ DiagCovered b N msg) : ¬ HistoryFree b e singleReceiverPdoa N n conf msg := by
  intro hfree
  obtain ⟨k, hk, hstale⟩ := exists_stale hN h
  have hleaves := @exists_leaves_diag β k _ _ b e n hn (by omega)
  obtain ⟨devs₀, msg₀, hq₀, hlen₀, h₀⟩ := hleaves 0
  obtain ⟨devs₁, msg₁, hq₁, hlen₁, h₁⟩ := hleaves 1
  let undef : CFloat → ℤ := fun _ ↦ 0
  let dr := probe singleReceiverPdoa (fun m ↦ if m k = 0 then .nan else .val 0) fun _ ↦ 0
  have hreads : dr.ReadsUpTo b N :=
    readsUpTo_probe (fun m m' hagree ↦ by simp only [hagree k hk]) fun _ _ _ ↦ rfl
  let s₀ := behind undef b dr n ⟨0, 2⟩ msg₀
  let s₁ := behind undef b dr n ⟨0, 2⟩ msg₁
  have hsome : (none : Option (List PdoaCirData)).isSome = msg.spi.isSome :=
    (congrArg Option.isSome hspi).symm
  have htext : reportText undef (reportOf b dr n conf msg s₀).1 =
      reportText undef (reportOf b dr n conf msg s₁).1 :=
    hfree.text_eq undef hreads rfl ⟨0, 2⟩ ⟨devs₀, none, hq₀, hlen₀, hsome⟩
      ⟨devs₁, none, hq₁, hlen₁, hsome⟩
  have hbyte₀ : readDiag b.diag msg.hdr msg.om 0 s₀.diagBuffer k = 0 :=
    (hstale _).trans (h₀ undef dr Scratch.init)
  have hbyte₁ : readDiag b.diag msg.hdr msg.om 0 s₁.diagBuffer k = 1 :=
    (hstale _).trans (h₁ undef dr Scratch.init)
  have hnan : ∀ fn, dr.uwbCalc fn (readDiag b.diag msg.hdr msg.om 0 s₀.diagBuffer) = .nan :=
    fun _ ↦ if_pos hbyte₀
  have hzero : ∀ fn, dr.uwbCalc fn (readDiag b.diag msg.hdr msg.om 0 s₁.diagBuffer) = .val 0 :=
    fun _ ↦ if_neg (by rw [hbyte₁]; decide)
  by_cases hbit : rxDiagBit conf.verbose = true
  · obtain ⟨xs₀, hxs₀⟩ := @exists_rssi β b n conf msg dr s₀ hn hspi hbit
    obtain ⟨xs₁, hxs₁⟩ := @exists_rssi β b n conf msg dr s₁ hn hspi hbit
    rw [hnan] at hxs₀
    rw [hzero] at hxs₁
    have hrx₀ := @rxDiag_reportOf β b dr n conf msg s₀
    have hrx₁ := @rxDiag_reportOf β b dr n conf msg s₁
    rw [if_pos hbit, hxs₀] at hrx₀
    rw [if_pos hbit, hxs₁] at hrx₁
    obtain ⟨rest₀, hrest₀⟩ := @exists_rssiText undef _ _ _ _ hrx₀
    obtain ⟨rest₁, hrest₁⟩ := @exists_rssiText undef _ _ _ _ hrx₁
    rw [hrest₀, hrest₁, utime_reportOf, utime_reportOf, ts_reportOf, ts_reportOf] at htext
    exact append_ne_of_head (c := 'n') (d := '0') (by decide +kernel) (by decide +kernel)
      (by decide) htext
  · have hpdoa := hused.resolve_left hbit
    have hbit := Bool.eq_false_iff.mpr hbit
    have hp₀ := @pdoa_eq β b n conf msg dr s₀ hspi hbit hpdoa
    have hp₁ := @pdoa_eq β b n conf msg dr s₁ hspi hbit hpdoa
    rw [hnan] at hp₀
    rw [hzero] at hp₁
    obtain ⟨rest₀, hrest₀⟩ := @exists_pdoaText undef _ _ hp₀
    obtain ⟨rest₁, hrest₁⟩ := @exists_pdoaText undef _ _ hp₁
    rw [hrest₀, hrest₁, utime_reportOf, utime_reportOf, ts_reportOf, ts_reportOf, ccor_reportOf,
      ccor_reportOf, rxDiag_reportOf, rxDiag_reportOf, hbit] at htext
    exact append_ne_of_head (c := 'n') (d := '0') (by decide +kernel) (by decide +kernel)
      (by decide) htext

/-- So does a byte of the first impulse response. -/
theorem not_historyFree_of_cir [Inhabited β] (hn : 0 < n) (hN : b.diag.size ≤ N)
    {singleReceiverPdoa : Bool} (hcov : msg.spi = none →
      (rxDiagBit conf.verbose = true ∨ singleReceiverPdoa = true) → DiagCovered b N msg)
    (hcir : b.cirEnabled = true) (hbit : cirBit conf.verbose = true)
    (h : ¬ msg.hdr.dlen.toNat + b.sizeofCir ≤ msg.om.data.length) :
    ¬ HistoryFree b e singleReceiverPdoa N n conf msg := by
  intro hfree
  obtain ⟨k, hk, hstale⟩ := exists_stale_cir h
  have hleaves := fun c ↦ @exists_leaves_cir β b k _ _ e hcir n hn hk c msg.spi.isSome
  obtain ⟨devs₀, spi₀, msg₀, hq₀, hlen₀, hspi₀, h₀⟩ := hleaves 0
  obtain ⟨devs₁, spi₁, msg₁, hq₁, hlen₁, hspi₁, h₁⟩ := hleaves 1
  let undef : CFloat → ℤ := fun _ ↦ 0
  let dr := probe singleReceiverPdoa (fun _ ↦ .nan) fun m ↦ (m k).toNat
  have hreads : dr.ReadsUpTo b N :=
    readsUpTo_probe (fun _ _ _ ↦ rfl) fun m m' hagree ↦ by simp only [hagree k hk]
  let s₀ := behind undef b dr n ⟨0, 4⟩ msg₀
  let s₁ := behind undef b dr n ⟨0, 4⟩ msg₁
  have htext : reportText undef (reportOf b dr n conf msg s₀).1 =
      reportText undef (reportOf b dr n conf msg s₁).1 :=
    hfree.text_eq undef hreads rfl ⟨0, 4⟩ ⟨devs₀, spi₀, hq₀, hlen₀, hspi₀⟩
      ⟨devs₁, spi₁, hq₁, hlen₁, hspi₁⟩
  have hprint : s₀.printBuffer = s₁.printBuffer := by
    simp only [s₀, s₁, behind, processMsg_eq]
  have hvalues := @valuesOf_callsOf_congr β b dr N n conf msg hn hN hreads hcov s₀ s₁
  have hfirst : ∀ s : Scratch, ∃ cirs, (reportOf b dr n conf msg s).1.cir =
      some (cirReportOf dr conf.accSamplesToLoad (osMbufCopydata msg.om
        (msg.hdr.dlen.toNat + 0 * b.sizeofCir) b.sizeofCir s.tmpCir).1 :: cirs) := by
    intro s
    obtain ⟨n, rfl⟩ := Nat.exists_eq_succ_of_ne_zero hn.ne'
    rw [cir_reportOf, if_pos (by rw [hcir, hbit]; rfl), List.range_succ_eq_map]
    exact ⟨_, rfl⟩
  obtain ⟨cirs₀, hcirs₀⟩ := hfirst s₀
  obtain ⟨cirs₁, hcirs₁⟩ := hfirst s₁
  obtain ⟨rest₀, hrest₀⟩ := @exists_cirText undef _ _ _ hcirs₀
  obtain ⟨rest₁, hrest₁⟩ := @exists_cirText undef _ _ _ hcirs₁
  have hd : (reportOf b dr n conf msg s₀).1.d = (reportOf b dr n conf msg s₁).1.d := by
    show fetch (readPayload msg s₀.printBuffer).1 _ = fetch (readPayload msg s₁.printBuffer).1 _
    rw [hprint]
  have hbyte₀ := (hstale s₀.tmpCir).trans (h₀ undef dr Scratch.init)
  have hbyte₁ := (hstale s₁.tmpCir).trans (h₁ undef dr Scratch.init)
  rw [hrest₀, hrest₁, utime_reportOf, utime_reportOf, ts_reportOf, ts_reportOf, ccor_reportOf,
    ccor_reportOf, rxDiag_reportOf, rxDiag_reportOf, pdoa_reportOf, pdoa_reportOf, hvalues, hvalues,
    hvalues, hd] at htext
  have hoff₀ : (cirReportOf dr conf.accSamplesToLoad (osMbufCopydata msg.om
      (msg.hdr.dlen.toNat + 0 * b.sizeofCir) b.sizeofCir s₀.tmpCir).1).offset = 0 :=
    congrArg (fun c : UInt8 ↦ (c.toNat : ℤ)) hbyte₀
  have hoff₁ : (cirReportOf dr conf.accSamplesToLoad (osMbufCopydata msg.om
      (msg.hdr.dlen.toNat + 0 * b.sizeofCir) b.sizeofCir s₁.tmpCir).1).offset = 1 :=
    congrArg (fun c : UInt8 ↦ (c.toNat : ℤ)) hbyte₁
  rw [hoff₀, hoff₁] at htext
  exact append_ne_of_head (c := '0') (d := '1') (by decide) (by decide) (by decide) htext

end Histories

/-- A message of an empty frame, with a record of three bytes. -/
def emptyFrameMsg : Msg ℕ where
  hdr := hdrOf (sampleBuild false) 0 [sampleDev 0 [3, 0, 5]] (sampleDev 0 [3, 0, 5])
  spi := none
  om := ⟨[0], [3, 0, 5]⟩

/-- The line of a frame of two zeros, with this strength and first path power. -/
def zerosLine (strength : String) : String :=
  "\x7b\"utime\":0,\"ts\":[0],\"rssi\":[" ++ strength ++ "],\"fppl\":[" ++ strength ++
    "],\"pd\":[],\"dlen\":2,\"d\":\"0000\"\x7d"

end UwbApps.Listener
