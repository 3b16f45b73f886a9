import UwbApps.Listener.Capture

/-!
# Reading the diagnostics back

`processRxDataQueue` is the part of `process_rx_data_queue` that has to do with the diagnostics, for
one message of the queue: before each of `uwb_calc_rssi`, `uwb_calc_fppl` and `uwb_calc_pdoa` it
copies the record of an instance from the chain into `diag_buffer`.

`rx_complete_cb` notes in `hdr->diag_offset` where the diagnostics start, counted from the start of
the chain, and stores them one behind the other.  The reader counts `diag_offset` from the end of
the payload, and takes the records to be of one length.  `diagFaithful_iff` says when what is passed
on is right all the same: when there are no diagnostics, when the settings ask for none of the
calls, or when the frame is empty and only the record that starts the chain is looked for.
-/

set_option autoImplicit false

open Octets

namespace UwbApps.Listener

open Os

/-- `uwb_calc_rssi`, `uwb_calc_fppl` and `uwb_calc_pdoa`. -/
inductive UwbCalc
  | rssi
  | fppl
  | pdoa
deriving DecidableEq

/-- A call of one of them for instance `inst`, on the record it is given. -/
structure CalcCall where
  fn : UwbCalc
  inst : ℕ
  diag : Mem

variable {β : Type*} [DecidableEq β]

/-- The two copies before each call: the common head, which says how long the record is, and the
record. -/
def readDiag (L : RxdiagLayout) (hdr : UwbMsgHdr) (om : Mbuf β) (j : ℕ) (diagBuffer : Mem) : Mem :=
  let offset := hdr.dlen.toNat + hdr.diagOffset.toNat
  let head := (osMbufCopydata om (offset + j * L.maxlen) L.size diagBuffer).1
  (osMbufCopydata om (offset + j * (L.rxdLen head).toNat) (L.rxdLen head).toNat head).1

/-- The calls for a message, in order. -/
def calcs (n : ℕ) (verboseRxDiag singleReceiverPdoa : Bool) : List (UwbCalc × ℕ) :=
  (if verboseRxDiag then (List.range n).map (.rssi, ·) ++ (List.range n).map (.fppl, ·) else []) ++
    if singleReceiverPdoa then [(.pdoa, 0)] else []

/-- One call after the other, over the same `diag_buffer`. -/
def callAll (L : RxdiagLayout) (hdr : UwbMsgHdr) (om : Mbuf β) :
    List (UwbCalc × ℕ) → Mem → List CalcCall × Mem
  | [], diagBuffer => ([], diagBuffer)
  | (fn, j) :: rest, diagBuffer =>
    let diag := readDiag L hdr om j diagBuffer
    let (calls, diagBuffer) := callAll L hdr om rest diag
    (⟨fn, j, diag⟩ :: calls, diagBuffer)

/-- A round of the loop of `process_rx_data_queue`.  `json` says whether `os_msys_get_pkthdr` had a
chain for the text. -/
def processRxDataQueue (b : Build) (n : ℕ) (singleReceiverPdoa json : Bool) (s : State β) :
    Option (State β × List CalcCall) :=
  match s.rxpktQ with
  | [] => none
  | (hdr, om) :: rest =>
    let t := { s with held := BlockPool.free s.held om.blocks, rxpktQ := rest }
    let payloadLen := min om.data.length 1024
    if (osMbufCopydata om 0 payloadLen fun _ ↦ 0).2 ∧ json then
      let (calls, diagBuffer) :=
        callAll b.diag hdr om (calcs n s.verboseRxDiag singleReceiverPdoa) s.diagBuffer
      some ({ t with diagBuffer }, calls)
    else some (t, [])

/-- Each call is given what its device had when the frame came. -/
def RecordsMatch (b : Build) (devs : List UwbDev) (calls : List CalcCall) : Prop :=
  ∀ c ∈ calls, ∀ d, devs[c.inst]? = some d → fetch c.diag (rxdLen b d).toNat = diagOf b d

/-- The devices keep to `UWB_DEV_RXDIAG_MAXLEN`, and have no diagnostics at all without `diagOn`. -/
structure Fills (b : Build) (n : ℕ) (diagOn : Bool) (devs : List UwbDev) : Prop where
  length_eq : devs.length = n
  le_maxlen : ∀ d ∈ devs, (rxdLen b d).toNat ≤ b.diag.maxlen
  off : diagOn = false → ∀ d ∈ devs, rxdLen b d = 0

/-- Whatever the `n` devices have as diagnostics, and whatever was done before and since: when the
message of a frame of length `frameLen` comes up under these settings, the calls get what was
stored. -/
def DiagFaithful (β : Type*) [DecidableEq β] (b : Build) (n : ℕ)
    (diagOn verboseRxDiag singleReceiverPdoa : Bool) (frameLen : BitVec 16) : Prop :=
  ∀ (s t : State β) (devs : List UwbDev) (inst : ℕ) (dev : UwbDev) (env : Env β)
    (rx : List Call) (msg : UwbMsgHdr × Mbuf β),
    Fills b n diagOn devs → devs[inst]? = some dev → dev.frameLen = frameLen →
    rxCompleteCb b s devs inst env = some (t, rx, .queued) → t.rxpktQ = s.rxpktQ ++ [msg] →
    ∀ (u v : State β) (rest : List (UwbMsgHdr × Mbuf β)) (json : Bool) (calls : List CalcCall),
      u.rxpktQ = msg :: rest → u.verboseRxDiag = verboseRxDiag →
      processRxDataQueue b n singleReceiverPdoa json u = some (v, calls) →
      RecordsMatch b devs calls

variable {b : Build}

/-! ## The calls -/

section Calls

variable {L : RxdiagLayout} {hdr : UwbMsgHdr} {om : Mbuf β}

omit [DecidableEq β] in
/-- Where the chain does not reach, `diag_buffer` stays. -/
theorem readDiag_apply_of_le {j k : ℕ} {buf : Mem}
    (h : om.data.length ≤ hdr.dlen.toNat + hdr.diagOffset.toNat + k) :
    readDiag L hdr om j buf k = buf k := by
  rw [readDiag, osMbufCopydata_apply, if_neg (by omega), osMbufCopydata_apply, if_neg (by omega)]

omit [DecidableEq β] in
theorem callAll_apply_of_le {k : ℕ}
    (h : om.data.length ≤ hdr.dlen.toNat + hdr.diagOffset.toNat + k) {c : CalcCall}
    {uses : List (UwbCalc × ℕ)} {buf : Mem} (hc : c ∈ (callAll L hdr om uses buf).1) :
    c.diag k = buf k := by
  induction uses generalizing buf with
  | nil => simp [callAll] at hc
  | cons use uses ih =>
    rcases List.mem_cons.mp hc with rfl | hc
    · exact readDiag_apply_of_le h
    · rw [ih hc, readDiag_apply_of_le h]

omit [DecidableEq β] in
/-- What a call is given has been read for its instance. -/
theorem exists_readDiag_of_mem {c : CalcCall} {uses : List (UwbCalc × ℕ)} {buf : Mem}
    (h : c ∈ (callAll L hdr om uses buf).1) :
    (c.fn, c.inst) ∈ uses ∧ ∃ buf', c.diag = readDiag L hdr om c.inst buf' := by
  induction uses generalizing buf with
  | nil => simp [callAll] at h
  | cons use uses ih =>
    rcases List.mem_cons.mp h with rfl | h
    · exact ⟨List.mem_cons_self, buf, rfl⟩
    · exact ⟨List.mem_cons_of_mem _ (ih h).1, (ih h).2⟩

omit [DecidableEq β] in
theorem exists_mem_callAll {use : UwbCalc × ℕ} {uses : List (UwbCalc × ℕ)} {buf : Mem}
    (h : use ∈ uses) :
    ∃ c ∈ (callAll L hdr om uses buf).1, c.inst = use.2 := by
  induction uses generalizing buf with
  | nil => cases h
  | cons first uses ih =>
    rcases List.mem_cons.mp h with rfl | h
    · exact ⟨_, List.mem_cons_self, rfl⟩
    · obtain ⟨c, hc, hinst⟩ := @ih (readDiag L hdr om first.2 buf) h
      exact ⟨c, List.mem_cons_of_mem _ hc, hinst⟩

end Calls

section Settings

variable {n : ℕ} {verboseRxDiag singleReceiverPdoa : Bool}

/-- The instances that are called with `VERBOSE_RX_DIAG`. -/
theorem rssi_mem_calcs {j : ℕ} (hj : j < n) : (.rssi, j) ∈ calcs n true singleReceiverPdoa := by
  simp [calcs, hj]

/-- The first instance is called as soon as there is a call at all. -/
theorem exists_mem_calcs (hn : 0 < n)
    (h : verboseRxDiag = false → singleReceiverPdoa = true) :
    ∃ fn, (fn, 0) ∈ calcs n verboseRxDiag singleReceiverPdoa := by
  cases verboseRxDiag with
  | false => exact ⟨.pdoa, by simp [calcs, h rfl]⟩
  | true => exact ⟨.rssi, rssi_mem_calcs hn⟩

theorem inst_eq_zero_of_mem_calcs (h : n = 1 ∨ verboseRxDiag = false) {use : UwbCalc × ℕ}
    (huse : use ∈ calcs n verboseRxDiag singleReceiverPdoa) : use.2 = 0 := by
  rcases List.mem_append.mp huse with hverbose | hpdoa
  · rcases h with rfl | rfl
    · split at hverbose
      · obtain rfl | rfl : use = (.rssi, 0) ∨ use = (.fppl, 0) := by simpa using hverbose
        · rfl
        · rfl
      · cases hverbose
    · cases hverbose
  · split at hpdoa
    · rw [List.mem_singleton.mp hpdoa]
    · cases hpdoa

end Settings

/-- A round of the loop takes the message at the head, and makes the calls for it or none. -/
theorem calls_of_process {n : ℕ} {pdoa json : Bool} {u v : State β} {msg : UwbMsgHdr × Mbuf β}
    {rest : List (UwbMsgHdr × Mbuf β)} {calls : List CalcCall} (hq : u.rxpktQ = msg :: rest)
    (h : processRxDataQueue b n pdoa json u = some (v, calls)) :
    calls = (callAll b.diag msg.1 msg.2 (calcs n u.verboseRxDiag pdoa) u.diagBuffer).1 ∨
      calls = [] := by
  rw [processRxDataQueue, hq] at h
  dsimp only at h
  split at h
  · cases h
    exact Or.inl rfl
  · cases h
    exact Or.inr rfl

/-- With a chain for the text, the calls of the settings are all made. -/
theorem exists_process {n : ℕ} {pdoa : Bool} {u : State β} {use : UwbCalc × ℕ}
    (huse : use ∈ calcs n u.verboseRxDiag pdoa) {msg : UwbMsgHdr × Mbuf β}
    {rest : List (UwbMsgHdr × Mbuf β)} (hq : u.rxpktQ = msg :: rest) :
    ∃ v calls, processRxDataQueue b n pdoa true u = some (v, calls) ∧
      calls = (callAll b.diag msg.1 msg.2 (calcs n u.verboseRxDiag pdoa) u.diagBuffer).1 ∧
      ∃ c ∈ calls, c.inst = use.2 := by
  have hcopy : (osMbufCopydata msg.2 0 (min msg.2.data.length 1024) fun _ ↦ 0).2 = true := by
    simp [osMbufCopydata]
  rw [processRxDataQueue, hq]
  dsimp only
  rw [if_pos ⟨hcopy, rfl⟩]
  exact ⟨_, _, rfl, rfl, exists_mem_callAll huse⟩

/-! ## The message -/

/-- The bytes behind the payload, in a build without impulse responses. -/
theorem message_of_queued (hcir : b.cirEnabled = false) {s t : State β} {devs : List UwbDev}
    {inst : ℕ} {dev : UwbDev} {env : Env β} {rx : List Call} {msg : UwbMsgHdr × Mbuf β}
    (hdev : devs[inst]? = some dev) (h : rxCompleteCb b s devs inst env = some (t, rx, .queued))
    (hq : t.rxpktQ = s.rxpktQ ++ [msg]) :
    msg.1.dlen = dev.frameLen ∧ msg.1.diagOffset = dev.frameLen ∧
      msg.2.data =
        writeAll (fetch dev.rxbuf dev.frameLen.toNat) (diagWrites b dev.frameLen devs) := by
  obtain ⟨dev', om, hdev', hq', hdata⟩ := of_queued h
  obtain rfl := Option.some.inj (hdev.symm.trans hdev')
  obtain rfl := List.singleton_inj.mp (List.append_cancel_left (hq.symm.trans hq'))
  refine ⟨rfl, by simp [hdrOf], ?_⟩
  have hnone : cirWrites b s.accSamplesToLoad devs dev = [] :=
    if_neg fun hb ↦ by simp [hcir] at hb
  rw [hdata, messageOf, hnone, List.append_nil, frontWrites, writeAll_cons]
  simp [splice]

/-- Records go one behind the other, and empty ones nowhere. -/
theorem writeAll_diagWrites_cons {bs : List UInt8} {offset : BitVec 16} (d : UwbDev)
    (devs : List UwbDev) (h : offset.toNat = bs.length) :
    writeAll bs (diagWrites b offset (d :: devs)) =
      writeAll (bs ++ diagOf b d) (diagWrites b (offset + rxdLen b d) devs) := by
  rw [diagWrites, writeAll_cons, h, splice_length]

/-- As long as the 16 bits of `offset` do not run over, the records go behind what is in the
chain. -/
theorem exists_writeAll_diagWrites {bs : List UInt8} {offset : BitVec 16} {devs : List UwbDev}
    (devs' : List UwbDev) (hoff : offset.toNat = bs.length)
    (hlt : bs.length + (devs.map fun d ↦ (rxdLen b d).toNat).sum < 65536) :
    ∃ (more : List UInt8) (offset' : BitVec 16),
      more.length = (devs.map fun d ↦ (rxdLen b d).toNat).sum ∧
      offset'.toNat = (bs ++ more).length ∧
      writeAll bs (diagWrites b offset (devs ++ devs')) =
        writeAll (bs ++ more) (diagWrites b offset' devs') := by
  induction devs generalizing bs offset with
  | nil => exact ⟨[], offset, rfl, by simpa using hoff, by simp⟩
  | cons d devs ih =>
    rw [List.map_cons, List.sum_cons] at hlt ⊢
    have hlen : (bs ++ diagOf b d).length = bs.length + (rxdLen b d).toNat := by
      rw [List.length_append, diagOf, length_fetch]
    have hnext : (offset + rxdLen b d).toNat = (bs ++ diagOf b d).length := by
      rw [BitVec.toNat_add, hoff, hlen]
      exact Nat.mod_eq_of_lt (by omega)
    obtain ⟨more, offset', hmore, hoff', hall⟩ := ih hnext (by omega)
    refine ⟨diagOf b d ++ more, offset', ?_, by rw [hoff', List.append_assoc], ?_⟩
    · rw [List.length_append, hmore, diagOf, length_fetch]
    · rw [List.cons_append, writeAll_diagWrites_cons d _ hoff, hall, List.append_assoc]

theorem writeAll_diagWrites_append {bs : List UInt8} {offset : BitVec 16} {devs devs' : List UwbDev}
    (h : ∀ d ∈ devs', rxdLen b d = 0) :
    writeAll bs (diagWrites b offset (devs ++ devs')) = writeAll bs (diagWrites b offset devs) := by
  induction devs generalizing bs offset with
  | nil => exact writeAll_of_forall_nil fun _ hw ↦ bytes_of_mem_diagWrites h hw
  | cons d devs ih => exact ih

/-- A device with an empty payload buffer. -/
def blankDev (frameLen : BitVec 16) (rxdiag : Mem) : UwbDev where
  rxbuf _ := 0
  frameLen := frameLen
  carrierIntegrator := 0
  rxtimestamp := 0
  rxdiag := rxdiag
  ldeError := false
  rxRestarted := false
  cir _ := 0

theorem differs_map_blankDev (frameLen : BitVec 16) :
    ∀ diags : List Mem, differs (diags.map (blankDev frameLen)) = false
  | [] | [_] | _ :: _ :: _ :: _ => rfl
  | [_, _] => by simp [differs, blankDev]

/-- Whatever the records, a frame of zeros gets them into the queue. -/
theorem exists_message [Inhabited β] (hcir : b.cirEnabled = false) {frameLen : BitVec 16}
    {diags : List Mem} (hne : diags ≠ []) :
    ∃ (s t : State β) (inst : ℕ) (env : Env β) (rx : List Call) (msg : UwbMsgHdr × Mbuf β)
      (dev : UwbDev),
      (diags.map (blankDev frameLen))[inst]? = some dev ∧ dev.frameLen = frameLen ∧
      rxCompleteCb b s (diags.map (blankDev frameLen)) inst env = some (t, rx, .queued) ∧
      t.rxpktQ = s.rxpktQ ++ [msg] ∧ msg.1.dlen = frameLen ∧ msg.1.diagOffset = frameLen ∧
      msg.2.data = writeAll (fetch (fun _ ↦ 0) frameLen.toNat)
        (diagWrites b frameLen (diags.map (blankDev frameLen))) := by
  let devs := diags.map (blankDev frameLen)
  let inst := if diags.length = 2 then 1 else 0
  have hpos := List.length_pos_of_ne_nil hne
  have hinst : inst < diags.length := by
    simp only [inst]
    split <;> omega
  have hdev : devs[inst]? = some (blankDev frameLen diags[inst]) := by
    simp [devs, hinst]
  have hlast : devs.length = 2 → inst = 1 := fun h ↦ if_pos (by simpa [devs] using h)
  have hsame := differs_map_blankDev frameLen diags
  let s : State β := ⟨∅, [], fun _ ↦ 0, 0, true⟩
  obtain ⟨t, env, rx, h⟩ := exists_queued b (s := s) rfl hdev hlast hsame
  obtain ⟨dev', om, -, hq, -⟩ := of_queued h
  obtain ⟨hdlen, hoff, hdata⟩ := message_of_queued hcir hdev h hq
  exact ⟨s, t, inst, env, rx, _, _, hdev, rfl, h, hq, hdlen, hoff, hdata⟩

/-! ## The record behind an empty frame -/

omit [DecidableEq β] in
/-- The record that starts the chain is found. -/
theorem fetch_readDiag {hdr : UwbMsgHdr} {om : Mbuf β} {d : UwbDev} (hdlen : hdr.dlen = 0)
    (hoff : hdr.diagOffset = 0) {more : List UInt8} (hdata : om.data = diagOf b d ++ more)
    (buf : Mem) :
    fetch (readDiag b.diag hdr om 0 buf) (rxdLen b d).toNat = diagOf b d := by
  let head := (osMbufCopydata om 0 b.diag.size buf).1
  have hread : readDiag b.diag hdr om 0 buf =
      (osMbufCopydata om 0 (b.diag.rxdLen head).toNat head).1 := by
    simp [readDiag, hdlen, hoff, head]
  have hlen : (rxdLen b d).toNat ≤ om.data.length := by
    rw [hdata, diagOf, List.length_append, length_fetch]
    exact Nat.le_add_right _ _
  have hbyte : ∀ k < (rxdLen b d).toNat, om.data.getD k 0 = d.rxdiag k := by
    intro k hk
    rw [hdata, diagOf, List.getD_append _ _ _ _ (by rwa [length_fetch]), getD_fetch _ hk]
  refine fetch_congr fun k hk ↦ ?_
  rw [hread, osMbufCopydata_apply]
  simp only [Nat.zero_add]
  split
  · exact hbyte k hk
  · next hshort =>
    -- what the second copy leaves out, the first has brought
    have hsize : k < b.diag.size := by
      by_contra hge
      have hagree : Agree b.diag.size head d.rxdiag := by
        intro i hi
        simp only [head]
        rw [osMbufCopydata_apply, if_pos ⟨hi, by omega⟩, Nat.zero_add]
        exact hbyte i (by omega)
      have hrxd := b.diag.rxdLen_congr head d.rxdiag hagree
      rw [rxdLen, ← hrxd] at hk
      rw [rxdLen, ← hrxd] at hlen
      exact hshort ⟨hk, by omega⟩
    simp only [head]
    rw [osMbufCopydata_apply, if_pos ⟨hsize, by omega⟩, Nat.zero_add]
    exact hbyte k hk

/-! ## Records that are not found -/

/-- Only the head of a record is bound to its length. -/
theorem exists_rxdiag (L : RxdiagLayout) (last : UInt8) :
    ∃ m, (L.rxdLen m).toNat = L.maxlen ∧ m (L.maxlen - 1) = last := by
  obtain ⟨m, hm⟩ := L.exists_rxdLen L.maxlen (le_refl _)
  have hsize := L.size_lt
  refine ⟨fun k ↦ if k = L.maxlen - 1 then last else m k, ?_, if_pos rfl⟩
  rw [← hm]
  exact congrArg BitVec.toNat (L.rxdLen_congr _ m fun k hk ↦ if_neg (by omega))

/-- A record that is not what was stored, in a frame of zeros with the diagnostics `diags`.  The
other devices may have none. -/
theorem not_diagFaithful_of_ne [Inhabited β] (hcir : b.cirEnabled = false) {n : ℕ}
    {verboseRxDiag singleReceiverPdoa : Bool} {frameLen : BitVec 16} {diags : List Mem}
    (hn : diags.length ≤ n)
    (hmax : ∀ m ∈ diags, (b.diag.rxdLen m).toNat ≤ b.diag.maxlen) {j : ℕ} {m : Mem}
    (hj : diags[j]? = some m) {fn : UwbCalc}
    (huse : (fn, j) ∈ calcs n verboseRxDiag singleReceiverPdoa)
    (h : ∀ (hdr : UwbMsgHdr) (om : Mbuf β), hdr.dlen = frameLen → hdr.diagOffset = frameLen →
      om.data = writeAll (fetch (fun _ ↦ 0) frameLen.toNat)
        (diagWrites b frameLen (diags.map (blankDev frameLen))) →
      ∀ c ∈ (callAll b.diag hdr om (calcs n verboseRxDiag singleReceiverPdoa) fun _ ↦ 0).1,
        c.inst = j →
        fetch c.diag (b.diag.rxdLen m).toNat ≠ fetch m (b.diag.rxdLen m).toNat) :
    ¬ DiagFaithful β b n true verboseRxDiag singleReceiverPdoa frameLen := by
  intro hfaithful
  have hlt : j < diags.length := (List.getElem?_eq_some_iff.mp hj).1
  obtain ⟨z, hz⟩ := b.diag.exists_rxdLen 0 (Nat.zero_le _)
  let rest := List.replicate (n - diags.length) z
  have hrest : ∀ r ∈ rest, r = z := fun r hr ↦ List.eq_of_mem_replicate hr
  have hcount : (diags ++ rest).length = n := by
    simp only [rest, List.length_append, List.length_replicate]
    omega
  obtain ⟨s, t, inst, env, rx, msg, dev, hdev, hlen, hrx, hq, hdlen, hoff, hdata⟩ :=
    exists_message (β := β) hcir (List.ne_nil_of_length_pos (hcount ▸ Nat.zero_lt_of_lt
      (Nat.lt_of_lt_of_le hlt hn)))
  have hfills : Fills b n true ((diags ++ rest).map (blankDev frameLen)) := by
    refine ⟨by rw [List.length_map, hcount], fun d hd ↦ ?_, fun h ↦ by cases h⟩
    obtain ⟨r, hr, rfl⟩ := List.mem_map.mp hd
    rcases List.mem_append.mp hr with hr | hr
    · exact hmax r hr
    · rw [hrest r hr]
      exact hz.trans_le (Nat.zero_le _)
  have hchain := hdata
  rw [List.map_append, writeAll_diagWrites_append fun d hd ↦ ?_] at hchain
  · let u : State β := ⟨msg.2.blocks.toFinset, [msg], fun _ ↦ 0, 0, verboseRxDiag⟩
    obtain ⟨v, calls, hv, hcalls, c, hc, hinst⟩ :=
      @exists_process β _ b n singleReceiverPdoa u (fn, j) huse msg [] rfl
    have hj' : (diags ++ rest)[j]? = some m := by
      rw [List.getElem?_append_left hlt, hj]
    have hmatch := hfaithful s t _ inst dev env rx msg hfills hdev hlen hrx hq u v [] true
      calls rfl rfl hv c hc (blankDev frameLen m) (by rw [hinst, List.getElem?_map, hj']; rfl)
    exact h msg.1 msg.2 hdlen hoff hchain c (hcalls ▸ hc) hinst hmatch
  · obtain ⟨r, hr, rfl⟩ := List.mem_map.mp hd
    rw [hrest r hr]
    exact BitVec.eq_of_toNat_eq hz

/-- Behind a payload the end of the first record is not reached. -/
theorem not_diagFaithful_of_frame [Inhabited β] (hcir : b.cirEnabled = false) {n : ℕ} (hn : 0 < n)
    {verboseRxDiag singleReceiverPdoa : Bool}
    (hcall : verboseRxDiag = false → singleReceiverPdoa = true) {frameLen : BitVec 16}
    (hframe : frameLen ≠ 0) :
    ¬ DiagFaithful β b n true verboseRxDiag singleReceiverPdoa frameLen := by
  obtain ⟨fn, huse⟩ := exists_mem_calcs hn hcall
  obtain ⟨m, hm, hlast⟩ := exists_rxdiag b.diag 1
  have hpos : 0 < frameLen.toNat := Nat.pos_of_ne_zero fun h ↦ hframe (BitVec.eq_of_toNat_eq h)
  have hsize := b.diag.size_lt
  refine not_diagFaithful_of_ne hcir (show [m].length ≤ n from hn) (by simp [hm]) rfl huse
    fun hdr om hdlen hoff hdata c hc _ heq ↦ ?_
  have hchain : om.data.length = frameLen.toNat + b.diag.maxlen := by
    rw [hdata, List.map_cons, writeAll_diagWrites_cons _ _ (by simp)]
    simp [diagWrites, diagOf, rxdLen, blankDev, hm]
  have hstale : c.diag (b.diag.maxlen - 1) = 0 :=
    callAll_apply_of_le (by rw [hdlen, hoff]; omega) hc
  have hbyte := congrArg (fun bs ↦ bs.getD (b.diag.maxlen - 1) 0) heq
  simp only [hm] at hbyte
  rw [getD_fetch _ (by omega), getD_fetch _ (by omega), hstale, hlast] at hbyte
  cases hbyte

omit [DecidableEq β] in
/-- The second record is looked for before the end of the first one, when it is shorter. -/
theorem readDiag_one_apply_zero {L : RxdiagLayout} {hdr : UwbMsgHdr} {om : Mbuf β}
    (hdlen : hdr.dlen = 0) (hoff : hdr.diagOffset = 0) {m₀ m₁ : Mem}
    (hm₁ : (L.rxdLen m₁).toNat = L.maxlen - 1)
    (hdata : om.data = fetch m₀ L.maxlen ++ fetch m₁ (L.maxlen - 1)) (buf : Mem) :
    readDiag L hdr om 1 buf 0 = m₀ (L.maxlen - 1) := by
  have hpos := L.size_pos
  have hsize := L.size_lt
  have hlen : om.data.length = L.maxlen + (L.maxlen - 1) := by simp [hdata]
  let head := (osMbufCopydata om L.maxlen L.size buf).1
  have hhead : Agree L.size head m₁ := by
    intro k hk
    simp only [head]
    rw [osMbufCopydata_apply, if_pos ⟨hk, by omega⟩, hdata,
      List.getD_append_right _ _ _ _ (by simp), length_fetch, Nat.add_sub_cancel_left,
      getD_fetch _ (by omega)]
  have hread : readDiag L hdr om 1 buf =
      (osMbufCopydata om (L.rxdLen head).toNat (L.rxdLen head).toNat head).1 := by
    simp [readDiag, hdlen, hoff, head]
  rw [hread, L.rxdLen_congr head m₁ hhead, hm₁, osMbufCopydata_apply, if_pos (by omega), hdata,
    Nat.add_zero, List.getD_append _ _ _ _ (by rw [length_fetch]; omega), getD_fetch _ (by omega)]

theorem not_diagFaithful_of_two [Inhabited β] (hcir : b.cirEnabled = false) {n : ℕ} (hn : 2 ≤ n)
    (singleReceiverPdoa : Bool) : ¬ DiagFaithful β b n true true singleReceiverPdoa 0 := by
  have hpos := b.diag.size_pos
  have hsize := b.diag.size_lt
  obtain ⟨m₁, hm₁⟩ := b.diag.exists_rxdLen (b.diag.maxlen - 1) (by omega)
  obtain ⟨m₀, hm₀, hlast⟩ := exists_rxdiag b.diag (m₁ 0 + 1)
  refine not_diagFaithful_of_ne hcir (show [m₀, m₁].length ≤ n from hn) (by simp [hm₀, hm₁]) rfl
    (@rssi_mem_calcs n singleReceiverPdoa 1 hn) fun hdr om hdlen hoff hdata c hc hinst heq ↦ ?_
  have hchain : om.data = fetch m₀ b.diag.maxlen ++ fetch m₁ (b.diag.maxlen - 1) := by
    rw [hdata, List.map_cons, List.map_cons, writeAll_diagWrites_cons _ _ (by simp),
      writeAll_diagWrites_cons _ _ (by simp [diagOf])]
    simp [diagWrites, diagOf, rxdLen, blankDev, hm₀, hm₁]
  obtain ⟨-, buf, hread⟩ := exists_readDiag_of_mem hc
  have hbyte := congrArg (fun bs ↦ bs.getD 0 0) heq
  simp only [hm₁] at hbyte
  rw [getD_fetch _ (by omega), getD_fetch _ (by omega), hread, hinst,
    readDiag_one_apply_zero hdlen hoff hm₁ hchain, hlast] at hbyte
  simp at hbyte

/-- The record behind 65536 bytes of records starts the chain. -/
theorem writeAll_diagWrites_round {q : ℕ} {m₀ r m₁ : Mem} (hr : 0 < (b.diag.rxdLen r).toNat)
    (hround : q * (b.diag.rxdLen m₀).toNat + (b.diag.rxdLen r).toNat = 65536) :
    ∃ rest, writeAll [] (diagWrites b 0 ((List.replicate q m₀ ++ [r, m₁]).map (blankDev 0))) =
      diagOf b (blankDev 0 m₁) ++ rest := by
  have hsum : (((List.replicate q m₀).map (blankDev 0)).map fun d ↦ (rxdLen b d).toNat).sum =
      q * (b.diag.rxdLen m₀).toNat := by
    simp [rxdLen, blankDev]
  obtain ⟨more, offset, hmore, hoffset, hall⟩ := @exists_writeAll_diagWrites b [] 0
    ((List.replicate q m₀).map (blankDev 0)) ([r, m₁].map (blankDev 0)) rfl
    (by rw [hsum, List.length_nil]; omega)
  have hzero : (offset + rxdLen b (blankDev 0 r)).toNat = 0 := by
    rw [BitVec.toNat_add, hoffset, List.nil_append, hmore, hsum]
    exact Nat.mod_eq_zero_of_dvd ⟨1, hround⟩
  refine ⟨(more ++ diagOf b (blankDev 0 r)).drop (diagOf b (blankDev 0 m₁)).length, ?_⟩
  rw [List.map_append, hall, List.map_cons, writeAll_diagWrites_cons _ _ hoffset]
  rw [List.map_cons, diagWrites, hzero]
  simp [diagWrites, splice]

/-- With enough devices `offset` comes round to the start of the chain, and the first record is
written over. -/
theorem not_diagFaithful_of_wrap [Inhabited β] (hcir : b.cirEnabled = false) {n : ℕ}
    {verboseRxDiag singleReceiverPdoa : Bool}
    (hcall : verboseRxDiag = false → singleReceiverPdoa = true)
    (hwrap : 65536 ≤ (n - 1) * b.diag.maxlen) :
    ¬ DiagFaithful β b n true verboseRxDiag singleReceiverPdoa 0 := by
  have hsize := b.diag.size_lt
  obtain ⟨m₀, hm₀, hlast₀⟩ := exists_rxdiag b.diag 0
  obtain ⟨m₁, hm₁, hlast₁⟩ := exists_rxdiag b.diag 1
  have hmax := (b.diag.rxdLen m₀).isLt
  -- as many records of the greatest length as fit, and one that fills the 16 bits
  obtain ⟨q, hq⟩ : ∃ q, 65535 / b.diag.maxlen = q + 1 :=
    Nat.exists_eq_succ_of_ne_zero (Nat.div_ne_zero_iff.mpr ⟨by omega, by omega⟩)
  have hdiv := Nat.div_add_mod 65535 b.diag.maxlen
  have hmod := Nat.mod_lt 65535 (show 0 < b.diag.maxlen by omega)
  rw [hq, Nat.mul_comm] at hdiv
  obtain ⟨r, hr⟩ := b.diag.exists_rxdLen (65535 % b.diag.maxlen + 1) hmod
  have hcount : q + 3 ≤ n := by
    by_contra hlt
    have := Nat.mul_le_mul_right b.diag.maxlen (show n - 1 ≤ q + 1 by omega)
    omega
  obtain ⟨fn, huse⟩ := @exists_mem_calcs n _ _ (by omega) hcall
  refine @not_diagFaithful_of_ne β _ b _ hcir n _ _ 0 (List.replicate (q + 1) m₀ ++ [r, m₁])
    (by simpa using hcount) (fun m hm ↦ ?_) 0 m₀ (by simp [List.replicate_succ]) fn huse
    fun hdr om hdlen hoff hdata c hc hinst heq ↦ ?_
  · rcases List.mem_append.mp hm with hm | hm
    · exact (List.eq_of_mem_replicate hm ▸ hm₀).le
    · rcases List.mem_pair.mp hm with rfl | rfl
      · exact hr.trans_le hmod
      · exact hm₁.le
  · obtain ⟨rest, hround⟩ := @writeAll_diagWrites_round b (q + 1) m₀ r m₁ (by omega)
      (by rw [hm₀, hr]; omega)
    obtain ⟨-, buf, hread⟩ := exists_readDiag_of_mem hc
    have hfound := fetch_readDiag hdlen hoff (hdata.trans hround) buf
    rw [← hinst, ← hread] at hfound
    -- both are of the greatest length, and end differently
    have hlen : rxdLen b (blankDev 0 m₁) = b.diag.rxdLen m₀ :=
      BitVec.eq_of_toNat_eq (hm₁.trans hm₀.symm)
    rw [diagOf, hlen, heq, hm₀] at hfound
    have hbyte := congrArg (fun bs ↦ bs.getD (b.diag.maxlen - 1) 0) hfound
    rw [getD_fetch _ (by omega), getD_fetch _ (by omega), hlast₀] at hbyte
    cases hbyte.trans hlast₁

/-! ## When the records are found -/

section Found

variable {n : ℕ} {verboseRxDiag singleReceiverPdoa : Bool} {frameLen : BitVec 16}

theorem diagFaithful_of_off :
    DiagFaithful β b n false verboseRxDiag singleReceiverPdoa frameLen := by
  intro s t devs inst dev env rx msg hfills _ _ _ _ u v rest json calls _ _ _ c _ d hd
  rw [diagOf, hfills.off rfl d (List.mem_of_getElem? hd)]
  rfl

/-- Nothing is passed on. -/
theorem diagFaithful_of_no_call (diagOn : Bool) :
    DiagFaithful β b n diagOn false false frameLen := by
  intro s t devs inst dev env rx msg _ _ _ _ _ u v rest json calls hu hverbose hv c hc
  rcases calls_of_process hu hv with rfl | rfl
  · rw [hverbose] at hc
    cases hc
  · cases hc

theorem sum_rxdLen_le {devs : List UwbDev} (h : ∀ d ∈ devs, (rxdLen b d).toNat ≤ b.diag.maxlen) :
    (devs.map fun d ↦ (rxdLen b d).toNat).sum ≤ devs.length * b.diag.maxlen := by
  induction devs with
  | nil => exact Nat.zero_le _
  | cons d devs ih =>
    have hd := h d List.mem_cons_self
    have hdevs := ih fun e he ↦ h e (List.mem_cons_of_mem d he)
    rw [List.map_cons, List.sum_cons, List.length_cons, Nat.succ_mul]
    omega

/-- The other records go behind the first one. -/
theorem exists_append_of_fills {diagOn : Bool} {d : UwbDev} {devs : List UwbDev}
    (hfills : Fills b n diagOn (d :: devs)) (hlt : (n - 1) * b.diag.maxlen < 65536) :
    ∃ more, writeAll (diagOf b d) (diagWrites b (0 + rxdLen b d) devs) = diagOf b d ++ more := by
  rcases List.eq_nil_or_concat devs with rfl | ⟨init, last, rfl⟩
  · exact ⟨[], by simp [diagWrites]⟩
  · have hsum : ((d :: init).map fun d ↦ (rxdLen b d).toNat).sum ≤
        (d :: init).length * b.diag.maxlen := by
      refine sum_rxdLen_le fun e he ↦ hfills.le_maxlen e ?_
      rw [List.concat_eq_append]
      exact List.mem_append_left [last] he
    have hn : n - 1 = (d :: init).length := by
      simp [← hfills.length_eq]
    rw [List.map_cons, List.sum_cons, ← hn] at hsum
    obtain ⟨more, offset, -, hoffset, hall⟩ :=
      @exists_writeAll_diagWrites b (diagOf b d) (0 + rxdLen b d) init [last]
        (by simp [diagOf]) (by rw [diagOf, length_fetch]; omega)
    refine ⟨more ++ diagOf b last, ?_⟩
    rw [List.concat_eq_append, hall, writeAll_diagWrites_cons _ _ hoffset]
    simp [diagWrites]

/-- Behind an empty frame, the first record is found by every call that looks for it. -/
theorem diagFaithful_of_first (hcir : b.cirEnabled = false) (diagOn : Bool)
    (hfirst : n = 1 ∨ verboseRxDiag = false) (hlt : (n - 1) * b.diag.maxlen < 65536) :
    DiagFaithful β b n diagOn verboseRxDiag singleReceiverPdoa 0 := by
  intro s t devs inst dev env rx msg hfills hdev hlen hrx hq u v q json calls hu hverbose hv c hc
    d hd
  obtain ⟨hdlen, hoff, hdata⟩ := message_of_queued hcir hdev hrx hq
  rcases calls_of_process hu hv with rfl | rfl
  · obtain ⟨huse, buf, hread⟩ := exists_readDiag_of_mem hc
    have hinst : c.inst = 0 := inst_eq_zero_of_mem_calcs hfirst (hverbose ▸ huse)
    obtain ⟨devs, rfl⟩ : ∃ rest, devs = d :: rest := by
      rw [hinst] at hd
      exact ⟨devs.tail, (List.cons_head?_tail (by rwa [List.head?_eq_getElem?])).symm⟩
    rw [hlen, writeAll_diagWrites_cons _ _ (by simp)] at hdata
    obtain ⟨more, hmore⟩ := exists_append_of_fills hfills hlt
    rw [hread, hinst]
    exact fetch_readDiag (hdlen.trans hlen) (hoff.trans hlen) (hdata.trans hmore) buf
  · cases hc

end Found

/-- **Reading the diagnostics back.**  In a build without `CIR_ENABLED`, the calls for a message get
the diagnostics that were stored with it, whatever these are, exactly when there are none at all,
when the settings ask for no call, or when the frame is empty, only the first record is looked for,
and the 16 bits of `offset` do not come round to it. -/
theorem diagFaithful_iff [Inhabited β] (hcir : b.cirEnabled = false) (n : ℕ)
    (diagOn verboseRxDiag singleReceiverPdoa : Bool) (frameLen : BitVec 16) :
    DiagFaithful β b n diagOn verboseRxDiag singleReceiverPdoa frameLen ↔
      diagOn = false ∨ n = 0 ∨ (verboseRxDiag = false ∧ singleReceiverPdoa = false) ∨
        (frameLen = 0 ∧
          (n = 1 ∨ (verboseRxDiag = false ∧ (n - 1) * b.diag.maxlen < 65536))) := by
  constructor
  · intro h
    by_contra hne
    push Not at hne
    obtain ⟨hon, hn, hcalled, hcond⟩ := hne
    obtain rfl : diagOn = true := by simpa using hon
    have hcall : verboseRxDiag = false → singleReceiverPdoa = true := by simpa using hcalled
    by_cases hframe : frameLen = 0
    · subst hframe
      obtain ⟨hone, hwrap⟩ := hcond rfl
      cases verboseRxDiag with
      | false => exact not_diagFaithful_of_wrap hcir hcall (hwrap rfl) h
      | true => exact not_diagFaithful_of_two hcir (by omega) singleReceiverPdoa h
    · exact not_diagFaithful_of_frame hcir (Nat.pos_of_ne_zero hn) hcall hframe h
  · rintro (rfl | rfl | ⟨rfl, rfl⟩ | ⟨rfl, rfl | ⟨rfl, hlt⟩⟩)
    · exact diagFaithful_of_off
    · intro s t devs inst dev env rx msg hfills hdev
      rw [List.length_eq_zero_iff.mp hfills.length_eq] at hdev
      simp at hdev
    · exact diagFaithful_of_no_call diagOn
    · exact diagFaithful_of_first hcir diagOn (Or.inl rfl) (by simp)
    · exact diagFaithful_of_first hcir diagOn (Or.inr rfl) hlt

theorem diagFaithful_one_empty_frame : DiagFaithful ℕ (sampleBuild false) 1 true true false 0 :=
  (diagFaithful_iff rfl 1 true true false 0).mpr (by decide)

/-- One device with a record of four bytes, behind a payload of twelve. -/
theorem not_recordsMatch_blink :
    ∃ (t v : State ℕ) (env : Env ℕ) (rx : List Call) (calls : List CalcCall),
      rxCompleteCb (sampleBuild false) ⟨∅, [], fun _ ↦ 0, 0, true⟩
        [sampleDev 12 [4, 0, 0xaa, 0xbb]] 0 env = some (t, rx, .queued) ∧
      processRxDataQueue (sampleBuild false) 1 false true t = some (v, calls) ∧
      calls.map (fun c ↦ fetch c.diag 4) = [[0, 0, 0, 0], [0, 0, 0, 0]] ∧
      ¬ RecordsMatch (sampleBuild false) [sampleDev 12 [4, 0, 0xaa, 0xbb]] calls := by
  refine ⟨_, _, ⟨0, some 0, [⟨[], true⟩, ⟨[], true⟩], [], true⟩, _, _, rfl, rfl, by decide,
    fun h ↦ ?_⟩
  have hrecord := h _ List.mem_cons_self _ rfl
  revert hrecord
  decide

end UwbApps.Listener
