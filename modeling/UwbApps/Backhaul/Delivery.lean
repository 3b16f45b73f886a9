import UwbApps.Backhaul.Network
import Mathlib.Data.List.Chain
import Mathlib.Data.List.Forall2

/-!
# When nothing is lost

The network on a good day: every finished round goes on the air, the bridge receives the frames in
the order they were sent, it is in the bridge role when that matters and finds blocks for them, and
it has no packages of its own.

`delivered_once` says that then no package is lost, printed twice or out of turn, however the
producers, the radio and the printing interleave.  What could go wrong is the test for repeats: it
drops a frame with the source and the number of the frame before.  Two frames in a row are told
apart because producers have different addresses and each counts its rounds up, over the wrap of
the number too.
-/

set_option autoImplicit false

open Octets Packed Run

namespace UwbApps.Backhaul

open Os

variable {N : ℕ} {ι φ β : Type*} [DecidableEq ι] [DecidableEq β]

/-- What a good day allows in a state. -/
def Faithful (s : Network N ι β) : NetEvent ι φ β → Prop
  | .produce _ (.send _ dxTime err) _ => dxTime ≠ 0 ∧ err = false
  | .deliver k _ _ _ env => k = s.heard ∧ s.bridge.st.gRole = .bridge ∧ env.delivers
  | .bridge (.call .finishMsg) => s.bridge.st.gRole = .bridge
  | .bridge (.send ..) | .bridge (.sendImuOnly ..) => False
  | _ => True

instance decidableFaithful (s : Network N ι β) :
    ∀ e : NetEvent ι φ β, Decidable (Faithful s e)
  | .produce _ (.send _ dxTime err) _ => inferInstanceAs (Decidable (dxTime ≠ 0 ∧ err = false))
  | .produce _ (.setTs _) _ | .produce _ .setA2a _ | .produce _ (.setRole _) _ => .isTrue trivial
  | .deliver k _ _ _ env =>
    inferInstanceAs (Decidable (k = s.heard ∧ s.bridge.st.gRole = .bridge ∧ env.delivers))
  | .bridge (.call .finishMsg) => inferInstanceAs (Decidable (s.bridge.st.gRole = .bridge))
  | .bridge (.send ..) | .bridge (.sendImuOnly ..) => .isFalse id
  | .bridge (.call (.rx ..)) | .bridge (.call (.tx _)) | .bridge (.call (.localSend ..))
  | .bridge (.call .getMsg) | .bridge (.call (.setRole _)) | .bridge (.call (.listen ..))
  | .bridge (.call (.listenStep _)) => .isTrue trivial
  | .bridge (.setTs _) | .bridge .setA2a | .bridge (.sensorData ..) | .bridge (.battery _)
  | .bridge (.usb _) | .foreign .. => .isTrue trivial

/-- What the bridge tells repeats of the package by. -/
def pkgKey (p : RtdoabhTagResultsPkg N) : Key := (p.head.srcAddress, p.head.seqNum)

/-- The keys the bridge is to see, behind the one it remembers at first. -/
def keys (sent : List (RtdoabhTagResultsPkg N)) : List Key := initKey :: sent.map pkgKey

/-- The head of a backhaul broadcast. -/
structure Broadcast (head : IeeeRngRequestFrame) : Prop where
  fctrl : head.fctrl = FCNTL_IEEE_RTDOABH
  dstAddress : head.dstAddress = UWB_BROADCAST_ADDRESS
  code : head.code = DWT_RTDOABH_CODE

/-! ## One producer -/

/-- What a call does to the head of a producer's package: a send counts it up, and puts it on the
air. -/
theorem sendStep_head {D : Driver φ} {s : SendState N} {t : SendState N} {call : SendCall φ}
    (h : sendStep D s call = some t) :
    (∃ rtdoa dxTime err r, call = .send rtdoa dxTime err ∧
      rtdoaBackhaulSend D s.gRole s.gResultPkg rtdoa dxTime err = some r ∧
      r.pkg.head = t.gResultPkg.head ∧
      t.gResultPkg.head =
        { s.gResultPkg.head with
          seqNum := s.gResultPkg.head.seqNum + 1
          code := DWT_RTDOABH_CODE }) ∨
      (∀ rtdoa dxTime err, call ≠ .send rtdoa dxTime err) ∧
        t.gResultPkg.head = s.gResultPkg.head := by
  cases call with
  | send rtdoa dxTime err =>
    obtain ⟨r, hr, rfl⟩ := Option.map_eq_some_iff.mp h
    refine Or.inl ⟨rtdoa, dxTime, err, r, rfl, hr, ?_⟩
    obtain ⟨p₃, hp₃, rfl⟩ := Option.map_eq_some_iff.mp hr
    exact ⟨rfl, (sendRanges_eq_some hp₃ (Nat.zero_le N)).1.head⟩
  | setTs | setA2a | setRole =>
    cases h
    exact Or.inr ⟨nofun, rfl⟩

/-! ## One frame -/

omit [DecidableEq β] in
/-- A received package is accepted in the bridge role, and told by its key. -/
theorem accepts_received {p : RtdoabhTagResultsPkg N} (hhead : Broadcast p.head)
    (hnum : p.numRanges.toNat ≤ N) {tail : List UInt8}
    (hlen : (wire p).length + tail.length ≤ maxFrameLen) (rxbuf : Mem) (ts : BitVec 64)
    (address : BitVec 16) {s : State β} (hrole : s.gRole = .bridge) :
    Accepts s (received (wire p) tail rxbuf ts address) ∧
      rxKey (received (wire p) tail rxbuf ts address) = pkgKey p := by
  have hwire := length_wire p hnum
  have hmax : maxFrameLen = 1023 := rfl
  have hagree : Agree 53 (received (wire p) tail rxbuf ts address).rxbuf (load (encode p)) := by
    intro k hk
    rw [← agree_wire p k (by omega), ← @load_append_of_lt _ tail _ (by omega)]
    exact store_of_mem rxbuf (Nat.zero_le k) (by rw [List.length_append]; omega)
  have hrx : rxHead (received (wire p) tail rxbuf ts address) = p.head := by
    refine (headLayout).dec_of_agree _ _ fun k hk ↦ ?_
    have hk : k < 11 := hk
    rw [hagree k (by omega), encode_eq, List.append_assoc, load_append_of_lt
      (by rw [headLayout.length_enc]; exact hk)]
  have hfctrl : (received (wire p) tail rxbuf ts address).fctrl = p.head.fctrl := by
    rw [← hrx]
    rfl
  refine ⟨⟨⟨hfctrl.trans hhead.fctrl, ?_⟩, Or.inr (by rw [hrx, hhead.dstAddress]), hrole, ?_⟩, ?_⟩
  · rw [hrx, hhead.code]
    decide
  · simp only [received, BitVec.toNat_ofNat, sizeofSensorData_eq]
    omega
  · rw [rxKey, hrx, pkgKey]

/-- An accepted frame that is no repeat gets into the queue, and is remembered. -/
theorem queued_of_accepts {D : Driver φ} {s t : Bridge N β} {inst : UwbDev} {env : MbufEnv β}
    (hacc : Accepts s.st inst) (hkey : rxKey inst ≠ s.st.lastKey) (henv : env.delivers)
    (h : bridgeStep D s (.call (.rx inst env)) = some t) :
    (∃ om, pending t = pending s ++ [om] ∧
      om.data = fetch inst.rxbuf (msgDlen inst.frameLen.toNat)) ∧
      t.st.lastKey = rxKey inst := by
  obtain ⟨st, hst, rfl⟩ := Option.map_eq_some_iff.mp h
  obtain ⟨⟨st, exit⟩, hrx, rfl⟩ := Option.map_eq_some_iff.mp hst
  have hcase := rxCase_of_eq hrx
  obtain ⟨hlast, -, hqueued⟩ := rxCase_of_accepts hacc hcase
  obtain rfl : exit = .queued := hqueued.mpr ⟨hkey, henv⟩
  refine ⟨?_, hlast⟩
  cases hcase with
  | @queued _ _ _ om _ _ _ _ _ _ _ _ hdata =>
    have hrelease := fun u : State β ↦ sameStore_releaseIfTaken u
    refine ⟨om, ?_, hdata⟩
    rw [pending, pending, (hrelease _).om, (hrelease _).rxpktQ, List.append_assoc]
    exact congrArg (·.toList ++ (s.st.rxpktQ ++ [om])) (sameStore_rearm s.st inst).om

/-- A frame of another service changes neither the queue nor what is remembered. -/
theorem foreign_step {D : Driver φ} {s t : Bridge N β} {inst : UwbDev} {env : MbufEnv β}
    (hforeign : ¬ IsBackhaul inst) (h : bridgeStep D s (.call (.rx inst env)) = some t) :
    pending t = pending s ∧ t.st.lastKey = s.st.lastKey := by
  obtain ⟨st, hst, rfl⟩ := Option.map_eq_some_iff.mp h
  obtain ⟨⟨st, exit⟩, hrx, rfl⟩ := Option.map_eq_some_iff.mp hst
  have hstore := sameStore_rearm s.st inst
  cases rxCase_of_eq hrx with
  | foreign => exact ⟨by rw [pending, pending, hstore.om, hstore.rxpktQ], hstore.lastKey⟩
  | notAddressed hb | tooShort hb => exact absurd hb hforeign
  | repeated hacc | noMbuf hacc | copyFailed hacc | putFailed hacc | queued hacc =>
    exact absurd hacc.backhaul hforeign

omit [DecidableEq ι] in
/-- A call of the bridge's own that sends nothing prints what it takes from the queue, and forgets
nothing. -/
theorem own_step {D : Driver φ} {s : Network N ι β} {b : Bridge N β} {e : BridgeEvent φ β}
    (hown : e.own) (hfaithful : Faithful s (.bridge e))
    (h : bridgeStep D s.bridge e = some b) :
    printedMsgs s.bridge e ++ pending b = pending s.bridge ∧
      b.st.lastKey = s.bridge.st.lastKey := by
  obtain ⟨new, hqueue, hjoins⟩ := pending_step h
  obtain rfl : new = [] := by
    refine List.eq_nil_iff_forall_not_mem.mpr fun om hom ↦ ?_
    cases hjoins om hom with
    | rx | localSend => cases hown
    | send | sendImuOnly => cases hfaithful
  rw [List.append_nil] at hqueue
  cases e with
  | call e =>
    obtain ⟨st, hst, rfl⟩ := Option.map_eq_some_iff.mp h
    have hlast := (filter_step hst).1
    cases e with
    | finishMsg =>
      have hrole : s.bridge.st.gRole = .bridge := hfaithful
      exact ⟨by rw [printedMsgs, if_pos hrole]; exact hqueue, hlast⟩
    | rx | localSend => cases hown
    | tx | getMsg | setRole | listen | listenStep => exact ⟨hqueue, hlast⟩
  | send | sendImuOnly => cases hfaithful
  | setTs | setA2a | sensorData | battery | usb =>
    cases h
    exact ⟨hqueue, rfl⟩

/-! ## The network -/

/-- What a good day keeps: the frames on the air tell themselves apart, and the bridge has dealt
with as many as it has received. -/
structure DelInv (address : ι → BitVec 16) (stack : Mem)
    (printed sent : List (RtdoabhTagResultsPkg N)) (s : Network N ι β) : Prop where
  air : s.air = sent.map wire
  sentOk : ∀ p ∈ sent, p.numRanges.toNat ≤ N ∧ Broadcast p.head
  producer : ∀ i, Broadcast (s.producers i).gResultPkg.head ∧
    (s.producers i).gResultPkg.head.srcAddress = address i
  apart : (keys sent).IsChain (· ≠ ·)
  /-- A producer that sent the last frame has not counted on since. -/
  last : ∀ i, ∀ key ∈ (keys sent).getLast?, key.1 = address i →
    key.2 = (s.producers i).gResultPkg.head.seqNum
  heard : s.heard ≤ sent.length
  lastKey : (keys sent)[s.heard]? = some s.bridge.st.lastKey
  queue : List.Forall₂ Reads (printed ++ (pending s.bridge).map (printedPkg N stack))
    (sent.take s.heard)

omit [DecidableEq ι] in
/-- A step at the bridge that neither receives nor sends. -/
theorem DelInv.own {D : Driver φ} {address : ι → BitVec 16} {stack : Mem}
    {printed sent : List (RtdoabhTagResultsPkg N)} {s t : Network N ι β} {e : BridgeEvent φ β}
    (h : DelInv address stack printed sent s) (hown : e.own) (hfaithful : Faithful s (.bridge e))
    (hstep : s.atBridge D e = some t) :
    DelInv address stack (printed ++ (printedMsgs s.bridge e).map (printedPkg N stack)) sent t := by
  obtain ⟨b, hb, rfl⟩ := Option.map_eq_some_iff.mp hstep
  obtain ⟨hqueue, hlast⟩ := own_step hown hfaithful hb
  refine ⟨h.air, h.sentOk, h.producer, h.apart, h.last, h.heard, h.lastKey.trans ?_, ?_⟩
  · rw [← hlast]
  · rw [List.append_assoc, ← List.map_append, hqueue]
    exact h.queue

/-- A call at a producer. -/
theorem DelInv.produce {D : Driver φ} {address : ι → BitVec 16}
    (haddress : Function.Injective address) {stack : Mem}
    {printed sent : List (RtdoabhTagResultsPkg N)} {s t : Network N ι β} {i : ι}
    {call : SendCall φ} {tx : Mem} (h : DelInv address stack printed sent s)
    (hfaithful : Faithful s (.produce i call tx : NetEvent ι φ β))
    (hstep : netStep D s (.produce i call tx) = some t) :
    DelInv address stack printed (sent ++ airPkgs D s (.produce i call tx)) t := by
  obtain ⟨p, hp, rfl⟩ := Option.map_eq_some_iff.mp hstep
  obtain ⟨htrans, hnum⟩ := transmitted_eq D s i tx call
  obtain ⟨hbroad, hsrc⟩ := h.producer i
  -- the head of the producer afterwards
  have hproducer : Broadcast p.gResultPkg.head ∧ p.gResultPkg.head.srcAddress = address i := by
    rcases sendStep_head hp with ⟨_, _, _, _, -, -, -, hhead⟩ | ⟨-, hhead⟩
    · rw [hhead]
      exact ⟨⟨hbroad.fctrl, hbroad.dstAddress, rfl⟩, hsrc⟩
    · rw [hhead]
      exact ⟨hbroad, hsrc⟩
  have hproducers : ∀ j, Broadcast (Function.update s.producers i p j).gResultPkg.head ∧
      (Function.update s.producers i p j).gResultPkg.head.srcAddress = address j := by
    intro j
    rcases eq_or_ne j i with rfl | hne
    · rwa [Function.update_self]
    · rw [Function.update_of_ne hne]
      exact h.producer j
  rcases sendStep_head hp with ⟨rtdoa, dxTime, err, r, rfl, hr, hpkg, hhead⟩ | ⟨hno, hhead⟩
  · have hair : dxTime ≠ 0 ∧ err = false := hfaithful
    let q : RtdoabhTagResultsPkg N :=
      { r.pkg with refAnchorAddr := (s.producers i).gResultPkg.refAnchorAddr }
    have hq : airPkgs D s (.produce i (.send rtdoa dxTime err) tx : NetEvent ι φ β) = [q] := by
      rw [airPkgs, if_pos hair, hr]
      rfl
    rw [hq] at htrans hnum ⊢
    have hqhead : q.head = p.gResultPkg.head := hpkg
    have hkey : pkgKey q = (address i, (s.producers i).gResultPkg.head.seqNum + 1) := by
      rw [pkgKey, hqhead, hproducer.2, hhead]
    have hkeys : keys (sent ++ [q]) = keys sent ++ [pkgKey q] := by
      rw [keys, keys, List.map_append, List.map_singleton, List.cons_append]
    have hlt : s.heard < (keys sent).length := by
      rw [keys, List.length_cons, List.length_map]
      exact Nat.lt_succ_of_le h.heard
    refine ⟨?_, ?_, hproducers, ?_, ?_, ?_, ?_, ?_⟩
    · rw [htrans, List.map_append, h.air]
    · rintro p' hp'
      rcases List.mem_append.mp hp' with hold | hnew
      · exact h.sentOk p' hold
      · obtain rfl := List.mem_singleton.mp hnew
        exact ⟨hnum q hnew, by rw [hqhead]; exact hproducer.1⟩
    · rw [hkeys, List.isChain_append]
      refine ⟨h.apart, List.isChain_singleton _, fun x hx y hy heq ↦ ?_⟩
      obtain rfl : pkgKey q = y := Option.some.inj hy
      rw [hkey] at heq
      have hseq := h.last i x hx (congrArg Prod.fst heq)
      rw [heq] at hseq
      exact absurd hseq (by bv_omega)
    · intro j key hlast haddr
      rw [hkeys, List.getLast?_concat] at hlast
      obtain rfl : pkgKey q = key := Option.some.inj hlast
      rw [hkey] at haddr
      obtain rfl : i = j := haddress haddr
      show (pkgKey q).2 = (Function.update s.producers i p i).gResultPkg.head.seqNum
      rw [Function.update_self, pkgKey, hqhead]
    · rw [List.length_append]
      exact Nat.le_add_right_of_le h.heard
    · rw [hkeys, List.getElem?_append_left hlt]
      exact h.lastKey
    · rw [List.take_append_of_le_length h.heard]
      exact h.queue
  · have hq : airPkgs D s (.produce i call tx : NetEvent ι φ β) = [] := by
      cases call with
      | send rtdoa dxTime err => exact absurd rfl (hno rtdoa dxTime err)
      | setTs | setA2a | setRole => rfl
    rw [hq] at htrans ⊢
    rw [List.append_nil]
    refine ⟨?_, h.sentOk, hproducers, h.apart, fun j key hlast haddr ↦ ?_, h.heard, h.lastKey,
      h.queue⟩
    · rw [htrans, h.air]
      exact List.append_nil _
    · rw [h.last j key hlast haddr]
      show _ = (Function.update s.producers i p j).gResultPkg.head.seqNum
      rcases eq_or_ne j i with rfl | hne
      · rw [Function.update_self, hhead]
      · rw [Function.update_of_ne hne]

/-- A frame that is received in its turn. -/
theorem DelInv.deliver {D : Driver φ} {address : ι → BitVec 16} {stack : Mem}
    {printed sent : List (RtdoabhTagResultsPkg N)} {s t : Network N ι β} {tail : List UInt8}
    {rxbuf : Mem} {ts : BitVec 64} {env : MbufEnv β} (h : DelInv address stack printed sent s)
    (hrole : s.bridge.st.gRole = .bridge) (henv : env.delivers)
    (hstep : netStep D s (.deliver s.heard tail rxbuf ts env) = some t) :
    DelInv address stack printed sent t := by
  obtain ⟨frame, hframe, hstep⟩ := Option.bind_eq_some_iff.mp hstep
  split at hstep
  · next hlen =>
    rw [h.air, List.getElem?_map] at hframe
    obtain ⟨p, hp, rfl⟩ := Option.map_eq_some_iff.mp hframe
    obtain ⟨hnum, hbroad⟩ := h.sentOk p (List.mem_of_getElem? hp)
    obtain ⟨hacc, hkey⟩ := accepts_received hbroad hnum hlen rxbuf ts s.bridgeAddress hrole
    obtain ⟨b, hb, rfl⟩ := Option.map_eq_some_iff.mp hstep
    -- it is no repeat, since the keys in a row are apart
    have hnext : (keys sent)[s.heard + 1]? = some (pkgKey p) := by
      rw [keys, List.getElem?_cons_succ, List.getElem?_map, hp, Option.map_some]
    have hne : s.bridge.st.lastKey ≠ pkgKey p := by
      obtain ⟨hlt, hat⟩ := List.getElem?_eq_some_iff.mp hnext
      obtain ⟨_, hat'⟩ := List.getElem?_eq_some_iff.mp h.lastKey
      rw [← hat, ← hat']
      exact List.isChain_iff_getElem.mp h.apart s.heard hlt
    obtain ⟨⟨om, hqueue, hdata⟩, hlast⟩ :=
      queued_of_accepts hacc (by rw [hkey]; exact hne.symm) henv hb
    obtain ⟨hlt, hat⟩ := List.getElem?_eq_some_iff.mp hp
    refine ⟨h.air, h.sentOk, h.producer, h.apart, h.last, hlt, ?_, ?_⟩
    · rw [hlast, hkey]
      exact hnext
    · rw [hqueue, List.map_append, List.map_singleton, ← List.append_assoc,
        List.take_add_one, hp, Option.toList_some]
      exact List.rel_append h.queue
        (.cons (reads_received hnum hlen rxbuf ts _ hdata stack) .nil)
  · cases hstep

/-- **One step** of a good day. -/
theorem DelInv.step {D : Driver φ} {address : ι → BitVec 16}
    (haddress : Function.Injective address) {stack : Mem}
    {printed sent : List (RtdoabhTagResultsPkg N)} {s t : Network N ι β} {e : NetEvent ι φ β}
    (h : DelInv address stack printed sent s) (hfaithful : Faithful s e)
    (hstep : netStep D s e = some t) :
    DelInv address stack (printed ++ netPrinted stack s e) (sent ++ airPkgs D s e) t := by
  cases e with
  | produce i call tx =>
    show DelInv address stack (printed ++ []) (sent ++ airPkgs D s (.produce i call tx)) t
    rw [List.append_nil]
    exact h.produce haddress hfaithful hstep
  | deliver k tail rxbuf ts env =>
    obtain ⟨rfl, hrole, henv⟩ := hfaithful
    show DelInv address stack (printed ++ []) (sent ++ []) t
    rw [List.append_nil, List.append_nil]
    exact h.deliver hrole henv hstep
  | foreign inst env =>
    show DelInv address stack (printed ++ []) (sent ++ []) t
    rw [List.append_nil, List.append_nil]
    rw [netStep] at hstep
    split at hstep
    · cases hstep
    · next hforeign =>
      obtain ⟨b, hb, rfl⟩ := Option.map_eq_some_iff.mp hstep
      obtain ⟨hqueue, hlast⟩ := foreign_step hforeign hb
      refine ⟨h.air, h.sentOk, h.producer, h.apart, h.last, h.heard, h.lastKey.trans ?_, ?_⟩
      · rw [← hlast]
      · rw [hqueue]
        exact h.queue
  | bridge e =>
    show DelInv address stack (printed ++ (printedMsgs s.bridge e).map (printedPkg N stack))
      (sent ++ []) t
    rw [List.append_nil]
    rw [netStep] at hstep
    split at hstep
    · next hown => exact h.own hown hfaithful hstep
    · cases hstep

/-- **Every run** of good days keeps this. -/
theorem delInv_of_run (D : Driver φ) (stack : Mem) {address : ι → BitVec 16}
    (haddress : Function.Injective address) (bridgeAddress : BitVec 16)
    {es : List (NetEvent ι φ β)} {s : Network N ι β}
    (hrun : run (netStep D) (Network.init N address bridgeAddress) es = some s)
    (hfaithful : Each (netStep D) Faithful (Network.init N address bridgeAddress) es) :
    DelInv address stack
      (gather (netStep D) (netPrinted stack) (Network.init N address bridgeAddress) es)
      (gather (netStep D) (airPkgs D) (Network.init N address bridgeAddress) es) s := by
  have hinit : DelInv address stack [] []
      (Network.init N address bridgeAddress : Network N ι β) :=
    { air := rfl
      sentOk := nofun
      producer := fun i ↦ ⟨⟨rfl, rfl, rfl⟩, rfl⟩
      apart := List.isChain_singleton _
      last := fun i key hkey _ ↦ by
        obtain rfl : initKey = key := Option.some.inj hkey
        rfl
      heard := le_rfl
      lastKey := rfl
      queue := .nil }
  exact hfaithful.gather_invariant (I := DelInv address stack)
    (fun _ _ _ _ _ h hf hstep ↦ h.step haddress hf hstep) hinit hrun

/-- **Nothing is lost on a good day.**  With different addresses for the producers, in every run
from start-up whose steps are all faithful, what the bridge has printed, and then what still waits
in its queue, are the packages of the frames it has received: every one once, and in the order they
were sent. -/
theorem delivered_once (D : Driver φ) (stack : Mem) {address : ι → BitVec 16}
    (haddress : Function.Injective address) (bridgeAddress : BitVec 16)
    {es : List (NetEvent ι φ β)} {s : Network N ι β}
    (hrun : run (netStep D) (Network.init N address bridgeAddress) es = some s)
    (hfaithful : Each (netStep D) Faithful (Network.init N address bridgeAddress) es) :
    List.Forall₂ Reads
      (gather (netStep D) (netPrinted stack) (Network.init N address bridgeAddress) es ++
        (pending s.bridge).map (printedPkg N stack))
      ((gather (netStep D) (airPkgs D) (Network.init N address bridgeAddress) es).take
        s.heard) :=
  (delInv_of_run D stack haddress bridgeAddress hrun hfaithful).queue

theorem delivered_once_one_round :
    ∃ q p, gather (netStep addressDriver) (netPrinted fun _ ↦ 0xff)
        (Network.init 16 (fun _ ↦ 0x0102) 0x0001) sampleNetEvents = [q] ∧
      gather (netStep addressDriver) (airPkgs addressDriver)
        (Network.init 16 (fun _ ↦ 0x0102) 0x0001) sampleNetEvents = [p] ∧ Reads q p := by
  obtain ⟨s, hrun, hwaits, hheard⟩ : ∃ s, run (netStep addressDriver)
      (Network.init 16 (fun _ ↦ 0x0102) 0x0001) sampleNetEvents = some s ∧
      pending s.bridge = [] ∧ s.heard = 1 := ⟨_, rfl, rfl, rfl⟩
  obtain ⟨q, hq⟩ : ∃ q, gather (netStep addressDriver) (netPrinted fun _ ↦ 0xff)
      (Network.init 16 (fun _ ↦ 0x0102) 0x0001) sampleNetEvents = [q] := ⟨_, rfl⟩
  obtain ⟨p, hp⟩ : ∃ p, gather (netStep addressDriver) (airPkgs addressDriver)
      (Network.init 16 (fun _ ↦ 0x0102) 0x0001) sampleNetEvents = [p] := ⟨_, rfl⟩
  have hall := delivered_once addressDriver (fun _ ↦ 0xff)
    (Function.injective_of_subsingleton fun _ ↦ 0x0102) 0x0001 hrun (by decide +kernel)
  rw [hq, hp, hwaits, hheard] at hall
  exact ⟨q, p, hq, hp, (List.forall₂_cons.mp hall).1⟩

end UwbApps.Backhaul
