import UwbApps.Listener.Capture

/-!
# Where the impulse responses go

A message is made of three kinds of sections: the payload, the diagnostics behind it, and the
impulse responses.  `rx_complete_cb` counts `offset` on over the diagnostics and notes it as
`hdr->cir_offset`, but writes the impulse responses from `hdr->dlen` on, where the diagnostics are.

`sectionsKept_iff` says when the sections keep out of each other's way: exactly when there are no
diagnostics at all.
-/

set_option autoImplicit false

open Octets

namespace UwbApps.Listener

open Os

/-- The sections of the message do not overlap, and the impulse responses leave what was there. -/
structure SectionsKept (b : Build) (accSamplesToLoad : ℕ) (devs : List UwbDev) (dev : UwbDev) :
    Prop where
  disjoint : (frontWrites b devs dev ++ cirWrites b accSamplesToLoad devs dev).Pairwise
    Write.Disjoint
  payload : ∀ k < dev.frameLen.toNat, (messageOf b accSamplesToLoad devs dev).getD k 0 =
    (writeAll [] (frontWrites b devs dev)).getD k 0
  diag : ∀ k, (hdrOf b 0 devs dev).diagOffset.toNat ≤ k →
    k < (hdrOf b 0 devs dev).cirOffset.toNat →
      (messageOf b accSamplesToLoad devs dev).getD k 0 =
        (writeAll [] (frontWrites b devs dev)).getD k 0

variable {b : Build}

/-! ## The impulse responses -/

theorem le_off_of_mem_cirWritesFrom {dlen i : ℕ} {devs : List UwbDev} {w : Write}
    (h : w ∈ cirWritesFrom b dlen i devs) : dlen + i * b.sizeofCir ≤ w.off := by
  induction devs generalizing i with
  | nil => simp [cirWritesFrom] at h
  | cons d devs ih =>
    rcases List.mem_cons.mp h with rfl | h
    · exact le_refl _
    · have hnext := ih h
      rw [Nat.succ_mul] at hnext
      omega

/-- The impulse responses lie one behind the other. -/
theorem pairwise_cirWritesFrom (dlen i : ℕ) (devs : List UwbDev) :
    (cirWritesFrom b dlen i devs).Pairwise Write.Disjoint := by
  induction devs generalizing i with
  | nil => exact List.Pairwise.nil
  | cons d devs ih =>
    refine List.Pairwise.cons (fun w hw k ↦ ?_) (ih (i + 1))
    have hoff := le_off_of_mem_cirWritesFrom hw
    rw [Nat.succ_mul] at hoff
    rintro ⟨⟨-, hlt⟩, hle, -⟩
    rw [length_fetch] at hlt
    simp only at hlt
    omega

/-- They start right behind the payload. -/
theorem exists_cirWrite_covers {dlen : ℕ} {devs : List UwbDev} (h : devs ≠ []) :
    ∃ w ∈ cirWritesFrom b dlen 0 devs, w.Covers dlen := by
  obtain ⟨d, devs, rfl⟩ := List.exists_cons_of_ne_nil h
  refine ⟨_, List.mem_cons_self, ?_, ?_⟩
  · simp
  · have := b.sizeofCir_pos
    simp only [length_fetch]
    omega

/-! ## The diagnostics -/

/-- The first record that is not empty starts where the payload ends. -/
theorem rxdLen_eq_zero_of_not_covers {offset : BitVec 16} {devs : List UwbDev}
    (h : ∀ w ∈ diagWrites b offset devs, ¬ w.Covers offset.toNat) :
    ∀ d ∈ devs, rxdLen b d = 0 := by
  induction devs with
  | nil => simp
  | cons d devs ih =>
    have hzero : rxdLen b d = 0 := by
      by_contra hne
      refine h _ List.mem_cons_self ⟨le_refl _, ?_⟩
      have hpos : 0 < (rxdLen b d).toNat :=
        Nat.pos_of_ne_zero fun h0 ↦ hne (BitVec.eq_of_toNat_eq h0)
      simp only [diagOf, length_fetch]
      omega
    rintro d' hd'
    rcases List.mem_cons.mp hd' with rfl | hd'
    · exact hzero
    · refine ih (fun w hw ↦ h w (List.mem_cons_of_mem _ ?_)) d' hd'
      rw [hzero]
      simpa using hw

theorem diagEnd_of_zero {offset : BitVec 16} {devs : List UwbDev}
    (h : ∀ d ∈ devs, rxdLen b d = 0) : diagEnd b offset devs = offset := by
  induction devs generalizing offset with
  | nil => rfl
  | cons d devs ih =>
    have hrest := @ih offset fun d' hd' ↦ h d' (List.mem_cons_of_mem d hd')
    rw [diagEnd, h d List.mem_cons_self]
    simpa using hrest

theorem disjoint_of_nil_left {v w : Write} (h : v.bytes = []) : v.Disjoint w := by
  rintro k ⟨⟨hle, hlt⟩, -⟩
  rw [h, List.length_nil] at hlt
  omega

theorem disjoint_of_nil_right {v w : Write} (h : w.bytes = []) : v.Disjoint w := by
  rintro k ⟨-, hle, hlt⟩
  rw [h, List.length_nil] at hlt
  omega

/-! ## The message -/

variable {accSamplesToLoad : ℕ} {devs : List UwbDev} {dev : UwbDev}

/-- Without diagnostics the sections lie one behind the other. -/
theorem pairwise_of_zero (h : ∀ d ∈ devs, rxdLen b d = 0) :
    (frontWrites b devs dev ++ cirWritesFrom b dev.frameLen.toNat 0 devs).Pairwise
      Write.Disjoint := by
  have hnil : ∀ w ∈ diagWrites b dev.frameLen devs, w.bytes = [] :=
    fun _ hw ↦ bytes_of_mem_diagWrites h hw
  rw [frontWrites, List.cons_append, List.pairwise_cons, List.pairwise_append]
  refine ⟨fun w hw ↦ ?_, ?_, pairwise_cirWritesFrom _ 0 devs, fun v hv w _ ↦ ?_⟩
  · rcases List.mem_append.mp hw with hw | hw
    · exact disjoint_of_nil_right (hnil w hw)
    · have hoff := le_off_of_mem_cirWritesFrom hw
      rintro k ⟨⟨-, hlt⟩, hle, -⟩
      rw [length_fetch] at hlt
      simp only at hlt
      omega
  · exact List.pairwise_of_forall_mem_list fun v hv w _ ↦ disjoint_of_nil_left (hnil v hv)
  · exact disjoint_of_nil_left (hnil v hv)

theorem sectionsKept_iff_of_load (hcir : b.cirEnabled = true) (hload : 0 < accSamplesToLoad)
    (hdevs : devs ≠ []) :
    SectionsKept b accSamplesToLoad devs dev ↔ ∀ d ∈ devs, rxdLen b d = 0 := by
  have hcirs : cirWrites b accSamplesToLoad devs dev =
      cirWritesFrom b dev.frameLen.toNat 0 devs := if_pos ⟨hcir, by omega⟩
  constructor
  · intro hkept
    refine @rxdLen_eq_zero_of_not_covers b dev.frameLen devs fun w hw hcovers ↦ ?_
    obtain ⟨c, hc, hcc⟩ := @exists_cirWrite_covers b dev.frameLen.toNat devs hdevs
    have hpair := (List.pairwise_append.mp hkept.disjoint).2.2
    rw [hcirs] at hpair
    exact hpair w (List.mem_cons_of_mem _ hw) c hc dev.frameLen.toNat ⟨hcovers, hcc⟩
  · intro hzero
    refine ⟨hcirs ▸ pairwise_of_zero hzero, fun k hk ↦ ?_, fun k hk hk' ↦ ?_⟩
    · rw [messageOf, writeAll_append]
      refine getD_writeAll (cirWrites_fit b accSamplesToLoad devs dev) fun w hw hcovers ↦ ?_
      rw [hcirs] at hw
      have hoff := le_off_of_mem_cirWritesFrom hw
      have hle := hcovers.1
      omega
    · -- there is nothing between the two offsets
      have hend : (hdrOf b 0 devs dev).cirOffset = dev.frameLen := by
        simp only [hdrOf, hcir, if_true]
        exact diagEnd_of_zero hzero
      have hstart : (hdrOf b 0 devs dev).diagOffset = dev.frameLen := by
        simp [hdrOf]
      rw [hstart] at hk
      rw [hend] at hk'
      omega

/-- **Where the impulse responses go.**  In a build with `CIR_ENABLED` and with samples to load, the
message that is queued has its sections apart, and its payload and diagnostics as they were stored,
exactly when no device has any diagnostics. -/
theorem sectionsKept_iff {β : Type*} [DecidableEq β] (hcir : b.cirEnabled = true) {s t : State β}
    (hload : 0 < s.accSamplesToLoad) {inst : ℕ} {env : Env β} {calls : List Call}
    (h : rxCompleteCb b s devs inst env = some (t, calls, .queued)) :
    ∃ dev om, devs[inst]? = some dev ∧
      t.rxpktQ = s.rxpktQ ++ [(hdrOf b env.utime devs dev, om)] ∧
      om.data = messageOf b s.accSamplesToLoad devs dev ∧
      (SectionsKept b s.accSamplesToLoad devs dev ↔ ∀ d ∈ devs, rxdLen b d = 0) := by
  obtain ⟨dev, om, hdev, hq, hdata⟩ := of_queued h
  refine ⟨dev, om, hdev, hq, hdata, sectionsKept_iff_of_load hcir hload ?_⟩
  rintro rfl
  simp at hdev

theorem sectionsKept_without_diag :
    SectionsKept (sampleBuild true) 1 [sampleDev 12 [0, 0]] (sampleDev 12 [0, 0]) := by
  have hs : (⟨∅, [], fun _ ↦ 0, 1, true⟩ : State ℕ).held = ∅ := rfl
  obtain ⟨t, env, calls, h⟩ := exists_queued (sampleBuild true) hs
    (show [sampleDev 12 [0, 0]][0]? = some (sampleDev 12 [0, 0]) from rfl) (by decide) rfl
  obtain ⟨dev, om, hdev, -, -, hiff⟩ := sectionsKept_iff rfl (by decide) h
  obtain rfl := Option.some.inj hdev
  exact hiff.mpr (by decide)

/-- The diagnostics of one device, and the impulse response over them. -/
theorem not_sectionsKept_with_diag :
    ∃ (t : State ℕ) (env : Env ℕ) (calls : List Call), rxCompleteCb (sampleBuild true)
        ⟨∅, [], fun _ ↦ 0, 1, true⟩ [sampleDev 12 [3, 0, 0x55]] 0 env = some (t, calls, .queued) ∧
      t.rxpktQ.map (fun msg ↦ msg.2.data) = [List.replicate 12 0 ++ [1, 2, 3, 4]] ∧
      ¬ SectionsKept (sampleBuild true) 1 [sampleDev 12 [3, 0, 0x55]]
        (sampleDev 12 [3, 0, 0x55]) := by
  refine ⟨_, ⟨0, some 0, [⟨[], true⟩, ⟨[], true⟩], [⟨[], true⟩], true⟩, _, rfl, by decide,
    fun h ↦ ?_⟩
  have hbyte := h.diag 12 (by decide) (by decide)
  revert hbyte
  decide

end UwbApps.Listener
