import UwbApps.Listener.Report

/-!
# Printing a report

`process_rx_data_queue` calls `mprintf` for every piece of the line, which appends it to a chain of
the system's buffers and asserts that it could.  `reportPieces` are the texts of these calls, in
order, and `printAll` is what they do to the chain.

`join_reportPieces` says that they are the line of the report, and `printAll_eq_some` what becomes
of the chain: it has the whole line once every append has succeeded.
-/

set_option autoImplicit false

open Octets Printf

namespace UwbApps.Listener

open Os

/-! ## The texts of the calls -/

section Pieces

variable (undef : CFloat → ℤ)

/-- A call for every element of a list. -/
def listPieces {α : Type} (text : α → String) (xs : List α) : List String :=
  xs.zipIdx.map fun (x, j) ↦ (if j = 0 then "" else ",") ++ text x

def rxDiagPieces : Option (List CFloat × List CFloat) → List String
  | none => []
  | some (rssi, fppl) =>
    [",\"rssi\":["] ++ listPieces (signalText undef) rssi ++ ["],\"fppl\":["] ++
      listPieces (signalText undef) fppl ++ ["]"]

def samplesPieces : Option (List ℤ × List ℤ) → List String
  | none => []
  | some (real, imag) =>
    [",\"real\":["] ++ listPieces dec real ++ ["],\"imag\":["] ++ listPieces dec imag ++ ["]"]

/-- The calls for an impulse response: up to `rts` it is one. -/
def cirPieces (c : CirReport) (j : ℕ) : List String :=
  [(if j = 0 then "" else ",") ++ "\x7b\"o\":" ++ dec c.offset ++ ",\"fp_idx\":" ++
    fpIdxText undef c.fpIdx ++ ",\"rcphase\":" ++ angleText undef c.rcphase ++ ",\"angle\":" ++
    angleText undef c.angle ++ ",\"rts\":" ++ dec c.rawTs] ++ samplesPieces c.samples ++ ["\x7d"]

def cirsPieces : Option (List CirReport) → List String
  | none => []
  | some cirs =>
    [",\"cir\":["] ++ (cirs.zipIdx.flatMap fun (c, j) ↦ cirPieces undef c j) ++ ["]"]

/-- The calls for a report. -/
def reportPieces (r : Report) : List String :=
  ["\x7b\"utime\":" ++ dec r.utime.toNat] ++
    ([",\"ts\":["] ++ listPieces (fun t ↦ dec t.toNat) r.ts ++ ["]"]) ++
    rxDiagPieces undef r.rxDiag ++ (r.ccor.toList.map fun x ↦ ccorPart undef (some x)) ++
    ([",\"pd\":["] ++ listPieces (phaseText undef) r.pdoa.toList ++
      listPieces (phaseText undef) r.pd) ++
    (["],\"dlen\":" ++ dec r.dlen.toNat] ++ [",\"d\":\""] ++
      (r.d.map fun c ↦ padZero 2 (hex c.toNat)) ++ ["\""]) ++
    cirsPieces undef r.cir ++ ["\x7d"]

theorem join_listPieces {α : Type} (text : α → String) (xs : List α) :
    String.join (listPieces text xs) = listText text xs :=
  rfl

theorem join_singleton (s : String) : String.join [s] = s := by
  rw [String.join_cons, String.join_nil, String.append_empty]

theorem join_rxDiagPieces (rxDiag : Option (List CFloat × List CFloat)) :
    String.join (rxDiagPieces undef rxDiag) = rxDiagText undef rxDiag := by
  rcases rxDiag with _ | ⟨rssi, fppl⟩
  · rfl
  · simp only [rxDiagPieces, rxDiagText, String.join_append, join_singleton, join_listPieces]

theorem join_samplesPieces (samples : Option (List ℤ × List ℤ)) :
    String.join (samplesPieces samples) = samplesText samples := by
  rcases samples with _ | ⟨real, imag⟩
  · rfl
  · simp only [samplesPieces, samplesText, String.join_append, join_singleton, join_listPieces]

theorem join_cirPieces (c : CirReport) (j : ℕ) :
    String.join (cirPieces undef c j) = (if j = 0 then "" else ",") ++ cirObject undef c := by
  unfold cirPieces cirObject
  simp only [String.join_append, join_singleton, join_samplesPieces, String.append_assoc]

theorem join_cirsPieces (cir : Option (List CirReport)) :
    String.join (cirsPieces undef cir) = cirText undef cir := by
  have hflat : ∀ ps : List (CirReport × ℕ),
      String.join (ps.flatMap fun (c, j) ↦ cirPieces undef c j) =
        String.join (ps.map fun (c, j) ↦ (if j = 0 then "" else ",") ++ cirObject undef c) := by
    intro ps
    induction ps with
    | nil => rfl
    | cons p ps ih =>
      rw [List.flatMap_cons, String.join_append, List.map_cons, String.join_cons, ih,
        join_cirPieces]
  rcases cir with _ | cirs
  · rfl
  · simp only [cirsPieces, cirText, String.join_append, join_singleton, hflat]
    rfl

/-- **The pieces are the line.** -/
theorem join_reportPieces (r : Report) :
    String.join (reportPieces undef r) = reportText undef r := by
  have hccor : String.join (r.ccor.toList.map fun x ↦ ccorPart undef (some x)) =
      ccorPart undef r.ccor := by
    cases r.ccor with
    | none => rfl
    | some x => exact join_singleton _
  unfold reportPieces reportText tsText pdText payloadText
  simp only [String.join_append, join_singleton, join_listPieces, join_rxDiagPieces,
    join_cirsPieces, hccor]
  -- the end of one list and the name behind it are printed together
  have hdlen : "],\"dlen\":" = "]" ++ ",\"dlen\":" := rfl
  rw [hdlen]
  simp only [String.append_assoc]

end Pieces

/-! ## What the calls do -/

variable {γ : Type*} [DecidableEq γ]

/-- The bytes of a text. -/
def bytesOf (text : String) : List UInt8 := text.toList.map fun c ↦ UInt8.ofNat c.toNat

/-- `mprintf` for one text after the other, up to the first that cannot be appended.  There is an
outcome for every call. -/
def printAll (held : Finset γ) (m : Mbuf γ) :
    List String → List (CopyOutcome γ) → Option (Finset γ × Mbuf γ × Bool)
  | [], [] => some (held, m, true)
  | text :: texts, o :: os =>
    (osMbufAppend held m (bytesOf text) o).bind fun (held, m, ok) ↦
      if ok then printAll held m texts os else some (held, m, false)
  | _, _ => none

omit [DecidableEq γ] in
theorem bytesOf_append (s t : String) : bytesOf (s ++ t) = bytesOf s ++ bytesOf t := by
  rw [bytesOf, String.toList_append, List.map_append]
  rfl

theorem printAll_cons {held held' : Finset γ} {m m' : Mbuf γ} {text : String} {texts : List String}
    {o : CopyOutcome γ} {os : List (CopyOutcome γ)} {ok : Bool}
    (h : printAll held m (text :: texts) (o :: os) = some (held', m', ok)) :
    ∃ held₁, BlockPool.takeAll held o.blocks = some held₁ ∧
      (o.ok = true ∧ printAll held₁ ⟨m.blocks ++ o.blocks, m.data ++ bytesOf text⟩ texts os =
          some (held', m', ok) ∨
        o.ok = false ∧ held' = held₁ ∧ m' = ⟨m.blocks ++ o.blocks, m.data⟩ ∧ ok = false) := by
  obtain ⟨⟨held₁, m₁, ok₁⟩, happend, h⟩ := Option.bind_eq_some_iff.mp h
  obtain ⟨held₁, htake, heq⟩ := Option.map_eq_some_iff.mp happend
  cases heq
  refine ⟨held₁, htake, ?_⟩
  cases hok : o.ok with
  | true =>
    simp only [hok, if_true] at h
    exact Or.inl ⟨rfl, h⟩
  | false =>
    simp only [hok, Bool.false_eq_true, if_false] at h
    cases h
    exact Or.inr ⟨rfl, rfl, rfl, rfl⟩

/-- All that calls of `mprintf` can do: they succeed if every append does, what the chain takes
from the pool stays in it, and once all have succeeded it has all the texts. -/
theorem printAll_eq_some {held held' : Finset γ} {m m' : Mbuf γ} {texts : List String}
    {os : List (CopyOutcome γ)} {ok : Bool} (h : printAll held m texts os = some (held', m', ok)) :
    ok = os.all CopyOutcome.ok ∧
      (∀ owners : Multiset γ, BlockPool.Owned held (↑m.blocks + owners) →
        BlockPool.Owned held' (↑m'.blocks + owners)) ∧
      (ok = true → m'.data = m.data ++ bytesOf (String.join texts)) := by
  induction texts generalizing held m os with
  | nil =>
    rcases os with _ | ⟨o, os⟩
    · cases h
      exact ⟨rfl, fun _ howned ↦ howned, fun _ ↦ (List.append_nil _).symm⟩
    · cases h
  | cons text texts ih =>
    rcases os with _ | ⟨o, os⟩
    · cases h
    obtain ⟨held₁, htake, hcase⟩ := printAll_cons h
    have hnext : ∀ owners : Multiset γ, BlockPool.Owned held (↑m.blocks + owners) →
        BlockPool.Owned held₁ (↑(m.blocks ++ o.blocks) + owners) := by
      intro owners howned
      rw [← Multiset.coe_add, Multiset.add_comm (m.blocks : Multiset γ), Multiset.add_assoc]
      exact howned.takeAll htake
    rw [List.all_cons]
    rcases hcase with ⟨hok, hrest⟩ | ⟨hok, rfl, rfl, rfl⟩
    · obtain ⟨hall, howned, hdata⟩ := ih hrest
      refine ⟨by rw [hok, Bool.true_and, hall], fun owners h ↦ howned owners (hnext owners h),
        fun htrue ↦ ?_⟩
      rw [hdata htrue, List.append_assoc, String.join_cons, bytesOf_append]
    · exact ⟨by rw [hok, Bool.false_and], hnext, fun htrue ↦ Bool.noConfusion htrue⟩

end UwbApps.Listener
