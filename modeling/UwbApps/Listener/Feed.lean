import Mathlib.Data.Int.Notation
import Mathlib.Data.List.TakeWhile
import UwbApps.Lib.Lines

/-!
# The lines a script reads

`listener_pdoa.py` takes its input from a socket or from a serial port, each with a generator of
its own: `readlinesSocket` and `readlinesSerial` are the same loop over what `recv` and `read`
return.  Strings are byte strings, as the script has them.

The loop cuts the lines out of a buffer that every result is added to (`yieldLines_eq`), and stops
at the first empty result (`readlinesLoop_eq`).  For a socket that is the end of the stream.  A port
opened with a timeout returns nothing also when the device was silent for that long.
-/

set_option autoImplicit false

namespace UwbApps.Listener

/-- `'\n'`, the default of `delim`, which no caller changes. -/
def delim : UInt8 := 10

/-- `buffer.find(delim)`. -/
def find (buffer : List UInt8) : ℤ := (buffer.idxOf? delim).elim (-1) Int.ofNat

/-- `line, buffer = buffer.split('\n', 1)`, where there is a delimiter. -/
def splitOnce (buffer : List UInt8) : List UInt8 × List UInt8 :=
  (buffer.take (buffer.idxOf delim), buffer.drop (buffer.idxOf delim + 1))

theorem find_ne_iff {buffer : List UInt8} : find buffer ≠ -1 ↔ delim ∈ buffer := by
  rw [find]
  rcases h : buffer.idxOf? delim with _ | i
  · simpa using List.idxOf?_eq_none_iff.mp h
  · have : buffer.idxOf? delim ≠ none := by simp [h]
    rw [Ne, List.idxOf?_eq_none_iff, not_not] at this
    simp only [Option.elim_some, this, iff_true, Int.ofNat_eq_natCast]
    omega

/-- A split takes the bytes before the first delimiter and those behind it. -/
theorem splitOnce_append {l : List UInt8} (h : delim ∉ l) (s : List UInt8) :
    splitOnce (l ++ delim :: s) = (l, s) := by
  have hidx : (l ++ delim :: s).idxOf delim = l.length := by
    rw [List.idxOf_append_of_notMem h, List.idxOf_cons_self, Nat.add_zero]
  rw [splitOnce, hidx, List.take_left, ← List.drop_drop, List.drop_left, List.drop_one,
    List.tail_cons]

/-- The inner loop: the lines it yields, and the buffer it leaves. -/
def yieldLines (buffer : List UInt8) : List (List UInt8) × List UInt8 :=
  if find buffer ≠ -1 then
    let split := splitOnce buffer
    let later := yieldLines split.2
    (split.1 :: later.1, later.2)
  else ([], buffer)
termination_by buffer.length
decreasing_by
  have := List.length_pos_of_mem (find_ne_iff.mp ‹_›)
  simp only [splitOnce, List.length_drop]
  omega

/-- **The inner loop takes out every line there is**, and leaves what is behind them. -/
theorem yieldLines_eq (buffer : List UInt8) :
    yieldLines buffer = (Lines.lines delim buffer, Lines.rest delim buffer) := by
  induction buffer using yieldLines.induct with
  | case1 buffer h split ih =>
    obtain ⟨l, s, rfl, hl⟩ := List.eq_append_cons_of_mem (find_ne_iff.mp h)
    have hsplit : split = (l, s) := splitOnce_append hl s
    rw [hsplit] at ih
    rw [yieldLines, if_pos h, splitOnce_append hl, Lines.lines_cons_line hl,
      Lines.rest_cons_line hl]
    simp only [ih]
  | case2 buffer h =>
    have hmem : delim ∉ buffer := fun hmem ↦ h (find_ne_iff.mpr hmem)
    rw [yieldLines, if_neg h, Lines.lines_of_notMem hmem, Lines.rest_of_notMem hmem]

/-! ## The generators -/

/-- What a generator has given: the lines it yielded, and whether it has returned. -/
structure Feed where
  yielded : List (List UInt8)
  returned : Bool
deriving DecidableEq

/-- The loop of both generators over the results of their reads, oldest first.  `data` starts as
`True`; where the results end, the loop waits for the next. -/
def readlinesLoop (buffer : List UInt8) : List (List UInt8) → Feed
  | [] => ⟨[], false⟩
  | data :: results =>
      let (ls, buffer') := yieldLines (buffer ++ data)
      if data = [] then ⟨ls, true⟩
      else
        let later := readlinesLoop buffer' results
        ⟨ls ++ later.yielded, later.returned⟩

/-- `readlines_socket`, over the results of `sock.recv`. -/
def readlinesSocket (results : List (List UInt8)) : Feed := readlinesLoop [] results

/-- `readlines_serial`, over the results of `sock.read`. -/
def readlinesSerial (results : List (List UInt8)) : Feed := readlinesLoop [] results

/-- What arrives before the first empty result. -/
def heard (results : List (List UInt8)) : List UInt8 := (results.takeWhile (· ≠ [])).flatten

/-- What arrives behind it. -/
def unheard (results : List (List UInt8)) : List UInt8 := (results.dropWhile (· ≠ [])).flatten

theorem heard_append_unheard (results : List (List UInt8)) :
    heard results ++ unheard results = results.flatten := by
  rw [heard, unheard, ← List.flatten_append, List.takeWhile_append_dropWhile]

/-- **What the loop gives**: the lines of what arrives before the first empty result, however it
is cut; that result is where it returns. -/
theorem readlinesLoop_eq (results : List (List UInt8)) {buffer : List UInt8}
    (hbuf : delim ∉ buffer) :
    readlinesLoop buffer results =
      ⟨Lines.lines delim (buffer ++ heard results), decide ([] ∈ results)⟩ := by
  induction results generalizing buffer with
  | nil => simp [readlinesLoop, heard, Lines.lines_of_notMem hbuf]
  | cons data results ih =>
    rw [readlinesLoop, yieldLines_eq]
    by_cases hdata : data = []
    · simp [hdata, heard]
    · have hheard : heard (data :: results) = data ++ heard results := by simp [heard, hdata]
      simp only [hdata, if_false, ih (Lines.notMem_rest delim _), hheard, ← List.append_assoc]
      rw [← Lines.lines_append]
      simp [Ne.symm hdata]

theorem readlinesSocket_eq (results : List (List UInt8)) :
    readlinesSocket results = ⟨Lines.lines delim (heard results), decide ([] ∈ results)⟩ :=
  readlinesLoop_eq results List.not_mem_nil

theorem readlinesSerial_eq (results : List (List UInt8)) :
    readlinesSerial results = ⟨Lines.lines delim (heard results), decide ([] ∈ results)⟩ :=
  readlinesLoop_eq results List.not_mem_nil

/-- A stream that ends with the one empty result is heard to its end. -/
theorem heard_closed {chunks : List (List UInt8)} (h : ∀ c ∈ chunks, c ≠ []) :
    heard (chunks ++ [[]]) = chunks.flatten := by
  rw [heard, List.takeWhile_append_of_pos (by simpa using h)]
  simp

/-- **A socket's feed is the lines of the stream**, wherever the reads cut it: each ended by a
newline, none with one inside, and nothing left out but what is behind the last. -/
theorem readlinesSocket_closed (chunks : List (List UInt8)) (h : ∀ c ∈ chunks, c ≠ []) :
    readlinesSocket (chunks ++ [[]]) = ⟨Lines.lines delim chunks.flatten, true⟩ ∧
      Lines.IsCut delim chunks.flatten (readlinesSocket (chunks ++ [[]])).yielded
        (Lines.rest delim chunks.flatten) := by
  have hfeed : readlinesSocket (chunks ++ [[]]) = ⟨Lines.lines delim chunks.flatten, true⟩ := by
    rw [readlinesSocket_eq, heard_closed h]
    simp
  refine ⟨hfeed, Lines.isCut_iff.mpr ⟨?_, rfl⟩⟩
  rw [hfeed]

/-- `ab⏎c⏎`, cut inside both lines. -/
theorem readlinesSocket_closed_ab :
    readlinesSocket ([[97], [98, 10, 99], [10]] ++ [[]]) = ⟨[[97, 98], [99]], true⟩ :=
  (readlinesSocket_closed [[97], [98, 10, 99], [10]] (by decide)).1

/-! ## Silence on the serial port -/

/-- What was missed is exactly the lines that end behind the first empty result. -/
theorem lines_heard_eq_iff (results : List (List UInt8)) :
    Lines.lines delim (heard results) = Lines.lines delim results.flatten ↔
      delim ∉ unheard results := by
  rw [← heard_append_unheard, Lines.lines_append, List.self_eq_append_right, Lines.lines_eq_nil_iff,
    List.mem_append, or_iff_right (Lines.notMem_rest delim _)]

/-- **When a serial port's feed is complete.**  It yields every line of what has arrived unless a
line ended behind an empty result, and goes on unless there was one. -/
theorem readlinesSerial_complete_iff (results : List (List UInt8)) :
    ((readlinesSerial results).yielded = Lines.lines delim results.flatten ∧
        (readlinesSerial results).returned = false ↔ [] ∉ results) ∧
      ((readlinesSerial results).yielded = Lines.lines delim results.flatten ↔
        delim ∉ unheard results) := by
  rw [readlinesSerial_eq]
  refine ⟨?_, lines_heard_eq_iff results⟩
  rw [lines_heard_eq_iff, decide_eq_false_iff_not, and_iff_right_iff_imp]
  intro h
  have hall : results.dropWhile (· ≠ []) = [] :=
    List.dropWhile_eq_nil_iff.mpr fun data hdata ↦ decide_eq_true (ne_of_mem_of_not_mem hdata h)
  rw [unheard, hall]
  exact List.not_mem_nil

/-- `{`, a second of silence, `}⏎`: the line never comes, and the feed is over. -/
theorem readlinesSerial_silence :
    ¬ ∀ results : List (List UInt8),
      (readlinesSerial results).yielded = Lines.lines delim results.flatten ∧
        (readlinesSerial results).returned = false := by
  intro h
  have h := (h [[123], [], [125, 10]]).1
  rw [readlinesSerial_eq] at h
  exact absurd h (by decide)

end UwbApps.Listener
