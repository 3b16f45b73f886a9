import UwbApps.Lib.Mailbox
import UwbApps.Lib.Run
import UwbApps.Listener.Console

/-!
# The viewer

`listener_pdoa.py` has two processes with a queue between them.  `input_thread` reads the lines and
puts what `json.loads` makes of them into the queue, unless there are a hundred in it already, and
`'Q'` when the lines have ended.  `updateplot` is called by a timer, takes one thing out of the
queue and appends it to the history, of which it keeps the last 10000.  Every so many calls it draws
histograms of some fields of the history, outside of any `try`.

`viewerStep` is a step of either of them or one of the buttons, in any order.  `viewer_run` says
what every run leaves in the queue and in the history, and when `updateplot` is not called again.
`history_reports` is about the lines of a listener: nothing that they show is ever drawn, so that
only the clock can stop `updateplot` before the lines end.
-/

set_option autoImplicit false

open Run

namespace UwbApps.Listener

open Script (Numpy Result calcAdjustedPd)

/-! ## The two processes -/

/-- What is known of `json.loads`: it reads JSON, and beyond that texts with its own constants in
them.  The limits of the interpreter (a thousand levels of nesting, integers of 4300 digits) are
taken to be out of reach: a listener nests four levels deep and prints machine integers. -/
structure LoadsJson (loads : String → Option Json) : Prop where
  of_parse : ∀ {text v}, Json.parse text = some v → loads text = some v
  constant : ∀ {text v}, loads text = some v → Json.parse text = some v ∨
    ∃ c ∈ ["NaN", "Infinity"], c.toList <:+: text.toList

/-- A report of the history, and what it has under `'adj_pd'`. -/
structure Entry (np : Numpy) where
  report : Json
  adjPd : Option (Result np)

/-- The fields that `drawHistogram` is called for. -/
inductive PlotField
  | pd
  | adjPd
  | rssi0
  | rssi1

/-- What the processes share and what `updateplot` keeps. -/
structure Viewer (np : Numpy) where
  q : List Json
  /-- `input_thread` has put its last. -/
  ended : Bool
  /-- `updateplot` will be called again. -/
  scheduled : Bool
  pause : Bool
  pdoaField : PlotField
  idx : ℕ
  history : List (Entry np)

/-- What a call of `updateplot` meets with. -/
structure PlotCall where
  /-- `q.get_nowait()` finds what is in the queue, and not still on its way. -/
  ready : Bool
  /-- `time.time()` is not what it was when `tic` was set, so that the rate can be divided by it. -/
  clockMoved : Bool
  /-- `drawHistogram` raises once it has ten numbers; `hist` does for one that is not finite. -/
  histRaises : Bool

inductive ViewerEvent
  /-- A line of `data.readlines()`. -/
  | line (text : String)
  /-- There are no more. -/
  | eof
  | updateplot (call : PlotCall)
  | resetplot
  | pauseplot
  | togglePdSrc

/-- As both start. -/
def Viewer.init {np : Numpy} : Viewer np where
  q := []
  ended := false
  scheduled := true
  pause := false
  pdoaField := .pd
  idx := 0
  history := []

/-- `'Q'`.  A line that is the string itself reads as the same. -/
def quit : Json := .str ['Q']

/-- `result != 'Q'`. -/
def isQuit : Json → Bool
  | .str text => text = ['Q']
  | _ => false

/-- A dictionary, to which `result['adj_pd'] = ...` can add. -/
def isDict : Json → Bool
  | .obj _ => true
  | _ => false

section

variable {np : Numpy}

/-- `float(x[field])`. -/
def Entry.value (x : Entry np) : PlotField → Option np.F
  | .pd => Script.get "pd" x.report >>= Script.float np
  | .adjPd => x.adjPd >>= fun
    | .num y => some y
    | .json v => Script.float np v
  | .rssi0 => Script.get "rssi0" x.report >>= Script.float np
  | .rssi1 => Script.get "rssi1" x.report >>= Script.float np

/-- `pdata` of `drawHistogram`: a field that is no number is passed over. -/
def pdata (history : List (Entry np)) (field : PlotField) (maxHist : ℕ) : List np.F :=
  (history.rtake maxHist).filterMap fun x ↦ x.value field

/-- The calls of `drawHistogram`, less often where more than ten are waiting. -/
def histograms (pdoaField : PlotField) (qsize idx : ℕ) : List (PlotField × ℕ) :=
  let pdoa := [(pdoaField, 500)]
  let rssi := [(.rssi0, 200), (.rssi1, 200)]
  if 10 < qsize then
    (if idx % 100 = 0 then pdoa else []) ++ if idx % 50 = 0 then rssi else []
  else (if idx % 50 = 0 then pdoa else []) ++ if idx % 10 = 0 then rssi else []

/-- Some histogram is drawn: there are ten numbers for it. -/
def Viewer.draws (s : Viewer np) : Bool :=
  (histograms s.pdoaField s.q.length s.idx).any fun (field, maxHist) ↦
    10 ≤ (pdata s.history field maxHist).length

/-- How `updateplot` leaves when it has taken something. -/
inductive PlotExit
  /-- `print('done')`. -/
  | done
  /-- By an exception before the history. -/
  | failed
  /-- By an exception in `drawHistogram`. -/
  | undrawn
  /-- Another call is scheduled. -/
  | again
deriving DecidableEq

/-- The history has what was taken. -/
def PlotExit.kept (exit : PlotExit) : Bool := exit = .undrawn || exit = .again

/-- What was taken is counted and appended to the history. -/
def Viewer.append (s : Viewer np) (result : Json) : Viewer np :=
  { s with
    idx := s.idx + 1
    history := Mailbox.keep 10000 s.history ⟨result, calcAdjustedPd np result⟩ }

/-- `updateplot` with what it has taken. -/
def Viewer.take (s : Viewer np) (call : PlotCall) (result : Json) : Viewer np × PlotExit :=
  if isQuit result then ({ s with scheduled := false }, .done)
  else if call.clockMoved && isDict result then
    let s := s.append result
    if call.histRaises && s.draws then ({ s with scheduled := false }, .undrawn) else (s, .again)
  else ({ s with idx := s.idx + 1, scheduled := false }, .failed)

/-- One step.  What `hist` raises for the button `togglePdSrc` ends only the call for the button. -/
def viewerStep (loads : String → Option Json) (s : Viewer np) : ViewerEvent → Option (Viewer np)
  | .line text =>
    if s.ended then none
    else
      match loads text with
      | none => some s
      | some d => some { s with q := Mailbox.offer 100 s.q d }
  | .eof => if s.ended then none else some { s with q := s.q ++ [quit], ended := true }
  | .updateplot call =>
    if s.scheduled then
      if s.pause then some s
      else
        match s.q with
        | [] => some s
        | result :: rest =>
          if call.ready then some (Viewer.take { s with q := rest } call result).1 else some s
    else none
  | .resetplot => some { s with pause := false, history := [] }
  | .pauseplot => some { s with pause := true, idx := 0 }
  | .togglePdSrc =>
    some { s with pdoaField := match s.pdoaField with | .pd => .adjPd | _ => .pd }

/-! ## What is seen of a run -/

section Seen

variable (loads : String → Option Json)

/-- What `json.loads` makes of the lines. -/
def parsedOf (_ : Viewer np) : ViewerEvent → List Json
  | .line text => (loads text).toList
  | _ => []

/-- What is put into the queue. -/
def putOf (s : Viewer np) : ViewerEvent → List Json
  | .line text => if s.q.length < 100 then (loads text).toList else []
  | .eof => [quit]
  | _ => []

/-- What is taken out of it with how the call leaves, and `none` where the history starts again. -/
def logOf (s : Viewer np) : ViewerEvent → List (Option (Json × PlotExit))
  | .updateplot call =>
    if call.ready && !s.pause then
      s.q.head?.toList.map fun d ↦ some (d, (Viewer.take { s with q := s.q.tail } call d).2)
    else []
  | .resetplot => [none]
  | _ => []

end Seen

/-- What has been taken. -/
def taken (log : List (Option (Json × PlotExit))) : List Json := log.reduceOption.map Prod.fst

/-- The queue has room for what is read. -/
def Roomy (s : Viewer np) : ViewerEvent → Prop
  | .line _ => s.q.length < 100
  | _ => True

/-- The history that the log stands for. -/
def historyOf (log : List (Option (Json × PlotExit))) : List (Entry np) :=
  Mailbox.recent 10000 ((log.filter fun x ↦ x.all fun x ↦ x.2.kept).map
    (Option.map fun x ↦ ⟨x.1, calcAdjustedPd np x.1⟩))

/-- What ends the queue. -/
def Viewer.last (s : Viewer np) : List Json := if s.ended then [quit] else []

theorem last_eq_nil {s : Viewer np} (h : s.ended = false) : s.last = [] := by
  rw [Viewer.last, h]
  exact if_neg Bool.false_ne_true

/-- What every run keeps, of what was put into the queue and what was taken out of it. -/
structure ViewerInv (puts : List Json) (log : List (Option (Json × PlotExit))) (s : Viewer np) :
    Prop where
  fifo : puts = taken log ++ s.q
  bound : s.q.length ≤ 100 + s.last.length
  history : s.history = historyOf log
  dict : ∀ x ∈ s.history, isDict x.report = true
  scheduled : s.scheduled = true ↔ ∀ x ∈ log.reduceOption, x.2 = .again

/-! ## One step -/

/-- How a call of `updateplot` leaves decides what it leaves. -/
theorem take_spec (s : Viewer np) (call : PlotCall) (d : Json) :
    (s.take call d).1.q = s.q ∧ (s.take call d).1.ended = s.ended ∧
      (s.take call d).1.scheduled = (s.scheduled && (s.take call d).2 = .again) ∧
      ((s.take call d).1.history =
        if (s.take call d).2.kept then
          Mailbox.keep 10000 s.history ⟨d, calcAdjustedPd np d⟩
        else s.history) ∧
      ((s.take call d).2.kept = true → isDict d = true) := by
  by_cases hquit : isQuit d = true
  · have hdone : s.take call d = ({ s with scheduled := false }, .done) := if_pos hquit
    rw [hdone]
    exact ⟨rfl, rfl, (Bool.and_false _).symm, rfl, fun hkept ↦ by cases hkept⟩
  rw [Viewer.take, if_neg hquit]
  by_cases hgood : (call.clockMoved && isDict d) = true
  · have hdict := (Bool.and_eq_true_iff.mp hgood).2
    rw [if_pos hgood]
    by_cases hdraw : (call.histRaises && (s.append d).draws) = true
    · rw [if_pos hdraw]
      exact ⟨rfl, rfl, (Bool.and_false _).symm, rfl, fun _ ↦ hdict⟩
    · rw [if_neg hdraw]
      exact ⟨rfl, rfl, (Bool.and_true _).symm, rfl, fun _ ↦ hdict⟩
  · rw [if_neg hgood]
    exact ⟨rfl, rfl, (Bool.and_false _).symm, rfl, fun hkept ↦ by cases hkept⟩

theorem historyOf_some (x : Json × PlotExit) (log : List (Option (Json × PlotExit))) :
    (historyOf (log ++ [some x]) : List (Entry np)) =
      if x.2.kept then Mailbox.keep 10000 (historyOf log) ⟨x.1, calcAdjustedPd np x.1⟩
      else historyOf log := by
  by_cases hkept : x.2.kept = true
  · have hfilter : [some x].filter (fun x ↦ x.all fun x ↦ x.2.kept) = [some x] := by simp [hkept]
    rw [if_pos hkept, historyOf, List.filter_append, hfilter, List.map_append, historyOf,
      Mailbox.keep_recent]
    rfl
  · have hfilter : [some x].filter (fun x ↦ x.all fun x ↦ x.2.kept) = [] := by simp [hkept]
    rw [if_neg hkept, historyOf, List.filter_append, hfilter, List.append_nil, historyOf]

theorem historyOf_none (log : List (Option (Json × PlotExit))) :
    (historyOf (log ++ [none]) : List (Entry np)) = [] := by
  have hfilter : [none].filter (fun x : Option (Json × PlotExit) ↦ x.all fun x ↦ x.2.kept) =
      [none] := rfl
  rw [historyOf, List.filter_append, hfilter, List.map_append]
  exact Mailbox.recent_none _ _

theorem taken_append (log log' : List (Option (Json × PlotExit))) :
    taken (log ++ log') = taken log ++ taken log' := by
  rw [taken, List.reduceOption_append, List.map_append, taken, taken]

/-- What `updateplot` takes. -/
theorem viewerInv_take {puts : List Json} {log : List (Option (Json × PlotExit))} {s : Viewer np}
    {d : Json} {rest : List Json} (h : ViewerInv puts log s) (hq : s.q = d :: rest)
    (hscheduled : s.scheduled = true) (call : PlotCall) :
    ViewerInv (puts ++ []) (log ++ [some (d, (Viewer.take { s with q := rest } call d).2)])
      (Viewer.take { s with q := rest } call d).1 := by
  obtain ⟨hqueue, hended, hagain, hhistory, hkept⟩ := take_spec { s with q := rest } call d
  have hbound := h.bound
  rw [hq, List.length_cons] at hbound
  refine ⟨?_, ?_, ?_, fun x hx ↦ ?_, ?_⟩
  · rw [List.append_nil, h.fifo, hq, hqueue, taken_append, List.append_assoc]
    rfl
  · rw [hqueue, Viewer.last, hended]
    exact Nat.le_of_succ_le hbound
  · rw [hhistory, historyOf_some, ← h.history]
  · rw [hhistory] at hx
    split at hx
    · next hkeep =>
      rcases Mailbox.mem_keep hx with hx | rfl
      · exact h.dict x hx
      · exact hkept hkeep
    · exact h.dict x hx
  · have hbefore := h.scheduled.mp hscheduled
    rw [hagain, hscheduled, Bool.true_and, decide_eq_true_iff, List.reduceOption_append,
      List.forall_mem_append]
    simpa using fun _ ↦ hbefore

section Step

variable {loads : String → Option Json}

/-- The queue behind a line. -/
def readLine (loads : String → Option Json) (q : List Json) (text : String) : List Json :=
  (loads text).elim q (Mailbox.offer 100 q)

theorem length_readLine_le (text : String) {q : List Json} (h : q.length ≤ 100) :
    (readLine loads q text).length ≤ 100 := by
  rw [readLine]
  rcases loads text with _ | d
  · exact h
  · exact Mailbox.length_offer_le h d

/-- What is put is at the end of the queue. -/
theorem queue_append_putOf (s : Viewer np) (text : String) :
    s.q ++ putOf loads s (.line text) = readLine loads s.q text := by
  rw [putOf, readLine]
  rcases loads text with _ | d
  · rw [Option.toList_none, ite_self, List.append_nil, Option.elim_none]
  · rw [Option.elim_some, Mailbox.offer]
    split
    · rfl
    · exact List.append_nil _

/-- The steps, with what they need and what is seen of them. -/
inductive ViewerCase (loads : String → Option Json) (s : Viewer np) :
    ViewerEvent → Viewer np → Prop
  | line (text : String) (hended : s.ended = false) :
    ViewerCase loads s (.line text) { s with q := readLine loads s.q text }
  | eof (hended : s.ended = false) :
    ViewerCase loads s .eof { s with q := s.q ++ [quit], ended := true }
  | idle (call : PlotCall) (hlog : logOf s (.updateplot call) = []) :
    ViewerCase loads s (.updateplot call) s
  | taken {call : PlotCall} {d : Json} {rest : List Json} (hscheduled : s.scheduled = true)
    (hq : s.q = d :: rest) (hlog : logOf s (.updateplot call) =
      [some (d, (Viewer.take { s with q := rest } call d).2)]) :
    ViewerCase loads s (.updateplot call) (Viewer.take { s with q := rest } call d).1
  | resetplot : ViewerCase loads s .resetplot { s with pause := false, history := [] }
  | pauseplot : ViewerCase loads s .pauseplot { s with pause := true, idx := 0 }
  | togglePdSrc (field : PlotField) :
    ViewerCase loads s .togglePdSrc { s with pdoaField := field }

theorem viewerCase_of_eq {s t : Viewer np} {ev : ViewerEvent}
    (h : viewerStep loads s ev = some t) : ViewerCase loads s ev t := by
  rcases ev with text | _ | call | _ | _ | _
  · rw [viewerStep] at h
    split at h
    · cases h
    · next hended =>
      have ht : t = { s with q := readLine loads s.q text } := by
        rw [readLine]
        rcases hparse : loads text with _ | d <;> rw [hparse] at h <;>
          exact (Option.some.inj h).symm
      exact ht ▸ .line text (Bool.eq_false_iff.mpr hended)
  · simp only [viewerStep] at h
    split at h
    · cases h
    · next hended => exact Option.some.inj h ▸ .eof (Bool.eq_false_iff.mpr hended)
  · simp only [viewerStep] at h
    split at h
    · next hscheduled =>
      by_cases hpause : s.pause = true
      · rw [if_pos hpause] at h
        exact Option.some.inj h ▸ .idle call (by simp [logOf, hpause])
      · rw [if_neg hpause] at h
        rcases hq : s.q with _ | ⟨d, rest⟩ <;> simp only [hq] at h
        · exact Option.some.inj h ▸ .idle call (by simp [logOf, hq])
        · by_cases hready : call.ready = true
          · have hlog : logOf s (.updateplot call) =
                [some (d, (Viewer.take { s with q := rest } call d).2)] := by
              simp [logOf, hq, hpause, hready]
            rw [if_pos hready] at h
            exact Option.some.inj h ▸ .taken hscheduled hq hlog
          · rw [if_neg hready] at h
            exact Option.some.inj h ▸ .idle call (by simp [logOf, hready])
    · cases h
  · exact Option.some.inj h ▸ .resetplot
  · exact Option.some.inj h ▸ .pauseplot
  · exact Option.some.inj h ▸ .togglePdSrc _

/-- **What one step keeps.** -/
theorem viewerInv_step {puts : List Json} {log : List (Option (Json × PlotExit))}
    {s t : Viewer np} {ev : ViewerEvent} (h : ViewerInv puts log s)
    (hstep : viewerStep loads s ev = some t) :
    ViewerInv (puts ++ putOf loads s ev) (log ++ logOf s ev) t := by
  rcases viewerCase_of_eq hstep with
    ⟨text, hended⟩ | ⟨hended⟩ | ⟨call, hlog⟩ | ⟨hscheduled, hq, hlog⟩ | _ | _ | ⟨field⟩
  · have hlast := last_eq_nil hended
    have hbound : s.q.length ≤ 100 := by simpa [hlast] using h.bound
    refine ⟨?_, (length_readLine_le text hbound).trans (Nat.le_add_right _ _), ?_, h.dict, ?_⟩
    · show puts ++ putOf loads s (.line text) = taken (log ++ []) ++ readLine loads s.q text
      rw [h.fifo, List.append_assoc, queue_append_putOf, List.append_nil]
    · exact h.history.trans (congrArg historyOf (List.append_nil log).symm)
    · exact (List.append_nil log).symm ▸ h.scheduled
  · have hlast := last_eq_nil hended
    have hbound : s.q.length ≤ 100 := by simpa [hlast] using h.bound
    refine ⟨?_, ?_, ?_, h.dict, ?_⟩
    · show puts ++ [quit] = taken (log ++ []) ++ (s.q ++ [quit])
      rw [h.fifo, List.append_assoc, List.append_nil]
    · show (s.q ++ [quit]).length ≤ 100 + [quit].length
      rw [List.length_append]
      exact Nat.add_le_add_right hbound _
    · exact h.history.trans (congrArg historyOf (List.append_nil log).symm)
    · exact (List.append_nil log).symm ▸ h.scheduled
  · have hput : putOf loads s (.updateplot call) = [] := rfl
    rwa [hput, hlog, List.append_nil, List.append_nil]
  · rw [hlog]
    exact viewerInv_take h hq hscheduled _
  · have hreduce : (log ++ [none]).reduceOption = log.reduceOption := by
      rw [List.reduceOption_append]
      exact List.append_nil _
    refine ⟨?_, h.bound, (historyOf_none log).symm, fun _ hx ↦ absurd hx List.not_mem_nil, ?_⟩
    · show puts ++ [] = taken (log ++ [none]) ++ s.q
      rw [List.append_nil, taken, hreduce, h.fifo, taken]
    · show s.scheduled = true ↔ ∀ x ∈ (log ++ [none]).reduceOption, x.2 = .again
      rw [hreduce]
      exact h.scheduled
  · have hput : putOf loads s .pauseplot = [] := rfl
    have hlog : logOf s .pauseplot = [] := rfl
    rw [hput, hlog, List.append_nil, List.append_nil]
    exact ⟨h.fifo, h.bound, h.history, h.dict, h.scheduled⟩
  · have hput : putOf loads s .togglePdSrc = [] := rfl
    have hlog : logOf s .togglePdSrc = [] := rfl
    rw [hput, hlog, List.append_nil, List.append_nil]
    exact ⟨h.fifo, h.bound, h.history, h.dict, h.scheduled⟩

/-- What was put is what was read, but for what found no room. -/
structure InputInv (room : Prop) (puts parsed : List Json) (s : Viewer np) : Prop where
  sublist : puts.Sublist (parsed ++ s.last)
  all : room → puts = parsed ++ s.last

/-- A step of the other process, or a button. -/
theorem InputInv.other {room : Prop} {puts parsed : List Json} {s t : Viewer np}
    (h : InputInv room puts parsed s) (hlast : t.last = s.last) :
    InputInv room (puts ++ []) (parsed ++ []) t := by
  rw [List.append_nil, List.append_nil]
  exact ⟨hlast ▸ h.sublist, hlast ▸ h.all⟩

theorem inputInv_step {room : Prop} {puts parsed : List Json} {s t : Viewer np}
    {ev : ViewerEvent} (h : InputInv room puts parsed s) (hroom : room → Roomy s ev)
    (hstep : viewerStep loads s ev = some t) :
    InputInv room (puts ++ putOf loads s ev) (parsed ++ parsedOf loads s ev) t := by
  have hlast : s.ended = false → s.last = [] := fun hended ↦
    if_neg (by rw [hended]; exact Bool.false_ne_true)
  rcases viewerCase_of_eq hstep with ⟨text, hended⟩ | ⟨hended⟩ | _ | ⟨_, hq, _⟩ | _ | _ | _
  · have hlast : s.last = [] := hlast hended
    have hput : (putOf loads s (.line text)).Sublist (parsedOf loads s (.line text)) := by
      rw [putOf, parsedOf]
      split
      · exact List.Sublist.refl _
      · exact List.nil_sublist _
    refine ⟨?_, fun hr ↦ ?_⟩
    · show (puts ++ _).Sublist (parsed ++ _ ++ s.last)
      have hbefore := h.sublist
      rw [hlast, List.append_nil] at hbefore ⊢
      exact hbefore.append hput
    · show puts ++ _ = parsed ++ _ ++ s.last
      have hbefore := h.all hr
      rw [hlast, List.append_nil] at hbefore ⊢
      have hput : putOf loads s (.line text) = parsedOf loads s (.line text) := if_pos (hroom hr)
      rw [hbefore, hput]
  · have hlast : s.last = [] := hlast hended
    refine ⟨?_, fun hr ↦ ?_⟩
    · show (puts ++ [quit]).Sublist (parsed ++ [] ++ [quit])
      have hbefore := h.sublist
      rw [hlast] at hbefore
      exact hbefore.append (List.Sublist.refl _)
    · show puts ++ [quit] = parsed ++ [] ++ [quit]
      rw [h.all hr, hlast]
  · exact h.other rfl
  · refine h.other ?_
    rw [Viewer.last, (take_spec _ _ _).2.1]
    rfl
  · exact h.other rfl
  · exact h.other rfl
  · exact h.other rfl

end Step

/-! ## Runs -/

/-- What is seen of the events from the start on. -/
def Viewer.seen {α : Type} (np : Numpy) (loads : String → Option Json)
    (obs : Viewer np → ViewerEvent → List α) (es : List ViewerEvent) : List α :=
  gather (viewerStep loads) obs Viewer.init es

theorem viewerInv_init : ViewerInv [] [] (Viewer.init : Viewer np) where
  fifo := rfl
  bound := Nat.zero_le _
  history := (Mailbox.recent_nil _).symm
  dict _ hx := absurd hx List.not_mem_nil
  scheduled := iff_of_true rfl fun _ hmem ↦ nomatch hmem

theorem inputInv_init (room : Prop) : InputInv room [] [] (Viewer.init : Viewer np) where
  sublist := List.Sublist.refl _
  all _ := rfl

theorem viewerInv_of_run {loads : String → Option Json} {es : List ViewerEvent} {t : Viewer np}
    (hrun : run (viewerStep loads) Viewer.init es = some t) :
    ViewerInv (Viewer.seen np loads (putOf loads) es) (Viewer.seen np loads logOf es) t :=
  gather_invariant (fun _ _ _ _ _ h hs ↦ viewerInv_step h hs) viewerInv_init hrun

theorem inputInv_of_run {loads : String → Option Json} {es : List ViewerEvent} {t : Viewer np}
    (hrun : run (viewerStep loads) Viewer.init es = some t) :
    InputInv (Each (viewerStep loads) Roomy (Viewer.init : Viewer np) es)
      (Viewer.seen np loads (putOf loads) es) (Viewer.seen np loads (parsedOf loads) es) t := by
  have hroom : Each (viewerStep loads) (fun s ev ↦
      Each (viewerStep loads) Roomy (Viewer.init : Viewer np) es → Roomy s ev)
        (Viewer.init : Viewer np) es :=
    each_of_splits fun pre ev post s hsplit hpre hall ↦ (hsplit ▸ hall).at hpre
  exact hroom.gather_invariant (fun _ _ _ _ _ h hr hs ↦ inputInv_step h hr hs)
    (inputInv_init _) hrun

/-- **What every run leaves.**  Nothing gets lost or out of order between the processes, and the
queue stays bounded; the history is the last 10000 that were kept since the last reset; and
`updateplot` is called until one of its calls leaves in another way than by scheduling the next.  A
line is dropped only where a hundred are waiting. -/
theorem viewer_run {loads : String → Option Json} {es : List ViewerEvent} {t : Viewer np}
    (hrun : run (viewerStep loads) Viewer.init es = some t) :
    ViewerInv (Viewer.seen np loads (putOf loads) es) (Viewer.seen np loads logOf es) t ∧
      InputInv (Each (viewerStep loads) Roomy (Viewer.init : Viewer np) es)
        (Viewer.seen np loads (putOf loads) es) (Viewer.seen np loads (parsedOf loads) es) t :=
  ⟨viewerInv_of_run hrun, inputInv_of_run hrun⟩

/-- A call that finds what is there, some time later, with a drawing that would raise. -/
def sampleCall : PlotCall := ⟨true, true, true⟩

/-- Two reports, between them a line that cannot be read, and the end. -/
def sampleViewing : List ViewerEvent :=
  [.line "\x7b\x7d", .line "sendto: 5", .updateplot sampleCall, .line "\x7b\x7d", .eof,
    .updateplot sampleCall, .updateplot sampleCall]

/-- The viewer has taken all of it. -/
theorem viewer_run_two_reports : ∃ t : Viewer zeroNumpy,
    run (viewerStep Json.parse) Viewer.init sampleViewing = some t ∧ t.scheduled = false ∧
      ViewerInv [.obj [], .obj [], quit]
        [some (.obj [], .again), some (.obj [], .again), some (quit, .done)] t := by
  have hend : (run (viewerStep Json.parse) (Viewer.init : Viewer zeroNumpy) sampleViewing).map
      Viewer.scheduled = some false := by
    decide +kernel
  obtain ⟨t, hrun, hscheduled⟩ := Option.map_eq_some_iff.mp hend
  exact ⟨t, hrun, hscheduled, (viewer_run hrun).1⟩

/-- Ten values for which `hist` raises. -/
example : (run (viewerStep Json.parse) (Viewer.init : Viewer zeroNumpy)
    (List.replicate 10 [.line "\x7b\"rssi0\":1e999\x7d", .updateplot sampleCall]).flatten).map
      Viewer.scheduled = some false := by
  decide +kernel

/-! ## From the radio to the history -/

/-- The line of an event. -/
def lineOf (_ : Viewer np) : ViewerEvent → List String
  | .line text => [text]
  | _ => []

/-- All the dictionaries that were ever kept. -/
theorem reports_of_log (log : List (Option (Json × PlotExit))) :
    ((((log.filter fun x ↦ x.all fun x ↦ x.2.kept).map (Option.map fun x ↦
      (⟨x.1, calcAdjustedPd np x.1⟩ : Entry np))).reduceOption).map Entry.report).Sublist
        (taken log) := by
  induction log with
  | nil => exact List.Sublist.refl _
  | cons x log ih =>
    rcases x with _ | x
    · exact ih
    · by_cases hkept : x.2.kept = true
      · simpa [List.reduceOption_cons_of_some, hkept, taken] using ih
      · simpa [List.reduceOption_cons_of_some, hkept, taken] using ih.cons x.1

/-- The reports of the history, in their order, were put into the queue. -/
theorem reports_sublist {puts : List Json} {log : List (Option (Json × PlotExit))} {s : Viewer np}
    (h : ViewerInv puts log s) : (s.history.map Entry.report).Sublist puts := by
  have hlog : (s.history.map Entry.report).Sublist (taken log) := by
    rw [h.history, historyOf]
    exact ((Mailbox.recent_suffix 10000 _).sublist.map Entry.report).trans (reports_of_log log)
  rw [h.fifo]
  exact hlog.trans (List.sublist_append_left _ _)

/-! ### What is drawn of a report -/

/-- None of the fields that are drawn is a number. -/
def Entry.Blank (x : Entry np) : Prop := ∀ field, x.value field = none

/-- A dictionary of which nothing is drawn. -/
structure BlankReport (np : Numpy) (d : Json) : Prop where
  isDict : isDict d = true
  blank : (⟨d, calcAdjustedPd np d⟩ : Entry np).Blank

theorem draws_of_blank {s : Viewer np} (h : ∀ x ∈ s.history, x.Blank) : s.draws = false := by
  have hnone : ∀ field maxHist, pdata s.history field maxHist = [] := fun field maxHist ↦
    List.filterMap_eq_nil_iff.mpr fun x hx ↦ h x (List.mem_of_mem_drop hx) field
  rw [Viewer.draws, List.any_eq_false]
  rintro ⟨field, maxHist⟩ -
  simp [hnone]

/-- Such a report is kept, and the next call scheduled. -/
theorem take_of_blank {s : Viewer np} {call : PlotCall} {d : Json} (hclock : call.clockMoved = true)
    (hd : BlankReport np d) (hs : ∀ x ∈ s.history, x.Blank) :
    (s.take call d).1 = s.append d ∧ ∀ x ∈ (s.append d).history, x.Blank := by
  have hhistory : ∀ x ∈ (s.append d).history, x.Blank := by
    intro x hx
    rcases Mailbox.mem_keep hx with hx | rfl
    · exact hs x hx
    · exact hd.blank
  have hquit : ¬ isQuit d = true := by
    intro hquit
    have hdict := hd.isDict
    cases d <;> first | cases hquit | cases hdict
  refine ⟨?_, hhistory⟩
  have hgood : (call.clockMoved && isDict d) = true := by rw [hclock, hd.isDict]; rfl
  have hdraw : ¬ (call.histRaises && (s.append d).draws) = true := by
    rw [draws_of_blank hhistory, Bool.and_false]
    exact Bool.false_ne_true
  rw [Viewer.take, if_neg hquit, if_pos hgood]
  exact congrArg Prod.fst (if_neg hdraw)

/-- What holds as long as only such reports are read: `updateplot` goes on until all is taken. -/
structure Flowing (s : Viewer np) : Prop where
  blank : ∀ x ∈ s.history, x.Blank
  flows : (s.scheduled = true ∧ ∃ ds, s.q = ds ++ s.last ∧ ∀ d ∈ ds, BlankReport np d) ∨
    s.ended = true ∧ s.q = []

/-- Only such reports are read, and the clock moves. -/
def Undisturbed (np : Numpy) (loads : String → Option Json) : ViewerEvent → Prop
  | .line text => ∀ d, loads text = some d → BlankReport np d
  | .updateplot call => call.clockMoved = true
  | _ => True

/-- What is in the queue after a line was there before or is read from the line. -/
theorem mem_readLine {loads : String → Option Json} {q : List Json} {text : String} {d : Json}
    (hd : d ∈ readLine loads q text) : d ∈ q ∨ loads text = some d := by
  rw [readLine] at hd
  rcases hload : loads text with _ | e
  · rw [hload] at hd
    exact Or.inl hd
  · rw [hload, Option.elim_some, Mailbox.offer] at hd
    split at hd
    · rcases List.mem_append.mp hd with hd | hd
      · exact Or.inl hd
      · exact Or.inr (congrArg some (List.mem_singleton.mp hd).symm)
    · exact Or.inl hd

/-- The other process, as long as it has not ended. -/
theorem Flowing.queue {s : Viewer np} (h : Flowing s) (hended : s.ended = false) :
    s.scheduled = true ∧ ∀ d ∈ s.q, BlankReport np d := by
  rcases h.flows with ⟨hscheduled, ds, hq, hds⟩ | ⟨hdone, -⟩
  · have hlast := last_eq_nil hended
    rw [hlast, List.append_nil] at hq
    exact ⟨hscheduled, hq ▸ hds⟩
  · rw [hended] at hdone
    cases hdone

/-- A call of `updateplot` that takes something. -/
theorem Flowing.take {s : Viewer np} (h : Flowing s) {call : PlotCall}
    (hclock : call.clockMoved = true) (hscheduled : s.scheduled = true) {d : Json}
    {rest : List Json} (hq : s.q = d :: rest) :
    Flowing (Viewer.take { s with q := rest } call d).1 := by
  rcases h.flows with ⟨-, ds, hds, hblank⟩ | ⟨-, hnone⟩
  · rcases ds with _ | ⟨e, ds⟩
    · -- only the end is left
      obtain ⟨hended, hlast⟩ : s.ended = true ∧ d :: rest = [quit] := by
        have hlast : s.last = d :: rest := by rw [← hq, hds]; rfl
        rw [Viewer.last] at hlast
        split at hlast
        · next hended => exact ⟨hended, hlast.symm⟩
        · cases hlast
      obtain ⟨rfl, rfl⟩ := List.cons.inj hlast
      exact ⟨h.blank, Or.inr ⟨hended, rfl⟩⟩
    · obtain ⟨rfl, hrest⟩ : d = e ∧ rest = ds ++ s.last := List.cons.inj (hq.symm.trans hds)
      obtain ⟨heq, hhistory⟩ := @take_of_blank np { s with q := rest } call d hclock
        (hblank d List.mem_cons_self) h.blank
      rw [heq]
      exact ⟨hhistory, Or.inl ⟨hscheduled, ds, hrest, fun e he ↦
        hblank e (List.mem_cons_of_mem d he)⟩⟩
  · rw [hq] at hnone
    cases hnone

theorem flowing_step {loads : String → Option Json} {s t : Viewer np} {ev : ViewerEvent}
    (h : Flowing s) (hev : Undisturbed np loads ev) (hstep : viewerStep loads s ev = some t) :
    Flowing t := by
  rcases viewerCase_of_eq hstep with
    ⟨text, hended⟩ | ⟨hended⟩ | _ | @⟨call, d, rest, hscheduled, hq, -⟩ | _ | _ | _
  · obtain ⟨hscheduled, hblank⟩ := h.queue hended
    have hlast := last_eq_nil hended
    refine ⟨h.blank, Or.inl ⟨hscheduled, readLine loads s.q text, ?_, fun d hd ↦ ?_⟩⟩
    · show readLine loads s.q text = readLine loads s.q text ++ s.last
      rw [hlast, List.append_nil]
    · exact (mem_readLine hd).elim (hblank d) (hev d)
  · obtain ⟨hscheduled, hblank⟩ := h.queue hended
    exact ⟨h.blank, Or.inl ⟨hscheduled, s.q, rfl, hblank⟩⟩
  · exact h
  · exact h.take hev hscheduled hq
  · exact ⟨fun _ hx ↦ absurd hx List.not_mem_nil, h.flows⟩
  · exact ⟨h.blank, h.flows⟩
  · exact ⟨h.blank, h.flows⟩

/-- **Every run** of them. -/
theorem flowing_of_run {loads : String → Option Json} {es : List ViewerEvent} {t : Viewer np}
    (hev : ∀ ev ∈ es, Undisturbed np loads ev)
    (hrun : run (viewerStep loads) Viewer.init es = some t) : Flowing t := by
  have heach : Each (viewerStep loads) (fun _ ev ↦ Undisturbed np loads ev)
      (Viewer.init : Viewer np) es := by
    refine each_of_splits fun pre ev post s hsplit _ ↦ hev ev ?_
    rw [hsplit]
    exact List.mem_append_right pre List.mem_cons_self
  have hinit : Flowing (Viewer.init : Viewer np) :=
    ⟨fun _ hx ↦ absurd hx List.not_mem_nil, Or.inl ⟨rfl, [], rfl, fun _ hd ↦
      absurd hd List.not_mem_nil⟩⟩
  exact heach.invariant (fun _ _ _ h hc hs ↦ flowing_step h hc hs) hinit hrun

/-! ### The lines of a listener -/

/-- A listener prints no values of the two receivers on their own. -/
theorem rssi_notMem_names (r : Report) : "rssi0" ∉ r.names ∧ "rssi1" ∉ r.names := by
  obtain ⟨utime, ts, rxDiag, ccor, pdoa, pd, dlen, d, cir⟩ := r
  cases rxDiag <;> cases ccor <;> cases cir <;> simp [Report.names]

/-- A report is a dictionary, and none of its fields that are drawn is a number. -/
theorem blankReport_of_parse (np : Numpy) {undef : CFloat → ℤ} {r : Report} {d : Json}
    {phases : List Json} (h : Json.parse (reportText undef r) = some d)
    (hpd : Script.get "pd" d = some (.arr phases)) : BlankReport np d := by
  obtain ⟨ms, rfl, hnames⟩ := names_of_parse undef r h
  have hmissing : ∀ name ∉ r.names, Script.get name (.obj ms) = none := by
    intro name hname
    refine Script.get_eq_none ?_
    rw [hnames, List.mem_map]
    rintro ⟨other, hother, heq⟩
    exact hname (String.toList_inj.mp heq ▸ hother)
  obtain ⟨hrssi0, hrssi1⟩ := rssi_notMem_names r
  refine ⟨rfl, fun field ↦ ?_⟩
  cases field with
  | pd =>
    rw [Entry.value, hpd]
    rfl
  | adjPd =>
    rw [Entry.value, (results_of_parse np h).2]
    rfl
  | rssi0 =>
    rw [Entry.value, hmissing _ hrssi0]
    rfl
  | rssi1 =>
    rw [Entry.value, hmissing _ hrssi1]
    rfl

theorem notMem_sendtoText {c : Char} (hdigit : c.isDigit = false) (hc : c ∉ "sendto: -".toList)
    (rc : ℤ) : c ∉ (sendtoText rc).toList := by
  have hdigits : c ∉ Nat.toDigits 10 rc.natAbs := fun hmem ↦ by
    rw [Json.digits_toDigits _ c hmem] at hdigit
    cases hdigit
  have hnumber : (Printf.dec rc).toList =
      if rc < 0 then '-' :: Nat.toDigits 10 rc.natAbs else Nat.toDigits 10 rc.natAbs :=
    Json.toList_toString_int rc
  rw [sendtoText, String.toList_append, hnumber]
  split <;> simp_all

/-- A reader does not take the line of a failed `mn_sendto` for anything. -/
theorem loads_sendtoText {loads : String → Option Json} (hloads : LoadsJson loads) (rc : ℤ) :
    loads (sendtoText rc) = none := by
  refine Option.eq_none_iff_forall_ne_some.mpr fun v hv ↦ ?_
  rcases hloads.constant hv with hparse | ⟨c, hc, hin⟩
  · rw [parse_sendtoText] at hparse
    cases hparse
  · rcases List.mem_pair.mp hc with rfl | rfl
    · exact notMem_sendtoText (c := 'N') (by decide) (by decide) rc (hin.subset (by decide))
    · exact notMem_sendtoText (c := 'I') (by decide) (by decide) rc (hin.subset (by decide))

/-- What is read of a line: the report of a frame, of which nothing is drawn, or nothing. -/
theorem loads_of_isLine (np : Numpy) {loads : String → Option Json} (hloads : LoadsJson loads)
    {tg : Target} {line : List UInt8} {about : ConsoleLine} (h : IsLine tg line about) :
    Option.Rel (fun d frame ↦ HasPayload frame d ∧ BlankReport np d) (loads (Ascii.decode line))
      about.frame? := by
  rcases about with frame | rc
  · obtain ⟨r, hprint, hdlen, rfl, rfl⟩ := h
    obtain ⟨v, hparse, hpayload, phases, hpd⟩ := parse_of_printable hprint hdlen tg.undef
    rw [decode_reportText, hloads.of_parse hparse]
    exact .some ⟨hpayload, blankReport_of_parse np hparse hpd⟩
  · obtain ⟨-, -, rfl⟩ := h
    rw [decode_sendtoText, loads_sendtoText hloads]
    exact .none

/-- Some of the things on the left have their partners among those on the right, in order. -/
theorem exists_sublist_right {α δ : Type*} {R : α → δ → Prop} {as as' : List α} {bs : List δ}
    (h : List.Forall₂ R as bs) (hsub : as'.Sublist as) :
    ∃ bs', List.Forall₂ R as' bs' ∧ bs'.Sublist bs := by
  induction hsub generalizing bs with
  | slnil => exact ⟨[], .nil, List.nil_sublist _⟩
  | cons a _ ih =>
    obtain ⟨b, bs, -, hrest, rfl⟩ := List.forall₂_cons_left_iff.mp h
    obtain ⟨bs', hbs', hsub⟩ := ih hrest
    exact ⟨bs', hbs', hsub.cons b⟩
  | cons_cons a _ ih =>
    obtain ⟨b, bs, hab, hrest, rfl⟩ := List.forall₂_cons_left_iff.mp h
    obtain ⟨bs', hbs', hsub⟩ := ih hrest
    exact ⟨b :: bs', .cons hab hbs', hsub.cons_cons b⟩

/-- What is read of the lines of a listener. -/
theorem loads_of_lines (np : Numpy) {loads : String → Option Json} (hloads : LoadsJson loads)
    {tg : Target} {lines : List (List UInt8)} {abouts : List ConsoleLine}
    (h : List.Forall₂ (IsLine tg) lines abouts) :
    List.Forall₂ (fun d frame ↦ HasPayload frame d ∧ BlankReport np d)
      ((lines.map Ascii.decode).flatMap fun text ↦ (loads text).toList)
      (abouts.filterMap ConsoleLine.frame?) := by
  induction h with
  | nil => exact .nil
  | @cons line about lines abouts hline _ ih =>
    have hread := loads_of_isLine np hloads hline
    rw [List.map_cons, List.flatMap_cons, List.filterMap_cons]
    generalize loads (Ascii.decode line) = d, about.frame? = frame at hread ⊢
    cases hread with
    | none => exact ih
    | some hd => exact .cons hd ih

/-- What is read is read of the lines. -/
theorem seen_parsedOf (np : Numpy) (loads : String → Option Json) (es : List ViewerEvent) :
    Viewer.seen np loads (parsedOf loads) es =
      (Viewer.seen np loads lineOf es).flatMap fun text ↦ (loads text).toList := by
  rw [Viewer.seen, Viewer.seen, ← gather_flatMap]
  congr 1
  funext s ev
  cases ev <;> first | rfl | exact (List.append_nil _).symm

/-- The lines of the events are those of the run. -/
theorem mem_seen_lineOf {loads : String → Option Json} {es : List ViewerEvent} {t : Viewer np}
    (hrun : run (viewerStep loads) Viewer.init es = some t) {text : String}
    (h : .line text ∈ es) : text ∈ Viewer.seen np loads lineOf es := by
  obtain ⟨pre, post, rfl⟩ := List.append_of_mem h
  obtain ⟨s, u, hpre, hstep, -⟩ := run_split hrun
  rw [Viewer.seen, gather_append hpre, gather, List.mem_append, List.mem_append]
  exact Or.inr (Or.inl List.mem_cons_self)

section EndToEnd

variable {β γ : Type*} [DecidableEq β] [DecidableEq γ]

/-- What is JSON, and nothing else. -/
theorem loadsJson_parse : LoadsJson Json.parse := ⟨id, Or.inl⟩

/-- The line of `sampleReads`, and the call of `updateplot` that takes it. -/
def sampleShown : List ViewerEvent :=
  [.line "\x7b\"utime\":0,\"ts\":[0],\"pd\":[0.000],\"dlen\":1,\"d\":\"00\"\x7d",
    .updateplot sampleCall]

end EndToEnd

end

end UwbApps.Listener
