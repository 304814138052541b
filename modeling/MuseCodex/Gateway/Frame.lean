import MuseCodex.Gateway.Verdict

/-!
# Frames of one event line and one data line

A server that sends events writes each of them as a frame of an `event` line, a `data` line and a
blank line. The scanner finds the end of such a frame whatever follows it (`eventFrame_scan`), and
the inspection of the frame is the inspection of the document on its data line
(`inspectFrame_eventFrame`). A stream of such frames, each within the limit, that ends with the
first terminal event is forwarded as it is (`validatedStream_of_copied`).
-/

namespace MuseCodex.Gateway

open Text Json

/-- The text of a frame with an event name and one line of data. -/
def eventText (kind data : String) : String := "event: " ++ kind ++ "\ndata: " ++ data ++ "\n\n"

/-- A frame with an event name and one line of data. -/
def eventFrame (kind data : String) : Bytes := toUtf8 (eventText kind data)

/-! ## The end of the frame -/

/-- The scanner passes over the bytes of a line. -/
theorem completeFrameLenFrom_line {line : Bytes} (h : ∀ b ∈ line, b ≠ LF ∧ b ≠ CR)
    (lineStart index : ℕ) (rest : Bytes) :
    completeFrameLenFrom lineStart index (line ++ rest) =
      completeFrameLenFrom lineStart (index + line.length) rest := by
  induction line generalizing index with
  | nil => rfl
  | cons byte line ih =>
    obtain ⟨hlf, hcr⟩ := h byte List.mem_cons_self
    rw [List.cons_append, completeFrameLenFrom_byte _ _ _ hlf hcr,
      ih (fun b hb => h b (List.mem_cons_of_mem _ hb)), List.length_cons]
    congr 1
    omega

/-- The frame ends with its blank line, whatever follows it. -/
theorem eventFrame_scan {kind data : String} (hkind : OneLine kind) (hdata : OneLine data)
    (t : Bytes) :
    completeFrameLen (eventFrame kind data ++ t) = some (eventFrame kind data).length := by
  have hbytes : eventFrame kind data = toUtf8 ("event: " ++ kind) ++ LF ::
      (toUtf8 ("data: " ++ data) ++ [LF, LF]) := by
    have hlf : toUtf8 "\n" = [LF] := by decide
    have hlflf : toUtf8 "\n\n" = [LF, LF] := by decide
    have htext : eventText kind data =
        "event: " ++ kind ++ ("\n" ++ ("data: " ++ data ++ "\n\n")) := by
      apply String.toList_injective
      simp [eventText, String.toList_append]
    calc toUtf8 (eventText kind data)
        = toUtf8 ("event: " ++ kind) ++ (toUtf8 "\n" ++ (toUtf8 ("data: " ++ data) ++
            toUtf8 "\n\n")) := by
          rw [htext, toUtf8_append ("event: " ++ kind), toUtf8_append "\n",
            toUtf8_append ("data: " ++ data)]
      _ = toUtf8 ("event: " ++ kind) ++ LF :: (toUtf8 ("data: " ++ data) ++ [LF, LF]) := by
          rw [hlf, hlflf]
          rfl
  have hevent : ∀ b ∈ toUtf8 ("event: " ++ kind), b ≠ LF ∧ b ≠ CR := by
    intro b hb
    exact OneLine.toUtf8 (OneLine.append (by decide) hkind) hb
  have hline : ∀ b ∈ toUtf8 ("data: " ++ data), b ≠ LF ∧ b ≠ CR := by
    intro b hb
    exact OneLine.toUtf8 (OneLine.append (by decide) hdata) hb
  have heventPos : 0 < (toUtf8 ("event: " ++ kind)).length := by
    rw [toUtf8_append, List.length_append, show (toUtf8 "event: ").length = 7 by decide]
    omega
  have hlinePos : 0 < (toUtf8 ("data: " ++ data)).length := by
    rw [toUtf8_append, List.length_append, show (toUtf8 "data: ").length = 6 by decide]
    omega
  -- Each of the two lines has bytes, so the first blank line is the last.
  rw [completeFrameLen, hbytes]
  simp only [List.append_assoc, List.cons_append, List.nil_append]
  rw [completeFrameLenFrom_line hevent, completeFrameLenFrom_lf, if_neg (by omega),
    completeFrameLenFrom_line hline, completeFrameLenFrom_lf, if_neg (by omega),
    completeFrameLenFrom_lf, if_pos rfl]
  simp only [List.length_append, List.length_cons, List.length_nil]
  congr 1
  omega

/-! ## The lines of the frame -/

/-- The lines of the frame: the event name, the data, and a blank line. -/
theorem splitTerminator_eventText {kind data : String} (hkind : OneLine kind)
    (hdata : OneLine data) :
    splitTerminator (fun c => c = '\r' || c = '\n') (eventText kind data) =
      ["event: " ++ kind, "data: " ++ data, ""] := by
  have hline {s : String} (h : OneLine s) : ∀ c ∈ s.toList, (c = '\r' || c = '\n') = false := by
    intro c hc
    obtain ⟨hcr, hlf⟩ := h c hc
    simp [hcr, hlf]
  have hevent := hline (OneLine.append (show OneLine "event: " by decide) hkind)
  have hdata' := hline (OneLine.append (show OneLine "data: " by decide) hdata)
  have hchars : (eventText kind data).toList = ("event: " ++ kind).toList ++ '\n' ::
      (("data: " ++ data).toList ++ '\n' :: ['\n']) := by
    simp [eventText, String.toList_append]
  have hpieces : splitChars (fun c => c = '\r' || c = '\n') (eventText kind data).toList =
      [("event: " ++ kind).toList, ("data: " ++ data).toList, [], []] := by
    rw [hchars, splitChars_append hevent (by simp), splitChars_append hdata' (by simp)]
    rfl
  unfold splitTerminator
  rw [hpieces]
  simp only [List.getLast?_cons_cons, List.getLast?_singleton, if_true,
    List.dropLast_cons_cons, List.dropLast_singleton, List.map_cons, List.map_nil,
    String.ofList_toList]

/-- A line with a field name, a colon, a space, and a value. -/
theorem readLine_field {name : String} (hname : name ≠ "") (hcolon : ':' ∉ name.toList)
    (value : String) (fields : Fields) :
    fields.readLine (name ++ ": " ++ value) =
      if name = "event" then { fields with eventName := some value }
      else if name = "data" then { fields with dataLines := fields.dataLines ++ [value] }
      else fields := by
  have hchars : (name ++ ": " ++ value).toList = name.toList ++ ':' :: (" " ++ value).toList := by
    simp [String.toList_append]
  have hsplit : splitOnce ':' (name ++ ": " ++ value) = some (name, " " ++ value) := by
    rw [splitOnce, hchars, splitOnceChars_append hcolon, Option.map_some, String.ofList_toList,
      String.ofList_toList]
  have hstrip : stripPrefix ' ' (" " ++ value) = some value := by
    simp [stripPrefix, String.toList_append]
  obtain ⟨c, cs, hcs⟩ : ∃ c cs, name.toList = c :: cs := by
    refine List.exists_cons_of_ne_nil fun hnil => hname (String.toList_injective ?_)
    rw [hnil]
    rfl
  have hne : name ++ ": " ++ value ≠ "" := by
    intro h
    have := congrArg String.toList h
    rw [hchars, hcs] at this
    cases this
  have hstart : startsWith ':' (name ++ ": " ++ value) = false := by
    rw [hcs, List.mem_cons, not_or] at hcolon
    rw [startsWith, hchars, hcs]
    simpa using Ne.symm hcolon.1
  unfold Fields.readLine
  rw [hsplit]
  simp only [hne, hstart, hstrip, Option.getD_some, decide_false, Bool.or_self, Bool.false_eq_true,
    if_false]

/-- The fields of the frame. -/
theorem fields_eventText {kind data : String} (hkind : OneLine kind) (hdata : OneLine data) :
    Fields.ofText (eventText kind data) = ⟨some kind, [data]⟩ := by
  have hbom : stripPrefix '\ufeff' (eventText kind data) = none := by
    simp [stripPrefix, eventText, String.toList_append]
  unfold Fields.ofText
  rw [hbom]
  dsimp only [Option.getD_none]
  rw [splitTerminator_eventText hkind hdata, List.foldl_cons, List.foldl_cons, List.foldl_cons,
    List.foldl_nil]
  have hevent := readLine_field (show "event" ≠ "" by decide) (by decide) kind {}
  have hline := readLine_field (show "data" ≠ "" by decide) (by decide) data
    { eventName := some kind }
  rw [if_pos rfl] at hevent
  rw [if_neg (by decide), if_pos rfl] at hline
  rw [show "event: " ++ kind = "event" ++ ": " ++ kind from rfl, hevent,
    show "data: " ++ data = "data" ++ ": " ++ data from rfl, hline]
  rfl

/-- The inspection of the frame is the inspection of the document on its data line. -/
theorem inspectFrame_eventFrame {serde : Serde} {kind data : String} (hkind : OneLine kind)
    (hdata : OneLine data) (hdone : data ≠ "[DONE]") {value : Value}
    (hvalue : serde.fromStr data = .ok value) :
    inspectFrame serde (eventFrame kind data) = inspectValue (some kind) value := by
  unfold inspectFrame eventFrame
  rw [fromUtf8_toUtf8]
  dsimp only
  have hdata' : String.intercalate "\n" [data] = data := rfl
  rw [fields_eventText hkind hdata]
  dsimp only
  rw [if_neg (List.cons_ne_nil _ _), hdata', if_neg hdone, hvalue]

/-! ## Streams of such frames -/

/-- What is known of the response after a frame that the stream gets past. -/
def Identity.observeFrame (o : Options) (id : Identity) (frame : Bytes) : Identity :=
  match inspectFrame o.serde frame with
  | .ok (.keep event) | .ok (.drop event) => id.observe event
  | .error _ => id

/-- Frames that are copied are yielded before what follows them is judged. -/
theorem verdict_append (o : Options) (e : Ending) (id : Identity) {frames : List Bytes}
    (hframes : ∀ frame ∈ frames, Copied o frame) (more : List Bytes) (rest : Bytes) :
    verdict o e id (frames ++ more) rest =
      frames ++ verdict o e (frames.foldl (Identity.observeFrame o) id) more rest := by
  induction frames generalizing id with
  | nil => rfl
  | cons frame frames ih =>
    obtain ⟨hlen, event, hevent, -, -, -, hterm, hfail⟩ := hframes frame List.mem_cons_self
    rw [List.cons_append, verdict, if_neg (by omega), hevent]
    dsimp only
    rw [if_neg (by simp [hfail]), if_neg (by simp [hterm]),
      ih _ fun f hf => hframes f (List.mem_cons_of_mem _ hf), List.foldl_cons,
      Identity.observeFrame, hevent]
    rfl

/-- The stream of frames that the scanner finds and that are copied, up to the last of them, which
is judged by itself. -/
theorem validatedStream_append (o : Options) {frames : List Bytes} {last : Bytes}
    (hscan : ∀ frame ∈ frames ++ [last], ∀ t,
      completeFrameLen (frame ++ t) = some frame.length)
    (hframes : ∀ frame ∈ frames, Copied o frame) {body : List Poll}
    (hbody : upstreamBytes body = (frames ++ [last]).flatten) :
    validatedStream o body = frames.flatten ++
      (verdict o (ending body) (frames.foldl (Identity.observeFrame o) {}) [last] []).flatten := by
  have hcut := scanner.cut_of_delimited hscan (show scanner.scan [] = none from rfl)
  rw [List.append_nil] at hcut
  rw [validatedStream, validatedFrames_eq, verdictOf, hbody, hcut.1, hcut.2,
    verdict_append o _ _ hframes, List.flatten_append]

/-- The verdict on a frame that ends the response is the frame. -/
theorem verdict_completed (o : Options) (e : Ending) (id : Identity) {last : Bytes}
    (hlast : last.length ≤ o.maxEventBytes) {event : InspectedEvent}
    (hevent : inspectFrame o.serde last = .ok (.keep event))
    (hkind : event.kind = "response.completed" ∨ event.kind = "response.incomplete")
    (rest : Bytes) : verdict o e id [last] rest = [last] := by
  have hfail : isFailureEvent event.kind = false := by rcases hkind with h | h <;> rw [h] <;> decide
  have hterm : isTerminalEvent event.kind = true := by rcases hkind with h | h <;> rw [h] <;> decide
  rw [verdict, if_neg (by omega), hevent]
  dsimp only
  rw [if_neg (by simp [hfail]), if_pos hterm]

/-- The verdict on a frame that reports a failure is the failure frame that stands for it. -/
theorem verdict_failed (o : Options) (e : Ending) (id : Identity) {last : Bytes}
    (hlast : last.length ≤ o.maxEventBytes) {event : InspectedEvent}
    (hevent : inspectFrame o.serde last = .ok (.keep event))
    (hfail : isFailureEvent event.kind = true) (rest : Bytes) :
    verdict o e id [last] rest = [(id.observe event).reportedFailure o event] := by
  rw [verdict, if_neg (by omega), hevent]
  dsimp only
  rw [if_pos hfail]

/-- The verdict on a frame that cannot be accepted is a protocol failure. -/
theorem verdict_refused (o : Options) (e : Ending) (id : Identity) {last : Bytes}
    (hlast : last.length ≤ o.maxEventBytes) {reason : String}
    (herror : inspectFrame o.serde last = .error reason) (rest : Bytes) :
    verdict o e id [last] rest = [id.protocolFailure o reason] := by
  rw [verdict, if_neg (by omega), herror]

/-- A stream of frames that the scanner finds, the last of which ends it, is forwarded as it is,
whatever chunks it arrives in. -/
theorem validatedStream_of_copied (o : Options) {frames : List Bytes} {last : Bytes}
    (hscan : ∀ frame ∈ frames ++ [last], ∀ t,
      completeFrameLen (frame ++ t) = some frame.length)
    (hframes : ∀ frame ∈ frames, Copied o frame) (hlast : last.length ≤ o.maxEventBytes)
    {event : InspectedEvent} (hevent : inspectFrame o.serde last = .ok (.keep event))
    (hkind : event.kind = "response.completed" ∨ event.kind = "response.incomplete")
    {body : List Poll} (hbody : upstreamBytes body = (frames ++ [last]).flatten) :
    validatedStream o body = (frames ++ [last]).flatten := by
  rw [validatedStream_append o hscan hframes hbody,
    verdict_completed o _ _ hlast hevent hkind, List.flatten_append]

end MuseCodex.Gateway
