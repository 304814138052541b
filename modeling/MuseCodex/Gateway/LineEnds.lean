import MuseCodex.Gateway.Failure

/-!
# The validator and the ends of lines

A stream of events can be written with LF, CRLF, or CR at the end of its lines. The scanner cuts
the same events out of it in all three cases, but for one: it does not take a CR at the end of the
buffer for a blank line, since an LF may follow, and nothing looks at the buffer again when the
body ends. So the last event of a stream that is written with CRs is never inspected
(`frames_streamBytes`). The inspection of an event does not depend on the ends of its lines
(`inspectFrame_eventBytes`), and its size does: a CRLF takes one byte more.

`decisions` is what the validator decides on a body: which frames it forwards and drops, in order,
and the kind of the event that it ends the stream with (`validatedFrames_decisions`).
`decisions_eq_iff` says for which streams the three are the same.
-/

namespace MuseCodex.Gateway

open Text Json

/-! ## Decisions -/

/-- What becomes of a frame that does not end the stream. -/
inductive Decision where
  | forwarded
  | dropped
deriving DecidableEq

/-- The decisions on the frames of a stream up to the one that ends it, and the kind of the event
that it ends with. -/
structure Course where
  decisions : List Decision
  terminal : String
deriving DecidableEq

/-- A course with one more decision before it. -/
def Course.after (decision : Decision) (course : Course) : Course :=
  { course with decisions := decision :: course.decisions }

/-- A course that ends with a failure at once. -/
def Course.failed : Course := ⟨[], "response.failed"⟩

/-- The course of a frame that was inspected, and of the frames after it. -/
def settle (inspected : Except String FrameDisposition) (next : Course) : Course :=
  match inspected with
  | .ok (.keep event) =>
    if isFailureEvent event.kind then .failed
    else if isTerminalEvent event.kind then ⟨[], event.kind⟩
    else next.after .forwarded
  | .ok (.drop _) => next.after .dropped
  | .error _ => .failed

/-- The course of the frames of a body. -/
def course (o : Options) : List Bytes → Course
  | [] => .failed
  | frame :: frames =>
    if o.maxEventBytes < frame.length then .failed
    else settle (inspectFrame o.serde frame) (course o frames)

/-- What the validator decides on an upstream body. -/
def decisions (o : Options) (body : List Poll) : Course :=
  course o (scanner.frames (upstreamBytes body))

/-- The frames that are forwarded. -/
def forwardedFrames : List Decision → List Bytes → List Bytes
  | .forwarded :: ds, frame :: frames => frame :: forwardedFrames ds frames
  | .dropped :: ds, _ :: frames => forwardedFrames ds frames
  | _, _ => []

/-- The verdict is the course of its frames: the forwarded ones, and an event of the terminal
kind. -/
theorem verdict_course {o : Options} (hserde : o.serde.Lawful) (e : Ending) {id : Identity}
    (hnumber : id.lastSequence < 2 ^ 64) (frames : List Bytes) (rest : Bytes) :
    ∃ terminal event, inspectFrame o.serde terminal = .ok (.keep event) ∧
      event.kind = (course o frames).terminal ∧
      verdict o e id frames rest =
        forwardedFrames (course o frames).decisions frames ++ [terminal] := by
  induction frames generalizing id with
  | nil => exact ⟨_, _, inspectFrame_failureFrame hserde _ _ (by omega) .., rfl, rfl⟩
  | cons frame frames ih =>
    rw [verdict, course]
    by_cases hlen : o.maxEventBytes < frame.length
    · rw [if_pos hlen, if_pos hlen]
      exact ⟨_, _, inspectFrame_failureFrame hserde _ _ (by omega) .., rfl, rfl⟩
    rw [if_neg hlen, if_neg hlen]
    cases hi : inspectFrame o.serde frame with
    | error reason => exact ⟨_, _, inspectFrame_failureFrame hserde _ _ (by omega) .., rfl, rfl⟩
    | ok disposition =>
      cases disposition with
      | drop event =>
        have hobserved := Identity.observe_lt hserde (.inr hi) hnumber
        obtain ⟨terminal, last, hlast, hkind, hverdict⟩ := ih hobserved
        exact ⟨terminal, last, hlast, hkind, hverdict⟩
      | keep event =>
        have hobserved := Identity.observe_lt hserde (.inl hi) hnumber
        dsimp only [settle]
        split_ifs with hfail hterm
        · exact ⟨_, _, inspectFrame_failureFrame hserde _ _ hobserved .., rfl, rfl⟩
        · exact ⟨frame, event, hi, rfl, rfl⟩
        · obtain ⟨terminal, last, hlast, hkind, hverdict⟩ := ih hobserved
          refine ⟨terminal, last, hlast, hkind, ?_⟩
          rw [hverdict]
          rfl

/-- The validated stream yields the frames that it decides to forward, and then an event of the
kind that it decides to end with. -/
theorem validatedFrames_decisions {o : Options} (hserde : o.serde.Lawful) (body : List Poll) :
    ∃ terminal event, inspectFrame o.serde terminal = .ok (.keep event) ∧
      event.kind = (decisions o body).terminal ∧
      validatedFrames o body = forwardedFrames (decisions o body).decisions
        (scanner.frames (upstreamBytes body)) ++ [terminal] := by
  have hstart : ({} : Identity).lastSequence < 2 ^ 64 := by decide
  rw [validatedFrames_eq]
  exact verdict_course hserde _ hstart _ _

/-! ## Streams of events -/

/-- How lines end. -/
inductive LineEnd where
  | lf
  | crlf
  | cr
deriving DecidableEq

/-- The text of a line end. -/
def LineEnd.text : LineEnd → String
  | .lf => "\n"
  | .crlf => "\r\n"
  | .cr => "\r"

/-- The bytes of a line end. -/
def LineEnd.bytes : LineEnd → Bytes
  | .lf => [LF]
  | .crlf => [CR, LF]
  | .cr => [CR]

/-- The bytes of a line end are those of its text. -/
theorem toUtf8_lineEnd (e : LineEnd) : toUtf8 e.text = e.bytes := by
  cases e <;> decide

/-- Lines, each with its end. -/
def linesText (e : LineEnd) : List String → String
  | [] => ""
  | line :: lines => line ++ e.text ++ linesText e lines

/-- The frame of an event: its lines, and a blank line. -/
def eventBytes (e : LineEnd) (event : List String) : Bytes := toUtf8 (linesText e (event ++ [""]))

/-- The frames of events. -/
def streamBytes (e : LineEnd) (events : List (List String)) : Bytes :=
  (events.map (eventBytes e)).flatten

/-- The bytes of a stream are those of its events. -/
theorem streamBytes_cons (e : LineEnd) (event : List String) (events : List (List String)) :
    streamBytes e (event :: events) = eventBytes e event ++ streamBytes e events := rfl

/-- The bytes of lines, each with its end. -/
def linesBytes (e : LineEnd) (lines : List String) : Bytes :=
  lines.flatMap fun line => toUtf8 line ++ e.bytes

/-- The bytes of lines are those of their text. -/
theorem toUtf8_linesText (e : LineEnd) (lines : List String) :
    toUtf8 (linesText e lines) = linesBytes e lines := by
  induction lines with
  | nil => rfl
  | cons line lines ih =>
    rw [linesText, toUtf8_append, toUtf8_append, ih, toUtf8_lineEnd]
    rfl

/-- The bytes of an event are those of its lines and of a line end. -/
theorem eventBytes_eq (e : LineEnd) (event : List String) :
    eventBytes e event = linesBytes e event ++ e.bytes := by
  rw [eventBytes, toUtf8_linesText, linesBytes, List.flatMap_append, List.flatMap_singleton]
  rfl

/-! ## The frames of a stream -/

/-- Lines that a blank line does not end. -/
def IsEvent (event : List String) : Prop := ∀ line ∈ event, OneLine line ∧ line ≠ ""

/-- The bytes of a line that is not empty start with none of a line end. -/
theorem toUtf8_line {line : String} (h : OneLine line ∧ line ≠ "") :
    ∃ b bs, toUtf8 line = b :: bs ∧ b ≠ LF ∧ b ≠ CR := by
  cases hbytes : toUtf8 line with
  | nil =>
    have hempty : toUtf8 line = toUtf8 "" := hbytes
    exact absurd (toUtf8_injective hempty) h.2
  | cons b bs => exact ⟨b, bs, rfl, h.1.toUtf8 (by rw [hbytes]; exact List.mem_cons_self)⟩

/-- What follows a CR that ends a line, unless it is at the end of the buffer. -/
def AfterCr (e : LineEnd) (rest : Bytes) : Prop := e = .cr → ∃ b bs, rest = b :: bs ∧ b ≠ LF

/-- What follows a line is no LF. -/
theorem afterCr_linesBytes (e : LineEnd) {lines : List String} (h : IsEvent lines) {rest : Bytes}
    (hrest : AfterCr e rest) : AfterCr e (linesBytes e lines ++ rest) := by
  cases lines with
  | nil => exact hrest
  | cons line lines =>
    intro _
    obtain ⟨b, bs, hb, hlf, -⟩ := toUtf8_line (h line List.mem_cons_self)
    refine ⟨b, bs ++ e.bytes ++ linesBytes e lines ++ rest, ?_, hlf⟩
    rw [linesBytes, List.flatMap_cons, hb]
    rfl

/-- The scanner passes over lines that are not empty. -/
theorem completeFrameLenFrom_linesBytes (e : LineEnd) {lines : List String} (h : IsEvent lines)
    (index : ℕ) {rest : Bytes} (hrest : AfterCr e rest) :
    completeFrameLenFrom index index (linesBytes e lines ++ rest) =
      completeFrameLenFrom (index + (linesBytes e lines).length)
        (index + (linesBytes e lines).length) rest := by
  induction lines generalizing index with
  | nil => rfl
  | cons line lines ih =>
    obtain ⟨hline, hlines⟩ := List.forall_mem_cons.mp h
    obtain ⟨b, bs, hb, -, -⟩ := toUtf8_line hline
    have hpos : 0 < (toUtf8 line).length := by
      rw [hb]
      exact Nat.succ_pos _
    have hsplit : linesBytes e (line :: lines) ++ rest =
        toUtf8 line ++ (e.bytes ++ (linesBytes e lines ++ rest)) := by
      rw [linesBytes, List.flatMap_cons, List.append_assoc, List.append_assoc]
      rfl
    have hlen : (linesBytes e (line :: lines)).length =
        (toUtf8 line).length + e.bytes.length + (linesBytes e lines).length := by
      rw [linesBytes, List.flatMap_cons, List.length_append, List.length_append]
      rfl
    -- The line has bytes, so its end is no blank line.
    have hend (rest : Bytes) (hrest : AfterCr e rest) :
        completeFrameLenFrom index (index + (toUtf8 line).length) (e.bytes ++ rest) =
          completeFrameLenFrom (index + (toUtf8 line).length + e.bytes.length)
            (index + (toUtf8 line).length + e.bytes.length) rest := by
      cases e with
      | lf => exact (completeFrameLenFrom_lf _ _ _).trans (if_neg (by omega))
      | crlf => exact (completeFrameLenFrom_crlf _ _ _).trans (if_neg (by omega))
      | cr =>
        obtain ⟨b, bs, rfl, hlf⟩ := hrest rfl
        exact (completeFrameLenFrom_cr _ _ _ hlf).trans (if_neg (by omega))
    rw [hsplit, completeFrameLenFrom_line (fun b hb => hline.1.toUtf8 hb),
      hend _ (afterCr_linesBytes e hlines hrest), ih hlines, hlen]
    congr 1 <;> omega

/-- A blank line ends the frame, unless its CR is at the end of the buffer. -/
theorem completeFrameLen_eventBytes (e : LineEnd) {event : List String} (h : IsEvent event)
    {t : Bytes} (ht : AfterCr e t) :
    completeFrameLen (eventBytes e event ++ t) = some (eventBytes e event).length := by
  have hblank : AfterCr e (e.bytes ++ t) := by
    rintro rfl
    exact ⟨CR, t, rfl, by decide⟩
  rw [completeFrameLen, eventBytes_eq, List.append_assoc,
    completeFrameLenFrom_linesBytes e h 0 hblank, List.length_append]
  simp only [Nat.zero_add]
  cases e with
  | lf => exact (completeFrameLenFrom_lf _ _ _).trans (if_pos rfl)
  | crlf => exact (completeFrameLenFrom_crlf _ _ _).trans (if_pos rfl)
  | cr =>
    obtain ⟨b, bs, rfl, hlf⟩ := ht rfl
    exact (completeFrameLenFrom_cr _ _ _ hlf).trans (if_pos rfl)

/-- The CR of the last blank line leaves the answer open. -/
theorem completeFrameLen_eventBytes_cr {event : List String} (h : IsEvent event) :
    completeFrameLen (eventBytes .cr event) = none := by
  have hblank : AfterCr .cr [CR] := fun _ => ⟨CR, [], rfl, by decide⟩
  rw [completeFrameLen, eventBytes_eq, LineEnd.bytes,
    completeFrameLenFrom_linesBytes .cr h 0 hblank]
  rfl

/-- What follows the CR of a blank line, when another event comes, is no LF. -/
theorem afterCr_eventBytes (e : LineEnd) {event : List String} (h : IsEvent event) (t : Bytes) :
    AfterCr e (eventBytes e event ++ t) := by
  rw [eventBytes_eq, List.append_assoc]
  refine afterCr_linesBytes e h ?_
  rintro rfl
  exact ⟨CR, t, rfl, by decide⟩

/-- The frames that the scanner cuts a stream into: those of all events, but for the last one when
lines end with a CR. -/
theorem frames_streamBytes (e : LineEnd) {events : List (List String)}
    (h : ∀ event ∈ events, IsEvent event) :
    scanner.frames (streamBytes e events) =
      (if e = .cr then events.dropLast else events).map (eventBytes e) := by
  induction events with
  | nil =>
    rw [streamBytes, List.map_nil, List.flatten_nil, Framing.Scanner.frames_of_none rfl]
    cases e <;> rfl
  | cons event events ih =>
    obtain ⟨hevent, hevents⟩ := List.forall_mem_cons.mp h
    -- The first frame, when its blank line is complete.
    have hfirst (ht : AfterCr e (streamBytes e events)) :
        scanner.frames (streamBytes e (event :: events)) =
          eventBytes e event :: scanner.frames (streamBytes e events) := by
      have hscan := completeFrameLen_eventBytes e hevent ht
      rw [streamBytes_cons, Framing.Scanner.frames_of_some (s := scanner) hscan, List.take_left,
        List.drop_left]
    cases events with
    | nil =>
      by_cases he : e = .cr
      · subst he
        rw [streamBytes, List.map_singleton, List.flatten_singleton,
          Framing.Scanner.frames_of_none (s := scanner) (completeFrameLen_eventBytes_cr hevent)]
        rfl
      · rw [hfirst (fun h => absurd h he), ih hevents, if_neg he, if_neg he]
        rfl
    | cons next events =>
      have hnext : AfterCr e (streamBytes e (next :: events)) := by
        rw [streamBytes_cons]
        exact afterCr_eventBytes e (hevents next List.mem_cons_self) _
      rw [hfirst hnext, ih hevents]
      split_ifs <;> rfl

/-! ## The inspection of an event -/

/-- The pieces of lines, split at every character of a line end, are read as the lines. -/
theorem foldl_readLine_linesText (e : LineEnd) {lines : List String}
    (h : ∀ line ∈ lines, OneLine line) (fields : Fields) :
    ((splitChars (fun c => c = '\r' || c = '\n') (linesText e lines).toList).map
      String.ofList).foldl Fields.readLine fields = lines.foldl Fields.readLine fields := by
  induction lines generalizing fields with
  | nil => rfl
  | cons line lines ih =>
    obtain ⟨hline, hlines⟩ := List.forall_mem_cons.mp h
    have hchars : ∀ c ∈ line.toList, (c = '\r' || c = '\n') = false := by
      intro c hc
      obtain ⟨hcr, hlf⟩ := hline c hc
      simp [hcr, hlf]
    have hrest := ih hlines (fields.readLine line)
    rw [linesText, String.toList_append, String.toList_append, List.append_assoc, List.foldl_cons,
      ← hrest]
    cases e with
    | lf =>
      rw [show LineEnd.lf.text.toList = ['\n'] from rfl, List.singleton_append,
        splitChars_append hchars (by decide), List.map_cons, String.ofList_toList, List.foldl_cons]
    | cr =>
      rw [show LineEnd.cr.text.toList = ['\r'] from rfl, List.singleton_append,
        splitChars_append hchars (by decide), List.map_cons, String.ofList_toList, List.foldl_cons]
    | crlf =>
      -- The CRLF is split into two ends, with an empty line between them.
      rw [show LineEnd.crlf.text.toList = ['\r', '\n'] from rfl, List.cons_append,
        List.singleton_append, splitChars_append hchars (by decide), List.map_cons,
        String.ofList_toList, List.foldl_cons]
      rfl

/-- The fields of lines do not depend on how the lines end. -/
theorem ofText_linesText (e e' : LineEnd) {lines : List String}
    (h : ∀ line ∈ lines, OneLine line) :
    Fields.ofText (linesText e lines) = Fields.ofText (linesText e' lines) := by
  rw [Fields.ofText_eq, Fields.ofText_eq]
  cases lines with
  | nil => rfl
  | cons line lines =>
    obtain ⟨hline, hlines⟩ := List.forall_mem_cons.mp h
    -- A byte-order mark is part of the first line.
    have hbom (e : LineEnd) :
        (stripPrefix '\ufeff' (linesText e (line :: lines))).getD (linesText e (line :: lines)) =
          linesText e ((stripPrefix '\ufeff' line).getD line :: lines) := by
      simp only [linesText, String.append_assoc]
      refine stripPrefix_append _ (.inr ?_)
      rw [String.toList_append]
      cases e <;> exact nofun
    have hstripped : OneLine ((stripPrefix '\ufeff' line).getD line) := by
      unfold stripPrefix
      split
      · exact hline
      · rename_i d cs hcs
        split_ifs
        · intro c hc
          rw [Option.getD_some, String.toList_ofList] at hc
          exact hline c (by rw [hcs]; exact List.mem_cons_of_mem _ hc)
        · exact hline
    have hlines' := List.forall_mem_cons.mpr ⟨hstripped, hlines⟩
    rw [hbom, hbom, foldl_readLine_linesText e hlines', foldl_readLine_linesText e' hlines']

/-- The inspection of an event does not depend on how its lines end. -/
theorem inspectFrame_eventBytes (serde : Serde) (e e' : LineEnd) {event : List String}
    (h : IsEvent event) :
    inspectFrame serde (eventBytes e event) = inspectFrame serde (eventBytes e' event) := by
  have hlines : ∀ line ∈ event ++ [""], OneLine line := by
    rw [List.forall_mem_append, List.forall_mem_singleton]
    exact ⟨fun line hline => (h line hline).1, nofun⟩
  unfold inspectFrame eventBytes
  rw [fromUtf8_toUtf8, fromUtf8_toUtf8]
  dsimp only
  rw [ofText_linesText e e' hlines]

/-- The size of an event: a CRLF takes one byte more. -/
theorem length_eventBytes (event : List String) :
    (eventBytes .cr event).length = (eventBytes .lf event).length ∧
      (eventBytes .crlf event).length = (eventBytes .lf event).length + event.length + 1 := by
  have hlines : (linesBytes .cr event).length = (linesBytes .lf event).length ∧
      (linesBytes .crlf event).length = (linesBytes .lf event).length + event.length := by
    induction event with
    | nil => exact ⟨rfl, rfl⟩
    | cons line event ih =>
      unfold linesBytes at ih ⊢
      simp only [List.flatMap_cons, List.length_append, LineEnd.bytes, List.length_cons,
        List.length_nil] at ih ⊢
      omega
  simp only [eventBytes_eq, List.length_append, LineEnd.bytes, List.length_cons, List.length_nil]
  omega

/-! ## The decisions on a stream -/

/-- Whether a frame makes the stream fail when it is inspected. -/
def fails : Except String FrameDisposition → Bool
  | .ok (.keep event) => isFailureEvent event.kind
  | .ok (.drop _) => false
  | .error _ => true

/-- Whether the stream goes on after a frame that was inspected. -/
def goesOn : Except String FrameDisposition → Bool
  | .ok (.keep event) => !isFailureEvent event.kind && !isTerminalEvent event.kind
  | .ok (.drop _) => true
  | .error _ => false

/-- A frame that fails ends the course. -/
theorem settle_of_fails {inspected : Except String FrameDisposition} (h : fails inspected = true)
    (next : Course) : settle inspected next = .failed := by
  cases inspected with
  | error reason => rfl
  | ok disposition =>
    cases disposition with
    | keep event => exact if_pos h
    | drop event => cases h

/-- Only a failure ends the stream with a failure at once. -/
theorem fails_of_settle {inspected : Except String FrameDisposition} {next : Course}
    (h : settle inspected next = .failed) : fails inspected = true := by
  cases inspected with
  | error reason => rfl
  | ok disposition =>
    cases disposition with
    | drop event => exact absurd (congrArg Course.decisions h) nofun
    | keep event =>
      by_contra hfails
      have hfail : isFailureEvent event.kind = false := by simpa [fails] using hfails
      rw [settle, if_neg (by simp [hfail])] at h
      split_ifs at h with hterm
      · have hkind : event.kind = "response.failed" := congrArg Course.terminal h
        rw [hkind] at hfail
        exact absurd hfail (by decide)
      · exact absurd (congrArg Course.decisions h) nofun

/-- What comes after a frame matters when the stream goes on. -/
theorem settle_eq_iff (inspected : Except String FrameDisposition) (next next' : Course) :
    settle inspected next = settle inspected next' ↔ (goesOn inspected = true → next = next') := by
  have hafter (decision : Decision) :
      next.after decision = next'.after decision ↔ next = next' := by
    cases next
    cases next'
    simp [Course.after]
  cases inspected with
  | error reason => exact iff_of_true rfl nofun
  | ok disposition =>
    cases disposition with
    | drop event => exact (hafter .dropped).trans ⟨fun h _ => h, fun h => h rfl⟩
    | keep event =>
      unfold settle goesOn
      dsimp only
      split_ifs with hfail hterm
      · exact iff_of_true rfl (by simp [hfail])
      · exact iff_of_true rfl (by simp [hterm])
      · rw [hafter]
        simp [hfail, hterm]

/-- The inspection of an event. -/
def inspectEvent (o : Options) (event : List String) : Except String FrameDisposition :=
  inspectFrame o.serde (eventBytes .lf event)

/-- The events that are reached fit the size limit with both kinds of bytes that end their lines,
and none of them is the last; an event that makes the stream fail may be any. -/
def EndsAgree (o : Options) : List (List String) → Prop
  | [] => True
  | event :: events => (eventBytes .lf event).length ≤ o.maxEventBytes →
      (o.maxEventBytes < (eventBytes .crlf event).length ∨ events = [] →
        fails (inspectEvent o event) = true) ∧
      (goesOn (inspectEvent o event) = true → EndsAgree o events)

/-- The course of the frames of events. -/
theorem course_map (o : Options) (e : LineEnd) {event : List String} (h : IsEvent event)
    (events : List (List String)) :
    course o ((event :: events).map (eventBytes e)) =
      if o.maxEventBytes < (eventBytes e event).length then .failed
      else settle (inspectEvent o event) (course o (events.map (eventBytes e))) := by
  rw [List.map_cons, course, inspectFrame_eventBytes o.serde e .lf h]
  rfl

/-- An event cannot fail and let the stream go on. -/
theorem goesOn_of_fails {inspected : Except String FrameDisposition} (h : fails inspected = true) :
    goesOn inspected = false := by
  cases inspected with
  | error reason => rfl
  | ok disposition =>
    cases disposition with
    | drop event => cases h
    | keep event =>
      have hfail : isFailureEvent event.kind = true := h
      simp [goesOn, hfail]

/-- The course is the same for all line ends exactly when the events that are reached fit with each
of them, and none of them is the last. -/
theorem course_eq_iff (o : Options) {events : List (List String)}
    (h : ∀ event ∈ events, IsEvent event) :
    (course o (events.map (eventBytes .crlf)) = course o (events.map (eventBytes .lf)) ∧
        course o (events.dropLast.map (eventBytes .cr)) = course o (events.map (eventBytes .lf))) ↔
      EndsAgree o events := by
  induction events with
  | nil => exact iff_of_true ⟨rfl, rfl⟩ trivial
  | cons event events ih =>
    obtain ⟨hevent, hevents⟩ := List.forall_mem_cons.mp h
    obtain ⟨hcr, hcrlf⟩ := length_eventBytes event
    have ih := ih hevents
    rw [course_map o .crlf hevent, course_map o .lf hevent, EndsAgree]
    by_cases hlong : o.maxEventBytes < (eventBytes .lf event).length
    · -- The event is too long with any line ends.
      refine iff_of_true ⟨?_, ?_⟩ fun hle => absurd hle (by omega)
      · rw [if_pos hlong, if_pos (by omega)]
      · rw [if_pos hlong]
        cases events with
        | nil => rfl
        | cons next events =>
          rw [List.dropLast_cons_cons, course_map o .cr hevent, if_pos (by omega)]
    rw [if_neg hlong]
    -- The stream with CRs goes on after the event, unless it is the last.
    have hcourse : course o ((event :: events).dropLast.map (eventBytes .cr)) =
        if events = [] then .failed
        else settle (inspectEvent o event) (course o (events.dropLast.map (eventBytes .cr))) := by
      cases events with
      | nil => rfl
      | cons next events =>
        rw [List.dropLast_cons_cons, course_map o .cr hevent, if_neg (by omega),
          if_neg (List.cons_ne_nil _ _)]
    rw [hcourse]
    constructor
    · rintro ⟨hcrlf', hcr'⟩ -
      have hfails (hlast : o.maxEventBytes < (eventBytes .crlf event).length ∨ events = []) :
          fails (inspectEvent o event) = true := by
        rcases hlast with hlast | hlast
        · rw [if_pos hlast] at hcrlf'
          exact fails_of_settle hcrlf'.symm
        · rw [if_pos hlast] at hcr'
          exact fails_of_settle hcr'.symm
      refine ⟨hfails, fun hon => ih.mp ?_⟩
      have hnot (hlast : o.maxEventBytes < (eventBytes .crlf event).length ∨ events = []) :
          False := by
        rw [goesOn_of_fails (hfails hlast)] at hon
        cases hon
      rw [if_neg fun h => hnot (.inl h), settle_eq_iff] at hcrlf'
      rw [if_neg fun h => hnot (.inr h), settle_eq_iff] at hcr'
      exact ⟨hcrlf' hon, hcr' hon⟩
    · intro hagree
      obtain ⟨hfails, hrest⟩ := hagree (by omega)
      -- Where the event fails, nothing else matters.
      have hsettle {long : Prop} [Decidable long] (hlong : long → fails (inspectEvent o event) = true)
          {next : Course} (hnext : goesOn (inspectEvent o event) = true →
            next = course o (events.map (eventBytes .lf))) :
          (if long then .failed else settle (inspectEvent o event) next) =
            settle (inspectEvent o event) (course o (events.map (eventBytes .lf))) := by
        split_ifs with h
        · rw [settle_of_fails (hlong h)]
        · exact (settle_eq_iff _ _ _).mpr hnext
      exact ⟨hsettle (fun h => hfails (.inl h)) fun hon => (ih.mpr (hrest hon)).1,
        hsettle (fun h => hfails (.inr h)) fun hon => (ih.mpr (hrest hon)).2⟩

/-! ## Empty lines

A line of an event may itself be empty, and then it ends the event. The stream is the same as that
of the events between the empty lines. -/

/-- The lines between the empty ones, each group with the empty line that ends it. -/
def groups : List String → List (List String)
  | [] => []
  | line :: lines =>
    if line = "" then [] :: groups lines
    else match groups lines with
      | [] => [[line]]
      | group :: rest => (line :: group) :: rest

/-- The events of a stream, where an empty line ends an event. -/
def splitEvents (events : List (List String)) : List (List String) :=
  groups (events.flatMap (· ++ [""]))

/-- Some lines make some groups. -/
theorem groups_ne_nil {lines : List String} (h : lines ≠ []) : groups lines ≠ [] := by
  cases lines with
  | nil => exact absurd rfl h
  | cons line lines =>
    rw [groups]
    split_ifs
    · simp
    · split <;> simp

/-- Lines that end with an empty one are those of their groups. -/
theorem flatMap_groups {lines : List String} (h : ∀ line ∈ lines.getLast?, line = "") :
    (groups lines).flatMap (· ++ [""]) = lines := by
  induction lines with
  | nil => rfl
  | cons line lines ih =>
    rw [groups]
    cases lines with
    | nil =>
      have hline : line = "" := h line rfl
      rw [if_pos hline, hline]
      rfl
    | cons next lines =>
      have hrest := ih h
      split_ifs with hline
      · rw [hline, List.flatMap_cons, hrest]
        rfl
      · obtain ⟨group, rest, hgroups⟩ :=
          List.exists_cons_of_ne_nil (groups_ne_nil (List.cons_ne_nil next lines))
        rw [hgroups] at hrest ⊢
        rw [List.flatMap_cons] at hrest ⊢
        rw [List.cons_append, List.cons_append, hrest]

/-- The lines of the groups are lines, and none of them is empty. -/
theorem mem_groups {lines : List String} : ∀ group ∈ groups lines, ∀ line ∈ group,
    line ∈ lines ∧ line ≠ "" := by
  induction lines with
  | nil => nofun
  | cons first lines ih =>
    -- The groups of the rest have lines of the rest.
    have hrest {group : List String} (hgroup : group ∈ groups lines) {line : String}
        (hline : line ∈ group) : line ∈ first :: lines ∧ line ≠ "" :=
      ⟨List.mem_cons_of_mem _ (ih group hgroup line hline).1, (ih group hgroup line hline).2⟩
    intro group hgroup line hline
    rw [groups] at hgroup
    split_ifs at hgroup with hempty
    · rcases List.mem_cons.mp hgroup with rfl | hgroup
      · cases hline
      · exact hrest hgroup hline
    · cases hgroups : groups lines with
      | nil =>
        rw [hgroups] at hgroup
        cases List.mem_singleton.mp hgroup
        cases List.mem_singleton.mp hline
        exact ⟨List.mem_cons_self, hempty⟩
      | cons head tail =>
        rw [hgroups] at hgroup
        rcases List.mem_cons.mp hgroup with rfl | hgroup
        · rcases List.mem_cons.mp hline with rfl | hline
          · exact ⟨List.mem_cons_self, hempty⟩
          · exact hrest (by rw [hgroups]; exact List.mem_cons_self) hline
        · exact hrest (by rw [hgroups]; exact List.mem_cons_of_mem _ hgroup) hline

/-- The bytes of a stream are those of its lines. -/
theorem streamBytes_eq (e : LineEnd) (events : List (List String)) :
    streamBytes e events = linesBytes e (events.flatMap (· ++ [""])) := by
  induction events with
  | nil => rfl
  | cons event events ih =>
    rw [streamBytes_cons, ih, eventBytes, toUtf8_linesText, List.flatMap_cons, linesBytes,
      linesBytes, linesBytes, ← List.flatMap_append]

/-- A stream is that of its events. -/
theorem streamBytes_splitEvents (e : LineEnd) (events : List (List String)) :
    streamBytes e (splitEvents events) = streamBytes e events := by
  have hlast : ∀ line ∈ (events.flatMap (· ++ [""])).getLast?, line = "" := by
    intro line hline
    rcases List.eq_nil_or_concat' events with rfl | ⟨before, event, rfl⟩
    · cases hline
    · rw [List.flatMap_append, List.flatMap_singleton, ← List.append_assoc,
        List.getLast?_concat] at hline
      exact (Option.some.inj hline).symm
  rw [streamBytes_eq, streamBytes_eq, splitEvents, flatMap_groups hlast]

/-- The validator takes the same decisions on a stream of events with all three line ends, however
it is cut into chunks, exactly when every event that is reached fits the size limit with CRLF as it
does with LF and is not the last one, except that an event which makes the stream fail may be
any. -/
theorem decisions_eq_iff (o : Options) {events : List (List String)}
    (h : ∀ event ∈ events, ∀ line ∈ event, OneLine line) :
    (∀ e e' body body', upstreamBytes body = streamBytes e events →
        upstreamBytes body' = streamBytes e' events → decisions o body = decisions o body') ↔
      EndsAgree o (splitEvents events) := by
  have hevents : ∀ event ∈ splitEvents events, IsEvent event := by
    intro event hevent line hline
    obtain ⟨hmem, hne⟩ := mem_groups event hevent line hline
    refine ⟨?_, hne⟩
    obtain ⟨source, hsource, hmem⟩ := List.mem_flatMap.mp hmem
    rcases List.mem_append.mp hmem with hmem | hmem
    · exact h source hsource line hmem
    · exact absurd (List.mem_singleton.mp hmem) hne
  have hdecisions {e : LineEnd} {body : List Poll}
      (hbody : upstreamBytes body = streamBytes e events) : decisions o body =
      course o ((if e = .cr then (splitEvents events).dropLast else splitEvents events).map
        (eventBytes e)) := by
    rw [decisions, hbody, ← streamBytes_splitEvents, frames_streamBytes e hevents]
  rw [← course_eq_iff o hevents]
  constructor
  · intro hall
    -- One chunk is one way to cut a stream.
    have hchunk (e : LineEnd) :
        upstreamBytes [.chunk (streamBytes e events)] = streamBytes e events :=
      List.append_nil _
    have hcourse (e : LineEnd) := (hdecisions (hchunk e)).symm.trans
      ((hall e .lf _ _ (hchunk e) (hchunk .lf)).trans (hdecisions (hchunk .lf)))
    exact ⟨hcourse .crlf, hcourse .cr⟩
  · rintro ⟨hcrlf, hcr⟩ e e' body body' hbody hbody'
    have hlf (e : LineEnd) :
        course o ((if e = .cr then (splitEvents events).dropLast else splitEvents events).map
          (eventBytes e)) = course o ((splitEvents events).map (eventBytes .lf)) := by
      cases e with
      | lf => rfl
      | crlf => exact hcrlf
      | cr => exact hcr
    rw [hdecisions hbody, hdecisions hbody', hlf e, hlf e']

/-- A delta, and an event that is no JSON. -/
def malformedEvents : List (List String) :=
  [["data: \x7b\"type\":\"response.output_text.delta\",\"delta\":\"\"\x7d"], ["data: x"]]

/-- The stream fails at the second event with all three line ends. -/
theorem decisions_eq_malformed :
    decisions ⟨Compact.serde, MAX_EVENT_BYTES, none, 0⟩ [.chunk (streamBytes .lf malformedEvents)] =
        decisions ⟨Compact.serde, MAX_EVENT_BYTES, none, 0⟩
          [.chunk (streamBytes .crlf malformedEvents)] ∧
      decisions ⟨Compact.serde, MAX_EVENT_BYTES, none, 0⟩ [.chunk (streamBytes .lf malformedEvents)] =
        decisions ⟨Compact.serde, MAX_EVENT_BYTES, none, 0⟩
          [.chunk (streamBytes .cr malformedEvents)] := by
  have hlines : ∀ event ∈ malformedEvents, ∀ line ∈ event, OneLine line := by decide
  have hchunk (bytes : Bytes) : upstreamBytes [.chunk bytes] = bytes := List.append_nil bytes
  have hagree : EndsAgree ⟨Compact.serde, MAX_EVENT_BYTES, none, 0⟩
      (splitEvents malformedEvents) := by
    refine fun _ => ⟨?_, fun _ _ => ⟨fun _ => ?_, fun _ => trivial⟩⟩
    · rintro (hlong | hlast)
      · exact absurd hlong (by decide +kernel)
      · exact absurd hlast (by decide)
    · decide +kernel
  have heq := (decisions_eq_iff _ hlines).mpr hagree
  exact ⟨heq .lf .crlf _ _ (hchunk _) (hchunk _), heq .lf .cr _ _ (hchunk _) (hchunk _)⟩

/-- A response that is completed by the only event of the stream: the validator forwards the event
when its lines end with LF, and never inspects it when they end with CR. -/
theorem decisions_completed_cr :
    decisions ⟨Compact.serde, MAX_EVENT_BYTES, none, 0⟩ [.chunk (streamBytes .lf
        [["data: \x7b\"type\":\"response.completed\",\"response\":\x7b\"id\":\"r\"\x7d\x7d"]])] =
      ⟨[], "response.completed"⟩ ∧
    decisions ⟨Compact.serde, MAX_EVENT_BYTES, none, 0⟩ [.chunk (streamBytes .cr
        [["data: \x7b\"type\":\"response.completed\",\"response\":\x7b\"id\":\"r\"\x7d\x7d"]])] =
      ⟨[], "response.failed"⟩ := by
  decide +kernel

end MuseCodex.Gateway
