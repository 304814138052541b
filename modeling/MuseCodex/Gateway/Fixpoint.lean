import MuseCodex.Gateway.Sequence
import MuseCodex.Json.Size

/-!
# The validator on its own output

The validated stream is what the validator makes of it once more, but for the clock and the message
of a failure frame (`validatedFrames_fixpoint`). Two arguments come together. The frames that are
forwarded are cut out of the output where they were cut out of the upstream body, although what
stood between them is gone: the end of a frame depends on what follows only when it is a lone CR,
and no frame that is forwarded starts with an LF (`cut_of_parted`). And a failure frame is itself
an event that reports a failure, of which the next failure frame repeats all that the first one
says (`Cause.frame_recovered`), provided that it is within the size limit. It is, since everything
that it repeats is bounded (`Cause.frame_size`).
-/

namespace MuseCodex.Gateway

open Text Json

/-! ## Frames cut again -/

/-- A lone CR ends the frame before `t`: what follows it is there, and is no LF. -/
def Parted (frame t : Bytes) : Prop := frame.getLast? = some CR → ∃ b bs, t = b :: bs ∧ b ≠ LF

/-- What is parted from a frame is parted from its end. -/
theorem Parted.of_cons {b : UInt8} {frame t : Bytes} (h : Parted (b :: frame) t) :
    Parted frame t := by
  intro hlast
  refine h ?_
  rw [List.getLast?_cons, hlast]
  rfl

/-- A frame that the scanner found before some input is found before any other that it is parted
from. -/
theorem completeFrameLenFrom_parted {lineStart index n : ℕ} {frame t t' : Bytes}
    (h : completeFrameLenFrom lineStart index (frame ++ t) = some n)
    (hn : n = index + frame.length) (ht : Parted frame t') :
    completeFrameLenFrom lineStart index (frame ++ t') = some n := by
  fun_induction completeFrameLenFrom lineStart index frame with
  | case1 lineStart index =>
    have hlt := (completeFrameLenFrom_bounds h).1
    rw [List.length_nil] at hn
    omega
  | case2 index rest =>
    rw [List.cons_append, completeFrameLenFrom_lf, if_pos rfl] at h ⊢
    exact h
  | case3 lineStart index rest hne ih =>
    rw [List.cons_append, completeFrameLenFrom_lf, if_neg hne] at h ⊢
    rw [List.length_cons] at hn
    exact ih h (by omega) ht.of_cons
  | case4 lineStart index =>
    obtain ⟨b, bs, rfl, hb⟩ := ht rfl
    rw [List.length_singleton] at hn
    rw [List.cons_append, List.nil_append, completeFrameLenFrom_cr _ _ _ hb]
    -- The frame ends with this CR, so its last line starts with it.
    have hblank : index = lineStart := by
      by_contra hne
      cases t with
      | nil => cases h
      | cons next t =>
        by_cases hlf : next = LF
        · rw [hlf, List.cons_append, List.nil_append, completeFrameLenFrom_crlf, if_neg hne] at h
          have hlt := (completeFrameLenFrom_bounds h).1
          omega
        · rw [List.cons_append, List.nil_append, completeFrameLenFrom_cr _ _ _ hlf,
            if_neg hne] at h
          have hlt := (completeFrameLenFrom_bounds h).1
          omega
    rw [if_pos hblank, hn]
  | case5 index rest =>
    rw [List.cons_append, List.cons_append, completeFrameLenFrom_crlf, if_pos rfl] at h ⊢
    exact h
  | case6 lineStart index rest hne _ ih =>
    rw [List.cons_append, List.cons_append, completeFrameLenFrom_crlf, if_neg hne] at h ⊢
    rw [List.length_cons, List.length_cons] at hn
    exact ih h (by omega) ht.of_cons.of_cons
  | case7 index next rest hlf =>
    rw [List.cons_append, List.cons_append, completeFrameLenFrom_cr _ _ _ hlf, if_pos rfl] at h ⊢
    exact h
  | case8 lineStart index next rest hlf hne _ ih =>
    rw [List.cons_append, List.cons_append, completeFrameLenFrom_cr _ _ _ hlf, if_neg hne] at h ⊢
    rw [List.length_cons] at hn
    exact ih h (by omega) ht.of_cons
  | case9 lineStart index byte rest hlf hcr ih =>
    rw [List.cons_append, completeFrameLenFrom_byte _ _ _ hlf hcr] at h ⊢
    rw [List.length_cons] at hn
    exact ih h (by omega) ht.of_cons

/-- A frame that the scanner finds, and that is no blank line. -/
structure Framed (frame : Bytes) : Prop where
  scan : ∃ t, completeFrameLen (frame ++ t) = some frame.length
  head : ∃ b bs, frame = b :: bs ∧ b ≠ LF

/-- Frames are cut out of what they make up, whatever stood between them before, unless the last
of them ends with a CR. -/
theorem cut_of_framed {frames : List Bytes} (h : ∀ frame ∈ frames, Framed frame)
    (hlast : frames.flatten.getLast? ≠ some CR) :
    scanner.frames frames.flatten = frames ∧ scanner.rest frames.flatten = [] := by
  have hchained (before : List Bytes) (frame : Bytes) (after : List Bytes)
      (hframes : frames = before ++ frame :: after) :
      scanner.scan (frame ++ (after.flatten ++ [])) = some frame.length := by
    have hframed : ∀ f ∈ frame :: after, Framed f := by
      intro f hf
      exact h f (by rw [hframes]; exact List.mem_append_right _ hf)
    obtain ⟨t, hscan⟩ := (hframed frame List.mem_cons_self).scan
    refine completeFrameLenFrom_parted hscan (Nat.zero_add _).symm ?_
    intro hcr
    cases after with
    | nil =>
      rw [hframes, List.flatten_append, List.flatten_singleton, List.getLast?_append, hcr] at hlast
      exact absurd rfl hlast
    | cons next after =>
      obtain ⟨b, bs, hnext, hb⟩ := (hframed next (by simp)).head
      exact ⟨b, bs ++ after.flatten ++ [], by rw [List.flatten_cons, hnext]; rfl, hb⟩
  have hcut := scanner.cut_of_chained (show scanner.scan [] = none from rfl) hchained
  rwa [List.append_nil] at hcut

/-- A frame of upstream that is kept does not start with an LF: that would be a blank line, which is
dropped. -/
theorem framed_of_keep {serde : Serde} {frame : Bytes}
    (hscan : ∃ t, completeFrameLen (frame ++ t) = some frame.length) {event : InspectedEvent}
    (hkeep : inspectFrame serde frame = .ok (.keep event)) : Framed frame := by
  refine ⟨hscan, ?_⟩
  obtain ⟨t, hscan⟩ := hscan
  have hpos : 0 < frame.length := scanner.pos hscan
  obtain ⟨b, bs, rfl⟩ := List.exists_cons_of_length_pos hpos
  refine ⟨b, bs, rfl, ?_⟩
  rintro rfl
  rw [List.cons_append, completeFrameLen, completeFrameLenFrom_lf, if_pos rfl, Option.some_inj,
    List.length_cons] at hscan
  have hblank : bs = [] := List.length_eq_zero_iff.mp (by omega)
  have hdrop : inspectFrame serde [LF] = .ok (.drop ⟨"sse.comment", none, .null⟩) := rfl
  rw [hblank, hdrop] at hkeep
  cases hkeep

/-! ## Failure frames read again -/

/-- The response id of a failure frame. -/
def repeatedId (responseId : Option String) : String :=
  (responseId.filter safeProtocolIdentifier).getD "resp_muse_codex_protocol_error"

/-- The model of a failure frame. -/
def repeatedModel (model : Option String) : String :=
  (model.filter safeProtocolIdentifier).getD "muse-codex"

/-- A safe identifier, or one that stands for it, is safe. -/
theorem safeProtocolIdentifier_getD (value : Option String) {fallback : String}
    (h : safeProtocolIdentifier fallback = true) :
    safeProtocolIdentifier ((value.filter safeProtocolIdentifier).getD fallback) = true := by
  cases hfilter : value.filter safeProtocolIdentifier with
  | none => exact h
  | some id => exact (Option.filter_eq_some_iff.mp hfilter).2

/-- The id that is repeated is safe. -/
theorem safe_repeatedId (responseId : Option String) :
    safeProtocolIdentifier (repeatedId responseId) = true :=
  safeProtocolIdentifier_getD responseId (by decide)

/-- The model that is repeated is safe. -/
theorem safe_repeatedModel (model : Option String) :
    safeProtocolIdentifier (repeatedModel model) = true :=
  safeProtocolIdentifier_getD model (by decide)

/-- A safe identifier is kept. -/
theorem safeIdentifier_string {s : String} (h : safeProtocolIdentifier s = true) :
    safeIdentifier (some (.string s)) = some s :=
  Option.filter_some_pos h

/-- The class of the code that stands for a class. -/
theorem codeClass_code (c : CodeClass) : codeClass (some c.code) = c := by
  cases c <;> rfl

section

variable (o : Options) (responseId model : Option String) (sequenceNumber : ℕ)
  (c : CodeClass) (message : String) (parameter : Option String)

/-- A failure frame reports the response id that it repeats. -/
theorem reportedId_failureEvent :
    reportedId (failureEvent o responseId model sequenceNumber c.code message parameter) =
      some (repeatedId responseId) := by
  have hmembers : reportedId (failureEvent o responseId model sequenceNumber c.code message
      parameter) = safeIdentifier (some (.string (repeatedId responseId))) := by
    simp [reportedId, safeIdentifier, failureEvent, Value.obj, Map.ofEntries, repeatedId]
  rw [hmembers, safeIdentifier_string (safe_repeatedId responseId)]

/-- A failure frame reports the model that it repeats. -/
theorem reportedModel_failureEvent :
    reportedModel (failureEvent o responseId model sequenceNumber c.code message parameter) =
      some (repeatedModel model) := by
  have hmembers : reportedModel (failureEvent o responseId model sequenceNumber c.code message
      parameter) = safeIdentifier (some (.string (repeatedModel model))) := by
    simp [reportedModel, eventReportedModel, safeIdentifier, failureEvent, Value.obj,
      Map.ofEntries, repeatedModel]
  rw [hmembers, safeIdentifier_string (safe_repeatedModel model)]

/-- A failure frame reports the error that it repeats. -/
theorem sanitizeStreamFailure_failureEvent (hsafe : ∀ p ∈ parameter, safeErrorParameter p = true) :
    sanitizeStreamFailure (failureEvent o responseId model sequenceNumber c.code message
      parameter) = ⟨c.code, c.message, parameter⟩ := by
  have herror : reportedError (failureEvent o responseId model sequenceNumber c.code message
      parameter) = .obj [("code", .string c.code), ("message", .string message),
        ("param", optionalString parameter)] := by
    simp [reportedError, failureEvent, Value.obj, Map.ofEntries]
  have hclass : reportedClass (failureEvent o responseId model sequenceNumber c.code message
      parameter) = c := by
    rw [reportedClass, herror, ← codeClass_code c]
    simp [Value.obj, Map.ofEntries, codeClass_code]
  have hparameter : reportedParameter (failureEvent o responseId model sequenceNumber c.code
      message parameter) = parameter := by
    have hmember : ((Value.obj [("code", .string c.code), ("message", .string message),
        ("param", optionalString parameter)]).get "param").bind Value.asStr = parameter := by
      cases parameter <;> simp [Value.obj, Map.ofEntries, optionalString, Value.asStr]
    rw [reportedParameter, herror, hmember]
    cases parameter with
    | none => rfl
    | some p => exact Option.filter_some_pos (hsafe p rfl)
  rw [sanitizeStreamFailure_eq, hclass, hparameter]

/-- What a failure frame repeats is repeated as it is. -/
theorem failureFrame_repeated (code : String) :
    failureFrame o (some (repeatedId responseId)) (some (repeatedModel model)) sequenceNumber code
        message parameter =
      failureFrame o responseId model sequenceNumber code message parameter := by
  have hid : (some (repeatedId responseId)).filter safeProtocolIdentifier =
      some (repeatedId responseId) := Option.filter_some_pos (safe_repeatedId responseId)
  have hmodel : (some (repeatedModel model)).filter safeProtocolIdentifier =
      some (repeatedModel model) := Option.filter_some_pos (safe_repeatedModel model)
  unfold failureFrame failureEvent
  rw [hid, hmodel]
  rfl

end

/-! ## The failure frame of a cause -/

namespace Cause

/-- What is known of the response when a stream fails for a cause, after events that reported
`id`. -/
def identity (id : Identity) : Cause → Identity
  | .reported event => id.observe event
  | .rejected _ => id

/-- The class of the code of the failure frame. -/
def codeClass : Cause → CodeClass
  | .reported event =>
    if event.kind = "response.cancelled" then .request else reportedClass event.value
  | .rejected _ => .request

/-- The parameter of the failure frame. -/
def parameter : Cause → Option String
  | .reported event => (providerFailure event).parameter
  | .rejected _ => none

/-- The message of the failure frame. -/
def message (o : Options) : Cause → String
  | .reported event => (providerFailure event).message
  | .rejected reason => "muse_codex_protocol_error: " ++ (match o.upstreamMediaType with
      | none => reason
      | some mediaType => reason ++ " (upstream media type " ++ mediaType ++ ")") ++
      "; session is resumable"

/-- The failure frame of a cause, from its parts. -/
theorem frame_parts (o : Options) (id : Identity) (cause : Cause) :
    cause.frame o id = failureFrame o (cause.identity id).responseId (cause.identity id).model
      (cause.number id) cause.codeClass.code (cause.message o) cause.parameter := by
  cases cause with
  | rejected reason => rfl
  | reported event =>
    have hcode : (providerFailure event).code = (Cause.reported event).codeClass.code := by
      unfold providerFailure codeClass
      dsimp only
      split_ifs
      · rfl
      · exact sanitizeStreamFailure_code event.value
    rw [Cause.frame, Identity.reportedFailure, hcode]
    rfl

/-- The parameter of a failure frame is safe. -/
theorem safe_parameter (cause : Cause) : ∀ p ∈ cause.parameter, safeErrorParameter p = true := by
  cases cause with
  | rejected reason => nofun
  | reported event =>
    unfold parameter providerFailure
    dsimp only
    split_ifs
    · nofun
    · intro p hp
      exact (Option.filter_eq_some_iff.mp hp).2

/-- The failure frame of a cause is one complete frame, and what it says of the failure is read from
it as it is: the event that it is inspected as, the response id, the model, the sequence number,
the code, and the parameter. -/
def Recovered (o : Options) (id : Identity) (cause : Cause) : Prop :=
  scanner.frames (cause.frame o id) = [cause.frame o id] ∧
    scanner.rest (cause.frame o id) = [] ∧
    ∃ value, inspectFrame o.serde (cause.frame o id) =
        .ok (.keep ⟨"response.failed", some (cause.number id), value⟩) ∧
      reportedId value = some (repeatedId (cause.identity id).responseId) ∧
      reportedModel value = some (repeatedModel (cause.identity id).model) ∧
      (sanitizeStreamFailure value).code = cause.codeClass.code ∧
      (sanitizeStreamFailure value).parameter = cause.parameter

/-- A failure frame ends where the scanner says, whatever follows it. -/
theorem frame_scan {o : Options} (hserde : o.serde.Lawful) (id : Identity) (cause : Cause)
    (t : Bytes) :
    completeFrameLen (cause.frame o id ++ t) = some (cause.frame o id).length := by
  rw [frame_parts, failureFrame_eq_eventFrame]
  exact eventFrame_scan (by decide) (hserde.toString_line _) t

/-- A failure is recovered from the frame that tells of it. -/
theorem recovered {o : Options} (hserde : o.serde.Lawful) {id : Identity} {cause : Cause}
    (hnumber : cause.number id < 2 ^ 64) : cause.Recovered o id := by
  have hscan : ∀ f ∈ [cause.frame o id], ∀ t, scanner.scan (f ++ t) = some f.length := by
    intro f hf t
    rw [List.mem_singleton.mp hf]
    exact cause.frame_scan hserde id t
  have hcut := scanner.cut_of_delimited hscan (show scanner.scan [] = none from rfl)
  rw [List.flatten_singleton, List.append_nil] at hcut
  refine ⟨hcut.1, hcut.2, failureEvent o (cause.identity id).responseId (cause.identity id).model
    (cause.number id) cause.codeClass.code (cause.message o) cause.parameter, ?_, ?_, ?_, ?_, ?_⟩
  · rw [frame_parts, inspectFrame_failureFrame hserde _ _ hnumber]
  · exact reportedId_failureEvent ..
  · exact reportedModel_failureEvent ..
  · rw [sanitizeStreamFailure_failureEvent _ _ _ _ _ _ _ cause.safe_parameter]
  · rw [sanitizeStreamFailure_failureEvent _ _ _ _ _ _ _ cause.safe_parameter]

/-- The failure frame that stands for a failure frame repeats it, but for the message, after events
whose numbers are not above its own. -/
theorem reportedFailure_recovered (o : Options) {id id' : Identity} {cause : Cause} {value : Value}
    (hid : reportedId value = some (repeatedId (cause.identity id).responseId))
    (hmodel : reportedModel value = some (repeatedModel (cause.identity id).model))
    (hcode : (sanitizeStreamFailure value).code = cause.codeClass.code)
    (hparameter : (sanitizeStreamFailure value).parameter = cause.parameter)
    (hnumber : id'.lastSequence ≤ cause.number id) :
    (id'.observe ⟨"response.failed", some (cause.number id), value⟩).reportedFailure o
        ⟨"response.failed", some (cause.number id), value⟩ =
      failureFrame o (cause.identity id).responseId (cause.identity id).model (cause.number id)
        cause.codeClass.code (sanitizeStreamFailure value).message cause.parameter := by
  have hfailure (n : Option ℕ) :
      providerFailure ⟨"response.failed", n, value⟩ = sanitizeStreamFailure value := rfl
  rw [Identity.observe_eq, Identity.reportedFailure, hfailure, hcode, hparameter]
  dsimp only
  rw [hid, hmodel, Option.getD_some, max_eq_right hnumber, Option.some_or, Option.some_or,
    failureFrame_repeated]

end Cause

/-! ## The size of a failure frame -/

/-- The media type of a response from its content type header, without parameters, when it is short
and plain. This is `safe_upstream_media_type` of `server.rs`, which hands it to the validator. -/
def safeUpstreamMediaType (contentType : Option String) : Option String :=
  contentType.bind fun value =>
    let value := trim (((splitOnce ';' value).map Prod.fst).getD value)
    if value ≠ "" && value.utf8ByteSize ≤ 127 &&
        value.toList.all fun c => isAsciiAlphanumeric c || c ∈ ['-', '+', '.', '/'] then
      some (String.ofList (value.toList.map toAsciiLower))
    else none

/-- The lower-case form of a text has as many bytes. -/
theorem utf8Len_map_toAsciiLower (cs : List Char) :
    String.utf8Len (cs.map toAsciiLower) = String.utf8Len cs := by
  have hascii : ∀ n < 0x80, (Char.ofNat n).utf8Size = 1 := by decide
  induction cs with
  | nil => rfl
  | cons c cs ih =>
    have hc : (toAsciiLower c).utf8Size = c.utf8Size := by
      unfold toAsciiLower
      split_ifs with hletter
      · have hlower := hascii (c.toNat + 0x20) (by omega)
        have hupper := hascii c.toNat (by omega)
        rw [Char.ofNat_toNat] at hupper
        rw [hlower, hupper]
      · rfl
    rw [List.map_cons, String.utf8Len_cons, String.utf8Len_cons, ih, hc]

/-- A media type that is repeated is short. -/
theorem utf8ByteSize_safeUpstreamMediaType {contentType : Option String} {mediaType : String}
    (h : safeUpstreamMediaType contentType = some mediaType) : mediaType.utf8ByteSize ≤ 127 := by
  obtain ⟨value, -, hvalue⟩ := Option.bind_eq_some_iff.mp h
  dsimp only at hvalue
  generalize trim (((splitOnce ';' value).map Prod.fst).getD value) = trimmed at hvalue
  split_ifs at hvalue with hsafe
  rw [Bool.and_eq_true, Bool.and_eq_true, decide_eq_true_eq, decide_eq_true_eq] at hsafe
  rw [← Option.some.inj hvalue, String.utf8ByteSize_ofList, utf8Len_map_toAsciiLower,
    String.utf8Len_toList]
  exact hsafe.1.2

/-- A reason to fail is one of the checks'. -/
theorem firstFailure_eq_error {checks : List (Bool × String)} {reason : String}
    (h : firstFailure checks = .error reason) : reason ∈ checks.map Prod.snd := by
  induction checks with
  | nil => cases h
  | cons check checks ih =>
    obtain ⟨holds, text⟩ := check
    rw [firstFailure] at h
    split_ifs at h
    · exact List.mem_cons_of_mem _ (ih h)
    · cases h
      exact List.mem_cons_self

/-- The reasons to reject a frame are short. -/
theorem inspectFrame_reason {serde : Serde} {frame : Bytes} {reason : String}
    (h : inspectFrame serde frame = .error reason) : reason.utf8ByteSize ≤ 64 := by
  -- The reasons are texts of the code, each of which is short.
  have hshape {kind : String} {value : Value} (h : validateEventShape kind value = .error reason) :
      reason.utf8ByteSize ≤ 64 := by
    have hmem := firstFailure_eq_error h
    simp only [List.map_cons, List.map_nil] at hmem
    generalize reason = text at hmem ⊢
    revert text
    decide
  have hnumber {value : Value} (h : sequenceNumberOf value = .error reason) :
      reason.utf8ByteSize ≤ 64 := by
    unfold sequenceNumberOf at h
    split at h
    · cases h
    · split at h
      · cases h
      · cases h
        decide
  have hvalue {name : Option String} {value : Value} (h : inspectValue name value = .error reason) :
      reason.utf8ByteSize ≤ 64 := by
    unfold inspectValue at h
    split at h
    · cases h
      decide
    · split at h
      · cases h
        decide
      · split at h
        · cases h
          decide
        · split at h
          · cases h
            exact hnumber ‹_›
          · split at h
            · cases h
              exact hshape ‹_›
            · dsimp only at h
              split_ifs at h
  unfold inspectFrame at h
  split at h
  · cases h
    decide
  · dsimp only at h
    split_ifs at h with hdata hname hdone
    · cases h
      decide
    · cases h
      decide
    · split at h
      · cases h
        decide
      · exact hvalue h

/-- The size of an object with short keys. -/
theorem textSize_obj_le {entries : List (String × Value)} {n : ℕ}
    (hkeys : ∀ k ∈ entries.map Prod.fst, k.utf8ByteSize ≤ 20)
    (hvalues : 124 * entries.length + (entries.map fun e => e.2.textSize).sum + 2 ≤ n) :
    (Value.obj entries).textSize ≤ n := by
  have hentries : entriesSize entries ≤
      124 * entries.length + (entries.map fun e => e.2.textSize).sum := by
    clear hvalues
    induction entries with
    | nil => exact Nat.le_refl _
    | cons entry entries ih =>
      obtain ⟨k, v⟩ := entry
      rw [List.map_cons, List.forall_mem_cons] at hkeys
      have hrest := ih hkeys.2
      have hkey : stringSize k ≤ 122 := by
        have hk : k.utf8ByteSize ≤ 20 := hkeys.1
        unfold stringSize
        omega
      rw [entriesSize, List.map_cons, List.sum_cons, List.length_cons]
      dsimp only
      omega
  have hobj := textSize_obj entries
  omega

/-- A failure frame is within the limit when what it repeats is short. -/
theorem failureFrame_size {o : Options} (hserde : o.serde.Sized)
    (responseId model : Option String) {sequenceNumber : ℕ} (hnumber : sequenceNumber < 2 ^ 64)
    {code message : String} (hcode : code.utf8ByteSize ≤ 64) (hmessage : message.utf8ByteSize ≤ 512)
    {parameter : Option String} (hparameter : ∀ p ∈ parameter, p.utf8ByteSize ≤ 128) :
    (failureFrame o responseId model sequenceNumber code message parameter).length ≤
      MAX_EVENT_BYTES := by
  have hstring {s : String} {n : ℕ} (h : s.utf8ByteSize ≤ n) :
      (Value.string s).textSize ≤ 6 * n + 2 := by
    rw [Value.textSize, stringSize]
    omega
  have hidentifier {s : String} (h : safeProtocolIdentifier s = true) : s.utf8ByteSize ≤ 512 := by
    unfold safeProtocolIdentifier at h
    rw [Bool.and_eq_true, Bool.and_eq_true, decide_eq_true_eq, decide_eq_true_eq] at h
    exact h.1.2
  have hid := hstring (hidentifier (safe_repeatedId responseId))
  have hmodel := hstring (hidentifier (safe_repeatedModel model))
  have hparam : (optionalString parameter).textSize ≤ 6 * 128 + 2 := by
    cases parameter with
    | none => decide
    | some p => exact hstring (hparameter p rfl)
  have hnumber' := textSize_ofNat hnumber
  have hnow := textSize_ofNat o.now.toNat_lt
  have hcode' := hstring hcode
  have hmessage' := hstring hmessage
  -- The error, the response around it, and the event around that.
  have herror : (Value.obj [("code", .string code), ("message", .string message),
      ("param", optionalString parameter)]).textSize ≤ 8192 := by
    refine textSize_obj_le (by simp only [List.map_cons, List.map_nil]; decide) ?_
    simp only [List.map_cons, List.map_nil, List.sum_cons, List.sum_nil, List.length_cons,
      List.length_nil]
    omega
  have hevent : (failureEvent o responseId model sequenceNumber code message parameter).textSize ≤
      32768 := by
    have hresponse (error : Value) (h : error.textSize ≤ 8192) :
        (Value.obj [("id", .string (repeatedId responseId)), ("object", .string "response"),
          ("created_at", .ofNat o.now.toNat), ("status", .string "failed"), ("completed_at", .null),
          ("output", .array []), ("usage", .null), ("error", error),
          ("previous_response_id", .null), ("model", .string (repeatedModel model)),
          ("metadata", .obj []), ("incomplete_details", .null)]).textSize ≤ 24576 := by
      have hobject : (Value.string "response").textSize = 50 := by decide
      have hstatus : (Value.string "failed").textSize = 38 := by decide
      have hnull : Value.null.textSize = 4 := by decide
      have harray : (Value.array []).textSize = 2 := by decide
      have hempty : (Value.obj []).textSize = 2 := by decide
      refine textSize_obj_le (by simp only [List.map_cons, List.map_nil]; decide) ?_
      simp only [List.map_cons, List.map_nil, List.sum_cons, List.sum_nil, List.length_cons,
        List.length_nil, hobject, hstatus, hnull, harray, hempty]
      omega
    have htype : (Value.string "response.failed").textSize = 92 := by decide
    have hresponse' := hresponse _ herror
    refine textSize_obj_le (by simp only [List.map_cons, List.map_nil]; decide) ?_
    simp only [List.map_cons, List.map_nil, List.sum_cons, List.sum_nil, List.length_cons,
      List.length_nil, htype]
    unfold repeatedId repeatedModel at hresponse'
    omega
  have htext := hserde _ (failureEvent_plain o responseId model hnumber code message parameter)
  have hfront : "event: response.failed\ndata: ".utf8ByteSize = 29 := by decide
  have hback : "\n\n".utf8ByteSize = 2 := by decide
  have hmax : MAX_EVENT_BYTES = 8388608 := rfl
  rw [failureFrame, toUtf8_length, String.utf8ByteSize_append, String.utf8ByteSize_append, hfront,
    hback, hmax]
  omega

/-- The failure frame of a cause is within the limit. -/
theorem Cause.frame_size {o : Options} (hserde : o.serde.Sized)
    {contentType : Option String} (hmedia : o.upstreamMediaType = safeUpstreamMediaType contentType)
    {id : Identity} {cause : Cause} (hnumber : cause.number id < 2 ^ 64)
    (hreason : ∀ reason, cause = .rejected reason → reason.utf8ByteSize ≤ 64) :
    (cause.frame o id).length ≤ MAX_EVENT_BYTES := by
  have hcode (c : CodeClass) : c.code.utf8ByteSize ≤ 64 := by
    cases c <;> decide
  -- A message is one of the code's own, or a reason with the media type.
  have hmessage : (cause.message o).utf8ByteSize ≤ 512 := by
    cases cause with
    | reported event =>
      have hclass (c : CodeClass) : c.message.utf8ByteSize ≤ 512 := by
        cases c <;> decide +kernel
      have hcancelled : cancelledFailure.message.utf8ByteSize ≤ 512 := by decide
      have hmessage : (Cause.reported event).message o = (providerFailure event).message := rfl
      rw [hmessage, providerFailure]
      by_cases hkind : event.kind = "response.cancelled"
      · rw [if_pos hkind]
        exact hcancelled
      · rw [if_neg hkind, sanitizeStreamFailure_message]
        exact hclass _
    | rejected reason =>
      have hshort := hreason reason rfl
      have hfront : "muse_codex_protocol_error: ".utf8ByteSize = 27 := by decide
      have hback : "; session is resumable".utf8ByteSize = 22 := by decide
      have hopen : " (upstream media type ".utf8ByteSize = 22 := by decide
      have hclose : ")".utf8ByteSize = 1 := by decide
      unfold Cause.message
      cases hmediaType : o.upstreamMediaType with
      | none =>
        simp only [String.utf8ByteSize_append, hfront, hback]
        omega
      | some mediaType =>
        have hshort' := utf8ByteSize_safeUpstreamMediaType (hmedia.symm.trans hmediaType)
        simp only [String.utf8ByteSize_append, hfront, hback, hopen, hclose]
        omega
  -- A parameter is repeated only if it is short.
  have hparameter : ∀ p ∈ cause.parameter, p.utf8ByteSize ≤ 128 := by
    intro p hp
    have hsafe := cause.safe_parameter p hp
    unfold safeErrorParameter at hsafe
    rw [Bool.and_eq_true, Bool.and_eq_true, decide_eq_true_eq, decide_eq_true_eq] at hsafe
    exact hsafe.1.2
  rw [Cause.frame_parts]
  exact failureFrame_size hserde _ _ hnumber (hcode _) hmessage hparameter

/-! ## The output validated again -/

/-- The reasons why a stream fails are short. -/
theorem failurePoint_reason {o : Options} {e : Ending} {frames : List Bytes} {rest : Bytes}
    {before : List Bytes} {cause : Cause}
    (h : failurePoint o e frames rest = some (before, cause)) :
    ∀ reason, cause = .rejected reason → reason.utf8ByteSize ≤ 64 := by
  induction frames generalizing before with
  | nil =>
    cases h
    rintro _ ⟨⟩
    unfold endingReason
    split
    · decide
    · split
      · decide
      · decide
      · split <;> decide
  | cons frame frames ih =>
    rcases failurePoint_cons h with ⟨-, ⟨-, rfl⟩ | ⟨-, ⟨event, -, -, rfl⟩ | ⟨reason, hframe, rfl⟩⟩⟩ |
      ⟨before, -, hpoint, -, -⟩
    · rintro _ ⟨⟩
      decide
    · nofun
    · rintro _ ⟨⟩
      exact inspectFrame_reason hframe
    · exact ih hpoint

/-- The frames that a stream forwards before it fails are copied. -/
theorem failurePoint_copied {o : Options} {e : Ending} {frames : List Bytes} {rest : Bytes}
    {before : List Bytes} {cause : Cause}
    (h : failurePoint o e frames rest = some (before, cause)) :
    ∀ frame ∈ before.filter (isKept o.serde), Copied o frame := by
  induction frames generalizing before with
  | nil =>
    cases h
    nofun
  | cons first frames ih =>
    rcases failurePoint_cons h with ⟨rfl, -⟩ | ⟨before, rfl, hpoint, hle, hcase⟩
    · nofun
    · intro frame hframe
      obtain ⟨hmem, hkept⟩ := List.mem_filter.mp hframe
      rcases List.mem_cons.mp hmem with rfl | hmem
      · rcases hcase with ⟨event, hkeep, hfail, hterm⟩ | ⟨event, hdrop⟩
        · obtain ⟨hknown, hmeta, hshape⟩ := inspectFrame_keep hkeep
          exact ⟨hle, event, hkeep, hknown, hshape, hmeta, hterm, hfail⟩
        · rw [isKept, hdrop] at hkept
          cases hkept
      · exact ih hpoint frame (List.mem_filter.mpr ⟨hmem, hkept⟩)

/-- The verdict on the output of a stream: the frames that it forwarded are forwarded, and the last
frame is judged by itself. -/
theorem validatedFrames_again {o : Options} {forwarded : List Bytes} {terminal : Bytes}
    (hframed : ∀ frame ∈ forwarded ++ [terminal], Framed frame)
    (hcopied : ∀ frame ∈ forwarded, Copied o frame)
    (hlast : (forwarded ++ [terminal]).flatten.getLast? ≠ some CR) {body : List Poll}
    (hbody : upstreamBytes body = (forwarded ++ [terminal]).flatten) :
    validatedFrames o body = forwarded ++
      verdict o (ending body) (forwarded.foldl (Identity.observeFrame o) {}) [terminal] [] := by
  obtain ⟨hframes, hrest⟩ := cut_of_framed hframed hlast
  rw [validatedFrames_eq, verdictOf, hbody, hframes, hrest, verdict_append o _ _ hcopied]

/-- A failure frame ends with an LF. -/
theorem Cause.getLast?_frame (o : Options) (id : Identity) (cause : Cause) :
    (cause.frame o id).getLast? = some LF := by
  rw [Cause.frame_parts, failureFrame, toUtf8_append, List.getLast?_append]
  rfl

/-- The validated stream is validated once more to the same frames, but for the clock and the
message of a failure frame, unless upstream ends the response with a frame that ends with a CR; and
all that a failure frame says of the failure is read from it, for every cause. The number of the
frame is a word of 64 bits, and the media type is the one that the caller passes on. -/
theorem validatedFrames_fixpoint {o : Options} (hserde : o.serde.Lawful) (hsized : o.serde.Sized)
    (hmax : o.maxEventBytes = MAX_EVENT_BYTES) {contentType : Option String}
    (hmedia : o.upstreamMediaType = safeUpstreamMediaType contentType) {body : List Poll}
    (hlast : streamFailure o body = none → (validatedStream o body).getLast? ≠ some CR)
    (mediaType : Option String) (now : UInt64) {body' : List Poll}
    (hbody : upstreamBytes body' = validatedStream o body) :
    (∃ forwarded terminal terminal', validatedFrames o body = forwarded ++ [terminal] ∧
      validatedFrames { o with upstreamMediaType := mediaType, now } body' =
        forwarded ++ [terminal'] ∧
      (terminal' = terminal ∨
        ∃ responseId model sequenceNumber code message message' parameter,
          terminal = failureFrame o responseId model sequenceNumber code message parameter ∧
          terminal' = failureFrame { o with upstreamMediaType := mediaType, now } responseId model
            sequenceNumber code message' parameter)) ∧
    ∀ mediaType id cause, Cause.number id cause < 2 ^ 64 →
      Cause.Recovered { o with upstreamMediaType := mediaType } id cause := by
  refine ⟨?_, fun mediaType id cause hnumber => ?_⟩
  swap
  · have hserde' : ({ o with upstreamMediaType := mediaType } : Options).serde.Lawful := hserde
    exact Cause.recovered hserde' hnumber
  have hscan {frame : Bytes} (hframe : frame ∈ scanner.frames (upstreamBytes body)) :=
    Framing.Scanner.exists_scan_of_mem_frames hframe
  have hkeep {frame : Bytes} (hframe : Copied o frame) :
      ∃ event, inspectFrame o.serde frame = .ok (.keep event) :=
    hframe.2.imp fun _ h => h.1
  have hstream : validatedStream o body = (validatedFrames o body).flatten := rfl
  rw [hstream] at hlast hbody
  rw [validatedFrames_eq, verdictOf] at hlast hbody ⊢
  cases hpoint : streamFailure o body with
  | none =>
    -- Upstream ended the response, so every frame is one of upstream.
    obtain ⟨copies, terminal, event, hverdict, hcopies, hterminal, hlen, hevent, hkind⟩ :=
      verdict_copied (ending body) {} hpoint
    have hlast := hlast hpoint
    rw [hverdict] at hlast hbody ⊢
    have hframed : ∀ frame ∈ copies ++ [terminal], Framed frame := by
      intro frame hframe
      rcases List.mem_append.mp hframe with hframe | hframe
      · obtain ⟨hmem, hcopied⟩ := hcopies frame hframe
        obtain ⟨event, hevent⟩ := hkeep hcopied
        exact framed_of_keep (hscan hmem) hevent
      · rw [List.mem_singleton.mp hframe]
        exact framed_of_keep (hscan hterminal) hevent
    have hcopied : ∀ frame ∈ copies,
        Copied { o with upstreamMediaType := mediaType, now } frame :=
      fun frame hframe => (hcopies frame hframe).2
    refine ⟨copies, terminal, terminal, rfl, ?_, .inl rfl⟩
    rw [validatedFrames_again hframed hcopied hlast hbody,
      verdict_completed { o with upstreamMediaType := mediaType, now } _ _ hlen hevent hkind]
  | some point =>
    obtain ⟨before, cause⟩ := point
    rw [verdict_of_failurePoint o (ending body) {} hpoint] at hbody ⊢
    obtain ⟨hnumber, hle⟩ := failurePoint_number hserde hpoint
    generalize before.foldl (Identity.observeFrame o) {} = id at hnumber hle hbody ⊢
    have hlast : (before.filter (isKept o.serde) ++ [cause.frame o id]).flatten.getLast? ≠
        some CR := by
      rw [List.flatten_append, List.flatten_singleton, List.getLast?_append, cause.getLast?_frame,
        Option.some_or]
      decide
    have hcopied := failurePoint_copied hpoint
    have hcopied' : ∀ frame ∈ before.filter (isKept o.serde),
        Copied { o with upstreamMediaType := mediaType, now } frame := hcopied
    have hframed : ∀ frame ∈ before.filter (isKept o.serde) ++ [cause.frame o id],
        Framed frame := by
      intro frame hframe
      rcases List.mem_append.mp hframe with hframe | hframe
      · obtain ⟨event, hevent⟩ := hkeep (hcopied frame hframe)
        exact framed_of_keep (hscan (failurePoint_mem o hpoint (List.mem_of_mem_filter hframe)))
          hevent
      · rw [List.mem_singleton.mp hframe]
        refine ⟨⟨[], cause.frame_scan hserde id []⟩, ?_⟩
        rw [Cause.frame_parts, failureFrame, toUtf8_append, toUtf8_append]
        exact ⟨_, _, rfl, by decide⟩
    -- The failure frame is within the limit, so it is read as the event that it is.
    have hlen := Cause.frame_size hsized hmedia hnumber (failurePoint_reason hpoint)
    rw [← hmax] at hlen
    obtain ⟨-, -, value, hinspect, hid, hmodel, hcode, hparameter⟩ :=
      Cause.recovered hserde hnumber
    have hfail : isFailureEvent "response.failed" = true := by decide
    have hle' : ((before.filter (isKept o.serde)).foldl (Identity.observeFrame
        { o with upstreamMediaType := mediaType, now }) {}).lastSequence ≤ cause.number id := hle
    refine ⟨_, _, _, rfl, ?_, .inr ⟨_, _, _, _, _, (sanitizeStreamFailure value).message, _,
      cause.frame_parts o id, rfl⟩⟩
    rw [validatedFrames_again hframed hcopied' hlast hbody,
      verdict_failed { o with upstreamMediaType := mediaType, now } _ _ hlen hinspect hfail,
      Cause.reportedFailure_recovered _ hid hmodel hcode hparameter hle']

/-- A delta whose blank line is a lone CR, and a comment after which the body breaks off. -/
def brokenOff : List Poll :=
  [.chunk (toUtf8 ("data: \x7b\"type\":\"response.output_text.delta\",\"delta\":\"\"," ++
    "\"sequence_number\":7\x7d\r\r: ping\n\n")), .error]

/-- The delta and the failure frame after it are validated once more. -/
theorem validatedFrames_fixpoint_brokenOff :
    (∃ forwarded terminal terminal',
      validatedFrames ⟨Compact.serde, MAX_EVENT_BYTES, none, 0⟩ brokenOff =
        forwarded ++ [terminal] ∧
      validatedFrames ⟨Compact.serde, MAX_EVENT_BYTES, none, 1⟩
          [.chunk (validatedStream ⟨Compact.serde, MAX_EVENT_BYTES, none, 0⟩ brokenOff)] =
        forwarded ++ [terminal'] ∧
      (terminal' = terminal ∨
        ∃ responseId model sequenceNumber code message message' parameter,
          terminal = failureFrame ⟨Compact.serde, MAX_EVENT_BYTES, none, 0⟩ responseId model
            sequenceNumber code message parameter ∧
          terminal' = failureFrame ⟨Compact.serde, MAX_EVENT_BYTES, none, 1⟩ responseId model
            sequenceNumber code message' parameter)) ∧
    ∀ mediaType id cause, Cause.number id cause < 2 ^ 64 →
      Cause.Recovered ⟨Compact.serde, MAX_EVENT_BYTES, mediaType, 0⟩ id cause := by
  have hmedia : none = safeUpstreamMediaType none := rfl
  have hfailure : (streamFailure ⟨Compact.serde, MAX_EVENT_BYTES, none, 0⟩ brokenOff).isSome :=
    by decide +kernel
  refine validatedFrames_fixpoint Compact.lawful Compact.sized rfl hmedia (fun hnone => ?_) none 1
    (List.append_nil _)
  rw [hnone] at hfailure
  cases hfailure

end MuseCodex.Gateway
