import MuseCodex.Json.Edit
import MuseCodex.Json.Serde
import MuseCodex.Launcher.Arguments

/-!
# The provider adapter of the session protocol

The functions of `crates/muse-codex/src/msp.rs` that translate the frames between a client of the
Muse Session Protocol and the stock host. A request of the client is noted under the key of its id
before it is forwarded, and the response of the host is adapted by the method that was noted. The
walks that the source makes with mutable references are edits in the sense of `Json/Edit.lean`.

The lock around the table is taken once in each call, so a call is one step on the table. Printing
a document and taking an unpoisoned lock do not fail, and neither does the adapter of a client
frame; a document that rejects a client frame is printed when it is written.
-/

namespace MuseCodex

open Text Json

namespace Msp

/-- The provider that the stock host knows. -/
def INTERNAL_PROVIDER : String := "meta"

/-- The largest number of requests that are pending at once. -/
def MAX_PENDING_REQUESTS : ℕ := 4096

/-- The methods of the pending requests, by the keys of their ids. -/
abbrev PendingRequests := Map String

variable (serde : Serde) (label : String)

/-! ## Frames -/

/-- The bytes without a last byte, if that is what they end with. -/
def stripSuffix (last : UInt8) (bytes : Bytes) : Bytes :=
  if bytes.getLast? = some last then bytes.dropLast else bytes

/-- The document of a frame. -/
def parseFrame (frame : Bytes) : Option Value :=
  serde.fromSlice (stripSuffix CR (stripSuffix LF frame))

/-- The frame of a document. -/
def encodeFrame (value : Value) : Bytes := serde.toVec value ++ [LF]

/-- The key of a request id: only a string, a number or null has one. -/
def rpcIdKey (id : Value) : Option String := if id.isScalar then some (serde.toString id) else none

/-- The method of a document, if it names one. -/
def methodOf (value : Value) : Option String := (value.get "method").bind Value.asStr

/-! ## Client frames -/

/-- What becomes of a frame of the client. -/
inductive ClientFrame where
  | forward (bytes : Bytes)
  | reject (error : Value)
  | drop
deriving DecidableEq

/-- A response with an error. -/
def errorResponse (id error : Value) : Value :=
  .obj [("jsonrpc", .string "2.0"), ("id", id), ("error", error)]

/-- A response with an error is for its id. -/
@[simp] theorem errorResponse_id (id error : Value) : (errorResponse id error).get "id" = some id := by
  simp [errorResponse, Value.obj, Map.ofEntries, Value.get_object]

/-- The rejection of a command that was sent. -/
def commandRejected (id : Value) (commandId : String) : Value :=
  errorResponse id (.obj
    [("code", .number (.negInt 32029)),
      ("message", .string ("muse-codex only accepts provider '" ++ label ++ "' in this session")),
      ("data", .obj
        [("kind", .string "commandRejected"),
          ("commandId", .string commandId),
          ("reason", .string "unsupported_provider"),
          ("retryable", .bool false)])])

/-- The error that parameters are not valid. -/
def invalidParams (id : Value) (message : String) : Value :=
  errorResponse id (.obj
    [("code", .number (.negInt 32601)),
      ("message", .string message),
      ("data", .obj [("kind", .string "invalidParams")])])

/-- The error that a request is not valid. -/
def invalidRequest (id : Value) (message : String) : Value :=
  errorResponse id (.obj
    [("code", .number (.negInt 32599)),
      ("message", .string message),
      ("data", .obj [("kind", .string "invalidRequest")])])

/-- The error that too many requests are pending. -/
def overloaded (id : Value) : Value :=
  errorResponse id (.obj
    [("code", .number (.negInt 32000)),
      ("message", .string "muse-codex MSP request adapter is at capacity"),
      ("data", .obj
        [("kind", .string "overloaded"),
          ("capacity", .ofNat MAX_PENDING_REQUESTS),
          ("retryable", .bool true)])])

/-- Selects the internal provider in place of the public label, and refuses any other name. -/
def selectProvider : Edit
  | .string provider =>
    if provider = label then .ok (.string INTERNAL_PROVIDER, true)
    else if provider ≠ "" then .error "unsupported provider"
    else .ok (.string provider, false)
  | v => .ok (v, false)

/-- Selects the provider of a request where its method has one. -/
def selectRequestProvider (method : String) : Edit :=
  if method = "session/start" then atKey "params" (atKey "providerId" (selectProvider label))
  else if method = "session/setModel" then
    atKey "params" (atKey "model" (atKey "providerId" (selectProvider label)))
  else skip

/-- The command id of a request. -/
def commandIdOf (value : Value) : Option String :=
  (((value.get "params").bind Value.asObject).bind (·.get "commandId")).bind Value.asStr

/-- Turns away a request that selects another provider. -/
def refuseProvider (value : Value) : ClientFrame :=
  match value.get "id" with
  | some id =>
    if (rpcIdKey serde id).isSome then
      match commandIdOf value with
      | some commandId => .reject (commandRejected label id commandId)
      | none => .reject (invalidParams id "provider requires a valid commandId")
    else .reject (invalidRequest .null "request id must be a string, number, or null")
  | none => .drop

/-- Adapts a frame of the client. -/
def adaptClientFrame (frame : Bytes) (pending : PendingRequests) : ClientFrame × PendingRequests :=
  match parseFrame serde frame with
  | none => (.forward frame, pending)
  | some value =>
    -- Only an object names a method.
    match methodOf value with
    | none => (.forward frame, pending)
    | some method =>
      match selectRequestProvider label method value with
      | .error _ => (refuseProvider serde label value, pending)
      | .ok (value', changed) =>
        let forwarded := if changed then encodeFrame serde value' else frame
        match value'.get "id" with
        | none => (.forward forwarded, pending)
        | some id =>
          match rpcIdKey serde id with
          | none => (.forward forwarded, pending)
          | some key =>
            if pending.containsKey key then
              (.reject (invalidRequest id "duplicate in-flight request id"), pending)
            else if MAX_PENDING_REQUESTS ≤ pending.length then (.reject (overloaded id), pending)
            else (.forward forwarded, pending.insert key method)

/-- The request that a frame of the client is: its id, if that can be a key, and its method. -/
def requestOf (frame : Bytes) : Option (Value × String) :=
  (parseFrame serde frame).bind fun value =>
    (methodOf value).bind fun method =>
      (value.get "id").bind fun id => if id.isScalar then some (id, method) else none

/-- Selecting the provider of a request keeps its id. -/
theorem selectRequestProvider_id {label method : String} {v w : Value} {changed : Bool}
    (hok : selectRequestProvider label method v = .ok (w, changed)) : w.get "id" = v.get "id" := by
  unfold selectRequestProvider at hok
  split_ifs at hok
  · exact atKey_get (by decide) hok
  · exact atKey_get (by decide) hok
  · cases hok
    rfl

/-- What a frame of the client does to the table: a request that is forwarded is noted under the
key of its id, which was free, and nothing else changes the table. -/
theorem adaptClientFrame_pending (frame : Bytes) (pending : PendingRequests) :
    match (adaptClientFrame serde label frame pending).1, requestOf serde frame with
    | .forward _, some (id, method) =>
      id.isScalar ∧ pending.get (serde.toString id) = none ∧
        pending.length < MAX_PENDING_REQUESTS ∧
        (adaptClientFrame serde label frame pending).2 =
          pending.insert (serde.toString id) method
    | _, _ => (adaptClientFrame serde label frame pending).2 = pending := by
  unfold adaptClientFrame requestOf
  cases hparse : parseFrame serde frame with
  | none => rfl
  | some value =>
    dsimp only
    cases hmethod : methodOf value with
    | none => simp only [Option.bind_some, hmethod, Option.bind_none]
    | some method =>
      simp only [Option.bind_some, hmethod]
      cases hselect : selectRequestProvider label method value with
      | error reason =>
        dsimp only
        split
        · -- A refusal forwards nothing.
          rename_i bytes id m hforward hrequest
          unfold refuseProvider at hforward
          split at hforward
          · split at hforward
            · split at hforward <;> cases hforward
            · cases hforward
          · cases hforward
        · rfl
      | ok r =>
        dsimp only
        rw [selectRequestProvider_id hselect]
        cases hid : value.get "id" with
        | none => rfl
        | some id =>
          dsimp only
          simp only [Option.bind_some]
          by_cases hscalar : id.isScalar = true
          · rw [rpcIdKey, if_pos hscalar, if_pos hscalar]
            dsimp only
            by_cases hkey : pending.containsKey (serde.toString id) = true
            · rw [if_pos hkey]
            · rw [if_neg hkey]
              by_cases hfull : MAX_PENDING_REQUESTS ≤ pending.length
              · rw [if_pos hfull]
              · rw [if_neg hfull]
                refine ⟨hscalar, ?_, Nat.lt_of_not_le hfull, rfl⟩
                rwa [Map.containsKey, Bool.not_eq_true, Option.isSome_eq_false_iff,
                  Option.isNone_iff_eq_none] at hkey
          · rw [rpcIdKey, if_neg hscalar, if_neg hscalar]

/-- Why a frame of the client is rejected, and with which id. -/
theorem adaptClientFrame_reject {frame : Bytes} {pending : PendingRequests} {error : Value}
    (h : (adaptClientFrame serde label frame pending).1 = .reject error) :
    ∃ value method id, parseFrame serde frame = some value ∧ methodOf value = some method ∧
      value.get "id" = some id ∧
      (id.isScalar ∧ (∃ commandId, error = commandRejected label id commandId) ∨
        id.isScalar ∧ error = invalidParams id "provider requires a valid commandId" ∨
        ¬id.isScalar ∧
          error = invalidRequest .null "request id must be a string, number, or null" ∨
        id.isScalar ∧ pending.containsKey (serde.toString id) ∧
          error = invalidRequest id "duplicate in-flight request id" ∨
        id.isScalar ∧ error = overloaded id) := by
  unfold adaptClientFrame at h
  cases hparse : parseFrame serde frame with
  | none =>
    rw [hparse] at h
    cases h
  | some value =>
    rw [hparse] at h
    dsimp only at h
    cases hmethod : methodOf value with
    | none =>
      rw [hmethod] at h
      cases h
    | some method =>
      rw [hmethod] at h
      dsimp only at h
      cases hselect : selectRequestProvider label method value with
      | error reason =>
        rw [hselect] at h
        dsimp only at h
        unfold refuseProvider rpcIdKey at h
        cases hid : value.get "id" with
        | none =>
          rw [hid] at h
          cases h
        | some id =>
          rw [hid] at h
          dsimp only at h
          refine ⟨value, method, id, rfl, hmethod, hid, ?_⟩
          by_cases hscalar : id.isScalar = true
          · rw [if_pos hscalar, if_pos Option.isSome_some] at h
            split at h
            · rename_i commandId _
              cases h
              exact .inl ⟨hscalar, commandId, rfl⟩
            · cases h
              exact .inr (.inl ⟨hscalar, rfl⟩)
          · rw [if_neg hscalar, if_neg (by decide)] at h
            cases h
            exact .inr (.inr (.inl ⟨hscalar, rfl⟩))
      | ok r =>
        rw [hselect] at h
        dsimp only at h
        -- The id is read after the label was replaced, which leaves it alone.
        rw [selectRequestProvider_id hselect] at h
        unfold rpcIdKey at h
        cases hid : value.get "id" with
        | none =>
          rw [hid] at h
          cases h
        | some id =>
          rw [hid] at h
          dsimp only at h
          refine ⟨value, method, id, rfl, hmethod, hid, ?_⟩
          by_cases hscalar : id.isScalar = true
          · rw [if_pos hscalar] at h
            dsimp only at h
            split at h
            · rename_i hkey
              cases h
              exact .inr (.inr (.inr (.inl ⟨hscalar, hkey, rfl⟩)))
            · split at h
              · cases h
                exact .inr (.inr (.inr (.inr ⟨hscalar, rfl⟩)))
              · cases h
          · rw [if_neg hscalar] at h
            cases h

/-- Only a frame without an id is dropped. -/
theorem adaptClientFrame_drop {frame : Bytes} {pending : PendingRequests}
    (h : (adaptClientFrame serde label frame pending).1 = .drop) : requestOf serde frame = none := by
  unfold adaptClientFrame at h
  unfold requestOf
  cases hparse : parseFrame serde frame with
  | none => rfl
  | some value =>
    rw [hparse] at h
    dsimp only at h
    cases hmethod : methodOf value with
    | none => simp only [Option.bind_some, hmethod, Option.bind_none]
    | some method =>
      cases hid : value.get "id" with
      | none => simp only [Option.bind_some, hmethod, hid, Option.bind_none]
      | some id =>
        rw [hmethod] at h
        dsimp only at h
        cases hselect : selectRequestProvider label method value with
        | error reason =>
          rw [hselect] at h
          dsimp only at h
          -- A refused request with an id is answered.
          unfold refuseProvider at h
          rw [hid] at h
          dsimp only at h
          split at h
          · split at h <;> cases h
          · cases h
        | ok r =>
          rw [hselect] at h
          dsimp only at h
          rw [selectRequestProvider_id hselect, hid] at h
          dsimp only at h
          split at h
          · cases h
          · split at h
            · cases h
            · split at h <;> cases h

/-! ## Host frames -/

/-- Exposes the public label in place of the internal provider, and refuses any other name. -/
def adaptProvider : Edit
  | .null => .ok (.null, false)
  | .string value =>
    if value = INTERNAL_PROVIDER then .ok (.string label, true)
    else if value = label then .ok (.string value, false)
    else .error "stock Muse exposed an unsupported MSP provider"
  | _ => .error "stock Muse exposed a malformed MSP provider field"

/-- Changes the provider of a session. -/
def adaptSession : Edit := atKey "providerId" (adaptProvider label)

/-- Changes the providers in a history. -/
def adaptHistory : Edit :=
  atKey "snapshot" (atKey "state" (atKey "effectiveModel"
    (atKey "providerId" (adaptProvider label))))

/-- The notifications that carry a session. -/
def sessionNotifications : List String := ["session/started", "session/resumed", "session/forked"]

/-- Changes the providers in a notification, by its method. -/
def adaptServerNotification (method : String) : Edit :=
  if method ∈ sessionNotifications then atKey "params" (atKey "session" (adaptSession label))
  else if method = "session/modelChanged" then
    atKey "params" (atKey "providerId" (adaptProvider label))
  else skip

/-- Adapts an event of a page, which is a notification. -/
def adaptEvent : Edit := fun event =>
  match methodOf event with
  | some method => adaptServerNotification label method event
  | none => skip event

/-- The requests whose results carry a session and its history. -/
def sessionRequests : List String :=
  ["session/start", "session/resume", "session/fork", "session/read"]

/-- Changes the providers in a result, by the method of its request. -/
def adaptServerResult (method : String) : Edit :=
  if method ∈ sessionRequests then
    andThen (atKey "session" (adaptSession label)) (atKey "history" (adaptHistory label))
  else if method = "session/list" then atKey "sessions" (eachItem (adaptSession label))
  else if method = "model/list" then
    andThen (atKey "providerId" (adaptProvider label))
      (atKey "models" (eachItem (atKey "providerId" (adaptProvider label))))
  else if method = "view/page" then atKey "events" (eachItem (adaptEvent label))
  else skip

/-- The bytes that are relayed for an adapted document: the frame itself when nothing was
replaced. -/
def relayed (frame : Bytes) (r : Value × Bool) : Bytes :=
  if r.2 then encodeFrame serde r.1 else frame

/-- Adapts a frame of the host. -/
def adaptServerFrame (frame : Bytes) (pending : PendingRequests) :
    Except String Bytes × PendingRequests :=
  match parseFrame serde frame with
  | none => (.error "stock Muse emitted malformed MSP JSON", pending)
  | some value =>
    match value.asObject with
    | none => (.error "stock Muse emitted a non-object MSP frame", pending)
    | some object =>
      match methodOf value with
      | some method =>
        ((adaptServerNotification label method value).map (relayed serde frame), pending)
      | none =>
        match (value.get "id").bind (rpcIdKey serde) with
        | some key =>
          if object.containsKey "result" = object.containsKey "error" then
            (.error "stock Muse emitted an invalid MSP response envelope", pending)
          else match pending.get key with
            | some method =>
              ((atKey "result" (adaptServerResult label method) value).map (relayed serde frame),
                pending.erase key)
            | none =>
              if object.containsKey "result" then
                (.error "stock Muse emitted a result with an unknown request id", pending)
              else (.ok frame, pending)
        | none =>
          if object.containsKey "id" || object.containsKey "result" || object.containsKey "error"
          then (.error "stock Muse emitted an invalid MSP response envelope", pending)
          else (.ok frame, pending)

/-! ## The kinds of host frames -/

/-- What a frame of the host is, by its envelope. -/
inductive HostFrame where
  | refused
  | notification (value : Value) (method : String)
  | response (value id : Value)
  | other (value : Value)
deriving DecidableEq

/-- The kind of a frame of the host. A response has an id that can be a key, and either a result
or an error. -/
def hostFrame (frame : Bytes) : HostFrame :=
  match parseFrame serde frame with
  | none => .refused
  | some value =>
    if value.asObject.isNone then .refused
    else match methodOf value, value.get "id" with
      | some method, _ => .notification value method
      | none, some id =>
        if id.isScalar ∧ (value.get "result").isSome ≠ (value.get "error").isSome
        then .response value id
        else .refused
      | none, none =>
        if (value.get "result").isSome ∨ (value.get "error").isSome then .refused else .other value

/-- What the adapter does with a frame of the host, by its kind. -/
theorem adaptServerFrame_eq (frame : Bytes) (pending : PendingRequests) :
    ∃ reason, adaptServerFrame serde label frame pending =
      match hostFrame serde frame with
      | .refused => (.error reason, pending)
      | .notification value method =>
        ((adaptServerNotification label method value).map (relayed serde frame), pending)
      | .response value id =>
        match pending.get (serde.toString id) with
        | some method =>
          ((atKey "result" (adaptServerResult label method) value).map (relayed serde frame),
            pending.erase (serde.toString id))
        | none => (if (value.get "result").isSome then .error reason else .ok frame, pending)
      | .other _ => (.ok frame, pending) := by
  unfold adaptServerFrame hostFrame
  cases hparse : parseFrame serde frame with
  | none => exact ⟨_, rfl⟩
  | some value =>
    dsimp only
    cases hobject : value.asObject with
    | none => exact ⟨_, rfl⟩
    | some object =>
      -- The keys of the object are looked up in the document.
      have hget (k : String) : object.containsKey k = (value.get k).isSome := by
        rw [Value.asObject_eq_some hobject]
        rfl
      simp only [hget, Option.isNone_some, Bool.false_eq_true, if_false]
      cases hmethod : methodOf value with
      | some method => exact ⟨"", rfl⟩
      | none =>
        cases hid : value.get "id" with
        | none =>
          simp only [Option.bind_none, Option.isSome_none, Bool.false_or, Bool.or_eq_true]
          split_ifs
          · exact ⟨_, rfl⟩
          · exact ⟨"", rfl⟩
        | some id =>
          by_cases hscalar : id.isScalar = true
          · have hkey : rpcIdKey serde id = some (serde.toString id) := if_pos hscalar
            simp only [Option.bind_some, hkey, hscalar, true_and, ne_eq]
            by_cases heq : (value.get "result").isSome = (value.get "error").isSome
            · rw [if_pos heq, if_neg (not_not_intro heq)]
              exact ⟨_, rfl⟩
            · rw [if_neg heq, if_pos heq]
              dsimp only
              cases pending.get (serde.toString id) with
              | some method => exact ⟨"", rfl⟩
              | none =>
                dsimp only
                split_ifs
                · exact ⟨_, rfl⟩
                · exact ⟨"", rfl⟩
          · -- An id that is no scalar is refused, whatever else the frame holds.
            have hkey : rpcIdKey serde id = none := if_neg hscalar
            simp only [Option.bind_some, hkey, hscalar, Option.isSome_some, Bool.true_or, if_true]
            exact ⟨_, rfl⟩

section

variable {serde} {frame : Bytes} {value id : Value} {method : String}

/-- A notification names its method. -/
theorem hostFrame_notification (h : hostFrame serde frame = .notification value method) :
    parseFrame serde frame = some value ∧ methodOf value = some method := by
  unfold hostFrame at h
  grind

/-- A document that names a method is a notification. -/
theorem hostFrame_of_methodOf (hparse : parseFrame serde frame = some value)
    (hmethod : methodOf value = some method) : hostFrame serde frame = .notification value method := by
  have hobject : value.asObject.isNone = false := by
    cases value with
    | object => rfl
    | null | bool | number | string | array => cases hmethod
  unfold hostFrame
  rw [hparse]
  dsimp only
  rw [hobject, if_neg Bool.false_ne_true, hmethod]

/-- A response names no method, and has an id and either a result or an error. -/
theorem hostFrame_response (h : hostFrame serde frame = .response value id) :
    parseFrame serde frame = some value ∧ methodOf value = none ∧ value.get "id" = some id ∧
      id.isScalar ∧ (value.get "result").isSome ≠ (value.get "error").isSome := by
  unfold hostFrame at h
  grind

/-- Any other frame has no method, no id and no result. -/
theorem hostFrame_other (h : hostFrame serde frame = .other value) :
    parseFrame serde frame = some value ∧ methodOf value = none ∧ value.get "id" = none ∧
      value.get "result" = none := by
  unfold hostFrame at h
  grind [Option.isSome_eq_false_iff, Option.isNone_iff_eq_none]

end

end Msp

end MuseCodex
