import MuseCodex.Json.Resize
import MuseCodex.Msp.Lines
import MuseCodex.Msp.Relabel

/-!
# Frames of the relay and the frame limit

`read_frame` refuses a frame whose content is longer than `MAX_FRAME_BYTES`, but nothing checks the
frames that the relay writes. A frame that is passed on as it is keeps its length. A frame in which
a provider is replaced is printed anew from its document, and a rejection is printed around the id
of its request. Their sizes follow from what the printer does with each part of a document
(`Serde.Itemized`): a replacement changes the size by the difference of the two names for each field
where it is made (`Resizes`), and a rejection adds a fixed number of bytes to the id. So the relay
keeps within the limit exactly where these sizes leave room for the difference (`relay_fits_iff`).
-/

namespace MuseCodex.Msp

open Text Json

/-! ## The size of a frame -/

section

variable {serde : Serde}

/-- The content of a frame that is printed is the text of its document. -/
theorem fits_encodeFrame (v : Value) :
    Fits (encodeFrame serde v) ↔ serde.printedSize v ≤ MAX_FRAME_BYTES := by
  have hcontent : content (encodeFrame serde v) = serde.toVec v := by
    simp [content, encodeFrame, stripSuffix]
  rw [Fits, hcontent, Serde.toVec, toUtf8_length, Serde.printedSize]

/-- The label of a provider has nothing to escape. -/
theorem escapedSize_asStr (provider : PublicProvider) :
    escapedSize provider.asStr = provider.asStr.utf8ByteSize + 2 := by
  cases provider <;> decide

/-- Neither has the internal one. -/
theorem escapedSize_internal :
    escapedSize INTERNAL_PROVIDER = INTERNAL_PROVIDER.utf8ByteSize + 2 := by
  decide

/-- The text of an error that names the public label. -/
theorem escapedSize_rejection (provider : PublicProvider) :
    escapedSize ("muse-codex only accepts provider '" ++ provider.asStr ++ "' in this session") =
      provider.asStr.utf8ByteSize + 53 := by
  cases provider <;> decide

variable (hserde : serde.Itemized)

include hserde

/-- The bytes of a response with an error, besides its id. -/
theorem printedSize_errorResponse (id error : Value) :
    serde.printedSize (errorResponse id error) =
      serde.printedSize id + serde.printedSize error + 32 := by
  have herror : escapedSize "error" = 7 := by decide
  have hid : escapedSize "id" = 4 := by decide
  have hrpc : escapedSize "jsonrpc" = 9 := by decide
  have hversion : escapedSize "2.0" = 5 := by decide
  rw [errorResponse, hserde.obj]
  · simp only [List.map_cons, List.map_nil, List.sum_cons, List.sum_nil, List.length_cons,
      List.length_nil, hserde.string]
    omega
  · show ["jsonrpc", "id", "error"].Nodup
    decide

/-- The bytes of an error, besides its message and its data. -/
theorem printedSize_error (code : ℕ) (message : String) (data : Value) :
    serde.printedSize (.obj [("code", .number (.negInt code)), ("message", .string message),
      ("data", data)]) =
        (Nat.toDigits 10 (code + 1)).length + escapedSize message + serde.printedSize data + 29 := by
  have hcode : escapedSize "code" = 6 := by decide
  have hmessage : escapedSize "message" = 9 := by decide
  have hdata : escapedSize "data" = 6 := by decide
  rw [hserde.obj]
  · simp only [List.map_cons, List.map_nil, List.sum_cons, List.sum_nil, List.length_cons,
      List.length_nil, hserde.string, hserde.negInt]
    omega
  · show ["code", "message", "data"].Nodup
    decide

/-- The size of the rejection of a command. -/
theorem printedSize_commandRejected (provider : PublicProvider) (id : Value) (commandId : String) :
    serde.printedSize (commandRejected provider.asStr id commandId) =
      serde.printedSize id + escapedSize commandId + provider.asStr.utf8ByteSize + 208 := by
  have hdata : serde.printedSize (.obj
      [("kind", .string "commandRejected"), ("commandId", .string commandId),
        ("reason", .string "unsupported_provider"), ("retryable", .bool false)]) =
      escapedSize commandId + 89 := by
    have hkind : escapedSize "kind" = 6 := by decide
    have hrejected : escapedSize "commandRejected" = 17 := by decide
    have hcommand : escapedSize "commandId" = 11 := by decide
    have hreason : escapedSize "reason" = 8 := by decide
    have hunsupported : escapedSize "unsupported_provider" = 22 := by decide
    have hretryable : escapedSize "retryable" = 11 := by decide
    rw [hserde.obj]
    · simp only [List.map_cons, List.map_nil, List.sum_cons, List.sum_nil, List.length_cons,
        List.length_nil, hserde.string, hserde.bool, Bool.false_eq_true, if_false]
      omega
    · show ["kind", "commandId", "reason", "retryable"].Nodup
      decide
  have hcode : (Nat.toDigits 10 (32029 + 1)).length = 5 := by decide
  rw [commandRejected, printedSize_errorResponse hserde, printedSize_error hserde, hdata, hcode,
    escapedSize_rejection]
  omega

/-- The data of an error that has a kind only. -/
theorem printedSize_kind (kind : String) :
    serde.printedSize (.obj [("kind", .string kind)]) = escapedSize kind + 9 := by
  have hkind : escapedSize "kind" = 6 := by decide
  rw [hserde.obj]
  · simp only [List.map_cons, List.map_nil, List.sum_cons, List.sum_nil, List.length_cons,
      List.length_nil, hserde.string]
    omega
  · show ["kind"].Nodup
    decide

/-- The size of an error about parameters. -/
theorem printedSize_invalidParams (id : Value) (message : String) :
    serde.printedSize (invalidParams id message) =
      serde.printedSize id + escapedSize message + 90 := by
  have hcode : (Nat.toDigits 10 (32601 + 1)).length = 5 := by decide
  have hkind : escapedSize "invalidParams" = 15 := by decide
  rw [invalidParams, printedSize_errorResponse hserde, printedSize_error hserde,
    printedSize_kind hserde, hcode, hkind]
  omega

/-- The size of an error about a request. -/
theorem printedSize_invalidRequest (id : Value) (message : String) :
    serde.printedSize (invalidRequest id message) =
      serde.printedSize id + escapedSize message + 91 := by
  have hcode : (Nat.toDigits 10 (32599 + 1)).length = 5 := by decide
  have hkind : escapedSize "invalidRequest" = 16 := by decide
  rw [invalidRequest, printedSize_errorResponse hserde, printedSize_error hserde,
    printedSize_kind hserde, hcode, hkind]
  omega

/-- The size of the error that there are too many requests. -/
theorem printedSize_overloaded (id : Value) :
    serde.printedSize (overloaded id) = serde.printedSize id + 167 := by
  have hdata : serde.printedSize (.obj
      [("kind", .string "overloaded"), ("capacity", .ofNat MAX_PENDING_REQUESTS),
        ("retryable", .bool true)]) = 54 := by
    rw [hserde.obj]
    · simp only [List.map_cons, List.map_nil, List.sum_cons, List.sum_nil, List.length_cons,
        List.length_nil, hserde.string, hserde.bool, hserde.posInt]
      decide
    · show ["kind", "capacity", "retryable"].Nodup
      decide
  have hcode : (Nat.toDigits 10 (32000 + 1)).length = 5 := by decide
  have hmessage : escapedSize "muse-codex MSP request adapter is at capacity" = 47 := by decide
  rw [overloaded, printedSize_errorResponse hserde, printedSize_error hserde, hdata, hcode,
    hmessage]

end

/-! ## The size of an edited document -/

/-- A replacement of one node changes that node only. -/
theorem replace_ne_iff {m m' : Node} (hne : m' ≠ m) (n : Node) :
    (if n = m then m' else n) ≠ n ↔ n = m := by
  split_ifs with hn
  · rw [hn]
    exact iff_of_true hne rfl
  · exact iff_of_false (not_not_intro rfl) hn

section

variable {serde : Serde} (hserde : serde.Itemized) (label : String)

include hserde

/-- A request that selects the public label changes its size by the difference of the names. -/
theorem resizes_selectRequestProvider (method : String) :
    Resizes (fun n => n = .string label) serde.printedSize (escapedSize label)
      (escapedSize INTERNAL_PROVIDER) (selectRequestProvider label method)
      (fun _ => requestFields method) := by
  have hprovider : Resizes (fun n => n = .string label) serde.printedSize (escapedSize label)
      (escapedSize INTERNAL_PROVIDER) (selectProvider label) (fun _ => [[]]) := by
    apply resizes_root
    intro v w changed hok
    cases v with
    | string s =>
      rw [selectProvider] at hok
      by_cases hs : s = label
      · rw [if_pos hs] at hok
        cases hok
        simp only [Value.node, hs, decide_true, if_true, hserde.string]
        exact Nat.add_comm _ _
      · rw [if_neg hs] at hok
        split_ifs at hok
        cases hok
        simp [Value.node, hs]
    | null | bool | number | array | object =>
      cases hok
      simp [Value.node]
  have hproviderId := hprovider.atKey hserde.additive "providerId"
  unfold selectRequestProvider requestFields
  split_ifs
  · exact hproviderId.atKey hserde.additive "params"
  · exact (hproviderId.atKey hserde.additive "model").atKey hserde.additive "params"
  · exact resizes_skip

/-- A provider field of the host that holds the internal provider changes its size by the difference
of the names. -/
theorem resizes_adaptProvider :
    Resizes (fun n => n = .string INTERNAL_PROVIDER) serde.printedSize
      (escapedSize INTERNAL_PROVIDER) (escapedSize label) (adaptProvider label)
      (fun _ => [[]]) := by
  apply resizes_root
  intro v w changed hok
  cases v with
  | null =>
    cases hok
    simp [Value.node]
  | string s =>
    rw [adaptProvider] at hok
    by_cases hs : s = INTERNAL_PROVIDER
    · rw [if_pos hs] at hok
      cases hok
      simp only [Value.node, hs, decide_true, if_true, hserde.string]
      exact Nat.add_comm _ _
    · rw [if_neg hs] at hok
      split_ifs at hok
      cases hok
      simp [Value.node, hs]
  | bool | number | array | object => cases hok

/-- A notification is resized by its provider fields. -/
theorem resizes_adaptServerNotification (method : String) :
    Resizes (fun n => n = .string INTERNAL_PROVIDER) serde.printedSize
      (escapedSize INTERNAL_PROVIDER) (escapedSize label)
      (adaptServerNotification label method) (fun _ => notificationFields method) := by
  have hproviderId := (resizes_adaptProvider hserde label).atKey hserde.additive "providerId"
  unfold adaptServerNotification notificationFields
  split_ifs
  · exact (hproviderId.atKey hserde.additive "session").atKey hserde.additive "params"
  · exact hproviderId.atKey hserde.additive "params"
  · exact resizes_skip

/-- An event is resized by its provider fields. -/
theorem resizes_adaptEvent :
    Resizes (fun n => n = .string INTERNAL_PROVIDER) serde.printedSize
      (escapedSize INTERNAL_PROVIDER) (escapedSize label) (adaptEvent label) eventFields := by
  have hedits (method : Option String) : Resizes (fun n => n = .string INTERNAL_PROVIDER)
      serde.printedSize (escapedSize INTERNAL_PROVIDER) (escapedSize label)
      (fun event => method.elim (skip event) fun method =>
        adaptServerNotification label method event)
      (fun _ => method.elim [] notificationFields) := by
    cases method with
    | none => exact resizes_skip
    | some method => exact resizes_adaptServerNotification hserde label method
  have hedit : adaptEvent label = fun event => (methodOf event).elim (skip event) fun method =>
      adaptServerNotification label method event := by
    funext event
    rw [adaptEvent]
    cases methodOf event <;> rfl
  have hfields : eventFields = fun event => (methodOf event).elim [] notificationFields := by
    funext event
    rw [eventFields]
    cases methodOf event <;> rfl
  rw [hedit, hfields]
  exact Resizes.choose methodOf hedits

/-- A result is resized by its provider fields. -/
theorem resizes_adaptServerResult (method : String) :
    Resizes (fun n => n = .string INTERNAL_PROVIDER) serde.printedSize
      (escapedSize INTERNAL_PROVIDER) (escapedSize label) (adaptServerResult label method)
      (resultFields method) := by
  have hprovider := resizes_adaptProvider hserde label
  have hproviderId := hprovider.atKey hserde.additive "providerId"
  unfold adaptServerResult resultFields
  split_ifs
  · exact hproviderId.atKeys hserde.additive
      (((hproviderId.atKey hserde.additive "effectiveModel").atKey hserde.additive "state").atKey
        hserde.additive "snapshot") (by decide)
  · exact (hproviderId.eachItem hserde.additive).atKey hserde.additive "sessions"
  · exact hprovider.atKeys hserde.additive (hproviderId.eachItem hserde.additive) (by decide)
  · exact ((resizes_adaptEvent hserde label).eachItem hserde.additive).atKey hserde.additive "events"
  · exact resizes_skip

/-- A document of the host changes its size by the difference of the names for each of its provider
fields that holds the internal provider. -/
theorem resizes_hostEdit (pending : PendingRequests) :
    Resizes (fun n => n = .string INTERNAL_PROVIDER) serde.printedSize
      (escapedSize INTERNAL_PROVIDER) (escapedSize label) (hostEdit serde label pending)
      (providerFields serde pending) := by
  -- What is edited depends on the method and the request that is answered, which both stay.
  have hedits (s : Option String × Option String) :
      Resizes (fun n => n = .string INTERNAL_PROVIDER) serde.printedSize
        (escapedSize INTERNAL_PROVIDER) (escapedSize label)
        (fun value => s.1.elim
          (s.2.elim (skip value) fun method =>
            atKey "result" (adaptServerResult label method) value)
          fun method => adaptServerNotification label method value)
        (fun value => s.1.elim
          (s.2.elim [] fun method => keyFields "result" (resultFields method) value)
          notificationFields) := by
    obtain ⟨_ | method, _ | answered⟩ := s
    · exact resizes_skip
    · exact (resizes_adaptServerResult hserde label answered).atKey hserde.additive "result"
    · exact resizes_adaptServerNotification hserde label method
    · exact resizes_adaptServerNotification hserde label method
  have hedit : hostEdit serde label pending = fun value => (methodOf value).elim
      ((answeredMethod serde pending value).elim (skip value) fun method =>
        atKey "result" (adaptServerResult label method) value)
      fun method => adaptServerNotification label method value := by
    funext value
    rw [hostEdit]
    cases methodOf value <;> cases answeredMethod serde pending value <;> rfl
  have hfields : providerFields serde pending = fun value => (methodOf value).elim
      ((answeredMethod serde pending value).elim [] fun method =>
        keyFields "result" (resultFields method) value)
      notificationFields := by
    funext value
    rw [providerFields]
    cases methodOf value <;> cases answeredMethod serde pending value <;> rfl
  rw [hedit, hfields]
  exact Resizes.choose (fun value => (methodOf value, answeredMethod serde pending value)) hedits

end

/-! ## Client frames -/

/-- The frame that is written for a frame of the client is within the limit. -/
def ClientFrame.Fits (serde : Serde) : ClientFrame → Prop
  | .forward bytes => Msp.Fits bytes
  | .reject error => Msp.Fits (encodeFrame serde error)
  | .drop => True

section

variable (serde : Serde) (label : String) (method : String) (value : Value)

/-- A request that selects the public label. -/
def SelectsPublic : Prop := ∃ p ∈ requestFields method, value.nodeAt p = some (.string label)

/-- A request that selects another provider. -/
def SelectsOther : Prop :=
  ∃ p ∈ requestFields method, ∃ s, value.nodeAt p = some (.string s) ∧ s ≠ "" ∧ s ≠ label

/-- The room that the limit leaves for what is written for a request of the client. -/
structure ClientRoom (pending : PendingRequests) : Prop where
  /-- A request that selects the public label, and that is not rejected, is printed anew with the
  internal provider in its place. -/
  selected : SelectsPublic label method value →
    (∀ id ∈ value.get "id", id.isScalar → pending.containsKey (serde.toString id) = false ∧
      pending.length < MAX_PENDING_REQUESTS) →
    serde.printedSize value + INTERNAL_PROVIDER.utf8ByteSize ≤ MAX_FRAME_BYTES + label.utf8ByteSize
  /-- A request that selects another provider is rejected with its id, and, if it has one, with its
  command id and the public label. -/
  refused : SelectsOther label method value → ∀ id ∈ value.get "id", id.isScalar →
    serde.printedSize id + (match commandIdOf value with
      | some commandId => escapedSize commandId + label.utf8ByteSize + 208
      | none => 127) ≤ MAX_FRAME_BYTES
  /-- A request whose id is in flight is rejected with it. -/
  duplicate : ¬SelectsOther label method value → ∀ id ∈ value.get "id", id.isScalar →
    pending.containsKey (serde.toString id) = true → serde.printedSize id + 123 ≤ MAX_FRAME_BYTES
  /-- A request that finds the table full is rejected with its id. -/
  full : ¬SelectsOther label method value → ∀ id ∈ value.get "id", id.isScalar →
    pending.containsKey (serde.toString id) = false → MAX_PENDING_REQUESTS ≤ pending.length →
      serde.printedSize id + 167 ≤ MAX_FRAME_BYTES

end

section

variable {serde : Serde} {label method : String} {value : Value} {pending : PendingRequests}

/-- A request has at most one provider field. -/
theorem requestFields_length_le (method : String) : (requestFields method).length ≤ 1 := by
  unfold requestFields
  split_ifs <;> simp

/-- A request has one provider field at most. -/
theorem requestFields_unique {p q : Path} (hp : p ∈ requestFields method)
    (hq : q ∈ requestFields method) : p = q := by
  have hlength := requestFields_length_le method
  generalize requestFields method = fields at *
  match fields with
  | [] => cases hp
  | [r] => rw [List.mem_singleton.mp hp, List.mem_singleton.mp hq]

/-- A request selects another provider when its provider field cannot be selected. -/
theorem selectsOther_iff : SelectsOther label method value ↔
    ¬∀ p ∈ requestFields method, ∀ n ∈ value.nodeAt p, Selectable label n := by
  constructor
  · rintro ⟨p, hp, s, hs, hempty, hpublic⟩ hfits
    rcases hfits p hp _ hs s rfl with heq | heq
    · exact hempty heq
    · exact hpublic heq
  · intro hnot
    simp only [not_forall] at hnot
    obtain ⟨p, hp, n, hn, hselect⟩ := hnot
    simp only [Selectable, not_forall, not_or] at hselect
    obtain ⟨s, rfl, hempty, hpublic⟩ := hselect
    exact ⟨p, hp, s, hn, hempty, hpublic⟩

/-- A request does not select two providers. -/
theorem SelectsOther.not_selectsPublic (h : SelectsOther label method value) :
    ¬SelectsPublic label method value := by
  obtain ⟨p, hp, s, hs, -, hpublic⟩ := h
  rintro ⟨q, hq, hlabel⟩
  rw [requestFields_unique hq hp, hs] at hlabel
  injection hlabel with hlabel
  injection hlabel with hlabel
  exact hpublic hlabel

/-- The room that the refusal of a request needs. -/
theorem clientRoom_refused (hother : SelectsOther label method value) :
    ClientRoom serde label method value pending ↔ ∀ id ∈ value.get "id", id.isScalar →
      serde.printedSize id + (match commandIdOf value with
        | some commandId => escapedSize commandId + label.utf8ByteSize + 208
        | none => 127) ≤ MAX_FRAME_BYTES :=
  ⟨fun h => h.refused hother, fun h => ⟨fun hpublic => absurd hpublic hother.not_selectsPublic,
    fun _ => h, fun hnot => absurd hother hnot, fun hnot => absurd hother hnot⟩⟩

/-- A request without an id that can be a key is not rejected for it. -/
theorem clientRoom_keyless (hother : ¬SelectsOther label method value)
    (hkeyless : ∀ id ∈ value.get "id", id.isScalar = false) :
    ClientRoom serde label method value pending ↔ (SelectsPublic label method value →
      serde.printedSize value + INTERNAL_PROVIDER.utf8ByteSize ≤
        MAX_FRAME_BYTES + label.utf8ByteSize) := by
  have hnone {id : Value} (hid : id ∈ value.get "id") (hscalar : id.isScalar = true) : False := by
    rw [hkeyless id hid] at hscalar
    cases hscalar
  constructor
  · exact fun h hpublic => h.selected hpublic fun id hid hscalar => (hnone hid hscalar).elim
  · exact fun h => ⟨fun hpublic _ => h hpublic, fun hsome => absurd hsome hother,
      fun _ id hid hscalar => (hnone hid hscalar).elim,
      fun _ id hid hscalar => (hnone hid hscalar).elim⟩

/-- A request with an id that can be a key is rejected for it, or forwarded. -/
theorem clientRoom_keyed (serde : Serde) (pending : PendingRequests)
    (hother : ¬SelectsOther label method value) {id : Value}
    (hid : value.get "id" = some id) (hscalar : id.isScalar) :
    ClientRoom serde label method value pending ↔
      if pending.containsKey (serde.toString id) then
        serde.printedSize id + 32 + 91 ≤ MAX_FRAME_BYTES
      else if MAX_PENDING_REQUESTS ≤ pending.length then
        serde.printedSize id + 167 ≤ MAX_FRAME_BYTES
      else (SelectsPublic label method value →
        serde.printedSize value + INTERNAL_PROVIDER.utf8ByteSize ≤
          MAX_FRAME_BYTES + label.utf8ByteSize) := by
  -- All conditions are on the one id of the frame.
  have honly {id' : Value} (hid' : id' ∈ value.get "id") : id' = id :=
    Option.some.inj (hid'.symm.trans hid)
  cases hkey : pending.containsKey (serde.toString id) with
  | true =>
    rw [if_pos rfl]
    constructor
    · exact fun h => h.duplicate hother id hid hscalar hkey
    · refine fun h => ⟨fun _ hno => ?_, fun hsome => absurd hsome hother, ?_, ?_⟩
      · have hfree := (hno id hid hscalar).1
        rw [hkey] at hfree
        cases hfree
      · intro _ id' hid' _ _
        rw [honly hid']
        exact h
      · intro _ id' hid' _ hfree
        rw [honly hid', hkey] at hfree
        cases hfree
  | false =>
    rw [if_neg Bool.false_ne_true]
    split_ifs with hfull
    · constructor
      · exact fun h => h.full hother id hid hscalar hkey hfull
      · refine fun h => ⟨fun _ hno => ?_, fun hsome => absurd hsome hother, ?_, ?_⟩
        · exact absurd (hno id hid hscalar).2 (Nat.not_lt_of_le hfull)
        · intro _ id' hid' _ htaken
          rw [honly hid', hkey] at htaken
          cases htaken
        · intro _ id' hid' _ _ _
          rw [honly hid']
          exact h
    · constructor
      · refine fun h hpublic => h.selected hpublic fun id' hid' _ => ?_
        rw [honly hid']
        exact ⟨hkey, Nat.lt_of_not_le hfull⟩
      · refine fun h => ⟨fun hpublic _ => h hpublic, fun hsome => absurd hsome hother, ?_, ?_⟩
        · intro _ id' hid' _ htaken
          rw [honly hid', hkey] at htaken
          cases htaken
        · exact fun _ _ _ _ _ hfull' => absurd hfull' hfull

/-- What selecting the provider of a request comes to. -/
theorem selectRequestProvider_cases (hlabel : label ≠ INTERNAL_PROVIDER) :
    match selectRequestProvider label method value with
    | .error _ => SelectsOther label method value
    | .ok (_, changed) =>
      ¬SelectsOther label method value ∧ (changed = true ↔ SelectsPublic label method value) := by
  have hedits := edits_selectRequestProvider hlabel method
  have hok : (∃ r, selectRequestProvider label method value = .ok r) ↔
      ¬SelectsOther label method value := by
    rw [selectsOther_iff, not_not]
    exact hedits.ok_iff value
  cases hselect : selectRequestProvider label method value with
  | error reason =>
    by_contra hnot
    obtain ⟨r, hr⟩ := hok.mpr hnot
    rw [hselect] at hr
    cases hr
  | ok r =>
    obtain ⟨w, changed⟩ := r
    have hne : Node.string INTERNAL_PROVIDER ≠ .string label := fun heq => by
      injection heq with heq
      exact hlabel heq.symm
    refine ⟨hok.mp ⟨_, hselect⟩, ?_⟩
    rw [hedits.changed_iff hselect, SelectsPublic]
    simp only [selected, replace_ne_iff hne, exists_eq_right, Option.mem_def]

variable (hserde : serde.Itemized)

include hserde

/-- The size of a request in which the internal provider replaces the public label. -/
theorem printedSize_selected {w : Value} {changed : Bool}
    (hselect : selectRequestProvider label method value = .ok (w, changed))
    (hpublic : SelectsPublic label method value) :
    serde.printedSize w + escapedSize label =
      serde.printedSize value + escapedSize INTERNAL_PROVIDER := by
  have hsize := (resizes_selectRequestProvider hserde label method).resized hselect
  have hone : markCount (fun n => n = .string label) (fun _ => requestFields method) value = 1 := by
    obtain ⟨p, hp, hnode⟩ := hpublic
    have hlength := requestFields_length_le method
    unfold markCount
    generalize requestFields method = fields at *
    match fields with
    | [] => cases hp
    | [q] =>
      rw [← List.mem_singleton.mp hp, List.countP_singleton, hnode]
      simp
  rw [hone] at hsize
  omega

/-- A request that selects another provider is turned away within the limit exactly when its id
leaves room for that. -/
theorem refuseProvider_fits_iff (provider : PublicProvider) (value : Value) :
    (refuseProvider serde provider.asStr value).Fits serde ↔
      ∀ id ∈ value.get "id", id.isScalar → serde.printedSize id + (match commandIdOf value with
        | some commandId => escapedSize commandId + provider.asStr.utf8ByteSize + 208
        | none => 127) ≤ MAX_FRAME_BYTES := by
  unfold refuseProvider
  cases value.get "id" with
  | none => simp [ClientFrame.Fits]
  | some id =>
    simp only [Option.mem_def, Option.some.injEq, forall_eq']
    by_cases hscalar : id.isScalar = true
    · rw [rpcIdKey, if_pos hscalar, if_pos Option.isSome_some, forall_prop_of_true hscalar]
      cases commandIdOf value with
      | some commandId =>
        dsimp only [ClientFrame.Fits]
        rw [fits_encodeFrame, printedSize_commandRejected hserde, Nat.add_assoc, Nat.add_assoc,
          Nat.add_assoc]
      | none =>
        have hmessage : escapedSize "provider requires a valid commandId" = 37 := by decide
        dsimp only [ClientFrame.Fits]
        rw [fits_encodeFrame, printedSize_invalidParams hserde, hmessage]
    · -- The id is not repeated, so the rejection is short.
      have hmessage : escapedSize "request id must be a string, number, or null" = 46 := by decide
      rw [rpcIdKey, if_neg hscalar, if_neg (by decide)]
      dsimp only [ClientFrame.Fits]
      rw [fits_encodeFrame, printedSize_invalidRequest hserde, hserde.null, hmessage]
      exact iff_of_true (by decide) fun h => absurd h hscalar

/-- The frame that is forwarded for a request that does not select another provider is within the
limit exactly when there is room for the internal provider. -/
theorem relayed_fits_iff (provider : PublicProvider) {frame : Bytes} (hframe : Fits frame)
    {r : Value × Bool} (hselect : selectRequestProvider provider.asStr method value = .ok r)
    (hchanged : r.2 = true ↔ SelectsPublic provider.asStr method value) :
    Fits (relayed serde frame r) ↔ (SelectsPublic provider.asStr method value →
      serde.printedSize value + INTERNAL_PROVIDER.utf8ByteSize ≤
        MAX_FRAME_BYTES + provider.asStr.utf8ByteSize) := by
  unfold relayed
  by_cases hpublic : SelectsPublic provider.asStr method value
  · have hsize := printedSize_selected hserde hselect hpublic
    rw [escapedSize_asStr, escapedSize_internal] at hsize
    rw [if_pos (hchanged.mpr hpublic), fits_encodeFrame, forall_prop_of_true hpublic]
    omega
  · rw [if_neg (mt hchanged.mp hpublic)]
    exact iff_of_true hframe fun h => absurd h hpublic

/-- A frame of the client is answered or forwarded within the limit exactly when there is room for
that. -/
theorem adaptClientFrame_fits_iff (provider : PublicProvider) {frame : Bytes}
    (hframe : Fits frame) (pending : PendingRequests) :
    (adaptClientFrame serde provider.asStr frame pending).1.Fits serde ↔
      ∀ value method, parseFrame serde frame = some value → methodOf value = some method →
        ClientRoom serde provider.asStr method value pending := by
  unfold adaptClientFrame
  cases hparse : parseFrame serde frame with
  | none => exact iff_of_true hframe fun _ _ h => absurd h (by simp)
  | some value =>
    dsimp only
    cases hmethod : methodOf value with
    | none =>
      refine iff_of_true hframe fun value' method h h' => ?_
      rw [← Option.some.inj h, hmethod] at h'
      cases h'
    | some method =>
      -- There is one document and one method to speak of.
      have hall : (∀ value' method', some value = some value' → methodOf value' = some method' →
          ClientRoom serde provider.asStr method' value' pending) ↔
            ClientRoom serde provider.asStr method value pending := by
        constructor
        · exact fun h => h value method rfl hmethod
        · rintro h value' method' heq h'
          cases heq
          rw [hmethod] at h'
          cases h'
          exact h
      have hcases := @selectRequestProvider_cases provider.asStr method value
        (asStr_ne_internal provider)
      rw [hall]
      dsimp only
      cases hselect : selectRequestProvider provider.asStr method value with
      | error reason =>
        rw [hselect] at hcases
        exact (refuseProvider_fits_iff hserde provider value).trans (clientRoom_refused hcases).symm
      | ok r =>
        rw [hselect] at hcases
        obtain ⟨hother, hchanged⟩ := hcases
        have hrelayed := relayed_fits_iff hserde provider hframe hselect hchanged
        dsimp only
        rw [selectRequestProvider_id hselect]
        cases hid : value.get "id" with
        | none =>
          -- Without a scalar id, the frame is not kept track of, and only its own size counts.
          have hkeyless : ∀ id ∈ value.get "id", id.isScalar = false := fun id h => by
            rw [hid] at h
            cases h
          exact hrelayed.trans (clientRoom_keyless hother hkeyless).symm
        | some id =>
          dsimp only
          by_cases hscalar : id.isScalar = true
          · rw [rpcIdKey, if_pos hscalar]
            have hroom := clientRoom_keyed serde pending hother hid hscalar
            dsimp only
            cases hkey : pending.containsKey (serde.toString id) with
            | true =>
              -- The text of the refusal is part of its size.
              have hmessage : escapedSize "duplicate in-flight request id" = 32 := by decide
              rw [if_pos rfl]
              dsimp only [ClientFrame.Fits]
              rw [fits_encodeFrame, printedSize_invalidRequest hserde, hmessage, hroom, if_pos hkey]
            | false =>
              rw [hkey] at hroom
              rw [if_neg Bool.false_ne_true] at hroom ⊢
              by_cases hfull : MAX_PENDING_REQUESTS ≤ pending.length
              · rw [if_pos hfull] at hroom ⊢
                dsimp only [ClientFrame.Fits]
                rw [fits_encodeFrame, printedSize_overloaded hserde, hroom]
              · rw [if_neg hfull] at hroom ⊢
                exact hrelayed.trans hroom.symm
          · have hkeyless : ∀ id ∈ value.get "id", id.isScalar = false := fun id' h => by
              rw [hid] at h
              cases h
              exact Bool.not_eq_true _ ▸ hscalar
            rw [rpcIdKey, if_neg hscalar]
            exact hrelayed.trans (clientRoom_keyless hother hkeyless).symm

end

/-! ## Host frames -/

section

variable (serde : Serde) (pending : PendingRequests) (value : Value)

/-- The number of the provider fields that hold the internal provider. -/
def internalCount : ℕ :=
  markCount (fun n => n = .string INTERNAL_PROVIDER) (providerFields serde pending) value

/-- The room that the limit leaves for a document of the host in which the public label replaces the
internal provider. -/
def HostRoom (label : String) : Prop :=
  (∀ p ∈ providerFields serde pending value, ∀ n ∈ value.nodeAt p, Exposable label n) →
    0 < internalCount serde pending value →
    serde.printedSize value + label.utf8ByteSize * internalCount serde pending value ≤
      MAX_FRAME_BYTES + INTERNAL_PROVIDER.utf8ByteSize * internalCount serde pending value

end

section

variable {serde : Serde}

/-- A document of the host is changed when one of its provider fields holds the internal
provider. -/
theorem hostEdit_changed_iff (provider : PublicProvider) {pending : PendingRequests}
    {v w : Value} {changed : Bool}
    (hedit : hostEdit serde provider.asStr pending v = .ok (w, changed)) :
    changed = true ↔ 0 < internalCount serde pending v := by
  have hne : Node.string provider.asStr ≠ .string INTERNAL_PROVIDER := fun heq => by
    injection heq with heq
    exact asStr_ne_internal provider heq
  rw [(edits_hostEdit serde (asStr_ne_internal provider) pending).changed_iff hedit, internalCount,
    markCount, List.countP_pos_iff]
  simp only [exposed, replace_ne_iff hne, exists_eq_right, Option.mem_def, Option.any_eq_true,
    decide_eq_true_eq]

/-- A frame of the host is relayed within the limit exactly when there is room for the public
label. -/
theorem adaptServerFrame_fits_iff (hserde : serde.Itemized) (provider : PublicProvider)
    {frame : Bytes} (hframe : Fits frame) (pending : PendingRequests) :
    (∀ bytes, (adaptServerFrame serde provider.asStr frame pending).1 = .ok bytes → Fits bytes) ↔
      ∀ value, parseFrame serde frame = some value → Admitted serde frame pending →
        HostRoom serde pending value provider.asStr := by
  rcases adaptServerFrame_edit serde provider.asStr frame pending with ⟨hnot, reason, herror⟩ |
    ⟨hadmitted, value, hparse, hedit⟩
  · rw [herror]
    exact iff_of_true (fun _ h => by cases h) fun _ _ h => absurd h hnot
  · have hedits := edits_hostEdit serde (asStr_ne_internal provider) pending
    have hall : (∀ value', parseFrame serde frame = some value' → Admitted serde frame pending →
        HostRoom serde pending value' provider.asStr) ↔
          HostRoom serde pending value provider.asStr := by
      constructor
      · exact fun h => h value hparse hadmitted
      · rintro h value' hparse' -
        rw [← Option.some.inj (hparse.symm.trans hparse')]
        exact h
    rw [hall, hedit, HostRoom, ← hedits.ok_iff value]
    cases hvalue : hostEdit serde provider.asStr pending value with
    | error reason =>
      refine iff_of_true (fun _ h => by cases h) ?_
      rintro ⟨r, hr⟩
      cases hr
    | ok r =>
      obtain ⟨w, changed⟩ := r
      have hchanged := hostEdit_changed_iff provider hvalue
      rw [Except.map, forall_prop_of_true ⟨_, rfl⟩, relayed]
      simp only [Except.ok.injEq, forall_eq']
      by_cases hcount : 0 < internalCount serde pending value
      · have hsize : serde.printedSize w +
            escapedSize INTERNAL_PROVIDER * internalCount serde pending value =
          serde.printedSize value + escapedSize provider.asStr * internalCount serde pending value :=
          (resizes_hostEdit hserde provider.asStr pending).resized hvalue
        rw [escapedSize_asStr, escapedSize_internal, Nat.add_mul, Nat.add_mul] at hsize
        rw [if_pos (hchanged.mpr hcount), fits_encodeFrame, forall_prop_of_true hcount]
        omega
      · rw [if_neg (mt hchanged.mp hcount)]
        exact iff_of_true hframe fun h => absurd h hcount

end

/-! ## The limit -/

/-- The relay keeps within the frame limit exactly where the limit leaves room for what it writes.
Nothing checks that. -/
theorem relay_fits_iff {serde : Serde} (hserde : serde.Itemized) (provider : PublicProvider)
    {frame : Bytes} (hframe : Fits frame) (pending : PendingRequests) :
    ((adaptClientFrame serde provider.asStr frame pending).1.Fits serde ↔
      ∀ value method, parseFrame serde frame = some value → methodOf value = some method →
        ClientRoom serde provider.asStr method value pending) ∧
    ((∀ bytes, (adaptServerFrame serde provider.asStr frame pending).1 = .ok bytes →
        Fits bytes) ↔
      ∀ value, parseFrame serde frame = some value → Admitted serde frame pending →
        HostRoom serde pending value provider.asStr) :=
  ⟨adaptClientFrame_fits_iff hserde provider hframe pending,
    adaptServerFrame_fits_iff hserde provider hframe pending⟩

/-- There is room for a request that selects the public label. -/
theorem clientRoom_start : ClientRoom Compact.serde PublicProvider.codex.asStr "session/start"
    (startValue (.ofNat 1) "codex") [] where
  selected _ _ := by
    have hsize : Compact.serde.printedSize (startValue (.ofNat 1) "codex") = 65 := by decide
    rw [hsize]
    decide
  refused hother := by
    obtain ⟨p, hp, s, hs, -, hpublic⟩ := hother
    rw [List.mem_singleton.mp hp] at hs
    injection hs with hs
    injection hs with hs
    exact absurd hs.symm hpublic
  duplicate _ _ _ _ hkey := by cases hkey
  full _ _ _ _ _ hfull := absurd hfull (by decide)

/-- A request to start a session fits on both sides. -/
theorem relay_fits_iff_start :
    (adaptClientFrame Compact.serde PublicProvider.codex.asStr (startFrame "1" "codex")
        []).1.Fits Compact.serde ∧
      ∀ bytes, (adaptServerFrame Compact.serde PublicProvider.codex.asStr (startFrame "1" "codex")
        []).1 = .ok bytes → Fits bytes := by
  have hparse : parseFrame Compact.serde (startFrame "1" "codex") =
      some (startValue (.ofNat 1) "codex") := by
    decide +kernel
  have hfits : Fits (startFrame "1" "codex") := by
    have hlength : (content (startFrame "1" "codex")).length = 65 := by decide
    rw [Fits, hlength]
    decide
  have hiff := relay_fits_iff Compact.itemized .codex hfits []
  rw [hiff.1, hiff.2]
  constructor
  · intro value method hvalue hmethod
    obtain rfl := Option.some.inj (hparse.symm.trans hvalue)
    obtain rfl : "session/start" = method := Option.some.inj hmethod
    exact clientRoom_start
  · intro value hvalue _ _ hcount
    obtain rfl := Option.some.inj (hparse.symm.trans hvalue)
    exact absurd hcount (by decide)

/-- A frame that is printed is read back. -/
theorem parseFrame_encodeFrame {serde : Serde} (hserde : serde.Lawful) {v : Value}
    (hv : Plain 127 v) : parseFrame serde (encodeFrame serde v) = some v := by
  have hcontent : stripSuffix LF (encodeFrame serde v) = serde.toVec v := by
    simp [encodeFrame, stripSuffix]
  have hline : stripSuffix CR (serde.toVec v) = serde.toVec v := by
    refine if_neg fun hlast => ?_
    have hmem : CR ∈ toUtf8 (serde.toString v) := List.mem_of_getLast? hlast
    have honeLine : OneLine (serde.toString v) := hserde.toString_line v
    exact (honeLine.toUtf8 hmem).2 rfl
  rw [parseFrame, hcontent, hline, hserde.fromSlice_toVec hv]

/-- A notification of the host about a model, with a note. -/
def modelChanged (note : String) : Value :=
  .object [("method", .string "session/modelChanged"), ("note", .string note),
    ("params", .object [("providerId", .string INTERNAL_PROVIDER)])]

/-- The notification is a plain document. -/
theorem modelChanged_plain (note : String) : Plain 127 (modelChanged note) := by
  have hsorted : ["method", "note", "params"].Pairwise (· < ·) := by decide
  have hparams : Plain 1 (.object [("providerId", .string INTERNAL_PROVIDER)]) :=
    .object 0 (List.pairwise_singleton _ _) (by simp [Plain.string])
  refine Plain.mono (d := 2) (.object 1 (List.pairwise_map.mp hsorted) ?_) (by decide)
  simp [Plain.string, hparams]

/-- The size of the notification is that of its note and a constant. -/
theorem printedSize_modelChanged {serde : Serde} (hserde : serde.Itemized) (note : String) :
    serde.printedSize (modelChanged note) = escapedSize note + 72 := by
  have hmethod : escapedSize "method" = 8 := by decide
  have hnote : escapedSize "note" = 6 := by decide
  have hparams : escapedSize "params" = 8 := by decide
  have hprovider : escapedSize "providerId" = 12 := by decide
  have hchanged : escapedSize "session/modelChanged" = 22 := by decide
  have hinternal : escapedSize INTERNAL_PROVIDER = 6 := by decide
  simp only [modelChanged, hserde.object, List.map_cons, List.map_nil, List.sum_cons, List.sum_nil,
    List.length_cons, List.length_nil, hserde.string, hmethod, hnote, hparams, hprovider, hchanged,
    hinternal]
  omega

/-- A note of letters. -/
theorem escapedSize_replicate (n : ℕ) :
    escapedSize (String.ofList (List.replicate n 'a')) = n + 2 := by
  have hletter : escapeSize 'a' = 1 := by decide
  rw [escapedSize, String.toList_ofList, List.map_replicate, hletter, List.sum_replicate_nat,
    Nat.mul_one]

/-- The notification names its method. -/
theorem methodOf_modelChanged (note : String) :
    methodOf (modelChanged note) = some "session/modelChanged" := by
  simp [methodOf, modelChanged, Value.get_object, Map.get]

/-- Such a notification has one provider field. -/
theorem providerFields_modelChanged (serde : Serde) (pending : PendingRequests) (note : String) :
    providerFields serde pending (modelChanged note) = [[.key "params", .key "providerId"]] := by
  rw [providerFields, methodOf_modelChanged]
  show notificationFields "session/modelChanged" = _
  decide

/-- The provider field of the notification is the internal label. -/
theorem nodeAt_modelChanged (note : String) :
    (modelChanged note).nodeAt [.key "params", .key "providerId"] =
      some (.string INTERNAL_PROVIDER) := by
  simp [modelChanged, Value.nodeAt_cons, Value.child, Value.get_object, Map.get, Value.node]

/-- Such a notification may fit when the host sends it, and not when it is relayed. -/
theorem modelChanged_overlong {serde : Serde} (hserde : serde.Itemized) (hlawful : serde.Lawful)
    (pending : PendingRequests) {note : String}
    (hfits : Fits (encodeFrame serde (modelChanged note)))
    (hlong : MAX_FRAME_BYTES < escapedSize note + 73) :
    ∃ bytes, (adaptServerFrame serde PublicProvider.codex.asStr
      (encodeFrame serde (modelChanged note)) pending).1 = .ok bytes ∧ ¬Fits bytes := by
  have hparse := parseFrame_encodeFrame hlawful (modelChanged_plain note)
  have hadmitted : Admitted serde (encodeFrame serde (modelChanged note)) pending := by
    rw [Admitted, hostFrame_of_methodOf hparse (methodOf_modelChanged note)]
    trivial
  have hcount : internalCount serde pending (modelChanged note) = 1 := by
    rw [internalCount, markCount, providerFields_modelChanged, List.countP_singleton,
      nodeAt_modelChanged]
    decide
  by_contra hnone
  simp only [not_exists, not_and, not_not] at hnone
  have hroom := (adaptServerFrame_fits_iff hserde .codex hfits pending).mp hnone _ hparse hadmitted
  rw [HostRoom, providerFields_modelChanged, hcount, printedSize_modelChanged hserde] at hroom
  have hexposable : ∀ p ∈ [[Step.key "params", Step.key "providerId"]],
      ∀ n ∈ (modelChanged note).nodeAt p, Exposable PublicProvider.codex.asStr n := by
    intro p hp n hn
    rw [List.mem_singleton.mp hp, nodeAt_modelChanged] at hn
    exact .inr (.inl (Option.some.inj hn).symm)
  have hlabel : PublicProvider.codex.asStr.utf8ByteSize = 5 := by decide
  have hinternal : INTERNAL_PROVIDER.utf8ByteSize = 4 := by decide
  have hbound := hroom hexposable Nat.one_pos
  omega

/-- Such a notification whose frame is as long as the limit allows. -/
def fullFrame : Bytes :=
  encodeFrame Compact.serde
    (modelChanged (String.ofList (List.replicate (MAX_FRAME_BYTES - 74) 'a')))

/-- With a longer public label, a full frame does not fit any more. -/
theorem adaptServerFrame_overlong :
    Fits fullFrame ∧
      ∃ bytes, (adaptServerFrame Compact.serde PublicProvider.codex.asStr fullFrame []).1 =
        .ok bytes ∧ ¬Fits bytes := by
  have hsize := escapedSize_replicate (MAX_FRAME_BYTES - 74)
  have hfits : Fits fullFrame := by
    rw [fullFrame, fits_encodeFrame, printedSize_modelChanged Compact.itemized, hsize]
    decide
  refine ⟨hfits, modelChanged_overlong Compact.itemized Compact.lawful [] hfits ?_⟩
  rw [hsize]
  decide

end MuseCodex.Msp
