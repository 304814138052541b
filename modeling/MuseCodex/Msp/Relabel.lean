import MuseCodex.Json.Compact
import MuseCodex.Msp.Adapter

/-!
# What the adapter replaces in a frame

The adapter translates the provider in a frame only at the fields that the method of the frame has
for it. `requestFields`, `notificationFields` and `resultFields` list these fields, and the edits
of `Adapter.lean` are exactly edits of them (`Edits`). From this follow the two results of this
module: a client frame that is forwarded selects no provider but the one that the public label
stands for, and a host frame that is relayed shows no provider but the public label; all else in
the frame is as it was.
-/

namespace MuseCodex.Msp

open Text Json

variable (serde : Serde) (label : String)

/-! ## Provider fields -/

/-- The provider fields of a request. -/
def requestFields (method : String) : List Path :=
  if method = "session/start" then [[.key "params", .key "providerId"]]
  else if method = "session/setModel" then [[.key "params", .key "model", .key "providerId"]]
  else []

/-- The provider fields of a notification. -/
def notificationFields (method : String) : List Path :=
  if method ∈ sessionNotifications then [[.key "params", .key "session", .key "providerId"]]
  else if method = "session/modelChanged" then [[.key "params", .key "providerId"]]
  else []

/-- The provider fields of an event of a page. -/
def eventFields (event : Value) : List Path :=
  match methodOf event with
  | some method => notificationFields method
  | none => []

/-- The provider fields of the items of an array. -/
def providersOf : Value → List Path := itemFields fun _ => [[.key "providerId"]]

/-- The provider fields of the result of a request. -/
def resultFields (method : String) (result : Value) : List Path :=
  if method ∈ sessionRequests then
    [[.key "session", .key "providerId"],
      [.key "history", .key "snapshot", .key "state", .key "effectiveModel", .key "providerId"]]
  else if method = "session/list" then keyFields "sessions" providersOf result
  else if method = "model/list" then [.key "providerId"] :: keyFields "models" providersOf result
  else if method = "view/page" then keyFields "events" (itemFields eventFields) result
  else []

/-- The method of the pending request that a document answers. -/
def answeredMethod (pending : PendingRequests) (value : Value) : Option String :=
  ((value.get "id").bind (rpcIdKey serde)).bind pending.get

/-- The provider fields of a document of the host: of a notification, or of the response to a
pending request. -/
def providerFields (pending : PendingRequests) (value : Value) : List Path :=
  match methodOf value with
  | some method => notificationFields method
  | none => match answeredMethod serde pending value with
    | some method => keyFields "result" (resultFields method) value
    | none => []

/-! ## The edits -/

/-- The nodes that the client may have at a provider field: anything but the name of another
provider. -/
def Selectable (n : Node) : Prop := ∀ s, n = .string s → s = "" ∨ s = label

/-- The internal provider in place of the public label. -/
def selected (n : Node) : Node := if n = .string label then .string INTERNAL_PROVIDER else n

/-- The nodes that the host may have at a provider field. -/
def Exposable (n : Node) : Prop := n = .null ∨ n = .string INTERNAL_PROVIDER ∨ n = .string label

/-- The public label in place of the internal provider. -/
def exposed (n : Node) : Node := if n = .string INTERNAL_PROVIDER then .string label else n

/-- No provider has the internal label. -/
theorem asStr_ne_internal (provider : PublicProvider) : provider.asStr ≠ INTERNAL_PROVIDER := by
  cases provider <;> decide

variable {label}

/-- The provider of a request is edited in place. -/
theorem edits_selectProvider (hlabel : label ≠ INTERNAL_PROVIDER) :
    Edits (Selectable label) (selected label) (selectProvider label) (fun _ => [[]]) := by
  apply edits_root
  · intro v hfits
    cases v with
    | string s =>
      by_cases hs : s = label
      · refine ⟨true, .string INTERNAL_PROVIDER, ?_, .inr ⟨rfl, s, INTERNAL_PROVIDER, rfl, rfl, ?_, ?_⟩⟩
        · rw [selectProvider, if_pos hs]
        · rw [Value.node, selected, if_pos (by rw [hs])]
          rfl
        · rw [hs]
          exact fun heq => hlabel (by injection heq with heq; exact heq.symm)
      · have hempty : s = "" := (hfits s rfl).resolve_right hs
        refine ⟨false, .string s, ?_, .inl ⟨rfl, rfl, ?_⟩⟩
        · rw [selectProvider, if_neg hs, if_neg (not_not_intro hempty)]
        · rw [Value.node, selected, if_neg fun heq => hs (by injection heq)]
    | null | bool | number | array | object => exact ⟨false, _, rfl, .inl ⟨rfl, rfl, rfl⟩⟩
  · intro v hnot
    cases v with
    | string s =>
      have hs : s ≠ label := fun hs => hnot fun s' heq => .inr (by injection heq with heq; rw [← heq, hs])
      have hempty : s ≠ "" := fun hs => hnot fun s' heq => .inl (by injection heq with heq; rw [← heq, hs])
      refine ⟨"unsupported provider", ?_⟩
      rw [selectProvider, if_neg hs, if_pos hempty]
    | null | bool | number | array | object => exact absurd (fun s heq => by cases heq) hnot

/-- The provider of an answer is edited in place. -/
theorem edits_adaptProvider (hlabel : label ≠ INTERNAL_PROVIDER) :
    Edits (Exposable label) (exposed label) (adaptProvider label) (fun _ => [[]]) := by
  apply edits_root
  · intro v hfits
    cases v with
    | null => exact ⟨false, _, rfl, .inl ⟨rfl, rfl, rfl⟩⟩
    | string s =>
      by_cases hs : s = INTERNAL_PROVIDER
      · refine ⟨true, .string label, ?_, .inr ⟨rfl, s, label, rfl, rfl, ?_, ?_⟩⟩
        · rw [adaptProvider, if_pos hs]
        · rw [Value.node, exposed, if_pos (by rw [hs])]
          rfl
        · rw [hs]
          exact fun heq => hlabel (by injection heq)
      · have hpublic : s = label := by
          rcases hfits with heq | heq | heq
          · cases heq
          · exact absurd (by injection heq) hs
          · injection heq
        refine ⟨false, .string s, ?_, .inl ⟨rfl, rfl, ?_⟩⟩
        · rw [adaptProvider, if_neg hs, if_pos hpublic]
        · rw [Value.node, exposed, if_neg fun heq => hs (by injection heq)]
    | bool | number | array | object => rcases hfits with heq | heq | heq <;> cases heq
  · intro v hnot
    cases v with
    | null => exact absurd (.inl rfl) hnot
    | string s =>
      have hs : s ≠ INTERNAL_PROVIDER := fun hs => hnot (.inr (.inl (by rw [hs]; rfl)))
      have hpublic : s ≠ label := fun hs => hnot (.inr (.inr (by rw [hs]; rfl)))
      refine ⟨"stock Muse exposed an unsupported MSP provider", ?_⟩
      rw [adaptProvider, if_neg hs, if_neg hpublic]
    | bool | number | array | object =>
      exact ⟨"stock Muse exposed a malformed MSP provider field", rfl⟩

/-- A request is edited at its provider fields. -/
theorem edits_selectRequestProvider (hlabel : label ≠ INTERNAL_PROVIDER) (method : String) :
    Edits (Selectable label) (selected label) (selectRequestProvider label method)
      (fun _ => requestFields method) := by
  unfold selectRequestProvider requestFields
  have hprovider := (edits_selectProvider hlabel).atKey "providerId"
  split_ifs
  · exact hprovider.atKey "params"
  · exact (hprovider.atKey "model").atKey "params"
  · exact edits_skip

/-- An edit of a notification keeps its method. -/
theorem adaptServerNotification_methodOf {method : String} {v w : Value} {changed : Bool}
    (hok : adaptServerNotification label method v = .ok (w, changed)) :
    methodOf w = methodOf v := by
  unfold adaptServerNotification at hok
  unfold methodOf
  split_ifs at hok
  · rw [atKey_get (by decide) hok]
  · rw [atKey_get (by decide) hok]
  · cases hok
    rfl

section

variable (hlabel : label ≠ INTERNAL_PROVIDER)

include hlabel

/-- The provider of a session is edited below its key. -/
theorem edits_adaptSession :
    Edits (Exposable label) (exposed label) (adaptSession label) (fun _ => [[.key "providerId"]]) :=
  (edits_adaptProvider hlabel).atKey "providerId"

/-- A notification is edited at its provider fields. -/
theorem edits_adaptServerNotification (method : String) :
    Edits (Exposable label) (exposed label) (adaptServerNotification label method)
      (fun _ => notificationFields method) := by
  unfold adaptServerNotification notificationFields
  split_ifs
  · exact ((edits_adaptSession hlabel).atKey "session").atKey "params"
  · exact ((edits_adaptProvider hlabel).atKey "providerId").atKey "params"
  · exact edits_skip

/-- An event of a page is edited at its provider fields. -/
theorem edits_adaptEvent :
    Edits (Exposable label) (exposed label) (adaptEvent label) eventFields := by
  have hedits (method : Option String) : Edits (Exposable label) (exposed label)
      (fun event => match method with
        | some method => adaptServerNotification label method event
        | none => skip event)
      (fun _ => match method with
        | some method => notificationFields method
        | none => []) := by
    cases method with
    | none => exact edits_skip
    | some method => exact edits_adaptServerNotification hlabel method
  apply Edits.choose methodOf hedits
  intro method v w changed hok
  cases method with
  | none =>
    cases hok
    rfl
  | some method => exact adaptServerNotification_methodOf hok

/-- A result is edited at its provider fields. -/
theorem edits_adaptServerResult (method : String) :
    Edits (Exposable label) (exposed label) (adaptServerResult label method)
      (resultFields method) := by
  have hprovider := (edits_adaptProvider hlabel).atKey "providerId"
  unfold adaptServerResult resultFields
  split_ifs
  · exact (edits_adaptSession hlabel).atKeys
      (((hprovider.atKey "effectiveModel").atKey "state").atKey "snapshot") (by decide)
  · exact hprovider.eachItem.atKey "sessions"
  · exact (edits_adaptProvider hlabel).atKeys hprovider.eachItem (by decide)
  · exact (edits_adaptEvent hlabel).eachItem.atKey "events"
  · exact edits_skip

end

/-! ## Host frames -/

/-- The edit of a document of the host: of a notification, or of the response to a pending
request. -/
def hostEdit (label : String) (pending : PendingRequests) : Edit := fun value =>
  match methodOf value with
  | some method => adaptServerNotification label method value
  | none => match answeredMethod serde pending value with
    | some method => atKey "result" (adaptServerResult label method) value
    | none => skip value

/-- A document of the host is edited at its provider fields. -/
theorem edits_hostEdit (hlabel : label ≠ INTERNAL_PROVIDER) (pending : PendingRequests) :
    Edits (Exposable label) (exposed label) (hostEdit serde label pending)
      (providerFields serde pending) := by
  -- The edit is chosen by the method and by the id, which it leaves.
  have hedits (s : Option String × Option String) : Edits (Exposable label) (exposed label)
      (fun value => match s.1 with
        | some method => adaptServerNotification label method value
        | none => match s.2 with
          | some method => atKey "result" (adaptServerResult label method) value
          | none => skip value)
      (fun value => match s.1 with
        | some method => notificationFields method
        | none => match s.2 with
          | some method => keyFields "result" (resultFields method) value
          | none => []) := by
    match s with
    | (some method, _) => exact edits_adaptServerNotification hlabel method
    | (none, some method) => exact (edits_adaptServerResult hlabel method).atKey "result"
    | (none, none) => exact edits_skip
  apply Edits.choose (fun value => (methodOf value, answeredMethod serde pending value)) hedits
  intro s v w changed hok
  have hkeys : w.get "method" = v.get "method" ∧ w.get "id" = v.get "id" := by
    match s with
    | (some method, _) =>
      dsimp only at hok
      unfold adaptServerNotification at hok
      split_ifs at hok
      · exact ⟨atKey_get (by decide) hok, atKey_get (by decide) hok⟩
      · exact ⟨atKey_get (by decide) hok, atKey_get (by decide) hok⟩
      · cases hok
        exact ⟨rfl, rfl⟩
    | (none, some method) => exact ⟨atKey_get (by decide) hok, atKey_get (by decide) hok⟩
    | (none, none) =>
      cases hok
      exact ⟨rfl, rfl⟩
  unfold methodOf answeredMethod
  rw [hkeys.1, hkeys.2]

/-- A frame of the host that is not refused for its envelope: a result answers a pending request. -/
def Admitted (frame : Bytes) (pending : PendingRequests) : Prop :=
  match hostFrame serde frame with
  | .refused => False
  | .notification _ _ | .other _ => True
  | .response value id =>
    (pending.get (serde.toString id)).isSome ∨ (value.get "result").isNone

/-- A frame of the host is refused for its envelope, or its document is edited. -/
theorem adaptServerFrame_edit (label : String) (frame : Bytes) (pending : PendingRequests) :
    (¬Admitted serde frame pending ∧
      ∃ reason, (adaptServerFrame serde label frame pending).1 = .error reason) ∨
      Admitted serde frame pending ∧ ∃ value, parseFrame serde frame = some value ∧
        (adaptServerFrame serde label frame pending).1 =
          (hostEdit serde label pending value).map (relayed serde frame) := by
  obtain ⟨reason, heq⟩ := adaptServerFrame_eq serde label frame pending
  rw [heq, Admitted]
  cases hframe : hostFrame serde frame with
  | refused => exact .inl ⟨not_false, _, rfl⟩
  | notification value method =>
    obtain ⟨hparse, hmethod⟩ := hostFrame_notification hframe
    refine .inr ⟨trivial, value, hparse, ?_⟩
    rw [hostEdit, hmethod]
  | other value =>
    obtain ⟨hparse, hmethod, hid, -⟩ := hostFrame_other hframe
    refine .inr ⟨trivial, value, hparse, ?_⟩
    rw [hostEdit, hmethod, answeredMethod, hid]
    rfl
  | response value id =>
    obtain ⟨hparse, hmethod, hid, hscalar, -⟩ := hostFrame_response hframe
    -- A response is edited as an answer to the request that carries its id.
    have hanswered : answeredMethod serde pending value = pending.get (serde.toString id) := by
      rw [answeredMethod, hid, Option.bind_some, rpcIdKey, if_pos hscalar, Option.bind_some]
    dsimp only
    cases hpending : pending.get (serde.toString id) with
    | some method =>
      refine .inr ⟨.inl Option.isSome_some, value, hparse, ?_⟩
      rw [hostEdit, hmethod, hanswered, hpending]
    | none =>
      dsimp only
      cases hresult : value.get "result" with
      | some result =>
        refine .inl ⟨?_, _, if_pos Option.isSome_some⟩
        simp
      | none =>
        refine .inr ⟨.inr Option.isNone_none, value, hparse, ?_⟩
        rw [hostEdit, hmethod, hanswered, hpending]
        rfl

/-- A frame of the host that is relayed differs from the host's own only at the provider fields,
where the public label replaces the internal provider and no other provider is shown; a frame in
which nothing is replaced is relayed as it is. A frame with another provider is refused. -/
theorem adaptServerFrame_relabels (provider : PublicProvider) (frame : Bytes)
    (pending : PendingRequests) :
    (∀ bytes, (adaptServerFrame serde provider.asStr frame pending).1 = .ok bytes →
      ∃ value value', parseFrame serde frame = some value ∧
        (bytes = frame ∧ value' = value ∨ bytes = encodeFrame serde value') ∧
        (∀ p, value'.nodeAt p = if p ∈ providerFields serde pending value
          then (value.nodeAt p).map (exposed provider.asStr) else value.nodeAt p) ∧
        (∀ p ∈ providerFields serde pending value', ∀ n ∈ value'.nodeAt p,
          n = .null ∨ n = .string provider.asStr) ∧
        ((∀ p ∈ providerFields serde pending value,
          value.nodeAt p ≠ some (.string INTERNAL_PROVIDER)) → bytes = frame)) ∧
    ∀ value, parseFrame serde frame = some value →
      (∃ p ∈ providerFields serde pending value, ∃ n ∈ value.nodeAt p,
        n ≠ .null ∧ n ≠ .string INTERNAL_PROVIDER ∧ n ≠ .string provider.asStr) →
      ∃ reason, (adaptServerFrame serde provider.asStr frame pending).1 = .error reason := by
  have hedits := edits_hostEdit serde (asStr_ne_internal provider) pending
  constructor
  · intro bytes hok
    rcases adaptServerFrame_edit serde provider.asStr frame pending with ⟨-, reason, herror⟩ |
      ⟨-, value, hparse, hedit⟩
    · rw [herror] at hok
      cases hok
    · rw [hedit] at hok
      cases hvalue : hostEdit serde provider.asStr pending value with
      | error reason =>
        rw [hvalue] at hok
        cases hok
      | ok r =>
        obtain ⟨value', changed⟩ := r
        rw [hvalue] at hok
        cases hok
        refine ⟨value, value', hparse, ?_, hedits.nodes hvalue, ?_, ?_⟩
        · cases changed with
          | false => exact .inl ⟨rfl, hedits.same hvalue⟩
          | true => exact .inr rfl
        · intro p hp n hn
          rw [hedits.stable hvalue] at hp
          rw [hedits.nodes hvalue, if_pos hp] at hn
          obtain ⟨n₀, hn₀, rfl⟩ := Option.map_eq_some_iff.mp hn
          -- A label that is left alone is null or the public one already.
          rcases hedits.fit hvalue p hp n₀ hn₀ with rfl | rfl | rfl
          · exact .inl rfl
          · exact .inr (if_pos rfl)
          · exact .inr (by rw [exposed, if_neg fun heq => asStr_ne_internal provider (by injection heq)])
        · intro hnone
          cases changed with
          | false => rfl
          | true =>
            -- A frame is only written anew where a label was replaced.
            obtain ⟨p, hp, n, hn, hne⟩ := hedits.replaced hvalue
            refine absurd (if_neg fun heq => hnone p hp ?_) hne
            rw [← heq]
            exact hn
  · rintro value hparse ⟨p, hp, n, hn, hnull, hinternal, hpublic⟩
    rcases adaptServerFrame_edit serde provider.asStr frame pending with ⟨-, herror⟩ |
      ⟨-, value', hparse', hedit⟩
    · exact herror
    · obtain rfl : value = value' := Option.some.inj (hparse.symm.trans hparse')
      cases hvalue : hostEdit serde provider.asStr pending value with
      | error reason =>
        rw [hvalue] at hedit
        exact ⟨reason, hedit⟩
      | ok r =>
        rcases hedits.fit hvalue p hp n hn with heq | heq | heq
        · exact absurd heq hnull
        · exact absurd heq hinternal
        · exact absurd heq hpublic

/-! ## Client frames -/

/-- A request that selects another provider is turned away: with its id, if that can be a key, as an
invalid request without an id, if it cannot, and without a word, if there is none. -/
theorem refuseProvider_eq (label : String) (value : Value) :
    match value.get "id" with
    | none => refuseProvider serde label value = .drop
    | some id =>
      if id.isScalar then
        ∃ error, refuseProvider serde label value = .reject (errorResponse id error)
      else refuseProvider serde label value =
        .reject (invalidRequest .null "request id must be a string, number, or null") := by
  unfold refuseProvider
  cases value.get "id" with
  | none => rfl
  | some id =>
    dsimp only
    unfold rpcIdKey
    by_cases hscalar : id.isScalar = true
    · rw [if_pos hscalar, if_pos hscalar, if_pos Option.isSome_some]
      cases commandIdOf value with
      | none => exact ⟨_, rfl⟩
      | some commandId => exact ⟨_, rfl⟩
    · rw [if_neg hscalar, if_neg hscalar, if_neg (by decide)]

/-- The document of a client frame that is forwarded was edited. -/
theorem adaptClientFrame_forward {label : String} {frame bytes : Bytes} {pending : PendingRequests}
    {value : Value} {method : String} (hparse : parseFrame serde frame = some value)
    (hmethod : methodOf value = some method)
    (h : (adaptClientFrame serde label frame pending).1 = .forward bytes) :
    ∃ r, selectRequestProvider label method value = .ok r ∧ bytes = relayed serde frame r := by
  unfold adaptClientFrame at h
  rw [hparse] at h
  dsimp only at h
  rw [hmethod] at h
  dsimp only at h
  cases hselect : selectRequestProvider label method value with
  | error reason =>
    rw [hselect] at h
    have hrefuse := refuseProvider_eq serde label value
    dsimp only at h
    rw [h] at hrefuse
    split at hrefuse
    · cases hrefuse
    · split_ifs at hrefuse
      -- A refusal forwards nothing.
      obtain ⟨error, herror⟩ := hrefuse
      cases herror
  | ok r =>
    rw [hselect] at h
    refine ⟨r, rfl, ?_⟩
    dsimp only at h
    split at h
    · cases h
      rfl
    · split at h
      · cases h
        rfl
      · split at h
        · cases h
        · split at h
          · cases h
          · cases h
            rfl

/-- A frame of the client that names a method and is forwarded differs from the client's own only
at the provider field of its method, where the internal provider replaces the public label and no
other provider is named; a frame in which nothing is replaced is forwarded as it is. A frame with
another provider is turned away, with its id if that is a string, a number or null, and as an
invalid request without an id if it is anything else. -/
theorem adaptClientFrame_confined (provider : PublicProvider) (frame : Bytes)
    (pending : PendingRequests) {value : Value} {method : String}
    (hparse : parseFrame serde frame = some value) (hmethod : methodOf value = some method) :
    (∀ bytes, (adaptClientFrame serde provider.asStr frame pending).1 = .forward bytes →
      ∃ value', (bytes = frame ∧ value' = value ∨ bytes = encodeFrame serde value') ∧
        (∀ p, value'.nodeAt p = if p ∈ requestFields method
          then (value.nodeAt p).map (selected provider.asStr) else value.nodeAt p) ∧
        ((∀ p ∈ requestFields method, value.nodeAt p ≠ some (.string provider.asStr)) →
          bytes = frame) ∧
        ∀ p ∈ requestFields method, ∀ s, value'.nodeAt p = some (.string s) → s ≠ "" →
          s = INTERNAL_PROVIDER ∧ value.nodeAt p = some (.string provider.asStr)) ∧
    ((∃ p ∈ requestFields method, ∃ s, value.nodeAt p = some (.string s) ∧ s ≠ "" ∧
        s ≠ provider.asStr) →
      match value.get "id" with
      | none => adaptClientFrame serde provider.asStr frame pending = (.drop, pending)
      | some id =>
        if id.isScalar then ∃ error, adaptClientFrame serde provider.asStr frame pending =
          (.reject (errorResponse id error), pending)
        else adaptClientFrame serde provider.asStr frame pending =
          (.reject (invalidRequest .null "request id must be a string, number, or null"),
            pending)) := by
  have hedits := edits_selectRequestProvider (asStr_ne_internal provider) method
  constructor
  · intro bytes h
    obtain ⟨⟨value', changed⟩, hvalue, hbytes⟩ := adaptClientFrame_forward serde hparse hmethod h
    refine ⟨value', ?_, hedits.nodes hvalue, ?_, ?_⟩
    · cases changed with
      | false => exact .inl ⟨hbytes, hedits.same hvalue⟩
      | true => exact .inr hbytes
    · intro hnone
      cases changed with
      | false => exact hbytes
      | true =>
        obtain ⟨p, hp, n, hn, hne⟩ := hedits.replaced hvalue
        refine absurd (if_neg fun heq => hnone p hp ?_) hne
        rw [← heq]
        exact hn
    · intro p hp s hs hempty
      rw [hedits.nodes hvalue, if_pos hp] at hs
      obtain ⟨n, hn, hswap⟩ := Option.map_eq_some_iff.mp hs
      -- What is at a label is empty or one of the two names; the internal one was put there.
      have hfit := hedits.fit hvalue p hp n hn
      unfold selected at hswap
      split_ifs at hswap with hlabel
      · rw [hn, hlabel]
        injection hswap with hswap
        exact ⟨hswap.symm, rfl⟩
      · rcases hfit s hswap with hs | hs
        · exact absurd hs hempty
        · rw [hs] at hswap
          exact absurd hswap hlabel
  · rintro ⟨p, hp, s, hs, hempty, hpublic⟩
    -- The name that is not the provider's is refused, wherever it stands.
    have herror : ∃ reason, selectRequestProvider provider.asStr method value = .error reason := by
      cases hselect : selectRequestProvider provider.asStr method value with
      | error reason => exact ⟨reason, rfl⟩
      | ok r =>
        rcases hedits.fit hselect p hp _ hs s rfl with heq | heq
        · exact absurd heq hempty
        · exact absurd heq hpublic
    obtain ⟨reason, hreason⟩ := herror
    have hadapt : adaptClientFrame serde provider.asStr frame pending =
        (refuseProvider serde provider.asStr value, pending) := by
      rw [adaptClientFrame, hparse]
      dsimp only
      rw [hmethod]
      dsimp only
      rw [hreason]
    have hrefuse := refuseProvider_eq serde provider.asStr value
    cases hid : value.get "id" with
    | none =>
      rw [hid] at hrefuse
      rw [hadapt, hrefuse]
    | some id =>
      rw [hid] at hrefuse
      dsimp only at hrefuse ⊢
      split_ifs at hrefuse ⊢
      · obtain ⟨error, herror⟩ := hrefuse
        exact ⟨error, by rw [hadapt, herror]⟩
      · rw [hadapt, hrefuse]

/-- A client that selects a provider for a new session. -/
def startFrame (id provider : String) : Bytes :=
  toUtf8 ("\x7b\"id\":" ++ id ++ ",\"method\":\"session/start\",\"params\":" ++
    "\x7b\"providerId\":\"" ++ provider ++ "\"\x7d\x7d\n")

/-- The document of such a frame. -/
def startValue (id : Value) (provider : String) : Value :=
  .object [("id", id), ("method", .string "session/start"),
    ("params", .object [("providerId", .string provider)])]

/-- A request for another provider is rejected with its own id. -/
theorem adaptClientFrame_confined_echo :
    adaptClientFrame Compact.serde "codex" (startFrame "1" "echo") [] =
      (.reject (invalidParams (.ofNat 1) "provider requires a valid commandId"), []) ∧
    ∃ error, adaptClientFrame Compact.serde "codex" (startFrame "1" "echo") [] =
      (.reject (errorResponse (.ofNat 1) error), []) := by
  have hparse : parseFrame Compact.serde (startFrame "1" "echo") =
      some (startValue (.ofNat 1) "echo") := by
    decide +kernel
  refine ⟨by decide +kernel, ?_⟩
  exact (adaptClientFrame_confined Compact.serde .codex _ [] hparse rfl).2
    ⟨_, List.mem_singleton.mpr rfl, "echo", rfl, by decide, by decide⟩

/-- An id that cannot be a key is not echoed. -/
theorem adaptClientFrame_boolean_id :
    parseFrame Compact.serde (startFrame "true" "echo") = some (startValue (.bool true) "echo") ∧
    (adaptClientFrame Compact.serde "codex" (startFrame "true" "echo") []).1 =
      .reject (invalidRequest .null "request id must be a string, number, or null") ∧
    ¬∃ error, (adaptClientFrame Compact.serde "codex" (startFrame "true" "echo") []).1 =
      .reject (errorResponse (.bool true) error) := by
  have hreject : (adaptClientFrame Compact.serde "codex" (startFrame "true" "echo") []).1 =
      .reject (invalidRequest .null "request id must be a string, number, or null") := by
    decide +kernel
  refine ⟨by decide +kernel, hreject, ?_⟩
  rintro ⟨error, herror⟩
  rw [hreject] at herror
  injection herror with hresponse
  have hid := congrArg (Value.get · "id") hresponse
  rw [invalidRequest, errorResponse_id, errorResponse_id] at hid
  cases hid

end MuseCodex.Msp
