import MuseCodex.Correlation
import MuseCodex.Json.Compact
import MuseCodex.Msp.Adapter

/-!
# The table of pending requests

The two relays of a session share one table. Each call of an adapter is one step on it, so a
session is a list of frames of the client and of the host in the order of these steps, from the
empty table. Its log says what every step means for the table: a request of the client that is
forwarded opens its id, and a well-formed response of the host answers its id. The invariant of
the table is `Correlation.Tracks`, with the ids for keys: the text of an id determines it.
-/

namespace MuseCodex.Msp

open Text Json Correlation

variable (serde : Serde) (label : String)

/-! ## Sessions -/

/-- A frame that reaches one of the adapters. -/
inductive Input where
  | client (frame : Bytes)
  | host (frame : Bytes)

/-- The table after a frame. -/
def adapt (pending : PendingRequests) : Input → PendingRequests
  | .client frame => (adaptClientFrame serde label frame pending).2
  | .host frame => (adaptServerFrame serde label frame pending).2

/-- What a frame means for the table. -/
def act (pending : PendingRequests) : Input → Act Value String
  | .client frame =>
    match (adaptClientFrame serde label frame pending).1, requestOf serde frame with
    | .forward _, some (id, method) => .opens id method
    | _, _ => .silent
  | .host frame =>
    match hostFrame serde frame with
    | .response _ id => .answers id
    | _ => .silent

/-- The table after the frames of a session. -/
def pendingAfter (inputs : List Input) : PendingRequests := inputs.foldl (adapt serde label) []

/-- The log of a session. -/
def log (inputs : List Input) : List (Act Value String) :=
  inputs.zipIdx.map fun input => act serde label (pendingAfter serde label (inputs.take input.2)) input.1

/-- The table after one more frame. -/
theorem pendingAfter_concat (inputs : List Input) (input : Input) :
    pendingAfter serde label (inputs ++ [input]) =
      adapt serde label (pendingAfter serde label inputs) input := by
  rw [pendingAfter, List.foldl_append]
  rfl

/-- Every frame has its act. -/
theorem log_length (inputs : List Input) : (log serde label inputs).length = inputs.length := by
  simp [log]

/-- The act of a frame is that on the table before it. -/
theorem log_getElem? (inputs : List Input) (j : ℕ) : (log serde label inputs)[j]? =
    inputs[j]?.map (act serde label (pendingAfter serde label (inputs.take j))) := by
  rw [log, List.getElem?_map, List.getElem?_zipIdx, Option.map_map, Nat.zero_add]
  rfl

/-- The log of the first frames is the first part of the log. -/
theorem log_take (inputs : List Input) (j : ℕ) :
    log serde label (inputs.take j) = (log serde label inputs).take j := by
  apply List.ext_getElem?
  intro i
  rw [log_getElem?]
  by_cases hi : i < j
  · rw [List.getElem?_take_of_lt hi, List.getElem?_take_of_lt hi, log_getElem?, List.take_take,
      Nat.min_eq_left (Nat.le_of_lt hi)]
  · rw [List.getElem?_take_eq_none (Nat.le_of_not_lt hi),
      List.getElem?_take_eq_none (Nat.le_of_not_lt hi)]
    rfl

/-- The act of one more frame comes last. -/
theorem log_concat (inputs : List Input) (input : Input) : log serde label (inputs ++ [input]) =
    log serde label inputs ++ [act serde label (pendingAfter serde label inputs) input] := by
  have htake : (log serde label (inputs ++ [input])).take inputs.length = log serde label inputs := by
    rw [← log_take, List.take_left]
  have hlast : (log serde label (inputs ++ [input]))[inputs.length]? =
      some (act serde label (pendingAfter serde label inputs) input) := by
    rw [log_getElem?, List.getElem?_concat_length, List.take_left]
    rfl
  have hlength : (log serde label (inputs ++ [input])).length = inputs.length + 1 := by
    rw [log_length, List.length_append, List.length_singleton]
  rw [← htake, ← Option.toList_some (act _ _ _ _), ← hlast, ← List.take_add_one, List.take_of_length_le]
  omega

/-! ## The invariant -/

/-- The table by the ids themselves. -/
def byId (pending : PendingRequests) (id : Value) : Option String :=
  if id.isScalar then pending.get (serde.toString id) else none

/-- The table is that of a log: bounded, keyed by the text of ids, and with what is outstanding. -/
structure Sound (pending : PendingRequests) (log : List (Act Value String)) : Prop where
  bounded : pending.length ≤ MAX_PENDING_REQUESTS
  keyed : ∀ {key method}, pending.get key = some method →
    ∃ id : Value, id.isScalar ∧ key = serde.toString id
  tracks : Tracks (byId serde pending) log

variable {serde label}

/-- The invariant holds of the empty table. -/
theorem sound_nil : Sound serde [] [] where
  bounded := Nat.zero_le _
  keyed h := by cases h
  tracks := by
    have hnone : byId serde [] = fun _ => none := by
      funext id
      exact ite_self _
    rw [hnone]
    exact tracks_nil

section

variable {pending : PendingRequests} {log : List (Act Value String)} {id : Value}

/-- Noting a request changes the table at its id only: another id has another key. -/
theorem byId_insert (hserde : serde.ScalarsDistinct) (hscalar : id.isScalar) (method : String)
    (id' : Value) : byId serde (pending.insert (serde.toString id) method) id' =
      if id' = id then some method else byId serde pending id' := by
  by_cases hid : id' = id
  · rw [if_pos hid, byId, hid, if_pos hscalar, Map.get_insert, if_pos rfl]
  · rw [if_neg hid]
    unfold byId
    split_ifs with hscalar'
    · rw [Map.get_insert, if_neg fun heq => hid (hserde id' id hscalar' hscalar heq)]
    · rfl

/-- Removing a request changes the table at its id only. -/
theorem byId_erase (hserde : serde.ScalarsDistinct) (hscalar : id.isScalar) (id' : Value) :
    byId serde (pending.erase (serde.toString id)) id' =
      if id' = id then none else byId serde pending id' := by
  by_cases hid : id' = id
  · rw [if_pos hid, byId, hid, if_pos hscalar, Map.get_erase, if_pos rfl]
  · rw [if_neg hid]
    unfold byId
    split_ifs with hscalar'
    · rw [Map.get_erase, if_neg fun heq => hid (hserde id' id hscalar' hscalar heq)]
    · rfl

/-- A client frame keeps the invariant. -/
theorem Sound.client (h : Sound serde pending log) (hserde : serde.ScalarsDistinct) (frame : Bytes) :
    Sound serde (adapt serde label pending (.client frame))
      (log ++ [act serde label pending (.client frame)]) := by
  have hpending := adaptClientFrame_pending serde label frame pending
  have hsilent : Sound serde pending (log ++ [.silent]) := ⟨h.bounded, h.keyed, h.tracks.silent⟩
  rw [adapt, act]
  cases hframe : (adaptClientFrame serde label frame pending).1 with
  | reject error =>
    rw [hframe] at hpending
    rwa [hpending]
  | drop =>
    rw [hframe] at hpending
    rwa [hpending]
  | forward bytes =>
    rw [hframe] at hpending
    cases hrequest : requestOf serde frame with
    | none =>
      rw [hrequest] at hpending
      rwa [hpending]
    | some request =>
      obtain ⟨id, method⟩ := request
      rw [hrequest] at hpending
      obtain ⟨hscalar, hfree, hroom, hinsert⟩ := hpending
      rw [hinsert]
      constructor
      · rw [Map.length_insert hfree]
        exact hroom
      · intro key m hkey
        rw [Map.get_insert] at hkey
        split_ifs at hkey with heq
        · exact ⟨id, hscalar, heq⟩
        · exact h.keyed hkey
      · apply h.tracks.opens
        · rw [byId, if_pos hscalar, hfree]
        · intro id' hne
          rw [byId_insert hserde hscalar, if_neg hne]
        · rw [byId_insert hserde hscalar, if_pos rfl]

/-- A host frame keeps the invariant. -/
theorem Sound.host (h : Sound serde pending log) (hserde : serde.ScalarsDistinct) (frame : Bytes) :
    Sound serde (adapt serde label pending (.host frame))
      (log ++ [act serde label pending (.host frame)]) := by
  obtain ⟨reason, heq⟩ := adaptServerFrame_eq serde label frame pending
  have hsilent : Sound serde pending (log ++ [.silent]) := ⟨h.bounded, h.keyed, h.tracks.silent⟩
  rw [adapt, act, heq]
  cases hframe : hostFrame serde frame with
  | refused => exact hsilent
  | notification value method => exact hsilent
  | other value => exact hsilent
  | response value id =>
    obtain ⟨-, -, -, hscalar, -⟩ := hostFrame_response hframe
    dsimp only
    cases hget : pending.get (serde.toString id) with
    | none =>
      refine ⟨h.bounded, h.keyed, h.tracks.answers (fun _ _ => rfl) ?_⟩
      rw [byId, if_pos hscalar, hget]
    | some method =>
      dsimp only
      constructor
      · exact Nat.le_trans (List.length_filter_le _ _) h.bounded
      · intro key m hkey
        rw [Map.get_erase] at hkey
        split_ifs at hkey
        exact h.keyed hkey
      · apply h.tracks.answers
        · intro id' hne
          rw [byId_erase hserde hscalar, if_neg hne]
        · rw [byId_erase hserde hscalar, if_pos rfl]

end

/-- The table of every session is that of its log. -/
theorem pendingAfter_sound (hserde : serde.ScalarsDistinct) (inputs : List Input) :
    Sound serde (pendingAfter serde label inputs) (log serde label inputs) := by
  induction inputs using List.reverseRecOn with
  | nil => exact sound_nil
  | append_singleton inputs input ih =>
    rw [pendingAfter_concat, log_concat]
    cases input with
    | client frame => exact ih.client hserde frame
    | host frame => exact ih.host hserde frame

/-- One more frame of a session. -/
theorem pendingAfter_take_succ {inputs : List Input} {j : ℕ} {input : Input}
    (h : inputs[j]? = some input) : pendingAfter serde label (inputs.take (j + 1)) =
      adapt serde label (pendingAfter serde label (inputs.take j)) input := by
  rw [List.take_add_one, h, Option.toList_some, pendingAfter_concat]

/-! ## Results -/

/-- Whether a document is a result: it names no method and has a result. -/
def isResult (value : Value) : Bool := (methodOf value).isNone && (value.get "result").isSome

/-- A result is only relayed if its id is pending, and adapted by the method noted for it. -/
theorem adaptServerFrame_result {pending : PendingRequests} {frame bytes : Bytes} {value : Value}
    (hparse : parseFrame serde frame = some value) (hresult : isResult value)
    (hok : (adaptServerFrame serde label frame pending).1 = .ok bytes) :
    ∃ id method, hostFrame serde frame = .response value id ∧ value.get "id" = some id ∧
      byId serde pending id = some method ∧
      (atKey "result" (adaptServerResult label method) value).map (relayed serde frame) =
        .ok bytes := by
  obtain ⟨hmethod, hpresent⟩ : methodOf value = none ∧ (value.get "result").isSome = true := by
    simpa [isResult] using hresult
  obtain ⟨reason, heq⟩ := adaptServerFrame_eq serde label frame pending
  rw [heq] at hok
  cases hframe : hostFrame serde frame with
  | refused =>
    rw [hframe] at hok
    cases hok
  | notification value' method =>
    obtain ⟨hparse', hmethod'⟩ := hostFrame_notification hframe
    obtain rfl : value' = value := Option.some.inj (hparse'.symm.trans hparse)
    rw [hmethod] at hmethod'
    cases hmethod'
  | other value' =>
    obtain ⟨hparse', -, -, hnone⟩ := hostFrame_other hframe
    obtain rfl : value' = value := Option.some.inj (hparse'.symm.trans hparse)
    rw [hnone] at hpresent
    cases hpresent
  | response value' id =>
    obtain ⟨hparse', -, hid, hscalar, -⟩ := hostFrame_response hframe
    obtain rfl : value' = value := Option.some.inj (hparse'.symm.trans hparse)
    rw [hframe] at hok
    dsimp only at hok
    cases hget : pending.get (serde.toString id) with
    | none =>
      rw [hget] at hok
      dsimp only at hok
      rw [if_pos hpresent] at hok
      cases hok
    | some method =>
      rw [hget] at hok
      exact ⟨id, method, rfl, hid, by rw [byId, if_pos hscalar, hget], hok⟩

/-- In every session, the table is bounded and holds exactly the forwarded requests that have not
been answered, each with its method; a result that is relayed consumes the one outstanding request
with its id and is adapted by the method of that request; and what is turned away leaves the
table. -/
theorem session_correlated (hserde : serde.ScalarsDistinct) (provider : PublicProvider)
    (inputs : List Input) :
    (pendingAfter serde provider.asStr inputs).length ≤ MAX_PENDING_REQUESTS ∧
    (∀ key method, (pendingAfter serde provider.asStr inputs).get key = some method ↔
      ∃ k id, key = serde.toString id ∧
        Outstanding (log serde provider.asStr inputs) k id method) ∧
    (∀ k k' id m m', Outstanding (log serde provider.asStr inputs) k id m →
      Outstanding (log serde provider.asStr inputs) k' id m' → k = k') ∧
    (∀ j frame value bytes, inputs[j]? = some (.host frame) →
      parseFrame serde frame = some value → isResult value →
      (adaptServerFrame serde provider.asStr frame
        (pendingAfter serde provider.asStr (inputs.take j))).1 = .ok bytes →
      ∃ k id method, value.get "id" = some id ∧
        (log serde provider.asStr inputs)[k]? = some (.opens id method) ∧
        Consumes (log serde provider.asStr inputs) j k ∧
        (∀ k', Consumes (log serde provider.asStr inputs) j k' → k' = k) ∧
        (atKey "result" (adaptServerResult provider.asStr method) value).map
          (relayed serde frame) = .ok bytes) ∧
    (∀ j j' k, Consumes (log serde provider.asStr inputs) j k →
      Consumes (log serde provider.asStr inputs) j' k → j = j') ∧
    (∀ j frame, inputs[j]? = some (.client frame) →
      (∀ bytes, (adaptClientFrame serde provider.asStr frame
        (pendingAfter serde provider.asStr (inputs.take j))).1 ≠ .forward bytes) →
      pendingAfter serde provider.asStr (inputs.take (j + 1)) =
        pendingAfter serde provider.asStr (inputs.take j)) ∧
    (∀ j frame, inputs[j]? = some (.host frame) → hostFrame serde frame = .refused →
      (∃ reason, (adaptServerFrame serde provider.asStr frame
        (pendingAfter serde provider.asStr (inputs.take j))).1 = .error reason) ∧
      pendingAfter serde provider.asStr (inputs.take (j + 1)) =
        pendingAfter serde provider.asStr (inputs.take j)) := by
  have hsound : Sound serde (pendingAfter serde provider.asStr inputs)
      (log serde provider.asStr inputs) := pendingAfter_sound hserde inputs
  refine ⟨hsound.bounded, ?_, fun k k' id m m' => hsound.tracks.unique, ?_,
    fun j j' k => Consumes.injective, ?_, ?_⟩
  · intro key method
    constructor
    · intro hget
      obtain ⟨id, hscalar, rfl⟩ := hsound.keyed hget
      have hid : byId serde (pendingAfter serde provider.asStr inputs) id = some method := by
        rw [byId, if_pos hscalar, hget]
      obtain ⟨k, hk⟩ := hsound.tracks.get_iff.mp hid
      exact ⟨k, id, rfl, hk⟩
    · rintro ⟨k, id, rfl, hk⟩
      have hid := hsound.tracks.get_iff.mpr ⟨k, hk⟩
      unfold byId at hid
      split_ifs at hid
      exact hid
  · intro j frame value bytes hj hparse hresult hok
    obtain ⟨id, method, hframe, hid, hget, hbytes⟩ := adaptServerFrame_result hparse hresult hok
    -- The request that is outstanding before this frame is the one that it consumes.
    have hbefore : Sound serde (pendingAfter serde provider.asStr (inputs.take j))
        (log serde provider.asStr (inputs.take j)) := pendingAfter_sound hserde (inputs.take j)
    rw [log_take] at hbefore
    obtain ⟨k, hk⟩ := hbefore.tracks.get_iff.mp hget
    have hanswers : (log serde provider.asStr inputs)[j]? = some (.answers id) := by
      rw [log_getElem?, hj, Option.map_some, act, hframe]
    have hlt := hk.lt_length
    rw [List.length_take] at hlt
    refine ⟨k, id, method, hid, ?_, ⟨id, method, hanswers, hk⟩, ?_, hbytes⟩
    · rw [← hk.1, List.getElem?_take_of_lt (by omega)]
    · rintro k' ⟨id', m', hanswers', hk'⟩
      rw [hanswers] at hanswers'
      cases hanswers'
      exact hbefore.tracks.unique hk' hk
  · intro j frame hj hnot
    have hpending := adaptClientFrame_pending serde provider.asStr frame
      (pendingAfter serde provider.asStr (inputs.take j))
    rw [pendingAfter_take_succ hj, adapt]
    split at hpending
    · rename_i bytes id method hforward hrequest
      exact absurd hforward (hnot bytes)
    · exact hpending
  · intro j frame hj hrefused
    obtain ⟨reason, heq⟩ := adaptServerFrame_eq serde provider.asStr frame
      (pendingAfter serde provider.asStr (inputs.take j))
    rw [hrefused] at heq
    rw [pendingAfter_take_succ hj, adapt, heq]
    exact ⟨⟨reason, rfl⟩, rfl⟩

/-- A request of a client. -/
def pingFrame : Bytes := toUtf8 "\x7b\"id\":1,\"method\":\"ping\"\x7d\n"

/-- The answer of a host to `pingFrame`. -/
def pongFrame : Bytes := toUtf8 "\x7b\"id\":1,\"result\":null\x7d\n"

/-- A frame of a host that has both a result and an error for `pingFrame`. -/
def tornFrame : Bytes := toUtf8 "\x7b\"error\":null,\"id\":1,\"result\":null\x7d\n"

/-- A request that is sent twice, a frame of the host that is refused, and the answer. -/
def pingRun : List Input :=
  [.client pingFrame, .client pingFrame, .host tornFrame, .host pongFrame]

/-- What is refused on either side leaves the table alone, and the answer consumes the first
request, for which it is adapted. -/
theorem session_correlated_ping :
    pendingAfter Compact.serde "codex" (pingRun.take 2) =
      pendingAfter Compact.serde "codex" (pingRun.take 1) ∧
    pendingAfter Compact.serde "codex" (pingRun.take 3) =
      pendingAfter Compact.serde "codex" (pingRun.take 2) ∧
    (∃ k id, "1" = Compact.serde.toString id ∧
      Outstanding (log Compact.serde "codex" (pingRun.take 3)) k id "ping") ∧
    (∃ k method, Consumes (log Compact.serde "codex" pingRun) 3 k ∧
      (log Compact.serde "codex" pingRun)[k]? = some (.opens (.ofNat 1) method)) ∧
    pendingAfter Compact.serde "codex" pingRun = [] := by
  have hget : (pendingAfter Compact.serde "codex" (pingRun.take 3)).get "1" = some "ping" := by
    decide +kernel
  obtain ⟨-, -, -, hresult, -, hclient, hhost⟩ :=
    session_correlated Compact.scalarsDistinct .codex pingRun
  have hrejected : (adaptClientFrame Compact.serde "codex" pingFrame
      (pendingAfter Compact.serde "codex" (pingRun.take 1))).1 =
        .reject (invalidRequest (.ofNat 1) "duplicate in-flight request id") := by
    decide +kernel
  have hrelayed : (adaptServerFrame Compact.serde "codex" pongFrame
      (pendingAfter Compact.serde "codex" (pingRun.take 3))).1 = .ok pongFrame := by
    decide +kernel
  have hpong : parseFrame Compact.serde pongFrame =
      some (.object [("id", .ofNat 1), ("result", .null)]) := by
    decide +kernel
  refine ⟨hclient 1 pingFrame rfl fun bytes hforward => ?_,
    (hhost 2 tornFrame rfl (by decide +kernel)).2, ?_, ?_, by decide +kernel⟩
  · cases hrejected.symm.trans hforward
  · exact ((session_correlated Compact.scalarsDistinct .codex (pingRun.take 3)).2.1 "1"
      "ping").mp hget
  · obtain ⟨k, id, method, hid, hopens, hconsumes, -, -⟩ :=
      hresult 3 pongFrame _ _ rfl hpong rfl hrelayed
    obtain rfl : Value.ofNat 1 = id := Option.some.inj hid
    exact ⟨k, method, hconsumes, hopens⟩

end MuseCodex.Msp
