import Mathlib.Algebra.BigOperators.Group.Multiset.Basic
import Mathlib.Logic.Relation
import Mathlib.Tactic.Abel
import MuseCodex.Msp.Correlation
import MuseCodex.Msp.Relabel

/-!
# A session between a client and a well-behaved host

The two relays of `crates/muse-codex/src/msp.rs` as a step relation. Each relay reads a frame and
adapts it in one step, which is also its step on the table, and writes what came of it in a later
one; between the two anything may happen. The host answers the requests that were written to it in
any order and after any delay, and the client sends frames at any time.

`owed`, `complaints`, `awaiting` and the requests that stand beside the frames of the host are not
part of the code: they say what the host still has to answer, what a frame of the host answers, and
which ids the client waits for.
-/

namespace MuseCodex.Msp

open Text Json

variable (serde : Serde) (label : String)

/-! ## Well-behaved parties -/

/-- A frame of a well-behaved client: not JSON, or a request with a string or a number for its id,
or a notification. -/
def ClientShape (frame : Bytes) : Prop :=
  ∀ value, parseFrame serde frame = some value → (methodOf value).isSome ∧
    ∀ id, value.get "id" = some id → id.isScalar ∧ id ≠ .null

/-- A frame with which the host answers a request. -/
def Answers (frame : Bytes) (id : Value) (method : String) : Prop :=
  ∃ value, hostFrame serde frame = .response value id ∧
    ∀ p ∈ keyFields "result" (resultFields method) value, ∀ n ∈ value.nodeAt p, Exposable label n

/-- A frame with which the host answers what is not JSON. -/
def Complains (frame : Bytes) : Prop :=
  ∃ value, hostFrame serde frame = .response value .null ∧ value.get "result" = none

/-- A frame of the host that answers nothing. -/
def Speaks (frame : Bytes) : Prop :=
  (∃ value method, hostFrame serde frame = .notification value method ∧
    ∀ p ∈ notificationFields method, ∀ n ∈ value.nodeAt p, Exposable label n) ∨
  ∃ value, hostFrame serde frame = .other value

/-! ## Sessions -/

/-- A request: its id and its method. -/
abbrev Request := Value × String

/-- The request of a frame of the client, if it is one. -/
def requests (frame : Bytes) : Multiset Request := (requestOf serde frame).toList

/-- The id that a frame of the host answers, if it is a response. -/
def answered (frame : Bytes) : Option Value :=
  match hostFrame serde frame with
  | .response _ id => some id
  | _ => none

/-- The state of a session. -/
structure Session where
  /-- The frames of the client that have not been read. -/
  stdin : List Bytes
  /-- The frame that the input relay has adapted, and what becomes of it. -/
  input : Option (Bytes × ClientFrame)
  pending : PendingRequests
  /-- The requests that the host has to answer. -/
  owed : Multiset Request
  /-- How many frames the host has to complain about. -/
  complaints : ℕ
  /-- The frames of the host that have not been read, with the requests that they answer. -/
  stdout : List (Bytes × Option Request)
  /-- The frame that the output relay has adapted, and what becomes of it. -/
  output : Option (Bytes × Except String Bytes)
  /-- The ids for which the client waits. -/
  awaiting : Multiset Value
  /-- The rejections that the client has received. -/
  rejections : List Value

/-- The start of a session. -/
def Session.start : Session := ⟨[], none, [], 0, 0, [], none, 0, []⟩

/-- The steps of a session. A careful client does not use an id for which it waits. -/
inductive Step (careful : Prop) (s : Session) : Session → Prop
  /-- The client sends a frame. -/
  | send (frame : Bytes) (hshape : ClientShape serde frame)
      (hcareful : careful → ∀ r ∈ requests serde frame, r.1 ∉ s.awaiting) :
      Step careful s { s with
        stdin := s.stdin ++ [frame]
        awaiting := s.awaiting + (requests serde frame).map Prod.fst }
  /-- The input relay reads a frame and adapts it. -/
  | readInput {frame : Bytes} {rest : List Bytes} (hstdin : s.stdin = frame :: rest)
      (hidle : s.input = none) :
      Step careful s { s with
        stdin := rest
        input := some (frame, (adaptClientFrame serde label frame s.pending).1)
        pending := (adaptClientFrame serde label frame s.pending).2 }
  /-- The input relay writes a frame to the host. -/
  | forward {frame bytes : Bytes} (hinput : s.input = some (frame, .forward bytes)) :
      Step careful s { s with
        input := none
        owed := s.owed + requests serde frame
        complaints := s.complaints + if (parseFrame serde frame).isNone then 1 else 0 }
  /-- The input relay writes a rejection to the client. -/
  | reject {frame : Bytes} {error : Value} (hinput : s.input = some (frame, .reject error)) :
      Step careful s { s with
        input := none
        awaiting := match error.get "id" with
          | some id => s.awaiting.erase id
          | none => s.awaiting
        rejections := s.rejections ++ [error] }
  /-- The input relay is done with a dropped frame. -/
  | drop {frame : Bytes} (hinput : s.input = some (frame, .drop)) :
      Step careful s { s with input := none }
  /-- The host answers a request. -/
  | answer {frame : Bytes} {r : Request} (howed : r ∈ s.owed)
      (hframe : Answers serde label frame r.1 r.2) :
      Step careful s { s with
        owed := s.owed.erase r
        stdout := s.stdout ++ [(frame, some r)] }
  /-- The host answers a frame that is not JSON. -/
  | complain {frame : Bytes} (howed : 0 < s.complaints) (hframe : Complains serde frame) :
      Step careful s { s with
        complaints := s.complaints - 1
        stdout := s.stdout ++ [(frame, none)] }
  /-- The host speaks for itself. -/
  | speak {frame : Bytes} (hframe : Speaks serde label frame) :
      Step careful s { s with stdout := s.stdout ++ [(frame, none)] }
  /-- The output relay reads a frame and adapts it. -/
  | readOutput {frame : Bytes} {r : Option Request} {rest : List (Bytes × Option Request)}
      (hstdout : s.stdout = (frame, r) :: rest) (hidle : s.output = none) :
      Step careful s { s with
        stdout := rest
        output := some (frame, (adaptServerFrame serde label frame s.pending).1)
        pending := (adaptServerFrame serde label frame s.pending).2 }
  /-- The output relay writes a frame to the client. -/
  | writeOutput {frame bytes : Bytes} (houtput : s.output = some (frame, .ok bytes)) :
      Step careful s { s with
        output := none
        awaiting := match answered serde frame with
          | some id => s.awaiting.erase id
          | none => s.awaiting }

/-- The states that a session can reach. -/
def Reachable (careful : Prop) : Session → Prop :=
  Relation.ReflTransGen (Step serde label careful) .start

/-! ## The invariant -/

/-- The request that the input relay is about to write to the host. -/
def leaving : Option (Bytes × ClientFrame) → Multiset Request
  | some (frame, .forward _) => requests serde frame
  | _ => 0

/-- The requests whose answers are on their way back. -/
def returning (stdout : List (Bytes × Option Request)) : Multiset Request :=
  stdout.filterMap Prod.snd

/-- The requests that the table holds: those on their way to the host, those that the host has to
answer, and those whose answers are on their way back. -/
def Session.flight (s : Session) : Multiset Request :=
  leaving serde s.input + (s.owed + returning s.stdout)

/-- The ids that frames of the client use. -/
def used (frames : List Bytes) : Multiset Value :=
  (frames.map fun frame => (requests serde frame).map Prod.fst).sum

/-- The id that the output relay is about to answer. -/
def answering : Option (Bytes × Except String Bytes) → Multiset Value
  | some (frame, _) => (answered serde frame).toList.filter (· ≠ .null)
  | none => 0

/-- The ids that the client has used and that have not been answered, wherever they are. -/
def Session.ids (s : Session) : Multiset Value :=
  used serde s.stdin + used serde (s.input.map Prod.fst).toList +
    (s.owed + returning s.stdout).map Prod.fst + answering serde s.output

/-- A frame of the host is what it was sent as. -/
def WellTagged (entry : Bytes × Option Request) : Prop :=
  match entry.2 with
  | some r => Answers serde label entry.1 r.1 r.2
  | none => Complains serde entry.1 ∨ Speaks serde label entry.1

/-- The table holds the requests of a collection, each id once. -/
structure Holds (pending : PendingRequests) (flight : Multiset Request) : Prop where
  get_iff : ∀ {id method}, byId serde pending id = some method ↔ (id, method) ∈ flight
  nodup : (flight.map Prod.fst).Nodup

/-- The rejection of an id that is pending. -/
def duplicate (id : Value) : Value := invalidRequest id "duplicate in-flight request id"

/-- What holds in every state of a session. -/
structure Session.Inv (careful : Prop) (s : Session) : Prop where
  shape : ∀ frame ∈ s.stdin, ClientShape serde frame
  handed : ∀ {frame out}, s.input = some (frame, out) → ClientShape serde frame ∧
    ∃ pending, (adaptClientFrame serde label frame pending).1 = out
  holds : Holds serde s.pending (s.flight serde)
  awaiting : s.awaiting = s.ids serde
  notNull : .null ∉ s.awaiting
  tagged : ∀ entry ∈ s.stdout, WellTagged serde label entry
  relayed : ∀ {frame reason}, s.output ≠ some (frame, .error reason)
  fresh : careful → s.awaiting.Nodup
  unheard : careful → ∀ id, duplicate id ∉ s.rejections
  unsaid : careful → ∀ frame id, s.input ≠ some (frame, .reject (duplicate id))

variable {serde label}

/-- The ids that some frames use, with a frame before them. -/
theorem used_cons (frame : Bytes) (frames : List Bytes) :
    used serde (frame :: frames) = (requests serde frame).map Prod.fst + used serde frames := by
  rw [used, List.map_cons, List.sum_cons]
  rfl

/-- The ids that some frames use, with a frame after them. -/
theorem used_concat (frames : List Bytes) (frame : Bytes) :
    used serde (frames ++ [frame]) = used serde frames + (requests serde frame).map Prod.fst := by
  rw [used, List.map_append, List.sum_append, List.map_singleton, List.sum_singleton]
  rfl

/-- No frames use no ids. -/
@[simp] theorem used_nil : used serde [] = 0 := rfl

/-- A frame uses the id of its request. -/
@[simp] theorem used_singleton (frame : Bytes) :
    used serde [frame] = (requests serde frame).map Prod.fst := by
  rw [used_cons, used_nil, add_zero]

/-- What some frames answer, with a frame before them. -/
theorem returning_cons (frame : Bytes) (r : Option Request) (stdout : List (Bytes × Option Request)) :
    returning ((frame, r) :: stdout) = r.toList + returning stdout := by
  cases r <;> rfl

/-- What some frames answer, with a frame after them. -/
theorem returning_concat (stdout : List (Bytes × Option Request)) (frame : Bytes)
    (r : Option Request) : returning (stdout ++ [(frame, r)]) = returning stdout + r.toList := by
  rw [returning, List.filterMap_append, ← Multiset.coe_add]
  cases r <;> rfl

/-! ### The table -/

section

variable {pending : PendingRequests} {flight : Multiset Request} {id : Value} {method : String}

/-- A request that is noted is in flight. -/
theorem Holds.insert (h : Holds serde pending flight) (hserde : serde.ScalarsDistinct)
    (hscalar : id.isScalar) (hfree : pending.get (serde.toString id) = none) :
    Holds serde (pending.insert (serde.toString id) method) ((id, method) ::ₘ flight) := by
  have hnone : byId serde pending id = none := by rw [byId, if_pos hscalar, hfree]
  constructor
  · intro id' method'
    rw [Multiset.mem_cons, ← h.get_iff, byId_insert hserde hscalar]
    by_cases hid : id' = id
    · subst hid
      rw [hnone, if_pos rfl]
      simp [eq_comm]
    · rw [if_neg hid]
      simp [hid]
  · rw [Multiset.map_cons, Multiset.nodup_cons]
    refine ⟨fun hmem => ?_, h.nodup⟩
    obtain ⟨⟨id', m⟩, hr, rfl⟩ := Multiset.mem_map.mp hmem
    rw [h.get_iff.mpr hr] at hnone
    cases hnone

/-- A request that is answered is in flight no more. -/
theorem Holds.erase (h : Holds serde pending ((id, method) ::ₘ flight))
    (hserde : serde.ScalarsDistinct) (hscalar : id.isScalar) :
    Holds serde (pending.erase (serde.toString id)) flight := by
  have hnodup := h.nodup
  rw [Multiset.map_cons, Multiset.nodup_cons] at hnodup
  refine ⟨?_, hnodup.2⟩
  intro id' method'
  rw [byId_erase hserde hscalar]
  by_cases hid : id' = id
  · subst hid
    rw [if_pos rfl]
    constructor
    · intro heq
      cases heq
    · intro hmem
      exact absurd (Multiset.mem_map_of_mem Prod.fst hmem) hnodup.1
  · rw [if_neg hid, h.get_iff, Multiset.mem_cons]
    simp [hid]

end

/-! ### The client -/

section

variable {frame : Bytes} {pending : PendingRequests} {r : Request}

/-- A frame is one request at most. -/
theorem mem_requests : r ∈ requests serde frame ↔ requestOf serde frame = some r := by
  simp [requests]

/-- A frame that is no request brings none. -/
theorem requests_of_none (h : requestOf serde frame = none) : requests serde frame = 0 := by
  simp [requests, h]

/-- A frame that is a request brings it. -/
theorem requests_of_some (h : requestOf serde frame = some r) : requests serde frame = {r} := by
  simp [requests, h]

/-- The ids that a well-behaved client uses. -/
theorem ClientShape.notNull (hshape : ClientShape serde frame) (hr : r ∈ requests serde frame) :
    r.1 ≠ .null := by
  rw [mem_requests] at hr
  unfold requestOf at hr
  obtain ⟨value, hparse, hr⟩ := Option.bind_eq_some_iff.mp hr
  obtain ⟨method, -, hr⟩ := Option.bind_eq_some_iff.mp hr
  obtain ⟨id, hid, hr⟩ := Option.bind_eq_some_iff.mp hr
  split_ifs at hr
  cases hr
  exact ((hshape value hparse).2 id hid).2

/-- A rejection tells a well-behaved client the id of its request. -/
theorem ClientShape.reject (hshape : ClientShape serde frame) {error : Value}
    (h : (adaptClientFrame serde label frame pending).1 = .reject error) :
    ∃ r, requestOf serde frame = some r ∧ error.get "id" = some r.1 := by
  obtain ⟨value, method, id, hparse, hmethod, hid, hcases⟩ := adaptClientFrame_reject serde label h
  have hscalar := ((hshape value hparse).2 id hid).1
  refine ⟨(id, method), ?_, ?_⟩
  · rw [requestOf, hparse, Option.bind_some, hmethod, Option.bind_some, hid, Option.bind_some,
      if_pos hscalar]
  · rcases hcases with ⟨-, commandId, rfl⟩ | ⟨-, rfl⟩ | ⟨hnot, -⟩ | ⟨-, -, rfl⟩ | ⟨-, rfl⟩
    · exact errorResponse_id id _
    · exact errorResponse_id id _
    · exact absurd hscalar hnot
    · exact errorResponse_id id _
    · exact errorResponse_id id _

/-- The message of an error response. -/
def errorMessage (error : Value) : Option Value := (error.get "error").bind (·.get "message")

/-- Only an id that is pending is rejected as a duplicate. -/
theorem adaptClientFrame_duplicate {provider : PublicProvider} {id : Value}
    (h : (adaptClientFrame serde provider.asStr frame pending).1 = .reject (duplicate id)) :
    ∃ method, requestOf serde frame = some (id, method) ∧ byId serde pending id ≠ none := by
  obtain ⟨value, method, id', hparse, hmethod, hid, hcases⟩ := adaptClientFrame_reject _ _ h
  have hmessage : errorMessage (duplicate id) =
      some (.string "duplicate in-flight request id") := by
    simp [errorMessage, duplicate, invalidRequest, errorResponse, Value.obj, Map.ofEntries,
      Value.get_object]
  rcases hcases with ⟨-, commandId, heq⟩ | ⟨-, heq⟩ | ⟨-, heq⟩ | ⟨hscalar, hkey, heq⟩ | ⟨-, heq⟩
  · rw [heq] at hmessage
    cases provider <;> simp [errorMessage, commandRejected, errorResponse, Value.obj,
      Map.ofEntries, Value.get_object, PublicProvider.asStr] at hmessage
  · rw [heq] at hmessage
    simp [errorMessage, invalidParams, errorResponse, Value.obj, Map.ofEntries,
      Value.get_object] at hmessage
  · rw [heq] at hmessage
    simp [errorMessage, invalidRequest, errorResponse, Value.obj, Map.ofEntries,
      Value.get_object] at hmessage
  · have hsame := congrArg (Value.get · "id") heq
    rw [duplicate, invalidRequest, invalidRequest, errorResponse_id, errorResponse_id] at hsame
    obtain rfl := Option.some.inj hsame
    refine ⟨method, ?_, ?_⟩
    · rw [requestOf, hparse, Option.bind_some, hmethod, Option.bind_some, hid, Option.bind_some,
        if_pos hscalar]
    · rw [byId, if_pos hscalar, ← Option.isSome_iff_ne_none]
      exact hkey
  · rw [heq] at hmessage
    simp [errorMessage, overloaded, errorResponse, Value.obj, Map.ofEntries,
      Value.get_object] at hmessage

end

/-! ### The steps -/

namespace Session.Inv

variable {careful : Prop} {s : Session} {frame : Bytes}

/-- The invariant holds of a session before its first frame. -/
theorem start : (Session.start).Inv serde label careful where
  shape := by simp [Session.start]
  handed := by simp [Session.start]
  holds := by
    have hflight : Session.start.flight serde = 0 := rfl
    have hnone (id : Value) : byId serde [] id = none := ite_self _
    rw [hflight]
    exact ⟨by simp [hnone, Session.start], Multiset.nodup_zero⟩
  awaiting := rfl
  notNull := Multiset.notMem_zero _
  tagged := by simp [Session.start]
  relayed := by simp [Session.start]
  fresh _ := Multiset.nodup_zero
  unheard _ := by simp [Session.start]
  unsaid _ := by simp [Session.start]

/-- The client sends a frame. -/
theorem send (h : s.Inv serde label careful) (hshape : ClientShape serde frame)
    (hcareful : careful → ∀ r ∈ requests serde frame, r.1 ∉ s.awaiting) :
    Session.Inv serde label careful { s with
      stdin := s.stdin ++ [frame]
      awaiting := s.awaiting + (requests serde frame).map Prod.fst } where
  shape frame' hframe' := by
    rcases List.mem_append.mp hframe' with hmem | hmem
    · exact h.shape frame' hmem
    · rw [List.mem_singleton.mp hmem]
      exact hshape
  handed := h.handed
  holds := h.holds
  awaiting := by
    rw [h.awaiting]
    simp only [Session.ids, used_concat]
    abel
  notNull hmem := by
    rcases Multiset.mem_add.mp hmem with hmem | hmem
    · exact h.notNull hmem
    · obtain ⟨r, hr, heq⟩ := Multiset.mem_map.mp hmem
      exact hshape.notNull hr heq
  tagged := h.tagged
  relayed := h.relayed
  fresh hc := by
    dsimp only
    cases hrequest : requestOf serde frame with
    | none =>
      rw [requests_of_none hrequest, Multiset.map_zero, add_zero]
      exact h.fresh hc
    | some r =>
      have hnew := hcareful hc r (mem_requests.mpr hrequest)
      rw [requests_of_some hrequest, Multiset.map_singleton, add_comm, Multiset.singleton_add,
        Multiset.nodup_cons]
      exact ⟨hnew, h.fresh hc⟩
  unheard := h.unheard
  unsaid := h.unsaid

/-- The relay of the client reads a frame and adapts it. -/
theorem readInput {provider : PublicProvider} (h : s.Inv serde provider.asStr careful)
    (hserde : serde.ScalarsDistinct) {rest : List Bytes} (hstdin : s.stdin = frame :: rest)
    (hidle : s.input = none) :
    Session.Inv serde provider.asStr careful { s with
      stdin := rest
      input := some (frame, (adaptClientFrame serde provider.asStr frame s.pending).1)
      pending := (adaptClientFrame serde provider.asStr frame s.pending).2 } := by
  have hshape : ClientShape serde frame := h.shape frame (by rw [hstdin]; exact List.mem_cons_self)
  have hflight : s.flight serde = s.owed + returning s.stdout := by
    rw [Session.flight, hidle]
    exact zero_add _
  -- The ids of the frame stay, with those in flight, among the ids for which the client waits.
  have hawaiting : s.awaiting = (requests serde frame).map Prod.fst +
      ((s.flight serde).map Prod.fst + (used serde rest + answering serde s.output)) := by
    rw [h.awaiting, Session.ids, hidle, hstdin, hflight, used_cons]
    simp only [Option.map_none, Option.toList_none, used_nil]
    abel
  constructor
  · intro frame' hframe'
    exact h.shape frame' (by rw [hstdin]; exact List.mem_cons_of_mem _ hframe')
  · intro frame' out heq
    cases heq
    exact ⟨hshape, s.pending, rfl⟩
  · have hpending := adaptClientFrame_pending serde provider.asStr frame s.pending
    have hholds := h.holds
    rw [hflight] at hholds
    show Holds serde _ (leaving serde (some (frame, _)) + (s.owed + returning s.stdout))
    cases hout : (adaptClientFrame serde provider.asStr frame s.pending).1 with
    | forward bytes =>
      rw [hout] at hpending
      rw [leaving]
      cases hrequest : requestOf serde frame with
      | none =>
        rw [hrequest] at hpending
        rw [hpending, requests_of_none hrequest, zero_add]
        exact hholds
      | some r =>
        obtain ⟨id, method⟩ := r
        rw [hrequest] at hpending
        obtain ⟨hscalar, hfree, -, hinsert⟩ := hpending
        rw [hinsert, requests_of_some hrequest, Multiset.singleton_add]
        exact hholds.insert hserde hscalar hfree
    | reject error =>
      rw [hout] at hpending
      rw [hpending, leaving, zero_add]
      · exact hholds
      · simp
    | drop =>
      rw [hout] at hpending
      rw [hpending, leaving, zero_add]
      · exact hholds
      · simp
  · show s.awaiting = used serde rest + used serde [frame] +
      (s.owed + returning s.stdout).map Prod.fst + answering serde s.output
    rw [hawaiting, hflight, used_singleton]
    abel
  · exact h.notNull
  · exact h.tagged
  · exact h.relayed
  · exact h.fresh
  · exact h.unheard
  · intro hc frame' id heq
    injection heq with heq
    injection heq with _ hout
    obtain ⟨method, hrequest, hpending⟩ := adaptClientFrame_duplicate hout
    obtain ⟨method', hmethod'⟩ := Option.ne_none_iff_exists'.mp hpending
    -- The id would be waited for twice.
    have hfresh := h.fresh hc
    rw [hawaiting, requests_of_some hrequest, Multiset.map_singleton, Multiset.singleton_add,
      Multiset.nodup_cons] at hfresh
    apply hfresh.1
    apply Multiset.mem_add.mpr
    exact .inl (Multiset.mem_map.mpr ⟨(id, method'), h.holds.get_iff.mp hmethod', rfl⟩)

/-- The relay of the client writes a frame to the host. -/
theorem forward (h : s.Inv serde label careful) {bytes : Bytes}
    (hinput : s.input = some (frame, .forward bytes)) :
    Session.Inv serde label careful { s with
      input := none
      owed := s.owed + requests serde frame
      complaints := s.complaints + if (parseFrame serde frame).isNone then 1 else 0 } where
  shape := h.shape
  handed heq := by cases heq
  holds := by
    have hholds := h.holds
    rw [Session.flight, hinput, leaving] at hholds
    show Holds serde s.pending (0 + (s.owed + requests serde frame + returning s.stdout))
    rwa [zero_add, add_comm s.owed, add_assoc]
  awaiting := by
    show s.awaiting = used serde s.stdin + 0 +
      (s.owed + requests serde frame + returning s.stdout).map Prod.fst + answering serde s.output
    rw [h.awaiting, Session.ids, hinput]
    simp only [Option.map_some, Option.toList_some, used_singleton, Multiset.map_add]
    abel
  notNull := h.notNull
  tagged := h.tagged
  relayed := h.relayed
  fresh := h.fresh
  unheard := h.unheard
  unsaid _ _ _ heq := by cases heq

/-- The relay of the client drops a frame. -/
theorem drop (h : s.Inv serde label careful) (hinput : s.input = some (frame, .drop))
    (hrequest : requestOf serde frame = none) :
    Session.Inv serde label careful { s with input := none } where
  shape := h.shape
  handed heq := by cases heq
  holds := by
    have hholds := h.holds
    rw [Session.flight, hinput] at hholds
    exact hholds
  awaiting := by
    show s.awaiting = used serde s.stdin + 0 + (s.owed + returning s.stdout).map Prod.fst +
      answering serde s.output
    rw [h.awaiting, Session.ids, hinput]
    simp only [Option.map_some, Option.toList_some, used_singleton, requests_of_none hrequest,
      Multiset.map_zero]
  notNull := h.notNull
  tagged := h.tagged
  relayed := h.relayed
  fresh := h.fresh
  unheard := h.unheard
  unsaid _ _ _ heq := by cases heq

/-- The relay of the client writes an error to the client. -/
theorem reject (h : s.Inv serde label careful) {error : Value}
    (hinput : s.input = some (frame, .reject error)) {r : Request}
    (hrequest : requestOf serde frame = some r) (hid : error.get "id" = some r.1) :
    Session.Inv serde label careful { s with
      input := none
      awaiting := match error.get "id" with
        | some id => s.awaiting.erase id
        | none => s.awaiting
      rejections := s.rejections ++ [error] } := by
  have hawaiting : s.awaiting = r.1 ::ₘ (used serde s.stdin +
      (s.owed + returning s.stdout).map Prod.fst + answering serde s.output) := by
    rw [h.awaiting, Session.ids, hinput]
    simp only [Option.map_some, Option.toList_some, used_singleton, requests_of_some hrequest,
      Multiset.map_singleton, ← Multiset.singleton_add]
    abel
  rw [hid]
  constructor
  · exact h.shape
  · intro frame' out heq
    cases heq
  · have hholds := h.holds
    rw [Session.flight, hinput] at hholds
    exact hholds
  · show s.awaiting.erase r.1 = used serde s.stdin + 0 +
      (s.owed + returning s.stdout).map Prod.fst + answering serde s.output
    rw [hawaiting, Multiset.erase_cons_head, add_zero]
  · exact fun hmem => h.notNull (Multiset.mem_of_mem_erase hmem)
  · exact h.tagged
  · exact h.relayed
  · exact fun hc => (h.fresh hc).erase _
  · intro hc id hmem
    rcases List.mem_append.mp hmem with hmem | hmem
    · exact h.unheard hc id hmem
    · rw [← List.mem_singleton.mp hmem] at hinput
      exact h.unsaid hc frame id hinput
  · intro hc frame' id heq
    cases heq

/-- The host answers a request that it owes. -/
theorem answer (h : s.Inv serde label careful) {r : Request} (howed : r ∈ s.owed)
    (hframe : Answers serde label frame r.1 r.2) :
    Session.Inv serde label careful { s with
      owed := s.owed.erase r
      stdout := s.stdout ++ [(frame, some r)] } := by
  have howed' : s.owed.erase r + returning (s.stdout ++ [(frame, some r)]) =
      s.owed + returning s.stdout := by
    rw [returning_concat, ← Multiset.cons_erase howed, Multiset.erase_cons_head,
      ← Multiset.singleton_add]
    show _ + (_ + {r}) = _
    abel
  constructor
  · exact h.shape
  · exact h.handed
  · show Holds serde s.pending (leaving serde s.input +
      (s.owed.erase r + returning (s.stdout ++ [(frame, some r)])))
    rw [howed']
    exact h.holds
  · show s.awaiting = used serde s.stdin + used serde (s.input.map Prod.fst).toList +
      (s.owed.erase r + returning (s.stdout ++ [(frame, some r)])).map Prod.fst +
        answering serde s.output
    rw [howed']
    exact h.awaiting
  · exact h.notNull
  · intro entry hentry
    rcases List.mem_append.mp hentry with hentry | hentry
    · exact h.tagged entry hentry
    · rw [List.mem_singleton.mp hentry]
      exact hframe
  · exact h.relayed
  · exact h.fresh
  · exact h.unheard
  · exact h.unsaid

/-- The host says something that answers no request. -/
theorem say (h : s.Inv serde label careful) (complaints : ℕ)
    (hframe : Complains serde frame ∨ Speaks serde label frame) :
    Session.Inv serde label careful { s with
      complaints := complaints
      stdout := s.stdout ++ [(frame, none)] } := by
  have hreturning : returning (s.stdout ++ [(frame, none)]) = returning s.stdout := by
    rw [returning_concat]
    exact add_zero _
  constructor
  · exact h.shape
  · exact h.handed
  · show Holds serde s.pending (leaving serde s.input +
      (s.owed + returning (s.stdout ++ [(frame, none)])))
    rw [hreturning]
    exact h.holds
  · show s.awaiting = used serde s.stdin + used serde (s.input.map Prod.fst).toList +
      (s.owed + returning (s.stdout ++ [(frame, none)])).map Prod.fst + answering serde s.output
    rw [hreturning]
    exact h.awaiting
  · exact h.notNull
  · intro entry hentry
    rcases List.mem_append.mp hentry with hentry | hentry
    · exact h.tagged entry hentry
    · rw [List.mem_singleton.mp hentry]
      exact hframe
  · exact h.relayed
  · exact h.fresh
  · exact h.unheard
  · exact h.unsaid

/-- The relay of the host writes a frame to the client. -/
theorem writeOutput (h : s.Inv serde label careful) {bytes : Bytes}
    (houtput : s.output = some (frame, .ok bytes)) :
    Session.Inv serde label careful { s with
      output := none
      awaiting := match answered serde frame with
        | some id => s.awaiting.erase id
        | none => s.awaiting } := by
  have hawaiting : s.awaiting = ((answered serde frame).toList.filter (· ≠ .null) : List Value) +
      (used serde s.stdin + used serde (s.input.map Prod.fst).toList +
        (s.owed + returning s.stdout).map Prod.fst) := by
    rw [h.awaiting, Session.ids, houtput, add_comm]
    rfl
  have hafter : (match answered serde frame with
      | some id => s.awaiting.erase id
      | none => s.awaiting) = used serde s.stdin + used serde (s.input.map Prod.fst).toList +
        (s.owed + returning s.stdout).map Prod.fst := by
    cases hanswered : answered serde frame with
    | none =>
      rw [hanswered] at hawaiting
      rw [hawaiting]
      exact zero_add _
    | some id =>
      dsimp only
      rw [hanswered] at hawaiting
      by_cases hnull : id = .null
      · rw [hnull, Multiset.erase_of_notMem h.notNull]
        rw [hnull] at hawaiting
        rw [hawaiting]
        exact zero_add _
      · have hfilter : [id].filter (· ≠ .null) = [id] := by simp [hnull]
        rw [Option.toList_some, hfilter] at hawaiting
        rw [hawaiting]
        exact Multiset.erase_cons_head id _
  have hle : (match answered serde frame with
      | some id => s.awaiting.erase id
      | none => s.awaiting) ≤ s.awaiting := by
    cases answered serde frame with
    | none => exact le_refl _
    | some id => exact Multiset.erase_le id _
  constructor
  · exact h.shape
  · exact h.handed
  · exact h.holds
  · dsimp only
    rw [hafter, Session.ids]
    exact (add_zero _).symm
  · exact fun hmem => h.notNull (Multiset.mem_of_le hle hmem)
  · exact h.tagged
  · intro frame' reason heq
    cases heq
  · exact fun hc => Multiset.nodup_of_le hle (h.fresh hc)
  · exact h.unheard
  · exact h.unsaid

/-- The client waits for every request that the table holds. -/
theorem mem_awaiting (h : s.Inv serde label careful) {r : Request} (hr : r ∈ s.flight serde) :
    r.1 ∈ s.awaiting := by
  rw [h.awaiting, Session.ids]
  rcases Multiset.mem_add.mp hr with hr | hr
  · -- What is about to be written is in the hands of the input relay.
    have hused : r.1 ∈ used serde (s.input.map Prod.fst).toList := by
      cases hinput : s.input with
      | none =>
        rw [hinput] at hr
        exact absurd hr (Multiset.notMem_zero r)
      | some handed =>
        obtain ⟨frame, out⟩ := handed
        rw [hinput] at hr
        rw [Option.map_some, Option.toList_some, used_singleton]
        cases out with
        | forward bytes => exact Multiset.mem_map_of_mem Prod.fst hr
        | reject error => exact absurd hr (Multiset.notMem_zero r)
        | drop => exact absurd hr (Multiset.notMem_zero r)
    simp [hused]
  · have hmap := Multiset.mem_map_of_mem Prod.fst hr
    simp only [Multiset.mem_add]
    exact .inl (.inr hmap)

end Session.Inv

/-! ### The host -/

section

variable {provider : PublicProvider} {frame : Bytes} {pending : PendingRequests}

/-- The answer to a pending request is relayed. -/
theorem Answers.adapt {id : Value} {method : String}
    (h : Answers serde provider.asStr frame id method)
    (hpending : byId serde pending id = some method) :
    ∃ bytes, adaptServerFrame serde provider.asStr frame pending =
      (.ok bytes, pending.erase (serde.toString id)) := by
  obtain ⟨value, hframe, hfit⟩ := h
  obtain ⟨-, -, -, hscalar, -⟩ := hostFrame_response hframe
  rw [byId, if_pos hscalar] at hpending
  have hedits := (edits_adaptServerResult (asStr_ne_internal provider) method).atKey "result"
  obtain ⟨edited, hedited⟩ := hedits.total value hfit
  obtain ⟨reason, heq⟩ := adaptServerFrame_eq serde provider.asStr frame pending
  rw [hframe] at heq
  dsimp only at heq
  rw [hpending] at heq
  dsimp only at heq
  rw [hedited] at heq
  exact ⟨_, heq⟩

/-- A complaint is relayed, and is not taken for an answer. -/
theorem Complains.adapt (h : Complains serde frame) (hpending : byId serde pending .null = none) :
    ∃ bytes, adaptServerFrame serde label frame pending = (.ok bytes, pending) := by
  obtain ⟨value, hframe, hresult⟩ := h
  have hnone : pending.get (serde.toString .null) = none := hpending
  obtain ⟨reason, heq⟩ := adaptServerFrame_eq serde label frame pending
  rw [hframe] at heq
  dsimp only at heq
  rw [hnone] at heq
  dsimp only at heq
  rw [hresult] at heq
  exact ⟨_, heq⟩

/-- What answers nothing is relayed. -/
theorem Speaks.adapt (h : Speaks serde provider.asStr frame) :
    ∃ bytes, adaptServerFrame serde provider.asStr frame pending = (.ok bytes, pending) := by
  obtain ⟨reason, heq⟩ := adaptServerFrame_eq serde provider.asStr frame pending
  rcases h with ⟨value, method, hframe, hfit⟩ | ⟨value, hframe⟩
  · have hedits := edits_adaptServerNotification (asStr_ne_internal provider) method
    obtain ⟨edited, hedited⟩ := hedits.total value hfit
    rw [hframe] at heq
    dsimp only at heq
    rw [hedited] at heq
    exact ⟨_, heq⟩
  · rw [hframe] at heq
    exact ⟨_, heq⟩

end

/-- The relay of the host reads a frame and adapts it. -/
theorem Session.Inv.readOutput {careful : Prop} {s : Session} {frame : Bytes}
    {provider : PublicProvider} (h : s.Inv serde provider.asStr careful)
    (hserde : serde.ScalarsDistinct) {r : Option Request} {rest : List (Bytes × Option Request)}
    (hstdout : s.stdout = (frame, r) :: rest) (hidle : s.output = none) :
    Session.Inv serde provider.asStr careful { s with
      stdout := rest
      output := some (frame, (adaptServerFrame serde provider.asStr frame s.pending).1)
      pending := (adaptServerFrame serde provider.asStr frame s.pending).2 } := by
  have htagged := h.tagged (frame, r) (by rw [hstdout]; exact List.mem_cons_self)
  have hflight : s.flight serde = (r.toList : Multiset Request) +
      (leaving serde s.input + (s.owed + returning rest)) := by
    rw [Session.flight, hstdout, returning_cons]
    abel
  -- The frame is relayed, the table loses the request that it answers, and its id is now in the
  -- hands of the output relay.
  have hadapt : (∃ bytes, (adaptServerFrame serde provider.asStr frame s.pending).1 = .ok bytes) ∧
      Holds serde (adaptServerFrame serde provider.asStr frame s.pending).2
        (leaving serde s.input + (s.owed + returning rest)) ∧
      ((answered serde frame).toList.filter (· ≠ .null) : List Value) = r.toList.map Prod.fst := by
    have hholds := h.holds
    rw [hflight] at hholds
    cases r with
    | some r =>
      have hr : r ∈ s.flight serde := by
        rw [hflight]
        exact Multiset.mem_add.mpr (.inl (Multiset.mem_singleton_self r))
      have hnull : r.1 ≠ .null := fun heq => h.notNull (heq ▸ h.mem_awaiting hr)
      have hanswers : Answers serde provider.asStr frame r.1 r.2 := htagged
      obtain ⟨value, hframe, -⟩ := htagged
      obtain ⟨-, -, -, hscalar, -⟩ := hostFrame_response hframe
      obtain ⟨bytes, heq⟩ := hanswers.adapt (h.holds.get_iff.mpr hr)
      rw [heq]
      refine ⟨⟨bytes, rfl⟩, Holds.erase hholds hserde hscalar, ?_⟩
      have hanswered : answered serde frame = some r.1 := by rw [answered, hframe]
      rw [hanswered]
      simp [hnull]
    | none =>
      have hholds : Holds serde s.pending (leaving serde s.input + (s.owed + returning rest)) := by
        rw [← zero_add (leaving serde s.input + (s.owed + returning rest))]
        exact hholds
      rcases htagged with hcomplains | hspeaks
      · have hnull : byId serde s.pending .null = none := by
          by_contra hne
          obtain ⟨method, hmethod⟩ := Option.ne_none_iff_exists'.mp hne
          exact h.notNull (h.mem_awaiting (h.holds.get_iff.mp hmethod))
        obtain ⟨bytes, heq⟩ := Complains.adapt hcomplains hnull
        rw [heq]
        refine ⟨⟨bytes, rfl⟩, hholds, ?_⟩
        obtain ⟨value, hframe, -⟩ := hcomplains
        rw [answered, hframe]
        rfl
      · obtain ⟨bytes, heq⟩ := Speaks.adapt hspeaks
        rw [heq]
        refine ⟨⟨bytes, rfl⟩, hholds, ?_⟩
        rcases hspeaks with ⟨value, method, hframe, -⟩ | ⟨value, hframe⟩
        · rw [answered, hframe]
          rfl
        · rw [answered, hframe]
          rfl
  obtain ⟨⟨bytes, hok⟩, hholds, hanswering⟩ := hadapt
  constructor
  · exact h.shape
  · exact h.handed
  · exact hholds
  · show s.awaiting = used serde s.stdin + used serde (s.input.map Prod.fst).toList +
      (s.owed + returning rest).map Prod.fst +
        ((answered serde frame).toList.filter (· ≠ .null) : List Value)
    rw [h.awaiting, Session.ids, hidle, hstdout, returning_cons, hanswering, ← Multiset.map_coe]
    simp only [Multiset.map_add, answering]
    abel
  · exact h.notNull
  · exact fun entry hentry => h.tagged entry (by rw [hstdout]; exact List.mem_cons_of_mem _ hentry)
  · intro frame' reason heq
    rw [hok] at heq
    cases heq
  · exact h.fresh
  · exact h.unheard
  · exact h.unsaid

/-! ## Untroubled sessions -/

/-- Every step keeps the invariant. -/
theorem Step.inv {careful : Prop} {provider : PublicProvider} (hserde : serde.ScalarsDistinct)
    {s s' : Session} (hstep : Step serde provider.asStr careful s s')
    (h : s.Inv serde provider.asStr careful) : s'.Inv serde provider.asStr careful := by
  cases hstep with
  | send frame hshape hcareful => exact h.send hshape hcareful
  | readInput hstdin hidle => exact h.readInput hserde hstdin hidle
  | forward hinput => exact h.forward hinput
  | reject hinput =>
    obtain ⟨hshape, pending, hout⟩ := h.handed hinput
    obtain ⟨r, hrequest, hid⟩ := hshape.reject hout
    exact h.reject hinput hrequest hid
  | drop hinput =>
    obtain ⟨-, pending, hout⟩ := h.handed hinput
    exact h.drop hinput (adaptClientFrame_drop serde provider.asStr hout)
  | answer howed hframe => exact h.answer howed hframe
  | complain howed hframe => exact h.say _ (.inl hframe)
  | speak hframe => exact h.say s.complaints (.inr hframe)
  | readOutput hstdout hidle => exact h.readOutput hserde hstdout hidle
  | writeOutput houtput => exact h.writeOutput houtput

/-- The invariant holds in every state of a session. -/
theorem Reachable.inv {careful : Prop} {provider : PublicProvider} (hserde : serde.ScalarsDistinct)
    {s : Session} (h : Reachable serde provider.asStr careful s) :
    s.Inv serde provider.asStr careful := by
  unfold Reachable at h
  induction h with
  | refl => exact .start
  | tail _ hstep ih => exact hstep.inv hserde ih

/-- In a session with a well-behaved client and a well-behaved host, no frame of the host fails in
the adapter; and a client that does not use an id for which it waits is never told that an id is
in use. -/
theorem session_untroubled (hserde : serde.ScalarsDistinct) (provider : PublicProvider) :
    (∀ s, Reachable serde provider.asStr False s →
      ∀ frame reason, s.output ≠ some (frame, .error reason)) ∧
    ∀ s, Reachable serde provider.asStr True s →
      ∀ id, invalidRequest id "duplicate in-flight request id" ∉ s.rejections := by
  constructor
  · intro s h frame reason
    exact (h.inv hserde).relayed
  · intro s h id
    exact (h.inv hserde).unheard trivial id

/-- A request is sent, forwarded and answered, and its answer is relayed. -/
theorem session_untroubled_ping :
    ∃ s, Reachable Compact.serde "codex" False s ∧ s.output.isSome ∧
      ∀ frame reason, s.output ≠ some (frame, .error reason) := by
  have hparse : parseFrame Compact.serde pingFrame =
      some (.object [("id", .ofNat 1), ("method", .string "ping")]) := by
    decide +kernel
  have hshape : ClientShape Compact.serde pingFrame := by
    intro value hvalue
    obtain rfl := Option.some.inj (hparse.symm.trans hvalue)
    refine ⟨rfl, fun id hid => ?_⟩
    obtain rfl : Value.ofNat 1 = id := Option.some.inj hid
    exact ⟨rfl, by decide⟩
  have hforward : (adaptClientFrame Compact.serde "codex" pingFrame []).1 = .forward pingFrame := by
    decide +kernel
  have hrequest : requestOf Compact.serde pingFrame = some (.ofNat 1, "ping") := by
    rw [requestOf, hparse]
    rfl
  have hanswers : Answers Compact.serde "codex" pongFrame (.ofNat 1) "ping" :=
    ⟨.object [("id", .ofNat 1), ("result", .null)], by decide +kernel, fun p hp => by cases hp⟩
  -- The client sends a request, the input relay forwards it, and the host answers it.
  have hsent : Reachable Compact.serde "codex" False _ :=
    (Relation.ReflTransGen.refl).tail (.send pingFrame hshape False.elim)
  have hread := hsent.tail (.readInput rfl rfl)
  have hwritten := hread.tail (.forward (congrArg (fun out => some (pingFrame, out)) hforward))
  have hanswered := hwritten.tail (.answer (Multiset.mem_add.mpr (.inr (mem_requests.mpr hrequest)))
    hanswers)
  have hrelayed : Reachable Compact.serde "codex" False _ := hanswered.tail (.readOutput rfl rfl)
  exact ⟨_, hrelayed, rfl,
    (session_untroubled Compact.scalarsDistinct .codex).1 _ hrelayed⟩

end MuseCodex.Msp
