import MuseCodex.Bracketing
import MuseCodex.Zai.Transcript
import Mathlib.Data.List.GetD

/-!
# The synthesized stream is well bracketed

An item of the response is added, updated and done by events that name it. Read as marks on the
item ids (`Event.mark`), the events of a stream are a well-bracketed log in the sense of
`Bracketing.lean`. `WellFormed` states this together with the numbering of the events, their
beginning and their end. A stream is well formed exactly when it does not get stuck
(`responsesEvents_wellFormed_iff`): one that does yields no terminal event
(`responsesEvents_goesOn_of_stuck`).

The proof keeps `Ledger`, what is true of the events so far, apart from `Consistent`, which links
the state to them: the items that are open in the log are the item being sent and the calls that
were announced. Item ids end with an output index, so an id is new when its index is.
-/

namespace MuseCodex.Zai

open Text Json Bracketing

/-! ## Reading an event -/

/-- The comparison of optional texts is lawful. -/
instance lawfulBEq_option_string : LawfulBEq (Option String) := inferInstance

namespace Event

/-- The sequence number of an event. -/
def sequenceNumber (e : Event) : Option ℕ := (e.value.get "sequence_number").bind Value.asU64

/-- The item that an event carries. -/
def item (e : Event) : Option Value := e.value.get "item"

/-- The id of the item that an event carries. -/
def itemId (e : Event) : Option String := (e.item.bind (·.get "id")).bind Value.asStr

/-- The id of the item that an event names. -/
def itemRef (e : Event) : Option String := (e.value.get "item_id").bind Value.asStr

/-- The output index of an event. -/
def outputIndex (e : Event) : Option ℕ := (e.value.get "output_index").bind Value.asU64

/-- The output of the response that an event carries. -/
def responseOutput (e : Event) : Option Value := (e.value.get "response").bind (·.get "output")

/-- Whether the event adds an item. -/
def isAdded (e : Event) : Bool := e.kind = "response.output_item.added"

/-- Whether the event ends an item. -/
def isDone (e : Event) : Bool := e.kind = "response.output_item.done"

/-- Whether the event carries a reasoning or a message item. -/
def isText (e : Event) : Bool :=
  (e.item.bind (·.get "type")).bind Value.asStr ∈ [some "reasoning", some "message"]

/-- Whether the event is a delta, ends a part of an item, or adds one. -/
def isUpdate (e : Event) : Bool :=
  [".delta", ".done", "_part.added"].any fun ending => ending.toList.isSuffixOf e.kind.toList

/-- Whether the event ends the stream. -/
def isTerminal (e : Event) : Bool :=
  e.kind ∈ ["error", "response.completed", "response.incomplete"]

/-- What an event does to the item that it carries or names. -/
def mark (e : Event) : Mark (Option String) :=
  if e.isAdded then .opens e.itemId
  else if e.isDone then .closes e.itemId
  else if e.isUpdate then .uses e.itemRef
  else .neutral

/-- What an event does to a reasoning or message item. -/
def textMark (e : Event) : Mark (Option String) :=
  if e.isText then
    if e.isAdded then .opens e.itemId else if e.isDone then .closes e.itemId else .neutral
  else .neutral

end Event

/-- The marks of some events. -/
def marks (es : List Event) : List (Mark (Option String)) := es.map Event.mark

/-- The marks of some events on reasoning and message items. -/
def textMarks (es : List Event) : List (Mark (Option String)) := es.map Event.textMark

/-- The output indices of the items that were added. -/
def addedIndices (es : List Event) : List (Option ℕ) :=
  (es.filter Event.isAdded).map Event.outputIndex

/-- The items that are done, in the order of the events that ended them. -/
def doneItems (es : List Event) : List Value := (es.filter Event.isDone).filterMap Event.item

/-! ## Well-formed streams -/

/-- A well-bracketed Responses stream. -/
structure WellFormed (es : List Event) : Prop where
  /-- The sequence numbers count the events from zero. -/
  numbered : ∀ before e after, es = before ++ e :: after → e.sequenceNumber = some before.length
  /-- Exactly one event is terminal, and it is the last. -/
  terminal : ∃ before last, es = before ++ [last] ∧ last.isTerminal = true ∧
    ∀ e ∈ before, e.isTerminal = false
  /-- The first two events start the response, unless there is only an error. -/
  opening : (∃ e, es = [e] ∧ e.kind = "error") ∨ ∃ created inProgress after,
    es = created :: inProgress :: after ∧ created.kind = "response.created" ∧
      inProgress.kind = "response.in_progress"
  /-- An item that is added has an id and an output index. -/
  added : ∀ e ∈ es, e.isAdded → e.itemId.isSome ∧ e.outputIndex.isSome
  /-- The id of an item that is added is new, and every other event that carries or names an item
  is about one that was added and is not yet done. -/
  brackets : ∀ before e after, es = before ++ e :: after → Admits (marks before) e.mark
  /-- The output index of an item that is added is new. -/
  indices : (addedIndices es).Nodup
  /-- At any time at most one reasoning or message item is open. -/
  texts : ∀ before, before <+: es → (live (textMarks before)).length ≤ 1
  /-- When the response is sent, every item that was added has been done exactly once, and the
  output is the list of the items that are done. -/
  output : ∀ before last, es = before ++ [last] →
    last.kind = "response.completed" ∨ last.kind = "response.incomplete" →
    (∀ id ∈ opened (marks before), (closed (marks before)).count id = 1) ∧
      last.responseOutput = some (.array (doneItems before))

/-! ## The events so far -/

/-- What is true of the events of a response before its end. -/
structure Ledger (es : List Event) : Prop where
  numbered : ∀ before e after, es = before ++ e :: after → e.sequenceNumber = some before.length
  goesOn : ∀ e ∈ es, e.isTerminal = false
  added : ∀ e ∈ es, e.isAdded → e.itemId.isSome ∧ e.outputIndex.isSome
  brackets : WellBracketed (marks es)
  textBrackets : WellBracketed (textMarks es)
  indices : (addedIndices es).Nodup
  texts : ∀ before, before <+: es → (live (textMarks before)).length ≤ 1

/-- The mark of an event comes after those before it. -/
@[simp] theorem marks_concat (es : List Event) (e : Event) :
    marks (es ++ [e]) = marks es ++ [e.mark] := by
  simp [marks]

/-- The mark that an event leaves for the texts comes after those before it. -/
@[simp] theorem textMarks_concat (es : List Event) (e : Event) :
    textMarks (es ++ [e]) = textMarks es ++ [e.textMark] := by
  simp [textMarks]

/-- The position of an event in a list with one more event at its end. -/
theorem concat_eq_append_cons {α : Type} {es before after : List α} {e x : α}
    (h : es ++ [e] = before ++ x :: after) :
    (es = before ∧ e = x) ∨ ∃ after', es = before ++ x :: after' := by
  rcases List.eq_nil_or_concat after with rfl | ⟨after', last, rfl⟩
  · obtain ⟨hes, he⟩ := List.append_inj' h rfl
    exact .inl ⟨hes, by simpa using he⟩
  · rw [List.concat_eq_append, ← List.cons_append, ← List.append_assoc] at h
    exact .inr ⟨after', (List.append_inj' h rfl).1⟩

/-- One more number at the end of a numbered list. -/
theorem numbered_concat {es : List Event}
    (h : ∀ before e after, es = before ++ e :: after → e.sequenceNumber = some before.length)
    {e : Event} (he : e.sequenceNumber = some es.length) (before : List Event) (x : Event)
    (after : List Event) (heq : es ++ [e] = before ++ x :: after) :
    x.sequenceNumber = some before.length := by
  rcases concat_eq_append_cons heq with ⟨rfl, rfl⟩ | ⟨after', hes⟩
  · exact he
  · exact h before x after' hes

/-- One more event. -/
theorem Ledger.concat {es : List Event} (h : Ledger es) {e : Event}
    (hnumber : e.sequenceNumber = some es.length) (hterminal : e.isTerminal = false)
    (hmark : Admits (marks es) e.mark) (htextMark : Admits (textMarks es) e.textMark)
    (htexts : (live (textMarks (es ++ [e]))).length ≤ 1)
    (hadded : e.isAdded → e.itemId.isSome ∧ e.outputIndex.isSome ∧
      e.outputIndex ∉ addedIndices es) : Ledger (es ++ [e]) where
  numbered := numbered_concat h.numbered hnumber
  goesOn := by
    intro x hx
    rcases List.mem_append.mp hx with hx | hx
    · exact h.goesOn x hx
    · rw [List.mem_singleton.mp hx]
      exact hterminal
  added := by
    intro x hx hx'
    rcases List.mem_append.mp hx with hx | hx
    · exact h.added x hx hx'
    · rw [List.mem_singleton.mp hx] at hx' ⊢
      exact ⟨(hadded hx').1, (hadded hx').2.1⟩
  brackets := by
    rw [marks_concat]
    exact .concat h.brackets hmark
  textBrackets := by
    rw [textMarks_concat]
    exact .concat h.textBrackets htextMark
  indices := by
    -- An index is taken only by an event that adds an item.
    by_cases he : e.isAdded
    · have heq : addedIndices (es ++ [e]) = addedIndices es ++ [e.outputIndex] := by
        simp [addedIndices, he]
      rw [heq, List.nodup_append]
      refine ⟨h.indices, by simp, ?_⟩
      intro i hi j hj hij
      rw [List.mem_singleton.mp hj] at hij
      exact (hadded he).2.2 (hij ▸ hi)
    · have heq : addedIndices (es ++ [e]) = addedIndices es := by simp [addedIndices, he]
      rw [heq]
      exact h.indices
  texts := by
    intro before hbefore
    rcases List.prefix_concat_iff.mp hbefore with rfl | hbefore
    · exact htexts
    · exact h.texts before hbefore

/-! ## The three sorts of events about an item -/

/-- An event that adds an item. -/
def addedEvent (n i : ℕ) (item : Value) : Event :=
  .of n "response.output_item.added" [("output_index", .ofNat i), ("item", item)]

/-- An event that ends an item. -/
def doneEvent (n i : ℕ) (item : Value) : Event :=
  .of n "response.output_item.done" [("output_index", .ofNat i), ("item", item)]

/-- An event about an item that is open: what the log needs to know of it. -/
structure IsUpdateOf (id : String) (n : ℕ) (e : Event) : Prop where
  number : e.sequenceNumber = some n
  mark : e.mark = .uses (some id)
  textMark : e.textMark = .neutral
  terminal : e.isTerminal = false
  added : e.isAdded = false
  done : e.isDone = false

/-- The kinds of the events about an item that is open. -/
def updateKinds : List String :=
  ["response.content_part.added",
    "response.content_part.done",
    "response.output_text.delta",
    "response.output_text.done",
    "response.reasoning_summary_part.added",
    "response.reasoning_summary_part.done",
    "response.reasoning_summary_text.delta",
    "response.reasoning_summary_text.done",
    "response.function_call_arguments.delta",
    "response.function_call_arguments.done",
    "response.custom_tool_call_input.delta",
    "response.custom_tool_call_input.done"]

/-- An event of one of these kinds is about the item that it names. -/
theorem isUpdateOf {kind : String} (hkind : kind ∈ updateKinds) (n i : ℕ) (id : String)
    {body : List (String × Value)} (hbody : ∀ p ∈ body, p.1 ≠ "item_id" ∧ p.1 ≠ "item") :
    IsUpdateOf id n (.of n kind (("item_id", .string id) :: ("output_index", .ofNat i) :: body)) := by
  -- None of these kinds adds or ends an item or is terminal, and each refers to an item.
  have hkinds : ∀ kind ∈ updateKinds, kind ≠ "response.output_item.added" ∧
      kind ≠ "response.output_item.done" ∧
      kind ∉ ["error", "response.completed", "response.incomplete"] ∧
      [".delta", ".done", "_part.added"].any
        (fun ending => ending.toList.isSuffixOf kind.toList) = true := by
    decide
  obtain ⟨hadded, hdone, hterminal, hupdate⟩ := hkinds kind hkind
  have hid : (Map.ofEntries (("item_id", Value.string id) :: ("output_index", .ofNat i) ::
      body)).get "item_id" = some (.string id) := by
    apply Map.get_ofEntries_cons
    intro p hp
    rcases List.mem_cons.mp hp with rfl | hp
    · simp
    · exact (hbody p hp).1
  have hitem : (Map.ofEntries (("item_id", Value.string id) :: ("output_index", .ofNat i) ::
      body)).get "item" = none := by
    apply Map.get_ofEntries_of_notMem
    intro p hp
    rcases List.mem_cons.mp hp with rfl | hp
    · simp
    · rcases List.mem_cons.mp hp with rfl | hp
      · simp
      · exact (hbody p hp).2
  generalize he : Event.of n kind _ = e
  have hkind' : e.kind = kind := by rw [← he, Event.of]
  have hisAdded : e.isAdded = false := by simp [Event.isAdded, hkind', hadded]
  have hisDone : e.isDone = false := by simp [Event.isDone, hkind', hdone]
  have hisUpdate : e.isUpdate = true := by rw [Event.isUpdate, hkind', hupdate]
  have href : e.itemRef = some id := by simp [← he, Event.itemRef, Event.of, hid]
  have hisText : e.isText = false := by simp [← he, Event.isText, Event.item, Event.of, hitem]
  constructor
  · simp [← he, Event.of, Event.sequenceNumber]
  · simp [Event.mark, hisAdded, hisDone, hisUpdate, href]
  · simp [Event.textMark, hisText]
  · simpa [Event.isTerminal, hkind'] using hterminal
  · exact hisAdded
  · exact hisDone

/-- The id of an item. -/
def idOf (item : Value) : Option String := (item.get "id").bind Value.asStr

/-- Whether an item is a reasoning or a message item. -/
def isTextItem (item : Value) : Bool :=
  (item.get "type").bind Value.asStr ∈ [some "reasoning", some "message"]

/-- The item of a channel has the id that it is given, and carries text. -/
theorem Channel.item_reads (c : Channel) (id status : String) (parts : List Value) :
    idOf (c.item id status parts) = some id ∧ isTextItem (c.item id status parts) = true := by
  cases c <;> simp [idOf, isTextItem, Channel.item, Value.obj, Map.ofEntries]

/-- The item of a call has the id of the call, and carries no text. -/
theorem PendingCall.item_reads (call : PendingCall) (status text : String) :
    idOf (call.item status text) = some call.id ∧ isTextItem (call.item status text) = false := by
  unfold PendingCall.item
  split_ifs <;> simp [idOf, isTextItem, Value.obj, Map.ofEntries]

section

variable (n i : ℕ) (item : Value)

/-- What is read of the event that adds an item. -/
theorem addedEvent_reads : (addedEvent n i item).sequenceNumber = some n ∧
    (addedEvent n i item).isTerminal = false ∧ (addedEvent n i item).isAdded = true ∧
    (addedEvent n i item).isDone = false ∧ (addedEvent n i item).itemId = idOf item ∧
    (addedEvent n i item).outputIndex = some i ∧
    (addedEvent n i item).isText = isTextItem item := by
  simp [addedEvent, Event.of, Event.sequenceNumber, Event.isTerminal, Event.isAdded, Event.isDone,
    Event.itemId, Event.item, Event.outputIndex, Event.isText, isTextItem, idOf, Map.ofEntries]

/-- What is read of the event that ends an item. -/
theorem doneEvent_reads : (doneEvent n i item).sequenceNumber = some n ∧
    (doneEvent n i item).isTerminal = false ∧ (doneEvent n i item).isAdded = false ∧
    (doneEvent n i item).isDone = true ∧ (doneEvent n i item).itemId = idOf item ∧
    (doneEvent n i item).item = some item ∧ (doneEvent n i item).isText = isTextItem item := by
  simp [doneEvent, Event.of, Event.sequenceNumber, Event.isTerminal, Event.isAdded, Event.isDone,
    Event.itemId, Event.item, Event.isText, isTextItem, idOf, Map.ofEntries]

/-- Adding an item opens its bracket. -/
theorem addedEvent_mark : (addedEvent n i item).mark = .opens (idOf item) := by
  obtain ⟨-, -, hadded, -, hid, -, -⟩ := addedEvent_reads n i item
  rw [Event.mark, if_pos hadded, hid]

/-- Adding a text opens its bracket among the texts. -/
theorem addedEvent_textMark : (addedEvent n i item).textMark =
    if isTextItem item then .opens (idOf item) else .neutral := by
  obtain ⟨-, -, hadded, -, hid, -, htext⟩ := addedEvent_reads n i item
  rw [Event.textMark, htext, if_pos hadded, hid]

/-- Ending an item closes its bracket. -/
theorem doneEvent_mark : (doneEvent n i item).mark = .closes (idOf item) := by
  obtain ⟨-, -, hadded, hdone, hid, -, -⟩ := doneEvent_reads n i item
  rw [Event.mark, if_neg (by simp [hadded]), if_pos hdone, hid]

/-- Ending a text closes its bracket among the texts. -/
theorem doneEvent_textMark : (doneEvent n i item).textMark =
    if isTextItem item then .closes (idOf item) else .neutral := by
  obtain ⟨-, -, hadded, hdone, hid, -, htext⟩ := doneEvent_reads n i item
  simp only [Event.textMark, htext, hadded, hdone, hid, Bool.false_eq_true, if_false, if_true]

end

/-! ## What the events say of the items -/

/-- What some events say of the items: those that are open, those of them that carry text, those
that are done, and the ids and output indices of all that were added. -/
structure View where
  live : List (Option String)
  texts : List (Option String)
  done : List Value
  added : List (Option String × Option ℕ)

/-- What some events say of the items. -/
def view (es : List Event) : View where
  live := live (marks es)
  texts := live (textMarks es)
  done := doneItems es
  added := (es.filter Event.isAdded).map fun e => (e.itemId, e.outputIndex)

/-- The places of the added items are those in the view. -/
theorem addedIndices_eq (es : List Event) : addedIndices es = (view es).added.map Prod.snd := by
  simp [addedIndices, view]

/-- The brackets that were opened are those of the added items in the view. -/
theorem opened_marks (es : List Event) : opened (marks es) = (view es).added.map Prod.fst := by
  induction es using List.reverseRecOn with
  | nil => rfl
  | append_singleton es e ih =>
    rw [marks_concat, opened_append, ih]
    by_cases he : e.isAdded
    · simp [view, he, opened, Event.mark]
    · have hmark : opened [e.mark] = [] := by
        unfold Event.mark
        rw [if_neg he]
        split_ifs <;> rfl
      simp [view, he, hmark]

/-- A reasoning or message item that was added was added. -/
theorem opened_textMarks_subset (es : List Event) : opened (textMarks es) ⊆ opened (marks es) := by
  induction es using List.reverseRecOn with
  | nil => exact List.Subset.refl _
  | append_singleton es e ih =>
    rw [marks_concat, textMarks_concat, opened_append, opened_append]
    refine List.append_subset.mpr ⟨fun id hid => List.mem_append_left _ (ih hid), ?_⟩
    intro id hid
    apply List.mem_append_right
    unfold Event.textMark at hid
    split_ifs at hid with htext hadded hdone
    · rw [Event.mark, if_pos hadded]
      exact hid
    · simp [opened] at hid
    · simp [opened] at hid
    · simp [opened] at hid

/-- An event about an open item changes nothing of what the events say of the items. -/
theorem view_update {es : List Event} {id : String} {n : ℕ} {e : Event}
    (he : IsUpdateOf id n e) : view (es ++ [e]) = view es := by
  have hlive : live (marks (es ++ [e])) = live (marks es) := by
    rw [marks_concat, he.mark, live_concat_uses]
  have htexts : live (textMarks (es ++ [e])) = live (textMarks es) := by
    rw [textMarks_concat, he.textMark, live_concat_neutral]
  simp only [view, hlive, htexts, doneItems, List.filter_append, List.filter_singleton, he.added,
    he.done, cond_false, List.append_nil]

namespace Ledger

variable {es : List Event} (h : Ledger es)
include h

/-- An event about an open item keeps the log. -/
theorem update {id : String} {e : Event} (he : IsUpdateOf id es.length e)
    (hid : some id ∈ (view es).live) : Ledger (es ++ [e]) := by
  refine h.concat he.number he.terminal (by rw [he.mark]; exact hid)
    (by rw [he.textMark]; trivial) ?_ (by simp [he.added])
  rw [textMarks_concat, he.textMark, live_concat_neutral]
  exact h.texts es (List.prefix_refl es)

/-- What the events say after an item with a new id and a new index is added. -/
theorem add {i : ℕ} {item : Value} {id : String} (hid : idOf item = some id)
    (hnew : some id ∉ (view es).added.map Prod.fst)
    (hindex : some i ∉ (view es).added.map Prod.snd)
    (htext : isTextItem item → (view es).texts = []) :
    Ledger (es ++ [addedEvent es.length i item]) ∧
      view (es ++ [addedEvent es.length i item]) =
        { live := (view es).live ++ [some id]
          texts := if isTextItem item then [some id] else (view es).texts
          done := (view es).done
          added := (view es).added ++ [(some id, some i)] } := by
  obtain ⟨hnumber, hterminal, hadded, hdone, hitemId, houtputIndex, -⟩ :=
    addedEvent_reads es.length i item
  have hmark := addedEvent_mark es.length i item
  have htextMark := addedEvent_textMark es.length i item
  rw [hid] at hmark htextMark hitemId
  rw [← opened_marks] at hnew
  rw [← addedIndices_eq] at hindex
  -- Every text item is an item, so an id that is new is new among the texts.
  have hnewText : some id ∉ opened (textMarks es) := fun hmem =>
    hnew (opened_textMarks_subset es hmem)
  generalize addedEvent es.length i item = e at *
  have hlive : live (marks (es ++ [e])) = live (marks es) ++ [some id] := by
    rw [marks_concat, hmark, h.brackets.live_concat_opens hnew]
  have htexts : live (textMarks (es ++ [e])) =
      if isTextItem item then [some id] else live (textMarks es) := by
    rw [textMarks_concat, htextMark]
    split_ifs with hitem
    · rw [h.textBrackets.live_concat_opens hnewText, show live (textMarks es) = [] from htext hitem,
        List.nil_append]
    · rw [live_concat_neutral]
  constructor
  · refine h.concat hnumber hterminal (by rw [hmark]; exact hnew) ?_ ?_ ?_
    · rw [htextMark]
      split_ifs
      · exact hnewText
      · trivial
    · rw [htexts]
      split_ifs
      · rw [List.length_singleton]
      · exact h.texts es (List.prefix_refl es)
    · intro _
      rw [hitemId, houtputIndex]
      exact ⟨rfl, rfl, hindex⟩
  · simp only [view, hlive, htexts, doneItems, List.filter_append, List.filter_singleton, hadded,
      hdone, cond_true, cond_false, List.append_nil, List.map_append, List.map_cons, List.map_nil,
      hitemId, houtputIndex]

/-- What the events say after an open item is done. -/
theorem finish {i : ℕ} {item : Value} {id : String} (hid : idOf item = some id)
    (hlive : some id ∈ (view es).live) (htext : isTextItem item → some id ∈ (view es).texts) :
    Ledger (es ++ [doneEvent es.length i item]) ∧
      view (es ++ [doneEvent es.length i item]) =
        { live := (view es).live.filter (· ≠ some id)
          texts := if isTextItem item then (view es).texts.filter (· ≠ some id)
            else (view es).texts
          done := (view es).done ++ [item]
          added := (view es).added } := by
  obtain ⟨hnumber, hterminal, hadded, hdone, -, hitem, -⟩ := doneEvent_reads es.length i item
  have hmark := doneEvent_mark es.length i item
  have htextMark := doneEvent_textMark es.length i item
  rw [hid] at hmark htextMark
  generalize doneEvent es.length i item = e at *
  have hlive' : live (marks (es ++ [e])) = (live (marks es)).filter (· ≠ some id) := by
    rw [marks_concat, hmark, live_concat_closes]
  have htexts : live (textMarks (es ++ [e])) =
      if isTextItem item then (live (textMarks es)).filter (· ≠ some id)
        else live (textMarks es) := by
    rw [textMarks_concat, htextMark]
    split_ifs
    · rw [live_concat_closes]
    · rw [live_concat_neutral]
  constructor
  · refine h.concat hnumber hterminal (by rw [hmark]; exact hlive) ?_ ?_ (by simp [hadded])
    · rw [htextMark]
      split_ifs with hitem
      · exact htext hitem
      · trivial
    · -- At most one text was open, and no more are now.
      have hle := h.texts es (List.prefix_refl es)
      rw [htexts]
      split_ifs
      · exact le_trans (List.length_filter_le _ _) hle
      · exact hle
  · simp only [view, hlive', htexts, doneItems, List.filter_append, List.filter_singleton, hadded,
      hdone, cond_true, cond_false, List.append_nil, List.filterMap_append, List.filterMap_cons,
      List.filterMap_nil, hitem]

end Ledger

/-! ## Item ids -/

namespace Synthesis

/-- An item id ends with its output index. -/
theorem itemId_index {tag tag' : String} {i j : ℕ} {st : Synthesis}
    (h : st.itemId tag i = st.itemId tag' j) : i = j := by
  have digits (n : ℕ) : '_' ∉ n.repr.toList.reverse := by
    rw [List.mem_reverse, Nat.repr_eq_ofList_toDigits, String.toList_ofList]
    exact Nat.underscore_not_in_toDigits
  have hlist := congrArg (fun s => s.toList.reverse) h
  simp only [itemId, String.toList_append, List.reverse_append] at hlist
  -- Read backwards, the index is what stands before the first underscore.
  have hsplit : i.repr.toList.reverse ++ '_' ::
        (st.idStem.toList.reverse ++ ("_".toList.reverse ++ tag.toList.reverse)) =
      j.repr.toList.reverse ++ '_' ::
        (st.idStem.toList.reverse ++ ("_".toList.reverse ++ tag'.toList.reverse)) := hlist
  have hindex := congrArg (splitOnceChars '_') hsplit
  rw [splitOnceChars_append (digits i), splitOnceChars_append (digits j), Option.some_inj,
    Prod.mk.injEq] at hindex
  have hdigits : Nat.toDigits 10 i = Nat.toDigits 10 j := by
    simpa [Nat.repr_eq_ofList_toDigits] using List.reverse_injective hindex.1
  calc i = Nat.ofDigitChars 10 (Nat.toDigits 10 i) 0 := Nat.ofDigitChars_ten_toDigits.symm
    _ = Nat.ofDigitChars 10 (Nat.toDigits 10 j) 0 := by rw [hdigits]
    _ = j := Nat.ofDigitChars_ten_toDigits

/-- Items whose ids start differently have different ids. -/
theorem itemId_tag {tag tag' : String} {i j : ℕ} {st : Synthesis}
    (htag : tag ≠ "") (htag' : tag' ≠ "") (h : st.itemId tag i = st.itemId tag' j) :
    tag.toList.head? = tag'.toList.head? := by
  have hne : ∀ {t : String}, t ≠ "" → t.toList ≠ [] := by
    intro t ht hnil
    exact ht (String.toList_injective hnil)
  have hlist := congrArg (fun s => s.toList.head?) h
  simp only [itemId, String.toList_append] at hlist
  obtain ⟨a, as, ha⟩ := List.exists_cons_of_ne_nil (hne htag)
  obtain ⟨b, bs, hb⟩ := List.exists_cons_of_ne_nil (hne htag')
  simpa [ha, hb] using hlist

/-! ## The state agrees with its events -/

/-- The ids of the reasoning and message items that are being sent. -/
def slotIds (st : Synthesis) : List (Option String) :=
  (st.reasoning.toList ++ st.message.toList).map fun item => some item.id

/-- The calls of a state have ids and output indices of their own. -/
structure CallsApart (v : View) (st : Synthesis) : Prop where
  announced : ∀ index, (st.callAt index).announced = true → (st.callAt index).id ≠ ""
  /-- A call that has an id has the id of its index, and the index was taken. -/
  calls : ∀ index, (st.callAt index).id ≠ "" →
    (st.callAt index).id = st.itemId "fc" (st.callAt index).outputIndex ∧
      (st.callAt index).outputIndex < st.nextOutputIndex
  /-- The index of a call that is not announced is kept for it. -/
  reserved : ∀ index, (st.callAt index).id ≠ "" → (st.callAt index).announced = false →
    some (st.callAt index).outputIndex ∉ v.added.map Prod.snd
  distinct : ∀ i j, i ≠ j → (st.callAt i).id ≠ "" → (st.callAt j).id ≠ "" →
    (st.callAt i).outputIndex ≠ (st.callAt j).outputIndex

/-- The state agrees with what the events say of the items. -/
structure Consistent (v : View) (st : Synthesis) : Prop extends CallsApart v st where
  output : st.output = v.done
  texts : v.texts = st.slotIds
  /-- The open items are the one being sent and the calls that were announced. -/
  live : ∀ id, id ∈ v.live ↔ (∃ c item, st.slot c = some item ∧ id = some item.id) ∨
    ∃ index, (st.callAt index).announced = true ∧ id = some (st.callAt index).id
  /-- Every item that was added has the id of its index, and the index was taken. -/
  added : ∀ p ∈ v.added, ∃ tag i, p = (some (st.itemId tag i), some i) ∧ i < st.nextOutputIndex
  slots : ∀ c item, st.slot c = some item → item.id = st.itemId c.idTag item.outputIndex

/-- The ids of items depend on their stem only. -/
theorem itemId_congr {st st' : Synthesis} (h : st'.idStem = st.idStem) (tag : String) (i : ℕ) :
    st'.itemId tag i = st.itemId tag i := by
  rw [itemId, itemId, h]

/-- A call is read from the table only. -/
theorem callAt_congr {st st' : Synthesis} (h : st'.calls = st.calls) (index : ℕ) :
    st'.callAt index = st.callAt index := by
  rw [callAt, callAt, h]

/-- The calls stay apart when items are added at indices that had not been taken. -/
theorem CallsApart.mono {v v' : View} {st st' : Synthesis} (h : CallsApart v st)
    (hcalls : st'.calls = st.calls) (hstem : st'.idStem = st.idStem)
    (hnext : st.nextOutputIndex ≤ st'.nextOutputIndex)
    (hadded : ∀ i, some i ∈ v'.added.map Prod.snd → some i ∈ v.added.map Prod.snd ∨
      st.nextOutputIndex ≤ i) : CallsApart v' st' := by
  constructor
  · intro index
    rw [callAt_congr hcalls]
    exact h.announced index
  · intro index
    rw [callAt_congr hcalls, itemId_congr hstem]
    intro hne
    obtain ⟨hid, hlt⟩ := h.calls index hne
    exact ⟨hid, by omega⟩
  · intro index
    rw [callAt_congr hcalls]
    intro hne hnot hmem
    have hlt := (h.calls index hne).2
    rcases hadded _ hmem with hold | hnew
    · exact h.reserved index hne hnot hold
    · omega
  · intro i j
    rw [callAt_congr hcalls, callAt_congr hcalls]
    exact h.distinct i j

/-- Without the first call, each call is found one place earlier. -/
theorem callAt_tail {st st' : Synthesis} {call : PendingCall}
    (hcalls : st.calls = call :: st'.calls) (index : ℕ) :
    st'.callAt index = st.callAt (index + 1) := by
  rw [callAt, callAt, hcalls, List.getD_cons_succ]

/-- The first call is at index zero. -/
theorem callAt_zero {st : Synthesis} {call : PendingCall} {calls : List PendingCall}
    (hcalls : st.calls = call :: calls) : st.callAt 0 = call := by
  rw [callAt, hcalls, List.getD_cons_zero]

/-- The other calls stay apart when the first one is gone. -/
theorem CallsApart.tail {v v' : View} {st st' : Synthesis} (h : CallsApart v st)
    {call : PendingCall} (hcalls : st.calls = call :: st'.calls)
    (hstem : st'.idStem = st.idStem) (hnext : st'.nextOutputIndex = st.nextOutputIndex)
    (hadded : v'.added = v.added) : CallsApart v' st' := by
  have hat := callAt_tail hcalls
  constructor
  · intro index
    rw [hat]
    exact h.announced (index + 1)
  · intro index
    rw [hat, itemId_congr hstem, hnext]
    exact h.calls (index + 1)
  · intro index
    rw [hat, hadded]
    exact h.reserved (index + 1)
  · intro i j hij
    rw [hat, hat]
    exact h.distinct (i + 1) (j + 1) (by omega)

/-- A response between its start and its end. -/
structure Sound (st : Synthesis) : Prop where
  ledger : Ledger st.pending
  sequence : st.sequence = st.pending.length
  opening : ∃ created inProgress after, st.pending = created :: inProgress :: after ∧
    created.kind = "response.created" ∧ inProgress.kind = "response.in_progress"
  consistent : Consistent (view st.pending) st

/-- The events at the start stay there. -/
theorem opening_append {es : List Event} (h : ∃ created inProgress after,
      es = created :: inProgress :: after ∧ created.kind = "response.created" ∧
        inProgress.kind = "response.in_progress") (es' : List Event) :
    ∃ created inProgress after, es ++ es' = created :: inProgress :: after ∧
      created.kind = "response.created" ∧ inProgress.kind = "response.in_progress" := by
  obtain ⟨created, inProgress, after, rfl, hkinds⟩ := h
  exact ⟨created, inProgress, after ++ es', rfl, hkinds⟩

namespace Sound

variable {st : Synthesis} (h : st.Sound)
include h

/-- An event about an open item. -/
theorem emit_update {id kind : String} {body : List (String × Value)}
    (he : IsUpdateOf id st.sequence (.of st.sequence kind body))
    (hid : some id ∈ (view st.pending).live) : (st.emit kind body).Sound where
  ledger := by
    rw [h.sequence] at he
    simpa [emit, h.sequence] using h.ledger.update he hid
  sequence := by simp [emit, h.sequence]
  opening := opening_append h.opening _
  consistent := by
    have hview : view (st.emit kind body).pending = view st.pending := view_update he
    rw [hview]
    exact { h.consistent with }

/-- A state that differs only in what the items do not depend on. -/
theorem of_eq {st' : Synthesis} (hpending : st'.pending = st.pending)
    (hsequence : st'.sequence = st.sequence)
    (hconsistent : Consistent (view st.pending) st') : st'.Sound where
  ledger := hpending ▸ h.ledger
  sequence := by rw [hsequence, hpending, h.sequence]
  opening := hpending ▸ h.opening
  consistent := hpending ▸ hconsistent

/-- An item that is being sent is open. -/
theorem slot_live {c : Channel} {item : TextItem} (hslot : st.slot c = some item) :
    some item.id ∈ (view st.pending).live :=
  (h.consistent.live _).mpr (.inl ⟨c, item, hslot, rfl⟩)

/-- A call that was announced is open. -/
theorem call_live {index : ℕ} (hannounced : (st.callAt index).announced = true) :
    some (st.callAt index).id ∈ (view st.pending).live :=
  (h.consistent.live _).mpr (.inr ⟨index, hannounced, rfl⟩)

/-- An index that has not been taken is new, and so is the id made from it. -/
theorem next_fresh (tag : String) :
    some (st.itemId tag st.nextOutputIndex) ∉ (view st.pending).added.map Prod.fst ∧
      some st.nextOutputIndex ∉ (view st.pending).added.map Prod.snd := by
  constructor
  · intro hmem
    obtain ⟨p, hp, hfst⟩ := List.mem_map.mp hmem
    obtain ⟨tag', i, rfl, hi⟩ := h.consistent.added p hp
    have := itemId_index (Option.some_inj.mp hfst)
    omega
  · intro hmem
    obtain ⟨p, hp, hsnd⟩ := List.mem_map.mp hmem
    obtain ⟨tag', i, rfl, hi⟩ := h.consistent.added p hp
    have := Option.some_inj.mp hsnd
    omega

/-! ### Reasoning and text -/

/-- A text item is added while none is being sent. -/
theorem openText (c : Channel) (hslots : ∀ d, st.slot d = none) :
    (({ st with nextOutputIndex := st.nextOutputIndex + 1 }.emit "response.output_item.added"
      [("output_index", .ofNat st.nextOutputIndex),
        ("item", c.item (st.itemId c.idTag st.nextOutputIndex) "in_progress" [])]).setSlot c
        (some ⟨st.itemId c.idTag st.nextOutputIndex, st.nextOutputIndex, ""⟩)).Sound := by
  obtain ⟨hnewId, hnewIndex⟩ := h.next_fresh c.idTag
  have hc := h.consistent
  -- No text is open, so the new one is the only one.
  have hnoSlot : st.slotIds = [] := by
    simp [slotIds, show st.reasoning = none from hslots .reasoning,
      show st.message = none from hslots .message]
  obtain ⟨hid, htext⟩ := c.item_reads (st.itemId c.idTag st.nextOutputIndex) "in_progress" []
  obtain ⟨hledger, hview⟩ := h.ledger.add hid hnewId hnewIndex
    (fun _ => by rw [hc.texts, hnoSlot])
  rw [if_pos htext] at hview
  have hbeside := beside_setSlot c
    (some ⟨st.itemId c.idTag st.nextOutputIndex, st.nextOutputIndex, ""⟩)
    ({ st with nextOutputIndex := st.nextOutputIndex + 1 }.emit "response.output_item.added"
      [("output_index", .ofNat st.nextOutputIndex),
        ("item", c.item (st.itemId c.idTag st.nextOutputIndex) "in_progress" [])])
  generalize hst' : setSlot c _ _ = st' at hbeside ⊢
  have hpending : st'.pending = st.pending ++ [addedEvent st.pending.length st.nextOutputIndex
      (c.item (st.itemId c.idTag st.nextOutputIndex) "in_progress" [])] := by
    rw [hbeside.pending, ← h.sequence]
    rfl
  have hsequence : st'.sequence = st.sequence + 1 := hbeside.sequence
  have hnext : st'.nextOutputIndex = st.nextOutputIndex + 1 := hbeside.nextOutputIndex
  have hstem : st'.idStem = st.idStem := hbeside.idStem
  have hcalls : st'.calls = st.calls := hbeside.calls
  have hslot (d : Channel) (item : TextItem) : st'.slot d = some item ↔ d = c ∧
      item = ⟨st.itemId c.idTag st.nextOutputIndex, st.nextOutputIndex, ""⟩ := by
    rw [← hst']
    by_cases hd : d = c
    · subst hd
      simp [eq_comm]
    · have hnone : slot d { st with nextOutputIndex := st.nextOutputIndex + 1 } = none :=
        (slot_congr rfl rfl d).trans (hslots d)
      simp [slot_setSlot_of_ne hd, hd, hnone]
  have hslotIds : st'.slotIds = [some (st.itemId c.idTag st.nextOutputIndex)] := by
    have hreasoning : st.reasoning = none := hslots .reasoning
    have hmessage : st.message = none := hslots .message
    rw [← hst']
    cases c
    · simp [slotIds, setSlot, emit, hmessage]
    · simp [slotIds, setSlot, emit, hreasoning]
  refine ⟨hpending ▸ hledger, by simp [hsequence, hpending, h.sequence],
    hpending ▸ opening_append h.opening _, ?_⟩
  rw [hpending, hview]
  refine ⟨hc.toCallsApart.mono hcalls hstem (by omega) ?_, ?_, hslotIds.symm, ?_, ?_, ?_⟩
  · intro i hi
    simp only [List.map_append, List.map_cons, List.map_nil, List.mem_append, List.mem_singleton,
      Option.some_inj] at hi
    exact hi.imp_right fun hi => by omega
  · rw [hbeside.output, ← hc.output]
    rfl
  · intro id
    simp only [hslot, callAt_congr hcalls, List.mem_append, List.mem_singleton, hc.live, hslots]
    -- What was open stays open, and the new item joins it.
    constructor
    · rintro ((⟨d, item, hnone, -⟩ | hcall) | rfl)
      · cases hnone
      · exact .inr hcall
      · exact .inl ⟨c, _, ⟨rfl, rfl⟩, rfl⟩
    · rintro (⟨d, item, ⟨rfl, rfl⟩, rfl⟩ | hcall)
      · exact .inr rfl
      · exact .inl (.inr hcall)
  · intro p hp
    rw [hnext]
    simp only [itemId_congr hstem]
    rcases List.mem_append.mp hp with hp | hp
    · obtain ⟨tag, i, hpair, hi⟩ := hc.added p hp
      exact ⟨tag, i, hpair, by omega⟩
    · exact ⟨c.idTag, st.nextOutputIndex, List.mem_singleton.mp hp, by omega⟩
  · intro d item hitem
    -- The only item that is being sent is the new one.
    obtain ⟨rfl, rfl⟩ := (hslot d item).mp hitem
    rw [itemId_congr hstem]

/-- Only one text item is being sent. -/
theorem slot_unique {c : Channel} {item : TextItem} (hslot : st.slot c = some item) :
    (view st.pending).texts = [some item.id] ∧ ∀ d, d ≠ c → st.slot d = none := by
  have hle : (view st.pending).texts.length ≤ 1 :=
    h.ledger.texts st.pending (List.prefix_refl st.pending)
  rw [h.consistent.texts] at hle ⊢
  -- With both slots taken there would be two open text items.
  cases c with
  | reasoning =>
    have hreasoning : st.reasoning = some item := hslot
    cases hmessage : st.message with
    | some other => simp [slotIds, hreasoning, hmessage] at hle
    | none =>
      refine ⟨by simp [slotIds, hreasoning, hmessage], fun d hd => ?_⟩
      cases d
      · exact absurd rfl hd
      · exact hmessage
  | message =>
    have hmessage : st.message = some item := hslot
    cases hreasoning : st.reasoning with
    | some other => simp [slotIds, hreasoning, hmessage] at hle
    | none =>
      refine ⟨by simp [slotIds, hreasoning, hmessage], fun d hd => ?_⟩
      cases d
      · exact hreasoning
      · exact absurd rfl hd

/-- A call and a text item have different ids. -/
theorem call_ne_text {index : ℕ} (hannounced : (st.callAt index).announced = true) {c : Channel}
    {item : TextItem} (hslot : st.slot c = some item) : (st.callAt index).id ≠ item.id := by
  have hcall := (h.consistent.calls index (h.consistent.announced index hannounced)).1
  rw [hcall, h.consistent.slots c item hslot]
  intro heq
  have htag := itemId_tag (by decide) (by cases c <;> decide) heq
  cases c <;> exact absurd htag (by decide)

/-- The text item that is being sent is ended. -/
theorem closeText {c : Channel} {current : TextItem} (hslot : st.slot c = some current)
    (parts : List Value) :
    ({ (st.setSlot c none).emit "response.output_item.done"
        [("output_index", .ofNat current.outputIndex),
          ("item", c.item current.id "completed" parts)] with
      output := st.output ++ [c.item current.id "completed" parts] } : Synthesis).Sound := by
  have hc := h.consistent
  obtain ⟨hid, htext⟩ := c.item_reads current.id "completed" parts
  -- The item is the only text that is open, so none is left.
  obtain ⟨htexts, hother⟩ := h.slot_unique hslot
  obtain ⟨hledger, hview⟩ := h.ledger.finish (i := current.outputIndex) hid (h.slot_live hslot)
    (fun _ => by rw [htexts]; exact List.mem_singleton_self _)
  rw [if_pos htext] at hview
  have hbeside := beside_setSlot c none st
  have hslots (d : Channel) : (st.setSlot c none).slot d = none := by
    by_cases hd : d = c
    · rw [hd, slot_setSlot]
    · rw [slot_setSlot_of_ne hd, hother d hd]
  generalize hst' : ({ (st.setSlot c none).emit _ _ with output := _ } : Synthesis) = st'
  have hpending : st'.pending = st.pending ++ [doneEvent st.pending.length current.outputIndex
      (c.item current.id "completed" parts)] := by
    rw [← hst', ← h.sequence, ← hbeside.sequence, ← hbeside.pending]
    rfl
  have hsequence : st'.sequence = st.sequence + 1 := by
    rw [← hst', ← hbeside.sequence]
    rfl
  have hcalls : st'.calls = st.calls := hst' ▸ hbeside.calls
  have hstem : st'.idStem = st.idStem := hst' ▸ hbeside.idStem
  have hnext : st'.nextOutputIndex = st.nextOutputIndex := hst' ▸ hbeside.nextOutputIndex
  have hslots' (d : Channel) : st'.slot d = none := by
    rw [← hslots d, ← hst']
    exact slot_congr rfl rfl d
  refine ⟨hpending ▸ hledger, by simp [hsequence, hpending, h.sequence],
    hpending ▸ opening_append h.opening _, ?_⟩
  rw [hpending, hview]
  refine ⟨hc.toCallsApart.mono hcalls hstem (by omega) fun i hi => .inl hi, ?_, ?_, ?_, ?_, ?_⟩
  · rw [← hst', ← hc.output]
  · have hreasoning : st'.reasoning = none := hslots' .reasoning
    have hmessage : st'.message = none := hslots' .message
    simp [htexts, slotIds, hreasoning, hmessage]
  · intro id
    simp only [hslots', callAt_congr hcalls, List.mem_filter, hc.live, decide_eq_true_eq]
    constructor
    · rintro ⟨⟨d, item, hitem, rfl⟩ | hcall, hne⟩
      · by_cases hd : d = c
        · rw [hd, hslot] at hitem
          exact absurd (congrArg some (congrArg TextItem.id (Option.some_inj.mp hitem.symm))) hne
        · rw [hother d hd] at hitem
          cases hitem
      · exact .inr hcall
    · rintro (⟨d, item, hitem, -⟩ | ⟨index, hannounced, rfl⟩)
      · cases hitem
      · refine ⟨.inr ⟨index, hannounced, rfl⟩, ?_⟩
        -- A call is never mistaken for the text: their ids carry different tags.
        intro heq
        exact h.call_ne_text hannounced hslot (Option.some_inj.mp heq)
  · intro p hp
    rw [hnext]
    simp only [itemId_congr hstem]
    exact hc.added p hp
  · intro d item hitem
    rw [hslots' d] at hitem
    cases hitem

/-! ### Tool calls -/

/-- What is known of the calls changes, but not their ids, nor which are announced. -/
theorem updateCalls {calls : List PendingCall}
    (hsame : ∀ index, (calls.getD index {}).id = (st.callAt index).id ∧
      (calls.getD index {}).outputIndex = (st.callAt index).outputIndex ∧
      (calls.getD index {}).announced = (st.callAt index).announced) :
    ({ st with calls } : Synthesis).Sound := by
  have hc := h.consistent
  have hid (index : ℕ) : (callAt index { st with calls }).id = (st.callAt index).id :=
    (hsame index).1
  have hindex (index : ℕ) :
      (callAt index { st with calls }).outputIndex = (st.callAt index).outputIndex :=
    (hsame index).2.1
  have hannounced (index : ℕ) :
      (callAt index { st with calls }).announced = (st.callAt index).announced :=
    (hsame index).2.2
  refine h.of_eq rfl rfl ⟨⟨?_, ?_, ?_, ?_⟩, hc.output, hc.texts, ?_, hc.added, hc.slots⟩
  · intro index
    rw [hid, hannounced]
    exact hc.announced index
  · intro index
    rw [hid, hindex]
    exact hc.calls index
  · intro index
    rw [hid, hindex, hannounced]
    exact hc.reserved index
  · intro i j
    rw [hid, hid, hindex, hindex]
    exact hc.distinct i j
  · intro id
    simp only [hid, hannounced]
    exact hc.live id

/-- A call gets its id and its index in the output. -/
theorem reserve {index : ℕ} (hi : index < st.calls.length) (hempty : (st.callAt index).id = "") :
    ({ st with nextOutputIndex := st.nextOutputIndex + 1 }.setCall index
      { st.callAt index with
        outputIndex := st.nextOutputIndex
        id := st.itemId "fc" st.nextOutputIndex } : Synthesis).Sound := by
  have hc := h.consistent
  have hnew := (h.next_fresh "fc").2
  generalize hst' : setCall index _ _ = st'
  have hat : st'.callAt index = { st.callAt index with
      outputIndex := st.nextOutputIndex
      id := st.itemId "fc" st.nextOutputIndex } := by
    rw [← hst', callAt_setCall (by exact hi)]
  have hne {i : ℕ} (h : i ≠ index) : st'.callAt i = st.callAt i := by
    rw [← hst', callAt_setCall_of_ne h]
    rfl
  have hnot : (st.callAt index).announced = false := by
    cases hannounced : (st.callAt index).announced with
    | false => rfl
    | true => exact absurd hempty (hc.announced index hannounced)
  have hother {i : ℕ} (hann : (st.callAt i).announced = true) : i ≠ index := by
    intro heq
    rw [heq, hnot] at hann
    cases hann
  have hstem : st'.idStem = st.idStem := by rw [← hst']; rfl
  have hnext : st'.nextOutputIndex = st.nextOutputIndex + 1 := by rw [← hst']; rfl
  have hannounced (i : ℕ) : (st'.callAt i).announced = (st.callAt i).announced := by
    by_cases hi : i = index
    · rw [hi, hat]
    · rw [hne hi]
  have hslots (c : Channel) : st'.slot c = st.slot c := by
    rw [← hst']
    exact slot_congr rfl rfl c
  refine h.of_eq (by rw [← hst']; rfl) (by rw [← hst']; rfl) ⟨⟨?_, ?_, ?_, ?_⟩,
    by rw [← hst']; exact hc.output, by rw [← hst']; exact hc.texts, ?_, ?_, ?_⟩
  · intro i hann
    rw [hannounced] at hann
    rw [hne (hother hann)]
    exact hc.announced i hann
  · intro i hid
    rw [itemId_congr hstem, hnext]
    by_cases hi : i = index
    · rw [hi, hat]
      exact ⟨rfl, Nat.lt_succ_self _⟩
    · rw [hne hi] at hid ⊢
      obtain ⟨hid, hlt⟩ := hc.calls i hid
      exact ⟨hid, by omega⟩
  · intro i hid hnot'
    by_cases hi : i = index
    · rw [hi, hat]
      exact hnew
    · rw [hne hi] at hid hnot' ⊢
      exact hc.reserved i hid hnot'
  · intro i j hij hidi hidj
    -- The index that was taken is larger than those of the other calls.
    by_cases hi : i = index
    · have hj : j ≠ index := fun hj => hij (hi.trans hj.symm)
      rw [hne hj] at hidj ⊢
      rw [hi, hat]
      have := (hc.calls j hidj).2
      exact Ne.symm (by simpa using Nat.ne_of_lt this)
    · rw [hne hi] at hidi ⊢
      by_cases hj : j = index
      · rw [hj, hat]
        exact Nat.ne_of_lt (hc.calls i hidi).2
      · rw [hne hj] at hidj ⊢
        exact hc.distinct i j hij hidi hidj
  · intro id
    rw [hc.live]
    simp only [hslots, hannounced]
    refine or_congr_right (exists_congr fun i => and_congr_right fun hann => ?_)
    rw [hne (hother hann)]
  · intro p hp
    obtain ⟨tag, i, hpair, hi⟩ := hc.added p hp
    refine ⟨tag, i, ?_, by omega⟩
    rw [itemId_congr hstem]
    exact hpair
  · intro c item hslot
    rw [itemId_congr hstem]
    rw [hslots] at hslot
    exact hc.slots c item hslot

/-- A call is announced. -/
theorem announce {index : ℕ} (hi : index < st.calls.length) (hid : (st.callAt index).id ≠ "")
    (hnot : (st.callAt index).announced = false) :
    ((st.setCall index { st.callAt index with announced := true }).emit
      "response.output_item.added" [("output_index", .ofNat (st.callAt index).outputIndex),
        ("item", (st.callAt index).item "in_progress" "")]).Sound := by
  have hc := h.consistent
  obtain ⟨hcallId, hlt⟩ := hc.calls index hid
  have hnewIndex := hc.reserved index hid hnot
  -- Every item that was added has the id of its index, and no item was added at this one.
  have hnewId : some (st.callAt index).id ∉ (view st.pending).added.map Prod.fst := by
    intro hmem
    obtain ⟨p, hp, hfst⟩ := List.mem_map.mp hmem
    obtain ⟨tag, i, hpair, -⟩ := hc.added p hp
    rw [hcallId, hpair, Option.some_inj] at hfst
    apply hnewIndex
    rw [← itemId_index hfst]
    exact List.mem_map.mpr ⟨p, hp, by rw [hpair]⟩
  obtain ⟨hitemId, hnotText⟩ := (st.callAt index).item_reads "in_progress" ""
  obtain ⟨hledger, hview⟩ := h.ledger.add hitemId hnewId hnewIndex (by simp [hnotText])
  rw [if_neg (by simp [hnotText])] at hview
  generalize hst' : emit "response.output_item.added" _ _ = st'
  have hpending : st'.pending = st.pending ++ [addedEvent st.pending.length
      (st.callAt index).outputIndex ((st.callAt index).item "in_progress" "")] := by
    rw [← hst', ← h.sequence]
    rfl
  have hat : st'.callAt index = { st.callAt index with announced := true } := by
    rw [← hst', callAt_emit, callAt_setCall hi]
  have hne {i : ℕ} (h : i ≠ index) : st'.callAt i = st.callAt i := by
    rw [← hst', callAt_emit, callAt_setCall_of_ne h]
  have hslot (c : Channel) : st'.slot c = st.slot c := by
    rw [← hst']
    exact slot_congr rfl rfl c
  have hids (i : ℕ) : (st'.callAt i).id = (st.callAt i).id ∧
      (st'.callAt i).outputIndex = (st.callAt i).outputIndex := by
    by_cases hi : i = index
    · rw [hi, hat]
      exact ⟨rfl, rfl⟩
    · rw [hne hi]
      exact ⟨rfl, rfl⟩
  have hstem : st'.idStem = st.idStem := by rw [← hst']; rfl
  have hnext : st'.nextOutputIndex = st.nextOutputIndex := by rw [← hst']; rfl
  have hsequence : st'.sequence = st.sequence + 1 := by rw [← hst']; rfl
  refine ⟨hpending ▸ hledger, by simp [hsequence, hpending, h.sequence],
    hpending ▸ opening_append h.opening _, ?_⟩
  rw [hpending, hview]
  refine ⟨⟨?_, ?_, ?_, ?_⟩, by rw [← hst']; exact hc.output, by rw [← hst']; exact hc.texts,
    ?_, ?_, ?_⟩
  · intro i hann
    rw [(hids i).1]
    by_cases hi : i = index
    · rw [hi]
      exact hid
    · rw [hne hi] at hann
      exact hc.announced i hann
  · intro i
    rw [(hids i).1, (hids i).2, itemId_congr hstem, hnext]
    exact hc.calls i
  · intro i hidi hnoti
    have hi : i ≠ index := by
      rintro rfl
      rw [hat] at hnoti
      cases hnoti
    rw [hne hi] at hidi hnoti ⊢
    have hindices := hc.distinct i index hi hidi hid
    simp only [List.map_append, List.map_cons, List.map_nil, List.mem_append, List.mem_singleton,
      not_or, Option.some_inj]
    exact ⟨hc.reserved i hidi hnoti, hindices⟩
  · intro i j
    rw [(hids i).1, (hids i).2, (hids j).1, (hids j).2]
    exact hc.distinct i j
  · intro id
    simp only [hslot, List.mem_append, List.mem_singleton, hc.live]
    constructor
    · rintro ((hslot | ⟨i, hann, rfl⟩) | rfl)
      · exact .inl hslot
      · have hi : i ≠ index := by
          rintro rfl
          rw [hnot] at hann
          cases hann
        exact .inr ⟨i, by rw [hne hi]; exact hann, by rw [hne hi]⟩
      · exact .inr ⟨index, by rw [hat], by rw [hat]⟩
    · rintro (hslot | ⟨i, hann, rfl⟩)
      · exact .inl (.inl hslot)
      · by_cases hi : i = index
        · right
          rw [hi, hat]
        · rw [hne hi] at hann ⊢
          exact .inl (.inr ⟨i, hann, rfl⟩)
  · intro p hp
    simp only [itemId_congr hstem, hnext]
    rcases List.mem_append.mp hp with hp | hp
    · exact hc.added p hp
    · refine ⟨"fc", (st.callAt index).outputIndex, ?_, hlt⟩
      rw [List.mem_singleton.mp hp, ← hcallId]
  · intro c item hitem
    rw [itemId_congr hstem]
    rw [hslot] at hitem
    exact hc.slots c item hitem

/-- A call that was not announced is forgotten. -/
theorem forget {call : PendingCall} {calls : List PendingCall} (hcalls : st.calls = call :: calls)
    (hnot : call.announced = false) : ({ st with calls } : Synthesis).Sound := by
  have hc := h.consistent
  have hat : ∀ index, callAt index { st with calls } = st.callAt (index + 1) :=
    callAt_tail hcalls
  have hzero : st.callAt 0 = call := callAt_zero hcalls
  refine h.of_eq rfl rfl ⟨hc.toCallsApart.tail hcalls rfl rfl rfl, hc.output, hc.texts, ?_,
    hc.added, hc.slots⟩
  intro id
  rw [hc.live]
  refine or_congr_right ⟨?_, ?_⟩
  · rintro ⟨index, hannounced, rfl⟩
    cases index with
    | zero =>
      rw [hzero, hnot] at hannounced
      cases hannounced
    | succ index => exact ⟨index, by rw [hat]; exact hannounced, by rw [hat]⟩
  · rintro ⟨index, hannounced, rfl⟩
    rw [hat] at hannounced ⊢
    exact ⟨index + 1, hannounced, rfl⟩

/-- A call that was announced is ended. -/
theorem endCall {call : PendingCall} {calls : List PendingCall}
    (hcalls : st.calls = call :: calls) (hannounced : call.announced = true) (text : String) :
    ({ st.emit "response.output_item.done"
        [("output_index", .ofNat call.outputIndex), ("item", call.item "completed" text)] with
      calls
      output := st.output ++ [call.item "completed" text] } : Synthesis).Sound := by
  have hc := h.consistent
  have hzero : st.callAt 0 = call := callAt_zero hcalls
  obtain ⟨hitemId, hnotText⟩ := call.item_reads "completed" text
  have hlive : some call.id ∈ (view st.pending).live := by
    have hann : (st.callAt 0).announced = true := by
      rw [hzero]
      exact hannounced
    have hmem := h.call_live hann
    rwa [hzero] at hmem
  obtain ⟨hledger, hview⟩ := h.ledger.finish (i := call.outputIndex) hitemId hlive
    (by simp [hnotText])
  rw [if_neg (by simp [hnotText])] at hview
  generalize hst' : ({ st.emit _ _ with calls, output := _ } : Synthesis) = st'
  have hpending : st'.pending = st.pending ++ [doneEvent st.pending.length call.outputIndex
      (call.item "completed" text)] := by
    rw [← hst', ← h.sequence]
    rfl
  have hcalls' : st.calls = call :: st'.calls := by rw [← hst', hcalls]
  have hat : ∀ index, st'.callAt index = st.callAt (index + 1) := callAt_tail hcalls'
  have hslot (c : Channel) : st'.slot c = st.slot c := by
    rw [← hst']
    exact slot_congr rfl rfl c
  have hstem : st'.idStem = st.idStem := by rw [← hst']; rfl
  have hnext : st'.nextOutputIndex = st.nextOutputIndex := by rw [← hst']; rfl
  have hsequence : st'.sequence = st.sequence + 1 := by rw [← hst']; rfl
  -- The ids of the other calls differ, because their indices do.
  have hother (index : ℕ) (hann : (st.callAt (index + 1)).announced = true) :
      (st.callAt (index + 1)).id ≠ call.id := by
    have hid := hc.announced (index + 1) hann
    have hid₀ : (st.callAt 0).id ≠ "" := hc.announced 0 (by rw [hzero]; exact hannounced)
    have hindices := hc.distinct (index + 1) 0 (by omega) hid hid₀
    rw [← hzero, (hc.calls _ hid).1, (hc.calls _ hid₀).1]
    exact fun heq => hindices (itemId_index heq)
  refine ⟨hpending ▸ hledger, by simp [hsequence, hpending, h.sequence],
    hpending ▸ opening_append h.opening _, ?_⟩
  rw [hpending, hview]
  refine ⟨hc.toCallsApart.tail hcalls' hstem hnext rfl, by rw [← hst', ← hc.output],
    by rw [← hst']; exact hc.texts, ?_, ?_, ?_⟩
  · intro id
    simp only [hslot, hat, List.mem_filter, hc.live, decide_eq_true_eq]
    constructor
    · rintro ⟨hslot | ⟨index, hann, rfl⟩, hne⟩
      · exact .inl hslot
      · cases index with
        | zero =>
          rw [hzero] at hne
          exact absurd rfl hne
        | succ index => exact .inr ⟨index, hann, rfl⟩
    · rintro (⟨c, item, hitem, rfl⟩ | ⟨index, hann, rfl⟩)
      · refine ⟨.inl ⟨c, item, hitem, rfl⟩, fun heq => ?_⟩
        have hann : (st.callAt 0).announced = true := by
          rw [hzero]
          exact hannounced
        have hne := h.call_ne_text hann hitem
        rw [hzero] at hne
        exact hne (Option.some_inj.mp heq).symm
      · exact ⟨.inr ⟨index + 1, hann, rfl⟩, fun heq => hother index hann (Option.some_inj.mp heq)⟩
  · intro p hp
    simp only [itemId_congr hstem, hnext]
    exact hc.added p hp
  · intro c item hitem
    rw [itemId_congr hstem]
    rw [hslot] at hitem
    exact hc.slots c item hitem

/-- The text of the item that is being sent grows. -/
theorem extendText {c : Channel} {current : TextItem} (hslot : st.slot c = some current)
    (text : String) : (st.setSlot c (some { current with text })).Sound := by
  have hc := h.consistent
  -- The item keeps its id and its place, and only its text changes.
  have hslots (d : Channel) (item : TextItem)
      (hitem : (st.setSlot c (some { current with text })).slot d = some item) :
      ∃ item', st.slot d = some item' ∧ item'.id = item.id ∧
        item'.outputIndex = item.outputIndex := by
    by_cases hd : d = c
    · subst hd
      rw [slot_setSlot, Option.some_inj] at hitem
      exact ⟨current, hslot, by rw [← hitem], by rw [← hitem]⟩
    · rw [slot_setSlot_of_ne hd] at hitem
      exact ⟨item, hitem, rfl, rfl⟩
  have hslots' (d : Channel) (item : TextItem) (hitem : st.slot d = some item) :
      ∃ item', (st.setSlot c (some { current with text })).slot d = some item' ∧
        item'.id = item.id := by
    by_cases hd : d = c
    · subst hd
      rw [hslot, Option.some_inj] at hitem
      exact ⟨_, slot_setSlot d _ st, by rw [← hitem]⟩
    · exact ⟨item, by rw [slot_setSlot_of_ne hd]; exact hitem, rfl⟩
  have hids : (st.setSlot c (some { current with text })).slotIds = st.slotIds := by
    cases c
    · simp [slotIds, setSlot, show st.reasoning = some current from hslot]
    · simp [slotIds, setSlot, show st.message = some current from hslot]
  have hbeside := beside_setSlot c (some { current with text }) st
  generalize st.setSlot c (some { current with text }) = st' at *
  have hcalls := hbeside.calls
  have hstem := hbeside.idStem
  have hnext := hbeside.nextOutputIndex
  refine h.of_eq hbeside.pending hbeside.sequence
    ⟨hc.toCallsApart.mono hcalls hstem (by omega) fun i hi => .inl hi, ?_, ?_, ?_, ?_, ?_⟩
  · rw [← hc.output, hbeside.output]
  · rw [hc.texts, hids]
  · intro id
    rw [hc.live]
    simp only [callAt_congr hcalls]
    refine or_congr_left ⟨?_, ?_⟩
    · rintro ⟨d, item, hitem, rfl⟩
      obtain ⟨item', hitem', hid⟩ := hslots' d item hitem
      exact ⟨d, item', hitem', by rw [hid]⟩
    · rintro ⟨d, item, hitem, rfl⟩
      obtain ⟨item', hitem', hid, -⟩ := hslots d item hitem
      exact ⟨d, item', hitem', by rw [hid]⟩
  · intro p hp
    simp only [itemId_congr hstem, hnext]
    exact hc.added p hp
  · intro d item hitem
    obtain ⟨item', hitem', hid, hindex⟩ := hslots d item hitem
    rw [itemId_congr hstem, ← hid, ← hindex]
    exact hc.slots d item' hitem'

end Sound

/-! ## Every step keeps the agreement -/

/-- An event and a change of an open item can be taken in either order. -/
theorem setSlot_emit (c : Channel) (item : Option TextItem) (kind : String)
    (body : List (String × Value)) (st : Synthesis) :
    (st.emit kind body).setSlot c item = (st.setSlot c item).emit kind body := by
  cases c <;> rfl

/-- One step keeps a response sound. -/
theorem Step.sound {serde : Serde} {st st' : Synthesis} (hstep : Step serde st st')
    (h : st.Sound) : st'.Sound := by
  cases hstep with
  | openItem c hslots =>
    have hopened := h.openText c hslots
    -- The part is announced after the item, so the slot can be set before it.
    have heq : st.openItem c = ((({ st with nextOutputIndex := st.nextOutputIndex + 1 }.emit
        "response.output_item.added" [("output_index", .ofNat st.nextOutputIndex),
          ("item", c.item (st.itemId c.idTag st.nextOutputIndex) "in_progress" [])]).setSlot c
        (some ⟨st.itemId c.idTag st.nextOutputIndex, st.nextOutputIndex, ""⟩)).emit
        c.partAddedKind [("item_id", .string (st.itemId c.idTag st.nextOutputIndex)),
          ("output_index", .ofNat st.nextOutputIndex), (c.indexKey, .ofNat 0),
          ("part", c.part "")]) := by
      rw [Synthesis.openItem, hslots c, ← setSlot_emit]
    rw [heq]
    refine hopened.emit_update (isUpdateOf (by cases c <;> decide) _ _ _ ?_)
      (hopened.slot_live (slot_setSlot c _ _))
    cases c <;> simp [Channel.indexKey]
  | @extendItem c item delta hslot =>
    rw [Synthesis.extendItem, hslot]
    have hextended := h.extendText hslot (item.text ++ delta)
    have hlive := hextended.slot_live
      (slot_setSlot c (some { item with text := item.text ++ delta }) st)
    refine hextended.emit_update (isUpdateOf (by cases c <;> decide) _ _ _ ?_) hlive
    cases c <;> simp [Channel.indexKey]
  | @closeItem c item hslot =>
    -- Three events are sent: the text, the part and the item, which is open until the last.
    have htextDone : (st.emit c.textDoneKind
        [("item_id", .string item.id), ("output_index", .ofNat item.outputIndex),
          (c.indexKey, .ofNat 0), ("text", .string item.text)]).Sound := by
      refine h.emit_update (isUpdateOf (by cases c <;> decide) _ _ _ ?_) (h.slot_live hslot)
      cases c <;> simp [Channel.indexKey]
    generalize hst₁ : st.emit c.textDoneKind _ = st₁ at htextDone
    have hslot₁ : st₁.slot c = some item := by rw [← hst₁, slot_emit, hslot]
    have hpartDone : (st₁.emit c.partDoneKind
        [("item_id", .string item.id), ("output_index", .ofNat item.outputIndex),
          (c.indexKey, .ofNat 0), ("part", c.part item.text)]).Sound := by
      refine htextDone.emit_update (isUpdateOf (by cases c <;> decide) _ _ _ ?_)
        (htextDone.slot_live hslot₁)
      cases c <;> simp [Channel.indexKey]
    generalize hst₂ : st₁.emit c.partDoneKind _ = st₂ at hpartDone
    have hslot₂ : st₂.slot c = some item := by rw [← hst₂, slot_emit, hslot₁]
    have hclosed := hpartDone.closeText hslot₂ [c.part item.text]
    have heq : st.closeItem c = { (st₂.setSlot c none).emit "response.output_item.done"
        [("output_index", .ofNat item.outputIndex),
          ("item", c.item item.id "completed" [c.part item.text])] with
        output := st₂.output ++ [c.item item.id "completed" [c.part item.text]] } := by
      rw [Synthesis.closeItem, hslot, ← hst₂, ← hst₁, setSlot_emit, setSlot_emit]
      cases c <;> rfl
    rw [heq]
    exact hclosed
  | @reserveCall index hi hempty =>
    rw [Synthesis.reserveCall, if_pos hempty]
    exact h.reserve hi hempty
  | @updateCall index hi entry hid hindex hannounced =>
    refine h.updateCalls fun i => ?_
    have heq : (st.calls.set index entry).getD i {} = (st.setCall index entry).callAt i := rfl
    rw [heq]
    -- Only one entry of the table changes, and it keeps its id and its place.
    by_cases hi' : i = index
    · rw [hi', callAt_setCall hi]
      exact ⟨hid, hindex, hannounced⟩
    · rw [callAt_setCall_of_ne hi']
      exact ⟨rfl, rfl, rfl⟩
  | announceCall hi hid hnot => exact h.announce hi hid hnot
  | sendArguments hi hannounced fragment =>
    refine h.emit_update (isUpdateOf (by decide) _ _ _ (by simp)) (h.call_live hannounced)
  | @closeCall call calls hcalls hannounced =>
    have hzero : st.callAt 0 = call := callAt_zero hcalls
    have hann : (st.callAt 0).announced = true := by
      rw [hzero]
      exact hannounced
    have hlive := h.call_live hann
    rw [hzero] at hlive
    -- The input of a freeform call is sent in one piece before it is done.
    cases hfreeform : call.freeform with
    | false =>
      have hargs : (st.emit "response.function_call_arguments.done"
          [("item_id", .string call.id), ("output_index", .ofNat call.outputIndex),
            ("arguments", .string (callText serde call))]).Sound :=
        h.emit_update (isUpdateOf (by decide) _ _ _ (by simp)) hlive
      have hended := hargs.endCall hcalls hannounced (callText serde call)
      rw [closeToolCall, if_neg (by simp [hfreeform])]
      exact hended
    | true =>
      have hdelta : (st.emit "response.custom_tool_call_input.delta"
          [("item_id", .string call.id), ("output_index", .ofNat call.outputIndex),
            ("delta", .string (callText serde call))]).Sound :=
        h.emit_update (isUpdateOf (by decide) _ _ _ (by simp)) hlive
      have hlive' := hdelta.call_live hann
      rw [callAt_emit, hzero] at hlive'
      have hinput := hdelta.emit_update
        (isUpdateOf (show "response.custom_tool_call_input.done" ∈ updateKinds by decide) _
          call.outputIndex _ (show ∀ p ∈ [("input", Value.string (callText serde call))],
            p.1 ≠ "item_id" ∧ p.1 ≠ "item" by simp)) hlive'
      have hended := hinput.endCall hcalls hannounced (callText serde call)
      rw [closeToolCall, if_pos hfreeform]
      exact hended
  | forgetCall hcalls hnot => exact h.forget hcalls hnot

/-- One move keeps a response sound. -/
theorem Move.sound {serde : Serde} {st st' : Synthesis} (hmove : Move serde st st')
    (h : st.Sound) : st'.Sound := by
  cases hmove with
  | usage usage =>
    have hc := h.consistent
    exact h.of_eq rfl rfl { hc with }
  | growCalls index =>
    have hat (i : ℕ) : (st.growCalls index).calls.getD i {} = st.callAt i := by
      unfold Synthesis.growCalls
      dsimp only
      by_cases hi : i < st.calls.length
      · exact List.getD_append _ _ _ _ hi
      · rw [List.getD_append_right _ _ _ _ (Nat.le_of_not_lt hi), callAt,
          List.getD_eq_default _ _ (Nat.le_of_not_lt hi)]
        exact List.getElem?_getD_replicate_default_eq _ _ _
    have hgrown : ({ st with calls := (st.growCalls index).calls } : Synthesis).Sound :=
      h.updateCalls fun i => by
        rw [hat]
        exact ⟨rfl, rfl, rfl⟩
    have hc := hgrown.consistent
    exact hgrown.of_eq rfl rfl { hc with }
  | step hstep => exact hstep.sound h

/-- A sequence of moves keeps a response sound. -/
theorem Moves.sound {serde : Serde} {st st' : Synthesis} (hmoves : Moves serde st st')
    (h : st.Sound) : st'.Sound := by
  induction hmoves with
  | refl => exact h
  | tail _ hmove ih => exact hmove.sound ih

/-- A sequence of steps keeps a response sound. -/
theorem Steps.sound {serde : Serde} {st st' : Synthesis} (hsteps : Steps serde st st')
    (h : st.Sound) : st'.Sound :=
  (Steps.moves serde hsteps).sound h

/-! ## The start and the end -/

/-- An event that concerns no item. -/
structure IsNeutral (n : ℕ) (e : Event) : Prop where
  number : e.sequenceNumber = some n
  mark : e.mark = .neutral
  textMark : e.textMark = .neutral
  added : e.isAdded = false
  done : e.isDone = false

/-- The kinds of the events that start or end a stream. -/
def lifecycleKinds : List String :=
  ["error", "response.created", "response.in_progress", "response.completed",
    "response.incomplete"]

/-- An event that starts or ends a stream concerns no item. -/
theorem isNeutral {kind : String} (hkind : kind ∈ lifecycleKinds) (n : ℕ)
    {body : List (String × Value)} (hbody : ∀ p ∈ body, p.1 ≠ "item") :
    IsNeutral n (.of n kind body) := by
  have hkinds : ∀ kind ∈ lifecycleKinds, kind ≠ "response.output_item.added" ∧
      kind ≠ "response.output_item.done" ∧
      [".delta", ".done", "_part.added"].any
        (fun ending => ending.toList.isSuffixOf kind.toList) = false := by
    decide
  obtain ⟨hadded, hdone, hupdate⟩ := hkinds kind hkind
  have hitem : (Map.ofEntries body).get "item" = none := Map.get_ofEntries_of_notMem hbody
  generalize he : Event.of n kind body = e
  have hkind' : e.kind = kind := by rw [← he, Event.of]
  have hisAdded : e.isAdded = false := by simp [Event.isAdded, hkind', hadded]
  have hisDone : e.isDone = false := by simp [Event.isDone, hkind', hdone]
  have hisUpdate : e.isUpdate = false := by rw [Event.isUpdate, hkind', hupdate]
  have hisText : e.isText = false := by simp [← he, Event.isText, Event.item, Event.of, hitem]
  constructor
  · simp [← he, Event.of, Event.sequenceNumber]
  · simp [Event.mark, hisAdded, hisDone, hisUpdate]
  · simp [Event.textMark, hisText]
  · exact hisAdded
  · exact hisDone

/-- An event that concerns no item changes nothing of what the events say of the items. -/
theorem view_neutral {es : List Event} {n : ℕ} {e : Event} (he : IsNeutral n e) :
    view (es ++ [e]) = view es := by
  have hlive : live (marks (es ++ [e])) = live (marks es) := by
    rw [marks_concat, he.mark, live_concat_neutral]
  have htexts : live (textMarks (es ++ [e])) = live (textMarks es) := by
    rw [textMarks_concat, he.textMark, live_concat_neutral]
  simp only [view, hlive, htexts, doneItems, List.filter_append, List.filter_singleton, he.added,
    he.done, cond_false, List.append_nil]

/-- An event that concerns no item and does not end the stream keeps the log. -/
theorem ledger_neutral {es : List Event} (h : Ledger es) {e : Event}
    (he : IsNeutral es.length e) (hterminal : e.isTerminal = false) : Ledger (es ++ [e]) := by
  refine h.concat he.number hterminal (by rw [he.mark]; trivial)
    (by rw [he.textMark]; trivial) ?_ (by simp [he.added])
  rw [textMarks_concat, he.textMark, live_concat_neutral]
  exact h.texts es (List.prefix_refl es)

/-- The ledger holds of no events. -/
theorem ledger_nil : Ledger [] where
  numbered := by simp
  goesOn := by simp
  added := by simp
  brackets := .nil
  textBrackets := .nil
  indices := List.nodup_nil
  texts := by
    intro before hbefore
    rw [List.prefix_nil.mp hbefore]
    exact Nat.zero_le _

/-- A response is sound after its start. -/
theorem start_sound (model requestKey : String) (tools : ToolNames) (chunk : Value) :
    (start chunk { model, requestKey, tools }).Sound := by
  generalize hst : start chunk { model, requestKey, tools } = st
  have hpending : ∃ response, st.pending = [.of 0 "response.created" [("response", response)],
      .of 1 "response.in_progress" [("response", response)]] := by
    rw [← hst]
    exact ⟨_, rfl⟩
  obtain ⟨response, hpending⟩ := hpending
  have hcreated : IsNeutral 0 (.of 0 "response.created" [("response", response)]) :=
    isNeutral (by decide) 0 (by simp)
  have hprogress : IsNeutral 1 (.of 1 "response.in_progress" [("response", response)]) :=
    isNeutral (by decide) 1 (by simp)
  have hterminal {kind : String} (hkind : kind = "response.created" ∨
      kind = "response.in_progress") (n : ℕ) :
      (Event.of n kind [("response", response)]).isTerminal = false := by
    rcases hkind with rfl | rfl <;> simp [Event.isTerminal, Event.of]
  have hledger : Ledger st.pending := by
    rw [hpending]
    exact ledger_neutral (ledger_neutral ledger_nil hcreated (hterminal (.inl rfl) 0)) hprogress
      (hterminal (.inr rfl) 1)
  have hview : view st.pending = view [] := by
    rw [hpending]
    calc view ([.of 0 "response.created" [("response", response)]] ++
          [.of 1 "response.in_progress" [("response", response)]])
        = view ([] ++ [.of 0 "response.created" [("response", response)]]) :=
          view_neutral hprogress
      _ = view [] := view_neutral hcreated
  -- Nothing is being sent yet: the table of calls and both slots are empty.
  have hcallAt (index : ℕ) : st.callAt index = {} := by
    rw [← hst]
    rfl
  have hslot (c : Channel) : st.slot c = none := by
    rw [← hst]
    cases c <;> rfl
  refine ⟨hledger, by rw [hpending, ← hst]; rfl, ⟨_, _, [], hpending, rfl, rfl⟩, ?_⟩
  rw [hview]
  refine ⟨⟨?_, ?_, ?_, ?_⟩, by rw [← hst]; rfl, by rw [← hst]; rfl, ?_, by simp [view], ?_⟩
  · simp [hcallAt]
  · simp [hcallAt]
  · simp [hcallAt]
  · simp [hcallAt]
  · simp [hcallAt, hslot, view, live, marks, opened]
  · simp [hslot]

/-- A response that has begun is sound. -/
theorem Begun.sound {serde : Serde} {model requestKey : String} {tools : ToolNames}
    {st : Synthesis} (h : Begun serde { model, requestKey, tools } st) : st.Sound := by
  obtain ⟨chunk, hmoves⟩ := h
  exact hmoves.sound (start_sound model requestKey tools chunk)

/-- Ending the calls ends no other item. -/
theorem closeToolCalls_spec (serde : Serde) (st : Synthesis) :
    (st.closeToolCalls serde).calls = [] ∧ ∀ c, (st.closeToolCalls serde).slot c = st.slot c := by
  have hcall (call : PendingCall) (st : Synthesis) :
      (closeToolCall serde st call).calls = st.calls ∧
        ∀ c, (closeToolCall serde st call).slot c = st.slot c := by
    unfold closeToolCall
    split_ifs <;> exact ⟨rfl, slot_congr rfl rfl⟩
  have hfold (calls : List PendingCall) (st : Synthesis) :
      (calls.foldl (closeToolCall serde) st).calls = st.calls ∧
        ∀ c, (calls.foldl (closeToolCall serde) st).slot c = st.slot c := by
    induction calls generalizing st with
    | nil => exact ⟨rfl, fun c => rfl⟩
    | cons call calls ih =>
      obtain ⟨hcalls, hslot⟩ := ih (closeToolCall serde st call)
      obtain ⟨hcalls', hslot'⟩ := hcall call st
      exact ⟨hcalls.trans hcalls', fun c => (hslot c).trans (hslot' c)⟩
  obtain ⟨hcalls, hslot⟩ := hfold (st.calls.filter (·.announced)) { st with calls := [] }
  exact ⟨hcalls, fun c => (hslot c).trans (slot_congr rfl rfl c)⟩

/-- What is open is closed before the response is sent. -/
theorem close_all (serde : Serde) (st : Synthesis) :
    (∀ c, (st.closeReasoning.closeMessage.closeToolCalls serde).slot c = none) ∧
      (st.closeReasoning.closeMessage.closeToolCalls serde).calls = [] := by
  obtain ⟨hcalls, hslot⟩ := closeToolCalls_spec serde st.closeReasoning.closeMessage
  refine ⟨fun c => ?_, hcalls⟩
  rw [hslot, closeMessage, closeReasoning, slot_closeItem, slot_closeItem]
  cases c <;> simp

/-- The steps before the response is sent. -/
theorem close_all_moves (serde : Serde) (st : Synthesis) :
    Moves serde st (st.closeReasoning.closeMessage.closeToolCalls serde) :=
  Steps.moves serde (close_all_steps serde st)

/-- The events of a response with a terminal event are well formed. -/
theorem wellFormed_concat {es : List Event} (h : Ledger es) {last : Event}
    (hlast : IsNeutral es.length last) (hterminal : last.isTerminal = true)
    (hopening : (es = [] ∧ last.kind = "error") ∨ ∃ created inProgress after,
      es = created :: inProgress :: after ∧ created.kind = "response.created" ∧
        inProgress.kind = "response.in_progress")
    (houtput : last.kind = "response.completed" ∨ last.kind = "response.incomplete" →
      (view es).live = [] ∧ last.responseOutput = some (.array (view es).done)) :
    WellFormed (es ++ [last]) where
  numbered := numbered_concat h.numbered hlast.number
  terminal := ⟨es, last, rfl, hterminal, h.goesOn⟩
  opening := by
    rcases hopening with ⟨rfl, hkind⟩ | hopening
    · exact .inl ⟨last, rfl, hkind⟩
    · exact .inr (opening_append hopening [last])
  added := by
    intro e he hadded
    rcases List.mem_append.mp he with he | he
    · exact h.added e he hadded
    · rw [List.mem_singleton.mp he, hlast.added] at hadded
      cases hadded
  brackets := by
    intro before e after heq
    -- The last event neither opens nor closes anything.
    have hbrackets : WellBracketed (marks (es ++ [last])) := by
      rw [marks_concat, hlast.mark]
      exact .concat h.brackets trivial
    have hsplit : marks (es ++ [last]) = marks before ++ e.mark :: marks after := by
      rw [heq]
      simp [marks]
    exact hbrackets.admits hsplit
  indices := by
    have heq : addedIndices (es ++ [last]) = addedIndices es := by
      simp [addedIndices, hlast.added]
    rw [heq]
    exact h.indices
  texts := by
    intro before hbefore
    rcases List.prefix_concat_iff.mp hbefore with rfl | hbefore
    · rw [textMarks_concat, hlast.textMark, live_concat_neutral]
      exact h.texts es (List.prefix_refl es)
    · exact h.texts before hbefore
  output := by
    intro before last' heq hkind
    obtain ⟨rfl, hlast'⟩ := List.append_inj' heq rfl
    rw [← List.singleton_inj.mp hlast'] at hkind ⊢
    obtain ⟨hlive, hresponse⟩ := houtput hkind
    exact ⟨fun id hid => h.brackets.count_closed hlive hid, hresponse⟩

/-- Nothing is open when no item is being sent and there is no call. -/
theorem Sound.live_nil {st : Synthesis} (h : st.Sound) (hslots : ∀ c, st.slot c = none)
    (hcalls : st.calls = []) : (view st.pending).live = [] := by
  rw [List.eq_nil_iff_forall_not_mem]
  intro id hid
  rcases (h.consistent.live id).mp hid with ⟨c, item, hslot, -⟩ | ⟨index, hannounced, -⟩
  · rw [hslots c] at hslot
    cases hslot
  · simp [callAt, hcalls] at hannounced

/-- The event that ends a stream with an error. -/
theorem fail_pending (message : String) {st : Synthesis} (h : st.terminated = false) :
    ∃ body, (∀ p ∈ body, p.1 ≠ "item") ∧
      (st.fail message).pending = st.pending ++ [.of st.sequence "error" body] := by
  refine ⟨_, ?_, by simp only [fail, h, Bool.false_eq_true, if_false]; rfl⟩
  intro p hp
  rw [List.mem_append] at hp
  rcases hp with hp | hp
  · simp only [List.mem_cons, List.not_mem_nil, or_false] at hp
    rcases hp with rfl | rfl <;> simp
  · split_ifs at hp
    · rw [List.mem_singleton.mp hp]
      simp
    · cases hp

/-- A failure ends a sound response in good form. -/
theorem Sound.fail_wellFormed {st : Synthesis} (h : st.Sound) (hon : st.GoesOn)
    (message : String) : WellFormed (st.fail message).pending := by
  obtain ⟨body, hbody, hpending⟩ := fail_pending message hon.1
  rw [hpending, h.sequence]
  refine wellFormed_concat h.ledger (isNeutral (by decide) _ hbody) ?_ (.inr h.opening) ?_
  · simp [Event.isTerminal, Event.of]
  · simp [Event.of]

/-- A stream that fails before its first chunk is well formed. -/
theorem fresh_fail_wellFormed (model requestKey : String) (tools : ToolNames)
    (message : String) :
    WellFormed (fail message { model, requestKey, tools }).pending := by
  obtain ⟨body, hbody, hpending⟩ := fail_pending message
    (show ({ model, requestKey, tools } : Synthesis).terminated = false from rfl)
  rw [hpending]
  refine wellFormed_concat ledger_nil (isNeutral (by decide) _ hbody) ?_ (.inl ⟨rfl, rfl⟩) ?_
  · simp [Event.isTerminal, Event.of]
  · simp [Event.of]

/-- The output of the response. -/
theorem responseEnvelope_output (status : String) (reason : Option String) (st : Synthesis) :
    (st.responseEnvelope status reason true).get "output" = some (.array st.output) := by
  unfold responseEnvelope Value.obj
  rw [Value.get_object, Map.get_ofEntries]
  by_cases hreason : reason = some "length" <;> cases st.usage <;> simp [hreason]

/-- A completion with nothing open ends a sound response in good form. -/
theorem Sound.finish_wellFormed {st : Synthesis} (h : st.Sound) (hslots : ∀ c, st.slot c = none)
    (hcalls : st.calls = []) (reason : Option String) :
    WellFormed (st.finish reason).pending := by
  have hpending : (st.finish reason).pending = st.pending ++ [.of st.pending.length
      (if reason = some "length" then "response.incomplete" else "response.completed")
      [("response", st.responseEnvelope
        (if reason = some "length" then "incomplete" else "completed") reason true)]] := by
    rw [← h.sequence]
    rfl
  rw [hpending]
  refine wellFormed_concat h.ledger (isNeutral (by split_ifs <;> decide) _ (by simp)) ?_
    (.inr h.opening) fun _ => ⟨h.live_nil hslots hcalls, ?_⟩
  · simp only [Event.isTerminal, Event.of]
    split_ifs <;> decide
  · simp [Event.responseOutput, Event.of, Map.ofEntries, responseEnvelope_output,
      h.consistent.output]

end Synthesis

/-- A stream that does not get stuck is a well-bracketed Responses stream. -/
theorem responsesEvents_wellFormed {serde : Serde} {upstream : List Poll}
    (h : (transcript serde upstream).Addressable) (model requestKey : String)
    (tools : ToolNames) :
    WellFormed (responsesEvents serde upstream model requestKey tools) := by
  rw [responsesEvents_eq serde h]
  have h₀ : Synthesis.Fresh { model, requestKey, tools } := ⟨⟨rfl, rfl⟩, rfl⟩
  rcases Synthesis.replay_cases serde (transcript serde upstream) h₀ with
    ⟨-, st, message, hst, heq, -⟩ | ⟨st, reason, -, hbegun, heq, -⟩
  · rw [heq]
    rcases hst with rfl | hbegun
    · exact Synthesis.fresh_fail_wellFormed model requestKey tools message
    · exact hbegun.sound.fail_wellFormed (hbegun.goesOn serde h₀) message
  · have hmoves := Synthesis.close_all_moves serde st
    have hclosed := Synthesis.close_all serde st
    rw [heq, Synthesis.complete_eq_finish serde reason (hbegun.goesOn serde h₀) hbegun.started]
    exact (hmoves.sound hbegun.sound).finish_wellFormed hclosed.1 hclosed.2 reason

/-- A stream that gets stuck yields no terminal event. -/
theorem responsesEvents_goesOn_of_stuck {serde : Serde} {upstream : List Poll}
    (h : ¬(transcript serde upstream).Addressable) (model requestKey : String)
    (tools : ToolNames) :
    ∀ e ∈ responsesEvents serde upstream model requestKey tools, e.isTerminal = false := by
  obtain ⟨chunks, -, heq⟩ := responsesEvents_stuck serde h model requestKey tools
  rw [heq]
  by_cases hnil : chunks = []
  · rw [hnil]
    exact fun e he => by cases he
  · exact (Synthesis.foldl_progress_begun serde hnil _).sound.ledger.goesOn

/-- A stream that ends with a terminal event does not get stuck. -/
theorem addressable_of_getLast {serde : Serde} {upstream : List Poll} {model requestKey : String}
    {tools : ToolNames} {kind : String}
    (hkind : kind ∈ ["error", "response.completed", "response.incomplete"])
    (hlast : (responsesEvents serde upstream model requestKey tools).getLast?.map Event.kind =
      some kind) : (transcript serde upstream).Addressable := by
  by_contra hstuck
  obtain ⟨last, hget, hlast⟩ := Option.map_eq_some_iff.mp hlast
  have hnot := responsesEvents_goesOn_of_stuck hstuck model requestKey tools last
    (List.mem_of_getLast? hget)
  rw [Event.isTerminal, hlast, decide_eq_false_iff_not] at hnot
  exact hnot hkind

/-- A stream that ends with its response does not get stuck, and its transcript does not end with an
error. -/
theorem terminal_ne_error {serde : Serde} {upstream : List Poll} {model requestKey : String}
    {tools : ToolNames} (h : ∃ kind ∈ ["response.completed", "response.incomplete"],
      (responsesEvents serde upstream model requestKey tools).getLast?.map Event.kind =
        some kind) :
    (transcript serde upstream).Addressable ∧ (transcript serde upstream).terminal ≠ "error" := by
  obtain ⟨kind, hkind, hlast⟩ := h
  have haddressable := addressable_of_getLast (List.mem_cons_of_mem _ hkind) hlast
  refine ⟨haddressable, ?_⟩
  rw [responsesEvents_getLast serde haddressable] at hlast
  rw [Option.some.inj hlast]
  simp only [List.mem_cons, List.not_mem_nil, or_false] at hkind
  rcases hkind with rfl | rfl <;> decide

end MuseCodex.Zai
