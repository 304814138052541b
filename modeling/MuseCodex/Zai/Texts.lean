import MuseCodex.Zai.Calls

/-!
# The texts of a response

A completion sends text and reasoning in pieces, in any order and between the fragments of tool
calls. Each piece goes to the item of its channel that is being sent, and an item of the other
channel, or a tool call, ends it. What a channel has said so far is the text of its items that are
done and of the one that is being sent (`Synthesis.said`), and it grows by the pieces of the
chunks. An item says the same text four times: in pieces, when the text ends, when the part ends,
and when the item is done (`Told`).
-/

namespace MuseCodex.Zai

open Text Json

/-! ## Texts -/

/-- The member of a delta that has the text of a channel. -/
def Channel.contentKey : Channel → String
  | .reasoning => "reasoning_content"
  | .message => "content"

/-- The piece of a channel's text that a chunk brings. -/
def chunkText (c : Channel) (chunk : Value) : Option String :=
  ((Synthesis.firstChoice chunk).bind fun choice => (choice.get "delta").bind Value.asObject).bind
    fun delta => nonEmptyStr (delta.get c.contentKey)

/-- The type of a channel's items. -/
def Channel.typeName : Channel → String
  | .reasoning => "reasoning"
  | .message => "message"

/-- The member of an item that has its parts. -/
def Channel.partsKey : Channel → String
  | .reasoning => "summary"
  | .message => "content"

/-- The text of a part. -/
def partText (part : Value) : Option String := (part.get "text").bind Value.asStr

/-- The text of an item of a channel. -/
def itemText (c : Channel) (item : Value) : Option String :=
  if itemType item = some c.typeName then
    some (String.join (((item.get c.partsKey).bind Value.asArray).getD [] |>.filterMap partText))
  else none

/-- Whether an event is of a kind and about an item. -/
def Event.isAbout (kind : String) (id : Option String) (e : Event) : Bool :=
  e.kind = kind && e.itemRef = id

/-- What some events send of the text of an item: the text in pieces, the texts that are said to be
all of it, and the texts of the parts that end. -/
structure Sent where
  pieces : String := ""
  texts : List (Option String) := []
  parts : List (Option String) := []

/-- What some events send of the text of an item of a channel. -/
def sentText (c : Channel) (id : Option String) (es : List Event) : Sent where
  pieces := String.join ((es.filter (Event.isAbout c.deltaKind id)).filterMap fun e =>
    (e.value.get "delta").bind Value.asStr)
  texts := (es.filter (Event.isAbout c.textDoneKind id)).map fun e =>
    (e.value.get "text").bind Value.asStr
  parts := (es.filter (Event.isAbout c.partDoneKind id)).map fun e =>
    (e.value.get "part").bind partText

/-- The kinds of the events that send text. -/
def Channel.textKinds (c : Channel) : List String := [c.deltaKind, c.textDoneKind, c.partDoneKind]

/-- The text of an item that is done. -/
theorem itemText_item (c d : Channel) (id status text : String) :
    itemText c (d.item id status [d.part text]) = if c = d then some text else none := by
  cases c <;> cases d <;>
    simp [itemText, itemType, Channel.item, Channel.part, Channel.typeName, Channel.partsKey,
      partText, Value.obj, Map.ofEntries]

/-- An item that carries no text has none. -/
theorem itemText_of_not_isTextItem (c : Channel) {item : Value} (h : isTextItem item = false) :
    itemText c item = none := by
  have htype : itemType item ≠ some "reasoning" ∧ itemType item ≠ some "message" := by
    simpa [isTextItem, itemType] using h
  unfold itemText
  rw [if_neg]
  cases c
  · exact htype.1
  · exact htype.2

/-! ## What one event sends -/

/-- An event of another kind, or about another item, sends nothing of the text. -/
theorem sentText_concat_other {c : Channel} {id : Option String} {e : Event}
    (h : e.kind ∉ c.textKinds ∨ e.itemRef ≠ id) (es : List Event) :
    sentText c id (es ++ [e]) = sentText c id es := by
  have hnot : ∀ kind ∈ c.textKinds, Event.isAbout kind id e = false := by
    intro kind hkind
    unfold Event.isAbout
    rw [Bool.and_eq_false_iff, decide_eq_false_iff_not, decide_eq_false_iff_not]
    rcases h with h | h
    · exact .inl fun heq => h (heq ▸ hkind)
    · exact .inr h
  have hfilter (kind : String) (hkind : kind ∈ c.textKinds) :
      (es ++ [e]).filter (Event.isAbout kind id) = es.filter (Event.isAbout kind id) := by
    rw [List.filter_append, List.filter_cons_of_neg (by simp [hnot kind hkind]), List.filter_nil,
      List.append_nil]
  unfold sentText
  rw [hfilter c.deltaKind (by simp [Channel.textKinds]),
    hfilter c.textDoneKind (by simp [Channel.textKinds]),
    hfilter c.partDoneKind (by simp [Channel.textKinds])]

/-- The event of a kind about an item of a channel, with one more member. -/
def itemEvent (c : Channel) (id : String) (i n : ℕ) (kind : String) (member : String × Value) :
    Event :=
  .of n kind [("item_id", .string id), ("output_index", .ofNat i), (c.indexKey, .ofNat 0), member]

/-- The kinds of one channel are not those of the other. -/
theorem Channel.textKinds_disjoint {c d : Channel} (h : d ≠ c) {kind : String}
    (hkind : kind ∈ c.textKinds) : kind ∉ d.textKinds := by
  have hall : ∀ kind ∈ c.textKinds, kind ∉ d.textKinds := by
    cases c <;> cases d <;> first | exact absurd rfl h | decide
  exact hall kind hkind

section

variable (c : Channel) (id : String) (i n : ℕ) (es : List Event)

/-- An event about an item sends nothing of the text of another one. -/
theorem sentText_itemEvent {kind : String} (hkind : kind ∈ c.textKinds)
    {member : String × Value} (hmember : "item_id" ≠ member.1) {d : Channel} {ref : Option String}
    (hother : d ≠ c ∨ ref ≠ some id) :
    sentText d ref (es ++ [itemEvent c id i n kind member]) = sentText d ref es := by
  apply sentText_concat_other
  rcases hother with hd | href
  · exact .inl (Channel.textKinds_disjoint hd hkind)
  · have hid : (itemEvent c id i n kind member).itemRef = some id := by
      cases c <;>
        simp [itemEvent, Event.itemRef, Event.of, Map.ofEntries, Channel.indexKey, hmember]
    rw [hid]
    exact .inr href.symm

/-- A piece of the text. -/
theorem sentText_delta (delta : String) :
    sentText c (some id) (es ++ [itemEvent c id i n c.deltaKind ("delta", .string delta)]) =
      { sentText c (some id) es with pieces := (sentText c (some id) es).pieces ++ delta } := by
  cases c <;>
    simp [sentText, itemEvent, Event.isAbout, Event.itemRef, Event.of, Channel.deltaKind,
      Channel.textDoneKind, Channel.partDoneKind, Channel.indexKey, Map.ofEntries,
      String.join_append]

/-- The end of the text. -/
theorem sentText_textDone (text : String) :
    sentText c (some id) (es ++ [itemEvent c id i n c.textDoneKind ("text", .string text)]) =
      { sentText c (some id) es with texts := (sentText c (some id) es).texts ++ [some text] } := by
  cases c <;>
    simp [sentText, itemEvent, Event.isAbout, Event.itemRef, Event.of, Channel.deltaKind,
      Channel.textDoneKind, Channel.partDoneKind, Channel.indexKey, Map.ofEntries]

/-- The end of the part. -/
theorem sentText_partDone (text : String) :
    sentText c (some id) (es ++ [itemEvent c id i n c.partDoneKind ("part", c.part text)]) =
      { sentText c (some id) es with parts := (sentText c (some id) es).parts ++ [some text] } := by
  cases c <;>
    simp [sentText, itemEvent, Event.isAbout, Event.itemRef, Event.of, Channel.deltaKind,
      Channel.textDoneKind, Channel.partDoneKind, Channel.indexKey, Channel.part, partText,
      Value.obj, Map.ofEntries]

end

/-- Nothing is sent of the text of an item that was not added. -/
theorem Ledger.sentText_eq {es : List Event} (h : Ledger es) {id : String}
    (hid : some id ∉ Bracketing.opened (marks es)) (c : Channel) :
    sentText c (some id) es = {} := by
  have hnone (kind : String) (hkind : kind ∈ c.textKinds) :
      es.filter (Event.isAbout kind (some id)) = [] := by
    rw [List.filter_eq_nil_iff]
    intro e he habout
    rw [Event.isAbout, Bool.and_eq_true, decide_eq_true_eq, decide_eq_true_eq] at habout
    obtain ⟨rfl, href⟩ := habout
    have hkinds : ∀ d : Channel, ∀ kind ∈ d.textKinds, kind ≠ "response.output_item.added" ∧
        kind ≠ "response.output_item.done" ∧ [".delta", ".done", "_part.added"].any
          (fun ending => ending.toList.isSuffixOf kind.toList) = true := by
      intro d
      cases d <;> decide
    obtain ⟨hadded, hdone, hupdate⟩ := hkinds c _ hkind
    exact h.itemRef_ne hid he (by simp [Event.isAdded, hadded]) (by simp [Event.isDone, hdone])
      hupdate href
  unfold sentText
  rw [hnone c.deltaKind (by simp [Channel.textKinds]),
    hnone c.textDoneKind (by simp [Channel.textKinds]),
    hnone c.partDoneKind (by simp [Channel.textKinds])]
  rfl

namespace Synthesis

/-! ## What has been said -/

/-- What a channel has said: the text of its items that are done, and of the one that is being
sent. -/
def said (c : Channel) (st : Synthesis) : String :=
  String.join (st.output.filterMap (itemText c)) ++ ((st.slot c).map TextItem.text).getD ""

/-- The state has said what was received, and each item says one text, in each of the ways in which
it is sent. -/
structure Told (st : Synthesis) (received : Channel → String) : Prop where
  said : ∀ c, st.said c = received c
  done : ∀ item ∈ st.output, ∀ c text, itemText c item = some text → ∃ id, idOf item = some id ∧
    sentText c (some id) st.pending = ⟨text, [some text], [some text]⟩
  sending : ∀ c item, st.slot c = some item →
    sentText c (some item.id) st.pending = { pieces := item.text }

/-- A step that says nothing. -/
structure Mute (st st' : Synthesis) : Prop where
  slot : ∀ c, st'.slot c = st.slot c
  sent : ∀ c id, sentText c id st'.pending = sentText c id st.pending
  output : ∃ items, st'.output = st.output ++ items ∧ ∀ item ∈ items, isTextItem item = false

/-- A step that leaves the texts, the queue and the output alone is mute. -/
theorem mute_of_eq {st st' : Synthesis} (hslot : ∀ c, st'.slot c = st.slot c)
    (hpending : st'.pending = st.pending) (houtput : st'.output = st.output) : Mute st st' where
  slot := hslot
  sent c id := by rw [hpending]
  output := ⟨[], by rw [houtput, List.append_nil], nofun⟩

/-- Doing nothing is mute. -/
theorem mute_refl (st : Synthesis) : Mute st st := mute_of_eq (fun _ => rfl) rfl rfl

/-- Two mute steps are one. -/
theorem Mute.trans {st st' st'' : Synthesis} (h : Mute st st') (h' : Mute st' st'') :
    Mute st st'' where
  slot c := (h'.slot c).trans (h.slot c)
  sent c id := (h'.sent c id).trans (h.sent c id)
  output := by
    obtain ⟨items, houtput, hitems⟩ := h.output
    obtain ⟨items', houtput', hitems'⟩ := h'.output
    refine ⟨items ++ items', by rw [houtput', houtput, List.append_assoc], fun item hitem => ?_⟩
    exact (List.mem_append.mp hitem).elim (hitems item) (hitems' item)

/-- An event that is about no text is mute. -/
theorem mute_emit {kind : String} (hkind : ∀ c : Channel, kind ∉ c.textKinds)
    (body : List (String × Value)) (st : Synthesis) : Mute st (st.emit kind body) where
  slot c := slot_emit c kind body st
  sent c id := sentText_concat_other (.inl (hkind c)) st.pending
  output := ⟨[], by rw [List.append_nil]; rfl, nofun⟩

/-- What was said stays so after a step that says nothing. -/
theorem Told.mute {st st' : Synthesis} {received : Channel → String} (h : Told st received)
    (hmute : Mute st st') : Told st' received := by
  obtain ⟨items, houtput, hitems⟩ := hmute.output
  refine ⟨fun c => ?_, fun item hitem c text htext => ?_, fun c item hslot => ?_⟩
  · have hnone : items.filterMap (itemText c) = [] := by
      rw [List.filterMap_eq_nil_iff]
      exact fun item hitem => itemText_of_not_isTextItem c (hitems item hitem)
    rw [← h.said c, Synthesis.said, Synthesis.said, hmute.slot, houtput, List.filterMap_append,
      hnone, List.append_nil]
  · rw [houtput] at hitem
    rcases List.mem_append.mp hitem with hitem | hitem
    · obtain ⟨id, hid, hsent⟩ := h.done item hitem c text htext
      exact ⟨id, hid, (hmute.sent c _).trans hsent⟩
    · rw [itemText_of_not_isTextItem c (hitems item hitem)] at htext
      cases htext
  · rw [hmute.slot] at hslot
    exact (hmute.sent c _).trans (h.sending c item hslot)

/-- An item that is done is not being sent. -/
theorem Sound.done_ne_slot {st : Synthesis} (h : st.Sound) {item : Value} (hitem : item ∈ st.output)
    {c : Channel} {current : TextItem} (hslot : st.slot c = some current) :
    idOf item ≠ some current.id := by
  intro heq
  have hlive := Bracketing.mem_live.mp (h.slot_live hslot)
  apply hlive.2
  -- The event that ended the item closed its id.
  rw [h.consistent.output] at hitem
  obtain ⟨e, he, hdone⟩ := List.mem_filterMap.mp hitem
  obtain ⟨hmem, hisDone⟩ := List.mem_filter.mp he
  have hadded : e.isAdded = false := by
    have hkind : e.kind = "response.output_item.done" := by simpa [Event.isDone] using hisDone
    simp [Event.isAdded, hkind]
  have hid : e.itemId = some current.id := by rw [Event.itemId, hdone, ← heq]; rfl
  have hmark : e.mark = .closes (some current.id) := by
    rw [Event.mark, if_neg (by simp [hadded]), if_pos hisDone, hid]
  exact List.mem_filterMap.mpr ⟨e.mark, List.mem_map_of_mem hmem, by rw [hmark]⟩

/-! ## Items -/

section

variable {c : Channel} {st : Synthesis}

/-- What ending an item does. -/
theorem closeItem_spec {current : TextItem} (hslot : st.slot c = some current) :
    (st.closeItem c).output =
        st.output ++ [c.item current.id "completed" [c.part current.text]] ∧
      sentText c (some current.id) (st.closeItem c).pending =
        { sentText c (some current.id) st.pending with
          texts := (sentText c (some current.id) st.pending).texts ++ [some current.text]
          parts := (sentText c (some current.id) st.pending).parts ++ [some current.text] } ∧
      ∀ d id, d ≠ c ∨ id ≠ some current.id →
        sentText d id (st.closeItem c).pending = sentText d id st.pending := by
  have hspec : (st.closeItem c).output =
        st.output ++ [c.item current.id "completed" [c.part current.text]] ∧
      (st.closeItem c).pending = st.pending ++
        [itemEvent c current.id current.outputIndex st.sequence c.textDoneKind
          ("text", .string current.text)] ++
        [itemEvent c current.id current.outputIndex (st.sequence + 1) c.partDoneKind
          ("part", c.part current.text)] ++
        [doneEvent (st.sequence + 2) current.outputIndex
          (c.item current.id "completed" [c.part current.text])] := by
    rw [closeItem, hslot]
    cases c <;> exact ⟨rfl, rfl⟩
  obtain ⟨houtput, hpending⟩ := hspec
  have hdone : ∀ d : Channel, "response.output_item.done" ∉ d.textKinds := by
    intro d
    cases d <;> decide
  refine ⟨houtput, ?_, fun d id hother => ?_⟩
  · rw [hpending, sentText_concat_other (.inl (hdone c)), sentText_partDone, sentText_textDone]
  · rw [hpending, sentText_concat_other (.inl (hdone d)),
      sentText_itemEvent _ _ _ _ _ (by simp [Channel.textKinds]) (by simp) hother,
      sentText_itemEvent _ _ _ _ _ (by simp [Channel.textKinds]) (by simp) hother]

/-- What sending a piece of text does. -/
theorem extendItem_spec {current : TextItem} (hslot : st.slot c = some current) (delta : String) :
    (st.extendItem c delta).output = st.output ∧
      (∀ d, (st.extendItem c delta).slot d =
        if d = c then some { current with text := current.text ++ delta } else st.slot d) ∧
      sentText c (some current.id) (st.extendItem c delta).pending =
        { sentText c (some current.id) st.pending with
          pieces := (sentText c (some current.id) st.pending).pieces ++ delta } ∧
      ∀ d id, d ≠ c ∨ id ≠ some current.id →
        sentText d id (st.extendItem c delta).pending = sentText d id st.pending := by
  have hspec : (st.extendItem c delta).output = st.output ∧
      (st.extendItem c delta).pending = st.pending ++
        [itemEvent c current.id current.outputIndex st.sequence c.deltaKind
          ("delta", .string delta)] ∧
      ∀ d, (st.extendItem c delta).slot d =
        if d = c then some { current with text := current.text ++ delta } else st.slot d := by
    rw [extendItem, hslot]
    cases c <;> exact ⟨rfl, rfl, fun d => by cases d <;> rfl⟩
  obtain ⟨houtput, hpending, hslots⟩ := hspec
  refine ⟨houtput, hslots, ?_, fun d id hother => ?_⟩
  · rw [hpending, sentText_delta]
  · rw [hpending,
      sentText_itemEvent _ _ _ _ _ (by simp [Channel.textKinds]) (by simp) hother]

/-- What adding an item does. -/
theorem openItem_spec (hslot : st.slot c = none) :
    (st.openItem c).output = st.output ∧
      (∀ d, (st.openItem c).slot d = if d = c then
        some ⟨st.itemId c.idTag st.nextOutputIndex, st.nextOutputIndex, ""⟩ else st.slot d) ∧
      ∀ d id, sentText d id (st.openItem c).pending = sentText d id st.pending := by
  have hkinds : ∀ d : Channel, "response.output_item.added" ∉ d.textKinds ∧
      c.partAddedKind ∉ d.textKinds := by
    intro d
    cases c <;> cases d <;> decide
  have hspec : (st.openItem c).output = st.output ∧
      (∃ added part : Event, added.kind = "response.output_item.added" ∧
        part.kind = c.partAddedKind ∧ (st.openItem c).pending = st.pending ++ [added] ++ [part]) ∧
      ∀ d, (st.openItem c).slot d = if d = c then
        some ⟨st.itemId c.idTag st.nextOutputIndex, st.nextOutputIndex, ""⟩ else st.slot d := by
    rw [openItem, hslot]
    cases c <;> exact ⟨rfl, ⟨_, _, rfl, rfl, rfl⟩, fun d => by cases d <;> rfl⟩
  obtain ⟨houtput, ⟨added, part, hadded, hpart, hpending⟩, hslots⟩ := hspec
  refine ⟨houtput, hslots, fun d id => ?_⟩
  rw [hpending, sentText_concat_other (.inl (hpart ▸ (hkinds d).2)),
    sentText_concat_other (.inl (hadded ▸ (hkinds d).1))]

end

/-- What was received with one more piece. -/
def hearing (c : Channel) (delta : String) (received : Channel → String) : Channel → String :=
  fun d => if d = c then received d ++ delta else received d

namespace Told

variable {st : Synthesis} {received : Channel → String} (h : Told st received) (hs : st.Sound)
include h hs

/-- An item that is ended has said its text in all ways. -/
theorem closeItem (c : Channel) : Told (st.closeItem c) received := by
  cases hslot : st.slot c with
  | none =>
    rw [Synthesis.closeItem, hslot]
    exact h
  | some current =>
    obtain ⟨houtput, hsent, hother⟩ := closeItem_spec hslot
    refine ⟨fun d => ?_, fun item hitem d text htext => ?_, fun d item hslot' => ?_⟩
    · -- The text moves from the item that was being sent to the output.
      rw [← h.said d, Synthesis.said, Synthesis.said, houtput, slot_closeItem,
        List.filterMap_append, String.join_append]
      split_ifs with hd
      · subst hd
        simp [itemText_item, hslot]
      · simp [itemText_item, hd]
    · rw [houtput] at hitem
      rcases List.mem_append.mp hitem with hitem | hitem
      · obtain ⟨id, hid, hsent'⟩ := h.done item hitem d text htext
        have hne : some id ≠ some current.id := hid ▸ hs.done_ne_slot hitem hslot
        exact ⟨id, hid, (hother d _ (.inr hne)).trans hsent'⟩
      · obtain rfl := List.mem_singleton.mp hitem
        rw [itemText_item] at htext
        split_ifs at htext with hd
        cases htext
        subst hd
        refine ⟨current.id, (Channel.item_reads d _ _ _).1, ?_⟩
        rw [hsent, h.sending d current hslot]
        rfl
    · rw [slot_closeItem] at hslot'
      split_ifs at hslot' with hd
      exact (hother d _ (.inl hd)).trans (h.sending d item hslot')

/-- An item that is added has said nothing. -/
theorem openItem (c : Channel) : Told (st.openItem c) received := by
  cases hslot : st.slot c with
  | some current =>
    rw [Synthesis.openItem, hslot]
    exact h
  | none =>
    obtain ⟨houtput, hslots, hsent⟩ := openItem_spec hslot
    refine ⟨fun d => ?_, fun item hitem d text htext => ?_, fun d item hslot' => ?_⟩
    · rw [← h.said d, Synthesis.said, Synthesis.said, houtput, hslots]
      split_ifs with hd
      · simp [hd, hslot]
      · rfl
    · rw [houtput] at hitem
      obtain ⟨id, hid, hsent'⟩ := h.done item hitem d text htext
      exact ⟨id, hid, (hsent d _).trans hsent'⟩
    · rw [hslots] at hslot'
      split_ifs at hslot' with hd
      · cases hslot'
        have hfresh := (hs.next_fresh c.idTag).1
        rw [← opened_marks] at hfresh
        exact (hsent d _).trans (hs.ledger.sentText_eq hfresh d)
      · exact (hsent d _).trans (h.sending d item hslot')

/-- A piece of text is said by the item that is being sent. -/
theorem extendItem {c : Channel} {current : TextItem} (hslot : st.slot c = some current)
    (delta : String) : Told (st.extendItem c delta) (hearing c delta received) := by
  obtain ⟨houtput, hslots, hsent, hother⟩ := extendItem_spec hslot delta
  refine ⟨fun d => ?_, fun item hitem d text htext => ?_, fun d item hslot' => ?_⟩
  · rw [hearing, ← h.said d, Synthesis.said, Synthesis.said, houtput, hslots]
    split_ifs with hd
    · simp [hd, hslot, String.append_assoc]
    · rfl
  · rw [houtput] at hitem
    obtain ⟨id, hid, hsent'⟩ := h.done item hitem d text htext
    have hne : some id ≠ some current.id := hid ▸ hs.done_ne_slot hitem hslot
    exact ⟨id, hid, (hother d _ (.inr hne)).trans hsent'⟩
  · rw [hslots] at hslot'
    split_ifs at hslot' with hd
    · cases hslot'
      subst hd
      rw [hsent, h.sending d current hslot]
    · exact (hother d _ (.inl hd)).trans (h.sending d item hslot')

/-- A piece of text, once the item of the other channel is ended. -/
theorem pushItem (serde : Serde) {c : Channel} (hnone : ∀ d, d ≠ c → st.slot d = none)
    (delta : String) :
    Told ((st.openItem c).extendItem c delta) (hearing c delta received) := by
  cases hslot : st.slot c with
  | some current =>
    have hopen : st.openItem c = st := by rw [Synthesis.openItem, hslot]
    rw [hopen]
    exact h.extendItem hs hslot delta
  | none =>
    have hall : ∀ d, st.slot d = none := by
      intro d
      by_cases hd : d = c
      · rw [hd, hslot]
      · exact hnone d hd
    have hsound : (st.openItem c).Sound := Step.sound (show Step serde _ _ from .openItem c hall) hs
    have hslot' : (st.openItem c).slot c =
        some ⟨st.itemId c.idTag st.nextOutputIndex, st.nextOutputIndex, ""⟩ := by
      rw [(openItem_spec hslot).2.1, if_pos rfl]
    exact (h.openItem hs c).extendItem hsound hslot' delta

/-- A piece of reasoning is told. -/
theorem pushReasoning (serde : Serde) (delta : String) :
    Told (st.pushReasoning delta) (hearing .reasoning delta received) := by
  have hsound := (closeItem_steps serde .message st).sound hs
  refine (h.closeItem hs .message).pushItem hsound serde (fun d hd => ?_) delta
  rw [slot_closeItem, if_pos (by cases d <;> simp_all)]

/-- A piece of text is told. -/
theorem pushText (serde : Serde) (delta : String) :
    Told (st.pushText delta) (hearing .message delta received) := by
  have hsound := (closeItem_steps serde .reasoning st).sound hs
  refine (h.closeItem hs .reasoning).pushItem hsound serde (fun d hd => ?_) delta
  rw [slot_closeItem, if_pos (by cases d <;> simp_all)]

end Told

/-! ## Tool calls -/

section

variable (index : ℕ) (call : Value) (st : Synthesis)

/-- Setting a call is mute. -/
theorem mute_setCall (entry : PendingCall) : Mute st (st.setCall index entry) :=
  mute_of_eq (fun c => by cases c <;> rfl) rfl rfl

/-- The growth of the table of calls is mute. -/
theorem growCalls_mute : Mute st (st.growCalls index) :=
  mute_of_eq (fun c => by cases c <;> rfl) rfl rfl

/-- Giving a call its place is mute. -/
theorem reserveCall_mute : Mute st (st.reserveCall index) := by
  unfold reserveCall
  dsimp only
  split_ifs
  · exact mute_of_eq (fun c => by cases c <;> rfl) rfl rfl
  · exact mute_refl st

/-- Taking an id is mute. -/
theorem identifyCall_mute : Mute st (st.identifyCall index call) := by
  unfold identifyCall
  dsimp only
  split
  · split_ifs
    · exact mute_setCall index st _
    · exact mute_refl st
  · exact mute_refl st

/-- Taking a name is mute. -/
theorem nameCall_mute : Mute st (st.nameCall index call) := by
  unfold nameCall
  dsimp only
  split
  · split_ifs
    · exact mute_setCall index st _
    · exact mute_refl st
  · exact mute_refl st

/-- Announcing a call is mute. -/
theorem announceCall_mute : Mute st (st.announceCall index) := by
  unfold announceCall
  dsimp only
  split_ifs
  · exact (mute_setCall index st _).trans (mute_emit (fun c => by cases c <;> decide) _ _)
  · exact mute_refl st

/-- Taking in arguments is mute. -/
theorem pushArguments_mute : Mute st (st.pushArguments index call) := by
  unfold pushArguments
  dsimp only
  split
  · split_ifs
    · exact (mute_setCall index st _).trans (mute_emit (fun c => by cases c <;> decide) _ _)
    · exact mute_setCall index st _
  · exact mute_refl st

/-- The end of a call says nothing. -/
theorem closeToolCall_mute (serde : Serde) (entry : PendingCall) :
    Mute st (closeToolCall serde st entry) := by
  have hdone (st : Synthesis) (text : String) : Mute st
      { st.emit "response.output_item.done" [("output_index", .ofNat entry.outputIndex),
          ("item", entry.item "completed" text)] with
        output := st.output ++ [entry.item "completed" text] } := by
    have hkind : ∀ c : Channel, "response.output_item.done" ∉ c.textKinds := by
      intro c
      cases c <;> decide
    have hemit := mute_emit hkind [("output_index", .ofNat entry.outputIndex),
      ("item", entry.item "completed" text)] st
    refine ⟨fun c => by cases c <;> rfl, hemit.sent, [_], rfl, fun item hitem => ?_⟩
    rw [List.mem_singleton.mp hitem]
    exact (entry.item_reads _ _).2
  unfold closeToolCall
  dsimp only
  split_ifs
  · exact ((mute_emit (fun c => by cases c <;> decide) _ _).trans
      (mute_emit (fun c => by cases c <;> decide) _ _)).trans (hdone _ _)
  · exact (mute_emit (fun c => by cases c <;> decide) _ _).trans (hdone _ _)

/-- Closing the calls is mute. -/
theorem closeToolCalls_mute (serde : Serde) : Mute st (st.closeToolCalls serde) := by
  have hfold (calls : List PendingCall) (st : Synthesis) :
      Mute st (calls.foldl (closeToolCall serde) st) := by
    induction calls generalizing st with
    | nil => exact mute_refl st
    | cons call calls ih => exact (closeToolCall_mute st serde call).trans (ih _)
  have hclear : Mute st { st with calls := [] } :=
    mute_of_eq (fun c => by cases c <;> rfl) rfl rfl
  exact hclear.trans (hfold _ _)

end

/-! ## Chunks -/

/-- The start of a response is mute. -/
theorem start_mute (chunk : Value) (st : Synthesis) : Mute st (st.start chunk) := by
  unfold start
  split_ifs
  · exact mute_refl st
  · dsimp only
    generalize hst' : Synthesis.mk _ _ _ _ _ _ _ _ _ _ _ _ _ _ _ _ _ = st'
    have hmute : Mute st st' := by
      rw [← hst']
      exact mute_of_eq (fun c => by cases c <;> rfl) rfl rfl
    exact (hmute.trans (mute_emit (fun c => by cases c <;> decide) _ _)).trans
      (mute_emit (fun c => by cases c <;> decide) _ _)

/-- Noting the usage is mute. -/
theorem noteUsage_mute (chunk : Value) (st : Synthesis) : Mute st (st.noteUsage chunk) := by
  unfold noteUsage
  split
  · exact mute_of_eq (fun c => by cases c <;> rfl) rfl rfl
  · exact mute_refl st

/-- What was received with the pieces that a delta brings. -/
def hearingDelta (delta : Map Value) (received : Channel → String) : Channel → String :=
  fun c => received c ++ (nonEmptyStr (delta.get c.contentKey)).getD ""

namespace Told

variable {st : Synthesis} {received : Channel → String} (serde : Serde)
include serde

/-- A fragment of a tool call ends the item that is being sent. -/
theorem pushToolCall (h : Told st received) (hs : st.Sound) (call : Value) :
    Told (st.pushToolCall call) received := by
  have hsound := (closeItem_steps serde .reasoning st).sound hs
  have hclosed := (h.closeItem hs .reasoning).closeItem hsound .message
  unfold Synthesis.pushToolCall
  dsimp only
  refine hclosed.mute ?_
  refine Mute.trans (Mute.trans (Mute.trans ?_ (nameCall_mute _ _ _)) (announceCall_mute _ _))
    (pushArguments_mute _ _ _)
  exact ((growCalls_mute _ _).trans (reserveCall_mute _ _)).trans (identifyCall_mute _ _ _)

/-- The fragments of a chunk leave what has been told. -/
theorem pushToolCalls (h : Told st received) (hs : st.Sound) (calls : List Value) :
    Told (calls.foldl (fun st call => st.pushToolCall call) st) received := by
  induction calls generalizing st with
  | nil => exact h
  | cons call calls ih =>
    exact ih (h.pushToolCall serde hs call) ((pushToolCall_moves serde call st).sound hs)

/-- The delta of a chunk: its reasoning, then its text, then its calls. -/
theorem handleDelta (h : Told st received) (hs : st.Sound) (delta : Map Value) :
    Told (st.handleDelta delta) (hearingDelta delta received) := by
  have hreasoning : ∃ st₁, Told st₁ (hearing .reasoning
        ((nonEmptyStr (delta.get "reasoning_content")).getD "") received) ∧ st₁.Sound ∧
      (nonEmptyStr (delta.get "reasoning_content")).elim st st.pushReasoning = st₁ := by
    cases nonEmptyStr (delta.get "reasoning_content") with
    | none =>
      refine ⟨st, ?_, hs, rfl⟩
      rw [Option.getD_none]
      convert h using 1
      funext d
      simp [hearing]
    | some reasoning =>
      exact ⟨_, h.pushReasoning hs serde reasoning, (pushReasoning_steps serde _ st).sound hs, rfl⟩
  obtain ⟨st₁, h₁, hs₁, hst₁⟩ := hreasoning
  have htext : ∃ st₂, Told st₂ (hearingDelta delta received) ∧ st₂.Sound ∧
      (nonEmptyStr (delta.get "content")).elim st₁ st₁.pushText = st₂ := by
    -- Each channel hears its own member of the delta.
    have hboth : hearing .message ((nonEmptyStr (delta.get "content")).getD "")
        (hearing .reasoning ((nonEmptyStr (delta.get "reasoning_content")).getD "") received) =
          hearingDelta delta received := by
      funext d
      cases d <;> simp [hearing, hearingDelta, Channel.contentKey]
    rw [← hboth]
    cases nonEmptyStr (delta.get "content") with
    | none =>
      refine ⟨st₁, ?_, hs₁, rfl⟩
      rw [Option.getD_none]
      convert h₁ using 1
      funext d
      simp [hearing]
    | some content =>
      exact ⟨_, h₁.pushText hs₁ serde content, (pushText_steps serde _ st₁).sound hs₁, rfl⟩
  obtain ⟨st₂, h₂, hs₂, hst₂⟩ := htext
  have heq : st.handleDelta delta =
      (((delta.get "tool_calls").bind Value.asArray).getD []).foldl
        (fun st call => st.pushToolCall call) st₂ := by
    rw [← hst₂, ← hst₁, Synthesis.handleDelta]
    cases nonEmptyStr (delta.get "reasoning_content") <;> cases nonEmptyStr (delta.get "content") <;>
      rfl
  rw [heq]
  exact h₂.pushToolCalls serde hs₂ _

/-- One more chunk. -/
theorem progress (h : Told st received) {chunk : Value} (hs : (st.start chunk).Sound) :
    Told (st.progress chunk) (fun c => received c ++ (chunkText c chunk).getD "") := by
  have hsound : ((st.start chunk).noteUsage chunk).Sound := by
    unfold noteUsage
    split
    · exact Move.sound (show Move serde _ _ from .usage _) hs
    · exact hs
  have htold := h.mute ((start_mute chunk st).trans (noteUsage_mute chunk _))
  unfold Synthesis.progress chunkText
  dsimp only
  cases (firstChoice chunk).bind fun choice => (choice.get "delta").bind Value.asObject with
  | none => simpa using htold
  | some delta => exact htold.handleDelta serde hsound delta

/-- All chunks of a completion. -/
theorem foldl_progress (model requestKey : String) (tools : ToolNames) (chunks : List Value) :
    Told (chunks.foldl (fun st chunk => st.progress chunk) { model, requestKey, tools })
      (fun c => String.join (chunks.filterMap (chunkText c))) := by
  induction chunks using List.reverseRecOn with
  | nil => exact ⟨fun c => by cases c <;> rfl, nofun, fun c item h => by cases c <;> cases h⟩
  | append_singleton chunks chunk ih =>
    have hsound : Sound (start chunk (chunks.foldl (fun st chunk => st.progress chunk)
        { model, requestKey, tools })) := by
      by_cases hnil : chunks = []
      · rw [hnil]
        exact start_sound model requestKey tools chunk
      · have hbegun := foldl_progress_begun serde hnil { model, requestKey, tools }
        rw [start, if_pos hbegun.started]
        exact hbegun.sound
    have hreceived : (fun c => String.join ((chunks ++ [chunk]).filterMap (chunkText c))) =
        fun c => String.join (chunks.filterMap (chunkText c)) ++ (chunkText c chunk).getD "" := by
      funext c
      rw [List.filterMap_append, String.join_append]
      cases hchunk : chunkText c chunk <;> simp [hchunk]
    rw [List.foldl_append, hreceived]
    exact ih.progress serde hsound

end Told

/-- The end of a response says all that is left, and its items are those that have said it. -/
theorem Told.complete (serde : Serde) {st : Synthesis} {received : Channel → String}
    (h : Told st received) (hs : st.Sound) (hon : st.GoesOn) (hstarted : st.started = true)
    (reason : Option String) :
    (∀ c, String.join ((responseItems (st.complete serde reason).pending).filterMap (itemText c)) =
        received c) ∧
      ∀ item ∈ responseItems (st.complete serde reason).pending, ∀ c text,
        itemText c item = some text → ∃ id, idOf item = some id ∧
          sentText c (some id) (st.complete serde reason).pending =
            ⟨text, [some text], [some text]⟩ := by
  have hsound := (closeItem_steps serde .reasoning st).sound hs
  have hclosed := ((h.closeItem hs .reasoning).closeItem hsound .message).mute
    (closeToolCalls_mute _ serde)
  have hslots := (close_all serde st).1
  rw [complete_eq_finish serde reason hon hstarted]
  generalize hlast : (st.closeReasoning.closeMessage.closeToolCalls serde) = last at hslots
  have htold : Told last received := hlast ▸ hclosed
  have hitems := (finish_spec reason last).1
  -- The last event carries no text.
  have hsent (c : Channel) (id : Option String) :
      sentText c id (last.finish reason).pending = sentText c id last.pending := by
    have hkind : (if reason = some "length" then "response.incomplete" else
        "response.completed") ∉ c.textKinds := by
      split_ifs
      · cases c <;> decide
      · cases c <;> decide
    exact sentText_concat_other (.inl hkind) _
  rw [hitems]
  constructor
  · intro c
    rw [← htold.said c, Synthesis.said, hslots, Option.map_none, Option.getD_none,
      String.append_empty]
  · intro item hitem c text htext
    obtain ⟨id, hid, hsent'⟩ := htold.done item hitem c text htext
    exact ⟨id, hid, (hsent c _).trans hsent'⟩

end Synthesis

/-- The text and the reasoning of a completion are those of its response: the items of a channel
say the pieces of its chunks, one after the other, and each item says the same text in pieces, at
the end of its text, at the end of its part, and when it is done. -/
theorem responsesEvents_texts (serde : Serde) (upstream : List Poll) (model requestKey : String)
    (tools : ToolNames)
    (hlast : ∃ kind ∈ ["response.completed", "response.incomplete"],
      (responsesEvents serde upstream model requestKey tools).getLast?.map Event.kind =
        some kind) :
    (∀ c, String.join ((responseItems (responsesEvents serde upstream model requestKey
          tools)).filterMap (itemText c)) =
        String.join ((transcript serde upstream).spoken.filterMap (chunkText c))) ∧
      ∀ item ∈ responseItems (responsesEvents serde upstream model requestKey tools), ∀ c text,
        itemText c item = some text → ∃ id, idOf item = some id ∧
          sentText c (some id) (responsesEvents serde upstream model requestKey tools) =
            ⟨text, [some text], [some text]⟩ := by
  obtain ⟨haddressable, hterminal⟩ := terminal_ne_error hlast
  rw [responsesEvents_eq serde haddressable]
  have h₀ : Synthesis.Fresh { model, requestKey, tools } := ⟨⟨rfl, rfl⟩, rfl⟩
  rcases Synthesis.replay_cases serde (transcript serde upstream) h₀ with
    ⟨herror, -⟩ | ⟨st, reason, hst, hbegun, heq, -⟩
  · exact absurd herror hterminal
  · rw [heq]
    refine Synthesis.Told.complete serde ?_ hbegun.sound (hbegun.goesOn serde h₀) hbegun.started
      reason
    rw [hst]
    exact Synthesis.Told.foldl_progress serde model requestKey tools _

/-- A completion of reasoning, text, reasoning again, and a reason to end. -/
def thoughtfulCompletion : List Poll :=
  [.chunk (toUtf8 ("data: \x7b\"choices\":[\x7b\"delta\":\x7b\"reasoning_content\":\"r\"," ++
      "\"content\":\"a\"\x7d\x7d]\x7d\n\n")),
    .chunk (toUtf8 ("data: \x7b\"choices\":[\x7b\"delta\":\x7b\"reasoning_content\":\"s\"\x7d," ++
      "\"finish_reason\":\"stop\"\x7d]\x7d\n\n"))]

/-- The response says the reasoning in two items. -/
theorem responsesEvents_texts_thoughtful :
    String.join ((responseItems (responsesEvents Compact.serde thoughtfulCompletion "glm" "key"
      {})).filterMap (itemText .reasoning)) = "rs" := by
  have htranscript : (transcript Compact.serde thoughtfulCompletion).spoken.filterMap
        (chunkText .reasoning) = ["r", "s"] ∧
      (transcript Compact.serde thoughtfulCompletion).terminal = "response.completed" ∧
      (transcript Compact.serde thoughtfulCompletion).Addressable := by
    decide +kernel
  have hlast := responsesEvents_getLast Compact.serde htranscript.2.2 "glm" "key" {}
  rw [htranscript.2.1] at hlast
  obtain ⟨hsaid, -⟩ := responsesEvents_texts Compact.serde thoughtfulCompletion "glm" "key" {}
    ⟨_, by decide, hlast⟩
  rw [hsaid, htranscript.1]
  rfl

end MuseCodex.Zai
