import MuseCodex.Zai.History

/-!
# The parts of a message

The parts of a message's content are collected twice, as one text and as a list of parts, and the
role decides which of the two is sent. The list has everything (`Content.Collects`), the text has
the texts only, and it is what every role but the user's gets. So the parts of an accepted request
all reach the model exactly when no message but the user's has an image
(`translate_parts_kept_iff`).
-/

namespace MuseCodex.Zai

open Text Json Fallible

/-! ## Parts -/

/-- What a part of a message says. -/
inductive Said where
  | text (text : String)
  | image (url : String)
deriving DecidableEq

/-- What a content part of the input says, unless it cannot be expressed. -/
def pieceOf (part : Value) : Option Said :=
  match (part.get "type").bind Value.asStr with
  | some "input_text" | some "output_text" | some "text" | some "summary_text" =>
    some (.text (((part.get "text").bind Value.asStr).getD ""))
  | some "refusal" => some (.text (((part.get "refusal").bind Value.asStr).getD ""))
  | some "input_image" => ((part.get "image_url").bind Value.asStr).map .image
  | _ => none

/-- What a content part on the wire says. -/
def wirePiece (part : Value) : Option Said :=
  match (part.get "type").bind Value.asStr with
  | some "text" => ((part.get "text").bind Value.asStr).map .text
  | some "image_url" =>
    (((part.get "image_url").bind (·.get "url")).bind Value.asStr).map .image
  | _ => none

/-- Content on the wire that says some pieces: a list of them in their order, or a text in which
each of them appears, when all of them are texts. -/
def Says (pieces : List Said) : Value → Prop
  | .array parts => parts.map wirePiece = pieces.map some
  | .string text => ∃ texts : List String, pieces = texts.map Said.text ∧
      ∀ piece ∈ texts, piece.toList <:+: text.toList
  | _ => False

/-- The pieces that parts have been collected into. -/
structure Content.Collects (pieces : List Said) (content : Content) : Prop where
  multimodal : content.multimodal.map wirePiece = pieces.map some
  text : ∀ piece, Said.text piece ∈ pieces → piece.toList <:+: content.text.toList
  image : content.hasImage = true ↔ ∃ url, Said.image url ∈ pieces

/-- One more text. -/
theorem Content.Collects.addText {pieces : List Said} {content : Content}
    (h : content.Collects pieces) (value : String) :
    (content.addText value).Collects (pieces ++ [.text value]) := by
  have hprefix : ∃ front, (content.addText value).text.toList =
      content.text.toList ++ front ++ value.toList := by
    unfold Content.addText
    dsimp only
    split_ifs with hempty
    · exact ⟨[], by rw [String.toList_append, List.append_nil]⟩
    · exact ⟨['\n'], by rw [String.toList_append, String.toList_append]; rfl⟩
  obtain ⟨front, hfront⟩ := hprefix
  refine ⟨?_, fun piece hpiece => ?_, ?_⟩
  · rw [Content.addText, List.map_append, List.map_append, h.multimodal]
    simp [wirePiece, Value.obj, Map.ofEntries]
  · rw [hfront]
    rcases List.mem_append.mp hpiece with hpiece | hpiece
    · obtain ⟨before, after, hinfix⟩ := h.text piece hpiece
      exact ⟨before, after ++ front ++ value.toList, by rw [← hinfix]; simp⟩
    · cases List.mem_singleton.mp hpiece
      exact ⟨content.text.toList ++ front, [], by simp⟩
  · have hsame : (content.addText value).hasImage = content.hasImage := rfl
    rw [hsame, h.image]
    simp

/-- One more image. -/
theorem Content.Collects.addImage {pieces : List Said} {content : Content}
    (h : content.Collects pieces) (url : String) :
    (content.addImage url).Collects (pieces ++ [.image url]) := by
  refine ⟨?_, fun piece hpiece => ?_, ?_⟩
  · rw [Content.addImage, List.map_append, List.map_append, h.multimodal]
    simp [wirePiece, Value.obj, Map.ofEntries]
  · rcases List.mem_append.mp hpiece with hpiece | hpiece
    · exact h.text piece hpiece
    · cases List.mem_singleton.mp hpiece
  · exact iff_of_true rfl ⟨url, by simp⟩

/-- One more part is one more piece, or it is refused. -/
theorem translateContentPart_collects {limits : ModelLimits} {pieces : List Said}
    {content content' : Content} (h : content.Collects pieces) {part : Value}
    (hok : translateContentPart limits content part = .ok content') :
    ∃ piece, pieceOf part = some piece ∧ content'.Collects (pieces ++ [piece]) := by
  unfold translateContentPart at hok
  cases part with
  | object object =>
    have hget (key : String) : (Value.object object).get key = Map.get object key := rfl
    simp only [Value.asObject_object] at hok
    unfold pieceOf
    simp only [hget]
    split at hok
    -- Four sorts of text, and a refusal.
    iterate 5
      · rename_i htype
        cases hok
        rw [htype]
        exact ⟨_, rfl, h.addText _⟩
    · rename_i htype
      rw [htype]
      split_ifs at hok
      split at hok
      · cases hok
      · rename_i url hurl
        cases hok
        exact ⟨.image url, by rw [hurl]; rfl, h.addImage url⟩
    · cases hok
  | _ => cases hok

/-- The parts of a content are pieces, and are collected in their order. -/
theorem translateContentPart_run {limits : ModelLimits} {parts : List Value} {content : Content}
    (hok : parts.foldlM (translateContentPart limits) {} = .ok content) :
    ∃ pieces, parts.map pieceOf = pieces.map some ∧ content.Collects pieces := by
  have hempty : ({} : Content).Collects [] := ⟨rfl, nofun, iff_of_false Bool.false_ne_true nofun⟩
  have hstart : ∃ pieces, ([] : List Value).map pieceOf = pieces.map some ∧
      ({} : Content).Collects pieces := ⟨[], rfl, hempty⟩
  have hrun := foldlM_inv (I := fun before (content : Content) =>
      ∃ pieces, before.map pieceOf = pieces.map some ∧ content.Collects pieces)
    (fun hinv hstep => ?_) hstart hok
  · exact hrun
  · obtain ⟨pieces, hpieces, hcollects⟩ := hinv
    obtain ⟨piece, hpiece, hcollects'⟩ := translateContentPart_collects hcollects hstep
    refine ⟨pieces ++ [piece], ?_, hcollects'⟩
    rw [List.map_append, List.map_append, hpieces, List.map_singleton, hpiece]
    rfl

/-- The translated content says all parts, unless it is a text and one of them is an image. -/
theorem translateContentParts_says {limits : ModelLimits} {parts : List Value} {role : String}
    {content : Value} (hok : translateContentParts parts role limits = .ok content) :
    ∃ pieces, parts.map pieceOf = pieces.map some ∧
      (Says pieces content ↔ (role ≠ "user" → ∀ url, Said.image url ∉ pieces)) := by
  obtain ⟨collected, hrun, hok⟩ := bind_eq_ok.mp hok
  obtain ⟨pieces, hpieces, hcollects⟩ := translateContentPart_run hrun
  refine ⟨pieces, hpieces, ?_⟩
  cases hok
  by_cases hmultimodal : (collected.hasImage && role = "user") = true
  · rw [if_pos hmultimodal]
    rw [Bool.and_eq_true, decide_eq_true_eq] at hmultimodal
    exact iff_of_true hcollects.multimodal fun hrole => absurd hmultimodal.2 hrole
  · rw [if_neg hmultimodal]
    rw [Bool.and_eq_true, decide_eq_true_eq, not_and] at hmultimodal
    constructor
    · rintro ⟨texts, rfl, -⟩ - url hurl
      obtain ⟨text, -, hne⟩ := List.mem_map.mp hurl
      cases hne
    · intro himages
      -- There is no image, so the pieces are texts.
      have hnone : ∀ url, Said.image url ∉ pieces := by
        by_cases hrole : role = "user"
        · intro url hurl
          exact hmultimodal (hcollects.image.mpr ⟨url, hurl⟩) hrole
        · exact himages hrole
      have htexts : ∃ texts : List String, pieces = texts.map Said.text := by
        clear hcollects hpieces himages hmultimodal hrun
        induction pieces with
        | nil => exact ⟨[], rfl⟩
        | cons piece pieces ih =>
          obtain ⟨texts, rfl⟩ := ih fun url hurl => hnone url (List.mem_cons_of_mem _ hurl)
          cases piece with
          | text text => exact ⟨text :: texts, rfl⟩
          | image url => exact absurd List.mem_cons_self (hnone url)
      obtain ⟨texts, rfl⟩ := htexts
      exact ⟨texts, rfl, fun text htext => hcollects.text text (List.mem_map_of_mem htext)⟩

/-! ## Messages -/

/-- The role of a message item. -/
def itemRole (item : Value) : Option String := (item.get "role").bind Value.asStr

/-- The translation of a message with parts. -/
theorem translateMessage_parts {limits : ModelLimits} {item : Map Value} {message : Value}
    (h : translateMessage item limits = .ok message) {parts : List Value}
    (hparts : item.get "content" = some (.array parts)) :
    ∃ role content, (role = "user" ↔ itemRole (.object item) = some "user") ∧
      translateContentParts parts role limits = .ok content ∧
      message.get "content" = some content := by
  have hbuilt {role : String} (h : (do
      let content ← translateContentParts parts role limits
      return Value.obj [("role", .string role), ("content", content)]) = .ok message) :
      ∃ content, translateContentParts parts role limits = .ok content ∧
        message.get "content" = some content := by
    obtain ⟨content, hcontent, h⟩ := bind_eq_ok.mp h
    cases h
    exact ⟨content, hcontent, by simp [Value.obj, Map.ofEntries]⟩
  have hrole : itemRole (.object item) = (item.get "role").bind Value.asStr := rfl
  unfold translateMessage at h
  rw [hparts] at h
  dsimp only at h
  rw [hrole]
  split at h
  · rename_i hget
    obtain ⟨content, hcontent, hmessage⟩ := hbuilt h
    exact ⟨"system", content, by simp [hget], hcontent, hmessage⟩
  · rename_i hget
    obtain ⟨content, hcontent, hmessage⟩ := hbuilt h
    exact ⟨"system", content, by simp [hget], hcontent, hmessage⟩
  · rename_i hget
    obtain ⟨content, hcontent, hmessage⟩ := hbuilt h
    exact ⟨"user", content, by simp [hget], hcontent, hmessage⟩
  · rename_i hget
    obtain ⟨content, hcontent, hmessage⟩ := hbuilt h
    exact ⟨"assistant", content, by simp [hget], hcontent, hmessage⟩
  · cases h

section

variable (serde : Serde) {limits : ModelLimits}

/-- A message of the wire that is an entry is its own entry. -/
theorem mem_of_message_mem_entries {history : List Value} {message : Value}
    (h : Entry.message message ∈ history.flatMap entriesOf) : message ∈ history := by
  obtain ⟨source, hsource, hentry⟩ := List.mem_flatMap.mp h
  unfold entriesOf at hentry
  split at hentry
  · obtain ⟨call, -, hne⟩ := List.mem_map.mp hentry
    cases hne
  · cases List.mem_singleton.mp hentry
    exact hsource

/-- A message item of an accepted request has its message on the wire. -/
theorem translate_message_mem {request : Value} {translated : TranslatedRequest}
    (h : translate serde request limits = .ok translated) {item : Value}
    (hitem : item ∈ inputItems request) (htype : itemType item = some "message") :
    ∃ object message, item = .object object ∧ translateMessage object limits = .ok message ∧
      message ∈ wireMessages translated.body := by
  obtain ⟨object, history, rfl, hmessages, hhistory⟩ := translate_isHistory serde h
  have hspoken : item ∈ spoken (inputItems (.object object)) := by
    refine List.mem_filter.mpr ⟨hitem, ?_⟩
    simp [isReasoningItem, htype]
  obtain ⟨entry, hentry, htranslation⟩ := exists_of_forall₂ hhistory.translations hspoken
  cases entry with
  | call call =>
    -- The type of the item is not that of a call.
    have hcall := htranslation.1
    simp [isCallItem, htype] at hcall
  | message message =>
    obtain ⟨-, m, rfl, hmessage | hresult⟩ := htranslation
    · refine ⟨m, message, rfl, hmessage.2, ?_⟩
      rw [hmessages]
      exact List.mem_append_right _ (mem_of_message_mem_entries hentry)
    · have hresult := hresult.1
      simp [isResultItem, htype] at hresult

/-- The parts of a message item. -/
def HasParts (item : Value) (parts : List Value) : Prop :=
  itemType item = some "message" ∧ item.get "content" = some (.array parts)

/-- An image part of the input. -/
def isImagePart (part : Value) : Bool := (part.get "type").bind Value.asStr = some "input_image"

/-- The image parts are those that say an image. -/
theorem isImagePart_iff {part : Value} {piece : Said} (h : pieceOf part = some piece) :
    isImagePart part = true ↔ ∃ url, piece = .image url := by
  unfold isImagePart
  unfold pieceOf at h
  rw [decide_eq_true_eq]
  split at h
  iterate 5
    · rename_i htype
      cases h
      simp [htype]
  · rename_i htype
    obtain ⟨url, -, rfl⟩ := Option.map_eq_some_iff.mp h
    exact iff_of_true htype ⟨url, rfl⟩
  · cases h

/-- Pieces without an image are those of parts without one. -/
theorem noImage_iff {parts : List Value} {pieces : List Said}
    (h : parts.map pieceOf = pieces.map some) :
    (∀ url, Said.image url ∉ pieces) ↔ ∀ part ∈ parts, isImagePart part = false := by
  have hpair : List.Forall₂ (fun part piece => pieceOf part = some piece) parts pieces := by
    rw [← List.forall₂_map_left_iff (f := pieceOf) (R := fun x piece => x = some piece), h,
      List.forall₂_map_left_iff]
    exact List.forall₂_same.mpr fun _ _ => rfl
  constructor
  · intro hnone part hpart
    obtain ⟨piece, hpiece, hsays⟩ := exists_of_forall₂ hpair hpart
    by_contra himage
    rw [Bool.not_eq_false, isImagePart_iff hsays] at himage
    obtain ⟨url, rfl⟩ := himage
    exact hnone url hpiece
  · intro hnone url hurl
    obtain ⟨part, hpart, hsays⟩ := exists_of_forall₂ hpair.flip hurl
    have himage := (isImagePart_iff hsays).mpr ⟨url, rfl⟩
    rw [hnone part hpart] at himage
    cases himage

/-- A message item whose parts all reach the model: it is translated to a message on the wire, and
the content of that says the pieces that the parts are. -/
def PartsKept (limits : ModelLimits) (body item : Value) (parts : List Value) : Prop :=
  ∃ pieces, parts.map pieceOf = pieces.map some ∧
    ∃ object message content, item = .object object ∧
      translateMessage object limits = .ok message ∧ message ∈ wireMessages body ∧
      message.get "content" = some content ∧ Says pieces content

/-- The parts of one message reach the model, unless one is an image and the role is not the
user's. -/
theorem partsKept_iff {request : Value} {translated : TranslatedRequest}
    (h : translate serde request limits = .ok translated) {item : Value}
    (hitem : item ∈ inputItems request) {parts : List Value} (hparts : HasParts item parts) :
    PartsKept limits translated.body item parts ↔
      (itemRole item ≠ some "user" → ∀ part ∈ parts, isImagePart part = false) := by
  obtain ⟨htype, hcontent⟩ := hparts
  obtain ⟨object, message, rfl, hmessage, hmem⟩ := translate_message_mem serde h hitem htype
  obtain ⟨role, content, hrole, htranslated, hget⟩ := translateMessage_parts hmessage hcontent
  obtain ⟨pieces, hpieces, hsays⟩ := translateContentParts_says htranslated
  rw [noImage_iff hpieces, ne_eq, hrole] at hsays
  rw [ne_eq, ← hsays]
  constructor
  · rintro ⟨pieces', hpieces', object', message', content', hobject, hmessage', -, hget', hsays'⟩
    -- The message is a function of the item, and the pieces are one of the parts.
    cases hobject
    rw [hmessage] at hmessage'
    cases hmessage'
    rw [hget] at hget'
    cases hget'
    have hsame : pieces = pieces' := by
      rw [hpieces] at hpieces'
      exact (List.map_inj_right fun _ _ => Option.some.inj).mp hpieces'
    rw [hsame]
    exact hsays'
  · intro hsays
    exact ⟨pieces, hpieces, object, message, content, rfl, hmessage, hmem, hget, hsays⟩

/-- All parts of all messages of an accepted request reach the model exactly when only the
messages of the user have images. -/
theorem translate_parts_kept_iff (request : Value) (limits : ModelLimits)
    (translated : TranslatedRequest) (h : translate serde request limits = .ok translated) :
    (∀ item ∈ inputItems request, ∀ parts, HasParts item parts →
        PartsKept limits translated.body item parts) ↔
      ∀ item ∈ inputItems request, ∀ parts, HasParts item parts →
        itemRole item ≠ some "user" → ∀ part ∈ parts, isImagePart part = false := by
  constructor
  · intro hkept item hitem parts hparts
    exact (partsKept_iff serde h hitem hparts).mp (hkept item hitem parts hparts)
  · intro himages item hitem parts hparts
    exact (partsKept_iff serde h hitem hparts).mpr (himages item hitem parts hparts)

end

/-- A message with a text, an image and a text. -/
def picturedItem (role : String) : Value :=
  .obj [("type", .string "message"), ("role", .string role),
    ("content", .array [.obj [("type", .string "input_text"), ("text", .string "before")],
      .obj [("type", .string "input_image"), ("image_url", .string "data:,")],
      .obj [("type", .string "input_text"), ("text", .string "after")]])]

/-- A request with such a message. -/
def picturedRequest (role : String) : Value := withInput [picturedItem role] listingRequest

/-- From the user, the image reaches the model. -/
theorem translate_parts_kept_iff_user :
    ∃ translated, translate Compact.serde (picturedRequest "user") ⟨true, 1, le_refl 1⟩ =
        .ok translated ∧
      ∃ parts, HasParts (picturedItem "user") parts ∧ parts.length = 3 ∧
        PartsKept ⟨true, 1, le_refl 1⟩ translated.body (picturedItem "user") parts := by
  obtain ⟨translated, hok⟩ : ∃ translated,
      translate Compact.serde (picturedRequest "user") ⟨true, 1, le_refl 1⟩ = .ok translated :=
    exists_eq_ok (by decide)
  have hkept := (translate_parts_kept_iff Compact.serde _ _ translated hok).mpr (by
    intro item hitem parts _ hrole
    have hsame : item = picturedItem "user" := by
      simpa [picturedRequest, withInput, inputItems] using hitem
    rw [hsame] at hrole
    exact absurd rfl hrole)
  have hparts : HasParts (picturedItem "user") _ := ⟨rfl, rfl⟩
  exact ⟨translated, hok, _, hparts, rfl, hkept _ (by decide) _ hparts⟩

/-- From the assistant it is accepted and dropped: the message on the wire has the two texts only,
and so do all the messages. -/
theorem translate_parts_dropped :
    ∃ translated, translate Compact.serde (picturedRequest "assistant") ⟨true, 1, le_refl 1⟩ =
        .ok translated ∧
      wireMessages translated.body = [.obj [("role", .string "assistant"),
        ("content", .string "before\nafter")]] ∧
      ∃ item ∈ inputItems (picturedRequest "assistant"), ∃ parts, HasParts item parts ∧
        ¬ PartsKept ⟨true, 1, le_refl 1⟩ translated.body item parts := by
  obtain ⟨translated, hok⟩ : ∃ translated,
      translate Compact.serde (picturedRequest "assistant") ⟨true, 1, le_refl 1⟩ =
        .ok translated :=
    exists_eq_ok (by decide)
  have hbody : (translate Compact.serde (picturedRequest "assistant")
      ⟨true, 1, le_refl 1⟩).toOption.map (fun translated => wireMessages translated.body) =
      some [.obj [("role", .string "assistant"), ("content", .string "before\nafter")]] := by
    decide
  rw [hok] at hbody
  refine ⟨translated, hok, Option.some.inj hbody, picturedItem "assistant", by decide, _,
    ⟨rfl, rfl⟩, ?_⟩
  rw [partsKept_iff Compact.serde hok (by decide) ⟨rfl, rfl⟩]
  intro himages
  have hdropped := himages (by decide) (.obj [("type", .string "input_image"),
    ("image_url", .string "data:,")]) (by simp)
  revert hdropped
  decide

end MuseCodex.Zai
