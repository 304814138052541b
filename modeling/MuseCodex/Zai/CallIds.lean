import Mathlib.Data.List.Sort
import MuseCodex.Zai.Replay

/-!
# The ids of calls

The id that upstream gives to a call is reduced to a conservative alphabet before Muse sees it,
and Muse sends the result of the call back under the reduced id. The reduction keeps the first
characters of the alphabet and puts a fixed text where there are none, so it does not keep ids
apart: two ids are confused when they keep the same characters, or when one keeps none and the
other keeps the fixed text (`sanitizeIdentifier_eq_iff`). The calls of a response have ids of
their own exactly when upstream gave no two of them ids that are confused
(`responsesEvents_callIds`).
-/

namespace MuseCodex.Zai

open Text Json

/-- The characters of an id that are kept. -/
def keptChars (id : String) : List Char :=
  (id.toList.filter fun c => isAsciiAlphanumeric c || c = '_' || c = '-').take MAX_IDENTIFIER_BYTES

/-- The characters that stand for an id of which none is kept. -/
def unknownChars : List Char := ['u', 'n', 'k', 'n', 'o', 'w', 'n']

/-- Two ids keep the same characters, or one keeps none and the other keeps those that stand for
none. -/
def Confused (id id' : String) : Prop :=
  keptChars id = keptChars id' ∨ (keptChars id = [] ∧ keptChars id' = unknownChars) ∨
    (keptChars id = unknownChars ∧ keptChars id' = [])

/-- This can be decided. -/
instance (id id' : String) : Decidable (Confused id id') :=
  inferInstanceAs (Decidable (_ ∨ (_ ∧ _) ∨ (_ ∧ _)))

/-- The reduced id, by its characters. -/
theorem toList_sanitizeIdentifier (id : String) : (sanitizeIdentifier id).toList =
    if keptChars id = [] then unknownChars else keptChars id := by
  unfold sanitizeIdentifier keptChars
  dsimp only
  split_ifs with hnone
  · rfl
  · rw [String.toList_ofList]

/-- The reduction takes exactly the confused ids to one. -/
theorem sanitizeIdentifier_eq_iff (id id' : String) :
    sanitizeIdentifier id = sanitizeIdentifier id' ↔ Confused id id' := by
  rw [← String.toList_inj, toList_sanitizeIdentifier, toList_sanitizeIdentifier, Confused]
  have hne : unknownChars ≠ [] := nofun
  split_ifs with hid hid' hid'
  · simp [hid, hid']
  · simp [hid, hid', hne.symm, Ne.symm hid', eq_comm]
  · simp [hid, hid', hne.symm]
  · simp [hid, hid']

/-- The calls of a response, in order, are those of the indices with an id and a tool name, and
two of them whose first ids differ have different ids. -/
def CallIdsDistinct (fragments : List Value) (es : List Event) : Prop :=
  ∃ itemAt : ℕ → Value,
    (responseItems es).filter isCallItem =
        ((namedIndices fragments).insertionSort (· ≤ ·)).map itemAt ∧
      ∀ i ∈ namedIndices fragments, ∀ j ∈ namedIndices fragments,
        firstId (fragmentsAt i fragments) ≠ firstId (fragmentsAt j fragments) →
          (itemAt i).get "call_id" ≠ (itemAt j).get "call_id"

/-- The indices of the calls that were announced, in order. -/
theorem Synthesis.Tracks.announced_eq {st : Synthesis} {fs : List Value} (h : st.Tracks fs) :
    st.announcedIndices = (namedIndices fs).insertionSort (· ≤ ·) := by
  have hsorted : st.announcedIndices.Pairwise (· ≤ ·) := List.pairwise_le_range.filter _
  refine List.Perm.eq_of_pairwise' hsorted (List.pairwise_insertionSort _ _) ?_
  exact h.announced_perm.symm.trans (List.perm_insertionSort _ _).symm

/-- The id of the call at an index that has an id. -/
theorem Synthesis.Tracks.call_id (serde : Serde) {st : Synthesis} {fs : List Value}
    (h : st.Tracks fs) {i : ℕ} {id : String} (hid : firstId (fragmentsAt i fs) = some id) :
    (Synthesis.doneItem serde (st.callAt i)).get "call_id" =
      some (.string (sanitizeIdentifier id)) := by
  rw [(Synthesis.doneItem_reads serde (st.callAt i)).2.2.1, (h.call i).callId, hid]
  rfl

/-- The calls of a response keep their ids apart exactly when upstream gave no two of them
different ids that are confused. -/
theorem responsesEvents_callIds (serde : Serde) (upstream : List Poll) (model requestKey : String)
    (tools : ToolNames)
    (hlast : ∃ kind ∈ ["response.completed", "response.incomplete"],
      (responsesEvents serde upstream model requestKey tools).getLast?.map Event.kind =
        some kind) :
    CallIdsDistinct (transcript serde upstream).fragments
        (responsesEvents serde upstream model requestKey tools) ↔
      ∀ i ∈ namedIndices (transcript serde upstream).fragments,
        ∀ j ∈ namedIndices (transcript serde upstream).fragments,
          ∀ id ∈ firstId (fragmentsAt i (transcript serde upstream).fragments),
            ∀ id' ∈ firstId (fragmentsAt j (transcript serde upstream).fragments),
              id ≠ id' → ¬ Confused id id' := by
  obtain ⟨st, htracks, -, hitems, -⟩ :=
    responsesEvents_tracks serde upstream model requestKey tools hlast
  generalize (transcript serde upstream).fragments = fs at htracks
  rw [Synthesis.calls_filter_announced, htracks.announced_eq, List.map_map] at hitems
  have hsome {i : ℕ} (hi : i ∈ namedIndices fs) : ∃ id, firstId (fragmentsAt i fs) = some id :=
    Option.isSome_iff_exists.mp (Bool.and_eq_true_iff.mp (List.mem_filter.mp hi).2).1
  constructor
  · rintro ⟨itemAt, hitems', hdistinct⟩ i hi j hj id hid id' hid' hne hconfused
    -- The items are those of the state, so the ids of two confused calls are the same.
    have hsame : ∀ k ∈ namedIndices fs,
        itemAt k = Synthesis.doneItem serde (st.callAt k) := by
      have hmap := List.map_inj_left.mp (hitems'.symm.trans hitems)
      exact fun k hk => hmap k ((List.mem_insertionSort _).mpr hk)
    refine hdistinct i hi j hj ?_ ?_
    · rw [Option.mem_def.mp hid, Option.mem_def.mp hid']
      exact fun h => hne (Option.some.inj h)
    · rw [hsame i hi, hsame j hj, htracks.call_id serde hid, htracks.call_id serde hid',
        (sanitizeIdentifier_eq_iff id id').mpr hconfused]
  · intro happart
    refine ⟨_, hitems, fun i hi j hj hne heq => ?_⟩
    obtain ⟨id, hid⟩ := hsome hi
    obtain ⟨id', hid'⟩ := hsome hj
    rw [hid, hid', ne_eq, Option.some_inj] at hne
    rw [Function.comp_apply, Function.comp_apply, htracks.call_id serde hid,
      htracks.call_id serde hid', Option.some_inj, Value.string.injEq] at heq
    exact happart i hi j hj id hid id' hid' hne ((sanitizeIdentifier_eq_iff id id').mp heq)

/-- A single call keeps its id. -/
theorem responsesEvents_callIds_prompt :
    CallIdsDistinct (transcript Compact.serde promptCompletion).fragments
      (responsesEvents Compact.serde promptCompletion "glm" "key" {}) := by
  obtain ⟨hfragments, hlast⟩ := promptCompletion_reads {}
  refine (responsesEvents_callIds Compact.serde promptCompletion "glm" "key" {}
    ⟨_, by decide, hlast⟩).mpr ?_
  rw [hfragments]
  decide

/-- Two calls whose ids differ by a dot. -/
def dottedCompletion : List Poll :=
  [.chunk (toUtf8 ("data: \x7b\"choices\":[\x7b\"delta\":\x7b\"tool_calls\":[" ++
      "\x7b\"id\":\"a.b\",\"function\":\x7b\"name\":\"ls\"\x7d\x7d," ++
      "\x7b\"index\":1,\"id\":\"ab\",\"function\":\x7b\"name\":\"ls\"\x7d\x7d]\x7d\x7d]\x7d\n\n")),
    .chunk (toUtf8 "data: [DONE]\n\n")]

/-- Both calls have the same id. -/
theorem responsesEvents_callIds_dotted :
    (responsesEvents Compact.serde dottedCompletion "glm" "key" {}).getLast?.map Event.kind =
        some "response.completed" ∧
      ¬ CallIdsDistinct (transcript Compact.serde dottedCompletion).fragments
        (responsesEvents Compact.serde dottedCompletion "glm" "key" {}) := by
  have htranscript : (transcript Compact.serde dottedCompletion).chunks =
        [.obj [("choices", .array [.obj [("delta", .obj [("tool_calls", .array
          [.obj [("id", .string "a.b"), ("function", .obj [("name", .string "ls")])],
            .obj [("index", .number (.posInt 1)), ("id", .string "ab"),
              ("function", .obj [("name", .string "ls")])]])])]])]] ∧
      (transcript Compact.serde dottedCompletion).last = .done ∧
      (transcript Compact.serde dottedCompletion).Addressable := by
    decide +kernel
  obtain ⟨hchunks, hdone, haddressable⟩ := htranscript
  have hevents : (responsesEvents Compact.serde dottedCompletion "glm" "key" {}).getLast?.map
        Event.kind = some "response.completed" ∧
      ((responseItems (responsesEvents Compact.serde dottedCompletion "glm" "key" {})).filter
        isCallItem).map (fun item => item.get "call_id") =
          [some (.string "ab"), some (.string "ab")] ∧
      (namedIndices (transcript Compact.serde dottedCompletion).fragments) = [0, 1] ∧
      firstId (fragmentsAt 0 (transcript Compact.serde dottedCompletion).fragments) =
        some "a.b" ∧
      firstId (fragmentsAt 1 (transcript Compact.serde dottedCompletion).fragments) =
        some "ab" := by
    rw [responsesEvents_eq _ haddressable, Synthesis.replay, Transcript.fragments,
      Transcript.spoken, hchunks, hdone]
    decide
  obtain ⟨hlast, hitems, hnamed, hfirst, hsecond⟩ := hevents
  refine ⟨hlast, ?_⟩
  rintro ⟨itemAt, hitems', hdistinct⟩
  rw [hnamed] at hitems' hdistinct
  have hids : [0, 1].map (fun i => (itemAt i).get "call_id") =
      [some (.string "ab"), some (.string "ab")] := by
    rw [← hitems, hitems', List.map_map]
    rfl
  injection hids with hzero hids
  injection hids with hone
  refine hdistinct 0 (by simp) 1 (by simp) ?_ (hzero.trans hone.symm)
  rw [hfirst, hsecond]
  decide

end MuseCodex.Zai
