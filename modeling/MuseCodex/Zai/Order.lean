import MuseCodex.Zai.Calls

/-!
# The order of the items of a response

An item takes its output index with the first piece that belongs to it, but stands in the output
where it was ended. Reasoning and text end as soon as another piece arrives; tool calls are kept
open and end together, in the order of their own indices. So the output is in the order of the
announced output indices only when the pieces of the completion came in that order already
(`InOrder`, `responsesEvents_ordered`).

`Places` is the abstract machine that hands out the output indices, and nothing else. `Shows`
relates a response to it, and the order is then a property of `Places` alone (`Ranked`).
-/

namespace MuseCodex.Zai

open Text Json

/-! ## The pieces of a completion -/

/-- What a chunk adds to a response: some reasoning or text, or a fragment of a tool call. -/
inductive Piece where
  | text (c : Channel) (delta : String)
  | fragment (call : Value)
deriving DecidableEq

/-- The pieces of a delta, in the order in which they are taken in. -/
def deltaPieces (delta : Map Value) : List Piece :=
  ((nonEmptyStr (delta.get "reasoning_content")).map (Piece.text .reasoning)).toList ++
    ((nonEmptyStr (delta.get "content")).map (Piece.text .message)).toList ++
    (((delta.get "tool_calls").bind Value.asArray).getD []).map Piece.fragment

/-- The pieces of a chunk. -/
def chunkPieces (chunk : Value) : List Piece :=
  (((Synthesis.firstChoice chunk).bind fun choice => (choice.get "delta").bind
    Value.asObject).map deltaPieces).getD []

/-- The pieces that arrive before the end of a completion. -/
def Transcript.pieces (t : Transcript) : List Piece := t.spoken.flatMap chunkPieces

/-- The fragment that a piece is. -/
def Piece.fragment? : Piece → Option Value
  | .text _ _ => none
  | .fragment call => some call

/-- The fragments among some pieces. -/
def fragmentsOf (ps : List Piece) : List Value := ps.filterMap Piece.fragment?

/-- The fragments of two runs of pieces are those of the one and of the other. -/
theorem fragmentsOf_append (ps ps' : List Piece) :
    fragmentsOf (ps ++ ps') = fragmentsOf ps ++ fragmentsOf ps' :=
  List.filterMap_append

/-- The fragments among the pieces of a chunk are those of the chunk. -/
theorem fragmentsOf_chunkPieces (chunk : Value) :
    fragmentsOf (chunkPieces chunk) = chunkFragments chunk := by
  unfold chunkPieces chunkFragments
  cases (Synthesis.firstChoice chunk).bind fun choice => (choice.get "delta").bind
    Value.asObject with
  | none => rfl
  | some delta =>
    have hmap (calls : List Value) : fragmentsOf (calls.map Piece.fragment) = calls := by
      rw [fragmentsOf, List.filterMap_map]
      exact List.filterMap_some
    have htext (c : Channel) (text : Option String) :
        fragmentsOf (text.map (Piece.text c)).toList = [] := by
      cases text <;> rfl
    simp only [Option.map_some, Option.getD_some, Option.bind_some, deltaPieces,
      fragmentsOf_append, htext, hmap, List.nil_append]

/-- The fragments among the pieces of a completion are those that make up its calls. -/
theorem fragmentsOf_pieces (t : Transcript) : fragmentsOf t.pieces = t.fragments := by
  unfold Transcript.pieces Transcript.fragments
  rw [fragmentsOf, List.filterMap_flatMap]
  exact congrArg (List.flatMap · t.spoken) (funext fragmentsOf_chunkPieces)

namespace Synthesis

/-- Takes in one piece. -/
def take (st : Synthesis) : Piece → Synthesis
  | .text .reasoning delta => st.pushReasoning delta
  | .text .message delta => st.pushText delta
  | .fragment call => st.pushToolCall call

/-- A delta is taken in piece by piece. -/
theorem handleDelta_eq (delta : Map Value) (st : Synthesis) :
    st.handleDelta delta = (deltaPieces delta).foldl take st := by
  unfold handleDelta deltaPieces
  rw [List.foldl_append, List.foldl_append, List.foldl_map]
  cases nonEmptyStr (delta.get "reasoning_content") <;>
    cases nonEmptyStr (delta.get "content") <;> rfl

/-- A chunk starts the response, notes the token counts, and is taken in piece by piece. -/
theorem progress_eq (chunk : Value) (st : Synthesis) :
    st.progress chunk = (chunkPieces chunk).foldl take ((st.start chunk).noteUsage chunk) := by
  unfold progress chunkPieces
  cases (firstChoice chunk).bind fun choice => (choice.get "delta").bind Value.asObject with
  | none => rfl
  | some delta => exact handleDelta_eq delta _

/-- A piece is taken in by moves. -/
theorem take_moves (serde : Serde) (piece : Piece) (st : Synthesis) :
    Moves serde st (st.take piece) := by
  cases piece with
  | text c delta =>
    cases c with
    | reasoning => exact Steps.moves serde (pushReasoning_steps serde delta st)
    | message => exact Steps.moves serde (pushText_steps serde delta st)
  | fragment call => exact pushToolCall_moves serde call st

end Synthesis

/-! ## Handing out the output indices -/

/-- The output indices that were handed out: those of the text items that are done, that of the
one being sent, and those of the calls. -/
structure Places where
  closed : List ℕ := []
  current : Option (Channel × ℕ) := none
  call : ℕ → Option ℕ := fun _ => none
  next : ℕ := 0

namespace Places

/-- The indices of all text items. -/
def texts (p : Places) : List ℕ := p.closed ++ (p.current.map Prod.snd).toList

/-- The text item that is being sent is done. -/
def close (p : Places) : Places := { p with closed := p.texts, current := none }

/-- Where no text is open there is none to close. -/
theorem close_of_none {p : Places} (h : p.current = none) : p.close = p := by
  obtain ⟨closed, current, call, next⟩ := p
  rw [close, texts, show current = none from h]
  simp

/-- No text is open if none is on either channel. -/
theorem current_eq_none {p : Places} (h : ∀ c, p.current.map Prod.fst ≠ some c) :
    p.current = none := by
  rw [← Option.map_eq_none_iff (f := Prod.fst), Option.eq_none_iff_forall_ne_some]
  exact h

/-- Takes in one piece: it belongs to the item being sent or to a call that has its index, or else
to a new item. -/
def take (p : Places) : Piece → Places
  | .text c _ =>
    if p.current.map Prod.fst = some c then p
    else { p.close with current := some (c, p.next), next := p.next + 1 }
  | .fragment call =>
    if (p.call (Synthesis.callIndex call)).isSome then p.close
    else { p.close with
      call := Function.update p.call (Synthesis.callIndex call) (some p.next)
      next := p.next + 1 }

end Places

/-! ## What the order depends on -/

/-- Some piece is a fragment for an index. -/
def Occurs (i : ℕ) (ps : List Piece) : Prop :=
  ∃ call, .fragment call ∈ ps ∧ Synthesis.callIndex call = i

/-- Some reasoning or text comes after a fragment for an index. -/
def TextAfter (i : ℕ) (ps : List Piece) : Prop :=
  ∃ before call after, ps = before ++ .fragment call :: after ∧ Synthesis.callIndex call = i ∧
    ∃ c delta, .text c delta ∈ after

/-- Every fragment for the second index comes after one for the first. -/
def Precedes (i j : ℕ) (ps : List Piece) : Prop :=
  ∀ before call after, ps = before ++ .fragment call :: after → Synthesis.callIndex call = j →
    Occurs i before

/-- A text is no call. -/
theorem occurs_concat_text (i : ℕ) (ps : List Piece) (c : Channel) (delta : String) :
    Occurs i (ps ++ [.text c delta]) ↔ Occurs i ps := by
  simp [Occurs]

/-- A fragment is one of its call. -/
theorem occurs_concat_fragment (i : ℕ) (ps : List Piece) (call : Value) :
    Occurs i (ps ++ [.fragment call]) ↔ Occurs i ps ∨ Synthesis.callIndex call = i := by
  simp only [Occurs, List.mem_append, List.mem_singleton, Piece.fragment.injEq]
  constructor
  · rintro ⟨f, hf | rfl, hi⟩
    · exact .inl ⟨f, hf, hi⟩
    · exact .inr hi
  · rintro (⟨f, hf, hi⟩ | hi)
    · exact ⟨f, .inl hf, hi⟩
    · exact ⟨call, .inr rfl, hi⟩

/-- Text at the end comes after every fragment. -/
theorem textAfter_concat_text (i : ℕ) (ps : List Piece) (c : Channel) (delta : String) :
    TextAfter i (ps ++ [.text c delta]) ↔ Occurs i ps := by
  constructor
  · rintro ⟨before, call, after, heq, hi, -⟩
    have hmem : Piece.fragment call ∈ ps ++ [.text c delta] := by rw [heq]; simp
    exact ⟨call, by simpa using hmem, hi⟩
  · rintro ⟨call, hmem, hi⟩
    obtain ⟨before, after, rfl⟩ := List.append_of_mem hmem
    exact ⟨before, call, after ++ [.text c delta], by simp, hi, c, delta, by simp⟩

/-- A fragment at the end has no text after it. -/
theorem textAfter_concat_fragment (i : ℕ) (ps : List Piece) (call : Value) :
    TextAfter i (ps ++ [.fragment call]) ↔ TextAfter i ps := by
  constructor
  · rintro ⟨before, f, after, heq, hi, c, delta, htext⟩
    rcases concat_eq_append_cons heq with ⟨rfl, -⟩ | ⟨after', rfl⟩
    · have hafter : after = [] := (List.cons.inj (List.append_cancel_left heq)).2.symm
      rw [hafter] at htext
      cases htext
    · have hafter : after = after' ++ [.fragment call] := by simpa using heq.symm
      exact ⟨before, f, after', rfl, hi, c, delta, by simpa [hafter] using htext⟩
  · rintro ⟨before, f, after, rfl, hi, c, delta, htext⟩
    exact ⟨before, f, after ++ [.fragment call], by simp, hi, c, delta, by simp [htext]⟩

/-- A text changes nothing in the order of the calls. -/
theorem precedes_concat_text (i j : ℕ) (ps : List Piece) (c : Channel) (delta : String) :
    Precedes i j (ps ++ [.text c delta]) ↔ Precedes i j ps := by
  constructor
  · rintro h before call after rfl hj
    exact h before call (after ++ [.text c delta]) (by simp) hj
  · rintro h before call after heq hj
    rcases concat_eq_append_cons heq with ⟨-, habsurd⟩ | ⟨after', rfl⟩
    · cases habsurd
    · exact h before call after' rfl hj

/-- A fragment at the end must come after one for the first index. -/
theorem precedes_concat_fragment (i j : ℕ) (ps : List Piece) (call : Value) :
    Precedes i j (ps ++ [.fragment call]) ↔
      Precedes i j ps ∧ (Synthesis.callIndex call = j → Occurs i ps) := by
  constructor
  · intro h
    refine ⟨?_, h ps call [] rfl⟩
    rintro before f after rfl hj
    exact h before f (after ++ [.fragment call]) (by simp) hj
  · rintro ⟨h, hlast⟩ before f after heq hj
    rcases concat_eq_append_cons heq with ⟨rfl, hf⟩ | ⟨after', rfl⟩
    · cases hf
      exact hlast hj
    · exact h before f after' rfl hj

/-- Where the second index has a fragment, the first one has. -/
theorem Precedes.occurs {i j : ℕ} {ps : List Piece} (h : Precedes i j ps) (hj : Occurs j ps) :
    Occurs i ps := by
  obtain ⟨call, hmem, hcall⟩ := hj
  obtain ⟨before, after, rfl⟩ := List.append_of_mem hmem
  obtain ⟨f, hf, hi⟩ := h before call after rfl hcall
  exact ⟨f, by simp [hf], hi⟩

/-- An index that has no fragment is preceded by every index. -/
theorem precedes_of_not_occurs {i j : ℕ} {ps : List Piece} (hj : ¬ Occurs j ps) :
    Precedes i j ps := by
  rintro before call after rfl hcall
  exact absurd ⟨call, by simp, hcall⟩ hj

/-! ## The indices follow the pieces -/

/-- The indices that were handed out for some pieces stand in the order of these pieces. -/
structure Ranked (ps : List Piece) (p : Places) : Prop where
  /-- The text items have increasing indices. -/
  texts : p.texts.Pairwise (· < ·)
  taken : ∀ k ∈ p.texts, k < p.next
  /-- The calls that have an index are those that received a fragment. -/
  occurs : ∀ i, (p.call i).isSome ↔ Occurs i ps
  /-- The index of a call was taken, is not that of a text item, and is less than that of the text
  item being sent. -/
  calls : ∀ i k, p.call i = some k → k < p.next ∧ k ∉ p.texts ∧
    ∀ c m, p.current = some (c, m) → k < m
  after : ∀ i k, p.call i = some k → ((∃ m ∈ p.texts, k < m) ↔ TextAfter i ps)
  order : ∀ i j k m, i ≠ j → p.call i = some k → p.call j = some m →
    (k < m ↔ Precedes i j ps)

namespace Ranked

/-- Nothing is ranked before the first piece. -/
theorem nil : Ranked [] {} where
  texts := .nil
  taken := by simp [Places.texts]
  occurs i := by simp [Occurs]
  calls i k h := by cases h
  after i k h := by cases h
  order i j k m _ h := by cases h

variable {ps : List Piece} {p : Places} (h : Ranked ps p)
include h

/-- A piece of the text item that is being sent. -/
theorem text_same {c : Channel} {m : ℕ} (hcurrent : p.current = some (c, m)) (delta : String) :
    Ranked (ps ++ [.text c delta]) p where
  texts := h.texts
  taken := h.taken
  occurs i := by rw [occurs_concat_text, h.occurs]
  calls := h.calls
  after i k hk := by
    -- The item being sent comes after every call, so there was text after the call before.
    have hm : m ∈ p.texts := by simp [Places.texts, hcurrent]
    have hocc : Occurs i ps := (h.occurs i).mp (by simp [hk])
    have hlt : k < m := (h.calls i k hk).2.2 c m hcurrent
    rw [textAfter_concat_text]
    exact ⟨fun _ => hocc, fun _ => ⟨m, hm, hlt⟩⟩
  order i j k m hij hi hj := by rw [precedes_concat_text, h.order i j k m hij hi hj]

/-- The first piece of a text item. -/
theorem text_new (c : Channel) (delta : String) : Ranked (ps ++ [.text c delta])
    { p.close with current := some (c, p.next), next := p.next + 1 } := by
  have htexts : Places.texts { p.close with current := some (c, p.next), next := p.next + 1 } =
      p.texts ++ [p.next] := rfl
  refine ⟨?_, ?_, ?_, ?_, ?_, ?_⟩
  · rw [htexts, List.pairwise_append]
    exact ⟨h.texts, by simp, by simpa using h.taken⟩
  · rw [htexts]
    intro k hk
    rcases List.mem_append.mp hk with hk | hk
    · exact Nat.lt_succ_of_lt (h.taken k hk)
    · rw [List.mem_singleton.mp hk]
      exact Nat.lt_succ_self _
  · intro i
    rw [occurs_concat_text]
    exact h.occurs i
  · intro i k hk
    have hlt : k < p.next := (h.calls i k hk).1
    refine ⟨Nat.lt_succ_of_lt hlt, ?_, ?_⟩
    · rw [htexts, List.mem_append, List.mem_singleton]
      rintro (hmem | rfl)
      · exact (h.calls i k hk).2.1 hmem
      · exact lt_irrefl _ hlt
    · rintro d m hm
      cases hm
      exact hlt
  · intro i k hk
    -- The text comes after every call so far.
    have hocc : Occurs i ps := (h.occurs i).mp (by rw [show p.call i = some k from hk]; rfl)
    rw [textAfter_concat_text, htexts]
    exact ⟨fun _ => hocc, fun _ => ⟨p.next, by simp, (h.calls i k hk).1⟩⟩
  · intro i j k m hij hi hj
    rw [precedes_concat_text]
    exact h.order i j k m hij hi hj

/-- Any fragment ends the text item that is being sent. -/
theorem close {call : Value} (hcall : (p.call (Synthesis.callIndex call)).isSome) :
    Ranked (ps ++ [.fragment call]) p.close := by
  have htexts : p.close.texts = p.texts := List.append_nil _
  refine ⟨?_, ?_, ?_, ?_, ?_, ?_⟩
  · rw [htexts]
    exact h.texts
  · rw [htexts]
    exact h.taken
  · intro i
    rw [occurs_concat_fragment, ← h.occurs]
    refine ⟨.inl, ?_⟩
    rintro (hi | rfl)
    · exact hi
    · exact hcall
  · intro i k hk
    rw [htexts]
    exact ⟨(h.calls i k hk).1, (h.calls i k hk).2.1, fun c m hm => by cases hm⟩
  · intro i k hk
    rw [htexts, textAfter_concat_fragment]
    exact h.after i k hk
  · intro i j k m hij hi hj
    rw [precedes_concat_fragment, h.order i j k m hij hi hj]
    refine ⟨fun hpre => ⟨hpre, fun _ => hpre.occurs ((h.occurs j).mp ?_)⟩, And.left⟩
    rw [show p.call j = some m from hj]
    rfl

/-- The first fragment of a call. -/
theorem fragment_new {call : Value} (hcall : p.call (Synthesis.callIndex call) = none) :
    Ranked (ps ++ [.fragment call]) { p.close with
      call := Function.update p.call (Synthesis.callIndex call) (some p.next)
      next := p.next + 1 } := by
  have htexts : Places.texts { p.close with
      call := Function.update p.call (Synthesis.callIndex call) (some p.next)
      next := p.next + 1 } = p.texts := List.append_nil _
  have hnot : ¬ Occurs (Synthesis.callIndex call) ps := by
    rw [← h.occurs, hcall]
    exact Bool.false_ne_true
  -- A call has the new place, or the place that it had.
  have hold {i k : ℕ} (hk : Function.update p.call (Synthesis.callIndex call) (some p.next) i =
      some k) : (i = Synthesis.callIndex call ∧ k = p.next) ∨
        (i ≠ Synthesis.callIndex call ∧ p.call i = some k) := by
    by_cases hi : i = Synthesis.callIndex call
    · rw [hi, Function.update_self] at hk
      exact .inl ⟨hi, (Option.some.inj hk).symm⟩
    · rw [Function.update_of_ne hi] at hk
      exact .inr ⟨hi, hk⟩
  refine ⟨?_, ?_, ?_, ?_, ?_, ?_⟩
  · rw [htexts]
    exact h.texts
  · rw [htexts]
    exact fun k hk => Nat.lt_succ_of_lt (h.taken k hk)
  · intro i
    rw [occurs_concat_fragment, ← h.occurs]
    by_cases hi : i = Synthesis.callIndex call
    · simp [hi]
    · simp [hi, Ne.symm hi]
  · intro i k hk
    rw [htexts]
    refine ⟨?_, ?_, fun c m hm => by cases hm⟩
    · rcases hold hk with ⟨-, rfl⟩ | ⟨-, hk⟩
      · exact Nat.lt_succ_self _
      · exact Nat.lt_succ_of_lt (h.calls i k hk).1
    · rcases hold hk with ⟨-, rfl⟩ | ⟨-, hk⟩
      · exact fun hmem => lt_irrefl _ (h.taken _ hmem)
      · exact (h.calls i k hk).2.1
  · intro i k hk
    rw [htexts, textAfter_concat_fragment]
    rcases hold hk with ⟨rfl, rfl⟩ | ⟨-, hk⟩
    · -- All text came before the call.
      constructor
      · rintro ⟨m, hm, hlt⟩
        exact absurd (h.taken m hm) (Nat.lt_asymm hlt)
      · rintro ⟨before, f, after, rfl, hi, -⟩
        exact absurd ⟨f, by simp, hi⟩ hnot
    · exact h.after i k hk
  · intro i j k m hij hi hj
    rw [precedes_concat_fragment]
    rcases hold hi with ⟨rfl, rfl⟩ | ⟨hi', hi⟩
    · rcases hold hj with ⟨rfl, -⟩ | ⟨-, hj⟩
      · exact absurd rfl hij
      · -- The other call has a fragment, and the new one had none before it.
        have hocc : Occurs j ps := (h.occurs j).mp (by rw [hj]; rfl)
        have hlt : m < p.next := (h.calls j m hj).1
        exact ⟨fun hlt' => absurd hlt (Nat.lt_asymm hlt'),
          fun hpre => absurd (hpre.1.occurs hocc) hnot⟩
    · have hocc : Occurs i ps := (h.occurs i).mp (by rw [hi]; rfl)
      rcases hold hj with ⟨rfl, rfl⟩ | ⟨hj', hj⟩
      · exact ⟨fun _ => ⟨precedes_of_not_occurs hnot, fun _ => hocc⟩,
          fun _ => (h.calls i k hi).1⟩
      · rw [h.order i j k m hij hi hj]
        exact ⟨fun hpre => ⟨hpre, fun heq => absurd heq.symm hj'⟩, And.left⟩

/-- One more piece. -/
theorem take (piece : Piece) : Ranked (ps ++ [piece]) (p.take piece) := by
  cases piece with
  | text c delta =>
    simp only [Places.take]
    split_ifs with hc
    · obtain ⟨⟨d, m⟩, hcurrent, rfl⟩ := Option.map_eq_some_iff.mp hc
      exact h.text_same hcurrent delta
    · exact h.text_new c delta
  | fragment call =>
    simp only [Places.take]
    split_ifs with hc
    · exact h.close hc
    · exact h.fragment_new (Option.not_isSome_iff_eq_none.mp hc)

end Ranked

/-- The indices that are handed out follow the pieces. -/
theorem ranked (ps : List Piece) : Ranked ps (ps.foldl Places.take {}) := by
  induction ps using List.reverseRecOn with
  | nil => exact .nil
  | append_singleton ps piece ih =>
    rw [List.foldl_append]
    exact ih.take piece

/-- The output is in the order of its indices: no reasoning or text comes after a call that is
announced, and the first fragments of these calls come in the order of their indices. -/
theorem Ranked.pairwise_iff {ps : List Piece} {p : Places} (h : Ranked ps p) {is : List ℕ}
    (his : is.Pairwise (· < ·)) {place : ℕ → ℕ} (hplace : ∀ i ∈ is, p.call i = some (place i)) :
    (p.texts ++ is.map place).Pairwise (· < ·) ↔
      (∀ i ∈ is, ¬ TextAfter i ps) ∧ ∀ i ∈ is, ∀ j ∈ is, i < j → Precedes i j ps := by
  rw [List.pairwise_append, List.pairwise_map]
  have htexts : (∀ k ∈ p.texts, ∀ m ∈ is.map place, k < m) ↔ ∀ i ∈ is, ¬ TextAfter i ps := by
    constructor
    · intro hlt i hi htext
      obtain ⟨m, hm, hmlt⟩ := (h.after i _ (hplace i hi)).mpr htext
      exact Nat.lt_asymm hmlt (hlt m hm _ (List.mem_map_of_mem hi))
    · intro hnot k hk m hm
      obtain ⟨i, hi, rfl⟩ := List.mem_map.mp hm
      -- The indices of a call and a text item differ, so one of them is less.
      rcases Nat.lt_trichotomy k (place i) with hlt | heq | hlt
      · exact hlt
      · exact absurd (heq ▸ hk) (h.calls i _ (hplace i hi)).2.1
      · exact absurd ((h.after i _ (hplace i hi)).mp ⟨k, hk, hlt⟩) (hnot i hi)
  have hcalls : (is.Pairwise fun i j => place i < place j) ↔
      ∀ i ∈ is, ∀ j ∈ is, i < j → Precedes i j ps := by
    constructor
    · intro hpair i hi j hj hij
      rw [← h.order i j _ _ hij.ne (hplace i hi) (hplace j hj)]
      refine List.Pairwise.forall_of_forall_of_flip (R := fun i j => i < j → place i < place j)
        ?_ ?_ ?_ hi hj hij
      · exact fun i _ hlt => absurd hlt (lt_irrefl i)
      · exact hpair.imp fun {i j} hlt (_ : i < j) => hlt
      · exact his.imp fun hlt hgt => absurd hgt (Nat.lt_asymm hlt)
    · intro hpre
      refine his.imp_of_mem ?_
      intro i j hi hj hij
      exact (h.order i j _ _ hij.ne (hplace i hi) (hplace j hj)).mpr (hpre i hi j hj hij)
  rw [htexts, hcalls]
  exact ⟨fun hall => ⟨hall.2.2, hall.2.1⟩, fun hall => ⟨h.texts, hall.2, hall.1⟩⟩

/-! ## A response hands out the indices -/

namespace Synthesis

/-- The output indices of a response are those of an abstract state. -/
structure Shows (p : Places) (st : Synthesis) : Prop where
  output : List.Forall₂ (fun item k => ∃ tag, idOf item = some (st.itemId tag k)) st.output
    p.closed
  slots : ∀ c k, (st.slot c).map TextItem.outputIndex = some k ↔ p.current = some (c, k)
  calls : ∀ i k, p.call i = some k ↔ (st.callAt i).id ≠ "" ∧ (st.callAt i).outputIndex = k
  next : st.nextOutputIndex = p.next

/-- A step that hands out no index and ends no item. -/
structure Still (st st' : Synthesis) : Prop where
  output : st'.output = st.output
  slot : ∀ c, (st'.slot c).map TextItem.outputIndex = (st.slot c).map TextItem.outputIndex
  call : ∀ i, (st'.callAt i).id = (st.callAt i).id ∧
    (st'.callAt i).outputIndex = (st.callAt i).outputIndex
  next : st'.nextOutputIndex = st.nextOutputIndex
  stem : st'.idStem = st.idStem

/-- Doing nothing leaves the output still. -/
theorem still_refl (st : Synthesis) : Still st st := ⟨rfl, fun _ => rfl, fun _ => ⟨rfl, rfl⟩, rfl, rfl⟩

/-- Two steps that leave the output still are one. -/
theorem Still.trans {st st' st'' : Synthesis} (h : Still st st') (h' : Still st' st'') :
    Still st st'' where
  output := h'.output.trans h.output
  slot c := (h'.slot c).trans (h.slot c)
  call i := ⟨(h'.call i).1.trans (h.call i).1, (h'.call i).2.trans (h.call i).2⟩
  next := h'.next.trans h.next
  stem := h'.stem.trans h.stem

/-- A step that leaves the output still shows the same places. -/
theorem Shows.still {p : Places} {st st' : Synthesis} (h : Shows p st) (hstill : Still st st') :
    Shows p st' where
  output := by
    rw [hstill.output]
    simp only [itemId_congr hstill.stem]
    exact h.output
  slots c k := by
    rw [hstill.slot]
    exact h.slots c k
  calls i k := by
    rw [(hstill.call i).1, (hstill.call i).2]
    exact h.calls i k
  next := hstill.next.trans h.next

/-- An event leaves the output still. -/
theorem emit_still (kind : String) (body : List (String × Value)) (st : Synthesis) :
    Still st (st.emit kind body) :=
  ⟨rfl, fun c => by rw [slot_emit], fun _ => ⟨rfl, rfl⟩, rfl, rfl⟩

/-- A call that keeps its item and its place can be set. -/
theorem setCall_still {index : ℕ} {st : Synthesis} (hi : index < st.calls.length)
    {entry : PendingCall} (hid : entry.id = (st.callAt index).id)
    (hindex : entry.outputIndex = (st.callAt index).outputIndex) :
    Still st (st.setCall index entry) := by
  refine ⟨rfl, fun c => congrArg _ (slot_congr rfl rfl c), fun i => ?_, rfl, rfl⟩
  by_cases h : i = index
  · rw [h, callAt_setCall hi]
    exact ⟨hid, hindex⟩
  · rw [callAt_setCall_of_ne h]
    exact ⟨rfl, rfl⟩

/-- The table of calls can grow. -/
theorem growCalls_still (index : ℕ) (st : Synthesis) : Still st (st.growCalls index) :=
  ⟨rfl, fun c => congrArg _ (slot_congr rfl rfl c),
    fun i => by rw [(growCalls_quiet index st).call]; exact ⟨rfl, rfl⟩, rfl, rfl⟩

/-- A call can take its id. -/
theorem identifyCall_still {index : ℕ} {st : Synthesis} (hi : index < st.calls.length)
    (call : Value) : Still st (st.identifyCall index call) := by
  unfold identifyCall
  dsimp only
  split
  · split_ifs
    · exact setCall_still hi rfl rfl
    · exact still_refl st
  · exact still_refl st

/-- A call can take its name. -/
theorem nameCall_still {index : ℕ} {st : Synthesis} (hi : index < st.calls.length)
    (call : Value) : Still st (st.nameCall index call) := by
  unfold nameCall
  dsimp only
  split
  · split_ifs
    · exact setCall_still hi rfl rfl
    · exact still_refl st
  · exact still_refl st

/-- A call can be announced. -/
theorem announceCall_still {index : ℕ} {st : Synthesis} (hi : index < st.calls.length) :
    Still st (st.announceCall index) := by
  unfold announceCall
  dsimp only
  split_ifs
  · refine Still.trans ?_ (emit_still _ _ _)
    exact setCall_still hi rfl rfl
  · exact still_refl st

/-- A call can take arguments. -/
theorem pushArguments_still {index : ℕ} {st : Synthesis} (hi : index < st.calls.length)
    (call : Value) : Still st (st.pushArguments index call) := by
  unfold pushArguments
  dsimp only
  split
  · split_ifs
    · refine Still.trans ?_ (emit_still _ _ _)
      exact setCall_still hi rfl rfl
    · exact setCall_still hi rfl rfl
  · exact still_refl st

/-- A text can go on. -/
theorem extendItem_still (c : Channel) (delta : String) (st : Synthesis) :
    Still st (st.extendItem c delta) := by
  unfold extendItem
  cases hslot : st.slot c with
  | none => exact still_refl st
  | some current =>
    refine Still.trans ⟨by cases c <;> rfl, fun d => ?_, fun i => ?_, by cases c <;> rfl,
      by cases c <;> rfl⟩ (emit_still _ _ _)
    · by_cases hd : d = c
      · rw [hd, slot_setSlot, hslot]
        rfl
      · rw [slot_setSlot_of_ne hd]
    · rw [callAt_congr (by cases c <;> rfl)]
      exact ⟨rfl, rfl⟩

namespace Shows

variable {p : Places} {st : Synthesis} (h : Shows p st)
include h

/-- No item of a channel is being sent when the abstract state is at none of that channel. -/
theorem slot_eq_none {c : Channel} (hc : p.current.map Prod.fst ≠ some c) : st.slot c = none := by
  rw [← Option.map_eq_none_iff, Option.eq_none_iff_forall_ne_some]
  intro k hk
  rw [(h.slots c k).mp hk] at hc
  exact hc rfl

/-- Ending an item of a channel. -/
theorem closeItem (hs : st.Sound) (c : Channel) :
    Shows (if p.current.map Prod.fst = some c then p.close else p) (st.closeItem c) := by
  split_ifs with hc
  · obtain ⟨⟨d, k⟩, hcurrent, rfl⟩ := Option.map_eq_some_iff.mp hc
    obtain ⟨current, hslot, hk⟩ := Option.map_eq_some_iff.mp ((h.slots d k).mpr hcurrent)
    have hid : current.id = st.itemId d.idTag k := by
      rw [hs.consistent.slots d current hslot, hk]
    have houtput : (st.closeItem d).output =
        st.output ++ [d.item current.id "completed" [d.part current.text]] := by
      rw [Synthesis.closeItem, hslot]
      cases d <;> rfl
    have hstem : (st.closeItem d).idStem = st.idStem := by
      rw [Synthesis.closeItem, hslot]
      cases d <;> rfl
    have hnext : (st.closeItem d).nextOutputIndex = st.nextOutputIndex := by
      rw [Synthesis.closeItem, hslot]
      cases d <;> rfl
    -- The place of the text is the last of those that are closed.
    have htexts : p.close.closed = p.closed ++ [k] := by
      rw [Places.close, Places.texts, hcurrent]
      rfl
    refine ⟨?_, fun c m => ?_, fun i m => ?_, hnext.trans h.next⟩
    · rw [houtput, htexts]
      simp only [itemId_congr hstem]
      refine List.rel_append h.output (.cons ⟨d.idTag, ?_⟩ .nil)
      rw [← hid]
      exact (d.item_reads _ _ _).1
    · -- The only item that was being sent is done.
      have hnone : (st.closeItem d).slot c = none := by
        rw [slot_closeItem]
        split_ifs with hcd
        · rfl
        · exact h.slot_eq_none (by rw [hcurrent]; exact fun heq => hcd (Option.some.inj heq).symm)
      rw [hnone]
      simp [Places.close]
    · rw [callAt_congr (closeItem_calls d st)]
      exact h.calls i m
  · rw [Synthesis.closeItem, h.slot_eq_none hc]
    exact h

/-- Starting an item of a channel while none is being sent. -/
theorem openItem (hcurrent : p.current = none) (c : Channel) :
    Shows { p with current := some (c, p.next), next := p.next + 1 } (st.openItem c) := by
  have hslot : st.slot c = none := h.slot_eq_none (by rw [hcurrent]; exact fun heq => by cases heq)
  have houtput : (st.openItem c).output = st.output := by
    rw [Synthesis.openItem, hslot]
    cases c <;> rfl
  have hstem : (st.openItem c).idStem = st.idStem := by
    rw [Synthesis.openItem, hslot]
    cases c <;> rfl
  have hnext : (st.openItem c).nextOutputIndex = st.nextOutputIndex + 1 := by
    rw [Synthesis.openItem, hslot]
    cases c <;> rfl
  refine ⟨?_, fun d k => ?_, fun i k => ?_, by rw [hnext, h.next]⟩
  · rw [houtput]
    simp only [itemId_congr hstem]
    exact h.output
  · rw [Synthesis.openItem, hslot]
    dsimp only
    by_cases hd : d = c
    · rw [hd, slot_setSlot, h.next]
      simp
    · rw [slot_setSlot_of_ne hd, slot_emit, slot_emit]
      have hnone : st.slot d = none :=
        h.slot_eq_none (by rw [hcurrent]; exact fun heq => by cases heq)
      have hsame : Synthesis.slot d { st with nextOutputIndex := st.nextOutputIndex + 1 } =
          st.slot d := slot_congr rfl rfl d
      rw [hsame, hnone]
      simp [Ne.symm hd]
  · rw [(openItem_quiet c st).call]
    exact h.calls i k

/-- Sending a piece of text on a channel, after the item of the other one. -/
theorem pushItem (hs : st.Sound) {c d : Channel} (hd : d ≠ c) (delta : String) :
    Shows (p.take (.text c delta)) (((st.closeItem d).openItem c).extendItem c delta) := by
  refine Shows.still ?_ (extendItem_still c delta _)
  have hclose := h.closeItem hs d
  simp only [Places.take]
  split_ifs with hc
  · rw [hc, if_neg (fun heq => hd (Option.some.inj heq).symm)] at hclose
    -- The item is already being sent.
    have hopen : (st.closeItem d).openItem c = st.closeItem d := by
      obtain ⟨⟨c, k⟩, hcurrent, rfl⟩ := Option.map_eq_some_iff.mp hc
      obtain ⟨current, hslot, -⟩ := Option.map_eq_some_iff.mp ((hclose.slots c k).mpr hcurrent)
      rw [Synthesis.openItem, hslot]
    rw [hopen]
    exact hclose
  · have hother (c' : Channel) : c' = c ∨ c' = d := by
      cases c <;> cases d <;> cases c' <;> simp_all
    split_ifs at hclose with hcd
    · exact hclose.openItem rfl c
    · have hcurrent : p.current = none := by
        refine Places.current_eq_none fun c' hc' => ?_
        rcases hother c' with rfl | rfl
        · exact hc hc'
        · exact hcd hc'
      rw [Places.close_of_none hcurrent]
      exact hclose.openItem hcurrent c

/-- Ending whichever text item is being sent. -/
theorem closeTexts (serde : Serde) (hs : st.Sound) :
    Shows p.close st.closeReasoning.closeMessage := by
  have hreasoning := h.closeItem hs .reasoning
  have hs' : (st.closeItem .reasoning).Sound := (closeItem_steps serde .reasoning st).sound hs
  split_ifs at hreasoning with hc
  · -- It was a reasoning item, so there is nothing left to end.
    have hmessage := hreasoning.closeItem hs' .message
    rw [if_neg (by simp [Places.close])] at hmessage
    exact hmessage
  · have hmessage := hreasoning.closeItem hs' .message
    split_ifs at hmessage with hc'
    · exact hmessage
    · have hcurrent : p.current = none := by
        refine Places.current_eq_none fun c heq => ?_
        cases c with
        | reasoning => exact hc heq
        | message => exact hc' heq
      rw [Places.close_of_none hcurrent]
      exact hmessage

/-- A call gets its index with its first fragment. -/
theorem reserveCall {index : ℕ} (hi : index < st.calls.length) :
    Shows (if (p.call index).isSome then p else { p with
      call := Function.update p.call index (some p.next)
      next := p.next + 1 }) (st.reserveCall index) := by
  have hsome : (p.call index).isSome ↔ (st.callAt index).id ≠ "" := by
    rw [Option.isSome_iff_exists]
    exact ⟨fun ⟨k, hk⟩ => ((h.calls index k).mp hk).1, fun hid => ⟨_, (h.calls index _).mpr ⟨hid, rfl⟩⟩⟩
  unfold Synthesis.reserveCall
  dsimp only
  split_ifs with hcall hid hid
  · exact absurd hid (hsome.mp hcall)
  · exact h
  · refine ⟨h.output, fun c k => ?_, fun i k => ?_, ?_⟩
    · rw [← h.slots c k]
      exact Eq.congr_left (congrArg _ (slot_congr rfl rfl c))
    · dsimp only
      by_cases heq : i = index
      · rw [heq, Function.update_self, callAt_setCall (by exact hi)]
        simp [itemId_ne_empty, h.next]
      · rw [Function.update_of_ne heq, callAt_setCall_of_ne heq]
        exact h.calls i k
    · rw [← h.next]
      rfl
  · exact absurd (hsome.mpr hid) hcall

/-- A fragment of a tool call. -/
theorem pushToolCall (serde : Serde) (hs : st.Sound) (call : Value) :
    Shows (p.take (.fragment call)) (st.pushToolCall call) := by
  unfold Synthesis.pushToolCall
  dsimp only
  have hgrow := (h.closeTexts serde hs).still (growCalls_still (callIndex call) _)
  have hi := growCalls_length (callIndex call) st.closeReasoning.closeMessage
  have hreserve := hgrow.reserveCall hi
  rw [← reserveCall_length] at hi
  have hidentify := identifyCall_still hi call
  rw [← (identifyCall_prepares serde hi call).length] at hi
  have hname := nameCall_still hi call
  rw [← (nameCall_prepares serde hi call).length] at hi
  have hannounce := announceCall_still hi
  rw [← (announceCall_edits hi).length] at hi
  exact hreserve.still (((hidentify.trans hname).trans hannounce).trans
    (pushArguments_still hi call))

/-- One more piece. -/
theorem take (serde : Serde) (hs : st.Sound) (piece : Piece) :
    Shows (p.take piece) (st.take piece) := by
  cases piece with
  | text c delta =>
    cases c with
    | reasoning => exact h.pushItem hs (by decide) delta
    | message => exact h.pushItem hs (by decide) delta
  | fragment call => exact h.pushToolCall serde hs call

/-- Some more pieces. -/
theorem foldl_take (serde : Serde) (hs : st.Sound) (ps : List Piece) :
    Shows (ps.foldl Places.take p) (ps.foldl Synthesis.take st) := by
  induction ps generalizing p st with
  | nil => exact h
  | cons piece ps ih =>
    exact ih (h.take serde hs piece) ((take_moves serde piece st).sound hs)

end Shows

/-- The usage can be noted. -/
theorem noteUsage_still (chunk : Value) (st : Synthesis) : Still st (st.noteUsage chunk) := by
  unfold noteUsage
  split
  · exact ⟨rfl, fun c => congrArg _ (slot_congr rfl rfl c), fun _ => ⟨rfl, rfl⟩, rfl, rfl⟩
  · exact still_refl st

/-- No index was handed out before the first piece. -/
theorem start_shows (model requestKey : String) (tools : ToolNames) (chunk : Value) :
    Shows {} (start chunk { model, requestKey, tools }) := by
  refine ⟨.nil, fun c k => ?_, fun i k => ?_, rfl⟩
  · cases c <;> exact ⟨nofun, nofun⟩
  · exact ⟨nofun, fun h => absurd rfl h.1⟩

/-- The indices after all chunks of a completion. -/
theorem foldl_progress_shows (serde : Serde) (model requestKey : String) (tools : ToolNames)
    {chunks : List Value} (hne : chunks ≠ []) :
    Shows ((chunks.flatMap chunkPieces).foldl Places.take {})
      (chunks.foldl (fun st chunk => st.progress chunk) { model, requestKey, tools }) := by
  induction chunks using List.reverseRecOn with
  | nil => exact absurd rfl hne
  | append_singleton chunks chunk ih =>
    rw [List.foldl_append, List.flatMap_append, List.flatMap_singleton, List.foldl_append,
      List.foldl_cons, List.foldl_nil, progress_eq]
    have husage (st : Synthesis) : Moves serde (st.start chunk) ((st.start chunk).noteUsage chunk) := by
      unfold noteUsage
      split
      · exact .single (.usage _)
      · exact .refl
    by_cases hnil : chunks = []
    · rw [hnil]
      exact ((start_shows model requestKey tools chunk).still (noteUsage_still chunk _)).foldl_take
        serde ((husage _).sound (start_sound model requestKey tools chunk)) _
    · -- The response has started, so the chunk only goes on with it.
      have hbegun := foldl_progress_begun serde hnil { model, requestKey, tools }
      have hstart := hbegun.started
      generalize chunks.foldl (fun (st : Synthesis) chunk => st.progress chunk)
        { model, requestKey, tools } = st at ih hbegun hstart ⊢
      have hsame : st.start chunk = st := by rw [start, if_pos hstart]
      have hsound := (husage st).sound (by rw [hsame]; exact hbegun.sound)
      rw [hsame] at hsound ⊢
      exact ((ih hnil).still (noteUsage_still chunk st)).foldl_take serde hsound _

end Synthesis

/-! ## The order of the output -/

/-- The output index that was announced for an item when it was added. -/
def announcedIndex (es : List Event) (item : Value) : Option ℕ :=
  (es.find? fun e => e.isAdded && e.itemId = idOf item).bind Event.outputIndex

/-- The items of the response stand in the order of the output indices that were announced for
them. -/
def OutputOrdered (es : List Event) : Prop :=
  ∃ indices : List ℕ, (responseItems es).map (announcedIndex es) = indices.map some ∧
    indices.Pairwise (· < ·)

/-- Whether the call with an index gets an id and a tool name. -/
def isNamedAt (i : ℕ) (ps : List Piece) : Bool := isNamed (fragmentsAt i (fragmentsOf ps))

/-- The pieces of a completion come in the order of the items: after the first fragment of a call
that gets an id and a tool name there is no further reasoning or text, and before it there is one
for every such call with a smaller index. -/
def InOrder (ps : List Piece) : Prop :=
  ∀ before call after, ps = before ++ .fragment call :: after →
    isNamedAt (Synthesis.callIndex call) ps →
    (∀ c delta, .text c delta ∉ after) ∧
      ∀ i < Synthesis.callIndex call, isNamedAt i ps → Occurs i before

/-- The order of the pieces, call by call. -/
theorem inOrder_iff (ps : List Piece) : InOrder ps ↔
    (∀ i, isNamedAt i ps → ¬ TextAfter i ps) ∧
      ∀ i j, isNamedAt i ps → isNamedAt j ps → i < j → Precedes i j ps := by
  constructor
  · intro h
    constructor
    · rintro i hi ⟨before, call, after, heq, rfl, c, delta, htext⟩
      exact (h before call after heq hi).1 c delta htext
    · rintro i j hi hj hij before call after heq rfl
      exact (h before call after heq hj).2 i hij hi
  · rintro ⟨htext, hpre⟩ before call after heq hcall
    constructor
    · intro c delta hmem
      exact htext _ hcall ⟨before, call, after, heq, rfl, c, delta, hmem⟩
    · intro i hi hnamed
      exact hpre i _ hnamed hcall hi before call after heq rfl

namespace Synthesis

/-- An item that is done was added. -/
theorem Sound.added_of_output {st : Synthesis} (h : st.Sound) {item : Value}
    (hitem : item ∈ st.output) : ∃ e ∈ st.pending, e.isAdded = true ∧ e.itemId = idOf item := by
  rw [h.consistent.output] at hitem
  obtain ⟨e, he, hitem⟩ := List.mem_filterMap.mp hitem
  obtain ⟨he, hdone⟩ := List.mem_filter.mp he
  have hnotAdded : e.isAdded = false := by
    have hkind : e.kind = "response.output_item.done" := by simpa [Event.isDone] using hdone
    simp [Event.isAdded, hkind]
  have hmark : e.mark = .closes (idOf item) := by
    rw [Event.mark, if_neg (by rw [hnotAdded]; exact Bool.false_ne_true), if_pos hdone,
      Event.itemId, hitem]
    rfl
  have hclosed : idOf item ∈ Bracketing.closed (marks st.pending) :=
    List.mem_filterMap.mpr ⟨e.mark, List.mem_map_of_mem he, by rw [hmark]⟩
  -- Only an item that was added can be done.
  have hopened := h.ledger.brackets.closed_subset_nodup.1 hclosed
  rw [opened_marks] at hopened
  obtain ⟨pair, hpair, hid⟩ := List.mem_map.mp hopened
  obtain ⟨e', he', rfl⟩ := List.mem_map.mp hpair
  obtain ⟨he', hadded⟩ := List.mem_filter.mp he'
  exact ⟨e', he', hadded, hid⟩

/-- An item that is done was announced with the index in its id. -/
theorem Sound.announcedIndex_eq {st : Synthesis} (h : st.Sound) {item : Value}
    (hitem : item ∈ st.output) {tag : String} {k : ℕ} (hid : idOf item = some (st.itemId tag k))
    (es : List Event) : announcedIndex (st.pending ++ es) item = some k := by
  obtain ⟨e, he, hadded, heid⟩ := h.added_of_output hitem
  have hsome : (st.pending.find? fun e => e.isAdded && e.itemId = idOf item).isSome := by
    rw [List.find?_isSome]
    exact ⟨e, he, by simp [hadded, heid]⟩
  obtain ⟨e', hfind⟩ := Option.isSome_iff_exists.mp hsome
  have hmem := List.mem_of_find?_eq_some hfind
  have hprop := List.find?_some hfind
  simp only [Bool.and_eq_true, decide_eq_true_eq] at hprop
  have hview : (e'.itemId, e'.outputIndex) ∈ (view st.pending).added :=
    List.mem_map.mpr ⟨e', List.mem_filter.mpr ⟨hmem, hprop.1⟩, rfl⟩
  obtain ⟨tag', i, hpair, -⟩ := h.consistent.added _ hview
  obtain ⟨hfst, hsnd⟩ := Prod.mk.inj hpair
  -- Item ids end with their output index, so the two indices are the same.
  have hki : k = i := by
    rw [hprop.2, hid] at hfst
    exact itemId_index (Option.some.inj hfst)
  rw [announcedIndex, List.find?_append, hfind, Option.some_or, Option.bind_some, hsnd, hki]

/-- The output of the response, with the output indices of its items. -/
theorem Shows.output_places (serde : Serde) {p : Places} {st : Synthesis} (h : Shows p st)
    (hs : st.Sound) : List.Forall₂ (fun item k => ∃ tag, idOf item = some (st.itemId tag k))
      (st.closeReasoning.closeMessage.closeToolCalls serde).output
      (p.texts ++ st.announcedIndices.map fun i => (st.callAt i).outputIndex) := by
  have hclose := h.closeTexts serde hs
  have hcalls : st.closeReasoning.closeMessage.calls = st.calls :=
    (closeItem_calls .message _).trans (closeItem_calls .reasoning st)
  have hstem : st.closeReasoning.closeMessage.idStem = st.idStem :=
    congrArg Turn.idStem (Moves.turn_eq serde (Steps.moves serde
      ((closeItem_steps serde .reasoning st).trans (closeItem_steps serde .message _))))
  rw [(closeToolCalls_output serde _).1, hcalls, calls_filter_announced, List.map_map]
  refine List.rel_append ?_ ?_
  · have houtput := hclose.output
    simp only [itemId_congr hstem] at houtput
    exact houtput
  · rw [List.forall₂_map_left_iff, List.forall₂_map_right_iff, List.forall₂_same]
    intro i hi
    have hannounced : (st.callAt i).announced = true := (List.mem_filter.mp hi).2
    obtain ⟨hid, -⟩ := hs.consistent.calls i (hs.consistent.announced i hannounced)
    exact ⟨"fc", by rw [← hid]; exact ((st.callAt i).item_reads _ _).1⟩

/-- The output of a response that ends is in the order of its indices exactly when these are. -/
theorem Shows.ordered_iff (serde : Serde) {p : Places} {st : Synthesis} (h : Shows p st)
    (hs : st.Sound) (hon : st.GoesOn) (hstarted : st.started = true) (reason : Option String) :
    OutputOrdered (st.complete serde reason).pending ↔
      (p.texts ++ st.announcedIndices.map fun i => (st.callAt i).outputIndex).Pairwise (· < ·) := by
  have hplaces := h.output_places serde hs
  have hmoves := close_all_moves serde st
  have hs' := hmoves.sound hs
  have hstem : (st.closeReasoning.closeMessage.closeToolCalls serde).idStem = st.idStem :=
    congrArg Turn.idStem (Moves.turn_eq serde hmoves)
  rw [complete_eq_finish serde reason hon hstarted, OutputOrdered, (finish_spec reason _).1]
  generalize st.closeReasoning.closeMessage.closeToolCalls serde = st' at hplaces hs' hstem ⊢
  have hindices : st'.output.map (announcedIndex (st'.finish reason).pending) =
      (p.texts ++ st.announcedIndices.map fun i => (st.callAt i).outputIndex).map some := by
    rw [← List.forall₂_eq_eq_eq, List.forall₂_map_left_iff, List.forall₂_map_right_iff]
    refine ((List.forall₂_and_left _ _).mpr ⟨fun item hitem => hitem, hplaces⟩).imp ?_
    rintro item k ⟨hitem, tag, hid⟩
    exact hs'.announcedIndex_eq hitem (by rw [itemId_congr hstem, hid]) _
  rw [hindices]
  constructor
  · rintro ⟨indices, heq, hpair⟩
    rw [List.map_injective_iff.mpr (fun _ _ => Option.some.inj) heq]
    exact hpair
  · exact fun hpair => ⟨_, rfl, hpair⟩

end Synthesis

/-- The items of the response stand in the order of their announced output indices exactly when the
pieces of the completion come in that order. -/
theorem responsesEvents_ordered (serde : Serde) (upstream : List Poll) (model requestKey : String)
    (tools : ToolNames)
    (hlast : ∃ kind ∈ ["response.completed", "response.incomplete"],
      (responsesEvents serde upstream model requestKey tools).getLast?.map Event.kind =
        some kind) :
    OutputOrdered (responsesEvents serde upstream model requestKey tools) ↔
      InOrder (transcript serde upstream).pieces := by
  obtain ⟨haddressable, hterminal⟩ := terminal_ne_error hlast
  rw [responsesEvents_eq serde haddressable]
  have h₀ : Synthesis.Fresh { model, requestKey, tools } := ⟨⟨rfl, rfl⟩, rfl⟩
  rcases Synthesis.replay_cases serde (transcript serde upstream) h₀ with
    ⟨herror, -⟩ | ⟨st, reason, hst, hbegun, heq, -⟩
  · exact absurd herror hterminal
  · -- A response that ends well has begun, so some chunk was heard.
    have hne : (transcript serde upstream).spoken ≠ [] := by
      intro hnil
      rw [hnil] at hst
      have hstarted := hbegun.started
      rw [hst] at hstarted
      cases hstarted
    have hshows : Synthesis.Shows ((transcript serde upstream).pieces.foldl Places.take {}) st := by
      rw [hst]
      exact Synthesis.foldl_progress_shows serde model requestKey tools hne
    have htracks : Synthesis.Tracks st (fragmentsOf (transcript serde upstream).pieces) := by
      rw [hst, fragmentsOf_pieces]
      exact Synthesis.foldl_progress_tracks serde model requestKey tools _
    have hranked := ranked (transcript serde upstream).pieces
    generalize (transcript serde upstream).pieces = ps at hshows htracks hranked ⊢
    have hmem (i : ℕ) : i ∈ st.announcedIndices ↔ isNamedAt i ps :=
      Synthesis.mem_announcedIndices htracks i
    -- The announced calls are listed by index, and each has the place that the pieces give it.
    have hsorted : st.announcedIndices.Pairwise (· < ·) :=
      List.Pairwise.filter _ List.pairwise_lt_range
    have hplace : ∀ i ∈ st.announcedIndices,
        (ps.foldl Places.take {}).call i = some (st.callAt i).outputIndex := by
      intro i hi
      refine (hshows.calls i _).mpr ⟨hbegun.sound.consistent.announced i ?_, rfl⟩
      exact (List.mem_filter.mp hi).2
    rw [heq, hshows.ordered_iff serde hbegun.sound (hbegun.goesOn serde h₀) hbegun.started,
      hranked.pairwise_iff hsorted hplace, inOrder_iff]
    simp only [hmem]
    exact and_congr_right fun _ => ⟨fun h i j hi hj => h i hi j hj, fun h i hi j hj => h i j hi hj⟩

/-- A word of text and a call, in one chunk. -/
def textThenCall : List Poll :=
  [.chunk (toUtf8 ("data: \x7b\"choices\":[\x7b\"delta\":\x7b\"content\":\"a\"," ++
      "\"tool_calls\":[\x7b\"id\":\"c\",\"function\":\x7b\"name\":\"ls\"\x7d\x7d]\x7d\x7d]\x7d\n\n")),
    .chunk (toUtf8 "data: [DONE]\n\n")]

/-- The text and the call stand in the order of their indices. -/
theorem responsesEvents_ordered_textThenCall :
    OutputOrdered (responsesEvents Compact.serde textThenCall "glm" "key" {}) := by
  have htranscript : (transcript Compact.serde textThenCall).chunks =
        [.obj [("choices", .array [.obj [("delta", .obj [("content", .string "a"),
          ("tool_calls", .array [.obj [("id", .string "c"),
            ("function", .obj [("name", .string "ls")])]])])]])]] ∧
      (transcript Compact.serde textThenCall).last = .done ∧
      (transcript Compact.serde textThenCall).Addressable := by
    decide +kernel
  obtain ⟨hchunks, hdone, haddressable⟩ := htranscript
  have hlast : (responsesEvents Compact.serde textThenCall "glm" "key" {}).getLast?.map
      Event.kind = some "response.completed" := by
    rw [responsesEvents_getLast _ haddressable, Transcript.terminal, hdone, hchunks]
    rfl
  have hpieces : (transcript Compact.serde textThenCall).pieces = [.text .message "a",
      .fragment (.obj [("id", .string "c"), ("function", .obj [("name", .string "ls")])])] := by
    rw [Transcript.pieces, Transcript.spoken, hdone, hchunks]
    decide
  refine (responsesEvents_ordered Compact.serde textThenCall "glm" "key" {}
    ⟨_, by decide, hlast⟩).mpr ?_
  rw [hpieces]
  -- The fragment is the last piece, and no index is smaller than its own.
  rintro before call after heq -
  have hcall : call = .obj [("id", .string "c"), ("function", .obj [("name", .string "ls")])] ∧
      after = [] := by
    obtain _ | ⟨piece, _ | ⟨other, before⟩⟩ := before
    · simp at heq
    · have hsplit : piece = .text .message "a" ∧ call = .obj [("id", .string "c"),
          ("function", .obj [("name", .string "ls")])] ∧ after = [] := by
        simpa [eq_comm] using heq
      exact hsplit.2
    · simp at heq
  obtain ⟨rfl, rfl⟩ := hcall
  exact ⟨by simp, fun i hi => absurd hi (Nat.not_lt_zero i)⟩

/-- A call, and a word of text after it. -/
def callThenText : List Poll :=
  [.chunk (toUtf8 ("data: \x7b\"choices\":[\x7b\"delta\":\x7b\"tool_calls\":[\x7b\"id\":\"c\"," ++
      "\"function\":\x7b\"name\":\"ls\"\x7d\x7d]\x7d\x7d]\x7d\n\n")),
    .chunk (toUtf8 "data: \x7b\"choices\":[\x7b\"delta\":\x7b\"content\":\"a\"\x7d\x7d]\x7d\n\n"),
    .chunk (toUtf8 "data: [DONE]\n\n")]

/-- The text stands before the call, whose index is smaller. -/
theorem responsesEvents_ordered_callThenText :
    (responsesEvents Compact.serde callThenText "glm" "key" {}).getLast?.map Event.kind =
        some "response.completed" ∧
      ¬ OutputOrdered (responsesEvents Compact.serde callThenText "glm" "key" {}) := by
  have htranscript : (transcript Compact.serde callThenText).chunks =
        [.obj [("choices", .array [.obj [("delta", .obj [("tool_calls", .array [.obj
          [("id", .string "c"), ("function", .obj [("name", .string "ls")])]])])]])],
          .obj [("choices", .array [.obj [("delta", .obj [("content", .string "a")])]])]] ∧
      (transcript Compact.serde callThenText).last = .done ∧
      (transcript Compact.serde callThenText).Addressable := by
    decide +kernel
  obtain ⟨hchunks, hdone, haddressable⟩ := htranscript
  have hevents : (responsesEvents Compact.serde callThenText "glm" "key" {}).getLast?.map
        Event.kind = some "response.completed" ∧
      (responseItems (responsesEvents Compact.serde callThenText "glm" "key" {})).map
        (announcedIndex (responsesEvents Compact.serde callThenText "glm" "key" {})) =
        [some 1, some 0] := by
    rw [responsesEvents_eq _ haddressable, Synthesis.replay, hchunks, hdone]
    decide
  obtain ⟨hlast, hindices⟩ := hevents
  refine ⟨hlast, ?_⟩
  rintro ⟨indices, heq, hpair⟩
  rw [hindices] at heq
  obtain rfl : indices = [1, 0] := (Function.Injective.list_map (Option.some_injective ℕ)) heq.symm
  simp at hpair

end MuseCodex.Zai
