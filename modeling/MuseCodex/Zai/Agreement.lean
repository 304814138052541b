import MuseCodex.Fallible
import MuseCodex.Gateway.Inspect
import MuseCodex.Zai.Arrival

/-!
# The two decoders of server-sent events

`inspect_frame` of the gateway ends a line at every CR and LF. `handle_frame` of the synthesizer
splits a frame with `str::lines`, which ends a line at an LF only and takes off one CR before it,
though its own `complete_frame_len` ends lines at a bare CR as well. So where bare CRs end lines,
the synthesizer sees one line in place of several: data that do not come first are lost, and what
follows data is taken for a part of them. `Aligned` says that neither happens between two LFs.
Then the data of the two decoders differ in blanks around line feeds and at the end only, and the
same document is read from both (`frameData_agrees`).
-/

namespace MuseCodex.Zai

open Text Json

/-! ## The lines between two line feeds -/

/-- Lines that bare CRs end, up to the next LF: data and then blanks only, or no data but blank
ones. -/
def Aligned : List String → Prop
  | [] => True
  | line :: lines =>
    if (stripText "data:" line).isSome then ∀ l ∈ lines, Blank l
    else ∀ l ∈ line :: lines, ∀ value ∈ Gateway.lineValue l, Blank value

/-- This can be decided of a text. -/
instance : DecidablePred Aligned
  | [] => isTrue trivial
  | line :: lines =>
    inferInstanceAs (Decidable (if (stripText "data:" line).isSome then ∀ l ∈ lines, Blank l
      else ∀ l ∈ line :: lines, ∀ value ∈ Gateway.lineValue l, Blank value))

/-- The lines that bare CRs end in a piece of a frame between two LFs. -/
def crLines (piece : List Char) : List String :=
  (splitChars (· = '\r') piece).map String.ofList

/-- No bare CR of a frame separates data from what the synthesizer reads them with. -/
def AlignedFrame (text : String) : Prop :=
  ∀ piece ∈ splitChars (· = '\n') text.toList, Aligned (crLines piece)

/-- This can be decided of a text. -/
instance : DecidablePred AlignedFrame := fun text =>
  inferInstanceAs (Decidable (∀ piece ∈ splitChars (· = '\n') text.toList, Aligned (crLines piece)))

/-- No line of a frame starts with a byte-order mark. -/
def NoBom (text : String) : Prop :=
  ∀ piece ∈ splitChars (· = '\n') text.toList, piece.head? ≠ some '\ufeff'

/-- This can be decided of a text. -/
instance : DecidablePred NoBom := fun text =>
  inferInstanceAs (Decidable (∀ piece ∈ splitChars (· = '\n') text.toList,
    piece.head? ≠ some '\ufeff'))

/-- The data lines that the gateway reads between two LFs, and the value that the synthesizer reads
there. -/
inductive Matches : List String → Option String → Prop where
  | blank {values} : (∀ value ∈ values, Blank value) → Matches values none
  | data (value) {tail} : Blank tail → Matches [value] (some (value ++ tail))

/-- The value of a line that does not start with a byte-order mark. -/
theorem dataValue_of_head {line : String} (h : line.toList.head? ≠ some '\ufeff') :
    dataValue line = (stripText "data:" line).map fun value => (stripPrefix ' ' value).getD value := by
  rw [dataValue, stripPrefix_of_head h]

/-- A blank line carries no data. -/
theorem lineValue_of_blank {line : String} (h : Blank line) : Gateway.lineValue line = none := by
  have hd (rest : List Char) : line.toList ≠ 'd' :: rest := by
    intro hline
    have := h 'd' (by rw [hline]; exact List.mem_cons_self)
    exact absurd this (by decide)
  unfold Gateway.lineValue
  have hdata : line ≠ "data" := fun hline => hd _ (by rw [hline]; rfl)
  have hnone : stripText "data:" line = none := by
    rw [Option.eq_none_iff_forall_not_mem]
    intro value hvalue
    refine hd ('a' :: 't' :: 'a' :: ':' :: value.toList) ?_
    rw [stripText_eq_some.mp hvalue, String.toList_append]
    rfl
  rw [if_neg hdata, hnone]
  rfl

/-- What the synthesizer reads of an aligned piece: its first line, and then nothing or a CR with
blanks. -/
theorem matches_of_aligned {line : String} {lines : List String} (h : Aligned (line :: lines))
    {tail : List Char} (htail : ∀ c ∈ tail.head?, c = '\r')
    (hblank : (∀ l ∈ lines, Blank l) → ∀ c ∈ tail, isBlank c = true)
    (hbom : line.toList.head? ≠ some '\ufeff') :
    Matches ((line :: lines).filterMap Gateway.lineValue)
      (dataValue (line ++ String.ofList tail)) := by
  have hbom' : (line ++ String.ofList tail).toList.head? ≠ some '\ufeff' := by
    rw [String.toList_append, String.toList_ofList, List.head?_append]
    cases hline : line.toList with
    | nil =>
      intro hhead
      exact absurd (htail _ hhead) (by decide)
    | cons c cs =>
      rw [hline] at hbom
      exact hbom
  rw [dataValue_of_head hbom']
  rw [Aligned] at h
  cases hvalue : stripText "data:" line with
  | some value =>
    rw [hvalue, Option.isSome_some, if_pos rfl] at h
    obtain rfl := stripText_eq_some.mp hvalue
    -- The space after the colon is not in what follows the first line.
    have hhead : (String.ofList tail).toList.head? ≠ some ' ' := by
      rw [String.toList_ofList]
      intro hhead
      exact absurd (htail _ hhead) (by decide)
    have hstrip : stripText "data:" ("data:" ++ value ++ String.ofList tail) =
        some (value ++ String.ofList tail) := by
      rw [stripText_eq_some, String.append_assoc]
    have hne : "data:" ++ value ≠ "data" := by
      intro heq
      have := congrArg String.toList heq
      simp at this
    have hfirst : Gateway.lineValue ("data:" ++ value) =
        some ((stripPrefix ' ' value).getD value) := by
      rw [Gateway.lineValue, if_neg hne, hvalue]
      rfl
    have hothers : lines.filterMap Gateway.lineValue = [] := by
      rw [List.filterMap_eq_nil_iff]
      exact fun l hl => lineValue_of_blank (h l hl)
    rw [hstrip, Option.map_some, stripPrefix_append _ (.inr hhead), List.filterMap_cons_some hfirst,
      hothers]
    refine .data _ ?_
    unfold Blank
    rw [String.toList_ofList]
    exact hblank h
  | none =>
    rw [hvalue, if_neg (by simp)] at h
    -- The name of the field does not go over a CR.
    have hnone : stripText "data:" (line ++ String.ofList tail) = none := by
      rw [Option.eq_none_iff_forall_not_mem]
      intro value hmem
      have hlist := congrArg String.toList (stripText_eq_some.mp hmem)
      rw [String.toList_append, String.toList_append, String.toList_ofList] at hlist
      rcases List.append_eq_append_iff.mp hlist with ⟨cs, hdata, htail'⟩ | ⟨cs, hline, -⟩
      · cases cs with
        | nil =>
          have hstart : line = "data:" ++ "" := by
            rw [← String.toList_inj, String.append_empty, hdata, List.append_nil]
          rw [stripText_eq_some.mpr hstart] at hvalue
          cases hvalue
        | cons c cs =>
          have hc := htail c (by rw [htail']; rfl)
          have hmem : c ∈ ("data:" : String).toList := by
            rw [hdata]
            simp
          rw [hc] at hmem
          exact absurd hmem (by decide)
      · have hstart : line = "data:" ++ String.ofList cs := by
          rw [← String.toList_inj, hline]
          simp
        rw [stripText_eq_some.mpr hstart] at hvalue
        cases hvalue
    rw [hnone, Option.map_none]
    refine .blank fun value hvalue => ?_
    obtain ⟨l, hl, hlv⟩ := List.mem_filterMap.mp hvalue
    exact h l hl value hlv

/-- A piece is read as the gateway reads its lines, with or without the CR at its end. -/
theorem matches_piece {piece : List Char} (h : Aligned (crLines piece))
    (hbom : piece.head? ≠ some '\ufeff') :
    Matches ((crLines piece).filterMap Gateway.lineValue) (dataValue (String.ofList piece)) ∧
      (piece.getLast? = some '\r' →
        Matches ((crLines piece).filterMap Gateway.lineValue)
          (dataValue (String.ofList piece.dropLast))) := by
  obtain ⟨line, lines, hsplit⟩ := List.exists_cons_of_ne_nil
    (splitChars_ne_nil (· = '\r') piece)
  obtain ⟨tail, rfl, hline, hhead, hmem⟩ := splitChars_head hsplit
  unfold crLines at h ⊢
  rw [hsplit, List.map_cons] at h ⊢
  have hhead' : ∀ c ∈ tail.head?, c = '\r' := fun c hc => by simpa using hhead c hc
  have hblank (hlines : ∀ l ∈ lines.map String.ofList, Blank l) : ∀ c ∈ tail, isBlank c = true := by
    intro c hc
    rcases hmem c hc with hcr | ⟨l, hl, hcl⟩
    · have hcr' : c = '\r' := by simpa using hcr
      rw [hcr']
      rfl
    · exact hlines _ (List.mem_map_of_mem hl) c (by rwa [String.toList_ofList])
  have hbom' : (String.ofList line).toList.head? ≠ some '\ufeff' := by
    rw [String.toList_ofList]
    intro hline
    rw [List.head?_append, hline] at hbom
    exact hbom rfl
  refine ⟨?_, fun hlast => ?_⟩
  · have := matches_of_aligned h hhead' hblank hbom'
    rwa [← String.ofList_append] at this
  · -- The first line has no CR, so the last one belongs to what follows it.
    have htail : tail ≠ [] := by
      rintro rfl
      rw [List.append_nil] at hlast
      exact absurd (hline _ (List.mem_of_getLast? hlast)) (by decide)
    rw [List.dropLast_append_of_ne_nil htail, String.ofList_append]
    refine matches_of_aligned h (fun c hc => ?_) (fun hlines c hc => ?_) hbom'
    · refine hhead' c ?_
      obtain ⟨d, rest, rfl⟩ := List.exists_cons_of_ne_nil htail
      cases rest with
      | nil => cases hc
      | cons e rest => exact hc
    · exact hblank hlines c (List.dropLast_subset tail hc)

/-! ## The data of a frame -/

/-- The data lines that the gateway reads in a piece between two LFs. -/
def pieceValues (piece : List Char) : List String := (crLines piece).filterMap Gateway.lineValue

/-- The data lines of a frame are those of its pieces. -/
theorem dataLines_eq {text : String} (h : text.toList.head? ≠ some '\ufeff') :
    (Gateway.Fields.ofText text).dataLines =
      ((splitChars (· = '\n') text.toList).map pieceValues).flatten := by
  have hread (lines : List String) (fields : Gateway.Fields) :
      (lines.foldl Gateway.Fields.readLine fields).dataLines =
        fields.dataLines ++ lines.filterMap Gateway.lineValue := by
    induction lines generalizing fields with
    | nil => simp
    | cons line lines ih =>
      rw [List.foldl_cons, ih, Gateway.Fields.readLine_dataLines, List.filterMap_cons,
        List.append_assoc]
      cases Gateway.lineValue line <;> rfl
  rw [Gateway.Fields.ofText_eq, stripPrefix_of_head h, hread, List.nil_append,
    splitChars_or (fun c => c = '\r') (fun c => c = '\n')]
  induction splitChars (fun c => decide (c = '\n')) text.toList with
  | nil => rfl
  | cons piece pieces ih =>
    rw [List.flatMap_cons, List.map_append, List.filterMap_append, ih]
    rfl

/-- The data of a frame are made of one value for each of its pieces. -/
theorem frameData_pieces {text : String} (h : AlignedFrame text) (hbom : NoBom text) :
    ∃ values, frameData text = values.foldl addData "" ∧
      List.Forall₂ Matches ((splitChars (· = '\n') text.toList).map pieceValues) values := by
  have hpieces : ∃ pieces last, splitChars (· = '\n') text.toList = pieces ++ [last] := by
    obtain ⟨pieces, last, hp⟩ | hp := (List.eq_nil_or_concat' (splitChars (· = '\n')
      text.toList)).symm
    · exact ⟨pieces, last, hp⟩
    · exact absurd hp (splitChars_ne_nil _ _)
  obtain ⟨pieces, last, hp⟩ := hpieces
  unfold AlignedFrame NoBom at *
  rw [hp, List.forall_mem_append, List.forall_mem_singleton] at h hbom
  let strip (piece : List Char) := if piece.getLast? = some '\r' then piece.dropLast else piece
  refine ⟨(pieces.map fun piece => dataValue (String.ofList (strip piece))) ++
    [dataValue (String.ofList last)], ?_, ?_⟩
  · have hread (lines : List String) (data : String) :
        lines.foldl readLine data = (lines.map dataValue).foldl addData data := by
      rw [List.foldl_map]
      congr 1
      funext data line
      exact readLine_eq data line
    unfold frameData
    rw [hread]
    unfold lines
    rw [hp]
    -- An empty piece at the end is no line, and would carry no data.
    by_cases hlast : last = []
    · have hnone : dataValue (String.ofList []) = none := by decide
      simp [hlast, strip, Function.comp_def, hnone, addData]
    · simp [hlast, strip, Function.comp_def]
  · rw [hp, List.map_append]
    refine List.rel_append ?_ (.cons (matches_piece h.2 hbom.2).1 .nil)
    rw [List.forall₂_map_left_iff, List.forall₂_map_right_iff, List.forall₂_same]
    intro piece hpiece
    obtain ⟨hwhole, hstripped⟩ := matches_piece (h.1 piece hpiece) (hbom.1 piece hpiece)
    by_cases hcr : piece.getLast? = some '\r'
    · simp only [strip, if_pos hcr]
      exact hstripped hcr
    · simp only [strip, if_neg hcr]
      exact hwhole

/-! ## The documents of a frame -/

/-- What may follow the data lines that have been read: nothing, or a line feed. -/
def NextLine (rest : String) : Prop := rest = "" ∨ ∃ more, rest = "\n" ++ more

/-- What is a document with the data of the gateway is one with those of the synthesizer. -/
def AlsoReads (serde : Serde) (data data' : String) : Prop :=
  ∀ rest, NextLine rest → ∀ v, serde.fromStr (data ++ rest) = .ok v →
    serde.fromStr (data' ++ rest) = .ok v

variable {serde : Serde}

/-- Blanks before the next line do not matter. -/
theorem fromStr_nextLine (hserde : serde.Spaced) {s x y rest : String} (hx : Blank x) (hy : Blank y)
    (hrest : NextLine rest) {v : Value} (h : serde.fromStr (s ++ x ++ rest) = .ok v) :
    serde.fromStr (s ++ y ++ rest) = .ok v := by
  have hlf {x : String} (hx : Blank x) : Blank (x ++ "\n") := by
    intro c hc
    rw [String.toList_append, List.mem_append] at hc
    rcases hc with hc | hc
    · exact hx c hc
    · rw [List.mem_singleton.mp hc]
      rfl
  rcases hrest with rfl | ⟨more, rfl⟩
  · rw [String.append_empty] at h ⊢
    have hdoc : (serde.fromStr (s ++ y)).toOption = some v := by
      rw [hserde.trailing s hy, ← hserde.trailing s hx, h]
      rfl
    exact Fallible.toOption_eq_some.mp hdoc
  · have hassoc (x : String) : s ++ x ++ ("\n" ++ more) = s ++ (x ++ "\n") ++ more := by
      simp only [String.append_assoc]
    rw [hassoc] at h ⊢
    refine hserde.between (hlf hx) (by simp) (hlf hy) ?_ h
    intro hempty
    have := congrArg String.toList hempty
    simp at this

/-- A blank data line that the synthesizer leaves out does not matter. -/
theorem AlsoReads.blank (hserde : serde.Spaced) {data data' value : String} (hvalue : Blank value)
    (h : AlsoReads serde data data') : AlsoReads serde (data ++ "\n" ++ value) data' := by
  intro rest hrest v hv
  have hlf : Blank ("\n" ++ value) := by
    intro c hc
    rw [String.toList_append, List.mem_append] at hc
    rcases hc with hc | hc
    · rw [List.mem_singleton.mp hc]
      rfl
    · exact hvalue c hc
  refine h rest hrest v ?_
  have hline : serde.fromStr (data ++ ("\n" ++ value) ++ rest) = .ok v := by
    simpa only [String.append_assoc] using hv
  have hempty : Blank "" := nofun
  have := fromStr_nextLine hserde hlf hempty hrest hline
  rwa [String.append_empty] at this

/-- A data line that both decoders read is read with blanks after it. -/
theorem AlsoReads.data (hserde : serde.Spaced) {data data' value tail : String} (htail : Blank tail)
    (h : AlsoReads serde data data') :
    AlsoReads serde (data ++ "\n" ++ value) (addData data' (some (value ++ tail))) := by
  intro rest hrest v hv
  have hempty : Blank "" := nofun
  have hline := h ("\n" ++ value ++ rest) (.inr ⟨value ++ rest, by rw [String.append_assoc]⟩) v (by
    simpa only [String.append_assoc] using hv)
  unfold addData
  dsimp only
  by_cases hdata : data' = ""
  · -- The synthesizer starts its data without a line feed.
    rw [if_pos hdata, hdata, String.empty_append]
    rw [hdata, String.empty_append, String.append_assoc] at hline
    have hlf : Blank "\n" := by decide
    have hdoc : (serde.fromStr (value ++ rest)).toOption = some v := by
      rw [← hserde.leading (value ++ rest) hlf, hline]
      rfl
    refine fromStr_nextLine hserde hempty htail hrest ?_
    rw [String.append_empty]
    exact Fallible.toOption_eq_some.mp hdoc
  · rw [if_neg hdata]
    have hline' : serde.fromStr (data' ++ "\n" ++ value ++ "" ++ rest) = .ok v := by
      rw [String.append_empty]
      simpa only [String.append_assoc] using hline
    have := fromStr_nextLine hserde hempty htail hrest hline'
    simpa only [String.append_assoc] using this

/-- The pieces of a frame are read alike one after the other. -/
theorem AlsoReads.pieces (hserde : serde.Spaced) {lines : List (List String)}
    {values : List (Option String)} (hmatch : List.Forall₂ Matches lines values)
    {data data' : String} (h : AlsoReads serde data data') :
    AlsoReads serde (lines.flatten.foldl (fun data value => data ++ "\n" ++ value) data)
      (values.foldl addData data') := by
  induction hmatch generalizing data data' with
  | nil => exact h
  | @cons line value lines values hmatch _ ih =>
    rw [List.flatten_cons, List.foldl_append, List.foldl_cons]
    refine ih ?_
    cases hmatch with
    | @blank line hblank =>
      have hfold (line : List String) (hline : ∀ value ∈ line, Blank value) {data : String}
          (h : AlsoReads serde data data') :
          AlsoReads serde (line.foldl (fun data value => data ++ "\n" ++ value) data) data' := by
        induction line generalizing data with
        | nil => exact h
        | cons value line ih =>
          obtain ⟨hvalue, hline⟩ := List.forall_mem_cons.mp hline
          exact ih hline (h.blank hserde hvalue)
      exact hfold line hblank h
    | data value htail => exact h.data hserde htail

/-- Joining lines is adding them one after the other. -/
theorem foldl_lines (lines : List String) (data : String) :
    lines.foldl (fun data value => data ++ "\n" ++ value) data =
      String.intercalate "\n" (data :: lines) := by
  induction lines generalizing data with
  | nil => simp
  | cons line lines ih =>
    rw [List.foldl_cons, ih, String.intercalate_cons_cons, String.intercalate_cons_append]

/-- Where bare CRs do not separate data from what the synthesizer reads them with, the data of a
frame denote for the synthesizer the document that they denote for the gateway. -/
theorem frameData_agrees (hserde : serde.Spaced) {text : String} (hbom : NoBom text)
    (h : AlignedFrame text) {v : Value}
    (hv : serde.fromStr (String.intercalate "\n" (Gateway.Fields.ofText text).dataLines) = .ok v) :
    serde.fromStr (frameData text) = .ok v := by
  have hhead : text.toList.head? ≠ some '\ufeff' := by
    obtain ⟨piece, pieces, hsplit⟩ := List.exists_cons_of_ne_nil
      (splitChars_ne_nil (· = '\n') text.toList)
    obtain ⟨tail, htext, -, htail, -⟩ := splitChars_head hsplit
    have hpiece := hbom piece (by rw [hsplit]; exact List.mem_cons_self)
    rw [htext]
    cases piece with
    | nil =>
      intro hc
      exact absurd (htail _ hc) (by decide)
    | cons c piece => exact hpiece
  obtain ⟨values, hdata, hmatch⟩ := frameData_pieces h hbom
  rw [dataLines_eq hhead] at hv
  have hnone : AlsoReads serde "" "" := fun _ _ _ h => h
  have hfollows := AlsoReads.pieces hserde hmatch hnone
  rw [← hdata] at hfollows
  generalize ((splitChars (· = '\n') text.toList).map pieceValues).flatten = lines at hv hfollows
  have hend := hfollows "" (.inl rfl) v
  rw [String.append_empty, String.append_empty] at hend
  refine hend ?_
  cases lines with
  | nil => exact hv
  | cons line lines =>
    have hlf : Blank "\n" := by decide
    have hdoc := hserde.leading (String.intercalate "\n" (line :: lines)) hlf
    rw [hv, ← String.intercalate_cons_append] at hdoc
    rw [List.foldl_cons, foldl_lines, String.empty_append]
    exact Fallible.toOption_eq_some.mp hdoc

/-- Fields in any order, all three line ends, a data line without a colon, and a document over two
lines. -/
theorem frameData_agrees_mixed :
    Compact.serde.fromStr (frameData
      "event: a\rid: 1\ndata: \x7b\r\ndata\ndata: \x7d\r\r") = .ok (.object []) :=
  frameData_agrees Compact.spaced (by decide) (by decide) (by decide)

/-- A frame that loses an entry of an object which comes again. -/
def repeatedEntryFrame : String := "data: \x7b\nx\rdata: \"\":1,\ndata: \"\":1\x7d\n\n"

-- The condition cannot be necessary: here the decoders read the same from different lines.
example : ¬ AlignedFrame repeatedEntryFrame ∧
    Compact.serde.fromStr (frameData repeatedEntryFrame) = .ok (.object [("", .ofNat 1)]) ∧
    Compact.serde.fromStr (String.intercalate "\n"
      (Gateway.Fields.ofText repeatedEntryFrame).dataLines) = .ok (.object [("", .ofNat 1)]) := by
  decide +kernel

/-- A frame whose data come after a bare CR. -/
def bareCrFrame : String := "id: 1\rdata: \x7b\x7d\r\r"

/-- A complete frame without a byte-order mark from which the gateway reads a document and the
synthesizer reads no data at all. -/
theorem frameData_bareCr :
    completeFrameLen (toUtf8 bareCrFrame) = some (toUtf8 bareCrFrame).length ∧ NoBom bareCrFrame ∧
      Compact.serde.fromStr (String.intercalate "\n"
        (Gateway.Fields.ofText bareCrFrame).dataLines) = .ok (.object []) ∧
      frameData bareCrFrame = "" ∧
      (Compact.serde.fromStr (frameData bareCrFrame)).toOption = none := by
  refine ⟨?_, by decide, by decide, by decide, by decide⟩
  have hbytes : toUtf8 bareCrFrame = [0x69, 0x64, 0x3a, 0x20, 0x31, 0x0d, 0x64,
      0x61, 0x74, 0x61, 0x3a, 0x20, 0x7b, 0x7d, 0x0d, 0x0d] := by decide
  rw [hbytes]
  simp [completeFrameLen, completeFrameLenFrom, LF, CR]

end MuseCodex.Zai
