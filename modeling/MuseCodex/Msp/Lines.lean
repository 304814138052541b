import Mathlib.Data.List.TakeWhile
import MuseCodex.Buffered
import MuseCodex.Framing
import MuseCodex.Looping
import MuseCodex.Msp.Adapter

/-!
# The lines of the session protocol

`read_frame` of `crates/muse-codex/src/msp.rs`, which reads one line of a client or of the host and
refuses a line whose content is longer than `MAX_FRAME_BYTES`, and the loop of the two relays that
calls it until the stream ends. The source is any buffered reader, so nothing is assumed of where
its buffers end.

`pieces` cuts a stream after each LF. One turn of the loop copies what is buffered up to the next
LF (`readFrameTurn_spec`), one call returns the next piece of the stream (`readFrame_spec`), and the
calls return all of them (`readFrames_lossless`).
-/

namespace MuseCodex

open Text Buffered Looping Framing

namespace Msp

/-- The longest content of a frame. -/
def MAX_FRAME_BYTES : ℕ := 10 * 1024 * 1024

/-- The error about a frame that is too long. -/
def frameLimitError : String := "MSP frame exceeds the 10485760-byte limit"

section

variable {σ : Type} (reader : BufRead σ String UInt8)

/-- One turn of the loop of `read_frame`, with the bytes that it consumes: what is buffered is
copied up to the next LF. -/
def readFrameTurn : Bytes × σ → ℕ × Next (Bytes × σ) (Except String (Bool × Bytes × σ))
  | (output, r) =>
    match reader.fillBuf r with
    | .error error => (0, .done (.error error))
    | .ok (available, r) =>
      if available = [] then (0, .done (.ok (!output.isEmpty, output, r)))
      else
        let length := ((available.findIdx? (· = LF)).map (· + 1)).getD available.length
        let terminated := available[length - 1]? = some LF
        let maximum := if terminated then MAX_FRAME_BYTES + 1 else MAX_FRAME_BYTES
        if maximum < output.length + length then (0, .done (.error frameLimitError))
        else
          let output := output ++ available.take length
          let r := reader.consume length r
          (length, if output.getLast? = some LF then .done (.ok (true, output, r))
            else .again (output, r))

/-- One call of `read_frame`: whether there was a frame, and the frame. -/
def readFrame (fuel : ℕ) (r : σ) : Option (Except String (Bool × Bytes × σ)) :=
  (run (readFrameTurn reader) fuel ([], r)).map Prod.snd

/-- The calls of `read_frame` that a relay makes: the frames that they return, and how the last of
them ends. -/
def readFrames : ℕ → σ → Option (List Bytes × Except String σ)
  | 0, _ => none
  | fuel + 1, r =>
    match readFrame reader (fuel + 1) r with
    | none => none
    | some (.error error) => some ([], .error error)
    | some (.ok (false, _, r)) => some ([], .ok r)
    | some (.ok (true, frame, r)) =>
      (readFrames fuel r).map fun (frames, result) => (frame :: frames, result)

end

/-! ## The pieces of a stream -/

/-- The lines of a stream as a scanner finds them. -/
def lineScanner : Scanner UInt8 where
  scan b := (b.findIdx? (· = LF)).map (· + 1)
  pos h := by
    obtain ⟨i, -, rfl⟩ := Option.map_eq_some_iff.mp h
    exact Nat.succ_pos i
  le_length h := by
    obtain ⟨i, hi, rfl⟩ := Option.map_eq_some_iff.mp h
    exact (List.findIdx?_eq_some_iff_findIdx_eq.mp hi).1

/-- The pieces of a stream, cut after each LF. The last one may lack it. -/
def pieces (stream : Bytes) : List Bytes :=
  lineScanner.frames stream ++
    if lineScanner.rest stream = [] then [] else [lineScanner.rest stream]

/-- The content of a frame. -/
def content (frame : Bytes) : Bytes := stripSuffix LF frame

/-- A frame whose content is within the limit. -/
def Fits (frame : Bytes) : Prop := (content frame).length ≤ MAX_FRAME_BYTES

/-- A length can be compared. -/
instance (frame : Bytes) : Decidable (Fits frame) :=
  inferInstanceAs (Decidable ((content frame).length ≤ MAX_FRAME_BYTES))

section

variable {line rest : Bytes}

/-- Without a line feed there is no end of the line. -/
theorem findIdx?_lf_of_notMem (hline : LF ∉ line) : line.findIdx? (· = LF) = none := by
  rw [List.findIdx?_eq_none_iff]
  intro byte hbyte
  exact decide_eq_false fun heq => hline (heq ▸ hbyte)

/-- The end of a line is its line feed. -/
theorem findIdx?_lf (hline : LF ∉ line) (rest : Bytes) :
    (line ++ LF :: rest).findIdx? (· = LF) = some line.length := by
  rw [List.findIdx?_append, findIdx?_lf_of_notMem hline, List.findIdx?_cons]
  simp

/-- Nothing has no pieces. -/
theorem pieces_nil : pieces [] = [] := by
  have hscan : lineScanner.scan [] = none := rfl
  rw [pieces, Scanner.frames_of_none hscan, Scanner.rest_of_none hscan, if_pos rfl, List.nil_append]

/-- The first piece ends with the first LF. -/
theorem pieces_line (hline : LF ∉ line) (rest : Bytes) :
    pieces (line ++ LF :: rest) = (line ++ [LF]) :: pieces rest := by
  have hscan : lineScanner.scan (line ++ LF :: rest) = some (line ++ [LF]).length := by
    show ((line ++ LF :: rest).findIdx? (· = LF)).map (· + 1) = _
    rw [findIdx?_lf hline, Option.map_some, List.length_append, List.length_singleton]
  have happend : line ++ LF :: rest = line ++ [LF] ++ rest := by simp
  rw [pieces, Scanner.frames_of_some hscan, Scanner.rest_of_some hscan, happend, List.take_left,
    List.drop_left, List.cons_append]
  rfl

/-- What lacks an LF is one piece. -/
theorem pieces_unterminated (hline : LF ∉ line) (hne : line ≠ []) : pieces line = [line] := by
  have hscan : lineScanner.scan line = none := by
    show (line.findIdx? (· = LF)).map (· + 1) = none
    rw [findIdx?_lf_of_notMem hline, Option.map_none]
  rw [pieces, Scanner.frames_of_none hscan, Scanner.rest_of_none hscan, if_neg hne,
    List.nil_append]

/-- A stream is empty, or starts with a line, or lacks an LF. -/
theorem stream_cases (stream : Bytes) :
    (∃ line rest, LF ∉ line ∧ stream = line ++ LF :: rest) ∨ LF ∉ stream := by
  by_cases h : LF ∈ stream
  · obtain ⟨line, rest, heq, hline⟩ := List.eq_append_cons_of_mem h
    exact .inl ⟨line, rest, hline, heq⟩
  · exact .inr h

/-- The content of a line is what is before its line feed. -/
@[simp] theorem content_line (line : Bytes) : content (line ++ [LF]) = line := by
  simp [content, stripSuffix]

/-- A last piece without a line feed is its own content. -/
theorem content_unterminated (hline : LF ∉ line) : content line = line := by
  refine if_neg fun hlast => hline ?_
  exact List.mem_of_getLast? hlast

/-- Induction on the pieces of a stream. -/
theorem pieces_induction {motive : Bytes → Prop} (nil : motive [])
    (line : ∀ line rest, LF ∉ line → motive rest → motive (line ++ LF :: rest))
    (last : ∀ line, LF ∉ line → line ≠ [] → motive line) (stream : Bytes) : motive stream := by
  induction hn : stream.length using Nat.strongRecOn generalizing stream with
  | ind n ih =>
    rcases stream_cases stream with ⟨l, rest, hl, rfl⟩ | hlf
    · refine line l rest hl (ih rest.length ?_ rest rfl)
      rw [← hn, List.length_append, List.length_cons]
      omega
    · by_cases hne : stream = []
      · exact hne ▸ nil
      · exact last stream hlf hne

/-- The pieces make up the stream. -/
theorem pieces_flatten (stream : Bytes) : (pieces stream).flatten = stream := by
  have hcut := Scanner.frames_flatten_rest (s := lineScanner) stream
  unfold pieces
  split_ifs with hrest
  · rw [hrest, List.append_nil] at hcut
    rw [List.append_nil, hcut]
  · rw [List.flatten_append, List.flatten_singleton, hcut]

/-- A piece has at most one LF, at its end. -/
theorem notMem_content {stream piece : Bytes} (h : piece ∈ pieces stream) :
    piece ≠ [] ∧ LF ∉ content piece := by
  induction stream using pieces_induction with
  | nil =>
    rw [pieces_nil] at h
    cases h
  | line line rest hline ih =>
    rw [pieces_line hline] at h
    rcases List.mem_cons.mp h with rfl | h
    · exact ⟨by simp, by rwa [content_line]⟩
    · exact ih h
  | last line hline hne =>
    rw [pieces_unterminated hline hne] at h
    rw [List.mem_singleton.mp h]
    exact ⟨hne, by rwa [content_unterminated hline]⟩

/-- Only the last piece may lack its LF. -/
theorem getLast?_of_mem_dropLast {stream piece : Bytes} (h : piece ∈ (pieces stream).dropLast) :
    piece.getLast? = some LF := by
  induction stream using pieces_induction with
  | nil =>
    rw [pieces_nil] at h
    cases h
  | line line rest hline ih =>
    rw [pieces_line hline] at h
    by_cases hrest : pieces rest = []
    · rw [hrest] at h
      cases h
    · rw [List.dropLast_cons_of_ne_nil hrest] at h
      rcases List.mem_cons.mp h with rfl | h
      · simp
      · exact ih h
  | last line hline hne =>
    rw [pieces_unterminated hline hne] at h
    cases h

/-- The first piece of a stream whose start has no LF and is longer than the limit. -/
theorem pieces_too_long (hline : LF ∉ line) (hlong : MAX_FRAME_BYTES < line.length)
    (rest : Bytes) : ∃ piece others, pieces (line ++ rest) = piece :: others ∧ ¬Fits piece := by
  rcases stream_cases rest with ⟨more, rest, hmore, rfl⟩ | hrest
  · have hall : LF ∉ line ++ more := by simp [hline, hmore]
    refine ⟨line ++ more ++ [LF], pieces rest, ?_, ?_⟩
    · rw [← List.append_assoc, pieces_line hall]
    · rw [Fits, content_line, List.length_append]
      omega
  · have hall : LF ∉ line ++ rest := by simp [hline, hrest]
    refine ⟨line ++ rest, [], pieces_unterminated hall ?_, ?_⟩
    · intro hnil
      rw [(List.append_eq_nil_iff.mp hnil).1] at hlong
      exact Nat.not_lt_zero _ hlong
    · rw [Fits, content_unterminated hall, List.length_append]
      omega

end

/-! ## One call -/

section

variable {σ : Type} {reader : BufRead σ String UInt8} {output available : Bytes} {r r' : σ}

/-- At the end of the source what has been read is the last piece. -/
theorem readFrameTurn_end (hfill : reader.fillBuf r = .ok ([], r')) :
    readFrameTurn reader (output, r) = (0, .done (.ok (!output.isEmpty, output, r'))) := by
  unfold readFrameTurn
  dsimp only
  rw [hfill]
  exact if_pos rfl

/-- A line that ends in the buffer may have one byte more than the limit, which is its LF. -/
theorem readFrameTurn_line {line after : Bytes} (hline : LF ∉ line)
    (hfill : reader.fillBuf r = .ok (line ++ LF :: after, r')) :
    readFrameTurn reader (output, r) =
      if MAX_FRAME_BYTES < (output ++ line).length then (0, .done (.error frameLimitError))
      else (line.length + 1,
        .done (.ok (true, output ++ line ++ [LF], reader.consume (line.length + 1) r'))) := by
  have hne : line ++ LF :: after ≠ [] := by simp
  have hlast : (line ++ LF :: after)[line.length + 1 - 1]? = some LF := by simp
  have htake : (line ++ LF :: after).take (line.length + 1) = line ++ [LF] :=
    List.take_length_add_append 1
  have hend : (output ++ (line ++ [LF])).getLast? = some LF := by simp
  have hlimit : MAX_FRAME_BYTES + 1 < output.length + (line.length + 1) ↔
      MAX_FRAME_BYTES < (output ++ line).length := by
    rw [List.length_append]
    omega
  unfold readFrameTurn
  dsimp only
  rw [hfill]
  dsimp only
  rw [if_neg hne, findIdx?_lf hline, Option.map_some, Option.getD_some, if_pos hlast, htake,
    if_pos hend, List.append_assoc]
  exact if_congr hlimit rfl rfl

/-- A line that goes on after the buffer already has its whole length to be within the limit. -/
theorem readFrameTurn_part (houtput : LF ∉ output) (havailable : LF ∉ available)
    (hne : available ≠ []) (hfill : reader.fillBuf r = .ok (available, r')) :
    readFrameTurn reader (output, r) =
      if MAX_FRAME_BYTES < (output ++ available).length then (0, .done (.error frameLimitError))
      else (available.length,
        .again (output ++ available, reader.consume available.length r')) := by
  have hlast : available[available.length - 1]? ≠ some LF :=
    fun heq => havailable (List.mem_of_getElem? heq)
  have hall : LF ∉ output ++ available := by simp [houtput, havailable]
  unfold readFrameTurn
  dsimp only
  rw [hfill]
  dsimp only
  rw [if_neg hne, findIdx?_lf_of_notMem havailable, Option.map_none, Option.getD_none,
    if_neg hlast, List.take_length, if_neg fun heq => hall (List.mem_of_getLast? heq),
    List.length_append]

end

section

variable {σ : Type} {reader : BufRead σ String UInt8} {holds : σ → Bytes → Prop}

/-- What a call returns when the reader holds a stream: the first piece, or that there is none, or
the error that the piece is too long. -/
def Returns (holds : σ → Bytes → Prop) (stream : Bytes)
    (result : Except String (Bool × Bytes × σ)) : Prop :=
  match pieces stream with
  | [] => ∃ r, result = .ok (false, [], r) ∧ holds r []
  | piece :: others =>
    if Fits piece then
      ∃ r rest, result = .ok (true, piece, r) ∧ holds r rest ∧ pieces rest = others
    else result = .error frameLimitError

/-- At the end of a stream there is nothing to return. -/
theorem returns_nil {r : σ} (hr : holds r []) : Returns holds [] (.ok (false, [], r)) := by
  rw [Returns, pieces_nil]
  exact ⟨r, rfl, hr⟩

/-- The next piece is returned, if it fits. -/
theorem returns_piece {stream piece rest : Bytes} {r : σ}
    (hpieces : pieces stream = piece :: pieces rest) (hfits : Fits piece) (hr : holds r rest) :
    Returns holds stream (.ok (true, piece, r)) := by
  rw [Returns, hpieces]
  dsimp only
  rw [if_pos hfits]
  exact ⟨r, rest, rfl, hr, rfl⟩

/-- A next piece that does not fit is an error. -/
theorem returns_error {stream piece : Bytes} {others : List Bytes}
    (hpieces : pieces stream = piece :: others) (hlong : ¬Fits piece) :
    Returns holds stream (.error frameLimitError) := by
  rw [Returns, hpieces]
  dsimp only
  rw [if_neg hlong]

/-- A turn returns what the call has to return, or it adds to a line that goes on. -/
theorem readFrameTurn_spec (hreader : reader.Delivers holds) {output stream : Bytes} {r : σ}
    (hr : holds r stream) (houtput : LF ∉ output) (hlength : output.length ≤ MAX_FRAME_BYTES) :
    (∃ n result, readFrameTurn reader (output, r) = (n, .done result) ∧
      Returns holds (output ++ stream) result) ∨
    ∃ n output' r' stream', readFrameTurn reader (output, r) = (n, .again (output', r')) ∧
      holds r' stream' ∧ LF ∉ output' ∧ output'.length ≤ MAX_FRAME_BYTES ∧
      output' ++ stream' = output ++ stream ∧ stream'.length < stream.length := by
  obtain ⟨available, r', hfill, hr', ⟨more, rfl⟩, hempty, hconsume⟩ := hreader.fill hr
  by_cases hnil : available = []
  · -- The end of the stream.
    left
    rw [hnil] at hfill
    refine ⟨_, _, readFrameTurn_end hfill, ?_⟩
    rw [hempty hnil] at hr' ⊢
    rw [List.append_nil]
    cases output with
    | nil => exact returns_nil hr'
    | cons byte bytes =>
      refine returns_piece ?_ (by rwa [Fits, content_unterminated houtput]) hr'
      rw [pieces_nil, pieces_unterminated houtput (List.cons_ne_nil byte bytes)]
  rcases stream_cases available with ⟨line, after, hline, rfl⟩ | hlf
  · -- The line ends in the buffer.
    left
    have hall : LF ∉ output ++ line := by simp [houtput, hline]
    have hpieces : pieces (output ++ (line ++ LF :: after ++ more)) =
        (output ++ line ++ [LF]) :: pieces (after ++ more) := by
      rw [← pieces_line hall]
      simp
    rw [readFrameTurn_line hline hfill]
    split_ifs with hlong
    · refine ⟨_, _, rfl, returns_error hpieces ?_⟩
      rwa [Fits, content_line, not_le]
    · refine ⟨_, _, rfl, returns_piece hpieces ?_ ?_⟩
      · rwa [Fits, content_line, ← not_lt]
      · have hafter := hconsume (line.length + 1) (by simp)
        simpa using hafter
  · -- The line goes on after the buffer.
    have hall : LF ∉ output ++ available := by simp [houtput, hlf]
    rw [readFrameTurn_part houtput hlf hnil hfill]
    split_ifs with hlong
    · left
      obtain ⟨piece, others, hpieces, htoo⟩ := pieces_too_long hall hlong more
      rw [List.append_assoc] at hpieces
      exact ⟨_, _, rfl, returns_error hpieces htoo⟩
    · right
      refine ⟨_, _, _, more, rfl, ?_, hall, not_lt.mp hlong, List.append_assoc .., ?_⟩
      · have hmore := hconsume available.length le_rfl
        rwa [List.drop_left] at hmore
      · have hpos := List.length_pos_iff.mpr hnil
        rw [List.length_append]
        omega

/-- A call returns. -/
theorem readFrame_runs (hreader : reader.Delivers holds) {output stream : Bytes} {r : σ}
    (hr : holds r stream) (houtput : LF ∉ output) (hlength : output.length ≤ MAX_FRAME_BYTES) :
    ∃ records result, Runs (readFrameTurn reader) (output, r) records result ∧
      Returns holds (output ++ stream) result := by
  induction hn : stream.length using Nat.strongRecOn generalizing output stream r with
  | ind n ih =>
    rcases readFrameTurn_spec hreader hr houtput hlength with
      ⟨_, result, hturn, hreturns⟩ |
      ⟨_, output', r', stream', hturn, hr', houtput', hlength', hstream, hlt⟩
    · exact ⟨_, result, .done hturn, hreturns⟩
    · obtain ⟨records, result, hruns, hreturns⟩ :=
        ih stream'.length (hn ▸ hlt) hr' houtput' hlength' rfl
      rw [hstream] at hreturns
      exact ⟨_, result, .again hturn hruns, hreturns⟩

/-- A call returns the first piece of the stream. -/
theorem readFrame_spec (hreader : reader.Delivers holds) {stream : Bytes} {r : σ}
    (hr : holds r stream) :
    ∃ n result, (∀ fuel ≥ n, readFrame reader fuel r = some result) ∧
      Returns holds stream result := by
  obtain ⟨records, result, hruns, hreturns⟩ :=
    readFrame_runs hreader hr List.not_mem_nil (Nat.zero_le _)
  refine ⟨records.length, result, fun fuel hfuel => ?_, hreturns⟩
  rw [readFrame, hruns.run_eq hfuel, Option.map_some]

/-! ## All calls -/

/-- The calls return the pieces up to the first one that is too long, and then the end or the
error. -/
theorem readFrames_spec (hreader : reader.Delivers holds) {stream : Bytes} {r : σ}
    (hr : holds r stream) :
    ∃ n result,
      (∀ fuel ≥ n, readFrames reader fuel r = some ((pieces stream).takeWhile (Fits ·), result)) ∧
      ((∀ piece ∈ pieces stream, Fits piece) ∧ (∃ r', result = .ok r' ∧ holds r' []) ∨
        (∃ piece ∈ pieces stream, ¬Fits piece) ∧ result = .error frameLimitError) := by
  induction hpieces : pieces stream generalizing stream r with
  | nil =>
    obtain ⟨n, result, hcall, hreturns⟩ := readFrame_spec hreader hr
    rw [Returns, hpieces] at hreturns
    obtain ⟨r', rfl, hr'⟩ := hreturns
    refine ⟨n + 1, .ok r', fun fuel hfuel => ?_, .inl ⟨nofun, r', rfl, hr'⟩⟩
    -- The stream is empty, and the first call says so.
    obtain ⟨fuel, rfl⟩ : ∃ k, fuel = k + 1 := ⟨fuel - 1, by omega⟩
    rw [readFrames, hcall _ (by omega)]
    rfl
  | cons piece others ih =>
    obtain ⟨n, result, hcall, hreturns⟩ := readFrame_spec hreader hr
    rw [Returns, hpieces] at hreturns
    dsimp only at hreturns
    split_ifs at hreturns with hfits
    · obtain ⟨r', rest, rfl, hr', hrest⟩ := hreturns
      -- The fuel is enough for this frame and for the rest.
      obtain ⟨n', result, hcalls, hresult⟩ := ih hr' hrest
      refine ⟨max n n' + 1, result, fun fuel hfuel => ?_, ?_⟩
      · obtain ⟨fuel, rfl⟩ : ∃ k, fuel = k + 1 := ⟨fuel - 1, by omega⟩
        rw [readFrames, hcall _ (by omega)]
        dsimp only
        rw [hcalls fuel (by omega), List.takeWhile_cons, if_pos (decide_eq_true hfits)]
        rfl
      · refine hresult.imp (And.imp_left fun hall => ?_) (And.imp_left ?_)
        · exact List.forall_mem_cons.mpr ⟨hfits, hall⟩
        · exact fun ⟨late, hmem, hlong⟩ => ⟨late, List.mem_cons_of_mem piece hmem, hlong⟩
    · -- Nothing is read after a piece that is too long.
      refine ⟨n + 1, .error frameLimitError, fun fuel hfuel => ?_,
        .inr ⟨⟨piece, List.mem_cons_self, hfits⟩, rfl⟩⟩
      obtain ⟨fuel, rfl⟩ : ∃ k, fuel = k + 1 := ⟨fuel - 1, by omega⟩
      rw [readFrames, hcall _ (by omega), hreturns, List.takeWhile_cons,
        if_neg (by simpa using hfits)]

/-- However a source cuts a stream into buffers, the calls return the pieces of the stream, and
then the end, unless some piece is too long: then they return the pieces before it, and fail. -/
theorem readFrames_lossless (hreader : reader.Delivers holds) {stream : Bytes} {r : σ}
    (hr : holds r stream) :
    (pieces stream).flatten = stream ∧
      (∀ piece ∈ pieces stream, piece ≠ [] ∧ LF ∉ content piece) ∧
      (∀ piece ∈ (pieces stream).dropLast, piece.getLast? = some LF) ∧
      ∃ n frames result, (∀ fuel ≥ n, readFrames reader fuel r = some (frames, result)) ∧
        frames = (pieces stream).takeWhile (fun piece => (content piece).length ≤ MAX_FRAME_BYTES) ∧
        ((∃ error, result = .error error) ↔
          ∃ piece ∈ pieces stream, MAX_FRAME_BYTES < (content piece).length) ∧
        ∀ r', result = .ok r' → frames = pieces stream ∧
          ∃ m r'', ∀ fuel ≥ m, readFrame reader fuel r' = some (.ok (false, [], r'')) := by
  refine ⟨pieces_flatten stream, fun _ => notMem_content, fun _ => getLast?_of_mem_dropLast, ?_⟩
  obtain ⟨n, result, hcalls, hresult⟩ := readFrames_spec hreader hr
  refine ⟨n, _, result, hcalls, rfl, ?_, ?_⟩
  · rcases hresult with ⟨hall, r', rfl, -⟩ | ⟨⟨piece, hmem, hlong⟩, rfl⟩
    · exact ⟨nofun, fun ⟨piece, hmem, hlong⟩ => absurd (hall piece hmem) (not_le.mpr hlong)⟩
    · exact ⟨fun _ => ⟨piece, hmem, not_le.mp hlong⟩, fun _ => ⟨_, rfl⟩⟩
  · rintro r' rfl
    rcases hresult with ⟨hall, r'', heq, hr'⟩ | ⟨-, heq⟩
    · cases heq
      refine ⟨List.takeWhile_eq_self_iff.mpr fun piece hmem => decide_eq_true (hall piece hmem), ?_⟩
      obtain ⟨m, result, hcall, hreturns⟩ := readFrame_spec hreader hr'
      rw [Returns, pieces_nil] at hreturns
      obtain ⟨r'', rfl, -⟩ := hreturns
      exact ⟨m, r'', hcall⟩
    · cases heq

/-- A line that is cut before its LF, and a line without one. -/
theorem readFrames_lossless_split :
    ∃ n r, ∀ fuel ≥ n, readFrames fragments fuel [[0x7b, 0x7d], [LF, 0x31]] =
      some ([[0x7b, 0x7d, LF], [0x31]], .ok r) := by
  have hpieces : pieces ([[0x7b, 0x7d], [LF, 0x31]] : List Bytes).flatten =
      [[0x7b, 0x7d, LF], [0x31]] := by
    have hline : LF ∉ ([0x7b, 0x7d] : Bytes) := by decide
    have hlast : LF ∉ ([0x31] : Bytes) := by decide
    rw [show ([[0x7b, 0x7d], [LF, 0x31]] : List Bytes).flatten = [0x7b, 0x7d] ++ LF :: [0x31]
      from rfl, pieces_line hline, pieces_unterminated hlast (by decide)]
    rfl
  obtain ⟨-, -, -, n, frames, result, hcalls, -, herror, hok⟩ :=
    readFrames_lossless fragments_delivers (r := [[0x7b, 0x7d], [LF, 0x31]]) ⟨by decide, rfl⟩
  rw [hpieces] at herror hok
  cases result with
  | error error =>
    obtain ⟨piece, hmem, hlong⟩ := herror.mp ⟨error, rfl⟩
    exact absurd hlong (by revert piece; decide)
  | ok r =>
    obtain ⟨hframes, -⟩ := hok r rfl
    rw [hframes] at hcalls
    exact ⟨n, r, hcalls⟩

end

end Msp

end MuseCodex
