import OmkVerified.CodingAgent.OutputAccumulator
import OmkVerified.CodingAgent.Proofs.TruncateProofs

/-!
# The output accumulator against the truncation of the whole output

However the byte stream is cut, the accumulator tracks the decoded text: its counters are those of
the whole text and its tail is an end of it, cut at most once inside the rolling window. The snapshot
then truncates as `truncateTail` does on the whole text exactly when the kept end decides the result.
-/

namespace CodingAgent

open Lib.Utf8

namespace OutputAccumulator

variable {acc : OutputAccumulator} {text : List Char}

/-! ## What the accumulator tracks -/

/-- The tail is the whole text, or an end of it that could not be one character longer. -/
def TailOf (acc : OutputAccumulator) (text : List Char) : Prop :=
  (acc.tailText = text ∧ acc.tailStartsAtLineBoundary = true) ∨
  ∃ before c, text = before ++ c :: acc.tailText ∧
    acc.tailStartsAtLineBoundary = decide (c = '\n') ∧
    acc.maxRollingBytes < c.utf8Size + byteLength acc.tailText

/-- The accumulator after the text `text`. -/
structure Tracks (acc : OutputAccumulator) (text : List Char) : Prop where
  rolling : acc.maxRollingBytes = max (acc.maxBytes * 2) 1
  tailBytes : acc.tailBytes = byteLength acc.tailText
  decoded : acc.totalDecodedBytes = byteLength text
  completed : acc.completedLines = text.count '\n'
  openLine : acc.hasOpenLine = decide (text ≠ [] ∧ endsWithNewline text = false)
  lines : acc.totalLines = (splitLinesForCounting text).length
  tail : TailOf acc text

theorem tracks_new (options : OutputAccumulatorOptions) : Tracks (new options) [] where
  rolling := rfl
  tailBytes := rfl
  decoded := rfl
  completed := rfl
  openLine := rfl
  lines := rfl
  tail := .inl ⟨rfl, rfl⟩

/-- The byte before the kept end is the last byte of the character before it. -/
theorem byte_before (before : List Char) (c : Char) (kept : List Char) :
    (encode (before ++ c :: kept))[(encode (before ++ c :: kept)).length - (encode kept).length - 1]? =
      (String.utf8EncodeChar c).getLast? := by
  rw [show before ++ c :: kept = (before ++ [c]) ++ kept by simp, encode_append, List.length_append,
    Nat.add_sub_cancel]
  have hpos : 0 < (encode [c]).length := by
    show 0 < byteLength [c]
    rw [byteLength_cons]
    exact Nat.add_pos_left c.utf8Size_pos _
  have hlen : (encode (before ++ [c])).length = (encode before).length + (encode [c]).length := by
    rw [encode_append, List.length_append]
  rw [List.getElem?_append_left (by omega), encode_append, List.length_append,
    List.getElem?_append_right (by omega),
    show (encode before).length + (encode [c]).length - 1 - (encode before).length =
      (encode [c]).length - 1 by omega, ← List.getLast?_eq_getElem?]
  simp [encode]

theorem trimTail_spec (h : TailOf acc text) : ∃ kept boundary,
    acc.trimTail = { acc with
      tailText := kept, tailBytes := byteLength kept, tailStartsAtLineBoundary := boundary } ∧
    TailOf acc.trimTail text := by
  unfold trimTail
  by_cases hfit : (encode acc.tailText).length ≤ acc.maxRollingBytes
  · rw [if_pos hfit]
    exact ⟨acc.tailText, acc.tailStartsAtLineBoundary, rfl, h⟩
  · rw [if_neg hfit]
    simp only [lastBytes_encode, decode_encode]
    obtain ⟨before, c, hsplit, hcut⟩ := lastWithin_cut (Nat.lt_of_not_le hfit)
    have hstart : (encode acc.tailText).length -
        (encode (lastWithin acc.maxRollingBytes acc.tailText)).length ≠ 0 := by
      have hle : (encode (lastWithin acc.maxRollingBytes acc.tailText)).length ≤ acc.maxRollingBytes :=
        byteLength_lastWithin_le _ _
      omega
    have hbyte := byte_before before c (lastWithin acc.maxRollingBytes acc.tailText)
    rw [← hsplit] at hbyte
    rw [if_neg hstart, hbyte]
    refine ⟨_, _, rfl, .inr ?_⟩
    have hflag : decide ((String.utf8EncodeChar c).getLast? = some 0x0a) = decide (c = '\n') :=
      decide_eq_decide.mpr (getLast_encodeChar c)
    rcases h with ⟨hall, -⟩ | ⟨before', c', hall, -, -⟩
    · exact ⟨before, c, by rw [← hall]; exact hsplit, hflag, hcut⟩
    · refine ⟨before' ++ c' :: before, c, ?_, hflag, hcut⟩
      rw [hall, List.append_assoc, List.cons_append, ← hsplit]

/-- The accumulator with more text in its tail, before the trim. -/
def grown (acc : OutputAccumulator) (more : List Char) : OutputAccumulator :=
  { acc with
    totalDecodedBytes := acc.totalDecodedBytes + byteLength more
    tailText := acc.tailText ++ more
    tailBytes := acc.tailBytes + byteLength more }

theorem appendDecodedText_of_ne {more : List Char} (hne : more ≠ []) :
    acc.appendDecodedText more =
      (if (acc.grown more).tailBytes > (acc.grown more).maxRollingBytes * 2 then
        (acc.grown more).trimTail else acc.grown more).countLines more (byteLength more) := by
  unfold appendDecodedText
  rw [if_neg (by simpa using hne)]
  rfl

theorem TailOf.grown (h : TailOf acc text) (more : List Char) :
    TailOf (acc.grown more) (text ++ more) := by
  rcases h with ⟨hall, hflag⟩ | ⟨before, c, hall, hflag, hcut⟩
  · exact .inl ⟨by rw [← hall]; rfl, hflag⟩
  · refine .inr ⟨before, c, by rw [hall, List.append_assoc]; rfl, hflag, ?_⟩
    show acc.maxRollingBytes < c.utf8Size + byteLength (acc.tailText ++ more)
    rw [byteLength_append]
    omega

/-- The tail after the trim, whether or not it happens. -/
theorem trimmed_spec (h : Tracks acc text) (more : List Char) : ∃ kept boundary,
    (if (acc.grown more).tailBytes > (acc.grown more).maxRollingBytes * 2 then
      (acc.grown more).trimTail else acc.grown more) =
      { acc.grown more with
        tailText := kept, tailBytes := byteLength kept, tailStartsAtLineBoundary := boundary } ∧
    TailOf { acc.grown more with
        tailText := kept, tailBytes := byteLength kept, tailStartsAtLineBoundary := boundary }
      (text ++ more) := by
  have hgrown := h.tail.grown more
  split_ifs
  · obtain ⟨kept, boundary, heq, htail⟩ := trimTail_spec hgrown
    exact ⟨kept, boundary, heq, heq ▸ htail⟩
  · have hself : acc.grown more = { acc.grown more with
        tailText := (acc.grown more).tailText
        tailBytes := byteLength (acc.grown more).tailText
        tailStartsAtLineBoundary := (acc.grown more).tailStartsAtLineBoundary } := by
      unfold OutputAccumulator.grown
      rw [byteLength_append, ← h.tailBytes]
    exact ⟨_, _, hself, hself ▸ hgrown⟩

theorem openLine_append {more : List Char} (hne : more ≠ []) :
    (text ++ more ≠ [] ∧ endsWithNewline (text ++ more) = false) ↔ endsWithNewline more = false := by
  have hlast : endsWithNewline (text ++ more) = endsWithNewline more := by
    unfold endsWithNewline
    rw [List.getLast?_append_of_ne_nil _ hne]
  rw [hlast]
  exact and_iff_right fun h => hne (List.append_eq_nil_iff.mp h).2

theorem takeWhile_reverse_pos (more : List Char) (hne : more ≠ []) :
    decide ((more.reverse.takeWhile fun c => c ≠ '\n').reverse.length > 0) =
      decide (endsWithNewline more = false) := by
  rw [decide_eq_decide, List.length_reverse]
  obtain ⟨c, rest, hrev⟩ := List.exists_cons_of_ne_nil (fun h => hne (List.reverse_eq_nil_iff.mp h))
  have hlast : more.getLast? = some c := by rw [List.getLast?_eq_head?_reverse, hrev]; rfl
  unfold endsWithNewline
  rw [hrev, hlast]
  by_cases hc : c = '\n'
  · simp [hc]
  · simp [hc]

/-- The counters after more text. -/
theorem countLines_spec {more : List Char} (hne : more ≠ []) (bytes : Nat)
    (hcompleted : acc.completedLines = text.count '\n') :
    (acc.countLines more bytes).completedLines = (text ++ more).count '\n' ∧
    (acc.countLines more bytes).hasOpenLine =
      decide (text ++ more ≠ [] ∧ endsWithNewline (text ++ more) = false) ∧
    (acc.countLines more bytes).totalLines = (splitLinesForCounting (text ++ more)).length := by
  have hopen : decide (text ++ more ≠ [] ∧ endsWithNewline (text ++ more) = false) =
      decide (endsWithNewline more = false) := decide_eq_decide.mpr (openLine_append hne)
  have hcount : (acc.countLines more bytes).completedLines = (text ++ more).count '\n' ∧
      (acc.countLines more bytes).hasOpenLine = decide (endsWithNewline more = false) := by
    unfold countLines
    by_cases hnone : more.count '\n' = 0
    · simp only [if_pos hnone]
      have hends : endsWithNewline more = false := by
        by_contra hends
        obtain ⟨line, rfl⟩ := endsWithNewline_iff.mp (Bool.not_eq_false _ ▸ hends)
        simp at hnone
      rw [hends]
      exact ⟨by rw [List.count_append, hnone]; exact hcompleted, rfl⟩
    · simp only [if_neg hnone]
      exact ⟨by rw [List.count_append, ← hcompleted], takeWhile_reverse_pos more hne⟩
  refine ⟨hcount.1, hcount.2.trans hopen.symm, ?_⟩
  have htotal : (acc.countLines more bytes).totalLines = (acc.countLines more bytes).completedLines +
      if (acc.countLines more bytes).hasOpenLine then 1 else 0 := rfl
  rw [htotal, hcount.1, hcount.2, ← hopen, length_splitLines]
  simp only [decide_eq_true_eq]

/-- Counting lines changes the counters only. -/
theorem countLines_frame (more : List Char) (bytes : Nat) :
    (acc.countLines more bytes).maxLines = acc.maxLines ∧
    (acc.countLines more bytes).maxBytes = acc.maxBytes ∧
    (acc.countLines more bytes).maxRollingBytes = acc.maxRollingBytes ∧
    (acc.countLines more bytes).tailText = acc.tailText ∧
    (acc.countLines more bytes).tailBytes = acc.tailBytes ∧
    (acc.countLines more bytes).tailStartsAtLineBoundary = acc.tailStartsAtLineBoundary ∧
    (acc.countLines more bytes).totalDecodedBytes = acc.totalDecodedBytes ∧
    (acc.countLines more bytes).decoder = acc.decoder ∧
    (acc.countLines more bytes).finished = acc.finished := by
  unfold countLines
  by_cases hnone : more.count '\n' = 0
  · simp only [if_pos hnone, and_self]
  · simp only [if_neg hnone, and_self]

/-- What `appendDecodedText` leaves alone. -/
structure SameStream (acc acc' : OutputAccumulator) : Prop where
  maxLines : acc'.maxLines = acc.maxLines
  maxBytes : acc'.maxBytes = acc.maxBytes
  decoder : acc'.decoder = acc.decoder
  finished : acc'.finished = acc.finished

theorem Tracks.appendDecodedText (h : Tracks acc text) (more : List Char) :
    Tracks (acc.appendDecodedText more) (text ++ more) ∧
      SameStream acc (acc.appendDecodedText more) := by
  by_cases hne : more = []
  · subst hne
    rw [List.append_nil]
    exact ⟨h, rfl, rfl, rfl, rfl⟩
  obtain ⟨kept, boundary, heq, htail⟩ := trimmed_spec h more
  rw [appendDecodedText_of_ne hne, heq]
  generalize htrimmed : ({ acc.grown more with
      tailText := kept, tailBytes := byteLength kept
      tailStartsAtLineBoundary := boundary } : OutputAccumulator) = trimmed
  have hcompleted : trimmed.completedLines = text.count '\n' := by
    rw [← htrimmed]
    exact h.completed
  obtain ⟨hcount, hopen, hlines⟩ := countLines_spec hne (byteLength more) hcompleted
  obtain ⟨f1, f2, f3, f4, f5, f6, f7, f8, f9⟩ := trimmed.countLines_frame more (byteLength more)
  refine ⟨⟨?_, ?_, ?_, hcount, hopen, hlines, ?_⟩, ⟨?_, ?_, ?_, ?_⟩⟩
  · rw [f3, f2, ← htrimmed]
    exact h.rolling
  · rw [f5, f4, ← htrimmed]
  · rw [f7, byteLength_append, ← h.decoded, ← htrimmed]
    rfl
  · unfold TailOf
    rw [f3, f4, f6, ← htrimmed]
    exact htail
  · rw [f1, ← htrimmed]
    rfl
  · rw [f2, ← htrimmed]
    rfl
  · rw [f8, ← htrimmed]
    rfl
  · rw [f9, ← htrimmed]
    rfl

/-! ## Chunks -/

theorem Tracks.ensureTempFile (h : Tracks acc text) (path : String) :
    Tracks (acc.ensureTempFile path) text ∧ SameStream acc (acc.ensureTempFile path) := by
  unfold OutputAccumulator.ensureTempFile
  split
  · exact ⟨h, rfl, rfl, rfl, rfl⟩
  · exact ⟨⟨h.rolling, h.tailBytes, h.decoded, h.completed, h.openLine, h.lines, h.tail⟩, rfl, rfl, rfl,
      rfl⟩

/-- One chunk: the accumulator tracks the text decoded so far. -/
theorem append_spec (path : String) (h : Tracks acc text) (hopen : acc.finished = false)
    (data : List UInt8) : ∃ acc', acc.append path data = .ok acc' ∧
      Tracks acc' (text ++ (acc.decoder.decodeStream data).2) ∧
      acc'.decoder = (acc.decoder.decodeStream data).1 ∧ acc'.finished = false ∧
      acc'.maxLines = acc.maxLines ∧ acc'.maxBytes = acc.maxBytes := by
  generalize hread : ({ acc with
      totalRawBytes := acc.totalRawBytes + data.length
      decoder := (acc.decoder.decodeStream data).1 } : OutputAccumulator) = read
  have htracks : Tracks read text := by
    rw [← hread]
    exact ⟨h.rolling, h.tailBytes, h.decoded, h.completed, h.openLine, h.lines, h.tail⟩
  obtain ⟨hdecoded, hsame⟩ := htracks.appendDecodedText (acc.decoder.decodeStream data).2
  generalize hacc : read.appendDecodedText (acc.decoder.decodeStream data).2 = decoded at hdecoded hsame
  have happend : acc.append path data =
      if decoded.tempFile.isSome || decoded.shouldUseTempFile then
        .ok ((decoded.ensureTempFile path).writeTempFile data)
      else if data.length > 0 then .ok { decoded with rawChunks := decoded.rawChunks ++ [data] }
      else .ok decoded := by
    unfold append
    rw [if_neg (by rw [hopen]; exact Bool.false_ne_true), ← hacc, ← hread]
  have hframe : decoded.decoder = (acc.decoder.decodeStream data).1 ∧ decoded.finished = false ∧
      decoded.maxLines = acc.maxLines ∧ decoded.maxBytes = acc.maxBytes := by
    rw [hsame.decoder, hsame.finished, hsame.maxLines, hsame.maxBytes, ← hread]
    exact ⟨rfl, hopen, rfl, rfl⟩
  rw [happend]
  split_ifs
  · obtain ⟨⟨t1, t2, t3, t4, t5, t6, t7⟩, s1, s2, s3, s4⟩ := hdecoded.ensureTempFile path
    exact ⟨_, rfl, ⟨t1, t2, t3, t4, t5, t6, t7⟩, s3.trans hframe.1, s4.trans hframe.2.1,
      s1.trans hframe.2.2.1, s2.trans hframe.2.2.2⟩
  · obtain ⟨t1, t2, t3, t4, t5, t6, t7⟩ := hdecoded
    exact ⟨_, rfl, ⟨t1, t2, t3, t4, t5, t6, t7⟩, hframe⟩
  · exact ⟨decoded, rfl, hdecoded, hframe⟩

/-- What is still to come from the decoder when the bytes `rest` follow. -/
def remaining (decoder : TextDecoder) (rest : List UInt8) : List Char :=
  dropBom decoder.bomSeen ((decoder.decoder.run rest).2 ++ (decoder.decoder.run rest).1.flush)

/-- All chunks: the text decoded so far and the rest are the decoding of the whole stream. -/
theorem foldlM_append_spec (path : String) (chunks : List (List UInt8)) (h : Tracks acc text)
    (hopen : acc.finished = false) : ∃ acc' text', chunks.foldlM (append path) acc = .ok acc' ∧
      Tracks acc' text' ∧ acc'.finished = false ∧
      text' ++ acc'.decoder.decodeEnd = text ++ remaining acc.decoder chunks.flatten ∧
      acc'.maxLines = acc.maxLines ∧ acc'.maxBytes = acc.maxBytes := by
  induction chunks generalizing acc text with
  | nil => exact ⟨acc, text, rfl, h, hopen, rfl, rfl, rfl⟩
  | cons data chunks ih =>
    obtain ⟨next, happend, htracks, hdecoder, hnext, hl, hb⟩ := append_spec path h hopen data
    obtain ⟨acc', text', hfold, htracks', hopen', htext, hl', hb'⟩ := ih htracks hnext
    refine ⟨acc', text', ?_, htracks', hopen', ?_, hl'.trans hl, hb'.trans hb⟩
    · rw [List.foldlM_cons, happend]
      exact hfold
    · rw [htext, hdecoder, List.append_assoc, List.flatten_cons]
      exact congrArg (text ++ ·)
        (TextDecoder.decodeStream_rest acc.decoder data chunks.flatten).symm

/-- After the stream is finished the accumulator tracks its whole decoding. -/
theorem consume_spec (path : String) (options : OutputAccumulatorOptions)
    (chunks : List (List UInt8)) : ∃ acc, consume path options chunks = .ok acc ∧
      Tracks acc (decodeText chunks.flatten) ∧ acc.maxLines = (new options).maxLines ∧
      acc.maxBytes = (new options).maxBytes := by
  obtain ⟨acc, text, hfold, htracks, hopen, htext, hl, hb⟩ :=
    foldlM_append_spec path chunks (tracks_new options) rfl
  have hend : text ++ acc.decoder.decodeEnd = decodeText chunks.flatten := htext
  refine ⟨acc.finish path, ?_, ?_⟩
  · unfold consume
    rw [hfold]
    rfl
  · have hfinished : Tracks { acc with finished := true } text :=
      ⟨htracks.rolling, htracks.tailBytes, htracks.decoded, htracks.completed, htracks.openLine,
        htracks.lines, htracks.tail⟩
    obtain ⟨hdecoded, hsame⟩ := hfinished.appendDecodedText acc.decoder.decodeEnd
    rw [hend] at hdecoded
    unfold finish
    rw [hopen, if_neg Bool.false_ne_true]
    by_cases htemp : (({ acc with finished := true } : OutputAccumulator).appendDecodedText
        acc.decoder.decodeEnd).shouldUseTempFile = true
    · simp only [if_pos htemp]
      obtain ⟨ht, hs⟩ := hdecoded.ensureTempFile path
      exact ⟨ht, hs.maxLines.trans (hsame.maxLines.trans hl), hs.maxBytes.trans (hsame.maxBytes.trans hb)⟩
    · simp only [if_neg htemp]
      exact ⟨hdecoded, hsame.maxLines.trans hl, hsame.maxBytes.trans hb⟩

/-! ## The snapshot -/

/-- The kept end decides the truncation of the whole output: nothing was dropped, or the end has more
lines or more bytes than the limits allow, or it fills the line limit and only its final newline is
over the byte limit, or it starts on a line and is shown whole, without a final newline and with
fewer lines than the limit. -/
def KeptDecides (acc : OutputAccumulator) : Prop :=
  acc.tailBytes = acc.totalDecodedBytes ∨
  acc.maxLines < (splitLinesForCounting acc.getSnapshotText).length ∨
  acc.maxBytes < byteLength (joinLines (splitLinesForCounting acc.getSnapshotText)) ∨
  ((splitLinesForCounting acc.getSnapshotText).length = acc.maxLines ∧
    acc.maxBytes < byteLength acc.getSnapshotText) ∨
  ((acc.tailStartsAtLineBoundary = true ∨ '\n' ∈ acc.tailText) ∧ acc.getSnapshotText ≠ [] ∧
    endsWithNewline acc.getSnapshotText = false ∧
    (splitLinesForCounting acc.getSnapshotText).length < acc.maxLines ∧
    byteLength acc.getSnapshotText ≤ acc.maxBytes)

theorem snapshotTruncation_whole (h : Tracks acc text) (hall : acc.tailText = text)
    (hflag : acc.tailStartsAtLineBoundary = true) :
    acc.snapshotTruncation = truncateTail text (limits acc.maxLines acc.maxBytes) := by
  have hkept : acc.getSnapshotText = text := by
    unfold getSnapshotText
    rw [if_pos hflag, hall]
  unfold snapshotTruncation
  rw [hkept, h.lines, h.decoded]
  by_cases hover : acc.maxLines < (splitLinesForCounting text).length ∨ acc.maxBytes < byteLength text
  · rw [show (⟨some acc.maxLines, some acc.maxBytes⟩ : TruncationOptions) =
      limits acc.maxLines acc.maxBytes from rfl, truncateTail_over hover]
    have htrunc : (decide ((splitLinesForCounting text).length > acc.maxLines) ||
        decide (byteLength text > acc.maxBytes)) = true := by
      simpa using hover
    simp only [htrunc, if_true]
    rfl
  · have htrunc : (decide ((splitLinesForCounting text).length > acc.maxLines) ||
        decide (byteLength text > acc.maxBytes)) = false := by
      simpa using hover
    simp only [htrunc]
    unfold truncateTail limits
    simp only [Option.getD_some]
    rw [if_pos (by omega)]
    rfl

theorem snapshotTruncation_over (h : Tracks acc text) (hover : acc.maxBytes < byteLength text) :
    acc.snapshotTruncation = snapshotOf acc.maxLines acc.maxBytes acc.getSnapshotText text := by
  unfold snapshotTruncation snapshotOf
  rw [h.lines, h.decoded]
  have htrunc : (decide ((splitLinesForCounting text).length > acc.maxLines) ||
      decide (byteLength text > acc.maxBytes)) = true := by
    simp [hover]
  simp only [htrunc, if_true]
  rw [if_pos hover]
  rfl

/-- The kept end starts on a line, behind a line that does not fit. -/
theorem snapshotOf_line_iff {maxLines maxBytes : Nat} {before kept line : List Char}
    {lines : List (List Char)} (hbefore : before.splitOn '\n' = lines ++ [line])
    (hroom : maxBytes < byteLength line + byteLength kept) :
    snapshotOf maxLines maxBytes kept (before ++ '\n' :: kept) =
        truncateTail (before ++ '\n' :: kept) (limits maxLines maxBytes) ↔
      maxLines < (splitLinesForCounting kept).length ∨
      maxBytes < byteLength (joinLines (splitLinesForCounting kept)) ∨
      ((splitLinesForCounting kept).length = maxLines ∧ maxBytes < byteLength kept) ∨
      (kept ≠ [] ∧ endsWithNewline kept = false ∧
        (splitLinesForCounting kept).length < maxLines ∧ byteLength kept ≤ maxBytes) := by
  have hlines : lastLines (before ++ '\n' :: kept) = lastLines kept ++ line :: lines.reverse := by
    unfold lastLines
    rw [splitLines_append, hbefore, List.reverse_append, List.reverse_append]
    rfl
  have htext : maxBytes < byteLength (before ++ '\n' :: kept) := by
    have hle : byteLength line ≤ byteLength before := by
      have hjoin : joinLines (lines ++ [line]) = before := by
        rw [← hbefore]
        exact List.intercalate_splitOn '\n'
      have hmono := byteLength_joinLines_append lines [line]
      rwa [hjoin, show joinLines [line] = line from List.intercalate_singleton] at hmono
    rw [byteLength_append, byteLength_cons]
    omega
  by_cases hstop : maxLines < (splitLinesForCounting kept).length ∨
      maxBytes < byteLength (joinLines (splitLinesForCounting kept))
  · refine iff_of_true (snapshotOf_of_stops hlines htext hstop) ?_
    rcases hstop with h | h
    · exact .inl h
    · exact .inr (.inl h)
  · push Not at hstop
    obtain ⟨hl, hb⟩ := hstop
    rcases Nat.lt_or_eq_of_le hl with hlt | heq
    · have hjoin := (byteLength_joinLines_le kept).2
      rw [snapshotOf_of_room hlines htext hlt hb (fun _ => by omega)]
      constructor
      · rintro ⟨hne, hopen, hle⟩
        exact .inr (.inr (.inr ⟨hne, hopen, hlt, hle⟩))
      · rintro (h | h | ⟨h, -⟩ | ⟨hne, hopen, -, hle⟩)
        · omega
        · omega
        · omega
        · exact ⟨hne, hopen, hle⟩
    · rw [snapshotOf_of_full hlines htext heq hb]
      constructor
      · intro h
        exact .inr (.inr (.inl ⟨heq, h⟩))
      · rintro (h | h | ⟨-, h⟩ | ⟨-, -, h, -⟩)
        · omega
        · omega
        · exact h
        · omega

/-- A text with a newline, cut at its first one. -/
theorem takeWhile_newline {tail : List Char} (h : '\n' ∈ tail) :
    tail = (tail.takeWhile fun c => c ≠ '\n') ++ '\n' :: (tail.dropWhile fun c => c ≠ '\n').tail ∧
      '\n' ∉ tail.takeWhile fun c => c ≠ '\n' := by
  induction tail with
  | nil => exact absurd h List.not_mem_nil
  | cons c tail ih =>
    by_cases hc : c = '\n'
    · subst hc
      simp
    · obtain ⟨hsplit, hnot⟩ := ih ((List.mem_cons.mp h).resolve_left (Ne.symm hc))
      have htake : ((c :: tail).takeWhile fun d => d ≠ '\n') =
          c :: tail.takeWhile fun d => d ≠ '\n' := by simp [hc]
      have hdrop : ((c :: tail).dropWhile fun d => d ≠ '\n') =
          tail.dropWhile fun d => d ≠ '\n' := by simp [hc]
      rw [htake, hdrop, List.cons_append, ← hsplit]
      exact ⟨rfl, fun hmem => (List.mem_cons.mp hmem).elim (Ne.symm hc) hnot⟩

theorem snapshotTruncation_iff (h : Tracks acc text) :
    acc.snapshotTruncation = truncateTail text (limits acc.maxLines acc.maxBytes) ↔
      acc.KeptDecides := by
  rcases h.tail with ⟨hall, hflag⟩ | ⟨before, c, hall, hflag, hcut⟩
  · refine iff_of_true (snapshotTruncation_whole h hall hflag) (.inl ?_)
    rw [h.tailBytes, h.decoded, hall]
  have hdropped : acc.tailBytes ≠ acc.totalDecodedBytes := by
    have hpos := c.utf8Size_pos
    rw [h.tailBytes, h.decoded, hall, byteLength_append, byteLength_cons]
    omega
  have hrolling := h.rolling
  have hover : acc.maxBytes < byteLength text := by
    rw [hall, byteLength_append, byteLength_cons]
    omega
  rw [snapshotTruncation_over h hover]
  unfold KeptDecides
  rw [or_iff_right hdropped]
  by_cases hc : c = '\n'
  · -- the cut is at a line boundary: the kept end is the tail
    subst hc
    have hkept : acc.getSnapshotText = acc.tailText := if_pos hflag
    obtain ⟨lines, line, hlines⟩ := splitOn_append_line before List.not_mem_nil
    rw [List.append_nil, List.append_nil] at hlines
    have hsize : ('\n' : Char).utf8Size = 1 := rfl
    rw [hkept, hall, snapshotOf_line_iff hlines (by omega)]
    simp only [hflag, decide_true, true_or, true_and]
  · have hflag' : acc.tailStartsAtLineBoundary = false := by rw [hflag, decide_eq_false hc]
    by_cases hmem : '\n' ∈ acc.tailText
    · -- the rest of the cut line is dropped too
      obtain ⟨htail, hline⟩ := takeWhile_newline hmem
      have hkept : acc.getSnapshotText = (acc.tailText.dropWhile fun c => c ≠ '\n').tail := by
        unfold getSnapshotText
        rw [hflag', if_neg Bool.false_ne_true, if_pos hmem]
      generalize hfirst : acc.tailText.takeWhile (fun c => c ≠ '\n') = first at htail hline
      rw [← hkept] at htail
      obtain ⟨lines, line, hlines⟩ := splitOn_append_line before
        (show '\n' ∉ c :: first by simp [hline, Ne.symm hc])
      have htext : text = (before ++ c :: first) ++ '\n' :: acc.getSnapshotText := by
        rw [hall, List.append_assoc, List.cons_append, ← htail]
      have hroom : acc.maxBytes < byteLength (line ++ c :: first) + byteLength acc.getSnapshotText := by
        rw [htail, byteLength_append, byteLength_cons, show ('\n' : Char).utf8Size = 1 from rfl] at hcut
        rw [byteLength_append, byteLength_cons]
        omega
      rw [htext, snapshotOf_line_iff hlines hroom]
      simp only [hmem, or_true, true_and]
    · -- the kept end is inside one line
      have hkept : acc.getSnapshotText = acc.tailText := by
        unfold getSnapshotText
        rw [hflag', if_neg Bool.false_ne_true, if_neg hmem]
      rw [hkept]
      obtain ⟨lines, line, hlines⟩ := splitOn_append_line before
        (show '\n' ∉ c :: acc.tailText by simp [hmem, Ne.symm hc])
      have hopen : endsWithNewline text = false := by
        by_contra hends
        obtain ⟨start, hstart⟩ := endsWithNewline_iff.mp (Bool.not_eq_false _ ▸ hends)
        have hlast : text.getLast? = some '\n' := by rw [hstart]; simp
        rw [hall, List.getLast?_append_cons] at hlast
        have := List.mem_of_getLast? hlast
        simp [hmem, Ne.symm hc] at this
      have hlast : lastLines text = (line ++ c :: acc.tailText) :: lines.reverse := by
        unfold lastLines
        rw [splitLines_open (by rw [hall]; simp) hopen, hall, hlines, List.reverse_append]
        rfl
      rw [snapshotOf_of_midline hlast hover hmem (by omega)]
      constructor
      · rintro (h | h)
        · exact .inl h
        · exact .inr (.inl h)
      · rintro (h | h | ⟨h, hb⟩ | ⟨h | h, -⟩)
        · exact .inl h
        · exact .inr h
        · -- one line, or none, within its limit is not over the byte limit
          have hopen' : endsWithNewline acc.tailText = false := by
            by_contra hends
            obtain ⟨start, hstart⟩ := endsWithNewline_iff.mp (Bool.not_eq_false _ ▸ hends)
            exact hmem (by rw [hstart]; simp)
          rw [joinLines_splitLines_open hopen']
          exact .inr hb
        · rw [hflag'] at h
          exact absurd h Bool.false_ne_true
        · exact absurd h hmem

/-- The snapshot of a finished stream is the truncation of its whole decoding exactly when the kept
end decides it. -/
theorem snapshot_eq_truncateTail_iff (path : String) (options : OutputAccumulatorOptions)
    (chunks : List (List UInt8)) (persistIfTruncated : Bool) :
    ∃ acc, consume path options chunks = .ok acc ∧
      ((acc.snapshot path persistIfTruncated).2.content =
          (truncateTail (decodeText chunks.flatten) ⟨options.maxLines, options.maxBytes⟩).content ∧
        (acc.snapshot path persistIfTruncated).2.truncation =
          truncateTail (decodeText chunks.flatten) ⟨options.maxLines, options.maxBytes⟩ ↔
        acc.KeptDecides) := by
  obtain ⟨acc, hok, htracks, hl, hb⟩ := consume_spec path options chunks
  refine ⟨acc, hok, ?_⟩
  have hlimits : truncateTail (decodeText chunks.flatten) ⟨options.maxLines, options.maxBytes⟩ =
      truncateTail (decodeText chunks.flatten) (limits acc.maxLines acc.maxBytes) := by
    rw [hl, hb]
    rfl
  rw [hlimits, ← snapshotTruncation_iff htracks]
  constructor
  · rintro ⟨-, htruncation⟩
    exact htruncation
  · intro htruncation
    exact ⟨congrArg TruncationResult.content htruncation, htruncation⟩

/-- A line of five characters and its newline with a byte limit of one: the rolling tail is cut
inside the line, the snapshot drops the rest of the line and shows nothing, while the truncation of
the whole output shows the end of the line. -/
theorem snapshot_long_line :
    ((consume "omk-output.log" ⟨none, some 1⟩ [encode "aaaaa\n".toList]).toOption.map fun acc =>
      (acc.snapshot "omk-output.log" false).2.content) = some [] ∧
    (truncateTail (decodeText (encode "aaaaa\n".toList)) ⟨none, some 1⟩).content = ['a'] := by
  decide +kernel

end OutputAccumulator

end CodingAgent
