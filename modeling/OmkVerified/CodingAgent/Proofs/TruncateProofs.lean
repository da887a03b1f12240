import OmkVerified.CodingAgent.Truncate

/-!
# Tail truncation of a text and of an end of it

`truncateTail` reads lines from the end, so it gives the same result on a text and on an end of it
unless it runs out of lines there. The lemmas say when the backward loop stops inside the end, and
what it does when it does not.
-/

namespace CodingAgent

open Lib.Utf8

/-! ## Lines -/

theorem splitLines_open {text : List Char} (hne : text ≠ []) (hopen : endsWithNewline text = false) :
    splitLinesForCounting text = text.splitOn '\n' := by
  unfold splitLinesForCounting
  rw [if_neg (by simpa using hne), hopen]
  exact if_neg Bool.false_ne_true

theorem splitLines_newline (text : List Char) :
    splitLinesForCounting (text ++ ['\n']) = text.splitOn '\n' := by
  unfold splitLinesForCounting endsWithNewline
  rw [if_neg (by simp), if_pos (by simp), List.splitOn_append_cons_self, List.splitOn_nil,
    List.dropLast_concat]

theorem endsWithNewline_iff {text : List Char} :
    endsWithNewline text = true ↔ ∃ line, text = line ++ ['\n'] := by
  unfold endsWithNewline
  rw [decide_eq_true_iff, List.getLast?_eq_some_iff]

theorem text_cases (text : List Char) :
    text = [] ∨ (∃ line, text = line ++ ['\n']) ∨
      (text ≠ [] ∧ endsWithNewline text = false) := by
  by_cases hne : text = []
  · exact .inl hne
  · cases hends : endsWithNewline text with
    | true => exact .inr (.inl ((endsWithNewline_iff).mp hends))
    | false => exact .inr (.inr ⟨hne, rfl⟩)

theorem splitLines_append (before after : List Char) :
    splitLinesForCounting (before ++ '\n' :: after) =
      before.splitOn '\n' ++ splitLinesForCounting after := by
  rcases text_cases after with rfl | ⟨line, rfl⟩ | ⟨hne, hopen⟩
  · rw [splitLines_newline]
    exact (List.append_nil _).symm
  · rw [show before ++ '\n' :: (line ++ ['\n']) = (before ++ '\n' :: line) ++ ['\n'] by simp,
      splitLines_newline, splitLines_newline, List.splitOn_append_cons_self]
  · have hopen' : endsWithNewline (before ++ '\n' :: after) = false := by
      unfold endsWithNewline at hopen ⊢
      rw [List.getLast?_append_cons, List.getLast?_cons, ← hopen]
      obtain ⟨c, hc⟩ := Option.isSome_iff_exists.mp (List.getLast?_isSome.mpr hne)
      rw [hc, Option.getD_some]
    rw [splitLines_open (by simp) hopen', splitLines_open hne hopen, List.splitOn_append_cons_self]

theorem length_splitOn (text : List Char) : (text.splitOn '\n').length = text.count '\n' + 1 := by
  induction text with
  | nil => rfl
  | cons c text ih =>
    rw [List.splitOn_cons_eq_if_modifyHead, List.count_cons]
    split_ifs <;> simp [ih]

theorem length_splitLines (text : List Char) : (splitLinesForCounting text).length =
    text.count '\n' + if text ≠ [] ∧ endsWithNewline text = false then 1 else 0 := by
  rcases text_cases text with rfl | ⟨line, rfl⟩ | ⟨hne, hopen⟩
  · rfl
  · have hends : endsWithNewline (line ++ ['\n']) = true := (endsWithNewline_iff).mpr ⟨line, rfl⟩
    rw [splitLines_newline, length_splitOn, if_neg (by simp [hends])]
    simp
  · rw [splitLines_open hne hopen, length_splitOn, if_pos ⟨hne, hopen⟩]

theorem joinLines_splitLines_open {text : List Char} (hopen : endsWithNewline text = false) :
    joinLines (splitLinesForCounting text) = text := by
  by_cases hne : text = []
  · rw [hne]
    rfl
  · rw [splitLines_open hne hopen]
    exact List.intercalate_splitOn '\n'

theorem joinLines_splitLines_newline (text : List Char) :
    joinLines (splitLinesForCounting (text ++ ['\n'])) = text := by
  rw [splitLines_newline]
  exact List.intercalate_splitOn '\n'

theorem byteLength_newline : byteLength ['\n'] = 1 := rfl

/-- The joined lines lack at most one byte of the text. -/
theorem byteLength_joinLines_le (text : List Char) :
    byteLength (joinLines (splitLinesForCounting text)) ≤ byteLength text ∧
      byteLength text ≤ byteLength (joinLines (splitLinesForCounting text)) + 1 := by
  cases hends : endsWithNewline text with
  | true =>
    obtain ⟨line, rfl⟩ := (endsWithNewline_iff).mp hends
    rw [joinLines_splitLines_newline, byteLength_append, byteLength_newline]
    omega
  | false =>
    rw [joinLines_splitLines_open hends]
    omega

theorem splitLines_eq_nil_iff {text : List Char} : splitLinesForCounting text = [] ↔ text = [] := by
  constructor
  · intro h
    rcases text_cases text with rfl | ⟨line, rfl⟩ | ⟨hne, hopen⟩
    · rfl
    · rw [splitLines_newline] at h
      exact absurd h (List.splitOn_ne_nil _ _)
    · rw [splitLines_open hne hopen] at h
      exact absurd h (List.splitOn_ne_nil _ _)
  · rintro rfl
    rfl

theorem splitOn_append_line (text : List Char) {last : List Char} (hlast : '\n' ∉ last) :
    ∃ lines line, (text ++ last).splitOn '\n' = lines ++ [line ++ last] := by
  induction text with
  | nil => exact ⟨[], [], List.splitOn_eq_singleton hlast⟩
  | cons c text ih =>
    obtain ⟨lines, line, hlines⟩ := ih
    rw [List.cons_append, List.splitOn_cons_eq_if_modifyHead, hlines]
    split_ifs
    · exact ⟨[] :: lines, line, rfl⟩
    · cases lines with
      | nil => exact ⟨[], c :: line, rfl⟩
      | cons first lines => exact ⟨(c :: first) :: lines, line, rfl⟩

/-! ## The backward loop -/

theorem byteLength_joinLines_cons (line : List Char) (lines : List (List Char)) :
    byteLength (joinLines (line :: lines)) =
      byteLength (joinLines lines) + (byteLength line + if lines.length > 0 then 1 else 0) := by
  cases lines with
  | nil =>
    show byteLength (['\n'].intercalate [line]) = 0 + (byteLength line + 0)
    rw [List.intercalate_singleton]
    omega
  | cons next lines =>
    show byteLength (['\n'].intercalate (line :: next :: lines)) =
      byteLength (joinLines (next :: lines)) + (byteLength line + 1)
    rw [List.intercalate_cons_cons, byteLength_append, byteLength_append, byteLength_newline]
    unfold joinLines
    omega

theorem byteLength_joinLines_append (a b : List (List Char)) :
    byteLength (joinLines b) ≤ byteLength (joinLines (a ++ b)) := by
  induction a with
  | nil => exact le_rfl
  | cons line a ih =>
    rw [List.cons_append, byteLength_joinLines_cons]
    omega

/-- The loop takes lines as long as both limits hold. -/
theorem tailLoop_fits (maxLines maxBytes : Nat) (lines more out : List (List Char))
    (hlines : out.length + lines.length ≤ maxLines)
    (hbytes : byteLength (joinLines (lines.reverse ++ out)) ≤ maxBytes) :
    tailLoop maxLines maxBytes (lines ++ more) out (byteLength (joinLines out)) =
      tailLoop maxLines maxBytes more (lines.reverse ++ out)
        (byteLength (joinLines (lines.reverse ++ out))) := by
  induction lines generalizing out with
  | nil => rfl
  | cons line lines ih =>
    rw [List.length_cons] at hlines
    rw [List.reverse_cons, List.append_assoc, List.singleton_append] at hbytes ⊢
    have hcost := byteLength_joinLines_cons line out
    have hmono := byteLength_joinLines_append lines.reverse (line :: out)
    rw [List.cons_append, tailLoop, if_pos (by omega), if_neg (by omega), ← hcost]
    exact ih (line :: out) (by rw [List.length_cons]; omega) hbytes

/-- The loop stops inside `lines` when they do not fit. -/
theorem tailLoop_stops (maxLines maxBytes : Nat) (lines more out : List (List Char))
    (hout : out.length ≤ maxLines) (hfit : byteLength (joinLines out) ≤ maxBytes)
    (hover : maxLines < out.length + lines.length ∨
      maxBytes < byteLength (joinLines (lines.reverse ++ out))) :
    tailLoop maxLines maxBytes (lines ++ more) out (byteLength (joinLines out)) =
      tailLoop maxLines maxBytes lines out (byteLength (joinLines out)) := by
  induction lines generalizing out with
  | nil =>
    rcases hover with h | h
    · exact absurd hout (by simpa using h)
    · exact absurd hfit (by simpa using h)
  | cons line lines ih =>
    have hcost := byteLength_joinLines_cons line out
    rw [List.cons_append, tailLoop, tailLoop]
    by_cases hroom : out.length < maxLines
    · rw [if_pos hroom, if_pos hroom]
      by_cases hbreak : byteLength (joinLines out) +
          (byteLength line + if out.length > 0 then 1 else 0) > maxBytes
      · rw [if_pos hbreak, if_pos hbreak]
      · rw [if_neg hbreak, if_neg hbreak, ← hcost]
        refine ih (line :: out) (by rw [List.length_cons]; omega) (by omega) ?_
        rw [List.reverse_cons, List.append_assoc, List.singleton_append] at hover
        rw [List.length_cons] at hover ⊢
        omega
    · rw [if_neg hroom, if_neg hroom]

variable {line : List Char} {rest : List (List Char)}

/-- A line that does not fit ends the loop. -/
theorem tailLoop_break {maxLines maxBytes : Nat} {more out : List (List Char)} {bytes : Nat}
    (hne : out ≠ []) (hroom : out.length < maxLines)
    (hover : maxBytes < bytes + byteLength line + 1) :
    tailLoop maxLines maxBytes (line :: more) out bytes = ⟨out, bytes, .bytes, false⟩ := by
  have hpos : 0 < out.length := List.length_pos_iff.mpr hne
  rw [tailLoop, if_pos hroom, if_pos hpos, if_pos (by omega), if_neg (by omega)]

theorem tailLoop_keeps {maxLines maxBytes : Nat} (lines out : List (List Char)) (bytes : Nat)
    (hlen : 0 < out.length) :
    0 < (tailLoop maxLines maxBytes lines out bytes).outputLinesArr.length := by
  fun_induction tailLoop maxLines maxBytes lines out bytes with
  | case1 out bytes => exact hlen
  | case2 => exact Nat.succ_pos _
  | case3 => exact hlen
  | case4 line lines out bytes _ _ _ ih => exact ih (Nat.succ_pos _)
  | case5 => exact hlen

/-- The round for the last line. -/
theorem tailLoop_first {maxLines maxBytes : Nat} (hpos : 0 < maxLines) (line : List Char)
    (more : List (List Char)) :
    tailLoop maxLines maxBytes (line :: more) [] 0 =
      if maxBytes < byteLength line then
        ⟨[truncateStringToBytesFromEnd line maxBytes],
          byteLength (truncateStringToBytesFromEnd line maxBytes), .bytes, true⟩
      else tailLoop maxLines maxBytes more [line] (byteLength line) := by
  rw [tailLoop]
  simp only [List.length_nil, hpos, if_true, gt_iff_lt, lt_irrefl, if_false, Nat.add_zero,
    Nat.zero_add]

/-- The loop takes something of the last line. -/
theorem tailLoop_takes {maxLines : Nat} (maxBytes : Nat) (hpos : 0 < maxLines) (line : List Char)
    (more : List (List Char)) :
    0 < (tailLoop maxLines maxBytes (line :: more) [] 0).outputLinesArr.length := by
  rw [tailLoop_first hpos]
  split_ifs
  · exact Nat.succ_pos _
  · exact tailLoop_keeps _ _ _ (Nat.succ_pos _)

theorem truncateStringToBytesFromEnd_eq (str : List Char) (maxBytes : Nat) :
    truncateStringToBytesFromEnd str maxBytes = lastWithin maxBytes str := by
  unfold truncateStringToBytesFromEnd
  by_cases h : (encode str).length ≤ maxBytes
  · rw [if_pos h, lastWithin_of_le h]
  · rw [if_neg h, lastBytes_encode, decode_encode]

/-! ## A text and an end of it -/

/-- The limits as options. -/
def limits (maxLines maxBytes : Nat) : TruncationOptions := ⟨some maxLines, some maxBytes⟩

/-- What a snapshot makes of the truncation of the kept end `kept`, when the whole text `text` is
over its byte limit. -/
def snapshotOf (maxLines maxBytes : Nat) (kept text : List Char) : TruncationResult :=
  let tail := truncateTail kept (limits maxLines maxBytes)
  { tail with
    truncated := true
    truncatedBy := some (tail.truncatedBy.getD .bytes)
    totalLines := (splitLinesForCounting text).length
    totalBytes := byteLength text
    maxLines
    maxBytes }

/-- The result of `truncateTail` from the variables of its loop. -/
def TailLoop.result (loop : TailLoop) (maxLines maxBytes totalLines totalBytes : Nat) :
    TruncationResult where
  content := joinLines loop.outputLinesArr
  truncated := true
  truncatedBy := some
    (if loop.outputLinesArr.length ≥ maxLines ∧ loop.outputBytesCount ≤ maxBytes then .lines
      else loop.truncatedBy)
  totalLines := totalLines
  totalBytes := totalBytes
  outputLines := loop.outputLinesArr.length
  outputBytes := byteLength (joinLines loop.outputLinesArr)
  lastLinePartial := loop.lastLinePartial
  firstLineExceedsLimit := false
  maxLines := maxLines
  maxBytes := maxBytes

/-- The lines a text is truncated from. -/
def lastLines (text : List Char) : List (List Char) := (splitLinesForCounting text).reverse

theorem truncateTail_over {text : List Char} {maxLines maxBytes : Nat}
    (h : maxLines < (splitLinesForCounting text).length ∨ maxBytes < byteLength text) :
    truncateTail text (limits maxLines maxBytes) =
      (tailLoop maxLines maxBytes (lastLines text) [] 0).result maxLines maxBytes
        (splitLinesForCounting text).length (byteLength text) := by
  unfold truncateTail limits
  simp only [Option.getD_some]
  rw [if_neg (by omega)]
  rfl

theorem snapshotOf_over {kept text : List Char} {maxLines maxBytes : Nat}
    (h : maxLines < (splitLinesForCounting kept).length ∨ maxBytes < byteLength kept) :
    snapshotOf maxLines maxBytes kept text =
      (tailLoop maxLines maxBytes (lastLines kept) [] 0).result maxLines maxBytes
        (splitLinesForCounting text).length (byteLength text) := by
  unfold snapshotOf
  rw [truncateTail_over h]
  rfl

/-- A kept end within the limits is shown as it is. -/
theorem snapshotOf_within {kept text : List Char} {maxLines maxBytes : Nat}
    (hl : (splitLinesForCounting kept).length ≤ maxLines) (hb : byteLength kept ≤ maxBytes) :
    snapshotOf maxLines maxBytes kept text =
      ⟨kept, true, some .bytes, (splitLinesForCounting text).length, byteLength text,
        (splitLinesForCounting kept).length, byteLength kept, false, false, maxLines, maxBytes⟩ := by
  unfold snapshotOf truncateTail limits
  simp only [Option.getD_some]
  rw [if_pos ⟨hl, hb⟩]
  rfl

section End

variable {maxLines maxBytes : Nat} {text kept : List Char} {more : List (List Char)}

/-- The loop stops inside the kept end: the snapshot is right. -/
theorem snapshotOf_of_stops (hlines : lastLines text = lastLines kept ++ more)
    (htext : maxBytes < byteLength text)
    (hstop : maxLines < (splitLinesForCounting kept).length ∨
      maxBytes < byteLength (joinLines (splitLinesForCounting kept))) :
    snapshotOf maxLines maxBytes kept text = truncateTail text (limits maxLines maxBytes) := by
  have hkept := (byteLength_joinLines_le kept).1
  rw [snapshotOf_over (by omega), truncateTail_over (.inr htext), hlines]
  have hloop := tailLoop_stops maxLines maxBytes (lastLines kept) more []
    (Nat.zero_le _) (Nat.zero_le _) (by
      unfold lastLines
      rw [List.append_nil, List.reverse_reverse, List.length_reverse, List.length_nil, Nat.zero_add]
      exact hstop)
  rw [show byteLength (joinLines []) = 0 from rfl] at hloop
  rw [hloop]

/-- The loop takes the whole kept end. -/
theorem tailLoop_kept (rest : List (List Char))
    (hl : (splitLinesForCounting kept).length ≤ maxLines)
    (hb : byteLength (joinLines (splitLinesForCounting kept)) ≤ maxBytes) :
    tailLoop maxLines maxBytes (lastLines kept ++ rest) [] 0 =
      tailLoop maxLines maxBytes rest (splitLinesForCounting kept)
        (byteLength (joinLines (splitLinesForCounting kept))) := by
  have hloop := tailLoop_fits maxLines maxBytes (lastLines kept) rest []
    (by unfold lastLines; rw [List.length_reverse, List.length_nil, Nat.zero_add]; exact hl)
    (by unfold lastLines; rw [List.append_nil, List.reverse_reverse]; exact hb)
  unfold lastLines at hloop ⊢
  rw [List.append_nil, List.reverse_reverse, show byteLength (joinLines []) = 0 from rfl] at hloop
  exact hloop

/-- The loop over the kept end alone, when it takes all of it. -/
theorem tailLoop_kept_only (hl : (splitLinesForCounting kept).length ≤ maxLines)
    (hb : byteLength (joinLines (splitLinesForCounting kept)) ≤ maxBytes) :
    tailLoop maxLines maxBytes (lastLines kept) [] 0 = ⟨splitLinesForCounting kept,
      byteLength (joinLines (splitLinesForCounting kept)), .lines, false⟩ := by
  have hloop := tailLoop_kept [] hl hb
  rwa [List.append_nil] at hloop

/-- The kept end fills the line limit: its last newline must push it over the byte limit. -/
theorem snapshotOf_of_full (hlines : lastLines text = lastLines kept ++ line :: rest)
    (htext : maxBytes < byteLength text) (hl : (splitLinesForCounting kept).length = maxLines)
    (hb : byteLength (joinLines (splitLinesForCounting kept)) ≤ maxBytes) :
    snapshotOf maxLines maxBytes kept text = truncateTail text (limits maxLines maxBytes) ↔
      maxBytes < byteLength kept := by
  rw [truncateTail_over (.inr htext), hlines, tailLoop_kept (line :: rest) hl.le hb, tailLoop,
    if_neg (by omega)]
  by_cases hkept : maxBytes < byteLength kept
  · rw [snapshotOf_over (.inr hkept), tailLoop_kept_only hl.le hb]
    exact iff_of_true rfl hkept
  · refine iff_of_false ?_ hkept
    rw [snapshotOf_within hl.le (by omega)]
    intro heq
    have hby := congrArg TruncationResult.truncatedBy heq
    simp only [TailLoop.result, Option.some.injEq] at hby
    rw [if_pos ⟨by omega, hb⟩] at hby
    exact TruncatedBy.noConfusion hby

/-- The kept end leaves room for another line, which does not fit: the kept end must be shown
whole, without a final newline. -/
theorem snapshotOf_of_room (hlines : lastLines text = lastLines kept ++ line :: rest)
    (htext : maxBytes < byteLength text) (hl : (splitLinesForCounting kept).length < maxLines)
    (hb : byteLength (joinLines (splitLinesForCounting kept)) ≤ maxBytes)
    (hover : kept ≠ [] →
      maxBytes < byteLength (joinLines (splitLinesForCounting kept)) + byteLength line + 1) :
    snapshotOf maxLines maxBytes kept text = truncateTail text (limits maxLines maxBytes) ↔
      kept ≠ [] ∧ endsWithNewline kept = false ∧ byteLength kept ≤ maxBytes := by
  rw [truncateTail_over (.inr htext), hlines, tailLoop_kept (line :: rest) hl.le hb]
  by_cases hne : kept = []
  · subst hne
    refine iff_of_false ?_ fun h => h.1 rfl
    rw [snapshotOf_within hl.le (Nat.zero_le _)]
    intro heq
    have hout : 0 = (tailLoop maxLines maxBytes (line :: rest) [] 0).outputLinesArr.length :=
      congrArg TruncationResult.outputLines heq
    have hpos := tailLoop_takes maxBytes (show 0 < maxLines from hl) line rest
    omega
  · have hsplit : splitLinesForCounting kept ≠ [] := fun h => hne ((splitLines_eq_nil_iff).mp h)
    rw [tailLoop_break hsplit hl (hover hne)]
    by_cases hkept : maxBytes < byteLength kept
    · refine iff_of_false ?_ fun h => absurd h.2.2 (by omega)
      rw [snapshotOf_over (.inr hkept), tailLoop_kept_only hl.le hb]
      intro heq
      have hby := congrArg TruncationResult.truncatedBy heq
      simp only [TailLoop.result, Option.some.injEq] at hby
      rw [if_neg (by omega), if_neg (by omega)] at hby
      exact TruncatedBy.noConfusion hby
    · rw [snapshotOf_within hl.le (by omega)]
      cases hends : endsWithNewline kept with
      | true =>
        refine iff_of_false ?_ fun h => Bool.noConfusion h.2.1
        intro heq
        have hcontent := congrArg TruncationResult.content heq
        obtain ⟨before, rfl⟩ := (endsWithNewline_iff).mp hends
        simp only [TailLoop.result, joinLines_splitLines_newline] at hcontent
        simpa using congrArg List.length hcontent
      | false =>
        refine iff_of_true ?_ ⟨hne, rfl, by omega⟩
        unfold TailLoop.result
        rw [joinLines_splitLines_open hends]
        simp only [if_neg (show ¬((splitLinesForCounting kept).length ≥ maxLines ∧
          byteLength kept ≤ maxBytes) by omega)]

/-- The kept end lies inside one line that is over the byte limit. -/
theorem snapshotOf_of_midline {start : List Char} {c : Char}
    (hlines : lastLines text = (start ++ c :: kept) :: rest) (htext : maxBytes < byteLength text)
    (hkept : '\n' ∉ kept) (hover : maxBytes < c.utf8Size + byteLength kept) :
    snapshotOf maxLines maxBytes kept text = truncateTail text (limits maxLines maxBytes) ↔
      maxLines < (splitLinesForCounting kept).length ∨
        maxBytes < byteLength (joinLines (splitLinesForCounting kept)) := by
  have hline : maxBytes < byteLength (start ++ c :: kept) := by
    rw [byteLength_append, byteLength_cons]
    omega
  have hopen : endsWithNewline kept = false := by
    by_contra hends
    obtain ⟨before, rfl⟩ := (endsWithNewline_iff).mp (Bool.not_eq_false _ ▸ hends)
    exact hkept (by simp)
  rw [joinLines_splitLines_open hopen, truncateTail_over (.inr htext), hlines]
  by_cases hne : kept = []
  · subst hne
    refine iff_of_false ?_ (by simp [splitLinesForCounting])
    rw [snapshotOf_within (Nat.zero_le _) (Nat.zero_le _)]
    intro heq
    rcases Nat.eq_zero_or_pos maxLines with rfl | hpos
    · have hby := congrArg TruncationResult.truncatedBy heq
      simp only [TailLoop.result, tailLoop, List.length_nil, lt_irrefl, if_false] at hby
      rw [if_pos ⟨Nat.zero_le _, Nat.zero_le _⟩] at hby
      exact TruncatedBy.noConfusion (Option.some.inj hby)
    · have hout : 0 = (tailLoop maxLines maxBytes ((start ++ [c]) :: rest) [] 0).outputLinesArr.length :=
        congrArg TruncationResult.outputLines heq
      have htakes := tailLoop_takes maxBytes hpos (start ++ [c]) rest
      omega
  · have hsplit : splitLinesForCounting kept = [kept] := by
      rw [splitLines_open hne hopen, List.splitOn_eq_singleton hkept]
    have hlast : lastLines kept = [kept] := by
      unfold lastLines
      rw [hsplit]
      rfl
    rcases Nat.eq_zero_or_pos maxLines with rfl | hpos
    · refine iff_of_true ?_ (.inl (by rw [hsplit]; exact Nat.one_pos))
      rw [snapshotOf_over (.inl (by rw [hsplit]; exact Nat.one_pos)), hlast, tailLoop, tailLoop]
      rfl
    · by_cases hlong : maxBytes < byteLength kept
      · refine iff_of_true ?_ (.inr hlong)
        rw [snapshotOf_over (.inr hlong), hlast, tailLoop_first hpos, tailLoop_first hpos,
          if_pos hlong, if_pos hline, truncateStringToBytesFromEnd_eq, truncateStringToBytesFromEnd_eq,
          show start ++ c :: kept = (start ++ [c]) ++ kept by simp, lastWithin_append _ hlong]
      · refine iff_of_false ?_ (by rw [hsplit, List.length_singleton]; omega)
        rw [snapshotOf_within (by rw [hsplit, List.length_singleton]; omega) (by omega),
          tailLoop_first hpos, if_pos hline]
        intro heq
        exact Bool.noConfusion (congrArg TruncationResult.lastLinePartial heq)

end End

end CodingAgent
