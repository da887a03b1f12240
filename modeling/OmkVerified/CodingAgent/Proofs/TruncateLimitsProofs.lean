import OmkVerified.CodingAgent.Proofs.TruncateProofs
import OmkVerified.Lib.Lines

/-!
# The two limits of a truncation

Both loops take lines one by one while they fit. `Taken` says how many lines such a loop takes and
why it stops, and the limits, the longest end and the reported reason follow from it.
-/

namespace CodingAgent

open Lib.Utf8

/-! ## The bytes of some lines -/

theorem byteLength_joinLines_concat (lines : List (List Char)) (line : List Char) :
    byteLength (joinLines (lines ++ [line])) =
      byteLength (joinLines lines) + (byteLength line + if lines.length > 0 then 1 else 0) := by
  induction lines with
  | nil => exact byteLength_joinLines_cons line []
  | cons first lines ih =>
    rw [List.cons_append, byteLength_joinLines_cons, ih, byteLength_joinLines_cons]
    rw [List.length_append, List.length_singleton, List.length_cons]
    split_ifs <;> omega

theorem byteLength_joinLines_reverse (lines : List (List Char)) :
    byteLength (joinLines lines.reverse) = byteLength (joinLines lines) := by
  induction lines with
  | nil => rfl
  | cons line lines ih =>
    rw [List.reverse_cons, byteLength_joinLines_concat, byteLength_joinLines_cons, ih,
      List.length_reverse]

theorem byteLength_joinLines_prefix (a b : List (List Char)) :
    byteLength (joinLines a) ≤ byteLength (joinLines (a ++ b)) := by
  rw [← byteLength_joinLines_reverse a, ← byteLength_joinLines_reverse (a ++ b),
    List.reverse_append]
  exact byteLength_joinLines_append b.reverse a.reverse

theorem byteLength_joinLines_take {i j : Nat} (h : i ≤ j) (lines : List (List Char)) :
    byteLength (joinLines (lines.take i)) ≤ byteLength (joinLines (lines.take j)) := by
  obtain ⟨rest, hrest⟩ := List.take_prefix_take_left h (l := lines)
  rw [← hrest]
  exact byteLength_joinLines_prefix _ _

theorem byteLength_joinLines_singleton (line : List Char) :
    byteLength (joinLines [line]) = byteLength line :=
  congrArg byteLength List.intercalate_singleton

theorem byteLength_le_joinLines {line : List Char} {lines : List (List Char)} (h : line ∈ lines) :
    byteLength line ≤ byteLength (joinLines lines) := by
  obtain ⟨front, back, rfl⟩ := List.append_of_mem h
  have hback := byteLength_joinLines_prefix [line] back
  rw [byteLength_joinLines_singleton] at hback
  exact hback.trans (byteLength_joinLines_append front (line :: back))

theorem newline_notMem_splitLines {text line : List Char}
    (h : line ∈ splitLinesForCounting text) : '\n' ∉ line := by
  refine Lib.Lines.notMem_of_mem_splitOn (show line ∈ text.splitOn '\n' from ?_)
  unfold splitLinesForCounting at h
  split_ifs at h
  · exact absurd h List.not_mem_nil
  · exact List.mem_of_mem_dropLast h
  · exact h

theorem length_splitLines_joinLines {lines : List (List Char)}
    (hlines : ∀ line ∈ lines, '\n' ∉ line) :
    (splitLinesForCounting (joinLines lines)).length ≤ lines.length := by
  by_cases hne : lines = []
  · rw [hne]
    exact le_rfl
  · have hsplit : (joinLines lines).splitOn '\n' = lines := List.splitOn_intercalate '\n' hlines hne
    unfold splitLinesForCounting
    rw [hsplit]
    split_ifs
    · exact Nat.zero_le _
    · rw [List.length_dropLast]
      exact Nat.sub_le _ _
    · exact le_rfl

/-! ## How many lines a loop takes -/

/-- A loop that takes `k` of the lines and stops for the reason `truncatedBy`. -/
structure Taken (maxLines maxBytes : Nat) (lines : List (List Char)) (k : Nat)
    (truncatedBy : TruncatedBy) : Prop where
  le_length : k ≤ lines.length
  le_lines : k ≤ maxLines
  le_bytes : byteLength (joinLines (lines.take k)) ≤ maxBytes
  lines_stop : truncatedBy = .lines → k = lines.length ∨ k = maxLines
  bytes_stop : truncatedBy = .bytes → k < lines.length ∧ k < maxLines ∧
    maxBytes < byteLength (joinLines (lines.take (k + 1)))

section Taken

variable {maxLines maxBytes k : Nat} {lines : List (List Char)} {truncatedBy : TruncatedBy}

/-- No more lines fit. -/
theorem Taken.longest (h : Taken maxLines maxBytes lines k truncatedBy) {j : Nat}
    (hlen : j ≤ lines.length) (hlines : j ≤ maxLines)
    (hbytes : byteLength (joinLines (lines.take j)) ≤ maxBytes) : j ≤ k := by
  cases truncatedBy with
  | lines =>
    rcases h.lines_stop rfl with hk | hk
    · exact hlen.trans_eq hk.symm
    · exact hlines.trans_eq hk.symm
  | bytes =>
    obtain ⟨-, -, hover⟩ := h.bytes_stop rfl
    by_contra hjk
    have hmono := byteLength_joinLines_take (show k + 1 ≤ j by omega) lines
    omega

theorem Taken.bytes_bind (h : Taken maxLines maxBytes lines k .bytes) :
    maxBytes < byteLength (joinLines (lines.take maxLines)) := by
  obtain ⟨-, hk, hover⟩ := h.bytes_stop rfl
  exact hover.trans_le (byteLength_joinLines_take hk lines)

theorem Taken.reason (h : Taken maxLines maxBytes lines k truncatedBy) (P : Prop) [Decidable P] :
    (if k ≥ maxLines ∧ P then TruncatedBy.lines else truncatedBy) = truncatedBy := by
  split_ifs with hk
  · cases truncatedBy with
    | lines => rfl
    | bytes => exact absurd (h.bytes_stop rfl).2.1 (Nat.not_lt.mpr hk.1)
  · rfl

end Taken

/-- The loop of `truncateHead` takes the first lines. -/
theorem headLoop_taken {maxLines maxBytes : Nat} (rest out : List (List Char))
    (hlines : out.length ≤ maxLines) (hbytes : byteLength (joinLines out) ≤ maxBytes) :
    let loop := headLoop maxLines maxBytes out.length rest out (byteLength (joinLines out))
    Taken maxLines maxBytes (out ++ rest) loop.outputLinesArr.length loop.truncatedBy ∧
      loop.outputLinesArr = (out ++ rest).take loop.outputLinesArr.length := by
  induction rest generalizing out with
  | nil =>
    simp only [headLoop, List.append_nil, List.take_length, and_true]
    exact ⟨le_rfl, hlines, by rwa [List.take_length], fun _ => .inl rfl, fun h => nomatch h⟩
  | cons line rest ih =>
    have hcost := byteLength_joinLines_concat out line
    have happend : out ++ line :: rest = (out ++ [line]) ++ rest := by simp
    rw [headLoop]
    by_cases hroom : out.length < maxLines
    · rw [if_pos hroom]
      by_cases hbreak : byteLength (joinLines out) +
          (byteLength line + if out.length > 0 then 1 else 0) > maxBytes
      · rw [if_pos hbreak]
        refine ⟨⟨by simp, hlines, by rwa [List.take_left], fun h => (nomatch h), fun _ => ⟨by simp,
          hroom, ?_⟩⟩, List.take_left.symm⟩
        rw [happend, List.take_left' (by simp), hcost]
        exact hbreak
      · rw [if_neg hbreak, ← hcost, happend]
        have hlen : (out ++ [line]).length = out.length + 1 := by simp
        rw [← hlen]
        exact ih (out ++ [line]) (by omega) (by omega)
    · have hfull : out.length = maxLines := le_antisymm hlines (Nat.not_lt.mp hroom)
      rw [if_neg hroom]
      exact ⟨⟨by simp, hlines, by rwa [List.take_left], fun _ => .inr hfull,
        fun h => nomatch h⟩, List.take_left.symm⟩

theorem tailLoop_taken {maxLines maxBytes : Nat} (rest out : List (List Char)) (hne : out ≠ [])
    (hlines : out.length ≤ maxLines) (hbytes : byteLength (joinLines out) ≤ maxBytes) :
    let loop := tailLoop maxLines maxBytes rest out (byteLength (joinLines out))
    Taken maxLines maxBytes (out.reverse ++ rest) loop.outputLinesArr.length loop.truncatedBy ∧
      loop.outputLinesArr.reverse = (out.reverse ++ rest).take loop.outputLinesArr.length ∧
      loop.lastLinePartial = false := by
  have hbytes' : byteLength (joinLines out.reverse) ≤ maxBytes := by
    rwa [byteLength_joinLines_reverse]
  have htake : ∀ lines : List (List Char), (out.reverse ++ lines).take out.length = out.reverse :=
    fun lines => List.take_left' (List.length_reverse)
  have hle : ∀ lines : List (List Char), out.length ≤ (out.reverse ++ lines).length := by simp
  induction rest generalizing out with
  | nil =>
    rw [tailLoop]
    exact ⟨⟨hle _, hlines, by rwa [htake], fun _ => .inl (by simp), fun h => by cases h⟩,
      (htake _).symm, rfl⟩
  | cons line rest ih =>
    have hcost := byteLength_joinLines_cons line out
    have hpos : 0 < out.length := List.length_pos_iff.mpr hne
    have happend : out.reverse ++ line :: rest = (line :: out).reverse ++ rest := by simp
    rw [tailLoop]
    by_cases hroom : out.length < maxLines
    · rw [if_pos hroom]
      by_cases hbreak : byteLength (joinLines out) +
          (byteLength line + if out.length > 0 then 1 else 0) > maxBytes
      · rw [if_pos hbreak, if_neg (by omega)]
        refine ⟨⟨hle _, hlines, by rwa [htake], fun h => (by cases h),
          fun _ => ⟨by simp, hroom, ?_⟩⟩, (htake _).symm, rfl⟩
        rw [happend, List.take_left' (by simp), byteLength_joinLines_reverse, hcost]
        exact hbreak
      · rw [if_neg hbreak, ← hcost, happend]
        have hout : byteLength (joinLines (line :: out)) ≤ maxBytes := by omega
        refine ih (line :: out) (List.cons_ne_nil _ _) (by rw [List.length_cons]; omega) hout
          (by rwa [byteLength_joinLines_reverse]) ?_ ?_
        · exact fun lines => List.take_left' (List.length_reverse)
        · simp
    · have hfull : out.length = maxLines := le_antisymm hlines (Nat.not_lt.mp hroom)
      rw [if_neg hroom]
      exact ⟨⟨hle _, hlines, by rwa [htake], fun _ => .inr hfull, fun h => by cases h⟩,
        (htake _).symm, rfl⟩

/-! ## What a truncation keeps -/

/-- A text within both limits, which both functions give back as it is. -/
abbrev Fits (content : List Char) (maxLines maxBytes : Nat) : Prop :=
  (splitLinesForCounting content).length ≤ maxLines ∧ byteLength content ≤ maxBytes

/-- All lines are within the limits, and the text is over the byte limit by the newline behind
them. -/
def NewlineOver (content : List Char) (maxLines maxBytes : Nat) : Prop :=
  endsWithNewline content = true ∧ byteLength content = maxBytes + 1 ∧
    (splitLinesForCounting content).length ≤ maxLines

/-- The part of `k` lines is the longest of the parts of up to `n` lines within both limits. -/
structure LongestWithin (maxLines maxBytes : Nat) (part : Nat → List (List Char)) (n k : Nat) :
    Prop where
  le_length : k ≤ n
  le_lines : (part k).length ≤ maxLines
  le_bytes : byteLength (joinLines (part k)) ≤ maxBytes
  longest : ∀ j ≤ n, (part j).length ≤ maxLines → byteLength (joinLines (part j)) ≤ maxBytes → j ≤ k

theorem byteLength_joinLines_splitLines_le (content : List Char) :
    byteLength (joinLines (splitLinesForCounting content)) ≤ byteLength content :=
  (byteLength_joinLines_le content).1

/-- A text over its byte limit has lines over it, or ends with the newline that is over it. -/
theorem newline_over {content : List Char} {maxBytes : Nat} (hover : maxBytes < byteLength content)
    (hlines : byteLength (joinLines (splitLinesForCounting content)) ≤ maxBytes) :
    endsWithNewline content = true ∧ byteLength content = maxBytes + 1 := by
  have hle := (byteLength_joinLines_le content).2
  refine ⟨?_, by omega⟩
  by_contra hopen
  rw [joinLines_splitLines_open (Bool.not_eq_true _ ▸ hopen)] at hlines
  omega

theorem NewlineOver.lines_le {content : List Char} {maxLines maxBytes : Nat}
    (h : NewlineOver content maxLines maxBytes) :
    byteLength (joinLines (splitLinesForCounting content)) ≤ maxBytes := by
  obtain ⟨line, rfl⟩ := (endsWithNewline_iff).mp h.1
  have hbytes := h.2.1
  rw [byteLength_append, byteLength_newline] at hbytes
  rw [joinLines_splitLines_newline]
  omega

/-- With a line over the limit it is not only the last newline that is. -/
theorem not_newlineOver_of_line {content line : List Char} {maxLines maxBytes : Nat}
    (hline : line ∈ splitLinesForCounting content) (hover : maxBytes < byteLength line) :
    ¬NewlineOver content maxLines maxBytes := by
  intro hnewline
  have := (byteLength_le_joinLines hline).trans hnewline.lines_le
  omega

section Kept

variable {content : List Char} {maxLines maxBytes k : Nat} {lines : List (List Char)}
  {truncatedBy : TruncatedBy}

/-- A loop stops for the lines if there are too many, or at the newline behind all of them. -/
theorem Taken.lines_over (h : Taken maxLines maxBytes lines k .lines)
    (hlen : lines.length = (splitLinesForCounting content).length)
    (hcost : byteLength (joinLines lines) = byteLength (joinLines (splitLinesForCounting content)))
    (hover : ¬Fits content maxLines maxBytes) :
    maxLines < (splitLinesForCounting content).length ∨ NewlineOver content maxLines maxBytes := by
  by_cases hmany : maxLines < (splitLinesForCounting content).length
  · exact .inl hmany
  · have hall : k = lines.length := by
      rcases h.lines_stop rfl with hk | hk
      · exact hk
      · exact le_antisymm h.le_length (by omega)
    have hfits := h.le_bytes
    rw [hall, List.take_length, hcost] at hfits
    obtain ⟨hends, hbytes⟩ := newline_over (by omega) hfits
    exact .inr ⟨hends, hbytes, Nat.not_lt.mp hmany⟩

/-- At the newline behind all lines a loop does not stop for the bytes. -/
theorem Taken.not_newlineOver (h : Taken maxLines maxBytes lines k .bytes)
    (hcost : byteLength (joinLines lines) = byteLength (joinLines (splitLinesForCounting content))) :
    ¬NewlineOver content maxLines maxBytes := by
  intro hnewline
  obtain ⟨hk, -, hover⟩ := h.bytes_stop rfl
  have hmono := byteLength_joinLines_take (show k + 1 ≤ lines.length from hk) lines
  rw [List.take_length, hcost] at hmono
  have := hnewline.lines_le
  omega

/-- The reported reason is right unless only the last newline is over the limit. -/
theorem Taken.reason_iff (h : Taken maxLines maxBytes lines k truncatedBy)
    (hlen : lines.length = (splitLinesForCounting content).length)
    (hcost : byteLength (joinLines lines) = byteLength (joinLines (splitLinesForCounting content)))
    (hover : ¬Fits content maxLines maxBytes) :
    (truncatedBy = .lines → maxLines < (splitLinesForCounting content).length) ↔
      ¬NewlineOver content maxLines maxBytes := by
  cases truncatedBy with
  | lines =>
    constructor
    · intro hreason hnewline
      exact absurd (hreason rfl) (Nat.not_lt.mpr hnewline.2.2)
    · intro hnot _
      exact (h.lines_over hlen hcost hover).resolve_right hnot
  | bytes => exact iff_of_true (fun hreason => nomatch hreason) (h.not_newlineOver hcost)

theorem Taken.longestWithin (h : Taken maxLines maxBytes lines k truncatedBy) :
    LongestWithin maxLines maxBytes lines.take lines.length k := by
  refine ⟨h.le_length, ?_, h.le_bytes, ?_⟩
  · rw [List.length_take_of_le h.le_length]
    exact h.le_lines
  · intro j hj hlines hbytes
    rw [List.length_take_of_le hj] at hlines
    exact h.longest hj hlines hbytes

end Kept

/-- Some of the lines of a text, joined, are not more lines. -/
theorem length_splitLines_joinLines_of_subset {content : List Char} {lines : List (List Char)}
    (hsub : lines ⊆ splitLinesForCounting content) :
    (splitLinesForCounting (joinLines lines)).length ≤ lines.length :=
  length_splitLines_joinLines (fun _ hline => newline_notMem_splitLines (hsub hline))

/-! ## The truncation from the head -/

/-- What a truncation from the head is to give: the longest beginning of whole lines within both
limits, and the limit that binds. -/
structure HeadLimits (content : List Char) (maxLines maxBytes : Nat) (r : TruncationResult) :
    Prop where
  content_eq : r.content =
    if Fits content maxLines maxBytes then content
    else joinLines ((splitLinesForCounting content).take r.outputLines)
  longest : LongestWithin maxLines maxBytes (splitLinesForCounting content).take
    (splitLinesForCounting content).length r.outputLines
  lines_le : (splitLinesForCounting r.content).length ≤ maxLines
  bytes_le : byteLength r.content ≤ maxBytes
  by_lines : r.truncatedBy = some .lines → maxLines < (splitLinesForCounting content).length
  by_bytes : r.truncatedBy = some .bytes →
    maxBytes < byteLength (joinLines ((splitLinesForCounting content).take maxLines))

/-- No line is allowed, and the first line does not fit either. -/
def NoLineHead (content : List Char) (maxLines maxBytes : Nat) : Prop :=
  maxLines = 0 ∧ ∃ first ∈ (splitLinesForCounting content).head?, maxBytes < byteLength first

theorem lines_ne_nil {content : List Char} {maxLines maxBytes : Nat}
    (hover : ¬Fits content maxLines maxBytes) :
    splitLinesForCounting content ≠ [] := by
  intro hnil
  rw [splitLines_eq_nil_iff.mp hnil] at hover
  exact hover ⟨Nat.zero_le _, Nat.zero_le _⟩

section Head

variable {content : List Char} {maxLines maxBytes : Nat}

theorem truncateHead_fits
    (hfits : Fits content maxLines maxBytes) :
    HeadLimits content maxLines maxBytes (truncateHead content (limits maxLines maxBytes)) := by
  have hr : truncateHead content (limits maxLines maxBytes) =
      ⟨content, false, none, (splitLinesForCounting content).length, byteLength content,
        (splitLinesForCounting content).length, byteLength content, false, false, maxLines,
        maxBytes⟩ := by
    unfold truncateHead limits
    simp only [Option.getD_some]
    rw [if_pos hfits]
  rw [hr]
  refine ⟨(if_pos hfits).symm, ⟨le_rfl, ?_, ?_, fun j hj _ _ => hj⟩, hfits.1, hfits.2,
    (fun h => nomatch h), fun h => nomatch h⟩
  · rw [List.take_length]
    exact hfits.1
  · rw [List.take_length]
    exact (byteLength_joinLines_splitLines_le content).trans hfits.2

/-- A text over a limit whose first line fits: the loop's lines are the result. -/
theorem truncateHead_taken
    (hover : ¬Fits content maxLines maxBytes)
    (hfirst : byteLength ((splitLinesForCounting content).headD []) ≤ maxBytes) :
    ∃ k truncatedBy, Taken maxLines maxBytes (splitLinesForCounting content) k truncatedBy ∧
      (truncateHead content (limits maxLines maxBytes)).content =
        joinLines ((splitLinesForCounting content).take k) ∧
      (truncateHead content (limits maxLines maxBytes)).outputLines = k ∧
      (truncateHead content (limits maxLines maxBytes)).truncatedBy = some truncatedBy := by
  obtain ⟨htaken, hlines⟩ := headLoop_taken (splitLinesForCounting content) []
    (Nat.zero_le maxLines) (Nat.zero_le maxBytes)
  refine ⟨_, _, htaken, ?_⟩
  unfold truncateHead limits
  simp only [Option.getD_some]
  rw [if_neg hover, if_neg (Nat.not_lt.mpr hfirst)]
  exact ⟨congrArg joinLines hlines, rfl, congrArg some (htaken.reason _)⟩

theorem truncateHead_first
    (hover : ¬Fits content maxLines maxBytes)
    (hfirst : maxBytes < byteLength ((splitLinesForCounting content).headD [])) :
    truncateHead content (limits maxLines maxBytes) =
      ⟨[], true, some .bytes, (splitLinesForCounting content).length, byteLength content, 0, 0,
        false, true, maxLines, maxBytes⟩ := by
  unfold truncateHead limits
  simp only [Option.getD_some]
  rw [if_neg hover, if_pos hfirst]

/-- A first line that does not fit: right unless no line is allowed at all. -/
theorem headLimits_first {first : List Char}
    (hover : ¬Fits content maxLines maxBytes)
    (hhead : (splitLinesForCounting content).head? = some first)
    (hfirst : maxBytes < byteLength first) : HeadLimits content maxLines maxBytes
      (truncateHead content (limits maxLines maxBytes)) ↔ 0 < maxLines := by
  obtain ⟨rest, hlines⟩ := List.head?_eq_some_iff.mp hhead
  have hone : maxBytes < byteLength (joinLines ((splitLinesForCounting content).take 1)) := by
    rw [hlines, List.take_succ_cons, List.take_zero, byteLength_joinLines_singleton]
    exact hfirst
  rw [truncateHead_first hover (by rwa [hlines])]
  constructor
  · intro h
    by_contra hzero
    have hbind := h.by_bytes rfl
    rw [Nat.eq_zero_of_not_pos hzero] at hbind
    exact absurd hbind (Nat.not_lt_zero _)
  · intro hpos
    refine ⟨(if_neg hover).symm, ⟨Nat.zero_le _, Nat.zero_le _, Nat.zero_le _, ?_⟩,
      Nat.zero_le _, Nat.zero_le _, (fun h => nomatch h), fun _ => ?_⟩
    · intro j _ _ hbytes
      by_contra hj
      have hmono := byteLength_joinLines_take (show 1 ≤ j by omega) (splitLinesForCounting content)
      omega
    · exact hone.trans_le (byteLength_joinLines_take hpos _)

/-- A first line that fits: right unless only the last newline is over the byte limit. -/
theorem headLimits_taken
    (hover : ¬Fits content maxLines maxBytes)
    (hfirst : byteLength ((splitLinesForCounting content).headD []) ≤ maxBytes) :
    HeadLimits content maxLines maxBytes (truncateHead content (limits maxLines maxBytes)) ↔
      ¬NewlineOver content maxLines maxBytes := by
  obtain ⟨k, truncatedBy, htaken, hcontent, hout, hreason⟩ := truncateHead_taken hover hfirst
  rw [← htaken.reason_iff rfl rfl hover]
  constructor
  · rintro h rfl
    exact h.by_lines hreason
  · intro hright
    refine ⟨?_, hout ▸ htaken.longestWithin, ?_, ?_, ?_, ?_⟩
    · rw [if_neg hover, hcontent, hout]
    · rw [hcontent]
      refine (length_splitLines_joinLines_of_subset (List.take_subset _ _)).trans ?_
      rw [List.length_take_of_le htaken.le_length]
      exact htaken.le_lines
    · rw [hcontent]
      exact htaken.le_bytes
    · intro h
      exact hright (Option.some.inj (hreason.symm.trans h))
    · intro h
      obtain rfl := Option.some.inj (hreason.symm.trans h)
      exact htaken.bytes_bind

theorem headLimits_iff : HeadLimits content maxLines maxBytes
    (truncateHead content (limits maxLines maxBytes)) ↔
      ¬NewlineOver content maxLines maxBytes ∧ ¬NoLineHead content maxLines maxBytes := by
  by_cases hfits : Fits content maxLines maxBytes
  · refine iff_of_true (truncateHead_fits hfits) ⟨?_, ?_⟩
    · intro hnewline
      have := hnewline.2.1
      omega
    · rintro ⟨hzero, first, hfirst, -⟩
      have hpos := List.length_pos_of_mem (List.mem_of_mem_head? hfirst)
      omega
  · obtain ⟨first, hhead⟩ := Option.isSome_iff_exists.mp (List.isSome_head?.mpr (lines_ne_nil hfits))
    by_cases hfirst : maxBytes < byteLength first
    · rw [headLimits_first hfits hhead hfirst]
      have hnewline := @not_newlineOver_of_line _ _ maxLines _ (List.mem_of_mem_head? hhead) hfirst
      constructor
      · intro hpos
        exact ⟨hnewline, fun hnot => absurd hnot.1 hpos.ne'⟩
      · rintro ⟨-, hnot⟩
        by_contra hzero
        exact hnot ⟨Nat.eq_zero_of_not_pos hzero, first, hhead, hfirst⟩
    · rw [headLimits_taken hfits]
      · refine (and_iff_left ?_).symm
        rintro ⟨-, first', hhead', hover⟩
        exact hfirst (Option.some.inj (hhead.symm.trans hhead') ▸ hover)
      · rw [List.headD_eq_head?_getD, hhead]
        exact Nat.not_lt.mp hfirst

end Head

/-! ## The truncation from the tail -/

/-- What a truncation from the tail is to give: the longest end of whole lines within both limits,
or the longest end of a last line that does not fit, and the limit that binds. -/
structure TailLimits (content : List Char) (maxLines maxBytes : Nat) (r : TruncationResult) :
    Prop where
  partial_iff : r.lastLinePartial = true ↔
    0 < maxLines ∧ ∃ last ∈ (splitLinesForCounting content).getLast?, maxBytes < byteLength last
  content_eq : r.lastLinePartial = false → r.content =
    if Fits content maxLines maxBytes then content
    else joinLines ((splitLinesForCounting content).rtake r.outputLines)
  longest : r.lastLinePartial = false → LongestWithin maxLines maxBytes
    (splitLinesForCounting content).rtake (splitLinesForCounting content).length r.outputLines
  partial_end : r.lastLinePartial = true →
    ∃ last ∈ (splitLinesForCounting content).getLast?, r.content <:+ last ∧
      ∀ part, part <:+ last → byteLength part ≤ maxBytes → part <:+ r.content
  lines_le : (splitLinesForCounting r.content).length ≤ maxLines
  bytes_le : byteLength r.content ≤ maxBytes
  by_lines : r.truncatedBy = some .lines → maxLines < (splitLinesForCounting content).length
  by_bytes : r.truncatedBy = some .bytes →
    maxBytes < byteLength (joinLines ((splitLinesForCounting content).rtake maxLines))

/-- One line is allowed and the text is one line that does not fit. -/
def OneLineTail (content : List Char) (maxLines maxBytes : Nat) : Prop :=
  maxLines = 1 ∧ ∃ line, splitLinesForCounting content = [line] ∧ maxBytes < byteLength line

section Tail

variable {content : List Char} {maxLines maxBytes : Nat}

theorem rtake_length {α : Type} (l : List α) : l.rtake l.length = l := by
  rw [List.rtake, Nat.sub_self, List.drop_zero]

theorem truncateTail_fits
    (hfits : Fits content maxLines maxBytes) :
    TailLimits content maxLines maxBytes (truncateTail content (limits maxLines maxBytes)) := by
  have hr : truncateTail content (limits maxLines maxBytes) =
      ⟨content, false, none, (splitLinesForCounting content).length, byteLength content,
        (splitLinesForCounting content).length, byteLength content, false, false, maxLines,
        maxBytes⟩ := by
    unfold truncateTail limits
    simp only [Option.getD_some]
    rw [if_pos hfits]
  have hlines := (byteLength_joinLines_splitLines_le content).trans hfits.2
  rw [hr]
  refine ⟨iff_of_false Bool.false_ne_true ?_, fun _ => (if_pos hfits).symm, fun _ => ⟨le_rfl, ?_, ?_,
    fun j hj _ _ => hj⟩, (fun h => nomatch h), hfits.1, hfits.2, (fun h => nomatch h),
    fun h => nomatch h⟩
  · rintro ⟨-, last, hlast, hover⟩
    have := byteLength_le_joinLines (List.mem_of_mem_getLast? hlast)
    omega
  · rw [rtake_length]
    exact hfits.1
  · rw [rtake_length]
    exact hlines

theorem byteLength_rtake (lines : List (List Char)) (k : Nat) :
    byteLength (joinLines (lines.rtake k)) = byteLength (joinLines (lines.reverse.take k)) := by
  rw [List.rtake_eq_reverse_take_reverse, byteLength_joinLines_reverse]

theorem LongestWithin.rtake {lines : List (List Char)} {k : Nat}
    (h : LongestWithin maxLines maxBytes lines.reverse.take lines.reverse.length k) :
    LongestWithin maxLines maxBytes lines.rtake lines.length k := by
  have hlen : ∀ j, (lines.rtake j).length = (lines.reverse.take j).length := by
    intro j
    rw [List.rtake_eq_reverse_take_reverse, List.length_reverse]
  refine ⟨h.le_length.trans_eq List.length_reverse, ?_, ?_, ?_⟩
  · exact (hlen k).trans_le h.le_lines
  · exact (byteLength_rtake lines k).trans_le h.le_bytes
  · intro j hj hlines hbytes
    exact h.longest j (hj.trans_eq List.length_reverse.symm) ((hlen j).symm.trans_le hlines)
      ((byteLength_rtake lines j).symm.trans_le hbytes)

/-- The variables of the loop make the result. -/
theorem truncateTail_loop
    (hover : ¬Fits content maxLines maxBytes) :
    truncateTail content (limits maxLines maxBytes) =
      (tailLoop maxLines maxBytes (splitLinesForCounting content).reverse [] 0).result maxLines
        maxBytes (splitLinesForCounting content).length (byteLength content) :=
  truncateTail_over (by omega)

theorem tailLoop_whole {last : List Char} {more : List (List Char)}
    (hlast : maxLines = 0 ∨ byteLength last ≤ maxBytes) :
    let loop := tailLoop maxLines maxBytes (last :: more) [] 0
    Taken maxLines maxBytes (last :: more) loop.outputLinesArr.length loop.truncatedBy ∧
      loop.outputLinesArr.reverse = (last :: more).take loop.outputLinesArr.length ∧
      loop.lastLinePartial = false := by
  rcases Nat.eq_zero_or_pos maxLines with rfl | hpos
  · rw [tailLoop, if_neg (Nat.not_lt_zero _)]
    exact ⟨⟨Nat.zero_le _, le_rfl, Nat.zero_le _, fun _ => .inr rfl, fun h => by cases h⟩, rfl, rfl⟩
  · have hfit : byteLength last ≤ maxBytes := hlast.resolve_left hpos.ne'
    rw [tailLoop_first hpos, if_neg (Nat.not_lt.mpr hfit), ← byteLength_joinLines_singleton]
    exact tailLoop_taken more [last] (List.cons_ne_nil _ _) hpos
      ((byteLength_joinLines_singleton last).trans_le hfit)

theorem getLast?_of_reverse {lines more : List (List Char)} {last : List Char}
    (h : lines.reverse = last :: more) : lines.getLast? = some last := by
  rw [List.getLast?_eq_head?_reverse, h, List.head?_cons]

/-- A last line that does not fit: right unless it is the only line and one line is allowed. -/
theorem tailLimits_cut {last : List Char} {more : List (List Char)}
    (hover : ¬Fits content maxLines maxBytes)
    (hlines : (splitLinesForCounting content).reverse = last :: more) (hpos : 0 < maxLines)
    (hlast : maxBytes < byteLength last) : TailLimits content maxLines maxBytes
      (truncateTail content (limits maxLines maxBytes)) ↔ ¬(maxLines = 1 ∧ more = []) := by
  have hgetLast := getLast?_of_reverse hlines
  have hcount : (splitLinesForCounting content).length = more.length + 1 := by
    rw [← List.length_reverse, hlines, List.length_cons]
  have hcut : joinLines [lastWithin maxBytes last] = lastWithin maxBytes last :=
    List.intercalate_singleton
  have hfits := byteLength_lastWithin_le maxBytes last
  have hsuffix := lastWithin_suffix maxBytes last
  rw [truncateTail_loop hover, hlines, tailLoop_first hpos, if_pos hlast,
    truncateStringToBytesFromEnd_eq]
  -- the reason is the line limit when the part of the line is all that it allows
  have hreason : (if [lastWithin maxBytes last].length ≥ maxLines ∧
      byteLength (lastWithin maxBytes last) ≤ maxBytes then TruncatedBy.lines else .bytes) =
        if maxLines = 1 then .lines else .bytes := by
    refine if_congr ?_ rfl rfl
    rw [and_iff_left hfits, List.length_singleton]
    omega
  constructor
  · rintro h ⟨hone, rfl⟩
    have hright := h.by_lines (congrArg some (hreason.trans (if_pos hone)))
    rw [hcount, hone, List.length_nil] at hright
    exact absurd hright (Nat.lt_irrefl 1)
  · intro hnot
    refine ⟨iff_of_true rfl ⟨hpos, last, hgetLast, hlast⟩, (fun h => nomatch h),
      (fun h => nomatch h), fun _ => ⟨last, hgetLast, ?_, ?_⟩, ?_, ?_, ?_, ?_⟩
    · show joinLines [lastWithin maxBytes last] <:+ last
      rw [hcut]
      exact hsuffix
    · intro part hpart hbytes
      show part <:+ joinLines [lastWithin maxBytes last]
      rw [hcut]
      exact suffix_lastWithin hpart hbytes
    · refine (length_splitLines_joinLines ?_).trans hpos
      intro line hline
      rw [List.mem_singleton.mp hline]
      have hmem : last ∈ splitLinesForCounting content := List.mem_of_mem_getLast? hgetLast
      exact fun hin => newline_notMem_splitLines hmem (hsuffix.subset hin)
    · exact (congrArg byteLength hcut).trans_le hfits
    · intro h
      have hone : maxLines = 1 := by
        by_contra hmany
        exact absurd (Option.some.inj h) (by rw [hreason, if_neg hmany]; decide)
      have hmore : 0 < more.length := List.length_pos_iff.mpr (fun hnil => hnot ⟨hone, hnil⟩)
      omega
    · intro _
      rw [byteLength_rtake, hlines]
      obtain ⟨n, rfl⟩ := Nat.exists_eq_succ_of_ne_zero hpos.ne'
      exact hlast.trans_le (byteLength_le_joinLines List.mem_cons_self)

/-- A last line that fits, or no line allowed: right unless only the last newline is over the byte
limit. -/
theorem tailLimits_whole {last : List Char} {more : List (List Char)}
    (hover : ¬Fits content maxLines maxBytes)
    (hlines : (splitLinesForCounting content).reverse = last :: more)
    (hlast : maxLines = 0 ∨ byteLength last ≤ maxBytes) : TailLimits content maxLines maxBytes
      (truncateTail content (limits maxLines maxBytes)) ↔ ¬NewlineOver content maxLines maxBytes := by
  obtain ⟨htaken, hkept, hwhole⟩ := @tailLoop_whole maxLines maxBytes last more hlast
  rw [← hlines] at htaken hkept hwhole
  rw [← htaken.reason_iff List.length_reverse (byteLength_joinLines_reverse _) hover,
    truncateTail_loop hover]
  generalize tailLoop maxLines maxBytes (splitLinesForCounting content).reverse [] 0 = loop at *
  have hreason : (loop.result maxLines maxBytes (splitLinesForCounting content).length
      (byteLength content)).truncatedBy = some loop.truncatedBy := congrArg some (htaken.reason _)
  have hcontent : loop.outputLinesArr =
      (splitLinesForCounting content).rtake loop.outputLinesArr.length := by
    rw [List.rtake_eq_reverse_take_reverse, ← hkept, List.reverse_reverse]
  have hlongest := htaken.longestWithin.rtake
  constructor
  · intro h hright
    exact h.by_lines (hreason.trans (congrArg some hright))
  · intro hright
    refine ⟨?_, fun _ => ?_, fun _ => hlongest, ?_, ?_, ?_, ?_, ?_⟩
    · refine iff_of_false (show ¬loop.lastLinePartial = true by simp [hwhole]) ?_
      rintro ⟨hpos, last', hlast', hover'⟩
      obtain rfl := Option.some.inj ((getLast?_of_reverse hlines).symm.trans hlast')
      rcases hlast with hzero | hfit
      · exact hpos.ne' hzero
      · exact absurd hover' (Nat.not_lt.mpr hfit)
    · rw [if_neg hover]
      exact congrArg joinLines hcontent
    · intro h
      exact absurd (hwhole.symm.trans h) Bool.false_ne_true
    · refine (@length_splitLines_joinLines_of_subset content _ ?_).trans htaken.le_lines
      rw [hcontent]
      exact List.drop_subset _ _
    · show byteLength (joinLines loop.outputLinesArr) ≤ maxBytes
      rw [hcontent]
      exact hlongest.le_bytes
    · intro h
      exact hright (Option.some.inj (hreason.symm.trans h))
    · intro h
      have hbytes := Option.some.inj (hreason.symm.trans h)
      rw [byteLength_rtake]
      exact (hbytes ▸ htaken).bytes_bind

/-- The truncation from the tail does what it is to do unless only the last newline is over the
byte limit, or a part of the only line is reported as cut by a limit of one line. -/
theorem tailLimits_iff : TailLimits content maxLines maxBytes
    (truncateTail content (limits maxLines maxBytes)) ↔
      ¬NewlineOver content maxLines maxBytes ∧ ¬OneLineTail content maxLines maxBytes := by
  by_cases hfits : Fits content maxLines maxBytes
  · refine iff_of_true (truncateTail_fits hfits) ⟨?_, ?_⟩
    · intro hnewline
      have := hnewline.2.1
      omega
    · rintro ⟨-, line, hline, hover⟩
      have hbytes := byteLength_joinLines_splitLines_le content
      rw [hline, byteLength_joinLines_singleton] at hbytes
      omega
  · have hne : (splitLinesForCounting content).reverse ≠ [] :=
      fun hnil => lines_ne_nil hfits (List.reverse_eq_nil_iff.mp hnil)
    obtain ⟨last, more, hlines⟩ := List.exists_cons_of_ne_nil hne
    have hsplit : splitLinesForCounting content = more.reverse ++ [last] := by
      rw [← List.reverse_reverse (splitLinesForCounting content), hlines, List.reverse_cons]
    by_cases hlast : 0 < maxLines ∧ maxBytes < byteLength last
    · rw [tailLimits_cut hfits hlines hlast.1 hlast.2]
      have hmem : last ∈ splitLinesForCounting content := by simp [hsplit]
      rw [and_iff_right (not_newlineOver_of_line hmem hlast.2), not_iff_not]
      constructor
      · rintro ⟨hone, rfl⟩
        exact ⟨hone, last, hsplit, hlast.2⟩
      · rintro ⟨hone, line, hline, -⟩
        rw [hline, List.reverse_singleton] at hlines
        exact ⟨hone, (List.cons.inj hlines).2.symm⟩
    · rw [tailLimits_whole hfits hlines (by omega)]
      refine (and_iff_left ?_).symm
      rintro ⟨hone, line, hline, hover⟩
      rw [hline, List.reverse_singleton] at hlines
      obtain rfl := (List.cons.inj hlines).1
      exact hlast ⟨by omega, hover⟩

end Tail

/-! ## The two functions on any options -/

/-- For every text and every options both truncations do what they are to do, except on the inputs
where they report the limit that does not bind. -/
theorem truncations_limits_iff (content : List Char) (options : TruncationOptions) :
    let maxLines := options.maxLines.getD DEFAULT_MAX_LINES
    let maxBytes := options.maxBytes.getD DEFAULT_MAX_BYTES
    (HeadLimits content maxLines maxBytes (truncateHead content options) ↔
      ¬NewlineOver content maxLines maxBytes ∧ ¬NoLineHead content maxLines maxBytes) ∧
    (TailLimits content maxLines maxBytes (truncateTail content options) ↔
      ¬NewlineOver content maxLines maxBytes ∧ ¬OneLineTail content maxLines maxBytes) :=
  ⟨headLimits_iff, tailLimits_iff⟩

/-- A line with its newline and a byte limit of the line alone: both report the line limit, with all
lines kept. The part of a single line that a limit of one line allows: reported as cut by lines. -/
theorem truncations_report_wrong_limit :
    ¬HeadLimits "a\n".toList DEFAULT_MAX_LINES 1 (truncateHead "a\n".toList ⟨none, some 1⟩) ∧
      ¬TailLimits "abc".toList 1 2 (truncateTail "abc".toList ⟨some 1, some 2⟩) := by
  constructor
  · intro h
    exact absurd (h.by_lines (by decide)) (by decide)
  · intro h
    exact absurd (h.by_lines (by decide)) (by decide)

end CodingAgent
