import OmkVerified.Tui.WordWrap

/-!
# Word wrapping covers the line

The loop of `wordWrapLine` is followed by its position in the line: what stands between the start of the chunk
and the position is the chunk that is being filled. A break inside a word is forced only when the word does not
fit behind the break opportunity before it.
-/

namespace Tui.Components

open StdinBuffer

variable {env : TextEnv} {line : Text} {segments : List Segment} {maxWidth : Nat}

/-- Where a segment ends. -/
def Segment.stop (seg : Segment) : Nat := seg.index + seg.segment.length

/-- Consecutive non-empty segments that cut the line from an index on. -/
def CutsFrom (line : Text) : (index : Nat) → List Segment → Prop
  | index, [] => index = line.length
  | index, seg :: rest =>
    seg.index = index ∧ seg.segment ≠ [] ∧ slice line seg.index seg.stop = seg.segment ∧
      CutsFrom line seg.stop rest

/-- Consecutive non-empty segments that cut the line. -/
def Cuts (line : Text) (segments : List Segment) : Prop := CutsFrom line 0 segments

/-- A place at which a line may be cut: between segments, or between the graphemes of a segment. -/
inductive Cut (env : TextEnv) : List Segment → Nat → Prop
  | start (segments : List Segment) : Cut env segments 0
  | stop {segments : List Segment} {seg : Segment} (h : seg ∈ segments) : Cut env segments seg.stop
  | inside {segments : List Segment} {seg : Segment} {n : Nat} (h : seg ∈ segments)
      (hn : Cut env (env.graphemes seg.segment) n) : Cut env segments (seg.index + n)

/-- The visible width of a piece of the line. -/
def width (env : TextEnv) (line : Text) (a b : Nat) : Nat := env.visibleWidth (slice line a b)

/-- The visible width of a piece is the sum of the widths of its parts. -/
def Additive (env : TextEnv) (line : Text) (segments : List Segment) : Prop :=
  ∀ {a b c : Nat}, Cut env segments a → Cut env segments b → Cut env segments c → a ≤ b → b ≤ c →
    width env line a c = width env line a b + width env line b c

/-- A text that the segmenter does not divide. -/
def IsGrapheme (env : TextEnv) (text : Text) : Prop := (env.graphemes text).length ≤ 1

/-! ## Slices and segments -/

theorem slice_slice {a b c d : Nat} (hbd : c + b ≤ d) :
    slice (slice line c d) a b = slice line (c + a) (c + b) := by
  rw [slice, slice, slice, List.take_drop, List.take_take, List.drop_drop, Nat.min_eq_left hbd]

namespace CutsFrom

variable {index : Nat} {seg : Segment} {rest : List Segment}

theorem index_le (h : CutsFrom line index segments) : index ≤ line.length := by
  induction segments generalizing index with
  | nil => exact h.le
  | cons seg rest ih =>
    obtain ⟨hindex, -, -, hrest⟩ := h
    have hstop := ih hrest
    rw [Segment.stop] at hstop
    omega

theorem of_mem (h : CutsFrom line index segments) (hseg : seg ∈ segments) :
    index ≤ seg.index ∧ seg.stop ≤ line.length ∧ slice line seg.index seg.stop = seg.segment ∧ seg.segment ≠ [] := by
  induction segments generalizing index with
  | nil => cases hseg
  | cons first rest ih =>
    obtain ⟨hindex, hne, hslice, hrest⟩ := h
    rcases List.mem_cons.mp hseg with rfl | hseg
    · exact ⟨hindex.ge, hrest.index_le, hslice, hne⟩
    · obtain ⟨hle, hstop⟩ := ih hrest hseg
      refine ⟨?_, hstop⟩
      rw [Segment.stop] at hle
      omega

theorem lt_stop (h : CutsFrom line index segments) (hseg : seg ∈ segments) : seg.index < seg.stop := by
  have hpos := List.length_pos_of_ne_nil (h.of_mem hseg).2.2.2
  rw [Segment.stop]
  omega

theorem pairwise (h : CutsFrom line index segments) : segments.Pairwise fun s t => s.stop ≤ t.index := by
  induction segments generalizing index with
  | nil => exact .nil
  | cons seg rest ih =>
    obtain ⟨-, -, -, hrest⟩ := h
    exact .cons (fun t ht => (hrest.of_mem ht).1) (ih hrest)

theorem append {front : List Segment} (h : CutsFrom line index (front ++ rest)) :
    CutsFrom line ((front.getLast?.map Segment.stop).getD index) rest := by
  induction front generalizing index with
  | nil => exact h
  | cons seg front ih =>
    have hrest := ih h.2.2.2
    cases front with
    | nil => exact hrest
    | cons next front =>
      have hlast := List.getLast?_eq_some_getLast (List.cons_ne_nil next front)
      rw [hlast] at hrest
      rw [List.getLast?_cons_cons, hlast]
      exact hrest

end CutsFrom

/-! ## Words -/

/-- A maximal run of segments that are no white space, from `first` to `last`. -/
def IsWord (segments : List Segment) (first last : Nat) : Prop :=
  ∃ pre word post, segments = pre ++ word ++ post ∧ (∀ seg ∈ word, isBreakable seg = false) ∧
    (∀ seg ∈ pre.getLast?, isBreakable seg = true) ∧ (∀ seg ∈ post.head?, isBreakable seg = true) ∧
    word.head?.map Segment.index = some first ∧ word.getLast?.map Segment.stop = some last

/-- White space ends here and a segment that is none starts. -/
def WordStart (segments : List Segment) (x : Nat) : Prop :=
  (∃ seg ∈ segments, isBreakable seg = true ∧ seg.stop = x) ∧
    ∃ seg ∈ segments, isBreakable seg = false ∧ seg.index = x

namespace IsWord

variable {first last : Nat} {seg : Segment}

/-- A segment stands before a word, in it or behind it. -/
theorem seg_cases (h : IsWord segments first last) (hcuts : Cuts line segments) (hseg : seg ∈ segments) :
    seg.stop ≤ first ∨ (first ≤ seg.index ∧ seg.stop ≤ last ∧ isBreakable seg = false) ∨ last ≤ seg.index := by
  obtain ⟨pre, word, post, rfl, hword, -, -, hfirst, hlast⟩ := h
  obtain ⟨head, hhead, rfl⟩ := Option.map_eq_some_iff.mp hfirst
  obtain ⟨tail, htail, rfl⟩ := Option.map_eq_some_iff.mp hlast
  have hordered := CutsFrom.pairwise hcuts
  obtain ⟨hleft, -, hpost⟩ := List.pairwise_append.mp hordered
  obtain ⟨-, hinner, hpre⟩ := List.pairwise_append.mp hleft
  have hheadmem := List.mem_of_head? hhead
  have htailmem := List.mem_of_getLast? htail
  rcases List.mem_append.mp hseg with hseg | hseg
  · rcases List.mem_append.mp hseg with hseg | hseg
    · exact .inl (hpre seg hseg head hheadmem)
    · refine .inr (.inl ⟨?_, ?_, hword seg hseg⟩)
      · obtain ⟨rest, rfl⟩ := List.head?_eq_some_iff.mp hhead
        rcases List.mem_cons.mp hseg with rfl | hmem
        · exact le_rfl
        · have hle := (List.pairwise_cons.mp hinner).1 seg hmem
          rw [Segment.stop] at hle
          omega
      · obtain ⟨rest, rfl⟩ := List.getLast?_eq_some_iff.mp htail
        rcases List.mem_append.mp hseg with hmem | hmem
        · have hle := (List.pairwise_append.mp hinner).2.2 seg hmem tail (by simp)
          have hstop : tail.stop = tail.index + tail.segment.length := rfl
          omega
        · rw [List.mem_singleton.mp hmem]
  · exact .inr (.inr (hpost tail (List.mem_append_right _ htailmem) seg hseg))

theorem le_of_stop (h : IsWord segments first last) (hcuts : Cuts line segments) (hseg : seg ∈ segments)
    (hspace : isBreakable seg = true) (hstop : seg.stop ≤ last) : seg.stop ≤ first := by
  have hlt := CutsFrom.lt_stop hcuts hseg
  rcases h.seg_cases hcuts hseg with hbefore | ⟨-, -, hword⟩ | hbehind
  · exact hbefore
  · rw [hspace] at hword
    cases hword
  · omega

/-- A segment around a place inside a word lies in the word. -/
theorem seg_inside (h : IsWord segments first last) (hcuts : Cuts line segments) (hseg : seg ∈ segments) {b : Nat}
    (hfirst : first < b) (hlast : b < last) (hindex : seg.index ≤ b) (hstop : b < seg.stop) :
    first ≤ seg.index ∧ seg.stop ≤ last := by
  rcases h.seg_cases hcuts hseg with hbefore | ⟨hle, hlast, -⟩ | hbehind
  · omega
  · exact ⟨hle, hlast⟩
  · omega

theorem wordStart (h : IsWord segments first last) (hcuts : Cuts line segments) (hpos : 0 < first) :
    WordStart segments first := by
  obtain ⟨pre, word, post, rfl, hword, hpre, -, hfirst, -⟩ := h
  obtain ⟨head, hhead, rfl⟩ := Option.map_eq_some_iff.mp hfirst
  obtain ⟨rest, rfl⟩ := List.head?_eq_some_iff.mp hhead
  have hcut := hcuts
  rw [Cuts, List.append_assoc, List.cons_append] at hcut
  have hindex := hcut.append.1
  refine ⟨?_, head, by simp, hword head List.mem_cons_self, rfl⟩
  rcases hlast : pre.getLast? with _ | before
  · rw [hlast] at hindex
    exact absurd hindex hpos.ne'
  · rw [hlast] at hindex
    exact ⟨before, by simp [List.mem_of_getLast? hlast], hpre before hlast, hindex.symm⟩

theorem last_le (h : IsWord segments first last) (hcuts : Cuts line segments) : last ≤ line.length := by
  obtain ⟨pre, word, post, rfl, -, -, -, -, hlast⟩ := h
  obtain ⟨tail, htail, rfl⟩ := Option.map_eq_some_iff.mp hlast
  exact (CutsFrom.of_mem hcuts (by simp [List.mem_of_getLast? htail])).2.1

theorem cut_last (h : IsWord segments first last) : Cut env segments last := by
  obtain ⟨pre, word, post, rfl, -, -, -, -, hlast⟩ := h
  obtain ⟨tail, htail, rfl⟩ := Option.map_eq_some_iff.mp hlast
  exact .stop (by simp [List.mem_of_getLast? htail])

theorem cut_first (h : IsWord segments first last) (hcuts : Cuts line segments) : Cut env segments first := by
  rcases Nat.eq_zero_or_pos first with rfl | hpos
  · exact .start segments
  · obtain ⟨⟨seg, hseg, -, rfl⟩, -⟩ := h.wordStart hcuts hpos
    exact .stop hseg

end IsWord

/-! ## Widths -/

theorem width_mono_right (hadd : Additive env line segments) {a b c : Nat} (ha : Cut env segments a) (hb : Cut env segments b)
    (hc : Cut env segments c) (hab : a ≤ b) (hbc : b ≤ c) : width env line a b ≤ width env line a c := by
  rw [hadd ha hb hc hab hbc]
  omega

theorem width_self (hadd : Additive env line segments) {a : Nat} (ha : Cut env segments a) : width env line a a = 0 := by
  have h := hadd ha ha ha le_rfl le_rfl
  omega

theorem width_seg (hcuts : Cuts line segments) {seg : Segment} (hseg : seg ∈ segments) :
    width env line seg.index seg.stop = env.visibleWidth seg.segment := by
  rw [width, (CutsFrom.of_mem hcuts hseg).2.2.1]

theorem cut_index {seg : Segment} (hseg : seg ∈ segments) : Cut env segments seg.index :=
  .inside hseg (.start (env.graphemes seg.segment))

theorem cut_length (hcuts : Cuts line segments) : Cut env segments line.length := by
  have hend : CutsFrom line 0 (segments ++ []) := (List.append_nil segments).symm ▸ hcuts
  have hlength := hend.append
  rcases hlast : segments.getLast? with _ | seg
  · rw [hlast] at hlength
    rw [← show 0 = line.length from hlength]
    exact .start segments
  · rw [hlast] at hlength
    rw [← show seg.stop = line.length from hlength]
    exact .stop (List.mem_of_getLast? hlast)

/-! ## Chunks -/

/-- Consecutive non-empty chunks that cover the line from an index to another. -/
def Covers (line : Text) : (first : Nat) → List TextChunk → (last : Nat) → Prop
  | first, [], last => first = last
  | first, chunk :: chunks, last =>
    chunk.startIndex = first ∧ chunk.startIndex < chunk.endIndex ∧
      chunk.text = slice line chunk.startIndex chunk.endIndex ∧ Covers line chunk.endIndex chunks last

/-- A text no wider than the width, or a single grapheme. -/
def Fits (env : TextEnv) (maxWidth : Nat) (text : Text) : Prop :=
  env.visibleWidth text ≤ maxWidth ∨ IsGrapheme env text

/-- What holds of each chunk: it ends inside a word only if the word, or the part of it from the start of the chunk
on, is wider than the width. -/
structure ChunkOk (env : TextEnv) (line : Text) (segments : List Segment) (maxWidth : Nat) (chunk : TextChunk) :
    Prop where
  cut : Cut env segments chunk.startIndex
  fits : Fits env maxWidth chunk.text
  words : (∀ seg ∈ segments, isBreakable seg = true → IsGrapheme env seg.segment) →
    ∀ first last, IsWord segments first last → first < chunk.endIndex → chunk.endIndex < last →
      maxWidth < width env line (max first chunk.startIndex) last

/-- What `wordWrapLine` returns. -/
structure Wrapped (env : TextEnv) (line : Text) (segments : List Segment) (maxWidth : Nat) (chunks : List TextChunk) :
    Prop where
  covers : Covers line 0 chunks line.length
  chunk : ∀ chunk ∈ chunks, ChunkOk env line segments maxWidth chunk
  /-- A chunk before the last would be too wide with what follows it. -/
  overflows : ∀ chunk ∈ chunks.dropLast, maxWidth < width env line chunk.startIndex line.length

/-- The state of the loop at the position `p`. -/
structure Filling (env : TextEnv) (line : Text) (segments : List Segment) (maxWidth : Nat) (state : WrapState)
    (p : Nat) : Prop where
  covers : Covers line 0 state.chunks state.chunkStart
  chunk : ∀ chunk ∈ state.chunks, ChunkOk env line segments maxWidth chunk
  overflows : ∀ chunk ∈ state.chunks, maxWidth < width env line chunk.startIndex line.length
  start_le : state.chunkStart ≤ p
  start_cut : Cut env segments state.chunkStart
  current : state.currentWidth = width env line state.chunkStart p
  fits : Fits env maxWidth (slice line state.chunkStart p)
  /-- A recorded opportunity stands behind white space, and the chunk up to it fits. -/
  opp : ∀ idx w, state.wrapOpp = some (idx, w) → state.chunkStart < idx ∧ idx ≤ p ∧
    w = width env line state.chunkStart idx ∧ Fits env maxWidth (slice line state.chunkStart idx) ∧
    ∃ seg ∈ segments, isBreakable seg = true ∧ seg.stop = idx
  /-- No start of a word behind the recorded opportunity is missed. -/
  missed : (∀ seg ∈ segments, isBreakable seg = true → IsGrapheme env seg.segment) →
    ∀ x, state.chunkStart < x → x ≤ p → WordStart segments x → ∃ idx w, state.wrapOpp = some (idx, w) ∧ x ≤ idx

theorem Covers.concat {chunks : List TextChunk} {first middle last : Nat} (h : Covers line first chunks middle)
    (hlast : middle < last) : Covers line first (chunks ++ [⟨slice line middle last, middle, last⟩]) last := by
  induction chunks generalizing first with
  | nil =>
    cases h
    exact ⟨rfl, hlast, rfl, rfl⟩
  | cons chunk chunks ih =>
    obtain ⟨hfirst, hne, htext, hrest⟩ := h
    exact ⟨hfirst, hne, htext, ih hrest⟩

theorem Covers.append {chunks rest : List TextChunk} {first middle last : Nat} (h : Covers line first chunks middle)
    (hrest : Covers line middle rest last) : Covers line first (chunks ++ rest) last := by
  induction chunks generalizing first with
  | nil =>
    cases h
    exact hrest
  | cons chunk chunks ih =>
    obtain ⟨hfirst, hne, htext, hmore⟩ := h
    exact ⟨hfirst, hne, htext, ih hmore⟩

section

variable {state : WrapState} {seg : Segment} {rest : List Segment} {p : Nat}

/-- The chunk up to `b` is pushed. -/
theorem Filling.pushChunk {b w : Nat} (h : Filling env line segments maxWidth state p) (hb : state.chunkStart < b)
    (hbp : b ≤ p) (hcut : Cut env segments b)
    (hchunk : ChunkOk env line segments maxWidth ⟨slice line state.chunkStart b, state.chunkStart, b⟩)
    (hover : maxWidth < width env line state.chunkStart line.length)
    (hfits : Fits env maxWidth (slice line b p)) (hw : w = width env line b p)
    (hmissed : (∀ seg ∈ segments, isBreakable seg = true → IsGrapheme env seg.segment) →
      ∀ x, b < x → x ≤ p → ¬ WordStart segments x) :
    Filling env line segments maxWidth (state.pushChunk line b w) p where
  covers := h.covers.concat hb
  chunk := by
    intro chunk hmem
    rcases List.mem_append.mp hmem with hmem | hmem
    · exact h.chunk chunk hmem
    · rw [List.mem_singleton.mp hmem]
      exact hchunk
  overflows := by
    intro chunk hmem
    rcases List.mem_append.mp hmem with hmem | hmem
    · exact h.overflows chunk hmem
    · rw [List.mem_singleton.mp hmem]
      exact hover
  start_le := hbp
  start_cut := hcut
  current := hw
  fits := hfits
  opp := fun idx w hopp => nomatch hopp
  missed := fun hspaces x hx hxp hstart => absurd hstart (hmissed hspaces x hx hxp)

/-- A forced break, before a segment that does not fit. -/
theorem Filling.forceBreak (hcuts : Cuts line segments) (hadd : Additive env line segments)
    (h : Filling env line segments maxWidth state seg.index) (hseg : seg ∈ segments)
    (hfull : maxWidth < state.currentWidth + env.visibleWidth seg.segment)
    (hopp : ∀ idx w, state.wrapOpp = some (idx, w) →
      ¬ state.currentWidth - w + env.visibleWidth seg.segment ≤ maxWidth) (hstart : state.chunkStart < seg.index) :
    Filling env line segments maxWidth (state.pushChunk line seg.index 0) seg.index := by
  have hcut := @cut_index env _ _ hseg
  have hstop : Cut env segments seg.stop := .stop hseg
  have hend := @cut_length env _ _ hcuts
  have hlt := (CutsFrom.lt_stop hcuts hseg).le
  have hle := (CutsFrom.of_mem hcuts hseg).2.1
  have hsum := hadd h.start_cut hcut hstop hstart.le hlt
  rw [width_seg hcuts hseg, ← h.current] at hsum
  have hright := width_mono_right hadd h.start_cut hstop hend (by omega) hle
  refine h.pushChunk hstart le_rfl hcut ⟨h.start_cut, h.fits, ?_⟩ (by omega) (.inl ?_) ?_ ?_
  · intro hspaces first last hword hfirst hlast
    change first < seg.index at hfirst
    change seg.index < last at hlast
    obtain ⟨-, hinside⟩ := hword.seg_inside hcuts hseg hfirst hlast le_rfl (CutsFrom.lt_stop hcuts hseg)
    have hlastcut : Cut env segments last := hword.cut_last
    have hfirstcut : Cut env segments first := hword.cut_first hcuts
    change maxWidth < width env line (max first state.chunkStart) last
    by_cases hbefore : state.chunkStart < first
    · -- the word starts in this chunk: the opportunity before it was recorded and was no use
      obtain ⟨idx, w, hrecorded, hidx⟩ :=
        h.missed hspaces first hbefore hfirst.le (hword.wordStart hcuts (by omega))
      obtain ⟨-, hidxp, hw, -, space, hspace, hbreakable, rfl⟩ := h.opp idx w hrecorded
      have hsame : space.stop = first := le_antisymm
        (hword.le_of_stop hcuts hspace hbreakable (by omega)) hidx
      have hno := hopp _ _ hrecorded
      rw [hsame] at hw
      have hparts := hadd h.start_cut hfirstcut hcut hbefore.le hfirst.le
      have hpiece := hadd hfirstcut hcut hstop hfirst.le hlt
      rw [width_seg hcuts hseg] at hpiece
      rw [← h.current, ← hw] at hparts
      have hmore := width_mono_right hadd hfirstcut hstop hlastcut (by omega) hinside
      rw [max_eq_left hbefore.le]
      omega
    · have hmore := width_mono_right hadd h.start_cut hstop hlastcut (by omega) hinside
      rw [max_eq_right (not_lt.mp hbefore)]
      omega
  · change width env line seg.index seg.index ≤ maxWidth
    rw [width_self hadd hcut]
    exact Nat.zero_le _
  · exact (width_self hadd hcut).symm
  · intro hspaces x hx hxp
    omega

/-- Going back to the recorded opportunity. -/
theorem Filling.backtrack (hcuts : Cuts line segments) (hadd : Additive env line segments)
    (h : Filling env line segments maxWidth state seg.index) (hseg : seg ∈ segments)
    (hfull : maxWidth < state.currentWidth + env.visibleWidth seg.segment) {idx w : Nat}
    (hopp : state.wrapOpp = some (idx, w)) (hroom : state.currentWidth - w + env.visibleWidth seg.segment ≤ maxWidth) :
    Filling env line segments maxWidth (state.pushChunk line idx (state.currentWidth - w)) seg.index := by
  obtain ⟨hidx, hidxp, hw, hfits, space, hspace, hbreakable, rfl⟩ := h.opp idx w hopp
  have hcut := @cut_index env _ _ hseg
  have hstop : Cut env segments seg.stop := .stop hseg
  have hspacecut : Cut env segments space.stop := .stop hspace
  have hend := @cut_length env _ _ hcuts
  have hlt := (CutsFrom.lt_stop hcuts hseg).le
  have hle := (CutsFrom.of_mem hcuts hseg).2.1
  have hsum := hadd h.start_cut hcut hstop (by omega) hlt
  rw [width_seg hcuts hseg, ← h.current] at hsum
  have hright := width_mono_right hadd h.start_cut hstop hend (by omega) hle
  have hparts := hadd h.start_cut hspacecut hcut hidx.le hidxp
  rw [← h.current, ← hw] at hparts
  refine h.pushChunk hidx hidxp hspacecut ⟨h.start_cut, hfits, ?_⟩ (by omega) (.inl ?_) (by omega) ?_
  · intro hspaces first last hword hfirst hlast
    -- white space ends at the break, so it is not inside a word
    have hno := hword.le_of_stop hcuts hspace hbreakable (le_of_lt hlast)
    exact absurd hfirst (not_lt.mpr hno)
  · change width env line space.stop seg.index ≤ maxWidth
    omega
  · intro hspaces x hx hxp hstart
    obtain ⟨idx, w', hrecorded, hle⟩ := h.missed hspaces x (by omega) hxp hstart
    rw [hopp] at hrecorded
    cases hrecorded
    omega

/-- The overflow check leaves room for the segment, or an empty chunk. -/
theorem Filling.overflow (hcuts : Cuts line segments) (hadd : Additive env line segments)
    (h : Filling env line segments maxWidth state seg.index) (hseg : seg ∈ segments) :
    Filling env line segments maxWidth
        (state.overflow line maxWidth (env.visibleWidth seg.segment) seg.index) seg.index ∧
      ((state.overflow line maxWidth (env.visibleWidth seg.segment) seg.index).currentWidth +
          env.visibleWidth seg.segment ≤ maxWidth ∨
        (state.overflow line maxWidth (env.visibleWidth seg.segment) seg.index).chunkStart = seg.index) := by
  have hreset (hstart : ¬ state.chunkStart < seg.index) :
      Filling env line segments maxWidth { state with wrapOpp := none } seg.index := by
    refine { h with opp := fun idx w hopp => (nomatch hopp), missed := ?_ }
    intro hspaces x hx hxp
    change state.chunkStart < x at hx
    omega
  unfold WrapState.overflow
  by_cases hfull : state.currentWidth + env.visibleWidth seg.segment > maxWidth
  · rw [if_pos hfull]
    rcases hopp : state.wrapOpp with _ | ⟨idx, w⟩
    · by_cases hstart : state.chunkStart < seg.index
      · simp only [if_pos hstart]
        refine ⟨h.forceBreak hcuts hadd hseg hfull ?_ hstart, .inr rfl⟩
        intro idx w hrecorded
        rw [hopp] at hrecorded
        cases hrecorded
      · simp only [if_neg hstart]
        exact ⟨hreset hstart, .inr (le_antisymm h.start_le (not_lt.mp hstart))⟩
    · by_cases hroom : state.currentWidth - w + env.visibleWidth seg.segment ≤ maxWidth
      · simp only [if_pos hroom]
        exact ⟨h.backtrack hcuts hadd hseg hfull hopp hroom, .inl hroom⟩
      · simp only [if_neg hroom]
        by_cases hstart : state.chunkStart < seg.index
        · simp only [if_pos hstart]
          refine ⟨h.forceBreak hcuts hadd hseg hfull ?_ hstart, .inr rfl⟩
          intro idx' w' hrecorded
          rw [hopp] at hrecorded
          cases hrecorded
          exact hroom
        · simp only [if_neg hstart]
          exact ⟨hreset hstart, .inr (le_antisymm h.start_le (not_lt.mp hstart))⟩
  · rw [if_neg hfull]
    exact ⟨h, .inl (not_lt.mp hfull)⟩

theorem CutsFrom.next {index : Nat} {front : List Segment} (h : CutsFrom line index (front ++ seg :: rest)) :
    CutsFrom line seg.stop rest :=
  h.append.2.2.2

/-- A word that starts where a segment ends starts with the next segment, and the segment is white space. -/
theorem WordStart.of_stop (hcuts : Cuts line segments) {front : List Segment} (hsegments : segments = front ++ seg :: rest)
    (h : WordStart segments seg.stop) :
    isBreakable seg = true ∧ ∃ next ∈ rest.head?, isBreakable next = false ∧ next.index = seg.stop := by
  obtain ⟨⟨space, hspace, hbreakable, hstop⟩, first, hfirst, hword, hindex⟩ := h
  have hordered := CutsFrom.pairwise hcuts
  have hlt : seg.index < seg.stop := CutsFrom.lt_stop hcuts (by simp [hsegments])
  have hspacelt := CutsFrom.lt_stop hcuts hspace
  have hfirstlt := CutsFrom.lt_stop hcuts hfirst
  rw [hsegments] at hordered hspace hfirst
  obtain ⟨-, hback, hfront⟩ := List.pairwise_append.mp hordered
  obtain ⟨hrest, hrestordered⟩ := List.pairwise_cons.mp hback
  refine ⟨?_, ?_⟩
  · rcases List.mem_append.mp hspace with hmem | hmem
    · have hle := hfront space hmem seg List.mem_cons_self
      omega
    · rcases List.mem_cons.mp hmem with rfl | hmem
      · exact hbreakable
      · have hle := hrest space hmem
        omega
  · rcases List.mem_append.mp hfirst with hmem | hmem
    · have hle := hfront first hmem seg List.mem_cons_self
      omega
    · rcases List.mem_cons.mp hmem with rfl | hmem
      · omega
      · cases rest with
        | nil => cases hmem
        | cons next rest =>
          rcases List.mem_cons.mp hmem with rfl | hmem
          · exact ⟨first, rfl, hword, hindex⟩
          · have hle := (List.pairwise_cons.mp hrestordered).1 first hmem
            have hnext := hrest next List.mem_cons_self
            have hnextlt : next.index < next.stop := CutsFrom.lt_stop hcuts (by simp [hsegments])
            omega

/-- A word that starts up to the end of a segment starts up to its front, or at its end. -/
theorem WordStart.le_or_eq (hcuts : Cuts line segments) {front : List Segment}
    (hsegments : segments = front ++ seg :: rest) {x : Nat} (h : WordStart segments x) (hx : x ≤ seg.stop) :
    x ≤ seg.index ∨ x = seg.stop := by
  obtain ⟨⟨space, hspace, -, rfl⟩, -⟩ := h
  have hordered := CutsFrom.pairwise hcuts
  have hlt := CutsFrom.lt_stop hcuts hspace
  rw [hsegments] at hordered hspace
  obtain ⟨-, hback, hfront⟩ := List.pairwise_append.mp hordered
  rcases List.mem_append.mp hspace with hmem | hmem
  · exact .inl (hfront space hmem seg List.mem_cons_self)
  · rcases List.mem_cons.mp hmem with rfl | hmem
    · exact .inr rfl
    · have hle := (List.pairwise_cons.mp hback).1 space hmem
      omega

theorem advance_wrapOpp (state : WrapState) (seg : Segment) (gWidth : Nat) (next : Option Segment) :
    (state.advance seg gWidth next).wrapOpp = state.wrapOpp ∨
      ∃ nextSeg ∈ next, isBreakable seg = true ∧
        (state.advance seg gWidth next).wrapOpp = some (nextSeg.index, state.currentWidth + gWidth) := by
  unfold WrapState.advance
  cases next with
  | none => exact .inl rfl
  | some nextSeg =>
    dsimp only
    split_ifs with hopp
    · exact .inr ⟨nextSeg, rfl, hopp.1, rfl⟩
    · exact .inl rfl

/-- White space before a word is recorded. -/
theorem advance_wrapOpp_of_word (state : WrapState) {seg next : Segment} (gWidth : Nat)
    (hspace : isBreakable seg = true) (hword : isBreakable next = false) :
    (state.advance seg gWidth (some next)).wrapOpp = some (next.index, state.currentWidth + gWidth) := by
  have hnext : isPasteMarker next.segment = true ∨ ¬ isWhitespaceChar next.segment = true := by
    rw [isBreakable, Bool.and_eq_false_iff] at hword
    rcases hword with hmarker | hno
    · exact .inl (by simpa using hmarker)
    · exact .inr (by simp [hno])
  unfold WrapState.advance
  dsimp only
  rw [if_pos ⟨hspace, hnext⟩]

@[simp] theorem advance_chunks (state : WrapState) (seg : Segment) (gWidth : Nat) (next : Option Segment) :
    (state.advance seg gWidth next).chunks = state.chunks := by
  unfold WrapState.advance
  cases next with
  | none => rfl
  | some next =>
    dsimp only
    split_ifs <;> rfl

@[simp] theorem advance_chunkStart (state : WrapState) (seg : Segment) (gWidth : Nat) (next : Option Segment) :
    (state.advance seg gWidth next).chunkStart = state.chunkStart := by
  unfold WrapState.advance
  cases next with
  | none => rfl
  | some next =>
    dsimp only
    split_ifs <;> rfl

@[simp] theorem advance_currentWidth (state : WrapState) (seg : Segment) (gWidth : Nat) (next : Option Segment) :
    (state.advance seg gWidth next).currentWidth = state.currentWidth + gWidth := by
  unfold WrapState.advance
  cases next with
  | none => rfl
  | some next =>
    dsimp only
    split_ifs <;> rfl

/-- A segment that is not wrapped by itself is taken in. -/
theorem Filling.advance (hcuts : Cuts line segments) (hadd : Additive env line segments) {front : List Segment}
    (hsegments : segments = front ++ seg :: rest) (h : Filling env line segments maxWidth state seg.index)
    (hroom : state.currentWidth + env.visibleWidth seg.segment ≤ maxWidth ∨ state.chunkStart = seg.index)
    (hwhole : ¬ (env.visibleWidth seg.segment > maxWidth ∧ (env.graphemes seg.segment).length > 1)) :
    Filling env line segments maxWidth (state.advance seg (env.visibleWidth seg.segment) rest.head?) seg.stop := by
  have hseg : seg ∈ segments := by simp [hsegments]
  have hlt := CutsFrom.lt_stop hcuts hseg
  have hsum := hadd h.start_cut (cut_index hseg) (.stop hseg) h.start_le hlt.le
  rw [width_seg hcuts hseg, ← h.current] at hsum
  have hfits : Fits env maxWidth (slice line state.chunkStart seg.stop) := by
    rcases hroom with hroom | hstart
    · exact .inl (hsum.trans_le hroom)
    · rw [hstart, (CutsFrom.of_mem hcuts hseg).2.2.1]
      by_cases hwide : env.visibleWidth seg.segment > maxWidth
      · exact .inr (not_lt.mp fun hmany => hwhole ⟨hwide, hmany⟩)
      · exact .inl (not_lt.mp hwide)
  have hnext : CutsFrom line seg.stop rest := @CutsFrom.next _ _ _ 0 _ (hsegments ▸ hcuts)
  refine ⟨?_, ?_, ?_, ?_, ?_, ?_, ?_, ?_, ?_⟩
  · rw [advance_chunks, advance_chunkStart]
    exact h.covers
  · rw [advance_chunks]
    exact h.chunk
  · rw [advance_chunks]
    exact h.overflows
  · rw [advance_chunkStart]
    exact h.start_le.trans hlt.le
  · rw [advance_chunkStart]
    exact h.start_cut
  · rw [advance_chunkStart, advance_currentWidth, hsum]
  · rw [advance_chunkStart]
    exact hfits
  · intro idx w hopp
    rw [advance_chunkStart]
    rcases advance_wrapOpp state seg (env.visibleWidth seg.segment) rest.head? with hold | ⟨next, hmem, hspace, hnew⟩
    · obtain ⟨hidx, hidxp, hrest⟩ := h.opp idx w (hold ▸ hopp)
      exact ⟨hidx, hidxp.trans hlt.le, hrest⟩
    · rw [hopp] at hnew
      cases hnew
      have hindex : next.index = seg.stop := by
        cases rest with
        | nil => cases hmem
        | cons first rest =>
          cases hmem
          exact hnext.1
      rw [hindex]
      exact ⟨h.start_le.trans_lt hlt, le_rfl, hsum.symm, hfits, seg, hseg, hspace, rfl⟩
  · intro hspaces x hx hxp hstart
    rw [advance_chunkStart] at hx
    rcases hstart.le_or_eq hcuts hsegments hxp with hle | rfl
    · obtain ⟨idx, w, hopp, hidx⟩ := h.missed hspaces x hx hle hstart
      rcases advance_wrapOpp state seg (env.visibleWidth seg.segment) rest.head? with hold | ⟨next, hmem, -, hnew⟩
      · exact ⟨idx, w, hold.trans hopp, hidx⟩
      · have hindex := (hnext.of_mem (List.mem_of_head? hmem)).1
        exact ⟨_, _, hnew, by omega⟩
    · obtain ⟨hspace, next, hmem, hword, hindex⟩ := WordStart.of_stop hcuts hsegments hstart
      rw [Option.mem_def.mp hmem]
      exact ⟨_, _, advance_wrapOpp_of_word state _ hspace hword, hindex.ge⟩

/-! ## A segment wrapped by itself -/

theorem slice_seg (hslice : slice line seg.index seg.stop = seg.segment) {a b : Nat} (hb : b ≤ seg.segment.length) :
    slice seg.segment a b = slice line (seg.index + a) (seg.index + b) := by
  have hstop : seg.stop = seg.index + seg.segment.length := rfl
  have hpiece := @slice_slice line a b seg.index seg.stop (by omega)
  rw [hslice] at hpiece
  exact hpiece

theorem width_seg_piece (hcuts : Cuts line segments) (hseg : seg ∈ segments) {a b : Nat}
    (hb : b ≤ seg.segment.length) :
    width env seg.segment a b = width env line (seg.index + a) (seg.index + b) := by
  rw [width, width, slice_seg (CutsFrom.of_mem hcuts hseg).2.2.1 hb]

theorem Cut.le {n : Nat} (h : Cut env segments n) (hcuts : Cuts line segments)
    (hgraphemes : ∀ text, text ≠ [] → Cuts text (env.graphemes text)) : n ≤ line.length := by
  induction h generalizing line with
  | start => exact Nat.zero_le _
  | stop hmem => exact (CutsFrom.of_mem hcuts hmem).2.1
  | @inside segments seg n hmem hn ih =>
    obtain ⟨-, hstop, -, hne⟩ := CutsFrom.of_mem hcuts hmem
    have hle := ih (hgraphemes seg.segment hne)
    rw [Segment.stop] at hstop
    omega

theorem Additive.of_mem (hadd : Additive env line segments) (hcuts : Cuts line segments)
    (hgraphemes : ∀ text, text ≠ [] → Cuts text (env.graphemes text)) (hseg : seg ∈ segments) :
    Additive env seg.segment (env.graphemes seg.segment) := by
  intro a b c ha hb hc hab hbc
  have hne := (CutsFrom.of_mem hcuts hseg).2.2.2
  have hlength := hc.le (hgraphemes seg.segment hne) hgraphemes
  rw [width_seg_piece hcuts hseg hlength, width_seg_piece hcuts hseg (hbc.trans hlength),
    width_seg_piece hcuts hseg hlength]
  exact hadd (.inside hseg ha) (.inside hseg hb) (.inside hseg hc) (by omega) (by omega)

theorem Covers.of_mem {chunks : List TextChunk} {first last : Nat} (h : Covers line first chunks last)
    {chunk : TextChunk} (hmem : chunk ∈ chunks) : chunk.startIndex < chunk.endIndex ∧ chunk.endIndex ≤ last := by
  have hle {chunks : List TextChunk} {first : Nat} (h : Covers line first chunks last) : first ≤ last := by
    induction chunks generalizing first with
    | nil => exact h.le
    | cons chunk chunks ih =>
      obtain ⟨hfirst, hlt, -, hrest⟩ := h
      have hmore := ih hrest
      omega
  induction chunks generalizing first with
  | nil => cases hmem
  | cons other chunks ih =>
    obtain ⟨-, hlt, -, hrest⟩ := h
    rcases List.mem_cons.mp hmem with rfl | hmem
    · exact ⟨hlt, hle hrest⟩
    · exact ih hrest hmem

/-- The last of covering chunks. -/
theorem Covers.last {chunks : List TextChunk} {chunk : TextChunk} {first last : Nat}
    (h : Covers line first (chunks ++ [chunk]) last) :
    Covers line first chunks chunk.startIndex ∧ chunk.startIndex < chunk.endIndex ∧
      chunk.text = slice line chunk.startIndex chunk.endIndex ∧ chunk.endIndex = last := by
  induction chunks generalizing first with
  | nil => exact ⟨h.1.symm, h.2⟩
  | cons other chunks ih =>
    obtain ⟨hfirst, hlt, htext, hrest⟩ := h
    obtain ⟨hcovers, hmore⟩ := ih hrest
    exact ⟨⟨hfirst, hlt, htext, hcovers⟩, hmore⟩

/-- Chunks of a segment as chunks of the line. -/
def shiftChunk (index : Nat) (chunk : TextChunk) : TextChunk :=
  ⟨chunk.text, index + chunk.startIndex, index + chunk.endIndex⟩

theorem Covers.shift (hslice : slice line seg.index seg.stop = seg.segment) {chunks : List TextChunk} {first last : Nat}
    (h : Covers seg.segment first chunks last) (hlast : last ≤ seg.segment.length) :
    Covers line (seg.index + first) (chunks.map (shiftChunk seg.index)) (seg.index + last) := by
  induction chunks generalizing first with
  | nil => exact congrArg (seg.index + ·) h
  | cons chunk chunks ih =>
    have hend := (h.of_mem List.mem_cons_self).2
    obtain ⟨hfirst, hlt, htext, hrest⟩ := h
    refine ⟨congrArg (seg.index + ·) hfirst, Nat.add_lt_add_left hlt _, ?_, ih hrest⟩
    exact htext.trans (slice_seg hslice (hend.trans hlast))

/-- A segment that was wrapped by itself is taken in: its last chunk is filled further. -/
theorem Filling.takeSubChunks (hcuts : Cuts line segments) (hadd : Additive env line segments)
    {front : List Segment} (hsegments : segments = front ++ seg :: rest)
    (h : Filling env line segments maxWidth state seg.index) (hstart : state.chunkStart = seg.index)
    (hmany : (env.graphemes seg.segment).length > 1) {subChunks : List TextChunk}
    (hsub : Wrapped env seg.segment (env.graphemes seg.segment) maxWidth subChunks) :
    Filling env line segments maxWidth (state.takeSubChunks env seg.index subChunks) seg.stop ∧
      (state.takeSubChunks env seg.index subChunks).chunkStart < seg.stop := by
  have hseg : seg ∈ segments := by simp [hsegments]
  obtain ⟨-, -, hslice, hne⟩ := CutsFrom.of_mem hcuts hseg
  have hchunks : subChunks ≠ [] := by
    rintro rfl
    exact hne (List.eq_nil_of_length_eq_zero hsub.covers.symm)
  obtain ⟨inner, last, rfl⟩ := (List.eq_nil_or_concat subChunks).resolve_left hchunks
  rw [List.concat_eq_append] at hsub ⊢
  obtain ⟨hinner, hlt, htext, hend⟩ := hsub.covers.last
  have hstop : seg.stop = seg.index + seg.segment.length := rfl
  have hlastmem : last ∈ inner ++ [last] := by simp
  have hlastok := hsub.chunk last hlastmem
  have hcut : Cut env segments (seg.index + last.startIndex) := .inside hseg hlastok.cut
  have hpiece : last.text = slice line (seg.index + last.startIndex) seg.stop := by
    rw [htext, slice_seg hslice hend.le, hend]
    rfl
  have hstate : state.takeSubChunks env seg.index (inner ++ [last]) =
      { chunks := state.chunks ++ inner.map (shiftChunk seg.index)
        currentWidth := env.visibleWidth last.text
        chunkStart := seg.index + last.startIndex
        wrapOpp := none } := by
    simp only [WrapState.takeSubChunks, List.dropLast_concat, List.getLast?_concat, Option.map_some,
      Option.getD_some]
    rfl
  rw [hstate]
  refine ⟨⟨?_, ?_, ?_, ?_, hcut, ?_, ?_, ?_, ?_⟩, ?_⟩
  · have hfirst := h.covers
    rw [hstart] at hfirst
    exact hfirst.append (hinner.shift hslice (by omega))
  · intro chunk hmem
    rcases List.mem_append.mp hmem with hmem | hmem
    · exact h.chunk chunk hmem
    · obtain ⟨sub, hsubmem, rfl⟩ := List.mem_map.mp hmem
      have hok := hsub.chunk sub (List.mem_append_left _ hsubmem)
      have hwide := hsub.overflows sub (by rwa [List.dropLast_concat])
      have hsubend := hinner.of_mem hsubmem
      refine ⟨.inside hseg hok.cut, hok.fits, ?_⟩
      intro hspaces first wordEnd hword hfirst hlast
      change first < seg.index + sub.endIndex at hfirst
      change seg.index + sub.endIndex < wordEnd at hlast
      change maxWidth < width env line (max first (seg.index + sub.startIndex)) wordEnd
      obtain ⟨hbefore, hinside⟩ := hword.seg_inside hcuts hseg hfirst hlast (by omega) (by omega)
      rw [width_seg_piece hcuts hseg le_rfl] at hwide
      have hmore := width_mono_right hadd (.inside hseg hok.cut) (.stop hseg) (hword.cut_last)
        (by omega) hinside
      rw [max_eq_right (by omega)]
      exact hwide.trans_le hmore
  · intro chunk hmem
    rcases List.mem_append.mp hmem with hmem | hmem
    · exact h.overflows chunk hmem
    · obtain ⟨sub, hsubmem, rfl⟩ := List.mem_map.mp hmem
      have hok := hsub.chunk sub (List.mem_append_left _ hsubmem)
      have hwide := hsub.overflows sub (by rwa [List.dropLast_concat])
      have hsubend := hinner.of_mem hsubmem
      rw [width_seg_piece hcuts hseg le_rfl] at hwide
      exact hwide.trans_le (width_mono_right hadd (.inside hseg hok.cut) (.stop hseg) (cut_length hcuts)
        (by omega) (CutsFrom.of_mem hcuts hseg).2.1)
  · change seg.index + last.startIndex ≤ seg.stop
    omega
  · change env.visibleWidth last.text = _
    rw [hpiece]
    rfl
  · change Fits env maxWidth (slice line (seg.index + last.startIndex) seg.stop)
    rw [← hpiece]
    exact hlastok.fits
  · intro idx w hopp
    cases hopp
  · intro hspaces x hx hxp hwordStart
    change seg.index + last.startIndex < x at hx
    rcases hwordStart.le_or_eq hcuts hsegments hxp with hle | rfl
    · omega
    · have hspace := (WordStart.of_stop hcuts hsegments hwordStart).1
      exact absurd (hspaces seg hseg hspace) (not_le.mpr hmany)
  · change seg.index + last.startIndex < seg.stop
    omega

end

theorem Cuts.length_lt (hcuts : Cuts line segments) (hmany : segments.length > 1) {seg : Segment}
    (hseg : seg ∈ segments) : seg.segment.length < line.length := by
  obtain ⟨front, rest, rfl⟩ := List.append_of_mem hseg
  have hle := (CutsFrom.of_mem hcuts hseg).2.1
  rw [Segment.stop] at hle
  obtain ⟨-, hback, hfront⟩ := List.pairwise_append.mp (CutsFrom.pairwise hcuts)
  rcases front with _ | ⟨before, front⟩
  · rcases rest with _ | ⟨next, rest⟩
    · simp at hmany
    · have hnext : next ∈ [] ++ seg :: next :: rest := by simp
      have hlt := CutsFrom.lt_stop hcuts hnext
      have hstop := (CutsFrom.of_mem hcuts hnext).2.1
      have hafter := (List.pairwise_cons.mp hback).1 next List.mem_cons_self
      rw [Segment.stop] at hafter
      omega
  · have hbefore : before ∈ (before :: front) ++ seg :: rest := by simp
    have hlt := CutsFrom.lt_stop hcuts hbefore
    have hafter := hfront before List.mem_cons_self seg List.mem_cons_self
    omega

/-! ## The loop -/

/-- The calls for segments return what they should. -/
def RewrapOk (env : TextEnv) (segments : List Segment) (maxWidth : Nat)
    (rewrap : Text → List Segment → Option (List TextChunk)) : Prop :=
  ∀ seg ∈ segments, (env.graphemes seg.segment).length > 1 →
    ∃ chunks, rewrap seg.segment (env.graphemes seg.segment) = some chunks ∧
      Wrapped env seg.segment (env.graphemes seg.segment) maxWidth chunks

theorem wrapLoop_filling (hcuts : Cuts line segments) (hadd : Additive env line segments)
    {rewrap : Text → List Segment → Option (List TextChunk)} (hrewrap : RewrapOk env segments maxWidth rewrap)
    {front rest : List Segment} (hsegments : segments = front ++ rest) {p : Nat} (hrest : CutsFrom line p rest)
    {state : WrapState} (h : Filling env line segments maxWidth state p) (hne : p = 0 ∨ state.chunkStart < p) :
    ∃ state', wrapLoop env rewrap line maxWidth state rest = some state' ∧
      Filling env line segments maxWidth state' line.length ∧
      (line.length = 0 ∨ state'.chunkStart < line.length) := by
  induction rest generalizing front p state with
  | nil =>
    cases hrest
    exact ⟨state, rfl, h, hne⟩
  | cons seg rest ih =>
    have hseg : seg ∈ segments := by simp [hsegments]
    obtain ⟨hindex, -, -, hnext⟩ := hrest
    subst hindex
    have hlt := CutsFrom.lt_stop hcuts hseg
    have hmore : segments = (front ++ [seg]) ++ rest := by simp [hsegments]
    obtain ⟨hfilling, hroom⟩ := h.overflow hcuts hadd hseg
    rw [wrapLoop, wrapStep]
    by_cases hsplit : env.visibleWidth seg.segment > maxWidth ∧ (env.graphemes seg.segment).length > 1
    · obtain ⟨subChunks, hcall, hsub⟩ := hrewrap seg hseg hsplit.2
      have hstart := hroom.resolve_left (by omega)
      obtain ⟨htaken, hchunk⟩ := hfilling.takeSubChunks hcuts hadd hsegments hstart hsplit.2 hsub
      rw [if_pos hsplit, hcall, Option.map_some, Option.bind_some]
      exact ih hmore hnext htaken (.inr hchunk)
    · have htaken := hfilling.advance hcuts hadd hsegments hroom hsplit
      rw [if_neg hsplit, Option.bind_some]
      refine ih hmore hnext htaken (.inr ?_)
      rw [advance_chunkStart]
      exact hfilling.start_le.trans_lt hlt

theorem slice_zero_length (line : Text) : slice line 0 line.length = line := by
  rw [slice, List.take_length, List.drop_zero]

theorem slice_length_eq_drop (line : Text) (a : Nat) : slice line a line.length = line.drop a := by
  rw [slice, List.take_length]

theorem wrapped_single (hline : line ≠ []) (hcuts : Cuts line segments) (hfits : env.visibleWidth line ≤ maxWidth) :
    Wrapped env line segments maxWidth [⟨line, 0, line.length⟩] where
  covers := ⟨rfl, List.length_pos_of_ne_nil hline, (slice_zero_length line).symm, rfl⟩
  chunk := by
    intro chunk hmem
    rw [List.mem_singleton.mp hmem]
    refine ⟨.start segments, .inl hfits, ?_⟩
    intro hspaces first last hword hfirst hlast
    exact absurd hlast (not_lt.mpr (hword.last_le hcuts))
  overflows := fun chunk hmem => nomatch hmem

/-- The last chunk ends the line. -/
theorem Filling.wrapped (hcuts : Cuts line segments) {state : WrapState}
    (h : Filling env line segments maxWidth state line.length) (hlt : state.chunkStart < line.length) :
    Wrapped env line segments maxWidth
      (state.chunks ++ [⟨line.drop state.chunkStart, state.chunkStart, line.length⟩]) where
  covers := by
    have hcovers := h.covers.concat hlt
    rwa [slice_length_eq_drop] at hcovers
  chunk := by
    intro chunk hmem
    rcases List.mem_append.mp hmem with hmem | hmem
    · exact h.chunk chunk hmem
    · rw [List.mem_singleton.mp hmem]
      refine ⟨h.start_cut, ?_, ?_⟩
      · have hfits := h.fits
        rwa [slice_length_eq_drop] at hfits
      · intro hspaces first last hword hfirst hlast
        exact absurd hlast (not_lt.mpr (hword.last_le hcuts))
  overflows := by
    intro chunk hmem
    rw [List.dropLast_concat] at hmem
    exact h.overflows chunk hmem

/-- With calls nested as deep as the segments are long the line is wrapped. -/
theorem wordWrapWithin_wrapped (hgraphemes : ∀ text, text ≠ [] → Cuts text (env.graphemes text))
    (hwidth : 0 < maxWidth) {fuel : Nat} (hline : line ≠ []) (hcuts : Cuts line segments)
    (hadd : Additive env line segments) (hfuel : ∀ seg ∈ segments, seg.segment.length ≤ fuel) :
    ∃ chunks, wordWrapWithin env fuel line maxWidth segments = some chunks ∧
      Wrapped env line segments maxWidth chunks := by
  induction fuel generalizing line segments with
  | zero =>
    cases segments with
    | nil => exact absurd (List.eq_nil_of_length_eq_zero hcuts.symm) hline
    | cons seg rest =>
      have hle := hfuel seg List.mem_cons_self
      exact absurd (List.eq_nil_of_length_eq_zero (Nat.le_zero.mp hle)) hcuts.2.1
  | succ fuel ih =>
    rw [wordWrapWithin, if_neg (by simp [hline, hwidth.ne'])]
    by_cases hfits : env.visibleWidth line ≤ maxWidth
    · rw [if_pos hfits]
      exact ⟨_, rfl, wrapped_single hline hcuts hfits⟩
    · rw [if_neg hfits]
      have hrewrap : RewrapOk env segments maxWidth fun grapheme subSegments =>
          wordWrapWithin env fuel grapheme maxWidth subSegments := by
        intro seg hseg hmany
        have hne := (CutsFrom.of_mem hcuts hseg).2.2.2
        have hsubcuts := hgraphemes seg.segment hne
        refine ih hne hsubcuts (hadd.of_mem hcuts hgraphemes hseg) ?_
        -- one of several graphemes is shorter than the segment
        intro sub hsub
        have hshort := hsubcuts.length_lt hmany hsub
        have hle := hfuel seg hseg
        omega
      have hstart : Filling env line segments maxWidth ⟨[], 0, 0, none⟩ 0 := by
        have hzero := width_self hadd (.start segments)
        refine ⟨rfl, ?_, ?_, le_rfl, .start segments, hzero.symm, .inl (hzero.trans_le (Nat.zero_le _)), ?_, ?_⟩
        · intro chunk hmem
          cases hmem
        · intro chunk hmem
          cases hmem
        · intro idx w hopp
          cases hopp
        · intro hspaces x hx hxp
          change 0 < x at hx
          omega
      obtain ⟨state, hloop, hfilling, hlast⟩ :=
        wrapLoop_filling hcuts hadd hrewrap (List.nil_append segments).symm hcuts hstart (.inl rfl)
      rw [hloop, Option.map_some]
      have hpos := List.length_pos_of_ne_nil hline
      exact ⟨_, rfl, hfilling.wrapped hcuts (hlast.resolve_left hpos.ne')⟩

/-! ## The property -/

/-- The chunks are consecutive non-empty slices that cover the line, each no wider than the width unless it is a
single grapheme, and one ends inside a word only if the part of the word from its start or the start of the
chunk on is wider than the width. -/
structure Wraps (env : TextEnv) (line : Text) (segments : List Segment) (maxWidth : Nat) (chunks : List TextChunk) :
    Prop where
  covers : Covers line 0 chunks line.length
  fits : ∀ chunk ∈ chunks, Fits env maxWidth chunk.text
  words : ∀ chunk ∈ chunks, ∀ first last, IsWord segments first last → first < chunk.endIndex →
    chunk.endIndex < last → maxWidth < width env line (max first chunk.startIndex) last

/-- A line that is not empty is wrapped, whatever its segmentation, when white space comes in single graphemes. -/
theorem wordWrapLine_wraps (hgraphemes : ∀ text, text ≠ [] → Cuts text (env.graphemes text))
    (hline : line ≠ []) (hwidth : 0 < maxWidth) (hcuts : Cuts line segments) (hadd : Additive env line segments)
    (hspaces : ∀ seg ∈ segments, isBreakable seg = true → IsGrapheme env seg.segment) :
    ∃ chunks, wordWrapLine env line maxWidth segments = some chunks ∧ Wraps env line segments maxWidth chunks := by
  have hfuel : ∀ seg ∈ segments, seg.segment.length ≤ line.length + 1 := by
    intro seg hseg
    have hstop := (CutsFrom.of_mem hcuts hseg).2.1
    rw [Segment.stop] at hstop
    omega
  obtain ⟨chunks, hcall, hwrapped⟩ := wordWrapWithin_wrapped hgraphemes hwidth hline hcuts hadd hfuel
  refine ⟨chunks, hcall, hwrapped.covers, fun chunk hmem => (hwrapped.chunk chunk hmem).fits, ?_⟩
  exact fun chunk hmem => (hwrapped.chunk chunk hmem).words hspaces

/-- Every unit by itself, from an index on. -/
def unitSegments : (index : Nat) → Text → List Segment
  | _, [] => []
  | index, unit :: text => ⟨[unit], index, false⟩ :: unitSegments (index + 1) text

/-- Every unit is a grapheme of width one, as in printable ASCII. -/
def asciiEnv : TextEnv := ⟨List.length, unitSegments 0⟩

theorem cutsFrom_unitSegments (front text : Text) :
    CutsFrom (front ++ text) front.length (unitSegments front.length text) := by
  induction text generalizing front with
  | nil => simp [unitSegments, CutsFrom]
  | cons unit text ih =>
    have hrest := ih (front ++ [unit])
    rw [List.append_assoc, List.singleton_append, List.length_append, List.length_singleton] at hrest
    refine ⟨rfl, List.cons_ne_nil _ _, ?_, hrest⟩
    simp [slice, Segment.stop, List.take_append]

theorem cuts_unitSegments (text : Text) : Cuts text (unitSegments 0 text) := cutsFrom_unitSegments [] text

theorem asciiEnv_additive (line : Text) (segments : List Segment) : Additive asciiEnv line segments := by
  intro a b c _ _ _ hab hbc
  simp only [width, asciiEnv, slice, List.length_drop, List.length_take]
  omega

theorem isGrapheme_unit {text : Text} {index : Nat} {seg : Segment} (h : seg ∈ unitSegments index text) :
    IsGrapheme asciiEnv seg.segment := by
  induction text generalizing index with
  | nil => cases h
  | cons unit text ih =>
    rcases List.mem_cons.mp h with rfl | h
    · exact le_rfl
    · exact ih h

theorem wordWrapLine_wraps_ascii :
    ∃ chunks, wordWrapLine asciiEnv (ascii "ab cd") 3 (unitSegments 0 (ascii "ab cd")) = some chunks ∧
      Wraps asciiEnv (ascii "ab cd") (unitSegments 0 (ascii "ab cd")) 3 chunks :=
  wordWrapLine_wraps (fun text _ => cuts_unitSegments text) (by decide) (by decide) (cuts_unitSegments _)
    (asciiEnv_additive _ _) fun _ hseg _ => isGrapheme_unit hseg

/-- A segment with a blank in it that can be divided, then three letters. -/
def blankInside : List Segment := ⟨ascii "abc d", 0, false⟩ :: unitSegments 5 (ascii "xyz")

/-- The empty line gives an empty chunk; and behind a white-space segment that was wrapped by itself no opportunity
is recorded, so that the word `xyz` is broken at width 3 though it fits. -/
theorem wordWrapLine_not_wraps :
    wordWrapLine asciiEnv [] 3 [] = some [⟨[], 0, 0⟩] ∧ ¬ Covers [] 0 [⟨[], 0, 0⟩] 0 ∧
      Cuts (ascii "abc dxyz") blankInside ∧ Additive asciiEnv (ascii "abc dxyz") blankInside ∧
      wordWrapLine asciiEnv (ascii "abc dxyz") 3 blankInside =
        some [⟨ascii "abc", 0, 3⟩, ⟨ascii " dx", 3, 6⟩, ⟨ascii "yz", 6, 8⟩] ∧
      ¬ Wraps asciiEnv (ascii "abc dxyz") blankInside 3
        [⟨ascii "abc", 0, 3⟩, ⟨ascii " dx", 3, 6⟩, ⟨ascii "yz", 6, 8⟩] := by
  refine ⟨by decide, fun h => absurd h.2.1 (by decide), ?_, asciiEnv_additive _ _, by decide, ?_⟩
  · refine ⟨rfl, by decide, by decide, ?_⟩
    exact cutsFrom_unitSegments (ascii "abc d") (ascii "xyz")
  · intro h
    have hword : IsWord blankInside 5 8 :=
      ⟨[⟨ascii "abc d", 0, false⟩], unitSegments 5 (ascii "xyz"), [], rfl, by decide, by decide, by simp, by decide,
        by decide⟩
    have hwide := h.words ⟨ascii " dx", 3, 6⟩ (by simp) 5 8 hword (by decide) (by decide)
    exact absurd hwide (by decide)

end Tui.Components
