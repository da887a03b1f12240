import OmkVerified.CodingAgent.Tools.Proofs.EditDiffProofs

/-!
# The span of a fuzzy match

A match in a normalized content is mapped back to the chunks that its units come from. The replaced text is
normalized to what was searched for exactly when nothing else comes from these chunks.
-/

namespace CodingAgent.EditDiff

open Lib Lib.TrailingSpace

variable {unicode : Unicode}

/-- The units `part` of a map, with those before and after them, among the chunks they come from: `head` and
`tail` come from the first and the last of these chunks. -/
structure ChunkCover (unicode : Unicode) (cs : List Text) (before part after : List MappedUnit)
    (first last : MappedUnit) (pre mid post : List Text)
    (outside head tail behind : List MappedUnit) : Prop where
  chunks_eq : cs = pre ++ mid ++ post
  start_eq : pre.flatten.length = first.startOffset
  end_eq : pre.flatten.length + mid.flatten.length = last.endOffset
  kept_mid : stripMapped behind (mapChunks unicode pre.flatten.length mid) = head ++ part ++ tail
  before_eq : before = outside ++ head
  after_eq : after = tail ++ behind
  outside_lt : ∀ u ∈ outside, u.startOffset < first.startOffset
  head_start : ∀ u ∈ head, u.startOffset = first.startOffset
  tail_start : ∀ u ∈ tail, u.startOffset = last.startOffset
  behind_gt : ∀ u ∈ behind, last.startOffset < u.startOffset

/-- The chunks between those of two units of a map. -/
theorem exists_mid {cs : List Text} (hcs : ∀ c ∈ cs, c ≠ []) {first last : MappedUnit}
    (hfirst : first ∈ mapChunks unicode 0 cs) (hlast : last ∈ mapChunks unicode 0 cs)
    (hle : first.startOffset ≤ last.startOffset) :
    ∃ pre between chunk post, cs = pre ++ (between ++ [chunk]) ++ post ∧
      pre.flatten.length = first.startOffset ∧
      pre.flatten.length + between.flatten.length = last.startOffset ∧
      last.startOffset + chunk.length = last.endOffset := by
  obtain ⟨pre, firstChunk, after, hpre, hstart, -⟩ := exists_chunk hfirst
  obtain ⟨pre', chunk, post, hpre', hstart', hend'⟩ := exists_chunk hlast
  rw [Nat.zero_add] at hstart hstart'
  have hprefix : pre <+: pre' := by
    rcases List.prefix_or_prefix_of_prefix (show pre <+: cs from ⟨_, hpre.symm⟩)
      (show pre' <+: cs from ⟨_, hpre'.symm⟩) with h | ⟨more, rfl⟩
    · exact h
    · cases more with
      | nil => rw [List.append_nil]
      | cons c more =>
        -- the last unit's chunk would lie before the first unit's
        have heq : chunk :: post = c :: (more ++ firstChunk :: after) := by
          rw [hpre, List.append_assoc] at hpre'
          exact (List.append_cancel_left hpre').symm
        have hpos := List.length_pos_of_ne_nil (hcs chunk (by rw [hpre']; simp))
        rw [List.flatten_append, List.flatten_cons, ← (List.cons.inj heq).1, List.length_append,
          List.length_append] at hstart
        omega
  obtain ⟨between, rfl⟩ := hprefix
  refine ⟨pre, between, chunk, post, ?_, hstart.symm, ?_, hend'.symm⟩
  · rw [hpre']
    simp
  · rw [hstart', List.flatten_append, List.length_append]

/-- Two units of a part that follow each other. -/
theorem startOffset_le_of_mem {before after : List MappedUnit} {part : List MappedUnit}
    {first last : MappedUnit}
    (hsorted : (before ++ part ++ after).Pairwise fun u v => u.startOffset ≤ v.startOffset)
    (hfirst : part.head? = some first) (hlast : part.getLast? = some last) :
    first.startOffset ≤ last.startOffset := by
  obtain ⟨rest, rfl⟩ := List.head?_eq_some_iff.mp hfirst
  have hpart := (List.pairwise_append.mp (List.pairwise_append.mp hsorted).1).2.1
  rcases List.mem_cons.mp (List.mem_of_mem_getLast? hlast) with rfl | hmem
  · exact le_rfl
  · exact (List.pairwise_cons.mp hpart).1 last hmem

/-- A part whose first element is not among those in front begins behind them. -/
theorem append_split_left {before part after front back : List MappedUnit} {first : MappedUnit}
    (h : before ++ part ++ after = front ++ back) (hfirst : part.head? = some first)
    (hnot : first ∉ front) : ∃ head, before = front ++ head ∧ back = head ++ part ++ after := by
  rw [List.append_assoc] at h
  rcases List.append_eq_append_iff.mp h with ⟨more, hfront, hrest⟩ | ⟨head, hbefore, hback⟩
  · cases more with
    | nil => exact ⟨[], by simpa using hfront.symm, by simpa using hrest.symm⟩
    | cons u more =>
      obtain ⟨rest, rfl⟩ := List.head?_eq_some_iff.mp hfirst
      obtain rfl : first = u := (List.cons.inj hrest).1
      exact absurd (hfront ▸ List.mem_append_right _ List.mem_cons_self) hnot
  · exact ⟨head, hbefore, by rw [hback, List.append_assoc]⟩

/-- A part whose last element is not among those behind ends in front of them. -/
theorem append_split_right {before part after front back : List MappedUnit} {last : MappedUnit}
    (h : before ++ part ++ after = front ++ back) (hlast : part.getLast? = some last)
    (hnot : last ∉ back) : ∃ tail, after = tail ++ back ∧ front = before ++ part ++ tail := by
  rcases List.append_eq_append_iff.mp h with ⟨tail, hfront, hafter⟩ | ⟨more, hpart, hback⟩
  · exact ⟨tail, hafter, hfront⟩
  · obtain ⟨most, rfl⟩ := List.getLast?_eq_some_iff.mp hlast
    rcases List.eq_nil_or_concat more with rfl | ⟨more, u, rfl⟩
    · exact ⟨[], by simpa using hback.symm, by simpa using hpart.symm⟩
    · rw [List.concat_eq_append, ← List.append_assoc, ← List.append_assoc] at hpart
      obtain rfl : last = u := by simpa using congrArg List.getLast? hpart
      exact absurd (hback ▸ List.mem_append_left _ (by simp)) hnot

theorem stripMapped_split (pre mid post : List Text) :
    stripMapped [] (mapChunks unicode 0 (pre ++ mid ++ post)) =
      let behind := stripMapped []
        (mapChunks unicode (pre.flatten.length + mid.flatten.length) post)
      let inside := stripMapped behind (mapChunks unicode pre.flatten.length mid)
      stripMapped (inside ++ behind) (mapChunks unicode 0 pre) ++ (inside ++ behind) := by
  rw [List.append_assoc, mapChunks_append, mapChunks_append, Nat.zero_add]
  unfold stripMapped
  rw [kept_append, kept_append, List.append_nil, List.append_nil]

theorem mem_of_mem_stripMapped {rest units : List MappedUnit} {u : MappedUnit}
    (h : u ∈ stripMapped rest units) : u ∈ units :=
  (kept_sublist units).subset h

/-- Every part of a map that is not empty lies among its chunks. -/
theorem exists_cover {cs : List Text} {before part after : List MappedUnit}
    {first last : MappedUnit} (hcs : ∀ c ∈ cs, c ≠ [])
    (hsplit : stripMapped [] (mapChunks unicode 0 cs) = before ++ part ++ after)
    (hfirst : part.head? = some first) (hlast : part.getLast? = some last) :
    ∃ pre mid post outside head tail behind, ChunkCover unicode cs before part after first last
      pre mid post outside head tail behind := by
  have hsorted : (before ++ part ++ after).Pairwise fun u v => u.startOffset ≤ v.startOffset :=
    hsplit ▸ (mapChunks_sorted 0 cs).sublist (kept_sublist _)
  have hmem : ∀ u ∈ part, u ∈ mapChunks unicode 0 cs := by
    intro u hu
    have hkept : u ∈ stripMapped [] (mapChunks unicode 0 cs) := by
      rw [hsplit]
      simp [hu]
    exact mem_of_mem_stripMapped hkept
  have hfirstMem : first ∈ part := List.mem_of_mem_head? hfirst
  have hlastMem : last ∈ part := List.mem_of_mem_getLast? hlast
  obtain ⟨pre, between, chunk, post, hchunks, hstart, hbetween, hend⟩ := exists_mid hcs
    (hmem first hfirstMem) (hmem last hlastMem) (startOffset_le_of_mem hsorted hfirst hlast)
  have hmid : pre.flatten.length + (between ++ [chunk]).flatten.length = last.endOffset := by
    rw [List.flatten_append, List.flatten_singleton, List.length_append]
    omega
  have hstrip := @stripMapped_split unicode pre (between ++ [chunk]) post
  rw [← hchunks, hsplit] at hstrip
  dsimp only at hstrip
  have hpre : ∀ c ∈ pre, c ≠ [] := fun c hc => hcs c (by rw [hchunks]; simp [hc])
  have hchunk : 0 < chunk.length := List.length_pos_of_ne_nil (hcs chunk (by rw [hchunks]; simp))
  have hmidNe : ∀ c ∈ between, c ≠ [] := fun c hc => hcs c (by rw [hchunks]; simp [hc])
  generalize houtside : stripMapped _ (mapChunks unicode 0 pre) = outside at hstrip
  generalize hbehind : stripMapped [] (mapChunks unicode
    (pre.flatten.length + (between ++ [chunk]).flatten.length) post) = behind at hstrip
  generalize hinside : stripMapped behind (mapChunks unicode pre.flatten.length
    (between ++ [chunk])) = inside at hstrip
  have houtsideLt : ∀ u ∈ outside, u.startOffset < first.startOffset := by
    intro u hu
    have hlt := startOffset_lt hpre (mem_of_mem_stripMapped (houtside ▸ hu))
    omega
  have hbehindGt : ∀ u ∈ behind, last.startOffset < u.startOffset := by
    intro u hu
    have hge := startOffset_ge (mem_of_mem_stripMapped (hbehind ▸ hu))
    omega
  obtain ⟨head, hbefore, hrest⟩ := append_split_left hstrip hfirst
    (fun hin => absurd (houtsideLt first hin) (lt_irrefl _))
  obtain ⟨tail, hafter, hkept⟩ := append_split_right hrest.symm hlast
    (fun hin => absurd (hbehindGt last hin) (lt_irrefl _))
  have hinsideMem : ∀ u ∈ inside, u ∈ mapChunks unicode pre.flatten.length (between ++ [chunk]) :=
    fun u hu => mem_of_mem_stripMapped (hinside ▸ hu)
  refine ⟨pre, between ++ [chunk], post, outside, head, tail, behind, hchunks, hstart, hmid,
    hinside.trans hkept, hbefore, hafter, houtsideLt, ?_, ?_, hbehindGt⟩
  · intro u hu
    have hge := startOffset_ge (hinsideMem u (by rw [hkept]; simp [hu]))
    have hle : u.startOffset ≤ first.startOffset := by
      rw [List.append_assoc] at hsorted
      exact (List.pairwise_append.mp hsorted).2.2 u (by rw [hbefore]; simp [hu]) first
        (List.mem_append_left _ hfirstMem)
    omega
  · intro u hu
    have hle : last.startOffset ≤ u.startOffset :=
      (List.pairwise_append.mp hsorted).2.2 last (List.mem_append_right _ hlastMem) u
        (by rw [hafter]; simp [hu])
    have hu' := hinsideMem u (by rw [hkept]; simp [hu])
    rw [mapChunks_append, List.mem_append] at hu'
    rcases hu' with hu' | hu'
    · have hlt := startOffset_lt hmidNe hu'
      omega
    · rw [mapChunks, mapChunks, List.append_nil] at hu'
      obtain ⟨unit, -, rfl⟩ := List.mem_map.mp hu'
      exact hbetween

/-! ## The replaced text -/

/-- Nothing before a match comes from the chunk that it begins in, and only white space behind it from the
chunk that it ends in. -/
def Aligned (units : List MappedUnit) (index length : Nat) : Prop :=
  0 < length →
    (∀ u ∈ units.take index, ∀ first ∈ units[index]?, u.startOffset ≠ first.startOffset) ∧
      ∀ u ∈ units.drop (index + length), ∀ last ∈ units[index + length - 1]?,
        u.startOffset = last.startOffset → isBlank u.unit = true

/-- The text of a span. -/
def spanText (content : Text) (span : Span) : Text :=
  (content.drop span.index).take span.matchLength

/-- The chunks of a span are normalized to the same units together as one by one. -/
def ChunkWise (unicode : Unicode) (content : Text) (span : Span) : Prop :=
  ∀ pre mid post, chunks unicode content = pre ++ mid ++ post → pre.flatten.length = span.index →
    mid.flatten.length = span.matchLength → unicode.nfkc mid.flatten = mid.flatMap unicode.nfkc

theorem rdropWhile_normalizeForFuzzyMatch (text : Text) :
    (normalizeForFuzzyMatch unicode text).rdropWhile isBlank = normalizeForFuzzyMatch unicode text := by
  rw [normalizeForFuzzyMatch_eq]
  generalize hstrip : strip (unicode.nfkc text) = stripped
  have hself : stripped.rdropWhile isBlank = stripped := by
    rw [← hstrip]
    exact rdropWhile_kept_nil _
  rw [List.rdropWhile_eq_self_iff] at hself ⊢
  intro hne
  have hne' : stripped ≠ [] := fun hnil => hne (by rw [hnil, List.map_nil])
  rw [List.getLast_map, isBlank_foldFuzzyChar]
  exact hself hne'

section Cover

variable {cs : List Text} {before part after : List MappedUnit} {first last : MappedUnit}
  {pre mid post : List Text} {outside head tail behind : List MappedUnit}

/-- The chunks under a part are normalized to the part when nothing else comes from them. -/
theorem ChunkCover.normalize_iff (h : ChunkCover unicode cs before part after first last pre mid post
    outside head tail behind)
    (hpart : (part.rdropWhile fun u => isBlank u.unit) = part) (hne : part ≠ []) :
    (strip (mid.flatMap unicode.nfkc)).map foldFuzzyChar = part.map (fun u => foldFuzzyChar u.unit) ↔
      head = [] ∧ ∀ u ∈ tail, isBlank u.unit = true := by
  have hkept : stripMapped [] (mapChunks unicode pre.flatten.length mid) =
      head ++ part ++ tail.rdropWhile fun u => isBlank u.unit := by
    have hfront : ((head ++ part).rdropWhile fun u => isBlank u.unit) = head ++ part := by
      rw [List.rdropWhile_eq_self_iff] at hpart ⊢
      intro _
      rw [List.getLast_append_of_ne_nil _ hne]
      exact hpart hne
    rw [← rdropWhile_append hfront, ← h.kept_mid]
    exact kept_nil _ _
  have hunits : (strip (mid.flatMap unicode.nfkc)).map foldFuzzyChar =
      (head ++ part ++ tail.rdropWhile fun u => isBlank u.unit).map fun u => foldFuzzyChar u.unit := by
    rw [← mapChunks_units pre.flatten.length mid, ← stripMapped_units, hkept, List.map_map]
    rfl
  rw [hunits]
  constructor
  · intro heq
    have hlen := congrArg List.length heq
    rw [List.length_map, List.length_map, List.length_append, List.length_append] at hlen
    have htail := List.eq_nil_of_length_eq_zero (show (tail.rdropWhile
      fun u => isBlank u.unit).length = 0 by omega)
    exact ⟨List.eq_nil_of_length_eq_zero (by omega), List.rdropWhile_eq_nil_iff.mp htail⟩
  · rintro ⟨rfl, htail⟩
    rw [List.rdropWhile_eq_nil_iff.mpr htail, List.nil_append, List.append_nil]

/-- What comes from the chunks of a part, said of the whole map. -/
theorem ChunkCover.aligned_iff (h : ChunkCover unicode cs before part after first last pre mid post
    outside head tail behind) :
    ((∀ u ∈ before, u.startOffset ≠ first.startOffset) ∧
      ∀ u ∈ after, u.startOffset = last.startOffset → isBlank u.unit = true) ↔
      head = [] ∧ ∀ u ∈ tail, isBlank u.unit = true := by
  rw [h.before_eq, h.after_eq]
  refine and_congr ?_ ?_
  · constructor
    · intro hall
      rw [List.eq_nil_iff_forall_not_mem]
      exact fun u hu => hall u (List.mem_append_right _ hu) (h.head_start u hu)
    · rintro rfl u hu
      rw [List.append_nil] at hu
      exact (h.outside_lt u hu).ne
  · constructor
    · exact fun hall u hu => hall u (List.mem_append_left _ hu) (h.tail_start u hu)
    · intro hall u hu hstart
      rcases List.mem_append.mp hu with hu | hu
      · exact hall u hu
      · exact absurd hstart (h.behind_gt u hu).ne'

/-- The text of the chunks under a part. -/
theorem ChunkCover.spanText_eq (h : ChunkCover unicode cs before part after first last pre mid post
    outside head tail behind) :
    spanText cs.flatten ⟨first.startOffset, last.endOffset - first.startOffset⟩ = mid.flatten := by
  have hlen : last.endOffset - first.startOffset = mid.flatten.length := by
    rw [← h.end_eq, ← h.start_eq, Nat.add_sub_cancel_left]
  rw [spanText, hlen, ← h.start_eq, h.chunks_eq, List.flatten_append, List.flatten_append,
    List.append_assoc, List.drop_left, List.take_left]

end Cover

variable {i : Nat}

theorem indexOf_eq_some {text piece : Text} (h : indexOf text piece = some i) :
    ∃ before after, text = before ++ piece ++ after ∧ before.length = i := by
  obtain ⟨⟨before, after⟩, hcut, hlen⟩ := Option.map_eq_some_iff.mp h
  exact ⟨before, after, cutFirst_eq_some hcut, hlen⟩

/-- The units before, in and behind a match. -/
theorem exists_match {content piece : Text}
    (h : indexOf (buildNormalizedContentMap unicode content).normalized piece = some i) :
    ∃ before part after,
      stripMapped [] (mapChunks unicode 0 (chunks unicode content)) = before ++ part ++ after ∧
        (buildNormalizedContentMap unicode content).units =
          before.map foldMapped ++ part.map foldMapped ++ after.map foldMapped ∧
        before.length = i ∧ part.map (fun u => foldFuzzyChar u.unit) = piece := by
  obtain ⟨left, right, hsplit, hlen⟩ := indexOf_eq_some h
  rw [NormalizedContentMap.normalized, buildNormalizedContentMap_units, List.map_map] at hsplit
  obtain ⟨most, after, hkept, hmost, -⟩ := List.map_eq_append_iff.mp hsplit
  obtain ⟨before, part, rfl, hbefore, hpart⟩ := List.map_eq_append_iff.mp hmost
  refine ⟨before, part, after, hkept, ?_, ?_, hpart⟩
  · rw [buildNormalizedContentMap_units, hkept, List.map_append, List.map_append]
  · rw [← hlen, ← hbefore, List.length_map]

/-- The units of a map around a match. -/
theorem units_around {units before part after : List MappedUnit} {first last : MappedUnit}
    (hunits : units = before.map foldMapped ++ part.map foldMapped ++ after.map foldMapped)
    (hlen : before.length = i) (hfirst : part.head? = some first)
    (hlast : part.getLast? = some last) :
    units.take i = before.map foldMapped ∧ units[i]? = some (foldMapped first) ∧
      units[i + part.length - 1]? = some (foldMapped last) ∧
        units.drop (i + part.length) = after.map foldMapped := by
  have hbefore : (before.map foldMapped).length = i := by rw [List.length_map, hlen]
  have hpart : (before.map foldMapped ++ part.map foldMapped).length = i + part.length := by
    rw [List.length_append, hbefore, List.length_map]
  have hpos : 0 < part.length := List.length_pos_of_mem (List.mem_of_mem_head? hfirst)
  refine ⟨?_, ?_, ?_, ?_⟩
  · rw [hunits, List.append_assoc]
    exact List.take_left' hbefore
  · rw [hunits, List.append_assoc, List.getElem?_append_right hbefore.le, hbefore, Nat.sub_self,
      ← List.head?_eq_getElem?, List.head?_append, List.head?_map, hfirst]
    rfl
  · rw [hunits, List.getElem?_append_left (by omega), ← hpart, ← List.getLast?_eq_getElem?,
      List.getLast?_append, List.getLast?_map, hlast]
    rfl
  · rw [hunits]
    exact List.drop_left' hpart

/-- An empty match is mapped to an empty span between two chunks. -/
theorem exists_empty_span (content : Text) (i : Nat) : ∃ pre post,
    chunks unicode content = pre ++ [] ++ post ∧ pre.flatten.length =
      (mapNormalizedSpanToOriginal (buildNormalizedContentMap unicode content) i 0).index := by
  unfold mapNormalizedSpanToOriginal
  cases hunit : (buildNormalizedContentMap unicode content).units[i]? with
  | none =>
    refine ⟨chunks unicode content, [], by simp, ?_⟩
    rw [chunks_flatten]
    rfl
  | some u =>
    have hmem := List.mem_of_getElem? hunit
    rw [buildNormalizedContentMap_units] at hmem
    obtain ⟨v, hv, rfl⟩ := List.mem_map.mp hmem
    obtain ⟨pre, chunk, post, hchunks, hstart, -⟩ := exists_chunk (mem_of_mem_stripMapped hv)
    refine ⟨pre, chunk :: post, by simpa using hchunks, ?_⟩
    rw [Nat.zero_add] at hstart
    exact hstart.symm

/-- A fuzzy match is replaced by its own text exactly when it is aligned with the chunks. -/
theorem normalize_spanText_iff {content oldText : Text}
    (h : indexOf (buildNormalizedContentMap unicode content).normalized
      (normalizeForFuzzyMatch unicode oldText) = some i)
    (hwise : ChunkWise unicode content (mapNormalizedSpanToOriginal
      (buildNormalizedContentMap unicode content) i
      (normalizeForFuzzyMatch unicode oldText).length)) :
    normalizeForFuzzyMatch unicode (spanText content (mapNormalizedSpanToOriginal
      (buildNormalizedContentMap unicode content) i (normalizeForFuzzyMatch unicode oldText).length)) =
        normalizeForFuzzyMatch unicode oldText ↔
      Aligned (buildNormalizedContentMap unicode content).units i
        (normalizeForFuzzyMatch unicode oldText).length := by
  have htrim := @rdropWhile_normalizeForFuzzyMatch unicode oldText
  generalize normalizeForFuzzyMatch unicode oldText = piece at *
  by_cases hempty : piece = []
  · subst hempty
    obtain ⟨pre, post, hchunks, hindex⟩ := @exists_empty_span unicode content i
    have hnil : unicode.nfkc [] = [] := hwise pre [] post hchunks hindex (by
      simp [mapNormalizedSpanToOriginal])
    refine iff_of_true ?_ (fun hpos => absurd hpos (Nat.lt_irrefl 0))
    have htext : spanText content (mapNormalizedSpanToOriginal
        (buildNormalizedContentMap unicode content) i ([] : Text).length) = [] := by
      unfold spanText mapNormalizedSpanToOriginal
      simp
    rw [htext, normalizeForFuzzyMatch_eq, hnil]
    rfl
  · obtain ⟨before, part, after, hsplit, hunits, hlen, hpart⟩ := exists_match h
    have hne : part ≠ [] := fun hnil => hempty (by rw [← hpart, hnil, List.map_nil])
    obtain ⟨first, hfirst⟩ := Option.isSome_iff_exists.mp (List.isSome_head?.mpr hne)
    obtain ⟨last, hlast⟩ := Option.isSome_iff_exists.mp (List.getLast?_isSome.mpr hne)
    obtain ⟨pre, mid, post, outside, head, tail, behind, hcover⟩ :=
      exists_cover (fun c => ne_nil_of_mem_chunks) hsplit hfirst hlast
    obtain ⟨htake, hhead, hlastUnit, hdrop⟩ := units_around hunits hlen hfirst hlast
    have hpartLen : part.length = piece.length := by rw [← hpart, List.length_map]
    rw [hpartLen] at hlastUnit hdrop
    have hpos : 0 < piece.length := List.length_pos_of_ne_nil hempty
    have hspan : mapNormalizedSpanToOriginal (buildNormalizedContentMap unicode content) i
        piece.length = ⟨first.startOffset, last.endOffset - first.startOffset⟩ := by
      unfold mapNormalizedSpanToOriginal
      simp only [hhead, hlastUnit, gt_iff_lt, hpos, if_true]
      rfl
    have htrim' : (part.rdropWhile fun u => isBlank u.unit) = part := by
      rw [← hpart, List.rdropWhile_eq_self_iff] at htrim
      rw [List.rdropWhile_eq_self_iff]
      intro _
      have hblank := htrim (by rwa [hpart])
      rwa [List.getLast_map, isBlank_foldFuzzyChar] at hblank
    have htext := hcover.spanText_eq
    rw [chunks_flatten] at htext
    rw [hspan] at hwise ⊢
    have hmid : unicode.nfkc mid.flatten = mid.flatMap unicode.nfkc := by
      refine hwise pre mid post hcover.chunks_eq hcover.start_eq ?_
      show mid.flatten.length = last.endOffset - first.startOffset
      rw [← hcover.end_eq, ← hcover.start_eq, Nat.add_sub_cancel_left]
    rw [htext, normalizeForFuzzyMatch_eq, hmid]
    conv_lhs => rhs; rw [← hpart]
    rw [hcover.normalize_iff htrim' hne, ← hcover.aligned_iff]
    unfold Aligned
    rw [htake, hhead, hlastUnit, hdrop]
    simp only [hpos, true_imp_iff, Option.mem_some, forall_eq', List.forall_mem_map, foldMapped,
      isBlank_foldFuzzyChar]

end CodingAgent.EditDiff

/-!
# The content after the edits

The replacements from the last edit to the first give the content with disjoint spans replaced. The spans of
edits that were matched fuzzily have the searched text when they are aligned with the chunks.
-/

namespace CodingAgent.EditDiff

open Lib

variable {unicode : Unicode}

/-! ## Disjoint spans -/

def Span.stop (span : Span) : Nat := span.index + span.matchLength

/-- The content from a position on, with the spans of the edits replaced. -/
def spliced (content : Text) : (position : Nat) → List MatchedEdit → Text
  | position, [] => content.drop position
  | position, edit :: rest =>
    (content.drop position).take (edit.span.index - position) ++ edit.newText ++
      spliced content edit.span.stop rest

/-- One span ends before the other begins. -/
def Precedes (a b : MatchedEdit) : Prop := a.span.stop ≤ b.span.index

/-- A content with disjoint spans replaced, one for each edit, and everything else kept in order. -/
def ReplacesSpans (content : Text) (matched : List MatchedEdit) (newContent : Text) : Prop :=
  ∃ ordered : List MatchedEdit, ordered.Perm matched ∧ ordered.Pairwise Precedes ∧
    (∀ edit ∈ ordered, edit.span.stop ≤ content.length) ∧ newContent = spliced content 0 ordered

/-- The replacements from the last edit on. -/
theorem foldr_replaceSpan (content : Text) (ordered : List MatchedEdit) (position : Nat)
    (hordered : ordered.Pairwise Precedes) (hfits : ∀ edit ∈ ordered, edit.span.stop ≤ content.length)
    (hposition : ∀ edit ∈ ordered, position ≤ edit.span.index) (hstart : position ≤ content.length) :
    ordered.foldr (fun edit content => replaceSpan content edit) content =
      content.take position ++ spliced content position ordered := by
  induction ordered generalizing position with
  | nil => exact (List.take_append_drop position content).symm
  | cons edit rest ih =>
    obtain ⟨hafter, hrest⟩ := List.pairwise_cons.mp hordered
    have hstop : edit.span.stop ≤ content.length := hfits edit List.mem_cons_self
    have hindex : edit.span.index ≤ edit.span.stop := Nat.le_add_right _ _
    have hle : position ≤ edit.span.index := hposition edit List.mem_cons_self
    rw [List.foldr_cons, ih edit.span.stop hrest
      (fun e he => hfits e (List.mem_cons_of_mem _ he)) hafter hstop]
    have hlen : (content.take edit.span.stop).length = edit.span.stop := List.length_take_of_le hstop
    have hfront : content.take position ++ (content.drop position).take (edit.span.index - position) =
        content.take edit.span.index := by
      rw [← List.take_add, Nat.add_sub_cancel' hle]
    unfold replaceSpan
    rw [spliced, ← List.append_assoc, ← List.append_assoc, hfront,
      List.take_append_of_le_length (by omega), List.take_take, Nat.min_eq_left hindex]
    exact congrArg (content.take edit.span.index ++ edit.newText ++ ·) (List.drop_left' hlen)

theorem isChain_of_findOverlap {edits : List MatchedEdit} (h : findOverlap edits = none) :
    edits.IsChain Precedes := by
  fun_induction findOverlap edits with
  | case1 => exact absurd h (Option.some_ne_none _)
  | case2 previous current rest hfits ih => exact List.IsChain.cons_cons (Nat.not_lt.mp hfits) (ih h)
  | case3 edits hshort =>
    match edits, hshort with
    | [], _ => exact List.IsChain.nil
    | [edit], _ => exact List.IsChain.singleton edit
    | previous :: current :: rest, hshort => exact absurd rfl (hshort previous current rest)

instance : Trans Precedes Precedes Precedes where
  trans {a b c} hab hbc := by
    unfold Precedes at hab hbc ⊢
    have hb : b.span.index ≤ b.span.stop := Nat.le_add_right _ _
    omega

variable {content : Text}

/-- A run that finds no overlap replaces disjoint spans. -/
theorem replacesSpans_of_findOverlap {matched : List MatchedEdit}
    (hoverlap : findOverlap (sortEdits matched) = none)
    (hfits : ∀ edit ∈ matched, edit.span.stop ≤ content.length) :
    ReplacesSpans content matched ((sortEdits matched).reverse.foldl replaceSpan content) := by
  have hperm : (sortEdits matched).Perm matched := List.perm_insertionSort _ matched
  have hpairwise : (sortEdits matched).Pairwise Precedes :=
    List.isChain_iff_pairwise.mp (isChain_of_findOverlap hoverlap)
  have hfits' : ∀ edit ∈ sortEdits matched, edit.span.stop ≤ content.length :=
    fun edit hedit => hfits edit (hperm.mem_iff.mp hedit)
  refine ⟨sortEdits matched, hperm, hpairwise, hfits', ?_⟩
  rw [List.foldl_reverse]
  exact foldr_replaceSpan content _ 0 hpairwise hfits' (fun _ _ => Nat.zero_le _) (Nat.zero_le _)

/-! ## Spans lie in the content -/

theorem mapped_offsets_le {u : MappedUnit}
    (h : u ∈ (buildNormalizedContentMap unicode content).units) :
    u.startOffset ≤ content.length ∧ u.endOffset ≤ content.length := by
  rw [buildNormalizedContentMap_units] at h
  obtain ⟨v, hv, rfl⟩ := List.mem_map.mp h
  have hmem := mem_of_mem_stripMapped hv
  have hend := endOffset_le hmem
  have hstart := startOffset_lt (fun c => ne_nil_of_mem_chunks) hmem
  rw [chunks_flatten, Nat.zero_add] at hend hstart
  exact ⟨hstart.le, hend⟩

theorem mapNormalizedSpanToOriginal_stop_le (content : Text) (index length : Nat) :
    (mapNormalizedSpanToOriginal (buildNormalizedContentMap unicode content) index length).stop ≤
      content.length := by
  have hstart : (((buildNormalizedContentMap unicode content).units[index]?).map (·.startOffset)).getD
      (buildNormalizedContentMap unicode content).originalLength ≤ content.length := by
    cases hunit : (buildNormalizedContentMap unicode content).units[index]? with
    | none => exact le_rfl
    | some u => exact (mapped_offsets_le (List.mem_of_getElem? hunit)).1
  have hend : ∀ start ≤ content.length, (((buildNormalizedContentMap unicode content).units[index +
      length - 1]?).map (·.endOffset)).getD start ≤ content.length := by
    intro start hle
    cases hunit : (buildNormalizedContentMap unicode content).units[index + length - 1]? with
    | none => exact hle
    | some u => exact (mapped_offsets_le (List.mem_of_getElem? hunit)).2
  have hend' := hend _ hstart
  unfold mapNormalizedSpanToOriginal Span.stop
  dsimp only
  split_ifs <;> omega

theorem fuzzyFindText_stop_le {oldText : Text} {result : FuzzyMatchResult}
    (h : fuzzyFindText unicode content oldText = some result) :
    result.span.stop ≤ content.length := by
  unfold fuzzyFindText at h
  cases hexact : indexOf content oldText with
  | some exactIndex =>
    rw [hexact] at h
    cases h
    obtain ⟨before, after, rfl, rfl⟩ := indexOf_eq_some hexact
    rw [List.length_append, List.length_append]
    exact Nat.le_add_right _ _
  | none =>
    rw [hexact] at h
    obtain ⟨i, -, rfl⟩ := Option.map_eq_some_iff.mp h
    exact mapNormalizedSpanToOriginal_stop_le content i _

/-! ## The edits of a run -/

/-- What one edit is to do: its span is the one that was found, and a span that was found fuzzily has the
text that was searched, up to the normalization. -/
def ReplacesOwnText (unicode : Unicode) (content : Text) (edit : Edit) (matched : MatchedEdit) : Prop :=
  ∃ usedFuzzyMatch, fuzzyFindText unicode content (normalizeToLF edit.oldText) =
      some ⟨matched.span, usedFuzzyMatch⟩ ∧ matched.newText = normalizeToLF edit.newText ∧
    (usedFuzzyMatch = true →
      normalizeForFuzzyMatch unicode (spanText content matched.span) = searchText unicode edit)

/-- What a run is to do: the content with disjoint spans replaced, one for each edit, each of them the text
of its edit. -/
def EditsFaithful (unicode : Unicode) (content : Text) (edits : List Edit) (newContent : Text) : Prop :=
  ∃ matched, List.Forall₂ (ReplacesOwnText unicode content) edits matched ∧
    ReplacesSpans content matched newContent

/-- The match of an edit that is only found fuzzily is aligned with the chunks of the content. -/
def EditAligned (unicode : Unicode) (content : Text) (edit : Edit) : Prop :=
  indexOf content (normalizeToLF edit.oldText) = none →
    ∀ i, indexOf (buildNormalizedContentMap unicode content).normalized (searchText unicode edit) =
        some i →
      Aligned (buildNormalizedContentMap unicode content).units i (searchText unicode edit).length

/-- The spans that are found fuzzily have the NFKC of their chunks. -/
def FuzzySpansChunkWise (unicode : Unicode) (content : Text) (edits : List Edit) : Prop :=
  ∀ edit ∈ edits, ∀ span, fuzzyFindText unicode content (normalizeToLF edit.oldText) =
    some ⟨span, true⟩ → ChunkWise unicode content span

/-- A span that was found has its own text exactly when the match is aligned. -/
theorem ownText_iff {edit : Edit} {span : Span} {usedFuzzyMatch : Bool}
    (hfound : fuzzyFindText unicode content (normalizeToLF edit.oldText) = some ⟨span, usedFuzzyMatch⟩)
    (hwise : ∀ span, fuzzyFindText unicode content (normalizeToLF edit.oldText) = some ⟨span, true⟩ →
      ChunkWise unicode content span) :
    (usedFuzzyMatch = true →
      normalizeForFuzzyMatch unicode (spanText content span) = searchText unicode edit) ↔
      EditAligned unicode content edit := by
  unfold EditAligned
  have hsearch := hfound
  unfold fuzzyFindText at hsearch
  cases hexact : indexOf content (normalizeToLF edit.oldText) with
  | some exactIndex =>
    simp only [hexact, Option.some.injEq, FuzzyMatchResult.mk.injEq] at hsearch
    obtain ⟨-, rfl⟩ := hsearch
    exact iff_of_true (fun h => nomatch h) (fun h => nomatch h)
  | none =>
    simp only [hexact] at hsearch
    obtain ⟨i, hi, hresult⟩ := Option.map_eq_some_iff.mp hsearch
    obtain ⟨hspan, rfl⟩ := FuzzyMatchResult.mk.inj hresult
    have hown := normalize_spanText_iff hi (hspan ▸ hwise _ hfound)
    rw [← hspan]
    unfold searchText
    rw [hi]
    simp only [true_imp_iff, Option.some.injEq, forall_eq']
    exact hown

theorem forall₂_of_forall_mem {α β : Type} {R S : α → β → Prop} {as : List α} {bs : List β}
    (h : List.Forall₂ R as bs) (himp : ∀ a ∈ as, ∀ b, R a b → S a b) : List.Forall₂ S as bs := by
  induction h with
  | nil => exact .nil
  | @cons a b as bs hfirst _ ih =>
    exact .cons (himp a List.mem_cons_self b hfirst)
      (ih fun c hc => himp c (List.mem_cons_of_mem _ hc))

/-- A run that succeeds replaces disjoint spans. -/
theorem applyEdits_replacesSpans {newContent : Text} {edits : List Edit}
    (h : applyEditsToNormalizedContent unicode content edits = .ok newContent) :
    ∃ matched, List.Forall₂ (fun edit => Located unicode content (normalizeEdit edit)) edits matched ∧
      ReplacesSpans content matched newContent := by
  obtain ⟨matched, hmatched, -, hoverlap, rfl⟩ := applyEdits_ok h
  have hlocated := matchEdits_located hmatched
  refine ⟨matched, List.forall₂_map_left_iff.mp hlocated, replacesSpans_of_findOverlap hoverlap ?_⟩
  intro edit hedit
  obtain ⟨_, -, hfound⟩ := exists_left hlocated hedit
  exact fuzzyFindText_stop_le hfound.found.choose_spec

/-- The edits of a run that succeeds replace disjoint spans, and their own texts exactly when the fuzzy
matches are aligned with the chunks of the content. -/
theorem edits_faithful_iff {content newContent : Text} {edits : List Edit}
    (h : applyEditsToNormalizedContent unicode content edits = .ok newContent)
    (hwise : FuzzySpansChunkWise unicode content edits) :
    EditsFaithful unicode content edits newContent ↔
      ∀ edit ∈ edits, EditAligned unicode content edit := by
  obtain ⟨matched, hlocated, hspans⟩ := applyEdits_replacesSpans h
  constructor
  · rintro ⟨replaced, hreplaced, -⟩ edit hedit
    obtain ⟨_, -, _, hfound, -, htext⟩ := exists_right hreplaced hedit
    exact (ownText_iff hfound (hwise edit hedit)).mp htext
  · intro haligned
    refine ⟨matched, forall₂_of_forall_mem hlocated ?_, hspans⟩
    intro edit hedit located hlocated
    obtain ⟨used, hfound⟩ := hlocated.found
    exact ⟨used, hfound, hlocated.newText_eq,
      (ownText_iff hfound (hwise edit hedit)).mpr (haligned edit hedit)⟩

theorem quoted_edit_faithful :
    applyEditsToNormalizedContent plain (units "“a”") [⟨units "\"a\"", units "b"⟩] =
      .ok (units "b") ∧
    FuzzySpansChunkWise plain (units "“a”") [⟨units "\"a\"", units "b"⟩] ∧
    (EditsFaithful plain (units "“a”") [⟨units "\"a\"", units "b"⟩] (units "b") ↔
      ∀ edit ∈ [(⟨units "\"a\"", units "b"⟩ : Edit)], EditAligned plain (units "“a”") edit) := by
  have hrun : applyEditsToNormalizedContent plain (units "“a”") [⟨units "\"a\"", units "b"⟩] =
      .ok (units "b") := by decide +kernel
  have hwise : FuzzySpansChunkWise plain (units "“a”") [⟨units "\"a\"", units "b"⟩] :=
    fun _ _ _ _ _ mid _ _ _ _ => show mid.flatten = mid.flatMap id from List.flatMap_id.symm
  exact ⟨hrun, hwise, edits_faithful_iff hrun hwise⟩

/-- NFKC where the ligature `ﬁ` stands among ASCII texts. -/
def ligature : Unicode := ⟨fun text => text.flatMap fun unit => if unit = 0xfb01 then [0x66, 0x69]
  else [unit], fun _ => false⟩

/-- A match that ends inside of `ﬁ` takes all of it away. -/
theorem match_inside_chunk :
    applyEditsToNormalizedContent ligature (units "xﬁy") [⟨units "xf", units "Q"⟩] = .ok (units "Qy") ∧
      ¬EditsFaithful ligature (units "xﬁy") [⟨units "xf", units "Q"⟩] (units "Qy") := by
  refine ⟨by decide +kernel, ?_⟩
  rintro ⟨matched, hmatched, -⟩
  obtain ⟨located, -, used, hfound, -, htext⟩ := exists_right hmatched List.mem_cons_self
  have hresult : fuzzyFindText ligature (units "xﬁy") (normalizeToLF (units "xf")) =
      some ⟨⟨0, 2⟩, true⟩ := by decide +kernel
  obtain ⟨hspan, hused⟩ := FuzzyMatchResult.mk.inj (Option.some.inj (hfound.symm.trans hresult))
  have hequal := htext hused
  rw [hspan] at hequal
  exact absurd hequal (by decide +kernel)

end CodingAgent.EditDiff
