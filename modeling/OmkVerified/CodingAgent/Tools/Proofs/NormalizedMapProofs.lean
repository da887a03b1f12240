import OmkVerified.CodingAgent.Tools.Proofs.AppliedEditsProofs

/-!
# The map of a normalized content

The map has one span of the original for each code unit of the normalized text. The spans go forward, and together they
are the whole text but for the white space that is stripped. The normalized text is the one of the other function where
NFKC may be taken chunk by chunk.
-/

namespace CodingAgent.EditDiff

open Lib Lib.TrailingSpace

variable {unicode : Unicode} {text : Text}

/-! ## Cuts -/

/-- NFKC cuts the text behind each chunk: a chunk does not combine with what follows. -/
def CutByNfkc (unicode : Unicode) : List Text → Prop
  | [] => True
  | chunk :: rest =>
    unicode.nfkc (chunk ++ rest.flatten) = unicode.nfkc chunk ++ unicode.nfkc rest.flatten ∧ CutByNfkc unicode rest

instance : (cs : List Text) → Decidable (CutByNfkc unicode cs)
  | [] => .isTrue trivial
  | chunk :: rest =>
    have := instDecidableCutByNfkc rest
    inferInstanceAs (Decidable (unicode.nfkc (chunk ++ rest.flatten) =
      unicode.nfkc chunk ++ unicode.nfkc rest.flatten ∧ CutByNfkc unicode rest))

theorem nfkc_flatten (hempty : unicode.nfkc [] = []) {cs : List Text} (h : CutByNfkc unicode cs) :
    unicode.nfkc cs.flatten = cs.flatMap unicode.nfkc := by
  induction cs with
  | nil => exact hempty
  | cons chunk rest ih =>
    obtain ⟨hcut, hrest⟩ := h
    rw [List.flatten_cons, hcut, ih hrest, List.flatMap_cons]

theorem normalized_eq (unicode : Unicode) (text : Text) :
    (buildNormalizedContentMap unicode text).normalized =
      (strip ((chunks unicode text).flatMap unicode.nfkc)).map foldFuzzyChar := by
  rw [NormalizedContentMap.normalized, buildNormalizedContentMap_units, List.map_map,
    ← mapChunks_units 0 (chunks unicode text), ← stripMapped_units, List.map_map]
  rfl

/-! ## Offsets -/

theorem mapChunks_forward (i : Nat) (cs : List Text) :
    (mapChunks unicode i cs).Pairwise fun u v => u.startOffset ≤ v.startOffset ∧ u.endOffset ≤ v.endOffset := by
  induction cs generalizing i with
  | nil => exact List.Pairwise.nil
  | cons chunk cs ih =>
    refine List.pairwise_append.mpr ⟨?_, ih _, ?_⟩
    · rw [List.pairwise_map]
      exact List.pairwise_of_forall fun _ _ => ⟨le_rfl, le_rfl⟩
    · intro u hu v hv
      obtain ⟨unit, -, rfl⟩ := List.mem_map.mp hu
      have hge := startOffset_ge hv
      obtain ⟨-, c, -, -, -, hend⟩ := exists_chunk hv
      dsimp only
      omega

theorem startOffset_lt_endOffset {u : MappedUnit} (h : u ∈ (buildNormalizedContentMap unicode text).units) :
    u.startOffset < u.endOffset := by
  rw [buildNormalizedContentMap_units] at h
  obtain ⟨v, hv, rfl⟩ := List.mem_map.mp h
  obtain ⟨before, chunk, after, hchunks, -, hend⟩ := exists_chunk (mem_of_mem_stripMapped hv)
  have hchunk : chunk ∈ chunks unicode text := by simp [hchunks]
  have hpos := List.length_pos_of_ne_nil (ne_nil_of_mem_chunks hchunk)
  show v.startOffset < v.endOffset
  omega

theorem units_forward (unicode : Unicode) (text : Text) :
    (buildNormalizedContentMap unicode text).units.Pairwise fun u v =>
      u.startOffset ≤ v.startOffset ∧ u.endOffset ≤ v.endOffset := by
  rw [buildNormalizedContentMap_units, List.pairwise_map]
  exact (mapChunks_forward 0 _).sublist (kept_sublist _)

theorem mem_stripMapped {units : List MappedUnit} {u : MappedUnit} (h : u ∈ units) (hblank : isBlank u.unit = false) :
    u ∈ stripMapped [] units := by
  induction units with
  | nil => cases h
  | cons v units ih =>
    unfold stripMapped kept
    split_ifs with hdrop
    · rcases List.mem_cons.mp h with rfl | h
      · rw [hblank, Bool.false_and] at hdrop
        exact absurd hdrop Bool.false_ne_true
      · exact ih h
    · rcases List.mem_cons.mp h with rfl | h
      · exact List.mem_cons_self
      · exact List.mem_cons_of_mem v (ih h)

/-- The chunk at a position of the text. -/
theorem exists_chunk_at {cs : List Text} {p : Nat} (h : p < cs.flatten.length) : ∃ before chunk after,
    cs = before ++ chunk :: after ∧ before.flatten.length ≤ p ∧ p < before.flatten.length + chunk.length := by
  induction cs generalizing p with
  | nil => exact absurd h (Nat.not_lt_zero p)
  | cons chunk cs ih =>
    rw [List.flatten_cons, List.length_append] at h
    by_cases hp : p < chunk.length
    · exact ⟨[], chunk, cs, rfl, Nat.zero_le p, by simpa using hp⟩
    · obtain ⟨before, found, after, rfl, hge, hlt⟩ := ih (p := p - chunk.length) (by omega)
      refine ⟨chunk :: before, found, after, rfl, ?_, ?_⟩
      all_goals
        rw [List.flatten_cons, List.length_append]
        omega

/-- The text around a position, from `start` up to `stop`, is in the map, or nothing but white space is left of it. -/
structure Covered (unicode : Unicode) (text : Text) (p start stop : Nat) : Prop where
  inside : start ≤ p ∧ p < stop ∧ stop ≤ text.length
  mapped : (∃ u ∈ (buildNormalizedContentMap unicode text).units, u.startOffset = start ∧ u.endOffset = stop) ∨
    ∀ unit ∈ unicode.nfkc ((text.drop start).take (stop - start)), isBlank unit = true

theorem exists_covered {p : Nat} (h : p < text.length) : ∃ start stop, Covered unicode text p start stop := by
  have hflatten : (chunks unicode text).flatten = text := chunks_flatten text
  rw [← hflatten] at h
  obtain ⟨before, chunk, after, hchunks, hge, hlt⟩ := exists_chunk_at h
  have htext : text = before.flatten ++ (chunk ++ after.flatten) := by
    rw [← hflatten, hchunks, List.flatten_append, List.flatten_cons]
  have hslice : (text.drop before.flatten.length).take
      (before.flatten.length + chunk.length - before.flatten.length) = chunk := by
    rw [htext, List.drop_left, Nat.add_sub_cancel_left, List.take_left]
  refine ⟨before.flatten.length, before.flatten.length + chunk.length, ⟨hge, hlt, ?_⟩, ?_⟩
  · rw [htext, List.length_append, List.length_append]
    omega
  · by_cases hblank : ∀ unit ∈ unicode.nfkc chunk, isBlank unit = true
    · exact .inr (hslice.symm ▸ hblank)
    · simp only [not_forall, Bool.not_eq_true] at hblank
      obtain ⟨unit, hunit, hkeep⟩ := hblank
      have hmapped : (⟨unit, before.flatten.length, before.flatten.length + chunk.length⟩ : MappedUnit) ∈
          mapChunks unicode 0 (chunks unicode text) := by
        rw [hchunks, mapChunks_append, mapChunks, Nat.zero_add]
        exact List.mem_append_right _ (List.mem_append_left _ (List.mem_map_of_mem hunit))
      refine .inl ⟨⟨foldFuzzyChar unit, _, _⟩, ?_, rfl, rfl⟩
      rw [buildNormalizedContentMap_units]
      exact List.mem_map_of_mem (f := foldMapped) (mem_stripMapped hmapped hkeep)

/-! ## Intervals -/

/-- The units at the ends of a normalized interval, and its span in the original. -/
structure MappedInterval (map : NormalizedContentMap) (index length : Nat) (first last : MappedUnit) : Prop where
  atIndex : map.units[index]? = some first
  atEnd : map.units[index + length - 1]? = some last
  forward : first.startOffset < last.endOffset
  inside : last.endOffset ≤ map.originalLength
  span : mapNormalizedSpanToOriginal map index length = ⟨first.startOffset, last.endOffset - first.startOffset⟩

theorem exists_mappedInterval {index length : Nat} (hpos : 0 < length)
    (h : index + length ≤ (buildNormalizedContentMap unicode text).normalized.length) :
    ∃ first last, MappedInterval (buildNormalizedContentMap unicode text) index length first last := by
  rw [NormalizedContentMap.normalized, List.length_map] at h
  have hfirst : index < (buildNormalizedContentMap unicode text).units.length := by omega
  have hlast : index + length - 1 < (buildNormalizedContentMap unicode text).units.length := by omega
  set first := (buildNormalizedContentMap unicode text).units[index] with hf
  set last := (buildNormalizedContentMap unicode text).units[index + length - 1] with hl
  have hstart : first.startOffset ≤ last.startOffset := by
    by_cases hsame : index = index + length - 1
    · rw [hf, hl]
      simp only [← hsame, le_refl]
    · exact (List.pairwise_iff_getElem.mp (units_forward unicode text) _ _ hfirst hlast (by omega)).1
  have hforward := startOffset_lt_endOffset (List.getElem_mem hlast)
  refine ⟨first, last, List.getElem?_eq_getElem hfirst, List.getElem?_eq_getElem hlast, hstart.trans_lt hforward, ?_, ?_⟩
  · exact (mapped_offsets_le (List.getElem_mem hlast)).2
  · unfold mapNormalizedSpanToOriginal
    rw [List.getElem?_eq_getElem hfirst, List.getElem?_eq_getElem hlast]
    dsimp only
    rw [if_pos hpos]
    rfl

/-- The map of the text: its normalized text, and spans that go forward, cover the text and make spans of intervals. -/
structure MapsBack (unicode : Unicode) (text : Text) : Prop where
  normalized : (buildNormalizedContentMap unicode text).normalized = normalizeForFuzzyMatch unicode text
  monotone : (buildNormalizedContentMap unicode text).units.Pairwise fun u v =>
    u.startOffset ≤ v.startOffset ∧ u.endOffset ≤ v.endOffset
  covers : ∀ p < text.length, ∃ start stop, Covered unicode text p start stop
  intervals : ∀ index length, 0 < length →
    index + length ≤ (buildNormalizedContentMap unicode text).normalized.length →
      ∃ first last, MappedInterval (buildNormalizedContentMap unicode text) index length first last
  empty : ∀ index, (mapNormalizedSpanToOriginal (buildNormalizedContentMap unicode text) index 0).matchLength = 0 ∧
    (mapNormalizedSpanToOriginal (buildNormalizedContentMap unicode text) index 0).index ≤ text.length

/-- Where the chunks end at cuts of NFKC the map is the map of the other function's text. -/
theorem mapsBack_of_cut (hempty : unicode.nfkc [] = []) (hcut : CutByNfkc unicode (chunks unicode text)) :
    MapsBack unicode text where
  normalized := by
    have hnfkc := nfkc_flatten hempty hcut
    rw [chunks_flatten] at hnfkc
    rw [normalized_eq, normalizeForFuzzyMatch_eq, hnfkc]
  monotone := units_forward unicode text
  covers := fun p hp => exists_covered hp
  intervals := fun index length hpos h => exists_mappedInterval hpos h
  empty := by
    intro index
    have hstop := @mapNormalizedSpanToOriginal_stop_le unicode text index 0
    have hlength : (mapNormalizedSpanToOriginal (buildNormalizedContentMap unicode text) index 0).matchLength = 0 :=
      Nat.sub_self _
    unfold Span.stop at hstop
    exact ⟨hlength, by omega⟩

theorem mapsBack_ligature : MapsBack ligature (units "x ﬁ \ny") :=
  mapsBack_of_cut rfl (by decide +kernel)

/-- NFKC where the compatibility letters `ㄱ` and `ㅏ` stand alone or make the syllable `가`. -/
def compatibilityJamo : Unicode where
  nfkc text :=
    if text = [0x3131, 0x314f] then [0xac00]
    else text.map fun unit => if unit = 0x3131 then 0x1100 else if unit = 0x314f then 0x1161 else unit
  isCombiningMark _ := false

/-- The whole text is one syllable, and chunk by chunk it is two letters. -/
theorem compatibilityJamo_not_mapsBack : ¬ MapsBack compatibilityJamo [0x3131, 0x314f] := by
  intro h
  exact absurd h.normalized (by decide +kernel)

end CodingAgent.EditDiff
