import OmkVerified.Agent.Proofs.PathSegmentsProofs
import OmkVerified.CodingAgent.Session.PathPolicy

/-!
# Canonical session paths

A canonical path is the text of a drive, or of the root, and of segments that the policy keeps. It is its own canonical
form, and one path contains another where the segments of the first begin those of the second.
-/

namespace CodingAgent.SessionPathPolicy

open Lib
open Agent (driveAbsolute drivePrefix joinSegments normalizePathSlashes)

variable {toLowerCase : List Char → List Char} {platform : SessionPathPlatform} {refused : List Char → Bool}
  {raw key path : List Char} {segments collapsed result : List (List Char)} {parts : CanonicalParts}

/-! ## The loop over the segments -/

/-- A segment that the loop keeps. -/
structure Kept (refused : List Char → Bool) (segment : List Char) : Prop where
  proper : segment ≠ [] ∧ '/' ∉ segment
  ne_dot : segment ≠ ['.']
  ne_dots : segment ≠ ['.', '.']
  accepted : refused segment = false

theorem collapse_kept (h : ∀ segment ∈ segments, Kept refused segment) (collapsed : List (List Char)) :
    collapse refused segments collapsed = some (collapsed.reverse ++ segments) := by
  induction segments generalizing collapsed with
  | nil => rw [collapse, List.append_nil]
  | cons segment segments ih =>
    obtain ⟨hsegment, hrest⟩ := List.forall_mem_cons.mp h
    unfold collapse
    rw [if_neg hsegment.ne_dot, if_neg hsegment.ne_dots, hsegment.accepted, if_neg Bool.false_ne_true,
      ih hrest, List.reverse_cons, List.append_assoc, List.singleton_append]

/-- What is left is a part of the segments, in their order. -/
theorem collapse_eq_some (hsegments : ∀ segment ∈ segments, segment ≠ [] ∧ '/' ∉ segment)
    (hcollapsed : ∀ segment ∈ collapsed, Kept refused segment)
    (h : collapse refused segments collapsed = some result) :
    List.Sublist result (collapsed.reverse ++ segments) ∧ ∀ segment ∈ result, Kept refused segment := by
  induction segments generalizing collapsed with
  | nil =>
    rw [collapse, Option.some.injEq] at h
    subst h
    rw [List.append_nil]
    exact ⟨List.Sublist.refl _, fun segment hmem => hcollapsed segment (List.mem_reverse.mp hmem)⟩
  | cons segment segments ih =>
    obtain ⟨hsegment, hrest⟩ := List.forall_mem_cons.mp hsegments
    have hskip : List.Sublist (collapsed.reverse ++ segments) (collapsed.reverse ++ segment :: segments) :=
      List.Sublist.append (List.Sublist.refl _) (List.sublist_cons_self segment segments)
    unfold collapse at h
    split_ifs at h with hdot hdots hrefused
    · obtain ⟨hsub, hkept⟩ := ih hrest hcollapsed h
      exact ⟨hsub.trans hskip, hkept⟩
    · cases collapsed with
      | nil => cases h
      | cons last collapsed =>
        obtain ⟨hsub, hkept⟩ := ih hrest (List.forall_mem_cons.mp hcollapsed).2 h
        have hlast : List.Sublist (collapsed.reverse ++ segments) ((last :: collapsed).reverse ++ segments) := by
          rw [List.reverse_cons]
          exact List.Sublist.append (List.sublist_append_left _ _) (List.Sublist.refl _)
        exact ⟨(hsub.trans hlast).trans hskip, hkept⟩
    · have hkeep : Kept refused segment := ⟨hsegment, hdot, hdots, Bool.eq_false_iff.mpr hrefused⟩
      obtain ⟨hsub, hkept⟩ := ih hrest (List.forall_mem_cons.mpr ⟨hkeep, hcollapsed⟩) h
      rw [List.reverse_cons, List.append_assoc, List.singleton_append] at hsub
      exact ⟨hsub, hkept⟩

/-! ## Lengths -/

theorem utf16_append (front back : List Char) : utf16 (front ++ back) = utf16 front ++ utf16 back :=
  List.flatMap_append

theorem length_utf16_cons {c : Char} (hc : c.toNat < 0x10000) (text : List Char) :
    (utf16 (c :: text)).length = (utf16 text).length + 1 := by
  have hunits : utf16Units c = [c.toNat] := if_pos hc
  rw [utf16, List.flatMap_cons, hunits, List.singleton_append, List.length_cons, ← utf16]

/-- The units of the segments, with a slash before each. -/
def units (segments : List (List Char)) : Nat :=
  (segments.map fun segment => (utf16 segment).length + 1).sum

theorem units_joinSegments (h : segments ≠ []) : (utf16 (joinSegments segments)).length + 1 = units segments := by
  induction segments with
  | nil => exact absurd rfl h
  | cons segment segments ih =>
    rw [Agent.joinSegments_cons, units, List.map_cons, List.sum_cons, ← units]
    split_ifs with hrest
    · subst hrest
      rw [List.append_nil]
      rfl
    · rw [utf16_append, List.length_append, length_utf16_cons (by decide), ← ih hrest]
      omega

theorem units_splitSegments_le (path : List Char) : units (splitSegments path) ≤ (utf16 path).length + 1 := by
  have hjoin : joinSegments (path.splitOn '/') = path := List.intercalate_splitOn '/'
  have hunits := units_joinSegments (List.splitOn_ne_nil '/' path)
  rw [hjoin] at hunits
  rw [hunits]
  exact (List.filter_sublist.map _).sum_le_sum fun _ _ => Nat.zero_le _

theorem length_joinSegments_le (h : List.Sublist segments (splitSegments path)) :
    (utf16 (joinSegments segments)).length ≤ (utf16 path).length := by
  have hsum : units segments ≤ units (splitSegments path) := (h.map _).sum_le_sum fun _ _ => Nat.zero_le _
  have hpath := units_splitSegments_le path
  by_cases hsegments : segments = []
  · subst hsegments
    exact Nat.zero_le _
  · have hunits := units_joinSegments hsegments
    omega

theorem length_normalizePathSlashes (raw : List Char) :
    (utf16 (normalizePathSlashes raw)).length = (utf16 raw).length := by
  induction raw with
  | nil => rfl
  | cons c raw ih =>
    rw [normalizePathSlashes, List.map_cons, ← normalizePathSlashes]
    split_ifs with hc
    · subst hc
      rw [length_utf16_cons (by decide), length_utf16_cons (by decide), ih]
    · have hcons (text : List Char) : utf16 (c :: text) = utf16Units c ++ utf16 text := List.flatMap_cons
      rw [hcons, hcons, List.length_append, List.length_append, ih]

/-! ## Letters -/

variable {letter : Char}

theorem isLower_toLower (h : letter.isAlpha = true) : letter.toLower.isLower = true := by
  rw [Char.isAlpha, Bool.or_eq_true] at h
  unfold Char.toLower
  split
  · next hupper =>
    simp only [Char.isLower, Bool.and_eq_true, decide_eq_true_eq, ge_iff_le, UInt32.le_iff_toNat_le,
      UInt32.toNat_add] at hupper ⊢
    simp at hupper ⊢
    omega
  · next hupper =>
    rcases h with h | h
    · simp only [Char.isUpper, decide_eq_true_eq] at h
      exact absurd h hupper
    · exact h

theorem toLower_of_isLower (h : letter.isLower = true) : letter.toLower = letter := by
  unfold Char.toLower
  rw [dif_neg]
  rintro ⟨-, hle⟩
  simp only [Char.isLower, Bool.and_eq_true, decide_eq_true_eq, ge_iff_le, UInt32.le_iff_toNat_le] at h hle
  have hge := h.1
  simp at hge hle
  omega

theorem isAlpha_of_isLower (h : letter.isLower = true) : letter.isAlpha = true := by
  rw [Char.isAlpha, h, Bool.or_true]

theorem toNat_of_isLower (h : letter.isLower = true) : 97 ≤ letter.toNat ∧ letter.toNat ≤ 122 := by
  simp only [Char.isLower, Bool.and_eq_true, decide_eq_true_eq, ge_iff_le, UInt32.le_iff_toNat_le] at h
  exact h

theorem toNat_of_isAlpha (h : letter.isAlpha = true) : letter.toNat < 0x10000 := by
  simp only [Char.isAlpha, Char.isUpper, Char.isLower, Bool.or_eq_true, Bool.and_eq_true, decide_eq_true_eq,
    ge_iff_le, UInt32.le_iff_toNat_le] at h
  have hle : letter.val.toNat ≤ 122 := by
    rcases h with h | h
    · exact h.2.trans (by decide)
    · exact h.2
  exact hle.trans_lt (by decide)

/-! ## Canonical paths -/

/-- The path of a drive, or of the root, and the segments below it. -/
def CanonicalParts.text (parts : CanonicalParts) : List Char :=
  match parts.drive with
  | none => '/' :: joinSegments parts.segments
  | some letter => letter :: ':' :: '/' :: joinSegments parts.segments

/-- The segments that the platform refuses. -/
def refuses (toLowerCase : List Char → List Char) : SessionPathPlatform → List Char → Bool
  | .posix => fun _ => false
  | .win32 => fun segment => winHazard toLowerCase segment

/-- The drive and the segments of a canonical path. -/
structure CanonicalParts.Canonical (toLowerCase : List Char → List Char) (platform : SessionPathPlatform)
    (parts : CanonicalParts) : Prop where
  drive : match platform with
    | .posix => parts.drive = none
    | .win32 => ∃ letter, parts.drive = some letter ∧ letter.isLower = true ∧
      '\\' ∉ joinSegments parts.segments ∧ (joinSegments parts.segments).any isLineTerminator = false
  kept : ∀ segment ∈ parts.segments, Kept (refuses toLowerCase platform) segment
  short : (utf16 parts.text).length ≤ sessionPathMaxLength
  printable : ∀ c ∈ joinSegments parts.segments, isControlChar c = false

theorem splitSegments_eq (path : List Char) : splitSegments path = posixSegments path := Agent.pathSegments_eq path

theorem splitSegments_joinSegments (h : ∀ segment ∈ segments, segment ≠ [] ∧ '/' ∉ segment) :
    splitSegments (joinSegments segments) = segments := by
  have habsolute := posixSegments_absolutePath h
  rwa [absolutePath, Agent.posixSegments_cons, ← splitSegments_eq] at habsolute

theorem splitSegments_cons (path : List Char) : splitSegments ('/' :: path) = splitSegments path := by
  rw [splitSegments_eq, Agent.posixSegments_cons, ← splitSegments_eq]

theorem proper_of_mem_splitSegments : ∀ segment ∈ splitSegments path, segment ≠ [] ∧ '/' ∉ segment := by
  intro segment hmem
  rw [splitSegments_eq] at hmem
  exact mem_posixSegments hmem

theorem mem_of_mem_joinSegments (h : List.Sublist segments (splitSegments path)) {c : Char}
    (hc : c ∈ joinSegments segments) : c = '/' ∨ c ∈ path := by
  rcases Agent.mem_joinSegments hc with hslash | ⟨segment, hmem, hc⟩
  · exact .inl hslash
  · refine .inr (Agent.mem_of_mem_posixSegments ?_ hc)
    rw [← splitSegments_eq]
    exact h.subset hmem

theorem isControlChar_of_isLower (h : letter.isLower = true) : isControlChar letter = false := by
  obtain ⟨hge, hle⟩ := toNat_of_isLower h
  rw [isControlChar, decide_eq_false (by omega), decide_eq_false (by omega), Bool.or_false]

theorem CanonicalParts.Canonical.any_isControlChar (h : parts.Canonical toLowerCase platform) :
    parts.text.any isControlChar = false := by
  rw [List.any_eq_false]
  intro c hc
  rw [Bool.not_eq_true]
  have hslash : isControlChar '/' = false := by decide
  have hcolon : isControlChar ':' = false := by decide
  unfold CanonicalParts.text at hc
  split at hc
  · rcases List.mem_cons.mp hc with rfl | hc
    · exact hslash
    · exact h.printable c hc
  · next letter hletter =>
    rcases List.mem_cons.mp hc with rfl | hc
    · have hdrive := h.drive
      cases platform with
      | posix =>
        rw [hletter] at hdrive
        cases hdrive
      | win32 =>
        obtain ⟨found, hfound, hlower, -⟩ := hdrive
        rw [hletter] at hfound
        cases hfound
        exact isControlChar_of_isLower hlower
    · rcases List.mem_cons.mp hc with rfl | hc
      · exact hcolon
      · rcases List.mem_cons.mp hc with rfl | hc
        · exact hslash
        · exact h.printable c hc

theorem CanonicalParts.Canonical.proper (h : parts.Canonical toLowerCase platform) :
    ∀ segment ∈ parts.segments, segment ≠ [] ∧ '/' ∉ segment :=
  fun segment hmem => (h.kept segment hmem).proper

theorem canonicalizePosix_text (h : parts.Canonical toLowerCase .posix) :
    canonicalizePosix parts.text = some parts.text := by
  have hdrive : parts.drive = none := h.drive
  have hproper := h.proper
  have htext : parts.text = '/' :: joinSegments parts.segments := by
    rw [CanonicalParts.text, hdrive]
  have hcollapse : collapse (fun _ => false) parts.segments [] = some parts.segments := collapse_kept h.kept []
  rw [canonicalizePosix, htext, List.head?_cons, if_neg (by simp), splitSegments_cons,
    splitSegments_joinSegments hproper, hcollapse, Option.map_some]

theorem dropWhile_joined (h : ∀ segment ∈ segments, segment ≠ [] ∧ '/' ∉ segment) :
    ((joinSegments segments).dropWhile fun c => decide (c = '/')) = joinSegments segments := by
  cases segments with
  | nil => rfl
  | cons segment segments =>
    obtain ⟨⟨hne, hslash⟩, -⟩ := List.forall_mem_cons.mp h
    obtain ⟨c, rest, rfl⟩ := List.exists_cons_of_ne_nil hne
    rw [Agent.joinSegments_cons, List.cons_append, List.dropWhile_cons_of_neg]
    intro hc
    exact hslash (of_decide_eq_true hc ▸ List.mem_cons_self)

theorem canonicalizeWin32_text (h : parts.Canonical toLowerCase .win32) :
    canonicalizeWin32 toLowerCase parts.text = some parts.text := by
  obtain ⟨letter, hdrive, hlower, hback, hline⟩ := h.drive
  have halpha := isAlpha_of_isLower hlower
  have hproper := h.proper
  have htext : parts.text = letter :: ':' :: '/' :: joinSegments parts.segments := by
    rw [CanonicalParts.text, hdrive]
  have hslashes : '\\' ∉ letter :: ':' :: '/' :: joinSegments parts.segments := by
    intro hmem
    rcases List.mem_cons.mp hmem with rfl | hmem
    · exact absurd halpha (by decide)
    · simp [hback] at hmem
  have hne : ('/' == letter) = false := by
    rw [beq_eq_false_iff_ne]
    rintro rfl
    exact absurd halpha (by decide)
  have hprefix (more : List Char) :
      ( '/' :: more).isPrefixOf (letter :: ':' :: '/' :: joinSegments parts.segments) = false := by
    rw [List.isPrefixOf, hne, Bool.false_and]
  have hcollapse : collapse (winHazard toLowerCase) parts.segments [] = some parts.segments := collapse_kept h.kept []
  unfold canonicalizeWin32
  dsimp only
  rw [htext, Agent.normalizePathSlashes_eq hslashes, hprefix, hprefix, hprefix, Bool.or_false,
    if_neg Bool.false_ne_true, if_neg Bool.false_ne_true, Agent.driveAbsolute_cons halpha, dropWhile_joined hproper,
    hline, if_neg Bool.false_ne_true]
  dsimp only
  rw [splitSegments_joinSegments hproper, hcollapse, Option.map_some, toLower_of_isLower hlower]

theorem canonicalizeSessionPath_text (h : parts.Canonical toLowerCase platform) :
    canonicalizeSessionPath toLowerCase parts.text platform = some parts.text := by
  have hpos : (utf16 parts.text).length ≠ 0 := by
    have hdrive := h.drive
    cases platform with
    | posix =>
      have hnone : parts.drive = none := hdrive
      rw [CanonicalParts.text, hnone, length_utf16_cons (by decide)]
      omega
    | win32 =>
      obtain ⟨letter, hsome, hlower, -⟩ := hdrive
      obtain ⟨-, hle⟩ := toNat_of_isLower hlower
      rw [CanonicalParts.text, hsome, length_utf16_cons (by omega)]
      omega
  have hshort := h.short
  unfold canonicalizeSessionPath
  rw [decide_eq_false hpos, decide_eq_false (by omega), Bool.or_false, if_neg Bool.false_ne_true,
    h.any_isControlChar, if_neg Bool.false_ne_true]
  cases platform with
  | posix => exact canonicalizePosix_text h
  | win32 => exact canonicalizeWin32_text h

theorem mem_normalizePathSlashes {c : Char} (h : c ∈ normalizePathSlashes raw) : c = '/' ∨ c ∈ raw := by
  obtain ⟨d, hd, hc⟩ := List.mem_map.mp h
  split_ifs at hc
  · exact .inl hc.symm
  · exact .inr (hc ▸ hd)

/-- What `driveAbsolute` finds: a letter, a colon, slashes and the rest of the path. -/
theorem driveAbsolute_eq_some (h : driveAbsolute raw = some (letter, path)) :
    letter.isAlpha = true ∧ (∃ slashes, raw = letter :: ':' :: '/' :: (slashes ++ path)) ∧
      path.any isLineTerminator = false := by
  unfold driveAbsolute at h
  split at h
  · next found rest hprefix =>
    obtain ⟨halpha, hraw⟩ := Agent.isAlpha_of_drivePrefix hprefix
    dsimp only at h
    split_ifs at h with hline
    cases h
    refine ⟨halpha, ⟨rest.takeWhile fun c => decide (c = '/'), ?_⟩, Bool.eq_false_iff.mpr hline⟩
    rw [hraw, List.takeWhile_append_dropWhile]
  · cases h

theorem length_joined_le {front : List Char} (h : List.Sublist segments (splitSegments path)) :
    (utf16 (joinSegments segments)).length ≤ (utf16 (front ++ path)).length := by
  have hle := length_joinSegments_le h
  rw [utf16_append, List.length_append]
  omega

theorem canonicalizePosix_eq_some (hshort : (utf16 raw).length ≤ sessionPathMaxLength)
    (hprintable : ∀ c ∈ raw, isControlChar c = false) (h : canonicalizePosix raw = some key) :
    ∃ parts : CanonicalParts, parts.Canonical toLowerCase .posix ∧ parts.text = key := by
  unfold canonicalizePosix at h
  split_ifs at h with hhead
  rw [Decidable.not_not] at hhead
  obtain ⟨rest, rfl⟩ := List.head?_eq_some_iff.mp hhead
  obtain ⟨segments, hcollapse, rfl⟩ := Option.map_eq_some_iff.mp h
  obtain ⟨hsub, hkept⟩ := collapse_eq_some proper_of_mem_splitSegments (by simp) hcollapse
  rw [List.reverse_nil, List.nil_append, splitSegments_cons] at hsub
  refine ⟨⟨none, segments⟩, ⟨rfl, hkept, ?_, ?_⟩, rfl⟩
  · have hlength := length_joinSegments_le hsub
    rw [length_utf16_cons (by decide)] at hshort
    have htext : (utf16 ('/' :: joinSegments segments)).length = (utf16 (joinSegments segments)).length + 1 :=
      length_utf16_cons (by decide) _
    exact htext.trans_le (by omega)
  · intro c hc
    rcases mem_of_mem_joinSegments hsub hc with rfl | hc
    · exact hprintable '/' List.mem_cons_self
    · exact hprintable c (List.mem_cons_of_mem '/' hc)

theorem canonicalizeWin32_eq_some (hshort : (utf16 raw).length ≤ sessionPathMaxLength)
    (hprintable : ∀ c ∈ raw, isControlChar c = false) (h : canonicalizeWin32 toLowerCase raw = some key) :
    ∃ parts : CanonicalParts, parts.Canonical toLowerCase .win32 ∧ parts.text = key := by
  unfold canonicalizeWin32 at h
  dsimp only at h
  split_ifs at h with hnamespace hunc
  split at h
  · cases h
  · next letter path hdrive =>
    obtain ⟨halpha, ⟨slashes, hraw⟩, hline⟩ := driveAbsolute_eq_some hdrive
    obtain ⟨segments, hcollapse, rfl⟩ := Option.map_eq_some_iff.mp h
    obtain ⟨hsub, hkept⟩ := collapse_eq_some proper_of_mem_splitSegments (by simp) hcollapse
    rw [List.reverse_nil, List.nil_append] at hsub
    have hlower := isLower_toLower halpha
    have hpath {c : Char} (hc : c ∈ path) : c ∈ normalizePathSlashes raw := by
      rw [hraw]
      exact List.mem_cons_of_mem _ (List.mem_cons_of_mem _ (List.mem_cons_of_mem _ (List.mem_append_right slashes hc)))
    refine ⟨⟨some letter.toLower, segments⟩, ⟨⟨letter.toLower, rfl, hlower, ?_, ?_⟩, hkept, ?_, ?_⟩, rfl⟩
    · intro hback
      rcases mem_of_mem_joinSegments hsub hback with hslash | hback
      · exact absurd hslash (by decide)
      · exact Agent.notMem_normalizePathSlashes raw (hpath hback)
    · rw [List.any_eq_false] at hline ⊢
      intro c hc
      rcases mem_of_mem_joinSegments hsub hc with rfl | hc
      · decide
      · exact hline c hc
    · have hlength := length_normalizePathSlashes raw
      have hjoin := @length_joined_le _ _ slashes hsub
      have hlowered := (toNat_of_isLower hlower).2
      rw [hraw, length_utf16_cons (toNat_of_isAlpha halpha), length_utf16_cons (by decide),
        length_utf16_cons (by decide)] at hlength
      have htext : (utf16 (letter.toLower :: ':' :: '/' :: joinSegments segments)).length =
          (utf16 (joinSegments segments)).length + 3 := by
        rw [length_utf16_cons (by omega), length_utf16_cons (by decide), length_utf16_cons (by decide)]
      exact htext.trans_le (by omega)
    · intro c hc
      rcases mem_of_mem_joinSegments hsub hc with rfl | hc
      · decide
      · rcases mem_normalizePathSlashes (hpath hc) with rfl | hc
        · decide
        · exact hprintable c hc

theorem canonicalizeSessionPath_eq_some (h : canonicalizeSessionPath toLowerCase raw platform = some key) :
    ∃ parts : CanonicalParts, parts.Canonical toLowerCase platform ∧ parts.text = key := by
  unfold canonicalizeSessionPath at h
  split_ifs at h with hlength hcontrol
  rw [Bool.or_eq_true, decide_eq_true_eq, decide_eq_true_eq, not_or, not_lt] at hlength
  have hprintable : ∀ c ∈ raw, isControlChar c = false := by
    intro c hc
    by_contra hctl
    exact hcontrol (List.any_eq_true.mpr ⟨c, hc, Bool.not_eq_false _ ▸ hctl⟩)
  cases platform with
  | posix => exact canonicalizePosix_eq_some hlength.2 hprintable h
  | win32 => exact canonicalizeWin32_eq_some hlength.2 hprintable h

theorem parseCanonical_text (h : parts.Canonical toLowerCase platform) :
    parseCanonical parts.text platform = some parts := by
  have hsegments := splitSegments_joinSegments h.proper
  cases platform with
  | posix =>
    have hdrive : parts.drive = none := h.drive
    have htext : parts.text = '/' :: joinSegments parts.segments := by
      rw [CanonicalParts.text, hdrive]
    rw [htext, parseCanonical, List.head?_cons, if_neg (by simp), splitSegments_cons, hsegments, ← hdrive]
  | win32 =>
    obtain ⟨letter, hdrive, hlower, -, hline⟩ := h.drive
    have htext : parts.text = letter :: ':' :: '/' :: joinSegments parts.segments := by
      rw [CanonicalParts.text, hdrive]
    rw [htext, parseCanonical, hlower, hline, Bool.not_false, Bool.and_true, if_pos rfl, hsegments, ← hdrive]

/-! ## Containment -/

/-- The canonical form of a path, as its drive and its segments. -/
structure Names (toLowerCase : List Char → List Char) (platform : SessionPathPlatform) (raw : List Char)
    (parts : CanonicalParts) : Prop where
  canonical : parts.Canonical toLowerCase platform
  text : canonicalizeSessionPath toLowerCase raw platform = some parts.text

/-- A segment as the platform compares it. -/
def fold (toLowerCase : List Char → List Char) : SessionPathPlatform → List Char → List Char
  | .posix => id
  | .win32 => toLowerCase

/-- One path is the root of the other or is above it. -/
structure CanonicalParts.Above (toLowerCase : List Char → List Char) (platform : SessionPathPlatform)
    (root candidate : CanonicalParts) : Prop where
  drive : root.drive = candidate.drive
  segments : root.segments.map (fold toLowerCase platform) <+: candidate.segments.map (fold toLowerCase platform)

variable {root candidate : CanonicalParts} {a b c : List Char}

theorem Names.of_eq_some (h : canonicalizeSessionPath toLowerCase raw platform = some key) :
    ∃ parts, Names toLowerCase platform raw parts ∧ parts.text = key := by
  obtain ⟨parts, hcanonical, rfl⟩ := canonicalizeSessionPath_eq_some h
  exact ⟨parts, ⟨hcanonical, h⟩, rfl⟩

theorem Names.parsed (h : Names toLowerCase platform raw parts) :
    (canonicalizeSessionPath toLowerCase raw platform).bind (parseCanonical · platform) = some parts := by
  rw [h.text, Option.bind_some, parseCanonical_text h.canonical]

theorem parsed_eq_some
    (h : (canonicalizeSessionPath toLowerCase raw platform).bind (parseCanonical · platform) = some parts) :
    Names toLowerCase platform raw parts := by
  obtain ⟨key, hkey, hparse⟩ := Option.bind_eq_some_iff.mp h
  obtain ⟨found, hfound, rfl⟩ := Names.of_eq_some hkey
  rw [parseCanonical_text hfound.canonical, Option.some.injEq] at hparse
  exact hparse ▸ hfound

theorem Names.unique (h : Names toLowerCase platform raw root) (h' : Names toLowerCase platform raw candidate) :
    root = candidate := by
  have hparsed := h.parsed
  rw [h'.parsed, Option.some.injEq] at hparsed
  exact hparsed.symm

theorem segmentEqual_iff (left right : List Char) :
    segmentEqual toLowerCase left right platform = true ↔
      fold toLowerCase platform left = fold toLowerCase platform right := by
  cases platform
  · exact decide_eq_true_iff
  · exact decide_eq_true_iff

theorem segmentsBegin_iff (left right : List (List Char)) :
    segmentsBegin toLowerCase platform left right = true ↔
      left.map (fold toLowerCase platform) <+: right.map (fold toLowerCase platform) := by
  induction left generalizing right with
  | nil => simp [segmentsBegin]
  | cons first left ih =>
    cases right with
    | nil => simp [segmentsBegin]
    | cons second right =>
      rw [segmentsBegin, Bool.and_eq_true, segmentEqual_iff, ih, List.map_cons, List.map_cons, List.cons_prefix_cons]

theorem partsContain_iff (root candidate : CanonicalParts) :
    partsContain toLowerCase root candidate platform = true ↔ root.Above toLowerCase platform candidate := by
  unfold partsContain
  split_ifs with hdrive hlength
  · exact iff_of_false not_false fun h => hdrive h.drive
  · refine iff_of_false not_false fun h => ?_
    have hle := h.segments.length_le
    rw [List.length_map, List.length_map] at hle
    omega
  · rw [Decidable.not_not] at hdrive
    rw [segmentsBegin_iff]
    exact ⟨fun h => ⟨hdrive, h⟩, fun h => h.segments⟩

/-- A path contains another where its drive is the same and its segments begin the other's. -/
theorem sessionPathContains_iff (a b : List Char) :
    sessionPathContains toLowerCase a b platform = true ↔
      ∃ root candidate, Names toLowerCase platform a root ∧ Names toLowerCase platform b candidate ∧
        root.Above toLowerCase platform candidate := by
  unfold sessionPathContains
  split
  · next root candidate hroot hcandidate =>
    rw [partsContain_iff]
    constructor
    · intro habove
      exact ⟨root, candidate, parsed_eq_some hroot, parsed_eq_some hcandidate, habove⟩
    · rintro ⟨root', candidate', hroot', hcandidate', habove⟩
      rwa [(parsed_eq_some hroot).unique hroot', (parsed_eq_some hcandidate).unique hcandidate']
  · next hnone =>
    refine iff_of_false Bool.false_ne_true ?_
    rintro ⟨root, candidate, hroot, hcandidate, -⟩
    exact hnone root candidate hroot.parsed hcandidate.parsed

theorem CanonicalParts.Above.refl (parts : CanonicalParts) : parts.Above toLowerCase platform parts :=
  ⟨rfl, List.prefix_refl _⟩

theorem CanonicalParts.Above.trans {first second third : CanonicalParts} (h : first.Above toLowerCase platform second)
    (h' : second.Above toLowerCase platform third) : first.Above toLowerCase platform third :=
  ⟨h.drive.trans h'.drive, h.segments.trans h'.segments⟩

/-- Canonicalization is idempotent, and containment is the order of the segment lists. -/
structure SessionPathLaws (toLowerCase : List Char → List Char) (platform : SessionPathPlatform) : Prop where
  idempotent : ∀ raw key, canonicalizeSessionPath toLowerCase raw platform = some key →
    canonicalizeSessionPath toLowerCase key platform = some key
  contains_iff : ∀ a b, sessionPathContains toLowerCase a b platform = true ↔
    ∃ root candidate, Names toLowerCase platform a root ∧ Names toLowerCase platform b candidate ∧
      root.Above toLowerCase platform candidate
  reflexive : ∀ raw key, canonicalizeSessionPath toLowerCase raw platform = some key →
    sessionPathContains toLowerCase key key platform = true
  transitive : ∀ a b c, sessionPathContains toLowerCase a b platform = true →
    sessionPathContains toLowerCase b c platform = true → sessionPathContains toLowerCase a c platform = true

theorem sessionPath_laws (toLowerCase : List Char → List Char) (platform : SessionPathPlatform) :
    SessionPathLaws toLowerCase platform where
  idempotent := by
    intro raw key h
    obtain ⟨parts, hcanonical, rfl⟩ := canonicalizeSessionPath_eq_some h
    exact canonicalizeSessionPath_text hcanonical
  contains_iff := sessionPathContains_iff
  reflexive := by
    intro raw key h
    obtain ⟨parts, hcanonical, rfl⟩ := canonicalizeSessionPath_eq_some h
    have hnames : Names toLowerCase platform parts.text parts := ⟨hcanonical, canonicalizeSessionPath_text hcanonical⟩
    exact (sessionPathContains_iff _ _).mpr ⟨parts, parts, hnames, hnames, .refl parts⟩
  transitive := by
    intro a b c hab hbc
    obtain ⟨first, second, ha, hb, hfirst⟩ := (sessionPathContains_iff a b).mp hab
    obtain ⟨second', third, hb', hc, hsecond⟩ := (sessionPathContains_iff b c).mp hbc
    have hsame := hb.unique hb'
    subst hsame
    exact (sessionPathContains_iff a c).mpr ⟨first, third, ha, hc, hfirst.trans hsecond⟩

end CodingAgent.SessionPathPolicy
