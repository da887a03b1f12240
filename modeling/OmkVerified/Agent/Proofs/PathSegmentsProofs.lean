import OmkVerified.Agent.Proofs.BuiltinClaimsProofs

/-!
# Canonical lexical paths

The overlap test compares the segments of canonical paths without case. A canonical path is its own canonical form,
unless the segments before it hid a drive: `./C:foo` is the relative path `C:foo`, and that has no canonical form.
-/

namespace Agent

open Lib

variable {toLowerCase : List Char → List Char} {raw key path left right : List Char}
  {segments collapsed : List (List Char)}

/-! ## Overlap -/

/-- The segments on the left begin those on the right, up to case. -/
def CaselessPrefix (toLowerCase : List Char → List Char) (left right : List (List Char)) : Prop :=
  left.map toLowerCase <+: right.map toLowerCase

theorem commonSegmentsAgree_iff (left right : List (List Char)) :
    commonSegmentsAgree toLowerCase left right = true ↔
      CaselessPrefix toLowerCase left right ∨ CaselessPrefix toLowerCase right left := by
  unfold CaselessPrefix
  induction left generalizing right with
  | nil => simp [commonSegmentsAgree]
  | cons a left ih =>
    cases right with
    | nil => simp [commonSegmentsAgree]
    | cons b right =>
      simp only [commonSegmentsAgree, Bool.and_eq_true, decide_eq_true_eq, ih, List.map_cons, List.cons_prefix_cons]
      constructor
      · rintro ⟨hab, hleft | hright⟩
        · exact .inl ⟨hab, hleft⟩
        · exact .inr ⟨hab.symm, hright⟩
      · rintro (⟨hab, hleft⟩ | ⟨hba, hright⟩)
        · exact ⟨hab, .inl hleft⟩
        · exact ⟨hba.symm, .inr hright⟩

/-- Rooted paths of one drive overlap where one of them contains the other. -/
theorem partsOverlap_iff {left right : CanonicalPathParts} (hleft : left.rooted = true) (hright : right.rooted = true)
    (hdrive : left.drive = right.drive) :
    partsOverlap toLowerCase left right = true ↔
      CaselessPrefix toLowerCase left.segments right.segments ∨
        CaselessPrefix toLowerCase right.segments left.segments := by
  unfold partsOverlap
  rw [hdrive, hleft, hright]
  simp only [ne_eq, not_true_eq_false, decide_false, Bool.and_false, Bool.not_true, Bool.or_self,
    Bool.false_eq_true, if_false]
  split_ifs with hempty
  · rw [Bool.or_eq_true, decide_eq_true_eq, decide_eq_true_eq, List.length_eq_zero_iff, List.length_eq_zero_iff]
      at hempty
    refine iff_of_true rfl ?_
    unfold CaselessPrefix
    rcases hempty with hempty | hempty
    · exact .inl (by simp [hempty])
    · exact .inr (by simp [hempty])
  · exact commonSegmentsAgree_iff left.segments right.segments

theorem pathSegmentsOverlap_of_none (h : canonicalizeLexicalPath left = none) :
    pathSegmentsOverlap toLowerCase left right = true := by
  have hparts : canonicalPathParts toLowerCase left = none := by
    rw [canonicalPathParts, h, Option.map_none]
  rw [pathSegmentsOverlap, hparts]

/-! ## Canonical forms -/

theorem notMem_normalizePathSlashes (raw : List Char) : '\\' ∉ normalizePathSlashes raw := by
  intro hmem
  obtain ⟨c, -, hc⟩ := List.mem_map.mp hmem
  split_ifs at hc with hback
  · cases hc
  · exact hback hc

theorem canonicalizeLexicalPath_normalize (raw : List Char) :
    canonicalizeLexicalPath (normalizePathSlashes raw) = canonicalizeLexicalPath raw := by
  unfold canonicalizeLexicalPath
  rw [normalizePathSlashes_eq (notMem_normalizePathSlashes raw)]

theorem pathSegments_joinSegments (h : ProperSegments segments) : pathSegments (joinSegments segments) = segments := by
  have habsolute := posixSegments_absolutePath fun segment hmem => (h segment hmem).1
  rwa [absolutePath, posixSegments_cons, ← pathSegments_eq] at habsolute

theorem notMem_joinSegments (h : ProperSegments segments) : '\\' ∉ joinSegments segments := by
  intro hmem
  exact notMem_absolutePath h (List.mem_cons_of_mem '/' hmem)

theorem head?_joinSegments (h : ProperSegments segments) : (joinSegments segments).head? ≠ some '/' := by
  intro hhead
  obtain ⟨rest, hrest⟩ := List.head?_eq_some_iff.mp hhead
  have hsingle := (rooted_absolutePath h).single
  rw [absolutePath, ← joinSegments, hrest] at hsingle
  cases hsingle

theorem collapseDriveSegments_proper (h : ProperSegments segments) (collapsed : List (List Char)) :
    collapseDriveSegments segments collapsed = collapsed.reverse ++ segments := by
  induction segments generalizing collapsed with
  | nil => rw [collapseDriveSegments, List.append_nil]
  | cons segment segments ih =>
    obtain ⟨⟨-, -, hdot, hdots⟩, hrest⟩ := List.forall_mem_cons.mp h
    unfold collapseDriveSegments
    rw [if_neg hdot, if_neg hdots, ih hrest, List.reverse_cons, List.append_assoc, List.singleton_append]

/-- The segments that are left are segments of the path. -/
theorem properSegments_of_collapseDrive (hback : '\\' ∉ path) :
    ProperSegments (collapseDriveSegments (posixSegments path) []) ∧
      ∀ segment ∈ collapseDriveSegments (posixSegments path) [], segment ⊆ path := by
  have hcollapse : ∀ (segments collapsed : List (List Char)), segments ⊆ posixSegments path →
      (ProperSegments collapsed ∧ ∀ segment ∈ collapsed, segment ⊆ path) →
      ProperSegments (collapseDriveSegments segments collapsed) ∧
        ∀ segment ∈ collapseDriveSegments segments collapsed, segment ⊆ path := by
    intro segments
    induction segments with
    | nil =>
      intro collapsed _ hcollapsed
      rw [collapseDriveSegments]
      exact ⟨fun segment hmem => hcollapsed.1 segment (List.mem_reverse.mp hmem),
        fun segment hmem => hcollapsed.2 segment (List.mem_reverse.mp hmem)⟩
    | cons segment segments ih =>
      intro collapsed hsub hcollapsed
      have hrest := List.subset_of_cons_subset hsub
      unfold collapseDriveSegments
      split_ifs with hdot hdots
      · exact ih collapsed hrest hcollapsed
      · exact ih collapsed.tail hrest ⟨fun other hother => hcollapsed.1 other (List.mem_of_mem_tail hother),
          fun other hother => hcollapsed.2 other (List.mem_of_mem_tail hother)⟩
      · have hmem := hsub List.mem_cons_self
        have hchars := mem_of_mem_posixSegments hmem
        refine ih (segment :: collapsed) hrest ⟨?_, ?_⟩
        · intro other hother
          rcases List.mem_cons.mp hother with rfl | hother
          · exact ⟨mem_posixSegments hmem, fun hc => hback (hchars hc), hdot, hdots⟩
          · exact hcollapsed.1 other hother
        · intro other hother
          rcases List.mem_cons.mp hother with rfl | hother
          · exact hchars
          · exact hcollapsed.2 other hother
  exact hcollapse _ [] (List.Subset.refl _) ⟨(fun _ hmem => nomatch hmem), (fun _ hmem => nomatch hmem)⟩

theorem mem_joinSegments {c : Char} (h : c ∈ joinSegments segments) : c = '/' ∨ ∃ segment ∈ segments, c ∈ segment := by
  unfold joinSegments at h
  induction segments with
  | nil => cases h
  | cons first rest ih =>
    cases rest with
    | nil =>
      rw [List.intercalate_singleton] at h
      exact .inr ⟨first, List.mem_cons_self, h⟩
    | cons next rest =>
      rw [List.intercalate_cons_cons, List.mem_append, List.mem_append, List.mem_singleton] at h
      rcases h with (h | h) | h
      · exact .inr ⟨first, List.mem_cons_self, h⟩
      · exact .inl h
      · rcases ih h with hslash | ⟨segment, hmem, hc⟩
        · exact .inl hslash
        · exact .inr ⟨segment, List.mem_cons_of_mem first hmem, hc⟩

theorem isAlpha_of_drivePrefix {letter : Char} {rest : List Char} (h : drivePrefix path = some (letter, rest)) :
    letter.isAlpha = true ∧ path = letter :: ':' :: rest := by
  unfold drivePrefix at h
  split at h
  · split_ifs at h with halpha
    cases h
    exact ⟨halpha, rfl⟩
  · cases h

theorem not_isPrefixOf_drive {letter : Char} (halpha : letter.isAlpha = true) (rest : List Char) :
    ['/', '/'].isPrefixOf (letter :: ':' :: rest) = false := by
  have hslash : ('/' == letter) = false := by
    rw [beq_eq_false_iff_ne]
    rintro rfl
    exact absurd halpha (by decide)
  rw [List.isPrefixOf, hslash, Bool.false_and]

/-- What `driveAbsolute` finds in a path with a drive root. -/
theorem driveAbsolute_cons {letter : Char} (halpha : letter.isAlpha = true) (rest : List Char) :
    driveAbsolute (letter :: ':' :: '/' :: rest) =
      if (rest.dropWhile fun c => decide (c = '/')).any isLineTerminator then none
      else some (letter, rest.dropWhile fun c => decide (c = '/')) := by
  rw [driveAbsolute, drivePrefix, if_pos halpha]
  rfl

theorem dropWhile_joinSegments (h : ProperSegments segments) :
    ((joinSegments segments).dropWhile fun c => decide (c = '/')) = joinSegments segments := by
  cases hjoin : joinSegments segments with
  | nil => rfl
  | cons c rest =>
    have hc : c ≠ '/' := by
      rintro rfl
      exact head?_joinSegments h (by rw [hjoin]; rfl)
    rw [List.dropWhile_cons_of_neg (by simpa using hc)]

/-- The segments of a canonical path below a drive root are kept. -/
theorem canonicalizeLexicalPath_drive {letter : Char} (halpha : letter.isAlpha = true) (h : ProperSegments segments)
    (hline : (joinSegments segments).any isLineTerminator = false) :
    canonicalizeLexicalPath (letter :: ':' :: '/' :: joinSegments segments) =
      some (letter :: ':' :: '/' :: joinSegments segments) := by
  have hback : '\\' ∉ letter :: ':' :: '/' :: joinSegments segments := by
    intro hmem
    rcases List.mem_cons.mp hmem with rfl | hmem
    · exact absurd halpha (by decide)
    · simp [notMem_joinSegments h] at hmem
  unfold canonicalizeLexicalPath
  dsimp only
  rw [normalizePathSlashes_eq hback, not_isPrefixOf_drive halpha, if_neg Bool.false_ne_true,
    driveAbsolute_cons halpha, dropWhile_joinSegments h, hline, if_neg Bool.false_ne_true]
  dsimp only
  rw [pathSegments_joinSegments h, collapseDriveSegments_proper h]
  rfl

/-- The segments of a relative canonical path are kept, if no drive comes first. -/
theorem canonicalizeLexicalPath_relative (h : ProperSegments segments)
    (hdrive : drivePrefix (joinSegments segments) = none) :
    canonicalizeLexicalPath (joinSegments segments) = some (joinSegments segments) := by
  have hsingle (more : List Char) : ('/' :: more).isPrefixOf (joinSegments segments) = false :=
    isPrefixOf_relative (head?_joinSegments h) more
  have habsolute : driveAbsolute (joinSegments segments) = none := by
    rw [driveAbsolute, hdrive]
  unfold canonicalizeLexicalPath
  dsimp only
  rw [normalizePathSlashes_eq (notMem_joinSegments h), hsingle, if_neg Bool.false_ne_true, habsolute, hdrive,
    pathSegments_joinSegments h, collapsePathSegments_proper h]
  dsimp only
  rw [hsingle]
  rfl

/-! ## Hidden drives -/

/-- The first segment begins with a drive, and what follows does not make it the root of the path. -/
def BeginsWithDrive (segments : List (List Char)) : Prop :=
  ∃ segment rest, segments = segment :: rest ∧ (drivePrefix segment).isSome = true ∧
    (segment.length = 2 → rest = [] ∨ (joinSegments rest).any isLineTerminator = true)

/-- A relative path whose first segment that is not cancelled begins with a drive. -/
structure HidesDrive (raw : List Char) : Prop where
  relative : (normalizePathSlashes raw).head? ≠ some '/'
  driveless : drivePrefix (normalizePathSlashes raw) = none
  segments : ∃ segments, collapsePathSegments (pathSegments (normalizePathSlashes raw)) [] = some segments ∧
    BeginsWithDrive segments

theorem joinSegments_cons (segment : List Char) (rest : List (List Char)) :
    joinSegments (segment :: rest) = segment ++ if rest = [] then [] else '/' :: joinSegments rest := by
  unfold joinSegments
  cases rest with
  | nil => rw [List.intercalate_singleton, if_pos rfl, List.append_nil]
  | cons next rest =>
    rw [List.intercalate_cons_cons, if_neg (List.cons_ne_nil next rest), List.append_assoc, List.singleton_append]

theorem drivePrefix_joinSegments {segment : List Char} {rest : List (List Char)}
    (hnone : drivePrefix segment = none) : drivePrefix (joinSegments (segment :: rest)) = none := by
  rw [joinSegments_cons]
  cases segment with
  | nil =>
    split_ifs
    · rfl
    · exact drivePrefix_absolute rfl
  | cons letter tail =>
    cases tail with
    | nil =>
      split_ifs
      · rfl
      · rw [List.singleton_append]
        unfold drivePrefix
        split
        · next heq =>
          cases heq
        · rfl
    | cons colon tail =>
      unfold drivePrefix at hnone ⊢
      split at hnone
      · next heq =>
        cases heq
        split_ifs at hnone with halpha
        simp only [List.cons_append]
        rw [if_neg halpha]
      · next hcolon =>
        split
        · next heq =>
          rw [List.cons_append, List.cons_append, List.cons.injEq, List.cons.injEq] at heq
          exact absurd (by rw [heq.1, heq.2.1]) (hcolon _ tail)
        · rfl

/-- A drive that is not the root of the path leaves it without a canonical form. -/
theorem canonicalizeLexicalPath_eq_none {letter : Char} (halpha : letter.isAlpha = true) {tail : List Char}
    (hback : '\\' ∉ tail) (h : driveAbsolute (letter :: ':' :: tail) = none) :
    canonicalizeLexicalPath (letter :: ':' :: tail) = none := by
  have hback' : '\\' ∉ letter :: ':' :: tail := by
    intro hmem
    rcases List.mem_cons.mp hmem with rfl | hmem
    · exact absurd halpha (by decide)
    · simp [hback] at hmem
  have hdrive : (drivePrefix (letter :: ':' :: tail)).isSome = true := by
    rw [drivePrefix, if_pos halpha]
    rfl
  unfold canonicalizeLexicalPath
  dsimp only
  rw [normalizePathSlashes_eq hback', not_isPrefixOf_drive halpha, if_neg Bool.false_ne_true, h]
  dsimp only
  rw [if_pos hdrive]

theorem canonicalizeLexicalPath_joinSegments_iff (h : ProperSegments segments) :
    canonicalizeLexicalPath (joinSegments segments) = some (joinSegments segments) ↔ ¬ BeginsWithDrive segments := by
  cases segments with
  | nil =>
    refine iff_of_true rfl ?_
    rintro ⟨segment, rest, heq, -⟩
    cases heq
  | cons segment rest =>
    cases hdrive : drivePrefix segment with
    | none =>
      refine iff_of_true (canonicalizeLexicalPath_relative h (drivePrefix_joinSegments hdrive)) ?_
      rintro ⟨_, _, heq, hsome, -⟩
      cases heq
      rw [hdrive] at hsome
      cases hsome
    | some drive =>
      obtain ⟨letter, tail⟩ := drive
      obtain ⟨halpha, rfl⟩ := isAlpha_of_drivePrefix hdrive
      obtain ⟨hfirst, hrest⟩ := List.forall_mem_cons.mp h
      have hback := notMem_joinSegments h
      rw [joinSegments_cons] at hback ⊢
      by_cases htail : tail = []
      · subst htail
        by_cases hroot : rest = []
        · -- a drive without a path
          rw [if_pos hroot, List.append_nil, canonicalizeLexicalPath_eq_none halpha List.not_mem_nil
            (by rw [driveAbsolute, drivePrefix, if_pos halpha])]
          refine iff_of_false (by simp) (not_not_intro ⟨_, rest, rfl, by rw [hdrive]; rfl, fun _ => ?_⟩)
          exact .inl hroot
        · rw [if_neg hroot] at hback ⊢
          by_cases hline : (joinSegments rest).any isLineTerminator = true
          · -- a line terminator hides the root from the pattern
            have hnone : driveAbsolute (letter :: ':' :: '/' :: joinSegments rest) = none := by
              rw [driveAbsolute_cons halpha, dropWhile_joinSegments hrest, if_pos hline]
            rw [List.cons_append, List.cons_append, List.nil_append, canonicalizeLexicalPath_eq_none halpha ?_ hnone]
            · refine iff_of_false (by simp) (not_not_intro ⟨_, rest, rfl, by rw [hdrive]; rfl, fun _ => ?_⟩)
              exact .inr hline
            · intro hmem
              exact hback (List.mem_append_right _ hmem)
          · -- the drive is the root, and the path is canonical below it
            refine iff_of_true (canonicalizeLexicalPath_drive halpha hrest (eq_false_of_ne_true hline)) ?_
            rintro ⟨_, _, heq, -, hends⟩
            cases heq
            rcases hends rfl with hends | hends
            · exact hroot hends
            · exact hline hends
      · have hslash : tail.head? ≠ some '/' := by
          intro hhead
          exact hfirst.1.2 (List.mem_cons_of_mem _ (List.mem_cons_of_mem _ (List.mem_of_mem_head? hhead)))
        obtain ⟨c, tail, rfl⟩ := List.exists_cons_of_ne_nil htail
        have hc : c ≠ '/' := by
          rintro rfl
          exact hslash rfl
        have hnone (more : List Char) : driveAbsolute (letter :: ':' :: (c :: tail ++ more)) = none := by
          rw [driveAbsolute, drivePrefix, if_pos halpha]
          split
          · next heq =>
            cases heq
            exact absurd rfl hc
          · rfl
        rw [List.cons_append, List.cons_append, canonicalizeLexicalPath_eq_none halpha ?_ (hnone _)]
        · refine iff_of_false (by simp) (not_not_intro ⟨_, rest, rfl, by rw [hdrive]; rfl, fun hlength => ?_⟩)
          cases hlength
        · intro hmem
          exact hback (List.mem_cons_of_mem _ (List.mem_cons_of_mem _ hmem))

/-- What a canonical form is a form of. -/
theorem canonicalizeLexicalPath_cases (hback : '\\' ∉ path) (h : canonicalizeLexicalPath path = some key) :
    (∃ letter segments, letter.isAlpha = true ∧ ProperSegments segments ∧
        (joinSegments segments).any isLineTerminator = false ∧ (drivePrefix path).isSome = true ∧
        key = letter :: ':' :: '/' :: joinSegments segments) ∨
      (∃ segments, ProperSegments segments ∧ path.head? = some '/' ∧ key = absolutePath segments) ∨
      ∃ segments, ProperSegments segments ∧ path.head? ≠ some '/' ∧ drivePrefix path = none ∧
        collapsePathSegments (pathSegments path) [] = some segments ∧ key = joinSegments segments := by
  by_cases hhead : path.head? = some '/'
  · have hrooted := rooted_of_canonicalizeLexicalPath hhead hback h
    exact .inr (.inl ⟨_, (hrooted.canonical hback h).1, hhead, (hrooted.canonical hback h).2⟩)
  · have hsingle (more : List Char) : ('/' :: more).isPrefixOf path = false := isPrefixOf_relative hhead more
    unfold canonicalizeLexicalPath at h
    dsimp only at h
    simp only [normalizePathSlashes_eq hback, hsingle, Bool.false_eq_true, if_false] at h
    split at h
    · next letter below hdrive =>
      rw [Option.some_inj] at h
      unfold driveAbsolute at hdrive
      split at hdrive
      · next found rest hfound =>
        obtain ⟨halpha, hpath⟩ := isAlpha_of_drivePrefix hfound
        dsimp only at hdrive
        split_ifs at hdrive with hline
        cases hdrive
        have hsub : (rest.dropWhile fun c => decide (c = '/')) ⊆ path := by
          intro c hc
          rw [hpath]
          exact List.mem_cons_of_mem _ (List.mem_cons_of_mem _ (List.mem_cons_of_mem _
            ((List.dropWhile_suffix _).subset hc)))
        obtain ⟨hproper, hchars⟩ := properSegments_of_collapseDrive fun hc => hback (hsub hc)
        rw [pathSegments_eq] at h
        refine .inl ⟨letter, _, halpha, hproper, ?_, by rw [hfound]; rfl, h.symm⟩
        rw [List.any_eq_false]
        intro c hc hterminator
        rcases mem_joinSegments hc with rfl | ⟨segment, hmem, hc⟩
        · exact absurd hterminator (by decide)
        · exact hline (List.any_eq_true.mpr ⟨c, hchars segment hmem hc, hterminator⟩)
      · cases hdrive
    · split_ifs at h with hdrive
      have hnone : drivePrefix path = none := by
        simpa using hdrive
      split at h
      · cases h
      · next segments hcollapse =>
        rw [Option.some_inj] at h
        refine .inr (.inr ⟨segments, properSegments_of_collapse hback ?_, hhead, hnone, hcollapse, h.symm⟩)
        rwa [← pathSegments_eq]

theorem canonicalizeLexicalPath_idempotent_iff (raw : List Char) :
    (∀ key, canonicalizeLexicalPath raw = some key → canonicalizeLexicalPath key = some key) ↔ ¬ HidesDrive raw := by
  rw [← canonicalizeLexicalPath_normalize]
  have hback := notMem_normalizePathSlashes raw
  constructor
  · rintro hidempotent ⟨hhead, hdrive, segments, hcollapse, hbegins⟩
    have hproper := properSegments_of_collapse hback (pathSegments_eq (normalizePathSlashes raw) ▸ hcollapse)
    have hsingle (more : List Char) : ('/' :: more).isPrefixOf (normalizePathSlashes raw) = false :=
      isPrefixOf_relative hhead more
    have hkey : canonicalizeLexicalPath (normalizePathSlashes raw) = some (joinSegments segments) := by
      unfold canonicalizeLexicalPath
      dsimp only
      rw [normalizePathSlashes_eq hback, hsingle, if_neg Bool.false_ne_true, driveAbsolute, hdrive, hcollapse]
      dsimp only
      rw [hsingle]
      rfl
    exact (canonicalizeLexicalPath_joinSegments_iff hproper).mp (hidempotent _ hkey) hbegins
  · intro hhides key hkey
    rcases canonicalizeLexicalPath_cases hback hkey with
      ⟨letter, segments, halpha, hproper, hline, -, rfl⟩ | ⟨segments, hproper, -, rfl⟩ |
        ⟨segments, hproper, hhead, hdrive, hcollapse, rfl⟩
    · exact canonicalizeLexicalPath_drive halpha hproper hline
    · exact canonicalizeLexicalPath_absolutePath hproper
    · exact (canonicalizeLexicalPath_joinSegments_iff hproper).mpr fun hbegins =>
        hhides ⟨hhead, hdrive, segments, hcollapse, hbegins⟩

/-- What the scheduler relies on, for two paths. -/
structure LexicalPathLaws (toLowerCase : List Char → List Char) (left right : List Char) : Prop where
  symm : pathSegmentsOverlap toLowerCase left right = pathSegmentsOverlap toLowerCase right left
  rooted : ∀ leftParts rightParts, canonicalPathParts toLowerCase left = some leftParts →
    canonicalPathParts toLowerCase right = some rightParts → leftParts.rooted = true → rightParts.rooted = true →
      leftParts.drive = rightParts.drive →
        (pathSegmentsOverlap toLowerCase left right = true ↔
          CaselessPrefix toLowerCase leftParts.segments rightParts.segments ∨
            CaselessPrefix toLowerCase rightParts.segments leftParts.segments)
  unknown : canonicalizeLexicalPath left = none → pathSegmentsOverlap toLowerCase left right = true
  idempotent : ∀ key, canonicalizeLexicalPath left = some key → canonicalizeLexicalPath key = some key

/-- The laws hold for all paths that do not hide a drive. -/
theorem lexicalPathLaws_iff (toLowerCase : List Char → List Char) (left right : List Char) :
    LexicalPathLaws toLowerCase left right ↔ ¬ HidesDrive left := by
  rw [← canonicalizeLexicalPath_idempotent_iff]
  refine ⟨LexicalPathLaws.idempotent, fun hidempotent => ⟨pathSegmentsOverlap_comm toLowerCase left right, ?_,
    pathSegmentsOverlap_of_none, hidempotent⟩⟩
  intro leftParts rightParts hleft hright hleftRooted hrightRooted hdrive
  rw [pathSegmentsOverlap, hleft, hright]
  exact partsOverlap_iff hleftRooted hrightRooted hdrive

/-- The dot hides a drive: the canonical form of `./C:foo` has none itself. -/
theorem dot_hides_drive :
    canonicalizeLexicalPath "./C:foo".toList = some "C:foo".toList ∧
      canonicalizeLexicalPath "C:foo".toList = none ∧
      ¬ LexicalPathLaws (List.map Char.toLower) "./C:foo".toList "src".toList := by
  have hkey : canonicalizeLexicalPath "./C:foo".toList = some "C:foo".toList := by decide +kernel
  have hnone : canonicalizeLexicalPath "C:foo".toList = none := by decide +kernel
  refine ⟨hkey, hnone, fun hlaws => ?_⟩
  have hsome := hlaws.idempotent _ hkey
  rw [hnone] at hsome
  cases hsome

end Agent
