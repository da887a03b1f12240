import OmkVerified.Agent.ToolResourceClaims
import OmkVerified.Lib.FilePath

/-!
# Lexical keys of POSIX paths

Below a working directory without backslashes, the key of a path without backslashes and without a drive is the
absolute path that a POSIX platform resolves it to.
-/

namespace Agent

open Lib

variable {path cwd rawPath key : List Char} {segments collapsed cwdSegments : List (List Char)}

/-- Segments that are resolved already. -/
def ProperSegments (segments : List (List Char)) : Prop :=
  ∀ segment ∈ segments, (segment ≠ [] ∧ '/' ∉ segment) ∧ '\\' ∉ segment ∧ segment ≠ ['.'] ∧ segment ≠ ['.', '.']

theorem normalizePathSlashes_eq (h : '\\' ∉ path) : normalizePathSlashes path = path := by
  unfold normalizePathSlashes
  conv_rhs => rw [← List.map_id path]
  refine List.map_congr_left fun c hc => ?_
  rw [if_neg, id]
  rintro rfl
  exact h hc

theorem pathSegments_eq (path : List Char) : pathSegments path = posixSegments path :=
  List.filter_congr fun _ _ => decide_eq_decide.mpr List.length_pos_iff

/-! ## Segments -/

theorem posixSegments_append (front back : List Char) :
    posixSegments (front ++ '/' :: back) = posixSegments front ++ posixSegments back := by
  unfold posixSegments
  rw [List.splitOn_append_cons_self, List.filter_append]

theorem posixSegments_cons (path : List Char) : posixSegments ('/' :: path) = posixSegments path :=
  posixSegments_append [] path

theorem posixSegments_dropWhile (path : List Char) :
    posixSegments (path.dropWhile fun c => c = '/') = posixSegments path := by
  induction path with
  | nil => rfl
  | cons c path ih =>
    by_cases hc : c = '/'
    · subst hc
      rw [List.dropWhile_cons_of_pos (by simp), posixSegments_cons, ih]
    · rw [List.dropWhile_cons_of_neg (by simpa using hc)]

theorem mem_of_mem_posixSegments {segment : List Char} (h : segment ∈ posixSegments path) : segment ⊆ path := by
  have hsplit : ∀ (text : List Char) (part : List Char), part ∈ text.splitOn '/' → part ⊆ text := by
    intro text
    induction text with
    | nil =>
      intro part hpart
      rw [List.splitOn_nil, List.mem_singleton] at hpart
      exact hpart ▸ List.Subset.refl _
    | cons c text ih =>
      intro part hpart
      rw [List.splitOn_cons_eq_if_modifyHead] at hpart
      split_ifs at hpart with hc
      · rcases List.mem_cons.mp hpart with rfl | hpart
        · exact List.nil_subset _
        · exact List.Subset.trans (ih part hpart) (List.subset_cons_self c text)
      · cases hrest : text.splitOn '/' with
        | nil => exact absurd hrest (List.splitOn_ne_nil '/' text)
        | cons first rest =>
          rw [hrest, List.modifyHead_cons] at hpart
          rcases List.mem_cons.mp hpart with rfl | hpart
          · exact List.cons_subset_cons c (ih first (hrest ▸ List.mem_cons_self))
          · exact List.Subset.trans (ih part (hrest ▸ List.mem_cons_of_mem first hpart)) (List.subset_cons_self c text)
  exact hsplit path segment (List.mem_filter.mp h).1

theorem collapsePathSegments_eq_some {result : List (List Char)}
    (h : collapsePathSegments segments collapsed = some result) :
    result = segments.foldl resolveSegment collapsed.reverse := by
  induction segments generalizing collapsed with
  | nil =>
    rw [collapsePathSegments, Option.some_inj] at h
    exact h.symm
  | cons segment segments ih =>
    unfold collapsePathSegments at h
    rw [List.foldl_cons, resolveSegment]
    split_ifs at h ⊢ with hdot hdots
    · exact ih h
    · cases collapsed with
      | nil => cases h
      | cons last collapsed =>
        rw [List.reverse_cons, List.dropLast_concat]
        exact ih h
    · have hrest := ih h
      rwa [List.reverse_cons] at hrest

theorem properSegments_of_collapse {result : List (List Char)} (hback : '\\' ∉ path)
    (h : collapsePathSegments (posixSegments path) [] = some result) : ProperSegments result := by
  have hcollapse : ∀ (segments collapsed : List (List Char)), segments ⊆ posixSegments path →
      ProperSegments collapsed → collapsePathSegments segments collapsed = some result → ProperSegments result := by
    intro segments
    induction segments with
    | nil =>
      intro collapsed _ hproper h
      rw [collapsePathSegments, Option.some_inj] at h
      rw [← h]
      exact fun segment hmem => hproper segment (List.mem_reverse.mp hmem)
    | cons segment segments ih =>
      intro collapsed hsub hproper h
      have hrest := List.subset_of_cons_subset hsub
      unfold collapsePathSegments at h
      split_ifs at h with hdot hdots
      · exact ih collapsed hrest hproper h
      · cases collapsed with
        | nil => cases h
        | cons last collapsed =>
          exact ih collapsed hrest (fun other hother => hproper other (List.mem_cons_of_mem last hother)) h
      · have hmem := hsub List.mem_cons_self
        refine ih (segment :: collapsed) hrest ?_ h
        intro other hother
        rcases List.mem_cons.mp hother with rfl | hother
        · exact ⟨mem_posixSegments hmem, fun hc => hback (mem_of_mem_posixSegments hmem hc), hdot, hdots⟩
        · exact hproper other hother
  exact hcollapse _ [] (List.Subset.refl _) (fun _ hmem => nomatch hmem) h

theorem collapsePathSegments_proper (h : ProperSegments segments) (collapsed : List (List Char)) :
    collapsePathSegments segments collapsed = some (collapsed.reverse ++ segments) := by
  induction segments generalizing collapsed with
  | nil => rw [collapsePathSegments, List.append_nil]
  | cons segment segments ih =>
    obtain ⟨⟨-, -, hdot, hdots⟩, hrest⟩ := List.forall_mem_cons.mp h
    unfold collapsePathSegments
    rw [if_neg hdot, if_neg hdots, ih hrest, List.reverse_cons, List.append_assoc, List.singleton_append]

/-! ## Absolute paths -/

/-- A path that starts with one slash. -/
structure Rooted (path : List Char) : Prop where
  head : path.head? = some '/'
  single : ['/', '/'].isPrefixOf path = false

theorem drivePrefix_absolute (h : path.head? = some '/') : drivePrefix path = none := by
  obtain ⟨rest, rfl⟩ := List.head?_eq_some_iff.mp h
  cases rest with
  | nil => rfl
  | cons c rest =>
    unfold drivePrefix
    split
    · next heq =>
      cases heq
      rfl
    · rfl

theorem Rooted.drivePrefix (h : Rooted path) : drivePrefix path = none := drivePrefix_absolute h.head

theorem Rooted.isPrefixOf (h : Rooted path) : ['/'].isPrefixOf path = true := by
  obtain ⟨rest, rfl⟩ := List.head?_eq_some_iff.mp h.head
  rfl

theorem Rooted.canonicalizeLexicalPath (h : Rooted path) (hback : '\\' ∉ path) :
    canonicalizeLexicalPath path = (collapsePathSegments (posixSegments path) []).map absolutePath := by
  have hdrive : driveAbsolute path = none := by
    rw [driveAbsolute, h.drivePrefix]
  unfold Agent.canonicalizeLexicalPath
  dsimp only
  rw [normalizePathSlashes_eq hback, h.single, if_neg Bool.false_ne_true, hdrive, h.drivePrefix,
    Option.isSome_none, if_neg Bool.false_ne_true, pathSegments_eq]
  cases collapsePathSegments (posixSegments path) [] with
  | none => rfl
  | some result =>
    dsimp only
    rw [h.isPrefixOf, if_pos rfl]
    rfl

theorem rooted_absolutePath_append (h : ProperSegments segments) (hsegments : segments ≠ []) (back : List Char) :
    Rooted (absolutePath segments ++ back) := by
  obtain ⟨segment, segments, rfl⟩ := List.exists_cons_of_ne_nil hsegments
  obtain ⟨⟨⟨hne, hslash⟩, -⟩, -⟩ := List.forall_mem_cons.mp h
  obtain ⟨c, segment, rfl⟩ := List.exists_cons_of_ne_nil hne
  have hc : ¬ '/' = c := fun heq => hslash (heq ▸ List.mem_cons_self)
  refine ⟨rfl, ?_⟩
  cases segments <;> simp [absolutePath, List.isPrefixOf, hc]

theorem rooted_absolutePath (h : ProperSegments segments) : Rooted (absolutePath segments) := by
  by_cases hsegments : segments = []
  · subst hsegments
    exact ⟨rfl, rfl⟩
  · have hrooted := rooted_absolutePath_append h hsegments []
    rwa [List.append_nil] at hrooted

theorem notMem_absolutePath (h : ProperSegments segments) : '\\' ∉ absolutePath segments := by
  have hjoin : '\\' ∉ ['/'].intercalate segments := by
    induction segments with
    | nil => exact List.not_mem_nil
    | cons segment segments ih =>
      obtain ⟨⟨-, hback, -⟩, hrest⟩ := List.forall_mem_cons.mp h
      cases segments with
      | nil => simpa using hback
      | cons next segments =>
        rw [List.intercalate_cons_cons]
        simpa [hback] using ih hrest
  intro hmem
  rcases List.mem_cons.mp hmem with heq | hmem
  · exact absurd heq (by decide)
  · exact hjoin hmem

theorem canonicalizeLexicalPath_absolutePath (h : ProperSegments segments) :
    canonicalizeLexicalPath (absolutePath segments) = some (absolutePath segments) := by
  rw [(rooted_absolutePath h).canonicalizeLexicalPath (notMem_absolutePath h),
    posixSegments_absolutePath fun segment hmem => (h segment hmem).1, collapsePathSegments_proper h]
  rfl

theorem foldl_resolveSegment_proper (h : ProperSegments segments) (start : List (List Char)) :
    segments.foldl resolveSegment start = start ++ segments := by
  have hcollapse := collapsePathSegments_eq_some (collapsePathSegments_proper h start.reverse)
  rw [List.reverse_reverse] at hcollapse
  exact hcollapse.symm

theorem resolveSegments_rooted (h : path.head? = some '/') :
    resolveSegments cwdSegments path = (posixSegments path).foldl resolveSegment [] := by
  rw [resolveSegments, if_pos h]

theorem rooted_of_canonicalizeLexicalPath (hhead : path.head? = some '/') (hback : '\\' ∉ path)
    (h : canonicalizeLexicalPath path = some key) : Rooted path := by
  refine ⟨hhead, ?_⟩
  by_contra hdouble
  rw [Bool.not_eq_false] at hdouble
  unfold canonicalizeLexicalPath at h
  dsimp only at h
  rw [normalizePathSlashes_eq hback, if_pos hdouble] at h
  cases h

/-- The canonical form of a path that starts with a slash. -/
theorem Rooted.canonical (h : Rooted path) (hback : '\\' ∉ path) (hkey : Agent.canonicalizeLexicalPath path = some key) :
    ProperSegments (resolveSegments [] path) ∧ key = absolutePath (resolveSegments [] path) := by
  rw [h.canonicalizeLexicalPath hback] at hkey
  obtain ⟨result, hcollapse, rfl⟩ := Option.map_eq_some_iff.mp hkey
  have hresult : resolveSegments [] path = result := by
    rw [resolveSegments_rooted h.head]
    exact (collapsePathSegments_eq_some hcollapse).symm
  rw [hresult]
  exact ⟨properSegments_of_collapse hback hcollapse, rfl⟩

/-! ## Keys -/

theorem Rooted.hasDriveRoot (h : Rooted path) : hasDriveRoot path = false := by
  rw [Agent.hasDriveRoot, h.drivePrefix]
  rfl

/-- Leading slashes do not count. -/
theorem normalizeLeadingSlashes_spec (hback : '\\' ∉ path) (hhead : path.head? = some '/') :
    (normalizeLeadingSlashes path).head? = some '/' ∧ '\\' ∉ normalizeLeadingSlashes path ∧
      posixSegments (normalizeLeadingSlashes path) = posixSegments path := by
  unfold normalizeLeadingSlashes
  dsimp only
  rw [normalizePathSlashes_eq hback]
  split_ifs
  · refine ⟨rfl, ?_, ?_⟩
    · intro hmem
      rcases List.mem_cons.mp hmem with heq | hmem
      · exact absurd heq (by decide)
      · exact hback ((List.dropWhile_suffix _).subset hmem)
    · rw [posixSegments_cons, posixSegments_dropWhile]
  · exact ⟨hhead, hback, rfl⟩

theorem exists_last_intercalate (h : ProperSegments segments) (hsegments : segments ≠ []) :
    ∃ front c, ['/'].intercalate segments = front ++ [c] ∧ c ≠ '/' := by
  induction segments with
  | nil => exact absurd rfl hsegments
  | cons segment segments ih =>
    obtain ⟨⟨⟨hne, hslash⟩, -⟩, hrest⟩ := List.forall_mem_cons.mp h
    cases segments with
    | nil =>
      obtain ⟨front, c, rfl⟩ := (List.eq_nil_or_concat segment).resolve_left hne
      rw [List.concat_eq_append] at hslash
      refine ⟨front, c, by simp, ?_⟩
      rintro rfl
      exact hslash (by simp)
    | cons next segments =>
      obtain ⟨front, c, hjoin, hc⟩ := ih hrest (List.cons_ne_nil next segments)
      exact ⟨segment ++ ['/'] ++ front, c, by rw [List.intercalate_cons_cons, hjoin]; simp, hc⟩

theorem isPrefixOf_relative (h : path.head? ≠ some '/') (more : List Char) : ('/' :: more).isPrefixOf path = false := by
  cases path with
  | nil => rfl
  | cons c path =>
    have hc : ¬ '/' = c := fun heq => h (heq ▸ rfl)
    simp [List.isPrefixOf, hc]

/-- A path below a canonical working directory. -/
theorem joinPathSegments_absolutePath (h : ProperSegments segments) (hback : '\\' ∉ path) (hne : path ≠ [])
    (hhead : path.head? ≠ some '/') (hdrive : drivePrefix path = none) :
    Rooted (joinPathSegments (absolutePath segments) path) ∧
      '\\' ∉ joinPathSegments (absolutePath segments) path ∧
      posixSegments (joinPathSegments (absolutePath segments) path) = segments ++ posixSegments path := by
  have hslash : ¬ (['/'].isPrefixOf path || (drivePrefix path).isSome) = true := by
    rw [isPrefixOf_relative hhead [], hdrive]
    exact Bool.false_ne_true
  have hjoin : joinPathSegments (absolutePath segments) path =
      ((absolutePath segments).rdropWhile fun c => c = '/') ++ '/' :: path := by
    unfold joinPathSegments
    dsimp only
    rw [normalizePathSlashes_eq hback, normalizePathSlashes_eq (notMem_absolutePath h), if_neg hne, if_neg hslash]
  rw [hjoin]
  by_cases hsegments : segments = []
  · subst hsegments
    have hroot : (absolutePath []).rdropWhile (fun c => c = '/') = [] := rfl
    rw [hroot, List.nil_append]
    refine ⟨⟨rfl, ?_⟩, ?_, ?_⟩
    · exact isPrefixOf_relative hhead []
    · simpa using hback
    · rw [posixSegments_cons, List.nil_append]
  · have hbase : (absolutePath segments).rdropWhile (fun c => c = '/') = absolutePath segments := by
      obtain ⟨front, c, hlast, hc⟩ := exists_last_intercalate h hsegments
      rw [absolutePath, hlast, ← List.cons_append, List.rdropWhile_concat_neg]
      simpa using hc
    rw [hbase]
    refine ⟨rooted_absolutePath_append h hsegments _, ?_, ?_⟩
    · have hcwd := notMem_absolutePath h
      simpa [hcwd] using hback
    · rw [posixSegments_append, posixSegments_absolutePath fun segment hmem => (h segment hmem).1]

/-- A working directory, or a path, as a POSIX platform reads it. -/
structure PosixSpelled (path : List Char) : Prop where
  backslash : '\\' ∉ path
  drive : hasDriveRoot path = false

theorem drivePrefix_eq_none (hroot : hasDriveRoot path = false) (hrelative : isDriveRelative path = false) :
    drivePrefix path = none := by
  cases hdrive : drivePrefix path with
  | none => rfl
  | some drive =>
    rw [hasDriveRoot, hdrive, Option.any_some, decide_eq_false_iff_not] at hroot
    rw [isDriveRelative, hdrive, Option.any_some, decide_eq_false_iff_not] at hrelative
    exact absurd hroot hrelative

/-- The key of a path is the absolute path. -/
theorem resolveCanonicalPathKey_eq_some (hcwd : cwd.head? = some '/') (hcwdback : '\\' ∉ cwd)
    (hspelled : PosixSpelled rawPath) (h : resolveCanonicalPathKey rawPath cwd = some key) :
    ProperSegments (resolveSegments (resolveSegments [] cwd) rawPath) ∧
      key = absolutePath (resolveSegments (resolveSegments [] cwd) rawPath) := by
  unfold resolveCanonicalPathKey at h
  split_ifs at h with htrim
  dsimp only at h
  split at h
  · cases h
  · next canonicalCwd hcanonical =>
    obtain ⟨hproper, rfl⟩ :=
      (rooted_of_canonicalizeLexicalPath hcwd hcwdback hcanonical).canonical hcwdback hcanonical
    split_ifs at h with hnone
    simp only [Bool.or_eq_true, not_or, Bool.not_eq_true] at hnone
    obtain ⟨⟨hdouble, hrelative⟩, -⟩ := hnone
    have hkey := (Option.filter_eq_some_iff.mp h).1
    by_cases hhead : rawPath.head? = some '/'
    · obtain ⟨hnormalized, hback, hsegments⟩ := normalizeLeadingSlashes_spec hspelled.backslash hhead
      have hrooted : Rooted (normalizeLeadingSlashes rawPath) := ⟨hnormalized, hdouble⟩
      have hresolved : resolvedAgainst (absolutePath (resolveSegments [] cwd)) (normalizeLeadingSlashes rawPath) =
          normalizeLeadingSlashes rawPath := by
        unfold resolvedAgainst
        rw [hrooted.hasDriveRoot, if_neg Bool.false_ne_true, hrooted.isPrefixOf, if_pos rfl,
          (rooted_absolutePath hproper).hasDriveRoot, if_neg Bool.false_ne_true]
      rw [hresolved] at hkey
      have hcanonical := hrooted.canonical hback hkey
      rw [resolveSegments_rooted hnormalized, hsegments] at hcanonical
      rw [resolveSegments_rooted hhead]
      exact hcanonical
    · have hnormalized : normalizeLeadingSlashes rawPath = rawPath := by
        unfold normalizeLeadingSlashes
        dsimp only
        rw [normalizePathSlashes_eq hspelled.backslash, isPrefixOf_relative hhead, if_neg Bool.false_ne_true]
      rw [hnormalized] at hrelative hkey
      have hdrive := drivePrefix_eq_none hspelled.drive hrelative
      have hne : rawPath ≠ [] := by
        rintro rfl
        exact htrim rfl
      have hresolved : resolvedAgainst (absolutePath (resolveSegments [] cwd)) rawPath =
          joinPathSegments (absolutePath (resolveSegments [] cwd)) rawPath := by
        unfold resolvedAgainst
        rw [hspelled.drive, if_neg Bool.false_ne_true, isPrefixOf_relative hhead, if_neg Bool.false_ne_true]
      rw [hresolved] at hkey
      obtain ⟨hrooted, hback, hsegments⟩ :=
        joinPathSegments_absolutePath hproper hspelled.backslash hne hhead hdrive
      have hcanonical := hrooted.canonical hback hkey
      rw [resolveSegments_rooted hrooted.head, hsegments, List.foldl_append,
        foldl_resolveSegment_proper hproper, List.nil_append] at hcanonical
      have hbelow : resolveSegments (resolveSegments [] cwd) rawPath =
          (posixSegments rawPath).foldl resolveSegment (resolveSegments [] cwd) := by
        rw [resolveSegments, if_neg hhead]
      rw [hbelow]
      exact hcanonical

/-! ## Overlap -/

section

variable (toLowerCase : List Char → List Char) {left right : List (List Char)}

theorem commonSegmentsAgree_of_prefix (h : left <+: right) : commonSegmentsAgree toLowerCase left right = true := by
  induction left generalizing right with
  | nil => cases right <;> rfl
  | cons segment left ih =>
    obtain ⟨rest, rfl⟩ := h
    rw [List.cons_append, commonSegmentsAgree, decide_eq_true rfl, Bool.true_and]
    exact ih (List.prefix_append left rest)

theorem canonicalPathParts_absolutePath (h : ProperSegments segments) :
    canonicalPathParts toLowerCase (absolutePath segments) = some ⟨none, true, segments⟩ := by
  have hrooted := rooted_absolutePath h
  have hdrive : canonicalDrive (absolutePath segments) = none := by
    rw [canonicalDrive, hrooted.drivePrefix]
  rw [canonicalPathParts, canonicalizeLexicalPath_absolutePath h, Option.map_some, hdrive, hrooted.isPrefixOf,
    pathSegments_eq, posixSegments_absolutePath fun segment hmem => (h segment hmem).1]

theorem uncSegments_absolutePath (h : ProperSegments segments) :
    uncSegments toLowerCase (String.ofList (absolutePath segments)) = none := by
  have hsingle := (rooted_absolutePath h).single
  rw [uncSegments, String.toList_ofList]
  split
  · next rest heq =>
    rw [heq] at hsingle
    cases hsingle
  · rfl

/-- Two keys overlap where one of the paths contains the other. -/
theorem identityPathKeysOverlap_of_prefix (hleft : ProperSegments left) (hright : ProperSegments right)
    (h : left <+: right ∨ right <+: left) :
    identityPathKeysOverlap toLowerCase (String.ofList (absolutePath left)) (String.ofList (absolutePath right)) =
      true := by
  rw [identityPathKeysOverlap, uncSegments_absolutePath toLowerCase hleft, uncSegments_absolutePath toLowerCase hright]
  dsimp only
  rw [pathSegmentsOverlap, String.toList_ofList, String.toList_ofList,
    canonicalPathParts_absolutePath toLowerCase hleft, canonicalPathParts_absolutePath toLowerCase hright]
  have hagree : commonSegmentsAgree toLowerCase left right = true := by
    rcases h with h | h
    · exact commonSegmentsAgree_of_prefix toLowerCase h
    · rw [commonSegmentsAgree_comm]
      exact commonSegmentsAgree_of_prefix toLowerCase h
  simp only [partsOverlap, hagree, Option.isSome_none, Bool.false_and, Bool.or_self, Bool.false_eq_true, if_false]
  split_ifs <;> rfl

/-- Claims of paths with overlapping keys conflict unless both read. -/
theorem claimsConflict_of_overlap {leftKey rightKey : String} {leftAccess rightAccess : ToolResourceAccess}
    (hoverlap : identityPathKeysOverlap toLowerCase leftKey rightKey = true)
    (hwrite : leftAccess = .write ∨ rightAccess = .write) :
    claimsConflict toLowerCase (.path leftKey leftAccess none none) (.path rightKey rightAccess none none) = true := by
  have hpaths : pathClaimsOverlap toLowerCase leftKey none none rightKey none none = true := by
    simp [pathClaimsOverlap, pathClaimKeys, hoverlap]
  unfold claimsConflict
  rcases hwrite with rfl | rfl
  · cases rightAccess <;> simp [ToolResourceClaim.access, ToolResourceAccess.toResourceAccess,
      ToolResourceClaim.kind, hpaths]
  · cases leftAccess <;> simp [ToolResourceClaim.access, ToolResourceAccess.toResourceAccess,
      ToolResourceClaim.kind, hpaths]

end

end Agent
