import OmkVerified.Agent.ParallelToolBatch
import OmkVerified.Agent.Proofs.PathSegmentsProofs

/-!
# What the waves promise

The waves are the calls in their order, cut into runs. A call that runs alone has its wave for
itself, and the file tools of one wave have paths that do not overlap. Where the working directory is
an absolute POSIX path, such calls do not conflict under the resource claims either.
-/

namespace Agent

open Lib

/-! ## Waves -/

section Waves

variable (toLowerCase : List Char → List Char) (options : ShouldParallelizeToolBatchOptions)

/-- A call of the kind `solo`, or a file tool without a usable path. -/
def RunsAlone (toolCall : ParallelizableToolCall) : Prop :=
  classifyToolCall options toolCall = .solo ∨
    (classifyToolCall options toolCall = .path ∧ extractParallelScopePath options toolCall = none)

/-- The path that a call reserves in its wave. -/
def scopedPath (toolCall : ParallelizableToolCall) : Option (List Char) :=
  if classifyToolCall options toolCall = .path then extractParallelScopePath options toolCall else none

/-- The calls of a batch by their indices. -/
def At (all : List ParallelizableToolCall) (P : ParallelizableToolCall → Prop) (index : Nat) : Prop :=
  ∀ toolCall ∈ all[index]?, P toolCall

/-- The paths that two calls reserve do not overlap. -/
def PathsApart (left right : ParallelizableToolCall) : Prop :=
  ∀ leftPath ∈ scopedPath options left, ∀ rightPath ∈ scopedPath options right,
    pathSegmentsOverlap toLowerCase leftPath rightPath = false

/-- A relation between the calls at two indices. -/
def Between (all : List ParallelizableToolCall)
    (R : ParallelizableToolCall → ParallelizableToolCall → Prop) (i j : Nat) : Prop :=
  At all (fun left => At all (R left) j) i

/-- The promise for one wave. -/
structure WellFormedWave (all : List ParallelizableToolCall) (wave : List Nat) : Prop where
  nonempty : wave ≠ []
  alone : ∀ index ∈ wave, ∀ toolCall ∈ all[index]?, RunsAlone options toolCall → wave = [index]
  apart : wave.Pairwise (Between all (PathsApart toLowerCase options))

/-- The first `count` calls are placed. -/
structure Placed (all : List ParallelizableToolCall) (count : Nat) (s : WaveState) : Prop where
  flatten : s.waves.flatten ++ s.wave = List.range count
  waves : ∀ wave ∈ s.waves, WellFormedWave toLowerCase options all wave
  together : ∀ index ∈ s.wave, At all (fun toolCall => ¬ RunsAlone options toolCall) index
  apart : s.wave.Pairwise (Between all (PathsApart toLowerCase options))
  paths : s.wavePaths = s.wave.filterMap fun index => all[index]?.bind (scopedPath options)

variable {toLowerCase options} {all : List ParallelizableToolCall} {count : Nat} {s : WaveState}
  {toolCall : ParallelizableToolCall}

theorem Placed.closeWave (h : Placed toLowerCase options all count s) :
    Placed toLowerCase options all count s.closeWave ∧ s.closeWave.wave = [] := by
  unfold WaveState.closeWave
  split_ifs with hpos
  · refine ⟨⟨?_, ?_, by simp, by simp, by simp⟩, rfl⟩
    · rw [← h.flatten]
      simp
    · intro wave hwave
      rcases List.mem_append.mp hwave with hwave | hwave
      · exact h.waves wave hwave
      · rw [List.mem_singleton.mp hwave]
        refine ⟨List.length_pos_iff.mp hpos, ?_, h.apart⟩
        intro index hindex toolCall hcall halone
        exact absurd halone (h.together index hindex toolCall hcall)
  · exact ⟨h, by simpa using hpos⟩

theorem Placed.pushAlone (h : Placed toLowerCase options all count s) :
    Placed toLowerCase options all (count + 1) (s.pushAlone count) := by
  obtain ⟨hclosed, hnil⟩ := h.closeWave
  have hpaths := hclosed.paths
  rw [hnil, List.filterMap_nil] at hpaths
  unfold WaveState.pushAlone
  refine ⟨?_, ?_, ?_, ?_, ?_⟩
  · have hflatten := hclosed.flatten
    rw [hnil, List.append_nil] at hflatten
    simp [hnil, hflatten, List.range_succ]
  · intro wave hwave
    rcases List.mem_append.mp hwave with hwave | hwave
    · exact hclosed.waves wave hwave
    · rw [List.mem_singleton.mp hwave]
      refine ⟨by simp, ?_, by simp⟩
      intro index hindex toolCall _ _
      rw [List.mem_singleton.mp hindex]
  · simp [hnil]
  · simp [hnil]
  · simp [hnil, hpaths]

/-- A call joins the open wave. -/
theorem Placed.push (h : Placed toLowerCase options all count s) (hcall : all[count]? = some toolCall)
    (hshared : ¬ RunsAlone options toolCall)
    (hfree : ∀ path ∈ scopedPath options toolCall, ∀ existing ∈ s.wavePaths,
      pathSegmentsOverlap toLowerCase path existing = false) :
    Placed toLowerCase options all (count + 1)
      { waves := s.waves, wave := s.wave ++ [count]
        wavePaths := s.wavePaths ++ (scopedPath options toolCall).toList } := by
  refine ⟨?_, h.waves, ?_, ?_, ?_⟩
  · rw [List.range_succ, ← h.flatten, List.append_assoc]
  · intro index hindex
    rcases List.mem_append.mp hindex with hindex | hindex
    · exact h.together index hindex
    · rw [List.mem_singleton.mp hindex]
      intro other hother
      obtain rfl : toolCall = other := Option.some.inj (hcall.symm.trans hother)
      exact hshared
  · rw [List.pairwise_append]
    refine ⟨h.apart, List.pairwise_singleton _ _, ?_⟩
    intro i hi j hj left hleft right hright leftPath hleftPath rightPath hrightPath
    rw [List.mem_singleton.mp hj] at hright
    obtain rfl : toolCall = right := Option.some.inj (hcall.symm.trans hright)
    rw [pathSegmentsOverlap_comm]
    refine hfree rightPath hrightPath leftPath ?_
    rw [h.paths, List.mem_filterMap]
    exact ⟨i, hi, by rw [Option.mem_def.mp hleft]; exact hleftPath⟩
  · rw [List.filterMap_append, ← h.paths, List.filterMap_cons, List.filterMap_nil, hcall, Option.bind_some]
    cases scopedPath options toolCall <;> rfl

/-- One round places one call. -/
theorem Placed.place (h : Placed toLowerCase options all count s) (hcall : all[count]? = some toolCall) :
    Placed toLowerCase options all (count + 1) (s.place toLowerCase options (toolCall, count)) := by
  unfold WaveState.place
  cases hkind : classifyToolCall options toolCall with
  | solo => exact h.pushAlone
  | safe =>
    have hpath : scopedPath options toolCall = none := by simp [scopedPath, hkind]
    have hpushed := h.push hcall (by simp [RunsAlone, hkind]) (by simp [hpath])
    rw [hpath, Option.toList_none, List.append_nil] at hpushed
    exact hpushed
  | path =>
    cases hscope : extractParallelScopePath options toolCall with
    | none =>
      simp only
      exact h.pushAlone
    | some path =>
      have hpath : scopedPath options toolCall = some path := by simp [scopedPath, hkind, hscope]
      have hshared : ¬ RunsAlone options toolCall := by simp [RunsAlone, hkind, hscope]
      simp only
      unfold WaveState.reserve
      by_cases hoverlap : (s.wavePaths.any fun existing =>
          pathSegmentsOverlap toLowerCase path existing) = true
      · -- the wave is closed first, and the path is the first of the next one
        obtain ⟨hclosed, hnil⟩ := h.closeWave
        have hpaths := hclosed.paths
        rw [hnil, List.filterMap_nil] at hpaths
        have hpushed := hclosed.push hcall hshared (by simp [hpaths])
        rw [hpath] at hpushed
        rw [if_pos hoverlap]
        exact hpushed
      · rw [if_neg hoverlap]
        have hfree : ∀ existing ∈ s.wavePaths,
            pathSegmentsOverlap toLowerCase path existing = false := by
          simpa using hoverlap
        have hpushed := h.push hcall hshared (by simpa [hpath] using hfree)
        rw [hpath] at hpushed
        exact hpushed

theorem placed_foldl (calls : List ParallelizableToolCall) (h : calls <+: all) :
    Placed toLowerCase options all calls.length
      (calls.zipIdx.foldl (WaveState.place toLowerCase options) {}) := by
  induction calls using List.reverseRecOn with
  | nil => exact ⟨rfl, by simp, by simp, by simp, rfl⟩
  | append_singleton calls toolCall ih =>
    have hcall : all[calls.length]? = some toolCall := by
      obtain ⟨rest, rfl⟩ := h
      simp
    have hplaced := (ih ((List.prefix_append _ _).trans h)).place hcall
    rw [List.zipIdx_append, List.foldl_append, List.length_append, Nat.zero_add]
    exact hplaced

theorem partitionToolBatchWaves_wellFormed (toolCalls : List ParallelizableToolCall) :
    (partitionToolBatchWaves toLowerCase options toolCalls).flatten = List.range toolCalls.length ∧
      ∀ wave ∈ partitionToolBatchWaves toLowerCase options toolCalls,
        WellFormedWave toLowerCase options toolCalls wave := by
  have hplaced : Placed toLowerCase options toolCalls toolCalls.length
      (toolCalls.zipIdx.foldl (WaveState.place toLowerCase options) {}) :=
    placed_foldl toolCalls (List.prefix_refl toolCalls)
  obtain ⟨hclosed, hnil⟩ := hplaced.closeWave
  have hflatten := hclosed.flatten
  rw [hnil, List.append_nil] at hflatten
  exact ⟨hflatten, hclosed.waves⟩

end Waves

/-! ## Keys of scoped paths -/

section Keys

variable {cwd raw path key canonicalCwd : List Char} {segments front back : List (List Char)}

theorem collapsePathSegments_append (front back collapsed : List (List Char)) :
    collapsePathSegments (front ++ back) collapsed =
      (collapsePathSegments front collapsed).bind fun result =>
        collapsePathSegments back result.reverse := by
  induction front generalizing collapsed with
  | nil => simp [collapsePathSegments]
  | cons segment front ih =>
    simp only [List.cons_append, collapsePathSegments]
    split_ifs
    · exact ih collapsed
    · cases collapsed with
      | nil => rfl
      | cons last collapsed => exact ih collapsed
    · exact ih (segment :: collapsed)

theorem posixSegments_rdropWhile (path : List Char) :
    posixSegments (path.rdropWhile fun c => decide (c = '/')) = posixSegments path := by
  induction path using List.reverseRecOn with
  | nil => rfl
  | append_singleton path c ih =>
    by_cases hc : c = '/'
    · subst hc
      have hempty : posixSegments [] = [] := rfl
      rw [List.rdropWhile_concat_pos _ _ _ (by simp), ih, posixSegments_append, hempty, List.append_nil]
    · rw [List.rdropWhile_concat_neg _ _ _ (by simpa using hc)]

/-- A relative path below an absolute one. -/
theorem joinPathSegments_rooted (hcwd : Rooted (normalizePathSlashes cwd)) (hback : '\\' ∉ path)
    (hne : path ≠ []) (hhead : path.head? ≠ some '/') (hdrive : drivePrefix path = none) :
    Rooted (joinPathSegments cwd path) ∧ '\\' ∉ joinPathSegments cwd path ∧
      posixSegments (joinPathSegments cwd path) =
        posixSegments (normalizePathSlashes cwd) ++ posixSegments path := by
  have hslash : ¬ (['/'].isPrefixOf path || (drivePrefix path).isSome) = true := by
    rw [isPrefixOf_relative hhead [], hdrive]
    exact Bool.false_ne_true
  have hjoin : joinPathSegments cwd path =
      ((normalizePathSlashes cwd).rdropWhile fun c => decide (c = '/')) ++ '/' :: path := by
    unfold joinPathSegments
    dsimp only
    rw [normalizePathSlashes_eq hback, if_neg hne, if_neg hslash]
  have hfront := List.rdropWhile_prefix (fun c => decide (c = '/')) (normalizePathSlashes cwd)
  rw [hjoin]
  refine ⟨?_, ?_, by rw [posixSegments_append, posixSegments_rdropWhile]⟩
  · cases hbase : (normalizePathSlashes cwd).rdropWhile fun c => decide (c = '/') with
    | nil => exact ⟨rfl, isPrefixOf_relative hhead []⟩
    | cons first base =>
      rw [hbase] at hfront
      obtain ⟨rest, hrest⟩ := hfront
      have hfirst : first = '/' := by
        have hroot := hcwd.head
        rw [← hrest] at hroot
        exact Option.some.inj hroot
      subst hfirst
      cases base with
      | nil =>
        -- the base does not end in a slash
        have hlast := List.rdropWhile_last_not (fun c => decide (c = '/')) (normalizePathSlashes cwd)
          (by rw [hbase]; simp)
        simp [hbase] at hlast
      | cons c base =>
        have hsingle := hcwd.single
        rw [← hrest] at hsingle
        refine ⟨rfl, ?_⟩
        simpa [List.isPrefixOf] using hsingle
  · intro hmem
    rcases List.mem_append.mp hmem with hmem | hmem
    · exact notMem_normalizePathSlashes cwd (hfront.subset hmem)
    · rcases List.mem_cons.mp hmem with heq | hmem
      · exact absurd heq (by decide)
      · exact hback hmem

/-- The working directory is an absolute POSIX path. -/
structure PosixDirectory (cwd canonicalCwd : List Char) : Prop where
  canonical : canonicalizeLexicalPath cwd = some canonicalCwd
  root : canonicalCwd.head? = some '/'

theorem PosixDirectory.exists_segments (h : PosixDirectory cwd canonicalCwd) :
    Rooted (normalizePathSlashes cwd) ∧ ∃ segments, ProperSegments segments ∧
      canonicalCwd = absolutePath segments ∧
      collapsePathSegments (posixSegments (normalizePathSlashes cwd)) [] = some segments := by
  have hback := notMem_normalizePathSlashes cwd
  have hcanonical := h.canonical
  rw [← canonicalizeLexicalPath_normalize] at hcanonical
  have hhead : (normalizePathSlashes cwd).head? = some '/' := by
    rcases canonicalizeLexicalPath_cases hback hcanonical with
      ⟨letter, segments, halpha, -, -, -, rfl⟩ | ⟨segments, -, hhead, -⟩ | ⟨segments, hproper, -, -, -, rfl⟩
    · have hroot : letter = '/' := Option.some.inj h.root
      rw [hroot] at halpha
      exact absurd halpha (by decide)
    · exact hhead
    · exact absurd h.root (head?_joinSegments hproper)
  have hrooted := rooted_of_canonicalizeLexicalPath hhead hback hcanonical
  rw [hrooted.canonicalizeLexicalPath hback] at hcanonical
  obtain ⟨segments, hcollapse, rfl⟩ := Option.map_eq_some_iff.mp hcanonical
  exact ⟨hrooted, segments, properSegments_of_collapse hback hcollapse, rfl, hcollapse⟩

/-- A canonical path with a root: it is its own key, and no UNC path. -/
structure CanonicalKey (key : List Char) : Prop where
  canonical : canonicalizeLexicalPath key = some key
  rooted : isRootedPath key = true
  notUnc : ∀ toLowerCase, uncSegments toLowerCase (String.ofList key) = none

theorem canonicalKey_absolutePath (h : ProperSegments segments) : CanonicalKey (absolutePath segments) := by
  refine ⟨canonicalizeLexicalPath_absolutePath h, ?_, fun toLowerCase => uncSegments_absolutePath toLowerCase h⟩
  unfold isRootedPath
  rw [(rooted_absolutePath h).isPrefixOf, Bool.true_or]

/-- The path whose canonical form the waves compare. -/
def scopedText (cwd raw : List Char) : List Char :=
  if ['/'].isPrefixOf (normalizePathSlashes raw) then normalizePathSlashes raw
  else joinPathSegments cwd (normalizePathSlashes raw)

/-- What the waves compare is the key of the claim. -/
theorem resolveCanonicalPathKey_eq (hcwd : PosixDirectory cwd canonicalCwd) (hblank : trim raw ≠ [])
    (hkey : canonicalizeLexicalPath (scopedText cwd raw) = some key) :
    resolveCanonicalPathKey raw cwd = some key ∧ CanonicalKey key := by
  have hback := notMem_normalizePathSlashes raw
  obtain ⟨hrootedCwd, cwdSegments, hproper, hcanonicalCwd, hcollapse⟩ := hcwd.exists_segments
  have hcwdRooted := rooted_absolutePath hproper
  have hcwdKey := (canonicalKey_absolutePath hproper).rooted
  -- three leading slashes have no canonical form, so the leading slashes stay as they are
  have hspec : ∀ normalized, normalizeLeadingSlashes raw = normalized →
      ['/', '/'].isPrefixOf normalized = false → isDriveRelative normalized = false →
      canonicalizeLexicalPath (resolvedAgainst canonicalCwd normalized) = some key → CanonicalKey key →
      resolveCanonicalPathKey raw cwd = some key := by
    rintro normalized rfl hdouble hrelative hresolved hcanonicalKey
    unfold resolveCanonicalPathKey
    rw [if_neg hblank]
    simp only [hcwd.canonical, hcanonicalCwd, hdouble, hrelative, hcwdKey, Bool.or_self, Bool.not_true,
      Bool.false_eq_true, if_false]
    rw [← hcanonicalCwd, hresolved, Option.filter_some, if_pos hcanonicalKey.rooted]
  by_cases hhead : (normalizePathSlashes raw).head? = some '/'
  · have hscoped : scopedText cwd raw = normalizePathSlashes raw := by
      obtain ⟨rest, hrest⟩ := List.head?_eq_some_iff.mp hhead
      unfold scopedText
      rw [hrest]
      rfl
    rw [hscoped] at hkey
    have hrooted := rooted_of_canonicalizeLexicalPath hhead hback hkey
    obtain ⟨hkeyProper, rfl⟩ := hrooted.canonical hback hkey
    have hcanonicalKey := canonicalKey_absolutePath hkeyProper
    refine ⟨hspec (normalizePathSlashes raw) ?_ hrooted.single ?_ ?_ hcanonicalKey, hcanonicalKey⟩
    · obtain ⟨rest, hrest⟩ := List.head?_eq_some_iff.mp hhead
      have hsingle := hrooted.single
      unfold normalizeLeadingSlashes
      dsimp only
      rw [hrest] at hsingle ⊢
      rw [if_neg]
      cases rest with
      | nil => exact Bool.false_ne_true
      | cons c rest =>
        have hc : ('/' == c) = false := by simpa [List.isPrefixOf] using hsingle
        simp [List.isPrefixOf, hc]
    · rw [isDriveRelative, hrooted.drivePrefix]
      rfl
    · unfold resolvedAgainst
      rw [hrooted.hasDriveRoot, if_neg Bool.false_ne_true, hrooted.isPrefixOf, if_pos rfl, hcanonicalCwd,
        hcwdRooted.hasDriveRoot, if_neg Bool.false_ne_true]
      exact hkey
  · have hsingle (more : List Char) : ('/' :: more).isPrefixOf (normalizePathSlashes raw) = false :=
      isPrefixOf_relative hhead more
    have hscoped : scopedText cwd raw = joinPathSegments cwd (normalizePathSlashes raw) := by
      unfold scopedText
      rw [hsingle, if_neg Bool.false_ne_true]
    have hnormalized : normalizeLeadingSlashes raw = normalizePathSlashes raw := by
      unfold normalizeLeadingSlashes
      dsimp only
      rw [hsingle, if_neg Bool.false_ne_true]
    have hne : normalizePathSlashes raw ≠ [] := by
      intro hnil
      obtain rfl : raw = [] := List.map_eq_nil_iff.mp hnil
      exact hblank rfl
    rw [hscoped] at hkey
    cases hdrive : drivePrefix (normalizePathSlashes raw) with
    | none =>
      obtain ⟨hrooted, hjoinBack, hsegments⟩ :=
        joinPathSegments_rooted hrootedCwd hback hne hhead hdrive
      obtain ⟨hrooted', hjoinBack', hsegments'⟩ :=
        joinPathSegments_absolutePath hproper hback hne hhead hdrive
      have hsame : canonicalizeLexicalPath (joinPathSegments canonicalCwd (normalizePathSlashes raw)) =
          canonicalizeLexicalPath (joinPathSegments cwd (normalizePathSlashes raw)) := by
        rw [hcanonicalCwd, hrooted'.canonicalizeLexicalPath hjoinBack', hrooted.canonicalizeLexicalPath hjoinBack,
          hsegments, hsegments', collapsePathSegments_append, collapsePathSegments_append, hcollapse,
          collapsePathSegments_proper hproper]
        rfl
      obtain ⟨hkeyProper, rfl⟩ := hrooted.canonical hjoinBack hkey
      have hcanonicalKey := canonicalKey_absolutePath hkeyProper
      refine ⟨hspec (normalizePathSlashes raw) hnormalized (hsingle _) ?_ ?_ hcanonicalKey, hcanonicalKey⟩
      · rw [isDriveRelative, hdrive]
        rfl
      · unfold resolvedAgainst
        rw [hasDriveRoot, hdrive, Option.any_none, if_neg Bool.false_ne_true, hsingle,
          if_neg Bool.false_ne_true, hsame]
        exact hkey
    | some drive =>
      obtain ⟨letter, rest⟩ := drive
      obtain ⟨halpha, hpath⟩ := isAlpha_of_drivePrefix hdrive
      have hjoin : joinPathSegments cwd (normalizePathSlashes raw) = normalizePathSlashes raw := by
        unfold joinPathSegments
        dsimp only
        rw [normalizePathSlashes_eq hback, if_neg hne, hdrive, Option.isSome_some, Bool.or_true, if_pos rfl]
      rw [hjoin] at hkey
      -- a drive without a slash behind it has no canonical form
      have hslash : rest.head? = some '/' := by
        by_contra hnot
        have hnone : driveAbsolute (letter :: ':' :: rest) = none := by
          rw [driveAbsolute, ← hpath, hdrive]
          cases rest with
          | nil => rfl
          | cons c rest =>
            have hc : c ≠ '/' := fun heq => hnot (heq ▸ rfl)
            split <;> simp_all
        rw [hpath, canonicalizeLexicalPath_eq_none halpha (fun hmem => hback (by rw [hpath]; simp [hmem]))
          hnone] at hkey
        cases hkey
      have hcanonicalKey : CanonicalKey key := by
        rcases canonicalizeLexicalPath_cases hback hkey with
          ⟨found, segments, hfound, hsegments, hline, -, rfl⟩ | ⟨segments, -, hroot, -⟩ | ⟨segments, -, -, hnone, -⟩
        · have hdriveKey : drivePrefix (found :: ':' :: '/' :: joinSegments segments) =
              some (found, '/' :: joinSegments segments) := by
            rw [drivePrefix, if_pos hfound]
          refine ⟨canonicalizeLexicalPath_drive hfound hsegments hline, ?_, ?_⟩
          · simp [isRootedPath, hasDriveRoot, hdriveKey]
          · intro toLowerCase
            have hne : found ≠ '/' := by
              rintro rfl
              exact absurd hfound (by decide)
            rw [uncSegments, String.toList_ofList]
            split
            · next heq => exact absurd (List.cons.inj heq).1 hne
            · rfl
        · exact absurd hroot hhead
        · rw [hdrive] at hnone
          cases hnone
      refine ⟨hspec (normalizePathSlashes raw) hnormalized (hsingle _) ?_ ?_ hcanonicalKey, hcanonicalKey⟩
      · rw [isDriveRelative, hdrive]
        simp [hslash]
      · unfold resolvedAgainst
        rw [hasDriveRoot, hdrive, Option.any_some, hslash, decide_eq_true rfl, if_pos rfl]
        exact hkey

end Keys

/-! ## Claims of the calls of one wave -/

section Claims

variable {toLowerCase : List Char → List Char} {options : ShouldParallelizeToolBatchOptions}
  {toolCall left right : ParallelizableToolCall} {canonicalCwd : List Char}

/-- A call of a file tool whose path does not start with a tilde, which only the waves expand. -/
structure PlainFileCall (toolCall : ParallelizableToolCall) : Prop where
  fileTool : pathScopedTools.contains toolCall.name = true
  tilde : ∀ path ∈ pathArgument toolCall.arguments, path.head? ≠ some '~'

/-- Two calls of file tools do not conflict under their claims. -/
def ClaimsApart (toLowerCase : List Char → List Char) (options : ShouldParallelizeToolBatchOptions)
    (left right : ParallelizableToolCall) : Prop :=
  PlainFileCall left → PlainFileCall right →
    ∀ leftClaims ∈ pathToolClaims options left, ∀ rightClaims ∈ pathToolClaims options right,
      resolutionsConflict toLowerCase leftClaims rightClaims = false

/-- The tool of a file call. -/
theorem pathTool_of_scoped {name : String} (h : pathScopedTools.contains name = true) :
    ∃ tool, pathTool name = some tool ∧ tool.isSearch = false ∧ neverParallelTools.contains name = false ∧
      name ≠ "bash" := by
  have hname : name = "read" ∨ name = "write" ∨ name = "edit" := by
    simpa [pathScopedTools] using h
  rcases hname with rfl | rfl | rfl
  · exact ⟨.read, rfl, rfl, rfl, by decide⟩
  · exact ⟨.write, rfl, rfl, rfl, by decide⟩
  · exact ⟨.edit, rfl, rfl, rfl, by decide⟩

/-- What a file call that shares a wave reserves, and what it claims. -/
theorem PlainFileCall.reserves (h : PlainFileCall toolCall) (hshared : ¬ RunsAlone options toolCall) :
    ∃ tool raw, trim raw ≠ [] ∧ scopedPath options toolCall = some (scopedText options.cwd raw) ∧
      pathToolClaims options toolCall = some (resolveToolClaims false ⟨tool, some raw⟩ options.cwd) ∧
      tool.isSearch = false := by
  obtain ⟨tool, htool, hsearch, hnever, hbash⟩ := pathTool_of_scoped h.fileTool
  unfold RunsAlone at hshared
  rw [not_or, not_and] at hshared
  obtain ⟨hsolo, hpath⟩ := hshared
  have hkind : classifyToolCall options toolCall = .path ∧
      options.toolPolicies toolCall.name ≠ some .sequential ∧ toolCall.arguments.isRecord = true := by
    unfold classifyToolCall at hsolo ⊢
    simp only [hnever, hbash, h.fileTool, Bool.false_eq_true, if_false, if_true] at hsolo ⊢
    split_ifs at hsolo ⊢ with hpolicy hrecord
    · exact absurd rfl hsolo
    · exact absurd rfl hsolo
    · exact ⟨rfl, hpolicy, by simpa using hrecord⟩
  obtain ⟨hkind, hpolicy, hrecord⟩ := hkind
  have hscope := hpath hkind
  have hclaims : pathToolClaims options toolCall =
      some (resolveToolClaims false ⟨tool, pathArgument toolCall.arguments⟩ options.cwd) := by
    unfold pathToolClaims
    rw [htool, hrecord, decide_eq_false hpolicy]
    rfl
  have hscoped : scopedPath options toolCall = extractParallelScopePath options toolCall := if_pos hkind
  unfold extractParallelScopePath at hscoped hscope
  rw [h.fileTool] at hscoped hscope
  simp only [Bool.not_true, Bool.false_eq_true, if_false] at hscoped hscope
  cases hargument : pathArgument toolCall.arguments with
  | none =>
    rw [hargument] at hscope
    exact absurd rfl hscope
  | some raw =>
    rw [hargument] at hscope hscoped hclaims
    simp only [if_neg (h.tilde raw hargument)] at hscope hscoped
    by_cases hblank : trim raw = []
    · exact absurd (if_pos hblank) hscope
    · refine ⟨tool, raw, hblank, ?_, hclaims, hsearch⟩
      rw [hscoped, if_neg hblank]
      unfold scopedText
      split_ifs <;> rfl

/-- The claim of a file call with a key. -/
theorem resolveToolClaims_eq {tool : PathTool} {raw cwd key : List Char} (hsearch : tool.isSearch = false)
    (hkey : resolveCanonicalPathKey raw cwd = some key) :
    resolveToolClaims false ⟨tool, some raw⟩ cwd =
      .claims [.path (String.ofList key) (builtinPathAccess tool) none none] := by
  unfold resolveToolClaims resolvePathClaimKey builtinRawPath
  simp only [hsearch, Bool.false_eq_true, if_false, Option.bind_some, hkey]

/-- Keys that do not overlap do not conflict. -/
theorem claimsConflict_of_apart {leftKey rightKey : String} {leftAccess rightAccess : ToolResourceAccess}
    (h : identityPathKeysOverlap toLowerCase leftKey rightKey = false) :
    claimsConflict toLowerCase (.path leftKey leftAccess none none) (.path rightKey rightAccess none none) =
      false := by
  have hpaths : pathClaimsOverlap toLowerCase leftKey none none rightKey none none = false := by
    simp [pathClaimsOverlap, pathClaimKeys, h]
  unfold claimsConflict
  cases leftAccess <;> cases rightAccess <;>
    simp [ToolResourceClaim.access, ToolResourceAccess.toResourceAccess, ToolResourceClaim.kind, hpaths]

theorem canonical_of_apart {leftPath rightPath : List Char}
    (h : pathSegmentsOverlap toLowerCase leftPath rightPath = false) :
    ∃ key, canonicalizeLexicalPath leftPath = some key := by
  cases hkey : canonicalizeLexicalPath leftPath with
  | none =>
    rw [pathSegmentsOverlap_of_none hkey] at h
    exact absurd h (by decide)
  | some key => exact ⟨key, rfl⟩

/-- Calls whose reserved paths do not overlap do not conflict. -/
theorem claimsApart_of_pathsApart (hcwd : PosixDirectory options.cwd canonicalCwd)
    (hleft : ¬ RunsAlone options left) (hright : ¬ RunsAlone options right)
    (h : PathsApart toLowerCase options left right) : ClaimsApart toLowerCase options left right := by
  intro hplainLeft hplainRight leftClaims hleftClaims rightClaims hrightClaims
  obtain ⟨leftTool, leftRaw, hleftBlank, hleftPath, hleftEq, hleftSearch⟩ := hplainLeft.reserves hleft
  obtain ⟨rightTool, rightRaw, hrightBlank, hrightPath, hrightEq, hrightSearch⟩ :=
    hplainRight.reserves hright
  have hapart := h _ hleftPath _ hrightPath
  have hapart' := hapart
  rw [pathSegmentsOverlap_comm] at hapart'
  obtain ⟨leftKey, hleftKey⟩ := canonical_of_apart hapart
  obtain ⟨rightKey, hrightKey⟩ := canonical_of_apart hapart'
  obtain ⟨hleftResolved, hleftCanonical⟩ := resolveCanonicalPathKey_eq hcwd hleftBlank hleftKey
  obtain ⟨hrightResolved, hrightCanonical⟩ := resolveCanonicalPathKey_eq hcwd hrightBlank hrightKey
  obtain rfl := Option.some.inj (hleftEq.symm.trans hleftClaims)
  obtain rfl := Option.some.inj (hrightEq.symm.trans hrightClaims)
  have hkeys : identityPathKeysOverlap toLowerCase (String.ofList leftKey) (String.ofList rightKey) = false := by
    rw [identityPathKeysOverlap, hleftCanonical.notUnc, hrightCanonical.notUnc]
    simp only [String.toList_ofList]
    unfold pathSegmentsOverlap canonicalPathParts at hapart ⊢
    rw [hleftCanonical.canonical, hrightCanonical.canonical]
    rw [hleftKey, hrightKey] at hapart
    exact hapart
  rw [resolveToolClaims_eq hleftSearch hleftResolved, resolveToolClaims_eq hrightSearch hrightResolved]
  simp [resolutionsConflict, claimsConflict_of_apart hkeys]

end Claims

/-- A call with a path. -/
def callOn (name path : String) : ParallelizableToolCall := ⟨name, .obj [("path", .str path)]⟩

/-- A working directory of an ordinary file system, with nothing linked. -/
def inW : ShouldParallelizeToolBatchOptions := ⟨"/w".toList, fun _ => none, fun _ => false, id⟩

end Agent
