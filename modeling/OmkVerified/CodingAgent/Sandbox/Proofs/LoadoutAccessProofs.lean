import OmkVerified.CodingAgent.Sandbox.LoadoutAccess

/-!
# What a loadout confines its tools to

A request that is allowed reaches what the canonical path says as long as no link on its path leads to
nothing; then the file lies in a root, and what is left is that the patterns look at the file alone.
-/

namespace LoadoutAccess

open Lib
open FileSystem (Location)
open Subagents (forwardSlashes)

/-! ## Sorted values -/

theorem mem_uniqueSorted {α : Type} [BEq α] [LawfulBEq α] {text : α → List Char} {values : List α}
    {value : α} : value ∈ uniqueSorted text values ↔ value ∈ values := by
  unfold uniqueSorted
  rw [(List.mergeSort_perm _ _).mem_iff, List.mem_eraseDups]

theorem any_uniqueSorted {α : Type} [BEq α] [LawfulBEq α] {text : α → List Char} {values : List α}
    {p : α → Bool} : (uniqueSorted text values).any p = values.any p := by
  rw [Bool.eq_iff_iff, List.any_eq_true, List.any_eq_true]
  exact exists_congr fun value => and_congr_left fun _ => mem_uniqueSorted

/-! ## Roots -/

theorem relativeSegments_of_not_prefix {root path : Location FileName} (h : ¬ root <+: path) :
    ∃ rest, relativeSegments root path = ['.', '.'] :: rest := by
  induction root generalizing path with
  | nil => exact absurd List.nil_prefix h
  | cons first root ih =>
    cases path with
    | nil =>
      rw [relativeSegments, List.length_cons, List.replicate_succ]
      · exact ⟨_, List.cons_append⟩
      · intro _ _ _ _ _ hnil
        cases hnil
    | cons second path =>
      rw [relativeSegments]
      split_ifs with heq
      · subst heq
        apply ih
        intro hpre
        exact h ((List.prefix_cons_inj first).mpr hpre)
      · rw [List.replicate_succ]
        exact ⟨_, List.cons_append⟩

theorem prefix_of_containsPath {root path : Location FileName} (h : containsPath root path = true) :
    root <+: path := by
  by_contra hnot
  obtain ⟨rest, hrest⟩ := relativeSegments_of_not_prefix hnot
  have hne : path ≠ root := by
    rintro rfl
    exact hnot List.prefix_rfl
  have hup : ['.', '.'].isPrefixOf (relative root path) = true := by
    rw [List.isPrefixOf_iff_prefix, relative, hrest]
    cases rest with
    | nil => exact List.prefix_rfl
    | cons second rest => exact ⟨_, rfl⟩
  rw [containsPath, hup] at h
  simp [hne] at h

variable {policy : LoadoutAccessPolicy} {request : LoadoutPathAccessRequest}
  {normalizedPath : Location FileName}

section Files

variable {fs : FileSystem FileName} {links : Nat} {path location : Location FileName}

theorem canonicalize_found {left : Nat} (h : fs.lookup links path = .found location left) :
    canonicalizeExistingPrefix fs links path = location := by
  unfold canonicalizeExistingPrefix
  rcases List.eq_nil_or_concat path with rfl | ⟨front, name, rfl⟩
  · rw [FileSystem.lookup_nil, FileSystem.Outcome.found.injEq] at h
    exact h.1
  · rw [List.concat_eq_append] at h ⊢
    rw [List.reverse_append, List.reverse_singleton, List.singleton_append, canonicalizeNames]
    simp only [List.reverse_cons, List.reverse_reverse, h]

theorem canonicalize_not_exists {front : Location FileName} {name : FileName}
    (h : ¬ fs.Exists links (front ++ [name])) :
    canonicalizeExistingPrefix fs links (front ++ [name]) =
      canonicalizeExistingPrefix fs links front ++ [name] := by
  unfold canonicalizeExistingPrefix
  rw [List.reverse_append, List.reverse_singleton, List.singleton_append, canonicalizeNames, existsSync]
  simp only [List.reverse_cons, List.reverse_reverse]
  cases hlookup : fs.lookup links (front ++ [name]) with
  | found location left => exact absurd ⟨location, left, hlookup⟩ h
  | missing missed rest => rfl
  | failed error => rfl

theorem canonicalize_behind {front rest : Location FileName} {name : FileName}
    (h : ¬ fs.Exists links (front ++ [name])) :
    canonicalizeExistingPrefix fs links (front ++ name :: rest) =
      canonicalizeExistingPrefix fs links front ++ name :: rest := by
  induction rest using List.reverseRecOn with
  | nil => exact canonicalize_not_exists h
  | append_singleton rest last ih =>
    have hbelow : ¬ fs.Exists links ((front ++ name :: rest) ++ [last]) := by
      intro hexists
      apply h
      apply FileSystem.Exists.front
      rwa [List.append_assoc, List.cons_append, List.append_cons] at hexists
    rw [← List.cons_append, ← List.append_assoc, canonicalize_not_exists hbelow, ih,
      List.append_assoc]

theorem canonicalize_eq (h : fs.Names links path location) (hlead : fs.LinksLead links path) :
    canonicalizeExistingPrefix fs links path = location := by
  rcases FileSystem.exists_front fs links path with
    ⟨reached, left, hfound⟩ | ⟨front, name, rest, directory, left, rfl, hfront, hname⟩
  · rw [canonicalize_found hfound, h.eq_of_found hfound]
  · rw [canonicalize_behind hname, canonicalize_found hfront, h.eq_behind hlead hfront hname]

/-! ## Decisions -/

theorem isBlockedPath_eq (policy : LoadoutAccessPolicy) (path : Location FileName) :
    isBlockedPath policy path = policy.blockedPaths.any fun pattern =>
      globMatch pattern (forwardSlashes (pathText path)) ||
        globMatch pattern (forwardSlashes (relative policy.cwd path)) := by
  simp only [isBlockedPath, any_uniqueSorted, List.any_cons, List.any_nil, Bool.or_false]

/-- A path is allowed when nothing blocks it and a root contains it. -/
theorem decideNormalizedPath_allowed_iff
    (h : normalizeRequestPath fs links policy.cwd request.path = some normalizedPath) :
    (decidePathAccess fs links policy request).allowed = true ↔
      isBlockedPath policy normalizedPath = false ∧
        ∃ root ∈ policy.rootsFor request.operation, containsPath root normalizedPath = true := by
  unfold decidePathAccess
  rw [h]
  dsimp only
  by_cases hblocked : isBlockedPath policy normalizedPath = true
  · rw [if_pos hblocked]
    simp [deny, hblocked]
  · rw [if_neg hblocked, Bool.eq_false_iff.mpr hblocked, ← List.any_eq_true]
    cases request.operation with
    | read =>
      dsimp only [LoadoutAccessPolicy.rootsFor]
      rw [any_uniqueSorted]
      split_ifs with hempty hany
      · have hnil : policy.readRoots ++ policy.writeRoots = [] := by
          rw [List.length_eq_zero_iff, List.eq_nil_iff_forall_not_mem] at hempty
          rw [List.eq_nil_iff_forall_not_mem]
          exact fun root hroot => hempty root ((mem_uniqueSorted).mpr hroot)
        simp [deny, hnil]
      · simp [allow, hany]
      · simp [deny, hany]
    | write =>
      dsimp only [LoadoutAccessPolicy.rootsFor]
      split_ifs with hempty hany
      · simp [deny, List.length_eq_zero_iff.mp hempty]
      · simp [allow, hany]
      · simp [deny, hany]

theorem decideLoadoutAccess_path_iff :
    (decideLoadoutAccess fs links policy (.path request)).allowed = true ↔
      isActiveLoadoutTool policy request.toolName = true ∧
        (decidePathAccess fs links policy request).allowed = true := by
  simp only [decideLoadoutAccess]
  cases isActiveLoadoutTool policy request.toolName <;> simp [deny]

theorem normalizeRequestPath_of_allowed
    (h : (decidePathAccess fs links policy request).allowed = true) :
    ∃ normalizedPath, normalizeRequestPath fs links policy.cwd request.path = some normalizedPath := by
  rw [← Option.ne_none_iff_exists']
  intro hnone
  rw [decidePathAccess, hnone] at h
  cases h

theorem forwardSlashes_eq {text : List Char} (h : '\\' ∉ text) : forwardSlashes text = text := by
  unfold forwardSlashes
  rw [List.map_congr_left (g := id), List.map_id]
  intro c hc
  rw [if_neg]
  · rfl
  · rintro rfl
    exact h hc

/-- The path that is decided on is the file that the request names. -/
theorem normalizeRequestPath_eq {cwd : Location FileName} {requestedPath : List Char}
    (hslash : '\\' ∉ requestedPath)
    (h : normalizeRequestPath fs links cwd requestedPath = some normalizedPath)
    (hnames : fs.Names links (resolveLocation cwd requestedPath) location)
    (hlead : fs.LinksLead links (resolveLocation cwd requestedPath)) :
    normalizedPath = location := by
  obtain ⟨normalized, hchecked, rfl⟩ := Option.map_eq_some_iff.mp h
  have hsame : normalized = requestedPath := by
    simp only [checkedPath, Option.ite_none_left_eq_some, Option.some.injEq] at hchecked
    rw [← hchecked.2, forwardSlashes_eq hslash]
  rw [hsame, canonicalize_eq hnames hlead]

end Files

section Sample

def repoName : FileName := ⟨['r', 'e', 'p', 'o'], by decide⟩

def outName : FileName := ⟨['o', 'u', 't'], by decide⟩

def gitName : FileName := ⟨['.', 'g', 'i', 't'], by decide⟩

def hooksName : FileName := ⟨['h', 'o', 'o', 'k', 's'], by decide⟩

def otherName : FileName := ⟨['o', 't', 'h', 'e', 'r'], by decide⟩

def newName : FileName := ⟨"new".toList, by decide⟩

/-- The link `/repo/out/new` leads to `/other/new`, which is not there. -/
def sampleFiles : FileSystem FileName :=
  .ofEntries
    [[], [repoName], [otherName], [repoName, outName], [repoName, outName, gitName],
      [repoName, outName, gitName, hooksName]]
    [([repoName, outName, newName], ⟨true, [.name otherName, .name newName]⟩)] (by decide) (by decide)

def samplePolicy : LoadoutAccessPolicy where
  cwd := [repoName]
  activeTools := uniqueSorted id [['w', 'r', 'i', 't', 'e']]
  readRoots := []
  writeRoots := uniqueSorted pathText [[repoName, outName]]
  blockedPaths := uniqueSorted id defaultBlockedPaths
  commands := { mode := .none }

def sampleOptions : CreateLoadoutAccessPolicyOptions :=
  { cwd := ['/', 'r', 'e', 'p', 'o']
    activeTools := [['w', 'r', 'i', 't', 'e']]
    writeSet := some [{ path := ['o', 'u', 't'] }] }

def throughLink : LoadoutPathAccessRequest :=
  { operation := .write, toolName := ['w', 'r', 'i', 't', 'e'], path := ['o', 'u', 't', '/', 'n', 'e', 'w'] }

def belowGit : LoadoutPathAccessRequest :=
  { operation := .write
    toolName := ['w', 'r', 'i', 't', 'e']
    path := ['o', 'u', 't', '/', '.', 'g', 'i', 't', '/', 'h', 'o', 'o', 'k', 's', '/', 'n', 'e', 'w'] }

theorem active_write : isActiveLoadoutTool samplePolicy ['w', 'r', 'i', 't', 'e'] = true :=
  decide_eq_true ((mem_uniqueSorted).mpr (List.mem_singleton.mpr rfl))

theorem root_out : [repoName, outName] ∈ samplePolicy.rootsFor .write :=
  (mem_uniqueSorted).mpr List.mem_cons_self

theorem blocked_sample (path : Location FileName) :
    isBlockedPath samplePolicy path = defaultBlockedPaths.any fun pattern =>
      globMatch pattern (forwardSlashes (pathText path)) ||
        globMatch pattern (forwardSlashes (relative [repoName] path)) := by
  rw [isBlockedPath_eq]
  exact any_uniqueSorted

theorem allowed_sample {path : List Char}
    (hpath : normalizeRequestPath sampleFiles 40 [repoName] path = some normalizedPath)
    (hblocked : (defaultBlockedPaths.any fun pattern =>
      globMatch pattern (forwardSlashes (pathText normalizedPath)) ||
        globMatch pattern (forwardSlashes (relative [repoName] normalizedPath))) = false)
    (hcontains : containsPath [repoName, outName] normalizedPath = true) :
    (decideLoadoutAccess sampleFiles 40 samplePolicy
      (.path { operation := .write, toolName := ['w', 'r', 'i', 't', 'e'], path })).allowed = true := by
  rw [decideLoadoutAccess_path_iff]
  refine ⟨active_write, (decideNormalizedPath_allowed_iff hpath).mpr ⟨?_, _, root_out, hcontains⟩⟩
  rw [blocked_sample, hblocked]

theorem allowed_throughLink :
    (decideLoadoutAccess sampleFiles 40 samplePolicy (.path throughLink)).allowed = true :=
  allowed_sample rfl (by decide) (by decide)

theorem allowed_belowGit :
    (decideLoadoutAccess sampleFiles 40 samplePolicy (.path belowGit)).allowed = true :=
  allowed_sample rfl (by decide)
    (by decide)

def plainWrite : LoadoutPathAccessRequest :=
  { operation := .write
    toolName := ['w', 'r', 'i', 't', 'e']
    path := ['o', 'u', 't', '/', 'r', 'e', 'p', 'o'] }

end Sample

end LoadoutAccess
