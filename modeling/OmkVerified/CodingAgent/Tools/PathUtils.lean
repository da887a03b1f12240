import OmkVerified.Lib.Scan
import OmkVerified.Agent.Proofs.BuiltinClaimsProofs
import OmkVerified.Agent.Proofs.ToolDagSchedulerProofs

/-!
# The paths of the tools

`packages/coding-agent/src/core/tools/path-utils.ts` and what it uses of `utils/paths.ts`, on a POSIX platform: the
absolute paths that the built-in tools work on.
-/

namespace CodingAgent.PathUtils

open Agent Lib

/-- What the host says. -/
structure Host where
  homedir : List Char
  /-- The segments of `process.cwd()`. -/
  cwd : List (List Char)
  /-- `none` when it throws. -/
  fileURLToPath : List Char → Option (List Char)
  fileExists : List Char → Bool
  /-- `filePath.normalize("NFD")`. -/
  nfd : List Char → List Char

/-- `UNICODE_SPACES`. -/
def isUnicodeSpace (c : Char) : Bool :=
  c = '\u00a0' || (0x2000 ≤ c.toNat && c.toNat ≤ 0x200a) || c = '\u202f' || c = '\u205f' || c = '\u3000'

variable (host : Host)

/-- The end of `normalizePath`: a tilde and file URLs. -/
def expandTilde (normalized : List Char) : Option (List Char) :=
  if normalized = ['~'] then some host.homedir
  else if ['~', '/'].isPrefixOf normalized then some (posixJoin host.homedir (normalized.drop 2))
  else if "file://".toList.isPrefixOf normalized then host.fileURLToPath normalized
  else some normalized

/-- `expandPath`: `normalizePath` with Unicode spaces normalized and a leading `@` stripped. -/
def expandPath (filePath : List Char) : Option (List Char) :=
  let normalized := filePath.map fun c => if isUnicodeSpace c then ' ' else c
  expandTilde host (if normalized.head? = some '@' then normalized.tail else normalized)

/-- The absolute path of a normalized path. -/
def resolveFrom (normalized normalizedBaseDir : List Char) : List Char :=
  if normalized.head? = some '/' then resolvePath host.cwd normalized
  else resolvePath (resolveSegments host.cwd normalizedBaseDir) normalized

def resolveToCwd (filePath cwd : List Char) : Option (List Char) :=
  match expandPath host filePath, expandTilde host cwd with
  | some normalized, some normalizedBaseDir => some (resolveFrom host normalized normalizedBaseDir)
  | _, _ => none

/-- `/ (AM|PM)\./i` at the front: the two letters and what follows the match. -/
def amPm : Scan.Finder Char (List Char)
  | ' ' :: first :: second :: '.' :: rest =>
    if first ∈ ['A', 'a', 'P', 'p'] ∧ second ∈ ['M', 'm'] then some ([first, second], rest) else none
  | _ => none

def tryMacOSScreenshotPath (filePath : List Char) : List Char :=
  Scan.replaceAll amPm (fun letters => '\u202f' :: letters ++ ['.']) filePath

def tryCurlyQuoteVariant (filePath : List Char) : List Char :=
  filePath.map fun c => if c = '\'' then '\u2019' else c

/-- The paths that are tried for a file to read, in their order. -/
def readVariants (resolved : List Char) : List (List Char) :=
  [tryMacOSScreenshotPath resolved, host.nfd resolved, tryCurlyQuoteVariant resolved,
    tryCurlyQuoteVariant (host.nfd resolved)]

/-- The file as it is spelled, or the first variant that exists. -/
def readPath (resolved : List Char) : List Char :=
  if host.fileExists resolved then resolved
  else ((readVariants host resolved).find? fun variant => variant ≠ resolved && host.fileExists variant).getD resolved

/-- `resolveReadPathAsync`. -/
def resolveReadPath (filePath cwd : List Char) : Option (List Char) :=
  (resolveToCwd host filePath cwd).map (readPath host)

/-- The absolute path a call works on, if it gets so far. -/
def toolPath (call : PathCall) (cwd : List Char) : Option (List Char) :=
  match call.tool with
  | .read => call.path.bind fun path => resolveReadPath host path cwd
  | .write | .edit => call.path.bind fun path => resolveToCwd host path cwd
  | .grep | .find | .ls => resolveToCwd host ((call.path.filter fun path => path ≠ []).getD ['.']) cwd

end CodingAgent.PathUtils

/-!
# Claims and the paths of the tools

The key of a call names the path that the tool works on, or a directory above it, where the path is spelled as
POSIX has it: no tilde, no `@`, no file URL, no Unicode space, no backslash and no drive. The tools understand the
first four, and the claims do not; the claims understand the last two, and a POSIX platform does not.
-/

namespace CodingAgent.PathUtils

open Agent Lib

variable (host : Host) (cwd : List Char)

/-- One of the paths contains the other. -/
def Overlap (left right : List Char) : Prop :=
  posixSegments left <+: posixSegments right ∨ posixSegments right <+: posixSegments left

/-- Two calls conflict, and the scheduler never runs them together. -/
structure KeptApart (toLowerCase : List Char → List Char) (left right : ToolClaimResolution) : Prop where
  conflict : resolutionsConflict toLowerCase left right = true
  apart : ∀ (batch : List ToolClaimResolution) (cap : ConcurrencyCap) (i j : Nat), i ≠ j →
    batch[i]? = some left → batch[j]? = some right →
      ∀ chunk ∈ scheduleDagLevels toLowerCase batch cap, i ∈ chunk → j ∉ chunk

/-- Two calls, at least one of which writes, are kept apart where their paths overlap. -/
def ClaimsCover (toLowerCase : List Char → List Char) (sequential : PathTool → Bool) (left right : PathCall) : Prop :=
  (builtinPathAccess left.tool = .write ∨ builtinPathAccess right.tool = .write) →
    ∀ leftPath ∈ toolPath host left cwd, ∀ rightPath ∈ toolPath host right cwd, Overlap leftPath rightPath →
      KeptApart toLowerCase (resolveToolClaims (sequential left.tool) left cwd)
        (resolveToolClaims (sequential right.tool) right cwd)

/-- The file exists as it is spelled, or no variant of it does. -/
def ExistsAsSpelled (resolved : List Char) : Prop :=
  host.fileExists resolved = true ∨
    ∀ variant ∈ readVariants host resolved, variant = resolved ∨ host.fileExists variant = false

/-- The path is spelled as POSIX has it, or a search tool has none. -/
inductive SpelledPlainly : PathCall → Prop
  | path {tool : PathTool} {path : List Char} (hposix : PosixSpelled path) (hexpand : expandPath host path = some path)
      (hread : tool = .read → ExistsAsSpelled host (resolveFrom host path cwd)) : SpelledPlainly ⟨tool, some path⟩
  | blank {call : PathCall} (hsearch : call.tool.isSearch = true) (hblank : ∀ path ∈ call.path, trim path = []) :
      SpelledPlainly call

/-- A working directory as POSIX has it. -/
structure PlainDirectory : Prop where
  absolute : cwd.head? = some '/'
  backslash : '\\' ∉ cwd

variable {host cwd}

theorem readPath_eq {resolved : List Char} (h : ExistsAsSpelled host resolved) : readPath host resolved = resolved := by
  unfold readPath
  split_ifs with hexists
  · rfl
  · have hnone : (readVariants host resolved).find? (fun variant => variant ≠ resolved && host.fileExists variant) =
        none := by
      rw [List.find?_eq_none]
      intro variant hmem
      rcases h with hfound | hvariants
      · exact absurd hfound hexists
      · rcases hvariants variant hmem with heq | hmissing
        · simp [heq]
        · simp [hmissing]
    rw [hnone, Option.getD_none]

/-! ## White space -/

theorem isWhitespace_of_trim_eq_nil {text : List Char} (h : trim text = []) : ∀ c ∈ text, isWhitespace c = true := by
  rw [trim, List.reverse_eq_nil_iff, List.dropWhile_eq_nil_iff] at h
  have hempty : text.dropWhile isWhitespace = [] := by
    by_contra hne
    obtain ⟨c, rest, hcons⟩ := List.exists_cons_of_ne_nil hne
    have hhead := List.head_dropWhile_not isWhitespace hne
    have hc := h c (by rw [hcons]; simp)
    simp only [hcons, List.head_cons] at hhead
    rw [hc] at hhead
    cases hhead
  exact List.dropWhile_eq_nil_iff.mp hempty

theorem expandTilde_whitespace {text : List Char} (h : ∀ c ∈ text, isWhitespace c = true) :
    expandTilde host text = some text := by
  have habsent (c : Char) (hc : isWhitespace c = false) : c ∉ text := by
    intro hmem
    rw [h c hmem] at hc
    cases hc
  have hfront (front : List Char) (c : Char) (hc : isWhitespace c = false) (hmem : c ∈ front) :
      ¬ front.isPrefixOf text = true := by
    intro hpre
    exact habsent c hc ((List.isPrefixOf_iff_prefix.mp hpre).subset hmem)
  unfold expandTilde
  rw [if_neg, if_neg (hfront _ '~' (by decide) (by decide)), if_neg (hfront _ 'f' (by decide) (by decide))]
  rintro rfl
  exact habsent '~' (by decide) List.mem_cons_self

theorem expandPath_whitespace {path : List Char} (h : ∀ c ∈ path, isWhitespace c = true) :
    ∃ blank, expandPath host path = some blank ∧ ∀ c ∈ blank, isWhitespace c = true := by
  have hblank : ∀ c ∈ path.map fun c => if isUnicodeSpace c then ' ' else c, isWhitespace c = true := by
    intro c hmem
    obtain ⟨original, horiginal, rfl⟩ := List.mem_map.mp hmem
    split_ifs
    · rfl
    · exact h original horiginal
  refine ⟨_, ?_, hblank⟩
  unfold expandPath
  dsimp only
  rw [if_neg, expandTilde_whitespace hblank]
  intro hhead
  have hat := hblank '@' (List.mem_of_mem_head? hhead)
  exact absurd hat (by decide)

/-! ## Paths -/

theorem expandTilde_absolute (h : cwd.head? = some '/') : expandTilde host cwd = some cwd := by
  obtain ⟨rest, rfl⟩ := List.head?_eq_some_iff.mp h
  unfold expandTilde
  rw [if_neg (by simp), if_neg (by simp), if_neg (by simp)]

theorem resolveFrom_eq (hcwd : PlainDirectory cwd) (path : List Char) :
    resolveFrom host path cwd = absolutePath (resolveSegments (resolveSegments [] cwd) path) := by
  unfold resolveFrom
  split_ifs with hhead
  · rw [resolvePath, resolveSegments_rooted hhead, resolveSegments_rooted hhead]
  · rw [resolvePath, resolveSegments_rooted hcwd.absolute, resolveSegments_rooted hcwd.absolute]

theorem resolveToCwd_eq (hcwd : PlainDirectory cwd) {path normalized : List Char}
    (hexpand : expandPath host path = some normalized) :
    resolveToCwd host path cwd = some (absolutePath (resolveSegments (resolveSegments [] cwd) normalized)) := by
  rw [resolveToCwd, hexpand, expandTilde_absolute hcwd.absolute]
  exact congrArg some (resolveFrom_eq hcwd normalized)

/-- What the key of a call says of the path it works on. -/
def Names (key path : List Char) : Prop :=
  ∃ segments, ProperSegments segments ∧ key = absolutePath segments ∧ segments <+: posixSegments path

theorem posixSpelled_cwd (hcwd : PlainDirectory cwd) : PosixSpelled cwd := by
  refine ⟨hcwd.backslash, ?_⟩
  rw [hasDriveRoot, drivePrefix_absolute hcwd.absolute]
  rfl

/-- A blank path is resolved to the working directory or to an entry of it. -/
theorem prefix_blank {segments : List (List Char)} (h : ProperSegments segments) {blank : List Char}
    (hblank : ∀ c ∈ blank, isWhitespace c = true) :
    segments <+: posixSegments (absolutePath (resolveSegments segments blank)) := by
  have hproper : ∀ segment ∈ segments, segment ≠ [] ∧ '/' ∉ segment := fun segment hmem => (h segment hmem).1
  have hslash : '/' ∉ blank := fun hmem => absurd (hblank '/' hmem) (by decide)
  have hhead : blank.head? ≠ some '/' := fun hhead => hslash (List.mem_of_mem_head? hhead)
  rw [resolveSegments, if_neg hhead]
  by_cases hempty : blank = []
  · subst hempty
    have hnil : posixSegments [] = [] := rfl
    rw [hnil, List.foldl_nil, posixSegments_absolutePath hproper]
  · have hdot : ¬ ('.' ∈ blank) := fun hmem => absurd (hblank '.' hmem) (by decide)
    have hresolved : resolveSegment segments blank = segments ++ [blank] := by
      rw [resolveSegment, if_neg, if_neg]
      · rintro rfl
        exact hdot List.mem_cons_self
      · rintro rfl
        exact hdot List.mem_cons_self
    have hsegments : posixSegments blank = [blank] := by
      rw [posixSegments, List.splitOn_eq_singleton hslash]
      exact List.filter_cons_of_pos (by simpa using hempty)
    rw [hsegments, List.foldl_cons, List.foldl_nil, hresolved, posixSegments_absolutePath]
    · exact List.prefix_append _ _
    · intro segment hmem
      rcases List.mem_append.mp hmem with hmem | hmem
      · exact hproper segment hmem
      · rw [List.mem_singleton.mp hmem]
        exact ⟨hempty, hslash⟩

/-- A search tool without a path works in the working directory or in an entry of it. -/
theorem names_blank (hcwd : PlainDirectory cwd) {call : PathCall} (hsearch : call.tool.isSearch = true)
    (hblank : ∀ path ∈ call.path, trim path = []) {key path : List Char}
    (hkey : resolvePathClaimKey call cwd = some key) (hpath : path ∈ toolPath host call cwd) : Names key path := by
  have hraw : builtinRawPath call cwd = some cwd := by
    have hnone : (call.path.filter fun path => trim path ≠ []) = none := by
      rw [Option.filter_eq_none_iff]
      intro path hmem
      simpa using hblank path hmem
    rw [builtinRawPath, if_pos hsearch, hnone, Option.getD_none]
  rw [resolvePathClaimKey, hraw, Option.bind_some] at hkey
  obtain ⟨hproper, rfl⟩ :=
    resolveCanonicalPathKey_eq_some hcwd.absolute hcwd.backslash (posixSpelled_cwd hcwd) hkey
  have hself : resolveSegments (resolveSegments [] cwd) cwd = resolveSegments [] cwd := by
    rw [resolveSegments_rooted hcwd.absolute, resolveSegments_rooted hcwd.absolute]
  rw [hself] at hproper ⊢
  refine ⟨_, hproper, rfl, ?_⟩
  have hpath : resolveToCwd host ((call.path.filter fun path => path ≠ []).getD ['.']) cwd = some path := by
    obtain ⟨tool, argument⟩ := call
    cases tool <;> first | exact hpath | cases hsearch
  cases hargument : call.path.filter fun path => path ≠ [] with
  | none =>
    have hexpand : expandPath host ['.'] = some ['.'] := rfl
    rw [hargument, Option.getD_none, resolveToCwd_eq hcwd hexpand, Option.some_inj] at hpath
    rw [← hpath]
    exact @prefix_blank _ hproper [] fun _ hmem => nomatch hmem
  | some argument =>
    have hspace := isWhitespace_of_trim_eq_nil (hblank argument (Option.filter_eq_some_iff.mp hargument).1)
    obtain ⟨blank, hexpand, hwhitespace⟩ := @expandPath_whitespace host argument hspace
    rw [hargument, Option.getD_some, resolveToCwd_eq hcwd hexpand, Option.some_inj] at hpath
    rw [← hpath]
    exact prefix_blank hproper hwhitespace

/-- The key of a path that is spelled plainly names it. -/
theorem names_path (hcwd : PlainDirectory cwd) {tool : PathTool} {argument : List Char}
    (hposix : PosixSpelled argument) (hexpand : expandPath host argument = some argument)
    (hread' : tool = .read → ExistsAsSpelled host (resolveFrom host argument cwd))
    (hnonblank : tool.isSearch = true → trim argument ≠ []) {key path : List Char}
    (hkey : resolvePathClaimKey ⟨tool, some argument⟩ cwd = some key)
    (hpath : path ∈ toolPath host ⟨tool, some argument⟩ cwd) : Names key path := by
  have hraw : builtinRawPath ⟨tool, some argument⟩ cwd = some argument := by
    rw [builtinRawPath]
    split_ifs with hsearch
    · rw [Option.filter_some_pos (by simpa using hnonblank hsearch), Option.getD_some]
    · rfl
  rw [resolvePathClaimKey, hraw, Option.bind_some] at hkey
  obtain ⟨hproper, rfl⟩ := resolveCanonicalPathKey_eq_some hcwd.absolute hcwd.backslash hposix hkey
  have hresolved := resolveToCwd_eq hcwd hexpand
  have hpath : path = absolutePath (resolveSegments (resolveSegments [] cwd) argument) := by
    have hsearch (hsearch : tool.isSearch = true)
        (hpath : resolveToCwd host (((some argument).filter fun path => path ≠ []).getD ['.']) cwd = some path) :
        path = absolutePath (resolveSegments (resolveSegments [] cwd) argument) := by
      have hne : argument ≠ [] := by
        rintro rfl
        exact hnonblank hsearch rfl
      rw [Option.filter_some_pos (by simpa using hne), Option.getD_some, hresolved, Option.some_inj] at hpath
      exact hpath.symm
    cases tool with
    | read =>
      have hread : resolveReadPath host argument cwd = some path := hpath
      have hspelled := hread' rfl
      rw [resolveFrom_eq hcwd] at hspelled
      rw [resolveReadPath, hresolved, Option.map_some, readPath_eq hspelled, Option.some_inj] at hread
      exact hread.symm
    | write =>
      have hwrite : resolveToCwd host argument cwd = some path := hpath
      rw [hresolved, Option.some_inj] at hwrite
      exact hwrite.symm
    | edit =>
      have hedit : resolveToCwd host argument cwd = some path := hpath
      rw [hresolved, Option.some_inj] at hedit
      exact hedit.symm
    | grep => exact hsearch rfl hpath
    | find => exact hsearch rfl hpath
    | ls => exact hsearch rfl hpath
  refine ⟨_, hproper, rfl, ?_⟩
  rw [hpath, posixSegments_absolutePath fun segment hmem => (hproper segment hmem).1]

theorem SpelledPlainly.names (hcwd : PlainDirectory cwd) {call : PathCall} (h : SpelledPlainly host cwd call)
    {key path : List Char} (hkey : resolvePathClaimKey call cwd = some key) (hpath : path ∈ toolPath host call cwd) :
    Names key path := by
  cases h with
  | blank hsearch hblank => exact names_blank hcwd hsearch hblank hkey hpath
  | @path tool argument hposix hexpand hread =>
    by_cases hblank : tool.isSearch = true ∧ trim argument = []
    · refine names_blank hcwd hblank.1 ?_ hkey hpath
      rintro path ⟨⟩
      exact hblank.2
    · exact names_path hcwd hposix hexpand hread (fun hsearch htrim => hblank ⟨hsearch, htrim⟩) hkey hpath

theorem keptApart_of_conflict {toLowerCase : List Char → List Char} {left right : ToolClaimResolution}
    (h : resolutionsConflict toLowerCase left right = true) : KeptApart toLowerCase left right where
  conflict := h
  apart := by
    intro batch cap i j hne hleft hright chunk hchunk hi hj
    obtain ⟨level, hdepth, -⟩ := depth_of_mem_chunk hchunk
    rw [not_conflict_of_depth hne (hdepth i hi) (hdepth j hj) hleft hright] at h
    cases h

/-- The claims of calls conflict where the paths that their keys name overlap. -/
theorem resolutionsConflict_of_names (toLowerCase : List Char → List Char) (sequential : PathTool → Bool)
    {left right : PathCall} {leftPath rightPath : List Char}
    (hleft : ∀ key, resolvePathClaimKey left cwd = some key → Names key leftPath)
    (hright : ∀ key, resolvePathClaimKey right cwd = some key → Names key rightPath)
    (hwrites : builtinPathAccess left.tool = .write ∨ builtinPathAccess right.tool = .write)
    (hoverlap : Overlap leftPath rightPath) :
    resolutionsConflict toLowerCase (resolveToolClaims (sequential left.tool) left cwd)
      (resolveToolClaims (sequential right.tool) right cwd) = true := by
  unfold resolveToolClaims
  split_ifs
  · rfl
  · rfl
  · split <;> rfl
  cases hleftKey : resolvePathClaimKey left cwd with
  | none => rfl
  | some leftKey =>
    cases hrightKey : resolvePathClaimKey right cwd with
    | none => rfl
    | some rightKey =>
      obtain ⟨leftSegments, hleftProper, rfl, hleftPrefix⟩ := hleft leftKey hleftKey
      obtain ⟨rightSegments, hrightProper, rfl, hrightPrefix⟩ := hright rightKey hrightKey
      -- two directories above one path contain one another
      have hsegments : leftSegments <+: rightSegments ∨ rightSegments <+: leftSegments := by
        rcases hoverlap with hoverlap | hoverlap
        · exact List.prefix_or_prefix_of_prefix (hleftPrefix.trans hoverlap) hrightPrefix
        · exact List.prefix_or_prefix_of_prefix hleftPrefix (hrightPrefix.trans hoverlap)
      have hkeys := identityPathKeysOverlap_of_prefix toLowerCase hleftProper hrightProper hsegments
      have hconflict := claimsConflict_of_overlap toLowerCase hkeys hwrites
      simpa [resolutionsConflict] using hconflict

/-- A host without files. -/
def emptyHost : Host where
  homedir := "/home".toList
  cwd := []
  fileURLToPath := fun _ => none
  fileExists := fun _ => false
  nfd := id

end CodingAgent.PathUtils
