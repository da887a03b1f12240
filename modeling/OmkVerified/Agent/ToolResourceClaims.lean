import OmkVerified.Lib.JsNumber

/-!
# Lexical paths

`packages/agent/src/path-segments.ts`: canonical lexical paths and the overlap test that decides
whether two path claims may touch the same file. Case folding is `String.prototype.toLowerCase`,
taken as the parameter `toLowerCase`.
-/

namespace Agent

open Lib (isLineTerminator)

/-- `raw.replace(/\\/g, "/")`. -/
def normalizePathSlashes (raw : List Char) : List Char :=
  raw.map fun c => if c = '\\' then '/' else c

/-- `normalized.split("/").filter((s) => s.length > 0)`. -/
def pathSegments (normalized : List Char) : List (List Char) :=
  (normalized.splitOn '/').filter fun s => decide (s.length > 0)

/-- `/^[A-Za-z]:/`: the drive letter and the text after the colon. -/
def drivePrefix : List Char → Option (Char × List Char)
  | letter :: ':' :: rest => if letter.isAlpha then some (letter, rest) else none
  | _ => none

/-- `/^([A-Za-z]:)\/+(.*)$/`: the drive letter and the text after the slashes, which holds no line
terminator. -/
def driveAbsolute (normalized : List Char) : Option (Char × List Char) :=
  match drivePrefix normalized with
  | some (letter, '/' :: rest) =>
    let path := rest.dropWhile fun c => decide (c = '/')
    if path.any isLineTerminator then none else some (letter, path)
  | _ => none

/-- `collapsePathSegments`: `none` when a `..` escapes above the root. The collapsed segments are
kept in reverse. -/
def collapsePathSegments : List (List Char) → List (List Char) → Option (List (List Char))
  | [], collapsed => some collapsed.reverse
  | segment :: segments, collapsed =>
    if segment = ['.'] then collapsePathSegments segments collapsed
    else if segment = ['.', '.'] then
      match collapsed with
      | [] => none
      | _ :: collapsed => collapsePathSegments segments collapsed
    else collapsePathSegments segments (segment :: collapsed)

/-- The collapsing loop below a drive root, where `..` clamps at the root. -/
def collapseDriveSegments : List (List Char) → List (List Char) → List (List Char)
  | [], collapsed => collapsed.reverse
  | segment :: segments, collapsed =>
    if segment = ['.'] then collapseDriveSegments segments collapsed
    else if segment = ['.', '.'] then collapseDriveSegments segments collapsed.tail
    else collapseDriveSegments segments (segment :: collapsed)

/-- `segments.join("/")`. -/
def joinSegments (segments : List (List Char)) : List Char := ['/'].intercalate segments

/-- `canonicalizeLexicalPath`. -/
def canonicalizeLexicalPath (raw : List Char) : Option (List Char) :=
  let normalized := normalizePathSlashes raw
  if ['/', '/'].isPrefixOf normalized then none
  else
    match driveAbsolute normalized with
    | some (letter, path) =>
      some (letter :: ':' :: '/' :: joinSegments (collapseDriveSegments (pathSegments path) []))
    | none =>
      if (drivePrefix normalized).isSome then none
      else
        match collapsePathSegments (pathSegments normalized) [] with
        | none => none
        | some collapsed =>
          if ['/'].isPrefixOf normalized then some ('/' :: joinSegments collapsed)
          else some (joinSegments collapsed)

structure CanonicalPathParts where
  drive : Option (List Char)
  rooted : Bool
  segments : List (List Char)

section Overlap

variable (toLowerCase : List Char → List Char)

/-- `/^([A-Za-z]:)\/(.*)$/` on a canonical path: exactly one slash after the colon. -/
def canonicalDrive (canonical : List Char) : Option (Char × List Char) :=
  match drivePrefix canonical with
  | some (letter, '/' :: path) => if path.any isLineTerminator then none else some (letter, path)
  | _ => none

/-- `canonicalPathParts`. -/
def canonicalPathParts (raw : List Char) : Option CanonicalPathParts :=
  (canonicalizeLexicalPath raw).map fun canonical =>
    match canonicalDrive canonical with
    | some (letter, path) => ⟨some (toLowerCase [letter, ':']), true, pathSegments path⟩
    | none => ⟨none, ['/'].isPrefixOf canonical, pathSegments canonical⟩

/-- The first segments agree as far as both lists go. -/
def commonSegmentsAgree : List (List Char) → List (List Char) → Bool
  | a :: as, b :: bs => decide (toLowerCase a = toLowerCase b) && commonSegmentsAgree as bs
  | _, _ => true

/-- The comparison of two canonical paths in `pathSegmentsOverlap`. -/
def partsOverlap (left right : CanonicalPathParts) : Bool :=
  if left.drive.isSome && right.drive.isSome && decide (left.drive ≠ right.drive) then false
  else if (left.drive.isSome && !right.rooted) || (right.drive.isSome && !left.rooted) then true
  else if left.segments.length = 0 || right.segments.length = 0 then true
  else commonSegmentsAgree toLowerCase left.segments right.segments

/-- `pathSegmentsOverlap`. -/
def pathSegmentsOverlap (left right : List Char) : Bool :=
  match canonicalPathParts toLowerCase left, canonicalPathParts toLowerCase right with
  | some left, some right => partsOverlap toLowerCase left right
  | _, _ => true

theorem commonSegmentsAgree_comm (as bs : List (List Char)) :
    commonSegmentsAgree toLowerCase as bs = commonSegmentsAgree toLowerCase bs as := by
  induction as generalizing bs with
  | nil => cases bs <;> rfl
  | cons a as ih =>
    cases bs with
    | nil => rfl
    | cons b bs => simp only [commonSegmentsAgree, ih bs, eq_comm]

theorem partsOverlap_comm (left right : CanonicalPathParts) :
    partsOverlap toLowerCase left right = partsOverlap toLowerCase right left := by
  have hdrive : (left.drive.isSome && right.drive.isSome && decide (left.drive ≠ right.drive)) =
      (right.drive.isSome && left.drive.isSome && decide (right.drive ≠ left.drive)) := by
    rw [Bool.and_comm left.drive.isSome, decide_eq_decide.mpr ne_comm]
  unfold partsOverlap
  rw [commonSegmentsAgree_comm, hdrive, Bool.or_comm (left.drive.isSome && _),
    Bool.or_comm (decide (left.segments.length = 0))]

theorem pathSegmentsOverlap_comm (left right : List Char) :
    pathSegmentsOverlap toLowerCase left right = pathSegmentsOverlap toLowerCase right left := by
  unfold pathSegmentsOverlap
  cases canonicalPathParts toLowerCase left <;> cases canonicalPathParts toLowerCase right <;>
    simp only [partsOverlap_comm]

end Overlap

end Agent

/-!
# Resource claims of tool calls

`packages/agent/src/tool-resource-claims.ts` and the path part of `builtin-tool-resource-claims.ts`:
the claims of a resolved tool call, their canonical order, and when two of them conflict.
-/

namespace Agent

open Lib (jsLt)

inductive ResourceAccess
  | read
  | write
  | exclusive
deriving DecidableEq

def ResourceAccess.word : ResourceAccess → String
  | read => "read"
  | write => "write"
  | exclusive => "exclusive"

/-- The access modes of a path claim. -/
inductive ToolResourceAccess
  | read
  | write
deriving DecidableEq

def ToolResourceAccess.toResourceAccess : ToolResourceAccess → ResourceAccess
  | read => .read
  | write => .write

/-- The claim kinds whose keys are compared for equality. -/
inductive NonPathKind
  | session
  | terminal
  | network
  | global
deriving DecidableEq

def NonPathKind.word : NonPathKind → String
  | session => "session"
  | terminal => "terminal"
  | network => "network"
  | global => "global"

inductive ToolResourceClaim
  | path (key : String) (access : ToolResourceAccess) (realKey inodeKey : Option String)
  | other (kind : NonPathKind) (key : String) (access : ResourceAccess)
deriving DecidableEq

namespace ToolResourceClaim

def kind : ToolResourceClaim → String
  | path .. => "path"
  | other kind _ _ => kind.word

def key : ToolResourceClaim → String
  | path key .. => key
  | other _ key _ => key

def access : ToolResourceClaim → ResourceAccess
  | path _ access _ _ => access.toResourceAccess
  | other _ _ access => access

/-- `claim.kind === "path" ? (claim.realKey ?? "") : ""`. -/
def realKeyOrEmpty : ToolResourceClaim → String
  | path _ _ realKey _ => realKey.getD ""
  | other .. => ""

/-- `claim.kind === "path" ? (claim.inodeKey ?? "") : ""`. -/
def inodeKeyOrEmpty : ToolResourceClaim → String
  | path _ _ _ inodeKey => inodeKey.getD ""
  | other .. => ""

end ToolResourceClaim

/-- `left < right ? -1 : 1` on two different strings, then the next criterion. -/
def compareWords (left right : String) (next : Ordering) : Ordering :=
  if left ≠ right then if jsLt left right then .lt else .gt else next

/-- `compareClaims`. -/
def compareClaims (left right : ToolResourceClaim) : Ordering :=
  compareWords left.kind right.kind <|
  compareWords left.key right.key <|
  compareWords left.access.word right.access.word <|
  compareWords left.realKeyOrEmpty right.realKeyOrEmpty <|
  compareWords left.inodeKeyOrEmpty right.inodeKeyOrEmpty .eq

/-- `canonicalizeClaims`. The copy of each claim with a fixed property order is the claim itself
here, and `Array.prototype.sort` is a stable sort. -/
def canonicalizeClaims (claims : List ToolResourceClaim) : List ToolResourceClaim :=
  claims.insertionSort fun left right => compareClaims left right ≠ .gt

theorem mem_canonicalizeClaims {claims : List ToolResourceClaim} {claim : ToolResourceClaim} :
    claim ∈ canonicalizeClaims claims ↔ claim ∈ claims :=
  (List.perm_insertionSort _ claims).mem_iff

/-- `ToolClaimResolution`. -/
inductive ToolClaimResolution
  | exclusive
  | claims (claims : List ToolResourceClaim)
deriving DecidableEq

section Conflict

variable (toLowerCase : List Char → List Char)

/-- `pathClaimKeys`. -/
def pathClaimKeys (key : String) (realKey : Option String) : List String :=
  match realKey with
  | none => [key]
  | some realKey => if realKey = key then [key] else [key, realKey]

/-- `uncSegments`. -/
def uncSegments (key : String) : Option (List (List Char)) :=
  match key.toList with
  | '/' :: '/' :: rest => some ((pathSegments rest).map toLowerCase)
  | _ => none

/-- The loop of `identityPathKeysOverlap` over the common length. -/
def commonPrefixEqual : List (List Char) → List (List Char) → Bool
  | a :: as, b :: bs => decide (a = b) && commonPrefixEqual as bs
  | _, _ => true

/-- `identityPathKeysOverlap`. -/
def identityPathKeysOverlap (left right : String) : Bool :=
  match uncSegments toLowerCase left, uncSegments toLowerCase right with
  | some leftUnc, some rightUnc => commonPrefixEqual leftUnc rightUnc
  | none, none => pathSegmentsOverlap toLowerCase left.toList right.toList
  | _, _ => false

/-- `pathClaimsOverlap`, on the keys of two path claims. -/
def pathClaimsOverlap (leftKey : String) (leftReal leftInode : Option String) (rightKey : String)
    (rightReal rightInode : Option String) : Bool :=
  (leftInode.isSome && decide (leftInode = rightInode)) ||
    (pathClaimKeys leftKey leftReal).any fun left =>
      (pathClaimKeys rightKey rightReal).any fun right => identityPathKeysOverlap toLowerCase left right

/-- `claimsConflict`. -/
def claimsConflict (left right : ToolResourceClaim) : Bool :=
  if left.access = .exclusive || right.access = .exclusive then true
  else if left.kind ≠ right.kind then false
  else
    match left, right with
    | .path leftKey _ leftReal leftInode, .path rightKey _ rightReal rightInode =>
      if !pathClaimsOverlap toLowerCase leftKey leftReal leftInode rightKey rightReal rightInode then
        false
      else !(decide (left.access = .read) && decide (right.access = .read))
    | _, _ =>
      if left.key ≠ right.key then false
      else !(decide (left.access = .read) && decide (right.access = .read))

/-- `resolutionsConflict`. -/
def resolutionsConflict : ToolClaimResolution → ToolClaimResolution → Bool
  | .claims left, .claims right =>
    left.any fun leftClaim => right.any fun rightClaim => claimsConflict toLowerCase leftClaim rightClaim
  | _, _ => true

/-! ## Conflicts are symmetric -/

theorem commonPrefixEqual_comm (as bs : List (List Char)) :
    commonPrefixEqual as bs = commonPrefixEqual bs as := by
  induction as generalizing bs with
  | nil => cases bs <;> rfl
  | cons a as ih =>
    cases bs with
    | nil => rfl
    | cons b bs => simp only [commonPrefixEqual, ih bs, eq_comm]

theorem identityPathKeysOverlap_comm (left right : String) :
    identityPathKeysOverlap toLowerCase left right =
      identityPathKeysOverlap toLowerCase right left := by
  unfold identityPathKeysOverlap
  cases uncSegments toLowerCase left with
  | none =>
    cases uncSegments toLowerCase right with
    | none => exact pathSegmentsOverlap_comm toLowerCase _ _
    | some _ => rfl
  | some leftUnc =>
    cases uncSegments toLowerCase right with
    | none => rfl
    | some rightUnc => exact commonPrefixEqual_comm leftUnc rightUnc

theorem pathClaimsOverlap_comm (leftKey : String) (leftReal leftInode : Option String)
    (rightKey : String) (rightReal rightInode : Option String) :
    pathClaimsOverlap toLowerCase leftKey leftReal leftInode rightKey rightReal rightInode =
      pathClaimsOverlap toLowerCase rightKey rightReal rightInode leftKey leftReal leftInode := by
  have hinode : (leftInode.isSome && decide (leftInode = rightInode)) =
      (rightInode.isSome && decide (rightInode = leftInode)) := by
    by_cases h : leftInode = rightInode
    · rw [h]
    · rw [decide_eq_false h, decide_eq_false (Ne.symm h), Bool.and_false, Bool.and_false]
  have hkeys : ((pathClaimKeys leftKey leftReal).any fun left =>
        (pathClaimKeys rightKey rightReal).any fun right =>
          identityPathKeysOverlap toLowerCase left right) =
      ((pathClaimKeys rightKey rightReal).any fun right =>
        (pathClaimKeys leftKey leftReal).any fun left =>
          identityPathKeysOverlap toLowerCase right left) := by
    rw [Bool.eq_iff_iff]
    simp only [List.any_eq_true]
    constructor
    · rintro ⟨left, hl, right, hr, h⟩
      exact ⟨right, hr, left, hl, by rwa [identityPathKeysOverlap_comm]⟩
    · rintro ⟨right, hr, left, hl, h⟩
      exact ⟨left, hl, right, hr, by rwa [identityPathKeysOverlap_comm]⟩
  unfold pathClaimsOverlap
  rw [hinode, hkeys]

theorem claimsConflict_comm (left right : ToolResourceClaim) :
    claimsConflict toLowerCase left right = claimsConflict toLowerCase right left := by
  unfold claimsConflict
  rw [Bool.or_comm (decide (left.access = .exclusive))]
  refine if_congr Iff.rfl rfl (if_congr ne_comm rfl ?_)
  rw [Bool.and_comm (decide (left.access = .read))]
  cases left with
  | path leftKey leftAccess leftReal leftInode =>
    cases right with
    | path rightKey rightAccess rightReal rightInode =>
      simp only [pathClaimsOverlap_comm toLowerCase leftKey]
    | other => exact if_congr ne_comm rfl rfl
  | other => cases right <;> exact if_congr ne_comm rfl rfl

theorem resolutionsConflict_comm (left right : ToolClaimResolution) :
    resolutionsConflict toLowerCase left right = resolutionsConflict toLowerCase right left := by
  cases left with
  | exclusive => cases right <;> rfl
  | claims left =>
    cases right with
    | exclusive => rfl
    | claims right =>
      unfold resolutionsConflict
      rw [Bool.eq_iff_iff]
      simp only [List.any_eq_true]
      constructor
      · rintro ⟨a, ha, b, hb, h⟩
        exact ⟨b, hb, a, ha, by rwa [claimsConflict_comm]⟩
      · rintro ⟨b, hb, a, ha, h⟩
        exact ⟨a, ha, b, hb, by rwa [claimsConflict_comm]⟩

theorem claimsConflict_of_reads {left right : ToolResourceClaim} (hl : left.access = .read)
    (hr : right.access = .read) : claimsConflict toLowerCase left right = false := by
  unfold claimsConflict
  cases left <;> cases right <;> simp [hl, hr]

theorem claimsConflict_of_exclusive {left right : ToolResourceClaim}
    (h : left.access = .exclusive ∨ right.access = .exclusive) :
    claimsConflict toLowerCase left right = true := by
  unfold claimsConflict
  rcases h with h | h <;> simp [h]

end Conflict

end Agent

/-!
# Claims of the built-in path tools

The path claims of `packages/agent/src/builtin-tool-resource-claims.ts`: the key of a path is found lexically, and
a path without a key claims everything.
-/

namespace Agent

open Lib (trim)

/-- `joinPathSegments`. -/
def joinPathSegments (cwd relative : List Char) : List Char :=
  let base := (normalizePathSlashes cwd).rdropWhile fun c => c = '/'
  let rel := normalizePathSlashes relative
  if rel = [] then if base = [] then ['/'] else base
  else if ['/'].isPrefixOf rel || (drivePrefix rel).isSome then rel
  else base ++ '/' :: rel

/-- Three leading slashes and more are one. -/
def normalizeLeadingSlashes (rawPath : List Char) : List Char :=
  let normalized := normalizePathSlashes rawPath
  if ['/', '/', '/'].isPrefixOf normalized then '/' :: normalized.dropWhile fun c => c = '/' else normalized

/-- `/^[A-Za-z]:\//`. -/
def hasDriveRoot (path : List Char) : Bool := (drivePrefix path).any fun drive => drive.2.head? = some '/'

/-- `/^[A-Za-z]:(?!\/)/`. -/
def isDriveRelative (path : List Char) : Bool := (drivePrefix path).any fun drive => drive.2.head? ≠ some '/'

/-- `canonical.startsWith("/") || /^[A-Za-z]:\//.test(canonical)`. -/
def isRootedPath (canonical : List Char) : Bool := ['/'].isPrefixOf canonical || hasDriveRoot canonical

/-- The path whose canonical form is the key. -/
def resolvedAgainst (canonicalCwd normalized : List Char) : List Char :=
  if hasDriveRoot normalized then normalized
  else if ['/'].isPrefixOf normalized then
    if hasDriveRoot canonicalCwd then canonicalCwd.take 2 ++ normalized else normalized
  else joinPathSegments canonicalCwd normalized

def resolveCanonicalPathKey (rawPath cwd : List Char) : Option (List Char) :=
  if trim rawPath = [] then none
  else
    let normalized := normalizeLeadingSlashes rawPath
    match canonicalizeLexicalPath cwd with
    | none => none
    | some canonicalCwd =>
      if ['/', '/'].isPrefixOf normalized || isDriveRelative normalized || !isRootedPath canonicalCwd then none
      else (canonicalizeLexicalPath (resolvedAgainst canonicalCwd normalized)).filter isRootedPath

/-- The built-in tools with a path. -/
inductive PathTool
  | read
  | write
  | edit
  | grep
  | find
  | ls
deriving DecidableEq

/-- `SEARCH_PATH_TOOLS.has(toolName)`. -/
def PathTool.isSearch : PathTool → Bool
  | grep | find | ls => true
  | read | write | edit => false

/-- `builtinPathAccess`. -/
def builtinPathAccess : PathTool → ToolResourceAccess
  | .read | .grep | .find | .ls => .read
  | .write | .edit => .write

/-- A call: its tool and the argument `path`, if that is a string. -/
structure PathCall where
  tool : PathTool
  path : Option (List Char)

/-- `builtinRawPath`. -/
def builtinRawPath (call : PathCall) (cwd : List Char) : Option (List Char) :=
  if call.tool.isSearch then some ((call.path.filter fun path => trim path ≠ []).getD cwd) else call.path

/-- `resolvePathClaimKey`. -/
def resolvePathClaimKey (call : PathCall) (cwd : List Char) : Option (List Char) :=
  (builtinRawPath call cwd).bind fun rawPath => resolveCanonicalPathKey rawPath cwd

/-- `resolveToolClaims`, for a path tool whose policy is `sequential` or not. -/
def resolveToolClaims (sequential : Bool) (call : PathCall) (cwd : List Char) : ToolClaimResolution :=
  if sequential then .exclusive
  else
    match resolvePathClaimKey call cwd with
    | none => .exclusive
    | some key => .claims [.path (String.ofList key) (builtinPathAccess call.tool) none none]

end Agent
