import OmkVerified.Lib.FilePath
import OmkVerified.Lib.Regex
import OmkVerified.CodingAgent.Subagents.Loadouts

/-!
# The access policy of a loadout

`loadout-access-policy.ts`: which files and commands the active tools may use. A resolved path is given
by its names, so that `stripTrailingSeparator` has nothing to strip; `links` is the number of symbolic
links that the operating system follows on one path.
-/

namespace LoadoutAccess

open Lib
open FileSystem (Location)
open Subagents (LoadoutCommands CommandMode forwardSlashes)

inductive PathOperation
  | read
  | write
deriving DecidableEq

structure LoadoutPathAccessRequest where
  operation : PathOperation
  toolName : List Char
  path : List Char

structure LoadoutCommandAccessRequest where
  toolName : List Char
  command : List Char

inductive LoadoutAccessRequest
  | path (request : LoadoutPathAccessRequest)
  | execute (request : LoadoutCommandAccessRequest)

structure LoadoutAccessEntry where
  path : List Char
  symbols : List (List Char) := []

structure CreateLoadoutAccessPolicyOptions where
  cwd : List Char
  activeTools : List (List Char)
  readSet : Option (List LoadoutAccessEntry) := none
  writeSet : Option (List LoadoutAccessEntry) := none
  blockedPaths : Option (List (List Char)) := none
  commands : Option LoadoutCommands := none

structure LoadoutAccessPolicy where
  cwd : Location FileName
  activeTools : List (List Char)
  readRoots : List (Location FileName)
  writeRoots : List (Location FileName)
  blockedPaths : List (List Char)
  commands : LoadoutCommands

structure LoadoutAccessDecision where
  allowed : Bool
  reason : String
  normalizedPath : Option (Location FileName) := none
  normalizedCommand : Option (List Char) := none

def defaultBlockedPaths : List (List Char) :=
  [['*', '*', '/', '.', 'e', 'n', 'v', '*'],
    ['*', '*', '/', '*', 's', 'e', 'c', 'r', 'e', 't', '*'],
    ['*', '*', '/', '*', 'k', 'e', 'y', '*'],
    ['*', '*', '/', '.', 'g', 'i', 't'],
    ['*', '*', '/', '.', 'g', 'i', 't', '/', '*']]

/-! ## Texts -/

/-- `uniqueSorted` of values that are compared by their texts. -/
def uniqueSorted {α : Type} [BEq α] (text : α → List Char) (values : List α) : List α :=
  values.eraseDups.mergeSort fun a b => !unitsLt (utf16 (text b)) (utf16 (text a))

/-- A code unit as a character; the surrogates, which are none, are moved to the last plane. -/
def unitChar (unit : Nat) : Char :=
  if 0xD800 ≤ unit ∧ unit < 0xE000 then Char.ofNat (0x100000 + unit) else Char.ofNat unit

/-- The code units that an expression without the flag `u` sees. -/
def codeUnits (text : List Char) : List Char := (utf16 text).map unitChar

def globPieces : List Char → List Regex
  | '*' :: '*' :: '/' :: glob =>
    .alt (.seq (.many (fun c => !isLineTerminator c) 0) (.cls fun c => c = '/'))
      (.many (fun _ => false) 0) :: globPieces glob
  | '*' :: '*' :: glob => .many (fun c => !isLineTerminator c) 0 :: globPieces glob
  | '*' :: glob => .many (fun c => c ≠ '/') 0 :: globPieces glob
  | '?' :: glob => .cls (fun c => c ≠ '/') :: globPieces glob
  | c :: glob => .cls (fun d => d = c) :: globPieces glob
  | [] => []

/-- What stands between `^` and `$`. -/
def globToRegExp (glob : List Char) : Regex := Regex.sequence (globPieces (codeUnits glob))

def globMatch (glob value : List Char) : Bool :=
  (globToRegExp (forwardSlashes glob)).testAll (codeUnits (forwardSlashes value))

/-- The segments of `relative(from, to)`. -/
def relativeSegments : Location FileName → Location FileName → List (List Char)
  | first :: root, second :: path =>
    if first = second then relativeSegments root path
    else List.replicate (root.length + 1) ['.', '.'] ++ (second :: path).map FileName.text
  | root, path => List.replicate root.length ['.', '.'] ++ path.map FileName.text

def relative (root path : Location FileName) : List Char := ['/'].intercalate (relativeSegments root path)

def containsPath (root candidate : Location FileName) : Bool :=
  candidate = root ||
    (relative root candidate ≠ [] && !(['.', '.'].isPrefixOf (relative root candidate)) &&
      (relative root candidate).head? ≠ some '/')

/-! ## Canonical paths -/

section Files

variable (fs : FileSystem FileName) (links : Nat)

def existsSync (path : Location FileName) : Bool :=
  match fs.lookup links path with
  | .found _ _ => true
  | _ => false

/-- `canonicalizeExistingPrefix` of the path whose names are given from the last one to the first. -/
def canonicalizeNames : List FileName → Location FileName
  | [] => []
  | name :: parents =>
    let path := (name :: parents).reverse
    match fs.lookup links path with
    | .found location _ => location
    | _ => if existsSync fs links path then path else canonicalizeNames parents ++ [name]

def canonicalizeExistingPrefix (path : Location FileName) : Location FileName :=
  canonicalizeNames fs links path.reverse

/-- A path that is not blank and has no NUL, with forward slashes. -/
def checkedPath (path : List Char) : Option (List Char) :=
  let normalized := forwardSlashes path
  if trim normalized = [] ∨ '\x00' ∈ normalized then none else some normalized

/-- `cwd` is the working directory that the path is resolved in. -/
def normalizeRequestPath (cwd : Location FileName) (requestedPath : List Char) :
    Option (Location FileName) :=
  (checkedPath requestedPath).map fun normalized =>
    canonicalizeExistingPrefix fs links (resolveLocation cwd normalized)

def normalizeAccessSet (cwd : Location FileName) (accessSet : Option (List LoadoutAccessEntry)) :
    List (Location FileName) :=
  match accessSet with
  | none => []
  | some entries =>
    uniqueSorted pathText ((entries.filter fun entry => entry.symbols.length = 0).filterMap fun entry =>
      normalizeRequestPath fs links cwd entry.path)

/-- There is no policy when the working directory is refused; `processCwd` is that of the process. -/
def createLoadoutAccessPolicy (processCwd : Location FileName)
    (options : CreateLoadoutAccessPolicyOptions) : Option LoadoutAccessPolicy :=
  (normalizeRequestPath fs links processCwd options.cwd).map fun cwd =>
    { cwd
      activeTools := uniqueSorted id ((options.activeTools.map trim).filter (· ≠ []))
      readRoots := normalizeAccessSet fs links cwd options.readSet
      writeRoots := normalizeAccessSet fs links cwd options.writeSet
      blockedPaths := uniqueSorted id (options.blockedPaths.getD defaultBlockedPaths)
      commands := options.commands.getD { mode := .none } }

/-! ## Decisions -/

def allow (normalizedPath : Location FileName) : LoadoutAccessDecision :=
  { allowed := true, reason := "allowed", normalizedPath }

def deny (reason : String) (normalizedPath : Option (Location FileName)) : LoadoutAccessDecision :=
  { allowed := false, reason, normalizedPath }

def denyCommand (reason : String) : LoadoutAccessDecision := { allowed := false, reason }

local instance lawfulBEq_chars : LawfulBEq (List Char) := inferInstance

def isActiveLoadoutTool (policy : LoadoutAccessPolicy) (toolName : List Char) : Bool :=
  trim toolName ∈ policy.activeTools

def isBlockedPath (policy : LoadoutAccessPolicy) (normalizedPath : Location FileName) : Bool :=
  let candidates := uniqueSorted id
    [forwardSlashes (pathText normalizedPath), forwardSlashes (relative policy.cwd normalizedPath)]
  policy.blockedPaths.any fun pattern => candidates.any fun candidate => globMatch pattern candidate

def commandMatchesPattern (pattern command : List Char) : Bool :=
  pattern = command || globMatch pattern command

def modeText : CommandMode → String
  | .none => "none"
  | .readOnlyShell => "read-only-shell"
  | .testsOnly => "tests-only"
  | .scopedShell => "scoped-shell"

def decideCommandAccess (policy : LoadoutAccessPolicy) (request : LoadoutCommandAccessRequest) :
    LoadoutAccessDecision :=
  let normalizedCommand := trim request.command
  if normalizedCommand = [] ∨ '\x00' ∈ normalizedCommand then denyCommand "invalid command"
  else if policy.commands.mode = .none then denyCommand "command mode none"
  else if (policy.commands.blockPatterns.getD []).any fun pattern =>
      commandMatchesPattern pattern.toList normalizedCommand then
    denyCommand "blocked command pattern"
  else if (policy.commands.allowPatterns.getD []).any fun pattern =>
      commandMatchesPattern pattern.toList normalizedCommand then
    { allowed := true, reason := "allowed", normalizedCommand := some normalizedCommand }
  else
    denyCommand ("command mode " ++ modeText policy.commands.mode ++
      " requires an explicit allow pattern")

def decidePathAccess (policy : LoadoutAccessPolicy) (request : LoadoutPathAccessRequest) :
    LoadoutAccessDecision :=
  match normalizeRequestPath fs links policy.cwd request.path with
  | none => deny "invalid path" none
  | some normalizedPath =>
    if isBlockedPath policy normalizedPath then deny "blocked path" normalizedPath
    else
      match request.operation with
      | .read =>
        let roots := uniqueSorted pathText (policy.readRoots ++ policy.writeRoots)
        if roots.length = 0 then deny "outside read scope: empty read/write set" normalizedPath
        else if roots.any fun root => containsPath root normalizedPath then allow normalizedPath
        else deny "outside read scope" normalizedPath
      | .write =>
        if policy.writeRoots.length = 0 then
          deny "outside write scope: empty write set" normalizedPath
        else if policy.writeRoots.any fun root => containsPath root normalizedPath then
          allow normalizedPath
        else deny "outside write scope" normalizedPath

def decideLoadoutAccess (policy : LoadoutAccessPolicy) (request : LoadoutAccessRequest) :
    LoadoutAccessDecision :=
  match request with
  | .path request =>
    if !isActiveLoadoutTool policy request.toolName then
      deny ("inactive tool: " ++ String.ofList request.toolName) none
    else decidePathAccess fs links policy request
  | .execute request =>
    if !isActiveLoadoutTool policy request.toolName then
      deny ("inactive tool: " ++ String.ofList request.toolName) none
    else decideCommandAccess policy request

end Files

/-! ## What an allowed request may reach -/

namespace LoadoutAccessPolicy

variable (policy : LoadoutAccessPolicy)

/-- The roots that an operation is allowed in. -/
def rootsFor : PathOperation → List (Location FileName)
  | .read => policy.readRoots ++ policy.writeRoots
  | .write => policy.writeRoots

/-- The directories on the way from a root to the location. -/
def Between (operation : PathOperation) (directory location : Location FileName) : Prop :=
  directory <+: location ∧ directory ≠ location ∧
    ∃ root ∈ policy.rootsFor operation, root <+: directory ∧ root ≠ directory

/-- The location lies in an allowed root, and no pattern blocks it or a directory above it below the
root. -/
structure Confines (operation : PathOperation) (location : Location FileName) : Prop where
  inside : ∃ root ∈ policy.rootsFor operation, root <+: location
  unblocked : isBlockedPath policy location = false
  unblockedAbove : ∀ directory, policy.Between operation directory location →
    isBlockedPath policy directory = false

/-- A directory on the way is blocked only where the location itself is. -/
def BlocksBelow (operation : PathOperation) (location : Location FileName) : Prop :=
  ∀ directory, policy.Between operation directory location →
    isBlockedPath policy directory = true → isBlockedPath policy location = true

end LoadoutAccessPolicy

end LoadoutAccess
