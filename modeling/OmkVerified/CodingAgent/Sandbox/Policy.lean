import OmkVerified.Lib.FilePath
import OmkVerified.Lib.Text

/-!
# Sandbox policies

`sandbox/policy.ts`: decisions on paths and on the network, and merging of policies. Paths, patterns
and hosts are lists of characters. `followSymlinks`, `allowBrowser` and `allowPrivilege` have only
one value and are left out.
-/

namespace Sandbox

open Lib

inductive SandboxMode
  | off
  | audit
  | enforce
deriving DecidableEq

inductive SandboxProfile
  | readonly
  | workspaceWrite
  | devServer
  | networked
deriving DecidableEq

inductive NetworkMode
  | none
  | loopback
  | domainAllowlist
  | allExplicit
deriving DecidableEq

inductive PathAccessKind
  | read
  | write
deriving DecidableEq

structure FilesystemPolicy where
  root : List Char
  readAllow : List (List Char)
  readDeny : List (List Char)
  writeAllow : List (List Char)
  denyWrite : List (List Char)
  tempWrite : List (List Char)

structure NetworkPolicy where
  mode : NetworkMode
  allowedDomains : List (List Char)
  deniedDomains : List (List Char)
  allowUnixSockets : List (List Char)

structure ProcessPolicy where
  allowExec : Bool
  allowShell : Bool

structure SandboxPolicy where
  mode : SandboxMode
  profile : SandboxProfile
  filesystem : FilesystemPolicy
  network : NetworkPolicy
  process : ProcessPolicy

/-- `Partial<SandboxPolicy>`. -/
structure PartialSandboxPolicy where
  mode : Option SandboxMode := none
  profile : Option SandboxProfile := none
  filesystem : Option FilesystemPolicy := none
  network : Option NetworkPolicy := none
  process : Option ProcessPolicy := none

structure ResolvedSandboxPath where
  realPath : Option (List Char) := none
  nearestExistingParentRealPath : Option (List Char) := none
  isSymlink : Bool := false
  error : Option String := none

abbrev SandboxPathResolver := List Char → ResolvedSandboxPath

structure PathAccessRequest where
  kind : PathAccessKind
  path : List Char

structure SandboxDecision where
  allowed : Bool
  rule : String
  reason : String

structure NetworkAccessRequest where
  host : Option (List Char) := none
  url : Option (List Char) := none
  unixSocketPath : Option (List Char) := none
  browser : Bool := false
  loopback : Bool := false

/-- The platform: the working directory, `toLowerCase`, and `new URL(url).hostname`, which may
throw. -/
structure Platform where
  cwd : List (List Char)
  toLowerCase : List Char → List Char
  hostname : List Char → Option (List Char)
  /-- Small letters and dots stay as they are. -/
  toLowerCase_small : ∀ text : List Char, (∀ c ∈ text, c.isLower = true ∨ c = '.') →
    toLowerCase text = text

/-! ## Paths -/

section Paths

variable (platform : Platform)

/-- `value.replace(/\\/g, "/")`. -/
def forwardSlashes (value : List Char) : List Char := value.map fun c => if c = '\\' then '/' else c

/-- Slashes at the end go, unless they are all of the value. -/
def normalize (value : List Char) : List Char :=
  let resolved := forwardSlashes (resolvePath platform.cwd value)
  let stem := resolved.rdropWhile (· = '/')
  let suffix := resolved.drop stem.length
  if suffix ≠ [] ∧ value = suffix then stem ++ ['/'] else stem

def isInside (parent child : List Char) : Bool :=
  let normalizedParent := normalize platform parent
  let normalizedChild := normalize platform child
  normalizedChild = normalizedParent || (normalizedParent ++ ['/']).isPrefixOf normalizedChild

/-- The names of credential files. -/
def sensitiveNames : List String :=
  [".env", "auth.json", "oauth.json", ".netrc", ".npmrc", ".pgpass", "credentials", "id_rsa",
    "id_dsa", "id_ecdsa", "id_ed25519"]

/-- The words that make a path sensitive. -/
def sensitiveWords : List String :=
  ["secret", "token", "private_key", "private-key", "privatekey", "credential"]

/-- What follows a slash, up to the end of the path, is sensitive. -/
def isSensitiveRest (words : List String) (rest : List Char) : Bool :=
  sensitiveNames.any (fun name => rest.map Char.toLower = name.toList) ||
    (['.', 'e', 'n', 'v', '.'].isPrefixOf (rest.map Char.toLower) &&
      !(rest.drop 5).any isLineTerminator) ||
    (!rest.any isLineTerminator && words.any fun word => matchesPart word.toList rest)

/-- The texts that start at the beginning or after a slash. -/
def restsOf (path : List Char) : List (List Char) :=
  path :: path.tails.filterMap fun
    | '/' :: rest => some rest
    | _ => none

/-- `SENSITIVE_PATH_PATTERN.test(value.replace(/\\/g, "/"))`. -/
def isSensitivePath (value : List Char) : Bool :=
  (restsOf (forwardSlashes value)).any (isSensitiveRest sensitiveWords)

def stripGlobSuffix (pattern : List Char) : List Char :=
  if ['/', '*', '*'].isSuffixOf pattern then pattern.take (pattern.length - 3)
  else if ['/', '*'].isSuffixOf pattern then pattern.take (pattern.length - 2)
  else pattern

def matchesPattern (pattern candidate : List Char) : Bool :=
  let normalizedPattern := normalize platform (stripGlobSuffix pattern)
  let normalizedCandidate := normalize platform candidate
  normalizedCandidate = normalizedPattern ||
    (normalizedPattern ++ ['/']).isPrefixOf normalizedCandidate

def matchesAny (patterns : List (List Char)) (candidate : List Char) : Bool :=
  patterns.any fun pattern => matchesPattern platform pattern candidate

def resolvedDecisionPath (resolved : ResolvedSandboxPath) : Option (List Char) :=
  resolved.realPath.or resolved.nearestExistingParentRealPath

def rootEscaped (policy : SandboxPolicy) (resolved : ResolvedSandboxPath) : Bool :=
  match resolvedDecisionPath resolved with
  | none => true
  | some candidate => !isInside platform policy.filesystem.root candidate

def decidePathAccess (policy : SandboxPolicy) (request : PathAccessRequest)
    (resolver : SandboxPathResolver) : SandboxDecision :=
  let fs := policy.filesystem
  if policy.mode = .off then ⟨true, "sandbox.off", "Sandbox policy is disabled."⟩
  else if request.path.contains '\x00' then ⟨false, "path.invalid", "Path contains a NUL byte."⟩
  else if isSensitivePath request.path then
    ⟨false, "path.secret", "Sensitive credential-like paths are denied."⟩
  else
    let resolved := resolver request.path
    match resolved.error.filter (· ≠ "") with
    | some error => ⟨false, "path.resolve_error", error⟩
    | none =>
      if rootEscaped platform policy resolved then
        ⟨false, "path.root_escape", "Resolved path is outside the sandbox root."⟩
      else if resolved.isSymlink then
        ⟨false, "path.symlink", "Symlink traversal is denied by policy."⟩
      else
        let candidate := (resolvedDecisionPath resolved).getD request.path
        match request.kind with
        | .read =>
          if matchesAny platform fs.readDeny candidate || matchesAny platform fs.readDeny request.path
          then ⟨false, "path.read_deny", "Read path matches a deny rule."⟩
          else if !matchesAny platform fs.readAllow candidate then
            ⟨false, "path.read_not_allowed", "Read path is not in an allow rule."⟩
          else ⟨true, "path.read_allow", "Read path is allowed."⟩
        | .write =>
          if matchesAny platform fs.denyWrite candidate || matchesAny platform fs.denyWrite request.path
          then ⟨false, "path.deny_write", "Write path matches an unoverrideable denyWrite rule."⟩
          else if matchesAny platform fs.writeAllow candidate ||
              matchesAny platform fs.tempWrite candidate then
            ⟨true, "path.write_allow", "Write path is allowed."⟩
          else ⟨false, "path.write_not_allowed", "Write path is not in an allow rule."⟩

end Paths

/-! ## The network -/

section Network

variable (platform : Platform)

/-- A text that is not empty. -/
def truthy (text : Option (List Char)) : Option (List Char) := text.filter (· ≠ [])

def hostFromRequest (request : NetworkAccessRequest) : Option (List Char) :=
  match truthy request.host with
  | some host => some (platform.toLowerCase host)
  | none => ((truthy request.url).bind platform.hostname).map platform.toLowerCase

def hostMatches (patterns : List (List Char)) (host : List Char) : Bool :=
  patterns.any fun pattern =>
    let normalized := platform.toLowerCase pattern
    host = normalized || ('.' :: normalized).isSuffixOf host

def decideNetworkAccess (policy : SandboxPolicy) (request : NetworkAccessRequest) :
    SandboxDecision :=
  if policy.mode = .off then ⟨true, "sandbox.off", "Sandbox policy is disabled."⟩
  else if request.browser || (truthy request.unixSocketPath).isSome then
    ⟨false, "network.socket_or_browser", "Browser and Unix socket access is denied by default."⟩
  else if policy.network.mode = .none then
    ⟨false, "network.none", "Network access is disabled by policy."⟩
  else if request.loopback then
    if policy.network.mode = .loopback || policy.network.mode = .domainAllowlist ||
        policy.network.mode = .allExplicit then
      ⟨true, "network.loopback", "Loopback access is allowed."⟩
    else ⟨false, "network.loopback_denied", "Loopback access is denied."⟩
  else
    match truthy (hostFromRequest platform request) with
    | none =>
      ⟨false, "network.unknown_host", "Network host could not be resolved from request."⟩
    | some host =>
      if hostMatches platform policy.network.deniedDomains host then
        ⟨false, "network.domain_deny", "Host matches a denied domain."⟩
      else if policy.network.mode = .allExplicit then
        ⟨true, "network.explicit_all", "Explicit network profile allows outbound host access."⟩
      else if policy.network.mode = .domainAllowlist &&
          hostMatches platform policy.network.allowedDomains host then
        ⟨true, "network.domain_allow", "Host matches an allowed domain."⟩
      else ⟨false, "network.domain_not_allowed", "Host is not allowed by network policy."⟩

end Network

/-! ## Merging -/

section Merge

variable (platform : Platform)

def union (base : List (List Char)) (override : Option (List (List Char))) : List (List Char) :=
  (base ++ override.getD []).eraseDups

/-- What a pair of rules leaves. -/
def intersectPair (candidate entry : List Char) : List (List Char) :=
  if normalize platform candidate = normalize platform entry then [candidate]
  else if matchesPattern platform entry candidate then [candidate]
  else if matchesPattern platform candidate entry then [entry]
  else []

def intersectOrBase (base : List (List Char)) (override : Option (List (List Char))) :
    List (List Char) :=
  match override with
  | none => base
  | some override =>
    (override.flatMap fun candidate => base.flatMap fun entry =>
      intersectPair platform candidate entry).eraseDups

def networkRank : NetworkMode → Nat
  | .none => 0
  | .loopback => 1
  | .domainAllowlist => 2
  | .allExplicit => 3

def narrowNetworkMode (base : NetworkMode) (override : Option NetworkMode) : NetworkMode :=
  match override with
  | none => base
  | some override => if networkRank override ≤ networkRank base then override else base

/-- An allow list of the merged policy. -/
def mergeAllow (allowBroaden : Bool) (base : List (List Char))
    (override : Option (List (List Char))) : List (List Char) :=
  if allowBroaden then override.getD base else intersectOrBase platform base override

def mergeSandboxPolicy (base : SandboxPolicy) (override : PartialSandboxPolicy)
    (allowBroaden : Bool) : SandboxPolicy :=
  let fs := override.filesystem
  let net := override.network
  let process := override.process
  { mode := override.mode.getD base.mode
    profile := override.profile.getD base.profile
    filesystem :=
      { root := (fs.map (·.root)).getD base.filesystem.root
        readAllow :=
          mergeAllow platform allowBroaden base.filesystem.readAllow (fs.map (·.readAllow))
        readDeny := union base.filesystem.readDeny (fs.map (·.readDeny))
        writeAllow :=
          mergeAllow platform allowBroaden base.filesystem.writeAllow (fs.map (·.writeAllow))
        denyWrite := union base.filesystem.denyWrite (fs.map (·.denyWrite))
        tempWrite :=
          mergeAllow platform allowBroaden base.filesystem.tempWrite (fs.map (·.tempWrite)) }
    network :=
      { mode :=
          if allowBroaden then (net.map (·.mode)).getD base.network.mode
          else narrowNetworkMode base.network.mode (net.map (·.mode))
        allowedDomains :=
          mergeAllow platform allowBroaden base.network.allowedDomains (net.map (·.allowedDomains))
        deniedDomains := union base.network.deniedDomains (net.map (·.deniedDomains))
        allowUnixSockets :=
          mergeAllow platform allowBroaden base.network.allowUnixSockets
            (net.map (·.allowUnixSockets)) }
    process :=
      { allowExec :=
          if allowBroaden then (process.map (·.allowExec)).getD base.process.allowExec
          else base.process.allowExec && (process.map (·.allowExec)).getD true
        allowShell :=
          if allowBroaden then (process.map (·.allowShell)).getD base.process.allowShell
          else base.process.allowShell && (process.map (·.allowShell)).getD true } }

end Merge

end Sandbox

/-!
# The second evaluator of paths

`sandbox-policy-v2.ts`: decisions on paths, with rules that are globs. `minimatch` is the function of
that name, `minimatch(path, pattern)`, which is not part of the repository.
-/

namespace Sandbox

open Lib

/-- The words of `SENSITIVE_PATH_REGEX`. -/
def sensitiveWordsV2 : List String :=
  ["token", "private_key", "private-key", "privatekey", "credential"]

/-- `SENSITIVE_PATH_REGEX.test(value.replace(/\\/g, "/"))`. -/
def isSensitivePathV2 (value : List Char) : Bool :=
  (restsOf (forwardSlashes value)).any (isSensitiveRest sensitiveWordsV2)

structure PathDecisionV2 where
  requestedPath : List Char
  candidate : List Char
  kind : PathAccessKind
  /-- `action === "allow"`; the other action is `"block"`. -/
  allowed : Bool
  rule : String
  reason : String
  matchedPattern : Option (List Char) := none

section PathsV2

variable (platform : Platform) (minimatch : List Char → List Char → Bool)

def normalizePathValue (value : List Char) : List Char :=
  let normalized := forwardSlashes (resolvePath platform.cwd value)
  if 1 < normalized.length then normalized.rdropWhile (· = '/') else normalized

def ruleHasGlob (pattern : List Char) : Bool :=
  pattern.any fun c => c ∈ ['*', '?', '[', ']', '\x7b', '\x7d']

def matchesRule (pattern candidate : List Char) : Bool :=
  let normPattern := normalizePathValue platform pattern
  let normCandidate := normalizePathValue platform candidate
  if ruleHasGlob normPattern then
    minimatch normCandidate normPattern || minimatch normCandidate (normPattern ++ ['/', '*', '*'])
  else normCandidate = normPattern || (normPattern ++ ['/']).isPrefixOf normCandidate

/-- The first rule that matches. -/
def firstMatch (patterns : List (List Char)) (candidate : List Char) : Option (List Char) :=
  patterns.find? fun pattern => matchesRule platform minimatch pattern candidate

def isInsideRoot (root candidate : List Char) : Bool :=
  let normRoot := normalizePathValue platform root
  let normCandidate := normalizePathValue platform candidate
  normCandidate = normRoot || (normRoot ++ ['/']).isPrefixOf normCandidate

/-- The path that is decided on when the resolver has answered. -/
def candidateV2 (requested : List Char) (resolved : ResolvedSandboxPath) : List Char :=
  (resolvedDecisionPath resolved).getD (normalizePathValue platform requested)

/-- The decision on a candidate that is neither sensitive nor outside of the root. -/
def decideRulesV2 (fs : FilesystemPolicy) (kind : PathAccessKind) (requested candidate : List Char) :
    PathDecisionV2 :=
  match kind with
  | .read =>
    match firstMatch platform minimatch fs.readDeny candidate with
    | some pattern =>
      ⟨requested, candidate, kind, false, "path.read_deny", "Read path matches a deny rule.",
        some pattern⟩
    | none =>
      match firstMatch platform minimatch fs.readDeny requested with
      | some pattern =>
        ⟨requested, candidate, kind, false, "path.read_deny", "Read path matches a deny rule.",
          some pattern⟩
      | none =>
        if (firstMatch platform minimatch fs.readAllow candidate).isSome then
          ⟨requested, candidate, kind, true, "path.read_allow", "Read path is allowed.", none⟩
        else
          ⟨requested, candidate, kind, false, "path.read_not_allowed",
            "Read path is not in an allow rule.", none⟩
  | .write =>
    match firstMatch platform minimatch fs.denyWrite candidate with
    | some pattern =>
      ⟨requested, candidate, kind, false, "path.deny_write",
        "Write path matches an unoverrideable denyWrite rule.", some pattern⟩
    | none =>
      match firstMatch platform minimatch fs.denyWrite requested with
      | some pattern =>
        ⟨requested, candidate, kind, false, "path.deny_write",
          "Write path matches an unoverrideable denyWrite rule.", some pattern⟩
      | none =>
        if (firstMatch platform minimatch fs.writeAllow candidate).isSome ||
            (firstMatch platform minimatch fs.tempWrite candidate).isSome then
          ⟨requested, candidate, kind, true, "path.write_allow", "Write path is allowed.", none⟩
        else
          ⟨requested, candidate, kind, false, "path.write_not_allowed",
            "Write path is not in an allow rule.", none⟩

def decidePathV2 (policy : SandboxPolicy) (request : PathAccessRequest)
    (resolver : Option SandboxPathResolver) : PathDecisionV2 :=
  let requested := request.path
  if requested.contains '\x00' then
    ⟨requested, requested, request.kind, false, "path.invalid", "Path contains a NUL byte.", none⟩
  else
    let resolved := (resolver.map fun resolver => resolver requested).getD {}
    match resolved.error.filter (· ≠ "") with
    | some error =>
      ⟨requested, requested, request.kind, false, "path.resolve_error", error, none⟩
    | none =>
      let candidate := candidateV2 platform requested resolved
      if isSensitivePathV2 requested || isSensitivePathV2 candidate then
        ⟨requested, candidate, request.kind, false, "path.sensitive",
          "Sensitive credential-like path is denied.", none⟩
      else if !isInsideRoot platform policy.filesystem.root candidate then
        ⟨requested, candidate, request.kind, false, "path.root_escape",
          "Resolved path is outside the sandbox root.", none⟩
      else if resolved.isSymlink then
        ⟨requested, candidate, request.kind, false, "path.symlink",
          "Symlink traversal is denied by policy.", none⟩
      else decideRulesV2 platform minimatch policy.filesystem request.kind requested candidate

end PathsV2

end Sandbox
