import OmkVerified.Agent.ToolResourceClaims
import OmkVerified.Lib.Json

/-!
# Waves of tool calls

`packages/agent/src/parallel-tool-batch.ts`: the partition of a batch of tool calls into waves. The
calls of one wave run concurrently, the waves run one after another. It is the second policy on
concurrent calls beside the resource claims: search tools share a wave with anything that runs
concurrently at all, and of the file tools only the paths are compared.
-/

namespace Agent

open Lib (Json trim)

/-- `NEVER_PARALLEL_TOOLS`. -/
def neverParallelTools : List String := ["clarify"]

/-- `PARALLEL_SAFE_TOOLS`. -/
def parallelSafeTools : List String :=
  ["grep", "find", "ls", "read", "search_files", "session_search", "skill_view", "skills_list",
    "vision_analyze", "web_extract", "web_search"]

/-- `PATH_SCOPED_TOOLS`. -/
def pathScopedTools : List String := ["read", "write", "edit"]

/-- `ParallelizableToolCall`. -/
structure ParallelizableToolCall where
  name : String
  arguments : Json

/-- `ToolParallelPolicy`. -/
inductive ToolParallelPolicy
  | sequential
  | parallel
deriving DecidableEq

/-- `ShouldParallelizeToolBatchOptions`, with what the code takes from the process: the working
directory where the options name none, and `rawPath.replace(/^~/, process.env.HOME ?? "")`. -/
structure ShouldParallelizeToolBatchOptions where
  cwd : List Char
  toolPolicies : String → Option ToolParallelPolicy := fun _ => none
  allowUnknownParallel : String → Bool := fun _ => false
  expandHome : List Char → List Char := id

/-- `functionArgs.path`, if that is a string. -/
def pathArgument (arguments : Json) : Option (List Char) :=
  match arguments.get? "path" with
  | some (.str path) => some path.toList
  | _ => none

/-- `extractParallelScopePath(toolName, functionArgs, cwd)`. -/
def extractParallelScopePath (options : ShouldParallelizeToolBatchOptions)
    (toolCall : ParallelizableToolCall) : Option (List Char) :=
  if !pathScopedTools.contains toolCall.name then none
  else
    match pathArgument toolCall.arguments with
    | none => none
    | some rawPath =>
      if trim rawPath = [] then none
      else
        let expanded := normalizePathSlashes
          (if rawPath.head? = some '~' then options.expandHome rawPath else rawPath)
        if ['/'].isPrefixOf expanded then some expanded
        else some (joinPathSegments options.cwd expanded)

/-- `ToolCallKind`. -/
inductive ToolCallKind
  | solo
  | safe
  | path
deriving DecidableEq

/-- `classifyToolCall(toolCall, options)`. -/
def classifyToolCall (options : ShouldParallelizeToolBatchOptions)
    (toolCall : ParallelizableToolCall) : ToolCallKind :=
  if neverParallelTools.contains toolCall.name then .solo
  else if options.toolPolicies toolCall.name = some .sequential then .solo
  else if !toolCall.arguments.isRecord then .solo
  else if toolCall.name = "bash" then .solo
  else if pathScopedTools.contains toolCall.name then .path
  else if parallelSafeTools.contains toolCall.name then .safe
  else if options.toolPolicies toolCall.name = some .parallel ||
      options.allowUnknownParallel toolCall.name then .safe
  else .solo

/-- The variables of the loop. -/
structure WaveState where
  waves : List (List Nat) := []
  wave : List Nat := []
  wavePaths : List (List Char) := []

/-- `closeWave()`. -/
def WaveState.closeWave (s : WaveState) : WaveState :=
  if s.wave.length > 0 then { waves := s.waves ++ [s.wave] } else s

/-- A wave of one call. -/
def WaveState.pushAlone (s : WaveState) (index : Nat) : WaveState :=
  { s.closeWave with waves := s.closeWave.waves ++ [[index]] }

/-- `wave.push(index)`. -/
def WaveState.push (s : WaveState) (index : Nat) : WaveState := { s with wave := s.wave ++ [index] }

section Waves

variable (toLowerCase : List Char → List Char) (options : ShouldParallelizeToolBatchOptions)

/-- The wave that a call with this path joins. -/
def WaveState.reserve (s : WaveState) (scopedPath : List Char) : WaveState :=
  let s := if s.wavePaths.any fun existing => pathSegmentsOverlap toLowerCase scopedPath existing then
    s.closeWave else s
  { s with wavePaths := s.wavePaths ++ [scopedPath] }

/-- One round of the loop. -/
def WaveState.place (s : WaveState) (call : ParallelizableToolCall × Nat) : WaveState :=
  match classifyToolCall options call.1 with
  | .solo => s.pushAlone call.2
  | .path =>
    match extractParallelScopePath options call.1 with
    | none => s.pushAlone call.2
    | some scopedPath => (s.reserve toLowerCase scopedPath).push call.2
  | .safe => s.push call.2

/-- `partitionToolBatchWaves(toolCalls, options)`. -/
def partitionToolBatchWaves (toolCalls : List ParallelizableToolCall) : List (List Nat) :=
  (toolCalls.zipIdx.foldl (WaveState.place toLowerCase options) {}).closeWave.waves

end Waves

/-! ## The same calls under claims -/

/-- The built-in path tool of a name. -/
def pathTool (name : String) : Option PathTool :=
  match name with
  | "read" => some .read
  | "write" => some .write
  | "edit" => some .edit
  | "grep" => some .grep
  | "find" => some .find
  | "ls" => some .ls
  | _ => none

/-- The claims that the scheduler assigns to a call of a path tool without a file identity resolver;
a call of another tool has none here. -/
def pathToolClaims (options : ShouldParallelizeToolBatchOptions)
    (toolCall : ParallelizableToolCall) : Option ToolClaimResolution :=
  (pathTool toolCall.name).map fun tool =>
    if !toolCall.arguments.isRecord then .exclusive
    else resolveToolClaims (options.toolPolicies toolCall.name = some .sequential)
      ⟨tool, pathArgument toolCall.arguments⟩ options.cwd

end Agent
