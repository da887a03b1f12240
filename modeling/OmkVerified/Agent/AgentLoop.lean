import OmkVerified.Agent.ParallelToolBatch
import OmkVerified.Agent.ToolDagScheduler
import OmkVerified.Agent.Transcript

/-!
# The agent loop

`packages/agent/src/agent-loop.ts`: the executors of a batch of tool calls, the turns of a run, and
the end of a run that failed.

What the provider, the tools and their hooks do is an argument. So is the abort signal: `aborted n`
is what the `n`-th read of it in a batch gives.
-/

namespace Agent

open Lib (Json)

/-! ## The outcome of one call -/

/-- `stampToolResultEnvelope(details, envelope)`. -/
def stampToolResultEnvelope (details : Option Json) (envelope : ToolResultEnvelope) : Json :=
  match details with
  | none => .obj [("omk", envelope.toJson)]
  | some (.obj fields) =>
    .obj ((fields.filter fun field => field.1 ≠ "omk") ++ [("omk", envelope.toJson)])
  | some details => .obj [("originalDetails", details), ("omk", envelope.toJson)]

/-- `FinalizedToolCallOutcome` without the call. -/
structure FinalizedOutcome where
  content : List ContentBlock
  details : Option Json
  terminate : Bool
  isError : Bool
  envelope : ToolResultEnvelope
  /-- `isRealPromiseSettled?.() === false` -/
  unsettled : Bool
  timestamp : Nat

/-- `createToolResultMessage(finalized)`. -/
def createToolResultMessage (call : ToolCall) (outcome : FinalizedOutcome) : ToolResultMessage :=
  ⟨call.id, call.name, outcome.content,
    some (stampToolResultEnvelope outcome.details outcome.envelope), outcome.isError,
    outcome.timestamp⟩

/-- What a batch meets; calls are named by their source index. -/
structure BatchRun where
  outcome : Nat → FinalizedOutcome
  /-- Authorization ends the call. -/
  immediate : Nat → Bool
  /-- The claims of the planned arguments, if planning gave a plain object. -/
  plannedClaims : Nat → Option ToolClaimResolution
  /-- The claims of the authorized arguments, if they are a plain object. -/
  finalClaims : Nat → Option ToolClaimResolution
  aborted : Nat → Bool
  now : Nat

/-- An aborted signal stays aborted. -/
def BatchRun.Sticky (run : BatchRun) : Prop :=
  ∀ n, run.aborted n = true → run.aborted (n + 1) = true

/-- What the loop reads of its configuration. -/
structure AgentLoopConfig where
  toLowerCase : List Char → List Char
  /-- `toolScheduler === "dag-v2"` -/
  dagV2 : Bool
  /-- `toolExecution === "sequential"` -/
  sequential : Bool
  options : ShouldParallelizeToolBatchOptions
  maxToolConcurrency : ConcurrencyCap

/-- `shouldTerminateToolBatch(finalizedCalls)`. -/
def shouldTerminateToolBatch (run : BatchRun) (ended : List Nat) : Bool :=
  !ended.isEmpty && ended.all fun index => (run.outcome index).terminate

/-! ## The executors without claims

Each gives the calls that it ends, in the order of their results, and the reads of the signal so
far. -/

/-- The loop over the calls, which leaves at the first read of an aborted signal. -/
def endUntilAborted (run : BatchRun) : (calls : List Nat) → (reads : Nat) → List Nat × Nat
  | [], reads => ([], reads)
  | index :: calls, reads =>
    if run.aborted reads then ([index], reads + 1)
    else
      let (ended, reads) := endUntilAborted run calls (reads + 1)
      (index :: ended, reads)

/-- `executeToolCallsSequential`: a call ends before the next one is prepared. -/
def executeToolCallsSequential (run : BatchRun) : List Nat → Nat → List Nat × Nat :=
  endUntilAborted run

/-- `executeToolCallsParallel`: the loop prepares the calls, which then run together, and
`Promise.all` gives their outcomes in source order. -/
def executeToolCallsParallel (run : BatchRun) : List Nat → Nat → List Nat × Nat :=
  endUntilAborted run

/-- `executeToolCallsInWaves`, wave by wave. -/
def executeToolCallsInWaves (run : BatchRun) :
    (waves : List (List Nat)) → (reads : Nat) → List (List Nat) × Nat
  | [], reads => ([], reads)
  | wave :: waves, reads =>
    let (ended, reads) := if wave.length = 1 then executeToolCallsSequential run wave reads
      else executeToolCallsParallel run wave reads
    if run.aborted reads then ([ended], reads + 1)
    else
      let (rest, reads) := executeToolCallsInWaves run waves (reads + 1)
      (ended :: rest, reads)

/-! ## The dag executor -/

/-- Levels of the calls by their claims: each call alone when one has none, and `none` when the
signal is aborted before the scheduler answers. -/
def scheduleCalls (config : AgentLoopConfig) (run : BatchRun)
    (claims : Nat → Option ToolClaimResolution) (calls : List Nat) (reads : Nat) :
    Option (List (List Nat)) × Nat :=
  match calls.mapM claims with
  | none => (some (calls.map fun index => [index]), reads)
  | some resolutions =>
    if run.aborted reads then (none, reads + 1)
    else
      let levels := scheduleDagLevels config.toLowerCase resolutions config.maxToolConcurrency
      (some (levels.map fun level => level.filterMap fun k => calls[k]?), reads + 1)

/-- The authorization loop of `runDagLevelCalls`: the calls that it ends, and those that can run,
unless the signal was aborted. -/
def authorizeLevel (run : BatchRun) : (level ended runnable : List Nat) → (reads : Nat) →
    List Nat × Option (List Nat) × Nat
  | [], ended, runnable, reads => (ended, some runnable, reads)
  | index :: level, ended, runnable, reads =>
    let ended' := if run.immediate index then ended ++ [index] else ended
    let runnable' := if run.immediate index then runnable else runnable ++ [index]
    if run.aborted reads then (ended', none, reads + 1)
    else authorizeLevel run level ended' runnable' (reads + 1)

/-- What `runDagLevelCalls` returns. -/
structure LevelRun where
  ended : List Nat
  stoppedByUnsettledTimeout : Bool
  reads : Nat

/-- The loop of `runDagLevelCalls` over the levels of the authorized calls. -/
def runExecutionLevels (run : BatchRun) : (levels : List (List Nat)) → (ended : List Nat) →
    (reads : Nat) → LevelRun
  | [], ended, reads => ⟨ended, false, reads⟩
  | level :: levels, ended, reads =>
    if run.aborted reads then ⟨ended, false, reads + 1⟩
    else if run.aborted (reads + 1) then ⟨ended ++ level, false, reads + 2⟩
    else if level.any fun index => decide ((run.outcome index).envelope.disposition = .timeout) &&
        (run.outcome index).unsettled then ⟨ended ++ level, true, reads + 2⟩
    else runExecutionLevels run levels (ended ++ level) (reads + 2)

/-- `runDagLevelCalls`. -/
def runDagLevelCalls (config : AgentLoopConfig) (run : BatchRun) (level : List Nat) (reads : Nat) :
    LevelRun :=
  match authorizeLevel run level [] [] reads with
  | (ended, none, reads) => ⟨ended, false, reads⟩
  | (ended, some runnable, reads) =>
    match scheduleCalls config run run.finalClaims runnable reads with
    | (none, reads) => ⟨ended, false, reads⟩
    | (some levels, reads) => runExecutionLevels run levels ended reads

/-- Why the rest of a batch is skipped. -/
inductive DagSkip
  | unsettledTimeout
  | termination
deriving DecidableEq

/-- `skippedReason`. -/
def DagSkip.reason : DagSkip → String
  | .unsettledTimeout =>
    "Skipped because a preceding DAG tool timed out before its execution promise settled"
  | .termination => "Skipped because the preceding DAG level requested termination"

/-- The level loop of `executeToolCallsDagLevels`. -/
def runDagLevels (config : AgentLoopConfig) (run : BatchRun) : (levels : List (List Nat)) →
    (ended : List Nat) → (reads : Nat) → List Nat × Option DagSkip × Nat
  | [], ended, reads => (ended, none, reads)
  | level :: levels, ended, reads =>
    if run.aborted reads then (ended, none, reads + 1)
    else
      let done := runDagLevelCalls config run level (reads + 1)
      let ended := ended ++ done.ended
      if run.aborted done.reads then (ended, none, done.reads + 1)
      else if done.stoppedByUnsettledTimeout then (ended, some .unsettledTimeout, done.reads + 1)
      else if shouldTerminateToolBatch run done.ended then (ended, some .termination, done.reads + 1)
      else runDagLevels config run levels ended (done.reads + 1)

/-! ## Batches -/

structure ExecutedToolCallBatch where
  messages : List ToolResultMessage
  terminate : Bool
  stopRun : Bool := false

/-- The result of a call that did not run. -/
def unstartedResult (run : BatchRun) (reason : String) (disposition : SyntheticDisposition)
    (call : ToolCall) : ToolResultMessage :=
  createSyntheticToolResult call.id call.name reason run.now disposition

/-- `executeToolCallsDagLevels`. -/
def executeToolCallsDagLevels (config : AgentLoopConfig) (run : BatchRun) (calls : List ToolCall) :
    ExecutedToolCallBatch × Nat :=
  let (levels, reads) := scheduleCalls config run run.plannedClaims (List.range calls.length) 0
  let (ended, skipped, reads) := runDagLevels config run (levels.getD []) [] reads
  (⟨calls.zipIdx.filterMap fun (call, index) =>
      if index ∈ ended then some (createToolResultMessage call (run.outcome index))
      else if run.aborted reads then some (unstartedResult run "Operation aborted" .aborted call)
      else skipped.map fun skip => unstartedResult run skip.reason .skipped call,
    skipped.isSome || shouldTerminateToolBatch run ended, decide (skipped = some .unsettledTimeout)⟩,
    reads + 1)

/-- The batch of calls that ended in these groups. -/
def endedBatch (run : BatchRun) (calls : List ToolCall) (groups : List (List Nat)) :
    ExecutedToolCallBatch where
  messages := groups.flatten.filterMap fun index =>
    calls[index]?.map fun call => createToolResultMessage call (run.outcome index)
  terminate := !groups.isEmpty && groups.all (shouldTerminateToolBatch run)

/-- `executeToolCalls`. -/
def executeToolCalls (config : AgentLoopConfig) (run : BatchRun) (calls : List ToolCall) :
    ExecutedToolCallBatch × Nat :=
  if config.dagV2 && !config.sequential then executeToolCallsDagLevels config run calls
  else
    let waves := partitionToolBatchWaves config.toLowerCase config.options
      (calls.map fun call => ⟨call.name, call.arguments⟩)
    let indices := List.range calls.length
    if config.sequential ||
        calls.any (fun call => config.options.toolPolicies call.name = some .sequential) ||
        waves.all (fun wave => wave.length = 1) then
      let (ended, reads) := executeToolCallsSequential run indices 0
      (endedBatch run calls [ended], reads)
    else if waves.length = 1 then
      let (ended, reads) := executeToolCallsParallel run indices 0
      (endedBatch run calls [ended], reads)
    else
      let (groups, reads) := executeToolCallsInWaves run waves 0
      (endedBatch run calls groups, reads)

/-- `closeAbortedToolBatch`, from the calls and the ids that have a result. -/
def closeAbortedToolBatch (run : BatchRun) : (calls : List ToolCall) → (resolvedIds : List String) →
    List ToolResultMessage
  | [], _ => []
  | call :: calls, resolvedIds =>
    if call.id ∈ resolvedIds then closeAbortedToolBatch run calls resolvedIds
    else unstartedResult run "Operation aborted" .aborted call ::
      closeAbortedToolBatch run calls (call.id :: resolvedIds)

/-- A batch in `runLoop`: its results, with those that an abort adds, whether the batch asks to end
the turns (`terminate`), and whether the run ends with it. -/
def runBatch (config : AgentLoopConfig) (run : BatchRun) (calls : List ToolCall) :
    ExecutedToolCallBatch :=
  let (batch, reads) := executeToolCalls config run calls
  if run.aborted reads then
    ⟨batch.messages ++ closeAbortedToolBatch run calls (batch.messages.map (·.toolCallId)),
      batch.terminate, true⟩
  else batch

/-! ## Turns -/

/-- What one turn of a run meets. -/
structure Turn where
  /-- The steering or follow-up messages before the response. -/
  pendingMessages : List AgentMessage
  transformContext : Option (List AgentMessage → List AgentMessage)
  response : AssistantMessage
  batch : BatchRun
  /-- The context that `prepareNextTurn` puts in the place of the current one. -/
  nextContext : Option (List AgentMessage)
  shouldStopAfterTurn : Bool

/-- The messages of the context and of the run. -/
structure LoopState where
  context : List AgentMessage
  newMessages : List AgentMessage

def LoopState.push (s : LoopState) (messages : List AgentMessage) : LoopState :=
  ⟨s.context ++ messages, s.newMessages ++ messages⟩

inductive LoopEnd
  | continues (hasMoreToolCalls : Bool)
  | finished
  | refusedRequest
  | refusedTransform
  | refusedTools
deriving DecidableEq

/-- The results for a response that the provider did not finish. -/
def unfinishedResults (turn : Turn) : List ToolResultMessage :=
  turn.response.toolCalls.map
    (if turn.response.stopReason = .aborted then
      unstartedResult turn.batch "Operation aborted" .aborted
    else
      unstartedResult turn.batch "Skipped because the provider terminated before tool execution"
        .skipped)

/-- The batch of a response, if it has calls. -/
def turnBatch (config : AgentLoopConfig) (turn : Turn) : ExecutedToolCallBatch :=
  if turn.response.toolCalls = [] then ⟨[], true, false⟩
  else runBatch config turn.batch turn.response.toolCalls

/-- The body of the inner loop of `runLoop`. -/
def runTurn (config : AgentLoopConfig) (turn : Turn) (s : LoopState) : LoopState × LoopEnd :=
  let s := s.push turn.pendingMessages
  if !(inspectTranscriptIntegrity s.context).ok then (s, .refusedRequest)
  else if turn.transformContext.any fun transform =>
      !(inspectTranscriptIntegrity (transform s.context)).ok then (s, .refusedTransform)
  else
    let s := s.push [.assistant turn.response]
    if (inspectTranscriptIntegrity s.context).issues.any
        fun issue => decide (issue.kind ≠ .missingResult) then (s, .refusedTools)
    else if turn.response.stopReason = .error ∨ turn.response.stopReason = .aborted then
      (s.push ((unfinishedResults turn).map .toolResult), .finished)
    else
      let batch := turnBatch config turn
      let s := s.push (batch.messages.map .toolResult)
      if batch.stopRun then (s, .finished)
      else
        let s := { s with context := turn.nextContext.getD s.context }
        (s, if turn.shouldStopAfterTurn then .finished else .continues !batch.terminate)

/-- `runLoop`; when the given turns are used up, the run goes on. -/
def runLoop (config : AgentLoopConfig) : (turns : List Turn) → (hasMoreToolCalls : Bool) →
    LoopState → LoopState × LoopEnd
  | [], more, s => (s, .continues more)
  | turn :: turns, more, s =>
    if !more && turn.pendingMessages.isEmpty then (s, .finished)
    else
      match runTurn config turn s with
      | (s, .continues more) => runLoop config turns more s
      | result => result

/-! ## Runs that fail -/

/-- The model and the error of a run that failed. -/
structure RunFailure where
  api : String
  provider : String
  model : String
  errorText : String
  aborted : Bool
  timestamp : Nat
  /-- The times of the results that close the run. -/
  now : Nat → Nat

/-- The assistant message of a failure. -/
def RunFailure.message (failure : RunFailure) : AgentMessage :=
  .assistant ⟨[.text ""], failure.api, failure.provider, failure.model, emptyUsage,
    if failure.aborted then .aborted else .error, some failure.errorText, failure.timestamp⟩

structure FailureTerminationPlan where
  messages : List AgentMessage
  failureMessage : Option AgentMessage
  closureResults : List AgentMessage

/-- `planFailureTermination`. -/
def planFailureTermination (completedMessages : List AgentMessage) (failure : RunFailure) :
    FailureTerminationPlan :=
  if (inspectTranscriptIntegrity completedMessages).ok then
    ⟨completedMessages ++ [failure.message], some failure.message, []⟩
  else
    match repairTranscriptIntegrity completedMessages
      (some "Tool result missing; run terminated by error") failure.now with
    | .error _ => ⟨completedMessages, none, []⟩
    | .ok repaired =>
      ⟨repaired ++ [failure.message], some failure.message, repaired.drop completedMessages.length⟩

/-- The messages that the stream of `agentLoop` ends with. -/
def agentLoop (config : AgentLoopConfig) (turns : List Turn) (prompts context : List AgentMessage)
    (failure : RunFailure) : List AgentMessage :=
  match runLoop config turns true ⟨context ++ prompts, prompts⟩ with
  | (s, .continues _) | (s, .finished) => s.newMessages
  | (s, _) => (planFailureTermination s.newMessages failure).messages

end Agent
