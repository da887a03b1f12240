import OmkVerified.CodingAgent.Session.Open

/-!
# Runs of a session manager

The operations of `SessionManager` as one type, and the states that they reach from a new or an
opened session.
-/

namespace CodingAgent

open Lib

/-- A call of a method of `SessionManager`, with what it takes from its environment. -/
inductive Operation
  | appendMessage (env : Environment) (message : Json)
  | appendThinkingLevelChange (env : Environment) (thinkingLevel : String)
  | appendModelChange (env : Environment) (provider modelId : String)
  | appendCompaction (env : Environment) (summary firstKeptEntryId : String)
      (tokensBefore : Decimal) (details : Option Json) (fromHook : Option Bool)
  | appendCustomEntry (env : Environment) (customType : String) (data : Option Json)
  | appendSessionInfo (env : Environment) (name : String)
  | appendCustomMessageEntry (env : Environment) (customType : String) (content : Json)
      (display : Bool) (details : Option Json)
  | appendLabelChange (env : Environment) (targetId : String) (label : Option String)
  | branch (branchFromId : String)
  | resetLeaf
  | branchWithSummary (env : Environment) (branchFromId : Option String) (summary : String)
      (details : Option Json) (fromHook : Option Bool)
  | createBranchedSession (env : BranchEnvironment) (leafId : String)

/-- The state after a call, whether it returned or threw. -/
def Operation.run (platform : Platform) (w : World) : Operation → World
  | .appendMessage env message => (CodingAgent.appendMessage platform env message w).1
  | .appendThinkingLevelChange env level =>
    (CodingAgent.appendThinkingLevelChange platform env level w).1
  | .appendModelChange env provider modelId =>
    (CodingAgent.appendModelChange platform env provider modelId w).1
  | .appendCompaction env summary firstKept tokens details fromHook =>
    (CodingAgent.appendCompaction platform env summary firstKept tokens details fromHook w).1
  | .appendCustomEntry env customType data =>
    (CodingAgent.appendCustomEntry platform env customType data w).1
  | .appendSessionInfo env name => (CodingAgent.appendSessionInfo platform env name w).1
  | .appendCustomMessageEntry env customType content display details =>
    (CodingAgent.appendCustomMessageEntry platform env customType content display details w).1
  | .appendLabelChange env targetId label =>
    (CodingAgent.appendLabelChange platform env targetId label w).1
  | .branch branchFromId => (CodingAgent.branch branchFromId w).1
  | .resetLeaf => CodingAgent.resetLeaf w
  | .branchWithSummary env branchFromId summary details fromHook =>
    (CodingAgent.branchWithSummary platform env branchFromId summary details fromHook w).1
  | .createBranchedSession env leafId =>
    (CodingAgent.createBranchedSession platform env leafId w).1

/-- The states of a manager: a new session, an opened file, and what the operations make of them. -/
inductive Reachable (platform : Platform) : World → Prop
  | fresh (disk : Disk) (cwd sessionDir : String) (persist : Bool) (id timestamp : String)
      (parentSession : Option String) :
      Reachable platform ⟨disk, newSession platform cwd sessionDir persist id timestamp parentSession⟩
  | opened {env : OpenEnvironment} {path cwd dir : String} {disk disk' : Disk} {m : Manager}
      (h : openSession platform env path cwd dir disk = (disk', .ok m)) : Reachable platform ⟨disk', m⟩
  | step {w : World} (h : Reachable platform w) (op : Operation) :
      Reachable platform (op.run platform w)

end CodingAgent
