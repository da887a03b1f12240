import OmkVerified.CodingAgent.RunJournal.Store

/-!
# Commits that fail

The commit of `run-journal-store.ts` with a failure at any of its steps, and sequences of commits by several stores on
one journal file. The locks are held by one commit at a time, so that a sequence is all there is.
-/

namespace CodingAgent.Journal

open Lib

/-! ## Failures -/

/-- What fails in a commit besides its own checks. -/
structure CommitFaults where
  /-- Taking the locks, or `assertSessionOwnerRecoveryAllowedUnlockedSync`. -/
  enter : Option String
  /-- The first read of the file. -/
  readHead : Option String
  /-- `persistRecord`, with the bytes of the line that reach the file, or `none` where the file is not opened. -/
  persist : Option (Option Nat × String)
  /-- The read after the write. -/
  readBack : Option String
  /-- Releasing the locks. -/
  release : Option String

def CommitFaults.none : CommitFaults := ⟨.none, .none, .none, .none, .none⟩

/-- Throws where the step fails. -/
def failWith : Option String → Result Unit
  | some message => raise message
  | none => .ok ()

/-- What a write leaves that fails. -/
def partialAppend (env : AppendEnvironment) (path : String) (line : List UInt8) (written : Option Nat) (disk : Disk) :
    Disk :=
  match written with
  | none => disk
  | some count => appendFile disk path (line.take count) (env.generation disk path)

/-- The part of `commit` that writes the record to the file. -/
def persistWith (hashFn : HashFn) (env : AppendEnvironment) (faults : CommitFaults) (path : String)
    (accepted : JournalHead) (record : RunJournalRecord) (disk : Disk) : Disk × Result JournalHead :=
  let line := Utf8.encode (serializeRunJournalLine record ++ ['\n'])
  match faults.persist with
  | some (written, message) => (partialAppend env path line written disk, raise message)
  | none =>
    let disk := appendFile disk path line (env.generation disk path)
    (disk, do
      failWith faults.readBack
      let next ← readDurableHead hashFn disk path
      require (next = expectedHead accepted next record line.length)
        "persisted run journal head does not match appended record"
      return next)

/-- `commit(append)` inside the locks, of a store with a file. -/
def RunJournalStore.commitLocked (hashFn : HashFn) (env : AppendEnvironment) (faults : CommitFaults)
    (op : JournalOperation) (path : String) (store : RunJournalStore) (disk : Disk) :
    Disk × RunJournalStore × Result RunJournalRecord :=
  let appended := do
    failWith faults.readHead
    store.assertFresh hashFn disk
    let candidate ← replayRecords hashFn store.acceptedRecords store.sessionId
    op.run hashFn candidate
  match appended with
  | .error e => (disk, store, .error e)
  | .ok (record, candidate) =>
    match persistWith hashFn env faults path store.acceptedDurableHead record disk with
    | (disk, .error e) => (disk, store, .error e)
    | (disk, .ok head) => (disk, store.accept candidate head, .ok record)

/-- What a commit does: the disk and the store after it, what the part inside the locks returns, and what the caller
gets. -/
structure CommitOutcome where
  disk : Disk
  store : RunJournalStore
  locked : Result RunJournalRecord
  returned : Result RunJournalRecord

/-- `commit(append)` of a store with a file. An error of a release takes the place of the result. -/
def RunJournalStore.commitWith (hashFn : HashFn) (env : AppendEnvironment) (faults : CommitFaults)
    (op : JournalOperation) (path : String) (store : RunJournalStore) (disk : Disk) : CommitOutcome :=
  match failWith faults.enter with
  | .error e => ⟨disk, store, .error e, .error e⟩
  | .ok () =>
    let (disk, store, locked) := store.commitLocked hashFn env faults op path disk
    match failWith faults.release with
    | .error e => ⟨disk, store, locked, .error e⟩
    | .ok () => ⟨disk, store, locked, locked⟩

/-! ## Runs of several stores -/

/-- A call of a method of one of the stores. -/
structure CommitCall (Store : Type) where
  store : Store
  env : AppendEnvironment
  faults : CommitFaults
  op : JournalOperation

/-- One commit of a run: the call, the store before it, and the outcome. -/
structure Committed (Store : Type) where
  call : CommitCall Store
  before : RunJournalStore
  outcome : CommitOutcome

/-- The commits of the calls, one after the other. -/
def commits {Store : Type} [DecidableEq Store] (hashFn : HashFn) (path : String) :
    List (CommitCall Store) → Disk → (Store → RunJournalStore) → List (Committed Store)
  | [], _, _ => []
  | call :: calls, disk, stores =>
    let outcome := (stores call.store).commitWith hashFn call.env call.faults call.op path disk
    ⟨call, stores call.store, outcome⟩ ::
      commits hashFn path calls outcome.disk (Function.update stores call.store outcome.store)

/-- The record is in the file and the store has accepted it. -/
def Committed.Accepted {Store : Type} (commit : Committed Store) : Prop := ∃ record, commit.outcome.locked = .ok record

end CodingAgent.Journal
