import OmkVerified.CodingAgent.RunJournal.Commits
import OmkVerified.CodingAgent.RunJournal.Proofs.RecoveryProofs

/-!
# Commits that fail

A commit that fails inside the locks leaves its store as it was. Every accepted commit finds the head that its store
accepted, and it makes the file longer, so that no head is appended after twice.
-/

namespace CodingAgent.Journal

open Lib

variable {Store : Type} [DecidableEq Store]
variable {hashFn : HashFn} {env : AppendEnvironment} {faults : CommitFaults} {op : JournalOperation} {path : String}
  {store : RunJournalStore} {disk : Disk}

/-- Without failures this is the commit of the store. -/
theorem commitWith_none (hpath : store.journalPath = some path) :
    store.commitWith hashFn env .none op path disk =
      ⟨(store.commit hashFn env op disk).1, (store.commit hashFn env op disk).2.1,
        (store.commit hashFn env op disk).2.2, (store.commit hashFn env op disk).2.2⟩ := by
  have hlocked : store.commitLocked hashFn env .none op path disk = store.commit hashFn env op disk := by
    unfold RunJournalStore.commit RunJournalStore.commitLocked
    rw [hpath]
    rfl
  unfold RunJournalStore.commitWith
  rw [hlocked]
  rfl

/-! ## One commit -/

/-- The number of bytes at the path. -/
def fileSize (disk : Disk) (path : String) : Nat := ((disk.get? path).map fun file => file.bytes.length).getD 0

theorem fileSize_appendFile (bytes : List UInt8) (generation : Generation) :
    fileSize (appendFile disk path bytes generation) path = fileSize disk path + bytes.length := by
  unfold fileSize appendFile
  dsimp only
  rw [OrderedMap.get?_set, if_pos rfl, Option.map_some, Option.getD_some, List.length_append]
  cases disk.get? path <;> rfl

theorem fileSize_partialAppend (line : List UInt8) (written : Option Nat) :
    fileSize disk path ≤ fileSize (partialAppend env path line written disk) path := by
  unfold partialAppend
  cases written with
  | none => exact le_rfl
  | some count =>
    rw [fileSize_appendFile]
    exact Nat.le_add_right _ _

theorem size_readDurableHead {head : JournalHead} (h : readDurableHead hashFn disk path = .ok head) :
    head.size = fileSize disk path := by
  unfold readDurableHead at h
  unfold fileSize
  cases hfile : disk.get? path with
  | none =>
    rw [hfile] at h
    obtain rfl := Except.ok.inj h
    rfl
  | some file =>
    rw [hfile] at h
    dsimp only at h
    obtain ⟨report, -, h⟩ := bind_eq_ok.mp h
    obtain ⟨_, -, h⟩ := bind_eq_ok.mp h
    obtain rfl := Except.ok.inj h
    rfl

theorem size_of_assertFresh (hpath : store.journalPath = some path) (h : store.assertFresh hashFn disk = .ok ()) :
    store.acceptedDurableHead.size = fileSize disk path := by
  unfold RunJournalStore.assertFresh at h
  rw [hpath] at h
  dsimp only at h
  obtain ⟨head, hread, hsame⟩ := bind_eq_ok.mp h
  have heq : head = store.acceptedDurableHead := of_decide_eq_true (require_eq_ok.mp hsame)
  rw [← heq]
  exact size_readDurableHead hread

/-- What the write does to the size of the file. -/
theorem fileSize_persistWith (accepted : JournalHead) (record : RunJournalRecord) :
    fileSize disk path ≤ fileSize (persistWith hashFn env faults path accepted record disk).1 path ∧
      ∀ head, (persistWith hashFn env faults path accepted record disk).2 = .ok head →
        fileSize disk path < fileSize (persistWith hashFn env faults path accepted record disk).1 path := by
  unfold persistWith
  dsimp only
  cases faults.persist with
  | some failure =>
    exact ⟨fileSize_partialAppend _ _, fun head h => absurd h (raise_ne_ok _ _)⟩
  | none =>
    dsimp only
    rw [fileSize_appendFile]
    have hpos : 0 < (Utf8.encode (serializeRunJournalLine record ++ ['\n'])).length := by
      rw [Utf8.encode_append, List.length_append]
      exact Nat.lt_add_left _ (by decide)
    exact ⟨Nat.le_add_right _ _, fun _ _ => Nat.lt_add_of_pos_right hpos⟩

/-- What one commit does: the file does not shrink, and the store changes only when the part inside the locks returns;
then the file had the size of the accepted head, and it is longer. -/
structure CommitStep (path : String) (disk : Disk) (store : RunJournalStore) (outcome : CommitOutcome) : Prop where
  grows : fileSize disk path ≤ fileSize outcome.disk path
  journalPath : outcome.store.journalPath = store.journalPath
  unchanged : (∀ record, outcome.locked ≠ .ok record) → outcome.store = store
  appended : (∃ record, outcome.locked = .ok record) →
    store.acceptedDurableHead.size = fileSize disk path ∧ fileSize disk path < fileSize outcome.disk path

theorem commitLocked_step (hpath : store.journalPath = some path) (returned : Result RunJournalRecord) :
    CommitStep path disk store ⟨(store.commitLocked hashFn env faults op path disk).1,
      (store.commitLocked hashFn env faults op path disk).2.1,
      (store.commitLocked hashFn env faults op path disk).2.2, returned⟩ := by
  have hunchanged (e : SessionError) : CommitStep path disk store ⟨disk, store, .error e, returned⟩ :=
    ⟨le_rfl, rfl, fun _ => rfl, fun ⟨_, h⟩ => nomatch h⟩
  unfold RunJournalStore.commitLocked
  dsimp only
  split
  · exact hunchanged _
  · next record candidate happended =>
    obtain ⟨_, -, happended⟩ := bind_eq_ok.mp happended
    obtain ⟨_, hfresh, -⟩ := bind_eq_ok.mp happended
    have hsize := size_of_assertFresh hpath hfresh
    obtain ⟨hgrows, hlonger⟩ :=
      @fileSize_persistWith hashFn env faults path disk store.acceptedDurableHead record
    cases hpersist : persistWith hashFn env faults path store.acceptedDurableHead record disk with
    | mk written result =>
      rw [hpersist] at hgrows hlonger
      cases result with
      | error e => exact ⟨hgrows, rfl, fun _ => rfl, fun ⟨_, h⟩ => nomatch h⟩
      | ok head => exact ⟨hgrows, rfl, fun h => absurd rfl (h record), fun _ => ⟨hsize, hlonger head rfl⟩⟩

theorem commitWith_step (hpath : store.journalPath = some path) :
    CommitStep path disk store (store.commitWith hashFn env faults op path disk) := by
  unfold RunJournalStore.commitWith
  split
  · exact ⟨le_rfl, rfl, fun _ => rfl, fun ⟨_, h⟩ => nomatch h⟩
  · dsimp only
    split
    · exact commitLocked_step hpath _
    · exact commitLocked_step hpath _

/-- What the caller gets is what the part inside the locks returns, unless a lock is not released. -/
theorem returned_of_commit {outcome : CommitOutcome}
    (h : outcome = store.commitWith hashFn env faults op path disk) :
    outcome.returned = outcome.locked ∨ faults.release ≠ none ∧ ∃ e, outcome.returned = .error e := by
  subst h
  unfold RunJournalStore.commitWith
  split
  · exact .inl rfl
  · dsimp only
    cases hrelease : faults.release with
    | none => exact .inl rfl
    | some message => exact .inr ⟨by simp, _, rfl⟩

/-- A commit that gets into the locks and does not release them throws. -/
theorem returned_of_release {message : String} (henter : faults.enter = none) (hrelease : faults.release = some message) :
    ∃ e, (store.commitWith hashFn env faults op path disk).returned = .error e := by
  unfold RunJournalStore.commitWith
  rw [henter, hrelease]
  exact ⟨_, rfl⟩

/-! ## Runs -/

variable {calls : List (CommitCall Store)} {stores : Store → RunJournalStore}

/-- The stores stay on their file. -/
theorem journalPath_update (hpath : ∀ i, (stores i).journalPath = some path) (call : CommitCall Store) (i : Store) :
    (Function.update stores call.store
      ((stores call.store).commitWith hashFn call.env call.faults call.op path disk).store i).journalPath = some path := by
  rw [Function.update_apply]
  split_ifs
  · rw [(commitWith_step (hpath call.store)).journalPath]
    exact hpath call.store
  · exact hpath i

/-- Every commit of the run is a commit of its store. -/
theorem commits_steps (hpath : ∀ i, (stores i).journalPath = some path) :
    ∀ commit ∈ commits hashFn path calls disk stores, ∃ disk,
      commit.outcome = commit.before.commitWith hashFn commit.call.env commit.call.faults commit.call.op path disk ∧
        commit.before.journalPath = some path := by
  induction calls generalizing disk stores with
  | nil =>
    intro commit h
    cases h
  | cons call calls ih =>
    intro commit h
    rcases List.mem_cons.mp h with rfl | h
    · exact ⟨disk, rfl, hpath call.store⟩
    · exact ih (journalPath_update hpath call) commit h

/-- An accepted commit is made to a file that is at least as long as at the start. -/
theorem fileSize_le_of_accepted (hpath : ∀ i, (stores i).journalPath = some path) :
    ∀ commit ∈ commits hashFn path calls disk stores, commit.Accepted →
      fileSize disk path ≤ commit.before.acceptedDurableHead.size := by
  induction calls generalizing disk stores with
  | nil =>
    intro commit h
    cases h
  | cons call calls ih =>
    intro commit h haccepted
    have hstep : CommitStep path disk (stores call.store)
        ((stores call.store).commitWith hashFn call.env call.faults call.op path disk) :=
      commitWith_step (hpath call.store)
    rcases List.mem_cons.mp h with rfl | h
    · exact (hstep.appended haccepted).1.ge
    · exact hstep.grows.trans (ih (journalPath_update hpath call) commit h haccepted)

/-- The accepted heads grow along the run. -/
theorem heads_increase (hpath : ∀ i, (stores i).journalPath = some path) :
    (commits hashFn path calls disk stores).Pairwise fun first second => first.Accepted → second.Accepted →
      first.before.acceptedDurableHead.size < second.before.acceptedDurableHead.size := by
  induction calls generalizing disk stores with
  | nil => exact List.Pairwise.nil
  | cons call calls ih =>
    have hstep : CommitStep path disk (stores call.store)
        ((stores call.store).commitWith hashFn call.env call.faults call.op path disk) :=
      commitWith_step (hpath call.store)
    refine List.pairwise_cons.mpr ⟨?_, ih (journalPath_update hpath call)⟩
    intro second hsecond hfirst hlater
    obtain ⟨hsize, hlonger⟩ := hstep.appended hfirst
    have hle := fileSize_le_of_accepted (journalPath_update hpath call) second hsecond hlater
    show (stores call.store).acceptedDurableHead.size < _
    omega

/-- What holds of the commits of a run. A commit whose record is accepted throws only when a lock is not released. -/
structure CommitsHold (history : List (Committed Store)) : Prop where
  unchanged : ∀ commit ∈ history, (∃ e, commit.outcome.returned = .error e) →
    commit.outcome.store = commit.before ∨ commit.Accepted ∧ commit.call.faults.release ≠ none
  accepted : ∀ commit ∈ history, ∀ record, commit.outcome.returned = .ok record → commit.Accepted
  heads : history.Pairwise fun first second => first.Accepted → second.Accepted →
    first.before.acceptedDurableHead ≠ second.before.acceptedDurableHead

/-- Commits of any number of stores on one file, each failing anywhere. -/
theorem commits_hold (hpath : ∀ i, (stores i).journalPath = some path) :
    CommitsHold (commits hashFn path calls disk stores) where
  unchanged := by
    rintro commit hcommit ⟨e, he⟩
    obtain ⟨disk, houtcome, hstore⟩ := commits_steps hpath commit hcommit
    have hstep : CommitStep path disk commit.before commit.outcome := by
      rw [houtcome]
      exact commitWith_step hstore
    by_cases haccepted : commit.Accepted
    · refine .inr ⟨haccepted, ?_⟩
      obtain ⟨record, hlocked⟩ := haccepted
      rcases returned_of_commit houtcome with hsame | ⟨hrelease, -⟩
      · rw [he, hlocked] at hsame
        cases hsame
      · exact hrelease
    · exact .inl (hstep.unchanged fun record h => haccepted ⟨record, h⟩)
  accepted := by
    intro commit hcommit record hreturned
    obtain ⟨disk, houtcome, -⟩ := commits_steps hpath commit hcommit
    rcases returned_of_commit houtcome with hsame | ⟨-, e, he⟩
    · rw [hreturned] at hsame
      exact ⟨record, hsame.symm⟩
    · rw [hreturned] at he
      cases he
  heads := (heads_increase hpath).imp fun h hfirst hsecond heq =>
    absurd (congrArg JournalHead.size heq) (h hfirst hsecond).ne

/-- Two stores start a run each, and the write of the first one fails. -/
def sampleCalls : List (CommitCall Bool) :=
  [⟨true, ⟨0, default⟩, { CommitFaults.none with persist := some (none, "EIO") }, sampleStart⟩,
    ⟨false, ⟨1, default⟩, .none, sampleStart⟩, ⟨true, ⟨2, default⟩, .none, sampleStart⟩]

theorem commits_hold_sample : CommitsHold (commits sampleHash "journal.jsonl" sampleCalls .empty fun _ => sampleStore) :=
  commits_hold fun _ => rfl

/-- A lock that is not released: the commit throws, and its record is accepted. -/
theorem commit_release_fails :
    let outcome := sampleStore.commitWith sampleHash ⟨0, default⟩
      { CommitFaults.none with release := some "EACCES" } sampleStart "journal.jsonl" .empty
    (∃ e, outcome.returned = .error e) ∧ sampleStore.acceptedRecords = [] ∧
      outcome.store.acceptedRecords ≠ [] := by
  refine ⟨returned_of_release rfl rfl, rfl, ?_⟩
  decide +kernel

end CodingAgent.Journal
