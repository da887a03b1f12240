import OmkVerified.CodingAgent.RunJournal.Proofs.ReplayProofs
import OmkVerified.CodingAgent.RunJournal.Proofs.TerminationProofs

/-!
# Recovery of a torn journal

A store and its file stay in step over every run: the bytes are the lines of the accepted records,
which fit one after the other. A cut anywhere in these bytes leaves the lines of a prefix of the
records and a fragment without a line feed, and `open` takes the prefix, moves the fragment away and
closes the run that the prefix leaves open.
-/

namespace CodingAgent.Journal

open Lib

/-! ## Records that a store can hold -/

variable {j : RunJournal} {runId : String} {disk' : Disk}

theorem fitting_append {hashFn : HashFn} {a b : List RunJournalRecord} :
    Fitting hashFn j (a ++ b) ↔ Fitting hashFn j a ∧ Fitting hashFn (advanceAll j a) b := by
  induction a generalizing j with
  | nil =>
    show Fitting hashFn j b ↔ True ∧ Fitting hashFn j b
    rw [true_and]
  | cons r a ih =>
    show _ ∧ _ ∧ Fitting hashFn (j.advance r) (a ++ b) ↔
      (_ ∧ _ ∧ Fitting hashFn (j.advance r) a) ∧ Fitting hashFn (advanceAll (j.advance r) a) b
    rw [ih, and_assoc, and_assoc]

theorem namesOpenRuns_append {openRun : Option String} {a b : List RunJournalRecord} :
    NamesOpenRuns openRun (a ++ b) ↔
      NamesOpenRuns openRun a ∧ NamesOpenRuns (a.foldl openAfter openRun) b := by
  induction a generalizing openRun with
  | nil =>
    show NamesOpenRuns openRun b ↔ True ∧ NamesOpenRuns openRun b
    rw [true_and]
  | cons r a ih =>
    show _ ∧ NamesOpenRuns (openAfter openRun r) (a ++ b) ↔
      (_ ∧ NamesOpenRuns (openAfter openRun r) a) ∧ NamesOpenRuns _ b
    rw [ih, and_assoc]
    rfl

theorem openAfter_canonical (openRun : Option String) (r : RunJournalRecord) :
    openAfter openRun r.canonical = openAfter openRun r := by
  obtain ⟨⟨seq, event, runId, sessionId, revision, timestamp, prevHash⟩, hash⟩ := r
  cases event <;> rfl

theorem namesOpenRuns_canonical {openRun : Option String} {records : List RunJournalRecord}
    (h : NamesOpenRuns openRun records) :
    NamesOpenRuns openRun (records.map RunJournalRecord.canonical) := by
  induction records generalizing openRun with
  | nil => trivial
  | cons r records ih =>
    obtain ⟨hr, h⟩ := h
    refine ⟨?_, ?_⟩
    · obtain ⟨⟨seq, event, runId, sessionId, revision, timestamp, prevHash⟩, hash⟩ := r
      cases event <;> exact hr
    · rw [openAfter_canonical]
      exact ih h

/-- The records of a session that the writer replays. -/
structure Replayable (hashFn : HashFn) (sessionId : String) (records : List RunJournalRecord) :
    Prop where
  identifier : Identifier sessionId
  fitting : Fitting hashFn (emptyJournal sessionId genesisHash 0) records
  names : NamesOpenRuns none records
  length_le : records.length ≤ maxArrayLength

/-- The journal of the records. -/
def journalOf (sessionId : String) (records : List RunJournalRecord) : RunJournal :=
  advanceAll (emptyJournal sessionId genesisHash 0) records

theorem journalOf_openRun (sessionId : String) (records : List RunJournalRecord) :
    (journalOf sessionId records).openRun = records.foldl openAfter none :=
  advanceAll_openRun _ records

theorem journalOf_records (sessionId : String) (records : List RunJournalRecord) :
    (journalOf sessionId records).records = records :=
  advanceAll_records _ records

theorem journalOf_snoc (sessionId : String) (records : List RunJournalRecord)
    (r : RunJournalRecord) :
    journalOf sessionId (records ++ [r]) = (journalOf sessionId records).advance r := by
  unfold journalOf advanceAll
  rw [List.foldl_append]
  rfl

section Replayable

variable {hashFn : HashFn} {sessionId : String} {records more : List RunJournalRecord}

theorem Replayable.chain (h : Replayable hashFn sessionId records) :
    Chain hashFn sessionId records (journalOf sessionId records) := by
  obtain ⟨-, hfitting, -, hlength⟩ := h
  induction records using List.reverseRecOn with
  | nil => exact .nil
  | append_singleton records r ih =>
    rw [List.length_append, List.length_singleton] at hlength
    obtain ⟨hrecords, hfits, hwf, -⟩ := (fitting_append).mp hfitting
    rw [journalOf_snoc]
    refine .snoc (ih hrecords (by omega)) hfits hwf ?_
    rw [journalOf_records]
    omega

theorem Replayable.left (h : Replayable hashFn sessionId (records ++ more)) :
    Replayable hashFn sessionId records where
  identifier := h.identifier
  fitting := ((fitting_append).mp h.fitting).1
  names := ((namesOpenRuns_append).mp h.names).1
  length_le := by
    have := h.length_le
    rw [List.length_append] at this
    omega

theorem Replayable.snoc {r : RunJournalRecord} (h : Replayable hashFn sessionId records)
    (hfits : Fits hashFn (journalOf sessionId records) r)
    (hnames : NamesOpenRun (journalOf sessionId records).openRun r) (hwf : r.event.WellFormed)
    (hroom : records.length < maxArrayLength) :
    Replayable hashFn sessionId (records ++ [r]) where
  identifier := h.identifier
  fitting := (fitting_append).mpr ⟨h.fitting, hfits, hwf, trivial⟩
  names := by
    rw [journalOf_openRun] at hnames
    exact (namesOpenRuns_append).mpr ⟨h.names, hnames, trivial⟩
  length_le := by
    rw [List.length_append, List.length_singleton]
    omega

theorem Replayable.replay (h : Replayable hashFn sessionId records) :
    replayRecords hashFn records sessionId = .ok (journalOf sessionId records) :=
  (replayRecords_eq_ok h.fitting h.length_le).mpr ⟨h.identifier, h.names, rfl⟩

/-- The report on the lines of the records and a fragment. -/
def reportOf (records : List RunJournalRecord) (fragment : List UInt8) : Report where
  byteCount := (journalBytes records).length
  lineCount := records.length
  trailingByteCount := fragment.length
  records := records.map RunJournalRecord.canonical
  openRunId := records.foldl openAfter none
  findings := findingIf (0 < fragment.length) { code := .trailingFragment } ++
    openFindings (records.foldl openAfter none)

theorem Replayable.inspect (h : Replayable hashFn sessionId records) {fragment : List UInt8}
    (hfragment : (0x0a : UInt8) ∉ fragment) :
    inspectRunJournal (journalBytes records ++ fragment) hashFn = .ok (reportOf records fragment) := by
  rw [inspectRunJournal_chain h.chain h.identifier hfragment, journalOf_openRun]
  rfl

theorem fitting_sessionId (h : Fitting hashFn j records) :
    ∀ r ∈ records, r.sessionId = j.sessionId := by
  induction records generalizing j with
  | nil => simp
  | cons r records ih =>
    intro r' hr'
    rcases List.mem_cons.mp hr' with rfl | hr'
    · exact h.1.sessionId_eq
    · exact ih h.2.2 r' hr'

/-- `open` accepts the lines of the records, whatever fragment follows them. -/
theorem Replayable.accept (h : Replayable hashFn sessionId records) {fragment : List UInt8}
    (hfragment : (0x0a : UInt8) ∉ fragment) :
    acceptJournal hashFn sessionId (journalBytes records ++ fragment) =
      .ok (reportOf records fragment) := by
  have hfindings : (reportOf records fragment).findings.filter
      (fun f => f.code ≠ .trailingFragment && f.code ≠ .runUnclosed) = [] := by
    rw [List.filter_eq_nil_iff]
    intro f hf
    unfold reportOf at hf
    rcases List.mem_append.mp hf with hf | hf
    · unfold findingIf at hf
      split_ifs at hf
      · obtain rfl := List.mem_singleton.mp hf
        simp
      · simp at hf
    · unfold openFindings at hf
      split at hf
      · obtain rfl := List.mem_singleton.mp hf
        simp
      · simp at hf
  have hsessions : (reportOf records fragment).records.all (fun r => r.sessionId = sessionId) =
      true := by
    rw [List.all_eq_true]
    intro r hr
    obtain ⟨r', hr', rfl⟩ := List.mem_map.mp hr
    exact decide_eq_true (fitting_sessionId h.fitting r' hr')
  unfold acceptJournal rejectFindings
  rw [h.inspect hfragment]
  simp only [ok_bind]
  rw [(require_eq_ok (u := ())).mpr (by rw [hfindings]; rfl), (require_eq_ok (u := ())).mpr hsessions]
  rfl

theorem Replayable.canonical (h : Replayable hashFn sessionId records) :
    Replayable hashFn sessionId (records.map RunJournalRecord.canonical) := by
  have haccepted := accepted_of_acceptJournal (h.accept (List.not_mem_nil (a := 0x0a)))
  exact ⟨h.identifier, haccepted.fitting, namesOpenRuns_canonical h.names, haccepted.length_le⟩

end Replayable

theorem journalBytes_canonical (records : List RunJournalRecord) :
    journalBytes (records.map RunJournalRecord.canonical) = journalBytes records := by
  induction records with
  | nil => rfl
  | cons r records ih =>
    have hline : lineBytes r.canonical = lineBytes r := by
      unfold lineBytes
      rw [line_canonical]
    rw [List.map_cons, ← List.singleton_append, ← List.singleton_append (x := r), journalBytes_append,
      journalBytes_append, journalBytes_singleton, journalBytes_singleton, hline, ih]

theorem foldl_openAfter_canonical (records : List RunJournalRecord) (openRun : Option String) :
    (records.map RunJournalRecord.canonical).foldl openAfter openRun =
      records.foldl openAfter openRun := by
  rw [List.foldl_map]
  congr 1
  funext openRun r
  exact openAfter_canonical openRun r

/-! ## A store in step with its file -/

/-- The store and its file say the same. -/
structure InStep (hashFn : HashFn) (path sessionId : String) (disk : Disk)
    (store : RunJournalStore) : Prop where
  journalPath : store.journalPath = some path
  sessionId_eq : store.sessionId = sessionId
  file : (disk.get? path = none ∧ store.acceptedRecords = [] ∧ store.acceptedDurableHead = .absent) ∨
    ∃ file, disk.get? path = some file ∧ file.bytes = journalBytes store.acceptedRecords ∧
      store.acceptedDurableHead = .ofRecords store.acceptedRecords file ∧
      Replayable hashFn sessionId store.acceptedRecords

theorem ofRecords_canonical (records : List RunJournalRecord) (file : DiskFile) :
    JournalHead.ofRecords (records.map RunJournalRecord.canonical) file = .ofRecords records file := by
  unfold JournalHead.ofRecords
  rw [List.getLast?_map]
  cases records.getLast? <;> rfl

theorem readDurableHead_journalBytes {hashFn : HashFn} {sessionId path : String} {disk : Disk}
    {file : DiskFile} {records : List RunJournalRecord} (h : Replayable hashFn sessionId records)
    (hfile : disk.get? path = some file) (hbytes : file.bytes = journalBytes records) :
    readDurableHead hashFn disk path = .ok (.ofRecords records file) := by
  have hinspect := h.inspect (List.not_mem_nil (a := 0x0a))
  have hfindings : (reportOf records []).findings.filter (fun f => f.code ≠ .runUnclosed) = [] := by
    rw [List.filter_eq_nil_iff]
    intro f hf
    have hf' : f ∈ openFindings (records.foldl openAfter none) := hf
    unfold openFindings at hf'
    split at hf'
    · obtain rfl := List.mem_singleton.mp hf'
      simp
    · simp at hf'
  unfold readDurableHead rejectFindings
  rw [hfile]
  rw [List.append_nil, ← hbytes] at hinspect
  simp only [hinspect, ok_bind]
  rw [(require_eq_ok (u := ())).mpr (by rw [hfindings]; rfl), ← ofRecords_canonical records file]
  rfl

section InStep

variable {hashFn : HashFn} {path sessionId : String} {disk : Disk} {store : RunJournalStore}

theorem InStep.assertFresh (h : InStep hashFn path sessionId disk store) :
    store.assertFresh hashFn disk = .ok () := by
  have hhead : readDurableHead hashFn disk path = .ok store.acceptedDurableHead := by
    rcases h.file with ⟨hnone, -, hhead⟩ | ⟨file, hfile, hbytes, hhead, hreplay⟩
    · unfold readDurableHead
      rw [hnone, hhead]
    · rw [readDurableHead_journalBytes hreplay hfile hbytes, hhead]
  unfold RunJournalStore.assertFresh
  rw [h.journalPath]
  simp only [hhead, ok_bind]
  exact require_eq_ok.mpr (by simp)

theorem InStep.replayable (h : InStep hashFn path sessionId disk store)
    (hid : Identifier sessionId) : Replayable hashFn sessionId store.acceptedRecords := by
  rcases h.file with ⟨-, hrecords, -⟩ | ⟨file, -, -, -, hreplay⟩
  · rw [hrecords]
    exact ⟨hid, trivial, trivial, by simp⟩
  · exact hreplay

theorem InStep.bytes (h : InStep hashFn path sessionId disk store) :
    ((disk.get? path).map DiskFile.bytes).getD [] = journalBytes store.acceptedRecords := by
  rcases h.file with ⟨hnone, hrecords, -⟩ | ⟨file, hfile, hbytes, -, -⟩
  · rw [hnone, hrecords]
    rfl
  · rw [hfile]
    exact hbytes

theorem InStep.expectedHead_eq (h : InStep hashFn path sessionId disk store)
    (env : AppendEnvironment) (r : RunJournalRecord) :
    let file : DiskFile := ⟨journalBytes (store.acceptedRecords ++ [r]), env.generation disk path⟩
    expectedHead store.acceptedDurableHead (.ofRecords (store.acceptedRecords ++ [r]) file) r
      (lineBytes r).length = .ofRecords (store.acceptedRecords ++ [r]) file := by
  intro file
  have hsize : store.acceptedDurableHead.size + (lineBytes r).length =
      (journalBytes (store.acceptedRecords ++ [r])).length := by
    rw [journalBytes_append, journalBytes_singleton, List.length_append]
    rcases h.file with ⟨-, hrecords, hhead⟩ | ⟨old, -, hbytes, hhead, -⟩
    · rw [hrecords, hhead]
      rfl
    · rw [hhead, ← hbytes]
      rfl
  have hgeneration : (store.acceptedDurableHead.generation.getD file.generation).dev =
        file.generation.dev ∧
      (store.acceptedDurableHead.generation.getD file.generation).ino = file.generation.ino ∧
      (store.acceptedDurableHead.generation.getD file.generation).birthtimeNs =
        file.generation.birthtimeNs := by
    rcases h.file with ⟨-, -, hhead⟩ | ⟨old, hfile, -, hhead, -⟩
    · rw [hhead]
      exact ⟨rfl, rfl, rfl⟩
    · have hnew : file.generation = { old.generation with ctimeNs := env.ctimeNs } := by
        show env.generation disk path = _
        unfold AppendEnvironment.generation
        rw [hfile]
      rw [hhead, hnew]
      exact ⟨rfl, rfl, rfl⟩
  obtain ⟨hdev, hino, hbirth⟩ := hgeneration
  unfold expectedHead JournalHead.ofRecords
  simp only [List.getLast?_append, List.getLast?_singleton, Option.some_or, Option.map_some,
    Option.getD_some, hsize, hdev, hino, hbirth, file]

/-- A commit whose operation succeeds appends its line and keeps the store in step. -/
theorem InStep.commit_ok (h : InStep hashFn path sessionId disk store) (hid : Identifier sessionId)
    (op : JournalOperation) (hop : op.WellFormed) {r : RunJournalRecord}
    (hrun : op.run hashFn (journalOf sessionId store.acceptedRecords) = .ok (r, j))
    (env : AppendEnvironment) :
    ∃ store',
      store.commit hashFn env op disk =
        (disk.set path ⟨journalBytes (store.acceptedRecords ++ [r]), env.generation disk path⟩,
          store', .ok r) ∧
      store'.acceptedRecords = store.acceptedRecords ++ [r] ∧
      store'.quarantineReport = store.quarantineReport ∧
      InStep hashFn path sessionId
        (disk.set path ⟨journalBytes (store.acceptedRecords ++ [r]), env.generation disk path⟩)
        store' := by
  have hreplay := h.replayable hid
  obtain ⟨hfits, hnames, hwf, hroom, rfl⟩ := run_eq_ok (hreplay.chain.named hid) hop hrun
  rw [journalOf_records] at hroom
  have hnext := hreplay.snoc hfits hnames hwf hroom
  set file : DiskFile :=
    ⟨journalBytes (store.acceptedRecords ++ [r]), env.generation disk path⟩ with hfile
  have happend : appendFile disk path (lineBytes r) (env.generation disk path) =
      disk.set path file := by
    unfold appendFile
    dsimp only
    rw [h.bytes, ← journalBytes_singleton, ← journalBytes_append]
  have hget : (disk.set path file).get? path = some file := by simp
  have hhead := readDurableHead_journalBytes hnext hget rfl
  have hpersist : persistJournalRecord hashFn env path store.acceptedDurableHead r disk =
      (disk.set path file, .ok (.ofRecords (store.acceptedRecords ++ [r]) file)) := by
    unfold persistJournalRecord
    dsimp only
    rw [show Utf8.encode (serializeRunJournalLine r ++ ['\n']) = lineBytes r from rfl, happend, hhead,
      ok_bind, (require_eq_ok (u := ())).mpr (by simpa using (h.expectedHead_eq env r).symm)]
    rfl
  refine ⟨store.accept ((journalOf sessionId store.acceptedRecords).advance r)
    (.ofRecords (store.acceptedRecords ++ [r]) file), ?_, ?_, rfl, ?_⟩
  · unfold RunJournalStore.commit
    rw [h.assertFresh, h.sessionId_eq, hreplay.replay]
    simp only [ok_bind, hrun, h.journalPath, hpersist]
  · show (journalOf sessionId store.acceptedRecords).records ++ [r] = _
    rw [journalOf_records]
  · have hrecords : ((journalOf sessionId store.acceptedRecords).advance r).records =
        store.acceptedRecords ++ [r] := by
      show (journalOf sessionId store.acceptedRecords).records ++ [r] = _
      rw [journalOf_records]
    refine ⟨h.journalPath, h.sessionId_eq, .inr ⟨file, hget, ?_, ?_, ?_⟩⟩
    · show _ = journalBytes ((journalOf sessionId store.acceptedRecords).advance r).records
      rw [hrecords]
    · show _ = JournalHead.ofRecords ((journalOf sessionId store.acceptedRecords).advance r).records _
      rw [hrecords]
      rfl
    · show Replayable hashFn sessionId
        ((journalOf sessionId store.acceptedRecords).advance r).records
      rw [hrecords]
      exact hnext

/-- Every commit keeps the store in step, and one that throws changes nothing. -/
theorem InStep.commit (h : InStep hashFn path sessionId disk store) (op : JournalOperation)
    (hop : op.WellFormed) (env : AppendEnvironment) :
    InStep hashFn path sessionId (store.commit hashFn env op disk).1
      (store.commit hashFn env op disk).2.1 := by
  cases hreplayed : replayRecords hashFn store.acceptedRecords sessionId with
  | error e =>
    have hcommit : store.commit hashFn env op disk = (disk, store, .error e) := by
      unfold RunJournalStore.commit
      rw [h.assertFresh, h.sessionId_eq, hreplayed]
      rfl
    rw [hcommit]
    exact h
  | ok candidate =>
    obtain ⟨hfitting, hlength⟩ : Fitting hashFn (emptyJournal sessionId genesisHash 0)
        store.acceptedRecords ∧ store.acceptedRecords.length ≤ maxArrayLength := by
      rcases h.file with ⟨-, hrecords, -⟩ | ⟨file, -, -, -, hreplay⟩
      · rw [hrecords]
        exact ⟨trivial, by simp⟩
      · exact ⟨hreplay.fitting, hreplay.length_le⟩
    obtain ⟨hid, -, rfl⟩ := (replayRecords_eq_ok hfitting hlength).mp hreplayed
    cases hrun : op.run hashFn (journalOf sessionId store.acceptedRecords) with
    | error e =>
      have hcommit : store.commit hashFn env op disk = (disk, store, .error e) := by
        unfold RunJournalStore.commit
        rw [h.assertFresh, h.sessionId_eq, hreplayed]
        simp only [ok_bind]
        rw [show op.run hashFn (advanceAll (emptyJournal sessionId genesisHash 0)
          store.acceptedRecords) = .error e from hrun]
      rw [hcommit]
      exact h
    | ok result =>
      obtain ⟨store', hcommit, -, -, hstep⟩ := h.commit_ok hid op hop hrun env
      rw [hcommit]
      exact hstep

end InStep

/-! ## Recovery of the open run -/

/-- What the ids of a journal say about the open run. -/
structure RunIds (j : RunJournal) : Prop where
  terminated_started : j.terminatedRunIds ⊆ j.startedRunIds
  open_started : ∀ runId ∈ j.openRun, runId ∈ j.startedRunIds
  open_not_terminated : ∀ runId ∈ j.openRun, runId ∉ j.terminatedRunIds

theorem Chain.runIds {hashFn : HashFn} {sessionId : String} {records : List RunJournalRecord}
    (h : Chain hashFn sessionId records j) : RunIds j := by
  induction h with
  | nil => exact ⟨by simp [emptyJournal], by simp [emptyJournal], by simp [emptyJournal]⟩
  | @snoc records j r h hfits hwf hroom ih =>
    have hevent := hfits.event
    unfold EventFits at hevent
    obtain ⟨⟨seq, event, runId, sessionId, revision, timestamp, prevHash⟩, hash⟩ := r
    cases event with
    | runStarted =>
      obtain ⟨-, hnew⟩ := hevent
      refine ⟨?_, ?_, ?_⟩
      · exact ih.terminated_started.trans (Finset.subset_insert _ _)
      · intro id hid
        obtain rfl : runId = id := Option.some.inj hid
        exact Finset.mem_insert_self _ _
      · intro id hid hterminated
        obtain rfl : runId = id := Option.some.inj hid
        exact hnew (ih.terminated_started hterminated)
    | terminal kind termination =>
      obtain ⟨hopen, -⟩ := hevent
      refine ⟨?_, (fun id hid => by cases hid), (fun id hid => by cases hid)⟩
      intro id hid
      rcases Finset.mem_insert.mp hid with rfl | hid
      · exact ih.open_started _ hopen
      · exact ih.terminated_started hid
    | audit kind details =>
      exact ⟨ih.terminated_started, ih.open_started, ih.open_not_terminated⟩

/-- The last revision of a journal is the one of its last record. -/
theorem Chain.lastRevision {hashFn : HashFn} {sessionId : String} {records : List RunJournalRecord}
    (h : Chain hashFn sessionId records j) :
    (records.getLast?.map fun r => r.sessionRevision).getD 0 = j.lastSessionRevision ∧
      j.lastSessionRevision ≤ maxSafeInteger := by
  cases h with
  | nil => exact ⟨rfl, Nat.zero_le _⟩
  | snoc h hfits hwf hroom =>
    refine ⟨?_, hfits.revision_safe⟩
    rw [List.getLast?_append, List.getLast?_singleton]
    rfl

/-- The hash function returns hexadecimal digests of 256 bits. -/
def HashesAll (hashFn : HashFn) : Prop :=
  ∀ bytes, ∃ hash, hashFn bytes = some hash ∧ isValidHashShape hash = true

/-- The call that closes the open run. -/
def recoveryOperation (sessionId runId now : String) (records : List RunJournalRecord) :
    JournalOperation :=
  .recover ⟨recoveryTermination sessionId runId now,
    .ofNat ((records.getLast?.map fun r => r.sessionRevision).getD 0), now⟩

/-- The journal records the recovery of its open run. -/
theorem recover_eq_ok {hashFn : HashFn} {sessionId now : String} {records : List RunJournalRecord}
    (h : Replayable hashFn sessionId records) (hhash : HashesAll hashFn)
    (hopen : records.foldl openAfter none = some runId) (hroom : records.length < maxArrayLength)
    (hnow : isCanonicalTimestamp now = true) :
    ∃ r, (recoveryOperation sessionId runId now records).run hashFn (journalOf sessionId records) =
        .ok (r, (journalOf sessionId records).advance r) ∧
      r.event = .terminal .runRecovered (recoveryTermination sessionId runId now) ∧
      r.runId = runId := by
  have hchain := h.chain
  have hj : (journalOf sessionId records).openRun = some runId := by
    rw [journalOf_openRun, hopen]
  obtain ⟨hlast, hsafe⟩ := hchain.lastRevision
  have hmoment : (journalOf sessionId records).checkMoment
      (.ofNat ((records.getLast?.map fun r => r.sessionRevision).getD 0)) now =
        .ok (journalOf sessionId records).lastSessionRevision := by
    rw [checkMoment_eq_ok, hlast]
    exact ⟨Decimal.toNat?_ofNat _, hsafe, le_rfl, hnow⟩
  have hsession : (journalOf sessionId records).sessionId = sessionId := hchain.facts.sessionId_eq
  have hbounded : assertBoundedSessionTermination (some (recoveryTermination sessionId runId now))
      runId sessionId = .ok () := assertBounded_recoveryTermination h.identifier hnow
  have hcoherent : assertTerminalCoherentWithEvent .runRecovered
      (recoveryTermination sessionId runId now) = .ok () :=
    assertTerminalCoherentWithEvent_eq_ok.mpr (coherent_recoveryTermination sessionId runId now)
  set base := (journalOf sessionId records).base
    (.terminal .runRecovered (recoveryTermination sessionId runId now)) runId
    (journalOf sessionId records).lastSessionRevision now
  obtain ⟨hash, hseal, hshape⟩ := hhash (Utf8.encode (serializeRunJournalMaterial base))
  refine ⟨⟨base, hash⟩, ?_, rfl, rfl⟩
  unfold recoveryOperation JournalOperation.run RunJournal.recover RunJournal.appendTerminal
  dsimp only
  rw [hj]
  simp only [hmoment, ok_bind, hsession, hbounded, hcoherent, timestamp_recoveryTermination]
  rw [(require_eq_ok (u := ())).mpr (by simp),
    (require_eq_ok (u := ())).mpr (by simpa using hchain.runIds.open_not_terminated runId hj)]
  refine append_eq_ok.mpr ⟨rfl, hseal, hshape, ?_, rfl⟩
  rw [journalOf_records]
  exact hroom

/-! ## A cut in the file -/

/-- A cut anywhere leaves the lines of some first records and a part of the line after them. -/
theorem take_journalBytes (records : List RunJournalRecord) (count : Nat) :
    ∃ kept rest fragment, records = kept ++ rest ∧
      (journalBytes records).take count = journalBytes kept ++ fragment ∧
      (0x0a : UInt8) ∉ fragment := by
  induction records generalizing count with
  | nil => exact ⟨[], [], [], rfl, by simp [journalBytes, recordLines], by simp⟩
  | cons r records ih =>
    have hbytes : journalBytes (r :: records) = lineBytes r ++ journalBytes records := by
      rw [← List.singleton_append, journalBytes_append, journalBytes_singleton]
    by_cases hcount : count < (lineBytes r).length
    · refine ⟨[], r :: records, (lineBytes r).take count, rfl, ?_, ?_⟩
      · rw [hbytes, List.take_append_of_le_length hcount.le]
        rfl
      · -- the line feed is the last byte of the line
        intro hmem
        have hline : lineBytes r = Utf8.encode (serializeRunJournalLine r) ++ [0x0a] := by
          unfold lineBytes
          rw [Utf8.encode_append]
          rfl
        rw [hline, List.length_append, List.length_singleton] at hcount
        rw [hline, List.take_append_of_le_length (by omega)] at hmem
        have hfeed := Utf8.lineFeed_mem_encode (List.mem_of_mem_take hmem)
        exact Json.lineFeed_not_mem_stringify _ hfeed
    · obtain ⟨kept, rest, fragment, hrecords, htake, hfragment⟩ :=
        ih (count - (lineBytes r).length)
      refine ⟨r :: kept, rest, fragment, by rw [hrecords]; rfl, ?_, hfragment⟩
      rw [hbytes, List.take_append, List.take_of_length_le (by omega), htake,
        ← List.singleton_append (x := r) (l := kept), journalBytes_append, journalBytes_singleton,
        List.append_assoc]

/-- The store over the accepted records of a file is in step with it. -/
theorem inStep_accepted {hashFn : HashFn} {path sessionId : String} {disk : Disk} {file : DiskFile}
    {records : List RunJournalRecord} (h : Replayable hashFn sessionId records)
    (hfile : disk.get? path = some file) (hbytes : file.bytes = journalBytes records)
    (openRunId : Option String) (quarantineReport : Option QuarantineReport) :
    InStep hashFn path sessionId disk
      ⟨some path, sessionId, records.map RunJournalRecord.canonical, openRunId,
        .ofRecords records file, quarantineReport⟩ where
  journalPath := rfl
  sessionId_eq := rfl
  file := by
    refine .inr ⟨file, hfile, ?_, ?_, h.canonical⟩
    · rw [hbytes]
      exact (journalBytes_canonical records).symm
    · exact (ofRecords_canonical records file).symm

theorem recoverOpenRun_inStep {hashFn : HashFn} {path sessionId : String} {disk : Disk}
    {store store' : RunJournalStore} {env : StoreEnvironment}
    (h : InStep hashFn path sessionId disk store)
    (hopen : recoverOpenRun hashFn env store runId disk = (disk', .ok store')) :
    InStep hashFn path sessionId disk' store' := by
  unfold recoverOpenRun at hopen
  dsimp only at hopen
  cases hclassify : classifySessionTermination (recoveryInput store.sessionId runId env.now) with
  | error e =>
    rw [hclassify] at hopen
    simp at hopen
  | ok termination =>
    rw [hclassify] at hopen
    obtain rfl := eq_recoveryTermination hclassify
    have hcommit := h.commit
      (recoveryOperation store.sessionId runId env.now store.acceptedRecords)
      (wellFormed_recoveryTermination _ _ _) env.recovery
    unfold recoveryOperation at hcommit
    simp only at hopen
    split at hopen
    · simp at hopen
    · rename_i heq
      rw [heq] at hcommit
      obtain ⟨rfl, hstore⟩ := Prod.mk.inj hopen
      obtain rfl := Except.ok.inj hstore
      exact hcommit

/-- The recovery of the open run appends one record. -/
theorem recoverOpenRun_ok {hashFn : HashFn} {path sessionId : String} {disk : Disk}
    {store : RunJournalStore} {env : StoreEnvironment} (h : InStep hashFn path sessionId disk store)
    (hid : Identifier sessionId) (hhash : HashesAll hashFn)
    (hopen : store.acceptedRecords.foldl openAfter none = some runId)
    (hroom : store.acceptedRecords.length < maxArrayLength)
    (hnow : isCanonicalTimestamp env.now = true) :
    ∃ r store', recoverOpenRun hashFn env store runId disk =
        (disk.set path
          ⟨journalBytes (store.acceptedRecords ++ [r]), env.recovery.generation disk path⟩,
          .ok store') ∧
      r.event = .terminal .runRecovered (recoveryTermination sessionId runId env.now) ∧
      r.runId = runId ∧ store'.acceptedRecords = store.acceptedRecords ++ [r] ∧
      store'.quarantineReport = store.quarantineReport := by
  have hreplay := h.replayable hid
  have hidentifier : Identifier runId := by
    refine (hreplay.chain.named hid).openRun runId ?_
    rw [journalOf_openRun]
    exact hopen
  obtain ⟨r, hrun, hevent, hrunId⟩ := recover_eq_ok hreplay hhash hopen hroom hnow
  obtain ⟨store', hcommit, hrecords, hreport, -⟩ :=
    h.commit_ok hid (recoveryOperation sessionId runId env.now store.acceptedRecords)
      (wellFormed_recoveryTermination sessionId runId env.now) hrun env.recovery
  refine ⟨r, store', ?_, hevent, hrunId, hrecords, hreport⟩
  unfold recoveryOperation at hcommit
  unfold recoverOpenRun
  rw [h.sessionId_eq, classifySessionTermination_recovery hid hidentifier hnow]
  dsimp only
  rw [hcommit]

theorem openAccepted_inStep {hashFn : HashFn} {path sessionId : String} {disk : Disk}
    {file : DiskFile} {records : List RunJournalRecord} {store : RunJournalStore}
    {env : StoreEnvironment} {openRunId : Option String}
    {quarantineReport : Option QuarantineReport} (h : Replayable hashFn sessionId records)
    (hfile : disk.get? path = some file) (hbytes : file.bytes = journalBytes records)
    (hopen : openAccepted hashFn env path sessionId (records.map RunJournalRecord.canonical) openRunId
      quarantineReport disk = (disk', .ok store)) :
    InStep hashFn path sessionId disk' store := by
  have hstep := inStep_accepted h hfile hbytes openRunId quarantineReport
  unfold openAccepted at hopen
  rw [readDurableHead_journalBytes h hfile hbytes] at hopen
  cases openRunId with
  | none =>
    obtain ⟨rfl, hstore⟩ := Prod.mk.inj hopen
    obtain rfl := Except.ok.inj hstore
    exact hstep
  | some runId => exact recoverOpenRun_inStep hstep hopen

theorem journalQuarantinePath_ne (path : String) (env : StoreEnvironment) :
    journalQuarantinePath path env ≠ path := by
  intro heq
  have hlength := congrArg String.length heq
  unfold journalQuarantinePath at hlength
  rw [String.length_append, String.length_append] at hlength
  have hseparator : ".quarantine-".length = 12 := by decide
  omega

/-- The disk and the report after the fragment was moved away. -/
theorem quarantineFragment_eq {env : StoreEnvironment} {path : String} {file : DiskFile}
    {records : List RunJournalRecord} {fragment : List UInt8} {disk : Disk}
    (hbytes : file.bytes = journalBytes records ++ fragment)
    (hfree : fragment ≠ [] → disk.has (journalQuarantinePath path env) = false) :
    quarantineFragment env path file (reportOf records fragment) disk =
      if fragment = [] then (disk, .ok none)
      else
        ((disk.set (journalQuarantinePath path env) ⟨fragment, env.quarantineGeneration⟩).set path
            ⟨journalBytes records, env.trimmedGeneration⟩,
          .ok (some ⟨journalQuarantinePath path env, fragment.length,
            (journalBytes records).length⟩)) := by
  have hcount : (reportOf records fragment).byteCount = (journalBytes records).length := rfl
  have htrailing : (reportOf records fragment).trailingByteCount = fragment.length := rfl
  unfold quarantineFragment
  rw [htrailing, hcount]
  by_cases hempty : fragment = []
  · rw [if_neg (by simp [hempty]), if_pos hempty]
  · rw [if_pos (List.length_pos_of_ne_nil hempty), if_neg hempty]
    dsimp only
    rw [hfree hempty, hbytes, List.drop_left, List.take_left]
    rfl

theorem has_eq_false {disk : Disk} {path : String} :
    disk.has path = false ↔ disk.get? path = none := by
  rw [OrderedMap.get?_eq_none_iff, ← OrderedMap.has_iff, Bool.not_eq_true]

section Open

variable {hashFn : HashFn} {path sessionId : String} {disk : Disk} {file : DiskFile}
  {env : StoreEnvironment} {records : List RunJournalRecord} {fragment : List UInt8}

/-- The disk without the fragment. -/
def trimmed (env : StoreEnvironment) (path : String) (records : List RunJournalRecord)
    (fragment : List UInt8) (disk : Disk) : Disk :=
  if fragment = [] then disk
  else (disk.set (journalQuarantinePath path env) ⟨fragment, env.quarantineGeneration⟩).set path
    ⟨journalBytes records, env.trimmedGeneration⟩

/-- The report on the fragment. -/
def fragmentReport (env : StoreEnvironment) (path : String) (records : List RunJournalRecord)
    (fragment : List UInt8) : Option QuarantineReport :=
  if fragment = [] then none
  else some ⟨journalQuarantinePath path env, fragment.length, (journalBytes records).length⟩

theorem open_eq (h : Replayable hashFn sessionId records)
    (hfragment : (0x0a : UInt8) ∉ fragment) (hfile : disk.get? path = some file)
    (hbytes : file.bytes = journalBytes records ++ fragment)
    (hfree : fragment ≠ [] → disk.get? (journalQuarantinePath path env) = none) :
    RunJournalStore.open hashFn env path sessionId disk =
      openAccepted hashFn env path sessionId (records.map RunJournalRecord.canonical)
        (records.foldl openAfter none) (fragmentReport env path records fragment)
        (trimmed env path records fragment disk) := by
  unfold RunJournalStore.open
  rw [hfile]
  simp only [hbytes, h.accept hfragment]
  rw [quarantineFragment_eq hbytes fun hne => (has_eq_false).mpr (hfree hne)]
  unfold trimmed fragmentReport
  split_ifs with hempty <;> rfl

theorem get?_trimmed (env : StoreEnvironment) (hfile : disk.get? path = some file)
    (hbytes : file.bytes = journalBytes records ++ fragment) :
    ∃ generation, (trimmed env path records fragment disk).get? path =
      some ⟨journalBytes records, generation⟩ := by
  unfold trimmed
  split_ifs with hempty
  · rw [hempty, List.append_nil] at hbytes
    refine ⟨file.generation, ?_⟩
    rw [hfile, ← hbytes]
  · exact ⟨env.trimmedGeneration, by simp⟩

/-- However `open` succeeds, its store is in step with the file. -/
theorem open_inStep {store : RunJournalStore} (h : Replayable hashFn sessionId records)
    (hfragment : (0x0a : UInt8) ∉ fragment) (hfile : disk.get? path = some file)
    (hbytes : file.bytes = journalBytes records ++ fragment)
    (hopen : RunJournalStore.open hashFn env path sessionId disk = (disk', .ok store)) :
    InStep hashFn path sessionId disk' store := by
  by_cases hfree : fragment ≠ [] → disk.get? (journalQuarantinePath path env) = none
  · rw [open_eq h hfragment hfile hbytes hfree] at hopen
    obtain ⟨generation, hget⟩ := get?_trimmed env hfile hbytes
    exact openAccepted_inStep h hget rfl hopen
  · -- the path of the quarantine is taken
    push Not at hfree
    obtain ⟨hne, htaken⟩ := hfree
    have htrailing : (reportOf records fragment).trailingByteCount = fragment.length := rfl
    have hhas : disk.has (journalQuarantinePath path env) = true := by
      rw [← Bool.not_eq_false, has_eq_false]
      exact htaken
    unfold RunJournalStore.open at hopen
    rw [hfile] at hopen
    simp only [hbytes, h.accept hfragment, quarantineFragment, htrailing,
      if_pos (List.length_pos_of_ne_nil hne), hhas, if_true, raise] at hopen
    simp at hopen

end Open

/-- Over every run the store is in step with its file. -/
theorem StoreRun.inStep {hashFn : HashFn} {path sessionId : String} {disk : Disk}
    {store : RunJournalStore} (h : StoreRun hashFn path sessionId disk store) :
    InStep hashFn path sessionId disk store := by
  induction h with
  | @opened disk disk' store env hnew h =>
    unfold RunJournalStore.open openAccepted readDurableHead at h
    rw [hnew] at h
    obtain ⟨rfl, hstore⟩ := Prod.mk.inj h
    obtain rfl := Except.ok.inj hstore
    exact ⟨rfl, rfl, .inl ⟨hnew, rfl, rfl⟩⟩
  | committed env op h hop ih => exact ih.commit op hop env
  | @reopened disk disk' store store' file env count generation h hfile hopen ih =>
    rcases ih.file with ⟨hnone, -⟩ | ⟨file', hfile', hbytes, -, hreplay⟩
    · rw [hnone] at hfile
      simp at hfile
    · obtain rfl : file' = file := Option.some.inj (hfile'.symm.trans hfile)
      obtain ⟨kept, rest, fragment, hrecords, htake, hfragment⟩ :=
        take_journalBytes store.acceptedRecords count
      rw [hrecords] at hreplay
      refine open_inStep hreplay.left hfragment (by rw [OrderedMap.get?_set, if_pos rfl]) ?_ hopen
      rw [hbytes]
      exact htake
  | elsewhere h hsame ih =>
    refine ⟨ih.journalPath, ih.sessionId_eq, ?_⟩
    rw [hsame]
    exact ih.file

/-- The records that `open` adds: one that closes the open run, or none. -/
def Closes (openRun : Option String) (recovery : List RunJournalRecord) : Prop :=
  match openRun with
  | none => recovery = []
  | some runId => ∃ r termination,
      recovery = [r] ∧ r.event = .terminal .runRecovered termination ∧ r.runId = runId

/-- What `open` makes of the lines of `kept` and of a `fragment` after them. -/
structure Recovered (hashFn : HashFn) (env : StoreEnvironment) (path : String)
    (kept : List RunJournalRecord) (fragment : List UInt8) (disk : Disk) (store : RunJournalStore) :
    Prop where
  quarantined : (disk.get? (journalQuarantinePath path env)).map DiskFile.bytes =
    if fragment = [] then none else some fragment
  report : store.quarantineReport = fragmentReport env path kept fragment
  records : ∃ recovery, Closes (kept.foldl openAfter none) recovery ∧
    store.acceptedRecords = kept.map RunJournalRecord.canonical ++ recovery ∧
    (disk.get? path).map DiskFile.bytes = some (journalBytes kept ++ journalBytes recovery)
  inspection : ∃ file report, disk.get? path = some file ∧
    inspectRunJournal file.bytes hashFn = .ok report ∧ report.findings = []

section Recovered

variable {hashFn : HashFn} {path sessionId : String} {disk : Disk} {env : StoreEnvironment}
  {records : List RunJournalRecord}

/-- The end of `open` closes the open run. -/
theorem openAccepted_closes {generation : Generation}
    (quarantineReport : Option QuarantineReport) (h : Replayable hashFn sessionId records)
    (hhash : HashesAll hashFn) (hnow : isCanonicalTimestamp env.now = true)
    (hroom : records.length < maxArrayLength)
    (hfile : disk.get? path = some ⟨journalBytes records, generation⟩) :
    ∃ disk' store recovery,
      openAccepted hashFn env path sessionId (records.map RunJournalRecord.canonical)
        (records.foldl openAfter none) quarantineReport disk = (disk', .ok store) ∧
      Closes (records.foldl openAfter none) recovery ∧
      store.acceptedRecords = records.map RunJournalRecord.canonical ++ recovery ∧
      store.quarantineReport = quarantineReport ∧
      (disk'.get? path).map DiskFile.bytes = some (journalBytes records ++ journalBytes recovery) ∧
      ∀ other, other ≠ path → disk'.get? other = disk.get? other := by
  have hstep := inStep_accepted h hfile rfl (records.foldl openAfter none) quarantineReport
  unfold openAccepted
  rw [readDurableHead_journalBytes h hfile rfl]
  cases hopen : records.foldl openAfter none with
  | none =>
    refine ⟨_, _, [], rfl, rfl, (List.append_nil _).symm, rfl, ?_, fun _ _ => rfl⟩
    rw [hfile, show journalBytes [] = [] from rfl, List.append_nil]
    rfl
  | some runId =>
    rw [hopen] at hstep
    have hopen' : (records.map RunJournalRecord.canonical).foldl openAfter none = some runId := by
      rw [foldl_openAfter_canonical, hopen]
    obtain ⟨r, store, hrecover, hevent, hid, hrecords, hreport⟩ :=
      recoverOpenRun_ok hstep h.identifier hhash hopen' (by simpa using hroom) hnow
    refine ⟨_, store, [r], hrecover, ⟨r, _, rfl, hevent, hid⟩, hrecords, hreport, ?_, ?_⟩
    · rw [OrderedMap.get?_set, if_pos rfl, Option.map_some, journalBytes_append,
        journalBytes_canonical, journalBytes_singleton]
    · intro other hother
      rw [OrderedMap.get?_set, if_neg hother]

theorem foldl_closes {recovery : List RunJournalRecord}
    (h : Closes (records.foldl openAfter none) recovery) :
    (records.map RunJournalRecord.canonical ++ recovery).foldl openAfter none = none := by
  rw [List.foldl_append, foldl_openAfter_canonical]
  cases hopen : records.foldl openAfter none with
  | none =>
    rw [hopen] at h
    obtain rfl : recovery = [] := h
    rfl
  | some runId =>
    rw [hopen] at h
    obtain ⟨r, termination, rfl, hevent, -⟩ := h
    show openAfter (some runId) r = none
    unfold openAfter
    rw [hevent]

end Recovered

/-- A journal file that a store wrote and that was cut at any byte is opened: the records whose lines
survived are kept, the bytes after the last line feed are moved away, one record closes the run that
is left open, and the inspection of the file has nothing to report. The array of the records has to
have room for the record of the recovery. -/
theorem open_torn {hashFn : HashFn} {path sessionId : String} {disk : Disk} {store : RunJournalStore}
    (h : StoreRun hashFn path sessionId disk store) (hhash : HashesAll hashFn) {file : DiskFile}
    (hfile : disk.get? path = some file) (count : Nat) (generation : Generation)
    {env : StoreEnvironment} (hnow : isCanonicalTimestamp env.now = true)
    (hfree : disk.get? (journalQuarantinePath path env) = none)
    (hroom : store.acceptedRecords.length < maxArrayLength) :
    ∃ kept rest fragment disk' store',
      store.acceptedRecords = kept ++ rest ∧ file.bytes = journalBytes (kept ++ rest) ∧
      file.bytes.take count = journalBytes kept ++ fragment ∧ (0x0a : UInt8) ∉ fragment ∧
      RunJournalStore.open hashFn env path sessionId
        (disk.set path ⟨file.bytes.take count, generation⟩) = (disk', .ok store') ∧
      Recovered hashFn env path kept fragment disk' store' := by
  rcases h.inStep.file with ⟨hnone, -⟩ | ⟨file', hfile', hbytes, -, hreplay⟩
  · rw [hnone] at hfile
    simp at hfile
  obtain rfl : file' = file := Option.some.inj (hfile'.symm.trans hfile)
  obtain ⟨kept, rest, fragment, hrecords, htake, hfragment⟩ :=
    take_journalBytes store.acceptedRecords count
  rw [← hbytes] at htake
  rw [hrecords] at hreplay hbytes hroom
  rw [List.length_append] at hroom
  set torn := disk.set path ⟨file'.bytes.take count, generation⟩ with htorn
  have hget : torn.get? path = some ⟨file'.bytes.take count, generation⟩ := by
    rw [htorn, OrderedMap.get?_set, if_pos rfl]
  have hne := journalQuarantinePath_ne path env
  have hfree' : torn.get? (journalQuarantinePath path env) = none := by
    rw [htorn, OrderedMap.get?_set, if_neg hne, hfree]
  obtain ⟨generation', hget'⟩ := get?_trimmed env hget htake
  obtain ⟨disk', store', recovery, hopen, hcloses, hstored, hreport, hfinal, hother⟩ :=
    openAccepted_closes (fragmentReport env path kept fragment) hreplay.left hhash
      hnow (by omega) hget'
  have hopen' := hopen
  rw [← open_eq hreplay.left hfragment hget htake fun _ => hfree'] at hopen'
  refine ⟨kept, rest, fragment, disk', store', hrecords, hbytes, htake, hfragment, hopen', ?_⟩
  refine ⟨?_, hreport, ⟨recovery, hcloses, hstored, hfinal⟩, ?_⟩
  · rw [hother _ hne]
    unfold trimmed
    split_ifs with hempty
    · rw [hfree']
      rfl
    · rw [OrderedMap.get?_set, if_neg hne, OrderedMap.get?_set, if_pos rfl]
      rfl
  · have hstep := open_inStep hreplay.left hfragment hget htake hopen'
    rcases hstep.file with ⟨hnone, -⟩ | ⟨last, hlast, hlastBytes, -, hlastReplay⟩
    · rw [hnone] at hfinal
      simp at hfinal
    · have hinspect := hlastReplay.inspect (List.not_mem_nil (a := 0x0a))
      rw [List.append_nil, ← hlastBytes] at hinspect
      refine ⟨last, _, hlast, hinspect, ?_⟩
      show openFindings (store'.acceptedRecords.foldl openAfter none) = []
      rw [hstored, foldl_closes hcloses]
      rfl

/-! ## A torn journal -/

def journalUuid : Uuid where
  text := "0fe3a1b2-7c5d-4e6f-8a9b-0c1d2e3f4a5b"
  length_eq := by decide
  chars := List.all_eq_true.mp (by decide)

def sampleEnvironment : StoreEnvironment where
  now := "2026-01-01T00:01:00.000Z"
  quarantineId := journalUuid
  quarantineGeneration := default
  trimmedGeneration := default
  recovery := ⟨0, default⟩

/-- A store of a journal without a file. -/
def sampleStore : RunJournalStore := ⟨some "journal.jsonl", "session-1", [], none, .absent, none⟩

def sampleStart : JournalOperation := .start ⟨"run-1", .zero, "2026-01-01T00:00:00.000Z"⟩

/-- The disk and the store after a commit. -/
def afterCommit (w : Disk × RunJournalStore) (env : AppendEnvironment) (op : JournalOperation) :
    Disk × RunJournalStore :=
  ((w.2.commit sampleHash env op w.1).1, (w.2.commit sampleHash env op w.1).2.1)

theorem storeRun_afterCommit {path sessionId : String} {w : Disk × RunJournalStore}
    (h : StoreRun sampleHash path sessionId w.1 w.2) (env : AppendEnvironment)
    {op : JournalOperation} (hop : op.WellFormed) :
    StoreRun sampleHash path sessionId (afterCommit w env op).1 (afterCommit w env op).2 :=
  h.committed env op hop

/-- The disk and the store after the start of a run and an audit record of it. -/
def sampleWrites : Disk × RunJournalStore :=
  afterCommit (afterCommit (.empty, sampleStore) ⟨0, default⟩ sampleStart) ⟨1, default⟩
    (.audit sampleAudit)

theorem storeRun_sampleWrites :
    StoreRun sampleHash "journal.jsonl" "session-1" sampleWrites.1 sampleWrites.2 := by
  have hopened : StoreRun sampleHash "journal.jsonl" "session-1" .empty sampleStore :=
    @StoreRun.opened _ _ _ .empty _ _ sampleEnvironment rfl rfl
  have hstarted := storeRun_afterCommit (w := (.empty, sampleStore)) hopened ⟨0, default⟩
    (show sampleStart.WellFormed from trivial)
  exact storeRun_afterCommit hstarted ⟨1, default⟩ wellFormed_sampleAudit

def sampleFile : DiskFile := (sampleWrites.1.get? "journal.jsonl").getD default

-- one evaluation of the two commits for all three
theorem sampleWrites_facts :
    sampleWrites.1.get? "journal.jsonl" = some sampleFile ∧
      sampleWrites.1.get? (journalQuarantinePath "journal.jsonl" sampleEnvironment) = none ∧
      sampleWrites.2.acceptedRecords.length < maxArrayLength := by
  decide +kernel

theorem open_torn_sampleWrites : ∃ kept rest fragment disk' store',
    sampleWrites.2.acceptedRecords = kept ++ rest ∧ sampleFile.bytes = journalBytes (kept ++ rest) ∧
    sampleFile.bytes.take 500 = journalBytes kept ++ fragment ∧ (0x0a : UInt8) ∉ fragment ∧
    RunJournalStore.open sampleHash sampleEnvironment "journal.jsonl" "session-1"
      (sampleWrites.1.set "journal.jsonl" ⟨sampleFile.bytes.take 500, default⟩) = (disk', .ok store') ∧
    Recovered sampleHash sampleEnvironment "journal.jsonl" kept fragment disk' store' := by
  have hhash : HashesAll sampleHash := fun _ => ⟨genesisHash, rfl, by decide +kernel⟩
  obtain ⟨hfile, hfree, hroom⟩ := sampleWrites_facts
  exact open_torn storeRun_sampleWrites hhash hfile 500 default (by decide +kernel) hfree hroom

end CodingAgent.Journal
