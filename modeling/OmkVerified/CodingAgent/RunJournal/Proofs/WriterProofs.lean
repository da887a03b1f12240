import OmkVerified.CodingAgent.RunJournal.Writer
import OmkVerified.CodingAgent.Session.Proofs.TransactionProofs

/-!
# What the writer appends

A record fits a journal when it continues its chain and its event is allowed there. Every method
appends a record that fits, and a record that fits and names the open run is what the method for its
event appends.
-/

namespace CodingAgent.Journal

open Lib

/-! ## Identifiers and moments -/

/-- A text that the journal accepts as an identifier. -/
structure Identifier (text : String) : Prop where
  ne_empty : text ≠ ""
  length_le : jsLength text ≤ maxRunJournalIdLength
  no_control : hasControl text = false
  no_credential : looksLikeCredential text = false

theorem assertOpenIdentifier_eq_ok {text name : String} {u : Unit} :
    assertOpenIdentifier (some (.str text)) name maxRunJournalIdLength = .ok u ↔
      Identifier text := by
  unfold assertOpenIdentifier
  simp only [bind_eq_ok]
  constructor
  · rintro ⟨t, ht, hc⟩
    unfold assertIdentifier at ht
    simp only at ht
    split_ifs at ht with h₁ h₂
    · exact absurd ht (raise_ne_ok _ _)
    · exact absurd ht (raise_ne_ok _ _)
    · obtain rfl : text = t := Except.ok.inj ht
      simp only [not_or, not_lt, Bool.not_eq_true] at h₁ h₂
      rw [rejectCredential, require_eq_ok, Bool.not_eq_true'] at hc
      exact ⟨h₁.1, h₁.2, h₂, hc⟩
  · intro h
    refine ⟨text, ?_, ?_⟩
    · unfold assertIdentifier
      have h₁ : ¬ (text = "" ∨ maxRunJournalIdLength < jsLength text) := by
        simp only [not_or, not_lt]
        exact ⟨h.ne_empty, h.length_le⟩
      simp only [if_neg h₁, h.no_control, Bool.false_eq_true, if_false]
    · rw [rejectCredential, require_eq_ok, h.no_credential]
      rfl

theorem boundedIdentifier?_eq_some {value : Option Json} {text : String} :
    boundedIdentifier? value = some text ↔ value = some (.str text) ∧ Identifier text := by
  unfold boundedIdentifier?
  split
  · rename_i t
    split_ifs with h
    · constructor
      · intro heq
        obtain rfl : t = text := Option.some.inj heq
        exact ⟨rfl, h.1, h.2.1, h.2.2.1, h.2.2.2⟩
      · rintro ⟨heq, -⟩
        rw [Json.str.inj (Option.some.inj heq)]
    · constructor
      · exact fun heq => by simp at heq
      · rintro ⟨heq, hid⟩
        obtain rfl : t = text := Json.str.inj (Option.some.inj heq)
        exact absurd ⟨hid.ne_empty, hid.length_le, hid.no_control, hid.no_credential⟩ h
  · rename_i hne
    constructor
    · exact fun heq => by simp at heq
    · rintro ⟨rfl, -⟩
      exact absurd rfl (hne text)

theorem assertCanonicalTimestamp_eq_ok {value : Option Json} {name text : String} :
    assertCanonicalTimestamp value name = .ok text ↔
      value = some (.str text) ∧ isCanonicalTimestamp text = true := by
  unfold assertCanonicalTimestamp
  split
  · rename_i t
    split_ifs with h
    · simp only [Except.ok.injEq, Option.some.injEq, Json.str.injEq, iff_self_and]
      rintro rfl
      exact h
    · simp only [raise_ne_ok, Option.some.injEq, Json.str.injEq, false_iff, not_and]
      rintro rfl
      exact h
  · rename_i hne
    simp only [raise_ne_ok, false_iff, not_and]
    rintro rfl
    exact absurd rfl (hne text)

variable {j j' : RunJournal} {hashFn : HashFn} {r : RunJournalRecord}

theorem checkMoment_eq_ok {sessionRevision : Decimal} {timestamp : String} {revision : Nat} :
    j.checkMoment sessionRevision timestamp = .ok revision ↔
      sessionRevision.toNat? = some revision ∧ revision ≤ maxSafeInteger ∧
        j.lastSessionRevision ≤ revision ∧ isCanonicalTimestamp timestamp = true := by
  unfold RunJournal.checkMoment
  simp only [bind_eq_ok, assertSafeInteger_eq_ok, require_eq_ok, decide_eq_true_eq, pure_eq_ok,
    Except.ok.injEq, assertCanonicalTimestamp_eq_ok, Option.some.injEq, Json.num.injEq,
    Json.str.injEq]
  constructor
  · rintro ⟨n, ⟨d, rfl, hd, hn⟩, _, hle, t, ⟨rfl, ht⟩, rfl⟩
    exact ⟨hd, hn, hle, ht⟩
  · rintro ⟨hd, hn, hle, ht⟩
    exact ⟨revision, ⟨_, rfl, hd, hn⟩, (), hle, timestamp, ⟨rfl, ht⟩, rfl⟩

theorem assertTerminalCoherentWithEvent_eq_ok {event : TerminalEvent} {termination : Json}
    {u : Unit} :
    assertTerminalCoherentWithEvent event termination = .ok u ↔
      isTerminalCoherentWithEvent event termination = true := by
  unfold assertTerminalCoherentWithEvent
  by_cases h : isTerminalCoherentWithEvent event termination = true
  · rw [if_pos h]
    exact iff_of_true rfl h
  · rw [if_neg h]
    refine iff_of_false ?_ h
    cases event with
    | runRecovered => exact raise_ne_ok _ _
    | runFinished | runAbandoned =>
      by_cases hk : termination.get? "kind" = some (.str "process_crash")
      · simp only [if_pos hk]
        exact raise_ne_ok _ _
      · simp only [if_neg hk]
        exact raise_ne_ok _ _

theorem sealRecord_eq_ok {base : RecordBase} {record : RunJournalRecord} :
    sealRecord hashFn base = .ok record ↔
      record.toRecordBase = base ∧
        hashFn (Utf8.encode (serializeRunJournalMaterial base)) = some record.hash ∧
        isValidHashShape record.hash = true := by
  obtain ⟨base', hash⟩ := record
  unfold sealRecord
  split
  · rename_i hnone
    simp [hnone]
  · rename_i h hsome
    split_ifs with hshape
    · simp only [hsome, Except.ok.injEq, RunJournalRecord.mk.injEq, Option.some.injEq]
      constructor
      · rintro ⟨rfl, rfl⟩
        exact ⟨rfl, rfl, hshape⟩
      · rintro ⟨rfl, rfl, -⟩
        exact ⟨rfl, rfl⟩
    · simp only [raise_ne_ok, hsome, Option.some.injEq, false_iff, not_and]
      rintro rfl rfl
      exact hshape

theorem append_eq_ok {base : RecordBase} {record : RunJournalRecord} :
    j.append hashFn base = .ok (record, j') ↔
      record.toRecordBase = base ∧
        hashFn (Utf8.encode (serializeRunJournalMaterial base)) = some record.hash ∧
        isValidHashShape record.hash = true ∧ j.records.length < maxArrayLength ∧
        j' = j.advance record := by
  unfold RunJournal.append
  simp only [bind_eq_ok, sealRecord_eq_ok, require_eq_ok, decide_eq_true_eq, pure_eq_ok,
    Except.ok.injEq, Prod.mk.injEq]
  constructor
  · rintro ⟨r, ⟨hbase, hhash, hshape⟩, _, hroom, rfl, rfl⟩
    exact ⟨hbase, hhash, hshape, hroom, rfl⟩
  · rintro ⟨hbase, hhash, hshape, hroom, rfl⟩
    exact ⟨record, ⟨hbase, hhash, hshape⟩, (), hroom, rfl, rfl⟩

/-! ## Records that fit -/

/-- What the event of a record carries has distinct keys. -/
def Event.WellFormed : Event → Prop
  | runStarted => True
  | terminal _ termination => termination.WellFormed
  | audit _ details => details.WellFormed

/-- The event of the record is allowed in the journal. -/
def EventFits (j : RunJournal) (r : RunJournalRecord) : Prop :=
  match r.event with
  | .runStarted => j.openRun = none ∧ r.runId ∉ j.startedRunIds
  | .terminal event termination =>
    j.openRun = some r.runId ∧ r.runId ∉ j.terminatedRunIds ∧
      assertBoundedSessionTermination (some termination) r.runId r.sessionId = .ok () ∧
      isTerminalCoherentWithEvent event termination = true ∧
      termination.get? "timestamp" = some (.str r.timestamp)
  | .audit _ details => assertBoundedAuditDetails (some details) = .ok ()

/-- The record continues the journal. -/
structure Fits (hashFn : HashFn) (j : RunJournal) (r : RunJournalRecord) : Prop where
  seq_eq : r.seq = j.nextSeq
  prevHash_eq : r.prevHash = j.prevHash
  sessionId_eq : r.sessionId = j.sessionId
  revision_safe : r.sessionRevision ≤ maxSafeInteger
  revision_le : j.lastSessionRevision ≤ r.sessionRevision
  timestamp : isCanonicalTimestamp r.timestamp = true
  hash_eq : hashFn (Utf8.encode (serializeRunJournalMaterial r.toRecordBase)) = some r.hash
  hash_shape : isValidHashShape r.hash = true
  event : EventFits j r
  runId : Identifier r.runId

/-- An audit record carries the id of the open run, or `none` where no run is open. -/
def NamesOpenRun (openRun : Option String) (r : RunJournalRecord) : Prop :=
  match r.event with
  | .audit _ _ => r.runId = openRun.getD "none"
  | _ => True

/-- The open run after the record. -/
def openAfter (openRun : Option String) (r : RunJournalRecord) : Option String :=
  match r.event with
  | .runStarted => some r.runId
  | .terminal _ _ => none
  | .audit _ _ => openRun

theorem advance_openRun (j : RunJournal) (r : RunJournalRecord) :
    (j.advance r).openRun = openAfter j.openRun r := by
  unfold RunJournal.advance openAfter
  cases r.event <;> rfl

/-- The journal's own identifiers are accepted ones. -/
structure Named (j : RunJournal) : Prop where
  sessionId : Identifier j.sessionId
  openRun : ∀ runId ∈ j.openRun, Identifier runId

theorem identifier_none : Identifier "none" where
  ne_empty := by decide
  length_le := by decide +kernel
  no_control := by decide +kernel
  no_credential := by decide +kernel

theorem Named.advance (h : Named j) (hr : Fits hashFn j r) : Named (j.advance r) where
  sessionId := h.sessionId
  openRun := by
    intro runId hmem
    rw [advance_openRun] at hmem
    unfold openAfter at hmem
    split at hmem
    · obtain rfl : r.runId = runId := by simpa using hmem
      exact hr.runId
    · simp at hmem
    · exact h.openRun runId hmem

/-! ## The methods -/

theorem start_eq_ok {input : StartInput} (h : j.start hashFn input = .ok (r, j')) :
    Fits hashFn j r ∧ NamesOpenRun j.openRun r ∧ r.event.WellFormed ∧
      j.records.length < maxArrayLength ∧ j' = j.advance r := by
  unfold RunJournal.start at h
  simp only [bind_eq_ok, assertOpenIdentifier_eq_ok, checkMoment_eq_ok, require_eq_ok,
    decide_eq_true_eq, Option.isNone_iff_eq_none, append_eq_ok] at h
  obtain ⟨_, hid, revision, ⟨-, hsafe, hle, hts⟩, _, hopen, _, hnew, hbase, hhash, hshape, hroom,
    rfl⟩ := h
  obtain ⟨base, hash⟩ := r
  obtain rfl := hbase
  refine ⟨⟨rfl, rfl, rfl, hsafe, hle, hts, hhash, hshape, ⟨hopen, hnew⟩, hid⟩, trivial, trivial, hroom,
    rfl⟩

theorem appendTerminal_eq_ok {event : TerminalEvent} {input : TerminalInput} (hj : Named j)
    (hwf : input.termination.WellFormed) (h : j.appendTerminal hashFn event input = .ok (r, j')) :
    Fits hashFn j r ∧ NamesOpenRun j.openRun r ∧ r.event.WellFormed ∧
      j.records.length < maxArrayLength ∧ j' = j.advance r := by
  unfold RunJournal.appendTerminal at h
  split at h
  · exact absurd h (raise_ne_ok _ _)
  · rename_i runId hopen
    simp only [bind_eq_ok, checkMoment_eq_ok, require_eq_ok, decide_eq_true_eq,
      assertTerminalCoherentWithEvent_eq_ok, append_eq_ok] at h
    obtain ⟨revision, ⟨-, hsafe, hle, hts⟩, _, hterm, _, hcoh, _, htime, _, hnew, hbase, hhash,
      hshape, hroom, rfl⟩ := h
    obtain ⟨base, hash⟩ := r
    obtain rfl := hbase
    refine ⟨⟨rfl, rfl, rfl, hsafe, hle, hts, hhash, hshape, ⟨hopen, hnew, hterm, hcoh, htime⟩,
      hj.openRun runId hopen⟩, trivial, hwf, hroom, rfl⟩

theorem audit_eq_ok {input : AuditInput} (hj : Named j) (hwf : input.details.WellFormed)
    (h : j.audit hashFn input = .ok (r, j')) :
    Fits hashFn j r ∧ NamesOpenRun j.openRun r ∧ r.event.WellFormed ∧
      j.records.length < maxArrayLength ∧ j' = j.advance r := by
  unfold RunJournal.audit at h
  simp only [bind_eq_ok, checkMoment_eq_ok, append_eq_ok] at h
  obtain ⟨revision, ⟨-, hsafe, hle, hts⟩, _, hdetails, hbase, hhash, hshape, hroom, rfl⟩ := h
  have hid : Identifier (j.openRun.getD "none") := by
    cases hopen : j.openRun with
    | none => exact identifier_none
    | some runId => exact hj.openRun runId hopen
  obtain ⟨base, hash⟩ := r
  obtain rfl := hbase
  exact ⟨⟨rfl, rfl, rfl, hsafe, hle, hts, hhash, hshape, hdetails, hid⟩, rfl, hwf, hroom, rfl⟩

/-- What a successful operation does to the journal. -/
theorem run_eq_ok {op : JournalOperation} (hj : Named j) (hop : op.WellFormed)
    (h : op.run hashFn j = .ok (r, j')) :
    Fits hashFn j r ∧ NamesOpenRun j.openRun r ∧ r.event.WellFormed ∧
      j.records.length < maxArrayLength ∧ j' = j.advance r := by
  cases op with
  | start input => exact start_eq_ok h
  | finish input | abandon input | recover input => exact appendTerminal_eq_ok hj hop h
  | audit input => exact audit_eq_ok hj hop h

/-! ## Journals as chains of records -/

/-- `records` are what a genesis journal of the session took, one after the other, to become `j`. -/
inductive Chain (hashFn : HashFn) (sessionId : String) : List RunJournalRecord → RunJournal → Prop
  | nil : Chain hashFn sessionId [] (emptyJournal sessionId genesisHash 0)
  | snoc {records : List RunJournalRecord} {j : RunJournal} {r : RunJournalRecord}
      (h : Chain hashFn sessionId records j) (hfits : Fits hashFn j r)
      (hwf : r.event.WellFormed) (hroom : j.records.length < maxArrayLength) :
      Chain hashFn sessionId (records ++ [r]) (j.advance r)

/-- What a chain says about its journal. -/
structure ChainFacts (sessionId : String) (records : List RunJournalRecord) (j : RunJournal) :
    Prop where
  records_eq : j.records = records
  sessionId_eq : j.sessionId = sessionId
  nextSeq_eq : j.nextSeq = records.length
  length_le : records.length ≤ maxArrayLength
  openRun_eq : j.openRun = records.foldl openAfter none
  event : ∀ r ∈ records, r.event.WellFormed
  runIds : ∀ r ∈ records, Identifier r.runId

theorem Chain.facts {sessionId : String} {records : List RunJournalRecord}
    (h : Chain hashFn sessionId records j) : ChainFacts sessionId records j := by
  induction h with
  | nil => exact ⟨rfl, rfl, rfl, by simp, rfl, by simp, by simp⟩
  | @snoc records j r h hfits hwf hroom ih =>
    refine ⟨?_, ih.sessionId_eq, ?_, ?_, ?_, ?_, ?_⟩
    · show j.records ++ [r] = records ++ [r]
      rw [ih.records_eq]
    · show j.nextSeq + 1 = (records ++ [r]).length
      rw [ih.nextSeq_eq, List.length_append, List.length_singleton]
    · rw [ih.records_eq] at hroom
      rw [List.length_append, List.length_singleton]
      omega
    · rw [advance_openRun, ih.openRun_eq, List.foldl_append]
      rfl
    · intro r' hr'
      rcases List.mem_append.mp hr' with hr' | hr'
      · exact ih.event r' hr'
      · rwa [List.mem_singleton.mp hr']
    · intro r' hr'
      rcases List.mem_append.mp hr' with hr' | hr'
      · exact ih.runIds r' hr'
      · rw [List.mem_singleton.mp hr']
        exact hfits.runId

theorem Chain.named {hashFn : HashFn} {sessionId : String} {records : List RunJournalRecord}
    {j : RunJournal} (h : Chain hashFn sessionId records j) (hid : Identifier sessionId) :
    Named j := by
  induction h with
  | nil => exact ⟨hid, by simp [emptyJournal]⟩
  | snoc h hfits hwf hroom ih => exact ih.advance hfits

theorem Written.chain (h : Written hashFn j) :
    Identifier j.sessionId ∧ Chain hashFn j.sessionId j.records j := by
  induction h with
  | @genesis init j hprev hseq h =>
    unfold RunJournal.new at h
    simp only [bind_eq_ok, assertOpenIdentifier_eq_ok, assertSafeInteger_eq_ok, require_eq_ok, hprev,
      hseq, Option.getD_none] at h
    obtain ⟨_, hid, seq, ⟨d, hd, hdseq, -⟩, _, -, h⟩ := h
    obtain rfl : Decimal.zero = d := Json.num.inj (Option.some.inj hd)
    obtain rfl : 0 = seq := Option.some.inj hdseq
    split_ifs at h with hopen
    · obtain ⟨_, -, h⟩ := bind_eq_ok.mp h
      obtain rfl : _ = j := Except.ok.inj h
      exact ⟨hid, .nil⟩
    · obtain ⟨⟨r, j'⟩, hstart, h⟩ := bind_eq_ok.mp h
      obtain rfl : j' = j := Except.ok.inj h
      obtain ⟨hfits, -, hwf, hroom, rfl⟩ := start_eq_ok hstart
      exact ⟨hid, Chain.nil.snoc hfits hwf hroom⟩
  | @step j j' op r h hop hrun ih =>
    obtain ⟨hid, hchain⟩ := ih
    obtain ⟨hfits, -, hwf, hroom, rfl⟩ := run_eq_ok (hchain.named hid) hop hrun
    exact ⟨hid, hchain.snoc hfits hwf hroom⟩

end CodingAgent.Journal
