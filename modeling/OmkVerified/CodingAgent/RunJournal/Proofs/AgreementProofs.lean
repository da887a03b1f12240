import OmkVerified.CodingAgent.RunJournal.Proofs.InspectProofs

/-!
# The inspector agrees with the writer

The variables of the inspector's loop are those of the writer after the same records. One line more
keeps this: a line that the writer wrote adds its record and no finding, and a line without a finding
is a record that fits.
-/

namespace CodingAgent.Journal

open Lib

/-! ## The material of a record -/

theorem canonicalFields_append (a b : List (String × Json)) :
    Json.canonical.canonicalFields (a ++ b) =
      Json.canonical.canonicalFields a ++ Json.canonical.canonicalFields b := by
  simp [Json.canonicalFields_eq]

theorem canonicalFields_event (event : Event) :
    Json.canonical.canonicalFields event.canonical.fields =
      Json.canonical.canonicalFields event.fields := by
  cases event with
  | runStarted => rfl
  | terminal event termination | audit event details =>
    simp [Event.canonical, Event.fields, Json.canonical.canonicalFields, Json.canonical_canonical]

theorem stripHashKey_toJson (base : RecordBase) : stripHashKey base.toJson = base.toJson := by
  obtain ⟨seq, event, runId, sessionId, revision, timestamp, prevHash⟩ := base
  cases event <;> simp [stripHashKey, RecordBase.toJson, RecordBase.fields, Event.fields]

theorem material_canonical (r : RunJournalRecord) :
    serializeRunJournalMaterial r.canonical.toRecordBase =
      serializeRunJournalMaterial r.toRecordBase := by
  unfold serializeRunJournalMaterial Json.canonicalJson
  rw [stripHashKey_toJson, stripHashKey_toJson]
  unfold RecordBase.toJson Json.canonical RecordBase.fields RunJournalRecord.canonical
  simp only [canonicalFields_append, canonicalFields_event, kind_canonical]

theorem line_canonical (r : RunJournalRecord) :
    serializeRunJournalLine r.canonical = serializeRunJournalLine r := by
  unfold serializeRunJournalLine Json.canonicalJson RunJournalRecord.toJson Json.canonical
  unfold RecordBase.fields RunJournalRecord.canonical
  simp only [canonicalFields_append, canonicalFields_event, kind_canonical]

variable {hashFn : HashFn} {j : RunJournal} {r : RunJournalRecord} {s : InspectState}

theorem Fits.canonical (h : Fits hashFn j r) (hwf : r.event.WellFormed) :
    Fits hashFn j r.canonical where
  seq_eq := h.seq_eq
  prevHash_eq := h.prevHash_eq
  sessionId_eq := h.sessionId_eq
  revision_safe := h.revision_safe
  revision_le := h.revision_le
  timestamp := h.timestamp
  hash_eq := by
    rw [material_canonical]
    exact h.hash_eq
  hash_shape := h.hash_shape
  event := by
    have hevent := h.event
    unfold EventFits at hevent ⊢
    unfold RunJournalRecord.canonical
    cases hr : r.event with
    | runStarted =>
      rw [hr] at hevent
      exact hevent
    | terminal event termination =>
      rw [hr] at hevent hwf
      obtain ⟨hopen, hnew, hterm, hcoh, htime⟩ := hevent
      refine ⟨hopen, hnew, ?_, ?_, ?_⟩
      · rw [assertBoundedSessionTermination_canonical hwf]
        exact hterm
      · rw [isTerminalCoherentWithEvent_canonical event hwf]
        exact hcoh
      · rw [Json.get?_canonical hwf, htime]
        rfl
    | audit event details =>
      rw [hr] at hevent hwf
      show assertBoundedAuditDetails (some details.canonical) = .ok ()
      rw [assertBoundedAuditDetails_canonical hwf]
      exact hevent
  runId := h.runId

/-! ## The findings of a record -/

theorem findingIf_eq_nil {condition : Bool} {finding : Finding} :
    findingIf condition finding = [] ↔ condition = false := by
  cases condition <;> simp [findingIf]

/-- The record continues the chain of the loop. -/
structure Links (hashFn : HashFn) (s : InspectState) (r : RunJournalRecord) : Prop where
  seq_eq : r.seq = s.expectedSeq
  hash_shape : isValidHashShape r.hash = true
  prevHash_shape : isValidHashShape r.prevHash = true
  hash_eq : hashFn (Utf8.encode (serializeRunJournalMaterial r.toRecordBase)) = some r.hash
  prevHash_eq : r.prevHash = s.lastHash

variable {line : Nat}

theorem chainFindings_eq_nil : chainFindings hashFn s line r = [] ↔ Links hashFn s r := by
  unfold chainFindings
  simp only [List.append_eq_nil_iff, findingIf_eq_nil, decide_eq_false_iff_not, not_lt,
    Bool.not_eq_false', Bool.and_eq_true, not_not, ne_eq]
  constructor
  · rintro ⟨⟨⟨⟨hle, hge⟩, hshape⟩, hre⟩, hprev⟩
    obtain ⟨hash, hhash, hre⟩ := (Option.any_eq_true ..).mp hre
    simp only [Bool.and_eq_true, decide_eq_true_eq] at hre
    refine ⟨by omega, hshape.1, hshape.2, ?_, hprev⟩
    rw [hhash, hre.2]
  · intro h
    refine ⟨⟨⟨⟨h.seq_eq.le, h.seq_eq.ge⟩, h.hash_shape, h.prevHash_shape⟩, ?_⟩, h.prevHash_eq⟩
    rw [h.hash_eq]
    simp [h.hash_shape]

/-- The run-state machine allows the event of the record. -/
def RunAllowed (s : InspectState) (r : RunJournalRecord) : Prop :=
  match r.event with
  | .audit _ _ => True
  | .runStarted => r.runId ∉ s.seenStarts ∧ ∀ runId ∈ s.openRun, runId = r.runId
  | .terminal _ _ => r.runId ∉ s.terminatedRuns ∧ s.openRun = some r.runId

theorem runFindings_eq_nil : runFindings s line r = [] ↔ RunAllowed s r := by
  unfold runFindings RunAllowed
  cases r.event with
  | audit event details => simp
  | runStarted =>
    simp only [List.append_eq_nil_iff, findingIf_eq_nil, decide_eq_false_iff_not]
    rw [← Bool.not_eq_true, Option.any_eq_true]
    simp
  | terminal event termination =>
    by_cases h₁ : r.runId ∈ s.terminatedRuns
    · simp [h₁]
    · by_cases h₂ : s.openRun = some r.runId
      · simp [h₁, h₂]
      · simp [h₁, h₂]

/-! ## One line -/

/-- The inspector stops a journal: every finding except a fragment at the end and an open run. -/
def isHardFinding (finding : Finding) : Bool :=
  finding.code ≠ .trailingFragment && finding.code ≠ .runUnclosed

/-- The variables of the loop after the records of a journal. -/
structure Agrees (s : InspectState) (j : RunJournal) : Prop where
  openRun : s.openRun = j.openRun
  seenStarts : s.seenStarts = j.startedRunIds
  terminatedRuns : s.terminatedRuns = j.terminatedRunIds
  expectedSeq : s.expectedSeq = j.nextSeq
  lastHash : s.lastHash = j.prevHash
  lastRevision : s.lastRevision = j.lastSessionRevision
  journalSessionId : ∀ id ∈ s.journalSessionId, id = j.sessionId
  prevHash_shape : isValidHashShape j.prevHash = true
  opened : ∀ runId ∈ j.openRun, runId ∈ j.startedRunIds

theorem Agrees.links (h : Agrees s j) (hfits : Fits hashFn j r) : Links hashFn s r where
  seq_eq := hfits.seq_eq.trans h.expectedSeq.symm
  hash_shape := hfits.hash_shape
  prevHash_shape := by
    rw [hfits.prevHash_eq]
    exact h.prevHash_shape
  hash_eq := hfits.hash_eq
  prevHash_eq := hfits.prevHash_eq.trans h.lastHash.symm

theorem Agrees.runAllowed (h : Agrees s j) (hfits : Fits hashFn j r) : RunAllowed s r := by
  have hevent := hfits.event
  unfold EventFits at hevent
  unfold RunAllowed
  rw [h.openRun, h.seenStarts, h.terminatedRuns]
  cases hr : r.event with
  | runStarted =>
    rw [hr] at hevent
    exact ⟨hevent.2, by simp [hevent.1]⟩
  | terminal event termination =>
    rw [hr] at hevent
    exact ⟨hevent.2.1, hevent.1⟩
  | audit event details => trivial

theorem Agrees.keep (h : Agrees s j) (hlinks : Links hashFn s r) (hrun : RunAllowed s r)
    (hsession : r.sessionId = j.sessionId) (line : Nat) :
    Agrees ({ s with journalSessionId := some r.sessionId }.keep hashFn line r) (j.advance r) := by
  have hseq : r.seq = j.nextSeq := hlinks.seq_eq.trans h.expectedSeq
  unfold RunAllowed at hrun
  refine ⟨?_, ?_, ?_, ?_, ?_, rfl, ?_, hlinks.hash_shape, ?_⟩
  · rw [advance_openRun]
    show nextOpenRun _ r = _
    unfold nextOpenRun openAfter
    cases hr : r.event with
    | runStarted =>
      rw [hr] at hrun
      show (if s.openRun.isNone = true then some r.runId else s.openRun) = some r.runId
      cases hopen : s.openRun with
      | none => rfl
      | some runId => rw [hrun.2 runId hopen]; rfl
    | terminal event termination =>
      rw [hr] at hrun
      exact if_pos hrun
    | audit event details => exact h.openRun
  · show nextSeenStarts _ r = _
    unfold nextSeenStarts RunJournal.advance
    cases hr : r.event with
    | runStarted => exact congrArg (insert r.runId) h.seenStarts
    | terminal event termination | audit event details => exact h.seenStarts
  · show nextTerminatedRuns _ r = _
    unfold nextTerminatedRuns RunJournal.advance
    cases hr : r.event with
    | terminal event termination =>
      rw [hr] at hrun
      exact (if_pos hrun).trans (congrArg (insert r.runId) h.terminatedRuns)
    | runStarted | audit event details => exact h.terminatedRuns
  · show r.seq + 1 = j.nextSeq + 1
    rw [hseq]
  · show (if isValidHashShape r.hash = true then r.hash else s.lastHash) = r.hash
    exact if_pos hlinks.hash_shape
  · intro id hid
    obtain rfl : r.sessionId = id := by simpa [InspectState.keep] using hid
    exact hsession
  · intro runId hmem
    rw [advance_openRun] at hmem
    unfold openAfter at hmem
    unfold RunJournal.advance
    cases hr : r.event with
    | runStarted =>
      rw [hr] at hmem
      obtain rfl : r.runId = runId := by simpa using hmem
      exact Finset.mem_insert_self _ _
    | terminal event termination =>
      rw [hr] at hmem
      simp at hmem
    | audit event details =>
      rw [hr] at hmem
      exact h.opened runId hmem

theorem keep_findings (hlinks : Links hashFn s r) (hrun : RunAllowed s r) (line : Nat) :
    (s.keep hashFn line r).findings = s.findings := by
  unfold InspectState.keep
  rw [(chainFindings_eq_nil).mpr hlinks, (runFindings_eq_nil).mpr hrun, List.append_nil, List.append_nil]

theorem Agrees.of_canonical (h : Agrees s (j.advance r.canonical)) : Agrees s (j.advance r) := by
  obtain ⟨⟨seq, event, runId, sessionId, revision, timestamp, prevHash⟩, hash⟩ := r
  cases event <;> exact ⟨h.1, h.2, h.3, h.4, h.5, h.6, h.7, h.8, h.9⟩

/-- A line that the writer wrote adds its record and no finding. -/
theorem inspectLine_canonical (h : Agrees s j) (hfits : Fits hashFn j r) (hwf : r.event.WellFormed)
    (hseq : r.seq ≤ maxSafeInteger) (hsession : Identifier j.sessionId) (line : Nat) :
    (inspectLine hashFn s line r.toJson.canonical).findings = s.findings ∧
      (inspectLine hashFn s line r.toJson.canonical).validRecords =
        s.validRecords ++ [r.canonical] ∧
      Agrees (inspectLine hashFn s line r.toJson.canonical) (j.advance r) := by
  have hid : Identifier r.sessionId := by
    rw [hfits.sessionId_eq]
    exact hsession
  have hcommon := validateCommonShape_eq_some.mpr
    (shape_canonical hwf hseq hfits.revision_safe hfits.timestamp hfits.runId hid)
  have hprobe : probeEvent r.toJson.canonical r.common = .ok r.event.canonical := by
    have hevent := hfits.event
    unfold EventFits at hevent
    refine probeEvent_canonical hwf ?_ ?_
    · intro event termination hr
      rw [hr] at hevent
      exact hevent.2.2
    · intro event details hr
      rw [hr] at hevent
      exact hevent
  have hcanonical := hfits.canonical hwf
  have hline : inspectLine hashFn s line r.toJson.canonical =
      { s with journalSessionId := some r.sessionId }.keep hashFn line r.canonical := by
    unfold inspectLine
    rw [hcommon]
    simp only [hprobe]
    rw [if_neg, if_neg]
    · rfl
    · show ¬ r.sessionRevision < s.lastRevision
      rw [h.lastRevision]
      have := hfits.revision_le
      omega
    · rw [Option.any_eq_true]
      rintro ⟨id, hmem, hne⟩
      have hsame : r.common.sessionId = id := hfits.sessionId_eq.trans (h.journalSessionId id hmem).symm
      simp [hsame] at hne
  have hlinks := h.links hcanonical
  have hrun := h.runAllowed hcanonical
  rw [hline]
  refine ⟨keep_findings ⟨hlinks.1, hlinks.2, hlinks.3, hlinks.4, hlinks.5⟩ hrun line, rfl, ?_⟩
  exact (h.keep hlinks hrun hcanonical.sessionId_eq line).of_canonical

/-! ## Findings -/

theorem isHard_findingIf {condition : Bool} {finding : Finding} (h : isHardFinding finding = true) :
    ∀ f ∈ findingIf condition finding, isHardFinding f = true := by
  intro f hf
  cases condition with
  | false => simp [findingIf] at hf
  | true =>
    obtain rfl : f = finding := by simpa [findingIf] using hf
    exact h

theorem isHard_keep (hashFn : HashFn) (s : InspectState) (line : Nat) (r : RunJournalRecord) :
    ∀ f ∈ chainFindings hashFn s line r ++ runFindings s line r, isHardFinding f = true := by
  intro f hf
  rcases List.mem_append.mp hf with hf | hf
  · unfold chainFindings at hf
    simp only [List.mem_append] at hf
    rcases hf with (((hf | hf) | hf) | hf) | hf
    all_goals exact isHard_findingIf rfl f hf
  · unfold runFindings at hf
    cases hr : r.event with
    | audit event details =>
      rw [hr] at hf
      simp at hf
    | runStarted =>
      rw [hr] at hf
      rcases List.mem_append.mp hf with hf | hf
      all_goals exact isHard_findingIf rfl f hf
    | terminal event termination =>
      rw [hr] at hf
      simp only at hf
      split_ifs at hf
      · obtain rfl := List.mem_singleton.mp hf
        rfl
      · obtain rfl := List.mem_singleton.mp hf
        rfl
      · simp at hf

theorem isHard_probeFinding {value : Json} {common : CommonShape} {code : FindingCode}
    (h : probeEvent value common = .error code) (line : Nat) (runId : String) :
    isHardFinding (probeFinding code line runId) = true := by
  have hcode : code = .schema ∨ code = .terminationMismatch ∨ code = .recoveredSourceInvalid := by
    unfold probeEvent at h
    split at h
    · simp at h
    · split at h
      · simp at h
      · exact .inl (Except.error.inj h).symm
    · split at h
      · split_ifs at h
        · exact .inr (.inl (Except.error.inj h).symm)
        · exact .inr (.inr (Except.error.inj h).symm)
      · exact .inr (.inl (Except.error.inj h).symm)
  rcases hcode with rfl | rfl | rfl <;> rfl

/-- A line adds only findings that stop the journal. -/
theorem inspectLine_findings (hashFn : HashFn) (s : InspectState) (line : Nat) (value : Json) :
    ∃ added, (inspectLine hashFn s line value).findings = s.findings ++ added ∧
      ∀ f ∈ added, isHardFinding f = true := by
  have hsingle : ∀ f : Finding, isHardFinding f = true → ∀ g ∈ [f], isHardFinding g = true :=
    fun f hf g hg => by rwa [List.mem_singleton.mp hg]
  unfold inspectLine
  split
  · exact ⟨_, rfl, hsingle _ rfl⟩
  · split
    · rename_i hprobe
      exact ⟨_, rfl, hsingle _ (isHard_probeFinding hprobe _ _)⟩
    · dsimp only
      split_ifs
      · exact ⟨_, rfl, hsingle _ rfl⟩
      · exact ⟨_, rfl, hsingle _ rfl⟩
      · exact ⟨_, List.append_assoc .., isHard_keep hashFn _ _ _⟩

/-- A line without a finding is a record that fits. -/
theorem fits_of_inspectLine {value : Json} (h : Agrees s j) (hwf : value.WellFormed)
    (hno : (inspectLine hashFn s line value).findings = s.findings) :
    ∃ r : RunJournalRecord,
      (inspectLine hashFn s line value).validRecords = s.validRecords ++ [r] ∧ r.event.WellFormed ∧
        Identifier r.sessionId ∧
        (r.sessionId = j.sessionId →
          Fits hashFn j r ∧ Agrees (inspectLine hashFn s line value) (j.advance r)) := by
  have hne : ∀ f : Finding, s.findings ++ [f] ≠ s.findings := fun f hf => by simp at hf
  unfold inspectLine at hno ⊢
  split at hno
  · exact absurd hno (hne _)
  · rename_i common hcommon
    split at hno
    · exact absurd hno (hne _)
    · rename_i event hprobe
      dsimp only at hno ⊢
      split_ifs at hno ⊢ with hsession hrevision
      · exact absurd hno (hne _)
      · exact absurd hno (hne _)
      · have hshape := validateCommonShape_eq_some.mp hcommon
        obtain ⟨hkind, hterm, haudit⟩ := probeEvent_eq_ok hprobe
        set r := common.record event with hr
        have hnil : chainFindings hashFn { s with journalSessionId := some common.sessionId } line r ++
            runFindings { s with journalSessionId := some common.sessionId } line r = [] := by
          have : s.findings ++ (chainFindings hashFn
              { s with journalSessionId := some common.sessionId } line r ++
              runFindings { s with journalSessionId := some common.sessionId } line r) =
              s.findings := by
            rw [← List.append_assoc]
            exact hno
          simpa using this
        obtain ⟨hchain, hrun⟩ := List.append_eq_nil_iff.mp hnil
        have hlinks := (chainFindings_eq_nil).mp hchain
        have hallowed := (runFindings_eq_nil).mp hrun
        have hlinks' : Links hashFn s r := ⟨hlinks.1, hlinks.2, hlinks.3, hlinks.4, hlinks.5⟩
        refine ⟨r, rfl, ?_, hshape.sessionId.2, fun hsame => ⟨?_, h.keep hlinks' hallowed hsame line⟩⟩
        · show event.WellFormed
          cases event with
          | runStarted => trivial
          | terminal kind termination => exact wellFormed_of_get? hwf (hterm _ _ rfl).1
          | audit kind details => exact wellFormed_of_get? hwf (haudit _ _ rfl).1
        · refine ⟨hlinks.seq_eq.trans h.expectedSeq, hlinks.prevHash_eq.trans h.lastHash, hsame,
            hshape.sessionRevision.2, ?_, hshape.timestamp.2, hlinks.hash_eq, hlinks.hash_shape, ?_,
            hshape.runId.2⟩
          · show j.lastSessionRevision ≤ common.sessionRevision
            rw [← h.lastRevision]
            simpa using hrevision
          · unfold EventFits
            unfold RunAllowed at hallowed
            cases hevent : event with
            | runStarted =>
              have hre : r.event = .runStarted := hevent
              rw [hre] at hallowed ⊢
              have hnew : r.runId ∉ j.startedRunIds := by
                rw [← h.seenStarts]
                exact hallowed.1
              refine ⟨?_, hnew⟩
              cases hopen : j.openRun with
              | none => rfl
              | some runId =>
                -- a run that is open was started, so it is not this one
                have hsame' : runId = r.runId := hallowed.2 runId (h.openRun.trans hopen)
                exact absurd (h.opened runId hopen) (by rwa [hsame'])
            | terminal kind termination =>
              have hre : r.event = .terminal kind termination := hevent
              rw [hre] at hallowed ⊢
              obtain ⟨-, hbounded, hcoh, htime⟩ := hterm kind termination hevent
              refine ⟨?_, ?_, hbounded, hcoh, htime⟩
              · rw [← h.openRun]
                exact hallowed.2
              · rw [← h.terminatedRuns]
                exact hallowed.1
            | audit kind details =>
              have hre : r.event = .audit kind details := hevent
              rw [hre]
              exact (haudit kind details hevent).2

end CodingAgent.Journal

/-!
# Reading back a journal

The bytes of a chain of records, with or without a fragment of a line after them, are inspected
without a finding of their own: the inspector returns the records and the run that is open after
them.
-/

namespace CodingAgent.Journal

open Lib

/-! ## Bytes and lines -/

/-- The bytes of the lines of records. -/
def journalBytes (records : List RunJournalRecord) : List UInt8 :=
  Utf8.encode (recordLines (records.map fun r => r.toJson.canonical))

/-- The line of one record, with its line feed. -/
def lineBytes (record : RunJournalRecord) : List UInt8 :=
  Utf8.encode (serializeRunJournalLine record ++ ['\n'])

theorem journalBytes_append (a b : List RunJournalRecord) :
    journalBytes (a ++ b) = journalBytes a ++ journalBytes b := by
  unfold journalBytes
  rw [List.map_append, recordLines_append, Utf8.encode_append]

theorem journalBytes_singleton (r : RunJournalRecord) : journalBytes [r] = lineBytes r := by
  unfold journalBytes lineBytes serializeRunJournalLine Json.canonicalJson
  simp [recordLines]

theorem toBytes_eq (j : RunJournal) : j.toBytes = journalBytes j.records := by
  unfold RunJournal.toBytes RunJournal.serialize journalBytes
  by_cases h : j.records = []
  · simp [h, recordLines]
  · have hlines : j.records.map serializeRunJournalLine =
        (j.records.map fun r => r.toJson.canonical).map Json.stringify := by
      rw [List.map_map]
      rfl
    have hne : (j.records.map fun r => r.toJson.canonical) ≠ [] := by simpa using h
    rw [if_neg (by simpa using h), hlines, ← serializeFileEntries_eq hne]
    rfl

/-- A complete prefix ends where the last line feed is. -/
theorem completePrefix_append {complete fragment : List UInt8}
    (hcomplete : complete = [] ∨ ∃ body, complete = body ++ [0x0a])
    (hfragment : (0x0a : UInt8) ∉ fragment) :
    completePrefix (complete ++ fragment) = complete := by
  unfold completePrefix
  have hdrop : ∀ bytes : List UInt8,
      (fragment.reverse ++ bytes).dropWhile (fun byte => decide (byte ≠ 0x0a)) =
        bytes.dropWhile fun byte => decide (byte ≠ 0x0a) := by
    intro bytes
    refine List.dropWhile_append_of_pos ?_
    intro byte hbyte
    have hne : byte ≠ 0x0a := by
      rintro rfl
      exact hfragment (List.mem_reverse.mp hbyte)
    simpa using hne
  rw [List.reverse_append, hdrop]
  rcases hcomplete with rfl | ⟨body, rfl⟩
  · rfl
  · simp

theorem journalBytes_complete (records : List RunJournalRecord) :
    journalBytes records = [] ∨ ∃ body, journalBytes records = body ++ [0x0a] := by
  cases records using List.reverseRecOn with
  | nil => exact .inl rfl
  | append_singleton records r =>
    refine .inr ⟨journalBytes records ++ Utf8.encode (serializeRunJournalLine r), ?_⟩
    rw [journalBytes_append, journalBytes_singleton, lineBytes, Utf8.encode_append,
      List.append_assoc]
    rfl

theorem journalLines_append {body : List Char} (h : body ≠ []) :
    journalLines (body ++ ['\n']) = completeLines (body ++ ['\n']) := by
  unfold journalLines completeLines
  rw [List.splitOn_append_cons_self]
  simp [h]

theorem recordLines_cons (r : RunJournalRecord) (records : List RunJournalRecord) :
    ∃ text, recordLines ((r :: records).map fun r => r.toJson.canonical) = '{' :: text := by
  obtain ⟨⟨seq, event, runId, sessionId, revision, timestamp, prevHash⟩, hash⟩ := r
  exact ⟨_, rfl⟩

theorem decodeFatal_journalBytes (records : List RunJournalRecord) :
    Utf8.decodeFatal (journalBytes records) =
      some (recordLines (records.map fun r => r.toJson.canonical)) := by
  unfold journalBytes
  rw [Utf8.decodeFatal_encode]
  cases records with
  | nil => rfl
  | cons r records =>
    obtain ⟨text, htext⟩ := recordLines_cons r records
    rw [htext]
    rfl

theorem journalLines_recordLines (r : RunJournalRecord) (records : List RunJournalRecord) :
    journalLines (recordLines ((r :: records).map fun r => r.toJson.canonical)) =
      ((r :: records).map fun r => r.toJson.canonical).map Json.stringify := by
  rw [← completeLines_recordLines, ← serializeFileEntries_eq (by simp)]
  refine journalLines_append ?_
  intro hnil
  have hempty : serializeFileEntries ((r :: records).map fun r => r.toJson.canonical) = ['\n'] := by
    unfold serializeFileEntries
    rw [hnil]
    rfl
  rw [serializeFileEntries_eq (by simp)] at hempty
  obtain ⟨text, htext⟩ := recordLines_cons r records
  rw [htext] at hempty
  simp at hempty

/-- The values of the lines, numbered from `line` on. -/
def numbered (line : Nat) (records : List RunJournalRecord) : List (Nat × Json) :=
  (records.zipIdx line).map fun (r, i) => (i, r.toJson.canonical)

theorem parseJournalLine_stringify {value : Json} (h : value.WellFormed) (line : Nat) :
    parseJournalLine line (Json.stringify value) = .ok (line, value) := by
  obtain ⟨c, text, heq, hc, hc', -⟩ := Json.stringify_head value
  have htrim : trim (Json.stringify value) ≠ [] :=
    trim_ne_nil (c := c) (by simp [heq]) (isWhitespace_visible hc hc')
  unfold parseJournalLine
  rw [if_neg (by simpa using htrim), Json.parse_stringify value h]

variable {records : List RunJournalRecord}

theorem parseJournalLines_records (h : ∀ r ∈ records, r.event.WellFormed) (line : Nat) :
    parseJournalLines line ((records.map fun r => r.toJson.canonical).map Json.stringify) =
      ([], numbered line records) := by
  induction records generalizing line with
  | nil => rfl
  | cons r records ih =>
    have hr : r.toJson.canonical.WellFormed :=
      Json.wellFormed_canonical _ (wellFormed_toJson (h r (by simp)))
    rw [List.map_cons, List.map_cons, parseJournalLines, parseJournalLine_stringify hr,
      ih (fun r' hr' => h r' (by simp [hr']))]
    rfl

/-! ## The loop -/

theorem agrees_initial (findings : List Finding) (sessionId : String) :
    Agrees (InspectState.initial findings) (emptyJournal sessionId genesisHash 0) := by
  refine ⟨rfl, rfl, rfl, rfl, rfl, rfl, ?_, ?_, ?_⟩
  · simp [InspectState.initial]
  · show isValidHashShape genesisHash = true
    decide +kernel
  · simp [emptyJournal]

/-- The loop over the lines of a chain keeps its records and agrees with its journal. -/
theorem foldl_numbered {hashFn : HashFn} {sessionId : String} {j : RunJournal}
    (h : Chain hashFn sessionId records j) (hid : Identifier sessionId) (findings : List Finding)
    (line : Nat) :
    let s := (numbered line records).foldl (fun s (line, value) => inspectLine hashFn s line value)
      (InspectState.initial findings)
    s.findings = findings ∧ s.validRecords = records.map RunJournalRecord.canonical ∧ Agrees s j := by
  induction h with
  | nil => exact ⟨rfl, rfl, agrees_initial findings sessionId⟩
  | @snoc records j r h hfits hwf hroom ih =>
    obtain ⟨hfindings, hrecords, hagrees⟩ := ih
    have hfacts := h.facts
    have hseq : r.seq ≤ maxSafeInteger := by
      have hlength := hfacts.length_le
      rw [hfits.seq_eq, hfacts.nextSeq_eq]
      unfold maxArrayLength at hlength
      unfold maxSafeInteger
      omega
    have hnumbered : numbered line (records ++ [r]) =
        numbered line records ++ [(line + records.length, r.toJson.canonical)] := by
      unfold numbered
      simp [List.zipIdx_append]
    have hjid : Identifier j.sessionId := by
      rw [hfacts.sessionId_eq]
      exact hid
    obtain ⟨hf, hv, ha⟩ :=
      inspectLine_canonical hagrees hfits hwf hseq hjid (line + records.length)
    simp only [hnumbered, List.foldl_append, List.foldl_cons, List.foldl_nil]
    refine ⟨hf.trans hfindings, ?_, ha⟩
    rw [hv, hrecords, List.map_append]
    rfl

/-- The inspection of the lines of a chain and of a fragment after them. -/
theorem inspectRunJournal_chain {hashFn : HashFn} {sessionId : String} {j : RunJournal}
    (h : Chain hashFn sessionId records j) (hid : Identifier sessionId) {fragment : List UInt8}
    (hfragment : (0x0a : UInt8) ∉ fragment) :
    inspectRunJournal (journalBytes records ++ fragment) hashFn = .ok
      { byteCount := (journalBytes records).length
        lineCount := records.length
        trailingByteCount := fragment.length
        records := records.map RunJournalRecord.canonical
        openRunId := j.openRun
        findings := findingIf (0 < fragment.length) { code := .trailingFragment } ++
          openFindings j.openRun } := by
  have hfacts := h.facts
  have hpref := completePrefix_append (journalBytes_complete records) hfragment
  have htrailing : (journalBytes records ++ fragment).length - (journalBytes records).length =
      fragment.length := by simp
  unfold inspectRunJournal
  simp only [hpref, htrailing]
  cases records with
  | nil =>
    have hempty : (journalBytes []).isEmpty = true := rfl
    rw [if_pos hempty, hfacts.openRun_eq]
    simp [inspectLines, parseJournalLines, InspectState.initial, openFindings, journalBytes,
      recordLines]
  | cons r records =>
    have hne : (journalBytes (r :: records)).isEmpty = false := by
      obtain ⟨text, htext⟩ := recordLines_cons r records
      unfold journalBytes
      rw [htext]
      rfl
    have hlength : (((r :: records).map fun r => r.toJson.canonical).map Json.stringify).length ≤
        maxArrayLength := by
      simpa using hfacts.length_le
    rw [hne, decodeFatal_journalBytes]
    simp only [Bool.false_eq_true, if_false, journalLines_recordLines, if_pos hlength]
    unfold inspectLines
    rw [parseJournalLines_records hfacts.event]
    obtain ⟨hf, hv, ha⟩ := foldl_numbered h hid
      (findingIf (0 < fragment.length) { code := .trailingFragment }) 1
    simp only [List.append_nil]
    rw [hf, hv, ha.openRun]
    simp

/-- Whatever successful operations made of a genesis journal, its bytes are inspected as the journal
itself: the same records, the same open run, and no finding but the one on that run. -/
theorem inspectRunJournal_toBytes {hashFn : HashFn} {j : RunJournal} (h : Written hashFn j) :
    ∃ report, inspectRunJournal j.toBytes hashFn = .ok report ∧
      report.records = j.records.map RunJournalRecord.canonical ∧
      report.records.map serializeRunJournalLine = j.records.map serializeRunJournalLine ∧
      report.openRunId = j.openRun ∧ report.findings = openFindings j.openRun := by
  obtain ⟨hid, hchain⟩ := h.chain
  have hinspect := inspectRunJournal_chain hchain hid (List.not_mem_nil (a := 0x0a))
  rw [List.append_nil, ← toBytes_eq] at hinspect
  refine ⟨_, hinspect, rfl, ?_, rfl, rfl⟩
  rw [List.map_map]
  exact List.map_congr_left fun r _ => line_canonical r

/-! ## A journal -/

/-- A hash function of the required shape. -/
def sampleHash : HashFn := fun _ => some genesisHash

def sampleInit : JournalInit where
  sessionId := "session-1"
  runId := "run-1"
  sessionRevision := .zero
  timestamp := "2026-01-01T00:00:00.000Z"

theorem eq_ok_of_isOk {α : Type} {x : Result α} (h : x.isOk = true) (default : α) :
    x = .ok (x.toOption.getD default) := by
  cases x with
  | error e => simp [Except.isOk, Except.toBool] at h
  | ok a => rfl

/-- A journal whose first run is open. -/
def sampleJournal : RunJournal :=
  (RunJournal.new sampleHash sampleInit).toOption.getD (emptyJournal "" "" 0)

theorem sampleJournal_eq : RunJournal.new sampleHash sampleInit = .ok sampleJournal :=
  eq_ok_of_isOk (by decide +kernel) _

def sampleAudit : AuditInput where
  event := .toolTimeout
  details := .obj [("toolName", .str "bash"), ("timeoutMs", number 10)]
  sessionRevision := .zero
  timestamp := "2026-01-01T00:00:01.000Z"

theorem wellFormed_sampleAudit : JournalOperation.WellFormed (.audit sampleAudit) := by
  refine ⟨by decide, ?_⟩
  rw [Json.wellFormedFields_iff]
  intro f hf
  rcases List.mem_cons.mp hf with rfl | hf
  · trivial
  · obtain rfl := List.mem_singleton.mp hf
    trivial

/-- The journal after an audit record. -/
def auditedJournal : RunJournal :=
  ((sampleJournal.audit sampleHash sampleAudit).toOption.map Prod.snd).getD sampleJournal

theorem written_auditedJournal : Written sampleHash auditedJournal := by
  have hok : (sampleJournal.audit sampleHash sampleAudit).isOk = true := by decide +kernel
  cases haudit : sampleJournal.audit sampleHash sampleAudit with
  | error e =>
    rw [haudit] at hok
    simp [Except.isOk, Except.toBool] at hok
  | ok result =>
    obtain ⟨record, j⟩ := result
    have hj : auditedJournal = j := by
      unfold auditedJournal
      rw [haudit]
      rfl
    rw [hj]
    exact .step (.genesis rfl rfl sampleJournal_eq) wellFormed_sampleAudit haudit

theorem inspectRunJournal_toBytes_auditedJournal :
    ∃ report, inspectRunJournal auditedJournal.toBytes sampleHash = .ok report ∧
      report.records = auditedJournal.records.map RunJournalRecord.canonical ∧
      report.records.map serializeRunJournalLine =
        auditedJournal.records.map serializeRunJournalLine ∧
      report.openRunId = auditedJournal.openRun ∧
      report.findings = openFindings auditedJournal.openRun :=
  inspectRunJournal_toBytes written_auditedJournal

end CodingAgent.Journal
