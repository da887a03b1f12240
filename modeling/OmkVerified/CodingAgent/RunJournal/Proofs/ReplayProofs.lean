import OmkVerified.CodingAgent.RunJournal.Store
import OmkVerified.CodingAgent.RunJournal.Proofs.AgreementProofs

/-!
# Replaying an accepted journal

A journal that the inspector has nothing to stop at is a sequence of records that fit one after the
other. The writer appends each of them again, unless it is an audit record with a run id of its own:
the writer takes the id of the open run, the inspector does not compare it.
-/

namespace CodingAgent.Journal

open Lib

/-! ## The writer appends a record that fits -/

variable {hashFn : HashFn} {j j' : RunJournal} {sessionId : String}

variable {r : RunJournalRecord} {records : List RunJournalRecord}

theorem run_replayOperation (h : Fits hashFn j r) (hnames : NamesOpenRun j.openRun r)
    (hroom : j.records.length < maxArrayLength) :
    (replayOperation r).run hashFn j = .ok (r, j.advance r) := by
  obtain ⟨⟨seq, event, runId, sessionId, revision, timestamp, prevHash⟩, hash⟩ := r
  have hseq := h.seq_eq
  have hprev := h.prevHash_eq
  have hsession := h.sessionId_eq
  have hhash := h.hash_eq
  have hevent := h.event
  simp only at hseq hprev hsession hhash
  subst hseq hprev hsession
  have hmoment : j.checkMoment (.ofNat revision) timestamp = .ok revision :=
    checkMoment_eq_ok.mpr
      ⟨Decimal.toNat?_ofNat revision, h.revision_safe, h.revision_le, h.timestamp⟩
  have happend : j.append hashFn (j.base event runId revision timestamp) =
      .ok (⟨j.base event runId revision timestamp, hash⟩,
        j.advance ⟨j.base event runId revision timestamp, hash⟩) :=
    append_eq_ok.mpr ⟨rfl, hhash, h.hash_shape, hroom, rfl⟩
  cases event with
  | runStarted =>
    obtain ⟨hopen, hnew⟩ := hevent
    have hid : assertOpenIdentifier (some (.str runId)) "runId" maxRunJournalIdLength = .ok () :=
      assertOpenIdentifier_eq_ok.mpr h.runId
    show j.start hashFn ⟨runId, .ofNat revision, timestamp⟩ = _
    unfold RunJournal.start
    rw [hid]
    simp only [ok_bind, hmoment]
    rw [(require_eq_ok (u := ())).mpr (by simpa using hopen), (require_eq_ok (u := ())).mpr (by simpa using hnew)]
    exact happend
  | terminal kind termination =>
    obtain ⟨hopen, hnew, hterm, hcoh, htime⟩ := hevent
    have hgoal : j.appendTerminal hashFn kind ⟨termination, .ofNat revision, timestamp⟩ =
        .ok (⟨j.base (.terminal kind termination) runId revision timestamp, hash⟩,
          j.advance ⟨j.base (.terminal kind termination) runId revision timestamp, hash⟩) := by
      unfold RunJournal.appendTerminal
      simp only at hopen hnew hterm htime
      rw [hopen]
      simp only [hmoment, ok_bind, hterm, (assertTerminalCoherentWithEvent_eq_ok (u := ())).mpr hcoh]
      rw [(require_eq_ok (u := ())).mpr (by simpa using htime), (require_eq_ok (u := ())).mpr (by simpa using hnew)]
      exact happend
    cases kind <;> exact hgoal
  | audit kind details =>
    have hid : runId = j.openRun.getD "none" := hnames
    subst hid
    show j.audit hashFn ⟨kind, details, .ofNat revision, timestamp⟩ = _
    unfold RunJournal.audit
    have hdetails : assertBoundedAuditDetails (some details) = .ok () := hevent
    simp only [hmoment, ok_bind, hdetails]
    exact happend

theorem wellFormed_replayOperation (h : r.event.WellFormed) : (replayOperation r).WellFormed := by
  unfold replayOperation
  cases hr : r.event with
  | runStarted => trivial
  | audit kind details =>
    rw [hr] at h
    exact h
  | terminal kind termination =>
    rw [hr] at h
    cases kind <;> exact h

/-- The replay of an audit record has the id of the open run. -/
theorem namesOpenRun_of_replay {replayed : RunJournalRecord} (hj : Named j)
    (hwf : r.event.WellFormed) (hrun : (replayOperation r).run hashFn j = .ok (replayed, j'))
    (hline : serializeRunJournalLine replayed = serializeRunJournalLine r) :
    NamesOpenRun j.openRun r := by
  obtain ⟨-, hnames, hwf', -, -⟩ := run_eq_ok hj (wellFormed_replayOperation hwf) hrun
  have hcanonical := Json.canonicalJson_inj (wellFormed_toJson hwf') (wellFormed_toJson hwf) hline
  have hget : ∀ key, (replayed.toJson.get? key).map Json.canonical =
      (r.toJson.get? key).map Json.canonical := by
    intro key
    rw [← Json.get?_canonical (wellFormed_toJson hwf'), hcanonical,
      Json.get?_canonical (wellFormed_toJson hwf)]
  have hid : replayed.runId = r.runId := by
    have := hget "runId"
    exact Json.str.inj (Option.some.inj this)
  have hkind : replayed.event.kind = r.event.kind := by
    have := hget "event"
    have htext : replayed.event.kind.text = r.event.kind.text := Json.str.inj (Option.some.inj this)
    exact Option.some.inj ((ofText?_eq_some.mpr htext).symm.trans (ofText?_eq_some.mpr rfl))
  unfold NamesOpenRun at hnames ⊢
  cases hr : r.event with
  | runStarted => trivial
  | terminal kind termination => trivial
  | audit kind details =>
    rw [hr] at hkind
    cases hr' : replayed.event with
    | runStarted =>
      rw [hr'] at hkind
      simp [Event.kind] at hkind
    | terminal kind' termination =>
      rw [hr'] at hkind
      simp [Event.kind] at hkind
    | audit kind' details' =>
      rw [hr'] at hnames
      exact hid.symm.trans hnames

/-! ## Records that fit one after the other -/

/-- The records continue the journal. -/
def Fitting (hashFn : HashFn) : RunJournal → List RunJournalRecord → Prop
  | _, [] => True
  | j, r :: records => Fits hashFn j r ∧ r.event.WellFormed ∧ Fitting hashFn (j.advance r) records

/-- Every audit record names the run that is open where it stands. -/
def NamesOpenRuns : (openRun : Option String) → List RunJournalRecord → Prop
  | _, [] => True
  | openRun, r :: records => NamesOpenRun openRun r ∧ NamesOpenRuns (openAfter openRun r) records

instance (openRun : Option String) (r : RunJournalRecord) : Decidable (NamesOpenRun openRun r) :=
  match h : r.event with
  | .runStarted => .isTrue (by simp [NamesOpenRun, h])
  | .terminal _ _ => .isTrue (by simp [NamesOpenRun, h])
  | .audit _ _ =>
    decidable_of_iff (r.runId = openRun.getD "none") (by simp [NamesOpenRun, h])

instance : (openRun : Option String) → (records : List RunJournalRecord) →
    Decidable (NamesOpenRuns openRun records)
  | _, [] => .isTrue trivial
  | openRun, r :: records =>
    have := instDecidableNamesOpenRuns (openAfter openRun r) records
    inferInstanceAs (Decidable (NamesOpenRun openRun r ∧ _))

/-- The journal after the records. -/
def advanceAll (j : RunJournal) (records : List RunJournalRecord) : RunJournal :=
  records.foldl RunJournal.advance j

theorem advanceAll_records (j : RunJournal) (records : List RunJournalRecord) :
    (advanceAll j records).records = j.records ++ records := by
  induction records generalizing j with
  | nil => simp [advanceAll]
  | cons r records ih =>
    show (advanceAll (j.advance r) records).records = _
    rw [ih]
    show j.records ++ [r] ++ records = _
    rw [List.append_assoc]
    rfl

theorem advanceAll_openRun (j : RunJournal) (records : List RunJournalRecord) :
    (advanceAll j records).openRun = records.foldl openAfter j.openRun := by
  induction records generalizing j with
  | nil => rfl
  | cons r records ih =>
    show (advanceAll (j.advance r) records).openRun = _
    rw [ih, advance_openRun]
    rfl

/-- The writer replays the records exactly when each audit record names the open run. -/
theorem replayFrom_eq_ok (h : Fitting hashFn j records) (hj : Named j)
    (hroom : j.records.length + records.length ≤ maxArrayLength) :
    replayFrom hashFn j records = .ok j' ↔
      NamesOpenRuns j.openRun records ∧ j' = advanceAll j records := by
  induction records generalizing j with
  | nil =>
    show Except.ok j = Except.ok j' ↔ True ∧ j' = j
    rw [Except.ok.injEq, true_and, eq_comm]
  | cons r records ih =>
    obtain ⟨hfits, hwf, h⟩ := h
    rw [List.length_cons] at hroom
    have hlength : (j.advance r).records.length = j.records.length + 1 := by
      show (j.records ++ [r]).length = _
      rw [List.length_append, List.length_singleton]
    have ih' := ih h (hj.advance hfits) (by rw [hlength]; omega)
    rw [advance_openRun] at ih'
    have hstep : NamesOpenRun j.openRun r → replayFrom hashFn j (r :: records) =
        replayFrom hashFn (j.advance r) records := by
      intro hnames
      rw [replayFrom, run_replayOperation hfits hnames (by omega)]
      simp only [ok_bind]
      rw [(require_eq_ok (u := ())).mpr (by simp)]
      rfl
    constructor
    · intro hreplay
      have hreplay' := hreplay
      rw [replayFrom, bind_eq_ok] at hreplay'
      obtain ⟨⟨replayed, j₁⟩, hrun, hrest⟩ := hreplay'
      obtain ⟨_, hline, -⟩ := bind_eq_ok.mp hrest
      have hnames := namesOpenRun_of_replay hj hwf hrun (by simpa using hline)
      rw [hstep hnames, ih'] at hreplay
      exact ⟨⟨hnames, hreplay.1⟩, hreplay.2⟩
    · rintro ⟨⟨hnames, hrest⟩, hj'⟩
      rw [hstep hnames, ih']
      exact ⟨hrest, hj'⟩

/-- A replay of records starts at the empty journal. -/
theorem replayRecords_iff {journal : RunJournal} :
    replayRecords hashFn records sessionId = .ok journal ↔ Identifier sessionId ∧
      replayFrom hashFn (emptyJournal sessionId genesisHash 0) records = .ok journal := by
  have hgenesis : isValidHashShape genesisHash = true := by decide +kernel
  have hseq : assertSafeInteger (some (.num (Option.getD none Decimal.zero))) "seq" = .ok 0 := rfl
  have hreplayId : Identifier "replay" :=
    ⟨by decide, by decide +kernel, by decide +kernel, by decide +kernel⟩
  unfold replayRecords RunJournal.new
  simp only [bind_eq_ok, assertOpenIdentifier_eq_ok, require_eq_ok, pure_eq_ok, if_true,
    Option.getD_none, Except.ok.injEq]
  constructor
  · rintro ⟨j, ⟨_, hid, seq, hseq', _, -, _, -, rfl⟩, hreplay⟩
    obtain rfl : 0 = seq := Except.ok.inj (hseq.symm.trans hseq')
    exact ⟨hid, hreplay⟩
  · rintro ⟨hid, hreplay⟩
    exact ⟨_, ⟨(), hid, 0, hseq, (), hgenesis, (), hreplayId, rfl⟩, hreplay⟩

/-- `replayRecords` from the genesis journal. -/
theorem replayRecords_eq_ok {journal : RunJournal}
    (h : Fitting hashFn (emptyJournal sessionId genesisHash 0) records)
    (hroom : records.length ≤ maxArrayLength) :
    replayRecords hashFn records sessionId = .ok journal ↔
      Identifier sessionId ∧ NamesOpenRuns none records ∧
        journal = advanceAll (emptyJournal sessionId genesisHash 0) records := by
  rw [replayRecords_iff]
  refine and_congr_right fun hid => ?_
  have hnamed : Named (emptyJournal sessionId genesisHash 0) := ⟨hid, by simp [emptyJournal]⟩
  rw [replayFrom_eq_ok h hnamed (by simpa [emptyJournal] using hroom)]
  rfl

/-! ## Accepted bytes -/

theorem parseJournalLines_wellFormed (line : Nat) (lines : List (List Char)) :
    (∀ p ∈ (parseJournalLines line lines).2, p.2.WellFormed) ∧
      (parseJournalLines line lines).2.length ≤ lines.length ∧
      ∀ f ∈ (parseJournalLines line lines).1, isHardFinding f = true := by
  induction lines generalizing line with
  | nil => exact ⟨by simp [parseJournalLines], le_rfl, by simp [parseJournalLines]⟩
  | cons text lines ih =>
    obtain ⟨hwf, hlength, hhard⟩ := ih (line + 1)
    have hmalformed : isHardFinding { code := .malformedJson, line := some line } = true := rfl
    have hcons : ∀ f ∈ ({ code := .malformedJson, line := some line } : Finding) ::
        (parseJournalLines (line + 1) lines).1, isHardFinding f = true := by
      intro f hf
      rcases List.mem_cons.mp hf with rfl | hf
      · exact hmalformed
      · exact hhard f hf
    unfold parseJournalLines parseJournalLine
    dsimp only
    split_ifs with htrim
    · exact ⟨hwf, by simpa using Nat.le_succ_of_le hlength, hcons⟩
    · cases hparse : Json.parse text with
      | none => exact ⟨hwf, by simpa using Nat.le_succ_of_le hlength, hcons⟩
      | some value =>
        refine ⟨?_, by simpa using hlength, hhard⟩
        intro p hp
        rcases List.mem_cons.mp hp with rfl | hp
        · exact Json.wellFormed_of_parse hparse
        · exact hwf p hp

/-- The loop over the parsed lines. -/
def inspectAll (hashFn : HashFn) (s : InspectState) (parsed : List (Nat × Json)) : InspectState :=
  parsed.foldl (fun s (line, value) => inspectLine hashFn s line value) s

theorem inspectAll_findings (hashFn : HashFn) (s : InspectState) (parsed : List (Nat × Json)) :
    ∃ added, (inspectAll hashFn s parsed).findings = s.findings ++ added ∧
      ∀ f ∈ added, isHardFinding f = true := by
  induction parsed generalizing s with
  | nil => exact ⟨[], by simp [inspectAll]⟩
  | cons p parsed ih =>
    obtain ⟨line, value⟩ := p
    obtain ⟨first, hfirst, hhard⟩ := inspectLine_findings hashFn s line value
    obtain ⟨rest, hrest, hhard'⟩ := ih (inspectLine hashFn s line value)
    refine ⟨first ++ rest, ?_, ?_⟩
    · show (inspectAll hashFn (inspectLine hashFn s line value) parsed).findings = _
      rw [hrest, hfirst, List.append_assoc]
    · intro f hf
      rcases List.mem_append.mp hf with hf | hf
      · exact hhard f hf
      · exact hhard' f hf

theorem inspectAll_validRecords (hashFn : HashFn) (s : InspectState) (parsed : List (Nat × Json)) :
    s.validRecords <+: (inspectAll hashFn s parsed).validRecords := by
  induction parsed generalizing s with
  | nil => exact List.prefix_refl _
  | cons p parsed ih =>
    obtain ⟨line, value⟩ := p
    refine List.IsPrefix.trans ?_ (ih (inspectLine hashFn s line value))
    unfold inspectLine
    dsimp only
    split
    · exact List.prefix_refl _
    · split
      · exact List.prefix_refl _
      · split_ifs
        · exact List.prefix_refl _
        · exact List.prefix_refl _
        · exact List.prefix_append _ _

/-- Lines without a finding are records that fit. -/
theorem fitting_of_inspectAll {s : InspectState} {parsed : List (Nat × Json)} (h : Agrees s j)
    (hwf : ∀ p ∈ parsed, p.2.WellFormed) (hno : (inspectAll hashFn s parsed).findings = s.findings)
    (hsession : ∀ r ∈ (inspectAll hashFn s parsed).validRecords, r.sessionId = j.sessionId) :
    ∃ records, (inspectAll hashFn s parsed).validRecords = s.validRecords ++ records ∧
      records.length = parsed.length ∧ Fitting hashFn j records ∧
      (∀ r ∈ records, Identifier r.sessionId) ∧
      Agrees (inspectAll hashFn s parsed) (advanceAll j records) := by
  induction parsed generalizing s j with
  | nil => exact ⟨[], by simp [inspectAll], rfl, trivial, by simp, h⟩
  | cons p parsed ih =>
    obtain ⟨line, value⟩ := p
    obtain ⟨first, hfirst, -⟩ := inspectLine_findings hashFn s line value
    obtain ⟨rest, hrest, -⟩ := inspectAll_findings hashFn (inspectLine hashFn s line value) parsed
    have hstep : inspectAll hashFn s ((line, value) :: parsed) =
        inspectAll hashFn (inspectLine hashFn s line value) parsed := rfl
    rw [hstep] at hno hsession ⊢
    have hnil : first ++ rest = [] := by
      rw [hrest, hfirst, List.append_assoc] at hno
      simpa using hno
    obtain ⟨rfl, rfl⟩ := List.append_eq_nil_iff.mp hnil
    rw [List.append_nil] at hfirst hrest
    obtain ⟨r, hvalid, hevent, hid, hfits⟩ := fits_of_inspectLine h (hwf (line, value) (by simp)) hfirst
    have hmem : r ∈ (inspectAll hashFn (inspectLine hashFn s line value) parsed).validRecords := by
      refine (inspectAll_validRecords hashFn _ parsed).subset ?_
      rw [hvalid]
      simp
    obtain ⟨hfit, hagrees⟩ := hfits (hsession r hmem)
    obtain ⟨records, hrecords, hlength, hfitting, hids, hfinal⟩ :=
      ih hagrees (fun p hp => hwf p (by simp [hp])) hrest hsession
    refine ⟨r :: records, ?_, by simp [hlength], ⟨hfit, hevent, hfitting⟩, ?_, hfinal⟩
    · rw [hrecords, hvalid, List.append_assoc]
      rfl
    · intro r' hr'
      rcases List.mem_cons.mp hr' with rfl | hr'
      · exact hid
      · exact hids r' hr'

/-- What acceptance says about the report. -/
structure Accepted (hashFn : HashFn) (sessionId : String) (report : Report) : Prop where
  fitting : Fitting hashFn (emptyJournal sessionId genesisHash 0) report.records
  length_le : report.records.length ≤ maxArrayLength
  identifiers : ∀ r ∈ report.records, Identifier r.sessionId
  sessionIds : ∀ r ∈ report.records, r.sessionId = sessionId
  openRun : report.openRunId = report.records.foldl openAfter none

theorem accepted_inspectLines {byteCount trailing : Nat} {findings : List Finding}
    {lines : List (List Char)} (hlines : lines.length ≤ maxArrayLength)
    (hhard : ((inspectLines hashFn byteCount trailing findings lines).findings.filter
      isHardFinding) = [])
    (hsession : ∀ r ∈ (inspectLines hashFn byteCount trailing findings lines).records,
      r.sessionId = sessionId) :
    Accepted hashFn sessionId (inspectLines hashFn byteCount trailing findings lines) := by
  obtain ⟨hwf, hlength, -⟩ := parseJournalLines_wellFormed 1 lines
  set malformed := (parseJournalLines 1 lines).1
  set parsed := (parseJournalLines 1 lines).2
  set s := inspectAll hashFn (InspectState.initial (findings ++ malformed)) parsed with hs
  have hrecords : (inspectLines hashFn byteCount trailing findings lines).records =
    s.validRecords := rfl
  have hopen : (inspectLines hashFn byteCount trailing findings lines).openRunId = s.openRun := rfl
  have hfindings : (inspectLines hashFn byteCount trailing findings lines).findings =
    s.findings ++ openFindings s.openRun := rfl
  obtain ⟨added, hadded, hall⟩ :=
    inspectAll_findings hashFn (InspectState.initial (findings ++ malformed)) parsed
  have hnone : added = [] := by
    rw [hfindings, hs, hadded, List.filter_append, List.filter_append] at hhard
    have := (List.append_eq_nil_iff.mp (List.append_eq_nil_iff.mp hhard).1).2
    rwa [List.filter_eq_self.mpr hall] at this
  rw [hnone, List.append_nil] at hadded
  rw [hrecords] at hsession
  obtain ⟨records, hvalid, hlen, hfitting, hids, hagrees⟩ :=
    fitting_of_inspectAll (agrees_initial (findings ++ malformed) sessionId) hwf hadded hsession
  have hall' : s.validRecords = records := hvalid
  refine ⟨?_, ?_, ?_, ?_, ?_⟩
  · rw [hrecords, hall']
    exact hfitting
  · rw [hrecords, hall', hlen]
    exact hlength.trans hlines
  · rw [hrecords, hall']
    exact hids
  · rw [hrecords]
    exact hsession
  · rw [hopen, hrecords, hall', hagrees.openRun, advanceAll_openRun]
    rfl

/-- Acceptance by `open`. -/
theorem accepted_of_acceptJournal {bytes : List UInt8} {report : Report}
    (h : acceptJournal hashFn sessionId bytes = .ok report) : Accepted hashFn sessionId report := by
  unfold acceptJournal rejectFindings at h
  simp only [bind_eq_ok, require_eq_ok, pure_eq_ok, Except.ok.injEq] at h
  obtain ⟨inspected, hinspect, _, hhard, _, hsession, heq⟩ := h
  subst heq
  have hhard' : inspected.findings.filter isHardFinding = [] := List.isEmpty_iff.mp hhard
  have hsession' : ∀ r ∈ inspected.records, r.sessionId = sessionId := by
    intro r hr
    simpa using List.all_eq_true.mp hsession r hr
  unfold inspectRunJournal at hinspect
  dsimp only at hinspect
  split_ifs at hinspect with hempty
  · obtain rfl := Except.ok.inj hinspect
    exact accepted_inspectLines (by simp) hhard' hsession'
  · split at hinspect
    · obtain rfl := Except.ok.inj hinspect
      exact accepted_inspectLines (by simp) hhard' hsession'
    · split_ifs at hinspect with hlength
      · obtain rfl := Except.ok.inj hinspect
        exact accepted_inspectLines hlength hhard' hsession'
      · exact absurd hinspect (raise_ne_ok _ _)

/-- The writer replays the records of an accepted journal to the same records and the same open run
exactly when every audit record names the run that is open where it stands, or `none` where no run
is, and the session id of a journal without records is one that the writer takes. -/
theorem replayRecords_accepted_iff {hashFn : HashFn} {sessionId : String} {bytes : List UInt8}
    {report : Report} (h : acceptJournal hashFn sessionId bytes = .ok report) :
    (∃ journal, replayRecords hashFn report.records sessionId = .ok journal ∧
        journal.records = report.records ∧ journal.openRun = report.openRunId) ↔
      NamesOpenRuns none report.records ∧ (report.records = [] → Identifier sessionId) := by
  have haccepted := accepted_of_acceptJournal h
  constructor
  · rintro ⟨journal, hreplay, -⟩
    rw [replayRecords_eq_ok haccepted.fitting haccepted.length_le] at hreplay
    exact ⟨hreplay.2.1, fun _ => hreplay.1⟩
  · rintro ⟨hnames, hempty⟩
    have hid : Identifier sessionId := by
      cases hrecords : report.records with
      | nil => exact hempty hrecords
      | cons r records =>
        have hmem : r ∈ report.records := by simp [hrecords]
        rw [← haccepted.sessionIds r hmem]
        exact haccepted.identifiers r hmem
    refine ⟨advanceAll (emptyJournal sessionId genesisHash 0) report.records, ?_, ?_, ?_⟩
    · rw [replayRecords_eq_ok haccepted.fitting haccepted.length_le]
      exact ⟨hid, hnames, rfl⟩
    · rw [advanceAll_records]
      rfl
    · rw [advanceAll_openRun, haccepted.openRun]
      rfl

/-- An audit record that names a run although none is open. -/
def strayAudit : RunJournalRecord where
  seq := 0
  event := .audit .toolTimeout (.obj [])
  runId := "run-1"
  sessionId := "session-1"
  sessionRevision := 0
  timestamp := "2026-01-01T00:00:00.000Z"
  prevHash := genesisHash
  hash := genesisHash

theorem not_ok_of_isOk {α : Type} {x : Result α} (h : x.isOk = false) : ¬ ∃ a, x = .ok a := by
  rintro ⟨a, rfl⟩
  simp [Except.isOk, Except.toBool] at h

/-- The inspection of the line of this record. -/
def strayReport : Report :=
  (acceptJournal sampleHash "session-1" (lineBytes strayAudit)).toOption.getD ⟨0, 0, 0, [], none, []⟩

/-- The store accepts the line of this record, and its replay throws. -/
theorem replayRecords_strayAudit :
    acceptJournal sampleHash "session-1" (lineBytes strayAudit) = .ok strayReport ∧
      ¬ ∃ journal, replayRecords sampleHash strayReport.records "session-1" = .ok journal :=
  ⟨eq_ok_of_isOk (by decide +kernel) _, not_ok_of_isOk (by decide +kernel)⟩

/-- The inspection of a journal with an open run and an audit record of it. -/
def auditedReport : Report :=
  (acceptJournal sampleHash "session-1" auditedJournal.toBytes).toOption.getD ⟨0, 0, 0, [], none, []⟩

theorem replayRecords_accepted_auditedJournal :
    acceptJournal sampleHash "session-1" auditedJournal.toBytes = .ok auditedReport ∧
      ∃ journal, replayRecords sampleHash auditedReport.records "session-1" = .ok journal ∧
        journal.records = auditedReport.records ∧ journal.openRun = auditedReport.openRunId := by
  have haccept : acceptJournal sampleHash "session-1" auditedJournal.toBytes = .ok auditedReport :=
    eq_ok_of_isOk (by decide +kernel) _
  have hid : Identifier "session-1" :=
    ⟨by decide, by decide +kernel, by decide +kernel, by decide +kernel⟩
  exact ⟨haccept, (replayRecords_accepted_iff haccept).mpr ⟨by decide +kernel, fun _ => hid⟩⟩

end CodingAgent.Journal
