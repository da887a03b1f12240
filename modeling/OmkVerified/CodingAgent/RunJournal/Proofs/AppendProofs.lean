import OmkVerified.CodingAgent.RunJournal.Proofs.RecoveryProofs

/-!
# Appending to an accepted journal

A line that the replayed writer produces is inspected in the state that the lines before it left, so that it adds its
record and no finding. The lines before it stay what they were, unless the file is a lone line feed: that has no lines,
and with a line after it it begins with a blank one.
-/

namespace CodingAgent.Journal

open Lib

variable {hashFn : HashFn} {sessionId : String} {bytes : List UInt8} {report : Report} {lines : List (List Char)}
  {records : List RunJournalRecord} {r : RunJournalRecord} {j j' : RunJournal}

/-- The inspection has no finding but the one on an open run. -/
def Report.Clean (report : Report) : Prop := ∀ f ∈ report.findings, f.code = .runUnclosed

/-! ## The session of the records -/

theorem inspectLine_wellFormed {s : InspectState} {line : Nat} {value : Json} (hwf : value.WellFormed)
    (h : ∀ r ∈ s.validRecords, r.event.WellFormed) :
    ∀ r ∈ (inspectLine hashFn s line value).validRecords, r.event.WellFormed := by
  unfold inspectLine
  split
  · exact h
  · next common hcommon =>
    split
    · exact h
    · next event hprobe =>
      obtain ⟨-, hterm, haudit⟩ := probeEvent_eq_ok hprobe
      have hevent : event.WellFormed := by
        cases event with
        | runStarted => trivial
        | terminal kind termination => exact wellFormed_of_get? hwf (hterm _ _ rfl).1
        | audit kind details => exact wellFormed_of_get? hwf (haudit _ _ rfl).1
      dsimp only
      split_ifs
      · exact h
      · exact h
      · intro r hr
        rcases List.mem_append.mp hr with hr | hr
        · exact h r hr
        · exact List.mem_singleton.mp hr ▸ hevent

theorem inspectAll_wellFormed {s : InspectState} {parsed : List (Nat × Json)} (hwf : ∀ p ∈ parsed, p.2.WellFormed)
    (h : ∀ r ∈ s.validRecords, r.event.WellFormed) :
    ∀ r ∈ (inspectAll hashFn s parsed).validRecords, r.event.WellFormed := by
  induction parsed generalizing s with
  | nil => exact h
  | cons p parsed ih =>
    obtain ⟨hp, hrest⟩ := List.forall_mem_cons.mp hwf
    exact ih hrest (inspectLine_wellFormed hp h)

/-- A record that is written again is of the writer's session. -/
theorem sessionId_of_replay {replayed : RunJournalRecord} (hj : Named j) (hwf : r.event.WellFormed)
    (hrun : (replayOperation r).run hashFn j = .ok (replayed, j'))
    (hline : serializeRunJournalLine replayed = serializeRunJournalLine r) : r.sessionId = j.sessionId := by
  obtain ⟨hfits, -, hwf', -, -⟩ := run_eq_ok hj (wellFormed_replayOperation hwf) hrun
  have hcanonical := Json.canonicalJson_inj (wellFormed_toJson hwf') (wellFormed_toJson hwf) hline
  have hget : (replayed.toJson.get? "sessionId").map Json.canonical = (r.toJson.get? "sessionId").map Json.canonical := by
    rw [← Json.get?_canonical (wellFormed_toJson hwf'), hcanonical, Json.get?_canonical (wellFormed_toJson hwf)]
  have hsame : replayed.sessionId = r.sessionId := Json.str.inj (Option.some.inj hget)
  rw [← hsame, hfits.sessionId_eq]

theorem sessionIds_of_replay (hj : Named j) (hwf : ∀ r ∈ records, r.event.WellFormed)
    (h : replayFrom hashFn j records = .ok j') : ∀ r ∈ records, r.sessionId = j.sessionId := by
  induction records generalizing j with
  | nil =>
    intro r hr
    cases hr
  | cons first records ih =>
    obtain ⟨hfirst, hrest⟩ := List.forall_mem_cons.mp hwf
    rw [replayFrom, bind_eq_ok] at h
    obtain ⟨⟨replayed, next⟩, hrun, h⟩ := h
    obtain ⟨_, hline, h⟩ := bind_eq_ok.mp h
    have hsession := sessionId_of_replay hj hfirst hrun (by simpa using hline)
    obtain ⟨hfits, -, -, -, rfl⟩ := run_eq_ok hj (wellFormed_replayOperation hfirst) hrun
    have hsessions := ih (hj.advance hfits) hrest h
    exact List.forall_mem_cons.mpr ⟨hsession, hsessions⟩

/-! ## The lines -/

theorem parseJournalLines_concat {text : List Char} {value : Json}
    (hparse : ∀ line, parseJournalLine line text = .ok (line, value)) (line : Nat) :
    parseJournalLines line (lines ++ [text]) =
      ((parseJournalLines line lines).1, (parseJournalLines line lines).2 ++ [(line + lines.length, value)]) := by
  induction lines generalizing line with
  | nil =>
    simp only [List.nil_append, parseJournalLines, hparse, List.length_nil, Nat.add_zero]
  | cons first lines ih =>
    rw [List.cons_append, parseJournalLines, ih, parseJournalLines]
    have hnumber : line + 1 + lines.length = line + (first :: lines).length := by
      rw [List.length_cons]
      omega
    rw [hnumber]
    cases parseJournalLine line first <;> rfl

theorem parseJournalLines_length {line : Nat} (h : (parseJournalLines line lines).1 = []) :
    (parseJournalLines line lines).2.length = lines.length := by
  induction lines generalizing line with
  | nil => rfl
  | cons text lines ih =>
    rw [parseJournalLines] at h ⊢
    cases hparse : parseJournalLine line text with
    | error finding =>
      rw [hparse] at h
      cases h
    | ok value =>
      rw [hparse] at h
      exact congrArg (· + 1) (ih h)

theorem records_inspectLines {byteCount : Nat} (h : (parseJournalLines 1 lines).1 = []) :
    (inspectLines hashFn byteCount 0 [] lines).records =
      (inspectAll hashFn (InspectState.initial []) (parseJournalLines 1 lines).2).validRecords := by
  show (inspectAll hashFn (InspectState.initial ([] ++ (parseJournalLines 1 lines).1)) _).validRecords = _
  rw [h, List.append_nil]

theorem inspectLines_clean_iff {byteCount : Nat} :
    (inspectLines hashFn byteCount 0 [] lines).Clean ↔
      (parseJournalLines 1 lines).1 = [] ∧
        (inspectAll hashFn (InspectState.initial []) (parseJournalLines 1 lines).2).findings = [] := by
  obtain ⟨-, -, hmalformed⟩ := parseJournalLines_wellFormed 1 lines
  set malformed := (parseJournalLines 1 lines).1 with hm
  set parsed := (parseJournalLines 1 lines).2 with hp
  have hfindings : (inspectLines hashFn byteCount 0 [] lines).findings =
      (inspectAll hashFn (InspectState.initial malformed) parsed).findings ++
        openFindings (inspectAll hashFn (InspectState.initial malformed) parsed).openRun := rfl
  obtain ⟨added, hadded, hhard⟩ := inspectAll_findings hashFn (InspectState.initial malformed) parsed
  have hinitial : (InspectState.initial malformed).findings = malformed := rfl
  rw [hinitial] at hadded
  have hsoft : ∀ f : Finding, isHardFinding f = true → f.code ≠ .runUnclosed := by
    intro f hf hcode
    rw [isHardFinding, hcode] at hf
    cases hf
  unfold Report.Clean
  rw [hfindings, hadded]
  constructor
  · intro hclean
    have hnone : malformed ++ added = [] := by
      rw [List.eq_nil_iff_forall_not_mem]
      intro f hf
      refine hsoft f ?_ (hclean f (List.mem_append_left _ hf))
      rcases List.mem_append.mp hf with hf | hf
      · exact hmalformed f hf
      · exact hhard f hf
    obtain ⟨hnil, hnil'⟩ := List.append_eq_nil_iff.mp hnone
    rw [hnil, hnil', List.append_nil] at hadded
    exact ⟨hnil, hadded⟩
  · rintro ⟨hnil, hno⟩ f hf
    rw [hnil] at hadded hf
    rw [hno] at hadded
    rw [← hadded, List.nil_append] at hf
    unfold openFindings at hf
    split at hf
    · rw [List.mem_singleton.mp hf]
    · cases hf

/-- One line more, which the writer that replayed the records produced. -/
theorem inspectLines_append {op : JournalOperation} {journal next : RunJournal} {record : RunJournalRecord}
    {byteCount : Nat} (byteCount' : Nat) (hlines : lines.length ≤ maxArrayLength)
    (hclean : (inspectLines hashFn byteCount 0 [] lines).Clean)
    (hreplay : replayRecords hashFn (inspectLines hashFn byteCount 0 [] lines).records sessionId = .ok journal)
    (hop : op.WellFormed) (hrun : op.run hashFn journal = .ok (record, next)) :
    lines.length < maxArrayLength ∧
      (inspectLines hashFn byteCount' 0 [] (lines ++ [serializeRunJournalLine record])).Clean ∧
      (inspectLines hashFn byteCount' 0 [] (lines ++ [serializeRunJournalLine record])).records =
        (inspectLines hashFn byteCount 0 [] lines).records ++ [record.canonical] := by
  obtain ⟨hwf, hparsed, -⟩ := parseJournalLines_wellFormed 1 lines
  obtain ⟨hmalformed, hno⟩ := inspectLines_clean_iff.mp hclean
  set s := inspectAll hashFn (InspectState.initial []) (parseJournalLines 1 lines).2 with hs
  have hrecords : (inspectLines hashFn byteCount 0 [] lines).records = s.validRecords :=
    records_inspectLines hmalformed
  rw [hrecords] at hreplay ⊢
  obtain ⟨hid, hfrom⟩ := replayRecords_iff.mp hreplay
  have hnamed : Named (emptyJournal sessionId genesisHash 0) := ⟨hid, by simp [emptyJournal]⟩
  have hevents : ∀ r ∈ s.validRecords, r.event.WellFormed := inspectAll_wellFormed hwf (by simp [InspectState.initial])
  have hsession := sessionIds_of_replay hnamed hevents hfrom
  obtain ⟨records, hvalid, hlength, hfitting, -, hagrees⟩ :=
    fitting_of_inspectAll (agrees_initial [] sessionId) hwf hno hsession
  have hrecords' : s.validRecords = records := hvalid
  have hroom : records.length ≤ maxArrayLength := (hlength.trans_le hparsed).trans hlines
  rw [hrecords'] at hreplay
  obtain ⟨-, hnames, rfl⟩ := (replayRecords_eq_ok hfitting hroom).mp hreplay
  have hreplayable : Replayable hashFn sessionId records := ⟨hid, hfitting, hnames, hroom⟩
  have hchain := hreplayable.chain
  have hjournal : Named (journalOf sessionId records) := hchain.named hid
  obtain ⟨hfits, -, hevent, hspace, -⟩ := run_eq_ok hjournal hop hrun
  have hseq : record.seq ≤ maxSafeInteger := by
    rw [hfits.seq_eq, hchain.facts.nextSeq_eq]
    unfold maxArrayLength at hroom
    unfold maxSafeInteger
    omega
  -- the state after the lines is that of the journal, so the new line is one that the writer wrote
  obtain ⟨hfindings, hkept, -⟩ :=
    inspectLine_canonical hagrees hfits hevent hseq hjournal.sessionId (1 + lines.length)
  have hparse (line : Nat) : parseJournalLine line (serializeRunJournalLine record) =
      .ok (line, record.toJson.canonical) :=
    parseJournalLine_stringify (Json.wellFormed_canonical _ (wellFormed_toJson hevent)) line
  have hall : inspectAll hashFn (InspectState.initial [])
      (parseJournalLines 1 (lines ++ [serializeRunJournalLine record])).2 =
        inspectLine hashFn s (1 + lines.length) record.toJson.canonical := by
    rw [parseJournalLines_concat hparse, hs]
    exact List.foldl_concat _ _ _ _
  refine ⟨?_, inspectLines_clean_iff.mpr ⟨?_, ?_⟩, ?_⟩
  · rw [journalOf_records] at hspace
    have hcount : records.length = lines.length := by
      rw [hlength]
      exact parseJournalLines_length hmalformed
    omega
  · rw [parseJournalLines_concat hparse, hmalformed]
  · rw [hall, hfindings, hno]
  · rw [records_inspectLines (by rw [parseJournalLines_concat hparse, hmalformed]), hall, hkept]

/-! ## The bytes -/

/-- A text of one blank line, with or without a byte order mark. -/
def LoneLineFeed (bytes : List UInt8) : Prop := bytes = [0x0a] ∨ bytes = [0xef, 0xbb, 0xbf, 0x0a]

/-- The text of a complete journal: what is left of it without its byte order mark and its last line feed. -/
structure TextOf (bytes : List UInt8) (body : List Char) : Prop where
  encoded : ∃ mark, (mark = [] ∧ body.head? ≠ some '\uFEFF' ∨ mark = ['\uFEFF']) ∧
    bytes = Utf8.encode (mark ++ body ++ ['\n'])

theorem completePrefix_eq_self (h : completePrefix bytes = bytes) (hne : bytes ≠ []) : ∃ body, bytes = body ++ [0x0a] := by
  have hdrop : bytes.reverse.dropWhile (fun byte => decide (byte ≠ 0x0a)) = bytes.reverse := by
    rw [← List.reverse_inj]
    rw [List.reverse_reverse]
    exact h
  cases hreverse : bytes.reverse with
  | nil => exact absurd (List.reverse_eq_nil_iff.mp hreverse) hne
  | cons byte front =>
    rw [hreverse, List.dropWhile_cons] at hdrop
    split_ifs at hdrop with hbyte
    · have hlength := congrArg List.length hdrop
      have hle := (List.dropWhile_sublist (l := front) fun byte => decide (byte ≠ 0x0a)).length_le
      rw [List.length_cons] at hlength
      omega
    · rw [decide_eq_true_eq, Decidable.not_not] at hbyte
      refine ⟨front.reverse, ?_⟩
      rw [← List.reverse_reverse bytes, hreverse, List.reverse_cons, hbyte]

variable {full : List Char}

theorem encode_of_lineFeed {body : List UInt8} (h : Utf8.encode full = body ++ [0x0a]) :
    ∃ front, full = front ++ ['\n'] := by
  cases full using List.reverseRecOn with
  | nil => simp [Utf8.encode] at h
  | append_singleton front c =>
    have hlast := congrArg List.getLast? h
    have hchar : Utf8.encode [c] = String.utf8EncodeChar c := List.flatMap_singleton _ _
    have hne : String.utf8EncodeChar c ≠ [] := by
      obtain ⟨first, rest, hcons, -⟩ := Utf8.utf8EncodeChar_continuation c
      rw [hcons]
      exact List.cons_ne_nil first rest
    rw [Utf8.encode_append, hchar, List.getLast?_append_of_ne_nil _ hne, List.getLast?_concat,
      Utf8.getLast_encodeChar] at hlast
    exact ⟨front, by rw [hlast]⟩

theorem exists_textOf {body : List UInt8} (h : Utf8.encode full = body ++ [0x0a]) :
    ∃ text, TextOf (Utf8.encode full) text ∧ Utf8.dropBom false full = text ++ ['\n'] := by
  obtain ⟨front, rfl⟩ := encode_of_lineFeed h
  cases front with
  | nil => exact ⟨[], ⟨[], .inl ⟨rfl, by simp⟩, rfl⟩, rfl⟩
  | cons c front =>
    by_cases hc : c = '\uFEFF'
    · subst hc
      exact ⟨front, ⟨['\uFEFF'], .inr rfl, rfl⟩, rfl⟩
    · exact ⟨c :: front, ⟨[], .inl ⟨rfl, by simpa using hc⟩, rfl⟩, if_neg hc⟩

theorem TextOf.decode {body : List Char} (h : TextOf bytes body) : Utf8.decodeFatal bytes = some (body ++ ['\n']) := by
  obtain ⟨mark, hmark, rfl⟩ := h.encoded
  rw [Utf8.decodeFatal_encode]
  rcases hmark with ⟨rfl, hhead⟩ | rfl
  · cases body with
    | nil => rfl
    | cons c body =>
      have hc : c ≠ '\uFEFF' := by simpa using hhead
      exact congrArg some (if_neg hc)
  · rfl

/-- The inspection of a complete text. -/
theorem TextOf.inspect {body : List Char} (h : TextOf bytes body)
    (hroom : (journalLines (body ++ ['\n'])).length ≤ maxArrayLength) :
    inspectRunJournal bytes hashFn =
      .ok (inspectLines hashFn bytes.length 0 [] (journalLines (body ++ ['\n']))) := by
  have hdecode := h.decode
  obtain ⟨mark, -, rfl⟩ := h.encoded
  have hends : Utf8.encode (mark ++ body ++ ['\n']) = [] ∨
      ∃ front, Utf8.encode (mark ++ body ++ ['\n']) = front ++ [0x0a] :=
    .inr ⟨Utf8.encode (mark ++ body), Utf8.encode_append _ _⟩
  have hcomplete := completePrefix_append hends (List.not_mem_nil (a := 0x0a))
  have hne : (Utf8.encode (mark ++ body ++ ['\n'])).isEmpty = false := by
    rw [Utf8.encode_append, List.isEmpty_eq_false_iff]
    exact List.append_ne_nil_of_right_ne_nil _ (by decide)
  rw [List.append_nil] at hcomplete
  unfold inspectRunJournal
  dsimp only
  rw [hcomplete, hne, hdecode, Nat.sub_self]
  exact if_pos hroom

theorem TextOf.append {body line : List Char} (h : TextOf bytes body) :
    TextOf (bytes ++ Utf8.encode (line ++ ['\n'])) (body ++ '\n' :: line) := by
  obtain ⟨mark, hmark, rfl⟩ := h.encoded
  refine ⟨mark, ?_, ?_⟩
  · rcases hmark with ⟨rfl, hhead⟩ | rfl
    · refine .inl ⟨rfl, ?_⟩
      cases body with
      | nil => simp
      | cons c body => exact hhead
    · exact .inr rfl
  · rw [← Utf8.encode_append]
    simp

theorem TextOf.loneLineFeed_iff {body : List Char} (h : TextOf bytes body) : LoneLineFeed bytes ↔ body = [] := by
  obtain ⟨mark, hmark, rfl⟩ := h.encoded
  have hplain : [0x0a] = Utf8.encode ['\n'] := by decide
  have hmarked : [0xef, 0xbb, 0xbf, 0x0a] = Utf8.encode ['\uFEFF', '\n'] := by decide
  unfold LoneLineFeed
  rw [hmarked, hplain, Utf8.encode_injective.eq_iff, Utf8.encode_injective.eq_iff]
  rcases hmark with ⟨rfl, hhead⟩ | rfl
  · cases body with
    | nil => simp
    | cons c body =>
      have hc : c ≠ '\uFEFF' := by simpa using hhead
      simp [hc]
  · simp

theorem mem_inspectLines_findings {byteCount trailing : Nat} {findings : List Finding} {f : Finding} (h : f ∈ findings) :
    f ∈ (inspectLines hashFn byteCount trailing findings lines).findings := by
  obtain ⟨added, hadded, -⟩ := inspectAll_findings hashFn
    (InspectState.initial (findings ++ (parseJournalLines 1 lines).1)) (parseJournalLines 1 lines).2
  refine List.mem_append_left _ ?_
  show f ∈ (inspectAll hashFn (InspectState.initial (findings ++ (parseJournalLines 1 lines).1)) _).findings
  rw [hadded]
  exact List.mem_append_left _ (List.mem_append_left _ h)

theorem completePrefix_of_clean (h : inspectRunJournal bytes hashFn = .ok report) (hclean : report.Clean) :
    completePrefix bytes = bytes := by
  have hprefix : completePrefix bytes <+: bytes := by
    rw [← List.reverse_suffix, completePrefix, List.reverse_reverse]
    exact List.dropWhile_suffix _
  refine hprefix.eq_of_length_le (not_lt.mp fun hlt => ?_)
  have hfragment : ({ code := .trailingFragment } : Finding) ∈
      findingIf (0 < bytes.length - (completePrefix bytes).length) { code := .trailingFragment } := by
    rw [findingIf, if_pos (decide_eq_true (by omega))]
    exact List.mem_cons_self
  have hmem : ({ code := .trailingFragment } : Finding) ∈ report.findings := by
    unfold inspectRunJournal at h
    dsimp only at h
    split_ifs at h
    · rw [← Except.ok.inj h]
      exact mem_inspectLines_findings hfragment
    · split at h
      · rw [← Except.ok.inj h]
        exact mem_inspectLines_findings (List.mem_append_left _ hfragment)
      · split_ifs at h
        · rw [← Except.ok.inj h]
          exact mem_inspectLines_findings hfragment
        · cases h
  exact absurd (hclean _ hmem) (by decide)

/-- The bytes of a clean report are none, or a complete text. -/
theorem textOf_of_clean (h : inspectRunJournal bytes hashFn = .ok report) (hclean : report.Clean) :
    bytes = [] ∧ report = inspectLines hashFn 0 0 [] [] ∨
      ∃ body, TextOf bytes body ∧ (journalLines (body ++ ['\n'])).length ≤ maxArrayLength ∧
        report = inspectLines hashFn bytes.length 0 [] (journalLines (body ++ ['\n'])) := by
  have hcomplete := completePrefix_of_clean h hclean
  unfold inspectRunJournal at h
  dsimp only at h
  rw [hcomplete, Nat.sub_self] at h
  split_ifs at h with hempty
  · exact .inl ⟨List.isEmpty_iff.mp hempty, (Except.ok.inj h).symm⟩
  · split at h
    · have hmem : ({ code := .invalidUtf8 } : Finding) ∈ report.findings := by
        rw [← Except.ok.inj h]
        exact mem_inspectLines_findings (List.mem_append_right _ List.mem_cons_self)
      exact absurd (hclean _ hmem) (by decide)
    · next text hdecode =>
      split_ifs at h with hroom
      · obtain ⟨full, rfl, rfl⟩ := Utf8.decodeFatal_eq_some hdecode
        obtain ⟨front, hfront⟩ := completePrefix_eq_self hcomplete (by simpa using hempty)
        obtain ⟨body, htext, hdrop⟩ := exists_textOf hfront
        rw [hdrop] at h hroom
        exact .inr ⟨body, htext, hroom, (Except.ok.inj h).symm⟩
      · cases h

theorem journalLines_concat {body line : List Char} (h : body ≠ []) (hline : '\n' ∉ line) :
    journalLines (body ++ '\n' :: line ++ ['\n']) = journalLines (body ++ ['\n']) ++ [line] := by
  have hne : body ++ '\n' :: line ≠ [] := List.append_ne_nil_of_left_ne_nil h _
  unfold journalLines
  rw [List.dropLast_concat, List.dropLast_concat]
  dsimp only
  rw [if_neg (by simp), if_neg (by simpa using h), List.splitOn_append_cons_self,
    List.splitOn_eq_singleton hline]

theorem not_clean_of_blank {byteCount : Nat} : ¬ (inspectLines hashFn byteCount 0 [] ([] :: lines)).Clean := by
  intro hclean
  have hnil := (inspectLines_clean_iff.mp hclean).1
  rw [parseJournalLines] at hnil
  cases hnil

theorem journalLine_cons (record : RunJournalRecord) : ∃ text, serializeRunJournalLine record = '{' :: text := by
  obtain ⟨⟨seq, event, runId, sessionId, revision, timestamp, prevHash⟩, hash⟩ := record
  exact ⟨_, rfl⟩

/-- The longer journal is clean, with the new record after the old ones. -/
def Extends (hashFn : HashFn) (bytes : List UInt8) (report : Report) (record : RunJournalRecord) : Prop :=
  ∃ report', inspectRunJournal (bytes ++ lineBytes record) hashFn = .ok report' ∧ report'.Clean ∧
    report'.records = report.records ++ [record.canonical]

theorem TextOf.not_extends {record : RunJournalRecord} (h : TextOf bytes []) :
    ¬ Extends hashFn bytes report record := by
  rintro ⟨report', hreport', hclean', -⟩
  have hnew : TextOf (bytes ++ lineBytes record) ('\n' :: serializeRunJournalLine record) := h.append
  have hfeed : '\n' ∉ serializeRunJournalLine record := Json.lineFeed_not_mem_stringify _
  have hlines : journalLines ('\n' :: serializeRunJournalLine record ++ ['\n']) =
      [[], serializeRunJournalLine record] := by
    have hsplit := List.splitOn_append_cons_self (a := '\n') [] (serializeRunJournalLine record)
    unfold journalLines
    rw [List.dropLast_concat]
    dsimp only
    rw [if_neg (by simp)]
    rw [List.nil_append, List.splitOn_nil, List.splitOn_eq_singleton hfeed] at hsplit
    exact hsplit
  have htwo : [[], serializeRunJournalLine record].length ≤ maxArrayLength :=
    Nat.succ_le_succ (Nat.succ_le_succ (Nat.zero_le _))
  rw [hnew.inspect (hlines ▸ htwo), hlines] at hreport'
  obtain rfl := Except.ok.inj hreport'
  exact not_clean_of_blank hclean'

/-- A clean journal takes the line of every record that the replayed writer produces, unless it is a lone line feed. -/
theorem append_clean_iff {op : JournalOperation} {journal next : RunJournal} {record : RunJournalRecord}
    (h : inspectRunJournal bytes hashFn = .ok report) (hclean : report.Clean)
    (hreplay : replayRecords hashFn report.records sessionId = .ok journal) (hop : op.WellFormed)
    (hrun : op.run hashFn journal = .ok (record, next)) :
    Extends hashFn bytes report record ↔ ¬ LoneLineFeed bytes := by
  have hfeed : '\n' ∉ serializeRunJournalLine record := Json.lineFeed_not_mem_stringify _
  obtain ⟨text, htext⟩ := journalLine_cons record
  rcases textOf_of_clean h hclean with ⟨rfl, rfl⟩ | ⟨body, hbody, hroom, rfl⟩
  · refine iff_of_true ?_ (by simp [LoneLineFeed])
    have hnew : TextOf (lineBytes record) (serializeRunJournalLine record) :=
      ⟨[], .inl ⟨rfl, by rw [htext]; simp⟩, rfl⟩
    have hlines : journalLines (serializeRunJournalLine record ++ ['\n']) = [serializeRunJournalLine record] := by
      unfold journalLines
      rw [List.dropLast_concat]
      dsimp only
      rw [if_neg (by simp [htext]), List.splitOn_eq_singleton hfeed]
    obtain ⟨-, hclean', hrecords⟩ :=
      inspectLines_append (lineBytes record).length (Nat.zero_le _) hclean hreplay hop hrun
    have hone : [serializeRunJournalLine record].length ≤ maxArrayLength := Nat.succ_le_succ (Nat.zero_le _)
    refine ⟨_, hnew.inspect (hlines ▸ hone), ?_, ?_⟩
    · rw [hlines]
      exact hclean'
    · rw [hlines]
      exact hrecords
  · have hnew : TextOf (bytes ++ lineBytes record) (body ++ '\n' :: serializeRunJournalLine record) := hbody.append
    rw [hbody.loneLineFeed_iff]
    by_cases hempty : body = []
    · subst hempty
      exact iff_of_false hbody.not_extends (not_not_intro rfl)
    · refine iff_of_true ?_ hempty
      have hlines := journalLines_concat hempty hfeed
      obtain ⟨hspace, hclean', hrecords⟩ :=
        inspectLines_append (bytes ++ lineBytes record).length hroom hclean hreplay hop hrun
      refine ⟨_, hnew.inspect ?_, ?_, ?_⟩
      · rw [hlines, List.length_append, List.length_singleton]
        exact hspace
      · rw [hlines]
        exact hclean'
      · rw [hlines]
        exact hrecords

theorem clean_of_no_lines (byteCount : Nat) : (inspectLines hashFn byteCount 0 [] []).Clean := by
  intro f hf
  cases hf

theorem replayRecords_nil : replayRecords sampleHash [] "session-1" = .ok (emptyJournal "session-1" genesisHash 0) := by
  have hid : Identifier "session-1" := ⟨by decide, by decide +kernel, by decide +kernel, by decide +kernel⟩
  have hfitting : Fitting sampleHash (emptyJournal "session-1" genesisHash 0) [] := trivial
  exact (replayRecords_eq_ok hfitting (Nat.zero_le _)).mpr ⟨hid, trivial, rfl⟩

theorem run_sampleStart : ∃ record next,
    sampleStart.run sampleHash (emptyJournal "session-1" genesisHash 0) = .ok (record, next) := by
  have hok : (sampleStart.run sampleHash (emptyJournal "session-1" genesisHash 0)).isOk = true := by decide +kernel
  cases hrun : sampleStart.run sampleHash (emptyJournal "session-1" genesisHash 0) with
  | error e =>
    rw [hrun] at hok
    cases hok
  | ok result => exact ⟨result.1, result.2, rfl⟩

theorem append_clean_empty : ∃ record,
    Extends sampleHash [] (inspectLines sampleHash 0 0 [] []) record := by
  obtain ⟨record, next, hrun⟩ := run_sampleStart
  have hop : sampleStart.WellFormed := trivial
  have hempty : inspectRunJournal [] sampleHash = .ok (inspectLines sampleHash 0 0 [] []) := rfl
  have hextends := append_clean_iff hempty (clean_of_no_lines 0) replayRecords_nil hop hrun
  exact ⟨record, hextends.mpr (by simp [LoneLineFeed])⟩

/-- The replayed writer starts a run, and with its line the file is malformed. -/
theorem append_loneLineFeed :
    inspectRunJournal [0x0a] sampleHash = .ok (inspectLines sampleHash 1 0 [] []) ∧
      (inspectLines sampleHash 1 0 [] []).Clean ∧
      ∃ journal record next, replayRecords sampleHash (inspectLines sampleHash 1 0 [] []).records "session-1" =
          .ok journal ∧
        sampleStart.WellFormed ∧ sampleStart.run sampleHash journal = .ok (record, next) ∧
        ¬ Extends sampleHash [0x0a] (inspectLines sampleHash 1 0 [] []) record := by
  have htext : TextOf [0x0a] [] := ⟨[], .inl ⟨rfl, by simp⟩, by decide⟩
  obtain ⟨record, next, hrun⟩ := run_sampleStart
  refine ⟨htext.inspect (Nat.zero_le _), clean_of_no_lines 1, ?_⟩
  exact ⟨_, record, next, replayRecords_nil, trivial, hrun, htext.not_extends⟩

end CodingAgent.Journal
