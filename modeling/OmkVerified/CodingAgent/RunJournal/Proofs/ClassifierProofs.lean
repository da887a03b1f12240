import OmkVerified.CodingAgent.RunJournal.Proofs.RecoveryProofs

/-!
# The journal accepts what the classifier produces

Every termination that the classifier returns passes the checks of the journal, but for one guard:
the journal refuses a provider, a model, a tool call id or a tool name that has the shape of a
credential, and the classifier does not look at them.
-/

namespace CodingAgent.Journal

open Lib Pattern

variable {input : ClassifyInput} {cause : TerminationCause} {source : String} {c : Classification}

/-! ## The causes -/

/-- A cause of an area with a code. -/
def codedCause (area code : String) : TerminationCause := ⟨area, some code, none⟩

/-- `SessionTerminationCause`, member by member. -/
def terminationCauses : List TerminationCause :=
  [⟨"completed", none, none⟩, codedCause "user" "abort"] ++
    ["abort", "auth", "rate_limit", "network", "protocol", "refusal", "context_overflow"].map
      (codedCause "provider") ++
    ["timeout", "fatal"].map (codedCause "tool") ++
    ["aborted", "failed", "stale"].map (codedCause "compaction") ++
    ["read_failed", "append_failed", "replace_failed", "fsync_failed", "lock_failed"].map
      (codedCause "persistence") ++
    [codedCause "process" "crash"] ++
    sessionProcessSignals.map (fun signal => ⟨"process", some "signal", some signal⟩) ++
    sessionTranscriptIssues.map (codedCause "transcript") ++
    [codedCause "configuration" "invalid", codedCause "internal" "unclassified"]

theorem mem_terminationCauses (h : classifyCause cause source = some c) :
    cause ∈ terminationCauses := by
  obtain ⟨area, code, signal⟩ := cause
  unfold classifyCause at h
  split at h
  case h_12 => exact absurd h (by simp)
  all_goals
    rename_i harea hcode hsignal
    dsimp only at harea hcode hsignal
    subst harea hcode hsignal
    simp only [terminationCauses, codedCause, List.mem_append, List.mem_map, List.mem_cons]
  case h_1 => simp
  case h_2 =>
    split_ifs at h with hc
    simp [hc]
  case h_3 =>
    unfold classifyProvider at h
    split_ifs at h with h₁ h₂ h₃ h₄ h₅ h₆ h₇ <;> simp [*]
  case h_4 => split_ifs at h with h₁ h₂ <;> simp [*]
  case h_5 =>
    split_ifs at h with hc
    simpa using hc
  case h_6 =>
    split_ifs at h with hc
    simpa using hc
  case h_7 =>
    split_ifs at h with hc
    simp [hc]
  case h_8 =>
    split_ifs at h with hc
    simpa [hc.1] using hc.2
  case h_9 => split_ifs at h with hc hs <;> simpa using hc
  case h_10 =>
    split_ifs at h with hc
    simp [hc]
  case h_11 =>
    split_ifs at h with hc
    simp [hc]

/-- The facts of a classification that the journal looks at. -/
def factsOf (c : Classification) (source sideEffects : String) : TerminationFacts where
  kind := c.kind.text
  phase := c.phase.text
  source := source
  causeCode := c.causeCode
  retryable := c.retryable
  safeToAutoRetry := c.retryable && source = "observed" && sideEffects = "none" &&
    (c.kind = .providerRateLimit || c.kind = .providerNetwork || c.kind = .providerRefusal)
  sideEffects := sideEffects
  processSignal := c.processSignal.map .str
  transcriptIssue := c.transcriptIssue.map .str

/-- The classification is what its cause code lets the journal expect. -/
def expectedBy (c : Classification) (e : Expectation) : Bool :=
  c.kind = e.kind && c.phase = e.phase && c.retryable = e.retryable &&
    c.processSignal.isSome = e.processSignalRequired && c.transcriptIssue = e.transcriptSuffix

/-- The vocabulary of the journal covers the classification, and its parts fit together. -/
def fitsJournal (source : String) (c : Classification) : Bool :=
  isCauseCode c.causeCode && c.processSignal.all sessionProcessSignals.contains &&
    c.transcriptIssue.all sessionTranscriptIssues.contains &&
    (expectationFor (causeParts c.causeCode).1 (causeParts c.causeCode).2 source).any (expectedBy c)

theorem contains_kind (kind : TerminationKind) : sessionTerminationKinds.contains kind.text = true := by
  cases kind <;> decide

theorem contains_phase (phase : TerminationPhase) :
    sessionTerminationPhases.contains phase.text = true := by
  cases phase <;> decide

/-- The kinds that may be retried without asking, by their texts. -/
theorem kind_text_iff (kind : TerminationKind) :
    (kind.text = "provider_rate_limit" ↔ kind = .providerRateLimit) ∧
    (kind.text = "provider_network" ↔ kind = .providerNetwork) ∧
    (kind.text = "provider_refusal" ↔ kind = .providerRefusal) := by
  cases kind <;> decide

theorem coherence_factsOf {source : String} (sideEffects : String)
    (h : fitsJournal source c = true) :
    assertTerminationCoherence (factsOf c source sideEffects) = .ok () := by
  unfold fitsJournal at h
  simp only [Bool.and_eq_true, Option.any_eq_true] at h
  obtain ⟨-, e, he, hexpected⟩ := h
  unfold expectedBy at hexpected
  simp only [Bool.and_eq_true, decide_eq_true_eq] at hexpected
  obtain ⟨⟨⟨⟨hkind, hphase⟩, hretryable⟩, hsignal⟩, hissue⟩ := hexpected
  obtain ⟨hrate, hnetwork, hrefusal⟩ := kind_text_iff c.kind
  have hsafe : (factsOf c source sideEffects).safeToAutoRetry = (c.retryable && source = "observed" &&
      sideEffects = "none" && (c.kind.text = "provider_rate_limit" ||
        c.kind.text = "provider_network" || c.kind.text = "provider_refusal")) := by
    simp only [factsOf, hrate, hnetwork, hrefusal]
  unfold assertTerminationCoherence
  rw [hsafe]
  obtain ⟨kind, phase, retryable, signalRequired, suffix⟩ := e
  dsimp only at hkind hphase hretryable hsignal hissue
  subst hkind hphase hretryable hsignal hissue
  simp only [factsOf, he]
  clear he hsafe hrate hnetwork hrefusal
  obtain ⟨kind, phase, causeCode, retryable, signal, issue⟩ := c
  cases signal <;> cases issue <;> simp only [require, Option.map_some, Option.map_none,
    Option.isSome_some, Option.isSome_none, Option.isNone_some, Option.isNone_none, decide_true,
    if_true, ok_bind, Bool.false_eq_true, if_false]
  all_goals exact if_pos (decide_eq_true (by congr))

/-- A property of classifications that holds for every cause and source. -/
theorem classifyCause_all {P : TerminationCause → String → Classification → Bool}
    (hP : ∀ source ∈ sessionTerminationSources, ∀ cause ∈ terminationCauses,
      (classifyCause cause source).all (P cause source) = true)
    (hsource : source ∈ sessionTerminationSources) (h : classifyCause cause source = some c) :
    P cause source c = true := by
  have hall := hP source hsource cause (mem_terminationCauses h)
  rw [h] at hall
  exact hall

theorem fitsJournal_classifyCause (hsource : source ∈ sessionTerminationSources)
    (h : classifyCause cause source = some c) : fitsJournal source c = true :=
  classifyCause_all (P := fun _ source c => fitsJournal source c) (by decide) hsource h

/-- Only an internal cause is classified as an internal error, and only a crash as one. -/
theorem cause_of_kind (hsource : source ∈ sessionTerminationSources)
    (h : classifyCause cause source = some c) :
    (c.kind = .internalError → cause.area = "internal") ∧
    (c.kind = .processCrash ↔ cause.area = "process" ∧ cause.code = some "crash") := by
  have hall := classifyCause_all (P := fun cause _ c =>
    (c.kind ≠ .internalError || cause.area = "internal") &&
      decide (c.kind = .processCrash ↔ cause.area = "process" ∧ cause.code = some "crash"))
    (by decide) hsource h
  simp only [Bool.and_eq_true, Bool.or_eq_true, decide_eq_true_eq] at hall
  exact ⟨fun hkind => hall.1.resolve_left (not_not_intro hkind), hall.2⟩

/-! ## What the classifier has checked -/

/-- A text that the classifier accepts as an identifier of at most `maxLength`. -/
structure BoundedText (text : String) (maxLength : Nat) : Prop where
  ne_empty : text ≠ ""
  length_le : jsLength text ≤ maxLength
  no_control : hasControl text = false

variable {maxLength : Nat} {u : Unit}

theorem assertClassifierIdentifier_ok {text name : String} :
    assertClassifierIdentifier text name maxLength = .ok u ↔ BoundedText text maxLength := by
  unfold assertClassifierIdentifier
  rw [require_eq_ok]
  simp only [Bool.and_eq_true, decide_eq_true_eq, Bool.not_eq_true']
  constructor
  · rintro ⟨⟨h₁, h₂⟩, h₃⟩
    exact ⟨by simpa using h₁, h₂, h₃⟩
  · rintro ⟨h₁, h₂, h₃⟩
    exact ⟨⟨by simpa using h₁, h₂⟩, h₃⟩

theorem assertOptionalIdentifier_ok {value : Option String} {name : String} :
    assertOptionalIdentifier value name maxLength = .ok u ↔
      ∀ text ∈ value, BoundedText text maxLength := by
  unfold assertOptionalIdentifier
  cases value with
  | none => simp
  | some text => simp [assertClassifierIdentifier_ok]

/-- What holds of an input that the classifier does not refuse. -/
structure Classified (input : ClassifyInput) (c : Classification) : Prop where
  source : input.source ∈ sessionTerminationSources
  sideEffects : input.sideEffects ∈ sessionSideEffects
  cause : classifyCause input.cause input.source = some c
  timestamp : isCanonicalTimestamp input.timestamp = true
  message : assertPreRedactedTerminationMessage input.message = .ok ()
  provider : ∀ text ∈ input.provider, BoundedText text 128
  model : ∀ text ∈ input.model, BoundedText text 256
  toolCallId : ∀ text ∈ input.toolCallId, BoundedText text 512
  toolName : ∀ text ∈ input.toolName, BoundedText text 128
  retryAfterMs : ∀ n ∈ input.retryAfterMs, ∃ k, n.toNat? = some k ∧ k ≤ maxSafeInteger
  crash_inferred : c.kind = .processCrash → input.source = "inferred_on_resume"

theorem classifySessionTermination_eq_ok {termination : Json}
    (h : classifySessionTermination input = .ok termination) :
    ∃ c, Classified input c ∧ termination = terminationOf c input := by
  unfold classifySessionTermination at h
  obtain ⟨_, hbounded, h⟩ := bind_eq_ok.mp h
  rw [require_eq_ok, Bool.and_eq_true, List.contains_iff_mem, List.contains_iff_mem] at hbounded
  cases hc : classifyCause input.cause input.source with
  | none =>
    rw [hc] at h
    exact absurd h (raise_ne_ok _ _)
  | some c =>
    rw [hc] at h
    simp only [bind_eq_ok, require_eq_ok, assertOptionalIdentifier_ok, pure_eq_ok,
      Except.ok.injEq] at h
    obtain ⟨_, -, _, -, _, htime, _, hmessage, _, hprovider, _, hmodel, _, hcall, _, hname, _,
      hretry, _, hcrash, _, -, rfl⟩ := h
    refine ⟨c, ⟨hbounded.1, hbounded.2, hc, htime, hmessage, hprovider, hmodel, hcall, hname, ?_, ?_⟩,
      rfl⟩
    · intro n hn
      rw [Option.mem_def.mp hn] at hretry
      simpa [Option.any_eq_true] using hretry
    · intro hkind
      simpa [hkind] using hcrash

/-! ## The next action -/

/-- The sentence of `nextActionFor` with a provider. -/
def loginSentence : Sentence :=
  ⟨"Run /login".toList, ' ', "or configure valid credentials, then retry.".toList⟩

/-- The sentence of `nextActionFor` for a failed write. -/
def persistenceSentence : Sentence :=
  ⟨"Run omk session doctor --session".toList, ' ', "before resuming.".toList⟩

/-- The sentence of `nextActionFor` for an invalid transcript. -/
def transcriptSentence : Sentence :=
  ⟨"Run omk session doctor --session".toList, ';', " do not resume until integrity passes.".toList⟩

/-- The sentence of `nextActionFor` for an internal error, around the run id and the word after
it. -/
def internalSentence : Sentence :=
  ⟨"Inspect run".toList, ' ', "and the run journal before retrying.".toList⟩

theorem loginSentence_clean : loginSentence.Clean := by
  constructor <;> decide

theorem persistenceSentence_clean : persistenceSentence.Clean := by
  constructor <;> decide

theorem transcriptSentence_clean : transcriptSentence.Clean := by
  constructor <;> decide

theorem internalSentence_clean : internalSentence.Clean := by
  constructor <;> decide

/-- The word that the next action of an internal error puts after the run id does not complete the
shape of a credential. -/
def ClassifyInput.RunIdStandsAlone (input : ClassifyInput) : Prop :=
  input.cause.area = "internal" → looksLikeCredential (input.runId ++ " diagnostics") = false

/-- The identifiers that a termination takes over from its input. -/
def ClassifyInput.identifiers (input : ClassifyInput) : List String :=
  input.provider.toList ++ input.model.toList ++ input.toolCallId.toList ++ input.toolName.toList

theorem jsLength_append (a b : String) : jsLength (a ++ b) = jsLength a + jsLength b := by
  unfold jsLength utf16
  rw [String.toList_append, List.flatMap_append, List.length_append]

theorem hasControl_append (a b : String) : hasControl (a ++ b) = (hasControl a || hasControl b) := by
  unfold hasControl
  rw [String.toList_append, List.any_append]

/-- A sentence as the code concatenates it. -/
theorem Sentence.toList_eq {s : Sentence} {before after : String} (text : String)
    (hbefore : before.toList = s.start ++ [' ']) (hafter : after.toList = s.after :: s.rest) :
    (before ++ text ++ after).toList = s.text text.toList := by
  rw [String.toList_append, String.toList_append, hbefore, hafter]
  simp [Sentence.text]

/-- The next action passes the check of messages. -/
theorem assertPreRedacted_nextAction (hc : Classified input c)
    (hsession : Identifier input.sessionId)
    (hrun : Identifier input.runId) (halone : input.RunIdStandsAlone)
    (hprovider : ∀ text ∈ input.provider, looksLikeCredential text = false) :
    assertPreRedactedTerminationMessage (nextActionFor c input) = .ok () := by
  have hsessionLength : jsLength input.sessionId ≤ 256 := hsession.length_le.trans (by decide)
  unfold nextActionFor
  cases hkind : c.kind with
  | providerAuth =>
    dsimp only
    cases hp : input.provider with
    | none =>
      dsimp only
      decide
    | some provider =>
      have hbounded := hc.provider provider hp
      dsimp only
      rw [if_neg hbounded.ne_empty]
      rw [← String.append_assoc]
      exact assertPreRedacted_sentence loginSentence_clean
        (Sentence.toList_eq provider (by decide) (by decide +kernel))
        (hbounded.length_le.trans (by decide)) hbounded.no_control (hprovider provider hp)
  | persistence =>
    dsimp only
    exact assertPreRedacted_sentence persistenceSentence_clean
      (Sentence.toList_eq input.sessionId (by decide) (by decide +kernel)) hsessionLength
      hsession.no_control hsession.no_credential
  | processCrash =>
    dsimp only
    exact assertPreRedacted_recoveryAction hsession
  | transcriptInvalid =>
    dsimp only
    exact assertPreRedacted_sentence transcriptSentence_clean
      (Sentence.toList_eq input.sessionId (by decide) (by decide +kernel)) hsessionLength
      hsession.no_control hsession.no_credential
  | internalError =>
    have hlength : jsLength (input.runId ++ " diagnostics") ≤ 256 := by
      have hword : jsLength " diagnostics" = 12 := by decide
      have hid := hrun.length_le
      unfold maxRunJournalIdLength at hid
      rw [jsLength_append, hword]
      omega
    have hcontrol : hasControl (input.runId ++ " diagnostics") = false := by
      rw [hasControl_append, hrun.no_control]
      decide
    have hsplit : "Inspect run " ++ input.runId ++ " diagnostics and the run journal before retrying." =
        "Inspect run " ++ (input.runId ++ " diagnostics") ++ " and the run journal before retrying." := by
      rw [String.append_assoc, String.append_assoc, String.append_assoc]
      rfl
    dsimp only
    rw [hsplit]
    exact assertPreRedacted_sentence internalSentence_clean
      (Sentence.toList_eq _ (by decide +kernel) (by decide +kernel)) hlength hcontrol
      (halone ((cause_of_kind hc.source hc.cause).1 hkind))
  | _ =>
    dsimp only
    decide +kernel

/-! ## The fields of a termination -/

theorem lookup_optionalField (key k : String) (value : Option Json) :
    (optionalField key value).lookup k = if k = key then value else none := by
  cases value with
  | none => simp [optionalField]
  | some value =>
    show ([(key, value)] : List (String × Json)).lookup k = _
    rw [Json.lookup_cons_eq]
    rfl

/-- The fields that a termination may leave out. -/
theorem get?_terminationOf (c : Classification) (input : ClassifyInput) :
    (terminationOf c input).get? "retryAfterMs" = input.retryAfterMs.map .num ∧
    (terminationOf c input).get? "provider" = input.provider.map .str ∧
    (terminationOf c input).get? "model" = input.model.map .str ∧
    (terminationOf c input).get? "toolCallId" = input.toolCallId.map .str ∧
    (terminationOf c input).get? "toolName" = input.toolName.map .str ∧
    (terminationOf c input).get? "processSignal" = c.processSignal.map .str ∧
    (terminationOf c input).get? "transcriptIssue" = c.transcriptIssue.map .str := by
  unfold terminationOf Json.get?
  simp only [List.lookup_append, lookup_optionalField, Json.lookup_cons_eq, List.lookup_nil]
  simp

theorem assertOpenIdentifier_ok {text name : String} (h : BoundedText text maxLength) :
    assertOpenIdentifier (some (.str text)) name maxLength = .ok u ↔
      looksLikeCredential text = false := by
  unfold assertOpenIdentifier assertIdentifier
  have hbounds : ¬ (text = "" ∨ maxLength < jsLength text) := by
    rw [not_or, not_lt]
    exact ⟨h.ne_empty, h.length_le⟩
  simp only [if_neg hbounds, h.no_control, Bool.false_eq_true, if_false, ok_bind, rejectCredential,
    require_eq_ok, Bool.not_eq_true']

/-- The check of an identifier that the classifier has bounded. -/
theorem ifPresent_boundedText {value : Option String} {name : String}
    (h : ∀ text ∈ value, BoundedText text maxLength) :
    ifPresent (value.map .str) (fun json => assertOpenIdentifier (some json) name maxLength) = .ok u ↔
      ∀ text ∈ value, looksLikeCredential text = false := by
  cases value with
  | none => simp [ifPresent]
  | some text => simp [ifPresent, assertOpenIdentifier_ok (h text rfl)]

theorem assertOneOf_ok {text : String} {values : List String} (message : String)
    (h : values.contains text = true) : assertOneOf (some (.str text)) values message = .ok text := by
  unfold assertOneOf
  simp only [h, if_true]

theorem ifPresent_oneOf_ok {value : Option String} {values : List String} {message : String}
    (h : value.all values.contains = true) :
    ifPresent (value.map .str) (fun json =>
      (assertOneOf (some json) values message).map fun _ => ()) = .ok () := by
  cases value with
  | none => rfl
  | some text =>
    show (assertOneOf (some (.str text)) values message).map (fun _ => ()) = .ok ()
    rw [assertOneOf_ok _ h]
    rfl

theorem ifPresent_safeInteger_ok {value : Option Decimal} {name : String}
    (h : ∀ n ∈ value, ∃ k, n.toNat? = some k ∧ k ≤ maxSafeInteger) :
    ifPresent (value.map .num) (fun json => (assertSafeInteger (some json) name).map fun _ => ()) =
      .ok () := by
  cases value with
  | none => rfl
  | some n =>
    obtain ⟨k, hk, hle⟩ := h n rfl
    show (assertSafeInteger (some (.num n)) name).map (fun _ => ()) = .ok ()
    rw [assertSafeInteger_eq_ok.mpr ⟨n, rfl, hk, hle⟩]
    rfl

theorem assertPlainDataRecord_terminationOf (c : Classification) (input : ClassifyInput) :
    assertPlainDataRecord (some (terminationOf c input)) "termination" terminationAllowedKeys =
      .ok () := by
  have hoptional : ∀ key (value : Option Json), terminationAllowedKeys.contains key = true →
      ((optionalField key value).all fun f => terminationAllowedKeys.contains f.1) = true := by
    intro key value hkey
    cases value with
    | none => rfl
    | some value => simpa [optionalField] using hkey
  unfold terminationOf assertPlainDataRecord
  rw [require_eq_ok]
  simp only [List.all_append, Bool.and_eq_true]
  refine ⟨⟨⟨⟨⟨⟨⟨rfl, ?_⟩, ?_⟩, ?_⟩, ?_⟩, ?_⟩, ?_⟩, ?_⟩ <;> exact hoptional _ _ rfl

/-- The journal accepts the termination when no identifier in it has the shape of a credential. -/
theorem assertBounded_terminationOf (hc : Classified input c)
    (hsession : Identifier input.sessionId) (hrun : Identifier input.runId)
    (halone : input.RunIdStandsAlone) :
    assertBoundedSessionTermination (some (terminationOf c input)) input.runId input.sessionId =
        .ok () ↔ ∀ text ∈ input.identifiers, looksLikeCredential text = false := by
  obtain ⟨hretry, hprovider, hmodel, hcall, hname, hsignal, hissue⟩ := get?_terminationOf c input
  have hfits := fitsJournal_classifyCause hc.source hc.cause
  have hcoherent := coherence_factsOf input.sideEffects hfits
  unfold fitsJournal at hfits
  simp only [Bool.and_eq_true] at hfits
  obtain ⟨⟨⟨hcode, hsignals⟩, hissues⟩, -⟩ := hfits
  have hversion : (terminationOf c input).get? "schemaVersion" = some (.num (.ofNat 1)) := rfl
  have hrunId : (terminationOf c input).get? "runId" = some (.str input.runId) := rfl
  have hsessionId : (terminationOf c input).get? "sessionId" = some (.str input.sessionId) := rfl
  have hkind : (terminationOf c input).get? "kind" = some (.str c.kind.text) := rfl
  have hphase : (terminationOf c input).get? "phase" = some (.str c.phase.text) := rfl
  have hsource : (terminationOf c input).get? "source" = some (.str input.source) := rfl
  have hmessage : (terminationOf c input).get? "message" = some (.str input.message) := rfl
  have hcause : (terminationOf c input).get? "causeCode" = some (.str c.causeCode) := rfl
  have hnext : (terminationOf c input).get? "nextAction" = some (.str (nextActionFor c input)) := rfl
  have hretryable : (terminationOf c input).get? "retryable" = some (.bool c.retryable) := rfl
  have hsafe : (terminationOf c input).get? "safeToAutoRetry" =
    some (.bool (isSafeToAutoRetry c input)) := rfl
  have heffects : (terminationOf c input).get? "sideEffects" = some (.str input.sideEffects) := rfl
  have hstamp : (terminationOf c input).get? "timestamp" = some (.str input.timestamp) := rfl
  have htime : assertCanonicalTimestamp (some (.str input.timestamp)) "termination.timestamp" =
      .ok input.timestamp := assertCanonicalTimestamp_eq_ok.mpr ⟨rfl, hc.timestamp⟩
  have hkinds := assertOneOf_ok "termination kind is out of bounds"
    (contains_kind c.kind)
  have hphases := assertOneOf_ok "termination phase is out of bounds"
    (contains_phase c.phase)
  have hsources := assertOneOf_ok "termination source is out of bounds"
    (List.contains_iff_mem.mpr hc.source)
  have hallEffects := assertOneOf_ok "termination sideEffects is out of bounds"
    (List.contains_iff_mem.mpr hc.sideEffects)
  unfold assertBoundedSessionTermination
  rw [assertPlainDataRecord_terminationOf, ok_bind]
  unfold assertTerminationFields
  simp only [Option.bind_some, hversion, hrunId, hsessionId, hkind, hphase, hsource, hmessage, hcause,
    hnext, hretryable, hsafe, heffects, hstamp, hretry, hprovider, hmodel, hcall, hname, hsignal,
    hissue, htime, hkinds, hphases, hsources, hallEffects, assertText, assertBool, hc.message, hcode,
    decide_true, require, if_true, ok_bind, ifPresent_safeInteger_ok hc.retryAfterMs,
    ifPresent_oneOf_ok hsignals, ifPresent_oneOf_ok hissues]
  simp only [bind_eq_ok, ifPresent_boundedText hc.provider, ifPresent_boundedText hc.model,
    ifPresent_boundedText hc.toolCallId, ifPresent_boundedText hc.toolName]
  constructor
  · rintro ⟨_, -, _, h₁, _, h₂, _, h₃, _, h₄, -⟩ text htext
    simp only [ClassifyInput.identifiers, List.mem_append, Option.mem_toList] at htext
    rcases htext with ((htext | htext) | htext) | htext
    · exact h₁ text htext
    · exact h₂ text htext
    · exact h₃ text htext
    · exact h₄ text htext
  · intro h
    have hpart : ∀ value : Option String, value.toList ⊆ input.identifiers →
        ∀ text ∈ value, looksLikeCredential text = false :=
      fun value hsub text htext => h text (hsub (Option.mem_toList.mpr htext))
    have hclean := hpart input.provider (by simp [ClassifyInput.identifiers])
    refine ⟨(), assertPreRedacted_nextAction hc hsession hrun halone hclean, (), hclean,
      (), hpart input.model ?_, (), hpart input.toolCallId ?_, (), hpart input.toolName ?_, hcoherent⟩
    · intro text htext
      simp [ClassifyInput.identifiers, Option.mem_toList.mp htext]
    · intro text htext
      simp [ClassifyInput.identifiers, Option.mem_toList.mp htext]
    · intro text htext
      simp [ClassifyInput.identifiers, Option.mem_toList.mp htext]

/-! ## Acceptance -/

/-- A journal whose open run is the one of the input, and which takes a record of this revision. -/
structure OpenFor (hashFn : HashFn) (j : RunJournal) (input : ClassifyInput)
    (sessionRevision : Decimal) : Prop where
  written : Written hashFn j
  hashes : HashesAll hashFn
  room : j.records.length < maxArrayLength
  sessionId : j.sessionId = input.sessionId
  openRun : j.openRun = some input.runId
  revision : ∃ n, sessionRevision.toNat? = some n ∧ n ≤ maxSafeInteger ∧ j.lastSessionRevision ≤ n

variable {hashFn : HashFn} {j : RunJournal} {sessionRevision : Decimal}

theorem OpenFor.identifiers (h : OpenFor hashFn j input sessionRevision) :
    Identifier input.sessionId ∧ Identifier input.runId := by
  obtain ⟨hid, hchain⟩ := h.written.chain
  refine ⟨h.sessionId ▸ hid, (hchain.named hid).openRun input.runId ?_⟩
  rw [h.openRun]
  rfl

/-- The journal appends a terminal record when its checks of the termination pass. -/
theorem OpenFor.appendTerminal_iff (h : OpenFor hashFn j input sessionRevision)
    (event : TerminalEvent) {termination : Json} (htime : isCanonicalTimestamp input.timestamp = true)
    (hstamp : termination.get? "timestamp" = some (.str input.timestamp)) :
    (∃ record j', j.appendTerminal hashFn event ⟨termination, sessionRevision, input.timestamp⟩ =
        .ok (record, j')) ↔
      assertBoundedSessionTermination (some termination) input.runId input.sessionId = .ok () ∧
        isTerminalCoherentWithEvent event termination = true := by
  obtain ⟨-, hchain⟩ := h.written.chain
  have hnew : input.runId ∉ j.terminatedRunIds := by
    refine hchain.runIds.open_not_terminated input.runId ?_
    rw [h.openRun]
    rfl
  obtain ⟨n, hn, hsafe, hle⟩ := h.revision
  have hmoment : j.checkMoment sessionRevision input.timestamp = .ok n :=
    checkMoment_eq_ok.mpr ⟨hn, hsafe, hle, htime⟩
  unfold RunJournal.appendTerminal
  rw [h.openRun]
  simp only [hmoment, ok_bind, h.sessionId, bind_eq_ok, require_eq_ok, decide_eq_true_eq, hstamp,
    assertTerminalCoherentWithEvent_eq_ok]
  constructor
  · rintro ⟨record, j', _, hbounded, _, hcoherent, -⟩
    exact ⟨hbounded, hcoherent⟩
  · rintro ⟨hbounded, hcoherent⟩
    set base := j.base (.terminal event termination) input.runId n input.timestamp
    obtain ⟨hash, hseal, hshape⟩ := h.hashes (Utf8.encode (serializeRunJournalMaterial base))
    exact ⟨⟨base, hash⟩, _, (), hbounded, (), hcoherent, (), trivial, (), hnew,
      append_eq_ok.mpr ⟨rfl, hseal, hshape, h.room, rfl⟩⟩

/-- An observed termination is coherent with the end of a run, an inferred crash with its
recovery. -/
theorem coherent_terminationOf (hc : Classified input c) :
    (input.source = "observed" →
      isTerminalCoherentWithEvent .runFinished (terminationOf c input) = true) ∧
    (c.kind = .processCrash →
      isTerminalCoherentWithEvent .runRecovered (terminationOf c input) = true) := by
  have hkind : (terminationOf c input).get? "kind" = some (.str c.kind.text) := rfl
  have hsource : (terminationOf c input).get? "source" = some (.str input.source) := rfl
  have hphase : (terminationOf c input).get? "phase" = some (.str c.phase.text) := rfl
  have hparts := classifyCause_all (P := fun _ _ c =>
    (c.kind ≠ .processCrash || c.phase = .resume) &&
      (c.kind = .processCrash || c.kind.text ≠ "process_crash")) (by decide)
    hc.source hc.cause
  simp only [Bool.and_eq_true, Bool.or_eq_true, decide_eq_true_eq] at hparts
  unfold isTerminalCoherentWithEvent
  simp only [hkind, hsource, hphase]
  constructor
  · intro hobserved
    have hne : c.kind ≠ .processCrash := by
      intro hcrash
      have := hc.crash_inferred hcrash
      rw [hobserved] at this
      exact absurd this (by decide)
    simp [hobserved, hparts.2.resolve_left hne]
  · intro hcrash
    have hresume := hparts.1.resolve_left (not_not_intro hcrash)
    simp [hc.crash_inferred hcrash, hcrash, hresume, TerminationKind.text, TerminationPhase.text]

/-- What the classifier returns for the open run, the journal records: an observed termination as
the end of the run and an inferred crash as its recovery, unless an identifier in it has the shape of
a credential. -/
theorem classifySessionTermination_recorded {termination : Json}
    (h : classifySessionTermination input = .ok termination)
    (hopen : OpenFor hashFn j input sessionRevision) (halone : input.RunIdStandsAlone) :
    (input.source = "observed" →
      ((∃ record j', j.finish hashFn ⟨termination, sessionRevision, input.timestamp⟩ =
          .ok (record, j')) ↔ ∀ text ∈ input.identifiers, looksLikeCredential text = false)) ∧
    (input.cause.area = "process" → input.cause.code = some "crash" →
      ((∃ record j', j.recover hashFn ⟨termination, sessionRevision, input.timestamp⟩ =
          .ok (record, j')) ↔ ∀ text ∈ input.identifiers, looksLikeCredential text = false)) := by
  obtain ⟨c, hc, rfl⟩ := classifySessionTermination_eq_ok h
  obtain ⟨hsession, hrun⟩ := hopen.identifiers
  have hbounded := assertBounded_terminationOf hc hsession hrun halone
  have hstamp : (terminationOf c input).get? "timestamp" = some (.str input.timestamp) := rfl
  obtain ⟨hfinish, hrecover⟩ := coherent_terminationOf hc
  constructor
  · intro hobserved
    have hiff := hopen.appendTerminal_iff .runFinished hc.timestamp hstamp
    rw [hbounded, and_iff_left (hfinish hobserved)] at hiff
    exact hiff
  · intro harea hcode
    have hkind := (cause_of_kind hc.source hc.cause).2.mpr ⟨harea, hcode⟩
    have hiff := hopen.appendTerminal_iff .runRecovered hc.timestamp hstamp
    rw [hbounded, and_iff_left (hrecover hkind)] at hiff
    exact hiff

/-! ## A model id with a colon -/

/-- The end of a run with this model. -/
def completedWith (model : String) : ClassifyInput where
  sessionId := "session-1"
  runId := "run-1"
  timestamp := "2026-01-01T00:00:01.000Z"
  source := "observed"
  message := "Run completed."
  cause := { area := "completed" }
  sideEffects := "none"
  model := some model

theorem openFor_sampleJournal (model : String) :
    OpenFor sampleHash sampleJournal (completedWith model) .zero where
  written := .genesis rfl rfl sampleJournal_eq
  hashes := fun _ => ⟨genesisHash, rfl, by decide⟩
  room := by decide
  sessionId := by
    show sampleJournal.sessionId = "session-1"
    decide
  openRun := by
    show sampleJournal.openRun = some "run-1"
    decide
  revision := ⟨0, by decide, by decide +kernel, by decide +kernel⟩

theorem finish_plainModel : ∃ record j',
    sampleJournal.finish sampleHash ⟨(classifySessionTermination
      (completedWith "small-model")).toOption.getD .null, .zero, "2026-01-01T00:00:01.000Z"⟩ =
        .ok (record, j') :=
  ((classifySessionTermination_recorded
    (eq_ok_of_isOk (x := classifySessionTermination (completedWith "small-model"))
      (by decide) .null)
    (openFor_sampleJournal "small-model") (fun harea => absurd harea (by decide))).1 (by decide)).mpr
    (by decide)

/-- The classifier returns a termination of the open run that the journal refuses. -/
theorem finish_refuses_tokenModel : ∃ termination,
    classifySessionTermination (completedWith "acme/session-token:free") = .ok termination ∧
    OpenFor sampleHash sampleJournal (completedWith "acme/session-token:free") .zero ∧
    ¬ ∃ record j', sampleJournal.finish sampleHash
      ⟨termination, .zero, "2026-01-01T00:00:01.000Z"⟩ = .ok (record, j') := by
  refine ⟨(classifySessionTermination (completedWith "acme/session-token:free")).toOption.getD .null,
    eq_ok_of_isOk (by decide) _, openFor_sampleJournal _, ?_⟩
  rintro ⟨record, j', h⟩
  have hrefused : (sampleJournal.finish sampleHash ⟨(classifySessionTermination
      (completedWith "acme/session-token:free")).toOption.getD .null, .zero,
        "2026-01-01T00:00:01.000Z"⟩).isOk = false := by
    decide
  rw [h] at hrefused
  exact absurd hrefused (by simp [Except.isOk, Except.toBool])

end CodingAgent.Journal
