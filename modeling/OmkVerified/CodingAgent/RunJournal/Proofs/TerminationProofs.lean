import OmkVerified.CodingAgent.RunJournal.Store
import OmkVerified.CodingAgent.RunJournal.Proofs.WriterProofs

/-!
# The termination of a recovered run

The termination that `open` makes for a run that was left open passes the checks of the writer. The
part that is not immediate is its `nextAction`, a sentence around the session id: no credential shape
matches such a sentence unless one matches the identifier by itself.
-/

namespace CodingAgent.Journal

open Lib Pattern

/-! ## An identifier in a sentence -/

/-- The constant text around an identifier: `start` and a space before it, `after` and `rest` after
it. -/
structure Sentence where
  start : List Char
  after : Char
  rest : List Char

/-- The sentence around `id`. -/
def Sentence.text (s : Sentence) (id : List Char) : List Char :=
  s.start ++ ' ' :: (id ++ s.after :: s.rest)

theorem not_of_all {p : Char → Bool} {text : List Char} (h : (text.all fun c => !p c) = true) :
    ∀ c ∈ text, ¬ p c = true := by
  intro c hc hp
  have := List.all_eq_true.mp h c hc
  simp [hp] at this

theorem mem_ends_start {s t : Place} (h : t ∈ Pattern.start.ends s) : t = s := by
  unfold ends at h
  split_ifs at h
  · simpa using h
  · simp at h

theorem isWord_space : isWord ' ' = false := by decide

/-- The shapes of tokens that are one word. -/
def tokenShape : Pattern :=
  asWord (.choice skShape [githubPatShape, ghShape, xoxShape, akiaShape])

/-- The first words of the names of secrets. -/
def secretFirstWord : Pattern :=
  .choice (ignoringCase "authorization")
    [ignoringCase "api", ignoringCase "access", ignoringCase "token", ignoringCase "password",
      ignoringCase "secret", ignoringCase "private", ignoringCase "cookie"]

/-- No credential shape matches a constant part of the sentence, starts in the part before the
identifier, or reaches from the identifier into the part after it. -/
structure Sentence.Clean (s : Sentence) : Prop where
  separates : isWord s.after = false
  start_clean : (messageCredentialShapes.any fun p => p.test s.start) = false
  rest_clean : (messageCredentialShapes.any fun p => p.test s.rest) = false
  token_after : tokenShape.excludes s.after = true
  jwt_after : jwtShape.excludes s.after = true
  key_start : (ignoringCase "-----BEGIN").test s.start = false
  key_rest : ((s.after :: s.rest).all fun c => !sameLetter '-' c) = true
  bearer_start : (Pattern.seq .boundary (ignoringCase "Bearer")).test s.start = false
  bearer_after : (Pattern.seq .boundary (ignoringCase "Bearer")).excludes s.after = true ∧
    bearerToken.excludes s.after = true
  bearer_rest : isWhitespace s.after = false ∨
    s.rest.head?.any isWhitespace = false ∧ bearerToken.ends ⟨some s.after, s.rest⟩ = []
  name_start : (Pattern.seq nameStart (.seq namePrefixes secretFirstWord)).test s.start = false
  name_rest : ((s.after :: s.rest).all fun c => !anyOf ":=" c) = true
  no_nul : (s.text []).contains '\x00' = false
  length_le : (utf16 (s.text [])).length ≤ 256

variable {sentence : Sentence} {id : List Char}

/-- A pattern that starts no match before the identifier and ends none after it matches the
identifier. -/
theorem test_sentence {p : Pattern} (hc : sentence.Clean) (hp : p ∈ messageCredentialShapes)
    (hleft : ∀ right s e, Reaches ⟨none, sentence.start⟩ s →
      e ∈ p.ends (extend (' ' :: right) s) → Inside (' ' :: right) e → p.test right = true)
    (hright : ∀ s e, e ∈ p.ends (extend (sentence.after :: sentence.rest) s) →
      ¬ Inside (sentence.after :: sentence.rest) e)
    (h : p.test (sentence.text id) = true) : p.test id = true := by
  have hstart : ¬ p.test sentence.start = true := fun ht =>
    absurd hc.start_clean (by rw [List.any_eq_true.mpr ⟨p, hp, ht⟩]; simp)
  have hend : ¬ p.test sentence.rest = true := fun ht =>
    absurd hc.rest_clean (by rw [List.any_eq_true.mpr ⟨p, hp, ht⟩]; simp)
  have hrest : p.test (id ++ sentence.after :: sentence.rest) = true := by
    rcases test_append_cases isWord_space h with h | h | ⟨s, e, hs, he, hin⟩
    · exact absurd h hstart
    · exact h
    · exact hleft _ s e hs he hin
  rcases test_append_cases hc.separates hrest with h | h | ⟨s, e, hs, he, hin⟩
  · exact h
  · exact absurd h hend
  · exact absurd hin (hright s e he)

/-- A pattern with neither a space nor the character after the identifier crosses neither. -/
theorem test_sentence_of_excludes {p : Pattern} (hc : sentence.Clean)
    (hp : p ∈ messageCredentialShapes) (hspace : p.excludes ' ' = true)
    (hafter : p.excludes sentence.after = true) (h : p.test (sentence.text id) = true) :
    p.test id = true := by
  refine test_sentence hc hp ?_ ?_ h
  · intro right s e _ he hin
    obtain ⟨e', -, rfl⟩ := ends_extend_of_within isWord_space (within_of_excludes hspace) he
    exact absurd hin (not_inside_extend _ e')
  · intro s e he
    obtain ⟨e', -, rfl⟩ := ends_extend_of_within hc.separates (within_of_excludes hafter) he
    exact not_inside_extend _ e'

theorem test_privateKeyShape (hc : sentence.Clean)
    (h : privateKeyShape.test (sentence.text id) = true) : privateKeyShape.test id = true := by
  have hends : EndsWith (fun c => sameLetter '-' c = true) privateKeyShape :=
    .seq (.seq (.seq (.seq (.cls fun _ hc => hc))))
  refine test_sentence hc (by simp [messageCredentialShapes]) ?_ ?_ h
  · intro right s e hs he _
    have hfirst : (ignoringCase "-----BEGIN").test sentence.start = true :=
      test_of_crossing isWord_space (within_of_excludes (by decide)) hs he
    rw [hc.key_start] at hfirst
    exact absurd hfirst (by simp)
  · intro s e he
    exact hends.not_inside he (not_of_all hc.key_rest)

theorem test_bearerShape (hc : sentence.Clean)
    (h : bearerShape.test (sentence.text id) = true) : bearerShape.test id = true := by
  refine test_sentence hc (by simp [messageCredentialShapes]) ?_ ?_ h
  · intro right s e hs he _
    have hfirst : (Pattern.seq .boundary (ignoringCase "Bearer")).test sentence.start = true :=
      test_of_crossing isWord_space (within_of_excludes (by decide)) hs he
    rw [hc.bearer_start] at hfirst
    exact absurd hfirst (by simp)
  · intro s e he
    obtain ⟨t, ht, he⟩ := List.mem_flatMap.mp he
    obtain ⟨t', -, rfl⟩ :=
      ends_extend_of_within hc.separates (within_of_excludes hc.bearer_after.1) ht
    obtain ⟨u, hu, he⟩ := List.mem_flatMap.mp he
    rcases splitsAt_ends _ hc.separates sentence.rest t' u hu with ⟨u', -, rfl⟩ | hin
    · obtain ⟨e', -, rfl⟩ :=
        ends_extend_of_within hc.separates (within_of_excludes hc.bearer_after.2) he
      exact not_inside_extend _ e'
    · -- the white space can only be the character after the identifier
      have hspaces : (Pattern.many isWhitespace 1).Within (fun c => isWhitespace c = true) :=
        ⟨⟨fun _ hc => hc, trivial⟩, fun _ hc => hc⟩
      obtain ⟨m, hne, hm, hb, hq⟩ := (consumes_of_ends hspaces hu).inside hin
      rcases hc.bearer_rest with hafter | ⟨hrest, hnone⟩
      · match m, hne, hm, hq with
        | c :: m, _, hm, hq =>
          obtain ⟨rfl, -⟩ := List.cons.inj hm
          rw [hq _ (by simp)] at hafter
          exact absurd hafter (by simp)
      · have hu' : u = ⟨some sentence.after, sentence.rest⟩ := by
          match m, hne, hm, hb, hq with
          | [c], _, hm, hb, _ =>
            obtain ⟨rfl, hrest⟩ := List.cons.inj hm
            ext1
            · exact hb
            · exact hrest.symm
          | c :: d :: m, _, hm, _, hq =>
            have hd : sentence.rest = d :: (m ++ u.rest) := (List.cons.inj hm).2
            rw [hd] at hrest
            have := hq d (by simp)
            simp [this] at hrest
        rw [hu', hnone] at he
        simp at he

theorem exists_secretFirstWord {s e : Place} (h : e ∈ secretName.ends s) :
    ∃ e', e' ∈ secretFirstWord.ends s := by
  simp only [secretName, secretFirstWord, choice, ends, List.mem_append, List.mem_flatMap, twoWords]
    at h ⊢
  rcases h with h | ⟨t, h, -⟩ | ⟨t, h, -⟩ | h | h | ⟨t, h, -⟩ | ⟨t, h, -⟩ | h
  · exact ⟨_, .inl h⟩
  · exact ⟨_, .inr (.inl h)⟩
  · exact ⟨_, .inr (.inr (.inl h))⟩
  · exact ⟨_, .inr (.inr (.inr (.inl h)))⟩
  · exact ⟨_, .inr (.inr (.inr (.inr (.inl h))))⟩
  · exact ⟨_, .inr (.inr (.inr (.inr (.inr (.inl h)))))⟩
  · exact ⟨_, .inr (.inr (.inr (.inr (.inr (.inr (.inl h))))))⟩
  · exact ⟨_, .inr (.inr (.inr (.inr (.inr (.inr (.inr h))))))⟩

theorem test_assignmentShape (hc : sentence.Clean)
    (h : assignmentShape.test (sentence.text id) = true) : assignmentShape.test id = true := by
  have hends : EndsWith (fun c => anyOf ":=" c = true) assignmentShape :=
    .seq (.seq (.seq (.seq (.seq (.cls fun _ hc => hc)))))
  refine test_sentence hc (by simp [messageCredentialShapes]) ?_ ?_ h
  · intro right s e hs he _
    obtain ⟨t, ht, he⟩ := List.mem_flatMap.mp he
    rcases splitsAt_ends _ isWord_space right s t ht with ⟨t', ht', rfl⟩ | hin
    · -- the name starts before the space, where none of its first words stands
      obtain ⟨u, hu, he⟩ := List.mem_flatMap.mp he
      obtain ⟨u', hu', rfl⟩ :=
        ends_extend_of_within isWord_space (within_of_excludes (by decide)) hu
      obtain ⟨w, hw, -⟩ := List.mem_flatMap.mp he
      obtain ⟨w', hw'⟩ := exists_secretFirstWord hw
      obtain ⟨w'', hw'', -⟩ :=
        ends_extend_of_within isWord_space (within_of_excludes (by decide)) hw'
      have htest : (Pattern.seq nameStart (.seq namePrefixes secretFirstWord)).test
          sentence.start = true := by
        refine testFrom_iff.mpr ⟨s, hs, List.ne_nil_of_mem (a := w'') ?_⟩
        exact List.mem_flatMap.mpr ⟨t', ht', List.mem_flatMap.mpr ⟨u', hu', hw''⟩⟩
      rw [hc.name_start] at htest
      exact absurd htest (by simp)
    · -- the name starts after the space, as it would at the start of the text
      have ht' : t = ⟨some ' ', right⟩ := by
        obtain ⟨before, rest⟩ := s
        rcases List.mem_append.mp ht with ht | ht
        · obtain rfl := mem_ends_start ht
          exact absurd hin (not_inside_extend _ ⟨before, rest⟩)
        · cases rest with
          | nil => simpa [ends, extend] using ht
          | cons c rest =>
            obtain ⟨-, rfl⟩ : c.isAlphanum = false ∧ t = extend (' ' :: right) ⟨some c, rest⟩ := by
              simpa [ends, extend] using ht
            exact absurd hin (not_inside_extend _ ⟨some c, rest⟩)
      rw [ht'] at he
      obtain ⟨e', he', -⟩ := ends_forget he (.inr ⟨rfl, isWord_space⟩)
      refine testFrom_iff.mpr ⟨⟨none, right⟩, .refl _, List.ne_nil_of_mem (a := e') ?_⟩
      exact List.mem_flatMap.mpr ⟨⟨none, right⟩, by simp [nameStart, ends], he'⟩
  · intro s e he
    exact hends.not_inside he (not_of_all hc.name_rest)

theorem test_asWord_alt {first second : Pattern} {text : List Char}
    (h : (asWord (.alt first second)).test text = true) :
    (asWord first).test text = true ∨ (asWord second).test text = true := by
  obtain ⟨s, hs, hne⟩ := testFrom_iff.mp h
  obtain ⟨e, he⟩ := List.exists_mem_of_ne_nil _ hne
  obtain ⟨t, ht, he⟩ := List.mem_flatMap.mp he
  obtain ⟨u, hu, he⟩ := List.mem_flatMap.mp he
  have hmem : ∀ body : Pattern, u ∈ body.ends t → (asWord body).test text = true := by
    intro body hbody
    refine testFrom_iff.mpr ⟨s, hs, List.ne_nil_of_mem (a := e) ?_⟩
    exact List.mem_flatMap.mpr ⟨t, ht, List.mem_flatMap.mpr ⟨u, hbody, he⟩⟩
  rcases List.mem_append.mp hu with hu | hu
  · exact .inl (hmem first hu)
  · exact .inr (hmem second hu)

theorem sentence_clean (hc : sentence.Clean) {text : String}
    (h : looksLikeCredential text = false) :
    (messageCredentialShapes.any fun p => p.test (sentence.text text.toList)) = false := by
  have hno : ∀ p ∈ journalCredentialShapes, ¬ p.test text.toList = true := by
    intro p hp htest
    have : looksLikeCredential text = true := List.any_eq_true.mpr ⟨p, hp, htest⟩
    rw [h] at this
    exact absurd this (by simp)
  rw [← Bool.not_eq_true, List.any_eq_true]
  rintro ⟨p, hp, htest⟩
  have hmem := hp
  simp only [messageCredentialShapes, List.mem_cons, List.not_mem_nil, or_false] at hp
  rcases hp with rfl | rfl | rfl | rfl | rfl
  · exact hno _ (by simp [journalCredentialShapes]) (test_privateKeyShape hc htest)
  · have hid := test_sentence_of_excludes hc hmem (by decide) hc.token_after htest
    rcases test_asWord_alt hid with hid | hid
    · exact hno _ (by simp [journalCredentialShapes]) hid
    rcases test_asWord_alt hid with hid | hid
    · exact hno _ (by simp [journalCredentialShapes]) hid
    rcases test_asWord_alt hid with hid | hid
    · exact hno _ (by simp [journalCredentialShapes]) hid
    rcases test_asWord_alt hid with hid | hid
    · exact hno _ (by simp [journalCredentialShapes]) hid
    · exact hno (asWord akiaShape) (by simp [journalCredentialShapes]) hid
  · exact hno _ (by simp [journalCredentialShapes]) (test_bearerShape hc htest)
  · exact hno jwtShape (by simp [journalCredentialShapes])
      (test_sentence_of_excludes hc hmem (by decide) hc.jwt_after htest)
  · exact hno _ (by simp [journalCredentialShapes]) (test_assignmentShape hc htest)

theorem length_utf16_text (s : Sentence) (id : List Char) :
    (utf16 (s.text id)).length = (utf16 (s.text [])).length + (utf16 id).length := by
  simp only [Sentence.text, utf16, List.flatMap_append, List.flatMap_cons, List.length_append,
    List.nil_append]
  omega

/-- The sentence around a bounded identifier passes the check of messages. -/
theorem assertPreRedacted_sentence (hc : sentence.Clean) {text message : String}
    (hmessage : message.toList = sentence.text text.toList) (hlength : jsLength text ≤ 256)
    (hcontrol : hasControl text = false) (hcredential : looksLikeCredential text = false) :
    assertPreRedactedTerminationMessage message = .ok () := by
  have hle : jsLength message ≤ maxSessionTerminationMessageLength := by
    have hsum := length_utf16_text sentence text.toList
    have hconstant := hc.length_le
    unfold jsLength at hlength ⊢
    unfold maxSessionTerminationMessageLength
    rw [hmessage]
    omega
  have hne : message ≠ "" := by
    rintro rfl
    have hnil := congrArg List.length hmessage
    simp only [Sentence.text, String.toList_empty, List.length_nil, List.length_append,
      List.length_cons] at hnil
    omega
  have hnul : message.toList.contains '\x00' = false := by
    have hconstant := hc.no_nul
    rw [← Bool.not_eq_true, List.contains_iff_mem] at hconstant ⊢
    rw [hmessage]
    intro hmem
    simp only [Sentence.text, List.mem_append, List.mem_cons, List.nil_append] at hmem hconstant
    have hid : '\x00' ∈ text.toList := by tauto
    have : hasControl text = true := List.any_eq_true.mpr ⟨_, hid, rfl⟩
    rw [hcontrol] at this
    exact absurd this (by simp)
  unfold assertPreRedactedTerminationMessage
  rw [(require_eq_ok (u := ())).mpr (by simp [hne, hle])]
  simp only [ok_bind]
  rw [(require_eq_ok (u := ())).mpr (by rw [hnul]; rfl)]
  simp only [ok_bind]
  rw [require_eq_ok, hmessage, sentence_clean hc hcredential]
  rfl

/-! ## The recovery termination -/

/-- The sentence of `nextActionFor` for a crash. -/
def crashSentence : Sentence :=
  ⟨"Run omk session doctor --session".toList, ' ', "and review partial side effects.".toList⟩

theorem crashSentence_clean : crashSentence.Clean where
  separates := by decide
  start_clean := by decide
  rest_clean := by decide
  token_after := by decide
  jwt_after := by decide
  key_start := by decide
  key_rest := by decide
  bearer_start := by decide
  bearer_after := by decide
  bearer_rest := by decide
  name_start := by decide
  name_rest := by decide
  no_nul := by decide
  length_le := by decide

/-- `nextActionFor` of a crash. -/
def recoveryAction (sessionId : String) : String :=
  "Run omk session doctor --session " ++ sessionId ++ " and review partial side effects."

variable {now runId sessionId : String}

theorem assertPreRedacted_recoveryAction (h : Identifier sessionId) :
    assertPreRedactedTerminationMessage (recoveryAction sessionId) = .ok () := by
  have htext : (recoveryAction sessionId).toList = crashSentence.text sessionId.toList := by
    unfold recoveryAction Sentence.text crashSentence
    simp [String.toList_append]
  have hlength : jsLength sessionId ≤ 256 := by
    have hid := h.length_le
    unfold maxRunJournalIdLength at hid
    omega
  exact assertPreRedacted_sentence crashSentence_clean htext hlength h.no_control h.no_credential

/-- The message of `open`. -/
theorem assertPreRedacted_recoveryMessage :
    assertPreRedactedTerminationMessage
      "Previous process exited without closing the run; recovered on startup." = .ok () := by
  decide

/-- The classification of a crash. -/
def crash : Classification := ⟨.processCrash, .resume, "process.crash", true, none, none⟩

/-- The termination of a run that was left open. -/
def recoveryTermination (sessionId runId now : String) : Json :=
  terminationOf crash (recoveryInput sessionId runId now)

theorem assertClassifierIdentifier_eq_ok {text name : String} (h : Identifier text) :
    assertClassifierIdentifier text name 128 = .ok () := by
  unfold assertClassifierIdentifier
  rw [require_eq_ok]
  have hlength := h.length_le
  unfold maxRunJournalIdLength at hlength
  simp [h.ne_empty, hlength, h.no_control]

theorem classifySessionTermination_recovery (hsession : Identifier sessionId)
    (hrun : Identifier runId) (hnow : isCanonicalTimestamp now = true) :
    classifySessionTermination (recoveryInput sessionId runId now) =
      .ok (recoveryTermination sessionId runId now) := by
  unfold classifySessionTermination
  show (do
    assertClassifierIdentifier sessionId "sessionId" 128
    assertClassifierIdentifier runId "runId" 128
    require (isCanonicalTimestamp now) "timestamp must be a canonical ISO-8601 UTC instant"
    assertPreRedactedTerminationMessage
      "Previous process exited without closing the run; recovered on startup."
    return recoveryTermination sessionId runId now) = .ok (recoveryTermination sessionId runId now)
  rw [assertClassifierIdentifier_eq_ok hsession, assertClassifierIdentifier_eq_ok hrun,
    (require_eq_ok (u := ())).mpr hnow, assertPreRedacted_recoveryMessage]
  rfl

/-- There is no other classification of a recovery. -/
theorem eq_recoveryTermination {termination : Json}
    (h : classifySessionTermination (recoveryInput sessionId runId now) = .ok termination) :
    termination = recoveryTermination sessionId runId now := by
  unfold classifySessionTermination at h
  have h' : (do
    assertClassifierIdentifier sessionId "sessionId" 128
    assertClassifierIdentifier runId "runId" 128
    require (isCanonicalTimestamp now) "timestamp must be a canonical ISO-8601 UTC instant"
    assertPreRedactedTerminationMessage
      "Previous process exited without closing the run; recovered on startup."
    return recoveryTermination sessionId runId now) = .ok termination := h
  simp only [bind_eq_ok, pure_eq_ok, Except.ok.injEq] at h'
  obtain ⟨_, -, _, -, _, -, _, -, heq⟩ := h'
  exact heq.symm

theorem wellFormed_recoveryTermination (sessionId runId now : String) :
    (recoveryTermination sessionId runId now).WellFormed := by
  have hfields : recoveryTermination sessionId runId now = .obj
      [("schemaVersion", .num (.ofNat 1)), ("sessionId", .str sessionId), ("runId", .str runId),
        ("kind", .str "process_crash"), ("phase", .str "resume"),
        ("source", .str "inferred_on_resume"),
        ("message",
          .str "Previous process exited without closing the run; recovered on startup."),
        ("causeCode", .str "process.crash"), ("nextAction", .str (recoveryAction sessionId)),
        ("retryable", .bool true), ("safeToAutoRetry", .bool false),
        ("sideEffects", .str "possible"), ("timestamp", .str now)] := rfl
  rw [hfields]
  refine ⟨by simp, ?_⟩
  rw [Json.wellFormedFields_iff]
  intro f hf
  simp only [List.mem_cons, List.not_mem_nil, or_false] at hf
  rcases hf with rfl | rfl | rfl | rfl | rfl | rfl | rfl | rfl | rfl | rfl | rfl | rfl | rfl
  all_goals trivial

/-- The fields that a recovery leaves out. -/
theorem get?_recoveryTermination_absent (sessionId runId now : String) {k : String}
    (h : k ∈ ["retryAfterMs", "provider", "model", "toolCallId", "toolName", "processSignal",
      "transcriptIssue"]) : (recoveryTermination sessionId runId now).get? k = none := by
  simp only [List.mem_cons, List.not_mem_nil, or_false] at h
  rcases h with rfl | rfl | rfl | rfl | rfl | rfl | rfl <;> rfl

theorem assertTerminationCoherence_recovery :
    assertTerminationCoherence
      ⟨"process_crash", "resume", "inferred_on_resume", "process.crash", true, false, "possible", none,
        none⟩ = .ok () := rfl

theorem assertTerminationFields_recovery (hsession : Identifier sessionId)
    (hnow : isCanonicalTimestamp now = true) :
    assertTerminationFields (fun key => (recoveryTermination sessionId runId now).get? key) runId
      sessionId = .ok () := by
  have htime : assertCanonicalTimestamp (some (.str now)) "termination.timestamp" = .ok now :=
    assertCanonicalTimestamp_eq_ok.mpr ⟨rfl, hnow⟩
  have habsent := @get?_recoveryTermination_absent sessionId runId now
  have hversion : (recoveryTermination sessionId runId now).get? "schemaVersion" =
    some (.num (.ofNat 1)) := rfl
  have hrun : (recoveryTermination sessionId runId now).get? "runId" = some (.str runId) := rfl
  have hid : (recoveryTermination sessionId runId now).get? "sessionId" = some (.str sessionId) := rfl
  have hkind : assertOneOf ((recoveryTermination sessionId runId now).get? "kind")
    sessionTerminationKinds "termination kind is out of bounds" = .ok "process_crash" := rfl
  have hphase : assertOneOf ((recoveryTermination sessionId runId now).get? "phase")
    sessionTerminationPhases "termination phase is out of bounds" = .ok "resume" := rfl
  have hsource : assertOneOf ((recoveryTermination sessionId runId now).get? "source")
    sessionTerminationSources "termination source is out of bounds" = .ok "inferred_on_resume" := rfl
  have hmessage : (recoveryTermination sessionId runId now).get? "message" =
    some (.str "Previous process exited without closing the run; recovered on startup.") := rfl
  have hcause : (recoveryTermination sessionId runId now).get? "causeCode" =
    some (.str "process.crash") := rfl
  have hcode : isCauseCode "process.crash" = true := by decide
  have hnext : (recoveryTermination sessionId runId now).get? "nextAction" =
    some (.str (recoveryAction sessionId)) := rfl
  have hretryable : (recoveryTermination sessionId runId now).get? "retryable" =
    some (.bool true) := rfl
  have hsafe : (recoveryTermination sessionId runId now).get? "safeToAutoRetry" =
    some (.bool false) := rfl
  have heffects : assertOneOf ((recoveryTermination sessionId runId now).get? "sideEffects")
    sessionSideEffects "termination sideEffects is out of bounds" = .ok "possible" := rfl
  have hstamp : (recoveryTermination sessionId runId now).get? "timestamp" = some (.str now) := rfl
  unfold assertTerminationFields
  simp only [hversion, hrun, hid, hkind, hphase, hsource, hmessage, hcause, hnext, hretryable, hsafe,
    heffects, hstamp, htime, assertText, assertBool, ok_bind, assertPreRedacted_recoveryMessage,
    assertPreRedacted_recoveryAction hsession, hcode, decide_true,
    habsent (k := "retryAfterMs") (by simp), habsent (k := "provider") (by simp),
    habsent (k := "model") (by simp), habsent (k := "toolCallId") (by simp),
    habsent (k := "toolName") (by simp), habsent (k := "processSignal") (by simp),
    habsent (k := "transcriptIssue") (by simp), ifPresent, assertTerminationCoherence_recovery]
  rfl

theorem assertBounded_recoveryTermination (hsession : Identifier sessionId)
    (hnow : isCanonicalTimestamp now = true) :
    assertBoundedSessionTermination (some (recoveryTermination sessionId runId now)) runId sessionId =
      .ok () := by
  have hkeys : assertPlainDataRecord (some (recoveryTermination sessionId runId now)) "termination"
      terminationAllowedKeys = .ok () := rfl
  unfold assertBoundedSessionTermination
  rw [hkeys]
  exact assertTerminationFields_recovery hsession hnow

theorem coherent_recoveryTermination (sessionId runId now : String) :
    isTerminalCoherentWithEvent .runRecovered (recoveryTermination sessionId runId now) = true := rfl

theorem timestamp_recoveryTermination (sessionId runId now : String) :
    (recoveryTermination sessionId runId now).get? "timestamp" = some (.str now) := rfl

end CodingAgent.Journal
