import OmkVerified.CodingAgent.RunJournal.Inspect
import OmkVerified.CodingAgent.RunJournal.Proofs.WriterProofs
import OmkVerified.CodingAgent.Session.Proofs.StorableProofs

/-!
# The inspector accepts what the writer appends

The inspector reads a record from its canonical text. The checks of a termination and of audit
details do not depend on the order of the keys, so the record that is read fits the journal exactly
when the record that was written does, and the variables of the inspector's loop stay those of the
writer.
-/

namespace CodingAgent.Journal

open Lib

/-! ## The checks do not see the order of keys -/

theorem map_canonical_eq_str {value : Option Json} {text : String} :
    value.map Json.canonical = some (.str text) ↔ value = some (.str text) := by
  rcases value with _ | value
  · simp
  · cases value <;> simp [Json.canonical]

theorem map_canonical_eq_num {value : Option Json} {n : Decimal} :
    value.map Json.canonical = some (.num n) ↔ value = some (.num n) := by
  rcases value with _ | value
  · simp
  · cases value <;> simp [Json.canonical]

theorem assertOneOf_canonical (value : Option Json) (values : List String) (message : String) :
    assertOneOf (value.map Json.canonical) values message = assertOneOf value values message := by
  rcases value with _ | value
  · rfl
  · cases value <;> rfl

theorem assertText_canonical (value : Option Json) (message : String) :
    assertText (value.map Json.canonical) message = assertText value message := by
  rcases value with _ | value
  · rfl
  · cases value <;> rfl

theorem assertBool_canonical (value : Option Json) (message : String) :
    assertBool (value.map Json.canonical) message = assertBool value message := by
  rcases value with _ | value
  · rfl
  · cases value <;> rfl

theorem assertCanonicalTimestamp_canonical (value : Option Json) (name : String) :
    assertCanonicalTimestamp (value.map Json.canonical) name =
      assertCanonicalTimestamp value name := by
  rcases value with _ | value
  · rfl
  · cases value <;> rfl

theorem assertSafeInteger_canonical (value : Option Json) (name : String) :
    assertSafeInteger (value.map Json.canonical) name = assertSafeInteger value name := by
  rcases value with _ | value
  · rfl
  · cases value <;> rfl

theorem assertOpenIdentifier_canonical (value : Option Json) (name : String) (maxLength : Nat) :
    assertOpenIdentifier (value.map Json.canonical) name maxLength =
      assertOpenIdentifier value name maxLength := by
  rcases value with _ | value
  · rfl
  · cases value <;> rfl

theorem ifPresent_canonical (value : Option Json) {check : Json → Result Unit}
    (h : ∀ v, check v.canonical = check v) :
    ifPresent (value.map Json.canonical) check = ifPresent value check := by
  rcases value with _ | value
  · rfl
  · exact h value

theorem ifPresent_identifier (value : Option Json) (name : String) (maxLength : Nat) :
    (ifPresent (value.map Json.canonical) fun v => assertOpenIdentifier (some v) name maxLength) =
      ifPresent value fun v => assertOpenIdentifier (some v) name maxLength :=
  ifPresent_canonical value fun v => assertOpenIdentifier_canonical (some v) name maxLength

theorem ifPresent_oneOf (value : Option Json) (values : List String) (message : String) :
    (ifPresent (value.map Json.canonical) fun v =>
        (assertOneOf (some v) values message).map fun _ => ()) =
      ifPresent value fun v => (assertOneOf (some v) values message).map fun _ => () :=
  ifPresent_canonical value fun v =>
    congrArg (Except.map fun _ => ()) (assertOneOf_canonical (some v) values message)

theorem ifPresent_safeInteger (value : Option Json) (name : String) :
    (ifPresent (value.map Json.canonical) fun v =>
        (assertSafeInteger (some v) name).map fun _ => ()) =
      ifPresent value fun v => (assertSafeInteger (some v) name).map fun _ => () :=
  ifPresent_canonical value fun v =>
    congrArg (Except.map fun _ => ()) (assertSafeInteger_canonical (some v) name)

theorem ifPresent_bool (value : Option Json) (message : String) :
    (ifPresent (value.map Json.canonical) fun v => (assertBool (some v) message).map fun _ => ()) =
      ifPresent value fun v => (assertBool (some v) message).map fun _ => () :=
  ifPresent_canonical value fun v =>
    congrArg (Except.map fun _ => ()) (assertBool_canonical (some v) message)

theorem assertTerminationCoherence_canonical (kind phase source causeCode : String)
    (retryable safeToAutoRetry : Bool) (sideEffects : String)
    (processSignal transcriptIssue : Option Json) :
    assertTerminationCoherence ⟨kind, phase, source, causeCode, retryable, safeToAutoRetry,
        sideEffects, processSignal.map Json.canonical, transcriptIssue.map Json.canonical⟩ =
      assertTerminationCoherence ⟨kind, phase, source, causeCode, retryable, safeToAutoRetry,
        sideEffects, processSignal, transcriptIssue⟩ := by
  unfold assertTerminationCoherence
  simp only [Option.isSome_map, Option.isNone_map, map_canonical_eq_str]

theorem assertTerminationFields_canonical (get : String → Option Json) (runId sessionId : String) :
    assertTerminationFields (fun key => (get key).map Json.canonical) runId sessionId =
      assertTerminationFields get runId sessionId := by
  unfold assertTerminationFields
  simp only [map_canonical_eq_num, map_canonical_eq_str, assertOneOf_canonical, assertText_canonical,
    assertBool_canonical, assertCanonicalTimestamp_canonical, ifPresent_safeInteger,
    ifPresent_identifier, ifPresent_oneOf, assertTerminationCoherence_canonical]

theorem assertInsertedIds_canonical (ids : List Json) :
    assertInsertedIds (ids.map Json.canonical) = assertInsertedIds ids := by
  induction ids with
  | nil => rfl
  | cons id ids ih =>
    have hid := assertOpenIdentifier_canonical (some id) "details.insertedToolCallIds[]" 512
    rw [Option.map_some] at hid
    simp only [List.map_cons, assertInsertedIds, hid, ih]

theorem assertAuditFields_canonical (get : String → Option Json) :
    assertAuditFields (fun key => (get key).map Json.canonical) = assertAuditFields get := by
  have hids : ∀ value : Json,
      assertInsertedToolCallIds value.canonical = assertInsertedToolCallIds value := by
    intro value
    cases value with
    | arr items =>
      simp only [Json.canonical, assertInsertedToolCallIds, Json.canonicalItems_eq, List.length_map,
        assertInsertedIds_canonical]
    | _ => rfl
  have hrisk : ∀ value : Json, assertSessionRisk value.canonical = assertSessionRisk value := by
    intro value
    unfold assertSessionRisk
    cases value <;> simp [Json.canonical]
  unfold assertAuditFields
  simp only [ifPresent_identifier, ifPresent_oneOf, ifPresent_safeInteger, ifPresent_bool,
    ifPresent_canonical (get "insertedToolCallIds") hids,
    ifPresent_canonical (get "sessionRisk") hrisk]

theorem keys_canonical (fields : List (String × Json)) (p : String → Bool) :
    ((Json.sortFields (Json.canonical.canonicalFields fields)).all fun f => p f.1) =
      fields.all fun f => p f.1 := by
  rw [Bool.eq_iff_iff, List.all_eq_true, List.all_eq_true]
  simp only [(Json.sortFields_perm _).mem_iff, Json.canonicalFields_eq, List.mem_map,
    forall_exists_index, and_imp, forall_apply_eq_imp_iff₂]

theorem assertPlainDataRecord_canonical (value : Json) (name : String) (keys : List String) :
    assertPlainDataRecord (some value.canonical) name keys =
      assertPlainDataRecord (some value) name keys := by
  cases value with
  | obj fields =>
    simp only [Json.canonical, assertPlainDataRecord]
    rw [keys_canonical]
  | _ => rfl

theorem assertBoundedSessionTermination_canonical {value : Json} (h : value.WellFormed)
    (runId sessionId : String) :
    assertBoundedSessionTermination (some value.canonical) runId sessionId =
      assertBoundedSessionTermination (some value) runId sessionId := by
  unfold assertBoundedSessionTermination
  rw [assertPlainDataRecord_canonical]
  simp only [Option.bind_some, Json.get?_canonical h, assertTerminationFields_canonical]

theorem assertBoundedAuditDetails_canonical {value : Json} (h : value.WellFormed) :
    assertBoundedAuditDetails (some value.canonical) = assertBoundedAuditDetails (some value) := by
  unfold assertBoundedAuditDetails
  rw [assertPlainDataRecord_canonical]
  simp only [Option.bind_some, Json.get?_canonical h, assertAuditFields_canonical]

theorem isTerminalCoherentWithEvent_canonical (event : TerminalEvent) {value : Json}
    (h : value.WellFormed) :
    isTerminalCoherentWithEvent event value.canonical = isTerminalCoherentWithEvent event value := by
  unfold isTerminalCoherentWithEvent
  simp only [Json.get?_canonical h, map_canonical_eq_str, ne_eq]

/-! ## The shape of a record -/

theorem ofText?_eq_some {text : String} {event : EventKind} :
    EventKind.ofText? text = some event ↔ event.text = text := by
  constructor
  · intro h
    simpa using List.find?_some h
  · rintro rfl
    rcases event with _ | event | event
    · rfl
    · cases event <;> rfl
    · cases event <;> rfl

theorem eventOf_eq_some {value : Json} {event : EventKind} :
    eventOf value = some event ↔ value.get? "event" = some (.str event.text) := by
  unfold eventOf
  split
  · rename_i text htext
    rw [ofText?_eq_some, htext, Option.some.injEq, Json.str.injEq, eq_comm]
  · rename_i hne
    constructor
    · exact fun h => by simp at h
    · exact fun h => absurd h (hne _)

theorem toNat?_eq_some {d : Decimal} {n : Nat} : d.toNat? = some n ↔ d = .ofNat n := by
  constructor
  · intro h
    unfold Decimal.toNat? at h
    split_ifs at h with hpos
    obtain ⟨hm, he⟩ := hpos
    by_cases hz : d.mantissa = 0
    · have hex : d.exponent = 0 := by
        have := d.normal
        omega
      obtain rfl : 0 = n := by simpa [hz] using h
      ext
      · exact hz
      · exact hex
    · have hmul := d.ofDigits_mul hz d.exponent.toNat
      have hneg : decide (d.mantissa < 0) = false := by simpa using hm
      have habs : d.mantissa.natAbs = d.mantissa.toNat := by omega
      have hexp : d.exponent - (d.exponent.toNat : Int) = 0 := by omega
      rw [hneg, habs, hexp, Option.some.inj h] at hmul
      exact hmul.symm
  · rintro rfl
    exact Decimal.toNat?_ofNat n

theorem safeNat?_eq_some {value : Option Json} {n : Nat} :
    safeNat? value = some n ↔ value = some (number n) ∧ n ≤ maxSafeInteger := by
  unfold safeNat?
  split
  · rename_i d
    simp only [Option.filter_eq_some_iff, toNat?_eq_some, decide_eq_true_eq, Option.some.injEq,
      number, Json.num.injEq]
  · rename_i hne
    constructor
    · exact fun h => by simp at h
    · rintro ⟨rfl, -⟩
      exact absurd rfl (hne _)

theorem timestamp?_eq_some {value : Option Json} {text : String} :
    timestamp? value = some text ↔
      value = some (.str text) ∧ isCanonicalTimestamp text = true := by
  unfold timestamp?
  split
  · rename_i t
    split_ifs with h
    · simp only [Option.some.injEq, Json.str.injEq, iff_self_and]
      rintro rfl
      exact h
    · simp only [Option.some.injEq, Json.str.injEq, false_iff, not_and]
      rintro rfl
      exact h
  · rename_i hne
    constructor
    · exact fun h => by simp at h
    · rintro ⟨rfl, -⟩
      exact absurd rfl (hne _)

theorem text?_eq_some {value : Option Json} {text : String} :
    text? value = some text ↔ value = some (.str text) := by
  unfold text?
  split
  · simp
  · rename_i hne
    constructor
    · exact fun h => by simp at h
    · rintro rfl
      exact absurd rfl (hne _)

/-- The value has the shape of a record with these fields. -/
structure Shape (value : Json) (common : CommonShape) : Prop where
  isRecord : value.isRecord = true
  keys : ∀ key ∈ keysOf value, key ∈ allowedRecordKeys (some common.event)
  termination : isTerminal (some common.event) = (value.get? "termination").isSome
  details : isAudit (some common.event) = (value.get? "details").isSome
  schemaVersion : value.get? "schemaVersion" = some (number 1)
  event : value.get? "event" = some (.str common.event.text)
  seq : value.get? "seq" = some (number common.seq) ∧ common.seq ≤ maxSafeInteger
  runId : value.get? "runId" = some (.str common.runId) ∧ Identifier common.runId
  sessionId : value.get? "sessionId" = some (.str common.sessionId) ∧ Identifier common.sessionId
  sessionRevision : value.get? "sessionRevision" = some (number common.sessionRevision) ∧
    common.sessionRevision ≤ maxSafeInteger
  timestamp : value.get? "timestamp" = some (.str common.timestamp) ∧
    isCanonicalTimestamp common.timestamp = true
  prevHash : value.get? "prevHash" = some (.str common.prevHash)
  hash : value.get? "hash" = some (.str common.hash)

theorem guard_bind_eq_some {α : Type} {c : Prop} [Decidable c] {f : Unit → Option α} {a : α} :
    (guard c : Option Unit).bind f = some a ↔ c ∧ f () = some a := by
  by_cases h : c <;> simp [guard, h]

theorem validateCommonShape_eq_some {value : Json} {common : CommonShape} :
    validateCommonShape value = some common ↔ Shape value common := by
  obtain ⟨seq, event, runId, sessionId, revision, timestamp, prevHash, hash⟩ := common
  unfold validateCommonShape
  simp only [Option.bind_eq_bind, guard_bind_eq_some]
  simp only [Option.bind_eq_some_iff, Option.pure_def,
    Option.some.injEq, safeNat?_eq_some, boundedIdentifier?_eq_some, timestamp?_eq_some,
    text?_eq_some]
  constructor
  · rintro ⟨hrec, hkeys, hterm, hdet, hver, e, he, n, hn, i, hi, s, hs, v, hv, t, ht, p, hp, h, hh, heq⟩
    cases heq
    rw [he] at hkeys hterm hdet
    exact ⟨hrec, fun key hkey => by simpa using List.all_eq_true.mp hkeys key hkey, hterm, hdet, hver,
      (eventOf_eq_some).mp he, hn, hi, hs, hv, ht, hp, hh⟩
  · intro h
    have he := (eventOf_eq_some).mpr h.event
    simp only at he
    refine ⟨h.isRecord, ?_, ?_, ?_, h.schemaVersion, event, he, seq, h.seq, runId, h.runId, sessionId,
      h.sessionId, revision, h.sessionRevision, timestamp, h.timestamp, prevHash, h.prevHash, hash,
      h.hash, rfl⟩
    · rw [he]
      exact List.all_eq_true.mpr fun key hkey => by simpa using h.keys key hkey
    · rw [he]
      exact h.termination
    · rw [he]
      exact h.details

/-! ## The JSON value of a record -/

/-- The event with the keys of what it carries sorted. -/
def Event.canonical : Event → Event
  | runStarted => .runStarted
  | terminal event termination => .terminal event termination.canonical
  | audit event details => .audit event details.canonical

/-- The same record as it is read from its line: the keys of what its event carries are sorted. -/
def RunJournalRecord.canonical (r : RunJournalRecord) : RunJournalRecord :=
  { r with event := r.event.canonical }

/-- The fields of a record that do not depend on its event. -/
def RunJournalRecord.common (r : RunJournalRecord) : CommonShape where
  seq := r.seq
  event := r.event.kind
  runId := r.runId
  sessionId := r.sessionId
  sessionRevision := r.sessionRevision
  timestamp := r.timestamp
  prevHash := r.prevHash
  hash := r.hash

@[simp]
theorem kind_canonical (event : Event) : event.canonical.kind = event.kind := by
  cases event <;> rfl

variable {r : RunJournalRecord}

theorem wellFormed_toJson (h : r.event.WellFormed) : r.toJson.WellFormed := by
  obtain ⟨⟨seq, event, runId, sessionId, revision, timestamp, prevHash⟩, hash⟩ := r
  have hfields : ∀ f ∈ event.fields, Json.WellFormed f.2 := by
    cases event with
    | runStarted => simp [Event.fields]
    | terminal event termination | audit event details => simpa [Event.fields, Event.WellFormed] using h
  refine ⟨?_, ?_⟩
  · cases event <;> simp [RecordBase.fields, Event.fields]
  · rw [Json.wellFormedFields_iff]
    intro f hf
    simp only [RecordBase.fields, List.mem_append, List.mem_cons, List.not_mem_nil, or_false] at hf
    rcases hf with ((rfl | rfl | rfl | rfl | rfl | rfl | rfl | rfl) | hf) | rfl
    case inl.inr => exact hfields f hf
    all_goals trivial

theorem get?_termination (r : RunJournalRecord) :
    r.toJson.get? "termination" =
      match r.event with
      | .terminal _ termination => some termination
      | _ => none := by
  obtain ⟨⟨seq, event, runId, sessionId, revision, timestamp, prevHash⟩, hash⟩ := r
  cases event <;> rfl

theorem get?_details (r : RunJournalRecord) :
    r.toJson.get? "details" =
      match r.event with
      | .audit _ details => some details
      | _ => none := by
  obtain ⟨⟨seq, event, runId, sessionId, revision, timestamp, prevHash⟩, hash⟩ := r
  cases event <;> rfl

theorem get?_hash (r : RunJournalRecord) : r.toJson.get? "hash" = some (.str r.hash) := by
  obtain ⟨⟨seq, event, runId, sessionId, revision, timestamp, prevHash⟩, hash⟩ := r
  cases event <;> rfl

theorem keysOf_toJson (r : RunJournalRecord) :
    ∀ key ∈ keysOf r.toJson, key ∈ allowedRecordKeys (some r.event.kind) := by
  obtain ⟨⟨seq, event, runId, sessionId, revision, timestamp, prevHash⟩, hash⟩ := r
  intro key hkey
  have hkeys : keysOf (RunJournalRecord.toJson
      ⟨⟨seq, event, runId, sessionId, revision, timestamp, prevHash⟩, hash⟩) =
      ["schemaVersion", "seq", "event", "runId", "sessionId", "sessionRevision", "timestamp",
        "prevHash"] ++ event.fields.map Prod.fst ++ ["hash"] := by
    simp [keysOf, RunJournalRecord.toJson, RecordBase.fields]
  rw [hkeys] at hkey
  simp only [List.mem_append, List.mem_cons, List.not_mem_nil, or_false] at hkey
  cases event with
  | runStarted =>
    simp only [Event.fields, List.map_nil, List.not_mem_nil, or_false] at hkey
    simp only [Event.kind, allowedRecordKeys, commonRecordKeys, List.mem_cons, List.not_mem_nil,
      or_false]
    tauto
  | terminal event termination | audit event details =>
    simp only [Event.fields, List.map_cons, List.map_nil, List.mem_singleton] at hkey
    simp only [Event.kind, allowedRecordKeys, commonRecordKeys, List.mem_append, List.mem_cons,
      List.not_mem_nil, or_false]
    tauto

theorem keysOf_canonical (value : Json) : (keysOf value.canonical).Perm (keysOf value) := by
  cases value with
  | obj fields =>
    have h := (Json.sortFields_perm (Json.canonical.canonicalFields fields)).map Prod.fst
    rwa [Json.canonicalFields_keys] at h
  | _ => exact .refl _

/-- The canonical value of a record has its shape. -/
theorem shape_canonical (hwf : r.event.WellFormed) (hseq : r.seq ≤ maxSafeInteger)
    (hrev : r.sessionRevision ≤ maxSafeInteger) (hts : isCanonicalTimestamp r.timestamp = true)
    (hrun : Identifier r.runId) (hsession : Identifier r.sessionId) :
    Shape r.toJson.canonical r.common := by
  have hget : ∀ key, r.toJson.canonical.get? key = (r.toJson.get? key).map Json.canonical :=
    Json.get?_canonical (wellFormed_toJson hwf)
  refine ⟨rfl, ?_, ?_, ?_, ?_, ?_, ⟨?_, hseq⟩, ⟨?_, hrun⟩, ⟨?_, hsession⟩, ⟨?_, hrev⟩, ⟨?_, hts⟩, ?_, ?_⟩
  · intro key hkey
    exact keysOf_toJson r key ((keysOf_canonical r.toJson).mem_iff.mp hkey)
  · rw [hget, Option.isSome_map, get?_termination]
    unfold RunJournalRecord.common
    cases r.event <;> rfl
  · rw [hget, Option.isSome_map, get?_details]
    unfold RunJournalRecord.common
    cases r.event <;> rfl
  case refine_12 =>
    rw [hget, get?_hash]
    rfl
  all_goals
    rw [hget]
    rfl

/-! ## The event of a record -/

/-- The probe of the event finds what the record carries. -/
theorem probeEvent_canonical (hwf : r.event.WellFormed)
    (hevent : ∀ event termination, r.event = .terminal event termination →
      assertBoundedSessionTermination (some termination) r.runId r.sessionId = .ok () ∧
        isTerminalCoherentWithEvent event termination = true ∧
        termination.get? "timestamp" = some (.str r.timestamp))
    (haudit : ∀ event details, r.event = .audit event details →
      assertBoundedAuditDetails (some details) = .ok ()) :
    probeEvent r.toJson.canonical r.common = .ok r.event.canonical := by
  have hget : ∀ key, r.toJson.canonical.get? key = (r.toJson.get? key).map Json.canonical :=
    Json.get?_canonical (wellFormed_toJson hwf)
  unfold probeEvent RunJournalRecord.common
  simp only [hget, get?_termination, get?_details]
  cases hr : r.event with
  | runStarted => rfl
  | terminal event termination =>
    rw [hr] at hwf
    obtain ⟨hterm, hcoh, htime⟩ := hevent event termination hr
    have htime' : termination.canonical.get? "timestamp" = some (.str r.timestamp) := by
      rw [Json.get?_canonical hwf, htime]
      rfl
    simp only [Event.kind, Option.map_some, assertBoundedSessionTermination_canonical hwf, hterm,
      isTerminalCoherentWithEvent_canonical event hwf, hcoh, htime', if_true]
    rfl
  | audit event details =>
    rw [hr] at hwf
    simp only [Event.kind, Option.map_some, assertBoundedAuditDetails_canonical hwf,
      haudit event details hr]
    rfl

/-- What a successful probe says about the event. -/
theorem probeEvent_eq_ok {value : Json} {common : CommonShape} {event : Event}
    (h : probeEvent value common = .ok event) :
    event.kind = common.event ∧
      (∀ kind termination, event = .terminal kind termination →
        value.get? "termination" = some termination ∧
          assertBoundedSessionTermination (some termination) common.runId common.sessionId = .ok () ∧
          isTerminalCoherentWithEvent kind termination = true ∧
          termination.get? "timestamp" = some (.str common.timestamp)) ∧
      ∀ kind details, event = .audit kind details →
        value.get? "details" = some details ∧ assertBoundedAuditDetails (some details) = .ok () := by
  unfold probeEvent at h
  split at h
  · rename_i hkind
    obtain rfl := Except.ok.inj h
    exact ⟨hkind.symm, by simp, by simp⟩
  · rename_i kind hkind
    split at h
    · rename_i details hok hdetails
      obtain rfl := Except.ok.inj h
      refine ⟨hkind.symm, by simp, ?_⟩
      intro kind' details' heq
      obtain ⟨rfl, rfl⟩ := Event.audit.inj heq
      rw [hdetails] at hok
      exact ⟨hdetails, hok⟩
    · simp at h
  · rename_i kind hkind
    split at h
    · rename_i termination hok hterm
      split_ifs at h with hcoh htime
      obtain rfl := Except.ok.inj h
      refine ⟨hkind.symm, ?_, by simp⟩
      intro kind' termination' heq
      obtain ⟨rfl, rfl⟩ := Event.terminal.inj heq
      rw [hterm] at hok
      exact ⟨hterm, hok, hcoh, htime⟩
    · simp at h

end CodingAgent.Journal
