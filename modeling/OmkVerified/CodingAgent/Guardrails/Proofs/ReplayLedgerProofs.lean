import OmkVerified.Lib.HashChain
import OmkVerified.CodingAgent.Guardrails.ReplayLedger
import OmkVerified.CodingAgent.Session.Proofs.StorableProofs

/-!
# What the hashes of the replay ledger determine

The events of an accepted ledger are a hash chain. The hash of an event covers the payload as it is
written, so the last hash determines every field of every event, and the payloads up to an infinity
that is written as `null`.
-/

namespace CodingAgent.Replay

open Lib

variable {sha256 : Digest} {goalId : String}

/-- What an accepted event satisfies apart from its place in the ledger. -/
structure Sound (sha256 : Digest) (goalId : String) (event : ReplayEvent) : Prop where
  goalId : event.goalId = goalId
  payloadHash : computePayloadHash sha256 event.payload = event.payloadHash
  eventHash : computeEventHash sha256 event.toChainedEvent = event.eventHash
  wellFormed : event.payload.WellFormed

/-- The chain of the events of a goal. -/
def replayChain (sha256 : Digest) (goalId : String) : HashChain ReplayEvent Decimal String where
  number := .ofNat
  seq event := event.seq
  prev event := event.prevHash
  digest event := event.eventHash
  Sound := Sound sha256 goalId

/-! ## Parsing -/

variable {event : ReplayEvent}

theorem checkEvent_eq_ok {index : Nat} {prevHash : String} (hwf : event.payload.WellFormed) :
    checkEvent sha256 goalId index prevHash event = .ok () ↔
      (replayChain sha256 goalId).Follows index prevHash event := by
  unfold checkEvent
  simp only [bind_eq_ok, require_eq_ok, decide_eq_true_eq]
  constructor
  · rintro ⟨-, hgoal, -, hseq, -, hprev, -, hpayload, hevent⟩
    exact ⟨hseq, hprev, ⟨hgoal, hpayload, hevent, hwf⟩⟩
  · rintro ⟨hseq, hprev, hgoal, hpayload, hevent, -⟩
    exact ⟨(), hgoal, (), hseq, (), hprev, (), hpayload, hevent⟩

/-- The event of a line. -/
def lineEvent? (line : List Char) : Option ReplayEvent := (Json.parse line).bind eventFields?

theorem parseReplayEventLine_eq_ok {line : List Char} {lineNumber : Nat} :
    parseReplayEventLine line lineNumber = .ok event ↔ lineEvent? line = some event := by
  unfold parseReplayEventLine lineEvent? corrupted
  cases hparse : Json.parse line with
  | none => simp
  | some raw =>
    by_cases hrecord : raw.isRecord = true
    · cases hfields : eventFields? raw with
      | none => simp [hrecord, hfields]
      | some event => simp [hrecord, hfields]
    · have hnone : eventFields? raw = none := by
        cases raw with
        | obj fields => exact absurd rfl hrecord
        | _ => rfl
      simp [hrecord, hnone]

theorem wellFormed_lineEvent {line : List Char} (h : lineEvent? line = some event) :
    event.payload.WellFormed := by
  obtain ⟨raw, hparse, hfields⟩ := Option.bind_eq_some_iff.mp h
  have hwf := Json.wellFormed_of_parse hparse
  unfold eventFields? at hfields
  simp only [Option.bind_eq_bind, Option.bind_eq_some_iff] at hfields
  obtain ⟨seq, -, type, -, timestamp, -, goal, -, payloadHash, -, prevHash, -, eventHash, -,
    laneId, -, payload, hpayload, hevent⟩ := hfields
  obtain rfl := Option.some.inj hevent
  exact wellFormed_of_get? hwf hpayload

/-- The loop accepts lines whose events continue the chain. -/
theorem parseReplayEvents_eq_ok {index : Nat} {prevHash : String} {lines : List (List Char)}
    {events : List ReplayEvent} :
    parseReplayEvents sha256 goalId index prevHash lines = .ok events ↔
      lines.map lineEvent? = events.map some ∧
        (replayChain sha256 goalId).Chained index prevHash events := by
  induction lines generalizing index prevHash events with
  | nil =>
    unfold parseReplayEvents
    cases events with
    | nil => simp [HashChain.Chained]
    | cons event events => simp
  | cons line lines ih =>
    unfold parseReplayEvents
    simp only [bind_eq_ok, parseReplayEventLine_eq_ok, pure_eq_ok, ih]
    constructor
    · rintro ⟨event, hline, ⟨⟩, hcheck, rest, ⟨hlines, hchain⟩, heq⟩
      obtain rfl := Except.ok.inj heq
      have hfollows := (checkEvent_eq_ok (wellFormed_lineEvent hline)).mp hcheck
      exact ⟨by rw [List.map_cons, List.map_cons, hline, hlines], hfollows, hchain⟩
    · rintro ⟨hlines, hchain⟩
      cases events with
      | nil => simp at hlines
      | cons event events =>
        rw [List.map_cons, List.map_cons] at hlines
        obtain ⟨hline, hlines⟩ := List.cons.inj hlines
        obtain ⟨hfollows, hchain⟩ := hchain
        have hcheck := (checkEvent_eq_ok (wellFormed_lineEvent hline)).mpr hfollows
        exact ⟨event, hline, (), hcheck, events, ⟨hlines, hchain⟩, rfl⟩

theorem chained_of_parse {bytes : List UInt8} {events : List ReplayEvent}
    (h : parseReplayLedgerBytes sha256 bytes goalId = .ok events) :
    (replayChain sha256 goalId).Chained 0 genesisHash events :=
  ((parseReplayEvents_eq_ok).mp h).2

/-! ## Writing -/

theorem eventFields?_toJson (event : ReplayEvent) : eventFields? event.toJson = some event := by
  obtain ⟨⟨seq, type, timestamp, goal, laneId, payload, payloadHash, prevHash⟩, eventHash⟩ := event
  cases laneId <;> rfl

theorem wellFormed_toJson (h : event.payload.WellFormed) : event.toJson.WellFormed := by
  refine ⟨?_, ?_⟩
  · cases event.laneId <;> simp [optionalField]
  · simp only [List.cons_append, List.nil_append, wellFormedFields_cons, wellFormedFields_append,
      wellFormedFields_optional, wellFormed_str, wellFormed_num, wellFormedFields_nil, true_and,
      and_true]
    exact ⟨wellFormed_map_str event.laneId, h⟩

theorem ledgerLines_recordLines (records : List Json) :
    ledgerLines (Utf8.encode (recordLines records)) = records.map Json.stringify := by
  have hvisible : ∀ line ∈ records.map Json.stringify, (!(trim line).isEmpty) = true := by
    intro line hline
    obtain ⟨record, -, rfl⟩ := List.mem_map.mp hline
    obtain ⟨c, text, heq, hc, hc', -⟩ := Json.stringify_head record
    have htrim : trim (Json.stringify record) ≠ [] :=
      trim_ne_nil (c := c) (by simp [heq]) (isWhitespace_visible hc hc')
    simpa using htrim
  have hlines : (recordLines records).splitOn '\n' = records.map Json.stringify ++ [[]] := by
    induction records with
    | nil => rfl
    | cons record records ih =>
      have htext : recordLines (record :: records) =
          Json.stringify record ++ '\n' :: recordLines records := by simp [recordLines]
      rw [htext, List.splitOn_append_cons_self_of_not_mem (Json.lineFeed_not_mem_stringify record),
        ih fun line hline => hvisible line (List.mem_cons_of_mem _ hline)]
      rfl
  unfold ledgerLines
  rw [Utf8.decode_encode, hlines, List.filter_append, List.filter_eq_self.mpr hvisible]
  exact List.append_nil _

/-- The ledger of a chain, one record a line, is accepted and read as the chain. -/
theorem parse_recordLines {events : List ReplayEvent}
    (h : (replayChain sha256 goalId).Chained 0 genesisHash events) :
    parseReplayLedgerBytes sha256
      (Utf8.encode (recordLines (events.map ReplayEvent.toJson))) goalId = .ok events := by
  unfold parseReplayLedgerBytes
  rw [ledgerLines_recordLines, parseReplayEvents_eq_ok]
  refine ⟨?_, h⟩
  rw [List.map_map, List.map_map]
  refine List.map_congr_left fun event hmem => ?_
  have hsound := (replayChain sha256 goalId).sound_of_chained h event hmem
  show (Json.parse (Json.stringify event.toJson)).bind eventFields? = some event
  rw [Json.parse_stringify _ (wellFormed_toJson hsound.wellFormed)]
  exact eventFields?_toJson event

theorem ledgerBytes_eq (events : List ReplayEvent) :
    ledgerBytes events = Utf8.encode (recordLines (events.map fun e => e.stored.toJson)) := by
  unfold ledgerBytes
  induction events with
  | nil => rfl
  | cons event events ih =>
    rw [List.flatMap_cons, ih, eventLine, ← Utf8.encode_append]
    simp [recordLines]

/-! ## What the last hash determines -/

theorem ofNat_injective : Function.Injective Decimal.ofNat := by
  intro m n h
  have hm := Decimal.toNat?_ofNat m
  rw [h, Decimal.toNat?_ofNat n] at hm
  exact (Option.some.inj hm).symm

theorem wellFormed_hashedFields (event : ChainedEvent) : (hashedFields event).WellFormed := by
  refine ⟨trivial, trivial, trivial, trivial, ?_, trivial, trivial, trivial⟩
  cases event.laneId <;> trivial

theorem lane_injective {a b : Option String}
    (h : (a.map Json.str).getD .null = (b.map Json.str).getD .null) : a = b := by
  cases a <;> cases b <;> simp_all

theorem hashText_injective (hsha : Function.Injective sha256) : Function.Injective (hashText sha256) :=
  fun _ _ h => Utf8.encode_injective (hsha h)

/-- Two events with the same hash differ at most in an infinity of the payload. -/
theorem stored_eq_of_eventHash (hsha : Function.Injective sha256) {a b : ReplayEvent}
    (ha : Sound sha256 goalId a) (hb : Sound sha256 goalId b) (h : a.eventHash = b.eventHash) :
    a.stored = b.stored := by
  have hfields : hashedFields a.toChainedEvent = hashedFields b.toChainedEvent := by
    rw [← ha.eventHash, ← hb.eventHash] at h
    exact Json.stringify_injective (wellFormed_hashedFields _) (wellFormed_hashedFields _)
      (hashText_injective hsha h)
  simp only [hashedFields, Json.arr.injEq, List.cons.injEq, Json.num.injEq, Json.str.injEq] at hfields
  obtain ⟨hseq, htype, htimestamp, hgoal, hlane, hpayload, hprev, -⟩ := hfields
  have hfinite : a.payload.finite = b.payload.finite := by
    rw [← ha.payloadHash, ← hb.payloadHash] at hpayload
    exact Json.finite_eq_of_serialize_eq ha.wellFormed hb.wellFormed
      (hashText_injective hsha hpayload)
  obtain ⟨⟨_, _, _, _, _, _, _, _⟩, _⟩ := a
  obtain ⟨⟨_, _, _, _, _, _, _, _⟩, _⟩ := b
  simp only [ReplayEvent.stored, ReplayEvent.mk.injEq, ChainedEvent.mk.injEq]
  exact ⟨⟨hseq, htype, htimestamp, hgoal, lane_injective hlane, hfinite, hpayload, hprev⟩, h⟩

/-- The last hash determines the ledger as it is written. -/
theorem stored_eq_of_lastHash (hsha : Function.Injective sha256) {as bs : List ReplayEvent}
    (ha : (replayChain sha256 goalId).Chained 0 genesisHash as)
    (hb : (replayChain sha256 goalId).Chained 0 genesisHash bs)
    (hlast : as.getLast?.map (·.eventHash) = bs.getLast?.map (·.eventHash)) :
    as.map ReplayEvent.stored = bs.map ReplayEvent.stored := by
  refine (replayChain sha256 goalId).commits ofNat_injective ?_ ha hb hlast
  intro a b hsa hsb hdigest
  have hstored := stored_eq_of_eventHash hsha hsa hsb hdigest
  have hseq := congrArg (fun e => e.seq) hstored
  have hprev := congrArg (fun e => e.prevHash) hstored
  exact ⟨hseq, hprev, hstored⟩

theorem eq_of_stored_eq {a b : ReplayEvent} (hplain : a.payload.isPlain = true)
    (h : b.stored = a.stored) : b = a := by
  have hpayload := Json.eq_of_finite_eq a.payload b.payload hplain
    (congrArg (fun e => e.payload) h)
  obtain ⟨⟨_, _, _, _, _, _, _, _⟩, _⟩ := a
  obtain ⟨⟨_, _, _, _, _, _, _, _⟩, _⟩ := b
  simp only [ReplayEvent.stored, ReplayEvent.mk.injEq, ChainedEvent.mk.injEq] at h hpayload ⊢
  tauto

theorem eq_of_map_stored_eq {as bs : List ReplayEvent}
    (hplain : ∀ event ∈ as, event.payload.isPlain = true)
    (h : bs.map ReplayEvent.stored = as.map ReplayEvent.stored) : bs = as := by
  induction as generalizing bs with
  | nil => simpa using h
  | cons a as ih =>
    cases bs with
    | nil => simp at h
    | cons b bs =>
      obtain ⟨hfirst, hrest⟩ := List.cons.inj h
      have htail := ih (fun event hmem => hplain event (List.mem_cons_of_mem _ hmem)) hrest
      rw [eq_of_stored_eq (hplain a List.mem_cons_self) hfirst, htail]

/-! ## A second ledger with the same hashes -/

/-- The event with an infinity for every `null` of the payload, and the other way around. -/
def ReplayEvent.swapped (event : ReplayEvent) : ReplayEvent :=
  { event with payload := event.payload.swapNulls }

theorem sound_payload (h : Sound sha256 goalId event) {payload : Json} (hwf : payload.WellFormed)
    (hpayload : payload.finite = event.payload.finite) :
    Sound sha256 goalId { event with payload := payload } := by
  refine ⟨h.goalId, ?_, h.eventHash, hwf⟩
  rw [← h.payloadHash]
  unfold computePayloadHash Json.serialize
  rw [hpayload]

theorem chained_swapped {events : List ReplayEvent}
    (h : (replayChain sha256 goalId).Chained 0 genesisHash events) :
    (replayChain sha256 goalId).Chained 0 genesisHash (events.map ReplayEvent.swapped) :=
  (replayChain sha256 goalId).chained_map h fun _ _ =>
    ⟨rfl, rfl, rfl, fun hs =>
      sound_payload hs (Json.wellFormed_swapNulls _ hs.wellFormed) (Json.finite_swapNulls _)⟩

theorem chained_stored {events : List ReplayEvent}
    (h : (replayChain sha256 goalId).Chained 0 genesisHash events) :
    (replayChain sha256 goalId).Chained 0 genesisHash (events.map ReplayEvent.stored) :=
  (replayChain sha256 goalId).chained_map h fun _ _ =>
    ⟨rfl, rfl, rfl, fun hs =>
      sound_payload hs (Json.wellFormed_finite _ hs.wellFormed) (Json.finite_finite _)⟩

theorem getLast?_map_eventHash {f : ReplayEvent → ReplayEvent}
    (hf : ∀ event, (f event).eventHash = event.eventHash) (events : List ReplayEvent) :
    (events.map f).getLast?.map (·.eventHash) = events.getLast?.map (·.eventHash) := by
  rw [List.getLast?_map, Option.map_map]
  congr 1
  funext event
  exact hf event

theorem plain_of_swapped {events : List ReplayEvent}
    (h : events.map ReplayEvent.swapped = events) :
    ∀ event ∈ events, event.payload.isPlain = true := by
  intro event hmem
  have hfixed : event.swapped = event :=
    List.map_inj_left.mp (h.trans (List.map_id events).symm) event hmem
  exact Json.isPlain_of_swapNulls _ (congrArg (fun e => e.payload) hfixed)

/-! ## Appending -/

theorem lastSeq_eq {events : List ReplayEvent}
    (h : (replayChain sha256 goalId).Chained 0 genesisHash events) :
    lastSeq events = events.length := by
  rcases List.eq_nil_or_concat' events with rfl | ⟨events, event, rfl⟩
  · rfl
  · rw [HashChain.chained_concat] at h
    have hseq : event.seq = .ofNat (0 + events.length + 1) := h.2.seq
    unfold lastSeq
    rw [List.getLast?_concat, Option.bind_some, hseq, Decimal.toNat?_ofNat]
    simp

/-- The event that is appended continues the chain. -/
theorem chained_chainEvent {events : List ReplayEvent}
    (h : (replayChain sha256 goalId).Chained 0 genesisHash events) {input : AppendInput}
    (hgoal : input.goalId = goalId) (hwf : input.payload.WellFormed) (timestamp : String) :
    (replayChain sha256 goalId).Chained 0 genesisHash
      (events ++ [chainEvent sha256 input timestamp (lastSeq events) (lastHash events)]) := by
  rw [HashChain.chained_concat]
  refine ⟨h, ?_, rfl, ⟨hgoal, rfl, rfl, hwf⟩⟩
  show Decimal.ofNat (lastSeq events + 1) = Decimal.ofNat (0 + events.length + 1)
  rw [lastSeq_eq h, Nat.zero_add]

theorem appendEvent_eq_ok {events events' : List ReplayEvent} {input : AppendInput}
    {timestamp : String} :
    appendEvent sha256 goalId events input timestamp = .ok events' ↔
      input.goalId = goalId ∧
        events' = events ++ [chainEvent sha256 input timestamp (lastSeq events) (lastHash events)] := by
  unfold appendEvent
  simp only [bind_eq_ok, require_eq_ok, decide_eq_true_eq, pure_eq_ok, Except.ok.injEq]
  constructor
  · rintro ⟨-, hgoal, heq⟩
    exact ⟨hgoal, heq.symm⟩
  · rintro ⟨hgoal, heq⟩
    exact ⟨(), hgoal, heq.symm⟩

/-- Whatever is appended, the events remain a chain. -/
theorem chained_appendEvents {events : List ReplayEvent} {calls : List (AppendInput × String)}
    (h : (replayChain sha256 goalId).Chained 0 genesisHash events)
    (hwf : ∀ call ∈ calls, call.1.payload.WellFormed) :
    (replayChain sha256 goalId).Chained 0 genesisHash (appendEvents sha256 goalId events calls) := by
  induction calls generalizing events with
  | nil => exact h
  | cons call calls ih =>
    obtain ⟨input, timestamp⟩ := call
    have hrest : ∀ call ∈ calls, call.1.payload.WellFormed :=
      fun call hmem => hwf call (List.mem_cons_of_mem _ hmem)
    unfold appendEvents
    cases happend : appendEvent sha256 goalId events input timestamp with
    | error error => exact ih h hrest
    | ok events' =>
      obtain ⟨hgoal, rfl⟩ := (appendEvent_eq_ok).mp happend
      exact ih (chained_chainEvent h hgoal (hwf _ List.mem_cons_self) timestamp) hrest

/-- The payloads of the ledger are those of the calls that were made for its goal. -/
theorem payloads_appendEvents (sha256 : Digest) (goalId : String) (events : List ReplayEvent)
    (calls : List (AppendInput × String)) :
    (appendEvents sha256 goalId events calls).map (·.payload) =
      events.map (·.payload) ++
        (calls.filter fun call => call.1.goalId = goalId).map (·.1.payload) := by
  induction calls generalizing events with
  | nil => simp [appendEvents]
  | cons call calls ih =>
    obtain ⟨input, timestamp⟩ := call
    unfold appendEvents
    cases happend : appendEvent sha256 goalId events input timestamp with
    | error error =>
      have hgoal : input.goalId ≠ goalId := by
        intro hgoal
        rw [(appendEvent_eq_ok).mpr ⟨hgoal, rfl⟩] at happend
        exact absurd happend (by simp)
      rw [ih, List.filter_cons_of_neg (by simpa using hgoal)]
    | ok events' =>
      obtain ⟨hgoal, rfl⟩ := (appendEvent_eq_ok).mp happend
      rw [ih, List.filter_cons_of_pos (by simpa using hgoal), List.map_append, List.append_assoc]
      rfl

/-- The file of a chain is accepted and holds the events as they are written. -/
theorem parse_ledgerBytes {events : List ReplayEvent}
    (h : (replayChain sha256 goalId).Chained 0 genesisHash events) :
    parseReplayLedgerBytes sha256 (ledgerBytes events) goalId =
      .ok (events.map ReplayEvent.stored) := by
  have hparse := parse_recordLines (chained_stored h)
  rw [List.map_map] at hparse
  rw [ledgerBytes_eq]
  exact hparse

/-! ## Tampering -/

theorem finite_of_map_stored {events : List ReplayEvent}
    (h : events.map ReplayEvent.stored = events) : ∀ event ∈ events, event.payload.IsFinite := by
  intro event hmem
  have hfixed : event.stored = event :=
    List.map_inj_left.mp (h.trans (List.map_id events).symm) event hmem
  exact congrArg (fun e => e.payload) hfixed

theorem map_stored_of_finite {events : List ReplayEvent}
    (h : ∀ event ∈ events, event.payload.IsFinite) : events.map ReplayEvent.stored = events := by
  refine (List.map_congr_left fun event hmem => ?_).trans (List.map_id events)
  obtain ⟨⟨_, _, _, _, _, payload, _, _⟩, _⟩ := event
  have hfinite : payload.finite = payload := h _ hmem
  simp [ReplayEvent.stored, hfinite]

/-- An accepted ledger is the only one with its last hash exactly when its payloads hold neither
`null` nor an infinity, and the only one without an infinity when it holds none. What a manager has
appended is accepted, and it is read back exactly when the payloads hold no infinity. -/
theorem replayLedger_tamperEvident (sha256 : Digest) (hsha : Function.Injective sha256)
    (goalId : String) :
    (∀ bytes events, parseReplayLedgerBytes sha256 bytes goalId = .ok events →
      ((∀ bytes' events', parseReplayLedgerBytes sha256 bytes' goalId = .ok events' →
          events'.getLast?.map (·.eventHash) = events.getLast?.map (·.eventHash) →
          events' = events) ↔
        ∀ event ∈ events, event.payload.isPlain = true) ∧
      ((∀ event ∈ events, event.payload.IsFinite) →
        ∀ bytes' events', parseReplayLedgerBytes sha256 bytes' goalId = .ok events' →
          (∀ event ∈ events', event.payload.IsFinite) →
          events'.getLast?.map (·.eventHash) = events.getLast?.map (·.eventHash) →
          events' = events)) ∧
    (∀ calls : List (AppendInput × String), (∀ call ∈ calls, call.1.payload.WellFormed) →
      (∃ events, parseReplayLedgerBytes sha256
        (ledgerBytes (appendEvents sha256 goalId [] calls)) goalId = .ok events) ∧
      (parseReplayLedgerBytes sha256 (ledgerBytes (appendEvents sha256 goalId [] calls)) goalId =
          .ok (appendEvents sha256 goalId [] calls) ↔
        ∀ call ∈ calls, call.1.goalId = goalId → call.1.payload.IsFinite)) := by
  constructor
  · intro bytes events hparse
    have hchain := chained_of_parse hparse
    refine ⟨⟨?_, ?_⟩, ?_⟩
    · intro honly
      refine plain_of_swapped (honly _ _ (parse_recordLines (chained_swapped hchain)) ?_)
      exact getLast?_map_eventHash (f := ReplayEvent.swapped) (fun _ => rfl) events
    · intro hplain bytes' events' hparse' hlast
      have hstored := stored_eq_of_lastHash hsha (chained_of_parse hparse') hchain hlast
      exact eq_of_map_stored_eq hplain hstored
    · intro hfinite bytes' events' hparse' hfinite' hlast
      have hstored := stored_eq_of_lastHash hsha (chained_of_parse hparse') hchain hlast
      rwa [map_stored_of_finite hfinite, map_stored_of_finite hfinite'] at hstored
  · intro calls hwf
    have hchain : (replayChain sha256 goalId).Chained 0 genesisHash
        (appendEvents sha256 goalId [] calls) := chained_appendEvents trivial hwf
    have hpayloads := payloads_appendEvents sha256 goalId [] calls
    have hiff : (∀ event ∈ appendEvents sha256 goalId [] calls, event.payload.IsFinite) ↔
        ∀ call ∈ calls, call.1.goalId = goalId → call.1.payload.IsFinite := by
      rw [List.map_nil, List.nil_append] at hpayloads
      have hmem := fun payload => congrArg (payload ∈ ·) hpayloads
      simp only [List.mem_map, List.mem_filter, decide_eq_true_eq, eq_iff_iff] at hmem
      constructor
      · intro h call hcall hgoal
        obtain ⟨event, hevent, heq⟩ := (hmem call.1.payload).mpr ⟨call, ⟨hcall, hgoal⟩, rfl⟩
        rw [← heq]
        exact h event hevent
      · intro h event hevent
        obtain ⟨call, ⟨hcall, hgoal⟩, heq⟩ := (hmem event.payload).mp ⟨event, hevent, rfl⟩
        rw [← heq]
        exact h call hcall hgoal
    rw [← hiff, parse_ledgerBytes hchain, Except.ok.injEq]
    exact ⟨⟨_, rfl⟩, finite_of_map_stored, map_stored_of_finite⟩

/-- A digest without collisions. On the texts that the ledger below has hashed it is SHA-256. -/
def sampleDigest : Digest := fun bytes =>
  if bytes = Utf8.encode "null".toList then
    "74234e98afe7498fb5daf1f36ac2d78acc339464f950703b8c019892f982b90b"
  else if bytes = Utf8.encode ("[1,\"check_result\",\"2026-01-01T00:00:00.000Z\",\"goal\",null," ++
      "\"74234e98afe7498fb5daf1f36ac2d78acc339464f950703b8c019892f982b90b\",\"genesis\"]").toList then
    "63993b969e9e47700b818b6384f7f1a541b6ef655256673016fe4883c3fbbe5b"
  else String.ofList ('x' :: bytes.map fun byte => Char.ofNat byte.toNat)

theorem sampleDigest_injective : Function.Injective sampleDigest := by
  have hchar : Function.Injective fun byte : UInt8 => Char.ofNat byte.toNat := by
    intro a b h
    have hvalid : ∀ byte : UInt8, (Char.ofNat byte.toNat).toNat = byte.toNat := by decide +kernel
    have := congrArg Char.toNat h
    simp only [hvalid] at this
    exact UInt8.toNat_inj.mp this
  have hhead : ∀ (text : String) (rest : List Char), text.toList.head? ≠ some 'x' →
      text ≠ String.ofList ('x' :: rest) := by
    rintro text rest h rfl
    exact h (by rw [String.toList_ofList]; rfl)
  have hrest : ∀ a b : List UInt8, String.ofList ('x' :: a.map fun byte => Char.ofNat byte.toNat) =
      String.ofList ('x' :: b.map fun byte => Char.ofNat byte.toNat) → a = b := by
    intro a b h
    exact List.map_injective_iff.mpr hchar (List.cons.inj (String.ofList_injective h)).2
  intro a b h
  unfold sampleDigest at h
  split_ifs at h with ha hb hb' ha' hb hb' hb hb'
  · rw [ha, hb]
  · exact absurd h (by decide)
  · exact absurd h (hhead _ _ (by decide))
  · exact absurd h (by decide)
  · rw [ha', hb']
  · exact absurd h (hhead _ _ (by decide))
  · exact absurd h.symm (hhead _ _ (by decide))
  · exact absurd h.symm (hhead _ _ (by decide))
  · exact hrest a b h

/-- A call that appends `null`. -/
def sampleCall : AppendInput × String :=
  (⟨"check_result", "goal", none, .null⟩, "2026-01-01T00:00:00.000Z")

/-- The event that the call appends to an empty ledger. -/
def sampleEvent : ReplayEvent := chainEvent sampleDigest sampleCall.1 sampleCall.2 0 genesisHash

theorem chained_sampleEvent :
    (replayChain sampleDigest "goal").Chained 0 genesisHash [sampleEvent] := by
  have hempty : (replayChain sampleDigest "goal").Chained 0 genesisHash [] := trivial
  have hwf : sampleCall.1.payload.WellFormed := trivial
  exact chained_chainEvent hempty rfl hwf sampleCall.2

/-- Ledgers with the payloads `null` and `1e999` are both accepted with the same last hash. -/
theorem nullPayload_taken_for_infinity :
    Function.Injective sampleDigest ∧
    parseReplayLedgerBytes sampleDigest (Utf8.encode (recordLines [sampleEvent.toJson])) "goal" =
      .ok [sampleEvent] ∧
    parseReplayLedgerBytes sampleDigest
      (Utf8.encode (recordLines [{ sampleEvent with payload := .num .huge }.toJson])) "goal" =
      .ok [{ sampleEvent with payload := .num .huge }] ∧
    [{ sampleEvent with payload := Json.num .huge }] ≠ [sampleEvent] := by
  have hswapped := parse_recordLines (chained_swapped chained_sampleEvent)
  have haccepted := parse_recordLines chained_sampleEvent
  refine ⟨sampleDigest_injective, haccepted, hswapped, ?_⟩
  intro h
  have hchained := congrArg ReplayEvent.toChainedEvent (List.cons.inj h).1
  have hpayload := congrArg ChainedEvent.payload hchained
  have hnull : sampleEvent.payload = .null := rfl
  rw [hnull] at hpayload
  exact absurd hpayload (by simp)

theorem replayLedger_tamperEvident_sample :
    (∃ bytes events, parseReplayLedgerBytes sampleDigest bytes "goal" = .ok events ∧ events ≠ [] ∧
      ¬ (∀ bytes' events', parseReplayLedgerBytes sampleDigest bytes' "goal" = .ok events' →
          events'.getLast?.map (·.eventHash) = events.getLast?.map (·.eventHash) →
          events' = events)) ∧
    parseReplayLedgerBytes sampleDigest (ledgerBytes (appendEvents sampleDigest "goal" [] [sampleCall]))
      "goal" = .ok (appendEvents sampleDigest "goal" [] [sampleCall]) := by
  obtain ⟨hunique, hround⟩ := replayLedger_tamperEvident sampleDigest sampleDigest_injective "goal"
  have haccepted := parse_recordLines chained_sampleEvent
  constructor
  · refine ⟨_, _, haccepted, by simp, fun honly => ?_⟩
    have hplain := (hunique _ _ haccepted).1.mp honly sampleEvent List.mem_cons_self
    exact absurd hplain (by decide)
  · have hwf : ∀ call ∈ [sampleCall], call.1.payload.WellFormed := by
      simp [sampleCall, Json.WellFormed]
    refine (hround _ hwf).2.mpr ?_
    intro call hcall _
    obtain rfl := List.mem_singleton.mp hcall
    rfl

end CodingAgent.Replay
