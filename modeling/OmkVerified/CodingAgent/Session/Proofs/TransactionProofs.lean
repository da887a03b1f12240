import OmkVerified.CodingAgent.Session.Transaction

/-!
# Validators accept exactly what they return

Each validator returns a copy of its input that satisfies a predicate, and accepts the JSON value of
every value that satisfies the predicate. So a validated value is accepted again, unchanged.
-/

namespace CodingAgent

open Lib

/-! ## Results -/

variable {α β : Type} {field : String} {maxItems maxLength : Nat} {input : Option Json}
  {history : List CompactionModelHistoryEntry}

theorem bind_eq_ok {x : Result α} {f : α → Result β} {b : β} :
    (x >>= f) = .ok b ↔ ∃ a, x = .ok a ∧ f a = .ok b := by
  cases x with
  | error e => simp [bind, Except.bind]
  | ok a => simp [bind, Except.bind]

@[simp]
theorem ok_bind (a : α) (f : α → Result β) : ((Except.ok a : Result α) >>= f) = f a :=
  rfl

@[simp]
theorem pure_eq_ok (a : α) : (pure a : Result α) = .ok a := rfl

@[simp]
theorem raise_ne_ok (message : String) (a : α) : (raise message : Result α) ≠ .ok a := by
  simp [raise]

@[simp]
theorem require_eq_ok {condition : Bool} {message : String} {u : Unit} :
    require condition message = .ok u ↔ condition = true := by
  unfold require
  split_ifs with h
  · simp [h]
  · simp [raise, h]

theorem map_eq_ok {x : Result α} {f : α → β} {b : β} :
    x.map f = .ok b ↔ ∃ a, x = .ok a ∧ f a = b := by
  cases x with
  | error e => simp [Except.map]
  | ok a => simp [Except.map]

/-! ## Fields -/

theorem asRecord_eq_ok {value : Option Json} {message : String} {fields : List (String × Json)} :
    asRecord value message = .ok fields ↔ value = some (.obj fields) := by
  unfold asRecord
  split
  · simp
  · rename_i hne
    constructor
    · intro h
      exact absurd h (raise_ne_ok message fields)
    · intro h
      exact absurd h (hne fields)

theorem assertSafeInteger_eq_ok {value : Option Json} {n : Nat} :
    assertSafeInteger value field = .ok n ↔
      ∃ d, value = some (.num d) ∧ d.toNat? = some n ∧ n ≤ maxSafeInteger := by
  unfold assertSafeInteger
  split
  · rename_i d
    split
    · rename_i k hk
      split_ifs with hle
      · simp [hk]
        rintro rfl
        exact hle
      · simp [hk]
        rintro rfl
        omega
    · rename_i hnone
      simp [hnone]
  · rename_i hne
    simp only [raise_ne_ok, false_iff, not_exists, not_and]
    rintro d rfl
    exact absurd rfl (hne d)

/-- A text that passes a text check. -/
structure TextOk (control : Char → Bool) (maxLength : Nat) (text : String) : Prop where
  ne_empty : text ≠ ""
  length_le : jsLength text ≤ maxLength
  no_control : text.toList.any control = false
  no_credential : containsCredentialShape text = false

theorem assertText_eq_ok {control : Char → Bool} {bound credential : String} {value : Option Json}
    {text : String} :
    assertText control bound credential maxLength value = .ok text ↔
      value = some (.str text) ∧ TextOk control maxLength text := by
  unfold assertText
  split
  · rename_i s
    split_ifs with hbound hcred
    · simp only [raise_ne_ok, Option.some.injEq, Json.str.injEq, false_iff, not_and]
      rintro rfl h
      rcases hbound with hbound | hbound | hbound
      · exact h.ne_empty hbound
      · have := h.length_le
        omega
      · rw [h.no_control] at hbound
        exact Bool.noConfusion hbound
    · simp only [raise_ne_ok, Option.some.injEq, Json.str.injEq, false_iff, not_and]
      rintro rfl h
      rw [h.no_credential] at hcred
      exact Bool.noConfusion hcred
    · simp only [Except.ok.injEq, Option.some.injEq, Json.str.injEq, iff_self_and]
      rintro rfl
      simp only [not_or, not_lt, Bool.not_eq_true] at hbound hcred
      exact ⟨hbound.1, hbound.2.1, hbound.2.2, hcred⟩
  · rename_i hne
    simp only [raise_ne_ok, false_iff, not_and]
    rintro rfl
    exact absurd rfl (hne text)

/-- A text that passes `assertMetadataText`. -/
abbrev MetadataText : Nat → String → Prop := TextOk isMetadataControl

/-- A text that passes `assertContentText`. -/
abbrev ContentText : Nat → String → Prop := TextOk isContentControl

theorem assertMetadataText_eq_ok {value : Option Json} {text : String} :
    assertMetadataText value field maxLength = .ok text ↔
      value = some (.str text) ∧ MetadataText maxLength text :=
  assertText_eq_ok

theorem assertContentText_eq_ok {value : Option Json} {text : String} :
    assertContentText value field maxLength = .ok text ↔
      value = some (.str text) ∧ ContentText maxLength text :=
  assertText_eq_ok

theorem assertNullableMetadataText_eq_ok {value : Option Json} {text : Option String} :
    assertNullableMetadataText value field maxLength = .ok text ↔
      value = some (nullable text) ∧ ∀ t ∈ text, MetadataText maxLength t := by
  unfold assertNullableMetadataText
  split
  · cases text with
    | none => simp [nullable]
    | some t => simp [nullable]
  · rename_i hne
    rw [map_eq_ok]
    simp only [assertMetadataText_eq_ok]
    constructor
    · rintro ⟨t, ⟨rfl, ht⟩, rfl⟩
      exact ⟨rfl, by simpa using ht⟩
    · rintro ⟨rfl, ht⟩
      cases text with
      | none => exact absurd rfl hne
      | some t => exact ⟨t, ⟨rfl, ht t rfl⟩, rfl⟩

theorem assertSha256_eq_ok {value : Option Json} {text : String} :
    assertSha256 value field = .ok text ↔ value = some (.str text) ∧ isSha256 text = true := by
  unfold assertSha256
  split
  · rename_i s
    split_ifs with h
    · simp only [Except.ok.injEq, Option.some.injEq, Json.str.injEq, iff_self_and]
      rintro rfl
      exact h
    · simp only [raise_ne_ok, Option.some.injEq, Json.str.injEq, false_iff, not_and]
      rintro rfl
      exact h
  · rename_i hne
    simp only [raise_ne_ok, false_iff, not_and]
    rintro rfl
    exact absurd rfl (hne text)

theorem assertCanonicalTimestamp_eq_ok {value : Option Json} {text : String} :
    assertCanonicalTimestamp value = .ok text ↔
      value = some (.str text) ∧ MetadataText maxMetadataLength text ∧
        isCanonicalTimestamp text = true := by
  unfold assertCanonicalTimestamp
  simp only [bind_eq_ok, assertMetadataText_eq_ok, require_eq_ok, pure_eq_ok, Except.ok.injEq]
  constructor
  · rintro ⟨t, ⟨hv, ht⟩, _, hc, rfl⟩
    exact ⟨hv, ht, hc⟩
  · rintro ⟨hv, ht, hc⟩
    exact ⟨text, ⟨hv, ht⟩, (), hc, rfl⟩

/-! ## Arrays -/

theorem copyItems_eq_ok {check : Json → Nat → Result α} {toJson : α → Json} {P : α → Prop}
    (hcheck : ∀ item index a, check item index = .ok a ↔ item = toJson a ∧ P a) {items : List Json}
    {index : Nat} {copy : List α} :
    copyItems check items index = .ok copy ↔ items = copy.map toJson ∧ ∀ a ∈ copy, P a := by
  induction items generalizing index copy with
  | nil =>
    simp only [copyItems, Except.ok.injEq]
    constructor
    · rintro rfl
      simp
    · rintro ⟨h, -⟩
      exact (List.map_eq_nil_iff.mp h.symm).symm
  | cons item items ih =>
    simp only [copyItems, bind_eq_ok, hcheck, ih, pure_eq_ok, Except.ok.injEq]
    constructor
    · rintro ⟨a, ⟨rfl, ha⟩, as, ⟨rfl, has⟩, rfl⟩
      refine ⟨rfl, ?_⟩
      intro b hb
      rcases List.mem_cons.mp hb with rfl | hb
      · exact ha
      · exact has b hb
    · rintro ⟨hitems, hP⟩
      cases copy with
      | nil => simp at hitems
      | cons a as =>
        obtain ⟨rfl, rfl⟩ := List.cons.inj hitems
        exact ⟨a, ⟨rfl, hP a (by simp)⟩, as, ⟨rfl, fun b hb => hP b (by simp [hb])⟩, rfl⟩

theorem copyArray_eq_ok {check : Json → Nat → Result α} {toJson : α → Json} {P : α → Prop}
    (hcheck : ∀ item index a, check item index = .ok a ↔ item = toJson a ∧ P a)
    {value : Option Json} {message : String} {copy : List α} :
    copyArray check value maxItems message = .ok copy ↔
      value = some (.arr (copy.map toJson)) ∧ copy.length ≤ maxItems ∧ ∀ a ∈ copy, P a := by
  unfold copyArray
  split
  · rename_i items
    split_ifs with hlen
    · rw [copyItems_eq_ok hcheck]
      constructor
      · rintro ⟨rfl, hP⟩
        exact ⟨rfl, by simpa using hlen, hP⟩
      · rintro ⟨h, -, hP⟩
        exact ⟨Json.arr.inj (Option.some.inj h), hP⟩
    · simp only [raise_ne_ok, Option.some.injEq, Json.arr.injEq, false_iff, not_and]
      rintro rfl h
      simp at hlen
      omega
  · rename_i hne
    simp only [raise_ne_ok, false_iff, not_and]
    rintro rfl
    exact absurd rfl (hne _)

/-- Ids that pass `copyIdArray`. -/
structure IdsOk (maxItems : Nat) (ids : List String) : Prop where
  length_le : ids.length ≤ maxItems
  metadata : ∀ id ∈ ids, MetadataText maxMetadataLength id
  nodup : ids.Nodup

theorem some_str_iff {item : Json} {text : String} {P : Prop} :
    (some item = some (Json.str text) ∧ P) ↔ (item = Json.str text ∧ P) := by
  rw [Option.some.injEq]

theorem copyIdArray_eq_ok {value : Option Json} {ids : List String} :
    copyIdArray value field maxItems = .ok ids ↔
      value = some (.arr (ids.map .str)) ∧ IdsOk maxItems ids := by
  unfold copyIdArray
  have hcheck : ∀ item index (a : String),
      assertMetadataText (some item) (itemField field index) maxMetadataLength = .ok a ↔
        item = .str a ∧ MetadataText maxMetadataLength a := by
    intro item index a
    rw [assertMetadataText_eq_ok, some_str_iff]
  simp only [bind_eq_ok, copyArray_eq_ok hcheck, require_eq_ok, pure_eq_ok, Except.ok.injEq,
    decide_eq_true_eq]
  constructor
  · rintro ⟨copy, ⟨hv, hlen, hP⟩, _, hnodup, rfl⟩
    exact ⟨hv, hlen, hP, hnodup⟩
  · rintro ⟨hv, h⟩
    exact ⟨ids, ⟨hv, h.length_le, h.metadata⟩, (), h.nodup, rfl⟩

/-- Texts that pass `copyTextArray`. -/
structure TextsOk (maxItems maxLength : Nat) (requireUnique : Bool) (items : List String) :
    Prop where
  length_le : items.length ≤ maxItems
  content : ∀ text ∈ items, ContentText maxLength text
  nodup : requireUnique = true → items.Nodup

theorem copyTextArray_eq_ok {value : Option Json} {requireUnique : Bool} {items : List String} :
    copyTextArray value field maxItems maxLength requireUnique = .ok items ↔
      value = some (texts items) ∧ TextsOk maxItems maxLength requireUnique items := by
  unfold copyTextArray
  have hcheck : ∀ item index (a : String),
      assertContentText (some item) (itemField field index) maxLength = .ok a ↔
        item = .str a ∧ ContentText maxLength a := by
    intro item index a
    rw [assertContentText_eq_ok, some_str_iff]
  have hunique : ∀ copy : List String, (!requireUnique || decide copy.Nodup) = true ↔
      (requireUnique = true → copy.Nodup) := by
    intro copy
    cases requireUnique <;> simp
  simp only [bind_eq_ok, copyArray_eq_ok hcheck, require_eq_ok, pure_eq_ok, Except.ok.injEq, hunique]
  constructor
  · rintro ⟨copy, ⟨hv, hlen, hP⟩, _, hnodup, rfl⟩
    exact ⟨hv, hlen, hP, hnodup⟩
  · rintro ⟨hv, h⟩
    exact ⟨items, ⟨hv, h.length_le, h.content⟩, (), h.nodup, rfl⟩

/-! ## Revision tokens -/

/-- A text that passes the check of `dev` and `ino`. -/
structure DecimalText (text : String) : Prop where
  ne_empty : text ≠ ""
  length_le : jsLength text ≤ 32
  digits : text.toList.any (fun c => !c.isDigit) = false

theorem assertDecimalString_eq_ok {value : Option Json} {text : String} :
    assertDecimalString value field = .ok text ↔ value = some (.str text) ∧ DecimalText text := by
  unfold assertDecimalString
  split
  · rename_i s
    split_ifs with hbound
    · simp only [raise_ne_ok, Option.some.injEq, Json.str.injEq, false_iff, not_and]
      rintro rfl h
      rcases hbound with hbound | hbound | hbound
      · exact h.ne_empty hbound
      · have := h.length_le
        omega
      · rw [h.digits] at hbound
        exact Bool.noConfusion hbound
    · simp only [Except.ok.injEq, Option.some.injEq, Json.str.injEq, iff_self_and]
      rintro rfl
      simp only [not_or, not_lt, Bool.not_eq_true] at hbound
      exact ⟨hbound.1, hbound.2.1, hbound.2.2⟩
  · rename_i hne
    simp only [raise_ne_ok, false_iff, not_and]
    rintro rfl
    exact absurd rfl (hne text)

/-- An identity that passes `copyFileIdentity`. -/
structure FileIdentity.Ok (identity : FileIdentity) : Prop where
  dev : DecimalText identity.dev
  ino : DecimalText identity.ino

theorem copyFileIdentity_ok {value : Option Json} {identity : Option FileIdentity}
    (h : copyFileIdentity value = .ok identity) :
    value.isSome = identity.isSome ∧ ∀ i ∈ identity, i.Ok := by
  unfold copyFileIdentity at h
  split at h
  · obtain rfl := Except.ok.inj h
    simp
  · simp only [bind_eq_ok, assertDecimalString_eq_ok, pure_eq_ok, Except.ok.injEq] at h
    obtain ⟨_, -, _, -, dev, ⟨-, hdev⟩, ino, ⟨-, hino⟩, rfl⟩ := h
    refine ⟨rfl, ?_⟩
    intro i hi
    obtain rfl := Option.some.inj hi
    exact ⟨hdev, hino⟩

theorem copyFileIdentity_toJson {identity : Option FileIdentity} (h : ∀ i ∈ identity, i.Ok) :
    copyFileIdentity (identity.map FileIdentity.toJson) = .ok identity := by
  cases identity with
  | none => rfl
  | some i =>
    have hi := h i rfl
    have hdev : assertDecimalString (i.toJson.get? "dev") "dev" = .ok i.dev :=
      (assertDecimalString_eq_ok).mpr ⟨rfl, hi.dev⟩
    have hino : assertDecimalString (i.toJson.get? "ino") "ino" = .ok i.ino :=
      (assertDecimalString_eq_ok).mpr ⟨rfl, hi.ino⟩
    have hkeys : assertOnlyKeys [("dev", .str i.dev), ("ino", .str i.ino)] ["dev", "ino"]
        "fileIdentity" = .ok () := (require_eq_ok).mpr rfl
    have hrecord : asRecord (some i.toJson) "fileIdentity must be an object" =
        .ok [("dev", .str i.dev), ("ino", .str i.ino)] := (asRecord_eq_ok).mpr rfl
    simp only [Option.map_some, copyFileIdentity]
    rw [hrecord, ok_bind, hkeys, ok_bind, hdev, ok_bind, hino]
    rfl

/-- A token that passes `createSessionRevisionToken`. -/
structure SessionRevisionToken.Ok (token : SessionRevisionToken) : Prop where
  sessionId : MetadataText maxMetadataLength token.sessionId
  completeBytes : token.completeBytes ≤ maxSafeInteger
  recordCount : token.recordCount ≤ maxSafeInteger
  leafId : ∀ id ∈ token.leafId, MetadataText maxMetadataLength id
  lastEntryId : ∀ id ∈ token.lastEntryId, MetadataText maxMetadataLength id
  sha256 : isSha256 token.completePrefixSha256 = true
  relations : checkRevision token = .ok ()
  fileIdentity : ∀ i ∈ token.fileIdentity, i.Ok

/-- The fields that `createSessionRevisionToken` reads for a token. -/
structure RevisionFields (fields : List (String × Json)) (token : SessionRevisionToken) : Prop where
  keys : (fields.all fun f => ["schemaVersion", "sessionId", "completeBytes", "recordCount", "leafId",
    "lastEntryId", "completePrefixSha256", "fileIdentity"].contains f.1) = true
  schemaVersion : isSchemaVersionOne ((Json.obj fields).get? "schemaVersion") = true
  sessionId : (Json.obj fields).get? "sessionId" = some (.str token.sessionId)
  completeBytes : ∃ d, (Json.obj fields).get? "completeBytes" = some (.num d) ∧
    d.toNat? = some token.completeBytes
  recordCount : ∃ d, (Json.obj fields).get? "recordCount" = some (.num d) ∧
    d.toNat? = some token.recordCount
  leafId : (Json.obj fields).get? "leafId" = some (nullable token.leafId)
  lastEntryId : (Json.obj fields).get? "lastEntryId" = some (nullable token.lastEntryId)
  sha256 : (Json.obj fields).get? "completePrefixSha256" = some (.str token.completePrefixSha256)
  fileIdentity : copyFileIdentity ((Json.obj fields).get? "fileIdentity") = .ok token.fileIdentity

theorem createSessionRevisionToken_eq_ok {token : SessionRevisionToken} :
    createSessionRevisionToken input = .ok token ↔
      ∃ fields, input = some (.obj fields) ∧ RevisionFields fields token ∧ token.Ok := by
  unfold createSessionRevisionToken assertOnlyKeys
  simp only [bind_eq_ok, asRecord_eq_ok, require_eq_ok, assertMetadataText_eq_ok,
    assertSafeInteger_eq_ok, assertNullableMetadataText_eq_ok, assertSha256_eq_ok, pure_eq_ok,
    Except.ok.injEq]
  constructor
  · rintro ⟨fields, hin, _, hkeys, _, hschema, sessionId, ⟨hsession, hsession'⟩, bytes,
      ⟨d, hd, hd', hbytes⟩, count, ⟨d₂, hd₂, hd₂', hcount⟩, leafId, ⟨hleaf, hleaf'⟩, last,
      ⟨hlast, hlast'⟩, sha, ⟨hsha, hsha'⟩, _, hcheck, identity, hidentity, rfl⟩
    exact ⟨fields, hin, ⟨hkeys, hschema, hsession, ⟨d, hd, hd'⟩, ⟨d₂, hd₂, hd₂'⟩, hleaf, hlast, hsha,
      hidentity⟩, hsession', hbytes, hcount, hleaf', hlast', hsha', hcheck,
      (copyFileIdentity_ok hidentity).2⟩
  · rintro ⟨fields, hin, hf, hok⟩
    obtain ⟨d, hd, hd'⟩ := hf.completeBytes
    obtain ⟨d₂, hd₂, hd₂'⟩ := hf.recordCount
    exact ⟨fields, hin, (), hf.keys, (), hf.schemaVersion, token.sessionId,
      ⟨hf.sessionId, hok.sessionId⟩, token.completeBytes, ⟨d, hd, hd', hok.completeBytes⟩,
      token.recordCount, ⟨d₂, hd₂, hd₂', hok.recordCount⟩, token.leafId, ⟨hf.leafId, hok.leafId⟩,
      token.lastEntryId, ⟨hf.lastEntryId, hok.lastEntryId⟩, token.completePrefixSha256,
      ⟨hf.sha256, hok.sha256⟩, (), hok.relations, token.fileIdentity, hf.fileIdentity, rfl⟩

theorem get?_number {fields : List (String × Json)} {key : String} {n : Nat}
    (h : (Json.obj fields).get? key = some (number n)) :
    ∃ d, (Json.obj fields).get? key = some (.num d) ∧ d.toNat? = some n :=
  ⟨_, h, Decimal.toNat?_ofNat n⟩

theorem createSessionRevisionToken_toJson {token : SessionRevisionToken} (h : token.Ok) :
    createSessionRevisionToken (some token.toJson) = .ok token := by
  rw [createSessionRevisionToken_eq_ok]
  refine ⟨_, rfl, ?_, h⟩
  have hidentity := copyFileIdentity_toJson h.fileIdentity
  obtain ⟨sessionId, bytes, count, leafId, last, sha, identity⟩ := token
  cases identity with
  | none =>
    exact ⟨rfl, rfl, rfl, get?_number rfl, get?_number rfl, rfl, rfl, rfl, hidentity⟩
  | some identity =>
    exact ⟨rfl, rfl, rfl, get?_number rfl, get?_number rfl, rfl, rfl, rfl, hidentity⟩

/-! ## Sources -/

/-- A source that passes `createCompactionSourceIdentity`. -/
structure CompactionSourceIdentity.Ok (source : CompactionSourceIdentity) : Prop where
  sessionId : MetadataText maxMetadataLength source.sessionId
  entryIds : IdsOk maxSourceEntries source.entryIds
  ne_nil : source.entryIds ≠ []
  firstEntryId : MetadataText maxMetadataLength source.firstEntryId
  lastEntryId : MetadataText maxMetadataLength source.lastEntryId
  activeLeafId : MetadataText maxMetadataLength source.activeLeafId
  sha256 : isSha256 source.sourceSha256 = true
  messageCount : source.messageCount ≤ maxSafeInteger
  relations : checkSource source = .ok ()

/-- The fields that `createCompactionSourceIdentity` reads for a source. -/
structure SourceFields (fields : List (String × Json)) (source : CompactionSourceIdentity) : Prop where
  keys : (fields.all fun f => ["sessionId", "entryIds", "firstEntryId", "lastEntryId", "sourceSha256",
    "activeLeafId", "messageCount"].contains f.1) = true
  sessionId : (Json.obj fields).get? "sessionId" = some (.str source.sessionId)
  entryIds : (Json.obj fields).get? "entryIds" = some (.arr (source.entryIds.map .str))
  firstEntryId : (Json.obj fields).get? "firstEntryId" = some (.str source.firstEntryId)
  lastEntryId : (Json.obj fields).get? "lastEntryId" = some (.str source.lastEntryId)
  activeLeafId : (Json.obj fields).get? "activeLeafId" = some (.str source.activeLeafId)
  sha256 : (Json.obj fields).get? "sourceSha256" = some (.str source.sourceSha256)
  messageCount : ∃ d, (Json.obj fields).get? "messageCount" = some (.num d) ∧
    d.toNat? = some source.messageCount

theorem createCompactionSourceIdentity_eq_ok {source : CompactionSourceIdentity} :
    createCompactionSourceIdentity input = .ok source ↔
      ∃ fields, input = some (.obj fields) ∧ SourceFields fields source ∧ source.Ok := by
  unfold createCompactionSourceIdentity assertOnlyKeys
  have hempty : ∀ ids : List String, (!ids.isEmpty) = true ↔ ids ≠ [] := by
    intro ids
    cases ids <;> simp
  simp only [bind_eq_ok, asRecord_eq_ok, require_eq_ok, assertMetadataText_eq_ok,
    assertSafeInteger_eq_ok, copyIdArray_eq_ok, assertSha256_eq_ok, pure_eq_ok, Except.ok.injEq,
    hempty]
  constructor
  · rintro ⟨fields, hin, _, hkeys, sessionId, ⟨hsession, hsession'⟩, ids, ⟨hids, hids'⟩, _, hne,
      first, ⟨hfirst, hfirst'⟩, last, ⟨hlast, hlast'⟩, leaf, ⟨hleaf, hleaf'⟩, sha, ⟨hsha, hsha'⟩,
      count, ⟨d, hd, hd', hcount⟩, _, hcheck, rfl⟩
    exact ⟨fields, hin, ⟨hkeys, hsession, hids, hfirst, hlast, hleaf, hsha, ⟨d, hd, hd'⟩⟩, hsession',
      hids', hne, hfirst', hlast', hleaf', hsha', hcount, hcheck⟩
  · rintro ⟨fields, hin, hf, hok⟩
    obtain ⟨d, hd, hd'⟩ := hf.messageCount
    exact ⟨fields, hin, (), hf.keys, source.sessionId, ⟨hf.sessionId, hok.sessionId⟩,
      source.entryIds, ⟨hf.entryIds, hok.entryIds⟩, (), hok.ne_nil, source.firstEntryId,
      ⟨hf.firstEntryId, hok.firstEntryId⟩, source.lastEntryId, ⟨hf.lastEntryId, hok.lastEntryId⟩,
      source.activeLeafId, ⟨hf.activeLeafId, hok.activeLeafId⟩, source.sourceSha256,
      ⟨hf.sha256, hok.sha256⟩, source.messageCount, ⟨d, hd, hd', hok.messageCount⟩, (),
      hok.relations, rfl⟩

theorem createCompactionSourceIdentity_toJson {source : CompactionSourceIdentity} (h : source.Ok) :
    createCompactionSourceIdentity (some source.toJson) = .ok source :=
  (createCompactionSourceIdentity_eq_ok).mpr
    ⟨_, rfl, ⟨rfl, rfl, rfl, rfl, rfl, rfl, rfl, get?_number rfl⟩, h⟩

/-! ## Envelopes -/

/-- A model identity that passes `copyModelIdentity`. -/
structure CompactionModelIdentity.Ok (model : CompactionModelIdentity) : Prop where
  provider : MetadataText maxMetadataLength model.provider
  id : MetadataText maxMetadataLength model.id

theorem copyModelIdentity_ok {value : Option Json} {model : CompactionModelIdentity}
    (h : copyModelIdentity value = .ok model) : model.Ok := by
  unfold copyModelIdentity at h
  simp only [bind_eq_ok, assertMetadataText_eq_ok, pure_eq_ok, Except.ok.injEq] at h
  obtain ⟨_, -, _, -, provider, ⟨-, hprovider⟩, id, ⟨-, hid⟩, rfl⟩ := h
  exact ⟨hprovider, hid⟩

theorem copyModelIdentity_toJson {model : CompactionModelIdentity} (h : model.Ok) :
    copyModelIdentity (some model.toJson) = .ok model := by
  unfold copyModelIdentity assertOnlyKeys
  simp only [bind_eq_ok, asRecord_eq_ok, require_eq_ok, assertMetadataText_eq_ok, pure_eq_ok,
    Except.ok.injEq]
  exact ⟨_, rfl, (), rfl, model.provider, ⟨rfl, h.provider⟩, model.id, ⟨rfl, h.id⟩, rfl⟩

/-- A history entry that passes `copyModelHistory`. -/
structure CompactionModelHistoryEntry.Ok (entry : CompactionModelHistoryEntry) : Prop where
  entryId : MetadataText maxMetadataLength entry.entryId
  provider : MetadataText maxMetadataLength entry.provider
  modelId : MetadataText maxMetadataLength entry.modelId

theorem copyModelHistoryEntry_ok {item : Json} {index : Nat} {entry : CompactionModelHistoryEntry}
    (h : copyModelHistoryEntry item index = .ok entry) : entry.Ok := by
  unfold copyModelHistoryEntry at h
  simp only [bind_eq_ok, assertMetadataText_eq_ok, pure_eq_ok, Except.ok.injEq] at h
  obtain ⟨_, -, _, -, entryId, ⟨-, hentryId⟩, provider, ⟨-, hprovider⟩, modelId, ⟨-, hmodelId⟩,
    rfl⟩ := h
  exact ⟨hentryId, hprovider, hmodelId⟩

theorem copyModelHistoryEntry_toJson {entry : CompactionModelHistoryEntry} (h : entry.Ok)
    (index : Nat) : copyModelHistoryEntry entry.toJson index = .ok entry := by
  unfold copyModelHistoryEntry assertOnlyKeys
  simp only [bind_eq_ok, asRecord_eq_ok, require_eq_ok, assertMetadataText_eq_ok, pure_eq_ok,
    Except.ok.injEq]
  exact ⟨_, rfl, (), rfl, entry.entryId, ⟨rfl, h.entryId⟩, entry.provider, ⟨rfl, h.provider⟩,
    entry.modelId, ⟨rfl, h.modelId⟩, rfl⟩

/-- A history that passes `copyModelHistory`. -/
structure HistoryOk (history : List CompactionModelHistoryEntry) : Prop where
  length_le : history.length ≤ 256
  entries : ∀ e ∈ history, e.Ok
  nodup : (history.map CompactionModelHistoryEntry.entryId).Nodup

theorem copyItems_history_ok {items : List Json} {index : Nat}
    (h : copyItems copyModelHistoryEntry items index = .ok history) :
    history.length = items.length ∧ ∀ e ∈ history, e.Ok := by
  induction items generalizing index history with
  | nil =>
    obtain rfl := Except.ok.inj h
    simp
  | cons item items ih =>
    simp only [copyItems, bind_eq_ok, pure_eq_ok, Except.ok.injEq] at h
    obtain ⟨e, he, es, hes, rfl⟩ := h
    obtain ⟨hlen, hok⟩ := ih hes
    refine ⟨by simp [hlen], ?_⟩
    intro x hx
    rcases List.mem_cons.mp hx with rfl | hx
    · exact copyModelHistoryEntry_ok he
    · exact hok x hx

theorem copyModelHistory_ok {value : Option Json} (h : copyModelHistory value = .ok history) :
    HistoryOk history := by
  unfold copyModelHistory copyArray at h
  simp only [bind_eq_ok, require_eq_ok, pure_eq_ok, Except.ok.injEq, decide_eq_true_eq] at h
  obtain ⟨copy, hcopy, _, hnodup, rfl⟩ := h
  split at hcopy
  · split_ifs at hcopy with hlen
    · obtain ⟨hlen', hok⟩ := copyItems_history_ok hcopy
      exact ⟨by omega, hok, hnodup⟩
    · exact absurd hcopy (raise_ne_ok _ _)
  · exact absurd hcopy (raise_ne_ok _ _)

theorem copyItems_history_toJson (h : ∀ e ∈ history, e.Ok) (index : Nat) :
    copyItems copyModelHistoryEntry (history.map CompactionModelHistoryEntry.toJson) index =
      .ok history := by
  induction history generalizing index with
  | nil => rfl
  | cons e history ih =>
    rw [List.map_cons, copyItems, copyModelHistoryEntry_toJson (h e (by simp)), ok_bind,
      ih (fun x hx => h x (by simp [hx])), ok_bind]
    rfl

theorem copyModelHistory_toJson (h : HistoryOk history) :
    copyModelHistory (some (.arr (history.map CompactionModelHistoryEntry.toJson))) =
      .ok history := by
  have hcopy : copyArray copyModelHistoryEntry
      (some (.arr (history.map CompactionModelHistoryEntry.toJson))) 256
      "preserved.modelHistory must be a bounded array" = .ok history := by
    simp only [copyArray]
    rw [if_pos (by simpa using h.length_le)]
    exact copyItems_history_toJson h.entries 0
  unfold copyModelHistory
  simp only [bind_eq_ok, require_eq_ok, pure_eq_ok, Except.ok.injEq, decide_eq_true_eq]
  exact ⟨history, hcopy, (), h.nodup, rfl⟩

/-- Provenance that passes `copyPreservedProvenance`. -/
structure CompactionPreservedProvenance.Ok (p : CompactionPreservedProvenance) : Prop where
  latestIntent : ContentText 16384 p.latestIntent
  openTasks : TextsOk maxProvenanceIds maxProvenanceTextLength false p.openTasks
  laneIds : TextsOk maxProvenanceIds maxMetadataLength true p.laneIds
  acceptancePredicateIds : TextsOk maxProvenanceIds maxMetadataLength true p.acceptancePredicateIds
  evidenceReceiptIds : TextsOk maxProvenanceIds maxMetadataLength true p.evidenceReceiptIds
  blockerReasons : TextsOk maxProvenanceIds maxProvenanceTextLength false p.blockerReasons
  repairEventIds : TextsOk maxProvenanceIds maxMetadataLength true p.repairEventIds
  branch : ∀ t ∈ p.branch, MetadataText maxProvenanceTextLength t
  worktree : ∀ t ∈ p.worktree, MetadataText maxProvenanceTextLength t
  modelHistory : HistoryOk p.modelHistory
  nextAction : ContentText 4096 p.nextAction

theorem copyPreservedProvenance_ok {p : CompactionPreservedProvenance}
    (h : copyPreservedProvenance input = .ok p) : p.Ok := by
  unfold copyPreservedProvenance at h
  simp only [bind_eq_ok, assertContentText_eq_ok, copyTextArray_eq_ok,
    assertNullableMetadataText_eq_ok, pure_eq_ok, Except.ok.injEq] at h
  obtain ⟨_, -, _, -, intent, ⟨-, h1⟩, tasks, ⟨-, h2⟩, lanes, ⟨-, h3⟩, predicates, ⟨-, h4⟩, receipts,
    ⟨-, h5⟩, blockers, ⟨-, h6⟩, repairs, ⟨-, h7⟩, branch, ⟨-, h8⟩, worktree, ⟨-, h9⟩, history, h10,
    action, ⟨-, h11⟩, rfl⟩ := h
  exact ⟨h1, h2, h3, h4, h5, h6, h7, h8, h9, copyModelHistory_ok h10, h11⟩

theorem copyPreservedProvenance_toJson {p : CompactionPreservedProvenance} (h : p.Ok) :
    copyPreservedProvenance (some p.toJson) = .ok p := by
  unfold copyPreservedProvenance assertOnlyKeys
  simp only [bind_eq_ok, asRecord_eq_ok, require_eq_ok, assertContentText_eq_ok,
    copyTextArray_eq_ok, assertNullableMetadataText_eq_ok, pure_eq_ok, Except.ok.injEq]
  exact ⟨_, rfl, (), rfl, p.latestIntent, ⟨rfl, h.latestIntent⟩, p.openTasks, ⟨rfl, h.openTasks⟩,
    p.laneIds, ⟨rfl, h.laneIds⟩, p.acceptancePredicateIds, ⟨rfl, h.acceptancePredicateIds⟩,
    p.evidenceReceiptIds, ⟨rfl, h.evidenceReceiptIds⟩, p.blockerReasons, ⟨rfl, h.blockerReasons⟩,
    p.repairEventIds, ⟨rfl, h.repairEventIds⟩, p.branch, ⟨rfl, h.branch⟩, p.worktree,
    ⟨rfl, h.worktree⟩, p.modelHistory, copyModelHistory_toJson h.modelHistory, p.nextAction,
    ⟨rfl, h.nextAction⟩, rfl⟩

/-- An envelope that passes `validateCompactionEnvelope`. -/
structure CompactionEnvelope.Ok (envelope : CompactionEnvelope) : Prop where
  transactionId : MetadataText maxMetadataLength envelope.transactionId
  createdAt : MetadataText maxMetadataLength envelope.createdAt
  canonical : isCanonicalTimestamp envelope.createdAt = true
  summary : ContentText maxSummaryLength envelope.summary
  summarySha256 : isSha256 envelope.summarySha256 = true
  baseRevision : envelope.baseRevision.Ok
  source : envelope.source.Ok
  sameSession : envelope.baseRevision.sessionId = envelope.source.sessionId
  sameLeaf : envelope.baseRevision.leafId = some envelope.source.activeLeafId
  model : envelope.model.Ok
  preserved : envelope.preserved.Ok

/-- What `validateCompactionEnvelope` returns is valid. -/
theorem validateCompactionEnvelope_ok {envelope : CompactionEnvelope}
    (h : validateCompactionEnvelope input = .ok envelope) : envelope.Ok := by
  unfold validateCompactionEnvelope at h
  simp only [bind_eq_ok, require_eq_ok, assertMetadataText_eq_ok, assertCanonicalTimestamp_eq_ok,
    assertContentText_eq_ok, assertSha256_eq_ok, pure_eq_ok, Except.ok.injEq, Bool.and_eq_true,
    decide_eq_true_eq] at h
  obtain ⟨_, -, _, -, _, -, transaction, ⟨-, h1⟩, createdAt, ⟨-, h2, h3⟩, summary, ⟨-, h4⟩, sha,
    ⟨-, h5⟩, base, h6, source, h7, _, ⟨h8, h9⟩, model, h10, preserved, h11, rfl⟩ := h
  obtain ⟨_, -, -, hbase⟩ := (createSessionRevisionToken_eq_ok).mp h6
  obtain ⟨_, -, -, hsource⟩ := (createCompactionSourceIdentity_eq_ok).mp h7
  exact ⟨h1, h2, h3, h4, h5, hbase, hsource, h8, h9, copyModelIdentity_ok h10,
    copyPreservedProvenance_ok h11⟩

/-- The fields that `validateCompactionEnvelope` reads for an envelope whose parts are valid. -/
structure EnvelopeFields (fields : List (String × Json)) (envelope : CompactionEnvelope) : Prop where
  keys : (fields.all fun f => ["schemaVersion", "transactionId", "baseRevision", "source", "createdAt",
    "model", "summary", "summarySha256", "preserved"].contains f.1) = true
  schemaVersion : (Json.obj fields).get? "schemaVersion" = some (number 2)
  transactionId : (Json.obj fields).get? "transactionId" = some (.str envelope.transactionId)
  baseRevision : createSessionRevisionToken ((Json.obj fields).get? "baseRevision") =
    .ok envelope.baseRevision
  source : createCompactionSourceIdentity ((Json.obj fields).get? "source") = .ok envelope.source
  createdAt : (Json.obj fields).get? "createdAt" = some (.str envelope.createdAt)
  model : (Json.obj fields).get? "model" = some envelope.model.toJson
  summary : (Json.obj fields).get? "summary" = some (.str envelope.summary)
  summarySha256 : (Json.obj fields).get? "summarySha256" = some (.str envelope.summarySha256)
  preserved : (Json.obj fields).get? "preserved" = some envelope.preserved.toJson

theorem validateCompactionEnvelope_of_fields {fields : List (String × Json)}
    {envelope : CompactionEnvelope} (hf : EnvelopeFields fields envelope) (h : envelope.Ok) :
    validateCompactionEnvelope (some (.obj fields)) = .ok envelope := by
  unfold validateCompactionEnvelope assertOnlyKeys
  simp only [bind_eq_ok, asRecord_eq_ok, require_eq_ok, assertMetadataText_eq_ok,
    assertCanonicalTimestamp_eq_ok, assertContentText_eq_ok, assertSha256_eq_ok, pure_eq_ok,
    Except.ok.injEq, Bool.and_eq_true, decide_eq_true_eq]
  exact ⟨fields, rfl, (), hf.keys, (), hf.schemaVersion, envelope.transactionId,
    ⟨hf.transactionId, h.transactionId⟩, envelope.createdAt, ⟨hf.createdAt, h.createdAt, h.canonical⟩,
    envelope.summary, ⟨hf.summary, h.summary⟩, envelope.summarySha256,
    ⟨hf.summarySha256, h.summarySha256⟩, envelope.baseRevision, hf.baseRevision, envelope.source,
    hf.source, (), ⟨h.sameSession, h.sameLeaf⟩, envelope.model,
    hf.model ▸ copyModelIdentity_toJson h.model, envelope.preserved,
    hf.preserved ▸ copyPreservedProvenance_toJson h.preserved, rfl⟩

theorem validateCompactionEnvelope_toJson {envelope : CompactionEnvelope} (h : envelope.Ok) :
    validateCompactionEnvelope (some envelope.toJson) = .ok envelope :=
  validateCompactionEnvelope_of_fields
    ⟨rfl, rfl, rfl, createSessionRevisionToken_toJson h.baseRevision,
      createCompactionSourceIdentity_toJson h.source, rfl, rfl, rfl, rfl, rfl⟩ h

end CodingAgent
