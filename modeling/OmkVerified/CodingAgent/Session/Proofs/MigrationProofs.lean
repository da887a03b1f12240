import OmkVerified.CodingAgent.Session.Proofs.StorableProofs

/-!
# The migration of version 1

A file of version 1 has no ids. The migration draws one for each entry, in one pass, and makes each
entry the child of the one before. The set of used ids that it hands to the draw never grows, so an
id that is drawn twice is given twice; and an index that names a later entry is resolved before that
entry has its id.
-/

namespace CodingAgent

open Lib

/-- The id that is drawn for the record at `index`. -/
def drawnId (uuids : Nat → Nat → Uuid) (index : Nat) : String :=
  generateId (fun _ => false) (uuids index)

/-- The ids that are drawn for the entries of `records`, of which the first is at `index`. -/
def drawnIds (uuids : Nat → Nat → Uuid) : List FileEntry → (index : Nat) → List String
  | [], _ => []
  | record :: records, index =>
    if isSession record then drawnIds uuids records (index + 1)
    else drawnId uuids index :: drawnIds uuids records (index + 1)

/-- The records of a file that are not headers. -/
def entriesOf (records : List FileEntry) : List FileEntry := records.filter fun e => !isSession e

/-- The ids of the entries of a file. -/
def idsOf (records : List FileEntry) : List (Option Json) := (entriesOf records).map entryId

/-- The entries of the file with their old index of a kept entry: the record at `index` is a
compaction that names the entry at `kept`. -/
structure KeptIndex (records : List FileEntry) (index kept : Nat) : Prop where
  compaction : ∃ record value, records[index]? = some record ∧
    hasType record "compaction" = true ∧ record.get? "firstKeptEntryIndex" = some (.num value) ∧
    value.toNat? = some kept
  target : ∃ record, records[kept]? = some record ∧ isSession record = false

/-- What a migration of `records` is to give. -/
structure MigratedWell (records migrated : List FileEntry) : Prop where
  ids : (idsOf migrated).Nodup
  root : ∀ e ∈ (entriesOf migrated).head?, entryParentId e = some .null
  chain : (entriesOf migrated).IsChain fun a b => entryParentId b = entryId a
  kept : ∀ index kept, KeptIndex records index kept →
    ∃ compaction target, migrated[index]? = some compaction ∧ migrated[kept]? = some target ∧
      compaction.get? "firstKeptEntryId" = entryId target

/-! ## One record -/

theorem lookup_filter_ne (fields : List (String × Json)) {key key' : String} (h : key' ≠ key) :
    (fields.filter fun f => f.1 ≠ key).lookup key' = fields.lookup key' := by
  induction fields with
  | nil => rfl
  | cons field fields ih =>
    rw [List.filter_cons, Json.lookup_cons_eq]
    split_ifs with hkey hfield hfield
    · rw [Json.lookup_cons_eq, if_pos hfield]
    · rw [Json.lookup_cons_eq, if_neg hfield, ih]
    · simp [← hfield, h] at hkey
    · exact ih

theorem get?_deleteField_ne (entry : FileEntry) {key key' : String} (h : key' ≠ key) :
    (deleteField entry key).get? key' = entry.get? key' := by
  cases entry with
  | obj fields => exact lookup_filter_ne fields h
  | _ => rfl

theorem get?_deleteField_self (entry : FileEntry) (key : String) :
    (deleteField entry key).get? key = none := by
  cases entry with
  | obj fields =>
    show (fields.filter fun f => f.1 ≠ key).lookup key = none
    rw [List.lookup_eq_none_iff]
    intro field hfield
    have hne := of_decide_eq_true (List.mem_filter.mp hfield).2
    exact bne_iff_ne.mpr fun h => hne h.symm
  | _ => rfl

/-- The conversion of the kept index writes no other field. -/
theorem get?_migrateFirstKept (records : List FileEntry) (entry : FileEntry) {key : String}
    (hid : key ≠ "firstKeptEntryId") (hindex : key ≠ "firstKeptEntryIndex") :
    (migrateFirstKept records entry).get? key = entry.get? key := by
  unfold migrateFirstKept
  split_ifs
  · split
    · simp only
      rw [get?_deleteField_ne _ hindex]
      split
      · split_ifs
        · rfl
        · split
          · exact Json.get?_set_ne _ _ hid
          · exact get?_deleteField_ne _ hid
      · rfl
    · rfl
  · rfl

/-- A compaction gets the id that the named entry has at that time. -/
theorem get?_firstKept_migrateFirstKept {records : List FileEntry} {entry target : FileEntry}
    (hrecord : entry.isRecord = true) (htype : hasType entry "compaction" = true) {index : Decimal}
    (hindex : entry.get? "firstKeptEntryIndex" = some (.num index))
    (htarget : entryAt records index = some target) (hsession : isSession target = false) :
    (migrateFirstKept records entry).get? "firstKeptEntryId" = entryId target := by
  unfold migrateFirstKept
  rw [if_pos htype, hindex]
  simp only [htarget, hsession, Bool.false_eq_true, if_false]
  rw [get?_deleteField_ne _ (by decide)]
  cases hid : entryId target with
  | some id => exact Json.get?_set_self hrecord _ _
  | none => exact get?_deleteField_self _ _

/-- The record that the loop makes of `entry`, after the migrated records `done`. -/
def migrateRecord (uuids : Nat → Nat → Uuid) (done : List FileEntry) (entry : FileEntry)
    (rest : List FileEntry) (prevId : Json) : FileEntry :=
  if isSession entry then entry.set "version" (number 2)
  else
    let identified := (entry.set "id" (.str (drawnId uuids done.length))).set "parentId" prevId
    migrateFirstKept (done ++ identified :: rest) identified

/-- The parent of the next entry. -/
def nextPrevId (uuids : Nat → Nat → Uuid) (index : Nat) (entry : FileEntry) (prevId : Json) : Json :=
  if isSession entry then prevId else .str (drawnId uuids index)

/-- A step of the loop that does not throw. -/
theorem migrateV1From_cons {uuids : Nat → Nat → Uuid} {done rest result : List FileEntry}
    {entry : FileEntry} {prevId : Json}
    (h : migrateV1From uuids done (entry :: rest) prevId = .ok result) :
    entry.isRecord = true ∧
      migrateV1From uuids (done ++ [migrateRecord uuids done entry rest prevId]) rest
        (nextPrevId uuids done.length entry prevId) = .ok result := by
  unfold migrateV1From at h
  unfold migrateRecord nextPrevId
  by_cases hsession : isSession entry = true
  · rw [if_pos hsession] at h ⊢
    rw [if_pos hsession]
    exact ⟨Json.isRecord_of_get? (of_decide_eq_true hsession), h⟩
  · rw [if_neg hsession] at h ⊢
    rw [if_neg hsession]
    split_ifs at h with hrecord
    · exact ⟨hrecord, h⟩
    · exact absurd h (raise_ne_ok _ _)

section Record

variable {uuids : Nat → Nat → Uuid} {done rest : List FileEntry} {entry : FileEntry} {prevId : Json}

/-- The migration of a record keeps the fields that it does not write. -/
theorem get?_migrateRecord {key : String}
    (hkey : key ∉ ["version", "id", "parentId", "firstKeptEntryId", "firstKeptEntryIndex"]) :
    (migrateRecord uuids done entry rest prevId).get? key = entry.get? key := by
  simp only [List.mem_cons, List.not_mem_nil, or_false, not_or] at hkey
  obtain ⟨hversion, hid, hparent, hkept, hindex⟩ := hkey
  unfold migrateRecord
  split_ifs
  · exact Json.get?_set_ne _ _ hversion
  · simp only
    rw [get?_migrateFirstKept _ _ hkept hindex, Json.get?_set_ne _ _ hparent,
      Json.get?_set_ne _ _ hid]

theorem isSession_migrateRecord :
    isSession (migrateRecord uuids done entry rest prevId) = isSession entry := by
  unfold isSession hasType
  rw [get?_migrateRecord (by decide)]

theorem entryId_migrateRecord (hrecord : entry.isRecord = true) (hsession : isSession entry = false) :
    entryId (migrateRecord uuids done entry rest prevId) =
      some (.str (drawnId uuids done.length)) := by
  unfold migrateRecord
  rw [if_neg (by simp [hsession])]
  show (migrateFirstKept _ _).get? "id" = _
  rw [get?_migrateFirstKept _ _ (by decide) (by decide), Json.get?_set_ne _ _ (by decide),
    Json.get?_set_self hrecord]

theorem entryParentId_migrateRecord (hrecord : entry.isRecord = true)
    (hsession : isSession entry = false) :
    entryParentId (migrateRecord uuids done entry rest prevId) = some prevId := by
  unfold migrateRecord
  rw [if_neg (by simp [hsession])]
  show (migrateFirstKept _ _).get? "parentId" = _
  rw [get?_migrateFirstKept _ _ (by decide) (by decide),
    Json.get?_set_self (by rw [isRecord_set]; exact hrecord)]

end Record

/-! ## The loop -/

theorem prefix_migrateV1From {uuids : Nat → Nat → Uuid} {done rest result : List FileEntry}
    {prevId : Json} (h : migrateV1From uuids done rest prevId = .ok result) : done <+: result := by
  induction rest generalizing done prevId with
  | nil =>
    obtain rfl : done = result := Except.ok.inj h
    exact List.prefix_refl done
  | cons entry rest ih => exact (List.prefix_append done _).trans (ih (migrateV1From_cons h).2)

theorem entriesOf_concat (records : List FileEntry) (record : FileEntry) :
    entriesOf (records ++ [record]) =
      if isSession record then entriesOf records else entriesOf records ++ [record] := by
  unfold entriesOf
  rw [List.filter_append]
  cases hsession : isSession record with
  | true => simp [hsession]
  | false => simp [hsession]

/-- The ids of the migrated entries are the ones that were drawn. -/
theorem idsOf_migrateV1From {uuids : Nat → Nat → Uuid} {done rest result : List FileEntry}
    {prevId : Json} (h : migrateV1From uuids done rest prevId = .ok result) :
    idsOf result =
      idsOf done ++ (drawnIds uuids rest done.length).map fun id => some (.str id) := by
  induction rest generalizing done prevId with
  | nil =>
    obtain rfl : done = result := Except.ok.inj h
    simp [drawnIds]
  | cons entry rest ih =>
    obtain ⟨hrecord, hrest⟩ := migrateV1From_cons h
    rw [ih hrest, List.length_append, List.length_singleton, drawnIds]
    unfold idsOf
    rw [entriesOf_concat, isSession_migrateRecord]
    cases hsession : isSession entry with
    | true => rfl
    | false => simp [entryId_migrateRecord hrecord hsession]

/-- The loop at one record: what was migrated before it, and what becomes of it. -/
theorem migrateV1From_at {uuids : Nat → Nat → Uuid} {done front back result : List FileEntry}
    {entry : FileEntry} {prevId : Json}
    (h : migrateV1From uuids done (front ++ entry :: back) prevId = .ok result) :
    ∃ before prevId', before.length = done.length + front.length ∧
      entry.isRecord = true ∧
      before ++ [migrateRecord uuids before entry back prevId'] <+: result := by
  induction front generalizing done prevId with
  | nil =>
    obtain ⟨hrecord, hrest⟩ := migrateV1From_cons h
    exact ⟨done, prevId, by simp, hrecord, prefix_migrateV1From hrest⟩
  | cons first front ih =>
    obtain ⟨before, prevId', hlength, hrecord, hprefix⟩ := ih (migrateV1From_cons h).2
    refine ⟨before, prevId', ?_, hrecord, hprefix⟩
    rw [hlength, List.length_append, List.length_singleton, List.length_cons]
    omega

/-- A line of entries from the root, whose last id is `prevId`. -/
structure Chained (entries : List FileEntry) (prevId : Json) : Prop where
  root : ∀ e ∈ entries.head?, entryParentId e = some .null
  chain : entries.IsChain fun a b => entryParentId b = entryId a
  last : ∀ e ∈ entries.getLast?, entryId e = some prevId
  empty : entries = [] → prevId = .null

theorem chained_nil : Chained [] .null :=
  ⟨by simp, List.isChain_nil, by simp, fun _ => rfl⟩

theorem Chained.concat {entries : List FileEntry} {prevId id : Json} (h : Chained entries prevId)
    {entry : FileEntry} (hparent : entryParentId entry = some prevId)
    (hid : entryId entry = some id) : Chained (entries ++ [entry]) id where
  root := by
    intro e he
    cases entries with
    | nil =>
      obtain rfl : entry = e := by simpa using he
      rw [hparent, h.empty rfl]
    | cons first rest => exact h.root e he
  chain := by
    rw [List.isChain_append]
    refine ⟨h.chain, List.isChain_singleton _, ?_⟩
    intro a ha b hb
    obtain rfl : entry = b := by simpa using hb
    rw [hparent, h.last a ha]
  last := by
    intro e he
    obtain rfl : entry = e := by simpa using he
    exact hid
  empty := by simp

/-- The migrated entries are a line, in the order of the file. -/
theorem chained_migrateV1From {uuids : Nat → Nat → Uuid} {done rest result : List FileEntry}
    {prevId : Json} (hdone : Chained (entriesOf done) prevId)
    (h : migrateV1From uuids done rest prevId = .ok result) :
    ∃ lastId, Chained (entriesOf result) lastId := by
  induction rest generalizing done prevId with
  | nil =>
    obtain rfl : done = result := Except.ok.inj h
    exact ⟨prevId, hdone⟩
  | cons entry rest ih =>
    obtain ⟨hrecord, hrest⟩ := migrateV1From_cons h
    refine ih ?_ hrest
    rw [entriesOf_concat, isSession_migrateRecord]
    unfold nextPrevId
    cases hsession : isSession entry with
    | true => exact hdone
    | false =>
      exact hdone.concat (entryParentId_migrateRecord hrecord hsession)
        (entryId_migrateRecord hrecord hsession)

/-! ## The kept entries -/

/-- A migrated record, by its place in the file. -/
theorem getElem?_migrateV1 {uuids : Nat → Nat → Uuid} {records result : List FileEntry}
    (h : migrateV1ToV2 uuids records = .ok result) {index : Nat} {entry : FileEntry}
    (hentry : records[index]? = some entry) :
    ∃ before prevId, before.length = index ∧ entry.isRecord = true ∧ before <+: result ∧
      result[index]? = some (migrateRecord uuids before entry (records.drop (index + 1)) prevId) := by
  obtain ⟨hlt, hget⟩ := List.getElem?_eq_some_iff.mp hentry
  have hsplit : records = records.take index ++ entry :: records.drop (index + 1) := by
    rw [← hget, List.getElem_cons_drop, List.take_append_drop]
  unfold migrateV1ToV2 at h
  rw [hsplit] at h
  obtain ⟨before, prevId, hlength, hrecord, hprefix⟩ := migrateV1From_at h
  have hbefore : before.length = index := by
    rw [hlength, List.length_nil, List.length_take]
    omega
  refine ⟨before, prevId, hbefore, hrecord, (List.prefix_append _ _).trans hprefix, ?_⟩
  obtain ⟨tail, rfl⟩ := hprefix
  rw [List.append_assoc, List.getElem?_append_right hbefore.le, hbefore, Nat.sub_self]
  rfl

/-- The record that a compaction at `index` finds at `kept`: up to its own place one with its new
id, and behind it one that is as it was in the file. -/
theorem getElem?_during {uuids : Nat → Nat → Uuid} {records result before : List FileEntry}
    (h : migrateV1ToV2 uuids records = .ok result) (hbefore : before <+: result) {index kept : Nat}
    (hlength : before.length = index) {entry target : FileEntry}
    (hentry : records[index]? = some entry) (hrecord : entry.isRecord = true)
    (hsession : isSession entry = false) (htarget : records[kept]? = some target)
    (htargetSession : isSession target = false) (prevId : Json) :
    ∃ found, (before ++ ((entry.set "id" (.str (drawnId uuids index))).set "parentId" prevId) ::
        records.drop (index + 1))[kept]? = some found ∧ isSession found = false ∧
      (kept ≤ index → entryId found = some (.str (drawnId uuids kept))) ∧
      (index < kept → found = target) := by
  rcases Nat.lt_trichotomy kept index with hlt | rfl | hgt
  · obtain ⟨before', prevId', hlength', hrecord', -, hget⟩ := getElem?_migrateV1 h htarget
    rw [List.getElem?_append_left (by omega)]
    obtain ⟨tail, rfl⟩ := hbefore
    rw [List.getElem?_append_left (by omega)] at hget
    refine ⟨_, hget, ?_, fun _ => ?_, fun hle => by omega⟩
    · rw [isSession_migrateRecord]
      exact htargetSession
    · rw [entryId_migrateRecord hrecord' htargetSession, hlength']
  · rw [List.getElem?_append_right hlength.le, hlength, Nat.sub_self]
    refine ⟨_, rfl, ?_, fun _ => ?_, fun hle => by omega⟩
    · unfold isSession hasType at hsession ⊢
      rw [Json.get?_set_ne _ _ (by decide), Json.get?_set_ne _ _ (by decide)]
      exact hsession
    · unfold entryId
      rw [Json.get?_set_ne _ _ (by decide), Json.get?_set_self hrecord]
  · rw [List.getElem?_append_right (by omega), hlength]
    obtain ⟨offset, rfl⟩ : ∃ offset, kept = index + 1 + offset := ⟨kept - index - 1, by omega⟩
    rw [show index + 1 + offset - index = offset + 1 by omega, List.getElem?_cons_succ,
      List.getElem?_drop]
    exact ⟨target, htarget, htargetSession, fun hle => by omega, fun _ => rfl⟩

/-- A compaction names the entry at its old index, unless that is a later entry, which had another
id or none. -/
theorem kept_migrateV1_iff {uuids : Nat → Nat → Uuid} {records result : List FileEntry}
    (h : migrateV1ToV2 uuids records = .ok result) {index kept : Nat}
    (hkept : KeptIndex records index kept) :
    (∃ compaction target, result[index]? = some compaction ∧ result[kept]? = some target ∧
        compaction.get? "firstKeptEntryId" = entryId target) ↔
      kept ≤ index ∨
        (records[kept]?).bind entryId = some (.str (drawnId uuids kept)) := by
  obtain ⟨entry, value, hentry, htype, hvalue, hnat⟩ := hkept.compaction
  obtain ⟨target, htarget, htargetSession⟩ := hkept.target
  have hsession : isSession entry = false := by
    unfold isSession
    by_contra hsession
    rw [Bool.not_eq_false] at hsession
    have heq := (of_decide_eq_true htype).symm.trans (of_decide_eq_true hsession)
    exact absurd heq (by decide)
  obtain ⟨before, prevId, hlength, hrecord, hbefore, hget⟩ := getElem?_migrateV1 h hentry
  obtain ⟨before', prevId', hlength', hrecord', -, hgetTarget⟩ := getElem?_migrateV1 h htarget
  obtain ⟨found, hfound, hfoundSession, hnew, hold⟩ := getElem?_during h hbefore hlength hentry
    hrecord hsession htarget htargetSession prevId
  have hid : entryId (migrateRecord uuids before' target (records.drop (kept + 1)) prevId') =
      some (.str (drawnId uuids before'.length)) := entryId_migrateRecord hrecord' htargetSession
  have hcompaction : (migrateRecord uuids before entry (records.drop (index + 1)) prevId).get?
      "firstKeptEntryId" = entryId found := by
    unfold migrateRecord
    rw [if_neg (by simp [hsession]), hlength]
    have hindex : ((entry.set "id" (.str (drawnId uuids index))).set "parentId" prevId).get?
        "firstKeptEntryIndex" = some (.num value) := by
      rw [Json.get?_set_ne _ _ (by decide), Json.get?_set_ne _ _ (by decide)]
      exact hvalue
    refine get?_firstKept_migrateFirstKept ?_ ?_ hindex ?_ hfoundSession
    · rw [isRecord_set, isRecord_set]
      exact hrecord
    · unfold hasType at htype ⊢
      rw [Json.get?_set_ne _ _ (by decide), Json.get?_set_ne _ _ (by decide)]
      exact htype
    · unfold entryAt
      rw [hnat]
      exact hfound
  have hnamed : (∃ compaction target, result[index]? = some compaction ∧
      result[kept]? = some target ∧ compaction.get? "firstKeptEntryId" = entryId target) ↔
        entryId found = some (.str (drawnId uuids kept)) := by
    rw [hget, hgetTarget, ← hcompaction]
    rw [hlength'] at hid
    constructor
    · rintro ⟨_, _, hc, ht, heq⟩
      rw [← Option.some.inj hc, ← Option.some.inj ht, hid] at heq
      exact heq
    · intro heq
      exact ⟨_, _, rfl, rfl, heq.trans hid.symm⟩
  rw [hnamed, htarget, Option.bind_some]
  by_cases hle : kept ≤ index
  · exact iff_of_true (hnew hle) (.inl hle)
  · rw [hold (by omega)]
    exact ⟨.inr, fun hor => hor.resolve_left hle⟩

/-! ## The whole migration -/

theorem get?_migrateV2Entry (entry : FileEntry) {key : String} (hversion : key ≠ "version")
    (hmessage : key ≠ "message") : (migrateV2Entry entry).get? key = entry.get? key := by
  unfold migrateV2Entry
  split_ifs
  · exact Json.get?_set_ne _ _ hversion
  · split
    · split_ifs
      · exact Json.get?_set_ne _ _ hmessage
      · rfl
    · rfl
  · rfl

theorem isSession_migrateV2Entry (entry : FileEntry) :
    isSession (migrateV2Entry entry) = isSession entry := by
  unfold isSession hasType
  rw [get?_migrateV2Entry _ (by decide) (by decide)]

theorem entriesOf_migrateV2ToV3 (records : List FileEntry) :
    entriesOf (migrateV2ToV3 records) = (entriesOf records).map migrateV2Entry := by
  unfold entriesOf migrateV2ToV3
  rw [List.filter_map]
  congr 1
  exact List.filter_congr fun e _ => by simp [isSession_migrateV2Entry]

theorem migratedWell_migrateV2ToV3_iff (records migrated : List FileEntry) :
    MigratedWell records (migrateV2ToV3 migrated) ↔ MigratedWell records migrated := by
  have hid : ∀ e : FileEntry, entryId (migrateV2Entry e) = entryId e := fun e =>
    get?_migrateV2Entry e (by decide) (by decide)
  have hparent : ∀ e : FileEntry, entryParentId (migrateV2Entry e) = entryParentId e := fun e =>
    get?_migrateV2Entry e (by decide) (by decide)
  have hkept : ∀ e : FileEntry, (migrateV2Entry e).get? "firstKeptEntryId" =
      e.get? "firstKeptEntryId" := fun e => get?_migrateV2Entry e (by decide) (by decide)
  have hids : idsOf (migrateV2ToV3 migrated) = idsOf migrated := by
    unfold idsOf
    rw [entriesOf_migrateV2ToV3, List.map_map]
    exact List.map_congr_left fun e _ => hid e
  have hnamed : ∀ index kept : Nat,
      (∃ compaction target, (migrateV2ToV3 migrated)[index]? = some compaction ∧
        (migrateV2ToV3 migrated)[kept]? = some target ∧
        compaction.get? "firstKeptEntryId" = entryId target) ↔
      ∃ compaction target, migrated[index]? = some compaction ∧ migrated[kept]? = some target ∧
        compaction.get? "firstKeptEntryId" = entryId target := by
    intro index kept
    unfold migrateV2ToV3
    simp only [List.getElem?_map, Option.map_eq_some_iff]
    constructor
    · rintro ⟨_, _, ⟨c, hc, rfl⟩, ⟨t, ht, rfl⟩, heq⟩
      rw [hkept, hid] at heq
      exact ⟨c, t, hc, ht, heq⟩
    · rintro ⟨c, t, hc, ht, heq⟩
      exact ⟨_, _, ⟨c, hc, rfl⟩, ⟨t, ht, rfl⟩, by rw [hkept, hid, heq]⟩
  constructor
  · rintro ⟨hnodup, hroot, hchain, hall⟩
    rw [entriesOf_migrateV2ToV3] at hroot hchain
    refine ⟨hids ▸ hnodup, ?_, ?_, fun index kept h => (hnamed index kept).mp (hall index kept h)⟩
    · intro e he
      rw [← hparent]
      refine hroot _ ?_
      rw [List.head?_map, he]
      rfl
    · rw [List.isChain_map] at hchain
      exact hchain.imp fun a b hab => by rwa [hparent, hid] at hab
  · rintro ⟨hnodup, hroot, hchain, hall⟩
    refine ⟨hids.symm ▸ hnodup, ?_, ?_, fun index kept h => (hnamed index kept).mpr (hall index kept h)⟩
    · intro e he
      rw [entriesOf_migrateV2ToV3, List.head?_map] at he
      obtain ⟨e', he', rfl⟩ := Option.map_eq_some_iff.mp he
      rw [hparent]
      exact hroot e' he'
    · rw [entriesOf_migrateV2ToV3, List.isChain_map]
      exact hchain.imp fun a b hab => by rw [hparent, hid, hab]

/-- A migration from version 1 gives distinct ids, a line of entries and the kept entries exactly
when the drawn ids are distinct and no compaction names a later entry, unless that had the id that
it is given. -/
theorem migrateToCurrentVersion_v1_iff {uuids : Nat → Nat → Uuid} {records migrated : List FileEntry}
    (hversion : versionBelow ((records.find? isSession).getD .null) 2 = true)
    (h : migrateToCurrentVersion uuids records = .ok (migrated, true)) :
    MigratedWell records migrated ↔
      (drawnIds uuids records 0).Nodup ∧
        ∀ index kept, KeptIndex records index kept →
          kept ≤ index ∨ (records[kept]?).bind entryId = some (.str (drawnId uuids kept)) := by
  unfold migrateToCurrentVersion at h
  simp only [hversion, if_true] at h
  split_ifs at h with hcurrent
  · obtain ⟨result, hresult, hmigrated⟩ := bind_eq_ok.mp h
    obtain rfl : migrateV2ToV3 result = migrated := congrArg Prod.fst (Except.ok.inj hmigrated)
    rw [migratedWell_migrateV2ToV3_iff]
    have hids : idsOf result = (drawnIds uuids records 0).map fun id => some (.str id) :=
      idsOf_migrateV1From hresult
    have hnodup : (idsOf result).Nodup ↔ (drawnIds uuids records 0).Nodup := by
      rw [hids]
      exact List.nodup_map_iff fun a b hab => Json.str.inj (Option.some.inj hab)
    obtain ⟨lastId, hchained⟩ := chained_migrateV1From
      (show Chained (entriesOf []) .null from chained_nil) hresult
    constructor
    · intro hwell
      exact ⟨hnodup.mp hwell.ids, fun index kept hkept =>
        (kept_migrateV1_iff hresult hkept).mp (hwell.kept index kept hkept)⟩
    · rintro ⟨hdistinct, hkept⟩
      exact ⟨hnodup.mpr hdistinct, hchained.root, hchained.chain, fun index kept hnamed =>
        (kept_migrateV1_iff hresult hnamed).mpr (hkept index kept hnamed)⟩
  · exact absurd (congrArg Prod.snd (Except.ok.inj h)) (by simp)

/-! ## A file of version 1 -/

/-- A file of version 1 with a message and a compaction that keeps it. -/
def versionOneRecords : List FileEntry :=
  [.obj [("type", .str "session"), ("id", .str "s")],
    .obj [("type", .str "message"), ("message", sampleMessage "user" "a")],
    .obj [("type", .str "compaction"), ("summary", .str "a"), ("firstKeptEntryIndex", number 1)]]

/-- An id that is drawn twice is given twice. -/
theorem migrateToCurrentVersion_repeats_id :
    versionBelow ((versionOneRecords.find? isSession).getD .null) 2 = true ∧
      ∃ migrated, migrateToCurrentVersion (fun _ _ => sampleUuid 3) versionOneRecords =
          .ok (migrated, true) ∧
        ¬ MigratedWell versionOneRecords migrated := by
  refine ⟨by decide, _, by rfl, fun h => ?_⟩
  exact absurd h.ids (by decide)

theorem keptIndex_versionOneRecords {index kept : Nat}
    (h : KeptIndex versionOneRecords index kept) : kept ≤ index := by
  obtain ⟨record, value, hrecord, htype, hvalue, hnat⟩ := h.compaction
  match index with
  | 0 =>
    obtain rfl := Option.some.inj hrecord
    exact absurd htype (by decide)
  | 1 =>
    obtain rfl := Option.some.inj hrecord
    exact absurd htype (by decide)
  | 2 =>
    obtain rfl := Option.some.inj hrecord
    obtain rfl := Json.num.inj (Option.some.inj hvalue)
    obtain rfl : 1 = kept := Option.some.inj hnat
    decide
  | _ + 3 => exact absurd hrecord (by simp [versionOneRecords])

/-- A stream with another id for each record. -/
def distinctUuids (index _ : Nat) : Uuid := sampleUuid (Fin.ofNat 10 index)

/-- With distinct ids the file is migrated well. -/
theorem migratedWell_versionOneRecords :
    ∃ migrated, migrateToCurrentVersion distinctUuids versionOneRecords = .ok (migrated, true) ∧
      MigratedWell versionOneRecords migrated := by
  obtain ⟨migrated, hrun⟩ : ∃ migrated,
      migrateToCurrentVersion distinctUuids versionOneRecords = .ok (migrated, true) := ⟨_, by rfl⟩
  refine ⟨migrated, hrun, (migrateToCurrentVersion_v1_iff (by decide) hrun).mpr ⟨by decide, ?_⟩⟩
  exact fun index kept h => .inl (keptIndex_versionOneRecords h)

end CodingAgent
