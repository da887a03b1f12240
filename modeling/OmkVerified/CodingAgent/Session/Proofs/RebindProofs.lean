import OmkVerified.CodingAgent.Session.Proofs.BranchProofs
import OmkVerified.CodingAgent.Session.Proofs.TransactionProofs

/-!
# Rebinding a branch

`rebindBranchedCompactionEnvelopes` returns the records of a branch that are not dropped, each
unchanged but for its compaction envelope. It returns exactly when every envelope of the branch is
valid and was made for the records before it.
-/

namespace CodingAgent

open Lib

/-! ## What is copied -/

/-- The same record, but for the envelope of a compaction. -/
def SameButEnvelope (a b : FileEntry) : Prop :=
  b = a ∨ (hasType a "compaction" = true ∧ ∃ details envelope, a.get? "details" = some (.obj details) ∧
    b = a.set "details" ((Json.obj details).set "compactionEnvelope" envelope))

variable {a b copy entry header : FileEntry}
  {as bs back rest copied entries records original : List FileEntry} {envelope : CompactionEnvelope}
  {platform : Platform} {sha sessionId : String} {referenced : List String}

theorem SameButEnvelope.get?_eq (h : SameButEnvelope a b) {key : String} (hkey : key ≠ "details") :
    b.get? key = a.get? key := by
  rcases h with rfl | ⟨-, details, envelope, -, rfl⟩
  · rfl
  · exact Json.get?_set_ne a _ hkey

theorem SameButEnvelope.entryId_eq (h : SameButEnvelope a b) : entryId b = entryId a :=
  h.get?_eq (by decide)

theorem SameButEnvelope.entryParentId_eq (h : SameButEnvelope a b) :
    entryParentId b = entryParentId a :=
  h.get?_eq (by decide)

theorem SameButEnvelope.hasType_eq (h : SameButEnvelope a b) (type : String) :
    hasType b type = hasType a type := by
  unfold hasType
  rw [h.get?_eq (by decide)]

theorem SameButEnvelope.isSession_eq (h : SameButEnvelope a b) : isSession b = isSession a :=
  h.hasType_eq "session"

theorem map_entryId_of_same (h : List.Forall₂ SameButEnvelope as bs) :
    bs.map entryId = as.map entryId := by
  induction h with
  | nil => rfl
  | cons hab _ ih => rw [List.map_cons, List.map_cons, hab.entryId_eq, ih]

theorem isChain_map_links (entries : List FileEntry) :
    (entries.IsChain fun a b => entryParentId b = entryId a) ↔
      (entries.map fun e => (entryId e, entryParentId e)).IsChain fun a b => b.2 = a.1 := by
  rw [List.isChain_map]

theorem Linked.of_same (h : Linked as) (hsame : List.Forall₂ SameButEnvelope as bs) :
    Linked bs := by
  have hids := map_entryId_of_same hsame
  refine ⟨?_, hids ▸ h.nodup, ?_⟩
  · intro b hb
    have hmem : entryId b ∈ as.map entryId := hids ▸ List.mem_map_of_mem hb
    obtain ⟨a, ha, hid⟩ := List.mem_map.mp hmem
    exact hid ▸ h.keys a ha
  · have hlinks := h.links
    rw [isChain_map_links] at hlinks ⊢
    have hpairs : (bs.map fun e => (entryId e, entryParentId e)) =
        as.map fun e => (entryId e, entryParentId e) := by
      clear h hids hlinks
      induction hsame with
      | nil => rfl
      | cons hab _ ih => rw [List.map_cons, List.map_cons, hab.entryId_eq, hab.entryParentId_eq, ih]
    rw [hpairs]
    exact hlinks

theorem envelopeFromEntry_some (h : envelopeFromEntry entry = .ok (some envelope)) :
    envelope.Ok ∧ ∃ details, entry.get? "details" = some (.obj details) := by
  unfold envelopeFromEntry at h
  split at h
  · rename_i details hdetails
    split at h
    · obtain ⟨e, he, heq⟩ := map_eq_ok.mp h
      obtain rfl := Option.some.inj heq
      exact ⟨validateCompactionEnvelope_ok he, details, hdetails⟩
    · exact absurd h (by simp)
  · exact absurd h (by simp)

/-- A record is copied as it is, or with an envelope for the copy. -/
theorem rebindEntry_cases
    (h : rebindEntry platform header sessionId original copied entry = .ok copy) :
    copy = entry ∨ hasType entry "compaction" = true ∧ ∃ details, ∃ rebound : CompactionEnvelope,
      entry.get? "details" = some (.obj details) ∧
        copy = entry.set "details" ((Json.obj details).set "compactionEnvelope" rebound.toJson) := by
  unfold rebindEntry at h
  split_ifs at h with hcompaction
  · obtain ⟨found, hfound, h⟩ := bind_eq_ok.mp h
    cases found with
    | none => exact .inl (Except.ok.inj h).symm
    | some envelope =>
      obtain ⟨-, details, hdetails⟩ := envelopeFromEntry_some hfound
      unfold rebindEnvelope at h
      obtain ⟨_, -, h⟩ := bind_eq_ok.mp h
      obtain ⟨_, -, h⟩ := bind_eq_ok.mp h
      obtain ⟨_, -, h⟩ := bind_eq_ok.mp h
      obtain ⟨source, -, h⟩ := bind_eq_ok.mp h
      split at h
      · obtain ⟨_, -, h⟩ := bind_eq_ok.mp h
        obtain ⟨rebound, -, h⟩ := bind_eq_ok.mp h
        obtain rfl := Except.ok.inj h
        exact .inr ⟨hcompaction, details, rebound, hdetails, by rw [hdetails]; rfl⟩
      · exact absurd h (raise_ne_ok _ _)
  · exact .inl (Except.ok.inj h).symm

theorem rebindEntry_same
    (h : rebindEntry platform header sessionId original copied entry = .ok copy) :
    SameButEnvelope entry copy := by
  obtain rfl | ⟨hcompaction, details, rebound, hdetails, rfl⟩ := rebindEntry_cases h
  · exact .inl rfl
  · exact .inr ⟨hcompaction, details, _, hdetails, rfl⟩

/-- The records of a branch that are copied. -/
def keptOf (referenced : List String) (entries : List FileEntry) : List FileEntry :=
  entries.filter fun e => !isDropped referenced e

theorem rebindFrom_ok {result : List FileEntry}
    (h : rebindFrom platform header sessionId referenced rest original copied = .ok result) :
    ∃ new, result = copied ++ new ∧
      List.Forall₂ SameButEnvelope (keptOf referenced rest) new := by
  induction rest generalizing original copied with
  | nil =>
    obtain rfl := Except.ok.inj h
    exact ⟨[], by simp, .nil⟩
  | cons entry rest ih =>
    unfold rebindFrom at h
    obtain ⟨copy, hcopy, h⟩ := bind_eq_ok.mp h
    have hsame := rebindEntry_same hcopy
    by_cases hdropped : isDropped referenced entry = true
    · simp only [hdropped, if_true] at h
      obtain ⟨new, rfl, hnew⟩ := ih h
      refine ⟨new, rfl, ?_⟩
      rw [keptOf, List.filter_cons_of_neg (by simp [hdropped])]
      exact hnew
    · simp only [hdropped] at h
      obtain ⟨new, rfl, hnew⟩ := ih h
      refine ⟨copy :: new, by simp, ?_⟩
      rw [keptOf, List.filter_cons_of_pos (by simp [hdropped])]
      exact .cons hsame hnew

theorem rebindFrom_append (a b : List FileEntry) (original copied : List FileEntry) :
    rebindFrom platform header sessionId referenced (a ++ b) original copied =
      (rebindFrom platform header sessionId referenced a original copied >>= fun copied =>
        rebindFrom platform header sessionId referenced b (original ++ a) copied) := by
  induction a generalizing original copied with
  | nil => simp [rebindFrom]
  | cons entry a ih =>
    simp only [List.cons_append, rebindFrom, bind_assoc, ih, List.append_assoc, List.nil_append]

/-! ## The branch before a record -/

/-- `branchFromPrefix` finds linked records that are stored, from the last of them. -/
theorem branchFromPrefix_stored {stored : List FileEntry}
    (hrecords : (records.filter fun e => !isSession e) = stored) (h : Linked entries)
    (hstored : ∀ e ∈ entries, (indexEntries stored).get? (entryId e) = some e)
    (hroot : ∀ e ∈ entries.head?,
      entryParentId e = none ∨ entryParentId e = some .null ∨ entryParentId e ∉ stored.map entryId)
    (hkeys : none ∉ stored.map entryId) {last : FileEntry} (hlast : entries.getLast? = some last) :
    branchFromPrefix records (entryId last) = .ok entries := by
  have hmem : last ∈ entries := List.mem_of_getLast? hlast
  have hwalks : WalksLinked (prefixParent (indexEntries stored)) entries := by
    refine ⟨h, ?_, ?_⟩
    · intro e he child _ hparent
      have hkey : IsKey (entryParentId child) := hparent ▸ h.keys e he
      rw [prefixParent_of_key hkey, hparent]
      exact hstored e he
    · intro e he
      unfold prefixParent lookupEntry
      split_ifs with hnull hprim
      · rfl
      · rcases hroot e he with hnone | hnull' | hnot
        · rw [hnone]
          exact get?_indexEntries_eq_none hkeys
        · exact absurd hnull' hnull
        · exact get?_indexEntries_eq_none hnot
      · rfl
  have hlen := length_le_size h.nodup hstored
  have hlookup : lookupEntry (indexEntries stored) (entryId last) = some last := by
    obtain ⟨value, hvalue, -, hprim⟩ := h.keys last hmem
    have hget := hstored last hmem
    unfold lookupEntry
    rw [hvalue] at hget ⊢
    simp only [Option.all_some, hprim, if_true, hget]
  unfold branchFromPrefix
  have hwalk : walk (prefixParent (indexEntries stored)) ((indexEntries stored).size + 1) last =
      some entries := hwalks.walk_eq hlast (by omega)
  simp only [hrecords, hlookup, hwalk, pure_eq_ok, ok_bind]
  rw [bind_eq_ok]
  exact ⟨(), by simp [hlast], rfl⟩

theorem Linked.none_not_mem (h : Linked entries) : none ∉ entries.map entryId := by
  intro hmem
  obtain ⟨e, he, hnone⟩ := List.mem_map.mp hmem
  obtain ⟨value, hvalue, -⟩ := h.keys e he
  rw [hnone] at hvalue
  exact absurd hvalue (by simp)

/-- `branchFromPrefix` finds all of linked records from the last of them. -/
theorem branchFromPrefix_linked (hrecords : (records.filter fun e => !isSession e) = entries)
    (h : Linked entries) (hroot : ∀ e ∈ entries.head?, entryParentId e ∉ entries.map entryId)
    {last : FileEntry} (hlast : entries.getLast? = some last) :
    branchFromPrefix records (entryId last) = .ok entries :=
  branchFromPrefix_stored hrecords h (fun _ he => get?_indexEntries_of_nodup h.nodup he)
    (fun e he => .inr (.inr (hroot e he))) h.none_not_mem hlast

/-- The envelope of a record was made for the records before it. -/
def EnvelopeMatches (platform : Platform) (before : List FileEntry) (entry : FileEntry) : Prop :=
  hasType entry "compaction" = true →
    ∃ found, envelopeFromEntry entry = .ok found ∧
      ∀ envelope ∈ found, assertSourceMatches platform entry envelope before = .ok ()

/-- A list of records as `getBranch` returns it. -/
structure IsBranch (path : List FileEntry) : Prop where
  linked : Linked path
  root : ∀ e ∈ path.head?, entryParentId e ∉ path.map entryId
  entries : ∀ e ∈ path, isSession e = false

theorem IsBranch.of_append {front back : List FileEntry} (h : IsBranch (front ++ back)) :
    IsBranch front where
  linked := h.linked.of_append
  root := by
    intro e he hmem
    refine h.root e ?_ (by rw [List.map_append]; exact List.mem_append_left _ hmem)
    cases front with
    | nil => simp at he
    | cons a front => simpa using he
  entries := fun e he => h.entries e (List.mem_append_left _ he)

theorem IsBranch.filter_eq {path : List FileEntry} (h : IsBranch path) :
    (path.filter fun e => !isSession e) = path :=
  List.filter_eq_self.mpr fun e he => by simp [h.entries e he]

theorem IsBranch.parent_eq {front : List FileEntry} {last : FileEntry}
    (h : IsBranch (front ++ entry :: back)) (hlast : front.getLast? = some last) :
    entryParentId entry = entryId last :=
  (List.isChain_append.mp h.linked.links).2.2 last (by rw [hlast]; rfl) entry (by simp)

theorem IsBranch.branchFromPrefix_front {front : List FileEntry}
    (h : IsBranch (front ++ entry :: back)) (hne : front ≠ []) :
    branchFromPrefix front (entryParentId entry) = .ok front := by
  obtain ⟨last, hlast⟩ : ∃ last, front.getLast? = some last :=
    ⟨front.getLast hne, List.getLast?_eq_some_getLast hne⟩
  rw [h.parent_eq hlast]
  exact branchFromPrefix_linked h.of_append.filter_eq h.of_append.linked h.of_append.root hlast

theorem branchFromPrefix_nil {leafId : Option Json} {branch : List FileEntry}
    (h : branchFromPrefix [] leafId = .ok branch) : branch = [] := by
  have hlookup : lookupEntry (indexEntries []) leafId = none := by
    unfold lookupEntry
    split_ifs <;> rfl
  unfold branchFromPrefix at h
  simp only [List.filter_nil, hlookup, pure_eq_ok, ok_bind] at h
  obtain ⟨-, -, h⟩ := bind_eq_ok.mp h
  exact (Except.ok.inj h).symm

/-- A branch is rebound only if every envelope was made for the records before it. -/
theorem envelopeMatches_of_rebindFrom {result : List FileEntry}
    (hbranch : IsBranch (original ++ rest))
    (h : rebindFrom platform header sessionId referenced rest original copied = .ok result)
    {front : List FileEntry} (hrest : rest = front ++ entry :: back) :
    EnvelopeMatches platform (original ++ front) entry := by
  subst hrest
  rw [rebindFrom_append] at h
  obtain ⟨copied', -, h⟩ := bind_eq_ok.mp h
  unfold rebindFrom at h
  obtain ⟨copy, hcopy, -⟩ := bind_eq_ok.mp h
  rw [← List.append_assoc] at hbranch
  intro hcompaction
  unfold rebindEntry at hcopy
  rw [if_pos hcompaction] at hcopy
  obtain ⟨found, hfound, hcopy⟩ := bind_eq_ok.mp hcopy
  refine ⟨found, hfound, ?_⟩
  intro envelope henvelope
  obtain rfl : found = some envelope := henvelope
  unfold rebindEnvelope at hcopy
  obtain ⟨_, -, hcopy⟩ := bind_eq_ok.mp hcopy
  obtain ⟨source, hsource, hcopy⟩ := bind_eq_ok.mp hcopy
  obtain ⟨_, hmatches, -⟩ := bind_eq_ok.mp hcopy
  obtain rfl : source = original ++ front := by
    by_cases hne : original ++ front = []
    · rw [hne] at hsource ⊢
      exact branchFromPrefix_nil hsource
    · rw [hbranch.branchFromPrefix_front hne] at hsource
      exact (Except.ok.inj hsource).symm
  exact hmatches

/-! ## Rebinding succeeds -/

theorem referencedIds_ok {path : List FileEntry} {ids : List String}
    (h : referencedIds path = .ok ids) (hmem : entry ∈ path)
    (hcompaction : hasType entry "compaction" = true) :
    ∃ found, envelopeFromEntry entry = .ok found ∧
      ∀ envelope ∈ found, ∀ id ∈ envelope.source.entryIds, id ∈ ids := by
  induction path generalizing ids with
  | nil => simp at hmem
  | cons first path ih =>
    unfold referencedIds at h
    rcases List.mem_cons.mp hmem with rfl | hmem
    · rw [if_pos hcompaction] at h
      obtain ⟨found, hfound, h⟩ := bind_eq_ok.mp h
      obtain ⟨rest, -, h⟩ := bind_eq_ok.mp h
      obtain rfl := Except.ok.inj h
      refine ⟨found, hfound, ?_⟩
      intro envelope henvelope id hid
      obtain rfl : found = some envelope := henvelope
      exact List.mem_append_left _ hid
    · split_ifs at h with hfirst
      · obtain ⟨found, -, h⟩ := bind_eq_ok.mp h
        obtain ⟨rest, hrest, h⟩ := bind_eq_ok.mp h
        obtain rfl := Except.ok.inj h
        obtain ⟨found', hfound', hids⟩ := ih hrest hmem
        exact ⟨found', hfound', fun envelope he id hid => List.mem_append_right _ (hids envelope he id hid)⟩
      · exact ih h hmem

theorem referencedIds_isOk {path : List FileEntry}
    (h : ∀ e ∈ path, hasType e "compaction" = true → ∃ found, envelopeFromEntry e = .ok found) :
    ∃ ids, referencedIds path = .ok ids := by
  induction path with
  | nil => exact ⟨[], rfl⟩
  | cons first path ih =>
    obtain ⟨ids, hids⟩ := ih fun e he => h e (List.mem_cons_of_mem _ he)
    by_cases hfirst : hasType first "compaction" = true
    · obtain ⟨found, hfound⟩ := h first (by simp) hfirst
      refine ⟨(found.map fun e => e.source.entryIds).getD [] ++ ids, ?_⟩
      unfold referencedIds
      rw [if_pos hfirst, hfound, ok_bind, hids, ok_bind]
      rfl
    · refine ⟨ids, ?_⟩
      unfold referencedIds
      rw [if_neg hfirst]
      exact hids

/-- A part of a UUID is metadata. -/
theorem metadataText_uuid {text : String} (hne : text ≠ "") (hlen : text.toList.length ≤ 36)
    (hchars : ∀ c ∈ text.toList, isUuidChar c = true) : MetadataText maxMetadataLength text where
  ne_empty := hne
  length_le := by
    rw [jsLength_eq ?_]
    · unfold maxMetadataLength
      omega
    · intro c hc
      have hall : ("0123456789abcdef-".toList.all fun d => d.toNat < 0x10000) = true := rfl
      exact of_decide_eq_true (List.all_eq_true.mp hall c (isUuidChar_cases (hchars c hc)))
  no_control := by
    rw [List.any_eq_false]
    intro c hc
    exact ne_true_of_eq_false (avoids_uuid (p := isMetadataControl) rfl c (hchars c hc))
  no_credential := containsCredentialShape_uuid hchars

theorem Uuid.metadataText (uuid : Uuid) : MetadataText maxMetadataLength uuid.text := by
  refine metadataText_uuid ?_ (by rw [uuid.length_eq]) uuid.chars
  intro h
  have := uuid.length_eq
  rw [h] at this
  simp at this

theorem createSessionRevisionToken_revisionInput {leaf last : String} {bytes count : Nat}
    (hsession : MetadataText maxMetadataLength sessionId) (hbytes : bytes ≤ maxSafeInteger)
    (hcount : count ≤ bytes) (hpos : count ≠ 0) (hleaf : MetadataText maxMetadataLength leaf)
    (hlast : MetadataText maxMetadataLength last) (hsha : isSha256 sha = true) :
    createSessionRevisionToken
        (some (revisionInput (.str sessionId) bytes count (some (.str leaf)) (.str last) sha)) =
      .ok ⟨sessionId, bytes, count, some leaf, some last, sha, none⟩ := by
  rw [createSessionRevisionToken_eq_ok]
  refine ⟨_, rfl, ⟨rfl, rfl, rfl, get?_number rfl, get?_number rfl, rfl, rfl, rfl, rfl⟩, ?_⟩
  refine ⟨hsession, hbytes, hcount.trans hbytes, ?_, ?_, hsha, ?_, by simp⟩
  · intro id hid
    obtain rfl := Option.some.inj hid
    exact hleaf
  · intro id hid
    obtain rfl := Option.some.inj hid
    exact hlast
  · have hb : bytes ≠ 0 := by omega
    unfold checkRevision require
    simp [hpos, hb]

theorem length_le_byteLength (hne : entries ≠ []) :
    entries.length ≤ Utf8.byteLength (serializeFileEntries entries) := by
  rw [serializeFileEntries_eq hne]
  clear hne
  induction entries with
  | nil => simp
  | cons e entries ih =>
    have hlines : recordLines (e :: entries) = (Json.stringify e ++ ['\n']) ++ recordLines entries := by
      simp [recordLines]
    have hone : 0 < Utf8.byteLength (Json.stringify e ++ ['\n']) := by
      unfold Utf8.byteLength
      rw [Utf8.encode_append, List.length_append]
      have : 0 < (Utf8.encode ['\n']).length := by decide
      omega
    rw [hlines, Utf8.byteLength_append, List.length_cons]
    omega

theorem checkSource_ok {source : CompactionSourceIdentity} (h : source.Ok) :
    source.messageCount ≤ source.entryIds.length ∧
      some source.firstEntryId = source.entryIds.head? ∧
      some source.lastEntryId = source.entryIds.getLast? ∧
      source.activeLeafId = source.lastEntryId := by
  have hrel := h.relations
  unfold checkSource at hrel
  simp only [bind_eq_ok, require_eq_ok, Bool.and_eq_true, decide_eq_true_eq] at hrel
  obtain ⟨_, h1, _, ⟨h2, h3⟩, h4⟩ := hrel
  exact ⟨h1, h2, h3, h4⟩

/-- The source of an envelope, bound to another session. -/
def CompactionSourceIdentity.rebound (source : CompactionSourceIdentity) (sessionId sha : String) :
    CompactionSourceIdentity :=
  { source with sessionId := sessionId, sourceSha256 := sha }

theorem CompactionSourceIdentity.Ok.rebound {source : CompactionSourceIdentity} (h : source.Ok)
    (hsession : MetadataText maxMetadataLength sessionId) (hsha : isSha256 sha = true) :
    (source.rebound sessionId sha).Ok where
  sessionId := hsession
  entryIds := h.entryIds
  ne_nil := h.ne_nil
  firstEntryId := h.firstEntryId
  lastEntryId := h.lastEntryId
  activeLeafId := h.activeLeafId
  sha256 := hsha
  messageCount := h.messageCount
  relations := h.relations

theorem assertSourceMatches_eq_ok {source : List FileEntry} :
    assertSourceMatches platform entry envelope source = .ok () ↔
      envelope.source.sessionId ≠ "" ∧
        envelope.source.entryIds.map (fun id => some (Json.str id)) = source.map entryId ∧
        envelope.source.sourceSha256 = sourceSha256 platform source ∧
        some (.str envelope.source.activeLeafId) = entryParentId entry := by
  unfold assertSourceMatches sameOrderedIds
  rw [require_eq_ok]
  simp [and_assoc]

theorem idArray_eq {source : List FileEntry} {ids : List String}
    (h : source.map entryId = ids.map fun id => some (Json.str id)) :
    idArray source = .arr (ids.map .str) := by
  unfold idArray
  congr 1
  have hmap : (source.map fun e => (entryId e).getD .null) =
      (source.map entryId).map fun id => id.getD .null := by simp
  rw [hmap, h]
  simp

/-- What the copied records before an envelope have in common with its source. -/
structure CopiedSource (header : FileEntry) (copied : List FileEntry)
    (source : CompactionSourceIdentity) : Prop where
  ids : copied.map entryId = source.entryIds.map fun id => some (Json.str id)
  branch : branchFromPrefix (header :: copied) (some (.str source.activeLeafId)) = .ok copied
  first : ∃ e, copied.head? = some e ∧ entryId e = some (.str source.firstEntryId)
  last : ∃ e, copied.getLast? = some e ∧ entryId e = some (.str source.lastEntryId)
  lastOf : lastEntryIdOf (header :: copied) = .str source.lastEntryId

theorem isSession_of_same (h : List.Forall₂ SameButEnvelope as bs)
    (has : ∀ e ∈ as, isSession e = false) : ∀ e ∈ bs, isSession e = false := by
  induction h with
  | nil => simp
  | cons hab _ ih =>
    intro e he
    rcases List.mem_cons.mp he with rfl | he
    · rw [hab.isSession_eq]
      exact has _ (by simp)
    · exact ih (fun x hx => has x (by simp [hx])) e he

theorem IsBranch.of_same (h : IsBranch as) (hsame : List.Forall₂ SameButEnvelope as bs) :
    IsBranch bs where
  linked := h.linked.of_same hsame
  root := by
    intro e he
    rw [map_entryId_of_same hsame]
    cases hsame with
    | nil => simp at he
    | cons hab _ =>
      obtain rfl : _ = e := by simpa using he
      rw [hab.entryParentId_eq]
      exact h.root _ (by simp)
  entries := isSession_of_same hsame h.entries

/-- Records with the ids of a valid source are the source of its active leaf. -/
theorem copiedSource_of_ids {source : CompactionSourceIdentity} (hbranch : IsBranch copied)
    (hsource : source.Ok)
    (hids : copied.map entryId = source.entryIds.map fun id => some (Json.str id))
    (hheader : isSession header = true) : CopiedSource header copied source := by
  obtain ⟨-, hfirstId, hlastId, hactive⟩ := checkSource_ok hsource
  have hne : copied ≠ [] := by
    rintro rfl
    exact hsource.ne_nil (List.map_eq_nil_iff.mp hids.symm)
  have hhead : copied.head? = some (copied.head hne) := List.head?_eq_some_head hne
  have hlast : copied.getLast? = some (copied.getLast hne) := List.getLast?_eq_some_getLast hne
  have hfirstEq : entryId (copied.head hne) = some (.str source.firstEntryId) := by
    have h := congrArg List.head? hids
    rw [List.head?_map, List.head?_map, hhead, ← hfirstId] at h
    simpa using h
  have hlastEq : entryId (copied.getLast hne) = some (.str source.lastEntryId) := by
    have h := congrArg List.getLast? hids
    rw [List.getLast?_map, List.getLast?_map, hlast, ← hlastId] at h
    simpa using h
  refine ⟨hids, ?_, ⟨_, hhead, hfirstEq⟩, ⟨_, hlast, hlastEq⟩, ?_⟩
  · rw [hactive, ← hlastEq]
    have hfilter : ((header :: copied).filter fun e => !isSession e) = copied := by
      rw [List.filter_cons_of_neg (by simp [hheader])]
      exact hbranch.filter_eq
    exact branchFromPrefix_linked hfilter hbranch.linked hbranch.root hlast
  · have hsession : isSession (copied.getLast hne) = false :=
      hbranch.entries _ (List.getLast_mem hne)
    unfold lastEntryIdOf
    rw [List.getLast?_cons, hlast]
    simp [hsession, hlastEq]

/-- The revision of copied records. -/
def copiedRevision (platform : Platform) (sessionId : String) (records : List FileEntry)
    (source : CompactionSourceIdentity) : SessionRevisionToken :=
  ⟨sessionId, Utf8.byteLength (serializeFileEntries records), records.length,
    some source.activeLeafId, some source.lastEntryId,
    sha256Text platform (serializeFileEntries records), none⟩

theorem prefixRevision_copied (platform : Platform) {source : CompactionSourceIdentity}
    (hcopied : CopiedSource header copied source) (hsource : source.Ok)
    (hsession : MetadataText maxMetadataLength sessionId)
    (hsize : Utf8.byteLength (serializeFileEntries (header :: copied)) ≤ maxSafeInteger) :
    prefixRevision platform sessionId (header :: copied) (some (.str source.activeLeafId)) =
      .ok (copiedRevision platform sessionId (header :: copied) source) := by
  unfold prefixRevision
  rw [hcopied.lastOf]
  exact createSessionRevisionToken_revisionInput hsession hsize (length_le_byteLength (by simp))
    (by simp) hsource.activeLeafId hsource.lastEntryId (platform.sha256_hex _)

theorem reboundSource_copied (platform : Platform) {first last : FileEntry}
    (hcopied : CopiedSource header copied envelope.source) (hsource : envelope.source.Ok)
    (hparent : entryParentId entry = some (.str envelope.source.activeLeafId))
    (hfirst : entryId first = some (.str envelope.source.firstEntryId))
    (hlast : entryId last = some (.str envelope.source.lastEntryId))
    (hsession : MetadataText maxMetadataLength sessionId) :
    createCompactionSourceIdentity
        (some (reboundSource platform sessionId entry envelope copied first last)) =
      .ok (envelope.source.rebound sessionId (sourceSha256 platform copied)) := by
  rw [createCompactionSourceIdentity_eq_ok]
  refine ⟨_, rfl, ⟨rfl, rfl, ?_, ?_, ?_, ?_, rfl, get?_number rfl⟩,
    hsource.rebound hsession (platform.sha256_hex _)⟩
  · show some (idArray copied) = _
    rw [idArray_eq hcopied.ids]
    rfl
  · show some ((entryId first).getD .null) = _
    rw [hfirst]
    rfl
  · show some ((entryId last).getD .null) = _
    rw [hlast]
    rfl
  · show some ((entryParentId entry).getD .null) = _
    rw [hparent]
    rfl

/-- The envelope of a copied compaction. -/
def reboundEnvelope (platform : Platform) (sessionId : String) (header : FileEntry)
    (copied : List FileEntry) (envelope : CompactionEnvelope) : CompactionEnvelope :=
  { envelope with
    baseRevision := copiedRevision platform sessionId (header :: copied) envelope.source
    source := envelope.source.rebound sessionId (sourceSha256 platform copied) }

/-- The copy of a compaction whose envelope was made for the records before it. -/
structure Rebinds (platform : Platform) (sessionId : String) (header entry : FileEntry)
    (copied : List FileEntry) (envelope : CompactionEnvelope) (copy : FileEntry) : Prop where
  source : CopiedSource header copied envelope.source
  revision : prefixRevision platform sessionId (header :: copied) (entryParentId entry) =
    .ok (copiedRevision platform sessionId (header :: copied) envelope.source)
  ok : (reboundEnvelope platform sessionId header copied envelope).Ok
  copy_eq : copy = entry.set "details" (((entry.get? "details").getD .null).set "compactionEnvelope"
    (reboundEnvelope platform sessionId header copied envelope).toJson)

/-- An envelope that was made for the records before it can be rebound. -/
theorem rebindEnvelope_eq (hbranch : IsBranch (original ++ entry :: back)) (hok : envelope.Ok)
    (hmatches : assertSourceMatches platform entry envelope original = .ok ())
    (hsame : List.Forall₂ SameButEnvelope original copied) (hheader : isSession header = true)
    (hsession : MetadataText maxMetadataLength sessionId)
    (hsize : Utf8.byteLength (serializeFileEntries (header :: copied)) ≤ maxSafeInteger) :
    ∃ copy, rebindEnvelope platform header sessionId original copied entry envelope = .ok copy ∧
      Rebinds platform sessionId header entry copied envelope copy := by
  obtain ⟨-, hids, -, hparent⟩ := (assertSourceMatches_eq_ok).mp hmatches
  have hne : original ≠ [] := by
    rintro rfl
    exact hok.source.ne_nil (List.map_eq_nil_iff.mp hids)
  have hcopied : CopiedSource header copied envelope.source :=
    copiedSource_of_ids (hbranch.of_append.of_same hsame) hok.source
      ((map_entryId_of_same hsame).trans hids.symm) hheader
  have hrevision := prefixRevision_copied platform hcopied hok.source hsession hsize
  obtain ⟨-, -, -, hrevisionOk⟩ := createSessionRevisionToken_eq_ok.mp hrevision
  obtain ⟨first, hfirst, hfirstId⟩ := hcopied.first
  obtain ⟨last, hlast, hlastId⟩ := hcopied.last
  have hsourceJson := reboundSource_copied platform hcopied hok.source hparent.symm
    hfirstId hlastId hsession
  have hreboundOk := hok.source.rebound hsession (platform.sha256_hex (Utf8.encode
    (['\n'].intercalate (copied.map Json.stringify))))
  have henvelope : (reboundEnvelope platform sessionId header copied envelope).Ok :=
    ⟨hok.transactionId, hok.createdAt, hok.canonical, hok.summary, hok.summarySha256, hrevisionOk,
      hreboundOk, rfl, rfl, hok.model, hok.preserved⟩
  have hvalid : validateCompactionEnvelope
      (some ((envelope.toJson.set "baseRevision"
        (copiedRevision platform sessionId (header :: copied) envelope.source).toJson).set "source"
          (reboundSource platform sessionId entry envelope copied first last))) =
      .ok (reboundEnvelope platform sessionId header copied envelope) :=
    validateCompactionEnvelope_of_fields
      ⟨rfl, rfl, rfl, createSessionRevisionToken_toJson hrevisionOk, hsourceJson, rfl, rfl, rfl, rfl,
        rfl⟩ henvelope
  refine ⟨_, ?_, hcopied, by rw [← hparent]; exact hrevision, henvelope, rfl⟩
  unfold rebindEnvelope
  rw [hbranch.branchFromPrefix_front hne]
  simp only [hmatches, ← hparent, hcopied.branch, hfirst, hlast, hrevision, hvalid, ok_bind]
  exact bind_eq_ok.mpr ⟨(), require_eq_ok.mpr (by simp), rfl⟩

/-- The texts that the rebinding of a branch serializes stay below `Number.MAX_SAFE_INTEGER` bytes. -/
def RebindFits (platform : Platform) (header : FileEntry) (sessionId : String)
    (path : List FileEntry) : Prop :=
  ∀ referenced front copied, front <+: path →
    rebindFrom platform header sessionId referenced front [] [] = .ok copied →
      Utf8.byteLength (serializeFileEntries (header :: copied)) ≤ maxSafeInteger

/-- Every envelope of a branch was made for the records before it. -/
def EnvelopesMatch (platform : Platform) (path : List FileEntry) : Prop :=
  ∀ front entry back, path = front ++ entry :: back → EnvelopeMatches platform front entry

theorem keptOf_eq_self (h : ∀ e ∈ entries, ∃ id ∈ referenced, entryId e = some (.str id)) :
    keptOf referenced entries = entries := by
  refine List.filter_eq_self.mpr fun e he => ?_
  obtain ⟨id, hid, heq⟩ := h e he
  have hany : (referenced.any fun id => entryId e = some (.str id)) = true := by
    rw [List.any_eq_true]
    exact ⟨id, hid, by simp [heq]⟩
  simp [isDropped, hany]

/-- The records that an envelope was made for are all kept. -/
theorem keptOf_source (hmatch : assertSourceMatches platform entry envelope original = .ok ())
    (hreferenced : ∀ id ∈ envelope.source.entryIds, id ∈ referenced) :
    keptOf referenced original = original := by
  obtain ⟨-, hids, -, -⟩ := (assertSourceMatches_eq_ok).mp hmatch
  refine keptOf_eq_self fun e he => ?_
  have hmem : entryId e ∈ original.map entryId := List.mem_map_of_mem he
  rw [← hids] at hmem
  obtain ⟨id, hid, heq⟩ := List.mem_map.mp hmem
  exact ⟨id, hreferenced id hid, heq.symm⟩

/-- The step of the rebinding succeeds for a record whose envelope matches. -/
theorem rebindEntry_isOk (hbranch : IsBranch (original ++ entry :: back))
    (hmatches : EnvelopeMatches platform original entry)
    (hreferenced : ∀ found, envelopeFromEntry entry = .ok found → ∀ envelope ∈ found,
      ∀ id ∈ envelope.source.entryIds, id ∈ referenced)
    (hsame : List.Forall₂ SameButEnvelope (keptOf referenced original) copied)
    (hheader : isSession header = true) (hsession : MetadataText maxMetadataLength sessionId)
    (hsize : Utf8.byteLength (serializeFileEntries (header :: copied)) ≤ maxSafeInteger) :
    ∃ copy, rebindEntry platform header sessionId original copied entry = .ok copy := by
  unfold rebindEntry
  by_cases hcompaction : hasType entry "compaction" = true
  · rw [if_pos hcompaction]
    obtain ⟨found, hfound, hsource⟩ := hmatches hcompaction
    rw [hfound, ok_bind]
    cases found with
    | none => exact ⟨entry, rfl⟩
    | some envelope =>
      have hmatch := hsource envelope rfl
      have hkept := keptOf_source hmatch (hreferenced _ hfound envelope rfl)
      rw [hkept] at hsame
      obtain ⟨copy, hcopy, -⟩ := rebindEnvelope_eq hbranch (envelopeFromEntry_some hfound).1 hmatch
        hsame hheader hsession hsize
      exact ⟨copy, hcopy⟩
  · rw [if_neg hcompaction]
    exact ⟨entry, rfl⟩

theorem rebindFrom_isOk {path : List FileEntry} (hbranch : IsBranch path)
    (hmatch : EnvelopesMatch platform path)
    (hreferenced : ∀ e ∈ path, ∀ found, hasType e "compaction" = true →
      envelopeFromEntry e = .ok found → ∀ envelope ∈ found, ∀ id ∈ envelope.source.entryIds,
        id ∈ referenced)
    (hheader : isSession header = true) (hsession : MetadataText maxMetadataLength sessionId)
    (hfits : RebindFits platform header sessionId path) :
    ∃ copied, rebindFrom platform header sessionId referenced path [] [] = .ok copied := by
  -- by induction on the part of the branch that has been copied
  suffices hpref : ∀ front back, path = front ++ back →
      ∃ copied, rebindFrom platform header sessionId referenced front [] [] = .ok copied from
    hpref path [] (by simp)
  intro front
  induction front using List.reverseRecOn with
  | nil =>
    intro back _
    exact ⟨[], rfl⟩
  | append_singleton front entry ih =>
    intro back hpath
    rw [List.append_assoc, List.singleton_append] at hpath
    obtain ⟨copied, hcopied⟩ := ih (entry :: back) hpath
    obtain ⟨new, hnew, hsame⟩ := rebindFrom_ok hcopied
    obtain rfl : copied = new := by simpa using hnew
    have hfit := hfits referenced front _ ⟨entry :: back, hpath.symm⟩ hcopied
    have hmem : entry ∈ path := by
      rw [hpath]
      simp
    have hentry : ∃ copy, rebindEntry platform header sessionId front copied entry = .ok copy := by
      by_cases hcompaction : hasType entry "compaction" = true
      · exact rebindEntry_isOk (hpath ▸ hbranch) (hmatch front entry back hpath)
          (fun found hfound => hreferenced entry hmem found hcompaction hfound) hsame hheader hsession
          hfit
      · unfold rebindEntry
        rw [if_neg hcompaction]
        exact ⟨entry, rfl⟩
    obtain ⟨copy, hcopy⟩ := hentry
    rw [rebindFrom_append, hcopied, ok_bind, List.nil_append]
    unfold rebindFrom
    rw [hcopy, ok_bind]
    exact ⟨_, rfl⟩

/-- A branch can be rebound exactly when its envelopes match. -/
theorem rebindBranched_isOk_iff {path : List FileEntry} (hbranch : IsBranch path)
    (hheader : isSession header = true) (hsession : MetadataText maxMetadataLength sessionId)
    (hfits : RebindFits platform header sessionId path) :
    (∃ copied, rebindBranchedCompactionEnvelopes platform header sessionId path = .ok copied) ↔
      EnvelopesMatch platform path := by
  constructor
  · rintro ⟨copied, h⟩ front entry back hpath
    unfold rebindBranchedCompactionEnvelopes at h
    obtain ⟨referenced, -, h⟩ := bind_eq_ok.mp h
    exact envelopeMatches_of_rebindFrom (show IsBranch ([] ++ path) from hbranch) h hpath
  · intro hmatch
    have hfound : ∀ e ∈ path, hasType e "compaction" = true →
        ∃ found, envelopeFromEntry e = .ok found := by
      intro e he hcompaction
      obtain ⟨front, back, hpath⟩ := List.append_of_mem he
      obtain ⟨found, hfound, -⟩ := hmatch front e back hpath hcompaction
      exact ⟨found, hfound⟩
    obtain ⟨referenced, hreferenced⟩ := referencedIds_isOk hfound
    have hids : ∀ e ∈ path, ∀ found, hasType e "compaction" = true →
        envelopeFromEntry e = .ok found → ∀ envelope ∈ found, ∀ id ∈ envelope.source.entryIds,
          id ∈ referenced := by
      intro e he found hcompaction hok envelope henvelope id hid
      obtain ⟨found', hok', hids⟩ := referencedIds_ok hreferenced he hcompaction
      rw [hok] at hok'
      obtain rfl := Except.ok.inj hok'
      exact hids envelope henvelope id hid
    obtain ⟨copied, hcopied⟩ := rebindFrom_isOk hbranch hmatch hids hheader hsession hfits
    refine ⟨copied, ?_⟩
    unfold rebindBranchedCompactionEnvelopes
    rw [hreferenced, ok_bind]
    exact hcopied

end CodingAgent
