import OmkVerified.CodingAgent.Session.Proofs.BranchedSessionProofs

/-!
# Opening rebound envelopes

`validatePersistedCompactionEnvelopes` recomputes from the bytes of a file what each envelope says
about the records before it. A branch whose envelopes were rebound is accepted under its new header.
-/

namespace CodingAgent

open Lib

/-! ## The starts of records -/

/-- A line that is followed by another record. -/
theorem recordStartsFrom_line {line rest : List UInt8} (hline : (0x0a : UInt8) ∉ line)
    (hrest : rest ≠ []) (index : Nat) :
    recordStartsFrom (line ++ 0x0a :: rest) index =
      (index + line.length + 1) :: recordStartsFrom rest (index + line.length + 1) := by
  induction line generalizing index with
  | nil =>
    obtain ⟨next, rest, rfl⟩ := List.exists_cons_of_ne_nil hrest
    simp [recordStartsFrom]
  | cons byte line ih =>
    have hbyte : byte ≠ 0x0a := by
      rintro rfl
      simp at hline
    have hline' : (0x0a : UInt8) ∉ line := fun h => hline (List.mem_cons_of_mem _ h)
    obtain ⟨next, more, hmore⟩ : ∃ next more, line ++ 0x0a :: rest = next :: more :=
      List.exists_cons_of_ne_nil (by simp)
    have hstep : recordStartsFrom (byte :: line ++ 0x0a :: rest) index =
        recordStartsFrom (line ++ 0x0a :: rest) (index + 1) := by
      rw [List.cons_append, hmore, recordStartsFrom, if_neg hbyte]
    rw [hstep, ih hline', List.length_cons]
    congr 2 <;> omega

theorem lineFeed_not_mem_encode_stringify (entry : FileEntry) :
    (0x0a : UInt8) ∉ Utf8.encode (Json.stringify entry) :=
  fun h => Json.lineFeed_not_mem_stringify entry (Utf8.lineFeed_mem_encode h)

theorem encode_recordLines_cons (entry : FileEntry) (entries : List FileEntry) :
    Utf8.encode (recordLines (entry :: entries)) =
      Utf8.encode (Json.stringify entry) ++ 0x0a :: Utf8.encode (recordLines entries) := by
  have hlines : recordLines (entry :: entries) = Json.stringify entry ++ ['\n'] ++ recordLines entries := by
    simp [recordLines]
  rw [hlines, Utf8.encode_append, Utf8.encode_append, List.append_assoc]
  rfl

theorem encode_recordLines_ne_nil (entry : FileEntry) (entries : List FileEntry) :
    Utf8.encode (recordLines (entry :: entries)) ≠ [] := by
  rw [encode_recordLines_cons]
  simp

/-- The start of the record behind `front`. -/
theorem recordStarts_drop (front : List FileEntry) (entry : FileEntry) (back : List FileEntry)
    (base : Nat) :
    ∃ more, (base :: recordStartsFrom (Utf8.encode (recordLines (front ++ entry :: back))) base).drop
      front.length = (base + (Utf8.encode (recordLines front)).length) :: more := by
  induction front generalizing base with
  | nil => exact ⟨_, rfl⟩
  | cons first front ih =>
    have hne : Utf8.encode (recordLines (front ++ entry :: back)) ≠ [] := by
      cases front with
      | nil => exact encode_recordLines_ne_nil entry back
      | cons second front => exact encode_recordLines_ne_nil second (front ++ entry :: back)
    obtain ⟨more, hmore⟩ := ih (base + (Utf8.encode (Json.stringify first)).length + 1)
    refine ⟨more, ?_⟩
    rw [List.cons_append, encode_recordLines_cons,
      recordStartsFrom_line (lineFeed_not_mem_encode_stringify first) hne, List.length_cons,
      List.drop_succ_cons, hmore, encode_recordLines_cons, List.length_append, List.length_cons]
    congr 1
    omega

variable {pre back post copied records : List FileEntry} {copy entry : FileEntry}
  {envelope : CompactionEnvelope}

/-- The start of a record is the length of the records before it. -/
theorem persistedRecordStarts_drop {front : List FileEntry}
    (hrecords : records = front ++ entry :: back) :
    ∃ more, (persistedRecordStarts (Utf8.encode (serializeFileEntries records))).drop front.length =
      (Utf8.encode (recordLines front)).length :: more := by
  have hne : records ≠ [] := by simp [hrecords]
  obtain ⟨more, hmore⟩ := recordStarts_drop front entry back 0
  refine ⟨more, ?_⟩
  unfold persistedRecordStarts
  rw [serializeFileEntries_eq hne, hrecords, hmore, Nat.zero_add]

/-- The bytes before a record. -/
theorem take_encode_serialize {front : List FileEntry}
    (hrecords : records = front ++ entry :: back) :
    (Utf8.encode (serializeFileEntries records)).take (Utf8.encode (recordLines front)).length =
      Utf8.encode (recordLines front) := by
  have hne : records ≠ [] := by simp [hrecords]
  rw [serializeFileEntries_eq hne, hrecords, recordLines_append, Utf8.encode_append,
    List.take_left]

/-! ## The loop over the records -/

theorem validateEntriesFrom_eq_ok {platform : Platform} {bytes : List UInt8}
    {entries : List FileEntry} {sessionId : String} {rest : List FileEntry} {index : Nat} :
    validateEntriesFrom platform bytes entries sessionId rest index = .ok () ↔
      ∀ front entry back, rest = front ++ entry :: back →
        validatePersistedEntry platform bytes entries sessionId entry (index + front.length) =
          .ok () := by
  induction rest generalizing index with
  | nil => simp [validateEntriesFrom]
  | cons first rest ih =>
    rw [validateEntriesFrom, bind_eq_ok]
    constructor
    · rintro ⟨_, hfirst, hrest⟩ front entry back hsplit
      cases front with
      | nil =>
        obtain ⟨rfl, -⟩ := List.cons.inj hsplit
        exact hfirst
      | cons x front =>
        obtain ⟨rfl, hrestSplit⟩ := List.cons.inj hsplit
        have hentry := ih.mp hrest front entry back hrestSplit
        rw [List.length_cons]
        rw [Nat.add_right_comm] at hentry
        exact hentry
    · intro h
      refine ⟨(), h [] first rest rfl, ih.mpr ?_⟩
      rintro front entry back rfl
      have hentry := h (first :: front) entry back rfl
      rw [List.length_cons] at hentry
      rw [Nat.add_right_comm]
      exact hentry

/-- What is known of an envelope that a file was opened with. -/
structure ValidatedEnvelope (platform : Platform) (entries : List FileEntry) (entry : FileEntry)
    (index : Nat) (envelope : CompactionEnvelope) : Prop where
  parent : entryParentId entry ≠ some .null
  source : ∃ source, branchFromPrefix (entries.take index) (entryParentId entry) = .ok source ∧
    assertSourceMatches platform entry envelope source = .ok ()
  summary : entry.get? "summary" = some (.str envelope.summary)
  digest : envelope.summarySha256 = sha256Text platform envelope.summary.toList

theorem validatedEnvelope_of_ok {platform : Platform} {bytes : List UInt8}
    {entries : List FileEntry} {sessionId : String} {index : Nat}
    (htype : hasType entry "compaction" = true)
    (henvelope : envelopeFromEntry entry = .ok (some envelope))
    (h : validatePersistedEntry platform bytes entries sessionId entry index = .ok ()) :
    ValidatedEnvelope platform entries entry index envelope := by
  unfold validatePersistedEntry at h
  rw [if_pos htype, henvelope, ok_bind] at h
  simp only at h
  obtain ⟨_, hparent, h⟩ := bind_eq_ok.mp h
  obtain ⟨source, hsource, h⟩ := bind_eq_ok.mp h
  split at h
  · exact absurd h (raise_ne_ok _ _)
  · obtain ⟨expected, -, h⟩ := bind_eq_ok.mp h
    obtain ⟨summary, hsummary, h⟩ := bind_eq_ok.mp h
    obtain ⟨_, hbinding, hmatches⟩ := bind_eq_ok.mp h
    have hsummaryEq : entry.get? "summary" = some (.str summary) := by
      unfold summaryText at hsummary
      split at hsummary
      · rename_i text heq
        obtain rfl := Except.ok.inj hsummary
        exact heq
      · exact absurd hsummary (raise_ne_ok _ _)
    rw [require_eq_ok] at hbinding hparent
    unfold bindingMatches at hbinding
    simp only [Bool.and_eq_true, decide_eq_true_eq] at hbinding hparent
    obtain ⟨⟨-, hsame⟩, hdigest⟩ := hbinding
    rw [hsummaryEq] at hsame
    obtain rfl := Json.str.inj (Option.some.inj hsame)
    exact ⟨hparent, ⟨source, hsource, hmatches⟩, hsummaryEq, hdigest⟩

/-! ## A rebound entry is accepted -/

/-- The envelope of a rebound entry. -/
theorem envelopeFromEntry_rebound {details : List (String × Json)}
    (hdetails : entry.get? "details" = some (.obj details)) (hok : envelope.Ok) :
    envelopeFromEntry (entry.set "details" (((entry.get? "details").getD .null).set
      "compactionEnvelope" envelope.toJson)) = .ok (some envelope) := by
  have hget := Json.get?_set_self (Json.isRecord_of_get? hdetails) "details"
    (((entry.get? "details").getD .null).set "compactionEnvelope" envelope.toJson)
  have hinner : (Json.obj (Json.setField details "compactionEnvelope" envelope.toJson)).get?
      "compactionEnvelope" = some envelope.toJson :=
    Json.get?_set_self (show (Json.obj details).isRecord = true from rfl) _ _
  have hset : (Json.obj details).set "compactionEnvelope" envelope.toJson =
      .obj (Json.setField details "compactionEnvelope" envelope.toJson) := rfl
  unfold envelopeFromEntry
  rw [hget, hdetails, Option.getD_some, hset]
  simp only [hinner, validateCompactionEnvelope_toJson hok]
  rfl

theorem sameButEnvelope_rebound {details : List (String × Json)}
    (htype : hasType entry "compaction" = true) (envelope : Json)
    (hdetails : entry.get? "details" = some (.obj details)) :
    SameButEnvelope entry (entry.set "details" (((entry.get? "details").getD .null).set
      "compactionEnvelope" envelope)) :=
  .inr ⟨htype, details, envelope, hdetails, by rw [hdetails]; rfl⟩

section Rebound

variable {platform : Platform} {header : FileEntry} {sessionId : String}

/-- A compaction that was rebound to the records before it is accepted with them. -/
theorem validatePersistedEntry_rebound (htype : hasType entry "compaction" = true)
    (henvelope : envelopeFromEntry entry = .ok (some envelope))
    (hrebinds : Rebinds platform sessionId header entry copied envelope copy)
    (hparent : entryParentId entry = some (.str envelope.source.activeLeafId))
    (hsummary : entry.get? "summary" = some (.str envelope.summary))
    (hdigest : envelope.summarySha256 = sha256Text platform envelope.summary.toList)
    (hsession : sessionId ≠ "") :
    validatePersistedEntry platform
      (Utf8.encode (serializeFileEntries (header :: copied ++ copy :: back)))
      (header :: copied ++ copy :: back) sessionId copy (copied.length + 1) = .ok () := by
  obtain ⟨-, details, hdetails⟩ := envelopeFromEntry_some henvelope
  have hsame : SameButEnvelope entry copy := by
    rw [hrebinds.copy_eq]
    exact sameButEnvelope_rebound htype _ hdetails
  have hcopyEnvelope : envelopeFromEntry copy =
      .ok (some (reboundEnvelope platform sessionId header copied envelope)) := by
    rw [hrebinds.copy_eq]
    exact envelopeFromEntry_rebound hdetails hrebinds.ok
  have hcopyParent : entryParentId copy = some (.str envelope.source.activeLeafId) :=
    hsame.entryParentId_eq.trans hparent
  have htake : (header :: copied ++ copy :: back).take (copied.length + 1) = header :: copied := by
    rw [← List.length_cons (a := header), List.take_left]
  obtain ⟨more, hstarts⟩ := persistedRecordStarts_drop
    (show header :: copied ++ copy :: back = (header :: copied) ++ copy :: back from rfl)
  rw [List.length_cons] at hstarts
  have hbytes := take_encode_serialize
    (show header :: copied ++ copy :: back = (header :: copied) ++ copy :: back from rfl)
  have hexpected : createSessionRevisionToken (some (revisionInput (.str sessionId)
      (Utf8.encode (recordLines (header :: copied))).length (copied.length + 1)
      (some (.str envelope.source.activeLeafId)) (lastEntryIdOf (header :: copied))
      (platform.sha256 (Utf8.encode (recordLines (header :: copied)))))) =
      .ok (copiedRevision platform sessionId (header :: copied) envelope.source) := by
    have hrevision := hrebinds.revision
    rw [hparent] at hrevision
    unfold prefixRevision at hrevision
    simp only [serializeFileEntries_eq (show header :: copied ≠ [] by simp)] at hrevision
    exact hrevision
  unfold validatePersistedEntry
  rw [if_pos ((hsame.hasType_eq _).trans htype), hcopyEnvelope, ok_bind]
  simp only [htake, hcopyParent, hrebinds.source.branch, hstarts, hbytes, hexpected, ok_bind]
  have hsummaryText : summaryText copy = .ok envelope.summary := by
    unfold summaryText
    rw [hsame.get?_eq (by decide), hsummary]
  rw [hsummaryText, ok_bind, bind_eq_ok]
  refine ⟨(), require_eq_ok.mpr (by simp), bind_eq_ok.mpr ⟨(), ?_, ?_⟩⟩
  · rw [require_eq_ok]
    unfold bindingMatches
    have hcopySummary : copy.get? "summary" = some (.str envelope.summary) :=
      (hsame.get?_eq (by decide)).trans hsummary
    simp [reboundEnvelope, CompactionSourceIdentity.rebound, hcopySummary, hdigest]
  · rw [assertSourceMatches_eq_ok]
    exact ⟨hsession, hrebinds.source.ids.symm, rfl, hcopyParent.symm⟩

/-- Each copied record is the copy of a record of the branch, made with what was copied before. -/
theorem rebindFrom_split {referenced : List String} {path : List FileEntry}
    (h : rebindFrom platform header sessionId referenced path [] [] = .ok copied)
    (hsplit : copied = pre ++ copy :: post) :
    ∃ original entry back, path = original ++ entry :: back ∧
      rebindFrom platform header sessionId referenced original [] [] = .ok pre ∧
      rebindEntry platform header sessionId original pre entry = .ok copy := by
  induction path using List.reverseRecOn generalizing copied post with
  | nil =>
    obtain rfl := Except.ok.inj h
    exact absurd hsplit (by simp)
  | append_singleton path last ih =>
    rw [rebindFrom_append] at h
    obtain ⟨before, hbefore, h⟩ := bind_eq_ok.mp h
    unfold rebindFrom at h
    obtain ⟨lastCopy, hlast, h⟩ := bind_eq_ok.mp h
    have hcopied : (if isDropped referenced last then before else before ++ [lastCopy]) = copied :=
      Except.ok.inj h
    have hinside : ∀ post, before = pre ++ copy :: post → ∃ original entry back,
        path ++ [last] = original ++ entry :: back ∧
          rebindFrom platform header sessionId referenced original [] [] = .ok pre ∧
          rebindEntry platform header sessionId original pre entry = .ok copy := by
      intro post hpost
      obtain ⟨original, entry, back, rfl, hpre, hcopy⟩ := ih hbefore hpost
      exact ⟨original, entry, back ++ [last], by simp, hpre, hcopy⟩
    split_ifs at hcopied with hdropped
    · exact hinside post (hcopied.trans hsplit)
    · rw [hsplit] at hcopied
      rcases List.eq_nil_or_concat post with rfl | ⟨post, x, rfl⟩
      · obtain ⟨rfl, hcopy⟩ := List.append_inj' hcopied rfl
        obtain rfl : lastCopy = copy := by simpa using hcopy
        exact ⟨path, last, [], rfl, hbefore, by simpa using hlast⟩
      · have hcopied' : before ++ [lastCopy] = (pre ++ copy :: post) ++ [x] := by
          rw [hcopied]
          simp
        exact hinside post (List.append_inj' hcopied' rfl).1

/-- The copy of a record of a branch is accepted, if its envelope had been. -/
theorem validatePersistedEntry_copy {referenced : List String} {original : List FileEntry}
    (hbranch : IsBranch (original ++ entry :: back)) (hheader : isSession header = true)
    (hsession : MetadataText maxMetadataLength sessionId)
    (hids : referencedIds (original ++ entry :: back) = .ok referenced)
    (hpre : rebindFrom platform header sessionId referenced original [] [] = .ok pre)
    (hcopy : rebindEntry platform header sessionId original pre entry = .ok copy)
    (hvalid : ∀ envelope, hasType entry "compaction" = true →
      envelopeFromEntry entry = .ok (some envelope) →
        entry.get? "summary" = some (.str envelope.summary) ∧
        envelope.summarySha256 = sha256Text platform envelope.summary.toList) :
    validatePersistedEntry platform
      (Utf8.encode (serializeFileEntries (header :: pre ++ copy :: post)))
      (header :: pre ++ copy :: post) sessionId copy (pre.length + 1) = .ok () := by
  have hsame := rebindEntry_same hcopy
  by_cases htype : hasType entry "compaction" = true
  · unfold rebindEntry at hcopy
    rw [if_pos htype] at hcopy
    obtain ⟨found, hfound, hcopy⟩ := bind_eq_ok.mp hcopy
    cases found with
    | none =>
      obtain rfl := Except.ok.inj hcopy
      unfold validatePersistedEntry
      rw [if_pos htype, hfound, ok_bind]
      rfl
    | some envelope =>
      obtain ⟨hsummary, hdigest⟩ := hvalid envelope htype hfound
      obtain ⟨new, hnew, hkept⟩ := rebindFrom_ok hpre
      obtain rfl : pre = new := by simpa using hnew
      -- what `rebindEnvelope` checked before it returned
      have hmatches : assertSourceMatches platform entry envelope original = .ok () ∧
          ∃ revision, prefixRevision platform sessionId (header :: pre) (entryParentId entry) =
            .ok revision := by
        unfold rebindEnvelope at hcopy
        obtain ⟨_, -, hcopy⟩ := bind_eq_ok.mp hcopy
        obtain ⟨source, hsource, hcopy⟩ := bind_eq_ok.mp hcopy
        obtain ⟨_, hmatches, hcopy⟩ := bind_eq_ok.mp hcopy
        obtain ⟨copiedSource, -, hcopy⟩ := bind_eq_ok.mp hcopy
        split at hcopy
        · obtain ⟨revision, hrevision, -⟩ := bind_eq_ok.mp hcopy
          refine ⟨?_, revision, hrevision⟩
          by_cases hne : original = []
          · rw [hne] at hsource ⊢
            rw [branchFromPrefix_nil hsource] at hmatches
            exact hmatches
          · rw [hbranch.branchFromPrefix_front hne] at hsource
            obtain rfl := Except.ok.inj hsource
            exact hmatches
        · exact absurd hcopy (raise_ne_ok _ _)
      obtain ⟨hmatch, revision, hrevision⟩ := hmatches
      have hsize : Utf8.byteLength (serializeFileEntries (header :: pre)) ≤ maxSafeInteger := by
        unfold prefixRevision at hrevision
        obtain ⟨fields, hfields, hread, hok⟩ := createSessionRevisionToken_eq_ok.mp hrevision
        obtain rfl := Json.obj.inj (Option.some.inj hfields)
        obtain ⟨d, hd, hbytes⟩ := hread.completeBytes
        obtain rfl := Json.num.inj (Option.some.inj hd)
        rw [Option.some.inj ((Decimal.toNat?_ofNat _).symm.trans hbytes)]
        exact hok.completeBytes
      have hreferenced : ∀ id ∈ envelope.source.entryIds, id ∈ referenced := by
        obtain ⟨found', hfound', hall⟩ := referencedIds_ok hids
          (show entry ∈ original ++ entry :: back by simp) htype
        obtain rfl := Except.ok.inj (hfound.symm.trans hfound')
        exact hall envelope rfl
      rw [keptOf_source hmatch hreferenced] at hkept
      obtain ⟨copy', hcopy', hrebinds⟩ := rebindEnvelope_eq hbranch (envelopeFromEntry_some hfound).1
        hmatch hkept hheader hsession hsize
      obtain rfl : copy = copy' := Except.ok.inj (hcopy.symm.trans hcopy')
      exact validatePersistedEntry_rebound htype hfound hrebinds
        (assertSourceMatches_eq_ok.mp hmatch).2.2.2.symm hsummary hdigest hsession.ne_empty
  · unfold validatePersistedEntry
    rw [if_neg (by rw [hsame.hasType_eq]; exact htype)]

end Rebound

/-! ## Branches of an opened file -/

/-- A branch of the records of a file. -/
theorem isBranch_of_branchFrom {path : List FileEntry} {leafId : String}
    (hpath : branchFrom (indexEntries (records.filter fun e => !isSession e)) (some (.str leafId)) =
      .ok path)
    (hne : path ≠ []) : IsBranch path ∧ ∀ e ∈ path, e ∈ records ∧ isSession e = false := by
  have hbranch := branchPath_of_branchFrom rfl hne hpath
  have hmem : ∀ e ∈ path, e ∈ records ∧ isSession e = false := by
    intro e he
    have hfilter := (mem_of_get?_indexEntries (hbranch.stored e he)).1
    obtain ⟨hrecords, hentry⟩ := List.mem_filter.mp hfilter
    exact ⟨hrecords, by simpa using hentry⟩
  exact ⟨⟨hbranch.linked, fun e he => hbranch.root_not_mem he, fun e he => (hmem e he).2⟩, hmem⟩

/-- What is known of the envelopes on a branch of an opened file. -/
theorem validatedEnvelope_of_mem {platform : Platform} {bytes : List UInt8} {sessionId : String}
    (hvalid : validatePersistedCompactionEnvelopes platform bytes records sessionId = .ok ())
    {front : List FileEntry} (hsplit : records = front ++ entry :: back)
    (htype : hasType entry "compaction" = true)
    (henvelope : envelopeFromEntry entry = .ok (some envelope)) :
    ValidatedEnvelope platform records entry front.length envelope := by
  unfold validatePersistedCompactionEnvelopes at hvalid
  split at hvalid
  · exact absurd hvalid (raise_ne_ok _ _)
  · obtain ⟨_, -, hloop⟩ := bind_eq_ok.mp hvalid
    have hentry := (validateEntriesFrom_eq_ok).mp hloop front entry back hsplit
    rw [Nat.zero_add] at hentry
    exact validatedEnvelope_of_ok htype henvelope hentry

theorem envelopeFromEntry_of_validated {platform : Platform} {bytes : List UInt8}
    {sessionId : String}
    (hvalid : validatePersistedCompactionEnvelopes platform bytes records sessionId = .ok ())
    (hmem : entry ∈ records) (htype : hasType entry "compaction" = true) :
    ∃ found, envelopeFromEntry entry = .ok found := by
  obtain ⟨front, back, hsplit⟩ := List.append_of_mem hmem
  unfold validatePersistedCompactionEnvelopes at hvalid
  split at hvalid
  · exact absurd hvalid (raise_ne_ok _ _)
  · obtain ⟨_, -, hloop⟩ := bind_eq_ok.mp hvalid
    have hentry := (validateEntriesFrom_eq_ok).mp hloop front entry back hsplit
    unfold validatePersistedEntry at hentry
    rw [if_pos htype] at hentry
    obtain ⟨found, hfound, -⟩ := bind_eq_ok.mp hentry
    exact ⟨found, hfound⟩

/-- In ordered records the branch to a record lies in the records before it. -/
theorem branchFromPrefix_ordered {path front rf rb : List FileEntry} {e : FileEntry}
    {leafId : String} (hordered : Ordered (records.filter fun x => !isSession x))
    (hpath : branchFrom (indexEntries (records.filter fun x => !isSession x)) (some (.str leafId)) =
      .ok path)
    (hsplit : path = front ++ e :: back) (hrecords : records = rf ++ e :: rb)
    (hparent : entryParentId e ≠ none) (hnull : entryParentId e ≠ some .null) :
    branchFromPrefix rf (entryParentId e) = .ok front := by
  have hne : path ≠ [] := by simp [hsplit]
  have hbranch := branchPath_of_branchFrom rfl hne hpath
  obtain ⟨-, hmem⟩ := isBranch_of_branchFrom hpath hne
  have hentry : isSession e = false := (hmem e (by simp [hsplit])).2
  have hfilter : (records.filter fun x => !isSession x) =
      (rf.filter fun x => !isSession x) ++ e :: rb.filter fun x => !isSession x := by
    rw [hrecords, List.filter_append, List.filter_cons_of_pos (by simp [hentry])]
  -- the chain to `e` within the records up to it is the path up to it
  obtain ⟨chain, hchain⟩ := hordered.exists_chain hfilter
  have hpref : Linked (front ++ [e]) := by
    have hlinked := hbranch.linked
    rw [hsplit, List.append_cons] at hlinked
    exact hlinked.of_append
  have hchainEq : chain = front ++ [e] := by
    have hall : ChainTo (records.filter fun x => !isSession x) e chain := by
      refine hchain.mono ?_
      intro a ha
      rw [hfilter]
      rcases List.mem_append.mp ha with ha | ha
      · exact List.mem_append_left _ ha
      · rw [List.mem_singleton.mp ha]
        simp
    have hfound := branchFrom_linked hpref
      (fun x hx => hbranch.stored x (by
        rw [hsplit, List.append_cons]
        exact List.mem_append_left _ hx))
      (fun x hx => hbranch.root x (by
        rw [hsplit, List.append_cons, List.head?_append_of_ne_nil _ (by simp)]
        exact hx)) (show (front ++ [e]).getLast? = some e by simp)
    exact Except.ok.inj ((hall.branchFrom_eq hordered).symm.trans hfound)
  rw [hchainEq] at hchain
  cases hlast : front.getLast? with
  | none =>
    rw [List.getLast?_eq_none_iff.mp hlast] at hchain
    rcases hchain.root e (by simp) with hroot | hroot
    · exact absurd hroot hparent
    · exact absurd hroot hnull
  | some last =>
    have hfrontNe : front ≠ [] := by
      rintro rfl
      simp at hlast
    have hlink : entryParentId e = entryId last :=
      (List.isChain_append.mp hpref.links).2.2 last (by rw [hlast]; rfl) e (by simp)
    have hbefore : Ordered (rf.filter fun x => !isSession x) := by
      rw [hfilter] at hordered
      exact hordered.of_append
    rw [hlink]
    refine branchFromPrefix_stored rfl hpref.of_append ?_ ?_ ?_ hlast
    · intro x hx
      refine get?_indexEntries_of_nodup hbefore.nodup ?_
      rcases List.mem_append.mp (hchain.stored x (List.mem_append_left _ hx)) with hx' | hx'
      · exact hx'
      · have hnodup := hpref.nodup
        rw [List.mem_singleton.mp hx'] at hx
        rw [List.map_append, List.nodup_append] at hnodup
        exact absurd rfl (hnodup.2.2 (entryId e) (List.mem_map_of_mem hx) (entryId e) (by simp))
    · intro x hx
      rcases hchain.root x (by rw [List.head?_append_of_ne_nil _ hfrontNe]; exact hx) with h | h
      · exact .inl h
      · exact .inr (.inl h)
    · intro hnone
      obtain ⟨x, hx, hid⟩ := List.mem_map.mp hnone
      obtain ⟨value, hvalue, -⟩ := hbefore.keys x hx
      rw [hid] at hvalue
      exact absurd hvalue (by simp)

/-- The envelopes on a branch of ordered records were made for the branch before them. -/
theorem envelopesMatch_of_validated {platform : Platform} {bytes : List UInt8}
    {path : List FileEntry} {sessionId leafId : String}
    (hvalid : validatePersistedCompactionEnvelopes platform bytes records sessionId = .ok ())
    (hordered : Ordered (records.filter fun x => !isSession x))
    (hpath : branchFrom (indexEntries (records.filter fun x => !isSession x)) (some (.str leafId)) =
      .ok path) :
    EnvelopesMatch platform path := by
  intro front e back hsplit htype
  have hne : path ≠ [] := by simp [hsplit]
  obtain ⟨-, hmem⟩ := isBranch_of_branchFrom hpath hne
  have hrecord : e ∈ records := (hmem e (by simp [hsplit])).1
  obtain ⟨found, hfound⟩ := envelopeFromEntry_of_validated hvalid hrecord htype
  refine ⟨found, hfound, ?_⟩
  rintro envelope henvelope
  obtain rfl : found = some envelope := henvelope
  obtain ⟨rf, rb, hrecords⟩ := List.append_of_mem hrecord
  have hvalidated := validatedEnvelope_of_mem hvalid hrecords htype hfound
  obtain ⟨source, hsource, hmatches⟩ := hvalidated.source
  have hparent : entryParentId e ≠ none := by
    intro hnone
    have hleaf := (assertSourceMatches_eq_ok.mp hmatches).2.2.2
    rw [hnone] at hleaf
    exact absurd hleaf (by simp)
  have htake : records.take rf.length = rf := by rw [hrecords, List.take_left]
  rw [htake, branchFromPrefix_ordered hordered hpath hsplit hrecords hparent hvalidated.parent]
    at hsource
  obtain rfl := Except.ok.inj hsource
  exact hmatches

/-- A branch of a session that was opened, rebound to another session, is accepted there; and it can
be rebound. -/
theorem rebindBranchedCompactionEnvelopes_validates {platform : Platform} {bytes : List UInt8}
    {records : List FileEntry} {sourceId : String}
    (hvalid : validatePersistedCompactionEnvelopes platform bytes records sourceId = .ok ())
    {leafId : String} {path : List FileEntry}
    (hpath : branchFrom (indexEntries (records.filter fun e => !isSession e)) (some (.str leafId)) =
      .ok path)
    (newSessionId : Uuid) (timestamp cwd : String) (parentSession : Option String) :
    let header := sessionHeader newSessionId.text timestamp cwd parentSession
    (∀ copied, rebindBranchedCompactionEnvelopes platform header newSessionId.text path = .ok copied →
      validatePersistedCompactionEnvelopes platform
        (Utf8.encode (serializeFileEntries (header :: copied))) (header :: copied)
        newSessionId.text = .ok ()) ∧
    (Ordered (records.filter fun e => !isSession e) →
      RebindFits platform header newSessionId.text path →
      ∃ copied, rebindBranchedCompactionEnvelopes platform header newSessionId.text path =
        .ok copied) := by
  intro header
  have hheader : isSession header = true := isSession_sessionHeader ..
  have hsession := newSessionId.metadataText
  refine ⟨?_, ?_⟩
  · intro copied hcopied
    unfold validatePersistedCompactionEnvelopes
    refine bind_eq_ok.mpr ⟨(), require_eq_ok.mpr ?_, (validateEntriesFrom_eq_ok).mpr ?_⟩
    · rw [hheader, entryId_sessionHeader]
      simp
    · intro front copy post hsplit
      rw [Nat.zero_add]
      cases front with
      | nil =>
        obtain ⟨rfl, -⟩ := List.cons.inj hsplit
        unfold validatePersistedEntry
        rw [if_neg (by rw [hasType_eq_false hheader (by decide)]; simp)]
      | cons first pre =>
        obtain ⟨rfl, hcopies⟩ := List.cons.inj hsplit
        obtain ⟨referenced, hids, hrebind⟩ := bind_eq_ok.mp hcopied
        obtain ⟨original, entry, back, rfl, hpre, hcopy⟩ := rebindFrom_split hrebind hcopies
        obtain ⟨hbranch, hmem⟩ := isBranch_of_branchFrom hpath (by simp)
        rw [hsplit, List.length_cons]
        refine validatePersistedEntry_copy hbranch hheader hsession hids hpre hcopy ?_
        intro envelope htype henvelope
        obtain ⟨rf, rb, hrecords⟩ := List.append_of_mem (hmem entry (by simp)).1
        have hvalidated := validatedEnvelope_of_mem hvalid hrecords htype henvelope
        exact ⟨hvalidated.summary, hvalidated.digest⟩
  · intro hordered hfits
    by_cases hne : path = []
    · subst hne
      exact ⟨[], rfl⟩
    · obtain ⟨hbranch, -⟩ := isBranch_of_branchFrom hpath hne
      exact (rebindBranched_isOk_iff hbranch hheader hsession hfits).mpr
        (envelopesMatch_of_validated hvalid hordered hpath)

/-! ## A run -/

def sampleHeader : FileEntry := sessionHeader "s" "2026-01-01T00:00:00.000Z" "" none

def sampleFirst : FileEntry :=
  makeEntry (.message (sampleMessage "user" "a")) "11111111" (some .null) "2026-01-01T00:00:00.000Z"

/-- An envelope for the session with one message. -/
def sampleEnvelope : CompactionEnvelope where
  transactionId := "t"
  baseRevision := ⟨"s", Utf8.byteLength (serializeFileEntries [sampleHeader, sampleFirst]), 2,
    some "11111111", some "11111111", samplePlatform.sha256 [], none⟩
  source := ⟨"s", ["11111111"], "11111111", "11111111", samplePlatform.sha256 [], "11111111", 1⟩
  createdAt := "2026-01-01T00:00:00.000Z"
  model := ⟨"p", "m"⟩
  summary := "y"
  summarySha256 := samplePlatform.sha256 []
  preserved := ⟨"i", [], [], [], [], [], [], none, none, [], "n"⟩

/-- The session with one message and its compaction. -/
def sampleRecords : List FileEntry :=
  [sampleHeader, sampleFirst,
    makeEntry (.compaction "y" "11111111" (.ofNat 1)
      (some (.obj [("compactionEnvelope", sampleEnvelope.toJson)])) none) "22222222"
      (some (.str "11111111")) "2026-01-01T00:00:00.000Z"]

/-- Its branch is rebound and accepted. -/
theorem rebindBranchedCompactionEnvelopes_validates_sample :
    ∃ copied, rebindBranchedCompactionEnvelopes samplePlatform
        (sessionHeader (sampleUuid 8).text "" "" none) (sampleUuid 8).text sampleRecords.tail =
          .ok copied ∧
      validatePersistedCompactionEnvelopes samplePlatform
        (Utf8.encode (serializeFileEntries
          (sessionHeader (sampleUuid 8).text "" "" none :: copied)))
        (sessionHeader (sampleUuid 8).text "" "" none :: copied) (sampleUuid 8).text = .ok () := by
  have hvalid : validatePersistedCompactionEnvelopes samplePlatform
      (Utf8.encode (serializeFileEntries sampleRecords)) sampleRecords "s" = .ok () := by
    decide +kernel
  have hpath : branchFrom (indexEntries (sampleRecords.filter fun e => !isSession e))
      (some (.str "22222222")) = .ok sampleRecords.tail := rfl
  have hrebind : (rebindBranchedCompactionEnvelopes samplePlatform
      (sessionHeader (sampleUuid 8).text "" "" none) (sampleUuid 8).text sampleRecords.tail).isOk =
        true := by decide +kernel
  cases hcopied : rebindBranchedCompactionEnvelopes samplePlatform
      (sessionHeader (sampleUuid 8).text "" "" none) (sampleUuid 8).text sampleRecords.tail with
  | error e =>
    rw [hcopied] at hrebind
    exact absurd hrebind (by simp [Except.isOk, Except.toBool])
  | ok copied =>
    exact ⟨copied, rfl, (rebindBranchedCompactionEnvelopes_validates hvalid hpath (sampleUuid 8) ""
      "" none).1 copied hcopied⟩

end CodingAgent
