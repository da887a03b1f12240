import OmkVerified.CodingAgent.Integrity.Proofs.LoaderProofs

/-!
# Appending to a healthy file

A healthy file stays healthy when a line with a valid entry is appended, whose id is new and whose
parent is in the file. The inspection of a healthy file comes down to its active branch.
-/

namespace CodingAgent.Integrity

open Lib

/-! ## Lines -/

/-- The bytes end in a line feed. -/
def Complete (bytes : List UInt8) : Prop := bytes ≠ [] ∧ completePrefix bytes = bytes

theorem complete_completePrefix {bytes : List UInt8} (h : completePrefix bytes ≠ []) :
    Complete (completePrefix bytes) := by
  refine ⟨h, ?_⟩
  unfold completePrefix
  rw [List.reverse_reverse, List.dropWhile_idempotent]

theorem complete_append_line (bytes : List UInt8) (text : List Char) :
    Complete (bytes ++ Utf8.encode (text ++ ['\n'])) := by
  have hline : Utf8.encode ['\n'] = [0x0a] := by decide
  refine ⟨by simp [hline], ?_⟩
  unfold completePrefix
  rw [Utf8.encode_append, hline, ← List.append_assoc, List.reverse_append, List.reverse_singleton,
    List.singleton_append, List.dropWhile_cons_of_neg (by simp), List.reverse_cons,
    List.reverse_reverse]

theorem recordTexts_append_line (body line : List Char) (hline : '\n' ∉ line) :
    recordTexts (body ++ ['\n'] ++ (line ++ ['\n'])) = recordTexts (body ++ ['\n']) ++ [line] := by
  unfold recordTexts
  rw [← List.append_assoc, List.dropLast_concat, List.dropLast_concat, List.append_assoc,
    List.singleton_append, List.splitOn_append_cons_self, List.splitOn_eq_singleton hline]

/-- A line with a record is read as this record. -/
theorem Reads.concat {complete : List UInt8} {values : List Json} (h : Reads complete values)
    (hcomplete : Complete complete) {entry : FileEntry} (hwell : entry.WellFormed) :
    Reads (complete ++ entryLine entry) (values ++ [entry]) := by
  obtain ⟨text, htext, hvalues⟩ := h
  obtain ⟨full, rfl, rfl⟩ := Utf8.decodeFatal_eq_some htext
  obtain ⟨body, rfl⟩ := text_of_complete hcomplete.1 hcomplete.2
  obtain ⟨body', hbody⟩ : ∃ body', Utf8.dropBom false (body ++ ['\n']) = body' ++ ['\n'] := by
    cases body with
    | nil => exact ⟨[], by simp [Utf8.dropBom]⟩
    | cons c body =>
      by_cases hc : c = '\uFEFF'
      · exact ⟨body, by simp [Utf8.dropBom, hc]⟩
      · exact ⟨c :: body, by simp [Utf8.dropBom, hc]⟩
  have hdrop : Utf8.dropBom false (body ++ ['\n'] ++ (Json.stringify entry ++ ['\n'])) =
      body' ++ ['\n'] ++ (Json.stringify entry ++ ['\n']) := by
    rw [← hbody]
    cases body with
    | nil => simp [Utf8.dropBom]
    | cons c body =>
      by_cases hc : c = '\uFEFF' <;> simp [Utf8.dropBom, hc]
  refine ⟨body' ++ ['\n'] ++ (Json.stringify entry ++ ['\n']), ?_, ?_⟩
  · unfold entryLine
    rw [← Utf8.encode_append, Utf8.decodeFatal_encode, hdrop]
  · rw [hbody] at hvalues
    rw [recordTexts_append_line _ _ (Json.lineFeed_not_mem_stringify entry), List.map_append, hvalues,
      List.map_append, List.map_singleton, parseSessionEntryLine_stringify hwell,
      List.map_singleton]

/-! ## Entries -/

section Forest

variable {platform : Platform} {entries : List FileEntry} {entry : FileEntry}

/-- What makes an entry fit behind others. -/
structure Attaches (platform : Platform) (entries : List FileEntry) (entry : FileEntry) : Prop where
  valid : validEntryShape platform entry = true
  fresh : entryId entry ∉ entries.map entryId
  parent : entryParentId entry = some .null ∨ entryParentId entry ∈ entries.map entryId

theorem Forest.distinct_concat (h : Forest platform entries)
    (hnew : Attaches platform entries entry) : ((entries ++ [entry]).map entryId).Nodup := by
  rw [List.map_append, List.map_singleton, ← List.concat_eq_append]
  exact h.distinct.concat hnew.fresh

theorem Forest.parentOf_concat (h : Forest platform entries) (hnew : Attaches platform entries entry)
    {e : FileEntry}
    (he : entryParentId e = some .null ∨ entryParentId e ∈ entries.map entryId) :
    parentOf (indexEntries (entries ++ [entry])) e = parentOf (indexEntries entries) e := by
  unfold parentOf
  split_ifs with hnull
  · rfl
  · obtain ⟨parent, hparent, hid⟩ := List.mem_map.mp (he.resolve_left hnull)
    rw [← hid, get?_indexEntries_of_nodup (h.distinct_concat hnew) (List.mem_append_left _ hparent),
      h.stored hparent]

theorem Forest.concat (h : Forest platform entries) (hnew : Attaches platform entries entry) :
    Forest platform (entries ++ [entry]) := by
  have hmem : ∀ {e}, e ∈ entries ++ [entry] → e ∈ entries ∨ e = entry := by
    intro e he
    simpa using he
  have hparents : ∀ e ∈ entries ++ [entry],
      entryParentId e = some .null ∨ entryParentId e ∈ entries.map entryId := by
    intro e he
    rcases hmem he with he | rfl
    · exact h.parents e he
    · exact hnew.parent
  have hold : ∀ e ∈ entries, Ends (parentOf (indexEntries (entries ++ [entry]))) e := by
    intro e he
    obtain ⟨fuel, hfuel⟩ := h.ends e he
    refine ⟨fuel, ?_⟩
    rw [← walk_congr (S := fun e => e ∈ entries)
      (fun a ha => (h.parentOf_concat hnew (h.parents a ha)).symm)
      (fun a b _ hab => (h.parentOf_eq_some.mp hab).1) he]
    exact hfuel
  refine ⟨?_, ?_, ?_, ?_⟩
  · intro e he
    rcases hmem he with he | rfl
    · exact h.valid e he
    · exact hnew.valid
  · exact h.distinct_concat hnew
  · intro e he
    rw [List.map_append]
    exact (hparents e he).imp_right (List.mem_append_left _)
  · intro e he
    cases hparent : parentOf (indexEntries (entries ++ [entry])) e with
    | none => exact ends_of_next_eq_none hparent
    | some parent =>
      rw [ends_iff_of_next hparent]
      rw [h.parentOf_concat hnew (hparents e he)] at hparent
      exact hold parent (h.parentOf_eq_some.mp hparent).1

/-- A healthy file stays healthy. -/
theorem Healthy.concat {complete : List UInt8} {header : FileEntry}
    (h : Healthy platform complete header entries) (hcomplete : Complete complete)
    (hwell : entry.WellFormed) (hsession : isSession entry = false)
    (hnew : Attaches platform entries entry) :
    Healthy platform (complete ++ entryLine entry) header (entries ++ [entry]) where
  nonempty := (complete_append_line complete (Json.stringify entry)).1
  reads := h.reads.concat hcomplete hwell
  header := h.header
  others := by
    intro e he
    rcases List.mem_append.mp he with he | he
    · exact h.others e he
    · rw [List.mem_singleton.mp he]
      exact hsession
  forest := h.forest.concat hnew

theorem RootPath.concat {path : List FileEntry} (h : RootPath entries path)
    (hparent : entryParentId entry = lastId entries) :
    RootPath (entries ++ [entry]) (path ++ [entry]) := by
  have hmono : ∀ a b, IsParent entries b a → IsParent (entries ++ [entry]) b a := by
    rintro a b ⟨hb, ha, hid⟩
    exact ⟨List.mem_append_left _ hb, List.mem_append_left _ ha, hid⟩
  refine ⟨?_, ?_, by simp⟩
  · cases hpath : path with
    | nil =>
      have hnone : entries.getLast? = none := by
        rw [← h.last, hpath]
        rfl
      unfold lastId at hparent
      rw [hnone] at hparent
      intro e he
      obtain rfl : entry = e := by simpa using he
      exact hparent
    | cons first path =>
      intro e he
      exact h.root e (by rw [hpath]; simpa using he)
  · rw [List.isChain_append]
    refine ⟨h.links.imp hmono, List.isChain_singleton _, ?_⟩
    intro a ha b hb
    obtain rfl : b = entry := by simpa [eq_comm] using hb
    rw [h.last] at ha
    unfold lastId at hparent
    rw [Option.mem_def.mp ha] at hparent
    exact ⟨by simp, List.mem_append_left _ (List.mem_of_getLast? ha), hparent⟩

end Forest

/-! ## Chains of messages -/

/-- The id and the timestamp of an entry that is to be written. -/
structure Stamp where
  id : String
  timestamp : String

/-- One message entry for each message, each a child of the one before. -/
def chainEntries : (parentId : Option Json) → List (Stamp × Json) → List FileEntry
  | _, [] => []
  | parentId, (stamp, message) :: stamped =>
    makeEntry (.message message) stamp.id parentId stamp.timestamp ::
      chainEntries (some (.str stamp.id)) stamped

/-- The stamps are new to the entries. -/
structure FreshStamps (platform : Platform) (entries : List FileEntry) (stamps : List Stamp) :
    Prop where
  nonempty : ∀ stamp ∈ stamps, stamp.id ≠ ""
  distinct : (stamps.map Stamp.id).Nodup
  fresh : ∀ stamp ∈ stamps, some (.str stamp.id) ∉ entries.map entryId
  timestamps : ∀ stamp ∈ stamps, validEntryTimestamp platform (some (.str stamp.timestamp)) = true

section Chain

variable {platform : Platform}

theorem Forest.lastId_cases {entries : List FileEntry} (h : Forest platform entries) :
    lastId entries = some .null ∨
      lastId entries ∈ entries.map entryId ∧ ∃ id, lastId entries = some (.str id) ∧ id ≠ "" := by
  unfold lastId
  cases hlast : entries.getLast? with
  | none => exact .inl rfl
  | some last =>
    have hmem := List.mem_of_getLast? hlast
    exact .inr ⟨List.mem_map_of_mem hmem, entryId_of_valid (h.valid last hmem)⟩

theorem validEntryShape_message {message : Json} (hmessage : validAgentMessage (some message) = true)
    {stamp : Stamp} (hid : stamp.id ≠ "")
    (htime : validEntryTimestamp platform (some (.str stamp.timestamp)) = true) {parentId : Option Json}
    (hparent : parentId = some .null ∨ ∃ id, parentId = some (.str id) ∧ id ≠ "") :
    validEntryShape platform (makeEntry (.message message) stamp.id parentId stamp.timestamp) =
      true := by
  have hkey : (makeEntry (.message message) stamp.id parentId stamp.timestamp).get? "id" =
      some (.str stamp.id) := entryId_makeEntry _ _ _ _
  have hparentId : (makeEntry (.message message) stamp.id parentId stamp.timestamp).get?
      "parentId" = parentId := entryParentId_makeEntry _ _ _ _
  have htimestamp : (makeEntry (.message message) stamp.id parentId stamp.timestamp).get?
      "timestamp" = some (.str stamp.timestamp) := by
    cases parentId <;> rfl
  have hfield : (makeEntry (.message message) stamp.id parentId stamp.timestamp).get? "message" =
      some message := by
    cases parentId <;> rfl
  have hpayload : validPayload (makeEntry (.message message) stamp.id parentId stamp.timestamp)
      "message" = true := by
    show validAgentMessage _ = true
    rw [hfield]
    exact hmessage
  have hlink : (decide (parentId = some .null) || nonEmptyString parentId) = true := by
    rcases hparent with rfl | ⟨id, rfl, hne⟩
    · rfl
    · simp [nonEmptyString, hne]
  unfold validEntryShape
  rw [type_makeEntry]
  show (supportedEntryTypes.contains "message" && nonEmptyString _ && _ && _ && _) = true
  rw [hkey, hparentId, htimestamp, hlink, htime, Payload.type, hpayload]
  simp [supportedEntryTypes, nonEmptyString, hid]

/-- A healthy file and its path grow by a chain of messages. -/
theorem Healthy.extend {header : FileEntry} (stamped : List (Stamp × Json))
    (hmessages : ∀ message ∈ stamped.map Prod.snd,
      message.WellFormed ∧ validAgentMessage (some message) = true)
    {complete : List UInt8} {entries path : List FileEntry}
    (h : Healthy platform complete header entries) (hcomplete : Complete complete)
    (hpath : RootPath entries path) (hfresh : FreshStamps platform entries (stamped.map Prod.fst)) :
    Healthy platform (complete ++ (chainEntries (lastId entries) stamped).flatMap entryLine) header
        (entries ++ chainEntries (lastId entries) stamped) ∧
      Complete (complete ++ (chainEntries (lastId entries) stamped).flatMap entryLine) ∧
      RootPath (entries ++ chainEntries (lastId entries) stamped)
        (path ++ chainEntries (lastId entries) stamped) := by
  induction stamped generalizing complete entries path with
  | nil =>
    simp only [chainEntries, List.flatMap_nil, List.append_nil]
    exact ⟨h, hcomplete, hpath⟩
  | cons first stamped ih =>
    obtain ⟨stamp, message⟩ := first
    obtain ⟨hwell, hmessage⟩ := hmessages message (by simp)
    have hstamp : stamp ∈ ((stamp, message) :: stamped).map Prod.fst := by simp
    have hparent := h.forest.lastId_cases
    set entry := makeEntry (.message message) stamp.id (lastId entries) stamp.timestamp with hentry
    have hid : entryId entry = some (.str stamp.id) := entryId_makeEntry _ _ _ _
    have hparentId : entryParentId entry = lastId entries := entryParentId_makeEntry _ _ _ _
    have hattaches : Attaches platform entries entry := by
      refine ⟨validEntryShape_message hmessage (hfresh.nonempty stamp hstamp)
        (hfresh.timestamps stamp hstamp) (hparent.imp_right And.right), ?_, ?_⟩
      · rw [hid]
        exact hfresh.fresh stamp hstamp
      · rw [hparentId]
        exact hparent.imp_right And.left
    have hwellEntry : entry.WellFormed := by
      refine wellFormed_makeEntry (show (Payload.message message).WellFormed from hwell) stamp.id ?_
        stamp.timestamp
      intro v hv
      rcases hparent with hnull | ⟨-, id, hstr, -⟩
      · rw [hnull] at hv
        obtain rfl := Option.mem_some.mp hv
        trivial
      · rw [hstr] at hv
        obtain rfl := Option.mem_some.mp hv
        trivial
    have hlast : lastId (entries ++ [entry]) = some (.str stamp.id) := by
      unfold lastId
      rw [List.getLast?_concat]
      exact hid
    have hstep := ih (fun m hm => hmessages m (List.mem_cons_of_mem _ hm))
      (h.concat hcomplete hwellEntry (isSession_makeEntry _ _ _ _) hattaches)
      (complete_append_line complete (Json.stringify entry)) (hpath.concat hparentId)
      { nonempty := fun s hs => hfresh.nonempty s (List.mem_cons_of_mem _ hs)
        distinct := (List.nodup_cons.mp hfresh.distinct).2
        fresh := by
          intro s hs hmem
          rw [List.map_append, List.mem_append, List.map_singleton, List.mem_singleton, hid] at hmem
          rcases hmem with hmem | hmem
          · exact hfresh.fresh s (List.mem_cons_of_mem _ hs) hmem
          · have heq : s.id = stamp.id := by simpa using hmem
            exact (List.nodup_cons.mp hfresh.distinct).1 (heq ▸ List.mem_map_of_mem hs)
        timestamps := fun s hs => hfresh.timestamps s (List.mem_cons_of_mem _ hs) }
    rw [hlast] at hstep
    have hchain : chainEntries (lastId entries) ((stamp, message) :: stamped) =
        entry :: chainEntries (some (.str stamp.id)) stamped := rfl
    rw [hchain, List.flatMap_cons, ← List.append_assoc, List.append_cons entries,
      List.append_cons path]
    exact hstep

/-! ## The context of a chain -/

theorem flatMap_chainEntries (parentId : Option Json) (stamped : List (Stamp × Json)) :
    (chainEntries parentId stamped).flatMap (entryMessage platform) = stamped.map Prod.snd := by
  induction stamped generalizing parentId with
  | nil => rfl
  | cons first stamped ih =>
    obtain ⟨stamp, message⟩ := first
    have hfirst : entryMessage platform
        (makeEntry (.message message) stamp.id parentId stamp.timestamp) = [message] := by
      unfold entryMessage
      rw [if_pos (by simp [hasType_makeEntry, Payload.type])]
      cases parentId <;> rfl
    rw [chainEntries, List.flatMap_cons, hfirst, ih]
    rfl

/-- Messages of other roles than `assistant` do not change the settings. -/
theorem foldlM_chainEntries (s : Settings) (parentId : Option Json) {stamped : List (Stamp × Json)}
    (h : ∀ message ∈ stamped.map Prod.snd,
      message ≠ .null ∧ message.get? "role" ≠ some (.str "assistant")) :
    (chainEntries parentId stamped).foldlM Settings.step s = .ok s := by
  induction stamped generalizing parentId with
  | nil => rfl
  | cons first stamped ih =>
    obtain ⟨stamp, message⟩ := first
    obtain ⟨hnull, hrole⟩ := h message (by simp)
    have hmessageRole : messageRole (makeEntry (.message message) stamp.id parentId
        stamp.timestamp) = .ok (message.get? "role") := by
      have hfield : (makeEntry (.message message) stamp.id parentId stamp.timestamp).get?
          "message" = some message := by
        cases parentId <;> rfl
      unfold messageRole
      rw [hfield]
      cases message with
      | null => exact absurd rfl hnull
      | _ => rfl
    have hstep : s.step (makeEntry (.message message) stamp.id parentId stamp.timestamp) = .ok s := by
      unfold Settings.step
      simp only [hasType_makeEntry, Payload.type, hmessageRole, hrole]
      simp
    rw [chainEntries, List.foldlM_cons, hstep, ok_bind]
    exact ih _ fun m hm => h m (List.mem_cons_of_mem _ hm)

/-- The context of a longer path has the messages of the chain at its end. -/
theorem pathContext_append_chain {path : List FileEntry} {context : SessionContext}
    (hcontext : pathContext platform path = .ok context) (parentId : Option Json)
    {stamped : List (Stamp × Json)}
    (h : ∀ message ∈ stamped.map Prod.snd,
      message ≠ .null ∧ message.get? "role" ≠ some (.str "assistant")) :
    pathContext platform (path ++ chainEntries parentId stamped) =
      .ok { context with messages := context.messages ++ stamped.map Prod.snd } := by
  unfold pathContext at hcontext ⊢
  obtain ⟨settings, hfold, hpure⟩ := bind_eq_ok.mp hcontext
  obtain rfl := Except.ok.inj hpure
  rw [List.foldlM_append, hfold, ok_bind, foldlM_chainEntries settings parentId h, ok_bind]
  cases hcompaction : settings.compaction with
  | none => simp only [List.flatMap_append, flatMap_chainEntries, pure_eq_ok]
  | some compaction =>
    obtain ⟨hmem, htype⟩ := (compaction_mem hfold hcompaction).resolve_left (by simp [Settings.initial])
    simp only [keptEntries_append hmem htype, List.flatMap_append, flatMap_chainEntries, pure_eq_ok,
      List.cons_append]

theorem compactionFindings_append_chain {ancestorIds : List (Option Json)} {path : List FileEntry}
    (h : compactionFindings ancestorIds path = []) (parentId : Option Json)
    (stamped : List (Stamp × Json)) :
    compactionFindings ancestorIds (path ++ chainEntries parentId stamped) = [] := by
  induction path generalizing ancestorIds with
  | nil =>
    induction stamped generalizing ancestorIds parentId with
    | nil => rfl
    | cons first stamped ih =>
      obtain ⟨stamp, message⟩ := first
      rw [List.nil_append, chainEntries, compactionFindings, List.append_eq_nil_iff, findingIf_eq_nil]
      refine ⟨by simp [hasType_makeEntry, Payload.type], ?_⟩
      exact ih _ rfl
  | cons entry path ih =>
    rw [List.cons_append]
    unfold compactionFindings at h ⊢
    obtain ⟨hfirst, hrest⟩ := List.append_eq_nil_iff.mp h
    exact List.append_eq_nil_iff.mpr ⟨hfirst, ih hrest⟩

end Chain

/-! ## The inspection of a healthy file -/

section Inspected

variable {platform : Platform} {bytes : List UInt8} {s : Structure platform} {rest : List Finding}

theorem Inspected.of_healthy (h : Inspected platform bytes s rest) {header : FileEntry}
    {entries : List FileEntry} (hhealthy : Healthy platform (completePrefix bytes) header entries) :
    rest = [] ∧ s.entries.map ParsedEntry.entry = entries := by
  obtain ⟨cycles, hcycles, -, heq⟩ := inspectStructure_eq platform bytes
  obtain ⟨hnil, hentries, -⟩ := restFindings_of_healthy hhealthy hcycles
  obtain rfl := Except.ok.inj (h.inspect.symm.trans heq)
  have hfindings := h.findings
  rw [hnil] at hfindings
  exact ⟨(List.append_cancel_left hfindings).symm, hentries⟩

/-- A complete healthy file passes when its active branch does. -/
theorem ok_of_healthy {header : FileEntry} {entries path : List FileEntry} {context : SessionContext}
    {messages : List Agent.AgentMessage} (hhealthy : Healthy platform bytes header entries)
    (hcomplete : Complete bytes) (hpath : RootPath entries path)
    (hcompactions : compactionFindings [] path = [])
    (hcontext : pathContext platform path = .ok context)
    (hmessages : transcriptOf context.messages = .ok messages)
    (hok : (Agent.inspectTranscriptIntegrity messages).ok = true) :
    ∃ report, inspectSessionIntegrity platform bytes = .ok report ∧ report.ok = true := by
  obtain ⟨s, rest, hs⟩ := exists_inspected platform bytes
  obtain ⟨hrest, hentries⟩ := hs.of_healthy (hcomplete.2.symm ▸ hhealthy)
  obtain ⟨report, hreport⟩ := inspectSessionIntegrity_ok platform bytes none
  refine ⟨report, hreport, ?_⟩
  obtain ⟨branch, hbranch, hcontextPath, hlast, hchain, hmem⟩ :=
    hhealthy.forest.branchOf_eq (hentries ▸ selectedLeaf_mem s.entries)
  have hleaf := hs.leafEntry_eq hrest
  rw [hentries] at hleaf
  obtain rfl : branch = path := by
    refine hhealthy.forest.rootPath_unique ?_ hpath
    exact hhealthy.forest.rootPath_iff.mpr ⟨hchain, hmem, hlast.trans hleaf⟩
  have hpart : branchPart platform s (selectedLeaf s.entries none) =
      .ok ⟨[], branch, context.messages, some (Agent.inspectTranscriptIntegrity messages)⟩ := by
    have htranscript : branchTranscript platform entries (selectedLeaf s.entries none)
        (indexEntries entries) =
          .ok (context.messages, Agent.inspectTranscriptIntegrity messages) := by
      unfold branchTranscript
      rw [buildSessionContext_eq, hcontextPath, ok_bind, hcontext, ok_bind, hmessages, ok_bind]
      rfl
    rw [hs.branchPart_eq hrest, hentries]
    unfold inspectBranch
    simp only [hbranch, hcompactions, List.isEmpty_nil, Bool.not_true, Bool.false_eq_true, if_false,
      htranscript, (Agent.ok_iff_issues_eq_nil messages).mp hok, List.map_nil]
  unfold inspectSessionIntegrity at hreport
  rw [hs.inspect, ok_bind] at hreport
  simp only [hpart, ok_bind] at hreport
  obtain rfl := Except.ok.inj hreport
  have hfragment : s.fragment = [] := by
    rw [hs.fragment, hcomplete.2, List.drop_length]
  show (s.findings ++ []).isEmpty = true
  rw [hs.findings, hfragment, hrest]
  rfl

end Inspected

end CodingAgent.Integrity
