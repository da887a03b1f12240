import OmkVerified.CodingAgent.Session.Proofs.StorableProofs

/-!
# The invariant of a session

In every run of a manager the entries have distinct ids, each names an earlier one as its parent,
the leaf is one of them, the maps are those of the entries, and the file of a flushed session holds
the entries. The one exception is `createBranchedSession` on a path in which an entry hangs on a
label that is dropped: the run must not branch there.
-/

namespace CodingAgent

open Lib

/-! ## Runs -/

/-- The arguments with which an operation appends an entry. -/
def Operation.appends (m : Manager) : Operation → Option (Environment × Payload × Option Json)
  | .appendMessage env message => some (env, .message message, m.leafId)
  | .appendThinkingLevelChange env level => some (env, .thinkingLevelChange level, m.leafId)
  | .appendModelChange env provider modelId => some (env, .modelChange provider modelId, m.leafId)
  | .appendCompaction env summary firstKept tokens details fromHook =>
    some (env, .compaction summary firstKept tokens details fromHook, m.leafId)
  | .appendCustomEntry env customType data => some (env, .custom customType data, m.leafId)
  | .appendSessionInfo env name =>
    some (env, .sessionInfo (String.ofList (trim name.toList)), m.leafId)
  | .appendCustomMessageEntry env customType content display details =>
    some (env, .customMessage customType content display details, m.leafId)
  | .appendLabelChange env targetId label => some (env, .label targetId label, m.leafId)
  | .branchWithSummary env branchFromId summary details fromHook =>
    some (env, .branchSummary (branchFromId.getD "root") summary details fromHook,
      some (nullable branchFromId))
  | .branch _ => none
  | .resetLeaf => none
  | .createBranchedSession _ _ => none

/-- What an append relies on: the entry is a JSON value, its id is new, and the file stays shorter
than the largest safe integer. -/
structure AppendSuits (w : World) (env : Environment) (payload : Payload)
    (parentId : Option Json) : Prop where
  wellFormed : payload.WellFormed
  fresh : w.manager.byId.has (some (.str (w.manager.newId env))) = false
  size : Utf8.byteLength (serializeFileEntries (w.manager.fileEntries ++
    [makeEntry payload (w.manager.newId env) parentId env.now])) ≤ maxSafeInteger

/-- What an operation relies on. -/
structure Operation.Suits (platform : Platform) (w : World) (op : Operation) : Prop where
  appends : ∀ env payload parentId, op.appends w.manager = some (env, payload, parentId) →
    AppendSuits w env payload parentId
  branches : ∀ env leafId, op = .createBranchedSession env leafId → env.Suits platform w leafId

/-- No copied entry of the path to `leafId` hangs on a label that is dropped. -/
def NoGap (w : World) (leafId : String) : Prop :=
  ∀ path referenced, w.manager.getBranch (some (.str leafId)) = .ok path →
    referencedIds path = .ok referenced →
      ∀ e ∈ keptOf referenced path, NamesParent (keptOf referenced path) e

/-- The bytes of a file that a manager wrote. -/
structure Written (bytes : List UInt8) (records : List FileEntry) : Prop where
  bytes_eq : bytes = Utf8.encode (serializeFileEntries records)
  header : ∃ header id entries, records = header :: entries ∧ isSession header = true ∧
    entryId header = some (.str id) ∧ versionBelow header currentSessionVersion = false ∧
    ∀ e ∈ entries, isSession e = false
  storable : ∀ e ∈ records, Storable e
  ordered : Ordered (records.filter fun e => !isSession e)

/-- The runs of a manager that is the only writer of its file; `canBranch` says where
`createBranchedSession` is called. -/
inductive ManagerRun (platform : Platform) (canBranch : World → String → Prop) : World → Prop
  | fresh (disk : Disk) (cwd sessionDir : String) (persist : Bool) (id timestamp : String)
      (parentSession : Option String) :
      ManagerRun platform canBranch
        ⟨disk, newSession platform cwd sessionDir persist id timestamp parentSession⟩
  | opened {env : OpenEnvironment} {path cwd dir : String} {disk disk' : Disk} {m : Manager}
      {file : DiskFile} {records : List FileEntry} (hfile : disk.get? path = some file)
      (hwritten : Written file.bytes records)
      (h : openSession platform env path cwd dir disk = (disk', .ok m)) :
      ManagerRun platform canBranch ⟨disk', m⟩
  | step {w : World} (h : ManagerRun platform canBranch w) (op : Operation)
      (hsuits : op.Suits platform w)
      (hbranch : ∀ env leafId, op = .createBranchedSession env leafId → canBranch w leafId) :
      ManagerRun platform canBranch (op.run platform w)

/-- What every state keeps. -/
structure SessionInvariant (w : World) : Prop where
  distinct : (w.manager.getEntries.map entryId).Nodup
  parents : ∀ front e back, w.manager.getEntries = front ++ e :: back → NamesParent front e
  leaf : w.manager.leafId = some .null ∨ w.manager.leafId ∈ w.manager.getEntries.map entryId
  indexed : Indexed w.manager
  header : ∃ header, isSession header = true ∧
    w.manager.fileEntries = header :: w.manager.getEntries
  file : w.manager.flushed = true → ∃ path file, w.manager.sessionFile = some path ∧
    w.disk.get? path = some file ∧
    file.bytes = Utf8.encode (serializeFileEntries w.manager.fileEntries) ∧
    loadEntries file.bytes = w.manager.fileEntries

/-! ## The invariant of the proof -/

/-- The invariant without the maps, and what it needs to be kept. -/
structure Consistent (w : World) : Prop where
  header : ∃ header id, isSession header = true ∧ entryId header = some (.str id) ∧
    versionBelow header currentSessionVersion = false ∧
    w.manager.fileEntries = header :: w.manager.getEntries
  storable : ∀ e ∈ w.manager.fileEntries, Storable e
  ordered : Ordered w.manager.getEntries
  leaf : w.manager.leafId = some .null ∨ w.manager.leafId ∈ w.manager.getEntries.map entryId
  unflushed : w.manager.flushed = false → w.manager.acceptedDurableHead = none
  flushed : w.manager.flushed = true → w.manager.persist = true ∧ ∃ path file,
    w.manager.sessionFile = some path ∧ w.disk.get? path = some file ∧
    file.bytes = Utf8.encode (serializeFileEntries w.manager.fileEntries)
  metadata : w.manager.flushed = true →
    ∀ id ∈ headerId w.manager.fileEntries, MetadataText maxMetadataLength id

variable {entry : FileEntry} {w w' : World} {platform : Platform} {env : Environment}
  {records : List FileEntry}

theorem getEntries_accept (m : Manager) (h : isSession entry = false) :
    (m.accept entry).getEntries = m.getEntries ++ [entry] := by
  unfold Manager.getEntries Manager.accept
  simp [h]

theorem Consistent.hasHeader (h : Consistent w) : hasHeader w.manager.fileEntries = true := by
  obtain ⟨header, id, hsession, hid, -, heq⟩ := h.header
  rw [heq]
  simp [CodingAgent.hasHeader, hsession, hid]

theorem Consistent.entries_ne_nil (h : Consistent w) : w.manager.fileEntries ≠ [] := by
  obtain ⟨header, id, -, -, -, heq⟩ := h.header
  rw [heq]
  simp

theorem Consistent.invariant (h : Consistent w) (hindexed : Indexed w.manager) :
    SessionInvariant w where
  distinct := h.ordered.nodup
  parents := h.ordered.parents
  leaf := h.leaf
  indexed := hindexed
  header := by
    obtain ⟨header, -, hsession, -, -, heq⟩ := h.header
    exact ⟨header, hsession, heq⟩
  file := by
    intro hflushed
    obtain ⟨-, path, file, hpath, hfile, hbytes⟩ := h.flushed hflushed
    refine ⟨path, file, hpath, hfile, hbytes, ?_⟩
    rw [hbytes]
    exact loadEntries_serialize h.hasHeader h.storable

/-- The invariant does not depend on the maps. -/
theorem Consistent.congr (h : Consistent w) (hdisk : w'.disk = w.disk)
    (hentries : w'.manager.fileEntries = w.manager.fileEntries)
    (hleaf : w'.manager.leafId = w.manager.leafId)
    (hflushed : w'.manager.flushed = w.manager.flushed)
    (hpersist : w'.manager.persist = w.manager.persist)
    (hfile : w'.manager.sessionFile = w.manager.sessionFile)
    (hhead : w'.manager.acceptedDurableHead = w.manager.acceptedDurableHead) : Consistent w' := by
  have hget : w'.manager.getEntries = w.manager.getEntries := by
    unfold Manager.getEntries
    rw [hentries]
  refine ⟨?_, ?_, ?_, ?_, ?_, ?_, ?_⟩
  · rw [hentries, hget]
    exact h.header
  · rw [hentries]
    exact h.storable
  · rw [hget]
    exact h.ordered
  · rw [hleaf, hget]
    exact h.leaf
  · rw [hflushed, hhead]
    exact h.unflushed
  · rw [hflushed, hpersist, hfile, hdisk, hentries]
    exact h.flushed
  · rw [hflushed, hentries]
    exact h.metadata

/-! ## Appending -/

/-- What an appended entry is. -/
structure Appendable (m : Manager) (entry : FileEntry) : Prop where
  session : isSession entry = false
  storable : Storable entry
  id : ∃ id, entryId entry = some (.str id) ∧ UuidText id
  fresh : entryId entry ∉ m.getEntries.map entryId
  parent : NamesParent m.getEntries entry

variable {disk : Disk} {entries : List FileEntry} {payload : Payload} {parentId : Option Json}
  {m : Manager}

/-- Memory after an entry was accepted. -/
theorem Consistent.accept (h : Consistent w) (hentry : Appendable w.manager entry)
    {head : Option DurableHead} {flushed : Bool} (hunflushed : flushed = false → head = none)
    (hflushed : flushed = true → w.manager.persist = true ∧ ∃ path file,
      w.manager.sessionFile = some path ∧ disk.get? path = some file ∧
      file.bytes = Utf8.encode (serializeFileEntries (w.manager.fileEntries ++ [entry])))
    (hmetadata : flushed = true →
      ∀ id ∈ headerId w.manager.fileEntries, MetadataText maxMetadataLength id) :
    Consistent
      ⟨disk, { w.manager.accept entry with acceptedDurableHead := head, flushed := flushed }⟩ := by
  obtain ⟨header, id, hsession, hid, hversion, heq⟩ := h.header
  obtain ⟨entryText, hentryId, huuid⟩ := hentry.id
  have hget : Manager.getEntries
      { w.manager.accept entry with acceptedDurableHead := head, flushed := flushed } =
      w.manager.getEntries ++ [entry] := getEntries_accept w.manager hentry.session
  refine ⟨⟨header, id, hsession, hid, hversion, ?_⟩, ?_, ?_, ?_, hunflushed, hflushed, ?_⟩
  · rw [hget]
    show w.manager.fileEntries ++ [entry] = _
    rw [heq, List.cons_append]
  · intro e he
    rcases List.mem_append.mp (show e ∈ w.manager.fileEntries ++ [entry] from he) with he | he
    · exact h.storable e he
    · rw [List.mem_singleton.mp he]
      exact hentry.storable
  · rw [hget]
    refine h.ordered.concat ?_ hentry.fresh hentry.parent
    rw [hentryId]
    exact isKey_str huuid.ne_empty
  · right
    rw [hget]
    show entryId entry ∈ _
    simp
  · intro htrue
    have hheader : headerId (w.manager.fileEntries ++ [entry]) = headerId w.manager.fileEntries := by
      rw [heq]
      rfl
    show ∀ id ∈ headerId (w.manager.fileEntries ++ [entry]), _
    rw [hheader]
    exact hmetadata htrue

theorem lastString_append {id : String} (hsession : isSession entry = false)
    (hid : entryId entry = some (.str id)) : lastString (entries ++ [entry]) = some id := by
  unfold lastString lastStringId
  simp [hsession, hid]

theorem headerId_of_consistent (h : Consistent w) :
    ∃ id, headerId w.manager.fileEntries = some id := by
  obtain ⟨header, id, hsession, hid, -, heq⟩ := h.header
  exact ⟨id, by rw [heq]; exact headerId_cons hsession hid _⟩

theorem headerId_append {id : String} (h : headerId entries = some id) (entry : FileEntry) :
    headerId (entries ++ [entry]) = some id := by
  cases entries with
  | nil => exact absurd h (by simp [headerId])
  | cons header entries => exact h

/-- The head of the file after an entry was written behind the others. -/
theorem head_appended (platform : Platform) (h : Consistent w) (hentry : Appendable w.manager entry)
    {path : String} {generation : Generation}
    (hfile : disk.get? path =
      some ⟨Utf8.encode (serializeFileEntries (w.manager.fileEntries ++ [entry])), generation⟩)
    (hmetadata : ∀ id ∈ headerId w.manager.fileEntries, MetadataText maxMetadataLength id)
    (hsize : Utf8.byteLength (serializeFileEntries (w.manager.fileEntries ++ [entry])) ≤
      maxSafeInteger) :
    ∃ head, sessionDurableHeadFromFile platform disk path (entryId entry)
      (w.manager.fileEntries ++ [entry]) = .ok (some head) := by
  obtain ⟨id, hid⟩ := headerId_of_consistent h
  obtain ⟨text, htext, huuid⟩ := hentry.id
  have hok : (fileRevision platform
      ⟨Utf8.encode (serializeFileEntries (w.manager.fileEntries ++ [entry])), generation⟩ id
      (some text) (lastString (w.manager.fileEntries ++ [entry]))).Ok := by
    rw [lastString_append hentry.session htext]
    refine fileRevision_ok platform generation (by simp) (hmetadata id hid) hsize ?_ ?_
      (fun _ => rfl)
    · intro x hx
      obtain rfl := Option.some.inj hx
      exact huuid.metadataText
    · intro x hx
      obtain rfl := Option.some.inj hx
      exact huuid.metadataText
  exact ⟨_, (sessionDurableHeadFromFile_eq_ok hfile (headerId_append hid entry)).mpr
    ⟨some text, htext, hok, rfl⟩⟩

/-- `_appendEntry` keeps the state consistent, whether it returns or throws. -/
theorem Consistent.appendEntry (h : Consistent w) (hentry : Appendable w.manager entry)
    (hsize : Utf8.byteLength (serializeFileEntries (w.manager.fileEntries ++ [entry])) ≤
      maxSafeInteger) :
    Consistent (appendEntry platform env entry w).1 := by
  unfold CodingAgent.appendEntry
  split
  · rename_i path hpersist hpath
    split
    · exact h
    · rename_i haccepted
      unfold persistEntry
      simp only
      cases hassistant : hasAssistant (w.manager.fileEntries ++ [entry]) with
      | error e => exact h
      | ok assistant =>
        simp only
        by_cases hflushed : w.manager.flushed = true
        · -- a line is appended to the file
          rw [if_pos hflushed]
          obtain ⟨-, path', file, hpath', hfile, hbytes⟩ := h.flushed hflushed
          obtain rfl : path = path' := Option.some.inj (hpath.symm.trans hpath')
          have hnew : (appendFile w.disk path (entryLine entry) env.generation).get? path =
              some ⟨Utf8.encode (serializeFileEntries (w.manager.fileEntries ++ [entry])),
                env.generation⟩ := by
            unfold appendFile
            simp only [hfile, Option.map_some, Option.getD_some, OrderedMap.get?_set, if_true, hbytes]
            rw [encode_serialize_append h.entries_ne_nil]
          obtain ⟨head, hhead⟩ := head_appended platform h hentry hnew
            (h.metadata hflushed) hsize
          simp only [hhead, Except.map]
          exact h.accept hentry (by simp)
            (fun _ => ⟨hpersist, path, _, hpath, hnew, rfl⟩) (fun _ => h.metadata hflushed)
        · rw [if_neg hflushed]
          rw [Bool.not_eq_true] at hflushed
          cases assistant with
          | true =>
            -- the first flush writes the whole session
            have hnew : (rewriteFile w.disk path (w.manager.fileEntries ++ [entry])
                env.generation).get? path =
                some ⟨Utf8.encode (serializeFileEntries (w.manager.fileEntries ++ [entry])),
                  env.generation⟩ := by
              unfold rewriteFile
              rw [OrderedMap.get?_set, if_pos rfl]
            obtain ⟨id, hid⟩ := headerId_of_consistent h
            simp only [if_true]
            cases hhead : sessionDurableHeadFromFile platform
                (rewriteFile w.disk path (w.manager.fileEntries ++ [entry]) env.generation) path
                (entryId entry) (w.manager.fileEntries ++ [entry]) with
            | error e =>
              simp only [Except.map]
              refine ⟨h.header, h.storable, h.ordered, h.leaf, h.unflushed, ?_, ?_⟩
              · intro htrue
                exact absurd (hflushed.symm.trans htrue) (by simp)
              · intro htrue
                exact absurd (hflushed.symm.trans htrue) (by simp)
            | ok head =>
              obtain ⟨leafId, -, hok, rfl⟩ :=
                (sessionDurableHeadFromFile_eq_ok hnew (headerId_append hid entry)).mp hhead
              simp only [Except.map]
              refine h.accept hentry (by simp) (fun _ => ⟨hpersist, path, _, hpath, hnew, rfl⟩) ?_
              intro _ id' hid'
              obtain rfl : id = id' := Option.some.inj (hid.symm.trans hid')
              exact hok.sessionId
          | false =>
            simp only [Bool.false_eq_true, if_false]
            exact h.accept hentry (fun _ => h.unflushed hflushed) (by simp) (by simp)
  · rename_i hnot
    have hflushed : w.manager.flushed = false := by
      by_contra hflushed
      obtain ⟨hpersist, path, -, hpath, -⟩ := h.flushed (by simpa using hflushed)
      exact hnot path hpersist hpath
    exact h.accept hentry (fun _ => h.unflushed hflushed)
      (fun htrue => absurd (hflushed.symm.trans htrue) (by simp))
      (fun htrue => absurd (hflushed.symm.trans htrue) (by simp))

theorem appendable_makeEntry (hindexed : Indexed w.manager)
    (hsuits : AppendSuits w env payload parentId)
    (hparent : parentId = some .null ∨ parentId ∈ w.manager.getEntries.map entryId)
    (hstorable : ∀ e ∈ w.manager.fileEntries, Storable e) :
    Appendable w.manager (makeEntry payload (w.manager.newId env) parentId env.now) where
  session := isSession_makeEntry ..
  storable := by
    refine ⟨wellFormed_makeEntry hsuits.wellFormed _ ?_ _, truthy_makeEntry ..⟩
    rcases hparent with rfl | hmem
    · intro v hv
      obtain rfl := Option.some.inj hv
      exact trivial
    · obtain ⟨e, he, rfl⟩ := List.mem_map.mp hmem
      intro v hv
      exact wellFormed_of_get? (hstorable e (List.mem_filter.mp he).1).wellFormed hv
  id := ⟨_, entryId_makeEntry .., uuidText_generateId _ _⟩
  fresh := by
    rw [entryId_makeEntry, ← keys_indexEntries, ← hindexed.byId_eq]
    intro hmem
    rw [← OrderedMap.has_iff, hsuits.fresh] at hmem
    exact Bool.noConfusion hmem
  parent := by
    unfold NamesParent
    rw [entryParentId_makeEntry]
    rcases hparent with h | h
    · exact .inr (.inl h)
    · exact .inr (.inr h)

theorem Consistent.appendChild (h : Consistent w) (hindexed : Indexed w.manager)
    (hsuits : AppendSuits w env payload parentId)
    (hparent : parentId = some .null ∨ parentId ∈ w.manager.getEntries.map entryId) :
    Consistent (appendChild platform env payload parentId w).1 := by
  rw [appendChild_eq]
  exact h.appendEntry (appendable_makeEntry hindexed hsuits hparent h.storable) hsuits.size

/-- A label entry is appended like any other; the maps follow. -/
theorem Consistent.appendLabelChange (h : Consistent w) (hindexed : Indexed w.manager)
    {targetId : String} {label : Option String}
    (hsuits : AppendSuits w env (.label targetId label) w.manager.leafId) :
    Consistent (appendLabelChange platform env targetId label w).1 := by
  have happend : Consistent (appendPayload platform env (.label targetId label) w).1 :=
    h.appendChild hindexed hsuits h.leaf
  unfold CodingAgent.appendLabelChange
  split_ifs
  · cases hresult : appendPayload platform env (.label targetId label) w with
    | mk w' result =>
      rw [hresult] at happend
      cases result with
      | error e => exact happend
      | ok id =>
        refine happend.congr rfl rfl ?_ rfl rfl rfl rfl
        exact IndexState.applyLabel_leafId _ _ _ _
  · exact h

/-! ## Moving the leaf -/

theorem mem_ids_of_has (hindexed : Indexed m) {key : Option Json} (h : m.byId.has key = true) :
    key ∈ m.getEntries.map entryId := by
  rw [OrderedMap.has_iff, hindexed.byId_eq] at h
  exact (keys_indexEntries _ _).mp h

theorem Consistent.setLeaf (h : Consistent w) {leafId : Option Json}
    (hleaf : leafId = some .null ∨ leafId ∈ w.manager.getEntries.map entryId) :
    Consistent { w with manager := { w.manager with leafId := leafId } } :=
  ⟨h.header, h.storable, h.ordered, hleaf, h.unflushed, h.flushed, h.metadata⟩

/-! ## Branched sessions -/

theorem ordered_of_linked (h : Linked entries)
    (hroot : ∀ e ∈ entries.head?, entryParentId e = none ∨ entryParentId e = some .null) :
    Ordered entries where
  keys := h.keys
  nodup := h.nodup
  parents := by
    rintro front e back rfl
    cases hlast : front.getLast? with
    | none =>
      rw [List.getLast?_eq_none_iff.mp hlast] at hroot
      rcases hroot e (by simp) with hnone | hnull
      · exact .inl hnone
      · exact .inr (.inl hnull)
    | some last =>
      refine .inr (.inr ?_)
      rw [(List.isChain_append.mp h.links).2.2 last (by rw [hlast]; rfl) e (by simp)]
      exact List.mem_map_of_mem (List.mem_of_getLast? hlast)

/-- The records of a branched session. -/
structure BranchedRecords (env : BranchEnvironment) (m : Manager) (copied : List FileEntry) :
    Prop where
  session : ∀ e ∈ copied ++ branchLabels env m copied, isSession e = false
  storable : ∀ e ∈ branchRecords env m copied, Storable e
  ordered : Ordered (copied ++ branchLabels env m copied)

theorem branchedRecords {env : BranchEnvironment} {leafId : String} (hindexed : Indexed w.manager)
    (hstorable : ∀ e ∈ w.manager.fileEntries, Storable e) {path copied : List FileEntry}
    (henv : env.Suits platform w leafId) (hgap : NoGap w leafId)
    (hpath : w.manager.getBranch (some (.str leafId)) = .ok path) (hne : path ≠ [])
    (hcopied : rebindBranchedCompactionEnvelopes platform (branchHeader env w.manager)
      env.newSessionId.text path = .ok copied) :
    BranchedRecords env w.manager copied := by
  obtain ⟨hbranch, hstored⟩ := isBranch_of_getBranch hindexed hpath hne
  obtain ⟨referenced, hids, hrebind⟩ := bind_eq_ok.mp hcopied
  have hlinked := hgap path referenced hpath hids
  have hsame := copied_same hids hcopied
  obtain ⟨dropped, hpref, -⟩ := keptOf_prefix hbranch hlinked
  have hkept : Linked (keptOf referenced path) := by
    have hall := hbranch.linked
    rw [hpref] at hall
    exact hall.of_append
  have hpathStorable : ∀ e ∈ path, Storable e := by
    intro e he
    have hget := hstored.stored e he
    rw [hindexed.byId_eq] at hget
    exact hstorable e (List.mem_filter.mp (mem_of_get?_indexEntries hget).1).1
  have hcopiedStorable := storable_rebindFrom hpathStorable (by simp) hrebind
  refine ⟨?_, ?_, ?_⟩
  · apply isSession_branchEntries
    exact isSession_of_same hsame fun e he => hbranch.entries e (List.mem_filter.mp he).1
  · intro e he
    rcases List.mem_cons.mp he with rfl | he
    · exact ⟨wellFormed_sessionHeader .., truthy_sessionHeader ..⟩
    · rcases List.mem_append.mp he with he | he
      · exact hcopiedStorable e he
      · refine storable_makeLabelEntries env.uuids
          (wellFormed_labelsToWrite hindexed hstorable copied) _ ?_ _ e he
        unfold lastIdOrNull
        split
        · rename_i id hid
          obtain ⟨last, hlast, hlastId⟩ := Option.bind_eq_some_iff.mp hid
          split_ifs
          · exact wellFormed_of_get? (hcopiedStorable last (List.mem_of_getLast? hlast)).wellFormed
              hlastId
          · exact trivial
        · exact trivial
  · refine ordered_of_linked (linked_branchEntries (hkept.of_same hsame)
      (henv.fresh path copied hpath hcopied)) ?_
    refine root_of_same hsame (root_of_linked hbranch hlinked hpref) ?_
    intro hnil
    rw [hnil] at hsame
    cases hsame
    exact branchLabels_eq_nil env w.manager

/-- The manager that switched to the new session. -/
theorem consistent_switched {env : BranchEnvironment} {copied : List FileEntry}
    (h : BranchedRecords env m copied)
    (hentries : w'.manager.fileEntries = branchRecords env m copied)
    (hleaf : w'.manager.leafId = (buildIndex (branchRecords env m copied)).leafId)
    (hunflushed : w'.manager.flushed = false → w'.manager.acceptedDurableHead = none)
    (hflushed : w'.manager.flushed = true → w'.manager.persist = true ∧ ∃ path file,
      w'.manager.sessionFile = some path ∧ w'.disk.get? path = some file ∧
      file.bytes = Utf8.encode (serializeFileEntries (branchRecords env m copied))) :
    Consistent w' := by
  have hfilter : ((branchRecords env m copied).filter fun e => !isSession e) =
      copied ++ branchLabels env m copied :=
    filter_records (isSession_sessionHeader ..) h.session
  have hget : w'.manager.getEntries = copied ++ branchLabels env m copied := by
    unfold Manager.getEntries
    rw [hentries, hfilter]
  refine ⟨⟨branchHeader env m, env.newSessionId.text, isSession_sessionHeader ..,
    entryId_sessionHeader .., rfl, ?_⟩, ?_, ?_, ?_, hunflushed, ?_, ?_⟩
  · rw [hentries, hget]
    rfl
  · rw [hentries]
    exact h.storable
  · rw [hget]
    exact h.ordered
  · rw [hleaf, (buildIndex_eq _).2, hfilter, hget]
    unfold lastLeaf
    cases hlast : (copied ++ branchLabels env m copied).getLast? with
    | none => exact .inl rfl
    | some last => exact .inr (List.mem_map_of_mem (List.mem_of_getLast? hlast))
  · rw [hentries]
    exact hflushed
  · intro _ id hid
    rw [hentries] at hid
    have hheader : headerId (branchRecords env m copied) = some env.newSessionId.text :=
      headerId_cons (isSession_sessionHeader ..) (entryId_sessionHeader ..) _
    obtain rfl := Option.some.inj (hheader.symm.trans hid)
    exact env.newSessionId.metadataText

/-- `createBranchedSession` keeps the state consistent on a path without gaps. -/
theorem Consistent.createBranchedSession {platform : Platform} {env : BranchEnvironment}
    {w : World} {leafId : String} (h : Consistent w) (hindexed : Indexed w.manager)
    (henv : env.Suits platform w leafId) (hgap : NoGap w leafId) :
    Consistent (createBranchedSession platform env leafId w).1 := by
  unfold CodingAgent.createBranchedSession
  split
  · exact h
  · exact h
  · rename_i path hne hpath
    split
    · exact h
    · rename_i copied hcopied
      have hrecords := branchedRecords hindexed h.storable henv hgap hpath (fun hnil => hne hnil)
        hcopied
      split_ifs with hpersist
      · unfold switchPersisted
        simp only
        split
        · exact h
        · exact consistent_switched hrecords rfl rfl (fun _ => rfl) (by simp)
        · split_ifs
          · exact h
          · have hnew : (rewriteFile w.disk (branchPath platform env w.manager)
                (branchRecords env w.manager copied) env.generation).get?
                  (branchPath platform env w.manager) =
                some ⟨Utf8.encode (serializeFileEntries (branchRecords env w.manager copied)),
                  env.generation⟩ := by
              unfold rewriteFile
              rw [OrderedMap.get?_set, if_pos rfl]
            split
            · -- the new file stays, and the manager with its own file
              refine ⟨h.header, h.storable, h.ordered, h.leaf, h.unflushed, ?_, h.metadata⟩
              intro htrue
              obtain ⟨hp, file, diskFile, hfile, hget, hbytes⟩ := h.flushed htrue
              refine ⟨hp, file, diskFile, hfile, ?_, hbytes⟩
              have hother : file ≠ branchPath platform env w.manager := by
                rintro rfl
                have hfree := henv.pathFree
                rw [← Bool.not_eq_true, OrderedMap.has_iff, ← OrderedMap.get?_eq_none_iff, hget]
                  at hfree
                exact absurd hfree (by simp)
              unfold rewriteFile
              rw [OrderedMap.get?_set, if_neg hother]
              exact hget
            · exact consistent_switched hrecords rfl rfl (by simp)
                (fun _ => ⟨hpersist, _, _, rfl, hnew, rfl⟩)
      · have hflushed : w.manager.flushed = false := by
          by_contra hflushed
          exact hpersist (h.flushed (by simpa using hflushed)).1
        refine consistent_switched hrecords rfl rfl (fun _ => h.unflushed hflushed) ?_
        intro htrue
        exact absurd (hflushed.symm.trans htrue) (by simp)

/-! ## Whole runs -/

/-- Each operation keeps the state consistent. -/
theorem Consistent.run (h : Consistent w) (hindexed : Indexed w.manager) {op : Operation}
    (hsuits : op.Suits platform w)
    (hgap : ∀ env leafId, op = .createBranchedSession env leafId → NoGap w leafId) :
    Consistent (op.run platform w) := by
  cases op with
  | appendMessage env message =>
    exact h.appendChild hindexed (hsuits.appends _ _ _ rfl) h.leaf
  | appendThinkingLevelChange env level =>
    exact h.appendChild hindexed (hsuits.appends _ _ _ rfl) h.leaf
  | appendModelChange env provider modelId =>
    exact h.appendChild hindexed (hsuits.appends _ _ _ rfl) h.leaf
  | appendCompaction env summary firstKept tokens details fromHook =>
    exact h.appendChild hindexed (hsuits.appends _ _ _ rfl) h.leaf
  | appendCustomEntry env customType data =>
    exact h.appendChild hindexed (hsuits.appends _ _ _ rfl) h.leaf
  | appendSessionInfo env name =>
    exact h.appendChild hindexed (hsuits.appends _ _ _ rfl) h.leaf
  | appendCustomMessageEntry env customType content display details =>
    exact h.appendChild hindexed (hsuits.appends _ _ _ rfl) h.leaf
  | appendLabelChange env targetId label =>
    exact h.appendLabelChange hindexed (hsuits.appends _ _ _ rfl)
  | branch branchFromId =>
    show Consistent (branch branchFromId w).1
    unfold branch
    split_ifs with hhas
    · exact h.setLeaf (.inr (mem_ids_of_has hindexed hhas))
    · exact h
  | resetLeaf => exact h.setLeaf (.inl rfl)
  | branchWithSummary env branchFromId summary details fromHook =>
    show Consistent (branchWithSummary platform env branchFromId summary details fromHook w).1
    unfold branchWithSummary
    split_ifs with hhas
    · refine h.appendChild hindexed (hsuits.appends _ _ _ rfl) ?_
      cases branchFromId with
      | none => exact .inl rfl
      | some id =>
        have hid : w.manager.byId.has (some (.str id)) = true := by simpa using hhas
        exact .inr (mem_ids_of_has hindexed hid)
    · exact h
  | createBranchedSession env leafId =>
    exact h.createBranchedSession hindexed (hsuits.branches env leafId rfl) (hgap env leafId rfl)

theorem consistent_fresh (platform : Platform) (disk : Disk) (cwd sessionDir : String)
    (persist : Bool) (id timestamp : String) (parentSession : Option String) :
    Consistent ⟨disk, newSession platform cwd sessionDir persist id timestamp parentSession⟩ := by
  have hget : (newSession platform cwd sessionDir persist id timestamp parentSession).getEntries =
      [] := by
    unfold Manager.getEntries newSession
    simp
  refine ⟨⟨sessionHeader id timestamp cwd parentSession, id, isSession_sessionHeader ..,
    entryId_sessionHeader .., rfl, ?_⟩, ?_, ?_, .inl rfl, fun _ => rfl, ?_, ?_⟩
  · rw [hget]
    rfl
  · intro e he
    obtain rfl := List.mem_singleton.mp he
    exact ⟨wellFormed_sessionHeader .., truthy_sessionHeader ..⟩
  · rw [hget]
    exact ordered_nil
  · intro htrue
    exact absurd htrue (by simp [newSession])
  · intro htrue
    exact absurd htrue (by simp [newSession])

theorem Written.hasHeader {bytes : List UInt8} (h : Written bytes records) :
    hasHeader records = true := by
  obtain ⟨header, id, entries, rfl, hsession, hid, -⟩ := h.header
  simp [CodingAgent.hasHeader, hsession, hid]

theorem Written.loadEntries_eq {bytes : List UInt8} (h : Written bytes records) :
    loadEntries bytes = records := by
  rw [h.bytes_eq]
  exact loadEntries_serialize h.hasHeader h.storable

theorem Written.hasCompleteTail {bytes : List UInt8} (h : Written bytes records) :
    hasCompleteTail bytes = true := by
  rw [h.bytes_eq]
  unfold CodingAgent.hasCompleteTail serializeFileEntries
  rw [Utf8.encode_append]
  have hlast : Utf8.encode ['\n'] = [0x0a] := by decide
  rw [hlast, List.getLast?_append]
  rfl

/-- Opening a file that a manager wrote. -/
theorem consistent_opened {env : OpenEnvironment} {path cwd dir : String} {disk' : Disk}
    {file : DiskFile} (hfile : disk.get? path = some file) (hwritten : Written file.bytes records)
    (h : openSession platform env path cwd dir disk = (disk', .ok m)) : Consistent ⟨disk', m⟩ := by
  obtain ⟨header, id, entries, hrecords, hsession, hid, hversion, hentries⟩ := hwritten.header
  have hheader : headerId records = some id := by
    rw [hrecords]
    exact headerId_cons hsession hid _
  have hfilter : (records.filter fun e => !isSession e) = entries := by
    rw [hrecords]
    exact filter_records hsession hentries
  unfold openSession at h
  rw [hfile] at h
  simp only at h
  split at h
  · exact absurd (Prod.mk.inj h).2 (by simp)
  · rename_i snapshot after hquarantine
    -- the file is complete, so there is nothing to move
    unfold quarantineSessionTrailingFragment at hquarantine
    obtain ⟨_, -, hquarantine⟩ := bind_eq_ok.mp hquarantine
    rw [if_pos hwritten.hasCompleteTail] at hquarantine
    obtain ⟨rfl, rfl⟩ := Prod.mk.inj (Except.ok.inj hquarantine)
    simp only [Option.getD_none, hwritten.loadEntries_eq, hheader] at h
    unfold acceptEntries at h
    have hneeds : versionBelow (records.headD .null) currentSessionVersion = false := by
      rw [hrecords]
      exact hversion
    have hmigrate : migrateToCurrentVersion env.uuids records = .ok (records, false) := by
      unfold migrateToCurrentVersion
      have hfind : records.find? isSession = some header := by
        rw [hrecords, List.find?_cons_of_pos hsession]
      simp only [hfind, Option.getD_some, hversion, Bool.false_eq_true, if_false]
      rfl
    simp only [hneeds, Bool.false_eq_true, if_false, hmigrate] at h
    split at h
    · exact absurd (Prod.mk.inj h).2 (by simp)
    · rename_i entries' migrated haccepted
      obtain ⟨_, -, haccepted⟩ := bind_eq_ok.mp haccepted
      obtain ⟨rfl, rfl⟩ := Prod.mk.inj (Except.ok.inj haccepted)
      simp only [Bool.false_eq_true, if_false] at h
      obtain ⟨rfl, hm⟩ := Prod.mk.inj h
      obtain ⟨head, hhead, hm⟩ := bind_eq_ok.mp hm
      obtain rfl := Except.ok.inj hm
      obtain ⟨leafId, -, hok, rfl⟩ := (sessionDurableHeadFromFile_eq_ok hfile hheader).mp hhead
      have hget : (openedManager path cwd dir id records
          (some ⟨fileRevision platform file id leafId (lastString records),
            file.generation⟩)).getEntries = entries := hfilter
      refine ⟨⟨header, id, hsession, hid, hversion, ?_⟩, hwritten.storable, ?_, ?_, ?_, ?_, ?_⟩
      · rw [hget]
        exact hrecords
      · rw [hget, ← hfilter]
        exact hwritten.ordered
      · rw [hget]
        show (buildIndex records).leafId = _ ∨ (buildIndex records).leafId ∈ _
        rw [(buildIndex_eq _).2, hfilter]
        unfold lastLeaf
        cases hlast : entries.getLast? with
        | none => exact .inl rfl
        | some last => exact .inr (List.mem_map_of_mem (List.mem_of_getLast? hlast))
      · intro hfalse
        exact absurd hfalse (by simp [openedManager])
      · intro _
        exact ⟨rfl, path, file, rfl, hfile, hwritten.bytes_eq⟩
      · intro _ id' hid'
        obtain rfl : id = id' := Option.some.inj (hheader.symm.trans hid')
        exact hok.sessionId

theorem ManagerRun.reachable {canBranch : World → String → Prop}
    (h : ManagerRun platform canBranch w) : Reachable platform w := by
  induction h with
  | fresh disk cwd dir persist id timestamp parent => exact .fresh ..
  | opened _ _ h => exact .opened h
  | step _ op _ _ ih => exact .step ih op

theorem ManagerRun.consistent (h : ManagerRun platform NoGap w) : Consistent w := by
  induction h with
  | fresh disk cwd dir persist id timestamp parent => exact consistent_fresh ..
  | opened hfile hwritten h => exact consistent_opened hfile hwritten h
  | step hrun op hsuits hgap ih => exact ih.run hrun.reachable.indexed hsuits hgap

/-- Every state of a run that branches only on paths without gaps keeps the invariant. -/
theorem managerRun_invariant {platform : Platform} {w : World}
    (h : ManagerRun platform NoGap w) : SessionInvariant w :=
  h.consistent.invariant h.reachable.indexed

/-! ## Runs -/

theorem suits_append {op : Operation} (hop : op.appends w.manager = some (env, payload, parentId))
    (hsuits : AppendSuits w env payload parentId) : op.Suits platform w where
  appends := by
    intro env' payload' parentId' h
    obtain ⟨rfl, rfl, rfl⟩ : env = env' ∧ payload = payload' ∧ parentId = parentId' := by
      simpa using Option.some.inj (hop.symm.trans h)
    exact hsuits
  branches := by
    rintro env' leafId rfl
    exact absurd hop (by simp [Operation.appends])

theorem managerRun_sampleWorld (canBranch : World → String → Prop) (persist : Bool) :
    ManagerRun samplePlatform canBranch (sampleWorld persist) := by
  refine .step (.fresh ..) _ (suits_append rfl ⟨?_, ?_, ?_⟩) (by simp)
  · exact ⟨by decide, trivial, trivial, trivial⟩
  · cases persist <;> decide +kernel
  · cases persist <;> decide +kernel

theorem managerRun_labelledWorld (canBranch : World → String → Prop) :
    ManagerRun samplePlatform canBranch labelledWorld := by
  have hlabel : ManagerRun samplePlatform canBranch (Operation.run samplePlatform (sampleWorld false)
      (.appendLabelChange (sampleEnvironment 2) "11111111" (some "x"))) := by
    refine .step (managerRun_sampleWorld canBranch false) _ (suits_append rfl ⟨?_, ?_, ?_⟩) (by simp)
    · exact trivial
    · decide +kernel
    · decide +kernel
  refine .step hlabel _ (suits_append rfl ⟨?_, ?_, ?_⟩) (by simp)
  · exact ⟨by decide, trivial, trivial, trivial⟩
  · decide +kernel
  · decide +kernel

/-- The session that `createBranchedSession` makes of a labelled one. -/
def branchedWorld : World :=
  Operation.run samplePlatform labelledWorld
    (.createBranchedSession sampleBranchEnvironment "33333333")

/-- Its second message has a parent that is not in the session. -/
theorem managerRun_dangling_parent :
    ManagerRun samplePlatform (fun _ _ => True) branchedWorld ∧ ¬SessionInvariant branchedWorld := by
  refine ⟨.step (managerRun_labelledWorld _) _ ⟨by simp [Operation.appends], ?_⟩ (fun _ _ _ => trivial),
    ?_⟩
  · intro env leafId heq
    obtain ⟨rfl, rfl⟩ := Operation.createBranchedSession.inj heq
    exact suits_labelledWorld
  · intro hinvariant
    obtain ⟨first, second, back, hsplit, hparent⟩ : ∃ first second back,
        branchedWorld.manager.getEntries = [first] ++ second :: back ∧
          entryParentId second = some (.str "22222222") ∧ entryId first = some (.str "11111111") :=
      ⟨_, _, _, rfl, rfl, rfl⟩
    rcases hinvariant.parents [first] second back hsplit with h | h | h
    · rw [hparent.1] at h
      exact absurd h (by simp)
    · rw [hparent.1] at h
      exact absurd h (by simp)
    · rw [hparent.1, List.map_singleton, hparent.2] at h
      exact absurd h (by decide)

/-- A session after its first flush. -/
def flushedWorld : World :=
  Operation.run samplePlatform (sampleWorld true)
    (.appendMessage (sampleEnvironment 2) (sampleMessage "assistant" "b"))

theorem flushedWorld_invariant :
    flushedWorld.manager.flushed = true ∧ SessionInvariant flushedWorld := by
  refine ⟨by decide +kernel, managerRun_invariant (.step (managerRun_sampleWorld _ true) _
    (suits_append rfl ⟨?_, ?_, ?_⟩) (by simp))⟩
  · exact ⟨by decide, trivial, trivial, trivial⟩
  · decide +kernel
  · decide +kernel

end CodingAgent
