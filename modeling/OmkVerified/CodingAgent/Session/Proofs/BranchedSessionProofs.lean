import OmkVerified.CodingAgent.Session.Proofs.DiskProofs

/-!
# Branched sessions

`createBranchedSession` copies the path to an entry and drops the labels on it, without giving the
children of a dropped label another parent. The new session holds the old path, with the same
context, exactly when no copied entry is the child of a dropped label and the copied records can be
written.
-/

namespace CodingAgent

open Lib

/-! ## What is to be preserved -/

/-- The entries that are not labels. -/
def nonLabels (entries : List FileEntry) : List FileEntry :=
  entries.filter fun e => !hasType e "label"

/-- The new session holds the path of the old one. -/
structure BranchPreserved (platform : Platform) (old new : Manager) (leafId : String) : Prop where
  parents : ∀ e ∈ new.getEntries, NamesParent new.getEntries e
  branch : ∃ oldPath newPath, old.getBranch (some (.str leafId)) = .ok oldPath ∧
    new.getBranch none = .ok newPath ∧
    List.Forall₂ SameButEnvelope (nonLabels oldPath) (nonLabels newPath)
  context : (new.buildSessionContext platform).map SessionContext.messages =
    (old.contextAt platform (some (.str leafId))).map SessionContext.messages

/-- When a path can be copied: no copied entry hangs on an entry that is not copied, the envelopes
were made for the path, and a session with an assistant message has a leaf that a durable head can
name. -/
structure CanBranch (platform : Platform) (m : Manager) (path : List FileEntry)
    (referenced : List String) : Prop where
  ne_nil : path ≠ []
  ids : referencedIds path = .ok referenced
  linked : ∀ e ∈ keptOf referenced path, NamesParent (keptOf referenced path) e
  envelopes : EnvelopesMatch platform path
  readable : m.persist = true → ∃ assistant, hasAssistant path = .ok assistant
  leaf : m.persist = true → hasAssistant path = .ok true →
    labelsToWrite m (keptOf referenced path) ≠ [] ∨
      ∃ last id, (keptOf referenced path).getLast? = some last ∧ entryId last = some (.str id) ∧
        MetadataText maxMetadataLength id

/-- What `createBranchedSession` relies on: the new file does not exist, new ids are new, and the
texts it writes are shorter than the largest safe integer. -/
structure BranchEnvironment.Suits (env : BranchEnvironment) (platform : Platform) (w : World)
    (leafId : String) : Prop where
  pathFree : w.disk.has (branchPath platform env w.manager) = false
  fits : ∀ path, w.manager.getBranch (some (.str leafId)) = .ok path →
    RebindFits platform (branchHeader env w.manager) env.newSessionId.text path
  fresh : ∀ path copied, w.manager.getBranch (some (.str leafId)) = .ok path →
    rebindBranchedCompactionEnvelopes platform (branchHeader env w.manager) env.newSessionId.text
      path = .ok copied →
    FreshLabelIds env.uuids (labelsToWrite w.manager copied) (copied.map entryId) 0
  size : ∀ path copied, w.manager.getBranch (some (.str leafId)) = .ok path →
    rebindBranchedCompactionEnvelopes platform (branchHeader env w.manager) env.newSessionId.text
      path = .ok copied →
    Utf8.byteLength (serializeFileEntries (branchRecords env w.manager copied)) ≤ maxSafeInteger

/-! ## The new session -/

/-- The label entries of the new session. -/
def branchLabels (env : BranchEnvironment) (m : Manager) (copied : List FileEntry) :
    List FileEntry :=
  makeLabelEntries env.uuids (labelsToWrite m copied) (copied.map entryId) (lastIdOrNull copied) 0

theorem branchRecords_eq (env : BranchEnvironment) (m : Manager) (copied : List FileEntry) :
    branchRecords env m copied = branchHeader env m :: (copied ++ branchLabels env m copied) := rfl

variable {m m' : Manager} {as bs back labels entries : List FileEntry}

theorem hasType_branchLabels {env : BranchEnvironment} {copied : List FileEntry} :
    ∀ e ∈ branchLabels env m copied, hasType e "label" = true :=
  fun e he => (exists_of_mem_makeLabelEntries _ _ _ _ _ e he).1

theorem isSession_branchLabels {env : BranchEnvironment} {copied : List FileEntry} :
    ∀ e ∈ branchLabels env m copied, isSession e = false := by
  intro e he
  exact hasType_eq_false (hasType_branchLabels e he) (by decide)

/-- The entries and the index of a manager that holds the new session. -/
structure HoldsBranch (m' : Manager) (entries : List FileEntry) : Prop where
  entries_eq : m'.getEntries = entries
  byId_eq : m'.byId = indexEntries entries
  leafId_eq : m'.leafId = lastLeaf entries

theorem filter_records {header : FileEntry} (hheader : isSession header = true)
    (hentries : ∀ e ∈ entries, isSession e = false) :
    ((header :: entries).filter fun e => !isSession e) = entries := by
  rw [List.filter_cons_of_neg (by simp [hheader])]
  exact List.filter_eq_self.mpr fun e he => by simp [hentries e he]

theorem isSession_branchEntries {env : BranchEnvironment} {copied : List FileEntry}
    (hcopied : ∀ e ∈ copied, isSession e = false) :
    ∀ e ∈ copied ++ branchLabels env m copied, isSession e = false := by
  intro e he
  rcases List.mem_append.mp he with he | he
  · exact hcopied e he
  · exact isSession_branchLabels e he

theorem holdsBranch_switchTo {env : BranchEnvironment} {copied : List FileEntry}
    (hcopied : ∀ e ∈ copied, isSession e = false)
    (hentries : m'.fileEntries = branchRecords env m copied)
    (hbyId : m'.byId = (buildIndex (branchRecords env m copied)).byId)
    (hleaf : m'.leafId = (buildIndex (branchRecords env m copied)).leafId) :
    HoldsBranch m' (copied ++ branchLabels env m copied) := by
  have hfilter : ((branchRecords env m copied).filter fun e => !isSession e) =
      copied ++ branchLabels env m copied :=
    filter_records (isSession_sessionHeader ..) (isSession_branchEntries hcopied)
  refine ⟨?_, ?_, ?_⟩
  · unfold Manager.getEntries
    rw [hentries, hfilter]
  · rw [hbyId, (buildIndex_eq _).1, hfilter]
  · rw [hleaf, (buildIndex_eq _).2, hfilter]

/-- When `createBranchedSession` returns. -/
structure BranchReturns (platform : Platform) (env : BranchEnvironment) (w : World)
    (copied : List FileEntry) : Prop where
  readable : w.manager.persist = true →
    ∃ assistant, hasAssistant (branchRecords env w.manager copied) = .ok assistant
  written : w.manager.persist = true →
    hasAssistant (branchRecords env w.manager copied) = .ok true →
    w.disk.has (branchPath platform env w.manager) = false ∧
      ∃ head, sessionDurableHeadFromFile platform
        (rewriteFile w.disk (branchPath platform env w.manager)
          (branchRecords env w.manager copied) env.generation)
        (branchPath platform env w.manager)
        (branchLeaf (branchRecords env w.manager copied) copied)
        (branchRecords env w.manager copied) = .ok head

/-- The manager after a return holds the new session. -/
theorem createBranchedSession_ok {platform : Platform} {env : BranchEnvironment} {leafId : String}
    {w w' : World} {file : Option String}
    (h : createBranchedSession platform env leafId w = (w', .ok file)) :
    ∃ path copied, w.manager.getBranch (some (.str leafId)) = .ok path ∧ path ≠ [] ∧
      rebindBranchedCompactionEnvelopes platform (branchHeader env w.manager)
        env.newSessionId.text path = .ok copied ∧
      BranchReturns platform env w copied ∧
      w'.manager.fileEntries = branchRecords env w.manager copied ∧
      w'.manager.byId = (buildIndex (branchRecords env w.manager copied)).byId ∧
      w'.manager.leafId = (buildIndex (branchRecords env w.manager copied)).leafId := by
  unfold createBranchedSession at h
  split at h
  · exact absurd (Prod.mk.inj h).2 (by simp)
  · exact absurd (Prod.mk.inj h).2 (by simp)
  · rename_i path hne hpath
    split at h
    · exact absurd (Prod.mk.inj h).2 (by simp)
    · rename_i copied hcopied
      refine ⟨path, copied, hpath, fun hnil => hne hnil, hcopied, ?_⟩
      split_ifs at h with hpersist
      · simp only [switchPersisted] at h
        split at h
        · exact absurd (Prod.mk.inj h).2 (by simp)
        · rename_i hassistant
          obtain ⟨rfl, -⟩ := Prod.mk.inj h
          refine ⟨⟨fun _ => ⟨false, hassistant⟩, fun _ htrue => ?_⟩, rfl, rfl, rfl⟩
          rw [hassistant] at htrue
          exact absurd htrue (by simp)
        · rename_i hassistant
          split_ifs at h with hexists
          · exact absurd (Prod.mk.inj h).2 (by simp)
          · split at h
            · exact absurd (Prod.mk.inj h).2 (by simp)
            · rename_i head hhead
              obtain ⟨rfl, -⟩ := Prod.mk.inj h
              exact ⟨⟨fun _ => ⟨true, hassistant⟩,
                fun _ _ => ⟨by simpa using hexists, head, hhead⟩⟩, rfl, rfl, rfl⟩
      · obtain ⟨rfl, -⟩ := Prod.mk.inj h
        exact ⟨⟨fun htrue => absurd htrue hpersist, fun htrue => absurd htrue hpersist⟩, rfl, rfl, rfl⟩

theorem createBranchedSession_isOk {platform : Platform} {env : BranchEnvironment} {leafId : String}
    {w : World} {path copied : List FileEntry}
    (hpath : w.manager.getBranch (some (.str leafId)) = .ok path) (hne : path ≠ [])
    (hcopied : rebindBranchedCompactionEnvelopes platform (branchHeader env w.manager)
      env.newSessionId.text path = .ok copied)
    (hreturns : BranchReturns platform env w copied) :
    ∃ w' file, createBranchedSession platform env leafId w = (w', .ok file) := by
  obtain ⟨first, rest, rfl⟩ := List.exists_cons_of_ne_nil hne
  unfold createBranchedSession
  simp only [hpath, hcopied]
  split_ifs with hpersist
  · obtain ⟨assistant, hassistant⟩ := hreturns.readable hpersist
    simp only [switchPersisted, hassistant]
    cases assistant with
    | false => exact ⟨_, _, rfl⟩
    | true =>
      obtain ⟨hfree, head, hhead⟩ := hreturns.written hpersist hassistant
      simp only [hfree, Bool.false_eq_true, if_false, hhead]
      exact ⟨_, _, rfl⟩
  · exact ⟨_, _, rfl⟩

/-! ## The copied path -/

theorem isBranch_of_getBranch (h : Indexed m) {leafId : String} {path : List FileEntry}
    (hpath : m.getBranch (some (.str leafId)) = .ok path) (hne : path ≠ []) :
    IsBranch path ∧ BranchPath m.byId (some (.str leafId)) path := by
  have hbranch : BranchPath m.byId (some (.str leafId)) path := by
    rw [h.byId_eq]
    unfold Manager.getBranch at hpath
    rw [h.byId_eq] at hpath
    exact branchPath_of_branchFrom rfl hne hpath
  refine ⟨⟨hbranch.linked, fun e he => hbranch.root_not_mem he, ?_⟩, hbranch⟩
  intro e he
  have hstored := hbranch.stored e he
  rw [h.byId_eq] at hstored
  have hmem := (mem_of_get?_indexEntries hstored).1
  unfold Manager.getEntries at hmem
  simpa using (List.mem_filter.mp hmem).2

/-- A kept child of a kept entry: the parent of each kept entry of a path is the entry before it. -/
theorem isChain_kept {referenced : List String} {path : List FileEntry} (hbranch : IsBranch path)
    (hlinked : ∀ e ∈ keptOf referenced path, NamesParent (keptOf referenced path) e) :
    path.IsChain fun a b => (!isDropped referenced b) = true → (!isDropped referenced a) = true := by
  refine hbranch.linked.links.imp_of_mem_imp ?_
  intro a b ha hb hparent hkept
  have hkey := hbranch.linked.keys a ha
  rcases hlinked b (List.mem_filter.mpr ⟨hb, hkept⟩) with hnone | hnull | hmem
  · rw [hparent] at hnone
    rw [hnone] at hkey
    obtain ⟨_, habs, -⟩ := hkey
    exact absurd habs (by simp)
  · rw [hparent] at hnull
    exact absurd hnull hkey.ne_null
  · rw [hparent] at hmem
    obtain ⟨c, hc, hid⟩ := List.mem_map.mp hmem
    obtain ⟨hcpath, hckept⟩ := List.mem_filter.mp hc
    obtain rfl : c = a := List.inj_on_of_nodup_map hbranch.linked.nodup hcpath ha hid
    exact hckept

/-- What is kept of a path without gaps is its start; labels follow. -/
theorem keptOf_prefix {referenced : List String} {path : List FileEntry} (hbranch : IsBranch path)
    (hlinked : ∀ e ∈ keptOf referenced path, NamesParent (keptOf referenced path) e) :
    ∃ dropped, path = keptOf referenced path ++ dropped ∧
      ∀ e ∈ dropped, hasType e "label" = true := by
  obtain ⟨dropped, hpath, hdropped⟩ := filter_prefix_of_isChain (isChain_kept hbranch hlinked)
  refine ⟨dropped, hpath, ?_⟩
  intro e he
  have hfalse := hdropped e he
  rw [Bool.not_eq_false'] at hfalse
  unfold isDropped at hfalse
  exact (Bool.and_eq_true _ _ ▸ hfalse).1

theorem nonLabels_append (a b : List FileEntry) : nonLabels (a ++ b) = nonLabels a ++ nonLabels b :=
  List.filter_append ..

theorem nonLabels_labels (h : ∀ e ∈ labels, hasType e "label" = true) : nonLabels labels = [] := by
  rw [nonLabels, List.filter_eq_nil_iff]
  intro e he
  simp [h e he]

theorem nonLabels_same (h : List.Forall₂ SameButEnvelope as bs) :
    List.Forall₂ SameButEnvelope (nonLabels as) (nonLabels bs) := by
  unfold nonLabels
  induction h with
  | nil => exact .nil
  | cons hab _ ih =>
    rw [List.filter_cons, List.filter_cons, hab.hasType_eq]
    split_ifs
    · exact .cons hab ih
    · exact ih

theorem nonLabels_keptOf (referenced : List String) (path : List FileEntry) :
    nonLabels (keptOf referenced path) = nonLabels path := by
  unfold nonLabels keptOf
  rw [List.filter_filter]
  refine List.filter_congr fun e _ => ?_
  unfold isDropped
  cases hasType e "label" <;> simp

theorem lastIdOrNull_eq {copied : List FileEntry} (hlinked : Linked copied) {last : FileEntry}
    (hlast : copied.getLast? = some last) : some (lastIdOrNull copied) = entryId last := by
  obtain ⟨value, hvalue, htruthy, -⟩ := hlinked.keys last (List.mem_of_getLast? hlast)
  unfold lastIdOrNull
  simp [hlast, hvalue, htruthy]

/-- The copied path and the labels are linked. -/
theorem linked_branchEntries {env : BranchEnvironment} {copied : List FileEntry}
    (hlinked : Linked copied)
    (hfresh : FreshLabelIds env.uuids (labelsToWrite m copied) (copied.map entryId) 0) :
    Linked (copied ++ branchLabels env m copied) := by
  obtain ⟨hhead, hchain⟩ := links_makeLabelEntries env.uuids (labelsToWrite m copied)
    (copied.map entryId) (lastIdOrNull copied) 0
  refine ⟨?_, ?_, ?_⟩
  · intro e he
    rcases List.mem_append.mp he with he | he
    · exact hlinked.keys e he
    · obtain ⟨-, id, hid, huuid⟩ := exists_of_mem_makeLabelEntries _ _ _ _ _ e he
      rw [hid]
      exact isKey_str huuid.ne_empty
  · rw [List.map_append]
    exact nodup_makeLabelEntries env.uuids hlinked.nodup _ hfresh
  · rw [List.isChain_append]
    refine ⟨hlinked.links, hchain, ?_⟩
    intro a ha b hb
    rw [hhead b hb]
    exact lastIdOrNull_eq hlinked ha

/-! ## Messages of the records -/

theorem hasAssistant_of_not_message {entry : FileEntry} (h : hasType entry "message" = false)
    (entries : List FileEntry) : hasAssistant (entry :: entries) = hasAssistant entries := by
  rw [hasAssistant]
  simp [h]

theorem hasAssistant_append_labels (h : ∀ e ∈ labels, hasType e "label" = true) :
    hasAssistant (entries ++ labels) = hasAssistant entries := by
  induction entries with
  | nil =>
    rw [List.nil_append]
    induction labels with
    | nil => rfl
    | cons e labels ih =>
      rw [hasAssistant_of_not_message (hasType_eq_false (h e (by simp)) (by decide))]
      exact ih fun x hx => h x (by simp [hx])
  | cons e entries ih =>
    rw [List.cons_append, hasAssistant, hasAssistant, ih]

theorem hasAssistant_same (h : List.Forall₂ SameButEnvelope as bs) :
    hasAssistant bs = hasAssistant as := by
  induction h with
  | nil => rfl
  | cons hab _ ih => rw [hasAssistant, hasAssistant, hab.hasType_eq, messageRole_same hab, ih]

theorem hasAssistant_branchRecords {env : BranchEnvironment} {kept dropped copied : List FileEntry}
    (hdropped : ∀ e ∈ dropped, hasType e "label" = true)
    (hsame : List.Forall₂ SameButEnvelope kept copied) :
    hasAssistant (branchRecords env m copied) = hasAssistant (kept ++ dropped) := by
  have hheader : hasType (branchHeader env m) "message" = false :=
    hasType_eq_false (isSession_sessionHeader ..) (by decide)
  rw [branchRecords_eq, hasAssistant_of_not_message hheader,
    hasAssistant_append_labels hasType_branchLabels,
    hasAssistant_append_labels hdropped, hasAssistant_same hsame]

/-! ## The durable head of the new session -/

theorem branchLeaf_eq {env : BranchEnvironment} {copied : List FileEntry} (hlinked : Linked copied)
    {last : FileEntry} (hlast : (copied ++ branchLabels env m copied).getLast? = some last) :
    branchLeaf (branchRecords env m copied) copied = entryId last := by
  unfold branchLeaf
  rw [branchRecords_eq]
  by_cases hlabels : branchLabels env m copied = []
  · rw [hlabels, List.append_nil] at hlast ⊢
    rw [if_pos (by simp)]
    exact lastIdOrNull_eq hlinked hlast
  · have hpos : 0 < (branchLabels env m copied).length := List.length_pos_iff.mpr hlabels
    rw [if_neg (by simp only [List.length_cons, List.length_append]; omega), List.getLast?_cons,
      hlast]
    rfl

theorem lastString_branchRecords {env : BranchEnvironment} {copied : List FileEntry}
    (hcopied : ∀ e ∈ copied, isSession e = false) {last : FileEntry} {id : String}
    (hlast : (copied ++ branchLabels env m copied).getLast? = some last)
    (hid : entryId last = some (.str id)) : lastString (branchRecords env m copied) = some id := by
  have hsession : isSession last = false :=
    isSession_branchEntries hcopied last (List.mem_of_getLast? hlast)
  unfold lastString lastStringId
  rw [branchRecords_eq, List.getLast?_cons, hlast]
  simp [hsession, hid]

/-- The new session can be written when its last id is metadata, and only then. -/
theorem branchHead_isOk_iff {platform : Platform} {env : BranchEnvironment} {w : World}
    {copied : List FileEntry} (hlinked : Linked copied)
    (hcopied : ∀ e ∈ copied, isSession e = false)
    (hsize : Utf8.byteLength (serializeFileEntries (branchRecords env w.manager copied)) ≤
      maxSafeInteger) {last : FileEntry}
    (hlast : (copied ++ branchLabels env w.manager copied).getLast? = some last)
    (hkey : IsKey (entryId last)) :
    (∃ head, sessionDurableHeadFromFile platform
        (rewriteFile w.disk (branchPath platform env w.manager)
          (branchRecords env w.manager copied) env.generation)
        (branchPath platform env w.manager)
        (branchLeaf (branchRecords env w.manager copied) copied)
        (branchRecords env w.manager copied) = .ok head) ↔
      ∃ id, entryId last = some (.str id) ∧ MetadataText maxMetadataLength id := by
  have hfile : (rewriteFile w.disk (branchPath platform env w.manager)
      (branchRecords env w.manager copied) env.generation).get? (branchPath platform env w.manager) =
      some ⟨Utf8.encode (serializeFileEntries (branchRecords env w.manager copied)),
        env.generation⟩ := by
    unfold rewriteFile
    rw [OrderedMap.get?_set, if_pos rfl]
  have hheader : headerId (branchRecords env w.manager copied) = some env.newSessionId.text :=
    headerId_cons (isSession_sessionHeader ..) (entryId_sessionHeader ..) _
  simp only [sessionDurableHeadFromFile_eq_ok hfile hheader, branchLeaf_eq hlinked hlast]
  constructor
  · rintro ⟨-, leafId, hleaf, hok, -⟩
    cases leafId with
    | none => exact absurd hleaf hkey.ne_null
    | some id => exact ⟨id, hleaf, hok.leafId id rfl⟩
  · rintro ⟨id, hid, hmeta⟩
    refine ⟨_, some id, hid, ?_, rfl⟩
    rw [lastString_branchRecords hcopied hlast hid]
    refine fileRevision_ok platform env.generation (by simp [branchRecords_eq])
      env.newSessionId.metadataText hsize ?_ ?_ (fun _ => rfl)
    · intro x hx
      obtain rfl := Option.some.inj hx
      exact hmeta
    · intro x hx
      obtain rfl := Option.some.inj hx
      exact hmeta

/-! ## A path without gaps is preserved -/

theorem contextAt_eq {platform : Platform} {key : Option Json} {path : List FileEntry}
    (hkey : IsKey key) (hfound : ∃ e, m.byId.get? key = some e)
    (hpath : branchFrom m.byId key = .ok path) :
    m.contextAt platform key = pathContext platform path := by
  have htruthy : isTruthy key = true := by
    obtain ⟨value, hvalue, htruthy, -⟩ := hkey
    simp [isTruthy, hvalue, htruthy]
  obtain ⟨e, he⟩ := hfound
  unfold branchFrom at hpath
  rw [if_pos htruthy, he] at hpath
  unfold Manager.contextAt CodingAgent.buildSessionContext contextLeaf
  rw [if_neg hkey.ne_null]
  simp only [htruthy, if_true, he, Option.orElse_some]
  have hto : pathTo m.byId e = .ok path := hpath
  rw [hto, ok_bind]

theorem exists_of_same (h : List.Forall₂ SameButEnvelope as bs) {b : FileEntry} (hb : b ∈ bs) :
    ∃ a ∈ as, SameButEnvelope a b := by
  induction h with
  | nil => simp at hb
  | cons hab _ ih =>
    rcases List.mem_cons.mp hb with rfl | hb
    · exact ⟨_, by simp, hab⟩
    · obtain ⟨a, ha, hsame⟩ := ih hb
      exact ⟨a, by simp [ha], hsame⟩

theorem parentEntry_of_null {byId : Index} {entry : FileEntry}
    (h : entryParentId entry = none ∨ entryParentId entry = some .null) :
    parentEntry byId entry = none := by
  unfold parentEntry
  rcases h with h | h
  · rw [h]
  · rw [h]
    rfl

/-- The branch of the new session is all of it. -/
theorem getBranch_holdsBranch (hholds : HoldsBranch m' entries) (hlinked : Linked entries)
    (hroot : ∀ e ∈ entries.head?, entryParentId e = none ∨ entryParentId e = some .null) :
    m'.getBranch none = .ok entries := by
  unfold Manager.getBranch
  rw [hholds.byId_eq, hholds.leafId_eq]
  unfold lastLeaf
  cases hlast : entries.getLast? with
  | none =>
    rw [List.getLast?_eq_none_iff.mp hlast]
    rfl
  | some last =>
    have hstored : ∀ e ∈ entries, (indexEntries entries).get? (entryId e) = some e :=
      fun e he => get?_indexEntries_of_nodup hlinked.nodup he
    exact branchFrom_linked hlinked hstored (fun e he => parentEntry_of_null (hroot e he)) hlast

theorem messages_holdsBranch {platform : Platform} (hholds : HoldsBranch m' entries)
    (hlinked : Linked entries)
    (hroot : ∀ e ∈ entries.head?, entryParentId e = none ∨ entryParentId e = some .null) :
    (m'.buildSessionContext platform).map SessionContext.messages =
      (pathContext platform entries).map SessionContext.messages := by
  have hbranch := getBranch_holdsBranch hholds hlinked hroot
  unfold Manager.buildSessionContext
  cases hlast : entries.getLast? with
  | none =>
    obtain rfl := List.getLast?_eq_none_iff.mp hlast
    have hleaf : m'.leafId = some .null := hholds.leafId_eq
    unfold Manager.contextAt CodingAgent.buildSessionContext
    rw [if_pos hleaf]
    rfl
  | some last =>
    have hmem := List.mem_of_getLast? hlast
    have hleaf : m'.leafId = entryId last := by
      rw [hholds.leafId_eq, lastLeaf, hlast]
    have hfound : ∃ e, m'.byId.get? m'.leafId = some e := by
      rw [hleaf, hholds.byId_eq]
      exact ⟨last, get?_indexEntries_of_nodup hlinked.nodup hmem⟩
    rw [contextAt_eq (hleaf ▸ hlinked.keys last hmem) hfound hbranch]

/-- The root of the kept part of a path has no parent. -/
theorem root_of_linked {referenced : List String} {path : List FileEntry} (hbranch : IsBranch path)
    (hlinked : ∀ e ∈ keptOf referenced path, NamesParent (keptOf referenced path) e)
    {dropped : List FileEntry} (hpath : path = keptOf referenced path ++ dropped) :
    ∀ e ∈ (keptOf referenced path).head?, entryParentId e = none ∨ entryParentId e = some .null := by
  intro e he
  have hmem : e ∈ keptOf referenced path := List.mem_of_mem_head? he
  have hhead : e ∈ path.head? := by
    rw [hpath, List.head?_append, Option.mem_def.mp he]
    rfl
  rcases hlinked e hmem with hnone | hnull | hparent
  · exact .inl hnone
  · exact .inr hnull
  · refine absurd ?_ (hbranch.root e hhead)
    obtain ⟨x, hx, hid⟩ := List.mem_map.mp hparent
    exact List.mem_map.mpr ⟨x, (List.mem_filter.mp hx).1, hid⟩

theorem root_of_same (hsame : List.Forall₂ SameButEnvelope as bs)
    (hroot : ∀ e ∈ as.head?, entryParentId e = none ∨ entryParentId e = some .null)
    (hback : as = [] → back = []) :
    ∀ e ∈ (bs ++ back).head?, entryParentId e = none ∨ entryParentId e = some .null := by
  intro e he
  cases hsame with
  | nil =>
    rw [hback rfl] at he
    simp at he
  | cons hab _ =>
    obtain rfl : _ = e := by simpa using he
    rw [hab.entryParentId_eq]
    exact hroot _ (by simp)

theorem namesParent_of_linked (hlinked : Linked entries)
    (hroot : ∀ e ∈ entries.head?, entryParentId e = none ∨ entryParentId e = some .null) :
    ∀ e ∈ entries, NamesParent entries e := by
  intro e he
  obtain ⟨front, back, rfl⟩ := List.append_of_mem he
  cases hlast : front.getLast? with
  | none =>
    rw [List.getLast?_eq_none_iff.mp hlast] at hroot
    rcases hroot e (by simp) with h | h
    · exact .inl h
    · exact .inr (.inl h)
  | some last =>
    have hparent := (List.isChain_append.mp hlinked.links).2.2 last (by rw [hlast]; rfl) e (by simp)
    refine .inr (.inr ?_)
    rw [hparent]
    exact List.mem_map_of_mem (List.mem_append_left _ (List.mem_of_getLast? hlast))

section Preserved

variable {platform : Platform} {env : BranchEnvironment} {leafId : String} {w w' : World}
  {path copied : List FileEntry} {referenced : List String}

/-- What the rebinding of a path returns. -/
theorem copied_same (hids : referencedIds path = .ok referenced)
    (hcopied : rebindBranchedCompactionEnvelopes platform (branchHeader env w.manager)
      env.newSessionId.text path = .ok copied) :
    List.Forall₂ SameButEnvelope (keptOf referenced path) copied := by
  unfold rebindBranchedCompactionEnvelopes at hcopied
  rw [hids, ok_bind] at hcopied
  obtain ⟨new, hnew, hsame⟩ := rebindFrom_ok hcopied
  obtain rfl : copied = new := by simpa using hnew
  exact hsame

theorem branchLabels_eq_nil (env : BranchEnvironment) (m : Manager) : branchLabels env m [] = [] := by
  unfold branchLabels
  rw [labelsToWrite_nil]
  rfl

/-- A path without gaps is preserved by the new session. -/
theorem branchPreserved_of_linked (hindexed : Indexed w.manager)
    (hleaf : w.manager.byId.has (some (.str leafId)) = true)
    (hpath : w.manager.getBranch (some (.str leafId)) = .ok path) (hne : path ≠ [])
    (hlinked : ∀ e ∈ keptOf referenced path, NamesParent (keptOf referenced path) e)
    (hsame : List.Forall₂ SameButEnvelope (keptOf referenced path) copied)
    (hfresh : FreshLabelIds env.uuids (labelsToWrite w.manager copied) (copied.map entryId) 0)
    (hholds : HoldsBranch m' (copied ++ branchLabels env w.manager copied)) :
    BranchPreserved platform w.manager m' leafId := by
  obtain ⟨hbranch, hstored⟩ := isBranch_of_getBranch hindexed hpath hne
  obtain ⟨dropped, hpref, hdropped⟩ := keptOf_prefix hbranch hlinked
  have hkept : Linked (keptOf referenced path) := by
    have hall := hbranch.linked
    rw [hpref] at hall
    exact hall.of_append
  have hentries := linked_branchEntries (hkept.of_same hsame) hfresh
  have hroot : ∀ e ∈ (copied ++ branchLabels env w.manager copied).head?,
      entryParentId e = none ∨ entryParentId e = some .null := by
    apply root_of_same hsame (root_of_linked hbranch hlinked hpref)
    intro hnil
    rw [hnil] at hsame
    cases hsame
    exact branchLabels_eq_nil env w.manager
  refine ⟨?_, ⟨path, copied ++ branchLabels env w.manager copied, hpath,
    getBranch_holdsBranch hholds hentries hroot, ?_⟩, ?_⟩
  · rw [hholds.entries_eq]
    exact namesParent_of_linked hentries hroot
  · rw [nonLabels_append, nonLabels_labels hasType_branchLabels, List.append_nil, ← nonLabels_keptOf referenced path]
    exact nonLabels_same hsame
  · have hkey : IsKey (some (.str leafId)) := by
      obtain ⟨last, hlast, hid⟩ := hstored.last
      rw [← hid]
      exact hbranch.linked.keys last (List.mem_of_getLast? hlast)
    have hfound : ∃ e, w.manager.byId.get? (some (.str leafId)) = some e := by
      rw [← Option.isSome_iff_exists, Option.isSome_iff_ne_none, ne_eq, OrderedMap.get?_eq_none_iff,
        not_not]
      exact OrderedMap.has_iff.mp hleaf
    rw [messages_holdsBranch hholds hentries hroot, contextAt_eq hkey hfound hpath,
      pathContext_append_labels platform hasType_branchLabels, messages_pathContext_same platform hsame,
      ← pathContext_append_labels platform hdropped, ← hpref]

/-! ## A gap is not preserved -/

/-- From an entry in a set of ids that is closed under parents `getBranch` does not return. -/
theorem branchFrom_of_closed {ids : List (Option Json)} (hlinked : (entries.map entryId).Nodup)
    (hkeys : ∀ e ∈ entries, IsKey (entryId e)) (hids : ∀ id ∈ ids, id ∈ entries.map entryId)
    (hclosed : ∀ e ∈ entries, entryId e ∈ ids → entryParentId e ∈ ids) {last : FileEntry}
    (hlast : last ∈ entries) (hmem : entryId last ∈ ids) :
    branchFrom (indexEntries entries) (entryId last) = .error .diverges := by
  have hfind : ∀ id ∈ ids, ∃ e ∈ entries, entryId e = id ∧
      (indexEntries entries).get? id = some e := by
    intro id hid
    obtain ⟨e, he, rfl⟩ := List.mem_map.mp (hids id hid)
    exact ⟨e, he, rfl, get?_indexEntries_of_nodup hlinked he⟩
  have hwalk : walk (parentEntry (indexEntries entries)) ((indexEntries entries).size + 1) last =
      none := by
    refine walk_eq_none_of_closed (S := fun e => e ∈ entries ∧ entryId e ∈ ids) ?_ ⟨hlast, hmem⟩ _
    rintro e ⟨he, hid⟩
    have hparent := hclosed e he hid
    obtain ⟨p, hp, hpid, hget⟩ := hfind _ hparent
    have hkey : IsKey (entryParentId e) := hpid ▸ hkeys p hp
    exact ⟨p, by rw [parentEntry_of_key hkey, hget], hp, hpid ▸ hparent⟩
  have htruthy : isTruthy (entryId last) = true := by
    obtain ⟨value, hvalue, htruthy, -⟩ := hkeys last hlast
    simp [isTruthy, hvalue, htruthy]
  unfold branchFrom pathTo
  rw [if_pos htruthy, get?_indexEntries_of_nodup hlinked hlast]
  simp only [hwalk]

theorem parent_mem_of_chain {front : List FileEntry} {first x : FileEntry}
    (hbranch : IsBranch (front ++ first :: back)) (hx : x ∈ back) :
    ∃ y ∈ first :: back, entryParentId x = entryId y := by
  obtain ⟨b1, b2, rfl⟩ := List.append_of_mem hx
  have hlinks := (List.isChain_append.mp hbranch.linked.links).2.1
  rw [← List.cons_append] at hlinks
  have hlast : (first :: b1).getLast? = some ((first :: b1).getLast (by simp)) :=
    List.getLast?_eq_some_getLast _
  refine ⟨(first :: b1).getLast (by simp), ?_, ?_⟩
  · rw [← List.cons_append]
    exact List.mem_append_left _ (List.getLast_mem _)
  · exact (List.isChain_append.mp hlinks).2.2 _ (by rw [hlast]; rfl) x (by simp)

theorem keptOf_append (referenced : List String) (a b : List FileEntry) :
    keptOf referenced (a ++ b) = keptOf referenced a ++ keptOf referenced b :=
  List.filter_append ..

theorem keptOf_cons_of_kept {e : FileEntry} (hkept : (!isDropped referenced e) = true)
    (back : List FileEntry) : keptOf referenced (e :: back) = e :: keptOf referenced back := by
  unfold keptOf
  rw [List.filter_cons_of_pos]
  exact hkept

theorem exists_copy (h : List.Forall₂ SameButEnvelope as bs) {a : FileEntry} (ha : a ∈ as) :
    ∃ b ∈ bs, SameButEnvelope a b := by
  induction h with
  | nil => simp at ha
  | cons hab _ ih =>
    rcases List.mem_cons.mp ha with rfl | ha
    · exact ⟨_, by simp, hab⟩
    · obtain ⟨b, hb, hsame⟩ := ih ha
      exact ⟨b, by simp [hb], hsame⟩

/-- Behind the last gap the parent of a kept entry is kept. -/
theorem parent_behind_gap {front : List FileEntry} {e x : FileEntry}
    (hbranch : IsBranch (front ++ e :: back)) (hkept : (!isDropped referenced e) = true)
    (hx : x ∈ keptOf referenced back)
    (hnames : NamesParent (keptOf referenced (front ++ e :: back)) x) :
    entryParentId x ∈ (e :: keptOf referenced back).map entryId := by
  obtain ⟨y, hy, hparent⟩ := parent_mem_of_chain hbranch (List.mem_filter.mp hx).1
  have hypath : y ∈ front ++ e :: back := List.mem_append_right _ hy
  have hkey := hbranch.linked.keys y hypath
  have hykept : (!isDropped referenced y) = true := by
    rcases hnames with hnone | hnull | hmem
    · rw [hparent] at hnone
      obtain ⟨value, hvalue, -⟩ := hkey
      rw [hvalue] at hnone
      exact absurd hnone (by simp)
    · rw [hparent] at hnull
      exact absurd hnull hkey.ne_null
    · rw [hparent] at hmem
      obtain ⟨z, hz, hid⟩ := List.mem_map.mp hmem
      obtain ⟨hzpath, hzkept⟩ := List.mem_filter.mp hz
      rw [List.inj_on_of_nodup_map hbranch.linked.nodup hzpath hypath hid] at hzkept
      exact hzkept
  rw [hparent]
  refine List.mem_map_of_mem ?_
  rw [← keptOf_cons_of_kept hkept]
  exact List.mem_filter.mpr ⟨hy, hykept⟩

theorem parent_branchLabels {l : FileEntry} (hl : l ∈ branchLabels env m copied) :
    entryParentId l = some (lastIdOrNull copied) ∨
      entryParentId l ∈ (branchLabels env m copied).map entryId := by
  obtain ⟨hhead, hchain⟩ := links_makeLabelEntries env.uuids (labelsToWrite m copied)
    (copied.map entryId) (lastIdOrNull copied) 0
  obtain ⟨l1, l2, hsplit⟩ := List.append_of_mem hl
  unfold branchLabels at hsplit ⊢
  rw [hsplit] at hhead hchain ⊢
  cases hlast : l1.getLast? with
  | none =>
    rw [List.getLast?_eq_none_iff.mp hlast] at hhead
    exact .inl (hhead l (by simp))
  | some last =>
    right
    rw [(List.isChain_append.mp hchain).2.2 last (by rw [hlast]; rfl) l (by simp)]
    exact List.mem_map_of_mem (List.mem_append_left _ (List.mem_of_getLast? hlast))

/-- If the last entry that hangs on a dropped label hangs on a new label, the entries from it on and
the labels are closed under parents. -/
theorem closed_behind_gap {front : List FileEntry} {e : FileEntry}
    (hbranch : IsBranch (front ++ e :: back)) (hkept : (!isDropped referenced e) = true)
    (hback : ∀ x ∈ keptOf referenced back, NamesParent (keptOf referenced (front ++ e :: back)) x)
    (hsame : List.Forall₂ SameButEnvelope (keptOf referenced (front ++ e :: back)) copied)
    (hnodup : ((copied ++ branchLabels env m copied).map entryId).Nodup)
    (hlabel : entryParentId e ∈ (branchLabels env m copied).map entryId) :
    ∀ x ∈ copied ++ branchLabels env m copied,
      entryId x ∈ (e :: keptOf referenced back).map entryId ++
          (branchLabels env m copied).map entryId →
        entryParentId x ∈ (e :: keptOf referenced back).map entryId ++
          (branchLabels env m copied).map entryId := by
  have hsplit : keptOf referenced (front ++ e :: back) =
      keptOf referenced front ++ e :: keptOf referenced back := by
    rw [keptOf_append, keptOf_cons_of_kept hkept]
  have hids := map_entryId_of_same hsame
  have hdisjoint : ∀ id ∈ copied.map entryId, id ∉ (branchLabels env m copied).map entryId := by
    intro id hid hid'
    rw [List.map_append, List.nodup_append] at hnodup
    exact hnodup.2.2 id hid id hid' rfl
  intro x hx hid
  rw [List.mem_append]
  rcases List.mem_append.mp hx with hx | hx
  · -- a copied entry
    obtain ⟨a, ha, hax⟩ := exists_of_same hsame hx
    have hidx : entryId x ∈ (e :: keptOf referenced back).map entryId := by
      rcases List.mem_append.mp hid with hid | hid
      · exact hid
      · exact absurd hid (hdisjoint _ (List.mem_map_of_mem hx))
    obtain ⟨y, hy, hyid⟩ := List.mem_map.mp hidx
    have hypath : y ∈ keptOf referenced (front ++ e :: back) := by
      rw [hsplit]
      exact List.mem_append_right _ hy
    obtain rfl : y = a := List.inj_on_of_nodup_map hbranch.linked.nodup
      (List.mem_filter.mp hypath).1 (List.mem_filter.mp ha).1 (hyid.trans hax.entryId_eq)
    rw [hax.entryParentId_eq]
    rcases List.mem_cons.mp hy with rfl | hy
    · exact .inr hlabel
    · exact .inl (parent_behind_gap hbranch hkept hy (hback y hy))
  · -- a label
    rcases parent_branchLabels hx with hparent | hparent
    · left
      have hne : (e :: keptOf referenced back).map entryId ≠ [] := by simp
      have hlast : (copied.map entryId).getLast? =
          some (((e :: keptOf referenced back).map entryId).getLast hne) := by
        rw [hids, hsplit, List.map_append, List.getLast?_append_of_ne_nil _ hne,
          List.getLast?_eq_some_getLast hne]
      rw [List.getLast?_map] at hlast
      obtain ⟨c, hc, hcid⟩ := Option.map_eq_some_iff.mp hlast
      have hkey : IsKey (entryId c) := by
        obtain ⟨a, ha, hac⟩ := exists_of_same hsame (List.mem_of_getLast? hc)
        rw [hac.entryId_eq]
        exact hbranch.linked.keys a (List.mem_filter.mp ha).1
      have hlastId : some (lastIdOrNull copied) = entryId c := by
        obtain ⟨value, hvalue, htruthy, -⟩ := hkey
        unfold lastIdOrNull
        simp [hc, hvalue, htruthy]
      rw [hparent, hlastId, hcid]
      exact List.getLast_mem hne
    · exact .inr hparent

/-- In a session that preserves the path no copied entry hangs on a dropped label. -/
theorem namesParent_of_preserved (hindexed : Indexed w.manager)
    (hpath : w.manager.getBranch (some (.str leafId)) = .ok path) (hne : path ≠ [])
    (hsame : List.Forall₂ SameButEnvelope (keptOf referenced path) copied)
    (hfresh : FreshLabelIds env.uuids (labelsToWrite w.manager copied) (copied.map entryId) 0)
    (hholds : HoldsBranch m' (copied ++ branchLabels env w.manager copied))
    (hpreserved : BranchPreserved platform w.manager m' leafId) :
    ∀ e ∈ keptOf referenced path, NamesParent (keptOf referenced path) e := by
  obtain ⟨hbranch, -⟩ := isBranch_of_getBranch hindexed hpath hne
  by_contra hgap
  push Not at hgap
  have hgap' : ∃ e ∈ path, (!isDropped referenced e) = true ∧
      ¬NamesParent (keptOf referenced path) e := by
    obtain ⟨e, he, hnot⟩ := hgap
    obtain ⟨hmem, hkept⟩ := List.mem_filter.mp he
    exact ⟨e, hmem, hkept, hnot⟩
  -- the last gap
  obtain ⟨front, e, back, rfl, ⟨hkept, hnot⟩, hback⟩ := exists_last hgap'
  have hids := map_entryId_of_same hsame
  have hnodup : ((copied ++ branchLabels env w.manager copied).map entryId).Nodup := by
    rw [List.map_append]
    refine nodup_makeLabelEntries env.uuids ?_ _ hfresh
    rw [hids]
    exact hbranch.linked.nodup.sublist ((List.filter_sublist).map _)
  have hkeys : ∀ x ∈ copied ++ branchLabels env w.manager copied, IsKey (entryId x) := by
    intro x hx
    rcases List.mem_append.mp hx with hx | hx
    · obtain ⟨a, ha, hax⟩ := exists_of_same hsame hx
      rw [hax.entryId_eq]
      exact hbranch.linked.keys a (List.mem_filter.mp ha).1
    · obtain ⟨-, id, hid, huuid⟩ := exists_of_mem_makeLabelEntries _ _ _ _ _ x hx
      rw [hid]
      exact isKey_str huuid.ne_empty
  have hmem : e ∈ keptOf referenced (front ++ e :: back) := List.mem_filter.mpr ⟨by simp, hkept⟩
  -- its parent is one of the new labels
  have hlabel : entryParentId e ∈ (branchLabels env w.manager copied).map entryId := by
    obtain ⟨c, hc, hec⟩ := exists_copy hsame hmem
    have hnames := hpreserved.parents c (by rw [hholds.entries_eq]; exact List.mem_append_left _ hc)
    rw [hholds.entries_eq] at hnames
    unfold NamesParent at hnames hnot
    rw [hec.entryParentId_eq, List.map_append, List.mem_append, hids] at hnames
    tauto
  have hclosed := closed_behind_gap hbranch hkept (fun x hx => by
    by_contra hx'
    obtain ⟨hxback, hxkept⟩ := List.mem_filter.mp hx
    exact hback x hxback ⟨hxkept, hx'⟩) hsame hnodup hlabel
  obtain ⟨last, hlast⟩ : ∃ last, (branchLabels env w.manager copied).getLast? = some last := by
    cases h : (branchLabels env w.manager copied).getLast? with
    | none =>
      rw [List.getLast?_eq_none_iff.mp h] at hlabel
      simp at hlabel
    | some last => exact ⟨last, rfl⟩
  have hlastMem := List.mem_of_getLast? hlast
  have hdiverges := branchFrom_of_closed hnodup hkeys (fun id hid => by
      rw [List.map_append]
      rcases List.mem_append.mp hid with hid | hid
      · rw [hids, keptOf_append]
        refine List.mem_append_left _ ?_
        rw [List.map_append]
        refine List.mem_append_right _ ?_
        rw [keptOf_cons_of_kept hkept]
        exact hid
      · exact List.mem_append_right _ hid) hclosed (List.mem_append_right _ hlastMem)
    (List.mem_append_right _ (List.mem_map_of_mem hlastMem))
  obtain ⟨-, newPath, -, hnew, -⟩ := hpreserved.branch
  have hleaf : m'.leafId = entryId last := by
    rw [hholds.leafId_eq, lastLeaf, List.getLast?_append, hlast]
    rfl
  unfold Manager.getBranch at hnew
  rw [hholds.byId_eq, hleaf] at hnew
  exact absurd (hdiverges.symm.trans hnew) (by simp)

/-- What `createBranchedSession` needs of the records it writes. -/
theorem branchReturns_iff (hindexed : Indexed w.manager) (henv : env.Suits platform w leafId)
    (hpath : w.manager.getBranch (some (.str leafId)) = .ok path) (hne : path ≠ [])
    (hlinked : ∀ e ∈ keptOf referenced path, NamesParent (keptOf referenced path) e)
    (hids : referencedIds path = .ok referenced)
    (hcopied : rebindBranchedCompactionEnvelopes platform (branchHeader env w.manager)
      env.newSessionId.text path = .ok copied) :
    BranchReturns platform env w copied ↔
      (w.manager.persist = true → ∃ assistant, hasAssistant path = .ok assistant) ∧
      (w.manager.persist = true → hasAssistant path = .ok true →
        labelsToWrite w.manager (keptOf referenced path) ≠ [] ∨
          ∃ last id, (keptOf referenced path).getLast? = some last ∧ entryId last = some (.str id) ∧
            MetadataText maxMetadataLength id) := by
  obtain ⟨hbranch, -⟩ := isBranch_of_getBranch hindexed hpath hne
  obtain ⟨dropped, hpref, hdropped⟩ := keptOf_prefix hbranch hlinked
  have hsame := copied_same hids hcopied
  have hassistant : hasAssistant (branchRecords env w.manager copied) = hasAssistant path := by
    rw [hasAssistant_branchRecords hdropped hsame, ← hpref]
  have hkept : Linked (keptOf referenced path) := by
    have hall := hbranch.linked
    rw [hpref] at hall
    exact hall.of_append
  have hcopiedLinked := hkept.of_same hsame
  have hentries : Linked (copied ++ branchLabels env w.manager copied) :=
    linked_branchEntries hcopiedLinked (henv.fresh path copied hpath hcopied)
  have hsessions := isSession_of_same hsame fun e he => hbranch.entries e (List.mem_filter.mp he).1
  have hlabels : branchLabels env w.manager copied = [] ↔
      labelsToWrite w.manager (keptOf referenced path) = [] := by
    rw [← labelsToWrite_same w.manager hsame]
    exact makeLabelEntries_eq_nil_iff env.uuids
  have hhead : hasAssistant path = .ok true →
      ((∃ head, sessionDurableHeadFromFile platform
        (rewriteFile w.disk (branchPath platform env w.manager)
          (branchRecords env w.manager copied) env.generation)
        (branchPath platform env w.manager)
        (branchLeaf (branchRecords env w.manager copied) copied)
        (branchRecords env w.manager copied) = .ok head) ↔
      labelsToWrite w.manager (keptOf referenced path) ≠ [] ∨
          ∃ last id, (keptOf referenced path).getLast? = some last ∧ entryId last = some (.str id) ∧
            MetadataText maxMetadataLength id) := by
    intro htrue
    have hnil : copied ≠ [] := by
      rintro rfl
      rw [← hassistant, branchRecords_eq, branchLabels_eq_nil] at htrue
      exact absurd (htrue.symm.trans (by rfl : hasAssistant [branchHeader env w.manager] = .ok false))
        (by simp)
    obtain ⟨last, hlast⟩ : ∃ last, (copied ++ branchLabels env w.manager copied).getLast? = some last :=
      ⟨_, List.getLast?_eq_some_getLast (by simp [hnil])⟩
    rw [branchHead_isOk_iff hcopiedLinked hsessions (henv.size path copied hpath hcopied) hlast
      (hentries.keys last (List.mem_of_getLast? hlast))]
    by_cases hempty : branchLabels env w.manager copied = []
    · rw [hempty, List.append_nil] at hlast
      have hlastId : (keptOf referenced path).getLast?.map entryId = some (entryId last) := by
        rw [← List.getLast?_map, ← map_entryId_of_same hsame, List.getLast?_map, hlast]
        rfl
      obtain ⟨k, hk, hkid⟩ := Option.map_eq_some_iff.mp hlastId
      constructor
      · rintro ⟨id, hid, hmeta⟩
        exact .inr ⟨k, id, hk, hkid.trans hid, hmeta⟩
      · rintro (habs | ⟨k', id, hk', hid, hmeta⟩)
        · exact absurd (hlabels.mp hempty) habs
        · obtain rfl : k = k' := Option.some.inj (hk.symm.trans hk')
          exact ⟨id, hkid.symm.trans hid, hmeta⟩
    · refine iff_of_true ?_ (.inl fun habs => hempty (hlabels.mpr habs))
      have hmem : last ∈ branchLabels env w.manager copied := by
        rw [List.getLast?_append_of_ne_nil _ hempty] at hlast
        exact List.mem_of_getLast? hlast
      obtain ⟨-, id, hid, huuid⟩ := exists_of_mem_makeLabelEntries _ _ _ _ _ last hmem
      exact ⟨id, hid, huuid.metadataText⟩
  constructor
  · rintro ⟨hreadable, hwritten⟩
    rw [hassistant] at hreadable hwritten
    exact ⟨hreadable, fun hp ht => (hhead ht).mp (hwritten hp ht).2⟩
  · rintro ⟨hreadable, hleaf⟩
    refine ⟨hassistant ▸ hreadable, fun hp ht => ⟨henv.pathFree, ?_⟩⟩
    rw [hassistant] at ht
    exact (hhead ht).mpr (hleaf hp ht)

end Preserved

/-- `createBranchedSession` preserves the path to an entry exactly when it can be copied without a
gap and written. -/
theorem createBranchedSession_preserves_iff {platform : Platform} {env : BranchEnvironment}
    {w : World} (hreachable : Reachable platform w) {leafId : String}
    (hleaf : w.manager.byId.has (some (.str leafId)) = true)
    (henv : env.Suits platform w leafId) :
    (∃ w' file, createBranchedSession platform env leafId w = (w', .ok file) ∧
        BranchPreserved platform w.manager w'.manager leafId) ↔
      ∃ path referenced, w.manager.getBranch (some (.str leafId)) = .ok path ∧
        CanBranch platform w.manager path referenced := by
  have hindexed := hreachable.indexed
  constructor
  · rintro ⟨w', file, hcreate, hpreserved⟩
    obtain ⟨path, copied, hpath, hne, hcopied, hreturns, hentries, hbyId, hleafId⟩ :=
      createBranchedSession_ok hcreate
    obtain ⟨hbranch, -⟩ := isBranch_of_getBranch hindexed hpath hne
    obtain ⟨referenced, hids, -⟩ := bind_eq_ok.mp hcopied
    have hsame := copied_same hids hcopied
    have hholds := holdsBranch_switchTo
      (isSession_of_same hsame fun e he => hbranch.entries e (List.mem_filter.mp he).1)
      hentries hbyId hleafId
    have hlinked := namesParent_of_preserved hindexed hpath hne hsame
      (henv.fresh path copied hpath hcopied) hholds hpreserved
    have henvelopes := (rebindBranched_isOk_iff hbranch (isSession_sessionHeader ..)
      env.newSessionId.metadataText (henv.fits path hpath)).mp ⟨copied, hcopied⟩
    obtain ⟨hreadable, hlast⟩ :=
      (branchReturns_iff hindexed henv hpath hne hlinked hids hcopied).mp hreturns
    exact ⟨path, referenced, hpath, hne, hids, hlinked, henvelopes, hreadable, hlast⟩
  · rintro ⟨path, referenced, hpath, hcan⟩
    obtain ⟨hbranch, -⟩ := isBranch_of_getBranch hindexed hpath hcan.ne_nil
    obtain ⟨copied, hcopied⟩ := (rebindBranched_isOk_iff hbranch (isSession_sessionHeader ..)
      env.newSessionId.metadataText (henv.fits path hpath)).mpr hcan.envelopes
    have hsame := copied_same hcan.ids hcopied
    have hreturns := (branchReturns_iff hindexed henv hpath hcan.ne_nil hcan.linked hcan.ids
      hcopied).mpr ⟨hcan.readable, hcan.leaf⟩
    obtain ⟨w', file, hcreate⟩ := createBranchedSession_isOk hpath hcan.ne_nil hcopied hreturns
    refine ⟨w', file, hcreate, ?_⟩
    obtain ⟨path', copied', hpath', -, hcopied', -, hentries, hbyId, hleafId⟩ :=
      createBranchedSession_ok hcreate
    obtain rfl : path = path' := Except.ok.inj (hpath.symm.trans hpath')
    obtain rfl : copied = copied' := Except.ok.inj (hcopied.symm.trans hcopied')
    have hholds := holdsBranch_switchTo
      (isSession_of_same hsame fun e he => hbranch.entries e (List.mem_filter.mp he).1)
      hentries hbyId hleafId
    exact branchPreserved_of_linked hindexed hleaf hpath hcan.ne_nil hcan.linked hsame
      (henv.fresh path copied hpath hcopied) hholds

/-! ## A run -/

/-- A platform for concrete runs. -/
def samplePlatform : Platform where
  sha256 := fun _ => String.ofList (List.replicate 64 '0')
  sha256_hex := isSha256_zeros
  getTime := fun _ => none
  join := fun dir name => dir ++ "/" ++ name

instance neZero_ten : NeZero 10 := ⟨by decide⟩

/-- A UUID whose characters are all the same digit. -/
def sampleUuid (digit : Fin 10) : Uuid where
  text := String.ofList (List.replicate 36 (Nat.digitChar digit))
  length_eq := by simp
  chars := by
    intro c hc
    rw [String.toList_ofList] at hc
    rw [List.eq_of_mem_replicate hc]
    have hall : ∀ d : Fin 10, isUuidChar (Nat.digitChar d) = true := by decide
    exact hall digit

def sampleEnvironment (digit : Fin 10) : Environment :=
  ⟨fun _ => sampleUuid digit, "2026-01-01T00:00:00.000Z", default⟩

def sampleBranchEnvironment : BranchEnvironment :=
  ⟨sampleUuid 8, "2026-01-02T00:00:00.000Z", fun _ _ => sampleUuid 9, default⟩

def sampleMessage (role text : String) : Json :=
  .obj [("role", .str role), ("content", .str text)]

/-- A new session with one message. -/
def sampleWorld (persist : Bool) : World :=
  Operation.run samplePlatform ⟨.empty, newSession samplePlatform "" "" persist "s" "" none⟩
    (.appendMessage (sampleEnvironment 1) (sampleMessage "user" "a"))

theorem reachable_sampleWorld (persist : Bool) : Reachable samplePlatform (sampleWorld persist) :=
  .step (.fresh _ _ _ _ _ _ _) _

/-- A label on the message, and another message. -/
def labelledWorld : World :=
  Operation.run samplePlatform
    (Operation.run samplePlatform (sampleWorld false)
      (.appendLabelChange (sampleEnvironment 2) "11111111" (some "x")))
    (.appendMessage (sampleEnvironment 3) (sampleMessage "user" "b"))

theorem byteLength_recordLines_sublist (h : as.Sublist bs) :
    Utf8.byteLength (recordLines as) ≤ Utf8.byteLength (recordLines bs) := by
  have hcons : ∀ (e : FileEntry) es, recordLines (e :: es) =
      (Json.stringify e ++ ['\n']) ++ recordLines es := fun e es => by simp [recordLines]
  induction h with
  | slnil => exact le_refl _
  | cons e _ ih =>
    rw [hcons, Utf8.byteLength_append]
    exact ih.trans (Nat.le_add_left _ _)
  | cons_cons e _ ih =>
    rw [hcons, hcons, Utf8.byteLength_append (_ ++ _), Utf8.byteLength_append (_ ++ _)]
    exact Nat.add_le_add_left ih _

theorem eq_of_same_of_no_compaction (h : List.Forall₂ SameButEnvelope as bs)
    (hno : ∀ e ∈ as, hasType e "compaction" = false) : bs = as := by
  induction h with
  | nil => rfl
  | cons hab _ ih =>
    rw [ih fun e he => hno e (by simp [he])]
    rcases hab with rfl | ⟨htype, -⟩
    · rfl
    · rw [hno _ (by simp)] at htype
      exact Bool.noConfusion htype

/-- Without compactions only the path itself is serialized. -/
theorem rebindFits_of_no_compaction {platform : Platform} {header : FileEntry} {sessionId : String}
    {path : List FileEntry} (hno : ∀ e ∈ path, hasType e "compaction" = false)
    (hsize : Utf8.byteLength (serializeFileEntries (header :: path)) ≤ maxSafeInteger) :
    RebindFits platform header sessionId path := by
  intro referenced front copied hfront hcopied
  obtain ⟨new, hnew, hsame⟩ := rebindFrom_ok hcopied
  obtain rfl : copied = new := by simpa using hnew
  have hsub : (keptOf referenced front).Sublist path := List.filter_sublist.trans hfront.sublist
  rw [eq_of_same_of_no_compaction hsame fun e he => hno e (hsub.subset he)]
  rw [serializeFileEntries_eq (by simp)] at hsize ⊢
  exact (byteLength_recordLines_sublist (hsub.cons_cons header)).trans hsize

/-- The environment suits a path without compactions that is short enough. -/
theorem suits_of_eq {platform : Platform} {env : BranchEnvironment} {w : World} {leafId : String}
    {path copied : List FileEntry} (hpath : w.manager.getBranch (some (.str leafId)) = .ok path)
    (hcopied : rebindBranchedCompactionEnvelopes platform (branchHeader env w.manager)
      env.newSessionId.text path = .ok copied)
    (hfree : w.disk.has (branchPath platform env w.manager) = false)
    (hno : ∀ e ∈ path, hasType e "compaction" = false)
    (hfits : Utf8.byteLength (serializeFileEntries (branchHeader env w.manager :: path)) ≤
      maxSafeInteger)
    (hfresh : FreshLabelIds env.uuids (labelsToWrite w.manager copied) (copied.map entryId) 0)
    (hsize : Utf8.byteLength (serializeFileEntries (branchRecords env w.manager copied)) ≤
      maxSafeInteger) : env.Suits platform w leafId where
  pathFree := hfree
  fits := by
    intro path' hpath'
    obtain rfl := Except.ok.inj (hpath.symm.trans hpath')
    exact rebindFits_of_no_compaction hno hfits
  fresh := by
    intro path' copied' hpath' hcopied'
    obtain rfl := Except.ok.inj (hpath.symm.trans hpath')
    obtain rfl := Except.ok.inj (hcopied.symm.trans hcopied')
    exact hfresh
  size := by
    intro path' copied' hpath' hcopied'
    obtain rfl := Except.ok.inj (hpath.symm.trans hpath')
    obtain rfl := Except.ok.inj (hcopied.symm.trans hcopied')
    exact hsize

theorem suits_labelledWorld :
    sampleBranchEnvironment.Suits samplePlatform labelledWorld "33333333" :=
  suits_of_eq
    (show labelledWorld.manager.getBranch _ = .ok labelledWorld.manager.getEntries from rfl)
    (show _ = Except.ok (keptOf [] labelledWorld.manager.getEntries) from rfl) (by decide)
    (by decide) (by decide +kernel) ⟨by decide +kernel, trivial⟩ (by decide +kernel)

/-- Branching at the second message loses the first: it was the child of the label. -/
theorem createBranchedSession_loses_history :
    Reachable samplePlatform labelledWorld ∧
      labelledWorld.manager.byId.has (some (.str "33333333")) = true ∧
      sampleBranchEnvironment.Suits samplePlatform labelledWorld "33333333" ∧
      ¬∃ w' file, createBranchedSession samplePlatform sampleBranchEnvironment "33333333"
          labelledWorld = (w', .ok file) ∧
        BranchPreserved samplePlatform labelledWorld.manager w'.manager "33333333" := by
  refine ⟨.step (.step (reachable_sampleWorld false) _) _, by decide, suits_labelledWorld, ?_⟩
  rintro ⟨w', file, hcreate, hpreserved⟩
  obtain rfl : (createBranchedSession samplePlatform sampleBranchEnvironment "33333333"
      labelledWorld).1 = w' := congrArg Prod.fst hcreate
  obtain ⟨oldPath, newPath, hold, hnew, hsame⟩ := hpreserved.branch
  have holdLength : (labelledWorld.manager.getBranch (some (.str "33333333"))).map
      (fun path => (nonLabels path).length) = .ok 2 := by rfl
  have hnewLength : ((createBranchedSession samplePlatform sampleBranchEnvironment "33333333"
      labelledWorld).1.manager.getBranch none).map (fun path => (nonLabels path).length) = .ok 1 := by
    rfl
  rw [hold] at holdLength
  rw [hnew] at hnewLength
  have hlength : (2 : Nat) = 1 :=
    (Except.ok.inj holdLength).symm.trans (hsame.length_eq.trans (Except.ok.inj hnewLength))
  exact absurd hlength (by decide)

theorem suits_sampleWorld :
    sampleBranchEnvironment.Suits samplePlatform (sampleWorld false) "11111111" :=
  suits_of_eq
    (show (sampleWorld false).manager.getBranch _ = .ok (sampleWorld false).manager.getEntries from rfl)
    (show _ = Except.ok (sampleWorld false).manager.getEntries from rfl) (by decide)
    (by decide) (by decide +kernel) trivial (by decide +kernel)

theorem sampleWorld_persist : (sampleWorld false).manager.persist = false := rfl

/-- A session without labels is preserved. -/
theorem createBranchedSession_preserves_sampleWorld :
    ∃ w' file, createBranchedSession samplePlatform sampleBranchEnvironment "11111111"
        (sampleWorld false) = (w', .ok file) ∧
      BranchPreserved samplePlatform (sampleWorld false).manager w'.manager "11111111" := by
  refine (createBranchedSession_preserves_iff (reachable_sampleWorld false) (by decide)
    suits_sampleWorld).mpr ⟨(sampleWorld false).manager.getEntries, [], by rfl, ?_⟩
  refine ⟨by decide, by rfl, ?_, ?_, by simp [sampleWorld_persist],
    by simp [sampleWorld_persist]⟩
  · have hnull : ∀ e ∈ keptOf [] (sampleWorld false).manager.getEntries,
        entryParentId e = some .null := by decide
    intro e he
    exact .inr (.inl (hnull e he))
  · intro front entry back hpath hcompaction
    have hmem : entry ∈ (sampleWorld false).manager.getEntries := by
      rw [hpath]
      simp
    have hno : ∀ e ∈ (sampleWorld false).manager.getEntries, hasType e "compaction" = false := by
      decide
    rw [hno entry hmem] at hcompaction
    exact absurd hcompaction (by simp)

end CodingAgent
