import OmkVerified.CodingAgent.Integrity.Proofs.StructureProofs
import OmkVerified.Agent.Proofs.TranscriptProofs

/-!
# What a report without findings certifies

The inspection ends on every byte sequence. When it finds nothing, the file is a valid header and a
forest of entries, the active branch is the path to the last entry, and its transcript is one that a
provider accepts.
-/

namespace CodingAgent.Integrity

open Lib

variable {entry : FileEntry} {leafId : Option String} {report : Report}

section Forest

variable {platform : Platform} {entries : List FileEntry}

theorem Forest.stored (h : Forest platform entries) (hentry : entry ∈ entries) :
    (indexEntries entries).get? (entryId entry) = some entry :=
  get?_indexEntries_of_nodup h.distinct hentry

/-- The parent is the entry that the parent field names. -/
theorem Forest.parentOf_eq_some (h : Forest platform entries) {child parent : FileEntry} :
    parentOf (indexEntries entries) child = some parent ↔
      parent ∈ entries ∧ entryParentId child = entryId parent := by
  constructor
  · intro hparent
    obtain ⟨-, hget⟩ := get?_of_parentOf hparent
    obtain ⟨hmem, hid⟩ := mem_of_get?_indexEntries hget
    exact ⟨hmem, hid.symm⟩
  · rintro ⟨hmem, hid⟩
    obtain ⟨id, hstr, -⟩ := entryId_of_valid (h.valid parent hmem)
    unfold parentOf
    rw [hid, if_neg (by simp [hstr])]
    exact h.stored hmem

theorem Forest.parentOf_eq_none (h : Forest platform entries) (hentry : entry ∈ entries) :
    parentOf (indexEntries entries) entry = none ↔ entryParentId entry = some .null := by
  constructor
  · intro hnone
    rcases h.parents entry hentry with hnull | hmem
    · exact hnull
    · obtain ⟨parent, hparent, hid⟩ := List.mem_map.mp hmem
      rw [h.parentOf_eq_some.mpr ⟨hparent, hid.symm⟩] at hnone
      simp at hnone
  · intro hnull
    unfold parentOf
    rw [if_pos hnull]

/-- The path from the root to an entry, as the inspector and the context builder find it. -/
theorem Forest.path (h : Forest platform entries) {entry : FileEntry} (hentry : entry ∈ entries) :
    ∃ path, walk (parentOf (indexEntries entries)) ((indexEntries entries).size + 1) entry =
        some path ∧
      pathTo (indexEntries entries) entry = .ok path ∧ path.getLast? = some entry ∧
      ParentChain (parentOf (indexEntries entries)) path ∧ ∀ e ∈ path, e ∈ entries := by
  have hclosed : ∀ a b, parentOf (indexEntries entries) a = some b → b ∈ entries :=
    fun a b hab => (h.parentOf_eq_some.mp hab).1
  have hsize : entries.length ≤ (indexEntries entries).size :=
    length_le_size h.distinct fun e he => h.stored he
  obtain ⟨path, hwalk⟩ := Option.isSome_iff_exists.mp
    ((h.ends entry hentry).walk_isSome hentry hclosed (Nat.le_succ_of_le hsize))
  obtain ⟨hlast, hchain, -⟩ := walk_eq_some_iff.mp hwalk
  refine ⟨path, hwalk, ?_, hlast, hchain, ?_⟩
  · have hsame : walk (parentOf (indexEntries entries)) ((indexEntries entries).size + 1) entry =
        walk (parentEntry (indexEntries entries)) ((indexEntries entries).size + 1) entry :=
      walk_congr (S := fun e => e ∈ entries)
        (fun e he => (parentEntry_eq_parentOf _ (h.valid e he)).symm)
        (fun a b _ hab => hclosed a b hab) hentry _
    unfold pathTo
    rw [← hsame, hwalk]
  · -- every node but the last is a parent
    intro e he
    obtain ⟨front, back, rfl⟩ := List.append_of_mem he
    cases back with
    | nil =>
      obtain rfl : e = entry := by simpa using hlast
      exact hentry
    | cons b back =>
      have hlinks := (List.isChain_append.mp hchain.links).2.1
      rw [List.isChain_cons_cons] at hlinks
      exact hclosed b e hlinks.1

end Forest

/-! ## Steps that end -/

theorem transcriptOf_ne_diverges (messages : List Json) :
    transcriptOf messages ≠ .error .diverges := by
  refine mapM_ne_diverges ?_ messages
  intro message
  unfold transcriptMessage
  split
  · split <;> simp
  · simp
  · simp
  · simp

section Branch

variable {platform : Platform} {entries : List FileEntry}

theorem Forest.isTruthy_leafKey (h : Forest platform entries) (hentry : entry ∈ entries) :
    isTruthy (entryId entry) = true := by
  obtain ⟨id, hid, hne⟩ := entryId_of_valid (h.valid entry hentry)
  rw [hid]
  simp [isTruthy, Json.truthy, hne]

/-- The branch that `buildSessionContext` resolves. -/
def contextPath (entries : List FileEntry) (leafId : Option Json) (byId : Index) :
    Except SessionError (List FileEntry) :=
  if leafId = some .null then .ok []
  else
    match contextLeaf entries leafId byId with
    | none => .ok []
    | some leaf => pathTo byId leaf

/-- `buildSessionContext` resolves the branch and takes its context. -/
theorem buildSessionContext_eq (platform : Platform) (entries : List FileEntry)
    (leafId : Option Json) (byId : Index) :
    buildSessionContext platform entries leafId byId =
      contextPath entries leafId byId >>= pathContext platform := by
  unfold buildSessionContext contextPath
  split_ifs
  · rfl
  · cases contextLeaf entries leafId byId <;> rfl

/-- The leaf of the branch that the options select. -/
def leafEntry (entries : List FileEntry) (leafId : Option String) : Option FileEntry :=
  leafId.bind fun id => (indexEntries entries).get? (some (.str id))

/-- The branch of the inspector is the branch of the context builder. -/
theorem Forest.branchOf_eq (h : Forest platform entries)
    (hleaf : ∀ id ∈ leafId, (indexEntries entries).has (some (.str id)) = true) :
    ∃ branch, branchOf (indexEntries entries) leafId = .ok branch ∧
      contextPath entries (leafKey leafId) (indexEntries entries) = .ok branch ∧
      branch.getLast? = leafEntry entries leafId ∧
      ParentChain (parentOf (indexEntries entries)) branch ∧ ∀ e ∈ branch, e ∈ entries := by
  cases leafId with
  | none => exact ⟨[], rfl, rfl, rfl, ⟨by simp, List.IsChain.nil⟩, by simp⟩
  | some id =>
    have hhas := hleaf id rfl
    rw [OrderedMap.has_iff, keys_indexEntries] at hhas
    obtain ⟨entry, hentry, hid⟩ := List.mem_map.mp hhas
    have hget : (indexEntries entries).get? (some (.str id)) = some entry := by
      rw [← hid]
      exact h.stored hentry
    obtain ⟨path, hwalk, hpath, hlast, hchain, hmem⟩ := h.path hentry
    refine ⟨path, ?_, ?_, ?_, hchain, hmem⟩
    · unfold branchOf
      simp only [Option.bind_some, hget, hwalk]
    · have htruthy := h.isTruthy_leafKey hentry
      rw [hid] at htruthy
      unfold contextPath leafKey contextLeaf
      simp only [htruthy, if_true, hget, Option.some.injEq, reduceCtorEq, if_false]
      exact hpath
    · rw [hlast]
      unfold leafEntry
      simp only [Option.bind_some, hget]

theorem Forest.inspectBranch_ok (h : Forest platform entries)
    (hleaf : ∀ id ∈ leafId, (indexEntries entries).has (some (.str id)) = true) :
    ∃ part, inspectBranch platform entries leafId (indexEntries entries) = .ok part := by
  obtain ⟨branch, hbranch, hcontext, -⟩ := h.branchOf_eq hleaf
  have htranscript : branchTranscript platform entries leafId (indexEntries entries) ≠
      .error .diverges := by
    unfold branchTranscript
    rw [buildSessionContext_eq, hcontext]
    exact bind_ne_diverges (pathContext_ne_diverges platform branch) fun _ =>
      bind_ne_diverges (transcriptOf_ne_diverges _) fun _ => pure_ne_diverges _
  unfold inspectBranch
  rw [hbranch]
  dsimp only
  split_ifs
  · exact ⟨_, rfl⟩
  · cases hresult : branchTranscript platform entries leafId (indexEntries entries) with
    | ok result => exact ⟨_, rfl⟩
    | error e =>
      cases e with
      | thrown message => exact ⟨_, rfl⟩
      | diverges => exact absurd hresult htranscript

end Branch

/-! ## The inspection -/

theorem ParsedEntry.key_eq {platform : Platform} (parsed : ParsedEntry platform) :
    entryId parsed.entry = some (.str parsed.id) := by
  obtain ⟨id, hid, -⟩ := entryId_of_valid parsed.valid
  unfold ParsedEntry.id
  rw [hid]
  rfl

/-- The inspection of the structure, without its definition. -/
structure Inspected (platform : Platform) (bytes : List UInt8) (s : Structure platform)
    (rest : List Finding) : Prop where
  inspect : inspectStructure platform bytes = .ok s
  fragment : s.fragment = bytes.drop (completePrefix bytes).length
  byId : s.byId = (indexFirst s.entries).2
  findings : s.findings =
    findingIf (!s.fragment.isEmpty) { reason := .trailingFragment } ++ rest
  structural : Structural rest
  healthy : rest = [] → ∃ header, s.header = some header ∧
    Healthy platform (completePrefix bytes) header (s.entries.map ParsedEntry.entry)

theorem exists_inspected (platform : Platform) (bytes : List UInt8) :
    ∃ s rest, Inspected platform bytes s rest := by
  obtain ⟨cycles, hcycles, hstructural, heq⟩ := inspectStructure_eq platform bytes
  refine ⟨_, _, heq, rfl, rfl, rfl, structural_restFindings platform _ hstructural, ?_⟩
  intro hrest
  exact healthy_of_restFindings hcycles hrest

section Inspected

variable {platform : Platform} {bytes : List UInt8} {s : Structure platform} {rest : List Finding}

theorem Inspected.any_isStructural (h : Inspected platform bytes s rest) :
    s.findings.any isStructural = true ↔ rest ≠ [] := by
  rw [h.findings, List.any_append]
  have hfragment : (findingIf (!s.fragment.isEmpty) { reason := .trailingFragment }).any
      isStructural = false := by
    unfold findingIf
    split_ifs <;> rfl
  rw [hfragment, Bool.false_or, List.any_eq_true]
  constructor
  · rintro ⟨finding, hmem, -⟩ rfl
    simp at hmem
  · intro hne
    obtain ⟨finding, hmem⟩ := List.exists_mem_of_ne_nil rest hne
    refine ⟨finding, hmem, ?_⟩
    have hreason := h.structural finding hmem
    unfold isStructural
    rw [decide_eq_true_eq]
    intro heq
    rw [heq] at hreason
    exact Bool.noConfusion hreason

theorem Inspected.byId_eq (h : Inspected platform bytes s rest) (hrest : rest = []) :
    s.byId = indexEntries (s.entries.map ParsedEntry.entry) := by
  obtain ⟨header, -, hhealthy⟩ := h.healthy hrest
  rw [h.byId]
  exact indexFirst_eq_indexEntries hhealthy.forest.distinct

theorem Inspected.branchPart_ok (h : Inspected platform bytes s rest) (leaf : Option String) :
    ∃ part, branchPart platform s leaf = .ok part := by
  unfold branchPart
  cases hmissing : leaf.filter fun id => !s.byId.has (some (.str id)) with
  | some missing => exact ⟨_, rfl⟩
  | none =>
    simp only
    by_cases hstructural : s.findings.any isStructural = true
    · rw [if_pos hstructural]
      exact ⟨_, rfl⟩
    · rw [if_neg hstructural]
      rw [h.any_isStructural, not_not] at hstructural
      obtain ⟨header, -, hhealthy⟩ := h.healthy hstructural
      rw [h.byId_eq hstructural] at hmissing ⊢
      refine hhealthy.forest.inspectBranch_ok ?_
      intro id hid
      rw [Option.filter_eq_none_iff] at hmissing
      simpa using hmissing id hid

end Inspected

/-- The inspection ends. -/
theorem inspectSessionIntegrity_ok (platform : Platform) (bytes : List UInt8)
    (activeLeafId : Option (Option String)) :
    ∃ report, inspectSessionIntegrity platform bytes activeLeafId = .ok report := by
  obtain ⟨s, rest, h⟩ := exists_inspected platform bytes
  obtain ⟨part, hpart⟩ := h.branchPart_ok (selectedLeaf s.entries activeLeafId)
  refine ⟨reportOf platform bytes s (selectedLeaf s.entries activeLeafId) part, ?_⟩
  unfold inspectSessionIntegrity
  rw [h.inspect]
  simp only [ok_bind, hpart, pure_eq_ok]

/-! ## Certificates -/

/-- `parent` is the entry that the parent field of `child` names. -/
def IsParent (entries : List FileEntry) (child parent : FileEntry) : Prop :=
  child ∈ entries ∧ parent ∈ entries ∧ entryParentId child = entryId parent

/-- The path leads from a root to the last entry. -/
structure RootPath (entries path : List FileEntry) : Prop where
  root : ∀ entry ∈ path.head?, entryParentId entry = some .null
  links : path.IsChain fun a b => IsParent entries b a
  last : path.getLast? = entries.getLast?

/-- What the inspection says about a file when it finds nothing. -/
structure Certified (platform : Platform) (bytes : List UInt8) (report : Report) : Prop where
  complete : completePrefix bytes = bytes
  header : ∃ header, report.header = some header ∧ ValidHeader header ∧
    Reads bytes (header :: report.entries) ∧ ∀ entry ∈ report.entries, isSession entry = false
  distinct : (report.entries.map entryId).Nodup
  parents : ∀ entry ∈ report.entries, entryParentId entry ≠ some .null →
    ∃ parent ∈ report.entries, entryId parent = entryParentId entry
  acyclic : ∀ entry, ¬ Relation.TransGen (IsParent report.entries) entry entry
  branch : RootPath report.entries report.activeBranch
  unique : ∀ path, RootPath report.entries path → path = report.activeBranch
  compactions : ∀ front compaction back, report.activeBranch = front ++ compaction :: back →
    hasType compaction "compaction" = true →
      compaction.get? "firstKeptEntryId" ∈ front.map entryId
  transcript : ∃ context messages, pathContext platform report.activeBranch = .ok context ∧
    context.messages = report.activeMessages ∧ transcriptOf context.messages = .ok messages ∧
    Agent.WellFormed messages

section Forest

variable {platform : Platform} {entries path : List FileEntry}

theorem Forest.rootPath_iff (h : Forest platform entries) :
    RootPath entries path ↔ ParentChain (parentOf (indexEntries entries)) path ∧
      (∀ e ∈ path, e ∈ entries) ∧ path.getLast? = entries.getLast? := by
  constructor
  · rintro ⟨hroot, hlinks, hlast⟩
    have hmem : ∀ e ∈ path, e ∈ entries := by
      intro e he
      obtain ⟨front, back, rfl⟩ := List.append_of_mem he
      cases back with
      | nil =>
        rw [List.getLast?_append, List.getLast?_singleton] at hlast
        exact List.mem_of_getLast? hlast.symm
      | cons b back =>
        have hstep := (List.isChain_append.mp hlinks).2.1
        rw [List.isChain_cons_cons] at hstep
        exact hstep.1.2.1
    refine ⟨⟨?_, ?_⟩, hmem, hlast⟩
    · intro e he
      exact (h.parentOf_eq_none (hmem e (List.mem_of_head? he))).mpr (hroot e he)
    · refine hlinks.imp ?_
      rintro a b ⟨-, ha, hid⟩
      exact h.parentOf_eq_some.mpr ⟨ha, hid⟩
  · rintro ⟨hchain, hmem, hlast⟩
    refine ⟨?_, ?_, hlast⟩
    · intro e he
      exact (h.parentOf_eq_none (hmem e (List.mem_of_head? he))).mp (hchain.root e he)
    · refine hchain.links.imp_of_mem_imp ?_
      intro a b ha hb hab
      exact ⟨hmem b hb, hmem a ha, (h.parentOf_eq_some.mp hab).2⟩

theorem Forest.acyclic (h : Forest platform entries) (entry : FileEntry) :
    ¬ Relation.TransGen (IsParent entries) entry entry := by
  intro hcycle
  have hmem : entry ∈ entries := by
    obtain ⟨b, hb, -⟩ := Relation.TransGen.head'_iff.mp hcycle
    exact hb.1
  refine (h.ends entry hmem).not_transGen (Relation.TransGen.mono ?_ _ _ hcycle)
  rintro a b ⟨-, hb, hid⟩
  exact h.parentOf_eq_some.mpr ⟨hb, hid⟩

end Forest

theorem compactionFindings_eq_nil {ancestorIds : List (Option Json)} {path : List FileEntry}
    (h : compactionFindings ancestorIds path = []) {front back : List FileEntry}
    {compaction : FileEntry} (hsplit : path = front ++ compaction :: back)
    (htype : hasType compaction "compaction" = true) :
    compaction.get? "firstKeptEntryId" ∈ ancestorIds ++ front.map entryId := by
  induction front generalizing ancestorIds path with
  | nil =>
    rw [hsplit] at h
    unfold compactionFindings at h
    have hnil := (List.append_eq_nil_iff.mp h).1
    rw [findingIf_eq_nil, htype] at hnil
    simpa using hnil
  | cons e front ih =>
    rw [hsplit, List.cons_append] at h
    unfold compactionFindings at h
    have hrest := ih (List.append_eq_nil_iff.mp h).2 rfl
    rw [List.append_assoc] at hrest
    exact hrest

section Inspected

variable {platform : Platform} {bytes : List UInt8} {s : Structure platform} {rest : List Finding}

/-- The leaf that the inspection selects by itself is the last entry. -/
theorem Inspected.leafEntry_eq (h : Inspected platform bytes s rest) (hrest : rest = []) :
    leafEntry (s.entries.map ParsedEntry.entry) (selectedLeaf s.entries none) =
      (s.entries.map ParsedEntry.entry).getLast? := by
  obtain ⟨header, -, hhealthy⟩ := h.healthy hrest
  unfold leafEntry selectedLeaf
  rw [List.getLast?_map]
  cases hlast : s.entries.getLast? with
  | none => rfl
  | some parsed =>
    have hmem : parsed.entry ∈ s.entries.map ParsedEntry.entry :=
      List.mem_map_of_mem (List.mem_of_getLast? hlast)
    show (indexEntries (s.entries.map ParsedEntry.entry)).get? (some (.str parsed.id)) =
      some parsed.entry
    rw [← parsed.key_eq]
    exact hhealthy.forest.stored hmem

theorem selectedLeaf_mem (entries : List (ParsedEntry platform)) :
    ∀ id ∈ selectedLeaf entries none,
      (indexEntries (entries.map ParsedEntry.entry)).has (some (.str id)) = true := by
  intro id hid
  unfold selectedLeaf at hid
  obtain ⟨parsed, hlast, rfl⟩ := Option.map_eq_some_iff.mp hid
  rw [OrderedMap.has_iff, keys_indexEntries, ← parsed.key_eq]
  exact List.mem_map_of_mem (List.mem_map_of_mem (List.mem_of_getLast? hlast))

/-- In a healthy file the active branch is inspected. -/
theorem Inspected.branchPart_eq (h : Inspected platform bytes s rest) (hrest : rest = []) :
    branchPart platform s (selectedLeaf s.entries none) =
      inspectBranch platform (s.entries.map ParsedEntry.entry) (selectedLeaf s.entries none)
        (indexEntries (s.entries.map ParsedEntry.entry)) := by
  have hmem := selectedLeaf_mem s.entries
  have hbyId := h.byId_eq hrest
  have hfilter : (selectedLeaf s.entries none).filter
      (fun id => !s.byId.has (some (.str id))) = none := by
    rw [Option.filter_eq_none_iff]
    intro id hid
    rw [hbyId, hmem id hid]
    simp
  have hstructural : ¬ s.findings.any isStructural = true := by
    rw [h.any_isStructural, not_not]
    exact hrest
  unfold branchPart
  rw [hfilter]
  simp only
  rw [if_neg hstructural, hbyId]

end Inspected

theorem structural_compactionFindings (ancestorIds : List (Option Json)) (path : List FileEntry) :
    Structural (compactionFindings ancestorIds path) := by
  induction path generalizing ancestorIds with
  | nil => exact structural_nil
  | cons entry path ih => exact structural_append.mpr ⟨structural_findingIf rfl, ih _⟩

/-- What the inspection of a branch returns: it stops at a finding, or it reaches the transcript. -/
theorem inspectBranch_cases {platform : Platform} {entries : List FileEntry} {byId : Index}
    {part : BranchPart} (h : inspectBranch platform entries leafId byId = .ok part) :
    (part.transcript = none ∧ Structural part.findings ∧ part.findings ≠ []) ∨
      ∃ transcript, branchOf byId leafId = .ok part.activeBranch ∧
        compactionFindings [] part.activeBranch = [] ∧
        branchTranscript platform entries leafId byId = .ok (part.activeMessages, transcript) ∧
        part.findings = transcript.issues.map issueFinding ∧ part.transcript = some transcript := by
  unfold inspectBranch at h
  cases hbranch : branchOf byId leafId with
  | error e =>
    rw [hbranch] at h
    simp at h
  | ok branch =>
    rw [hbranch] at h
    dsimp only at h
    split_ifs at h with hcompactions
    · obtain rfl := Except.ok.inj h
      refine .inl ⟨rfl, structural_compactionFindings [] branch, ?_⟩
      simpa using hcompactions
    · split at h
      · rename_i messages transcript htranscript
        obtain rfl := Except.ok.inj h
        exact .inr ⟨transcript, rfl, by simpa using hcompactions, htranscript, rfl, rfl⟩
      · obtain rfl := Except.ok.inj h
        exact .inl ⟨rfl, structural_cons.mpr ⟨rfl, structural_nil⟩, by simp⟩
      · simp at h

theorem completePrefix_isPrefix (bytes : List UInt8) : completePrefix bytes <+: bytes := by
  unfold completePrefix
  rw [← List.reverse_suffix, List.reverse_reverse]
  exact List.dropWhile_suffix _

theorem completePrefix_of_fragment {bytes : List UInt8}
    (h : bytes.drop (completePrefix bytes).length = []) : completePrefix bytes = bytes := by
  obtain ⟨tail, htail⟩ := completePrefix_isPrefix bytes
  have hlength : bytes.length ≤ (completePrefix bytes).length := List.drop_eq_nil_iff.mp h
  have hnil : tail = [] := by
    have := congrArg List.length htail
    rw [List.length_append] at this
    exact List.length_eq_zero_iff.mp (by omega)
  rw [hnil, List.append_nil] at htail
  exact htail

theorem ok_eq_isEmpty {platform : Platform} {bytes : List UInt8}
    (h : inspectSessionIntegrity platform bytes = .ok report) :
    report.ok = report.findings.isEmpty := by
  unfold inspectSessionIntegrity at h
  obtain ⟨s, -, hmore⟩ := bind_eq_ok.mp h
  obtain ⟨part, -, heq⟩ := bind_eq_ok.mp hmore
  obtain rfl := Except.ok.inj heq
  rfl

/-- The finding on a trailing fragment. -/
def fragmentFindings (bytes : List UInt8) : List Finding :=
  findingIf (!(bytes.drop (completePrefix bytes).length).isEmpty) { reason := .trailingFragment }

/-- The parent id that continues the last entry. -/
def lastId (entries : List FileEntry) : Option Json :=
  match entries.getLast? with
  | some last => entryId last
  | none => some .null

/-- An inspection that reaches the transcript of the active branch. -/
structure Reached (platform : Platform) (bytes : List UInt8) (report : Report) (header : FileEntry)
    (messages : List Agent.AgentMessage) : Prop where
  header_eq : report.header = some header
  healthy : Healthy platform (completePrefix bytes) header report.entries
  leaf : leafKey report.activeLeafId = lastId report.entries
  branch : RootPath report.entries report.activeBranch
  compactions : compactionFindings [] report.activeBranch = []
  context : ∃ context, pathContext platform report.activeBranch = .ok context ∧
    context.messages = report.activeMessages
  messages_eq : transcriptOf report.activeMessages = .ok messages
  transcript : report.transcript = some (Agent.inspectTranscriptIntegrity messages)
  findings : report.findings = fragmentFindings bytes ++
    (Agent.inspectTranscriptIntegrity messages).issues.map issueFinding

/-- An inspection that stops before. -/
structure Stopped (bytes : List UInt8) (report : Report) (others : List Finding) : Prop where
  transcript : report.transcript = none
  findings : report.findings = fragmentFindings bytes ++ others
  structural : Structural others
  nonempty : others ≠ []

/-- An inspection that reaches the transcript of the branch of its leaf, whichever leaf that is. -/
structure Followed (platform : Platform) (bytes : List UInt8) (report : Report) (header : FileEntry)
    (messages : List Agent.AgentMessage) : Prop where
  header_eq : report.header = some header
  healthy : Healthy platform (completePrefix bytes) header report.entries
  named : ∀ id ∈ report.activeLeafId, (indexEntries report.entries).has (some (.str id)) = true
  chain : ParentChain (parentOf (indexEntries report.entries)) report.activeBranch
  members : ∀ entry ∈ report.activeBranch, entry ∈ report.entries
  last : report.activeBranch.getLast? = leafEntry report.entries report.activeLeafId
  compactions : compactionFindings [] report.activeBranch = []
  context : ∃ context, pathContext platform report.activeBranch = .ok context ∧
    context.messages = report.activeMessages
  messages_eq : transcriptOf report.activeMessages = .ok messages
  transcript : report.transcript = some (Agent.inspectTranscriptIntegrity messages)
  findings : report.findings = fragmentFindings bytes ++
    (Agent.inspectTranscriptIntegrity messages).issues.map issueFinding

/-- The inspection of any branch stops at a structural finding, or it reaches the transcript. -/
theorem followed_cases {platform : Platform} {bytes : List UInt8}
    {activeLeafId : Option (Option String)}
    (h : inspectSessionIntegrity platform bytes activeLeafId = .ok report) :
    (∃ others, Stopped bytes report others) ∨
      ∃ header messages, Followed platform bytes report header messages := by
  obtain ⟨s, rest, hs⟩ := exists_inspected platform bytes
  unfold inspectSessionIntegrity at h
  rw [hs.inspect, ok_bind] at h
  obtain ⟨part, hpart, heq⟩ := bind_eq_ok.mp h
  obtain rfl := Except.ok.inj heq
  have hfragment : findingIf (!s.fragment.isEmpty) { reason := .trailingFragment } =
      fragmentFindings bytes := by
    rw [hs.fragment]
    rfl
  have hfindings : s.findings ++ part.findings = fragmentFindings bytes ++ (rest ++ part.findings) := by
    rw [hs.findings, hfragment, List.append_assoc]
  unfold branchPart at hpart
  split at hpart
  · -- the leaf is missing
    obtain rfl := Except.ok.inj hpart
    refine .inl ⟨_, rfl, hfindings, structural_append.mpr ⟨hs.structural, ?_⟩, by simp⟩
    exact structural_cons.mpr ⟨rfl, structural_nil⟩
  · rename_i hnamed
    split_ifs at hpart with hstructural
    · obtain rfl := Except.ok.inj hpart
      exact .inl ⟨_, rfl, hfindings, structural_append.mpr ⟨hs.structural, structural_nil⟩,
        by simpa using hs.any_isStructural.mp hstructural⟩
    · rw [hs.any_isStructural, not_not] at hstructural
      rw [hstructural, List.nil_append] at hfindings
      rw [hs.byId_eq hstructural] at hpart hnamed
      rcases inspectBranch_cases hpart with ⟨hnone, hpartStructural, hne⟩ | hreached
      · exact .inl ⟨part.findings, hnone, hfindings, hpartStructural, hne⟩
      · obtain ⟨transcript, hbranch, hcompactions, htranscript, hpartFindings, hpartTranscript⟩ :=
          hreached
        obtain ⟨header, hheader, hhealthy⟩ := hs.healthy hstructural
        have hleaf : ∀ id ∈ selectedLeaf s.entries activeLeafId,
            (indexEntries (s.entries.map ParsedEntry.entry)).has (some (.str id)) = true := by
          rw [Option.filter_eq_none_iff] at hnamed
          intro id hid
          simpa using hnamed id hid
        obtain ⟨branch, hbranch', hcontext, hlast, hchain, hmem⟩ :=
          hhealthy.forest.branchOf_eq hleaf
        obtain rfl : part.activeBranch = branch := Except.ok.inj (hbranch.symm.trans hbranch')
        unfold branchTranscript at htranscript
        rw [buildSessionContext_eq, hcontext, ok_bind] at htranscript
        obtain ⟨context, hpathContext, hmore⟩ := bind_eq_ok.mp htranscript
        obtain ⟨read, hread, hpure⟩ := bind_eq_ok.mp hmore
        obtain ⟨hmessages, rfl⟩ := Prod.mk.inj (Except.ok.inj hpure)
        rw [hmessages] at hread
        refine .inr ⟨header, read, hheader, hhealthy, hleaf, hchain, hmem, hlast, hcompactions,
          ⟨context, hpathContext, hmessages⟩, hread, hpartTranscript, ?_⟩
        rw [← hpartFindings]
        exact hfindings

theorem leaf_of_inspection {platform : Platform} {bytes : List UInt8}
    (h : inspectSessionIntegrity platform bytes = .ok report) :
    leafKey report.activeLeafId = lastId report.entries := by
  obtain ⟨s, -, h⟩ := bind_eq_ok.mp h
  obtain ⟨part, -, heq⟩ := bind_eq_ok.mp h
  obtain rfl := Except.ok.inj heq
  show leafKey (selectedLeaf s.entries none) = lastId (s.entries.map ParsedEntry.entry)
  unfold selectedLeaf lastId
  rw [List.getLast?_map]
  cases s.entries.getLast? with
  | none => rfl
  | some parsed => exact parsed.key_eq.symm

theorem Forest.leafEntry_eq {platform : Platform} {entries : List FileEntry}
    (h : Forest platform entries) (hleaf : leafKey leafId = lastId entries) :
    leafEntry entries leafId = entries.getLast? := by
  unfold lastId at hleaf
  cases hlast : entries.getLast? with
  | none =>
    rw [hlast] at hleaf
    cases leafId with
    | none => rfl
    | some id => simp [leafKey] at hleaf
  | some entry =>
    have hkey : leafKey leafId = entryId entry := by
      rw [hlast] at hleaf
      exact hleaf
    obtain ⟨id, hid, -⟩ := entryId_of_valid (h.valid entry (List.mem_of_getLast? hlast))
    cases leafId with
    | none =>
      rw [hid] at hkey
      simp [leafKey] at hkey
    | some leaf =>
      have hstored := h.stored (List.mem_of_getLast? hlast)
      rw [← hkey] at hstored
      exact hstored

/-- The inspection stops at a structural finding, or it reaches the transcript. -/
theorem inspectSessionIntegrity_cases {platform : Platform} {bytes : List UInt8}
    (h : inspectSessionIntegrity platform bytes = .ok report) :
    (∃ others, Stopped bytes report others) ∨
      ∃ header messages, Reached platform bytes report header messages := by
  rcases followed_cases h with hstopped | ⟨header, messages, hf⟩
  · exact .inl hstopped
  · have hleaf := leaf_of_inspection h
    have hlast := hf.last.trans (hf.healthy.forest.leafEntry_eq hleaf)
    exact .inr ⟨header, messages, hf.header_eq, hf.healthy, hleaf,
      hf.healthy.forest.rootPath_iff.mpr ⟨hf.chain, hf.members, hlast⟩, hf.compactions, hf.context,
      hf.messages_eq, hf.transcript, hf.findings⟩

/-- A file in which the inspection finds nothing. -/
structure Passed (platform : Platform) (bytes : List UInt8) (report : Report) (header : FileEntry) :
    Prop where
  header_eq : report.header = some header
  complete : completePrefix bytes = bytes
  healthy : Healthy platform bytes header report.entries
  branch : RootPath report.entries report.activeBranch
  compactions : compactionFindings [] report.activeBranch = []
  transcript : ∃ context messages, pathContext platform report.activeBranch = .ok context ∧
    context.messages = report.activeMessages ∧ transcriptOf context.messages = .ok messages ∧
    (Agent.inspectTranscriptIntegrity messages).issues = []

theorem passed_of_ok {platform : Platform} {bytes : List UInt8}
    (h : inspectSessionIntegrity platform bytes = .ok report) (hok : report.ok = true) :
    ∃ header, Passed platform bytes report header := by
  have hfindings : report.findings = [] := by
    rw [ok_eq_isEmpty h] at hok
    exact List.isEmpty_iff.mp hok
  rcases inspectSessionIntegrity_cases h with ⟨others, hstopped⟩ | ⟨header, messages, hreached⟩
  · rw [hstopped.findings, List.append_eq_nil_iff] at hfindings
    exact absurd hfindings.2 hstopped.nonempty
  · rw [hreached.findings, List.append_eq_nil_iff, List.map_eq_nil_iff] at hfindings
    obtain ⟨hfragment, hissues⟩ := hfindings
    unfold fragmentFindings at hfragment
    rw [findingIf_eq_nil, Bool.not_eq_false', List.isEmpty_iff] at hfragment
    have hcomplete := completePrefix_of_fragment hfragment
    have hhealthy := hreached.healthy
    rw [hcomplete] at hhealthy
    obtain ⟨context, hcontext, hmessages⟩ := hreached.context
    refine ⟨header, hreached.header_eq, hcomplete, hhealthy, hreached.branch,
      hreached.compactions, context, messages, hcontext, hmessages, ?_, hissues⟩
    rw [hmessages]
    exact hreached.messages_eq

/-- There is one path from a root to the last entry. -/
theorem Forest.rootPath_unique {platform : Platform} {entries path path' : List FileEntry}
    (h : Forest platform entries) (hpath : RootPath entries path) (hpath' : RootPath entries path') :
    path = path' := by
  obtain ⟨hchain, -, hlast⟩ := h.rootPath_iff.mp hpath
  obtain ⟨hchain', -, hlast'⟩ := h.rootPath_iff.mp hpath'
  cases hleaf : entries.getLast? with
  | none =>
    rw [hleaf, List.getLast?_eq_none_iff] at hlast hlast'
    rw [hlast, hlast']
  | some leaf => exact hchain.unique hchain' (hlast.trans hleaf) (hlast'.trans hleaf)

/-- The inspection ends on every byte sequence, whatever leaf is asked for. When it reports nothing,
the lines are one valid header and entries with distinct ids, whose parents exist and form no cycle;
the active branch is the only path from a root to the last entry; each compaction on it names an
ancestor as the first kept entry; and the transcript of its context is well-formed. -/
theorem inspectSessionIntegrity_certified (platform : Platform) (bytes : List UInt8) :
    (∀ activeLeafId, ∃ report, inspectSessionIntegrity platform bytes activeLeafId = .ok report) ∧
      ∀ report, inspectSessionIntegrity platform bytes = .ok report → report.ok = true →
        Certified platform bytes report := by
  refine ⟨inspectSessionIntegrity_ok platform bytes, ?_⟩
  intro report hreport hok
  obtain ⟨header, h⟩ := passed_of_ok hreport hok
  have hforest := h.healthy.forest
  refine ⟨h.complete, ⟨header, h.header_eq, h.healthy.header, h.healthy.reads, h.healthy.others⟩,
    hforest.distinct, ?_, hforest.acyclic, h.branch, ?_, ?_, ?_⟩
  · intro entry hentry hnull
    obtain ⟨parent, hparent, hid⟩ :=
      List.mem_map.mp ((hforest.parents entry hentry).resolve_left hnull)
    exact ⟨parent, hparent, hid⟩
  · intro path hpath
    exact hforest.rootPath_unique hpath h.branch
  · intro front compaction back hsplit htype
    simpa using compactionFindings_eq_nil h.compactions hsplit htype
  · obtain ⟨context, messages, hcontext, hmessages, hread, hissues⟩ := h.transcript
    refine ⟨context, messages, hcontext, hmessages, hread, ?_⟩
    rw [← Agent.ok_iff_wellFormed, Agent.ok_iff_issues_eq_nil]
    exact hissues

end CodingAgent.Integrity
