import OmkVerified.CodingAgent.Session.Proofs.BranchedSessionProofs

/-!
# Labels before and after branching

The labels of a branched session come from two sources: the label entries that are copied because a
compaction envelope refers to them, and the label entries that are written behind the copied path.
The last one for an entry decides. A copied label entry brings back a label that was cleared
afterwards, since nothing is written for an entry that has no label.
-/

namespace CodingAgent

open Lib

/-! ## The last label entry -/

theorem preservedLabels_append_label (entries : List FileEntry) {entry : FileEntry}
    (h : hasType entry "label" = true) :
    preservedLabels (entries ++ [entry]) =
      (preservedLabels entries).set (entry.get? "targetId") (entry.get? "label") := by
  unfold preservedLabels
  rw [List.filter_append, List.filter_cons_of_pos (by simpa using h), List.filter_nil, List.foldl_append]
  rfl

theorem preservedLabels_append_other (entries : List FileEntry) {entry : FileEntry}
    (h : hasType entry "label" = false) :
    preservedLabels (entries ++ [entry]) = preservedLabels entries := by
  unfold preservedLabels
  rw [List.filter_append, List.filter_cons_of_neg (by simp [h]), List.filter_nil, List.append_nil]

/-- The last label entry for an id is the last one behind, or else the last one in front. -/
theorem get?_preservedLabels_append (front back : List FileEntry) (id : Option Json) :
    (preservedLabels (front ++ back)).get? id =
      ((preservedLabels back).get? id).or ((preservedLabels front).get? id) := by
  induction back using List.reverseRecOn with
  | nil =>
    rw [List.append_nil]
    rfl
  | append_singleton back entry ih =>
    rw [← List.append_assoc]
    by_cases h : hasType entry "label" = true
    · rw [preservedLabels_append_label _ h, preservedLabels_append_label _ h, OrderedMap.get?_set,
        OrderedMap.get?_set]
      split_ifs
      · rfl
      · exact ih
    · rw [Bool.not_eq_true] at h
      rw [preservedLabels_append_other _ h, preservedLabels_append_other _ h, ih]

/-- A label entry decides the label of its target and of no other id. -/
theorem IndexState.get?_applyLabel (s : IndexState) (targetId label timestamp id : Option Json) :
    (s.applyLabel targetId label timestamp).labelsById.get? id =
      if id = targetId then label.filter Json.truthy else s.labelsById.get? id := by
  unfold applyLabel
  cases label with
  | none => exact OrderedMap.get?_delete ..
  | some value =>
    by_cases htruthy : value.truthy = true
    · rw [Option.filter_some_pos htruthy]
      simp only [htruthy, if_true]
      exact OrderedMap.get?_set ..
    · rw [Option.filter_some_neg (by simpa using htruthy)]
      simp only [htruthy]
      exact OrderedMap.get?_delete ..

theorem get?_labelsById_buildIndex (entries : List FileEntry) (id : Option Json) :
    (buildIndex entries).labelsById.get? id =
      ((preservedLabels entries).get? id).join.filter Json.truthy := by
  induction entries using List.reverseRecOn with
  | nil => rfl
  | append_singleton entries entry ih =>
    rw [buildIndex_append]
    unfold IndexState.step
    by_cases hs : isSession entry = true
    · rw [if_pos hs, ih, preservedLabels_append_other _ (hasType_eq_false hs (by decide))]
    rw [if_neg hs]
    by_cases h : hasType entry "label" = true
    · rw [preservedLabels_append_label _ h, OrderedMap.get?_set]
      simp only [h, if_true]
      rw [IndexState.get?_applyLabel]
      split_ifs
      · rfl
      · exact ih
    · rw [Bool.not_eq_true] at h
      rw [preservedLabels_append_other _ h]
      simp only [h, Bool.false_eq_true, if_false]
      exact ih

theorem truthy_of_get?_labelsById {entries : List FileEntry} {id : Option Json} {label : Json}
    (h : (buildIndex entries).labelsById.get? id = some label) : label.truthy = true := by
  rw [get?_labelsById_buildIndex] at h
  exact (Option.filter_eq_some_iff.mp h).2

/-! ## The label entries that are written -/

/-- Among the written label entries the last one for an id is one of the labels to write. -/
theorem get?_preservedLabels_makeLabelEntries (uuids : Nat → Nat → Uuid)
    (labels : List LabelToWrite) (taken : List (Option Json)) (parentId : Json) (call : Nat)
    (id : Option Json) :
    ((∀ label ∈ labels, some label.targetId ≠ id) ∧
        (preservedLabels (makeLabelEntries uuids labels taken parentId call)).get? id = none) ∨
      ∃ label ∈ labels, some label.targetId = id ∧
        (preservedLabels (makeLabelEntries uuids labels taken parentId call)).get? id =
          some (some label.label) := by
  induction labels generalizing taken parentId call with
  | nil => exact .inl ⟨by simp, rfl⟩
  | cons label labels ih =>
    have happend : ∀ entry : FileEntry, ∀ entries, entry :: entries = [entry] ++ entries :=
      fun _ _ => rfl
    have hfirst : ∀ newId, (preservedLabels [labelEntry label newId parentId]).get? id =
        if id = some label.targetId then some (some label.label) else none := fun _ =>
      OrderedMap.get?_set .empty _ _ _
    simp only [makeLabelEntries]
    rw [happend, get?_preservedLabels_append, hfirst]
    obtain ⟨hnone, hget⟩ | ⟨last, hmem, htarget, hget⟩ := ih
      (taken ++ [some (.str (generateId (fun id => taken.contains (some (.str id))) (uuids call)))])
      (.str (generateId (fun id => taken.contains (some (.str id))) (uuids call))) (call + 1)
    · rw [hget, Option.none_or]
      by_cases hid : id = some label.targetId
      · exact .inr ⟨label, by simp, hid.symm, by rw [if_pos hid]⟩
      · refine .inl ⟨?_, by rw [if_neg hid]⟩
        intro other hother
        rcases List.mem_cons.mp hother with rfl | hother
        · exact fun h => hid h.symm
        · exact hnone other hother
    · exact .inr ⟨last, List.mem_cons_of_mem _ hmem, htarget, by rw [hget]; rfl⟩

variable {m : Manager} {copied : List FileEntry}

/-- The labels that are written: those of copied entries with a time that the copied label entries
do not give. -/
theorem mem_labelsToWrite {label : LabelToWrite} (h : label ∈ labelsToWrite m copied) :
    m.labelsById.get? (some label.targetId) = some label.label ∧
      isTruthy (m.labelTimestampsById.get? (some label.targetId)).join = true ∧
      ((preservedLabels copied).get? (some label.targetId)).join ≠ some label.label := by
  obtain ⟨⟨target, value⟩, hmem, hwrite⟩ := List.mem_filterMap.mp h
  unfold labelToWrite at hwrite
  split at hwrite
  · rename_i targetId timestamp htarget htime
    obtain rfl : target = some targetId := htarget
    split_ifs at hwrite with hcond
    obtain rfl := Option.some.inj hwrite
    simp only [Bool.and_eq_true, decide_eq_true_eq] at hcond
    exact ⟨OrderedMap.get?_eq_some_iff.mpr hmem, by rw [htime]; exact hcond.1.2, hcond.2⟩
  · exact absurd hwrite (by simp)

theorem exists_labelToWrite {id : Option Json} (hkey : IsKey id) (hid : id ∈ copied.map entryId)
    {value : Json} (hvalue : m.labelsById.get? id = some value)
    (htime : isTruthy (m.labelTimestampsById.get? id).join = true)
    (hother : ((preservedLabels copied).get? id).join ≠ some value) :
    ∃ label ∈ labelsToWrite m copied, some label.targetId = id := by
  obtain ⟨targetId, rfl, -, hprim⟩ := hkey
  obtain ⟨timestamp, hstamp, htruthy⟩ := (Option.any_eq_true _ _).mp htime
  refine ⟨⟨targetId, value, timestamp⟩, ?_, rfl⟩
  refine List.mem_filterMap.mpr ⟨(some targetId, value), OrderedMap.get?_eq_some_iff.mp hvalue, ?_⟩
  unfold labelToWrite
  simp only [hstamp, hprim, htruthy, List.contains_iff_mem.mpr hid, Bool.and_true,
    hother, ne_eq, not_false_eq_true, decide_true, if_true]

/-! ## The labels of the new session -/

/-- When branching keeps the label of `id`: an id without a label has no copied label entry that
sets one, and a label has a time with which it can be written again, unless the last copied label
entry sets it. -/
def KeepsLabel (m : Manager) (copied : List FileEntry) (id : Option Json) : Prop :=
  match m.labelsById.get? id with
  | none => isTruthy ((preservedLabels copied).get? id).join = false
  | some label => ((preservedLabels copied).get? id).join = some label ∨
      isTruthy (m.labelTimestampsById.get? id).join = true

instance (m : Manager) (copied : List FileEntry) (id : Option Json) :
    Decidable (KeepsLabel m copied id) := by
  unfold KeepsLabel
  cases m.labelsById.get? id <;> infer_instance

theorem get?_preservedLabels_branchRecords (env : BranchEnvironment) (m : Manager)
    (copied : List FileEntry) (id : Option Json) :
    (preservedLabels (branchRecords env m copied)).get? id =
      ((preservedLabels (branchLabels env m copied)).get? id).or
        ((preservedLabels copied).get? id) := by
  have hheader : preservedLabels [branchHeader env m] = .empty := rfl
  rw [branchRecords_eq, ← List.singleton_append, get?_preservedLabels_append, hheader,
    OrderedMap.get?_empty, Option.or_none, get?_preservedLabels_append]

theorem labelsById_branchRecords_iff {env : BranchEnvironment} (hindexed : Indexed m)
    {id : Option Json} (hkey : IsKey id) (hid : id ∈ copied.map entryId) :
    (buildIndex (branchRecords env m copied)).labelsById.get? id = m.labelsById.get? id ↔
      KeepsLabel m copied id := by
  rw [get?_labelsById_buildIndex, get?_preservedLabels_branchRecords]
  unfold KeepsLabel
  obtain ⟨hnone, hget⟩ | ⟨label, hmem, rfl, hget⟩ :=
    get?_preservedLabels_makeLabelEntries env.uuids (labelsToWrite m copied) (copied.map entryId)
      (lastIdOrNull copied) 0 id
  · rw [branchLabels, hget, Option.none_or]
    cases hold : m.labelsById.get? id with
    | none =>
      unfold isTruthy
      cases ((preservedLabels copied).get? id).join with
      | none => simp
      | some label => cases htruthy : label.truthy <;> simp [htruthy]
    | some label =>
      have htruthy : label.truthy = true := truthy_of_get?_labelsById (hindexed.labels ▸ hold)
      -- a label with a time is written again when the copied label entries do not give it
      have hwritten : isTruthy (m.labelTimestampsById.get? id).join = true →
          ((preservedLabels copied).get? id).join = some label := by
        intro htime
        by_contra hother
        obtain ⟨written, hmem, htarget⟩ := exists_labelToWrite hkey hid hold htime hother
        exact hnone written hmem htarget
      rw [Option.filter_eq_some_iff]
      exact ⟨fun h => .inl h.1, fun h => ⟨h.elim (fun h => h) hwritten, htruthy⟩⟩
  · obtain ⟨hold, htime, -⟩ := mem_labelsToWrite hmem
    have htruthy : label.label.truthy = true := truthy_of_get?_labelsById (hindexed.labels ▸ hold)
    rw [branchLabels, hget, hold, Option.some_or]
    exact iff_of_true (Option.filter_some_pos htruthy) (.inr htime)

/-- Branching keeps the labels of the copied entries exactly when no copied label entry brings one
back and each label has a time. -/
theorem createBranchedSession_labels_iff {platform : Platform} {env : BranchEnvironment}
    {w w' : World} (hreachable : Reachable platform w) {leafId : String} {file : Option String}
    (hcreate : createBranchedSession platform env leafId w = (w', .ok file)) :
    (∀ e ∈ nonLabels w'.manager.getEntries,
        w'.manager.labelsById.get? (entryId e) = w.manager.labelsById.get? (entryId e)) ↔
      ∀ path referenced, w.manager.getBranch (some (.str leafId)) = .ok path →
        referencedIds path = .ok referenced →
        ∀ e ∈ nonLabels path, KeepsLabel w.manager (keptOf referenced path) (entryId e) := by
  have hindexed := hreachable.indexed
  have hnew : Indexed w'.manager := by
    have h := @Indexed.createBranchedSession platform env _ hindexed leafId
    rwa [hcreate] at h
  obtain ⟨path, copied, hpath, hne, hcopied, -, hentries, hbyId, hleafId⟩ :=
    createBranchedSession_ok hcreate
  obtain ⟨hbranch, -⟩ := isBranch_of_getBranch hindexed hpath hne
  obtain ⟨referenced, hids, -⟩ := bind_eq_ok.mp hcopied
  have hsame := copied_same hids hcopied
  have hholds := holdsBranch_switchTo
    (isSession_of_same hsame fun e he => hbranch.entries e (List.mem_filter.mp he).1)
    hentries hbyId hleafId
  have hpreserved : preservedLabels copied = preservedLabels (keptOf referenced path) :=
    preservedLabels_same hsame
  have hkept : nonLabels (keptOf referenced path) = nonLabels path := nonLabels_keptOf referenced path
  have hids' : (nonLabels copied).map entryId = (nonLabels path).map entryId := by
    rw [map_entryId_of_same (nonLabels_same hsame), hkept]
  have hlabel : ∀ e ∈ nonLabels copied,
      (w'.manager.labelsById.get? (entryId e) = w.manager.labelsById.get? (entryId e) ↔
        KeepsLabel w.manager (keptOf referenced path) (entryId e)) := by
    intro e he
    have hmem : e ∈ copied := (List.mem_filter.mp he).1
    have hkey : IsKey (entryId e) := by
      obtain ⟨a, ha, hid⟩ := List.mem_map.mp
        (map_entryId_of_same hsame ▸ List.mem_map_of_mem (f := entryId) hmem)
      rw [← hid]
      exact hbranch.linked.keys a (List.mem_filter.mp ha).1
    rw [hnew.labels, hentries, labelsById_branchRecords_iff hindexed hkey
      (List.mem_map_of_mem hmem)]
    unfold KeepsLabel
    rw [hpreserved]
  have hentries' : nonLabels w'.manager.getEntries = nonLabels copied := by
    rw [hholds.entries_eq, nonLabels_append, nonLabels_labels hasType_branchLabels, List.append_nil]
  rw [hentries']
  constructor
  · intro h path' referenced' hpath' hids'' e he
    obtain rfl := Except.ok.inj (hpath.symm.trans hpath')
    obtain rfl := Except.ok.inj (hids.symm.trans hids'')
    obtain ⟨a, ha, hid⟩ := List.mem_map.mp (hids' ▸ List.mem_map_of_mem (f := entryId) he)
    rw [← hid]
    exact (hlabel a ha).mp (h a ha)
  · intro h e he
    obtain ⟨a, ha, hid⟩ := List.mem_map.mp (hids' ▸ List.mem_map_of_mem (f := entryId) he)
    exact (hlabel e he).mpr (hid ▸ h path referenced hpath hids a ha)

/-! ## A label that comes back -/

/-- The envelope of a compaction over the first two entries of a session. -/
def branchEnvelope : CompactionEnvelope where
  transactionId := "t"
  baseRevision := ⟨"s", 1, 3, some "22222222", some "22222222",
    String.ofList (List.replicate 64 '0'), none⟩
  source := ⟨"s", ["11111111", "22222222"], "11111111", "22222222",
    String.ofList (List.replicate 64 '0'), "22222222", 2⟩
  createdAt := "2026-01-01T00:00:00.000Z"
  model := ⟨"p", "m"⟩
  summary := "a"
  summarySha256 := String.ofList (List.replicate 64 '0')
  preserved := ⟨"a", [], [], [], [], [], [], none, none, [], "b"⟩

/-- A label, a compaction of the entry and its label, and the label cleared. -/
def clearedWorld : World :=
  Operation.run samplePlatform
    (Operation.run samplePlatform
      (Operation.run samplePlatform (sampleWorld false)
        (.appendLabelChange (sampleEnvironment 2) "11111111" (some "x")))
      (.appendCompaction (sampleEnvironment 3) "a" "11111111" (.ofNat 1)
        (some (.obj [("compactionEnvelope", branchEnvelope.toJson)])) none))
    (.appendLabelChange (sampleEnvironment 4) "11111111" none)

theorem reachable_clearedWorld : Reachable samplePlatform clearedWorld :=
  .step (.step (.step (reachable_sampleWorld false) _) _) _

theorem eq_of_result {α : Type} {run : World × Result α} {result : Result α} (h : run.2 = result) :
    run = (run.1, result) := by
  rw [← h]

/-- Branching at the entry that clears the label. -/
theorem createBranchedSession_clearedWorld :
    (createBranchedSession samplePlatform sampleBranchEnvironment "44444444" clearedWorld).2 =
        .ok none ∧
      ∃ e ∈ nonLabels (createBranchedSession samplePlatform sampleBranchEnvironment "44444444"
          clearedWorld).1.manager.getEntries,
        clearedWorld.manager.labelsById.get? (entryId e) = none ∧
          (createBranchedSession samplePlatform sampleBranchEnvironment "44444444"
            clearedWorld).1.manager.labelsById.get? (entryId e) = some (.str "x") := by
  decide +kernel

/-- The label was cleared, and branching brings it back. -/
theorem createBranchedSession_restores_label :
    Reachable samplePlatform clearedWorld ∧
      ∃ w' file, createBranchedSession samplePlatform sampleBranchEnvironment "44444444"
          clearedWorld = (w', .ok file) ∧
        ∃ e ∈ nonLabels w'.manager.getEntries,
          clearedWorld.manager.labelsById.get? (entryId e) = none ∧
            w'.manager.labelsById.get? (entryId e) = some (.str "x") :=
  ⟨reachable_clearedWorld, _, none, eq_of_result createBranchedSession_clearedWorld.1,
    createBranchedSession_clearedWorld.2⟩

theorem createBranchedSession_sampleWorld :
    createBranchedSession samplePlatform sampleBranchEnvironment "11111111" (sampleWorld false) =
      ((createBranchedSession samplePlatform sampleBranchEnvironment "11111111"
        (sampleWorld false)).1, .ok none) :=
  eq_of_result (by decide +kernel)

/-- A message without a label has none in the new session. -/
theorem createBranchedSession_keeps_no_label :
    (nonLabels (createBranchedSession samplePlatform sampleBranchEnvironment "11111111"
        (sampleWorld false)).1.manager.getEntries).map
      (fun e => (createBranchedSession samplePlatform sampleBranchEnvironment "11111111"
        (sampleWorld false)).1.manager.labelsById.get? (entryId e)) =
    (nonLabels (createBranchedSession samplePlatform sampleBranchEnvironment "11111111"
        (sampleWorld false)).1.manager.getEntries).map
      fun e => (sampleWorld false).manager.labelsById.get? (entryId e) := by
  refine List.map_congr_left ?_
  refine (createBranchedSession_labels_iff (reachable_sampleWorld false)
    createBranchedSession_sampleWorld).mpr ?_
  intro path referenced hpath hids
  obtain rfl : (sampleWorld false).manager.getEntries = path :=
    Except.ok.inj ((by rfl : (sampleWorld false).manager.getBranch (some (.str "11111111")) =
      .ok (sampleWorld false).manager.getEntries).symm.trans hpath)
  obtain rfl : [] = referenced := Except.ok.inj ((by rfl : referencedIds _ = .ok []).symm.trans hids)
  decide +kernel

end CodingAgent
