import OmkVerified.CodingAgent.Session.Proofs.ValidateProofs

/-!
# Records that a file can hold

The records that a manager makes are objects with distinct keys: what it appends, the copies of a
rebound branch and the labels of a branched session. So a file that it wrote is loaded again as it
was.
-/

namespace CodingAgent

open Lib

/-! ## Envelopes -/

theorem wellFormed_arr (items : List Json) :
    (Json.arr items).WellFormed ↔ ∀ v ∈ items, v.WellFormed :=
  Json.wellFormedItems_iff items

theorem wellFormed_texts (items : List String) : (texts items).WellFormed := by
  unfold texts
  rw [wellFormed_arr]
  intro v hv
  obtain ⟨text, -, rfl⟩ := List.mem_map.mp hv
  exact trivial

theorem wellFormed_nullable (text : Option String) : (nullable text).WellFormed := by
  cases text <;> exact trivial

theorem wellFormed_number (n : Nat) : (number n).WellFormed := trivial

theorem wellFormed_fileIdentity (identity : FileIdentity) : identity.toJson.WellFormed :=
  ⟨by simp, trivial, trivial, trivial⟩

theorem wellFormed_revision (token : SessionRevisionToken) : token.toJson.WellFormed := by
  refine ⟨?_, ?_⟩
  · cases token.fileIdentity <;> simp [optionalField]
  · simp only [List.cons_append, List.nil_append, wellFormedFields_cons, wellFormedFields_optional,
      wellFormed_str, wellFormed_number, wellFormed_nullable, true_and]
    intro v hv
    obtain ⟨identity, -, rfl⟩ := Option.map_eq_some_iff.mp hv
    exact wellFormed_fileIdentity identity

theorem wellFormed_source (source : CompactionSourceIdentity) : source.toJson.WellFormed :=
  ⟨by simp, trivial, wellFormed_texts _, trivial, trivial, trivial, trivial, trivial, trivial⟩

theorem wellFormed_history (history : List CompactionModelHistoryEntry) :
    (Json.arr (history.map CompactionModelHistoryEntry.toJson)).WellFormed := by
  rw [wellFormed_arr]
  intro v hv
  obtain ⟨entry, -, rfl⟩ := List.mem_map.mp hv
  exact ⟨by simp, trivial, trivial, trivial, trivial⟩

theorem wellFormed_preserved (p : CompactionPreservedProvenance) : p.toJson.WellFormed :=
  ⟨by simp, trivial, wellFormed_texts _, wellFormed_texts _, wellFormed_texts _, wellFormed_texts _,
    wellFormed_texts _, wellFormed_texts _, wellFormed_nullable _, wellFormed_nullable _,
    wellFormed_history _, trivial, trivial⟩

theorem wellFormed_envelope (envelope : CompactionEnvelope) : envelope.toJson.WellFormed :=
  ⟨by simp, trivial, trivial, wellFormed_revision _, wellFormed_source _, trivial,
    ⟨by simp, trivial, trivial, trivial⟩, trivial, trivial, wellFormed_preserved _, trivial⟩

/-! ## Copies -/

theorem wellFormed_of_get? {value field : Json} {key : String} (h : value.WellFormed)
    (hget : value.get? key = some field) : field.WellFormed := by
  cases value with
  | obj fields =>
    have hmem : ∀ fs : List (String × Json), fs.lookup key = some field → ∃ f ∈ fs, f.2 = field := by
      intro fs
      induction fs with
      | nil => simp
      | cons f fs ih =>
        intro hlookup
        rw [Json.lookup_cons_eq] at hlookup
        split_ifs at hlookup
        · exact ⟨f, by simp, Option.some.inj hlookup⟩
        · obtain ⟨g, hg, hfield⟩ := ih hlookup
          exact ⟨g, by simp [hg], hfield⟩
    obtain ⟨f, hf, rfl⟩ := hmem fields hget
    exact (Json.wellFormedFields_iff fields).mp h.2 f hf
  | _ => exact absurd hget (by simp [Json.get?])

theorem truthy_of_isRecord {value : Json} (h : value.isRecord = true) : value.truthy = true := by
  cases value with
  | obj fields => rfl
  | _ => exact absurd h (by simp [Json.isRecord])

theorem isRecord_set (value : Json) (key : String) (field : Json) :
    (value.set key field).isRecord = value.isRecord := by
  cases value <;> rfl

/-- The copy of a record can be stored if the record can. -/
theorem storable_rebindEntry {platform : Platform} {header : FileEntry} {sessionId : String}
    {original copied : List FileEntry} {entry copy : FileEntry} (hstorable : Storable entry)
    (h : rebindEntry platform header sessionId original copied entry = .ok copy) :
    Storable copy := by
  obtain rfl | ⟨-, details, rebound, hdetails, rfl⟩ := rebindEntry_cases h
  · exact hstorable
  · have hwell := wellFormed_of_get? hstorable.wellFormed hdetails
    exact ⟨hstorable.wellFormed.set _ (hwell.set _ (wellFormed_envelope rebound)),
      truthy_of_isRecord ((isRecord_set _ _ _).trans (Json.isRecord_of_get? hdetails))⟩

theorem storable_rebindFrom {platform : Platform} {header : FileEntry} {sessionId : String}
    {referenced : List String} {rest original copied result : List FileEntry}
    (hrest : ∀ e ∈ rest, Storable e) (hcopied : ∀ e ∈ copied, Storable e)
    (h : rebindFrom platform header sessionId referenced rest original copied = .ok result) :
    ∀ e ∈ result, Storable e := by
  induction rest generalizing original copied with
  | nil =>
    obtain rfl := Except.ok.inj h
    exact hcopied
  | cons entry rest ih =>
    unfold rebindFrom at h
    obtain ⟨copy, hcopy, h⟩ := bind_eq_ok.mp h
    have hstorable := storable_rebindEntry (hrest entry (by simp)) hcopy
    refine ih (fun e he => hrest e (by simp [he])) ?_ h
    intro e he
    split_ifs at he
    · exact hcopied e he
    · rcases List.mem_append.mp he with he | he
      · exact hcopied e he
      · rw [List.mem_singleton.mp he]
        exact hstorable

/-! ## Labels -/

/-- The values of the label maps. -/
structure LabelsWellFormed (s : IndexState) : Prop where
  targets : ∀ key value, s.labelsById.get? key = some value → ∀ v ∈ key, v.WellFormed
  labels : ∀ key value, s.labelsById.get? key = some value → value.WellFormed
  timestamps : ∀ key value, s.labelTimestampsById.get? key = some value → ∀ v ∈ value, v.WellFormed

theorem get?_delete {κ ν : Type} [DecidableEq κ] (m : OrderedMap κ ν) (key key' : κ) {value : ν}
    (h : (m.delete key).get? key' = some value) : m.get? key' = some value := by
  rw [OrderedMap.get?_eq_some_iff] at h ⊢
  exact List.mem_of_mem_filter h

theorem LabelsWellFormed.applyLabel {s : IndexState} (h : LabelsWellFormed s)
    {targetId label timestamp : Option Json} (ht : ∀ v ∈ targetId, v.WellFormed)
    (hl : ∀ v ∈ label, v.WellFormed) (hs : ∀ v ∈ timestamp, v.WellFormed) :
    LabelsWellFormed (s.applyLabel targetId label timestamp) := by
  have hdelete : LabelsWellFormed { s with
      labelsById := s.labelsById.delete targetId
      labelTimestampsById := s.labelTimestampsById.delete targetId } :=
    ⟨fun key value hget => h.targets key value (get?_delete _ _ _ hget),
      fun key value hget => h.labels key value (get?_delete _ _ _ hget),
      fun key value hget => h.timestamps key value (get?_delete _ _ _ hget)⟩
  unfold IndexState.applyLabel
  split
  · rename_i value
    split_ifs
    · refine ⟨?_, ?_, ?_⟩
      · intro key value' hget
        simp only [OrderedMap.get?_set] at hget
        split_ifs at hget with hkey
        · exact hkey ▸ ht
        · exact h.targets key value' hget
      · intro key value' hget
        simp only [OrderedMap.get?_set] at hget
        split_ifs at hget
        · exact hl value' hget
        · exact h.labels key value' hget
      · intro key value' hget
        simp only [OrderedMap.get?_set] at hget
        split_ifs at hget
        · exact Option.some.inj hget ▸ hs
        · exact h.timestamps key value' hget
    · exact hdelete
  · exact hdelete

theorem labelsWellFormed_buildIndex {entries : List FileEntry} (h : ∀ e ∈ entries, Storable e) :
    LabelsWellFormed (buildIndex entries) := by
  induction entries using List.reverseRecOn with
  | nil => exact ⟨by simp [buildIndex, IndexState.empty], by simp [buildIndex, IndexState.empty],
      by simp [buildIndex, IndexState.empty]⟩
  | append_singleton entries entry ih =>
    have hbefore := ih fun e he => h e (List.mem_append_left _ he)
    have hentry := (h entry (by simp)).wellFormed
    rw [buildIndex_append]
    unfold IndexState.step
    have hset : LabelsWellFormed { buildIndex entries with
        byId := (buildIndex entries).byId.set (entryId entry) entry
        leafId := entryId entry } :=
      ⟨hbefore.targets, hbefore.labels, hbefore.timestamps⟩
    split_ifs
    · exact hbefore
    · exact hset.applyLabel (fun v hv => wellFormed_of_get? hentry hv)
        (fun v hv => wellFormed_of_get? hentry hv) (fun v hv => wellFormed_of_get? hentry hv)
    · exact hset

/-- A label with the values of well-formed records. -/
structure LabelToWrite.WellFormed (toWrite : LabelToWrite) : Prop where
  targetId : toWrite.targetId.WellFormed
  label : toWrite.label.WellFormed
  timestamp : toWrite.timestamp.WellFormed

theorem wellFormed_labelsToWrite {m : Manager} (hindexed : Indexed m)
    (h : ∀ e ∈ m.fileEntries, Storable e) (copied : List FileEntry) :
    ∀ label ∈ labelsToWrite m copied, label.WellFormed := by
  have hlabels := labelsWellFormed_buildIndex h
  intro label hlabel
  obtain ⟨⟨key, value⟩, hmem, hwrite⟩ := List.mem_filterMap.mp hlabel
  have hget : m.labelsById.get? key = some value := OrderedMap.get?_eq_some_iff.mpr hmem
  rw [hindexed.labels] at hget
  unfold labelToWrite at hwrite
  simp only at hwrite
  split at hwrite
  · rename_i targetId timestamp htime
    split_ifs at hwrite
    obtain rfl := Option.some.inj hwrite
    refine ⟨hlabels.targets _ _ hget targetId rfl, hlabels.labels _ _ hget, ?_⟩
    rw [hindexed.timestamps] at htime
    exact hlabels.timestamps _ _ (Option.join_eq_some_iff.mp htime) timestamp rfl
  · exact absurd hwrite (by simp)

theorem storable_makeLabelEntries (uuids : Nat → Nat → Uuid) {labels : List LabelToWrite}
    (h : ∀ label ∈ labels, label.WellFormed) (taken : List (Option Json)) {parentId : Json}
    (hparent : parentId.WellFormed) (call : Nat) :
    ∀ e ∈ makeLabelEntries uuids labels taken parentId call, Storable e := by
  induction labels generalizing taken parentId call with
  | nil => simp [makeLabelEntries]
  | cons label labels ih =>
    intro e he
    rcases List.mem_cons.mp he with rfl | he
    · have hlabel := h label (by simp)
      exact ⟨⟨by simp, trivial, trivial, hparent, hlabel.timestamp, hlabel.targetId, hlabel.label,
        trivial⟩, rfl⟩
    · exact ih (fun l hl => h l (by simp [hl])) _ (wellFormed_str _ |>.mpr trivial) _ e he

end CodingAgent
