import OmkVerified.CodingAgent.Session.Proofs.ManagerProofs
import OmkVerified.CodingAgent.Session.Proofs.ContextProofs

/-!
# The labels of a branched session

`createBranchedSession` writes the labels of the copied entries again, as a chain of label entries
behind the last copied entry.
-/

namespace CodingAgent

open Lib

attribute [local simp] makeLabelEntries labelsToWrite labelToWrite preservedLabels

/-! ## Generated ids -/

/-- A text that can be a part of a UUID. -/
structure UuidText (text : String) : Prop where
  ne_empty : text ≠ ""
  length_le : text.toList.length ≤ 36
  chars : ∀ c ∈ text.toList, isUuidChar c = true

theorem Uuid.uuidText (uuid : Uuid) : UuidText uuid.text where
  ne_empty := by
    intro h
    have hlen := uuid.length_eq
    rw [h] at hlen
    simp at hlen
  length_le := by rw [uuid.length_eq]
  chars := uuid.chars

theorem Uuid.uuidText_short (uuid : Uuid) : UuidText uuid.short where
  ne_empty := by
    intro h
    have hlen := congrArg (fun s => s.toList.length) h
    simp only [Uuid.short, String.toList_ofList, List.length_take, uuid.length_eq] at hlen
    simp at hlen
  length_le := by
    simp only [Uuid.short, String.toList_ofList, List.length_take, uuid.length_eq]
    omega
  chars := by
    intro c hc
    simp only [Uuid.short, String.toList_ofList] at hc
    exact uuid.chars c (List.mem_of_mem_take hc)

theorem uuidText_firstFree {has : String → Bool} {uuids : Nat → Uuid} {count index : Nat}
    {id : String} (h : firstFree has uuids count index = some id) : UuidText id := by
  induction count generalizing index with
  | zero => simp [firstFree] at h
  | succ count ih =>
    unfold firstFree at h
    split_ifs at h
    · exact ih h
    · obtain rfl := Option.some.inj h
      exact (uuids index).uuidText_short

/-- What `generateId` returns is a UUID or the start of one. -/
theorem uuidText_generateId (has : String → Bool) (uuids : Nat → Uuid) :
    UuidText (generateId has uuids) := by
  unfold generateId
  cases h : firstFree has uuids 100 0 with
  | none => exact (uuids 100).uuidText
  | some id => exact uuidText_firstFree h

theorem UuidText.metadataText {text : String} (h : UuidText text) :
    MetadataText maxMetadataLength text :=
  metadataText_uuid h.ne_empty h.length_le h.chars

theorem isKey_str {id : String} (h : id ≠ "") : IsKey (some (.str id)) :=
  ⟨.str id, rfl, by simpa [Json.truthy] using h, rfl⟩

/-! ## Label entries -/

/-- Each call of `generateId` for a label returns an id that is not taken. -/
def FreshLabelIds (uuids : Nat → Nat → Uuid) : List LabelToWrite → (taken : List (Option Json)) →
    (call : Nat) → Prop
  | [], _, _ => True
  | _ :: labels, taken, call =>
    some (.str (generateId (fun id => taken.contains (some (.str id))) (uuids call))) ∉ taken ∧
      FreshLabelIds uuids labels
        (taken ++ [some (.str (generateId (fun id => taken.contains (some (.str id))) (uuids call)))])
        (call + 1)

section Labels

variable (uuids : Nat → Nat → Uuid)

/-- A label entry is made for a label, with a new id. -/
theorem exists_of_mem_makeLabelEntries (labels : List LabelToWrite) (taken : List (Option Json))
    (parentId : Json) (call : Nat) :
    ∀ e ∈ makeLabelEntries uuids labels taken parentId call,
      hasType e "label" = true ∧ ∃ id, entryId e = some (.str id) ∧ UuidText id := by
  induction labels generalizing taken parentId call with
  | nil => simp [makeLabelEntries]
  | cons label labels ih =>
    intro e he
    rcases List.mem_cons.mp he with rfl | he
    · exact ⟨rfl, _, rfl, uuidText_generateId _ _⟩
    · exact ih _ _ _ e he

/-- Each label entry is the child of the one before, and the first of `parentId`. -/
theorem links_makeLabelEntries (labels : List LabelToWrite) (taken : List (Option Json))
    (parentId : Json) (call : Nat) :
    (∀ e ∈ (makeLabelEntries uuids labels taken parentId call).head?,
        entryParentId e = some parentId) ∧
      (makeLabelEntries uuids labels taken parentId call).IsChain
        fun a b => entryParentId b = entryId a := by
  induction labels generalizing taken parentId call with
  | nil => exact ⟨by simp [makeLabelEntries], List.isChain_nil⟩
  | cons label labels ih =>
    obtain ⟨hhead, hchain⟩ := ih
      (taken ++ [some (.str (generateId (fun id => taken.contains (some (.str id))) (uuids call)))])
      (.str (generateId (fun id => taken.contains (some (.str id))) (uuids call))) (call + 1)
    refine ⟨?_, ?_⟩
    · intro e he
      obtain rfl := Option.some.inj he
      rfl
    · unfold makeLabelEntries
      simp only
      rw [List.isChain_cons]
      refine ⟨?_, hchain⟩
      intro e he
      rw [hhead e he]
      rfl

theorem nodup_makeLabelEntries {labels : List LabelToWrite} {taken : List (Option Json)}
    (htaken : taken.Nodup) (parentId : Json) {call : Nat}
    (hfresh : FreshLabelIds uuids labels taken call) :
    (taken ++ (makeLabelEntries uuids labels taken parentId call).map entryId).Nodup := by
  induction labels generalizing taken parentId call with
  | nil => simpa [makeLabelEntries] using htaken
  | cons label labels ih =>
    obtain ⟨hid, hrest⟩ := hfresh
    have hnodup : (taken ++ [some (Json.str
        (generateId (fun id => taken.contains (some (.str id))) (uuids call)))]).Nodup := by
      rw [List.nodup_append]
      refine ⟨htaken, List.nodup_singleton _, ?_⟩
      intro a ha b hb hab
      rw [List.mem_singleton.mp hb] at hab
      exact hid (hab ▸ ha)
    have hlabels := ih hnodup
      (.str (generateId (fun id => taken.contains (some (.str id))) (uuids call))) hrest
    rw [List.append_assoc] at hlabels
    exact hlabels

theorem makeLabelEntries_eq_nil_iff {labels : List LabelToWrite} {taken : List (Option Json)}
    {parentId : Json} {call : Nat} :
    makeLabelEntries uuids labels taken parentId call = [] ↔ labels = [] := by
  cases labels with
  | nil => simp [makeLabelEntries]
  | cons label labels => simp [makeLabelEntries]

end Labels

/-! ## The labels of a copied path -/

theorem labelsToWrite_nil (m : Manager) : labelsToWrite m [] = [] := by
  unfold labelsToWrite
  rw [List.filterMap_eq_nil_iff]
  intro label _
  unfold labelToWrite
  split
  · simp
  · rfl

theorem preservedLabels_same {as bs : List FileEntry} (h : List.Forall₂ SameButEnvelope as bs) :
    preservedLabels bs = preservedLabels as := by
  have hfilter : List.Forall₂ SameButEnvelope (as.filter fun e => hasType e "label")
      (bs.filter fun e => hasType e "label") := by
    induction h with
    | nil => exact .nil
    | cons hab _ ih =>
      rw [List.filter_cons, List.filter_cons, hab.hasType_eq]
      split_ifs
      · exact .cons hab ih
      · exact ih
  unfold preservedLabels
  generalize (as.filter fun e => hasType e "label") = cs at hfilter
  generalize (bs.filter fun e => hasType e "label") = ds at hfilter
  generalize (OrderedMap.empty : OrderedMap (Option Json) (Option Json)) = labels
  induction hfilter generalizing labels with
  | nil => rfl
  | cons hab _ ih =>
    rw [List.foldl_cons, List.foldl_cons, hab.get?_eq (by decide), hab.get?_eq (by decide)]
    exact ih _

theorem labelsToWrite_same (m : Manager) {as bs : List FileEntry}
    (h : List.Forall₂ SameButEnvelope as bs) : labelsToWrite m bs = labelsToWrite m as := by
  unfold labelsToWrite labelToWrite
  rw [preservedLabels_same h, map_entryId_of_same h]

end CodingAgent
