import OmkVerified.CodingAgent.Integrity.Inspect
import OmkVerified.CodingAgent.Session.Proofs.ContextProofs

/-!
# The phases of the inspection

For each phase of `inspectSessionIntegrity`, when it finds nothing, and that it ends. The searches
along parent links end on every input; the walks of the active branch end because they are only made
when the search for cycles has found none.
-/

namespace CodingAgent.Integrity

open Lib

/-! ## Lines -/

/-- The records of lines that are numbered from `line` on. -/
def numbered (line : Nat) (values : List Json) : List ParsedRecord :=
  (values.zipIdx line).map fun (value, line) => ⟨line, value⟩

@[simp]
theorem numbered_nil (line : Nat) : numbered line [] = [] := rfl

@[simp]
theorem numbered_cons (line : Nat) (value : Json) (values : List Json) :
    numbered line (value :: values) = ⟨line, value⟩ :: numbered (line + 1) values := rfl

theorem value_numbered (line : Nat) (values : List Json) :
    (numbered line values).map ParsedRecord.value = values := by
  induction values generalizing line with
  | nil => rfl
  | cons value values ih => rw [numbered_cons, List.map_cons, ih]

variable {line : Nat} {entry : FileEntry} {byId : Index}

theorem le_line_of_mem_numbered {values : List Json} {record : ParsedRecord}
    (h : record ∈ numbered line values) : line ≤ record.line := by
  induction values generalizing line with
  | nil => simp at h
  | cons value values ih =>
    rw [numbered_cons] at h
    rcases List.mem_cons.mp h with rfl | h
    · exact le_rfl
    · have := ih h
      omega

theorem parseRecords_cons (line : Nat) (text : List Char) (texts : List (List Char)) :
    parseRecords line (text :: texts) =
      match parseSessionEntryLine text with
      | some value =>
        ((parseRecords (line + 1) texts).1, ⟨line, value⟩ :: (parseRecords (line + 1) texts).2)
      | none =>
        ({ reason := .malformedJson, line := some line } :: (parseRecords (line + 1) texts).1,
          (parseRecords (line + 1) texts).2) := rfl

theorem parseRecords_eq_iff {texts : List (List Char)} {values : List Json} :
    parseRecords line texts = ([], numbered line values) ↔
      texts.map parseSessionEntryLine = values.map some := by
  induction texts generalizing line values with
  | nil =>
    cases values with
    | nil => simp [parseRecords]
    | cons value values => simp [parseRecords]
  | cons text texts ih =>
    rw [parseRecords_cons]
    cases hparse : parseSessionEntryLine text with
    | none =>
      cases values with
      | nil => simp
      | cons value values => simp [hparse]
    | some value =>
      cases values with
      | nil => simp
      | cons value' values =>
        simp only [numbered_cons, Prod.mk.injEq, List.cons.injEq, ParsedRecord.mk.injEq, true_and,
          List.map_cons, hparse, Option.some.injEq]
        rw [← @ih (line + 1) values]
        constructor
        · rintro ⟨hfindings, hvalue, hrecords⟩
          exact ⟨hvalue, Prod.ext hfindings hrecords⟩
        · rintro ⟨hvalue, hrest⟩
          exact ⟨congrArg Prod.fst hrest, hvalue, congrArg Prod.snd hrest⟩

theorem exists_values_of_parseRecords {texts : List (List Char)}
    (h : (parseRecords line texts).1 = []) :
    ∃ values, parseRecords line texts = ([], numbered line values) := by
  induction texts generalizing line with
  | nil => exact ⟨[], rfl⟩
  | cons text texts ih =>
    rw [parseRecords_cons] at h ⊢
    cases hparse : parseSessionEntryLine text with
    | none =>
      rw [hparse] at h
      simp at h
    | some value =>
      rw [hparse] at h
      obtain ⟨values, hvalues⟩ := ih h
      exact ⟨value :: values, by simp [hvalues]⟩

/-! ## The header -/

theorem findingIf_eq_nil {condition : Bool} {finding : Finding} :
    findingIf condition finding = [] ↔ condition = false := by
  unfold findingIf
  cases condition <;> simp

/-- A header that the inspector takes. -/
structure ValidHeader (value : Json) : Prop where
  session : isSession value = true
  version : hasCurrentVersion value = true
  fields : validHeaderFields value = true

theorem headerFindings_eq_nil {value : Json} :
    headerFindings value line = [] ↔
      hasCurrentVersion value = true ∧ validHeaderFields value = true := by
  unfold headerFindings
  cases hversion : hasCurrentVersion value with
  | false => simp
  | true => simp [findingIf_eq_nil]

theorem readHeader_cons (header : Json) (records : List ParsedRecord) :
    readHeader (⟨1, header⟩ :: records) =
      if isSession header then
        (if (headerFindings header 1).isEmpty then some header else none, headerFindings header 1)
      else (none, [{ reason := .missingHeader, line := some 1 }]) := rfl

theorem readHeader_eq_nil_iff {header : Json} {records : List ParsedRecord} :
    (readHeader (⟨1, header⟩ :: records)).2 = [] ↔ ValidHeader header := by
  rw [readHeader_cons]
  by_cases hsession : isSession header = true
  · rw [if_pos hsession, headerFindings_eq_nil]
    exact ⟨fun h => ⟨hsession, h.1, h.2⟩, fun h => ⟨h.version, h.fields⟩⟩
  · rw [if_neg hsession]
    refine iff_of_false (by simp) ?_
    intro h
    exact hsession h.session

theorem readHeader_eq_some {header : Json} (h : ValidHeader header) (records : List ParsedRecord) :
    (readHeader (⟨1, header⟩ :: records)).1 = some header := by
  have hfindings : headerFindings header 1 = [] := (headerFindings_eq_nil).mpr ⟨h.version, h.fields⟩
  rw [readHeader_cons, if_pos h.session, hfindings]
  rfl

theorem isHeader_numbered {line : Nat} {values : List Json} :
    (∀ record ∈ numbered line values, record.isHeader = false) ↔
      ∀ value ∈ values, isSession value = false := by
  induction values generalizing line with
  | nil => simp
  | cons value values ih =>
    rw [numbered_cons, List.forall_mem_cons, List.forall_mem_cons, ih]
    rfl

/-- A second header is found, wherever it is. -/
theorem lateHeaderFindings_eq_nil_iff {header : Json} {rest : List Json}
    (h : isSession header = true) :
    lateHeaderFindings (numbered 1 (header :: rest)) = [] ↔
      ∀ value ∈ rest, isSession value = false := by
  have hfirst : (⟨1, header⟩ : ParsedRecord).isHeader = true := h
  rw [← @isHeader_numbered 2 rest]
  unfold lateHeaderFindings
  rw [numbered_cons]
  constructor
  · intro hnil record hrecord
    by_contra hne
    rw [Bool.not_eq_false] at hne
    have hflat := (List.append_eq_nil_iff.mp hnil).2
    rw [List.flatMap_eq_nil_iff] at hflat
    have hmem := hflat record (List.mem_filter.mpr ⟨List.mem_cons_of_mem _ hrecord, hne⟩)
    have hline := le_line_of_mem_numbered hrecord
    rw [if_neg (by omega)] at hmem
    exact absurd hmem (by simp)
  · intro hnone
    have hfilter : (⟨1, header⟩ :: numbered 2 rest).filter ParsedRecord.isHeader = [⟨1, header⟩] := by
      rw [List.filter_cons_of_pos hfirst, List.filter_eq_nil_iff.mpr]
      intro record hrecord
      simp [hnone record hrecord]
    simp only [Nat.reduceAdd, hfilter]
    simp

/-! ## Entries -/

theorem checkEntry_eq_ok {platform : Platform} {record : ParsedRecord}
    {entry : ParsedEntry platform} (h : checkEntry platform record = .ok entry) :
    entry.entry = record.value := by
  unfold checkEntry at h
  split_ifs at h with hrecord htype hvalid
  obtain rfl := Except.ok.inj h
  rfl

theorem isRecord_of_validEntryShape {platform : Platform} {value : Json}
    (h : validEntryShape platform value = true) : value.isRecord = true := by
  unfold validEntryShape at h
  split at h
  · rename_i type htype
    exact Json.isRecord_of_get? htype
  · simp at h

theorem checkEntry_of_valid {platform : Platform} {record : ParsedRecord}
    (h : validEntryShape platform record.value = true) :
    checkEntry platform record = .ok ⟨record.line, record.value, h⟩ := by
  have hrecord := isRecord_of_validEntryShape h
  have htype : (isText (record.value.get? "type") &&
      !supportedEntryTypes.contains (textOf (record.value.get? "type"))) = false := by
    unfold validEntryShape at h
    cases ht : record.value.get? "type" with
    | none =>
      rw [ht] at h
      simp at h
    | some value =>
      cases value with
      | str type =>
        rw [ht] at h
        simp only [Bool.and_eq_true] at h
        simpa [isText, textOf] using h.1.1.1.1
      | _ => rfl
  unfold checkEntry
  rw [hrecord, htype]
  simp only [Bool.not_true, Bool.false_eq_true, if_false, dif_pos h]

theorem checkEntries_cons (platform : Platform) (record : ParsedRecord)
    (records : List ParsedRecord) :
    checkEntries platform (record :: records) =
      if record.isHeader then checkEntries platform records
      else
        match checkEntry platform record with
        | .ok entry =>
          ((checkEntries platform records).1, entry :: (checkEntries platform records).2)
        | .error finding =>
          (finding :: (checkEntries platform records).1, (checkEntries platform records).2) := rfl

/-- The entries are the records without the headers, when each of them is valid. -/
theorem checkEntries_eq_nil {platform : Platform} {records : List ParsedRecord}
    (h : (checkEntries platform records).1 = []) :
    (checkEntries platform records).2.map ParsedEntry.entry =
      (records.filter fun record => !record.isHeader).map ParsedRecord.value := by
  induction records with
  | nil => rfl
  | cons record records ih =>
    rw [checkEntries_cons] at h ⊢
    by_cases hheader : record.isHeader = true
    · rw [if_pos hheader] at h ⊢
      rw [List.filter_cons_of_neg (by simp [hheader])]
      exact ih h
    · rw [if_neg hheader] at h ⊢
      rw [List.filter_cons_of_pos (by simp [hheader])]
      cases hcheck : checkEntry platform record with
      | error finding =>
        rw [hcheck] at h
        simp at h
      | ok entry =>
        rw [hcheck] at h
        simp only [List.map_cons, checkEntry_eq_ok hcheck, ih h]

section Tree

variable {platform : Platform}

theorem indexFirst_append (entries : List (ParsedEntry platform)) (parsed : ParsedEntry platform) :
    indexFirst (entries ++ [parsed]) =
      if (indexFirst entries).2.has (entryId parsed.entry) then
        ((indexFirst entries).1 ++ [duplicateFinding parsed], (indexFirst entries).2)
      else
        ((indexFirst entries).1,
          (indexFirst entries).2.set (entryId parsed.entry) parsed.entry) := by
  unfold indexFirst
  rw [List.foldl_append]
  rfl

/-- The keys and entries of the index. -/
structure IndexOf (entries : List FileEntry) (byId : Index) : Prop where
  keys : ∀ key, key ∈ byId.keys ↔ key ∈ entries.map entryId
  stored : ∀ key entry, byId.get? key = some entry → entry ∈ entries ∧ entryId entry = key

theorem indexOf_indexFirst (entries : List (ParsedEntry platform)) :
    IndexOf (entries.map ParsedEntry.entry) (indexFirst entries).2 := by
  induction entries using List.reverseRecOn with
  | nil => exact ⟨by simp [indexFirst], by simp [indexFirst]⟩
  | append_singleton entries parsed ih =>
    rw [indexFirst_append, List.map_append]
    by_cases hhas : (indexFirst entries).2.has (entryId parsed.entry) = true
    · rw [if_pos hhas]
      rw [OrderedMap.has_iff, ih.keys] at hhas
      refine ⟨?_, ?_⟩
      · intro key
        rw [ih.keys, List.map_append, List.mem_append]
        constructor
        · exact .inl
        · rintro (hkey | hkey)
          · exact hkey
          · rw [List.mem_singleton.mp hkey]
            exact hhas
      · intro key entry hget
        obtain ⟨hmem, hid⟩ := ih.stored key entry hget
        exact ⟨List.mem_append_left _ hmem, hid⟩
    · rw [if_neg hhas]
      refine ⟨?_, ?_⟩
      · intro key
        rw [OrderedMap.mem_keys_set, ih.keys, List.map_append, List.mem_append]
        simp [or_comm]
      · intro key entry hget
        rw [OrderedMap.get?_set] at hget
        split_ifs at hget with hkey
        · obtain rfl := Option.some.inj hget
          exact ⟨by simp, hkey.symm⟩
        · obtain ⟨hmem, hid⟩ := ih.stored key entry hget
          exact ⟨List.mem_append_left _ hmem, hid⟩

theorem indexFirst_eq_nil_iff (entries : List (ParsedEntry platform)) :
    (indexFirst entries).1 = [] ↔ ((entries.map ParsedEntry.entry).map entryId).Nodup := by
  induction entries using List.reverseRecOn with
  | nil => simp [indexFirst]
  | append_singleton entries parsed ih =>
    have hkeys := (indexOf_indexFirst entries).keys (entryId parsed.entry)
    rw [indexFirst_append, List.map_append, List.map_append, List.nodup_append, ← ih]
    by_cases hhas : (indexFirst entries).2.has (entryId parsed.entry) = true
    · rw [if_pos hhas]
      refine iff_of_false (by simp) ?_
      rintro ⟨-, -, hdisjoint⟩
      rw [OrderedMap.has_iff, hkeys] at hhas
      exact hdisjoint _ hhas _ (by simp) rfl
    · rw [if_neg hhas]
      rw [OrderedMap.has_iff, hkeys] at hhas
      constructor
      · intro hnil
        refine ⟨hnil, by simp, ?_⟩
        intro a ha b hb heq
        rw [List.map_singleton, List.map_singleton, List.mem_singleton] at hb
        exact hhas (hb ▸ heq ▸ ha)
      · exact fun h => h.1

theorem indexFirst_eq_indexEntries {entries : List (ParsedEntry platform)}
    (h : ((entries.map ParsedEntry.entry).map entryId).Nodup) :
    (indexFirst entries).2 = indexEntries (entries.map ParsedEntry.entry) := by
  induction entries using List.reverseRecOn with
  | nil => rfl
  | append_singleton entries parsed ih =>
    have hkeys := (indexOf_indexFirst entries).keys (entryId parsed.entry)
    rw [List.map_append, List.map_append, List.nodup_append] at h
    obtain ⟨hnodup, -, hdisjoint⟩ := h
    have hhas : (indexFirst entries).2.has (entryId parsed.entry) = false := by
      rw [← Bool.not_eq_true, OrderedMap.has_iff, hkeys]
      intro hmem
      exact hdisjoint _ hmem _ (by simp) rfl
    rw [indexFirst_append, hhas, List.map_append, List.map_singleton, indexEntries_append, ih hnodup]
    rfl

/-! ## Parents -/

theorem nonEmptyString_eq_true {value : Option Json} :
    nonEmptyString value = true ↔ ∃ text, value = some (.str text) ∧ text ≠ "" := by
  unfold nonEmptyString
  split
  · simp
  · rename_i hne
    simp only [Bool.false_eq_true, false_iff, not_exists, not_and]
    intro text htext
    exact absurd htext (hne text)

theorem entryId_of_valid (h : validEntryShape platform entry = true) :
    ∃ id, entryId entry = some (.str id) ∧ id ≠ "" := by
  unfold validEntryShape at h
  split at h
  · simp only [Bool.and_eq_true] at h
    exact (nonEmptyString_eq_true).mp h.1.1.1.2
  · simp at h

theorem entryParentId_of_valid (h : validEntryShape platform entry = true) :
    entryParentId entry = some .null ∨ ∃ id, entryParentId entry = some (.str id) ∧ id ≠ "" := by
  unfold validEntryShape at h
  split at h
  · simp only [Bool.and_eq_true, Bool.or_eq_true, decide_eq_true_eq] at h
    exact h.1.1.2.imp_right (nonEmptyString_eq_true).mp
  · simp at h

theorem parentEntry_eq_parentOf (byId : Index) (h : validEntryShape platform entry = true) :
    parentEntry byId entry = parentOf byId entry := by
  unfold parentEntry parentOf
  rcases entryParentId_of_valid h with hnull | ⟨id, hid, hne⟩
  · rw [hnull]
    rfl
  · rw [hid]
    simp [Json.truthy, Json.isPrimitive, hne]

theorem get?_of_parentOf {parent : FileEntry} (h : parentOf byId entry = some parent) :
    entryParentId entry ≠ some .null ∧ byId.get? (entryParentId entry) = some parent := by
  unfold parentOf at h
  split_ifs at h with hnull
  exact ⟨hnull, h⟩

theorem mem_keys_of_get? {key : Option Json} (h : byId.get? key = some entry) :
    key ∈ byId.keys := by
  by_contra hnot
  rw [← OrderedMap.get?_eq_none_iff, h] at hnot
  simp at hnot

theorem parentKey_eq {key : Option Json} (h : byId.get? key = some entry) :
    parentKey byId key = (parentOf byId entry).map fun _ => entryParentId entry := by
  unfold parentKey
  rw [h]
  rfl

theorem mem_keys_of_parentKey {a b : Option Json} (h : parentKey byId a = some b) :
    b ∈ byId.keys := by
  unfold parentKey at h
  obtain ⟨entry, -, hmap⟩ := Option.bind_eq_some_iff.mp h
  obtain ⟨parent, hparent, rfl⟩ := Option.map_eq_some_iff.mp hmap
  exact mem_keys_of_get? (get?_of_parentOf hparent).2

theorem walk_parentKey (byId : Index) (fuel : Nat) {key : Option Json}
    (h : byId.get? key = some entry) :
    (walk (parentKey byId) fuel key).isSome = (walk (parentOf byId) fuel entry).isSome := by
  induction fuel generalizing key entry with
  | zero => rfl
  | succ fuel ih =>
    unfold walk
    rw [parentKey_eq h]
    cases hparent : parentOf byId entry with
    | none => rfl
    | some parent =>
      simp only [Option.map_some, Option.isSome_map]
      exact ih (get?_of_parentOf hparent).2

theorem ends_parentKey_iff {key : Option Json} (h : byId.get? key = some entry) :
    Ends (parentKey byId) key ↔ Ends (parentOf byId) entry := by
  unfold Ends
  simp only [walk_parentKey byId _ h]

/-- The search for cycles ends, whatever the entries are. -/
theorem findCycles_ok (entries : List (ParsedEntry platform)) :
    ∃ cycles, searchCycles (parentKey (indexFirst entries).2) ((indexFirst entries).2.size + 1) []
        (entries.map fun parsed => entryId parsed.entry) = some cycles ∧
      findCycles entries (indexFirst entries).2 = .ok (cycles.map cycleFinding) := by
  have hstarts : ∀ key ∈ entries.map (fun parsed => entryId parsed.entry),
      key ∈ (indexFirst entries).2.keys := by
    intro key hkey
    rw [(indexOf_indexFirst entries).keys, List.map_map]
    exact hkey
  have hsize : (indexFirst entries).2.keys.length = (indexFirst entries).2.size := by
    simp [OrderedMap.keys, OrderedMap.size]
  have hsome : (searchCycles (parentKey (indexFirst entries).2) ((indexFirst entries).2.size + 1) []
      (entries.map fun parsed => entryId parsed.entry)).isSome :=
    searchCycles_isSome (fun a b => mem_keys_of_parentKey) hstarts (by omega) []
  obtain ⟨cycles, hcycles⟩ := Option.isSome_iff_exists.mp hsome
  refine ⟨cycles, hcycles, ?_⟩
  unfold findCycles
  rw [hcycles]

/-- Without duplicates, no cycle is found exactly when every walk to the root ends. -/
theorem findCycles_eq_nil_iff {entries : List (ParsedEntry platform)}
    (h : ((entries.map ParsedEntry.entry).map entryId).Nodup) :
    findCycles entries (indexFirst entries).2 = .ok [] ↔
      ∀ parsed ∈ entries, Ends (parentOf (indexFirst entries).2) parsed.entry := by
  obtain ⟨cycles, hsearch, hfind⟩ := findCycles_ok entries
  have hiff := searchCycles_eq_nil_iff (Option.isSome_of_eq_some hsearch) (by simp)
  rw [hfind, Except.ok.injEq, List.map_eq_nil_iff]
  rw [hsearch, Option.some.injEq] at hiff
  rw [hiff, List.forall_mem_map]
  refine forall₂_congr ?_
  intro parsed hparsed
  refine ends_parentKey_iff ?_
  rw [indexFirst_eq_indexEntries h]
  exact get?_indexEntries_of_nodup h (List.mem_map_of_mem hparsed)

theorem parentFindings_eq_nil_iff {entries : List (ParsedEntry platform)}
    (h : IndexOf (entries.map ParsedEntry.entry) byId) :
    parentFindings entries byId = [] ↔
      ∀ parsed ∈ entries, entryParentId parsed.entry = some .null ∨
        entryParentId parsed.entry ∈ (entries.map ParsedEntry.entry).map entryId := by
  unfold parentFindings
  rw [List.flatMap_eq_nil_iff]
  refine forall₂_congr ?_
  intro parsed _
  rw [findingIf_eq_nil, ← h.keys, ← OrderedMap.has_iff]
  unfold lacksParent
  cases byId.has (entryParentId parsed.entry) <;> simp

end Tree

end CodingAgent.Integrity
