import OmkVerified.CodingAgent.Integrity.Proofs.InspectProofs

/-!
# The structure of an inspected file

The phases before the active branch, put together: they end on every byte sequence, and they find
nothing but a trailing fragment exactly when the complete lines are a valid header and valid entries
that form a forest.
-/

namespace CodingAgent.Integrity

open Lib

/-! ## Reasons -/

/-- The reasons of findings before the active branch, apart from the trailing fragment. -/
def ReasonCode.isStructural : ReasonCode → Bool
  | .trailingFragment | .transcript _ => false
  | _ => true

/-- Every finding has a structural reason. -/
def Structural (findings : List Finding) : Prop :=
  ∀ finding ∈ findings, finding.reason.isStructural = true

theorem structural_nil : Structural [] := by simp [Structural]

theorem structural_append {a b : List Finding} :
    Structural (a ++ b) ↔ Structural a ∧ Structural b := by
  unfold Structural
  simp [or_imp, forall_and]

theorem structural_cons {finding : Finding} {findings : List Finding} :
    Structural (finding :: findings) ↔
      finding.reason.isStructural = true ∧ Structural findings := by
  unfold Structural
  simp

theorem structural_findingIf {condition : Bool} {finding : Finding}
    (h : finding.reason.isStructural = true) : Structural (findingIf condition finding) := by
  unfold findingIf
  split_ifs
  · exact (structural_cons).mpr ⟨h, structural_nil⟩
  · exact structural_nil

theorem structural_flatMap {α : Type} {items : List α} {f : α → List Finding}
    (h : ∀ item, Structural (f item)) : Structural (items.flatMap f) := by
  intro finding hfinding
  obtain ⟨item, -, hmem⟩ := List.mem_flatMap.mp hfinding
  exact h item finding hmem

theorem structural_parseRecords (line : Nat) (texts : List (List Char)) :
    Structural (parseRecords line texts).1 := by
  induction texts generalizing line with
  | nil => exact structural_nil
  | cons text texts ih =>
    rw [parseRecords_cons]
    cases parseSessionEntryLine text with
    | none => exact (structural_cons).mpr ⟨rfl, ih (line + 1)⟩
    | some value => exact ih (line + 1)

theorem structural_readRecords (complete : List UInt8) : Structural (readRecords complete).1 := by
  unfold readRecords
  split_ifs
  · exact structural_nil
  · split
    · exact (structural_cons).mpr ⟨rfl, structural_nil⟩
    · exact structural_parseRecords 1 _

theorem structural_headerFindings (value : Json) (line : Nat) :
    Structural (headerFindings value line) := by
  unfold headerFindings
  split_ifs
  · exact (structural_cons).mpr ⟨rfl, structural_nil⟩
  · exact structural_findingIf rfl

theorem structural_readHeader (records : List ParsedRecord) :
    Structural (readHeader records).2 := by
  have hmissing : Structural [{ reason := .missingHeader, line := some 1 }] :=
    (structural_cons).mpr ⟨rfl, structural_nil⟩
  unfold readHeader
  split
  · split_ifs
    · exact structural_headerFindings _ 1
    · exact hmissing
  · exact hmissing

theorem structural_lateHeaderFindings (records : List ParsedRecord) :
    Structural (lateHeaderFindings records) := by
  unfold lateHeaderFindings
  refine (structural_append).mpr ⟨?_, structural_flatMap ?_⟩
  · split
    · exact (structural_cons).mpr ⟨rfl, structural_nil⟩
    · exact structural_nil
  · intro record
    split_ifs
    · exact structural_nil
    · exact (structural_cons).mpr ⟨rfl, structural_findingIf rfl⟩

theorem structural_checkEntries (platform : Platform) (records : List ParsedRecord) :
    Structural (checkEntries platform records).1 := by
  induction records with
  | nil => exact structural_nil
  | cons record records ih =>
    rw [checkEntries_cons]
    split_ifs
    · exact ih
    · cases hcheck : checkEntry platform record with
      | ok entry => exact ih
      | error finding =>
        refine (structural_cons).mpr ⟨?_, ih⟩
        unfold checkEntry at hcheck
        split_ifs at hcheck <;> obtain rfl := Except.error.inj hcheck <;> rfl

section Tree

variable {platform : Platform}

theorem structural_indexFirst (entries : List (ParsedEntry platform)) :
    Structural (indexFirst entries).1 := by
  induction entries using List.reverseRecOn with
  | nil => exact structural_nil
  | append_singleton entries parsed ih =>
    rw [indexFirst_append]
    split_ifs
    · exact (structural_append).mpr ⟨ih, (structural_cons).mpr ⟨rfl, structural_nil⟩⟩
    · exact ih

theorem structural_cycleFindings (cycles : List (List (Option Json))) :
    Structural (cycles.map cycleFinding) := by
  intro finding hfinding
  obtain ⟨cycle, -, rfl⟩ := List.mem_map.mp hfinding
  unfold cycleFinding
  simp only
  split_ifs <;> rfl

end Tree

/-! ## Healthy files -/

/-- The entries form a forest. -/
structure Forest (platform : Platform) (entries : List FileEntry) : Prop where
  valid : ∀ entry ∈ entries, validEntryShape platform entry = true
  distinct : (entries.map entryId).Nodup
  parents : ∀ entry ∈ entries,
    entryParentId entry = some .null ∨ entryParentId entry ∈ entries.map entryId
  ends : ∀ entry ∈ entries, Ends (parentOf (indexEntries entries)) entry

/-- The complete lines `complete` hold these values. -/
def Reads (complete : List UInt8) (values : List Json) : Prop :=
  ∃ text, Utf8.decodeFatal complete = some text ∧
    (recordTexts text).map parseSessionEntryLine = values.map some

/-- The complete lines are a header and a forest of entries. -/
structure Healthy (platform : Platform) (complete : List UInt8) (header : FileEntry)
    (entries : List FileEntry) : Prop where
  nonempty : complete ≠ []
  reads : Reads complete (header :: entries)
  header : ValidHeader header
  others : ∀ entry ∈ entries, isSession entry = false
  forest : Forest platform entries

theorem readRecords_of_reads {complete : List UInt8} {values : List Json} (hne : complete ≠ [])
    (h : Reads complete values) :
    (readRecords complete).1 = [] ∧ (readRecords complete).2.2 = numbered 1 values := by
  obtain ⟨text, htext, hvalues⟩ := h
  have hparse : parseRecords 1 (recordTexts text) = ([], numbered 1 values) :=
    parseRecords_eq_iff.mpr hvalues
  unfold readRecords
  rw [if_neg (by simpa using hne), htext]
  simp only [hparse, and_self]

theorem reads_of_readRecords {complete : List UInt8} (hne : complete ≠ [])
    (h : (readRecords complete).1 = []) :
    ∃ values, Reads complete values ∧ (readRecords complete).2.2 = numbered 1 values := by
  unfold readRecords at h ⊢
  rw [if_neg (by simpa using hne)] at h ⊢
  cases htext : Utf8.decodeFatal complete with
  | none =>
    rw [htext] at h
    simp at h
  | some text =>
    rw [htext] at h
    obtain ⟨values, hvalues⟩ := exists_values_of_parseRecords h
    refine ⟨values, ⟨text, htext, parseRecords_eq_iff.mp hvalues⟩, ?_⟩
    simp only [hvalues]

/-! ## All phases -/

/-- The findings after the one on the trailing fragment. -/
def restFindings (platform : Platform) (complete : List UInt8) (cycles : List Finding) :
    List Finding :=
  let records := (readRecords complete).2.2
  let entries := (checkEntries platform records).2
  (readRecords complete).1 ++ ((readHeader records).2 ++ (lateHeaderFindings records ++
    ((checkEntries platform records).1 ++ ((indexFirst entries).1 ++
      (parentFindings entries (indexFirst entries).2 ++ cycles)))))

/-- The entries that the phases let through. -/
def entriesOf (platform : Platform) (complete : List UInt8) : List (ParsedEntry platform) :=
  (checkEntries platform (readRecords complete).2.2).2

/-- The phases before the active branch end. -/
theorem inspectStructure_eq (platform : Platform) (bytes : List UInt8) :
    ∃ cycles,
      findCycles (entriesOf platform (completePrefix bytes))
        (indexFirst (entriesOf platform (completePrefix bytes))).2 = .ok cycles ∧
      Structural cycles ∧
      inspectStructure platform bytes = .ok
        { fragment := bytes.drop (completePrefix bytes).length
          lineCount := (readRecords (completePrefix bytes)).2.1
          header := (readHeader (readRecords (completePrefix bytes)).2.2).1
          entries := entriesOf platform (completePrefix bytes)
          byId := (indexFirst (entriesOf platform (completePrefix bytes))).2
          findings := findingIf (!(bytes.drop (completePrefix bytes).length).isEmpty)
            { reason := .trailingFragment } ++ restFindings platform (completePrefix bytes) cycles } := by
  obtain ⟨cycles, -, hfind⟩ := findCycles_ok (entriesOf platform (completePrefix bytes))
  refine ⟨cycles.map cycleFinding, hfind, structural_cycleFindings cycles, ?_⟩
  unfold inspectStructure
  dsimp only
  unfold entriesOf at hfind
  rw [hfind]
  simp only [ok_bind, restFindings, entriesOf, List.append_assoc, pure_eq_ok]

theorem structural_restFindings (platform : Platform) (complete : List UInt8) {cycles : List Finding}
    (h : Structural cycles) : Structural (restFindings platform complete cycles) := by
  unfold restFindings
  simp only [structural_append]
  refine ⟨structural_readRecords _, structural_readHeader _, structural_lateHeaderFindings _,
    structural_checkEntries _ _, structural_indexFirst _, structural_flatMap ?_, h⟩
  intro parsed
  exact structural_findingIf rfl

/-- Files without a structural finding are healthy. -/
theorem healthy_of_restFindings {platform : Platform} {complete : List UInt8}
    {cycles : List Finding}
    (hcycles : findCycles (entriesOf platform complete)
      (indexFirst (entriesOf platform complete)).2 = .ok cycles)
    (h : restFindings platform complete cycles = []) :
    ∃ header, (readHeader (readRecords complete).2.2).1 = some header ∧
      Healthy platform complete header
        ((entriesOf platform complete).map ParsedEntry.entry) := by
  unfold restFindings at h
  simp only [List.append_eq_nil_iff] at h
  obtain ⟨hlines, hheader, hlate, hentries, hdup, hparents, rfl⟩ := h
  have hne : complete ≠ [] := by
    rintro rfl
    simp [readRecords, readHeader, firstRecord] at hheader
  obtain ⟨values, hreads, hrecords⟩ := reads_of_readRecords hne hlines
  rw [hrecords] at hheader hlate hentries
  cases values with
  | nil => simp [readHeader, firstRecord] at hheader
  | cons header rest =>
    rw [numbered_cons] at hheader
    have hvalid := readHeader_eq_nil_iff.mp hheader
    have hothers := (lateHeaderFindings_eq_nil_iff hvalid.session).mp hlate
    have hlist : (entriesOf platform complete).map ParsedEntry.entry = rest := by
      unfold entriesOf
      rw [hrecords, checkEntries_eq_nil hentries, numbered_cons, List.filter_cons_of_neg,
        List.filter_eq_self.mpr, value_numbered]
      · intro record hrecord
        rw [isHeader_numbered.mpr hothers record hrecord]
        rfl
      · simpa [ParsedRecord.isHeader] using hvalid.session
    have hdistinct := (indexFirst_eq_nil_iff (entriesOf platform complete)).mp hdup
    refine ⟨header, ?_, hne, ?_, hvalid, ?_, ?_, hdistinct, ?_, ?_⟩
    · rw [hrecords, numbered_cons]
      exact readHeader_eq_some hvalid _
    · rw [hlist]
      exact hreads
    · rw [hlist]
      exact hothers
    · intro entry hentry
      obtain ⟨parsed, -, rfl⟩ := List.mem_map.mp hentry
      exact parsed.valid
    · have hall := (parentFindings_eq_nil_iff (indexOf_indexFirst _)).mp hparents
      intro entry hentry
      obtain ⟨parsed, hparsed, rfl⟩ := List.mem_map.mp hentry
      exact hall parsed hparsed
    · have hends := (findCycles_eq_nil_iff hdistinct).mp hcycles
      intro entry hentry
      obtain ⟨parsed, hparsed, rfl⟩ := List.mem_map.mp hentry
      rw [← indexFirst_eq_indexEntries hdistinct]
      exact hends parsed hparsed

/-- Healthy files have no structural finding. -/
theorem restFindings_of_healthy {platform : Platform} {complete : List UInt8} {header : FileEntry}
    {entries : List FileEntry} (h : Healthy platform complete header entries)
    {cycles : List Finding}
    (hcycles : findCycles (entriesOf platform complete)
      (indexFirst (entriesOf platform complete)).2 = .ok cycles) :
    restFindings platform complete cycles = [] ∧
      (entriesOf platform complete).map ParsedEntry.entry = entries ∧
      (readHeader (readRecords complete).2.2).1 = some header := by
  obtain ⟨hlines, hrecords⟩ := readRecords_of_reads h.nonempty h.reads
  have hentries : ∀ line, (checkEntries platform (numbered line entries)).1 = [] := by
    have hothers := h.others
    have hvalid := h.forest.valid
    clear h hrecords
    induction entries with
    | nil => simp [checkEntries]
    | cons entry entries ih =>
      intro line
      have hrest := ih (fun e he => hothers e (List.mem_cons_of_mem _ he))
        (fun e he => hvalid e (List.mem_cons_of_mem _ he)) (line + 1)
      have hsession : (⟨line, entry⟩ : ParsedRecord).isHeader = false := hothers entry (by simp)
      rw [numbered_cons, checkEntries_cons, hsession,
        checkEntry_of_valid (hvalid entry (by simp))]
      exact hrest
  have hheader : (⟨1, header⟩ : ParsedRecord).isHeader = true := h.header.session
  have hcheck : checkEntries platform (numbered 1 (header :: entries)) =
      checkEntries platform (numbered 2 entries) := by
    rw [numbered_cons, checkEntries_cons, if_pos hheader]
  have hlist : (entriesOf platform complete).map ParsedEntry.entry = entries := by
    unfold entriesOf
    rw [hrecords, hcheck, checkEntries_eq_nil (hentries 2), List.filter_eq_self.mpr, value_numbered]
    intro record hrecord
    rw [isHeader_numbered.mpr h.others record hrecord]
    rfl
  have hdistinct : (((entriesOf platform complete).map ParsedEntry.entry).map entryId).Nodup := by
    rw [hlist]
    exact h.forest.distinct
  refine ⟨?_, hlist, ?_⟩
  · unfold restFindings
    simp only [List.append_eq_nil_iff]
    refine ⟨hlines, ?_, ?_, ?_, ?_, ?_, ?_⟩
    · rw [hrecords, numbered_cons]
      exact readHeader_eq_nil_iff.mpr h.header
    · rw [hrecords]
      exact (lateHeaderFindings_eq_nil_iff h.header.session).mpr h.others
    · rw [hrecords, hcheck]
      exact hentries 2
    · exact (indexFirst_eq_nil_iff _).mpr hdistinct
    · refine (parentFindings_eq_nil_iff (indexOf_indexFirst _)).mpr ?_
      intro parsed hparsed
      have := h.forest.parents parsed.entry (hlist ▸ List.mem_map_of_mem hparsed)
      rw [← hlist] at this
      exact this
    · have hnil : findCycles (entriesOf platform complete)
          (indexFirst (entriesOf platform complete)).2 = .ok [] := by
        refine (findCycles_eq_nil_iff hdistinct).mpr ?_
        intro parsed hparsed
        rw [indexFirst_eq_indexEntries hdistinct, hlist]
        exact h.forest.ends parsed.entry (hlist ▸ List.mem_map_of_mem hparsed)
      exact Except.ok.inj (hcycles.symm.trans hnil)
  · rw [hrecords, numbered_cons]
    exact readHeader_eq_some h.header _

end CodingAgent.Integrity
