import OmkVerified.CodingAgent.Session.Manager
import OmkVerified.Lib.Proofs.JsonTextProofs
import OmkVerified.Lib.Text

/-!
# Session files: what is written is loaded

The fields of the records that a manager makes, and the round trip through the file: loading the
serialization of records gives the records.
-/

namespace CodingAgent

open Lib

/-! ## Fields of records -/

@[simp]
theorem entryId_makeEntry (payload : Payload) (id : String) (parentId : Option Json)
    (timestamp : String) : entryId (makeEntry payload id parentId timestamp) = some (.str id) := by
  cases payload with
  | custom customType data => cases data <;> rfl
  | customMessage customType content display details => cases details <;> rfl
  | _ => rfl

@[simp]
theorem entryParentId_makeEntry (payload : Payload) (id : String) (parentId : Option Json)
    (timestamp : String) :
    entryParentId (makeEntry payload id parentId timestamp) = parentId := by
  cases payload with
  | custom customType data => cases data <;> cases parentId <;> rfl
  | customMessage customType content display details => cases details <;> cases parentId <;> rfl
  | compaction summary firstKeptEntryId tokensBefore details fromHook =>
    cases parentId <;> cases details <;> cases fromHook <;> rfl
  | branchSummary fromId summary details fromHook =>
    cases parentId <;> cases details <;> cases fromHook <;> rfl
  | label targetId label => cases parentId <;> cases label <;> rfl
  | _ => cases parentId <;> rfl

/-- The value of `type` of an entry. -/
def Payload.type : Payload → String
  | .message _ => "message"
  | .thinkingLevelChange _ => "thinking_level_change"
  | .modelChange _ _ => "model_change"
  | .compaction .. => "compaction"
  | .branchSummary .. => "branch_summary"
  | .custom .. => "custom"
  | .customMessage .. => "custom_message"
  | .label .. => "label"
  | .sessionInfo _ => "session_info"

@[simp]
theorem type_makeEntry (payload : Payload) (id : String) (parentId : Option Json)
    (timestamp : String) :
    (makeEntry payload id parentId timestamp).get? "type" = some (.str payload.type) := by
  cases payload <;> rfl

@[simp]
theorem isSession_makeEntry (payload : Payload) (id : String) (parentId : Option Json)
    (timestamp : String) : isSession (makeEntry payload id parentId timestamp) = false := by
  unfold isSession hasType
  rw [type_makeEntry]
  cases payload <;> simp [Payload.type]

theorem hasType_makeEntry (payload : Payload) (id : String) (parentId : Option Json)
    (timestamp type : String) :
    hasType (makeEntry payload id parentId timestamp) type = decide (payload.type = type) := by
  unfold hasType
  rw [type_makeEntry]
  simp

@[simp]
theorem truthy_makeEntry (payload : Payload) (id : String) (parentId : Option Json)
    (timestamp : String) : (makeEntry payload id parentId timestamp).truthy = true := by
  cases payload <;> rfl

@[simp]
theorem isSession_sessionHeader (id timestamp cwd : String) (parentSession : Option String) :
    isSession (sessionHeader id timestamp cwd parentSession) = true := by
  cases parentSession <;> rfl

@[simp]
theorem entryId_sessionHeader (id timestamp cwd : String) (parentSession : Option String) :
    entryId (sessionHeader id timestamp cwd parentSession) = some (.str id) := by
  cases parentSession <;> rfl

@[simp]
theorem truthy_sessionHeader (id timestamp cwd : String) (parentSession : Option String) :
    (sessionHeader id timestamp cwd parentSession).truthy = true := rfl

/-- The JSON values inside a payload have distinct keys. -/
def Payload.WellFormed : Payload → Prop
  | .message content => content.WellFormed
  | .compaction _ _ _ details _ => ∀ v ∈ details, v.WellFormed
  | .branchSummary _ _ details _ => ∀ v ∈ details, v.WellFormed
  | .custom _ data => ∀ v ∈ data, v.WellFormed
  | .customMessage _ content _ details => content.WellFormed ∧ ∀ v ∈ details, v.WellFormed
  | _ => True

theorem wellFormedFields_append (a b : List (String × Json)) :
    Json.WellFormed.WellFormedFields (a ++ b) ↔
      Json.WellFormed.WellFormedFields a ∧ Json.WellFormed.WellFormedFields b := by
  simp only [Json.wellFormedFields_iff, List.mem_append]
  constructor
  · intro h
    exact ⟨fun f hf => h f (.inl hf), fun f hf => h f (.inr hf)⟩
  · rintro ⟨ha, hb⟩ f (hf | hf)
    · exact ha f hf
    · exact hb f hf

theorem wellFormedFields_cons (key : String) (value : Json) (fields : List (String × Json)) :
    Json.WellFormed.WellFormedFields ((key, value) :: fields) ↔
      value.WellFormed ∧ Json.WellFormed.WellFormedFields fields :=
  Iff.rfl

theorem wellFormedFields_nil : Json.WellFormed.WellFormedFields [] ↔ True := Iff.rfl

theorem wellFormedFields_optional (key : String) (value : Option Json) :
    Json.WellFormed.WellFormedFields (optionalField key value) ↔ ∀ v ∈ value, v.WellFormed := by
  cases value <;> simp [optionalField, Json.WellFormed.WellFormedFields]

theorem wellFormed_str (s : String) : (Json.str s).WellFormed ↔ True := Iff.rfl

theorem wellFormed_num (n : Decimal) : (Json.num n).WellFormed ↔ True := Iff.rfl

theorem wellFormed_bool (b : Bool) : (Json.bool b).WellFormed ↔ True := Iff.rfl

theorem wellFormed_map_str (s : Option String) : ∀ v ∈ s.map Json.str, v.WellFormed := by
  cases s <;> simp [wellFormed_str]

theorem wellFormed_map_bool (b : Option Bool) : ∀ v ∈ b.map Json.bool, v.WellFormed := by
  cases b <;> simp [wellFormed_bool]

theorem nodup_keys_makeEntry (payload : Payload) (id : String) (parentId : Option Json)
    (timestamp : String) {fields : List (String × Json)}
    (h : makeEntry payload id parentId timestamp = .obj fields) : (fields.map Prod.fst).Nodup := by
  have hkey : ∀ key (value : Option Json), (optionalField key value).map Prod.fst = [] ∨
      (optionalField key value).map Prod.fst = [key] := by
    intro key value
    cases value
    · exact .inl rfl
    · exact .inr rfl
  cases payload <;> obtain rfl := Json.obj.inj h <;>
    simp only [identityFields, List.map_cons, List.map_append, List.map_nil, List.cons_append]
  case message => rcases hkey "parentId" parentId with h | h <;> simp [h]
  case thinkingLevelChange => rcases hkey "parentId" parentId with h | h <;> simp [h]
  case modelChange => rcases hkey "parentId" parentId with h | h <;> simp [h]
  case sessionInfo => rcases hkey "parentId" parentId with h | h <;> simp [h]
  case compaction details fromHook =>
    rcases hkey "parentId" parentId with h | h <;> rcases hkey "details" details with h' | h' <;>
      rcases hkey "fromHook" (fromHook.map .bool) with h'' | h'' <;> simp [h, h', h'']
  case branchSummary details fromHook =>
    rcases hkey "parentId" parentId with h | h <;> rcases hkey "details" details with h' | h' <;>
      rcases hkey "fromHook" (fromHook.map .bool) with h'' | h'' <;> simp [h, h', h'']
  case custom data =>
    rcases hkey "parentId" parentId with h | h <;> rcases hkey "data" data with h' | h' <;>
      simp [h, h']
  case customMessage details =>
    rcases hkey "parentId" parentId with h | h <;> rcases hkey "details" details with h' | h' <;>
      simp [h, h']
  case label label =>
    rcases hkey "parentId" parentId with h | h <;>
      rcases hkey "label" (label.map .str) with h' | h' <;> simp [h, h']

/-- The entries that are appended have distinct keys. -/
theorem wellFormed_makeEntry {payload : Payload} (h : payload.WellFormed) (id : String)
    {parentId : Option Json} (hp : ∀ v ∈ parentId, v.WellFormed) (timestamp : String) :
    (makeEntry payload id parentId timestamp).WellFormed := by
  have hidentity : Json.WellFormed.WellFormedFields (identityFields id parentId timestamp) := by
    simp only [identityFields, List.cons_append, wellFormedFields_cons, wellFormedFields_append,
      wellFormedFields_optional, wellFormed_str, wellFormedFields_nil, true_and, and_true]
    exact hp
  cases hentry : makeEntry payload id parentId timestamp with
  | obj fields =>
    refine ⟨nodup_keys_makeEntry payload id parentId timestamp hentry, ?_⟩
    cases payload <;> obtain rfl := Json.obj.inj hentry <;>
      simp only [List.cons_append, wellFormedFields_cons, wellFormedFields_append,
        wellFormedFields_optional, wellFormed_str, wellFormed_num, wellFormed_bool,
        wellFormedFields_nil, true_and, and_true, hidentity]
    case message => exact h
    case compaction details fromHook => exact ⟨h, wellFormed_map_bool fromHook⟩
    case branchSummary details fromHook => exact ⟨h, wellFormed_map_bool fromHook⟩
    case custom => exact h
    case customMessage => exact h
    case label label => exact wellFormed_map_str label
  | _ => cases payload <;> exact absurd hentry (by simp [makeEntry])

theorem wellFormed_sessionHeader (id timestamp cwd : String) (parentSession : Option String) :
    (sessionHeader id timestamp cwd parentSession).WellFormed := by
  refine ⟨?_, ?_⟩
  · cases parentSession <;> simp [optionalField]
  · simp only [List.cons_append, List.nil_append, wellFormedFields_cons, wellFormedFields_optional,
      wellFormed_str, wellFormed_num, true_and]
    exact wellFormed_map_str parentSession

/-! ## The round trip -/

/-- A record that a file can hold: it is read back and it is not skipped. -/
structure Storable (entry : FileEntry) : Prop where
  wellFormed : entry.WellFormed
  truthy : entry.truthy = true

/-- Each record with its line feed. -/
def recordLines (entries : List FileEntry) : List Char :=
  entries.flatMap fun e => Json.stringify e ++ ['\n']

theorem recordLines_append (a b : List FileEntry) :
    recordLines (a ++ b) = recordLines a ++ recordLines b := by
  simp [recordLines]

variable {entries : List FileEntry}

theorem serializeFileEntries_eq (h : entries ≠ []) :
    serializeFileEntries entries = recordLines entries := by
  unfold serializeFileEntries
  induction entries with
  | nil => contradiction
  | cons e entries ih =>
    cases entries with
    | nil => simp [recordLines]
    | cons f entries =>
      rw [List.map_cons, List.map_cons, List.intercalate_cons_cons, List.append_assoc]
      rw [List.map_cons] at ih
      rw [List.append_assoc, ih (by simp)]
      simp [recordLines]

theorem completeLines_recordLines (entries : List FileEntry) :
    completeLines (recordLines entries) = entries.map Json.stringify := by
  unfold completeLines
  induction entries with
  | nil => rfl
  | cons e entries ih =>
    have htext : recordLines (e :: entries) = Json.stringify e ++ '\n' :: recordLines entries := by
      simp [recordLines]
    rw [htext, List.splitOn_append_cons_self_of_not_mem (Json.lineFeed_not_mem_stringify e),
      List.dropLast_cons_of_ne_nil (List.splitOn_ne_nil _ _), ih, List.map_cons]

theorem isWhitespace_visible {c : Char} (h : 0x21 ≤ c.toNat) (h' : c.toNat < 0x7f) :
    isWhitespace c = false := by
  have hne : ∀ d : Char, d.toNat < 0x21 ∨ 0x7f ≤ d.toNat → c ≠ d := by
    rintro d hd rfl
    omega
  simp [isWhitespace, isLineTerminator, hne '\t' (by decide), hne '\x0b' (by decide),
    hne '\x0c' (by decide), hne ' ' (by decide), hne '\u00a0' (by decide),
    hne '\ufeff' (by decide), hne '\u1680' (by decide), hne '\u202f' (by decide),
    hne '\u205f' (by decide), hne '\u3000' (by decide), hne '\n' (by decide),
    hne '\r' (by decide), hne '\u2028' (by decide), hne '\u2029' (by decide)]
  omega

theorem parseSessionEntryLine_stringify {entry : FileEntry} (h : entry.WellFormed) :
    parseSessionEntryLine (Json.stringify entry) = some entry := by
  obtain ⟨c, text, heq, hc, hc', -⟩ := Json.stringify_head entry
  have htrim : trim (Json.stringify entry) ≠ [] :=
    trim_ne_nil (c := c) (by simp [heq]) (isWhitespace_visible hc hc')
  unfold parseSessionEntryLine
  rw [if_neg (by simpa using htrim)]
  exact Json.parse_stringify entry h

theorem parseLines_stringify (h : ∀ e ∈ entries, Storable e) :
    parseLines (entries.map Json.stringify) = entries := by
  unfold parseLines
  have hmap : (entries.map Json.stringify).filterMap parseSessionEntryLine = entries := by
    rw [List.filterMap_map]
    have hsome : entries.filterMap (parseSessionEntryLine ∘ Json.stringify) =
        entries.filterMap some :=
      List.filterMap_congr fun e he => parseSessionEntryLine_stringify (h e he).wellFormed
    rw [hsome, List.filterMap_some]
  rw [hmap]
  exact List.filter_eq_self.mpr fun e he => (h e he).truthy

theorem loadEntries_serialize (hheader : hasHeader entries = true) (h : ∀ e ∈ entries, Storable e) :
    loadEntries (Utf8.encode (serializeFileEntries entries)) = entries := by
  have hne : entries ≠ [] := by
    rintro rfl
    simp [hasHeader] at hheader
  unfold loadEntries
  rw [Utf8.decode_encode, serializeFileEntries_eq hne, completeLines_recordLines,
    parseLines_stringify h, if_pos hheader]

/-- An appended record is an appended line. -/
theorem encode_serialize_append (hne : entries ≠ []) (entry : FileEntry) :
    Utf8.encode (serializeFileEntries (entries ++ [entry])) =
      Utf8.encode (serializeFileEntries entries) ++ entryLine entry := by
  rw [serializeFileEntries_eq (by simp), serializeFileEntries_eq hne, recordLines_append,
    Utf8.encode_append]
  simp [recordLines, entryLine]

end CodingAgent
