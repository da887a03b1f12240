import OmkVerified.Lib.Scan

/-!
# Read anchors

`read-anchors.ts`: an anchor binds what was read to digests of the whole content and of the block of lines,
both with normalized line ends, and an edit is allowed by comparing them with the content at that time.
-/

namespace CodingAgent.ReadAnchors

open Lib

structure ReadAnchorRange where
  /-- The first line, counted from 1. -/
  offset : Int
  /-- The number of lines. -/
  limit : Int
  /-- The last line; `offset - 1` for an empty block. -/
  endLine : Int

structure ReadAnchor where
  schemaVersion : String
  readId : String
  path : String
  fileSha256 : String
  range : ReadAnchorRange
  blockSha256 : String

def READ_ANCHOR_SCHEMA_VERSION : String := "omk.read-anchor.v1"

/-- `content.replace(/\r\n/g, "\n")`. -/
def replaceCrLf : List Char → List Char
  | '\r' :: '\n' :: rest => '\n' :: replaceCrLf rest
  | c :: rest => c :: replaceCrLf rest
  | [] => []

/-- `content.replace(/\r/g, "\n")`. -/
def replaceCr (content : List Char) : List Char := content.map fun c => if c = '\r' then '\n' else c

def normalizeNewlines (content : List Char) : List Char := replaceCr (replaceCrLf content)

structure ExtractedBlock where
  text : List Char
  range : ReadAnchorRange

def extractBlock (normalized : List Char) (offset limit : Option Int) : ExtractedBlock :=
  let lines := normalized.splitOn '\n'
  let start := max 1 (offset.getD 1)
  if start > lines.length then ⟨[], start, 0, start - 1⟩
  else
    let available := lines.length - (start - 1)
    let count :=
      match limit with
      | none => available
      | some limit => max 0 (min limit available)
    let blockLines := (lines.drop (start - 1).toNat).take count.toNat
    ⟨['\n'].intercalate blockLines, start, count, start - 1 + count⟩

structure CreateReadAnchorInput where
  path : String
  content : List Char
  offset : Option Int
  limit : Option Int
  readId : Option String

structure ReadAnchorVerification where
  ok : Bool
  fileMatches : Bool
  blockMatches : Bool
  currentFileSha256 : String
  currentBlockSha256 : String

inductive AnchoredEditMode where
  | strict
  | lenient
  deriving DecidableEq

inductive AnchoredEditVerdict where
  | allow
  | allowLenient
  | rejectStale
  deriving DecidableEq

structure AnchoredEditDecisionInput where
  anchor : ReadAnchor
  currentContent : List Char
  mode : Option AnchoredEditMode
  anchoredBlockText : Option (List Char)

structure AnchoredEditDecision where
  verdict : AnchoredEditVerdict
  reason : String
  currentFileSha256 : String
  fileChanged : Bool
  blockRelocated : Option Bool
  occurrences : Option Nat

/-- The searches end when nothing is left, so that one for each character is enough. -/
def countOccurrences (haystack needle : List Char) : Nat :=
  if needle.length = 0 then 0 else countFrom needle (haystack.length + 1) haystack

def STALE_REREAD_HINT : String :=
  "stale read: the file changed since it was read; re-read the file before editing"

-- The digest of a text, in hexadecimal digits.
variable (sha256Hex : List Char → String)

/-- `randomUUID` is the id of an anchor that is given none. -/
def createReadAnchor (randomUUID : String) (input : CreateReadAnchorInput) : ReadAnchor :=
  let normalized := normalizeNewlines input.content
  let block := extractBlock normalized input.offset input.limit
  { schemaVersion := READ_ANCHOR_SCHEMA_VERSION
    readId := input.readId.getD randomUUID
    path := input.path
    fileSha256 := sha256Hex normalized
    range := block.range
    blockSha256 := sha256Hex block.text }

def verifyReadAnchor (anchor : ReadAnchor) (currentContent : List Char) : ReadAnchorVerification :=
  let normalized := normalizeNewlines currentContent
  let currentFileSha256 := sha256Hex normalized
  let block := extractBlock normalized (some anchor.range.offset) (some anchor.range.limit)
  let currentBlockSha256 := sha256Hex block.text
  let fileMatches : Bool := currentFileSha256 = anchor.fileSha256
  let blockMatches : Bool := currentBlockSha256 = anchor.blockSha256
  ⟨fileMatches && blockMatches, fileMatches, blockMatches, currentFileSha256, currentBlockSha256⟩

def decideAnchoredEdit (input : AnchoredEditDecisionInput) : AnchoredEditDecision :=
  let mode := input.mode.getD .strict
  let normalized := normalizeNewlines input.currentContent
  let currentFileSha256 := sha256Hex normalized
  let fileChanged : Bool := currentFileSha256 ≠ input.anchor.fileSha256
  if ¬ fileChanged then
    ⟨.allow, "current file hash matches the anchor", currentFileSha256, fileChanged, none, none⟩
  else if mode = .strict then
    ⟨.rejectStale, STALE_REREAD_HINT, currentFileSha256, fileChanged, none, none⟩
  else
    let blockText := input.anchoredBlockText.getD []
    if blockText.length = 0 then
      ⟨.rejectStale, "lenient relocation requires the anchored block text", currentFileSha256,
        fileChanged, none, none⟩
    else
      let normalizedBlock := normalizeNewlines blockText
      if sha256Hex normalizedBlock ≠ input.anchor.blockSha256 then
        ⟨.rejectStale, "supplied block text does not match the anchored block hash",
          currentFileSha256, fileChanged, none, none⟩
      else
        let occurrences := countOccurrences normalized normalizedBlock
        if occurrences = 1 then
          ⟨.allowLenient, "file changed but the anchored block is still uniquely locatable",
            currentFileSha256, fileChanged, some true, some occurrences⟩
        else
          ⟨.rejectStale,
            if occurrences = 0 then "anchored block no longer exists in the current file"
            else "anchored block is ambiguous (multiple matches) in the current file",
            currentFileSha256, fileChanged, some false, some occurrences⟩

end CodingAgent.ReadAnchors

/-!
# What an anchor vouches for

An anchor is verified against the content it was made of; with a digest without collisions an edit is allowed
on that content only, and leniently where the block stands and every other place of it overlaps the first.
-/

namespace CodingAgent.ReadAnchors

open Lib

/-! ### Blocks -/

/-- The resolved range of a block is the range of this block. -/
theorem extractBlock_again (normalized : List Char) (offset limit : Option Int) :
    extractBlock normalized (some (extractBlock normalized offset limit).range.offset)
        (some (extractBlock normalized offset limit).range.limit) =
      extractBlock normalized offset limit := by
  by_cases hstart : max 1 (offset.getD 1) > (normalized.splitOn '\n').length
  · have hblock : extractBlock normalized offset limit =
        ⟨[], max 1 (offset.getD 1), 0, max 1 (offset.getD 1) - 1⟩ := if_pos hstart
    have hmax : max 1 (max 1 (offset.getD 1)) = max 1 (offset.getD 1) := by omega
    rw [hblock]
    simp only [extractBlock, Option.getD_some, hmax]
    rw [if_pos hstart]
  · simp only [extractBlock, if_neg hstart, Option.getD_some]
    have hmax : max 1 (max 1 (offset.getD 1)) = max 1 (offset.getD 1) := by omega
    rw [hmax, if_neg hstart]
    -- a count between 0 and what there is stays when it is clamped again
    have hclamp : ∀ count available : Int, 0 ≤ count → count ≤ available →
        max 0 (min count available) = count := by
      intro count available h0 hle
      omega
    cases limit with
    | none =>
      dsimp only
      rw [hclamp _ _ (by omega) le_rfl]
    | some limit =>
      dsimp only
      rw [hclamp _ _ (le_max_left 0 _) (by omega)]

/-! ### Deciding an edit -/

theorem countOccurrences_eq_one_iff {haystack needle : List Char} :
    countOccurrences haystack needle = 1 ↔ needle ≠ [] ∧
      ∃ p, OccursAt needle haystack p ∧
        ∀ q, OccursAt needle haystack q → p ≤ q ∧ q < p + needle.length := by
  rw [countOccurrences]
  split
  · rename_i hempty
    exact iff_of_false Nat.zero_ne_one fun h => h.1 (List.length_eq_zero_iff.mp hempty)
  · rename_i hne
    rw [List.length_eq_zero_iff] at hne
    rw [countFrom_eq_one_iff hne (Nat.lt_succ_self _), and_iff_right hne]

variable (sha256Hex : List Char → String)

theorem verifyReadAnchor_createReadAnchor (randomUUID : String) (input : CreateReadAnchorInput) :
    (verifyReadAnchor sha256Hex (createReadAnchor sha256Hex randomUUID input) input.content).ok =
      true := by
  simp only [verifyReadAnchor, createReadAnchor, extractBlock_again]
  simp

theorem decideAnchoredEdit_allow_iff (input : AnchoredEditDecisionInput) :
    (decideAnchoredEdit sha256Hex input).verdict = .allow ↔
      sha256Hex (normalizeNewlines input.currentContent) = input.anchor.fileSha256 := by
  simp only [decideAnchoredEdit]
  by_cases hsame : sha256Hex (normalizeNewlines input.currentContent) = input.anchor.fileSha256
  · simp [hsame]
  · simp only [hsame, ne_eq, not_false_eq_true, decide_true, not_true_eq_false, if_false, iff_false]
    split_ifs <;> simp

/-- What a lenient edit has passed. -/
theorem decideAnchoredEdit_allowLenient_iff (input : AnchoredEditDecisionInput) :
    (decideAnchoredEdit sha256Hex input).verdict = .allowLenient ↔
      sha256Hex (normalizeNewlines input.currentContent) ≠ input.anchor.fileSha256 ∧
        input.mode = some .lenient ∧
        ∃ blockText, input.anchoredBlockText = some blockText ∧ blockText ≠ [] ∧
          sha256Hex (normalizeNewlines blockText) = input.anchor.blockSha256 ∧
          countOccurrences (normalizeNewlines input.currentContent) (normalizeNewlines blockText) = 1 := by
  simp only [decideAnchoredEdit]
  by_cases hsame : sha256Hex (normalizeNewlines input.currentContent) = input.anchor.fileSha256
  · simp [hsame]
  simp only [hsame, ne_eq, not_false_eq_true, decide_true, not_true_eq_false, if_false, true_and]
  by_cases hmode : input.mode = some .lenient
  · rw [if_neg (by simp [hmode]), and_iff_right hmode]
    cases htext : input.anchoredBlockText with
    | none => simp
    | some blockText =>
      simp only [Option.getD_some, Option.some.injEq, exists_eq_left', List.length_eq_zero_iff]
      split_ifs <;> simp_all
  · have hstrict : input.mode.getD .strict = .strict := by
      cases hget : input.mode with
      | none => rfl
      | some mode =>
        cases mode with
        | strict => rfl
        | lenient => exact absurd hget hmode
    rw [if_pos hstrict]
    exact iff_of_false (by simp) fun h => hmode h.1

variable {sha256Hex}

/-- The text of the block that was read. -/
def anchoredBlock (input : CreateReadAnchorInput) : List Char :=
  (extractBlock (normalizeNewlines input.content) input.offset input.limit).text

/-- With a digest without collisions a lenient edit is one of the anchored block. -/
theorem countOccurrences_anchoredBlock (hcollision : Function.Injective sha256Hex)
    {randomUUID : String} {input : CreateReadAnchorInput} {edit : AnchoredEditDecisionInput}
    (hanchor : edit.anchor = createReadAnchor sha256Hex randomUUID input)
    (hlenient : (decideAnchoredEdit sha256Hex edit).verdict = .allowLenient) :
    countOccurrences (normalizeNewlines edit.currentContent) (anchoredBlock input) = 1 := by
  obtain ⟨-, -, blockText, -, -, hblock, hcount⟩ :=
    (decideAnchoredEdit_allowLenient_iff sha256Hex edit).mp hlenient
  rw [hanchor] at hblock
  have htext : normalizeNewlines blockText = anchoredBlock input := hcollision hblock
  rw [← htext]
  exact hcount

/-- An anchor is verified against its content, an edit is allowed on the anchored content only, and a lenient
edit on a content where the anchored block stands and no two places of it are apart. -/
theorem readAnchor_sound (hcollision : Function.Injective sha256Hex) (randomUUID : String)
    (input : CreateReadAnchorInput) :
    (verifyReadAnchor sha256Hex (createReadAnchor sha256Hex randomUUID input) input.content).ok =
        true ∧
      ∀ edit : AnchoredEditDecisionInput,
        edit.anchor = createReadAnchor sha256Hex randomUUID input →
        ((decideAnchoredEdit sha256Hex edit).verdict = .allow ↔
            normalizeNewlines edit.currentContent = normalizeNewlines input.content) ∧
          ((decideAnchoredEdit sha256Hex edit).verdict = .allowLenient →
            ∃ p, OccursAt (anchoredBlock input) (normalizeNewlines edit.currentContent) p ∧
              ∀ q, OccursAt (anchoredBlock input) (normalizeNewlines edit.currentContent) q →
                p ≤ q ∧ q < p + (anchoredBlock input).length) := by
  refine ⟨verifyReadAnchor_createReadAnchor sha256Hex randomUUID input, ?_⟩
  intro edit hanchor
  refine ⟨?_, ?_⟩
  · rw [decideAnchoredEdit_allow_iff, hanchor]
    exact hcollision.eq_iff
  · intro hlenient
    have hcount := countOccurrences_anchoredBlock hcollision hanchor hlenient
    exact (countOccurrences_eq_one_iff.mp hcount).2

/-- SHA-256 on three contents; on the others the content itself behind a letter that is no digit. -/
def sampleSha256Hex (content : List Char) : String :=
  if content = "aba".toList then
    "e124adcce1fb2f88e1ea799c3d0820845ed343e6c739e54131fcb3a56e4bc1bd"
  else if content = "ababa".toList then
    "f9b8d87e305fcf0125d889e2e40ea64b446b4c09d9459358c7d64a4a2fefcabe"
  else if content = "c\naba".toList then
    "3195180603b2694f23311172148973954a8303b05d3a456bb10f72f1af741061"
  else String.ofList ('x' :: content)

theorem sampleSha256Hex_injective : Function.Injective sampleSha256Hex := by
  have hother : ∀ (digest : String) (content : List Char), digest.toList.head? ≠ some 'x' →
      digest ≠ String.ofList ('x' :: content) := by
    rintro _ content hhead rfl
    exact hhead (by rw [String.toList_ofList]; rfl)
  intro a b h
  simp only [sampleSha256Hex] at h
  split_ifs at h with ha₁ hb₁ hb₂ hb₃ ha₂ hb₁ hb₂ hb₃ ha₃ hb₁ hb₂ hb₃ hb₁ hb₂ hb₃
  all_goals first
    | exact ha₁.trans hb₁.symm
    | exact ha₂.trans hb₂.symm
    | exact ha₃.trans hb₃.symm
    | exact absurd h (by decide)
    | exact absurd h (hother _ _ (by decide))
    | exact absurd h.symm (hother _ _ (by decide))
    | exact (List.cons.inj (String.ofList_injective h)).2

/-- The content that is read. -/
def sampleRead : CreateReadAnchorInput := ⟨"notes", "aba".toList, none, some 9, none⟩

/-- A lenient edit of the block that was read. -/
def sampleEdit (currentContent : String) : AnchoredEditDecisionInput where
  anchor := createReadAnchor sampleSha256Hex "id" sampleRead
  currentContent := currentContent.toList
  mode := some .lenient
  anchoredBlockText := some "aba".toList

theorem readAnchor_sound_sample :
    (verifyReadAnchor sampleSha256Hex (createReadAnchor sampleSha256Hex "id" sampleRead)
        sampleRead.content).ok = true ∧
      (decideAnchoredEdit sampleSha256Hex (sampleEdit "aba")).verdict = .allow ∧
      ∃ p, OccursAt (anchoredBlock sampleRead) "c\naba".toList p := by
  obtain ⟨hverify, hedit⟩ := readAnchor_sound sampleSha256Hex_injective "id" sampleRead
  refine ⟨hverify, (hedit (sampleEdit "aba") rfl).1.mpr rfl, ?_⟩
  obtain ⟨p, hp, -⟩ := (hedit (sampleEdit "c\naba") rfl).2 (by decide)
  exact ⟨p, hp⟩

/-- A block that overlaps itself is found once where it stands twice. -/
theorem allowLenient_overlapping :
    ¬ ∀ sha256Hex : List Char → String, Function.Injective sha256Hex →
        ∀ (randomUUID : String) (input : CreateReadAnchorInput) (edit : AnchoredEditDecisionInput),
          edit.anchor = createReadAnchor sha256Hex randomUUID input →
          (decideAnchoredEdit sha256Hex edit).verdict = .allowLenient →
          ∃! p, OccursAt (anchoredBlock input) (normalizeNewlines edit.currentContent) p := by
  intro h
  obtain ⟨p, -, hunique⟩ := h sampleSha256Hex sampleSha256Hex_injective "id" sampleRead
    (sampleEdit "ababa") rfl (by decide)
  have hfirst : OccursAt (anchoredBlock sampleRead) "ababa".toList 0 :=
    List.isPrefixOf_iff_prefix.mp (by decide)
  have hsecond : OccursAt (anchoredBlock sampleRead) "ababa".toList 2 :=
    List.isPrefixOf_iff_prefix.mp (by decide)
  have h0 := hunique 0 hfirst
  have h2 := hunique 2 hsecond
  omega

end CodingAgent.ReadAnchors
