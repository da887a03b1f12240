import OmkVerified.Lib.JsNumber
import OmkVerified.Lib.Scan

/-!
# Replacing texts in a file

`packages/coding-agent/src/core/tools/edit-diff.ts`: the edits of the edit tool, located exactly or after a
fuzzy normalization, and applied to a content whose line ends are `\n`. A text is the list of its UTF-16
code units. NFKC and the combining marks of Unicode are parameters.
-/

namespace CodingAgent.EditDiff

open Lib

abbrev Text := List Nat

/-- The tables of Unicode. -/
structure Unicode where
  /-- `text.normalize("NFKC")`. -/
  nfkc : Text → Text
  /-- `/\p{M}/u.test(String.fromCodePoint(codePoint))`. -/
  isCombiningMark : Nat → Bool

def lineFeed : Nat := 0x0a

/-! ## Line ends and white space -/

/-- `text.replace(/\r\n/g, "\n")`. -/
def replaceCrLf : Text → Text
  | 0x0d :: 0x0a :: rest => lineFeed :: replaceCrLf rest
  | unit :: rest => unit :: replaceCrLf rest
  | [] => []

/-- `normalizeToLF`. -/
def normalizeToLF (text : Text) : Text :=
  (replaceCrLf text).map fun unit => if unit = 0x0d then lineFeed else unit

/-- The white space that `trimEnd` removes; none of it is a surrogate. -/
def isSpace (unit : Nat) : Bool := isWhitespace (Char.ofNat unit)

/-- `line.trimEnd()`. -/
def trimEnd (line : Text) : Text := line.rdropWhile isSpace

/-! ## Fuzzy normalization -/

/-- `[\u2018\u2019\u201A\u201B]`. -/
def isSmartSingleQuote (unit : Nat) : Bool := 0x2018 ≤ unit && unit ≤ 0x201b

/-- `[\u201C\u201D\u201E\u201F]`. -/
def isSmartDoubleQuote (unit : Nat) : Bool := 0x201c ≤ unit && unit ≤ 0x201f

/-- `[\u2010\u2011\u2012\u2013\u2014\u2015\u2212]`. -/
def isUnicodeDash (unit : Nat) : Bool := (0x2010 ≤ unit && unit ≤ 0x2015) || unit = 0x2212

/-- `[\u00A0\u2002-\u200A\u202F\u205F\u3000]`. -/
def isUnicodeSpace (unit : Nat) : Bool :=
  unit = 0x00a0 || (0x2002 ≤ unit && unit ≤ 0x200a) || unit = 0x202f || unit = 0x205f || unit = 0x3000

/-- `text.replace(pattern, replacement)` for a class of single code units. -/
def replaceUnits (pattern : Nat → Bool) (replacement : Nat) (text : Text) : Text :=
  text.map fun unit => if pattern unit then replacement else unit

/-- `normalizeForFuzzyMatch`. -/
def normalizeForFuzzyMatch (unicode : Unicode) (text : Text) : Text :=
  let lines := (unicode.nfkc text).splitOn lineFeed
  let stripped := [lineFeed].intercalate (lines.map trimEnd)
  replaceUnits isUnicodeSpace 0x20 (replaceUnits isUnicodeDash 0x2d
    (replaceUnits isSmartDoubleQuote 0x22 (replaceUnits isSmartSingleQuote 0x27 stripped)))

def foldFuzzyChar (unit : Nat) : Nat :=
  if isSmartSingleQuote unit then 0x27
  else if isSmartDoubleQuote unit then 0x22
  else if isUnicodeDash unit then 0x2d
  else if isUnicodeSpace unit then 0x20
  else unit

/-! ## The map of a normalized content -/

/-- The code points of a text, each as its code units; a surrogate that is not one of a pair stands for
itself. -/
def codePoints : Text → List Text
  | high :: low :: rest =>
    if 0xd800 ≤ high ∧ high ≤ 0xdbff ∧ 0xdc00 ≤ low ∧ low ≤ 0xdfff then
      [high, low] :: codePoints rest
    else [high] :: codePoints (low :: rest)
  | [unit] => [[unit]]
  | [] => []

/-- `text.codePointAt(0)` of the code units of a code point. -/
def codePointOf : Text → Nat
  | [high, low] => 0x10000 + (high - 0xd800) * 0x400 + (low - 0xdc00)
  | units => units.headD 0

def joinsPreviousChunk (unicode : Unicode) (codePoint previousCodePoint : Nat) : Bool :=
  if previousCodePoint = 0x0a then false
  else if unicode.isCombiningMark codePoint then true
  else if codePoint = 0xff9e ∨ codePoint = 0xff9f then true
  else if 0x1160 ≤ codePoint ∧ codePoint ≤ 0x11ff then
    (0x1100 ≤ previousCodePoint && previousCodePoint ≤ 0x11ff) ||
      (0xac00 ≤ previousCodePoint && previousCodePoint ≤ 0xd7a3)
  else false

/-- The inner loop over the code points: `chunk` is the slice from `i` to `j`. -/
def chunksFrom (unicode : Unicode) : (chunk : Text) → (previousCodePoint : Nat) → List Text → List Text
  | chunk, _, [] => [chunk]
  | chunk, previousCodePoint, units :: rest =>
    let codePoint := codePointOf units
    if joinsPreviousChunk unicode codePoint previousCodePoint then
      chunksFrom unicode (chunk ++ units) codePoint rest
    else chunk :: chunksFrom unicode units codePoint rest

/-- The slices of a text that are normalized one by one. -/
def chunks (unicode : Unicode) (text : Text) : List Text :=
  match codePoints text with
  | [] => []
  | units :: rest => chunksFrom unicode units (codePointOf units) rest

/-- A code unit of a normalized text with the span of the original that it comes from. -/
structure MappedUnit where
  unit : Nat
  startOffset : Nat
  endOffset : Nat

/-- The first phase, for the chunks from the offset `i` on. -/
def mapChunks (unicode : Unicode) : (i : Nat) → List Text → List MappedUnit
  | _, [] => []
  | i, chunk :: rest =>
    (unicode.nfkc chunk).map (fun unit => ⟨unit, i, i + chunk.length⟩) ++
      mapChunks unicode (i + chunk.length) rest

/-- The line `nfkcChars.slice(lineStart, k)` without its trailing white space, folded. -/
def keepLine (line : List MappedUnit) : List MappedUnit :=
  (line.rdropWhile fun u => isSpace u.unit).map fun u => { u with unit := foldFuzzyChar u.unit }

/-- The second and third phase; `line` is what was read of the current line. -/
def mapLines (line : List MappedUnit) : List MappedUnit → List MappedUnit
  | [] => keepLine line
  | u :: rest =>
    if u.unit = lineFeed then keepLine line ++ u :: mapLines [] rest else mapLines (line ++ [u]) rest

structure NormalizedContentMap where
  units : List MappedUnit
  originalLength : Nat

def NormalizedContentMap.normalized (map : NormalizedContentMap) : Text := map.units.map (·.unit)

def buildNormalizedContentMap (unicode : Unicode) (text : Text) : NormalizedContentMap where
  units := mapLines [] (mapChunks unicode 0 (chunks unicode text))
  originalLength := text.length

structure Span where
  index : Nat
  matchLength : Nat
deriving DecidableEq

def mapNormalizedSpanToOriginal (map : NormalizedContentMap) (index length : Nat) : Span :=
  let start := ((map.units[index]?).map (·.startOffset)).getD map.originalLength
  let stop :=
    if length > 0 then ((map.units[index + length - 1]?).map (·.endOffset)).getD start else start
  ⟨start, stop - start⟩

/-! ## Locating and applying edits -/

/-- `text.indexOf(piece)`; `none` stands for -1. -/
def indexOf (text piece : Text) : Option Nat := (cutFirst piece text).map (·.1.length)

structure FuzzyMatchResult where
  span : Span
  usedFuzzyMatch : Bool
deriving DecidableEq

/-- `fuzzyFindText`; `none` when nothing was found. -/
def fuzzyFindText (unicode : Unicode) (content oldText : Text) : Option FuzzyMatchResult :=
  match indexOf content oldText with
  | some exactIndex => some ⟨⟨exactIndex, oldText.length⟩, false⟩
  | none =>
    let map := buildNormalizedContentMap unicode content
    let fuzzyOldText := normalizeForFuzzyMatch unicode oldText
    (indexOf map.normalized fuzzyOldText).map fun fuzzyIndex =>
      ⟨mapNormalizedSpanToOriginal map fuzzyIndex fuzzyOldText.length, true⟩

/-- `text.split(separator).length`; an empty separator splits the code units. -/
def splitLength (text separator : Text) : Nat :=
  if separator = [] then text.length else countFrom separator (text.length + 1) text + 1

def countOccurrences (unicode : Unicode) (content oldText : Text) : Int :=
  splitLength (normalizeForFuzzyMatch unicode content) (normalizeForFuzzyMatch unicode oldText) - 1

structure Edit where
  oldText : Text
  newText : Text

structure MatchedEdit where
  editIndex : Nat
  span : Span
  newText : Text

inductive EditError
  | emptyOldText (editIndex totalEdits : Nat)
  | notFound (editIndex totalEdits : Nat)
  | duplicate (editIndex totalEdits : Nat) (occurrences : Int)
  | overlap (previousIndex currentIndex : Nat)
  | noChange (totalEdits : Nat)
deriving DecidableEq

/-- The message of an error for the file `path`. -/
def EditError.message (path : String) : EditError → String
  | .emptyOldText i total =>
    if total = 1 then "oldText must not be empty in " ++ path ++ "."
    else "edits[" ++ toString i ++ "].oldText must not be empty in " ++ path ++ "."
  | .notFound i total =>
    if total = 1 then "Could not find the exact text in " ++ path ++
      ". The old text must match exactly including all whitespace and newlines."
    else "Could not find edits[" ++ toString i ++ "] in " ++ path ++
      ". The oldText must match exactly including all whitespace and newlines."
  | .duplicate i total occurrences =>
    if total = 1 then "Found " ++ toString occurrences ++ " occurrences of the text in " ++ path ++
      ". The text must be unique. Please provide more context to make it unique."
    else "Found " ++ toString occurrences ++ " occurrences of edits[" ++ toString i ++ "] in " ++ path ++
      ". Each oldText must be unique. Please provide more context to make it unique."
  | .overlap previous current =>
    "edits[" ++ toString previous ++ "] and edits[" ++ toString current ++ "] overlap in " ++ path ++
      ". Merge them into one edit or target disjoint regions."
  | .noChange total =>
    if total = 1 then "No changes made to " ++ path ++ ". The replacement produced identical content. " ++
      "This might indicate an issue with special characters or the text not existing as expected."
    else "No changes made to " ++ path ++ ". The replacements produced identical content."

def normalizeEdit (edit : Edit) : Edit := ⟨normalizeToLF edit.oldText, normalizeToLF edit.newText⟩

/-- The loop that locates the edits from the number `i` on. -/
def matchEdits (unicode : Unicode) (baseContent : Text) (totalEdits : Nat) :
    (i : Nat) → List Edit → Except EditError (List MatchedEdit)
  | _, [] => .ok []
  | i, edit :: rest =>
    match fuzzyFindText unicode baseContent edit.oldText with
    | none => .error (.notFound i totalEdits)
    | some matchResult =>
      let occurrences := countOccurrences unicode baseContent edit.oldText
      if occurrences > 1 then .error (.duplicate i totalEdits occurrences)
      else
        match matchEdits unicode baseContent totalEdits (i + 1) rest with
        | .error error => .error error
        | .ok matched => .ok (⟨i, matchResult.span, edit.newText⟩ :: matched)

/-- `matchedEdits.sort((a, b) => a.matchIndex - b.matchIndex)`. -/
def sortEdits (matched : List MatchedEdit) : List MatchedEdit :=
  matched.insertionSort fun a b => a.span.index ≤ b.span.index

/-- The first two neighbours of which the one before reaches into the other. -/
def findOverlap : List MatchedEdit → Option (MatchedEdit × MatchedEdit)
  | previous :: current :: rest =>
    if previous.span.index + previous.span.matchLength > current.span.index then
      some (previous, current)
    else findOverlap (current :: rest)
  | _ => none

/-- `content.substring(0, index) + newText + content.substring(index + matchLength)`. -/
def replaceSpan (content : Text) (edit : MatchedEdit) : Text :=
  content.take edit.span.index ++ edit.newText ++
    content.drop (edit.span.index + edit.span.matchLength)

/-- `applyEditsToNormalizedContent`: the new content. -/
def applyEditsToNormalizedContent (unicode : Unicode) (baseContent : Text) (edits : List Edit) :
    Except EditError Text :=
  let normalizedEdits := edits.map normalizeEdit
  match normalizedEdits.findIdx? fun edit => edit.oldText.length = 0 with
  | some i => .error (.emptyOldText i normalizedEdits.length)
  | none =>
    match matchEdits unicode baseContent normalizedEdits.length 0 normalizedEdits with
    | .error error => .error error
    | .ok matched =>
      let matchedEdits := sortEdits matched
      match findOverlap matchedEdits with
      | some (previous, current) => .error (.overlap previous.editIndex current.editIndex)
      | none =>
        -- the last edit is replaced first
        let newContent := matchedEdits.reverse.foldl replaceSpan baseContent
        if baseContent = newContent then .error (.noChange normalizedEdits.length)
        else .ok newContent

end CodingAgent.EditDiff
