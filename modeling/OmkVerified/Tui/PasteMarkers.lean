import OmkVerified.Lib.OrderedMap
import OmkVerified.Lib.Scan
import OmkVerified.Tui.StdinBuffer

/-!
# Paste markers

A large paste stands in the text of the editor as a marker such as `[paste #1 +123 lines]`, and its content
is kept beside it (`packages/tui/src/components/editor.ts`). A text is the list of its UTF-16 code units.
-/

namespace Tui.Components

open Lib StdinBuffer

/-- The code units of an ASCII text. -/
def ascii (text : String) : Text := text.toList.map Char.toNat

/-- The decimal digits of a number. -/
def decimal (n : Nat) : Text := (Nat.toDigits 10 n).map Char.toNat

/-- What follows `part` at the front. -/
def after (part : Text) (text : Text) : Option Text :=
  if part.isPrefixOf text then some (text.drop part.length) else none

/-- `( (\+\d+ lines|\d+ chars))?\]` at the front: what follows it. -/
def markerEnd (text : Text) : Option Text :=
  match after (ascii "]") text with
  | some rest => some rest
  | none =>
    match after (ascii " +") text with
    | some rest =>
      match readNumber rest with
      | some (_, rest) => after (ascii " lines]") rest
      | none => none
    | none =>
      match after (ascii " ") text with
      | some rest =>
        match readNumber rest with
        | some (_, rest) => after (ascii " chars]") rest
        | none => none
      | none => none

/-- `PASTE_MARKER_REGEX` at the front: the number of the marker and what follows the marker. -/
def pasteMarker (text : Text) : Option (Nat × Text) :=
  match after (ascii "[paste #") text with
  | some rest =>
    match readNumber rest with
    | some (digits, rest) => (markerEnd rest).map fun back => (readDigits digits, back)
    | none => none
  | none => none

/-- `isPasteMarker`. -/
def isPasteMarker (segment : Text) : Bool :=
  10 ≤ segment.length && (pasteMarker segment).any fun found => found.2 = []

/-- The pattern of `expandPasteMarkers` for one paste: what follows its marker at the front. -/
def markerOf (pasteId : Nat) (text : Text) : Option Text :=
  match after (ascii "[paste #" ++ decimal pasteId) text with
  | some rest => markerEnd rest
  | none => none

/-- The marker of a paste at the front with what follows it. -/
def markerFinder (pasteId : Nat) : Scan.Finder CodeUnit Text := fun text =>
  (markerOf pasteId text).map fun back => (text.take (text.length - back.length), back)

/-! ## Segments -/

/-- `Intl.SegmentData`. -/
structure Segment where
  segment : Text
  index : Nat
  isWordLike : Bool := false

/-- `baseSegmenter.segment`. -/
abbrev Segmenter := Text → List Segment

/-- The markers of the text with a valid number: where they start and end. -/
def markerSpans (validIds : List Nat) (text : Text) : (skip index : Nat) → Text → List (Nat × Nat)
  | _, _, [] => []
  | skip + 1, index, _ :: rest => markerSpans validIds text skip (index + 1) rest
  | 0, index, unit :: rest =>
    match pasteMarker (unit :: rest) with
    | some (id, back) =>
      let spans := markerSpans validIds text (rest.length - back.length) (index + 1) rest
      if id ∈ validIds then (index, text.length - back.length) :: spans else spans
    | none => markerSpans validIds text 0 (index + 1) rest

/-- The segments that lie outside the markers, and one for each marker at whose start a segment starts. -/
def mergeMarkers (text : Text) : List (Nat × Nat) → List Segment → List Segment
  | _, [] => []
  | markers, seg :: segs =>
    let markers := markers.dropWhile fun marker => marker.2 ≤ seg.index
    match markers with
    | marker :: _ =>
      if marker.1 ≤ seg.index ∧ seg.index < marker.2 then
        if seg.index = marker.1 then
          { segment := (text.take marker.2).drop marker.1, index := marker.1 } :: mergeMarkers text markers segs
        else mergeMarkers text markers segs
      else seg :: mergeMarkers text markers segs
    | [] => seg :: mergeMarkers text markers segs

/-- `segmentWithMarkers`. The fast path for a text without `[paste #` gives the same. -/
def segmentWithMarkers (text : Text) (baseSegmenter : Segmenter) (validIds : List Nat) : List Segment :=
  if validIds = [] then baseSegmenter text
  else
    match markerSpans validIds text 0 0 text with
    | [] => baseSegmenter text
    | markers => mergeMarkers text markers (baseSegmenter text)

/-! ## Units -/

/-- `\s`. -/
def isSpaceUnit (unit : CodeUnit) : Bool :=
  (9 ≤ unit && unit ≤ 13) || unit = 0x20 || unit = 0xa0 || unit = 0x1680 ||
    (0x2000 ≤ unit && unit ≤ 0x200a) || unit = 0x2028 || unit = 0x2029 || unit = 0x202f ||
    unit = 0x205f || unit = 0x3000 || unit = 0xfeff

/-- `isWhitespaceChar`. -/
def isWhitespaceChar (char : Text) : Bool := char.any isSpaceUnit

/-- `PUNCTUATION_REGEX`. -/
def isPunctuationUnit (unit : CodeUnit) : Bool :=
  unit ∈ ascii "()\x7b\x7d[]<>.,;:'\"!?+-=*/\\|&%^$#@~\x60"

/-- The units `\w` matches. -/
def isWordUnit (unit : CodeUnit) : Bool :=
  (0x30 ≤ unit && unit ≤ 0x39) || (0x41 ≤ unit && unit ≤ 0x5a) || unit = 0x5f ||
    (0x61 ≤ unit && unit ≤ 0x7a)

end Tui.Components
