import OmkVerified.Tui.PasteMarkers

/-!
# Word navigation

`findWordBackward` and `findWordForward` of `packages/tui/src/word-navigation.ts`, with paste markers as the
atomic segments.
-/

namespace Tui.Components

open StdinBuffer

/-- The length of segments taken together. -/
def totalLength (segments : List Segment) : Nat := (segments.map fun seg => seg.segment.length).sum

/-- White space that is skipped before a word is looked for. -/
def isSkipped (seg : Segment) : Bool := !isPasteMarker seg.segment && isWhitespaceChar seg.segment

/-- A segment of a run of punctuation. -/
def isPunctuationRun (seg : Segment) : Bool :=
  !isPasteMarker seg.segment && !seg.isWordLike && !isWhitespaceChar seg.segment

/-- `segment.length - (lastMatch.index + lastMatch[0].length)`, the whole length without a match. -/
def afterLastPunctuation (segment : Text) : Nat := segment.reverse.findIdx isPunctuationUnit

def findWordBackward (segment : Segmenter) (text : Text) (cursor : Nat) : Nat :=
  if cursor ≤ 0 then 0
  else
    -- the last segment comes first
    let segments := (segment (text.take cursor)).reverse
    let newCursor := cursor - totalLength (segments.takeWhile isSkipped)
    let segments := segments.dropWhile isSkipped
    match segments with
    | [] => newCursor
    | last :: _ =>
      if isPasteMarker last.segment then newCursor - last.segment.length
      else if last.isWordLike then newCursor - afterLastPunctuation last.segment
      else newCursor - totalLength (segments.takeWhile isPunctuationRun)

def findWordForward (segment : Segmenter) (text : Text) (cursor : Nat) : Nat :=
  if cursor ≥ text.length then text.length
  else
    let segments := segment (text.drop cursor)
    let newCursor := cursor + totalLength (segments.takeWhile isSkipped)
    let segments := segments.dropWhile isSkipped
    match segments with
    | [] => newCursor
    | next :: _ =>
      if isPasteMarker next.segment then newCursor + next.segment.length
      else if next.isWordLike then newCursor + next.segment.findIdx isPunctuationUnit
      else newCursor + totalLength (segments.takeWhile isPunctuationRun)

end Tui.Components
