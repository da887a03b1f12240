import OmkVerified.Lib.Utf8

/-!
# Truncation of tool output

`packages/coding-agent/src/core/tools/truncate.ts`: keeping the first or the last lines of a text
within a line and a byte limit. Texts are lists of scalar values and limits are natural numbers.
-/

namespace CodingAgent

open Lib.Utf8

def DEFAULT_MAX_LINES : Nat := 2000

def DEFAULT_MAX_BYTES : Nat := 50 * 1024

inductive TruncatedBy
  | lines
  | bytes
deriving DecidableEq

structure TruncationResult where
  content : List Char
  truncated : Bool
  truncatedBy : Option TruncatedBy
  totalLines : Nat
  totalBytes : Nat
  outputLines : Nat
  outputBytes : Nat
  lastLinePartial : Bool
  firstLineExceedsLimit : Bool
  maxLines : Nat
  maxBytes : Nat

structure TruncationOptions where
  maxLines : Option Nat
  maxBytes : Option Nat

/-- `text.endsWith("\n")`. -/
def endsWithNewline (text : List Char) : Bool := text.getLast? = some '\n'

/-- `splitLinesForCounting`. -/
def splitLinesForCounting (content : List Char) : List (List Char) :=
  if content.length = 0 then []
  else
    let lines := content.splitOn '\n'
    if endsWithNewline content then lines.dropLast else lines

/-- `lines.join("\n")`. -/
def joinLines (lines : List (List Char)) : List Char := ['\n'].intercalate lines

/-- `truncateStringToBytesFromEnd`. -/
def truncateStringToBytesFromEnd (str : List Char) (maxBytes : Nat) : List Char :=
  let buf := encode str
  if buf.length ≤ maxBytes then str else decode (lastBytes maxBytes buf)

/-- The variables of the loop of `truncateHead`. -/
structure HeadLoop where
  outputLinesArr : List (List Char)
  outputBytesCount : Nat
  truncatedBy : TruncatedBy

/-- The loop of `truncateHead` from the line number `i` on. -/
def headLoop (maxLines maxBytes : Nat) :
    Nat → List (List Char) → List (List Char) → Nat → HeadLoop
  | _, [], outputLinesArr, outputBytesCount => ⟨outputLinesArr, outputBytesCount, .lines⟩
  | i, line :: lines, outputLinesArr, outputBytesCount =>
    if i < maxLines then
      let lineBytes := byteLength line + if i > 0 then 1 else 0
      if outputBytesCount + lineBytes > maxBytes then ⟨outputLinesArr, outputBytesCount, .bytes⟩
      else
        headLoop maxLines maxBytes (i + 1) lines (outputLinesArr ++ [line])
          (outputBytesCount + lineBytes)
    else ⟨outputLinesArr, outputBytesCount, .lines⟩

/-- `truncateHead`. A text over a limit is not empty, so it has a first line. -/
def truncateHead (content : List Char) (options : TruncationOptions) : TruncationResult :=
  let maxLines := options.maxLines.getD DEFAULT_MAX_LINES
  let maxBytes := options.maxBytes.getD DEFAULT_MAX_BYTES
  let totalBytes := byteLength content
  let lines := splitLinesForCounting content
  let totalLines := lines.length
  if totalLines ≤ maxLines ∧ totalBytes ≤ maxBytes then
    { content, truncated := false, truncatedBy := none, totalLines, totalBytes
      outputLines := totalLines, outputBytes := totalBytes, lastLinePartial := false
      firstLineExceedsLimit := false, maxLines, maxBytes }
  else
    let firstLineBytes := byteLength (lines.headD [])
    if firstLineBytes > maxBytes then
      { content := [], truncated := true, truncatedBy := some .bytes, totalLines, totalBytes
        outputLines := 0, outputBytes := 0, lastLinePartial := false
        firstLineExceedsLimit := true, maxLines, maxBytes }
    else
      let loop := headLoop maxLines maxBytes 0 lines [] 0
      let truncatedBy :=
        if loop.outputLinesArr.length ≥ maxLines ∧ loop.outputBytesCount ≤ maxBytes then .lines
        else loop.truncatedBy
      let outputContent := joinLines loop.outputLinesArr
      { content := outputContent, truncated := true, truncatedBy := some truncatedBy, totalLines
        totalBytes, outputLines := loop.outputLinesArr.length
        outputBytes := byteLength outputContent, lastLinePartial := false
        firstLineExceedsLimit := false, maxLines, maxBytes }

/-- The variables of the backward loop of `truncateTail`. -/
structure TailLoop where
  outputLinesArr : List (List Char)
  outputBytesCount : Nat
  truncatedBy : TruncatedBy
  lastLinePartial : Bool

/-- The backward loop of `truncateTail`, over the lines from the last one on. -/
def tailLoop (maxLines maxBytes : Nat) : List (List Char) → List (List Char) → Nat → TailLoop
  | [], outputLinesArr, outputBytesCount => ⟨outputLinesArr, outputBytesCount, .lines, false⟩
  | line :: lines, outputLinesArr, outputBytesCount =>
    if outputLinesArr.length < maxLines then
      let lineBytes := byteLength line + if outputLinesArr.length > 0 then 1 else 0
      if outputBytesCount + lineBytes > maxBytes then
        if outputLinesArr.length = 0 then
          let truncatedLine := truncateStringToBytesFromEnd line maxBytes
          ⟨truncatedLine :: outputLinesArr, byteLength truncatedLine, .bytes, true⟩
        else ⟨outputLinesArr, outputBytesCount, .bytes, false⟩
      else
        tailLoop maxLines maxBytes lines (line :: outputLinesArr) (outputBytesCount + lineBytes)
    else ⟨outputLinesArr, outputBytesCount, .lines, false⟩

/-- `truncateTail`. -/
def truncateTail (content : List Char) (options : TruncationOptions) : TruncationResult :=
  let maxLines := options.maxLines.getD DEFAULT_MAX_LINES
  let maxBytes := options.maxBytes.getD DEFAULT_MAX_BYTES
  let totalBytes := byteLength content
  let lines := splitLinesForCounting content
  let totalLines := lines.length
  if totalLines ≤ maxLines ∧ totalBytes ≤ maxBytes then
    { content, truncated := false, truncatedBy := none, totalLines, totalBytes
      outputLines := totalLines, outputBytes := totalBytes, lastLinePartial := false
      firstLineExceedsLimit := false, maxLines, maxBytes }
  else
    let loop := tailLoop maxLines maxBytes lines.reverse [] 0
    let truncatedBy :=
      if loop.outputLinesArr.length ≥ maxLines ∧ loop.outputBytesCount ≤ maxBytes then .lines
      else loop.truncatedBy
    let outputContent := joinLines loop.outputLinesArr
    { content := outputContent, truncated := true, truncatedBy := some truncatedBy, totalLines
      totalBytes, outputLines := loop.outputLinesArr.length
      outputBytes := byteLength outputContent, lastLinePartial := loop.lastLinePartial
      firstLineExceedsLimit := false, maxLines, maxBytes }

end CodingAgent
