import OmkVerified.CodingAgent.Truncate

/-!
# The output accumulator

`packages/coding-agent/src/core/tools/output-accumulator.ts`: a tool's output is decoded chunk by
chunk, only a rolling tail of the decoded text is kept, and a snapshot truncates that tail. The temp
file is the bytes written to it.
-/

namespace CodingAgent

open Lib.Utf8

structure OutputAccumulatorOptions where
  maxLines : Option Nat
  maxBytes : Option Nat

structure TempFile where
  path : String
  written : List UInt8

structure OutputAccumulator where
  maxLines : Nat
  maxBytes : Nat
  maxRollingBytes : Nat
  decoder : TextDecoder
  rawChunks : List (List UInt8)
  tailText : List Char
  tailBytes : Nat
  tailStartsAtLineBoundary : Bool
  totalRawBytes : Nat
  totalDecodedBytes : Nat
  completedLines : Nat
  totalLines : Nat
  currentLineBytes : Nat
  hasOpenLine : Bool
  finished : Bool
  tempFile : Option TempFile

structure OutputSnapshot where
  content : List Char
  truncation : TruncationResult
  fullOutputPath : Option String

namespace OutputAccumulator

/-- The constructor. -/
def new (options : OutputAccumulatorOptions) : OutputAccumulator where
  maxLines := options.maxLines.getD DEFAULT_MAX_LINES
  maxBytes := options.maxBytes.getD DEFAULT_MAX_BYTES
  maxRollingBytes := max (options.maxBytes.getD DEFAULT_MAX_BYTES * 2) 1
  decoder := TextDecoder.new
  rawChunks := []
  tailText := []
  tailBytes := 0
  tailStartsAtLineBoundary := true
  totalRawBytes := 0
  totalDecodedBytes := 0
  completedLines := 0
  totalLines := 0
  currentLineBytes := 0
  hasOpenLine := false
  finished := false
  tempFile := none

/-- `trimTail`. -/
def trimTail (acc : OutputAccumulator) : OutputAccumulator :=
  let buffer := encode acc.tailText
  if buffer.length ≤ acc.maxRollingBytes then { acc with tailBytes := buffer.length }
  else
    let kept := lastBytes acc.maxRollingBytes buffer
    let start := buffer.length - kept.length
    let tailText := decode kept
    { acc with
      tailStartsAtLineBoundary :=
        if start = 0 then acc.tailStartsAtLineBoundary
        else buffer[start - 1]? = some 0x0a
      tailText
      tailBytes := byteLength tailText }

/-- The line counting of `appendDecodedText`: the text after the last newline is the open line. -/
def countLines (acc : OutputAccumulator) (text : List Char) (bytes : Nat) : OutputAccumulator :=
  let newlines := text.count '\n'
  let counted :=
    if newlines = 0 then
      { acc with currentLineBytes := acc.currentLineBytes + bytes, hasOpenLine := true }
    else
      let tail := (text.reverse.takeWhile fun c => c ≠ '\n').reverse
      { acc with
        completedLines := acc.completedLines + newlines
        currentLineBytes := byteLength tail
        hasOpenLine := decide (tail.length > 0) }
  { counted with totalLines := counted.completedLines + if counted.hasOpenLine then 1 else 0 }

/-- `appendDecodedText`. -/
def appendDecodedText (acc : OutputAccumulator) (text : List Char) : OutputAccumulator :=
  if text.length = 0 then acc
  else
    let bytes := byteLength text
    let grown :=
      { acc with
        totalDecodedBytes := acc.totalDecodedBytes + bytes
        tailText := acc.tailText ++ text
        tailBytes := acc.tailBytes + bytes }
    let trimmed := if grown.tailBytes > grown.maxRollingBytes * 2 then grown.trimTail else grown
    trimmed.countLines text bytes

/-- `shouldUseTempFile`. -/
def shouldUseTempFile (acc : OutputAccumulator) : Bool :=
  acc.totalRawBytes > acc.maxBytes || acc.totalDecodedBytes > acc.maxBytes ||
    acc.totalLines > acc.maxLines

/-- `ensureTempFile`, with the path that `defaultTempFilePath` draws. -/
def ensureTempFile (acc : OutputAccumulator) (path : String) : OutputAccumulator :=
  match acc.tempFile with
  | some _ => acc
  | none => { acc with tempFile := some ⟨path, acc.rawChunks.flatten⟩, rawChunks := [] }

/-- `this.tempFileStream?.write(data)`. -/
def writeTempFile (acc : OutputAccumulator) (data : List UInt8) : OutputAccumulator :=
  { acc with tempFile := acc.tempFile.map fun file => { file with written := file.written ++ data } }

/-- `append`. -/
def append (path : String) (acc : OutputAccumulator) (data : List UInt8) :
    Except String OutputAccumulator :=
  if acc.finished then .error "Cannot append to a finished output accumulator"
  else
    let (decoder, text) := acc.decoder.decodeStream data
    let decoded :=
      { acc with totalRawBytes := acc.totalRawBytes + data.length, decoder }.appendDecodedText text
    if decoded.tempFile.isSome || decoded.shouldUseTempFile then
      .ok ((decoded.ensureTempFile path).writeTempFile data)
    else if data.length > 0 then .ok { decoded with rawChunks := decoded.rawChunks ++ [data] }
    else .ok decoded

/-- `finish`. -/
def finish (path : String) (acc : OutputAccumulator) : OutputAccumulator :=
  if acc.finished then acc
  else
    let decoded := { acc with finished := true }.appendDecodedText acc.decoder.decodeEnd
    if decoded.shouldUseTempFile then decoded.ensureTempFile path else decoded

/-- `getSnapshotText`. -/
def getSnapshotText (acc : OutputAccumulator) : List Char :=
  if acc.tailStartsAtLineBoundary then acc.tailText
  else if '\n' ∈ acc.tailText then (acc.tailText.dropWhile fun c => c ≠ '\n').tail
  else acc.tailText

/-- The truncation record of `snapshot`. -/
def snapshotTruncation (acc : OutputAccumulator) : TruncationResult :=
  let tailTruncation := truncateTail acc.getSnapshotText ⟨some acc.maxLines, some acc.maxBytes⟩
  let truncated := acc.totalLines > acc.maxLines || acc.totalDecodedBytes > acc.maxBytes
  let truncatedBy :=
    if truncated then
      some (tailTruncation.truncatedBy.getD
        (if acc.totalDecodedBytes > acc.maxBytes then .bytes else .lines))
    else none
  { tailTruncation with
    truncated
    truncatedBy
    totalLines := acc.totalLines
    totalBytes := acc.totalDecodedBytes
    maxLines := acc.maxLines
    maxBytes := acc.maxBytes }

/-- `snapshot`, with the accumulator after it. -/
def snapshot (path : String) (acc : OutputAccumulator) (persistIfTruncated : Bool) :
    OutputAccumulator × OutputSnapshot :=
  let truncation := acc.snapshotTruncation
  let acc := if persistIfTruncated && truncation.truncated then acc.ensureTempFile path else acc
  (acc, ⟨truncation.content, truncation, acc.tempFile.map TempFile.path⟩)

/-- A whole stream: the chunks are appended in order and the accumulator is finished. -/
def consume (path : String) (options : OutputAccumulatorOptions) (chunks : List (List UInt8)) :
    Except String OutputAccumulator :=
  (chunks.foldlM (append path) (new options)).map (finish path)

end OutputAccumulator

end CodingAgent
