import OmkVerified.Lib.Search
import OmkVerified.Lib.Interruptible

/-!
# Buffered input

`StdinBuffer` of `packages/tui/src/stdin-buffer.ts`: chunks of input are cut into sequences and pastes.
A text is the list of its UTF-16 code units. Chunks are texts, and no timeout fires.
-/

namespace Tui.StdinBuffer

open Lib

abbrev CodeUnit := Nat

abbrev Text := List CodeUnit

def esc : CodeUnit := 0x1b

/-- `"\x1b[200~"`. -/
def bracketedPasteStart : Text := [esc, 0x5b, 0x32, 0x30, 0x30, 0x7e]

/-- `"\x1b[201~"`. -/
def bracketedPasteEnd : Text := [esc, 0x5b, 0x32, 0x30, 0x31, 0x7e]

inductive Status
  | complete
  | incomplete
  | notEscape
deriving DecidableEq

inductive Event
  | data (sequence : Text)
  | paste (content : Text)
deriving DecidableEq

/-! ## Complete sequences -/

def isDigit (unit : CodeUnit) : Bool := 0x30 ≤ unit && unit ≤ 0x39

/-- `\d+` at the front: the digits and what follows. -/
def readNumber (text : Text) : Option (Text × Text) :=
  let digits := text.takeWhile isDigit
  if digits = [] then none else some (digits, text.dropWhile isDigit)

/-- `/^<\d+;\d+;\d+[Mm]$/`. -/
def isSgrMouse (payload : Text) : Bool :=
  match payload with
  | 0x3c :: rest =>
    match readNumber rest with
    | some (_, 0x3b :: rest) =>
      match readNumber rest with
      | some (_, 0x3b :: rest) =>
        match readNumber rest with
        | some (_, [last]) => last = 0x4d || last = 0x6d
        | _ => false
      | _ => false
    | _ => false
  | _ => false

/-- `payload.slice(1, -1)` has three parts of digits. -/
def hasMouseParts (payload : Text) : Bool :=
  let parts := (payload.drop 1).dropLast.splitOn 0x3b
  parts.length = 3 && parts.all fun part => part ≠ [] && part.all isDigit

def isCompleteCsiSequence (data : Text) : Status :=
  if !([esc, 0x5b] : Text).isPrefixOf data then .complete
  else if data.length < 3 then .incomplete
  else
    let payload := data.drop 2
    match payload.getLast? with
    | none => .incomplete
    | some last =>
      if 0x40 ≤ last ∧ last ≤ 0x7e then
        if payload.head? = some 0x3c then
          if isSgrMouse payload then .complete
          else if (last = 0x4d ∨ last = 0x6d) ∧ hasMouseParts payload then .complete
          else .incomplete
        else .complete
      else .incomplete

/-- A string sequence is complete when it ends with `ESC \`. -/
def endsWithSt (data : Text) : Bool := ([esc, 0x5c] : Text).isSuffixOf data

def isCompleteOscSequence (data : Text) : Status :=
  if !([esc, 0x5d] : Text).isPrefixOf data then .complete
  else if endsWithSt data || data.getLast? = some 0x07 then .complete
  else .incomplete

def isCompleteDcsSequence (data : Text) : Status :=
  if !([esc, 0x50] : Text).isPrefixOf data then .complete
  else if endsWithSt data then .complete
  else .incomplete

def isCompleteApcSequence (data : Text) : Status :=
  if !([esc, 0x5f] : Text).isPrefixOf data then .complete
  else if endsWithSt data then .complete
  else .incomplete

def isCompleteSequence (data : Text) : Status :=
  if data.head? ≠ some esc then .notEscape
  else if data.length = 1 then .incomplete
  else
    let afterEsc := data.drop 1
    if ([0x5b] : Text).isPrefixOf afterEsc then
      if ([0x5b, 0x4d] : Text).isPrefixOf afterEsc then
        if 6 ≤ data.length then .complete else .incomplete
      else isCompleteCsiSequence data
    else if ([0x5d] : Text).isPrefixOf afterEsc then isCompleteOscSequence data
    else if ([0x50] : Text).isPrefixOf afterEsc then isCompleteDcsSequence data
    else if ([0x5f] : Text).isPrefixOf afterEsc then isCompleteApcSequence data
    else if ([0x4f] : Text).isPrefixOf afterEsc then
      if 2 ≤ afterEsc.length then .complete else .incomplete
    else .complete

/-- `[`, `]`, `O`, `P` or `_`: after `ESC` it begins an escape sequence. -/
def isIntroducer (unit : CodeUnit) : Bool :=
  unit = 0x5b || unit = 0x5d || unit = 0x4f || unit = 0x50 || unit = 0x5f

/-- The loop over `seqEnd`, with the candidate and what follows it: the sequence and what is left. -/
def findSequence (candidate : Text) : (rest : Text) → Option (Text × Text)
  | [] =>
    if isCompleteSequence candidate = .incomplete then none else some (candidate, [])
  | next :: rest =>
    match isCompleteSequence candidate with
    | .complete =>
      if candidate = [esc, esc] ∧ isIntroducer next then some ([esc], esc :: next :: rest)
      else some (candidate, next :: rest)
    | .incomplete => findSequence (candidate ++ [next]) rest
    | .notEscape => some (candidate, next :: rest)

/-- The loop over `pos`, for at most `fuel` sequences. -/
def extractFrom : (fuel : Nat) → Text → List Text × Text
  | 0, remaining => ([], remaining)
  | _, [] => ([], [])
  | fuel + 1, unit :: rest =>
    if unit = esc then
      match findSequence [unit] rest with
      | some (sequence, left) =>
        (sequence :: (extractFrom fuel left).1, (extractFrom fuel left).2)
      | none => ([], unit :: rest)
    else ([unit] :: (extractFrom fuel rest).1, (extractFrom fuel rest).2)

/-- The sequences and the remainder. -/
def extractCompleteSequences (buffer : Text) : List Text × Text := extractFrom buffer.length buffer

/-! ## Events -/

/-- The number that digits write. -/
def readDigits (digits : Text) : Nat := digits.foldl (fun value digit => value * 10 + (digit - 0x30)) 0

/-- What follows the number in `/^\x1b\[(\d+)(?::\d*)?(?::\d+)?u$/`. -/
def isKittyTail (tail : Text) : Bool :=
  match tail with
  | [0x75] => true
  | 0x3a :: rest =>
    match rest.dropWhile isDigit with
    | [0x75] => true
    | 0x3a :: rest =>
      match readNumber rest with
      | some (_, [0x75]) => true
      | _ => false
    | _ => false
  | _ => false

def parseUnmodifiedKittyPrintableCodepoint (sequence : Text) : Option Nat :=
  match sequence with
  | 0x1b :: 0x5b :: rest =>
    match readNumber rest with
    | some (digits, tail) =>
      if isKittyTail tail ∧ 32 ≤ readDigits digits then some (readDigits digits) else none
    | none => none
  | _ => none

/-- The fields of a buffer, and the events it has emitted. -/
structure Buffer where
  buffer : Text := []
  pasteMode : Bool := false
  pasteBuffer : Text := []
  pendingKittyPrintableCodepoint : Option Nat := none
  events : List Event := []
deriving DecidableEq

def emitDataSequence (state : Buffer) (sequence : Text) : Buffer :=
  let rawCodepoint := if sequence.length = 1 then sequence.head? else none
  if rawCodepoint ≠ none ∧ rawCodepoint = state.pendingKittyPrintableCodepoint then
    { state with pendingKittyPrintableCodepoint := none }
  else
    { state with
      pendingKittyPrintableCodepoint := parseUnmodifiedKittyPrintableCodepoint sequence
      events := state.events ++ [.data sequence] }

/-- The end of a paste. -/
def emitPaste (state : Buffer) (pastedContent : Text) : Buffer :=
  { state with
    pasteMode := false
    pasteBuffer := []
    pendingKittyPrintableCodepoint := none
    events := state.events ++ [.paste pastedContent] }

/-- The start of a paste, with the text before the marker and after it. -/
def startPaste (state : Buffer) (beforePaste pasteBuffer : Text) : Buffer :=
  let state :=
    if 0 < beforePaste.length then
      (extractCompleteSequences beforePaste).1.foldl emitDataSequence state
    else state
  { state with
    pendingKittyPrintableCodepoint := none
    buffer := []
    pasteMode := true
    pasteBuffer }

theorem length_remaining {piece text before after : Text} (hpiece : piece ≠ [])
    (h : cutFirst piece text = some (before, after)) : after.length < text.length := by
  have hlength := congrArg List.length (cutFirst_eq_some h)
  rw [List.length_append, List.length_append] at hlength
  have hpos := List.length_pos_of_ne_nil hpiece
  omega

/-- `process` for a text. -/
def process (state : Buffer) (str : Text) : Buffer :=
  if str.length = 0 ∧ state.buffer.length = 0 then emitDataSequence state []
  else if state.pasteMode then
    let pasteBuffer := state.pasteBuffer ++ (state.buffer ++ str)
    match _hend : cutFirst bracketedPasteEnd pasteBuffer with
    | some (pastedContent, remaining) =>
      let ended := emitPaste { state with buffer := [] } pastedContent
      if 0 < remaining.length then process ended remaining else ended
    | none => { state with buffer := [], pasteBuffer }
  else
    match _hstart : cutFirst bracketedPasteStart (state.buffer ++ str) with
    | some (beforePaste, pasteBuffer) =>
      let started := startPaste state beforePaste pasteBuffer
      match _hend : cutFirst bracketedPasteEnd pasteBuffer with
      | some (pastedContent, remaining) =>
        let ended := emitPaste started pastedContent
        if 0 < remaining.length then process ended remaining else ended
      | none => started
    | none =>
      let result := extractCompleteSequences (state.buffer ++ str)
      result.1.foldl emitDataSequence { state with buffer := result.2 }
termination_by state.buffer.length + state.pasteBuffer.length + str.length
decreasing_by
  · have hlength : remaining.length < (state.pasteBuffer ++ (state.buffer ++ str)).length :=
      length_remaining (by decide) _hend
    simp only [List.length_append] at hlength
    simp only [emitPaste, List.length_nil]
    omega
  · have hstarted := length_remaining (by decide) _hstart
    have hended := length_remaining (by decide) _hend
    simp only [List.length_append] at hstarted
    simp only [emitPaste, startPaste, List.length_nil]
    omega

/-- The chunks are fed one after the other to a new buffer: the events and the buffer. -/
def feed (chunks : List Text) : List Event × Text :=
  let state := chunks.foldl process {}
  (state.events, state.buffer)

end Tui.StdinBuffer

/-!
# Reading a stream unit by unit

What a buffer waits for after each unit of a stream, and where the units that follow decide how it is
cut.
-/

namespace Tui.StdinBuffer

/-- What has been read of an unfinished sequence, or of an unfinished paste. -/
inductive Mode
  | keys (pending : Text)
  | paste (content : Text)

/-- The start of a sequence: no part of it is complete. -/
def Pending (buffer : Text) : Prop :=
  ∀ start, start <+: buffer → start ≠ [] → isCompleteSequence start = .incomplete

def nextMode : Mode → CodeUnit → Mode
  | .keys pending, unit =>
    if bracketedPasteStart <:+ pending ++ [unit] then .paste []
    else if isCompleteSequence (pending ++ [unit]) = .incomplete then .keys (pending ++ [unit])
    else .keys []
  | .paste content, unit =>
    if bracketedPasteEnd <:+ content ++ [unit] then .keys [] else .paste (content ++ [unit])

/-- A double `ESC` before a unit that begins a sequence. -/
def DoubleEscape (sequence rest : Text) : Prop :=
  sequence = [esc, esc] ∧ ∃ next ∈ rest.head?, isIntroducer next = true

/-- A start marker that begins inside a sequence and ends after it. -/
def CutsMarker (sequence rest : Text) : Prop :=
  ∃ k, 0 < k ∧ k < sequence.length ∧ bracketedPasteStart <+: (sequence ++ rest).drop k

/-- A sequence that is complete without what follows it, but is cut in another way with it. -/
def Ambiguous : Mode → CodeUnit → Text → Prop
  | .keys pending, unit, rest =>
    ¬ bracketedPasteStart <:+ pending ++ [unit] ∧
      isCompleteSequence (pending ++ [unit]) = .complete ∧
      (DoubleEscape (pending ++ [unit]) rest ∨ CutsMarker (pending ++ [unit]) rest)
  | .paste _, _, _ => False

/-- No sequence of the stream is ambiguous. -/
def Clear : Mode → Text → Prop
  | _, [] => True
  | mode, unit :: rest => ¬ Ambiguous mode unit rest ∧ Clear (nextMode mode unit) rest

/-- A buffer that waits for the rest of what `mode` holds. -/
structure Waits (state : Buffer) (mode : Mode) : Prop where
  codepoint : ∀ codepoint ∈ state.pendingKittyPrintableCodepoint, 32 ≤ codepoint
  mode : match mode with
    | .keys pending => state.pasteMode = false ∧ state.buffer = pending ∧ Pending pending ∧
        ¬ bracketedPasteStart <:+: pending
    | .paste content => state.pasteMode = true ∧ state.buffer = [] ∧ state.pasteBuffer = content ∧
        ¬ bracketedPasteEnd <:+: content

end Tui.StdinBuffer

/-!
# A buffer in use

Calls of `process` and `flush` of a `StdinBuffer` and firings of its timer in any order, and what
becomes of the units that are fed to it.
-/

namespace Tui.StdinBuffer

open Lib

/-- `flush`: the state and the sequences that it returns. -/
def flush (state : Buffer) : Buffer × List Text :=
  if state.buffer.length = 0 then (state, [])
  else ({ state with buffer := [], pendingKittyPrintableCodepoint := none }, [state.buffer])

/-- The timer fires. It is only set while there is something in the buffer. -/
def onTimeout (state : Buffer) : Buffer :=
  let flushed := flush state
  flushed.2.foldl emitDataSequence flushed.1

inductive Action
  | process (chunk : Text)
  | timeout
  | flush

/-- The state of a buffer, what `flush` has returned, and all that was fed to it. -/
structure Session where
  state : Buffer := {}
  returned : List Text := []
  fed : Text := []

def act (session : Session) : Action → Session
  | .process chunk =>
    { session with state := process session.state chunk, fed := session.fed ++ chunk }
  | .timeout => { session with state := onTimeout session.state }
  | .flush =>
    let flushed := flush session.state
    { session with state := flushed.1, returned := session.returned ++ flushed.2 }

/-! ## What becomes of the input -/

/-- What leaves the buffer: an event, a unit that is suppressed, or what `flush` returns. -/
inductive Output
  | emitted (event : Event)
  | suppressed (unit : CodeUnit)
  | returned (sequence : Text)

namespace Output

/-- The input that the output stands for. -/
def text : Output → Text
  | emitted (.data sequence) => sequence
  | emitted (.paste content) => bracketedPasteStart ++ content ++ bracketedPasteEnd
  | suppressed unit => [unit]
  | returned sequence => sequence

def event? : Output → Option Event
  | emitted event => some event
  | _ => none

def returned? : Output → Option Text
  | returned sequence => some sequence
  | _ => none

end Output

/-- The printable key that was reported last, without modifiers. -/
def lastPrintable (log : List Output) : Option Nat :=
  match log.getLast? with
  | some (.emitted (.data sequence)) => parseUnmodifiedKittyPrintableCodepoint sequence
  | _ => none

/-- Only a unit that repeats the key right before it is suppressed. -/
def Justified (log : List Output) : Prop :=
  ∀ front unit back, log = front ++ .suppressed unit :: back → lastPrintable front = some unit

/-- What the buffer still holds. -/
def retained (state : Buffer) : Text :=
  (if state.pasteMode then bracketedPasteStart ++ state.pasteBuffer else []) ++ state.buffer

/-- The log has all that left the buffer, in order, and with what is retained it is the input. -/
structure Accounts (log : List Output) (session : Session) : Prop where
  events : log.filterMap Output.event? = session.state.events
  returned : log.filterMap Output.returned? = session.returned
  justified : Justified log
  text : log.flatMap Output.text ++ retained session.state = session.fed

/-! ## Where nothing is lost -/

/-- In a text that is read outside of a paste every paste starts after complete sequences. -/
inductive Whole : Text → Prop
  | plain {text : Text} (hstart : cutFirst bracketedPasteStart text = none) : Whole text
  | opened {text before content : Text}
      (hstart : cutFirst bracketedPasteStart text = some (before, content))
      (hbefore : (extractCompleteSequences before).2 = [])
      (hend : cutFirst bracketedPasteEnd content = none) : Whole text
  | pasted {text before rest content remaining : Text}
      (hstart : cutFirst bracketedPasteStart text = some (before, rest))
      (hbefore : (extractCompleteSequences before).2 = [])
      (hend : cutFirst bracketedPasteEnd rest = some (content, remaining))
      (hremaining : Whole remaining) : Whole text

/-- What a chunk leaves to be read outside of a paste is whole. -/
def WholeAfter (state : Buffer) (chunk : Text) : Prop :=
  if state.pasteMode then
    ∀ content remaining,
      cutFirst bracketedPasteEnd (state.pasteBuffer ++ (state.buffer ++ chunk)) =
        some (content, remaining) → Whole remaining
  else Whole (state.buffer ++ chunk)

/-- The condition on an action in some state. -/
def Allowed (session : Session) : Action → Prop
  | .process chunk => WholeAfter session.state chunk
  | _ => True

end Tui.StdinBuffer
