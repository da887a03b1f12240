import OmkVerified.Lib.Scan
import OmkVerified.Tui.StdinBuffer

/-!
# Texts with escape sequences

`extractAnsiCode`, `graphemeWidth` and `visibleWidth` of `packages/tui/src/utils.ts`. A text is the list of its
UTF-16 code units. The tables of Unicode and the grapheme segmenter are parameters.
-/

namespace Tui.Utils

open Lib StdinBuffer

def bel : CodeUnit := 0x07
def tab : CodeUnit := 0x09
def space : CodeUnit := 0x20
def backslash : CodeUnit := 0x5c

/-- `" ".repeat(count)`. -/
def spaces (count : Nat) : Text := List.replicate count space

/-- The letters that end a control sequence: `m`, `G`, `K`, `H` and `J`. -/
def csiFinals : Text := [0x6d, 0x47, 0x4b, 0x48, 0x4a]

/-- The rest of `ESC [ … m/G/K/H/J`, after the units of `code`. -/
def scanCsi (code : Text) : Text → Option (Text × Text)
  | [] => none
  | unit :: rest =>
    if unit ∈ csiFinals then some (code ++ [unit], rest) else scanCsi (code ++ [unit]) rest

/-- The rest of a string that `BEL` or `ESC \` ends, after the units of `code`. -/
def scanString (code : Text) : Text → Option (Text × Text)
  | [] => none
  | unit :: rest =>
    if unit = bel then some (code ++ [unit], rest)
    else if unit = esc ∧ rest.head? = some backslash then
      some (code ++ [unit, backslash], rest.tail)
    else scanString (code ++ [unit]) rest

/-- The escape sequence at the start of a text, and what follows it. -/
def extractAnsiCode : Text → Option (Text × Text)
  | first :: next :: rest =>
    if first ≠ esc then none
    else if next = 0x5b then scanCsi [first, next] rest
    else if next = 0x5d then scanString [first, next] rest
    else if next = 0x5f then scanString [first, next] rest
    else none
  | _ => none

/-- The text without its escape sequences. -/
def stripAnsi (text : Text) : Text := Scan.replaceAll extractAnsiCode (fun _ => []) text

/-! ## Widths -/

def isPrintable (unit : CodeUnit) : Bool := 0x20 ≤ unit && unit ≤ 0x7e

def isPrintableAscii (text : Text) : Bool := text.all isPrintable

/-- The code points of a text; a surrogate that is not one of a pair stands for itself. -/
def codePoints : Text → List Nat
  | high :: low :: rest =>
    if 0xd800 ≤ high ∧ high ≤ 0xdbff ∧ 0xdc00 ≤ low ∧ low ≤ 0xdfff then
      (0x10000 + (high - 0xd800) * 0x400 + (low - 0xdc00)) :: codePoints rest
    else high :: codePoints (low :: rest)
  | [unit] => [unit]
  | [] => []

/-- What the regular expressions on Unicode properties, the table of East Asian widths and the segmenter
say. -/
structure Unicode where
  /-- The segments of `graphemeSegmenter.segment`. -/
  graphemes : Text → List Text
  /-- `zeroWidthRegex.test`. -/
  isZeroWidth : Text → Bool
  /-- `rgiEmojiRegex.test`. -/
  isRgiEmoji : Text → Bool
  /-- `segment.replace(leadingNonPrintingRegex, "")`. -/
  dropNonPrinting : Text → Text
  eastAsianWidth : Nat → Nat

variable (unicode : Unicode)

def couldBeEmoji (segment : Text) : Bool :=
  let cp := (codePoints segment).headD 0
  (0x1f000 ≤ cp && cp ≤ 0x1fbff) || (0x2300 ≤ cp && cp ≤ 0x23ff) || (0x2600 ≤ cp && cp ≤ 0x27bf) ||
    (0x2b50 ≤ cp && cp ≤ 0x2b55) || segment.contains 0xfe0f || 2 < segment.length

/-- What a unit that was joined to a base adds to its width. -/
def trailingWidth (c : Nat) : Nat :=
  if 0xff00 ≤ c ∧ c ≤ 0xffef then unicode.eastAsianWidth c
  else if c = 0x0e33 ∨ c = 0x0eb3 then 1
  else 0

def graphemeWidth (segment : Text) : Nat :=
  if segment = [tab] then 3
  else if unicode.isZeroWidth segment then 0
  else if couldBeEmoji segment && unicode.isRgiEmoji segment then 2
  else
    match codePoints (unicode.dropNonPrinting segment) with
    | [] => 0
    | cp :: _ =>
      if 0x1f1e6 ≤ cp ∧ cp ≤ 0x1f1ff then 2
      else
        unicode.eastAsianWidth cp +
          if segment.length > 1 then ((codePoints (segment.drop 1)).map (trailingWidth unicode)).sum
          else 0

/-- `str.replace(/\t/g, "   ")`. -/
def expandTabs (text : Text) : Text := text.flatMap fun unit => if unit = tab then spaces 3 else [unit]

/-- Without the cache, which returns what was computed before. -/
def visibleWidth (text : Text) : Nat :=
  if text.length = 0 then 0
  else if isPrintableAscii text then text.length
  else ((unicode.graphemes (stripAnsi (expandTabs text))).map (graphemeWidth unicode)).sum

/-! ## What a loop over a text sees -/

/-- An escape sequence, a tab, or a run of text up to the next one of these. -/
inductive Item
  | code (code : Text)
  | tab
  | run (text : Text)

/-- The items of a text that was read. Tabs are items of their own only where the loop looks for them. -/
def groupItems (cutsTabs : Bool) : List (Scan.Token CodeUnit Text) → List Item
  | [] => []
  | .found code :: tokens => .code code :: groupItems cutsTabs tokens
  | .unit unit :: tokens =>
    if cutsTabs && unit = tab then .tab :: groupItems cutsTabs tokens
    else
      match groupItems cutsTabs tokens with
      | .run text :: items => .run (unit :: text) :: items
      | items => .run [unit] :: items

def items (cutsTabs : Bool) (text : Text) : List Item :=
  groupItems cutsTabs (Scan.tokens extractAnsiCode text)

/-- What a loop over a text does with a sequence and with a visible segment of some width, after which it may
break. -/
structure Scanner (σ : Type) where
  code : σ → Text → σ
  /-- The state behind the segment, and whether the loop goes on. -/
  segment : σ → Text → Nat → σ × Bool

namespace Scanner

variable {σ : Type} (scanner : Scanner σ)

/-- `for (const { segment } of graphemeSegmenter.segment(text))`. -/
def segments (state : σ) : List Text → σ × Bool
  | [] => (state, true)
  | segment :: rest =>
    let next := scanner.segment state segment (graphemeWidth unicode segment)
    if next.2 then segments next.1 rest else next

/-- `while (i < text.length)`. -/
def items (state : σ) : List Item → σ × Bool
  | [] => (state, true)
  | .code code :: rest => items (scanner.code state code) rest
  | .tab :: rest =>
    let next := scanner.segment state [Utils.tab] 3
    if next.2 then items next.1 rest else next
  | .run text :: rest =>
    let next := scanner.segments unicode state (unicode.graphemes text)
    if next.2 then items next.1 rest else next

end Scanner

end Tui.Utils
