import OmkVerified.Lib.Json

/-!
# JSON text

`JSON.stringify` without indentation and `JSON.parse`, on lists of characters. Numbers are written
as `Number.prototype.toString` writes them. An escape sequence for an unpaired surrogate, which has
no representation among scalar values, is read as the replacement character.
-/

namespace Lib.Json

/-! ## Writing -/

/-- The characters that stand for `c` inside a string literal. -/
def escapeChar (c : Char) : List Char :=
  if c = '"' then ['\\', '"']
  else if c = '\\' then ['\\', '\\']
  else if c = '\x08' then ['\\', 'b']
  else if c = '\x0c' then ['\\', 'f']
  else if c = '\n' then ['\\', 'n']
  else if c = '\r' then ['\\', 'r']
  else if c = '\t' then ['\\', 't']
  else if c.toNat < 0x20 then
    ['\\', 'u', '0', '0', Nat.digitChar (c.toNat / 16), Nat.digitChar (c.toNat % 16)]
  else [c]

/-- A string literal. -/
def quote (s : List Char) : List Char := '"' :: s.flatMap escapeChar ++ ['"']

/-- The digits of the mantissa `m` with the decimal point after the first `n` of them, as
`Number.prototype.toString` places it. -/
def formatDigits (digits : List Char) (n : Int) : List Char :=
  let k : Int := digits.length
  if k ≤ n ∧ n ≤ 21 then digits ++ List.replicate (n - k).toNat '0'
  else if 0 < n ∧ n ≤ 21 then digits.take n.toNat ++ '.' :: digits.drop n.toNat
  else if -6 < n ∧ n ≤ 0 then '0' :: '.' :: List.replicate (-n).toNat '0' ++ digits
  else
    digits.take 1 ++ (if k = 1 then [] else '.' :: digits.drop 1) ++
      'e' :: (if 0 ≤ n - 1 then '+' else '-') :: Nat.toDigits 10 (n - 1).natAbs

/-- A number literal. -/
def formatNumber (n : Decimal) : List Char :=
  if n.mantissa = 0 then ['0']
  else
    let digits := Nat.toDigits 10 n.mantissa.natAbs
    (if n.mantissa < 0 then ['-'] else []) ++ formatDigits digits (digits.length + n.exponent)

/-- `JSON.stringify(value)`. -/
def stringify : Json → List Char
  | .null => ['n', 'u', 'l', 'l']
  | .bool true => ['t', 'r', 'u', 'e']
  | .bool false => ['f', 'a', 'l', 's', 'e']
  | .num n => formatNumber n
  | .str s => quote s.toList
  | .arr items => '[' :: stringifyItems items
  | .obj fields => '{' :: stringifyFields fields
where
  stringifyItems : List Json → List Char
    | [] => [']']
    | [value] => stringify value ++ [']']
    | value :: next :: items => stringify value ++ ',' :: stringifyItems (next :: items)
  stringifyFields : List (String × Json) → List Char
    | [] => ['}']
    | [(key, value)] => quote key.toList ++ ':' :: (stringify value ++ ['}'])
    | (key, value) :: next :: fields =>
      quote key.toList ++ ':' :: (stringify value ++ ',' :: stringifyFields (next :: fields))

/-! ## Reading -/

/-- White space of the JSON grammar. -/
def isSpace (c : Char) : Bool := c = ' ' || c = '\t' || c = '\n' || c = '\r'

def skipSpace (text : List Char) : List Char := text.dropWhile isSpace

/-- The value of a hexadecimal digit. -/
def hexValue (c : Char) : Option Nat :=
  if c.isDigit then some (c.toNat - '0'.toNat)
  else if 'a' ≤ c ∧ c ≤ 'f' then some (c.toNat - 'a'.toNat + 10)
  else if 'A' ≤ c ∧ c ≤ 'F' then some (c.toNat - 'A'.toNat + 10)
  else none

/-- The code unit of the four digits of a `\u` escape. -/
def hexUnit (a b c d : Char) : Option Nat := do
  let a ← hexValue a
  let b ← hexValue b
  let c ← hexValue c
  let d ← hexValue d
  return ((a * 16 + b) * 16 + c) * 16 + d

/-- The character of a one letter escape. -/
def unescape (c : Char) : Option Char :=
  if c = '"' then some '"'
  else if c = '\\' then some '\\'
  else if c = '/' then some '/'
  else if c = 'b' then some '\x08'
  else if c = 'f' then some '\x0c'
  else if c = 'n' then some '\n'
  else if c = 'r' then some '\r'
  else if c = 't' then some '\t'
  else none

/-- What one step reads inside a string literal: a scalar value or half of a surrogate pair. -/
inductive StringItem
  | char (c : Char)
  | surrogate (unit : Nat)

/-- The item of a code unit. -/
def StringItem.ofUnit (unit : Nat) : StringItem :=
  if 0xD800 ≤ unit ∧ unit < 0xE000 then .surrogate unit else .char (Char.ofNat unit)

/-- The items of a string literal after its opening quote, and what follows its closing quote. -/
def parseStringItems : List Char → Option (List StringItem × List Char)
  | [] => none
  | '"' :: rest => some ([], rest)
  | '\\' :: 'u' :: a :: b :: c :: d :: rest =>
    match hexUnit a b c d with
    | none => none
    | some unit => (parseStringItems rest).map fun (items, rest) => (.ofUnit unit :: items, rest)
  | '\\' :: c :: rest =>
    match unescape c with
    | none => none
    | some c => (parseStringItems rest).map fun (items, rest) => (.char c :: items, rest)
  | c :: rest =>
    if c = '\\' ∨ c.toNat < 0x20 then none
    else (parseStringItems rest).map fun (items, rest) => (.char c :: items, rest)

/-- The text after an item, from right to left: a low surrogate waits for the high one before
it. -/
def pairItem (item : StringItem) : Option Nat × List Char → Option Nat × List Char
  | (low, text) =>
    let unpaired := if low.isSome then '\uFFFD' :: text else text
    match item with
    | .char c => (none, c :: unpaired)
    | .surrogate unit =>
      if 0xDC00 ≤ unit then (some unit, unpaired)
      else
        match low with
        | some low => (none, Char.ofNat (0x10000 + (unit - 0xD800) * 0x400 + (low - 0xDC00)) :: text)
        | none => (none, '\uFFFD' :: text)

def pairItems (items : List StringItem) : List Char :=
  let (low, text) := items.foldr pairItem (none, [])
  if low.isSome then '\uFFFD' :: text else text

/-- The text of a string literal after its opening quote, and what follows its closing quote. -/
def parseString (text : List Char) : Option (List Char × List Char) :=
  (parseStringItems text).map fun (items, rest) => (pairItems items, rest)

/-- The characters a number literal is made of. -/
def isNumberChar (c : Char) : Bool :=
  c.isDigit || c = '-' || c = '+' || c = '.' || c = 'e' || c = 'E'

/-- The digits at the start of a text, at least one. -/
def readDigits (text : List Char) : Option (List Char × List Char) :=
  let digits := text.takeWhile Char.isDigit
  if digits.isEmpty then none else some (digits, text.dropWhile Char.isDigit)

/-- The integer part: no leading zero before another digit. -/
def readInteger (text : List Char) : Option (List Char × List Char) :=
  match readDigits text with
  | some ('0' :: _ :: _, _) => none
  | result => result

/-- The fraction, without its point. -/
def readFraction (text : List Char) : Option (List Char × List Char) :=
  match text with
  | '.' :: rest => readDigits rest
  | rest => some ([], rest)

/-- The exponent, which ends the literal. -/
def readExponent (text : List Char) : Option Int :=
  match text with
  | [] => some 0
  | c :: rest =>
    if c = 'e' ∨ c = 'E' then
      let (negative, rest) :=
        match rest with
        | '+' :: rest => (false, rest)
        | '-' :: rest => (true, rest)
        | rest => (false, rest)
      match readDigits rest with
      | some (digits, []) =>
        let value : Int := Nat.ofDigitChars 10 digits 0
        some (if negative then -value else value)
      | _ => none
    else none

/-- An unsigned number literal. -/
def readUnsigned (negative : Bool) (text : List Char) : Option Decimal := do
  let (integer, text) ← readInteger text
  let (fraction, text) ← readFraction text
  let exponent ← readExponent text
  return Decimal.ofDigits negative (Nat.ofDigitChars 10 (integer ++ fraction) 0)
    (exponent - fraction.length)

/-- A whole number literal. -/
def readNumber (text : List Char) : Option Decimal :=
  match text with
  | '-' :: text => readUnsigned true text
  | text => readUnsigned false text

mutual

/-- A value at the start of a text, and what follows it. -/
def parseValue : (fuel : Nat) → List Char → Option (Json × List Char)
  | 0, _ => none
  | fuel + 1, text =>
    match skipSpace text with
    | 'n' :: 'u' :: 'l' :: 'l' :: rest => some (.null, rest)
    | 't' :: 'r' :: 'u' :: 'e' :: rest => some (.bool true, rest)
    | 'f' :: 'a' :: 'l' :: 's' :: 'e' :: rest => some (.bool false, rest)
    | '"' :: rest => (parseString rest).map fun (s, rest) => (.str (String.ofList s), rest)
    | '[' :: rest =>
      match skipSpace rest with
      | ']' :: rest => some (.arr [], rest)
      | rest => parseItems fuel rest []
    | '{' :: rest =>
      match skipSpace rest with
      | '}' :: rest => some (.obj [], rest)
      | rest => parseFields fuel rest []
    | rest =>
      (readNumber (rest.takeWhile isNumberChar)).map fun n =>
        (.num n, rest.dropWhile isNumberChar)

/-- The items of an array after `items`. -/
def parseItems : (fuel : Nat) → List Char → (items : List Json) → Option (Json × List Char)
  | 0, _, _ => none
  | fuel + 1, text, items =>
    match parseValue fuel text with
    | none => none
    | some (value, rest) =>
      match skipSpace rest with
      | ',' :: rest => parseItems fuel rest (items ++ [value])
      | ']' :: rest => some (.arr (items ++ [value]), rest)
      | _ => none

/-- The fields of an object after `fields`. A repeated key overwrites the earlier value. -/
def parseFields : (fuel : Nat) → List Char → (fields : List (String × Json)) →
    Option (Json × List Char)
  | 0, _, _ => none
  | fuel + 1, text, fields =>
    match skipSpace text with
    | '"' :: rest =>
      match parseString rest with
      | none => none
      | some (key, rest) =>
        match skipSpace rest with
        | ':' :: rest =>
          match parseValue fuel rest with
          | none => none
          | some (value, rest) =>
            match skipSpace rest with
            | ',' :: rest => parseFields fuel rest (setField fields (String.ofList key) value)
            | '}' :: rest => some (.obj (setField fields (String.ofList key) value), rest)
            | _ => none
        | _ => none
    | _ => none

end

/-- `JSON.parse(text)`; `none` is a `SyntaxError`. A call of the three functions above consumes a
character or is made after one was consumed, so the fuel is never used up. -/
def parse (text : List Char) : Option Json :=
  match parseValue (2 * text.length + 2) text with
  | some (value, rest) => if (skipSpace rest).isEmpty then some value else none
  | none => none

/-- An object has each key once, as an ECMAScript object does. -/
def WellFormed : Json → Prop
  | .arr items => WellFormedItems items
  | .obj fields => (fields.map Prod.fst).Nodup ∧ WellFormedFields fields
  | _ => True
where
  WellFormedItems : List Json → Prop
    | [] => True
    | value :: items => WellFormed value ∧ WellFormedItems items
  WellFormedFields : List (String × Json) → Prop
    | [] => True
    | (_, value) :: fields => WellFormed value ∧ WellFormedFields fields

end Lib.Json
