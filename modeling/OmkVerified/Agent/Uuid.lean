import OmkVerified.Lib.MixedRadix

/-!
# Version 7 UUIDs

`packages/agent/src/harness/session/uuid.ts`: a generator that keeps the last timestamp and a 32-bit
sequence, and spreads both over the bytes of a UUID.
-/

namespace Agent.Uuid

/-- The bytes that `fillRandomBytes` puts into a `Uint8Array(16)`. -/
abbrev RandomBytes := Fin 16 → Fin 256

/-- The variables of the module; `lastTimestamp` starts as `-Infinity`. -/
structure Generator where
  lastTimestamp : WithBot ℕ
  sequence : ℕ
deriving DecidableEq

def Generator.init : Generator := ⟨⊥, 0⟩

/-- One call: what `Date.now()` says and the random bytes. -/
structure Call where
  timestamp : ℕ
  random : RandomBytes

/-- `random[6] * 0x1000000 + random[7] * 0x10000 + random[8] * 0x100 + random[9]`. -/
def seed (random : RandomBytes) : ℕ :=
  random 6 * 0x1000000 + random 7 * 0x10000 + random 8 * 0x100 + random 9

/-- The generator after the first half of `uuidv7`. -/
def Generator.advance (generator : Generator) (call : Call) : Generator :=
  if generator.lastTimestamp < .some call.timestamp then ⟨.some call.timestamp, seed call.random⟩
  else
    let sequence := (generator.sequence + 1) % 2 ^ 32
    if sequence = 0 then ⟨generator.lastTimestamp + 1, sequence⟩
    else ⟨generator.lastTimestamp, sequence⟩

/-- `ToInt32` as far as a mask of at most 31 bits looks at it; that of `-Infinity` is zero. -/
def toInt32 (n : ℕ) : ℕ := n % 2 ^ 32

/-- The bytes of the UUID. -/
def Generator.bytes (generator : Generator) (random : RandomBytes) : List ℕ :=
  let lastTimestamp := generator.lastTimestamp.unbotD 0
  let sequence := generator.sequence
  [toInt32 (lastTimestamp / 0x10000000000) &&& 0xff,
    toInt32 (lastTimestamp / 0x100000000) &&& 0xff,
    toInt32 (lastTimestamp / 0x1000000) &&& 0xff,
    toInt32 (lastTimestamp / 0x10000) &&& 0xff,
    toInt32 (lastTimestamp / 0x100) &&& 0xff,
    toInt32 lastTimestamp &&& 0xff,
    0x70 ||| ((sequence >>> 28) &&& 0x0f),
    (sequence >>> 20) &&& 0xff,
    0x80 ||| ((sequence >>> 14) &&& 0x3f),
    (sequence >>> 6) &&& 0xff,
    ((sequence &&& 0x3f) <<< 2) ||| (random 10 &&& 0x03 : ℕ),
    random 11, random 12, random 13, random 14, random 15]

/-- `byte.toString(16).padStart(2, "0")`. -/
def hexByte (byte : ℕ) : List Char := (Nat.toDigits 16 byte).leftpad 2 '0'

def formatUuid (bytes : List ℕ) : List Char :=
  let hex := bytes.map hexByte
  (hex.take 4).flatten ++ '-' :: ((hex.drop 4).take 2).flatten ++ '-' :: ((hex.drop 6).take 2).flatten ++
    '-' :: ((hex.drop 8).take 2).flatten ++ '-' :: ((hex.drop 10).take 6).flatten

/-- `uuidv7()`. -/
def uuidv7 (generator : Generator) (call : Call) : List Char × Generator :=
  let next := generator.advance call
  (formatUuid (next.bytes call.random), next)

/-- The generator after some calls. -/
def Generator.after (generator : Generator) (calls : List Call) : Generator :=
  calls.foldl (fun generator call => (uuidv7 generator call).2) generator

/-- What successive calls return. -/
def Generator.uuids (generator : Generator) : List Call → List (List Char)
  | [] => []
  | call :: calls => (uuidv7 generator call).1 :: ((uuidv7 generator call).2).uuids calls

/-! ## What a UUID carries -/

def hexValue (digit : Char) : ℕ :=
  if digit.isDigit then digit.toNat - '0'.toNat else digit.toNat - 'a'.toNat + 10

/-- The number that a text of hexadecimal digits stands for. -/
def hexNumber (digits : List Char) : ℕ := digits.foldl (fun n digit => 16 * n + hexValue digit) 0

/-- The 48 bits of the timestamp: the digits before the second dash. -/
def timestampOf (uuid : List Char) : ℕ := hexNumber (uuid.take 8 ++ (uuid.drop 9).take 4)

/-- The four bits of the version. -/
def versionOf (uuid : List Char) : ℕ := hexNumber ((uuid.drop 14).take 1)

/-- The two bits of the variant. -/
def variantOf (uuid : List Char) : ℕ := hexNumber ((uuid.drop 19).take 1) / 4

/-- Five groups of hexadecimal digits of the lengths that a UUID has. -/
def IsUuid (uuid : List Char) : Prop :=
  ∃ groups : List (List Char), groups.map List.length = [8, 4, 4, 4, 12] ∧
    (∀ group ∈ groups, ∀ digit ∈ group, digit ∈ "0123456789abcdef".toList) ∧
    uuid = ['-'].intercalate groups

/-- A version 7 UUID whose timestamp is not earlier than any of the clock readings. -/
structure Carries (uuid : List Char) (readings : List ℕ) : Prop where
  isUuid : IsUuid uuid
  version : versionOf uuid = 7
  variant : variantOf uuid = 2
  timestamp : ∀ reading ∈ readings, reading ≤ timestampOf uuid

end Agent.Uuid

/-!
# Successive UUIDs are increasing

The timestamp and the sequence are one number of 80 bits, and its digits over the bytes of a UUID are
ordered as the number is. Each call makes the number larger.
-/

namespace Agent.Uuid

open Lib

variable {generator : Generator} {call : Call}

/-! ## One call -/

theorem seed_lt (random : RandomBytes) : seed random < 2 ^ 32 := by
  have h6 := (random 6).isLt
  have h7 := (random 7).isLt
  have h8 := (random 8).isLt
  have h9 := (random 9).isLt
  unfold seed
  omega

/-- A generator that has been called: a timestamp and a sequence of 32 bits. -/
structure Generator.Started (generator : Generator) (timestamp : ℕ) : Prop where
  lastTimestamp_eq : generator.lastTimestamp = .some timestamp
  sequence_lt : generator.sequence < 2 ^ 32

/-- The timestamp and the sequence as one number. -/
def Generator.number (generator : Generator) : ℕ :=
  generator.lastTimestamp.unbotD 0 * 2 ^ 32 + generator.sequence

variable {byte timestamp : ℕ} {calls : List Call}

theorem Generator.Started.number_eq (h : generator.Started timestamp) :
    generator.number = timestamp * 2 ^ 32 + generator.sequence := by
  rw [Generator.number, h.lastTimestamp_eq, WithBot.unbotD_coe]

theorem advance_of_lt (h : generator.lastTimestamp < .some call.timestamp) :
    generator.advance call = ⟨.some call.timestamp, seed call.random⟩ := if_pos h

theorem started_advance_init : (Generator.init.advance call).Started call.timestamp := by
  have hlt : Generator.init.lastTimestamp < .some call.timestamp := WithBot.bot_lt_coe _
  rw [advance_of_lt hlt]
  exact ⟨rfl, seed_lt _⟩

/-- A later call keeps or raises the timestamp, to that of the clock at least, and makes the number
larger. -/
theorem Generator.Started.advance (h : generator.Started timestamp) (call : Call) :
    ∃ next, (generator.advance call).Started next ∧ timestamp ≤ next ∧ call.timestamp ≤ next ∧
      generator.number < (generator.advance call).number := by
  rw [h.number_eq]
  by_cases hlt : timestamp < call.timestamp
  · have hlater : generator.lastTimestamp < .some call.timestamp := by
      rw [h.lastTimestamp_eq]
      exact WithBot.coe_lt_coe.mpr hlt
    have hstarted : (generator.advance call).Started call.timestamp := by
      rw [advance_of_lt hlater]
      exact ⟨rfl, seed_lt _⟩
    refine ⟨call.timestamp, hstarted, hlt.le, le_rfl, ?_⟩
    have hsequence := h.sequence_lt
    rw [hstarted.number_eq]
    omega
  · have hnot : ¬ generator.lastTimestamp < .some call.timestamp := by
      rw [h.lastTimestamp_eq, WithBot.coe_lt_coe]
      exact hlt
    by_cases hwrap : (generator.sequence + 1) % 2 ^ 32 = 0
    · have hnext : generator.advance call = ⟨generator.lastTimestamp + 1, 0⟩ := by
        simp only [Generator.advance, if_neg hnot, hwrap, if_true]
      have hstarted : (generator.advance call).Started (timestamp + 1) := by
        rw [hnext, h.lastTimestamp_eq]
        exact ⟨rfl, Nat.two_pow_pos 32⟩
      refine ⟨timestamp + 1, hstarted, by omega, by omega, ?_⟩
      have hsequence := h.sequence_lt
      rw [hstarted.number_eq]
      omega
    · have hnext : generator.advance call =
          ⟨generator.lastTimestamp, (generator.sequence + 1) % 2 ^ 32⟩ := by
        simp only [Generator.advance, if_neg hnot, if_neg hwrap]
      have hstarted : (generator.advance call).Started timestamp := by
        rw [hnext]
        exact ⟨h.lastTimestamp_eq, Nat.mod_lt _ (by decide)⟩
      refine ⟨timestamp, hstarted, le_rfl, by omega, ?_⟩
      have hsequence := h.sequence_lt
      rw [hstarted.number_eq, hnext]
      dsimp only
      omega

/-! ## The bytes -/

theorem and_mask (n k : ℕ) : n &&& (2 ^ k - 1) = n % 2 ^ k := Nat.and_two_pow_sub_one_eq_mod n k

theorem toInt32_and (n : ℕ) : toInt32 n &&& 0xff = n % 256 := by
  have hmask := and_mask (toInt32 n) 8
  norm_num [toInt32] at hmask ⊢
  omega

theorem or_of_lt {a b k : ℕ} (h : b < 2 ^ k) : a <<< k ||| b = a * 2 ^ k + b := by
  rw [← Nat.shiftLeft_add_eq_or_of_lt h, Nat.shiftLeft_eq]

/-- The bytes without masks and shifts. -/
theorem bytes_eq (h : generator.Started timestamp) (random : RandomBytes) :
    generator.bytes random =
      [timestamp / 2 ^ 40 % 256, timestamp / 2 ^ 32 % 256, timestamp / 2 ^ 24 % 256,
        timestamp / 2 ^ 16 % 256, timestamp / 2 ^ 8 % 256, timestamp % 256,
        112 + generator.sequence / 2 ^ 28 % 16, generator.sequence / 2 ^ 20 % 256,
        128 + generator.sequence / 2 ^ 14 % 64, generator.sequence / 2 ^ 6 % 256,
        generator.sequence % 64 * 4 + random 10 % 4,
        random 11, random 12, random 13, random 14, random 15] := by
  have hlow : ∀ n : ℕ, n &&& 0xff = n % 256 := fun n => and_mask n 8
  have h6 : 0x70 ||| ((generator.sequence >>> 28) &&& 0x0f) =
      112 + generator.sequence / 2 ^ 28 % 16 := by
    have hmask : (generator.sequence >>> 28) &&& 0x0f = generator.sequence / 2 ^ 28 % 16 := by
      rw [Nat.shiftRight_eq_div_pow]
      exact and_mask _ 4
    rw [hmask]
    exact or_of_lt (a := 7) (k := 4) (Nat.mod_lt _ (by decide))
  have h8 : 0x80 ||| ((generator.sequence >>> 14) &&& 0x3f) =
      128 + generator.sequence / 2 ^ 14 % 64 := by
    have hmask : (generator.sequence >>> 14) &&& 0x3f = generator.sequence / 2 ^ 14 % 64 := by
      rw [Nat.shiftRight_eq_div_pow]
      exact and_mask _ 6
    rw [hmask]
    exact or_of_lt (a := 2) (k := 6) (Nat.mod_lt _ (by decide))
  have h10 : ((generator.sequence &&& 0x3f) <<< 2) ||| (random 10 &&& 0x03 : ℕ) =
      generator.sequence % 64 * 4 + random 10 % 4 := by
    have hmask : generator.sequence &&& 0x3f = generator.sequence % 64 := and_mask _ 6
    have hrandom : (random 10 &&& 0x03 : ℕ) = random 10 % 4 := and_mask _ 2
    rw [hmask, hrandom]
    exact or_of_lt (k := 2) (Nat.mod_lt _ (by decide))
  simp only [Generator.bytes, h.lastTimestamp_eq, WithBot.unbotD_coe, toInt32_and, h6, h8, h10]
  simp only [hlow, Nat.shiftRight_eq_div_pow, Nat.reducePow]

/-- The radices of the bytes that the timestamp and the sequence fill. -/
def radices : List ℕ := [256, 256, 256, 256, 256, 256, 16, 256, 64, 256, 64]

/-- The digits of the number are the parts of the bytes. -/
theorem digits_number (h : generator.Started timestamp) :
    MixedRadix.digits radices generator.number =
      [timestamp / 2 ^ 40 % 256, timestamp / 2 ^ 32 % 256, timestamp / 2 ^ 24 % 256,
        timestamp / 2 ^ 16 % 256, timestamp / 2 ^ 8 % 256, timestamp % 256,
        generator.sequence / 2 ^ 28 % 16, generator.sequence / 2 ^ 20 % 256,
        generator.sequence / 2 ^ 14 % 64, generator.sequence / 2 ^ 6 % 256,
        generator.sequence % 64] := by
  have hsequence := h.sequence_lt
  rw [h.number_eq]
  generalize generator.sequence = sequence at hsequence
  simp only [radices, MixedRadix.digits_cons, MixedRadix.digits_nil, List.prod_cons, List.prod_nil,
    List.cons.injEq, and_true]
  norm_num
  omega

/-! ## The text -/

theorem hexByte_eq (h : byte < 256) :
    hexByte byte = [Nat.digitChar (byte / 16), Nat.digitChar (byte % 16)] := by
  have hall : ∀ byte : Fin 256, hexByte byte = [Nat.digitChar (byte / 16), Nat.digitChar (byte % 16)] := by
    decide +kernel
  exact hall ⟨byte, h⟩

theorem digitChar_lt {a b : ℕ} (hlt : a < b) (hb : b < 16) : Nat.digitChar a < Nat.digitChar b := by
  have hall : ∀ a b : Fin 16, a < b → Nat.digitChar a < Nat.digitChar b := by decide
  exact hall ⟨a, by omega⟩ ⟨b, hb⟩ hlt

theorem hexByte_append_lt {a b : ℕ} {rest rest' : List Char} (hb : b < 256)
    (h : a < b ∨ a = b ∧ rest < rest') : hexByte a ++ rest < hexByte b ++ rest' := by
  have ha : a < 256 := by rcases h with h | h <;> omega
  rw [hexByte_eq ha, hexByte_eq hb]
  simp only [List.cons_append, List.nil_append, List.cons_lt_cons_iff]
  rcases h with hlt | ⟨rfl, hrest⟩
  · have hle : a / 16 ≤ b / 16 := Nat.div_le_div_right hlt.le
    rcases Nat.lt_or_eq_of_le hle with hhigh | hhigh
    · exact .inl (digitChar_lt hhigh (by omega))
    · exact .inr ⟨by rw [hhigh], .inl (digitChar_lt (by omega) (by omega))⟩
  · exact .inr ⟨rfl, .inr ⟨rfl, hrest⟩⟩

/-- The text of sixteen bytes, byte after byte. -/
theorem formatUuid_eq (b0 b1 b2 b3 b4 b5 b6 b7 b8 b9 b10 b11 b12 b13 b14 b15 : ℕ) :
    formatUuid [b0, b1, b2, b3, b4, b5, b6, b7, b8, b9, b10, b11, b12, b13, b14, b15] =
      hexByte b0 ++ (hexByte b1 ++ (hexByte b2 ++ (hexByte b3 ++ '-' :: (hexByte b4 ++ (hexByte b5 ++
        '-' :: (hexByte b6 ++ (hexByte b7 ++ '-' :: (hexByte b8 ++ (hexByte b9 ++ '-' :: (hexByte b10 ++
          (hexByte b11 ++ (hexByte b12 ++ (hexByte b13 ++ (hexByte b14 ++ hexByte b15)))))))))))))) := by
  simp [formatUuid]

theorem dash_lt {rest rest' : List Char} (h : rest < rest') : '-' :: rest < '-' :: rest' :=
  List.cons_lt_cons_iff.mpr (.inr ⟨rfl, h⟩)

/-- Of two generators with timestamps of 48 bits the one with the smaller number formats the smaller
text, whatever the random bytes are. -/
theorem formatUuid_lt {generator' : Generator} {timestamp' : ℕ} {random random' : RandomBytes}
    (h : generator.Started timestamp) (h' : generator'.Started timestamp')
    (hbound : timestamp' < 2 ^ 48) (hlt : generator.number < generator'.number) :
    formatUuid (generator.bytes random) < formatUuid (generator'.bytes random') := by
  have hprod : generator'.number < radices.prod := by
    have hsequence := h'.sequence_lt
    have hradices : radices.prod = 2 ^ 80 := by decide
    rw [h'.number_eq, hradices]
    omega
  have hdigits := MixedRadix.digits_lt hlt hprod
  rw [digits_number h, digits_number h'] at hdigits
  simp only [List.cons_lt_cons_iff] at hdigits
  have hbyte : ∀ n : ℕ, n % 256 < 256 := fun n => Nat.mod_lt _ (by decide)
  rw [bytes_eq h, bytes_eq h', formatUuid_eq, formatUuid_eq]
  refine hexByte_append_lt (hbyte _) (hdigits.imp_right (And.imp_right fun hdigits => ?_))
  refine hexByte_append_lt (hbyte _) (hdigits.imp_right (And.imp_right fun hdigits => ?_))
  refine hexByte_append_lt (hbyte _) (hdigits.imp_right (And.imp_right fun hdigits => ?_))
  refine hexByte_append_lt (hbyte _) (hdigits.imp_right (And.imp_right fun hdigits => ?_))
  apply dash_lt
  refine hexByte_append_lt (hbyte _) (hdigits.imp_right (And.imp_right fun hdigits => ?_))
  refine hexByte_append_lt (hbyte _) (hdigits.imp_right (And.imp_right fun hdigits => ?_))
  apply dash_lt
  -- the version stands before the first digit of the sequence
  refine hexByte_append_lt (by omega)
    (hdigits.imp (by omega) (And.imp (by omega) fun hdigits => ?_))
  refine hexByte_append_lt (hbyte _) (hdigits.imp_right (And.imp_right fun hdigits => ?_))
  apply dash_lt
  refine hexByte_append_lt (by omega)
    (hdigits.imp (by omega) (And.imp (by omega) fun hdigits => ?_))
  refine hexByte_append_lt (hbyte _) (hdigits.imp_right (And.imp_right fun hdigits => ?_))
  apply dash_lt
  -- the last digit decides before the random bits that share its byte
  rcases hdigits with hdigit | ⟨-, hnil⟩
  · exact hexByte_append_lt (by omega) (.inl (by omega))
  · exact absurd hnil (List.not_lt_nil [])

/-! ## What a UUID carries -/

theorem hexValue_digitChar {n : ℕ} (h : n < 16) : hexValue (Nat.digitChar n) = n := by
  have hall : ∀ n : Fin 16, hexValue (Nat.digitChar n) = n := by decide
  exact hall ⟨n, h⟩

theorem length_hexByte (h : byte < 256) : (hexByte byte).length = 2 := by
  rw [hexByte_eq h]
  rfl

theorem hexNumber_append_hexByte (h : byte < 256) (digits : List Char) :
    hexNumber (digits ++ hexByte byte) = 256 * hexNumber digits + byte := by
  rw [hexByte_eq h, hexNumber, List.foldl_append]
  simp only [List.foldl_cons, List.foldl_nil]
  rw [hexValue_digitChar (by omega), hexValue_digitChar (by omega), ← hexNumber]
  omega

theorem mem_hexByte (h : byte < 256) {digit : Char} (hdigit : digit ∈ hexByte byte) :
    digit ∈ "0123456789abcdef".toList := by
  have hall : ∀ n : Fin 16, Nat.digitChar n ∈ "0123456789abcdef".toList := by decide
  rw [hexByte_eq h] at hdigit
  rcases List.mem_cons.mp hdigit with rfl | hdigit
  · exact hall ⟨byte / 16, by omega⟩
  · obtain rfl := List.mem_singleton.mp hdigit
    exact hall ⟨byte % 16, by omega⟩

/-- The text of the bytes is that of a version 7 UUID with the timestamp of the generator. -/
theorem formatUuid_carries (h : generator.Started timestamp) (hbound : timestamp < 2 ^ 48)
    (random : RandomBytes) :
    IsUuid (formatUuid (generator.bytes random)) ∧
      versionOf (formatUuid (generator.bytes random)) = 7 ∧
      variantOf (formatUuid (generator.bytes random)) = 2 ∧
      timestampOf (formatUuid (generator.bytes random)) = timestamp := by
  have hbyte : ∀ n : ℕ, n % 256 < 256 := fun n => Nat.mod_lt _ (by decide)
  have hrandom : ∀ i, (random i : ℕ) < 256 := fun i => (random i).isLt
  rw [bytes_eq h]
  have h6 : 112 + generator.sequence / 2 ^ 28 % 16 < 256 := by omega
  have h8 : 128 + generator.sequence / 2 ^ 14 % 64 < 256 := by omega
  have h10 : generator.sequence % 64 * 4 + random 10 % 4 < 256 := by omega
  have h0 := hbyte (timestamp / 2 ^ 40)
  have h1 := hbyte (timestamp / 2 ^ 32)
  have h2 := hbyte (timestamp / 2 ^ 24)
  have h3 := hbyte (timestamp / 2 ^ 16)
  have h4 := hbyte (timestamp / 2 ^ 8)
  have h5 := hbyte timestamp
  have h7 := hbyte (generator.sequence / 2 ^ 20)
  have h9 := hbyte (generator.sequence / 2 ^ 6)
  have hversion : (112 + generator.sequence / 2 ^ 28 % 16) / 16 = 7 := by omega
  have hvariant : (128 + generator.sequence / 2 ^ 14 % 64) / 16 / 4 = 2 := by omega
  have htimestamp : 256 * (256 * (256 * (256 * (256 * (timestamp / 2 ^ 40 % 256) +
      timestamp / 2 ^ 32 % 256) + timestamp / 2 ^ 24 % 256) + timestamp / 2 ^ 16 % 256) +
      timestamp / 2 ^ 8 % 256) + timestamp % 256 = timestamp := by omega
  generalize timestamp / 2 ^ 40 % 256 = b0 at *
  generalize timestamp / 2 ^ 32 % 256 = b1 at *
  generalize timestamp / 2 ^ 24 % 256 = b2 at *
  generalize timestamp / 2 ^ 16 % 256 = b3 at *
  generalize timestamp / 2 ^ 8 % 256 = b4 at *
  generalize timestamp % 256 = b5 at *
  generalize 112 + generator.sequence / 2 ^ 28 % 16 = b6 at *
  generalize generator.sequence / 2 ^ 20 % 256 = b7 at *
  generalize 128 + generator.sequence / 2 ^ 14 % 64 = b8 at *
  generalize generator.sequence / 2 ^ 6 % 256 = b9 at *
  generalize generator.sequence % 64 * 4 + random 10 % 4 = b10 at *
  have hlength : ∀ {byte : ℕ}, byte < 256 → (hexByte byte).length = 2 := length_hexByte
  rw [formatUuid_eq]
  refine ⟨⟨[hexByte b0 ++ hexByte b1 ++ hexByte b2 ++ hexByte b3, hexByte b4 ++ hexByte b5,
    hexByte b6 ++ hexByte b7, hexByte b8 ++ hexByte b9, hexByte b10 ++ hexByte (random 11) ++
    hexByte (random 12) ++ hexByte (random 13) ++ hexByte (random 14) ++ hexByte (random 15)],
    ?_, ?_, ?_⟩, ?_, ?_, ?_⟩
  · simp [hlength h0, hlength h1, hlength h2, hlength h3, hlength h4, hlength h5, hlength h6,
      hlength h7, hlength h8, hlength h9, hlength h10, hlength (hrandom _)]
  · intro group hgroup digit hdigit
    simp only [List.mem_cons, List.not_mem_nil, or_false] at hgroup
    rcases hgroup with rfl | rfl | rfl | rfl | rfl <;>
      simp only [List.mem_append, or_assoc] at hdigit
    · rcases hdigit with hd | hd | hd | hd
      exacts [mem_hexByte h0 hd, mem_hexByte h1 hd, mem_hexByte h2 hd, mem_hexByte h3 hd]
    · rcases hdigit with hd | hd
      exacts [mem_hexByte h4 hd, mem_hexByte h5 hd]
    · rcases hdigit with hd | hd
      exacts [mem_hexByte h6 hd, mem_hexByte h7 hd]
    · rcases hdigit with hd | hd
      exacts [mem_hexByte h8 hd, mem_hexByte h9 hd]
    · rcases hdigit with hd | hd | hd | hd | hd | hd
      exacts [mem_hexByte h10 hd, mem_hexByte (hrandom _) hd, mem_hexByte (hrandom _) hd,
        mem_hexByte (hrandom _) hd, mem_hexByte (hrandom _) hd, mem_hexByte (hrandom _) hd]
  · simp [List.intercalate]
  · rw [hexByte_eq h0, hexByte_eq h1, hexByte_eq h2, hexByte_eq h3, hexByte_eq h4, hexByte_eq h5,
      hexByte_eq h6, hversion]
    rfl
  · rw [hexByte_eq h0, hexByte_eq h1, hexByte_eq h2, hexByte_eq h3, hexByte_eq h4, hexByte_eq h5,
      hexByte_eq h6, hexByte_eq h7, hexByte_eq h8]
    have hvalue := hexValue_digitChar (n := b8 / 16) (by omega)
    simp [variantOf, hexNumber, hvalue, hvariant]
  · have htaken : ∀ rest : List Char,
        timestampOf (hexByte b0 ++ (hexByte b1 ++ (hexByte b2 ++ (hexByte b3 ++ '-' :: (hexByte b4 ++
          (hexByte b5 ++ '-' :: rest)))))) =
          hexNumber (((((([] ++ hexByte b0) ++ hexByte b1) ++ hexByte b2) ++ hexByte b3) ++ hexByte b4) ++
            hexByte b5) := by
      intro rest
      rw [hexByte_eq h0, hexByte_eq h1, hexByte_eq h2, hexByte_eq h3, hexByte_eq h4, hexByte_eq h5]
      rfl
    have hnil : hexNumber [] = 0 := rfl
    rw [htaken, hexNumber_append_hexByte h5, hexNumber_append_hexByte h4,
      hexNumber_append_hexByte h3, hexNumber_append_hexByte h2, hexNumber_append_hexByte h1,
      hexNumber_append_hexByte h0, hnil, Nat.mul_zero, Nat.zero_add]
    exact htimestamp

/-! ## Runs -/

theorem Generator.Started.after (h : generator.Started timestamp) (calls : List Call) :
    ∃ last, (generator.after calls).Started last ∧ timestamp ≤ last := by
  induction calls generalizing generator timestamp with
  | nil => exact ⟨timestamp, h, le_rfl⟩
  | cons call calls ih =>
    obtain ⟨next, hnext, hle, -, -⟩ := h.advance call
    obtain ⟨last, hlast, hlater⟩ := ih hnext
    exact ⟨last, hlast, hle.trans hlater⟩

/-- What calls of a generator return from a timestamp and a number on. -/
structure Returned (timestamp number : ℕ) (uuid : List Char) (generator : Generator) : Prop where
  started : ∃ last, generator.Started last ∧ timestamp ≤ last ∧ last < 2 ^ 48
  larger : number < generator.number
  formatted : ∃ random, uuid = formatUuid (generator.bytes random)

/-- All later calls return larger numbers than the generator has. -/
theorem Generator.Started.returned (h : generator.Started timestamp)
    (hbound : (generator.after calls).lastTimestamp < .some (2 ^ 48)) :
    ∀ uuid ∈ generator.uuids calls,
      ∃ later, Returned timestamp generator.number uuid later := by
  induction calls generalizing generator timestamp with
  | nil => exact fun uuid huuid => absurd huuid List.not_mem_nil
  | cons call calls ih =>
    obtain ⟨next, hnext, hle, -, hlarger⟩ := h.advance call
    obtain ⟨last, hlast, hlater⟩ := hnext.after calls
    have hlastBound : last < 2 ^ 48 := by
      have hafter : ((generator.advance call).after calls).lastTimestamp < .some (2 ^ 48) := hbound
      rw [hlast.lastTimestamp_eq] at hafter
      exact WithBot.coe_lt_coe.mp hafter
    intro uuid huuid
    rcases List.mem_cons.mp huuid with rfl | huuid
    · exact ⟨_, ⟨next, hnext, hle, by omega⟩, hlarger, _, rfl⟩
    · obtain ⟨later, ⟨started, hstarted, hnextLe, hstartedBound⟩, hnumber, hformatted⟩ :=
        ih hnext hbound uuid huuid
      exact ⟨later, ⟨started, hstarted, hle.trans hnextLe, hstartedBound⟩, hlarger.trans hnumber,
        hformatted⟩

theorem Generator.Started.pairwise (h : generator.Started timestamp)
    (hbound : (generator.after calls).lastTimestamp < .some (2 ^ 48)) :
    (generator.uuids calls).Pairwise (· < ·) := by
  induction calls generalizing generator timestamp with
  | nil => exact List.Pairwise.nil
  | cons call calls ih =>
    obtain ⟨next, hnext, -, -, -⟩ := h.advance call
    refine List.pairwise_cons.mpr ⟨fun uuid huuid => ?_, ih hnext hbound⟩
    obtain ⟨later, ⟨last, hlast, -, hlastBound⟩, hnumber, random, rfl⟩ :=
      hnext.returned hbound uuid huuid
    exact formatUuid_lt hnext hlast hlastBound hnumber

/-- A result carries a timestamp at or after all readings up to the timestamp of the generator. -/
theorem Generator.Started.carries_bytes (h : generator.Started timestamp)
    (hbound : (generator.after calls).lastTimestamp < .some (2 ^ 48)) (random : RandomBytes)
    {readings : List ℕ} (hreadings : ∀ reading ∈ readings, reading ≤ timestamp) :
    Carries (formatUuid (generator.bytes random)) readings := by
  obtain ⟨last, hlast, hlater⟩ := h.after calls
  have htimestampBound : timestamp < 2 ^ 48 := by
    rw [hlast.lastTimestamp_eq] at hbound
    exact hlater.trans_lt (WithBot.coe_lt_coe.mp hbound)
  obtain ⟨hisUuid, hversion, hvariant, htimestamp⟩ := formatUuid_carries h htimestampBound random
  exact ⟨hisUuid, hversion, hvariant, by rwa [htimestamp]⟩

/-- Each later result carries a timestamp at or after all readings so far. -/
theorem Generator.Started.carries (h : generator.Started timestamp)
    (hbound : (generator.after calls).lastTimestamp < .some (2 ^ 48)) {i : ℕ} {uuid : List Char}
    (huuid : (generator.uuids calls)[i]? = some uuid) :
    Carries uuid (timestamp :: (calls.take (i + 1)).map Call.timestamp) := by
  induction calls generalizing generator timestamp i with
  | nil => simp [Generator.uuids] at huuid
  | cons call calls ih =>
    obtain ⟨next, hnext, hle, hreading, -⟩ := h.advance call
    cases i with
    | zero =>
      obtain rfl : formatUuid ((generator.advance call).bytes call.random) = uuid := by
        simpa [Generator.uuids, uuidv7] using huuid
      exact hnext.carries_bytes hbound call.random (by simp [hle, hreading])
    | succ i =>
      have hrest : ((generator.advance call).uuids calls)[i]? = some uuid := by
        simpa [Generator.uuids, uuidv7] using huuid
      obtain ⟨hisUuid, hversion, hvariant, htimestamp⟩ := ih hnext hbound hrest
      rw [List.forall_mem_cons] at htimestamp
      refine ⟨hisUuid, hversion, hvariant, ?_⟩
      rw [List.take_succ_cons, List.map_cons, List.forall_mem_cons, List.forall_mem_cons]
      exact ⟨hle.trans htimestamp.1, hreading.trans htimestamp.1, htimestamp.2⟩

theorem length_uuids (generator : Generator) (calls : List Call) :
    (generator.uuids calls).length = calls.length := by
  induction calls generalizing generator with
  | nil => rfl
  | cons call calls ih =>
    rw [Generator.uuids, List.length_cons, List.length_cons, ih]

/-- However the clock runs, successive UUIDs are increasing and carry a timestamp that is not earlier
than any reading so far. -/
theorem uuidv7_increasing {calls : List Call}
    (hbound : (Generator.init.after calls).lastTimestamp < .some (2 ^ 48)) :
    (Generator.init.uuids calls).length = calls.length ∧
      (Generator.init.uuids calls).Pairwise (· < ·) ∧ (Generator.init.uuids calls).Nodup ∧
      ∀ i uuid, (Generator.init.uuids calls)[i]? = some uuid →
        Carries uuid ((calls.take (i + 1)).map Call.timestamp) := by
  have hpairwise : (Generator.init.uuids calls).Pairwise (· < ·) := by
    cases calls with
    | nil => exact List.Pairwise.nil
    | cons call calls =>
      have hfirst := @started_advance_init call
      refine List.pairwise_cons.mpr ⟨fun uuid huuid => ?_, hfirst.pairwise hbound⟩
      obtain ⟨later, ⟨last, hlast, -, hlastBound⟩, hnumber, random, rfl⟩ :=
        hfirst.returned hbound uuid huuid
      exact formatUuid_lt hfirst hlast hlastBound hnumber
  refine ⟨length_uuids _ _, hpairwise, hpairwise.imp ne_of_lt, fun i uuid huuid => ?_⟩
  cases calls with
  | nil => simp [Generator.uuids] at huuid
  | cons call calls =>
    have hfirst := @started_advance_init call
    cases i with
    | zero =>
      obtain rfl : formatUuid ((Generator.init.advance call).bytes call.random) = uuid := by
        simpa [Generator.uuids, uuidv7] using huuid
      exact hfirst.carries_bytes hbound call.random (by simp)
    | succ i =>
      have hrest : ((Generator.init.advance call).uuids calls)[i]? = some uuid := by
        simpa [Generator.uuids, uuidv7] using huuid
      exact hfirst.carries hbound hrest

/-- A clock that stands still and then goes back. -/
theorem uuidv7_increasing_sample :
    let calls : List Call := [⟨2 ^ 40, fun _ => 255⟩, ⟨2 ^ 40, fun _ => 0⟩, ⟨5, fun _ => 1⟩]
    (Generator.init.after calls).lastTimestamp = .some (2 ^ 40 + 1) ∧
      (Generator.init.uuids calls).Pairwise (· < ·) :=
  ⟨by decide, (uuidv7_increasing (by decide)).2.1⟩

end Agent.Uuid
