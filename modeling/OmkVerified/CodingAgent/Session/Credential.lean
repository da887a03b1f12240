import OmkVerified.Lib.JsNumber
import OmkVerified.Lib.Regex

/-!
# Credential shapes

Embedding of the two patterns of `compaction/transaction.ts` that keep credentials out of the
metadata of a compaction. Both have the flags `i` and `u`, under which the long s and the Kelvin
sign match the letters they fold to.
-/

namespace CodingAgent

open Lib

/-- Simple case folding, as far as it meets ASCII. -/
def foldCase (c : Char) : Char :=
  if c = '\u017f' then 's' else if c = '\u212a' then 'k' else c.toLower

/-- `c` matches the pattern character `p`. -/
def sameFold (p c : Char) : Bool := foldCase c == foldCase p

/-- A letter or a digit. -/
def isAlnum (c : Char) : Bool := (foldCase c).isAlphanum

def word (text : String) : Regex := .literal sameFold text.toList

/-- One of the characters of `text`. -/
def oneOf (text : String) : Char → Bool := fun c => text.toList.any fun p => sameFold p c

/-- `first[-_ ]?second`. -/
def joined (first second : Regex) : Regex := .seq first (.seq (.opt (oneOf "-_ ")) second)

/-- `-----BEGIN [A-Z ]*PRIVATE KEY-----`. -/
def privateKeyPattern : Regex :=
  .seq (word "-----BEGIN ")
    (.seq (.many (fun c => (foldCase c).isAlpha || c = ' ') 0) (word "PRIVATE KEY-----"))

/-- `bearer`, at the start or after a separator, and a token of eight characters or more. -/
def bearerPattern : Regex :=
  .seq (.alt .start (.cls fun c => isWhitespace c || oneOf "\"'`:" c))
    (.seq (word "bearer")
      (.seq (.many isWhitespace 1) (.many (fun c => isAlnum c || oneOf "._~+/-" c) 8)))

/-- The names of secrets. -/
def secretNamePattern : Regex :=
  .choice (joined (word "api") (word "key"))
    [joined (word "access") (word "token"), joined (word "refresh") (word "token"),
      word "password", word "passwd", joined (word "client") (word "secret"),
      joined (word "secret") (.alt (word "key") (word "token"))]

/-- A secret's name, `:` or `=`, and a value of three characters or more. -/
def assignmentPattern : Regex :=
  .seq secretNamePattern
    (.seq (.many isWhitespace 0)
      (.seq (.cls (oneOf ":="))
        (.seq (.many isWhitespace 0)
          (.seq (.opt (oneOf "\"'")) (.many (fun c => !isWhitespace c && !oneOf "\"',;" c) 3)))))

/-- The tokens of known services. -/
def tokenPattern : Regex :=
  .seq
    (.choice (word "sk")
      [word "ghp", word "gho", word "ghu", word "ghs", word "github_pat",
        .seq (word "xox") (.cls (oneOf "baprs"))])
    (.seq (.cls (oneOf "-_")) (.many (fun c => isAlnum c || oneOf "_-" c) 8))

/-- `CREDENTIAL_SHAPE_PATTERN`. -/
def credentialShapePattern : Regex :=
  .choice privateKeyPattern [bearerPattern, assignmentPattern, tokenPattern]

/-- `[REDACTED]` between quotes, not followed by more of a value. -/
def redacted (open_ close : String) (more : String) : Regex :=
  .seq (word (open_ ++ "[REDACTED]" ++ close)) (.notAhead fun c => isAlnum c || oneOf more c)

/-- `REDACTED_ASSIGNMENT_PATTERN`. -/
def redactedAssignmentPattern : Regex :=
  .seq (.many isWhitespace 0)
    (.seq (.cls (oneOf ":="))
      (.seq (.many isWhitespace 0)
        (.choice (redacted "\"" "\"" "_+/-") [redacted "'" "'" "_+/-", redacted "" "" "._~+/-"])))

/-- `containsCredentialShape(value)`. -/
def containsCredentialShape (value : String) : Bool :=
  credentialShapePattern.test (redactedAssignmentPattern.remove value.toList)

/-! ## Identifiers -/

/-- A character of a UUID. -/
def isUuidChar (c : Char) : Bool := c.isDigit || ('a' ≤ c && c ≤ 'f') || c = '-'

theorem isUuidChar_cases {c : Char} (h : isUuidChar c = true) : c ∈ "0123456789abcdef-".toList := by
  have hval : (48 ≤ c.toNat ∧ c.toNat ≤ 57) ∨ (97 ≤ c.toNat ∧ c.toNat ≤ 102) ∨ c.toNat = 45 := by
    simp only [isUuidChar, Bool.or_eq_true, Bool.and_eq_true, decide_eq_true_eq] at h
    rcases h with (h | h) | h
    · rw [Char.isDigit_iff_toNat] at h
      exact .inl h
    · exact .inr (.inl h)
    · exact .inr (.inr (by rw [h]; rfl))
  have hlt : c.toNat < 103 := by omega
  have hall : ∀ n, n < 103 → ((48 ≤ n ∧ n ≤ 57) ∨ (97 ≤ n ∧ n ≤ 102) ∨ n = 45) →
      Char.ofNat n ∈ "0123456789abcdef-".toList := by decide +kernel
  have := hall c.toNat hlt hval
  rwa [Char.ofNat_toNat] at this

theorem avoids_uuid {p : Char → Bool}
    (h : ("0123456789abcdef-".toList.all fun c => !p c) = true) (c : Char)
    (hc : isUuidChar c = true) : p c = false := by
  have hp := List.all_eq_true.mp h c (isUuidChar_cases hc)
  simpa using hp

/-- A literal avoids UUIDs when one of its characters does. -/
theorem avoids_literal {text : List Char} {letter : Char} (hmem : letter ∈ text)
    (h : ("0123456789abcdef-".toList.all fun c => !sameFold letter c) = true) :
    (Regex.literal sameFold text).Avoids isUuidChar := by
  induction text with
  | nil => simp at hmem
  | cons c text ih =>
    cases text with
    | nil =>
      obtain rfl : letter = c := by simpa using hmem
      exact .cls (avoids_uuid h)
    | cons d text =>
      rcases List.mem_cons.mp hmem with rfl | hmem
      · exact .first (.cls (avoids_uuid h))
      · exact .second (ih hmem)

theorem avoids_word (letter : Char) {text : String} (hmem : letter ∈ text.toList)
    (h : ("0123456789abcdef-".toList.all fun c => !sameFold letter c) = true) :
    (word text).Avoids isUuidChar :=
  avoids_literal hmem h

theorem redactedAssignmentPattern_avoids : redactedAssignmentPattern.Avoids isUuidChar :=
  .second (.first (.cls (avoids_uuid rfl)))

theorem credentialShapePattern_avoids : credentialShapePattern.Avoids isUuidChar := by
  refine .alt ?_ (.alt ?_ (.alt ?_ ?_))
  · exact .first (avoids_word 'N' (by decide) rfl)
  · exact .second (.first (avoids_word 'r' (by decide) rfl))
  · exact .second (.second (.first (.cls (avoids_uuid rfl))))
  · refine .first (.alt ?_ (.alt ?_ (.alt ?_ (.alt ?_ (.alt ?_ (.alt ?_ ?_))))))
    · exact avoids_word 's' (by decide) rfl
    · exact avoids_word 'g' (by decide) rfl
    · exact avoids_word 'g' (by decide) rfl
    · exact avoids_word 'g' (by decide) rfl
    · exact avoids_word 'g' (by decide) rfl
    · exact avoids_word 'g' (by decide) rfl
    · exact .first (avoids_word 'x' (by decide) rfl)

theorem containsCredentialShape_uuid {value : String} (h : ∀ c ∈ value.toList, isUuidChar c = true) :
    containsCredentialShape value = false := by
  unfold containsCredentialShape
  rw [redactedAssignmentPattern_avoids.remove_eq h]
  exact credentialShapePattern_avoids.test_eq_false h

end CodingAgent
