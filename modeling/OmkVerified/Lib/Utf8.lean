import Mathlib

/-!
# UTF-8

The encoder, and the decoder that replaces what it cannot decode: a machine that reads one byte at a
time and keeps the range the next continuation byte must be in. It reads an encoded text back, and a
byte stream may be cut anywhere.
-/

namespace Lib.Utf8

/-- The UTF-8 encoding of a text. -/
def encode (text : List Char) : List UInt8 := text.flatMap String.utf8EncodeChar

@[simp] theorem encode_nil : encode [] = [] := rfl

@[simp] theorem encode_cons (c : Char) (text : List Char) :
    encode (c :: text) = String.utf8EncodeChar c ++ encode text := rfl

@[simp] theorem encode_append (a b : List Char) : encode (a ++ b) = encode a ++ encode b :=
  List.flatMap_append

/-- The number of bytes of a text. -/
def byteLength (text : List Char) : Nat := (encode text).length

@[simp] theorem byteLength_nil : byteLength [] = 0 := rfl

@[simp] theorem byteLength_cons (c : Char) (text : List Char) :
    byteLength (c :: text) = c.utf8Size + byteLength text := by
  simp [byteLength]

@[simp] theorem byteLength_append (a b : List Char) :
    byteLength (a ++ b) = byteLength a + byteLength b := by
  simp [byteLength]

/-- The code point that stands for undecodable bytes. -/
def replacement : Char := '\uFFFD'

/-- The state of the decoder inside a character: the code point so far, the continuation bytes
still needed, and the range of the next one. -/
structure Decoder where
  codePoint : Nat
  needed : Nat
  lower : Nat
  upper : Nat

/-- Between two characters. -/
def Decoder.start : Decoder := ⟨0, 0, 0x80, 0xBF⟩

/-- A byte at the start of a character. -/
def Decoder.lead (byte : Nat) : Decoder × List Char :=
  if byte ≤ 0x7F then (start, [Char.ofNat byte])
  else if 0xC2 ≤ byte ∧ byte ≤ 0xDF then (⟨byte % 32, 1, 0x80, 0xBF⟩, [])
  else if 0xE0 ≤ byte ∧ byte ≤ 0xEF then
    (⟨byte % 16, 2, if byte = 0xE0 then 0xA0 else 0x80, if byte = 0xED then 0x9F else 0xBF⟩, [])
  else if 0xF0 ≤ byte ∧ byte ≤ 0xF4 then
    (⟨byte % 8, 3, if byte = 0xF0 then 0x90 else 0x80, if byte = 0xF4 then 0x8F else 0xBF⟩, [])
  else (start, [replacement])

/-- One byte: the next state and the characters decoded. A byte that cannot continue the character
is read again as the start of one. -/
def Decoder.step (s : Decoder) (byte : UInt8) : Decoder × List Char :=
  if s.needed = 0 then lead byte.toNat
  else if byte.toNat < s.lower ∨ s.upper < byte.toNat then
    ((lead byte.toNat).1, replacement :: (lead byte.toNat).2)
  else
    let codePoint := s.codePoint * 64 + byte.toNat % 64
    if s.needed = 1 then (start, [Char.ofNat codePoint])
    else (⟨codePoint, s.needed - 1, 0x80, 0xBF⟩, [])

/-- A run of the decoder over a chunk. -/
def Decoder.run (s : Decoder) : List UInt8 → Decoder × List Char
  | [] => (s, [])
  | byte :: bytes =>
    let (s, out) := s.step byte
    let (s, rest) := s.run bytes
    (s, out ++ rest)

/-- The end of the stream inside a character. -/
def Decoder.flush (s : Decoder) : List Char := if s.needed = 0 then [] else [replacement]

/-- The decoding of a whole byte string. -/
def decode (bytes : List UInt8) : List Char :=
  let (s, out) := Decoder.start.run bytes
  out ++ s.flush

theorem Decoder.run_append (s : Decoder) (a b : List UInt8) :
    s.run (a ++ b) = (((s.run a).1.run b).1, (s.run a).2 ++ ((s.run a).1.run b).2) := by
  induction a generalizing s with
  | nil => rfl
  | cons byte a ih =>
    show (((s.step byte).1.run (a ++ b)).1, (s.step byte).2 ++ ((s.step byte).1.run (a ++ b)).2) = _
    rw [ih]
    simp only [run, List.append_assoc]

/-! ## Reading an encoded text -/

variable {n lower upper codePoint : Nat} {byte : UInt8} {c : Char}

theorem toNat_ofNat_lt (h : n < 256) : (UInt8.ofNat n).toNat = n := by
  rw [UInt8.toNat_ofNat']
  exact Nat.mod_eq_of_lt h

theorem isValidChar_toNat (c : Char) : c.toNat < 0xD800 ∨ 0xDFFF < c.toNat ∧ c.toNat < 0x110000 :=
  c.valid

/-- The encoding of a character by the number of its bytes. -/
theorem utf8EncodeChar_cases (c : Char) :
    (c.toNat ≤ 0x7F ∧ String.utf8EncodeChar c = [UInt8.ofNat c.toNat]) ∨
    (0x7F < c.toNat ∧ c.toNat ≤ 0x7FF ∧ String.utf8EncodeChar c =
      [UInt8.ofNat (c.toNat / 64 + 0xC0), UInt8.ofNat (c.toNat % 64 + 0x80)]) ∨
    (0x7FF < c.toNat ∧ c.toNat ≤ 0xFFFF ∧ String.utf8EncodeChar c =
      [UInt8.ofNat (c.toNat / 4096 + 0xE0), UInt8.ofNat (c.toNat / 64 % 64 + 0x80),
        UInt8.ofNat (c.toNat % 64 + 0x80)]) ∨
    (0xFFFF < c.toNat ∧ c.toNat < 0x110000 ∧ String.utf8EncodeChar c =
      [UInt8.ofNat (c.toNat / 262144 + 0xF0), UInt8.ofNat (c.toNat / 4096 % 64 + 0x80),
        UInt8.ofNat (c.toNat / 64 % 64 + 0x80), UInt8.ofNat (c.toNat % 64 + 0x80)]) := by
  have hv := isValidChar_toNat c
  have hval : c.val.toNat = c.toNat := rfl
  unfold String.utf8EncodeChar
  rw [hval]
  by_cases h1 : c.toNat ≤ 0x7F
  · exact .inl ⟨h1, if_pos h1⟩
  by_cases h2 : c.toNat ≤ 0x7FF
  · refine .inr (.inl ⟨by omega, h2, ?_⟩)
    rw [if_neg h1, if_pos h2, Nat.mod_eq_of_lt (show c.toNat / 64 < 0x20 by omega)]
  by_cases h3 : c.toNat ≤ 0xFFFF
  · refine .inr (.inr (.inl ⟨by omega, h3, ?_⟩))
    rw [if_neg h1, if_neg h2, if_pos h3, Nat.mod_eq_of_lt (show c.toNat / 4096 < 0x10 by omega)]
  · refine .inr (.inr (.inr ⟨by omega, by omega, ?_⟩))
    rw [if_neg h1, if_neg h2, if_neg h3, Nat.mod_eq_of_lt (show c.toNat / 262144 < 0x08 by omega)]

theorem run_more {s s' : Decoder} (h : s.step byte = (s', [])) (bytes : List UInt8) :
    s.run (byte :: bytes) = s'.run bytes := by
  simp only [Decoder.run, h, List.nil_append]

theorem run_last {s : Decoder} (h : s.step byte = (Decoder.start, [c])) :
    s.run [byte] = (Decoder.start, [c]) := by
  simp only [Decoder.run, h, List.append_nil]

/-- A continuation byte inside its range extends the code point. -/
theorem step_continue {needed : Nat} (hn : n < 64) (hlow : lower ≤ n + 0x80)
    (hup : n + 0x80 ≤ upper) :
    Decoder.step ⟨codePoint, needed + 2, lower, upper⟩ (UInt8.ofNat (n + 0x80)) =
      (⟨codePoint * 64 + n, needed + 1, 0x80, 0xBF⟩, []) := by
  have hb : (UInt8.ofNat (n + 0x80)).toNat = n + 0x80 := toNat_ofNat_lt (by omega)
  unfold Decoder.step
  rw [if_neg (Nat.succ_ne_zero _), hb, if_neg (show ¬(n + 0x80 < lower ∨ upper < n + 0x80) by omega),
    show (n + 0x80) % 64 = n by omega]
  exact if_neg (by show needed + 2 ≠ 1; omega)

/-- The last continuation byte ends the character. -/
theorem step_end (hn : n < 64) (hlow : lower ≤ n + 0x80) (hup : n + 0x80 ≤ upper) :
    Decoder.step ⟨codePoint, 1, lower, upper⟩ (UInt8.ofNat (n + 0x80)) =
      (Decoder.start, [Char.ofNat (codePoint * 64 + n)]) := by
  have hb : (UInt8.ofNat (n + 0x80)).toNat = n + 0x80 := toNat_ofNat_lt (by omega)
  unfold Decoder.step
  rw [if_neg Nat.one_ne_zero, hb, if_neg (show ¬(n + 0x80 < lower ∨ upper < n + 0x80) by omega),
    show (n + 0x80) % 64 = n by omega]
  exact if_pos rfl

theorem step_start (hn : n < 256) : Decoder.start.step (UInt8.ofNat n) = Decoder.lead n := by
  unfold Decoder.step
  rw [toNat_ofNat_lt hn]
  exact if_pos rfl

theorem lead_two (h : 2 ≤ n) (h' : n < 32) :
    Decoder.lead (n + 0xC0) = (⟨n, 1, 0x80, 0xBF⟩, []) := by
  unfold Decoder.lead
  rw [if_neg (by omega), if_pos (by omega), show (n + 0xC0) % 32 = n by omega]

theorem lead_three (h : n < 16) :
    Decoder.lead (n + 0xE0) = (⟨n, 2, if n = 0 then 0xA0 else 0x80, if n = 13 then 0x9F else 0xBF⟩,
      []) := by
  unfold Decoder.lead
  rw [if_neg (by omega), if_neg (by omega), if_pos (by omega), show (n + 0xE0) % 16 = n by omega]
  simp only [Nat.add_eq_right, show (n + 0xE0 = 0xED) = (n = 13) by rw [eq_iff_iff]; omega]

theorem lead_four (h : n < 5) :
    Decoder.lead (n + 0xF0) = (⟨n, 3, if n = 0 then 0x90 else 0x80, if n = 4 then 0x8F else 0xBF⟩,
      []) := by
  unfold Decoder.lead
  rw [if_neg (by omega), if_neg (by omega), if_neg (by omega), if_pos (by omega),
    show (n + 0xF0) % 8 = n by omega]
  simp only [Nat.add_eq_right, show (n + 0xF0 = 0xF4) = (n = 4) by rw [eq_iff_iff]; omega]

theorem run_encodeChar (c : Char) :
    Decoder.start.run (String.utf8EncodeChar c) = (Decoder.start, [c]) := by
  have hv := isValidChar_toNat c
  have hchar : Char.ofNat c.toNat = c := Char.ofNat_toNat c
  rcases utf8EncodeChar_cases c with ⟨h, he⟩ | ⟨h, h', he⟩ | ⟨h, h', he⟩ | ⟨h, h', he⟩ <;> rw [he]
  · refine run_last ?_
    rw [step_start (by omega)]
    unfold Decoder.lead
    rw [if_pos h, hchar]
  · rw [run_more ((step_start (by omega)).trans (lead_two (by omega) (by omega)))]
    refine run_last ?_
    rw [step_end (by omega) (by omega) (by omega),
      show c.toNat / 64 * 64 + c.toNat % 64 = c.toNat by omega, hchar]
  · rw [run_more ((step_start (by omega)).trans (lead_three (by omega))),
      run_more (step_continue (by omega) (by split_ifs <;> omega) (by split_ifs <;> omega))]
    refine run_last ?_
    rw [step_end (by omega) (by omega) (by omega),
      show (c.toNat / 4096 * 64 + c.toNat / 64 % 64) * 64 + c.toNat % 64 = c.toNat by omega, hchar]
  · rw [run_more ((step_start (by omega)).trans (lead_four (by omega))),
      run_more (step_continue (by omega) (by split_ifs <;> omega) (by split_ifs <;> omega)),
      run_more (step_continue (by omega) (by omega) (by omega))]
    refine run_last ?_
    rw [step_end (by omega) (by omega) (by omega),
      show ((c.toNat / 262144 * 64 + c.toNat / 4096 % 64) * 64 + c.toNat / 64 % 64) * 64 +
        c.toNat % 64 = c.toNat by omega, hchar]

theorem run_encode (text : List Char) :
    Decoder.start.run (encode text) = (Decoder.start, text) := by
  induction text with
  | nil => rfl
  | cons c text ih => rw [encode_cons, Decoder.run_append, run_encodeChar, ih, List.singleton_append]

theorem decode_encode (text : List Char) : decode (encode text) = text := by
  unfold decode
  rw [run_encode]
  exact List.append_nil text

theorem encode_injective : Function.Injective encode :=
  Function.LeftInverse.injective decode_encode

/-! ## Cutting an encoded text -/

/-- `(byte & 0xc0) === 0x80`. -/
def isContinuation (byte : UInt8) : Bool := byte &&& 0xc0 == 0x80

/-- The end of a byte string that starts `n` bytes before its end, or at the next byte that starts a
character. -/
def lastBytes (n : Nat) (bytes : List UInt8) : List UInt8 :=
  (bytes.drop (bytes.length - n)).dropWhile isContinuation

/-- The longest end of a text with at most `n` bytes. -/
def lastWithin (n : Nat) : List Char → List Char
  | [] => []
  | c :: text => if byteLength (c :: text) ≤ n then c :: text else lastWithin n text

theorem isContinuation_ofNat (hn : n < 256) :
    isContinuation (UInt8.ofNat n) = decide (n / 64 = 2) := by
  have h : ∀ m : Fin 256, isContinuation (UInt8.ofNat m) = decide ((m : Nat) / 64 = 2) := by
    decide +kernel
  exact h ⟨n, hn⟩

theorem utf8EncodeChar_continuation (c : Char) : ∃ first rest,
    String.utf8EncodeChar c = first :: rest ∧ isContinuation first = false ∧
      ∀ byte ∈ rest, isContinuation byte = true := by
  have hrest : ∀ n, n < 64 → isContinuation (UInt8.ofNat (n + 0x80)) = true := by
    intro n hn
    rw [isContinuation_ofNat (by omega)]
    exact decide_eq_true (by omega)
  have hfirst : ∀ n, n < 256 → n / 64 ≠ 2 → isContinuation (UInt8.ofNat n) = false := by
    intro n hn hne
    rw [isContinuation_ofNat hn]
    exact decide_eq_false hne
  have hv := isValidChar_toNat c
  rcases utf8EncodeChar_cases c with ⟨h, he⟩ | ⟨h, h', he⟩ | ⟨h, h', he⟩ | ⟨h, h', he⟩ <;>
    refine ⟨_, _, he, hfirst _ (by omega) (by omega), ?_⟩
  · simp
  · simp only [List.forall_mem_cons, List.not_mem_nil, IsEmpty.forall_iff, implies_true, and_true]
    exact hrest _ (by omega)
  · simp only [List.forall_mem_cons, List.not_mem_nil, IsEmpty.forall_iff, implies_true, and_true]
    exact ⟨hrest _ (by omega), hrest _ (by omega)⟩
  · simp only [List.forall_mem_cons, List.not_mem_nil, IsEmpty.forall_iff, implies_true, and_true]
    exact ⟨hrest _ (by omega), hrest _ (by omega), hrest _ (by omega)⟩

theorem dropWhile_encode (text : List Char) :
    (encode text).dropWhile isContinuation = encode text := by
  cases text with
  | nil => rfl
  | cons c text =>
    obtain ⟨first, rest, he, hfirst, -⟩ := utf8EncodeChar_continuation c
    rw [encode_cons, he, List.cons_append, List.dropWhile_cons_of_neg (by simp [hfirst])]

theorem lastWithin_of_le {text : List Char} (h : byteLength text ≤ n) :
    lastWithin n text = text := by
  cases text with
  | nil => rfl
  | cons c text => exact if_pos h

theorem lastWithin_cons_of_lt {text : List Char} (h : n < byteLength (c :: text)) :
    lastWithin n (c :: text) = lastWithin n text :=
  if_neg (Nat.not_le_of_lt h)

theorem lastBytes_encode (n : Nat) (text : List Char) :
    lastBytes n (encode text) = encode (lastWithin n text) := by
  unfold lastBytes
  induction text with
  | nil => simp [lastWithin]
  | cons c text ih =>
    by_cases hfit : byteLength (c :: text) ≤ n
    · rw [lastWithin_of_le hfit, Nat.sub_eq_zero_of_le (show (encode (c :: text)).length ≤ n from hfit),
        List.drop_zero, dropWhile_encode]
    · rw [lastWithin_cons_of_lt (by omega), ← ih]
      have hlen : (encode (c :: text)).length = c.utf8Size + (encode text).length := byteLength_cons c text
      have hover : n < (encode (c :: text)).length := Nat.lt_of_not_le hfit
      rw [hlen] at hover ⊢
      rw [encode_cons, List.drop_append, String.length_utf8EncodeChar,
        List.dropWhile_append]
      obtain ⟨first, rest, he, -, hrest⟩ := utf8EncodeChar_continuation c
      -- what the cut leaves of the character are continuation bytes
      have hskip : ((String.utf8EncodeChar c).drop (c.utf8Size + (encode text).length - n)).dropWhile
          isContinuation = [] := by
        rw [List.dropWhile_eq_nil_iff, he]
        obtain ⟨k, hk⟩ : ∃ k, c.utf8Size + (encode text).length - n = k + 1 :=
          ⟨c.utf8Size + (encode text).length - n - 1, by omega⟩
        rw [hk, List.drop_succ_cons]
        exact fun byte hbyte => hrest byte (List.mem_of_mem_drop hbyte)
      rw [hskip, List.isEmpty_nil, if_pos rfl,
        show c.utf8Size + (encode text).length - n - c.utf8Size = (encode text).length - n by omega]

theorem lastWithin_suffix (n : Nat) (text : List Char) : lastWithin n text <:+ text := by
  induction text with
  | nil => exact List.suffix_rfl
  | cons c text ih =>
    unfold lastWithin
    split_ifs
    · exact List.suffix_rfl
    · exact ih.trans (List.suffix_cons c text)

theorem suffix_lastWithin {text part : List Char} (hpart : part <:+ text)
    (hbytes : byteLength part ≤ n) : part <:+ lastWithin n text := by
  induction text with
  | nil => exact hpart
  | cons c text ih =>
    rcases List.suffix_cons_iff.mp hpart with rfl | hpart
    · rw [lastWithin_of_le hbytes]
    · unfold lastWithin
      split_ifs
      · exact hpart.trans (List.suffix_cons c text)
      · exact ih hpart

theorem lastWithin_cut {text : List Char} (h : n < byteLength text) :
    ∃ before c, text = before ++ c :: lastWithin n text ∧
      n < c.utf8Size + byteLength (lastWithin n text) := by
  induction text with
  | nil => exact absurd h (Nat.not_lt_zero n)
  | cons c text ih =>
    rw [lastWithin_cons_of_lt h]
    by_cases hfit : byteLength text ≤ n
    · rw [lastWithin_of_le hfit]
      exact ⟨[], c, rfl, by rwa [byteLength_cons] at h⟩
    · obtain ⟨before, d, heq, hcut⟩ := ih (by omega)
      refine ⟨c :: before, d, ?_, hcut⟩
      rw [List.cons_append, ← heq]

theorem byteLength_lastWithin_le (n : Nat) (text : List Char) :
    byteLength (lastWithin n text) ≤ n := by
  induction text with
  | nil => exact Nat.zero_le n
  | cons c text ih =>
    unfold lastWithin
    split_ifs with h
    · exact h
    · exact ih

theorem lastWithin_append (before : List Char) {text : List Char} (h : n < byteLength text) :
    lastWithin n (before ++ text) = lastWithin n text := by
  induction before with
  | nil => rfl
  | cons c before ih =>
    rw [List.cons_append, lastWithin_cons_of_lt, ih]
    rw [byteLength_cons, byteLength_append]
    omega

theorem getLast_encodeChar (c : Char) :
    (String.utf8EncodeChar c).getLast? = some 0x0a ↔ c = '\n' := by
  have hne : ∀ n, n < 64 → UInt8.ofNat (n + 0x80) ≠ 0x0a := by
    intro n hn heq
    have := congrArg UInt8.toNat heq
    rw [toNat_ofNat_lt (by omega)] at this
    have h10 : (0x0a : UInt8).toNat = 10 := rfl
    omega
  have hc : c = '\n' ↔ c.toNat = 10 := by
    constructor
    · rintro rfl
      rfl
    · intro h
      exact Char.toNat_inj.mp h
  rcases utf8EncodeChar_cases c with ⟨h, he⟩ | ⟨h, h', he⟩ | ⟨h, h', he⟩ | ⟨h, h', he⟩ <;>
    rw [he, hc]
  · simp only [List.getLast?_singleton, Option.some.injEq]
    rw [← UInt8.toNat_inj, toNat_ofNat_lt (by omega)]
    rfl
  all_goals
    simp only [List.getLast?_cons_cons, List.getLast?_singleton, Option.some.injEq]
    exact iff_of_false (hne _ (by omega)) (by omega)

theorem encodeChar_of_ascii_mem (hbyte : byte.toNat < 0x80)
    (hmem : byte ∈ String.utf8EncodeChar c) :
    String.utf8EncodeChar c = [byte] ∧ c.toNat = byte.toNat := by
  have hne : ∀ n, 0x80 ≤ n → n < 0x100 → byte ≠ UInt8.ofNat n := by
    rintro n hn hn' rfl
    rw [toNat_ofNat_lt hn'] at hbyte
    omega
  rcases utf8EncodeChar_cases c with ⟨h, he⟩ | ⟨h, h', he⟩ | ⟨h, h', he⟩ | ⟨h, h', he⟩
  · rw [he, List.mem_singleton] at hmem
    subst hmem
    exact ⟨he, (toNat_ofNat_lt (by omega)).symm⟩
  all_goals
    rw [he] at hmem
    simp only [List.mem_cons, List.not_mem_nil, or_false] at hmem
    exfalso
  · rcases hmem with hm | hm
    · exact hne _ (by omega) (by omega) hm
    · exact hne _ (by omega) (by omega) hm
  · rcases hmem with hm | hm | hm
    · exact hne _ (by omega) (by omega) hm
    · exact hne _ (by omega) (by omega) hm
    · exact hne _ (by omega) (by omega) hm
  · rcases hmem with hm | hm | hm | hm
    · exact hne _ (by omega) (by omega) hm
    · exact hne _ (by omega) (by omega) hm
    · exact hne _ (by omega) (by omega) hm
    · exact hne _ (by omega) (by omega) hm

theorem lineFeed_mem_encode {text : List Char} (h : (0x0a : UInt8) ∈ encode text) : '\n' ∈ text := by
  induction text with
  | nil => simp at h
  | cons c text ih =>
    rw [encode_cons, List.mem_append] at h
    rcases h with h | h
    · have hc := (encodeChar_of_ascii_mem (by decide) h).2
      have heq : c = '\n' := Char.toNat_inj.mp hc
      simp [heq]
    · exact List.mem_cons_of_mem _ (ih h)

theorem count_lineFeed_encode (text : List Char) : (encode text).count 0x0a = text.count '\n' := by
  induction text with
  | nil => rfl
  | cons c text ih =>
    rw [encode_cons, List.count_append, ih]
    by_cases hc : c = '\n'
    · subst hc
      have hone : (String.utf8EncodeChar '\n').count 0x0a = 1 := by decide
      rw [hone, List.count_cons_self]
      omega
    · have hnot : (0x0a : UInt8) ∉ String.utf8EncodeChar c := by
        intro hmem
        have heq := (encodeChar_of_ascii_mem (by decide) hmem).2
        exact hc (Char.toNat_inj.mp heq)
      rw [List.count_eq_zero_of_not_mem hnot, List.count_cons_of_ne (by simpa using hc)]
      omega

/-! ## The stream decoder

A `TextDecoder`: it keeps the decoder state from chunk to chunk and drops a byte order mark at the
start of the stream.
-/

structure TextDecoder where
  decoder : Decoder
  bomSeen : Bool

/-- `new TextDecoder()`. -/
def TextDecoder.new : TextDecoder := ⟨Decoder.start, false⟩

/-- The decoded characters without the byte order mark. -/
def dropBom (bomSeen : Bool) (text : List Char) : List Char :=
  match bomSeen, text with
  | false, c :: text => if c = '\uFEFF' then text else c :: text
  | _, text => text

/-- `decoder.decode(data, { stream: true })`. -/
def TextDecoder.decodeStream (d : TextDecoder) (bytes : List UInt8) : TextDecoder × List Char :=
  let (decoder, out) := d.decoder.run bytes
  (⟨decoder, d.bomSeen || !out.isEmpty⟩, dropBom d.bomSeen out)

/-- `decoder.decode()` at the end of the stream. -/
def TextDecoder.decodeEnd (d : TextDecoder) : List Char := dropBom d.bomSeen d.decoder.flush

/-- `new TextDecoder().decode(bytes)`. -/
def decodeText (bytes : List UInt8) : List Char := dropBom false (decode bytes)

theorem dropBom_append (bomSeen : Bool) (a b : List Char) :
    dropBom bomSeen (a ++ b) = dropBom bomSeen a ++ dropBom (bomSeen || !a.isEmpty) b := by
  cases bomSeen with
  | true => rfl
  | false =>
    cases a with
    | nil => rfl
    | cons c a =>
      show (if c = '\uFEFF' then a ++ b else c :: (a ++ b)) = (if c = '\uFEFF' then a else c :: a) ++ b
      split_ifs <;> rfl

/-- Decoding a chunk and then the rest. -/
theorem TextDecoder.decodeStream_rest (d : TextDecoder) (chunk rest : List UInt8) :
    dropBom d.bomSeen ((d.decoder.run (chunk ++ rest)).2 ++ (d.decoder.run (chunk ++ rest)).1.flush) =
      (d.decodeStream chunk).2 ++ dropBom (d.decodeStream chunk).1.bomSeen
        (((d.decodeStream chunk).1.decoder.run rest).2 ++
          ((d.decodeStream chunk).1.decoder.run rest).1.flush) := by
  rw [Decoder.run_append, List.append_assoc, dropBom_append]
  rfl

/-- `new TextDecoder("utf-8", { fatal: true }).decode(bytes)`; `none` when the bytes are not the
encoding of a text. -/
def decodeFatal (bytes : List UInt8) : Option (List Char) :=
  let text := decode bytes
  if encode text = bytes then some (dropBom false text) else none

theorem decodeFatal_encode (text : List Char) :
    decodeFatal (encode text) = some (dropBom false text) := by
  unfold decodeFatal
  simp only [decode_encode, if_true]

theorem decodeFatal_eq_some {bytes : List UInt8} {text : List Char}
    (h : decodeFatal bytes = some text) : ∃ full, bytes = encode full ∧ text = dropBom false full := by
  unfold decodeFatal at h
  simp only at h
  split_ifs at h with heq
  exact ⟨decode bytes, heq.symm, (Option.some.inj h).symm⟩

end Lib.Utf8
