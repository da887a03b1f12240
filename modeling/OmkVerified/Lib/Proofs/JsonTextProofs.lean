import OmkVerified.Lib.JsonText

/-!
# JSON text: what is written is read back

`parse (stringify value) = some value` for every value whose objects have distinct keys, which are
the values that `parse` returns. A written value has no line feed.
-/

namespace Lib.Json

/-! ## Strings -/

theorem hexValue_digitChar : ∀ n, n < 16 → hexValue (Nat.digitChar n) = some n := by
  decide +kernel

theorem parseStringItems_escapeChar (c : Char) (rest : List Char) :
    parseStringItems (escapeChar c ++ rest) =
      (parseStringItems rest).map fun (items, rest) => (.char c :: items, rest) := by
  unfold escapeChar
  by_cases h1 : c = '"'
  · subst h1
    simp [parseStringItems, unescape]
  by_cases h2 : c = '\\'
  · subst h2
    simp [parseStringItems, unescape]
  by_cases h3 : c = '\x08'
  · subst h3
    simp [parseStringItems, unescape]
  by_cases h4 : c = '\x0c'
  · subst h4
    simp [parseStringItems, unescape]
  by_cases h5 : c = '\n'
  · subst h5
    simp [parseStringItems, unescape]
  by_cases h6 : c = '\r'
  · subst h6
    simp [parseStringItems, unescape]
  by_cases h7 : c = '\t'
  · subst h7
    simp [parseStringItems, unescape]
  simp only [h1, h2, h3, h4, h5, h6, h7, if_false]
  by_cases h8 : c.toNat < 0x20
  · -- the two last digits give the code point
    have hunit : hexUnit '0' '0' (Nat.digitChar (c.toNat / 16)) (Nat.digitChar (c.toNat % 16)) =
        some c.toNat := by
      have hz : hexValue '0' = some 0 := rfl
      simp only [hexUnit, hz, hexValue_digitChar (c.toNat / 16) (by omega),
        hexValue_digitChar (c.toNat % 16) (by omega), Option.bind_eq_bind, Option.bind_some,
        Option.pure_def, Option.some.injEq]
      omega
    have hitem : StringItem.ofUnit c.toNat = .char c := by
      unfold StringItem.ofUnit
      rw [if_neg (by omega), Char.ofNat_toNat]
    rw [if_pos h8]
    simp only [List.cons_append, List.nil_append, parseStringItems, hunit, hitem]
  · rw [if_neg h8, List.singleton_append, parseStringItems.eq_def (c :: rest)]
    split
    · contradiction
    · rename_i heq
      exact absurd (List.cons.inj heq).1 h1
    · rename_i heq
      exact absurd (List.cons.inj heq).1 h2
    · rename_i heq
      exact absurd (List.cons.inj heq).1 h2
    · rename_i heq
      obtain ⟨rfl, rfl⟩ := List.cons.inj heq
      rw [if_neg (by simp only [h2, false_or]; exact h8)]

theorem parseStringItems_quote (s rest : List Char) :
    parseStringItems (s.flatMap escapeChar ++ '"' :: rest) = some (s.map .char, rest) := by
  induction s with
  | nil => rfl
  | cons c s ih =>
    rw [List.flatMap_cons, List.append_assoc, parseStringItems_escapeChar, ih]
    rfl

theorem pairItems_map_char (s : List Char) : pairItems (s.map .char) = s := by
  have h : (s.map StringItem.char).foldr pairItem (none, []) = (none, s) := by
    induction s with
    | nil => rfl
    | cons c s ih =>
      rw [List.map_cons, List.foldr_cons, ih]
      rfl
  unfold pairItems
  rw [h]
  rfl

theorem parseString_quote (s rest : List Char) :
    parseString (s.flatMap escapeChar ++ '"' :: rest) = some (s, rest) := by
  unfold parseString
  rw [parseStringItems_quote, Option.map_some]
  show some (pairItems (s.map .char), rest) = some (s, rest)
  rw [pairItems_map_char]

/-! ## Numbers -/

/-- The text does not go on with a digit. -/
def NoDigit (text : List Char) : Prop := ∀ c ∈ text.head?, c.isDigit = false

theorem readDigits_append {digits rest : List Char} (hd : ∀ c ∈ digits, c.isDigit = true)
    (hne : digits ≠ []) (hrest : NoDigit rest) :
    readDigits (digits ++ rest) = some (digits, rest) := by
  have htake : rest.takeWhile Char.isDigit = [] ∧ rest.dropWhile Char.isDigit = rest := by
    cases rest with
    | nil => exact ⟨rfl, rfl⟩
    | cons c rest =>
      have hc := hrest c rfl
      simp [hc]
  unfold readDigits
  rw [List.takeWhile_append_of_pos hd, List.dropWhile_append_of_pos hd, htake.1, htake.2,
    List.append_nil]
  exact if_neg (by simpa using hne)

/-- The digits of an integer part: at least one, and a leading zero only alone. -/
structure IntegerPart (digits : List Char) : Prop where
  ne_nil : digits ≠ []
  digit : ∀ c ∈ digits, c.isDigit = true
  leading : digits.head? = some '0' → digits = ['0']

variable {rest : List Char} {n fuel : Nat} {c : Char} {v : Json}

theorem readInteger_append {digits : List Char} (hd : IntegerPart digits) (hrest : NoDigit rest) :
    readInteger (digits ++ rest) = some (digits, rest) := by
  unfold readInteger
  rw [readDigits_append hd.digit hd.ne_nil hrest]
  split
  · rename_i heq
    obtain ⟨rfl, -⟩ := Prod.mk.inj (Option.some.inj heq)
    exact absurd (hd.leading rfl) (by simp)
  · rfl

/-- The fraction with its point, when there is one. -/
def fractionText (fraction : List Char) : List Char :=
  if fraction.isEmpty then [] else '.' :: fraction

/-- The rest of a literal neither starts with a digit nor with a point. -/
structure ExponentText (text : List Char) : Prop where
  noDigit : NoDigit text
  noPoint : text.head? ≠ some '.'

theorem readFraction_append {fraction : List Char} (hd : ∀ c ∈ fraction, c.isDigit = true)
    (hrest : ExponentText rest) :
    readFraction (fractionText fraction ++ rest) = some (fraction, rest) := by
  unfold fractionText
  cases fraction with
  | nil =>
    simp only [List.isEmpty_nil, if_true, List.nil_append]
    unfold readFraction
    split
    · exact absurd rfl hrest.noPoint
    · rfl
  | cons c fraction =>
    simp only [List.isEmpty_cons, Bool.false_eq_true, if_false, List.cons_append]
    unfold readFraction
    exact readDigits_append hd (List.cons_ne_nil _ _) hrest.noDigit

theorem noDigit_fractionText (fraction : List Char) (hrest : ExponentText rest) :
    NoDigit (fractionText fraction ++ rest) := by
  unfold fractionText
  split_ifs
  · exact hrest.noDigit
  · intro c hc
    obtain rfl : '.' = c := by simpa using hc
    rfl

/-- Reading a literal from its parts. -/
theorem readUnsigned_parts (negative : Bool) {integer exponent : List Char} {x : Int}
    (fraction : List Char) (hi : IntegerPart integer) (hf : ∀ c ∈ fraction, c.isDigit = true) (hx : ExponentText exponent)
    (hread : readExponent exponent = some x) :
    readUnsigned negative (integer ++ (fractionText fraction ++ exponent)) =
      some (Decimal.ofDigits negative (Nat.ofDigitChars 10 (integer ++ fraction) 0)
        (x - fraction.length)) := by
  unfold readUnsigned
  rw [readInteger_append hi (noDigit_fractionText fraction hx)]
  simp only [Option.bind_eq_bind, Option.bind_some]
  rw [readFraction_append hf hx]
  simp only [Option.bind_some]
  rw [hread]
  rfl

theorem readExponent_nil : readExponent [] = some 0 := rfl

theorem exponentText_nil : ExponentText [] := ⟨fun _ h => by simp at h, by simp⟩

theorem toDigits_digit : ∀ c ∈ Nat.toDigits 10 n, c.isDigit = true :=
  fun _ hc => Nat.isDigit_of_mem_toDigits (by omega) (by omega) hc

theorem exponentText_e (sign : Char) (digits : List Char) : ExponentText ('e' :: sign :: digits) := by
  refine ⟨?_, by simp⟩
  intro c hc
  obtain rfl : 'e' = c := by simpa using hc
  rfl

theorem readExponent_e (x : Int) :
    readExponent ('e' :: (if 0 ≤ x then '+' else '-') :: Nat.toDigits 10 x.natAbs) = some x := by
  have hdigits : readDigits (Nat.toDigits 10 x.natAbs) = some (Nat.toDigits 10 x.natAbs, []) := by
    have hne : Nat.toDigits 10 x.natAbs ≠ [] := Nat.toDigits_ne_nil
    have h := readDigits_append toDigits_digit hne exponentText_nil.noDigit
    rwa [List.append_nil] at h
  have hvalue : Nat.ofDigitChars 10 (Nat.toDigits 10 x.natAbs) 0 = x.natAbs :=
    Nat.ofDigitChars_toDigits (by omega) (by omega)
  unfold readExponent
  by_cases hx : 0 ≤ x
  · simp only [hx, if_true, true_or, hdigits, hvalue, Bool.false_eq_true, if_false,
      Option.some.injEq]
    omega
  · simp only [hx, if_false, true_or, if_true, hdigits, hvalue, Option.some.injEq]
    omega

theorem head?_toDigits_ne_zero (hn : n ≠ 0) : (Nat.toDigits 10 n).head? ≠ some '0' := by
  induction n using Nat.strong_induction_on with
  | _ n ih =>
    rw [Nat.toDigits_eq_if (by omega)]
    split_ifs with hlt
    · have hdigit : ∀ m, m < 10 → m ≠ 0 → Nat.digitChar m ≠ '0' := by decide
      intro h
      exact hdigit n hlt hn (by simpa using h)
    · have hne : Nat.toDigits 10 (n / 10) ≠ [] := Nat.toDigits_ne_nil
      rw [List.head?_append_of_ne_nil _ hne]
      exact ih (n / 10) (by omega) (by omega)

theorem integerPart_zero : IntegerPart ['0'] where
  ne_nil := by simp
  digit := by simp
  leading := fun _ => rfl

theorem integerPart_take (hn : n ≠ 0) (k : Nat) (hk : k ≠ 0) (zeros : List Char)
    (hz : ∀ c ∈ zeros, c = '0') : IntegerPart ((Nat.toDigits 10 n).take k ++ zeros) where
  ne_nil := by
    have hne : Nat.toDigits 10 n ≠ [] := Nat.toDigits_ne_nil
    simp [hne, hk]
  digit := by
    intro c hc
    rcases List.mem_append.mp hc with hc | hc
    · exact toDigits_digit c (List.mem_of_mem_take hc)
    · rw [hz c hc]
      rfl
  leading := by
    intro h
    have hne : Nat.toDigits 10 n ≠ [] := Nat.toDigits_ne_nil
    rw [List.head?_append_of_ne_nil _ (by simp [hne, hk]), List.head?_take, if_neg hk] at h
    exact absurd h (head?_toDigits_ne_zero hn)

theorem ofDigitChars_toDigits_zeros (n zeros : Nat) :
    Nat.ofDigitChars 10 (Nat.toDigits 10 n ++ List.replicate zeros '0') 0 = n * 10 ^ zeros := by
  rw [Nat.ofDigitChars_append, Nat.ofDigitChars_ten_toDigits, Nat.ofDigitChars_replicate_zero,
    Nat.mul_comm]

/-- The digits of a positive number are read back, wherever the point was placed. -/
theorem readUnsigned_formatDigits (n : Decimal) (hne : n.mantissa ≠ 0) :
    readUnsigned (decide (n.mantissa < 0))
      (formatDigits (Nat.toDigits 10 n.mantissa.natAbs)
        ((Nat.toDigits 10 n.mantissa.natAbs).length + n.exponent)) = some n := by
  have hm : n.mantissa.natAbs ≠ 0 := by omega
  generalize hdigits : Nat.toDigits 10 n.mantissa.natAbs = digits
  have hvalue : Nat.ofDigitChars 10 digits 0 = n.mantissa.natAbs := by
    rw [← hdigits, Nat.ofDigitChars_ten_toDigits]
  have hdigit : ∀ c ∈ digits, c.isDigit = true := hdigits ▸ toDigits_digit
  have hdrop : ∀ k, ∀ c ∈ digits.drop k, c.isDigit = true :=
    fun k c hc => hdigit c (List.mem_of_mem_drop hc)
  have htake : ∀ k, k ≠ 0 → IntegerPart (digits.take k) := by
    intro k hk
    have h := integerPart_take hm k hk [] (by simp)
    rwa [List.append_nil, hdigits] at h
  have hlen : 0 < digits.length := by
    rw [← hdigits]
    exact Nat.length_toDigits_pos
  have hback := n.ofDigits_mul hne
  have hback0 : Decimal.ofDigits (decide (n.mantissa < 0)) n.mantissa.natAbs n.exponent = n := by
    simpa using hback 0
  unfold formatDigits
  by_cases h1 : (digits.length : Int) ≤ digits.length + n.exponent ∧
      digits.length + n.exponent ≤ 21
  · -- an integer: the exponent is written as zeros
    have hi : IntegerPart (digits ++ List.replicate n.exponent.toNat '0') := by
      have h := integerPart_take hm digits.length (by omega) (List.replicate n.exponent.toNat '0')
        (fun c hc => List.eq_of_mem_replicate hc)
      rwa [hdigits, List.take_length] at h
    have hread := readUnsigned_parts (decide (n.mantissa < 0)) [] hi (by simp) exponentText_nil
      readExponent_nil
    simp only [if_pos h1]
    rw [show (digits.length + n.exponent - (digits.length : Int)).toNat = n.exponent.toNat by omega]
    simp only [fractionText, List.isEmpty_nil, if_true, List.append_nil] at hread
    rw [hread, ← hdigits, ofDigitChars_toDigits_zeros]
    have h := hback n.exponent.toNat
    rw [show n.exponent - (n.exponent.toNat : Int) = 0 - (([] : List Char).length : Int) by
      simp only [List.length_nil]; omega] at h
    rw [h]
  simp only [if_neg h1]
  by_cases h2 : 0 < digits.length + n.exponent ∧ digits.length + n.exponent ≤ 21
  · -- the point stands inside the digits
    simp only [if_pos h2]
    set k := (digits.length + n.exponent).toNat with hk
    have hread := readUnsigned_parts (decide (n.mantissa < 0)) _ (htake k (by omega)) (hdrop k)
      exponentText_nil readExponent_nil
    have hne' : (digits.drop k).isEmpty = false := by
      rw [List.isEmpty_eq_false_iff, ne_eq, List.drop_eq_nil_iff]
      omega
    simp only [fractionText, hne', Bool.false_eq_true, if_false, List.append_nil,
      List.take_append_drop, hvalue] at hread
    rw [hread, List.length_drop, show (0 : Int) - (digits.length - k : Nat) = n.exponent by omega,
      hback0]
  simp only [if_neg h2]
  by_cases h3 : -6 < digits.length + n.exponent ∧ digits.length + n.exponent ≤ 0
  · -- a fraction after zeros
    simp only [if_pos h3]
    set z := (-(digits.length + n.exponent)).toNat with hz
    have hf : ∀ c ∈ List.replicate z '0' ++ digits, c.isDigit = true := by
      intro c hc
      rcases List.mem_append.mp hc with hc | hc
      · rw [List.eq_of_mem_replicate hc]
        rfl
      · exact hdigit c hc
    have hread := readUnsigned_parts (decide (n.mantissa < 0)) _ integerPart_zero hf
      exponentText_nil readExponent_nil
    have hne' : (List.replicate z '0' ++ digits).isEmpty = false := by
      rw [List.isEmpty_eq_false_iff, ne_eq, List.append_eq_nil_iff]
      rintro ⟨-, rfl⟩
      simp at hlen
    have hval : Nat.ofDigitChars 10 (['0'] ++ (List.replicate z '0' ++ digits)) 0 =
        n.mantissa.natAbs := by
      rw [Nat.ofDigitChars_append, Nat.ofDigitChars_append]
      rw [show Nat.ofDigitChars 10 ['0'] 0 = 0 by rfl, Nat.ofDigitChars_replicate_zero,
        Nat.mul_zero, hvalue]
    rw [hval] at hread
    simp only [fractionText, hne', Bool.false_eq_true, if_false, List.append_nil,
      List.cons_append, List.nil_append, List.length_append, List.length_replicate] at hread
    simp only [List.cons_append]
    rw [hread, show (0 : Int) - (z + digits.length : Nat) = n.exponent by omega, hback0]
  · -- one digit before the point, and an exponent
    simp only [if_neg h3]
    set x : Int := digits.length + n.exponent - 1 with hx
    have hread := readUnsigned_parts (decide (n.mantissa < 0)) _ (htake 1 (by omega)) (hdrop 1)
      (exponentText_e _ _) (readExponent_e x)
    rw [List.take_append_drop, hvalue, List.length_drop,
      show x - (digits.length - 1 : Nat) = n.exponent by omega, hback0] at hread
    have htext : (if (digits.length : Int) = 1 then [] else '.' :: digits.drop 1) =
        fractionText (digits.drop 1) := by
      unfold fractionText
      by_cases h1 : digits.length = 1
      · have hnil : digits.drop 1 = [] := by
          rw [List.drop_eq_nil_iff]
          omega
        simp [h1, hnil]
      · have hnil : (digits.drop 1).isEmpty = false := by
          rw [List.isEmpty_eq_false_iff, ne_eq, List.drop_eq_nil_iff]
          omega
        rw [if_neg (by omega), hnil]
        rfl
    rw [htext, List.append_assoc]
    exact hread

theorem isNumberChar_digit (h : c.isDigit = true) : isNumberChar c = true := by
  simp [isNumberChar, h]

/-- A literal without its sign starts with a digit and has number characters only. -/
theorem formatDigits_chars (digits : List Char) (hd : ∀ c ∈ digits, c.isDigit = true)
    (hne : digits ≠ []) (n : Int) :
    (∃ c text, formatDigits digits n = c :: text ∧ c.isDigit = true) ∧
      ∀ c ∈ formatDigits digits n, isNumberChar c = true := by
  obtain ⟨d, ds, rfl⟩ := List.exists_cons_of_ne_nil hne
  have hhead : d.isDigit = true := hd d (by simp)
  have hnum : ∀ c ∈ d :: ds, isNumberChar c = true := fun c hc => isNumberChar_digit (hd c hc)
  have hzeros : ∀ k, ∀ c ∈ List.replicate k '0', isNumberChar c = true := by
    intro k c hc
    rw [List.eq_of_mem_replicate hc]
    rfl
  have hexp : ∀ x : Int,
      ∀ c ∈ 'e' :: (if 0 ≤ x then '+' else '-') :: Nat.toDigits 10 x.natAbs,
        isNumberChar c = true := by
    intro x c hc
    rcases List.mem_cons.mp hc with rfl | hc
    · rfl
    rcases List.mem_cons.mp hc with rfl | hc
    · split_ifs <;> rfl
    · exact isNumberChar_digit (toDigits_digit c hc)
  unfold formatDigits
  by_cases h1 : ((d :: ds).length : Int) ≤ n ∧ n ≤ 21
  · simp only [if_pos h1]
    refine ⟨⟨d, _, rfl, hhead⟩, ?_⟩
    intro c hc
    rcases List.mem_append.mp hc with hc | hc
    · exact hnum c hc
    · exact hzeros _ c hc
  simp only [if_neg h1]
  by_cases h2 : 0 < n ∧ n ≤ 21
  · simp only [if_pos h2]
    obtain ⟨k, hk⟩ : ∃ k, n.toNat = k + 1 := ⟨n.toNat - 1, by omega⟩
    refine ⟨⟨d, ds.take k ++ '.' :: (d :: ds).drop n.toNat, by rw [hk]; rfl, hhead⟩, ?_⟩
    intro c hc
    rcases List.mem_append.mp hc with hc | hc
    · exact hnum c (List.mem_of_mem_take hc)
    · rcases List.mem_cons.mp hc with rfl | hc
      · rfl
      · exact hnum c (List.mem_of_mem_drop hc)
  simp only [if_neg h2]
  by_cases h3 : -6 < n ∧ n ≤ 0
  · simp only [if_pos h3]
    refine ⟨⟨'0', _, rfl, rfl⟩, ?_⟩
    intro c hc
    rcases List.mem_append.mp hc with hc | hc
    · rcases List.mem_cons.mp hc with rfl | hc
      · rfl
      rcases List.mem_cons.mp hc with rfl | hc
      · rfl
      · exact hzeros _ c hc
    · exact hnum c hc
  · simp only [if_neg h3]
    refine ⟨⟨d, _, rfl, hhead⟩, ?_⟩
    intro c hc
    rcases List.mem_append.mp hc with hc | hc
    · rcases List.mem_append.mp hc with hc | hc
      · exact hnum c (List.mem_of_mem_take hc)
      · split_ifs at hc
        · simp at hc
        · rcases List.mem_cons.mp hc with rfl | hc
          · rfl
          · exact hnum c (List.mem_of_mem_drop hc)
    · exact hexp _ c hc

theorem formatNumber_chars (n : Decimal) :
    (∃ c text, formatNumber n = c :: text ∧ (c.isDigit = true ∨ c = '-')) ∧
      ∀ c ∈ formatNumber n, isNumberChar c = true := by
  unfold formatNumber
  split_ifs with h0 hneg
  · exact ⟨⟨'0', [], rfl, .inl rfl⟩, by simp [isNumberChar]⟩
  · obtain ⟨-, hchars⟩ := formatDigits_chars (Nat.toDigits 10 n.mantissa.natAbs)
      toDigits_digit Nat.toDigits_ne_nil ((Nat.toDigits 10 n.mantissa.natAbs).length + n.exponent)
    refine ⟨⟨'-', _, rfl, .inr rfl⟩, ?_⟩
    intro c hc
    rcases List.mem_cons.mp hc with rfl | hc
    · rfl
    · exact hchars c hc
  · obtain ⟨⟨c, text, heq, hc⟩, hchars⟩ :=
      formatDigits_chars (Nat.toDigits 10 n.mantissa.natAbs) toDigits_digit
        Nat.toDigits_ne_nil ((Nat.toDigits 10 n.mantissa.natAbs).length + n.exponent)
    exact ⟨⟨c, text, heq, .inl hc⟩, hchars⟩

theorem readNumber_formatNumber (n : Decimal) : readNumber (formatNumber n) = some n := by
  unfold formatNumber
  by_cases h0 : n.mantissa = 0
  · have hn : n = Decimal.zero := by
      have := n.normal
      ext
      · exact h0
      · show n.exponent = 0
        omega
    subst hn
    rfl
  · simp only [if_neg h0]
    have hread := readUnsigned_formatDigits n h0
    by_cases hneg : n.mantissa < 0
    · rw [if_pos hneg]
      rw [decide_eq_true hneg] at hread
      exact hread
    · rw [if_neg hneg]
      rw [decide_eq_false hneg] at hread
      obtain ⟨⟨c, text, heq, hc⟩, -⟩ :=
        formatDigits_chars (Nat.toDigits 10 n.mantissa.natAbs) toDigits_digit
          Nat.toDigits_ne_nil ((Nat.toDigits 10 n.mantissa.natAbs).length + n.exponent)
      rw [List.nil_append]
      rw [heq] at hread ⊢
      unfold readNumber
      split
      · rename_i h
        rw [(List.cons.inj h).1] at hc
        exact absurd hc (by decide)
      · exact hread

/-! ## Values -/

theorem skipSpace_cons (h : isSpace c = false) (text : List Char) :
    skipSpace (c :: text) = c :: text := by
  simp [skipSpace, h]

theorem stringify_head (value : Json) :
    ∃ c text, stringify value = c :: text ∧ 0x21 ≤ c.toNat ∧ c.toNat < 0x7f ∧ c ≠ ']' := by
  cases value with
  | null => exact ⟨_, _, rfl, by decide⟩
  | bool b => cases b <;> exact ⟨_, _, rfl, by decide⟩
  | num n =>
    obtain ⟨⟨c, text, heq, hc⟩, -⟩ := formatNumber_chars n
    refine ⟨c, text, heq, ?_⟩
    rcases hc with hc | rfl
    · have hval : 48 ≤ c.toNat ∧ c.toNat ≤ 57 := Char.isDigit_iff_toNat.mp hc
      refine ⟨by omega, by omega, ?_⟩
      rintro rfl
      exact absurd hc (by decide)
    · decide
  | str s => exact ⟨_, _, rfl, by decide⟩
  | arr items => exact ⟨_, _, rfl, by decide⟩
  | obj fields => exact ⟨_, _, rfl, by decide⟩

theorem isSpace_visible (h : 0x21 ≤ c.toNat) : isSpace c = false := by
  have hne : ∀ d : Char, d.toNat < 0x21 → c ≠ d := by
    rintro d hd rfl
    omega
  simp [isSpace, hne ' ' (by decide), hne '\t' (by decide), hne '\n' (by decide),
    hne '\r' (by decide)]

/-- The text does not go on with a character of a number. -/
def NoNumber (text : List Char) : Prop := ∀ c ∈ text.head?, isNumberChar c = false

theorem noNumber_nil : NoNumber [] := by
  intro c hc
  simp at hc

theorem noNumber_cons (h : isNumberChar c = false) (text : List Char) : NoNumber (c :: text) := by
  intro d hd
  obtain rfl : c = d := by simpa using hd
  exact h

/-- A text that starts like a number is read as one. -/
theorem parseValue_number (hc : c.isDigit = true ∨ c = '-') (fuel : Nat) (text : List Char) :
    parseValue (fuel + 1) (c :: text) =
      (readNumber ((c :: text).takeWhile isNumberChar)).map fun n =>
        (.num n, (c :: text).dropWhile isNumberChar) := by
  have hne : ∀ d : Char, d.isDigit = false → d ≠ '-' → c ≠ d := by
    rintro d hd hd' rfl
    rcases hc with hc | hc
    · rw [hc] at hd
      exact Bool.noConfusion hd
    · exact hd' hc
  have hspace : isSpace c = false := by
    simp [isSpace, hne ' ' rfl (by decide), hne '\t' rfl (by decide), hne '\n' rfl (by decide),
      hne '\r' rfl (by decide)]
  unfold parseValue
  rw [skipSpace_cons hspace]
  split
  · rename_i h
    exact absurd (List.cons.inj h).1 (hne 'n' rfl (by decide))
  · rename_i h
    exact absurd (List.cons.inj h).1 (hne 't' rfl (by decide))
  · rename_i h
    exact absurd (List.cons.inj h).1 (hne 'f' rfl (by decide))
  · rename_i h
    exact absurd (List.cons.inj h).1 (hne '"' rfl (by decide))
  · rename_i h
    exact absurd (List.cons.inj h).1 (hne '[' rfl (by decide))
  · rename_i h
    exact absurd (List.cons.inj h).1 (hne '{' rfl (by decide))
  · rfl

theorem parseValue_formatNumber (n : Decimal) (fuel : Nat) (hrest : NoNumber rest) :
    parseValue (fuel + 1) (formatNumber n ++ rest) = some (.num n, rest) := by
  obtain ⟨⟨c, text, heq, hc⟩, hchars⟩ := formatNumber_chars n
  have hend : rest.takeWhile isNumberChar = [] ∧ rest.dropWhile isNumberChar = rest := by
    cases rest with
    | nil => exact ⟨rfl, rfl⟩
    | cons c rest =>
      have hc := hrest c rfl
      simp [hc]
  have htake : (formatNumber n ++ rest).takeWhile isNumberChar = formatNumber n := by
    rw [List.takeWhile_append_of_pos hchars, hend.1, List.append_nil]
  have hdrop : (formatNumber n ++ rest).dropWhile isNumberChar = rest := by
    rw [List.dropWhile_append_of_pos hchars, hend.2]
  have hparse := parseValue_number hc fuel (text ++ rest)
  rw [← List.cons_append, ← heq, htake, hdrop, readNumber_formatNumber] at hparse
  exact hparse

theorem setField_fresh {fields : List (String × Json)} {key : String} (value : Json)
    (h : key ∉ fields.map Prod.fst) : setField fields key value = fields ++ [(key, value)] := by
  induction fields with
  | nil => rfl
  | cons field fields ih =>
    obtain ⟨k, v⟩ := field
    simp only [List.map_cons, List.mem_cons, not_or] at h
    rw [setField, if_neg (fun hk => h.1 hk.symm), ih h.2]
    rfl

theorem parseString_key (key : String) (rest : List Char) :
    parseString (key.toList.flatMap escapeChar ++ '"' :: rest) = some (key.toList, rest) :=
  parseString_quote key.toList rest

mutual

/-- A written value is read back, whatever follows it. -/
theorem parseValue_stringify : ∀ (value : Json), WellFormed value → ∀ (fuel : Nat),
    2 * (stringify value).length ≤ fuel → ∀ {rest : List Char}, NoNumber rest →
      parseValue fuel (stringify value ++ rest) = some (value, rest)
  | .null, _, fuel, hfuel, rest, _ => by
    obtain ⟨fuel, rfl⟩ : ∃ f, fuel = f + 1 := ⟨fuel - 1, by simp [stringify] at hfuel; omega⟩
    rfl
  | .bool true, _, fuel, hfuel, rest, _ => by
    obtain ⟨fuel, rfl⟩ : ∃ f, fuel = f + 1 := ⟨fuel - 1, by simp [stringify] at hfuel; omega⟩
    rfl
  | .bool false, _, fuel, hfuel, rest, _ => by
    obtain ⟨fuel, rfl⟩ : ∃ f, fuel = f + 1 := ⟨fuel - 1, by simp [stringify] at hfuel; omega⟩
    rfl
  | .num n, _, fuel, hfuel, rest, hrest => by
    obtain ⟨⟨c, text, heq, -⟩, -⟩ := formatNumber_chars n
    obtain ⟨fuel, rfl⟩ : ∃ f, fuel = f + 1 :=
      ⟨fuel - 1, by simp [stringify, heq] at hfuel; omega⟩
    exact parseValue_formatNumber n fuel hrest
  | .str s, _, fuel, hfuel, rest, _ => by
    obtain ⟨fuel, rfl⟩ : ∃ f, fuel = f + 1 :=
      ⟨fuel - 1, by simp [stringify, quote] at hfuel; omega⟩
    have hquote : stringify (.str s) ++ rest =
        '"' :: (s.toList.flatMap escapeChar ++ '"' :: rest) := by
      simp [stringify, quote]
    rw [hquote, parseValue, skipSpace_cons rfl]
    simp only [parseString_key, Option.map_some, String.ofList_toList]
  | .arr [], _, fuel, hfuel, rest, _ => by
    obtain ⟨fuel, rfl⟩ : ∃ f, fuel = f + 1 :=
      ⟨fuel - 1, by simp [stringify, stringify.stringifyItems] at hfuel; omega⟩
    rfl
  | .arr (value :: items), hwf, fuel, hfuel, rest, _ => by
    obtain ⟨fuel, rfl⟩ : ∃ f, fuel = f + 1 := ⟨fuel - 1, by simp [stringify] at hfuel; omega⟩
    have hitems := parseItems_stringify value items hwf fuel
      (by simp [stringify] at hfuel; omega) [] rest
    obtain ⟨c, text, heq, hc, -, hne⟩ := stringify_head value
    have hstart : ∃ t, stringify.stringifyItems (value :: items) ++ rest = c :: t := by
      cases items with
      | nil => exact ⟨_, by simp [stringify.stringifyItems, heq]; rfl⟩
      | cons next items => exact ⟨_, by simp [stringify.stringifyItems, heq]; rfl⟩
    obtain ⟨t, ht⟩ := hstart
    have htext : stringify (.arr (value :: items)) ++ rest = '[' :: c :: t := by
      rw [stringify, List.cons_append, ht]
    rw [htext, parseValue, skipSpace_cons rfl]
    simp only [skipSpace_cons (isSpace_visible hc)]
    rw [← ht]
    split
    · rename_i h
      rw [ht] at h
      exact absurd (List.cons.inj h).1 hne
    · exact hitems
  | .obj [], _, fuel, hfuel, rest, _ => by
    obtain ⟨fuel, rfl⟩ : ∃ f, fuel = f + 1 :=
      ⟨fuel - 1, by simp [stringify, stringify.stringifyFields] at hfuel; omega⟩
    rfl
  | .obj ((key, value) :: fields), hwf, fuel, hfuel, rest, _ => by
    obtain ⟨fuel, rfl⟩ : ∃ f, fuel = f + 1 := ⟨fuel - 1, by simp [stringify] at hfuel; omega⟩
    have hfields := parseFields_stringify key value fields hwf.2 fuel
      (by simp [stringify] at hfuel; omega) [] (by simpa using hwf.1) rest
    have hstart : ∃ t, stringify.stringifyFields ((key, value) :: fields) ++ rest = '"' :: t := by
      cases fields with
      | nil => exact ⟨_, by simp [stringify.stringifyFields, quote]; rfl⟩
      | cons next fields => exact ⟨_, by simp [stringify.stringifyFields, quote]; rfl⟩
    obtain ⟨t, ht⟩ := hstart
    have htext : stringify (.obj ((key, value) :: fields)) ++ rest = '{' :: '"' :: t := by
      rw [stringify, List.cons_append, ht]
    rw [htext, parseValue, skipSpace_cons rfl]
    simp only [skipSpace_cons (c := '"') rfl]
    rw [ht] at hfields
    exact hfields
termination_by value => sizeOf value

theorem parseItems_stringify : ∀ (value : Json) (items : List Json),
    WellFormed.WellFormedItems (value :: items) → ∀ (fuel : Nat),
      2 * (stringify.stringifyItems (value :: items)).length ≤ fuel →
        ∀ (done : List Json) (rest : List Char),
          parseItems fuel (stringify.stringifyItems (value :: items) ++ rest) done =
            some (.arr (done ++ value :: items), rest)
  | value, [], hwf, fuel, hfuel, done, rest => by
    rw [stringify.stringifyItems] at hfuel ⊢
    obtain ⟨fuel, rfl⟩ : ∃ f, fuel = f + 1 := ⟨fuel - 1, by simp at hfuel; omega⟩
    have hvalue := parseValue_stringify value hwf.1 fuel (by simp at hfuel; omega)
      (noNumber_cons (c := ']') rfl rest)
    rw [List.append_assoc, List.singleton_append, parseItems, hvalue]
    rfl
  | value, next :: items, hwf, fuel, hfuel, done, rest => by
    rw [stringify.stringifyItems] at hfuel ⊢
    obtain ⟨fuel, rfl⟩ : ∃ f, fuel = f + 1 := ⟨fuel - 1, by simp at hfuel; omega⟩
    have hvalue := parseValue_stringify value hwf.1 fuel (by simp at hfuel; omega)
      (noNumber_cons (c := ',') rfl (stringify.stringifyItems (next :: items) ++ rest))
    have hitems := parseItems_stringify next items hwf.2 fuel (by simp at hfuel; omega)
      (done ++ [value]) rest
    rw [List.append_assoc, List.cons_append, parseItems, hvalue]
    simp only [skipSpace_cons (c := ',') rfl]
    rw [hitems, List.append_assoc]
    rfl
termination_by value items => sizeOf (value :: items)

theorem parseFields_stringify : ∀ (key : String) (value : Json) (fields : List (String × Json)),
    WellFormed.WellFormedFields ((key, value) :: fields) → ∀ (fuel : Nat),
      2 * (stringify.stringifyFields ((key, value) :: fields)).length ≤ fuel →
        ∀ (done : List (String × Json)),
          ((done ++ (key, value) :: fields).map Prod.fst).Nodup → ∀ (rest : List Char),
            parseFields fuel (stringify.stringifyFields ((key, value) :: fields) ++ rest) done =
              some (.obj (done ++ (key, value) :: fields), rest)
  | key, value, [], hwf, fuel, hfuel, done, hnodup, rest => by
    rw [stringify.stringifyFields] at hfuel ⊢
    obtain ⟨fuel, rfl⟩ : ∃ f, fuel = f + 1 := ⟨fuel - 1, by simp at hfuel; omega⟩
    have hvalue := parseValue_stringify value hwf.1 fuel (by simp at hfuel; omega)
      (noNumber_cons (c := '}') rfl rest)
    have hfresh : key ∉ done.map Prod.fst := by
      simp only [List.map_append, List.map_cons, List.nodup_append] at hnodup
      exact fun h => hnodup.2.2 key h key (by simp) rfl
    have htext : quote key.toList ++ ':' :: (stringify value ++ ['}']) ++ rest =
        '"' :: (key.toList.flatMap escapeChar ++ '"' :: ':' :: (stringify value ++ '}' :: rest)) := by
      simp [quote]
    rw [htext, parseFields, skipSpace_cons rfl]
    simp only [parseString_key, skipSpace_cons (c := ':') rfl, hvalue, skipSpace_cons (c := '}') rfl,
      String.ofList_toList, setField_fresh value hfresh]
  | key, value, (key', value') :: fields, hwf, fuel, hfuel, done, hnodup, rest => by
    rw [stringify.stringifyFields] at hfuel ⊢
    obtain ⟨fuel, rfl⟩ : ∃ f, fuel = f + 1 := ⟨fuel - 1, by simp at hfuel; omega⟩
    have hvalue := parseValue_stringify value hwf.1 fuel (by simp at hfuel; omega)
      (noNumber_cons (c := ',') rfl (stringify.stringifyFields ((key', value') :: fields) ++ rest))
    have hfresh : key ∉ done.map Prod.fst := by
      simp only [List.map_append, List.map_cons, List.nodup_append] at hnodup
      exact fun h => hnodup.2.2 key h key (by simp) rfl
    have hfields := parseFields_stringify key' value' fields hwf.2 fuel
      (by simp at hfuel; omega) (done ++ [(key, value)]) (by simpa using hnodup) rest
    have htext : quote key.toList ++ ':' :: (stringify value ++
          ',' :: stringify.stringifyFields ((key', value') :: fields)) ++ rest =
        '"' :: (key.toList.flatMap escapeChar ++ '"' :: ':' :: (stringify value ++
          ',' :: (stringify.stringifyFields ((key', value') :: fields) ++ rest))) := by
      simp [quote]
    rw [htext, parseFields, skipSpace_cons rfl]
    simp only [parseString_key, skipSpace_cons (c := ':') rfl, hvalue, skipSpace_cons (c := ',') rfl,
      String.ofList_toList, setField_fresh value hfresh]
    rw [hfields, List.append_assoc]
    rfl
termination_by key value fields => sizeOf ((key, value) :: fields)

end

/-- **Round trip**: `JSON.parse(JSON.stringify(value))` is `value`. -/
theorem parse_stringify (value : Json) (h : WellFormed value) :
    parse (stringify value) = some value := by
  have hparse := parseValue_stringify value h (2 * (stringify value).length + 2) (by omega)
    noNumber_nil
  rw [List.append_nil] at hparse
  unfold parse
  rw [hparse]
  rfl

theorem parse_stringify_lineFeed (value : Json) (h : WellFormed value) :
    parse (stringify value ++ ['\n']) = some value := by
  have hparse := parseValue_stringify value h (2 * (stringify value ++ ['\n']).length + 2)
    (by rw [List.length_append]; omega) (noNumber_cons (c := '\n') rfl [])
  unfold parse
  rw [hparse]
  rfl

/-! ## The values that are read -/

theorem map_fst_setField (fields : List (String × Json)) (key : String) (value : Json) :
    (setField fields key value).map Prod.fst =
      if key ∈ fields.map Prod.fst then fields.map Prod.fst else fields.map Prod.fst ++ [key] := by
  induction fields with
  | nil => rfl
  | cons field fields ih =>
    obtain ⟨k, v⟩ := field
    unfold setField
    by_cases hk : k = key
    · simp [hk]
    · have hk' : key ≠ k := fun h => hk h.symm
      rw [if_neg hk]
      simp only [List.map_cons, ih, List.mem_cons, hk', false_or]
      split_ifs <;> rfl

theorem nodup_setField {fields : List (String × Json)} (h : (fields.map Prod.fst).Nodup)
    (key : String) (value : Json) : ((setField fields key value).map Prod.fst).Nodup := by
  rw [map_fst_setField]
  split_ifs with hkey
  · exact h
  · rw [List.nodup_append]
    refine ⟨h, by simp, ?_⟩
    rintro a ha b hb rfl
    exact hkey (List.mem_singleton.mp hb ▸ ha)

theorem wellFormedFields_setField {fields : List (String × Json)}
    (h : WellFormed.WellFormedFields fields) (key : String) {value : Json} (hv : WellFormed value) :
    WellFormed.WellFormedFields (setField fields key value) := by
  induction fields with
  | nil => exact ⟨hv, trivial⟩
  | cons field fields ih =>
    obtain ⟨k, v⟩ := field
    unfold setField
    split_ifs
    · exact ⟨hv, h.2⟩
    · exact ⟨h.1, ih h.2⟩

theorem WellFormed.set {value field : Json} (h : WellFormed value) (key : String)
    (hf : WellFormed field) : WellFormed (value.set key field) := by
  cases value with
  | obj fields => exact ⟨nodup_setField h.1 key field, wellFormedFields_setField h.2 key hf⟩
  | _ => exact h

theorem wellFormedItems_iff (items : List Json) :
    WellFormed.WellFormedItems items ↔ ∀ value ∈ items, WellFormed value := by
  induction items with
  | nil => simp [WellFormed.WellFormedItems]
  | cons value items ih => simp [WellFormed.WellFormedItems, ih]

theorem wellFormedFields_iff (fields : List (String × Json)) :
    WellFormed.WellFormedFields fields ↔ ∀ field ∈ fields, WellFormed field.2 := by
  induction fields with
  | nil => simp [WellFormed.WellFormedFields]
  | cons field fields ih => simp [WellFormed.WellFormedFields, ih]

/-- What the three functions of the parser return at some fuel has distinct keys. -/
structure ParsesWellFormed (fuel : Nat) : Prop where
  value : ∀ {text v rest}, parseValue fuel text = some (v, rest) → WellFormed v
  items : ∀ {text done v rest}, WellFormed.WellFormedItems done →
    parseItems fuel text done = some (v, rest) → WellFormed v
  fields : ∀ {text done v rest}, (done.map Prod.fst).Nodup → WellFormed.WellFormedFields done →
    parseFields fuel text done = some (v, rest) → WellFormed v

theorem ParsesWellFormed.parseValue_succ (ih : ParsesWellFormed fuel) {text : List Char}
    (h : parseValue (fuel + 1) text = some (v, rest)) : WellFormed v := by
  unfold parseValue at h
  split at h
  · obtain ⟨rfl, -⟩ := Prod.mk.inj (Option.some.inj h)
    trivial
  · obtain ⟨rfl, -⟩ := Prod.mk.inj (Option.some.inj h)
    trivial
  · obtain ⟨rfl, -⟩ := Prod.mk.inj (Option.some.inj h)
    trivial
  · obtain ⟨p, -, hp⟩ := Option.map_eq_some_iff.mp h
    obtain ⟨rfl, -⟩ := Prod.mk.inj hp
    trivial
  · split at h
    · obtain ⟨rfl, -⟩ := Prod.mk.inj (Option.some.inj h)
      trivial
    · refine ih.items ?_ h
      trivial
  · split at h
    · obtain ⟨rfl, -⟩ := Prod.mk.inj (Option.some.inj h)
      exact ⟨List.nodup_nil, trivial⟩
    · refine ih.fields ?_ ?_ h
      · exact List.nodup_nil
      · trivial
  · obtain ⟨p, -, hp⟩ := Option.map_eq_some_iff.mp h
    obtain ⟨rfl, -⟩ := Prod.mk.inj hp
    trivial

theorem ParsesWellFormed.parseItems_succ (ih : ParsesWellFormed fuel) {text : List Char}
    {done : List Json} (hdone : WellFormed.WellFormedItems done)
    (h : parseItems (fuel + 1) text done = some (v, rest)) : WellFormed v := by
  unfold parseItems at h
  split at h
  · exact absurd h (by simp)
  · rename_i value rest' hvalue
    have hitems : WellFormed.WellFormedItems (done ++ [value]) := by
      rw [wellFormedItems_iff] at hdone ⊢
      intro w hw
      rcases List.mem_append.mp hw with hw | hw
      · exact hdone w hw
      · rw [List.mem_singleton.mp hw]
        exact ih.value hvalue
    split at h
    · exact ih.items hitems h
    · obtain ⟨rfl, -⟩ := Prod.mk.inj (Option.some.inj h)
      exact hitems
    · exact absurd h (by simp)

theorem ParsesWellFormed.parseFields_succ (ih : ParsesWellFormed fuel) {text : List Char}
    {done : List (String × Json)} (hkeys : (done.map Prod.fst).Nodup)
    (hdone : WellFormed.WellFormedFields done)
    (h : parseFields (fuel + 1) text done = some (v, rest)) : WellFormed v := by
  unfold parseFields at h
  split at h
  · split at h
    · exact absurd h (by simp)
    · split at h
      · split at h
        · exact absurd h (by simp)
        · rename_i value rest' hvalue
          have hv := ih.value hvalue
          split at h
          · exact ih.fields (nodup_setField hkeys _ _) (wellFormedFields_setField hdone _ hv) h
          · obtain ⟨rfl, -⟩ := Prod.mk.inj (Option.some.inj h)
            exact ⟨nodup_setField hkeys _ _, wellFormedFields_setField hdone _ hv⟩
          · exact absurd h (by simp)
      · exact absurd h (by simp)
  · exact absurd h (by simp)

theorem parsesWellFormed (fuel : Nat) : ParsesWellFormed fuel := by
  induction fuel with
  | zero =>
    refine ⟨?_, ?_, ?_⟩
    · intro _ _ _ h
      simp [parseValue] at h
    · intro _ _ _ _ _ h
      simp [parseItems] at h
    · intro _ _ _ _ _ _ h
      simp [parseFields] at h
  | succ fuel ih =>
    exact ⟨fun h => ih.parseValue_succ h, fun hd h => ih.parseItems_succ hd h,
      fun hk hd h => ih.parseFields_succ hk hd h⟩

theorem wellFormed_of_parse {text : List Char} {value : Json} (h : parse text = some value) :
    WellFormed value := by
  unfold parse at h
  split at h
  · rename_i v rest hparse
    split_ifs at h
    obtain rfl := Option.some.inj h
    exact (parsesWellFormed _).value hparse
  · exact absurd h (by simp)

/-! ## Written values stand on one line -/

theorem lineFeed_not_mem_escapeChar (c : Char) : '\n' ∉ escapeChar c := by
  have hdigit : ∀ n, n < 16 → Nat.digitChar n ≠ '\n' := by decide +kernel
  unfold escapeChar
  split_ifs with h1 h2 h3 h4 h5 h6 h7 h8
  · simp
  · simp
  · simp
  · simp
  · simp
  · simp
  · simp
  · have hc : c.toNat / 16 < 16 := by omega
    have hc' : c.toNat % 16 < 16 := by omega
    simp [(hdigit _ hc).symm, (hdigit _ hc').symm]
  · simpa using fun h => h5 h.symm

theorem lineFeed_not_mem_quote (s : List Char) : '\n' ∉ quote s := by
  simp only [quote, List.cons_append, List.mem_cons, List.mem_append, List.mem_flatMap, not_or,
    not_exists, not_and]
  refine ⟨by decide, ?_, by simp⟩
  intro c _
  exact lineFeed_not_mem_escapeChar c

mutual

theorem lineFeed_not_mem_stringify : ∀ value : Json, '\n' ∉ stringify value
  | .null => by simp [stringify]
  | .bool true => by simp [stringify]
  | .bool false => by simp [stringify]
  | .num n => fun h => absurd ((formatNumber_chars n).2 _ h) (by decide)
  | .str s => lineFeed_not_mem_quote s.toList
  | .arr items => by
    rw [stringify, List.mem_cons, not_or]
    exact ⟨by decide, lineFeed_not_mem_stringifyItems items⟩
  | .obj fields => by
    rw [stringify, List.mem_cons, not_or]
    exact ⟨by decide, lineFeed_not_mem_stringifyFields fields⟩

theorem lineFeed_not_mem_stringifyItems :
    ∀ items : List Json, '\n' ∉ stringify.stringifyItems items
  | [] => by simp [stringify.stringifyItems]
  | [value] => by
    have h := lineFeed_not_mem_stringify value
    simp [stringify.stringifyItems, h]
  | value :: next :: items => by
    have h := lineFeed_not_mem_stringify value
    have hs := lineFeed_not_mem_stringifyItems (next :: items)
    simp [stringify.stringifyItems, h, hs]

theorem lineFeed_not_mem_stringifyFields :
    ∀ fields : List (String × Json), '\n' ∉ stringify.stringifyFields fields
  | [] => by simp [stringify.stringifyFields]
  | [(key, value)] => by
    have hk := lineFeed_not_mem_quote key.toList
    have h := lineFeed_not_mem_stringify value
    simp [stringify.stringifyFields, hk, h]
  | (key, value) :: next :: fields => by
    have hk := lineFeed_not_mem_quote key.toList
    have h := lineFeed_not_mem_stringify value
    have hs := lineFeed_not_mem_stringifyFields (next :: fields)
    simp [stringify.stringifyFields, hk, h, hs]

end

end Lib.Json
