import Mathlib

/-!
# Patterns with word boundaries

Regular expressions that a text is only tested with: a test asks whether there is a match anywhere,
so the order in which an engine tries the alternatives does not matter and a pattern is given by the
places where a match that starts at some place can end.
-/

namespace Lib

/-- A place in a text: the character before it and the text after it. -/
@[ext]
structure Place where
  before : Option Char
  rest : List Char

/-- A pattern. -/
inductive Pattern
  | empty
  | cls (p : Char → Bool)
  | seq (first second : Pattern)
  | alt (first second : Pattern)
  /-- `(?:body)*`. -/
  | star (body : Pattern)
  /-- `^`. -/
  | start
  /-- `\b`. -/
  | boundary

variable {s e f : Place} {p : Pattern} {tail : List Char} {c : Char} {q : Char → Prop}

namespace Pattern

/-- A character of `\w`. -/
def isWord (c : Char) : Bool := c.isAlphanum || c = '_'

/-- The place is at the start or at the end of a word. -/
def atBoundary (s : Place) : Bool := s.before.any isWord != s.rest.head?.any isWord

/-- The places after at most `count` rounds. -/
def rounds (next : Place → List Place) : (count : Nat) → Place → List Place
  | 0, s => [s]
  | count + 1, s => s :: (next s).flatMap (rounds next count)

/-- Where a match that starts at `s` can end. -/
def ends : Pattern → Place → List Place
  | .empty, s => [s]
  | .cls p, s =>
    match s.rest with
    | c :: rest => if p c then [⟨some c, rest⟩] else []
    | [] => []
  | .seq first second, s => (first.ends s).flatMap second.ends
  | .alt first second, s => first.ends s ++ second.ends s
  | .star body, s => rounds body.ends s.rest.length s
  | .start, s => if s.before = none then [s] else []
  | .boundary, s => if atBoundary s then [s] else []

/-- A match starts at `before` or later. -/
def testFrom (p : Pattern) : (before : Option Char) → List Char → Bool
  | before, [] => !(p.ends ⟨before, []⟩).isEmpty
  | before, c :: rest => !(p.ends ⟨before, c :: rest⟩).isEmpty || testFrom p (some c) rest

/-- `pattern.test(text)`. -/
def test (p : Pattern) (text : List Char) : Bool := p.testFrom none text

/-! ## Derived forms -/

/-- A literal text, compared character by character with `eq`. -/
def literal (eq : Char → Char → Bool) : List Char → Pattern
  | [] => .empty
  | [c] => .cls (eq c)
  | c :: text => .seq (.cls (eq c)) (literal eq text)

/-- `p{count}`. -/
def times (p : Char → Bool) : (count : Nat) → Pattern
  | 0 => .empty
  | count + 1 => .seq (.cls p) (times p count)

/-- `p{min,}`. -/
def many (p : Char → Bool) (min : Nat) : Pattern := .seq (times p min) (.star (.cls p))

/-- `p?`. -/
def opt (p : Char → Bool) : Pattern := .alt (.cls p) .empty

/-- `first|second|...`. -/
def choice : Pattern → List Pattern → Pattern
  | p, [] => p
  | p, next :: rest => .alt p (choice next rest)

/-! ## A match is a piece of the text -/

/-- `e` comes after `s` in the same text. -/
def Reaches (s e : Place) : Prop :=
  ∃ m, s.rest = m ++ e.rest ∧ e.before = m.getLast?.or s.before

theorem Reaches.refl (s : Place) : Reaches s s := ⟨[], by simp⟩

theorem Reaches.trans (h : Reaches s e) (h' : Reaches e f) : Reaches s f := by
  obtain ⟨m, hm, hb⟩ := h
  obtain ⟨m', hm', hb'⟩ := h'
  refine ⟨m ++ m', by rw [hm, hm', List.append_assoc], ?_⟩
  rw [hb', hb, List.getLast?_append, Option.or_assoc]

theorem Reaches.eq_of_length (h : Reaches s e) (hl : s.rest.length ≤ e.rest.length) : e = s := by
  obtain ⟨m, hm, hb⟩ := h
  have hnil : m = [] := by
    have := congrArg List.length hm
    rw [List.length_append] at this
    exact List.length_eq_zero_iff.mp (by omega)
  subst hnil
  ext1
  · simpa using hb
  · simpa using hm.symm

theorem Reaches.of_rounds {next : Place → List Place} (hnext : ∀ s, ∀ e ∈ next s, Reaches s e)
    (count : Nat) (h : e ∈ rounds next count s) : Reaches s e := by
  induction count generalizing s with
  | zero =>
    obtain rfl : e = s := by simpa [rounds] using h
    exact .refl e
  | succ count ih =>
    rcases List.mem_cons.mp h with rfl | h
    · exact .refl e
    · obtain ⟨s', hs', h⟩ := List.mem_flatMap.mp h
      exact (hnext s s' hs').trans (ih h)

theorem reaches_of_ends (h : e ∈ p.ends s) : Reaches s e := by
  induction p generalizing s e with
  | empty =>
    obtain rfl : e = s := by simpa [ends] using h
    exact .refl e
  | cls p =>
    obtain ⟨before, rest⟩ := s
    cases rest with
    | nil => simp [ends] at h
    | cons c rest =>
      simp only [ends] at h
      split_ifs at h
      · obtain rfl : e = ⟨some c, rest⟩ := by simpa using h
        exact ⟨[c], rfl, rfl⟩
      · simp at h
  | seq first second ih₁ ih₂ =>
    obtain ⟨s', hs', h⟩ := List.mem_flatMap.mp h
    exact (ih₁ hs').trans (ih₂ h)
  | alt first second ih₁ ih₂ =>
    rcases List.mem_append.mp h with h | h
    · exact ih₁ h
    · exact ih₂ h
  | star body ih => exact .of_rounds (fun s e h => ih h) _ h
  | start =>
    simp only [ends] at h
    split_ifs at h
    · obtain rfl : e = s := by simpa using h
      exact .refl e
    · simp at h
  | boundary =>
    simp only [ends] at h
    split_ifs at h
    · obtain rfl : e = s := by simpa using h
      exact .refl e
    · simp at h

/-- What any number of rounds reach, a round for each character reaches too. -/
theorem mem_rounds_of_le {next : Place → List Place} (hnext : ∀ s, ∀ e ∈ next s, Reaches s e)
    (count : Nat) {n : Nat} (h : e ∈ rounds next count s) (hn : s.rest.length ≤ n) :
    e ∈ rounds next n s := by
  induction count generalizing s n with
  | zero =>
    obtain rfl : e = s := by simpa [rounds] using h
    cases n <;> simp [rounds]
  | succ count ih =>
    rcases List.mem_cons.mp h with rfl | h
    · cases n <;> simp [rounds]
    · obtain ⟨s', hs', he⟩ := List.mem_flatMap.mp h
      by_cases hl : s.rest.length ≤ s'.rest.length
      · -- a round that consumes nothing is left out
        obtain rfl := (hnext s s' hs').eq_of_length hl
        exact ih he hn
      · obtain ⟨n, rfl⟩ : ∃ k, n = k + 1 := ⟨n - 1, by omega⟩
        exact List.mem_cons_of_mem _ (List.mem_flatMap.mpr ⟨s', hs', ih he (by omega)⟩)

/-! ## Matches in a longer text -/

/-- The place `e` lies inside `tail`, after its first character. -/
def Inside (tail : List Char) (e : Place) : Prop :=
  ∃ m, m ≠ [] ∧ tail = m ++ e.rest ∧ e.before = m.getLast?

theorem Inside.of_reaches (h : Inside tail s) (h' : Reaches s e) : Inside tail e := by
  obtain ⟨m, hne, hm, hb⟩ := h
  obtain ⟨m', hm', hb'⟩ := h'
  refine ⟨m ++ m', by simp [hne], by rw [hm, hm', List.append_assoc], ?_⟩
  rw [hb', hb, List.getLast?_append]

theorem not_inside_extend (tail : List Char) (s : Place) : ¬ Inside tail ⟨s.before, s.rest ++ tail⟩ := by
  rintro ⟨m, hne, hm, -⟩
  have hlength := congrArg List.length hm
  simp only [List.length_append] at hlength
  have := List.length_pos_iff.mpr hne
  omega

theorem Inside.before_mem (h : Inside tail e) : ∃ c ∈ tail, e.before = some c := by
  obtain ⟨m, hne, rfl, hb⟩ := h
  exact ⟨m.getLast hne, by simp, by rw [hb, List.getLast?_eq_some_getLast hne]⟩

/-- A place of `text`, seen in `text ++ tail`. -/
def extend (tail : List Char) (s : Place) : Place := ⟨s.before, s.rest ++ tail⟩

/-- A match in `text ++ tail` that starts in `text` is a match in `text`, or it ends in `tail`. -/
def SplitsAt (tail : List Char) (next : Place → List Place) : Prop :=
  ∀ s, ∀ e ∈ next (extend tail s), (∃ e' ∈ next s, e = extend tail e') ∨ Inside tail e

theorem SplitsAt.rounds {next : Place → List Place} (h : SplitsAt tail next)
    (hnext : ∀ s, ∀ e ∈ next s, Reaches s e) (count : Nat) : SplitsAt tail (rounds next count) := by
  intro s e he
  induction count generalizing s with
  | zero =>
    refine .inl ⟨s, by simp [Pattern.rounds], by simpa [Pattern.rounds] using he⟩
  | succ count ih =>
    rcases List.mem_cons.mp he with rfl | he
    · exact .inl ⟨s, by simp [Pattern.rounds], rfl⟩
    · obtain ⟨s', hs', he⟩ := List.mem_flatMap.mp he
      rcases h s s' hs' with ⟨s'', hs'', rfl⟩ | hin
      · rcases ih s'' he with ⟨e', he', rfl⟩ | hin
        · exact .inl ⟨e', List.mem_cons_of_mem _ (List.mem_flatMap.mpr ⟨s'', hs'', he'⟩), rfl⟩
        · exact .inr hin
      · exact .inr (hin.of_reaches (.of_rounds hnext count he))

theorem atBoundary_extend (hc : isWord c = false) (tail : List Char) (s : Place) :
    atBoundary (extend (c :: tail) s) = atBoundary s := by
  obtain ⟨before, rest⟩ := s
  cases rest <;> simp [atBoundary, extend, hc]

theorem splitsAt_ends (p : Pattern) (hc : isWord c = false) (tail : List Char) :
    SplitsAt (c :: tail) p.ends := by
  induction p with
  | empty =>
    intro s e he
    exact .inl ⟨s, by simp [ends], by simpa [ends] using he⟩
  | cls p =>
    rintro ⟨before, rest⟩ e he
    cases rest with
    | nil =>
      simp only [ends, extend, List.nil_append] at he
      split_ifs at he
      · obtain rfl : e = ⟨some c, tail⟩ := by simpa using he
        exact .inr ⟨[c], by simp, rfl, rfl⟩
      · simp at he
    | cons d rest =>
      simp only [ends, extend, List.cons_append] at he ⊢
      split_ifs at he ⊢
      · exact .inl ⟨⟨some d, rest⟩, by simp, by simpa using he⟩
      · simp at he
  | seq first second ih₁ ih₂ =>
    intro s e he
    obtain ⟨s', hs', he⟩ := List.mem_flatMap.mp he
    rcases ih₁ s s' hs' with ⟨s'', hs'', rfl⟩ | hin
    · rcases ih₂ s'' e he with ⟨e', he', rfl⟩ | hin
      · exact .inl ⟨e', List.mem_flatMap.mpr ⟨s'', hs'', he'⟩, rfl⟩
      · exact .inr hin
    · exact .inr (hin.of_reaches (reaches_of_ends he))
  | alt first second ih₁ ih₂ =>
    intro s e he
    rcases List.mem_append.mp he with he | he
    · exact (ih₁ s e he).imp_left fun ⟨e', h, h'⟩ => ⟨e', List.mem_append_left _ h, h'⟩
    · exact (ih₂ s e he).imp_left fun ⟨e', h, h'⟩ => ⟨e', List.mem_append_right _ h, h'⟩
  | star body ih =>
    intro s e he
    have hnext : ∀ s, ∀ e ∈ body.ends s, Reaches s e := fun s e h => reaches_of_ends h
    refine (SplitsAt.rounds ih hnext _ s e he).imp_left ?_
    rintro ⟨e', he', rfl⟩
    exact ⟨e', mem_rounds_of_le hnext _ he' le_rfl, rfl⟩
  | start =>
    intro s e he
    by_cases hs : s.before = none
    · exact .inl ⟨s, by simp [ends, hs], by simpa [ends, extend, hs] using he⟩
    · simp [ends, extend, hs] at he
  | boundary =>
    intro s e he
    by_cases hs : atBoundary s = true
    · exact .inl ⟨s, by simp [ends, hs], by simpa [ends, atBoundary_extend hc, hs] using he⟩
    · simp [ends, atBoundary_extend hc, hs] at he

/-- Every character that the pattern accepts has the property `q`. -/
def Within (q : Char → Prop) : Pattern → Prop
  | .empty => True
  | .cls p => ∀ c, p c = true → q c
  | .seq first second => first.Within q ∧ second.Within q
  | .alt first second => first.Within q ∧ second.Within q
  | .star body => body.Within q
  | .start => True
  | .boundary => True

/-- The pattern accepts `c` nowhere. -/
def excludes (c : Char) : Pattern → Bool
  | .empty => true
  | .cls p => !p c
  | .seq first second => first.excludes c && second.excludes c
  | .alt first second => first.excludes c && second.excludes c
  | .star body => body.excludes c
  | .start => true
  | .boundary => true

theorem within_of_excludes (h : p.excludes c = true) : p.Within (· ≠ c) := by
  induction p with
  | empty | start | boundary => trivial
  | cls p =>
    rintro d hd rfl
    simp [excludes, hd] at h
  | seq first second ih₁ ih₂ | alt first second ih₁ ih₂ =>
    obtain ⟨h₁, h₂⟩ := Bool.and_eq_true_iff.mp h
    exact ⟨ih₁ h₁, ih₂ h₂⟩
  | star body ih => exact ih h

/-- A match consumes characters with the property. -/
def Consumes (q : Char → Prop) (s e : Place) : Prop := ∃ m, s.rest = m ++ e.rest ∧ ∀ c ∈ m, q c

theorem Consumes.refl (q : Char → Prop) (s : Place) : Consumes q s s := ⟨[], by simp⟩

theorem Consumes.trans (h : Consumes q s e) (h' : Consumes q e f) : Consumes q s f := by
  obtain ⟨m, hm, hq⟩ := h
  obtain ⟨m', hm', hq'⟩ := h'
  refine ⟨m ++ m', by rw [hm, hm', List.append_assoc], fun c hc => ?_⟩
  rcases List.mem_append.mp hc with hc | hc
  · exact hq c hc
  · exact hq' c hc

theorem consumes_of_ends (hp : p.Within q) (h : e ∈ p.ends s) : Consumes q s e := by
  induction p generalizing s e with
  | empty =>
    obtain rfl : e = s := by simpa [ends] using h
    exact .refl q e
  | cls p =>
    obtain ⟨before, rest⟩ := s
    cases rest with
    | nil => simp [ends] at h
    | cons c rest =>
      by_cases hc : p c = true
      · obtain rfl : e = ⟨some c, rest⟩ := by simpa [ends, hc] using h
        exact ⟨[c], rfl, by simpa using hp c hc⟩
      · simp [ends, hc] at h
  | seq first second ih₁ ih₂ =>
    obtain ⟨s', hs', h⟩ := List.mem_flatMap.mp h
    exact (ih₁ hp.1 hs').trans (ih₂ hp.2 h)
  | alt first second ih₁ ih₂ =>
    rcases List.mem_append.mp h with h | h
    · exact ih₁ hp.1 h
    · exact ih₂ hp.2 h
  | star body ih =>
    have hrounds : ∀ count s, e ∈ rounds body.ends count s → Consumes q s e := by
      intro count
      induction count with
      | zero =>
        intro s h
        obtain rfl : e = s := by simpa [rounds] using h
        exact .refl q e
      | succ count ihc =>
        intro s h
        rcases List.mem_cons.mp h with rfl | h
        · exact .refl q e
        · obtain ⟨s', hs', h⟩ := List.mem_flatMap.mp h
          exact (ih hp hs').trans (ihc s' h)
    exact hrounds _ s h
  | start | boundary =>
    simp only [ends] at h
    split_ifs at h
    · obtain rfl : e = s := by simpa using h
      exact .refl q e
    · simp at h

/-- The part of a match that lies in the tail has the property too. -/
theorem Consumes.inside {q : Char → Prop} {tail : List Char} {s e : Place}
    (h : Consumes q (extend tail s) e) (hin : Inside tail e) :
    ∃ m, m ≠ [] ∧ tail = m ++ e.rest ∧ e.before = m.getLast? ∧ ∀ c ∈ m, q c := by
  obtain ⟨m, hne, hm, hb⟩ := hin
  obtain ⟨x, hx, hq⟩ := h
  refine ⟨m, hne, hm, hb, fun c hc => hq c ?_⟩
  have hx' : s.rest ++ m = x := by
    have happend : s.rest ++ m ++ e.rest = x ++ e.rest := by
      rw [← hx, List.append_assoc, ← hm]
      rfl
    exact List.append_cancel_right happend
  rw [← hx']
  exact List.mem_append_right _ hc

theorem ends_extend_of_within (hc : isWord c = false) (hp : p.Within (· ≠ c))
    (h : e ∈ p.ends (extend (c :: tail) s)) : ∃ e' ∈ p.ends s, e = extend (c :: tail) e' := by
  rcases splitsAt_ends p hc tail s e h with h' | hin
  · exact h'
  · obtain ⟨m, hne, hm, -, hq⟩ := (consumes_of_ends hp h).inside hin
    cases m with
    | nil => exact absurd rfl hne
    | cons d m =>
      obtain rfl : c = d := (List.cons.inj hm).1
      exact absurd rfl (hq c (by simp))

/-- Every match ends with a character that has the property. -/
inductive EndsWith (q : Char → Prop) : Pattern → Prop
  | cls {p : Char → Bool} (h : ∀ c, p c = true → q c) : EndsWith q (.cls p)
  | seq {first second : Pattern} (h : EndsWith q second) : EndsWith q (.seq first second)

theorem EndsWith.before_eq (hp : EndsWith q p) (h : e ∈ p.ends s) :
    ∃ c, e.before = some c ∧ q c := by
  induction hp generalizing s with
  | @cls p hq =>
    obtain ⟨before, rest⟩ := s
    cases rest with
    | nil => simp [ends] at h
    | cons c rest =>
      by_cases hc : p c = true
      · obtain rfl : e = ⟨some c, rest⟩ := by simpa [ends, hc] using h
        exact ⟨c, rfl, hq c hc⟩
      · simp [ends, hc] at h
  | seq hp ih =>
    obtain ⟨s', hs', h⟩ := List.mem_flatMap.mp h
    exact ih h

theorem EndsWith.not_inside (hp : EndsWith q p) (h : e ∈ p.ends s) (htail : ∀ c ∈ tail, ¬ q c) :
    ¬ Inside tail e := by
  intro hin
  obtain ⟨c, hc, hq⟩ := hp.before_eq h
  obtain ⟨d, hd, hb⟩ := hin.before_mem
  obtain rfl : c = d := Option.some.inj (hc.symm.trans hb)
  exact htail c hd hq

/-! ## Forgetting what stands before -/

/-- `after` knows at most that no word was open. -/
def Forgets (before after : Option Char) : Prop :=
  after = before ∨ (after = none ∧ before.any isWord = false)

theorem Forgets.any_eq {before after : Option Char} (h : Forgets before after) :
    after.any isWord = before.any isWord := by
  rcases h with rfl | ⟨rfl, h⟩
  · rfl
  · rw [h]
    rfl

/-- A match is still one at the start of the text, unless it continues a word. -/
theorem ends_forget {before before' : Option Char} {text : List Char}
    (h : e ∈ p.ends ⟨before, text⟩) (hb : Forgets before before') :
    ∃ e' ∈ p.ends ⟨before', text⟩, e'.rest = e.rest ∧ Forgets e.before e'.before := by
  induction p generalizing before before' text e with
  | empty =>
    obtain rfl : e = ⟨before, text⟩ := by simpa [ends] using h
    exact ⟨⟨before', text⟩, by simp [ends], rfl, hb⟩
  | cls p =>
    cases text with
    | nil => simp [ends] at h
    | cons c rest =>
      by_cases hc : p c = true
      · obtain rfl : e = ⟨some c, rest⟩ := by simpa [ends, hc] using h
        exact ⟨⟨some c, rest⟩, by simp [ends, hc], rfl, .inl rfl⟩
      · simp [ends, hc] at h
  | seq first second ih₁ ih₂ =>
    obtain ⟨s', hs', h⟩ := List.mem_flatMap.mp h
    obtain ⟨t, ht, hrest, hf⟩ := ih₁ hs' hb
    obtain ⟨e', he', hrest', hf'⟩ := ih₂ h hf
    rw [← hrest] at he'
    exact ⟨e', List.mem_flatMap.mpr ⟨t, ht, he'⟩, hrest', hf'⟩
  | alt first second ih₁ ih₂ =>
    rcases List.mem_append.mp h with h | h
    · obtain ⟨e', he', hr⟩ := ih₁ h hb
      exact ⟨e', List.mem_append_left _ he', hr⟩
    · obtain ⟨e', he', hr⟩ := ih₂ h hb
      exact ⟨e', List.mem_append_right _ he', hr⟩
  | star body ih =>
    have hrounds : ∀ count before before' text, e ∈ rounds body.ends count ⟨before, text⟩ →
        Forgets before before' →
        ∃ e' ∈ rounds body.ends count ⟨before', text⟩, e'.rest = e.rest ∧
          Forgets e.before e'.before := by
      intro count
      induction count with
      | zero =>
        intro before before' text h hb
        obtain rfl : e = ⟨before, text⟩ := by simpa [rounds] using h
        exact ⟨⟨before', text⟩, by simp [rounds], rfl, hb⟩
      | succ count ihc =>
        intro before before' text h hb
        rcases List.mem_cons.mp h with rfl | h
        · exact ⟨⟨before', text⟩, by simp [rounds], rfl, hb⟩
        · obtain ⟨s', hs', h⟩ := List.mem_flatMap.mp h
          obtain ⟨t, ht, hrest, hf⟩ := ih hs' hb
          obtain ⟨e', he', hr⟩ := ihc _ _ _ h hf
          rw [← hrest] at he'
          exact ⟨e', List.mem_cons_of_mem _ (List.mem_flatMap.mpr ⟨t, ht, he'⟩), hr⟩
    exact hrounds _ before before' text h hb
  | start =>
    by_cases hn : before = none
    · obtain rfl : e = ⟨before, text⟩ := by simpa [ends, hn] using h
      have hn' : before' = none := by
        rcases hb with rfl | ⟨hn', -⟩
        · exact hn
        · exact hn'
      exact ⟨⟨before', text⟩, by simp [ends, hn'], rfl, hb⟩
    · simp [ends, hn] at h
  | boundary =>
    have heq : atBoundary ⟨before', text⟩ = atBoundary ⟨before, text⟩ := by
      unfold atBoundary
      rw [hb.any_eq]
    by_cases ha : atBoundary ⟨before, text⟩ = true
    · obtain rfl : e = ⟨before, text⟩ := by simpa [ends, ha] using h
      exact ⟨⟨before', text⟩, by simp [ends, heq, ha], rfl, hb⟩
    · simp [ends, ha] at h

/-! ## Testing -/

theorem testFrom_iff {before : Option Char} {text : List Char} :
    p.testFrom before text = true ↔ ∃ s, Reaches ⟨before, text⟩ s ∧ p.ends s ≠ [] := by
  induction text generalizing before with
  | nil =>
    constructor
    · intro h
      exact ⟨⟨before, []⟩, .refl _, by simpa [testFrom] using h⟩
    · rintro ⟨s, hs, hne⟩
      obtain rfl := hs.eq_of_length (by simp)
      simpa [testFrom] using hne
  | cons c text ih =>
    simp only [testFrom, Bool.or_eq_true, ih]
    constructor
    · rintro (h | ⟨s, hs, hne⟩)
      · exact ⟨⟨before, c :: text⟩, .refl _, by simpa using h⟩
      · exact ⟨s, Reaches.trans ⟨[c], rfl, rfl⟩ hs, hne⟩
    · rintro ⟨s, ⟨m, hm, hb⟩, hne⟩
      cases m with
      | nil =>
        left
        obtain rfl : s = ⟨before, c :: text⟩ := by
          ext1
          · simpa using hb
          · simpa using hm.symm
        simpa using hne
      | cons d m =>
        right
        obtain ⟨rfl, htext⟩ := List.cons.inj hm
        refine ⟨s, ⟨m, htext, ?_⟩, hne⟩
        rw [hb, List.getLast?_cons]
        cases m.getLast? <;> rfl

/-- A match in `left`, a separator and `right` lies in `left` or in `right`, or it starts in `left`
and ends after the separator. -/
theorem test_append_cases {left right : List Char} (hc : isWord c = false)
    (h : p.test (left ++ c :: right) = true) :
    p.test left = true ∨ p.test right = true ∨
      ∃ s e, Reaches ⟨none, left⟩ s ∧ e ∈ p.ends (extend (c :: right) s) ∧
        Inside (c :: right) e := by
  obtain ⟨s, ⟨m, hm, hb⟩, hne⟩ := (testFrom_iff).mp h
  obtain ⟨e, he⟩ := List.exists_mem_of_ne_nil _ hne
  rcases List.append_eq_append_iff.mp hm with ⟨x, rfl, hx⟩ | ⟨x, rfl, hx⟩
  · cases x with
    | nil =>
      -- the match starts at the separator
      obtain ⟨before, rest⟩ := s
      obtain rfl : c :: right = rest := by simpa using hx
      have hs : Reaches ⟨none, left⟩ ⟨before, []⟩ := ⟨left, by simp, by simpa using hb⟩
      rcases splitsAt_ends p hc right ⟨before, []⟩ e (by simpa [extend] using he) with
        ⟨e', he', -⟩ | hin
      · exact .inl ((testFrom_iff).mpr ⟨_, hs, List.ne_nil_of_mem he'⟩)
      · exact .inr (.inr ⟨_, e, hs, by simpa [extend] using he, hin⟩)
    | cons d x =>
      -- the match starts in `right`
      obtain ⟨rfl, hright⟩ := List.cons.inj hx
      obtain ⟨before, rest⟩ := s
      have hf : Forgets before x.getLast? := by
        rw [List.getLast?_append, List.getLast?_cons] at hb
        cases x using List.reverseRecOn with
        | nil =>
          refine .inr ⟨rfl, ?_⟩
          obtain rfl : before = some c := by simpa using hb
          exact hc
        | append_singleton x d =>
          left
          simpa using hb.symm
      obtain ⟨e', he', -⟩ := ends_forget he hf
      refine .inr (.inl ((testFrom_iff).mpr ⟨⟨x.getLast?, rest⟩, ⟨x, hright, by simp⟩, ?_⟩))
      exact List.ne_nil_of_mem he'
  · obtain ⟨before, rest⟩ := s
    obtain rfl : rest = x ++ c :: right := hx
    have hs : Reaches ⟨none, m ++ x⟩ ⟨before, x⟩ := ⟨m, rfl, hb⟩
    rcases splitsAt_ends p hc right ⟨before, x⟩ e he with ⟨e', he', -⟩ | hin
    · exact .inl ((testFrom_iff).mpr ⟨_, hs, List.ne_nil_of_mem he'⟩)
    · exact .inr (.inr ⟨_, e, hs, he, hin⟩)

/-- A match that starts in `left` with a pattern without the separator has that part in `left`. -/
theorem test_of_crossing {first second : Pattern} {left right : List Char} (hc : isWord c = false)
    (hfirst : first.Within (· ≠ c)) (hs : Reaches ⟨none, left⟩ s)
    (he : e ∈ (Pattern.seq first second).ends (extend (c :: right) s)) :
    first.test left = true := by
  obtain ⟨t, ht, -⟩ := List.mem_flatMap.mp he
  obtain ⟨t', ht', -⟩ := ends_extend_of_within hc hfirst ht
  exact (testFrom_iff).mpr ⟨s, hs, List.ne_nil_of_mem ht'⟩

end Pattern

end Lib
