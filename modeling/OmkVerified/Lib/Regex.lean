import Mathlib

/-!
# Regular expressions

A backtracking matcher for the regular expressions that programs test texts with: character
classes, greedy repetition and optional occurrence of a class, sequence, ordered choice, the start
of the text and a negative lookahead of one class.
-/

namespace Lib

/-- A regular expression. -/
inductive Regex
  | cls (p : Char → Bool)
  /-- `p{min,}`, greedy. -/
  | many (p : Char → Bool) (min : Nat)
  /-- `p?`, greedy. -/
  | opt (p : Char → Bool)
  | seq (first second : Regex)
  | alt (first second : Regex)
  /-- `(?!p)`. -/
  | notAhead (p : Char → Bool)
  /-- `^`. -/
  | start

variable {allowed : Char → Bool} {r : Regex}

namespace Regex

variable {α : Type}

/-- Greedy repetition: the longest repetition that `k` accepts. -/
def runMany (p : Char → Bool) : (min : Nat) → (atStart : Bool) → List Char →
    (k : Bool → List Char → Option α) → Option α
  | min, atStart, [], k => if min = 0 then k atStart [] else none
  | min, atStart, c :: text, k =>
    if p c then
      match runMany p (min - 1) false text k with
      | some a => some a
      | none => if min = 0 then k atStart (c :: text) else none
    else if min = 0 then k atStart (c :: text) else none

/-- Matching at the current position, in order of priority, until `k` accepts the rest. -/
def run : Regex → (atStart : Bool) → List Char → (k : Bool → List Char → Option α) → Option α
  | .cls p, _, text, k =>
    match text with
    | c :: rest => if p c then k false rest else none
    | [] => none
  | .many p min, atStart, text, k => runMany p min atStart text k
  | .opt p, atStart, text, k =>
    match text with
    | c :: rest =>
      if p c then
        match k false rest with
        | some a => some a
        | none => k atStart text
      else k atStart text
    | [] => k atStart text
  | .seq first second, atStart, text, k => run first atStart text fun s t => run second s t k
  | .alt first second, atStart, text, k =>
    match run first atStart text k with
    | some a => some a
    | none => run second atStart text k
  | .notAhead p, atStart, text, k =>
    match text with
    | c :: _ => if p c then none else k atStart text
    | [] => k atStart text
  | .start, atStart, text, k => if atStart then k atStart text else none

/-- What follows the match at the current position. -/
def matchAt (r : Regex) (atStart : Bool) (text : List Char) : Option (List Char) :=
  r.run atStart text fun _ rest => some rest

/-- `regex.test(text)` from the current position on. -/
def testFrom (r : Regex) (atStart : Bool) : List Char → Bool
  | [] => (r.matchAt atStart []).isSome
  | c :: text => (r.matchAt atStart (c :: text)).isSome || testFrom r false text

/-- `regex.test(text)`. -/
def test (r : Regex) (text : List Char) : Bool := r.testFrom true text

/-- `text.replace(regex, "")` with the flag `g`, from the current position on. An empty match
removes nothing. -/
def removeFrom (r : Regex) : (fuel : Nat) → (atStart : Bool) → List Char → List Char
  | 0, _, text => text
  | _, _, [] => []
  | fuel + 1, atStart, c :: text =>
    match r.matchAt atStart (c :: text) with
    | some rest =>
      if rest.length ≤ text.length then removeFrom r fuel false rest
      else c :: removeFrom r fuel false text
    | none => c :: removeFrom r fuel false text

/-- `text.replace(regex, "")` with the flag `g`. -/
def remove (r : Regex) (text : List Char) : List Char := r.removeFrom text.length true text

/-- A literal text, compared character by character with `eq`. -/
def literal (eq : Char → Char → Bool) : List Char → Regex
  | [] => .many (fun _ => false) 0
  | [c] => .cls (eq c)
  | c :: text => .seq (.cls (eq c)) (literal eq text)

/-- Ordered choice. -/
def choice : Regex → List Regex → Regex
  | r, [] => r
  | r, next :: rest => .alt r (choice next rest)

/-! ## Texts that cannot match -/

theorem runMany_eq_none {p : Char → Bool} {k : Bool → List Char → Option α} {text : List Char}
    (hk : ∀ s t, t <:+ text → k s t = none) (min : Nat) (atStart : Bool) :
    runMany p min atStart text k = none := by
  induction text generalizing min atStart with
  | nil =>
    unfold runMany
    split_ifs
    · exact hk _ _ (List.suffix_refl _)
    · rfl
  | cons c text ih =>
    unfold runMany
    rw [ih (fun s t ht => hk s t (ht.trans (List.suffix_cons c text)))]
    split_ifs
    · exact hk _ _ (List.suffix_refl _)
    · rfl
    · exact hk _ _ (List.suffix_refl _)
    · rfl

theorem run_eq_none (r : Regex) {k : Bool → List Char → Option α} {text : List Char}
    (hk : ∀ s t, t <:+ text → k s t = none) (atStart : Bool) : r.run atStart text k = none := by
  induction r generalizing k text atStart with
  | cls p =>
    cases text with
    | nil => rfl
    | cons c text =>
      show (if p c = true then k false text else none) = none
      split_ifs
      · exact hk _ _ (List.suffix_cons c text)
      · rfl
  | many p min => exact runMany_eq_none hk min atStart
  | opt p =>
    cases text with
    | nil => exact hk _ _ (List.suffix_refl _)
    | cons c text =>
      unfold run
      simp only [hk _ _ (List.suffix_cons c text), hk _ _ (List.suffix_refl _), ite_self]
  | seq first second ih₁ ih₂ =>
    exact ih₁ (fun s t ht => ih₂ (fun s' t' ht' => hk s' t' (ht'.trans ht)) s) atStart
  | alt first second ih₁ ih₂ =>
    unfold run
    rw [ih₁ hk, ih₂ hk]
  | notAhead p =>
    cases text with
    | nil => exact hk _ _ (List.suffix_refl _)
    | cons c text =>
      unfold run
      simp only [hk _ _ (List.suffix_refl _), ite_self]
  | start =>
    unfold run
    simp only [hk _ _ (List.suffix_refl _), ite_self]

/-- Every match of the expression has a character outside of `allowed`. -/
inductive Avoids (allowed : Char → Bool) : Regex → Prop
  | cls {p : Char → Bool} (h : ∀ c, allowed c = true → p c = false) : Avoids allowed (.cls p)
  | many {p : Char → Bool} {min : Nat} (h : ∀ c, allowed c = true → p c = false)
      (hmin : min ≠ 0) : Avoids allowed (.many p min)
  | first {first second : Regex} (h : Avoids allowed first) : Avoids allowed (.seq first second)
  | second {first second : Regex} (h : Avoids allowed second) : Avoids allowed (.seq first second)
  | alt {first second : Regex} (h₁ : Avoids allowed first) (h₂ : Avoids allowed second) :
      Avoids allowed (.alt first second)

theorem Avoids.run_eq_none (h : Avoids allowed r) {text : List Char}
    (htext : ∀ c ∈ text, allowed c = true) (atStart : Bool) (k : Bool → List Char → Option α) :
    r.run atStart text k = none := by
  induction h generalizing text atStart k with
  | @cls p h =>
    cases text with
    | nil => rfl
    | cons c text =>
      show (if p c = true then k false text else none) = none
      rw [h c (htext c (by simp))]
      rfl
  | many h hmin =>
    cases text with
    | nil =>
      unfold run runMany
      rw [if_neg hmin]
    | cons c text =>
      unfold run runMany
      rw [h c (htext c (by simp)), if_neg hmin]
      rfl
  | first h ih => exact ih htext atStart _
  | @second first second h ih =>
    show (first.run atStart text fun s t => second.run s t k) = none
    refine Regex.run_eq_none first (fun s t ht => ?_) atStart
    exact ih (fun c hc => htext c (ht.subset hc)) s k
  | alt h₁ h₂ ih₁ ih₂ =>
    unfold run
    rw [ih₁ htext, ih₂ htext]

theorem Avoids.test_eq_false (h : Avoids allowed r) {text : List Char}
    (htext : ∀ c ∈ text, allowed c = true) : r.test text = false := by
  have hfrom : ∀ atStart, r.testFrom atStart text = false := by
    induction text with
    | nil =>
      intro atStart
      unfold testFrom matchAt
      rw [h.run_eq_none (by simp)]
      rfl
    | cons c text ih =>
      intro atStart
      unfold testFrom matchAt
      rw [h.run_eq_none htext, ih (fun d hd => htext d (by simp [hd]))]
      rfl
  exact hfrom true

theorem Avoids.remove_eq (h : Avoids allowed r) {text : List Char}
    (htext : ∀ c ∈ text, allowed c = true) : r.remove text = text := by
  have hfrom : ∀ fuel atStart, r.removeFrom fuel atStart text = text := by
    induction text with
    | nil =>
      intro fuel atStart
      cases fuel <;> rfl
    | cons c text ih =>
      intro fuel atStart
      cases fuel with
      | zero => rfl
      | succ fuel =>
        unfold removeFrom matchAt
        rw [h.run_eq_none htext]
        simp only [ih (fun d hd => htext d (by simp [hd]))]
  exact hfrom text.length true

end Regex

end Lib

/-!
# Matching a whole text

Expressions between `^` and `$` that look at nothing around a match: the backtracking matcher finds a
match exactly when the text is in the language of the expression.
-/

namespace Lib

namespace Regex

variable {α : Type}

/-- `^r$` tests a text. -/
def testAll (r : Regex) (text : List Char) : Bool :=
  (r.run true text fun _ rest => if rest = [] then some () else none).isSome

/-- One expression after the other. -/
def sequence : List Regex → Regex
  | [] => .many (fun _ => false) 0
  | r :: rest => .seq r (sequence rest)

/-- The expression has no `^` and no lookahead inside. -/
def Free : Regex → Prop
  | .seq first second => first.Free ∧ second.Free
  | .alt first second => first.Free ∧ second.Free
  | .notAhead _ => False
  | .start => False
  | _ => True

/-- The texts that an expression matches. -/
def Matches : Regex → List Char → Prop
  | .cls p, text => ∃ c, p c = true ∧ text = [c]
  | .many p min, text => min ≤ text.length ∧ ∀ c ∈ text, p c = true
  | .opt p, text => text = [] ∨ ∃ c, p c = true ∧ text = [c]
  | .seq first second, text =>
    ∃ front back, text = front ++ back ∧ first.Matches front ∧ second.Matches back
  | .alt first second, text => first.Matches text ∨ second.Matches text
  | .notAhead _, _ => False
  | .start, _ => False

theorem runMany_isSome_iff {p : Char → Bool} {k : Bool → List Char → Option α}
    (hk : ∀ s s' rest, (k s rest).isSome = (k s' rest).isSome) (min : Nat) (atStart : Bool)
    (text : List Char) :
    (runMany p min atStart text k).isSome = true ↔
      ∃ front back, text = front ++ back ∧ (min ≤ front.length ∧ ∀ c ∈ front, p c = true) ∧
        (k true back).isSome = true := by
  induction text generalizing min atStart with
  | nil =>
    have hnil : (∃ front back, [] = front ++ back ∧ (min ≤ front.length ∧ ∀ c ∈ front, p c = true) ∧
        (k true back).isSome = true) ↔ min = 0 ∧ (k true []).isSome = true := by
      constructor
      · rintro ⟨front, back, heq, ⟨hmin, -⟩, hsome⟩
        obtain ⟨rfl, rfl⟩ := List.append_eq_nil_iff.mp heq.symm
        exact ⟨Nat.le_zero.mp hmin, hsome⟩
      · rintro ⟨rfl, hsome⟩
        exact ⟨[], [], rfl, ⟨le_rfl, by simp⟩, hsome⟩
    rw [hnil, runMany]
    by_cases hmin : min = 0
    · rw [if_pos hmin, hk atStart true]
      exact (and_iff_right hmin).symm
    · rw [if_neg hmin]
      exact iff_of_false (by simp) fun h => hmin h.1
  | cons c text ih =>
    have hcons : (∃ front back, c :: text = front ++ back ∧
        (min ≤ front.length ∧ ∀ c ∈ front, p c = true) ∧ (k true back).isSome = true) ↔
        (p c = true ∧ ∃ front back, text = front ++ back ∧
          (min - 1 ≤ front.length ∧ ∀ c ∈ front, p c = true) ∧ (k true back).isSome = true) ∨
        (min = 0 ∧ (k true (c :: text)).isSome = true) := by
      constructor
      · rintro ⟨front, back, heq, ⟨hmin, hall⟩, hsome⟩
        cases front with
        | nil =>
          rw [List.nil_append] at heq
          rw [← heq] at hsome
          exact .inr ⟨Nat.le_zero.mp hmin, hsome⟩
        | cons first front =>
          rw [List.cons_append, List.cons.injEq] at heq
          obtain ⟨rfl, rfl⟩ := heq
          rw [List.length_cons] at hmin
          exact .inl ⟨hall c List.mem_cons_self, front, back, rfl,
            ⟨by omega, fun d hd => hall d (List.mem_cons_of_mem c hd)⟩, hsome⟩
      · rintro (⟨hc, front, back, rfl, ⟨hmin, hall⟩, hsome⟩ | ⟨rfl, hsome⟩)
        · refine ⟨c :: front, back, rfl, ⟨?_, ?_⟩, hsome⟩
          · rw [List.length_cons]
            omega
          · intro d hd
            rcases List.mem_cons.mp hd with rfl | hd
            · exact hc
            · exact hall d hd
        · exact ⟨[], c :: text, rfl, ⟨Nat.zero_le _, by simp⟩, hsome⟩
    have ih := ih (min - 1) false
    rw [hcons, runMany]
    by_cases hc : p c = true
    · rw [if_pos hc]
      cases hrest : runMany p (min - 1) false text k with
      | some a =>
        rw [hrest] at ih
        exact iff_of_true rfl (.inl ⟨hc, ih.mp rfl⟩)
      | none =>
        rw [hrest] at ih
        have hnot := fun h => Bool.false_ne_true (ih.mpr h)
        by_cases hmin : min = 0
        · dsimp only
          rw [if_pos hmin, hk atStart true]
          constructor
          · intro hsome
            exact .inr ⟨hmin, hsome⟩
          · rintro (⟨-, h⟩ | ⟨-, h⟩)
            · exact absurd h hnot
            · exact h
        · dsimp only
          rw [if_neg hmin]
          refine iff_of_false (by simp) ?_
          rintro (⟨-, h⟩ | ⟨h, -⟩)
          · exact hnot h
          · exact hmin h
    · rw [if_neg hc]
      by_cases hmin : min = 0
      · rw [if_pos hmin, hk atStart true]
        constructor
        · intro hsome
          exact .inr ⟨hmin, hsome⟩
        · rintro (⟨h, -⟩ | ⟨-, h⟩)
          · exact absurd h hc
          · exact h
      · rw [if_neg hmin]
        refine iff_of_false (by simp) ?_
        rintro (⟨h, -⟩ | ⟨h, -⟩)
        · exact hc h
        · exact hmin h

/-- The matcher finds a match that the continuation accepts when there is one. -/
theorem run_isSome_iff {r : Regex} (hfree : r.Free) {k : Bool → List Char → Option α}
    (hk : ∀ s s' rest, (k s rest).isSome = (k s' rest).isSome) (atStart : Bool) (text : List Char) :
    (r.run atStart text k).isSome = true ↔
      ∃ front back, text = front ++ back ∧ r.Matches front ∧ (k true back).isSome = true := by
  induction r generalizing k atStart text with
  | cls p =>
    cases text with
    | nil =>
      refine iff_of_false (by simp [run]) ?_
      rintro ⟨front, back, heq, ⟨c, -, rfl⟩, -⟩
      cases heq
    | cons c text =>
      rw [run]
      constructor
      · intro h
        split at h
        · rename_i hc
          rw [hk false true] at h
          exact ⟨[c], text, rfl, ⟨c, hc, rfl⟩, h⟩
        · cases h
      · rintro ⟨front, back, heq, ⟨d, hd, rfl⟩, hsome⟩
        rw [List.singleton_append, List.cons.injEq] at heq
        obtain ⟨rfl, rfl⟩ := heq
        rw [if_pos hd, hk false true]
        exact hsome
  | many p min => exact runMany_isSome_iff hk min atStart text
  | opt p =>
    have hskip : (k true text).isSome = true → ∃ front back, text = front ++ back ∧
        (Regex.opt p).Matches front ∧ (k true back).isSome = true :=
      fun h => ⟨[], text, rfl, .inl rfl, h⟩
    cases text with
    | nil =>
      rw [run]
      rw [hk atStart true]
      refine ⟨hskip, ?_⟩
      rintro ⟨front, back, heq, -, hsome⟩
      obtain ⟨rfl, rfl⟩ := List.append_eq_nil_iff.mp heq.symm
      exact hsome
    | cons c text =>
      rw [run]
      have hsplit : (∃ front back, c :: text = front ++ back ∧
          (Regex.opt p).Matches front ∧ (k true back).isSome = true) ↔
          (p c = true ∧ (k true text).isSome = true) ∨ (k true (c :: text)).isSome = true := by
        constructor
        · rintro ⟨front, back, heq, rfl | ⟨d, hd, rfl⟩, hsome⟩
          · rw [List.nil_append] at heq
            rw [← heq] at hsome
            exact .inr hsome
          · rw [List.singleton_append, List.cons.injEq] at heq
            obtain ⟨rfl, rfl⟩ := heq
            exact .inl ⟨hd, hsome⟩
        · rintro (⟨hc, h⟩ | h)
          · exact ⟨[c], text, rfl, .inr ⟨c, hc, rfl⟩, h⟩
          · exact hskip h
      rw [hsplit]
      by_cases hc : p c = true
      · rw [if_pos hc, ← hk false true text]
        cases hrest : k false text with
        | some a => exact iff_of_true rfl (.inl ⟨hc, rfl⟩)
        | none =>
          dsimp only
          rw [hk atStart true]
          simp
      · rw [if_neg hc, hk atStart true]
        exact (or_iff_right fun h => hc h.1).symm
  | seq first second ih₁ ih₂ =>
    rw [run, ih₁ hfree.1 (fun s s' rest => by
      rw [Bool.eq_iff_iff, ih₂ hfree.2 hk, ih₂ hfree.2 hk])]
    constructor
    · rintro ⟨front, back, rfl, hfirst, hsome⟩
      obtain ⟨mid, rest, rfl, hsecond, hsome⟩ := (ih₂ hfree.2 hk _ _).mp hsome
      exact ⟨front ++ mid, rest, (List.append_assoc _ _ _).symm, ⟨front, mid, rfl, hfirst, hsecond⟩,
        hsome⟩
    · rintro ⟨-, rest, rfl, ⟨front, mid, rfl, hfirst, hsecond⟩, hsome⟩
      refine ⟨front, mid ++ rest, List.append_assoc _ _ _, hfirst, ?_⟩
      exact (ih₂ hfree.2 hk _ _).mpr ⟨mid, rest, rfl, hsecond, hsome⟩
  | alt first second ih₁ ih₂ =>
    have ih₁ := ih₁ hfree.1 hk atStart text
    have ih₂ := ih₂ hfree.2 hk atStart text
    have hsplit : (∃ front back, text = front ++ back ∧ (Regex.alt first second).Matches front ∧
        (k true back).isSome = true) ↔
        (first.run atStart text k).isSome = true ∨ (second.run atStart text k).isSome = true := by
      rw [ih₁, ih₂]
      constructor
      · rintro ⟨front, back, heq, h | h, hsome⟩
        · exact .inl ⟨front, back, heq, h, hsome⟩
        · exact .inr ⟨front, back, heq, h, hsome⟩
      · rintro (⟨front, back, heq, h, hsome⟩ | ⟨front, back, heq, h, hsome⟩)
        · exact ⟨front, back, heq, .inl h, hsome⟩
        · exact ⟨front, back, heq, .inr h, hsome⟩
    rw [hsplit, run]
    cases first.run atStart text k with
    | some a => simp
    | none => simp
  | notAhead p => exact hfree.elim
  | start => exact hfree.elim

theorem testAll_iff {r : Regex} (hfree : r.Free) (text : List Char) :
    r.testAll text = true ↔ r.Matches text := by
  rw [testAll, run_isSome_iff hfree fun _ _ _ => rfl]
  constructor
  · rintro ⟨front, back, rfl, hmatch, hback⟩
    by_cases hnil : back = []
    · rw [hnil, List.append_nil]
      exact hmatch
    · rw [if_neg hnil] at hback
      cases hback
  · intro h
    exact ⟨text, [], (List.append_nil text).symm, h, rfl⟩

end Regex

end Lib
