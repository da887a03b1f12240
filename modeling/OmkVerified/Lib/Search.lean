import Mathlib

/-!
# The first occurrence of a piece

A list is cut at the first place where a piece of it stands. What a search over an ordered list finds
comes first in that order.
-/

namespace Lib

variable {α : Type*} [DecidableEq α]

/-- What comes before and after the first occurrence of `piece`. -/
def cutFirst (piece : List α) : List α → Option (List α × List α)
  | [] => if piece = [] then some ([], []) else none
  | a :: text =>
    if piece.isPrefixOf (a :: text) then some ([], (a :: text).drop piece.length)
    else (cutFirst piece text).map fun parts => (a :: parts.1, parts.2)

variable {piece text before after : List α}

theorem cutFirst_eq_some (h : cutFirst piece text = some (before, after)) :
    text = before ++ piece ++ after := by
  induction text generalizing before with
  | nil =>
    unfold cutFirst at h
    split_ifs at h with hpiece
    cases h
    rw [hpiece]
    rfl
  | cons a text ih =>
    unfold cutFirst at h
    split_ifs at h with hpiece
    · cases h
      rw [List.isPrefixOf_iff_prefix] at hpiece
      exact (List.prefix_iff_eq_append.mp hpiece).symm
    · cases hrest : cutFirst piece text with
      | none =>
        rw [hrest] at h
        cases h
      | some parts =>
        rw [hrest] at h
        cases h
        rw [ih hrest]
        rfl

theorem cutFirst_eq_none_iff : cutFirst piece text = none ↔ ¬ piece <:+: text := by
  induction text with
  | nil =>
    unfold cutFirst
    rw [List.infix_nil]
    split_ifs with hpiece
    · exact iff_of_false (by simp) (not_not_intro hpiece)
    · exact iff_of_true rfl hpiece
  | cons a text ih =>
    unfold cutFirst
    rw [List.infix_cons_iff, not_or]
    split_ifs with hpiece
    · rw [List.isPrefixOf_iff_prefix] at hpiece
      exact iff_of_false (by simp) fun h => h.1 hpiece
    · rw [List.isPrefixOf_iff_prefix] at hpiece
      rw [Option.map_eq_none_iff, ih]
      exact (and_iff_right hpiece).symm

/-- Where no occurrence starts nothing is cut. -/
theorem cutFirst_append {front : List α}
    (h : ∀ k < front.length, ¬ piece <+: (front ++ text).drop k) :
    cutFirst piece (front ++ text) =
      (cutFirst piece text).map fun parts => (front ++ parts.1, parts.2) := by
  induction front with
  | nil => simp
  | cons a front ih =>
    have hfirst := h 0 (by simp)
    rw [List.drop_zero, List.cons_append, ← List.isPrefixOf_iff_prefix] at hfirst
    have ih := ih fun k hk => h (k + 1) (by simpa using hk)
    rw [List.cons_append, cutFirst, if_neg hfirst, ih, Option.map_map]
    rfl

/-- A first occurrence is found. -/
theorem cutFirst_of_suffix {a : α} {front : List α} (hnew : ¬ piece <:+: before)
    (hfront : before ++ [a] = front ++ piece) (after : List α) :
    cutFirst piece (before ++ a :: after) = some (front, after) := by
  have hne : piece ≠ [] := fun hnil => hnew (hnil ▸ List.nil_infix)
  have hlength := congrArg List.length hfront
  rw [List.length_append, List.length_append, List.length_singleton] at hlength
  have hpiece : 0 < piece.length := List.length_pos_of_ne_nil hne
  have htext : before ++ a :: after = front ++ (piece ++ after) := by
    rw [List.append_cons, hfront, List.append_assoc]
  rw [htext, cutFirst_append]
  · obtain ⟨first, rest, rfl⟩ := List.exists_cons_of_ne_nil hne
    rw [List.cons_append, cutFirst, if_pos]
    · simp
    · rw [List.isPrefixOf_iff_prefix]
      exact ⟨after, rfl⟩
  · intro k hk hpre
    apply hnew
    -- an occurrence that starts before the last one lies in what comes before the last element
    have hshort : k + piece.length ≤ before.length := by omega
    rw [← htext, List.drop_append_of_le_length (by omega)] at hpre
    have hdrop : piece <+: before.drop k :=
      List.prefix_of_prefix_length_le hpre (List.prefix_append _ _) (by
        rw [List.length_drop]
        omega)
    exact hdrop.isInfix.trans (List.drop_suffix k before).isInfix

theorem length_le_of_prefix_drop (h : cutFirst piece text = some (before, after)) {k : Nat}
    (hk : piece <+: text.drop k) : before.length ≤ k := by
  induction text generalizing before k with
  | nil =>
    unfold cutFirst at h
    split_ifs at h
    cases h
    exact Nat.zero_le k
  | cons a text ih =>
    unfold cutFirst at h
    split_ifs at h with hpiece
    · cases h
      exact Nat.zero_le k
    · cases hrest : cutFirst piece text with
      | none =>
        rw [hrest] at h
        cases h
      | some parts =>
        rw [hrest] at h
        cases h
        cases k with
        | zero => exact absurd (List.isPrefixOf_iff_prefix.mpr hk) hpiece
        | succ k => exact Nat.succ_le_succ (ih hrest hk)

omit [DecidableEq α] in
theorem not_infix_concat {a : α} (hnew : ¬ piece <:+: text) (hend : ¬ piece <:+ text ++ [a]) :
    ¬ piece <:+: text ++ [a] := by
  rintro ⟨front, back, heq⟩
  induction back using List.reverseRecOn with
  | nil => exact hend ⟨front, by rw [← heq, List.append_nil]⟩
  | append_singleton back last _ =>
    rw [← List.append_assoc] at heq
    exact hnew ⟨front, back, List.append_inj_left' heq rfl⟩

/-! ## Searching in an order -/

omit [DecidableEq α] in
theorem find?_first {r : α → α → Prop} {p : α → Bool} {places : List α} {a : α} (h : places.Pairwise r)
    (hfind : places.find? p = some a) : a ∈ places ∧ p a ∧ ∀ b ∈ places, p b → b = a ∨ r a b := by
  obtain ⟨ha, front, back, hplaces, hfront⟩ := List.find?_eq_some_iff_append.mp hfind
  subst hplaces
  have hback := (List.pairwise_cons.mp (List.pairwise_append.mp h).2.1).1
  refine ⟨by simp, ha, ?_⟩
  intro b hb hpb
  rcases List.mem_append.mp hb with hb | hb
  · have hno := hfront b hb
    rw [hpb] at hno
    cases hno
  · rcases List.mem_cons.mp hb with rfl | hb
    · exact .inl rfl
    · exact .inr (hback b hb)

section

variable {lines : List Nat} {search : Nat → Option Nat} {there : Set (Nat × Nat)} {r : Nat → Nat → Prop}

/-- Places in lines: the search of a line finds the first place in it, the lines are searched in order. -/
structure Searches (r : Nat → Nat → Prop) (lines : List Nat) (search : Nat → Option Nat)
    (there : Set (Nat × Nat)) : Prop where
  ordered : lines.Pairwise r
  /-- Every place lies in a line that is searched. -/
  covers : ∀ p ∈ there, p.1 ∈ lines
  found : ∀ {l c}, l ∈ lines → search l = some c →
    (l, c) ∈ there ∧ ∀ c', (l, c') ∈ there → c' = c ∨ r c c'
  missed : ∀ {l}, l ∈ lines → search l = none → ∀ c, (l, c) ∉ there

theorem Searches.findSome?_eq_some (h : Searches r lines search there) {p : Nat × Nat}
    (hp : (lines.findSome? fun l => (search l).map fun c => (l, c)) = some p) :
    p ∈ there ∧ ∀ q ∈ there, q = p ∨ r p.1 q.1 ∨ p.1 = q.1 ∧ r p.2 q.2 := by
  obtain ⟨front, l, back, hlines, hl, hfront⟩ := List.findSome?_eq_some_iff.mp hp
  obtain ⟨c, hc, rfl⟩ := Option.map_eq_some_iff.mp hl
  obtain ⟨hthere, hfirst⟩ := h.found (hlines ▸ by simp) hc
  refine ⟨hthere, ?_⟩
  rintro ⟨l', c'⟩ hq
  have hmem := h.covers _ hq
  have hordered := h.ordered
  rw [hlines] at hmem hordered
  have hback := (List.pairwise_cons.mp (List.pairwise_append.mp hordered).2.1).1
  rcases List.mem_append.mp hmem with hl' | hl'
  · have hsearched : l' ∈ lines := hlines ▸ List.mem_append_left _ hl'
    exact absurd hq (h.missed hsearched (Option.map_eq_none_iff.mp (hfront l' hl')) c')
  · rcases List.mem_cons.mp hl' with rfl | hl'
    · rcases hfirst c' hq with rfl | hr
      · exact .inl rfl
      · exact .inr (.inr ⟨rfl, hr⟩)
    · exact .inr (.inl (hback l' hl'))

theorem Searches.findSome?_eq_none (h : Searches r lines search there)
    (hnone : (lines.findSome? fun l => (search l).map fun c => (l, c)) = none) : there = ∅ := by
  rw [Set.eq_empty_iff_forall_notMem]
  rintro ⟨l, c⟩ hq
  have hl := List.findSome?_eq_none_iff.mp hnone l (h.covers _ hq)
  exact h.missed (h.covers _ hq) (Option.map_eq_none_iff.mp hl) c hq

end

end Lib

/-!
# Searching a range backwards

The last index of a range with a property, and the sum over the end of a list from an index on.
-/

namespace Lib

/-- `for (let i = start + count - 1; i >= start; i--) if (p(i)) return i`. -/
def searchBack (p : Nat → Bool) (start : Nat) : (count : Nat) → Option Nat
  | 0 => none
  | count + 1 => if p (start + count) then some (start + count) else searchBack p start count

variable {p : Nat → Bool} {start count i : Nat}

theorem searchBack_eq_none_iff :
    searchBack p start count = none ↔ ∀ i, start ≤ i → i < start + count → p i = false := by
  induction count with
  | zero =>
    refine iff_of_true rfl ?_
    intro i hi hi'
    omega
  | succ count ih =>
    unfold searchBack
    split_ifs with hp
    · refine iff_of_false (by simp) ?_
      intro h
      rw [h (start + count) (by omega) (by omega)] at hp
      exact Bool.noConfusion hp
    · rw [ih]
      constructor
      · intro h i hi hi'
        by_cases heq : i = start + count
        · rw [heq]
          simpa using hp
        · exact h i hi (by omega)
      · intro h i hi hi'
        exact h i hi (by omega)

theorem searchBack_eq_some_iff :
    searchBack p start count = some i ↔
      start ≤ i ∧ i < start + count ∧ p i = true ∧
        ∀ j, i < j → j < start + count → p j = false := by
  induction count with
  | zero =>
    refine iff_of_false (by simp [searchBack]) ?_
    rintro ⟨hle, hlt, -⟩
    omega
  | succ count ih =>
    unfold searchBack
    split_ifs with hp
    · rw [Option.some.injEq]
      constructor
      · rintro rfl
        exact ⟨by omega, by omega, hp, fun j hj hj' => by omega⟩
      · rintro ⟨hle, hlt, hpi, hlast⟩
        by_contra hne
        rw [hlast (start + count) (by omega) (by omega)] at hp
        exact Bool.noConfusion hp
    · rw [ih]
      constructor
      · rintro ⟨hle, hlt, hpi, hlast⟩
        refine ⟨hle, by omega, hpi, ?_⟩
        intro j hj hj'
        by_cases heq : j = start + count
        · rw [heq]
          simpa using hp
        · exact hlast j hj (by omega)
      · rintro ⟨hle, hlt, hpi, hlast⟩
        have hne : i ≠ start + count := by
          rintro rfl
          exact hp hpi
        exact ⟨hle, by omega, hpi, fun j hj hj' => hlast j hj (by omega)⟩

/-! ## Sums -/

/-- The sum of the sizes from `i` up to `stop`. -/
def sumFrom (sizes : Nat → Nat) (stop i : Nat) : Nat := ((List.range' i (stop - i)).map sizes).sum

variable {sizes : Nat → Nat} {stop : Nat}

theorem sumFrom_of_le (h : stop ≤ i) : sumFrom sizes stop i = 0 := by
  simp [sumFrom, Nat.sub_eq_zero_of_le h]

theorem sumFrom_eq_add (h : i < stop) :
    sumFrom sizes stop i = sizes i + sumFrom sizes stop (i + 1) := by
  obtain ⟨k, hk⟩ : ∃ k, stop - i = k + 1 := ⟨stop - i - 1, by omega⟩
  have hk' : stop - (i + 1) = k := by omega
  unfold sumFrom
  rw [hk, hk', List.range'_succ, List.map_cons, List.sum_cons]

theorem sumFrom_anti {j : Nat} (h : i ≤ j) : sumFrom sizes stop j ≤ sumFrom sizes stop i := by
  induction h with
  | refl => exact le_refl _
  | @step j _ ih =>
    refine le_trans ?_ ih
    by_cases hlt : j < stop
    · rw [sumFrom_eq_add hlt]
      exact Nat.le_add_left _ _
    · rw [sumFrom_of_le (by omega)]
      exact Nat.zero_le _

theorem sumFrom_skip {j : Nat} (h : i ≤ j) (hzero : ∀ k, i ≤ k → k < j → sizes k = 0) :
    sumFrom sizes stop i = sumFrom sizes stop j := by
  induction h with
  | refl => rfl
  | @step j hij ih =>
    rw [ih fun k hk hk' => hzero k hk (by omega)]
    by_cases hlt : j < stop
    · rw [sumFrom_eq_add hlt, hzero j hij (by omega), Nat.zero_add]
    · rw [sumFrom_of_le (by omega), sumFrom_of_le (by omega)]

end Lib
