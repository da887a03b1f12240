import Mathlib

/-!
# Waiting for one another

Items that wait for other items. Finitely many items that each wait for one of them wait in a circle, and
when consumers are made to wait for producers as well, a circle appears exactly when a producer waits for a
consumer already.
-/

namespace Lib

open Relation

variable {α : Type*} {waits added : α → α → Prop}

theorem exists_cycle {items : List α} (hne : items ≠ [])
    (h : ∀ a ∈ items, ∃ b ∈ items, waits a b) : ∃ a ∈ items, TransGen waits a a := by
  by_contra hnone
  push Not at hnone
  let after : {a // a ∈ items} → {a // a ∈ items} → Prop := fun b a => TransGen waits a.1 b.1
  have hfinite : Finite {a // a ∈ items} := List.finite_toSet items
  have htrans : IsTrans _ after := ⟨fun _ _ _ hab hbc => hbc.trans hab⟩
  have hirrefl : Std.Irrefl after := ⟨fun a => hnone a.1 a.2⟩
  have hwf : WellFounded after := Finite.wellFounded_of_trans_of_irrefl after
  obtain ⟨first, hfirst⟩ := List.exists_mem_of_ne_nil items hne
  obtain ⟨a, -, hmin⟩ := hwf.has_min Set.univ ⟨⟨first, hfirst⟩, Set.mem_univ _⟩
  obtain ⟨b, hb, hab⟩ := h a.1 a.2
  exact hmin ⟨b, hb⟩ (Set.mem_univ _) (TransGen.single hab)

/-- A chain uses what was added or does not. -/
theorem transGen_or_added {a b : α} (h : TransGen (fun a b => waits a b ∨ added a b) a b) :
    TransGen waits a b ∨ ∃ c p, ReflTransGen (fun a b => waits a b ∨ added a b) a c ∧ added c p ∧
      ReflTransGen (fun a b => waits a b ∨ added a b) p b := by
  induction h with
  | single hstep =>
    rcases hstep with hwaits | hadded
    · exact .inl (.single hwaits)
    · exact .inr ⟨_, _, .refl, hadded, .refl⟩
  | tail hbefore hstep ih =>
    rcases ih with hold | ⟨c, p, hto, hadded, hfrom⟩
    · rcases hstep with hwaits | hadded
      · exact .inl (hold.tail hwaits)
      · exact .inr ⟨_, _, hbefore.to_reflTransGen, hadded, .refl⟩
    · exact .inr ⟨c, p, hto, hadded, hfrom.tail hstep⟩

variable {Consumer Producer : α → Prop}

/-- On the way to a consumer the first consumer is reached without what was added. -/
theorem reaches_consumer (hadded : ∀ a b, added a b → Consumer a) {p c : α}
    (h : ReflTransGen (fun a b => waits a b ∨ added a b) p c) (hc : Consumer c) :
    ∃ c', Consumer c' ∧ ReflTransGen waits p c' := by
  induction h using ReflTransGen.head_induction_on with
  | refl => exact ⟨c, hc, .refl⟩
  | head hstep _ ih =>
    rcases hstep with hwaits | hstep
    · obtain ⟨c', hc', hpath⟩ := ih
      exact ⟨c', hc', .head hwaits hpath⟩
    · exact ⟨_, hadded _ _ hstep, .refl⟩

/-- Consumers may wait for producers that wait for no consumer. -/
theorem acyclic_of_added (hwaits : ∀ a, ¬ TransGen waits a a)
    (hadded : ∀ c p, added c p → Consumer c ∧ Producer p)
    (hfree : ∀ p c, Producer p → Consumer c → ¬ ReflTransGen waits p c) (a : α) :
    ¬ TransGen (fun a b => waits a b ∨ added a b) a a := by
  intro hcycle
  rcases transGen_or_added hcycle with hold | ⟨c, p, hto, hedge, hfrom⟩
  · exact hwaits a hold
  · obtain ⟨hc, hp⟩ := hadded c p hedge
    obtain ⟨c', hc', hpath⟩ :=
      reaches_consumer (fun a b hab => (hadded a b hab).1) (hfrom.trans hto) hc
    exact hfree p c' hp hc' hpath

end Lib
