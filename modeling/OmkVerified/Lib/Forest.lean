import Mathlib

/-!
# Regions of a forest

In a forest the ancestors of an element are comparable: directories above a path, domains above a
host. A region is given by the roots that cover it, and whether one region lies in another is
decided at finitely many roots.
-/

namespace Lib

/-- Any two elements above a third are comparable. -/
structure IsForest {α : Type*} (r : α → α → Prop) : Prop where
  refl : ∀ a, r a a
  trans : ∀ {a b c}, r a b → r b c → r a c
  chain : ∀ {a b c}, r a c → r b c → r a b ∨ r b a

/-- Some root lies above the element. -/
def Covered {α : Type*} (r : α → α → Prop) (roots : List α) (a : α) : Prop := ∃ root ∈ roots, r root a

section Covered

variable {α β : Type*} {r : α → α → Prop} {roots roots' : List α} {a b : α}

namespace IsForest

variable (hr : IsForest r)

include hr

theorem comap (f : β → α) : IsForest fun a b => r (f a) (f b) :=
  ⟨fun a => hr.refl (f a), hr.trans, hr.chain⟩

theorem covered_of_mem (h : a ∈ roots) : Covered r roots a := ⟨a, h, hr.refl a⟩

theorem covered_of_rel (h : Covered r roots a) (hab : r a b) : Covered r roots b := by
  obtain ⟨root, hmem, hroot⟩ := h
  exact ⟨root, hmem, hr.trans hroot hab⟩

theorem exists_root_of_covered (h : Covered r roots a) (h' : Covered r roots' a) :
    ∃ root ∈ roots ++ roots', r root a ∧ Covered r roots root ∧ Covered r roots' root := by
  obtain ⟨root, hmem, hroot⟩ := h
  obtain ⟨root', hmem', hroot'⟩ := h'
  rcases hr.chain hroot hroot' with habove | habove
  · exact ⟨root', List.mem_append_right _ hmem', hroot', ⟨root, hmem, habove⟩,
      hr.covered_of_mem hmem'⟩
  · exact ⟨root, List.mem_append_left _ hmem, hroot, hr.covered_of_mem hmem, ⟨root', hmem', habove⟩⟩

/-- A region that two lists of roots cover, less what a third one covers, lies in another one when
its roots do. -/
theorem region_iff (holes : List α) (p : α → Prop) (hp : ∀ {a b}, p a → r a b → p b) :
    (∀ a, Covered r roots a → Covered r roots' a → ¬ Covered r holes a → p a) ↔
      ∀ a ∈ roots ++ roots', Covered r roots a → Covered r roots' a → ¬ Covered r holes a → p a := by
  refine ⟨fun h a _ => h a, fun h a hcovered hcovered' hhole => ?_⟩
  obtain ⟨root, hmem, hroot, hleft, hright⟩ := hr.exists_root_of_covered hcovered hcovered'
  exact hp (h root hmem hleft hright fun hdenied => hhole (hr.covered_of_rel hdenied hroot)) hroot

end IsForest

end Covered

/-! ## Texts below a text -/

/-- The text is `parent` or goes on after a separator. -/
def Below {α : Type*} (separator : α) (parent child : List α) : Prop :=
  child = parent ∨ parent ++ [separator] <+: child

theorem below_iff {α : Type*} {separator : α} {parent child : List α} :
    Below separator parent child ↔ parent ++ [separator] <+: child ++ [separator] := by
  rw [Below, List.prefix_concat_iff, List.append_left_inj, eq_comm]

theorem isForest_below {α : Type*} (separator : α) : IsForest (Below separator) where
  refl _ := .inl rfl
  trans hab hbc := by
    rw [below_iff] at hab hbc ⊢
    exact hab.trans hbc
  chain hac hbc := by
    rw [below_iff] at hac hbc
    rw [below_iff, below_iff]
    exact List.prefix_or_prefix_of_prefix hac hbc

end Lib
