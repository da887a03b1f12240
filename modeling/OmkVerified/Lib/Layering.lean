import Mathlib

/-!
# Greedy layering

Numbered items with a relation `E i j` between an earlier and a later item ("`j` must come after
`i`"). The layer of an item in the greedy layering is one more than the last layer that holds an
item it must come after. This is the length of the longest chain of such items ending in it.
-/

namespace Lib.Layering

variable {E : ℕ → ℕ → Prop}

/-- `Chain E j k`: there is a chain `i₀ < i₁ < ⋯ < iₖ = j` with `E` between neighbours. -/
inductive Chain (E : ℕ → ℕ → Prop) : ℕ → ℕ → Prop
  | single (j : ℕ) : Chain E j 0
  | step {i j k : ℕ} (hlt : i < j) (he : E i j) (h : Chain E i k) : Chain E j (k + 1)

/-- `d` is the length of the longest chain ending in `j`. -/
def Depth (E : ℕ → ℕ → Prop) (j d : ℕ) : Prop := IsGreatest {k | Chain E j k} d

theorem Depth.unique {j d d' : ℕ} (h : Depth E j d) (h' : Depth E j d') : d = d' :=
  IsGreatest.unique h h'

/-- The depth of an item from the depths of the items it must come after: all are smaller than `t`,
and one of them is `t - 1` unless `t = 0`. -/
theorem depth_of_earlier {j t : ℕ} (hlow : ∀ i < j, E i j → ∃ d, Depth E i d ∧ d < t)
    (hhigh : t = 0 ∨ ∃ i < j, E i j ∧ Depth E i (t - 1)) : Depth E j t := by
  refine ⟨?_, ?_⟩
  · rcases hhigh with rfl | ⟨i, hlt, he, hd⟩
    · exact Chain.single j
    · rcases Nat.eq_zero_or_pos t with rfl | hpos
      · exact Chain.single j
      · obtain ⟨k, rfl⟩ : ∃ k, t = k + 1 := ⟨t - 1, by omega⟩
        exact Chain.step hlt he hd.1
  · intro k hk
    cases hk with
    | single => exact Nat.zero_le t
    | step hlt he h =>
      obtain ⟨d, hd, hdt⟩ := hlow _ hlt he
      have := hd.2 h
      omega

/-! ## Cutting a list into pieces -/

/-- The slices of `l` of length `n` that start at `0, n, 2 n, …`. -/
def slices {α : Type*} (n : ℕ) (l : List α) : List (List α) :=
  (List.range ((l.length + n - 1) / n)).map fun k => (l.drop (k * n)).take n

theorem length_le_of_mem_slices {α : Type*} {n : ℕ} {l c : List α} (h : c ∈ slices n l) :
    c.length ≤ n := by
  obtain ⟨k, -, rfl⟩ := List.mem_map.mp h
  simp

theorem sublist_of_mem_slices {α : Type*} {n : ℕ} {l c : List α} (h : c ∈ slices n l) :
    c.Sublist l := by
  obtain ⟨k, -, rfl⟩ := List.mem_map.mp h
  exact (List.take_sublist _ _).trans (List.drop_sublist _ _)

/-- The first `m` slices together are the first `m * n` elements. -/
theorem flatten_slices_upto {α : Type*} (n : ℕ) (l : List α) (m : ℕ) :
    ((List.range m).map fun k => (l.drop (k * n)).take n).flatten = l.take (m * n) := by
  induction m with
  | zero => simp
  | succ m ih =>
    rw [List.range_succ, List.map_append, List.flatten_append, ih, Nat.succ_mul,
      List.take_add]
    simp

theorem flatten_slices {α : Type*} {n : ℕ} (hn : 0 < n) (l : List α) :
    (slices n l).flatten = l := by
  unfold slices
  rw [flatten_slices_upto, List.take_of_length_le]
  have h := Nat.div_add_mod (l.length + n - 1) n
  have hm := Nat.mod_lt (l.length + n - 1) hn
  rw [Nat.mul_comm]
  omega

end Lib.Layering

/-!
# Batches

Items are picked batch by batch, each batch by a rule that knows what was picked before. What the rule
says of one batch holds of every batch, and an item that is only picked after another one comes in a
later batch.
-/

namespace Lib

variable {α : Type*} {Pick : List α → List α → Prop} {batches : List (List α)}

/-- Batches that are picked one after the other. -/
inductive Batches (Pick : List α → List α → Prop) : List (List α) → Prop
  | nil : Batches Pick []
  | concat {batches : List (List α)} {batch : List α} (h : Batches Pick batches)
      (hpick : Pick batches.flatten batch) : Batches Pick (batches ++ [batch])

/-- `a` is in a batch before one with `b`. -/
def Earlier (batches : List (List α)) (a b : α) : Prop :=
  ∃ front batch back, batches = front ++ batch :: back ∧ a ∈ front.flatten ∧ b ∈ batch

theorem Earlier.idxOf_lt [DecidableEq α] {a b : α} (h : Earlier batches a b)
    (hnodup : batches.flatten.Nodup) : batches.flatten.idxOf a < batches.flatten.idxOf b := by
  obtain ⟨front, batch, back, rfl, ha, hb⟩ := h
  rw [List.flatten_append] at hnodup ⊢
  have hnew : b ∉ front.flatten := by
    intro hmem
    have hb' : b ∈ (batch :: back).flatten := List.mem_flatten.mpr ⟨batch, List.mem_cons_self, hb⟩
    exact (List.nodup_append.mp hnodup).2.2 b hmem b hb' rfl
  rw [List.idxOf_append_of_mem ha, List.idxOf_append_of_notMem hnew]
  have hlt := List.idxOf_lt_length_of_mem ha
  omega

namespace Batches

theorem pick (h : Batches Pick batches) {front back : List (List α)} {batch : List α}
    (heq : batches = front ++ batch :: back) : Pick front.flatten batch := by
  induction h generalizing back with
  | nil => simp at heq
  | @concat batches last h hpick ih =>
    induction back using List.reverseRecOn with
    | nil =>
      obtain ⟨rfl, hlast⟩ := List.append_inj' heq rfl
      rw [← List.singleton_inj.mp hlast]
      exact hpick
    | append_singleton back final _ =>
      rw [← List.cons_append, ← List.append_assoc] at heq
      exact ih (List.append_inj_left' heq rfl)

theorem pick_of_mem (h : Batches Pick batches) {batch : List α} (hmem : batch ∈ batches) :
    ∃ done, Pick done batch := by
  obtain ⟨front, back, heq⟩ := List.append_of_mem hmem
  exact ⟨front.flatten, h.pick heq⟩

theorem nodup (h : Batches Pick batches)
    (hpick : ∀ done batch, Pick done batch → batch.Nodup ∧ ∀ a ∈ batch, a ∉ done) :
    batches.flatten.Nodup := by
  induction h with
  | nil => exact List.nodup_nil
  | concat _ hlast ih =>
    obtain ⟨hnodup, hnew⟩ := hpick _ _ hlast
    rw [List.flatten_append, List.flatten_singleton, List.nodup_append]
    refine ⟨ih, hnodup, ?_⟩
    rintro a ha b hb rfl
    exact hnew a hb ha

theorem earlier (h : Batches Pick batches) {a b : α}
    (hpick : ∀ done batch, Pick done batch → b ∈ batch → a ∈ done) (hb : b ∈ batches.flatten) :
    Earlier batches a b := by
  obtain ⟨batch, hbatch, hb⟩ := List.mem_flatten.mp hb
  obtain ⟨front, back, heq⟩ := List.append_of_mem hbatch
  exact ⟨front, batch, back, heq, hpick _ _ (h.pick heq) hb, hb⟩

end Batches

end Lib
