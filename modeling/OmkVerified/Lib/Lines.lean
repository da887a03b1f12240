import Mathlib

/-!
# Lines with a cursor

A text kept as lines, with a cursor in one of them. The lines around the cursor are a zipper: the lines above,
the current line cut at the cursor, the lines below. The text before the cursor and the text after it are
lists again, and what an edit does is best said about these two.
-/

namespace Lib.Lines

variable {α : Type} (sep : α)

/-- The lines joined by the separator. -/
def join (lines : List (List α)) : List α := [sep].intercalate lines

/-- The place of a cursor among lines. -/
structure Zipper (α : Type) where
  above : List (List α)
  left : List α
  right : List α
  below : List (List α)

namespace Zipper

def lines (z : Zipper α) : List (List α) := z.above ++ (z.left ++ z.right) :: z.below

/-- The text before the cursor. -/
def before (z : Zipper α) : List α := join sep (z.above ++ [z.left])

/-- The text after the cursor. -/
def after (z : Zipper α) : List α := join sep (z.right :: z.below)

/-- The lines `first :: rest` are put in at the cursor, which goes behind them. -/
def insert (z : Zipper α) : List (List α) → Zipper α
  | [] => z
  | [single] => { z with left := z.left ++ single }
  | first :: rest =>
    { z with above := z.above ++ (z.left ++ first) :: rest.dropLast, left := rest.getLastD [] }

end Zipper

theorem notMem_of_mem_splitOn {α : Type} [DecidableEq α] {sep : α} {text line : List α}
    (h : line ∈ text.splitOn sep) : sep ∉ line := by
  induction text generalizing line with
  | nil =>
    rw [List.splitOn_nil, List.mem_singleton] at h
    rw [h]
    exact List.not_mem_nil
  | cons c text ih =>
    rw [List.splitOn_cons_eq_if_modifyHead] at h
    split_ifs at h with hc
    · rcases List.mem_cons.mp h with rfl | h
      · exact List.not_mem_nil
      · exact ih h
    · cases hrest : text.splitOn sep with
      | nil => exact absurd hrest (List.splitOn_ne_nil sep text)
      | cons first rest =>
        rw [hrest, List.modifyHead_cons] at h
        rcases List.mem_cons.mp h with rfl | h
        · have hfirst : sep ∉ first := ih (hrest ▸ List.mem_cons_self)
          intro hmem
          rcases List.mem_cons.mp hmem with heq | hmem
          · exact hc (beq_iff_eq.mpr heq.symm)
          · exact hfirst hmem
        · exact ih (hrest ▸ List.mem_cons_of_mem first h)

@[simp] theorem join_singleton (line : List α) : join sep [line] = line := List.intercalate_singleton

theorem join_cons {line : List α} {lines : List (List α)} (h : lines ≠ []) :
    join sep (line :: lines) = line ++ sep :: join sep lines := by
  obtain ⟨next, rest, rfl⟩ := List.exists_cons_of_ne_nil h
  rw [join, List.intercalate_cons_cons]
  simp [join]

theorem join_append {front back : List (List α)} (hfront : front ≠ []) (hback : back ≠ []) :
    join sep (front ++ back) = join sep front ++ sep :: join sep back := by
  induction front with
  | nil => exact absurd rfl hfront
  | cons line front ih =>
    by_cases hf : front = []
    · rw [hf, List.singleton_append, join_cons sep hback, join_singleton]
    · have hne : front ++ back ≠ [] := List.append_ne_nil_of_left_ne_nil hf _
      rw [List.cons_append, join_cons sep hne, ih hf, join_cons sep hf]
      simp

theorem join_glue (front back : List (List α)) (a b : List α) :
    join sep (front ++ (a ++ b) :: back) = join sep (front ++ [a]) ++ join sep (b :: back) := by
  have hline : join sep ((a ++ b) :: back) = a ++ join sep (b :: back) := by
    by_cases hb : back = []
    · rw [hb, join_singleton, join_singleton]
    · rw [join_cons sep hb, join_cons sep hb, List.append_assoc]
  by_cases hf : front = []
  · rw [hf, List.nil_append, List.nil_append, join_singleton, hline]
  · rw [join_append sep hf (List.cons_ne_nil _ _), join_append sep hf (List.cons_ne_nil _ _), hline,
      join_singleton]
    simp

namespace Zipper

variable {sep} (z : Zipper α)

theorem join_lines : join sep z.lines = z.before sep ++ z.after sep := join_glue sep _ _ _ _

theorem before_append (above below : List (List α)) (a b right : List α) :
    (Zipper.mk above (a ++ b) right below).before sep = (Zipper.mk above a right below).before sep ++ b := by
  have h := join_glue sep above [] a b
  rw [join_singleton] at h
  exact h

theorem after_append (above below : List (List α)) (left a b : List α) :
    (Zipper.mk above left (a ++ b) below).after sep = a ++ (Zipper.mk above left b below).after sep := by
  have h := join_glue sep [] below a b
  rw [List.nil_append, List.nil_append, join_singleton] at h
  exact h

/-- The line break before a cursor in the first column. -/
theorem before_concat (above below below' : List (List α)) (line right right' : List α) :
    (Zipper.mk (above ++ [line]) [] right below).before sep =
      (Zipper.mk above line right' below').before sep ++ [sep] := by
  have hne : above ++ [line] ≠ [] := by simp
  have h := join_append sep hne (List.cons_ne_nil ([] : List α) [])
  rw [join_singleton] at h
  exact h

theorem after_cons (above above' below : List (List α)) (left left' line : List α) :
    (Zipper.mk above left [] (line :: below)).after sep =
      sep :: (Zipper.mk above' left' line below).after sep :=
  join_cons sep (List.cons_ne_nil line below)

theorem before_insert {inserted : List (List α)} (h : inserted ≠ []) :
    (z.insert inserted).before sep = z.before sep ++ join sep inserted := by
  obtain ⟨first, rest, rfl⟩ := List.exists_cons_of_ne_nil h
  cases rest with
  | nil =>
    rw [join_singleton]
    exact before_append _ z.below _ _ z.right
  | cons second rest =>
    have hrest : second :: rest ≠ [] := List.cons_ne_nil _ _
    have hsplit : (second :: rest).dropLast ++ [(second :: rest).getLastD []] = second :: rest := by
      rw [List.getLastD_eq_getLast?, List.getLast?_eq_some_getLast hrest]
      exact List.dropLast_append_getLast hrest
    have hlines : z.above ++ (z.left ++ first) :: (second :: rest).dropLast ++ [(second :: rest).getLastD []] =
        z.above ++ (z.left ++ first) :: (second :: rest) := by
      rw [List.append_assoc, List.cons_append, hsplit]
    change join sep (z.above ++ (z.left ++ first) :: (second :: rest).dropLast ++
      [(second :: rest).getLastD []]) = _
    rw [hlines, join_glue]
    rfl

@[simp] theorem after_insert (inserted : List (List α)) : (z.insert inserted).after sep = z.after sep := by
  rcases inserted with _ | ⟨first, _ | ⟨second, rest⟩⟩ <;> rfl

end Zipper

end Lib.Lines
