import Mathlib

/-!
# Parent chains

Walking from a node to its root along a partial parent function. A walk is given fuel; it returns
the chain with the root first, or nothing when the fuel runs out. On a finite set of nodes as much
fuel as there are nodes decides whether the walk ends at all.
-/

namespace Lib

variable {α : Type*}

/-- The chain from the root to `node`. -/
def walk (parent : α → Option α) : (fuel : Nat) → (node : α) → Option (List α)
  | 0, _ => none
  | fuel + 1, node =>
    match parent node with
    | none => some [node]
    | some next => (walk parent fuel next).map (· ++ [node])

/-- Each node is the parent of the next, and the first has no parent. -/
structure ParentChain (parent : α → Option α) (chain : List α) : Prop where
  root : ∀ node ∈ chain.head?, parent node = none
  links : chain.IsChain fun a b => parent b = some a

variable {parent : α → Option α}

theorem ParentChain.append_node {chain : List α} {last node : α} (h : ParentChain parent chain)
    (hlast : chain.getLast? = some last) (hnode : parent node = some last) :
    ParentChain parent (chain ++ [node]) := by
  have hne : chain ≠ [] := by
    rintro rfl
    simp at hlast
  refine ⟨?_, ?_⟩
  · rw [List.head?_append_of_ne_nil _ hne]
    exact h.root
  · rw [List.isChain_append]
    refine ⟨h.links, List.isChain_singleton _, ?_⟩
    intro a ha b hb
    obtain rfl : last = a := by
      rw [hlast] at ha
      simpa using ha
    obtain rfl : node = b := by simpa using hb
    exact hnode

theorem ParentChain.of_append {front back : List α} (h : ParentChain parent (front ++ back)) :
    ParentChain parent front := by
  refine ⟨?_, (List.isChain_append.mp h.links).1⟩
  intro node hnode
  cases front with
  | nil => simp at hnode
  | cons a front => exact h.root node (by simpa using hnode)

theorem walk_eq_some_iff {fuel : Nat} {node : α} {chain : List α} :
    walk parent fuel node = some chain ↔
      chain.getLast? = some node ∧ ParentChain parent chain ∧ chain.length ≤ fuel := by
  induction fuel generalizing node chain with
  | zero =>
    simp only [walk, reduceCtorEq, false_iff, not_and]
    intro hlast _ hlen
    obtain rfl : chain = [] := List.length_eq_zero_iff.mp (by omega)
    simp at hlast
  | succ fuel ih =>
    cases hparent : parent node with
    | none =>
      simp only [walk, hparent, Option.some.injEq]
      constructor
      · rintro rfl
        refine ⟨rfl, ⟨?_, List.isChain_singleton _⟩, by simp⟩
        intro a ha
        obtain rfl : node = a := by simpa using ha
        exact hparent
      · rintro ⟨hlast, hchain, -⟩
        obtain ⟨front, rfl⟩ := List.getLast?_eq_some_iff.mp hlast
        cases hfront : front.getLast? with
        | none =>
          rw [List.getLast?_eq_none_iff] at hfront
          rw [hfront]
          rfl
        | some last =>
          have h := (List.isChain_append.mp hchain.links).2.2 last (by rw [hfront]; rfl) node
            (by simp)
          rw [hparent] at h
          exact absurd h (by simp)
    | some next =>
      simp only [walk, hparent, Option.map_eq_some_iff]
      constructor
      · rintro ⟨front, hfront, rfl⟩
        obtain ⟨hlast, hchain, hlen⟩ := ih.mp hfront
        refine ⟨by simp, hchain.append_node hlast hparent, ?_⟩
        rw [List.length_append]
        exact Nat.succ_le_succ hlen
      · rintro ⟨hlast, hchain, hlen⟩
        obtain ⟨front, rfl⟩ := List.getLast?_eq_some_iff.mp hlast
        refine ⟨front, ih.mpr ⟨?_, hchain.of_append, ?_⟩, rfl⟩
        · cases hfront : front.getLast? with
          | none =>
            rw [List.getLast?_eq_none_iff] at hfront
            subst hfront
            have h := hchain.root node (by simp)
            rw [hparent] at h
            exact absurd h (by simp)
          | some last =>
            have h := (List.isChain_append.mp hchain.links).2.2 last (by rw [hfront]; rfl) node
              (by simp)
            rw [← h, hparent]
        · simpa using hlen

/-- Two chains that end in the same node are equal. -/
theorem ParentChain.unique {chain chain' : List α} {node : α} (h : ParentChain parent chain)
    (h' : ParentChain parent chain') (hlast : chain.getLast? = some node)
    (hlast' : chain'.getLast? = some node) : chain = chain' := by
  have hwalk := (walk_eq_some_iff).mpr ⟨hlast, h, le_max_left chain.length chain'.length⟩
  have hwalk' := (walk_eq_some_iff).mpr ⟨hlast', h', le_max_right chain.length chain'.length⟩
  exact Option.some.inj (hwalk.symm.trans hwalk')

theorem ParentChain.nodup {chain : List α} (h : ParentChain parent chain) : chain.Nodup := by
  rw [List.nodup_iff_injective_get]
  intro i j hij
  have htake : ∀ k : Fin chain.length, ParentChain parent (chain.take (k + 1)) ∧
      (chain.take (k + 1)).getLast? = some (chain.get k) := by
    intro k
    refine ⟨?_, ?_⟩
    · rw [← List.take_append_drop (k + 1) chain] at h
      exact h.of_append
    · simp [List.getLast?_take]
  have heq := (htake i).1.unique (htake j).1 (htake i).2 (by rw [hij]; exact (htake j).2)
  have hlen := congrArg List.length heq
  have hi := i.isLt
  have hj := j.isLt
  simp only [List.length_take] at hlen
  exact Fin.ext (by omega)

/-- On finitely many nodes a walk that runs out of fuel never ends. -/
theorem walk_eq_none_of_nodes {nodes : List α} {node : α} (hnode : node ∈ nodes)
    (hparent : ∀ a b, parent a = some b → b ∈ nodes) (h : walk parent nodes.length node = none)
    (fuel : Nat) : walk parent fuel node = none := by
  rw [Option.eq_none_iff_forall_ne_some]
  intro chain hchain
  obtain ⟨hlast, hpc, -⟩ := (walk_eq_some_iff).mp hchain
  have hmem : ∀ a ∈ chain, a ∈ nodes := by
    intro a ha
    obtain ⟨front, back, rfl⟩ := List.append_of_mem ha
    cases back with
    | nil =>
      obtain rfl : a = node := by simpa using hlast
      exact hnode
    | cons b back =>
      have hlinks := (List.isChain_append.mp hpc.links).2.1
      rw [List.isChain_cons_cons] at hlinks
      exact hparent b a hlinks.1
  have hlen : chain.length ≤ nodes.length := by
    classical
    exact (List.Nodup.subperm hpc.nodup hmem).length_le
  rw [(walk_eq_some_iff).mpr ⟨hlast, hpc, hlen⟩] at h
  exact absurd h (by simp)

theorem walk_eq_none_of_closed {S : α → Prop} (hclosed : ∀ a, S a → ∃ b, parent a = some b ∧ S b)
    {node : α} (hnode : S node) (fuel : Nat) : walk parent fuel node = none := by
  induction fuel generalizing node with
  | zero => rfl
  | succ fuel ih =>
    obtain ⟨next, hparent, hnext⟩ := hclosed node hnode
    simp only [walk, hparent, ih hnext, Option.map_none]

/-! ## Lists -/

theorem eq_false_of_isChain {p : α → Bool} {a : α} {l : List α}
    (h : (a :: l).IsChain fun x y => p y = true → p x = true) (ha : p a = false) :
    ∀ x ∈ l, p x = false := by
  induction l generalizing a with
  | nil => simp
  | cons b l ih =>
    rw [List.isChain_cons_cons] at h
    have hb : p b = false := by
      by_contra hb
      rw [h.1 (by simpa using hb)] at ha
      exact Bool.noConfusion ha
    intro x hx
    rcases List.mem_cons.mp hx with rfl | hx
    · exact hb
    · exact ih h.2 hb x hx

theorem filter_prefix_of_isChain {p : α → Bool} {l : List α}
    (h : l.IsChain fun x y => p y = true → p x = true) :
    ∃ back, l = l.filter p ++ back ∧ ∀ x ∈ back, p x = false := by
  induction l with
  | nil => exact ⟨[], rfl, by simp⟩
  | cons a l ih =>
    by_cases ha : p a = true
    · obtain ⟨back, hl, hback⟩ := ih (List.isChain_cons.mp h).2
      refine ⟨back, ?_, hback⟩
      rw [List.filter_cons_of_pos ha, List.cons_append, ← hl]
    · rw [Bool.not_eq_true] at ha
      have hall := eq_false_of_isChain h ha
      refine ⟨a :: l, ?_, ?_⟩
      · rw [List.filter_eq_nil_iff.mpr, List.nil_append]
        intro x hx
        rcases List.mem_cons.mp hx with rfl | hx
        · simp [ha]
        · simp [hall x hx]
      · intro x hx
        rcases List.mem_cons.mp hx with rfl | hx
        · exact ha
        · exact hall x hx

theorem exists_last {p : α → Prop} {l : List α} (h : ∃ x ∈ l, p x) :
    ∃ front x back, l = front ++ x :: back ∧ p x ∧ ∀ y ∈ back, ¬p y := by
  classical
  induction l using List.reverseRecOn with
  | nil => simp at h
  | append_singleton l a ih =>
    by_cases ha : p a
    · exact ⟨l, a, [], rfl, ha, by simp⟩
    · have hl : ∃ x ∈ l, p x := by
        obtain ⟨x, hx, hpx⟩ := h
        rcases List.mem_append.mp hx with hx | hx
        · exact ⟨x, hx, hpx⟩
        · rw [List.mem_singleton.mp hx] at hpx
          exact absurd hpx ha
      obtain ⟨front, x, back, rfl, hx, hback⟩ := ih hl
      refine ⟨front, x, back ++ [a], by simp, hx, ?_⟩
      intro y hy
      rcases List.mem_append.mp hy with hy | hy
      · exact hback y hy
      · rw [List.mem_singleton.mp hy]
        exact ha

/-- The longest list that two lists both start with. -/
def commonPrefix [DecidableEq α] : List α → List α → List α
  | a :: as, b :: bs => if a = b then a :: commonPrefix as bs else []
  | _, _ => []

theorem commonPrefix_append [DecidableEq α] (front : List α) {as bs : List α}
    (h : ∀ a ∈ as.head?, a ∉ bs.head?) :
    commonPrefix (front ++ as) (front ++ bs) = front := by
  induction front with
  | nil =>
    cases as with
    | nil => rfl
    | cons a as =>
      cases bs with
      | nil => rfl
      | cons b bs =>
        have hne : a ≠ b := fun he => h a rfl (by rw [he]; rfl)
        simp [commonPrefix, hne]
  | cons x front ih => simp [commonPrefix, ih]

end Lib

/-!
# Cycles of a partial function

A search for the cycles of a partial function on finitely many nodes. From each node that is not
finished the search follows the function; it stops at a node without a successor, at a finished node
or at a node of its own path, which closes a cycle. The search finds none exactly when the walk from
every node ends.
-/

namespace Lib

variable {α : Type*}

/-- The walk from the node ends. -/
def Ends (next : α → Option α) (node : α) : Prop := ∃ fuel, (walk next fuel node).isSome

variable {next : α → Option α}

theorem ends_of_next_eq_none {node : α} (h : next node = none) : Ends next node :=
  ⟨1, by simp [walk, h]⟩

theorem ends_iff_of_next {node node' : α} (h : next node = some node') :
    Ends next node ↔ Ends next node' := by
  constructor
  · rintro ⟨fuel, hfuel⟩
    cases fuel with
    | zero => simp [walk] at hfuel
    | succ fuel => exact ⟨fuel, by simpa [walk, h] using hfuel⟩
  · rintro ⟨fuel, hfuel⟩
    exact ⟨fuel + 1, by simpa [walk, h] using hfuel⟩

theorem not_ends_of_closed {S : α → Prop} (hclosed : ∀ a, S a → ∃ b, next a = some b ∧ S b)
    {node : α} (hnode : S node) : ¬ Ends next node := by
  rintro ⟨fuel, hfuel⟩
  rw [walk_eq_none_of_closed hclosed hnode] at hfuel
  simp at hfuel

theorem Ends.not_transGen {node : α} (h : Ends next node) :
    ¬ Relation.TransGen (fun a b => next a = some b) node node := by
  intro hcycle
  refine not_ends_of_closed (S := fun a => Relation.ReflTransGen (fun a b => next a = some b) node a ∧
    Relation.TransGen (fun a b => next a = some b) a node) ?_ ⟨.refl, hcycle⟩ h
  rintro a ⟨hto, hfrom⟩
  obtain ⟨b, hb, hrest⟩ := Relation.TransGen.head'_iff.mp hfrom
  refine ⟨b, hb, hto.tail hb, ?_⟩
  -- from the last node before the cycle closes, go around once more
  rcases Relation.reflTransGen_iff_eq_or_transGen.mp hrest with rfl | hrest
  · exact hcycle
  · exact hrest

theorem not_ends_of_path {path : List α} {node : α}
    (hlinks : path.IsChain fun a b => next a = some b)
    (hlast : ∀ a ∈ path.getLast?, next a = some node) (hmem : node ∈ path) :
    ¬ Ends next node := by
  obtain ⟨front, back, rfl⟩ := List.append_of_mem hmem
  have hback : (node :: back).IsChain fun a b => next a = some b :=
    (List.isChain_append.mp hlinks).2.1
  have hend : ∀ a ∈ (node :: back).getLast?, next a = some node := by
    intro a ha
    refine hlast a ?_
    rw [List.getLast?_append]
    rw [Option.mem_def] at ha
    rw [ha]
    rfl
  refine not_ends_of_closed (S := fun a => a ∈ node :: back) ?_ (by simp)
  intro a ha
  obtain ⟨before, after, hsplit⟩ := List.append_of_mem ha
  rw [hsplit] at hback hend
  cases after with
  | nil => exact ⟨node, hend a (by simp), by simp⟩
  | cons b after =>
    have hab := (List.isChain_append.mp hback).2.1
    rw [List.isChain_cons_cons] at hab
    exact ⟨b, hab.1, by rw [hsplit]; simp⟩

/-- On finitely many nodes, a walk that ends does so within as many steps. -/
theorem Ends.walk_isSome {nodes : List α} {node : α} (h : Ends next node) (hnode : node ∈ nodes)
    (hnext : ∀ a b, next a = some b → b ∈ nodes) {fuel : Nat} (hfuel : nodes.length ≤ fuel) :
    (walk next fuel node).isSome := by
  cases hwalk : walk next nodes.length node with
  | none =>
    obtain ⟨fuel', hfuel'⟩ := h
    rw [walk_eq_none_of_nodes hnode hnext hwalk fuel'] at hfuel'
    simp at hfuel'
  | some chain =>
    obtain ⟨hlast, hchain, hlength⟩ := walk_eq_some_iff.mp hwalk
    rw [walk_eq_some_iff.mpr ⟨hlast, hchain, hlength.trans hfuel⟩]
    rfl

/-- On finitely many nodes, a walk from a node ends when no node is its own ancestor. -/
theorem ends_of_acyclic {nodes : List α} (hnext : ∀ a b, next a = some b → b ∈ nodes)
    (hacyclic : ∀ a ∈ nodes, ¬ Relation.TransGen (fun a b => next a = some b) a a) {node : α}
    (hnode : node ∈ nodes) : Ends next node := by
  let below : {a // a ∈ nodes} → {a // a ∈ nodes} → Prop := fun b a =>
    Relation.TransGen (fun a b => next a = some b) a.1 b.1
  have hfinite : Finite {a // a ∈ nodes} := nodes.finite_toSet.to_subtype
  have htrans : IsTrans _ below := ⟨fun _ _ _ hab hbc => hbc.trans hab⟩
  have hirrefl : Std.Irrefl below := ⟨fun a h => hacyclic a.1 a.2 h⟩
  have hwf : WellFounded below := Finite.wellFounded_of_trans_of_irrefl below
  have hall : ∀ a : {a // a ∈ nodes}, Ends next a.1 := by
    intro a
    induction a using hwf.induction with
    | h a ih =>
      cases hn : next a.1 with
      | none => exact ends_of_next_eq_none hn
      | some b => exact (ends_iff_of_next hn).mpr (ih ⟨b, hnext _ _ hn⟩ (.single hn))
  exact hall ⟨node, hnode⟩

/-- Walks along functions that agree on a closed set. -/
theorem walk_congr {next' : α → Option α} {S : α → Prop} (hsame : ∀ a, S a → next a = next' a)
    (hclosed : ∀ a b, S a → next a = some b → S b) {node : α} (hnode : S node) (fuel : Nat) :
    walk next fuel node = walk next' fuel node := by
  induction fuel generalizing node with
  | zero => rfl
  | succ fuel ih =>
    unfold walk
    rw [← hsame node hnode]
    cases hn : next node with
    | none => rfl
    | some node' => simp only [ih (hclosed node node' hnode hn)]

variable [DecidableEq α]

/-- Follows `next` from `current`: the nodes passed, and the cycle that they close. -/
def follow (next : α → Option α) (finished : List α) :
    (fuel : Nat) → (path : List α) → (current : Option α) → Option (List α × Option (List α))
  | 0, _, _ => none
  | _ + 1, path, none => some (path, none)
  | fuel + 1, path, some node =>
    if node ∈ finished then some (path, none)
    else if node ∈ path then some (path, some (path.drop (path.idxOf node)))
    else follow next finished fuel (path ++ [node]) (next node)

/-- The cycles found from the nodes. -/
def searchCycles (next : α → Option α) (fuel : Nat) : (finished : List α) → List α →
    Option (List (List α))
  | _, [] => some []
  | finished, node :: nodes =>
    if node ∈ finished then searchCycles next fuel finished nodes
    else
      match follow next finished fuel [] (some node) with
      | none => none
      | some (path, cycle) =>
        (searchCycles next fuel (finished ++ path) nodes).map (cycle.toList ++ ·)

/-! ## Termination -/

/-- A path without repetition inside a finite set leaves no room for more. -/
theorem follow_isSome {nodes finished : List α} (hnext : ∀ a b, next a = some b → b ∈ nodes)
    {fuel : Nat} {path : List α} {current : Option α} (hpath : path.Nodup)
    (hmem : ∀ a ∈ path, a ∈ nodes) (hcurrent : ∀ a ∈ current, a ∈ nodes)
    (hfuel : nodes.length < path.length + fuel) :
    (follow next finished fuel path current).isSome := by
  induction fuel generalizing path current with
  | zero =>
    have hlength := (hpath.subperm hmem).length_le
    omega
  | succ fuel ih =>
    cases current with
    | none => rfl
    | some node =>
      unfold follow
      split_ifs with hfinished hseen
      · rfl
      · rfl
      · refine ih ?_ ?_ (fun a ha => hnext node a ha) ?_
        · rw [List.nodup_append]
          refine ⟨hpath, by simp, ?_⟩
          intro a ha b hb heq
          rw [List.mem_singleton.mp hb] at heq
          exact hseen (heq ▸ ha)
        · intro a ha
          rcases List.mem_append.mp ha with ha | ha
          · exact hmem a ha
          · rw [List.mem_singleton.mp ha]
            exact hcurrent node rfl
        · rw [List.length_append, List.length_singleton]
          omega

theorem searchCycles_isSome {nodes starts : List α} (hnext : ∀ a b, next a = some b → b ∈ nodes)
    (hstarts : ∀ a ∈ starts, a ∈ nodes) {fuel : Nat} (hfuel : nodes.length < fuel)
    (finished : List α) : (searchCycles next fuel finished starts).isSome := by
  induction starts generalizing finished with
  | nil => rfl
  | cons node starts ih =>
    have hrest := ih fun a ha => hstarts a (List.mem_cons_of_mem _ ha)
    have hfollow : (follow next finished fuel [] (some node)).isSome := by
      refine follow_isSome hnext List.nodup_nil (by simp) ?_ (by simpa using hfuel)
      intro a ha
      obtain rfl : node = a := by simpa using ha
      exact hstarts node List.mem_cons_self
    obtain ⟨⟨path, cycle⟩, heq⟩ := Option.isSome_iff_exists.mp hfollow
    unfold searchCycles
    split_ifs
    · exact hrest finished
    · rw [heq]
      simpa using hrest (finished ++ path)

/-! ## What the search finds -/

/-- Without a cycle, the walks from the nodes passed end when those from the finished nodes do. -/
theorem follow_sound {finished : List α} (hfinished : ∀ a ∈ finished, Ends next a) {fuel : Nat}
    {path path' : List α} {current : Option α}
    (h : follow next finished fuel path current = some (path', none)) :
    (∀ a ∈ current, Ends next a) ∧ ∃ added, path' = path ++ added ∧ ∀ a ∈ added, Ends next a := by
  induction fuel generalizing path current with
  | zero => simp [follow] at h
  | succ fuel ih =>
    cases current with
    | none =>
      obtain rfl : path = path' := by simpa [follow] using h
      exact ⟨by simp, [], by simp⟩
    | some node =>
      unfold follow at h
      split_ifs at h with hmem hseen
      · obtain rfl : path = path' := by simpa using h
        refine ⟨?_, [], by simp⟩
        intro a ha
        obtain rfl : node = a := by simpa using ha
        exact hfinished node hmem
      · simp at h
      · obtain ⟨hnext, added, hadded, hends⟩ := ih h
        have hnode : Ends next node := by
          cases hn : next node with
          | none => exact ends_of_next_eq_none hn
          | some node' => exact (ends_iff_of_next hn).mpr (hnext node' hn)
        refine ⟨?_, node :: added, by simp [hadded], ?_⟩
        · intro a ha
          obtain rfl : node = a := by simpa using ha
          exact hnode
        · intro a ha
          rcases List.mem_cons.mp ha with rfl | ha
          · exact hnode
          · exact hends a ha

/-- A walk that ends meets no node of its path again. -/
theorem follow_complete {finished : List α} {fuel : Nat} {path path' : List α} {current : Option α}
    {cycle : Option (List α)} (hlinks : path.IsChain fun a b => next a = some b)
    (hlast : ∀ a ∈ path.getLast?, next a = current) (hends : ∀ a ∈ current, Ends next a)
    (h : follow next finished fuel path current = some (path', cycle)) : cycle = none := by
  induction fuel generalizing path current with
  | zero => simp [follow] at h
  | succ fuel ih =>
    cases current with
    | none =>
      simp only [follow, Option.some.injEq, Prod.mk.injEq] at h
      exact h.2.symm
    | some node =>
      unfold follow at h
      split_ifs at h with hmem hseen
      · simp only [Option.some.injEq, Prod.mk.injEq] at h
        exact h.2.symm
      · exact absurd (hends node rfl) (not_ends_of_path hlinks hlast hseen)
      · refine ih ?_ ?_ ?_ h
        · rw [List.isChain_append]
          refine ⟨hlinks, List.isChain_singleton _, ?_⟩
          intro a ha b hb
          obtain rfl : node = b := by simpa using hb
          exact hlast a ha
        · intro a ha
          obtain rfl : node = a := by simpa using ha
          rfl
        · intro a ha
          exact (ends_iff_of_next ha).mp (hends node rfl)

/-- The search finds no cycle exactly when every walk ends. -/
theorem searchCycles_eq_nil_iff {fuel : Nat} {starts finished : List α}
    (hsome : (searchCycles next fuel finished starts).isSome)
    (hfinished : ∀ a ∈ finished, Ends next a) :
    searchCycles next fuel finished starts = some [] ↔ ∀ a ∈ starts, Ends next a := by
  induction starts generalizing finished with
  | nil => simp [searchCycles]
  | cons node starts ih =>
    unfold searchCycles at hsome ⊢
    split_ifs at hsome ⊢ with hmem
    · rw [ih hsome hfinished]
      simp [hfinished node hmem]
    · cases hfollow : follow next finished fuel [] (some node) with
      | none =>
        rw [hfollow] at hsome
        simp at hsome
      | some result =>
        obtain ⟨path, cycle⟩ := result
        rw [hfollow] at hsome
        simp only [Option.isSome_map] at hsome
        simp only [Option.map_eq_some_iff, List.append_eq_nil_iff, Option.toList_eq_nil_iff]
        have hpath : cycle = none → Ends next node ∧ ∀ a ∈ finished ++ path, Ends next a := by
          rintro rfl
          obtain ⟨hnode, added, rfl, hadded⟩ := follow_sound hfinished hfollow
          refine ⟨hnode node rfl, ?_⟩
          intro a ha
          rcases List.mem_append.mp ha with ha | ha
          · exact hfinished a ha
          · exact hadded a (by simpa using ha)
        constructor
        · rintro ⟨cycles, hrest, hcycle, rfl⟩ a ha
          obtain ⟨hnode, hall⟩ := hpath hcycle
          rcases List.mem_cons.mp ha with rfl | ha
          · exact hnode
          · exact (ih hsome hall).mp hrest a ha
        · intro h
          have hcycle : cycle = none := by
            refine follow_complete List.IsChain.nil (by simp) ?_ hfollow
            intro a ha
            obtain rfl : node = a := by simpa using ha
            exact h node (by simp)
          obtain ⟨-, hall⟩ := hpath hcycle
          exact ⟨[], (ih hsome hall).mpr fun a ha => h a (List.mem_cons_of_mem _ ha), hcycle, rfl⟩

end Lib
