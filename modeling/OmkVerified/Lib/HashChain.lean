import Mathlib

/-!
# Hash chains

A list of records is a chain when each record bears its own number, points back to the digest of
the record before it, and passes its own check. When the digest of a record determines its number,
its link and a view of it, the last digest of a chain determines the views of all its records.
-/

namespace Lib

/-- How the records `ε` are numbered by `ν` and linked by the digests `δ`. -/
structure HashChain (ε ν δ : Type) where
  number : Nat → ν
  seq : ε → ν
  prev : ε → δ
  digest : ε → δ
  Sound : ε → Prop

namespace HashChain

variable {ε ν δ β : Type} (c : HashChain ε ν δ)

/-- The record can stand after `index` others, the last of which has the digest `prev`. -/
structure Follows (index : Nat) (prev : δ) (record : ε) : Prop where
  seq : c.seq record = c.number (index + 1)
  prev : c.prev record = prev
  sound : c.Sound record

/-- The records continue a chain of `index` records that ends with the digest `prev`. -/
def Chained : (index : Nat) → (prev : δ) → List ε → Prop
  | _, _, [] => True
  | index, prev, record :: records =>
    c.Follows index prev record ∧ Chained (index + 1) (c.digest record) records

/-- The digest that the next record points back to. -/
def head (prev : δ) (records : List ε) : δ := (records.getLast?.map c.digest).getD prev

theorem head_cons (prev : δ) (record : ε) (records : List ε) :
    c.head prev (record :: records) = c.head (c.digest record) records := by
  unfold head
  cases records with
  | nil => rfl
  | cons next records => rw [List.getLast?_cons_cons, List.getLast?_cons]; rfl

theorem head_concat (prev : δ) (records : List ε) (record : ε) :
    c.head prev (records ++ [record]) = c.digest record := by
  unfold head
  rw [List.getLast?_concat]
  rfl

/-- A chain and its last record. -/
theorem chained_concat {index : Nat} {prev : δ} {records : List ε} {record : ε} :
    c.Chained index prev (records ++ [record]) ↔
      c.Chained index prev records ∧
        c.Follows (index + records.length) (c.head prev records) record := by
  induction records generalizing index prev with
  | nil =>
    constructor
    · rintro ⟨h, -⟩
      exact ⟨trivial, h⟩
    · rintro ⟨-, h⟩
      exact ⟨h, trivial⟩
  | cons first records ih =>
    show c.Follows index prev first ∧ c.Chained (index + 1) (c.digest first) (records ++ [record]) ↔ _
    rw [ih, head_cons, List.length_cons, Nat.add_right_comm, Nat.add_assoc, ← and_assoc]
    rfl

theorem sound_of_chained {index : Nat} {prev : δ} {records : List ε}
    (h : c.Chained index prev records) : ∀ record ∈ records, c.Sound record := by
  induction records generalizing index prev with
  | nil => simp
  | cons first records ih =>
    intro record hmem
    rcases List.mem_cons.mp hmem with rfl | hmem
    · exact h.1.sound
    · exact ih h.2 record hmem

/-- A chain stays one when records are replaced by others with the same number, link and digest. -/
theorem chained_map {f : ε → ε} {index : Nat} {prev : δ} {records : List ε}
    (h : c.Chained index prev records)
    (hf : ∀ record ∈ records, c.seq (f record) = c.seq record ∧ c.prev (f record) = c.prev record ∧
      c.digest (f record) = c.digest record ∧ (c.Sound record → c.Sound (f record))) :
    c.Chained index prev (records.map f) := by
  induction records generalizing index prev with
  | nil => trivial
  | cons first records ih =>
    obtain ⟨hfollows, hrest⟩ := h
    obtain ⟨hseq, hprev, hdigest, hsound⟩ := hf first List.mem_cons_self
    have htail := ih hrest fun record hmem => hf record (List.mem_cons_of_mem _ hmem)
    refine ⟨⟨hseq.trans hfollows.seq, hprev.trans hfollows.prev, hsound hfollows.sound⟩, ?_⟩
    rw [hdigest]
    exact htail

/-- The last digest determines a chain from its beginning, up to the view. -/
theorem commits {view : ε → β} {first : δ} (hnumber : Function.Injective c.number)
    (hdigest : ∀ a b, c.Sound a → c.Sound b → c.digest a = c.digest b →
      c.seq a = c.seq b ∧ c.prev a = c.prev b ∧ view a = view b)
    {as bs : List ε} (ha : c.Chained 0 first as) (hb : c.Chained 0 first bs)
    (hlast : as.getLast?.map c.digest = bs.getLast?.map c.digest) : as.map view = bs.map view := by
  induction as using List.reverseRecOn generalizing bs with
  | nil =>
    have hnone : bs.getLast? = none := by simpa using hlast.symm
    rw [List.getLast?_eq_none_iff.mp hnone]
  | append_singleton as a ih =>
    rcases List.eq_nil_or_concat' bs with rfl | ⟨bs, b, rfl⟩
    · simp at hlast
    · rw [chained_concat] at ha hb
      obtain ⟨ha, hfollowsA⟩ := ha
      obtain ⟨hb, hfollowsB⟩ := hb
      have hsame : c.digest a = c.digest b := by
        simpa [List.getLast?_concat] using hlast
      obtain ⟨hseq, hprev, hview⟩ := hdigest a b hfollowsA.sound hfollowsB.sound hsame
      have hlength : as.length = bs.length := by
        rw [hfollowsA.seq, hfollowsB.seq] at hseq
        have := hnumber hseq
        omega
      have hheads : c.head first as = c.head first bs := by
        rw [← hfollowsA.prev, ← hfollowsB.prev, hprev]
      have hlast' : as.getLast?.map c.digest = bs.getLast?.map c.digest := by
        rcases List.eq_nil_or_concat' as with rfl | ⟨as, a', rfl⟩
        · rw [List.eq_nil_of_length_eq_zero hlength.symm]
        · rcases List.eq_nil_or_concat' bs with rfl | ⟨bs, b', rfl⟩
          · simp at hlength
          · rw [head_concat, head_concat] at hheads
            rw [List.getLast?_concat, List.getLast?_concat, Option.map_some, Option.map_some, hheads]
      rw [List.map_append, List.map_append, ih ha hb hlast', List.map_singleton, List.map_singleton,
        hview]

end HashChain

end Lib
