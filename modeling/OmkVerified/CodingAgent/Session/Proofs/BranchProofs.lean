import OmkVerified.CodingAgent.Session.Proofs.EntryProofs

/-!
# Branches

The index by id finds the last record with an id, so a branch that `getBranch` returns is a list of
records linked by their parent ids. A linked list of records is found again from its last record, in
the index of any records that contain it.
-/

namespace CodingAgent

open Lib

/-! ## The index by id -/

theorem indexEntries_append (entries : List FileEntry) (entry : FileEntry) :
    indexEntries (entries ++ [entry]) = (indexEntries entries).set (entryId entry) entry := by
  simp [indexEntries]

variable {entries : List FileEntry} {entry : FileEntry} {byId : Index}

theorem mem_of_get?_indexEntries {key : Option Json}
    (h : (indexEntries entries).get? key = some entry) : entry ∈ entries ∧ entryId entry = key := by
  induction entries using List.reverseRecOn with
  | nil => simp [indexEntries] at h
  | append_singleton entries last ih =>
    rw [indexEntries_append, OrderedMap.get?_set] at h
    split_ifs at h with hkey
    · obtain rfl := Option.some.inj h
      exact ⟨by simp, hkey.symm⟩
    · obtain ⟨hmem, hid⟩ := ih h
      exact ⟨List.mem_append_left _ hmem, hid⟩

theorem keys_indexEntries (entries : List FileEntry) (key : Option Json) :
    key ∈ (indexEntries entries).keys ↔ key ∈ entries.map entryId := by
  induction entries using List.reverseRecOn with
  | nil => simp [indexEntries]
  | append_singleton entries last ih =>
    rw [indexEntries_append, OrderedMap.mem_keys_set, ih]
    simp

theorem get?_indexEntries_of_nodup (h : (entries.map entryId).Nodup) (hmem : entry ∈ entries) :
    (indexEntries entries).get? (entryId entry) = some entry := by
  induction entries using List.reverseRecOn with
  | nil => simp at hmem
  | append_singleton entries last ih =>
    rw [List.map_append, List.nodup_append] at h
    rw [indexEntries_append, OrderedMap.get?_set]
    rcases List.mem_append.mp hmem with hmem | hmem
    · have hne : entryId entry ≠ entryId last :=
        h.2.2 (entryId entry) (List.mem_map_of_mem hmem) (entryId last) (by simp)
      rw [if_neg hne]
      exact ih h.1 hmem
    · rw [List.mem_singleton.mp hmem, if_pos rfl]

theorem get?_indexEntries_eq_none {key : Option Json} (h : key ∉ entries.map entryId) :
    (indexEntries entries).get? key = none := by
  rw [OrderedMap.get?_eq_none_iff, keys_indexEntries]
  exact h

/-! ## Linked lists of records -/

/-- An id that a parent field can name. -/
def IsKey (id : Option Json) : Prop :=
  ∃ value, id = some value ∧ value.truthy = true ∧ value.isPrimitive = true

/-- Records with distinct ids, each the parent of the next. -/
structure Linked (entries : List FileEntry) : Prop where
  keys : ∀ e ∈ entries, IsKey (entryId e)
  nodup : (entries.map entryId).Nodup
  links : entries.IsChain fun a b => entryParentId b = entryId a

theorem Linked.of_append {front back : List FileEntry} (h : Linked (front ++ back)) :
    Linked front where
  keys := fun e he => h.keys e (List.mem_append_left _ he)
  nodup := by
    have hnodup := h.nodup
    rw [List.map_append] at hnodup
    exact hnodup.of_append_left
  links := (List.isChain_append.mp h.links).1

theorem IsKey.ne_null {id : Option Json} (h : IsKey id) : id ≠ some .null := by
  rintro rfl
  obtain ⟨value, hvalue, htruthy, -⟩ := h
  obtain rfl := Option.some.inj hvalue
  exact Bool.noConfusion htruthy

theorem parentEntry_of_key (h : IsKey (entryParentId entry)) :
    parentEntry byId entry = byId.get? (entryParentId entry) := by
  obtain ⟨value, hvalue, htruthy, hprim⟩ := h
  unfold parentEntry
  rw [hvalue]
  simp [htruthy, hprim]

theorem isKey_of_parentEntry {parent : FileEntry} (h : parentEntry byId entry = some parent) :
    IsKey (entryParentId entry) ∧ byId.get? (entryParentId entry) = some parent := by
  unfold parentEntry at h
  cases hp : entryParentId entry with
  | none =>
    rw [hp] at h
    simp at h
  | some value =>
    rw [hp] at h
    simp only at h
    split_ifs at h with hkey
    rw [Bool.and_eq_true] at hkey
    exact ⟨⟨value, rfl, hkey.1, hkey.2⟩, h⟩

theorem prefixParent_of_key (h : IsKey (entryParentId entry)) :
    prefixParent byId entry = byId.get? (entryParentId entry) := by
  have hnull := h.ne_null
  obtain ⟨value, hvalue, -, hprim⟩ := h
  unfold prefixParent lookupEntry
  rw [if_neg hnull, hvalue]
  simp [hprim]

/-- What a lookup function needs to walk a linked list. -/
structure WalksLinked (parent : FileEntry → Option FileEntry) (entries : List FileEntry) : Prop where
  linked : Linked entries
  find : ∀ e ∈ entries, ∀ child ∈ entries, entryParentId child = entryId e → parent child = some e
  root : ∀ e ∈ entries.head?, parent e = none

theorem WalksLinked.parentChain {parent : FileEntry → Option FileEntry}
    (h : WalksLinked parent entries) : ParentChain parent entries where
  root := h.root
  links := by
    have hlinks := h.linked.links
    have hfind := h.find
    clear h
    induction entries with
    | nil => exact List.isChain_nil
    | cons a entries ih =>
      cases entries with
      | nil => exact List.isChain_singleton _
      | cons b entries =>
        rw [List.isChain_cons_cons] at hlinks ⊢
        refine ⟨hfind a (by simp) b (by simp) hlinks.1, ih hlinks.2 ?_⟩
        intro e he child hchild
        exact hfind e (List.mem_cons_of_mem _ he) child (List.mem_cons_of_mem _ hchild)

/-- A linked list is the walk from its last record. -/
theorem WalksLinked.walk_eq {parent : FileEntry → Option FileEntry} (h : WalksLinked parent entries)
    {last : FileEntry} (hlast : entries.getLast? = some last) {fuel : Nat}
    (hfuel : entries.length ≤ fuel) : walk parent fuel last = some entries :=
  walk_eq_some_iff.mpr ⟨hlast, h.parentChain, hfuel⟩

theorem length_le_size (h : (entries.map entryId).Nodup)
    (hstored : ∀ e ∈ entries, byId.get? (entryId e) = some e) : entries.length ≤ byId.size := by
  have hsub : ∀ k ∈ entries.map entryId, k ∈ byId.keys := by
    intro k hk
    obtain ⟨e, he, rfl⟩ := List.mem_map.mp hk
    by_contra hnot
    rw [← OrderedMap.get?_eq_none_iff, hstored e he] at hnot
    exact absurd hnot (by simp)
  have hlen := (List.Nodup.subperm h hsub).length_le
  simpa [OrderedMap.keys, OrderedMap.size] using hlen

/-- `getBranch` finds a linked list that the index holds. -/
theorem branchFrom_linked (h : Linked entries)
    (hstored : ∀ e ∈ entries, byId.get? (entryId e) = some e)
    (hroot : ∀ e ∈ entries.head?, parentEntry byId e = none) {last : FileEntry}
    (hlast : entries.getLast? = some last) : branchFrom byId (entryId last) = .ok entries := by
  have hmem : last ∈ entries := List.mem_of_getLast? hlast
  have hwalks : WalksLinked (parentEntry byId) entries := by
    refine ⟨h, ?_, hroot⟩
    intro e he child _ hparent
    have hkey : IsKey (entryParentId child) := hparent ▸ h.keys e he
    rw [parentEntry_of_key hkey, hparent]
    exact hstored e he
  have hlen := length_le_size h.nodup hstored
  have htruthy : isTruthy (entryId last) = true := by
    obtain ⟨value, hvalue, htruthy, -⟩ := h.keys last hmem
    simp [isTruthy, hvalue, htruthy]
  unfold branchFrom pathTo
  rw [if_pos htruthy, hstored last hmem]
  have hwalk : walk (parentEntry byId) (byId.size + 1) last = some entries :=
    hwalks.walk_eq hlast (by omega)
  simp only [hwalk]

/-- What `getBranch` returns. -/
structure BranchPath (byId : Index) (startId : Option Json) (path : List FileEntry) : Prop where
  linked : Linked path
  stored : ∀ e ∈ path, byId.get? (entryId e) = some e
  root : ∀ e ∈ path.head?, parentEntry byId e = none
  last : ∃ e, path.getLast? = some e ∧ entryId e = startId

/-- The result of `getBranch` in an index of records. -/
theorem branchPath_of_branchFrom {startId : Option Json}
    (hprim : startId.all Json.isPrimitive = true) {path : List FileEntry} (hne : path ≠ [])
    (h : branchFrom (indexEntries entries) startId = .ok path) :
    BranchPath (indexEntries entries) startId path := by
  unfold branchFrom at h
  split_ifs at h with htruthy
  · split at h
    · rename_i leaf hleaf
      unfold pathTo at h
      split at h
      · rename_i chain hchain
        obtain rfl := Except.ok.inj h
        obtain ⟨hlast, hpc, -⟩ := walk_eq_some_iff.mp hchain
        have hleafId : entryId leaf = startId := (mem_of_get?_indexEntries hleaf).2
        -- every record of the chain was found by its id
        have hfound : ∀ e ∈ chain, IsKey (entryId e) ∧
            (indexEntries entries).get? (entryId e) = some e := by
          intro e he
          obtain ⟨front, back, rfl⟩ := List.append_of_mem he
          cases back with
          | nil =>
            obtain rfl : e = leaf := by simpa using hlast
            refine ⟨?_, hleafId ▸ hleaf⟩
            rw [hleafId]
            cases startId with
            | none => simp [isTruthy] at htruthy
            | some value => exact ⟨value, rfl, by simpa [isTruthy] using htruthy, by simpa using hprim⟩
          | cons b back =>
            have hlinks := (List.isChain_append.mp hpc.links).2.1
            rw [List.isChain_cons_cons] at hlinks
            obtain ⟨hkey, hget⟩ := isKey_of_parentEntry hlinks.1
            have hid := (mem_of_get?_indexEntries hget).2
            rw [hid]
            exact ⟨hkey, hget⟩
        refine ⟨⟨fun e he => (hfound e he).1, ?_, ?_⟩, fun e he => (hfound e he).2, hpc.root,
          leaf, hlast, hleafId⟩
        · rw [List.nodup_map_iff_inj_on hpc.nodup]
          intro a ha b hb hab
          have heq := (hfound a ha).2
          rw [hab, (hfound b hb).2] at heq
          exact (Option.some.inj heq).symm
        · refine hpc.links.imp ?_
          intro a b hab
          obtain ⟨-, hget⟩ := isKey_of_parentEntry hab
          exact (mem_of_get?_indexEntries hget).2.symm
      · exact absurd h (by simp)
    · exact absurd (Except.ok.inj h).symm hne
  · exact absurd (Except.ok.inj h).symm hne

theorem BranchPath.root_not_mem {startId : Option Json} {path : List FileEntry}
    (h : BranchPath byId startId path) {e : FileEntry} (he : e ∈ path.head?) :
    entryParentId e ∉ path.map entryId := by
  intro hmem
  obtain ⟨x, hx, hid⟩ := List.mem_map.mp hmem
  have hroot := h.root e he
  rw [parentEntry_of_key (hid ▸ h.linked.keys x hx), ← hid, h.stored x hx] at hroot
  exact absurd hroot (by simp)

/-! ## Records in order

The records that a manager appends have distinct ids, and each names an earlier record as its
parent. -/

/-- The parent of an entry is absent, `null` or one of `entries`. -/
def NamesParent (entries : List FileEntry) (entry : FileEntry) : Prop :=
  entryParentId entry = none ∨ entryParentId entry = some .null ∨
    entryParentId entry ∈ entries.map entryId

/-- Records with distinct ids, each a child of an earlier one or a root. -/
structure Ordered (entries : List FileEntry) : Prop where
  keys : ∀ e ∈ entries, IsKey (entryId e)
  nodup : (entries.map entryId).Nodup
  parents : ∀ front e back, entries = front ++ e :: back → NamesParent front e

theorem ordered_nil : Ordered [] :=
  ⟨by simp, List.nodup_nil, fun front e back h => absurd h.symm (by simp)⟩

theorem Ordered.of_append {front back : List FileEntry} (h : Ordered (front ++ back)) :
    Ordered front where
  keys := fun e he => h.keys e (List.mem_append_left _ he)
  nodup := by
    have hnodup := h.nodup
    rw [List.map_append] at hnodup
    exact hnodup.of_append_left
  parents := by
    rintro a e b rfl
    exact h.parents a e (b ++ back) (by simp)

/-- One more record. -/
theorem Ordered.concat {entries : List FileEntry} (h : Ordered entries) {entry : FileEntry}
    (hkey : IsKey (entryId entry)) (hfresh : entryId entry ∉ entries.map entryId)
    (hparent : NamesParent entries entry) : Ordered (entries ++ [entry]) where
  keys := by
    intro e he
    rcases List.mem_append.mp he with he | he
    · exact h.keys e he
    · rw [List.mem_singleton.mp he]
      exact hkey
  nodup := by
    rw [List.map_append, List.nodup_append]
    refine ⟨h.nodup, List.nodup_singleton _, ?_⟩
    intro a ha b hb hab
    obtain rfl : b = entryId entry := by simpa using hb
    exact hfresh (hab ▸ ha)
  parents := by
    intro front e back hsplit
    rcases List.eq_nil_or_concat back with rfl | ⟨back, last, rfl⟩
    · obtain ⟨rfl, he⟩ := List.append_inj' hsplit rfl
      obtain rfl : entry = e := by simpa using he
      exact hparent
    · have hsplit' : entries ++ [entry] = (front ++ e :: back) ++ [last] := by
        rw [hsplit]
        simp
      obtain ⟨rfl, -⟩ := List.append_inj' hsplit' rfl
      exact h.parents front e back rfl

/-- The chain from a root to a record, within the records up to it. -/
structure ChainTo (entries : List FileEntry) (entry : FileEntry) (chain : List FileEntry) : Prop where
  linked : Linked chain
  last : chain.getLast? = some entry
  stored : ∀ x ∈ chain, x ∈ entries
  root : ∀ x ∈ chain.head?, entryParentId x = none ∨ entryParentId x = some .null

theorem ChainTo.mono {as bs : List FileEntry} {chain : List FileEntry} (h : ChainTo as entry chain)
    (hsub : ∀ a ∈ as, a ∈ bs) : ChainTo bs entry chain :=
  ⟨h.linked, h.last, fun x hx => hsub x (h.stored x hx), h.root⟩

theorem Ordered.exists_chain (h : Ordered entries) {e : FileEntry} {front back : List FileEntry}
    (hsplit : entries = front ++ e :: back) : ∃ chain, ChainTo (front ++ [e]) e chain := by
  -- by induction on the number of records before `e`
  induction hn : front.length using Nat.strong_induction_on generalizing front e back with
  | _ n ih =>
    have hkey : IsKey (entryId e) := h.keys e (by simp [hsplit])
    have hroot : entryParentId e = none ∨ entryParentId e = some .null →
        ∃ chain, ChainTo (front ++ [e]) e chain := by
      intro hparent
      refine ⟨[e], ⟨by simpa using hkey, by simp, List.isChain_singleton _⟩, rfl, by simp, ?_⟩
      intro x hx
      obtain rfl : e = x := by simpa using hx
      exact hparent
    rcases h.parents front e back hsplit with hnone | hnull | hmem
    · exact hroot (.inl hnone)
    · exact hroot (.inr hnull)
    · obtain ⟨p, hp, hid⟩ := List.mem_map.mp hmem
      obtain ⟨f1, f2, rfl⟩ := List.append_of_mem hp
      obtain ⟨chain, hchain⟩ := ih f1.length (by simp [← hn])
        (show entries = f1 ++ p :: (f2 ++ e :: back) by simpa using hsplit) rfl
      have hsub : ∀ x ∈ chain, x ∈ f1 ++ p :: f2 := by
        intro x hx
        have hmem := hchain.stored x hx
        simp only [List.mem_append, List.mem_cons] at hmem ⊢
        tauto
      have hfresh : entryId e ∉ chain.map entryId := by
        intro hin
        obtain ⟨x, hx, hxid⟩ := List.mem_map.mp hin
        have hnodup := h.nodup
        rw [hsplit, List.map_append, List.nodup_append] at hnodup
        exact hnodup.2.2 (entryId x) (List.mem_map_of_mem (hsub x hx)) (entryId e) (by simp) hxid
      have hne : chain ≠ [] := by
        rintro rfl
        exact absurd hchain.last (by simp)
      refine ⟨chain ++ [e], ⟨?_, ?_, ?_⟩, by simp, ?_, ?_⟩
      · intro x hx
        rcases List.mem_append.mp hx with hx | hx
        · exact hchain.linked.keys x hx
        · rw [List.mem_singleton.mp hx]
          exact hkey
      · rw [List.map_append, List.nodup_append]
        refine ⟨hchain.linked.nodup, by simp, ?_⟩
        intro a ha b hb hab
        obtain rfl : b = entryId e := by simpa using hb
        exact hfresh (hab ▸ ha)
      · rw [List.isChain_append]
        refine ⟨hchain.linked.links, List.isChain_singleton _, ?_⟩
        intro a ha b hb
        obtain rfl : p = a := Option.some.inj (hchain.last.symm.trans ha)
        obtain rfl : e = b := by simpa using hb
        exact hid.symm
      · intro x hx
        rcases List.mem_append.mp hx with hx | hx
        · exact List.mem_append_left _ (hsub x hx)
        · exact List.mem_append_right _ hx
      · rw [List.head?_append_of_ne_nil _ hne]
        exact hchain.root

theorem ChainTo.parentEntry_root {chain : List FileEntry} (h : ChainTo entries entry chain)
    (byId : Index) : ∀ x ∈ chain.head?, parentEntry byId x = none := by
  intro x hx
  unfold parentEntry
  rcases h.root x hx with hroot | hroot
  · rw [hroot]
  · rw [hroot]
    rfl

/-- `getBranch` returns the chain. -/
theorem ChainTo.branchFrom_eq (h : Ordered entries) {chain : List FileEntry}
    (hchain : ChainTo entries entry chain) :
    branchFrom (indexEntries entries) (entryId entry) = .ok chain :=
  branchFrom_linked hchain.linked
    (fun x hx => get?_indexEntries_of_nodup h.nodup (hchain.stored x hx))
    (hchain.parentEntry_root _) hchain.last

end CodingAgent
