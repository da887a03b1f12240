import OmkVerified.CodingAgent.Session.Proofs.BranchedSessionProofs

/-!
# Cycles of parents

Loading a session checks its header and not the parents of its entries. The walks to the root end,
for the leaf and for every entry, exactly when no entry is its own ancestor.
-/

namespace CodingAgent

open Lib

/-- No entry reaches itself through its parents. -/
def Acyclic (byId : Index) : Prop :=
  ∀ entry, ¬ Relation.TransGen (fun a b => parentEntry byId a = some b) entry entry

/-- The walks to the root return, for the leaf and for every entry. -/
structure Manager.Terminates (platform : Platform) (m : Manager) : Prop where
  context : m.buildSessionContext platform ≠ .error .diverges
  branch : m.getBranch none ≠ .error .diverges
  contexts : ∀ e ∈ m.getEntries, m.contextAt platform (entryId e) ≠ .error .diverges
  branches : ∀ e ∈ m.getEntries, m.getBranch (entryId e) ≠ .error .diverges

/-! ## Walks in an index -/

variable {byId : Index} {entry : FileEntry}

theorem mem_values_of_parentEntry {a b : FileEntry} (h : parentEntry byId a = some b) :
    b ∈ byId.entries.map Prod.snd := by
  obtain ⟨-, hget⟩ := isKey_of_parentEntry h
  exact List.mem_map.mpr ⟨_, OrderedMap.get?_eq_some_iff.mp hget, rfl⟩

theorem Acyclic.pathTo_ne (h : Acyclic byId) (hentry : entry ∈ byId.entries.map Prod.snd) :
    pathTo byId entry ≠ .error .diverges := by
  have hends : Ends (parentEntry byId) entry :=
    ends_of_acyclic (fun _ _ => mem_values_of_parentEntry) (fun a _ => h a) hentry
  have hsome := hends.walk_isSome hentry (fun _ _ => mem_values_of_parentEntry)
    (show (byId.entries.map Prod.snd).length ≤ byId.size + 1 by simp [OrderedMap.size])
  obtain ⟨path, hpath⟩ := Option.isSome_iff_exists.mp hsome
  simp [pathTo, hpath]

theorem pathTo_of_cycle
    (h : Relation.TransGen (fun a b => parentEntry byId a = some b) entry entry) :
    pathTo byId entry = .error .diverges := by
  cases hwalk : walk (parentEntry byId) (byId.size + 1) entry with
  | none => simp [pathTo, hwalk]
  | some path => exact absurd h (Ends.not_transGen ⟨_, by rw [hwalk]; rfl⟩)

/-! ## The context of a path -/

theorem bind_pathContext_ne_iff {platform : Platform} :
    (pathTo byId entry >>= pathContext platform) ≠ .error .diverges ↔
      pathTo byId entry ≠ .error .diverges := by
  cases hpath : pathTo byId entry with
  | error e => simp [bind, Except.bind]
  | ok path => exact iff_of_true (pathContext_ne_diverges platform path) (by simp)

/-! ## A manager -/

theorem mem_values_of_get? {id : Option Json} (h : byId.get? id = some entry) :
    entry ∈ byId.entries.map Prod.snd :=
  List.mem_map.mpr ⟨_, OrderedMap.get?_eq_some_iff.mp h, rfl⟩

theorem Acyclic.branchFrom_ne (h : Acyclic byId) (id : Option Json) :
    branchFrom byId id ≠ .error .diverges := by
  unfold branchFrom
  split_ifs
  · split
    · rename_i entry hentry
      exact h.pathTo_ne (mem_values_of_get? hentry)
    · simp
  · simp

/-- The entry that a context starts from is an entry of the index. -/
theorem contextLeaf_mem {entries : List FileEntry} {leafId : Option Json} {leaf : FileEntry}
    (h : contextLeaf entries leafId (indexEntries entries) = some leaf) :
    leaf ∈ (indexEntries entries).entries.map Prod.snd := by
  have hlast : ∀ last, entries.getLast? = some last →
      last ∈ (indexEntries entries).entries.map Prod.snd := by
    intro last hlast
    obtain ⟨front, rfl⟩ := List.getLast?_eq_some_iff.mp hlast
    have hget : (indexEntries (front ++ [last])).get? (entryId last) = some last := by
      rw [indexEntries_append, OrderedMap.get?_set, if_pos rfl]
    exact mem_values_of_get? hget
  unfold contextLeaf at h
  simp only at h
  cases hfound : (if isTruthy leafId then (indexEntries entries).get? leafId else none) with
  | none =>
    rw [hfound] at h
    exact hlast leaf h
  | some found =>
    rw [hfound] at h
    obtain rfl : found = leaf := Option.some.inj h
    split_ifs at hfound
    exact mem_values_of_get? hfound

theorem Indexed.contextAt_ne {m : Manager} (hindexed : Indexed m) (h : Acyclic m.byId)
    (platform : Platform) (leafId : Option Json) :
    m.contextAt platform leafId ≠ .error .diverges := by
  rw [hindexed.byId_eq] at h
  unfold Manager.contextAt CodingAgent.buildSessionContext
  rw [hindexed.byId_eq]
  split_ifs
  · simp
  · split
    · simp
    · rename_i leaf hleaf
      exact bind_pathContext_ne_iff.mpr (h.pathTo_ne (contextLeaf_mem hleaf))

theorem Indexed.terminates_iff {m : Manager} (h : Indexed m) (platform : Platform) :
    m.Terminates platform ↔ Acyclic m.byId := by
  constructor
  · intro hterminates entry hcycle
    -- an entry on a cycle is the parent of another one, so its id finds it in the index
    obtain ⟨child, -, hparent⟩ := Relation.TransGen.tail'_iff.mp hcycle
    obtain ⟨⟨value, hvalue, htruthy, -⟩, hget⟩ := isKey_of_parentEntry hparent
    have hget' := hget
    rw [h.byId_eq] at hget'
    obtain ⟨hmem, hid⟩ := mem_of_get?_indexEntries hget'
    refine hterminates.branches entry hmem ?_
    have hkey : isTruthy (entryId entry) = true := by
      rw [hid, hvalue]
      exact htruthy
    have hstart : m.getBranch (entryId entry) = branchFrom m.byId (entryId entry) := by
      unfold Manager.getBranch
      rw [hid, hvalue]
      rfl
    rw [hstart]
    unfold branchFrom
    rw [if_pos hkey, hid, hget]
    exact pathTo_of_cycle hcycle
  · intro hacyclic
    exact ⟨h.contextAt_ne hacyclic platform _, hacyclic.branchFrom_ne _,
      fun _ _ => h.contextAt_ne hacyclic platform _, fun _ _ => hacyclic.branchFrom_ne _⟩

/-- In a session that was opened the walks return, for the leaf and for every entry, exactly when no
entry of the file is its own ancestor. -/
theorem openSession_terminates_iff {platform : Platform} {env : OpenEnvironment}
    {path cwd dir : String} {disk disk' : Disk} {m : Manager}
    (h : openSession platform env path cwd dir disk = (disk', .ok m)) :
    m.Terminates platform ↔ Acyclic m.byId :=
  (indexed_openSession h).terminates_iff platform

/-! ## A file with one message -/

def sampleOpenEnvironment : OpenEnvironment :=
  ⟨sampleUuid 1, sampleUuid 2, "2026-01-02T00:00:00.000Z", fun _ _ => sampleUuid 3, default, default,
    default⟩

/-- A session file with the message `a`, a child of `parentId`. -/
def messageDisk (parentId : Json) : Disk :=
  .set .empty "f" ⟨Utf8.encode (serializeFileEntries
    [sessionHeader "s" "2026-01-01T00:00:00.000Z" "/" none,
      makeEntry (.message (sampleMessage "user" "a")) "a" (some parentId)
        "2026-01-01T00:00:00.000Z"]), default⟩

/-- A session was opened, and its manager passes a check. -/
def opensWith (run : Disk × Result Manager) (check : Manager → Bool) : Bool :=
  match run.2 with
  | .ok m => check m
  | .error _ => false

theorem exists_of_opensWith {run : Disk × Result Manager} {check : Manager → Bool}
    (h : opensWith run check = true) : ∃ disk' m, run = (disk', .ok m) ∧ check m = true := by
  obtain ⟨disk', result⟩ := run
  cases result with
  | error e => exact absurd h (by simp [opensWith])
  | ok m => exact ⟨disk', m, rfl, h⟩

/-- A message that names itself as its parent is loaded, and the walk from it never ends. -/
theorem openSession_self_parent :
    ∃ disk' m, openSession samplePlatform sampleOpenEnvironment "f" "/" "d"
        (messageDisk (.str "a")) = (disk', .ok m) ∧
      ¬ m.Terminates samplePlatform := by
  have hopens : opensWith
      (openSession samplePlatform sampleOpenEnvironment "f" "/" "d" (messageDisk (.str "a")))
      (fun m => decide (m.getBranch none = .error .diverges)) = true := by
    decide +kernel
  obtain ⟨disk', m, hrun, hcheck⟩ := exists_of_opensWith hopens
  exact ⟨disk', m, hrun, fun h => h.branch (of_decide_eq_true hcheck)⟩

/-- The walks of a session with one message end. -/
theorem openSession_terminates_message :
    ∃ disk' m, openSession samplePlatform sampleOpenEnvironment "f" "/" "d" (messageDisk .null) =
        (disk', .ok m) ∧
      m.Terminates samplePlatform := by
  have hopens : opensWith
      (openSession samplePlatform sampleOpenEnvironment "f" "/" "d" (messageDisk .null))
      (fun m => decide (∀ e ∈ m.byId.entries.map Prod.snd, parentEntry m.byId e = none)) = true := by
    decide +kernel
  obtain ⟨disk', m, hrun, hcheck⟩ := exists_of_opensWith hopens
  refine ⟨disk', m, hrun, (openSession_terminates_iff hrun).mpr ?_⟩
  intro entry hcycle
  obtain ⟨_, -, hchild⟩ := Relation.TransGen.tail'_iff.mp hcycle
  obtain ⟨parent, hparent, -⟩ := Relation.TransGen.head'_iff.mp hcycle
  rw [of_decide_eq_true hcheck entry (mem_values_of_parentEntry hchild)] at hparent
  exact absurd hparent (by simp)

end CodingAgent
