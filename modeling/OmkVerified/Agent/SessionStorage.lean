import OmkVerified.Agent.Uuid
import OmkVerified.Lib.Interruptible

/-!
# Appends to a session

The append operations of `harness/session/session.ts` over the storages of `jsonl-storage.ts` and
`memory-storage.ts`: an append asks for an id, then for the leaf, and then its entry is stored. Each of them is
awaited, so that the steps of any number of appends can come in any order.
-/

namespace Agent.SessionStorage

open Lib Uuid

abbrev Id := List Char

/-- What is appended. A label is the only content that names another entry. -/
inductive Content (α : Type)
  | label (targetId : Id) (label : Option String)
  | other (value : α)

inductive Body (α : Type)
  | leaf (targetId : Option Id)
  | content (content : Content α)

structure Entry (α : Type) where
  id : Id
  parentId : Option Id
  body : Body α

variable {α : Type}

def leafIdAfterEntry (entry : Entry α) : Option Id :=
  match entry.body with
  | .leaf targetId => targetId
  | .content _ => some entry.id

/-- How far an append has got. -/
inductive Append (α : Type)
  | uncalled
  | called (content : Content α)
  /-- It has its id. -/
  | identified (content : Content α) (id : Id)
  /-- It has its parent too, and the entry is written to the file if there is one. -/
  | built (entry : Entry α)
  | settled

/-- The storage, the generator of the ids, and the appends by their numbers. -/
structure State (α : Type) where
  entries : List (Entry α)
  leafId : Option Id
  generator : Generator
  append : ℕ → Append α

def init : State α := ⟨[], none, .init, fun _ => .uncalled⟩

namespace State

variable (s : State α)

/-- `byId.has(id)`. -/
def has (id : Id) : Bool := s.entries.any (·.id = id)

def withAppend (n : ℕ) (append : Append α) : State α := { s with append := Function.update s.append n append }

end State

/-- `generateEntryId`: the first eight characters of a UUID if they are not taken, at last the whole one. What the
clock and the random bytes say at its calls are in `calls`. -/
def generateEntryId (has : Id → Bool) : (tries : ℕ) → Generator → (calls : ℕ → Call) → Id × Generator
  | 0, generator, calls => uuidv7 generator (calls 0)
  | tries + 1, generator, calls =>
    let uuid := uuidv7 generator (calls 0)
    if has (uuid.1.take 8) then generateEntryId has tries uuid.2 fun i => calls (i + 1)
    else (uuid.1.take 8, uuid.2)

inductive Action (α : Type)
  | call (n : ℕ) (content : Content α)
  | createEntryId (n : ℕ) (calls : ℕ → Call)
  | getLeafId (n : ℕ)
  | appendEntry (n : ℕ)
  /-- The entry could not be written to the file. -/
  | reject (n : ℕ)

/-- `appendLabel` looks for its target first. -/
def State.call (s : State α) (n : ℕ) (content : Content α) : State α :=
  match content with
  | .label targetId _ => if s.has targetId then s.withAppend n (.called content) else s.withAppend n .settled
  | .other _ => s.withAppend n (.called content)

def State.createEntryId (s : State α) (n : ℕ) (content : Content α) (calls : ℕ → Call) : State α :=
  let created := generateEntryId s.has 100 s.generator calls
  { s.withAppend n (.identified content created.1) with generator := created.2 }

/-- The append is rejected where the leaf is unknown. -/
def State.getLeafId (s : State α) (n : ℕ) (content : Content α) (id : Id) : State α :=
  if s.leafId.all s.has then s.withAppend n (.built ⟨id, s.leafId, .content content⟩) else s.withAppend n .settled

def State.appendEntry (s : State α) (n : ℕ) (entry : Entry α) : State α :=
  { s.withAppend n .settled with
    entries := s.entries ++ [entry]
    leafId := leafIdAfterEntry entry }

def step (s : State α) : Action α → Option (State α)
  | .call n content =>
    match s.append n with
    | .uncalled => some (s.call n content)
    | .called _ | .identified .. | .built _ | .settled => none
  | .createEntryId n calls =>
    match s.append n with
    | .called content => some (s.createEntryId n content calls)
    | .uncalled | .identified .. | .built _ | .settled => none
  | .getLeafId n =>
    match s.append n with
    | .identified content id => some (s.getLeafId n content id)
    | .uncalled | .called _ | .built _ | .settled => none
  | .appendEntry n =>
    match s.append n with
    | .built entry => some (s.appendEntry n entry)
    | .uncalled | .called _ | .identified .. | .settled => none
  | .reject n =>
    match s.append n with
    | .built _ => some (s.withAppend n .settled)
    | .uncalled | .called _ | .identified .. | .settled => none

/-! ## The tree -/

/-- `byId.get(id)`: the last entry of this id. -/
def getEntry (entries : List (Entry α)) (id : Id) : Option (Entry α) := entries.reverse.find? (·.id = id)

/-- The entries from the root to an entry, if its parents lead to a root. -/
def pathFrom (entries : List (Entry α)) : (fuel : ℕ) → Id → Option (List (Entry α))
  | 0, _ => none
  | fuel + 1, id =>
    match getEntry entries id with
    | none => none
    | some entry =>
      match entry.parentId with
      | none | some [] => some [entry]
      | some parentId => (pathFrom entries fuel parentId).map (· ++ [entry])

/-- `getPathToRoot(leafId)`. A path that visits each entry at most once is not longer than the entries. -/
def State.getPathToRoot (s : State α) : Option (List (Entry α)) :=
  match s.leafId with
  | none => some []
  | some leafId => pathFrom s.entries s.entries.length leafId

end Agent.SessionStorage

/-!
# Appends one after another

The short id of an entry is the upper part of a timestamp, so that it is the same for more than a minute, and it is
compared with the ids of the stored entries only. As long as an append gets its id when no other one is on its way
to the storage, ids are distinct and the entries are in one line.
-/

namespace Agent.SessionStorage

open Lib Uuid

variable {α : Type} {generator : Generator} {entries : List (Entry α)} {id : Id}

/-! ## Ids -/

/-- A generator as the module leaves it. -/
def Ready (generator : Generator) : Prop := generator = .init ∨ ∃ timestamp, generator.Started timestamp

/-- The clock is one that the bytes of a UUID have room for. -/
def InRange (generator : Generator) : Prop := generator.lastTimestamp < .some (2 ^ 48)

/-- The generator will not return this id. -/
def NeverReturned (generator : Generator) (id : Id) : Prop :=
  ∀ calls, InRange (generator.after calls) → id ∉ generator.uuids calls

theorem Ready.advance (h : Ready generator) (call : Call) : ∃ timestamp, (generator.advance call).Started timestamp := by
  rcases h with rfl | ⟨timestamp, hstarted⟩
  · exact ⟨_, started_advance_init⟩
  · obtain ⟨next, hnext, -⟩ := hstarted.advance call
    exact ⟨next, hnext⟩

theorem Ready.after (h : Ready generator) (calls : List Call) : Ready (generator.after calls) := by
  induction calls generalizing generator with
  | nil => exact h
  | cons call calls ih => exact ih (.inr (h.advance call))

theorem Ready.inRange (h : Ready generator) {calls : List Call} (hrange : InRange (generator.after calls)) :
    InRange generator := by
  rcases h with rfl | ⟨timestamp, hstarted⟩
  · exact WithBot.bot_lt_coe _
  · obtain ⟨last, hlast, hle⟩ := hstarted.after calls
    rw [InRange, hlast.lastTimestamp_eq] at hrange
    rw [InRange, hstarted.lastTimestamp_eq]
    exact (WithBot.coe_le_coe.mpr hle).trans_lt hrange

theorem after_append (generator : Generator) (front back : List Call) :
    generator.after (front ++ back) = (generator.after front).after back := List.foldl_append

theorem uuids_append (generator : Generator) (front back : List Call) :
    generator.uuids (front ++ back) = generator.uuids front ++ (generator.after front).uuids back := by
  induction front generalizing generator with
  | nil => rfl
  | cons call front ih => exact congrArg _ (ih _)

theorem NeverReturned.after (h : NeverReturned generator id) (calls : List Call) :
    NeverReturned (generator.after calls) id := by
  intro more hrange hmem
  rw [← after_append] at hrange
  refine h (calls ++ more) hrange ?_
  rw [uuids_append]
  exact List.mem_append_right _ hmem

theorem length_of_isUuid {uuid : Id} (h : IsUuid uuid) : uuid.length = 36 := by
  obtain ⟨groups, hlengths, -, rfl⟩ := h
  obtain ⟨a, groups, rfl, ha, hlengths⟩ := List.map_eq_cons_iff.mp hlengths
  obtain ⟨b, groups, rfl, hb, hlengths⟩ := List.map_eq_cons_iff.mp hlengths
  obtain ⟨c, groups, rfl, hc, hlengths⟩ := List.map_eq_cons_iff.mp hlengths
  obtain ⟨d, groups, rfl, hd, hlengths⟩ := List.map_eq_cons_iff.mp hlengths
  obtain ⟨e, groups, rfl, he, hlengths⟩ := List.map_eq_cons_iff.mp hlengths
  obtain rfl := List.map_eq_nil_iff.mp hlengths
  simp [List.intercalate, List.intersperse, ha, hb, hc, hd, he]

/-- What the generator returns is a UUID, which it does not return again. -/
theorem Ready.uuidv7 (h : Ready generator) (call : Call) (hrange : InRange (uuidv7 generator call).2) :
    (Uuid.uuidv7 generator call).1.length = 36 ∧
      NeverReturned (Uuid.uuidv7 generator call).2 (Uuid.uuidv7 generator call).1 := by
  obtain ⟨timestamp, hstarted⟩ := h.advance call
  refine ⟨?_, ?_⟩
  · have hbound : timestamp < 2 ^ 48 := by
      have hrange : (generator.advance call).lastTimestamp < .some (2 ^ 48) := hrange
      rw [hstarted.lastTimestamp_eq] at hrange
      exact WithBot.coe_lt_coe.mp hrange
    exact length_of_isUuid (formatUuid_carries hstarted hbound call.random).1
  · intro calls hafter hmem
    obtain ⟨later, ⟨last, hlast, -, hbound⟩, hlarger, random, heq⟩ := hstarted.returned hafter _ hmem
    exact (formatUuid_lt hstarted hlast hbound hlarger).ne heq

theorem length_of_mem_uuids (h : Ready generator) {calls : List Call} (hrange : InRange (generator.after calls))
    {uuid : Id} (huuid : uuid ∈ generator.uuids calls) : uuid.length = 36 := by
  induction calls generalizing generator with
  | nil => cases huuid
  | cons call calls ih =>
    have hnext : Ready (Uuid.uuidv7 generator call).2 := .inr (h.advance call)
    rcases List.mem_cons.mp huuid with rfl | hmem
    · exact (h.uuidv7 call (hnext.inRange hrange)).1
    · exact ih hnext hrange hmem

/-- Which UUID the id is made of. -/
theorem generateEntryId_spec (has : Id → Bool) (tries : ℕ) (generator : Generator) (calls : ℕ → Call) :
    ∃ made call, (generateEntryId has tries generator calls).2 = (Uuid.uuidv7 (generator.after made) call).2 ∧
      ((generateEntryId has tries generator calls).1 = (Uuid.uuidv7 (generator.after made) call).1 ∨
        ((generateEntryId has tries generator calls).1 = (Uuid.uuidv7 (generator.after made) call).1.take 8 ∧
          has ((Uuid.uuidv7 (generator.after made) call).1.take 8) = false)) := by
  induction tries generalizing generator calls with
  | zero => exact ⟨[], calls 0, rfl, .inl rfl⟩
  | succ tries ih =>
    rw [generateEntryId]
    by_cases htaken : has ((Uuid.uuidv7 generator (calls 0)).1.take 8) = true
    · rw [if_pos htaken]
      obtain ⟨made, call, hgenerator, hid⟩ := ih (Uuid.uuidv7 generator (calls 0)).2 fun i => calls (i + 1)
      exact ⟨calls 0 :: made, call, hgenerator, hid⟩
    · rw [if_neg htaken]
      exact ⟨[], calls 0, rfl, .inr ⟨rfl, Bool.eq_false_of_not_eq_true htaken⟩⟩

theorem Ready.generateEntryId (h : Ready generator) (has : Id → Bool) (tries : ℕ) (calls : ℕ → Call) :
    Ready (generateEntryId has tries generator calls).2 ∧
      (InRange (SessionStorage.generateEntryId has tries generator calls).2 → InRange generator) := by
  obtain ⟨made, call, hgenerator, -⟩ := generateEntryId_spec has tries generator calls
  have hafter : (Uuid.uuidv7 (generator.after made) call).2 = generator.after (made ++ [call]) := by
    rw [after_append]
    rfl
  rw [hgenerator, hafter]
  exact ⟨h.after _, h.inRange⟩

/-- An id of some length that is not in use, and that will not be returned again. -/
structure Free (entries : List (Entry α)) (generator : Generator) (id : Id) : Prop where
  ne_nil : id ≠ []
  unused : ∀ entry ∈ entries, entry.id ≠ id
  neverReturned : NeverReturned generator id

theorem generateEntryId_free (h : Ready generator) (hentries : ∀ entry ∈ entries, NeverReturned generator entry.id)
    {tries : ℕ} {calls : ℕ → Call}
    (hrange : InRange (generateEntryId (fun id => entries.any (·.id = id)) tries generator calls).2) :
    (∀ entry ∈ entries,
        NeverReturned (generateEntryId (fun id => entries.any (·.id = id)) tries generator calls).2 entry.id) ∧
      Free entries (generateEntryId (fun id => entries.any (·.id = id)) tries generator calls).2
        (generateEntryId (fun id => entries.any (·.id = id)) tries generator calls).1 := by
  obtain ⟨made, call, hgenerator, hid⟩ := generateEntryId_spec (fun id => entries.any (·.id = id)) tries generator calls
  have hafter : (Uuid.uuidv7 (generator.after made) call).2 = generator.after (made ++ [call]) := by
    rw [after_append]
    rfl
  rw [hgenerator] at hrange ⊢
  obtain ⟨hlength, hnever⟩ := (h.after made).uuidv7 call hrange
  have hmem : (Uuid.uuidv7 (generator.after made) call).1 ∈ generator.uuids (made ++ [call]) := by
    rw [uuids_append]
    exact List.mem_append_right _ List.mem_cons_self
  refine ⟨?_, ?_⟩
  · intro entry hentry
    rw [hafter]
    exact (hentries entry hentry).after _
  rcases hid with hid | ⟨hid, hunused⟩
  · refine ⟨?_, ?_, ?_⟩
    · rw [hid]
      intro hnil
      rw [hnil] at hlength
      cases hlength
    · intro entry hentry heq
      rw [hafter] at hrange
      refine hentries entry hentry _ hrange ?_
      rw [heq, hid]
      exact hmem
    · rw [hid]
      exact hnever
  · have hshort : ((Uuid.uuidv7 (generator.after made) call).1.take 8).length = 8 := by
      rw [List.length_take, hlength]
      rfl
    refine ⟨?_, ?_, ?_⟩
    · rw [hid]
      intro hnil
      rw [hnil] at hshort
      cases hshort
    · intro entry hentry heq
      rw [← hid, ← heq] at hunused
      have hused : entries.any (·.id = entry.id) = true :=
        List.any_eq_true.mpr ⟨entry, hentry, decide_eq_true rfl⟩
      rw [hused] at hunused
      cases hunused
    · -- what the generator returns is longer
      intro more hmore hshortMem
      rw [hid] at hshortMem
      have hready : Ready (Uuid.uuidv7 (generator.after made) call).2 := by
        rw [hafter]
        exact h.after _
      have hlong := length_of_mem_uuids hready hmore hshortMem
      rw [hshort] at hlong
      cases hlong

/-! ## The tree -/

/-- Every parent is the id of an entry that was stored before. -/
def ParentsEarlier (entries : List (Entry α)) : Prop :=
  ∀ front entry back, entries = front ++ entry :: back →
    ∀ parentId ∈ entry.parentId, ∃ earlier ∈ front, earlier.id = parentId

structure Tree (entries : List (Entry α)) : Prop where
  nodup : (entries.map Entry.id).Nodup
  parentsEarlier : ParentsEarlier entries

variable {entry : Entry α}

theorem tree_nil : Tree ([] : List (Entry α)) where
  nodup := List.nodup_nil
  parentsEarlier := by
    intro front entry back heq
    cases (List.append_eq_nil_iff.mp heq.symm).2

theorem tree_concat : Tree (entries ++ [entry]) ↔ Tree entries ∧ (∀ other ∈ entries, other.id ≠ entry.id) ∧
    ∀ parentId ∈ entry.parentId, ∃ earlier ∈ entries, earlier.id = parentId := by
  constructor
  · intro h
    have hnodup := h.nodup
    rw [List.map_append, List.nodup_append] at hnodup
    refine ⟨⟨hnodup.1, ?_⟩, ?_, ?_⟩
    · rintro front other back rfl
      exact h.parentsEarlier front other (back ++ [entry]) (by simp)
    · intro other hother
      exact hnodup.2.2 other.id (List.mem_map_of_mem hother) entry.id List.mem_cons_self
    · exact h.parentsEarlier entries entry [] rfl
  · rintro ⟨h, hunused, hparent⟩
    refine ⟨?_, ?_⟩
    · rw [List.map_append, List.nodup_append]
      refine ⟨h.nodup, List.nodup_singleton _, ?_⟩
      intro otherId hother lastId hlast
      obtain ⟨other, hmem, rfl⟩ := List.mem_map.mp hother
      rw [List.mem_singleton.mp hlast]
      exact hunused other hmem
    · intro front other back heq
      rcases List.eq_nil_or_concat back with rfl | ⟨back, last, rfl⟩
      · obtain ⟨rfl, hlast⟩ := List.append_inj' heq rfl
        obtain rfl := List.head_eq_of_cons_eq hlast
        exact hparent
      · have heq : entries ++ [entry] = (front ++ other :: back) ++ [last] := by
          rw [heq]
          simp
        exact h.parentsEarlier front other back (List.append_inj_left' heq rfl)

theorem getEntry_concat_self (entries : List (Entry α)) (entry : Entry α) :
    getEntry (entries ++ [entry]) entry.id = some entry := by
  rw [getEntry, List.reverse_append, List.reverse_singleton, List.singleton_append]
  exact List.find?_cons_of_pos (decide_eq_true rfl)

theorem getEntry_concat_of_ne (entries : List (Entry α)) (h : entry.id ≠ id) :
    getEntry (entries ++ [entry]) id = getEntry entries id := by
  rw [getEntry, List.reverse_append, List.reverse_singleton, List.singleton_append, getEntry]
  exact List.find?_cons_of_neg (by simpa using h)

theorem mem_of_getEntry (h : getEntry entries id = some entry) : entry ∈ entries :=
  List.mem_reverse.mp (List.mem_of_find?_eq_some h)

theorem pathFrom_concat (h : Tree (entries ++ [entry])) {fuel : ℕ} (hid : ∃ earlier ∈ entries, earlier.id = id) :
    pathFrom (entries ++ [entry]) fuel id = pathFrom entries fuel id := by
  obtain ⟨htree, hunused, -⟩ := tree_concat.mp h
  induction fuel generalizing id with
  | zero => rfl
  | succ fuel ih =>
    obtain ⟨earlier, hmem, rfl⟩ := hid
    rw [pathFrom, pathFrom, getEntry_concat_of_ne _ (hunused earlier hmem).symm]
    cases hfound : getEntry entries earlier.id with
    | none => rfl
    | some found =>
      dsimp only
      obtain ⟨front, back, hsplit⟩ := List.append_of_mem (mem_of_getEntry hfound)
      cases hparent : found.parentId with
      | none => rfl
      | some parentId =>
        obtain ⟨grand, hgrand, heq⟩ := htree.parentsEarlier front found back hsplit parentId hparent
        have hsame := ih ⟨grand, by rw [hsplit]; exact List.mem_append_left _ hgrand, heq⟩
        cases parentId with
        | nil => rfl
        | cons char chars =>
          dsimp only
          rw [hsame]

theorem pathFrom_succ {fuel : ℕ} {path : List (Entry α)} (h : pathFrom entries fuel id = some path) :
    pathFrom entries (fuel + 1) id = some path := by
  induction fuel generalizing id path with
  | zero => cases h
  | succ fuel ih =>
    rw [pathFrom] at h ⊢
    cases hfound : getEntry entries id with
    | none =>
      rw [hfound] at h
      cases h
    | some found =>
      rw [hfound] at h
      dsimp only at h ⊢
      split at h
      · exact h
      · exact h
      · obtain ⟨before, hbefore, rfl⟩ := Option.map_eq_some_iff.mp h
        rw [ih hbefore]
        rfl

theorem pathFrom_concat_self (h : Tree (entries ++ [entry])) :
    pathFrom (entries ++ [entry]) (entries ++ [entry]).length entry.id =
      match entry.parentId with
      | none | some [] => some [entry]
      | some parentId => (pathFrom entries entries.length parentId).map (· ++ [entry]) := by
  rw [List.length_append, List.length_singleton, pathFrom, getEntry_concat_self]
  dsimp only
  cases hparent : entry.parentId with
  | none => rfl
  | some parentId =>
    cases parentId with
    | nil => rfl
    | cons char chars =>
      dsimp only
      rw [pathFrom_concat h ((tree_concat.mp h).2.2 _ hparent)]

theorem pathFrom_isSome (h : Tree entries) (hid : ∃ earlier ∈ entries, earlier.id = id) :
    ∃ path, pathFrom entries entries.length id = some path := by
  induction entries using List.reverseRecOn generalizing id with
  | nil =>
    obtain ⟨earlier, hmem, -⟩ := hid
    cases hmem
  | append_singleton entries entry ih =>
    obtain ⟨htree, -, hparents⟩ := tree_concat.mp h
    obtain ⟨earlier, hmem, rfl⟩ := hid
    rcases List.mem_append.mp hmem with hmem | hlast
    · obtain ⟨path, hpath⟩ := ih htree ⟨earlier, hmem, rfl⟩
      refine ⟨path, ?_⟩
      rw [List.length_append, List.length_singleton]
      refine pathFrom_succ ?_
      rw [pathFrom_concat h ⟨earlier, hmem, rfl⟩]
      exact hpath
    · rw [List.mem_singleton.mp hlast, pathFrom_concat_self h]
      split
      · exact ⟨_, rfl⟩
      · exact ⟨_, rfl⟩
      · next parentId hparent =>
        obtain ⟨path, hpath⟩ := ih htree (hparents _ hparent)
        rw [hpath]
        exact ⟨_, rfl⟩

/-- Each entry behind `before` has the one before it as its parent, and the last one is the leaf. -/
inductive InLine (before : List (Entry α)) (leafId : Option Id) : List (Entry α) → Option Id → Prop
  | start : InLine before leafId before leafId
  | append {entries : List (Entry α)} {entry : Entry α} {leafId' : Option Id} (h : InLine before leafId entries leafId')
      (hparent : entry.parentId = leafId') (hne : entry.id ≠ []) :
      InLine before leafId (entries ++ [entry]) (some entry.id)

/-- The entries from the root to a leaf. -/
def pathTo (entries : List (Entry α)) : Option Id → Option (List (Entry α))
  | none => some []
  | some leafId => pathFrom entries entries.length leafId

theorem getPathToRoot_eq (s : State α) : s.getPathToRoot = pathTo s.entries s.leafId := by
  rw [State.getPathToRoot]
  cases s.leafId <;> rfl

/-- The leaf is stored. -/
def Known (entries : List (Entry α)) (leafId : Option Id) : Prop := ∀ id ∈ leafId, ∃ entry ∈ entries, entry.id = id

theorem InLine.path {before : List (Entry α)} {leafId leafId' : Option Id} (h : InLine before leafId entries leafId')
    (htree : Tree entries) (hleaf : Known before leafId) :
    ∃ appended path, entries = before ++ appended ∧ (leafId' = some [] → appended = []) ∧
      pathTo entries leafId' = some path ∧ ∀ entry ∈ appended, entry ∈ path := by
  induction h with
  | start =>
    have hpath : ∃ path, pathTo before leafId = some path := by
      cases leafId with
      | none => exact ⟨[], rfl⟩
      | some id => exact pathFrom_isSome htree (hleaf id rfl)
    obtain ⟨path, hpath⟩ := hpath
    exact ⟨[], path, (List.append_nil _).symm, fun _ => rfl, hpath, fun _ hentry => (nomatch hentry)⟩
  | @append entries entry leafId' _ hparent hne ih =>
    obtain ⟨appended, path, rfl, hempty, hpath, hall⟩ := ih (tree_concat.mp htree).1
    have hlast := pathFrom_concat_self htree
    rw [hparent] at hlast
    refine ⟨appended ++ [entry], ?_⟩
    have hentries : before ++ appended ++ [entry] = before ++ (appended ++ [entry]) := List.append_assoc _ _ _
    have hnot : some entry.id = some [] → appended ++ [entry] = [] := fun heq => absurd (Option.some.inj heq) hne
    cases leafId' with
    | none =>
      obtain rfl := Option.some.inj hpath
      refine ⟨[entry], hentries, hnot, hlast, fun other hother => ?_⟩
      rcases List.mem_append.mp hother with hmem | hmem
      · cases hall other hmem
      · exact hmem
    | some parentId =>
      cases parentId with
      | nil =>
        obtain rfl := hempty rfl
        exact ⟨[entry], hentries, hnot, hlast, fun _ hother => hother⟩
      | cons char chars =>
        have hpath : pathFrom (before ++ appended) (before ++ appended).length (char :: chars) = some path := hpath
        dsimp only at hlast
        rw [hpath] at hlast
        refine ⟨path ++ [entry], hentries, hnot, hlast, fun other hother => ?_⟩
        rcases List.mem_append.mp hother with hmem | hmem
        · exact List.mem_append_left _ (hall other hmem)
        · exact List.mem_append_right _ hmem

/-! ## Runs -/

/-- The append has its id and is not stored yet. -/
def Append.InProgress : Append α → Prop
  | .identified .. | .built _ => True
  | .uncalled | .called _ | .settled => False

/-- An id is only asked for when no other append is on its way. -/
def Alone (s : State α) : Action α → Prop
  | .createEntryId _ _ => ∀ n, ¬ (s.append n).InProgress
  | .call .. | .getLeafId _ | .appendEntry _ | .reject _ => True

/-- What holds between the steps, when `before` was stored and `leafId` the leaf. -/
structure Orderly (before : List (Entry α)) (leafId : Option Id) (s : State α) : Prop where
  tree : Tree s.entries
  inLine : InLine before leafId s.entries s.leafId
  known : Known s.entries s.leafId
  never : ∀ entry ∈ s.entries, NeverReturned s.generator entry.id
  alone : ∀ n m, (s.append n).InProgress → (s.append m).InProgress → n = m
  identified : ∀ n content id, s.append n = .identified content id → Free s.entries s.generator id
  built : ∀ n entry, s.append n = .built entry →
    Free s.entries s.generator entry.id ∧ entry.parentId = s.leafId ∧ ∃ content, entry.body = .content content

variable {before : List (Entry α)} {leafId : Option Id} {s s' : State α} {n : ℕ}

theorem Orderly.withAppend (h : Orderly before leafId s) {append : Append α} (happend : ¬ append.InProgress) :
    Orderly before leafId (s.withAppend n append) := by
  have hother : ∀ m, ((s.withAppend n append).append m).InProgress →
      (s.withAppend n append).append m = s.append m := by
    intro m hm
    by_cases hmn : m = n
    · have hself : (s.withAppend n append).append n = append := Function.update_self _ _ _
      rw [hmn, hself] at hm
      exact absurd hm happend
    · exact Function.update_of_ne hmn _ _
  refine ⟨h.tree, h.inLine, h.known, h.never, ?_, ?_, ?_⟩
  · intro m k hm hk
    have hm' := hother m hm
    have hk' := hother k hk
    rw [hm'] at hm
    rw [hk'] at hk
    exact h.alone m k hm hk
  · intro m content id hm
    have hsame := hother m (by rw [hm]; trivial)
    exact h.identified m content id (hsame.symm.trans hm)
  · intro m entry hm
    have hsame := hother m (by rw [hm]; trivial)
    exact h.built m entry (hsame.symm.trans hm)

theorem Orderly.call (h : Orderly before leafId s) (n : ℕ) (content : Content α) :
    Orderly before leafId (s.call n content) := by
  cases content with
  | label targetId label =>
    rw [State.call]
    split_ifs
    · exact h.withAppend id
    · exact h.withAppend id
  | other value => exact h.withAppend id

theorem Orderly.createEntryId (h : Orderly before leafId s) (hready : Ready s.generator)
    (hnone : ∀ m, ¬ (s.append m).InProgress) {content : Content α} {calls : ℕ → Call}
    (hrange : InRange (s.createEntryId n content calls).generator) :
    Orderly before leafId (s.createEntryId n content calls) := by
  obtain ⟨hnever, hfree⟩ := generateEntryId_free hready h.never hrange
  have hn : (s.createEntryId n content calls).append n = .identified content (generateEntryId s.has 100 s.generator calls).1 :=
    Function.update_self _ _ _
  have honly : ∀ m, ((s.createEntryId n content calls).append m).InProgress → m = n := by
    intro m hm
    by_contra hmn
    have hsame : (s.createEntryId n content calls).append m = s.append m := Function.update_of_ne hmn _ _
    rw [hsame] at hm
    exact hnone m hm
  refine ⟨h.tree, h.inLine, h.known, hnever, ?_, ?_, ?_⟩
  · intro m k hm hk
    rw [honly m hm, honly k hk]
  · intro m content' id hm
    obtain rfl := honly m (by rw [hm]; trivial)
    rw [hn] at hm
    cases hm
    exact hfree
  · intro m entry hm
    obtain rfl := honly m (by rw [hm]; trivial)
    rw [hn] at hm
    cases hm

theorem Orderly.getLeafId (h : Orderly before leafId s) {content : Content α} {id : Id}
    (hn : s.append n = .identified content id) : Orderly before leafId (s.getLeafId n content id) := by
  rw [State.getLeafId]
  split_ifs
  · have hother : ∀ m, m ≠ n →
        (s.withAppend n (.built ⟨id, s.leafId, .content content⟩)).append m = s.append m :=
      fun m hm => Function.update_of_ne hm _ _
    have hself : (s.withAppend n (.built ⟨id, s.leafId, .content content⟩)).append n =
        .built ⟨id, s.leafId, .content content⟩ := Function.update_self _ _ _
    have honly : ∀ m, ((s.withAppend n (.built ⟨id, s.leafId, .content content⟩)).append m).InProgress → m = n := by
      intro m hm
      by_contra hmn
      rw [hother m hmn] at hm
      exact hmn (h.alone m n hm (by rw [hn]; trivial))
    refine ⟨h.tree, h.inLine, h.known, h.never, ?_, ?_, ?_⟩
    · intro m k hm hk
      rw [honly m hm, honly k hk]
    · intro m content' id' hm
      obtain rfl := honly m (by rw [hm]; trivial)
      rw [hself] at hm
      cases hm
    · intro m entry hm
      obtain rfl := honly m (by rw [hm]; trivial)
      rw [hself] at hm
      cases hm
      exact ⟨h.identified m content id hn, rfl, content, rfl⟩
  · exact h.withAppend (fun hfalse => hfalse)

theorem Orderly.appendEntry (h : Orderly before leafId s) {entry : Entry α} (hn : s.append n = .built entry) :
    Orderly before leafId (s.appendEntry n entry) := by
  obtain ⟨hfree, hparent, content, hbody⟩ := h.built n entry hn
  have hleaf : leafIdAfterEntry entry = some entry.id := by rw [leafIdAfterEntry, hbody]
  have hnone : ∀ m, ¬ ((s.appendEntry n entry).append m).InProgress := by
    intro m hm
    by_cases hmn : m = n
    · have hself : (s.appendEntry n entry).append n = .settled := Function.update_self _ _ _
      rw [hmn, hself] at hm
      exact hm
    · have hother : (s.appendEntry n entry).append m = s.append m := Function.update_of_ne hmn _ _
      rw [hother] at hm
      exact hmn (h.alone m n hm (by rw [hn]; trivial))
  refine ⟨?_, ?_, ?_, ?_, ?_, ?_, ?_⟩
  · refine tree_concat.mpr ⟨h.tree, hfree.unused, ?_⟩
    rw [hparent]
    exact h.known
  · have hinLine := h.inLine.append hparent hfree.ne_nil
    rw [← hleaf] at hinLine
    exact hinLine
  · intro id hid
    have hid : id ∈ leafIdAfterEntry entry := hid
    rw [hleaf] at hid
    exact ⟨entry, List.mem_append_right _ List.mem_cons_self, Option.some.inj hid⟩
  · intro other hother
    rcases List.mem_append.mp hother with hmem | hmem
    · exact h.never other hmem
    · rw [List.mem_singleton.mp hmem]
      exact hfree.neverReturned
  · exact fun m _ hm => absurd hm (hnone m)
  · exact fun m _ _ hm => absurd (by rw [hm]; trivial) (hnone m)
  · exact fun m _ hm => absurd (by rw [hm]; trivial) (hnone m)

theorem ready_step (h : Ready s.generator) {action : Action α} (hstep : step s action = some s') :
    Ready s'.generator ∧ (InRange s'.generator → InRange s.generator) := by
  have hsame : ∀ s'' : State α, s''.generator = s.generator →
      Ready s''.generator ∧ (InRange s''.generator → InRange s.generator) := by
    intro s'' heq
    rw [heq]
    exact ⟨h, id⟩
  cases action with
  | call n content =>
    rw [step] at hstep
    split at hstep
    · obtain rfl := Option.some.inj hstep
      refine hsame _ ?_
      cases content with
      | label targetId label =>
        rw [State.call]
        split_ifs <;> rfl
      | other value => rfl
    all_goals cases hstep
  | createEntryId n calls =>
    rw [step] at hstep
    split at hstep
    · obtain rfl := Option.some.inj hstep
      exact h.generateEntryId _ _ _
    all_goals cases hstep
  | getLeafId n =>
    rw [step] at hstep
    split at hstep
    · obtain rfl := Option.some.inj hstep
      refine hsame _ ?_
      rw [State.getLeafId]
      split_ifs <;> rfl
    all_goals cases hstep
  | appendEntry n =>
    rw [step] at hstep
    split at hstep
    · obtain rfl := Option.some.inj hstep
      exact hsame _ rfl
    all_goals cases hstep
  | reject n =>
    rw [step] at hstep
    split at hstep
    · obtain rfl := Option.some.inj hstep
      exact hsame _ rfl
    all_goals cases hstep

theorem Orderly.step (h : Orderly before leafId s) (hready : Ready s.generator) {action : Action α}
    (halone : Alone s action) (hstep : step s action = some s') (hrange : InRange s'.generator) :
    Orderly before leafId s' := by
  cases action with
  | call n content =>
    rw [SessionStorage.step] at hstep
    split at hstep
    · obtain rfl := Option.some.inj hstep
      exact h.call n content
    all_goals cases hstep
  | createEntryId n calls =>
    rw [SessionStorage.step] at hstep
    split at hstep
    · obtain rfl := Option.some.inj hstep
      exact h.createEntryId hready halone hrange
    all_goals cases hstep
  | getLeafId n =>
    rw [SessionStorage.step] at hstep
    split at hstep
    · next content id hn =>
      obtain rfl := Option.some.inj hstep
      exact h.getLeafId hn
    all_goals cases hstep
  | appendEntry n =>
    rw [SessionStorage.step] at hstep
    split at hstep
    · next entry hn =>
      obtain rfl := Option.some.inj hstep
      exact h.appendEntry hn
    all_goals cases hstep
  | reject n =>
    rw [SessionStorage.step] at hstep
    split at hstep
    · obtain rfl := Option.some.inj hstep
      exact h.withAppend fun hfalse => hfalse
    all_goals cases hstep

/-- A session whose entries are a tree, no append on the way, and ids that the generator will not return. -/
structure Opened (s : State α) : Prop where
  tree : Tree s.entries
  known : Known s.entries s.leafId
  ready : Ready s.generator
  never : ∀ entry ∈ s.entries, NeverReturned s.generator entry.id
  idle : ∀ n, s.append n = .uncalled

theorem opened_init : Opened (init : State α) where
  tree := tree_nil
  known := fun _ hid => (nomatch hid)
  ready := .inl rfl
  never := fun _ hentry => (nomatch hentry)
  idle := fun _ => rfl

/-- The ids are distinct, parents were stored before, and what was appended is on the path from the leaf. -/
structure Linear (before : List (Entry α)) (s : State α) : Prop where
  nodup : (s.entries.map Entry.id).Nodup
  parentsEarlier : ParentsEarlier s.entries
  onPath : ∃ appended path, s.entries = before ++ appended ∧ s.getPathToRoot = some path ∧
    ∀ entry ∈ appended, entry ∈ path

/-- Appends of which none asks for its id while another one is on its way to the storage. -/
theorem appends_linear (h : Opened s) {actions : List (Action α)} (halone : Machine.Keeps step Alone s actions)
    (hrun : Machine.run step s actions = some s') (hrange : InRange s'.generator) : Linear s.entries s' := by
  have hstart : Orderly s.entries s.leafId s := by
    have hidle : ∀ n, ¬ (s.append n).InProgress := by
      intro n hn
      rw [h.idle n] at hn
      exact hn
    refine ⟨h.tree, .start, h.known, h.never, fun n _ hn => absurd hn (hidle n), ?_, ?_⟩
    · exact fun n _ _ hn => absurd (by rw [hn]; trivial) (hidle n)
    · exact fun n _ hn => absurd (by rw [hn]; trivial) (hidle n)
  have hkept : Ready s'.generator ∧ (InRange s'.generator → Orderly s.entries s.leafId s') := by
    refine @Machine.run_keeps _ _ step Alone
      (fun next => Ready next.generator ∧ (InRange next.generator → Orderly s.entries s.leafId next)) ?_ actions s s'
      ⟨h.ready, fun _ => hstart⟩ halone hrun
    intro state action next hstate hallowed hstep
    obtain ⟨hready, hback⟩ := ready_step hstate.1 hstep
    exact ⟨hready, fun hnext => (hstate.2 (hback hnext)).step hstate.1 hallowed hstep hnext⟩
  have horderly := hkept.2 hrange
  obtain ⟨appended, path, hentries, -, hpath, hall⟩ := horderly.inLine.path horderly.tree h.known
  refine ⟨horderly.tree.nodup, horderly.tree.parentsEarlier, appended, path, hentries, ?_, hall⟩
  rw [getPathToRoot_eq]
  exact hpath

def clock : ℕ → Call := fun _ => ⟨2 ^ 40, fun _ => 0⟩

/-- The second append asks for its id when the first one is stored. -/
def successive : List (Action ℕ) :=
  [.call 0 (.other 0), .call 1 (.other 1), .createEntryId 0 clock, .getLeafId 0, .appendEntry 0,
    .createEntryId 1 clock, .getLeafId 1, .appendEntry 1]

theorem not_inProgress_update {append : ℕ → Append α} (h : ∀ n, ¬ (append n).InProgress) {last : Append α}
    (hlast : ¬ last.InProgress) (m : ℕ) : ∀ n, ¬ (Function.update append m last n).InProgress := by
  intro n hn
  by_cases hnm : n = m
  · rw [hnm, Function.update_self] at hn
    exact hlast hn
  · rw [Function.update_of_ne hnm] at hn
    exact h n hn

theorem keeps_successive : Machine.Keeps step Alone (init : State ℕ) successive := by
  have hinit : ∀ n, ¬ ((init : State ℕ).append n).InProgress := fun _ hn => hn
  refine ⟨trivial, fun s₁ h₁ => ⟨trivial, fun s₂ h₂ => ⟨?_, fun s₃ h₃ => ⟨trivial, fun s₄ h₄ => ⟨trivial, fun s₅ h₅ =>
    ⟨?_, fun s₆ h₆ => ⟨trivial, fun s₇ h₇ => ⟨trivial, fun _ _ => trivial⟩⟩⟩⟩⟩⟩⟩⟩
  · obtain rfl := Option.some.inj h₁
    obtain rfl := Option.some.inj h₂
    exact not_inProgress_update (not_inProgress_update hinit id 0) id 1
  · obtain rfl := Option.some.inj h₁
    obtain rfl := Option.some.inj h₂
    obtain rfl := Option.some.inj h₃
    obtain rfl := Option.some.inj h₄
    obtain rfl := Option.some.inj h₅
    have happend : ∀ append : ℕ → Append ℕ, ∀ first second : Append ℕ,
        Function.update (Function.update (Function.update append 0 first) 0 second) 0 .settled =
          Function.update append 0 .settled := by
      intro append first second
      rw [Function.update_idem, Function.update_idem]
    have hcalled := not_inProgress_update (not_inProgress_update hinit (fun h => h : ¬ (Append.called (.other 0)).InProgress) 0)
      (fun h => h : ¬ (Append.called (.other 1)).InProgress) 1
    intro n hn
    refine not_inProgress_update hcalled (fun h => h : ¬ Append.settled.InProgress) 0 n ?_
    rw [← happend]
    exact hn

theorem appends_linear_successive :
    ∃ s' : State ℕ, Machine.run step init successive = some s' ∧ s'.entries.length = 2 ∧ Linear [] s' := by
  have hsome : (Machine.run step (init : State ℕ) successive).isSome = true := by decide
  obtain ⟨s', hrun⟩ := Option.isSome_iff_exists.mp hsome
  have hview : (Machine.run step (init : State ℕ) successive).map (fun s => (s.entries.length, s.generator)) =
      some (2, ⟨.some (2 ^ 40), 101⟩) := by
    decide
  rw [hrun] at hview
  obtain ⟨hlength, hgenerator⟩ := Prod.mk.inj (Option.some.inj hview)
  refine ⟨s', hrun, hlength, appends_linear opened_init keeps_successive hrun ?_⟩
  rw [InRange, hgenerator]
  decide

/-- The second append gets its id and its parent when the first one is not stored yet. -/
def overlapping : List (Action ℕ) :=
  [.call 0 (.other 0), .call 1 (.other 1), .createEntryId 0 clock, .getLeafId 0, .createEntryId 1 clock, .getLeafId 1,
    .appendEntry 0, .appendEntry 1]

/-- Both entries get the same id, and neither has a parent. -/
theorem appends_overlapping :
    ¬ ∀ (actions : List (Action ℕ)) (s' : State ℕ), Machine.run step init actions = some s' → Linear [] s' := by
  intro h
  have hsome : (Machine.run step (init : State ℕ) overlapping).isSome = true := by decide
  obtain ⟨s', hrun⟩ := Option.isSome_iff_exists.mp hsome
  have hnodup : (Machine.run step (init : State ℕ) overlapping).all
      (fun s => decide (s.entries.map Entry.id).Nodup) = false := by decide
  rw [hrun, Option.all_some, decide_eq_true (h overlapping s' hrun).nodup] at hnodup
  cases hnodup

end Agent.SessionStorage
