import OmkVerified.CodingAgent.Session.Run
import OmkVerified.CodingAgent.Session.Proofs.RebindProofs

/-!
# The maps of a manager

In every reachable state the index by id and the two label maps are the ones that `_buildIndex`
computes from the records in memory.
-/

namespace CodingAgent

open Lib

/-- The maps of a manager are those of its records. -/
structure Indexed (m : Manager) : Prop where
  byId : m.byId = (buildIndex m.fileEntries).byId
  labels : m.labelsById = (buildIndex m.fileEntries).labelsById
  timestamps : m.labelTimestampsById = (buildIndex m.fileEntries).labelTimestampsById

theorem buildIndex_append (entries : List FileEntry) (entry : FileEntry) :
    buildIndex (entries ++ [entry]) = (buildIndex entries).step entry := by
  simp [buildIndex]

@[simp]
theorem IndexState.applyLabel_byId (s : IndexState) (targetId label timestamp : Option Json) :
    (s.applyLabel targetId label timestamp).byId = s.byId := by
  unfold applyLabel
  split
  · split_ifs <;> rfl
  · rfl

@[simp]
theorem IndexState.applyLabel_leafId (s : IndexState) (targetId label timestamp : Option Json) :
    (s.applyLabel targetId label timestamp).leafId = s.leafId := by
  unfold applyLabel
  split
  · split_ifs <;> rfl
  · rfl

/-- The label maps after a label entry depend on the label maps before it only. -/
theorem IndexState.applyLabel_congr {s t : IndexState} (hl : s.labelsById = t.labelsById)
    (ht : s.labelTimestampsById = t.labelTimestampsById) (targetId label timestamp : Option Json) :
    (s.applyLabel targetId label timestamp).labelsById =
        (t.applyLabel targetId label timestamp).labelsById ∧
      (s.applyLabel targetId label timestamp).labelTimestampsById =
        (t.applyLabel targetId label timestamp).labelTimestampsById := by
  unfold applyLabel
  split
  · split_ifs
    · simp only [hl, ht, and_self]
    · simp only [hl, ht, and_self]
  · simp only [hl, ht, and_self]

/-- The id of the last entry, or `null`. -/
def lastLeaf (entries : List FileEntry) : Option Json :=
  match entries.getLast? with
  | some last => entryId last
  | none => some .null

/-- The index by id that `_buildIndex` makes, and the leaf that it leaves. -/
theorem buildIndex_eq (entries : List FileEntry) :
    (buildIndex entries).byId = indexEntries (entries.filter fun e => !isSession e) ∧
      (buildIndex entries).leafId = lastLeaf (entries.filter fun e => !isSession e) := by
  unfold lastLeaf
  induction entries using List.reverseRecOn with
  | nil => exact ⟨rfl, rfl⟩
  | append_singleton entries entry ih =>
    rw [buildIndex_append, List.filter_append]
    by_cases hs : isSession entry = true
    · simp [IndexState.step, hs, ih]
    · simp only [Bool.not_eq_true] at hs
      rw [List.filter_cons_of_pos (by simp [hs]), List.filter_nil, indexEntries_append, ← ih.1,
        List.getLast?_concat]
      unfold IndexState.step
      simp only [hs, Bool.false_eq_true, if_false]
      split_ifs
      · simp
      · exact ⟨rfl, rfl⟩

variable {m : Manager} {platform : Platform} {w : World}

theorem Indexed.byId_eq (h : Indexed m) : m.byId = indexEntries m.getEntries := by
  rw [h.byId, (buildIndex_eq _).1]
  rfl

theorem indexed_withIndex (m : Manager) (entries : List FileEntry) (sessionId : String) :
    Indexed (m.switchTo sessionId entries) :=
  ⟨rfl, rfl, rfl⟩

/-! ## Appending -/

/-- What `_appendEntry` does to the manager. -/
theorem appendEntry_cases (platform : Platform) (env : Environment) (entry : FileEntry) (w : World) :
    ((∃ e, (appendEntry platform env entry w).2 = .error e) ∧
        (appendEntry platform env entry w).1.manager = w.manager) ∨
      ((appendEntry platform env entry w).2 = .ok () ∧
        ∃ head flushed, (appendEntry platform env entry w).1.manager =
          { w.manager.accept entry with acceptedDurableHead := head, flushed := flushed }) := by
  unfold appendEntry
  split
  · split
    · exact .inl ⟨⟨_, rfl⟩, rfl⟩
    · split
      · exact .inl ⟨⟨_, rfl⟩, rfl⟩
      · rename_i head flushed _
        exact .inr ⟨rfl, head, flushed, rfl⟩
  · exact .inr ⟨rfl, w.manager.acceptedDurableHead, w.manager.flushed, rfl⟩

variable {entry : FileEntry} {env : Environment}

theorem Indexed.accept (h : Indexed m) (hsession : isSession entry = false)
    (hlabel : hasType entry "label" = false) : Indexed (m.accept entry) := by
  have hstep : buildIndex (m.fileEntries ++ [entry]) =
      { buildIndex m.fileEntries with
        byId := (buildIndex m.fileEntries).byId.set (entryId entry) entry
        leafId := entryId entry } := by
    rw [buildIndex_append]
    unfold IndexState.step
    simp [hsession, hlabel]
  refine ⟨?_, ?_, ?_⟩
  · show m.byId.set _ _ = (buildIndex (m.fileEntries ++ [entry])).byId
    rw [hstep, h.byId]
  · show m.labelsById = (buildIndex (m.fileEntries ++ [entry])).labelsById
    rw [hstep, h.labels]
  · show m.labelTimestampsById = (buildIndex (m.fileEntries ++ [entry])).labelTimestampsById
    rw [hstep, h.timestamps]

theorem Indexed.appendEntry (h : Indexed w.manager) (hsession : isSession entry = false)
    (hlabel : hasType entry "label" = false) :
    Indexed (appendEntry platform env entry w).1.manager := by
  rcases appendEntry_cases platform env entry w with ⟨-, hm⟩ | ⟨-, head, flushed, hm⟩
  · rw [hm]
    exact h
  · rw [hm]
    have haccept := h.accept hsession hlabel
    exact ⟨haccept.byId, haccept.labels, haccept.timestamps⟩

/-- `appendChild` is `_appendEntry` of a new entry. -/
theorem appendChild_eq (platform : Platform) (env : Environment) (payload : Payload)
    (parentId : Option Json) (w : World) :
    appendChild platform env payload parentId w =
      ((appendEntry platform env (makeEntry payload (w.manager.newId env) parentId env.now) w).1,
        (appendEntry platform env (makeEntry payload (w.manager.newId env) parentId env.now) w).2.map
          fun _ => w.manager.newId env) := by
  unfold appendChild
  simp only
  cases hres : appendEntry platform env
      (makeEntry payload (w.manager.newId env) parentId env.now) w with
  | mk w' r => cases r <;> rfl

theorem Indexed.appendChild (h : Indexed w.manager) {payload : Payload}
    (hlabel : payload.type ≠ "label") (parentId : Option Json) :
    Indexed (appendChild platform env payload parentId w).1.manager := by
  rw [appendChild_eq]
  refine h.appendEntry (isSession_makeEntry ..) ?_
  rw [hasType_makeEntry]
  exact decide_eq_false hlabel

/-- The label maps after a label entry was accepted and applied. -/
theorem Indexed.acceptLabel (h : Indexed m) (hsession : isSession entry = false)
    (hlabel : hasType entry "label" = true) {head : Option DurableHead} {flushed : Bool} :
    Indexed ({ m.accept entry with acceptedDurableHead := head, flushed := flushed }.withIndex
      ((Manager.index { m.accept entry with acceptedDurableHead := head, flushed := flushed }).applyLabel
        (entry.get? "targetId") (entry.get? "label") (entry.get? "timestamp"))) := by
  have hstep : buildIndex (m.fileEntries ++ [entry]) =
      IndexState.applyLabel
        { buildIndex m.fileEntries with
          byId := (buildIndex m.fileEntries).byId.set (entryId entry) entry
          leafId := entryId entry }
        (entry.get? "targetId") (entry.get? "label") (entry.get? "timestamp") := by
    rw [buildIndex_append]
    unfold IndexState.step
    simp [hsession, hlabel]
  have hcongr := IndexState.applyLabel_congr
    (s := Manager.index { m.accept entry with acceptedDurableHead := head, flushed := flushed })
    (t := { buildIndex m.fileEntries with
      byId := (buildIndex m.fileEntries).byId.set (entryId entry) entry
      leafId := entryId entry })
    h.labels h.timestamps (entry.get? "targetId") (entry.get? "label") (entry.get? "timestamp")
  refine ⟨?_, ?_, ?_⟩
  · show (IndexState.applyLabel _ _ _ _).byId = (buildIndex (m.fileEntries ++ [entry])).byId
    rw [hstep, IndexState.applyLabel_byId, IndexState.applyLabel_byId]
    show m.byId.set _ _ = _
    rw [h.byId]
  · show (IndexState.applyLabel _ _ _ _).labelsById =
      (buildIndex (m.fileEntries ++ [entry])).labelsById
    rw [hstep]
    exact hcongr.1
  · show (IndexState.applyLabel _ _ _ _).labelTimestampsById =
      (buildIndex (m.fileEntries ++ [entry])).labelTimestampsById
    rw [hstep]
    exact hcongr.2

/-- The fields of a label entry. -/
theorem get?_labelEntry (targetId : String) (label : Option String) (id : String)
    (parentId : Option Json) (timestamp : String) :
    (makeEntry (.label targetId label) id parentId timestamp).get? "targetId" =
        some (.str targetId) ∧
      (makeEntry (.label targetId label) id parentId timestamp).get? "label" = label.map .str ∧
      (makeEntry (.label targetId label) id parentId timestamp).get? "timestamp" =
        some (.str timestamp) := by
  cases parentId <;> cases label <;> exact ⟨rfl, rfl, rfl⟩

/-- What `appendLabelChange` does to the manager. -/
theorem appendLabelChange_cases (platform : Platform) (env : Environment) (targetId : String)
    (label : Option String) (w : World) :
    (appendLabelChange platform env targetId label w).1.manager = w.manager ∨
      ∃ entry, entry = makeEntry (.label targetId label) (w.manager.newId env) w.manager.leafId
          env.now ∧ ∃ m head flushed,
        m = { w.manager.accept entry with acceptedDurableHead := head, flushed := flushed } ∧
        (appendLabelChange platform env targetId label w).1.manager =
          m.withIndex (m.index.applyLabel (entry.get? "targetId") (entry.get? "label")
            (entry.get? "timestamp")) := by
  unfold appendLabelChange
  split_ifs
  · obtain ⟨h1, h2, h3⟩ := get?_labelEntry targetId label (w.manager.newId env) w.manager.leafId
      env.now
    unfold appendPayload
    rw [appendChild_eq]
    set entry := makeEntry (.label targetId label) (w.manager.newId env) w.manager.leafId env.now
    rcases appendEntry_cases platform env entry w with ⟨⟨e, herr⟩, hm⟩ | ⟨hok, head, flushed, hm⟩
    · left
      rw [herr]
      exact hm
    · right
      rw [hok]
      refine ⟨entry, rfl, _, head, flushed, rfl, ?_⟩
      rw [h1, h2, h3, ← hm]
      rfl
  · exact .inl rfl

theorem Indexed.appendLabelChange (h : Indexed w.manager) (targetId : String)
    (label : Option String) :
    Indexed (appendLabelChange platform env targetId label w).1.manager := by
  rcases appendLabelChange_cases platform env targetId label w with
    hm | ⟨entry, rfl, m, head, flushed, rfl, hm⟩
  · rw [hm]
    exact h
  · rw [hm]
    exact h.acceptLabel (isSession_makeEntry ..) (hasType_makeEntry ..)

/-! ## Runs -/

theorem Indexed.createBranchedSession {platform : Platform} {env : BranchEnvironment} {w : World}
    (h : Indexed w.manager) (leafId : String) :
    Indexed (createBranchedSession platform env leafId w).1.manager := by
  unfold CodingAgent.createBranchedSession
  split
  · exact h
  · exact h
  · split
    · exact h
    · rename_i copied _
      split_ifs
      · simp only [switchPersisted]
        split
        · exact h
        · exact ⟨rfl, rfl, rfl⟩
        · split_ifs
          · exact h
          · split
            · exact h
            · exact ⟨rfl, rfl, rfl⟩
      · exact indexed_withIndex _ _ _

theorem Indexed.run (h : Indexed w.manager) (op : Operation) :
    Indexed (op.run platform w).manager := by
  cases op with
  | appendMessage env message => exact h.appendChild (by simp [Payload.type]) _
  | appendThinkingLevelChange env level => exact h.appendChild (by simp [Payload.type]) _
  | appendModelChange env provider modelId => exact h.appendChild (by simp [Payload.type]) _
  | appendCompaction env summary firstKept tokens details fromHook =>
    exact h.appendChild (by simp [Payload.type]) _
  | appendCustomEntry env customType data => exact h.appendChild (by simp [Payload.type]) _
  | appendSessionInfo env name => exact h.appendChild (by simp [Payload.type]) _
  | appendCustomMessageEntry env customType content display details =>
    exact h.appendChild (by simp [Payload.type]) _
  | appendLabelChange env targetId label => exact h.appendLabelChange targetId label
  | branch branchFromId =>
    show Indexed (branch branchFromId w).1.manager
    unfold branch
    split_ifs
    · exact ⟨h.byId, h.labels, h.timestamps⟩
    · exact h
  | resetLeaf => exact ⟨h.byId, h.labels, h.timestamps⟩
  | branchWithSummary env branchFromId summary details fromHook =>
    show Indexed (branchWithSummary platform env branchFromId summary details fromHook w).1.manager
    unfold branchWithSummary
    split_ifs
    · exact h.appendChild (by simp [Payload.type]) _
    · exact h
  | createBranchedSession env leafId => exact h.createBranchedSession leafId

theorem indexed_openSession {env : OpenEnvironment} {path cwd dir : String} {disk disk' : Disk}
    (h : openSession platform env path cwd dir disk = (disk', .ok m)) : Indexed m := by
  have hopened : ∀ sessionId entries head, Indexed (openedManager path cwd dir sessionId entries head) :=
    fun _ _ _ => ⟨rfl, rfl, rfl⟩
  unfold openSession at h
  simp only at h
  split at h
  · obtain ⟨-, hm⟩ := Prod.mk.inj h
    obtain rfl := Except.ok.inj hm
    exact ⟨rfl, rfl, rfl⟩
  · split at h
    · exact absurd (Prod.mk.inj h).2 (by simp)
    · split at h
      · unfold recoverSession at h
        obtain ⟨-, hm⟩ := Prod.mk.inj h
        obtain ⟨head, -, hm⟩ := bind_eq_ok.mp hm
        obtain rfl := Except.ok.inj hm
        exact hopened _ _ _
      · unfold acceptEntries at h
        simp only at h
        split at h
        · exact absurd (Prod.mk.inj h).2 (by simp)
        · obtain ⟨-, hm⟩ := Prod.mk.inj h
          split at hm <;>
          · obtain ⟨head, -, hm⟩ := bind_eq_ok.mp hm
            obtain rfl := Except.ok.inj hm
            exact hopened _ _ _

theorem Reachable.indexed (h : Reachable platform w) : Indexed w.manager := by
  induction h with
  | fresh disk cwd dir persist id timestamp parent =>
    refine ⟨?_, ?_, ?_⟩ <;> simp [newSession, buildIndex, IndexState.step, IndexState.empty]
  | opened h => exact indexed_openSession h
  | step _ op ih => exact ih.run op

end CodingAgent
