import OmkVerified.CodingAgent.Session.RecoveryCheckpoint

/-!
# What a clean restore preflight says

The preflight is clean exactly when each loop finds nothing, and a loop finds nothing exactly when each of its
elements passes. A restore of code is ready only on a clean preflight.
-/

namespace CodingAgent.Recovery

open Lib

/-! ### What the loops find -/

def dirtyPathIssues (touchedByPath : OrderedMap String RecoveryTouchedFile) (dirty : String) :
    List RestorePreflightIssue :=
  (checkDirtyPath touchedByPath .empty dirty).issues

def touchedFileIssues (observedByPath : OrderedMap String ObservedTouchedFile)
    (expected : RecoveryTouchedFile) : List RestorePreflightIssue :=
  (checkTouchedFile observedByPath .empty expected).issues

def headIssues (checkpoint : RecoveryCheckpoint) (observed : ObservedWorktree)
    (options : RestorePreflightOptions) : List RestorePreflightIssue :=
  if headMoved checkpoint observed ∧ options.allowNonHeadRestore ≠ some true then
    [⟨.headMismatch, none, "HEAD moved since the checkpoint; pass allowNonHeadRestore to override"⟩]
  else []

theorem checkDirtyPath_issues (touchedByPath : OrderedMap String RecoveryTouchedFile)
    (found : Findings) (dirty : String) :
    (checkDirtyPath touchedByPath found dirty).issues =
      found.issues ++ dirtyPathIssues touchedByPath dirty := by
  simp only [dirtyPathIssues, checkDirtyPath]
  split <;> simp [Findings.push, Findings.empty]

theorem checkTouchedFile_issues (observedByPath : OrderedMap String ObservedTouchedFile)
    (found : Findings) (expected : RecoveryTouchedFile) :
    (checkTouchedFile observedByPath found expected).issues =
      found.issues ++ touchedFileIssues observedByPath expected := by
  simp only [touchedFileIssues, checkTouchedFile]
  cases observedByPath.get? (normalizeRelPath expected.path) with
  | none => simp [Findings.push, Findings.empty]
  | some current =>
    dsimp only
    split_ifs <;> simp [Findings.push, Findings.empty]

/-- The issues in the order in which they are found. -/
theorem classifyRestorePreflight_issues (checkpoint : RecoveryCheckpoint)
    (observed : ObservedWorktree) (options : RestorePreflightOptions) :
    (classifyRestorePreflight checkpoint observed options).issues =
      observed.dirtyPaths.flatMap
          (dirtyPathIssues (byPath RecoveryTouchedFile.path checkpoint.workspace.touchedFiles)) ++
        checkpoint.workspace.touchedFiles.flatMap
          (touchedFileIssues (byPath ObservedTouchedFile.path observed.touchedFiles)) ++
        headIssues checkpoint observed options := by
  have hdirty := foldl_appends
    (checkDirtyPath_issues (byPath RecoveryTouchedFile.path checkpoint.workspace.touchedFiles))
    observed.dirtyPaths .empty
  have htouched := foldl_appends
    (checkTouchedFile_issues (byPath ObservedTouchedFile.path observed.touchedFiles))
    checkpoint.workspace.touchedFiles
    (observed.dirtyPaths.foldl
      (checkDirtyPath (byPath RecoveryTouchedFile.path checkpoint.workspace.touchedFiles)) .empty)
  rw [hdirty] at htouched
  simp only [classifyRestorePreflight, headIssues]
  split
  · simp only [Findings.push, htouched]
    simp [Findings.empty]
  · rw [htouched]
    simp [Findings.empty]

theorem classifyRestorePreflight_verdict (checkpoint : RecoveryCheckpoint)
    (observed : ObservedWorktree) (options : RestorePreflightOptions) :
    (classifyRestorePreflight checkpoint observed options).verdict = .clean ↔
      (classifyRestorePreflight checkpoint observed options).issues = [] := by
  simp only [classifyRestorePreflight]
  split_ifs <;> simp_all [List.length_eq_zero_iff]

/-! ### When they find nothing -/

/-- The file is as the checkpoint left it, and inside of the repository. -/
structure InPostState (expected : RecoveryTouchedFile) (current : ObservedTouchedFile) : Prop where
  inside : current.escapesRepo ≠ some true
  link : current.isSymlink = some true → current.escapesRepo = some false
  absent : expected.mode = .deleted → current.exists = false
  present : expected.mode ≠ .deleted →
    current.exists = true ∧ current.sha256 = expected.afterSha256

theorem escapes_eq_false_iff {current : ObservedTouchedFile} :
    escapes current = false ↔
      current.escapesRepo ≠ some true ∧
        (current.isSymlink = some true → current.escapesRepo = some false) := by
  simp [escapes]

theorem dirtyPathIssues_eq_nil_iff {touchedFiles : List RecoveryTouchedFile} {dirty : String} :
    dirtyPathIssues (byPath RecoveryTouchedFile.path touchedFiles) dirty = [] ↔
      ∃ file ∈ touchedFiles, normalizeRelPath file.path = normalizeRelPath dirty := by
  have hhas : (byPath RecoveryTouchedFile.path touchedFiles).has (normalizeRelPath dirty) = true ↔
      ∃ file ∈ touchedFiles, normalizeRelPath file.path = normalizeRelPath dirty :=
    OrderedMap.has_foldl_set_empty_iff
  rw [← hhas, dirtyPathIssues, checkDirtyPath]
  split
  · rename_i hfound
    simp [Findings.empty, hfound]
  · rename_i hfound
    simp [Findings.push, hfound]

/-- The loop passes a recorded file exactly when it was seen in its post-state. -/
theorem touchedFileIssues_eq_nil_iff {observedByPath : OrderedMap String ObservedTouchedFile}
    {expected : RecoveryTouchedFile} :
    touchedFileIssues observedByPath expected = [] ↔
      ∃ current, observedByPath.get? (normalizeRelPath expected.path) = some current ∧
        InPostState expected current := by
  rw [touchedFileIssues, checkTouchedFile]
  cases hget : observedByPath.get? (normalizeRelPath expected.path) with
  | none => simp [Findings.push]
  | some current =>
    dsimp only
    by_cases hescape : escapes current = true
    · rw [if_pos hescape]
      refine iff_of_false (by simp [Findings.push]) ?_
      rintro ⟨_, hcurrent, h⟩
      cases hcurrent
      rw [escapes_eq_false_iff.mpr ⟨h.inside, h.link⟩] at hescape
      cases hescape
    have hinside := escapes_eq_false_iff.mp (Bool.not_eq_true _ ▸ hescape)
    rw [if_neg hescape]
    by_cases hmode : expected.mode = .deleted
    · rw [if_pos hmode]
      by_cases hexists : current.exists = true
      · rw [if_pos hexists]
        refine iff_of_false (by simp [Findings.push]) ?_
        rintro ⟨_, hcurrent, h⟩
        cases hcurrent
        rw [h.absent hmode] at hexists
        cases hexists
      · rw [if_neg hexists]
        refine iff_of_true rfl ⟨current, rfl, hinside.1, hinside.2, ?_, ?_⟩
        · intro _
          exact Bool.not_eq_true _ ▸ hexists
        · intro h
          exact absurd hmode h
    · rw [if_neg hmode]
      by_cases hexists : current.exists = true
      · rw [if_neg (not_not.mpr hexists)]
        by_cases hhash : current.sha256 = expected.afterSha256
        · rw [if_neg (not_not.mpr hhash)]
          refine iff_of_true rfl ⟨current, rfl, hinside.1, hinside.2, ?_, ?_⟩
          · intro h
            exact absurd h hmode
          · intro _
            exact ⟨hexists, hhash⟩
        · rw [if_pos hhash]
          refine iff_of_false (by simp [Findings.push]) ?_
          rintro ⟨_, hcurrent, h⟩
          cases hcurrent
          exact hhash (h.present hmode).2
      · rw [if_pos hexists]
        refine iff_of_false (by simp [Findings.push]) ?_
        rintro ⟨_, hcurrent, h⟩
        cases hcurrent
        exact hexists (h.present hmode).1

variable {checkpoint : RecoveryCheckpoint} {observed : ObservedWorktree}

/-- `HEAD` moved when there are two heads to compare and they differ. -/
theorem headMoved_iff :
    headMoved checkpoint observed = true ↔ checkpoint.workspace.vcs = .git ∧
      ∃ head seen, checkpoint.workspace.head = some head ∧ observed.head = some seen ∧
        head ≠ seen := by
  rw [headMoved]
  cases hhead : checkpoint.workspace.head with
  | none => simp
  | some head =>
    cases hseen : observed.head with
    | none => simp
    | some seen => simp

theorem headIssues_eq_nil_iff {options : RestorePreflightOptions} :
    headIssues checkpoint observed options = [] ↔
      (checkpoint.workspace.vcs = .git → options.allowNonHeadRestore ≠ some true →
        ∀ head seen, checkpoint.workspace.head = some head → observed.head = some seen →
          head = seen) := by
  rw [headIssues]
  split
  · rename_i hmoved
    obtain ⟨hmoved, hallow⟩ := hmoved
    obtain ⟨hgit, head, seen, hhead, hseen, hne⟩ := headMoved_iff.mp hmoved
    refine iff_of_false (by simp) ?_
    intro h
    exact hne (h hgit hallow head seen hhead hseen)
  · rename_i hstill
    refine iff_of_true rfl ?_
    intro hgit hallow head seen hhead hseen
    by_contra hne
    exact hstill ⟨headMoved_iff.mpr ⟨hgit, head, seen, hhead, hseen, hne⟩, hallow⟩

/-! ### The preflight and the plan -/

/-- What a clean preflight has established of the worktree; of two observations of one path the
later one counts. -/
structure CleanWorktree (checkpoint : RecoveryCheckpoint) (observed : ObservedWorktree)
    (options : RestorePreflightOptions) : Prop where
  dirty : ∀ dirty ∈ observed.dirtyPaths, ∃ file ∈ checkpoint.workspace.touchedFiles,
    normalizeRelPath file.path = normalizeRelPath dirty
  touched : ∀ expected ∈ checkpoint.workspace.touchedFiles, ∃ before current after,
    observed.touchedFiles = before ++ current :: after ∧
      normalizeRelPath current.path = normalizeRelPath expected.path ∧
      (∀ other ∈ after, normalizeRelPath other.path ≠ normalizeRelPath expected.path) ∧
      InPostState expected current
  head : checkpoint.workspace.vcs = .git → options.allowNonHeadRestore ≠ some true →
    ∀ head seen, checkpoint.workspace.head = some head → observed.head = some seen → head = seen

theorem verdict_eq_clean_iff {options : RestorePreflightOptions} :
    (classifyRestorePreflight checkpoint observed options).verdict = .clean ↔
      CleanWorktree checkpoint observed options := by
  have hget : ∀ expected : RecoveryTouchedFile, ∀ current,
      (byPath ObservedTouchedFile.path observed.touchedFiles).get?
          (normalizeRelPath expected.path) = some current ↔
        ∃ before after, observed.touchedFiles = before ++ current :: after ∧
          normalizeRelPath current.path = normalizeRelPath expected.path ∧
          ∀ other ∈ after, normalizeRelPath other.path ≠ normalizeRelPath expected.path := by
    intro expected current
    exact OrderedMap.get?_foldl_set_empty_eq_some_iff
  rw [classifyRestorePreflight_verdict, classifyRestorePreflight_issues, List.append_eq_nil_iff,
    List.append_eq_nil_iff, List.flatMap_eq_nil_iff, List.flatMap_eq_nil_iff, headIssues_eq_nil_iff]
  constructor
  · rintro ⟨⟨hdirty, htouched⟩, hhead⟩
    refine ⟨fun dirty h => dirtyPathIssues_eq_nil_iff.mp (hdirty dirty h), ?_, hhead⟩
    intro expected hexpected
    obtain ⟨current, hcurrent, hpost⟩ := touchedFileIssues_eq_nil_iff.mp (htouched expected hexpected)
    obtain ⟨before, after, hsplit, hpath, hlast⟩ := (hget expected current).mp hcurrent
    exact ⟨before, current, after, hsplit, hpath, hlast, hpost⟩
  · rintro ⟨hdirty, htouched, hhead⟩
    refine ⟨⟨fun dirty h => dirtyPathIssues_eq_nil_iff.mpr (hdirty dirty h), ?_⟩, hhead⟩
    intro expected hexpected
    obtain ⟨before, current, after, hsplit, hpath, hlast, hpost⟩ := htouched expected hexpected
    have hcurrent := (hget expected current).mpr ⟨before, after, hsplit, hpath, hlast⟩
    exact touchedFileIssues_eq_nil_iff.mpr ⟨current, hcurrent, hpost⟩

/-- A classification leaves no blockers exactly when it is clean. -/
theorem collectPreflightBlockers_classify (checkpoint : RecoveryCheckpoint)
    (observed : ObservedWorktree) (options : RestorePreflightOptions) :
    collectPreflightBlockers (some (classifyRestorePreflight checkpoint observed options)) = [] ↔
      (classifyRestorePreflight checkpoint observed options).verdict = .clean := by
  rw [collectPreflightBlockers]
  by_cases hclean : (classifyRestorePreflight checkpoint observed options).verdict = .clean
  · simp [hclean]
  · have hissues := mt (classifyRestorePreflight_verdict checkpoint observed options).mpr hclean
    simp [hclean, hissues]

theorem planRestore_ready_iff {input : PlanRestoreInput} (hmode : input.mode ≠ .conversation) :
    (planRestore input).status = .ready ↔ collectPreflightBlockers input.preflight = [] := by
  unfold planRestore
  by_cases hblockers : collectPreflightBlockers input.preflight = []
  · cases hm : input.mode with
    | conversation => exact absurd hm hmode
    | code => simp [hblockers]
    | both => simp [hblockers]
  · have hpos : 0 < (collectPreflightBlockers input.preflight).length :=
      List.length_pos_iff.mpr hblockers
    cases hm : input.mode with
    | conversation => exact absurd hm hmode
    | code => simp [hpos, hblockers]
    | both => simp [hpos, hblockers]

/-- The preflight is clean exactly on a worktree that is as the checkpoint left it, and code is
restored on no other ground. -/
theorem restorePreflight_sound (checkpoint : RecoveryCheckpoint) (observed : ObservedWorktree)
    (options : RestorePreflightOptions) :
    ((classifyRestorePreflight checkpoint observed options).verdict = .clean ↔
        CleanWorktree checkpoint observed options) ∧
      ∀ input : PlanRestoreInput, input.mode ≠ .conversation →
        (input.preflight = none → (planRestore input).status = .blocked) ∧
        (input.preflight = some (classifyRestorePreflight checkpoint observed options) →
          ((planRestore input).status = .ready ↔ CleanWorktree checkpoint observed options)) := by
  refine ⟨verdict_eq_clean_iff, ?_⟩
  intro input hmode
  refine ⟨?_, ?_⟩
  · intro hnone
    have hready : (planRestore input).status ≠ .ready := by
      rw [Ne, planRestore_ready_iff hmode, hnone]
      simp [collectPreflightBlockers]
    cases hstatus : (planRestore input).status with
    | ready => exact absurd hstatus hready
    | blocked => rfl
  · intro hsome
    rw [planRestore_ready_iff hmode, hsome, collectPreflightBlockers_classify, verdict_eq_clean_iff]

/-- A checkpoint of one file, with a head. -/
def oneFile : RecoveryCheckpoint where
  session := ⟨some "leaf"⟩
  workspace := ⟨.git, some "a", [⟨"x", none, some "h", .tracked⟩]⟩
  ledger := ⟨"event", "previous", "hash"⟩

/-- The file is seen as it was left, and the head is not seen. -/
def headUnseen : ObservedWorktree := ⟨none, ["./x"], [⟨"x", true, some "h", none, none⟩]⟩

theorem restorePreflight_sound_oneFile :
    (planRestore ⟨.both, oneFile, some (classifyRestorePreflight oneFile headUnseen ⟨none⟩),
        none⟩).status = .ready ∧ CleanWorktree oneFile headUnseen ⟨none⟩ := by
  have hplan := ((restorePreflight_sound oneFile headUnseen ⟨none⟩).2
    ⟨.both, oneFile, some (classifyRestorePreflight oneFile headUnseen ⟨none⟩), none⟩
    (by decide)).2 rfl
  exact ⟨by decide, hplan.mp (by decide)⟩

/-- A head that is recorded and not observed is no finding. -/
theorem restorePreflight_headUnseen :
    ¬ ∀ (checkpoint : RecoveryCheckpoint) (observed : ObservedWorktree)
        (options : RestorePreflightOptions),
        (classifyRestorePreflight checkpoint observed options).verdict = .clean →
          CleanWorktree checkpoint observed options ∧
            (checkpoint.workspace.vcs = .git → options.allowNonHeadRestore ≠ some true →
              ∀ head, checkpoint.workspace.head = some head → observed.head = some head) := by
  intro h
  have hclean : (classifyRestorePreflight oneFile headUnseen ⟨none⟩).verdict = .clean := by decide
  have hhead := (h oneFile headUnseen ⟨none⟩ hclean).2 rfl (by decide) "a" rfl
  exact absurd hhead (by decide)

end CodingAgent.Recovery
