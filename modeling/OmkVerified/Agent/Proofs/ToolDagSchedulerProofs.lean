import OmkVerified.Agent.ToolDagScheduler

/-!
# The dag scheduler: levels are conflict depths, chunks are safe

The claim summary of a level decides exactly whether a call conflicts with a call placed there, so
the greedy choice of a level is the length of the longest chain of conflicting earlier calls. The
width cap cuts the levels without reordering them.
-/

namespace Agent

open Lib.Layering

variable {toLowerCase : List Char → List Char} {resolutions : List ToolClaimResolution}

/-! ## The documented conflict -/

variable {r right : ToolClaimResolution} {level : DagLevel} {j m i d d' : Nat}
  {levels : List DagLevel} {chunk : List Nat}

theorem callsConflict_of_resolutionsConflict {left : ToolClaimResolution}
    (h : resolutionsConflict toLowerCase left right = true) :
    callsConflict toLowerCase left right = true := by
  simp [callsConflict, h]

theorem resolutionsConflict_of_runsAlone {left : ToolClaimResolution} (hl : left.runsAlone = true)
    (hr : right ≠ .claims []) : resolutionsConflict toLowerCase left right = true := by
  cases left with
  | exclusive => rfl
  | claims leftClaims =>
    cases right with
    | exclusive => rfl
    | claims rightClaims =>
      obtain ⟨claim, hmem, hex⟩ := List.any_eq_true.mp hl
      obtain ⟨other, hother⟩ := List.exists_mem_of_ne_nil rightClaims fun h => hr (h ▸ rfl)
      refine List.any_eq_true.mpr ⟨claim, hmem, List.any_eq_true.mpr ⟨other, hother, ?_⟩⟩
      exact claimsConflict_of_exclusive _ (.inl (of_decide_eq_true hex))

/-- The documented conflict is the pairwise one, unless a call with an exclusive claim meets a
claimless one. -/
theorem callsConflict_eq_resolutionsConflict {left : ToolClaimResolution}
    (hl : ¬(left.runsAlone = true ∧ right = .claims []))
    (hr : ¬(right.runsAlone = true ∧ left = .claims [])) :
    callsConflict toLowerCase left right = resolutionsConflict toLowerCase left right := by
  cases hla : left.runsAlone with
  | true =>
    have hconf : resolutionsConflict toLowerCase left right = true :=
      resolutionsConflict_of_runsAlone hla fun h => hl ⟨hla, h⟩
    rw [hconf, callsConflict_of_resolutionsConflict hconf]
  | false =>
    cases hra : right.runsAlone with
    | true =>
      have hconf : resolutionsConflict toLowerCase right left = true :=
        resolutionsConflict_of_runsAlone hra fun h => hr ⟨hra, h⟩
      rw [resolutionsConflict_comm] at hconf
      rw [hconf, callsConflict_of_resolutionsConflict hconf]
    | false => simp [callsConflict, hla, hra]

/-! ## The summary of a level -/

/-- The claims a level holds are those of its calls. -/
structure LevelSummary (resolutions : List ToolClaimResolution) (level : DagLevel) : Prop where
  /-- The level holds calls of the batch. -/
  stored : ∀ i ∈ level.indices, ∃ r, resolutions[i]? = some r
  exclusive : level.hasExclusive = true ↔
    ∃ i ∈ level.indices, ∃ r, resolutions[i]? = some r ∧ r.runsAlone = true
  claims : ∀ claim, claim ∈ level.writeClaims ∨ claim ∈ level.readClaims ↔
    ∃ i ∈ level.indices, ∃ held, resolutions[i]? = some (.claims held) ∧
      (ToolClaimResolution.claims held).runsAlone = false ∧ claim ∈ held
  reads : ∀ claim ∈ level.readClaims, claim.access = .read

theorem LevelSummary.empty (resolutions : List ToolClaimResolution) :
    LevelSummary resolutions DagLevel.empty := by
  constructor <;> simp [DagLevel.empty]

theorem runsAlone_claims_eq_false {held : List ToolResourceClaim}
    (h : (ToolClaimResolution.claims held).runsAlone = false) :
    ∀ claim ∈ held, claim.access ≠ .exclusive := by
  intro claim hmem
  simpa using List.any_eq_false.mp h claim hmem

/-- The entry of a call as `resolveBatchClaims` builds it. -/
theorem runsAlone_eq (r : ToolClaimResolution) :
    (decide (r = .exclusive) || r.canonicalClaims.any fun claim => claim.access = .exclusive) =
      r.runsAlone := by
  cases r with
  | exclusive => rfl
  | claims held =>
    rw [Bool.eq_iff_iff]
    simp [ToolClaimResolution.canonicalClaims, ToolClaimResolution.runsAlone,
      mem_canonicalizeClaims]

/-- The entry of call `j`. -/
def entryAt (j : Nat) (r : ToolClaimResolution) : ResolvedClaimEntry := ⟨j, r, r.canonicalClaims⟩

@[simp] theorem place_indices (level : DagLevel) (entry : ResolvedClaimEntry) :
    (level.place entry).indices = level.indices ++ [entry.sourceIndex] := by
  unfold DagLevel.place
  split <;> rfl

theorem place_runsAlone (h : r.runsAlone = true) : level.place (entryAt j r) =
      { level with indices := level.indices ++ [j], hasExclusive := true } := by
  unfold DagLevel.place entryAt
  exact if_pos (by rw [runsAlone_eq]; exact h)

theorem place_shared {held : List ToolResourceClaim}
    (h : (ToolClaimResolution.claims held).runsAlone = false) :
    level.place (entryAt j (.claims held)) =
      { level with
        indices := level.indices ++ [j]
        writeClaims := level.writeClaims ++
          (canonicalizeClaims held).filter fun claim => claim.access = .write
        readClaims := level.readClaims ++
          (canonicalizeClaims held).filter fun claim => !decide (claim.access = .write) } := by
  unfold DagLevel.place entryAt
  refine if_neg ?_
  rw [runsAlone_eq, h]
  exact Bool.false_ne_true

theorem LevelSummary.place (h : LevelSummary resolutions level) (hj : resolutions[j]? = some r) :
    LevelSummary resolutions (level.place (entryAt j r)) := by
  have hstored : ∀ i ∈ (level.place (entryAt j r)).indices, ∃ r, resolutions[i]? = some r := by
    intro i hi
    rw [place_indices, List.mem_append, List.mem_singleton] at hi
    rcases hi with hi | rfl
    · exact h.stored i hi
    · exact ⟨r, hj⟩
  cases hr : r.runsAlone with
  | true =>
    refine ⟨hstored, ?_, ?_, ?_⟩
    · rw [place_runsAlone hr]
      exact iff_of_true rfl ⟨j, by simp, r, hj, hr⟩
    · intro claim
      rw [place_runsAlone hr]
      refine (h.claims claim).trans ⟨?_, ?_⟩
      · rintro ⟨i, hi, rest⟩
        exact ⟨i, List.mem_append_left _ hi, rest⟩
      · rintro ⟨i, hi, held, hget, hshared, hmem⟩
        rcases List.mem_append.mp hi with hi | hi
        · exact ⟨i, hi, held, hget, hshared, hmem⟩
        · rw [List.mem_singleton.mp hi, hj] at hget
          rw [Option.some.inj hget, hshared] at hr
          exact absurd hr Bool.false_ne_true
    · rw [place_runsAlone hr]
      exact h.reads
  | false =>
    cases r with
    | exclusive => exact absurd hr Bool.noConfusion
    | claims held =>
      refine ⟨hstored, ?_, ?_, ?_⟩
      · rw [place_shared hr]
        refine h.exclusive.trans ⟨?_, ?_⟩
        · rintro ⟨i, hi, rest⟩
          exact ⟨i, List.mem_append_left _ hi, rest⟩
        · rintro ⟨i, hi, r, hget, halone⟩
          rcases List.mem_append.mp hi with hi | hi
          · exact ⟨i, hi, r, hget, halone⟩
          · rw [List.mem_singleton.mp hi, hj] at hget
            rw [← Option.some.inj hget, hr] at halone
            exact absurd halone Bool.false_ne_true
      · intro claim
        have hnew : claim ∈ (level.place (entryAt j (.claims held))).writeClaims ∨
            claim ∈ (level.place (entryAt j (.claims held))).readClaims ↔
            (claim ∈ level.writeClaims ∨ claim ∈ level.readClaims) ∨ claim ∈ held := by
          rw [place_shared hr]
          simp only [List.mem_append, List.mem_filter, mem_canonicalizeClaims]
          cases decide (claim.access = .write) <;> simp <;> tauto
        rw [hnew, h.claims claim, place_indices]
        constructor
        · rintro (⟨i, hi, rest⟩ | hmem)
          · exact ⟨i, List.mem_append_left _ hi, rest⟩
          · exact ⟨j, by simp [entryAt], held, hj, hr, hmem⟩
        · rintro ⟨i, hi, held', hget, hshared, hmem⟩
          rcases List.mem_append.mp hi with hi | hi
          · exact .inl ⟨i, hi, held', hget, hshared, hmem⟩
          · rw [List.mem_singleton.mp hi] at hget
            have heq : resolutions[j]? = some (.claims held') := hget
            rw [hj] at heq
            cases heq
            exact .inr hmem
      · rw [place_shared hr]
        intro claim hclaim
        rcases List.mem_append.mp hclaim with hclaim | hclaim
        · exact h.reads claim hclaim
        · rw [List.mem_filter, mem_canonicalizeClaims] at hclaim
          have hne := runsAlone_claims_eq_false hr claim hclaim.1
          have hnw : claim.access ≠ .write := by simpa using hclaim.2
          cases hacc : claim.access with
          | read => rfl
          | write => exact absurd hacc hnw
          | exclusive => exact absurd hacc hne

theorem claimConflictsAny_iff {claim : ToolResourceClaim} {candidates : List ToolResourceClaim} :
    claimConflictsAny toLowerCase claim candidates = true ↔
      ∃ candidate ∈ candidates, claimsConflict toLowerCase candidate claim = true := by
  unfold claimConflictsAny
  simp only [List.any_eq_true, claimsConflict_comm]

/-- Scanning only the writes for a read loses nothing: two reads never conflict. -/
theorem claimConflictsLevel_iff (h : LevelSummary resolutions level) {claim : ToolResourceClaim} :
    claimConflictsLevel toLowerCase claim level = true ↔
      claim.access = .exclusive ∨ ∃ candidate, (candidate ∈ level.writeClaims ∨
        candidate ∈ level.readClaims) ∧ claimsConflict toLowerCase candidate claim = true := by
  unfold claimConflictsLevel
  cases hacc : claim.access with
  | exclusive => simp
  | write =>
    rw [Bool.or_eq_true, claimConflictsAny_iff, claimConflictsAny_iff]
    simp only [reduceCtorEq, false_or, or_and_right, exists_or]
  | read =>
    rw [claimConflictsAny_iff]
    simp only [reduceCtorEq, false_or]
    constructor
    · rintro ⟨candidate, hmem, hconf⟩
      exact ⟨candidate, .inl hmem, hconf⟩
    · rintro ⟨candidate, hmem | hmem, hconf⟩
      · exact ⟨candidate, hmem, hconf⟩
      · rw [claimsConflict_of_reads toLowerCase (h.reads candidate hmem) hacc] at hconf
        exact absurd hconf Bool.false_ne_true

/-- The level test finds exactly the conflicts with a call of the level. -/
theorem resolutionConflictsLevel_iff (h : LevelSummary resolutions level) (hne : level.indices ≠ [])
    {resolution : ToolClaimResolution} :
    resolutionConflictsLevel toLowerCase resolution level = true ↔
      ∃ i ∈ level.indices, ∃ r, resolutions[i]? = some r ∧
        callsConflict toLowerCase r resolution = true := by
  -- a resolution that runs alone conflicts with whichever call the level holds
  have hany : resolution.runsAlone = true → ∃ i ∈ level.indices, ∃ r, resolutions[i]? = some r ∧
      callsConflict toLowerCase r resolution = true := by
    intro halone
    obtain ⟨i, hi⟩ := List.exists_mem_of_ne_nil _ hne
    obtain ⟨r, hr⟩ := h.stored i hi
    exact ⟨i, hi, r, hr, by simp [callsConflict, halone]⟩
  unfold resolutionConflictsLevel
  cases hex : level.hasExclusive with
  | true =>
    obtain ⟨i, hi, r, hr, halone⟩ := h.exclusive.mp hex
    exact iff_of_true rfl ⟨i, hi, r, hr, by simp [callsConflict, halone]⟩
  | false =>
    have hshared : ∀ i ∈ level.indices, ∀ r, resolutions[i]? = some r → r.runsAlone = false := by
      intro i hi r hr
      by_contra hne
      rw [h.exclusive.mpr ⟨i, hi, r, hr, by simpa using hne⟩] at hex
      exact absurd hex.symm Bool.false_ne_true
    cases resolution with
    | exclusive => exact iff_of_true rfl (hany rfl)
    | claims held =>
      rw [if_neg Bool.false_ne_true]
      show (held.any fun claim => claimConflictsLevel toLowerCase claim level) = true ↔ _
      rw [List.any_eq_true]
      simp only [claimConflictsLevel_iff h]
      constructor
      · rintro ⟨claim, hmem, hacc | ⟨candidate, hcand, hconf⟩⟩
        · exact hany (List.any_eq_true.mpr ⟨claim, hmem, decide_eq_true hacc⟩)
        · obtain ⟨i, hi, held', hget, -, hin⟩ := (h.claims candidate).mp hcand
          refine ⟨i, hi, _, hget, callsConflict_of_resolutionsConflict ?_⟩
          exact List.any_eq_true.mpr ⟨candidate, hin, List.any_eq_true.mpr ⟨claim, hmem, hconf⟩⟩
      · rintro ⟨i, hi, r, hget, hconf⟩
        have hr := hshared i hi r hget
        unfold callsConflict at hconf
        rw [hr, Bool.false_or, Bool.or_eq_true] at hconf
        rcases hconf with halone | hconf
        · obtain ⟨claim, hmem, hacc⟩ := List.any_eq_true.mp halone
          exact ⟨claim, hmem, .inl (of_decide_eq_true hacc)⟩
        · cases r with
          | exclusive => exact absurd hr Bool.noConfusion
          | claims held' =>
            obtain ⟨candidate, hin, hconf⟩ := List.any_eq_true.mp hconf
            obtain ⟨claim, hmem, hconf⟩ := List.any_eq_true.mp hconf
            exact ⟨claim, hmem, .inr ⟨candidate,
              (h.claims candidate).mpr ⟨i, hi, held', hget, hr, hin⟩, hconf⟩⟩

/-! ## The choice of a level -/

/-- The loop keeps the level after the last conflict. -/
theorem targetIndex_spec (toLowerCase : List Char → List Char) (resolution : ToolClaimResolution)
    (levels : List DagLevel) (k t : Nat) :
    (targetIndex toLowerCase resolution levels k t = t ∧
      ∀ level ∈ levels, resolutionConflictsLevel toLowerCase resolution level = false) ∨
    ∃ l level, levels[l]? = some level ∧
      resolutionConflictsLevel toLowerCase resolution level = true ∧
      targetIndex toLowerCase resolution levels k t = k + l + 1 ∧
      ∀ l' level', l < l' → levels[l']? = some level' →
        resolutionConflictsLevel toLowerCase resolution level' = false := by
  induction levels generalizing k t with
  | nil => exact .inl ⟨rfl, by simp⟩
  | cons level levels ih =>
    unfold targetIndex
    rcases ih (k + 1) (if resolutionConflictsLevel toLowerCase resolution level then k + 1 else t)
      with ⟨heq, hno⟩ | ⟨l, level', hget, hconf, heq, hno⟩
    · cases hl : resolutionConflictsLevel toLowerCase resolution level with
      | false =>
        refine .inl ⟨by rw [hl] at heq; simpa using heq, ?_⟩
        intro level' hmem
        rcases List.mem_cons.mp hmem with rfl | hmem
        · exact hl
        · exact hno level' hmem
      | true =>
        refine .inr ⟨0, level, rfl, hl, by rw [hl] at heq; simpa using heq, ?_⟩
        intro l' level' hlt hget
        obtain ⟨l', rfl⟩ : ∃ p, l' = p + 1 := ⟨l' - 1, by omega⟩
        exact hno level' (List.mem_of_getElem? hget)
    · refine .inr ⟨l + 1, level', hget, hconf, by rw [heq]; omega, ?_⟩
      intro l' level'' hlt hget'
      obtain ⟨l', rfl⟩ : ∃ p, l' = p + 1 := ⟨l' - 1, by omega⟩
      exact hno l' level'' (by omega) hget'

/-- What the chosen level means: every conflicting level is before it, and the one right before it
conflicts. -/
theorem target_spec (resolution : ToolClaimResolution) (levels : List DagLevel) {target : Nat}
    (htarget : targetIndex toLowerCase resolution levels 0 0 = target) :
    target ≤ levels.length ∧
    (∀ l level, levels[l]? = some level →
      resolutionConflictsLevel toLowerCase resolution level = true → l < target) ∧
    (target = 0 ∨ ∃ level, levels[target - 1]? = some level ∧
      resolutionConflictsLevel toLowerCase resolution level = true) := by
  rcases targetIndex_spec toLowerCase resolution levels 0 0
    with ⟨heq, hno⟩ | ⟨l, level, hget, hconf, heq, hno⟩
  · obtain rfl : target = 0 := htarget.symm.trans heq
    refine ⟨Nat.zero_le _, ?_, .inl rfl⟩
    intro l level hget hconf
    rw [hno level (List.mem_of_getElem? hget)] at hconf
    exact absurd hconf Bool.false_ne_true
  · obtain rfl : target = l + 1 := by omega
    refine ⟨(List.getElem?_eq_some_iff.mp hget).1, ?_, .inr ⟨level, hget, hconf⟩⟩
    intro l' level' hget' hconf'
    by_contra hlt
    rw [hno l' level' (by omega) hget'] at hconf'
    exact absurd hconf' Bool.false_ne_true

/-! ## The levels of a prefix of the batch -/

/-- The first `m` calls are placed: each once, in source order inside its level, and at its conflict
depth. -/
structure Layered (toLowerCase : List Char → List Char) (resolutions : List ToolClaimResolution)
    (m : Nat) (levels : List DagLevel) : Prop where
  summary : ∀ level ∈ levels, LevelSummary resolutions level
  perm : (levels.flatMap DagLevel.indices).Perm (List.range m)
  sorted : ∀ level ∈ levels, level.indices.Pairwise (· < ·)
  depth : ∀ l level, levels[l]? = some level →
    ∀ j ∈ level.indices, Depth (ConflictAt toLowerCase resolutions) j l

theorem Layered.lt (h : Layered toLowerCase resolutions m levels) (hl : level ∈ levels)
    (hj : j ∈ level.indices) : j < m :=
  List.mem_range.mp (h.perm.mem_iff.mp (List.mem_flatMap.mpr ⟨level, hl, hj⟩))

theorem Layered.exists_level (h : Layered toLowerCase resolutions m levels) (hj : j < m) :
    ∃ l : Nat, ∃ level : DagLevel, levels[l]? = some level ∧ j ∈ level.indices := by
  obtain ⟨level, hl, hj⟩ :=
    List.mem_flatMap.mp (h.perm.mem_iff.mpr (List.mem_range.mpr hj))
  obtain ⟨l, hl⟩ := List.mem_iff_getElem?.mp hl
  exact ⟨l, level, hl, hj⟩

/-- The next call joins a level at its conflict depth. -/
theorem Layered.place {before after : List DagLevel}
    (h : Layered toLowerCase resolutions m (before ++ level :: after))
    (hr : resolutions[m]? = some r)
    (hd : Depth (ConflictAt toLowerCase resolutions) m before.length) :
    Layered toLowerCase resolutions (m + 1)
      (before ++ level.place (entryAt m r) :: after) := by
  have hlevel : level ∈ before ++ level :: after := by simp
  have hother : ∀ level' ∈ before ++ level.place (entryAt m r) :: after,
      level' ∈ before ++ level :: after ∨ level' = level.place (entryAt m r) := by
    intro level' hmem
    simp only [List.mem_append, List.mem_cons] at hmem ⊢
    tauto
  refine ⟨?_, ?_, ?_, ?_⟩
  · intro level' hmem
    rcases hother level' hmem with hmem | rfl
    · exact h.summary level' hmem
    · exact (h.summary level hlevel).place hr
  · have hperm : ((before ++ level.place (entryAt m r) :: after).flatMap DagLevel.indices).Perm
        ((before ++ level :: after).flatMap DagLevel.indices ++ [m]) := by
      simp only [List.flatMap_append, List.flatMap_cons, place_indices, List.append_assoc]
      refine List.Perm.append_left _ (List.Perm.append_left _ ?_)
      exact List.perm_append_comm
    rw [List.range_succ]
    exact hperm.trans (h.perm.append_right [m])
  · intro level' hmem
    rcases hother level' hmem with hmem | rfl
    · exact h.sorted level' hmem
    · rw [place_indices, List.pairwise_append]
      refine ⟨h.sorted level hlevel, List.pairwise_singleton _ _, ?_⟩
      intro i hi j hj
      rw [List.mem_singleton.mp hj]
      exact h.lt hlevel hi
  · intro l level' hget j hj
    rcases lt_trichotomy l before.length with hlt | rfl | hlt
    · refine h.depth l level' ?_ j hj
      rw [List.getElem?_append_left hlt] at hget ⊢
      exact hget
    · obtain rfl : level.place (entryAt m r) = level' := by simpa using hget
      rw [place_indices, List.mem_append, List.mem_singleton] at hj
      rcases hj with hj | rfl
      · exact h.depth _ level (by simp) j hj
      · exact hd
    · refine h.depth l level' ?_ j hj
      obtain ⟨k, rfl⟩ : ∃ k, l = before.length + (k + 1) := ⟨l - before.length - 1, by omega⟩
      rw [List.getElem?_append_right (by omega)] at hget ⊢
      simpa using hget

theorem Layered.push_empty (h : Layered toLowerCase resolutions m levels) :
    Layered toLowerCase resolutions m (levels ++ [DagLevel.empty]) := by
  refine ⟨?_, ?_, ?_, ?_⟩
  · intro level hmem
    rcases List.mem_append.mp hmem with hmem | hmem
    · exact h.summary level hmem
    · rw [List.mem_singleton.mp hmem]
      exact LevelSummary.empty resolutions
  · simpa [DagLevel.empty] using h.perm
  · intro level hmem
    rcases List.mem_append.mp hmem with hmem | hmem
    · exact h.sorted level hmem
    · rw [List.mem_singleton.mp hmem]
      exact List.Pairwise.nil
  · intro l level hget j hj
    rcases lt_or_ge l levels.length with hlt | hge
    · rw [List.getElem?_append_left hlt] at hget
      exact h.depth l level hget j hj
    · rw [List.getElem?_append_right hge] at hget
      rw [List.mem_singleton.mp (List.mem_of_getElem? hget)] at hj
      exact absurd hj List.not_mem_nil

/-- The greedy choice is the conflict depth of the next call. -/
theorem Layered.depth_target (h : Layered toLowerCase resolutions m levels)
    (hne : ∀ level ∈ levels, level.indices ≠ []) (hr : resolutions[m]? = some r) {target : Nat}
    (htarget : targetIndex toLowerCase r levels 0 0 = target) :
    Depth (ConflictAt toLowerCase resolutions) m target := by
  obtain ⟨-, hlow, hhigh⟩ := target_spec r levels htarget
  have htest : ∀ level ∈ levels, (resolutionConflictsLevel toLowerCase r level = true ↔
      ∃ i ∈ level.indices, ConflictAt toLowerCase resolutions i m) := by
    intro level hmem
    rw [resolutionConflictsLevel_iff (h.summary level hmem) (hne level hmem)]
    refine exists_congr fun i => and_congr_right fun _ => ⟨?_, ?_⟩
    · rintro ⟨left, hleft, hconf⟩
      exact ⟨left, r, hleft, hr, hconf⟩
    · rintro ⟨left, right, hleft, hright, hconf⟩
      rw [hr] at hright
      rw [← Option.some.inj hright] at hconf
      exact ⟨left, hleft, hconf⟩
  refine depth_of_earlier ?_ ?_
  · intro i hi hconf
    obtain ⟨l, level, hget, hmem⟩ := h.exists_level hi
    refine ⟨l, h.depth l level hget i hmem, hlow l level hget ?_⟩
    exact (htest level (List.mem_of_getElem? hget)).mpr ⟨i, hmem, hconf⟩
  · rcases hhigh with rfl | ⟨level, hget, hconf⟩
    · exact .inl rfl
    · have hmem := List.mem_of_getElem? hget
      obtain ⟨i, hi, hconf⟩ := (htest level hmem).mp hconf
      exact .inr ⟨i, h.lt hmem hi, hconf, h.depth _ level hget i hi⟩

/-- One round of `assignDagLevels`. -/
theorem Layered.placeEntry (h : Layered toLowerCase resolutions m levels)
    (hne : ∀ level ∈ levels, level.indices ≠ []) (hr : resolutions[m]? = some r) :
    Layered toLowerCase resolutions (m + 1) (placeEntry toLowerCase levels (entryAt m r)) ∧
      ∀ level ∈ Agent.placeEntry toLowerCase levels (entryAt m r), level.indices ≠ [] := by
  have hplaced : ∀ level : DagLevel, (level.place (entryAt m r)).indices ≠ [] := by
    intro level
    simp
  generalize htarget : targetIndex toLowerCase r levels 0 0 = target
  have hd := h.depth_target hne hr htarget
  have hle := (target_spec r levels htarget).1
  have htarget' : targetIndex toLowerCase (entryAt m r).resolution levels 0 0 = target := htarget
  rcases Nat.lt_or_ge target levels.length with hlt | hge
  · have hentry : Agent.placeEntry toLowerCase levels (entryAt m r) =
        levels.set target (levels[target].place (entryAt m r)) := by
      simp only [Agent.placeEntry, htarget', List.getElem?_eq_getElem hlt]
    obtain ⟨before, after, hsplit, hlen, hset⟩ := List.exists_of_set hlt
    rw [hentry, hset]
    refine ⟨?_, ?_⟩
    · rw [hsplit] at h
      refine h.place hr ?_
      rw [hlen]
      exact hd
    · intro level hmem
      simp only [List.mem_append, List.mem_cons] at hmem
      rcases hmem with hmem | rfl | hmem
      · exact hne level (by rw [hsplit]; simp [hmem])
      · exact hplaced _
      · exact hne level (by rw [hsplit]; simp [hmem])
  · have hentry : Agent.placeEntry toLowerCase levels (entryAt m r) =
        levels ++ [DagLevel.empty.place (entryAt m r)] := by
      simp only [Agent.placeEntry, htarget', List.getElem?_eq_none hge]
    rw [hentry]
    refine ⟨h.push_empty.place hr ?_, ?_⟩
    · rw [show levels.length = target by omega]
      exact hd
    · intro level hmem
      rcases List.mem_append.mp hmem with hmem | hmem
      · exact hne level hmem
      · rw [List.mem_singleton.mp hmem]
        exact hplaced _

theorem resolveBatchClaims_take_succ (hr : resolutions[m]? = some r) :
    (resolveBatchClaims resolutions).take (m + 1) =
      (resolveBatchClaims resolutions).take m ++ [entryAt m r] := by
  rw [List.take_add_one]
  simp [resolveBatchClaims, hr, entryAt]

/-- The levels after `m` rounds. -/
theorem layered_take (toLowerCase : List Char → List Char) (hm : m ≤ resolutions.length) :
    Layered toLowerCase resolutions m
        (dagLevels toLowerCase ((resolveBatchClaims resolutions).take m)) ∧
      ∀ level ∈ dagLevels toLowerCase ((resolveBatchClaims resolutions).take m),
        level.indices ≠ [] := by
  induction m with
  | zero =>
    refine ⟨⟨?_, ?_, ?_, ?_⟩, ?_⟩ <;> simp [dagLevels]
  | succ m ih =>
    obtain ⟨h, hne⟩ := ih (by omega)
    obtain ⟨r, hr⟩ : ∃ r, resolutions[m]? = some r := ⟨_, List.getElem?_eq_getElem (by omega)⟩
    rw [resolveBatchClaims_take_succ hr]
    unfold dagLevels
    rw [List.foldl_append]
    exact h.placeEntry hne hr

/-! ## The width cap -/

/-- The pieces of one level. -/
def levelChunks : ConcurrencyCap → List Nat → List (List Nat)
  | .absent, level => [level]
  | .nonFinite, level => [level]
  | .finite cap, level =>
    if cap ≤ 0 then [level]
    else if level.length ≤ (max 1 ⌊cap⌋).toNat then [level]
    else slices (max 1 ⌊cap⌋).toNat level

theorem applyConcurrencyCap_eq (levels : List (List Nat)) (cap : ConcurrencyCap) :
    applyConcurrencyCap levels cap = levels.flatMap (levelChunks cap) := by
  cases cap with
  | absent => exact (List.flatMap_singleton' levels).symm
  | nonFinite => exact (List.flatMap_singleton' levels).symm
  | finite cap =>
    unfold applyConcurrencyCap levelChunks
    by_cases hcap : cap ≤ 0
    · simp only [if_pos hcap]
      exact (List.flatMap_singleton' levels).symm
    · simp only [if_neg hcap]

theorem levelChunks_cases (cap : ConcurrencyCap) (level : List Nat) :
    levelChunks cap level = [level] ∨
      ∃ n, 0 < n ∧ levelChunks cap level = slices n level := by
  cases cap with
  | absent => exact .inl rfl
  | nonFinite => exact .inl rfl
  | finite cap =>
    rw [levelChunks]
    split_ifs
    · exact .inl rfl
    · exact .inl rfl
    · exact .inr ⟨_, by omega, rfl⟩

theorem flatten_levelChunks (cap : ConcurrencyCap) (level : List Nat) :
    (levelChunks cap level).flatten = level := by
  rcases levelChunks_cases cap level with h | ⟨n, hn, h⟩
  · rw [h, List.flatten_singleton]
  · rw [h, flatten_slices hn]

theorem sublist_of_mem_levelChunks {cap : ConcurrencyCap} {level : List Nat}
    (hmem : chunk ∈ levelChunks cap level) : chunk.Sublist level := by
  rcases levelChunks_cases cap level with h | ⟨n, hn, h⟩
  · rw [h, List.mem_singleton] at hmem
    rw [hmem]
  · rw [h] at hmem
    exact sublist_of_mem_slices hmem

theorem length_levelChunks {cap : ℚ} (hcap : 0 < cap) {level : List Nat}
    (h : chunk ∈ levelChunks (.finite cap) level) : (chunk.length : ℤ) ≤ max 1 ⌊cap⌋ := by
  have hle : chunk.length ≤ (max 1 ⌊cap⌋).toNat := by
    rw [levelChunks, if_neg (not_le.mpr hcap)] at h
    split_ifs at h with hlen
    · rwa [List.mem_singleton.mp h]
    · exact length_le_of_mem_slices h
  omega

/-! ## The whole plan -/

/-- What the scheduler promises for a batch of resolved calls and a width cap. -/
structure DagPlan (toLowerCase : List Char → List Char) (resolutions : List ToolClaimResolution)
    (cap : ConcurrencyCap) : Prop where
  /-- Every call is in exactly one chunk. -/
  placed : (scheduleDagLevels toLowerCase resolutions cap).flatten.Perm
    (List.range resolutions.length)
  /-- A chunk lists its calls in source order. -/
  sorted : ∀ chunk ∈ scheduleDagLevels toLowerCase resolutions cap, chunk.Pairwise (· < ·)
  /-- The calls of a chunk do not conflict. -/
  independent : ∀ chunk ∈ scheduleDagLevels toLowerCase resolutions cap, ∀ i ∈ chunk, ∀ j ∈ chunk,
    i ≠ j → ∀ left right, resolutions[i]? = some left → resolutions[j]? = some right →
      resolutionsConflict toLowerCase left right = false
  /-- A call runs in a strictly later chunk than an earlier call it conflicts with. -/
  ordered : ∀ (i j : Nat) left right, i < j → resolutions[i]? = some left → resolutions[j]? = some right →
    resolutionsConflict toLowerCase left right = true →
    ∀ p q : Nat, ∀ chunk ∈ (scheduleDagLevels toLowerCase resolutions cap)[p]?, i ∈ chunk →
      ∀ chunk' ∈ (scheduleDagLevels toLowerCase resolutions cap)[q]?, j ∈ chunk' → p < q
  /-- Before the cap, a call's level is the length of the longest chain of conflicting earlier calls
  that ends in it. -/
  depth : ∀ l, ∀ level ∈ (assignDagLevels toLowerCase (resolveBatchClaims resolutions))[l]?,
    ∀ j ∈ level, Depth (ConflictAt toLowerCase resolutions) j l
  /-- The per-level test, at every round, finds the conflicts with the calls of the level. -/
  test : ∀ m ≤ resolutions.length,
    ∀ level ∈ dagLevels toLowerCase ((resolveBatchClaims resolutions).take m),
    ∀ resolution, resolutionConflictsLevel toLowerCase resolution level = true ↔
      ∃ i ∈ level.indices, ∃ r, resolutions[i]? = some r ∧
        callsConflict toLowerCase r resolution = true
  /-- The conflict of the last two is the pairwise one, unless a call with an exclusive claim meets a
  claimless call. -/
  pairwise : ∀ left right, ¬(left.runsAlone = true ∧ right = .claims []) →
    ¬(right.runsAlone = true ∧ left = .claims []) →
    callsConflict toLowerCase left right = resolutionsConflict toLowerCase left right
  /-- A positive cap bounds the chunks. -/
  width : ∀ q, cap = .finite q → 0 < q →
    ∀ chunk ∈ scheduleDagLevels toLowerCase resolutions cap, (chunk.length : ℤ) ≤ max 1 ⌊q⌋
  /-- Any other cap leaves the levels whole. -/
  whole : (∀ q, cap = .finite q → q ≤ 0) → scheduleDagLevels toLowerCase resolutions cap =
    assignDagLevels toLowerCase (resolveBatchClaims resolutions)

theorem scheduleDagLevels_eq (cap : ConcurrencyCap) :
    scheduleDagLevels toLowerCase resolutions cap =
      (assignDagLevels toLowerCase (resolveBatchClaims resolutions)).flatMap (levelChunks cap) :=
  applyConcurrencyCap_eq _ _

/-- The final levels. -/
theorem layered (toLowerCase : List Char → List Char) (resolutions : List ToolClaimResolution) :
    Layered toLowerCase resolutions resolutions.length
      (dagLevels toLowerCase (resolveBatchClaims resolutions)) := by
  obtain ⟨h, -⟩ := layered_take toLowerCase (le_refl resolutions.length)
  rwa [List.take_of_length_le (by simp [resolveBatchClaims])] at h

theorem exists_chunk (cap : ConcurrencyCap) (hi : i < resolutions.length) :
    ∃ chunk ∈ scheduleDagLevels toLowerCase resolutions cap, i ∈ chunk := by
  obtain ⟨l, level, hl, hmem⟩ := (layered toLowerCase resolutions).exists_level hi
  rw [← flatten_levelChunks cap level.indices] at hmem
  obtain ⟨chunk, hchunk, hmem⟩ := List.mem_flatten.mp hmem
  rw [scheduleDagLevels_eq]
  exact ⟨chunk, List.mem_flatMap.mpr ⟨level.indices,
    List.mem_map.mpr ⟨level, List.mem_of_getElem? hl, rfl⟩, hchunk⟩, hmem⟩

/-- A conflict makes the later call deeper. -/
theorem depth_lt (hlt : i < j) (hconf : ConflictAt toLowerCase resolutions i j)
    (hi : Depth (ConflictAt toLowerCase resolutions) i d)
    (hj : Depth (ConflictAt toLowerCase resolutions) j d') : d < d' :=
  hj.2 (Chain.step hlt hconf hi.1)

/-- Chunks further on hold deeper or equally deep calls. -/
theorem chunks_depth_le (cap : ConcurrencyCap) {p q : Nat} (hlt : p < q) {chunk' : List Nat}
    (hp : (scheduleDagLevels toLowerCase resolutions cap)[p]? = some chunk)
    (hq : (scheduleDagLevels toLowerCase resolutions cap)[q]? = some chunk') (hi : i ∈ chunk)
    (hj : j ∈ chunk') (hd : Depth (ConflictAt toLowerCase resolutions) i d)
    (hd' : Depth (ConflictAt toLowerCase resolutions) j d') : d ≤ d' := by
  have hlevels : ((dagLevels toLowerCase (resolveBatchClaims resolutions)).map
      DagLevel.indices).Pairwise fun level level' => ∀ i ∈ level, ∀ j ∈ level', ∀ d d',
        Depth (ConflictAt toLowerCase resolutions) i d →
        Depth (ConflictAt toLowerCase resolutions) j d' → d ≤ d' := by
    rw [List.pairwise_map, List.pairwise_iff_getElem]
    intro l l' hl hl' hlt i hi j hj d d' hd hd'
    have h := (layered toLowerCase resolutions).depth
    have hdl := h l _ (List.getElem?_eq_getElem hl) i hi
    have hdl' := h l' _ (List.getElem?_eq_getElem hl') j hj
    rw [hd.unique hdl, hd'.unique hdl']
    exact hlt.le
  have hchunks : (scheduleDagLevels toLowerCase resolutions cap).Pairwise fun chunk chunk' =>
      ∀ i ∈ chunk, ∀ j ∈ chunk', ∀ d d', Depth (ConflictAt toLowerCase resolutions) i d →
        Depth (ConflictAt toLowerCase resolutions) j d' → d ≤ d' := by
    rw [scheduleDagLevels_eq, List.pairwise_flatMap]
    refine ⟨?_, hlevels.imp ?_⟩
    · intro level hlevel
      obtain ⟨dagLevel, hmem, rfl⟩ := List.mem_map.mp hlevel
      obtain ⟨l, hget⟩ := List.mem_iff_getElem?.mp hmem
      have hdepth := (layered toLowerCase resolutions).depth l dagLevel hget
      refine List.Pairwise.imp_of_mem ?_ (List.pairwise_of_forall fun _ _ => trivial)
      intro c c' hc hc' _ i hi j hj d d' hd hd'
      rw [hd.unique (hdepth i ((sublist_of_mem_levelChunks hc).mem hi)),
        hd'.unique (hdepth j ((sublist_of_mem_levelChunks hc').mem hj))]
    · intro level level' h c hc c' hc' i hi j hj
      exact h i ((sublist_of_mem_levelChunks hc).mem hi) j ((sublist_of_mem_levelChunks hc').mem hj)
  obtain ⟨hpl, rfl⟩ := List.getElem?_eq_some_iff.mp hp
  obtain ⟨hql, rfl⟩ := List.getElem?_eq_some_iff.mp hq
  exact List.pairwise_iff_getElem.mp hchunks p q hpl hql hlt i hi j hj d d' hd hd'

/-- The calls of one chunk are at one depth. -/
theorem depth_of_mem_chunk {cap : ConcurrencyCap}
    (h : chunk ∈ scheduleDagLevels toLowerCase resolutions cap) :
    ∃ l, (∀ i ∈ chunk, Depth (ConflictAt toLowerCase resolutions) i l) ∧
      chunk.Pairwise (· < ·) := by
  rw [scheduleDagLevels_eq, List.mem_flatMap] at h
  obtain ⟨level, hlevel, hchunk⟩ := h
  obtain ⟨dagLevel, hmem, rfl⟩ := List.mem_map.mp hlevel
  obtain ⟨l, hget⟩ := List.mem_iff_getElem?.mp hmem
  have hsub := sublist_of_mem_levelChunks hchunk
  refine ⟨l, ?_, ((layered toLowerCase resolutions).sorted dagLevel hmem).sublist hsub⟩
  intro i hi
  exact (layered toLowerCase resolutions).depth l dagLevel hget i (hsub.mem hi)

/-- Two calls at one depth do not conflict. -/
theorem not_conflict_of_depth {l : Nat} (hne : i ≠ j)
    (hi : Depth (ConflictAt toLowerCase resolutions) i l)
    (hj : Depth (ConflictAt toLowerCase resolutions) j l) {left : ToolClaimResolution}
    (hleft : resolutions[i]? = some left) (hright : resolutions[j]? = some right) :
    resolutionsConflict toLowerCase left right = false := by
  by_contra hconf
  replace hconf : resolutionsConflict toLowerCase left right = true := by simpa using hconf
  rcases Nat.lt_or_gt_of_ne hne with hlt | hlt
  · have := depth_lt hlt ⟨left, right, hleft, hright, callsConflict_of_resolutionsConflict hconf⟩ hi hj
    omega
  · rw [resolutionsConflict_comm] at hconf
    have := depth_lt hlt ⟨right, left, hright, hleft, callsConflict_of_resolutionsConflict hconf⟩ hj hi
    omega

theorem scheduleDagLevels_spec (toLowerCase : List Char → List Char)
    (resolutions : List ToolClaimResolution) (cap : ConcurrencyCap) :
    DagPlan toLowerCase resolutions cap where
  placed := by
    have hflat : (scheduleDagLevels toLowerCase resolutions cap).flatten =
        (dagLevels toLowerCase (resolveBatchClaims resolutions)).flatMap DagLevel.indices := by
      have hid : List.flatten ∘ levelChunks cap = id := funext (flatten_levelChunks cap)
      rw [scheduleDagLevels_eq, List.flatMap_def, List.flatten_flatten, List.map_map, hid,
        List.map_id, assignDagLevels, List.flatMap_def]
    rw [hflat]
    exact (layered toLowerCase resolutions).perm
  sorted := by
    intro chunk hmem
    obtain ⟨l, -, hsorted⟩ := depth_of_mem_chunk hmem
    exact hsorted
  independent := by
    intro chunk hmem i hi j hj hne left right hleft hright
    obtain ⟨l, hdepth, -⟩ := depth_of_mem_chunk hmem
    exact not_conflict_of_depth hne (hdepth i hi) (hdepth j hj) hleft hright
  ordered := by
    intro i j left right hlt hleft hright hconf p q chunk hp hi chunk' hq hj
    obtain ⟨d, hd, -⟩ := depth_of_mem_chunk (List.mem_of_getElem? hp)
    obtain ⟨d', hd', -⟩ := depth_of_mem_chunk (List.mem_of_getElem? hq)
    have hdd := depth_lt hlt
      ⟨left, right, hleft, hright, callsConflict_of_resolutionsConflict hconf⟩ (hd i hi) (hd' j hj)
    rcases lt_trichotomy p q with hpq | rfl | hqp
    · exact hpq
    · obtain rfl : chunk = chunk' := Option.some.inj (hp.symm.trans hq)
      have := (hd j hj).unique (hd' j hj)
      omega
    · have := chunks_depth_le cap hqp hq hp hj hi (hd' j hj) (hd i hi)
      omega
  depth := by
    intro l level hget j hj
    rw [assignDagLevels, List.getElem?_map, Option.mem_def, Option.map_eq_some_iff] at hget
    obtain ⟨dagLevel, hget, rfl⟩ := hget
    exact (layered toLowerCase resolutions).depth l dagLevel hget j hj
  test := by
    intro m hm level hmem resolution
    obtain ⟨h, hne⟩ := layered_take toLowerCase hm
    exact resolutionConflictsLevel_iff (h.summary level hmem) (hne level hmem)
  pairwise := fun left right => callsConflict_eq_resolutionsConflict
  width := by
    rintro q rfl hq chunk hmem
    rw [scheduleDagLevels_eq, List.mem_flatMap] at hmem
    obtain ⟨level, -, hchunk⟩ := hmem
    exact length_levelChunks hq hchunk
  whole := by
    intro hcap
    cases cap with
    | absent => rfl
    | nonFinite => rfl
    | finite q => exact if_pos (hcap q rfl)

/-- With a cap of zero two independent calls share one chunk, and a call that claims nothing is kept
behind a call with an exclusive claim although the two do not conflict pairwise: its level is one,
while no conflicting earlier call exists. -/
theorem scheduleDagLevels_exclusive_claim :
    scheduleDagLevels (List.map Char.toLower) [.claims [], .claims []] (.finite 0) = [[0, 1]] ∧
    max 1 ⌊(0 : ℚ)⌋ < 2 ∧
    assignDagLevels (List.map Char.toLower)
      (resolveBatchClaims [.claims [.other .session "k" .exclusive], .claims []]) = [[0], [1]] ∧
    resolutionsConflict (List.map Char.toLower) (.claims [.other .session "k" .exclusive])
      (.claims []) = false := by
  refine ⟨?_, ?_, ?_, ?_⟩
  · decide
  · simp
  · decide
  · decide

end Agent
