import OmkVerified.AdaptorchWpl.B2cMapper

/-!
# More evidence and the verdict

How the verdict for the user changes when a run is added to a record.
-/

namespace AdaptorchWpl

open Lib

/-! ## The worst verdict of a record -/

section FirstOf

variable {α : Type} [DecidableEq α]

/-- Of a list without repetitions the first element with a property is the one at the least
index. -/
theorem find?_eq_some_iff_idxOf {present : α → Bool} {priority : List α} {a : α} :
    priority.find? present = some a ↔
      a ∈ priority ∧ present a = true ∧
        ∀ b ∈ priority, present b = true → priority.idxOf a ≤ priority.idxOf b := by
  induction priority with
  | nil => simp
  | cons c priority ih =>
    by_cases hc : present c = true
    · rw [List.find?_cons_of_pos hc]
      constructor
      · rintro ⟨⟩
        refine ⟨List.mem_cons_self, hc, fun b _ _ => ?_⟩
        rw [List.idxOf_cons_self]
        exact Nat.zero_le _
      · rintro ⟨-, -, hleast⟩
        have hzero := hleast c List.mem_cons_self hc
        rw [List.idxOf_cons_self, Nat.le_zero] at hzero
        by_contra hne
        rw [List.idxOf_cons_ne _ fun h => hne (congrArg some h)] at hzero
        omega
    · rw [List.find?_cons_of_neg hc, ih]
      constructor
      · rintro ⟨hmem, ha, hleast⟩
        have hac : c ≠ a := by
          rintro rfl
          exact hc ha
        refine ⟨List.mem_cons_of_mem _ hmem, ha, fun b hb hpresent => ?_⟩
        have hbc : c ≠ b := by
          rintro rfl
          exact hc hpresent
        rw [List.idxOf_cons_ne _ hac, List.idxOf_cons_ne _ hbc]
        exact Nat.succ_le_succ
          (hleast b ((List.mem_cons.mp hb).resolve_left fun h => hbc h.symm) hpresent)
      · rintro ⟨hmem, ha, hleast⟩
        have hac : c ≠ a := by
          rintro rfl
          exact hc ha
        refine ⟨(List.mem_cons.mp hmem).resolve_left fun h => hac h.symm, ha, fun b hb hpresent => ?_⟩
        have hbc : c ≠ b := by
          rintro rfl
          exact hc hpresent
        have hle := hleast b (List.mem_cons_of_mem _ hb) hpresent
        rw [List.idxOf_cons_ne _ hac, List.idxOf_cons_ne _ hbc] at hle
        exact Nat.le_of_succ_le_succ hle

end FirstOf

theorem mem_verdictPriority (state : VerdictState) : state ∈ verdictPriority := by
  cases state <;> decide

variable {perRun : List RunOutcome} {runs : List Run}

/-- The verdict of a record is one of its runs' and none of theirs is worse. -/
theorem reduceVerdicts_eq_iff (hruns : perRun ≠ []) {state : VerdictState} :
    reduceVerdicts perRun = state ↔
      (∃ outcome ∈ perRun, outcome.verdict = state) ∧
        ∀ outcome ∈ perRun, verdictPriority.idxOf state ≤ verdictPriority.idxOf outcome.verdict := by
  obtain ⟨any, hany⟩ := List.exists_mem_of_ne_nil perRun hruns
  have hpresent : ∀ s, (perRun.any fun outcome => outcome.verdict = s) = true ↔
      ∃ outcome ∈ perRun, outcome.verdict = s := by
    intro s
    rw [List.any_eq_true]
    simp
  have hfound : ∀ s, verdictPriority.find?
      (fun s => perRun.any fun outcome => outcome.verdict = s) = some s ↔
      (∃ outcome ∈ perRun, outcome.verdict = s) ∧
        ∀ outcome ∈ perRun, verdictPriority.idxOf s ≤ verdictPriority.idxOf outcome.verdict := by
    intro s
    rw [find?_eq_some_iff_idxOf]
    constructor
    · rintro ⟨-, hs, hleast⟩
      exact ⟨(hpresent s).mp hs, fun outcome houtcome =>
        hleast outcome.verdict (mem_verdictPriority _) ((hpresent _).mpr ⟨outcome, houtcome, rfl⟩)⟩
    · rintro ⟨hs, hleast⟩
      refine ⟨mem_verdictPriority s, (hpresent s).mpr hs, fun t _ ht => ?_⟩
      obtain ⟨outcome, houtcome, rfl⟩ := (hpresent t).mp ht
      exact hleast outcome houtcome
  rw [← hfound state]
  unfold reduceVerdicts
  cases hfind : verdictPriority.find?
      (fun s => perRun.any fun outcome => outcome.verdict = s) with
  | some found => simp
  | none =>
    rw [List.find?_eq_none] at hfind
    exact absurd ((hpresent any.verdict).mpr ⟨any, hany, rfl⟩)
      (hfind any.verdict (mem_verdictPriority _))

/-- The worse of two verdicts. -/
def worseVerdict (first second : VerdictState) : VerdictState :=
  if verdictPriority.idxOf first ≤ verdictPriority.idxOf second then first else second

/-- One more run makes the verdict of the record the worse one of the two. -/
theorem reduceVerdicts_insert {before after : List RunOutcome} (hruns : before ++ after ≠ [])
    (outcome : RunOutcome) :
    reduceVerdicts (before ++ outcome :: after) =
      worseVerdict (reduceVerdicts (before ++ after)) outcome.verdict := by
  obtain ⟨⟨worst, hworst, hverdict⟩, hleast⟩ :=
    (reduceVerdicts_eq_iff hruns).mp (rfl : reduceVerdicts (before ++ after) = _)
  rw [reduceVerdicts_eq_iff (by simp)]
  have hmem : ∀ other, other ∈ before ++ outcome :: after ↔ other = outcome ∨ other ∈ before ++ after := by
    intro other
    simp only [List.mem_append, List.mem_cons]
    tauto
  unfold worseVerdict
  by_cases hle : verdictPriority.idxOf (reduceVerdicts (before ++ after)) ≤
      verdictPriority.idxOf outcome.verdict
  · rw [if_pos hle]
    refine ⟨⟨worst, (hmem worst).mpr (.inr hworst), hverdict⟩, fun other hother => ?_⟩
    rcases (hmem other).mp hother with rfl | hold
    · exact hle
    · exact hleast other hold
  · rw [if_neg hle]
    refine ⟨⟨outcome, (hmem outcome).mpr (.inl rfl), rfl⟩, fun other hother => ?_⟩
    rcases (hmem other).mp hother with rfl | hold
    · exact le_rfl
    · have hother := hleast other hold
      omega

theorem reduceVerdicts_eq_contradicted (hruns : perRun ≠ []) :
    reduceVerdicts perRun = .contradicted ↔
      (∃ outcome ∈ perRun, outcome.verdict = .contradicted) ∧
        ∀ outcome ∈ perRun, outcome.verdict ≠ .verifierError := by
  rw [reduceVerdicts_eq_iff hruns]
  refine and_congr_right fun _ => forall₂_congr fun outcome _ => ?_
  cases outcome.verdict <;> decide

theorem reduceVerdicts_eq_indeterminate (hruns : perRun ≠ []) :
    reduceVerdicts perRun = .indeterminate ↔
      (∃ outcome ∈ perRun, outcome.verdict = .indeterminate) ∧
        ∀ outcome ∈ perRun, outcome.verdict = .indeterminate ∨ outcome.verdict = .confirmed := by
  rw [reduceVerdicts_eq_iff hruns]
  refine and_congr_right fun _ => forall₂_congr fun outcome _ => ?_
  cases outcome.verdict <;> decide

/-- What an adjudication that answers says about the record. -/
theorem record_of_adjudicate {kind : String} {get : String → VerifierRegistryEntry}
    {result : AdjudicationResult} (h : adjudicate kind runs get = .ok result) :
    (result.verdict, result.reasonCode) =
      if kind = "" ∨ runs = [] then (.verifierError, .malformedRequest)
      else
        (reduceVerdicts (runs.map (adjudicateRun (get kind))),
          buildRecordReasonCode (reduceVerdicts (runs.map (adjudicateRun (get kind))))
            (runs.map (adjudicateRun (get kind)))) := by
  unfold adjudicate at h
  by_cases hkind : kind = ""
  · rw [if_pos hkind] at h
    cases h
    rw [if_pos (.inl hkind)]
  · rw [if_neg hkind] at h
    by_cases hruns : runs = []
    · rw [if_pos hruns] at h
      cases h
      rw [if_pos (.inr hruns)]
    · rw [if_neg hruns] at h
      rw [if_neg (by tauto)]
      simp only at h
      cases hbuild : (get kind).buildAugmentedPayload with
      | none =>
        rw [hbuild] at h
        cases h
        rfl
      | some build =>
        rw [hbuild] at h
        simp only at h
        split_ifs at h with hconfirmed
        · cases h
          rfl
        · cases hpayload : build (reduceVerdicts (runs.map (adjudicateRun (get kind))))
              ((runs.map (adjudicateRun (get kind))).map fun outcome =>
                ⟨outcome.runId, outcome.evidence.artifacts⟩)
              ((runs.map (adjudicateRun (get kind))).map fun outcome =>
                ⟨outcome.runId, outcome.evidence.traces⟩) with
          | error error =>
            rw [hpayload] at h
            cases h
          | ok payload =>
            rw [hpayload] at h
            cases h
            rfl

/-- The verdict of an adjudication that answers. -/
theorem verdict_of_adjudicate {kind : String} {get : String → VerifierRegistryEntry}
    {result : AdjudicationResult} (h : adjudicate kind runs get = .ok result) :
    result.verdict =
      if kind = "" ∨ runs = [] then .verifierError
      else reduceVerdicts (runs.map (adjudicateRun (get kind))) := by
  have hrecord := congrArg Prod.fst (record_of_adjudicate h)
  rw [apply_ite Prod.fst] at hrecord
  exact hrecord

/-! ## The verdict for the user -/

/-- A flag that blocks whatever the runs say. -/
def blockingFlag (flags : List PolicyFlag) : Bool :=
  flags.contains .nonNegotiableBlocking || flags.contains .candidateLeakSuspect ||
    flags.contains .secretSuspect

theorem policyFlagVerdict_eq (flags : List PolicyFlag) (previewOnly : Bool) :
    (policyFlagVerdict flags previewOnly = .blocked ↔ blockingFlag flags = true) ∧
      (policyFlagVerdict flags previewOnly = .inconclusive ↔
        blockingFlag flags = false ∧ flags.contains .evidenceDagIncomplete = true) := by
  unfold policyFlagVerdict blockingFlag
  cases (flags.contains PolicyFlag.nonNegotiableBlocking ||
    flags.contains PolicyFlag.candidateLeakSuspect || flags.contains PolicyFlag.secretSuspect) <;>
  cases flags.contains PolicyFlag.evidenceDagIncomplete <;>
  cases (previewOnly && (flags.contains PolicyFlag.reproOverfitSuspect ||
    flags.contains PolicyFlag.lowDiscrimination)) <;> decide

/-- With an adjudication only the flags have a say before it. -/
theorem userVerdictOf_adjudicated {input : MapToB2CInput} {adjudication : AdjudicationResult}
    (h : input.adjudication = some adjudication) :
    userVerdictOf input =
      worstUserVerdict (policyFlagVerdict input.policyFlags input.previewOnly)
        (verdictFromOa adjudication.verdict) := by
  have hbefore : verdictBeforeAdjudication input =
      policyFlagVerdict input.policyFlags input.previewOnly := by
    unfold verdictBeforeAdjudication userVerdictFromPolicyFlags
    simp only [h, Option.isNone_some, Bool.and_false, Bool.false_eq_true, if_false]
    by_cases hnone : (policyFlagVerdict input.policyFlags input.previewOnly = .pass &&
        input.policyFlags.isEmpty) = true
    · rw [if_pos hnone]
      rw [Bool.and_eq_true, decide_eq_true_eq] at hnone
      exact hnone.1.symm
    · rw [if_neg hnone]
      cases policyFlagVerdict input.policyFlags input.previewOnly <;> rfl
  unfold userVerdictOf
  rw [h, hbefore]

/-- The longer record is judged at least as severely and opens no gate that the shorter one leaves
closed. -/
def WorstWins (shorter longer : MapToB2COutput) : Prop :=
  userVerdictSeverity.idxOf longer.verdictCard.verdict ≤
      userVerdictSeverity.idxOf shorter.verdictCard.verdict ∧
    (longer.receipt.canApply = true → shorter.receipt.canApply = true) ∧
    (longer.receipt.shouldSubmit = true → shorter.receipt.shouldSubmit = true)

/-- The two orders disagree on two pairs of verdicts. -/
theorem severity_worseVerdict (policy : UserVerdict) (verdict added : VerdictState) :
    userVerdictSeverity.idxOf
          (worstUserVerdict policy (verdictFromOa (worseVerdict verdict added))) ≤
        userVerdictSeverity.idxOf (worstUserVerdict policy (verdictFromOa verdict)) ↔
      ¬ ((policy ≠ .blocked ∧ added = .verifierError ∧ verdict = .contradicted) ∨
        (policy ≠ .blocked ∧ policy ≠ .inconclusive ∧ added = .corroboratedFailure ∧
          verdict = .indeterminate)) := by
  cases policy <;> cases verdict <;> cases added <;> decide

theorem worseVerdict_eq_confirmed {verdict added : VerdictState}
    (h : worseVerdict verdict added = .confirmed) : verdict = .confirmed := by
  cases verdict <;> cases added <;> first | rfl | exact absurd h (by decide)

/-- On outputs for the same flags everything follows from the severity of the verdicts. -/
theorem worstWins_iff (now : String) (input : MapToB2CInput) (runIds : List String)
    {shorter longer : AdjudicationResult} {added : VerdictState}
    (hverdict : longer.verdict = worseVerdict shorter.verdict added) :
    WorstWins (mapToB2C now { input with adjudication := some shorter })
        (mapToB2C now { input with adjudication := some longer, runIds := runIds }) ↔
      userVerdictSeverity.idxOf
          (worstUserVerdict (policyFlagVerdict input.policyFlags input.previewOnly)
            (verdictFromOa longer.verdict)) ≤
        userVerdictSeverity.idxOf
          (worstUserVerdict (policyFlagVerdict input.policyFlags input.previewOnly)
            (verdictFromOa shorter.verdict)) := by
  have hshorter : userVerdictOf { input with adjudication := some shorter } =
      worstUserVerdict (policyFlagVerdict input.policyFlags input.previewOnly)
        (verdictFromOa shorter.verdict) := userVerdictOf_adjudicated rfl
  have hlonger : userVerdictOf { input with adjudication := some longer, runIds := runIds } =
      worstUserVerdict (policyFlagVerdict input.policyFlags input.previewOnly)
        (verdictFromOa longer.verdict) := userVerdictOf_adjudicated rfl
  unfold WorstWins mapToB2C
  simp only [hshorter, hlonger, Option.all_some]
  refine ⟨fun h => h.1, fun hle => ⟨hle, fun happly => ?_, fun hsubmit => ?_⟩⟩
  · simp only [Bool.and_eq_true, decide_eq_true_eq] at happly ⊢
    obtain ⟨⟨⟨⟨hpass, hblocking⟩, hleak⟩, hsecret⟩, hconfirmed⟩ := happly
    rw [hverdict] at hconfirmed
    have hsame := worseVerdict_eq_confirmed hconfirmed
    rw [hverdict, hconfirmed] at hpass
    rw [hsame]
    exact ⟨⟨⟨⟨hpass, hblocking⟩, hleak⟩, hsecret⟩, rfl⟩
  · simp only [Bool.and_eq_true, decide_eq_true_eq] at hsubmit ⊢
    refine ⟨fun hblocked => hsubmit.1 ?_, hsubmit.2⟩
    rw [hblocked] at hle
    generalize worstUserVerdict (policyFlagVerdict input.policyFlags input.previewOnly)
      (verdictFromOa longer.verdict) = verdict at hle
    cases verdict <;> first | rfl | exact absurd hle (by decide)

/-- The added run hides what the others show: an error of the verifier hides a contradiction, or a
reported failure hides that the others are not decided. -/
def Hides (entry : VerifierRegistryEntry) (flags : List PolicyFlag) (runs : List Run) (run : Run) :
    Prop :=
  (blockingFlag flags = false ∧ (adjudicateRun entry run).verdict = .verifierError ∧
    (∃ other ∈ runs, (adjudicateRun entry other).verdict = .contradicted) ∧
    ∀ other ∈ runs, (adjudicateRun entry other).verdict ≠ .verifierError) ∨
  (blockingFlag flags = false ∧ flags.contains .evidenceDagIncomplete = false ∧
    (adjudicateRun entry run).verdict = .corroboratedFailure ∧
    (∃ other ∈ runs, (adjudicateRun entry other).verdict = .indeterminate) ∧
    ∀ other ∈ runs, (adjudicateRun entry other).verdict = .indeterminate ∨
      (adjudicateRun entry other).verdict = .confirmed)

theorem hides_iff {entry : VerifierRegistryEntry} (input : MapToB2CInput) {run : Run}
    (hruns : runs ≠ []) :
    Hides entry input.policyFlags runs run ↔
      (policyFlagVerdict input.policyFlags input.previewOnly ≠ .blocked ∧
        (adjudicateRun entry run).verdict = .verifierError ∧
        reduceVerdicts (runs.map (adjudicateRun entry)) = .contradicted) ∨
      (policyFlagVerdict input.policyFlags input.previewOnly ≠ .blocked ∧
        policyFlagVerdict input.policyFlags input.previewOnly ≠ .inconclusive ∧
        (adjudicateRun entry run).verdict = .corroboratedFailure ∧
        reduceVerdicts (runs.map (adjudicateRun entry)) = .indeterminate) := by
  have hmap : runs.map (adjudicateRun entry) ≠ [] := fun h => hruns (List.map_eq_nil_iff.mp h)
  rw [reduceVerdicts_eq_contradicted hmap, reduceVerdicts_eq_indeterminate hmap]
  simp only [ne_eq, policyFlagVerdict_eq,
    List.mem_map, exists_exists_and_eq_and, forall_exists_index, and_imp,
    forall_apply_eq_imp_iff₂]
  unfold Hides
  cases blockingFlag input.policyFlags <;>
    cases input.policyFlags.contains PolicyFlag.evidenceDagIncomplete <;> simp

/-- Adding a run never softens the verdict for the user, unless it hides what the others show. -/
theorem addedRun_worstWins_iff (now kind : String) (get : String → VerifierRegistryEntry)
    (before after : List Run) (run : Run) (input : MapToB2CInput) (runIds : List String)
    (shorter longer : AdjudicationResult) (hruns : before ++ after ≠ [])
    (hshorter : adjudicate kind (before ++ after) get = .ok shorter)
    (hlonger : adjudicate kind (before ++ run :: after) get = .ok longer) :
    WorstWins (mapToB2C now { input with adjudication := some shorter })
        (mapToB2C now { input with adjudication := some longer, runIds := runIds }) ↔
      kind = "" ∨ ¬ Hides (get kind) input.policyFlags (before ++ after) run := by
  have hs := verdict_of_adjudicate hshorter
  have hl := verdict_of_adjudicate hlonger
  by_cases hkind : kind = ""
  · rw [if_pos (.inl hkind)] at hs hl
    have hverdict : longer.verdict = worseVerdict shorter.verdict .verifierError := by
      rw [hs, hl]
      rfl
    rw [worstWins_iff now input runIds hverdict, hs, hl]
    exact iff_of_true le_rfl (.inl hkind)
  · have hmap : before.map (adjudicateRun (get kind)) ++ after.map (adjudicateRun (get kind)) ≠ [] := by
      rw [← List.map_append]
      exact fun h => hruns (List.map_eq_nil_iff.mp h)
    rw [if_neg (by tauto), List.map_append] at hs
    rw [if_neg (by simp [hkind]), List.map_append, List.map_cons, reduceVerdicts_insert hmap, ← hs]
      at hl
    rw [worstWins_iff now input runIds hl, hl, severity_worseVerdict, hides_iff input hruns,
      List.map_append, ← hs]
    tauto

/-- A run that reports success without any content. -/
def emptyRun : Run :=
  ⟨"a", .ok (some (.obj [("status", .str "completed")])), .ok (some (.arr [.str ""])),
    .ok (some (.arr [.str "span"]))⟩

/-- A run that cannot be fetched. -/
def lostRun : Run := ⟨"b", .error "timeout", .error "timeout", .error "timeout"⟩

def sampleInput : MapToB2CInput :=
  { kind := "edit", runIds := ["a"], previewOnly := false, policyFlags := [], diffPaths := ["a.ts"] }

/-- A contradicted run blocks submission; with a second run that cannot be fetched the record may be
submitted. -/
theorem lostRun_softens :
    ∃ shorter longer, adjudicate "edit" ([emptyRun] ++ []) (registryGet []) = .ok shorter ∧
      adjudicate "edit" ([emptyRun] ++ lostRun :: []) (registryGet []) = .ok longer ∧
      ¬ WorstWins (mapToB2C "" { sampleInput with adjudication := some shorter })
        (mapToB2C "" { sampleInput with adjudication := some longer, runIds := ["a", "b"] }) := by
  refine ⟨_, _, rfl, rfl, ?_⟩
  unfold WorstWins
  decide +kernel

/-- With the same run added twice nothing is softened. -/
theorem addedRun_worstWins_iff_sample :
    ∃ shorter longer, adjudicate "edit" ([emptyRun] ++ []) (registryGet []) = .ok shorter ∧
      adjudicate "edit" ([emptyRun] ++ emptyRun :: []) (registryGet []) = .ok longer ∧
      (WorstWins (mapToB2C "" { sampleInput with adjudication := some shorter })
          (mapToB2C "" { sampleInput with adjudication := some longer, runIds := ["a", "a"] }) ↔
        "edit" = "" ∨ ¬ Hides (registryGet [] "edit") sampleInput.policyFlags ([emptyRun] ++ [])
          emptyRun) :=
  ⟨_, _, rfl, rfl, addedRun_worstWins_iff "" "edit" (registryGet []) [emptyRun] [] emptyRun sampleInput
    ["a", "a"] _ _ (by simp) rfl rfl⟩

end AdaptorchWpl
