import OmkVerified.Lib.Text
import OmkVerified.CodingAgent.Subagents.Proofs.ScheduleProofs
import OmkVerified.Lib.FilePath

/-!
# Lanes without a blocker

What the absence of blockers says of the lanes: their ids are distinct and not blank, their dependencies
are lanes, and a lane that writes has a role that writes.
-/

namespace Subagents

open Lib

/-! ## Sorted texts -/

theorem mem_firsts {text : String} {texts : List String} : text ∈ firsts texts ↔ text ∈ texts := by
  induction texts with
  | nil => exact Iff.rfl
  | cons first texts ih =>
    rw [firsts, List.mem_cons, List.mem_filter, ih, List.mem_cons, decide_eq_true_eq]
    by_cases h : text = first
    · simp [h]
    · simp [h]

theorem mem_uniqueSorted {text : String} {values : List String} :
    text ∈ uniqueSorted values ↔ text ≠ "" ∧ ∃ value ∈ values, trimText value = text := by
  unfold uniqueSorted sortTexts
  rw [(List.mergeSort_perm _ _).mem_iff, List.mem_filter, List.mem_map, decide_eq_true_eq, and_comm]
  refine and_congr_right fun _ => exists_congr fun value => ?_
  rw [mem_firsts]

@[simp]
theorem trimText_trimText (text : String) : trimText (trimText text) = trimText text := by
  unfold trimText
  rw [String.toList_ofList, trim_trim]

variable {c : Char}

theorem trimText_ne_empty {text : String} (hmem : c ∈ text.toList) (hc : isWhitespace c = false) :
    trimText text ≠ "" := by
  intro h
  have htrim : trim text.toList = [] := by
    have hlist := congrArg String.toList h
    unfold trimText at hlist
    rw [String.toList_ofList] at hlist
    exact hlist
  exact trim_ne_nil hmem hc htrim

theorem trimText_append_ne_empty {start : String} (hmem : c ∈ start.toList)
    (hc : isWhitespace c = false) (rest : String) : trimText (start ++ rest) ≠ "" := by
  apply trimText_ne_empty _ hc
  rw [String.toList_append]
  exact List.mem_append_left _ hmem

theorem blank_of_uniqueSorted_eq_nil {values : List String} (h : uniqueSorted values = [])
    {value : String} (hvalue : value ∈ values) : trimText value = "" := by
  by_contra hne
  have hmem := (mem_uniqueSorted).mpr ⟨hne, value, hvalue, rfl⟩
  rw [h] at hmem
  exact List.not_mem_nil hmem

/-! ## Intake -/

theorem dependencyBlockers_blank {id label : String} {seen dependencies : List String}
    (hmem : c ∈ label.toList) (hc : isWhitespace c = false)
    (h : ∀ blocker ∈ dependencyBlockers id label seen dependencies, trimText blocker = "") :
    ∀ dependency ∈ dependencies, trimText dependency ≠ "" := by
  induction dependencies generalizing seen with
  | nil => simp
  | cons first dependencies ih =>
    unfold dependencyBlockers at h
    dsimp only at h
    by_cases hfirst : trimText first = ""
    · rw [if_pos hfirst] at h
      exact absurd (h _ List.mem_cons_self) (trimText_append_ne_empty hmem hc _)
    · rw [if_neg hfirst] at h
      have ih := ih fun blocker hblocker => h blocker (List.mem_append_right _ hblocker)
      intro dependency hdependency
      rcases List.mem_cons.mp hdependency with rfl | hdependency
      · exact hfirst
      · exact ih dependency hdependency

theorem label_nonblank (id : String) (index : Nat) :
    'l' ∈ (if id = "" then "lane at index " ++ toString index else "lane " ++ id).toList := by
  have hindex : 'l' ∈ "lane at index ".toList := by simp
  have hid : 'l' ∈ "lane ".toList := by simp
  split
  · rw [String.toList_append]
    exact List.mem_append_left (toString index).toList hindex
  · rw [String.toList_append]
    exact List.mem_append_left id.toList hid

/-- What intake leaves of the lanes after the ids of `seen`. -/
structure Admitted (seen : List (String × Nat)) (lanes : List SubagentLaneSpec) : Prop where
  nodup : (lanes.map fun lane => trimText lane.id).Nodup
  nonblank : ∀ lane ∈ lanes, trimText lane.id ≠ ""
  unseen : ∀ lane ∈ lanes, seen.lookup (trimText lane.id) = none
  dependencies : ∀ lane ∈ lanes, ∀ dependency ∈ lane.dependsOn.getD [], trimText dependency ≠ ""

theorem admitted_of_intake {seen : List (String × Nat)} (index : Nat) {lanes : List SubagentLaneSpec}
    (h : ∀ blocker ∈ intakeFrom seen index lanes, trimText blocker = "") : Admitted seen lanes := by
  induction lanes generalizing seen index with
  | nil => exact ⟨List.nodup_nil, by simp, by simp, by simp⟩
  | cons lane lanes ih =>
    unfold intakeFrom at h
    have hlane : ∀ blocker ∈ laneBlockers seen index lane, trimText blocker = "" :=
      fun blocker hblocker => h blocker (List.mem_append_left _ hblocker)
    have ih := ih (index + 1) fun blocker hblocker => h blocker (List.mem_append_right _ hblocker)
    have hletter : isWhitespace 'l' = false := by decide +kernel
    unfold laneBlockers at hlane
    dsimp only at hlane
    have hne : trimText lane.id ≠ "" := by
      intro hempty
      rw [if_pos hempty] at hlane
      refine absurd (hlane _ (List.mem_append_left _ (List.mem_append_left _ List.mem_cons_self))) ?_
      rw [String.append_assoc]
      exact trimText_append_ne_empty (c := 'l') (by decide +kernel) hletter _
    have hunseen : seen.lookup (trimText lane.id) = none := by
      rw [if_neg hne] at hlane
      cases hlookup : seen.lookup (trimText lane.id) with
      | none => rfl
      | some first =>
        rw [hlookup] at hlane
        refine absurd (hlane _ (List.mem_append_left _ (List.mem_append_left _
          List.mem_cons_self))) ?_
        simp only [String.append_assoc]
        exact trimText_append_ne_empty (c := 'd') (by decide +kernel) (by decide +kernel) _
    have hsee : seeLane seen index lane = seen ++ [(trimText lane.id, index)] := by
      unfold seeLane
      dsimp only
      rw [if_neg]
      rw [hunseen]
      simp [hne]
    have hdependencies := dependencyBlockers_blank (label_nonblank (trimText lane.id) index) hletter
      fun blocker hblocker => hlane blocker (List.mem_append_right _ hblocker)
    rw [hsee] at ih
    have hlater : ∀ other ∈ lanes, trimText other.id ≠ trimText lane.id ∧
        seen.lookup (trimText other.id) = none := by
      intro other hother
      have hnone := ih.unseen other hother
      rw [List.lookup_append, Option.or_eq_none_iff] at hnone
      refine ⟨fun heq => ?_, hnone.1⟩
      rw [heq] at hnone
      simp at hnone
    refine ⟨?_, ?_, ?_, ?_⟩
    · rw [List.map_cons, List.nodup_cons]
      refine ⟨fun hmem => ?_, ih.nodup⟩
      obtain ⟨other, hother, heq⟩ := List.mem_map.mp hmem
      exact (hlater other hother).1 heq
    · intro other hother
      rcases List.mem_cons.mp hother with rfl | hother
      · exact hne
      · exact ih.nonblank other hother
    · intro other hother
      rcases List.mem_cons.mp hother with rfl | hother
      · exact hunseen
      · exact (hlater other hother).2
    · intro other hother
      rcases List.mem_cons.mp hother with rfl | hother
      · exact hdependencies
      · exact ih.dependencies other hother

end Subagents

/-!
# A plan without blockers

Scheduling always ends, and a plan without a blocker runs every lane once, after what it waits for and
apart from every lane whose paths it writes.
-/

namespace Subagents

open Lib

variable {runId : String} {inventory : CapabilityInventory} {spawnReceipt : Option LaneSpawnReceipt}

/-! ## Paths -/

/-- The paths of a scope. -/
def namedPaths (scope : Option (List String)) : List String :=
  ((scope.getD []).map trimText).filter (· ≠ "")

/-- In some working directory, one path is the other or lies below it. -/
def PathsMeet (cwd : List (List Char)) (left right : String) : Prop :=
  resolveSegments cwd (forwardSlashes left.toList) <+: resolveSegments cwd (forwardSlashes right.toList) ∨
    resolveSegments cwd (forwardSlashes right.toList) <+: resolveSegments cwd (forwardSlashes left.toList)

theorem mem_toAccessSet {path : String} {paths : Option (List String)} :
    path ∈ toAccessSet paths ↔ path ∈ namedPaths paths := by
  unfold toAccessSet sortTexts namedPaths
  rw [(List.mergeSort_perm _ _).mem_iff, mem_firsts]

theorem laneAuthorityForRole_eq (role : LoadoutRole) :
    laneAuthorityForRole role = some .writeScoped := by
  cases role <;> decide +kernel

theorem writeSet_of_parallelizable {role : LoadoutRole} {reads writes : Option (List String)}
    (h : (deriveSchedulerFields role reads writes).parallelizable = true) :
    (deriveSchedulerFields role reads writes).writeSet = [] := by
  have hparallel : deriveParallelizable (laneAuthorityForRole role)
      (deriveSchedulerFields role reads writes).writeSet = true := h
  rw [laneAuthorityForRole_eq] at hparallel
  unfold deriveParallelizable at hparallel
  split at hparallel
  · exact List.length_eq_zero_iff.mp ‹_›
  · rw [if_pos rfl] at hparallel
    cases hparallel

theorem writes_of_role {role : SubagentOrchestrationRole}
    (h : (resolveSubagentRoleAssignment role).writesProductFiles = true) :
    (resolveSubagentRoleAssignment role).loadoutRole ∈ writingRoles := by
  revert h
  cases role <;> decide

/-! ## Prepared lanes -/

/-- What preparing a lane keeps of it. -/
structure Prepares (spec : SubagentLaneSpec) (result : PreparedResult) : Prop where
  sameSpec : result.lane.spec = spec
  dependsOn : result.lane.dependsOn = uniqueSorted (spec.dependsOn.getD [])
  laneId : result.lane.grant.laneId = spec.id
  scheduler : result.lane.grant.scheduler = deriveSchedulerFields
    (resolveSubagentRoleAssignment spec.role).loadoutRole spec.readScope spec.writeScope
  writes : 0 < (spec.writeScope.getD []).length →
    (resolveSubagentRoleAssignment spec.role).writesProductFiles = false →
      "lane " ++ spec.id ++ " role " ++ spec.role.text ++ " cannot write product files" ∈
        result.blockers

theorem prepareLane_spec {spec : SubagentLaneSpec} {index : Nat} {result : PreparedResult}
    (h : prepareLane runId inventory spawnReceipt spec index = .ok result) :
    Prepares spec result := by
  unfold prepareLane at h
  dsimp only at h
  cases hprofile : resolveLoadoutProfile spec (resolveSubagentRoleAssignment spec.role) with
  | error e =>
    rw [hprofile] at h
    cases h
  | ok found =>
    rw [hprofile] at h
    cases h
    refine ⟨rfl, rfl, rfl, rfl, fun hlength hrole => ?_⟩
    dsimp only
    rw [if_pos ⟨hlength, by rw [hrole]; rfl⟩]
    exact List.mem_append_left _ (List.mem_append_left _ List.mem_cons_self)

theorem forall₂_of_mapM {α β ε : Type} {f : α → Except ε β} {items : List α} {results : List β}
    (h : items.mapM f = .ok results) : List.Forall₂ (fun a b => f a = .ok b) items results := by
  induction items generalizing results with
  | nil =>
    cases h
    exact .nil
  | cons a items ih =>
    rw [List.mapM_cons] at h
    cases hfirst : f a with
    | error e =>
      rw [hfirst] at h
      cases h
    | ok b =>
      cases hrest : items.mapM f with
      | error e =>
        rw [hfirst, hrest] at h
        cases h
      | ok rest =>
        rw [hfirst, hrest] at h
        cases h
        exact .cons hfirst (ih hrest)

variable {lanes : List SubagentLaneSpec}

/-- The lanes are prepared one by one, in their order. -/
theorem prepares_of_mapM {results : List PreparedResult} {start : Nat}
    (h : (lanes.zipIdx start).mapM (fun lane =>
      prepareLane runId inventory spawnReceipt lane.1 lane.2) = .ok results) :
    List.Forall₂ Prepares lanes results := by
  have hall := forall₂_of_mapM h
  clear h
  induction lanes generalizing results start with
  | nil =>
    cases hall
    exact .nil
  | cons lane lanes ih =>
    rw [List.zipIdx_cons] at hall
    cases hall with
    | cons hfirst hrest => exact .cons (prepareLane_spec hfirst) (ih hrest)

theorem map_spec_of_prepares {results : List PreparedResult}
    (h : List.Forall₂ Prepares lanes results) : results.map (·.lane.spec) = lanes := by
  induction h with
  | nil => rfl
  | cons hfirst _ ih => rw [List.map_cons, ih, hfirst.sameSpec]

theorem prepares_of_mem {results : List PreparedResult} (h : List.Forall₂ Prepares lanes results)
    {result : PreparedResult} (hmem : result ∈ results) : Prepares result.lane.spec result := by
  induction h with
  | nil => exact absurd hmem List.not_mem_nil
  | cons hfirst _ ih =>
    rcases List.mem_cons.mp hmem with rfl | hmem
    · rw [hfirst.sameSpec]
      exact hfirst
    · exact ih hmem

/-! ## Receipts -/

section Receipts

variable {producerIds : List String} {lane : PreparedLane}

@[simp]
theorem spec_addReceipts : (addReceipts producerIds lane).spec = lane.spec := by
  unfold addReceipts
  dsimp only
  split_ifs <;> rfl

@[simp]
theorem laneId_addReceipts : (addReceipts producerIds lane).grant.laneId = lane.grant.laneId := by
  unfold addReceipts
  dsimp only
  split_ifs <;> rfl

@[simp]
theorem scheduler_addReceipts :
    (addReceipts producerIds lane).grant.scheduler = lane.grant.scheduler := by
  unfold addReceipts
  dsimp only
  split_ifs <;> rfl

@[simp]
theorem evidenceOutput_addReceipts :
    (addReceipts producerIds lane).grant.evidenceOutput = lane.grant.evidenceOutput := by
  unfold addReceipts
  dsimp only
  split_ifs <;> rfl

/-- A lane keeps the dependencies it has. -/
theorem mem_addReceipts_of_mem {values : List String} (hlane : lane.dependsOn = uniqueSorted values)
    {dependency : String} (h : dependency ∈ lane.dependsOn) :
    dependency ∈ (addReceipts producerIds lane).dependsOn := by
  unfold addReceipts
  dsimp only
  split_ifs
  · exact h
  · exact h
  · have hmem := h
    rw [hlane] at hmem
    obtain ⟨hne, value, -, htrim⟩ := mem_uniqueSorted.mp hmem
    refine mem_uniqueSorted.mpr ⟨hne, dependency, List.mem_append_left _ h, ?_⟩
    rw [← htrim, trimText_trimText]

/-- A lane that reads receipts waits for the lanes that write them. -/
theorem mem_addReceipts_of_producer (hreads : isReceiptReadingConsumer lane = true)
    {producer : String} (hproducer : producer ∈ producerIds) (hne : producer ≠ lane.spec.id)
    (hblank : trimText producer ≠ "") :
    trimText producer ∈ (addReceipts producerIds lane).dependsOn := by
  have hmem : trimText producer ∈
      uniqueSorted (lane.dependsOn ++ producerIds.filter (· ≠ lane.spec.id)) := by
    refine mem_uniqueSorted.mpr ⟨hblank, producer, List.mem_append_right _ ?_, rfl⟩
    rw [List.mem_filter, decide_eq_true_eq]
    exact ⟨hproducer, hne⟩
  have hsome : producerIds.length ≠ 0 := by
    intro hzero
    rw [List.length_eq_zero_iff.mp hzero] at hproducer
    exact List.not_mem_nil hproducer
  unfold addReceipts
  rw [hreads]
  dsimp only
  rw [if_neg (by simp [hsome])]
  split_ifs with hsame
  · rw [← hsame]
    exact hmem
  · exact hmem

end Receipts

/-! ## The plan -/

/-- What a plan without a blocker is to be. -/
structure WellScheduled (input : BuildSubagentOrchestrationPlanInput)
    (plan : SubagentOrchestrationPlan) : Prop where
  distinct : (input.lanes.map (·.id)).Nodup
  once : (plan.batches.map (·.laneIds)).flatten.Perm (input.lanes.map (·.id))
  declared : ∀ lane ∈ input.lanes, ∀ dependency ∈ lane.dependsOn.getD [],
    Earlier (plan.batches.map (·.laneIds)) (trimText dependency) lane.id
  receipts : ∀ lane ∈ input.lanes, ∀ producer ∈ input.lanes, ∀ grant ∈ plan.laneGrants,
    isReceiptConsumerRole lane.role = true → (lane.readScope.getD []).any isReceiptPath = true →
      isReceiptConsumerRole producer.role = false → grant.laneId = producer.id →
      grant.evidenceOutput.isSome = true →
        Earlier (plan.batches.map (·.laneIds)) producer.id lane.id
  limit : ∀ limit ∈ input.maxParallelLanes, ∀ batch ∈ plan.batches,
    JsNumber.finite batch.laneIds.length ≤ limit
  alone : ∀ grant ∈ plan.laneGrants, grant.scheduler.parallelizable = false →
    ∀ batch ∈ plan.batches, grant.laneId ∈ batch.laneIds → batch.laneIds = [grant.laneId]
  apart : ∀ cwd, ∀ batch ∈ plan.batches, ∀ left ∈ input.lanes, ∀ right ∈ input.lanes,
    left.id ∈ batch.laneIds → right.id ∈ batch.laneIds → left.id ≠ right.id →
      ∀ written ∈ namedPaths left.writeScope,
        ∀ path ∈ namedPaths right.readScope ++ namedPaths right.writeScope,
          ¬ PathsMeet cwd written path

section Plan

variable {input : BuildSubagentOrchestrationPlanInput} {results : List PreparedResult}
  {scheduled : List String} {batches : List SubagentScheduleBatch}

/-- The lanes as they are scheduled. -/
def lanesOf (results : List PreparedResult) : List PreparedLane :=
  applyReceiptConsumerDependencies (results.map (·.lane))

theorem map_id_lanesOf (h : List.Forall₂ Prepares input.lanes results) :
    (lanesOf results).map (·.spec.id) = input.lanes.map (·.id) := by
  rw [← map_spec_of_prepares h]
  unfold lanesOf applyReceiptConsumerDependencies
  simp [List.map_map, Function.comp_def]

/-- The prepared lane of a spec. -/
theorem exists_result (h : List.Forall₂ Prepares input.lanes results) {lane : SubagentLaneSpec}
    (hlane : lane ∈ input.lanes) : ∃ result ∈ results, result.lane.spec = lane ∧
      addReceipts (receiptProducerIds (results.map (·.lane))) result.lane ∈ lanesOf results := by
  rw [← map_spec_of_prepares h] at hlane
  obtain ⟨result, hresult, heq⟩ := List.mem_map.mp hlane
  exact ⟨result, hresult, heq, List.mem_map_of_mem (List.mem_map_of_mem hresult)⟩

/-- A lane that shares its batch writes nothing. -/
theorem namedPaths_of_shared (h : List.Forall₂ Prepares input.lanes results)
    (hstate : LoopState (lanesOf results) input.maxParallelLanes scheduled batches)
    (hids : (input.lanes.map (·.id)).Nodup)
    (hblank : ∀ result ∈ results, ∀ blocker ∈ result.blockers, trimText blocker = "")
    {batch : SubagentScheduleBatch} (hbatch : batch ∈ batches) {left right : SubagentLaneSpec}
    (hleft : left ∈ input.lanes) (hleftId : left.id ∈ batch.laneIds)
    (hrightId : right.id ∈ batch.laneIds) (hne : left.id ≠ right.id) :
    namedPaths left.writeScope = [] := by
  obtain ⟨result, hresult, rfl, hlane⟩ := exists_result h hleft
  have hprepares := prepares_of_mem h hresult
  cases hparallel : result.lane.grant.scheduler.parallelizable with
  | false =>
    exfalso
    rw [← map_id_lanesOf h] at hids
    have halone := hstate.alone hids hlane (by rw [scheduler_addReceipts, hparallel]) hbatch
      (by rw [spec_addReceipts]; exact hleftId)
    rw [halone, spec_addReceipts, List.mem_singleton] at hrightId
    exact hne hrightId.symm
  | true =>
    rw [hprepares.scheduler] at hparallel
    have hwriteSet := writeSet_of_parallelizable hparallel
    cases hwrites : (resolveSubagentRoleAssignment result.lane.spec.role).writesProductFiles with
    | true =>
      unfold deriveSchedulerFields at hwriteSet
      dsimp only at hwriteSet
      rw [if_pos (writes_of_role hwrites)] at hwriteSet
      rw [List.eq_nil_iff_forall_not_mem]
      intro path hpath
      rw [← mem_toAccessSet, hwriteSet] at hpath
      exact List.not_mem_nil hpath
    | false =>
      by_cases hlength : 0 < (result.lane.spec.writeScope.getD []).length
      · have hmessage := hblank result hresult _ (hprepares.writes hlength hwrites)
        refine absurd hmessage ?_
        simp only [String.append_assoc]
        exact trimText_append_ne_empty (c := 'l') (by simp) (by decide) _
      · unfold namedPaths
        rw [List.length_eq_zero_iff.mp (Nat.eq_zero_of_not_pos hlength)]
        rfl

/-- A lane that reads receipts runs after a lane that writes one, which is found by its trimmed id. -/
theorem earlier_of_receipt (h : List.Forall₂ Prepares input.lanes results)
    (hstate : LoopState (lanesOf results) input.maxParallelLanes scheduled batches)
    (hall : (lanesOf results).length ≤ scheduled.length) (hadmitted : Admitted [] input.lanes)
    (hids : (input.lanes.map (·.id)).Nodup) {lane producer : SubagentLaneSpec}
    (hlane : lane ∈ input.lanes) (hproducer : producer ∈ input.lanes) {grant : SubagentLaneGrant}
    (hgrant : grant ∈ (lanesOf results).map (·.grant))
    (hconsumer : isReceiptConsumerRole lane.role = true)
    (hreads : (lane.readScope.getD []).any isReceiptPath = true)
    (hrole : isReceiptConsumerRole producer.role = false) (hid : grant.laneId = producer.id)
    (houtput : grant.evidenceOutput.isSome = true) :
    trimText producer.id = producer.id ∧
      Earlier (batches.map (·.laneIds)) producer.id lane.id := by
  have hlaneIds := hids
  rw [← map_id_lanesOf h] at hlaneIds
  -- the grant is the one of the producer
  obtain ⟨other, hother, rfl⟩ := List.mem_map.mp hgrant
  obtain ⟨prepared, hprepared, rfl⟩ := List.mem_map.mp hother
  obtain ⟨source, hsource, rfl⟩ := List.mem_map.mp hprepared
  rw [laneId_addReceipts, (prepares_of_mem h hsource).laneId] at hid
  rw [evidenceOutput_addReceipts] at houtput
  have hsourceMem : source.lane.spec ∈ input.lanes := by
    rw [← map_spec_of_prepares h]
    exact List.mem_map_of_mem hsource
  have hspec := List.inj_on_of_nodup_map hids hsourceMem hproducer hid
  obtain ⟨result, hresult, rfl, hmem⟩ := exists_result h hlane
  have hne : producer.id ≠ result.lane.spec.id := by
    intro heq
    rw [List.inj_on_of_nodup_map hids hproducer hlane heq, hconsumer] at hrole
    cases hrole
  have hproduces : producer.id ∈ receiptProducerIds (results.map (·.lane)) := by
    unfold receiptProducerIds
    refine List.mem_map.mpr ⟨source.lane, List.mem_filter.mpr ⟨hprepared, ?_⟩, by rw [hspec]⟩
    rw [houtput, hspec, hrole]
    rfl
  have hreading : isReceiptReadingConsumer result.lane = true := by
    unfold isReceiptReadingConsumer
    rw [hconsumer, hreads]
    rfl
  have hearlier := hstate.earlier hlaneIds hall hmem
    (mem_addReceipts_of_producer hreading hproduces hne (hadmitted.nonblank producer hproducer))
  -- the trimmed id is that of a lane, and only the producer has it
  have htrim : trimText producer.id = producer.id := by
    obtain ⟨front, batch, back, heq, hfront, -⟩ := hearlier
    have hflat : trimText producer.id ∈ (batches.map (·.laneIds)).flatten := by
      rw [heq, List.flatten_append]
      exact List.mem_append_left _ hfront
    rw [(hstate.perm hlaneIds hall).mem_iff, map_id_lanesOf h] at hflat
    obtain ⟨twin, htwin, htwinId⟩ := List.mem_map.mp hflat
    have hsame : trimText twin.id = trimText producer.id := by rw [htwinId, trimText_trimText]
    rw [← htwinId, List.inj_on_of_nodup_map hadmitted.nodup htwin hproducer hsame]
  rw [htrim, spec_addReceipts] at hearlier
  exact ⟨htrim, hearlier⟩

/-- A schedule of all lanes, none of which has a blocker. -/
theorem wellScheduled_of_state (h : List.Forall₂ Prepares input.lanes results)
    (hstate : LoopState (lanesOf results) input.maxParallelLanes scheduled batches)
    (hall : (lanesOf results).length ≤ scheduled.length) (hadmitted : Admitted [] input.lanes)
    (hblank : ∀ result ∈ results, ∀ blocker ∈ result.blockers, trimText blocker = "")
    {plan : SubagentOrchestrationPlan}
    (hgrants : plan.laneGrants = (lanesOf results).map (·.grant)) (hbatches : plan.batches = batches) :
    WellScheduled input plan := by
  have hids : (input.lanes.map (·.id)).Nodup := by
    apply List.Nodup.of_map trimText
    rw [List.map_map]
    exact hadmitted.nodup
  have hlaneIds := hids
  rw [← map_id_lanesOf h] at hlaneIds
  have hperm := hstate.perm hlaneIds hall
  rw [map_id_lanesOf h] at hperm
  subst hbatches
  refine ⟨hids, hperm, ?_, ?_, ?_, ?_, ?_⟩
  · intro lane hlane dependency hdependency
    have hne := hadmitted.dependencies lane hlane dependency hdependency
    obtain ⟨result, hresult, rfl, hmem⟩ := exists_result h hlane
    have hprepares := prepares_of_mem h hresult
    have hdeclared : trimText dependency ∈ result.lane.dependsOn := by
      rw [hprepares.dependsOn]
      exact mem_uniqueSorted.mpr ⟨hne, dependency, hdependency, rfl⟩
    have hearlier := hstate.earlier hlaneIds hall hmem
      (mem_addReceipts_of_mem hprepares.dependsOn hdeclared)
    rwa [spec_addReceipts] at hearlier
  · intro lane hlane producer hproducer grant hgrant hconsumer hreads hrole hid houtput
    rw [hgrants] at hgrant
    exact (earlier_of_receipt h hstate hall hadmitted hids hlane hproducer hgrant hconsumer hreads hrole
      hid houtput).2
  · intro limit hlimit batch hbatch
    exact hstate.limit hlimit hbatch
  · intro grant hgrant hserial batch hbatch hid
    rw [hgrants] at hgrant
    obtain ⟨lane, hlane, rfl⟩ := List.mem_map.mp hgrant
    have hsame : lane.grant.laneId = lane.spec.id := by
      obtain ⟨prepared, hprepared, rfl⟩ := List.mem_map.mp hlane
      obtain ⟨result, hresult, rfl⟩ := List.mem_map.mp hprepared
      rw [laneId_addReceipts, spec_addReceipts]
      exact (prepares_of_mem h hresult).laneId
    rw [hsame] at hid ⊢
    exact hstate.alone hlaneIds hlane hserial hbatch hid
  · intro cwd batch hbatch left hleft right _ hleftId hrightId hne written hwritten
    rw [namedPaths_of_shared h hstate hids hblank hbatch hleft hleftId hrightId hne] at hwritten
    exact absurd hwritten List.not_mem_nil

end Plan

/-- Scheduling ends, and a plan without a blocker is well scheduled. -/
theorem buildSubagentOrchestrationPlan_wellScheduled (input : BuildSubagentOrchestrationPlanInput) :
    (∃ error, buildSubagentOrchestrationPlan input = .error error) ∨
      ∃ plan, buildSubagentOrchestrationPlan input = .ok (some plan) ∧
        (plan.blockers = [] → WellScheduled input plan) := by
  unfold buildSubagentOrchestrationPlan
  by_cases hlimit : input.maxParallelLanes.any (!isPositiveInteger ·) = true
  · rw [if_pos hlimit]
    exact .inl ⟨_, rfl⟩
  rw [if_neg hlimit]
  have hadmits : Admits input.maxParallelLanes := by
    intro limit hmem
    rw [Option.mem_def.mp hmem] at hlimit
    simpa using hlimit
  cases hgate : evaluateSpawnGate input.lanes.length input.spawnPlan (input.spawnThreshold.getD 4) with
  | error error => exact .inl ⟨error, rfl⟩
  | ok spawnGate =>
    cases hresults : input.lanes.zipIdx.mapM (fun lane =>
        prepareLane input.runId input.inventory input.spawnPlan lane.1 lane.2) with
    | error error => exact .inl ⟨error, rfl⟩
    | ok results =>
      have hprepares := prepares_of_mapM hresults
      obtain ⟨scheduled, batches, blockers, hschedule, hstate, hend⟩ :=
        schedulePreparedLanes_spec (lanesOf results) hadmits
      refine .inr ⟨_, congrArg (fun schedule => Except.ok (Option.map _ schedule)) hschedule, ?_⟩
      intro hnone
      have hblank : ∀ blocker ∈ validateLaneIntake input.lanes ++
          (if spawnGate.allowed = true then [] else [spawnGate.reason]) ++
          results.flatMap (·.blockers) ++ findDependencyBlockers (results.map (·.lane)) ++ blockers,
          trimText blocker = "" := fun blocker => blank_of_uniqueSorted_eq_nil hnone
      have hadmitted : Admitted [] input.lanes := by
        refine admitted_of_intake 0 fun blocker hblocker => hblank blocker ?_
        simp only [List.mem_append]
        exact .inl (.inl (.inl (.inl hblocker)))
      have hall : (lanesOf results).length ≤ scheduled.length := by
        rcases hend with ⟨-, hall⟩ | ⟨-, -, ids, rfl⟩
        · exact hall
        · have hmessage := hblank _ (List.mem_append_right _ List.mem_cons_self)
          exact absurd hmessage (trimText_append_ne_empty (c := 'l') (by simp) (by decide) _)
      refine wellScheduled_of_state hprepares hstate hall hadmitted ?_ rfl rfl
      intro result hresult blocker hblocker
      apply hblank
      simp only [List.mem_append, List.mem_flatMap]
      exact .inl (.inl (.inr ⟨result, hresult, hblocker⟩))

/-- A critic that reads the receipt of an executor. -/
def receiptInput : BuildSubagentOrchestrationPlanInput :=
  { runId := "run"
    lanes :=
      [{ id := "check", role := .critic, task := "check", readScope := some [".omk/runs/run"] },
       { id := "build", role := .executor, task := "build", writeScope := some ["src/a.ts"] }]
    inventory := { tools := [], skills := [], mcp := [], hooks := [] } }

example :
    (buildSubagentOrchestrationPlan receiptInput).toOption.map (Option.map fun plan =>
      (plan.blockers, plan.batches.map SubagentScheduleBatch.laneIds)) =
        some (some ([], [["build"], ["check"]])) := by decide +kernel

end Subagents
