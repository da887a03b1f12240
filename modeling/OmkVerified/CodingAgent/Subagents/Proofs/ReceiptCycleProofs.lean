import OmkVerified.CodingAgent.Subagents.Proofs.PlanProofs
import OmkVerified.Lib.Waiting

/-!
# Lanes that wait for receipts

Lanes that read receipts are made to wait for all lanes that write one. The plan is scheduled exactly when no
lane that writes a receipt depends on one that reads receipts, and when the ids it waits for are those of
lanes after they are trimmed.
-/

namespace Subagents

open Lib Relation

/-! ## What the lanes declare -/

/-- The declared dependencies, by id. -/
def WaitsFor (lanes : List SubagentLaneSpec) (id dependency : String) : Prop :=
  ∃ lane ∈ lanes, lane.id = id ∧ dependency ∈ uniqueSorted (lane.dependsOn.getD [])

/-- Where the lane writes its receipt: its own pattern or that of its loadout. -/
def receiptPattern (lane : SubagentLaneSpec) : Option String :=
  lane.evidenceOutput.or
    ((findLoadout (lane.loadoutName.getD (resolveSubagentRoleAssignment lane.role).loadoutName)).bind
      LoadoutProfile.outputPattern)

/-- A lane that others wait for. -/
def WritesReceipt (lane : SubagentLaneSpec) : Prop :=
  isReceiptConsumerRole lane.role = false ∧ ∃ pattern, receiptPattern lane = some pattern ∧ pattern ≠ ""

/-- A lane that waits for all that write receipts. -/
def ReadsReceipts (lane : SubagentLaneSpec) : Prop :=
  isReceiptConsumerRole lane.role = true ∧ (lane.readScope.getD []).any isReceiptPath = true

/-- Nothing about the lanes blocks a plan: what they declare has no cycle, and only the receipts are left. -/
structure Declared (input : BuildSubagentOrchestrationPlanInput) : Prop where
  intake : validateLaneIntake input.lanes = []
  limit : Admits input.maxParallelLanes
  gate : ∃ spawnGate, evaluateSpawnGate input.lanes.length input.spawnPlan
    (input.spawnThreshold.getD 4) = .ok spawnGate ∧ spawnGate.allowed = true
  prepared : ∀ lane ∈ input.lanes, ∀ index, ∃ result,
    prepareLane input.runId input.inventory input.spawnPlan lane index = .ok result ∧
      result.blockers = []
  exist : ∀ id dependency, WaitsFor input.lanes id dependency →
    dependency ∈ input.lanes.map (·.id)
  acyclic : ∀ id, ¬ TransGen (WaitsFor input.lanes) id id

/-- No lane that writes a receipt depends on one that reads receipts, directly or through other lanes, and
the id of a lane that is waited for has no white space around it. -/
structure ReceiptsInOrder (lanes : List SubagentLaneSpec) : Prop where
  trimmed : ∀ consumer ∈ lanes, ReadsReceipts consumer → ∀ producer ∈ lanes, WritesReceipt producer →
    trimText producer.id = producer.id
  order : ∀ consumer ∈ lanes, ReadsReceipts consumer → ∀ producer ∈ lanes, WritesReceipt producer →
    ¬ TransGen (WaitsFor lanes) producer.id consumer.id

/-! ## Preparing declared lanes -/

/-- The receipt that a lane without a blocker is granted. -/
theorem evidenceOutput_isSome_iff {runId : String} {inventory : CapabilityInventory}
    {spawnReceipt : Option LaneSpawnReceipt} {spec : SubagentLaneSpec} {index : Nat}
    {result : PreparedResult} (h : prepareLane runId inventory spawnReceipt spec index = .ok result)
    (hblockers : result.blockers = []) :
    result.lane.grant.evidenceOutput.isSome = true ↔
      ∃ pattern, receiptPattern spec = some pattern ∧ pattern ≠ "" := by
  unfold prepareLane at h
  dsimp only at h
  cases hprofile : resolveLoadoutProfile spec (resolveSubagentRoleAssignment spec.role) with
  | error e =>
    rw [hprofile] at h
    cases h
  | ok found =>
    obtain ⟨profile, profileBlockers⟩ := found
    rw [hprofile] at h
    cases h
    have hnone : profileBlockers = [] := by
      simp only [List.append_eq_nil_iff] at hblockers
      exact hblockers.1.2
    have hfound : findLoadout (spec.loadoutName.getD
        (resolveSubagentRoleAssignment spec.role).loadoutName) = some profile := by
      unfold resolveLoadoutProfile at hprofile
      dsimp only at hprofile
      split at hprofile
      · cases hprofile
      · split at hprofile
        · cases hprofile
          assumption
        · cases hprofile
          cases hnone
    have hpattern : receiptPattern spec = spec.evidenceOutput.or profile.outputPattern := by
      rw [receiptPattern, hfound]
      rfl
    rw [hpattern]
    dsimp only [buildSubagentLaneGrant, evidenceOutputFor]
    cases spec.evidenceOutput.or profile.outputPattern with
    | none => simp
    | some pattern => simp

/-- A prepared lane without a blocker, with its receipt. -/
structure Clear (spec : SubagentLaneSpec) (result : PreparedResult) : Prop where
  prepares : Prepares spec result
  blockers : result.blockers = []
  receipt : result.lane.grant.evidenceOutput.isSome = true ↔
    ∃ pattern, receiptPattern spec = some pattern ∧ pattern ≠ ""

theorem mapM_of_forall {α β ε : Type} {f : α → Except ε β} {P : α → β → Prop} {items : List α}
    (h : ∀ a ∈ items, ∃ b, f a = .ok b ∧ P a b) :
    ∃ results, items.mapM f = .ok results ∧ List.Forall₂ P items results := by
  induction items with
  | nil => exact ⟨[], rfl, .nil⟩
  | cons a items ih =>
    obtain ⟨b, hb, hP⟩ := h a List.mem_cons_self
    obtain ⟨results, hresults, hall⟩ := ih fun a ha => h a (List.mem_cons_of_mem _ ha)
    refine ⟨b :: results, ?_, .cons hP hall⟩
    rw [List.mapM_cons, hb, hresults]
    rfl

theorem forall₂_zipIdx {α β : Type} {P : α → β → Prop} {items : List α} {results : List β}
    {start : Nat} (h : List.Forall₂ (fun item result => P item.1 result) (items.zipIdx start) results) :
    List.Forall₂ P items results := by
  induction items generalizing results start with
  | nil =>
    cases h
    exact .nil
  | cons a items ih =>
    rw [List.zipIdx_cons] at h
    cases h with
    | cons hfirst hrest => exact .cons hfirst (ih hrest)

section Plan

variable {input : BuildSubagentOrchestrationPlanInput} {results : List PreparedResult}
  {scheduled : List String} {batches : List SubagentScheduleBatch}

theorem Declared.exists_results (h : Declared input) :
    ∃ results, input.lanes.zipIdx.mapM (fun lane =>
        prepareLane input.runId input.inventory input.spawnPlan lane.1 lane.2) = .ok results ∧
      List.Forall₂ Clear input.lanes results := by
  have hlanes : ∀ lane ∈ input.lanes.zipIdx, ∃ result,
      prepareLane input.runId input.inventory input.spawnPlan lane.1 lane.2 = .ok result ∧
        Clear lane.1 result := by
    intro lane hlane
    have hmem : lane.1 ∈ input.lanes := by
      rw [← List.zipIdx_map_fst 0 input.lanes]
      exact List.mem_map_of_mem hlane
    obtain ⟨result, hresult, hblockers⟩ := h.prepared lane.1 hmem lane.2
    exact ⟨result, hresult, prepareLane_spec hresult, hblockers,
      evidenceOutput_isSome_iff hresult hblockers⟩
  obtain ⟨results, hresults, hall⟩ := mapM_of_forall hlanes
  exact ⟨results, hresults, forall₂_zipIdx hall⟩

theorem prepares_of_clear (h : List.Forall₂ Clear input.lanes results) :
    List.Forall₂ Prepares input.lanes results := h.imp fun _ _ hclear => hclear.prepares

theorem clear_of_mem {lanes : List SubagentLaneSpec} (h : List.Forall₂ Clear lanes results)
    {result : PreparedResult} (hmem : result ∈ results) : Clear result.lane.spec result := by
  induction h with
  | nil => exact absurd hmem List.not_mem_nil
  | cons hfirst _ ih =>
    rcases List.mem_cons.mp hmem with rfl | hmem
    · rw [hfirst.prepares.sameSpec]
      exact hfirst
    · exact ih hmem

/-- The producers are the lanes that write a receipt. -/
theorem mem_receiptProducerIds_iff (h : List.Forall₂ Clear input.lanes results) {id : String} :
    id ∈ receiptProducerIds (results.map (·.lane)) ↔
      ∃ producer ∈ input.lanes, WritesReceipt producer ∧ producer.id = id := by
  have hspecs := map_spec_of_prepares (prepares_of_clear h)
  have hwrites : ∀ result ∈ results,
      (result.lane.grant.evidenceOutput.isSome &&
        !isReceiptConsumerRole result.lane.spec.role) = true ↔ WritesReceipt result.lane.spec := by
    intro result hresult
    rw [Bool.and_eq_true, (clear_of_mem h hresult).receipt, Bool.not_eq_true', and_comm]
    rfl
  unfold receiptProducerIds
  rw [List.mem_map]
  constructor
  · rintro ⟨lane, hlane, rfl⟩
    obtain ⟨hmem, hlane⟩ := List.mem_filter.mp hlane
    obtain ⟨result, hresult, rfl⟩ := List.mem_map.mp hmem
    refine ⟨result.lane.spec, ?_, (hwrites result hresult).mp hlane, rfl⟩
    rw [← hspecs]
    exact List.mem_map_of_mem hresult
  · rintro ⟨producer, hproducer, hreceipt, rfl⟩
    rw [← hspecs] at hproducer
    obtain ⟨result, hresult, rfl⟩ := List.mem_map.mp hproducer
    exact ⟨result.lane, List.mem_filter.mpr ⟨List.mem_map_of_mem hresult,
      (hwrites result hresult).mpr hreceipt⟩, rfl⟩

/-- What a lane waits for is declared or a receipt. -/
theorem mem_addReceipts {producerIds values : List String} {lane : PreparedLane}
    (hlane : lane.dependsOn = uniqueSorted values) {dependency : String}
    (h : dependency ∈ (addReceipts producerIds lane).dependsOn) :
    dependency ∈ lane.dependsOn ∨
      isReceiptReadingConsumer lane = true ∧ ∃ producer ∈ producerIds, trimText producer = dependency := by
  unfold addReceipts at h
  dsimp only at h
  split_ifs at h with hreads hsame
  · exact .inl h
  · exact .inl h
  · rw [Bool.or_eq_true, not_or, Bool.not_eq_true', Bool.not_eq_false] at hreads
    obtain ⟨hne, value, hvalue, htrim⟩ := mem_uniqueSorted.mp h
    rcases List.mem_append.mp hvalue with hold | hnew
    · rw [hlane] at hold
      obtain ⟨-, source, -, hsource⟩ := mem_uniqueSorted.mp hold
      have hvalue : value = dependency := by rw [← htrim, ← hsource, trimText_trimText]
      rw [← hvalue, hlane]
      exact .inl hold
    · exact .inr ⟨hreads.1, value, (List.mem_filter.mp hnew).1, htrim⟩

/-- The dependencies that are added, by id. -/
def AwaitsReceipt (lanes : List SubagentLaneSpec) (id dependency : String) : Prop :=
  (∃ consumer ∈ lanes, ReadsReceipts consumer ∧ consumer.id = id) ∧
    ∃ producer ∈ lanes, WritesReceipt producer ∧ producer.id = dependency

/-- A scheduled lane waits for what was declared and what was added, and for nothing else. -/
theorem waits_of_mem (h : List.Forall₂ Clear input.lanes results) (horder : ReceiptsInOrder input.lanes)
    {lane : PreparedLane} (hlane : lane ∈ lanesOf results) {dependency : String}
    (hdependency : dependency ∈ lane.dependsOn) :
    WaitsFor input.lanes lane.spec.id dependency ∨
      AwaitsReceipt input.lanes lane.spec.id dependency := by
  obtain ⟨prepared, hprepared, rfl⟩ := List.mem_map.mp hlane
  obtain ⟨result, hresult, rfl⟩ := List.mem_map.mp hprepared
  have hprepares := (clear_of_mem h hresult).prepares
  have hmem : result.lane.spec ∈ input.lanes := by
    rw [← map_spec_of_prepares (prepares_of_clear h)]
    exact List.mem_map_of_mem hresult
  rw [spec_addReceipts]
  rcases mem_addReceipts hprepares.dependsOn hdependency with hdeclared | ⟨hreads, id, hid, htrim⟩
  · refine .inl ⟨result.lane.spec, hmem, rfl, ?_⟩
    rw [← hprepares.dependsOn]
    exact hdeclared
  · rw [isReceiptReadingConsumer, Bool.and_eq_true] at hreads
    obtain ⟨producer, hproducer, hreceipt, rfl⟩ := (mem_receiptProducerIds_iff h).mp hid
    refine .inr ⟨⟨result.lane.spec, hmem, hreads, rfl⟩, producer, hproducer, hreceipt, ?_⟩
    rw [← htrim, horder.trimmed result.lane.spec hmem hreads producer hproducer hreceipt]

/-! ## When all lanes are scheduled -/

theorem Declared.admitted (h : Declared input) : Admitted [] input.lanes := by
  refine admitted_of_intake 0 ?_
  intro blocker hblocker
  have hnone : intakeFrom [] 0 input.lanes = [] := h.intake
  rw [hnone] at hblocker
  exact absurd hblocker List.not_mem_nil

theorem Declared.nodup (h : Declared input) : (input.lanes.map (·.id)).Nodup := by
  apply List.Nodup.of_map trimText
  rw [List.map_map]
  exact h.admitted.nodup

theorem acyclic_of_order (h : Declared input) (horder : ReceiptsInOrder input.lanes) (id : String) :
    ¬ TransGen (fun a b => WaitsFor input.lanes a b ∨ AwaitsReceipt input.lanes a b) id id := by
  refine acyclic_of_added
   
   
    h.acyclic (fun c p hadded => hadded) ?_ id
  rintro _ _ ⟨producer, hproducer, hwrites, rfl⟩ ⟨consumer, hconsumer, hreads, rfl⟩ hpath
  rcases reflTransGen_iff_eq_or_transGen.mp hpath with heq | hpath
  · have hsame := List.inj_on_of_nodup_map h.nodup hconsumer hproducer heq
    have hconsumerRole := hreads.1
    rw [hsame, hwrites.1] at hconsumerRole
    cases hconsumerRole
  · exact horder.order consumer hconsumer hreads producer hproducer hwrites hpath

/-- As long as lanes are left one of them is ready. -/
theorem readyLanes_ne_nil (h : Declared input) (hclear : List.Forall₂ Clear input.lanes results)
    (horder : ReceiptsInOrder input.lanes)
    (hmore : scheduled.length < (lanesOf results).length) :
    readyLanes (lanesOf results) scheduled ≠ [] := by
  intro hnone
  have hids := map_id_lanesOf (prepares_of_clear hclear)
  let left := ((lanesOf results).map (·.spec.id)).filter (· ∉ scheduled)
  have hleft : left ≠ [] := by
    intro hempty
    have hall : ∀ id ∈ (lanesOf results).map (·.spec.id), id ∈ scheduled := by
      intro id hid
      by_contra hnew
      have hmem : id ∈ left := List.mem_filter.mpr ⟨hid, decide_eq_true hnew⟩
      rw [hempty] at hmem
      exact List.not_mem_nil hmem
    have hlaneIds := h.nodup
    rw [← hids] at hlaneIds
    have hlength := (hlaneIds.subperm hall).length_le
    rw [List.length_map] at hlength
    omega
  -- every lane that is left waits for one that is left
  have hwaits : ∀ id ∈ left, ∃ other ∈ left,
      WaitsFor input.lanes id other ∨ AwaitsReceipt input.lanes id other := by
    intro id hid
    obtain ⟨hmem, hnew⟩ := List.mem_filter.mp hid
    obtain ⟨lane, hlane, rfl⟩ := List.mem_map.mp hmem
    have hwaiting : ¬ ∀ dependency ∈ lane.dependsOn, dependency ∈ scheduled := by
      intro hready
      have hlane' : lane ∈ readyLanes (lanesOf results) scheduled :=
        List.mem_filter.mpr ⟨hlane, decide_eq_true ⟨of_decide_eq_true hnew, hready⟩⟩
      rw [hnone] at hlane'
      exact List.not_mem_nil hlane'
    push Not at hwaiting
    obtain ⟨dependency, hdependency, hlate⟩ := hwaiting
    have hedge := waits_of_mem hclear horder hlane hdependency
    refine ⟨dependency, List.mem_filter.mpr ⟨?_, decide_eq_true hlate⟩, hedge⟩
    rw [hids]
    rcases hedge with hdeclared | ⟨-, producer, hproducer, -, rfl⟩
    · exact h.exist _ _ hdeclared
    · exact List.mem_map_of_mem hproducer
  obtain ⟨id, -, hcycle⟩ := exists_cycle hleft hwaits
  exact acyclic_of_order h horder id hcycle

/-- A schedule of all lanes has the receipts in order. -/
theorem order_of_state (h : Declared input) (hclear : List.Forall₂ Clear input.lanes results)
    (hstate : LoopState (lanesOf results) input.maxParallelLanes scheduled batches)
    (hall : (lanesOf results).length ≤ scheduled.length) : ReceiptsInOrder input.lanes := by
  have hprepares := prepares_of_clear hclear
  have hlaneIds := h.nodup
  rw [← map_id_lanesOf hprepares] at hlaneIds
  have hreceipts : ∀ consumer ∈ input.lanes, ReadsReceipts consumer →
      ∀ producer ∈ input.lanes, WritesReceipt producer →
        trimText producer.id = producer.id ∧
          Earlier (batches.map (·.laneIds)) producer.id consumer.id := by
    intro consumer hconsumer hreads producer hproducer hwrites
    obtain ⟨result, hresult, rfl, hmem⟩ := exists_result hprepares hproducer
    refine earlier_of_receipt hprepares hstate hall h.admitted h.nodup hconsumer hproducer
      (List.mem_map_of_mem hmem) hreads.1 hreads.2 hwrites.1 ?_ ?_
    · rw [laneId_addReceipts]
      exact (clear_of_mem hclear hresult).prepares.laneId
    · rw [evidenceOutput_addReceipts]
      exact (clear_of_mem hclear hresult).receipt.mpr hwrites.2
  have hdeclared : ∀ id dependency, WaitsFor input.lanes id dependency →
      Earlier (batches.map (·.laneIds)) dependency id := by
    rintro _ dependency ⟨lane, hlane, rfl, hdependency⟩
    obtain ⟨result, hresult, rfl, hmem⟩ := exists_result hprepares hlane
    have hlane := (clear_of_mem hclear hresult).prepares.dependsOn
    have hearlier := hstate.earlier hlaneIds hall hmem
      (mem_addReceipts_of_mem hlane (by rw [hlane]; exact hdependency))
    rw [spec_addReceipts] at hearlier
    exact hearlier
  have hnodup := hstate.nodup_flatten hlaneIds
  -- along declared dependencies the place in the schedule falls
  have hfalls : ∀ id dependency, TransGen (WaitsFor input.lanes) id dependency →
      (batches.map (·.laneIds)).flatten.idxOf dependency <
        (batches.map (·.laneIds)).flatten.idxOf id := by
    intro id dependency hpath
    induction hpath with
    | single hstep => exact (hdeclared _ _ hstep).idxOf_lt hnodup
    | tail _ hstep ih => exact ((hdeclared _ _ hstep).idxOf_lt hnodup).trans ih
  refine ⟨?_, ?_⟩
  · intro consumer hconsumer hreads producer hproducer hwrites
    exact (hreceipts consumer hconsumer hreads producer hproducer hwrites).1
  · intro consumer hconsumer hreads producer hproducer hwrites hpath
    have hearlier := (hreceipts consumer hconsumer hreads producer hproducer hwrites).2
    have hlt := hearlier.idxOf_lt hnodup
    have hgt := hfalls _ _ hpath
    omega

/-! ## The plan -/

theorem uniqueSorted_ne_nil {blocker : String} (h : trimText blocker ≠ "") :
    uniqueSorted [blocker] ≠ [] :=
  List.ne_nil_of_mem (mem_uniqueSorted.mpr ⟨h, blocker, List.mem_cons_self, rfl⟩)

theorem findDependencyBlockers_eq_nil (h : Declared input)
    (hclear : List.Forall₂ Clear input.lanes results) :
    findDependencyBlockers (results.map (·.lane)) = [] := by
  have hids : (results.map (·.lane)).map (·.spec.id) = input.lanes.map (·.id) := by
    rw [← map_spec_of_prepares (prepares_of_clear hclear)]
    simp [List.map_map, Function.comp_def]
  unfold findDependencyBlockers
  rw [hids, List.flatMap_eq_nil_iff]
  intro lane hlane
  obtain ⟨result, hresult, rfl⟩ := List.mem_map.mp hlane
  rw [List.map_eq_nil_iff, List.filter_eq_nil_iff]
  intro dependency hdependency
  have hmem : result.lane.spec ∈ input.lanes := by
    rw [← map_spec_of_prepares (prepares_of_clear hclear)]
    exact List.mem_map_of_mem hresult
  rw [(clear_of_mem hclear hresult).prepares.dependsOn] at hdependency
  have hexists := h.exist _ _ ⟨result.lane.spec, hmem, rfl, hdependency⟩
  simpa using hexists

/-- What is planned of lanes that declare no circle. -/
theorem plan_of_declared (h : Declared input) :
    ∃ plan, buildSubagentOrchestrationPlan input = .ok (some plan) ∧
      (plan.blockers = [] ↔ ReceiptsInOrder input.lanes) ∧
      ((plan.batches.map (·.laneIds)).flatten.Perm (input.lanes.map (·.id)) ↔
        ReceiptsInOrder input.lanes) := by
  obtain ⟨results, hresults, hclear⟩ := h.exists_results
  obtain ⟨spawnGate, hgate, hallowed⟩ := h.gate
  obtain ⟨scheduled, batches, blockers, hschedule, hstate, hend⟩ :=
    schedulePreparedLanes_spec (lanesOf results) h.limit
  have hprepares := prepares_of_clear hclear
  have hlimit : ¬ input.maxParallelLanes.any (!isPositiveInteger ·) = true := by
    rw [Option.any_eq_true]
    rintro ⟨limit, hmem, hbad⟩
    rw [h.limit limit hmem] at hbad
    cases hbad
  have hnone : results.flatMap (·.blockers) = [] := by
    rw [List.flatMap_eq_nil_iff]
    intro result hresult
    exact (clear_of_mem hclear hresult).blockers
  have hlaneIds := h.nodup
  rw [← map_id_lanesOf hprepares] at hlaneIds
  unfold buildSubagentOrchestrationPlan
  rw [if_neg hlimit, hgate, hresults]
  refine ⟨_, congrArg (fun schedule => Except.ok (Option.map _ schedule)) hschedule, ?_⟩
  dsimp only
  rw [h.intake, if_pos hallowed, hnone, findDependencyBlockers_eq_nil h hclear]
  simp only [List.nil_append]
  rcases hend with ⟨rfl, hall⟩ | ⟨hmore, hstuck, ids, rfl⟩
  · have horder := order_of_state h hclear hstate hall
    have hperm := hstate.perm hlaneIds hall
    rw [map_id_lanesOf hprepares] at hperm
    have hempty : uniqueSorted [] = [] := by simp [uniqueSorted, sortTexts, firsts]
    exact ⟨iff_of_true hempty horder, iff_of_true hperm horder⟩
  · have hdisorder : ¬ ReceiptsInOrder input.lanes := by
      intro horder
      exact readyLanes_ne_nil h hclear horder hmore hstuck
    refine ⟨iff_of_false ?_ hdisorder, iff_of_false ?_ hdisorder⟩
    · exact uniqueSorted_ne_nil (trimText_append_ne_empty (c := 'l') (by simp) (by decide) _)
    · intro hperm
      have hscheduled : (batches.map (·.laneIds)).flatten.Perm scheduled :=
        (List.perm_ext_iff_of_nodup (hstate.nodup_flatten hlaneIds) hstate.nodup).mpr
          fun id => (hstate.mem id).symm
      have hlength := hscheduled.length_eq
      rw [hperm.length_eq, ← map_id_lanesOf hprepares, List.length_map] at hlength
      omega

end Plan

/-- A plan whose lanes declare no circle is scheduled, without a blocker, exactly when the receipts are in
order. -/
theorem buildSubagentOrchestrationPlan_receipts_iff {input : BuildSubagentOrchestrationPlanInput}
    (h : Declared input) :
    ∃ plan, buildSubagentOrchestrationPlan input = .ok (some plan) ∧
      (plan.blockers = [] ↔ ReceiptsInOrder input.lanes) ∧
      ((plan.batches.map (·.laneIds)).flatten.Perm (input.lanes.map (·.id)) ↔
        ReceiptsInOrder input.lanes) := plan_of_declared h

/-- An executor, and a critic that reads its receipt. -/
def reviewInput (dependsOn : List String) : BuildSubagentOrchestrationPlanInput :=
  { runId := "run"
    lanes :=
      [{ id := "check", role := .critic, task := "check", readScope := some [".omk/runs/run"] },
       { id := "build", role := .executor, task := "build", dependsOn := some dependsOn }]
    inventory := { tools := [], skills := [], mcp := [], hooks := [] } }

theorem declared_reviewInput {dependsOn : List String} (h : dependsOn = [] ∨ dependsOn = ["check"]) :
    Declared (reviewInput dependsOn) := by
  have hwaits : ∀ id dependency, WaitsFor (reviewInput dependsOn).lanes id dependency →
      id = "build" ∧ dependency = "check" := by
    rintro _ dependency ⟨lane, hlane, rfl, hdependency⟩
    obtain ⟨-, value, hvalue, rfl⟩ := mem_uniqueSorted.mp hdependency
    rcases List.mem_cons.mp hlane with rfl | hlane
    · exact absurd hvalue List.not_mem_nil
    · rw [List.mem_singleton.mp hlane] at hvalue ⊢
      rcases h with rfl | rfl
      · exact absurd hvalue List.not_mem_nil
      · rw [List.mem_singleton.mp hvalue]
        exact ⟨rfl, by decide⟩
  refine ⟨?_, ?_, ⟨_, rfl, rfl⟩, ?_, ?_, ?_⟩
  · rcases h with rfl | rfl
    · decide
    · decide
  · intro limit hlimit
    cases hlimit
  · intro lane hlane index
    rcases List.mem_cons.mp hlane with rfl | hlane
    · exact ⟨_, rfl, rfl⟩
    · rw [List.mem_singleton.mp hlane]
      exact ⟨_, rfl, rfl⟩
  · intro id dependency hwait
    rw [(hwaits id dependency hwait).2]
    exact List.mem_cons_self
  · intro id hcycle
    obtain ⟨second, hfirst, -⟩ := TransGen.head'_iff.mp hcycle
    obtain ⟨last, -, hlast⟩ := TransGen.tail'_iff.mp hcycle
    have hbuild := (hwaits id second hfirst).1
    rw [(hwaits last id hlast).2] at hbuild
    exact absurd hbuild (by decide)

theorem order_reviewInput (dependsOn : List String)
    (h : ReceiptsInOrder (reviewInput dependsOn).lanes) :
    ¬ TransGen (WaitsFor (reviewInput dependsOn).lanes) "build" "check" :=
  h.order _ List.mem_cons_self ⟨rfl, by decide⟩ _ (List.mem_cons_of_mem _ List.mem_cons_self)
    ⟨rfl, _, rfl, by decide⟩

theorem receipts_reviewInput : ReceiptsInOrder (reviewInput []).lanes := by
  have hwrites : ∀ producer ∈ (reviewInput []).lanes, WritesReceipt producer →
      producer.id = "build" := by
    intro producer hproducer hwrites
    rcases List.mem_cons.mp hproducer with rfl | hproducer
    · exact absurd hwrites.1 (by decide)
    · rw [List.mem_singleton.mp hproducer]
  refine ⟨?_, ?_⟩
  · intro _ _ _ producer hproducer hwrite
    rw [hwrites producer hproducer hwrite]
    decide
  · intro _ _ _ producer hproducer hwrite hpath
    obtain ⟨second, ⟨lane, hlane, -, hdependency⟩, -⟩ := TransGen.head'_iff.mp hpath
    obtain ⟨-, value, hvalue, -⟩ := mem_uniqueSorted.mp hdependency
    rcases List.mem_cons.mp hlane with rfl | hlane
    · exact absurd hvalue List.not_mem_nil
    · rw [List.mem_singleton.mp hlane] at hvalue
      exact absurd hvalue List.not_mem_nil

theorem receipts_iff_reviewInput :
    Declared (reviewInput []) ∧ ∃ plan, buildSubagentOrchestrationPlan (reviewInput []) = .ok (some plan) ∧
      plan.blockers = [] ∧ (plan.batches.map (·.laneIds)).flatten.Perm ["check", "build"] := by
  have hdeclared : Declared (reviewInput []) := declared_reviewInput (.inl rfl)
  obtain ⟨plan, hplan, hblockers, hperm⟩ := buildSubagentOrchestrationPlan_receipts_iff hdeclared
  exact ⟨hdeclared, plan, hplan, hblockers.mpr receipts_reviewInput, hperm.mpr receipts_reviewInput⟩

/-- An executor that waits for its critic's review is made to wait for itself. -/
theorem reviewInput_circle :
    ¬ ∀ input, Declared input → ∃ plan, buildSubagentOrchestrationPlan input = .ok (some plan) ∧
      plan.blockers = [] ∧ (plan.batches.map (·.laneIds)).flatten.Perm (input.lanes.map (·.id)) := by
  intro h
  have hdeclared : Declared (reviewInput ["check"]) := declared_reviewInput (.inr rfl)
  obtain ⟨plan, hplan, hblockers, -⟩ := h _ hdeclared
  obtain ⟨plan', hplan', hiff, -⟩ := plan_of_declared hdeclared
  obtain rfl : plan = plan' := by
    rw [hplan] at hplan'
    exact Option.some.inj (Except.ok.inj hplan')
  refine order_reviewInput ["check"] (hiff.mp hblockers) (.single ⟨_, List.mem_cons_of_mem _ List.mem_cons_self, rfl, ?_⟩)
  exact mem_uniqueSorted.mpr ⟨by decide, "check", List.mem_cons_self, by decide⟩

end Subagents
