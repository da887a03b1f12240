import OmkVerified.CodingAgent.Subagents.Orchestration
import OmkVerified.Lib.Layering

/-!
# The batches of a schedule

What one round of the scheduling loop picks, and that the loop ends: each round schedules a lane that
was not scheduled before.
-/

namespace Subagents

open Lib

variable {lanes ready : List PreparedLane} {maxParallelLanes : Option JsNumber}
  {scheduled : List String} {batches : List SubagentScheduleBatch}

/-! ## One batch -/

/-- A limit that admits one lane. -/
def Admits (maxParallelLanes : Option JsNumber) : Prop :=
  ∀ limit ∈ maxParallelLanes, isPositiveInteger limit = true

theorem exists_limit {limit : JsNumber} (h : isPositiveInteger limit = true) :
    ∃ n : Nat, 0 < n ∧ limit = JsNumber.finite n := by
  cases limit with
  | finite value =>
    simp only [isPositiveInteger, Bool.and_eq_true, decide_eq_true_eq] at h
    have hvalue : value = value.num := ((Rat.den_eq_one_iff value).mp h.1).symm
    have hone : (1 : Int) ≤ value.num := by
      have hle := h.2
      rw [hvalue] at hle
      exact_mod_cast hle
    refine ⟨value.num.toNat, by omega, ?_⟩
    have hcast : ((value.num.toNat : Nat) : ℚ) = value := by
      rw [hvalue]
      have hint : ((value.num.toNat : Nat) : Int) = value.num := by omega
      exact_mod_cast hint
    rw [hcast]
  | nan => cases h
  | negInfinity => cases h
  | infinity => cases h

theorem finite_le {m n : Nat} : JsNumber.finite m ≤ JsNumber.finite n ↔ m ≤ n := by
  have hle : JsNumber.finite m ≤ JsNumber.finite n ↔ (m : ℚ) < n ∨ (m : ℚ) = n := by
    refine or_congr JsNumber.finite_lt ?_
    simp [JsNumber.same]
  rw [hle, ← le_iff_lt_or_eq]
  exact Nat.cast_le

variable (ready) in
theorem selectLanes_limit (selected : List PreparedLane) (hadmits : Admits maxParallelLanes)
    (h : ∀ limit ∈ maxParallelLanes, JsNumber.finite selected.length ≤ limit) :
    ∀ limit ∈ maxParallelLanes,
      JsNumber.finite (selectLanes maxParallelLanes selected ready).length ≤ limit := by
  induction ready generalizing selected with
  | nil => exact h
  | cons lane ready ih =>
    unfold selectLanes
    split_ifs with hfull hconflict
    · exact h
    · exact ih selected h
    · apply ih (selected ++ [lane])
      intro limit hlimit
      obtain ⟨n, -, hn⟩ := exists_limit (hadmits limit hlimit)
      rw [Option.mem_def.mp hlimit, hn, atLimit, Option.any_some, decide_eq_true_eq,
        finite_le] at hfull
      rw [hn, finite_le, List.length_append, List.length_singleton]
      omega

theorem selectLanes_sublist (selected : List PreparedLane) :
    ∃ picked, selectLanes maxParallelLanes selected ready = selected ++ picked ∧
      picked.Sublist ready := by
  induction ready generalizing selected with
  | nil => exact ⟨[], (List.append_nil _).symm, List.Sublist.refl _⟩
  | cons lane ready ih =>
    unfold selectLanes
    split_ifs with hfull hconflict
    · exact ⟨[], (List.append_nil _).symm, List.nil_sublist _⟩
    · obtain ⟨picked, heq, hsub⟩ := ih selected
      exact ⟨picked, heq, hsub.cons _⟩
    · obtain ⟨picked, heq, hsub⟩ := ih (selected ++ [lane])
      exact ⟨lane :: picked, by rw [heq, List.append_assoc]; rfl, hsub.cons_cons _⟩

/-- What a round picks among the ready lanes: one serial lane, or lanes that may all run together. -/
structure Picked (maxParallelLanes : Option JsNumber) (ready picked : List PreparedLane) : Prop where
  sublist : picked.Sublist ready
  nonempty : picked ≠ []
  limit : ∀ limit ∈ maxParallelLanes, JsNumber.finite picked.length ≤ limit
  together : (∃ lane, picked = [lane]) ∨
    ∀ lane ∈ picked, lane.grant.scheduler.parallelizable = true

theorem length_le_limit (hadmits : Admits maxParallelLanes) {count : Nat} (h : count ≤ 1) :
    ∀ limit ∈ maxParallelLanes, JsNumber.finite count ≤ limit := by
  intro limit hlimit
  obtain ⟨n, hpos, rfl⟩ := exists_limit (hadmits limit hlimit)
  rw [finite_le]
  omega

theorem nextBatch_spec (hadmits : Admits maxParallelLanes) (index : Nat) (first : PreparedLane)
    (rest : List PreparedLane) :
    ∃ picked, (nextBatch maxParallelLanes index first rest).laneIds = picked.map (·.spec.id) ∧
      Picked maxParallelLanes (first :: rest) picked := by
  unfold nextBatch
  split
  · rename_i serialized hfind
    have hmem := List.mem_of_find?_eq_some hfind
    exact ⟨[serialized], rfl, List.singleton_sublist.mpr hmem, by simp,
      length_le_limit hadmits le_rfl, .inl ⟨serialized, rfl⟩⟩
  · rename_i hnone
    have hparallel : ∀ lane ∈ first :: rest, lane.grant.scheduler.parallelizable = true := by
      intro lane hlane
      simpa using List.find?_eq_none.mp hnone lane hlane
    have hlimit := selectLanes_limit (first :: rest) [] hadmits
      (length_le_limit hadmits (Nat.zero_le 1))
    obtain ⟨picked, hpicked, hsub⟩ :
        ∃ picked, selectLanes maxParallelLanes [] (first :: rest) = [] ++ picked ∧
          picked.Sublist (first :: rest) := selectLanes_sublist []
    rw [hpicked, List.nil_append] at hlimit
    dsimp only
    rw [hpicked, List.nil_append]
    by_cases hpos : 0 < picked.length
    · rw [if_pos hpos]
      exact ⟨picked, rfl, hsub, List.ne_nil_of_length_pos hpos, hlimit,
        .inr fun lane hlane => hparallel lane (hsub.subset hlane)⟩
    · rw [if_neg hpos]
      exact ⟨[first], rfl, List.singleton_sublist.mpr List.mem_cons_self, by simp,
        length_le_limit hadmits le_rfl, .inl ⟨first, rfl⟩⟩

/-! ## The loop -/

/-- The ids of a batch that is picked after the ids `done`. -/
def PicksIds (lanes : List PreparedLane) (maxParallelLanes : Option JsNumber)
    (done ids : List String) : Prop :=
  ∃ picked, ids = picked.map (·.spec.id) ∧
    Picked maxParallelLanes (readyLanes lanes done) picked

theorem readyLanes_congr {done done' : List String} (h : ∀ id, id ∈ done ↔ id ∈ done') :
    readyLanes lanes done = readyLanes lanes done' := by
  unfold readyLanes
  simp only [h]

theorem mem_insertAll {ids scheduled : List String} {id : String} :
    id ∈ ids.foldl (fun scheduled id => scheduled.insert id) scheduled ↔
      id ∈ scheduled ∨ id ∈ ids := by
  induction ids generalizing scheduled with
  | nil => simp
  | cons first ids ih =>
    rw [List.foldl_cons, ih, List.mem_insert_iff, List.mem_cons, or_assoc, or_left_comm]

theorem nodup_insertAll {ids scheduled : List String} (h : scheduled.Nodup) :
    (ids.foldl (fun scheduled id => scheduled.insert id) scheduled).Nodup := by
  induction ids generalizing scheduled with
  | nil => exact h
  | cons first ids ih => exact ih h.insert

theorem length_le_insertAll (ids scheduled : List String) :
    scheduled.length ≤ (ids.foldl (fun scheduled id => scheduled.insert id) scheduled).length := by
  induction ids generalizing scheduled with
  | nil => exact le_rfl
  | cons first ids ih => exact (List.length_le_length_insert).trans (ih _)

/-- The loop state: the scheduled ids are those of the batches, which were picked one after the other. -/
structure LoopState (lanes : List PreparedLane) (maxParallelLanes : Option JsNumber)
    (scheduled : List String) (batches : List SubagentScheduleBatch) : Prop where
  nodup : scheduled.Nodup
  mem : ∀ id, id ∈ scheduled ↔ id ∈ (batches.map (·.laneIds)).flatten
  picks : Batches (PicksIds lanes maxParallelLanes) (batches.map (·.laneIds))

theorem LoopState.subset_lanes (h : LoopState lanes maxParallelLanes scheduled batches) {id : String}
    (hid : id ∈ scheduled) : id ∈ lanes.map (·.spec.id) := by
  obtain ⟨ids, hids, hid⟩ := List.mem_flatten.mp ((h.mem id).mp hid)
  obtain ⟨done, picked, rfl, hpicked⟩ := h.picks.pick_of_mem hids
  obtain ⟨lane, hlane, rfl⟩ := List.mem_map.mp hid
  exact List.mem_map_of_mem (List.mem_filter.mp (hpicked.sublist.subset hlane)).1

theorem LoopState.step (h : LoopState lanes maxParallelLanes scheduled batches)
    (hadmits : Admits maxParallelLanes) {first : PreparedLane} {rest : List PreparedLane}
    (hready : readyLanes lanes scheduled = first :: rest) :
    LoopState lanes maxParallelLanes
        ((nextBatch maxParallelLanes batches.length first rest).laneIds.foldl
          (fun scheduled id => scheduled.insert id) scheduled)
        (batches ++ [nextBatch maxParallelLanes batches.length first rest]) ∧
      scheduled.length < ((nextBatch maxParallelLanes batches.length first rest).laneIds.foldl
        (fun scheduled id => scheduled.insert id) scheduled).length := by
  obtain ⟨picked, hids, hpicked⟩ := nextBatch_spec hadmits batches.length first rest
  rw [hids]
  refine ⟨⟨nodup_insertAll h.nodup, ?_, ?_⟩, ?_⟩
  · intro id
    rw [mem_insertAll, List.map_append, List.flatten_append, List.mem_append, h.mem,
      List.map_singleton, List.flatten_singleton, hids]
  · rw [List.map_append, List.map_singleton, hids]
    refine h.picks.concat ⟨picked, rfl, ?_⟩
    rw [← readyLanes_congr h.mem, hready]
    exact hpicked
  · obtain ⟨lane, others, rfl⟩ := List.exists_cons_of_ne_nil hpicked.nonempty
    have hlane : lane ∈ readyLanes lanes scheduled := by
      rw [hready]
      exact hpicked.sublist.subset List.mem_cons_self
    have hnew : lane.spec.id ∉ scheduled := by
      have hfacts := (List.mem_filter.mp hlane).2
      rw [decide_eq_true_eq] at hfacts
      exact hfacts.1
    rw [List.map_cons, List.foldl_cons]
    refine lt_of_lt_of_le ?_ (length_le_insertAll _ _)
    rw [List.insert_of_not_mem hnew, List.length_cons]
    omega

/-- The loop ends: it has scheduled as many ids as there are lanes, or no lane that is left is ready. -/
theorem scheduleLoop_spec {fuel : Nat} (h : LoopState lanes maxParallelLanes scheduled batches)
    (hadmits : Admits maxParallelLanes) (hfuel : lanes.length < fuel + scheduled.length) :
    ∃ scheduled' batches' blockers,
      scheduleLoop lanes maxParallelLanes fuel scheduled batches = some (batches', blockers) ∧
      LoopState lanes maxParallelLanes scheduled' batches' ∧
      ((blockers = [] ∧ lanes.length ≤ scheduled'.length) ∨
        scheduled'.length < lanes.length ∧ readyLanes lanes scheduled' = [] ∧ ∃ ids, blockers =
          ["lane dependency cycle or unsatisfied dependency among: " ++ ", ".intercalate ids]) := by
  induction fuel generalizing scheduled batches with
  | zero =>
    exfalso
    have hlength := (h.nodup.subperm fun id hid => h.subset_lanes hid).length_le
    rw [List.length_map] at hlength
    omega
  | succ fuel ih =>
    unfold scheduleLoop
    split_ifs with hmore
    · split
      · rename_i hnone
        exact ⟨scheduled, batches, _, rfl, h, .inr ⟨hmore, hnone, _, rfl⟩⟩
      · rename_i first rest hready
        obtain ⟨hstate, hgrows⟩ := h.step hadmits hready
        exact ih hstate (by omega)
    · exact ⟨scheduled, batches, [], rfl, h, .inl ⟨rfl, by omega⟩⟩

variable (lanes) in
theorem schedulePreparedLanes_spec (hadmits : Admits maxParallelLanes) :
    ∃ scheduled batches blockers,
      schedulePreparedLanes lanes maxParallelLanes = some (batches, blockers) ∧
      LoopState lanes maxParallelLanes scheduled batches ∧
      ((blockers = [] ∧ lanes.length ≤ scheduled.length) ∨
        scheduled.length < lanes.length ∧ readyLanes lanes scheduled = [] ∧ ∃ ids, blockers =
          ["lane dependency cycle or unsatisfied dependency among: " ++ ", ".intercalate ids]) := by
  have hstart : LoopState lanes maxParallelLanes [] [] :=
    ⟨List.nodup_nil, fun id => Iff.rfl, .nil⟩
  exact scheduleLoop_spec hstart hadmits (by simp)

/-! ## A schedule of all lanes -/

namespace LoopState

theorem nodup_flatten (h : LoopState lanes maxParallelLanes scheduled batches)
    (hids : (lanes.map (·.spec.id)).Nodup) : (batches.map (·.laneIds)).flatten.Nodup := by
  apply h.picks.nodup
  rintro done ids ⟨picked, rfl, hpicked⟩
  have hsub : (picked.map (·.spec.id)).Sublist (lanes.map (·.spec.id)) :=
    (hpicked.sublist.trans List.filter_sublist).map _
  refine ⟨hids.sublist hsub, ?_⟩
  intro id hid
  obtain ⟨lane, hlane, rfl⟩ := List.mem_map.mp hid
  have hfacts := (List.mem_filter.mp (hpicked.sublist.subset hlane)).2
  rw [decide_eq_true_eq] at hfacts
  exact hfacts.1

/-- Every lane is in exactly one batch. -/
theorem perm (h : LoopState lanes maxParallelLanes scheduled batches)
    (hids : (lanes.map (·.spec.id)).Nodup) (hall : lanes.length ≤ scheduled.length) :
    (batches.map (·.laneIds)).flatten.Perm (lanes.map (·.spec.id)) := by
  have hscheduled : scheduled.Perm (lanes.map (·.spec.id)) := by
    refine (h.nodup.subperm fun id hid => h.subset_lanes hid).perm_of_length_le ?_
    rw [List.length_map]
    exact hall
  refine List.Perm.trans ?_ hscheduled
  exact (List.perm_ext_iff_of_nodup (h.nodup_flatten hids) h.nodup).mpr fun id => (h.mem id).symm

/-- With distinct ids, a lane with an id of a batch is the lane that was picked. -/
theorem mem_picked (hids : (lanes.map (·.spec.id)).Nodup) {done : List String}
    {picked : List PreparedLane} (hpicked : Picked maxParallelLanes (readyLanes lanes done) picked)
    {lane : PreparedLane} (hlane : lane ∈ lanes) (hid : lane.spec.id ∈ picked.map (·.spec.id)) :
    lane ∈ picked := by
  obtain ⟨other, hother, heq⟩ := List.mem_map.mp hid
  have hmem := (List.mem_filter.mp (hpicked.sublist.subset hother)).1
  rw [← List.inj_on_of_nodup_map hids hmem hlane heq]
  exact hother

/-- What a lane waits for is in an earlier batch. -/
theorem earlier (h : LoopState lanes maxParallelLanes scheduled batches)
    (hids : (lanes.map (·.spec.id)).Nodup) (hall : lanes.length ≤ scheduled.length)
    {lane : PreparedLane} (hlane : lane ∈ lanes) {dependency : String}
    (hdependency : dependency ∈ lane.dependsOn) :
    Earlier (batches.map (·.laneIds)) dependency lane.spec.id := by
  apply h.picks.earlier
  · rintro done ids ⟨picked, rfl, hpicked⟩ hid
    have hready := hpicked.sublist.subset (mem_picked hids hpicked hlane hid)
    have hfacts := (List.mem_filter.mp hready).2
    rw [decide_eq_true_eq] at hfacts
    exact hfacts.2 dependency hdependency
  · exact (h.perm hids hall).mem_iff.mpr (List.mem_map_of_mem hlane)

theorem limit (h : LoopState lanes maxParallelLanes scheduled batches) {limit : JsNumber}
    (hlimit : limit ∈ maxParallelLanes) {batch : SubagentScheduleBatch} (hbatch : batch ∈ batches) :
    JsNumber.finite batch.laneIds.length ≤ limit := by
  obtain ⟨done, picked, hids, hpicked⟩ := h.picks.pick_of_mem (List.mem_map_of_mem hbatch)
  rw [hids, List.length_map]
  exact hpicked.limit limit hlimit

/-- A serial lane has its batch for itself. -/
theorem alone (h : LoopState lanes maxParallelLanes scheduled batches)
    (hids : (lanes.map (·.spec.id)).Nodup) {lane : PreparedLane} (hlane : lane ∈ lanes)
    (hserial : lane.grant.scheduler.parallelizable = false) {batch : SubagentScheduleBatch}
    (hbatch : batch ∈ batches) (hid : lane.spec.id ∈ batch.laneIds) :
    batch.laneIds = [lane.spec.id] := by
  obtain ⟨done, picked, hpick, hpicked⟩ := h.picks.pick_of_mem (List.mem_map_of_mem hbatch)
  rw [hpick] at hid
  have hmem := mem_picked hids hpicked hlane hid
  rcases hpicked.together with ⟨only, rfl⟩ | hparallel
  · rw [hpick, List.mem_singleton.mp hmem]
    rfl
  · rw [hparallel lane hmem] at hserial
    cases hserial

end LoopState

end Subagents
