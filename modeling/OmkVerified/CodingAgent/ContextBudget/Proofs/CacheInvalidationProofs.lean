import OmkVerified.CodingAgent.ContextBudget.CacheInvalidation

/-!
# What a merge knows of two runs

A snapshot counts the events that took effect and keeps the last value of each identity. A merge of
the snapshots of two runs compares these counts and values; the order of the events is lost.
-/

namespace CodingAgent.CacheInvalidation

open Lib

/-! ## Valid snapshots -/

/-- An identifier that passes the check. -/
def IsSafeId (value : String) : Prop :=
  value.toList.length ≠ 0 ∧ jsLength value ≤ safeIdMaxLength ∧ value.toList.all isSafeIdChar = true ∧
    looksLikeCredential value = false

theorem assertSafeId_eq_ok_iff {value field : String} :
    assertSafeId value field = .ok () ↔ IsSafeId value := by
  unfold assertSafeId IsSafeId fail
  split_ifs with hempty hlong hunsafe hcredential
  · exact iff_of_false nofun fun h => h.1 hempty
  · exact iff_of_false nofun fun h => absurd h.2.1 (Nat.not_le.mpr hlong)
  · exact iff_of_false nofun fun h => by rw [h.2.2.1] at hunsafe; cases hunsafe
  · exact iff_of_false nofun fun h => by rw [h.2.2.2] at hcredential; cases hcredential
  · refine iff_of_true rfl ⟨hempty, Nat.not_lt.mp hlong, ?_, Bool.eq_false_of_not_eq_true hcredential⟩
    rwa [Bool.not_eq_true', Bool.not_eq_false] at hunsafe

theorem assertNonNegativeSafeInt_eq_ok_iff {value : Nat} {field : String} :
    assertNonNegativeSafeInt value field = .ok () ↔ value ≤ maxRepresentable := by
  unfold assertNonNegativeSafeInt fail
  split_ifs with h
  · exact iff_of_false nofun (Nat.not_le.mpr h)
  · exact iff_of_true rfl (Nat.not_lt.mp h)

/-- A snapshot that passes the checks. -/
structure Valid (snapshot : Snapshot) : Prop where
  schemaVersion : snapshot.schemaVersion = CacheInvalidation.schemaVersion
  forkId : IsSafeId snapshot.forkId
  globalEpoch : snapshot.globalEpoch ≤ maxRepresentable
  counters : ∀ key, snapshot.counters.get key ≤ maxRepresentable
  identities : ∀ key, IsSafeId (snapshot.identity key)

theorem bind_eq_ok_iff {first second : Except String Unit} :
    (first >>= fun _ => second) = .ok () ↔ first = .ok () ∧ second = .ok () := by
  cases first with
  | error error => exact iff_of_false nofun fun h => nomatch h.1
  | ok value => exact ⟨fun h => ⟨rfl, h⟩, fun h => h.2⟩

theorem validateSnapshot_eq_ok_iff {snapshot : Snapshot} :
    validateSnapshot snapshot = .ok () ↔ Valid snapshot := by
  unfold validateSnapshot
  by_cases hschema : snapshot.schemaVersion = schemaVersion
  · simp only [ne_eq, hschema, not_true_eq_false, if_false, bind_eq_ok_iff, assertSafeId_eq_ok_iff,
      assertNonNegativeSafeInt_eq_ok_iff]
    constructor
    · rintro ⟨hfork, hepoch, h₁, h₂, h₃, h₄, h₅, hworktree, hactive, hcompaction⟩
      refine ⟨hschema, hfork, hepoch, fun key => ?_, fun key => ?_⟩
      · cases key <;> assumption
      · cases key <;> assumption
    · intro h
      exact ⟨h.forkId, h.globalEpoch, h.counters .transcriptRepair, h.counters .toolResultDisposition,
        h.counters .evidenceReceipt, h.counters .userSteering, h.counters .settings,
        h.identities .worktreeFingerprint, h.identities .activeModelId,
        h.identities .compactionModelId⟩
  · simp only [ne_eq, hschema, not_false_eq_true, if_true]
    exact iff_of_false nofun fun h => hschema h.schemaVersion

/-! ## Runs -/

/-- The snapshot after the events and the events that took effect. -/
def applyAll : Snapshot → List Event → Except String (Snapshot × List Event)
  | current, [] => .ok (current, [])
  | current, event :: events => do
    let result ← applyContextCacheInvalidation current event
    let rest ← applyAll result.snapshot events
    pure (rest.1, if result.status = .applied then event :: rest.2 else rest.2)

/-- The value of an identity after an event. -/
def setBy (key : IdentityKey) (value : String) : Event → String
  | .counter _ => value
  | .identity other new => if key = other then new else value

/-- The last value that the events give an identity. -/
def lastIdentity (key : IdentityKey) (start : String) (events : List Event) : String :=
  events.foldl (setBy key) start

/-- What the events that took effect have made of a snapshot. -/
structure Follows (start : Snapshot) (effective : List Event) (current : Snapshot) : Prop where
  forkId : current.forkId = start.forkId
  globalEpoch : current.globalEpoch = start.globalEpoch + effective.length
  counters : ∀ key,
    current.counters.get key = start.counters.get key + effective.count (.counter key)
  identities : ∀ key, current.identity key = lastIdentity key (start.identity key) effective

theorem Follows.refl (start : Snapshot) : Follows start [] start :=
  ⟨rfl, rfl, fun _ => rfl, fun _ => rfl⟩

/-- An event that takes effect in front of others. -/
theorem Follows.cons {start next current : Snapshot} {event : Event} {effective : List Event}
    (hnext : Follows start [event] next) (h : Follows next effective current) :
    Follows start (event :: effective) current where
  forkId := h.forkId.trans hnext.forkId
  globalEpoch := by
    rw [h.globalEpoch, hnext.globalEpoch, List.length_cons, List.length_cons, List.length_nil]
    omega
  counters key := by
    rw [h.counters, hnext.counters, List.count_cons, List.count_cons, List.count_nil]
    omega
  identities key := by
    rw [h.identities, hnext.identities]
    rfl

theorem applyCounterEvent_cases {current : Snapshot} (hvalid : Valid current) (key : CounterKey) :
    Valid (applyCounterEvent current key).snapshot ∧
      ((applyCounterEvent current key).status = .applied ∧
          Follows current [.counter key] (applyCounterEvent current key).snapshot ∨
        (applyCounterEvent current key).status ≠ .applied ∧
          (applyCounterEvent current key).snapshot = current) := by
  unfold applyCounterEvent
  simp only
  split_ifs with hoverflow
  · exact ⟨hvalid, .inr ⟨nofun, rfl⟩⟩
  · rw [not_or, Nat.not_le, Nat.not_le] at hoverflow
    obtain ⟨hvalue, hepoch⟩ := hoverflow
    refine ⟨⟨hvalid.schemaVersion, hvalid.forkId, hepoch, fun other => ?_, hvalid.identities⟩,
      .inl ⟨rfl, rfl, rfl, fun other => ?_, fun other => rfl⟩⟩
    · rw [Counters.get_set]
      split_ifs
      · exact hvalue
      · exact hvalid.counters other
    · rw [Counters.get_set]
      by_cases hkey : other = key
      · rw [if_pos hkey, hkey, List.count_singleton_self]
      · rw [if_neg hkey, List.count_eq_zero_of_not_mem fun hmem => hkey ?_]
        · rfl
        · exact Event.counter.inj (List.mem_singleton.mp hmem)

theorem applyIdentityEvent_cases {current : Snapshot} (hvalid : Valid current) {key : IdentityKey}
    {value : String} {result : Result} (h : applyIdentityEvent current key value = .ok result) :
    Valid result.snapshot ∧
      (result.status = .applied ∧ Follows current [.identity key value] result.snapshot ∨
        result.status ≠ .applied ∧ result.snapshot = current) := by
  unfold applyIdentityEvent at h
  cases hsafe : assertSafeId value key.text with
  | error error =>
    rw [hsafe] at h
    cases h
  | ok checked =>
    rw [hsafe] at h
    change (if _ then _ else if _ then _ else _) = _ at h
    split_ifs at h with hsame hoverflow
    · cases h
      exact ⟨hvalid, .inr ⟨nofun, rfl⟩⟩
    · cases h
      exact ⟨hvalid, .inr ⟨nofun, rfl⟩⟩
    · cases h
      refine ⟨⟨?_, ?_, ?_, fun other => ?_, fun other => ?_⟩,
        .inl ⟨rfl, ?_, ?_, fun other => ?_, fun other => ?_⟩⟩
      · rw [Snapshot.setIdentity_schemaVersion]
        exact hvalid.schemaVersion
      · rw [Snapshot.setIdentity_forkId]
        exact hvalid.forkId
      · rw [Snapshot.setIdentity_globalEpoch]
        exact Nat.not_le.mp hoverflow
      · rw [Snapshot.setIdentity_counters]
        exact hvalid.counters other
      · rw [Snapshot.identity_setIdentity]
        split_ifs
        · exact assertSafeId_eq_ok_iff.mp hsafe
        · exact hvalid.identities other
      · rw [Snapshot.setIdentity_forkId]
      · rw [Snapshot.setIdentity_globalEpoch]
        rfl
      · rw [Snapshot.setIdentity_counters, List.count_eq_zero_of_not_mem (by simp)]
        rfl
      · rw [Snapshot.identity_setIdentity]
        rfl

/-- An event takes effect or changes nothing, and a valid snapshot stays valid. -/
theorem applyContextCacheInvalidation_cases {current : Snapshot} (hvalid : Valid current)
    {event : Event} {result : Result}
    (h : applyContextCacheInvalidation current event = .ok result) :
    Valid result.snapshot ∧
      (result.status = .applied ∧ Follows current [event] result.snapshot ∨
        result.status ≠ .applied ∧ result.snapshot = current) := by
  unfold applyContextCacheInvalidation at h
  rw [validateSnapshot_eq_ok_iff.mpr hvalid] at h
  cases hevent : validateEvent event with
  | error error =>
    rw [hevent] at h
    cases h
  | ok checked =>
    rw [hevent] at h
    cases event with
    | counter key =>
      cases h
      exact applyCounterEvent_cases hvalid key
    | identity key value => exact applyIdentityEvent_cases hvalid h

theorem applyAll_follows {start current : Snapshot} {events effective : List Event}
    (hvalid : Valid start) (h : applyAll start events = .ok (current, effective)) :
    Valid current ∧ Follows start effective current := by
  induction events generalizing start effective with
  | nil =>
    cases h
    exact ⟨hvalid, .refl _⟩
  | cons event events ih =>
    rw [applyAll] at h
    cases hresult : applyContextCacheInvalidation start event with
    | error error =>
      rw [hresult] at h
      cases h
    | ok result =>
      cases hrest : applyAll result.snapshot events with
      | error error =>
        rw [hresult] at h
        change (applyAll result.snapshot events >>= _) = _ at h
        rw [hrest] at h
        cases h
      | ok rest =>
        rw [hresult] at h
        change (applyAll result.snapshot events >>= _) = _ at h
        rw [hrest] at h
        cases h
        obtain ⟨hnext, hcases⟩ := applyContextCacheInvalidation_cases hvalid hresult
        obtain ⟨hcurrent, hfollows⟩ := ih hnext hrest
        refine ⟨hcurrent, ?_⟩
        rcases hcases with ⟨hstatus, hfirst⟩ | ⟨hstatus, hsame⟩
        · rw [if_pos hstatus]
          exact hfirst.cons hfollows
        · rw [if_neg hstatus, ← hsame]
          exact hfollows

/-! ## Comparing snapshots -/

theorem dominates_iff (x y : Snapshot) :
    dominates x y = true ↔
      y.globalEpoch ≤ x.globalEpoch ∧ (∀ key, y.counters.get key ≤ x.counters.get key) ∧
        ∀ key, x.identity key = y.identity key := by
  unfold dominates
  simp only [Bool.and_eq_true, decide_eq_true_eq]
  constructor
  · rintro ⟨⟨⟨⟨⟨⟨⟨⟨hepoch, h₁⟩, h₂⟩, h₃⟩, h₄⟩, h₅⟩, hworktree⟩, hactive⟩, hcompaction⟩
    refine ⟨hepoch, fun key => ?_, fun key => ?_⟩
    · cases key <;> assumption
    · cases key <;> assumption
  · rintro ⟨hepoch, hcounters, hidentities⟩
    exact ⟨⟨⟨⟨⟨⟨⟨⟨hepoch, hcounters .transcriptRepair⟩, hcounters .toolResultDisposition⟩,
      hcounters .evidenceReceipt⟩, hcounters .userSteering⟩, hcounters .settings⟩,
      hidentities .worktreeFingerprint⟩, hidentities .activeModelId⟩, hidentities .compactionModelId⟩

theorem snapshotsEqual_iff (a b : Snapshot) :
    snapshotsEqual a b = true ↔ dominates a b = true ∧ dominates b a = true := by
  rw [dominates_iff, dominates_iff]
  unfold snapshotsEqual
  simp only [Bool.and_eq_true, decide_eq_true_eq]
  constructor
  · rintro ⟨⟨⟨⟨⟨⟨⟨⟨hepoch, h₁⟩, h₂⟩, h₃⟩, h₄⟩, h₅⟩, hworktree⟩, hactive⟩, hcompaction⟩
    refine ⟨⟨hepoch.ge, fun key => ?_, fun key => ?_⟩, hepoch.le, fun key => ?_, fun key => ?_⟩
    · cases key <;> exact Nat.le_of_eq (Eq.symm ‹_›)
    · cases key <;> assumption
    · cases key <;> exact Nat.le_of_eq ‹_›
    · cases key <;> exact Eq.symm ‹_›
  · rintro ⟨⟨hepoch, hcounters, hidentities⟩, hepoch', hcounters', -⟩
    have hequal := fun key => Nat.le_antisymm (hcounters' key) (hcounters key)
    exact ⟨⟨⟨⟨⟨⟨⟨⟨Nat.le_antisymm hepoch' hepoch, hequal .transcriptRepair⟩,
      hequal .toolResultDisposition⟩, hequal .evidenceReceipt⟩, hequal .userSteering⟩,
      hequal .settings⟩, hidentities .worktreeFingerprint⟩, hidentities .activeModelId⟩,
      hidentities .compactionModelId⟩

/-- The merge of two valid snapshots of one fork, by which of them dominates which. -/
theorem mergeContextCacheSnapshots_eq {a b : Snapshot} (ha : Valid a) (hb : Valid b)
    (hfork : a.forkId = b.forkId) :
    mergeContextCacheSnapshots a b =
      .ok
        (if dominates a b = true then if dominates b a = true then .equal a else .dominant a
        else if dominates b a = true then .dominant b
        else .divergent a b) := by
  have hequal := snapshotsEqual_iff a b
  unfold mergeContextCacheSnapshots
  rw [validateSnapshot_eq_ok_iff.mpr ha, validateSnapshot_eq_ok_iff.mpr hb]
  change (if _ then _ else if _ then _ else if _ then _ else if _ then _ else _) = _
  rw [if_neg (not_not.mpr hfork)]
  cases hab : dominates a b <;> cases hba : dominates b a
  · rw [if_neg (by rw [hequal, hab]; exact nofun)]
    rfl
  · rw [if_neg (by rw [hequal, hab]; exact nofun)]
    rfl
  · rw [if_neg (by rw [hequal, hba]; exact nofun)]
    rfl
  · rw [if_pos (hequal.mpr ⟨hab, hba⟩)]
    rfl

/-! ## Merging two runs -/

/-- The events contain at least as many of each counter and in total as the others. -/
def AtLeast (events others : List Event) : Prop :=
  others.length ≤ events.length ∧
    ∀ key, others.count (.counter key) ≤ events.count (.counter key)

/-- The events leave the same identities as the others. -/
def SameIdentities (start : Snapshot) (events others : List Event) : Prop :=
  ∀ key, lastIdentity key (start.identity key) events = lastIdentity key (start.identity key) others

theorem AtLeast.of_front {events others : List Event} (h : others <+: events) :
    AtLeast events others :=
  ⟨h.length_le, fun _ => h.sublist.count_le _⟩

theorem dominates_of_follows {start a b : Snapshot} {u v : List Event} (ha : Follows start u a)
    (hb : Follows start v b) : dominates a b = true ↔ AtLeast u v ∧ SameIdentities start u v := by
  rw [dominates_iff, ha.globalEpoch, hb.globalEpoch, Nat.add_le_add_iff_left]
  simp only [ha.counters, hb.counters, Nat.add_le_add_iff_left, ha.identities, hb.identities]
  exact and_assoc.symm

/-- The merge of two runs from the same snapshot: the run that has at least as many events of each
counter and in total as the other wins, where they leave the same identities. A run that goes on from
the other one and leaves its identities is such a run. -/
theorem mergeContextCacheSnapshots_runs (start : Snapshot) (events others : List Event)
    (a b : Snapshot) (u v : List Event) (hstart : validateSnapshot start = .ok ())
    (hevents : applyAll start events = .ok (a, u)) (hothers : applyAll start others = .ok (b, v)) :
    (SameIdentities start u v → AtLeast u v → AtLeast v u →
      mergeContextCacheSnapshots a b = .ok (.equal a)) ∧
    (SameIdentities start u v → AtLeast u v → ¬ AtLeast v u →
      mergeContextCacheSnapshots a b = .ok (.dominant a)) ∧
    (SameIdentities start u v → AtLeast v u → ¬ AtLeast u v →
      mergeContextCacheSnapshots a b = .ok (.dominant b)) ∧
    (¬ SameIdentities start u v ∨ (¬ AtLeast u v ∧ ¬ AtLeast v u) →
      mergeContextCacheSnapshots a b = .ok (.divergent a b)) ∧
    (SameIdentities start u v → u = v → mergeContextCacheSnapshots a b = .ok (.equal a)) ∧
    (SameIdentities start u v → v <+: u → u ≠ v →
      mergeContextCacheSnapshots a b = .ok (.dominant a)) ∧
    (SameIdentities start u v → u <+: v → u ≠ v →
      mergeContextCacheSnapshots a b = .ok (.dominant b)) := by
  obtain ⟨hvalidA, ha⟩ := applyAll_follows (validateSnapshot_eq_ok_iff.mp hstart) hevents
  obtain ⟨hvalidB, hb⟩ := applyAll_follows (validateSnapshot_eq_ok_iff.mp hstart) hothers
  have hab := dominates_of_follows ha hb
  have hba := dominates_of_follows hb ha
  have hsymm : SameIdentities start v u ↔ SameIdentities start u v :=
    ⟨fun h key => (h key).symm, fun h key => (h key).symm⟩
  rw [hsymm] at hba
  have hlonger : ∀ {first second : List Event}, second <+: first → first ≠ second →
      ¬ AtLeast second first := fun hfront hne hle =>
    hne (hfront.eq_of_length (Nat.le_antisymm hfront.length_le hle.1)).symm
  rw [mergeContextCacheSnapshots_eq hvalidA hvalidB (ha.forkId.trans hb.forkId.symm)]
  simp only [Except.ok.injEq]
  refine ⟨fun hsame huv hvu => ?_, fun hsame huv hvu => ?_, fun hsame hvu huv => ?_, fun h => ?_,
    fun hsame heq => ?_, fun hsame hfront hne => ?_, fun hsame hfront hne => ?_⟩
  · rw [if_pos (hab.mpr ⟨huv, hsame⟩), if_pos (hba.mpr ⟨hvu, hsame⟩)]
  · rw [if_pos (hab.mpr ⟨huv, hsame⟩), if_neg fun hle => hvu (hba.mp hle).1]
  · rw [if_neg fun hle => huv (hab.mp hle).1, if_pos (hba.mpr ⟨hvu, hsame⟩)]
  · rw [if_neg fun hle => h.elim (fun hne => hne (hab.mp hle).2) fun hne => hne.1 (hab.mp hle).1,
      if_neg fun hle => h.elim (fun hne => hne (hba.mp hle).2) fun hne => hne.2 (hba.mp hle).1]
  · subst heq
    have hle : AtLeast u u := .of_front List.prefix_rfl
    rw [if_pos (hab.mpr ⟨hle, hsame⟩), if_pos (hba.mpr ⟨hle, hsame⟩)]
  · rw [if_pos (hab.mpr ⟨.of_front hfront, hsame⟩),
      if_neg fun hle => hlonger hfront hne (hba.mp hle).1]
  · rw [if_neg fun hle => hlonger hfront (Ne.symm hne) (hab.mp hle).1,
      if_pos (hba.mpr ⟨.of_front hfront, hsame⟩)]

def sampleSnapshot : Snapshot :=
  ⟨schemaVersion, "fork", 0, ⟨0, 0, 0, 0, 0⟩, "tree", "model", "model"⟩

/-- The same two events in different orders merge as equal, though neither run goes on from the
other. -/
theorem swapped_equal :
    ∃ a b, applyAll sampleSnapshot [.counter .transcriptRepair, .counter .settings] =
        .ok (a, [.counter .transcriptRepair, .counter .settings]) ∧
      applyAll sampleSnapshot [.counter .settings, .counter .transcriptRepair] =
        .ok (b, [.counter .settings, .counter .transcriptRepair]) ∧
      mergeContextCacheSnapshots a b = .ok (.equal a) ∧
      ¬ [Event.counter .transcriptRepair, .counter .settings] <+:
        [.counter .settings, .counter .transcriptRepair] ∧
      ¬ [Event.counter .settings, .counter .transcriptRepair] <+:
        [.counter .transcriptRepair, .counter .settings] := by
  refine ⟨{ sampleSnapshot with globalEpoch := 2, counters := ⟨1, 0, 0, 0, 1⟩ },
    { sampleSnapshot with globalEpoch := 2, counters := ⟨1, 0, 0, 0, 1⟩ }, ?_, ?_, ?_, ?_, ?_⟩ <;>
    decide +kernel

/-- A run that goes on from another one dominates it. -/
theorem mergeContextCacheSnapshots_longer :
    mergeContextCacheSnapshots
        { sampleSnapshot with globalEpoch := 1, counters := ⟨1, 0, 0, 0, 0⟩ } sampleSnapshot =
      .ok (.dominant { sampleSnapshot with globalEpoch := 1, counters := ⟨1, 0, 0, 0, 0⟩ }) :=
  (mergeContextCacheSnapshots_runs sampleSnapshot [.counter .transcriptRepair] [] _ _
    [.counter .transcriptRepair] [] (by decide +kernel) (by decide +kernel) rfl).2.2.2.2.2.1
    (fun _ => rfl) (List.nil_prefix) nofun

end CodingAgent.CacheInvalidation
