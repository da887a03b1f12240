import OmkVerified.CodingAgent.Guardrails.Proofs.ReplayLedgerStoreProofs

/-!
# Runs of replay ledger managers

Any number of managers load and append, each call with faults or an end of its process at any step.
The committed events only grow, by the event of an append at a time, and every load that returns
returns them.
-/

namespace CodingAgent.Replay

open Lib Program

variable {sha256 : Digest} {live : Prop} {committed : List ReplayEvent}
  {quarantined : String → Option (List UInt8)}

/-! ## Calls -/

theorem withLock_spec {α : Type} {operation : StoreProgram α} {P R : LedgerDisk → Prop}
    {Q : α → LedgerDisk → Prop} (h : Triple live P operation Q R) (hbefore : ∀ disk, P disk → R disk)
    (hafter : ∀ value disk, Q value disk → R disk) : Triple live P (withLock operation) Q R :=
  (flush_spec hbefore).bind fun _ =>
    h.tryFinally (fun value => flush_spec (hafter value)) (flush_spec fun _ hr => hr)

theorem refresh_spec (hhex : ∀ bytes, isSha256 (sha256 bytes) = true)
    (h : Committed sha256 committed) {goalId : String} {env : Environment} {rest : List UInt8}
    {expected : Option Head}
    (hlive : live → (replayChain sha256 goalId).Chained 0 genesisHash committed ∧
      quarantined env.quarantineName = none ∧ expected = none) :
    Triple live (fun disk => Holds committed rest disk ∧ disk.quarantined = quarantined)
      (refresh sha256 env goalId expected)
      (fun manager disk => manager.events = committed ∧ Holds committed [] disk ∧
        disk.quarantined = afterCut quarantined env.quarantineName rest) (Keeps committed) := by
  have hread : Triple live (fun disk => Holds committed rest disk ∧ disk.quarantined = quarantined)
      (readVerified (inspectLedger sha256 goalId) env)
      (fun snapshot disk => (replayChain sha256 goalId).Chained 0 genesisHash committed ∧
        Settled committed (afterCut quarantined env.quarantineName rest) snapshot disk)
      (Keeps committed) :=
    readVerified_spec hhex h fun hl => ⟨(hlive hl).1, (hlive hl).2.1⟩
  have hload : Triple live (fun disk => Holds committed rest disk ∧ disk.quarantined = quarantined)
      (loadStore (inspectLedger sha256 goalId) env expected)
      (fun snapshot disk => (replayChain sha256 goalId).Chained 0 genesisHash committed ∧
        Settled committed (afterCut quarantined env.quarantineName rest) snapshot disk)
      (Keeps committed) := by
    refine withLock_spec (hread.bind fun snapshot => ?_) (fun disk hp => ⟨rest, hp.1⟩)
      fun snapshot disk hq => ⟨[], hq.2.holds⟩
    refine Triple.bind (Triple.require (Q := fun _ disk =>
      (replayChain sha256 goalId).Chained 0 genesisHash committed ∧
        Settled committed (afterCut quarantined env.quarantineName rest) snapshot disk)
      (fun disk hp _ => hp) ?_) fun _ => .pure _ fun disk hp => hp
    intro disk hp hcas
    refine ⟨fun hl => ?_, [], hp.2.holds⟩
    rw [(hlive hl).2.2] at hcas
    exact absurd hcas (by simp)
  refine hload.bind fun snapshot fates disk hp => ?_
  obtain ⟨hchain, hsettled⟩ := hp
  have hparse : parseReplayLedgerBytes sha256 snapshot.bytes goalId = .ok committed := by
    rw [hsettled.bytes]
    exact h.parse hchain
  rw [hparse]
  exact ⟨id, rfl, hsettled.holds, hsettled.quarantined_eq⟩

theorem append_spec (hhex : ∀ bytes, isSha256 (sha256 bytes) = true)
    (h : Committed sha256 committed) {env : Environment} {manager : Manager} {input : AppendInput}
    (hwf : input.payload.WellFormed) {rest : List UInt8} (expected : Head) :
    let event := chainEvent sha256 input env.timestamp expected.lastSeq expected.lastHash
    Triple False (Holds committed rest) (manager.append sha256 env input expected)
      (fun result disk => result.1 = event ∧ Committed sha256 (committed ++ [event.stored]) ∧
        Keeps (committed ++ [event.stored]) disk)
      (EitherSide sha256 committed (committed ++ [event.stored])) := by
  intro event
  have hstay : ∀ disk, Holds committed rest disk →
      EitherSide sha256 committed (committed ++ [event.stored]) disk :=
    fun disk hholds => .inl ⟨rest, hholds⟩
  have hgoal : Triple False (Holds committed rest)
      (Program.require (input.goalId = manager.goalId)
        (SessionError.thrown "Replay event goalId does not match the ledger"))
      (fun _ disk => ∃ _ : input.goalId = manager.goalId, Holds committed rest disk)
      (EitherSide sha256 committed (committed ++ [event.stored])) :=
    .require (fun disk hholds hc => ⟨by simpa using hc, hholds⟩) fun disk hholds _ =>
      ⟨id, hstay disk hholds⟩
  unfold Manager.append
  refine hgoal.bind fun _ => .of_exists fun hsame => ?_
  refine Triple.bind (.require (Q := fun _ => Holds committed rest) (fun disk hholds _ => hholds)
    fun disk hholds _ => ⟨id, hstay disk hholds⟩) fun _ => ?_
  refine Triple.bind (appendStore_spec hhex h hsame hwf env.timestamp expected) fun head => ?_
  exact .pure _ fun disk hpost => ⟨rfl, hpost.1, [], hpost.2⟩

/-! ## What a load finds -/

/-- The bytes of the ledger. -/
def LedgerDisk.ledgerBytes (disk : LedgerDisk) : List UInt8 := (disk.ledger.map (·.bytes)).getD []

/-- The events are what the ledger consists of: every load that returns returns them, and a load
that nothing disturbs returns. It then has moved what stood behind them into quarantine. -/
structure Recovers (sha256 : Digest) (disk : LedgerDisk) (committed : List ReplayEvent) : Prop where
  only : ∀ goalId env expected fates manager disk' fates',
    refresh sha256 env goalId expected fates disk = (.returned manager, disk', fates') →
      manager.events = committed
  returns : ∀ goalId env, (∀ event ∈ committed, event.goalId = goalId) →
    disk.quarantined env.quarantineName = none →
      ∃ manager disk' rest, refresh sha256 env goalId none [] disk = (.returned manager, disk', []) ∧
        manager.events = committed ∧
        disk.ledgerBytes = Replay.ledgerBytes committed ++ rest ∧
        disk'.ledgerBytes = Replay.ledgerBytes committed ∧
        (rest ≠ [] → disk'.quarantined env.quarantineName = some rest)

theorem Holds.ledgerBytes {rest : List UInt8} {disk : LedgerDisk} (h : Holds committed rest disk) :
    disk.ledgerBytes = Replay.ledgerBytes committed ++ rest := by
  unfold LedgerDisk.ledgerBytes
  rcases h with ⟨rfl, rfl, -, hempty⟩ | ⟨file, hledger, hbytes, -, -⟩
  · cases hledger : disk.ledger with
    | none => rfl
    | some file => exact hempty file hledger
  · rw [hledger]
    exact hbytes

/-- The goal of the events of a chain. -/
theorem Committed.chained_of_goal (h : Committed sha256 committed) {goalId : String}
    (hgoal : ∀ event ∈ committed, event.goalId = goalId) :
    (replayChain sha256 goalId).Chained 0 genesisHash committed := by
  obtain ⟨goal, hchain⟩ := h.chained
  cases committed with
  | nil => trivial
  | cons event events =>
    have hown := ((replayChain sha256 goal).sound_of_chained hchain event List.mem_cons_self).goalId
    have hsame : goal = goalId := hown.symm.trans (hgoal event List.mem_cons_self)
    rwa [hsame] at hchain

theorem Committed.recovers (h : Committed sha256 committed)
    (hhex : ∀ bytes, isSha256 (sha256 bytes) = true) {disk : LedgerDisk}
    (hkeeps : Keeps committed disk) : Recovers sha256 disk committed := by
  obtain ⟨rest, hholds⟩ := hkeeps
  constructor
  · intro goalId env expected fates manager disk' fates' hrun
    have hspec : Triple False (fun d => Holds committed rest d ∧ d.quarantined = disk.quarantined)
        (refresh sha256 env goalId expected) _ _ :=
      refresh_spec hhex h fun hfalse => hfalse.elim
    have hmeets := hspec fates disk ⟨hholds, rfl⟩
    rw [hrun] at hmeets
    exact hmeets.2.1
  · intro goalId env hgoal hfresh
    have hspec : Triple True (fun d => Holds committed rest d ∧ d.quarantined = disk.quarantined)
        (refresh sha256 env goalId none) _ _ :=
      refresh_spec hhex h fun _ => ⟨h.chained_of_goal hgoal, hfresh, rfl⟩
    obtain ⟨manager, disk', hrun, hevents, hcut, hquarantine⟩ := hspec.returns trivial ⟨hholds, rfl⟩
    refine ⟨manager, disk', rest, hrun, hevents, hholds.ledgerBytes, ?_, fun hne => ?_⟩
    · rw [hcut.ledgerBytes, List.append_nil]
    · rw [hquarantine, afterCut, if_neg hne, Function.update_self]

/-! ## Steps -/

variable {ι : Type} [DecidableEq ι]

/-- The payload of a call is a value of JSON. -/
def Call.WellFormed : Call ι → Prop
  | .append _ input _ => input.payload.WellFormed
  | _ => True

/-- The event that a call of `append` is about. -/
def World.eventOf (sha256 : Digest) (world : World ι) (call : Call ι) (env : Environment) :
    Option ReplayEvent :=
  match call with
  | .append i input expectedHead =>
    (world.managers i).map fun manager =>
      let head := expectedHead.getD manager.committedHead
      chainEvent sha256 input env.timestamp head.lastSeq head.lastHash
  | _ => none

/-- A call leaves the committed events and has returned no event, or it commits its event, whether
or not it has returned it. -/
def Commits (world world' : World ι) (event? : Option ReplayEvent)
    (committed committed' : List ReplayEvent) : Prop :=
  (committed' = committed ∧ world'.returned = world.returned) ∨
    ∃ event, event? = some event ∧ committed' = committed ++ [event.stored] ∧
      (world'.returned = world.returned ∨ world'.returned = world.returned ++ [event])

/-- A load does not change the events. -/
theorem keeps_refresh (hhex : ∀ bytes, isSha256 (sha256 bytes) = true)
    (h : Committed sha256 committed) {world : World ι} (hkeeps : Keeps committed world.disk) (i : ι)
    (env : Environment) (goalId : String) (expected : Option Head) (fates : List Fate) :
    Keeps committed (world.after i (World.keep i)
        (refresh sha256 env goalId expected fates world.disk)).disk ∧
      (world.after i (World.keep i)
        (refresh sha256 env goalId expected fates world.disk)).returned = world.returned := by
  obtain ⟨rest, hholds⟩ := hkeeps
  have hspec : Triple False (fun d => Holds committed rest d ∧ d.quarantined = world.disk.quarantined)
      (refresh sha256 env goalId expected) _ _ :=
    refresh_spec hhex h fun hfalse => hfalse.elim
  have hmeets := hspec fates world.disk ⟨hholds, rfl⟩
  generalize refresh sha256 env goalId expected fates world.disk = result at hmeets ⊢
  obtain ⟨outcome, disk, rest'⟩ := result
  cases outcome with
  | returned manager => exact ⟨⟨[], hmeets.2.2.1⟩, rfl⟩
  | thrown error => exact ⟨hmeets.2, rfl⟩
  | ended => exact ⟨hmeets.2, rfl⟩

/-- One call, with any faults. -/
theorem step_commits (hhex : ∀ bytes, isSha256 (sha256 bytes) = true)
    (h : Committed sha256 committed) {world : World ι} (hkeeps : Keeps committed world.disk)
    {call : Call ι} (hwf : call.WellFormed) (env : Environment) (fates : List Fate) :
    ∃ committed', Committed sha256 committed' ∧
      Keeps committed' (world.step sha256 call env fates).disk ∧
      Commits world (world.step sha256 call env fates) (world.eventOf sha256 call env)
        committed committed' := by
  cases call with
  | new i goalId expectedHead =>
    obtain ⟨hafter, hreturned⟩ := keeps_refresh hhex h hkeeps i env goalId expectedHead fates
    exact ⟨committed, h, hafter, .inl ⟨rfl, hreturned⟩⟩
  | load i expectedHead =>
    unfold World.step
    dsimp only
    cases hmanager : world.managers i with
    | none => exact ⟨committed, h, hkeeps, .inl ⟨rfl, rfl⟩⟩
    | some manager =>
      obtain ⟨hafter, hreturned⟩ := keeps_refresh hhex h hkeeps i env manager.goalId
        (some (expectedHead.getD manager.committedHead)) fates
      exact ⟨committed, h, hafter, .inl ⟨rfl, hreturned⟩⟩
  | append i input expectedHead =>
    unfold World.step World.eventOf
    dsimp only
    cases hmanager : world.managers i with
    | none => exact ⟨committed, h, hkeeps, .inl ⟨rfl, rfl⟩⟩
    | some manager =>
      obtain ⟨rest, hholds⟩ := hkeeps
      have hspec : Triple False (Holds committed rest)
          (manager.append sha256 env input (expectedHead.getD manager.committedHead)) _ _ :=
        append_spec hhex h hwf _
      have hmeets := hspec fates world.disk hholds
      dsimp only [Option.map_some]
      generalize manager.append sha256 env input (expectedHead.getD manager.committedHead) fates
        world.disk = result at hmeets ⊢
      obtain ⟨outcome, disk, rest'⟩ := result
      cases outcome with
      | returned value =>
        obtain ⟨-, hvalue, hnext, hafter⟩ := hmeets
        refine ⟨_, hnext, hafter, .inr ⟨_, rfl, rfl, .inr ?_⟩⟩
        show world.returned ++ [value.1] = _
        rw [hvalue]
      | thrown error =>
        rcases hmeets.2 with hbefore | ⟨hnext, hafter⟩
        · exact ⟨committed, h, hbefore, .inl ⟨rfl, rfl⟩⟩
        · exact ⟨_, hnext, hafter, .inr ⟨_, rfl, rfl, .inl rfl⟩⟩
      | ended =>
        rcases hmeets.2 with hbefore | ⟨hnext, hafter⟩
        · exact ⟨committed, h, hbefore, .inl ⟨rfl, rfl⟩⟩
        · exact ⟨_, hnext, hafter, .inr ⟨_, rfl, rfl, .inl rfl⟩⟩
  | exit i => exact ⟨committed, h, hkeeps, .inl ⟨rfl, rfl⟩⟩

/-! ## Runs -/

/-- What a world keeps over a run: its events are committed, and with them those that were
returned. -/
structure Invariant (sha256 : Digest) (world : World ι) (committed : List ReplayEvent) : Prop where
  events : Committed sha256 committed
  keeps : Keeps committed world.disk
  returned : (world.returned.map ReplayEvent.stored).Sublist committed

theorem Invariant.step (hhex : ∀ bytes, isSha256 (sha256 bytes) = true) {world : World ι}
    (h : Invariant sha256 world committed) {call : Call ι} (hwf : call.WellFormed)
    (env : Environment) (fates : List Fate) :
    ∃ committed', Invariant sha256 (world.step sha256 call env fates) committed' ∧
      Commits world (world.step sha256 call env fates) (world.eventOf sha256 call env)
        committed committed' := by
  obtain ⟨committed', hnext, hkeeps, hcommits⟩ :=
    step_commits hhex h.events h.keeps hwf env fates
  refine ⟨committed', ⟨hnext, hkeeps, ?_⟩, hcommits⟩
  rcases hcommits with ⟨rfl, hreturned⟩ | ⟨event, -, rfl, hreturned | hreturned⟩
  · rw [hreturned]
    exact h.returned
  · rw [hreturned]
    exact h.returned.trans (List.sublist_append_left _ _)
  · rw [hreturned, List.map_append]
    exact h.returned.append (List.Sublist.refl _)

theorem Invariant.run (hhex : ∀ bytes, isSha256 (sha256 bytes) = true) {world : World ι}
    (h : Invariant sha256 world committed) {calls : List (Call ι × Environment × List Fate)}
    (hwf : ∀ call ∈ calls, call.1.WellFormed) :
    ∃ committed', Invariant sha256 (world.run sha256 calls) committed' := by
  induction calls generalizing world committed with
  | nil => exact ⟨committed, h⟩
  | cons call calls ih =>
    obtain ⟨call, env, fates⟩ := call
    obtain ⟨next, hnext, -⟩ := h.step hhex (hwf _ List.mem_cons_self) env fates
    exact ih hnext fun call hmem => hwf call (List.mem_cons_of_mem _ hmem)

theorem Invariant.start {κ : Type} : Invariant sha256 (World.start : World κ) [] :=
  ⟨.nil, ⟨[], holds_absent ⟨rfl, rfl, rfl⟩⟩, List.Sublist.refl _⟩

/-- **Crash recovery.** After any calls of any managers, whatever their faults, there are events that
a load returns, with every event among them that a call has returned. One more call, whatever its
faults, leaves them or adds the event that it appends, and does add it when it returns it. -/
theorem replayLedger_recovers (sha256 : Digest) (hhex : ∀ bytes, isSha256 (sha256 bytes) = true)
    {ι : Type} [DecidableEq ι] (calls : List (Call ι × Environment × List Fate))
    (hwf : ∀ call ∈ calls, call.1.WellFormed) :
    let world := (World.start : World ι).run sha256 calls
    ∃ committed, Recovers sha256 world.disk committed ∧
      (world.returned.map ReplayEvent.stored).Sublist committed ∧
      ∀ call : Call ι, call.WellFormed → ∀ env fates,
        ∃ committed', Recovers sha256 (world.step sha256 call env fates).disk committed' ∧
          Commits world (world.step sha256 call env fates) (world.eventOf sha256 call env)
            committed committed' := by
  intro world
  obtain ⟨committed, h⟩ := Invariant.start.run hhex hwf
  refine ⟨committed, h.events.recovers hhex h.keeps, h.returned, fun call hcall env fates => ?_⟩
  obtain ⟨committed', hnext, hcommits⟩ := h.step hhex hcall env fates
  exact ⟨committed', hnext.events.recovers hhex hnext.keeps, hcommits⟩

/-- A digest in the form of SHA-256. On the texts that the call below hashes it is SHA-256. -/
def hexDigest : Digest := fun bytes =>
  if isSha256 (sampleDigest bytes) then sampleDigest bytes
  else "0000000000000000000000000000000000000000000000000000000000000000"

theorem isSha256_hexDigest (bytes : List UInt8) : isSha256 (hexDigest bytes) = true := by
  unfold hexDigest
  split_ifs with h
  · exact h
  · decide

def sampleEnvironment : Environment := ⟨1, 2, "q", "g", "h", sampleCall.2⟩

/-- A manager is created and appends. -/
def sampleCalls : List (Call Unit × Environment × List Fate) :=
  [(.new () "goal" none, sampleEnvironment, []),
    (.append () sampleCall.1 none, sampleEnvironment, [])]

theorem replayLedger_recovers_sample :
    ∃ committed, Recovers hexDigest ((World.start : World Unit).run hexDigest sampleCalls).disk
      committed ∧ (((World.start : World Unit).run hexDigest sampleCalls).returned.map
        ReplayEvent.stored).Sublist committed := by
  have hwf : ∀ call ∈ sampleCalls, call.1.WellFormed := by
    simp [sampleCalls, sampleCall, Call.WellFormed, Json.WellFormed]
  obtain ⟨committed, hrecovers, hreturned, -⟩ :=
    replayLedger_recovers hexDigest isSha256_hexDigest sampleCalls hwf
  exact ⟨committed, hrecovers, hreturned⟩

end CodingAgent.Replay
