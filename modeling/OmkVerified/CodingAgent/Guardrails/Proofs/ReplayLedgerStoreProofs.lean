import OmkVerified.CodingAgent.Guardrails.ReplayLedgerStore
import OmkVerified.CodingAgent.Guardrails.Proofs.ReplayLedgerProofs

/-!
# The files of the replay ledger

Between any two steps the head file names a prefix of the ledger that is the committed events, and
what stands behind it is not part of the ledger. A load cuts the rest off; an append moves the head
in one step.
-/

namespace CodingAgent.Replay

open Lib Program

variable {sha256 : Digest}

/-! ## Committed events -/

/-- Events as they are read from a ledger of one goal. -/
structure Committed (sha256 : Digest) (events : List ReplayEvent) : Prop where
  chained : ∃ goalId, (replayChain sha256 goalId).Chained 0 genesisHash events
  stored : events.map ReplayEvent.stored = events

theorem Committed.nil : Committed sha256 [] := ⟨⟨"", trivial⟩, rfl⟩

variable {committed : List ReplayEvent}

theorem Committed.lastSeq_eq (h : Committed sha256 committed) :
    lastSeq committed = committed.length := by
  obtain ⟨goalId, hchain⟩ := h.chained
  exact Replay.lastSeq_eq hchain

theorem Committed.isSha256_lastHash (h : Committed sha256 committed)
    (hhex : ∀ bytes, isSha256 (sha256 bytes) = true) (hne : committed ≠ []) :
    isSha256 (lastHash committed) = true := by
  obtain ⟨goalId, hchain⟩ := h.chained
  rcases List.eq_nil_or_concat' committed with rfl | ⟨events, event, rfl⟩
  · exact absurd rfl hne
  · have hsound := (replayChain sha256 goalId).sound_of_chained hchain event (by simp)
    unfold lastHash
    rw [List.getLast?_concat, Option.map_some, Option.getD_some, ← hsound.eventHash]
    exact hhex _

variable {goalId : String} {env : Environment} {rest : List UInt8} {disk : LedgerDisk}

/-- Whoever reads the committed bytes reads the committed events. -/
theorem Committed.eq_of_parse (h : Committed sha256 committed) {events : List ReplayEvent}
    (hparse : parseReplayLedgerBytes sha256 (ledgerBytes committed) goalId = .ok events) :
    events = committed := by
  obtain ⟨goal, hchain⟩ := h.chained
  have hown := parse_ledgerBytes hchain
  rw [h.stored] at hown
  have hlines := (parseReplayEvents_eq_ok.mp hown).1.symm.trans (parseReplayEvents_eq_ok.mp hparse).1
  exact (List.map_injective_iff.mpr (Option.some_injective _) hlines).symm

theorem Committed.parse (h : Committed sha256 committed)
    (hchain : (replayChain sha256 goalId).Chained 0 genesisHash committed) :
    parseReplayLedgerBytes sha256 (ledgerBytes committed) goalId = .ok committed := by
  have hparse := parse_ledgerBytes hchain
  rwa [h.stored] at hparse

theorem Committed.inspect_ok (h : Committed sha256 committed) {last : Nat × String}
    (hinspect : inspectLedger sha256 goalId (ledgerBytes committed) = .ok last) :
    last = (lastSeq committed, lastHash committed) ∧
      (replayChain sha256 goalId).Chained 0 genesisHash committed := by
  unfold inspectLedger at hinspect
  obtain ⟨events, hparse, hlast⟩ := bind_eq_ok.mp hinspect
  obtain rfl := h.eq_of_parse hparse
  exact ⟨(Except.ok.inj hlast).symm, chained_of_parse hparse⟩

theorem ledgerBytes_append (events : List ReplayEvent) (event : ReplayEvent) :
    ledgerBytes (events ++ [event]) = ledgerBytes events ++ eventLine event := by
  simp [ledgerBytes]

theorem eventLine_stored (event : ReplayEvent) : eventLine event.stored = eventLine event := by
  unfold eventLine ReplayEvent.stored
  simp only [Json.finite_finite]

theorem length_le_ledgerBytes (events : List ReplayEvent) :
    events.length ≤ (ledgerBytes events).length := by
  induction events with
  | nil => simp
  | cons event events ih =>
    have hline : 1 ≤ (eventLine event).length := by
      unfold eventLine
      rw [Utf8.encode_append, List.length_append]
      have : (Utf8.encode ['\n']).length = 1 := by decide
      omega
    have hbytes : ledgerBytes (event :: events) = eventLine event ++ ledgerBytes events := rfl
    rw [hbytes, List.length_append, List.length_cons]
    omega

/-! ## Heads -/

/-- The head of a file that holds the committed events. -/
def headOf (file : LedgerFile) (committed : List ReplayEvent) : Head :=
  ⟨some file.identity, (ledgerBytes committed).length, lastSeq committed, lastHash committed⟩

theorem isDigits_toString (n : Nat) : isDigits (toString n) = true := by
  have hdigits : (toString n).toList = Nat.toDigits 10 n := by
    show (String.ofList (Nat.toDigits 10 n)).toList = _
    rw [String.toList_ofList]
  unfold isDigits
  rw [hdigits, Bool.and_eq_true]
  refine ⟨?_, List.all_eq_true.mpr fun c hc => Json.toDigits_digit c hc⟩
  simp [Nat.toDigits_ne_nil]

theorem safeInteger?_ofNat {n : Nat} (h : n ≤ maxSafeInteger) :
    safeInteger? (some (.num (.ofNat n))) = some n := by
  unfold safeInteger? number?
  rw [Option.bind_some, Decimal.toNat?_ofNat, Option.filter_some, if_pos (by simpa using h)]

theorem keyLe_mk (k l : String) (v w : Json) : Json.keyLe (k, v) (l, w) ↔ jsLt l k = false := Iff.rfl

theorem sortedKeys_identity (dev ino : Json) : sortedKeys [("dev", dev), ("ino", ino)] = "dev,ino" := by
  have hle : jsLt "ino" "dev" = false := by decide
  unfold sortedKeys Json.sortFields
  simp only [List.insertionSort_cons, List.insertionSort_nil, List.orderedInsert, keyLe_mk, hle, if_true,
    List.map_cons, List.map_nil]
  decide

theorem sortedKeys_head (fileIdentity size lastSeq lastHash : Json) :
    sortedKeys [("fileIdentity", fileIdentity), ("size", size), ("lastSeq", lastSeq),
      ("lastHash", lastHash)] = "fileIdentity,lastHash,lastSeq,size" := by
  have h₁ : jsLt "lastHash" "lastSeq" = true := by decide
  have h₂ : jsLt "lastSeq" "size" = true := by decide
  have h₃ : jsLt "lastHash" "size" = true := by decide
  have h₄ : jsLt "lastHash" "fileIdentity" = false := by decide
  unfold sortedKeys Json.sortFields
  simp only [List.insertionSort_cons, List.insertionSort_nil, List.orderedInsert, keyLe_mk, h₁, h₂, h₃,
    h₄, if_true, if_false, Bool.true_eq_false, List.map_cons, List.map_nil]
  decide

theorem parseFileIdentity_identity (file : LedgerFile) :
    parseFileIdentity (some file.identity.toJson) = .ok (some file.identity) := by
  exact if_pos ⟨sortedKeys_identity _ _, isDigits_toString file.dev, isDigits_toString file.ino⟩

theorem lookup_head (fileIdentity size lastSeq lastHash : Json) :
    let fields := [("fileIdentity", fileIdentity), ("size", size), ("lastSeq", lastSeq),
      ("lastHash", lastHash)]
    fields.lookup "fileIdentity" = some fileIdentity ∧ fields.lookup "size" = some size ∧
      fields.lookup "lastSeq" = some lastSeq ∧ fields.lookup "lastHash" = some lastHash :=
  ⟨rfl, rfl, rfl, rfl⟩

/-- A published head is read back. -/
theorem parseHeadText_headOf (hhex : ∀ bytes, isSha256 (sha256 bytes) = true)
    (h : Committed sha256 committed) (file : LedgerFile)
    (hsize : (ledgerBytes committed).length ≤ maxSafeInteger) :
    parseHeadText (headText (headOf file committed)) = .ok (headOf file committed) := by
  have hwf : (headOf file committed).toJson.WellFormed :=
    ⟨by simp, ⟨by simp, trivial, trivial, trivial⟩, trivial, trivial, trivial, trivial⟩
  have hcount : lastSeq committed ≤ maxSafeInteger := by
    rw [h.lastSeq_eq]
    exact (length_le_ledgerBytes committed).trans hsize
  have hhash : if lastSeq committed = 0 then lastHash committed = genesisHash
      else isSha256 (lastHash committed) = true := by
    rw [h.lastSeq_eq]
    split_ifs with hzero
    · rw [List.eq_nil_of_length_eq_zero hzero]
      rfl
    · refine h.isSha256_lastHash hhex ?_
      rintro rfl
      exact hzero rfl
  unfold parseHeadText headText
  rw [Utf8.decode_encode, Json.parse_stringify_lineFeed _ hwf]
  show parseHead (.obj _) = _
  unfold parseHead
  dsimp only
  rw [if_pos (sortedKeys_head _ _ _ _)]
  obtain ⟨hidentity, hsizeField, hseqField, hhashField⟩ := lookup_head
    (((headOf file committed).fileIdentity.map FileIdentity.toJson).getD .null)
    (.num (.ofNat (headOf file committed).size)) (.num (.ofNat (headOf file committed).lastSeq))
    (.str (headOf file committed).lastHash)
  rw [hidentity, hsizeField, hseqField, hhashField]
  simp only [headOf, Option.map_some, Option.getD_some]
  rw [parseFileIdentity_identity, safeInteger?_ofNat hsize, safeInteger?_ofNat hcount, ok_bind]
  exact if_pos hhash

theorem sameIdentity_self (identity : FileIdentity) :
    sameIdentity (some identity) (some identity) = true := by
  simp [sameIdentity]

theorem replayLedgerHeadsEqual_eq_true {left right : Head}
    (h : replayLedgerHeadsEqual left right = true) : left = right := by
  obtain ⟨identity, size, seq, hash⟩ := left
  obtain ⟨identity', size', seq', hash'⟩ := right
  unfold replayLedgerHeadsEqual at h
  simp only [Bool.and_eq_true, decide_eq_true_eq] at h
  obtain ⟨⟨⟨hidentity, rfl⟩, rfl⟩, rfl⟩ := h
  have hsame : identity = identity' := by
    cases identity with
    | none => exact (Option.isNone_iff_eq_none.mp hidentity).symm
    | some left =>
      cases identity' with
      | none => exact absurd hidentity (by simp [sameIdentity])
      | some right =>
        obtain ⟨dev, ino⟩ := left
        obtain ⟨dev', ino'⟩ := right
        simpa [sameIdentity] using hidentity
  rw [hsame]

/-! ## System calls -/

variable {live : Prop} {R : LedgerDisk → Prop}

/-- The ledger, its head and the suffixes in quarantine. -/
structure At (ledger : Option LedgerFile) (head : Option (List UInt8))
    (quarantined : String → Option (List UInt8)) (disk : LedgerDisk) : Prop where
  ledger : disk.ledger = ledger
  head : disk.head = head
  quarantined : disk.quarantined = quarantined

variable {ledger : Option LedgerFile} {file : LedgerFile} {head : Option (List UInt8)}
  {quarantined : String → Option (List UInt8)}

theorem flush_spec {P : LedgerDisk → Prop} (h : ∀ disk, P disk → R disk) :
    Triple live P flush (fun _ => P) R :=
  .idle (fun _ hp => hp) h

theorem onLedger_spec {α : Type} {f : LedgerFile → α × LedgerFile}
    (hstay : ∀ disk, At (some file) head quarantined disk → R disk)
    (hgo : ∀ disk, At (some (f file).2) head quarantined disk → R disk) :
    Triple live (At (some file) head quarantined) (atomic failed (onLedger f))
      (fun value disk => value = (f file).1 ∧ At (some (f file).2) head quarantined disk) R := by
  have hrun : ∀ disk, At (some file) head quarantined disk →
      onLedger f disk = .ok ((f file).1, { disk with ledger := some (f file).2 }) := by
    intro disk hat
    unfold onLedger
    rw [hat.ledger]
  refine .atomic ?_ ?_ hstay
  · intro disk value disk' hat hf
    rw [hrun disk hat] at hf
    obtain ⟨rfl, rfl⟩ := Prod.mk.inj (Except.ok.inj hf)
    have hafter : At (some (f file).2) head quarantined { disk with ledger := some (f file).2 } :=
      ⟨rfl, hat.head, hat.quarantined⟩
    exact ⟨⟨rfl, hafter⟩, hgo _ hafter⟩
  · intro disk error hat hf
    rw [hrun disk hat] at hf
    exact absurd hf (by simp)

/-- What a system call reads of the ledger. -/
theorem readLedger_spec {α : Type} {f : LedgerFile → α}
    (hstay : ∀ disk, At (some file) head quarantined disk → R disk) :
    Triple live (At (some file) head quarantined) (atomic failed (onLedger fun file => (f file, file)))
      (fun value disk => value = f file ∧ At (some file) head quarantined disk) R :=
  onLedger_spec hstay hstay

theorem quarantine_spec {name : String} (suffix : List UInt8)
    (hfresh : live → quarantined name = none)
    (hexit : ∀ disk files, At ledger head files disk → R disk) :
    Triple live (At ledger head quarantined) (quarantineReplayLedgerSuffix name suffix)
      (fun _ => At ledger head (Function.update quarantined name (some suffix))) R := by
  have hcreate : Triple live (At ledger head quarantined) (createQuarantine name)
      (fun _ => At ledger head (Function.update quarantined name (some []))) R := by
    refine .atomic ?_ ?_ fun disk hat => hexit disk _ hat
    · intro disk value disk' hat hf
      unfold createFile at hf
      rw [hat.quarantined] at hf
      cases hname : quarantined name with
      | some bytes => simp [hname, Except.map] at hf
      | none =>
        simp only [hname, Except.map, Except.ok.injEq, Prod.mk.injEq] at hf
        obtain ⟨-, rfl⟩ := hf
        have hafter : At ledger head (Function.update quarantined name (some []))
            { disk with quarantined := Function.update quarantined name (some []) } :=
          ⟨hat.ledger, hat.head, rfl⟩
        exact ⟨hafter, hexit _ _ hafter⟩
    · intro disk error hat hf hlive
      unfold createFile at hf
      rw [hat.quarantined, hfresh hlive] at hf
      exact absurd hf (by simp [Except.map])
  have hwrite : Triple live (At ledger head (Function.update quarantined name (some [])))
      (writeQuarantine name suffix)
      (fun _ => At ledger head (Function.update quarantined name (some suffix))) R := by
    refine .step ?_ ?_ ?_
    · intro disk value disk' hat hf
      obtain ⟨-, rfl⟩ := Prod.mk.inj (Except.ok.inj hf)
      refine ⟨hat.ledger, hat.head, ?_⟩
      show Function.update disk.quarantined name (some suffix) = _
      rw [hat.quarantined, Function.update_idem]
    · intro disk error _ hf
      exact absurd hf (by simp)
    · intro disk progress hat
      exact hexit _ _ ⟨hat.ledger, hat.head, rfl⟩
  unfold quarantineReplayLedgerSuffix
  refine hcreate.bind fun _ => ?_
  refine Triple.bind (Triple.tryFinally (Q := fun _ => At ledger head
    (Function.update quarantined name (some suffix))) ?_ ?_ ?_) ?_
  · exact hwrite.bind fun _ => flush_spec fun disk hat => hexit disk _ hat
  · exact fun _ => flush_spec fun disk hat => hexit disk _ hat
  · exact flush_spec fun _ hr => hr
  · exact fun _ => flush_spec fun disk hat => hexit disk _ hat

/-! ## Reading -/

/-- The suffixes in quarantine after one, which may be empty, was cut off. -/
def afterCut (quarantined : String → Option (List UInt8)) (name : String) (suffix : List UInt8) :
    String → Option (List UInt8) :=
  if suffix = [] then quarantined else Function.update quarantined name (some suffix)

/-- The file with exactly the committed events. -/
def cutFile (file : LedgerFile) (committed : List ReplayEvent) : LedgerFile :=
  { file with bytes := ledgerBytes committed }

/-- The ledger of a head is cut down to its committed events. -/
theorem verifyLedger_spec (h : Committed sha256 committed) (goalId : String) {suffix : List UInt8}
    (hbytes : file.bytes = ledgerBytes committed ++ suffix)
    (hlive : live → (replayChain sha256 goalId).Chained 0 genesisHash committed ∧
      quarantined env.quarantineName = none)
    (hexit : ∀ disk files rest, At (some { file with bytes := ledgerBytes committed ++ rest }) head
      files disk → R disk) :
    Triple live (At (some file) head quarantined)
      (verifyLedger (inspectLedger sha256 goalId) env (headOf file committed))
      (fun snapshot disk => (replayChain sha256 goalId).Chained 0 genesisHash committed ∧
        snapshot = ⟨ledgerBytes committed, headOf file committed⟩ ∧
        At (some (cutFile file committed)) head (afterCut quarantined env.quarantineName suffix)
          disk) R := by
  have hfile : file = { file with bytes := ledgerBytes committed ++ suffix } := by
    rw [← hbytes]
  have hstay : ∀ disk files, At (some file) head files disk → R disk := by
    intro disk files hat
    rw [hfile] at hat
    exact hexit disk files suffix hat
  have hcut : ∀ disk files, At (some (cutFile file committed)) head files disk → R disk := by
    intro disk files hat
    refine hexit disk files [] ?_
    rw [List.append_nil]
    exact hat
  have hlength : file.bytes.length = (ledgerBytes committed).length + suffix.length := by
    rw [hbytes, List.length_append]
  have htake : (if (headOf file committed).size = file.bytes.length then file.bytes
      else file.bytes.take (headOf file committed).size) = ledgerBytes committed := by
    show (if (ledgerBytes committed).length = file.bytes.length then file.bytes
      else file.bytes.take (ledgerBytes committed).length) = _
    split_ifs with hsize
    · have hnil : suffix = [] := List.eq_nil_of_length_eq_zero (by omega)
      rw [hbytes, hnil, List.append_nil]
    · rw [hbytes, List.take_left]
  have hdrop : file.bytes.drop (headOf file committed).size = suffix := by
    show file.bytes.drop (ledgerBytes committed).length = suffix
    rw [hbytes, List.drop_left]
  unfold verifyLedger
  refine Triple.bind_known (readLedger_spec fun disk hat => hstay disk _ hat) ?_
  refine Triple.bind_known (readLedger_spec fun disk hat => hstay disk _ hat) ?_
  refine Triple.bind_known (readLedger_spec fun disk hat => hstay disk _ hat) ?_
  refine Triple.bind (Triple.require_true ?_) fun _ => ?_
  · simp [headOf, sameIdentity_self, hlength]
  dsimp only
  rw [htake, hdrop]
  have hinspect : Triple live (At (some file) head quarantined)
      (ofExcept (inspectLedger sha256 goalId (ledgerBytes committed)))
      (fun last disk => last = (lastSeq committed, lastHash committed) ∧
        ∃ _ : (replayChain sha256 goalId).Chained 0 genesisHash committed,
          At (some file) head quarantined disk) R := by
    refine .ofExcept (fun disk last hat hok => ?_) fun disk error hat hfail => ?_
    · obtain ⟨hlast, hchain⟩ := h.inspect_ok hok
      exact ⟨hlast, hchain, hat⟩
    refine ⟨fun hl => ?_, hstay disk _ hat⟩
    unfold inspectLedger at hfail
    rw [h.parse (hlive hl).1] at hfail
    exact absurd hfail (by simp)
  refine Triple.bind_known hinspect (.of_exists fun hchain => ?_)
  refine Triple.bind (Triple.require_true ?_) fun _ => ?_
  · simp [headOf]
  by_cases hsuffix : suffix = []
  · have hnot : ¬ (headOf file committed).size < file.bytes.length := by
      show ¬ (ledgerBytes committed).length < file.bytes.length
      rw [hlength, hsuffix, List.length_nil]
      omega
    have hsame : cutFile file committed = file := by
      unfold cutFile
      rw [hsuffix, List.append_nil] at hfile
      exact hfile.symm
    rw [if_neg hnot]
    refine .pure _ fun disk hat => ⟨hchain, rfl, ?_⟩
    rw [hsame]
    unfold afterCut
    rwa [if_pos hsuffix]
  · have hlt : (headOf file committed).size < file.bytes.length := by
      show (ledgerBytes committed).length < file.bytes.length
      have := List.length_pos_of_ne_nil hsuffix
      omega
    rw [if_pos hlt]
    have hafter : afterCut quarantined env.quarantineName suffix =
        Function.update quarantined env.quarantineName (some suffix) := if_neg hsuffix
    rw [hafter]
    refine Triple.bind (quarantine_spec suffix (fun hl => (hlive hl).2) hstay) fun _ => ?_
    have htruncate : Triple live
        (At (some file) head (Function.update quarantined env.quarantineName (some suffix)))
        (truncateLedger (headOf file committed).size)
        (fun _ => At (some (cutFile file committed)) head
          (Function.update quarantined env.quarantineName (some suffix))) R := by
      have hbytesCut : file.bytes.take (headOf file committed).size = ledgerBytes committed := by
        show file.bytes.take (ledgerBytes committed).length = _
        rw [hbytes, List.take_left]
      refine (onLedger_spec (fun disk hat => hstay disk _ hat) ?_).consequence (fun _ hp => hp)
        ?_ fun _ hr => hr
      · intro disk hat
        rw [hbytesCut] at hat
        exact hcut disk _ hat
      · rintro value disk ⟨-, hat⟩
        rw [hbytesCut] at hat
        exact hat
    refine htruncate.bind fun _ => ?_
    refine Triple.bind (flush_spec fun disk hat => hcut disk _ hat) fun _ => ?_
    refine Triple.bind (flush_spec fun disk hat => hcut disk _ hat) fun _ => ?_
    exact .pure _ fun disk hat => ⟨hchain, rfl, hat⟩

/-- The files when the events are committed and the ledger ends with a rest that is not. -/
def Holds (committed : List ReplayEvent) (rest : List UInt8) (disk : LedgerDisk) : Prop :=
  (committed = [] ∧ rest = [] ∧ disk.head = none ∧ ∀ file, disk.ledger = some file → file.bytes = []) ∨
    ∃ file, disk.ledger = some file ∧ file.bytes = ledgerBytes committed ++ rest ∧
      (ledgerBytes committed).length ≤ maxSafeInteger ∧
      disk.head = some (headText (headOf file committed))

/-- The events are committed. -/
def Keeps (committed : List ReplayEvent) (disk : LedgerDisk) : Prop := ∃ rest, Holds committed rest disk

theorem At.keeps (hat : At (some file) (some (headText (headOf file committed))) quarantined disk)
    (hbytes : file.bytes = ledgerBytes committed ++ rest)
    (hsize : (ledgerBytes committed).length ≤ maxSafeInteger) : Keeps committed disk :=
  ⟨rest, .inr ⟨file, hat.ledger, hbytes, hsize, hat.head⟩⟩

/-- What a load has found, and the files that it leaves. -/
def Settled (committed : List ReplayEvent) (quarantined : String → Option (List UInt8))
    (snapshot : StoreSnapshot) (disk : LedgerDisk) : Prop :=
  (committed = [] ∧ snapshot = ⟨[], emptyReplayLedgerHead⟩ ∧ At none none quarantined disk) ∨
    ∃ file, file.bytes = ledgerBytes committed ∧ (ledgerBytes committed).length ≤ maxSafeInteger ∧
      snapshot = ⟨ledgerBytes committed, headOf file committed⟩ ∧
      At (some file) (some (headText (headOf file committed))) quarantined disk

theorem Settled.bytes {snapshot : StoreSnapshot} (h : Settled committed quarantined snapshot disk) :
    snapshot.bytes = ledgerBytes committed := by
  rcases h with ⟨rfl, rfl, -⟩ | ⟨file, -, -, rfl, -⟩
  · rfl
  · rfl

theorem Settled.holds {snapshot : StoreSnapshot} (h : Settled committed quarantined snapshot disk) :
    Holds committed [] disk := by
  rcases h with ⟨hnil, -, hat⟩ | ⟨file, hbytes, hsize, -, hat⟩
  · refine .inl ⟨hnil, rfl, hat.head, fun file hfile => ?_⟩
    rw [hat.ledger] at hfile
    exact absurd hfile (by simp)
  · exact .inr ⟨file, hat.ledger, by rw [List.append_nil, hbytes], hsize, hat.head⟩

theorem Settled.quarantined_eq {snapshot : StoreSnapshot}
    (h : Settled committed quarantined snapshot disk) : disk.quarantined = quarantined := by
  rcases h with ⟨-, -, hat⟩ | ⟨file, -, -, -, hat⟩
  · exact hat.quarantined
  · exact hat.quarantined

theorem Settled.last {snapshot : StoreSnapshot} (h : Settled committed quarantined snapshot disk) :
    snapshot.head.lastSeq = lastSeq committed ∧ snapshot.head.lastHash = lastHash committed := by
  rcases h with ⟨rfl, rfl, -⟩ | ⟨file, -, -, rfl, -⟩
  · exact ⟨rfl, rfl⟩
  · exact ⟨rfl, rfl⟩

theorem holds_published (hsize : (ledgerBytes committed).length ≤ maxSafeInteger)
    (hat : At (some { file with bytes := ledgerBytes committed ++ rest })
      (some (headText (headOf file committed))) quarantined disk) :
    Keeps committed disk :=
  ⟨rest, .inr ⟨_, hat.ledger, rfl, hsize, hat.head⟩⟩

theorem holds_created (hbytes : file.bytes = []) (hat : At (some file) none quarantined disk) :
    Holds [] [] disk := by
  refine .inl ⟨rfl, rfl, hat.head, fun other hother => ?_⟩
  rw [hat.ledger] at hother
  obtain rfl := Option.some.inj hother
  exact hbytes

theorem holds_absent (hat : At none none quarantined disk) : Holds [] [] disk := by
  refine .inl ⟨rfl, rfl, hat.head, fun other hother => ?_⟩
  rw [hat.ledger] at hother
  exact absurd hother (by simp)

theorem look_spec {α : Type} {P : LedgerDisk → Prop} {f : LedgerDisk → α} (value : α)
    (h : ∀ disk, P disk → f disk = value) :
    Triple live P (look f : StoreProgram α) (fun v disk => v = value ∧ P disk) R :=
  .look fun disk hp => ⟨h disk hp, hp⟩

theorem readVerified_absent (goalId : String) (env : Environment) :
    Triple live (At none none quarantined) (readVerified (inspectLedger sha256 goalId) env)
      (fun snapshot disk => (replayChain sha256 goalId).Chained 0 genesisHash [] ∧
        Settled [] quarantined snapshot disk) (Keeps []) := by
  unfold readVerified
  refine Triple.bind_known (look_spec false fun disk hat => ?_) ?_
  · rw [hat.ledger]
    rfl
  refine Triple.bind_known (look_spec false fun disk hat => ?_) ?_
  · rw [hat.head]
    rfl
  exact .pure _ fun disk hat => ⟨trivial, .inl ⟨rfl, rfl, hat⟩⟩

/-- An empty ledger without a head is what an interrupted creation leaves. -/
theorem readVerified_created (goalId : String) (env : Environment) (hbytes : file.bytes = []) :
    Triple live (At (some file) none quarantined) (readVerified (inspectLedger sha256 goalId) env)
      (fun snapshot disk => (replayChain sha256 goalId).Chained 0 genesisHash [] ∧
        Settled [] quarantined snapshot disk) (Keeps []) := by
  have hstay : ∀ disk, At (some file) none quarantined disk → Keeps [] disk :=
    fun disk hat => ⟨[], holds_created hbytes hat⟩
  have hgone : ∀ disk, At none none quarantined disk → Keeps [] disk :=
    fun disk hat => ⟨[], holds_absent hat⟩
  have hunlink : Triple live (At (some file) none quarantined) unlinkLedger
      (fun _ => At none none quarantined) (Keeps []) := by
    refine .atomic ?_ ?_ hstay
    · intro disk value disk' hat hf
      unfold onLedger at hf
      rw [hat.ledger] at hf
      simp only [Except.map, Except.ok.injEq, Prod.mk.injEq] at hf
      obtain ⟨-, rfl⟩ := hf
      have hafter : At none none quarantined { disk with ledger := none } :=
        ⟨rfl, hat.head, hat.quarantined⟩
      exact ⟨hafter, hgone _ hafter⟩
    · intro disk error hat hf
      unfold onLedger at hf
      rw [hat.ledger] at hf
      exact absurd hf (by simp [Except.map])
  unfold readVerified
  refine Triple.bind_known (look_spec true fun disk hat => ?_) ?_
  · rw [hat.ledger]
    rfl
  refine Triple.bind_known (look_spec false fun disk hat => ?_) ?_
  · rw [hat.head]
    rfl
  refine Triple.bind_known (readLedger_spec hstay) ?_
  refine Triple.bind (Triple.tryFinally (Q := fun _ => At (some file) none quarantined) ?_ ?_ ?_) ?_
  · refine Triple.bind_known (readLedger_spec hstay) ?_
    exact .require_true (by simp [hbytes])
  · exact fun _ => flush_spec hstay
  · exact flush_spec fun _ hr => hr
  · intro _
    refine hunlink.bind fun _ => ?_
    refine Triple.bind (flush_spec hgone) fun _ => ?_
    exact .pure _ fun disk hat => ⟨trivial, .inl ⟨rfl, rfl, hat⟩⟩

theorem readVerified_published (hhex : ∀ bytes, isSha256 (sha256 bytes) = true)
    (h : Committed sha256 committed) (hbytes : file.bytes = ledgerBytes committed ++ rest)
    (hsize : (ledgerBytes committed).length ≤ maxSafeInteger)
    (hlive : live → (replayChain sha256 goalId).Chained 0 genesisHash committed ∧
      quarantined env.quarantineName = none) :
    Triple live (At (some file) (some (headText (headOf file committed))) quarantined)
      (readVerified (inspectLedger sha256 goalId) env)
      (fun snapshot disk => (replayChain sha256 goalId).Chained 0 genesisHash committed ∧
        Settled committed (afterCut quarantined env.quarantineName rest) snapshot disk)
      (Keeps committed) := by
  have hstay : ∀ disk, At (some file) (some (headText (headOf file committed))) quarantined disk →
      Keeps committed disk := fun disk hat => hat.keeps hbytes hsize
  have hread : Triple live (At (some file) (some (headText (headOf file committed))) quarantined)
      readHead (fun text disk => text = headText (headOf file committed) ∧
        At (some file) (some (headText (headOf file committed))) quarantined disk)
      (Keeps committed) := by
    refine .atomic ?_ ?_ hstay
    · intro disk value disk' hat hf
      rw [hat.head] at hf
      obtain ⟨rfl, rfl⟩ := Prod.mk.inj (Except.ok.inj hf)
      exact ⟨⟨rfl, hat⟩, hstay disk hat⟩
    · intro disk error hat hf
      rw [hat.head] at hf
      exact absurd hf (by simp)
  have hverify : Triple live (At (some file) (some (headText (headOf file committed))) quarantined)
      (verifyLedger (inspectLedger sha256 goalId) env (headOf file committed))
      (fun snapshot disk => (replayChain sha256 goalId).Chained 0 genesisHash committed ∧
        Settled committed (afterCut quarantined env.quarantineName rest) snapshot disk)
      (Keeps committed) := by
    refine (verifyLedger_spec h goalId hbytes hlive
      fun disk files rest' hat => holds_published hsize hat).consequence (fun _ hp => hp) ?_
      fun _ hr => hr
    rintro snapshot disk ⟨hchain, hsnapshot, hat⟩
    exact ⟨hchain, .inr ⟨cutFile file committed, rfl, hsize, hsnapshot, hat⟩⟩
  unfold readVerified
  refine Triple.bind_known (look_spec true fun disk hat => ?_) ?_
  · rw [hat.ledger]
    rfl
  refine Triple.bind_known (look_spec true fun disk hat => ?_) ?_
  · rw [hat.head]
    rfl
  refine Triple.bind_known hread ?_
  rw [parseHeadText_headOf hhex h file hsize]
  refine Triple.bind_known (.pure _ fun disk hat => ⟨rfl, hat⟩) ?_
  refine Triple.bind_known (readLedger_spec hstay) ?_
  refine hverify.tryFinally (fun snapshot => ?_) (flush_spec fun _ hr => hr)
  exact flush_spec fun disk hpost => ⟨[], hpost.2.holds⟩

/-- A load finds the committed events, and quarantines and cuts off what stands behind them. -/
theorem readVerified_spec (hhex : ∀ bytes, isSha256 (sha256 bytes) = true)
    (h : Committed sha256 committed)
    (hlive : live → (replayChain sha256 goalId).Chained 0 genesisHash committed ∧
      quarantined env.quarantineName = none) :
    Triple live (fun disk => Holds committed rest disk ∧ disk.quarantined = quarantined)
      (readVerified (inspectLedger sha256 goalId) env)
      (fun snapshot disk => (replayChain sha256 goalId).Chained 0 genesisHash committed ∧
        Settled committed (afterCut quarantined env.quarantineName rest) snapshot disk)
      (Keeps committed) := by
  rintro fates disk ⟨hholds, hquarantined⟩
  have hstart : At disk.ledger disk.head quarantined disk := ⟨rfl, rfl, hquarantined⟩
  rcases hholds with ⟨rfl, rfl, hhead, hempty⟩ | ⟨file, hledger, hbytes, hsize, hhead⟩
  · rw [hhead] at hstart
    have hcut : afterCut quarantined env.quarantineName [] = quarantined := if_pos rfl
    rw [hcut]
    cases hledger : disk.ledger with
    | none =>
      rw [hledger] at hstart
      exact readVerified_absent goalId env fates disk hstart
    | some file =>
      rw [hledger] at hstart
      exact readVerified_created goalId env (hempty file hledger) fates disk hstart
  · rw [hledger, hhead] at hstart
    exact readVerified_published hhex h hbytes hsize hlive fates disk hstart

/-! ## Appending -/

/-- The head is replaced in one step. -/
theorem publishHead_spec (temp : String) (next : Head)
    (hbefore : ∀ disk, At ledger head quarantined disk → R disk)
    (hafter : ∀ disk, At ledger (some (headText next)) quarantined disk → R disk) :
    Triple False (At ledger head quarantined) (publishHead temp next)
      (fun _ => At ledger (some (headText next)) quarantined) R := by
  have hcreate : Triple False (At ledger head quarantined) (createTemp temp)
      (fun _ => At ledger head quarantined) R := by
    refine .atomic ?_ (fun _ _ _ _ => id) hbefore
    intro disk value disk' hat hf
    cases hfile : createFile disk.temps temp with
    | error error => simp [hfile, Except.map] at hf
    | ok temps =>
      simp only [hfile, Except.map, Except.ok.injEq, Prod.mk.injEq] at hf
      obtain ⟨-, rfl⟩ := hf
      have hsame : At ledger head quarantined { disk with temps := temps } :=
        ⟨hat.ledger, hat.head, hat.quarantined⟩
      exact ⟨hsame, hbefore _ hsame⟩
  have hwrite : Triple False (At ledger head quarantined) (writeTemp temp (headText next))
      (fun _ disk => At ledger head quarantined disk ∧ disk.temps temp = some (headText next)) R := by
    refine .step ?_ ?_ ?_
    · intro disk value disk' hat hf
      obtain ⟨-, rfl⟩ := Prod.mk.inj (Except.ok.inj hf)
      exact ⟨⟨hat.ledger, hat.head, hat.quarantined⟩, Function.update_self _ _ _⟩
    · intro disk error _ hf
      exact absurd hf (by simp)
    · intro disk progress hat
      exact hbefore _ ⟨hat.ledger, hat.head, hat.quarantined⟩
  have hrename : Triple False
      (fun disk => At ledger head quarantined disk ∧ disk.temps temp = some (headText next))
      (renameTemp temp) (fun _ => At ledger (some (headText next)) quarantined)
      (fun disk => At ledger head quarantined disk ∨
        At ledger (some (headText next)) quarantined disk) := by
    refine .atomic ?_ (fun _ _ _ _ => id) fun disk hp => .inl hp.1
    rintro disk value disk' ⟨hat, htext⟩ hf
    rw [htext] at hf
    obtain ⟨-, rfl⟩ := Prod.mk.inj (Except.ok.inj hf)
    have hdone : At ledger (some (headText next)) quarantined
        { disk with head := some (headText next), temps := Function.update disk.temps temp none } :=
      ⟨hat.ledger, rfl, hat.quarantined⟩
    exact ⟨hdone, .inr hdone⟩
  have hremove : Triple False
      (fun disk => At ledger head quarantined disk ∨
        At ledger (some (headText next)) quarantined disk) (removeTemp temp)
      (fun _ disk => At ledger head quarantined disk ∨
        At ledger (some (headText next)) quarantined disk) R := by
    have hexit : ∀ disk, At ledger head quarantined disk ∨
        At ledger (some (headText next)) quarantined disk → R disk :=
      fun disk hor => hor.elim (hbefore disk) (hafter disk)
    refine .atomic ?_ (fun _ _ _ _ => id) hexit
    intro disk value disk' hor hf
    obtain ⟨-, rfl⟩ := Prod.mk.inj (Except.ok.inj hf)
    have hsame : At ledger head quarantined
          { disk with temps := Function.update disk.temps temp none } ∨
        At ledger (some (headText next)) quarantined
          { disk with temps := Function.update disk.temps temp none } := by
      rcases hor with hat | hat
      · exact .inl ⟨hat.ledger, hat.head, hat.quarantined⟩
      · exact .inr ⟨hat.ledger, hat.head, hat.quarantined⟩
    exact ⟨hsame, hexit _ hsame⟩
  have hexit : ∀ disk, At ledger head quarantined disk ∨
      At ledger (some (headText next)) quarantined disk → R disk :=
    fun disk hor => hor.elim (hbefore disk) (hafter disk)
  unfold publishHead
  refine hcreate.bind fun _ => ?_
  refine Triple.bind (Triple.tryFinally
    (hwrite.bind fun _ => flush_spec fun disk hp => hbefore disk hp.1)
    (fun _ => flush_spec fun disk hp => hbefore disk hp.1) (flush_spec fun _ hr => hr)) fun _ => ?_
  refine Triple.tryCatch (hrename.bind fun _ => flush_spec fun disk hat => .inr hat) ?_ hexit
  intro error
  refine Triple.bind (Triple.look (Q := fun _ disk => At ledger head quarantined disk ∨
    At ledger (some (headText next)) quarantined disk) fun disk hor => hor) fun found => ?_
  cases found with
  | false => exact .throw fun disk hor => ⟨id, hexit disk hor⟩
  | true => exact hremove.bind fun _ => .throw fun disk hor => ⟨id, hexit disk hor⟩

/-- The empty ledger and its head are created. -/
theorem initializeGenesis_spec (env : Environment) :
    Triple False (At none none quarantined) (initializeGenesis env)
      (fun appendHead disk => appendHead = headOf ⟨env.dev, env.ino, []⟩ [] ∧
        At (some ⟨env.dev, env.ino, []⟩) (some (headText (headOf ⟨env.dev, env.ino, []⟩ [])))
          quarantined disk) (Keeps []) := by
  have hcreated : ∀ disk, At (some ⟨env.dev, env.ino, []⟩) none quarantined disk → Keeps [] disk :=
    fun disk hat => ⟨[], holds_created rfl hat⟩
  have hpublished : ∀ disk, At (some ⟨env.dev, env.ino, []⟩)
      (some (headText (headOf ⟨env.dev, env.ino, []⟩ []))) quarantined disk → Keeps [] disk :=
    fun disk hat => ⟨[], .inr ⟨_, hat.ledger, rfl, Nat.zero_le _, hat.head⟩⟩
  have hcreate : Triple False (At none none quarantined) (createLedger env)
      (fun _ => At (some ⟨env.dev, env.ino, []⟩) none quarantined) (Keeps []) := by
    refine .atomic ?_ (fun _ _ _ _ => id) fun disk hat => ⟨[], holds_absent hat⟩
    intro disk value disk' hat hf
    rw [hat.ledger] at hf
    obtain ⟨-, rfl⟩ := Prod.mk.inj (Except.ok.inj hf)
    have hafter : At (some ⟨env.dev, env.ino, []⟩) none quarantined
        { disk with ledger := some ⟨env.dev, env.ino, []⟩ } := ⟨rfl, hat.head, hat.quarantined⟩
    exact ⟨hafter, hcreated _ hafter⟩
  unfold initializeGenesis
  refine hcreate.bind fun _ => Triple.tryFinally ?_ (fun appendHead => ?_) (flush_spec fun _ hr => hr)
  · refine Triple.bind (flush_spec hcreated) fun _ => ?_
    refine Triple.bind_known (readLedger_spec hcreated) ?_
    refine Triple.bind (publishHead_spec env.genesisName _ hcreated hpublished) fun _ => ?_
    exact .pure _ fun disk hat => ⟨rfl, hat⟩
  · exact flush_spec fun disk hpost => hpublished disk hpost.2

/-- The line is written and its head is published. -/
theorem writeEvent_spec {event : ReplayEvent} (hbytes : file.bytes = ledgerBytes committed)
    (hsize : (ledgerBytes committed).length ≤ maxSafeInteger) :
    Triple False (At (some file) (some (headText (headOf file committed))) quarantined)
      (writeEvent env (eventLine event) (lastSeq (committed ++ [event.stored]))
        (lastHash (committed ++ [event.stored])) (headOf file committed))
      (fun _ => Holds (committed ++ [event.stored]) [])
      (fun disk => Keeps committed disk ∨ Keeps (committed ++ [event.stored]) disk) := by
  have hstay : ∀ disk, At (some file) (some (headText (headOf file committed))) quarantined disk →
      Keeps committed disk ∨ Keeps (committed ++ [event.stored]) disk :=
    fun disk hat => .inl (hat.keeps (hbytes.trans (List.append_nil _).symm) hsize)
  have hnext : ledgerBytes (committed ++ [event.stored]) = ledgerBytes committed ++ eventLine event := by
    rw [ledgerBytes_append, eventLine_stored]
  have hwritten : ∀ disk, At (some { file with bytes := file.bytes ++ eventLine event })
      (some (headText (headOf file committed))) quarantined disk →
      Keeps committed disk ∨ Keeps (committed ++ [event.stored]) disk := by
    intro disk hat
    refine .inl ⟨eventLine event, .inr ⟨_, hat.ledger, ?_, hsize, hat.head⟩⟩
    rw [hbytes]
  have hwrite : Triple False
      (At (some file) (some (headText (headOf file committed))) quarantined)
      (writeLedger (eventLine event))
      (fun _ disk => ∃ _ : file.bytes.length + (eventLine event).length ≤ maxSafeInteger,
        At (some { file with bytes := file.bytes ++ eventLine event })
          (some (headText (headOf file committed))) quarantined disk)
      (fun disk => Keeps committed disk ∨ Keeps (committed ++ [event.stored]) disk) := by
    refine .step ?_ ?_ ?_
    · intro disk value disk' hat hf
      rw [hat.ledger] at hf
      dsimp only at hf
      split_ifs at hf with hfits
      obtain ⟨-, rfl⟩ := Prod.mk.inj (Except.ok.inj hf)
      exact ⟨hfits, rfl, hat.head, hat.quarantined⟩
    · exact fun disk error hat _ => ⟨id, hstay disk hat⟩
    · intro disk progress hat
      refine .inl ⟨(eventLine event).take progress,
        .inr ⟨{ file with bytes := file.bytes ++ (eventLine event).take progress }, ?_, ?_, hsize,
          hat.head⟩⟩
      · show disk.ledger.map _ = _
        rw [hat.ledger]
        rfl
      · rw [hbytes]
  unfold writeEvent
  refine Triple.bind_known (readLedger_spec hstay) ?_
  refine Triple.bind (Triple.require_true ?_) fun _ => ?_
  · simp [headOf, hbytes, sameIdentity_self]
  refine hwrite.bind fun _ => .of_exists fun hfits => ?_
  refine Triple.bind (flush_spec hwritten) fun _ => ?_
  refine Triple.bind_known (readLedger_spec hwritten) ?_
  refine Triple.bind (Triple.require_true ?_) fun _ => ?_
  · simp [headOf, hbytes, LedgerFile.identity, sameIdentity_self]
  have hhead : (⟨some ({ file with bytes := file.bytes ++ eventLine event } : LedgerFile).identity,
      (file.bytes ++ eventLine event).length, lastSeq (committed ++ [event.stored]),
      lastHash (committed ++ [event.stored])⟩ : Head) =
      headOf { file with bytes := file.bytes ++ eventLine event } (committed ++ [event.stored]) := by
    unfold headOf
    rw [hnext, hbytes]
  dsimp only
  rw [hhead]
  have hdone : ∀ disk, At (some { file with bytes := file.bytes ++ eventLine event })
      (some (headText (headOf { file with bytes := file.bytes ++ eventLine event }
        (committed ++ [event.stored])))) quarantined disk →
      Holds (committed ++ [event.stored]) [] disk := by
    intro disk hat
    refine .inr ⟨_, hat.ledger, ?_, ?_, hat.head⟩
    · rw [List.append_nil, hnext, hbytes]
    · rw [hnext, List.length_append, ← hbytes]
      exact hfits
  refine Triple.bind (publishHead_spec env.headName _ hwritten
    fun disk hat => .inr ⟨[], hdone disk hat⟩) fun _ => ?_
  exact .pure _ hdone

/-- What follows once the ledger has a head. -/
theorem appendTail_spec {event : ReplayEvent} (hbytes : file.bytes = ledgerBytes committed)
    (hsize : (ledgerBytes committed).length ≤ maxSafeInteger) :
    Triple False (At (some file) (some (headText (headOf file committed))) quarantined)
      (openLedgerForAppend env >>= fun _ => tryFinally
        (writeEvent env (eventLine event) (lastSeq (committed ++ [event.stored]))
          (lastHash (committed ++ [event.stored])) (headOf file committed)) flush)
      (fun _ => Holds (committed ++ [event.stored]) [])
      (fun disk => Keeps committed disk ∨ Keeps (committed ++ [event.stored]) disk) := by
  have hstay : ∀ disk, At (some file) (some (headText (headOf file committed))) quarantined disk →
      Keeps committed disk ∨ Keeps (committed ++ [event.stored]) disk :=
    fun disk hat => .inl (hat.keeps (hbytes.trans (List.append_nil _).symm) hsize)
  have hopen : Triple False (At (some file) (some (headText (headOf file committed))) quarantined)
      (openLedgerForAppend env)
      (fun _ => At (some file) (some (headText (headOf file committed))) quarantined)
      (fun disk => Keeps committed disk ∨ Keeps (committed ++ [event.stored]) disk) := by
    refine .atomic ?_ (fun _ _ _ _ => id) hstay
    intro disk value disk' hat hf
    obtain ⟨-, rfl⟩ := Prod.mk.inj (Except.ok.inj hf)
    rw [hat.ledger]
    have hsame : At (some file) (some (headText (headOf file committed))) quarantined
        { disk with ledger := some file } := ⟨rfl, hat.head, hat.quarantined⟩
    exact ⟨hsame, hstay _ hsame⟩
  refine hopen.bind fun _ => (writeEvent_spec hbytes hsize).tryFinally (fun _ => ?_)
    (flush_spec fun _ hr => hr)
  exact flush_spec fun disk hholds => .inr ⟨[], hholds⟩

theorem lastSeq_chainEvent (events : List ReplayEvent) (input : AppendInput) (timestamp : String)
    (seq : Nat) (hash : String) :
    lastSeq (events ++ [(chainEvent sha256 input timestamp seq hash).stored]) = seq + 1 := by
  unfold lastSeq
  rw [List.getLast?_concat, Option.bind_some]
  show ((Decimal.ofNat (seq + 1)).toNat?).getD 0 = seq + 1
  rw [Decimal.toNat?_ofNat, Option.getD_some]

theorem lastHash_concat (events : List ReplayEvent) (event : ReplayEvent) :
    lastHash (events ++ [event.stored]) = event.eventHash := by
  unfold lastHash
  rw [List.getLast?_concat]
  rfl

/-- The event of a current head continues the committed events. -/
theorem Committed.append (h : Committed sha256 committed) {goalId : String}
    (hchain : (replayChain sha256 goalId).Chained 0 genesisHash committed) {input : AppendInput}
    (hgoal : input.goalId = goalId) (hwf : input.payload.WellFormed) (timestamp : String) :
    Committed sha256 (committed ++
      [(chainEvent sha256 input timestamp (lastSeq committed) (lastHash committed)).stored]) := by
  have hstored := chained_stored (chained_chainEvent hchain hgoal hwf timestamp)
  rw [List.map_append, h.stored] at hstored
  refine ⟨⟨goalId, hstored⟩, ?_⟩
  rw [List.map_append, h.stored, List.map_singleton]
  unfold ReplayEvent.stored
  simp only [Json.finite_finite]

/-- The files after an append that may have been interrupted. -/
def EitherSide (sha256 : Digest) (committed next : List ReplayEvent) (disk : LedgerDisk) : Prop :=
  Keeps committed disk ∨ (Committed sha256 next ∧ Keeps next disk)

/-- An append commits its event or leaves the events that were committed. -/
theorem appendStore_spec (hhex : ∀ bytes, isSha256 (sha256 bytes) = true)
    (h : Committed sha256 committed) {input : AppendInput} (hgoal : input.goalId = goalId)
    (hwf : input.payload.WellFormed) (timestamp : String) (expected : Head) :
    let event := chainEvent sha256 input timestamp expected.lastSeq expected.lastHash
    Triple False (Holds committed rest)
      (appendStore (inspectLedger sha256 goalId) env (eventLine event) (expected.lastSeq + 1)
        event.eventHash expected)
      (fun _ disk => Committed sha256 (committed ++ [event.stored]) ∧
        Holds (committed ++ [event.stored]) [] disk)
      (EitherSide sha256 committed (committed ++ [event.stored])) := by
  intro event fates disk hholds
  have hseq : expected.lastSeq + 1 = lastSeq (committed ++ [event.stored]) :=
    (lastSeq_chainEvent committed input timestamp expected.lastSeq expected.lastHash).symm
  have hhash : event.eventHash = lastHash (committed ++ [event.stored]) :=
    (lastHash_concat committed event).symm
  rw [hseq, hhash]
  have hkeeps : ∀ d, Keeps committed d →
      EitherSide sha256 committed (committed ++ [event.stored]) d := fun d hk => .inl hk
  have hread : Triple False (fun d => Holds committed rest d ∧ d.quarantined = disk.quarantined)
      (readVerified (inspectLedger sha256 goalId) env)
      (fun snapshot d => (replayChain sha256 goalId).Chained 0 genesisHash committed ∧
        Settled committed (afterCut disk.quarantined env.quarantineName rest) snapshot d)
      (EitherSide sha256 committed (committed ++ [event.stored])) :=
    (readVerified_spec hhex h fun hfalse => hfalse.elim).exit hkeeps
  have hbody : Triple False (fun d => Holds committed rest d ∧ d.quarantined = disk.quarantined)
      (do
        let snapshot ← readVerified (inspectLedger sha256 goalId) env
        Program.require (replayLedgerHeadsEqual snapshot.head expected)
          (.thrown "replay ledger concurrent append failed expected-head CAS")
        let appendHead ←
          if snapshot.head.fileIdentity.isNone then initializeGenesis env else pure snapshot.head
        openLedgerForAppend env
        tryFinally (writeEvent env (eventLine event) (lastSeq (committed ++ [event.stored]))
          (lastHash (committed ++ [event.stored])) appendHead) flush)
      (fun _ d => Committed sha256 (committed ++ [event.stored]) ∧
        Holds (committed ++ [event.stored]) [] d)
      (EitherSide sha256 committed (committed ++ [event.stored])) := by
    refine hread.bind fun snapshot => ?_
    refine Triple.bind (Triple.require (Q := fun _ d => ∃ _ : snapshot.head = expected ∧
      (replayChain sha256 goalId).Chained 0 genesisHash committed, Settled committed
        (afterCut disk.quarantined env.quarantineName rest) snapshot d) ?_ ?_)
      fun _ => .of_exists fun hfacts => ?_
    · rintro d ⟨hchain, hsettled⟩ hc
      exact ⟨⟨replayLedgerHeadsEqual_eq_true hc, hchain⟩, hsettled⟩
    · rintro d ⟨-, hsettled⟩ -
      exact ⟨id, hkeeps d ⟨[], hsettled.holds⟩⟩
    obtain ⟨hcas, hchain⟩ := hfacts
    rintro fates d hsettled
    have hcommitted : Committed sha256 (committed ++ [event.stored]) := by
      obtain ⟨hlastSeq, hlastHash⟩ := hsettled.last
      have hnext := h.append hchain hgoal hwf timestamp
      rw [← hlastSeq, ← hlastHash, hcas] at hnext
      exact hnext
    have htail : ∀ file : LedgerFile, file.bytes = ledgerBytes committed →
        (ledgerBytes committed).length ≤ maxSafeInteger →
        Triple False (At (some file) (some (headText (headOf file committed)))
            (afterCut disk.quarantined env.quarantineName rest))
          (openLedgerForAppend env >>= fun _ => tryFinally
            (writeEvent env (eventLine event) (lastSeq (committed ++ [event.stored]))
              (lastHash (committed ++ [event.stored])) (headOf file committed)) flush)
          (fun _ d => Committed sha256 (committed ++ [event.stored]) ∧
            Holds (committed ++ [event.stored]) [] d)
          (EitherSide sha256 committed (committed ++ [event.stored])) := by
      intro file hbytes hsize
      refine (appendTail_spec hbytes hsize).consequence (fun _ hp => hp)
        (fun _ _ hq => ⟨hcommitted, hq⟩) ?_
      rintro d (hk | hk)
      · exact .inl hk
      · exact .inr ⟨hcommitted, hk⟩
    rcases hsettled with ⟨hnil, rfl, hat⟩ | ⟨file, hbytes, hsize, rfl, hat⟩
    · subst hnil
      have hgenesis := htail ⟨env.dev, env.ino, []⟩ rfl (Nat.zero_le _)
      exact (Triple.bind_known ((initializeGenesis_spec env).exit hkeeps) hgenesis) fates d hat
    · exact htail file hbytes hsize fates d hat
  have hlocked : Triple False (fun d => Holds committed rest d ∧ d.quarantined = disk.quarantined)
      flush (fun _ d => Holds committed rest d ∧ d.quarantined = disk.quarantined)
      (EitherSide sha256 committed (committed ++ [event.stored])) :=
    flush_spec fun d hp => hkeeps d ⟨rest, hp.1⟩
  have hwhole := hlocked.bind fun _ => hbody.tryFinally
    (fun _ => flush_spec fun d hq => .inr ⟨hq.1, [], hq.2⟩) (flush_spec fun _ hr => hr)
  exact hwhole fates disk ⟨hholds, rfl⟩

end CodingAgent.Replay
