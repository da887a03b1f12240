import OmkVerified.CodingAgent.Compaction.BranchSummarization
import OmkVerified.Lib.Search

/-!
# Cut points

`findCutPoint` of `compaction.ts`: where a compaction cuts the entries of a branch, so that about
`keepRecentTokens` are kept. Indices are those of the entries; the range from `startIndex` up to
`endIndex` lies within them.
-/

namespace CodingAgent

open Lib

/-- `entry.message.role`. -/
def roleOf (entry : FileEntry) : Option Json := (entry.get? "message").bind fun m => m.get? "role"

/-- `entry.type === "branch_summary" || entry.type === "custom_message"`. -/
def isUserRoleEntry (entry : FileEntry) : Bool :=
  hasType entry "branch_summary" || hasType entry "custom_message"

/-- The roles at which a message can be cut; a tool result follows its call. -/
def isCutRole (role : Option Json) : Bool :=
  ["bashExecution", "custom", "branchSummary", "compactionSummary", "user", "assistant"].any fun name =>
    role = some (.str name)

/-- An entry that `findValidCutPoints` collects. -/
def isValidCutPoint (entry : FileEntry) : Bool :=
  (hasType entry "message" && isCutRole (roleOf entry)) || isUserRoleEntry entry

/-- A property of `entries[index]`. -/
def entryIs (entries : List FileEntry) (property : FileEntry → Bool) (index : Nat) : Bool :=
  (entries[index]?).any property

def findValidCutPoints (entries : List FileEntry) (startIndex endIndex : Nat) : List Nat :=
  (List.range' startIndex (endIndex - startIndex)).filter (entryIs entries isValidCutPoint)

/-- An entry that starts a turn. -/
def isTurnStart (entry : FileEntry) : Bool :=
  isUserRoleEntry entry ||
    (hasType entry "message" &&
      (roleOf entry = some (.str "user") || roleOf entry = some (.str "bashExecution")))

/-- `findTurnStartIndex(entries, entryIndex, startIndex)`; `none` is `-1`. -/
def findTurnStartIndex (entries : List FileEntry) (entryIndex startIndex : Nat) : Option Nat :=
  searchBack (entryIs entries isTurnStart) startIndex (entryIndex + 1 - startIndex)

/-- `CutPointResult`; a turn start of `none` is `-1`. -/
structure CutPointResult where
  firstKeptEntryIndex : Nat
  turnStartIndex : Option Nat
  isSplitTurn : Bool
deriving DecidableEq

/-- `accumulatedTokens >= keepRecentTokens`. -/
def reaches (accumulatedTokens : Nat) (keepRecentTokens : Lib.JsNumber) : Bool :=
  decide (keepRecentTokens ≤ ((accumulatedTokens : ℚ) : Lib.JsNumber))

/-- The estimate for the message of an entry. -/
def messageTokens (entry : FileEntry) : Nat := estimateTokens ((entry.get? "message").getD .null)

/-- The walk backwards over `count` entries from `startIndex` on: where the messages amount to
`keepRecentTokens`. -/
def accumulateBack (entries : List FileEntry) (startIndex : Nat) (keepRecentTokens : Lib.JsNumber) :
    (count accumulatedTokens : Nat) → Option Nat
  | 0, _ => none
  | count + 1, accumulatedTokens =>
    match entries[startIndex + count]? with
    | none => accumulateBack entries startIndex keepRecentTokens count accumulatedTokens
    | some entry =>
      if hasType entry "message" then
        let accumulatedTokens := accumulatedTokens + messageTokens entry
        if reaches accumulatedTokens keepRecentTokens then some (startIndex + count)
        else accumulateBack entries startIndex keepRecentTokens count accumulatedTokens
      else accumulateBack entries startIndex keepRecentTokens count accumulatedTokens

/-- The scan backwards over entries that are neither messages nor compactions. -/
def scanBack (entries : List FileEntry) (startIndex : Nat) : (cutIndex : Nat) → Nat
  | 0 => 0
  | cutIndex + 1 =>
    if startIndex < cutIndex + 1 ∧
        entryIs entries (fun e => hasType e "compaction" || hasType e "message") cutIndex = false then
      scanBack entries startIndex cutIndex
    else cutIndex + 1

/-- `findCutPoint(entries, startIndex, endIndex, keepRecentTokens)`. -/
def findCutPoint (entries : List FileEntry) (startIndex endIndex : Nat) (keepRecentTokens : Lib.JsNumber) :
    CutPointResult :=
  match findValidCutPoints entries startIndex endIndex with
  | [] => ⟨startIndex, none, false⟩
  | first :: cutPoints =>
    let reached := accumulateBack entries startIndex keepRecentTokens (endIndex - startIndex) 0
    -- the first cut point when the budget is not reached, or no cut point follows
    let cutIndex := (reached.bind fun i => (first :: cutPoints).find? fun c => i ≤ c).getD first
    let cutIndex := scanBack entries startIndex cutIndex
    let isUserMessage := entryIs entries
      (fun e => hasType e "message" && roleOf e = some (.str "user")) cutIndex
    let turnStartIndex :=
      if isUserMessage then none else findTurnStartIndex entries cutIndex startIndex
    ⟨cutIndex, turnStartIndex, !isUserMessage && turnStartIndex.isSome⟩

end CodingAgent

/-!
# Where a compaction cuts

The walk back stops at a message; the cut is made at the first cut point from there on. When only tool
results follow, there is none, and the cut falls back to the first cut point of the range. The scan
back over entries without a message then decides at which entry a split turn is looked for.
-/

namespace CodingAgent

open Lib

section Range

variable (entries : List FileEntry) (startIndex endIndex : Nat) (keepRecentTokens : Lib.JsNumber)

/-! ## The range -/

/-- A valid cut point of the range. -/
def IsCut (index : Nat) : Prop :=
  startIndex ≤ index ∧ index < endIndex ∧ entryIs entries isValidCutPoint index = true

/-- An entry of type `message`. -/
def IsMessage (index : Nat) : Prop := entryIs entries (fun e => hasType e "message") index = true

/-- The estimate for an entry; only messages count. -/
def tokensAt (index : Nat) : Nat :=
  ((entries[index]?).filter fun e => hasType e "message").elim 0 messageTokens

/-- The estimate for the entries that are kept from `index` on. -/
def tokensFrom (index : Nat) : Nat := sumFrom (tokensAt entries) endIndex index

/-- The last message from which on the messages amount to `keepRecentTokens`. -/
structure ReachesAt (index : Nat) : Prop where
  start : startIndex ≤ index
  stop : index < endIndex
  message : IsMessage entries index
  tokens : reaches (tokensFrom entries endIndex index) keepRecentTokens = true
  last : ∀ j, index < j → j < endIndex → IsMessage entries j →
    reaches (tokensFrom entries endIndex j) keepRecentTokens = false

/-- The cut point that is chosen: the first one at or after the message where the budget is reached,
and the first one of the range if there is no such message or none follows it. -/
structure CutsAt (index : Nat) : Prop where
  cut : IsCut entries startIndex endIndex index
  closest :
    (∃ i, ReachesAt entries startIndex endIndex keepRecentTokens i ∧ i ≤ index ∧
      ∀ c, IsCut entries startIndex endIndex c → i ≤ c → index ≤ c) ∨
    ((∀ i, ReachesAt entries startIndex endIndex keepRecentTokens i →
      ∀ c, IsCut entries startIndex endIndex c → c < i) ∧
      ∀ c, IsCut entries startIndex endIndex c → index ≤ c)

/-- An entry at which the scan back stops. -/
def StopsScan (index : Nat) : Prop :=
  entryIs entries (fun e => hasType e "compaction" || hasType e "message") index = true

/-- The entries from `kept` up to the cut point are neither messages nor compactions, and there are
no more of them in front. -/
structure ScansTo (cut kept : Nat) : Prop where
  start : startIndex ≤ kept
  le : kept ≤ cut
  skipped : ∀ j, kept ≤ j → j < cut → ¬ StopsScan entries j
  stop : startIndex < kept → StopsScan entries (kept - 1)

end Range

variable {j c i cut first : Nat}

section Cut

variable {entries : List FileEntry} {startIndex endIndex : Nat} {keepRecentTokens : Lib.JsNumber}

/-! ## The walk back -/

theorem reaches_mono {a b : Nat} (h : reaches a keepRecentTokens = true) (hab : a ≤ b) :
    reaches b keepRecentTokens = true := by
  unfold reaches at h ⊢
  rw [decide_eq_true_eq] at h ⊢
  have hle : ((a : Nat) : ℚ) ≤ (b : ℚ) := by exact_mod_cast hab
  cases keepRecentTokens with
  | nan => simp [LE.le, LT.lt, Lib.JsNumber.lt, Lib.JsNumber.same] at h
  | negInfinity => exact .inl rfl
  | infinity => simp [LE.le, LT.lt, Lib.JsNumber.lt, Lib.JsNumber.same] at h
  | finite q =>
    have hq : q ≤ a := by
      rcases h with h | h
      · exact le_of_lt (Lib.JsNumber.finite_lt.mp h)
      · simp only [Lib.JsNumber.same, Bool.and_eq_true, decide_eq_true_eq] at h
        exact le_of_eq (Lib.JsNumber.finite.inj h.1)
    rcases lt_or_eq_of_le (hq.trans hle) with hlt | heq
    · exact .inl (Lib.JsNumber.finite_lt.mpr hlt)
    · exact .inr (by simp [Lib.JsNumber.same, heq])

theorem entryIs_of_some {property : FileEntry → Bool} {index : Nat} {entry : FileEntry}
    (h : entries[index]? = some entry) : entryIs entries property index = property entry := by
  simp [entryIs, h]

theorem tokensAt_of_some {index : Nat} {entry : FileEntry} (h : entries[index]? = some entry) :
    tokensAt entries index = if hasType entry "message" then messageTokens entry else 0 := by
  unfold tokensAt
  rw [h]
  cases htype : hasType entry "message" with
  | false => simp [Option.filter, htype]
  | true => simp [Option.filter, htype]

theorem tokensAt_of_not_message {index : Nat} (h : ¬ IsMessage entries index) :
    tokensAt entries index = 0 := by
  cases hentry : entries[index]? with
  | none => simp [tokensAt, hentry]
  | some entry =>
    unfold IsMessage at h
    rw [entryIs_of_some hentry] at h
    rw [tokensAt_of_some hentry, if_neg h]

/-- The walk back finds the last message from which on the messages amount to the budget. -/
theorem accumulateBack_eq {count : Nat} (hcount : startIndex + count ≤ endIndex) :
    accumulateBack entries startIndex keepRecentTokens count
        (tokensFrom entries endIndex (startIndex + count)) =
      searchBack (fun i => entryIs entries (fun e => hasType e "message") i &&
        reaches (tokensFrom entries endIndex i) keepRecentTokens) startIndex count := by
  induction count with
  | zero => rfl
  | succ count ih =>
    have hstep : tokensFrom entries endIndex (startIndex + count) =
        tokensAt entries (startIndex + count) +
          tokensFrom entries endIndex (startIndex + (count + 1)) := by
      unfold tokensFrom
      rw [sumFrom_eq_add (by omega), Nat.add_assoc]
    have hrest := ih (by omega)
    unfold accumulateBack searchBack
    cases hentry : entries[startIndex + count]? with
    | none =>
      have hnot : entryIs entries (fun e => hasType e "message") (startIndex + count) = false := by
        simp [entryIs, hentry]
      rw [tokensAt_of_not_message (by simp [IsMessage, hnot]), Nat.zero_add] at hstep
      simp only [hnot, Bool.false_and, Bool.false_eq_true, if_false]
      rw [← hstep]
      exact hrest
    | some entry =>
      have hmessage : entryIs entries (fun e => hasType e "message") (startIndex + count) =
          hasType entry "message" := entryIs_of_some hentry
      rw [tokensAt_of_some hentry] at hstep
      cases htype : hasType entry "message" with
      | false =>
        rw [htype] at hmessage
        rw [if_neg (by simp [htype]), Nat.zero_add] at hstep
        simp only [hmessage, htype, Bool.false_and, Bool.false_eq_true, if_false]
        rw [← hstep]
        exact hrest
      | true =>
        rw [htype] at hmessage
        rw [if_pos htype, Nat.add_comm (messageTokens entry)] at hstep
        simp only [hmessage, htype, Bool.true_and, if_true]
        rw [← hstep]
        split_ifs
        · rfl
        · exact hrest

theorem reachesAt_iff :
    ReachesAt entries startIndex endIndex keepRecentTokens i ↔
      accumulateBack entries startIndex keepRecentTokens (endIndex - startIndex) 0 = some i := by
  by_cases hrange : startIndex ≤ endIndex
  · have hzero : tokensFrom entries endIndex (startIndex + (endIndex - startIndex)) = 0 :=
      sumFrom_of_le (by omega)
    rw [← hzero, accumulateBack_eq (by omega), searchBack_eq_some_iff]
    simp only [Bool.and_eq_true, Bool.and_eq_false_imp]
    constructor
    · intro h
      exact ⟨h.start, by have := h.stop; omega, ⟨h.message, h.tokens⟩,
        fun j hj hj' hm => h.last j hj (by omega) hm⟩
    · rintro ⟨hstart, hstop, ⟨hmessage, htokens⟩, hlast⟩
      exact ⟨hstart, by omega, hmessage, htokens, fun j hj hj' hm => hlast j hj (by omega) hm⟩
  · rw [Nat.sub_eq_zero_of_le (by omega)]
    refine iff_of_false ?_ (by simp [accumulateBack])
    intro h
    have hstart := h.start
    have hstop := h.stop
    omega

theorem ReachesAt.unique (hi : ReachesAt entries startIndex endIndex keepRecentTokens i)
    (hj : ReachesAt entries startIndex endIndex keepRecentTokens j) : i = j :=
  Option.some.inj ((reachesAt_iff.mp hi).symm.trans (reachesAt_iff.mp hj))

/-- A message from which on the budget is reached has the last such message at or after it. -/
theorem exists_reachesAt {m : Nat} (hstart : startIndex ≤ m) (hstop : m < endIndex)
    (hmessage : IsMessage entries m)
    (htokens : reaches (tokensFrom entries endIndex m) keepRecentTokens = true) :
    ∃ i, m ≤ i ∧ ReachesAt entries startIndex endIndex keepRecentTokens i := by
  cases hreached : accumulateBack entries startIndex keepRecentTokens (endIndex - startIndex) 0 with
  | some i =>
    have hi := reachesAt_iff.mpr hreached
    refine ⟨i, ?_, hi⟩
    by_contra hlt
    rw [hi.last m (by omega) hstop hmessage] at htokens
    exact Bool.noConfusion htokens
  | none =>
    have hzero : tokensFrom entries endIndex (startIndex + (endIndex - startIndex)) = 0 :=
      sumFrom_of_le (by omega)
    rw [← hzero, accumulateBack_eq (by omega), searchBack_eq_none_iff] at hreached
    have hnone := hreached m hstart (by omega)
    rw [show entryIs entries (fun e => hasType e "message") m = true from hmessage, htokens] at hnone
    exact Bool.noConfusion hnone

/-! ## The cut -/

theorem mem_findValidCutPoints :
    c ∈ findValidCutPoints entries startIndex endIndex ↔ IsCut entries startIndex endIndex c := by
  unfold findValidCutPoints IsCut
  rw [List.mem_filter, List.mem_range'_1]
  constructor
  · rintro ⟨⟨hstart, hstop⟩, hvalid⟩
    exact ⟨hstart, by omega, hvalid⟩
  · rintro ⟨hstart, hstop, hvalid⟩
    exact ⟨⟨hstart, by omega⟩, hvalid⟩

theorem pairwise_findValidCutPoints (entries : List FileEntry) (startIndex endIndex : Nat) :
    (findValidCutPoints entries startIndex endIndex).Pairwise (· < ·) :=
  List.Pairwise.filter _ List.pairwise_lt_range'

/-- The chosen cut point. -/
theorem cutsAt_of_find {first : Nat} {cutPoints : List Nat}
    (h : findValidCutPoints entries startIndex endIndex = first :: cutPoints) :
    CutsAt entries startIndex endIndex keepRecentTokens
      (((accumulateBack entries startIndex keepRecentTokens (endIndex - startIndex) 0).bind fun i =>
        (first :: cutPoints).find? fun c => i ≤ c).getD first) := by
  have hsorted := pairwise_findValidCutPoints entries startIndex endIndex
  have hmem : ∀ c, c ∈ first :: cutPoints ↔ IsCut entries startIndex endIndex c := by
    intro c
    rw [← h]
    exact mem_findValidCutPoints
  rw [h] at hsorted
  have hfirst : ∀ c, IsCut entries startIndex endIndex c → first ≤ c := by
    intro c hc
    rcases List.mem_cons.mp ((hmem c).mpr hc) with rfl | hc
    · exact le_refl _
    · exact le_of_lt ((List.pairwise_cons.mp hsorted).1 c hc)
  have hcut : IsCut entries startIndex endIndex first := (hmem first).mp (by simp)
  cases hreached : accumulateBack entries startIndex keepRecentTokens (endIndex - startIndex) 0 with
  | none =>
    refine ⟨hcut, .inr ⟨?_, hfirst⟩⟩
    intro i hi
    rw [reachesAt_iff.mp hi] at hreached
    exact absurd hreached (by simp)
  | some i =>
    have hi := reachesAt_iff.mpr hreached
    rw [Option.bind_some]
    cases hfind : (first :: cutPoints).find? fun c => i ≤ c with
    | none =>
      refine ⟨hcut, .inr ⟨?_, hfirst⟩⟩
      intro j hj c hc
      rw [hj.unique hi]
      have hno := List.find?_eq_none.mp hfind c ((hmem c).mpr hc)
      simpa using hno
    | some c =>
      obtain ⟨hc, hle, hclosest⟩ := find?_first hsorted hfind
      refine ⟨(hmem c).mp hc, .inl ⟨i, hi, by simpa using hle, ?_⟩⟩
      intro c' hc' hle'
      rcases hclosest c' ((hmem c').mpr hc') (by simpa using hle') with rfl | hlt
      · exact le_refl _
      · exact le_of_lt hlt

theorem CutsAt.unique {c' : Nat} (h : CutsAt entries startIndex endIndex keepRecentTokens c)
    (h' : CutsAt entries startIndex endIndex keepRecentTokens c') : c = c' := by
  rcases h.closest with ⟨i, hi, hle, hmin⟩ | ⟨hnone, hmin⟩ <;>
    rcases h'.closest with ⟨j, hj, hle', hmin'⟩ | ⟨hnone', hmin'⟩
  · obtain rfl := hi.unique hj
    exact le_antisymm (hmin c' h'.cut hle') (hmin' c h.cut hle)
  · exact absurd (hnone' i hi c h.cut) (by omega)
  · exact absurd (hnone j hj c' h'.cut) (by omega)
  · exact le_antisymm (hmin c' h'.cut) (hmin' c h.cut)

/-! ## The scan back -/

theorem scansTo_scanBack (h : startIndex ≤ cut) :
    ScansTo entries startIndex cut (scanBack entries startIndex cut) := by
  induction cut with
  | zero => exact ⟨h, le_refl _, fun j hj hj' => by omega, fun hlt => by simp [scanBack] at hlt⟩
  | succ cut ih =>
    unfold scanBack
    split_ifs with hscan
    · obtain ⟨hlt, hnot⟩ := hscan
      obtain ⟨hstart, hle, hskipped, hstop⟩ := ih (by omega)
      refine ⟨hstart, by omega, ?_, hstop⟩
      intro j hj hj'
      by_cases heq : j = cut
      · rw [heq, StopsScan, hnot]
        simp
      · exact hskipped j hj (by omega)
    · refine ⟨h, le_refl _, fun j hj hj' => by omega, ?_⟩
      intro hlt
      unfold StopsScan
      by_contra hnot
      exact hscan ⟨hlt, by simpa using hnot⟩

theorem ScansTo.unique {kept kept' : Nat} (h : ScansTo entries startIndex cut kept)
    (h' : ScansTo entries startIndex cut kept') : kept = kept' := by
  by_contra hne
  rcases Nat.lt_or_gt_of_ne hne with hlt | hlt
  · have hstart := h.start
    have hle := h'.le
    exact h.skipped (kept' - 1) (by omega) (by omega) (h'.stop (by omega))
  · have hstart := h'.start
    have hle := h.le
    exact h'.skipped (kept - 1) (by omega) (by omega) (h.stop (by omega))

theorem ScansTo.not_message {kept : Nat} (h : ScansTo entries startIndex cut kept) (hle : kept ≤ j)
    (hlt : j < cut) : ¬ IsMessage entries j := by
  intro hmessage
  refine h.skipped j hle hlt ?_
  unfold IsMessage entryIs at hmessage
  unfold StopsScan entryIs
  rw [Option.any_eq_true] at hmessage ⊢
  obtain ⟨entry, hentry, htype⟩ := hmessage
  exact ⟨entry, hentry, by simp [htype]⟩

/-- What `findCutPoint` returns: without a cut point the start of the range, and else the start of the
entries that are scanned back over from the chosen one. -/
theorem findCutPoint_cases (entries : List FileEntry) (startIndex endIndex : Nat)
    (keepRecentTokens : Lib.JsNumber) :
    ((∀ c, ¬ IsCut entries startIndex endIndex c) ∧
        findCutPoint entries startIndex endIndex keepRecentTokens = ⟨startIndex, none, false⟩) ∨
      ∃ cut kept, CutsAt entries startIndex endIndex keepRecentTokens cut ∧
        ScansTo entries startIndex cut kept ∧
        let isUserMessage := entryIs entries
          (fun e => hasType e "message" && roleOf e = some (.str "user")) kept
        let turnStartIndex :=
          if isUserMessage then none else findTurnStartIndex entries kept startIndex
        findCutPoint entries startIndex endIndex keepRecentTokens =
          ⟨kept, turnStartIndex, !isUserMessage && turnStartIndex.isSome⟩ := by
  unfold findCutPoint
  cases hfind : findValidCutPoints entries startIndex endIndex with
  | nil =>
    refine .inl ⟨?_, rfl⟩
    intro c hc
    rw [← mem_findValidCutPoints, hfind] at hc
    exact absurd hc (by simp)
  | cons first cutPoints =>
    have hcuts := @cutsAt_of_find _ _ _ keepRecentTokens _ _ hfind
    exact .inr ⟨_, _, hcuts, scansTo_scanBack hcuts.cut.1, rfl⟩

/-! ## Progress -/

/-- No later cut point with a message in front keeps `keepRecentTokens`. -/
def MaximalProgress (entries : List FileEntry) (startIndex endIndex : Nat)
    (keepRecentTokens : Lib.JsNumber) (kept : Nat) : Prop :=
  ∀ c, IsCut entries startIndex endIndex c → kept < c →
    (∃ j, kept ≤ j ∧ j < c ∧ IsMessage entries j) →
    reaches (tokensFrom entries endIndex c) keepRecentTokens = false

/-- The messages behind the last cut point, which are tool results, amount to `keepRecentTokens`, and
there is a message between the first cut point and the last. -/
def TrailingResultsReach (entries : List FileEntry) (startIndex endIndex : Nat)
    (keepRecentTokens : Lib.JsNumber) : Prop :=
  ∃ last, IsCut entries startIndex endIndex last ∧
    (∀ c, IsCut entries startIndex endIndex c → c ≤ last) ∧
    (∃ j, last < j ∧ j < endIndex ∧ IsMessage entries j) ∧
    reaches (tokensFrom entries endIndex (last + 1)) keepRecentTokens = true ∧
    ∃ first j, IsCut entries startIndex endIndex first ∧ first ≤ j ∧ j < last ∧ IsMessage entries j

/-- Nothing is to be kept, the last message can be cut at, and a cut point that is no message follows. -/
def KeepsNothing (entries : List FileEntry) (startIndex endIndex : Nat)
    (keepRecentTokens : Lib.JsNumber) : Prop :=
  reaches 0 keepRecentTokens = true ∧
    ∃ j c, IsMessage entries j ∧ IsCut entries startIndex endIndex j ∧
      IsCut entries startIndex endIndex c ∧ j < c ∧
      ∀ k, j < k → k < endIndex → ¬ IsMessage entries k

/-- The first message from an index on, with the same estimate from there on. -/
theorem exists_first_message {c m : Nat} (hle : c ≤ m) (hmessage : IsMessage entries m) :
    ∃ first, c ≤ first ∧ first ≤ m ∧ IsMessage entries first ∧
      tokensFrom entries endIndex c = tokensFrom entries endIndex first := by
  classical
  have hexists : ∃ k, c ≤ k ∧ IsMessage entries k := ⟨m, hle, hmessage⟩
  obtain ⟨hfirst, hmsg⟩ := Nat.find_spec hexists
  refine ⟨Nat.find hexists, hfirst, Nat.find_min' hexists ⟨hle, hmessage⟩, hmsg, ?_⟩
  refine sumFrom_skip hfirst fun k hk hlt => tokensAt_of_not_message fun h => ?_
  exact Nat.find_min hexists hlt ⟨hk, h⟩

/-- When a message follows an index from which on the budget is reached, the walk back stops behind
that index. -/
theorem exists_reachesAt_of_message {c m : Nat} (hstart : startIndex ≤ c) (hle : c ≤ m)
    (hstop : m < endIndex) (hmessage : IsMessage entries m)
    (htokens : reaches (tokensFrom entries endIndex c) keepRecentTokens = true) :
    ∃ i, c ≤ i ∧ ReachesAt entries startIndex endIndex keepRecentTokens i := by
  obtain ⟨first, hfirst, hfirst', hmsg, heq⟩ := @exists_first_message entries endIndex c m hle hmessage
  rw [heq] at htokens
  obtain ⟨i, hi, hreaches⟩ := @exists_reachesAt entries startIndex endIndex keepRecentTokens first
    (by omega) (by omega) hmsg htokens
  exact ⟨i, by omega, hreaches⟩

theorem tokensFrom_of_no_message (h : ∀ m, c ≤ m → m < endIndex → ¬ IsMessage entries m) :
    tokensFrom entries endIndex c = 0 := by
  rcases Nat.lt_or_ge c endIndex with hlt | hge
  · unfold tokensFrom
    rw [sumFrom_skip hlt.le fun k hk hk' => tokensAt_of_not_message (h k hk hk')]
    exact sumFrom_of_le (le_refl _)
  · exact sumFrom_of_le hge

/-- A cut that does not make maximal progress comes from trailing tool results or from a budget of
nothing. -/
theorem not_maximal_cases {kept : Nat}
    (hcuts : CutsAt entries startIndex endIndex keepRecentTokens cut)
    (hscans : ScansTo entries startIndex cut kept)
    (h : ¬ MaximalProgress entries startIndex endIndex keepRecentTokens kept) :
    TrailingResultsReach entries startIndex endIndex keepRecentTokens ∨
      KeepsNothing entries startIndex endIndex keepRecentTokens := by
  unfold MaximalProgress at h
  push Not at h
  obtain ⟨c, hc, -, ⟨j, hkept, hjc, hmessage⟩, htokens⟩ := h
  rw [ne_eq, Bool.not_eq_false] at htokens
  have hcut : cut ≤ j := by
    by_contra hlt
    exact hscans.not_message hkept (by omega) hmessage
  by_cases hbehind : ∃ m, c ≤ m ∧ m < endIndex ∧ IsMessage entries m
  · -- a message behind `c` reaches the budget, so no cut point follows the one where the walk stops
    obtain ⟨m, hcm, hm, hmsg⟩ := hbehind
    obtain ⟨i, hci, hi⟩ := exists_reachesAt_of_message hc.1 hcm hm hmsg htokens
    rcases hcuts.closest with ⟨i', hi', hle, -⟩ | ⟨hnone, -⟩
    · rw [hi'.unique hi] at hle
      omega
    · obtain ⟨last, hlast, hmax⟩ : ∃ last, IsCut entries startIndex endIndex last ∧
          ∀ c, IsCut entries startIndex endIndex c → c ≤ last := by
        have hne : (findValidCutPoints entries startIndex endIndex) ≠ [] :=
          List.ne_nil_of_mem (mem_findValidCutPoints.mpr hc)
        refine ⟨(findValidCutPoints entries startIndex endIndex).getLast hne,
          mem_findValidCutPoints.mp (List.getLast_mem hne), ?_⟩
        intro c hc
        rcases (pairwise_findValidCutPoints entries startIndex endIndex).imp le_of_lt |>.rel_getLast
          (mem_findValidCutPoints.mpr hc) with h
        exact h
      have hli := hnone i hi last hlast
      refine .inl ⟨last, hlast, hmax, ⟨i, hli, hi.stop, hi.message⟩, ?_, cut, j, hcuts.cut, hcut, ?_,
        hmessage⟩
      · exact reaches_mono hi.tokens (sumFrom_anti (by omega))
      · have hcl := hmax c hc
        omega
  · -- no message is kept at `c`, so the budget is nothing and the walk stops at the last message
    push Not at hbehind
    rw [tokensFrom_of_no_message hbehind] at htokens
    obtain ⟨i, hji, hi⟩ := @exists_reachesAt entries startIndex endIndex keepRecentTokens j
      (hcuts.cut.1.trans hcut) (hjc.trans hc.2.1) hmessage (reaches_mono htokens (Nat.zero_le _))
    have hic : i < c := by
      by_contra hge
      exact hbehind i (by omega) hi.stop hi.message
    rcases hcuts.closest with ⟨i', hi', hle, -⟩ | ⟨hnone, -⟩
    · rw [hi'.unique hi] at hle
      obtain rfl : i = cut := by omega
      refine .inr ⟨htokens, i, c, hi.message, hcuts.cut, hc, hic, ?_⟩
      intro k hk hk' hmsg
      have hno := hi.last k hk hk' hmsg
      rw [reaches_mono htokens (Nat.zero_le _)] at hno
      exact Bool.noConfusion hno
    · exact absurd (hnone i hi c hc) (by omega)

theorem TrailingResultsReach.not_maximal {kept : Nat}
    (h : TrailingResultsReach entries startIndex endIndex keepRecentTokens)
    (hcuts : CutsAt entries startIndex endIndex keepRecentTokens cut)
    (hscans : ScansTo entries startIndex cut kept) :
    ¬ MaximalProgress entries startIndex endIndex keepRecentTokens kept := by
  obtain ⟨last, hlast, hmax, ⟨m, hlm, hm, hmsg⟩, htokens, first, j, hfirst, hfj, hjl, hmessage⟩ := h
  have hstart := hlast.1
  obtain ⟨i, hli, hi⟩ := @exists_reachesAt_of_message entries startIndex endIndex keepRecentTokens (last + 1)
    m (by omega) (Nat.succ_le_of_lt hlm) hm hmsg htokens
  rcases hcuts.closest with ⟨i', hi', hle, -⟩ | ⟨-, hmin⟩
  · rw [hi'.unique hi] at hle
    have hcut := hmax cut hcuts.cut
    omega
  · intro hmaximal
    have hcut := hmin first hfirst
    have hkept := hscans.le
    have hno := hmaximal last hlast (by omega) ⟨j, by omega, hjl, hmessage⟩
    have htokens' : reaches (tokensFrom entries endIndex last) keepRecentTokens = true :=
      reaches_mono htokens (sumFrom_anti (Nat.le_succ last))
    rw [htokens'] at hno
    exact Bool.noConfusion hno

theorem KeepsNothing.not_maximal {kept : Nat}
    (h : KeepsNothing entries startIndex endIndex keepRecentTokens)
    (hcuts : CutsAt entries startIndex endIndex keepRecentTokens cut)
    (hscans : ScansTo entries startIndex cut kept) :
    ¬ MaximalProgress entries startIndex endIndex keepRecentTokens kept := by
  obtain ⟨hzero, j, c, hmessage, hj, hc, hjc, hnone⟩ := h
  have hreaches : ∀ n, reaches n keepRecentTokens = true := fun n =>
    reaches_mono hzero (Nat.zero_le n)
  have hi : ReachesAt entries startIndex endIndex keepRecentTokens j :=
    ⟨hj.1, hj.2.1, hmessage, hreaches _, fun k hk hk' hmsg => absurd hmsg (hnone k hk hk')⟩
  have hcut : cut ≤ j := by
    rcases hcuts.closest with ⟨i, hi', -, hmin⟩ | ⟨hafter, -⟩
    · exact hmin j hj (hi'.unique hi).le
    · exact absurd (hafter j hi j hj) (lt_irrefl j)
  intro hmaximal
  have hkept := hscans.le
  have hno := hmaximal c hc (by omega) ⟨j, by omega, hjc, hmessage⟩
  rw [hreaches] at hno
  exact Bool.noConfusion hno

end Cut

/-- The cut makes maximal progress exactly when the tool results behind the last cut point do not
already amount to the budget, with a message that could be given up, and when something is to be kept
or the last message is not followed by a cut point. -/
theorem findCutPoint_maximal_iff (entries : List FileEntry) (startIndex endIndex : Nat)
    (keepRecentTokens : Lib.JsNumber) :
    MaximalProgress entries startIndex endIndex keepRecentTokens
        (findCutPoint entries startIndex endIndex keepRecentTokens).firstKeptEntryIndex ↔
      ¬ TrailingResultsReach entries startIndex endIndex keepRecentTokens ∧
        ¬ KeepsNothing entries startIndex endIndex keepRecentTokens := by
  rcases findCutPoint_cases entries startIndex endIndex keepRecentTokens with
    ⟨hnone, -⟩ | ⟨cut, kept, hcuts, hscans, hresult⟩
  · refine iff_of_true (fun c hc => absurd hc (hnone c)) ⟨?_, ?_⟩
    · rintro ⟨last, hlast, -⟩
      exact hnone last hlast
    · rintro ⟨-, j, c, -, hj, -⟩
      exact hnone j hj
  · rw [hresult]
    constructor
    · intro hmaximal
      exact ⟨fun h => h.not_maximal hcuts hscans hmaximal, fun h => h.not_maximal hcuts hscans hmaximal⟩
    · rintro ⟨htrailing, hnothing⟩
      by_contra h
      exact (not_maximal_cases hcuts hscans h).elim htrailing hnothing

/-- A message entry of a branch. -/
def messageEntry (role text : String) : FileEntry :=
  .obj [("type", .str "message"), ("id", .str text),
    ("message", .obj [("role", .str role),
      ("content", .arr [.obj [("type", .str "text"), ("text", .str text)]])])]

/-- A request, an answer and a tool result. -/
def trailingResult : List FileEntry :=
  [messageEntry "user" "a", messageEntry "assistant" "b", messageEntry "toolResult" "c"]

/-- The tool result alone amounts to the budget: the whole branch is kept, though a cut at the answer
would keep enough. -/
theorem findCutPoint_keeps_all :
    ¬ MaximalProgress trailingResult 0 3 1
      (findCutPoint trailingResult 0 3 1).firstKeptEntryIndex := by
  intro h
  have hno := h 1 ⟨by decide, by decide, by decide⟩ (by decide +kernel)
    ⟨0, by decide +kernel, by decide,
      show entryIs trailingResult (fun e => hasType e "message") 0 = true by decide⟩
  exact absurd hno (by decide +kernel)

/-! ## Split turns -/

/-- An entry that puts a message into the context that follows a compaction. -/
def producesMessage (entry : FileEntry) : Bool :=
  hasType entry "message" || isUserRoleEntry entry

/-- The first entry that puts a message, from `kept` on. -/
def FirstProduced (entries : List FileEntry) (endIndex kept index : Nat) : Prop :=
  kept ≤ index ∧ index < endIndex ∧ entryIs entries producesMessage index = true ∧
    ∀ j, kept ≤ j → j < index → entryIs entries producesMessage j = false

/-- An entry of the range that starts a turn. -/
def StartsTurn (entries : List FileEntry) (startIndex index : Nat) : Prop :=
  startIndex ≤ index ∧ entryIs entries isTurnStart index = true

/-- A turn is reported as split exactly when the first message that is kept does not start a turn and
one starts before it, and then the nearest such start is given. -/
structure SplitsTurn (entries : List FileEntry) (startIndex endIndex : Nat) (result : CutPointResult) :
    Prop where
  split_iff : result.isSplitTurn = true ↔
    ∃ first, FirstProduced entries endIndex result.firstKeptEntryIndex first ∧
      entryIs entries isTurnStart first = false ∧
      ∃ start, StartsTurn entries startIndex start ∧ start < first
  nearest : result.isSplitTurn = true →
    ∃ first start, FirstProduced entries endIndex result.firstKeptEntryIndex first ∧
      result.turnStartIndex = some start ∧ StartsTurn entries startIndex start ∧ start < first ∧
      ∀ j, start < j → j < first → entryIs entries isTurnStart j = false

/-- The first message that is kept starts a turn and is not a user message at the cut itself, and a
turn starts at or before the cut. -/
def SplitsAtTurnStart (entries : List FileEntry) (startIndex endIndex : Nat)
    (keepRecentTokens : Lib.JsNumber) : Prop :=
  ∃ cut kept first, CutsAt entries startIndex endIndex keepRecentTokens cut ∧
    ScansTo entries startIndex cut kept ∧ FirstProduced entries endIndex kept first ∧
    entryIs entries isTurnStart first = true ∧
    (first = kept →
      entryIs entries (fun e => hasType e "message" && roleOf e = some (.str "user")) kept = false) ∧
    ∃ start, StartsTurn entries startIndex start ∧ start ≤ kept

theorem entryIs_mono {entries : List FileEntry} {p q : FileEntry → Bool}
    (h : ∀ entry, p entry = true → q entry = true) {index : Nat}
    (hp : entryIs entries p index = true) : entryIs entries q index = true := by
  unfold entryIs at hp ⊢
  rw [Option.any_eq_true] at hp ⊢
  obtain ⟨entry, hentry, hpe⟩ := hp
  exact ⟨entry, hentry, h entry hpe⟩

theorem producesMessage_of_isTurnStart (entry : FileEntry) (h : isTurnStart entry = true) :
    producesMessage entry = true := by
  unfold isTurnStart at h
  unfold producesMessage
  rw [Bool.or_eq_true, Bool.and_eq_true] at h
  rw [Bool.or_eq_true]
  exact h.elim .inr fun h => .inl h.1

theorem isValidCutPoint_of_isTurnStart (entry : FileEntry) (h : isTurnStart entry = true) :
    isValidCutPoint entry = true := by
  unfold isTurnStart at h
  unfold isValidCutPoint
  rw [Bool.or_eq_true, Bool.and_eq_true] at h ⊢
  rcases h with h | ⟨htype, hrole⟩
  · exact .inr h
  · refine .inl ⟨htype, ?_⟩
    rw [Bool.or_eq_true, decide_eq_true_eq, decide_eq_true_eq] at hrole
    unfold isCutRole
    rcases hrole with hrole | hrole
    · simp [hrole]
    · simp [hrole]

theorem producesMessage_of_isValidCutPoint (entry : FileEntry) (h : isValidCutPoint entry = true) :
    producesMessage entry = true := by
  unfold isValidCutPoint at h
  unfold producesMessage
  rw [Bool.or_eq_true, Bool.and_eq_true] at h
  rw [Bool.or_eq_true]
  exact h.elim (fun h => .inl h.1) .inr

section Split

variable {entries : List FileEntry} {startIndex endIndex : Nat} {keepRecentTokens : Lib.JsNumber}

theorem FirstProduced.unique {kept first' : Nat} (h : FirstProduced entries endIndex kept first)
    (h' : FirstProduced entries endIndex kept first') : first = first' := by
  obtain ⟨hle, -, hproduces, hbefore⟩ := h
  obtain ⟨hle', -, hproduces', hbefore'⟩ := h'
  by_contra hne
  rcases Nat.lt_or_gt_of_ne hne with hlt | hlt
  · rw [hbefore' first hle hlt] at hproduces
    exact Bool.noConfusion hproduces
  · rw [hbefore first' hle' hlt] at hproduces'
    exact Bool.noConfusion hproduces'

/-- The chosen cut point puts a message, so there is a first one. -/
theorem exists_firstProduced {kept : Nat}
    (hcuts : CutsAt entries startIndex endIndex keepRecentTokens cut)
    (hscans : ScansTo entries startIndex cut kept) :
    ∃ first, FirstProduced entries endIndex kept first := by
  classical
  have hexists : ∃ k, kept ≤ k ∧ entryIs entries producesMessage k = true :=
    ⟨cut, hscans.le, entryIs_mono producesMessage_of_isValidCutPoint hcuts.cut.2.2⟩
  obtain ⟨hle, hproduces⟩ := Nat.find_spec hexists
  have hmin := Nat.find_min' hexists
    ⟨hscans.le, entryIs_mono producesMessage_of_isValidCutPoint hcuts.cut.2.2⟩
  refine ⟨Nat.find hexists, hle, lt_of_le_of_lt hmin hcuts.cut.2.1, hproduces, ?_⟩
  intro j hj hlt
  by_contra hno
  exact Nat.find_min hexists hlt ⟨hj, by simpa using hno⟩

theorem FirstProduced.not_turnStart {kept : Nat} (h : FirstProduced entries endIndex kept first)
    (hj : kept ≤ j) (hlt : j < first) : entryIs entries isTurnStart j = false := by
  by_contra hstart
  have hproduces := entryIs_mono producesMessage_of_isTurnStart (Bool.not_eq_false _ ▸ hstart)
  rw [h.2.2.2 j hj hlt] at hproduces
  exact Bool.noConfusion hproduces

/-- At a user message the first message is the one at the cut, and it starts a turn. -/
theorem FirstProduced.of_user {kept : Nat} (h : FirstProduced entries endIndex kept first)
    (huser : entryIs entries (fun e => hasType e "message" && roleOf e = some (.str "user")) kept =
      true) :
    first = kept ∧ entryIs entries isTurnStart kept = true := by
  have hstart : entryIs entries isTurnStart kept = true := by
    refine entryIs_mono (fun entry hentry => ?_) huser
    rw [Bool.and_eq_true] at hentry
    simp [isTurnStart, hentry.1, of_decide_eq_true hentry.2]
  refine ⟨?_, hstart⟩
  by_contra hne
  have hle := h.1
  rw [h.not_turnStart (le_refl kept) (by omega)] at hstart
  exact Bool.noConfusion hstart

end Split

/-- A split turn is reported exactly when it should be, unless the first message that is kept starts a
turn and is not a user message at the cut itself. -/
theorem findCutPoint_splitsTurn_iff (entries : List FileEntry) (startIndex endIndex : Nat)
    (keepRecentTokens : Lib.JsNumber) :
    SplitsTurn entries startIndex endIndex
        (findCutPoint entries startIndex endIndex keepRecentTokens) ↔
      ¬ SplitsAtTurnStart entries startIndex endIndex keepRecentTokens := by
  rcases findCutPoint_cases entries startIndex endIndex keepRecentTokens with
    ⟨hnone, hresult⟩ | ⟨cut, kept, hcuts, hscans, hresult⟩
  · rw [hresult]
    refine iff_of_true ⟨?_, fun h => absurd h (by simp)⟩ ?_
    · refine iff_of_false (by simp) ?_
      rintro ⟨first, ⟨-, hstop, -⟩, -, start, ⟨hstart, hturn⟩, hlt⟩
      exact hnone start
        ⟨hstart, by omega, entryIs_mono isValidCutPoint_of_isTurnStart hturn⟩
    · rintro ⟨cut, kept, first, hcuts, -⟩
      exact hnone cut hcuts.cut
  · obtain ⟨first, hfirst⟩ := exists_firstProduced hcuts hscans
    have hkept := hfirst.1
    rw [hresult]
    constructor
    · rintro ⟨hsplit, -⟩ ⟨cut', kept', first', hcuts', hscans', hfirst', hturn, huser, start, hstart,
        hle⟩
      obtain rfl := hcuts.unique hcuts'
      obtain rfl := hscans.unique hscans'
      obtain rfl := hfirst.unique hfirst'
      have hnotUser : entryIs entries
          (fun e => hasType e "message" && roleOf e = some (.str "user")) kept = false := by
        by_contra h
        rw [Bool.not_eq_false] at h
        rw [huser (hfirst.of_user h).1] at h
        exact Bool.noConfusion h
      have hsome : (findTurnStartIndex entries kept startIndex).isSome = true := by
        cases hfound : findTurnStartIndex entries kept startIndex with
        | some _ => rfl
        | none =>
          have hno := searchBack_eq_none_iff.mp hfound start hstart.1 (by have := hstart.1; omega)
          rw [hstart.2] at hno
          exact Bool.noConfusion hno
      obtain ⟨first'', hfirst'', hnot, -⟩ := hsplit.mp (by simp [hnotUser, hsome])
      rw [← hfirst.unique hfirst'', hturn] at hnot
      exact Bool.noConfusion hnot
    · intro hno
      by_cases huser : entryIs entries
          (fun e => hasType e "message" && roleOf e = some (.str "user")) kept = true
      · obtain ⟨rfl, hturn⟩ := hfirst.of_user huser
        refine ⟨iff_of_false (by simp [huser]) ?_, fun h => by simp [huser] at h⟩
        rintro ⟨first', hfirst', hnot, -⟩
        rw [← hfirst.unique hfirst', hturn] at hnot
        exact Bool.noConfusion hnot
      · rw [Bool.not_eq_true] at huser
        cases hfound : findTurnStartIndex entries kept startIndex with
        | none =>
          refine ⟨iff_of_false (by simp [huser]) ?_, fun h => by simp [huser] at h⟩
          rintro ⟨first', hfirst', -, start, ⟨hstart, hturn⟩, hlt⟩
          rw [← hfirst.unique hfirst'] at hlt
          by_cases hle : start ≤ kept
          · rw [searchBack_eq_none_iff.mp hfound start hstart (by omega)] at hturn
            exact Bool.noConfusion hturn
          · rw [hfirst.not_turnStart (by omega) hlt] at hturn
            exact Bool.noConfusion hturn
        | some start =>
          obtain ⟨hstart, hle, hturn, hlast⟩ := searchBack_eq_some_iff.mp hfound
          have hnot : entryIs entries isTurnStart first = false := by
            by_contra h
            rw [Bool.not_eq_false] at h
            exact hno ⟨cut, kept, first, hcuts, hscans, hfirst, h, fun _ => huser, start,
              ⟨hstart, hturn⟩, by omega⟩
          have hlt : start < first := by
            by_contra hge
            obtain rfl : start = first := by omega
            rw [hturn] at hnot
            exact Bool.noConfusion hnot
          refine ⟨iff_of_true (by simp [huser]) ⟨first, hfirst, hnot, start, ⟨hstart, hturn⟩, hlt⟩,
            fun _ => ⟨first, start, hfirst, by simp [huser], ⟨hstart, hturn⟩, hlt, ?_⟩⟩
          intro j hj hj'
          by_cases hjk : j ≤ kept
          · exact hlast j hj (by omega)
          · exact hfirst.not_turnStart (by omega) hj'

/-- A request and a command of the user. -/
def bashBranch : List FileEntry :=
  [messageEntry "user" "a",
    .obj [("type", .str "message"), ("id", .str "b"),
      ("message", .obj [("role", .str "bashExecution"), ("command", .str "ls"),
        ("output", .str "a")])]]

theorem findCutPoint_bashBranch : findCutPoint bashBranch 0 2 1 = ⟨1, some 1, true⟩ := by
  decide +kernel

/-- The command is kept whole and starts its turn, and is reported as the split turn. -/
theorem findCutPoint_splits_command :
    ¬ SplitsTurn bashBranch 0 2 (findCutPoint bashBranch 0 2 1) := by
  rw [findCutPoint_bashBranch]
  rintro ⟨hsplit, -⟩
  obtain ⟨first, ⟨hle, hlt, -⟩, hnot, -⟩ := hsplit.mp rfl
  obtain rfl : first = 1 := Nat.le_antisymm (Nat.le_of_lt_succ hlt) hle
  exact absurd hnot (by decide)

end CodingAgent
