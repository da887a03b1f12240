import OmkVerified.CodingAgent.Compaction.BranchSummarization
import OmkVerified.CodingAgent.Session.Proofs.ManagerProofs

/-!
# The branch that is left behind

Branches of one index are parent chains, so two branches that share an entry share everything before it:
the deepest common entry ends the longest common start. The selection is greedy from the end, and the
estimates are not negative, so it finds the longest end that fits.
-/

namespace CodingAgent

open Lib

/-! ## Collecting -/

variable {session : Manager} {byId : Index} {startId startId' : Option Json}
  {oldBranch targetBranch : List FileEntry}

/-- A branch of a session, with its last id. -/
theorem branchPath_of_getBranch (h : Indexed session) {id : String} {branch : List FileEntry}
    (hbranch : session.getBranch (some (.str id)) = .ok branch) (hne : branch ≠ []) :
    BranchPath session.byId (some (.str id)) branch := by
  unfold Manager.getBranch at hbranch
  rw [h.byId_eq] at hbranch ⊢
  exact branchPath_of_branchFrom rfl hne hbranch

theorem BranchPath.parentChain {path : List FileEntry} (h : BranchPath byId startId path) :
    ParentChain (parentEntry byId) path := by
  refine WalksLinked.parentChain ⟨h.linked, ?_, h.root⟩
  intro e he child hchild hparent
  have hkey : IsKey (entryParentId child) := hparent ▸ h.linked.keys e he
  rw [parentEntry_of_key hkey, hparent]
  exact h.stored e he

theorem BranchPath.eq_of_id_eq {path path' : List FileEntry} (h : BranchPath byId startId path)
    (h' : BranchPath byId startId' path') {a b : FileEntry} (ha : a ∈ path) (hb : b ∈ path')
    (hid : entryId a = entryId b) : a = b := by
  have hastored := h.stored a ha
  rw [hid, h'.stored b hb] at hastored
  exact (Option.some.inj hastored).symm

/-- Two branches that share an entry are the same up to it. -/
theorem BranchPath.front_eq {front front' back back' : List FileEntry} {e : FileEntry}
    (h : BranchPath byId startId (front ++ e :: back))
    (h' : BranchPath byId startId' (front' ++ e :: back')) : front = front' := by
  have hchain : ParentChain (parentEntry byId) (front ++ [e]) := by
    refine @ParentChain.of_append _ _ _ back ?_
    rw [List.append_assoc]
    exact h.parentChain
  have hchain' : ParentChain (parentEntry byId) (front' ++ [e]) := by
    refine @ParentChain.of_append _ _ _ back' ?_
    rw [List.append_assoc]
    exact h'.parentChain
  have heq := hchain.unique hchain' List.getLast?_concat List.getLast?_concat
  exact List.append_cancel_right heq

theorem getEntry_of_key {id : Option Json} (h : IsKey id) :
    session.getEntry id = session.byId.get? id := by
  obtain ⟨value, rfl, -, hprim⟩ := h
  unfold Manager.getEntry
  rw [if_pos]
  simpa using hprim

/-- Above an entry without a parent the loop ends. -/
theorem collectBack_root {common : Option Json} {fuel : Nat} {e : FileEntry}
    (h : parentEntry session.byId e = none) (entries : List FileEntry) :
    collectBack session common (fuel + 1) (entryParentId e) entries = .ok entries := by
  unfold collectBack
  split_ifs with hcontinue
  · rw [Bool.and_eq_true] at hcontinue
    cases hparent : entryParentId e with
    | none =>
      rw [hparent] at hcontinue
      exact absurd hcontinue.1 (by simp [isTruthy])
    | some value =>
      rw [hparent] at hcontinue
      have htruthy : value.truthy = true := by simpa [isTruthy] using hcontinue.1
      unfold parentEntry at h
      rw [hparent] at h
      dsimp only at h
      cases hprim : value.isPrimitive with
      | true =>
        rw [if_pos (by rw [htruthy, hprim]; rfl)] at h
        unfold Manager.getEntry
        rw [if_pos (by simpa using hprim), h]
      | false =>
        unfold Manager.getEntry
        rw [if_neg (by simp [hprim])]
  · rfl

theorem collectBack_common {common : Option Json} {fuel : Nat} (entries : List FileEntry) :
    collectBack session common (fuel + 1) common entries = .ok entries := by
  unfold collectBack
  rw [if_neg]
  simp

/-- The loop collects the entries of a branch after the common ancestor, from the last to the first. -/
theorem collectBack_eq {session : Manager} {startId : Option Json} {front back : List FileEntry}
    {common : Option Json} (h : BranchPath session.byId startId (front ++ back))
    (hfront : ∀ e ∈ front.getLast?, entryId e = common)
    (hback : ∀ e ∈ back, entryId e ≠ common) {last : FileEntry}
    (hlast : (front ++ back).getLast? = some last) (fuel : Nat) (hfuel : back.length < fuel)
    (entries : List FileEntry) :
    collectBack session common fuel (entryId last) entries = .ok (entries ++ back.reverse) := by
  induction back using List.reverseRecOn generalizing startId last fuel entries with
  | nil =>
    rw [List.append_nil] at hlast
    obtain ⟨fuel, rfl⟩ : ∃ f, fuel = f + 1 := ⟨fuel - 1, by simp at hfuel; omega⟩
    rw [hfront last hlast, collectBack_common, List.reverse_nil, List.append_nil]
  | append_singleton back e ih =>
    rw [← List.append_assoc, List.getLast?_concat] at hlast
    obtain rfl := Option.some.inj hlast
    rw [List.length_append, List.length_singleton] at hfuel
    obtain ⟨fuel, rfl⟩ : ∃ f, fuel = f + 1 := ⟨fuel - 1, by omega⟩
    have hmem : e ∈ front ++ (back ++ [e]) := by simp
    have hkey := h.linked.keys e hmem
    have hne := hback e (by simp)
    have htruthy : isTruthy (entryId e) = true := by
      obtain ⟨value, hvalue, htruthy, -⟩ := hkey
      simp [isTruthy, hvalue, htruthy]
    have hstep : collectBack session common (fuel + 1) (entryId e) entries =
        collectBack session common fuel (entryParentId e) (entries ++ [e]) := by
      rw [collectBack, if_pos (by simp [htruthy, hne]), getEntry_of_key hkey, h.stored e hmem]
    rw [hstep, List.reverse_append, List.reverse_singleton, ← List.append_assoc]
    rw [← List.append_assoc] at h
    cases hprev : (front ++ back).getLast? with
    | none =>
      rw [List.getLast?_eq_none_iff] at hprev
      have hroot : parentEntry session.byId e = none := h.root e (by rw [hprev]; rfl)
      obtain ⟨-, rfl⟩ := List.append_eq_nil_iff.mp hprev
      obtain ⟨fuel, rfl⟩ : ∃ f, fuel = f + 1 := ⟨fuel - 1, by omega⟩
      rw [collectBack_root hroot, List.reverse_nil, List.append_nil]
    | some prev =>
      have hparent : entryParentId e = entryId prev :=
        (List.isChain_append.mp h.linked.links).2.2 prev hprev e rfl
      have hbefore : BranchPath session.byId (entryId prev) (front ++ back) := by
        refine ⟨h.linked.of_append, fun x hx => h.stored x (List.mem_append_left _ hx), ?_,
          prev, hprev, rfl⟩
        intro x hx
        refine h.root x ?_
        cases hfb : front ++ back with
        | nil =>
          rw [hfb] at hx
          simp at hx
        | cons y ys =>
          rw [hfb] at hx
          exact hx
      rw [hparent]
      exact ih hbefore (fun x hx => hback x (List.mem_append_left _ hx)) hprev fuel (by omega) _

theorem length_le_byId {path : List FileEntry} (h : BranchPath byId startId path) :
    path.length ≤ byId.size :=
  length_le_size h.linked.nodup h.stored

/-- The deepest entry of the target branch that is on the old branch. -/
theorem find?_common :
    (targetBranch.reverse.find? (fun e => decide (entryId e ∈ oldBranch.map entryId)) = none ∧
        ∀ e ∈ targetBranch, entryId e ∉ oldBranch.map entryId) ∨
      ∃ front e back, targetBranch = front ++ e :: back ∧ entryId e ∈ oldBranch.map entryId ∧
        (∀ x ∈ back, entryId x ∉ oldBranch.map entryId) ∧
        targetBranch.reverse.find? (fun e => decide (entryId e ∈ oldBranch.map entryId)) = some e := by
  by_cases h : ∃ e ∈ targetBranch, entryId e ∈ oldBranch.map entryId
  · right
    obtain ⟨front, e, back, rfl, he, hback⟩ := exists_last h
    refine ⟨front, e, back, rfl, he, hback, ?_⟩
    rw [List.reverse_append, List.reverse_cons, List.append_assoc, List.find?_append,
      List.find?_eq_none.mpr, Option.none_or, List.singleton_append, List.find?_cons_of_pos]
    · exact decide_eq_true he
    · intro x hx
      simpa using hback x (List.mem_reverse.mp hx)
  · left
    have hnone : ∀ e ∈ targetBranch, entryId e ∉ oldBranch.map entryId := by
      intro e he hmem
      exact h ⟨e, he, hmem⟩
    refine ⟨List.find?_eq_none.mpr ?_, hnone⟩
    intro e he
    simpa using hnone e (List.mem_reverse.mp he)

theorem commonPrefix_eq_nil (h : ∀ e ∈ targetBranch, entryId e ∉ oldBranch.map entryId) :
    commonPrefix oldBranch targetBranch = [] := by
  refine commonPrefix_append [] ?_
  intro e he htarget
  exact h e (List.mem_of_mem_head? htarget) (List.mem_map_of_mem (List.mem_of_mem_head? he))

theorem getEntry_of_getBranch_nil {id : String} (hid : id ≠ "")
    (h : session.getBranch (some (.str id)) = .ok []) :
    session.getEntry (some (.str id)) = none := by
  have htruthy : isTruthy (some (.str id)) = true := by simp [isTruthy, Json.truthy, hid]
  unfold Manager.getBranch branchFrom at h
  rw [Option.orElse_some, if_pos htruthy] at h
  have hprim : Option.all Json.isPrimitive (some (.str id)) = true := rfl
  unfold Manager.getEntry
  rw [if_pos hprim]
  cases hget : session.byId.get? (some (.str id)) with
  | none => rfl
  | some entry =>
    rw [hget] at h
    dsimp only [pathTo] at h
    split at h
    · rename_i path hpath
      cases h
      exact absurd (walk_eq_some_iff.mp hpath).1 (by simp)
    · cases h

/-- The common ancestor that the search finds ends the longest common start, and the loop collects what
comes after it. -/
theorem collectBack_getBranch (hindexed : Indexed session) {id targetId : String} (hid : id ≠ "")
    (hold : session.getBranch (some (.str id)) = .ok oldBranch)
    (htarget : session.getBranch (some (.str targetId)) = .ok targetBranch) :
    collectBack session
        ((targetBranch.reverse.find? fun e => decide (entryId e ∈ oldBranch.map entryId)).bind entryId)
        (session.byId.size + 1) (some (.str id)) [] =
      .ok (oldBranch.drop (commonPrefix oldBranch targetBranch).length).reverse := by
  by_cases hne : oldBranch = []
  · subst hne
    rw [collectBack]
    split_ifs with hcontinue
    · rw [getEntry_of_getBranch_nil hid hold]
      rfl
    · rfl
  · have hpath := branchPath_of_getBranch hindexed hold hne
    obtain ⟨last, hlast, hlastId⟩ := hpath.last
    rw [← hlastId] at hpath ⊢
    have hsize := length_le_byId hpath
    rcases @find?_common oldBranch targetBranch with
      ⟨hfind, hnone⟩ | ⟨front, e, back, rfl, he, hback, hfind⟩
    · rw [hfind, commonPrefix_eq_nil hnone]
      have hids : ∀ x ∈ oldBranch, entryId x ≠ none := by
        intro x hx hnoId
        obtain ⟨value, hvalue, -, -⟩ := hpath.linked.keys x hx
        rw [hvalue] at hnoId
        cases hnoId
      have hrun := @collectBack_eq session _ [] oldBranch none hpath (by simp) hids _ hlast
        (session.byId.size + 1) (by omega) []
      simpa using hrun
    · have htargetPath := branchPath_of_getBranch hindexed htarget (by simp)
      obtain ⟨e', he', hide⟩ := List.mem_map.mp he
      obtain rfl : e' = e := hpath.eq_of_id_eq htargetPath he' (by simp) hide
      obtain ⟨front', rest, rfl⟩ := List.append_of_mem he'
      obtain rfl := hpath.front_eq htargetPath
      have hpre : commonPrefix (front' ++ e' :: rest) (front' ++ e' :: back) = front' ++ [e'] := by
        rw [List.append_cons, List.append_cons front' _ back]
        refine commonPrefix_append _ ?_
        intro x hx hx'
        refine hback x (List.mem_of_mem_head? hx') (List.mem_map_of_mem ?_)
        exact List.mem_append_right _ (List.mem_cons_of_mem _ (List.mem_of_mem_head? hx))
      rw [hfind, hpre, Option.bind_some, List.append_cons front' e' rest, List.drop_left]
      rw [List.append_cons front' e' rest] at hpath hlast hsize
      have hnodup := hpath.linked.nodup
      rw [List.map_append, List.nodup_append] at hnodup
      have hrun := collectBack_eq hpath
        (fun x hx => by
          rw [List.getLast?_concat] at hx
          rw [Option.some.inj hx])
        (fun x hx hsame => hnodup.2.2 (entryId e') (List.mem_map_of_mem (by simp)) (entryId x)
          (List.mem_map_of_mem hx) hsame.symm)
        hlast (session.byId.size + 1) (by
          rw [List.length_append] at hsize
          omega) []
      simpa using hrun

/-- The collected entries are the old branch after its longest common start with the target branch. -/
theorem collectEntriesForBranchSummary_eq (hindexed : Indexed session) {oldLeafId : Option String}
    {targetId : String} (hold : IsOldBranch session oldLeafId oldBranch)
    (htarget : session.getBranch (some (.str targetId)) = .ok targetBranch) :
    ∃ commonAncestorId, collectEntriesForBranchSummary session oldLeafId targetId =
      .ok ⟨oldBranch.drop (commonPrefix oldBranch targetBranch).length, commonAncestorId⟩ := by
  unfold collectEntriesForBranchSummary
  cases oldLeafId with
  | none =>
    obtain rfl : oldBranch = [] := hold
    exact ⟨none, rfl⟩
  | some id =>
    have hbranch : session.getBranch (some (.str id)) = .ok oldBranch := hold
    by_cases hempty : id = ""
    · subst hempty
      obtain rfl : [] = oldBranch := by
        unfold Manager.getBranch branchFrom at hbranch
        simpa [isTruthy, Json.truthy] using hbranch
      exact ⟨none, rfl⟩
    · refine ⟨(targetBranch.reverse.find? fun e =>
        decide (entryId e ∈ oldBranch.map entryId)).bind entryId, ?_⟩
      rw [if_neg (by simpa using hempty)]
      simp only [Option.map_some, hbranch, htarget]
      have hrun := collectBack_getBranch hindexed hempty hbranch htarget
      simp only [bind, Except.bind, hrun, pure, Except.pure, List.reverse_reverse]

/-! ## Selecting -/

variable {platform : Platform} {budget : Int}

theorem conversation_concat (entries : List FileEntry) (e : FileEntry) :
    conversation platform (entries ++ [e]) = conversation platform entries ++
      ((getMessageFromEntry platform e).map fun m => (e, m)).toList := by
  unfold conversation
  rw [List.filterMap_append]
  cases h : getMessageFromEntry platform e <;> simp [h]

theorem tokensOf_cons (message : FileEntry × Json) (messages : List (FileEntry × Json)) :
    tokensOf (message :: messages) = estimateTokens message.2 + tokensOf messages := by
  simp [tokensOf]

theorem tokensOf_suffix {short long : List (FileEntry × Json)} (h : short <:+ long) :
    tokensOf short ≤ tokensOf long := by
  obtain ⟨front, rfl⟩ := h
  simp [tokensOf]

/-- An end that fits and has no place for the message before it is the longest one. -/
theorem IsFittingEnd.of_exceeds {older done : List (FileEntry × Json)} {message : FileEntry × Json}
    (hpos : 0 < budget) (hfits : (tokensOf done : Int) ≤ budget)
    (hexceeds : budget < tokensOf (message :: done)) :
    IsFittingEnd (older ++ message :: done) budget done := by
  have hdone : message :: done <:+ older ++ message :: done := List.suffix_append ..
  refine ⟨(List.suffix_cons ..).trans hdone, ?_⟩
  rw [if_pos hpos]
  refine ⟨hfits, ?_⟩
  intro other hother hotherFits
  by_contra hlong
  have hsuffix : message :: done <:+ other :=
    List.suffix_of_suffix_length_le hdone hother (by rw [List.length_cons]; omega)
  have hle := tokensOf_suffix hsuffix
  omega

/-- Within a positive budget the selection is greedy from the newest message. -/
theorem selectBack_selects (hpos : 0 < budget) (older : List FileEntry)
    (done : List (FileEntry × Json)) (p : BranchPreparation) (hmessages : p.messages = done.map Prod.snd)
    (htotal : p.totalTokens = tokensOf done) (hfits : (tokensOf done : Int) ≤ budget) :
    SelectsFittingEnd (conversation platform older ++ done) budget
      (selectBack platform budget older.reverse p).messages := by
  induction older using List.reverseRecOn generalizing done p with
  | nil =>
    refine ⟨done, ⟨List.suffix_refl _, ?_⟩, .inl hmessages⟩
    rw [if_pos hpos]
    exact ⟨hfits, fun other hother _ => hother.length_le⟩
  | append_singleton older e ih =>
    rw [List.reverse_append, List.reverse_singleton, List.singleton_append, selectBack,
      conversation_concat]
    cases hmessage : getMessageFromEntry platform e with
    | none =>
      rw [Option.map_none, Option.toList_none, List.append_nil]
      exact ih done p hmessages htotal hfits
    | some m =>
      rw [Option.map_some, Option.toList_some, List.append_assoc, List.singleton_append]
      have htokens : tokensOf ((e, m) :: done) = p.totalTokens + estimateTokens m := by
        rw [tokensOf_cons, htotal, Nat.add_comm]
      dsimp only
      split_ifs with hexceeds hsummary
      · refine ⟨done, .of_exceeds hpos hfits (by rw [htokens]; omega), .inr ⟨(e, m), hsummary.1,
          List.suffix_append .., ?_⟩⟩
        rw [← hmessages]
        rfl
      · exact ⟨done, .of_exceeds hpos hfits (by rw [htokens]; omega), .inl hmessages⟩
      · refine ih ((e, m) :: done) _ ?_ ?_ ?_
        · rw [List.map_cons, ← hmessages]
          rfl
        · rw [htokens]
          rfl
        · rw [htokens]
          push_cast
          omega

/-- Without a positive budget every message is selected. -/
theorem selectBack_unlimited (hbudget : ¬ 0 < budget) (older : List FileEntry) (p : BranchPreparation) :
    (selectBack platform budget older.reverse p).messages =
      (conversation platform older).map Prod.snd ++ p.messages := by
  induction older using List.reverseRecOn generalizing p with
  | nil => rfl
  | append_singleton older e ih =>
    rw [List.reverse_append, List.reverse_singleton, List.singleton_append, selectBack,
      conversation_concat]
    cases hmessage : getMessageFromEntry platform e with
    | none =>
      rw [Option.map_none, Option.toList_none, List.append_nil]
      exact ih p
    | some m =>
      dsimp only
      rw [if_neg fun h => hbudget h.1, ih]
      simp [BranchPreparation.unshift]

/-- Without a positive budget nothing or a single summary may be selected. -/
theorem selectsFittingEnd_all_iff (hbudget : ¬ 0 < budget) (messages : List (FileEntry × Json)) :
    SelectsFittingEnd messages budget (messages.map Prod.snd) ↔
      messages = [] ∨ ∃ summary, isSummaryEntry summary.1 = true ∧ messages = [summary] := by
  constructor
  · rintro ⟨fitting, ⟨-, hfitting⟩, hselected⟩
    rw [if_neg hbudget] at hfitting
    subst hfitting
    rcases hselected with hall | ⟨summary, hsummary, hsuffix, hall⟩
    · exact .inl (List.map_eq_nil_iff.mp hall)
    · have hlen := congrArg List.length hall
      rw [List.length_map] at hlen
      exact .inr ⟨summary, hsummary, (hsuffix.eq_of_length hlen.symm).symm⟩
  · rintro (rfl | ⟨summary, hsummary, rfl⟩)
    · exact ⟨[], ⟨List.suffix_refl _, by rw [if_neg hbudget]⟩, .inl rfl⟩
    · exact ⟨[], ⟨List.nil_suffix, by rw [if_neg hbudget]⟩,
        .inr ⟨summary, hsummary, List.suffix_refl _, rfl⟩⟩

theorem generateBranchSummary_messages (entries : List FileEntry) (contextWindow : Nat)
    (reserveTokens : Option Nat) :
    (generateBranchSummary platform entries contextWindow reserveTokens).messages =
      (prepareBranchEntries platform entries
        (branchTokenBudget contextWindow reserveTokens)).messages := by
  unfold generateBranchSummary
  dsimp only
  split_ifs with h
  · exact h.symm
  · rfl

theorem generateBranchSummary_selects_iff (entries : List FileEntry) (contextWindow : Nat)
    (reserveTokens : Option Nat) :
    SelectsFittingEnd (conversation platform entries) (branchTokenBudget contextWindow reserveTokens)
        (generateBranchSummary platform entries contextWindow reserveTokens).messages ↔
      0 < branchTokenBudget contextWindow reserveTokens ∨ conversation platform entries = [] ∨
        ∃ summary, isSummaryEntry summary.1 = true ∧ conversation platform entries = [summary] := by
  rw [generateBranchSummary_messages]
  unfold prepareBranchEntries
  by_cases hpos : 0 < branchTokenBudget contextWindow reserveTokens
  · have hselects := @selectBack_selects platform _ hpos entries []
      ⟨[], summaryFileOps entries, 0⟩ rfl rfl (le_of_lt hpos)
    rw [List.append_nil] at hselects
    exact ⟨fun _ => .inl hpos, fun _ => hselects⟩
  · rw [selectBack_unlimited hpos, List.append_nil, selectsFittingEnd_all_iff hpos]
    exact ⟨.inr, fun h => h.resolve_left hpos⟩

/-- The collected entries are always the old branch after its longest common start with the target
branch. The messages are selected within the budget exactly when there is a budget, or nothing to be
left out. -/
theorem branchSummary_iff (platform : Platform) (session : Manager) (hindexed : Indexed session)
    (oldLeafId : Option String) (targetId : String) (oldBranch targetBranch : List FileEntry)
    (hold : IsOldBranch session oldLeafId oldBranch)
    (htarget : session.getBranch (some (.str targetId)) = .ok targetBranch) (contextWindow : Nat)
    (reserveTokens : Option Nat) :
    SummarizesBranch platform session oldLeafId targetId oldBranch targetBranch contextWindow
        reserveTokens ↔
      0 < branchTokenBudget contextWindow reserveTokens ∨
      conversation platform (oldBranch.drop (commonPrefix oldBranch targetBranch).length) = [] ∨
      ∃ summary, isSummaryEntry summary.1 = true ∧
        conversation platform (oldBranch.drop (commonPrefix oldBranch targetBranch).length) =
          [summary] := by
  obtain ⟨commonAncestorId, hcollect⟩ := collectEntriesForBranchSummary_eq hindexed hold htarget
  rw [← generateBranchSummary_selects_iff]
  constructor
  · rintro ⟨result, hresult, hentries, hselects⟩
    rw [hentries] at hselects
    exact hselects
  · intro hselects
    exact ⟨_, hcollect, rfl, hselects⟩

def summaryPlatform : Platform where
  sha256 _ := String.ofList (List.replicate 64 'a')
  sha256_hex _ := by decide
  getTime _ := none
  join a _ := a

def userEntry (id : String) (parentId : Json) (text : String) : FileEntry :=
  .obj [("type", .str "message"), ("id", .str id), ("parentId", parentId),
    ("message", .obj [("role", .str "user"), ("content", .str text)])]

def rootEntry : FileEntry := userEntry "a" .null "start"

def leftEntry : FileEntry := userEntry "b" (.str "a") "left"

def rightEntry : FileEntry := userEntry "c" (.str "a") "right"

/-- A message with two answers. -/
def summarySession : Manager :=
  Manager.switchTo
    { sessionId := "s", sessionFile := none, sessionDir := "", cwd := "", persist := false,
      flushed := false, fileEntries := [], byId := .empty, labelsById := .empty,
      labelTimestampsById := .empty, leafId := none, acceptedDurableHead := none }
    "s" [rootEntry, leftEntry, rightEntry]

theorem summarySession_branches :
    IsOldBranch summarySession (some "b") [rootEntry, leftEntry] ∧
      summarySession.getBranch (some (.str "c")) = .ok [rootEntry, rightEntry] :=
  ⟨rfl, rfl⟩

theorem branchSummary_iff_sample :
    SummarizesBranch summaryPlatform summarySession (some "b") "c" [rootEntry, leftEntry]
      [rootEntry, rightEntry] 200000 none :=
  (branchSummary_iff summaryPlatform summarySession (indexed_withIndex _ _ _) (some "b") "c" _ _
    (summarySession_branches).1 (summarySession_branches).2 200000 none).mpr (.inl (by decide))

/-- With a window of 8192 tokens the default reserve leaves no budget, and the message is selected. -/
theorem branchSummary_without_budget :
    Indexed summarySession ∧ IsOldBranch summarySession (some "b") [rootEntry, leftEntry] ∧
      summarySession.getBranch (some (.str "c")) = .ok [rootEntry, rightEntry] ∧
      ¬ SummarizesBranch summaryPlatform summarySession (some "b") "c" [rootEntry, leftEntry]
        [rootEntry, rightEntry] 8192 none := by
  refine ⟨indexed_withIndex _ _ _, (summarySession_branches).1, (summarySession_branches).2, ?_⟩
  rintro ⟨result, -, hentries, hselects⟩
  have hdrop : [rootEntry, leftEntry].drop
      (commonPrefix [rootEntry, leftEntry] [rootEntry, rightEntry]).length = [leftEntry] := by
    decide
  rw [hentries, hdrop] at hselects
  rcases (generateBranchSummary_selects_iff _ _ _).mp hselects with h | h | ⟨summary, hsummary, h⟩
  · exact absurd h (by decide)
  · exact absurd h (by decide)
  · have hhead : summary.1 = leftEntry := by
      have := congrArg (fun l => (l.map Prod.fst).head?) h
      exact (Option.some.inj this).symm
    rw [hhead] at hsummary
    exact absurd hsummary (by decide)

end CodingAgent
