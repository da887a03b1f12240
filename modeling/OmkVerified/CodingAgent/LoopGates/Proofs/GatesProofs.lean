import OmkVerified.CodingAgent.LoopGates.Gates

/-!
# Scopes as texts and what they cover

The hand-written comparisons of scopes are right for directories: a file of a scope below an allowed
directory lies below it, and directories that do not overlap have no file in common.
-/

namespace LoopGates

open Lib

variable {scope path a r d f : List Char}

/-! ## Globs -/

theorem free_globToRegExp (glob : List Char) : (globToRegExp glob).Free := by
  have hpieces : ∀ r ∈ globPieces glob, r.Free := by
    induction glob using globPieces.induct with
    | case1 glob ih =>
      intro r hr
      rcases List.mem_cons.mp hr with rfl | hr
      · trivial
      · exact ih r hr
    | case2 glob _ ih =>
      intro r hr
      rw [globPieces] at hr
      · rcases List.mem_cons.mp hr with rfl | hr
        · trivial
        · exact ih r hr
      · assumption
    | case3 c glob hc hcc ih =>
      intro r hr
      rw [globPieces] at hr
      · rcases List.mem_cons.mp hr with rfl | hr
        · trivial
        · exact ih r hr
      · assumption
      · assumption
    | case4 => exact nofun
  unfold globToRegExp
  generalize globPieces glob = pieces at hpieces
  induction pieces with
  | nil => trivial
  | cons r pieces ih =>
    exact ⟨hpieces r List.mem_cons_self, ih fun s hs => hpieces s (List.mem_cons_of_mem r hs)⟩

theorem globMatches_of_matches {glob : List Char} (h : (globToRegExp glob).Matches path) :
    GlobMatches glob path := by
  unfold globToRegExp at h
  induction glob, path using GlobMatches.induct with
  | case1 glob path ih =>
    obtain ⟨front, back, rfl, -, slash, rest, rfl, ⟨c, hc, rfl⟩, hrest⟩ := h
    rw [decide_eq_true_eq] at hc
    subst hc
    exact ⟨front ++ ['/'], rest, by simp, .inr (by simp), ih rest hrest⟩
  | case2 glob path hnot ih =>
    obtain ⟨front, back, rfl, -, hback⟩ := h
    rw [GlobMatches]
    · exact ⟨front, back, rfl, ih back hback⟩
    · exact hnot
  | case3 glob path hnot hnot' ih =>
    rw [globPieces] at h
    · obtain ⟨front, back, rfl, ⟨-, hfront⟩, hback⟩ := h
      rw [GlobMatches]
      · refine ⟨front, back, rfl, fun hmem => ?_, ih back hback⟩
        exact absurd rfl (of_decide_eq_true (hfront '/' hmem))
      · exact hnot
      · exact hnot'
    · exact hnot'
  | case4 c glob path hnot hnot' hstar ih =>
    rw [globPieces] at h
    · obtain ⟨front, back, rfl, ⟨e, he, rfl⟩, hback⟩ := h
      rw [decide_eq_true_eq] at he
      subst he
      rw [GlobMatches]
      · exact ⟨back, rfl, ih back hback⟩
      · exact hnot
      · exact hnot'
      · exact hstar
    · exact hnot'
    · exact hstar
  | case5 path =>
    obtain ⟨hmin, hall⟩ := h
    cases path with
    | nil => rfl
    | cons c path => exact absurd (hall c List.mem_cons_self) Bool.false_ne_true

theorem GlobMatches.of_append {glob : List Char} (hstar : '*' ∉ a)
    (h : GlobMatches (a ++ glob) path) : ∃ back, path = a ++ back ∧ GlobMatches glob back := by
  induction a generalizing path with
  | nil => exact ⟨path, rfl, h⟩
  | cons c a ih =>
    have hc : c ≠ '*' := fun h => hstar (h ▸ List.mem_cons_self)
    rw [List.cons_append, GlobMatches] at h
    · obtain ⟨back, rfl, hback⟩ := h
      obtain ⟨rest, rfl, hrest⟩ := ih (fun h => hstar (List.mem_cons_of_mem c h)) hback
      exact ⟨rest, rfl, hrest⟩
    · rintro _ rfl
      exact absurd rfl hc
    · rintro _ rfl
      exact absurd rfl hc
    · rintro rfl
      exact hc rfl

/-! ## Directories -/

theorem pathHasScopePrefix_iff :
    pathHasScopePrefix path scope = true ↔ path = scope ∨ ∃ rest, path = scope ++ '/' :: rest := by
  unfold pathHasScopePrefix
  rw [Bool.or_eq_true, decide_eq_true_eq, List.isPrefixOf_iff_prefix]
  refine or_congr_right ⟨?_, ?_⟩
  · rintro ⟨rest, rfl⟩
    exact ⟨rest, by simp⟩
  · rintro ⟨rest, rfl⟩
    exact ⟨rest, by simp⟩

theorem upSteps_append (h : upSteps scope = 0) (rest : List Char) :
    upSteps (scope ++ '/' :: rest) = 0 := by
  unfold upSteps at h ⊢
  split
  · rename_i heq
    rcases scope with _ | ⟨c, _ | ⟨e, _ | ⟨g, scope⟩⟩⟩ <;> simp_all
  · rename_i heq
    rcases scope with _ | ⟨c, _ | ⟨e, _ | ⟨g, scope⟩⟩⟩ <;> simp_all
  · rfl

theorem upSteps_ancestor (n : Nat) : upSteps (ancestor n) = n + 1 := by
  induction n with
  | zero => rfl
  | succ n ih => exact congrArg (· + 1) ih

theorem below_iff (hroot : scope ≠ ['/']) (hup : upSteps scope = 0) :
    Below scope path ↔ pathHasScopePrefix path scope = true := by
  rw [pathHasScopePrefix_iff]
  constructor
  · rintro (h | ⟨rest, h, -⟩ | ⟨h, -⟩ | ⟨n, rfl, -⟩)
    · exact .inl h
    · exact .inr ⟨rest, h⟩
    · exact absurd h hroot
    · rw [upSteps_ancestor] at hup
      omega
  · rintro (h | ⟨rest, h⟩)
    · exact .inl h
    · exact .inr (.inl ⟨rest, h, by rw [h, upSteps_append hup, hup]⟩)

theorem pathHasScopePrefix_trans (h : pathHasScopePrefix path scope = true)
    (h' : pathHasScopePrefix scope a = true) : pathHasScopePrefix path a = true := by
  rw [pathHasScopePrefix_iff] at h h' ⊢
  rcases h' with rfl | ⟨rest', rfl⟩
  · exact h
  · rcases h with rfl | ⟨rest, rfl⟩
    · exact .inr ⟨rest', rfl⟩
    · exact .inr ⟨rest' ++ '/' :: rest, by simp⟩

theorem pathHasScopePrefix_total (h : pathHasScopePrefix path scope = true)
    (h' : pathHasScopePrefix path a = true) :
    pathHasScopePrefix scope a = true ∨ pathHasScopePrefix a scope = true := by
  rw [pathHasScopePrefix_iff] at h h'
  rw [pathHasScopePrefix_iff, pathHasScopePrefix_iff]
  rcases h with rfl | ⟨rest, rfl⟩
  · exact .inl h'
  · rcases h' with h' | ⟨rest', h'⟩
    · exact .inr (.inr ⟨rest, h'.symm⟩)
    · rcases List.append_eq_append_iff.mp h' with ⟨mid, ha, hmid⟩ | ⟨mid, hs, hmid⟩
      · cases mid with
        | nil => exact .inl (.inl (by simpa using ha.symm))
        | cons c mid =>
          rw [List.cons_append, List.cons.injEq] at hmid
          exact .inr (.inr ⟨mid, by rw [ha, ← hmid.1]⟩)
      · cases mid with
        | nil => exact .inl (.inl (by simpa using hs))
        | cons c mid =>
          rw [List.cons_append, List.cons.injEq] at hmid
          exact .inl (.inr ⟨mid, by rw [hs, ← hmid.1]⟩)

/-! ## Scopes and files -/

/-- A requested scope below a plain directory: its files lie below the directory. -/
theorem below_of_scopeMatchesPath (hplain : Plain a) (hr : Stable r) (hf : Stable f)
    (hra : scopeMatchesPath (normalizePath r) a = true)
    (hfr : scopeMatchesPath (normalizePath f) r = true) : Covers a f := by
  obtain ⟨hstar, hroot, hup⟩ := hplain
  unfold Stable at hr hf
  unfold scopeMatchesPath at hra hfr
  rw [hr] at hra
  rw [hf] at hfr
  dsimp only at hra hfr
  split at hra
  · cases hra
  rename_i hne
  split at hfr
  · cases hfr
  rename_i hne'
  rw [not_or] at hne hne'
  refine ⟨hne.2, hne'.1, ?_⟩
  rw [if_neg hstar, below_iff hroot hup]
  split at hfr
  · rename_i hrstar
    have hglob := globMatches_of_matches ((Regex.testAll_iff (free_globToRegExp _) _).mp hfr)
    rw [pathHasScopePrefix_iff] at hra ⊢
    rcases hra with hra | ⟨rest, hra⟩
    · rw [hra] at hrstar
      exact absurd hrstar hstar
    · rw [hra, List.append_cons] at hglob
      obtain ⟨back, hback, -⟩ := hglob.of_append (by simp [hstar])
      exact .inr ⟨back, by rw [hback, List.append_assoc, List.singleton_append]⟩
  · exact pathHasScopePrefix_trans hfr hra

/-- Plain directories that do not overlap have no file in common. -/
theorem not_covers_of_not_overlap (hplain : Plain r) (hplain' : Plain d) (hr : Stable r)
    (hf : Stable f) (hd : Stable d)
    (hoverlap : scopesOverlap (normalizePath r) (normalizePath d) = false)
    (hfr : scopeMatchesPath (normalizePath f) r = true) : ¬ Covers d f := by
  rintro ⟨hdne, hfne, hcovers⟩
  rw [if_neg hplain'.1, below_iff hplain'.2.1 hplain'.2.2] at hcovers
  unfold Stable at hr hf hd
  unfold scopesOverlap at hoverlap
  unfold scopeMatchesPath at hoverlap hfr
  rw [hf] at hfr
  rw [hr, hd] at hoverlap
  dsimp only at hoverlap hfr
  split at hfr
  · cases hfr
  rename_i hne
  rw [not_or] at hne
  rw [if_neg hplain.1] at hfr
  rw [if_neg (not_or.mpr ⟨hne.2, hdne⟩), if_neg (not_or.mpr ⟨hdne, hne.2⟩), if_neg hplain.1,
    if_neg hplain'.1, Bool.or_eq_false_iff] at hoverlap
  rcases pathHasScopePrefix_total hfr hcovers with h | h
  · rw [hoverlap.1] at h
    cases h
  · rw [hoverlap.2] at h
    cases h

end LoopGates

/-!
# When the gates keep changes in their scopes

The gates compare requested scopes with allowed and denied scopes as texts, and files only with
requested scopes. That is enough for directories; with globs it has to carry over to the files.
-/

namespace LoopGates

open Lib

variable {definition : LoopDefinition} {state : LoopState} {item : LoopWorkItem}
  {evidence : LoopGateEvidence} {requested allowed denied changed : List (List Char)}

/-! ## What passing means -/

theorem passed_iff : (evaluateLoopSafetyGates definition state item evidence).passed = true ↔
    runDiagnostics definition state item = [] ∧ scopeDiagnostics definition evidence = [] ∧
      evidenceDiagnostics definition item evidence = [] := by
  have hresult : ∀ diagnostics, (safetyGateResult diagnostics).passed = true ↔ diagnostics = [] := by
    intro diagnostics
    unfold safetyGateResult
    split_ifs with h
    · exact iff_of_true rfl (List.length_eq_zero_iff.mp h)
    all_goals exact iff_of_false (by simp) fun hnil => h (by rw [hnil]; rfl)
  unfold evaluateLoopSafetyGates
  rw [hresult, List.append_eq_nil_iff, List.append_eq_nil_iff, and_assoc]

theorem checkWritePath_eq_nil_iff (path : List Char) : checkWritePath definition path = [] ↔
    normalizePath path ≠ [] ∧
      matchesAnyScope (normalizePath path) definition.safety.allowedWriteScopes = true ∧
      matchesAnyScope (normalizePath path) (definition.safety.deniedWriteScopes.getD []) = false := by
  unfold checkWritePath
  dsimp only
  split_ifs <;> simp_all

theorem checkDeniedOverlap_eq_nil_iff (scope : List Char) : checkDeniedOverlap denied scope = [] ↔
    normalizePath scope = [] ∨ ∀ other ∈ denied, normalizePath other ≠ [] →
      scopesOverlap (normalizePath scope) (normalizePath other) = false := by
  unfold checkDeniedOverlap
  dsimp only
  split_ifs with hnil
  · exact iff_of_true rfl (.inl hnil)
  · rw [List.flatMap_eq_nil_iff, or_iff_right hnil]
    refine forall₂_congr fun other _ => ?_
    split_ifs with h
    · refine iff_of_false (by simp) fun hnot => ?_
      rw [hnot h.1] at h
      exact Bool.false_ne_true h.2
    · refine iff_of_true rfl fun hne => ?_
      rw [← Bool.not_eq_true]
      exact fun hoverlap => h ⟨hne, hoverlap⟩

theorem checkChangedFile_eq_nil_iff (file : List Char) : checkChangedFile requested file = [] ↔
    normalizePath file = [] ∨ matchesAnyScope (normalizePath file) requested = true := by
  unfold checkChangedFile
  dsimp only
  split_ifs <;> simp_all

/-- No requested scope is rejected and every file that is named lies in a requested scope. -/
theorem scopes_of_passed (hscope : evidence.writeScope = some requested)
    (hchanged : evidence.changedFiles = some changed)
    (h : (evaluateLoopSafetyGates definition state item evidence).passed = true) :
    (∀ scope ∈ requested, ¬ Rejected definition.safety.allowedWriteScopes
      (definition.safety.deniedWriteScopes.getD []) scope) ∧
    ∀ file ∈ changed, normalizePath file = [] ∨
      matchesAnyScope (normalizePath file) requested = true := by
  have hdiagnostics := ((passed_iff).mp h).2.1
  unfold scopeDiagnostics at hdiagnostics
  rw [hscope, hchanged] at hdiagnostics
  dsimp only at hdiagnostics
  unfold validateLoopWriteScope validateRequestedWriteScopeDoesNotOverlapDenied
    validateChangedFilesWithinRequestedScope at hdiagnostics
  simp only [List.append_eq_nil_iff, List.flatMap_eq_nil_iff] at hdiagnostics
  obtain ⟨⟨⟨-, hpaths⟩, hoverlaps⟩, hfiles⟩ := hdiagnostics
  constructor
  · intro scope hmem hrejected
    obtain ⟨hne, hallowed, hdenied⟩ := (checkWritePath_eq_nil_iff scope).mp (hpaths scope hmem)
    rcases hrejected with hnil | hout | hin | ⟨other, hother, hotherNe, hoverlap⟩
    · exact hne hnil
    · rw [hallowed] at hout
      cases hout
    · rw [hdenied] at hin
      cases hin
    · have hnone := ((checkDeniedOverlap_eq_nil_iff scope).mp (hoverlaps scope hmem)).resolve_left hne
      rw [hnone other hother hotherNe] at hoverlap
      cases hoverlap
  · intro file hmem
    exact (checkChangedFile_eq_nil_iff file).mp (hfiles file hmem)

/-! ## Evidence that passes all other gates -/

def openDefinition (allowed denied : List (List Char)) : LoopDefinition :=
  { level := .L1
    maxAttemptsPerItem := Decimal.ofNat 1
    safety :=
      { requireIndependentVerifier := false
        requireHumanGateForHighRisk := false
        allowedWriteScopes := allowed
        deniedWriteScopes := some denied } }

def openState : LoopState := { status := .active }

def openItem : LoopWorkItem := { id := "item", risk := .low, attemptCount := .zero }

def openEvidence (requested changed : List (List Char)) : LoopGateEvidence :=
  { writeScope := some requested, changedFiles := some changed, evidenceRefs := some ["log"] }

/-- Only the scopes and the files decide. -/
theorem passed_open (requested allowed denied changed : List (List Char)) (hscopes : ∀ scope ∈ requested, ¬ Rejected allowed denied scope)
    (hfiles : ∀ file ∈ changed, normalizePath file = [] ∨
      matchesAnyScope (normalizePath file) requested = true) :
    (evaluateLoopSafetyGates (openDefinition allowed denied) openState openItem
      (openEvidence requested changed)).passed = true := by
  have hattempts : (Decimal.ofNat 1).le .zero = false := by decide +kernel
  refine (passed_iff).mpr
    ⟨by simp [runDiagnostics, openDefinition, openState, openItem, hattempts], ?_, rfl⟩
  unfold scopeDiagnostics validateLoopWriteScope validateRequestedWriteScopeDoesNotOverlapDenied
    validateChangedFilesWithinRequestedScope
  simp only [openEvidence, List.append_eq_nil_iff, List.flatMap_eq_nil_iff]
  refine ⟨⟨⟨⟨by simp [openDefinition], rfl⟩, ?_⟩, ?_⟩, ?_⟩
  · intro scope hmem
    have hnot := hscopes scope hmem
    rw [Rejected, not_or, not_or, not_or] at hnot
    refine (checkWritePath_eq_nil_iff scope).mpr ⟨hnot.1, ?_, ?_⟩
    · exact Bool.not_eq_false _ ▸ hnot.2.1
    · exact Bool.not_eq_true _ ▸ hnot.2.2.1
  · intro scope hmem
    have hnot := hscopes scope hmem
    rw [Rejected, not_or, not_or, not_or] at hnot
    refine (checkDeniedOverlap_eq_nil_iff scope).mpr (.inr fun other hother hne => ?_)
    rw [← Bool.not_eq_true]
    exact fun hoverlap => hnot.2.2.2 ⟨other, hother, hne, hoverlap⟩
  · intro file hmem
    exact (checkChangedFile_eq_nil_iff file).mpr (hfiles file hmem)

/-! ## The scopes are kept -/

/-- What carries over keeps the file in its scopes. -/
theorem CarriesOver.covers {scope file : List Char} (h : CarriesOver allowed denied scope file)
    (hscope : ¬ Rejected allowed denied scope)
    (hfile : scopeMatchesPath (normalizePath file) scope = true) :
    (∃ other ∈ allowed, Covers other file) ∧ ∀ other ∈ denied, ¬ Covers other file := by
  constructor
  · rcases h.allow with ⟨hstable, hstable', other, hother, hplain, hmatch⟩ | hcovers
    · exact ⟨other, hother, below_of_scopeMatchesPath hplain hstable' hstable hmatch hfile⟩
    · exact hcovers
  · intro other hother
    rcases h.deny other hother with ⟨hstable, hstable', hstable'', hplain, hplain'⟩ | hnot
    · rw [Rejected, not_or, not_or, not_or] at hscope
      by_cases hne : normalizePath other = []
      · exact fun hcovers => hcovers.1 hne
      · refine not_covers_of_not_overlap hplain hplain' hstable' hstable hstable'' ?_ hfile
        rw [← Bool.not_eq_true]
        exact fun hoverlap => hscope.2.2.2 ⟨other, hother, hne, hoverlap⟩
    · exact hnot

end LoopGates
