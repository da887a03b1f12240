import OmkVerified.CodingAgent.Sandbox.Proofs.PolicyProofs

/-!
# The two evaluators of paths

When a path that the second evaluator allows is one that the first one allows.
-/

namespace Sandbox

open Lib

variable {c : Char} {rule subject : List Char}

section Roots

variable (platform : Platform)

theorem rdropWhile_append_slashes (text : List Char) :
    text = text.rdropWhile (· = '/') ++ (text.reverse.takeWhile (· = '/')).reverse := by
  rw [List.rdropWhile, ← List.reverse_append, List.takeWhile_append_dropWhile, List.reverse_reverse]

theorem mem_drop_rdropWhile {text : List Char}
    (h : c ∈ text.drop (text.rdropWhile (· = '/')).length) : c = '/' := by
  have hdrop : (text.rdropWhile (· = '/') ++ (text.reverse.takeWhile (· = '/')).reverse).drop
      (text.rdropWhile (· = '/')).length = (text.reverse.takeWhile (· = '/')).reverse :=
    List.drop_left
  rw [← rdropWhile_append_slashes] at hdrop
  rw [hdrop, List.mem_reverse] at h
  simpa using List.mem_takeWhile_imp h

theorem posixSegments_eq_nil {text : List Char} (h : ∀ c ∈ text, c = '/') : posixSegments text = [] := by
  unfold posixSegments
  induction text with
  | nil => rfl
  | cons c text ih =>
    rw [List.splitOn_cons_eq_if_modifyHead, if_pos (by simp [h c List.mem_cons_self]),
      List.filter_cons_of_neg (by simp)]
    exact ih fun d hd => h d (List.mem_cons_of_mem _ hd)

theorem resolvePath_slashes {text : List Char} (hne : text ≠ []) (h : ∀ c ∈ text, c = '/') :
    resolvePath platform.cwd text = ['/'] := by
  obtain ⟨c, rest, rfl⟩ := List.exists_cons_of_ne_nil hne
  unfold resolvePath resolveSegments
  rw [posixSegments_eq_nil h, h c List.mem_cons_self]
  rfl

theorem normalize_eq (value : List Char) :
    normalize platform value =
      if forwardSlashes (resolvePath platform.cwd value) = ['/'] ∧ value ≠ ['/'] then []
      else normalizePathValue platform value := by
  unfold normalize normalizePathValue
  set resolved := forwardSlashes (resolvePath platform.cwd value) with hresolved
  dsimp only
  by_cases hroot : resolved = ['/']
  · rw [hroot]
    by_cases hvalue : value = ['/']
    · rw [hvalue]
      decide
    · have hstem : List.rdropWhile (fun c : Char => decide (c = '/')) ['/'] = [] := by decide
      simp [hstem, hvalue]
  · have hother : ¬ (resolved = ['/'] ∧ value ≠ ['/']) := fun h => hroot h.1
    rw [if_neg hother]
    have hlength : 1 < resolved.length := by
      have hne : (resolvePath platform.cwd value) ≠ [] := by simp [resolvePath, absolutePath]
      obtain ⟨rest, hrest⟩ : ∃ rest, resolved = '/' :: rest := ⟨_, rfl⟩
      rw [hrest] at hroot ⊢
      rw [List.length_cons]
      have : rest ≠ [] := fun hnil => hroot (by rw [hnil])
      have := List.length_pos_iff.mpr this
      omega
    rw [if_pos hlength, if_neg]
    rintro ⟨hne, hvalue⟩
    apply hroot
    rw [hresolved, hvalue, resolvePath_slashes platform hne fun c => mem_drop_rdropWhile]
    rfl

/-- The root, spelled in another way. -/
def RootAlias (value : List Char) : Prop :=
  forwardSlashes (resolvePath platform.cwd value) = ['/'] ∧ value ≠ ['/']

theorem normalize_of_rootAlias {value : List Char} (h : RootAlias platform value) :
    normalize platform value = [] := by
  rw [normalize_eq]
  exact if_pos h

theorem normalize_of_not_rootAlias {value : List Char} (h : ¬ RootAlias platform value) :
    normalize platform value = normalizePathValue platform value := by
  rw [normalize_eq]
  exact if_neg h

theorem normalizePathValue_of_rootAlias {value : List Char} (h : RootAlias platform value) :
    normalizePathValue platform value = ['/'] := by
  unfold normalizePathValue
  rw [h.1]
  rfl

theorem resolved_of_normalizePathValue {value : List Char}
    (h : normalizePathValue platform value = ['/']) :
    forwardSlashes (resolvePath platform.cwd value) = ['/'] := by
  unfold normalizePathValue at h
  dsimp only at h
  split at h
  · have hlast := List.rdropWhile_last_not (fun c : Char => decide (c = '/'))
      (forwardSlashes (resolvePath platform.cwd value)) (by rw [h]; simp)
    simp only [h] at hlast
    exact absurd rfl hlast
  · exact h

theorem below_root_iff {parent : List Char} : Below '/' parent ['/'] ↔ parent = ['/'] ∨ parent = [] := by
  unfold Below
  constructor
  · rintro (h | h)
    · exact .inl h.symm
    · right
      have hlength := h.length_le
      simp only [List.length_append, List.length_singleton] at hlength
      exact List.length_eq_zero_iff.mp (by omega)
  · rintro (rfl | rfl)
    · exact .inl rfl
    · exact .inr (List.prefix_rfl)

theorem below_nil_iff {parent : List Char} : Below '/' parent [] ↔ parent = [] := by
  unfold Below
  constructor
  · rintro (h | h)
    · exact h.symm
    · exact absurd (List.prefix_nil.mp h) (by simp)
  · rintro rfl
    exact .inl rfl

theorem isInsideRoot_iff {root candidate : List Char} :
    isInsideRoot platform root candidate = true ↔
      Below '/' (normalizePathValue platform root) (normalizePathValue platform candidate) := by
  unfold isInsideRoot Below
  rw [Bool.or_eq_true, decide_eq_true_iff, List.isPrefixOf_iff_prefix]

/-- A candidate that the second evaluator finds inside is one that the first one finds inside, but
for another spelling of the root. -/
theorem inside_iff_of_isInsideRoot {root candidate : List Char}
    (h : isInsideRoot platform root candidate = true) :
    Inside platform root candidate ↔ ¬ (root = ['/'] ∧ RootAlias platform candidate) := by
  rw [isInsideRoot_iff] at h
  rw [inside_iff_below]
  by_cases hroot : RootAlias platform root
  · refine iff_of_true ?_ fun hboth => hroot.2 hboth.1
    rw [← inside_iff_below]
    exact inside_of_normalize_eq_nil platform (normalize_of_rootAlias platform hroot) candidate
  rw [normalize_of_not_rootAlias platform hroot]
  by_cases hcandidate : RootAlias platform candidate
  · rw [normalize_of_rootAlias platform hcandidate, below_nil_iff]
    rw [normalizePathValue_of_rootAlias platform hcandidate, below_root_iff] at h
    rcases h with hslash | hnil
    · have hspelled : root = ['/'] := by
        by_contra hne
        exact hroot ⟨resolved_of_normalizePathValue platform hslash, hne⟩
      exact iff_of_false (by rw [hslash]; simp) fun hnot => hnot ⟨hspelled, hcandidate⟩
    · refine iff_of_true hnil fun hboth => ?_
      rw [hboth.1] at hnil
      exact absurd hnil (by
        have : resolvePath platform.cwd ['/'] = ['/'] :=
          resolvePath_slashes platform (by simp) (by simp)
        unfold normalizePathValue
        rw [this]
        decide)
  · rw [normalize_of_not_rootAlias platform hcandidate]
    exact iff_of_true h fun hboth => hcandidate hboth.2

end Roots

/-! ## Rules without wildcards -/

section PlainRules

variable (platform : Platform)

theorem mem_absolutePath {segments : List (List Char)} {segment : List Char}
    (hsegment : segment ∈ segments) (hc : c ∈ segment) : c ∈ absolutePath segments := by
  apply List.mem_cons_of_mem
  unfold List.intercalate
  induction segments with
  | nil => cases hsegment
  | cons first segments ih =>
    rcases List.mem_cons.mp hsegment with rfl | hsegment
    · cases segments with
      | nil => simpa using hc
      | cons second segments => simp [List.intersperse, hc]
    · cases segments with
      | nil => cases hsegment
      | cons second segments =>
        have hrest := ih hsegment
        simp only [List.intersperse_cons_cons, List.flatten_cons, List.mem_append]
        exact .inr (.inr hrest)

/-- The last segment of a rule is one of its normal form. -/
theorem mem_normalizePathValue {directory name : List Char} (hslash : '/' ∉ name)
    (hdot : name ≠ ['.']) (hdots : name ≠ ['.', '.']) (hc : c ∈ name) (hback : c ≠ '\\') :
    c ∈ normalizePathValue platform (directory ++ '/' :: name) := by
  have hne : name ≠ [] := List.ne_nil_of_mem hc
  have hcslash : c ≠ '/' := by
    rintro rfl
    exact hslash hc
  have hsegments : posixSegments (directory ++ '/' :: name) = posixSegments directory ++ [name] := by
    unfold posixSegments
    rw [List.splitOn_append_cons_self, List.filter_append, List.splitOn_eq_singleton hslash]
    simp [hne]
  have hlast : name ∈ resolveSegments platform.cwd (directory ++ '/' :: name) := by
    unfold resolveSegments
    rw [hsegments, List.foldl_append, List.foldl_cons, List.foldl_nil, resolveSegment, if_neg hdot,
      if_neg hdots]
    simp
  have hresolved : c ∈ forwardSlashes (resolvePath platform.cwd (directory ++ '/' :: name)) :=
    List.mem_map.mpr ⟨c, mem_absolutePath hlast hc, if_neg hback⟩
  unfold normalizePathValue
  dsimp only
  split
  · rw [rdropWhile_append_slashes (forwardSlashes _)] at hresolved
    rcases List.mem_append.mp hresolved with hstem | hend
    · exact hstem
    · rw [List.mem_reverse] at hend
      exact absurd (by simpa using List.mem_takeWhile_imp hend) hcslash
  · exact hresolved

theorem stripGlobSuffix_of_plain (h : ruleHasGlob (normalizePathValue platform rule) = false) :
    stripGlobSuffix rule = rule := by
  have hstar : '*' ∉ normalizePathValue platform rule := by
    intro hmem
    unfold ruleHasGlob at h
    rw [List.any_eq_false] at h
    exact h '*' hmem (by decide)
  unfold stripGlobSuffix
  rw [if_neg, if_neg]
  · rw [List.isSuffixOf_iff_suffix]
    rintro ⟨directory, rfl⟩
    exact hstar (mem_normalizePathValue platform (by decide) (by decide) (by decide)
      List.mem_cons_self (by decide))
  · rw [List.isSuffixOf_iff_suffix]
    rintro ⟨directory, rfl⟩
    exact hstar (mem_normalizePathValue platform (by decide) (by decide) (by decide)
      List.mem_cons_self (by decide))

/-- On a rule without wildcards the two evaluators agree, as long as no root is spelled in another
way. -/
theorem matchesPattern_eq_matchesRule (minimatch : List Char → List Char → Bool)
    (hplain : ruleHasGlob (normalizePathValue platform rule) = false)
    (hrule : ¬ RootAlias platform rule) (hsubject : ¬ RootAlias platform subject) :
    matchesPattern platform rule subject = matchesRule platform minimatch rule subject := by
  unfold matchesPattern matchesRule
  rw [stripGlobSuffix_of_plain platform hplain, normalize_of_not_rootAlias platform hrule,
    normalize_of_not_rootAlias platform hsubject]
  simp [hplain]

end PlainRules

/-! ## Agreement -/

section Agreement

variable (platform : Platform) (minimatch : List Char → List Char → Bool)

/-- A part of the path says that it is a secret. -/
def NamesSecret (path : List Char) : Prop :=
  ∃ rest ∈ restsOf (forwardSlashes path),
    rest.any isLineTerminator = false ∧ matchesPart "secret".toList rest = true

theorem isSensitivePath_iff {path : List Char} :
    isSensitivePath path = true ↔ isSensitivePathV2 path = true ∨ NamesSecret path := by
  have hrest : ∀ rest, isSensitiveRest sensitiveWords rest = true ↔
      isSensitiveRest sensitiveWordsV2 rest = true ∨
        (rest.any isLineTerminator = false ∧ matchesPart "secret".toList rest = true) := by
    intro rest
    have hwords : sensitiveWords = "secret" :: sensitiveWordsV2 := rfl
    unfold isSensitiveRest
    rw [hwords, List.any_cons]
    cases rest.any isLineTerminator <;> cases matchesPart "secret".toList rest <;> simp
  unfold isSensitivePath isSensitivePathV2 NamesSecret
  simp only [List.any_eq_true, hrest, and_or_left, exists_or]

def matchesAnyV2 (patterns : List (List Char)) (candidate : List Char) : Bool :=
  patterns.any fun pattern => matchesRule platform minimatch pattern candidate

theorem firstMatch_isSome (patterns : List (List Char)) (candidate : List Char) :
    (firstMatch platform minimatch patterns candidate).isSome =
      matchesAnyV2 platform minimatch patterns candidate := by
  unfold firstMatch matchesAnyV2
  rw [Bool.eq_iff_iff, List.find?_isSome, List.any_eq_true]

/-- The request passes the checks of the second evaluator. -/
structure PassesV2 (policy : SandboxPolicy) (request : PathAccessRequest)
    (resolved : ResolvedSandboxPath) (candidate : List Char) : Prop where
  wellFormed : '\x00' ∉ request.path
  noError : resolved.error.filter (· ≠ "") = none
  notSensitive : isSensitivePathV2 request.path = false ∧ isSensitivePathV2 candidate = false
  inside : isInsideRoot platform policy.filesystem.root candidate = true
  noSymlink : resolved.isSymlink = false
  notDenied :
    matchesAnyV2 platform minimatch (denyRules request.kind policy.filesystem) candidate = false ∧
      matchesAnyV2 platform minimatch (denyRules request.kind policy.filesystem) request.path = false
  allowed :
    matchesAnyV2 platform minimatch (allowRules request.kind policy.filesystem) candidate = true

theorem decideRulesV2_allowed_iff (fs : FilesystemPolicy) (kind : PathAccessKind)
    (requested candidate : List Char) :
    (decideRulesV2 platform minimatch fs kind requested candidate).allowed = true ↔
      (matchesAnyV2 platform minimatch (denyRules kind fs) candidate = false ∧
        matchesAnyV2 platform minimatch (denyRules kind fs) requested = false) ∧
        matchesAnyV2 platform minimatch (allowRules kind fs) candidate = true := by
  have happend : matchesAnyV2 platform minimatch (fs.writeAllow ++ fs.tempWrite) candidate =
      (matchesAnyV2 platform minimatch fs.writeAllow candidate ||
        matchesAnyV2 platform minimatch fs.tempWrite candidate) := List.any_append
  cases kind with
  | read =>
    simp only [decideRulesV2, denyRules, allowRules, ← firstMatch_isSome]
    cases firstMatch platform minimatch fs.readDeny candidate <;>
      cases firstMatch platform minimatch fs.readDeny requested <;>
      cases firstMatch platform minimatch fs.readAllow candidate <;> simp
  | write =>
    simp only [decideRulesV2, denyRules, allowRules, happend, ← firstMatch_isSome]
    cases firstMatch platform minimatch fs.denyWrite candidate <;>
      cases firstMatch platform minimatch fs.denyWrite requested <;>
      cases firstMatch platform minimatch fs.writeAllow candidate <;>
      cases firstMatch platform minimatch fs.tempWrite candidate <;> simp

theorem decidePathV2_allowed_iff (policy : SandboxPolicy) (request : PathAccessRequest)
    (resolver : SandboxPathResolver) :
    (decidePathV2 platform minimatch policy request (some resolver)).allowed = true ↔
      PassesV2 platform minimatch policy request (resolver request.path)
        (candidateV2 platform request.path (resolver request.path)) := by
  unfold decidePathV2
  dsimp only [Option.map_some, Option.getD_some]
  set candidate := candidateV2 platform request.path (resolver request.path)
  by_cases hnul : '\x00' ∈ request.path
  · rw [if_pos (List.contains_iff_mem.mpr hnul)]
    exact iff_of_false Bool.false_ne_true fun h => h.wellFormed hnul
  rw [if_neg fun h => hnul (List.contains_iff_mem.mp h)]
  cases herror : (resolver request.path).error.filter (· ≠ "") with
  | some error =>
    refine iff_of_false Bool.false_ne_true fun h => ?_
    rw [h.noError] at herror
    cases herror
  | none =>
    dsimp only
    by_cases hsensitive : (isSensitivePathV2 request.path || isSensitivePathV2 candidate) = true
    · rw [if_pos hsensitive]
      refine iff_of_false Bool.false_ne_true fun h => ?_
      rw [h.notSensitive.1, h.notSensitive.2] at hsensitive
      exact absurd hsensitive (by decide)
    rw [if_neg hsensitive]
    rw [Bool.not_eq_true, Bool.or_eq_false_iff] at hsensitive
    by_cases hinside : isInsideRoot platform policy.filesystem.root candidate = true
    swap
    · rw [if_pos (by simpa using hinside)]
      exact iff_of_false Bool.false_ne_true fun h => hinside h.inside
    rw [if_neg (by simp [hinside])]
    by_cases hsymlink : (resolver request.path).isSymlink = true
    · rw [if_pos hsymlink]
      refine iff_of_false Bool.false_ne_true fun h => ?_
      rw [h.noSymlink] at hsymlink
      exact absurd hsymlink (by decide)
    rw [if_neg hsymlink, decideRulesV2_allowed_iff]
    rw [Bool.not_eq_true] at hsymlink
    exact ⟨fun h => ⟨hnul, herror, hsensitive, hinside, hsymlink, h.1, h.2⟩,
      fun h => ⟨h.notDenied, h.allowed⟩⟩

/-- A rule that the two evaluators may read in different ways on a path: it has wildcards, or one of
the two is the root in another spelling. -/
def ReadDifferently (rule subject : List Char) : Prop :=
  ruleHasGlob (normalizePathValue platform rule) = true ∨ RootAlias platform rule ∨
    RootAlias platform subject

/-- What the first evaluator checks and the second one does not. -/
structure NoGap (policy : SandboxPolicy) (request : PathAccessRequest)
    (resolved : ResolvedSandboxPath) (candidate : List Char) : Prop where
  notSecret : ¬ NamesSecret request.path
  resolves : resolvedDecisionPath resolved ≠ none
  root : ¬ (policy.filesystem.root = ['/'] ∧ RootAlias platform candidate)
  /-- No deny rule that is read differently matches for the first evaluator. -/
  deny : ∀ subject ∈ [candidate, request.path],
    ∀ rule ∈ denyRules request.kind policy.filesystem, ReadDifferently platform rule subject →
      matchesPattern platform rule subject = false
  /-- Where only rules that are read differently allow the path, the first evaluator allows it too. -/
  allow : (∀ rule ∈ allowRules request.kind policy.filesystem,
      matchesRule platform minimatch rule candidate = true → ReadDifferently platform rule candidate) →
    matchesAny platform (allowRules request.kind policy.filesystem) candidate = true

theorem matchesPattern_eq_of_not_readDifferently (h : ¬ ReadDifferently platform rule subject) :
    matchesPattern platform rule subject = matchesRule platform minimatch rule subject := by
  unfold ReadDifferently at h
  rw [not_or, not_or, Bool.not_eq_true] at h
  exact matchesPattern_eq_matchesRule platform minimatch h.1 h.2.1 h.2.2

/-- Deny rules that match for the first evaluator only. -/
theorem matchesAny_deny_iff {rules : List (List Char)}
    (h : matchesAnyV2 platform minimatch rules subject = false) :
    matchesAny platform rules subject = false ↔
      ∀ rule ∈ rules, ReadDifferently platform rule subject →
        matchesPattern platform rule subject = false := by
  unfold matchesAnyV2 at h
  unfold matchesAny
  simp only [List.any_eq_false, Bool.not_eq_true] at h ⊢
  refine ⟨fun hall rule hrule _ => hall rule hrule, fun hall rule hrule => ?_⟩
  by_cases hdifferent : ReadDifferently platform rule subject
  · exact hall rule hrule hdifferent
  · rw [matchesPattern_eq_of_not_readDifferently platform minimatch hdifferent]
    exact h rule hrule

/-- The second evaluator opens no path that the first one denies exactly when the request does not
pass its checks, or falls in none of the gaps. -/
theorem decidePathV2_allowed_imp_iff (policy : SandboxPolicy) (hmode : policy.mode ≠ .off)
    (request : PathAccessRequest) (resolver : SandboxPathResolver) :
    ((decidePathV2 platform minimatch policy request (some resolver)).allowed = true →
        (decidePathAccess platform policy request resolver).allowed = true) ↔
      (PassesV2 platform minimatch policy request (resolver request.path)
          (candidateV2 platform request.path (resolver request.path)) →
        NoGap platform minimatch policy request (resolver request.path)
          (candidateV2 platform request.path (resolver request.path))) := by
  rw [decidePathV2_allowed_iff, decidePathAccess_allowed_iff platform hmode]
  apply forall_congr'
  intro hpasses
  have hallow : matchesAny platform (allowRules request.kind policy.filesystem)
      (candidateV2 platform request.path (resolver request.path)) = true ↔
        ((∀ rule ∈ allowRules request.kind policy.filesystem,
            matchesRule platform minimatch rule
                (candidateV2 platform request.path (resolver request.path)) = true →
              ReadDifferently platform rule
                (candidateV2 platform request.path (resolver request.path))) →
          matchesAny platform (allowRules request.kind policy.filesystem)
            (candidateV2 platform request.path (resolver request.path)) = true) := by
    refine ⟨fun h _ => h, fun h => ?_⟩
    by_contra hnot
    apply hnot
    apply h
    intro rule hrule hmatches
    by_contra hsame
    apply hnot
    refine List.any_eq_true.mpr ⟨rule, hrule, ?_⟩
    rw [matchesPattern_eq_of_not_readDifferently platform minimatch hsame]
    exact hmatches
  constructor
  · rintro ⟨⟨-, hsensitive⟩, -, -, candidate, hcandidate, hinside, hallowed, hdenied, hdeniedPath⟩
    have heq : candidateV2 platform request.path (resolver request.path) = candidate := by
      rw [candidateV2, hcandidate, Option.getD_some]
    rw [heq] at hpasses ⊢
    refine ⟨fun hsecret => ?_, by simp [hcandidate], ?_, ?_, fun _ => hallowed⟩
    · rw [(isSensitivePath_iff).mpr (.inr hsecret)] at hsensitive
      exact absurd hsensitive (by decide)
    · exact (inside_iff_of_isInsideRoot platform hpasses.inside).mp hinside
    · intro subject hsubject
      rcases List.mem_cons.mp hsubject with rfl | hsubject
      · exact (matchesAny_deny_iff platform minimatch hpasses.notDenied.1).mp hdenied
      · rw [List.mem_singleton.mp hsubject]
        exact (matchesAny_deny_iff platform minimatch hpasses.notDenied.2).mp hdeniedPath
  · intro hgap
    obtain ⟨candidate, hcandidate⟩ := Option.ne_none_iff_exists'.mp hgap.resolves
    have heq : candidateV2 platform request.path (resolver request.path) = candidate := by
      rw [candidateV2, hcandidate, Option.getD_some]
    rw [heq] at hpasses hgap hallow
    have hsensitive : isSensitivePath request.path = false := by
      rw [Bool.eq_false_iff, ne_eq, isSensitivePath_iff, hpasses.notSensitive.1]
      simpa using hgap.notSecret
    refine ⟨⟨hpasses.wellFormed, hsensitive⟩, hpasses.noError, hpasses.noSymlink, candidate,
      hcandidate, ?_, hallow.mpr hgap.allow, ?_, ?_⟩
    · exact (inside_iff_of_isInsideRoot platform hpasses.inside).mpr hgap.root
    · exact (matchesAny_deny_iff platform minimatch hpasses.notDenied.1).mpr
        (hgap.deny _ List.mem_cons_self)
    · exact (matchesAny_deny_iff platform minimatch hpasses.notDenied.2).mpr
        (hgap.deny _ (List.mem_cons_of_mem _ (List.mem_singleton_self _)))

end Agreement

/-- A policy that lets the directory `/w` be read, but not `/w/private`. -/
def plainPolicy : SandboxPolicy :=
  { mode := .enforce
    profile := .readonly
    filesystem := ⟨['/', 'w'], [['/', 'w']], [['/', 'w', '/', 'p']], [], [], []⟩
    network := ⟨.none, [], [], []⟩
    process := ⟨false, false⟩ }

/-- The request for a file of the given name, which exists. -/
def readRequest (name : List Char) : PathAccessRequest := ⟨.read, ['/', 'w', '/'] ++ name⟩

def existing : SandboxPathResolver := fun path => { realPath := some path }

/-- A file that is named a secret is opened by the second evaluator only. -/
theorem secretFile_opened :
    ¬ ((decidePathV2 samplePlatform (fun path pattern => path = pattern) plainPolicy
        (readRequest ['s', 'e', 'c', 'r', 'e', 't']) (some existing)).allowed = true →
      (decidePathAccess samplePlatform plainPolicy (readRequest ['s', 'e', 'c', 'r', 'e', 't'])
        existing).allowed = true) := by
  decide +kernel

/-- On a source file the evaluators agree. -/
theorem decidePathV2_allowed_imp_iff_sample :
    plainPolicy.mode ≠ .off ∧
      (((decidePathV2 samplePlatform (fun path pattern => path = pattern) plainPolicy
          (readRequest ['a']) (some existing)).allowed = true →
        (decidePathAccess samplePlatform plainPolicy (readRequest ['a']) existing).allowed = true) ↔
      (PassesV2 samplePlatform (fun path pattern => path = pattern) plainPolicy (readRequest ['a'])
          (existing (readRequest ['a']).path)
          (candidateV2 samplePlatform (readRequest ['a']).path (existing (readRequest ['a']).path)) →
        NoGap samplePlatform (fun path pattern => path = pattern) plainPolicy (readRequest ['a'])
          (existing (readRequest ['a']).path)
          (candidateV2 samplePlatform (readRequest ['a']).path
            (existing (readRequest ['a']).path)))) :=
  ⟨by decide, decidePathV2_allowed_imp_iff samplePlatform (fun path pattern => path = pattern)
    plainPolicy (by decide) (readRequest ['a']) existing⟩

end Sandbox
