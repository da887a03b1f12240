import OmkVerified.CodingAgent.Sandbox.Policy
import OmkVerified.Lib.Forest

/-!
# What a sandbox policy allows

The decisions on paths and hosts in terms of the directories and domains that the rules cover.
-/

namespace Sandbox

open Lib

/-! ## Directories -/

section Directories

variable (platform : Platform)

/-- A path lies in a directory. -/
def Inside (parent child : List Char) : Prop := isInside platform parent child = true

instance (parent child : List Char) : Decidable (Inside platform parent child) :=
  inferInstanceAs (Decidable (_ = true))

theorem inside_iff_below {parent child : List Char} :
    Inside platform parent child ↔
      Below '/' (normalize platform parent) (normalize platform child) := by
  unfold Inside isInside Below
  rw [Bool.or_eq_true, decide_eq_true_iff, List.isPrefixOf_iff_prefix]

theorem isForest_inside : IsForest (Inside platform) := by
  have h := (isForest_below '/').comap (normalize platform)
  simp only [← inside_iff_below] at h
  exact h

theorem matchesPattern_iff {pattern candidate : List Char} :
    matchesPattern platform pattern candidate = true ↔
      Inside platform (stripGlobSuffix pattern) candidate := Iff.rfl

theorem matchesAny_iff {patterns : List (List Char)} {candidate : List Char} :
    matchesAny platform patterns candidate = true ↔
      Covered (Inside platform) (patterns.map stripGlobSuffix) candidate := by
  unfold matchesAny Covered
  rw [List.any_eq_true]
  simp only [matchesPattern_iff, List.mem_map, exists_exists_and_eq_and]

theorem normalize_eq_nil_or (value : List Char) :
    normalize platform value = [] ∨ ∃ rest, normalize platform value = '/' :: rest := by
  unfold normalize
  set resolved := forwardSlashes (resolvePath platform.cwd value) with hresolved
  have hhead : ∃ rest, resolved = '/' :: rest := ⟨_, rfl⟩
  obtain ⟨rest, hrest⟩ := hhead
  obtain ⟨tail, htail⟩ := List.rdropWhile_prefix (fun c : Char => decide (c = '/')) (l := resolved)
  dsimp only
  cases hstem : resolved.rdropWhile (· = '/') with
  | nil =>
    split
    · exact .inr ⟨[], rfl⟩
    · exact .inl rfl
  | cons c stem =>
    rw [hstem, hrest, List.cons_append, List.cons.injEq] at htail
    right
    split
    · exact ⟨stem ++ ['/'], by rw [htail.1, List.cons_append]⟩
    · exact ⟨stem, by rw [htail.1]⟩

theorem inside_of_normalize_eq_nil {parent : List Char} (h : normalize platform parent = [])
    (child : List Char) : Inside platform parent child := by
  rw [inside_iff_below, h]
  rcases normalize_eq_nil_or platform child with hnil | ⟨rest, hcons⟩
  · exact .inl hnil
  · right
    rw [hcons]
    exact ⟨rest, rfl⟩

end Directories

/-! ## Decisions on paths -/

section PathDecisions

/-- The rules that allow an access. -/
def allowRules (kind : PathAccessKind) (fs : FilesystemPolicy) : List (List Char) :=
  match kind with
  | .read => fs.readAllow
  | .write => fs.writeAllow ++ fs.tempWrite

/-- The rules that deny an access. -/
def denyRules (kind : PathAccessKind) (fs : FilesystemPolicy) : List (List Char) :=
  match kind with
  | .read => fs.readDeny
  | .write => fs.denyWrite

/-- The text of a request is neither malformed nor sensitive. -/
def Wholesome (path : List Char) : Prop := '\x00' ∉ path ∧ isSensitivePath path = false

variable (platform : Platform)

/-- When a policy that is on allows an access. -/
theorem decidePathAccess_allowed_iff {policy : SandboxPolicy} (hmode : policy.mode ≠ .off)
    (request : PathAccessRequest) (resolver : SandboxPathResolver) :
    (decidePathAccess platform policy request resolver).allowed = true ↔
      Wholesome request.path ∧ (resolver request.path).error.filter (· ≠ "") = none ∧
        (resolver request.path).isSymlink = false ∧
        ∃ candidate, resolvedDecisionPath (resolver request.path) = some candidate ∧
          Inside platform policy.filesystem.root candidate ∧
          matchesAny platform (allowRules request.kind policy.filesystem) candidate = true ∧
          matchesAny platform (denyRules request.kind policy.filesystem) candidate = false ∧
          matchesAny platform (denyRules request.kind policy.filesystem) request.path = false := by
  unfold decidePathAccess Wholesome
  dsimp only
  rw [if_neg hmode]
  by_cases hnul : '\x00' ∈ request.path
  · rw [if_pos (List.contains_iff_mem.mpr hnul)]
    exact iff_of_false Bool.false_ne_true fun h => h.1.1 hnul
  rw [if_neg fun h => hnul (List.contains_iff_mem.mp h)]
  cases hsensitive : isSensitivePath request.path with
  | true => simp
  | false =>
  cases herror : (resolver request.path).error.filter (· ≠ "") with
  | some error => simp
  | none =>
  cases hcandidate : resolvedDecisionPath (resolver request.path) with
  | none => simp [rootEscaped, hcandidate]
  | some candidate =>
  by_cases hinside : Inside platform policy.filesystem.root candidate
  swap
  · have hescaped : rootEscaped platform policy (resolver request.path) = true := by
      unfold rootEscaped
      rw [hcandidate]
      simpa [Inside] using hinside
    simp [hescaped, hinside]
  have hescaped : rootEscaped platform policy (resolver request.path) = false := by
    unfold rootEscaped
    rw [hcandidate]
    simpa [Inside] using hinside
  cases hsymlink : (resolver request.path).isSymlink with
  | true => simp [hescaped]
  | false =>
  have happend : matchesAny platform (policy.filesystem.writeAllow ++ policy.filesystem.tempWrite)
      candidate = (matchesAny platform policy.filesystem.writeAllow candidate ||
        matchesAny platform policy.filesystem.tempWrite candidate) := List.any_append
  have hwholesome : ∀ p : Prop, (('\x00' ∉ request.path ∧ false = false) ∧
      (none : Option String) = none ∧ false = false ∧
        ∃ other, some candidate = some other ∧
          Inside platform policy.filesystem.root other ∧
          matchesAny platform (allowRules request.kind policy.filesystem) other = true ∧
          matchesAny platform (denyRules request.kind policy.filesystem) other = false ∧ p) ↔
        matchesAny platform (allowRules request.kind policy.filesystem) candidate = true ∧
          matchesAny platform (denyRules request.kind policy.filesystem) candidate = false ∧ p := by
    intro p
    simp [hnul, hinside]
  rw [hwholesome, if_neg Bool.false_ne_true]
  dsimp only
  rw [hescaped, if_neg Bool.false_ne_true, if_neg Bool.false_ne_true, Option.getD_some]
  cases request.kind with
  | read =>
    simp only [allowRules, denyRules]
    cases matchesAny platform policy.filesystem.readDeny candidate <;>
      cases matchesAny platform policy.filesystem.readDeny request.path <;>
      cases matchesAny platform policy.filesystem.readAllow candidate <;>
      simp
  | write =>
    simp only [allowRules, denyRules, happend]
    cases matchesAny platform policy.filesystem.denyWrite candidate <;>
      cases matchesAny platform policy.filesystem.denyWrite request.path <;>
      cases matchesAny platform policy.filesystem.writeAllow candidate <;>
      cases matchesAny platform policy.filesystem.tempWrite candidate <;>
      simp

end PathDecisions

/-! ## A path that no rule mentions -/

section LongPath

variable (platform : Platform)

/-- A file below the root with a long name. -/
def longPath (n : Nat) : List Char := '/' :: List.replicate (n + 1) 'a'

theorem mem_longPath {n : Nat} {c : Char} (h : c ∈ longPath n) : c = '/' ∨ c = 'a' := by
  rcases List.mem_cons.mp h with rfl | h
  · exact .inl rfl
  · exact .inr (List.eq_of_mem_replicate h)

theorem forwardSlashes_longPath (n : Nat) : forwardSlashes (longPath n) = longPath n := by
  unfold forwardSlashes
  conv_rhs => rw [← List.map_id (longPath n)]
  apply List.map_congr_left
  intro c hc
  rcases mem_longPath hc with rfl | rfl <;> decide

theorem normalize_longPath (n : Nat) : normalize platform (longPath n) = longPath n := by
  have hsplit : (List.replicate (n + 1) 'a').splitOn '/' = [List.replicate (n + 1) 'a'] := by
    rw [List.splitOn, List.splitOnP_eq_singleton]
    intro c hc
    rw [List.eq_of_mem_replicate hc]
    decide
  have hsegments : posixSegments (longPath n) = [List.replicate (n + 1) 'a'] := by
    unfold posixSegments longPath
    rw [List.splitOn, List.splitOnP_cons_eq_if_modifyHead, if_pos (by decide), ← List.splitOn, hsplit]
    simp
  have hresolved : resolvePath platform.cwd (longPath n) = longPath n := by
    unfold resolvePath resolveSegments
    rw [hsegments]
    simp [longPath, resolveSegment, absolutePath, List.replicate_succ]
  have hstem : (longPath n).rdropWhile (fun c => decide (c = '/')) = longPath n := by
    rw [List.rdropWhile_eq_self_iff]
    intro hne
    have hlast : (longPath n).getLast hne = 'a' := by
      simp [longPath]
    rw [hlast]
    decide
  unfold normalize
  dsimp only
  rw [hresolved, forwardSlashes_longPath, hstem]
  simp

theorem sensitive_has_letter : ∀ word ∈ sensitiveNames ++ sensitiveWords,
    ∃ c ∈ word.toList, ¬ (c = '/' ∨ c = 'a') := by
  simp [sensitiveNames, sensitiveWords]

theorem wholesome_longPath (n : Nat) : Wholesome (longPath n) := by
  refine ⟨fun hnul => ?_, ?_⟩
  · rcases mem_longPath hnul with h | h <;> exact absurd h (by decide)
  unfold isSensitivePath
  rw [forwardSlashes_longPath, List.any_eq_false]
  intro rest hrest
  have hplain : ∀ c ∈ rest.map Char.toLower, c = '/' ∨ c = 'a' := by
    intro c hc
    obtain ⟨d, hd, rfl⟩ := List.mem_map.mp hc
    have hmem : d ∈ longPath n := by
      rcases List.mem_cons.mp hrest with rfl | hrest
      · exact hd
      · obtain ⟨tail, htail, hsome⟩ := List.mem_filterMap.mp hrest
        split at hsome
        · injection hsome with hsome
          subst hsome
          exact ((List.mem_tails _ _).mp htail).mem (List.mem_cons_of_mem _ hd)
        · cases hsome
    rcases mem_longPath hmem with rfl | rfl <;> decide
  have hnames : ∀ name ∈ sensitiveNames, ¬ rest.map Char.toLower = name.toList := by
    intro name hname heq
    rw [heq] at hplain
    obtain ⟨c, hc, hother⟩ := sensitive_has_letter name (List.mem_append_left _ hname)
    exact hother (hplain c hc)
  have hwords : ∀ word ∈ sensitiveWords, ¬ matchesPart word.toList rest = true := by
    intro word hword hmatch
    obtain ⟨tail, htail, hstarts⟩ := List.any_eq_true.mp hmatch
    obtain ⟨c, hc, hother⟩ := sensitive_has_letter word (List.mem_append_right _ hword)
    exact hother (hplain c
      (((List.mem_tails _ _).mp htail).mem ((List.isPrefixOf_iff_prefix.mp hstarts).mem hc)))
  have hdot : (['.', 'e', 'n', 'v', '.'].isPrefixOf (rest.map Char.toLower)) = false := by
    rw [Bool.eq_false_iff]
    intro hstarts
    have hmem := hplain '.' ((List.isPrefixOf_iff_prefix.mp hstarts).mem List.mem_cons_self)
    exact absurd hmem (by decide)
  have hnone : sensitiveNames.any (fun name => rest.map Char.toLower = name.toList) = false := by
    simpa using hnames
  have hnoword : sensitiveWords.any (fun word => matchesPart word.toList rest) = false := by
    simpa using hwords
  unfold isSensitiveRest
  rw [hnone, hdot, hnoword]
  simp

theorem not_inside_longPath {parent : List Char} {n : Nat} (hne : normalize platform parent ≠ [])
    (hlong : (normalize platform parent).length ≤ n) : ¬ Inside platform parent (longPath n) := by
  rw [inside_iff_below, normalize_longPath]
  have hlength : (longPath n).length = n + 2 := by simp [longPath]
  rintro (heq | hbelow)
  · rw [heq] at hlength
    omega
  · obtain ⟨rest, hrest⟩ := hbelow
    obtain ⟨c, name, hname⟩ := List.exists_cons_of_ne_nil hne
    rw [hname, List.cons_append, List.cons_append, longPath, List.cons.injEq] at hrest
    have hslash : '/' ∈ List.replicate (n + 1) 'a' := by
      rw [← hrest.2]
      simp
    exact absurd (List.eq_of_mem_replicate hslash) (by decide)

theorem exists_wholesome_path {rules : List (List Char)} {place : List Char}
    (h : matchesAny platform rules place = false) :
    ∃ path, Wholesome path ∧ matchesAny platform rules path = false := by
  obtain ⟨n, hn⟩ : ∃ n, ∀ rule ∈ rules, (normalize platform (stripGlobSuffix rule)).length ≤ n := by
    induction rules with
    | nil => exact ⟨0, by simp⟩
    | cons rule rules ih =>
      unfold matchesAny at h ih
      rw [List.any_cons, Bool.or_eq_false_iff] at h
      obtain ⟨n, hn⟩ := ih h.2
      refine ⟨max n (normalize platform (stripGlobSuffix rule)).length, fun other hother => ?_⟩
      rcases List.mem_cons.mp hother with rfl | hother
      · exact le_max_right _ _
      · exact (hn other hother).trans (le_max_left _ _)
  refine ⟨longPath n, wholesome_longPath n, ?_⟩
  rw [Bool.eq_false_iff, ne_eq, matchesAny_iff] at h ⊢
  rintro ⟨directory, hdirectory, hinside⟩
  obtain ⟨rule, hrule, rfl⟩ := List.mem_map.mp hdirectory
  by_cases hnil : normalize platform (stripGlobSuffix rule) = []
  · exact h ⟨_, hdirectory, inside_of_normalize_eq_nil platform hnil place⟩
  · exact not_inside_longPath platform hnil (hn rule hrule) hinside

end LongPath

/-! ## Domains -/

section Domains

variable (platform : Platform)

/-- A host lies in a domain, both in small letters. -/
def InDomain (domain host : List Char) : Prop := host = domain ∨ '.' :: domain <:+ host

theorem inDomain_iff_below {domain host : List Char} :
    InDomain domain host ↔ Below '.' domain.reverse host.reverse := by
  unfold InDomain Below
  rw [← List.reverse_cons, List.reverse_prefix, List.reverse_inj]

theorem isForest_inDomain : IsForest InDomain := by
  have h := (isForest_below '.').comap (List.reverse (α := Char))
  simp only [← inDomain_iff_below] at h
  exact h

theorem hostMatches_iff {patterns : List (List Char)} {host : List Char} :
    hostMatches platform patterns host = true ↔
      Covered InDomain (patterns.map platform.toLowerCase) host := by
  unfold hostMatches Covered InDomain
  rw [List.any_eq_true]
  simp only [Bool.or_eq_true, decide_eq_true_iff, List.isSuffixOf_iff_suffix, List.mem_map,
    exists_exists_and_eq_and]

/-- When a policy that is on allows a request to the network. -/
theorem decideNetworkAccess_allowed_iff {policy : SandboxPolicy} (hmode : policy.mode ≠ .off)
    (request : NetworkAccessRequest) :
    (decideNetworkAccess platform policy request).allowed = true ↔
      request.browser = false ∧ truthy request.unixSocketPath = none ∧
        policy.network.mode ≠ .none ∧
        (request.loopback = true ∨
          ∃ host, truthy (hostFromRequest platform request) = some host ∧
            hostMatches platform policy.network.deniedDomains host = false ∧
            (policy.network.mode = .allExplicit ∨
              policy.network.mode = .domainAllowlist ∧
                hostMatches platform policy.network.allowedDomains host = true)) := by
  unfold decideNetworkAccess
  rw [if_neg hmode]
  cases request.browser with
  | true => simp
  | false =>
  cases truthy request.unixSocketPath with
  | some socket => simp
  | none =>
  cases hnetwork : policy.network.mode <;> cases request.loopback <;>
    cases truthy (hostFromRequest platform request) with
    | none => simp
    | some host =>
      cases hdenied : hostMatches platform policy.network.deniedDomains host <;>
        cases hallowed : hostMatches platform policy.network.allowedDomains host <;>
        simp [hdenied, hallowed]

end Domains

/-- A platform whose hosts are ASCII texts. -/
def samplePlatform : Platform :=
  { cwd := [['w']]
    toLowerCase := List.map Char.toLower
    hostname := fun _ => none
    toLowerCase_small := by
      intro text h
      conv_rhs => rw [← List.map_id text]
      apply List.map_congr_left
      intro c hc
      rcases h c hc with hlower | rfl
      · unfold Char.toLower
        rw [dif_neg]
        · rfl
        · simp only [Char.isLower, Bool.and_eq_true, decide_eq_true_iff] at hlower
          intro hupper
          have h97 : 97 ≤ c.val.toNat := hlower.1
          have h90 : c.val.toNat ≤ 90 := hupper.2
          omega
      · decide }

end Sandbox

/-!
# Overriding a policy

When a policy that is overridden without broadening grants no more than before.
-/

namespace Sandbox

open Lib

section Merge

variable (platform : Platform)

/-! ## The rules that are left -/

/-- An allow rule that is left when a list is overridden. -/
def Kept (base : List (List Char)) (override : Option (List (List Char))) (entry : List Char) : Prop :=
  match override with
  | none => entry ∈ base
  | some override =>
    ∃ candidate ∈ override, ∃ rule ∈ base,
      (entry = candidate ∧ (normalize platform candidate = normalize platform rule ∨
        matchesPattern platform rule candidate = true)) ∨
      (entry = rule ∧ normalize platform candidate ≠ normalize platform rule ∧
        matchesPattern platform rule candidate = false ∧
        matchesPattern platform candidate rule = true)

theorem mem_intersectPair {candidate rule entry : List Char} :
    entry ∈ intersectPair platform candidate rule ↔
      (entry = candidate ∧ (normalize platform candidate = normalize platform rule ∨
        matchesPattern platform rule candidate = true)) ∨
      (entry = rule ∧ normalize platform candidate ≠ normalize platform rule ∧
        matchesPattern platform rule candidate = false ∧
        matchesPattern platform candidate rule = true) := by
  unfold intersectPair
  by_cases hsame : normalize platform candidate = normalize platform rule
  · simp [hsame]
  · rw [if_neg hsame]
    cases hinner : matchesPattern platform rule candidate <;>
      cases houter : matchesPattern platform candidate rule <;> simp [hsame]

theorem mem_intersectOrBase {base : List (List Char)} {override : Option (List (List Char))}
    {entry : List Char} : entry ∈ intersectOrBase platform base override ↔
      Kept platform base override entry := by
  unfold intersectOrBase Kept
  cases override with
  | none => exact Iff.rfl
  | some override =>
    simp only [List.mem_eraseDups, List.mem_flatMap, mem_intersectPair]

theorem mem_union (base : List (List Char)) {override : Option (List (List Char))}
    {entry : List Char} : entry ∈ union base override ↔ entry ∈ base ++ override.getD [] := by
  unfold union
  rw [List.mem_eraseDups]

/-- The root of the overridden policy. -/
def rootOf (base : SandboxPolicy) (override : PartialSandboxPolicy) : List Char :=
  (override.filesystem.map (·.root)).getD base.filesystem.root

/-- An allow rule of the overridden policy. -/
def KeptAllow (kind : PathAccessKind) (base : SandboxPolicy) (override : PartialSandboxPolicy)
    (entry : List Char) : Prop :=
  match kind with
  | .read =>
    Kept platform base.filesystem.readAllow (override.filesystem.map (·.readAllow)) entry
  | .write =>
    Kept platform base.filesystem.writeAllow (override.filesystem.map (·.writeAllow)) entry ∨
      Kept platform base.filesystem.tempWrite (override.filesystem.map (·.tempWrite)) entry

/-- The deny rules of both policies. -/
def allDenyRules (kind : PathAccessKind) (base : SandboxPolicy) (override : PartialSandboxPolicy) :
    List (List Char) :=
  denyRules kind base.filesystem ++ (override.filesystem.map (denyRules kind)).getD []

/-- The deny list of domains of both policies. -/
def allDeniedDomains (base : SandboxPolicy) (override : PartialSandboxPolicy) : List (List Char) :=
  base.network.deniedDomains ++ (override.network.map (·.deniedDomains)).getD []

theorem mem_allowRules_merge {kind : PathAccessKind} {base : SandboxPolicy}
    {override : PartialSandboxPolicy} {entry : List Char} :
    entry ∈ allowRules kind (mergeSandboxPolicy platform base override false).filesystem ↔
      KeptAllow platform kind base override entry := by
  cases kind with
  | read => exact mem_intersectOrBase platform
  | write =>
    simp only [allowRules, mergeSandboxPolicy, mergeAllow, Bool.false_eq_true, if_false,
      List.mem_append, mem_intersectOrBase]
    exact Iff.rfl

theorem mem_denyRules_merge {kind : PathAccessKind} {base : SandboxPolicy}
    {override : PartialSandboxPolicy} {entry : List Char} :
    entry ∈ denyRules kind (mergeSandboxPolicy platform base override false).filesystem ↔
      entry ∈ allDenyRules kind base override := by
  cases kind with
  | read =>
    refine (mem_union base.filesystem.readDeny).trans ?_
    cases hfs : override.filesystem <;> simp [allDenyRules, denyRules, hfs]
  | write =>
    refine (mem_union base.filesystem.denyWrite).trans ?_
    cases hfs : override.filesystem <;> simp [allDenyRules, denyRules, hfs]

/-- What a list of rules matches depends on its members only. -/
theorem matchesAny_congr {patterns patterns' : List (List Char)}
    (h : ∀ entry, entry ∈ patterns ↔ entry ∈ patterns') (candidate : List Char) :
    matchesAny platform patterns candidate = matchesAny platform patterns' candidate := by
  rw [Bool.eq_iff_iff]
  unfold matchesAny
  simp only [List.any_eq_true, h]

/-! ## When nothing is broadened -/

/-- The override, without broadening, allows no path and no host that the base policy denies. -/
def NeverGrantsMore (base : SandboxPolicy) (override : PartialSandboxPolicy) : Prop :=
  (∀ (resolver : SandboxPathResolver) (request : PathAccessRequest),
    (decidePathAccess platform (mergeSandboxPolicy platform base override false) request
      resolver).allowed = true →
        (decidePathAccess platform base request resolver).allowed = true) ∧
  ∀ request : NetworkAccessRequest,
    (decideNetworkAccess platform (mergeSandboxPolicy platform base override false)
      request).allowed = true → (decideNetworkAccess platform base request).allowed = true

/-- The override does not switch the policy off; the places at which its paths start, its root and
the directories of the allow rules that are left, are places that the base policy allows as well,
unless they are denied; and so are the domains that are left. -/
structure Narrows (base : SandboxPolicy) (override : PartialSandboxPolicy) : Prop where
  mode : override.mode ≠ some .off
  paths : ∀ kind place,
    (place = rootOf base override ∨
      ∃ entry, KeptAllow platform kind base override entry ∧ stripGlobSuffix entry = place) →
    Inside platform (rootOf base override) place →
    (∃ entry, KeptAllow platform kind base override entry ∧
      matchesPattern platform entry place = true) →
    matchesAny platform (allDenyRules kind base override) place = false →
    Inside platform base.filesystem.root place ∧
      matchesAny platform (allowRules kind base.filesystem) place = true
  domains : base.network.mode = .domainAllowlist →
    override.network.map (·.mode) ≠ some .none → override.network.map (·.mode) ≠ some .loopback →
    ∀ domain, Kept platform base.network.allowedDomains (override.network.map (·.allowedDomains))
        domain →
      hostMatches platform (allDeniedDomains base override) (platform.toLowerCase domain) = false →
      hostMatches platform base.network.allowedDomains (platform.toLowerCase domain) = true

/-! ## Paths -/

variable {platform} {base : SandboxPolicy} {override : PartialSandboxPolicy}

theorem mode_merge_ne_off (hbase : base.mode ≠ .off) (hmode : override.mode ≠ some .off) :
    (mergeSandboxPolicy platform base override false).mode ≠ .off := by
  show override.mode.getD base.mode ≠ .off
  cases hoverride : override.mode with
  | none => exact hbase
  | some mode =>
    rintro rfl
    exact hmode hoverride

/-- The directories of the allow rules that are left. -/
def allowedDirectories (platform : Platform) (kind : PathAccessKind) (base : SandboxPolicy)
    (override : PartialSandboxPolicy) : List (List Char) :=
  (allowRules kind (mergeSandboxPolicy platform base override false).filesystem).map stripGlobSuffix

theorem covered_allowedDirectories {kind : PathAccessKind} {place : List Char} :
    Covered (Inside platform) (allowedDirectories platform kind base override) place ↔
      ∃ entry, KeptAllow platform kind base override entry ∧
        matchesPattern platform entry place = true := by
  unfold allowedDirectories Covered
  simp only [List.mem_map, exists_exists_and_eq_and, mem_allowRules_merge, matchesPattern_iff]

/-- The base policy allows a place, as far as it is not denied. -/
def AllowsPlace (platform : Platform) (kind : PathAccessKind) (base : SandboxPolicy)
    (place : List Char) : Prop :=
  Inside platform base.filesystem.root place ∧
    matchesAny platform (allowRules kind base.filesystem) place = true

theorem AllowsPlace.of_inside {kind : PathAccessKind} {place child : List Char}
    (h : AllowsPlace platform kind base place) (hinside : Inside platform place child) :
    AllowsPlace platform kind base child := by
  obtain ⟨hroot, hallow⟩ := h
  rw [matchesAny_iff] at hallow
  refine ⟨(isForest_inside platform).trans hroot hinside, ?_⟩
  rw [matchesAny_iff]
  exact (isForest_inside platform).covered_of_rel hallow hinside

/-- What the merged policy allows lies within the base policy when each place does that it
covers. -/
theorem paths_iff_region (hbase : base.mode ≠ .off) (hmode : override.mode ≠ some .off)
    (kind : PathAccessKind) :
    (∀ (resolver : SandboxPathResolver) (path : List Char),
      (decidePathAccess platform (mergeSandboxPolicy platform base override false) ⟨kind, path⟩
        resolver).allowed = true →
          (decidePathAccess platform base ⟨kind, path⟩ resolver).allowed = true) ↔
      ∀ place, Covered (Inside platform) [rootOf base override] place →
        Covered (Inside platform) (allowedDirectories platform kind base override) place →
        ¬ Covered (Inside platform) ((allDenyRules kind base override).map stripGlobSuffix) place →
        AllowsPlace platform kind base place := by
  have hmerged : (mergeSandboxPolicy platform base override false).mode ≠ .off :=
    mode_merge_ne_off hbase hmode
  have hdeny : ∀ candidate, matchesAny platform
      (denyRules kind (mergeSandboxPolicy platform base override false).filesystem) candidate =
        matchesAny platform (allDenyRules kind base override) candidate :=
    matchesAny_congr platform fun _ => mem_denyRules_merge platform
  constructor
  · intro h place hroot hallow hnotDenied
    rw [← matchesAny_iff, Bool.not_eq_true] at hnotDenied
    obtain ⟨path, hwholesome, hpath⟩ := exists_wholesome_path platform hnotDenied
    have hinside : Inside platform (rootOf base override) place := by simpa [Covered] using hroot
    have hdecided := h (fun _ => { realPath := some place }) path
    rw [decidePathAccess_allowed_iff platform hmerged,
      decidePathAccess_allowed_iff platform hbase] at hdecided
    obtain ⟨-, -, -, candidate, hcandidate, hbaseRoot, hallowed, -⟩ :=
      hdecided ⟨hwholesome, rfl, rfl, place, rfl, hinside, (matchesAny_iff platform).mpr hallow,
        (hdeny place).trans hnotDenied, (hdeny path).trans hpath⟩
    cases hcandidate
    exact ⟨hbaseRoot, hallowed⟩
  · intro h resolver path hdecided
    rw [decidePathAccess_allowed_iff platform hmerged] at hdecided
    rw [decidePathAccess_allowed_iff platform hbase]
    obtain ⟨hwholesome, herror, hsymlink, candidate, hcandidate, hinside, hallowed, hplace, hpath⟩ :=
      hdecided
    rw [hdeny] at hplace hpath
    have hnotDenied := hplace
    rw [Bool.eq_false_iff, ne_eq, matchesAny_iff] at hnotDenied
    obtain ⟨hroot, hallow⟩ := h candidate ⟨_, List.mem_singleton_self _, hinside⟩
      ((matchesAny_iff platform).mp hallowed) hnotDenied
    unfold matchesAny allDenyRules at hplace hpath
    rw [List.any_append, Bool.or_eq_false_iff] at hplace hpath
    exact ⟨hwholesome, herror, hsymlink, candidate, hcandidate, hroot, hallow, hplace.1, hpath.1⟩

/-- It is enough to look at the root and at the directories of the allow rules. -/
theorem paths_iff (hbase : base.mode ≠ .off) (hmode : override.mode ≠ some .off)
    (kind : PathAccessKind) :
    (∀ (resolver : SandboxPathResolver) (path : List Char),
      (decidePathAccess platform (mergeSandboxPolicy platform base override false) ⟨kind, path⟩
        resolver).allowed = true →
          (decidePathAccess platform base ⟨kind, path⟩ resolver).allowed = true) ↔
      ∀ place,
        (place = rootOf base override ∨
          ∃ entry, KeptAllow platform kind base override entry ∧ stripGlobSuffix entry = place) →
        Inside platform (rootOf base override) place →
        (∃ entry, KeptAllow platform kind base override entry ∧
          matchesPattern platform entry place = true) →
        matchesAny platform (allDenyRules kind base override) place = false →
        Inside platform base.filesystem.root place ∧
          matchesAny platform (allowRules kind base.filesystem) place = true := by
  rw [paths_iff_region hbase hmode, (isForest_inside platform).region_iff _
    (AllowsPlace platform kind base) fun h => h.of_inside]
  simp only [List.singleton_append, List.mem_cons, allowedDirectories, List.mem_map,
    mem_allowRules_merge]
  apply forall_congr'
  intro place
  rw [← allowedDirectories, covered_allowedDirectories, ← matchesAny_iff, Bool.not_eq_true]
  simp only [Covered, List.mem_singleton, exists_eq_left]
  exact Iff.rfl

/-! ## Hosts -/

/-- A host that no rule mentions, in the domain without a name. -/
def longHost (n : Nat) : List Char := List.replicate n 'a' ++ ['.']

theorem inDomain_longHost {domain : List Char} {n : Nat} (hlong : domain.length ≤ n) :
    InDomain domain (longHost n) ↔ domain = [] := by
  unfold InDomain longHost
  constructor
  · rintro (heq | hsuffix)
    · have hlength := congrArg List.length heq
      simp at hlength
      omega
    · by_contra hne
      obtain ⟨rest, hrest⟩ := hsuffix
      rw [← List.dropLast_append_getLast hne, ← List.cons_append, ← List.append_assoc] at hrest
      have hname := (List.append_inj' hrest rfl).1
      have hdot : '.' ∈ List.replicate n 'a' := by
        rw [← hname]
        simp
      exact absurd (List.eq_of_mem_replicate hdot) (by decide)
  · rintro rfl
    exact .inr (List.suffix_append _ _)

theorem exists_length_le (domains : List (List Char)) : ∃ n, ∀ domain ∈ domains, domain.length ≤ n := by
  refine ⟨(domains.map List.length).sum, fun domain hdomain => ?_⟩
  exact List.single_le_sum (by simp) _ (List.mem_map_of_mem hdomain)

theorem narrowNetworkMode_le (mode : NetworkMode) (narrower : Option NetworkMode) :
    networkRank (narrowNetworkMode mode narrower) ≤ networkRank mode := by
  cases narrower with
  | none => exact le_rfl
  | some narrower =>
    unfold narrowNetworkMode
    dsimp only
    split
    · assumption
    · exact le_rfl

/-- The overridden policy still has a list of allowed domains. -/
theorem narrowNetworkMode_allowlist {narrower : Option NetworkMode} (hnone : narrower ≠ some .none)
    (hloopback : narrower ≠ some .loopback) :
    narrowNetworkMode .domainAllowlist narrower = .domainAllowlist := by
  cases narrower with
  | none => rfl
  | some narrower => cases narrower <;> first | rfl | contradiction

theorem mem_deniedDomains_merge {domain : List Char} :
    domain ∈ (mergeSandboxPolicy platform base override false).network.deniedDomains ↔
      domain ∈ allDeniedDomains base override := by
  refine (mem_union base.network.deniedDomains).trans ?_
  cases hnetwork : override.network <;> simp [allDeniedDomains, hnetwork]

theorem hostMatches_congr {patterns patterns' : List (List Char)}
    (h : ∀ entry, entry ∈ patterns ↔ entry ∈ patterns') (host : List Char) :
    hostMatches platform patterns host = hostMatches platform patterns' host := by
  rw [Bool.eq_iff_iff]
  unfold hostMatches
  simp only [List.any_eq_true, h]

/-- A domain is left that the base policy denies or allows as a whole. -/
theorem hosts_iff (hbase : base.mode ≠ .off) (hmode : override.mode ≠ some .off) :
    (∀ request : NetworkAccessRequest,
      (decideNetworkAccess platform (mergeSandboxPolicy platform base override false)
        request).allowed = true → (decideNetworkAccess platform base request).allowed = true) ↔
      (base.network.mode = .domainAllowlist →
        override.network.map (·.mode) ≠ some .none →
        override.network.map (·.mode) ≠ some .loopback →
        ∀ domain, Kept platform base.network.allowedDomains
            (override.network.map (·.allowedDomains)) domain →
          hostMatches platform (allDeniedDomains base override) (platform.toLowerCase domain) = false →
          hostMatches platform base.network.allowedDomains (platform.toLowerCase domain) = true) := by
  have hmerged : (mergeSandboxPolicy platform base override false).mode ≠ .off :=
    mode_merge_ne_off hbase hmode
  have hdeny : ∀ host, hostMatches platform
      (mergeSandboxPolicy platform base override false).network.deniedDomains host =
        hostMatches platform (allDeniedDomains base override) host :=
    hostMatches_congr fun _ => mem_deniedDomains_merge
  have hkept : ∀ domain,
      domain ∈ (mergeSandboxPolicy platform base override false).network.allowedDomains ↔
        Kept platform base.network.allowedDomains (override.network.map (·.allowedDomains)) domain :=
    fun _ => mem_intersectOrBase platform
  constructor
  · intro h hallowlist hnone hloopback domain hdomain hnotDenied
    have hnetwork : (mergeSandboxPolicy platform base override false).network.mode =
        .domainAllowlist := by
      show narrowNetworkMode base.network.mode (override.network.map (·.mode)) = _
      rw [hallowlist]
      exact narrowNetworkMode_allowlist hnone hloopback
    -- a host of the domain that is asked for by name
    have hask : ∀ name : List Char, name ≠ [] → platform.toLowerCase name ≠ [] →
        InDomain (platform.toLowerCase domain) (platform.toLowerCase name) →
        hostMatches platform (allDeniedDomains base override) (platform.toLowerCase name) = false →
        hostMatches platform base.network.allowedDomains (platform.toLowerCase name) = true := by
      intro name hname hlower hin hfree
      have hhost : truthy (hostFromRequest platform { host := some name }) =
          some (platform.toLowerCase name) := by
        simp [hostFromRequest, truthy, Option.filter, hname, hlower]
      have hdecided := h { host := some name }
      rw [decideNetworkAccess_allowed_iff platform hmerged,
        decideNetworkAccess_allowed_iff platform hbase, hnetwork, hallowlist] at hdecided
      obtain ⟨-, -, -, hfalse | ⟨host, hsome, -, hexplicit | ⟨-, hmatches⟩⟩⟩ :=
        hdecided ⟨rfl, rfl, by decide, .inr ⟨_, hhost, (hdeny _).trans hfree, .inr ⟨rfl,
          (hostMatches_iff platform).mpr
            ⟨_, List.mem_map_of_mem ((hkept domain).mpr hdomain), hin⟩⟩⟩⟩
      · exact absurd hfalse Bool.false_ne_true
      · exact absurd hexplicit (by decide)
      · rw [hhost] at hsome
        cases hsome
        exact hmatches
    by_cases hempty : platform.toLowerCase domain = []
    · -- the domain without a name has no host of its own, so a long one is taken
      obtain ⟨n, hn⟩ := exists_length_le ((allDeniedDomains base override ++
        base.network.allowedDomains).map platform.toLowerCase)
      have hlower : platform.toLowerCase (longHost n) = longHost n := by
        apply platform.toLowerCase_small
        intro c hc
        rcases List.mem_append.mp hc with hc | hc
        · rw [List.eq_of_mem_replicate hc]
          exact .inl (by decide)
        · exact .inr (List.mem_singleton.mp hc)
      have hne : longHost n ≠ [] := by simp [longHost]
      have hask' := hask (longHost n) hne (by rwa [hlower])
      rw [hlower] at hask'
      have hshort : ∀ patterns ⊆ allDeniedDomains base override ++ base.network.allowedDomains,
          hostMatches platform patterns (longHost n) = true →
            hostMatches platform patterns [] = true := by
        intro patterns hsubset hmatches
        rw [hostMatches_iff] at hmatches ⊢
        obtain ⟨lower, hmem, hin⟩ := hmatches
        obtain ⟨pattern, hpattern, rfl⟩ := List.mem_map.mp hmem
        have hlong := hn _ (List.mem_map_of_mem (hsubset hpattern))
        rw [inDomain_longHost hlong] at hin
        exact ⟨_, hmem, .inl hin.symm⟩
      rw [hempty] at hnotDenied hask' ⊢
      apply hshort _ (List.subset_append_right _ _)
      apply hask' ((inDomain_longHost (Nat.zero_le n)).mpr rfl)
      rw [Bool.eq_false_iff]
      intro hdenied
      rw [hshort _ (List.subset_append_left _ _) hdenied] at hnotDenied
      exact absurd hnotDenied (by decide)
    · have hne : domain ≠ [] := by
        rintro rfl
        exact hempty (platform.toLowerCase_small [] (by simp))
      exact hask domain hne hempty (isForest_inDomain.refl _) hnotDenied
  · intro h request hdecided
    rw [decideNetworkAccess_allowed_iff platform hmerged] at hdecided
    rw [decideNetworkAccess_allowed_iff platform hbase]
    obtain ⟨hbrowser, hsocket, hnone, hallowed⟩ := hdecided
    have hrank := narrowNetworkMode_le base.network.mode (override.network.map (·.mode))
    have hmode : (mergeSandboxPolicy platform base override false).network.mode =
        narrowNetworkMode base.network.mode (override.network.map (·.mode)) := rfl
    rw [← hmode] at hrank
    refine ⟨hbrowser, hsocket, ?_, ?_⟩
    · intro hbaseNone
      rw [hbaseNone] at hrank
      apply hnone
      revert hrank
      generalize (mergeSandboxPolicy platform base override false).network.mode = mode
      cases mode <;> decide
    · rcases hallowed with hloopback | ⟨host, hhost, hfree, hmatches⟩
      · exact .inl hloopback
      · rw [hdeny] at hfree
        have hboth := hfree
        unfold hostMatches allDeniedDomains at hboth
        rw [List.any_append, Bool.or_eq_false_iff] at hboth
        refine .inr ⟨host, hhost, hboth.1, ?_⟩
        cases hbaseMode : base.network.mode with
        | allExplicit => exact .inl rfl
        | none =>
          rw [hbaseMode] at hrank
          rcases hmatches with heq | ⟨heq, -⟩ <;> rw [heq] at hrank <;>
            exact absurd hrank (by decide)
        | loopback =>
          rw [hbaseMode] at hrank
          rcases hmatches with heq | ⟨heq, -⟩ <;> rw [heq] at hrank <;>
            exact absurd hrank (by decide)
        | domainAllowlist =>
          refine .inr ⟨rfl, ?_⟩
          rw [hbaseMode] at hrank hmode
          rcases hmatches with heq | ⟨heq, hmatches⟩
          · rw [heq] at hrank
            exact absurd hrank (by decide)
          · rw [hostMatches_iff] at hmatches
            obtain ⟨lower, hmem, hin⟩ := hmatches
            obtain ⟨domain, hdomain, rfl⟩ := List.mem_map.mp hmem
            have hnotDenied : hostMatches platform (allDeniedDomains base override)
                (platform.toLowerCase domain) = false := by
              rw [Bool.eq_false_iff, ne_eq, hostMatches_iff] at hfree ⊢
              exact fun hdenied => hfree (isForest_inDomain.covered_of_rel hdenied hin)
            have hbaseAllows := h hbaseMode
              (fun hover => by rw [hmode, hover] at heq; exact absurd heq (by decide))
              (fun hover => by rw [hmode, hover] at heq; exact absurd heq (by decide))
              domain ((hkept domain).mp hdomain) hnotDenied
            rw [hostMatches_iff] at hbaseAllows ⊢
            exact isForest_inDomain.covered_of_rel hbaseAllows hin

/-! ## The merged policy -/

/-- Overriding without broadening grants no more exactly when the base policy is off or the
override narrows. -/
theorem neverGrantsMore_iff (platform : Platform) (base : SandboxPolicy)
    (override : PartialSandboxPolicy) :
    NeverGrantsMore platform base override ↔
      base.mode = .off ∨ Narrows platform base override := by
  by_cases hbase : base.mode = .off
  · refine iff_of_true ⟨fun resolver request _ => ?_, fun request _ => ?_⟩ (.inl hbase)
    · simp [decidePathAccess, hbase]
    · simp [decideNetworkAccess, hbase]
  by_cases hmode : override.mode = some .off
  · refine iff_of_false (fun h => ?_) fun h => ?_
    · -- a policy that is switched off allows a malformed path
      have hdecided := h.1 (fun _ => {}) ⟨.read, ['\x00']⟩ <| by
        simp [decidePathAccess, mergeSandboxPolicy, hmode]
      simp [decidePathAccess, hbase] at hdecided
    · rcases h with h | h
      · exact hbase h
      · exact h.mode hmode
  constructor
  · intro h
    refine .inr ⟨hmode, fun kind => ?_, (hosts_iff hbase hmode).mp h.2⟩
    exact (paths_iff hbase hmode kind).mp fun resolver path => h.1 resolver ⟨kind, path⟩
  · rintro (h | h)
    · exact absurd h hbase
    · refine ⟨fun resolver request => ?_, (hosts_iff hbase hmode).mpr h.domains⟩
      exact (paths_iff hbase hmode request.kind).mpr (h.paths request.kind) resolver request.path

end Merge

/-- A policy that lets nothing but the directory `/w` be read. -/
def samplePolicy : SandboxPolicy :=
  { mode := .enforce
    profile := .readonly
    filesystem := ⟨['/', 'w'], [['/', 'w', '/', '*', '*']], [], [], [], []⟩
    network := ⟨.none, [], [], []⟩
    process := ⟨false, false⟩ }

/-- An override that switches the sandbox off grants everything. -/
theorem overridden_mode_grantsMore :
    ¬ NeverGrantsMore samplePlatform samplePolicy { mode := some .off } := by
  intro h
  have hdecided := h.2 { browser := true } (by decide +kernel)
  exact absurd hdecided (by decide +kernel)

end Sandbox
