import OmkVerified.CodingAgent.Session.Proofs.PathPolicyProofs

/-!
# Access to session files

The chain of an authorized access goes down from the root to the target one segment at a time, once along the paths as
they are written and once along the real paths.
-/

namespace CodingAgent.SessionPathPolicy

variable {toLowerCase : List Char → List Char} {platform : SessionPathPlatform} {raw key : List Char}
  {parts root target realRoot realTarget : CanonicalParts} {input : SessionPathAccessInput}
  {evidence : SessionPathEvidence} {decision : SessionPathDecision}

/-! ## Comparing canonical paths -/

/-- The segments as the platform compares them. -/
def CanonicalParts.folded (toLowerCase : List Char → List Char) (platform : SessionPathPlatform)
    (parts : CanonicalParts) : List (List Char) :=
  parts.segments.map (fold toLowerCase platform)

theorem CanonicalParts.length_folded (parts : CanonicalParts) :
    (parts.folded toLowerCase platform).length = parts.segments.length :=
  List.length_map _

/-- The path with the first `depth` segments of the other, as the platform compares them. -/
structure CanonicalParts.Upto (toLowerCase : List Char → List Char) (platform : SessionPathPlatform)
    (parts : CanonicalParts) (depth : Nat) (whole : CanonicalParts) : Prop where
  drive : parts.drive = whole.drive
  segments : parts.folded toLowerCase platform = (whole.folded toLowerCase platform).take depth

/-- Two canonical paths that the platform takes for one. -/
structure CanonicalParts.Same (toLowerCase : List Char → List Char) (platform : SessionPathPlatform)
    (left right : CanonicalParts) : Prop where
  drive : left.drive = right.drive
  segments : left.folded toLowerCase platform = right.folded toLowerCase platform

theorem same_of_begin {left right : CanonicalParts} (hdrive : left.drive = right.drive)
    (hlength : left.segments.length = right.segments.length)
    (h : segmentsBegin toLowerCase platform left.segments right.segments = true) :
    left.Same toLowerCase platform right :=
  ⟨hdrive, ((segmentsBegin_iff _ _).mp h).eq_of_length (by rw [List.length_map, List.length_map, hlength])⟩

theorem same_of_canonicalPathEqual {a b : Option (List Char)}
    (h : canonicalPathEqual toLowerCase a b platform = true) :
    ∃ left right, a.bind (parseCanonical · platform) = some left ∧ b.bind (parseCanonical · platform) = some right ∧
      left.Same toLowerCase platform right := by
  unfold canonicalPathEqual at h
  split at h
  · next left right hleft hright =>
    split_ifs at h with hdrive hlength
    rw [Decidable.not_not] at hdrive hlength
    exact ⟨left, right, hleft, hright, same_of_begin hdrive hlength h⟩
  · cases h

theorem same_of_texts {left right : CanonicalParts} {a : Option (List Char)} {b : List Char}
    (hleft : a.bind (parseCanonical · platform) = some left) (hright : parseCanonical b platform = some right)
    (h : canonicalPathEqual toLowerCase a (some b) platform = true) : left.Same toLowerCase platform right := by
  obtain ⟨left', right', hleft', hright', hsame⟩ := same_of_canonicalPathEqual h
  rw [hleft, Option.some.injEq] at hleft'
  rw [Option.bind_some, hright, Option.some.injEq] at hright'
  rwa [hleft', hright']

/-- One path is a direct child of the other. -/
theorem upto_of_isDirectChild {parent child : CanonicalParts} {parentText childText : List Char}
    (hparent : parseCanonical parentText platform = some parent)
    (hchild : parseCanonical childText platform = some child)
    (h : isDirectChild toLowerCase parentText childText platform = true) :
    child.segments.length = parent.segments.length + 1 ∧
      parent.Upto toLowerCase platform parent.segments.length child := by
  unfold isDirectChild at h
  rw [hparent, hchild] at h
  dsimp only at h
  split_ifs at h with hdrive hlength
  rw [Decidable.not_not] at hdrive hlength
  have hprefix := List.prefix_iff_eq_take.mp ((segmentsBegin_iff _ _).mp h)
  rw [List.length_map] at hprefix
  exact ⟨hlength, hdrive, hprefix⟩

theorem classifyTarget_eq_inside {rootText targetText : List Char}
    (hroot : parseCanonical rootText platform = some root) (htarget : parseCanonical targetText platform = some target)
    (h : classifyTarget toLowerCase rootText targetText platform = .inside) :
    root.Above toLowerCase platform target ∧ root.segments.length < target.segments.length := by
  unfold classifyTarget at h
  rw [hroot, htarget] at h
  dsimp only at h
  split_ifs at h with hoff hsame
  have habove : root.Above toLowerCase platform target := by
    rw [← partsContain_iff]
    simpa using hoff
  refine ⟨habove, lt_of_le_of_ne ?_ ?_⟩
  · have hle := habove.segments.length_le
    rwa [List.length_map, List.length_map] at hle
  · intro hlength
    rw [habove.drive, hlength, decide_eq_true rfl, decide_eq_true rfl, Bool.and_true] at hsame
    exact hsame rfl

/-! ## The chain -/

/-- The text names the path with the first `depth` segments of the other. -/
def Reaches (toLowerCase : List Char → List Char) (platform : SessionPathPlatform) (raw : List Char) (depth : Nat)
    (whole : CanonicalParts) : Prop :=
  ∃ parts, Names toLowerCase platform raw parts ∧ parts.Upto toLowerCase platform depth whole

/-- What the loop has checked of a chain that goes down to `last`, with the path of its first entry. -/
structure Descends (toLowerCase : List Char → List Char) (platform : SessionPathPlatform)
    (path : SessionPathChainEntry → List Char) (chain : List SessionPathChainEntry) (first last : CanonicalParts) :
    Prop where
  length : first.segments.length + chain.length = last.segments.length + 1
  upto : first.Upto toLowerCase platform first.segments.length last
  reaches : ∀ i (h : i < chain.length), Reaches toLowerCase platform (path chain[i]) (first.segments.length + i) last

variable {path : SessionPathChainEntry → List Char} {entry : SessionPathChainEntry}
  {chain : List SessionPathChainEntry} {first next last : CanonicalParts}

theorem CanonicalParts.Upto.refl (parts : CanonicalParts) :
    parts.Upto toLowerCase platform parts.segments.length parts := by
  have hlength : (parts.folded toLowerCase platform).length = parts.segments.length := parts.length_folded
  exact ⟨rfl, by rw [← hlength, List.take_length]⟩

/-- The parent of a path on the way is on the way. -/
theorem CanonicalParts.Upto.parent (h : first.Upto toLowerCase platform first.segments.length next)
    (hnext : next.Upto toLowerCase platform next.segments.length last)
    (hlength : next.segments.length = first.segments.length + 1) :
    first.Upto toLowerCase platform first.segments.length last := by
  refine ⟨h.drive.trans hnext.drive, ?_⟩
  rw [h.segments, hnext.segments, List.take_take, hlength, Nat.min_eq_left (Nat.le_succ _)]

theorem Descends.single (h : Names toLowerCase platform (path entry) last) :
    Descends toLowerCase platform path [entry] last last where
  length := rfl
  upto := .refl last
  reaches := by
    intro i hi
    obtain rfl : i = 0 := by
      rw [List.length_singleton] at hi
      omega
    exact ⟨last, h, .refl last⟩

theorem Descends.cons (h : Descends toLowerCase platform path chain next last)
    (hfirst : Names toLowerCase platform (path entry) first)
    (hlength : next.segments.length = first.segments.length + 1)
    (hupto : first.Upto toLowerCase platform first.segments.length next) :
    Descends toLowerCase platform path (entry :: chain) first last where
  length := by
    have hchain := h.length
    rw [List.length_cons]
    omega
  upto := hupto.parent h.upto hlength
  reaches := by
    intro i hi
    cases i with
    | zero => exact ⟨first, hfirst, hupto.parent h.upto hlength⟩
    | succ i =>
      rw [List.length_cons, Nat.add_lt_add_iff_right] at hi
      have hreaches := h.reaches i hi
      rw [hlength, Nat.add_right_comm] at hreaches
      exact hreaches

theorem Descends.same (h : Descends toLowerCase platform path chain first last)
    (hsame : last.Same toLowerCase platform next) : Descends toLowerCase platform path chain first next where
  length := by
    have hlength := congrArg List.length hsame.segments
    rw [CanonicalParts.length_folded, CanonicalParts.length_folded] at hlength
    rw [h.length, hlength]
  upto := ⟨h.upto.drive.trans hsame.drive, hsame.segments ▸ h.upto.segments⟩
  reaches := by
    intro i hi
    obtain ⟨parts, hnames, hupto⟩ := h.reaches i hi
    exact ⟨parts, hnames, hupto.drive.trans hsame.drive, hsame.segments ▸ hupto.segments⟩

/-- A chain that the loop accepts: it has no links and goes down one segment at a time, in both its readings. -/
structure Bound (toLowerCase : List Char → List Char) (platform : SessionPathPlatform)
    (chain : List SessionPathChainEntry) (lexical real lastLexical lastReal : CanonicalParts) : Prop where
  links : ∀ entry ∈ chain, entry.linkKind = .none
  lexical : Descends toLowerCase platform SessionPathChainEntry.lexical chain lexical lastLexical
  real : Descends toLowerCase platform SessionPathChainEntry.realpath chain real lastReal

/-- What the loop checks of one entry. -/
theorem bindEntries_cons {rootParts : CanonicalParts} {index : Nat} {prevLexical prevReal : List Char}
    (h : bindEntries toLowerCase rootParts platform index prevLexical prevReal (entry :: chain) = none) :
    entry.linkKind = .none ∧ ∃ lexical real, Names toLowerCase platform entry.lexical lexical ∧
      Names toLowerCase platform entry.realpath real ∧
      (index > 0 → isDirectChild toLowerCase prevLexical lexical.text platform = true ∧
        isDirectChild toLowerCase prevReal real.text platform = true) ∧
      bindEntries toLowerCase rootParts platform (index + 1) lexical.text real.text chain = none := by
  unfold bindEntries at h
  split_ifs at h with hlink
  rw [Decidable.not_not] at hlink
  split at h
  · next lexicalText realText hlexical hreal =>
    obtain ⟨lexical, hlexicalNames, rfl⟩ := Names.of_eq_some hlexical
    obtain ⟨real, hrealNames, rfl⟩ := Names.of_eq_some hreal
    rw [parseCanonical_text hlexicalNames.canonical, parseCanonical_text hrealNames.canonical] at h
    dsimp only at h
    split_ifs at h with hbelow hrealBelow hchild hrealChild
    refine ⟨hlink, lexical, real, hlexicalNames, hrealNames, fun hpos => ?_, h⟩
    rw [decide_eq_true hpos, Bool.true_and, Bool.not_eq_true', Bool.not_eq_false] at hchild hrealChild
    exact ⟨hchild, hrealChild⟩
  · cases h

/-- The loop accepts bound chains only. -/
theorem bound_of_bindEntries {rootParts : CanonicalParts} {index : Nat} {prevLexical prevReal : List Char}
    (h : bindEntries toLowerCase rootParts platform index prevLexical prevReal (entry :: chain) = none) :
    ∃ lexical real lastLexical lastReal, Bound toLowerCase platform (entry :: chain) lexical real lastLexical lastReal ∧
      Names toLowerCase platform entry.lexical lexical ∧ Names toLowerCase platform entry.realpath real ∧
      Names toLowerCase platform ((entry :: chain).getLast (List.cons_ne_nil entry chain)).lexical lastLexical ∧
      Names toLowerCase platform ((entry :: chain).getLast (List.cons_ne_nil entry chain)).realpath lastReal := by
  induction chain generalizing entry index prevLexical prevReal with
  | nil =>
    obtain ⟨hlink, lexical, real, hlexical, hreal, -, -⟩ := bindEntries_cons h
    have hlinks : ∀ found ∈ [entry], found.linkKind = .none := fun found hmem => List.mem_singleton.mp hmem ▸ hlink
    exact ⟨lexical, real, lexical, real, ⟨hlinks, .single hlexical, .single hreal⟩, hlexical, hreal, hlexical, hreal⟩
  | cons second chain ih =>
    obtain ⟨hlink, lexical, real, hlexical, hreal, -, hrest⟩ := bindEntries_cons h
    obtain ⟨-, nextLexical, nextReal, hnextLexical, hnextReal, hchild, -⟩ := bindEntries_cons hrest
    obtain ⟨foundLexical, foundReal, lastLexical, lastReal, hbound, hfoundLexical, hfoundReal, hlastLexical, hlastReal⟩ :=
      ih hrest
    obtain ⟨hchildLexical, hchildReal⟩ := hchild (Nat.succ_pos index)
    have hsameLexical := hnextLexical.unique hfoundLexical
    have hsameReal := hnextReal.unique hfoundReal
    subst hsameLexical hsameReal
    obtain ⟨hlengthLexical, huptoLexical⟩ := upto_of_isDirectChild (parseCanonical_text hlexical.canonical)
      (parseCanonical_text hnextLexical.canonical) hchildLexical
    obtain ⟨hlengthReal, huptoReal⟩ := upto_of_isDirectChild (parseCanonical_text hreal.canonical)
      (parseCanonical_text hnextReal.canonical) hchildReal
    rw [List.getLast_cons (List.cons_ne_nil second chain)]
    refine ⟨lexical, real, lastLexical, lastReal, ⟨?_, ?_, ?_⟩, hlexical, hreal, hlastLexical, hlastReal⟩
    · exact List.forall_mem_cons.mpr ⟨hlink, hbound.links⟩
    · exact hbound.lexical.cons hlexical hlengthLexical huptoLexical
    · exact hbound.real.cons hreal hlengthReal huptoReal

/-- What `bindChain` accepts, of a root and a target that are canonical in both readings. -/
theorem bindChain_eq_none (hroot : root.Canonical toLowerCase platform) (hrealRoot : realRoot.Canonical toLowerCase platform)
    (htarget : target.Canonical toLowerCase platform) (hrealTarget : realTarget.Canonical toLowerCase platform)
    (h : bindChain toLowerCase evidence root.text realRoot.text target.text realTarget.text platform = none) :
    root.Same toLowerCase platform realRoot ∧
      ∃ lexical real, lexical.Same toLowerCase platform root ∧ real.Same toLowerCase platform realRoot ∧
        Bound toLowerCase platform evidence.chain lexical real target realTarget := by
  unfold bindChain at h
  split_ifs at h with hsame
  rw [Bool.not_eq_true', Bool.not_eq_false] at hsame
  obtain ⟨left, right, hleft, hright, hroots⟩ := same_of_canonicalPathEqual hsame
  rw [Option.bind_some, parseCanonical_text hroot, Option.some.injEq] at hleft
  rw [Option.bind_some, parseCanonical_text hrealRoot, Option.some.injEq] at hright
  subst hleft hright
  rw [parseCanonical_text hroot, parseCanonical_text htarget] at h
  dsimp only at h
  split_ifs at h with hlength
  cases hchain : evidence.chain with
  | nil =>
    rw [hchain] at h
    cases h
  | cons entry chain =>
    rw [hchain, List.head?_cons, List.getLast?_eq_some_getLast (List.cons_ne_nil entry chain)] at h
    dsimp only at h
    split at h
    · next firstLexical firstReal hfirstLexical hfirstReal =>
      split_ifs at h with hfirst hlast
      rw [Bool.or_eq_true, Bool.not_eq_true', Bool.not_eq_true', not_or, Bool.not_eq_false, Bool.not_eq_false]
        at hfirst hlast
      obtain ⟨lexical, real, lastLexical, lastReal, hbound, hlexical, hreal, hlastLexical, hlastReal⟩ :=
        bound_of_bindEntries h
      refine ⟨hroots, lexical, real, ?_, ?_, hbound.links, hbound.lexical.same ?_, hbound.real.same ?_⟩
      · exact same_of_texts (hfirstLexical ▸ hlexical.parsed) (parseCanonical_text hroot) hfirst.1
      · exact same_of_texts (hfirstReal ▸ hreal.parsed) (parseCanonical_text hrealRoot) hfirst.2
      · exact same_of_texts hlastLexical.parsed (parseCanonical_text htarget) hlast.1
      · exact same_of_texts hlastReal.parsed (parseCanonical_text hrealTarget) hlast.2
    · cases h

/-- A lock that does not stand in the way: none, or one whose holder is gone from this host. -/
inductive SessionPathLockEvidence.Open (lock : SessionPathLockEvidence) : Prop
  | absent (state : lock.state = .absent) (holder : lock.holderPid = none)
  | stale (state : lock.state = .stale) (sameHost : lock.sameHost = true) (gone : lock.pidDefinitelyAbsent = true)
      (holder : lock.holderPid.isSome = true)

theorem open_of_evaluateLock {lock : SessionPathLockEvidence} (h : evaluateLock lock = none) : lock.Open := by
  unfold evaluateLock at h
  split at h
  · next hstate =>
    split_ifs at h with habsent
    rw [Bool.and_eq_true, Option.isNone_iff_eq_none] at habsent
    exact .absent hstate habsent.1
  · split_ifs at h
  · split_ifs at h
  · next hstate =>
    split_ifs at h with hstale
    rw [Bool.and_eq_true, Bool.and_eq_true] at hstale
    exact .stale hstate hstale.1.1 hstale.2 hstale.1.2
  · cases h

/-- What the observations of an authorized access show, for the canonical paths of the root and of the target as they
are written and as they really are. -/
structure Shown (toLowerCase : List Char → List Char) (input : SessionPathAccessInput)
    (root target realRoot realTarget : CanonicalParts) : Prop where
  namesRoot : Names toLowerCase input.platform input.root root
  namesTarget : Names toLowerCase input.platform input.target target
  namesRealRoot : Names toLowerCase input.platform input.evidence.trustedRootRealpath realRoot
  namesRealTarget : Names toLowerCase input.platform input.evidence.target.realpath realTarget
  sameRoot : root.Same toLowerCase input.platform realRoot
  inside : root.Above toLowerCase input.platform target ∧ root.segments.length < target.segments.length
  realInside : root.Above toLowerCase input.platform realTarget ∧
    realTarget.segments.length = target.segments.length
  depth : root.segments.length + input.evidence.chain.length = target.segments.length + 1
  links : ∀ entry ∈ input.evidence.chain, entry.linkKind = .none
  lexicalChain : ∀ i (h : i < input.evidence.chain.length),
    Reaches toLowerCase input.platform input.evidence.chain[i].lexical (root.segments.length + i) target
  realChain : ∀ i (h : i < input.evidence.chain.length),
    Reaches toLowerCase input.platform input.evidence.chain[i].realpath (root.segments.length + i) realTarget
  regular : input.evidence.statBefore.regular = true
  single : input.evidence.statBefore.nlink = 1
  unchanged : input.evidence.statAfter = some input.evidence.statBefore
  lock : ∃ lock, input.lock = some lock ∧ lock.Open

/-- The decision lets the caller read or repair the file. -/
def SessionPathDecision.Grants (decision : SessionPathDecision) : Prop :=
  decision.status = .authorized ∨ decision.capabilities.canReadContents = true ∨ decision.capabilities.canRepair = true

theorem not_grants_blocked (intent : SessionPathIntent) (reason : SessionPathReason)
    (classification : SessionPathClassification) :
    ¬ (blocked platform intent reason evidence classification).Grants := by
  rintro (h | h | h) <;> cases h

theorem not_grants_rejected (intent : SessionPathIntent) (reason : SessionPathReason)
    (classification : SessionPathClassification) :
    ¬ (rejected platform intent reason evidence classification).Grants := by
  rintro (h | h | h) <;> cases h

theorem not_grants_metadataOnly (intent : SessionPathIntent) (classification : SessionPathClassification) :
    ¬ (metadataOnly platform intent evidence classification).Grants := by
  rintro (h | h | h) <;> cases h

/-- The file that was opened is one regular file that did not change, and no lock stands in the way. -/
structure OpenedFile (evidence : SessionPathEvidence) (lock : SessionPathLockEvidence) : Prop where
  regular : evidence.statBefore.regular = true
  single : evidence.statBefore.nlink = 1
  unchanged : evidence.statAfter = some evidence.statBefore
  lock : lock.Open

theorem openedFile_of_grants {identity : SessionPathIdentity} {lock : SessionPathLockEvidence}
    (h : (decideOpened input identity lock).Grants) : OpenedFile input.evidence lock := by
  unfold decideOpened at h
  dsimp only at h
  split_ifs at h with hregular hnlink howner hopened hafter
  · exact absurd h (not_grants_blocked _ _ _)
  · exact absurd h (not_grants_blocked _ _ _)
  · exact absurd h (not_grants_blocked _ _ _)
  · exact absurd h (not_grants_blocked _ _ _)
  · exact absurd h (not_grants_blocked _ _ _)
  · rw [Bool.not_eq_true', Bool.not_eq_false] at hregular
    rw [Decidable.not_not] at hnlink hafter
    split at h
    · exact absurd h (not_grants_blocked _ _ _)
    · next hlock =>
      exact ⟨hregular, hnlink, hafter, open_of_evaluateLock hlock⟩

theorem shown_of_decideCanonical (hroot : Names toLowerCase input.platform input.root root)
    (htarget : Names toLowerCase input.platform input.target target)
    (hrealRoot : Names toLowerCase input.platform input.evidence.trustedRootRealpath realRoot)
    (hrealTarget : Names toLowerCase input.platform input.evidence.target.realpath realTarget)
    (h : (decideCanonical toLowerCase input root.text target.text realRoot.text realTarget.text).Grants) :
    Shown toLowerCase input root target realRoot realTarget := by
  unfold decideCanonical at h
  dsimp only at h
  split_ifs at h with hmetadata hexternal hisRoot houtside
  · exact absurd h (not_grants_metadataOnly _ _)
  · exact absurd h (not_grants_rejected _ _ _)
  · exact absurd h (not_grants_rejected _ _ _)
  · exact absurd h (not_grants_blocked _ _ _)
  · rw [Decidable.not_not] at houtside
    have hclass : classifyTarget toLowerCase root.text target.text input.platform = .inside := by
      cases hc : classifyTarget toLowerCase root.text target.text input.platform with
      | root => exact absurd hc hisRoot
      | inside => rfl
      | external => exact absurd hc hexternal
    have hparsedRoot := parseCanonical_text hroot.canonical
    have hinside := classifyTarget_eq_inside hparsedRoot (parseCanonical_text htarget.canonical) hclass
    have hrealInside := classifyTarget_eq_inside (parseCanonical_text hrealRoot.canonical)
      (parseCanonical_text hrealTarget.canonical) houtside
    split at h
    · exact absurd h (not_grants_blocked _ _ _)
    · split at h
      · exact absurd h (not_grants_blocked _ _ _)
      · next lock hlock =>
        split at h
        · exact absurd h (not_grants_blocked _ _ _)
        · next hchain =>
          obtain ⟨hsame, lexical, real, hlexical, hreal, hbound⟩ := bindChain_eq_none hroot.canonical
            hrealRoot.canonical htarget.canonical hrealTarget.canonical hchain
          have hfile := openedFile_of_grants h
          have hlexicalLength := congrArg List.length hlexical.segments
          have hrealLength := congrArg List.length (hreal.segments.trans hsame.segments.symm)
          rw [CanonicalParts.length_folded, CanonicalParts.length_folded] at hlexicalLength hrealLength
          have hdepth := hbound.lexical.length
          have hrealDepth := hbound.real.length
          have hfolded : root.segments.map (fold toLowerCase input.platform) =
              realRoot.segments.map (fold toLowerCase input.platform) := hsame.segments
          have hrealAbove : root.Above toLowerCase input.platform realTarget :=
            ⟨hsame.drive.trans hrealInside.1.drive, hfolded ▸ hrealInside.1.segments⟩
          exact {
            namesRoot := hroot
            namesTarget := htarget
            namesRealRoot := hrealRoot
            namesRealTarget := hrealTarget
            sameRoot := hsame
            inside := hinside
            realInside := ⟨hrealAbove, by omega⟩
            depth := by omega
            links := hbound.links
            lexicalChain := hlexicalLength ▸ hbound.lexical.reaches
            realChain := hrealLength ▸ hbound.real.reaches
            regular := hfile.regular
            single := hfile.single
            unchanged := hfile.unchanged
            lock := ⟨lock, hlock, hfile.lock⟩ }

theorem shown_of_decideValidated (h : (decideValidated toLowerCase input).Grants) :
    ∃ root target realRoot realTarget, Shown toLowerCase input root target realRoot realTarget := by
  unfold decideValidated at h
  dsimp only at h
  split at h
  · next rootText targetText hrootText htargetText =>
    obtain ⟨root, hroot, rfl⟩ := Names.of_eq_some hrootText
    obtain ⟨target, htarget, rfl⟩ := Names.of_eq_some htargetText
    split_ifs at h with hplatform hbound
    · exact absurd h (not_grants_blocked _ _ _)
    · exact absurd h (not_grants_blocked _ _ _)
    · split at h
      · next rootReal targetReal hrootReal htargetReal =>
        obtain ⟨realRoot, hrealRoot, rfl⟩ := Names.of_eq_some hrootReal
        obtain ⟨realTarget, hrealTarget, rfl⟩ := Names.of_eq_some htargetReal
        exact ⟨root, target, realRoot, realTarget, shown_of_decideCanonical hroot htarget hrealRoot hrealTarget h⟩
      · exact absurd h (not_grants_blocked _ _ _)
  · exact absurd h (not_grants_rejected _ _ _)

theorem validateInput_eq_ok {rawInput : SessionPathAccessInput} (h : validateInput rawInput = .ok input) :
    input = { rawInput with identity := rawInput.identity.bind normalizeIdentity } := by
  unfold validateInput at h
  cases hevidence : validateEvidence rawInput.evidence with
  | error message =>
    rw [hevidence] at h
    cases h
  | ok checked =>
    rw [hevidence] at h
    cases hlock : rawInput.lock with
    | none =>
      rw [hlock] at h
      cases h
      rfl
    | some lock =>
      rw [hlock] at h
      cases hvalid : validateLock lock with
      | error message =>
        simp only [hvalid] at h
        cases h
      | ok checked =>
        simp only [hvalid] at h
        cases h
        rfl

theorem Shown.of_identity {identity : Option SessionPathIdentity}
    (h : Shown toLowerCase { input with identity := identity } root target realRoot realTarget) :
    Shown toLowerCase input root target realRoot realTarget :=
  ⟨h.namesRoot, h.namesTarget, h.namesRealRoot, h.namesRealTarget, h.sameRoot, h.inside, h.realInside, h.depth, h.links,
    h.lexicalChain, h.realChain, h.regular, h.single, h.unchanged, h.lock⟩

/-- Access is granted to a file strictly inside the root only, that a chain without links leads to. -/
theorem decideSessionPathAccess_shown {rawInput : SessionPathAccessInput}
    (h : decideSessionPathAccess toLowerCase rawInput = .ok decision) (hgrants : decision.Grants) :
    ∃ root target realRoot realTarget, Shown toLowerCase rawInput root target realRoot realTarget := by
  unfold decideSessionPathAccess at h
  cases hvalid : validateInput rawInput with
  | error message =>
    rw [hvalid] at h
    cases h
  | ok input =>
    rw [hvalid] at h
    cases h
    have hinput := validateInput_eq_ok hvalid
    obtain ⟨root, target, realRoot, realTarget, hshown⟩ := shown_of_decideValidated hgrants
    subst hinput
    exact ⟨root, target, realRoot, realTarget, hshown.of_identity⟩

/-- A session file that is really another file of the same directory. -/
def sampleInput (realName : Char) : SessionPathAccessInput where
  platform := .posix
  root := ['/', 'r']
  target := ['/', 'r', '/', 'a']
  intent := .inspectContent
  identity := some ⟨['7']⟩
  evidence := {
    schemaVersion := 1
    platform := .posix
    trustedRootLexical := ['/', 'r']
    trustedRootRealpath := ['/', 'r']
    target := ⟨['/', 'r', '/', 'a'], ['/', 'r', '/', realName]⟩
    chain := [⟨['/', 'r'], ['/', 'r'], .none⟩, ⟨['/', 'r', '/', 'a'], ['/', 'r', '/', realName], .none⟩]
    statBefore := ⟨['1'], ['2'], 1, 3, 4, true, ['7']⟩
    statAfter := some ⟨['1'], ['2'], 1, 3, 4, true, ['7']⟩
    opened := ⟨['1'], ['2']⟩ }
  lock := some ⟨.absent, false, true, none⟩

theorem decideSessionPathAccess_sample (realName : Char) (h : realName = 'a' ∨ realName = 'b') :
    ∃ decision, decideSessionPathAccess (List.map Char.toLower) (sampleInput realName) = .ok decision ∧
      decision.Grants := by
  rcases h with rfl | rfl
  · exact ⟨_, rfl, .inl (by decide +kernel)⟩
  · exact ⟨_, rfl, .inl (by decide +kernel)⟩

theorem decideSessionPathAccess_shown_sample :
    ∃ root target realRoot realTarget,
      Shown (List.map Char.toLower) (sampleInput 'a') root target realRoot realTarget := by
  obtain ⟨decision, hdecision, hgrants⟩ := decideSessionPathAccess_sample 'a' (.inl rfl)
  exact decideSessionPathAccess_shown hdecision hgrants

/-- The real file need not be the one that the request names. -/
theorem decideSessionPathAccess_otherFile :
    ∃ decision, decideSessionPathAccess (List.map Char.toLower) (sampleInput 'b') = .ok decision ∧ decision.Grants ∧
      canonicalPathEqual (List.map Char.toLower)
        (canonicalizeSessionPath (List.map Char.toLower) (sampleInput 'b').evidence.target.realpath .posix)
        (canonicalizeSessionPath (List.map Char.toLower) (sampleInput 'b').target .posix) .posix = false := by
  obtain ⟨decision, hdecision, hgrants⟩ := decideSessionPathAccess_sample 'b' (.inr rfl)
  exact ⟨decision, hdecision, hgrants, by decide +kernel⟩

end CodingAgent.SessionPathPolicy
