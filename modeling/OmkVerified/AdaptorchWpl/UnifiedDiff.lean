import OmkVerified.Agent.ToolResourceClaims
import OmkVerified.AdaptorchWpl.Proofs.CorrectnessWallProofs

/-!
# Changes of files and their diffs

What a unified diff says, apart from how the wall reads it: a list of changes and the text that
shows them.
-/

namespace AdaptorchWpl

/-- A text without line breaks. -/
def OneLine (text : List Char) : Prop := ∀ c ∈ text, c ≠ '\n' ∧ c ≠ '\r'

instance (text : List Char) : Decidable (OneLine text) :=
  List.decidableBAll (fun c => c ≠ '\n' ∧ c ≠ '\r') text

theorem OneLine.append {first second : List Char} (hfirst : OneLine first)
    (hsecond : OneLine second) : OneLine (first ++ second) := by
  intro c hc
  rcases List.mem_append.mp hc with h | h
  · exact hfirst c h
  · exact hsecond c h

/-- A line of a file and the line break after it, which is the whole one. -/
structure FileLine where
  text : List Char
  crlf : Bool
  noNewline : '\n' ∉ text
  noReturn : crlf = false → text.getLast? ≠ some '\r'

namespace FileLine

def ofOneLine (text : List Char) (h : OneLine text) : FileLine where
  text := text
  crlf := false
  noNewline hmem := (h _ hmem).1 rfl
  noReturn _ hlast := (h _ (List.mem_of_getLast? hlast)).2 rfl

/-- The line after some text in front of it. -/
def after (front : List Char) (hfront : OneLine front) (line : FileLine) : FileLine where
  text := front ++ line.text
  crlf := line.crlf
  noNewline hmem := by
    rcases List.mem_append.mp hmem with h | h
    · exact (hfront _ h).1 rfl
    · exact line.noNewline h
  noReturn hcrlf hlast := by
    rw [List.getLast?_append] at hlast
    cases hline : line.text.getLast? with
    | none =>
      rw [hline, Option.none_or] at hlast
      exact (hfront _ (List.mem_of_getLast? hlast)).2 rfl
    | some c =>
      rw [hline, Option.some_or] at hlast
      exact line.noReturn hcrlf (hline.trans hlast)

def render (line : FileLine) : List Char :=
  line.text ++ if line.crlf then ['\r', '\n'] else ['\n']

end FileLine

/-- A path that a diff can show as it is. -/
structure DiffPath where
  text : List Char
  nonempty : text ≠ []
  oneLine : OneLine text

inductive HunkLine
  | context (line : FileLine)
  | added (line : FileLine)
  | removed (line : FileLine)
  | noNewlineAtEnd

/-- A hunk: the text of its header after the first `@@ `, and its lines. -/
structure Hunk where
  header : FileLine
  lines : List HunkLine

inductive FileChange
  | addition (path : DiffPath) (hunks : List Hunk)
  | deletion (path : DiffPath) (hunks : List Hunk)
  | modification (path : DiffPath) (hunks : List Hunk)
  | rename (oldPath newPath : DiffPath) (hunks : List Hunk)

/-! ## The text of a diff -/

def HunkLine.shown : HunkLine → FileLine
  | context line => line.after [' '] (by decide)
  | added line => line.after ['+'] (by decide)
  | removed line => line.after ['-'] (by decide)
  | noNewlineAtEnd => .ofOneLine "\\ No newline at end of file".toList (by decide)

def Hunk.shown (hunk : Hunk) : List FileLine :=
  hunk.header.after "@@ ".toList (by decide) :: hunk.lines.map HunkLine.shown

/-- A fixed text and a path. -/
def DiffPath.shownAfter (front : List Char) (hfront : OneLine front) (path : DiffPath) : FileLine :=
  .ofOneLine (front ++ path.text) (hfront.append path.oneLine)

namespace FileChange

def oldPath : FileChange → Option DiffPath
  | addition _ _ => none
  | deletion path _ => some path
  | modification path _ => some path
  | rename oldPath _ _ => some oldPath

def newPath : FileChange → Option DiffPath
  | addition path _ => some path
  | deletion _ _ => none
  | modification path _ => some path
  | rename _ newPath _ => some newPath

def hunks : FileChange → List Hunk
  | addition _ hunks => hunks
  | deletion _ hunks => hunks
  | modification _ hunks => hunks
  | rename _ _ hunks => hunks

/-- The paths that the change touches. -/
def paths (change : FileChange) : List DiffPath := change.oldPath.toList ++ change.newPath.toList

/-- The lines that the change adds. -/
def addedLines (change : FileChange) : List FileLine :=
  change.hunks.flatMap fun hunk => hunk.lines.filterMap fun
    | .added line => some line
    | _ => none

/-- `diff --git a/... b/...`. -/
def gitHeader (oldPath newPath : DiffPath) : FileLine :=
  .ofOneLine ("diff --git a/".toList ++ oldPath.text ++ (" b/".toList ++ newPath.text))
    ((OneLine.append (by decide) oldPath.oneLine).append
      (OneLine.append (by decide) newPath.oneLine))

/-- The lines before the hunks, which are there without hunks as well. -/
def extendedHeader : FileChange → List FileLine
  | addition path _ =>
    [gitHeader path path, .ofOneLine "new file mode 100644".toList (by decide)]
  | deletion path _ =>
    [gitHeader path path, .ofOneLine "deleted file mode 100644".toList (by decide)]
  | modification path _ => [gitHeader path path]
  | rename oldPath newPath _ =>
    [gitHeader oldPath newPath, oldPath.shownAfter "rename from ".toList (by decide),
      newPath.shownAfter "rename to ".toList (by decide)]

/-- The `---` line. -/
def oldHeader (change : FileChange) : FileLine :=
  match change.oldPath with
  | some path => path.shownAfter "--- a/".toList (by decide)
  | none => .ofOneLine "--- /dev/null".toList (by decide)

/-- The `+++` line. -/
def newHeader (change : FileChange) : FileLine :=
  match change.newPath with
  | some path => path.shownAfter "+++ b/".toList (by decide)
  | none => .ofOneLine "+++ /dev/null".toList (by decide)

def shown (change : FileChange) : List FileLine :=
  change.extendedHeader ++
    if change.hunks = [] then []
    else change.oldHeader :: change.newHeader :: change.hunks.flatMap Hunk.shown

end FileChange

/-- The diff of a list of changes. -/
def renderDiff (changes : List FileChange) : List Char :=
  (changes.flatMap FileChange.shown).flatMap FileLine.render

/-! ## What the flags are about -/

/-- The path without dot segments, where it does not leave the root. -/
def resolveDotSegments (path : List Char) : Option (List Char) :=
  (Agent.collapsePathSegments (Agent.pathSegments (normalizePathForMatch path)) []).map
    Agent.joinSegments

/-- The path leaves the root or the scope. -/
def OutsideScope (scope : List String) (path : DiffPath) : Prop :=
  ∀ resolved, resolveDotSegments path.text = some resolved →
    pathMatchesApprovedScope (String.ofList resolved) scope = false

end AdaptorchWpl

/-!
# What the fast wall reads of a diff

The wall finds every added line and the new path of most changes, but it takes some added lines for
headers and never reads an old path.
-/

namespace AdaptorchWpl

open Lib

/-! ## Lines -/

theorem splitLines_other {c : Char} {rest : List Char} (hc : c ≠ '\n')
    (hreturn : c = '\r' → rest.head? ≠ some '\n') {line : List Char} {lines : List (List Char)}
    (hrest : splitLines rest = line :: lines) : splitLines (c :: rest) = (c :: line) :: lines := by
  rw [splitLines]
  · rw [hrest]
  · rintro rest' rfl rfl
    exact hreturn rfl rfl
  · exact hc

theorem head?_append_ne {text rest : List Char} (hnewline : '\n' ∉ text)
    (hrest : text = [] → rest.head? ≠ some '\n') : (text ++ rest).head? ≠ some '\n' := by
  cases text with
  | nil => exact hrest rfl
  | cons c text =>
    rintro ⟨⟩
    exact hnewline List.mem_cons_self

theorem splitLines_crlf {text : List Char} (hnewline : '\n' ∉ text) (rest : List Char) :
    splitLines (text ++ '\r' :: '\n' :: rest) = text :: splitLines rest := by
  induction text with
  | nil => rfl
  | cons c text ih =>
    rw [List.mem_cons, not_or] at hnewline
    exact splitLines_other (Ne.symm hnewline.1)
      (fun _ => head?_append_ne hnewline.2 fun _ => by simp) (ih hnewline.2)

theorem splitLines_newline {text : List Char} (hnewline : '\n' ∉ text)
    (hreturn : text.getLast? ≠ some '\r') (rest : List Char) :
    splitLines (text ++ '\n' :: rest) = text :: splitLines rest := by
  induction text with
  | nil => rfl
  | cons c text ih =>
    rw [List.mem_cons, not_or] at hnewline
    cases text with
    | nil =>
      refine splitLines_other (Ne.symm hnewline.1) ?_ rfl
      rintro rfl
      exact absurd rfl hreturn
    | cons d text =>
      rw [List.getLast?_cons_cons] at hreturn
      exact splitLines_other (Ne.symm hnewline.1)
        (fun _ => head?_append_ne hnewline.2 nofun) (ih hnewline.2 hreturn)

theorem splitLines_render (line : FileLine) (rest : List Char) :
    splitLines (line.render ++ rest) = line.text :: splitLines rest := by
  unfold FileLine.render
  rw [List.append_assoc]
  cases hcrlf : line.crlf with
  | true => exact splitLines_crlf line.noNewline rest
  | false => exact splitLines_newline line.noNewline (line.noReturn hcrlf) rest

theorem splitLines_renderAll (lines : List FileLine) :
    splitLines (lines.flatMap FileLine.render) = lines.map (·.text) ++ [[]] := by
  induction lines with
  | nil => rfl
  | cons line lines ih => rw [List.flatMap_cons, splitLines_render, ih, List.map_cons, List.cons_append]

theorem trim_ne_nil {c : Char} {text : List Char} (hc : isWhitespace c = false) :
    trim (c :: text) ≠ [] := by
  intro h
  unfold trim at h
  rw [List.dropWhile_cons_of_neg (by simp [hc]), List.reverse_eq_nil_iff,
    List.dropWhile_eq_nil_iff] at h
  have hmem := h c (by simp)
  rw [hc] at hmem
  cases hmem

theorem renderDiff_cons (change : FileChange) (changes : List FileChange) :
    ∃ rest, renderDiff (change :: changes) = 'd' :: rest := by
  cases change <;> exact ⟨_, rfl⟩

/-- The diff is read as the lines that it shows, and an empty line at its end. -/
theorem exists_mem_diffLines {changes : List FileChange} {p : List Char → Prop} (hp : ¬ p []) :
    (∃ line ∈ diffLines (some (String.ofList (renderDiff changes))), p line) ↔
      ∃ change ∈ changes, ∃ line ∈ change.shown, p line.text := by
  have hlines : (∃ line ∈ splitLines (renderDiff changes), p line) ↔
      ∃ change ∈ changes, ∃ line ∈ change.shown, p line.text := by
    unfold renderDiff
    rw [splitLines_renderAll]
    simp only [List.mem_append, List.mem_map, List.mem_flatMap, List.mem_singleton]
    constructor
    · rintro ⟨_, ⟨line, ⟨change, hchange, hline⟩, rfl⟩ | rfl, hline'⟩
      · exact ⟨change, hchange, line, hline, hline'⟩
      · exact absurd hline' hp
    · rintro ⟨change, hchange, line, hline, hline'⟩
      exact ⟨_, .inl ⟨line, ⟨change, hchange, hline⟩, rfl⟩, hline'⟩
  unfold diffLines
  simp only [String.toList_ofList]
  split_ifs with hblank
  · cases changes with
    | nil => simp
    | cons change changes =>
      obtain ⟨rest, hrest⟩ := renderDiff_cons change changes
      rw [hrest] at hblank
      exact absurd hblank (trim_ne_nil (by decide))
  · exact hlines

/-! ## The lines that start with a plus -/

variable {change : FileChange} {line : FileLine}

theorem mem_addedLines :
    line ∈ change.addedLines ↔ ∃ hunk ∈ change.hunks, .added line ∈ hunk.lines := by
  unfold FileChange.addedLines
  simp only [List.mem_flatMap, List.mem_filterMap]
  refine exists_congr fun hunk => and_congr_right fun _ => ⟨?_, fun h => ⟨_, h, rfl⟩⟩
  rintro ⟨shown, hshown, hline⟩
  cases shown with
  | added line' =>
    cases hline
    exact hshown
  | context line' => cases hline
  | removed line' => cases hline
  | noNewlineAtEnd => cases hline

theorem head?_extendedHeader (h : line ∈ change.extendedHeader) : line.text.head? ≠ some '+' := by
  cases change with
  | rename oldPath newPath hunks =>
    rcases h with _ | ⟨_, _ | ⟨_, _ | ⟨_, h⟩⟩⟩
    · exact nofun
    · exact nofun
    · exact nofun
    · cases h
  | modification path hunks =>
    rcases h with _ | ⟨_, h⟩
    · exact nofun
    · cases h
  | addition path hunks =>
    rcases h with _ | ⟨_, _ | ⟨_, h⟩⟩
    · exact nofun
    · exact nofun
    · cases h
  | deletion path hunks =>
    rcases h with _ | ⟨_, _ | ⟨_, h⟩⟩
    · exact nofun
    · exact nofun
    · cases h

theorem head?_oldHeader (change : FileChange) : change.oldHeader.text.head? ≠ some '+' := by
  unfold FileChange.oldHeader
  cases change.oldPath with
  | none => exact nofun
  | some path => exact nofun

theorem added_of_plus {line : HunkLine} (h : line.shown.text.head? = some '+') :
    ∃ added, line = .added added := by
  cases line with
  | added line => exact ⟨line, rfl⟩
  | context line => exact absurd h nofun
  | removed line => exact absurd h nofun
  | noNewlineAtEnd => exact absurd h nofun

/-- The new header and the added lines. -/
theorem plus_mem_shown (hplus : line.text.head? = some '+') :
    line ∈ change.shown ↔
      (change.hunks ≠ [] ∧ line = change.newHeader) ∨
        ∃ added ∈ change.addedLines, line = added.after ['+'] (by decide) := by
  unfold FileChange.shown
  rw [List.mem_append]
  constructor
  · rintro (h | h)
    · exact absurd hplus (head?_extendedHeader h)
    · split_ifs at h with hhunks
      · cases h
      · rcases h with _ | ⟨_, _ | ⟨_, h⟩⟩
        · exact absurd hplus (head?_oldHeader change)
        · exact .inl ⟨hhunks, rfl⟩
        · obtain ⟨hunk, hhunk, hline⟩ := List.mem_flatMap.mp h
          rcases List.mem_cons.mp hline with rfl | hline
          · exact absurd hplus nofun
          · obtain ⟨shown, hshown, rfl⟩ := List.mem_map.mp hline
            obtain ⟨added, rfl⟩ := added_of_plus hplus
            exact .inr ⟨added, mem_addedLines.mpr ⟨hunk, hhunk, hshown⟩, rfl⟩
  · rintro (⟨hhunks, rfl⟩ | ⟨added, hadded, rfl⟩)
    · rw [if_neg hhunks]
      exact .inr (List.mem_cons_of_mem _ List.mem_cons_self)
    · obtain ⟨hunk, hhunk, hline⟩ := mem_addedLines.mp hadded
      rw [if_neg (List.ne_nil_of_mem hhunk)]
      refine .inr (List.mem_cons_of_mem _ (List.mem_cons_of_mem _ ?_))
      exact List.mem_flatMap.mpr ⟨hunk, hhunk, List.mem_cons_of_mem _ (List.mem_map_of_mem hline)⟩

/-! ## What the wall reads -/

/-- The paths that the wall reads: the new path of a change with hunks, and what an added line shows
that looks like a header. -/
def readPaths (change : FileChange) : List (List Char) :=
  (if change.hunks = [] then [] else (headerPath change.newHeader.text).toList) ++
    change.addedLines.filterMap fun line => headerPath ('+' :: line.text)

theorem mem_readPaths {path : List Char} :
    path ∈ readPaths change ↔ ∃ line ∈ change.shown, headerPath line.text = some path := by
  have hplus : ∀ line : FileLine, headerPath line.text = some path → line.text.head? = some '+' := by
    intro line hpath
    unfold headerPath at hpath
    split_ifs at hpath with hfront
    all_goals
      obtain ⟨rest, hrest⟩ := List.isPrefixOf_iff_prefix.mp hfront
      rw [← hrest]
      rfl
  unfold readPaths
  rw [List.mem_append, List.mem_filterMap]
  constructor
  · rintro (h | ⟨line, hline, hpath⟩)
    · split_ifs at h with hhunks
      · cases h
      · rw [Option.mem_toList] at h
        exact ⟨_, (plus_mem_shown (hplus _ h)).mpr (.inl ⟨hhunks, rfl⟩), h⟩
    · exact ⟨line.after ['+'] (by decide), (plus_mem_shown rfl).mpr (.inr ⟨line, hline, rfl⟩), hpath⟩
  · rintro ⟨line, hline, hpath⟩
    rcases (plus_mem_shown (hplus line hpath)).mp hline with ⟨hhunks, rfl⟩ | ⟨added, hadded, rfl⟩
    · rw [if_neg hhunks, Option.mem_toList]
      exact .inl hpath
    · exact .inr ⟨added, hadded, hpath⟩

theorem mem_parseDiffPaths {diffText : Option String} {path : String} :
    path ∈ parseDiffPaths diffText ↔
      ∃ line ∈ diffLines diffText, headerPath line = some path.toList := by
  unfold parseDiffPaths
  rw [(List.mergeSort_perm _ _).mem_iff, List.mem_eraseDups, List.mem_map]
  constructor
  · rintro ⟨text, htext, rfl⟩
    rw [String.toList_ofList]
    exact List.mem_filterMap.mp htext
  · intro h
    exact ⟨path.toList, List.mem_filterMap.mpr h, String.ofList_toList⟩

theorem scannedBody_added (text : List Char) :
    scannedBody ('+' :: text) = if "++".toList.isPrefixOf text then none else some text := by
  have hplus : "+".toList.isPrefixOf ('+' :: text) = true := rfl
  have hpluses : "+++".toList.isPrefixOf ('+' :: text) = "++".toList.isPrefixOf text := rfl
  unfold scannedBody
  rw [hplus, hpluses]
  rfl

theorem scannedBody_newHeader (change : FileChange) : scannedBody change.newHeader.text = none := by
  unfold FileChange.newHeader
  cases change.newPath with
  | none => rfl
  | some path => rfl

/-- A credential is found in an added line that does not start with two pluses. -/
theorem scanDiffLinesForSecrets_renderDiff (changes : List FileChange) :
    scanDiffLinesForSecrets (some (String.ofList (renderDiff changes))) = true ↔
      ∃ change ∈ changes, ∃ line ∈ change.addedLines,
        "++".toList.isPrefixOf line.text = false ∧ matchesSecret line.text = true := by
  have hbody : ∀ line : FileLine, (scannedBody line.text).any matchesSecret = true →
      line.text.head? = some '+' := by
    intro line hline
    unfold scannedBody at hline
    split_ifs at hline with hskip
    · cases hline
    · simp only [Bool.or_eq_true, Bool.not_eq_true', not_or, Bool.not_eq_false] at hskip
      obtain ⟨rest, hrest⟩ := List.isPrefixOf_iff_prefix.mp hskip.1
      rw [← hrest]
      rfl
  unfold scanDiffLinesForSecrets
  rw [List.any_eq_true, exists_mem_diffLines (by decide)]
  refine exists_congr fun change => and_congr_right fun _ => ?_
  constructor
  · rintro ⟨line, hline, hsecret⟩
    rcases (plus_mem_shown (hbody line hsecret)).mp hline with ⟨-, rfl⟩ | ⟨added, hadded, rfl⟩
    · rw [scannedBody_newHeader] at hsecret
      cases hsecret
    · refine ⟨added, hadded, ?_⟩
      change (scannedBody ('+' :: added.text)).any matchesSecret = true at hsecret
      rw [scannedBody_added] at hsecret
      split_ifs at hsecret with hskip
      · cases hsecret
      · exact ⟨Bool.eq_false_of_not_eq_true hskip, hsecret⟩
  · rintro ⟨added, hadded, hshown, hsecret⟩
    refine ⟨added.after ['+'] (by decide), (plus_mem_shown rfl).mpr (.inr ⟨added, hadded, rfl⟩), ?_⟩
    change (scannedBody ('+' :: added.text)).any matchesSecret = true
    rw [scannedBody_added, if_neg (by rw [hshown]; exact nofun)]
    exact hsecret

/-- The paths that the wall reads are not in the scope as they are written. -/
def ReadsOutside (scope : List String) (path : List Char) : Prop :=
  pathMatchesApprovedScope (String.ofList path) scope = false

theorem leavesScope_renderDiff (changes : List FileChange) {scope : List String} (hscope : scope ≠ [])
    (runIds : Option (List String)) (previewOnly : Option Bool) :
    LeavesScope ⟨some (String.ofList (renderDiff changes)), some scope, runIds, previewOnly⟩ ↔
      ∃ change ∈ changes, ∃ path ∈ readPaths change, ReadsOutside scope path := by
  unfold LeavesScope ReadsOutside
  simp only [mem_parseDiffPaths, mem_readPaths]
  constructor
  · rintro ⟨_, ⟨⟩, -, path, hpath, hout⟩
    obtain ⟨change, hchange, line, hline, hpath⟩ := 
      (@exists_mem_diffLines _ (fun line => headerPath line = some path.toList) nofun).mp hpath
    refine ⟨change, hchange, _, ⟨line, hline, hpath⟩, ?_⟩
    rw [String.ofList_toList]
    exact hout
  · rintro ⟨change, hchange, path, ⟨line, hline, hpath⟩, hout⟩
    refine ⟨scope, rfl, hscope, String.ofList path, ?_, hout⟩
    rw [String.toList_ofList]
    exact (@exists_mem_diffLines _ (fun line => headerPath line = some path) nofun).mpr
      ⟨change, hchange, line, hline, hpath⟩

/-! ## What the wall should say -/

/-- The flags say what they are for: some path that a change touches leaves the scope, some added line
looks like a credential. -/
structure FlagsExact (changes : List FileChange) (scope : List String) (result : FastWallResult) :
    Prop where
  leak : .candidateLeakSuspect ∈ result.flags ↔
    ∃ change ∈ changes, ∃ path ∈ change.paths, OutsideScope scope path
  secret : .secretSuspect ∈ result.flags ↔
    ∃ change ∈ changes, ∃ line ∈ change.addedLines, matchesSecret line.text = true

/-- What the wall reads is enough: next to a path that leaves the scope there is one that is read and
leaves it as it is written, and the other way around; next to a credential there is one in a line that
is scanned. -/
structure ReadsEnough (changes : List FileChange) (scope : List String) : Prop where
  leak : (∃ change ∈ changes, ∃ path ∈ change.paths, OutsideScope scope path) →
    ∃ change ∈ changes, ∃ path ∈ readPaths change, ReadsOutside scope path
  noFalseLeak : (∃ change ∈ changes, ∃ path ∈ readPaths change, ReadsOutside scope path) →
    ∃ change ∈ changes, ∃ path ∈ change.paths, OutsideScope scope path
  secret : (∃ change ∈ changes, ∃ line ∈ change.addedLines, matchesSecret line.text = true) →
    ∃ change ∈ changes, ∃ line ∈ change.addedLines,
      "++".toList.isPrefixOf line.text = false ∧ matchesSecret line.text = true

/-- The flags are exact on a diff if and only if the wall reads enough of it. -/
theorem runFastWall_flagsExact_iff (changes : List FileChange) (scope : List String)
    (hscope : scope ≠ []) (runIds : Option (List String)) (previewOnly : Option Bool) :
    FlagsExact changes scope
        (runFastWall ⟨some (String.ofList (renderDiff changes)), some scope, runIds, previewOnly⟩) ↔
      ReadsEnough changes scope := by
  have hleak := (candidateLeakSuspect_mem_iff
    ⟨some (String.ofList (renderDiff changes)), some scope, runIds, previewOnly⟩).trans
    (leavesScope_renderDiff changes hscope runIds previewOnly)
  have hsecret := (secretSuspect_mem_iff
    ⟨some (String.ofList (renderDiff changes)), some scope, runIds, previewOnly⟩).trans
    (scanDiffLinesForSecrets_renderDiff changes)
  constructor
  · intro hexact
    refine ⟨fun h => hleak.mp (hexact.leak.mpr h), fun h => hexact.leak.mp (hleak.mpr h),
      fun h => hsecret.mp (hexact.secret.mpr h)⟩
  · intro henough
    refine ⟨hleak.trans ⟨henough.noFalseLeak, henough.leak⟩, hsecret.trans ⟨?_, henough.secret⟩⟩
    rintro ⟨change, hchange, line, hline, -, hfound⟩
    exact ⟨change, hchange, line, hline, hfound⟩

def sourcePath : DiffPath := ⟨"src/a.ts".toList, by decide, by decide⟩

/-- A hunk of removed lines. -/
def removedHunk : Hunk :=
  ⟨.ofOneLine "-1 +0,0 @@".toList (by decide), [.removed (.ofOneLine "x".toList (by decide))]⟩

/-- A deleted file outside of the scope raises no flag. -/
theorem deletion_unnoticed :
    ¬ FlagsExact [.deletion sourcePath [removedHunk]] ["docs/**"]
      (runFastWall ⟨some (String.ofList (renderDiff [.deletion sourcePath [removedHunk]])),
        some ["docs/**"], none, none⟩) := by
  intro hexact
  have hleak := hexact.leak.mpr ⟨.deletion sourcePath [removedHunk], List.mem_singleton.mpr rfl,
    sourcePath, List.mem_singleton.mpr rfl, by
      intro resolved hresolved
      obtain rfl : resolved = "src/a.ts".toList := by
        have hsource : resolveDotSegments sourcePath.text = some "src/a.ts".toList := by
          decide +kernel
        exact Option.some_inj.mp (hresolved.symm.trans hsource)
      decide +kernel⟩
  revert hleak
  decide +kernel

/-- The flags of the same deletion are exact where the file lies in the scope. -/
theorem flagsExact_iff_deletion :
    FlagsExact [.deletion sourcePath [removedHunk]] ["src/**"]
        (runFastWall ⟨some (String.ofList (renderDiff [.deletion sourcePath [removedHunk]])),
          some ["src/**"], none, none⟩) ↔
      ReadsEnough [.deletion sourcePath [removedHunk]] ["src/**"] :=
  runFastWall_flagsExact_iff _ _ (by decide) none none

end AdaptorchWpl
