import OmkVerified.Lib.ShellGrammar
import OmkVerified.Tui.PasteMarkers

/-!
# Static shell texts

Embedding of `normalizeStaticShell` of `shell-command-tokenizer.ts`. A text is the list of its UTF-16 code
units, and `none` stands for `fail()`. The check for globs in names, which reads the normalized text once
more, is a parameter that may fail as well.
-/

namespace CodingAgent.StaticShell

open Lib.ShellGrammar
open Tui.Components (ascii isSpaceUnit)

/-- `MAX_STATIC_SHELL_INPUT_CHARS`. -/
def maxStaticShellInputChars : Nat := 64 * 1024

/-- `MAX_STATIC_SHELL_WORDS`. -/
def maxStaticShellWords : Nat := 4096

/-- `ShellSourceRange["kind"]`. -/
inductive SourceKind
  | literal
  | var
deriving DecidableEq

/-- `ShellSourceRange`. -/
structure ShellSourceRange where
  start : Nat
  stop : Nat
  contentEnd : Nat
  quoteStart : Option Nat
  kind : SourceKind
  escaped : Bool

/-- `StaticShellWord`. -/
structure StaticShellWord where
  start : Nat
  stop : Nat
deriving DecidableEq

/-- `StaticShellVariable`. -/
structure StaticShellVariable where
  start : Nat
  stop : Nat
  sourceStart : Nat
  sourceEnd : Nat
deriving DecidableEq

/-- `NormalizedStaticShell`. -/
structure NormalizedStaticShell where
  text : Text
  sources : List ShellSourceRange
  words : List StaticShellWord
  vars : List StaticShellVariable

/-- `isWordBoundary(character)`. -/
def isWordBoundary (character : Nat) : Bool := isSpaceUnit character || (ascii ";&|()<>").contains character

/-! ## Variables and braces -/

/-- `[A-Za-z_][A-Za-z0-9_]*` at the front. -/
def nameAt (text : Text) : Text :=
  match text with
  | first :: rest => if isNameStart first then first :: rest.takeWhile isNamePart else []
  | [] => []

/-- `variableAt(text, index)` behind the dollar sign at `index`. -/
def variableAt (rest : Text) : Option Text :=
  if rest.head? = some openBrace then
    let name := nameAt rest.tail
    if name ≠ [] ∧ (rest.tail.drop name.length).head? = some closeBrace then
      some (dollar :: openBrace :: (name ++ [closeBrace]))
    else none
  else
    let name := nameAt rest
    if name ≠ [] then some (dollar :: name) else none

/-- `isBraceExpansion(text, index)` behind the brace at `index`. -/
def isBraceExpansion (rest : Text) : Bool :=
  let body := rest.takeWhile (· ≠ closeBrace)
  rest.contains closeBrace && (body.contains 0x2c || body.tails.any (ascii "..").isPrefixOf)

/-! ## The loops -/

/-- `append(character, start, end, kind, escaped, quoteStart)`. -/
def NormalizedStaticShell.append (shell : NormalizedStaticShell) (character start stop : Nat)
    (kind : SourceKind) (escaped : Bool) (quoteStart : Option Nat) : NormalizedStaticShell :=
  { shell with
    text := shell.text ++ [character]
    sources := shell.sources ++ [⟨start, stop, stop, quoteStart, kind, escaped⟩] }

/-- The variables of the loop over a word; `lastSource` is `none` for `-1`. -/
structure WordState where
  shell : NormalizedStaticShell
  quote : Option Quote
  quoteStart : Option Nat
  pendingStart : Nat
  lastSource : Option Nat

/-- A literal character that is read up to `stop`. -/
def WordState.put (s : WordState) (character stop : Nat) (escaped : Bool) : WordState :=
  { s with
    shell := s.shell.append character s.pendingStart stop .literal escaped s.quoteStart
    lastSource := some s.shell.sources.length
    pendingStart := stop }

/-- `sources[lastSource] = { ...sources[lastSource], end }`, when the word has a source. -/
def extendLast (sources : List ShellSourceRange) (wordStart : Nat) (lastSource : Option Nat) (stop : Nat) :
    List ShellSourceRange :=
  match lastSource with
  | some last =>
    if wordStart ≤ last then sources.modify last fun source => { source with stop := stop } else sources
  | none => sources

/-- The quote at `index` opens. -/
def WordState.enter (s : WordState) (quote : Quote) (index : Nat) : WordState :=
  { s with quote := some quote, quoteStart := some index, pendingStart := index + 1 }

/-- The quote at `index` closes. -/
def WordState.close (s : WordState) (wordStart index : Nat) : WordState :=
  { s with
    shell := { s.shell with sources := extendLast s.shell.sources wordStart s.lastSource (index + 1) }
    quote := none
    quoteStart := none
    pendingStart := index + 1 }

/-- The loop over the characters of a variable, the first of which has the source from `start` on. -/
def appendToken (quoteStart : Option Nat) :
    (start index : Nat) → Text → NormalizedStaticShell → NormalizedStaticShell
  | _, _, [], shell => shell
  | start, index, character :: token, shell =>
    appendToken quoteStart (index + 1) (index + 1) token
      (shell.append character start (index + 1) .var false quoteStart)

/-- The variable `token` at `index`. -/
def WordState.putVariable (s : WordState) (index : Nat) (token : Text) : WordState :=
  let shell := appendToken s.quoteStart s.pendingStart index token s.shell
  { s with
    shell := { shell with
      vars := shell.vars ++
        [⟨s.shell.text.length, shell.text.length, index, index + token.length⟩] }
    lastSource := some (shell.sources.length - 1)
    pendingStart := index + token.length }

/-- The body of the loop over a word at the character at `index`: the state behind it, and how many of the
following characters are read together with it. -/
def WordState.read (s : WordState) (wordStart index character : Nat) (rest : Text) :
    Option (WordState × Nat) :=
  if s.quote = some .single then
    if character = singleQuote then some (s.close wordStart index, 0)
    else some (s.put character (index + 1) false, 0)
  else if s.quote = some .double ∧ character = doubleQuote then some (s.close wordStart index, 0)
  else if character = backslash then
    match rest with
    | [] => none
    | next :: _ =>
      if next = newline then some ({ s with pendingStart := index + 2 }, 1)
      else if s.quote = some .double ∧ next ≠ backslash ∧ next ≠ doubleQuote ∧ next ≠ dollar then
        some (s.put character (index + 1) false, 0)
      else some (s.put next (index + 2) true, 1)
  else if s.quote = none ∧ (character = doubleQuote ∨ character = singleQuote) then
    some (s.enter (if character = doubleQuote then .double else .single) index, 0)
  else if character = dollar then
    if rest.head? = some 0x28 then none
    else
      match variableAt rest with
      | some token => some (s.putVariable index token, token.length - 1)
      | none => none
  else if s.quote = none ∧ character = openBrace ∧ isBraceExpansion rest = true then none
  else some (s.put character (index + 1) false, 0)

/-- The loop over a word: the state behind it, and the rest of the text with its index. -/
def readWord (wordStart : Nat) (s : WordState) (index : Nat) (text : Text) :
    Option (WordState × Nat × Text) :=
  match text with
  | [] => some (s, index, [])
  | character :: rest =>
    if s.quote = none ∧ isWordBoundary character = true then some (s, index, character :: rest)
    else
      match s.read wordStart index character rest with
      | some (next, extra) => readWord wordStart next (index + 1 + extra) (rest.drop extra)
      | none => none
termination_by text.length
decreasing_by
  rw [List.length_drop, List.length_cons]
  omega

theorem readWord_le {wordStart index next : Nat} {s s' : WordState} {text rest : Text}
    (h : readWord wordStart s index text = some (s', next, rest)) : rest.length ≤ text.length := by
  fun_induction readWord wordStart s index text with
  | case1 s index =>
    cases h
    exact le_refl 0
  | case2 s index character text hstop =>
    cases h
    exact le_refl _
  | case3 s index character text hgo state extra hread ih =>
    have := ih h
    rw [List.length_drop] at this
    rw [List.length_cons]
    omega
  | case4 => cases h

/-- What stands at the start of a word. -/
def WordState.start (shell : NormalizedStaticShell) (index : Nat) : WordState :=
  ⟨shell, none, none, index, none⟩

theorem readWord_lt {wordStart index next character : Nat} {s s' : WordState} {text rest : Text}
    (hword : isWordBoundary character = false)
    (h : readWord wordStart s index (character :: text) = some (s', next, rest)) :
    rest.length < (character :: text).length := by
  rw [readWord, if_neg (by simp [hword])] at h
  split at h
  · have := readWord_le h
    rw [List.length_drop] at this
    rw [List.length_cons]
    omega
  · cases h

/-- The loop over the text. -/
def readShell (shell : NormalizedStaticShell) (index : Nat) (text : Text) : Option NormalizedStaticShell :=
  match text with
  | [] => some shell
  | character :: rest =>
    if hword : isWordBoundary character = true then
      readShell (shell.append character index (index + 1) .literal false none) (index + 1) rest
    else if maxStaticShellWords ≤ shell.words.length then none
    else
      match _hread : readWord shell.text.length (.start shell index) index (character :: rest) with
      | some (s, next, after) =>
        if s.quote ≠ none then none
        else
          readShell { s.shell with words := s.shell.words ++ [⟨shell.text.length, s.shell.text.length⟩] }
            next after
      | none => none
termination_by text.length
decreasing_by
  · exact Nat.lt_succ_self _
  · exact readWord_lt (Bool.eq_false_iff.mpr hword) _hread

/-- `normalizeStaticShell(text)`. -/
def normalizeStaticShell (hasActiveShellNameGlob : NormalizedStaticShell → Option Bool) (text : Text) :
    Option NormalizedStaticShell :=
  if maxStaticShellInputChars < text.length ∨ text.contains backquote = true ∨
      text.tails.any (ascii "<(").isPrefixOf = true ∨ text.tails.any (ascii ">(").isPrefixOf = true then none
  else
    match readShell ⟨[], [], [], []⟩ 0 text with
    | some shell =>
      match hasActiveShellNameGlob shell with
      | some false => some shell
      | _ => none
    | none => none

end CodingAgent.StaticShell

/-!
# Static shell texts

The loops of `normalizeStaticShell` follow the grammar of quoted texts, and keep the sources in order.
-/

namespace CodingAgent.StaticShell

open Lib.ShellGrammar
open Tui.Components (ascii isSpaceUnit)

/-! ## Variables -/

theorem nameAt_spec {text : Text} (h : nameAt text ≠ []) :
    isName (nameAt text) = true ∧ text = nameAt text ++ text.drop (nameAt text).length ∧
      ∀ c ∈ (text.drop (nameAt text).length).head?, isNamePart c = false := by
  cases text with
  | nil => exact absurd rfl h
  | cons first rest =>
    unfold nameAt at h ⊢
    dsimp only at h ⊢
    split_ifs at h ⊢ with hfirst
    · have hsplit : rest = rest.takeWhile isNamePart ++ rest.dropWhile isNamePart :=
        List.takeWhile_append_dropWhile.symm
      have hdrop : (first :: rest).drop (first :: rest.takeWhile isNamePart).length =
          rest.dropWhile isNamePart := by
        rw [List.length_cons, List.drop_succ_cons]
        nth_rewrite 2 [hsplit]
        exact List.drop_left
      refine ⟨?_, ?_, ?_⟩
      · refine Bool.and_eq_true_iff.mpr ⟨hfirst, List.all_eq_true.mpr fun c hc => ?_⟩
        rcases List.mem_cons.mp hc with rfl | hc
        · unfold isNamePart
          rw [hfirst]
          rfl
        · exact List.mem_takeWhile_imp hc
      · rw [hdrop, List.cons_append, ← hsplit]
      · rw [hdrop]
        intro c hc
        have := List.head?_dropWhile_not isNamePart rest
        rw [Option.mem_def.mp hc] at this
        simpa using this
    · exact absurd rfl h

theorem variableAt_spec {rest token : Text} (h : variableAt rest = some token) :
    ∃ r : Reference, token = r.render ∧ rest = r.body ++ rest.drop r.body.length ∧
      r.Proper (rest.drop r.body.length) := by
  unfold variableAt at h
  dsimp only at h
  split_ifs at h with hbrace hname hname
  · cases h
    obtain ⟨hproper, hsplit, -⟩ := nameAt_spec hname.1
    obtain ⟨tail, rfl⟩ : ∃ tail, rest = openBrace :: tail := by
      cases rest with
      | nil => cases hbrace
      | cons c tail => exact ⟨tail, by rw [Option.some.inj hbrace]⟩
    rw [List.tail_cons] at hname hproper hsplit ⊢
    obtain ⟨after, hafter⟩ : ∃ after, tail.drop (nameAt tail).length = closeBrace :: after := by
      cases hdrop : tail.drop (nameAt tail).length with
      | nil =>
        rw [hdrop] at hname
        cases hname.2
      | cons c after =>
        rw [hdrop] at hname
        exact ⟨after, by rw [Option.some.inj hname.2]⟩
    rw [hafter] at hsplit
    have hbody : openBrace :: tail = openBrace :: (nameAt tail ++ [closeBrace]) ++ after := by
      rw [List.cons_append, List.append_assoc]
      exact congrArg _ hsplit
    have hdrop : (openBrace :: tail).drop (openBrace :: (nameAt tail ++ [closeBrace])).length = after := by
      rw [hbody]
      exact List.drop_left
    refine ⟨⟨nameAt tail, true⟩, rfl, ?_, hproper, fun hfalse => by cases hfalse⟩
    show openBrace :: tail = openBrace :: (nameAt tail ++ [closeBrace]) ++
      (openBrace :: tail).drop (openBrace :: (nameAt tail ++ [closeBrace])).length
    rw [hdrop]
    exact hbody
  · cases h
    obtain ⟨hproper, hsplit, hends⟩ := nameAt_spec hname
    exact ⟨⟨nameAt rest, false⟩, rfl, hsplit, hproper, fun _ => hends⟩

/-! ## Sources -/

/-- There is a source for each character, and the sources are in order and end at `bound`. -/
structure Ordered (shell : NormalizedStaticShell) (bound : Nat) : Prop where
  length : shell.sources.length = shell.text.length
  pairwise : shell.sources.Pairwise fun a b => a.stop ≤ b.start
  inside : ∀ source ∈ shell.sources, source.start < source.stop ∧ source.stop ≤ bound

variable {shell : NormalizedStaticShell} {c : Nat}

theorem Ordered.mono {bound stop : Nat} (h : Ordered shell bound) (hle : bound ≤ stop) :
    Ordered shell stop :=
  ⟨h.length, h.pairwise, fun source hsource =>
    ⟨(h.inside source hsource).1, (h.inside source hsource).2.trans hle⟩⟩

theorem Ordered.append {shell : NormalizedStaticShell} {bound start stop : Nat} (h : Ordered shell bound)
    (hstart : bound ≤ start) (hstop : start < stop) (character : Nat) (kind : SourceKind) (escaped : Bool)
    (quoteStart : Option Nat) :
    Ordered (shell.append character start stop kind escaped quoteStart) stop := by
  refine ⟨?_, ?_, ?_⟩
  · simp [NormalizedStaticShell.append, h.length]
  · refine List.pairwise_append.mpr ⟨h.pairwise, List.pairwise_singleton _ _, ?_⟩
    intro source hsource new hnew
    obtain rfl := List.mem_singleton.mp hnew
    exact (h.inside source hsource).2.trans hstart
  · intro source hsource
    rcases List.mem_append.mp hsource with hold | hnew
    · have := h.inside source hold
      exact ⟨this.1, by omega⟩
    · obtain rfl := List.mem_singleton.mp hnew
      exact ⟨hstop, le_refl _⟩

theorem ordered_appendToken {quoteStart : Option Nat} {token : Text} {start index : Nat}
    (h : Ordered shell start) (hstart : start ≤ index) :
    Ordered (appendToken quoteStart start index token shell) (index + token.length) := by
  induction token generalizing shell start index with
  | nil => exact h.mono hstart
  | cons character token ih =>
    have hnext := h.append (le_refl start) (Nat.lt_succ_of_le hstart) character .var false quoteStart
    rw [List.length_cons, ← Nat.add_assoc, Nat.add_right_comm]
    exact ih hnext (le_refl _)

theorem modify_last {α : Type} (front : List α) (a : α) (f : α → α) :
    (front ++ [a]).modify front.length f = front ++ [f a] := by
  induction front with
  | nil => rfl
  | cons b front ih => rw [List.cons_append, List.length_cons, List.modify_succ_cons, ih, List.cons_append]

/-- The last source may end later. -/
theorem Ordered.extendLast {bound wordStart : Nat} {lastSource : Option Nat}
    (h : Ordered shell bound) (hlast : ∀ last ∈ lastSource, last + 1 = shell.sources.length) :
    Ordered { shell with sources := StaticShell.extendLast shell.sources wordStart lastSource (bound + 1) }
      (bound + 1) := by
  unfold StaticShell.extendLast
  cases lastSource with
  | none => exact h.mono (Nat.le_succ _)
  | some last =>
    dsimp only
    split_ifs
    · have hlength := hlast last rfl
      obtain ⟨front, source, hsources⟩ : ∃ front source, shell.sources = front ++ [source] := by
        rcases List.eq_nil_or_concat' shell.sources with hnil | ⟨front, source, hsources⟩
        · rw [hnil] at hlength
          cases hlength
        · exact ⟨front, source, hsources⟩
      have hfront : last = front.length := by
        rw [hsources, List.length_append] at hlength
        exact Nat.succ.inj hlength
      have hmodify : shell.sources.modify last (fun source => { source with stop := bound + 1 }) =
          front ++ [{ source with stop := bound + 1 }] := by
        rw [hsources, hfront]
        exact modify_last _ _ _
      have hpairwise := h.pairwise
      have hinside := h.inside
      rw [hsources] at hpairwise hinside
      obtain ⟨hordered, -, hbefore⟩ := List.pairwise_append.mp hpairwise
      refine ⟨?_, ?_, ?_⟩
      · show (shell.sources.modify _ _).length = _
        rw [List.length_modify]
        exact h.length
      · show (shell.sources.modify _ _).Pairwise _
        rw [hmodify]
        refine List.pairwise_append.mpr ⟨hordered, List.pairwise_singleton _ _, ?_⟩
        intro old hold new hnew
        obtain rfl := List.mem_singleton.mp hnew
        exact hbefore old hold source (List.mem_singleton_self _)
      · intro found hfound
        change found ∈ shell.sources.modify _ _ at hfound
        rw [hmodify] at hfound
        have hsource := hinside source (List.mem_append_right _ (List.mem_singleton_self _))
        rcases List.mem_append.mp hfound with hold | hnew
        · have := hinside found (List.mem_append_left _ hold)
          exact ⟨this.1, by omega⟩
        · obtain rfl := List.mem_singleton.mp hnew
          refine ⟨?_, le_refl _⟩
          show source.start < bound + 1
          omega
    · exact h.mono (Nat.le_succ _)

/-! ## One step of a word -/

/-- The variable of a reference. -/
def variableOf (place : Nat × Nat × Reference) : StaticShellVariable :=
  ⟨place.2.1, place.2.1 + place.2.2.render.length, place.1, place.1 + place.2.2.render.length⟩

/-- The atoms that start at `index` are read, and no word ends. -/
structure Extends (shell next : NormalizedStaticShell) (index : Nat) (atoms : List Atom) : Prop where
  text : next.text = shell.text ++ valueText atoms
  words : next.words = shell.words
  vars : next.vars = shell.vars ++ (references atoms index shell.text.length).map variableOf

theorem Extends.refl (shell : NormalizedStaticShell) (index : Nat) : Extends shell shell index [] :=
  ⟨(List.append_nil _).symm, rfl, (List.append_nil _).symm⟩

theorem Extends.trans {next last : NormalizedStaticShell} {index : Nat} {left right : List Atom}
    (h : Extends shell next index left)
    (hrest : Extends next last (index + (sourceText left).length) right) :
    Extends shell last index (left ++ right) := by
  refine ⟨?_, hrest.words.trans h.words, ?_⟩
  · rw [hrest.text, h.text, valueText_append, List.append_assoc]
  · rw [hrest.vars, h.vars, references_append, List.map_append, List.append_assoc, h.text,
      List.length_append]

/-- What holds of the variables of the loop over a word at `index`. -/
structure Laid (s : WordState) (index : Nat) : Prop where
  ordered : Ordered s.shell index
  pending : s.pendingStart = index
  last : ∀ last ∈ s.lastSource, last + 1 = s.shell.sources.length

/-- The atom at `index` is read. -/
structure Took (s : WordState) (index : Nat) (atom : Atom) (next : WordState) : Prop where
  shell : Extends s.shell next.shell index [atom]
  laid : Laid next (index + atom.source.length)

variable {s next : WordState} {wordStart index character extra : Nat} {rest : Text}

/-- An atom that is not a reference. -/
theorem extends_literal {after : NormalizedStaticShell} {atom : Atom}
    (hatom : atom.reference = none) (htext : after.text = shell.text ++ atom.value)
    (hwords : after.words = shell.words) (hvars : after.vars = shell.vars) :
    Extends shell after index [atom] := by
  refine ⟨?_, hwords, ?_⟩
  · rw [htext, valueText_cons, valueText_nil, List.append_nil]
  · simp [references, hatom, hvars]

theorem took_put {stop : Nat} (h : Laid s index) (atom : Atom) (hatom : atom.reference = none)
    (hvalue : atom.value = [c]) (hstop : stop = index + atom.source.length)
    (hsource : 0 < atom.source.length) (escaped : Bool) :
    Took s index atom (s.put c stop escaped) := by
  refine ⟨extends_literal hatom ?_ rfl rfl, ?_⟩
  · rw [hvalue]
    rfl
  · rw [← hstop]
    refine ⟨?_, rfl, ?_⟩
    · show Ordered (s.shell.append c s.pendingStart stop .literal escaped s.quoteStart) stop
      rw [h.pending]
      exact h.ordered.append (le_refl _) (by omega) c .literal escaped _
    · intro last hlast
      obtain rfl := Option.some.inj hlast
      simp [WordState.put, NormalizedStaticShell.append]

theorem took_close (h : Laid s index) (c : Nat) : Took s index (.mark c) (s.close wordStart index) := by
  refine ⟨extends_literal rfl (List.append_nil _).symm rfl rfl, h.ordered.extendLast h.last, rfl, ?_⟩
  intro last hlast
  have hlength : (extendLast s.shell.sources wordStart s.lastSource (index + 1)).length =
      s.shell.sources.length := by
    unfold extendLast
    split
    · split_ifs
      · exact List.length_modify _ _ _
      · rfl
    · rfl
  rw [h.last last hlast]
  exact hlength.symm

theorem took_enter (h : Laid s index) (quote : Quote) (c : Nat) :
    Took s index (.mark c) (s.enter quote index) :=
  ⟨extends_literal rfl (List.append_nil _).symm rfl rfl, h.ordered.mono (Nat.le_succ _), rfl, h.last⟩

theorem took_skip (h : Laid s index) (quote : Option Quote) :
    Took s index (.continuation quote) { s with pendingStart := index + 2 } :=
  ⟨extends_literal rfl (List.append_nil _).symm rfl rfl, h.ordered.mono (Nat.le_add_right _ _), rfl, h.last⟩

theorem appendToken_fields (quoteStart : Option Nat) (start index : Nat) (token : Text)
    (shell : NormalizedStaticShell) :
    (appendToken quoteStart start index token shell).text = shell.text ++ token ∧
      (appendToken quoteStart start index token shell).words = shell.words ∧
      (appendToken quoteStart start index token shell).vars = shell.vars := by
  induction token generalizing shell start index with
  | nil => exact ⟨(List.append_nil _).symm, rfl, rfl⟩
  | cons character token ih =>
    obtain ⟨htext, hwords, hvars⟩ := ih (index + 1) (index + 1)
      (shell.append character start (index + 1) .var false quoteStart)
    refine ⟨?_, hwords, hvars⟩
    rw [appendToken, htext]
    exact List.append_assoc _ [character] token

theorem took_putVariable (h : Laid s index) (quote : Option Quote) (r : Reference) :
    Took s index (.ofReference quote r) (s.putVariable index r.render) := by
  unfold WordState.putVariable
  dsimp only
  rw [h.pending]
  obtain ⟨htext, hwords, hvars⟩ := appendToken_fields s.quoteStart index index r.render s.shell
  have hordered : Ordered (appendToken s.quoteStart index index r.render s.shell)
      (index + r.render.length) := ordered_appendToken h.ordered (le_refl _)
  refine ⟨⟨?_, hwords, ?_⟩, ⟨hordered.length, hordered.pairwise, hordered.inside⟩, rfl, ?_⟩
  · rw [valueText_cons, valueText_nil, List.append_nil]
    exact htext
  · rw [hvars, htext, List.length_append]
    rfl
  · intro last hlast
    obtain rfl := Option.some.inj hlast
    refine Nat.sub_add_cancel ?_
    rw [hordered.length, htext, List.length_append]
    exact Nat.le_add_left_of_le (Nat.succ_le_succ (Nat.zero_le _))

theorem took_unit (h : Laid s index) (quote : Option Quote) (c : Nat) :
    Took s index (.unit quote c) (s.put c (index + 1) false) :=
  took_put h (.unit quote c) rfl rfl rfl (Nat.lt_succ_self 0) false

/-- What the reader does at a backslash that is not between single quotes. -/
theorem step_escaped {after : Nat} {tail : Text} (hsingle : s.quote ≠ some .single) (hline : after ≠ newline)
    (hescapes : s.quote = some .double → isEscapable after = true) :
    Step isWordBoundary tail s.quote (.escaped s.quote after) s.quote := by
  rcases hquote : s.quote with _ | ⟨_ | _⟩
  · exact .piece (.escaped after) rfl hline
  · exact absurd hquote hsingle
  · exact .double (.escaped after) (hescapes hquote)

/-- The body of the loop over a word reads an atom as the grammar does. -/
theorem read_spec (hlaid : Laid s index) (hback : backquote ∉ character :: rest)
    (hword : s.quote = none → isWordBoundary character = false)
    (h : s.read wordStart index character rest = some (next, extra)) :
    ∃ atom : Atom, Step isWordBoundary (rest.drop extra) s.quote atom next.quote ∧
      character :: rest = atom.source ++ rest.drop extra ∧ atom.source.length = 1 + extra ∧
      Took s index atom next := by
  have hchar : character ≠ backquote := fun h => hback (h ▸ List.mem_cons_self)
  unfold WordState.read at h
  split_ifs at h with hsingle hclose hdouble hslash hopen hmark hdollar hparen hbrace
  · cases h
    rw [hsingle, hclose]
    exact ⟨.mark singleQuote, .closeSingle, rfl, rfl, took_close hlaid _⟩
  · cases h
    refine ⟨.unit (some .single) character, ?_, rfl, rfl, took_unit hlaid _ _⟩
    show Step _ _ s.quote _ s.quote
    rw [hsingle]
    exact .single hclose
  · cases h
    rw [hdouble.1, hdouble.2]
    exact ⟨.mark doubleQuote, .closeDouble, rfl, rfl, took_close hlaid _⟩
  · split at h
    · cases h
    · rename_i after tail
      have hafter : after ≠ backquote := fun h => hback (by simp [h])
      split_ifs at h with hline hkept
      · cases h
        refine ⟨.continuation s.quote, ?_, ?_, rfl, took_skip hlaid _⟩
        · show Step _ _ s.quote _ s.quote
          rcases hquote : s.quote with _ | ⟨_ | _⟩
          · exact .piece .continuation rfl trivial
          · exact absurd hquote hsingle
          · exact .double .continuation trivial
        · rw [hslash, hline]
          rfl
      · cases h
        refine ⟨.unit s.quote character, ?_, rfl, rfl, took_unit hlaid _ _⟩
        show Step _ _ s.quote _ s.quote
        rw [hkept.1, hslash]
        refine .double .backslash ⟨after, rfl, ?_, hline⟩
        simp [isEscapable, hkept.2.1, hkept.2.2.1, hkept.2.2.2, hafter]
      · cases h
        refine ⟨.escaped s.quote after, ?_, ?_, rfl,
          took_put hlaid (.escaped s.quote after) rfl rfl rfl (Nat.succ_pos 1) true⟩
        · refine step_escaped hsingle hline fun hquote => ?_
          by_contra hplain
          simp only [isEscapable, Bool.or_eq_true, decide_eq_true_eq, not_or] at hplain
          exact hkept ⟨hquote, hplain.1.1.1, hplain.1.1.2, hplain.1.2⟩
        · rw [hslash]
          rfl
  · cases h
    rw [hopen.1, hmark]
    exact ⟨.mark doubleQuote, .openDouble, rfl, rfl, took_enter hlaid _ _⟩
  · cases h
    rw [hopen.1, hopen.2.resolve_left hmark]
    exact ⟨.mark singleQuote, .openSingle, rfl, rfl, took_enter hlaid _ _⟩
  · split at h
    · rename_i token htoken
      cases h
      obtain ⟨r, rfl, hrest, hproper⟩ := variableAt_spec htoken
      refine ⟨.ofReference s.quote r, ?_, ?_, ?_, took_putVariable hlaid _ _⟩
      · show Step _ _ s.quote _ s.quote
        rcases hquote : s.quote with _ | ⟨_ | _⟩
        · exact .piece (.reference r) rfl hproper
        · exact absurd hquote hsingle
        · exact .double (.reference r) hproper
      · rw [hdollar]
        exact congrArg _ hrest
      · exact Nat.add_comm _ 1
    · cases h
  · cases h
    refine ⟨.unit s.quote character, ?_, rfl, rfl, took_unit hlaid _ _⟩
    show Step _ _ s.quote _ s.quote
    rcases hquote : s.quote with _ | ⟨_ | _⟩
    · refine .piece (.bare character) rfl ⟨?_, hword hquote⟩
      have hmarks : ¬ (character = doubleQuote ∨ character = singleQuote) := fun h => hopen ⟨hquote, h⟩
      rw [not_or] at hmarks
      simp [isQuoting, hslash, hmarks.1, hmarks.2, hdollar, hchar]
    · exact absurd hquote hsingle
    · refine .double (.plain character) ?_
      have hmark : character ≠ doubleQuote := fun h => hdouble ⟨hquote, h⟩
      show isEscapable character = false
      simp [isEscapable, hslash, hmark, hdollar, hchar]

/-! ## The loops -/

/-- The loop over a word reads atoms, up to the end of the text or a separator. -/
theorem readWord_spec {s' : WordState} {stop : Nat} {text after : Text} (hlaid : Laid s index)
    (hback : backquote ∉ text) (h : readWord wordStart s index text = some (s', stop, after)) :
    ∃ atoms : List Atom, text = sourceText atoms ++ after ∧ stop = index + (sourceText atoms).length ∧
      Steps isWordBoundary after s.quote atoms s'.quote ∧ Extends s.shell s'.shell index atoms ∧
      Laid s' stop ∧ (s'.quote = none → Breaks isWordBoundary after) := by
  fun_induction readWord wordStart s index text with
  | case1 s index =>
    cases h
    exact ⟨[], rfl, rfl, .nil _, .refl _ _, hlaid, fun _ c hc => by cases hc⟩
  | case2 s index character rest hstop =>
    cases h
    refine ⟨[], rfl, rfl, .nil _, .refl _ _, hlaid, fun _ c hc => ?_⟩
    obtain rfl := Option.some.inj hc
    exact hstop.2
  | case3 s index character rest hgo state extra hread ih =>
    have hword : s.quote = none → isWordBoundary character = false := fun hquote =>
      Bool.eq_false_iff.mpr fun hboundary => hgo ⟨hquote, hboundary⟩
    obtain ⟨atom, hstep, hsource, hlength, htook⟩ := read_spec hlaid hback hword hread
    have hnext := htook.laid
    rw [hlength, ← Nat.add_assoc] at hnext
    have hrest : backquote ∉ rest.drop extra := fun hmem =>
      hback (List.mem_cons_of_mem _ (List.mem_of_mem_drop hmem))
    obtain ⟨atoms, htext, hstop, hsteps, hextends, hlast, hbreaks⟩ := ih hnext hrest h
    refine ⟨atom :: atoms, ?_, ?_, .cons ?_ hsteps, ?_, hlast, hbreaks⟩
    · rw [sourceText_cons, List.append_assoc, ← htext]
      exact hsource
    · rw [sourceText_cons, List.length_append, hlength, hstop]
      omega
    · rw [← htext]
      exact hstep
    · refine htook.shell.trans ?_
      rw [sourceText_cons, sourceText_nil, List.append_nil, hlength, ← Nat.add_assoc]
      exact hextends
  | case4 => cases h

/-- The word of a span. -/
def wordOf (span : Nat × Nat) : StaticShellWord := ⟨span.1, span.2⟩

/-- The segments that start at `index` are read. -/
structure Normalizes (shell result : NormalizedStaticShell) (index : Nat) (segments : List Segment) :
    Prop where
  text : result.text = shell.text ++ valueText (segments.flatMap Segment.atoms)
  words : result.words = shell.words ++ (wordSpans segments shell.text.length).map wordOf
  vars : result.vars = shell.vars ++
    (references (segments.flatMap Segment.atoms) index shell.text.length).map variableOf

theorem Normalizes.separator {result : NormalizedStaticShell} {segments : List Segment}
    (h : Normalizes (shell.append c index (index + 1) .literal false none) result (index + 1) segments) :
    Normalizes shell result index (.separator c :: segments) := by
  have hlength : (shell.append c index (index + 1) .literal false none).text.length =
      shell.text.length + 1 := by
    simp [NormalizedStaticShell.append]
  refine ⟨?_, ?_, ?_⟩
  · rw [h.text, List.flatMap_cons, valueText_append]
    exact List.append_assoc _ [c] _
  · rw [h.words, hlength]
    rfl
  · rw [h.vars, hlength]
    rfl

theorem Normalizes.word {middle result : NormalizedStaticShell} {stop : Nat} {pieces : List Piece}
    {segments : List Segment} (h : Extends shell middle index (pieces.flatMap Piece.atoms))
    (hstop : stop = index + (sourceText (pieces.flatMap Piece.atoms)).length)
    (hrest : Normalizes { middle with words := middle.words ++ [⟨shell.text.length, middle.text.length⟩] }
      result stop segments) :
    Normalizes shell result index (.word pieces :: segments) := by
  have hlength : middle.text.length =
      shell.text.length + (valueText (pieces.flatMap Piece.atoms)).length := by
    rw [h.text, List.length_append]
  refine ⟨?_, ?_, ?_⟩
  · rw [hrest.text, h.text, List.flatMap_cons, valueText_append, List.append_assoc]
    rfl
  · rw [hrest.words, h.words, hlength, List.append_assoc]
    rfl
  · rw [hrest.vars, h.vars, List.flatMap_cons, references_append, List.map_append, List.append_assoc,
      hlength, hstop]
    rfl

/-- The loop over the text reads segments. -/
theorem readShell_spec {result : NormalizedStaticShell} {text : Text}
    (hordered : Ordered shell index) (hback : backquote ∉ text)
    (h : readShell shell index text = some result) :
    ∃ segments : List Segment, (segmentCode isWordBoundary).text segments = text ∧
      (segmentCode isWordBoundary).Spells segments [] ∧ Normalizes shell result index segments ∧
      Ordered result (index + text.length) := by
  fun_induction readShell shell index text with
  | case1 shell index =>
    cases h
    refine ⟨[], rfl, trivial, ⟨?_, ?_, ?_⟩, hordered⟩ <;> exact (List.append_nil _).symm
  | case2 shell index character rest hboundary ih =>
    have hnext := hordered.append (le_refl index) (Nat.lt_succ_self index) character .literal false none
    have hrest : backquote ∉ rest := fun hmem => hback (List.mem_cons_of_mem _ hmem)
    obtain ⟨segments, htext, hspells, hnormalizes, hresult⟩ := ih hnext hrest h
    refine ⟨.separator character :: segments, ?_, ⟨hboundary, hspells⟩, hnormalizes.separator, ?_⟩
    · rw [Code.text_cons, htext]
      rfl
    · rw [List.length_cons, ← Nat.add_assoc, Nat.add_right_comm]
      exact hresult
  | case3 => cases h
  | case4 => cases h
  | case5 shell index character rest hboundary hcount s stop after hread hquote ih =>
    have hstart : Laid (.start shell index) index := ⟨hordered, rfl, fun last hlast => by cases hlast⟩
    have hshorter := readWord_lt (Bool.eq_false_iff.mpr hboundary) hread
    obtain ⟨atoms, htext, hstop, hsteps, hextends, hlaid, hbreaks⟩ := readWord_spec hstart hback hread
    have hclosed : s.quote = none := not_not.mp hquote
    obtain ⟨pieces, rfl, hpieces⟩ := remains_of_steps hsteps hclosed
    have hafter : backquote ∉ after := fun hmem =>
      hback (by rw [htext]; exact List.mem_append_right _ hmem)
    have hmiddle : Ordered { s.shell with
        words := s.shell.words ++ [⟨shell.text.length, s.shell.text.length⟩] } stop :=
      ⟨hlaid.ordered.length, hlaid.ordered.pairwise, hlaid.ordered.inside⟩
    obtain ⟨segments, hsegments, hspells, hnormalizes, hresult⟩ := ih hmiddle hafter h
    refine ⟨.word pieces :: segments, ?_, ⟨⟨?_, ?_, ?_⟩, hspells⟩,
      Normalizes.word hextends hstop hnormalizes, ?_⟩
    · rw [Code.text_cons, hsegments, htext, sourceText_pieces]
      rfl
    · rintro rfl
      rw [htext] at hshorter
      exact absurd hshorter (lt_irrefl _)
    · rw [hsegments, List.append_nil]
      exact hpieces
    · rw [hsegments, List.append_nil]
      exact hbreaks hclosed
    · rw [htext, List.length_append, ← Nat.add_assoc, ← hstop]
      exact hresult
  | case6 => cases h

/-! ## Normalized texts -/

theorem not_boundary_of_quoting (h : isQuoting c = true) : isWordBoundary c = false := by
  simp only [isQuoting, Bool.or_eq_true, decide_eq_true_eq] at h
  rcases h with (((rfl | rfl) | rfl) | rfl) | rfl <;> decide

theorem readShell_of_normalize {hasActiveShellNameGlob : NormalizedStaticShell → Option Bool}
    {text : Text} (h : normalizeStaticShell hasActiveShellNameGlob text = some shell) :
    backquote ∉ text ∧ readShell ⟨[], [], [], []⟩ 0 text = some shell := by
  unfold normalizeStaticShell at h
  split_ifs at h with hrejected
  rw [not_or, not_or] at hrejected
  have hback : backquote ∉ text := fun hmem => hrejected.2.1 (List.contains_iff_mem.mpr hmem)
  split at h
  · rename_i found hfound
    split at h
    · cases h
      exact ⟨hback, hfound⟩
    · cases h
  · cases h

/-- The variable spells the reference `r`, in the text and in the normalized text, and `before` is read
before it. -/
structure Refers (text : Text) (shell : NormalizedStaticShell) (v : StaticShellVariable)
    (before : List Atom) (r : Reference) : Prop where
  name : isName r.name = true
  place : v = variableOf ((sourceText before).length, (valueText before).length, r)
  source : (text.take v.sourceEnd).drop v.sourceStart = r.render
  value : (shell.text.take v.stop).drop v.start = r.render

theorem slice_middle (front middle back : Text) :
    ((front ++ (middle ++ back)).take (front.length + middle.length)).drop front.length = middle := by
  rw [List.take_length_add_append, List.drop_left, List.take_left]

/-- An accepted text has one reading by the grammar. Its value, the spans of its words and its references
are what is returned; there is a source for each character, in order and inside of the text; and no
reference stands between single quotes. -/
theorem normalizeStaticShell_reads (hasActiveShellNameGlob : NormalizedStaticShell → Option Bool)
    {text : Text} {shell : NormalizedStaticShell}
    (h : normalizeStaticShell hasActiveShellNameGlob text = some shell) :
    (∃ segments : List Segment, Reads isWordBoundary segments text ∧
      (∀ other : List Segment, Reads isWordBoundary other text → other = segments) ∧
      shell.text = valueText (segments.flatMap Segment.atoms) ∧
      shell.words = (wordSpans segments 0).map wordOf ∧
      shell.vars = (references (segments.flatMap Segment.atoms) 0 0).map variableOf ∧
      ∀ v ∈ shell.vars, ∃ before after quote r, quote ≠ some .single ∧
        segments.flatMap Segment.atoms = before ++ Atom.ofReference quote r :: after ∧
        Refers text shell v before r) ∧
    shell.sources.length = shell.text.length ∧
    (shell.sources.Pairwise fun a b => a.stop ≤ b.start) ∧
    ∀ source ∈ shell.sources, source.start < source.stop ∧ source.stop ≤ text.length := by
  obtain ⟨hback, hread⟩ := readShell_of_normalize h
  have hempty : Ordered ⟨[], [], [], []⟩ 0 := ⟨rfl, .nil, fun source hsource => by cases hsource⟩
  obtain ⟨segments, htext, hspells, hnormalizes, hordered⟩ := readShell_spec hempty hback hread
  rw [Nat.zero_add] at hordered
  have hvalue : shell.text = valueText (segments.flatMap Segment.atoms) := hnormalizes.text
  have hvars : shell.vars = (references (segments.flatMap Segment.atoms) 0 0).map variableOf :=
    hnormalizes.vars
  have hsource : text = sourceText (segments.flatMap Segment.atoms) := by
    rw [sourceText_segments, htext]
  refine ⟨⟨segments, ⟨htext, hspells⟩, fun other hother => ?_, hvalue, hnormalizes.words, hvars, ?_⟩,
    hordered.length, hordered.pairwise, hordered.inside⟩
  · exact reads_unique (fun c => not_boundary_of_quoting) hother ⟨htext, hspells⟩
  · intro v hv
    rw [hvars] at hv
    obtain ⟨⟨i, j, r⟩, hmem, rfl⟩ := List.mem_map.mp hv
    obtain ⟨before, atom, after, hatoms, hr, rfl, rfl⟩ := exists_of_mem_references hmem
    have hatom : atom ∈ segments.flatMap Segment.atoms := by
      rw [hatoms]
      exact List.mem_append_right _ List.mem_cons_self
    obtain ⟨quote, rfl, hquote, hname⟩ := reference_of_mem hspells hatom hr
    rw [Nat.zero_add, Nat.zero_add]
    refine ⟨before, after, quote, r, hquote, hatoms, hname, rfl, ?_, ?_⟩
    · rw [hsource, hatoms, sourceText_append, sourceText_cons]
      exact slice_middle _ r.render _
    · rw [hvalue, hatoms, valueText_append, valueText_cons]
      exact slice_middle _ r.render _

/-- `echo 'a b'"$HOME"`. -/
def echoHome : Text := ascii "echo 'a b'\"$HOME\""

theorem echoHome_reads :
    ∃ shell, normalizeStaticShell (fun _ => some false) echoHome = some shell ∧
      shell.words = [⟨0, 4⟩, ⟨5, 13⟩] ∧ shell.vars = [⟨8, 13, 11, 16⟩] ∧
      shell.sources.length = shell.text.length := by
  obtain ⟨shell, hshell⟩ : ∃ shell, normalizeStaticShell (fun _ => some false) echoHome = some shell :=
    Option.isSome_iff_exists.mp (by decide +kernel)
  have hwords : (normalizeStaticShell (fun _ => some false) echoHome).map (·.words) =
      some [⟨0, 4⟩, ⟨5, 13⟩] := by decide +kernel
  have hvars : (normalizeStaticShell (fun _ => some false) echoHome).map (·.vars) =
      some [⟨8, 13, 11, 16⟩] := by decide +kernel
  rw [hshell] at hwords hvars
  exact ⟨shell, hshell, Option.some.inj hwords, Option.some.inj hvars,
    (normalizeStaticShell_reads _ hshell).2.1⟩

end CodingAgent.StaticShell
