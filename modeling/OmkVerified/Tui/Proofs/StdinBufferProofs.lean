import OmkVerified.Tui.StdinBuffer

/-!
# Sequences of a buffer

A sequence is extracted as soon as its last unit is there, whatever comes after it, unless a double
`ESC` stands before a unit that begins a sequence.
-/

namespace Tui.StdinBuffer

open Lib

variable {buffer candidate rest left sequence : Text} {unit : CodeUnit}

/-! ## Status -/

theorem Pending.nil : Pending [] := by
  intro start hstart hne
  exact absurd (List.prefix_nil.mp hstart) hne

theorem Pending.of_prefix {start : Text} (h : Pending buffer) (hstart : start <+: buffer) :
    Pending start := fun part hpart => h part (hpart.trans hstart)

theorem head_of_status {data : Text} (h : isCompleteSequence data ≠ .notEscape) :
    data.head? = some esc := by
  by_contra hhead
  exact h (if_pos hhead)

theorem csi_ne_notEscape (data : Text) : isCompleteCsiSequence data ≠ .notEscape := by
  unfold isCompleteCsiSequence
  dsimp only
  cases (data.drop 2).getLast? with
  | none => split_ifs <;> simp
  | some last =>
    dsimp only
    split_ifs <;> simp

theorem status_of_head {data : Text} (h : data.head? = some esc) :
    isCompleteSequence data ≠ .notEscape := by
  have hcsi := csi_ne_notEscape data
  unfold isCompleteSequence isCompleteOscSequence isCompleteDcsSequence isCompleteApcSequence
  rw [if_neg (not_not_intro h)]
  dsimp only
  split_ifs <;> simp [hcsi]

theorem Pending.concat (h : Pending buffer)
    (hunit : isCompleteSequence (buffer ++ [unit]) = .incomplete) : Pending (buffer ++ [unit]) := by
  intro start hstart hne
  rcases List.prefix_concat_iff.mp hstart with rfl | hstart
  · exact hunit
  · exact h start hstart hne

theorem Pending.head (h : Pending buffer) (hne : buffer ≠ []) : buffer.head? = some esc := by
  apply head_of_status
  rw [h buffer (List.prefix_refl _) hne]
  decide

theorem pending_pasteStart {start : Text} (h : start <+: bracketedPasteStart) (hne : start ≠ [])
    (hlength : start.length < 6) : isCompleteSequence start = .incomplete := by
  rw [List.prefix_iff_eq_take.mp h]
  have hpos := List.length_pos_of_ne_nil hne
  generalize start.length = count at hlength hpos
  interval_cases count <;> decide

/-! ## One sequence -/

theorem findSequence_pending (hcandidate : Pending (candidate ++ rest)) (hne : candidate ≠ []) :
    findSequence candidate rest = none := by
  induction rest generalizing candidate with
  | nil =>
    have hstatus := hcandidate candidate (List.prefix_append _ _) hne
    unfold findSequence
    rw [if_pos hstatus]
  | cons next rest ih =>
    have hstatus := hcandidate candidate (List.prefix_append _ _) hne
    unfold findSequence
    rw [hstatus]
    rw [List.append_cons] at hcandidate
    exact ih hcandidate (by simp)

theorem findSequence_complete (hpending : ∀ start, start <+: rest → start ≠ rest →
      isCompleteSequence (candidate ++ start) = .incomplete)
    (hcomplete : isCompleteSequence (candidate ++ rest) = .complete)
    (hends : ¬ DoubleEscape (candidate ++ rest) left) :
    findSequence candidate (rest ++ left) = some (candidate ++ rest, left) := by
  induction rest generalizing candidate with
  | nil =>
    rw [List.append_nil] at hcomplete hends
    rw [List.nil_append, List.append_nil]
    cases left with
    | nil =>
      unfold findSequence
      rw [hcomplete, if_neg (by decide)]
    | cons next left =>
      unfold findSequence
      rw [hcomplete]
      refine if_neg fun hboth => hends ⟨hboth.1, next, rfl, hboth.2⟩
  | cons next rest ih =>
    have hstatus := hpending [] List.nil_prefix (by simp)
    rw [List.append_nil] at hstatus
    rw [List.append_cons] at hcomplete hends
    rw [List.cons_append, List.append_cons candidate next rest]
    unfold findSequence
    rw [hstatus]
    refine ih ?_ hcomplete hends
    intro start hstart hne
    have hlonger := hpending (next :: start) ((List.prefix_cons_inj next).mpr hstart)
      (by simpa using hne)
    rwa [List.append_cons] at hlonger

theorem findSequence_eq_some (hne : candidate ≠ [])
    (h : findSequence candidate rest = some (sequence, left)) :
    sequence ++ left = candidate ++ rest ∧ sequence ≠ [] := by
  induction rest generalizing candidate with
  | nil =>
    unfold findSequence at h
    split_ifs at h
    cases h
    exact ⟨rfl, hne⟩
  | cons next rest ih =>
    unfold findSequence at h
    split at h
    · split_ifs at h with hdouble
      · cases h
        rw [hdouble.1]
        exact ⟨rfl, by simp⟩
      · cases h
        exact ⟨rfl, hne⟩
    · have hrest := ih (by simp) h
      rw [← List.append_cons] at hrest
      exact hrest
    · cases h
      exact ⟨rfl, hne⟩

/-! ## All sequences -/

theorem extractFrom_fuel {fuel : Nat} (fuel' : Nat) (h : buffer.length ≤ fuel)
    (h' : buffer.length ≤ fuel') : extractFrom fuel buffer = extractFrom fuel' buffer := by
  induction fuel generalizing buffer fuel' with
  | zero =>
    have hnil := List.length_eq_zero_iff.mp (Nat.le_zero.mp h)
    subst hnil
    cases fuel' <;> rfl
  | succ fuel ih =>
    cases buffer with
    | nil => cases fuel' <;> rfl
    | cons unit rest =>
      rw [List.length_cons] at h h'
      obtain ⟨fuel', rfl⟩ : ∃ f, fuel' = f + 1 := ⟨fuel' - 1, by omega⟩
      unfold extractFrom
      split_ifs with hesc
      · cases hfind : findSequence [unit] rest with
        | none => rfl
        | some parts =>
          obtain ⟨sequence, left⟩ := parts
          obtain ⟨heq, hne⟩ := findSequence_eq_some (by simp) hfind
          have hlength := congrArg List.length heq
          have hpos := List.length_pos_of_ne_nil hne
          rw [List.length_append, List.length_append, List.length_singleton] at hlength
          dsimp only
          rw [ih fuel' (by omega) (by omega)]
      · rw [ih fuel' (by omega) (by omega)]

theorem extract_pending (h : Pending buffer) : extractCompleteSequences buffer = ([], buffer) := by
  cases buffer with
  | nil => rfl
  | cons unit rest =>
    have hhead := h.head (by simp)
    rw [List.head?_cons, Option.some.injEq] at hhead
    have hnone := findSequence_pending h (List.cons_ne_nil unit [])
    unfold extractCompleteSequences
    rw [List.length_cons, extractFrom, if_pos hhead, hnone]

/-- A sequence that the units so far complete. -/
structure Completes (buffer : Text) (unit : CodeUnit) : Prop where
  pending : Pending buffer
  status : isCompleteSequence (buffer ++ [unit]) ≠ .incomplete

/-- Only a single unit that is no `ESC` is no escape sequence. -/
theorem Completes.cases (h : Completes buffer unit) :
    (buffer = [] ∧ unit ≠ esc) ∨ isCompleteSequence (buffer ++ [unit]) = .complete := by
  cases hstatus : isCompleteSequence (buffer ++ [unit]) with
  | complete => exact .inr rfl
  | incomplete => exact absurd hstatus h.status
  | notEscape =>
    left
    by_cases hnil : buffer = []
    · refine ⟨hnil, ?_⟩
      rintro rfl
      rw [hnil] at hstatus
      exact absurd hstatus (by decide)
    · have hhead : (buffer ++ [unit]).head? = some esc := by
        rw [List.head?_append_of_ne_nil _ hnil]
        exact h.pending.head hnil
      exact absurd hstatus (status_of_head hhead)

/-- The first sequence does not depend on what comes after it. -/
theorem extract_append (h : Completes buffer unit) (hends : ¬ DoubleEscape (buffer ++ [unit]) rest) :
    extractCompleteSequences (buffer ++ [unit] ++ rest) =
      ((buffer ++ [unit]) :: (extractCompleteSequences rest).1, (extractCompleteSequences rest).2) := by
  unfold extractCompleteSequences
  rcases h.cases with ⟨rfl, hesc⟩ | hcomplete
  · rw [List.nil_append, List.singleton_append, List.length_cons, extractFrom, if_neg hesc]
  · have hhead : (buffer ++ [unit]).head? = some esc := head_of_status (by rw [hcomplete]; decide)
    obtain ⟨tail, htail⟩ : ∃ tail, buffer ++ [unit] = esc :: tail := by
      cases hlist : buffer ++ [unit] with
      | nil => simp at hlist
      | cons first tail =>
        rw [hlist, List.head?_cons, Option.some.injEq] at hhead
        exact ⟨tail, by rw [hhead]⟩
    have hfind : findSequence [esc] (tail ++ rest) = some (esc :: tail, rest) := by
      rw [htail] at hcomplete hends
      suffices hpending : ∀ start, start <+: tail → start ≠ tail →
          isCompleteSequence ([esc] ++ start) = .incomplete from
        findSequence_complete hpending hcomplete hends
      intro start hstart hne
      apply h.pending _ _ (by simp)
      have hpre : esc :: start <+: buffer ++ [unit] := by
        rw [htail]
        exact (List.prefix_cons_inj esc).mpr hstart
      rcases List.prefix_concat_iff.mp hpre with heq | hpre
      · rw [htail, List.cons.injEq] at heq
        exact absurd heq.2 hne
      · exact hpre
    rw [htail, List.cons_append, List.length_cons, extractFrom, if_pos rfl, hfind]
    dsimp only
    rw [extractFrom_fuel rest.length (by simp) le_rfl]

end Tui.StdinBuffer

/-!
# No input is lost

Every unit that is fed to the buffer is emitted, suppressed, returned or still there, as long as no
paste starts right after an incomplete sequence.
-/

namespace Tui.StdinBuffer

open Lib

/-! ## Logs -/

/-- The log has the events of the state, and knows the key that a unit may repeat. -/
structure Logged (log : List Output) (state : Buffer) : Prop where
  events : log.filterMap Output.event? = state.events
  justified : Justified log
  pending : state.pendingKittyPrintableCodepoint = none ∨
    state.pendingKittyPrintableCodepoint = lastPrintable log

theorem lastPrintable_concat (log : List Output) (output : Output) :
    lastPrintable (log ++ [output]) =
      match output with
      | .emitted (.data sequence) => parseUnmodifiedKittyPrintableCodepoint sequence
      | _ => none := by
  unfold lastPrintable
  rw [List.getLast?_concat]
  cases output with
  | emitted event => cases event <;> rfl
  | suppressed unit => rfl
  | returned sequence => rfl

theorem Justified.concat {log : List Output} (h : Justified log) {output : Output}
    (houtput : ∀ unit, output = .suppressed unit → lastPrintable log = some unit) :
    Justified (log ++ [output]) := by
  intro front unit back heq
  rcases List.eq_nil_or_concat' back with rfl | ⟨back, last, rfl⟩
  · obtain ⟨rfl, hlast⟩ := List.append_inj' heq rfl
    exact houtput unit (List.singleton_inj.mp hlast)
  · rw [← List.cons_append, ← List.append_assoc] at heq
    exact h front unit back (List.append_inj' heq rfl).1

variable {log more : List Output} {state : Buffer} {chunk content : Text}

/-- A sequence is emitted, or suppressed as a duplicate. -/
theorem Logged.emitDataSequence (h : Logged log state) (sequence : Text) :
    ∃ output : Output, Logged (log ++ [output]) (emitDataSequence state sequence) ∧
      output.text = sequence ∧ output.returned? = none := by
  unfold StdinBuffer.emitDataSequence
  by_cases hduplicate : (if sequence.length = 1 then sequence.head? else none) ≠ none ∧
      (if sequence.length = 1 then sequence.head? else none) = state.pendingKittyPrintableCodepoint
  · simp only [if_pos hduplicate]
    obtain ⟨hraw, hpending⟩ := hduplicate
    have hsingle : sequence.length = 1 := by
      by_contra hne
      rw [if_neg hne] at hraw
      exact hraw rfl
    obtain ⟨unit, rfl⟩ := List.length_eq_one_iff.mp hsingle
    refine ⟨.suppressed unit, ⟨?_, h.justified.concat ?_, .inl rfl⟩, rfl, rfl⟩
    · rw [List.filterMap_append, h.events]
      exact List.append_nil _
    · rintro _ ⟨⟩
      rcases h.pending with hnone | hlast
      · rw [hnone] at hpending
        exact absurd hpending hraw
      · rw [← hlast, ← hpending]
        rfl
  · simp only [if_neg hduplicate]
    refine ⟨.emitted (.data sequence), ⟨?_, h.justified.concat nofun, .inr ?_⟩, rfl, rfl⟩
    · rw [List.filterMap_append, h.events]
      rfl
    · rw [lastPrintable_concat]

/-- The rest of the state is left alone. -/
structure SameBuffers (before after : Buffer) : Prop where
  buffer : after.buffer = before.buffer
  pasteMode : after.pasteMode = before.pasteMode
  pasteBuffer : after.pasteBuffer = before.pasteBuffer

theorem SameBuffers.retained_eq {before after : Buffer} (h : SameBuffers before after) :
    retained after = retained before := by
  unfold retained
  rw [h.pasteMode, h.pasteBuffer, h.buffer]

theorem sameBuffers_emitDataSequence (state : Buffer) (sequence : Text) :
    SameBuffers state (emitDataSequence state sequence) := by
  unfold emitDataSequence
  dsimp only
  generalize (if sequence.length = 1 then sequence.head? else none) = rawCodepoint
  split_ifs <;> exact ⟨rfl, rfl, rfl⟩

theorem sameBuffers_emitAll (state : Buffer) (sequences : List Text) :
    SameBuffers state (sequences.foldl emitDataSequence state) := by
  induction sequences generalizing state with
  | nil => exact ⟨rfl, rfl, rfl⟩
  | cons sequence sequences ih =>
    have hfirst := sameBuffers_emitDataSequence state sequence
    have hrest := ih (emitDataSequence state sequence)
    exact ⟨hrest.buffer.trans hfirst.buffer, hrest.pasteMode.trans hfirst.pasteMode,
      hrest.pasteBuffer.trans hfirst.pasteBuffer⟩

/-- More output: it goes on from the log to the state, stands for a text and returns nothing. -/
structure Extends (log more : List Output) (state : Buffer) (text : Text) : Prop where
  logged : Logged (log ++ more) state
  text : more.flatMap Output.text = text
  returned : more.filterMap Output.returned? = []

theorem Extends.trans {more' : List Output} {state' : Buffer} {text text' : Text}
    (h : Extends log more state text) (h' : Extends (log ++ more) more' state' text') :
    Extends log (more ++ more') state' (text ++ text') where
  logged := by
    rw [← List.append_assoc]
    exact h'.logged
  text := by rw [List.flatMap_append, h.text, h'.text]
  returned := by rw [List.filterMap_append, h.returned, h'.returned, List.append_nil]

theorem Logged.emitAll (h : Logged log state) (sequences : List Text) :
    ∃ more, Extends log more (sequences.foldl StdinBuffer.emitDataSequence state)
      sequences.flatten := by
  induction sequences generalizing log state with
  | nil =>
    refine ⟨[], ?_, rfl, rfl⟩
    rw [List.append_nil]
    exact h
  | cons sequence sequences ih =>
    obtain ⟨output, hlogged, htext, hreturned⟩ := h.emitDataSequence sequence
    obtain ⟨more, hmore⟩ := ih hlogged
    refine ⟨[output] ++ more, Extends.trans ⟨hlogged, ?_, ?_⟩ hmore⟩
    · rw [List.flatMap_singleton, htext]
    · rw [List.filterMap_cons_none hreturned, List.filterMap_nil]

theorem Logged.emitPaste (h : Logged log state) (content : Text) :
    Extends log [.emitted (.paste content)] (StdinBuffer.emitPaste state content)
      (bracketedPasteStart ++ content ++ bracketedPasteEnd) where
  logged := by
    refine ⟨?_, h.justified.concat nofun, .inl rfl⟩
    rw [List.filterMap_append, h.events]
    rfl
  text := List.flatMap_singleton _ _
  returned := rfl

/-! ## Sequences -/

theorem extractFrom_flatten (fuel : Nat) (text : Text) :
    (extractFrom fuel text).1.flatten ++ (extractFrom fuel text).2 = text := by
  induction fuel generalizing text with
  | zero => rfl
  | succ fuel ih =>
    cases text with
    | nil => rfl
    | cons unit rest =>
      unfold extractFrom
      split_ifs with hesc
      · cases hfind : findSequence [unit] rest with
        | none => rfl
        | some parts =>
          obtain ⟨sequence, left⟩ := parts
          simp only [List.flatten_cons, List.append_assoc, ih]
          exact (findSequence_eq_some (List.cons_ne_nil _ _) hfind).1
      · simp only [List.flatten_cons, List.append_assoc, ih]
        rfl

theorem extract_flatten (text : Text) :
    (extractCompleteSequences text).1.flatten ++ (extractCompleteSequences text).2 = text :=
  extractFrom_flatten _ _

/-! ## Chunks -/

/-- Outside of a paste there is no paste to go on with, and inside of one no buffer. -/
structure Tidy (state : Buffer) : Prop where
  outside : state.pasteMode = false → state.pasteBuffer = []
  inside : state.pasteMode = true → state.buffer = []

/-- The state is tidy, and what has come out and what is retained is the input. -/
def Conserves (log : List Output) (input : Text) (state : Buffer) : Prop :=
  Tidy state ∧ ∃ more text, Extends log more state text ∧ text ++ retained state = input

theorem Conserves.of_extends {after : Buffer} {text input : Text} (h : Extends log more state text)
    (hafter : Conserves (log ++ more) input after) : Conserves log (text ++ input) after := by
  obtain ⟨htidy, more', text', hextends, hretained⟩ := hafter
  exact ⟨htidy, more ++ more', text ++ text', h.trans hextends, by rw [List.append_assoc, hretained]⟩

theorem Conserves.of_logged (h : Logged log state) (htidy : Tidy state) :
    Conserves log (retained state) state := by
  refine ⟨htidy, [], [], ⟨?_, rfl, rfl⟩, rfl⟩
  rw [List.append_nil]
  exact h

theorem tidy_emitPaste (state : Buffer) (content : Text) (h : state.buffer = []) :
    Tidy (emitPaste state content) ∧ retained (emitPaste state content) = [] :=
  ⟨⟨fun _ => rfl, nofun⟩, h⟩

/-- All that comes before a paste is emitted. -/
theorem Logged.startPaste (h : Logged log state) {before : Text}
    (hbefore : (extractCompleteSequences before).2 = []) (content : Text) :
    ∃ more, Extends log more (StdinBuffer.startPaste state before content) before := by
  have htext := extract_flatten before
  rw [hbefore, List.append_nil] at htext
  obtain ⟨more, hmore⟩ := h.emitAll (extractCompleteSequences before).1
  unfold StdinBuffer.startPaste
  by_cases hlength : 0 < before.length
  · simp only [if_pos hlength]
    refine ⟨more, ⟨hmore.logged.events, hmore.logged.justified, .inl rfl⟩, ?_, hmore.returned⟩
    rw [hmore.text, htext]
  · simp only [if_neg hlength]
    rw [Nat.not_lt, Nat.le_zero, List.length_eq_zero_iff] at hlength
    refine ⟨[], ⟨?_, ?_, .inl rfl⟩, hlength.symm, rfl⟩
    · rw [List.append_nil]
      exact h.events
    · rw [List.append_nil]
      exact h.justified

theorem wholeAfter_of_not_pasting (hmode : state.pasteMode = false) (hbuffer : state.buffer = [])
    (h : Whole chunk) : WholeAfter state chunk := by
  unfold WholeAfter
  rw [if_neg (by rw [hmode]; exact nofun), hbuffer]
  exact h

/-- The paste that a state is in ends. -/
theorem Logged.endPaste (h : Logged log state) (hbuffer : state.buffer = []) (content : Text)
    {remaining after : Text} {next : Buffer}
    (hnext : Conserves (log ++ [.emitted (.paste content)])
      (retained (StdinBuffer.emitPaste state content) ++ remaining) next)
    (hafter : after = bracketedPasteStart ++ (content ++ bracketedPasteEnd ++ remaining)) :
    Conserves log after next := by
  rw [(tidy_emitPaste state content hbuffer).2, List.nil_append] at hnext
  have hconserves := Conserves.of_extends (h.emitPaste content) hnext
  rw [hafter, ← List.append_assoc, ← List.append_assoc]
  exact hconserves

theorem retained_inside (hmode : state.pasteMode = true) (htidy : Tidy state) :
    retained state = bracketedPasteStart ++ state.pasteBuffer := by
  unfold retained
  rw [if_pos hmode, htidy.inside hmode, List.append_nil]

theorem retained_outside (hmode : state.pasteMode = false) : retained state = state.buffer := by
  unfold retained
  rw [if_neg (by rw [hmode]; exact nofun), List.nil_append]

theorem retained_endPaste (hmode : state.pasteMode = true) (htidy : Tidy state) {remaining : Text}
    (hend : cutFirst bracketedPasteEnd (state.pasteBuffer ++ (state.buffer ++ chunk)) =
      some (content, remaining)) :
    retained state ++ chunk =
      bracketedPasteStart ++ (content ++ bracketedPasteEnd ++ remaining) := by
  rw [retained_inside hmode htidy, List.append_assoc, ← cutFirst_eq_some hend, htidy.inside hmode]
  rfl

theorem retained_startPaste (hmode : state.pasteMode = false) {before rest : Text}
    (hstart : cutFirst bracketedPasteStart (state.buffer ++ chunk) = some (before, rest)) :
    retained state ++ chunk = before ++ (bracketedPasteStart ++ rest) := by
  rw [retained_outside hmode, cutFirst_eq_some hstart, List.append_assoc]

/-- What a paste that ends leaves is whole. -/
theorem Whole.of_wholeAfter_inside {remaining : Text} (hmode : state.pasteMode = true)
    (hwhole : WholeAfter state chunk)
    (hend : cutFirst bracketedPasteEnd (state.pasteBuffer ++ (state.buffer ++ chunk)) =
      some (content, remaining)) :
    Whole remaining := by
  unfold WholeAfter at hwhole
  rw [if_pos hmode] at hwhole
  exact hwhole content remaining hend

theorem Whole.of_wholeAfter_outside (hmode : state.pasteMode = false)
    (hwhole : WholeAfter state chunk) : Whole (state.buffer ++ chunk) := by
  unfold WholeAfter at hwhole
  rwa [if_neg (by rw [hmode]; exact nofun)] at hwhole

theorem Whole.before {text before rest : Text} (h : Whole text)
    (hstart : cutFirst bracketedPasteStart text = some (before, rest)) :
    (extractCompleteSequences before).2 = [] := by
  cases h with
  | plain hnone =>
    rw [hnone] at hstart
    cases hstart
  | opened hstart' hbefore _ =>
    rw [hstart'] at hstart
    cases hstart
    exact hbefore
  | pasted hstart' hbefore _ _ =>
    rw [hstart'] at hstart
    cases hstart
    exact hbefore

theorem Whole.remaining {text before rest remaining : Text} (h : Whole text)
    (hstart : cutFirst bracketedPasteStart text = some (before, rest))
    (hend : cutFirst bracketedPasteEnd rest = some (content, remaining)) : Whole remaining := by
  cases h with
  | plain hnone =>
    rw [hnone] at hstart
    cases hstart
  | opened hstart' _ hnone =>
    rw [hstart'] at hstart
    cases hstart
    rw [hnone] at hend
    cases hend
  | pasted hstart' _ hend' hremaining =>
    rw [hstart'] at hstart
    cases hstart
    rw [hend'] at hend
    cases hend
    exact hremaining

theorem Logged.process (h : Logged log state) (htidy : Tidy state)
    (hwhole : WholeAfter state chunk) :
    Conserves log (retained state ++ chunk) (StdinBuffer.process state chunk) := by
  fun_induction StdinBuffer.process state chunk generalizing log with
  | case1 state chunk hempty =>
    obtain ⟨output, hlogged, htext, hreturned⟩ := h.emitDataSequence []
    have hsame := sameBuffers_emitDataSequence state []
    rw [List.length_eq_zero_iff.mp hempty.1, List.append_nil]
    refine ⟨⟨fun hmode => ?_, fun hmode => ?_⟩, [output], [], ⟨hlogged, ?_, ?_⟩, ?_⟩
    · rw [hsame.pasteBuffer]
      exact htidy.outside (hsame.pasteMode.symm.trans hmode)
    · rw [hsame.buffer]
      exact htidy.inside (hsame.pasteMode.symm.trans hmode)
    · rw [List.flatMap_singleton, htext]
    · rw [List.filterMap_cons_none hreturned, List.filterMap_nil]
    · rw [hsame.retained_eq, List.nil_append]
  | case2 state chunk _ hmode pasteBuffer content remaining hend ended _ =>
    rename_i ih
    have hlogged : Logged log { state with buffer := [] } := ⟨h.events, h.justified, h.pending⟩
    have hremaining := Whole.of_wholeAfter_inside hmode hwhole hend
    exact hlogged.endPaste rfl content
      (ih (hlogged.emitPaste content).logged (tidy_emitPaste _ _ rfl).1
        (wholeAfter_of_not_pasting rfl rfl hremaining))
      (retained_endPaste hmode htidy hend)
  | case3 state chunk _ hmode pasteBuffer content remaining hend ended =>
    rename_i hremaining
    have hlogged : Logged log { state with buffer := [] } := ⟨h.events, h.justified, h.pending⟩
    obtain rfl := List.length_eq_zero_iff.mp (Nat.le_zero.mp (Nat.not_lt.mp hremaining))
    refine hlogged.endPaste rfl content ?_ (retained_endPaste hmode htidy hend)
    rw [List.append_nil]
    exact .of_logged (hlogged.emitPaste content).logged (tidy_emitPaste _ _ rfl).1
  | case4 state chunk _ hmode pasteBuffer =>
    have hlogged : Logged log { state with buffer := [], pasteBuffer := pasteBuffer } :=
      ⟨h.events, h.justified, h.pending⟩
    have htext : retained state ++ chunk =
        retained { state with buffer := [], pasteBuffer := pasteBuffer } := by
      rw [retained_inside hmode htidy, List.append_assoc]
      unfold retained
      rw [if_pos hmode, List.append_nil]
      show _ = _ ++ (state.pasteBuffer ++ (state.buffer ++ chunk))
      rw [htidy.inside hmode]
      rfl
    rw [htext]
    refine .of_logged hlogged ⟨fun houtside => ?_, fun _ => rfl⟩
    rw [show state.pasteMode = false from houtside] at hmode
    cases hmode
  | case5 state chunk _ hmode before rest hstart started content remaining hend ended _ =>
    rename_i ih
    rw [Bool.not_eq_true] at hmode
    have htext := Whole.of_wholeAfter_outside hmode hwhole
    obtain ⟨more, hmore⟩ := h.startPaste (htext.before hstart) rest
    rw [retained_startPaste hmode hstart]
    have hended := ih (hmore.logged.emitPaste content).logged (tidy_emitPaste _ _ rfl).1
      (wholeAfter_of_not_pasting rfl rfl (htext.remaining hstart hend))
    refine .of_extends hmore (hmore.logged.endPaste rfl content hended ?_)
    rw [cutFirst_eq_some hend]
  | case6 state chunk _ hmode before rest hstart started content remaining hend ended =>
    rename_i hremaining
    rw [Bool.not_eq_true] at hmode
    have htext := Whole.of_wholeAfter_outside hmode hwhole
    obtain ⟨more, hmore⟩ := h.startPaste (htext.before hstart) rest
    obtain rfl := List.length_eq_zero_iff.mp (Nat.le_zero.mp (Nat.not_lt.mp hremaining))
    rw [retained_startPaste hmode hstart]
    have hended := Conserves.of_logged (hmore.logged.emitPaste content).logged
      (tidy_emitPaste _ _ rfl).1
    rw [← List.append_nil (retained _)] at hended
    refine .of_extends hmore (hmore.logged.endPaste rfl content hended ?_)
    rw [cutFirst_eq_some hend]
  | case7 state chunk _ hmode before rest hstart started =>
    rw [Bool.not_eq_true] at hmode
    have htext := Whole.of_wholeAfter_outside hmode hwhole
    obtain ⟨more, hmore⟩ := h.startPaste (htext.before hstart) rest
    rw [retained_startPaste hmode hstart]
    refine .of_extends hmore ?_
    have hretained : retained started = bracketedPasteStart ++ rest := List.append_nil _
    rw [← hretained]
    exact .of_logged hmore.logged ⟨nofun, fun _ => rfl⟩
  | case8 state chunk _ hmode hstart =>
    rw [Bool.not_eq_true] at hmode
    have hlogged : Logged log
        { state with buffer := (extractCompleteSequences (state.buffer ++ chunk)).2 } :=
      ⟨h.events, h.justified, h.pending⟩
    obtain ⟨more, hmore⟩ := hlogged.emitAll (extractCompleteSequences (state.buffer ++ chunk)).1
    have hsame := sameBuffers_emitAll
      { state with buffer := (extractCompleteSequences (state.buffer ++ chunk)).2 }
      (extractCompleteSequences (state.buffer ++ chunk)).1
    have houtside := hsame.pasteMode.trans hmode
    refine ⟨⟨fun _ => ?_, fun hinside => ?_⟩, more, _, hmore, ?_⟩
    · exact hsame.pasteBuffer.trans (htidy.outside hmode)
    · rw [houtside] at hinside
      cases hinside
    · rw [retained_outside houtside, retained_outside hmode, hsame.buffer]
      exact extract_flatten _

/-! ## Sessions -/

/-- Whatever an action does, nothing is lost of a session where nothing is lost before. -/
def Sound (session : Session) : Prop :=
  ∃ log, Accounts log session ∧ Logged log session.state ∧ Tidy session.state

/-- What `flush` returns is all that is retained, and only a paste is not flushed. -/
theorem flush_cases (h : Logged log state) (htidy : Tidy state) :
    flush state = (state, []) ∨
      (flush state).2 = [retained state] ∧ retained (flush state).1 = [] ∧
        (flush state).1.pendingKittyPrintableCodepoint = none ∧ Logged log (flush state).1 ∧
        Tidy (flush state).1 := by
  unfold flush
  by_cases hempty : state.buffer.length = 0
  · rw [if_pos hempty]
    exact .inl rfl
  · rw [if_neg hempty]
    have hmode : state.pasteMode = false := by
      by_contra hmode
      rw [htidy.inside (Bool.eq_true_of_not_eq_false hmode)] at hempty
      exact hempty rfl
    refine .inr ⟨?_, ?_, rfl, ⟨h.events, h.justified, .inl rfl⟩, htidy.outside, fun _ => rfl⟩
    · rw [retained_outside hmode]
    · exact retained_outside hmode

theorem sound_act {session : Session} (h : Sound session) {action : Action}
    (hallowed : Allowed session action) : Sound (act session action) := by
  obtain ⟨log, haccounts, hlogged, htidy⟩ := h
  cases action with
  | process chunk =>
    obtain ⟨htidy', more, text, hmore, htext⟩ := hlogged.process htidy hallowed
    refine ⟨log ++ more, ⟨hmore.logged.events, ?_, hmore.logged.justified, ?_⟩, hmore.logged, htidy'⟩
    · rw [List.filterMap_append, hmore.returned, List.append_nil]
      exact haccounts.returned
    · rw [List.flatMap_append, hmore.text, List.append_assoc]
      show _ ++ (text ++ retained (process session.state chunk)) = _
      rw [htext, ← List.append_assoc, haccounts.text]
      rfl
  | timeout =>
    unfold act onTimeout
    rcases flush_cases hlogged htidy with hnothing | ⟨hflushed, hretained, -, hlogged', htidy'⟩
    · simp only [hnothing, List.foldl_nil]
      exact ⟨log, haccounts, hlogged, htidy⟩
    · simp only [hflushed, List.foldl_cons, List.foldl_nil]
      obtain ⟨output, hemitted, htext, hreturned⟩ := hlogged'.emitDataSequence (retained session.state)
      have hsame := sameBuffers_emitDataSequence (flush session.state).1 (retained session.state)
      refine ⟨log ++ [output], ⟨hemitted.events, ?_, hemitted.justified, ?_⟩, hemitted,
        ⟨fun hmode => ?_, fun hmode => ?_⟩⟩
      · rw [List.filterMap_append, List.filterMap_cons_none hreturned, List.filterMap_nil,
          List.append_nil]
        exact haccounts.returned
      · rw [← haccounts.text, List.flatMap_append, List.flatMap_singleton, htext]
        rw [hsame.retained_eq, hretained, List.append_nil]
      · exact hsame.pasteBuffer.trans (htidy'.outside (hsame.pasteMode.symm.trans hmode))
      · exact hsame.buffer.trans (htidy'.inside (hsame.pasteMode.symm.trans hmode))
  | flush =>
    unfold act
    rcases flush_cases hlogged htidy with hnothing | ⟨hflushed, hretained, hpending, hlogged', htidy'⟩
    · simp only [hnothing, List.append_nil]
      exact ⟨log, haccounts, hlogged, htidy⟩
    · simp only [hflushed]
      refine ⟨log ++ [.returned (retained session.state)], ⟨?_, ?_, ?_, ?_⟩, ?_, htidy'⟩
      · rw [List.filterMap_append, hlogged'.events]
        exact List.append_nil _
      · rw [List.filterMap_append, haccounts.returned]
        rfl
      · exact hlogged'.justified.concat nofun
      · rw [List.flatMap_append, List.flatMap_singleton, hretained, List.append_nil]
        exact haccounts.text
      · refine ⟨?_, hlogged'.justified.concat nofun, .inl ?_⟩
        · rw [List.filterMap_append, hlogged'.events]
          exact List.append_nil _
        · exact hpending

/-- No input is lost in a run in which no paste starts right after an incomplete sequence. -/
theorem session_accounts (actions : List Action)
    (hallowed : Machine.Keeps (fun session action => some (act session action)) Allowed {} actions)
    (session : Session)
    (hrun : Machine.run (fun session action => some (act session action)) {} actions = some session) :
    ∃ log, Accounts log session := by
  have hsound : Sound session := by
    refine Machine.run_keeps (fun before action after hbefore haction hstep => ?_) ?_ hallowed hrun
    · cases hstep
      exact sound_act hbefore haction
    · refine ⟨[], ⟨rfl, rfl, ?_, rfl⟩, ⟨rfl, ?_, .inl rfl⟩, ⟨fun _ => rfl, nofun⟩⟩
      · intro front unit back heq
        cases front <;> cases heq
      · intro front unit back heq
        cases front <;> cases heq
  obtain ⟨log, haccounts, -⟩ := hsound
  exact ⟨log, haccounts⟩

/-- A single `ESC` is lost when a paste starts before the timer fires. -/
theorem session_losesEscape :
    ∃ session, Machine.run (fun session action => some (act session action)) {}
        [.process [esc], .process bracketedPasteStart] = some session ∧
      ¬ ∃ log, Accounts log session := by
  have hstate : process (process {} [esc]) bracketedPasteStart =
      { pasteMode := true, pasteBuffer := [] } := by decide +kernel
  refine ⟨_, rfl, ?_⟩
  rintro ⟨log, haccounts⟩
  have hevents : log.filterMap Output.event? = [] := by
    rw [haccounts.events]
    exact congrArg Buffer.events hstate
  have htext := haccounts.text
  have hretained : retained (process (process {} [esc]) bracketedPasteStart) = bracketedPasteStart := by
    rw [hstate]
    rfl
  change log.flatMap Output.text ++ retained (process (process {} [esc]) bracketedPasteStart) =
    [esc] ++ bracketedPasteStart at htext
  rw [hretained, List.append_left_inj] at htext
  cases log with
  | nil => cases htext
  | cons output log =>
    cases output with
    | emitted event => cases hevents
    | returned sequence => cases haccounts.returned
    | suppressed unit => cases haccounts.justified [] unit log rfl

/-- A key and a paste, and an incomplete sequence that the timer flushes. -/
theorem session_accounts_paste :
    ∃ session, Machine.run (fun session action => some (act session action)) {}
        [.process ([0x61] ++ bracketedPasteStart ++ [0x62] ++ bracketedPasteEnd), .process [esc],
          .timeout] = some session ∧ ∃ log, Accounts log session := by
  refine ⟨_, rfl, session_accounts
    [.process ([0x61] ++ bracketedPasteStart ++ [0x62] ++ bracketedPasteEnd), .process [esc],
      .timeout] ⟨?_, fun _ h => ⟨?_, fun _ _ => ⟨trivial, fun _ _ => trivial⟩⟩⟩ _ rfl⟩
  · exact @Whole.pasted _ [0x61] ([0x62] ++ bracketedPasteEnd) [0x62] [] (by decide) (by decide)
      (by decide) (.plain (by decide))
  · cases h
    have hstate : process {} ([0x61] ++ bracketedPasteStart ++ [0x62] ++ bracketedPasteEnd) =
      { events := [.data [0x61], .paste [0x62]] } := by decide +kernel
    change WholeAfter (process {} _) [esc]
    rw [hstate]
    exact .plain (by decide)

end Tui.StdinBuffer
