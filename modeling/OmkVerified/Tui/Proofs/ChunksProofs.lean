import OmkVerified.Tui.Proofs.StdinBufferProofs

/-!
# Chunks of a stream

A chunk does what its units do one after the other as long as no sequence is ambiguous, so where a
stream is cut makes no difference exactly when none of its sequences is.
-/

namespace Tui.StdinBuffer

open Lib

variable {state : Buffer} {unit : CodeUnit} {str rest sequence buffer : Text}

/-! ## Emitted sequences -/

@[simp]
theorem emitDataSequence_buffer :
    (emitDataSequence state sequence).buffer = state.buffer := by
  unfold emitDataSequence
  dsimp only
  split_ifs <;> rfl

@[simp]
theorem emitDataSequence_pasteMode :
    (emitDataSequence state sequence).pasteMode = state.pasteMode := by
  unfold emitDataSequence
  dsimp only
  split_ifs <;> rfl

@[simp]
theorem emitDataSequence_pasteBuffer :
    (emitDataSequence state sequence).pasteBuffer = state.pasteBuffer := by
  unfold emitDataSequence
  dsimp only
  split_ifs <;> rfl

theorem emitDataSequence_with (state : Buffer) (buffer sequence : Text) :
    emitDataSequence { state with buffer } sequence =
      { emitDataSequence state sequence with buffer } := by
  unfold emitDataSequence
  dsimp only
  split_ifs <;> rfl

theorem foldl_emit_with (state : Buffer) (buffer : Text) (sequences : List Text) :
    sequences.foldl emitDataSequence { state with buffer } =
      { sequences.foldl emitDataSequence state with buffer } := by
  induction sequences generalizing state with
  | nil => rfl
  | cons sequence sequences ih =>
    rw [List.foldl_cons, List.foldl_cons, emitDataSequence_with]
    exact ih (emitDataSequence state sequence)

theorem events_emitDataSequence (h : 1 < sequence.length) :
    (emitDataSequence state sequence).events = state.events ++ [.data sequence] := by
  unfold emitDataSequence
  dsimp only
  rw [if_neg (by omega : ¬ sequence.length = 1), if_neg (by simp)]

/-! ## Processing -/

/-- What is left after a paste is processed. -/
def resume (state : Buffer) (remaining : Text) : Buffer :=
  if 0 < remaining.length then process state remaining else state

/-- The paste that starts with `text`. -/
def takePaste (started : Buffer) (text : Text) : Buffer :=
  match cutFirst bracketedPasteEnd text with
  | some (content, remaining) => resume (emitPaste started content) remaining
  | none => started

theorem process_paste (hmode : state.pasteMode = true) (hne : str ≠ []) :
    process state str =
      takePaste { state with buffer := [], pasteBuffer := state.pasteBuffer ++ (state.buffer ++ str) }
        (state.pasteBuffer ++ (state.buffer ++ str)) := by
  have hlength : ¬ (str.length = 0 ∧ state.buffer.length = 0) :=
    fun h => hne (List.length_eq_zero_iff.mp h.1)
  unfold process takePaste
  rw [if_neg hlength, if_pos hmode]
  dsimp only
  split
  · next hend =>
    rw [hend]
    rfl
  · next hend => rw [hend]

theorem process_keys (hmode : state.pasteMode = false) (hne : str ≠ []) :
    process state str =
      match cutFirst bracketedPasteStart (state.buffer ++ str) with
      | some (beforePaste, pasteBuffer) =>
        takePaste (startPaste state beforePaste pasteBuffer) pasteBuffer
      | none =>
        (extractCompleteSequences (state.buffer ++ str)).1.foldl emitDataSequence
          { state with buffer := (extractCompleteSequences (state.buffer ++ str)).2 } := by
  have hlength : ¬ (str.length = 0 ∧ state.buffer.length = 0) :=
    fun h => hne (List.length_eq_zero_iff.mp h.1)
  have hkeys : ¬ state.pasteMode = true := by
    rw [hmode]
    decide
  conv_lhs => unfold process
  rw [if_neg hlength, if_neg hkeys]
  dsimp only
  split
  · next hstart =>
    rw [hstart]
    unfold takePaste
    dsimp only
    split
    · next hend =>
      rw [hend]
      rfl
    · next hend => rw [hend]
  · next hstart => rw [hstart]

/-! ## One unit and what follows it -/

theorem resume_nil : resume state [] = state := rfl

theorem resume_of_ne_nil (h : rest ≠ []) : resume state rest = process state rest :=
  if_pos (List.length_pos_of_ne_nil h)

theorem startPaste_with (state : Buffer) (buffer beforePaste pasteBuffer : Text) :
    startPaste { state with buffer } beforePaste pasteBuffer =
      startPaste state beforePaste pasteBuffer := by
  unfold startPaste
  rw [foldl_emit_with]
  split_ifs <;> rfl

theorem startPaste_pending {beforePaste pasteBuffer : Text} (h : Pending beforePaste) :
    startPaste state beforePaste pasteBuffer =
      { state with
        pendingKittyPrintableCodepoint := none, buffer := [], pasteMode := true, pasteBuffer } := by
  unfold startPaste
  rw [extract_pending h]
  split_ifs <;> rfl

theorem takePaste_startPaste (beforePaste : Text) :
    takePaste (startPaste state beforePaste rest) rest =
      resume (startPaste state beforePaste []) rest := by
  by_cases hrest : rest = []
  · rw [hrest]
    rfl
  · rw [resume_of_ne_nil hrest, process_paste rfl hrest]
    rfl

theorem process_start {front : Text} (hmode : state.pasteMode = false)
    (hnew : ¬ bracketedPasteStart <:+: state.buffer)
    (hfront : state.buffer ++ [unit] = front ++ bracketedPasteStart) :
    process state (unit :: rest) = resume (startPaste state front []) rest := by
  rw [process_keys hmode (by simp), cutFirst_of_suffix hnew hfront rest]
  exact takePaste_startPaste front

theorem process_wait (hmode : state.pasteMode = false) (hwait : Pending (state.buffer ++ [unit]))
    (hnew : ¬ bracketedPasteStart <:+: state.buffer ++ [unit]) :
    process state (unit :: rest) = resume { state with buffer := state.buffer ++ [unit] } rest := by
  rw [process_keys hmode (by simp)]
  by_cases hrest : rest = []
  · rw [hrest, resume_nil, cutFirst_eq_none_iff.mpr hnew, extract_pending hwait]
    rfl
  · rw [resume_of_ne_nil hrest, process_keys (by exact hmode) hrest, List.append_cons]
    cases hcut : cutFirst bracketedPasteStart (state.buffer ++ [unit] ++ rest) with
    | none => rfl
    | some parts =>
      dsimp only
      rw [startPaste_with state (state.buffer ++ [unit])]

theorem process_end {front : Text} (hmode : state.pasteMode = true) (hbuffer : state.buffer = [])
    (hnew : ¬ bracketedPasteEnd <:+: state.pasteBuffer)
    (hfront : state.pasteBuffer ++ [unit] = front ++ bracketedPasteEnd) :
    process state (unit :: rest) = resume (emitPaste state front) rest := by
  rw [process_paste hmode (by simp), hbuffer, List.nil_append]
  unfold takePaste
  rw [cutFirst_of_suffix hnew hfront rest]
  dsimp only
  unfold emitPaste
  rw [← hbuffer]

theorem process_content (hmode : state.pasteMode = true) (hbuffer : state.buffer = [])
    (hnew : ¬ bracketedPasteEnd <:+: state.pasteBuffer ++ [unit]) :
    process state (unit :: rest) =
      resume { state with pasteBuffer := state.pasteBuffer ++ [unit] } rest := by
  rw [process_paste hmode (by simp), hbuffer, List.nil_append, List.append_cons]
  by_cases hrest : rest = []
  · rw [hrest, resume_nil, List.append_nil]
    unfold takePaste
    rw [cutFirst_eq_none_iff.mpr hnew, ← hbuffer]
  · rw [resume_of_ne_nil hrest, process_paste (by exact hmode) hrest]
    rfl

/-- What is not ambiguous is cut in the same way whatever follows. -/
theorem cutFirst_complete (hcomplete : Completes state.buffer unit)
    (hnew : ¬ bracketedPasteStart <:+: state.buffer ++ [unit])
    (hmarker : ¬ CutsMarker (state.buffer ++ [unit]) rest) :
    cutFirst bracketedPasteStart (state.buffer ++ unit :: rest) =
      (cutFirst bracketedPasteStart rest).map fun parts =>
        (state.buffer ++ [unit] ++ parts.1, parts.2) := by
  rw [List.append_cons]
  apply cutFirst_append
  intro k hk hstart
  apply hmarker
  refine ⟨k, ?_, hk, hstart⟩
  by_contra hzero
  rw [Nat.eq_zero_of_not_pos hzero, List.drop_zero] at hstart
  -- a sequence that is complete is no start of the marker
  rcases Nat.lt_or_ge (state.buffer ++ [unit]).length 6 with hshort | hlong
  · have hpre : state.buffer ++ [unit] <+: bracketedPasteStart :=
      List.prefix_of_prefix_length_le (List.prefix_append _ rest) hstart (by
        exact hshort.le)
    exact hcomplete.status (pending_pasteStart hpre (by simp) hshort)
  · have hpre : bracketedPasteStart <+: state.buffer ++ [unit] :=
      List.prefix_of_prefix_length_le hstart (List.prefix_append _ rest) hlong
    exact hnew hpre.isInfix

theorem DoubleEscape.of_prefix {start : Text} (h : DoubleEscape sequence start)
    (hstart : start <+: rest) : DoubleEscape sequence rest := by
  obtain ⟨hsequence, next, hnext, hintroducer⟩ := h
  obtain ⟨after, rfl⟩ := hstart
  refine ⟨hsequence, next, ?_, hintroducer⟩
  cases start with
  | nil => cases hnext
  | cons first start => exact hnext

theorem process_complete (hmode : state.pasteMode = false) (hcomplete : Completes state.buffer unit)
    (hnew : ¬ bracketedPasteStart <:+: state.buffer ++ [unit])
    (hdouble : ¬ DoubleEscape (state.buffer ++ [unit]) rest)
    (hmarker : ¬ CutsMarker (state.buffer ++ [unit]) rest) :
    process state (unit :: rest) =
      resume (emitDataSequence { state with buffer := [] } (state.buffer ++ [unit])) rest := by
  rw [process_keys hmode (by simp), cutFirst_complete hcomplete hnew hmarker]
  rw [emitDataSequence_with state []]
  cases hcut : cutFirst bracketedPasteStart rest with
  | none =>
    dsimp only [Option.map_none]
    rw [List.append_cons, extract_append hcomplete hdouble, List.foldl_cons]
    rw [emitDataSequence_with state (extractCompleteSequences rest).2]
    by_cases hrest : rest = []
    · rw [hrest]
      rfl
    · rw [resume_of_ne_nil hrest, process_keys (by simpa using hmode) hrest, List.nil_append, hcut]
  | some parts =>
    obtain ⟨beforePaste, pasteBuffer⟩ := parts
    have hrest : rest ≠ [] := by
      rintro rfl
      cases hcut
    have hbefore : beforePaste <+: rest := by
      rw [cutFirst_eq_some hcut, List.append_assoc]
      exact List.prefix_append _ _
    have hdouble : ¬ DoubleEscape (state.buffer ++ [unit]) beforePaste :=
      fun h => hdouble (h.of_prefix hbefore)
    dsimp only [Option.map_some]
    rw [resume_of_ne_nil hrest, process_keys (by simpa using hmode) hrest, List.nil_append, hcut]
    dsimp only
    rw [startPaste_with (emitDataSequence state (state.buffer ++ [unit])) []]
    apply congrArg fun started => takePaste started pasteBuffer
    unfold startPaste
    rw [extract_append hcomplete hdouble, List.foldl_cons, if_pos (by simp)]
    split_ifs with hlength
    · rfl
    · have hnil := List.length_eq_zero_iff.mp (Nat.eq_zero_of_not_pos hlength)
      rw [hnil]
      rfl

/-! ## A buffer that waits -/

theorem codepoint_ge {codepoint : Nat}
    (h : codepoint ∈ parseUnmodifiedKittyPrintableCodepoint sequence) : 32 ≤ codepoint := by
  unfold parseUnmodifiedKittyPrintableCodepoint at h
  split at h
  · split at h
    · split_ifs at h with hkitty
      · cases h
        exact hkitty.2
      · cases h
    · cases h
  · cases h

theorem codepoint_emitDataSequence :
    ∀ codepoint ∈ (emitDataSequence state sequence).pendingKittyPrintableCodepoint,
      32 ≤ codepoint := by
  intro codepoint hcodepoint
  unfold emitDataSequence at hcodepoint
  dsimp only at hcodepoint
  by_cases hraw : (if sequence.length = 1 then sequence.head? else none) ≠ none ∧
      (if sequence.length = 1 then sequence.head? else none) =
        state.pendingKittyPrintableCodepoint
  · rw [if_pos hraw] at hcodepoint
    cases hcodepoint
  · rw [if_neg hraw] at hcodepoint
    exact codepoint_ge hcodepoint

/-- One more unit starts a paste, leaves the sequence unfinished, or completes it. -/
theorem Pending.cases {pending : Text} (hpending : Pending pending)
    (hnew : ¬ bracketedPasteStart <:+: pending) (unit : CodeUnit) :
    bracketedPasteStart <:+ pending ++ [unit] ∨
      (¬ bracketedPasteStart <:+: pending ++ [unit] ∧ Pending (pending ++ [unit])) ∨
      (¬ bracketedPasteStart <:+: pending ++ [unit] ∧ Completes pending unit) := by
  by_cases hend : bracketedPasteStart <:+ pending ++ [unit]
  · exact .inl hend
  · right
    have hnew := not_infix_concat hnew hend
    by_cases hstatus : isCompleteSequence (pending ++ [unit]) = .incomplete
    · exact .inl ⟨hnew, hpending.concat hstatus⟩
    · exact .inr ⟨hnew, hpending, hstatus⟩

theorem not_cutsMarker_nil (hnew : ¬ bracketedPasteStart <:+: sequence) :
    ¬ CutsMarker sequence [] := by
  rintro ⟨k, _, _, hstart⟩
  rw [List.append_nil] at hstart
  exact hnew (hstart.isInfix.trans (List.drop_suffix k sequence).isInfix)

theorem not_doubleEscape_nil : ¬ DoubleEscape sequence [] := by
  rintro ⟨_, next, hnext, _⟩
  cases hnext

variable {mode : Mode}

theorem Waits.process_cons (h : Waits state mode) (hclear : ¬ Ambiguous mode unit rest) :
    process state (unit :: rest) = resume (process state [unit]) rest := by
  cases mode with
  | keys pending =>
    obtain ⟨hmode, rfl, hpending, hnew⟩ := h.mode
    rcases hpending.cases hnew unit with ⟨front, hfront⟩ | ⟨hnew, hwait⟩ | ⟨hnew, hcomplete⟩
    · rw [process_start hmode hnew hfront.symm, process_start hmode hnew hfront.symm, resume_nil]
    · rw [process_wait hmode hwait hnew, process_wait hmode hwait hnew, resume_nil]
    · have hunit := process_complete hmode hcomplete hnew not_doubleEscape_nil (not_cutsMarker_nil hnew)
      rw [hunit, resume_nil]
      have hend : ¬ bracketedPasteStart <:+ state.buffer ++ [unit] := fun hend => hnew hend.isInfix
      rcases hcomplete.cases with ⟨hnil, hesc⟩ | hstatus
      · apply process_complete hmode hcomplete hnew
        · rintro ⟨hdouble, _⟩
          rw [hnil] at hdouble
          cases hdouble
        · rintro ⟨k, hpos, hlength, _⟩
          rw [hnil, List.nil_append, List.length_singleton] at hlength
          omega
      · apply process_complete hmode hcomplete hnew
        · exact fun hdouble => hclear ⟨hend, hstatus, .inl hdouble⟩
        · exact fun hmarker => hclear ⟨hend, hstatus, .inr hmarker⟩
  | paste content =>
    obtain ⟨hmode, hbuffer, rfl, hnew⟩ := h.mode
    by_cases hend : bracketedPasteEnd <:+ state.pasteBuffer ++ [unit]
    · obtain ⟨front, hfront⟩ := hend
      rw [process_end hmode hbuffer hnew hfront.symm, process_end hmode hbuffer hnew hfront.symm]
      rfl
    · have hnew := not_infix_concat hnew hend
      rw [process_content hmode hbuffer hnew, process_content hmode hbuffer hnew]
      rfl

theorem Waits.process_unit (h : Waits state mode) (unit : CodeUnit) :
    Waits (process state [unit]) (nextMode mode unit) := by
  have hcodepoint := h.codepoint
  cases mode with
  | keys pending =>
    obtain ⟨hmode, rfl, hpending, hnew⟩ := h.mode
    unfold nextMode
    dsimp only
    rcases hpending.cases hnew unit with hend | ⟨hnew, hwait⟩ | ⟨hnew, hcomplete⟩
    · obtain ⟨front, hfront⟩ := hend
      rw [if_pos ⟨front, hfront⟩, process_start hmode hnew hfront.symm, resume_nil]
      exact ⟨by simp [startPaste], rfl, rfl, rfl, by decide⟩
    · have hend : ¬ bracketedPasteStart <:+ state.buffer ++ [unit] := fun hend => hnew hend.isInfix
      rw [if_neg hend, if_pos (hwait _ (List.prefix_refl _) (by simp))]
      rw [process_wait hmode hwait hnew, resume_nil]
      exact ⟨hcodepoint, hmode, rfl, hwait, hnew⟩
    · have hend : ¬ bracketedPasteStart <:+ state.buffer ++ [unit] := fun hend => hnew hend.isInfix
      rw [if_neg hend, if_neg hcomplete.status]
      rw [process_complete hmode hcomplete hnew not_doubleEscape_nil (not_cutsMarker_nil hnew)]
      rw [resume_nil]
      refine ⟨codepoint_emitDataSequence, ?_, ?_, Pending.nil, by decide⟩
      · simpa using hmode
      · simp
  | paste content =>
    obtain ⟨hmode, hbuffer, rfl, hnew⟩ := h.mode
    unfold nextMode
    dsimp only
    by_cases hend : bracketedPasteEnd <:+ state.pasteBuffer ++ [unit]
    · obtain ⟨front, hfront⟩ := hend
      rw [if_pos ⟨front, hfront⟩, process_end hmode hbuffer hnew hfront.symm, resume_nil]
      exact ⟨by simp [emitPaste], rfl, hbuffer, Pending.nil, by decide⟩
    · have hnew := not_infix_concat hnew hend
      rw [if_neg hend, process_content hmode hbuffer hnew, resume_nil]
      exact ⟨hcodepoint, hmode, hbuffer, rfl, hnew⟩

/-! ## Streams that are clear -/

/-- The units of a text are fed one by one. -/
def processUnits (state : Buffer) (str : Text) : Buffer :=
  str.foldl (fun state unit => process state [unit]) state

theorem Waits.units (h : Waits state mode) (str : Text) :
    Waits (processUnits state str) (str.foldl nextMode mode) := by
  induction str generalizing state mode with
  | nil => exact h
  | cons unit rest ih => exact ih (h.process_unit unit)

theorem waits_new : Waits {} (.keys []) := by
  refine ⟨?_, rfl, rfl, Pending.nil, by decide⟩
  intro codepoint hcodepoint
  cases hcodepoint

theorem Ambiguous.append {after : Text} (h : Ambiguous mode unit rest) :
    Ambiguous mode unit (rest ++ after) := by
  cases mode with
  | keys pending =>
    obtain ⟨hend, hstatus, hdouble | ⟨k, hpos, hlength, hstart⟩⟩ := h
    · exact ⟨hend, hstatus, .inl (hdouble.of_prefix (List.prefix_append rest after))⟩
    · refine ⟨hend, hstatus, .inr ⟨k, hpos, hlength, ?_⟩⟩
      rw [← List.append_assoc, List.drop_append_of_le_length]
      · exact hstart.trans (List.prefix_append _ _)
      · rw [List.length_append]
        omega
  | paste content => exact h

theorem Clear.of_append {after : Text} (h : Clear mode (str ++ after)) :
    Clear mode str ∧ Clear (str.foldl nextMode mode) after := by
  induction str generalizing mode with
  | nil => exact ⟨trivial, h⟩
  | cons unit rest ih =>
    obtain ⟨hunit, hrest⟩ := h
    have hrest := ih hrest
    exact ⟨⟨fun hambiguous => hunit hambiguous.append, hrest.1⟩, hrest.2⟩

theorem Waits.process_eq_units (h : Waits state mode) (hclear : Clear mode str) (hne : str ≠ []) :
    process state str = processUnits state str := by
  induction str generalizing state mode with
  | nil => exact absurd rfl hne
  | cons unit rest ih =>
    rw [h.process_cons hclear.1]
    by_cases hrest : rest = []
    · rw [hrest]
      rfl
    · rw [resume_of_ne_nil hrest]
      exact ih (h.process_unit unit) hclear.2 hrest

theorem Waits.chunks_eq_units {chunks : List Text} (h : Waits state mode)
    (hclear : Clear mode chunks.flatten) (hne : ∀ chunk ∈ chunks, chunk ≠ []) :
    chunks.foldl process state = processUnits state chunks.flatten := by
  induction chunks generalizing state mode with
  | nil => rfl
  | cons chunk chunks ih =>
    rw [List.flatten_cons] at hclear
    obtain ⟨hchunk, hrest⟩ := hclear.of_append
    rw [List.foldl_cons, h.process_eq_units hchunk (hne chunk (by simp))]
    rw [ih (h.units chunk) hrest fun chunk hmem => hne chunk (List.mem_cons_of_mem _ hmem)]
    unfold processUnits
    rw [List.flatten_cons, List.foldl_append]

/-! ## Streams that are not -/

theorem prefix_events_emitDataSequence :
    state.events <+: (emitDataSequence state sequence).events := by
  unfold emitDataSequence
  dsimp only
  by_cases hraw : (if sequence.length = 1 then sequence.head? else none) ≠ none ∧
      (if sequence.length = 1 then sequence.head? else none) =
        state.pendingKittyPrintableCodepoint
  · rw [if_pos hraw]
  · rw [if_neg hraw]
    exact List.prefix_append _ _

theorem events_foldl_emit (sequences : List Text) :
    state.events <+: (sequences.foldl emitDataSequence state).events := by
  induction sequences generalizing state with
  | nil => exact List.prefix_refl _
  | cons sequence sequences ih => exact (prefix_events_emitDataSequence).trans ih

theorem events_startPaste (beforePaste pasteBuffer : Text) :
    state.events <+: (startPaste state beforePaste pasteBuffer).events := by
  unfold startPaste
  dsimp only
  split_ifs
  · exact events_foldl_emit _
  · exact List.prefix_refl _

theorem events_process (state : Buffer) (str : Text) :
    state.events <+: (process state str).events := by
  fun_induction process state str with
  | case1 => exact prefix_events_emitDataSequence
  | case2 state str hne hmode pasteBuffer content remaining hend ended hpos ih =>
    exact (List.prefix_append _ _).trans ih
  | case3 state str hne hmode pasteBuffer content remaining hend ended hpos =>
    exact List.prefix_append _ _
  | case4 state str hne hmode pasteBuffer hend => exact List.prefix_refl _
  | case5 state str hne hmode beforePaste pasteBuffer hstart started content remaining hend ended
      hpos ih =>
    exact ((events_startPaste beforePaste pasteBuffer).trans (List.prefix_append _ _)).trans ih
  | case6 state str hne hmode beforePaste pasteBuffer hstart started content remaining hend ended
      hpos =>
    exact (events_startPaste beforePaste pasteBuffer).trans (List.prefix_append _ _)
  | case7 state str hne hmode beforePaste pasteBuffer hstart started hend =>
    exact events_startPaste beforePaste pasteBuffer
  | case8 state str hne hmode hstart result =>
    rw [foldl_emit_with]
    exact events_foldl_emit result.1

theorem events_resume : state.events <+: (resume state rest).events := by
  unfold resume
  split_ifs
  · exact events_process state rest
  · exact List.prefix_refl _

theorem events_processUnits : state.events <+: (processUnits state str).events := by
  induction str generalizing state with
  | nil => exact List.prefix_refl _
  | cons unit rest ih => exact (events_process state [unit]).trans ih

theorem exists_ambiguous (h : ¬ Clear mode str) :
    ∃ before unit rest, str = before ++ unit :: rest ∧
      Ambiguous (before.foldl nextMode mode) unit rest := by
  induction str generalizing mode with
  | nil => exact absurd trivial h
  | cons unit rest ih =>
    by_cases hunit : Ambiguous mode unit rest
    · exact ⟨[], unit, rest, rfl, hunit⟩
    · have hrest : ¬ Clear (nextMode mode unit) rest := fun hrest => h ⟨hunit, hrest⟩
      obtain ⟨before, next, after, rfl, hambiguous⟩ := ih hrest
      exact ⟨unit :: before, next, after, rfl, hambiguous⟩

theorem getElem?_of_concat {events after : List Event} {event : Event}
    (h : events ++ [event] <+: after) : after[events.length]? = some event := by
  obtain ⟨later, rfl⟩ := h
  simp

theorem events_takePaste (started : Buffer) (text : Text) :
    (takePaste started text).events = started.events ∨
      ∃ content, started.events ++ [.paste content] <+: (takePaste started text).events := by
  unfold takePaste
  split
  · next content remaining hend =>
    right
    refine ⟨content, ?_⟩
    have hresume : (emitPaste started content).events <+:
        (resume (emitPaste started content) remaining).events := events_resume
    exact hresume
  · exact .inl rfl

theorem extract_doubleEscape {next : CodeUnit} (h : isIntroducer next = true) :
    extractCompleteSequences [esc, esc, next] = ([[esc]], [esc, next]) := by
  unfold isIntroducer at h
  simp only [Bool.or_eq_true, decide_eq_true_eq] at h
  rcases h with (((rfl | rfl) | rfl) | rfl) | rfl <;> decide

/-- A chunk that ends with the unit after a double `ESC` emits the first `ESC` alone. -/
theorem Waits.process_double {next : CodeUnit} (h : Waits state (.keys state.buffer))
    (hdouble : state.buffer ++ [unit] = [esc, esc]) (hnext : isIntroducer next = true) :
    (process state [unit, next]).events = state.events ++ [.data [esc]] := by
  obtain ⟨hmode, -, -, -⟩ := h.mode
  have htext : state.buffer ++ [unit, next] = [esc, esc, next] := by
    rw [List.append_cons, hdouble]
    rfl
  have hshort : ¬ bracketedPasteStart <:+: [esc, esc, next] := by
    intro hinfix
    exact absurd hinfix.length_le (by simp [bracketedPasteStart])
  have hcodepoint : state.pendingKittyPrintableCodepoint ≠ some esc := by
    intro hesc
    exact absurd (h.codepoint esc hesc) (by decide)
  rw [process_keys hmode (by simp), htext, cutFirst_eq_none_iff.mpr hshort]
  dsimp only
  rw [extract_doubleEscape hnext, List.foldl_cons, List.foldl_nil]
  unfold emitDataSequence
  dsimp only
  rw [if_neg]
  rintro ⟨_, heq⟩
  exact hcodepoint heq.symm

/-- A chunk in which a marker begins inside a sequence emits no data before the paste. -/
theorem Waits.process_marker {k : Nat} (h : Waits state (.keys state.buffer))
    (hk : k < (state.buffer ++ [unit]).length)
    (hstart : bracketedPasteStart <+: (state.buffer ++ [unit] ++ rest).drop k) (sequence : Text) :
    (process state (unit :: rest)).events[state.events.length]? ≠ some (.data sequence) := by
  obtain ⟨hmode, -, hpending, -⟩ := h.mode
  rw [← List.append_cons] at hstart
  rw [process_keys hmode (by simp)]
  cases hcut : cutFirst bracketedPasteStart (state.buffer ++ unit :: rest) with
  | none =>
    exfalso
    apply cutFirst_eq_none_iff.mp hcut
    exact hstart.isInfix.trans (List.drop_suffix k _).isInfix
  | some parts =>
    obtain ⟨beforePaste, pasteBuffer⟩ := parts
    dsimp only
    -- the marker begins in the last unit of the sequence at the latest
    have hbefore : beforePaste <+: state.buffer := by
      have hlength := length_le_of_prefix_drop hcut hstart
      rw [List.length_append, List.length_singleton] at hk
      have hpre : beforePaste <+: state.buffer ++ unit :: rest := by
        rw [cutFirst_eq_some hcut, List.append_assoc]
        exact List.prefix_append _ _
      exact List.prefix_of_prefix_length_le hpre (List.prefix_append _ _) (by omega)
    have hstarted : (startPaste state beforePaste pasteBuffer).events = state.events := by
      rw [startPaste_pending (hpending.of_prefix hbefore)]
    rcases events_takePaste (startPaste state beforePaste pasteBuffer) pasteBuffer with
      hevents | ⟨content, hevents⟩
    · rw [hevents, hstarted, List.getElem?_eq_none le_rfl]
      simp
    · rw [hstarted] at hevents
      rw [getElem?_of_concat hevents]
      simp

/-- After an ambiguous sequence another chunk emits other events. -/
theorem Waits.exists_chunk (h : Waits state mode) (hambiguous : Ambiguous mode unit rest) :
    ∃ chunk after, chunk ≠ [] ∧ chunk ++ after = unit :: rest ∧
      (processUnits (process state chunk) after).events ≠
        (processUnits state (unit :: rest)).events := by
  cases mode with
  | paste content => exact hambiguous.elim
  | keys pending =>
    obtain ⟨hmode, rfl, hpending, hnew⟩ := h.mode
    obtain ⟨hend, hstatus, hcuts⟩ := hambiguous
    have hnew' := not_infix_concat hnew hend
    have hcomplete : Completes state.buffer unit := ⟨hpending, by rw [hstatus]; decide⟩
    have hlong : 1 < (state.buffer ++ [unit]).length := by
      rcases hcuts with ⟨hdouble, _⟩ | ⟨k, hpos, hlength, _⟩
      · rw [hdouble]
        decide
      · omega
    -- unit by unit the sequence is emitted
    have hunits : state.events ++ [.data (state.buffer ++ [unit])] <+:
        (processUnits state (unit :: rest)).events := by
      have hunit := process_complete hmode hcomplete hnew' not_doubleEscape_nil
        (not_cutsMarker_nil hnew')
      rw [resume_nil, emitDataSequence_with state []] at hunit
      have hevents := congrArg Buffer.events hunit
      dsimp only at hevents
      rw [events_emitDataSequence hlong] at hevents
      rw [← hevents]
      exact events_processUnits
    rcases hcuts with ⟨hdouble, next, hnext, hintroducer⟩ | ⟨k, hpos, hlength, hstart⟩
    · -- a chunk that ends with the next unit emits the first `ESC` alone
      obtain ⟨after, rfl⟩ : ∃ after, rest = next :: after := List.head?_eq_some_iff.mp hnext
      refine ⟨[unit, next], after, by simp, rfl, ?_⟩
      have hchunk := h.process_double hdouble hintroducer
      have hfirst : state.events ++ [.data [esc]] <+:
          (processUnits (process state [unit, next]) after).events := by
        rw [← hchunk]
        exact events_processUnits
      intro heq
      have hdata := getElem?_of_concat hfirst
      rw [heq, getElem?_of_concat hunits, hdouble] at hdata
      exact absurd hdata (by decide)
    · -- the whole rest emits no data before the paste
      refine ⟨unit :: rest, [], by simp, by simp, ?_⟩
      have hchunk := h.process_marker hlength hstart
      intro heq
      have hdata := getElem?_of_concat hunits
      rw [← heq] at hdata
      exact hchunk _ hdata

/-! ## Cuttings -/

/-- The stream is cut after every unit. -/
def unitChunks (str : Text) : List Text := str.map fun unit => [unit]

theorem unitChunks_ne_nil (str : Text) : ∀ chunk ∈ unitChunks str, chunk ≠ [] := by
  intro chunk hchunk
  obtain ⟨unit, -, rfl⟩ := List.mem_map.mp hchunk
  exact List.cons_ne_nil unit []

theorem flatten_unitChunks (str : Text) : (unitChunks str).flatten = str := by
  induction str with
  | nil => rfl
  | cons unit rest ih =>
    unfold unitChunks at ih ⊢
    rw [List.map_cons, List.flatten_cons, ih]
    rfl

theorem foldl_unitChunks (state : Buffer) (str : Text) :
    (unitChunks str).foldl process state = processUnits state str := List.foldl_map

/-- Where a stream is cut makes no difference exactly when none of its sequences is ambiguous. -/
theorem feed_eq_iff_clear (stream : Text) :
    (∀ chunks chunks' : List Text, (∀ chunk ∈ chunks, chunk ≠ []) → (∀ chunk ∈ chunks', chunk ≠ []) →
      chunks.flatten = stream → chunks'.flatten = stream → feed chunks = feed chunks') ↔
    Clear (.keys []) stream := by
  constructor
  · intro hsame
    by_contra hunclear
    obtain ⟨before, unit, rest, rfl, hambiguous⟩ := exists_ambiguous hunclear
    have hwaits := waits_new.units before
    obtain ⟨chunk, after, hne, heq, hevents⟩ := hwaits.exists_chunk hambiguous
    have hfeed := hsame (unitChunks before ++ chunk :: unitChunks after)
      (unitChunks (before ++ unit :: rest)) ?_ (unitChunks_ne_nil _) ?_ (flatten_unitChunks _)
    · apply hevents
      have hfirst := congrArg Prod.fst hfeed
      unfold feed at hfirst
      dsimp only at hfirst
      rw [List.foldl_append, List.foldl_cons, foldl_unitChunks, foldl_unitChunks] at hfirst
      rw [foldl_unitChunks] at hfirst
      rw [hfirst]
      unfold processUnits
      rw [List.foldl_append]
    · intro part hpart
      rcases List.mem_append.mp hpart with hpart | hpart
      · exact unitChunks_ne_nil before part hpart
      · rcases List.mem_cons.mp hpart with rfl | hpart
        · exact hne
        · exact unitChunks_ne_nil after part hpart
    · rw [List.flatten_append, List.flatten_cons, flatten_unitChunks, flatten_unitChunks, heq]
  · intro hclear chunks chunks' hne hne' hflatten hflatten'
    unfold feed
    rw [waits_new.chunks_eq_units (hflatten ▸ hclear) hne, hflatten]
    rw [waits_new.chunks_eq_units (hflatten' ▸ hclear) hne', hflatten']

/-- The escape key and its release, cut after the second `ESC`. -/
theorem doubleEscape_depends_on_chunks :
    [[esc, esc], [0x5b, 0x32, 0x37, 0x75]].flatten = [[esc, esc, 0x5b, 0x32, 0x37, 0x75]].flatten ∧
      feed [[esc, esc], [0x5b, 0x32, 0x37, 0x75]] ≠ feed [[esc, esc, 0x5b, 0x32, 0x37, 0x75]] := by
  decide +kernel

end Tui.StdinBuffer
