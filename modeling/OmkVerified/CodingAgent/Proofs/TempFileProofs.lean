import OmkVerified.CodingAgent.OutputAccumulator

/-!
# The temp file of the output accumulator

However appends, snapshots and finishes are ordered, the chunks that were held back and those written to the temp file
are the data appended so far: opening the file moves all of them.
-/

namespace CodingAgent.OutputAccumulator

variable {acc : OutputAccumulator} {appended : List UInt8}

inductive Operation
  | append (data : List UInt8)
  | snapshot (persistIfTruncated : Bool)
  | finish

/-- An accumulator and the data that was appended to it. -/
structure Session where
  acc : OutputAccumulator
  appended : List UInt8

/-- One call; `path` is what `defaultTempFilePath` draws. An append that throws appends nothing. -/
def Session.step (path : String) (session : Session) : Operation → Session
  | .append data =>
    match session.acc.append path data with
    | .ok acc => ⟨acc, session.appended ++ data⟩
    | .error _ => session
  | .snapshot persistIfTruncated => { session with acc := (session.acc.snapshot path persistIfTruncated).1 }
  | .finish => { session with acc := session.acc.finish path }

/-- The calls in order. -/
def Session.run (options : OutputAccumulatorOptions) (operations : List (String × Operation)) : Session :=
  operations.foldl (fun session operation => session.step operation.1 operation.2) ⟨.new options, []⟩

/-- `closeTempFile`, which waits until all that was written is in the file: its bytes. -/
def closeTempFile (acc : OutputAccumulator) : Option (List UInt8) := acc.tempFile.map TempFile.written

/-- The data is held back in order, or it is in the file in order. -/
def Keeps (acc : OutputAccumulator) (appended : List UInt8) : Prop :=
  match acc.tempFile with
  | none => acc.rawChunks.flatten = appended
  | some file => file.written = appended

theorem trimTail_file (acc : OutputAccumulator) :
    acc.trimTail.tempFile = acc.tempFile ∧ acc.trimTail.rawChunks = acc.rawChunks := by
  unfold trimTail
  dsimp only
  split_ifs <;> exact ⟨rfl, rfl⟩

theorem countLines_file (acc : OutputAccumulator) (text : List Char) (bytes : Nat) :
    (acc.countLines text bytes).tempFile = acc.tempFile ∧ (acc.countLines text bytes).rawChunks = acc.rawChunks := by
  unfold countLines
  dsimp only
  split_ifs <;> exact ⟨rfl, rfl⟩

theorem appendDecodedText_file (acc : OutputAccumulator) (text : List Char) :
    (acc.appendDecodedText text).tempFile = acc.tempFile ∧ (acc.appendDecodedText text).rawChunks = acc.rawChunks := by
  unfold appendDecodedText
  dsimp only
  split_ifs
  · exact ⟨rfl, rfl⟩
  · rw [(countLines_file _ _ _).1, (countLines_file _ _ _).2, (trimTail_file _).1, (trimTail_file _).2]
    exact ⟨rfl, rfl⟩
  · rw [(countLines_file _ _ _).1, (countLines_file _ _ _).2]
    exact ⟨rfl, rfl⟩

theorem Keeps.appendDecodedText (h : Keeps acc appended) (text : List Char) :
    Keeps (acc.appendDecodedText text) appended := by
  unfold Keeps
  rw [(appendDecodedText_file acc text).1, (appendDecodedText_file acc text).2]
  exact h

theorem Keeps.ensureTempFile (h : Keeps acc appended) (path : String) : Keeps (acc.ensureTempFile path) appended := by
  unfold OutputAccumulator.ensureTempFile
  cases hfile : acc.tempFile with
  | some file => exact h
  | none =>
    unfold Keeps at h ⊢
    rw [hfile] at h
    exact h

theorem Keeps.writeTempFile (h : Keeps acc appended) (hopen : acc.tempFile.isSome = true) (data : List UInt8) :
    Keeps (acc.writeTempFile data) (appended ++ data) := by
  obtain ⟨file, hfile⟩ := Option.isSome_iff_exists.mp hopen
  unfold Keeps at h ⊢
  rw [hfile] at h
  rw [OutputAccumulator.writeTempFile, hfile, ← h]
  rfl

theorem ensureTempFile_isSome (acc : OutputAccumulator) (path : String) :
    (acc.ensureTempFile path).tempFile.isSome = true := by
  unfold OutputAccumulator.ensureTempFile
  split
  · next file hfile =>
    rw [hfile]
    rfl
  · rfl

theorem Keeps.append {path : String} {data : List UInt8} {acc' : OutputAccumulator} (h : Keeps acc appended)
    (hok : acc.append path data = .ok acc') : Keeps acc' (appended ++ data) := by
  by_cases hfinished : acc.finished = true
  · rw [OutputAccumulator.append, if_pos hfinished] at hok
    cases hok
  generalize hread : ({ acc with
      totalRawBytes := acc.totalRawBytes + data.length
      decoder := (acc.decoder.decodeStream data).1 } : OutputAccumulator) = read
  have hkeeps : Keeps read appended := by
    rw [← hread]
    exact h
  have hdecoded := hkeeps.appendDecodedText (acc.decoder.decodeStream data).2
  generalize hacc : read.appendDecodedText (acc.decoder.decodeStream data).2 = decoded at hdecoded
  have happend : acc.append path data =
      if decoded.tempFile.isSome || decoded.shouldUseTempFile then
        .ok ((decoded.ensureTempFile path).writeTempFile data)
      else if data.length > 0 then .ok { decoded with rawChunks := decoded.rawChunks ++ [data] }
      else .ok decoded := by
    unfold OutputAccumulator.append
    rw [if_neg hfinished, ← hacc, ← hread]
  rw [happend] at hok
  split_ifs at hok with hfile hdata
  · cases hok
    exact (hdecoded.ensureTempFile path).writeTempFile (ensureTempFile_isSome decoded path) data
  · cases hok
    unfold Keeps at hdecoded ⊢
    cases hnone : decoded.tempFile with
    | some file => simp [hnone] at hfile
    | none =>
      rw [hnone] at hdecoded
      dsimp only at hdecoded ⊢
      rw [List.flatten_append, hdecoded, List.flatten_singleton]
  · cases hok
    rw [List.length_eq_zero_iff.mp (Nat.eq_zero_of_not_pos hdata), List.append_nil]
    exact hdecoded

theorem Session.keeps_step {session : Session} (h : Keeps session.acc session.appended) (path : String)
    (operation : Operation) : Keeps (session.step path operation).acc (session.step path operation).appended := by
  cases operation with
  | append data =>
    cases hok : session.acc.append path data with
    | error =>
      simp only [step, hok]
      exact h
    | ok acc =>
      simp only [step, hok]
      exact h.append hok
  | snapshot persistIfTruncated =>
    unfold step snapshot
    dsimp only
    split_ifs
    · exact h.ensureTempFile path
    · exact h
  | finish =>
    unfold step finish
    dsimp only
    have hdecoded := @Keeps.appendDecodedText { session.acc with finished := true } _ h session.acc.decoder.decodeEnd
    split_ifs
    · exact h
    · exact hdecoded.ensureTempFile path
    · exact hdecoded

theorem Session.keeps_run (options : OutputAccumulatorOptions) (operations : List (String × Operation)) :
    Keeps (run options operations).acc (run options operations).appended := by
  induction operations using List.reverseRecOn with
  | nil => rfl
  | append_singleton operations operation ih =>
    unfold run at ih ⊢
    rw [List.foldl_append]
    exact keeps_step ih operation.1 operation.2

/-- Wherever the temp file was opened, it holds all that was appended. -/
theorem closeTempFile_run (options : OutputAccumulatorOptions) (operations : List (String × Operation)) (path : String)
    {bytes : List UInt8}
    (hclose : (Session.run options (operations ++ [(path, .finish)])).acc.closeTempFile = some bytes) :
    bytes = (Session.run options (operations ++ [(path, .finish)])).appended := by
  have hkeeps := Session.keeps_run options (operations ++ [(path, .finish)])
  obtain ⟨file, hfile, rfl⟩ := Option.map_eq_some_iff.mp hclose
  unfold Keeps at hkeeps
  rw [hfile] at hkeeps
  exact hkeeps

/-- A limit of one byte opens the file with the second chunk. -/
theorem closeTempFile_run_second :
    ([97, 10] : List UInt8) = (Session.run ⟨none, some 1⟩ ([("log", .append [97]), ("log", .append [10])] ++
      [("log", .finish)])).appended :=
  closeTempFile_run ⟨none, some 1⟩ [("log", .append [97]), ("log", .append [10])] "log" (by decide +kernel)

end CodingAgent.OutputAccumulator
